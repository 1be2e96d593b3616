import LibZmq.Sockets.Requests

/-! What the user of an XPUB socket is told of the subscriptions, when neither manual nor verbose mode is
on. For each topic the user should see the edges of one signal: whether any pipe is subscribed to it. -/

namespace Zmq

open List Finset

/-- The edges of a signal that was off at first and is `on` now, rising edges as `true`. -/
structure Edges (l : List Bool) (on : Prop) : Prop where
  head : l.head? ≠ some false
  alternates : l.IsChain (· ≠ ·)
  last : l.getLast? = some true ↔ on

namespace Edges

variable {l l' : List Bool} {on : Prop} {b : Bool}

theorem nil : Edges [] False := ⟨by simp, .nil, by simp⟩

theorem snoc (h : Edges l on) (hb : b = true ↔ ¬ on) : Edges (l ++ [b]) (b = true) := by
  refine ⟨?_, ?_, by simp⟩
  · cases l with
    | nil =>
      have hoff : ¬ on := fun ho => by simpa using h.last.mpr ho
      simp [hb.mpr hoff]
    | cons c l => exact h.head
  · refine isChain_append.mpr ⟨h.alternates, isChain_singleton b, ?_⟩
    rintro x hx y hy rfl
    obtain rfl : b = x := by simpa using hy
    have hon : on ↔ b = true := by
      rw [← h.last, hx, Option.some.injEq]
    by_cases ho : on
    · exact hb.mp (hon.mp ho) ho
    · exact ho (hon.mpr (hb.mpr ho))

theorem fall (h : Edges (l ++ false :: l') on) : l.getLast? = some true := by
  cases l using reverseRecOn with
  | nil => exact absurd rfl h.head
  | append_singleton l b =>
    cases b with
    | true => simp
    | false =>
      have := (isChain_append.mp h.alternates).2.2 false (by simp) false rfl
      exact absurd rfl this

end Edges

namespace XpubT

open XpubFault MtrieT

variable {P : Type}

/-- What one piece of data tells of a topic. -/
def edge (topic data : List UInt8) : Option Bool :=
  if data = 1 :: topic then some true else if data = 0 :: topic then some false else none

def edgesOf (topic : List UInt8) (data : List (List UInt8)) : List Bool := data.filterMap (edge topic)

/-- The data tells of each topic whether any pipe is subscribed to it. -/
def Told (data : List (List UInt8)) (r : Finset (List UInt8 × P)) : Prop :=
  ∀ topic, Edges (edgesOf topic data) (∃ p, (topic, p) ∈ r)

structure Plain (x : XpubT P) : Prop where
  manual : x.manual = false
  pub : x.pub = false
  verboseSubs : x.verboseSubs = false
  verboseUnsubs : x.verboseUnsubs = false

/-- An unsubscription is of a subscription that is there, or of a topic that has no node. -/
def Fits (r : Finset (List UInt8 × P)) (pipe : P) (sub : Msg) : Prop :=
  match sub.data with
  | 0 :: topic => Removable r (.rm topic pipe)
  | _ => True

variable [DecidableEq P]

/-- The same for each message when it is read. -/
def FitsAll (pipe : P) : Finset (List UInt8 × P) → List Msg → Prop
  | _, [] => True
  | r, sub :: subs => Fits r pipe sub ∧ FitsAll pipe (heard false pipe r sub) subs

variable {x x' : XpubT P} {r : Finset (List UInt8 × P)} {pipe : P} {topic : List UInt8} {sub : Msg} {r' : Finset (List UInt8 × P)}
    {all : Bool} {w : P → Outlet}
  {data : List (List UInt8)}

theorem edgesOf_append (data' : List (List UInt8)) : edgesOf topic (data ++ data') = edgesOf topic data ++ edgesOf topic data' :=
  filterMap_append

theorem edgesOf_one (d : List UInt8) : edgesOf topic [d] = (edge topic d).toList := by
  unfold edgesOf
  cases h : edge topic d <;> simp [h]

omit [DecidableEq P] in
theorem Told.fall {waiting more : List (List UInt8)} (h : Told (data ++ (waiting ++ [0 :: topic] ++ more)) r) :
    (edgesOf topic (data ++ waiting)).getLast? = some true := by
  have he : edgesOf topic (data ++ (waiting ++ [0 :: topic] ++ more)) =
      edgesOf topic (data ++ waiting) ++ false :: edgesOf topic more := by
    simp [edgesOf, edge]
  exact Edges.fall (he ▸ h topic)

omit [DecidableEq P] in
theorem Told.message {d : List UInt8} (h : Told data r) (hd : ∀ topic, edge topic d = none) : Told (data ++ [d]) r := by
  intro topic
  rw [edgesOf_append, edgesOf_one, hd]
  simpa using h topic

def news (r : Finset (List UInt8 × P)) (pipe : P) (sub : Msg) : List (List UInt8) :=
  match sub.data with
  | [] => [[]]
  | c :: topic =>
    if c = 0 then (if pipesOf r topic = {pipe} then [0 :: topic] else [])
    else if c = 1 then (if pipesOf r topic = ∅ then [1 :: topic] else [])
    else [c :: topic]

theorem Told.subscribe (h : Told data r) (topic : List UInt8) (pipe : P) :
    Told (data ++ if pipesOf r topic = ∅ then [1 :: topic] else []) (insert (topic, pipe) r) := by
  intro t
  rcases eq_or_ne t topic with rfl | hne
  · have hon : (∃ p, (t, p) ∈ insert (t, pipe) r) ↔ True := iff_of_true ⟨pipe, mem_insert_self _ _⟩ trivial
    rw [hon]
    split_ifs with he
    · have hoff : ¬ ∃ p, (t, p) ∈ r := by
        rintro ⟨p, hp⟩
        exact absurd (he ▸ mem_pipesOf.mpr hp) (notMem_empty p)
      rw [edgesOf_append, edgesOf_one]
      simpa [edge] using (h t).snoc (b := true) (iff_of_true rfl hoff)
    · obtain ⟨p, hp⟩ := nonempty_iff_ne_empty.mpr he
      have hon : (∃ p, (t, p) ∈ r) ↔ True := iff_of_true ⟨p, mem_pipesOf.mp hp⟩ trivial
      rw [append_nil, ← hon]
      exact h t
  · have hsame : (∃ p, (t, p) ∈ insert (topic, pipe) r) ↔ ∃ p, (t, p) ∈ r := by
      refine exists_congr fun p => ?_
      simp [hne]
    have hother : edge t (1 :: topic) = none := by simp [edge, hne.symm]
    rw [hsame]
    split_ifs
    · rw [edgesOf_append, edgesOf_one, hother]
      simpa using h t
    · simpa using h t

theorem Told.unsubscribe (h : Told data r) (topic : List UInt8) (pipe : P) :
    Told (data ++ if pipesOf r topic = {pipe} then [0 :: topic] else []) (r.erase (topic, pipe)) := by
  intro t
  rcases eq_or_ne t topic with rfl | hne
  · split_ifs with he
    · have hon : ∃ p, (t, p) ∈ r := ⟨pipe, mem_pipesOf.mp (he ▸ Finset.mem_singleton_self pipe)⟩
      have hoff : (∃ p, (t, p) ∈ r.erase (t, pipe)) ↔ false = true := by
        refine iff_of_false ?_ Bool.false_ne_true
        rintro ⟨p, hp⟩
        obtain ⟨hne, hp⟩ := mem_erase.mp hp
        obtain rfl := Finset.mem_singleton.mp (he ▸ mem_pipesOf.mpr hp)
        exact hne rfl
      rw [hoff, edgesOf_append, edgesOf_one]
      simpa [edge] using (h t).snoc (b := false) (iff_of_false Bool.false_ne_true (not_not.mpr hon))
    · have hsame : (∃ p, (t, p) ∈ r.erase (t, pipe)) ↔ ∃ p, (t, p) ∈ r := by
        constructor
        · rintro ⟨p, hp⟩
          exact ⟨p, mem_of_mem_erase hp⟩
        · rintro ⟨p, hp⟩
          -- otherwise this was the only pipe
          by_contra hn
          have honly : ∀ q ∈ pipesOf r t, q = pipe := by
            intro q hq
            by_contra hne
            exact hn ⟨q, mem_erase.mpr ⟨by simp [hne], mem_pipesOf.mp hq⟩⟩
          obtain rfl := honly p (mem_pipesOf.mpr hp)
          exact he (eq_singleton_iff_unique_mem.mpr ⟨mem_pipesOf.mpr hp, honly⟩)
      rw [append_nil, hsame]
      exact h t
  · have hsame : (∃ p, (t, p) ∈ r.erase (topic, pipe)) ↔ ∃ p, (t, p) ∈ r := by
      refine exists_congr fun p => ?_
      simp [hne]
    have hother : edge t (0 :: topic) = none := by simp [edge, hne.symm]
    rw [hsame]
    split_ifs
    · rw [edgesOf_append, edgesOf_one, hother]
      simpa using h t
    · simpa using h t

theorem Told.news (h : Told data r) (pipe : P) (sub : Msg) : Told (data ++ news r pipe sub) (heard false pipe r sub) := by
  unfold XpubT.news heard
  cases hd : sub.data with
  | nil => exact h.message fun topic => by simp [edge]
  | cons c topic =>
    dsimp only
    by_cases h0 : c = 0
    · rw [if_pos h0, if_pos h0]
      exact h.unsubscribe topic pipe
    · rw [if_neg h0, if_neg h0]
      by_cases h1 : c = 1
      · rw [if_pos h1, if_pos h1]
        exact h.subscribe topic pipe
      · rw [if_neg h1, if_neg h1]
        exact h.message fun topic => by simp [edge, h0, h1]

theorem readOne_news (hp : Plain x) (ht : Represents x.subscriptions r) (hf : Fits r pipe sub) :
    ∃ x', x.readOne pipe sub = .ok x' ∧ Plain x' ∧ Represents x'.subscriptions (heard false pipe r sub) ∧
      x'.waiting = x.waiting ++ news r pipe sub := by
  have hpass : ∀ (c : UInt8) (unique : Bool), x.passes c unique = unique := by
    intro c unique
    simp [passes, hp.pub, hp.verboseSubs]
  unfold readOne heard news
  unfold Fits at hf
  cases hd : sub.data with
  | nil => exact ⟨_, rfl, ⟨hp.manual, hp.pub, hp.verboseSubs, hp.verboseUnsubs⟩, ht, by simp [waiting]⟩
  | cons c topic =>
    rw [hd] at hf
    dsimp only
    by_cases hc : c = 0 ∨ c = 1
    · rw [if_pos hc, if_neg (ne_true_of_eq_false hp.manual), if_neg Bool.false_ne_true]
      unfold update
      rcases hc with rfl | rfl
      · obtain ⟨t, hrm, ht'⟩ := call_represents (.rm topic pipe) ht hf
        have hrm : x.subscriptions.rm topic pipe = _ := hrm
        rw [hrm]
        refine ⟨_, rfl, ⟨hp.manual, hp.pub, hp.verboseSubs, hp.verboseUnsubs⟩, ht', ?_⟩
        simp only [waiting, hpass, relation, decide_eq_true_eq]
        split_ifs <;> simp
      · obtain ⟨t, hadd, ht'⟩ := call_represents (.add topic pipe) ht trivial
        have hadd : x.subscriptions.add topic pipe = _ := hadd
        rw [if_neg (by decide), if_neg (by decide), if_pos rfl, if_neg (by decide), hadd]
        refine ⟨_, rfl, ⟨hp.manual, hp.pub, hp.verboseSubs, hp.verboseUnsubs⟩, ht', ?_⟩
        simp only [waiting, hpass, relation, decide_eq_true_eq]
        split_ifs <;> simp
    · obtain ⟨h0, h1⟩ := not_or.mp hc
      rw [if_neg hc, if_neg h0, if_neg h1, if_neg h0, if_neg h1]
      exact ⟨_, rfl, ⟨hp.manual, hp.pub, hp.verboseSubs, hp.verboseUnsubs⟩, ht, by simp [waiting]⟩

theorem readOne_told (hp : Plain x) (ht : Represents x.subscriptions r) (h : Told (data ++ x.waiting) r) (hf : Fits r pipe sub) :
    ∃ x', x.readOne pipe sub = .ok x' ∧ Plain x' ∧ Represents x'.subscriptions (heard false pipe r sub) ∧
      Told (data ++ x'.waiting) (heard false pipe r sub) := by
  obtain ⟨x', hx, hp', ht', hw⟩ := readOne_news hp ht hf
  refine ⟨x', hx, hp', ht', ?_⟩
  rw [hw, ← append_assoc]
  exact h.news pipe sub

theorem xreadActivated_told {subs : List Msg} (hp : Plain x) (ht : Represents x.subscriptions r)
    (h : Told (data ++ x.waiting) r) (hf : FitsAll pipe r subs) : ∃ x', x.xreadActivated pipe subs = .ok x' ∧ Plain x' ∧
      Represents x'.subscriptions (subs.foldl (heard false pipe) r) ∧
      Told (data ++ x'.waiting) (subs.foldl (heard false pipe) r) := by
  induction subs generalizing x r with
  | nil => exact ⟨x, rfl, hp, ht, h⟩
  | cons sub subs ih =>
    obtain ⟨y, hy, hpy, hty, htold⟩ := readOne_told hp ht h hf.1
    obtain ⟨x', hx', hp', ht', htold'⟩ := ih hpy hty htold hf.2
    refine ⟨x', ?_, hp', ht', htold'⟩
    rw [xreadActivated, hy]
    exact hx'

theorem readOne_waiting (hx : x.readOne pipe sub = .ok x') : x'.waiting = x.waiting ∨ x'.waiting = x.waiting ++ [sub.data] := by
  unfold readOne at hx
  unfold waiting
  cases hd : sub.data with
  | nil =>
    simp only [hd] at hx
    cases hx
    exact .inr (by simp)
  | cons c topic =>
    simp only [hd] at hx
    split_ifs at hx
    · obtain ⟨y, -, hx⟩ := bind_ok hx
      cases hx
      exact .inr (by simp)
    · obtain ⟨y, -, hx⟩ := bind_ok hx
      cases hx
      split_ifs
      · exact .inr (by simp)
      · exact .inl rfl
    · cases hx
      exact .inr (by simp)

theorem xreadActivated_waiting {subs : List Msg} (hx : x.xreadActivated pipe subs = .ok x') :
    ∃ more, x'.waiting = x.waiting ++ more := by
  induction subs generalizing x with
  | nil =>
    cases hx
    exact ⟨[], by simp⟩
  | cons sub subs ih =>
    obtain ⟨y, h1, hx⟩ := bind_ok hx
    obtain ⟨more, hmore⟩ := ih hx
    rcases readOne_waiting h1 with hy | hy
    · exact ⟨more, by rw [hmore, hy]⟩
    · exact ⟨sub.data :: more, by rw [hmore, hy]; simp⟩

theorem readOne_unfit (hp : Plain x) (ht : Represents x.subscriptions r) (hn : ¬ Fits r pipe sub)
    (hx : x.readOne pipe sub = .ok x') : ∃ topic, x'.waiting = x.waiting ++ [0 :: topic] ∧ ¬ ∃ p, (topic, p) ∈ r := by
  unfold Fits at hn
  split at hn
  · rename_i topic hd
    unfold readOne update at hx
    simp only [hd, true_or, if_true, hp.manual, Bool.false_eq_true, if_false] at hx
    obtain ⟨⟨b, t⟩, hrm, hx⟩ := bind_ok hx
    cases hx
    obtain ⟨hmem, hnode⟩ := not_or.mp hn
    rw [rm_other topic ht.1 (ht.at_iff.mpr hnode) fun pipes hv hmem' => ?_] at hrm
    · split_ifs at hrm with hnone
      · cases ofTrie_ok hrm
        refine ⟨topic, by simp [waiting, passes, hp.pub], fun hc => ?_⟩
        exact absurd hnone (ht.val_ne.mpr hc)
      · exact absurd (ofTrie_ok hrm) (by simp)
    · rw [ht.2] at hv
      split_ifs at hv
      cases hv
      exact hmem (mem_pipesOf.mp hmem')
  · exact absurd trivial hn

theorem xreadActivated_fits {subs : List Msg} (hp : Plain x) (ht : Represents x.subscriptions r) (h : Told (data ++ x.waiting) r)
    (hx : x.xreadActivated pipe subs = .ok x') (htold : Told (data ++ x'.waiting) r') : FitsAll pipe r subs := by
  induction subs generalizing x r with
  | nil => trivial
  | cons sub subs ih =>
    obtain ⟨y, h1, hx⟩ := bind_ok hx
    by_cases hf : Fits r pipe sub
    · obtain ⟨y', hy', hpy, hty, hy⟩ := readOne_told hp ht h hf
      cases hy'.symm.trans h1
      exact ⟨hf, ih hpy hty hy hx⟩
    · obtain ⟨topic, hy, hnone⟩ := readOne_unfit hp ht hf h1
      obtain ⟨more, hmore⟩ := xreadActivated_waiting hx
      rw [hmore, hy] at htold
      exact absurd ((h topic).last.mp htold.fall) hnone

theorem xreadActivated_untold {subs : List Msg} (hp : Plain x) (ht : Represents x.subscriptions r) (hr : pipesOf r [] = {pipe})
    (h : (edgesOf [] (data ++ x.waiting)).getLast? ≠ some true) (hx : x.xreadActivated pipe subs = .ok x')
    (hr' : Represents x'.subscriptions r') : ¬ Told (data ++ x'.waiting) r' := by
  induction subs generalizing x r with
  | nil =>
    cases hx
    intro htold
    have hsub : ([], pipe) ∈ r := mem_pipesOf.mp (hr ▸ Finset.mem_singleton_self pipe)
    refine h ((htold []).last.mpr ⟨pipe, ?_⟩)
    rw [← hr'.mem_val, ht.mem_val]
    exact hsub
  | cons sub subs ih =>
    obtain ⟨y, h1, hx⟩ := bind_ok hx
    obtain ⟨more, hmore⟩ := xreadActivated_waiting hx
    intro htold
    have hsub : ([], pipe) ∈ r := mem_pipesOf.mp (hr ▸ Finset.mem_singleton_self pipe)
    obtain ⟨hreads, hty⟩ := readOne_spec ht h1
    rw [hp.manual] at hty
    have hpy : Plain y := by
      obtain ⟨t, mt, pipes, pending, rfl⟩ := hreads
      exact ⟨hp.manual, hp.pub, hp.verboseSubs, hp.verboseUnsubs⟩
    have hnews : Fits r pipe sub → y.waiting = x.waiting ++ news r pipe sub := by
      intro hf
      obtain ⟨y', hy', -, -, hw⟩ := readOne_news hp ht hf
      cases hy'.symm.trans h1
      exact hw
    unfold Fits news at hnews
    by_cases hd0 : sub.data = [0]
    · have hw : y.waiting = x.waiting ++ [[0]] := by
        simpa [hd0, hr] using hnews (by rw [hd0]; exact .inl hsub)
      rw [hmore, hw] at htold
      exact h htold.fall
    · have hedges : edgesOf [] (data ++ y.waiting) = edgesOf [] (data ++ x.waiting) := by
        by_cases hd1 : sub.data = [1]
        · rw [show y.waiting = x.waiting by simpa [hd1, hr] using hnews (by rw [hd1]; trivial)]
        · have hnone : edge [] sub.data = none := by simp [edge, hd0, hd1]
          rcases readOne_waiting h1 with hw | hw
          · rw [hw]
          · simp [hw, edgesOf, hnone]
      have hsame : pipesOf (heard false pipe r sub) [] = {pipe} := by
        unfold heard
        split
        · exact hr
        · rename_i c topic hd
          rw [if_neg Bool.false_ne_true]
          split_ifs with h0 h1
          · rw [pipesOf_erase, if_neg ?_, hr]
            rintro rfl
            exact hd0 (by rw [hd, h0])
          · rw [pipesOf_insert]
            split_ifs
            · simp [hr]
            · exact hr
          · exact hr
      exact ih hpy hty hsame (hedges ▸ h) hx htold

/-- The subscriptions of a pipe that is attached. -/
def implied (r : Finset (List UInt8 × P)) (pipe : P) (all : Bool) : Finset (List UInt8 × P) :=
  if all then insert ([], pipe) r else r

/-- A pipe that is subscribed to everything when it is attached is not the first one to be. -/
def Announced (r : Finset (List UInt8 × P)) (all : Bool) : Prop := all = true → ∃ y ∈ r, y.1 = []

theorem bind_of_ok {ε α β : Type} {e : Except ε α} {a : α} {f : α → Except ε β} (h : e = .ok a) : (e >>= f) = f a := by
  rw [h]
  rfl

theorem subscribeToAll_spec (all : Bool) (ht : Represents x.subscriptions r) :
    ∃ t, subscribeToAll x.subscriptions pipe all = .ok t ∧ Represents t (implied r pipe all) := by
  unfold subscribeToAll
  cases all with
  | false => exact ⟨_, rfl, ht⟩
  | true =>
    obtain ⟨t, hadd, ht'⟩ := call_represents (.add [] pipe) ht trivial
    have hadd : x.subscriptions.add [] pipe = _ := hadd
    refine ⟨t, ?_, ht'⟩
    rw [hadd]
    rfl

theorem Told.implied (h : Told data r) (ha : Announced r all) : Told data (implied r pipe all) := by
  cases all with
  | false => exact h
  | true =>
    obtain ⟨⟨topic, q⟩, hy, rfl⟩ := ha rfl
    have := h.subscribe [] pipe
    rwa [if_neg (ne_empty_of_mem (mem_pipesOf.mpr hy)), append_nil] at this

theorem xattachPipe_told {subs : List Msg} (hp : Plain x)
    (ht : Represents x.subscriptions r) (h : Told (data ++ x.waiting) r) (ha : Announced r all)
    (hf : FitsAll pipe (implied r pipe all) subs) : ∃ y, x.xattachPipe w pipe all subs = .ok y ∧ Plain y.1 ∧
      Represents y.1.subscriptions (subs.foldl (heard false pipe) (implied r pipe all)) ∧
      Told (data ++ y.1.waiting) (subs.foldl (heard false pipe) (implied r pipe all)) := by
  obtain ⟨t, hall, ht'⟩ := @subscribeToAll_spec _ _ _ _ pipe all ht
  obtain ⟨x', hx', hp', hr', htold⟩ := @xreadActivated_told _ _ { x with dist := x.dist.attach pipe, subscriptions := t }
    _ pipe data subs ⟨hp.manual, hp.pub, hp.verboseSubs, hp.verboseUnsubs⟩ ht' (h.implied ha) hf
  refine ⟨(x', Function.update w pipe (x.welcome (w pipe))), ?_, hp', hr', htold⟩
  unfold xattachPipe
  rw [bind_of_ok hall, bind_of_ok hx']
  rfl

theorem xattachPipe_fits {subs : List Msg}
    {y : XpubT P × (P → Outlet)} (hp : Plain x) (ht : Represents x.subscriptions r) (h : Told (data ++ x.waiting) r)
    (hx : x.xattachPipe w pipe all subs = .ok y) (hr' : Represents y.1.subscriptions r') (htold : Told (data ++ y.1.waiting) r') :
    Announced r all ∧ FitsAll pipe (implied r pipe all) subs := by
  obtain ⟨t, hall, ht'⟩ := @subscribeToAll_spec _ _ _ _ pipe all ht
  unfold xattachPipe at hx
  rw [bind_of_ok hall] at hx
  obtain ⟨x', hread, hx⟩ := bind_ok hx
  cases hx
  have hp' : Plain { x with dist := x.dist.attach pipe, subscriptions := t } :=
    ⟨hp.manual, hp.pub, hp.verboseSubs, hp.verboseUnsubs⟩
  by_cases ha : Announced r all
  · exact ⟨ha, xreadActivated_fits hp' ht' (h.implied ha) hread htold⟩
  · obtain ⟨rfl, hnone⟩ := Classical.not_imp.mp ha
    have hempty : ∀ q, ([], q) ∉ r := fun q hq => hnone ⟨_, hq, rfl⟩
    refine absurd htold (xreadActivated_untold hp' ht' ?_ ?_ hread hr')
    · ext q
      rw [mem_pipesOf, implied, if_pos rfl, mem_insert, ]
      simp [hempty]
    · intro hlast
      obtain ⟨q, hq⟩ := (h []).last.mp hlast
      exact hempty q hq

theorem edgesOf_falls {calls : List (List UInt8)} (h : calls.Nodup) :
    edgesOf topic (calls.map fun topic => 0 :: topic) = if topic ∈ calls then [false] else [] := by
  induction calls with
  | nil => rfl
  | cons key calls ih =>
    obtain ⟨hkey, hcalls⟩ := nodup_cons.mp h
    have hstep : edgesOf topic ((key :: calls).map fun topic => 0 :: topic) =
        (edge topic (0 :: key)).toList ++ edgesOf topic (calls.map fun topic => 0 :: topic) := by
      rw [← edgesOf_one, ← edgesOf_append]
      rfl
    rw [hstep, ih hcalls]
    rcases eq_or_ne key topic with rfl | hne
    · simp [edge, hkey]
    · simp [edge, hne, hne.symm]

theorem xpipeTerminated_told (hp : Plain x) (ht : Represents x.subscriptions r) (h : Told (data ++ x.waiting) r) :
    ∃ x', x.xpipeTerminated pipe = .ok x' ∧ Plain x' ∧ Represents x'.subscriptions (r.filter (·.2 ≠ pipe)) ∧
      Told (data ++ x'.waiting) (r.filter (·.2 ≠ pipe)) := by
  obtain ⟨calls, t, hrm, ht', hnodup, hcalls⟩ := rmPipe_represents pipe (!x.verboseUnsubs) ht
  have hrm' : ofTrie (x.subscriptions.rmPipe pipe (!x.verboseUnsubs)) = .ok (calls, t) := by
    rw [hrm]
    rfl
  refine ⟨{ x with
    subscriptions := t
    pending := x.pending ++ calls.map fun topic => (0 :: topic, 0)
    dist := x.dist.pipeTerminated pipe }, ?_, ⟨hp.manual, hp.pub, hp.verboseSubs, hp.verboseUnsubs⟩, ht', ?_⟩
  · unfold xpipeTerminated unsubscribe
    rw [bind_of_ok hrm']
    dsimp only
    rw [foldl_sendUnsubscription_eq]
    simp [hp.pub, hp.manual, bind, Except.bind, pure, Except.pure]
  · intro topic
    have hqueue : edgesOf topic (data ++ (x.waiting ++ calls.map fun topic => 0 :: topic)) =
        edgesOf topic (data ++ x.waiting) ++ if topic ∈ calls then [false] else [] := by
      rw [← append_assoc, edgesOf_append, edgesOf_falls hnodup]
    have hwait : (x.waiting ++ calls.map fun topic => 0 :: topic) =
        (x.pending ++ calls.map fun topic => (0 :: topic, 0)).map Prod.fst := by
      simp [waiting, Function.comp_def]
    unfold waiting
    rw [← hwait, hqueue]
    have hleft : (∃ p, (topic, p) ∈ r.filter (·.2 ≠ pipe)) ↔ ∃ p, (topic, p) ∈ r ∧ p ≠ pipe := by
      simp only [Finset.mem_filter]
    have hcall := hcalls topic
    rw [hp.verboseUnsubs] at hcall
    rw [hleft]
    split_ifs with hc
    · obtain ⟨hmem, honly⟩ := hcall.mp hc
      have hoff : (∃ p, (topic, p) ∈ r ∧ p ≠ pipe) ↔ false = true := by
        refine iff_of_false ?_ Bool.false_ne_true
        rintro ⟨p, hp, hne⟩
        exact hne (honly rfl p hp)
      rw [hoff]
      exact (h topic).snoc (iff_of_false Bool.false_ne_true (not_not.mpr ⟨pipe, hmem⟩))
    · have hsame : (∃ p, (topic, p) ∈ r ∧ p ≠ pipe) ↔ ∃ p, (topic, p) ∈ r := by
        constructor
        · rintro ⟨p, hp, -⟩
          exact ⟨p, hp⟩
        · rintro ⟨p, hp⟩
          by_contra hn
          have honly : ∀ q, (topic, q) ∈ r → q = pipe := fun q hq => by_contra fun hne => hn ⟨q, hq, hne⟩
          obtain rfl := honly p hp
          exact hc (hcall.mpr ⟨hp, fun _ => honly⟩)
      rw [hsame, append_nil]
      exact h topic

end XpubT

structure Notifications (P : Type) where
  pub : Publisher P
  /-- the data that the user has received -/
  read : List (List UInt8)

namespace Notifications

open XpubT Publisher
open LoadBalancer (endOf)

variable {P : Type}

def new : Notifications P := ⟨.new false, []⟩

/-- All that has been queued for the user. -/
def queued (s : Notifications P) : List (List UInt8) := s.read ++ s.pub.xpub.waiting

variable [DecidableEq P]

/-- Manual mode and verbose mode stay off. -/
def Ready (s : Notifications P) : Op P → Prop
  | .xsetsockopt (.manual on) | .xsetsockopt (.verbose on) | .xsetsockopt (.verboser on) => on = false
  | op => s.pub.Ready op

instance (s : Notifications P) (op : Op P) : Decidable (s.Ready op) := by
  unfold Ready
  induction op using Op.casesOn with
  | xsetsockopt opt => induction opt using XpubOption.casesOn <;> infer_instance
  | _ => infer_instance

def run (s : Notifications P) (op : Op P) : Except XpubFault (Notifications P) := do
  let pub ← s.pub.run op
  match op with
  | .xrecv => return ⟨pub, s.read ++ (s.pub.xpub.xrecv.1.map Prod.fst).toList⟩
  | _ => return ⟨pub, s.read⟩

def Start (s : Notifications P) : Prop := s = new

abbrev Step : Notifications P → Op P → Notifications P → Prop := Does Ready run

/-- What has been queued for a topic alternates between subscriptions and unsubscriptions, from a subscription
on, and ends with a subscription exactly if a pipe is subscribed to the topic. -/
def Exact (s : Notifications P) : Prop := Told s.queued s.pub.subs

/-- An unsubscription is of a topic that the pipe is subscribed to, or of one, not the empty one, that no
subscribed topic begins with. A pipe that is subscribed to everything when it is attached is not the first
pipe to be subscribed to the empty topic. -/
def Keeps (s : Notifications P) : Op P → Prop
  | .attach p _ all msgs => Announced s.pub.subs all ∧ FitsAll p (implied s.pub.subs p all) msgs
  | .readActivated p msgs => FitsAll p s.pub.subs msgs
  | _ => True

/-- What peers do: they come, subscribe, unsubscribe and go. -/
def Peers : Op P → Prop
  | .attach .. | .readActivated .. | .pipeTerminated _ => True
  | _ => False

structure Sound (s : Notifications P) : Prop where
  plain : Plain s.pub.xpub
  trie : MtrieT.Represents s.pub.xpub.subscriptions s.pub.subs

variable {s s' : Notifications P} {op : Op P}

omit [DecidableEq P] in
theorem xrecv_queued (x : XpubT P) :
    (x.xrecv.1.map Prod.fst).toList ++ x.xrecv.2.waiting = x.waiting ∧ (Plain x → Plain x.xrecv.2) := by
  unfold XpubT.xrecv waiting
  cases hp : x.pending with
  | nil => exact ⟨by simp [hp], id⟩
  | cons m rest =>
    dsimp only
    split <;> exact ⟨by simp, fun h => ⟨h.manual, h.pub, h.verboseSubs, h.verboseUnsubs⟩⟩

theorem xsend_frame {x x' : XpubT P} {w w' : P → Outlet} {m : Msg} {calls : List P} {rc : Bool}
    (hx : x.xsend w m calls = .ok (rc, x', w')) : ∃ d more, x' = { x with dist := d, more := more } := by
  obtain ⟨d, -, hx⟩ := bind_ok hx
  dsimp only at hx
  split at hx
  · obtain ⟨y, -, hx⟩ := bind_ok hx
    cases hx
    exact ⟨_, _, rfl⟩
  · cases hx
    exact ⟨_, _, rfl⟩

theorem Sound.kept (h : s.Sound) (he : s.Exact) (hk : s.Keeps op) (hp : Peers op) :
    ∃ s', s.run op = .ok s' ∧ s'.Sound ∧ s'.Exact := by
  cases op with
  | attach p self all msgs =>
    obtain ⟨y, hx, hplain, htrie, htold⟩ := xattachPipe_told
      (w := Function.update s.pub.outlets p ⟨self, Staged.empty⟩) h.plain h.trie he hk.1 hk.2
    have hrun : s.pub.run (.attach p self all msgs) = .ok { s.pub with
        xpub := y.1, outlets := y.2, subs := msgs.foldl (heard false p) (implied s.pub.subs p all) } := by
      rw [← h.plain.manual]
      exact bind_of_ok hx
    exact ⟨⟨_, s.read⟩, bind_of_ok hrun, ⟨hplain, htrie⟩, htold⟩
  | readActivated p msgs =>
    obtain ⟨y, hx, hplain, htrie, htold⟩ := xreadActivated_told h.plain h.trie he hk
    have hrun : s.pub.run (.readActivated p msgs) = .ok { s.pub with
        xpub := y, subs := msgs.foldl (heard false p) s.pub.subs } := by
      rw [← h.plain.manual]
      exact bind_of_ok hx
    exact ⟨⟨_, s.read⟩, bind_of_ok hrun, ⟨hplain, htrie⟩, htold⟩
  | pipeTerminated p =>
    obtain ⟨y, hx, hplain, htrie, htold⟩ := @xpipeTerminated_told _ _ _ _ p _ h.plain h.trie he
    have hrun : s.pub.run (.pipeTerminated p) = _ := bind_of_ok hx
    exact ⟨⟨_, s.read⟩, bind_of_ok hrun, ⟨hplain, htrie⟩, htold⟩
  | _ => exact absurd hp id

theorem Sound.other (h : s.Sound) (he : s.Exact) (hr : s.Ready op) (hp : ¬ Peers op) (hs : s.run op = .ok s') :
    s'.Sound ∧ s'.Exact := by
  obtain ⟨pub, hrun, hs⟩ := bind_ok hs
  cases op with
  | attach p self all msgs | readActivated p msgs | pipeTerminated p => exact absurd trivial hp
  | drift p o | writeActivated p n | invertMatching on =>
    cases hrun
    cases hs
    exact ⟨⟨⟨h.plain.manual, h.plain.pub, h.plain.verboseSubs, h.plain.verboseUnsubs⟩, h.trie⟩, he⟩
  | xsetsockopt opt =>
    obtain ⟨⟨rc, x⟩, hx, hrun⟩ := bind_ok hrun
    cases hrun
    cases hs
    have hm := h.plain.manual
    unfold xsetsockopt at hx
    cases opt with
    | verbose on | verboser on | manual on =>
      obtain rfl : on = false := hr
      cases hx
      exact ⟨⟨⟨by simp [hm], h.plain.pub, by simp [h.plain.verboseSubs], by simp [h.plain.verboseUnsubs]⟩, h.trie⟩, he⟩
    | nodrop on | welcomeMsg data =>
      cases hx
      exact ⟨⟨⟨hm, h.plain.pub, h.plain.verboseSubs, h.plain.verboseUnsubs⟩, h.trie⟩, he⟩
    | subscribe topic | unsubscribe topic =>
      simp only [hm, Bool.false_eq_true, if_false] at hx
      cases hx
      have hsame : s.pub.xpub.settled s.pub.subs (.subscribe topic) = s.pub.subs ∧
          s.pub.xpub.settled s.pub.subs (.unsubscribe topic) = s.pub.subs := by
        simp [settled, hm]
      refine ⟨⟨h.plain, ?_⟩, ?_⟩
      · simp only [hsame]
        exact h.trie
      · simp only [hsame]
        exact he
  | xrecv =>
    cases hrun
    cases hs
    obtain ⟨hq, hplain⟩ := xrecv_queued s.pub.xpub
    obtain ⟨-, -, ht⟩ := xrecv_same s.pub.xpub
    refine ⟨⟨hplain h.plain, ht ▸ h.trie⟩, ?_⟩
    unfold Exact queued
    rw [append_assoc, hq]
    exact he
  | xsend m calls =>
    obtain ⟨⟨rc, x, w⟩, hx, hrun⟩ := bind_ok hrun
    cases hrun
    cases hs
    obtain ⟨d, more, rfl⟩ := xsend_frame hx
    exact ⟨⟨⟨h.plain.manual, h.plain.pub, h.plain.verboseSubs, h.plain.verboseUnsubs⟩, h.trie⟩, he⟩

theorem Sound.step (h : s.Sound) (he : s.Exact) (hr : s.Ready op) (hk : s.Keeps op) (hs : s.run op = .ok s') :
    s'.Sound ∧ s'.Exact := by
  by_cases hp : Peers op
  · obtain ⟨s1, hs1, hsound, hexact⟩ := h.kept he hk hp
    cases hs1.symm.trans hs
    exact ⟨hsound, hexact⟩
  · exact h.other he hr hp hs

theorem Sound.keeps (h : s.Sound) (he : s.Exact) (hs : s.run op = .ok s') (he' : s'.Exact) : s.Keeps op := by
  obtain ⟨pub, hrun, hs⟩ := bind_ok hs
  cases op with
  | attach p self all msgs =>
    obtain ⟨y, hx, hrun⟩ := bind_ok hrun
    cases hrun
    cases hs
    obtain ⟨-, -, ht⟩ := xattachPipe_spec h.trie hx
    rw [h.plain.manual] at ht
    unfold Exact at he'
    rw [h.plain.manual] at he'
    exact xattachPipe_fits h.plain h.trie he hx ht he'
  | readActivated p msgs =>
    obtain ⟨y, hx, hrun⟩ := bind_ok hrun
    cases hrun
    cases hs
    exact xreadActivated_fits h.plain h.trie he hx he'
  | _ => trivial

theorem start_sound (h : Start s) : s.Sound ∧ s.Exact := by
  subst h
  refine ⟨⟨⟨rfl, rfl, rfl, rfl⟩, MtrieT.new_represents⟩, fun topic => ?_⟩
  have hoff : (∃ p : P, (topic, p) ∈ (new : Notifications P).pub.subs) = False := by simp [new, Publisher.new]
  rw [hoff]
  exact Edges.nil

theorem run_sound {ops : List (Op P)} (h : Run Start (Guarded Keeps Step) ops s) : s.Sound ∧ s.Exact :=
  h.invariant (fun s => s.Sound ∧ s.Exact) (fun _ => start_sound)
    fun _ _ _ hI hs => hI.1.step hI.2 hs.2.1 hs.1 hs.2.2

/-- Every state of a run is exact exactly if each of its steps keeps to the condition, and what peers do then
goes through as long as it keeps to the condition. -/
theorem notifications_exact {ops : List (Op P)} :
    (Run Start (Guarded (fun s _ => s.Exact) Step) ops s ∧ s.Exact ↔ Run Start (Guarded Keeps Step) ops s) ∧
      (Run Start (Guarded Keeps Step) ops s → ∀ op, Peers op → s.Keeps op → ∃ s', s.run op = .ok s') := by
  refine ⟨⟨?_, fun h => ⟨?_, (run_sound h).2⟩⟩, fun h op hp hk => ?_⟩
  · rintro ⟨h, he⟩
    induction h with
    | nil h0 => exact .nil h0
    | snoc _ hs ih =>
      have hrun := ih hs.1
      obtain ⟨hsound, hexact⟩ := run_sound hrun
      exact hrun.snoc ⟨hsound.keeps hexact hs.2.2 he, hs.2⟩
  · induction h with
    | nil h0 => exact .nil h0
    | snoc h hs ih => exact ih.snoc ⟨(run_sound h).2, hs.2⟩
  · obtain ⟨hsound, hexact⟩ := run_sound h
    obtain ⟨s', hs', -, -⟩ := hsound.kept hexact hk hp
    exact ⟨s', hs'⟩

/-- Pipe 1 unsubscribes from a beginning of the topic of pipe 0. The user is told of the end of a subscription
that there has never been. -/
theorem stray_unsubscription : ∃ s : Notifications ℕ, Run Start Step
      [.attach 0 (endOf 0) false [subscription 1 [65, 66]], .attach 1 (endOf 0) false [subscription 0 [65]]] s ∧
    s.queued = [[1, 65, 66], [0, 65]] ∧ ¬ s.Exact := by
  refine exists_run_free (P := fun s => s.queued = [[1, 65, 66], [0, 65]]) (rfl : Start new) (by decide +kernel)
    fun s _ hq => ⟨hq, fun h => (h [65]).head ?_⟩
  rw [hq]
  decide

end Notifications

end Zmq
