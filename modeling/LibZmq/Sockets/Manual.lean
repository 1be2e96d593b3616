import LibZmq.Sockets.Publisher

/-! What a publisher keeps of pipes between two calls: the subscriptions, those of manual mode, the
pipes of the requests that the user has not received yet, and the pipe of the last one. -/

namespace Zmq

open List Finset

namespace MtrieT

variable {P : Type} [DecidableEq P] {t t' : MtrieT P} {r : Finset (List UInt8 × P)} {pipe : P}

def Listed (t : MtrieT P) (p : P) : Prop := ∃ key, p ∈ (t.val none key).getD ∅

theorem Represents.mem_val (h : Represents t r) {key : List UInt8} {p : P} : p ∈ (t.val none key).getD ∅ ↔ (key, p) ∈ r := by
  rw [h.2, ← mem_pipesOf]
  split_ifs with he <;> simp [he]

theorem Represents.listed (h : Represents t r) {p : P} : Listed t p ↔ ∃ y ∈ r, y.2 = p := by
  unfold Listed
  simp only [h.mem_val]
  constructor
  · rintro ⟨key, hy⟩
    exact ⟨_, hy, rfl⟩
  · rintro ⟨⟨key, q⟩, hy, rfl⟩
    exact ⟨key, hy⟩

end MtrieT

namespace XpubT

open XpubFault MtrieT

variable {P : Type} [DecidableEq P] {x x' : XpubT P} {pipe p : P} {t t' : MtrieT P} {topic : List UInt8} {b : Bool} {subs : List Msg}

/-- The four places where a pipe is stored. -/
def Stored (x : XpubT P) (p : P) : Prop :=
  Listed x.subscriptions p ∨ Listed x.manualSubscriptions p ∨ some p ∈ x.pendingPipes ∨ x.lastPipe = some p

structure Tries (x : XpubT P) : Prop where
  subscriptions : ∃ r, Represents x.subscriptions r
  manual : ∃ r, Represents x.manualSubscriptions r

theorem add_listed (h : ∃ r, Represents t r)
    (hx : t.add topic pipe = .ok (b, t')) : (∃ r, Represents t' r) ∧ ∀ p, Listed t' p → Listed t p ∨ p = pipe := by
  obtain ⟨r, hr⟩ := h
  have hr' := add_represents hr hx
  refine ⟨⟨_, hr'⟩, fun p hp => ?_⟩
  rw [hr.listed]
  obtain ⟨y, hy, rfl⟩ := hr'.listed.mp hp
  rcases mem_insert.mp hy with rfl | hy
  · exact .inr rfl
  · exact .inl ⟨y, hy, rfl⟩

theorem rm_listed (h : ∃ r, Represents t r)
    (hx : t.rm topic pipe = .ok (b, t')) : (∃ r, Represents t' r) ∧ ∀ p, Listed t' p → Listed t p := by
  obtain ⟨r, hr⟩ := h
  have hr' := rm_represents hr hx
  refine ⟨⟨_, hr'⟩, fun p hp => ?_⟩
  rw [hr.listed]
  obtain ⟨y, hy, rfl⟩ := hr'.listed.mp hp
  exact ⟨y, mem_of_mem_erase hy, rfl⟩

theorem update_listed {c : UInt8} (h : ∃ r, Represents t r)
    (hx : update t c topic pipe = .ok (b, t')) : (∃ r, Represents t' r) ∧ ∀ p, Listed t' p → Listed t p ∨ p = pipe := by
  have hx := ofTrie_ok hx
  split_ifs at hx
  · obtain ⟨hr, hp⟩ := rm_listed h hx
    exact ⟨hr, fun p hl => .inl (hp p hl)⟩
  · exact add_listed h hx

theorem rmPipe_listed {callOnUniq : Bool} {calls : List (List UInt8)} (h : ∃ r, Represents t r)
    (hx : t.rmPipe pipe callOnUniq = .ok (calls, t')) : (∃ r, Represents t' r) ∧ (∀ p, Listed t' p ↔ Listed t p ∧ p ≠ pipe) ∧
      (callOnUniq = false → (calls = [] ↔ ¬ Listed t pipe)) := by
  obtain ⟨r, hr⟩ := h
  obtain ⟨calls', t1, hrm, hr', -, hcalls⟩ := rmPipe_represents pipe callOnUniq hr
  cases hrm.symm.trans hx
  refine ⟨⟨_, hr'⟩, fun p => ?_, ?_⟩
  · rw [hr.listed, hr'.listed]
    constructor
    · rintro ⟨y, hy, rfl⟩
      obtain ⟨hy, hne⟩ := mem_filter.mp hy
      exact ⟨⟨y, hy, rfl⟩, hne⟩
    · rintro ⟨⟨y, hy, rfl⟩, hne⟩
      exact ⟨y, mem_filter.mpr ⟨hy, hne⟩, rfl⟩
  · rintro rfl
    rw [hr.listed, eq_nil_iff_forall_not_mem]
    simp only [hcalls, Bool.false_eq_true, false_imp_iff, and_true]
    constructor
    · rintro hn ⟨y, hy, rfl⟩
      exact hn y.1 hy
    · exact fun hn key hk => hn ⟨_, hk, rfl⟩

theorem readOne_stored {sub : Msg} (h : Tries x) (hx : x.readOne pipe sub = .ok x') :
    Tries x' ∧ ∀ p, Stored x' p → Stored x p ∨ p = pipe := by
  unfold readOne at hx
  cases hd : sub.data with
  | nil =>
    simp only [hd] at hx
    cases hx
    exact ⟨⟨h.subscriptions, h.manual⟩, fun p hp => Or.inl hp⟩
  | cons c topic =>
    simp only [hd] at hx
    split_ifs at hx
    · obtain ⟨⟨b, t⟩, hu, hx⟩ := bind_ok hx
      cases hx
      obtain ⟨hr, hl⟩ := update_listed h.manual hu
      refine ⟨⟨h.subscriptions, hr⟩, fun p hp => ?_⟩
      rcases hp with hp | hp | hp | hp
      · exact Or.inl (Or.inl hp)
      · exact (hl p hp).imp_left fun hp => Or.inr (Or.inl hp)
      · rcases mem_append.mp hp with hp | hp
        · exact Or.inl (Or.inr (Or.inr (Or.inl hp)))
        · exact Or.inr (Option.some.inj (List.mem_singleton.mp hp))
      · exact Or.inl (Or.inr (Or.inr (Or.inr hp)))
    · obtain ⟨⟨b, t⟩, hu, hx⟩ := bind_ok hx
      cases hx
      obtain ⟨hr, hl⟩ := update_listed h.subscriptions hu
      refine ⟨⟨hr, h.manual⟩, fun p hp => ?_⟩
      rcases hp with hp | hp
      · exact (hl p hp).imp_left Or.inl
      · exact Or.inl (Or.inr hp)
    · cases hx
      exact ⟨⟨h.subscriptions, h.manual⟩, fun p hp => Or.inl hp⟩

theorem xreadActivated_stored (h : Tries x) (hx : x.xreadActivated pipe subs = .ok x') :
    Tries x' ∧ ∀ p, Stored x' p → Stored x p ∨ p = pipe := by
  induction subs generalizing x with
  | nil =>
    cases hx
    exact ⟨h, fun p hp => .inl hp⟩
  | cons sub subs ih =>
    obtain ⟨y, h1, hx⟩ := bind_ok hx
    obtain ⟨hy, hs⟩ := readOne_stored h h1
    obtain ⟨hx', hs'⟩ := ih hy hx
    refine ⟨hx', fun p hp => ?_⟩
    rcases hs' p hp with hp | hp
    · exact hs p hp
    · exact .inr hp

theorem xattachPipe_stored {w w' : P → Outlet} {all : Bool} (h : Tries x)
    (hx : x.xattachPipe w pipe all subs = .ok (x', w')) : Tries x' ∧ ∀ p, Stored x' p → Stored x p ∨ p = pipe := by
  obtain ⟨t, ht, hx⟩ := bind_ok hx
  obtain ⟨y, hy, hx⟩ := bind_ok hx
  cases hx
  have ht : (∃ r, Represents t r) ∧ ∀ p, Listed t p → Listed x.subscriptions p ∨ p = pipe := by
    unfold subscribeToAll at ht
    cases all with
    | false =>
      cases ht
      exact ⟨h.subscriptions, fun p hp => .inl hp⟩
    | true =>
      cases ha : x.subscriptions.add [] pipe with
      | error e => simp [ha, ofTrie, Except.mapError, Functor.map, Except.map] at ht
      | ok z =>
        simp only [ha, ofTrie, Except.mapError, Functor.map, Except.map, if_true] at ht
        cases ht
        exact add_listed h.subscriptions ha
  have htries : Tries { x with dist := x.dist.attach pipe, subscriptions := t } := ⟨ht.1, h.manual⟩
  obtain ⟨hy, hs⟩ := xreadActivated_stored htries hy
  refine ⟨hy, fun p hp => ?_⟩
  rcases hs p hp with (hp | hp) | hp
  · exact (ht.2 p hp).imp_left .inl
  · exact .inl (.inr hp)
  · exact .inr hp

omit [DecidableEq P] in
theorem foldl_sendUnsubscription_eq (topics : List (List UInt8)) (x : XpubT P) :
    topics.foldl sendUnsubscription x =
      if x.pub then x
      else
        let x := { x with pending := x.pending ++ topics.map fun topic => (0 :: topic, 0) }
        if x.manual then { x with
          lastPipe := if topics = [] then x.lastPipe else none
          pendingPipes := x.pendingPipes ++ replicate topics.length none }
        else x := by
  induction topics generalizing x with
  | nil =>
    simp only [foldl_nil, map_nil, append_nil, if_true, length_nil, replicate_zero, ite_self]
  | cons topic topics ih =>
    rw [foldl_cons, ih]
    unfold sendUnsubscription
    cases hp : x.pub <;> cases x.manual <;> simp [hp, replicate_succ]

/-- The pipe is in no place that `xpipe_terminated` does not look at. -/
def Clean (x : XpubT P) (pipe : P) : Prop :=
  (if x.manual then ¬ Listed x.subscriptions pipe else ¬ Listed x.manualSubscriptions pipe) ∧ some pipe ∉ x.pendingPipes ∧
    (x.lastPipe = some pipe → x.manual = true ∧ x.pub = false ∧ Listed x.manualSubscriptions pipe)

theorem unsubscribe_stored (h : Tries x) (hx : x.unsubscribe pipe = .ok x') :
    Tries x' ∧ x'.dist = x.dist ∧ x'.more = x.more ∧ (∀ p, p ≠ pipe → Stored x' p → Stored x p) ∧
      (¬ Stored x' pipe ↔ Clean x pipe) := by
  unfold unsubscribe at hx
  unfold Clean
  split_ifs at hx ⊢ with hm
  · obtain ⟨⟨calls, t⟩, hrm, hx⟩ := bind_ok hx
    obtain ⟨hr, hl, hcalls⟩ := rmPipe_listed h.manual (ofTrie_ok hrm)
    cases hx
    have hcalls := hcalls rfl
    rw [foldl_sendUnsubscription_eq]
    dsimp only
    rw [if_pos hm]
    cases hpub : x.pub with
    | true =>
      refine ⟨⟨h.subscriptions, hr⟩, rfl, rfl, fun p _ hp => hp.imp_right (Or.imp_left fun hp => ((hl p).mp hp).1), ?_⟩
      simp [Stored, hl]
    | false =>
      refine ⟨⟨h.subscriptions, hr⟩, rfl, rfl, fun p _ hp => ?_, ?_⟩
      · rcases hp with hp | hp | hp | hp
        · exact .inl hp
        · exact .inr (.inl ((hl p).mp hp).1)
        · rcases mem_append.mp hp with hp | hp
          · exact .inr (.inr (.inl hp))
          · exact absurd (eq_of_mem_replicate hp) (Option.some_ne_none p)
        · have hp : (if calls = [] then x.lastPipe else none) = some p := hp
          split_ifs at hp
          exact .inr (.inr (.inr hp))
      · have hlast : (if calls = [] then x.lastPipe else none) = some pipe ↔
            x.lastPipe = some pipe ∧ ¬ Listed x.manualSubscriptions pipe := by
          rw [← hcalls]
          split_ifs with hc <;> simp [hc]
        simp only [Stored, hl, Bool.false_eq_true, if_false, hlast, mem_append]
        simp [mem_replicate, hm]
  · obtain ⟨⟨calls, t⟩, hrm, hx⟩ := bind_ok hx
    obtain ⟨hr, hl, -⟩ := rmPipe_listed h.subscriptions (ofTrie_ok hrm)
    cases hx
    rw [foldl_sendUnsubscription_eq]
    rw [if_neg hm]
    cases x.pub with
    | true | false =>
      refine ⟨⟨hr, h.manual⟩, rfl, rfl, fun p _ hp => hp.imp_left fun hp => ((hl p).mp hp).1, ?_⟩
      simp [Stored, hl, hm]

theorem xsetsockopt_stored {opt : XpubOption} {rc : Bool} (h : Tries x) (hx : x.xsetsockopt opt = .ok (rc, x')) :
    Tries x' ∧ x'.dist = x.dist ∧ x'.more = x.more ∧ ∀ p, Stored x' p → Stored x p := by
  unfold xsetsockopt at hx
  cases opt with
  | verbose on | verboser on | nodrop on | manual on | welcomeMsg data =>
    cases hx
    exact ⟨⟨h.subscriptions, h.manual⟩, rfl, rfl, fun p hp => hp⟩
  | subscribe topic =>
    dsimp only at hx
    split_ifs at hx
    · split at hx
      · cases hx
        exact ⟨h, rfl, rfl, fun p hp => hp⟩
      · rename_i pipe hlast
        obtain ⟨⟨b, t⟩, ha, hx⟩ := bind_ok hx
        cases hx
        obtain ⟨hr, hl⟩ := add_listed h.subscriptions (ofTrie_ok ha)
        refine ⟨⟨hr, h.manual⟩, rfl, rfl, fun p hp => ?_⟩
        rcases hp with hp | hp
        · rcases hl p hp with hp | rfl
          · exact .inl hp
          · exact .inr (.inr (.inr hlast))
        · exact .inr hp
    · cases hx
      exact ⟨h, rfl, rfl, fun p hp => hp⟩
  | unsubscribe topic =>
    dsimp only at hx
    split_ifs at hx
    · split at hx
      · cases hx
        exact ⟨h, rfl, rfl, fun p hp => hp⟩
      · obtain ⟨⟨b, t⟩, ha, hx⟩ := bind_ok hx
        cases hx
        obtain ⟨hr, hl⟩ := rm_listed h.subscriptions (ofTrie_ok ha)
        exact ⟨⟨hr, h.manual⟩, rfl, rfl, fun p hp => hp.imp_left (hl p)⟩
    · cases hx
      exact ⟨h, rfl, rfl, fun p hp => hp⟩

theorem xrecv_stored (h : Tries x) : Tries x.xrecv.2 ∧ ∀ p, Stored x.xrecv.2 p → Stored x p := by
  unfold xrecv
  split
  · exact ⟨h, fun p hp => hp⟩
  · split
    · rename_i pipe pipes hm hpipes
      refine ⟨⟨h.subscriptions, h.manual⟩, fun p hp => ?_⟩
      unfold Stored
      rw [hpipes]
      rcases hp with hp | hp | hp | hp
      · exact .inl hp
      · exact .inr (.inl hp)
      · exact .inr (.inr (.inl (mem_cons_of_mem _ hp)))
      · exact .inr (.inr (.inl (hp ▸ mem_cons_self)))
    · exact ⟨⟨h.subscriptions, h.manual⟩, fun p hp => hp⟩

end XpubT

namespace Publisher

open XpubT MtrieT
open LoadBalancer (endOf frame)

variable {P : Type} [DecidableEq P] {s s' : Publisher P} {p : P} {msgs : List Msg} {calls : List P} {op : Op P}

/-- No pipe is stored that has terminated. -/
def Alive (s : Publisher P) : Prop := ∀ p, Stored s.xpub p → p ∈ s.xpub.dist.pipes

/-- A pipe that terminates is stored only where `xpipe_terminated` takes it out. -/
def Releases (s : Publisher P) : Op P → Prop
  | .pipeTerminated p => Clean s.xpub p
  | _ => True

structure Attached (s : Publisher P) : Prop where
  wf : s.xpub.dist.Wf
  more : s.xpub.dist.more = s.xpub.more
  tries : Tries s.xpub
  alive : s.Alive

theorem Attached.attach {self : PipeT} {all : Bool} (h : s.Attached) (hp : p ∉ s.xpub.dist.pipes)
    (hs : s.run (.attach p self all msgs) = .ok s') : s'.Attached := by
  obtain ⟨⟨xpub, outlets⟩, hx, hs⟩ := bind_ok hs
  cases hs
  obtain ⟨htries, hstored⟩ := xattachPipe_stored h.tries hx
  obtain ⟨r, hr⟩ := h.tries.subscriptions
  obtain ⟨⟨t, mt, pipes, pending, rfl⟩, -, -⟩ := xattachPipe_spec hr hx
  refine ⟨DistT.attach_wf h.wf hp, DistT.attach_more.trans h.more, htries, fun q hq => ?_⟩
  exact (DistT.attach_mem h.wf hp).mpr ((hstored q hq).imp_left (h.alive q))

theorem Attached.readActivated (h : s.Attached) (hp : p ∈ s.xpub.dist.pipes)
    (hs : s.run (.readActivated p msgs) = .ok s') : s'.Attached := by
  obtain ⟨xpub, hx, hs⟩ := bind_ok hs
  cases hs
  obtain ⟨htries, hstored⟩ := xreadActivated_stored h.tries hx
  obtain ⟨r, hr⟩ := h.tries.subscriptions
  obtain ⟨⟨t, mt, pipes, pending, rfl⟩, -⟩ := xreadActivated_spec hr hx
  refine ⟨h.wf, h.more, htries, fun q hq => ?_⟩
  rcases hstored q hq with hq | rfl
  · exact h.alive q hq
  · exact hp

theorem Attached.pipeTerminated (h : s.Attached) (hp : p ∈ s.xpub.dist.pipes) (hs : s.run (.pipeTerminated p) = .ok s') :
    (s'.Alive ↔ Clean s.xpub p) ∧ (s'.Alive → s'.Attached) := by
  obtain ⟨xpub, hx, hs⟩ := bind_ok hs
  cases hs
  obtain ⟨y, hy, hx⟩ := bind_ok hx
  cases hx
  obtain ⟨htries, hdist, hmore, hother, hself⟩ := unsubscribe_stored h.tries hy
  obtain ⟨hwf, hmem, -, -, hm⟩ := DistT.pipeTerminated_left h.wf hp
  refine ⟨?_, fun halive => ⟨?_, ?_, ⟨htries.subscriptions, htries.manual⟩, halive⟩⟩
  · rw [← hself]
    unfold Alive
    rw [hdist]
    constructor
    · exact fun halive hp' => ((hmem p).mp (halive p hp')).2 rfl
    · intro hn q hq
      have hne : q ≠ p := by
        rintro rfl
        exact hn hq
      exact (hmem q).mpr ⟨h.alive q (hother q hne hq), hne⟩
  · rw [hdist]
    exact hwf
  · rw [hdist, hmore]
    exact hm.trans h.more

theorem Attached.choose {m : Msg} (h : s.Attached) (hr : s.Ready (.xsend m calls)) :
    ∃ d, s.xpub.choose calls = .ok d ∧ d.Wf ∧ DistT.Rearranged s.xpub.dist d := by
  unfold XpubT.choose
  cases hm : s.xpub.more with
  | true => exact ⟨_, if_pos rfl, h.wf, .refl _⟩
  | false =>
    have hcalls : ∀ p ∈ calls, p ∈ s.xpub.dist.pipes := by
      intro p hp
      obtain ⟨r, hrep⟩ := h.tries.subscriptions
      obtain ⟨ms, hms, hcount⟩ := represents_match hrep m.data
      cases hms.symm.trans (hr hm)
      rw [← Multiset.mem_coe, ← Multiset.count_pos, hcount, card_pos] at hp
      obtain ⟨y, hy⟩ := hp
      obtain ⟨hmem, rfl, -⟩ := mem_filter.mp hy
      exact h.alive y.2 (.inl (hrep.listed.mpr ⟨y, hmem, rfl⟩))
    obtain ⟨d, hd, hwf, hre, -⟩ := search_spec h.wf (h.more.trans hm) hcalls
    exact ⟨d, hd, hwf, hre⟩

theorem Attached.xsend {m : Msg} (h : s.Attached) (hr : s.Ready (.xsend m calls))
    (hs : s.run (.xsend m calls) = .ok s') : s'.Attached := by
  obtain ⟨d, hchoose, hwf, hre⟩ := h.choose hr
  obtain ⟨⟨rc, xpub, outlets⟩, hx, hs⟩ := bind_ok hs
  cases hs
  rcases xsend_spec (w := s.outlets) (m := m) hwf hchoose with ⟨-, hx'⟩ | ⟨-, d', w', hsent, hx'⟩
  · obtain ⟨-, he⟩ := ok_pair (hx'.symm.trans hx)
    cases he
    exact ⟨hwf, hre.more.trans h.more, ⟨h.tries.subscriptions, h.tries.manual⟩, fun q hq => (hre.mem q).mpr (h.alive q hq)⟩
  · obtain ⟨-, he⟩ := ok_pair (hx'.symm.trans hx)
    cases he
    have halive : ∀ q, Stored s.xpub q → q ∈ d'.pipes := fun q hq =>
      (hsent.mem q).mpr ((hre.mem q).mpr (h.alive q hq))
    have hmore := hsent.more
    cases hm : m.hasMore with
    | true =>
      rw [hm] at hmore
      exact ⟨hsent.wf, hmore, ⟨h.tries.subscriptions, h.tries.manual⟩, halive⟩
    | false =>
      rw [hm] at hmore
      have hwf' := hsent.wf
      exact ⟨⟨Nat.zero_le _, hwf'.active_le, hwf'.eligible_le, hwf'.idle⟩, hmore, ⟨h.tries.subscriptions, h.tries.manual⟩, halive⟩

theorem Attached.run (h : s.Attached) (hr : s.Ready op) (hs : s.run op = .ok s') :
    (s'.Alive ↔ s.Releases op) ∧ (s'.Alive → s'.Attached) := by
  have hkeep : s'.Attached → (s'.Alive ↔ True) ∧ (s'.Alive → s'.Attached) := fun h' =>
    ⟨iff_true_intro h'.alive, fun _ => h'⟩
  cases op with
  | attach p self all msgs => exact hkeep (h.attach hr.1 hs)
  | drift p o =>
    cases hs
    exact hkeep ⟨h.wf, h.more, h.tries, h.alive⟩
  | readActivated p msgs => exact hkeep (h.readActivated hr hs)
  | writeActivated p n =>
    cases hs
    obtain ⟨hwf, hmem, hmore⟩ := DistT.activated_wf (x := p) h.wf
    exact hkeep ⟨hwf, hmore.trans h.more, ⟨h.tries.subscriptions, h.tries.manual⟩, fun q hq => (hmem q).mpr (h.alive q hq)⟩
  | pipeTerminated p => exact h.pipeTerminated hr hs
  | xsetsockopt opt =>
    obtain ⟨⟨rc, xpub⟩, hx, hs⟩ := bind_ok hs
    cases hs
    obtain ⟨htries, hdist, hmore, hstored⟩ := xsetsockopt_stored h.tries hx
    refine hkeep ⟨?_, ?_, htries, fun q hq => ?_⟩
    · rw [hdist]
      exact h.wf
    · rw [hdist, hmore]
      exact h.more
    · rw [hdist]
      exact h.alive q (hstored q hq)
  | invertMatching on =>
    cases hs
    exact hkeep ⟨h.wf, h.more, ⟨h.tries.subscriptions, h.tries.manual⟩, h.alive⟩
  | xrecv =>
    cases hs
    obtain ⟨hdist, hmore, -⟩ := xrecv_same s.xpub
    obtain ⟨htries, hstored⟩ := xrecv_stored h.tries
    refine hkeep ⟨?_, ?_, htries, fun q hq => ?_⟩
    · rw [hdist]
      exact h.wf
    · rw [hdist, hmore]
      exact h.more
    · rw [hdist]
      exact h.alive q (hstored q hq)
  | xsend m calls => exact hkeep (h.xsend hr hs)

omit [DecidableEq P] in
theorem new_listed : ¬ Listed (MtrieT.new : MtrieT P) p := by
  rintro ⟨key, hp⟩
  rw [MtrieT.new, Node.new_val] at hp
  exact absurd hp (notMem_empty _)

theorem new_attached {pub : Bool} : (new pub : Publisher P).Attached where
  wf := DistT.new_wf
  more := rfl
  tries := ⟨⟨∅, new_represents⟩, ⟨∅, new_represents⟩⟩
  alive p hp := by
    rcases hp with hp | hp | hp | hp
    · exact absurd hp new_listed
    · exact absurd hp new_listed
    · exact nomatch hp
    · exact absurd hp.symm (Option.some_ne_none p)

theorem run_attached {ops : List (Op P)} (h : Run Start (Guarded Releases Step) ops s) : s.Attached := by
  refine h.invariant Attached (fun _ h0 => ?_) fun s op s' hI hs => ?_
  · obtain ⟨pub, rfl⟩ := h0
    exact new_attached
  · obtain ⟨hk, hr, hrun⟩ := hs
    obtain ⟨halive, hattached⟩ := hI.run hr hrun
    exact hattached (halive.mpr hk)

/-- In a run in which each pipe that terminates is released, no pipe is stored that has terminated, and this
stays so exactly if the next call releases its pipe too. -/
theorem stored_alive {ops : List (Op P)} (h : Run Start (Guarded Releases Step) ops s) :
    s.Alive ∧ ∀ op s', s.Ready op → s.run op = .ok s' → (s'.Alive ↔ s.Releases op) :=
  ⟨(run_attached h).alive, fun _ _ hr hs => ((run_attached h).run hr hs).1⟩

def Stays (_ : Publisher P) : Op P → Prop
  | .pipeTerminated _ => False
  | _ => True

instance (s : Publisher P) (op : Op P) : Decidable (s.Stays op) := by
  induction op using Op.casesOn <;> unfold Stays <;> infer_instance

omit [DecidableEq P] in
theorem Stays.releases (h : s.Stays op) : s.Releases op := by
  cases op with
  | pipeTerminated p => exact h.elim
  | _ => trivial

set_option maxRecDepth 8000 in
/-- A pipe that was never heard of in manual mode terminates, and the user answers the request of another one. -/
theorem stored_alive_two : ∃ s : Publisher ℕ, Run Start (Guarded Releases Step)
      ([.attach 0 (endOf 0) false [subscription 1 [65]], .attach 1 (endOf 0) false []] ++ [.pipeTerminated 0]) s ∧
    s.Alive ∧ ∀ s', s.run (.readActivated 1 [subscription 1 [66]]) = .ok s' → s'.Alive := by
  obtain ⟨s, hs, hf⟩ : ∃ s : Publisher ℕ, Run Start (Guarded Stays Step)
      [.attach 0 (endOf 0) false [subscription 1 [65]], .attach 1 (endOf 0) false []] s ∧
      (s.xpub.manual, s.xpub.manualSubscriptions, s.xpub.pendingPipes, s.xpub.lastPipe,
        decide (s.Ready (.pipeTerminated 0)), (s.run (.pipeTerminated 0)).map fun s => decide (1 ∈ s.xpub.dist.pipes)) =
      (false, .new, [], none, true, .ok true) := by
    refine run_of_play (⟨false, rfl⟩ : Start (new false)) ?_
    rfl
  obtain ⟨hmanual, hf⟩ := Prod.mk.inj hf
  obtain ⟨htrie, hf⟩ := Prod.mk.inj hf
  obtain ⟨hpending, hf⟩ := Prod.mk.inj hf
  obtain ⟨hlast, hf⟩ := Prod.mk.inj hf
  obtain ⟨hready, hf⟩ := Prod.mk.inj hf
  have hclean : s.Releases (.pipeTerminated 0) := by
    unfold Releases Clean
    rw [hmanual, htrie, hpending, hlast]
    exact ⟨new_listed, not_mem_nil, fun hl => absurd hl.symm (Option.some_ne_none 0)⟩
  cases hrun : s.run (.pipeTerminated 0) with
  | error e =>
    rw [hrun] at hf
    exact absurd hf (by rintro ⟨⟩)
  | ok s' =>
    rw [hrun] at hf
    have hmem : 1 ∈ s'.xpub.dist.pipes := of_decide_eq_true (Except.ok.inj hf)
    have hs : Run Start (Guarded Releases Step)
        [.attach 0 (endOf 0) false [subscription 1 [65]], .attach 1 (endOf 0) false []] s :=
      hs.mono (fun _ h => h) fun _ _ _ h => ⟨h.1.releases, h.2⟩
    have hs' := hs.snoc ⟨hclean, of_decide_eq_true hready, hrun⟩
    exact ⟨s', hs', (stored_alive hs').1, fun s2 h2 =>
      ((stored_alive hs').2 (.readActivated 1 [subscription 1 [66]]) s2 hmem h2).mpr trivial⟩

/-- Pipe 0 terminates while its request waits for the user, after the user has subscribed it, after manual mode
has been left, and after the user has received the requests it had. -/
theorem pipe_stays_stored :
    (∃ s : Publisher ℕ, Run Start Step [.xsetsockopt (.manual true), .attach 0 (endOf 0) false [subscription 1 [65]],
        .pipeTerminated 0] s ∧ some 0 ∈ s.xpub.pendingPipes ∧ ¬ s.Alive) ∧
    (∃ s : Publisher ℕ, Run Start Step [.xsetsockopt (.manual true), .attach 0 (endOf 0) false [subscription 1 [65]],
        .xrecv, .xsetsockopt (.subscribe [65]), .pipeTerminated 0] s ∧ Listed s.xpub.subscriptions 0 ∧ ¬ s.Alive) ∧
    (∃ s : Publisher ℕ, Run Start Step [.xsetsockopt (.manual true), .attach 0 (endOf 0) false [subscription 1 [65]],
        .xrecv, .xsetsockopt (.manual false), .pipeTerminated 0] s ∧ Listed s.xpub.manualSubscriptions 0 ∧ ¬ s.Alive) ∧
    ∃ s : Publisher ℕ, Run Start Step [.xsetsockopt (.manual true),
        .attach 0 (endOf 0) false [subscription 1 [65], subscription 0 [65]], .xrecv, .xrecv, .pipeTerminated 0] s ∧
        s.xpub.lastPipe = some 0 ∧ ¬ s.Alive := by
  have hstart : Start (new false : Publisher ℕ) := ⟨false, rfl⟩
  refine ⟨?_, ?_, ?_, ?_⟩
  · exact exists_run_free (P := fun s => 0 ∉ s.xpub.dist.pipes ∧ some 0 ∈ s.xpub.pendingPipes) hstart (by decide +kernel)
      fun _ _ ⟨hp, hl⟩ => ⟨hl, fun h => hp (h 0 (.inr (.inr (.inl hl))))⟩
  · exact exists_run_free (P := fun s => 0 ∉ s.xpub.dist.pipes ∧ 0 ∈ (s.xpub.subscriptions.val none [65]).getD ∅) hstart
      (by decide +kernel) fun _ _ ⟨hp, hl⟩ => ⟨⟨[65], hl⟩, fun h => hp (h 0 (.inl ⟨[65], hl⟩))⟩
  · exact exists_run_free (P := fun s => 0 ∉ s.xpub.dist.pipes ∧ 0 ∈ (s.xpub.manualSubscriptions.val none [65]).getD ∅)
      hstart (by decide +kernel) fun _ _ ⟨hp, hl⟩ => ⟨⟨[65], hl⟩, fun h => hp (h 0 (.inr (.inl ⟨[65], hl⟩)))⟩
  · exact exists_run_free (P := fun s => 0 ∉ s.xpub.dist.pipes ∧ s.xpub.lastPipe = some 0) hstart (by decide +kernel)
      fun _ _ ⟨hp, hl⟩ => ⟨hl, fun h => hp (h 0 (.inr (.inr (.inr hl))))⟩

end Publisher

end Zmq
