import LibZmq.Objects.Own

/-! Launching a child in steps. The objects of a thread share a mailbox, and a child runs in its own thread once it has
been plugged, while its owner may still be launching it. -/

namespace Zmq

open List Bool Zmq.Tree

open Function (update update_of_ne update_self)

universe u v

/-- The objects and what their threads are doing. -/
structure Threads (O : Type u) (T : Type v) where
  tree : Tree O
  /-- a launch that has sent `plug` only: the owner, the child, and whether the child waits for a command -/
  launching : T → Option (O × O × Bool)
  plugged : O → Bool
  /-- the object has called `terminate` -/
  asked : O → Bool

namespace Threads

variable {O : Type u} {T : Type v}

def new : Threads O T := ⟨.empty, fun _ => none, fun _ => false, fun _ => false⟩

inductive Op (O : Type u) (T : Type v) where
  | root (x : O)
  | sendPlug (x child : O) (attach : Bool)
  | sendOwn (t : T)
  | terminate (x : O)
  | termChild (x object : O)
  | attach (x owner : O)
  | wait (x : O) (count : ℕ)
  | event (x : O)
  | deliver (t : T)

variable [DecidableEq O] [DecidableEq T] (thread : O → T)

def arrives (t : T) (m : Packet O (OwnCmd O)) : Bool := thread m.dst = t

/-- A thread that is launching a child does nothing else. -/
def Ready (s : Threads O T) : Op O T → Prop
  | .root x => s.tree.created x = false
  | .sendPlug x child _ => s.launching (thread x) = none ∧ s.tree.Alive x ∧ s.tree.created child = false
  | .sendOwn t => s.launching t ≠ none
  | .terminate x => s.launching (thread x) = none ∧ s.tree.Alive x ∧ ((s.tree.objs x).owner = none ∨ s.plugged x = true)
  | .termChild x _ | .wait x _ => s.launching (thread x) = none ∧ s.tree.Alive x
  | .attach x owner => s.launching (thread x) = none ∧ s.tree.Alive x ∧ (s.tree.objs x).owner = some owner
  | .event x => s.launching (thread x) = none ∧ 0 < s.tree.waits x
  | .deliver t => s.launching t = none ∧ (s.tree.flight.find? (arrives thread t)).isSome = true

instance (s : Threads O T) (op : Op O T) : Decidable (s.Ready thread op) := by
  cases op <;> unfold Ready <;> infer_instance

/-- `launch_child` up to `send_plug`. -/
def plug (tree : Tree O) (x child : O) (attach : Bool) : Except OwnFault (Tree O) := do
  let tree := tree.create child .owning
  let tree ← if attach then tree.incSeqnum child else .ok tree
  let tree ← tree.setOwner child x
  tree.sendSeq x child .plug

/-- `send_own`, and the command that the child waits for. -/
def own (tree : Tree O) (x child : O) (attach : Bool) : Except OwnFault (Tree O) := do
  let tree ← tree.sendSeq x x (.own child)
  if attach then tree.send x child .attach else .ok tree

def run (s : Threads O T) : Op O T → Except OwnFault (Threads O T)
  | .root x => .ok { s with tree := s.tree.create x .free }
  | .sendPlug x child attach => (plug s.tree x child attach).map fun tree => { s with
      tree := tree, launching := update s.launching (thread x) (some (x, child, attach)) }
  | .sendOwn t =>
    match s.launching t with
    | none => .ok s
    | some (x, child, attach) => (own s.tree x child attach).map fun tree => { s with
        tree := tree, launching := update s.launching t none }
  | .terminate x => (s.tree.terminate x).map fun tree => { s with tree := tree, asked := update s.asked x true }
  | .deliver t =>
    match s.tree.flight.find? (arrives thread t) with
    | none => .ok s
    | some m => (Tree.process { s.tree with flight := s.tree.flight.eraseP (arrives thread t) } m).map fun tree => { s with
        tree := tree, plugged := if m.cmd = .plug then update s.plugged m.dst true else s.plugged }
  | .termChild x object => (s.tree.run (.termChild x object)).map fun tree => { s with tree := tree }
  | .attach x owner => (s.tree.run (.attach x owner)).map fun tree => { s with tree := tree }
  | .wait x count => (s.tree.run (.wait x count)).map fun tree => { s with tree := tree }
  | .event x => (s.tree.run (.event x)).map fun tree => { s with tree := tree }

def Start (s : Threads O T) : Prop := s = new

abbrev Step : Threads O T → Op O T → Threads O T → Prop := Does (Ready thread) (run thread)

omit [DecidableEq O] [DecidableEq T] in
def Heeded (s : Threads O T) : Prop :=
  s.tree.flight = [] → ∀ x c, s.tree.Alive x → c ∈ (s.tree.objs x).owned → s.asked c = true → 0 < s.tree.terms c

omit [DecidableEq O] [DecidableEq T] in
def Launching (s : Threads O T) (c : O) : Prop :=
  ((s.tree.objs c).owner.bind fun x => s.launching (thread x)).map (fun l => l.2.1) = some c

/-- No child asks to be terminated before its owner has sent `own`. -/
def Keeps (s : Threads O T) : Op O T → Prop
  | .terminate x => ¬ s.Launching thread x
  | _ => True

instance (s : Threads O T) (op : Op O T) : Decidable (s.Keeps thread op) := by
  cases op <;> unfold Keeps <;> try unfold Launching
  all_goals infer_instance

end Threads

namespace Tree

variable {O : Type u} [DecidableEq O]

structure Moves (s s' : Tree O) (l : List (Packet O (OwnCmd O))) : Prop where
  owner : ∀ x, (s'.objs x).owner = (s.objs x).owner
  created : s'.created = s.created
  terms : ∀ c, s.terms c ≤ s'.terms c
  flight : s'.flight = s.flight ++ l
  news : ∀ m ∈ l, (∀ c, m.cmd ≠ .own c ∧ m.cmd ≠ .termReq c) ∧ (m.cmd = .term → 0 < s'.terms m.dst)
  owned : ∀ x, ∀ c ∈ (s'.objs x).owned, c ∈ (s.objs x).owned
  kept : ∀ x, ∀ c ∈ (s.objs x).owned, c ∈ (s'.objs x).owned ∨ 0 < s'.terms c
  ended : ∀ x, ((s.objs x).terminating = true → (s.objs x).owned = []) → (s'.objs x).terminating = true → (s'.objs x).owned = []
  stays : ∀ x, (s.objs x).terminating = true → (s'.objs x).terminating = true
  begins : ∀ x, (s'.objs x).terminating = true → (s.objs x).terminating = true ∨ (s.objs x).owner = none ∨ 0 < s'.terms x

variable {s s1 s' : Tree O} {l l' : List (Packet O (OwnCmd O))} {x y c : O}

section

omit [DecidableEq O]

theorem Moves.trans (h : Moves s s1 l) (h' : Moves s1 s' l') : Moves s s' (l ++ l') where
  owner x := (h'.owner x).trans (h.owner x)
  created := h'.created.trans h.created
  terms c := (h.terms c).trans (h'.terms c)
  flight := by rw [h'.flight, h.flight, append_assoc]
  news m hm := by
    rcases mem_append.mp hm with hm | hm
    · exact ⟨(h.news m hm).1, fun hc => lt_of_lt_of_le ((h.news m hm).2 hc) (h'.terms _)⟩
    · exact h'.news m hm
  owned x c hc := h.owned x c (h'.owned x c hc)
  kept x c hc := by
    rcases h.kept x c hc with hc | hc
    · exact h'.kept x c hc
    · exact .inr (lt_of_lt_of_le hc (h'.terms c))
  ended x hx := h'.ended x (h.ended x hx)
  stays x hx := h'.stays x (h.stays x hx)
  begins x hx := by
    rcases h'.begins x hx with hx | hx | hx
    · exact (h.begins x hx).imp_right fun hx => hx.imp_right fun hx => lt_of_lt_of_le hx (h'.terms x)
    · exact .inr (.inl ((h.owner x).symm.trans hx))
    · exact .inr (.inr hx)

theorem Moves.quiet (hobj : ∀ x, (s'.objs x).owner = (s.objs x).owner ∧ (s'.objs x).owned = (s.objs x).owned ∧
    (s'.objs x).terminating = (s.objs x).terminating) (hc : s'.created = s.created) (ht : s'.terms = s.terms)
    (hf : s'.flight = s.flight ++ l) (hl : ∀ m ∈ l, m.cmd = .plug ∨ m.cmd = .attach ∨ m.cmd = .termAck) : Moves s s' l where
  owner x := (hobj x).1
  created := hc
  terms c := le_of_eq (congrFun ht c).symm
  flight := hf
  news m hm := by rcases hl m hm with hm | hm | hm <;> simp [hm]
  owned x c hx := (hobj x).2.1 ▸ hx
  kept x c hx := .inl ((hobj x).2.1.symm ▸ hx)
  ended x hx hx' := (hobj x).2.1.trans (hx ((hobj x).2.2.symm.trans hx'))
  stays x hx := (hobj x).2.2.trans hx
  begins x hx := .inl ((hobj x).2.2.symm.trans hx)

theorem Moves.refl (s : Tree O) : Moves s s [] :=
  .quiet (fun _ => ⟨rfl, rfl, rfl⟩) rfl rfl (append_nil _).symm nofun

end

theorem Moves.setObj {o : OwnT O} (ho : o.owner = (s.objs x).owner) (hc : o.owned = (s.objs x).owned)
    (ht : o.terminating = (s.objs x).terminating) : Moves s (s.setObj x o) [] := by
  refine .quiet (fun y => ?_) rfl rfl (append_nil _).symm nofun
  rcases eq_or_ne y x with rfl | hne
  · rw [show (s.setObj y o).objs y = o from update_self _ _ _]
    exact ⟨ho, hc, ht⟩
  · rw [show (s.setObj x o).objs y = s.objs y from update_of_ne hne _ _]
    exact ⟨rfl, rfl, rfl⟩

omit [DecidableEq O] in
theorem send_moves {cmd : OwnCmd O} (hc : cmd = .plug ∨ cmd = .attach ∨ cmd = .termAck) (hx : s.send x y cmd = .ok s') :
    Moves s s' [⟨x, y, cmd⟩] := by
  unfold send at hx
  split_ifs at hx
  cases hx
  exact .quiet (fun _ => ⟨rfl, rfl, rfl⟩) rfl rfl rfl fun m hm => mem_singleton.mp hm ▸ hc

theorem incSeqnum_moves (hx : s.incSeqnum x = .ok s') : Moves s s' [] := by
  unfold incSeqnum at hx
  split_ifs at hx
  cases hx
  exact .setObj rfl rfl rfl

theorem registerTermAcks_moves {n : ℕ} (hx : s.registerTermAcks x n = .ok s') : Moves s s' [] := by
  unfold registerTermAcks at hx
  split_ifs at hx
  cases hx
  exact .setObj rfl rfl rfl

theorem destroy_moves (hx : s.destroy x = .ok s') : Moves s s' [] := by
  unfold destroy at hx
  by_cases ha : s.Alive x
  · rw [if_pos ha] at hx
    cases hx
    exact .quiet (fun _ => ⟨rfl, rfl, rfl⟩) rfl rfl (append_nil _).symm nofun
  · rw [if_neg ha] at hx
    cases hx

theorem checkTermAcks_moves (hx : s.checkTermAcks x = .ok s') : ∃ l, Moves s s' l := by
  unfold checkTermAcks at hx
  split_ifs at hx
  · obtain ⟨s1, hconfirm, hx⟩ := bind_ok hx
    have hsent : ∃ l, Moves s s1 l := by
      unfold confirm at hconfirm
      split at hconfirm
      · exact ⟨_, send_moves (.inr (.inr rfl)) hconfirm⟩
      · cases hconfirm
        exact ⟨_, .refl s⟩
    obtain ⟨l, hl⟩ := hsent
    exact ⟨_, hl.trans (destroy_moves hx)⟩
  · cases hx
    exact ⟨_, .refl s⟩

theorem unregisterTermAck_moves (hx : s.unregisterTermAck x = .ok s') : ∃ l, Moves s s' l := by
  unfold unregisterTermAck at hx
  split_ifs at hx
  have hset : Moves s (s.setObj x { s.objs x with termAcks := (s.objs x).termAcks - 1 }) [] := .setObj rfl rfl rfl
  obtain ⟨l, hl⟩ := checkTermAcks_moves hx
  exact ⟨_, hset.trans hl⟩

theorem processSeqnum_moves (hx : s.processSeqnum x = .ok s') : ∃ l, Moves s s' l := by
  have hset : Moves s (s.setObj x { s.objs x with processedSeqnum := (s.objs x).processedSeqnum + 1 }) [] := .setObj rfl rfl rfl
  obtain ⟨l, hl⟩ := checkTermAcks_moves hx
  exact ⟨_, hset.trans hl⟩

theorem sendSeq_moves {cmd : OwnCmd O} (hc : cmd = .plug ∨ cmd = .attach ∨ cmd = .termAck) (hx : s.sendSeq x y cmd = .ok s') :
    Moves s s' [⟨x, y, cmd⟩] := by
  obtain ⟨s1, hinc, hx⟩ := bind_ok hx
  exact (incSeqnum_moves hinc).trans (send_moves hc hx)

theorem sendTerm_moves (hx : s.sendTerm x c = .ok s') :
    Moves s s' [⟨x, c, .term⟩] ∧ (∀ y, s'.objs y = s.objs y) ∧ 0 < s'.terms c := by
  obtain ⟨s1, hsend, hx⟩ := bind_ok hx
  cases hx
  unfold send at hsend
  split_ifs at hsend
  cases hsend
  have hterms : ∀ d, s.terms d ≤ update s.terms c (s.terms c + 1) d := by
    intro d
    rcases eq_or_ne d c with rfl | hne
    · rw [update_self]
      exact Nat.le_succ _
    · rw [update_of_ne hne]
  have hpos : 0 < update s.terms c (s.terms c + 1) c := by
    rw [update_self]
    exact Nat.succ_pos _
  refine ⟨⟨fun _ => rfl, rfl, hterms, rfl, fun m hm => ?_, fun _ _ h => h, fun _ _ h => .inl h, fun _ h => h, fun _ h => h,
    fun _ h => .inl h⟩, fun _ => rfl, hpos⟩
  rw [mem_singleton.mp hm]
  exact ⟨fun d => ⟨nofun, nofun⟩, fun _ => hpos⟩

theorem sendTerms_moves {children : List O} (hx : sendTerms x children s = .ok s') :
    (∃ l, Moves s s' l) ∧ (∀ y, s'.objs y = s.objs y) ∧ ∀ c ∈ children, 0 < s'.terms c := by
  induction children generalizing s with
  | nil =>
    obtain rfl := Except.ok.inj hx
    exact ⟨⟨_, .refl s⟩, fun _ => rfl, nofun⟩
  | cons c rest ih =>
    obtain ⟨s1, hsend, hx⟩ := bind_ok hx
    obtain ⟨hmoves, hobjs, hpos⟩ := sendTerm_moves hsend
    obtain ⟨⟨l, hl⟩, hobjs', hpos'⟩ := ih hx
    refine ⟨⟨_, hmoves.trans hl⟩, fun y => (hobjs' y).trans (hobjs y), fun d hd => ?_⟩
    rcases mem_cons.mp hd with rfl | hd
    · exact lt_of_lt_of_le hpos (hl.terms d)
    · exact hpos' d hd

theorem processTermReq_moves (hx : s.processTermReq x c = .ok s') : ∃ l, Moves s s' l ∧
    ((s.objs x).terminating = false → c ∈ (s.objs x).owned → 0 < s'.terms c) := by
  unfold processTermReq at hx
  split_ifs at hx with hterm hmem
  · cases hx
    exact ⟨_, .refl s, fun hc => nomatch hterm.symm.trans hc⟩
  · obtain ⟨s1, hreg, hx⟩ := bind_ok hx
    have hreg' := registerTermAcks_moves hreg
    obtain ⟨hmoves, hobjs, hpos⟩ := sendTerm_moves hx
    have h := hreg'.trans hmoves
    have hself : (s.setObj x { s.objs x with owned := (s.objs x).owned.erase c }).objs x =
        { s.objs x with owned := (s.objs x).owned.erase c } := update_self _ _ _
    have hother : ∀ y, y ≠ x → (s.setObj x { s.objs x with owned := (s.objs x).owned.erase c }).objs y = s.objs y :=
      fun y hy => update_of_ne hy _ _
    refine ⟨_, ⟨fun y => (h.owner y).trans ?_, h.created, h.terms, h.flight, h.news, fun y d hd => ?_, fun y d hd => ?_,
      fun y hy => h.ended y fun hyt => ?_, fun y hy => h.stays y ?_, fun y hy => ?_⟩, fun _ _ => hpos⟩
    · rcases eq_or_ne y x with rfl | hne
      · rw [hself]
      · rw [hother y hne]
    · have hd := h.owned y d hd
      rcases eq_or_ne y x with rfl | hne
      · rw [hself] at hd
        exact mem_of_mem_erase hd
      · rwa [hother y hne] at hd
    · rcases eq_or_ne d c with rfl | hdc
      · exact .inr hpos
      · refine h.kept y d ?_
        rcases eq_or_ne y x with rfl | hne
        · rw [hself]
          exact (mem_erase_of_ne hdc).mpr hd
        · rwa [hother y hne]
    · rcases eq_or_ne y x with rfl | hne
      · rw [hself] at hyt
        exact absurd hyt hterm
      · rw [hother y hne] at hyt ⊢
        exact hy hyt
    · rcases eq_or_ne y x with rfl | hne
      · exact absurd hy hterm
      · rwa [hother y hne]
    · rcases h.begins y hy with hy | hy | hy
      · rcases eq_or_ne y x with rfl | hne
        · rw [hself] at hy
          exact absurd hy hterm
        · rw [hother y hne] at hy
          exact .inl hy
      · rcases eq_or_ne y x with rfl | hne
        · rw [hself] at hy
          exact .inr (.inl hy)
        · rw [hother y hne] at hy
          exact .inr (.inl hy)
      · exact .inr (.inr hy)
  · cases hx
    exact ⟨_, .refl s, fun _ hc => absurd hc hmem⟩

theorem processTerm_moves (hown : (s.objs x).owner = none ∨ 0 < s.terms x) (hx : s.processTerm x = .ok s') :
    ∃ l, Moves s s' l := by
  unfold processTerm at hx
  split_ifs at hx with hterm
  obtain ⟨s1, hsend, hx⟩ := bind_ok hx
  obtain ⟨s2, hreg, hx⟩ := bind_ok hx
  obtain ⟨⟨l1, h1⟩, hobjs, hpos⟩ := sendTerms_moves hsend
  have h2 := registerTermAcks_moves hreg
  obtain ⟨l3, h3⟩ := checkTermAcks_moves hx
  have hself : ∀ o ph, ((s2.setObj x o).setPhase x ph).objs x = o := fun o ph => update_self _ _ _
  have hother : ∀ o ph y, y ≠ x → ((s2.setObj x o).setPhase x ph).objs y = s2.objs y := fun o ph y hy => update_of_ne hy _ _
  have hmid : Moves s ((s2.setObj x { s2.objs x with owned := [], terminating := true }).setPhase x .terminating) l1 := by
    have h := h1.trans h2
    rw [append_nil] at h
    have howned : ∀ c ∈ (s2.objs x).owned, 0 < s2.terms c := by
      intro c hc
      have hc := h2.owned x c hc
      rw [hobjs] at hc
      exact lt_of_lt_of_le (hpos c hc) (h2.terms c)
    refine ⟨fun y => ?_, h.created, h.terms, h.flight, h.news, fun y d hd => ?_, fun y d hd => ?_, fun y hy hyt => ?_, fun y hy => ?_,
      fun y hy => ?_⟩
    · rcases eq_or_ne y x with rfl | hne
      · rw [hself]
        exact h.owner y
      · rw [hother _ _ y hne]
        exact h.owner y
    · rcases eq_or_ne y x with rfl | hne
      · rw [hself] at hd
        exact nomatch hd
      · rw [hother _ _ y hne] at hd
        exact h.owned y d hd
    · rcases h.kept y d hd with hd | hd
      · rcases eq_or_ne y x with rfl | hne
        · exact .inr (howned d hd)
        · rw [hother _ _ y hne]
          exact .inl hd
      · exact .inr hd
    · rcases eq_or_ne y x with rfl | hne
      · rw [hself]
      · rw [hother _ _ y hne] at hyt ⊢
        exact h.ended y hy hyt
    · rcases eq_or_ne y x with rfl | hne
      · rw [hself]
      · rw [hother _ _ y hne]
        exact h.stays y hy
    · rcases eq_or_ne y x with rfl | hne
      · exact .inr (hown.imp_right fun hp => lt_of_lt_of_le hp (h.terms y))
      · rw [hother _ _ y hne] at hy
        exact h.begins y hy
  exact ⟨_, hmid.trans h3⟩

end Tree

namespace Threads

variable {O : Type u} {T : Type v}

structure Heeds (thread : O → T) (tree : Tree O) (mail : List (Packet O (OwnCmd O))) (launching : T → Option (O × O × Bool))
    (asked : O → Bool) : Prop where
  ended : ∀ x, (tree.objs x).terminating = true → (tree.objs x).owned = []
  parent : ∀ x, ∀ c ∈ (tree.objs x).owned, (tree.objs c).owner = some x
  sent : ∀ m ∈ mail, ∀ c, m.cmd = .own c → (tree.objs c).owner = some m.dst
  unborn : ∀ c, tree.created c = false → (tree.objs c).owner = none ∧ asked c = false ∧ ∀ d, (tree.objs d).owner ≠ some c
  launch : ∀ t x c a, launching t = some (x, c, a) → thread x = t ∧ (tree.objs c).owner = some x ∧ asked c = false
  known : ∀ c x, (tree.objs c).owner = some x → (tree.objs x).terminating = false → tree.terms c = 0 →
    c ∈ (tree.objs x).owned ∨ (∃ m ∈ mail, m.cmd = .own c) ∨ ∃ a, launching (thread x) = some (x, c, a)
  order : mail.Pairwise fun m n => ∀ c, m.cmd = .termReq c → n.cmd ≠ .own c
  requests : ∀ m ∈ mail, ∀ c, m.cmd = .termReq c → asked c = true ∧ (tree.objs c).owner = some m.dst
  asks : ∀ c x, asked c = true → (tree.objs c).owner = some x → (tree.objs x).terminating = false → tree.terms c = 0 →
    ∃ m ∈ mail, m.cmd = .termReq c
  told : ∀ m ∈ mail, m.cmd = .term → 0 < tree.terms m.dst
  stopped : ∀ c x, (tree.objs c).owner = some x → (tree.objs c).terminating = true → 0 < tree.terms c

variable {thread : O → T} {tree tree' : Tree O} {mail older newer l : List (Packet O (OwnCmd O))}
  {launching : T → Option (O × O × Bool)} {asked : O → Bool} {m : Packet O (OwnCmd O)} {x c : O}

theorem Heeds.mailed (h : Heeds thread tree mail launching asked) (f : List (Packet O (OwnCmd O))) :
    Heeds thread { tree with flight := f } mail launching asked :=
  ⟨h.ended, h.parent, h.sent, h.unborn, h.launch, h.known, h.order, h.requests, h.asks, h.told, h.stopped⟩

theorem Heeds.moves (h : Heeds thread tree mail launching asked) (hm : tree.Moves tree' l) :
    Heeds thread tree' (mail ++ l) launching asked := by
  have hterm : ∀ x, (tree'.objs x).terminating = false → (tree.objs x).terminating = false := by
    intro x hx
    by_contra hc
    exact false_ne_true (hx.symm.trans (hm.stays x (eq_true_of_not_eq_false hc)))
  have hnone : ∀ c, tree'.terms c = 0 → tree.terms c = 0 := fun c hc => Nat.eq_zero_of_le_zero (hc ▸ hm.terms c)
  refine ⟨fun x => hm.ended x (h.ended x), fun x c hc => (hm.owner c).trans (h.parent x c (hm.owned x c hc)), fun m hmem c hc => ?_,
    fun c hc => ?_, fun t x c a hl => ?_, fun c x ho ht hz => ?_, ?_, fun m hmem c hc => ?_, fun c x ha ho ht hz => ?_,
    fun m hmem hc => ?_, fun c x ho ht => ?_⟩
  · rcases mem_append.mp hmem with hmem | hmem
    · exact (hm.owner c).trans (h.sent m hmem c hc)
    · exact absurd hc ((hm.news m hmem).1 c).1
  · rw [hm.created] at hc
    obtain ⟨hown, hasked, hpar⟩ := h.unborn c hc
    refine ⟨(hm.owner c).trans hown, hasked, fun d => ?_⟩
    rw [hm.owner]
    exact hpar d
  · rw [hm.owner]
    exact h.launch t x c a hl
  · rw [hm.owner] at ho
    rcases h.known c x ho (hterm x ht) (hnone c hz) with hc | ⟨m, hmem, hc⟩ | hl
    · exact .inl ((hm.kept x c hc).resolve_right fun hc => ne_of_gt hc hz)
    · exact .inr (.inl ⟨m, mem_append_left _ hmem, hc⟩)
    · exact .inr (.inr hl)
  · refine pairwise_append.mpr ⟨h.order, ?_, fun m _ n hn c _ => ((hm.news n hn).1 c).1⟩
    exact List.Pairwise.imp_of_mem (fun hmem _ _ c hc => absurd hc ((hm.news _ hmem).1 c).2)
      (pairwise_of_forall (R := fun _ _ => True) fun _ _ => trivial)
  · rw [hm.owner]
    rcases mem_append.mp hmem with hmem | hmem
    · exact h.requests m hmem c hc
    · exact absurd hc ((hm.news m hmem).1 c).2
  · rw [hm.owner] at ho
    obtain ⟨m, hmem, hc⟩ := h.asks c x ha ho (hterm x ht) (hnone c hz)
    exact ⟨m, mem_append_left _ hmem, hc⟩
  · rcases mem_append.mp hmem with hmem | hmem
    · exact lt_of_lt_of_le (h.told m hmem hc) (hm.terms _)
    · exact (hm.news m hmem).2 hc
  · rw [hm.owner] at ho
    rcases hm.begins c ht with ht | hn | hp
    · exact lt_of_lt_of_le (h.stopped c x ho ht) (hm.terms c)
    · exact absurd (hn.symm.trans ho).symm (Option.some_ne_none x)
    · exact hp

theorem Heeds.drop (h : Heeds thread tree (older ++ m :: newer) launching asked)
    (hown : ∀ c x, m.cmd = .own c → (tree.objs c).owner = some x → (tree.objs x).terminating = false → tree.terms c = 0 →
      c ∈ (tree.objs x).owned)
    (hreq : ∀ c x, m.cmd = .termReq c → (tree.objs c).owner = some x → (tree.objs x).terminating = false → 0 < tree.terms c) :
    Heeds thread tree (older ++ newer) launching asked := by
  have hmem : ∀ n ∈ older ++ newer, n ∈ older ++ m :: newer := fun n hn =>
    (mem_append.mp hn).elim (mem_append_left _) fun hn => mem_append_right _ (mem_cons_of_mem m hn)
  have hrest : ∀ n ∈ older ++ m :: newer, n = m ∨ n ∈ older ++ newer := by
    intro n hn
    rcases mem_append.mp hn with hn | hn
    · exact .inr (mem_append_left _ hn)
    · exact (mem_cons.mp hn).imp_right (mem_append_right _)
  refine ⟨h.ended, h.parent, fun n hn => h.sent n (hmem n hn), h.unborn, h.launch, fun c x ho ht hz => ?_, ?_,
    fun n hn => h.requests n (hmem n hn), fun c x ha ho ht hz => ?_, fun n hn => h.told n (hmem n hn), h.stopped⟩
  · rcases h.known c x ho ht hz with hc | ⟨n, hn, hc⟩ | hl
    · exact .inl hc
    · rcases hrest n hn with rfl | hn
      · exact .inl (hown c x hc ho ht hz)
      · exact .inr (.inl ⟨n, hn, hc⟩)
    · exact .inr (.inr hl)
  · exact h.order.sublist (List.Sublist.append_left (sublist_cons_self m newer) older)
  · obtain ⟨n, hn, hc⟩ := h.asks c x ha ho ht hz
    rcases hrest n hn with rfl | hn
    · exact absurd hz (ne_of_gt (hreq c x hc ho ht))
    · exact ⟨n, hn, hc⟩

section

variable [DecidableEq O]

theorem Heeds.gains (h : Heeds thread tree mail launching asked) (hm : m ∈ mail) (hc : m.cmd = .own c)
    (hx : tree.processOwn m.dst c = .ok tree') : ∃ l, Heeds thread tree' (mail ++ l) launching asked ∧
      tree'.flight = tree.flight ++ l ∧ ((tree'.objs m.dst).terminating = false → tree'.terms c = 0 →
        c ∈ (tree'.objs m.dst).owned) := by
  have hown := h.sent m hm c hc
  unfold processOwn at hx
  split_ifs at hx with hterm
  · obtain ⟨s1, hreg, hx⟩ := bind_ok hx
    obtain ⟨hmoves, -, hpos⟩ := sendTerm_moves hx
    have hall := (registerTermAcks_moves hreg).trans hmoves
    exact ⟨_, h.moves hall, hall.flight, fun _ hz => absurd hz (ne_of_gt hpos)⟩
  · cases hx
    obtain ⟨o, ho⟩ : ∃ o, { tree.objs m.dst with owned := (tree.objs m.dst).owned.insert c } = o := ⟨_, rfl⟩
    rw [ho]
    have hself : ((tree.setObj m.dst o).setPhase c .owned).objs m.dst = o := update_self _ _ _
    have hother : ∀ y, y ≠ m.dst → ((tree.setObj m.dst o).setPhase c .owned).objs y = tree.objs y :=
      fun y hy => update_of_ne hy _ _
    have howner : ∀ y, (((tree.setObj m.dst o).setPhase c .owned).objs y).owner = (tree.objs y).owner := by
      intro y
      rcases eq_or_ne y m.dst with rfl | hne
      · rw [hself, ← ho]
      · rw [hother y hne]
    have hsame : ∀ y, (((tree.setObj m.dst o).setPhase c .owned).objs y).terminating = (tree.objs y).terminating := by
      intro y
      rcases eq_or_ne y m.dst with rfl | hne
      · rw [hself, ← ho]
      · rw [hother y hne]
    have hin : ∀ y, ∀ d ∈ (tree.objs y).owned, d ∈ (((tree.setObj m.dst o).setPhase c .owned).objs y).owned := by
      intro y d hd
      rcases eq_or_ne y m.dst with rfl | hne
      · rw [hself, ← ho]
        exact mem_insert_of_mem hd
      · rwa [hother y hne]
    have hnew : c ∈ (((tree.setObj m.dst o).setPhase c .owned).objs m.dst).owned := by
      rw [hself, ← ho]
      exact mem_insert_self
    refine ⟨[], ?_, (append_nil _).symm, fun _ _ => hnew⟩
    rw [append_nil]
    refine ⟨fun x hx => ?_, fun x d hd => ?_, fun n hn d hd => (howner d).trans (h.sent n hn d hd), fun d hd => ?_,
      fun t x d a hl => ?_, fun d x hd ht hz => ?_, h.order, fun n hn d hd => ?_, fun d x ha hd ht => ?_, h.told, fun d x hd ht => ?_⟩
    · rw [hsame] at hx
      rcases eq_or_ne x m.dst with rfl | hne
      · exact absurd hx hterm
      · rw [hother x hne]
        exact h.ended x hx
    · rw [howner]
      rcases eq_or_ne x m.dst with rfl | hne
      · rw [hself, ← ho] at hd
        rcases mem_insert_iff.mp hd with rfl | hd
        · exact hown
        · exact h.parent _ d hd
      · rw [hother x hne] at hd
        exact h.parent x d hd
    · obtain ⟨hd1, hd2, hd3⟩ := h.unborn d hd
      refine ⟨(howner d).trans hd1, hd2, fun y => ?_⟩
      rw [howner]
      exact hd3 y
    · rw [howner]
      exact h.launch t x d a hl
    · rw [howner] at hd
      rw [hsame] at ht
      exact (h.known d x hd ht hz).imp_left (hin x d)
    · rw [howner]
      exact h.requests n hn d hd
    · rw [howner] at hd
      rw [hsame] at ht
      exact h.asks d x ha hd ht
    · rw [howner] at hd
      rw [hsame] at ht
      exact h.stopped d x hd ht

theorem Heeds.create {phase : OwnPhase} (h : Heeds thread tree mail launching asked) (hc : tree.created c = false) :
    Heeds thread (tree.create c phase) mail launching asked := by
  obtain ⟨hnone, -, hpar⟩ := h.unborn c hc
  have hself : (tree.create c phase).objs c = .new := update_self _ _ _
  have hother : ∀ y, y ≠ c → (tree.create c phase).objs y = tree.objs y := fun y hy => update_of_ne hy _ _
  have howner : ∀ y, ((tree.create c phase).objs y).owner = (tree.objs y).owner := by
    intro y
    rcases eq_or_ne y c with rfl | hne
    · rw [hself, hnone]
      rfl
    · rw [hother y hne]
  have hparent : ∀ {d x}, (tree.objs d).owner = some x → x ≠ c := by
    rintro d x hd rfl
    exact hpar d hd
  have hchild : ∀ {d x}, (tree.objs d).owner = some x → d ≠ c := by
    rintro d x hd rfl
    exact Option.some_ne_none x (hd.symm.trans hnone)
  refine ⟨fun x hx => ?_, fun x d hd => ?_, fun n hn d hd => (howner d).trans (h.sent n hn d hd), fun d hd => ?_,
    fun t x d a hl => ?_, fun d x hd ht hz => ?_, h.order, fun n hn d hd => ?_, fun d x ha hd ht hz => ?_, h.told,
    fun d x hd ht => ?_⟩
  · rcases eq_or_ne x c with rfl | hne
    · rw [hself]
      rfl
    · rw [hother x hne] at hx ⊢
      exact h.ended x hx
  · rw [howner]
    rcases eq_or_ne x c with rfl | hne
    · rw [hself] at hd
      exact nomatch hd
    · rw [hother x hne] at hd
      exact h.parent x d hd
  · have hd' : tree.created d = false := by
      rcases eq_or_ne d c with rfl | hne
      · exact hc
      · exact (update_of_ne hne _ _).symm.trans hd
    obtain ⟨hd1, hd2, hd3⟩ := h.unborn d hd'
    refine ⟨(howner d).trans hd1, hd2, fun y => ?_⟩
    rw [howner]
    exact hd3 y
  · rw [howner]
    exact h.launch t x d a hl
  · rw [howner] at hd
    rw [hother x (hparent hd)] at ht ⊢
    exact h.known d x hd ht hz
  · rw [howner]
    exact h.requests n hn d hd
  · rw [howner] at hd
    rw [hother x (hparent hd)] at ht
    exact h.asks d x ha hd ht hz
  · rw [howner] at hd
    rw [hother d (hchild hd)] at ht
    exact h.stopped d x hd ht

variable [DecidableEq T]

theorem Heeds.adopt (attach : Bool) (h : Heeds thread tree mail launching asked) (hc : (tree.objs c).owner = none)
    (hnew : (tree.objs c).terminating = false) (hasked : asked c = false) (hcreated : tree.created c = true)
    (hx : tree.created x = true) (hfree : launching (thread x) = none) :
    Heeds thread (tree.setObj c { tree.objs c with owner := some x }) mail
      (update launching (thread x) (some (x, c, attach))) asked := by
  have hself : (tree.setObj c { tree.objs c with owner := some x }).objs c = { tree.objs c with owner := some x } :=
    update_self _ _ _
  have hother : ∀ y, y ≠ c → (tree.setObj c { tree.objs c with owner := some x }).objs y = tree.objs y :=
    fun y hy => update_of_ne hy _ _
  have hold : ∀ {d y}, (tree.objs d).owner = some y →
      ((tree.setObj c { tree.objs c with owner := some x }).objs d).owner = some y := by
    intro d y hd
    rw [hother d (by rintro rfl; exact Option.some_ne_none y (hd.symm.trans hc))]
    exact hd
  have hsame : ∀ y, ((tree.setObj c { tree.objs c with owner := some x }).objs y).terminating = (tree.objs y).terminating ∧
      ((tree.setObj c { tree.objs c with owner := some x }).objs y).owned = (tree.objs y).owned := by
    intro y
    rcases eq_or_ne y c with rfl | hne
    · rw [hself]
      exact ⟨rfl, rfl⟩
    · rw [hother y hne]
      exact ⟨rfl, rfl⟩
  refine ⟨fun y hy => ?_, fun y d hd => ?_, fun n hn d hd => hold (h.sent n hn d hd), fun d hd => ?_, fun t y d a hl => ?_,
    fun d y hd ht hz => ?_, h.order, fun n hn d hd => ⟨(h.requests n hn d hd).1, hold (h.requests n hn d hd).2⟩,
    fun d y ha hd ht hz => ?_, h.told, fun d y hd ht => ?_⟩
  · rw [(hsame y).1] at hy
    rw [(hsame y).2]
    exact h.ended y hy
  · rw [(hsame y).2] at hd
    exact hold (h.parent y d hd)
  · have hne : d ≠ c := by
      rintro rfl
      exact false_ne_true (hd.symm.trans hcreated)
    obtain ⟨hd1, hd2, hd3⟩ := h.unborn d hd
    refine ⟨by rw [hother d hne]; exact hd1, hd2, fun y => ?_⟩
    rcases eq_or_ne y c with rfl | hy
    · rw [hself]
      rintro he
      cases he
      exact false_ne_true (hd.symm.trans hx)
    · rw [hother y hy]
      exact hd3 y
  · rcases eq_or_ne t (thread x) with rfl | hne
    · rw [update_self] at hl
      cases hl
      rw [hself]
      exact ⟨rfl, rfl, hasked⟩
    · rw [update_of_ne hne] at hl
      obtain ⟨hl1, hl2, hl3⟩ := h.launch t y d a hl
      exact ⟨hl1, hold hl2, hl3⟩
  · rw [(hsame y).1] at ht
    rw [(hsame y).2]
    rcases eq_or_ne d c with rfl | hne
    · rw [hself] at hd
      cases hd
      refine .inr (.inr ⟨attach, ?_⟩)
      rw [update_self]
    · rw [hother d hne] at hd
      rcases h.known d y hd ht hz with hk | hk | ⟨a, hk⟩
      · exact .inl hk
      · exact .inr (.inl hk)
      · refine .inr (.inr ⟨a, ?_⟩)
        rw [update_of_ne fun he => ?_]
        · exact hk
        · rw [he, hfree] at hk
          cases hk
  · rw [(hsame y).1] at ht
    rcases eq_or_ne d c with rfl | hne
    · exact nomatch hasked.symm.trans ha
    · rw [hother d hne] at hd
      exact h.asks d y ha hd ht hz
  · rw [(hsame d).1] at ht
    rcases eq_or_ne d c with rfl | hne
    · exact nomatch hnew.symm.trans ht
    · rw [hother d hne] at hd
      exact h.stopped d y hd ht

omit [DecidableEq O] in
theorem Heeds.owns {t : T} {attach : Bool} (h : Heeds thread tree mail launching asked) (hl : launching t = some (x, c, attach)) :
    Heeds thread tree (mail ++ [⟨x, x, .own c⟩]) (update launching t none) asked := by
  obtain ⟨ht, hown, hasked⟩ := h.launch t x c attach hl
  have hlast : ∀ n ∈ mail ++ [(⟨x, x, .own c⟩ : Packet O (OwnCmd O))], n ∈ mail ∨ n = ⟨x, x, .own c⟩ := fun n hn =>
    (mem_append.mp hn).imp_right mem_singleton.mp
  refine ⟨h.ended, h.parent, fun n hn d hd => ?_, h.unborn, fun t' y d a hl' => ?_, fun d y hd hterm hz => ?_, ?_,
    fun n hn d hd => ?_, fun d y ha hd hterm hz => ?_, fun n hn hterm => ?_, h.stopped⟩
  · rcases hlast n hn with hn | rfl
    · exact h.sent n hn d hd
    · cases hd
      exact hown
  · rcases eq_or_ne t' t with rfl | hne
    · rw [update_self] at hl'
      cases hl'
    · rw [update_of_ne hne] at hl'
      exact h.launch t' y d a hl'
  · rcases h.known d y hd hterm hz with hk | ⟨n, hn, hk⟩ | ⟨a, hk⟩
    · exact .inl hk
    · exact .inr (.inl ⟨n, mem_append_left _ hn, hk⟩)
    · rcases eq_or_ne (thread y) t with he | hne
      · rw [he, hl] at hk
        cases hk
        exact .inr (.inl ⟨_, mem_append_right _ (mem_singleton_self _), rfl⟩)
      · refine .inr (.inr ⟨a, ?_⟩)
        rw [update_of_ne hne]
        exact hk
  · refine pairwise_append.mpr ⟨h.order, pairwise_singleton _ _, fun n hn k hk d hd he => ?_⟩
    rw [mem_singleton.mp hk] at he
    cases he
    exact false_ne_true (hasked.symm.trans (h.requests n hn c hd).1)
  · rcases hlast n hn with hn | rfl
    · exact h.requests n hn d hd
    · cases hd
  · obtain ⟨n, hn, hreq⟩ := h.asks d y ha hd hterm hz
    exact ⟨n, mem_append_left _ hn, hreq⟩
  · rcases hlast n hn with hn | rfl
    · exact h.told n hn hterm
    · cases hterm

omit [DecidableEq T] in
theorem Heeds.request (h : Heeds thread tree mail launching asked) (hx : (tree.objs c).owner = some x)
    (hl : ∀ t y a, launching t ≠ some (y, c, a)) (hc : tree.created c = true) :
    Heeds thread tree (mail ++ [⟨c, x, .termReq c⟩]) launching (update asked c true) := by
  have hlast : ∀ n ∈ mail ++ [(⟨c, x, .termReq c⟩ : Packet O (OwnCmd O))], n ∈ mail ∨ n = ⟨c, x, .termReq c⟩ := fun n hn =>
    (mem_append.mp hn).imp_right mem_singleton.mp
  have hin : ∀ n ∈ mail, n ∈ mail ++ [(⟨c, x, .termReq c⟩ : Packet O (OwnCmd O))] := fun n hn => mem_append_left _ hn
  refine ⟨h.ended, h.parent, fun n hn d hd => ?_, fun d hd => ?_, fun t y d a hl' => ?_, fun d y hd hterm hz => ?_, ?_,
    fun n hn d hd => ?_, fun d y ha hd hterm hz => ?_, fun n hn hterm => ?_, h.stopped⟩
  · rcases hlast n hn with hn | rfl
    · exact h.sent n hn d hd
    · cases hd
  · obtain ⟨hd1, hd2, hd3⟩ := h.unborn d hd
    refine ⟨hd1, ?_, hd3⟩
    rw [update_of_ne]
    · exact hd2
    · rintro rfl
      exact false_ne_true (hd.symm.trans hc)
  · obtain ⟨hl1, hl2, hl3⟩ := h.launch t y d a hl'
    refine ⟨hl1, hl2, ?_⟩
    rw [update_of_ne]
    · exact hl3
    · rintro rfl
      exact hl t y a hl'
  · exact (h.known d y hd hterm hz).imp_right fun hk => hk.imp_left fun ⟨n, hn, hk⟩ => ⟨n, hin n hn, hk⟩
  · refine pairwise_append.mpr ⟨h.order, pairwise_singleton _ _, fun n hn k hk d hd he => ?_⟩
    rw [mem_singleton.mp hk] at he
    cases he
  · rcases hlast n hn with hn | rfl
    · obtain ⟨hr1, hr2⟩ := h.requests n hn d hd
      refine ⟨?_, hr2⟩
      rcases eq_or_ne d c with rfl | hne
      · exact update_self _ _ _
      · exact (update_of_ne hne _ _).trans hr1
    · cases hd
      exact ⟨update_self _ _ _, hx⟩
  · rcases eq_or_ne d c with rfl | hne
    · exact ⟨_, mem_append_right _ (mem_singleton_self _), rfl⟩
    · obtain ⟨n, hn, hreq⟩ := h.asks d y ((update_of_ne hne _ _).symm.trans ha) hd hterm hz
      exact ⟨n, hin n hn, hreq⟩
  · rcases hlast n hn with hn | rfl
    · exact h.told n hn hterm
    · cases hterm

omit [DecidableEq T] in
theorem Heeds.told_asks (h : Heeds thread tree mail launching asked)
    (hc : (tree.objs c).owner = none ∨ 0 < tree.terms c) (hl : ∀ t y a, launching t ≠ some (y, c, a))
    (hcreated : tree.created c = true) : Heeds thread tree mail launching (update asked c true) := by
  refine ⟨h.ended, h.parent, h.sent, fun d hd => ?_, fun t y d a hl' => ?_, h.known, h.order, fun n hn d hd => ?_,
    fun d y ha hd hterm hz => ?_, h.told, h.stopped⟩
  · obtain ⟨hd1, hd2, hd3⟩ := h.unborn d hd
    refine ⟨hd1, ?_, hd3⟩
    rw [update_of_ne]
    · exact hd2
    · rintro rfl
      exact false_ne_true (hd.symm.trans hcreated)
  · obtain ⟨hl1, hl2, hl3⟩ := h.launch t y d a hl'
    refine ⟨hl1, hl2, ?_⟩
    rw [update_of_ne]
    · exact hl3
    · rintro rfl
      exact hl t y a hl'
  · obtain ⟨hr1, hr2⟩ := h.requests n hn d hd
    refine ⟨?_, hr2⟩
    rcases eq_or_ne d c with rfl | hne
    · exact update_self _ _ _
    · exact (update_of_ne hne _ _).trans hr1
  · rcases eq_or_ne d c with rfl | hne
    · rcases hc with hc | hc
      · exact absurd (hd.symm.trans hc) (Option.some_ne_none y)
      · exact absurd hz (ne_of_gt hc)
    · exact h.asks d y ((update_of_ne hne _ _).symm.trans ha) hd hterm hz

def Sound (thread : O → T) (s : Threads O T) : Prop := Heeds thread s.tree s.tree.flight s.launching s.asked

variable {s s' : Threads O T} {t : T}

omit [DecidableEq O] [DecidableEq T] in
theorem Sound.moves (h : Sound thread s) (hm : s.tree.Moves tree' l) : Sound thread { s with tree := tree' } := by
  have h' : Heeds thread tree' (s.tree.flight ++ l) s.launching s.asked := Heeds.moves h hm
  rw [← hm.flight] at h'
  exact h'

theorem Sound.sendPlug {attach : Bool} (h : Sound thread s) (hr : s.Ready thread (.sendPlug x c attach))
    (hx : s.run thread (.sendPlug x c attach) = .ok s') : Sound thread s' := by
  obtain ⟨hfree, halive, hnew⟩ := hr
  have hasked := (h.unborn c hnew).2.1
  have hne : x ≠ c := by
    rintro rfl
    exact false_ne_true (hnew.symm.trans halive.1)
  obtain ⟨tree', hplug, rfl⟩ := map_ok hx
  have hsplit : ∃ s1, (if attach then (s.tree.create c .owning).incSeqnum c else .ok (s.tree.create c .owning)) = .ok s1 ∧
      (s1.setOwner c x >>= fun tree => tree.sendSeq x c .plug) = .ok tree' := by
    cases attach with
    | false => exact ⟨_, rfl, hplug⟩
    | true => exact bind_ok hplug
  obtain ⟨s1, hinc, hplug⟩ := hsplit
  obtain ⟨s2, hset, hplug⟩ := bind_ok hplug
  have hcreate : Heeds thread (s.tree.create c .owning) s.tree.flight s.launching s.asked := Heeds.create h hnew
  have hobj : (s.tree.create c .owning).objs c = .new := update_self _ _ _
  -- the child may wait for a command
  have hs1 : (s.tree.create c .owning).Moves s1 [] ∧ (s1.objs c).terminating = false := by
    cases attach with
    | false =>
      cases hinc
      exact ⟨.refl _, by rw [hobj]; rfl⟩
    | true =>
      refine ⟨incSeqnum_moves hinc, ?_⟩
      rw [if_pos rfl] at hinc
      unfold incSeqnum at hinc
      split_ifs at hinc
      cases hinc
      rw [show ((s.tree.create c .owning).setObj c _).objs c = _ from update_self _ _ _, hobj]
      rfl
  obtain ⟨hmoves, hterm⟩ := hs1
  have h1 := hcreate.moves hmoves
  rw [append_nil] at h1
  have hcreated : s1.created = update s.tree.created c true := hmoves.created
  unfold setOwner at hset
  split_ifs at hset with hown
  cases hset
  have hnone : (s1.objs c).owner = none := by
    rw [hmoves.owner, hobj]
    rfl
  have hcc : s1.created c = true := by rw [hcreated, update_self]
  have hcx : s1.created x = true := by rw [hcreated, update_of_ne hne, halive.1]
  have h2 := h1.adopt attach hnone hterm hasked hcc hcx hfree
  have hsend := sendSeq_moves (.inl rfl) hplug
  have h3 := h2.moves hsend
  have hflight : tree'.flight = s.tree.flight ++ [⟨x, c, .plug⟩] := by
    rw [hsend.flight]
    exact congrArg (· ++ _) (hmoves.flight.trans (append_nil _))
  change Heeds thread tree' tree'.flight _ _
  rw [hflight]
  exact h3

theorem Sound.sendOwn (h : Sound thread s) (hx : s.run thread (.sendOwn t) = .ok s') : Sound thread s' := by
  dsimp only [Threads.run] at hx
  cases hl : s.launching t with
  | none =>
    rw [hl] at hx
    cases hx
    exact h
  | some y =>
    obtain ⟨x, c, attach⟩ := y
    rw [hl] at hx
    obtain ⟨tree', hown, rfl⟩ := map_ok hx
    obtain ⟨s1, hseq, hown⟩ := bind_ok hown
    obtain ⟨s0, hinc, hsend⟩ := bind_ok hseq
    have hmoves := incSeqnum_moves hinc
    have h0 := Heeds.moves h hmoves
    rw [append_nil] at h0
    unfold send at hsend
    split_ifs at hsend
    cases hsend
    have hflight : s0.flight = s.tree.flight := hmoves.flight.trans (append_nil _)
    have h1' : Sound thread { s with
        tree := { s0 with flight := s0.flight ++ [⟨x, x, .own c⟩] }, launching := update s.launching t none } := by
      rw [hflight]
      exact (h0.owns hl).mailed _
    cases attach with
    | false =>
      cases hown
      exact h1'
    | true => exact h1'.moves (send_moves (.inr (.inl rfl)) hown)

theorem Sound.terminate (h : Sound thread s) (hr : s.Ready thread (.terminate x)) (hk : s.Keeps thread (.terminate x))
    (hx : s.run thread (.terminate x) = .ok s') : Sound thread s' := by
  have hcreated : s.tree.created x = true := hr.2.1.1
  have hl : ∀ t y a, s.launching t ≠ some (y, x, a) := by
    intro t y a hl
    obtain ⟨rfl, hown, -⟩ := h.launch t y x a hl
    refine hk ?_
    unfold Launching
    rw [hown, Option.bind_some, hl]
    rfl
  obtain ⟨tree', hterm, rfl⟩ := map_ok hx
  unfold terminate at hterm
  split_ifs at hterm with hc
  · cases hterm
    refine Heeds.told_asks h ?_ hl hcreated
    cases hown : (s.tree.objs x).owner with
    | none => exact .inl rfl
    | some y => exact .inr (h.stopped x y hown hc)
  · cases hown : (s.tree.objs x).owner with
    | none =>
      rw [hown] at hterm
      obtain ⟨l, hmoves⟩ := processTerm_moves (.inl hown) hterm
      have h' : Sound thread { s with asked := update s.asked x true } :=
        Heeds.told_asks h (.inl hown) hl hcreated
      exact h'.moves hmoves
    | some y =>
      rw [hown] at hterm
      dsimp only at hterm
      unfold send at hterm
      split_ifs at hterm
      cases hterm
      exact (Heeds.request h hown hl hcreated).mailed _

omit [DecidableEq O] [DecidableEq T] in
theorem Heeds.delivered (h : Heeds thread tree' (older ++ m :: newer ++ l) launching asked)
    (hf : tree'.flight = older ++ newer ++ l)
    (hown : ∀ c x, m.cmd = .own c → (tree'.objs c).owner = some x → (tree'.objs x).terminating = false → tree'.terms c = 0 →
      c ∈ (tree'.objs x).owned)
    (hreq : ∀ c x, m.cmd = .termReq c → (tree'.objs c).owner = some x → (tree'.objs x).terminating = false → 0 < tree'.terms c) :
    Heeds thread tree' tree'.flight launching asked := by
  rw [hf, append_assoc]
  rw [append_assoc] at h
  exact h.drop hown hreq

omit [DecidableEq O] [DecidableEq T] in
theorem Heeds.finds (h : Heeds thread tree (older ++ m :: newer) launching asked) (hm : m.cmd = .termReq c)
    (hfirst : ∀ n ∈ older, thread n.dst ≠ thread m.dst) (hterm : (tree.objs m.dst).terminating = false)
    (hz : tree.terms c = 0) : c ∈ (tree.objs m.dst).owned := by
  have hmem : m ∈ older ++ m :: newer := mem_append_right _ mem_cons_self
  obtain ⟨hasked, hown⟩ := h.requests m hmem c hm
  rcases h.known c m.dst hown hterm hz with hk | ⟨n, hn, hk⟩ | ⟨a, hk⟩
  · exact hk
  · have hdst : n.dst = m.dst := Option.some.inj ((h.sent n hn c hk).symm.trans hown)
    rcases mem_append.mp hn with hn | hn
    · exact absurd (congrArg thread hdst) (hfirst n hn)
    · rcases mem_cons.mp hn with rfl | hn
      · cases hm.symm.trans hk
      · exact absurd hk ((pairwise_cons.mp (pairwise_append.mp h.order).2.1).1 n hn c hm)
  · exact nomatch (h.launch _ _ c a hk).2.2.symm.trans hasked

theorem Sound.deliver (h : Sound thread s) (hx : s.run thread (.deliver t) = .ok s') : Sound thread s' := by
  dsimp only [Threads.run] at hx
  cases hfind : s.tree.flight.find? (arrives thread t) with
  | none =>
    rw [hfind] at hx
    cases hx
    exact h
  | some m =>
    rw [hfind] at hx
    obtain ⟨tree', hprocess, rfl⟩ := map_ok hx
    obtain ⟨hm, older, newer, hflight, hold⟩ := find?_eq_some_iff_append.mp hfind
    have hrest : s.tree.flight.eraseP (arrives thread t) = older ++ newer := by
      rw [hflight, eraseP_append_right _ (fun n hn => by simpa using hold n hn), eraseP_cons_of_pos hm]
    have hfirst : ∀ n ∈ older, thread n.dst ≠ thread m.dst := by
      intro n hn he
      have hno := hold n hn
      have hn : arrives thread t n = true := decide_eq_true (he.trans (of_decide_eq_true hm))
      rw [hn] at hno
      exact absurd hno (by decide)
    have hmem : m ∈ older ++ m :: newer := mem_append_right _ mem_cons_self
    have h0 : Heeds thread { s.tree with flight := older ++ newer } (older ++ m :: newer) s.launching s.asked := by
      rw [← hflight]
      exact Heeds.mailed h _
    rw [hrest] at hprocess
    unfold process at hprocess
    split_ifs at hprocess
    cases hcmd : m.cmd with
    | plug | attach =>
      rw [hcmd] at hprocess
      obtain ⟨l, hl⟩ := processSeqnum_moves hprocess
      exact (h0.moves hl).delivered hl.flight (fun _ _ hc => by cases hcmd.symm.trans hc)
        fun _ _ hc => by cases hcmd.symm.trans hc
    | own c =>
      rw [hcmd] at hprocess
      obtain ⟨s1, hown, hseq⟩ := bind_ok hprocess
      obtain ⟨l, h1, hf, hkept⟩ := h0.gains hmem hcmd hown
      obtain ⟨l', hl'⟩ := processSeqnum_moves hseq
      have h2 := h1.moves hl'
      rw [append_assoc] at h2
      refine h2.delivered ?_ (fun d x hc ho ht hz => ?_) fun _ _ hc => by cases hcmd.symm.trans hc
      · rw [hl'.flight, hf, append_assoc]
      · cases hcmd.symm.trans hc
        have hdst : x = m.dst := by
          have ho' := (hl'.owner c).symm.trans ho
          exact Option.some.inj (ho'.symm.trans (h1.sent m (mem_append_left _ hmem) c hcmd))
        subst hdst
        have hterm : (s1.objs m.dst).terminating = false := by
          by_contra hc
          exact false_ne_true (ht.symm.trans (hl'.stays _ (eq_true_of_not_eq_false hc)))
        have hin := hkept hterm (Nat.eq_zero_of_le_zero (hz ▸ hl'.terms c))
        exact (hl'.kept _ c hin).resolve_right fun hp => ne_of_gt hp hz
    | termReq c =>
      rw [hcmd] at hprocess
      obtain ⟨l, hl, hpos⟩ := processTermReq_moves hprocess
      refine (h0.moves hl).delivered hl.flight (fun _ _ hc => by cases hcmd.symm.trans hc) fun d x hc ho ht => ?_
      cases hcmd.symm.trans hc
      have hdst : x = m.dst := Option.some.inj (((hl.owner c).symm.trans ho).symm.trans (h0.requests m hmem c hcmd).2)
      subst hdst
      have hterm : (s.tree.objs m.dst).terminating = false := by
        by_contra hc
        exact false_ne_true (ht.symm.trans (hl.stays _ (eq_true_of_not_eq_false hc)))
      by_contra hz
      have hz : tree'.terms c = 0 := Nat.eq_zero_of_not_pos hz
      exact ne_of_gt (hpos hterm (h0.finds hcmd hfirst hterm (Nat.eq_zero_of_le_zero (hz ▸ hl.terms c)))) hz
    | term =>
      rw [hcmd] at hprocess
      obtain ⟨l, hl⟩ := processTerm_moves (.inr (h0.told m hmem hcmd)) hprocess
      exact (h0.moves hl).delivered hl.flight (fun _ _ hc => by cases hcmd.symm.trans hc)
        fun _ _ hc => by cases hcmd.symm.trans hc
    | termAck =>
      rw [hcmd] at hprocess
      obtain ⟨l, hl⟩ := unregisterTermAck_moves hprocess
      have hl : Tree.Moves { s.tree with flight := older ++ newer } tree' l :=
        ⟨hl.owner, hl.created, hl.terms, hl.flight, hl.news, hl.owned, hl.kept, hl.ended, hl.stays, hl.begins⟩
      exact (h0.moves hl).delivered hl.flight (fun _ _ hc => by cases hcmd.symm.trans hc)
        fun _ _ hc => by cases hcmd.symm.trans hc

theorem Sound.step {op : Op O T} (h : Sound thread s) (hs : Guarded (Keeps thread) (Step thread) s op s') : Sound thread s' := by
  obtain ⟨hk, hr, hx⟩ := hs
  cases op with
  | root x =>
    cases hx
    exact Heeds.create h hr
  | sendPlug x child attach => exact h.sendPlug hr hx
  | sendOwn t => exact h.sendOwn hx
  | terminate x => exact h.terminate hr hk hx
  | deliver t => exact h.deliver hx
  | termChild x object =>
    obtain ⟨tree', hterm, rfl⟩ := map_ok hx
    obtain ⟨l, hl, -⟩ := processTermReq_moves hterm
    exact h.moves hl
  | attach x owner =>
    obtain ⟨tree', hattach, rfl⟩ := map_ok hx
    exact h.moves (sendSeq_moves (.inr (.inl rfl)) hattach)
  | wait x count =>
    obtain ⟨tree', hwait, rfl⟩ := map_ok hx
    obtain ⟨s1, hreg, hwait⟩ := bind_ok hwait
    cases hwait
    have hm := registerTermAcks_moves hreg
    have hm : s.tree.Moves { s1 with waits := update s1.waits x (s1.waits x + count) } [] :=
      ⟨hm.owner, hm.created, hm.terms, hm.flight, hm.news, hm.owned, hm.kept, hm.ended, hm.stays, hm.begins⟩
    exact h.moves hm
  | event x =>
    obtain ⟨tree', hevent, rfl⟩ := map_ok hx
    obtain ⟨l, hm⟩ := unregisterTermAck_moves hevent
    have hm : s.tree.Moves tree' l :=
      ⟨hm.owner, hm.created, hm.terms, hm.flight, hm.news, hm.owned, hm.kept, hm.ended, hm.stays, hm.begins⟩
    exact h.moves hm

omit [DecidableEq O] [DecidableEq T] in
theorem new_sound : Sound thread (new : Threads O T) where
  ended x hx := by cases hx
  parent x c hc := nomatch hc
  sent m hm := nomatch hm
  unborn c _ := ⟨rfl, rfl, nofun⟩
  launch t x c a hl := by cases hl
  known c x ho := by cases ho
  order := List.Pairwise.nil
  requests m hm := nomatch hm
  asks c x ha := by cases ha
  told m hm := nomatch hm
  stopped c x ho := by cases ho

omit [DecidableEq O] [DecidableEq T] in
theorem Sound.heeded (h : Sound thread s) : s.Heeded := by
  intro hflight x c _ hc hasked
  by_contra hz
  have hterm : (s.tree.objs x).terminating = false := by
    by_contra ht
    rw [h.ended x (eq_true_of_not_eq_false ht)] at hc
    exact nomatch hc
  obtain ⟨m, hm, -⟩ := h.asks c x hasked (h.parent x c hc) hterm (Nat.eq_zero_of_not_pos hz)
  rw [hflight] at hm
  exact nomatch hm

/-- As long as no child asks to be terminated before its owner has told itself of the child, no request is lost. -/
theorem requests_heeded {ops : List (Op O T)} (h : Run Start (Guarded (Keeps thread) (Step thread)) ops s) : s.Heeded := by
  refine (h.invariant (Sound thread) (fun s hs => ?_) fun _ _ _ hi hs => hi.step hs).heeded
  subst hs
  exact new_sound

end

def launchOps : List (Op ℕ ℕ) :=
  [.root 0, .sendPlug 0 1 false, .deliver 1, .sendOwn 0, .terminate 1, .deliver 0, .deliver 0]

theorem requests_heeded_one : ∃ s : Threads ℕ ℕ, Run Start (Guarded (Keeps id) (Step id)) launchOps s ∧
    (s.asked 1, s.tree.terms 1) = (true, 1) ∧ s.Heeded :=
  exists_run (P := fun s => (s.asked 1, s.tree.terms 1) = (true, 1)) (rfl : Start new) (by decide)
    fun _ hs hasked => ⟨hasked, requests_heeded hs⟩

/-- The child connects and asks to be terminated between the two steps of its owner. -/
theorem request_lost : ∃ s : Threads ℕ ℕ, Run Start (Step id)
    [.root 0, .sendPlug 0 1 false, .deliver 1, .terminate 1, .sendOwn 0, .deliver 0, .deliver 0] s ∧ ¬ s.Heeded := by
  refine exists_run_free (P := fun s => s.tree.flight.length = 0 ∧ (s.tree.created 0 = true ∧ s.tree.deletions 0 = 0) ∧
    (s.tree.objs 0).owned = [1] ∧ s.asked 1 = true ∧ s.tree.terms 1 = 0) (rfl : Start new) (by decide)
    fun s _ ⟨hflight, hlive, howned, hasked, hterms⟩ hc => ?_
  have hpos := hc (eq_nil_of_length_eq_zero hflight) 0 1 hlive (by rw [howned]; exact mem_singleton_self 1) hasked
  exact absurd hterms (Nat.ne_of_gt hpos)

end Threads

end Zmq
