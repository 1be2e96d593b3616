import LibZmq.Trie.Slots

/-! Nodes of a trie, each with a label, as a map from byte strings to labels. Adding or
removing a child changes the map below its character only. -/

namespace Zmq

open List Option

open Function (update update_apply update_eq_self update_of_ne update_self)

universe u

/-- A label says what is stored at the node itself. -/
structure Node (L : Type u) where
  label : L
  slots : Slots (Node L)

namespace Node

variable {L : Type u}

/-- The constructors of `trie_t` and `mtrie_t`. -/
def new (d : L) : Node L := ⟨d, .empty⟩

def child (n : Node L) (c : UInt8) : Option (Node L) := n.slots.child c

/-- The label at a byte string, `d` where there is no node. -/
def val (d : L) : Node L → List UInt8 → L
  | n, [] => n.label
  | n, c :: p =>
    match n.child c with
    | none => d
    | some n' => val d n' p

def Redundant (d : L) (n : Node L) : Prop := n.label = d ∧ n.slots.liveNodes = 0

/-- All labels are as `ok` says, all tables are as small as they can be, and no child is
redundant. -/
inductive Wf (ok : L → Prop) (d : L) : Node L → Prop
  | intro {n} (label : ok n.label) (slots : n.slots.Wf)
    (children : ∀ c n', n.child c = some n' → Wf ok d n')
    (live : ∀ c n', n.child c = some n' → ¬ n'.Redundant d) : Wf ok d n

variable {ok : L → Prop} {d : L} {n n' : Node L} {c : UInt8} {s : Slots (Node L)} {p : List UInt8}

@[simp] theorem val_nil : n.val d [] = n.label := rfl

theorem val_none (h : n.child c = none) : n.val d (c :: p) = d := by
  simp [val, h]

theorem val_some (h : n.child c = some n') : n.val d (c :: p) = n'.val d p := by
  simp [val, h]

theorem new_val (p : List UInt8) : (new d).val d p = d := by
  cases p with
  | nil => rfl
  | cons c p => exact val_none (Slots.empty_child c)

theorem new_wf (h : ok d) : (new d).Wf ok d := by
  have hnone : ∀ c n', (new d).child c ≠ some n' := by
    intro c n' hn
    cases hn
  exact ⟨h, Slots.empty_wf, fun c n' hn => absurd hn (hnone c n'), fun c n' hn => absurd hn (hnone c n')⟩

theorem update_wf (h : n.Wf ok d) (hs : s.Wf) (hc : s.child = update n.slots.child c (some n'))
    (hn : n'.Wf ok d) (hr : ¬ n'.Redundant d) : (⟨n.label, s⟩ : Node L).Wf ok d := by
  obtain ⟨hlabel, -, hchildren, hlive⟩ := h
  refine ⟨hlabel, hs, ?_, ?_⟩
  · intro c1 n1 h1
    change s.child c1 = some n1 at h1
    rw [hc, update_apply] at h1
    split_ifs at h1 with hx
    · exact some.inj h1 ▸ hn
    · exact hchildren c1 n1 h1
  · intro c1 n1 h1
    change s.child c1 = some n1 at h1
    rw [hc, update_apply] at h1
    split_ifs at h1 with hx
    · exact some.inj h1 ▸ hr
    · exact hlive c1 n1 h1

theorem remove_wf (h : n.Wf ok d) (hs : s.Wf) (hc : s.child = update n.slots.child c none) : (⟨n.label, s⟩ : Node L).Wf ok d := by
  obtain ⟨hlabel, -, hchildren, hlive⟩ := h
  have hold : ∀ c1 n1, s.child c1 = some n1 → n.child c1 = some n1 := by
    intro c1 n1 h1
    rw [hc, update_apply] at h1
    split_ifs at h1 with hx
    exact h1
  exact ⟨hlabel, hs, fun c1 n1 h1 => hchildren c1 n1 (hold c1 n1 h1), fun c1 n1 h1 => hlive c1 n1 (hold c1 n1 h1)⟩

theorem redundant_val (h : n.Wf ok d) (hr : n.Redundant d) (p : List UInt8) : n.val d p = d := by
  cases p with
  | nil => exact hr.1
  | cons c p =>
    apply val_none
    obtain ⟨-, hs, -, -⟩ := h
    obtain ⟨l, s⟩ := n
    have h0 : s.liveNodes = 0 := hr.2
    cases hs with
    | none => exact Slots.child_none ..
    | node => cases h0
    | table hlen hfit hlive hends =>
      have := Span.tight_pos hends
      dsimp only at h0
      omega

def childOr (n : Node L) (d : L) (c : UInt8) : Node L := (n.child c).getD (new d)

theorem childOr_val : (n.childOr d c).val d p = n.val d (c :: p) := by
  unfold childOr
  cases h : n.child c with
  | none => rw [getD_none, new_val, val_none h]
  | some n' => rw [getD_some, val_some h]

theorem update_val {x : L} (hc : s.child = update n.slots.child c (some n'))
    (hv : n'.val d = update ((n.childOr d c).val d) p x) : (⟨n.label, s⟩ : Node L).val d = update (n.val d) (c :: p) x := by
  funext q
  cases q with
  | nil => simp
  | cons c1 q =>
    by_cases h : c1 = c
    · subst h
      have hchild : (⟨n.label, s⟩ : Node L).child c1 = some n' := by
        rw [child, hc, update_self]
      rw [val_some hchild, hv]
      simp only [update_apply, cons.injEq, true_and, childOr_val]
    · rw [update_of_ne (by simp [h])]
      have hx : (⟨n.label, s⟩ : Node L).child c1 = n.child c1 := by
        rw [child, hc, update_of_ne h]
        rfl
      simp only [val, hx]

theorem remove_val {x : L} (hc : s.child = update n.slots.child c none)
    (hv : n'.val d = update ((n.childOr d c).val d) p x) (hn : ∀ q, n'.val d q = d) :
    (⟨n.label, s⟩ : Node L).val d = update (n.val d) (c :: p) x := by
  funext q
  cases q with
  | nil => simp
  | cons c1 q =>
    by_cases h : c1 = c
    · subst h
      rw [val_none (by rw [child, hc, update_self])]
      have hq := congrFun hv q
      rw [hn] at hq
      refine hq.trans ?_
      simp only [update_apply, cons.injEq, true_and, childOr_val]
    · rw [update_of_ne (by simp [h])]
      have hx : (⟨n.label, s⟩ : Node L).child c1 = n.child c1 := by
        rw [child, hc, update_of_ne h]
        rfl
      simp only [val, hx]

structure Changed (ok : L → Prop) (d : L) (n : Node L) (key : List UInt8) (x : L) (n' : Node L) : Prop where
  wf : n'.Wf ok d
  val : n'.val d = update (n.val d) key x

theorem live_child (h : n.slots.Wf) {y : Node L} (hc : n.child c = some y) : ¬ n.Redundant d :=
  fun hr => Slots.live_pos h hc hr.2

theorem Wf.slots_wf (h : n.Wf ok d) : n.slots.Wf := by
  obtain ⟨-, hs, -, -⟩ := h
  exact hs

theorem Wf.child_wf (h : n.Wf ok d) (hc : n.child c = some n') : n'.Wf ok d := by
  obtain ⟨-, -, hchildren, -⟩ := h
  exact hchildren c n' hc

theorem changed_label {l : L} (h : n.Wf ok d) (hl : ok l) : Changed ok d n [] l ⟨l, n.slots⟩ := by
  obtain ⟨-, hs, hchildren, hlive⟩ := h
  refine ⟨⟨hl, hs, hchildren, hlive⟩, funext fun p => ?_⟩
  cases p with
  | nil => simp
  | cons c p =>
    rfl

variable {key : List UInt8} {x : L} {next : Node L}

theorem changed_same (h : n.Wf ok d) (hx : n.val d key = x) : Changed ok d n key x n :=
  ⟨h, by rw [← hx, update_eq_self]⟩

theorem changed_new (h : n.Wf ok d) (hc : n.child c = none) (hn : Changed ok d (new d) key x n') (hlive : ¬ n'.Redundant d) :
    ∃ s1, n.slots.reserve c = .ok s1 ∧ s1.get c = .ok none ∧
      (s1.count = 1 → s1.liveNodes = 0) ∧ (s1.count ≠ 1 → 0 < s1.liveNodes) ∧ Changed ok d n (c :: key) x
        ⟨n.label, ({ s1 with liveNodes := s1.liveNodes + 1 } : Slots (Node L)).set c (some n')⟩ ∧
      ¬ (⟨n.label, ({ s1 with liveNodes := s1.liveNodes + 1 } : Slots (Node L)).set c (some n')⟩ :
        Node L).Redundant d := by
  obtain ⟨s1, hres, hr⟩ := Slots.reserve_new h.slots_wf hc
  obtain ⟨hget, hone, hmore, hwf1, hchild⟩ := Slots.reserved_fill hr n'
  have hor : n.childOr d c = new d := by rw [childOr, hc, getD_none]
  refine ⟨s1, hres, hget, hone, hmore, ⟨update_wf h hwf1 hchild hn.wf hlive, ?_⟩, live_child hwf1 (c := c) (y := n') ?_⟩
  · exact update_val hchild (hor ▸ hn.val)
  · rw [child, hchild, update_self]

theorem changed_old (h : n.Wf ok d) (hc : n.child c = some next) (hn : Changed ok d next key x n') (hlive : ¬ n'.Redundant d) :
    n.slots.reserve c = .ok n.slots ∧ n.slots.get c = .ok (some next) ∧
      Changed ok d n (c :: key) x ⟨n.label, n.slots.set c (some n')⟩ ∧
      ¬ (⟨n.label, n.slots.set c (some n')⟩ : Node L).Redundant d := by
  obtain ⟨hres, hget, hwf1, hchild⟩ := Slots.set_child h.slots_wf hc n'
  have hor : n.childOr d c = next := by rw [childOr, hc, getD_some]
  refine ⟨hres, hget, ⟨update_wf h hwf1 hchild hn.wf hlive, update_val hchild (hor ▸ hn.val)⟩,
    live_child hwf1 (c := c) (y := n') ?_⟩
  rw [child, hchild, update_self]

theorem changed_pruned (h : n.Wf ok d) (hc : n.child c = some next)
    (hn : Changed ok d next key x n') (hr : n'.Redundant d) (hs : s.Wf) (hchild : s.child = update n.slots.child c none) :
    Changed ok d n (c :: key) x ⟨n.label, s⟩ := by
  have hor : n.childOr d c = next := by rw [childOr, hc, getD_some]
  exact ⟨remove_wf h hs hchild, remove_val hchild (hor ▸ hn.val) (redundant_val hn.wf hr)⟩

theorem child_outside (h : n.slots.Wf) (hc : n.slots.count = 0 ∨ n.slots.outside c = true) : n.child c = none := by
  rcases hc with hc | hc
  · obtain ⟨l, s⟩ := n
    cases h with
    | none => exact Slots.child_none ..
    | node => cases hc
    | table hlen =>
      dsimp only at hc
      omega
  · exact Slots.outside_child h hc

/-! A walk over the nodes lists the strings whose labels it looks for. -/

structure Lists (keys : List (List UInt8)) (Q : List UInt8 → Prop) : Prop where
  nodup : keys.Nodup
  mem : ∀ p, p ∈ keys ↔ Q p

def Below (d : L) (Q : L → Prop) (f : UInt8 → Option (Node L)) (p : List UInt8) : Prop :=
  ∃ c q next, p = c :: q ∧ f c = some next ∧ Q (next.val d q)

variable {Q : L → Prop} {keys keys' : List (List UInt8)} {f : UInt8 → Option (Node L)} {next : Node L}

theorem lists_nil (hf : ∀ c, f c = none) : Lists [] (Below d Q f) := by
  refine ⟨nodup_nil, fun p => ⟨fun hp => (nomatch hp), ?_⟩⟩
  rintro ⟨c, q, next, -, hx, -⟩
  rw [hf] at hx
  cases hx

theorem lists_child (h : Lists keys fun q => Q (next.val d q)) (hf : ∀ c', f c' = if c' = c then some next else none) :
    Lists (keys.map (c :: ·)) (Below d Q f) := by
  refine ⟨List.Nodup.map (fun a b hab => (cons.inj hab).2) h.nodup, fun p => ?_⟩
  rw [List.mem_map]
  constructor
  · rintro ⟨q, hq, rfl⟩
    exact ⟨c, q, next, rfl, by rw [hf, if_pos rfl], (h.mem q).mp hq⟩
  · rintro ⟨c', q, x, rfl, hx, hv⟩
    rw [hf] at hx
    split_ifs at hx with hc
    cases hx
    exact ⟨q, (h.mem q).mpr hv, by rw [hc]⟩

theorem lists_cons {k : ℕ} {t : List (Option (Node L))} (hc : c.toNat = k)
    (h : Lists keys fun q => Q (next.val d q)) (h' : Lists keys' (Below d Q fun c' => entry (k + 1) t c'.toNat)) :
    Lists (keys.map (c :: ·) ++ keys') (Below d Q fun c' => entry k (some next :: t) c'.toNat) := by
  subst hc
  have hfirst := lists_child (c := c) (f := fun c' => if c' = c then some next else none) h fun _ => rfl
  have hcons : (fun c' : UInt8 => entry c.toNat (some next :: t) c'.toNat) =
      fun c' => if c' = c then some next else entry (c.toNat + 1) t c'.toNat := by
    simp only [Span.entry_cons, UInt8.toNat_inj]
  have hout : entry (c.toNat + 1) t c.toNat = none := Span.entry_out (.inl (by omega))
  refine ⟨nodup_append.mpr ⟨hfirst.nodup, h'.nodup, ?_⟩, fun p => ?_⟩
  · -- later entries have later characters
    rintro p hp p' hp' rfl
    obtain ⟨c1, q, x, rfl, hx, -⟩ := (hfirst.mem p).mp hp
    obtain ⟨c2, q', x', hq, hx', -⟩ := (h'.mem _).mp hp'
    obtain ⟨rfl, -⟩ := cons.inj hq
    dsimp only at hx hx'
    split_ifs at hx with hc1
    rw [hc1, hout] at hx'
    cases hx'
  · rw [mem_append, hfirst.mem, h'.mem, hcons]
    constructor
    · rintro (⟨c1, q, x, rfl, hx, hv⟩ | ⟨c1, q, x, rfl, hx, hv⟩)
      · dsimp only at hx
        split_ifs at hx with hc1
        exact ⟨c1, q, x, rfl, (if_pos hc1).trans hx, hv⟩
      · refine ⟨c1, q, x, rfl, ?_, hv⟩
        dsimp only at hx ⊢
        rw [if_neg, hx]
        rintro rfl
        rw [hout] at hx
        cases hx
    · rintro ⟨c1, q, x, rfl, hx, hv⟩
      dsimp only at hx
      by_cases hc1 : c1 = c
      · rw [if_pos hc1] at hx
        exact .inl ⟨c1, q, x, rfl, (if_pos hc1).trans hx, hv⟩
      · rw [if_neg hc1] at hx
        exact .inr ⟨c1, q, x, rfl, hx, hv⟩

theorem lists_node {b : Bool} (hb : b = true ↔ Q n.label) (hd : ¬ Q d) (h : Lists keys (Below d Q n.child)) :
    Lists ((if b then [[]] else []) ++ keys) fun p => Q (n.val d p) := by
  have hown : ∀ p, p ∈ (if b then [[]] else [] : List (List UInt8)) ↔ p = [] ∧ b = true := by
    intro p
    cases b <;> simp
  refine ⟨nodup_append.mpr ⟨by split_ifs <;> simp, h.nodup, ?_⟩, fun p => ?_⟩
  · rintro p hp p' hp' rfl
    obtain ⟨rfl, -⟩ := (hown p).mp hp
    obtain ⟨c, q, next, hx, -⟩ := (h.mem _).mp hp'
    cases hx
  · rw [mem_append, hown, h.mem]
    cases p with
    | nil => simp [Below, hb]
    | cons c q =>
      constructor
      · rintro (⟨hx, -⟩ | ⟨c', q', next, hx, hc, hv⟩)
        · cases hx
        · obtain ⟨rfl, rfl⟩ := cons.inj hx
          rwa [val_some hc]
      · intro hv
        right
        cases hc : n.child c with
        | none =>
          rw [val_none hc] at hv
          exact absurd hv hd
        | some next =>
          rw [val_some hc] at hv
          exact ⟨c, q, next, rfl, hc, hv⟩

end Node

end Zmq
