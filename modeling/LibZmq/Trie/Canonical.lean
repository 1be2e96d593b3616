import LibZmq.Trie.Counted

/-! The nodes of a trie depend on the strings in it alone, not on how they came there. -/

namespace Zmq

open List Option Except Slots

namespace TrieT

variable {s s' : Slots TrieT} {t t' : TrieT} {c : UInt8} {x y : TrieT} {key : List UInt8} {b : Bool}

/-- The three shapes of a node: without children, with one inline child, with a table
that has a child at both ends and counts its children. -/
inductive Shaped : TrieT → Prop
  | leaf {refcnt m} : Shaped ⟨refcnt, ⟨m, 0, 0, .node none⟩⟩
  | inline {refcnt m x} (child : Shaped x) : Shaped ⟨refcnt, ⟨m, 1, 1, .node (some x)⟩⟩
  | table {refcnt m t} (long : 1 < t.length) (fits : m.toNat + t.length ≤ 256) (ends : Span.Tight t)
      (children : ∀ x, some x ∈ t → Shaped x) : Shaped ⟨refcnt, ⟨m, t.length, t.countP isSome, .table t⟩⟩

/-- No child is redundant. -/
inductive Pruned : TrieT → Prop
  | intro {t : TrieT} (children : ∀ c x, t.child c = some x → Pruned x)
      (live : ∀ c x, t.child c = some x → ¬ x.Redundant 0) : Pruned t

/-- The same nodes, but for `min` where there are no children. -/
inductive Same : TrieT → TrieT → Prop
  | leaf {refcnt m m'} : Same ⟨refcnt, ⟨m, 0, 0, .node none⟩⟩ ⟨refcnt, ⟨m', 0, 0, .node none⟩⟩
  | inline {refcnt m x y} (child : Same x y) :
      Same ⟨refcnt, ⟨m, 1, 1, .node (some x)⟩⟩ ⟨refcnt, ⟨m, 1, 1, .node (some y)⟩⟩
  | table {refcnt m k n} {t u : List (Option TrieT)} (length : t.length = u.length)
      (alike : ∀ i : ℕ, t[i]? = some none ↔ u[i]? = some none)
      (children : ∀ (i : ℕ) x y, t[i]? = some (some x) → u[i]? = some (some y) → Same x y) :
      Same ⟨refcnt, ⟨m, k, n, .table t⟩⟩ ⟨refcnt, ⟨m, k, n, .table u⟩⟩

/-! Every call keeps the shapes, also where a count wraps around. -/

inductive Tidy : TrieT → Prop
  | intro {t : TrieT} (slots : t.slots.Wf) (own : t.slots.count = 0 → t.slots.next = .node none)
      (children : ∀ c x, t.child c = some x → Tidy x) : Tidy t

theorem new_tidy : Tidy new := .intro empty_wf (fun _ => rfl) fun c x hx => by cases (empty_child c).symm.trans hx

theorem count_ne_zero (h : s.Wf) (hc : s.child c = some x) : s.count ≠ 0 := by
  cases h with
  | none => simp [child_none] at hc
  | node => exact Nat.one_ne_zero
  | table hlen => exact Nat.ne_of_gt (Nat.lt_trans Nat.zero_lt_one hlen)

theorem Tidy.update {refcnt : UInt32} (h : Tidy t) (hs : s.Wf) (hx : Tidy x)
    (hc : s.child = Function.update t.child c (some x)) : Tidy ⟨refcnt, s⟩ := by
  obtain ⟨-, -, hchildren⟩ := h
  refine .intro hs (fun h0 => absurd h0 (count_ne_zero (c := c) (x := x) hs (by rw [hc, Function.update_self]))) fun c' y hy => ?_
  change s.child c' = some y at hy
  rw [hc, Function.update_apply] at hy
  split_ifs at hy
  · cases hy
    exact hx
  · exact hchildren c' y hy

theorem add_tidy (ht : Tidy t) : ∃ b t', add t key = .ok (b, t') ∧ Tidy t' := by
  induction key generalizing t with
  | nil =>
    obtain ⟨hs, hown, hchildren⟩ := ht
    exact ⟨_, _, rfl, .intro hs hown hchildren⟩
  | cons c key ih =>
    have ⟨hs, hown, hchildren⟩ := ht
    cases hc : t.child c with
    | none =>
      obtain ⟨s1, hres, hr⟩ := reserve_new hs hc
      obtain ⟨b, next, hadd, hnew⟩ := ih new_tidy
      obtain ⟨hget, hone, hmore, hwf, hchild⟩ := reserved_fill hr next
      refine ⟨b, ⟨t.refcnt, _⟩, ?_, ht.update hwf hnew hchild⟩
      simp only [add, hres, hget, hadd, bind, Except.bind, pure, Except.pure]
      by_cases h1 : s1.count = 1
      · simp [h1, hone h1]
      · have := hmore h1
        simp [h1, show s1.liveNodes ≠ 0 by omega]
    | some next =>
      obtain ⟨b, next', hadd, hnext⟩ := ih (hchildren c next hc)
      obtain ⟨hres, hget, hwf, hchild⟩ := set_child hs hc next'
      refine ⟨b, ⟨t.refcnt, _⟩, ?_, ht.update hwf hnext hchild⟩
      simp only [add, hres, hget, hadd, bind, Except.bind, pure, Except.pure]

theorem compact_table {l : List (Option TrieT)} {n : ℕ} (h : s.compact l n c = .ok s') : ∃ l', s'.next = .table l' := by
  unfold compact at h
  split_ifs at h
  · split at h <;> cases h
    exact ⟨_, rfl⟩
  · split at h <;> cases h
    exact ⟨_, rfl⟩
  · cases h
    exact ⟨_, rfl⟩

theorem prune_tidy (hp : prune s c = .ok s') (hs : s'.Wf) (h0 : s'.count = 0) : s'.next = .node none := by
  unfold prune at hp
  cases hn : s.next with
  | node p =>
    rw [hn] at hp
    dsimp only at hp
    split_ifs at hp
    cases hp
    rfl
  | table l =>
    rw [hn] at hp
    dsimp only at hp
    by_cases h1 : s.count = 1
    · rw [if_pos h1] at hp
      cases hp
    rw [if_neg h1] at hp
    by_cases h2 : s.liveNodes ≤ 1
    · rw [if_pos h2] at hp
      cases hp
    rw [if_neg h2] at hp
    by_cases hone : s.liveNodes - 1 = 1
    -- the one child left
    · rw [if_pos hone] at hp
      split_ifs at hp <;> dsimp only at hp <;> split at hp <;> cases hp <;> cases h0
    · rw [if_neg hone] at hp
      obtain ⟨l', hl⟩ := compact_table hp
      obtain ⟨m, k, n, next⟩ := s'
      cases (hl : next = .table l')
      cases hs with
      | table hlen => exact absurd h0 (Nat.ne_of_gt (Nat.lt_trans Nat.zero_lt_one hlen))

theorem rm_tidy (ht : Tidy t) : ∃ b t', rm t key = .ok (b, t') ∧ Tidy t' := by
  induction key generalizing t with
  | nil =>
    obtain ⟨hs, hown, hchildren⟩ := ht
    rw [rm]
    split_ifs
    · exact ⟨_, _, rfl, .intro hs hown hchildren⟩
    · exact ⟨_, _, rfl, .intro hs hown hchildren⟩
  | cons c key ih =>
    obtain ⟨hs, hown, hchildren⟩ := id ht
    by_cases hout : t.slots.count = 0 ∨ t.slots.outside c = true
    · exact ⟨_, _, by rw [rm, if_pos hout], ht⟩
    · have hget := get_child hs (c := c) (by simpa using (not_or.mp hout).2)
      cases hc : t.child c with
      | none => exact ⟨_, _, by rw [rm, if_neg hout, hget, show t.slots.child c = none from hc]; rfl, ht⟩
      | some next =>
        obtain ⟨b, next', hrm, hnext⟩ := ih (hchildren c next hc)
        simp only [rm, if_neg hout, hget, show t.slots.child c = some next from hc, hrm, bind, Except.bind, pure, Except.pure]
        by_cases hred : next'.isRedundant = true
        · obtain ⟨s', hprune, hwf, hchild⟩ := prune_spec hs hc
          simp only [if_pos hred, hprune]
          refine ⟨_, _, rfl, .intro hwf (prune_tidy hprune hwf) fun c' x hx => ?_⟩
          change s'.child c' = some x at hx
          rw [hchild, Function.update_apply] at hx
          split_ifs at hx
          exact hchildren c' x hx
        · obtain ⟨-, -, hwf, hchild⟩ := set_child hs hc next'
          simp only [if_neg hred]
          exact ⟨_, _, rfl, ht.update hwf hnext hchild⟩

theorem run_tidy (ht : Tidy t) (ops : List Op) : ∃ rs t', exec call t ops = .ok (rs, t') ∧ Tidy t' := by
  induction ops generalizing t with
  | nil => exact ⟨_, _, rfl, ht⟩
  | cons op ops ih =>
    obtain ⟨b, t1, hr, hr'⟩ : ∃ b t1, call t op = .ok (b, t1) ∧ Tidy t1 := by
      cases op with
      | add key => exact add_tidy ht
      | rm key => exact rm_tidy ht
    obtain ⟨rs, t', hq, hq'⟩ := ih hr'
    exact ⟨b :: rs, t', exec_cons.mpr ⟨_, _, _, hr, hq, rfl⟩, hq'⟩

theorem Tidy.shaped (ht : Tidy t) : Shaped t := by
  induction ht with
  | @intro t hs hown hchildren ih =>
    obtain ⟨refcnt, s⟩ := t
    cases hs with
    | none =>
      cases (hown rfl : Next.node _ = _)
      exact .leaf
    | @node m x => exact .inline (ih m x (by simp [Node.child, child_node]))
    | table hlen hfit hcount hends =>
      subst hcount
      exact .table hlen hfit hends fun x hx => (child_mem hfit hx).elim fun c hc => ih c x hc

theorem Wf.pruned (h : Wf t) : Pruned t := by
  unfold Wf at h
  induction h with
  | intro _ _ _ hlive ih => exact .intro ih hlive

/-! The strings determine the nodes. -/

theorem exists_val (h : Wf t) (hlive : ¬ t.Redundant 0) : ∃ key, t.val 0 key ≠ 0 := by
  unfold Wf at h
  induction h with
  | @intro t _ hs hchildren hlive' ih =>
    by_cases hl : t.label = 0
    · obtain ⟨c, x, hx⟩ := exists_child hs fun h0 => hlive ⟨hl, h0⟩
      obtain ⟨key, hkey⟩ := ih c x hx (hlive' c x hx)
      exact ⟨c :: key, by rwa [Node.val_some hx]⟩
    · exact ⟨[], hl⟩

theorem child_isSome (h : Wf t) (hv : t.val 0 = t'.val 0) (hx : t.child c = some x) :
    ∃ y, t'.child c = some y ∧ x.val 0 = y.val 0 := by
  obtain ⟨-, -, hchildren, hlive⟩ := h
  obtain ⟨key, hkey⟩ := exists_val (hchildren c x hx) (hlive c x hx)
  cases hy : t'.child c with
  | none =>
    have := congrFun hv (c :: key)
    rw [Node.val_some hx, Node.val_none hy] at this
    exact absurd this hkey
  | some y =>
    refine ⟨y, rfl, funext fun key => ?_⟩
    have := congrFun hv (c :: key)
    rwa [Node.val_some hx, Node.val_some hy] at this

theorem child_val (h : Wf t) (h' : Wf t') (hv : t.val 0 = t'.val 0) (c : UInt8) :
    (t.child c = none ↔ t'.child c = none) ∧ ∀ x y, t.child c = some x → t'.child c = some y → x.val 0 = y.val 0 := by
  refine ⟨⟨fun hx => ?_, fun hy => ?_⟩, fun x y hx hy => ?_⟩
  · by_contra hne
    obtain ⟨y, hy⟩ := ne_none_iff_exists'.mp hne
    obtain ⟨x, hx', -⟩ := child_isSome h' hv.symm hy
    cases hx.symm.trans hx'
  · by_contra hne
    obtain ⟨x, hx⟩ := ne_none_iff_exists'.mp hne
    obtain ⟨y, hy', -⟩ := child_isSome h hv hx
    cases hy.symm.trans hy'
  · obtain ⟨y', hy', heq⟩ := child_isSome h hv hx
    cases hy.symm.trans hy'
    exact heq

theorem bounds (h : s.Wf) (h0 : s.count ≠ 0) : ∃ first last : UInt8, first = s.min ∧
    last.toNat + 1 = s.min.toNat + s.count ∧ s.child first ≠ none ∧ s.child last ≠ none := by
  cases h with
  | none => exact absurd rfl h0
  | @node m x =>
    have hm : (⟨m, 1, 1, .node (some x)⟩ : Slots TrieT).child m ≠ none := by simp [child_node]
    exact ⟨m, m, rfl, rfl, hm, hm⟩
  | @table m n t hlen hfit _ hends =>
    have hlast : (m + UInt8.ofNat (t.length - 1)).toNat = m.toNat + (t.length - 1) := add_toNat (by omega)
    refine ⟨m, m + UInt8.ofNat (t.length - 1), rfl, by rw [hlast]; dsimp only; omega, ?_, ?_⟩
    · simpa [child_table, entry] using hends.1
    · simpa [child_table, entry, hlast] using hends.2

theorem child_in (h : s.Wf) (hc : s.child c ≠ none) : s.min.toNat ≤ c.toNat ∧ c.toNat < s.min.toNat + s.count := by
  by_contra hout
  exact hc (outside_child h (outside_iff.mpr (by omega)))

theorem same_span (h : s.Wf) (h' : s'.Wf) (hnone : ∀ c, s.child c = none ↔ s'.child c = none) :
    s.count = s'.count ∧ (s.count ≠ 0 → s.min = s'.min) := by
  by_cases h0 : s.count = 0
  · refine ⟨?_, fun hne => absurd h0 hne⟩
    by_contra hne
    obtain ⟨first, -, -, -, hfirst, -⟩ := bounds h' fun h1 => hne (h0.trans h1.symm)
    have := child_in h fun hc => hfirst ((hnone first).mp hc)
    omega
  · obtain ⟨first, last, hf, hl, hfirst, hlast⟩ := bounds h h0
    have hin := child_in h' fun hc => hfirst ((hnone first).mpr hc)
    have hin' := child_in h' fun hc => hlast ((hnone last).mpr hc)
    obtain ⟨first', last', hf', hl', hfirst', hlast'⟩ := bounds h' (by omega)
    have hout := child_in h fun hc => hfirst' ((hnone first').mp hc)
    have hout' := child_in h fun hc => hlast' ((hnone last').mp hc)
    subst hf hf'
    have hmin : s.min.toNat = s'.min.toNat := Nat.le_antisymm hout.1 hin.1
    exact ⟨by omega, fun _ => UInt8.toNat_inj.mp hmin⟩

theorem table_same {t u : List (Option TrieT)} (hl : t.length = u.length)
    (h : ∀ i < t.length, (t[i]?).join = none ↔ (u[i]?).join = none) :
    (∀ i : ℕ, t[i]? = some none ↔ u[i]? = some none) ∧ t.countP isSome = u.countP isSome := by
  have hmap : t.map isSome = u.map isSome := by
    refine ext_getElem (by simp [hl]) fun i hi hi' => ?_
    rw [length_map] at hi hi'
    have := h i hi
    rw [getElem?_eq_getElem hi, getElem?_eq_getElem hi', join_some, join_some] at this
    rw [getElem_map, getElem_map, Bool.eq_iff_iff, isSome_iff_ne_none, isSome_iff_ne_none, Ne, this]
  refine ⟨fun i => ?_, ?_⟩
  · by_cases hi : i < t.length
    · have hi' : i < u.length := hl ▸ hi
      have := h i hi
      rw [getElem?_eq_getElem hi, getElem?_eq_getElem hi'] at this ⊢
      simpa using this
    · rw [getElem?_eq_none (by omega), getElem?_eq_none (by omega)]
  · have := congrArg (countP id) hmap
    rwa [countP_map, countP_map] at this

theorem same_of_val (h : Wf t) (ht : Tidy t) (h' : Wf t') (ht' : Tidy t') (hv : t.val 0 = t'.val 0) : Same t t' := by
  induction ht generalizing t' with
  | @intro t hs hown htidy ih =>
    have hval := child_val h h' hv
    have hnone : ∀ c, t.slots.child c = none ↔ t'.slots.child c = none := fun c => (hval c).1
    have hlabel : t.label = t'.label := congrFun hv []
    obtain ⟨hs', hown', htidy'⟩ := ht'
    have hsame : ∀ c x y, t.child c = some x → t'.child c = some y → Same x y := fun c x y hx hy =>
      ih c x hx (h.child_wf hx) (h'.child_wf hy) (htidy' c y hy) ((hval c).2 x y hx hy)
    obtain ⟨refcnt, s⟩ := t
    obtain ⟨refcnt', s'⟩ := t'
    obtain rfl : refcnt = refcnt' := hlabel
    have hspan := same_span hs hs' hnone
    cases hs with
    | none =>
      cases (hown rfl : Next.node _ = _)
      cases hs' with
      | none =>
        cases (hown' rfl : Next.node _ = _)
        exact .leaf
      | node => cases hspan.1
      | table hlen => exact absurd hspan.1 (Nat.ne_of_lt (Nat.lt_trans Nat.zero_lt_one hlen))
    | @node m x =>
      cases hs' with
      | none => cases hspan.1
      | @node m' y =>
        obtain rfl : m = m' := hspan.2 Nat.one_ne_zero
        exact .inline (hsame m x y (by simp [Node.child, child_node]) (by simp [Node.child, child_node]))
      | table hlen => exact absurd hspan.1 (Nat.ne_of_lt hlen)
    | @table m n t hlen hfit hcount _ =>
      have hne : t.length ≠ 0 := Nat.ne_of_gt (Nat.lt_trans Nat.zero_lt_one hlen)
      cases hs' with
      | none => exact absurd hspan.1 hne
      | node => exact absurd hspan.1 (Nat.ne_of_gt hlen)
      | @table m' n' u hlen' hfit' hcount' _ =>
        obtain rfl : m = m' := hspan.2 hne
        have hl : t.length = u.length := hspan.1
        have hentry : ∀ {t : List (Option TrieT)} {n i}, m.toNat + i < 256 →
            (⟨m, t.length, n, .table t⟩ : Slots TrieT).child (m + UInt8.ofNat i) = (t[i]?).join := by
          intro t n i hi
          simp [child_table, entry, add_toNat hi]
        have halike : ∀ i, m.toNat + i < 256 → ((t[i]?).join = none ↔ (u[i]?).join = none) := fun i hi => by
          rw [← hentry hi, ← hentry hi]
          exact hnone (m + UInt8.ofNat i)
        have hshape := table_same hl fun i hi => halike i (by omega)
        subst hcount hcount'
        rw [← hl, ← hshape.2]
        refine .table hl hshape.1 fun i x y hx hy => ?_
        have hi : m.toNat + i < 256 := by
          have := (List.getElem?_eq_some_iff.mp hx).1
          omega
        exact hsame (m + UInt8.ofNat i) x y ((hentry hi).trans (by rw [hx]; rfl)) ((hentry hi).trans (by rw [hy]; rfl))

/-- Every run ends in nodes of the three shapes. As long as no string is held 2 ^ 32 times, no
child is redundant, and the strings held determine the nodes. -/
theorem canonical_run (ops : List Op) : ∃ rs t, exec call new ops = .ok (rs, t) ∧ Shaped t ∧
    (Allowed bag Countable 0 ops → Pruned t ∧ ∀ ops' rs' t', Allowed bag Countable 0 ops' →
      exec call new ops' = .ok (rs', t') → (answers bag 0 ops').2 = (answers bag 0 ops).2 → Same t t') := by
  obtain ⟨rs, t, hrun, htidy⟩ := run_tidy new_tidy ops
  have hholds : ∀ {ops rs t}, Allowed bag Countable 0 ops → exec call new ops = .ok (rs, t) → Holds t (answers bag 0 ops).2 := by
    intro ops rs t h hrun
    obtain ⟨t', hx, hholds⟩ := allowed_refines (fun _ _ _ => call_holds) new_holds h
    cases hrun.symm.trans hx
    exact hholds
  refine ⟨rs, t, hrun, htidy.shaped, fun h => ⟨(hholds h hrun).1.pruned, fun ops' rs' t' h' hrun' heq => ?_⟩⟩
  obtain ⟨_, _, hr, htidy'⟩ := run_tidy new_tidy ops'
  cases hrun'.symm.trans hr
  obtain ⟨hwf, hcount⟩ := hholds h hrun
  obtain ⟨hwf', hcount'⟩ := hholds h' hrun'
  refine same_of_val hwf htidy hwf' htidy' (funext fun p => UInt32.toNat_inj.mp ?_)
  rw [hcount, hcount', heq]

def single (r : UInt32) : TrieT := ⟨0, ⟨97, 1, 1, .node (some ⟨r, .empty⟩)⟩⟩

theorem single_adds (r : UInt32) (n : ℕ) :
    ∃ rs, exec call (single r) (replicate n (.add [97])) = .ok (rs, single (r + UInt32.ofNat n)) := by
  induction n generalizing r with
  | zero => exact ⟨[], by simp [exec]⟩
  | succ n ih =>
    obtain ⟨rs, hrs⟩ := ih (r + 1)
    rw [UInt32.add_assoc, UInt32.add_comm 1, ← UInt32.ofNat_one, ← UInt32.ofNat_add] at hrs
    rw [replicate_succ]
    exact ⟨_, exec_cons.mpr ⟨_, _, rs, rfl, hrs, rfl⟩⟩

/-- A string that came and went leaves its `min`, and one that is added 2 ^ 32 times leaves a
child with the count 0. -/
theorem canonical_fails : (∃ t t', exec call new [.add [97], .rm [97]] = .ok ([true, true], t) ∧ exec call new [] = .ok ([], t') ∧
      (answers bag 0 [.add [97], .rm [97]]).2 = (answers bag 0 []).2 ∧ t ≠ t') ∧
    ∃ rs t, exec call new (.add [97] :: replicate 4294967295 (.add [97])) = .ok (rs, t) ∧ ¬ Pruned t := by
  refine ⟨⟨_, _, rfl, rfl, by decide, fun h => ?_⟩, ?_⟩
  · exact absurd (congrArg (fun t : TrieT => t.slots.min) h) (by decide)
  · obtain ⟨rs, hrs⟩ := single_adds 1 4294967295
    refine ⟨_, _, exec_cons.mpr ⟨true, _, rs, rfl, hrs, rfl⟩, ?_⟩
    rintro ⟨-, hlive⟩
    exact hlive 97 ⟨0, .empty⟩ rfl ⟨rfl, rfl⟩

end TrieT

end Zmq
