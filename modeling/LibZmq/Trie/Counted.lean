import LibZmq.Calls
import LibZmq.Trie.Model

/-! `trie_t` counts the strings added to it: every call keeps its nodes in shape and
changes the count of one string. -/

namespace Zmq

open List Option Bool Except Node

namespace TrieT

variable {s : Slots TrieT} {t t' : TrieT} {c : UInt8} {y : TrieT} {key : List UInt8} {path : List UInt8} {buff : Buff}
    {m : Multiset (List UInt8)}

theorem prune_spec (h : s.Wf) (hc : s.child c = some y) :
    ∃ s', prune s c = .ok s' ∧ s'.Wf ∧ s'.child = Function.update s.child c none := by
  cases h with
  | none => simp [Slots.child_none] at hc
  | @node m x =>
    have hm : c = m := by
      by_contra hne
      simp [Slots.child_node, hne] at hc
    subst hm
    refine ⟨⟨c, 0, 0, .node none⟩, rfl, .none, ?_⟩
    funext c'
    rw [Slots.child_none, Function.update_apply, Slots.child_node]
    split_ifs <;> rfl
  | @table m n t hlen hfit hlive hends =>
    subst hlive
    obtain ⟨j, hu⟩ := Slots.cleared_set hlen hfit hends hc
    obtain ⟨u, hset⟩ : ∃ u, t.set (c.toNat - m.toNat) none = u := ⟨_, rfl⟩
    rw [hset] at hu
    unfold prune
    have htwo := hu.two
    have hcount := hu.count
    have hulen := hu.length
    simp only [hset, if_neg (by omega : ¬ t.length = 1), if_neg (by omega : ¬ t.countP isSome ≤ 1),
      hu.min_iff, hu.right_iff, show t.countP isSome - 1 = u.countP isSome by omega]
    by_cases hone : u.countP isSome = 1
    · rw [hone]
      by_cases h0 : j = 0
      · obtain ⟨z, hz⟩ := ne_none_iff_exists'.mp (hu.last (by omega))
        rw [if_pos h0, hz]
        obtain ⟨h1, h2⟩ := Slots.single_wf (m := m) (by omega) hone (join_eq_some_iff.mp hz)
        exact ⟨_, rfl, h1, hu.children h2⟩
      · obtain ⟨x, hx⟩ := ne_none_iff_exists'.mp (hu.first h0)
        -- otherwise both ends would be left
        have hr : j = t.length - 1 := by
          by_contra hr
          obtain ⟨z, hz⟩ := ne_none_iff_exists'.mp (hu.last hr)
          have := Span.only_entry hone (join_eq_some_iff.mp hx) (join_eq_some_iff.mp hz)
          omega
        rw [if_neg h0, if_pos hr, hx]
        obtain ⟨h1, h2⟩ := Slots.single_wf (m := m) (by omega) hone (join_eq_some_iff.mp hx)
        rw [show m + UInt8.ofNat 0 = m by simp] at h1 h2
        exact ⟨_, rfl, h1, hu.children h2⟩
    · rw [if_neg hone]
      exact Slots.compact_spec hu (by omega)

def Wf (t : TrieT) : Prop := Node.Wf (fun _ => True) 0 t

theorem isRedundant_iff : t.isRedundant = true ↔ t.Redundant 0 := by
  simp [isRedundant, refcnt, Node.Redundant]

theorem new_wf : Wf new := Node.new_wf trivial

theorem add_spec (key : List UInt8) (h : Wf t) (hb : t.val 0 key + 1 ≠ 0) :
    ∃ t', add t key = .ok (t.val 0 key == 0, t') ∧ ¬ t'.Redundant 0 ∧
      Node.Changed (fun _ => True) 0 t key (t.val 0 key + 1) t' := by
  induction key generalizing t with
  | nil =>
    refine ⟨⟨t.refcnt + 1, t.slots⟩, ?_, fun hr => hb hr.1, changed_label h trivial⟩
    have hone : (t.refcnt + 1 == 1) = (t.label == 0) := by
      rw [Bool.eq_iff_iff, refcnt]
      grind
    rw [val_nil, ← hone]
    rfl
  | cons c key ih =>
    cases hc : t.child c with
    | none =>
      have hv : new.val 0 key = t.val 0 (c :: key) := by rw [new, new_val, val_none hc]
      obtain ⟨n', hadd, hlive, hn⟩ := ih new_wf (hv.symm ▸ hb)
      rw [hv] at hadd hn
      obtain ⟨s1, hres, hget, hone, hmore, hchanged, hlive'⟩ := changed_new h hc hn hlive
      refine ⟨_, ?_, hlive', hchanged⟩
      simp only [add, hres, hget, hadd, bind, Except.bind, pure, Except.pure]
      by_cases h1 : s1.count = 1
      · simp [h1, hone h1]
        rfl
      · simp [h1, show s1.liveNodes ≠ 0 by omega]
        rfl
    | some next =>
      have hv : next.val 0 key = t.val 0 (c :: key) := (val_some hc).symm
      obtain ⟨n', hadd, hlive, hn⟩ := ih (h.child_wf hc) (hv.symm ▸ hb)
      rw [hv] at hadd hn
      obtain ⟨hres, hget, hchanged, hlive'⟩ := changed_old h hc hn hlive
      refine ⟨_, ?_, hlive', hchanged⟩
      simp only [add, hres, hget, hadd, bind, Except.bind, pure, Except.pure]
      rfl

theorem rm_spec (key : List UInt8) (h : Wf t) : ∃ t', rm t key = .ok (t.val 0 key == 1, t') ∧
      Node.Changed (fun _ => True) 0 t key (if t.val 0 key = 0 then 0 else t.val 0 key - 1) t' := by
  -- a string that is not stored
  have habsent : ∀ {t : TrieT} {key : List UInt8}, Wf t → t.val 0 key = 0 → Node.Changed (fun _ => True) 0 t key
      (if t.val 0 key = 0 then 0 else t.val 0 key - 1) t := by
    intro t key h h0
    exact changed_same h (by rw [if_pos h0, h0])
  induction key generalizing t with
  | nil =>
    rw [val_nil]
    by_cases h0 : t.label = 0
    · exact ⟨t, by simp [rm, refcnt, h0], habsent h (show t.val 0 [] = 0 from h0)⟩
    · rw [if_neg h0]
      refine ⟨⟨t.refcnt - 1, t.slots⟩, ?_, changed_label h trivial⟩
      have hone : (t.refcnt - 1 == 0) = (t.label == 1) := by
        rw [Bool.eq_iff_iff, refcnt]
        grind
      rw [← hone]
      simp [rm, refcnt, h0]
  | cons c key ih =>
    by_cases hout : t.slots.count = 0 ∨ t.slots.outside c = true
    · have h0 : t.val 0 (c :: key) = 0 := val_none (child_outside h.slots_wf hout)
      refine ⟨t, ?_, habsent h h0⟩
      rw [h0, rm, if_pos hout]
      rfl
    · have hget := Slots.get_child h.slots_wf (c := c) (by simpa using (not_or.mp hout).2)
      cases hc : t.child c with
      | none =>
        have h0 : t.val 0 (c :: key) = 0 := val_none hc
        refine ⟨t, ?_, habsent h h0⟩
        rw [h0, rm, if_neg hout, hget, show t.slots.child c = none from hc]
        rfl
      | some next =>
        have hv : next.val 0 key = t.val 0 (c :: key) := (val_some hc).symm
        obtain ⟨n', hrm, hn⟩ := ih (h.child_wf hc)
        rw [hv] at hrm hn
        have hrm' : rm t (c :: key) = if n'.isRedundant then
            (prune t.slots c >>= fun s => .ok (t.val 0 (c :: key) == 1, ⟨t.refcnt, s⟩))
            else .ok (t.val 0 (c :: key) == 1, ⟨t.refcnt, t.slots.set c (some n')⟩) := by
          rw [rm, if_neg hout, hget, show t.slots.child c = some next from hc]
          simp only [hrm, bind, Except.bind, pure, Except.pure]
        rw [hrm']
        cases hred : n'.isRedundant with
        | true =>
          obtain ⟨s', hprune, hwf', hchild⟩ := prune_spec h.slots_wf hc
          refine ⟨⟨t.refcnt, s'⟩, ?_, changed_pruned h hc hn (isRedundant_iff.mp hred) hwf' hchild⟩
          rw [hprune]
          rfl
        | false =>
          have hlive : ¬ n'.Redundant 0 := by
            rw [← isRedundant_iff, hred]
            exact false_ne_true
          obtain ⟨-, -, hchanged, -⟩ := changed_old h hc hn hlive
          exact ⟨_, by rfl, hchanged⟩

theorem check_spec (data : List UInt8) (h : Wf t) : ∃ b, check t data = .ok b ∧ (b = true ↔ ∃ p, p <+: data ∧ t.val 0 p ≠ 0) := by
  induction data generalizing t with
  | nil =>
    refine ⟨_, rfl, ?_⟩
    simp [prefix_nil, refcnt]
  | cons c data ih =>
    have hs : t.slots.Wf := by
      obtain ⟨-, hs, -, -⟩ := h
      exact hs
    -- the empty string and the strings below the child
    have hsplit : (∃ p, p <+: c :: data ∧ t.val 0 p ≠ 0) ↔
        t.refcnt ≠ 0 ∨ ∃ p, p <+: data ∧ t.val 0 (c :: p) ≠ 0 := by
      constructor
      · rintro ⟨p, hp, hv⟩
        cases p with
        | nil => exact .inl hv
        | cons c' p =>
          obtain ⟨rfl, hpre⟩ := cons_prefix_cons.mp hp
          exact .inr ⟨p, hpre, hv⟩
      · rintro (hv | ⟨p, hp, hv⟩)
        · exact ⟨[], nil_prefix, hv⟩
        · exact ⟨c :: p, cons_prefix_cons.mpr ⟨rfl, hp⟩, hv⟩
    rw [hsplit]
    by_cases h0 : t.refcnt = 0
    · by_cases hout : t.slots.outside c = true
      · refine ⟨false, by simp [check, h0, hout], ?_⟩
        simp [h0, val_none (child_outside hs (.inr hout))]
      · have hget := Slots.get_child hs (c := c) (by simpa using hout)
        cases hc : t.slots.child c with
        | none =>
          have hcount := Slots.count_ne_one hs (by simpa using hout) hc
          refine ⟨false, ?_, ?_⟩
          · rw [check, if_neg (not_not_intro h0), if_neg hout, hget, hc]
            simp only [bind, Except.bind, pure, Except.pure, if_neg hcount]
          · simp [h0, val_none (show t.child c = none from hc)]
        | some next =>
          have hnext : Wf next := by
            obtain ⟨-, -, hchildren, -⟩ := h
            exact hchildren c next hc
          obtain ⟨b, hb, hiff⟩ := ih hnext
          refine ⟨b, ?_, ?_⟩
          · rw [check, if_neg (not_not_intro h0), if_neg hout, hget, hc]
            exact hb
          · simp [hiff, h0, val_some (show t.child c = some next from hc)]
    · refine ⟨true, by simp [check, h0], ?_⟩
      simp [h0]

def Stored (refcnt : UInt32) : Prop := refcnt ≠ 0

def Visits (t : TrieT) : Prop :=
  ∀ (buff : Buff) (path : List UInt8) (n : ℕ), buff.Spells path n →
    ∃ (buff' : Buff) (keys : List (List UInt8)), applyHelper t buff path.length n = .ok buff' ∧
      buff'.Spells path n ∧ buff'.calls = buff.calls ++ keys.map (path ++ ·) ∧
      Node.Lists keys fun p => Stored (t.val 0 p)

theorem visits_child (ht : Visits t) {n : ℕ} (h : buff.Spells path n) (hn : path.length < n) (c : UInt8) :
    ∃ (buff1 buff' : Buff) (keys : List (List UInt8)), buff.put path.length c = .ok buff1 ∧
      applyHelper t buff1 (path.length + 1) n = .ok buff' ∧ buff'.Spells path n ∧
      buff'.calls = buff.calls ++ (keys.map (c :: ·)).map (path ++ ·) ∧ Node.Lists keys fun p => Stored (t.val 0 p) := by
  obtain ⟨buff1, hput, hcalls1, hsp1⟩ := Buff.put_spells h hn c
  obtain ⟨buff', keys, happly, hsp', hcalls', hlists⟩ := ht buff1 (path ++ [c]) n hsp1
  rw [length_append] at happly
  refine ⟨buff1, buff', keys, hput, happly, hsp'.up, ?_, hlists⟩
  rw [hcalls', hcalls1]
  simp [Function.comp_def]

theorem visits_table {m : UInt8} (t : List (Option TrieT)) (ht : ∀ next, some next ∈ t → Visits next)
    (c : ℕ) (hfit : m.toNat + c + t.length ≤ 256) {n : ℕ} (h : buff.Spells path n) (hn : path.length < n) :
    ∃ (buff' : Buff) (keys : List (List UInt8)), applyTable t m c buff path.length n = .ok buff' ∧
      buff'.Spells path n ∧ buff'.calls = buff.calls ++ keys.map (path ++ ·) ∧
      Node.Lists keys (Node.Below 0 Stored fun c' => entry (m.toNat + c) t c'.toNat) := by
  induction t generalizing c buff with
  | nil => exact ⟨buff, [], rfl, h, by simp, lists_nil (by simp [Span.entry_nil])⟩
  | cons next t ih =>
    rw [length_cons] at hfit
    cases next with
    | none =>
      obtain ⟨buff1, hput, hcalls1, hsp1⟩ := Buff.put_spells h hn (m + UInt8.ofNat c)
      obtain ⟨buff', keys, happly, hsp', hcalls', hlists⟩ :=
        ih (fun next hx => ht next (mem_cons_of_mem _ hx)) (c + 1) (by omega) hsp1.up
      refine ⟨buff', keys, ?_, hsp', by rw [hcalls', hcalls1], ?_⟩
      · simp only [applyTable, hput, bind, Except.bind, happly]
      · simpa only [Span.entry_none, Nat.add_assoc] using hlists
    | some next =>
      obtain ⟨buff1, buff2, keys1, hput, happly1, hsp2, hcalls2, hlists1⟩ :=
        visits_child (ht next mem_cons_self) h hn (m + UInt8.ofNat c)
      obtain ⟨buff', keys, happly, hsp', hcalls', hlists⟩ :=
        ih (fun next hx => ht next (mem_cons_of_mem _ hx)) (c + 1) (by omega) hsp2
      refine ⟨buff', keys1.map ((m + UInt8.ofNat c) :: ·) ++ keys, ?_, hsp', ?_,
        lists_cons (Slots.add_toNat (by omega)) hlists1 hlists⟩
      · simp only [applyTable, hput, bind, Except.bind, happly1, happly]
      · rw [hcalls', hcalls2, map_append, append_assoc]

theorem visits (h : Wf t) : Visits t := by
  induction h with
  | @intro n _ hs hchildren hlive ih =>
    intro buff path size hb
    obtain ⟨refcnt, s⟩ := n
    -- the call for the node itself
    obtain ⟨buff0, hcall, hsp0, hcalls0⟩ : ∃ buff0 : Buff,
        buff.callIf (refcnt != 0) path.length = .ok buff0 ∧ buff0.Spells path size ∧
        buff0.calls = buff.calls ++ if refcnt != 0 then [path] else [] :=
      ⟨_, Buff.callIf_eq hb _, ⟨hb.spelled, hb.size, hb.room⟩, rfl⟩
    obtain ⟨hsp1, hcalls1, hlt, hle⟩ := Buff.adjust_spells hsp0
    generalize hadj : buff0.adjust path.length size = adj at hsp1 hcalls1 hlt hle
    obtain ⟨size1, buff1⟩ := adj
    have hall : ∀ (buff' : Buff) (keys : List (List UInt8)), buff'.Spells path size1 →
        buff'.calls = buff1.calls ++ keys.map (path ++ ·) →
        Node.Lists keys (Node.Below 0 Stored (child ⟨refcnt, s⟩)) →
        ∃ keys' : List (List UInt8), buff'.Spells path size ∧ buff'.calls = buff.calls ++ keys'.map (path ++ ·) ∧
          Node.Lists keys' fun p => Stored ((⟨refcnt, s⟩ : TrieT).val 0 p) := by
      intro buff' keys hsp' hcalls' hlists
      refine ⟨_, hsp'.mono hb.size hle, ?_, lists_node (b := refcnt != 0) bne_iff_ne (not_not_intro rfl) hlists⟩
      rw [hcalls', hcalls1, hcalls0, ]
      split_ifs <;> simp
    cases hs with
    | @none m p =>
      obtain ⟨keys', h1, h2, h3⟩ := hall buff1 [] hsp1 (by simp)
        (lists_nil (by simp [child, Slots.child_none]))
      refine ⟨buff1, keys', ?_, h1, h2, h3⟩
      simp only [applyHelper, hcall, bind, Except.bind, hadj, if_true, pure, Except.pure]
    | @node m next =>
      obtain ⟨buff2, buff3, keys, hput, happly, hsp3, hcalls3, hlists⟩ :=
        visits_child (ih m next (by simp [child, Slots.child_node])) hsp1 hlt m
      obtain ⟨keys', h1, h2, h3⟩ := hall buff3 (keys.map (m :: ·)) hsp3 hcalls3
        (lists_child hlists (Slots.child_node m 1 (some next)))
      refine ⟨buff3, keys', ?_, h1, h2, h3⟩
      simp only [applyHelper, hcall, bind, Except.bind, hadj, Nat.one_ne_zero, if_false, ne_eq, not_true_eq_false, hput, happly]
    | @table m n t hlen hfit hlive hends =>
      obtain ⟨buff2, keys, happly, hsp2, hcalls2, hlists⟩ := visits_table (m := m) t
        (fun next hx => by
          obtain ⟨c, hc⟩ := Slots.child_mem hfit hx
          exact ih c next hc)
        0 (by omega) hsp1 hlt
      obtain ⟨keys', h1, h2, h3⟩ := hall buff2 keys hsp2 hcalls2 hlists
      refine ⟨buff2, keys', ?_, h1, h2, h3⟩
      simp only [applyHelper, hcall, bind, Except.bind, hadj, if_neg (by omega : ¬ t.length = 0),
        if_neg (by omega : ¬ t.length = 1), happly]

theorem apply_spec (h : Wf t) : ∃ keys : List (List UInt8), apply t = .ok keys ∧ keys.Nodup ∧ ∀ p, p ∈ keys ↔ t.val 0 p ≠ 0 := by
  obtain ⟨buff, keys, happly, -, hcalls, hlists⟩ := visits h .empty [] 0 Buff.empty_spells
  refine ⟨keys, ?_, hlists.nodup, hlists.mem⟩
  have hkeys : buff.calls = keys := by simpa [Buff.empty] using hcalls
  rw [apply, show applyHelper t .empty 0 0 = .ok buff from happly]
  exact congrArg ok hkeys

/-- What is asked of the trie. -/
inductive Op where
  | add (key : List UInt8)
  | rm (key : List UInt8)

def call (t : TrieT) : Op → Except TrieFault (Bool × TrieT)
  | .add key => add t key
  | .rm key => rm t key

/-- A multiset of strings: the first to come and the last to go are news. -/
def bag (m : Multiset (List UInt8)) : Op → Bool × Multiset (List UInt8)
  | .add key => (m.count key == 0, key ::ₘ m)
  | .rm key => (m.count key == 1, m.erase key)

/-- No string is ever held 2 ^ 32 times. -/
def Countable (m : Multiset (List UInt8)) : Op → Prop
  | .add key => m.count key + 1 < 2 ^ 32
  | .rm _ => True

instance (m : Multiset (List UInt8)) : (op : Op) → Decidable (Countable m op)
  | .add key => inferInstanceAs (Decidable (m.count key + 1 < 2 ^ 32))
  | .rm _ => inferInstanceAs (Decidable True)

def Holds (t : TrieT) (m : Multiset (List UInt8)) : Prop :=
  Wf t ∧ ∀ p, (t.val 0 p).toNat = m.count p

theorem new_holds : Holds new 0 := by
  refine ⟨new_wf, fun p => ?_⟩
  rw [new, new_val]
  simp

theorem holds_zero (h : Holds t m) (p : List UInt8) (n : ℕ)
    (hn : n < 2 ^ 32) : (t.val 0 p == UInt32.ofNat n) = (m.count p == n) := by
  rw [Bool.eq_iff_iff, beq_iff_eq, beq_iff_eq, ← h.2 p, ← UInt32.toNat_inj,
    UInt32.toNat_ofNat_of_lt' (by simpa [UInt32.size] using hn)]

theorem holds_mem (h : Holds t m) (p : List UInt8) : t.val 0 p ≠ 0 ↔ p ∈ m := by
  rw [← Multiset.count_pos, ← h.2 p, ne_eq, ← UInt32.toNat_inj]
  exact Nat.pos_iff_ne_zero.symm

theorem call_holds {op : Op} (h : Holds t m) (hc : Countable m op) :
    ∃ t', call t op = .ok ((bag m op).1, t') ∧ Holds t' (bag m op).2 := by
  cases op with
  | add key =>
    have hlt : (t.val 0 key).toNat + 1 < 2 ^ 32 := by
      rw [h.2]
      exact hc
    have hsucc : (t.val 0 key + 1).toNat = (t.val 0 key).toNat + 1 := by
      exact Nat.mod_eq_of_lt hlt
    obtain ⟨t', hadd, -, hwf, hval⟩ := add_spec key h.1 (by
      intro h0
      rw [h0] at hsucc
      cases hsucc)
    refine ⟨t', ?_, hwf, fun p => ?_⟩
    · rw [show (t.val 0 key == 0) = (m.count key == 0) from holds_zero h key 0 (by decide)] at hadd
      exact hadd
    · rw [hval, Function.update_apply, bag, Multiset.count_cons]
      split_ifs with hp
      · rw [hsucc, h.2, hp]
      · exact h.2 p
  | rm key =>
    obtain ⟨t', hrm, hwf, hval⟩ := rm_spec key h.1
    refine ⟨t', ?_, hwf, fun p => ?_⟩
    · rw [show (t.val 0 key == 1) = (m.count key == 1) from holds_zero h key 1 (by decide)] at hrm
      exact hrm
    · rw [hval, Function.update_apply, bag]
      by_cases hp : p = key
      · subst hp
        rw [if_pos rfl, Multiset.count_erase_self, ← h.2]
        split_ifs with h0
        · rw [h0]
          rfl
        · have hpos : (t.val 0 p).toNat ≠ 0 := fun hx => h0 (UInt32.toNat_inj.mp hx)
          rw [UInt32.toNat_sub_of_le _ _ (UInt32.le_iff_toNat_le.mpr (by
            change 1 ≤ _
            omega))]
          rfl
      · rw [if_neg hp, Multiset.count_erase_of_ne hp]
        exact h.2 p

/-- From the empty trie on, the calls are answered as by the multiset of the strings
added and not removed, and the trie then finds and enumerates exactly these. -/
theorem counted_set {ops : List Op} (h : Allowed bag Countable 0 ops) : ∃ t, exec call new ops = .ok ((answers bag 0 ops).1, t) ∧
      (∀ data, ∃ b, check t data = .ok b ∧ (b = true ↔ ∃ p ∈ (answers bag 0 ops).2, p <+: data)) ∧
      ∃ keys, apply t = .ok keys ∧ keys.Nodup ∧ ∀ p, p ∈ keys ↔ p ∈ (answers bag 0 ops).2 := by
  obtain ⟨t, hexec, hholds⟩ := allowed_refines (fun _ _ _ => call_holds) new_holds h
  have hwf := hholds.1
  have hmem := holds_mem hholds
  refine ⟨t, hexec, fun data => ?_, ?_⟩
  · obtain ⟨b, hb, hiff⟩ := check_spec data hwf
    refine ⟨b, hb, hiff.trans ?_⟩
    simp only [hmem]
    exact exists_congr fun p => and_comm
  · obtain ⟨keys, hkeys, hnd, hk⟩ := apply_spec hwf
    exact ⟨keys, hkeys, hnd, fun p => (hk p).trans (hmem p)⟩

/-- A table is made, grown to the left and cut back. -/
def sampleOps : List Op :=
  [.add [5, 1], .add [9], .add [5, 1], .add [2], .rm [9], .rm [5], .rm [5, 1], .add []]

theorem counted_set_sample : ∃ t, exec call new sampleOps = .ok ([true, true, false, true, true, false, false, true], t) ∧
    ∃ keys, apply t = .ok keys ∧ keys.Nodup ∧ ∀ p, p ∈ keys ↔ p ∈ ({[], [2], [5, 1]} : Multiset (List UInt8)) := by
  have hans : (answers bag 0 sampleOps).1 = [true, true, false, true, true, false, false, true] := by
    decide
  have hheld : (answers bag 0 sampleOps).2 = {[], [2], [5, 1]} := by decide
  have hallowed : Allowed bag Countable 0 sampleOps := by decide
  obtain ⟨t, hexec, -, hkeys⟩ := counted_set hallowed
  exact ⟨t, hans ▸ hexec, hheld ▸ hkeys⟩

end TrieT

end Zmq
