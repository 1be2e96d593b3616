import LibZmq.Span

/-! The children of a node of `trie_t` or `mtrie_t`: none, one inline, or a table that
starts at the character `min`. Both classes grow the table in the same way. -/

namespace Zmq

open List Option Zmq.Span

open Function (update update_apply update_comp_eq_of_injective)

universe u

inductive TrieFault where
  | assertion
  | nullDereference
  /-- an access outside of a table or a buffer -/
  | outOfBounds
  /-- the member of the union that is not the one last written -/
  | wrongMember

/-- The union `next`; a table is the list of its entries. -/
inductive Next (α : Type u) where
  | node (p : Option α)
  | table (t : List (Option α))

/-- `count` and `live_nodes` are at most 256, far from the limit of their type. -/
structure Slots (α : Type u) where
  min : UInt8
  count : ℕ
  liveNodes : ℕ
  next : Next α

namespace Slots

variable {α : Type u}

def empty : Slots α := ⟨0, 0, 0, .node none⟩

/-- `c < min || c >= min + count` -/
def outside (s : Slots α) (c : UInt8) : Bool := c < s.min || s.min.toNat + s.count ≤ c.toNat

/-- `add` extends the table when the character is out of its range. -/
def reserve (s : Slots α) (c : UInt8) : Except TrieFault (Slots α) :=
  if s.outside c then
    if s.count = 0 then .ok { s with min := c, count := 1, next := .node none }
    else match s.next with
      | .node oldp =>
        if s.count ≠ 1 then .error .wrongMember
        else
          let count := (if s.min < c then c.toNat - s.min.toNat else s.min.toNat - c.toNat) + 1
          let min := if s.min < c then s.min else c
          let table := (replicate count none).set (s.min.toNat - min.toNat) oldp
          .ok { s with min := min, count := count, next := .table table }
      | .table t =>
        if s.count = 1 then .error .wrongMember
        else if s.min < c then
          let count := c.toNat - s.min.toNat + 1
          .ok { s with count := count, next := .table (t ++ replicate (count - s.count) none) }
        else
          let count := s.min.toNat + s.count - c.toNat
          .ok { s with
            min := c
            count := count
            next := .table (replicate (s.min.toNat - c.toNat) none ++ t) }
  else .ok s

/-- `count == 1 ? next.node : next.table [c - min]` -/
def get (s : Slots α) (c : UInt8) : Except TrieFault (Option α) :=
  match s.next with
  | .node p => if s.count = 1 then .ok p else .error .wrongMember
  | .table t =>
    if s.count = 1 then .error .wrongMember
    else match t[c.toNat - s.min.toNat]? with
      | some p => .ok p
      | none => .error .outOfBounds

/-- Store a child in the slot that `get` reads. -/
def set (s : Slots α) (c : UInt8) (p : Option α) : Slots α :=
  match s.next with
  | .node _ => { s with next := .node p }
  | .table t => { s with next := .table (t.set (c.toNat - s.min.toNat) p) }

/-- A child has been taken out of the table, which is now `t` and holds more than one
still. It is compacted when the child was at one of its ends. -/
def compact (s : Slots α) (t : List (Option α)) (liveNodes : ℕ) (c : UInt8) :
    Except TrieFault (Slots α) :=
  if c = s.min then
    match Span.scan t with
    | none => .error .assertion
    | some i => .ok ⟨s.min + UInt8.ofNat i, s.count - i, liveNodes, .table (t.drop i)⟩
  else if c.toNat = s.min.toNat + s.count - 1 then
    match Span.scan t.reverse with
    | none => .error .assertion
    | some i => .ok ⟨s.min, s.count - i, liveNodes, .table (t.take (s.count - i))⟩
  else .ok { s with liveNodes := liveNodes, next := .table t }

/-- The entries from `min` on. -/
def entries (s : Slots α) : List (Option α) :=
  match s.next with
  | .node p => if s.count = 0 then [] else [p]
  | .table t => t

/-- The child for a character. -/
def child (s : Slots α) (c : UInt8) : Option α := entry s.min.toNat s.entries c.toNat

/-- The three shapes of a node: the numbers and the union member agree with the
children, and a table has a child at both ends. -/
inductive Wf : Slots α → Prop
  | none {m p} : Wf ⟨m, 0, 0, .node p⟩
  | node {m x} : Wf ⟨m, 1, 1, .node (some x)⟩
  | table {m n t} (hlen : 1 < t.length) (hfit : m.toNat + t.length ≤ 256)
    (hlive : n = t.countP isSome) (hends : Span.Tight t) : Wf ⟨m, t.length, n, .table t⟩

variable {s : Slots α} {c : UInt8} {y : α} {t : List (Option α)}

theorem empty_wf : (empty : Slots α).Wf := .none

theorem child_none (m : UInt8) (n : ℕ) (p : Option α) (c : UInt8) : (⟨m, 0, n, .node p⟩ : Slots α).child c = none := by
  simp [child, entries, entry_nil]

theorem empty_child (c : UInt8) : (empty : Slots α).child c = none := child_none ..

theorem child_node (m : UInt8) (n : ℕ) (p : Option α) (c : UInt8) :
    (⟨m, 1, n, .node p⟩ : Slots α).child c = if c = m then p else none := by
  simp only [child, entries, Nat.one_ne_zero, if_false, entry_singleton, update_apply, UInt8.toNat_inj]

theorem child_table (m : UInt8) (k n : ℕ) (t : List (Option α)) (c : UInt8) :
    (⟨m, k, n, .table t⟩ : Slots α).child c = entry m.toNat t c.toNat := rfl

theorem outside_iff : s.outside c = true ↔ c.toNat < s.min.toNat ∨ s.min.toNat + s.count ≤ c.toNat := by
  simp [outside, UInt8.lt_iff_toNat_lt]

theorem outside_child (h : s.Wf) (hc : s.outside c = true) : s.child c = none := by
  rw [outside_iff] at hc
  cases h with
  | none => exact child_none ..
  | @node m x =>
    rw [child_node, if_neg]
    rintro rfl
    dsimp only at hc
    omega
  | table => exact entry_out hc

theorem live_pos (h : s.Wf) (hc : s.child c = some y) : s.liveNodes ≠ 0 := by
  cases h with
  | none => simp [child_none] at hc
  | node => simp
  | table hlen hfit hlive hends =>
    have := tight_pos hends
    dsimp only
    omega

theorem exists_child (h : s.Wf) (hl : s.liveNodes ≠ 0) : ∃ c y, s.child c = some y := by
  cases h with
  | none => exact absurd rfl hl
  | @node m x => exact ⟨m, x, by rw [child_node, if_pos rfl]⟩
  | @table m n t hlen hfit hlive hends =>
    obtain ⟨y, hy⟩ := ne_none_iff_exists'.mp hends.1
    refine ⟨m, y, ?_⟩
    exact entry_at (m := m.toNat) (join_eq_some_iff.mp hy)

theorem get_child (h : s.Wf) (hc : s.outside c = false) : s.get c = .ok (s.child c) := by
  have hin : ¬ (c.toNat < s.min.toNat ∨ s.min.toNat + s.count ≤ c.toNat) := by
    rw [← outside_iff, hc]
    exact Bool.false_ne_true
  cases h with
  | none =>
    dsimp only at hin
    omega
  | @node m x =>
    have hm : c = m := by
      rw [← UInt8.toNat_inj]
      dsimp only at hin
      omega
    rw [child_node, if_pos hm]
    rfl
  | @table m n t hlen =>
    dsimp only at hin
    obtain ⟨p, hp⟩ : ∃ p, t[c.toNat - m.toNat]? = some p :=
      ⟨_, getElem?_eq_getElem (by omega)⟩
    have hchild : entry m.toNat t c.toNat = p := by
      have h1 := entry_at (m := m.toNat) hp
      rwa [show m.toNat + (c.toNat - m.toNat) = c.toNat by omega] at h1
    simp only [get, child_table, hchild, hp, if_neg (by omega : t.length ≠ 1)]

theorem count_ne_one (h : s.Wf) (ho : s.outside c = false) (hc : s.child c = none) : s.count ≠ 1 := by
  intro h1
  cases h with
  | none => cases h1
  | @node m x =>
    have hm : c = m := by
      rw [← UInt8.toNat_inj]
      have := mt outside_iff.mpr (by rw [ho]; exact Bool.false_ne_true)
      dsimp only at this
      omega
    simp [child_node, hm] at hc
  | table hlen =>
    dsimp only at h1
    omega

theorem child_comp (m : ℕ) (t : List (Option α)) (c : UInt8) (p : Option α) (j : ℕ) (hj : m + j = c.toNat) (hlt : j < t.length) :
    (fun c' : UInt8 => entry m (t.set j p) c'.toNat) = update (fun c' : UInt8 => entry m t c'.toNat) c p := by
  rw [entry_set hlt, hj]
  exact update_comp_eq_of_injective (entry m t) (f := UInt8.toNat)
    (fun _ _ => UInt8.toNat_inj.mp) c p

inductive Reserved (f : UInt8 → Option α) (c : UInt8) : Slots α → Prop
  | inline {p} (hf : ∀ c', f c' = none) (hp : p = none) : Reserved f c ⟨c, 1, 0, .node p⟩
  | table {m t} (hlen : 1 < t.length) (hfit : m.toNat + t.length ≤ 256)
    (hc : m.toNat ≤ c.toNat ∧ c.toNat < m.toNat + t.length)
    (hf : ∀ c' : UInt8, entry m.toNat t c'.toNat = f c') (hn : f c = none)
    (hfirst : c.toNat = m.toNat ∨ (t[0]?).join ≠ none)
    (hlast : c.toNat + 1 = m.toNat + t.length ∨ (t[t.length - 1]?).join ≠ none) :
    Reserved f c ⟨m, t.length, t.countP isSome, .table t⟩

theorem reserve_new (h : s.Wf) (hc : s.child c = none) :
    ∃ s1, s.reserve c = .ok s1 ∧ Reserved s.child c s1 := by
  cases ho : s.outside c with
  | false =>
    refine ⟨s, by simp [reserve, ho], ?_⟩
    have hin : ¬ (c.toNat < s.min.toNat ∨ s.min.toNat + s.count ≤ c.toNat) := by
      rw [← outside_iff, ho]
      exact Bool.false_ne_true
    cases h with
    | none =>
      dsimp only at hin
      omega
    | @node m x =>
      have hm : c = m := by
        rw [← UInt8.toNat_inj]
        dsimp only at hin
        omega
      simp [child_node, hm] at hc
    | @table m n t hlen hfit hlive hends =>
      subst hlive
      dsimp only at hin
      exact .table hlen hfit (by omega) (fun _ => rfl) hc (.inr hends.1) (.inr hends.2)
  | true =>
    have hout := outside_iff.mp ho
    have hc256 := c.toNat_lt
    cases h with
    | none => exact ⟨_, by simp [reserve, ho], .inline (child_none _ _ _) rfl⟩
    | @node m x =>
      dsimp only at hout
      have hm256 := m.toNat_lt
      have hentry : ∀ (k n j : ℕ), k + j = m.toNat → j < n → ∀ c' : UInt8,
          entry k ((replicate n none).set j (some x)) c'.toNat =
            (⟨m, 1, 1, .node (some x)⟩ : Slots α).child c' := by
        intro k n j hk hj c'
        have hempty : entry k (replicate n (none : Option α)) = fun _ => none := by
          have := entry_above (m := k) (t := ([] : List (Option α))) (k := n)
          rwa [entry_nil] at this
        rw [entry_set (by simpa using hj), hk, hempty, child_node]
        simp only [update_apply, UInt8.toNat_inj]
      have hcount : ∀ n j, j < n →
          ((replicate n (none : Option α)).set j (some x)).countP isSome = 1 := by
        intro n j hj
        have := count_set (t := replicate n (none : Option α)) (j := j) (p := none)
          (by simp [hj]) (some x)
        simpa [countP_replicate] using this
      by_cases hlt : m.toNat < c.toNat
      · have hlt' : m < c := UInt8.lt_iff_toNat_lt.mpr hlt
        obtain ⟨n, hn⟩ : ∃ n, c.toNat - m.toNat + 1 = n := ⟨_, rfl⟩
        obtain ⟨t, ht⟩ : ∃ t, (replicate n (none : Option α)).set 0 (some x) = t := ⟨_, rfl⟩
        have hlen : t.length = n := by simp [← ht]
        have hlive : t.countP isSome = 1 := ht ▸ hcount n 0 (by omega)
        refine ⟨⟨m, t.length, t.countP isSome, .table t⟩, ?_, .table ?_ ?_ ?_ ?_ hc ?_ ?_⟩
        · rw [hlen, hlive]
          simp [reserve, ho, hlt', hn, ht]
        · omega
        · omega
        · omega
        · exact ht ▸ hentry m.toNat n 0 rfl (by omega)
        · right
          simp [← ht, show 0 < n by omega]
        · left
          omega
      · have hlt' : ¬ m < c := fun h => hlt (UInt8.lt_iff_toNat_lt.mp h)
        obtain ⟨n, hn⟩ : ∃ n, m.toNat - c.toNat + 1 = n := ⟨_, rfl⟩
        obtain ⟨t, ht⟩ : ∃ t, (replicate n (none : Option α)).set (m.toNat - c.toNat) (some x) = t :=
          ⟨_, rfl⟩
        have hlen : t.length = n := by simp [← ht]
        have hlive : t.countP isSome = 1 := ht ▸ hcount n _ (by omega)
        refine ⟨⟨c, t.length, t.countP isSome, .table t⟩, ?_, .table ?_ ?_ ?_ ?_ hc ?_ ?_⟩
        · rw [hlen, hlive]
          simp [reserve, ho, hlt', hn, ht]
        · omega
        · omega
        · omega
        · exact ht ▸ hentry c.toNat n _ (by omega) (by omega)
        · exact .inl rfl
        · right
          rw [hlen, show n - 1 = m.toNat - c.toNat by omega, ← ht,
            getElem?_set_self (by simp; omega)]
          simp
    | @table m n t hlen hfit hlive hends =>
      subst hlive
      dsimp only at hout
      have hnone : ∀ k, (replicate k (none : Option α)).countP isSome = 0 := by
        intro k
        simp [countP_replicate]
      by_cases hlt : m.toNat < c.toNat
      · have hlt' : m < c := UInt8.lt_iff_toNat_lt.mpr hlt
        obtain ⟨k, hk⟩ : ∃ k, c.toNat - m.toNat + 1 - t.length = k := ⟨_, rfl⟩
        obtain ⟨u, hu⟩ : ∃ u, t ++ replicate k none = u := ⟨_, rfl⟩
        have hulen : u.length = c.toNat - m.toNat + 1 := by
          simp [← hu]
          omega
        have hlive : u.countP isSome = t.countP isSome := by
          rw [← hu, countP_append, hnone, Nat.add_zero]
        refine ⟨⟨m, u.length, u.countP isSome, .table u⟩, ?_, .table ?_ ?_ ?_ ?_ hc ?_ ?_⟩
        · rw [hulen, hlive]
          simp only [reserve, ho, if_true, hlt', hk, hu]
          rw [if_neg (by omega), if_neg (by omega)]
        · omega
        · omega
        · omega
        · intro c'
          rw [← hu, entry_above]
          rfl
        · right
          rw [← hu, getElem?_append_left (by omega)]
          exact hends.1
        · left
          omega
      · have hlt' : ¬ m < c := fun h => hlt (UInt8.lt_iff_toNat_lt.mp h)
        obtain ⟨u, hu⟩ : ∃ u, replicate (m.toNat - c.toNat) none ++ t = u := ⟨_, rfl⟩
        have hulen : u.length = m.toNat + t.length - c.toNat := by
          simp [← hu]
          omega
        have hlive : u.countP isSome = t.countP isSome := by
          rw [← hu, countP_append, hnone, Nat.zero_add]
        refine ⟨⟨c, u.length, u.countP isSome, .table u⟩, ?_, .table ?_ ?_ ?_ ?_ hc ?_ ?_⟩
        · rw [hulen, hlive]
          simp only [reserve, ho, if_true, hlt', if_false, hu]
          rw [if_neg (by omega), if_neg (by omega)]
        · omega
        · omega
        · omega
        · intro c'
          have := entry_below (m := m.toNat) (t := t) (k := m.toNat - c.toNat) (by omega)
          rw [hu, show m.toNat - (m.toNat - c.toNat) = c.toNat by omega] at this
          rw [this]
          rfl
        · exact .inl rfl
        · right
          have hidx : u[u.length - 1]? = t[t.length - 1]? := by
            rw [hulen, ← hu, getElem?_append_right (by simp; omega), length_replicate]
            congr 1
            omega
          rw [hidx]
          exact hends.2

theorem reserved_fill {f : UInt8 → Option α} (h : Reserved f c s) (x : α) :
    s.get c = .ok none ∧ (s.count = 1 → s.liveNodes = 0) ∧ (s.count ≠ 1 → 0 < s.liveNodes) ∧
    (({ s with liveNodes := s.liveNodes + 1 } : Slots α).set c (some x)).Wf ∧
    (({ s with liveNodes := s.liveNodes + 1 } : Slots α).set c (some x)).child =
      update f c (some x) := by
  cases h with
  | inline hf hp =>
    subst hp
    refine ⟨rfl, fun _ => rfl, fun h => absurd rfl h, .node, ?_⟩
    funext c'
    change (⟨c, 1, 1, .node (some x)⟩ : Slots α).child c' = _
    rw [child_node, update_apply, hf]
  | @table m t hlen hfit hc hf hn hfirst hlast =>
    have hj : c.toNat - m.toNat < t.length := by omega
    have hget : t[c.toNat - m.toNat]? = some none := by
      rw [← hf, ← show m.toNat + (c.toNat - m.toNat) = c.toNat by omega] at hn
      obtain ⟨p, hp⟩ : ∃ p, t[c.toNat - m.toNat]? = some p := ⟨_, getElem?_eq_getElem hj⟩
      rw [entry_at hp] at hn
      rw [hp, hn]
    have hlive := count_set hget (some x)
    refine ⟨?_, fun h => ?_, fun _ => ?_, ?_, ?_⟩
    · simp only [get, hget, if_neg (by omega : t.length ≠ 1)]
    · exact absurd h (show t.length ≠ 1 by omega)
    · rcases hfirst with h1 | h1
      · rcases hlast with h2 | h2
        · omega
        · obtain ⟨y, hy⟩ := ne_none_iff_exists'.mp h2
          exact countP_pos_iff.mpr
            ⟨_, mem_of_getElem? (join_eq_some_iff.mp hy), rfl⟩
      · obtain ⟨y, hy⟩ := ne_none_iff_exists'.mp h1
        exact countP_pos_iff.mpr
          ⟨_, mem_of_getElem? (join_eq_some_iff.mp hy), rfl⟩
    · have hwf := Wf.table (m := m) (n := t.countP isSome + 1)
        (t := t.set (c.toNat - m.toNat) (some x)) (by simpa using hlen) (by simpa using hfit)
        hlive.symm (tight_set (hfirst.imp_left fun h => by omega)
          (hlast.imp_left fun h => by omega) hj)
      rwa [length_set] at hwf
    · have hx := child_comp m.toNat t c (some x) (c.toNat - m.toNat) (by omega) hj
      rw [funext hf] at hx
      exact hx

theorem set_child (h : s.Wf) (hc : s.child c = some y) (x : α) :
    s.reserve c = .ok s ∧ s.get c = .ok (some y) ∧ (s.set c (some x)).Wf ∧
    (s.set c (some x)).child = update s.child c (some x) := by
  have ho : s.outside c = false := by
    by_contra hn
    rw [outside_child h (by simpa using hn)] at hc
    cases hc
  refine ⟨by simp [reserve, ho], hc ▸ get_child h ho, ?_⟩
  cases h with
  | none => simp [child_none] at hc
  | @node m z =>
    refine ⟨.node, ?_⟩
    have hm : c = m := by
      by_contra hne
      simp [child_node, hne] at hc
    subst hm
    funext c'
    change (⟨c, 1, 1, .node (some x)⟩ : Slots α).child c' = _
    simp only [child_node, update_apply]
    split_ifs <;> rfl
  | @table m n t hlen hfit hlive hends =>
    obtain ⟨j, hj, hget⟩ := entry_some hc
    dsimp only [entries] at hj hget
    have hlt := (List.getElem?_eq_some_iff.mp hget).1
    have hcount := count_set hget (some x)
    have hj' : c.toNat - m.toNat = j := by omega
    constructor
    · have hwf := Wf.table (m := m) (n := n) (t := t.set j (some x)) (by simpa using hlen)
        (by simpa using hfit) (by simpa [hlive] using hcount.symm)
        (tight_set (.inr hends.1) (.inr hends.2) hlt)
      rw [length_set] at hwf
      simpa only [set, hj'] using hwf
    · simp only [set, hj']
      exact child_comp m.toNat t c (some x) j hj.symm hlt

theorem set_same (h : s.Wf) (hc : s.child c = some y) : s.set c (some y) = s := by
  cases h with
  | none => simp [child_none] at hc
  | @node m z =>
    rw [child_node] at hc
    split_ifs at hc
    rw [← hc]
    rfl
  | @table m n t hlen hfit hlive hends =>
    obtain ⟨j, hj, hget⟩ := entry_some hc
    dsimp only [entries] at hj hget
    obtain ⟨hlt, hget⟩ := List.getElem?_eq_some_iff.mp hget
    simp only [set, show c.toNat - m.toNat = j by omega]
    rw [← hget, set_getElem_self]

theorem add_toNat {m : UInt8} {i : ℕ} (h : m.toNat + i < 256) : (m + UInt8.ofNat i).toNat = m.toNat + i := by
  rw [UInt8.toNat_add, UInt8.toNat_ofNat', Nat.add_mod_mod]
  exact Nat.mod_eq_of_lt h

theorem child_mem {m : UInt8} {x : α} (hfit : m.toNat + t.length ≤ 256)
    (hx : some x ∈ t) : ∃ c : UInt8, entry m.toNat t c.toNat = some x := by
  obtain ⟨j, hj, hget⟩ := mem_iff_getElem.mp hx
  refine ⟨m + UInt8.ofNat j, ?_⟩
  rw [add_toNat (by omega), entry_at (p := some x)]
  rw [getElem?_eq_getElem hj, hget]

theorem trim_wf {m : UInt8} {i k : ℕ} (hfit : m.toNat + t.length ≤ 256)
    (hl : ∀ j < i, (t[j]?).join = none) (hr : ∀ j, i + k ≤ j → (t[j]?).join = none)
    (hfirst : (t[i]?).join ≠ none) (hlast : (t[i + k - 1]?).join ≠ none) (hik : i + k ≤ t.length)
    (hlive : 1 < t.countP isSome) :
    (⟨m + UInt8.ofNat i, k, t.countP isSome, .table ((t.drop i).take k)⟩ : Slots α).Wf ∧
      ∀ c, (⟨m + UInt8.ofNat i, k, t.countP isSome, .table ((t.drop i).take k)⟩ : Slots α).child c =
        entry m.toNat t c.toNat := by
  have hcount := count_trim hl hr
  have hlen : ((t.drop i).take k).length = k := by
    rw [length_take, length_drop]
    omega
  have hk : 1 < k := by
    have := countP_le_length (p := isSome) (l := (t.drop i).take k)
    omega
  have hm : (m + UInt8.ofNat i).toNat = m.toNat + i := add_toNat (by omega)
  constructor
  · have hwf := Wf.table (m := m + UInt8.ofNat i) (n := t.countP isSome)
      (t := (t.drop i).take k) (by omega) (by omega) hcount.symm ⟨?_, ?_⟩
    · rwa [hlen] at hwf
    · rw [getElem?_take_of_lt (by omega), getElem?_drop]
      exact hfirst
    · rw [hlen, getElem?_take_of_lt (by omega), getElem?_drop,
        show i + (k - 1) = i + k - 1 by omega]
      exact hlast
  · intro c
    rw [child_table, hm, entry_trim hl hr]

theorem single_wf {m : UInt8} {i : ℕ} {x : α} (hfit : m.toNat + t.length ≤ 256) (hlive : t.countP isSome = 1)
    (hi : t[i]? = some (some x)) : (⟨m + UInt8.ofNat i, 1, 1, .node (some x)⟩ : Slots α).Wf ∧
      ∀ c, (⟨m + UInt8.ofNat i, 1, 1, .node (some x)⟩ : Slots α).child c = entry m.toNat t c.toNat := by
  have hlt := (List.getElem?_eq_some_iff.mp hi).1
  refine ⟨.node, fun c => ?_⟩
  rw [entry_only hlive hi, ← add_toNat (m := m) (by omega)]
  rfl

structure Cleared (m : UInt8) (t u : List (Option α)) (j : ℕ) (c : UInt8) : Prop where
  position : c.toNat = m.toNat + j
  lt : j < t.length
  length : u.length = t.length
  fits : m.toNat + t.length ≤ 256
  long : 1 < t.length
  ends : Span.Tight t
  here : (u[j]?).join = none
  other : ∀ i, i ≠ j → u[i]? = t[i]?
  count : u.countP isSome + 1 = t.countP isSome
  child : (fun c' : UInt8 => entry m.toNat u c'.toNat) =
    update (fun c' : UInt8 => entry m.toNat t c'.toNat) c none

theorem cleared_set {m : UInt8} {n : ℕ} (hlen : 1 < t.length) (hfit : m.toNat + t.length ≤ 256) (hends : Span.Tight t)
    (hc : (⟨m, t.length, n, .table t⟩ : Slots α).child c = some y) : ∃ j, Cleared m t (t.set (c.toNat - m.toNat) none) j c := by
  obtain ⟨j, hj, hget⟩ := entry_some hc
  dsimp only [entries] at hj hget
  have hlt := (List.getElem?_eq_some_iff.mp hget).1
  rw [show c.toNat - m.toNat = j by omega]
  have hcount := count_set hget none
  refine ⟨j, hj, hlt, length_set, hfit, hlen, hends, ?_, ?_, by simpa using hcount, child_comp m.toNat t c none j hj.symm hlt⟩
  · rw [getElem?_set_self hlt]
    rfl
  · intro i hi
    rw [getElem?_set_ne (Ne.symm hi)]

variable {m : UInt8} {n j : ℕ} {t u : List (Option α)}

theorem Cleared.min_iff (h : Cleared m t u j c) : c = m ↔ j = 0 := by
  have := h.position
  rw [← UInt8.toNat_inj]
  omega

theorem Cleared.right_iff (h : Cleared m t u j c) :
    c.toNat = m.toNat + t.length - 1 ↔ j = t.length - 1 := by
  have := h.position
  have := h.long
  omega

theorem Cleared.two (h : Cleared m t u j c) : 1 < t.countP isSome :=
  tight_two h.ends h.long

theorem Cleared.first (h : Cleared m t u j c) (hj : j ≠ 0) : (u[0]?).join ≠ none := by
  rw [h.other 0 (Ne.symm hj)]
  exact h.ends.1

theorem Cleared.last (h : Cleared m t u j c) (hj : j ≠ t.length - 1) : (u[t.length - 1]?).join ≠ none := by
  rw [h.other _ (Ne.symm hj)]
  exact h.ends.2

theorem Cleared.children (h : Cleared m t u j c) {s' : Slots α} (hs : ∀ c', s'.child c' = entry m.toNat u c'.toNat) :
    s'.child = update (⟨m, t.length, n, .table t⟩ : Slots α).child c none := by
  rw [funext hs, h.child]
  rfl

theorem compact_spec (h : Cleared m t u j c) (hn : 1 < u.countP isSome) :
    ∃ s', compact ⟨m, t.length, n, .table t⟩ u (u.countP isSome) c = .ok s' ∧ s'.Wf ∧
      s'.child = update (⟨m, t.length, n, .table t⟩ : Slots α).child c none := by
  have hlen := h.length
  have hfit := h.fits
  have hlt := h.lt
  have hm0 : m + UInt8.ofNat 0 = m := by simp
  unfold compact
  simp only [h.min_iff, h.right_iff]
  by_cases h0 : j = 0
  · obtain ⟨i, hi, hi0, hilt, hlive, hbefore⟩ := scan_spec (h0 ▸ h.here) (by omega)
    rw [if_pos h0, hi]
    obtain ⟨h1, h2⟩ := trim_wf (m := m) (t := u) (i := i) (k := t.length - i) (by omega) hbefore
      (fun k hk => by rw [getElem?_eq_none (by omega)]; rfl) hlive
      (by rw [show i + (t.length - i) - 1 = t.length - 1 by omega]; exact h.last (by omega))
      (by omega) hn
    rw [take_of_length_le (by rw [length_drop]; omega)] at h1 h2
    exact ⟨_, rfl, h1, h.children h2⟩
  · by_cases hr : j = t.length - 1
    · have hrev : (u.reverse[0]?).join = none := by
        rw [getElem?_reverse_join (by omega), show u.length - 1 - 0 = j by omega]
        exact h.here
      obtain ⟨i, hi, hi0, hilt, hlive, hbefore⟩ := scan_spec hrev
        (by rw [countP_reverse]; omega)
      rw [length_reverse] at hilt
      rw [if_neg h0, if_pos hr, hi]
      obtain ⟨h1, h2⟩ := trim_wf (m := m) (t := u) (i := 0) (k := t.length - i) (by omega) (by simp)
        (by
          intro k hk
          by_cases hku : k < u.length
          · have := hbefore (u.length - 1 - k) (by omega)
            rwa [getElem?_reverse_join (by omega),
              show u.length - 1 - (u.length - 1 - k) = k by omega] at this
          · rw [getElem?_eq_none (by omega)]
            rfl)
        (h.first h0)
        (by
          rw [getElem?_reverse_join hilt] at hlive
          rwa [show 0 + (t.length - i) - 1 = u.length - 1 - i by omega])
        (by omega) hn
      rw [hm0] at h1 h2
      exact ⟨_, rfl, h1, h.children h2⟩
    · rw [if_neg h0, if_neg hr]
      refine ⟨_, rfl, ?_, h.children fun c' => rfl⟩
      have := Wf.table (m := m) (n := u.countP isSome) (t := u) (by omega) (by omega) rfl
        ⟨h.first h0, by rw [hlen]; exact h.last hr⟩
      rwa [hlen] at this

end Slots

end Zmq
