import Mathlib.Tactic

/-! `array_t`, whose items know where they are. Since all of its users compare positions
with the bounds of segments, what an operation does is said by the positions after it. -/

namespace Zmq

open List

universe u

/-- An item has one index only, so it is in one place only. -/
structure ArrayT (T : Type u) where
  items : List T
  nodup : items.Nodup

namespace ArrayT

variable {T : Type u}

instance : Membership T (ArrayT T) := ⟨fun a x => x ∈ a.items⟩

def empty : ArrayT T := ⟨[], nodup_nil⟩

def size (a : ArrayT T) : ℕ := a.items.length

/-- `items [i]`, `none` out of bounds -/
def get (a : ArrayT T) (i : ℕ) : Option T := a.items[i]?

def swap (a : ArrayT T) (i j : ℕ) : ArrayT T :=
  if h : i < a.size ∧ j < a.size then
    ⟨(a.items.set i (a.items.get ⟨j, h.2⟩)).set j (a.items.get ⟨i, h.1⟩), (set_set_perm h.1 h.2).nodup_iff.mpr a.nodup⟩
  else a

variable [DecidableEq T]

def index (a : ArrayT T) (x : T) : ℕ := a.items.idxOf x

instance (a : ArrayT T) (x : T) : Decidable (x ∈ a) := inferInstanceAs (Decidable (x ∈ a.items))

def pushBack (a : ArrayT T) (x : T) : ArrayT T :=
  if h : x ∈ a then a else ⟨a.items ++ [x], nodup_append.mpr ⟨a.nodup, nodup_singleton x, by
    intro y hy z hz
    rw [mem_singleton.mp hz]
    rintro rfl
    exact h hy⟩⟩

/-- The last item takes the place of the one that is erased. -/
def erase (a : ArrayT T) (x : T) : ArrayT T :=
  if x ∈ a then ⟨(a.swap (a.index x) (a.size - 1)).items.dropLast, (dropLast_sublist _).nodup (ArrayT.nodup _)⟩
  else a

variable {a : ArrayT T} {x y : T} {i j k : ℕ} {n : ℕ}

theorem index_lt : a.index x < a.size ↔ x ∈ a := idxOf_lt_length_iff

theorem index_le : a.index x ≤ a.size := idxOf_le_length

theorem get_iff : a.get i = some x ↔ x ∈ a ∧ a.index x = i := by
  constructor
  · intro h
    have hmem := mem_of_getElem? h
    obtain ⟨hi, hx⟩ := List.getElem?_eq_some_iff.mp h
    exact ⟨hmem, hx ▸ List.Nodup.idxOf_getElem a.nodup i hi⟩
  · rintro ⟨hmem, rfl⟩
    exact getElem?_idxOf hmem

theorem index_inj (hx : x ∈ a) : a.index x = a.index y ↔ x = y := idxOf_inj hx

section

omit [DecidableEq T]

@[simp] theorem size_swap : (a.swap i j).size = a.size := by
  unfold swap size
  split_ifs <;> simp

@[simp] theorem mem_swap : x ∈ a.swap i j ↔ x ∈ a := by
  unfold swap
  split_ifs with h
  · exact (set_set_perm h.1 h.2).mem_iff
  · rfl

theorem get_lt (h : i < a.size) : ∃ x, a.get i = some x := ⟨_, getElem?_eq_getElem h⟩

theorem get_swap (hi : i < a.size) (hj : j < a.size) (k : ℕ) :
    (a.swap i j).get k = if k = j then a.get i else if k = i then a.get j else a.get k := by
  have hi' : i < a.items.length := hi
  have hj' : j < a.items.length := hj
  rw [swap, dif_pos ⟨hi', hj'⟩]
  simp only [get, getElem?_set, length_set, hi', hj', if_true, getElem?_eq_getElem, eq_comm (b := k)]
  rfl

end

theorem index_of_notMem (h : x ∉ a) : a.index x = a.size :=
  Nat.le_antisymm index_le (Nat.le_of_not_lt fun hx => h (index_lt.mp hx))

theorem index_swap (hi : i < a.size) (hj : j < a.size) (x : T) :
    (a.swap i j).index x = if a.index x = i then j else if a.index x = j then i else a.index x := by
  by_cases hx : x ∈ a
  · have hget : a.get (a.index x) = some x := get_iff.mpr ⟨hx, rfl⟩
    refine (get_iff.mp ?_).2
    rw [get_swap hi hj]
    split_ifs <;> simp_all
  · have hx' : x ∉ a.swap i j := fun h => hx (mem_swap.mp h)
    rw [index_of_notMem hx', size_swap, index_of_notMem hx, if_neg (by omega), if_neg (by omega)]

theorem size_pushBack (h : x ∉ a) : (a.pushBack x).size = a.size + 1 := by
  rw [pushBack, dif_neg h]
  simp [size]

theorem mem_pushBack : y ∈ a.pushBack x ↔ y ∈ a ∨ y = x := by
  unfold pushBack
  split_ifs with h
  · exact ⟨Or.inl, fun hy => hy.elim id fun hx => hx ▸ h⟩
  · exact mem_append.trans (or_congr_right mem_singleton)

theorem index_pushBack (h : x ∉ a) (y : T) :
    (a.pushBack x).index y = if y ∈ a then a.index y else if y = x then a.size else a.size + 1 := by
  rw [pushBack, dif_neg h, index]
  by_cases hy : y ∈ a
  · rw [if_pos hy]
    exact idxOf_append_of_mem hy
  · rw [if_neg hy, idxOf_append_of_notMem hy]
    split_ifs with hyx
    · subst hyx
      simp [size]
    · simp [size, idxOf_cons_ne _ (Ne.symm hyx)]

theorem swap_last (h : x ∈ a) : (a.swap (a.index x) (a.size - 1)).items = (a.erase x).items ++ [x] := by
  have hi := index_lt.mpr h
  have hlast : (a.swap (a.index x) (a.size - 1)).get (a.size - 1) = some x := by
    rw [get_swap hi (by omega), if_pos rfl]
    exact get_iff.mpr ⟨h, rfl⟩
  have hget : (a.swap (a.index x) (a.size - 1)).get ((a.swap (a.index x) (a.size - 1)).size - 1) = some x := by
    rwa [size_swap]
  rw [erase, if_pos h]
  refine (dropLast_append_getLast? x ?_).symm
  rw [getLast?_eq_getElem?]
  exact hget

theorem size_erase (h : x ∈ a) : (a.erase x).size = a.size - 1 := by
  have := congrArg length (swap_last h)
  rw [length_append, length_singleton] at this
  change (a.swap _ _).size = (a.erase x).size + 1 at this
  rw [size_swap] at this
  omega

theorem mem_erase (h : x ∈ a) : y ∈ a.erase x ↔ y ∈ a ∧ y ≠ x := by
  have hnodup := (a.swap (a.index x) (a.size - 1)).nodup
  rw [swap_last h] at hnodup
  have hmem : y ∈ a ↔ y ∈ a.erase x ∨ y = x := by
    rw [← mem_swap (i := a.index x) (j := a.size - 1)]
    change y ∈ (a.swap _ _).items ↔ _
    rw [swap_last h, mem_append, mem_singleton]
    rfl
  rw [hmem]
  constructor
  · intro hy
    refine ⟨Or.inl hy, ?_⟩
    rintro rfl
    exact disjoint_of_nodup_append hnodup hy (mem_singleton_self y)
  · rintro ⟨hy | hy, hne⟩
    · exact hy
    · exact absurd hy hne

theorem index_erase (h : x ∈ a) (hy : y ∈ a) (hne : y ≠ x) :
    (a.erase x).index y = if a.index y = a.size - 1 then a.index x else a.index y := by
  have hi := index_lt.mpr h
  have hin : y ∈ (a.erase x).items := (mem_erase h).mpr ⟨hy, hne⟩
  have hswap : (a.swap (a.index x) (a.size - 1)).index y = (a.erase x).index y := by
    rw [index, swap_last h, idxOf_append_of_mem hin]
    rfl
  rw [← hswap, index_swap hi (by omega), if_neg fun hx => hne ((index_inj hy).mp hx)]

/-! Segments at the beginning: the items whose index is below a bound. -/

omit [DecidableEq T] in
theorem swap_comm (a : ArrayT T) (i j : ℕ) : a.swap i j = a.swap j i := by
  by_cases h : i < a.size ∧ j < a.size
  · have hget : ∀ k, (a.swap i j).get k = (a.swap j i).get k := by
      intro k
      rw [get_swap h.1 h.2, get_swap h.2 h.1]
      split_ifs with h1 h2
      · rw [← h1, h2]
      · rfl
      · rfl
      · rfl
    have hitems := ext_getElem? hget
    cases hb : a.swap i j
    cases hc : a.swap j i
    rw [hb, hc] at hitems
    congr
  · rw [swap, dif_neg h, swap, dif_neg fun h' => h h'.symm]

omit [DecidableEq T] in
theorem swap_self (a : ArrayT T) (i : ℕ) : a.swap i i = a := by
  unfold swap
  split_ifs with h
  · have hset : a.items.set i (a.items.get ⟨i, h.1⟩) = a.items := set_getElem_self h.1
    cases a
    simp only [hset]
  · rfl

theorem join_lt (hx : x ∈ a) (hn : n ≤ a.index x) (hy : y ∈ a) :
    (a.swap (a.index x) n).index y < n + 1 ↔ a.index y < n ∨ y = x := by
  have hi := index_lt.mpr hx
  rw [index_swap hi (by omega), ← index_inj hy]
  split_ifs <;> omega

theorem leave_lt (hi : a.index x < n) (hn : n ≤ a.size) (hy : y ∈ a) :
    (a.swap (a.index x) (n - 1)).index y < n - 1 ↔ a.index y < n ∧ y ≠ x := by
  rw [index_swap (by omega) (by omega), ne_eq, ← index_inj hy]
  split_ifs <;> omega

theorem swap_lt (hi : i < a.size) (hj : j < a.size) (h : i < n ↔ j < n) (y : T) : (a.swap i j).index y < n ↔ a.index y < n := by
  rw [index_swap hi hj]
  split_ifs <;> omega

theorem index_swap_left (hx : x ∈ a) (hj : j < a.size) : (a.swap (a.index x) j).index x = j := by
  rw [index_swap (index_lt.mpr hx) hj, if_pos rfl]

theorem erase_lt (hx : x ∈ a) (hn : n ≤ a.index x) : y ∈ a.erase x ∧ (a.erase x).index y < n ↔ y ∈ a ∧ a.index y < n := by
  have hi := index_lt.mpr hx
  constructor
  · rintro ⟨hm, hlt⟩
    obtain ⟨hy, hne⟩ := (mem_erase hx).mp hm
    rw [index_erase hx hy hne] at hlt
    refine ⟨hy, ?_⟩
    split_ifs at hlt <;> omega
  · rintro ⟨hy, hlt⟩
    have hne : y ≠ x := by
      rintro rfl
      omega
    refine ⟨(mem_erase hx).mpr ⟨hy, hne⟩, ?_⟩
    rw [index_erase hx hy hne]
    split_ifs <;> omega

/-- An item leaves the segment of the first `n` items, if it is in it: the segment and its new bound. -/
def demote (a : ArrayT T) (x : T) (n : ℕ) : ArrayT T × ℕ :=
  if a.index x < n then (a.swap (a.index x) (n - 1), n - 1) else (a, n)

structure Demoted (a : ArrayT T) (x : T) (n : ℕ) (a' : ArrayT T) (n' : ℕ) : Prop where
  size : a'.size = a.size
  mem : ∀ y, y ∈ a' ↔ y ∈ a
  bound : n' = if a.index x < n then n - 1 else n
  lt : ∀ y ∈ a, (a'.index y < n' ↔ a.index y < n ∧ y ≠ x)
  outer : ∀ m, n ≤ m → m ≤ a.size → ∀ y, a'.index y < m ↔ a.index y < m
  inner : ∀ m ≤ a.index x, ∀ y, a'.index y < m ↔ a.index y < m

theorem demote_demoted (hn : n ≤ a.size) : Demoted a x n (a.demote x n).1 (a.demote x n).2 := by
  unfold demote
  by_cases h : a.index x < n
  · rw [if_pos h]
    refine ⟨size_swap, fun y => mem_swap, (if_pos h).symm, fun y hy => leave_lt h hn hy, fun m h1 h2 y => ?_, fun m hm y => ?_⟩
    · exact swap_lt (by omega) (by omega) (by omega) y
    · exact swap_lt (by omega) (by omega) (by omega) y
  · rw [if_neg h]
    refine ⟨rfl, fun y => Iff.rfl, (if_neg h).symm, fun y hy => ?_, fun _ _ _ _ => Iff.rfl, fun _ _ _ => Iff.rfl⟩
    rw [iff_self_and]
    rintro hlt rfl
    exact h hlt

theorem Demoted.self {n n' : ℕ} {a' : ArrayT T} (h : Demoted a x n a' n') (hx : x ∈ a) : n' ≤ a'.index x :=
  Nat.le_of_not_lt fun hlt => ((h.lt x hx).mp hlt).2 rfl

end ArrayT

end Zmq
