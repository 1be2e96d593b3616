import Mathlib.Tactic

/-! A list of optional entries that starts at some position, as a partial function
on positions: it stays the same function when empty entries at either end come or go. -/

namespace Zmq

open List Option

universe u

variable {α : Type u}

/-- The entry at position `i` of a list that starts at position `m`. -/
def entry (m : ℕ) (t : List (Option α)) (i : ℕ) : Option α :=
  if m ≤ i then (t[i - m]?).join else none

namespace Span

variable {m i j k : ℕ} {t : List (Option α)} {p : Option α} {x : α}

theorem entry_at (h : t[j]? = some p) : entry m t (m + j) = p := by
  simp [entry, h]

theorem entry_out (h : i < m ∨ m + t.length ≤ i) : entry m t i = none := by
  unfold entry
  split_ifs with hm
  · rw [getElem?_eq_none (by omega)]
    rfl
  · rfl

theorem entry_some (h : entry m t i = some x) : ∃ j, i = m + j ∧ t[j]? = some (some x) := by
  unfold entry at h
  split_ifs at h with hm
  exact ⟨i - m, by omega, join_eq_some_iff.mp h⟩

theorem entry_nil : entry m ([] : List (Option α)) = fun _ => none := by
  funext i
  exact entry_out (by simp; omega)

theorem entry_cons : entry m (p :: t) = fun i => if i = m then p else entry (m + 1) t i := by
  funext i
  unfold entry
  by_cases h : i = m
  · simp [h]
  · rw [if_neg h]
    by_cases hm : m ≤ i
    · rw [if_pos hm, if_pos (by omega), show i - m = i - (m + 1) + 1 by omega, getElem?_cons_succ]
    · rw [if_neg hm, if_neg (by omega)]

theorem entry_none : entry m (none :: t) = entry (m + 1) t := by
  rw [entry_cons]
  funext i
  split_ifs with hi
  · rw [hi, entry_out (.inl (Nat.lt_succ_self m))]
  · rfl

theorem entry_singleton : entry m [p] = Function.update (fun _ => none) m p := by
  funext i
  by_cases h : i = m
  · subst h
    simp [entry]
  · rw [Function.update_of_ne h]
    exact entry_out (by simp; omega)

theorem entry_set (h : j < t.length) : entry m (t.set j p) = Function.update (entry m t) (m + j) p := by
  funext i
  by_cases hi : i = m + j
  · rw [hi, Function.update_self, entry_at (p := p)]
    simp [h]
  · rw [Function.update_of_ne hi]
    unfold entry
    split_ifs with hm
    · rw [getElem?_set_ne (by omega)]
    · rfl

theorem entry_above : entry m (t ++ replicate k none) = entry m t := by
  funext i
  unfold entry
  split_ifs with hm
  · by_cases hi : i - m < t.length
    · rw [getElem?_append_left hi]
    · rw [getElem?_append_right (by omega), getElem?_replicate,
        getElem?_eq_none (by omega : t.length ≤ i - m)]
      split_ifs <;> rfl
  · rfl

theorem entry_below (hk : k ≤ m) : entry (m - k) (replicate k none ++ t) = entry m t := by
  funext i
  unfold entry
  by_cases hm : m ≤ i
  · rw [if_pos (by omega), if_pos hm, getElem?_append_right (by simp; omega)]
    rw [length_replicate, show i - (m - k) - k = i - m by omega]
  · split_ifs with hx
    · rw [getElem?_append_left (by simp; omega), getElem?_replicate]
      split_ifs <;> rfl
    · rfl

theorem entry_trim (hl : ∀ j < i, (t[j]?).join = none) (hr : ∀ j, i + k ≤ j → (t[j]?).join = none) :
    entry (m + i) ((t.drop i).take k) = entry m t := by
  funext n
  unfold entry
  by_cases h1 : m + i ≤ n
  · rw [if_pos h1, if_pos (by omega), getElem?_take]
    split_ifs with h2
    · rw [getElem?_drop, show i + (n - (m + i)) = n - m by omega]
    · exact (hr _ (by omega)).symm
  · split_ifs with h2
    · exact (hl _ (by omega)).symm
    · rfl

theorem only_entry (h : t.countP isSome = 1) {y : α} (hi : t[i]? = some (some x))
    (hj : t[j]? = some (some y)) : i = j := by
  induction t generalizing i j with
  | nil => simp at hi
  | cons p t ih =>
    rw [countP_cons] at h
    have hnone : ∀ (n : ℕ) (z : α), t[n]? = some (some z) → 0 < t.countP isSome :=
      fun n z hz => countP_pos_iff.mpr ⟨_, mem_of_getElem? hz, rfl⟩
    cases i with
    | zero =>
      cases j with
      | zero => rfl
      | succ j =>
        obtain rfl : p = some x := by simpa using hi
        have := hnone j y (by simpa using hj)
        simp only [isSome_some, if_true] at h
        omega
    | succ i =>
      have hpos := hnone i x (by simpa using hi)
      cases j with
      | zero =>
        obtain rfl : p = some y := by simpa using hj
        simp only [isSome_some, if_true] at h
        omega
      | succ j =>
        have h' : t.countP isSome = 1 := by
          split_ifs at h <;> omega
        have hij : i = j := ih h' (by simpa using hi) (by simpa using hj)
        rw [hij]

theorem entry_only (h : t.countP isSome = 1) (hi : t[i]? = some (some x)) : entry m t = entry (m + i) [some x] := by
  have hne : ∀ j, j ≠ i → (t[j]?).join = none := by
    intro j hj
    by_contra hn
    obtain ⟨y, hy⟩ := ne_none_iff_exists'.mp hn
    exact hj (only_entry h (join_eq_some_iff.mp hy) hi)
  obtain ⟨hlt, hx⟩ := List.getElem?_eq_some_iff.mp hi
  rw [← entry_trim (i := i) (k := 1) (fun j hj => hne j (by omega)) fun j hj => hne j (by omega),
    drop_eq_getElem_cons hlt, hx, take_succ_cons, take_zero]

/-! How many entries there are, and whether both ends of the list hold one. -/

theorem count_set (h : t[j]? = some p) (q : Option α) :
    (t.set j q).countP isSome + (if p.isSome then 1 else 0) =
      t.countP isSome + if q.isSome then 1 else 0 := by
  obtain ⟨hj, hp⟩ := List.getElem?_eq_some_iff.mp h
  have hpos : p.isSome = true → 0 < t.countP isSome := fun hs =>
    countP_pos_iff.mpr ⟨p, mem_of_getElem? h, hs⟩
  rw [countP_set hj, hp]
  cases p with
  | none => simp
  | some x =>
    have := hpos rfl
    simp only [isSome_some, if_true]
    omega

def Tight (t : List (Option α)) : Prop :=
  (t[0]?).join ≠ none ∧ (t[t.length - 1]?).join ≠ none

theorem tight_set (h0 : j = 0 ∨ (t[0]?).join ≠ none)
    (hl : j + 1 = t.length ∨ (t[t.length - 1]?).join ≠ none) (hj : j < t.length) : Tight (t.set j (some x)) := by
  unfold Tight
  rw [length_set, getElem?_set, getElem?_set]
  constructor
  · split_ifs with h
    · simp
    · rcases h0 with h0 | h0
      · exact absurd h0 h
      · exact h0
  · split_ifs with h
    · simp
    · rcases hl with hl | hl
      · omega
      · exact hl

theorem count_none (h : ∀ j < t.length, (t[j]?).join = none) : t.countP isSome = 0 := by
  rw [countP_eq_zero]
  intro p hp
  obtain ⟨j, hj, rfl⟩ := mem_iff_getElem.mp hp
  have h1 := h j hj
  rw [getElem?_eq_getElem hj] at h1
  rw [show t[j] = none from h1]
  simp

theorem count_trim (hl : ∀ j < i, (t[j]?).join = none) (hr : ∀ j, i + k ≤ j → (t[j]?).join = none) :
    ((t.drop i).take k).countP isSome = t.countP isSome := by
  have h1 : (t.take i).countP isSome = 0 := by
    apply count_none
    intro j hj
    rw [length_take] at hj
    rw [getElem?_take_of_lt (by omega)]
    exact hl j (by omega)
  have h2 : ((t.drop i).drop k).countP isSome = 0 := by
    apply count_none
    intro j _
    rw [drop_drop, getElem?_drop]
    exact hr _ (by omega)
  conv_rhs => rw [← take_append_drop i t, countP_append, h1, Nat.zero_add,
    ← take_append_drop k (t.drop i), countP_append, h2, Nat.add_zero]

/-- The first entry after position 0, as the source looks for it:
`for (i = 1; i < count; ++i) if (table [i]) break`. -/
def scan (t : List (Option α)) : Option ℕ := (t.tail.findIdx? isSome).map (· + 1)

theorem scan_spec (h0 : (t[0]?).join = none) (hpos : 0 < t.countP isSome) :
    ∃ i, scan t = some i ∧ 0 < i ∧ i < t.length ∧ (t[i]?).join ≠ none ∧ ∀ j < i, (t[j]?).join = none := by
  cases t with
  | nil => simp at hpos
  | cons p t =>
    have hp : p = none := by simpa using h0
    subst hp
    rw [countP_cons_of_neg (by simp)] at hpos
    unfold scan
    rw [tail_cons]
    cases hf : t.findIdx? isSome with
    | none =>
      rw [findIdx?_eq_none_iff] at hf
      obtain ⟨q, hq, hs⟩ := countP_pos_iff.mp hpos
      rw [hf q hq] at hs
      cases hs
    | some i =>
      obtain ⟨hi, hs, hj⟩ := findIdx?_eq_some_iff_getElem.mp hf
      refine ⟨i + 1, rfl, by omega, by simpa using hi, ?_, ?_⟩
      · obtain ⟨x, hx⟩ := isSome_iff_exists.mp hs
        simp [hi, hx]
      · intro j hji
        cases j with
        | zero => rfl
        | succ j =>
          have h1 := hj j (by omega)
          simp only [getElem?_cons_succ]
          rw [getElem?_eq_getElem (by omega)]
          simpa using h1

theorem tight_pos (h : Tight t) : 0 < t.countP isSome := by
  obtain ⟨x, hx⟩ := ne_none_iff_exists'.mp h.1
  exact countP_pos_iff.mpr
    ⟨_, mem_of_getElem? (join_eq_some_iff.mp hx), rfl⟩

theorem tight_two (h : Tight t) (hlen : 1 < t.length) : 1 < t.countP isSome := by
  have hpos := tight_pos h
  obtain ⟨x, hx⟩ := ne_none_iff_exists'.mp h.1
  obtain ⟨y, hy⟩ := ne_none_iff_exists'.mp h.2
  by_contra hn
  have := only_entry (by omega) (join_eq_some_iff.mp hx) (join_eq_some_iff.mp hy)
  omega

theorem getElem?_reverse_join (h : j < t.length) : (t.reverse[j]?).join = (t[t.length - 1 - j]?).join := by
  rw [getElem?_reverse h]

end Span

end Zmq
