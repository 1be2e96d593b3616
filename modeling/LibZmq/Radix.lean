import Mathlib.Tactic

/-! Numbers spelled with a fixed number of digits, the most significant one first. -/

namespace Zmq

open List

namespace Radix

variable {b n v : ℕ} {ds : List ℕ}

/-- The number that digits stand for. -/
def value (b : ℕ) (ds : List ℕ) : ℕ := Nat.ofDigits b ds.reverse

def spell (b : ℕ) : ℕ → ℕ → List ℕ
  | 0, _ => []
  | n + 1, v => v / b ^ n % b :: spell b n v

theorem value_append (ds ds' : List ℕ) : value b (ds ++ ds') = value b ds * b ^ ds'.length + value b ds' := by
  unfold value
  rw [reverse_append, Nat.ofDigits_append, length_reverse]
  ring

theorem value_snoc (ds : List ℕ) (d : ℕ) : value b (ds ++ [d]) = value b ds * b + d := by
  rw [value_append]
  simp [value]

theorem value_cons (d : ℕ) (ds : List ℕ) : value b (d :: ds) = d * b ^ ds.length + value b ds := by
  rw [← singleton_append, value_append]
  simp [value]

theorem value_lt (hb : 1 < b) (h : ∀ d ∈ ds, d < b) : value b ds < b ^ ds.length := by
  unfold value
  rw [← length_reverse]
  apply Nat.ofDigits_lt_base_pow_length hb
  intro d hd
  exact h d (mem_reverse.mp hd)

@[simp] theorem spell_length : (spell b n v).length = n := by
  induction n with
  | zero => rfl
  | succ n ih => rw [spell, length_cons, ih]

theorem spell_eq_map : spell b n v = ((range n).map (b ^ ·)).reverse.map (v / · % b) := by
  induction n with
  | zero => rfl
  | succ n ih => simp [spell, ih, range_succ]

theorem spell_lt (hb : 0 < b) : ∀ d ∈ spell b n v, d < b := by
  induction n with
  | zero => simp [spell]
  | succ n ih =>
    intro d hd
    rcases mem_cons.mp hd with rfl | hd
    · exact Nat.mod_lt _ hb
    · exact ih d hd

theorem value_spell : value b (spell b n v) = v % b ^ n := by
  induction n with
  | zero => simp [spell, value, Nat.mod_one]
  | succ n ih =>
    rw [spell, value_cons, spell_length, ih, Nat.mod_pow_succ]
    ring

theorem spell_value (hb : 1 < b) (h : ∀ d ∈ ds, d < b) : spell b ds.length (value b ds) = ds := by
  apply reverse_injective
  apply Nat.ofDigits_inj_of_len_eq hb
  · simp
  · intro d hd
    exact spell_lt (Nat.lt_of_succ_lt hb) d (mem_reverse.mp hd)
  · intro d hd
    exact h d (mem_reverse.mp hd)
  · change value b (spell b ds.length (value b ds)) = value b ds
    rw [value_spell, Nat.mod_eq_of_lt (value_lt hb h)]

end Radix

end Zmq
