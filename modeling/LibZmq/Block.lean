import LibZmq.Run

/-! Blocks of memory of a fixed size: what is read lies within what was written, what is written lies within the
block, and anything else stops the program. -/

namespace Zmq

universe u

/-- What stops a program. -/
inductive Crash where
  | outOfBounds
  | assertion
deriving DecidableEq

namespace Block

variable {α : Type u} {b xs ys : List α} {pos n size : ℕ}

def assert (p : Prop) [Decidable p] : Except Crash Unit := if p then .ok () else .error .assertion

def read (b : List α) (pos n : ℕ) : Except Crash (List α) :=
  if pos + n ≤ b.length then .ok ((b.drop pos).take n) else .error .outOfBounds

def append (size : ℕ) (b xs : List α) : Except Crash (List α) :=
  if b.length + xs.length ≤ size then .ok (b ++ xs) else .error .outOfBounds

theorem assert_ok {p : Prop} [Decidable p] (h : p) : assert p = .ok () := if_pos h

theorem assert_eq {p : Prop} [Decidable p] {x : Unit} (h : assert p = .ok x) : p := by
  unfold assert at h
  split_ifs at h with hp
  exact hp

theorem read_ok (h : pos + n ≤ b.length) : read b pos n = .ok ((b.drop pos).take n) := if_pos h

theorem read_eq {r : List α} (h : read b pos n = .ok r) : pos + n ≤ b.length ∧ r = (b.drop pos).take n := by
  unfold read at h
  split_ifs at h with hb
  exact ⟨hb, (Except.ok.inj h).symm⟩

theorem slice_append (hpos : b.length = pos) (hn : xs.length = n) : ((b ++ xs ++ ys).drop pos).take n = xs := by
  subst hpos hn
  rw [List.append_assoc, List.drop_left, List.take_left]

theorem read_append (hpos : b.length = pos) (hn : xs.length = n) : read (b ++ xs ++ ys) pos n = .ok xs := by
  rw [read_ok (by simp only [List.length_append]; omega), slice_append hpos hn]

theorem append_ok (h : b.length + xs.length ≤ size) : append size b xs = .ok (b ++ xs) := if_pos h

theorem append_eq {r : List α} (h : append size b xs = .ok r) : b.length + xs.length ≤ size ∧ r = b ++ xs := by
  unfold append at h
  split_ifs at h with hb
  exact ⟨hb, (Except.ok.inj h).symm⟩

theorem append_error (h : size < b.length + xs.length) : append size b xs = .error .outOfBounds :=
  if_neg (Nat.not_le.mpr h)

def Safe {β : Type u} (x : Except Crash β) : Prop := x ≠ .error .outOfBounds

section Safe

variable {β γ : Type u} {x : Except Crash β} {f : β → Except Crash γ} {a : β}

theorem ok_bind : (.ok a : Except Crash β) >>= f = f a := rfl

theorem error_bind {e : Crash} : (.error e : Except Crash β) >>= f = .error e := rfl

theorem safe_ok : Safe (.ok a : Except Crash β) := nofun

theorem safe_assert {p : Prop} [Decidable p] : Safe (assert p) := by
  unfold assert
  split_ifs <;> exact nofun

theorem Safe.bind (hx : Safe x) (hf : ∀ a, x = .ok a → Safe (f a)) : Safe (x >>= f) := by
  cases x with
  | error e => exact fun h => hx (congrArg _ (Except.error.inj h))
  | ok a => exact hf a rfl

theorem safe_read : Safe (read b pos n) ↔ pos + n ≤ b.length := by
  unfold read
  split_ifs with h
  · exact iff_of_true safe_ok h
  · exact iff_of_false (fun hc => hc rfl) h

end Safe

end Block

end Zmq
