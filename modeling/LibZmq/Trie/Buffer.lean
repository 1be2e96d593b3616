import LibZmq.Trie.Slots

/-! The buffer in which a walk over a trie spells out the string it is at. All levels
of the recursion share it; each knows only a size it had when that level began. -/

namespace Zmq

open List

/-- The bytes of `*buff_`, and what the function was called with so far. -/
structure Buff where
  bytes : List UInt8
  calls : List (List UInt8)

namespace Buff

def empty : Buff := ⟨[], []⟩

/-- `func_ (*buff_, buffsize_, arg_)` -/
def call (b : Buff) (buffsize : ℕ) : Except TrieFault Buff :=
  if b.bytes.length < buffsize then .error .outOfBounds
  else .ok { b with calls := b.calls ++ [b.bytes.take buffsize] }

/-- The call made only for a node that is stored. -/
def callIf (b : Buff) (c : Bool) (buffsize : ℕ) : Except TrieFault Buff :=
  if c then b.call buffsize else .ok b

def realloc (b : Buff) (n : ℕ) : Buff :=
  { b with bytes := b.bytes.take n ++ replicate (n - b.bytes.length) 0 }

/-- `if (buffsize_ >= maxbuffsize_)`: the new `maxbuffsize_` and the buffer. -/
def adjust (b : Buff) (buffsize maxbuffsize : ℕ) : ℕ × Buff :=
  if buffsize ≥ maxbuffsize then (buffsize + 256, b.realloc (buffsize + 256)) else (maxbuffsize, b)

def put (b : Buff) (i : ℕ) (c : UInt8) : Except TrieFault Buff :=
  if i < b.bytes.length then .ok { b with bytes := b.bytes.set i c } else .error .outOfBounds

structure Spells (b : Buff) (path : List UInt8) (maxbuffsize : ℕ) : Prop where
  spelled : b.bytes.take path.length = path
  size : path.length ≤ maxbuffsize
  room : maxbuffsize ≤ b.bytes.length

variable {b : Buff} {path : List UInt8} {n : ℕ} {c : UInt8}

theorem empty_spells : empty.Spells [] 0 := ⟨rfl, Nat.le_refl 0, Nat.le_refl 0⟩

theorem call_eq (h : b.Spells path n) : b.call path.length = .ok { b with calls := b.calls ++ [path] } := by
  have h1 := h.size
  have h2 := h.room
  rw [call, if_neg (by omega), h.spelled]

theorem callIf_eq (h : b.Spells path n) (c : Bool) :
    b.callIf c path.length = .ok { b with calls := b.calls ++ if c then [path] else [] } := by
  cases c with
  | true => exact call_eq h
  | false => simp [callIf]

theorem adjust_spells (h : b.Spells path n) : (b.adjust path.length n).2.Spells path (b.adjust path.length n).1 ∧
      (b.adjust path.length n).2.calls = b.calls ∧ path.length < (b.adjust path.length n).1 ∧ n ≤ (b.adjust path.length n).1 := by
  have h1 := h.size
  have h2 := h.room
  unfold adjust
  split_ifs with hx
  · refine ⟨⟨?_, by dsimp only; omega, ?_⟩, rfl, by dsimp only; omega, by dsimp only; omega⟩
    · dsimp only [realloc]
      rw [take_append_of_le_length (by rw [length_take]; omega), take_take,
        Nat.min_eq_left (by omega), h.spelled]
    · simp only [realloc, length_append, length_take, length_replicate]
      omega
  · exact ⟨h, rfl, by dsimp only; omega, Nat.le_refl n⟩

theorem put_spells (h : b.Spells path n) (hn : path.length < n) (c : UInt8) :
    ∃ b', b.put path.length c = .ok b' ∧ b'.calls = b.calls ∧ b'.Spells (path ++ [c]) n := by
  have h2 := h.room
  have hlt : path.length < b.bytes.length := by omega
  refine ⟨{ b with bytes := b.bytes.set path.length c }, by rw [put, if_pos hlt], rfl, ?_, ?_, ?_⟩
  · rw [length_append, length_singleton, take_add_one, getElem?_set_self hlt, take_set_of_le (Nat.le_refl _), h.spelled]
    rfl
  · rw [length_append, length_singleton]
    omega
  · rw [length_set]
    omega

theorem Spells.up (h : b.Spells (path ++ [c]) n) : b.Spells path n := by
  have h1 := h.size
  rw [length_append, length_singleton] at h1
  refine ⟨?_, by omega, h.room⟩
  have h2 := congrArg (take path.length) h.spelled
  rw [take_take, take_left] at h2
  rwa [Nat.min_eq_left (by simp)] at h2

theorem Spells.mono {m : ℕ} (h : b.Spells path n) (hm : path.length ≤ m) (hn : m ≤ n) :
    b.Spells path m := ⟨h.spelled, hm, Nat.le_trans hn h.room⟩

end Buff

end Zmq
