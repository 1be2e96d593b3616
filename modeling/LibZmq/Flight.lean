import Mathlib.Tactic

/-! Messages in flight between parties, oldest first. Messages from one party to another arrive in the order in which
they were sent; messages between other parties may overtake them. -/

namespace Zmq

universe u v

structure Packet (A : Type u) (C : Type v) where
  src : A
  dst : A
  cmd : C

namespace Packet

variable {A : Type u} {C : Type v} [DecidableEq A] {x y : A} {l : List (Packet A C)} {m : Packet A C}

def goes (x y : A) (m : Packet A C) : Bool := m.src = x ∧ m.dst = y

def next (x y : A) (l : List (Packet A C)) : Option (Packet A C) := l.find? (goes x y)

def rest (x y : A) (l : List (Packet A C)) : List (Packet A C) := l.eraseP (goes x y)

theorem goes_iff : goes x y m = true ↔ m.src = x ∧ m.dst = y := by simp [goes]

theorem next_spec (h : next x y l = some m) : ∃ older newer, l = older ++ m :: newer ∧ rest x y l = older ++ newer ∧
    (∀ n ∈ older, ¬ (n.src = x ∧ n.dst = y)) ∧ m.src = x ∧ m.dst = y := by
  obtain ⟨hm, older, newer, hl, hold⟩ := List.find?_eq_some_iff_append.mp h
  refine ⟨older, newer, hl, ?_, fun n hn hc => ?_, goes_iff.mp hm⟩
  · rw [rest, hl, List.eraseP_append_right _ (fun n hn => by simpa using hold n hn), List.eraseP_cons_of_pos hm]
  · have := hold n hn
    rw [goes_iff.mpr hc] at this
    exact absurd this (by simp)

end Packet

end Zmq
