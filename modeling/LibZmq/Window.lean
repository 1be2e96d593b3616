import Mathlib.Tactic

/-! A window between a writer that counts what it writes and a reader that reports
its own count whenever it reaches a multiple of the low mark. Counters are 64 bits
wide and wrap; a mark of 0 stands for none. The window is live when, however the
two go on, the writer is not left blocked on an empty queue. -/

namespace Zmq

structure Window where
  high : ℕ
  low : ℕ
  /-- the writer may write, or a report to it is on its way -/
  waking : Bool
  written : UInt64
  /-- the last count reported -/
  reported : UInt64
  read : UInt64
  /-- what is still to be read, as the reader will count it -/
  queued : ℕ

namespace Window

/-- What the writer has counted and the reader will not. -/
def drift (w : Window) : ℕ := (w.written - w.read - UInt64.ofNat w.queued).toNat

/-- How many reads there are to the next report. -/
def due (w : Window) : ℕ := min (w.low - w.read.toNat % w.low) (2 ^ 64 - w.read.toNat)

/-- How much may be written before the writer blocks. -/
def room (w : Window) : ℕ := w.high - (w.written - w.reported).toNat

def Live (w : Window) : Prop :=
  w.high = 0 ∧ w.waking = true ∨ 0 < w.low ∧ (w.high = 0 ∨ w.low + w.drift ≤ w.high) ∧
      w.due ≤ w.queued + if w.waking then w.room else 0

instance (w : Window) : Decidable w.Live := by
  unfold Live
  infer_instance

variable {w : Window}

theorem written_eq (w : Window) : w.written = w.read + UInt64.ofNat (w.queued + w.drift) := by
  rw [UInt64.ofNat_add, drift, UInt64.ofNat_toNat]
  grind

theorem live_report (hl : 0 < w.low) (h : w.high = 0 ∨ w.low + w.drift ≤ w.high) :
    ({ w with reported := w.read, waking := true } : Window).Live := by
  rcases h with h | h
  · exact .inl ⟨h, rfl⟩
  · refine .inr ⟨hl, .inr h, ?_⟩
    have hu : (w.written - w.read).toNat ≤ w.queued + w.drift := by
      rw [written_eq w, show w.read + UInt64.ofNat (w.queued + w.drift) - w.read =
        UInt64.ofNat (w.queued + w.drift) by grind]
      exact Nat.mod_le _ _
    have hd : ({ w with reported := w.read, waking := true } : Window).due ≤ w.low := by
      dsimp only [due]
      omega
    simp only [if_true, room]
    omega

theorem live_open (h : w.Live) (hq : w.queued = 0) :
    w.waking = true ∧ (w.high = 0 ∨ (w.written - w.reported).toNat < w.high) := by
  rcases h with ⟨h0, hw⟩ | ⟨hl, -, hd⟩
  · exact ⟨hw, .inl h0⟩
  · have hdue : 0 < w.due := by
      have h1 := Nat.mod_lt w.read.toNat hl
      have h2 := w.read.toNat_lt
      unfold due
      omega
    cases hw : w.waking with
    | false =>
      rw [hw] at hd
      simp only [Bool.false_eq_true, if_false] at hd
      omega
    | true =>
      rw [hw] at hd
      simp only [if_true, room] at hd
      exact ⟨rfl, .inr (by omega)⟩

theorem live_write (h : w.Live) (hw : w.waking = true) :
    ({ w with written := w.written + 1, queued := w.queued + 1 } : Window).Live := by
  have hdrift : ({ w with written := w.written + 1, queued := w.queued + 1 } : Window).drift =
      w.drift := by
    unfold drift
    simp only [UInt64.ofNat_add]
    congr 1
    have h1 : UInt64.ofNat 1 = 1 := rfl
    grind
  rcases h with h | ⟨hl, hh, hd⟩
  · exact .inl h
  · refine .inr ⟨hl, by rw [hdrift]; exact hh, ?_⟩
    have hu : (w.written + 1 - w.reported).toNat ≤ (w.written - w.reported).toNat + 1 := by
      rw [show w.written + 1 - w.reported = w.written - w.reported + 1 by grind]
      exact Nat.mod_le _ _
    change w.due ≤ _
    simp only [hw, if_true, room] at hd ⊢
    omega

theorem live_refuse (h : w.Live) (hh : 0 < w.high) (hr : w.room = 0) : ({ w with waking := false } : Window).Live := by
  rcases h with h | ⟨hl, hx, hd⟩
  · omega
  · refine .inr ⟨hl, hx, ?_⟩
    rw [hr, ite_self] at hd
    exact hd

theorem due_succ (hl : 0 < w.low) (h : (w.read + 1).toNat % w.low ≠ 0) (n : ℕ) :
    ({ w with read := w.read + 1, queued := n } : Window).due + 1 = w.due := by
  have h1 : (w.read + 1).toNat = w.read.toNat + 1 := by
    have h2 := w.read.toNat_lt
    rw [UInt64.toNat_add, show (1 : UInt64).toNat = 1 from rfl] at h ⊢
    by_cases h3 : w.read.toNat + 1 < 2 ^ 64
    · exact Nat.mod_eq_of_lt h3
    · rw [show w.read.toNat + 1 = 2 ^ 64 by omega, ] at h
      exact absurd rfl h
  have h4 : (w.read.toNat + 1) % w.low = w.read.toNat % w.low + 1 := by
    rw [h1] at h
    have h5 := Nat.mod_lt w.read.toNat hl
    rw [Nat.add_mod] at h ⊢
    by_cases h6 : w.low = 1
    · rw [h6, Nat.mod_one] at h
      exact absurd rfl h
    · rw [Nat.mod_eq_of_lt (show 1 < w.low by omega)] at h ⊢
      by_cases h7 : w.read.toNat % w.low + 1 < w.low
      · exact Nat.mod_eq_of_lt h7
      · rw [show w.read.toNat % w.low + 1 = w.low by omega, Nat.mod_self] at h
        exact absurd rfl h
  have h7 := (w.read + 1).toNat_lt
  have h8 := Nat.mod_lt (w.read.toNat + 1) hl
  unfold due
  simp only [h1, h4] at h7 h8 ⊢
  omega

theorem drift_read (hq : 0 < w.queued) : ({ w with read := w.read + 1, queued := w.queued - 1 } : Window).drift = w.drift := by
  obtain ⟨n, hn⟩ : ∃ n, w.queued = n + 1 := ⟨w.queued - 1, by omega⟩
  have h1 : UInt64.ofNat 1 = 1 := rfl
  unfold drift
  simp only [hn, Nat.add_sub_cancel, UInt64.ofNat_add, h1]
  congr 1
  grind

theorem live_read (h : w.Live) (hq : 0 < w.queued) :
    ((if 0 < w.low ∧ (w.read + 1).toNat % w.low = 0 then
      { w with
        read := w.read + 1
        queued := w.queued - 1
        reported := w.read + 1
        waking := true }
    else { w with read := w.read + 1, queued := w.queued - 1 }) : Window).Live := by
  have hdrift := drift_read hq
  split_ifs with hr
  · apply live_report (w := { w with read := w.read + 1, queued := w.queued - 1 }) hr.1
    rw [hdrift]
    rcases h with h | ⟨-, hh, -⟩
    · exact .inl h.1
    · exact hh
  · rcases h with h | ⟨hl, hh, hd⟩
    · exact .inl h
    · refine .inr ⟨hl, by rw [hdrift]; exact hh, ?_⟩
      have hs := due_succ hl (fun h0 => hr ⟨hl, h0⟩) (w.queued - 1)
      change _ ≤ w.queued - 1 + if w.waking then w.room else 0
      omega

theorem live_reread (h : w.Live) : ((if 0 < w.low ∧ w.read.toNat % w.low = 0 then { w with reported := w.read, waking := true }
    else w) : Window).Live := by
  split_ifs with hr
  · apply live_report hr.1
    rcases h with h | ⟨-, hh, -⟩
    · exact .inl h.1
    · exact hh
  · exact h

end Window

end Zmq
