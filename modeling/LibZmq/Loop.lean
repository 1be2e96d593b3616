import Mathlib.Tactic

/-! Loops that may not end: what a loop returns when it is given enough rounds, that it returns, and that it does not. -/

namespace Zmq

universe u v

/-- What one round of a loop leads to. -/
inductive Round (σ : Type u) (ρ : Type v) where
  | again (s : σ)
  | done (r : ρ)

namespace Round

variable {σ : Type u} {ρ : Type v} {round : σ → Round σ ρ} {s s' : σ} {r r' : ρ} {n m : ℕ}

/-- What the loop returns within `n` rounds. -/
def rounds (round : σ → Round σ ρ) : ℕ → σ → Option ρ
  | 0, _ => none
  | n + 1, s =>
    match round s with
    | .again s' => rounds round n s'
    | .done r => some r

/-- With enough rounds the loop returns `r`. -/
def Returns (round : σ → Round σ ρ) (s : σ) (r : ρ) : Prop := ∃ n, rounds round n s = some r

/-- No number of rounds is enough. -/
def Diverges (round : σ → Round σ ρ) (s : σ) : Prop := ∀ n, rounds round n s = none

theorem rounds_done (h : round s = .done r) : rounds round (n + 1) s = some r := by
  unfold rounds
  rw [h]

theorem rounds_again (h : round s = .again s') : rounds round (n + 1) s = rounds round n s' := by
  simp only [rounds, h]

theorem rounds_more (h : rounds round n s = some r) : rounds round (n + m) s = some r := by
  induction n generalizing s with
  | zero => exact nomatch h
  | succ n ih =>
    rw [Nat.add_right_comm]
    cases hs : round s with
    | done r' =>
      rw [rounds_done hs] at h ⊢
      exact h
    | again s' =>
      rw [rounds_again hs] at h ⊢
      exact ih h

namespace Returns

theorem done (h : round s = .done r) : Returns round s r := ⟨1, rounds_done h⟩

theorem again (h : round s = .again s') (hr : Returns round s' r) : Returns round s r := by
  obtain ⟨n, hn⟩ := hr
  exact ⟨n + 1, (rounds_again h).trans hn⟩

theorem unique (h : Returns round s r) (h' : Returns round s r') : r = r' := by
  obtain ⟨n, hn⟩ := h
  obtain ⟨m, hm⟩ := h'
  have hn' := rounds_more (m := m) hn
  have hm' := rounds_more (m := n) hm
  rw [Nat.add_comm, hn'] at hm'
  exact Option.some.inj hm'

theorem rule (hr : Returns round s r) (I : σ → Prop) (h0 : I s) (hstep : ∀ s s', I s → round s = .again s' → I s') :
    ∃ s', I s' ∧ round s' = .done r := by
  obtain ⟨n, hn⟩ := hr
  induction n generalizing s with
  | zero => exact nomatch hn
  | succ n ih =>
    cases hs : round s with
    | done r' =>
      rw [rounds_done hs] at hn
      exact ⟨s, h0, by rw [hs, Option.some.inj hn]⟩
    | again s' =>
      rw [rounds_again hs] at hn
      exact ih (hstep s s' h0 hs) hn

end Returns

theorem returns_of_measure (I : σ → Prop) (f : σ → ℕ) (h0 : I s)
    (hstep : ∀ s s', I s → round s = .again s' → I s' ∧ f s' < f s) : ∃ r, Returns round s r := by
  induction hf : f s using Nat.strong_induction_on generalizing s with
  | _ n ih =>
    cases hs : round s with
    | done r => exact ⟨r, .done hs⟩
    | again s' =>
      obtain ⟨hi, hlt⟩ := hstep s s' h0 hs
      obtain ⟨r, hr⟩ := ih (f s') (hf ▸ hlt) hi rfl
      exact ⟨r, hr.again hs⟩

theorem diverges_of_invariant (I : σ → Prop) (h0 : I s) (hstep : ∀ s, I s → ∃ s', round s = .again s' ∧ I s') :
    Diverges round s := by
  intro n
  induction n generalizing s with
  | zero => rfl
  | succ n ih =>
    obtain ⟨s', hs, hi⟩ := hstep s h0
    rw [rounds_again hs]
    exact ih hi

theorem Diverges.not_returns (h : Diverges round s) : ¬ Returns round s r := by
  intro hr
  obtain ⟨n, hn⟩ := hr
  exact nomatch (h n).symm.trans hn

end Round

end Zmq
