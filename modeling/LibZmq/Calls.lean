import Mathlib.Tactic

/-! Sequences of calls on an object that can fail, and an object that says what they
should answer. The one refines the other for as long as each call is allowed, and,
when a call that is not allowed always goes wrong, for exactly as long. -/

namespace Zmq

universe u v w x y

variable {σ : Type u} {τ : Type v} {ι : Type w} {ρ : Type x} {ε : Type y}

/-- The answers of the calls and the object after them, if none fails. -/
def exec (call : σ → ι → Except ε (ρ × σ)) : σ → List ι → Except ε (List ρ × σ)
  | s, [] => .ok ([], s)
  | s, i :: is => do
    let (r, s) ← call s i
    let (rs, s) ← exec call s is
    return (r :: rs, s)

/-- The same for an object that never fails. -/
def answers (spec : τ → ι → ρ × τ) : τ → List ι → List ρ × τ
  | t, [] => ([], t)
  | t, i :: is => ((spec t i).1 :: (answers spec (spec t i).2 is).1, (answers spec (spec t i).2 is).2)

/-- Each call is allowed in the state it is made in. -/
def Allowed (spec : τ → ι → ρ × τ) (allowed : τ → ι → Prop) : τ → List ι → Prop
  | _, [] => True
  | t, i :: is => allowed t i ∧ Allowed spec allowed (spec t i).2 is

instance decidableAllowed (spec : τ → ι → ρ × τ) (allowed : τ → ι → Prop)
    [∀ t i, Decidable (allowed t i)] : (t : τ) → (is : List ι) → Decidable (Allowed spec allowed t is)
  | _, [] => .isTrue trivial
  | t, i :: is =>
    have := decidableAllowed spec allowed (spec t i).2 is
    inferInstanceAs (Decidable (allowed t i ∧ Allowed spec allowed (spec t i).2 is))

/-- The calls go through with the right answers, and the object after them stands
for the right state. -/
def Refines (call : σ → ι → Except ε (ρ × σ)) (spec : τ → ι → ρ × τ) (stands : σ → τ → Prop)
    (s : σ) (t : τ) (is : List ι) : Prop :=
  ∃ s', exec call s is = .ok ((answers spec t is).1, s') ∧ stands s' (answers spec t is).2

variable {call : σ → ι → Except ε (ρ × σ)} {spec : τ → ι → ρ × τ} {stands : σ → τ → Prop}
  {allowed : τ → ι → Prop} {s s' : σ} {t : τ} {i : ι} {is : List ι} {r : ρ}

theorem exec_cons {rs : List ρ} : exec call s (i :: is) = .ok (rs, s') ↔
    ∃ r s1 rs', call s i = .ok (r, s1) ∧ exec call s1 is = .ok (rs', s') ∧ rs = r :: rs' := by
  have hexec : exec call s (i :: is) =
      call s i >>= fun x => exec call x.2 is >>= fun y => .ok (x.1 :: y.1, y.2) := rfl
  rw [hexec]
  constructor
  · intro h
    cases hc : call s i with
    | error e =>
      rw [hc] at h
      cases h
    | ok x =>
      rw [hc] at h
      change (exec call x.2 is >>= _) = _ at h
      cases hx : exec call x.2 is with
      | error e =>
        rw [hx] at h
        cases h
      | ok y =>
        rw [hx] at h
        cases h
        exact ⟨x.1, x.2, y.1, rfl, hx, rfl⟩
  · rintro ⟨r, s1, rs', hc, hx, rfl⟩
    rw [hc]
    change (exec call s1 is >>= _) = _
    rw [hx]
    rfl

theorem allowed_refines (hstep : ∀ s t i, stands s t → allowed t i →
      ∃ s', call s i = .ok ((spec t i).1, s') ∧ stands s' (spec t i).2)
    (h0 : stands s t) (h : Allowed spec allowed t is) : Refines call spec stands s t is := by
  induction is generalizing s t with
  | nil => exact ⟨s, rfl, h0⟩
  | cons i is ih =>
    obtain ⟨s1, hc, h1⟩ := hstep s t i h0 h.1
    obtain ⟨s2, hx, h2⟩ := ih h1 h.2
    exact ⟨s2, exec_cons.mpr ⟨_, s1, _, hc, hx, rfl⟩, h2⟩

theorem refines_iff (hstep : ∀ s t i, stands s t → allowed t i → ∃ s', call s i = .ok ((spec t i).1, s') ∧ stands s' (spec t i).2)
    (hwrong : ∀ s t i, stands s t → ¬ allowed t i → ∀ s', call s i ≠ .ok ((spec t i).1, s'))
    (h0 : stands s t) : Refines call spec stands s t is ↔ Allowed spec allowed t is := by
  refine ⟨fun h => ?_, allowed_refines hstep h0⟩
  induction is generalizing s t with
  | nil => trivial
  | cons i is ih =>
    obtain ⟨s2, hx, h2⟩ := h
    obtain ⟨r, s1, rs', hc, hx', hr⟩ := exec_cons.mp hx
    obtain ⟨rfl, rfl⟩ := List.cons.inj hr
    by_cases ha : allowed t i
    · obtain ⟨s1', hc', h1⟩ := hstep s t i h0 ha
      cases hc.symm.trans hc'
      exact ⟨ha, ih h1 ⟨s2, hx', h2⟩⟩
    · exact absurd hc (hwrong s t i h0 ha s1)

end Zmq
