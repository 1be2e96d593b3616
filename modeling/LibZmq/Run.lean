import Mathlib.Tactic

/-! Finite runs of a labelled transition system, and the rules that carry a
property of one step to a whole run. Events are listed oldest first. -/

namespace Zmq

universe u v

variable {σ : Type u} {ε : Type v}

/-- `Run init step evs s`: some initial state is taken to `s` by the events `evs`. -/
inductive Run (init : σ → Prop) (step : σ → ε → σ → Prop) : List ε → σ → Prop
  | nil {s} (h : init s) : Run init step [] s
  | snoc {evs s e s'} (h : Run init step evs s) (hs : step s e s') :
      Run init step (evs ++ [e]) s'

/-- The steps of `step` taken in a state and with an event that meet `guard`. -/
def Guarded (guard : σ → ε → Prop) (step : σ → ε → σ → Prop) (s : σ) (e : ε) (s' : σ) : Prop :=
  guard s e ∧ step s e s'

namespace Run

variable {init : σ → Prop} {step : σ → ε → σ → Prop} {evs : List ε} {s : σ}

theorem history (h : Run init step evs s) (I : List ε → σ → Prop) (h0 : ∀ s, init s → I [] s)
    (hstep : ∀ evs s e s', I evs s → step s e s' → I (evs ++ [e]) s') : I evs s := by
  induction h with
  | nil h => exact h0 _ h
  | snoc _ hs ih => exact hstep _ _ _ _ ih hs

theorem invariant (h : Run init step evs s) (I : σ → Prop)
    (h0 : ∀ s, init s → I s) (hstep : ∀ s e s', I s → step s e s' → I s') : I s :=
  h.history (fun _ => I) h0 (fun _ => hstep)

theorem mono {init' : σ → Prop} {step' : σ → ε → σ → Prop} (h : Run init step evs s) (hi : ∀ s, init s → init' s)
    (hs : ∀ s e s', step s e s' → step' s e s') : Run init' step' evs s := by
  induction h with
  | nil h => exact .nil (hi _ h)
  | snoc _ he ih => exact .snoc ih (hs _ _ _ he)

theorem unguarded {guard : σ → ε → Prop} (h : Run init (Guarded guard step) evs s) : Run init step evs s :=
  h.mono (fun _ h => h) (fun _ _ _ h => h.2)

theorem append {evs evs' : List ε} {s s' : σ} (h : Run init step evs s)
    (h' : Run (fun x => x = s) step evs' s') : Run init step (evs ++ evs') s' := by
  induction h' with
  | nil h0 => subst h0; simpa using h
  | snoc _ hs ih =>
    rw [← List.append_assoc]
    exact .snoc ih hs

end Run

/-! Systems whose steps are computed: an operation that may be made in a state
leads to the state it returns, unless it fails. -/

section

universe w

variable {φ : Type w} {α : Type u} {β : Type v}

theorem bind_ok {α β : Type v} {x : Except φ α} {f : α → Except φ β} {b : β} (h : x >>= f = .ok b) :
    ∃ a, x = .ok a ∧ f a = .ok b := by
  cases x with
  | error e => exact absurd h nofun
  | ok a => exact ⟨a, rfl, h⟩

theorem ok_pair {a a' : α} {b b' : β}
    (h : (.ok (a, b) : Except φ (α × β)) = .ok (a', b')) : a = a' ∧ b = b' := Prod.mk.inj (Except.ok.inj h)

theorem map_ok {x : Except φ α} {f : α → β} {b : β} (h : x.map f = .ok b) : ∃ a, x = .ok a ∧ f a = b := by
  cases x with
  | error e => cases h
  | ok a => exact ⟨a, rfl, Except.ok.inj h⟩

variable {φ : Type w} {ready : σ → ε → Prop} {run : σ → ε → Except φ σ}

variable (ready run) in
/-- The operation may be made and returns the new state. -/
def Does (s : σ) (op : ε) (s' : σ) : Prop := ready s op ∧ run s op = .ok s'

def free (_ : σ) (_ : ε) : Prop := True

instance (s : σ) (op : ε) : Decidable (free s op) := .isTrue trivial

variable (ready run) in
def play (guard : σ → ε → Prop) [∀ s op, Decidable (guard s op)] [∀ s op, Decidable (ready s op)] : σ → List ε → Option σ
  | s, [] => some s
  | s, op :: ops =>
    if guard s op ∧ ready s op then
      match run s op with
      | .ok s' => play guard s' ops
      | .error _ => none
    else none

theorem play_run {guard : σ → ε → Prop} [∀ s op, Decidable (guard s op)] [∀ s op, Decidable (ready s op)]
    {init : σ → Prop} {ops evs : List ε} {s s' : σ} (h : Run init (Guarded guard (Does ready run)) evs s)
    (hp : play ready run guard s ops = some s') : Run init (Guarded guard (Does ready run)) (evs ++ ops) s' := by
  induction ops generalizing s evs with
  | nil =>
    cases hp
    rwa [List.append_nil]
  | cons op ops ih =>
    unfold play at hp
    split_ifs at hp with hc
    cases hr : run s op with
    | error e => simp [hr] at hp
    | ok s1 =>
      simp only [hr] at hp
      have := ih (h.snoc ⟨hc.1, hc.2, hr⟩) hp
      rwa [List.append_assoc, List.singleton_append] at this

theorem run_of_play {β : Type*} {guard : σ → ε → Prop} [∀ s op, Decidable (guard s op)]
    [∀ s op, Decidable (ready s op)] {init : σ → Prop} {ops : List ε} {s : σ} {f : σ → β} {b : β} (h : init s)
    (hp : (play ready run guard s ops).map f = some b) : ∃ s', Run init (Guarded guard (Does ready run)) ops s' ∧ f s' = b := by
  obtain ⟨s', hs, hf⟩ := Option.map_eq_some_iff.mp hp
  exact ⟨s', play_run (.nil h) hs, hf⟩

/-- The operations can be played, and the state they lead to is as `P` says. -/
theorem exists_run {guard : σ → ε → Prop} [∀ s op, Decidable (guard s op)] [∀ s op, Decidable (ready s op)] {init P Q : σ → Prop}
    [DecidablePred P] {ops : List ε} {s : σ} (h : init s) (hp : (play ready run guard s ops).any (fun s' => decide (P s')) = true)
    (hq : ∀ s', Run init (Guarded guard (Does ready run)) ops s' → P s' → Q s') :
    ∃ s', Run init (Guarded guard (Does ready run)) ops s' ∧ Q s' := by
  obtain ⟨s', hs, hP⟩ := (Option.any_eq_true _ _).mp hp
  have hrun := play_run (.nil h) hs
  exact ⟨s', hrun, hq s' hrun (of_decide_eq_true hP)⟩

theorem exists_run_free [∀ s op, Decidable (ready s op)] {init P Q : σ → Prop} [DecidablePred P] {ops : List ε} {s : σ}
    (h : init s) (hp : (play ready run free s ops).any (fun s' => decide (P s')) = true)
    (hq : ∀ s', Run init (Does ready run) ops s' → P s' → Q s') : ∃ s', Run init (Does ready run) ops s' ∧ Q s' := by
  obtain ⟨s', hs, hQ⟩ := exists_run h hp fun s' hs => hq s' hs.unguarded
  exact ⟨s', hs.unguarded, hQ⟩

end

end Zmq
