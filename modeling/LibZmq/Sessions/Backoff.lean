import Mathlib.Tactic

/-! The interval before a connecter tries again. It doubles with every failure, and a random part is added to it. -/

namespace Zmq

open List

inductive ArithFault where
  | divisionByZero
  | signedOverflow

/-- The two options, as `setsockopt` lets them be; both are of type `int`. -/
structure ReconnectOptions where
  reconnectIvl : ℤ
  reconnectIvlMax : ℤ
  ivl : -1 ≤ reconnectIvl ∧ reconnectIvl < 2 ^ 31
  ivlMax : 0 ≤ reconnectIvlMax ∧ reconnectIvlMax < 2 ^ 31

namespace ReconnectOptions

def default : ReconnectOptions := ⟨100, 0, by decide, by decide⟩

/-- `ZMQ_RECONNECT_IVL`, `none` for `EINVAL` -/
def setReconnectIvl (o : ReconnectOptions) (value : Int32) : Option ReconnectOptions :=
  if h : -1 ≤ value.toInt then some ⟨value.toInt, o.reconnectIvlMax, ⟨h, value.toInt_lt⟩, o.ivlMax⟩ else none

def setReconnectIvlMax (o : ReconnectOptions) (value : Int32) : Option ReconnectOptions :=
  if h : 0 ≤ value.toInt then some ⟨o.reconnectIvl, value.toInt, o.ivl, ⟨h, value.toInt_lt⟩⟩ else none

def most (o : ReconnectOptions) : ℤ := max o.reconnectIvl o.reconnectIvlMax

end ReconnectOptions

/-- The interval and the next `current_reconnect_ivl`. The random number is unsigned, and so are the remainder and the
sum until it becomes an `int`; `clamp` is how the doubled interval is bounded. -/
def newReconnectIvl (clamp : ℤ → ℤ → ℤ) (o : ReconnectOptions) (current : ℤ) (random : UInt32) : Except ArithFault (ℤ × ℤ) :=
  if o.reconnectIvl = 0 then .error .divisionByZero
  else
    let interval := (current + random.toNat % (o.reconnectIvl % 2 ^ 32)).bmod (2 ^ 32)
    if 0 < o.reconnectIvlMax ∧ o.reconnectIvl < o.reconnectIvlMax then
      if current * 2 < -2 ^ 31 ∨ 2 ^ 31 ≤ current * 2 then .error .signedOverflow
      else .ok (interval, clamp (current * 2) o.reconnectIvlMax)
    else .ok (interval, current)

inductive ConnecterKind where
  | tcp
  | ipc
  | socks

/-- `get_new_reconnect_ivl` of the three classes. -/
def ConnecterKind.getNewReconnectIvl : ConnecterKind → ReconnectOptions → ℤ → UInt32 → Except ArithFault (ℤ × ℤ)
  | .tcp => newReconnectIvl min
  | .ipc => newReconnectIvl fun doubled ivlMax => if doubled ≥ ivlMax then ivlMax else doubled
  | .socks => newReconnectIvl min

namespace ConnecterKind

variable {k : ConnecterKind} {o : ReconnectOptions} {current interval next : ℤ} {random : UInt32}

/-- The failures in a row, each with its random number: the intervals, and `current_reconnect_ivl` after each. -/
def failures (k : ConnecterKind) (o : ReconnectOptions) : ℤ → List UInt32 → Except ArithFault (List (ℤ × ℤ))
  | _, [] => .ok []
  | current, random :: randoms => do
    let step ← k.getNewReconnectIvl o current random
    return step :: (← failures k o step.2 randoms)

theorem getNewReconnectIvl_eq (k : ConnecterKind) : k.getNewReconnectIvl = newReconnectIvl min := by
  cases k with
  | tcp => rfl
  | socks => rfl
  | ipc =>
    have hclamp : (fun doubled ivlMax : ℤ => if doubled ≥ ivlMax then ivlMax else doubled) = min := by
      funext doubled ivlMax
      rw [min_def]
      split_ifs <;> omega
    exact congrArg newReconnectIvl hclamp

/-- What is wanted of the failures that begin with `current`. -/
def Ranges (o : ReconnectOptions) (current : ℤ) (steps : List (ℤ × ℤ)) : Prop :=
  (∀ x ∈ steps, o.reconnectIvl ≤ x.1 ∧ x.1 < o.most + o.reconnectIvl ∧ x.2 ≤ o.most) ∧
    (current :: steps.map Prod.snd).Pairwise (· ≤ ·)

/-- A connecter starts with `current_reconnect_ivl` at `reconnect_ivl`. -/
def StaysInRange (k : ConnecterKind) (o : ReconnectOptions) : Prop :=
  ∀ randoms, ∃ steps, k.failures o o.reconnectIvl randoms = .ok steps ∧ Ranges o o.reconnectIvl steps

/-- The interval is positive, and neither its double nor that of the maximum is too large. -/
def Moderate (o : ReconnectOptions) : Prop :=
  0 < o.reconnectIvl ∧ o.reconnectIvl ≤ 2 ^ 30 ∧ (o.reconnectIvl < o.reconnectIvlMax → o.reconnectIvlMax < 2 ^ 30)

theorem step_moderate (hm : Moderate o) (h1 : o.reconnectIvl ≤ current) (h2 : current ≤ o.most) (random : UInt32) :
    ∃ interval next, k.getNewReconnectIvl o current random = .ok (interval, next) ∧ o.reconnectIvl ≤ interval ∧
      interval < o.most + o.reconnectIvl ∧ current ≤ next ∧ next ≤ o.most := by
  obtain ⟨hpos, hivl, hmax⟩ := hm
  rw [getNewReconnectIvl_eq, newReconnectIvl, if_neg (by omega)]
  unfold ReconnectOptions.most at *
  have hmod : o.reconnectIvl % 2 ^ 32 = o.reconnectIvl := Int.emod_eq_of_lt (by omega) (by omega)
  have hlt := Int.emod_lt_of_pos (random.toNat : ℤ) hpos
  have hge := Int.emod_nonneg (random.toNat : ℤ) (by omega : o.reconnectIvl ≠ 0)
  have hsum : (current + random.toNat % o.reconnectIvl).bmod (2 ^ 32) = current + random.toNat % o.reconnectIvl :=
    Int.bmod_eq_of_le (by omega) (by omega)
  dsimp only
  rw [hmod, hsum]
  split_ifs with hdouble hover
  · omega
  · exact ⟨_, _, rfl, by omega, by omega, by omega, by omega⟩
  · exact ⟨_, _, rfl, by omega, by omega, le_refl _, h2⟩

theorem failures_moderate (hm : Moderate o) (h1 : o.reconnectIvl ≤ current) (h2 : current ≤ o.most)
    (randoms : List UInt32) : ∃ steps, k.failures o current randoms = .ok steps ∧ Ranges o current steps := by
  induction randoms generalizing current with
  | nil => exact ⟨[], rfl, by simp, by simp⟩
  | cons random randoms ih =>
    obtain ⟨interval, next, hstep, hge, hlt, hle, hmost⟩ := step_moderate (k := k) hm h1 h2 random
    obtain ⟨steps, hsteps, hall, hsorted⟩ := ih (h1.trans hle) hmost
    refine ⟨(interval, next) :: steps, ?_, ?_, ?_⟩
    · simp only [failures, hstep, hsteps, bind, Except.bind, pure, Except.pure]
    · simp only [mem_cons, forall_eq_or_imp]
      exact ⟨⟨hge, hlt, hmost⟩, hall⟩
    · rw [map_cons, pairwise_cons]
      refine ⟨fun x hx => ?_, hsorted⟩
      rcases mem_cons.mp hx with rfl | hx
      · exact hle
      · exact hle.trans ((pairwise_cons.mp hsorted).1 x hx)

theorem failures_overflow (hpos : 0 < o.reconnectIvl) (hmax : o.reconnectIvl < o.reconnectIvlMax)
    (hlarge : 2 ^ 30 ≤ o.reconnectIvlMax) {n : ℕ} (hc : 0 < current) (hn : o.reconnectIvlMax ≤ current + n)
    (hle : current ≤ o.reconnectIvlMax) : k.failures o current (replicate (n + 1) 0) = .error .signedOverflow := by
  have hdouble : 0 < o.reconnectIvlMax ∧ o.reconnectIvl < o.reconnectIvlMax := ⟨by omega, hmax⟩
  induction n generalizing current with
  | zero =>
    have hover : current * 2 < -2 ^ 31 ∨ 2 ^ 31 ≤ current * 2 := by omega
    rw [replicate_succ, failures, getNewReconnectIvl_eq, newReconnectIvl, if_neg hpos.ne', if_pos hdouble, if_pos hover]
    rfl
  | succ n ih =>
    rw [replicate_succ, failures, getNewReconnectIvl_eq, newReconnectIvl, if_neg hpos.ne', if_pos hdouble]
    by_cases hover : current * 2 < -2 ^ 31 ∨ 2 ^ 31 ≤ current * 2
    · rw [if_pos hover]
      rfl
    · rw [if_neg hover]
      have hnext := @ih (min (current * 2) o.reconnectIvlMax) (by omega) (by omega) (by omega)
      simp only [bind, Except.bind, hnext]

/-- Back-off stays in range exactly with moderate options. -/
theorem in_range_iff (k : ConnecterKind) (o : ReconnectOptions) : k.StaysInRange o ↔ Moderate o := by
  refine ⟨fun h => ?_, fun hm => failures_moderate hm le_rfl (le_max_left _ _)⟩
  have hivl := o.ivl
  have hivlMax := o.ivlMax
  -- one failure shows an interval that is not positive, or too large
  have hone : ∀ random : UInt32, o.reconnectIvl ≠ 0 ∧
      (o.reconnectIvl + random.toNat % (o.reconnectIvl % 2 ^ 32)).bmod (2 ^ 32) < o.most + o.reconnectIvl ∧
      o.reconnectIvl ≤ (o.reconnectIvl + random.toNat % (o.reconnectIvl % 2 ^ 32)).bmod (2 ^ 32) := by
    intro random
    obtain ⟨steps, hsteps, hall, -⟩ := h [random]
    simp only [failures, getNewReconnectIvl_eq, newReconnectIvl, bind, Except.bind, pure, Except.pure] at hsteps
    split_ifs at hsteps with h0 hdouble hover
    · cases hsteps
      exact ⟨h0, (hall _ (mem_singleton_self _)).2.1, (hall _ (mem_singleton_self _)).1⟩
    · cases hsteps
      exact ⟨h0, (hall _ (mem_singleton_self _)).2.1, (hall _ (mem_singleton_self _)).1⟩
  unfold ReconnectOptions.most at hone
  have hpos : 0 < o.reconnectIvl := by
    obtain ⟨h0, hlt, -⟩ := hone (2 ^ 31)
    by_contra hneg
    obtain hminus : o.reconnectIvl = -1 := by omega
    have hwrap : (-1 + ((2 ^ 31 : UInt32).toNat : ℤ) % (-1 % 2 ^ 32)).bmod (2 ^ 32) = 2 ^ 31 - 1 := by decide
    rw [hminus, hwrap] at hlt
    omega
  refine ⟨hpos, ?_, fun hmax => ?_⟩
  · by_contra hlarge
    obtain ⟨-, -, hge⟩ := hone (UInt32.ofNat (o.reconnectIvl.toNat - 1))
    have hrandom : (UInt32.ofNat (o.reconnectIvl.toNat - 1)).toNat = o.reconnectIvl.toNat - 1 :=
      UInt32.toNat_ofNat_of_lt' (by simp only [UInt32.size]; omega)
    rw [hrandom, Int.emod_eq_of_lt (a := o.reconnectIvl) (by omega) (by omega), Int.emod_eq_of_lt (by omega) (by omega),
      Int.bmod_def] at hge
    split_ifs at hge <;> omega
  · by_contra hlarge
    obtain ⟨steps, hsteps, -⟩ := h (replicate (o.reconnectIvlMax.toNat + 1) 0)
    rw [failures_overflow hpos hmax (by omega) hpos (by omega) (by omega)] at hsteps
    cases hsteps

/-- 0 is accepted, and the first failure divides by it. -/
theorem zero_out_of_range : ∃ o, ReconnectOptions.default.setReconnectIvl 0 = some o ∧
    ∀ k : ConnecterKind, k.failures o o.reconnectIvl [0] = .error .divisionByZero ∧ ¬ k.StaysInRange o := by
  refine ⟨⟨0, 0, by decide, by decide⟩, rfl, fun k => ?_⟩
  have hfails : k.failures ⟨0, 0, by decide, by decide⟩ 0 [0] = .error .divisionByZero := by cases k <;> rfl
  refine ⟨hfails, fun h => ?_⟩
  obtain ⟨steps, hsteps, -⟩ := h [0]
  cases hfails.symm.trans hsteps

end ConnecterKind

end Zmq
