import LibZmq.Timers.Runs

/-! What `cancel` says and does: the ids it has been given are kept apart from the timers, which are removed later. -/

namespace Zmq

open Finset

universe u

namespace TimersUser

open TimersT (Walk)

variable {H : Type u}

/-- The timer has been added and not yet cancelled. -/
def Live (s : TimersUser H) (timerId : ℤ) : Prop := 1 ≤ timerId ∧ timerId ≤ s.timers.nextTimerId ∧ timerId ∉ s.cancelled

instance (s : TimersUser H) (timerId : ℤ) : Decidable (s.Live timerId) := by
  unfold Live
  infer_instance

/-- Only live timers are cancelled, and those that are still recorded. Recorded ones are not reset. -/
def Cautious (s : TimersUser H) : Op H → Prop
  | .cancel timerId => s.Live timerId ∨ timerId ∈ s.timers.cancelledTimers
  | .setInterval _ timerId _ | .reset _ timerId => timerId ∉ s.timers.cancelledTimers
  | _ => True

instance (s : TimersUser H) (op : Op H) : Decidable (s.Cautious op) := by
  induction op using Op.casesOn <;> unfold Cautious <;> infer_instance

structure Promised (s : TimersUser H) : Prop where
  cancel : ∀ timerId, (s.timers.cancel timerId).1 = false ↔ ¬ s.Live timerId
  recorded : ∀ timerId ∈ s.timers.cancelledTimers, s.timers.Has timerId
  fired : ∀ f ∈ s.fired, f.cancelled = false
  refused : ∀ timerId ∈ s.cancelled, ∀ now interval,
    (s.timers.setInterval now timerId interval).1 = false ∧ (s.timers.reset now timerId).1 = false
  later : ∀ timerId ∈ s.cancelled, timerId ≤ s.timers.nextTimerId

/-- Which calls the promise is kept for, and what holds between them. -/
structure Exact (s : TimersUser H) : Prop where
  cancel : ∀ timerId, ((s.timers.cancel timerId).1 = false ↔ ¬ s.Live timerId) ↔ s.Cautious (.cancel timerId)
  unchanged : ∀ timerId, (s.timers.cancel timerId).1 = false → (s.timers.cancel timerId).2 = s.timers
  recorded : ∀ timerId ∈ s.timers.cancelledTimers, s.timers.Has timerId
  fired : ∀ f ∈ s.fired, f.cancelled = false
  setInterval : ∀ timerId ∈ s.cancelled, ∀ now interval,
    (s.timers.setInterval now timerId interval).1 = false ↔ s.Cautious (.setInterval now timerId interval)
  reset : ∀ timerId ∈ s.cancelled, ∀ now, (s.timers.reset now timerId).1 = false ↔ s.Cautious (.reset now timerId)
  /-- no id is cancelled before it is given out, and a timer is there until it is cancelled -/
  later : ∀ timerId ∈ s.cancelled, timerId ≤ s.timers.nextTimerId
  there : ∀ timerId, s.Live timerId → s.timers.Has timerId ∧ timerId ∉ s.timers.cancelledTimers

structure Recorded (s : TimersUser H) : Prop where
  added : ∀ timerId ∈ s.cancelled, timerId ≤ s.timers.nextTimerId
  iff : ∀ timerId, timerId ∈ s.timers.cancelledTimers ↔ timerId ∈ s.cancelled ∧ s.timers.Has timerId
  kept : ∀ timerId, s.Live timerId → s.timers.Has timerId
  fired : ∀ f ∈ s.fired, f.cancelled = false

variable {s s' : TimersUser H} {e : Execution H} {timer : TimerT H} {op : Op H} {ops : List (Op H)} {t : TimersT H}
  {now interval : UInt64} {timerId : ℤ} {handler : H}

theorem Recorded.exact (h : Recorded s) : Exact s := by
  have hcancel : ∀ timerId, (s.timers.cancel timerId).1 = false ↔ timerId ∈ s.timers.cancelledTimers := by
    intro timerId
    unfold TimersT.cancel
    split_ifs with hc <;> simp [hc]
  have hlive : ∀ timerId, s.Live timerId → timerId ∉ s.timers.cancelledTimers :=
    fun timerId hl hc => hl.2.2 ((h.iff timerId).mp hc).1
  have hreinsert : ∀ timerId ∈ s.cancelled, ∀ now f,
      (s.timers.reinsert now timerId f).1 = false ↔ timerId ∉ s.timers.cancelledTimers := by
    intro timerId hid now f
    rw [h.iff]
    rcases s.timers.reinsert_cases now timerId f with ⟨hnone, he⟩ | ⟨n, hn, hn', he⟩
    · rw [he]
      simpa [hid] using fun hhas : s.timers.Has timerId => hhas.elim fun n hn => hnone n hn.1 hn.2
    · rw [he]
      have hhas : s.timers.Has timerId := ⟨n, hn, hn'⟩
      simp [hid, hhas]
  refine ⟨fun timerId => ?_, fun timerId hfalse => ?_, fun timerId hc => ((h.iff timerId).mp hc).2, h.fired,
    fun timerId hid now interval => hreinsert timerId hid now _, fun timerId hid now => hreinsert timerId hid now _, h.added,
    fun timerId hl => ⟨h.kept timerId hl, hlive timerId hl⟩⟩
  · rw [hcancel]
    have := hlive timerId
    unfold Cautious
    tauto
  · exact congrArg Prod.snd (if_pos ((hcancel timerId).mp hfalse) : s.timers.cancel timerId = _)

theorem Recorded.same (h : Recorded s) (ht : s'.timers.cancelledTimers = s.timers.cancelledTimers)
    (hnext : s'.timers.nextTimerId = s.timers.nextTimerId) (hhas : ∀ timerId, s'.timers.Has timerId ↔ s.timers.Has timerId)
    (hc : s'.cancelled = s.cancelled) (hf : s'.fired = s.fired) : Recorded s' := by
  refine ⟨fun timerId hid => ?_, fun timerId => ?_, fun timerId hl => ?_, hf ▸ h.fired⟩
  · rw [hnext]
    exact h.added timerId (hc ▸ hid)
  · rw [ht, hc, hhas]
    exact h.iff timerId
  · rw [hhas]
    unfold Live at hl
    rw [hnext, hc] at hl
    exact h.kept timerId hl

theorem Recorded.sheds (h : Recorded s) (ht : s.timers.Sheds t) (hs : s'.timers = t) (hc : s'.cancelled = s.cancelled)
    (hf : s'.fired = s.fired) : Recorded s' := by
  subst hs
  refine ⟨fun timerId hid => ?_, fun timerId => ?_, fun timerId hl => ?_, hf ▸ h.fired⟩
  · rw [ht.nextTimerId]
    exact h.added timerId (hc ▸ hid)
  · rw [ht.cancelled, h.iff, hc]
    constructor
    · rintro ⟨⟨hid, hhas⟩, hleft⟩
      exact ⟨hid, hleft.resolve_right (not_not_intro hhas)⟩
    · rintro ⟨hid, hhas⟩
      exact ⟨⟨hid, ht.has hhas⟩, .inl hhas⟩
  · unfold Live at hl
    rw [ht.nextTimerId, hc] at hl
    obtain ⟨n, hn, rfl⟩ := h.kept timerId hl
    exact ⟨n, ht.kept n hn fun hmem => hl.2.2 ((h.iff _).mp hmem).1, rfl⟩

theorem Recorded.add (h : Recorded s) (hx : s.run (.add now interval handler) = .ok s') : Recorded s' := by
  obtain ⟨⟨timerId, t⟩, ht, rfl⟩ := map_ok hx
  obtain ⟨rfl, rfl⟩ := TimersT.add_eq ht
  have hhas : ∀ timerId, timerId ≠ s.timers.nextTimerId + 1 →
      (TimersT.Has { s.timers with
        nextTimerId := s.timers.nextTimerId + 1
        timers := s.timers.timers.insert (now + interval).toNat ⟨s.timers.nextTimerId + 1, interval, handler⟩ } timerId ↔
      s.timers.Has timerId) := by
    intro timerId hne
    constructor
    · rintro ⟨n, hn, rfl⟩
      rcases Multimap.mem_insert.mp hn with rfl | hn
      · exact absurd rfl hne
      · exact ⟨n, hn, rfl⟩
    · rintro ⟨n, hn, rfl⟩
      exact ⟨n, Multimap.mem_insert.mpr (.inr hn), rfl⟩
  refine ⟨fun timerId hid => ?_, fun timerId => ?_, fun timerId hl => ?_, h.fired⟩
  · exact (h.added timerId hid).trans (Int.le_of_lt (Int.lt_succ _))
  · by_cases hne : timerId = s.timers.nextTimerId + 1
    · have hnew : timerId ∉ s.cancelled := fun hid => by
        have := h.added timerId hid
        omega
      have hold : timerId ∉ s.timers.cancelledTimers := fun hid => hnew ((h.iff timerId).mp hid).1
      exact iff_of_false hold fun hc => hnew hc.1
    · refine (h.iff timerId).trans (and_congr_right fun _ => ?_)
      exact (hhas timerId hne).symm
  · by_cases hne : timerId = s.timers.nextTimerId + 1
    · exact ⟨_, Multimap.mem_insert.mpr (.inl rfl), hne.symm⟩
    · refine (hhas timerId hne).mpr (h.kept timerId ⟨hl.1, ?_, hl.2.2⟩)
      have := hl.2.1
      dsimp only [plan] at this
      omega

theorem Recorded.cancel (h : Recorded s) (hk : s.Cautious (.cancel timerId)) (hx : s.run (.cancel timerId) = .ok s') :
    Recorded s' := by
  cases hx
  by_cases hc : timerId ∈ s.timers.cancelledTimers
  · rw [show s.timers.cancel timerId = (false, s.timers) from if_pos hc]
    exact h
  · rw [show s.timers.cancel timerId =
      (true, { s.timers with cancelledTimers := insert timerId s.timers.cancelledTimers }) from if_neg hc]
    have hlive := hk.resolve_right hc
    refine ⟨fun id hid => ?_, fun id => ?_, fun id hl => ?_, h.fired⟩
    · rcases mem_insert.mp hid with rfl | hid
      · exact hlive.2.1
      · exact h.added id hid
    · dsimp only
      rw [if_pos rfl, mem_insert, mem_insert, h.iff, or_and_right]
      apply or_congr_left
      exact (and_iff_left_of_imp fun heq => heq ▸ h.kept timerId hlive).symm
    · exact h.kept id ⟨hl.1, hl.2.1, fun hmem => hl.2.2 (mem_insert_of_mem hmem)⟩

theorem Recorded.reinsert {f : TimerT H → TimerT H} {x : Option (ℕ × UInt64)} (h : Recorded s)
    (hf : ∀ timer, (f timer).timerId = timer.timerId) :
    Recorded (plan { s with timers := (s.timers.reinsert now timerId f).2 } timerId x) := by
  rcases s.timers.reinsert_cases now timerId f with ⟨-, he⟩ | ⟨n, hn, -, he⟩
  · rw [he]
    exact h.same rfl rfl (fun _ => .rfl) rfl rfl
  · rw [he]
    exact h.same rfl rfl (fun _ => TimersT.has_replace hn (hf _)) rfl rfl

theorem Recorded.visit (h : Recorded s) (hb : Base s) (hx : s.visit e = .ok s') : Recorded s' := by
  rcases visit_cases hx with rfl | ⟨ref, n, hit, hn, rfl, ⟨hc, rfl⟩ | ⟨hc, -, rfl⟩⟩
  · exact h.same rfl rfl (fun _ => .rfl) rfl rfl
  · exact h.sheds (TimersT.Sheds.remove hb.distinct hn hc) rfl rfl rfl
  · refine ⟨h.added, h.iff, h.kept, fun f hf => ?_⟩
    rcases List.mem_append.mp hf with hf | hf
    · exact h.fired f hf
    · rw [List.mem_singleton.mp hf]
      exact decide_eq_false fun hmem => hc ((h.iff _).mpr ⟨hmem, n, hn, rfl⟩)

theorem Recorded.resume (h : Recorded s) (hb : Base s) (he : s.execution = some e) (hfiring : e.firing = some timer)
    (hx : s.resume e timer = .ok s') : Recorded s' := by
  obtain ⟨ref, n, hit, hn, rfl, rfl⟩ := resume_cases hx
  obtain ⟨ref', hit', -, hentry⟩ := hb.firing e timer he hfiring
  cases hit.symm.trans hit'
  have htimer := hentry n hn rfl
  exact h.same rfl rfl (fun _ => TimersT.has_replace hn (congrArg _ htimer.symm)) rfl rfl

theorem step_recorded (h : Recorded s) (hb : Base s) (hs : Guarded Cautious Step s op s') : Recorded s' := by
  obtain ⟨hk, hr, hx⟩ := hs
  cases op with
  | add now interval handler => exact h.add hx
  | cancel timerId => exact h.cancel hk hx
  | setInterval now timerId interval =>
    have ht : ∀ x, Recorded (plan { s with timers := (s.timers.setInterval now timerId interval).2 } timerId x) :=
      fun x => h.reinsert fun _ => rfl
    cases hx
    generalize s.timers.setInterval now timerId interval = y at ht ⊢
    split_ifs
    · exact ht _
    · exact h
  | reset now timerId =>
    have ht : ∀ x, Recorded (plan { s with timers := (s.timers.reset now timerId).2 } timerId x) :=
      fun x => h.reinsert fun _ => rfl
    cases hx
    generalize s.timers.reset now timerId = y at ht ⊢
    split_ifs
    · exact ht _
    · exact h
  | timeout now =>
    obtain ⟨⟨v, t⟩, ht, rfl⟩ := map_ok hx
    obtain ⟨v', t', ht', -, hsheds, -⟩ := TimersT.timeout_eq now hb.distinct
    cases ht.symm.trans ht'
    exact h.sheds hsheds rfl rfl rfl
  | execute now =>
    cases hx
    exact h.same rfl rfl (fun _ => .rfl) rfl rfl
  | visit =>
    obtain ⟨e, he, -⟩ := ready_visit hr
    rw [run_visit he] at hx
    exact h.visit hb hx
  | resume =>
    obtain ⟨e, timer, he, hfiring⟩ := ready_resume hr
    rw [run_resume he hfiring] at hx
    exact h.resume hb he hfiring hx

theorem new_recorded : Recorded (new : TimersUser H) where
  added _ hid := absurd hid (notMem_empty _)
  iff _ := iff_of_false (notMem_empty _) fun hc => notMem_empty _ hc.1
  kept _ hl := absurd (show (1 : ℤ) ≤ 0 from hl.1.trans hl.2.1) (by decide)
  fired _ hf := nomatch hf

/-- As long as only live or recorded timers are cancelled, `cancel` is exact, and no cancelled timer fires. -/
theorem cancel_exact (h : Run Start (Guarded Cautious Step) ops s) : Exact s := by
  have hi : Recorded s ∧ Base s := by
    refine h.invariant (fun s => Recorded s ∧ Base s) (fun s hs => ?_) fun _ _ _ hi hs =>
      ⟨step_recorded hi.1 hi.2 hs, step_base hi.2 hs.2⟩
    subst hs
    exact ⟨new_recorded, new_base⟩
  exact hi.1.exact

/-- A timer is cancelled twice and removed by `timeout`, and then reset. -/
def cancelCalls : List (Op ℕ) :=
  [.add 0 10 1, .add 0 20 2, .cancel 1, .cancel 1, .timeout 5, .reset 6 1, .add 7 1 3, .execute 30, .visit, .resume]

theorem cancel_exact_calls : ∃ s : TimersUser ℕ, Run Start (Guarded Cautious Step) cancelCalls s ∧
    s.fired.map Firing.timerId = [3] ∧ Exact s :=
  exists_run (P := fun s => s.fired.map Firing.timerId = [3]) (rfl : Start new) (by decide)
    fun _ hs hfired => ⟨hfired, cancel_exact hs⟩

/-- A timer is cancelled that has not been added yet. It succeeds, and the timer that then gets its id never fires. -/
theorem cancel_can_kill : ¬ Promised (new : TimersUser ℕ) ∧ ∃ s : TimersUser ℕ,
    Run Start Step [.cancel 1, .add 0 10 1, .execute 10, .visit, .visit] s ∧ s.fired.length = 0 := by
  constructor
  · intro hpromised
    have hlive := (hpromised.cancel 1).mpr (by decide)
    revert hlive
    decide
  · exact exists_run_free (P := fun s => s.fired.length = 0) (rfl : Start new) (by decide) fun _ _ h => h

end TimersUser

end Zmq
