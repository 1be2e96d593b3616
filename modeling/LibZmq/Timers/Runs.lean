import LibZmq.Run
import LibZmq.Timers.Model

/-! A timers object, its user, and the handlers, which are called in the middle of `execute` and may make calls as the user
does. -/

namespace Zmq

universe u

/-- A call of `execute` that has not returned; `firing` is the timer whose handler is being called. -/
structure Execution (H : Type u) where
  now : UInt64
  it : Option ℕ
  firing : Option (TimerT H)

structure Firing where
  timerId : ℤ
  now : UInt64
  cancelled : Bool
  /-- when the timer was to fire, and its interval -/
  scheduled : Option (ℕ × UInt64)

structure TimersUser (H : Type u) where
  timers : TimersT H
  execution : Option (Execution H)
  cancelled : Finset ℤ
  /-- the next expiry and the interval that the calls have determined -/
  schedule : ℤ → Option (ℕ × UInt64)
  fired : List Firing

namespace TimersUser

open TimersT (Walk)

variable {H : Type u}

def new : TimersUser H := ⟨.new, none, ∅, fun _ => none, []⟩

/-- The calls, and the two parts of a round of `execute`: up to the call of a handler, and from its return on. -/
inductive Op (H : Type u) where
  | add (now interval : UInt64) (handler : H)
  | cancel (timerId : ℤ)
  | setInterval (now : UInt64) (timerId : ℤ) (interval : UInt64)
  | reset (now : UInt64) (timerId : ℤ)
  | timeout (now : UInt64)
  | execute (now : UInt64)
  | visit
  | resume

def firing (s : TimersUser H) : Option (TimerT H) := s.execution.bind Execution.firing

/-- Calls are made by the user between two calls of `execute`, or by a handler, which does not call `timeout` and `execute`. -/
def Ready (s : TimersUser H) : Op H → Prop
  | .timeout _ | .execute _ => s.execution.isNone = true
  | .visit => s.execution.isSome = true ∧ s.firing.isNone = true
  | .resume => s.firing.isSome = true
  | _ => s.execution.isNone = true ∨ s.firing.isSome = true

instance (s : TimersUser H) (op : Op H) : Decidable (s.Ready op) := by
  cases op <;> unfold Ready <;> infer_instance

/-- The next expiry and the interval of a timer become `x`. -/
def plan (s : TimersUser H) (timerId : ℤ) (x : Option (ℕ × UInt64)) : TimersUser H :=
  { s with schedule := Function.update s.schedule timerId x }

def visit (s : TimersUser H) (e : Execution H) : Except TimersFault (TimersUser H) :=
  (Walk.visit e.now ⟨s.timers, e.it⟩).map fun
    | .leaves => { s with execution := none }
    | .removes w => { s with timers := w.timers, execution := some { e with it := w.it } }
    | .calls timer =>
      plan { s with
          execution := some { e with firing := some timer }
          fired := s.fired ++ [⟨timer.timerId, e.now, decide (timer.timerId ∈ s.cancelled), s.schedule timer.timerId⟩] }
        timer.timerId (some ((e.now + timer.interval).toNat, timer.interval))

def resume (s : TimersUser H) (e : Execution H) (timer : TimerT H) : Except TimersFault (TimersUser H) :=
  (Walk.resume e.now timer ⟨s.timers, e.it⟩).map fun w =>
    { s with timers := w.timers, execution := some ⟨e.now, w.it, none⟩ }

def run (s : TimersUser H) : Op H → Except TimersFault (TimersUser H)
  | .add now interval handler =>
    (s.timers.add now interval handler).map fun x =>
      plan { s with timers := x.2 } x.1 (some ((now + interval).toNat, interval))
  | .cancel timerId =>
    let x := s.timers.cancel timerId
    .ok { s with timers := x.2, cancelled := if x.1 then insert timerId s.cancelled else s.cancelled }
  | .setInterval now timerId interval =>
    let x := s.timers.setInterval now timerId interval
    .ok (if x.1 then plan { s with timers := x.2 } timerId (some ((now + interval).toNat, interval)) else s)
  | .reset now timerId =>
    let x := s.timers.reset now timerId
    .ok (if x.1 then plan { s with timers := x.2 } timerId
        ((s.schedule timerId).map fun y => ((now + y.2).toNat, y.2)) else s)
  | .timeout now => (s.timers.timeout now).map fun x => { s with timers := x.2 }
  | .execute now => .ok { s with execution := some ⟨now, s.timers.timers.first, none⟩ }
  | .visit =>
    match s.execution with
    | none => .ok s
    | some e => s.visit e
  | .resume =>
    match s.execution with
    | none => .ok s
    | some e =>
      match e.firing with
      | none => .ok s
      | some timer => s.resume e timer

def Start (s : TimersUser H) : Prop := s = new

abbrev Step : TimersUser H → Op H → TimersUser H → Prop := Does Ready run

/-- What holds whatever handlers do: a timer has one entry at most, ids have been given out, and the entry that a handler is
called for is that of its timer, as long as it is there. -/
structure Base (s : TimersUser H) : Prop extends s.timers.Issued where
  firing : ∀ e timer, s.execution = some e → e.firing = some timer → ∃ ref, e.it = some ref ∧
    ref < s.timers.timers.nextRef ∧ ∀ n ∈ s.timers.timers.entries, n.ref = ref → n.value = timer

variable {s s' : TimersUser H} {e : Execution H} {timer : TimerT H} {op : Op H} {ops : List (Op H)} {t : TimersT H}

theorem visit_cases (hx : s.visit e = .ok s') :
    s' = { s with execution := none } ∨
    ∃ ref n, e.it = some ref ∧ n ∈ s.timers.timers.entries ∧ n.ref = ref ∧
      (n.value.timerId ∈ s.timers.cancelledTimers ∧
          s' = { s with timers := s.timers.remove n, execution := some { e with it := s.timers.timers.next ref } } ∨
        n.value.timerId ∉ s.timers.cancelledTimers ∧ n.key ≤ e.now.toNat ∧
          s' = plan { s with
              execution := some { e with firing := some n.value }
              fired := s.fired ++
                [⟨n.value.timerId, e.now, decide (n.value.timerId ∈ s.cancelled), s.schedule n.value.timerId⟩] }
            n.value.timerId (some ((e.now + n.value.interval).toNat, n.value.interval))) := by
  obtain ⟨v, hv, rfl⟩ := map_ok hx
  unfold Walk.visit at hv
  split at hv
  · cases hv
    exact .inl rfl
  · rename_i ref hit
    split at hv
    · exact nomatch hv
    · rename_i n hn
      obtain ⟨hmem, href⟩ := Multimap.mem_of_deref hn
      split_ifs at hv with hc hkey
      · cases hv
        exact .inr ⟨ref, n, hit, hmem, href, .inl ⟨hc, rfl⟩⟩
      · cases hv
        exact .inl rfl
      · cases hv
        exact .inr ⟨ref, n, hit, hmem, href, .inr ⟨hc, Nat.not_lt.mp hkey, rfl⟩⟩

theorem resume_cases (hx : s.resume e timer = .ok s') : ∃ ref n, e.it = some ref ∧ n ∈ s.timers.timers.entries ∧ n.ref = ref ∧
    s' = { s with
      timers := { s.timers with
        timers := (s.timers.timers.erase ref).insert (e.now + timer.interval).toNat timer }
      execution := some ⟨e.now, s.timers.timers.next ref, none⟩ } := by
  obtain ⟨w, hw, rfl⟩ := map_ok hx
  unfold Walk.resume at hw
  split at hw
  · exact nomatch hw
  · rename_i ref hit
    split at hw
    · exact nomatch hw
    · rename_i n hn
      obtain ⟨hmem, href⟩ := Multimap.mem_of_deref hn
      cases hw
      exact ⟨ref, n, hit, hmem, href, rfl⟩

theorem Base.grows (h : Base s) (ht : s.timers.Grows t) (hs : s'.timers = t) (he : s'.execution = s.execution) : Base s' := by
  refine ⟨hs ▸ ht.toIssued, fun e timer hexec hfiring => ?_⟩
  obtain ⟨ref, hit, hlt, hentry⟩ := h.firing e timer (he ▸ hexec) hfiring
  rw [hs]
  refine ⟨ref, hit, hlt.trans_le ht.nextRef, fun n hn href => ?_⟩
  rcases ht.entries n hn with hn | hn
  · exact hentry n hn href
  · omega

theorem Base.visit (h : Base s) (hr : e.firing = none) (hx : s.visit e = .ok s') : Base s' := by
  rcases visit_cases hx with rfl | ⟨ref, n, hit, hn, rfl, ⟨hc, rfl⟩ | ⟨-, -, rfl⟩⟩
  · exact ⟨h.toIssued, fun _ _ he => nomatch he⟩
  · have ht := h.sheds (TimersT.Sheds.remove h.distinct hn hc)
    refine ⟨ht.toIssued, fun e' timer he hfiring => ?_⟩
    cases he
    exact nomatch hr.symm.trans hfiring
  · refine ⟨h.toIssued, fun e' timer he hfiring => ?_⟩
    cases he
    cases hfiring
    refine ⟨n.ref, hit, s.timers.timers.bounded n hn, fun n' hn' href => ?_⟩
    rw [Multimap.eq_of_ref hn' hn href]

theorem Base.resume (h : Base s) (he : s.execution = some e) (hfiring : e.firing = some timer)
    (hx : s.resume e timer = .ok s') : Base s' := by
  obtain ⟨ref, n, hit, hn, rfl, rfl⟩ := resume_cases hx
  obtain ⟨ref', hit', -, hentry⟩ := h.firing e timer he hfiring
  cases hit.symm.trans hit'
  have htimer := hentry n hn rfl
  refine ⟨⟨h.distinct.replace hn (congrArg _ htimer.symm), fun n' hn' => ?_⟩, fun e' timer' he' hfiring' => ?_⟩
  · rcases Multimap.mem_insert.mp hn' with rfl | hn'
    · rw [← htimer]
      exact h.given n hn
    · exact h.given n' (Multimap.mem_erase.mp hn').1
  · cases he'
    exact nomatch hfiring'

theorem ready_visit (hr : s.Ready .visit) : ∃ e, s.execution = some e ∧ e.firing = none := by
  obtain ⟨hexec, hfiring⟩ := hr
  obtain ⟨e, he⟩ := Option.isSome_iff_exists.mp hexec
  refine ⟨e, he, ?_⟩
  unfold firing at hfiring
  rw [he] at hfiring
  simpa using hfiring

theorem ready_resume (hr : s.Ready .resume) : ∃ e timer, s.execution = some e ∧ e.firing = some timer := by
  obtain ⟨timer, htimer⟩ := Option.isSome_iff_exists.mp hr
  obtain ⟨e, he, hfiring⟩ := Option.bind_eq_some_iff.mp htimer
  exact ⟨e, timer, he, hfiring⟩

theorem run_visit (he : s.execution = some e) : s.run .visit = s.visit e := by
  unfold run
  rw [he]

theorem run_resume (he : s.execution = some e) (hfiring : e.firing = some timer) : s.run .resume = s.resume e timer := by
  unfold run
  rw [he]
  dsimp only
  rw [hfiring]

theorem step_base (h : Base s) (hs : Step s op s') : Base s' := by
  obtain ⟨hr, hx⟩ := hs
  cases op with
  | add now interval handler =>
    obtain ⟨⟨timerId, t⟩, ht, rfl⟩ := map_ok hx
    exact h.grows (h.add ht) rfl rfl
  | cancel timerId =>
    cases hx
    exact h.grows h.cancel rfl rfl
  | setInterval now timerId interval =>
    cases hx
    have ht : s.timers.Grows (s.timers.setInterval now timerId interval).2 := h.reinsert fun _ => rfl
    split_ifs
    · exact h.grows ht rfl rfl
    · exact h
  | reset now timerId =>
    cases hx
    have ht : s.timers.Grows (s.timers.reset now timerId).2 := h.reinsert fun _ => rfl
    split_ifs
    · exact h.grows ht rfl rfl
    · exact h
  | timeout now =>
    obtain ⟨⟨v, t⟩, ht, rfl⟩ := map_ok hx
    obtain ⟨v', t', ht', -, hsheds, -⟩ := TimersT.timeout_eq now h.distinct
    cases ht.symm.trans ht'
    exact h.grows (h.sheds hsheds) rfl rfl
  | execute now =>
    cases hx
    refine ⟨h.toIssued, fun e timer he hfiring => ?_⟩
    cases he
    exact nomatch hfiring
  | visit =>
    obtain ⟨e, he, hfiring⟩ := ready_visit hr
    rw [run_visit he] at hx
    exact h.visit hfiring hx
  | resume =>
    obtain ⟨e, timer, he, hfiring⟩ := ready_resume hr
    rw [run_resume he hfiring] at hx
    exact h.resume he hfiring hx

theorem new_base : Base (new : TimersUser H) where
  distinct _ hn := nomatch hn
  given _ hn := nomatch hn
  firing _ _ he := nomatch he

theorem run_base (h : Run Start Step ops s) : Base s :=
  h.invariant Base (fun s hs => by subst hs; exact new_base) fun _ _ _ hi hs => step_base hi hs

end TimersUser

end Zmq
