import LibZmq.Block
import LibZmq.Multimap
import Mathlib.Data.List.GetD

/-! The timers of `poller_base_t`, and callbacks that add and cancel timers while `execute_timers` goes through them. The readings
of the clock are arguments of the calls. -/

namespace Zmq

open List Option Multimap

@[ext] structure TimerInfoT (S : Type) where
  sink : S
  id : ℤ
deriving DecidableEq

/-- The keys are the values of an `uint64_t`. -/
structure PollerBaseT (S : Type) where
  timers : Multimap ℕ (TimerInfoT S)

inductive PollerFault where
  | assertion
  /-- an iterator is used whose entry has been erased -/
  | dangling

namespace PollerBaseT

variable {S : Type}

/-- The timeout is an `int`, which is extended before it is added. -/
def addTimer (t : PollerBaseT S) (now : UInt64) (timeout : Int32) (sink : S) (id : ℤ) : PollerBaseT S :=
  ⟨t.timers.insert (now + timeout.toInt64.toUInt64).toNat ⟨sink, id⟩⟩

/-- The first timer of the sink that has the id. -/
def cancelTimer [DecidableEq S] (t : PollerBaseT S) (sink : S) (id : ℤ) : Except PollerFault (PollerBaseT S) :=
  match t.timers.entries.find? fun n => n.value.sink = sink ∧ n.value.id = id with
  | none => .error .assertion
  | some n => .ok ⟨t.timers.erase n.ref⟩

/-- What the loop of `execute_timers` does with an entry. -/
inductive Visit (S : Type) where
  | returns (value : ℕ)
  | calls (info : TimerInfoT S)

/-- A round up to `timer_event`. -/
def visit (t : PollerBaseT S) (current : UInt64) (it : Option ℕ) : Except PollerFault (Visit S) :=
  match it with
  | none => .ok (.returns 0)
  | some ref =>
    match t.timers.deref? ref with
    | none => .error .dangling
    | some n => .ok (if current.toNat < n.key then .returns (n.key - current.toNat) else .calls n.value)

def resume (t : PollerBaseT S) (it : Option ℕ) : Except PollerFault (PollerBaseT S × Option ℕ) :=
  match it with
  | none => .error .dangling
  | some ref =>
    match t.timers.deref? ref with
    | none => .error .dangling
    | some _ => .ok (⟨t.timers.erase ref⟩, t.timers.next ref)

section

variable {t t' : PollerBaseT S} {now : UInt64} {timeout : Int32} {sink : S} {id : ℤ}

theorem toNat_add_timeout (h : 0 ≤ (now.toNat : ℤ) + timeout.toInt) (h' : (now.toNat : ℤ) + timeout.toInt < 2 ^ 64) :
    ((now + timeout.toInt64.toUInt64).toNat : ℤ) = (now.toNat : ℤ) + timeout.toInt := by
  have hextend : timeout.toInt64.toInt = timeout.toInt := Int32.toInt_toInt64 timeout
  have hcond : timeout.toInt64.toInt = if 2 * timeout.toInt64.toUInt64.toNat < 2 ^ 64
      then (timeout.toInt64.toUInt64.toNat : ℤ) else timeout.toInt64.toUInt64.toNat - (2 ^ 64 : ℕ) :=
    BitVec.toInt_eq_toNat_cond _
  rw [UInt64.toNat_add]
  rw [← hextend, hcond] at h h' ⊢
  split_ifs at h h' ⊢ <;> omega

theorem cancelTimer_eq [DecidableEq S] (h : t.cancelTimer sink id = .ok t') :
    ∃ n ∈ t.timers.entries, n.value = ⟨sink, id⟩ ∧ t' = ⟨t.timers.erase n.ref⟩ := by
  unfold cancelTimer at h
  split at h
  · exact nomatch h
  · rename_i n hfind
    have hvalue : n.value.sink = sink ∧ n.value.id = id := by simpa using find?_some hfind
    exact ⟨n, mem_of_find?_eq_some hfind, TimerInfoT.ext hvalue.1 hvalue.2, (Except.ok.inj h).symm⟩

theorem cancelTimer_ok [DecidableEq S] (h : ∃ n ∈ t.timers.entries, n.value = ⟨sink, id⟩) :
    ∃ t', t.cancelTimer sink id = .ok t' := by
  obtain ⟨n, hn, hvalue⟩ := h
  unfold cancelTimer
  split
  · rename_i hfind
    exact absurd (find?_eq_none.mp hfind n hn) (by simp [hvalue])
  · exact ⟨_, rfl⟩

variable {current : UInt64} {n : Entry ℕ (TimerInfoT S)} {rest : List (Entry ℕ (TimerInfoT S))}

theorem visit_nil (h : t.timers.entries = []) : t.visit current t.timers.first = .ok (.returns 0) := by
  rw [first_nil h]
  rfl

theorem visit_cons (h : t.timers.entries = n :: rest) : t.visit current t.timers.first =
    .ok (if current.toNat < n.key then .returns (n.key - current.toNat) else .calls n.value) := by
  have hderef : t.timers.deref? n.ref = some n := deref_mem (by simp [h])
  rw [first_cons h]
  unfold visit
  dsimp only
  rw [hderef]

theorem resume_cons (h : t.timers.entries = n :: rest) :
    t.resume t.timers.first = .ok (⟨t.timers.erase n.ref⟩, (t.timers.erase n.ref).first) := by
  have hat : t.timers.At (some n.ref) [] (n :: rest) := ⟨h, rfl⟩
  have hnext := hat.next.erase_last
  have hfirst : (t.timers.erase n.ref).first = t.timers.next n.ref :=
    (congrArg (fun l => l.head?.map Entry.ref) hnext.entries).trans hnext.it.symm
  rw [first_cons h, hfirst]
  unfold resume
  dsimp only
  rw [hat.deref.2]

end

end PollerBaseT

/-- A call of `execute_timers` that has not returned; `firing` is the timer whose `timer_event` is being called. -/
structure TimerSweep (S : Type) where
  current : UInt64
  it : Option ℕ
  firing : Option (TimerInfoT S)

/-- What a call of `execute_timers` has returned, and the expiries of the timers that then remain. -/
structure SweepResult where
  current : UInt64
  value : ℕ
  remaining : List ℤ
deriving DecidableEq

structure AddedTimer (S : Type) where
  expiry : ℤ
  info : TimerInfoT S

/-- A call of `timer_event`. -/
structure TimerEvent (S : Type) where
  timer : ℕ
  current : UInt64
  info : TimerInfoT S

/-- A call of `cancel_timer`, and the timers it has taken away. -/
structure CancelCall (S : Type) where
  info : TimerInfoT S
  timers : List ℕ

/-- A poller, its sinks, and what has become of the timers, which are numbered as they are added. -/
structure PollerUser (S : Type) where
  poller : PollerBaseT S
  sweep : Option (TimerSweep S)
  added : List (AddedTimer S)
  events : List (TimerEvent S)
  cancels : List (CancelCall S)
  returned : List SweepResult

namespace PollerUser

variable {S : Type}

def new : PollerUser S := ⟨⟨.empty⟩, none, [], [], [], []⟩

inductive Op (S : Type) where
  | addTimer (now : UInt64) (timeout : Int32) (sink : S) (id : ℤ)
  | cancelTimer (sink : S) (id : ℤ)
  | executeTimers (current : UInt64)
  | visit
  | resume

def firing (s : PollerUser S) : Option (TimerInfoT S) := s.sweep.bind TimerSweep.firing

/-- Sinks make calls between two calls of `execute_timers` or in a callback. They cancel timers that exist, and none with the sink and
the id of the one whose callback it is. -/
def Ready [DecidableEq S] (s : PollerUser S) : Op S → Prop
  | .addTimer _ _ _ _ => s.sweep.isNone = true ∨ s.firing.isSome = true
  | .cancelTimer sink id => (s.sweep.isNone = true ∨ s.firing.isSome = true) ∧
      (∃ n ∈ s.poller.timers.entries, n.value = ⟨sink, id⟩) ∧ s.firing ≠ some ⟨sink, id⟩
  | .executeTimers _ => s.sweep.isNone = true
  | .visit => s.sweep.isSome = true ∧ s.firing.isNone = true
  | .resume => s.firing.isSome = true

instance [DecidableEq S] (s : PollerUser S) (op : Op S) : Decidable (s.Ready op) := by
  cases op <;> unfold Ready <;> infer_instance

def fired (s : PollerUser S) : List ℕ := s.events.map TimerEvent.timer

def cancelled (s : PollerUser S) : List ℕ := s.cancels.flatMap CancelCall.timers

/-- The timers that have been added and have neither fired nor been cancelled. -/
def Remains (s : PollerUser S) (timer : ℕ) : Prop :=
  timer < s.added.length ∧ timer ∉ s.fired ∧ timer ∉ s.cancelled

instance (s : PollerUser S) (timer : ℕ) : Decidable (s.Remains timer) := by
  unfold Remains
  infer_instance

def expiry (s : PollerUser S) (timer : ℕ) : ℤ := (s.added[timer]?.map AddedTimer.expiry).getD 0

def returns (s : PollerUser S) (current : UInt64) (value : ℕ) : PollerUser S :=
  { s with
    sweep := none
    returned := s.returned ++ [⟨current, value, ((range s.added.length).filter (s.Remains ·)).map s.expiry⟩] }

section

variable [DecidableEq S]

def run (s : PollerUser S) : Op S → Except PollerFault (PollerUser S)
  | .addTimer now timeout sink id => .ok { s with
      poller := s.poller.addTimer now timeout sink id
      added := s.added ++ [⟨(now.toNat : ℤ) + timeout.toInt, sink, id⟩] }
  | .cancelTimer sink id =>
    (s.poller.cancelTimer sink id).map fun poller => { s with
      poller := poller
      cancels := s.cancels ++
        [⟨⟨sink, id⟩, (s.poller.timers.entries.filter fun n => n ∉ poller.timers.entries).map Entry.ref⟩] }
  | .executeTimers current =>
    .ok (if s.poller.timers.entries = [] then s.returns current 0
      else { s with sweep := some ⟨current, s.poller.timers.first, none⟩ })
  | .visit =>
    match s.sweep with
    | none => .ok s
    | some e =>
      (s.poller.visit e.current e.it).map fun
        | .returns value => s.returns e.current value
        | .calls info => { s with
            sweep := some { e with firing := some info }
            events := s.events ++ e.it.toList.map fun timer => ⟨timer, e.current, info⟩ }
  | .resume =>
    match s.sweep with
    | none => .ok s
    | some e => (s.poller.resume e.it).map fun x => { s with poller := x.1, sweep := some ⟨e.current, x.2, none⟩ }

def Start (s : PollerUser S) : Prop := s = new

abbrev Step : PollerUser S → Op S → PollerUser S → Prop := Does Ready run

end

/-- What is promised of the timers: each fires once at most, when it has expired, and not once it has been cancelled, and what is
returned is the time to the earliest one that remains, or 0. -/
structure FireOnce (s : PollerUser S) : Prop where
  once : s.fired.Nodup
  expired : ∀ event ∈ s.events, ∃ expiry : ℤ, s.added[event.timer]? = some ⟨expiry, event.info⟩ ∧ expiry ≤ event.current.toNat
  cancelled : ∀ call ∈ s.cancels, ∃ timer expiry, call.timers = [timer] ∧ s.added[timer]? = some ⟨expiry, call.info⟩ ∧
    timer ∉ s.fired
  /-- the poller keeps the timers that remain -/
  kept : ∀ timer, s.Remains timer → ∃ n ∈ s.poller.timers.entries, n.ref = timer
  returned : ∀ r ∈ s.returned, (r.value = 0 ↔ r.remaining = []) ∧
    ∀ x, IsLeast {x | x ∈ r.remaining} x → 0 < r.value ∧ (r.value : ℤ) = x - r.current.toNat

/-- No expiry wraps around, and one that is added in a callback is not before that of the timer whose callback it is. -/
def Keeps (s : PollerUser S) : Op S → Prop
  | .addTimer now timeout _ _ => 0 ≤ (now.toNat : ℤ) + timeout.toInt ∧ (now.toNat : ℤ) + timeout.toInt < 2 ^ 64 ∧
      ∀ e ∈ s.sweep, ∀ timer ∈ e.it, s.expiry timer ≤ (now.toNat : ℤ) + timeout.toInt
  | _ => True

instance (s : PollerUser S) (op : Op S) : Decidable (s.Keeps op) := by
  cases op <;> unfold Keeps <;> infer_instance

structure Sound (s : PollerUser S) : Prop extends FireOnce s where
  count : s.added.length = s.poller.timers.nextRef
  recorded : ∀ n ∈ s.poller.timers.entries, s.added[n.ref]? = some ⟨n.key, n.value⟩
  live : ∀ n ∈ s.poller.timers.entries, n.ref ∉ s.cancelled
  /-- a timer that has fired is only kept until its callback returns -/
  firing : ∀ n ∈ s.poller.timers.entries, n.ref ∈ s.fired → s.firing.isSome = true ∧ s.poller.timers.first = some n.ref
  front : ∀ e ∈ s.sweep, e.it = s.poller.timers.first ∧ ∀ info ∈ e.firing, ∃ n rest,
    s.poller.timers.entries = n :: rest ∧ n.value = info ∧ n.ref ∈ s.fired

variable {s s' : PollerUser S} {e : TimerSweep S} {n : Entry ℕ (TimerInfoT S)} {rest : List (Entry ℕ (TimerInfoT S))}
  {info : TimerInfoT S} {now current : UInt64} {timeout : Int32} {sink : S} {id : ℤ} {timer value : ℕ} {op : Op S} {ops : List (Op S)}

theorem firing_of (he : s.sweep = some e) : s.firing = e.firing := by
  unfold PollerUser.firing
  rw [he]
  rfl

theorem firing_none (h : s.sweep.isNone = true) : s.firing = none := by
  unfold PollerUser.firing
  rw [isNone_iff_eq_none.mp h]
  rfl

theorem expiry_of {x : AddedTimer S} (h : s.added[timer]? = some x) : s.expiry timer = x.expiry := by
  unfold expiry
  rw [h]
  rfl

theorem mem_cancelled : timer ∈ s.cancelled ↔ ∃ call ∈ s.cancels, timer ∈ call.timers := mem_flatMap

theorem FireOnce.fired_lt (h : FireOnce s) (ht : timer ∈ s.fired) : timer < s.added.length := by
  obtain ⟨event, hevent, rfl⟩ := mem_map.mp ht
  obtain ⟨expiry, hadded, -⟩ := h.expired event hevent
  exact (List.getElem?_eq_some_iff.mp hadded).1

theorem FireOnce.cancelled_lt (h : FireOnce s) (ht : timer ∈ s.cancelled) : timer < s.added.length := by
  obtain ⟨call, hcall, hmem⟩ := mem_cancelled.mp ht
  obtain ⟨timer', expiry, htimers, hadded, -⟩ := h.cancelled call hcall
  rw [htimers, mem_singleton] at hmem
  rw [hmem]
  exact (List.getElem?_eq_some_iff.mp hadded).1

theorem Sound.not_fired (h : Sound s) (hf : s.firing = none) (hn : n ∈ s.poller.timers.entries) : n.ref ∉ s.fired := by
  intro hfired
  have hsome := (h.firing n hn hfired).1
  rw [hf] at hsome
  exact nomatch hsome

theorem Sound.remains_iff (h : Sound s) (hf : s.firing = none) :
    s.Remains timer ↔ ∃ n ∈ s.poller.timers.entries, n.ref = timer := by
  refine ⟨h.kept timer, ?_⟩
  rintro ⟨n, hn, rfl⟩
  exact ⟨(List.getElem?_eq_some_iff.mp (h.recorded n hn)).1, h.not_fired hf hn, h.live n hn⟩

theorem Sound.mem_remaining (h : Sound s) (hf : s.firing = none) {x : ℤ} :
    x ∈ ((range s.added.length).filter (s.Remains ·)).map s.expiry ↔ ∃ n ∈ s.poller.timers.entries, (n.key : ℤ) = x := by
  constructor
  · intro hx
    obtain ⟨timer, htimer, rfl⟩ := mem_map.mp hx
    obtain ⟨n, hn, rfl⟩ := (h.remains_iff hf).mp (of_decide_eq_true (mem_filter.mp htimer).2)
    exact ⟨n, hn, (expiry_of (h.recorded n hn)).symm⟩
  · rintro ⟨n, hn, rfl⟩
    have hremains := (h.remains_iff hf).mpr ⟨n, hn, rfl⟩
    refine mem_map.mpr ⟨n.ref, mem_filter.mpr ⟨mem_range.mpr hremains.1, decide_eq_true hremains⟩, ?_⟩
    exact expiry_of (h.recorded n hn)

theorem Sound.returns (h : Sound s) (hf : s.firing = none)
    (hv : (s.poller.timers.entries = [] ∧ value = 0) ∨
      ∃ n rest, s.poller.timers.entries = n :: rest ∧ current.toNat < n.key ∧ value = n.key - current.toNat) :
    Sound (s.returns current value) := by
  refine { h with
    returned := fun r hr => ?_
    firing := fun n hn hfired => absurd hfired (h.not_fired hf hn)
    front := fun e he => nomatch he }
  · rcases mem_append.mp hr with hr | hr
    · exact h.returned r hr
    obtain rfl := mem_singleton.mp hr
    dsimp only
    rcases hv with ⟨hnil, rfl⟩ | ⟨n, rest, heq, hlt, rfl⟩
    · have hremaining : ((range s.added.length).filter (s.Remains ·)).map s.expiry = [] := by
        refine eq_nil_iff_forall_not_mem.mpr fun x hx => ?_
        obtain ⟨n, hn, -⟩ := (h.mem_remaining hf).mp hx
        rw [hnil] at hn
        exact nomatch hn
      rw [hremaining]
      exact ⟨iff_of_true rfl rfl, fun x hx => nomatch hx.1⟩
    · have hn : n ∈ s.poller.timers.entries := by simp [heq]
      have hmem := (h.mem_remaining hf).mpr ⟨n, hn, rfl⟩
      refine ⟨iff_of_false (by omega) (ne_nil_of_mem hmem), fun x hx => ?_⟩
      obtain ⟨m, hm, rfl⟩ := (h.mem_remaining hf).mp hx.1
      have hle : (m.key : ℤ) ≤ n.key := hx.2 hmem
      have hge : n.key ≤ m.key := by
        have hsorted := s.poller.timers.sorted
        rw [heq] at hm hsorted
        rcases mem_cons.mp hm with rfl | hm
        · exact le_refl _
        · exact (pairwise_cons.mp hsorted).1 m hm
      omega

theorem Sound.fires (h : Sound s) (hf : s.firing = none) (heq : s.poller.timers.entries = n :: rest) (hdue : n.key ≤ current.toNat) :
    Sound { s with
      sweep := some ⟨current, s.poller.timers.first, some n.value⟩
      events := s.events ++ [⟨n.ref, current, n.value⟩] } := by
  have hn : n ∈ s.poller.timers.entries := by simp [heq]
  have hfired : fired { s with
      sweep := some ⟨current, s.poller.timers.first, some n.value⟩
      events := s.events ++ [⟨n.ref, current, n.value⟩] } = s.fired ++ [n.ref] := map_append
  refine ⟨⟨?_, fun event hevent => ?_, fun call hcall => ?_, fun timer htimer => ?_, h.returned⟩, h.count, h.recorded, h.live,
    fun n' hn' hmem => ?_, fun e he => ?_⟩
  · rw [hfired]
    refine nodup_append.mpr ⟨h.once, nodup_singleton _, fun x hx y hy hxy => h.not_fired hf hn ?_⟩
    rwa [← mem_singleton.mp hy, ← hxy]
  · rcases mem_append.mp hevent with hevent | hevent
    · exact h.expired event hevent
    · obtain rfl := mem_singleton.mp hevent
      exact ⟨n.key, h.recorded n hn, Int.ofNat_le.mpr hdue⟩
  · obtain ⟨timer, expiry, htimers, hadded, hnot⟩ := h.cancelled call hcall
    refine ⟨timer, expiry, htimers, hadded, ?_⟩
    rw [hfired, mem_append, not_or]
    refine ⟨hnot, fun hmem => h.live n hn ?_⟩
    rw [← mem_singleton.mp hmem]
    exact mem_cancelled.mpr ⟨call, hcall, by simp [htimers]⟩
  · obtain ⟨hlt, hnot, hkept⟩ := htimer
    rw [hfired, mem_append, not_or] at hnot
    exact h.kept timer ⟨hlt, hnot.1, hkept⟩
  · rw [hfired] at hmem
    have href := mem_singleton.mp ((mem_append.mp hmem).resolve_left (h.not_fired hf hn'))
    exact ⟨rfl, by rw [href]; exact first_cons heq⟩
  · cases he
    refine ⟨rfl, fun info hinfo => ⟨n, rest, heq, some.inj hinfo, ?_⟩⟩
    rw [hfired]
    exact mem_append_right _ (mem_singleton_self _)

theorem Sound.executeTimers [DecidableEq S] (h : Sound s) (hr : s.Ready (.executeTimers current))
    (hx : s.run (.executeTimers current) = .ok s') : Sound s' := by
  have hf := firing_none hr
  cases hx
  split_ifs with hnil
  · exact h.returns hf (.inl ⟨hnil, rfl⟩)
  · refine { h with
      firing := fun n hn hfired => absurd hfired (h.not_fired hf hn)
      front := fun e he => ?_ }
    cases he
    exact ⟨rfl, fun info hinfo => nomatch hinfo⟩

theorem Sound.addTimer [DecidableEq S] (h : Sound s) (hr : s.Ready (.addTimer now timeout sink id))
    (hk : s.Keeps (.addTimer now timeout sink id)) (hx : s.run (.addTimer now timeout sink id) = .ok s') : Sound s' := by
  obtain ⟨hlow, hhigh, hkeeps⟩ := hk
  have hkey := PollerBaseT.toNat_add_timeout hlow hhigh
  have hold : ∀ (timer : ℕ) (x : AddedTimer S), s.added[timer]? = some x → s'.added[timer]? = some x := by
    intro timer x hx'
    cases hx
    exact (List.getElem?_append_left (List.getElem?_eq_some_iff.mp hx').1).trans hx'
  have hfresh : s.poller.timers.nextRef ∉ s.fired := fun hmem => by
    have := h.fired_lt hmem
    have := h.count
    omega
  have hfreshCancelled : s.poller.timers.nextRef ∉ s.cancelled := fun hmem => by
    have := h.cancelled_lt hmem
    have := h.count
    omega
  have hfront : ∀ e ∈ s.sweep, ∃ n rest, s.poller.timers.entries = n :: rest ∧ e.it = some n.ref ∧ n.ref ∈ s.fired ∧
      (∀ info ∈ e.firing, n.value = info) ∧ s'.poller.timers.entries = n :: place rest
        ⟨s.poller.timers.nextRef, (now + timeout.toInt64.toUInt64).toNat, ⟨sink, id⟩⟩ := by
    intro e he
    obtain ⟨hit, hfiring⟩ := h.front e he
    have hsome : s.firing.isSome = true := hr.resolve_left (by rw [mem_def.mp he]; exact Bool.false_ne_true)
    rw [firing_of he] at hsome
    obtain ⟨info, hinfo⟩ := isSome_iff_exists.mp hsome
    obtain ⟨n, rest, heq, hvalue, hfired⟩ := hfiring info hinfo
    have hitn : e.it = some n.ref := hit.trans (first_cons heq)
    have hle := hkeeps e he n.ref hitn
    rw [expiry_of (h.recorded n (by simp [heq]))] at hle
    refine ⟨n, rest, heq, hitn, hfired, fun info' hinfo' => ?_, ?_⟩
    · rw [hvalue]
      exact mem_unique hinfo hinfo'
    · cases hx
      change place s.poller.timers.entries _ = _
      rw [heq, place_cons_le]
      dsimp only at hle ⊢
      omega
  cases hx
  refine ⟨⟨h.once, fun event hevent => ?_, fun call hcall => ?_, fun timer htimer => ?_, h.returned⟩, ?_, fun n hn => ?_, fun n hn => ?_,
    fun n hn hfired => ?_, fun e he => ?_⟩
  · obtain ⟨expiry, hadded, hle⟩ := h.expired event hevent
    exact ⟨expiry, hold _ _ hadded, hle⟩
  · obtain ⟨timer, expiry, htimers, hadded, hfired⟩ := h.cancelled call hcall
    exact ⟨timer, expiry, htimers, hold _ _ hadded, hfired⟩
  · obtain ⟨hlt, hfired, hcancelled⟩ := htimer
    rcases Nat.lt_or_ge timer s.added.length with hlt' | hge
    · obtain ⟨n, hn, hnref⟩ := h.kept timer ⟨hlt', hfired, hcancelled⟩
      exact ⟨n, mem_insert.mpr (.inr hn), hnref⟩
    · refine ⟨_, mem_insert.mpr (.inl rfl), ?_⟩
      rw [length_append, length_singleton] at hlt
      have := h.count
      dsimp only
      omega
  · exact (length_append).trans (congrArg (· + 1) h.count)
  · rcases mem_insert.mp hn with rfl | hn
    · rw [hkey, ← h.count, getElem?_concat_length]
    · exact hold _ _ (h.recorded n hn)
  · rcases mem_insert.mp hn with rfl | hn
    · exact hfreshCancelled
    · exact h.live n hn
  · rcases mem_insert.mp hn with rfl | hn
    · exact absurd hfired hfresh
    · obtain ⟨hsome, hfirst⟩ := h.firing n hn hfired
      refine ⟨hsome, ?_⟩
      obtain ⟨info, hinfo⟩ := isSome_iff_exists.mp hsome
      obtain ⟨e, he, -⟩ := bind_eq_some_iff.mp hinfo
      obtain ⟨n', rest, heq, -, -, -, heq'⟩ := hfront e he
      rw [first_cons heq] at hfirst
      exact (first_cons heq').trans hfirst
  · obtain ⟨n, rest, -, hit, hfired, hvalue, heq⟩ := hfront e he
    refine ⟨?_, fun info hinfo => ⟨n, _, heq, hvalue info hinfo, hfired⟩⟩
    rw [hit]
    exact (first_cons heq).symm

theorem Sound.cancelTimer [DecidableEq S] (h : Sound s) (hr : s.Ready (.cancelTimer sink id))
    (hx : s.run (.cancelTimer sink id) = .ok s') : Sound s' := by
  obtain ⟨poller, hcancel, rfl⟩ := map_ok hx
  obtain ⟨n, hn, hvalue, rfl⟩ := PollerBaseT.cancelTimer_eq hcancel
  rw [filter_notMem_erase hn]
  have hcancelled : ∀ timer, timer ∈ cancelled { s with
      poller := ⟨s.poller.timers.erase n.ref⟩, cancels := s.cancels ++ [⟨⟨sink, id⟩, [n].map Entry.ref⟩] } ↔
      timer ∈ s.cancelled ∨ timer = n.ref := by
    intro timer
    unfold cancelled
    simp
  -- the timer whose callback it is has another sink or id
  have hfront : ∀ e ∈ s.sweep, ∀ info ∈ e.firing, ∃ n' rest, s.poller.timers.entries = n' :: rest ∧ n'.value = info ∧
      n'.ref ∈ s.fired ∧ (s.poller.timers.erase n.ref).entries = n' :: rest.filter (·.ref ≠ n.ref) := by
    intro e he info hinfo
    obtain ⟨n', rest, heq, hvalue', hfired⟩ := (h.front e he).2 info hinfo
    refine ⟨n', rest, heq, hvalue', hfired, ?_⟩
    change s.poller.timers.entries.filter _ = _
    rw [heq, filter_cons_of_pos]
    refine decide_eq_true fun href => hr.2.2 ?_
    rw [firing_of he, mem_def.mp hinfo, ← hvalue', ← hvalue,
      eq_of_ref (m := s.poller.timers) (by simp [heq]) hn href]
  have hfiringOf : s.firing.isSome = true → ∃ e ∈ s.sweep, ∃ info, info ∈ e.firing := by
    intro hsome
    obtain ⟨info, hinfo⟩ := isSome_iff_exists.mp hsome
    obtain ⟨e, he, hinfo⟩ := bind_eq_some_iff.mp hinfo
    exact ⟨e, he, info, hinfo⟩
  have hfirst : s.firing.isSome = true → (s.poller.timers.erase n.ref).first = s.poller.timers.first := by
    intro hsome
    obtain ⟨e, he, info, hinfo⟩ := hfiringOf hsome
    obtain ⟨n', rest, heq, -, -, heq'⟩ := hfront e he info hinfo
    rw [first_cons heq, first_cons heq']
  have hnot : n.ref ∉ s.fired := by
    intro hfired
    obtain ⟨hsome, hfirst'⟩ := h.firing n hn hfired
    obtain ⟨e, he, info, hinfo⟩ := hfiringOf hsome
    obtain ⟨n', rest, heq, -, -, heq'⟩ := hfront e he info hinfo
    have hn' : n' ∈ (s.poller.timers.erase n.ref).entries := by simp [heq']
    rw [first_cons heq] at hfirst'
    exact (mem_erase.mp hn').2 (some.inj hfirst')
  refine ⟨⟨h.once, h.expired, fun call hcall => ?_, fun timer htimer => ?_, h.returned⟩, h.count, fun n' hn' => ?_, fun n' hn' => ?_,
    fun n' hn' hfired => ?_, fun e he => ?_⟩
  · rcases mem_append.mp hcall with hcall | hcall
    · exact h.cancelled call hcall
    · obtain rfl := mem_singleton.mp hcall
      exact ⟨n.ref, n.key, rfl, by rw [← hvalue]; exact h.recorded n hn, hnot⟩
  · obtain ⟨hlt, hfired, hkept⟩ := htimer
    rw [hcancelled, not_or] at hkept
    obtain ⟨n', hn', rfl⟩ := h.kept timer ⟨hlt, hfired, hkept.1⟩
    exact ⟨n', mem_erase.mpr ⟨hn', hkept.2⟩, rfl⟩
  · exact h.recorded n' (mem_erase.mp hn').1
  · obtain ⟨hmem, hne⟩ := mem_erase.mp hn'
    rw [hcancelled, not_or]
    exact ⟨h.live n' hmem, hne⟩
  · obtain ⟨hsome, hfirst'⟩ := h.firing n' (mem_erase.mp hn').1 hfired
    exact ⟨hsome, (hfirst hsome).trans hfirst'⟩
  · refine ⟨?_, fun info hinfo => ?_⟩
    · have hsome : s.firing.isSome = true := hr.1.resolve_left (by rw [mem_def.mp he]; exact Bool.false_ne_true)
      exact (h.front e he).1.trans (hfirst hsome).symm
    · obtain ⟨n', rest, -, hvalue', hfired, heq'⟩ := hfront e he info hinfo
      exact ⟨n', _, heq', hvalue', hfired⟩

theorem Sound.visit [DecidableEq S] (h : Sound s) (hr : s.Ready .visit) (hx : s.run .visit = .ok s') : Sound s' := by
  obtain ⟨hsome, hnone⟩ := hr
  have hf : s.firing = none := isNone_iff_eq_none.mp hnone
  obtain ⟨e, he⟩ := isSome_iff_exists.mp hsome
  have hit : e.it = s.poller.timers.first := (h.front e he).1
  unfold run at hx
  rw [he] at hx
  obtain ⟨v, hv, rfl⟩ := map_ok hx
  rw [hit] at hv
  cases heq : s.poller.timers.entries with
  | nil =>
    cases (PollerBaseT.visit_nil heq).symm.trans hv
    exact h.returns hf (.inl ⟨heq, rfl⟩)
  | cons n rest =>
    cases (PollerBaseT.visit_cons heq).symm.trans hv
    split_ifs with hlt
    · exact h.returns hf (.inr ⟨n, rest, heq, hlt, rfl⟩)
    · have hfires := h.fires hf heq (Nat.not_lt.mp hlt)
      rw [first_cons heq] at hfires hit
      rw [hit]
      exact hfires

theorem Sound.resume [DecidableEq S] (h : Sound s) (hr : s.Ready .resume) (hx : s.run .resume = .ok s') : Sound s' := by
  obtain ⟨info, hinfo⟩ := isSome_iff_exists.mp hr
  obtain ⟨e, he, hfiring⟩ := bind_eq_some_iff.mp hinfo
  obtain ⟨hit, hfront⟩ := h.front e he
  obtain ⟨n, rest, heq, -, hn⟩ := hfront info hfiring
  unfold run at hx
  rw [he] at hx
  obtain ⟨x, hresume, rfl⟩ := map_ok hx
  rw [hit] at hresume
  cases (PollerBaseT.resume_cons heq).symm.trans hresume
  refine { h with
    kept := fun timer htimer => ?_
    recorded := fun m hm => h.recorded m (mem_erase.mp hm).1
    live := fun m hm => h.live m (mem_erase.mp hm).1
    firing := fun m hm hfired => ?_
    front := fun e' he' => ?_ }
  · obtain ⟨m, hm, rfl⟩ := h.kept timer htimer
    refine ⟨m, mem_erase.mpr ⟨hm, fun href => htimer.2.1 ?_⟩, rfl⟩
    rw [href]
    exact hn
  · obtain ⟨hmem, hne⟩ := mem_erase.mp hm
    have hfirst := (h.firing m hmem hfired).2
    rw [first_cons heq] at hfirst
    exact absurd (some.inj hfirst).symm hne
  · cases he'
    exact ⟨rfl, fun info hinfo => nomatch hinfo⟩

theorem sound_new : Sound (new : PollerUser S) := by
  have hnone : ∀ n ∈ (new : PollerUser S).poller.timers.entries, False := nofun
  refine ⟨⟨nodup_nil, ?_, ?_, fun timer htimer => absurd htimer.1 (Nat.not_lt_zero timer), ?_⟩, rfl,
    fun n hn => (hnone n hn).elim, fun n hn => (hnone n hn).elim, fun n hn => (hnone n hn).elim, ?_⟩
  · intro event hevent
    exact nomatch hevent
  · intro call hcall
    exact nomatch hcall
  · intro r hr
    exact nomatch hr
  · intro e he
    exact nomatch he

variable [DecidableEq S]

theorem Sound.step (h : Sound s) (hr : s.Ready op) (hk : s.Keeps op) (hx : s.run op = .ok s') : Sound s' := by
  cases op with
  | addTimer now timeout sink id => exact h.addTimer hr hk hx
  | cancelTimer sink id => exact h.cancelTimer hr hx
  | executeTimers current => exact h.executeTimers hr hx
  | visit => exact h.visit hr hx
  | resume => exact h.resume hr hx

theorem run_sound (h : Run Start (Guarded Keeps Step) ops s) : Sound s :=
  h.invariant Sound (fun _ hs => hs ▸ sound_new) fun _ _ _ hs hstep => hs.step hstep.2.1 hstep.1 hstep.2.2

theorem Sound.goes (h : Sound s) (hr : s.Ready op) : ∃ s', s.run op = .ok s' := by
  cases op with
  | addTimer now timeout sink id | executeTimers current => exact ⟨_, rfl⟩
  | cancelTimer sink id =>
    obtain ⟨t, ht⟩ := PollerBaseT.cancelTimer_ok hr.2.1
    exact ⟨_, congrArg (Except.map _) ht⟩
  | visit =>
    obtain ⟨e, he⟩ := isSome_iff_exists.mp hr.1
    unfold run
    rw [he]
    dsimp only
    rw [(h.front e he).1]
    cases heq : s.poller.timers.entries with
    | nil =>
      rw [PollerBaseT.visit_nil heq]
      exact ⟨_, rfl⟩
    | cons n rest =>
      rw [PollerBaseT.visit_cons heq]
      exact ⟨_, rfl⟩
  | resume =>
    obtain ⟨info, hinfo⟩ := isSome_iff_exists.mp hr
    obtain ⟨e, he, hfiring⟩ := bind_eq_some_iff.mp hinfo
    obtain ⟨hit, hfront⟩ := h.front e he
    obtain ⟨n, rest, heq, -, -⟩ := hfront info hfiring
    unfold run
    rw [he]
    dsimp only
    rw [hit, PollerBaseT.resume_cons heq]
    exact ⟨_, rfl⟩

/-- As long as no expiry wraps around and callbacks add no timer that goes before their own, each timer fires once unless it has been
cancelled, no call fails, and the time to the next timer is returned. -/
theorem timers_fire_once (h : Run Start (Guarded Keeps Step) ops s) : FireOnce s ∧ ∀ op, s.Ready op → ∃ s', s.run op = .ok s' :=
  ⟨(run_sound h).toFireOnce, fun _ hr => (run_sound h).goes hr⟩

/-- A callback cancels one of two timers with one sink and id, and adds another that is due at once. -/
def callbackCalls : List (Op ℕ) :=
  [.addTimer 0 10 1 1, .addTimer 0 10 2 1, .addTimer 5 10 2 1, .executeTimers 10, .visit, .cancelTimer 2 1, .addTimer 10 0 3 1, .resume,
    .visit, .resume, .visit]

theorem timers_fire_once_calls : ∃ s : PollerUser ℕ, Run Start (Guarded Keeps Step) callbackCalls s ∧
    s.fired = [0, 3] ∧ s.returned = [⟨10, 5, [15]⟩] ∧ FireOnce s :=
  exists_run (P := fun s => s.fired = [0, 3] ∧ s.returned = [⟨10, 5, [15]⟩]) (rfl : Start new) (by decide)
    fun _ hs ⟨hfired, hreturned⟩ => ⟨hfired, hreturned, (timers_fire_once hs).1⟩

/-- A callback adds a timer with a negative timeout. -/
def negativeTimeout : List (Op ℕ) :=
  [.addTimer 0 10 1 1, .executeTimers 10, .visit, .addTimer 10 (-1) 1 2, .resume, .visit]

theorem timers_can_be_missed : ∃ s : PollerUser ℕ, Run Start Step negativeTimeout s ∧ s.Remains 1 ∧
    s.returned = [⟨10, 0, [9]⟩] ∧ ¬ FireOnce s := by
  refine exists_run_free (P := fun s => s.Remains 1 ∧ s.returned = [⟨10, 0, [9]⟩]) (rfl : Start new) (by decide)
    fun s _ ⟨hremains, hreturned⟩ => ⟨hremains, hreturned, fun h => ?_⟩
  have hr := (h.returned ⟨10, 0, [9]⟩ (by simp [hreturned])).1
  exact absurd (hr.mp rfl) (cons_ne_nil 9 [])

end PollerUser

end Zmq
