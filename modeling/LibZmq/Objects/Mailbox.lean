import LibZmq.Run
import LibZmq.Ypipe.Refine

/-! `mailbox_t`: any number of threads send commands, one thread receives them. Senders take turns at the pipe,
but signal after they have let the next one in. -/

namespace Zmq

open Option Bool YPipe

universe u v

/-- How far a thread is in `send`. -/
inductive SendPoint (T : Type u) where
  | outside
  | locked (cmd : T)
  | written
  /-- the compare-and-swap of `flush` has failed -/
  | swapFailed
  /-- `flush` has returned, `sync` is still locked -/
  | flushed (ok : Bool)
  /-- `sync` has been unlocked, the signal is to be sent -/
  | owing
deriving DecidableEq

namespace SendPoint

variable {T : Type u}

def holds : SendPoint T → Bool
  | .outside | .owing => false
  | _ => true

/-- `flush` has returned false, and no signal has been sent yet. -/
def owes : SendPoint T → Bool
  | .flushed false | .owing => true
  | _ => false

def writing : SendPoint T → Bool
  | .written | .swapFailed => true
  | _ => false

end SendPoint

/-- How far the receiver is in `recv`. -/
inductive RecvPoint where
  | outside
  | reading
  | waiting
  | signalled
  | woken
deriving DecidableEq

/-- `S` is the type of the threads that send. -/
structure Mailbox (S : Type v) (T : Type u) where
  cpipe : YPipe T
  /-- what is in the signaler -/
  signals : ℕ
  active : Bool
  sync : Option S
  senders : S → SendPoint T
  receiver : RecvPoint
  sent : List T
  received : List T

namespace Mailbox

variable {S : Type v} {T : Type u}

/-- The steps of `send` and `recv`, each with one access to what threads share. -/
inductive Op (S : Type v) (T : Type u) where
  | lock (t : S) (cmd : T)
  | write (t : S) (cmd : T)
  | flush (t : S)
  /-- the rest of a `flush` whose compare-and-swap has failed -/
  | flushSet (t : S)
  | unlock (t : S) (ok : Bool)
  | signal (t : S)
  | recv
  | read
  /-- `false` for -1, with EAGAIN or EINTR -/
  | wait (ok : Bool)
  /-- `false` for -1, with EAGAIN -/
  | recvFailable (ok : Bool)

inductive Failure where
  /-- `zmq_assert (ok)` in `recv` -/
  | assertion

variable [Inhabited T]

def new : Mailbox S T := ⟨YPipe.new.read.2, 0, false, none, fun _ => .outside, .outside, [], []⟩

/-- The next step of a thread. A thread that is not in `send` or `recv` may call it; `sync` has one owner; and
`wait` and `recv_failable` succeed only with a signal there. -/
def Ready (s : Mailbox S T) : Op S T → Prop
  | .lock t _ => s.senders t = .outside ∧ s.sync = none
  | .write t cmd => s.senders t = .locked cmd
  | .flush t => s.senders t = .written
  | .flushSet t => s.senders t = .swapFailed
  | .unlock t ok => s.senders t = .flushed ok
  | .signal t => s.senders t = .owing
  | .recv => s.receiver = .outside
  | .read => s.receiver = .reading ∨ s.receiver = .woken
  | .wait ok => s.receiver = .waiting ∧ (ok = true → 0 < s.signals)
  | .recvFailable ok => s.receiver = .signalled ∧ (ok = true → 0 < s.signals)

instance [DecidableEq T] (s : Mailbox S T) (op : Op S T) : Decidable (s.Ready op) := by
  cases op <;> unfold Ready <;> infer_instance

variable [DecidableEq S]

/-- The thread goes on to another point of `send`. -/
def goes (s : Mailbox S T) (t : S) (point : SendPoint T) : Mailbox S T :=
  { s with senders := Function.update s.senders t point }

def run (s : Mailbox S T) : Op S T → Except Failure (Mailbox S T)
  | .lock t cmd => .ok { s.goes t (.locked cmd) with sync := some t }
  | .write t cmd => .ok { s.goes t .written with cpipe := s.cpipe.write cmd false, sent := s.sent ++ [cmd] }
  | .flush t =>
    match s.cpipe.flushCas with
    | (some ok, cpipe) => .ok { s.goes t (.flushed ok) with cpipe := cpipe }
    | (none, cpipe) => .ok { s.goes t .swapFailed with cpipe := cpipe }
  | .flushSet t => .ok { s.goes t (.flushed false) with cpipe := s.cpipe.flushSet }
  | .unlock t ok => .ok { s.goes t (if ok then .outside else .owing) with sync := none }
  | .signal t => .ok { s.goes t .outside with signals := s.signals + 1 }
  | .recv => .ok { s with receiver := if s.active then .reading else .waiting }
  | .read =>
    match s.cpipe.read with
    | (some cmd, cpipe) => .ok { s with cpipe := cpipe, receiver := .outside, received := s.received ++ [cmd] }
    | (none, cpipe) =>
      if s.receiver = .woken then .error .assertion
      else .ok { s with cpipe := cpipe, active := false, receiver := .waiting }
  | .wait ok => .ok { s with receiver := if ok then .signalled else .outside }
  | .recvFailable ok =>
    .ok (if ok then { s with signals := s.signals - 1, active := true, receiver := .woken }
      else { s with receiver := .outside })

def Start (s : Mailbox S T) : Prop := s = new

abbrev Step : Mailbox S T → Op S T → Mailbox S T → Prop := Does Ready run

omit [DecidableEq S] [Inhabited T]

/-- A signal is in the signaler or is to be sent exactly if the receiver is passive and the reader end of the pipe
is awake, and then there is something to read. -/
structure Phase (s : Mailbox S T) : Prop where
  asleep : s.cpipe.view.asleep = true → s.active = false ∧ s.signals = 0 ∧ ∀ t, (s.senders t).owes = false
  active : s.active = true → s.signals = 0 ∧ ∀ t, (s.senders t).owes = false
  passive : s.cpipe.view.asleep = false → s.active = false → s.cpipe.view.ready ≠ [] ∧
    (s.signals = 1 ∧ (∀ t, (s.senders t).owes = false) ∨ s.signals = 0 ∧ ∃ t, ∀ x, (s.senders x).owes = true ↔ x = t)

structure Sound (s : Mailbox S T) : Prop extends Phase s where
  wf : s.cpipe.Wf
  sync : ∀ t, (s.senders t).holds = true ↔ s.sync = some t
  log : s.sent = s.received ++ (s.cpipe.view.ready ++ s.cpipe.view.complete)
  unfinished : s.cpipe.view.unfinished = []
  complete : s.cpipe.view.complete ≠ [] → ∃ t, (s.senders t).writing = true
  swapFailed : ∀ t, s.senders t = .swapFailed → s.cpipe.view.asleep = true ∧ s.cpipe.view.complete ≠ []
  reading : s.receiver = .reading → s.active = true
  waiting : s.receiver = .waiting ∨ s.receiver = .signalled → s.active = false
  woken : s.receiver = .woken → s.active = true ∧ s.cpipe.view.ready ≠ []

variable [DecidableEq S] {s s' : Mailbox S T} {t : S} {point : SendPoint T} {x : S} {ok : Bool}

theorem goes_self : (s.goes t point).senders t = point := Function.update_self _ _ _

theorem goes_ne (hx : x ≠ t) : (s.goes t point).senders x = s.senders x := Function.update_of_ne hx _ _

theorem goes_swapFailed (hp : point ≠ .swapFailed) (hx : (s.goes t point).senders x = .swapFailed) :
    s.senders x = .swapFailed ∧ x ≠ t := by
  rcases eq_or_ne x t with rfl | hne
  · exact absurd (goes_self.symm.trans hx) hp
  · rw [goes_ne hne] at hx
    exact ⟨hx, hne⟩

theorem goes_owes (h : point.owes = (s.senders t).owes) (x : S) : ((s.goes t point).senders x).owes = (s.senders x).owes := by
  rcases eq_or_ne x t with rfl | hne
  · rw [goes_self, h]
  · rw [goes_ne hne]

theorem Sound.goes_sync (h : s.Sound) (hp : point.holds = (s.senders t).holds) (x : S) :
    ((s.goes t point).senders x).holds = true ↔ s.sync = some x := by
  rw [← h.sync x]
  rcases eq_or_ne x t with rfl | hne
  · rw [goes_self, hp]
  · rw [goes_ne hne]

omit [DecidableEq S] in
theorem Sound.writer (h : s.Sound) (ht : (s.senders t).holds = true) (hw : (s.senders t).writing = false) :
    s.cpipe.view.complete = [] := by
  by_contra hc
  obtain ⟨x, hx⟩ := h.complete hc
  have hholds : (s.senders x).holds = true := by
    cases hs : s.senders x <;> simp [hs, SendPoint.writing, SendPoint.holds] at hx ⊢
  have hxt : x = t := some.inj (((h.sync x).mp hholds).symm.trans ((h.sync t).mp ht))
  rw [hxt, hw] at hx
  exact false_ne_true hx

omit [DecidableEq S] in
theorem Phase.same {s' : Mailbox S T} (h : s.Phase) (hp : s'.cpipe = s.cpipe) (ha : s'.active = s.active)
    (hn : s'.signals = s.signals) (ho : ∀ x, (s'.senders x).owes = (s.senders x).owes) : s'.Phase := by
  refine ⟨fun hs => ?_, fun hs => ?_, fun hs hpass => ?_⟩
  · rw [hp] at hs
    simp only [ha, hn, ho]
    exact h.asleep hs
  · rw [ha] at hs
    simp only [hn, ho]
    exact h.active hs
  · rw [hp] at hs
    rw [ha] at hpass
    simp only [hp, hn, ho]
    exact h.passive hs hpass

theorem Sound.lock {cmd : T} (h : s.Sound) (ht : s.senders t = .outside) (hf : s.sync = none) :
    Sound { s.goes t (.locked cmd) with sync := some t } := by
  have howes : ∀ x, ((s.goes t (.locked cmd)).senders x).owes = (s.senders x).owes := goes_owes (by rw [ht]; rfl)
  refine ⟨h.toPhase.same rfl rfl rfl howes, h.wf, fun x => ?_, h.log, h.unfinished, fun hc => ?_, fun x hx => ?_,
    h.reading, h.waiting, h.woken⟩
  · rcases eq_or_ne x t with rfl | hne
    · rw [goes_self]
      exact ⟨fun _ => rfl, fun _ => rfl⟩
    · rw [goes_ne hne, h.sync x, hf]
      exact ⟨fun hx => absurd hx.symm (some_ne_none x), fun hx => absurd (some.inj hx).symm hne⟩
  · obtain ⟨x, hx⟩ := h.complete hc
    have hne : x ≠ t := by
      rintro rfl
      rw [ht] at hx
      exact false_ne_true hx
    refine ⟨x, ?_⟩
    rw [goes_ne hne]
    exact hx
  · exact h.swapFailed x (goes_swapFailed (by simp) hx).1

theorem Sound.unlock (h : s.Sound) (ht : s.senders t = .flushed ok) :
    Sound { s.goes t (if ok then .outside else .owing) with sync := none } := by
  have hp : (if ok then SendPoint.outside else .owing : SendPoint T).holds = false := by cases ok <;> rfl
  have howes : ∀ x, ((s.goes t (if ok then .outside else .owing)).senders x).owes = (s.senders x).owes :=
    goes_owes (by rw [ht]; cases ok <;> rfl)
  have hsync : s.sync = some t := (h.sync t).mp (by rw [ht]; rfl)
  have hempty : s.cpipe.view.complete = [] := h.writer (by rw [ht]; rfl) (by rw [ht]; rfl)
  refine ⟨h.toPhase.same rfl rfl rfl howes, h.wf, fun x => ?_, h.log, h.unfinished, fun hc => absurd hempty hc,
    fun x hx => ?_, h.reading, h.waiting, h.woken⟩
  · rcases eq_or_ne x t with rfl | hne
    · rw [goes_self, hp]
      exact ⟨nofun, fun hx => absurd hx.symm (some_ne_none x)⟩
    · rw [goes_ne hne, h.sync x, hsync]
      exact ⟨fun hx => absurd (some.inj hx).symm hne, fun hx => absurd hx.symm (some_ne_none x)⟩
  · exact h.swapFailed x (goes_swapFailed (by cases ok <;> simp) hx).1

theorem Sound.write {cmd : T} [Inhabited T] (h : s.Sound) (ht : s.senders t = .locked cmd) :
    Sound { s.goes t .written with cpipe := s.cpipe.write cmd false, sent := s.sent ++ [cmd] } := by
  have hempty : s.cpipe.view.complete = [] := h.writer (by rw [ht]; rfl) (by rw [ht]; rfl)
  have hview : (s.cpipe.write cmd false).view = { s.cpipe.view with complete := [cmd] } := by
    rw [write_view h.wf]
    simp [Staged.write, hempty, h.unfinished]
  have howes : ∀ x, ((s.goes t .written).senders x).owes = (s.senders x).owes := goes_owes (by rw [ht]; rfl)
  refine ⟨⟨?_, ?_, ?_⟩, write_wf h.wf cmd false, h.goes_sync (by rw [ht]; rfl), ?_, ?_, fun _ => ⟨t, ?_⟩,
    fun x hx => ?_, h.reading, h.waiting, fun hx => ?_⟩
  · simp only [howes]
    exact h.asleep
  · simp only [howes]
    exact h.active
  · rw [hview]
    simp only [howes]
    exact h.passive
  · rw [hview]
    change s.sent ++ [cmd] = s.received ++ (s.cpipe.view.ready ++ [cmd])
    rw [h.log, hempty, List.append_nil, List.append_assoc]
  · rw [hview]
    exact h.unfinished
  · rw [goes_self]
    rfl
  · rw [hview]
    exact ⟨(h.swapFailed x (goes_swapFailed (by simp) hx).1).1, List.cons_ne_nil _ _⟩
  · rw [hview]
    exact h.woken hx

theorem Sound.signal (h : s.Sound) (ht : s.senders t = .owing) : Sound { s.goes t .outside with signals := s.signals + 1 } := by
  have howes : (s.senders t).owes = true := by rw [ht]; rfl
  -- the thread is the one that owes the signal
  have hasleep : s.cpipe.view.asleep = false := by
    by_contra hc
    exact false_ne_true (((h.asleep (eq_true_of_not_eq_false hc)).2.2 t).symm.trans howes)
  have hactive : s.active = false := by
    by_contra hc
    exact false_ne_true (((h.active (eq_true_of_not_eq_false hc)).2 t).symm.trans howes)
  obtain ⟨hready, ⟨-, hnone⟩ | ⟨hzero, t', hone⟩⟩ := h.passive hasleep hactive
  · exact nomatch (hnone t).symm.trans howes
  obtain rfl := (hone t).mp howes
  have hafter : ∀ x, ((s.goes t .outside).senders x).owes = false := by
    intro x
    rcases eq_or_ne x t with rfl | hne
    · rw [goes_self]
      rfl
    · rw [goes_ne hne]
      exact eq_false_of_not_eq_true fun hx => hne ((hone x).mp hx)
  refine ⟨⟨fun hs => ?_, fun hs => ?_, fun _ _ => ⟨hready, .inl ⟨by rw [hzero], hafter⟩⟩⟩, h.wf,
    h.goes_sync (by rw [ht]; rfl), h.log, h.unfinished, fun hc => ?_, fun x hx => ?_, h.reading, h.waiting, h.woken⟩
  · exact nomatch hasleep.symm.trans hs
  · exact nomatch hactive.symm.trans hs
  · obtain ⟨x, hx⟩ := h.complete hc
    have hne : x ≠ t := by
      rintro rfl
      rw [ht] at hx
      exact false_ne_true hx
    refine ⟨x, ?_⟩
    rw [goes_ne hne]
    exact hx
  · exact h.swapFailed x (goes_swapFailed (by simp) hx).1

omit [DecidableEq S] in
theorem Sound.writing_eq (h : s.Sound) (ht : (s.senders t).writing = true) (hx : (s.senders x).writing = true) : x = t := by
  have hholds : ∀ y, (s.senders y).writing = true → s.sync = some y := fun y hy => (h.sync y).mp (by
    cases hs : s.senders y <;> simp [hs, SendPoint.writing, SendPoint.holds] at hy ⊢)
  exact some.inj ((hholds x hx).symm.trans (hholds t ht))

theorem Sound.published {cpipe : YPipe T} (h : s.Sound) (ht : s.senders t = .written) (hw : cpipe.Wf)
    (hv : cpipe.view = { s.cpipe.view.publish with asleep := s.cpipe.view.asleep })
    (hok : ok = true) : Sound { s.goes t (.flushed ok) with cpipe := cpipe } := by
  have hcomplete : cpipe.view.complete = [] := by rw [hv]; rfl
  have hasleep : cpipe.view.asleep = s.cpipe.view.asleep := by rw [hv]
  have hready : cpipe.view.ready = s.cpipe.view.ready ++ s.cpipe.view.complete := by rw [hv]; rfl
  have howes : ∀ x, ((s.goes t (.flushed ok)).senders x).owes = (s.senders x).owes :=
    goes_owes (by rw [ht, hok]; rfl)
  refine ⟨⟨?_, ?_, ?_⟩, hw, h.goes_sync (by rw [ht]; rfl), ?_, ?_, fun hc => absurd hcomplete hc, fun x hx => ?_,
    h.reading, h.waiting, fun hx => ?_⟩
  · rw [hasleep]
    simp only [howes]
    exact h.asleep
  · simp only [howes]
    exact h.active
  · rw [hasleep, hready]
    simp only [howes]
    intro hs hp
    obtain ⟨hr, ho⟩ := h.passive hs hp
    exact ⟨List.append_ne_nil_of_left_ne_nil hr _, ho⟩
  · rw [hcomplete, hready, List.append_nil]
    exact h.log
  · rw [hv]
    exact h.unfinished
  · -- the writer is the thread itself
    obtain ⟨hx, hne⟩ := goes_swapFailed (by simp) hx
    exact absurd (h.writing_eq (by rw [ht]; rfl) (by rw [hx]; rfl)) hne
  · rw [hready]
    obtain ⟨ha, hr⟩ := h.woken hx
    exact ⟨ha, List.append_ne_nil_of_left_ne_nil hr _⟩

theorem Sound.flush (h : s.Sound) [Inhabited T] (ht : s.senders t = .written) : ∃ s', s.run (.flush t) = .ok s' ∧ s'.Sound := by
  unfold Mailbox.run
  rw [flushCas_eq h.wf]
  have hnil := complete_eq_nil_iff h.wf
  by_cases hwf : s.cpipe.w = s.cpipe.f
  · rw [if_pos hwf]
    refine ⟨_, rfl, h.published ht h.wf ?_ rfl⟩
    rw [Staged.publish, hnil.mpr hwf, List.append_nil, ← hnil.mpr hwf]
  · rw [if_neg hwf]
    by_cases hc : s.cpipe.c = none
    · have hcomplete : s.cpipe.view.complete ≠ [] := fun hx => hwf (hnil.mp hx)
      have hasleep : s.cpipe.view.asleep = true := by simp [view, hc]
      have howes : ∀ x, ((s.goes t .swapFailed).senders x).owes = (s.senders x).owes := goes_owes (by rw [ht]; rfl)
      rw [if_pos hc]
      refine ⟨_, rfl, h.toPhase.same rfl rfl rfl howes, h.wf, h.goes_sync (by rw [ht]; rfl), h.log, h.unfinished,
        fun _ => ⟨t, ?_⟩, fun _ _ => ⟨hasleep, hcomplete⟩, h.reading, h.waiting, h.woken⟩
      rw [goes_self]
      rfl
    · have hasleep : s.cpipe.view.asleep = false := by
        cases hx : s.cpipe.c with
        | none => exact absurd hx hc
        | some x => simp [view, hx]
      rw [if_neg hc]
      refine ⟨_, rfl, h.published ht (flushSet_wf h.wf) ?_ rfl⟩
      rw [hasleep]
      exact flushSet_view h.wf

theorem Sound.flushSet (h : s.Sound) (ht : s.senders t = .swapFailed) :
    Sound { s.goes t (.flushed false) with cpipe := s.cpipe.flushSet } := by
  obtain ⟨hasleep, hcomplete⟩ := h.swapFailed t ht
  obtain ⟨hactive, hsignals, hnone⟩ := h.asleep hasleep
  have hempty : s.cpipe.view.ready = [] := view_wf h.wf hasleep
  have hv := flushSet_view h.wf
  have hready : s.cpipe.flushSet.view.ready = s.cpipe.view.ready ++ s.cpipe.view.complete := by rw [hv]; rfl
  have howes : ∀ x, ((s.goes t (.flushed false)).senders x).owes = true ↔ x = t := by
    intro x
    rcases eq_or_ne x t with rfl | hne
    · rw [goes_self]
      exact ⟨fun _ => rfl, fun _ => rfl⟩
    · rw [goes_ne hne, hnone x]
      exact ⟨nofun, fun hx => absurd hx hne⟩
  refine ⟨⟨fun hs => ?_, fun hs => ?_, fun _ _ => ⟨?_, .inr ⟨hsignals, t, howes⟩⟩⟩, flushSet_wf h.wf,
    h.goes_sync (by rw [ht]; rfl), ?_, ?_, fun hc => absurd (by rw [hv]; rfl) hc, fun x hx => ?_, h.reading, h.waiting,
    fun hx => ?_⟩
  · exact nomatch hs
  · exact nomatch hactive.symm.trans hs
  · rw [hready, hempty]
    exact hcomplete
  · rw [hv]
    exact h.log.trans (congrArg _ (List.append_nil _).symm)
  · exact h.unfinished
  · obtain ⟨hx, hne⟩ := goes_swapFailed (by simp) hx
    exact absurd (h.writing_eq (by rw [ht]; rfl) (by rw [hx]; rfl)) hne
  · exact nomatch (h.woken hx).1.symm.trans hactive

omit [DecidableEq S]

theorem Sound.receives {point : RecvPoint} (h : s.Sound) (hr : point = .reading → s.active = true)
    (hw : point = .waiting ∨ point = .signalled → s.active = false) (hn : point ≠ .woken) : Sound { s with receiver := point } :=
  ⟨h.toPhase.same rfl rfl rfl fun _ => rfl, h.wf, h.sync, h.log, h.unfinished, h.complete, h.swapFailed, hr, hw,
    fun hc => absurd hc hn⟩

theorem Sound.recv (h : s.Sound) : Sound { s with receiver := if s.active then .reading else .waiting } := by
  by_cases ha : s.active = true
  · rw [if_pos ha]
    exact h.receives (fun _ => ha) (fun hc => absurd hc (by simp)) (by simp)
  · rw [if_neg ha]
    exact h.receives (fun hc => absurd hc (by simp)) (fun _ => eq_false_of_not_eq_true ha) (by simp)

theorem Sound.wait (h : s.Sound) (hr : s.receiver = .waiting) :
    Sound { s with receiver := if ok then .signalled else .outside } := by
  have ha := h.waiting (.inl hr)
  cases ok with
  | true | false => exact h.receives (fun hc => absurd hc (by simp)) (fun _ => ha) (by simp)

theorem Sound.recvFailable (h : s.Sound) (hr : s.receiver = .signalled) (hs : 0 < s.signals) :
    Sound { s with signals := s.signals - 1, active := true, receiver := .woken } := by
  have ha := h.waiting (.inr hr)
  have hasleep : s.cpipe.view.asleep = false := eq_false_of_not_eq_true fun hc => by
    have := (h.asleep hc).2.1
    omega
  obtain ⟨hready, ⟨hone, hnone⟩ | ⟨hzero, -⟩⟩ := h.passive hasleep ha
  · refine ⟨⟨fun hc => (nomatch hasleep.symm.trans hc), fun _ => ⟨?_, hnone⟩,
      nofun⟩, h.wf, h.sync, h.log, h.unfinished, h.complete, h.swapFailed,
      fun _ => rfl, fun hc => absurd hc (by simp), fun _ => ⟨rfl, hready⟩⟩
    change s.signals - 1 = 0
    omega
  · omega

theorem Sound.read [Inhabited T] [DecidableEq S] (h : s.Sound) (hr : s.Ready .read) : ∃ s', s.run .read = .ok s' ∧ s'.Sound := by
  have hwf := read_wf h.wf
  have hv := read_view h.wf
  have hactive : s.active = true := hr.elim h.reading fun hw => (h.woken hw).1
  obtain ⟨hsignals, hnone⟩ := h.active hactive
  have hasleep : s.cpipe.view.asleep = false := eq_false_of_not_eq_true fun hc =>
    false_ne_true ((h.asleep hc).1.symm.trans hactive)
  obtain ⟨rc, cpipe, hread⟩ : ∃ rc cpipe, s.cpipe.read = (rc, cpipe) := ⟨_, _, rfl⟩
  unfold Mailbox.run
  rw [hread] at hwf hv ⊢
  cases hready : s.cpipe.view.ready with
  | nil =>
    rw [Staged.read_nil hready] at hv
    obtain ⟨rfl, hv⟩ := Prod.mk.inj hv
    have hnw : s.receiver ≠ .woken := fun hc => (h.woken hc).2 hready
    refine ⟨_, if_neg hnw, ⟨fun _ => ⟨rfl, hsignals, hnone⟩, nofun, fun hc => ?_⟩,
      hwf, h.sync, ?_, ?_, ?_, ?_, fun hc => absurd hc (by simp), fun _ => rfl, fun hc => absurd hc (by simp)⟩
    · rw [hv] at hc
      exact nomatch hc
    all_goals rw [hv]
    · exact h.log
    · exact h.unfinished
    · exact h.complete
    · exact fun x hx => ⟨rfl, (h.swapFailed x hx).2⟩
  | cons v rest =>
    rw [Staged.read_cons hready] at hv
    obtain ⟨rfl, hv⟩ := Prod.mk.inj hv
    refine ⟨_, rfl, ⟨fun hc => ?_, fun _ => ⟨hsignals, hnone⟩, fun _ hc => ?_⟩, hwf, h.sync, ?_, ?_, ?_, ?_,
      fun hc => absurd hc (by simp), fun hc => absurd hc (by simp), fun hc => absurd hc (by simp)⟩
    · rw [hv] at hc
      exact nomatch hasleep.symm.trans hc
    · exact nomatch hactive.symm.trans hc
    all_goals rw [hv]
    · rw [h.log, hready, List.append_assoc]
      rfl
    · exact h.unfinished
    · exact h.complete
    · exact h.swapFailed

variable [Inhabited T] [DecidableEq S]

theorem Sound.run {op : Op S T} (h : s.Sound) (hr : s.Ready op) : ∃ s', s.run op = .ok s' ∧ s'.Sound := by
  cases op with
  | lock t cmd => exact ⟨_, rfl, h.lock hr.1 hr.2⟩
  | write t cmd => exact ⟨_, rfl, h.write hr⟩
  | flush t => exact h.flush hr
  | flushSet t => exact ⟨_, rfl, h.flushSet hr⟩
  | unlock t ok => exact ⟨_, rfl, h.unlock hr⟩
  | signal t => exact ⟨_, rfl, h.signal hr⟩
  | recv => exact ⟨_, rfl, h.recv⟩
  | read => exact h.read hr
  | wait ok => exact ⟨_, rfl, h.wait hr.1⟩
  | recvFailable ok =>
    refine ⟨_, rfl, ?_⟩
    cases ok with
    | true => exact h.recvFailable hr.1 (hr.2 rfl)
    | false => exact h.receives (fun hc => absurd hc (by simp)) (fun hc => absurd hc (by simp)) (by simp)

omit [DecidableEq S] in
theorem new_sound : (new : Mailbox S T).Sound := by
  have hwf : (new : Mailbox S T).cpipe.Wf := read_wf new_wf
  have hv : (new : Mailbox S T).cpipe.view = ⟨[], [], [], true⟩ := by
    have hx := read_view (new_wf (T := T))
    exact (Prod.mk.inj hx).2
  refine ⟨⟨fun _ => ⟨rfl, rfl, fun _ => rfl⟩, nofun, fun hc => ?_⟩, hwf,
    fun t => ⟨nofun, fun hc => absurd hc.symm (some_ne_none t)⟩, ?_, ?_,
    fun hc => ?_, fun t hc => absurd hc (by simp [new]), fun hc => absurd hc (by simp [new]),
    fun hc => absurd hc (by simp [new]), fun hc => absurd hc (by simp [new])⟩
  · exact nomatch hc
  · rfl
  · rw [hv]
  · exact absurd rfl hc

theorem run_sound {ops : List (Op S T)} (h : Run Start Step ops s) : s.Sound :=
  h.invariant Sound (fun _ h0 => h0 ▸ new_sound) fun _ _ _ hs ⟨hr, hx⟩ => by
    obtain ⟨s', hx', h'⟩ := hs.run hr
    cases hx.symm.trans hx'
    exact h'

/-- In every interleaving there is one signal at most, sent or owed; the assertion after a signal holds; commands
are received once and in the order of the writes; and a receiver about to block has nothing to read, or a signal
is there or owed. With no sender inside `send` and no signal there it has received everything. -/
theorem signals_lose_nothing {ops : List (Op S T)} (h : Run Start Step ops s) :
    (s.signals ≤ 1 ∧ (0 < s.signals → ∀ t, (s.senders t).owes = false) ∧
      ∀ t x, (s.senders t).owes = true → (s.senders x).owes = true → t = x) ∧ (∀ op, s.Ready op → ∃ s', s.run op = .ok s') ∧
    s.sent = s.received ++ (s.cpipe.view.ready ++ s.cpipe.view.complete) ∧ (s.receiver = .waiting → s.active = false ∧
      (s.cpipe.view.ready = [] ∨ 0 < s.signals ∨ ∃ t, (s.senders t).owes = true)) ∧
    (s.receiver = .waiting → (∀ t, s.senders t = .outside) → s.signals = 0 → s.received = s.sent) := by
  have hs := run_sound h
  have hblock : s.receiver = .waiting → s.active = false ∧
      (s.cpipe.view.ready = [] ∨ 0 < s.signals ∨ ∃ t, (s.senders t).owes = true) := by
    intro hr
    have ha := hs.waiting (.inl hr)
    refine ⟨ha, ?_⟩
    cases hasleep : s.cpipe.view.asleep with
    | true => exact .inl (YPipe.view_wf hs.wf hasleep)
    | false =>
      rcases (hs.passive hasleep ha).2 with ⟨hone, -⟩ | ⟨-, t, ht⟩
      · exact .inr (.inl (by omega))
      · exact .inr (.inr ⟨t, (ht t).mpr rfl⟩)
  have hquiet : (∀ t, (s.senders t).owes = false) ∧ s.signals ≤ 1 ∨
      s.signals = 0 ∧ ∃ t, ∀ x, (s.senders x).owes = true ↔ x = t := by
    cases hasleep : s.cpipe.view.asleep with
    | true =>
      obtain ⟨-, hzero, hnone⟩ := hs.asleep hasleep
      exact .inl ⟨hnone, by omega⟩
    | false =>
      cases ha : s.active with
      | true =>
        obtain ⟨hzero, hnone⟩ := hs.active ha
        exact .inl ⟨hnone, by omega⟩
      | false =>
        rcases (hs.passive hasleep ha).2 with ⟨hone, hnone⟩ | hx
        · exact .inl ⟨hnone, by omega⟩
        · exact .inr hx
  refine ⟨?_, fun op hr => (hs.run hr).imp fun _ hx => hx.1, hs.log, hblock, fun hr hout hzero => ?_⟩
  · rcases hquiet with ⟨hnone, hle⟩ | ⟨hzero, t, ht⟩
    · exact ⟨hle, fun _ => hnone, fun x y hx => absurd ((hnone x).symm.trans hx) false_ne_true⟩
    · exact ⟨by omega, fun hc => by omega, fun x y hx hy => ((ht x).mp hx).trans ((ht y).mp hy).symm⟩
  · have hcomplete : s.cpipe.view.complete = [] := by
      by_contra hc
      obtain ⟨t, ht⟩ := hs.complete hc
      rw [hout t] at ht
      exact false_ne_true ht
    rcases (hblock hr).2 with hready | hx | ⟨t, ht⟩
    · rw [hs.log, hready, hcomplete]
      simp
    · omega
    · rw [hout t] at ht
      exact absurd ht false_ne_true

/-- The first of two threads is to signal when the second has sent its command, and the receiver is woken once. -/
theorem signals_lose_nothing_two : ∃ s : Mailbox Bool ℕ, Run Start Step [.recv, .lock false 5, .write false 5,
      .flush false, .flushSet false, .unlock false false, .lock true 7, .write true 7, .flush true, .unlock true true,
      .signal false, .wait true, .recvFailable true, .read, .recv, .read, .recv, .read] s ∧
    (s.received, s.receiver, s.signals) = ([5, 7], .waiting, 0) ∧ s.received = s.sent := by
  obtain ⟨s, hs, hx⟩ : ∃ s : Mailbox Bool ℕ, Run Start (Guarded free Step) [.recv, .lock false 5, .write false 5,
      .flush false, .flushSet false, .unlock false false, .lock true 7, .write true 7, .flush true, .unlock true true,
      .signal false, .wait true, .recvFailable true, .read, .recv, .read, .recv, .read] s ∧
      ((s.received, s.receiver, s.signals), s.senders) =
        (([5, 7], .waiting, 0), fun _ : Bool => (.outside : SendPoint ℕ)) := by
    refine run_of_play (rfl : Start new) ?_
    decide
  obtain ⟨hx, hout⟩ := Prod.mk.inj hx
  have hall := signals_lose_nothing hs.unguarded
  refine ⟨s, hs.unguarded, hx, hall.2.2.2.2 ?_ (fun t => by rw [hout]) ?_⟩
  · exact congrArg (fun y => y.2.1) hx
  · exact congrArg (fun y => y.2.2) hx

end Mailbox

end Zmq
