import LibZmq.Run

/-! `ypipe_conflate_t`, which keeps the latest message in a `dbuffer_t`. The writer fills the back buffer, and shows
it to the reader if it finds the buffers unlocked; otherwise it gives up. -/

namespace Zmq

open List Bool Except

universe u

/-- A message and the number of the `write` that brought it, 0 for the one that `init` makes. -/
structure Stamped (T : Type u) where
  no : ℕ
  value : T

inductive Thread where
  | writer | reader
deriving DecidableEq

/-- How far the writer is in `dbuffer_t::write`. -/
inductive WritePoint where
  | outside
  /-- at `try_lock`, with the message in the back buffer -/
  | moved
  | locked
  /-- at `unlock` -/
  | swapped
deriving DecidableEq

namespace WritePoint

def holds : WritePoint → Bool
  | .locked | .swapped => true
  | .outside | .moved => false

end WritePoint

/-- The functions of `dbuffer_t` that the reader calls; `read` of the pipe starts with a `check_read`. -/
inductive ReadCall where
  | checkRead | readCheck | read | probe
deriving DecidableEq

/-- How far the reader is in one of them. -/
inductive ReadPoint where
  | outside
  | entering (call : ReadCall)
  | locked (call : ReadCall)
  /-- at the end of the scope of the lock -/
  | leaving (call : ReadCall) (rc : Bool)
deriving DecidableEq

namespace ReadPoint

def isEntering : ReadPoint → Bool
  | .entering _ => true
  | _ => false

def isLocked : ReadPoint → Bool
  | .locked _ => true
  | _ => false

def isLeaving : ReadPoint → Bool
  | .leaving _ _ => true
  | _ => false

def holds (p : ReadPoint) : Bool := p.isLocked || p.isLeaving

end ReadPoint

structure YPipeConflate (T : Type u) where
  back : Stamped T
  front : Stamped T
  hasMsg : Bool
  sync : Option Thread
  readerAwake : Bool
  writer : WritePoint
  reader : ReadPoint
  /-- what the last `check_read` or `read` of the reader has returned -/
  returned : Bool
  /-- all messages in the order in which they were written -/
  sent : List T
  /-- the number of the last message that was swapped to the front -/
  shown : ℕ
  /-- the last `try_lock` has failed -/
  missed : Bool
  received : List (Stamped T)

namespace YPipeConflate

variable {T : Type u}

/-- The steps of both threads, each with one access to what they share. -/
inductive Op (T : Type u) where
  | write (value : T)
  | tryLock
  | swap
  | unlockWriter
  | flush
  | checkRead
  | read
  | probe
  | lock
  | access
  | unlockReader

def new [Inhabited T] : YPipeConflate T :=
  ⟨⟨0, default⟩, ⟨0, default⟩, false, none, false, .outside, .outside, false, [], 0, false, []⟩

variable (s : YPipeConflate T)

/-- The next step of a thread. `probe` must not be called on an empty pipe. -/
def Ready : Op T → Prop
  | .write _ | .flush => s.writer = .outside
  | .tryLock => s.writer = .moved
  | .swap => s.writer = .locked
  | .unlockWriter => s.writer = .swapped
  | .checkRead | .read => s.reader = .outside
  | .probe => s.reader = .outside ∧ s.hasMsg = true
  | .lock => s.reader.isEntering = true ∧ s.sync = none
  | .access => s.reader.isLocked = true
  | .unlockReader => s.reader.isLeaving = true

instance (op : Op T) : Decidable (s.Ready op) := by
  cases op <;> unfold Ready <;> infer_instance

/-- `sent` is as long as the number of the message. -/
def write (value : T) : YPipeConflate T :=
  { s with back := ⟨s.sent.length + 1, value⟩, writer := .moved, sent := s.sent ++ [value] }

def tryLock : YPipeConflate T :=
  match s.sync with
  | none => { s with sync := some .writer, writer := .locked, missed := false }
  | some _ => { s with writer := .outside, missed := true }

def swap : YPipeConflate T :=
  { s with back := s.front, front := s.back, hasMsg := true, writer := .swapped, shown := s.back.no }

/-- What the reader does while it holds the lock. -/
def access [Inhabited T] (s : YPipeConflate T) (call : ReadCall) : YPipeConflate T :=
  match call with
  | .checkRead | .readCheck => { s with reader := .leaving call s.hasMsg }
  | .probe => { s with reader := .leaving call true }
  | .read =>
    if s.hasMsg then
      { s with front := ⟨0, default⟩, hasMsg := false, reader := .leaving call true, received := s.received ++ [s.front] }
    else { s with reader := .leaving call false }

/-- The call returns, unless it is the `check_read` of a `read` that goes on. -/
def leave (call : ReadCall) (rc : Bool) : YPipeConflate T :=
  match call with
  | .checkRead => { s with reader := .outside, returned := rc, readerAwake := s.readerAwake && rc }
  | .readCheck =>
    if rc then { s with reader := .entering .read }
    else { s with reader := .outside, returned := false, readerAwake := false }
  | .read => { s with reader := .outside, returned := rc }
  | .probe => { s with reader := .outside }

def run [Inhabited T] (s : YPipeConflate T) : Op T → Except Empty (YPipeConflate T)
  | .write value => .ok (s.write value)
  | .tryLock => .ok s.tryLock
  | .swap => .ok s.swap
  | .unlockWriter => .ok { s with sync := none, writer := .outside }
  | .flush => .ok s
  | .checkRead => .ok { s with reader := .entering .checkRead }
  | .read => .ok { s with reader := .entering .readCheck }
  | .probe => .ok { s with reader := .entering .probe }
  | .lock =>
    match s.reader with
    | .entering call => .ok { s with sync := some .reader, reader := .locked call }
    | _ => .ok s
  | .access =>
    match s.reader with
    | .locked call => .ok (s.access call)
    | _ => .ok s
  | .unlockReader =>
    match s.reader with
    | .leaving call rc => .ok { s.leave call rc with sync := none }
    | _ => .ok s

def Start [Inhabited T] (s : YPipeConflate T) : Prop := s = new

abbrev Step [Inhabited T] : YPipeConflate T → Op T → YPipeConflate T → Prop := Does Ready run

/-- Neither side is inside an operation. -/
def Quiet : Prop := s.writer = .outside ∧ s.reader = .outside

def Genuine (m : Stamped T) : Prop := m.no ≠ 0 → s.sent[m.no - 1]? = some m.value

structure Sound (s : YPipeConflate T) : Prop where
  writer : s.writer.holds = true ↔ s.sync = some .writer
  reader : s.reader.holds = true ↔ s.sync = some .reader
  back : s.Genuine s.back
  front : s.Genuine s.front
  shown : s.shown ≤ s.sent.length
  /-- a message that is about to be swapped is the last one -/
  moved : s.writer = .moved ∨ s.writer = .locked → s.back.no = s.sent.length ∧ s.shown < s.sent.length
  /-- a message that was written and not missed is shown -/
  settled : s.writer = .outside ∨ s.writer = .swapped → s.missed = false → s.shown = s.sent.length
  unread : s.hasMsg = true → s.front.no = s.shown ∧ 0 < s.shown ∧
    (s.received.map (·.value)).Sublist (s.sent.take (s.shown - 1)) ∧ ∀ m ∈ s.received, m.no < s.shown
  read : s.hasMsg = false → (s.received.map (·.value)).Sublist (s.sent.take s.shown) ∧
    (∀ m ∈ s.received, m.no ≤ s.shown) ∧ (s.shown = 0 ∨ ∃ m ∈ s.received, m.no = s.shown)

variable {s s' : YPipeConflate T}

theorem Genuine.written {m : Stamped T} (h : s.Genuine m) (value : T) : (s.write value).Genuine m := by
  intro hm
  have hlt := (List.getElem?_eq_some_iff.mp (h hm)).1
  exact (getElem?_append_left hlt).trans (h hm)

theorem Sound.received (h : s.Sound) {n : ℕ} (hn : s.shown < n) :
    (s.received.map (·.value)).Sublist (s.sent.take (n - 1)) ∧ ∀ m ∈ s.received, m.no < n := by
  have hmono : ∀ k ≤ n - 1, (s.sent.take k).Sublist (s.sent.take (n - 1)) :=
    fun k hk => (take_prefix_take_left hk).sublist
  cases hmsg : s.hasMsg with
  | true =>
    obtain ⟨-, hpos, hsub, hlt⟩ := h.unread hmsg
    exact ⟨hsub.trans (hmono _ (by omega)), fun m hm => (hlt m hm).trans hn⟩
  | false =>
    obtain ⟨hsub, hle, -⟩ := h.read hmsg
    exact ⟨hsub.trans (hmono _ (by omega)), fun m hm => (hle m hm).trans_lt hn⟩

theorem Sound.write (h : s.Sound) (hw : s.writer = .outside) (value : T) : (s.write value).Sound := by
  have hlen : (s.sent ++ [value]).length = s.sent.length + 1 := length_append
  have hshown := h.shown
  have htake : ∀ k ≤ s.shown, (s.sent ++ [value]).take k = s.sent.take k :=
    fun k hk => take_append_of_le_length (by omega)
  have hsync := h.writer
  rw [hw] at hsync
  refine ⟨hsync, h.reader, fun _ => getElem?_concat_length, h.front.written value, ?_, fun _ => ⟨hlen.symm, ?_⟩,
    fun hc => ?_, fun hm => ?_, fun hm => ?_⟩
  · change s.shown ≤ (s.sent ++ [value]).length
    omega
  · change s.shown < (s.sent ++ [value]).length
    omega
  · rcases hc with hc | hc <;> cases hc
  · obtain ⟨hno, hpos, hsub, hlt⟩ := h.unread hm
    refine ⟨hno, hpos, ?_, hlt⟩
    change List.Sublist _ ((s.sent ++ [value]).take (s.shown - 1))
    rwa [htake _ (Nat.sub_le _ _)]
  · obtain ⟨hsub, hrest⟩ := h.read hm
    refine ⟨?_, hrest⟩
    change List.Sublist _ ((s.sent ++ [value]).take s.shown)
    rwa [htake _ (Nat.le_refl _)]

theorem Sound.tryLock (h : s.Sound) (hw : s.writer = .moved) : s.tryLock.Sound := by
  have hmoved := h.moved (.inl hw)
  cases hs : s.sync with
  | none =>
    have hlocked : s.tryLock = { s with sync := some .writer, writer := .locked, missed := false } := by
      rw [YPipeConflate.tryLock, hs]
    have hreader : s.reader.holds = false := by
      by_contra hc
      rw [h.reader.mp (by simpa using hc)] at hs
      cases hs
    rw [hlocked]
    refine ⟨⟨fun _ => rfl, fun _ => rfl⟩, ?_, h.back, h.front, h.shown, fun _ => hmoved, fun hc => ?_, h.unread, h.read⟩
    · rw [hreader]
      exact ⟨fun hc => (Bool.noConfusion hc), nofun⟩
    · rcases hc with hc | hc <;> cases hc
  | some t =>
    have hmissed : s.tryLock = { s with writer := .outside, missed := true } := by
      rw [YPipeConflate.tryLock, hs]
    have hwriter := h.writer
    rw [hw] at hwriter
    rw [hmissed]
    refine ⟨hwriter, h.reader, h.back, h.front, h.shown, fun hc => ?_, fun _ hc => Bool.noConfusion hc, h.unread, h.read⟩
    rcases hc with hc | hc <;> cases hc

theorem Sound.swap (h : s.Sound) (hw : s.writer = .locked) : s.swap.Sound := by
  obtain ⟨hno, hlt⟩ := h.moved (.inr hw)
  have hsync : s.sync = some .writer := h.writer.mp (by rw [hw]; rfl)
  obtain ⟨hsub, hbefore⟩ := h.received hlt
  refine ⟨⟨fun _ => hsync, fun _ => rfl⟩, h.reader, h.front, h.back, Nat.le_of_eq hno, fun hc => ?_, fun _ _ => hno,
    fun _ => ⟨rfl, ?_, ?_, ?_⟩, fun hc => Bool.noConfusion hc⟩
  · rcases hc with hc | hc <;> cases hc
  · change 0 < s.back.no
    omega
  · change List.Sublist _ (s.sent.take (s.back.no - 1))
    rwa [hno]
  · change ∀ m ∈ s.received, m.no < s.back.no
    rwa [hno]

theorem Sound.moves (h : s.Sound) {sync : Option Thread} {readerAwake returned : Bool} {point : ReadPoint}
    (hreader : point.holds = true ↔ sync = some .reader) (hwriter : s.writer.holds = true ↔ sync = some .writer) :
    Sound { s with sync := sync, readerAwake := readerAwake, reader := point, returned := returned } :=
  ⟨hwriter, hreader, h.back, h.front, h.shown, h.moved, h.settled, h.unread, h.read⟩

theorem Sound.unlockWriter (h : s.Sound) (hw : s.writer = .swapped) : Sound { s with sync := none, writer := .outside } := by
  have hsync : s.sync = some .writer := h.writer.mp (by rw [hw]; rfl)
  have hreader := h.reader
  rw [hsync] at hreader
  refine ⟨⟨fun hc => (Bool.noConfusion hc), nofun⟩, ?_, h.back, h.front, h.shown, fun hc => ?_,
    fun _ => h.settled (.inr hw), h.unread, h.read⟩
  · exact ⟨fun hc => absurd (hreader.mp hc) (by decide), nofun⟩
  · rcases hc with hc | hc <;> cases hc

theorem Sound.alone (h : s.Sound) (hr : s.reader.holds = true) : s.sync = some .reader ∧ s.writer.holds = false := by
  have hsync := h.reader.mp hr
  refine ⟨hsync, ?_⟩
  by_contra hc
  have := h.writer.mp (by simpa using hc)
  rw [hsync] at this
  cases this

theorem Sound.takes [Inhabited T] (h : s.Sound) (hr : s.reader.holds = true) (hm : s.hasMsg = true) (call : ReadCall) :
    Sound { s with
      front := ⟨0, default⟩, hasMsg := false, reader := .leaving call true, received := s.received ++ [s.front] } := by
  obtain ⟨hno, hpos, hsub, hlt⟩ := h.unread hm
  have hvalue := h.front (by omega)
  refine ⟨h.writer, ⟨fun _ => h.reader.mp hr, fun _ => rfl⟩, h.back, fun hc => absurd rfl hc, h.shown, h.moved, h.settled,
    fun hc => Bool.noConfusion hc, fun _ => ⟨?_, ?_, .inr ⟨s.front, by simp, hno⟩⟩⟩
  · obtain ⟨n, hn⟩ : ∃ n, s.shown = n + 1 := ⟨s.shown - 1, by omega⟩
    rw [hno, hn, Nat.add_sub_cancel] at hvalue
    rw [hn] at hsub
    rw [hn, take_add_one, hvalue, map_append]
    exact hsub.append (List.Sublist.refl [s.front.value])
  · intro m hmem
    rcases mem_append.mp hmem with hmem | hmem
    · exact Nat.le_of_lt (hlt m hmem)
    · rw [mem_singleton.mp hmem]
      exact Nat.le_of_eq hno

theorem Sound.access [Inhabited T] (h : s.Sound) {call : ReadCall} (hr : s.reader = .locked call) : (s.access call).Sound := by
  have hholds : s.reader.holds = true := by rw [hr]; rfl
  have hsync := (h.alone hholds).1
  have hleaves : ∀ rc, Sound { s with reader := .leaving call rc } :=
    fun rc => h.moves ⟨fun _ => hsync, fun _ => rfl⟩ h.writer
  cases call with
  | checkRead | readCheck | probe => exact hleaves _
  | read =>
    unfold YPipeConflate.access
    split_ifs with hm
    · exact h.takes hholds hm .read
    · exact hleaves false

theorem Sound.leave (h : s.Sound) {call : ReadCall} {rc : Bool} (hr : s.reader = .leaving call rc) :
    Sound { s.leave call rc with sync := none } := by
  have hwriter := (h.alone (by rw [hr]; rfl)).2
  have hgoes : ∀ {readerAwake returned : Bool} {point : ReadPoint}, point.holds = false →
      Sound { s with sync := none, readerAwake := readerAwake, reader := point, returned := returned } := by
    intro readerAwake returned point hpoint
    refine h.moves ?_ ?_
    · rw [hpoint]
      exact ⟨fun hc => (Bool.noConfusion hc), nofun⟩
    · rw [hwriter]
      exact ⟨fun hc => (Bool.noConfusion hc), nofun⟩
  cases call with
  | checkRead | probe | read => exact hgoes rfl
  | readCheck =>
    cases rc
    · exact hgoes rfl
    · exact hgoes rfl

theorem Sound.step [Inhabited T] {op : Op T} (h : s.Sound) (hs : Step s op s') : s'.Sound := by
  obtain ⟨hr, hs⟩ := hs
  have henters : ∀ call, s.reader = .outside → Sound { s with reader := .entering call } := by
    intro call hout
    have hreader := h.reader
    rw [hout] at hreader
    exact h.moves hreader h.writer
  cases op with
  | write value => exact ok.inj hs ▸ h.write hr value
  | tryLock => exact ok.inj hs ▸ h.tryLock hr
  | swap => exact ok.inj hs ▸ h.swap hr
  | unlockWriter => exact ok.inj hs ▸ h.unlockWriter hr
  | flush => exact ok.inj hs ▸ h
  | checkRead => exact ok.inj hs ▸ henters .checkRead hr
  | read => exact ok.inj hs ▸ henters .readCheck hr
  | probe => exact ok.inj hs ▸ henters .probe hr.1
  | lock =>
    cases hpoint : s.reader with
    | entering call =>
      simp only [run, hpoint] at hs
      have hwriter : s.writer.holds = false := by
        by_contra hc
        have := h.writer.mp (by simpa using hc)
        rw [hr.2] at this
        cases this
      refine ok.inj hs ▸ h.moves ⟨fun _ => rfl, fun _ => rfl⟩ ?_
      rw [hwriter]
      exact ⟨fun hc => (Bool.noConfusion hc), nofun⟩
    | _ => simp [Ready, hpoint, ReadPoint.isEntering] at hr
  | access =>
    cases hpoint : s.reader with
    | locked call =>
      simp only [run, hpoint] at hs
      exact ok.inj hs ▸ h.access hpoint
    | _ => simp [Ready, hpoint, ReadPoint.isLocked] at hr
  | unlockReader =>
    cases hpoint : s.reader with
    | leaving call rc =>
      simp only [run, hpoint] at hs
      exact ok.inj hs ▸ h.leave hpoint
    | _ => simp [Ready, hpoint, ReadPoint.isLeaving] at hr

theorem new_sound [Inhabited T] : (new : YPipeConflate T).Sound where
  writer := ⟨fun hc => (Bool.noConfusion hc), nofun⟩
  reader := ⟨fun hc => (Bool.noConfusion hc), nofun⟩
  back hc := absurd rfl hc
  front hc := absurd rfl hc
  shown := Nat.le_refl _
  moved hc := by rcases hc with hc | hc <;> cases hc
  settled _ _ := rfl
  unread hc := Bool.noConfusion hc
  read _ := ⟨List.Sublist.refl _, nofun, .inl rfl⟩

theorem run_sound [Inhabited T] {ops : List (Op T)} (h : Run Start Step ops s) : s.Sound :=
  h.invariant Sound (fun _ h0 => h0 ▸ new_sound) fun _ _ _ h hs => h.step hs

theorem Sound.in_order (h : s.Sound) : (s.received.map (·.value)).Sublist s.sent :=
  (h.received (Nat.lt_succ_self s.shown)).1.trans (take_sublist _ _)

/-- The steps of the reader from `read` on, if the writer does nothing. -/
def readAlone : List (Op T) := [.read, .lock, .access, .unlockReader, .lock, .access, .unlockReader]

theorem Sound.latest (h : s.Sound) (hq : s.Quiet) (hm : s.missed = false) (hsent : s.sent ≠ [])
    (hunread : ∀ m ∈ s.received, m.no ≠ s.sent.length) :
    s.hasMsg = true ∧ s.front.no = s.sent.length ∧ s.sent.getLast? = some s.front.value := by
  have hlen := length_pos_iff.mpr hsent
  have hshown := h.settled (.inl hq.1) hm
  cases hmsg : s.hasMsg with
  | false =>
    obtain ⟨-, -, h0 | ⟨m, hmem, hno⟩⟩ := h.read hmsg
    · omega
    · exact absurd (hno.trans hshown) (hunread m hmem)
  | true =>
    obtain ⟨hno, -⟩ := h.unread hmsg
    have hvalue := h.front (by omega)
    rw [hno, hshown] at hvalue
    exact ⟨rfl, hno.trans hshown, by rw [getLast?_eq_getElem?]; exact hvalue⟩

theorem Sound.reads [Inhabited T] (h : s.Sound) (hq : s.Quiet) (hm : s.hasMsg = true) :
    ∃ s', Run (· = s) Step readAlone s' ∧ s'.Quiet ∧ s'.received = s.received ++ [s.front] ∧ s'.returned = true := by
  obtain ⟨hw, hr⟩ := hq
  have hsync : s.sync = none := by
    cases hs : s.sync with
    | none => rfl
    | some t =>
      cases t with
      | writer => exact absurd (h.writer.mpr hs) (by rw [hw]; decide)
      | reader => exact absurd (h.reader.mpr hs) (by rw [hr]; decide)
  rcases s with ⟨back, front, hasMsg, sync, readerAwake, writer, reader, returned, sent, shown, missed, received⟩
  subst hw hr hsync hm
  have hplay : play Ready run free
      ⟨back, front, true, none, readerAwake, .outside, .outside, returned, sent, shown, missed, received⟩ readAlone =
    some ⟨back, ⟨0, default⟩, false, none, readerAwake, .outside, .outside, true, sent, shown, missed, received ++ [front]⟩ := rfl
  have hstart : ∀ x : YPipeConflate T, Run (· = x) (Guarded free Step) [] x := fun _ => .nil rfl
  exact ⟨_, (play_run (hstart _) hplay).unguarded, ⟨rfl, rfl⟩, rfl, rfl⟩

/-- The messages that are read are messages that were written, in order and without duplicates; and once both sides
are outside of their operations, the last message is the next one to be read, unless it has been read already, or its
`try_lock` has failed. -/
theorem conflate_keeps_latest [Inhabited T] {ops : List (Op T)} (h : Run Start Step ops s) :
    (s.received.map (·.value)).Sublist s.sent ∧
    (s.Quiet → s.missed = false → s.sent ≠ [] → (∀ m ∈ s.received, m.no ≠ s.sent.length) →
      s.hasMsg = true ∧ ∃ s' m, Run (· = s) Step readAlone s' ∧ s'.returned = true ∧ s'.received = s.received ++ [m] ∧
        m.no = s.sent.length ∧ s.sent.getLast? = some m.value) := by
  have hsound := run_sound h
  refine ⟨hsound.in_order, fun hq hm hsent hunread => ?_⟩
  obtain ⟨hmsg, hno, hlast⟩ := hsound.latest hq hm hsent hunread
  obtain ⟨s', hrun, -, hreceived, hreturned⟩ := hsound.reads hq hmsg
  exact ⟨hmsg, s', s.front, hrun, hreturned, hreceived, hno, hlast⟩

/-- A message that is written while the reader is outside. -/
def writeAlone (value : T) : List (Op T) := [.write value, .tryLock, .swap, .unlockWriter]

/-- Two messages are written, of which the second is read. -/
theorem conflate_keeps_latest_two : ∃ s : YPipeConflate ℕ, Run Start Step (writeAlone 7 ++ writeAlone 8) s ∧
    ∃ s' m, Run (· = s) Step readAlone s' ∧ s'.received = s.received ++ [m] ∧ m.value = 8 := by
  have hplay : play Ready run free (new : YPipeConflate ℕ) (writeAlone 7 ++ writeAlone 8) =
    some ⟨⟨1, 7⟩, ⟨2, 8⟩, true, none, false, .outside, .outside, false, [7, 8], 2, false, []⟩ := rfl
  have hstart : Run Start (Guarded free Step) [] (new : YPipeConflate ℕ) := .nil rfl
  have hrun := (play_run hstart hplay).unguarded
  obtain ⟨-, s', m, hs', -, hreceived, -, hlast⟩ := (conflate_keeps_latest hrun).2 ⟨rfl, rfl⟩ rfl (by decide) (by decide)
  exact ⟨_, hrun, s', m, hs', hreceived, (Option.some.inj hlast).symm⟩

/-- A message that is written while the reader holds the lock stays in the back buffer. -/
theorem conflate_can_miss : ¬ ∀ (ops : List (Op ℕ)) (s : YPipeConflate ℕ), Run Start Step ops s → s.Quiet → s.sent ≠ [] →
    (∀ m ∈ s.received, m.no ≠ s.sent.length) → s.hasMsg = true := by
  intro hlatest
  have hplay : play Ready run free (new : YPipeConflate ℕ)
      [.checkRead, .lock, .write 7, .tryLock, .access, .unlockReader] =
    some ⟨⟨1, 7⟩, ⟨0, 0⟩, false, none, false, .outside, .outside, false, [7], 0, true, []⟩ := rfl
  have hstart : Run Start (Guarded free Step) [] (new : YPipeConflate ℕ) := .nil rfl
  have hrun := (play_run hstart hplay).unguarded
  exact false_ne_true (hlatest _ _ hrun ⟨rfl, rfl⟩ (by decide) (by decide))

end YPipeConflate

end Zmq
