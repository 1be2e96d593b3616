import LibZmq.Zmtp.Mechanism

/-! `session_base_t` between an engine and a pipe, and how an engine hands it the frames of a connection. Whether the
pipe has room for a message is for each call to say. -/

namespace Zmq

/-- A message with its group, of which the bytes before the terminating zero count. -/
structure GroupMsg extends Msg where
  group : List UInt8
deriving DecidableEq

namespace GroupMsg

def init : GroupMsg := ⟨.init, []⟩

/-- A frame as it comes from the decoder. -/
def ofFrame (m : Msg) : GroupMsg := ⟨m, []⟩

def isCommand (m : GroupMsg) : Bool := m.flags &&& Msg.command != 0

end GroupMsg

/-- `errno` after `push_msg` has returned -1. -/
inductive PushErrno where
  | eagain | efault
deriving DecidableEq

inductive PushRc where
  | ok
  | error (e : PushErrno)
deriving DecidableEq

structure SessionBase where
  readable : List GroupMsg
  written : List GroupMsg
  incompleteIn : Bool
deriving DecidableEq

namespace SessionBase

def new (readable : List GroupMsg) : SessionBase := ⟨readable, [], false⟩

/-- `none` is -1 with EAGAIN. -/
def pullMsg (s : SessionBase) : Option GroupMsg × SessionBase :=
  match s.readable with
  | [] => (none, s)
  | m :: readable => (some m, { s with readable := readable, incompleteIn := m.hasMore })

/-- The second component is the message when the call returns. -/
def pushMsg (s : SessionBase) (m : GroupMsg) (room : Bool) : PushRc × GroupMsg × SessionBase :=
  if m.isCommand then (.ok, m, s)
  else if room then (.ok, .init, { s with written := s.written ++ [m] })
  else (.error .eagain, m, s)

variable {s : SessionBase} {m : GroupMsg} {room : Bool}

theorem pushMsg_command (h : m.isCommand = true) : s.pushMsg m room = (.ok, m, s) := if_pos h

theorem pushMsg_room (h : m.isCommand = false) : s.pushMsg m true = (.ok, .init, { s with written := s.written ++ [m] }) := by
  unfold pushMsg
  rw [h]
  rfl

theorem pushMsg_full (h : m.isCommand = false) : s.pushMsg m false = (.error .eagain, m, s) := by
  unfold pushMsg
  rw [h]
  rfl

end SessionBase

/-! What an engine does with a frame: it offers the message again whenever the pipe had no room for it. -/

/-- `push_msg` of a session: the state, the message, and whether the pipe has room. -/
abbrev Push (σ : Type) := σ → GroupMsg → Bool → Except Crash (PushRc × GroupMsg × σ)

variable {σ : Type}

/-- The pipe has no room the first `refusals` times. -/
def Push.offer (push : Push σ) : ℕ → σ → GroupMsg → Except Crash (PushRc × σ)
  | 0, s, m => do
    let (rc, _, s) ← push s m true
    return (rc, s)
  | refusals + 1, s, m => do
    let (rc, m, s) ← push s m false
    if rc = .error .eagain then push.offer refusals s m else return (rc, s)

/-- Frame after frame, each with the number of times that the pipe has no room for it; any other error ends the
connection. -/
def Push.receive (push : Push σ) : σ → List (GroupMsg × ℕ) → Except Crash (PushRc × σ)
  | s, [] => .ok (.ok, s)
  | s, (m, refusals) :: frames => do
    let (rc, s) ← push.offer refusals s m
    if rc = .ok then push.receive s frames else return (rc, s)

namespace Push

variable {push : Push σ} {s s' : σ} {m m' : GroupMsg} {n : ℕ} {frames : List (GroupMsg × ℕ)} {rc : PushRc}

theorem offer_at_once (m' : GroupMsg) (h : ∀ room, push s m room = .ok (rc, m', s')) (hrc : rc ≠ .error .eagain) (n : ℕ) :
    push.offer n s m = .ok (rc, s') := by
  cases n with
  | zero =>
    rw [offer, h]
    rfl
  | succ n =>
    rw [offer, h]
    exact if_neg hrc

theorem offer_zero (h : push s m true = .ok (rc, m', s')) : push.offer 0 s m = .ok (rc, s') := by
  rw [offer, h]
  rfl

theorem offer_again (m' : GroupMsg) (hno : push s m false = .ok (.error .eagain, m, s))
    (hyes : push s m true = .ok (rc, m', s')) (n : ℕ) : push.offer n s m = .ok (rc, s') := by
  induction n with
  | zero => exact offer_zero hyes
  | succ n ih =>
    rw [offer, hno]
    exact ih

theorem offer_refused (h : push s m false = .ok (.error .eagain, m', s')) : push.offer (n + 1) s m = push.offer n s' m' := by
  rw [offer, h]
  rfl

theorem receive_ok (h : push.offer n s m = .ok (.ok, s')) : push.receive s ((m, n) :: frames) = push.receive s' frames := by
  rw [receive, h]
  rfl

theorem receive_error {e : PushErrno} (h : push.offer n s m = .ok (.error e, s')) :
    push.receive s ((m, n) :: frames) = .ok (.error e, s') := by
  rw [receive, h]
  rfl

theorem receive_crash {c : Crash} (h : push.offer n s m = .error c) : push.receive s ((m, n) :: frames) = .error c := by
  rw [receive, h]
  rfl

end Push

/-- A frame that the engine hands to a session, and how often the pipe has no room for it. What is not part of the
messages of the peer, such as a command, has no `part`. -/
structure Arrival (κ : Type) where
  part : Option κ
  msg : GroupMsg
  refusals : ℕ

namespace Arrival

variable {κ : Type} {arrivals : List (Arrival κ)} {part : κ} {m : GroupMsg}

def frame (a : Arrival κ) : GroupMsg × ℕ := (a.msg, a.refusals)

def parts (arrivals : List (Arrival κ)) : List (κ × GroupMsg) :=
  arrivals.filterMap fun a => a.part.map (·, a.msg)

theorem exists_of_mem_parts (h : (part, m) ∈ parts arrivals) : ∃ a ∈ arrivals, a.part = some part := by
  obtain ⟨a, ha, heq⟩ := List.mem_filterMap.mp h
  obtain ⟨p, hp, hpair⟩ := Option.map_eq_some_iff.mp heq
  exact ⟨a, ha, hp.trans (congrArg some (Prod.mk.inj hpair).1)⟩

theorem mem_parts {a : Arrival κ} (ha : a ∈ arrivals) (hp : a.part = some part) : (part, a.msg) ∈ parts arrivals :=
  List.mem_filterMap.mpr ⟨a, ha, by rw [hp]; rfl⟩

end Arrival

end Zmq
