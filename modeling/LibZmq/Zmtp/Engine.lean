import LibZmq.Sessions.Commands

/-! `stream_engine_t` from the moment it is plugged in: the functions that `next_msg` and `process_msg` point to, the
timers, and the output. What the decoder makes of the bytes that arrive, and how much of the output the socket takes, is
said with each event. -/

namespace Zmq

inductive EngineFault where
  | codec (fault : CodecFault)
  | crash (crash : Crash)
  | timerNotFound
  | deleted
  /-- the assertion at the head of `in_event` and `out_event` -/
  | ioError
deriving DecidableEq

inductive TimerId where
  | handshake | heartbeatIvl | heartbeatTtl | heartbeatTimeout
deriving DecidableEq

inductive NextMsg where
  | identityMsg | pullMsgFromSession | nextHandshakeCommand | pullAndEncode | producePing | producePong
deriving DecidableEq

inductive ProcessMsg where
  | processIdentityMsg | writeSubscriptionMsg | pushMsgToSession | processHandshakeCommand | writeCredential
  | decodeAndPush | pushOneThenDecodeAndPush
deriving DecidableEq

inductive EnginePhase where
  | greeting
  | connected
  | dead
deriving DecidableEq

/-- The options that an engine looks at once it is plugged in. An interval of 0 stands for no timer. -/
structure EngineSettings where
  identity : List UInt8
  recvIdentity : Bool
  handshakeIvl : ℕ
  heartbeatInterval : ℕ
  heartbeatTtl : UInt16
  /-- -1 is the default -/
  heartbeatTimeout : ℤ
  /-- the socket is a PUB or XPUB socket -/
  publishes : Bool
  peerProperties : Dict

/-- The virtual functions that an engine calls, and what it relies on. The random bytes are part of the state. -/
structure EngineMechanism (μ : Type) where
  nextHandshakeCommand : μ → Except Crash (Except MechErrno Msg × μ)
  processHandshakeCommand : μ → Msg → Except Crash (Ret × μ)
  zapMsgAvailable : μ → Except Crash (Ret × μ)
  status : μ → MechanismStatus
  encode : μ → Msg → Except Crash (Msg × μ)
  decode : μ → Msg → Except Crash (Except MechErrno Msg × μ)
  base : μ → MechanismBase
  deliver : μ → List Msg → μ
  /-- A command is followed by one of the peer, and leaves room in a batch. -/
  next_ok : ∀ {m m' cmd}, nextHandshakeCommand m = .ok (.ok cmd, m') → cmd.data.length ≤ 2048 ∧
    ∀ {r m''}, nextHandshakeCommand m' = .ok (r, m'') → ∃ errno, r = .error errno
  /-- Nobody becomes ready without saying or hearing something. -/
  next_error : ∀ {m m' errno}, status m = .handshaking → nextHandshakeCommand m = .ok (.error errno, m') → status m' ≠ .ready
  process_again : ∀ {m m' cmd}, status m ≠ .ready → processHandshakeCommand m cmd = .ok (.error .eagain, m') → status m' ≠ .ready
  zap_ok : ∀ {m m'}, status m ≠ .ready → zapMsgAvailable m = .ok (.ok, m') → status m' ≠ .ready
  deliver_status : ∀ {m} frames, status (deliver m frames) = status m
  encode_length : ∀ {m m' msg msg'}, encode m msg = .ok (msg', m') → msg'.data.length ≤ msg.data.length + 64

/-- `pull_msg` returns `none` when there is nothing to send; the second component of `push_msg` is the message when it
returns. A session that had nothing to send has nothing until its pipe is activated. -/
structure EngineSession (σ : Type) where
  pullMsg : σ → Option Msg × σ
  pushMsg : σ → Msg → Except Crash (PushRc × Msg × σ)
  /-- the pipe has been found empty, and has not been activated since -/
  asleep : σ → Bool
  pull_none : ∀ {s s'}, pullMsg s = (none, s') → asleep s' = true
  pull_asleep : ∀ {s}, asleep s = true → (pullMsg s).1 = none
  push_asleep : ∀ {s s' m m' rc}, asleep s = true → pushMsg s m = .ok (rc, m', s') → asleep s' = true

inductive Write where
  | all
  /-- `n` bytes at most, and never all -/
  | part (n : ℕ)
  | fail
deriving DecidableEq

structure Engine (σ μ : Type) where
  settings : EngineSettings
  phase : EnginePhase
  session : σ
  mechanism : Option μ
  nextMsg : NextMsg
  processMsg : ProcessMsg
  received : Msg
  encoder : Option (EncoderKind × Encoder)
  out : List UInt8
  pollin : Bool
  pollout : Bool
  inputStopped : Bool
  outputStopped : Bool
  ioError : Bool
  subscriptionRequired : Bool
  metadata : Option Dict
  has : TimerId → Bool
  timers : List TimerId
  -- what is said about a run
  writeFailed : Bool
  readied : ℕ
  identities : ℕ
  /-- the mechanism has been given a frame, or asked for one, when it was ready -/
  late : Bool
  owesPong : Bool
  owesPing : Bool

/-- `heartbeat_timeout` -/
def EngineSettings.timeout (o : EngineSettings) : ℤ :=
  if 0 < o.heartbeatInterval then
    if o.heartbeatTimeout = -1 then o.heartbeatInterval else o.heartbeatTimeout
  else 0

def PushRc.ret : PushRc → Ret
  | .ok => .ok
  | .error .eagain => .error .eagain
  | .error .efault => .error (.other 14)

def Msg.isCommand (m : Msg) : Bool := m.flags &&& Msg.command != 0

namespace Engine

variable {σ μ α : Type}

def liftCodec : Except CodecFault α → Except EngineFault α := Except.mapError .codec

def liftCrash : Except Crash α → Except EngineFault α := Except.mapError .crash

def assert (p : Prop) [Decidable p] : Except EngineFault Unit := liftCrash (Block.assert p)

variable (e : Engine σ μ)

/-- `zmq_assert (!io_error)` -/
def assertNoIoError : Except EngineFault Unit := if e.ioError then .error .ioError else .ok ()

def addTimer (t : TimerId) : Engine σ μ := { e with timers := t :: e.timers }

def cancelTimer (t : TimerId) : Except EngineFault (Engine σ μ) :=
  if t ∈ e.timers then .ok { e with timers := e.timers.erase t } else .error .timerNotFound

def arm (t : TimerId) : Engine σ μ := { e.addTimer t with has := Function.update e.has t true }

def armOnce (t : TimerId) (wanted : Bool) : Engine σ μ := if !e.has t && wanted then e.arm t else e

def disarm (t : TimerId) : Except EngineFault (Engine σ μ) :=
  if e.has t then cancelTimer { e with has := Function.update e.has t false } t else .ok e

def unplug : Except EngineFault (Engine σ μ) := do
  let e ← e.disarm .handshake
  let e ← e.disarm .heartbeatTtl
  let e ← e.disarm .heartbeatTimeout
  e.disarm .heartbeatIvl

/-- `terminate`, and the end of `error`: the engine is deleted. -/
def terminate : Except EngineFault (Engine σ μ) := do
  return { ← e.unplug with phase := .dead }

def error : Except EngineFault (Engine σ μ) := e.terminate

variable (M : EngineMechanism μ) (S : EngineSession σ) (e : Engine σ μ)

/-- `zmq_assert (mechanism != NULL)` -/
def theMechanism : Except EngineFault μ :=
  match e.mechanism with
  | none => .error (.crash .assertion)
  | some m => .ok m

def push (m : Msg) : Except EngineFault (PushRc × Msg × Engine σ μ) := do
  let (rc, m, session) ← liftCrash (S.pushMsg e.session m)
  return (rc, m, { e with session := session })

def peerIdentity (m : μ) : Msg := (Msg.ofData (M.base m).identity).setFlags Msg.identity

/-- The identity of the peer goes to the session; `false` when the session has no room for it. -/
def pushIdentity (m : μ) : Except EngineFault (Bool × Engine σ μ) :=
  if e.settings.recvIdentity then do
    let (rc, _, e) ← e.push S (peerIdentity M m)
    if rc = .error .eagain then return (false, e)
    else do
      assert (rc = .ok)
      return (true, { e with identities := e.identities + 1 })
  else .ok (true, e)

def mechanismReady : Except EngineFault (Engine σ μ) := do
  let e := if 0 < e.settings.heartbeatInterval then e.arm .heartbeatIvl else e
  let m ← e.theMechanism
  let (taken, e) ← e.pushIdentity M S m
  -- the pipe is being shut down
  if !taken then return e
  else do
    let properties := ((M.base m).zapProperties ++ (M.base m).zmtpProperties).foldl Dict.insert e.settings.peerProperties
    assert (e.metadata = none)
    return { e with
      nextMsg := .pullAndEncode
      processMsg := .writeCredential
      metadata := if properties = [] then none else some properties
      readied := e.readied + 1 }

def pullMsgFromSession : Except MechErrno Msg × Engine σ μ :=
  match S.pullMsg e.session with
  | (none, session) => (.error .eagain, { e with session := session })
  | (some m, session) => (.ok m, { e with session := session })

def encode (e : Engine σ μ) (m : Msg) : Except EngineFault (Msg × Engine σ μ) := do
  let (m, mechanism) ← liftCrash (M.encode (← e.theMechanism) m)
  return (m, { e with mechanism := some mechanism })

def identityMsg : Except MechErrno Msg × Engine σ μ :=
  (.ok (.ofData e.settings.identity), { e with nextMsg := .pullMsgFromSession })

def pullAndEncode : Except EngineFault (Except MechErrno Msg × Engine σ μ) := do
  let (r, e) := e.pullMsgFromSession S
  match r with
  | .error errno => return (.error errno, e)
  | .ok m => do
    let (m, e) ← e.encode M m
    return (.ok m, e)

def nextHandshakeCommand (e : Engine σ μ) : Except EngineFault (Except MechErrno Msg × Engine σ μ) := do
  let m ← e.theMechanism
  match M.status m with
  | .ready => do
    let e ← e.mechanismReady M S
    e.pullAndEncode M S
  | .error => return (.error .eproto, e)
  | .handshaking => do
    let (r, m) ← liftCrash (M.nextHandshakeCommand m)
    return (r.map (·.setFlags Msg.command), { e with mechanism := some m })

def producePing : Except EngineFault (Except MechErrno Msg × Engine σ μ) := do
  let ttl := e.settings.heartbeatTtl
  let (m, e) ← e.encode M ((Msg.ofData (pingName ++ [(ttl >>> 8).toUInt8, ttl.toUInt8])).setFlags Msg.command)
  return (.ok m, armOnce { e with nextMsg := .pullAndEncode } .heartbeatTimeout (0 < e.settings.timeout))

def producePong : Except EngineFault (Except MechErrno Msg × Engine σ μ) := do
  let (m, e) ← e.encode M ((Msg.ofData (4 :: ascii ['P', 'O', 'N', 'G'])).setFlags Msg.command)
  return (.ok m, { e with nextMsg := .pullAndEncode })

/-- `(this->*next_msg) (&tx_msg)` -/
def next : Except EngineFault (Except MechErrno Msg × Engine σ μ) :=
  match e.nextMsg with
  | .identityMsg => .ok e.identityMsg
  | .pullMsgFromSession => .ok (e.pullMsgFromSession S)
  | .nextHandshakeCommand => e.nextHandshakeCommand M S
  | .pullAndEncode => e.pullAndEncode M S
  | .producePing => e.producePing M
  | .producePong => e.producePong M

/-- `load_msg`, and `encode` into what is left of the buffer. -/
def load (null : Bool) (m : Msg) : Except EngineFault (Engine σ μ) :=
  match e.encoder with
  | none => .error (.codec .nullDereference)
  | some (kind, encoder) => do
    let encoder ← liftCodec (encoder.loadMsg kind.act m)
    let (bytes, encoder) ← liftCodec
      (encoder.encode kind.act (if null then none else some (StreamEngine.outBatchSize - e.out.length)))
    assert (bytes ≠ [])
    return { e with out := e.out ++ bytes, encoder := some (kind, encoder) }

/-- A heartbeat that was to be sent is in the encoder. -/
def settle : NextMsg → Engine σ μ
  | .producePing => { e with owesPing := false }
  | .producePong => { e with owesPong := false }
  | _ => e

/-- The loop of `out_event`, which grows `out` each time; `null` is whether `outpos` is NULL. -/
def fill : ℕ → Bool → Engine σ μ → Except EngineFault (Engine σ μ)
  | 0, _, e => .ok e
  | fuel + 1, null, e =>
    if e.out.length < StreamEngine.outBatchSize then do
      let (r, e') ← e.next M S
      match r with
      | .error _ => return e'
      | .ok m => do
        let e' ← e'.load null m
        fill fuel false (e'.settle e.nextMsg)
    else .ok e

def writeOut (w : Write) : Engine σ μ :=
  match w with
  | .fail => { e with pollout := false, writeFailed := true }
  | .all => { e with out := [], pollout := e.pollout && e.phase != .greeting }
  | .part n => { e with out := e.out.drop (min n (e.out.length - 1)) }

def outEvent (w : Write) : Except EngineFault (Engine σ μ) := do
  e.assertNoIoError
  if e.out = [] then
    match e.encoder with
    | none => do
      assert (e.phase = .greeting)
      return e
    | some (kind, encoder) => do
      let null := encoder.inProgress.isNone
      let (out, encoder) ← liftCodec (encoder.encode kind.act none)
      let e ← fill M S StreamEngine.outBatchSize null { e with out := out, encoder := some (kind, encoder) }
      if e.out = [] then return { e with outputStopped := true, pollout := false }
      else return e.writeOut w
  else return e.writeOut w

def restartOutput (w : Write) : Except EngineFault (Engine σ μ) :=
  if e.ioError then .ok e
  else outEvent M S (if e.outputStopped then { e with pollout := true, outputStopped := false } else e) w

def restartIfStopped (w : Write) : Except EngineFault (Engine σ μ) :=
  if e.outputStopped then e.restartOutput M S w else .ok e

/-- The identity of a peer that has no mechanism. -/
def takeIdentity (m : Msg) : Except EngineFault (Msg × Engine σ μ) :=
  if e.settings.recvIdentity then do
    let (rc, m, e) ← e.push S (m.setFlags Msg.identity)
    assert (rc = .ok)
    return (m, e)
  else .ok (.init, e)

def processIdentityMsg (m : Msg) : Except EngineFault (Ret × Msg × Engine σ μ) := do
  let (m, e) ← e.takeIdentity S m
  return (.ok, m, { e with processMsg := if e.subscriptionRequired then .writeSubscriptionMsg else .pushMsgToSession })

def pushMsgToSession (m : Msg) : Except EngineFault (Ret × Msg × Engine σ μ) := do
  let (rc, m, e) ← e.push S m
  return (rc.ret, m, e)

def writeSubscriptionMsg (m : Msg) : Except EngineFault (Ret × Msg × Engine σ μ) := do
  let (rc, _, e) ← e.push S (.ofData [1])
  if rc = .ok then pushMsgToSession S { e with processMsg := .pushMsgToSession } m else return (rc.ret, m, e)

/-- The end of `process_handshake_command`, when the mechanism has taken the command. -/
def commandTaken (m : μ) (w : Write) : Except EngineFault (Ret × Engine σ μ) := do
  match M.status m with
  | .ready => do
    let e ← e.mechanismReady M S
    let e ← e.restartIfStopped M S w
    return (.ok, e)
  | .error => return (.error .eproto, e)
  | .handshaking => do
    let e ← e.restartIfStopped M S w
    return (.ok, e)

def processHandshakeCommand (e : Engine σ μ) (msg : Msg) (w : Write) : Except EngineFault (Ret × Msg × Engine σ μ) := do
  let m ← e.theMechanism
  let e := { e with late := e.late || decide (M.status m = MechanismStatus.ready) }
  let (rc, m) ← liftCrash (M.processHandshakeCommand m msg)
  let e := { e with mechanism := some m }
  match rc with
  | .error errno => return (.error errno, msg, e)
  | .ok => do
    let (rc, e) ← e.commandTaken M S m w
    return (rc, .init, e)

/-- A heartbeat is to be the next message. -/
def requestPing : Engine σ μ := { e with nextMsg := .producePing, owesPing := true }

def requestPong : Engine σ μ := { e with nextMsg := .producePong, owesPong := true }

/-- `process_heartbeat_message`: a PING asks for a PONG, which is sent at once if nothing is left in the buffer. -/
def heartbeat (interval : Option UInt16) (w : Write) : Except EngineFault (Engine σ μ) :=
  match interval with
  | none => .ok e
  | some ttl => outEvent M S (e.armOnce .heartbeatTtl (0 < ttl)).requestPong w

/-- The part of `decode_and_push` that looks at commands. -/
def commandInterval (m : Msg) : Except EngineFault (Option UInt16) :=
  if m.isCommand then liftCrash (processCommand m.data) else .ok none

def decodeAndPush (m : Msg) (w : Write) : Except EngineFault (Ret × Msg × Engine σ μ) := do
  let (r, mechanism) ← liftCrash (M.decode (← e.theMechanism) m)
  let e := { e with mechanism := some mechanism }
  match r with
  | .error errno => return (.error errno, m, e)
  | .ok m => do
    let e ← e.disarm .heartbeatTimeout
    let e ← e.disarm .heartbeatTtl
    let interval ← commandInterval m
    let e ← e.heartbeat M S interval w
    let (rc, m, e) ← e.push S m
    return (rc.ret, m, if rc = .error .eagain then { e with processMsg := .pushOneThenDecodeAndPush } else e)

def pushCredential (credential : List UInt8) : Except EngineFault (PushRc × Engine σ μ) :=
  if credential = [] then .ok (.ok, e)
  else do
    let (rc, _, e) ← e.push S ((Msg.ofData credential).setFlags Msg.credential)
    return (rc, e)

def writeCredential (m : Msg) (w : Write) : Except EngineFault (Ret × Msg × Engine σ μ) := do
  let k ← e.theMechanism
  let (rc, e) ← e.pushCredential S (M.base k).userId
  if rc = .ok then decodeAndPush M S { e with processMsg := .decodeAndPush } m w else return (rc.ret, m, e)

def pushOneThenDecodeAndPush (m : Msg) : Except EngineFault (Ret × Msg × Engine σ μ) := do
  let (rc, m, e) ← e.push S m
  return (rc.ret, m, if rc = .ok then { e with processMsg := .decodeAndPush } else e)

/-- What `process_msg` points to. -/
def handler (m : Msg) (w : Write) : Except EngineFault (Ret × Msg × Engine σ μ) :=
  match e.processMsg with
  | .processIdentityMsg => e.processIdentityMsg S m
  | .writeSubscriptionMsg => e.writeSubscriptionMsg S m
  | .pushMsgToSession => e.pushMsgToSession S m
  | .processHandshakeCommand => e.processHandshakeCommand M S m w
  | .writeCredential => e.writeCredential M S m w
  | .decodeAndPush => e.decodeAndPush M S m w
  | .pushOneThenDecodeAndPush => e.pushOneThenDecodeAndPush S m

/-- `(this->*process_msg) (decoder->msg ())` -/
def process (m : Msg) (w : Write) : Except EngineFault (Ret × Engine σ μ) := do
  let (rc, m, e) ← e.handler M S m w
  return (rc, { e with received := m })

/-- A frame that the decoder gives, and what the socket does should the engine write in answer. -/
structure Frame where
  msg : Msg
  write : Write

/-- The frames of what has been read, the last one perhaps followed by bytes that are no frame. -/
structure Input where
  frames : List Frame
  malformed : Bool

/-- What the loop over the frames ends with. -/
inductive Ending where
  | drained | eagain | protocolError
deriving DecidableEq

/-- The loop over what has been read. -/
def processAll : Engine σ μ → List Frame → Bool → Except EngineFault (Ending × Engine σ μ)
  | e, [], malformed => .ok (if malformed then .protocolError else .drained, e)
  | e, f :: frames, malformed => do
    let (rc, e) ← e.process M S f.msg f.write
    match rc with
    | .ok => processAll e frames malformed
    | .error .eagain => return (.eagain, e)
    | .error _ => return (.protocolError, e)

/-- What `in_event` reads: nothing, the end of the stream or an error, or some bytes. -/
inductive Reading where
  | nothing | closed
  | bytes (input : Input)

/-- `in_event`, once the greeting has been received. -/
def inEvent (r : Reading) : Except EngineFault (Engine σ μ) := do
  e.assertNoIoError
  if e.inputStopped then return { e with ioError := true, pollin := false, pollout := false }
  else
    match r with
    | .nothing => return e
    | .closed => e.error
    | .bytes input => do
      let (ending, e) ← e.processAll M S input.frames input.malformed
      match ending with
      | .drained => return e
      | .eagain => return { e with inputStopped := true, pollin := false }
      | .protocolError => e.error

/-- The frame that could not be pushed is tried again, then those that are left in the buffer, then what can be read. -/
def restartInput (w : Write) (left : Input) (r : Reading) : Except EngineFault (Engine σ μ) := do
  assert (e.inputStopped = true)
  let (rc, e) ← e.process M S e.received w
  match rc with
  | .error .eagain => return e
  | .error _ => e.error
  | .ok => do
    let (ending, e) ← e.processAll M S left.frames left.malformed
    if ending = .eagain then return e
    else if e.ioError then e.error
    else if ending = .protocolError then e.error
    else inEvent M S { e with inputStopped := false, pollin := true } r

/-- A protocol that the greeting may lead to. -/
inductive Spoken (μ : Type) where
  /-- the encoder has the identity already -/
  | unversioned (encoder : Encoder)
  | older (kind : EncoderKind)
  | zmtp3 (mechanism : μ)

/-- What comes of a part of the greeting. -/
inductive Greeted (μ : Type) where
  | incomplete | failed
  | complete (protocol : Spoken μ)

/-- The end of `handshake`. -/
def connect (p : Spoken μ) : Except EngineFault (Engine σ μ) :=
  let e := match p with
    | .unversioned encoder => { e with
        encoder := some (.v1, encoder)
        subscriptionRequired := e.settings.publishes
        nextMsg := .pullMsgFromSession
        processMsg := .processIdentityMsg }
    | .older kind => { e with encoder := some (kind, .new StreamEngine.outBatchSize) }
    | .zmtp3 m => { e with
        encoder := some (.v2, .new StreamEngine.outBatchSize)
        mechanism := some m
        nextMsg := .nextHandshakeCommand
        processMsg := .processHandshakeCommand }
  disarm { e with pollout := e.pollout || e.out = [], phase := .connected } .handshake

def queue (queued : List UInt8) : Engine σ μ :=
  { e with out := e.out ++ queued, pollout := e.pollout || (e.out = [] && queued ≠ []) }

def greetingEvent (queued : List UInt8) (g : Greeted μ) (r : Reading) :
    Except EngineFault (Engine σ μ) := do
  e.assertNoIoError
  let e := e.queue queued
  match g with
  | .incomplete => return e
  | .failed => e.error
  | .complete p => inEvent M S (← e.connect p) r

def restartInputIfStopped (w : Write) (left : Input) (r : Reading) : Except EngineFault (Engine σ μ) :=
  if e.inputStopped then e.restartInput M S w left r else .ok e

/-- `plug` before `in_event`: `greeting` is what is sent at once. -/
def plug (o : EngineSettings) (session : σ) (greeting : List UInt8) : Engine σ μ :=
  let e : Engine σ μ := {
    settings := o
    phase := .greeting
    session := session
    mechanism := none
    nextMsg := .identityMsg
    processMsg := .processIdentityMsg
    received := .init
    encoder := none
    out := greeting
    pollin := true
    pollout := true
    inputStopped := false
    outputStopped := false
    ioError := false
    subscriptionRequired := false
    metadata := none
    has := fun _ => false
    timers := []
    writeFailed := false
    readied := 0
    identities := 0
    late := false
    owesPong := false
    owesPing := false }
  if 0 < o.handshakeIvl then e.arm .handshake else e

def zapMsgAvailable (e : Engine σ μ) (w : Write) (left : Input) (r : Reading) (w' : Write) :
    Except EngineFault (Engine σ μ) := do
  let (rc, m) ← liftCrash (M.zapMsgAvailable (← e.theMechanism))
  let e := { e with mechanism := some m }
  match rc with
  | .error _ => e.error
  | .ok => do
    let e ← e.restartInputIfStopped M S w left r
    if e.phase = .dead then .error .deleted else e.restartIfStopped M S w'

/-- `timer_event`; what the entry of the timer has been removed from is for the poller. -/
def timerEvent (t : TimerId) (w : Write) : Except EngineFault (Engine σ μ) :=
  match t with
  | .heartbeatIvl => do
    let e ← outEvent M S e.requestPing w
    return e.addTimer .heartbeatIvl
  | t => error { e with has := Function.update e.has t false }

/-- One turn of `execute_timers`: the entry is erased once the timer has been triggered. -/
def executeTimer (t : TimerId) (w : Write) : Except EngineFault (Engine σ μ) :=
  if e.phase = .dead then .error .deleted
  else do
    let e ← e.timerEvent M S t w
    return { e with timers := e.timers.erase t }

end Engine

end Zmq
