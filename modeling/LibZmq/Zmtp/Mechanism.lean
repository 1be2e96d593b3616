import LibZmq.Zmtp.Metadata

/-! What mechanisms have in common: the virtual functions of `mechanism_t`, the pipe of the session to a ZAP handler,
and the requests and replies on it. -/

namespace Zmq

inductive MechanismStatus where
  | handshaking | ready | error
deriving DecidableEq

/-- `session_base_t`, as far as mechanisms use it. -/
structure ZapSession where
  /-- `find_endpoint` finds a handler of a suitable type -/
  handler : Bool
  connected : Bool
  incoming : List Msg
  outgoing : List Msg

namespace ZapSession

def new (handler : Bool) : ZapSession := ⟨handler, false, [], []⟩

def zapConnect (s : ZapSession) : Except Crash (Ret × ZapSession) := do
  Block.assert (s.connected = false)
  if s.handler then return (.ok, { s with connected := true }) else return (.error .econnrefused, s)

def readZapMsg (s : ZapSession) : Except MechErrno Msg × ZapSession :=
  if s.connected then
    match s.incoming with
    | [] => (.error .eagain, s)
    | m :: incoming => (.ok m, { s with incoming := incoming })
  else (.error .enotconn, s)

def writeZapMsg (s : ZapSession) (m : Msg) : Except Crash ZapSession := do
  Block.assert (s.connected = true)
  return { s with outgoing := s.outgoing ++ [m] }

/-- Frames with these contents, `more` on all but the last one. -/
def writeFrames (s : ZapSession) : List (List UInt8) → Except Crash ZapSession
  | [] => .ok s
  | [data] => s.writeZapMsg (.ofData data)
  | data :: frames => do writeFrames (← s.writeZapMsg ((Msg.ofData data).setFlags Msg.more)) frames

/-- `n` frames, of which the last one and no other comes without `more`. -/
def readFrames : ℕ → ZapSession → Except MechErrno (List Msg) × ZapSession
  | 0, s => (.ok [], s)
  | n + 1, s =>
    match s.readZapMsg with
    | (.error e, s) => (.error e, s)
    | (.ok m, s) =>
      if m.hasMore = decide (n = 0) then (.error .eproto, s)
      else
        match readFrames n s with
        | (.error e, s) => (.error e, s)
        | (.ok ms, s) => (.ok (m :: ms), s)

end ZapSession

structure ZapMechanism where
  base : MechanismBase
  session : ZapSession
  peerAddress : List UInt8
  statusCode : List UInt8

namespace ZapMechanism

def new (o : MechanismOptions) (session : ZapSession) (peerAddress : List UInt8) : ZapMechanism :=
  ⟨.new o, session, peerAddress, []⟩

def zapVersion : List UInt8 := ascii ['1', '.', '0']

def requestId : List UInt8 := ascii ['1']

def success : List UInt8 := ascii ['2', '0', '0']

def sendZapRequest (z : ZapMechanism) (mechanism : List UInt8) (credentials : List (List UInt8)) :
    Except Crash ZapMechanism := do
  let o := z.base.options
  let session ← z.session.writeFrames
    ([[], zapVersion, requestId, o.zapDomain, z.peerAddress, o.identity, mechanism] ++ credentials)
  return { z with session := session }

/-- `receive_and_process_zap_reply`; `rejected` is the error for a status code that is not of three bytes. The status
code and the user are kept even if the metadata are malformed. -/
def receiveAndProcessZapReply (z : ZapMechanism) (rejected : MechErrno) : Except Crash (Ret × ZapMechanism) :=
  match z.session.readFrames 7 with
  | (.error e, session) => .ok (.error e, { z with session := session })
  | (.ok frames, session) =>
    let z := { z with session := session }
    let data (i : ℕ) : List UInt8 := (frames.getD i .init).data
    if data 0 ≠ [] ∨ data 1 ≠ zapVersion ∨ data 2 ≠ requestId then .ok (.error .eproto, z)
    else if (data 3).length ≠ 3 then .ok (.error rejected, z)
    else do
      let (rc, base) ← Metadata.parseMetadata Metadata.property (z.base.setUserId (data 5)) (data 6) true
      return (rc, { z with statusCode := data 3, base := base })

end ZapMechanism

/-- The virtual functions of `mechanism_t`. What is random is an argument. -/
structure Mechanism (μ : Type) where
  nextHandshakeCommand : μ → (random : ℕ → UInt8) → Except Crash (Except MechErrno Msg × μ)
  processHandshakeCommand : μ → Msg → Except Crash (Ret × μ)
  zapMsgAvailable : μ → Except Crash (Ret × μ)
  status : μ → MechanismStatus

/-- The command that tells about the socket: a name, and the properties, in a buffer of `size` bytes that holds `b`. -/
def addSocketProperties (o : MechanismOptions) (size : ℕ) (b : List UInt8) : Except Crash (List UInt8) := do
  let b ← Metadata.addProperty size b Metadata.socketTypeName (← socketTypeString o.type)
  if o.type = 3 ∨ o.type = 5 ∨ o.type = 6 then Metadata.addProperty size b Metadata.identityName o.identity else return b

def readyName : List UInt8 := 5 :: ascii ['R', 'E', 'A', 'D', 'Y']
def errorName : List UInt8 := 5 :: ascii ['E', 'R', 'R', 'O', 'R']
def helloName : List UInt8 := 5 :: ascii ['H', 'E', 'L', 'L', 'O']
def welcomeName : List UInt8 := 7 :: ascii ['W', 'E', 'L', 'C', 'O', 'M', 'E']
def initiateName : List UInt8 := 8 :: ascii ['I', 'N', 'I', 'T', 'I', 'A', 'T', 'E']
def messageName : List UInt8 := 7 :: ascii ['M', 'E', 'S', 'S', 'A', 'G', 'E']

/-- An ERROR command: `length` is the byte that states the length of the reason. -/
def errorCommand (length : UInt8) (statusCode : List UInt8) : Msg := .ofData (errorName ++ length :: statusCode)

/-- The checks of an ERROR command that has been received. -/
def errorReason (data : List UInt8) : Except MechErrno (List UInt8) :=
  if data.length < 7 then .error .eproto
  else if data.length - 7 < (data.getD 6 0).toNat then .error .eproto
  else .ok ((data.drop 7).take (data.getD 6 0).toNat)

end Zmq
