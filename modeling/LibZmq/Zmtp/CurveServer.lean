import LibZmq.Zmtp.Curve

/-! `curve_server_t`. -/

namespace Zmq

namespace CurveServer

inductive State where
  | expectHello | sendWelcome | expectInitiate | expectZapReply | sendReady | sendError | errorSent | connected
deriving DecidableEq

end CurveServer

structure CurveServer extends ZapMechanism where
  state : CurveServer.State
  cnNonce : UInt64
  cnPeerNonce : UInt64
  secretKey : List UInt8
  cnPublic : List UInt8
  cnSecret : List UInt8
  cnClient : List UInt8
  cookieKey : List UInt8
  cnPrecom : List UInt8

namespace CurveServer

open Curve

def new (o : MechanismOptions) (session : ZapSession) (peerAddress secretKey cnPublic cnSecret : List UInt8) : CurveServer :=
  ⟨.new o session peerAddress, .expectHello, 1, 1, secretKey, cnPublic, cnSecret, [], [], []⟩

/-- A server that has been constructed. What depends on the client is not initialised. -/
structure Fresh (m : CurveServer) : Prop where
  state : m.state = .expectHello
  cnNonce : m.cnNonce = 1
  cnPeerNonce : m.cnPeerNonce = 1

variable (crypto : Crypto)

def receiveAndProcessZapReply (m : CurveServer) : Except Crash (Ret × CurveServer) := do
  let (rc, z) ← m.toZapMechanism.receiveAndProcessZapReply .eacces
  return (rc, { m with toZapMechanism := z })

def sendZapRequest (m : CurveServer) (key : List UInt8) : Except Crash CurveServer := do
  return { m with toZapMechanism := ← m.toZapMechanism.sendZapRequest (ascii ['C', 'U', 'R', 'V', 'E']) [key] }

variable (m : CurveServer)

def decided : CurveServer :=
  { m with state := if m.statusCode = ZapMechanism.success then .sendReady else .sendError }

def processHello (data : List UInt8) : Except Crash (Ret × CurveServer) :=
  if data.length ≠ 200 then .ok (.error .eproto, m)
  else if data.take 6 ≠ helloName then .ok (.error .eproto, m)
  else if data.getD 6 0 ≠ 1 ∨ data.getD 7 0 ≠ 0 then .ok (.error .eproto, m)
  else do
    let m := { m with cnClient := ← Block.read data 80 32 }
    let helloNonce := helloTag ++ (← Block.read data 112 8)
    let m := { m with cnPeerNonce := getUint64 (data.drop 112) }
    let helloBox ← received (boxZeroBytes + 80) (← Block.read data 120 80)
    match crypto.boxOpen helloBox helloNonce m.cnClient m.secretKey with
    | none => return (.error .eproto, m)
    | some p =>
      let _ ← into (zeroBytes + 64) p
      return (.ok, { m with state := .sendWelcome })

def produceWelcome (random : ℕ → UInt8) : Except Crash (Except MechErrno Msg × CurveServer) := do
  let cookieNonce := draw random 0 16
  let m := { m with cookieKey := draw random 16 32 }
  match crypto.secretbox (zeros zeroBytes ++ m.cnClient ++ m.cnSecret) (cookieTag ++ cookieNonce) m.cookieKey with
  | none => .error .assertion
  | some c =>
    let cookieCiphertext ← into (boxZeroBytes + 80) c
    let welcomeNonce := draw random 48 16
    let plaintext := zeros zeroBytes ++ m.cnPublic ++ cookieNonce ++ strip cookieCiphertext
    match crypto.box plaintext (welcomeTag ++ welcomeNonce) m.cnClient m.secretKey with
    | none => return (.error (.other 0), m)
    | some w =>
      let welcomeCiphertext ← into (boxZeroBytes + 144) w
      return (.ok (.ofData (welcomeName ++ welcomeNonce ++ strip welcomeCiphertext)), m)

/-- The cookie is one of this server, and for this client. -/
def checkCookie (data : List UInt8) : Except Crash Bool := do
  let cookieBox ← received (boxZeroBytes + 80) (← Block.read data 25 80)
  match crypto.secretboxOpen cookieBox (cookieTag ++ (← Block.read data 9 16)) m.cookieKey with
  | none => return false
  | some p =>
    let plaintext ← into (zeroBytes + 64) p
    return (← Block.read plaintext zeroBytes 32) == m.cnClient && (← Block.read plaintext (zeroBytes + 32) 32) == m.cnSecret

/-- The vouch of an opened INITIATE is about the key of this connection. -/
def checkVouch (plaintext : List UInt8) : Except Crash Bool := do
  let clientKey ← Block.read plaintext zeroBytes 32
  let vouchBox ← received (boxZeroBytes + 80) (← Block.read plaintext (zeroBytes + 48) 80)
  let vouchNonce := vouchTag ++ (← Block.read plaintext (zeroBytes + 32) 16)
  match crypto.boxOpen vouchBox vouchNonce clientKey m.cnSecret with
  | none => return false
  | some p =>
    let vouchPlaintext ← into (zeroBytes + 64) p
    return (← Block.read vouchPlaintext zeroBytes 32) == m.cnClient

/-- The handler is asked, and may decide at once. -/
def ask (clientKey : List UInt8) : Except Crash (Ret × CurveServer) := do
  let m ← m.sendZapRequest clientKey
  let (rc, m) ← m.receiveAndProcessZapReply
  match rc with
  | .ok => return (.ok, m.decided)
  | .error .eagain => return (.ok, { m with state := .expectZapReply })
  | .error e => return (.error e, m)

/-- The end of `process_initiate`: the handler is asked, if there is one, and the metadata are parsed. -/
def settle (plaintext : List UInt8) : Except Crash (Ret × CurveServer) := do
  let clientKey ← Block.read plaintext zeroBytes 32
  let (rc, session) ← m.session.zapConnect
  let m := { m with session := session }
  let (rc, m) ← if rc = .ok then m.ask clientKey else pure (Ret.ok, { m with state := .sendReady })
  match rc with
  | .error e => return (.error e, m)
  | .ok =>
    -- the state has been changed by now
    let (rc, base) ← Metadata.parseMetadata Metadata.property m.base (plaintext.drop (zeroBytes + 128)) false
    return (rc, { m with base := base })

def processInitiate (data : List UInt8) : Except Crash (Ret × CurveServer) :=
  if data.length < 257 then .ok (.error .eproto, m)
  else if data.take 9 ≠ initiateName then .ok (.error .eproto, m)
  else do
    if ← m.checkCookie crypto data then
      let initiateBox ← received (boxZeroBytes + 144 + 256) (data.drop 113)
      let initiateNonce := initiateTag ++ (← Block.read data 105 8)
      let m := { m with cnPeerNonce := getUint64 (data.drop 105) }
      match crypto.boxOpen initiateBox initiateNonce m.cnClient m.cnSecret with
      | none => return (.error .eproto, m)
      | some p =>
        let plaintext ← into (zeroBytes + 128 + 256) p
        if ← m.checkVouch crypto plaintext then
          settle { m with cnPrecom := crypto.beforenm m.cnClient m.cnSecret } plaintext
        else return (.error .eproto, m)
    else return (.error .eproto, m)

def produceReady : Except Crash (Msg × CurveServer) := do
  let size := zeroBytes + 256
  let p ← Block.append size [] (zeros zeroBytes)
  let plaintext ← addSocketProperties m.base.options size p
  match crypto.afternm plaintext (readyTag ++ putUint64 m.cnNonce) m.cnPrecom with
  | none => .error .assertion
  | some c =>
    let readyBox ← into (boxZeroBytes + 16 + 256) c
    return (.ofData (readyName ++ putUint64 m.cnNonce ++ strip readyBox), { m with cnNonce := m.cnNonce + 1 })

/-- `sizeof status_code`, where `status_code` is a `std::string`. -/
def sizeofString : UInt8 := 32

def produceError : Except Crash Msg := do
  Block.assert (m.statusCode.length = 3)
  return errorCommand sizeofString m.statusCode

def nextHandshakeCommand (random : ℕ → UInt8) : Except Crash (Except MechErrno Msg × CurveServer) :=
  match m.state with
  | .sendWelcome => do
    let (rc, m) ← m.produceWelcome crypto random
    return (rc, match rc with | .ok _ => { m with state := .expectInitiate } | .error _ => m)
  | .sendReady => do
    let (msg, m) ← m.produceReady crypto
    return (.ok msg, { m with state := .connected })
  | .sendError => do return (.ok (← m.produceError), { m with state := .errorSent })
  | _ => .ok (.error .eagain, m)

def processHandshakeCommand (msg : Msg) : Except Crash (Ret × CurveServer) :=
  match m.state with
  | .expectHello => m.processHello crypto msg.data
  | .expectInitiate => m.processInitiate crypto msg.data
  | _ => .ok (.error .eproto, m)

def encode (msg : Msg) : Except Crash (Msg × CurveServer) := do
  Block.assert (m.state = .connected)
  return (← encodeMessage crypto serverTag m.cnNonce m.cnPrecom msg, { m with cnNonce := m.cnNonce + 1 })

def decode (msg : Msg) : Except Crash (Except MechErrno Msg × CurveServer) := do
  Block.assert (m.state = .connected)
  let (rc, peerNonce) := decodeMessage crypto clientTag m.cnPeerNonce m.cnPrecom msg
  return (rc, { m with cnPeerNonce := peerNonce })

def zapMsgAvailable : Except Crash (Ret × CurveServer) :=
  if m.state ≠ .expectZapReply then .ok (.error .efsm, m)
  else do
    let (rc, m) ← m.receiveAndProcessZapReply
    return (rc, if rc = .ok then m.decided else m)

def status : MechanismStatus :=
  match m.state with
  | .connected => .ready
  | .errorSent => .error
  | _ => .handshaking

def mechanism : Mechanism CurveServer where
  nextHandshakeCommand := nextHandshakeCommand crypto
  processHandshakeCommand := processHandshakeCommand crypto
  zapMsgAvailable := zapMsgAvailable
  status := status

end CurveServer

end Zmq
