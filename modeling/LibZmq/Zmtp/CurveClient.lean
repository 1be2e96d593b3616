import LibZmq.Zmtp.Curve

/-! `curve_client_t`. -/

namespace Zmq

namespace CurveClient

inductive State where
  | sendHello | expectWelcome | sendInitiate | expectReady | errorReceived | connected
deriving DecidableEq

end CurveClient

structure CurveClient where
  base : MechanismBase
  state : CurveClient.State
  publicKey : List UInt8
  secretKey : List UInt8
  serverKey : List UInt8
  cnPublic : List UInt8
  cnSecret : List UInt8
  cnServer : List UInt8
  cnCookie : List UInt8
  cnPrecom : List UInt8
  cnNonce : UInt64
  cnPeerNonce : UInt64

namespace CurveClient

open Curve

def new (o : MechanismOptions) (publicKey secretKey serverKey cnPublic cnSecret : List UInt8) : CurveClient :=
  ⟨.new o, .sendHello, publicKey, secretKey, serverKey, cnPublic, cnSecret, [], [], [], 1, 1⟩

/-- A client that has been constructed. What will come from the server is not initialised. -/
structure Fresh (m : CurveClient) : Prop where
  state : m.state = .sendHello
  cnNonce : m.cnNonce = 1
  cnPeerNonce : m.cnPeerNonce = 1

variable (crypto : Crypto)

/-- -1 without setting `errno` -/
def unset : MechErrno := .other 0

variable (m : CurveClient)

def produceHello : Except Crash (Except MechErrno Msg × CurveClient) :=
  match crypto.box (zeros (zeroBytes + 64)) (helloTag ++ putUint64 m.cnNonce) m.serverKey m.cnSecret with
  | none => .ok (.error unset, m)
  | some c => do
    let helloBox ← into (boxZeroBytes + 80) c
    return (.ok (.ofData (helloName ++ [1, 0] ++ zeros 72 ++ m.cnPublic ++ putUint64 m.cnNonce ++ strip helloBox)),
      { m with cnNonce := m.cnNonce + 1 })

def processWelcome (data : List UInt8) : Except Crash (Ret × CurveClient) :=
  if data.length ≠ 168 then .ok (.error .eproto, m)
  else do
    let welcomeBox ← received (boxZeroBytes + 144) (← Block.read data 24 144)
    let welcomeNonce := welcomeTag ++ (← Block.read data 8 16)
    match crypto.boxOpen welcomeBox welcomeNonce m.serverKey m.cnSecret with
    | none => return (.error .eproto, m)
    | some p => do
      let plaintext ← into (zeroBytes + 128) p
      let cnServer ← Block.read plaintext zeroBytes 32
      let cnCookie ← Block.read plaintext (zeroBytes + 32) (16 + 80)
      return (.ok, { m with
        cnServer := cnServer
        cnCookie := cnCookie
        cnPrecom := crypto.beforenm cnServer m.cnSecret
        state := .sendInitiate })

/-- The plaintext of INITIATE: the key of the client, the vouch, and the metadata. -/
def initiatePlaintext (vouchNonce vouchBox : List UInt8) : Except Crash (List UInt8) := do
  let size := zeroBytes + 128 + 256
  let p ← Block.append size [] (zeros zeroBytes)
  let p ← Block.append size p m.publicKey
  let p ← Block.append size p vouchNonce
  let p ← Block.append size p (strip vouchBox)
  addSocketProperties m.base.options size p

def produceInitiate (random : ℕ → UInt8) : Except Crash (Except MechErrno Msg × CurveClient) :=
  let vouchNonce := draw random 0 16
  match crypto.box (zeros zeroBytes ++ m.cnPublic ++ m.serverKey) (vouchTag ++ vouchNonce) m.cnServer m.secretKey with
  | none => .ok (.error unset, m)
  | some v => do
    let vouchBox ← into (boxZeroBytes + 80) v
    let plaintext ← m.initiatePlaintext vouchNonce vouchBox
    match crypto.box plaintext (initiateTag ++ putUint64 m.cnNonce) m.cnServer m.cnSecret with
    | none => return (.error unset, m)
    | some c =>
      let initiateBox ← into (boxZeroBytes + 144 + 256) c
      return (.ok (.ofData (initiateName ++ m.cnCookie ++ putUint64 m.cnNonce ++ strip initiateBox)),
        { m with cnNonce := m.cnNonce + 1 })

def processReady (data : List UInt8) : Except Crash (Ret × CurveClient) :=
  if data.length < 30 then .ok (.error .eproto, m)
  else do
    let readyBox ← received (boxZeroBytes + 16 + 256) (data.drop 14)
    let readyNonce := readyTag ++ (data.drop 6).take 8
    let m := { m with cnPeerNonce := getUint64 (data.drop 6) }
    match crypto.openAfternm readyBox readyNonce m.cnPrecom with
    | none => return (.error .eproto, m)
    | some p =>
      let plaintext ← into (zeroBytes + 256) p
      let (rc, base) ← Metadata.parseMetadata Metadata.property m.base (plaintext.drop zeroBytes) false
      return (rc, { m with base := base, state := if rc = .ok then .connected else m.state })

def processError (data : List UInt8) : Ret × CurveClient :=
  if m.state ≠ .expectWelcome ∧ m.state ≠ .expectReady then (.error .eproto, m)
  else
    match errorReason data with
    | .error e => (.error e, m)
    | .ok _ => (.ok, { m with state := .errorReceived })

def nextHandshakeCommand (random : ℕ → UInt8) : Except Crash (Except MechErrno Msg × CurveClient) :=
  match m.state with
  | .sendHello => do
    let (rc, m) ← m.produceHello crypto
    return (rc, match rc with | .ok _ => { m with state := .expectWelcome } | .error _ => m)
  | .sendInitiate => do
    let (rc, m) ← m.produceInitiate crypto random
    return (rc, match rc with | .ok _ => { m with state := .expectReady } | .error _ => m)
  | _ => .ok (.error .eagain, m)

def processHandshakeCommand (msg : Msg) : Except Crash (Ret × CurveClient) :=
  if msg.data.take 8 = welcomeName then m.processWelcome crypto msg.data
  else if msg.data.take 6 = readyName then m.processReady crypto msg.data
  else if msg.data.take 6 = errorName then .ok (m.processError msg.data)
  else .ok (.error .eproto, m)

def encode (msg : Msg) : Except Crash (Msg × CurveClient) := do
  Block.assert (m.state = .connected)
  return (← encodeMessage crypto clientTag m.cnNonce m.cnPrecom msg, { m with cnNonce := m.cnNonce + 1 })

def decode (msg : Msg) : Except Crash (Except MechErrno Msg × CurveClient) := do
  Block.assert (m.state = .connected)
  let (rc, peerNonce) := decodeMessage crypto serverTag m.cnPeerNonce m.cnPrecom msg
  return (rc, { m with cnPeerNonce := peerNonce })

def status : MechanismStatus :=
  match m.state with
  | .connected => .ready
  | .errorReceived => .error
  | _ => .handshaking

/-- `zap_msg_available` is that of `mechanism_t`. -/
def mechanism : Mechanism CurveClient where
  nextHandshakeCommand := nextHandshakeCommand crypto
  processHandshakeCommand := processHandshakeCommand crypto
  zapMsgAvailable m := .ok (.ok, m)
  status := status

end CurveClient

end Zmq
