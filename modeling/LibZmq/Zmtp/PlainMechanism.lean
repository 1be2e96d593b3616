import LibZmq.Zmtp.Mechanism

/-! `plain_client_t` and `plain_server_t`. -/

namespace Zmq

namespace PlainClient

inductive State where
  | sendingHello | waitingForWelcome | sendingInitiate | waitingForReady | errorCommandReceived | ready
deriving DecidableEq

end PlainClient

structure PlainClient where
  base : MechanismBase
  state : PlainClient.State

namespace PlainClient

def new (o : MechanismOptions) : PlainClient := ⟨.new o, .sendingHello⟩

variable (m : PlainClient)

def produceHello : Except Crash Msg := do
  let username := m.base.options.plainUsername
  Block.assert (username.length < 256)
  let password := m.base.options.plainPassword
  Block.assert (password.length < 256)
  return .ofData (helloName ++ UInt8.ofNat username.length :: username ++ UInt8.ofNat password.length :: password)

def produceInitiate : Except Crash Msg := do
  return .ofData (← addSocketProperties m.base.options 512 initiateName)

def nextHandshakeCommand : Except Crash (Except MechErrno Msg × PlainClient) :=
  match m.state with
  | .sendingHello => do return (.ok (← m.produceHello), { m with state := .waitingForWelcome })
  | .sendingInitiate => do return (.ok (← m.produceInitiate), { m with state := .waitingForReady })
  | _ => .ok (.error .eagain, m)

def processWelcome (data : List UInt8) : Ret × PlainClient :=
  if m.state ≠ .waitingForWelcome then (.error .eproto, m)
  else if data.length ≠ 8 then (.error .eproto, m)
  else (.ok, { m with state := .sendingInitiate })

def processReady (data : List UInt8) : Except Crash (Ret × PlainClient) :=
  if m.state ≠ .waitingForReady then .ok (.error .eproto, m)
  else do
    let (rc, base) ← Metadata.parseMetadata Metadata.property m.base (data.drop 6) false
    return (rc, { m with base := base, state := if rc = .ok then .ready else m.state })

def processError (data : List UInt8) : Ret × PlainClient :=
  if m.state ≠ .waitingForWelcome ∧ m.state ≠ .waitingForReady then (.error .eproto, m)
  else
    match errorReason data with
    | .error e => (.error e, m)
    | .ok _ => (.ok, { m with state := .errorCommandReceived })

def processHandshakeCommand (msg : Msg) : Except Crash (Ret × PlainClient) :=
  if msg.data.take 8 = welcomeName then .ok (m.processWelcome msg.data)
  else if msg.data.take 6 = readyName then m.processReady msg.data
  else if msg.data.take 6 = errorName then .ok (m.processError msg.data)
  else .ok (.error .eproto, m)

def status : MechanismStatus :=
  match m.state with
  | .ready => .ready
  | .errorCommandReceived => .error
  | _ => .handshaking

def mechanism : Mechanism PlainClient where
  nextHandshakeCommand m _ := m.nextHandshakeCommand
  processHandshakeCommand := processHandshakeCommand
  zapMsgAvailable m := .ok (.ok, m)
  status := status

end PlainClient

namespace PlainServer

inductive State where
  | waitingForHello | sendingWelcome | waitingForInitiate | sendingReady | waitingForZapReply | sendingError
  | errorCommandSent | ready
deriving DecidableEq

end PlainServer

structure PlainServer extends ZapMechanism where
  state : PlainServer.State

namespace PlainServer

def new (o : MechanismOptions) (session : ZapSession) (peerAddress : List UInt8) : PlainServer :=
  ⟨.new o session peerAddress, .waitingForHello⟩

def receiveAndProcessZapReply (m : PlainServer) : Except Crash (Ret × PlainServer) := do
  let (rc, z) ← m.toZapMechanism.receiveAndProcessZapReply .eacces
  return (rc, { m with toZapMechanism := z })

def sendZapRequest (m : PlainServer) (username password : List UInt8) : Except Crash PlainServer := do
  return { m with
    toZapMechanism := ← m.toZapMechanism.sendZapRequest (ascii ['P', 'L', 'A', 'I', 'N']) [username, password] }

variable (m : PlainServer)

def decided : PlainServer :=
  { m with state := if m.statusCode = ZapMechanism.success then .sendingWelcome else .sendingError }

def credentials (data : List UInt8) : Except MechErrno (List UInt8 × List UInt8) :=
  if data.take 6 ≠ helloName then .error .eproto
  else
    match data.drop 6 with
    | [] => .error .eproto
    | usernameLength :: rest =>
      if rest.length < usernameLength.toNat then .error .eproto
      else
        match rest.drop usernameLength.toNat with
        | [] => .error .eproto
        | passwordLength :: password =>
          if password.length < passwordLength.toNat then .error .eproto
          else if password.length - passwordLength.toNat > 0 then .error .eproto
          else .ok (rest.take usernameLength.toNat, password.take passwordLength.toNat)

def processHello (data : List UInt8) : Except Crash (Ret × PlainServer) :=
  match credentials data with
  | .error e => .ok (.error e, m)
  | .ok (username, password) => do
    let (rc, session) ← m.session.zapConnect
    let m := { m with session := session }
    if rc = .ok then
      let m ← m.sendZapRequest username password
      let (rc, m) ← m.receiveAndProcessZapReply
      match rc with
      | .ok => return (.ok, m.decided)
      | .error .eagain => return (.ok, { m with state := .waitingForZapReply })
      | .error e => return (.error e, m)
    else return (.ok, { m with state := .sendingWelcome })

def processInitiate (data : List UInt8) : Except Crash (Ret × PlainServer) :=
  if data.take 9 ≠ initiateName then .ok (.error .eproto, m)
  else do
    let (rc, base) ← Metadata.parseMetadata Metadata.property m.base (data.drop 9) false
    return (rc, { m with base := base, state := if rc = .ok then .sendingReady else m.state })

def processHandshakeCommand (msg : Msg) : Except Crash (Ret × PlainServer) :=
  match m.state with
  | .waitingForHello => m.processHello msg.data
  | .waitingForInitiate => m.processInitiate msg.data
  | _ => .ok (.error .eproto, m)

def produceWelcome (_ : PlainServer) : Msg := .ofData welcomeName

def produceReady : Except Crash Msg := do
  return .ofData (← addSocketProperties m.base.options 512 readyName)

def produceError : Except Crash Msg := do
  Block.assert (m.statusCode.length = 3)
  return errorCommand (UInt8.ofNat m.statusCode.length) m.statusCode

def nextHandshakeCommand : Except Crash (Except MechErrno Msg × PlainServer) :=
  match m.state with
  | .sendingWelcome => .ok (.ok m.produceWelcome, { m with state := .waitingForInitiate })
  | .sendingReady => do return (.ok (← m.produceReady), { m with state := .ready })
  | .sendingError => do return (.ok (← m.produceError), { m with state := .errorCommandSent })
  | _ => .ok (.error .eagain, m)

def zapMsgAvailable : Except Crash (Ret × PlainServer) :=
  if m.state ≠ .waitingForZapReply then .ok (.error .efsm, m)
  else do
    let (rc, m) ← m.receiveAndProcessZapReply
    return (rc, if rc = .ok then m.decided else m)

def status : MechanismStatus :=
  match m.state with
  | .ready => .ready
  | .errorCommandSent => .error
  | _ => .handshaking

def mechanism : Mechanism PlainServer where
  nextHandshakeCommand m _ := m.nextHandshakeCommand
  processHandshakeCommand := processHandshakeCommand
  zapMsgAvailable := zapMsgAvailable
  status := status

end PlainServer

end Zmq
