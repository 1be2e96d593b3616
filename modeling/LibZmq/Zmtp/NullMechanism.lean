import LibZmq.Zmtp.Zap

/-! `null_mechanism_t`. -/

namespace Zmq

structure NullMechanism extends ZapMechanism where
  readyCommandSent : Bool
  errorCommandSent : Bool
  readyCommandReceived : Bool
  errorCommandReceived : Bool
  zapConnected : Bool
  zapRequestSent : Bool
  zapReplyReceived : Bool

namespace NullMechanism

def create (o : MechanismOptions) (session : ZapSession) (peerAddress : List UInt8) : Except Crash NullMechanism := do
  -- no ZAP request is made for a socket without a domain
  let (zapConnected, session) ←
    if o.zapDomain.length > 0 then do
      let (rc, session) ← session.zapConnect
      pure (rc == Ret.ok, session)
    else pure (false, session)
  return ⟨.new o session peerAddress, false, false, false, false, zapConnected, false, false⟩

def sendZapRequest (m : NullMechanism) : Except Crash NullMechanism := do
  return { m with toZapMechanism := ← m.toZapMechanism.sendZapRequest (ascii ['N', 'U', 'L', 'L']) [] }

def receiveAndProcessZapReply (m : NullMechanism) : Except Crash (Ret × NullMechanism) := do
  let (rc, z) ← m.toZapMechanism.receiveAndProcessZapReply .eproto
  return (rc, { m with toZapMechanism := z })

variable (m : NullMechanism)

/-- The command that follows what the handler said, if it was asked. -/
def produce : Except Crash (Except MechErrno Msg × NullMechanism) :=
  if m.zapReplyReceived ∧ m.statusCode ≠ ZapMechanism.success then
    .ok (.ok (errorCommand 3 m.statusCode), { m with errorCommandSent := true })
  else do
    let command ← addSocketProperties m.base.options 512 readyName
    return (.ok (.ofData command), { m with readyCommandSent := true })

def nextHandshakeCommand : Except Crash (Except MechErrno Msg × NullMechanism) :=
  if m.readyCommandSent || m.errorCommandSent then .ok (.error .eagain, m)
  else if m.zapConnected && !m.zapReplyReceived then
    if m.zapRequestSent then .ok (.error .eagain, m)
    else do
      let m ← m.sendZapRequest
      let (rc, m) ← receiveAndProcessZapReply { m with zapRequestSent := true }
      match rc with
      | .error e => return (.error e, m)
      | .ok => produce { m with zapReplyReceived := true }
  else m.produce

def processReadyCommand (data : List UInt8) : Except Crash (Ret × NullMechanism) := do
  let (rc, base) ← Metadata.parseMetadata Metadata.property m.base (data.drop 6) false
  return (rc, { m with readyCommandReceived := true, base := base })

def processErrorCommand (data : List UInt8) : Ret × NullMechanism :=
  match errorReason data with
  | .error e => (.error e, m)
  | .ok _ => (.ok, { m with errorCommandReceived := true })

def processHandshakeCommand (msg : Msg) : Except Crash (Ret × NullMechanism) :=
  if m.readyCommandReceived || m.errorCommandReceived then .ok (.error .eproto, m)
  else if msg.data.take 6 = readyName then m.processReadyCommand msg.data
  else if msg.data.take 6 = errorName then .ok (m.processErrorCommand msg.data)
  else .ok (.error .eproto, m)

def zapMsgAvailable : Except Crash (Ret × NullMechanism) :=
  if m.zapReplyReceived then .ok (.error .efsm, m)
  else do
    let (rc, m) ← m.receiveAndProcessZapReply
    return (rc, if rc = .ok then { m with zapReplyReceived := true } else m)

def status : MechanismStatus :=
  if m.readyCommandSent && m.readyCommandReceived then .ready
  else if (m.readyCommandSent || m.errorCommandSent) && (m.readyCommandReceived || m.errorCommandReceived) then .error
  else .handshaking

def mechanism : Mechanism NullMechanism where
  nextHandshakeCommand m _ := m.nextHandshakeCommand
  processHandshakeCommand := processHandshakeCommand
  zapMsgAvailable := zapMsgAvailable
  status := status

variable {m m' : NullMechanism} {rc : Ret}

structure SameFlags (m m' : NullMechanism) : Prop where
  zapConnected : m'.zapConnected = m.zapConnected
  readyCommandSent : m'.readyCommandSent = m.readyCommandSent
  zapReplyReceived : m'.zapReplyReceived = m.zapReplyReceived
  readyCommandReceived : m'.readyCommandReceived = m.readyCommandReceived
  errorCommandReceived : m'.errorCommandReceived = m.errorCommandReceived

theorem receive_spec (h : m.receiveAndProcessZapReply = .ok (rc, m')) : ∃ used, m.SameFlags m' ∧
    m.session.incoming = used ++ m'.session.incoming ∧ (rc = .ok → ZapReply used m'.statusCode) := by
  obtain ⟨⟨rc1, z⟩, hz, hret⟩ := bind_ok h
  cases hret
  obtain ⟨used, hreads, -, -, hreply⟩ := ZapMechanism.receive_spec hz
  exact ⟨used, ⟨rfl, rfl, rfl, rfl, rfl⟩, hreads.incoming, hreply⟩

theorem sendZapRequest_spec (h : m.sendZapRequest = .ok m') : m.SameFlags m' ∧ m'.session.incoming = m.session.incoming := by
  obtain ⟨z, hz, hret⟩ := bind_ok h
  cases hret
  exact ⟨⟨rfl, rfl, rfl, rfl, rfl⟩, (ZapMechanism.sendZapRequest_spec hz).2.1⟩

end NullMechanism

end Zmq
