import LibZmq.Zmtp.CurveClient
import LibZmq.Zmtp.CurveServer
import LibZmq.Zmtp.NullMechanism
import LibZmq.Zmtp.PlainMechanism

/-! The ERROR commands that servers produce after a ZAP handler has refused a client, and what clients make of them. -/

namespace Zmq

/-- A server that is to send an ERROR command, and a client of the same mechanism. -/
inductive Refusal where
  | null (server client : NullMechanism)
  | plain (server : PlainServer) (client : PlainClient)
  | curve (crypto : Crypto) (server : CurveServer) (client : CurveClient)

namespace Refusal

/-- The status code is one that a reply has been accepted with, and the server has not answered it yet; the client
waits for a command. -/
def Due : Refusal → Prop
  | .null server client => server.zapReplyReceived = true ∧ server.statusCode.length = 3 ∧
      server.statusCode ≠ ZapMechanism.success ∧ server.readyCommandSent = false ∧ server.errorCommandSent = false ∧
      client.readyCommandReceived = false ∧ client.errorCommandReceived = false
  | .plain server client => server.state = .sendingError ∧ server.statusCode.length = 3 ∧
      (client.state = .waitingForWelcome ∨ client.state = .waitingForReady)
  | .curve _ server client => server.state = .sendError ∧ server.statusCode.length = 3 ∧
      (client.state = .expectWelcome ∨ client.state = .expectReady)

def statusCode : Refusal → List UInt8
  | .null server _ => server.statusCode
  | .plain server _ => server.statusCode
  | .curve _ server _ => server.statusCode

/-- The command that the server produces next. -/
def Produces : Refusal → Msg → Prop
  | .null server _, msg => ∃ server', server.nextHandshakeCommand = .ok (.ok msg, server')
  | .plain server _, msg => ∃ server', server.nextHandshakeCommand = .ok (.ok msg, server')
  | .curve crypto server _, msg => ∀ random, ∃ server', server.nextHandshakeCommand crypto random = .ok (.ok msg, server')

/-- The client accepts the command, and reports an error. A NULL client reports it as soon as its own command is sent. -/
def Accepts : Refusal → Msg → Prop
  | .null _ client, msg => ∃ client', client.processHandshakeCommand msg = .ok (.ok, client') ∧
      ((client.readyCommandSent || client.errorCommandSent) = true → client'.status = .error) ∧
      ∀ own client'', client'.nextHandshakeCommand = .ok (.ok own, client'') → client''.status = .error
  | .plain _ client, msg => ∃ client', client.processHandshakeCommand msg = .ok (.ok, client') ∧ client'.status = .error
  | .curve crypto _ client, msg =>
    ∃ client', client.processHandshakeCommand crypto msg = .ok (.ok, client') ∧ client'.status = .error

/-- The ERROR command is accepted, and its reason is the status code. -/
def Understood (r : Refusal) : Prop :=
  ∃ msg, r.Produces msg ∧ r.Accepts msg ∧ errorReason msg.data = .ok r.statusCode

def isCurve : Refusal → Bool
  | .curve .. => true
  | _ => false

variable {code : List UInt8}

theorem errorCommand_data (length : UInt8) (code : List UInt8) : (errorCommand length code).data = errorName ++ length :: code :=
  rfl

theorem reason_errorCommand (h : code.length = 3) : errorReason (errorCommand 3 code).data = .ok code := by
  have hlen : (errorName ++ 3 :: code).length = 10 := by simp [errorName, ascii, h]
  have hget : (errorName ++ 3 :: code).getD 6 0 = 3 := rfl
  have hdrop : (errorName ++ 3 :: code).drop 7 = code := rfl
  unfold errorReason
  rw [errorCommand_data, hlen, ]
  exact congrArg Except.ok (List.take_of_length_le (Nat.le_of_eq h))

theorem reason_too_long {length : UInt8} (h : code.length = 3) (hl : 3 < length.toNat) :
    errorReason (errorCommand length code).data = .error .eproto := by
  have hlen : (errorName ++ length :: code).length = 10 := by simp [errorName, ascii, h]
  have hget : (errorName ++ length :: code).getD 6 0 = length := rfl
  unfold errorReason
  rw [errorCommand_data, hlen, hget, if_neg (by decide), if_pos (by omega)]

theorem take_errorCommand (length : UInt8) (code : List UInt8) : (errorCommand length code).data.take 6 = errorName := rfl

theorem errorCommand_not_ready (length : UInt8) (code : List UInt8) : (errorCommand length code).data.take 6 ≠ readyName := by
  rw [take_errorCommand]
  decide

theorem errorCommand_not_welcome (length : UInt8) (code : List UInt8) :
    (errorCommand length code).data.take 8 ≠ welcomeName := by
  intro h
  have := congrArg List.head? h
  simp [errorCommand, Msg.ofData, errorName, welcomeName] at this

theorem null_produce {m m' : NullMechanism} {x : Except MechErrno Msg} (h : m.produce = .ok (x, m')) :
    (m'.readyCommandSent || m'.errorCommandSent) = true ∧ m'.readyCommandReceived = m.readyCommandReceived ∧
      m'.errorCommandReceived = m.errorCommandReceived := by
  unfold NullMechanism.produce at h
  split_ifs at h with hc
  · cases h
    exact ⟨Bool.or_true _, rfl, rfl⟩
  · obtain ⟨command, -, hret⟩ := bind_ok h
    cases hret
    exact ⟨rfl, rfl, rfl⟩

theorem null_next {m m' : NullMechanism} {msg : Msg} (h : m.nextHandshakeCommand = .ok (.ok msg, m')) :
    (m'.readyCommandSent || m'.errorCommandSent) = true ∧ m'.readyCommandReceived = m.readyCommandReceived ∧
      m'.errorCommandReceived = m.errorCommandReceived := by
  unfold NullMechanism.nextHandshakeCommand at h
  split_ifs at h with hsent hask hrequest
  · exact nomatch (ok_pair h).1
  · exact nomatch (ok_pair h).1
  · obtain ⟨m1, h1, h⟩ := bind_ok h
    obtain ⟨hsame1, -⟩ := NullMechanism.sendZapRequest_spec h1
    obtain ⟨⟨rc, m2⟩, h2, h⟩ := bind_ok h
    obtain ⟨-, hsame2, -⟩ := NullMechanism.receive_spec h2
    cases rc with
    | error e => exact nomatch (ok_pair h).1
    | ok =>
      obtain ⟨hsent, hr, he⟩ := null_produce h
      exact ⟨hsent, hr.trans (hsame2.readyCommandReceived.trans hsame1.readyCommandReceived),
        he.trans (hsame2.errorCommandReceived.trans hsame1.errorCommandReceived)⟩
  · exact null_produce h

theorem null_understood {server client : NullMechanism} (h : (null server client).Due) : (null server client).Understood := by
  obtain ⟨hreply, hlen, hcode, hs1, hs2, hc1, hc2⟩ := h
  have hproduce : server.nextHandshakeCommand =
      .ok (.ok (errorCommand 3 server.statusCode), { server with errorCommandSent := true }) := by
    unfold NullMechanism.nextHandshakeCommand NullMechanism.produce
    simp [hs1, hs2, hreply, hcode]
  have hreason := reason_errorCommand hlen
  have haccept : client.processHandshakeCommand (errorCommand 3 server.statusCode) =
      .ok (.ok, { client with errorCommandReceived := true }) := by
    unfold NullMechanism.processHandshakeCommand NullMechanism.processErrorCommand
    rw [hc1, hc2, if_neg (by decide), if_neg (errorCommand_not_ready _ _), if_pos (take_errorCommand _ _), hreason]
  have hstatus : ∀ m : NullMechanism, (m.readyCommandSent || m.errorCommandSent) = true →
      m.readyCommandReceived = false → m.errorCommandReceived = true → m.status = .error := fun m hown h1 h2 => by
    unfold NullMechanism.status
    rw [h1, h2, Bool.and_false, if_neg Bool.false_ne_true, Bool.or_true, Bool.and_true, if_pos hown]
  refine ⟨_, ⟨_, hproduce⟩, ⟨_, haccept, fun hown => hstatus _ hown hc1 rfl, fun own client'' hnext => ?_⟩, hreason⟩
  obtain ⟨hown, h1, h2⟩ := null_next hnext
  exact hstatus _ hown (h1.trans hc1) h2

theorem plain_understood {server : PlainServer} {client : PlainClient} (h : (plain server client).Due) :
    (plain server client).Understood := by
  obtain ⟨hs, hlen, hc⟩ := h
  have hproduce : server.nextHandshakeCommand =
      .ok (.ok (errorCommand 3 server.statusCode), { server with state := .errorCommandSent }) := by
    unfold PlainServer.nextHandshakeCommand PlainServer.produceError
    rw [hs, hlen]
    rfl
  have hreason := reason_errorCommand hlen
  have haccept : client.processHandshakeCommand (errorCommand 3 server.statusCode) =
      .ok (.ok, { client with state := .errorCommandReceived }) := by
    unfold PlainClient.processHandshakeCommand PlainClient.processError
    rw [if_neg (errorCommand_not_welcome _ _), if_neg (errorCommand_not_ready _ _), if_pos (take_errorCommand _ _),
      if_neg (fun hn => hc.elim hn.1 hn.2), hreason]
  exact ⟨_, ⟨_, hproduce⟩, ⟨_, haccept, rfl⟩, hreason⟩

theorem curve_not_understood {crypto : Crypto} {server : CurveServer} {client : CurveClient}
    (h : (curve crypto server client).Due) : ¬ (curve crypto server client).Understood := by
  obtain ⟨hs, hlen, hc⟩ := h
  rintro ⟨msg, hproduces, -, hreason⟩
  obtain ⟨server', hproduce⟩ := hproduces fun _ => 0
  unfold CurveServer.nextHandshakeCommand CurveServer.produceError at hproduce
  rw [hs, Block.assert_ok hlen] at hproduce
  obtain ⟨hmsg, -⟩ := ok_pair hproduce
  cases hmsg
  rw [reason_too_long hlen (by decide)] at hreason
  exact nomatch hreason

/-- The clients of NULL and PLAIN understand the ERROR commands of their servers, and those of CURVE never do. -/
theorem understood_iff (r : Refusal) (h : r.Due) : r.Understood ↔ r.isCurve = false := by
  cases r with
  | null server client => exact iff_of_true (null_understood h) rfl
  | plain server client => exact iff_of_true (plain_understood h) rfl
  | curve crypto server client => exact iff_of_false (curve_not_understood h) Bool.noConfusion

/-- A PLAIN server whose handler has answered 400. -/
theorem understood_iff_plain :
    (plain ⟨{ ZapMechanism.new (.new 6) (.new true) [] with statusCode := [52, 48, 48] }, .sendingError⟩
      ⟨.new (.new 5), .waitingForWelcome⟩).Understood ↔ false = false :=
  understood_iff _ ⟨rfl, rfl, Or.inl rfl⟩

/-- A CURVE server whose handler has answered 400: the reason is said to be of 32 bytes. -/
theorem curve_400_not_understood :
    ¬ (curve .clear { CurveServer.new (.new 6) (.new true) [] [] [] [] with state := .sendError, statusCode := [52, 48, 48] }
      { CurveClient.new (.new 5) [] [] [] [] [] with state := .expectReady }).Understood :=
  curve_not_understood ⟨rfl, rfl, Or.inr rfl⟩

end Refusal

end Zmq
