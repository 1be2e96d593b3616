import LibZmq.Zmtp.CurveServer
import LibZmq.Zmtp.NullMechanism
import LibZmq.Zmtp.PlainMechanism

/-! No mechanism that asks a ZAP handler becomes ready before the handler has granted it. A gate is a condition that
no step brings about but the processing of a reply that grants. -/

namespace Zmq

/-- What happens to a mechanism during the handshake. -/
inductive HandshakeOp where
  /-- the handler sends frames -/
  | frames (ms : List Msg)
  | nextHandshakeCommand (random : ℕ → UInt8)
  | processHandshakeCommand (msg : Msg)
  | zapMsgAvailable

/-- A mechanism with a session. -/
structure ZapClient (μ : Type) extends Mechanism μ where
  session : μ → ZapSession
  deliver : μ → List Msg → μ

namespace ZapClient

/-- A mechanism, and all the frames that the handler has sent. -/
structure Asked (μ : Type) where
  mechanism : μ
  sent : List Msg

variable {μ : Type} (c : ZapClient μ)

def run (s : Asked μ) : HandshakeOp → Except Crash (Asked μ)
  | .frames ms => .ok ⟨c.deliver s.mechanism ms, s.sent ++ ms⟩
  | .nextHandshakeCommand random =>
    (c.nextHandshakeCommand s.mechanism random).map fun x => { s with mechanism := x.2 }
  | .processHandshakeCommand msg => (c.processHandshakeCommand s.mechanism msg).map fun x => { s with mechanism := x.2 }
  | .zapMsgAvailable => (c.zapMsgAvailable s.mechanism).map fun x => { s with mechanism := x.2 }

abbrev Step : Asked μ → HandshakeOp → Asked μ → Prop := Does (fun _ _ => True) c.run

def Begins (start : μ → Prop) (s : Asked μ) : Prop := start s.mechanism ∧ s.sent = (c.session s.mechanism).incoming

/-- One of the operations has read, from the frames that had not been read, a reply with status code 200. -/
def Granted (start : μ → Prop) (ops : List HandshakeOp) (s : Asked μ) : Prop :=
  ∃ before op after s1 s2 reply, ops = before ++ [op] ++ after ∧ Run (c.Begins start) c.Step before s1 ∧ c.Step s1 op s2 ∧
    Run (fun x => x = s2) c.Step after s ∧ (c.session s1.mechanism).incoming = reply ++ (c.session s2.mechanism).incoming ∧
    ZapReply reply ZapMechanism.success ∧
    ∃ earlier later, s.sent = earlier ++ reply ++ later ∧ (c.session s.mechanism).incoming <:+ later

/-- In every state that can be reached, a mechanism that is ready has been granted it. -/
def Authorised (start : μ → Prop) : Prop :=
  ∀ ops s, Run (c.Begins start) c.Step ops s → c.status s.mechanism = .ready → c.Granted start ops s

def Passes (I cleared : μ → Prop) (m m' : μ) : Prop :=
  I m' ∧ ∃ used, (c.session m).incoming = used ++ (c.session m').incoming ∧
    (cleared m' → cleared m ∨ ZapReply used ZapMechanism.success)

structure Gate (I cleared : μ → Prop) : Prop where
  ready : ∀ {m}, I m → c.status m = .ready → cleared m
  deliver : ∀ {m} ms, I m → I (c.deliver m ms) ∧ (cleared (c.deliver m ms) → cleared m) ∧
    (c.session (c.deliver m ms)).incoming = (c.session m).incoming ++ ms
  next : ∀ {m random x m'}, I m → c.nextHandshakeCommand m random = .ok (x, m') → c.Passes I cleared m m'
  process : ∀ {m msg rc m'}, I m → c.processHandshakeCommand m msg = .ok (rc, m') → c.Passes I cleared m m'
  available : ∀ {m rc m'}, I m → c.zapMsgAvailable m = .ok (rc, m') → c.Passes I cleared m m'

variable {c} {I cleared start : μ → Prop} {s s' : Asked μ} {op : HandshakeOp} {ops : List HandshakeOp}

theorem Passes.same {m m' : μ} (h1 : I m') (h2 : (c.session m').incoming = (c.session m).incoming)
    (h3 : cleared m' → cleared m) : c.Passes I cleared m m' := ⟨h1, [], h2.symm, fun hc => .inl (h3 hc)⟩

theorem Granted.next (h : c.Granted start ops s) (hs : c.Step s op s') (tail : List Msg) (hsent : s'.sent = s.sent ++ tail)
    (hin : (c.session s'.mechanism).incoming <:+ (c.session s.mechanism).incoming ++ tail) : c.Granted start (ops ++ [op]) s' := by
  obtain ⟨before, op1, after, s1, s2, reply, rfl, hbefore, hop, hafter, hread, hr, earlier, later, hl, ha⟩ := h
  refine ⟨before, op1, after ++ [op], s1, s2, reply, List.append_assoc .., hbefore, hop, hafter.snoc hs, hread, hr,
    earlier, later ++ tail, by rw [hsent, hl, List.append_assoc], hin.trans ?_⟩
  obtain ⟨t, rfl⟩ := ha
  exact ⟨t, (List.append_assoc t _ tail).symm⟩

structure Kept (c : ZapClient μ) (I cleared start : μ → Prop) (ops : List HandshakeOp) (s : Asked μ) : Prop where
  run : Run (c.Begins start) c.Step ops s
  holds : I s.mechanism
  unread : (c.session s.mechanism).incoming <:+ s.sent
  granted : cleared s.mechanism → c.Granted start ops s

theorem Kept.passes {m' : μ} (h : c.Kept I cleared start ops s) (hs : c.Step s op ⟨m', s.sent⟩)
    (hp : c.Passes I cleared s.mechanism m') : c.Kept I cleared start (ops ++ [op]) ⟨m', s.sent⟩ := by
  obtain ⟨hi, used, hused, hclear⟩ := hp
  obtain ⟨earlier, hsent⟩ := h.unread
  have hsuf : (c.session m').incoming <:+ (c.session s.mechanism).incoming := ⟨used, hused.symm⟩
  refine ⟨h.run.snoc hs, hi, hsuf.trans h.unread, fun hc => ?_⟩
  rcases hclear hc with hold | hreply
  · exact (h.granted hold).next hs [] (List.append_nil _).symm (by rw [List.append_nil]; exact hsuf)
  · refine ⟨ops, op, [], s, _, used, (List.append_nil _).symm, h.run, hs, .nil rfl, hused, hreply,
      earlier, (c.session m').incoming, ?_, List.suffix_rfl⟩
    rw [List.append_assoc, ← hused]
    exact hsent.symm

theorem Gate.step (hg : c.Gate I cleared) (h : c.Kept I cleared start ops s) (hs : c.Step s op s') :
    c.Kept I cleared start (ops ++ [op]) s' := by
  have hcall : ∀ {β : Type} {r : Except Crash (β × μ)},
      (r.map fun x => { s with mechanism := x.2 }) = Except.ok s' →
      (∀ x m', r = .ok (x, m') → c.Passes I cleared s.mechanism m') → c.Kept I cleared start (ops ++ [op]) s' :=
    fun {β r} hr hp => by
      cases r with
      | error e => exact absurd hr (nofun)
      | ok x =>
        cases hr
        exact h.passes hs (hp x.1 x.2 rfl)
  cases op with
  | frames ms =>
    cases hs.2
    obtain ⟨hi, hclear, hin⟩ := hg.deliver ms h.holds
    have hsuf : (c.session (c.deliver s.mechanism ms)).incoming <:+ s.sent ++ ms := by
      obtain ⟨t, ht⟩ := h.unread
      exact ⟨t, by rw [hin, ← List.append_assoc, ht]⟩
    exact ⟨h.run.snoc hs, hi, hsuf, fun hc => (h.granted (hclear hc)).next hs ms rfl ⟨[], by rw [hin, List.nil_append]⟩⟩
  | nextHandshakeCommand random => exact hcall hs.2 fun _ _ hr => hg.next h.holds hr
  | processHandshakeCommand msg => exact hcall hs.2 fun _ _ hr => hg.process h.holds hr
  | zapMsgAvailable => exact hcall hs.2 fun _ _ hr => hg.available h.holds hr

theorem Gate.authorised (hg : c.Gate I cleared) (hstart : ∀ m, start m → I m ∧ ¬ cleared m) : c.Authorised start := by
  intro ops s hrun hready
  have hkept : c.Kept I cleared start ops s := by
    refine hrun.history (c.Kept I cleared start) (fun s hs => ?_) fun _ _ _ _ h hs => hg.step h hs
    obtain ⟨hi, hn⟩ := hstart _ hs.1
    exact ⟨.nil hs, hi, hs.2 ▸ List.suffix_rfl, fun hc => absurd hc hn⟩
  exact hkept.granted (hg.ready hkept.holds hready)

end ZapClient

namespace ZapMechanism

def deliver (z : ZapMechanism) (ms : List Msg) : ZapMechanism :=
  { z with session := { z.session with incoming := z.session.incoming ++ ms } }

end ZapMechanism

namespace NullMechanism

def client : ZapClient NullMechanism where
  toMechanism := mechanism
  session m := m.session
  deliver m ms := { m with toZapMechanism := m.toZapMechanism.deliver ms }

def Cleared (m : NullMechanism) : Prop := m.zapReplyReceived = true ∧ m.statusCode = ZapMechanism.success

def Asks (m : NullMechanism) : Prop := m.zapConnected = true ∧ (m.readyCommandSent = true → m.Cleared)

/-- A mechanism of a socket with a domain, and with a handler to connect to. -/
def Start (m : NullMechanism) : Prop :=
  ∃ o handler peerAddress, o.zapDomain ≠ [] ∧ handler = true ∧ create o (.new handler) peerAddress = .ok m

variable {m m' : NullMechanism} {rc : Ret} {x : Except MechErrno Msg}

theorem start_spec (h : Start m) : m.Asks ∧ ¬ m.Cleared := by
  obtain ⟨o, handler, peerAddress, hdomain, rfl, hcreate⟩ := h
  unfold create at hcreate
  rw [if_pos (List.length_pos_of_ne_nil hdomain)] at hcreate
  cases hcreate
  exact ⟨⟨rfl, fun hc => Bool.noConfusion hc⟩, fun hc => Bool.noConfusion hc.1⟩

theorem produce_spec (h : m.produce = .ok (x, m')) :
    m'.toZapMechanism = m.toZapMechanism ∧ m'.zapConnected = m.zapConnected ∧ m'.zapReplyReceived = m.zapReplyReceived ∧
      (m'.readyCommandSent = true → m.readyCommandSent = true ∨
        (m.zapReplyReceived = true → m.statusCode = ZapMechanism.success)) := by
  unfold produce at h
  split_ifs at h with hc
  · cases h
    exact ⟨rfl, rfl, rfl, .inl⟩
  · obtain ⟨command, -, hret⟩ := bind_ok h
    cases hret
    exact ⟨rfl, rfl, rfl, fun _ => .inr fun hr => not_not.mp fun hs => hc ⟨hr, hs⟩⟩

theorem produce_cleared (hsent : m.readyCommandSent = false) (hr : m.zapReplyReceived = true)
    (h : m.produce = .ok (x, m')) : (m'.Cleared ↔ m.Cleared) ∧ (m'.readyCommandSent = true → m.Cleared) := by
  obtain ⟨hz, -, hreceived, hready⟩ := produce_spec h
  refine ⟨?_, fun hc => ⟨hr, (hready hc).elim (fun hc => nomatch hsent.symm.trans hc) fun hs => hs hr⟩⟩
  unfold Cleared
  rw [hreceived, hz]

theorem next_passes (hi : m.Asks) (h : m.nextHandshakeCommand = .ok (x, m')) : client.Passes Asks Cleared m m' := by
  unfold nextHandshakeCommand at h
  split_ifs at h with hsent hask hrequest
  · cases h
    exact .same hi rfl fun hc => hc
  · cases h
    exact .same hi rfl fun hc => hc
  · simp only [Bool.or_eq_true, not_or, Bool.not_eq_true] at hsent
    simp only [Bool.and_eq_true, Bool.not_eq_true'] at hask
    obtain ⟨m1, h1, h⟩ := bind_ok h
    obtain ⟨hsame1, hin⟩ := sendZapRequest_spec h1
    obtain ⟨⟨rc, m2⟩, h2, h⟩ := bind_ok h
    obtain ⟨used, hsame2, hused, hreply⟩ := receive_spec h2
    have hread : m.session.incoming = used ++ m2.session.incoming := hin.symm.trans hused
    have hconnected : m2.zapConnected = true := hsame2.zapConnected.trans (hsame1.zapConnected.trans hi.1)
    have hready : m2.readyCommandSent = false :=
      hsame2.readyCommandSent.trans (hsame1.readyCommandSent.trans hsent.1)
    cases rc with
    | error e =>
      obtain ⟨-, rfl⟩ := ok_pair h
      have hreceived : m2.zapReplyReceived = false :=
        hsame2.zapReplyReceived.trans (hsame1.zapReplyReceived.trans hask.2)
      exact ⟨⟨hconnected, fun hc => nomatch hready.symm.trans hc⟩, used, hread, fun hc => nomatch hreceived.symm.trans hc.1⟩
    | ok =>
      obtain ⟨hz, hconn, hrec, -⟩ := produce_spec h
      obtain ⟨hcleared, hpass⟩ := produce_cleared (m := { m2 with zapReplyReceived := true }) hready rfl h
      refine ⟨⟨hconn.trans hconnected, fun hc => hcleared.mpr (hpass hc)⟩, used, ?_, fun hc => .inr ?_⟩
      · exact hread.trans (congrArg (fun z : ZapMechanism => used ++ z.session.incoming) hz.symm)
      · have hcode : m2.statusCode = ZapMechanism.success := (hcleared.mp hc).2
        exact hcode ▸ hreply rfl
  · simp only [Bool.or_eq_true, not_or, Bool.not_eq_true] at hsent
    have hr : m.zapReplyReceived = true := by
      rw [hi.1, Bool.true_and, Bool.not_eq_true', Bool.not_eq_false] at hask
      exact hask
    obtain ⟨hz, hconn, -, -⟩ := produce_spec h
    obtain ⟨hcleared, hpass⟩ := produce_cleared hsent.1 hr h
    exact .same ⟨hconn.trans hi.1, fun hc => hcleared.mpr (hpass hc)⟩
      (congrArg (fun z : ZapMechanism => z.session.incoming) hz) hcleared.mp

theorem process_passes {msg : Msg} (hi : m.Asks) (h : m.processHandshakeCommand msg = .ok (rc, m')) :
    client.Passes Asks Cleared m m' := by
  unfold processHandshakeCommand at h
  split_ifs at h with hdone hready herror
  · cases h
    exact .same hi rfl fun hc => hc
  · obtain ⟨⟨rc1, base⟩, -, hret⟩ := bind_ok h
    cases hret
    exact .same hi rfl fun hc => hc
  · unfold processErrorCommand at h
    cases hr : errorReason msg.data <;> rw [hr] at h <;> cases h <;>
      exact .same hi rfl fun hc => hc
  · cases h
    exact .same hi rfl fun hc => hc

theorem available_passes (hi : m.Asks) (h : m.zapMsgAvailable = .ok (rc, m')) : client.Passes Asks Cleared m m' := by
  unfold zapMsgAvailable at h
  split_ifs at h with hr
  · cases h
    exact .same hi rfl fun hc => hc
  · rw [Bool.not_eq_true] at hr
    have hsent : m.readyCommandSent = false := by
      rw [← Bool.not_eq_true]
      exact fun hc => nomatch hr.symm.trans (hi.2 hc).1
    obtain ⟨⟨rc1, m1⟩, h1, hret⟩ := bind_ok h
    obtain ⟨used, hsame, hused, hreply⟩ := receive_spec h1
    obtain ⟨rfl, rfl⟩ := ok_pair hret
    have hready : m1.readyCommandSent = false := hsame.readyCommandSent.trans hsent
    by_cases hrc : rc1 = .ok
    · simp only [if_pos hrc]
      exact ⟨⟨hsame.zapConnected.trans hi.1, fun hc => nomatch hready.symm.trans hc⟩, used, hused,
        fun hc => .inr (hc.2 ▸ hreply hrc)⟩
    · simp only [if_neg hrc]
      exact ⟨⟨hsame.zapConnected.trans hi.1, fun hc => nomatch hready.symm.trans hc⟩, used, hused,
        fun hc => nomatch hr.symm.trans (hsame.zapReplyReceived.symm.trans hc.1)⟩

theorem gate : client.Gate Asks Cleared where
  ready {m} hi hs := by
    unfold client mechanism status at hs
    simp only at hs
    split_ifs at hs with hready
    exact hi.2 (Bool.and_eq_true_iff.mp hready).1
  deliver _ hi := ⟨hi, fun hc => hc, rfl⟩
  next := next_passes
  process := process_passes
  available := available_passes

end NullMechanism

namespace PlainServer

def client : ZapClient PlainServer where
  toMechanism := mechanism
  session m := m.session
  deliver m ms := { m with toZapMechanism := m.toZapMechanism.deliver ms }

def Cleared (m : PlainServer) : Prop :=
  m.state = .sendingWelcome ∨ m.state = .waitingForInitiate ∨ m.state = .sendingReady ∨ m.state = .ready

def Asks (m : PlainServer) : Prop := m.session.handler = true

def Start (m : PlainServer) : Prop := ∃ o handler peerAddress, handler = true ∧ m = new o (.new handler) peerAddress

variable {m m' : PlainServer} {rc : Ret}

theorem start_spec (h : Start m) : m.Asks ∧ ¬ m.Cleared := by
  obtain ⟨o, handler, peerAddress, rfl, rfl⟩ := h
  refine ⟨rfl, ?_⟩
  rintro (hc | hc | hc | hc) <;> cases hc

theorem receive_spec (h : m.receiveAndProcessZapReply = .ok (rc, m')) : ∃ used, m'.state = m.state ∧
    m'.session.handler = m.session.handler ∧ m.session.incoming = used ++ m'.session.incoming ∧
      (rc = .ok → ZapReply used m'.statusCode) := by
  obtain ⟨⟨rc1, z⟩, hz, hret⟩ := bind_ok h
  cases hret
  obtain ⟨used, hreads, -, -, hreply⟩ := ZapMechanism.receive_spec hz
  exact ⟨used, rfl, hreads.handler, hreads.incoming, hreply⟩

theorem sendZapRequest_spec {username password : List UInt8} (h : m.sendZapRequest username password = .ok m') :
    m'.state = m.state ∧ m'.session.handler = m.session.handler ∧ m'.session.incoming = m.session.incoming := by
  obtain ⟨z, hz, hret⟩ := bind_ok h
  cases hret
  obtain ⟨h1, h2, -⟩ := ZapMechanism.sendZapRequest_spec hz
  exact ⟨rfl, h1, h2⟩

theorem decided_cleared : m.decided.Cleared ↔ m.statusCode = ZapMechanism.success := by
  unfold decided Cleared
  split_ifs with h <;> simp [h]

theorem decided_passes {used : List Msg} (hi : m'.Asks) (hin : m.session.incoming = used ++ m'.session.incoming)
    (hreply : ZapReply used m'.statusCode) : client.Passes Asks Cleared m m'.decided :=
  ⟨hi, used, hin, fun hc => .inr (decided_cleared.mp hc ▸ hreply)⟩

theorem hello_passes {data : List UInt8} (hi : m.Asks) (h : m.processHello data = .ok (rc, m')) :
    client.Passes Asks Cleared m m' := by
  unfold processHello at h
  cases hcred : credentials data with
  | error e =>
    rw [hcred] at h
    cases h
    exact .same hi rfl fun hc => hc
  | ok x =>
    obtain ⟨username, password⟩ := x
    rw [hcred] at h
    obtain ⟨⟨rc1, session⟩, hconn, h⟩ := bind_ok h
    obtain ⟨hh, hin, hok, -⟩ := ZapSession.zapConnect_spec hconn
    simp only [if_pos (hok.mpr hi)] at h
    obtain ⟨m2, h2, h⟩ := bind_ok h
    obtain ⟨hs2, hh2, hin2⟩ := sendZapRequest_spec h2
    obtain ⟨⟨rc3, m3⟩, h3, h⟩ := bind_ok h
    obtain ⟨used, hs3, hh3, hused, hreply⟩ := receive_spec h3
    have hasks : m3.Asks := hh3.trans (hh2.trans (hh.trans hi))
    have hread : m.session.incoming = used ++ m3.session.incoming := hin.symm.trans (hin2.symm.trans hused)
    have hstate : m3.state = m.state := hs3.trans hs2
    cases rc3 with
    | ok =>
      cases h
      exact decided_passes hasks hread (hreply rfl)
    | error e =>
      have hwait : client.Passes Asks Cleared m { m3 with state := .waitingForZapReply } :=
        ⟨hasks, used, hread, fun hc => by rcases hc with hc | hc | hc | hc <;> cases hc⟩
      have hkeep : client.Passes Asks Cleared m m3 :=
        ⟨hasks, used, hread, fun hc => .inl (by unfold Cleared at hc ⊢; rwa [hstate] at hc)⟩
      cases e <;> cases h <;> first | exact hwait | exact hkeep

theorem process_passes {msg : Msg} (hi : m.Asks) (h : m.processHandshakeCommand msg = .ok (rc, m')) :
    client.Passes Asks Cleared m m' := by
  unfold processHandshakeCommand at h
  cases hs : m.state
  case waitingForHello =>
    rw [hs] at h
    exact hello_passes hi h
  case waitingForInitiate =>
    rw [hs] at h
    simp only [processInitiate] at h
    have hclear : m.Cleared := .inr (.inl hs)
    split_ifs at h with hname
    · cases h
      exact .same hi rfl fun hc => hc
    · obtain ⟨⟨rc1, base⟩, -, hret⟩ := bind_ok h
      cases hret
      exact .same hi rfl fun _ => hclear
  all_goals
    rw [hs] at h
    cases h
    exact .same hi rfl fun hc => hc

theorem next_passes {x : Except MechErrno Msg} (hi : m.Asks) (h : m.nextHandshakeCommand = .ok (x, m')) :
    client.Passes Asks Cleared m m' := by
  unfold nextHandshakeCommand at h
  cases hs : m.state
  case sendingWelcome =>
    rw [hs] at h
    cases h
    exact .same hi rfl fun _ => .inl hs
  case sendingReady =>
    rw [hs] at h
    obtain ⟨msg, -, hret⟩ := bind_ok h
    cases hret
    exact .same hi rfl fun _ => .inr (.inr (.inl hs))
  case sendingError =>
    rw [hs] at h
    obtain ⟨msg, -, hret⟩ := bind_ok h
    cases hret
    exact .same hi rfl fun hc => by rcases hc with hc | hc | hc | hc <;> cases hc
  all_goals
    rw [hs] at h
    cases h
    exact .same hi rfl fun hc => hc

theorem available_passes (hi : m.Asks) (h : m.zapMsgAvailable = .ok (rc, m')) : client.Passes Asks Cleared m m' := by
  unfold zapMsgAvailable at h
  split_ifs at h with hs
  · cases h
    exact .same hi rfl fun hc => hc
  · obtain ⟨⟨rc1, m1⟩, h1, hret⟩ := bind_ok h
    obtain ⟨used, hstate, hh, hused, hreply⟩ := receive_spec h1
    obtain ⟨rfl, rfl⟩ := ok_pair hret
    have hasks : m1.Asks := hh.trans hi
    by_cases hrc : rc1 = .ok
    · simp only [if_pos hrc]
      exact decided_passes hasks hused (hreply hrc)
    · simp only [if_neg hrc]
      exact ⟨hasks, used, hused, fun hc => .inl (by unfold Cleared at hc ⊢; rwa [hstate] at hc)⟩

theorem gate : client.Gate Asks Cleared where
  ready {m} _ hs := by
    unfold client mechanism status at hs
    cases hstate : m.state
    case ready => exact .inr (.inr (.inr hstate))
    all_goals
      simp only [hstate] at hs
      exact absurd hs (nofun)
  deliver _ hi := ⟨hi, fun hc => hc, rfl⟩
  next := next_passes
  process := process_passes
  available := available_passes

end PlainServer

namespace CurveServer

variable {crypto : Crypto}

def client (crypto : Crypto) : ZapClient CurveServer where
  toMechanism := mechanism crypto
  session m := m.session
  deliver m ms := { m with toZapMechanism := m.toZapMechanism.deliver ms }

def Cleared (m : CurveServer) : Prop := m.state = .sendReady ∨ m.state = .connected

def Asks (m : CurveServer) : Prop := m.session.handler = true

def Start (m : CurveServer) : Prop :=
  ∃ o handler peerAddress, handler = true ∧ m.toZapMechanism = .new o (.new handler) peerAddress ∧ m.Fresh

variable {m m' : CurveServer} {rc : Ret} {data : List UInt8} {msg : Msg} {x : Except MechErrno Msg} {random : ℕ → UInt8}

theorem start_spec (h : Start m) : m.Asks ∧ ¬ m.Cleared := by
  obtain ⟨o, handler, peerAddress, rfl, hz, hfresh⟩ := h
  refine ⟨congrArg (fun z : ZapMechanism => z.session.handler) hz, ?_⟩
  rintro (hc | hc) <;> cases hfresh.state.symm.trans hc

theorem receive_spec (h : m.receiveAndProcessZapReply = .ok (rc, m')) : ∃ used, m'.state = m.state ∧
    m'.session.handler = m.session.handler ∧ m.session.incoming = used ++ m'.session.incoming ∧
      (rc = .ok → ZapReply used m'.statusCode) := by
  obtain ⟨⟨rc1, z⟩, hz, hret⟩ := bind_ok h
  cases hret
  obtain ⟨used, hreads, -, -, hreply⟩ := ZapMechanism.receive_spec hz
  exact ⟨used, rfl, hreads.handler, hreads.incoming, hreply⟩

theorem sendZapRequest_spec {key : List UInt8} (h : m.sendZapRequest key = .ok m') :
    m'.state = m.state ∧ m'.session.handler = m.session.handler ∧ m'.session.incoming = m.session.incoming := by
  obtain ⟨z, hz, hret⟩ := bind_ok h
  cases hret
  obtain ⟨h1, h2, -⟩ := ZapMechanism.sendZapRequest_spec hz
  exact ⟨rfl, h1, h2⟩

theorem decided_cleared : m.decided.Cleared ↔ m.statusCode = ZapMechanism.success := by
  unfold decided Cleared
  split_ifs with h <;> simp [h]

theorem decided_passes {used : List Msg} (hi : m'.Asks) (hin : m.session.incoming = used ++ m'.session.incoming)
    (hreply : ZapReply used m'.statusCode) : (client crypto).Passes Asks Cleared m m'.decided :=
  ⟨hi, used, hin, fun hc => .inr (decided_cleared.mp hc ▸ hreply)⟩

structure Same (m m' : CurveServer) : Prop where
  state : m'.state = m.state
  session : m'.session = m.session

theorem Same.passes (h : m.Same m') (hi : m.Asks) : (client crypto).Passes Asks Cleared m m' :=
  .same ((congrArg ZapSession.handler h.session).trans hi) (congrArg _ h.session) fun hc => by
    unfold Cleared at hc ⊢
    rwa [h.state] at hc

theorem ask_passes {clientKey : List UInt8} (hi : m.Asks) (h : m.ask clientKey = .ok (rc, m')) :
    (client crypto).Passes Asks Cleared m m' := by
  obtain ⟨m2, h2, h⟩ := bind_ok h
  obtain ⟨hs2, hh2, hin2⟩ := sendZapRequest_spec h2
  obtain ⟨⟨rc3, m3⟩, h3, h⟩ := bind_ok h
  obtain ⟨used, hs3, hh3, hused, hreply⟩ := receive_spec h3
  have hasks : m3.Asks := hh3.trans (hh2.trans hi)
  have hread : m.session.incoming = used ++ m3.session.incoming := hin2.symm.trans hused
  have hstate : m3.state = m.state := hs3.trans hs2
  have hwait : (client crypto).Passes Asks Cleared m { m3 with state := .expectZapReply } :=
    ⟨hasks, used, hread, fun hc => by rcases hc with hc | hc <;> cases hc⟩
  have hkeep : (client crypto).Passes Asks Cleared m m3 :=
    ⟨hasks, used, hread, fun hc => .inl (by unfold Cleared at hc ⊢; rwa [hstate] at hc)⟩
  cases rc3 with
  | ok =>
    cases h
    exact decided_passes hasks hread (hreply rfl)
  | error e => cases e <;> cases h <;> first | exact hwait | exact hkeep

theorem settle_passes {plaintext : List UInt8} (hi : m.Asks) (h : m.settle plaintext = .ok (rc, m')) :
    (client crypto).Passes Asks Cleared m m' := by
  obtain ⟨clientKey, -, h⟩ := bind_ok h
  obtain ⟨⟨rc1, session⟩, hconn, h⟩ := bind_ok h
  obtain ⟨hh, hin, hok, -⟩ := ZapSession.zapConnect_spec hconn
  simp only [if_pos (hok.mpr hi)] at h
  obtain ⟨⟨rc4, m4⟩, h4, h⟩ := bind_ok h
  have hasks : Asks { m with session := session } := hh.trans hi
  obtain ⟨hi4, used, hread, hclear⟩ : (client crypto).Passes Asks Cleared { m with session := session } m4 :=
    ask_passes hasks h4
  have hpass : (client crypto).Passes Asks Cleared m m4 := ⟨hi4, used, hin.symm.trans hread, hclear⟩
  cases rc4 with
  | error e =>
    cases h
    exact hpass
  | ok =>
    obtain ⟨⟨rc5, base⟩, -, hret⟩ := bind_ok h
    cases hret
    exact hpass

theorem initiate_cases (h : m.processInitiate crypto data = .ok (rc, m')) :
    m.Same m' ∨ ∃ m1 plaintext, m.Same m1 ∧ m1.settle plaintext = .ok (rc, m') := by
  unfold processInitiate at h
  split_ifs at h with h1 h2
  · cases h
    exact .inl ⟨rfl, rfl⟩
  · cases h
    exact .inl ⟨rfl, rfl⟩
  obtain ⟨cookie, -, h⟩ := bind_ok h
  cases cookie with
  | false =>
    cases h
    exact .inl ⟨rfl, rfl⟩
  | true =>
    obtain ⟨box, -, h⟩ := bind_ok h
    obtain ⟨nonce, -, h⟩ := bind_ok h
    simp only at h
    cases ho : crypto.boxOpen box (Curve.initiateTag ++ nonce) m.cnClient m.cnSecret with
    | none =>
      rw [ho] at h
      cases h
      exact .inl ⟨rfl, rfl⟩
    | some p =>
      rw [ho] at h
      obtain ⟨plaintext, -, h⟩ := bind_ok h
      obtain ⟨vouch, -, h⟩ := bind_ok h
      cases vouch with
      | false =>
        cases h
        exact .inl ⟨rfl, rfl⟩
      | true =>
        refine .inr ⟨_, plaintext, ?_, h⟩
        exact ⟨rfl, rfl⟩

theorem hello_cases (h : m.processHello crypto data = .ok (rc, m')) :
    m'.session = m.session ∧ (m'.state = m.state ∨ m'.state = .sendWelcome) := by
  unfold processHello at h
  split_ifs at h with h1 h2 h3
  · cases h
    exact ⟨rfl, .inl rfl⟩
  · cases h
    exact ⟨rfl, .inl rfl⟩
  · cases h
    exact ⟨rfl, .inl rfl⟩
  obtain ⟨key, -, h⟩ := bind_ok h
  obtain ⟨nonce, -, h⟩ := bind_ok h
  obtain ⟨part, -, h⟩ := bind_ok h
  obtain ⟨box, -, h⟩ := bind_ok h
  cases ho : crypto.boxOpen box (Curve.helloTag ++ nonce) key m.secretKey with
  | none =>
    rw [ho] at h
    cases h
    exact ⟨rfl, .inl rfl⟩
  | some p =>
    rw [ho] at h
    obtain ⟨x, -, hret⟩ := bind_ok h
    cases hret
    exact ⟨rfl, .inr rfl⟩

theorem process_passes (hi : m.Asks) (h : m.processHandshakeCommand crypto msg = .ok (rc, m')) :
    (client crypto).Passes Asks Cleared m m' := by
  unfold processHandshakeCommand at h
  cases hs : m.state
  case expectHello =>
    rw [hs] at h
    obtain ⟨hsession, hstate⟩ := hello_cases h
    refine .same ((congrArg ZapSession.handler hsession).trans hi) (congrArg _ hsession) fun hc => ?_
    unfold Cleared at hc
    rcases hstate with hstate | hstate <;> rw [hstate] at hc
    · exact hc
    · rcases hc with hc | hc <;> cases hc
  case expectInitiate =>
    rw [hs] at h
    rcases initiate_cases h with hsame | ⟨m1, plaintext, hsame, hadmit⟩
    · exact hsame.passes hi
    · have hasks : m1.Asks := (congrArg ZapSession.handler hsame.session).trans hi
      obtain ⟨hi', used, hin, hclear⟩ : (client crypto).Passes Asks Cleared m1 m' := settle_passes hasks hadmit
      refine ⟨hi', used, ?_, fun hc => (hclear hc).imp_left fun hc => ?_⟩
      · exact (congrArg ZapSession.incoming hsame.session).symm.trans hin
      · unfold Cleared at hc ⊢
        rwa [hsame.state] at hc
  all_goals
    rw [hs] at h
    cases h
    exact .same hi rfl fun hc => hc

theorem produceWelcome_same (h : m.produceWelcome crypto random = .ok (x, m')) : m.Same m' := by
  unfold produceWelcome at h
  simp only at h
  split at h
  · exact absurd h (nofun)
  obtain ⟨c, -, h⟩ := bind_ok h
  split at h
  · cases h
    exact ⟨rfl, rfl⟩
  · obtain ⟨w, -, hret⟩ := bind_ok h
    cases hret
    exact ⟨rfl, rfl⟩

theorem produceReady_same (h : m.produceReady crypto = .ok (msg, m')) : m.Same m' := by
  obtain ⟨p, -, h⟩ := bind_ok h
  obtain ⟨plaintext, -, h⟩ := bind_ok h
  split at h
  · exact absurd h (nofun)
  · obtain ⟨c, -, hret⟩ := bind_ok h
    cases hret
    exact ⟨rfl, rfl⟩

theorem next_passes (hi : m.Asks)
    (h : m.nextHandshakeCommand crypto random = .ok (x, m')) : (client crypto).Passes Asks Cleared m m' := by
  unfold nextHandshakeCommand at h
  cases hs : m.state
  case sendWelcome =>
    rw [hs] at h
    obtain ⟨⟨x1, m1⟩, h1, hret⟩ := bind_ok h
    have hsame := produceWelcome_same h1
    obtain ⟨-, rfl⟩ := ok_pair hret
    cases x1 with
    | error e => exact hsame.passes hi
    | ok msg =>
      exact .same ((congrArg ZapSession.handler hsame.session).trans hi) (congrArg _ hsame.session)
        fun hc => by rcases hc with hc | hc <;> cases hc
  case sendReady =>
    rw [hs] at h
    obtain ⟨⟨msg, m1⟩, h1, hret⟩ := bind_ok h
    have hsame := produceReady_same h1
    cases hret
    exact .same ((congrArg ZapSession.handler hsame.session).trans hi) (congrArg _ hsame.session) fun _ => .inl hs
  case sendError =>
    rw [hs] at h
    obtain ⟨msg, -, hret⟩ := bind_ok h
    cases hret
    exact .same hi rfl fun hc => by rcases hc with hc | hc <;> cases hc
  all_goals
    rw [hs] at h
    cases h
    exact .same hi rfl fun hc => hc

theorem available_passes (hi : m.Asks) (h : m.zapMsgAvailable = .ok (rc, m')) : (client crypto).Passes Asks Cleared m m' := by
  unfold zapMsgAvailable at h
  split_ifs at h with hs
  · cases h
    exact .same hi rfl fun hc => hc
  · obtain ⟨⟨rc1, m1⟩, h1, hret⟩ := bind_ok h
    obtain ⟨used, hstate, hh, hused, hreply⟩ := receive_spec h1
    obtain ⟨rfl, rfl⟩ := ok_pair hret
    have hasks : m1.Asks := hh.trans hi
    by_cases hrc : rc1 = .ok
    · simp only [if_pos hrc]
      exact decided_passes hasks hused (hreply hrc)
    · simp only [if_neg hrc]
      exact ⟨hasks, used, hused, fun hc => .inl (by unfold Cleared at hc ⊢; rwa [hstate] at hc)⟩

theorem gate : (client crypto).Gate Asks Cleared where
  ready {m} _ hs := by
    unfold client mechanism status at hs
    cases hstate : m.state
    case connected => exact .inr hstate
    all_goals
      simp only [hstate] at hs
      exact absurd hs (nofun)
  deliver _ hi := ⟨hi, fun hc => hc, rfl⟩
  next := next_passes
  process := process_passes
  available := available_passes

end CurveServer

/-- NULL of a socket with a ZAP domain, PLAIN and CURVE become ready after the handler has granted it only. -/
theorem mechanisms_authorised : NullMechanism.client.Authorised NullMechanism.Start ∧
    PlainServer.client.Authorised PlainServer.Start ∧ ∀ crypto, (CurveServer.client crypto).Authorised CurveServer.Start :=
  ⟨NullMechanism.gate.authorised fun _ => NullMechanism.start_spec,
    PlainServer.gate.authorised fun _ => PlainServer.start_spec,
    fun _ => CurveServer.gate.authorised fun _ => CurveServer.start_spec⟩

end Zmq
