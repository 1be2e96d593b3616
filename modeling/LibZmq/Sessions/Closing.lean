import LibZmq.Sessions.Groups
import LibZmq.Sessions.Unread
import LibZmq.Sessions.ZapPipe

/-! A session from the first message on its pipe to its destructor: what the engine reads ahead into its buffer, what the
socket accepts of it, and the three ways in which the pipe, the session and the engine come to their end. -/

namespace Zmq

/-! ## The output of an engine -/

namespace RawEncoder

def rawMessageReady (e : Encoder) (m : Msg) : Encoder := e.nextStep m.data .messageReady true

def act : EncodeStep → Encoder → Msg → Encoder
  | .messageReady | .sizeReady => rawMessageReady

end RawEncoder

/-- The encoder that an engine has made. -/
inductive Coding where
  | zmtp (kind : EncoderKind)
  | raw

namespace Coding

def act : Coding → EncodeStep → Encoder → Msg → Encoder
  | .zmtp kind => kind.act
  | .raw => RawEncoder.act

def frame : Coding → Msg → List UInt8
  | .zmtp kind, m => kind.frame m
  | .raw, m => m.data

end Coding

/-- What `pull_msg` of a session returns: a message of the pipe, or one of the two frames that a RADIO session makes of it. -/
inductive Pulled where
  | whole (m : GroupMsg)
  | group (m : GroupMsg)
  | body (m : GroupMsg)

namespace Pulled

def frame : Pulled → Msg
  | .whole m | .body m => m.toMsg
  | .group m => (GroupMsg.ofData m.group Msg.more).toMsg

/-- The message of which nothing is to come any more. -/
def completes : Pulled → Option GroupMsg
  | .whole m | .body m => some m
  | .group _ => none

end Pulled

/-- A message that has been given to the encoder; one that the engine has made itself has no source. -/
structure Load where
  source : Option Pulled
  msg : Msg

/-- `stream_engine_t` as far as its output goes. What the exchange of greetings adds to it is for each step to say. -/
structure Line where
  out : List UInt8
  encoder : Option (Coding × Encoder)
  -- what is said about a run
  /-- all bytes that the socket has accepted -/
  accepted : List UInt8
  loads : List Load

namespace Line

def new (raw : Bool) : Line where
  out := []
  encoder := if raw then some (.raw, .new StreamEngine.outBatchSize) else none
  accepted := []
  loads := []

/-- The end of the exchange of greetings. The header of the identity message may have been sent as part of it. -/
def begin (line : Line) (kind : EncoderKind) : Option (Msg × ℕ) → Except CodecFault Line
  | none => .ok { line with encoder := some (.zmtp kind, .new StreamEngine.outBatchSize) }
  | some (m, headerSize) => do
    let e ← (Encoder.new StreamEngine.outBatchSize).loadMsg kind.act m
    let (_, e) ← e.encode kind.act (some headerSize)
    return { line with encoder := some (.zmtp kind, e) }

/-- A round of the loop of `out_event`; `outpos` may be NULL. -/
def load (line : Line) (null : Bool) (x : Load) : Except CodecFault Line :=
  match line.encoder with
  | none => .error .nullDereference
  | some (c, e) => do
    let e ← e.loadMsg c.act x.msg
    let (bytes, e) ← e.encode c.act (if null then none else some (StreamEngine.outBatchSize - line.out.length))
    if bytes = [] then .error .assertion
    else return { line with out := line.out ++ bytes, encoder := some (c, e), loads := line.loads ++ [x] }

/-- `nbytes` is what `tcp_write` returns, `none` for -1. -/
def write (line : Line) : Option ℕ → Line
  | none => line
  | some n => { line with out := line.out.drop n, accepted := line.accepted ++ line.out.take n }

/-- The messages that have been pulled from the session. -/
def pulled (line : Line) : List GroupMsg := line.loads.filterMap fun x => x.source.bind Pulled.completes

/-- What `loads` is encoded to. -/
def frames (line : Line) : List UInt8 :=
  match line.encoder with
  | none => []
  | some (c, _) => line.loads.flatMap fun x => c.frame x.msg

/-- `outsize` is 0 and no message is in progress. -/
def Idle (line : Line) : Prop := line.out = [] ∧ line.encoder.all fun x => x.2.inProgress.isNone

/-- Nothing is held that comes from the session. -/
def Spent (line : Line) : Prop := line.pulled = [] ∨ line.Idle

/-- Everything that has been given to the encoder has been accepted by the socket. -/
def Delivered (line : Line) : Prop := line.frames <:+ line.accepted

instance (line : Line) : Decidable line.Idle := by unfold Idle; infer_instance

instance (line : Line) : Decidable line.Spent := by unfold Spent; infer_instance

instance (line : Line) : Decidable line.Delivered := by unfold Delivered; infer_instance

end Line

structure ClosingOptions where
  immediate : Bool
  conflate : Bool
  subscribes : Bool
  radio : Bool
  raw : Bool
  reconnects : Bool

/-- The period of ZMQ_LINGER is infinite. -/
structure ClosingSession where
  options : ClosingOptions
  active : Bool
  pipe : Option (SessionPipe GroupMsg)
  terminatingPipes : List (SessionPipe GroupMsg)
  zapPipe : Bool
  incompleteIn : Bool
  /-- the message of which a RADIO session has given the group only -/
  pendingMsg : Option GroupMsg
  engine : Option Line
  connecting : Bool
  pending : Bool
  terminating : Bool
  destroyed : Bool
  asked : Bool
  /-- a `term` is in the mailbox, after so many commands for the pipe -/
  term : Option ℕ
  -- the socket
  /-- it has got the pipe -/
  bound : Bool
  /-- the pipe is in `endpoints` -/
  listed : Bool
  closed : Bool
  -- what is said about a run
  /-- the frames of the complete messages that the socket has written before it is closed or disconnected -/
  written : List GroupMsg
  /-- the frames of a message that the socket has begun -/
  midway : List GroupMsg
  ended : List Line
  /-- an error of the connection has made the session terminate -/
  lost : Bool
  /-- the `term` has been sent while the end of the socket has not been terminated -/
  untold : Bool

namespace ClosingSession

/-- The pipe of a session that connects is made beforehand, unless messages are to wait for a connection. -/
def new (options : ClosingOptions) (active : Bool) : ClosingSession where
  options := options
  active := active
  pipe := if active && !options.immediate then some (.new options.conflate) else none
  terminatingPipes := []
  zapPipe := false
  incompleteIn := false
  pendingMsg := none
  engine := none
  connecting := true
  pending := false
  terminating := false
  destroyed := false
  asked := false
  term := none
  bound := true
  listed := active && !options.immediate
  closed := false
  written := []
  midway := []
  ended := []
  lost := false
  untold := false

variable (s : ClosingSession)

/-- `pull_msg` of the base class; -1 with EAGAIN is `none`. -/
def pullBase : Except Fault (Option GroupMsg × ClosingSession) :=
  match s.pipe with
  | none => .ok (none, s)
  | some l => do
    let (m, x) ← l.sessionView.read
    let s := { s with pipe := some (l.putSession x) }
    match m with
    | none => return (none, s)
    | some m => return (some m, { s with incompleteIn := m.hasMore })

def pullMsg : Except Fault (Option Pulled × ClosingSession) :=
  match s.pendingMsg with
  | some m => .ok (some (.body m), { s with pendingMsg := none })
  | none => do
    match ← s.pullBase with
    | (none, s) => return (none, s)
    | (some m, s) => return if s.options.radio then (some (.group m), { s with pendingMsg := some m }) else (some (.whole m), s)

def pushMsg (m : GroupMsg) (room : Bool) : ClosingSession :=
  match s.pipe with
  | none => s
  | some l => { s with pipe := some (l.putSession (l.sessionView.write (·.hasMore) m room).2) }

def flush (s : ClosingSession) : ClosingSession :=
  match s.pipe with
  | none => s
  | some l => { s with pipe := some (l.putSession l.sessionView.flush) }

/-- What `next_msg` does when it is called: it makes a message, or pulls one, which the mechanism encodes. -/
inductive Ask where
  | own (m : Msg)
  | pull (encode : Msg → Msg)

def nextMsg : Ask → Except Fault (Option Load × ClosingSession)
  | .own m => .ok (some ⟨none, m⟩, s)
  | .pull encode => do
    let (p, s) ← s.pullMsg
    return (p.map fun p => ⟨some p, encode p.frame⟩, s)

/-- A fault of the encoder ends the run. -/
def orStop {α : Type} : Except CodecFault α → Except Fault α
  | .ok a => .ok a
  | .error _ => .error .assertion

def loadMsg (null : Bool) (x : Load) : Except Fault ClosingSession :=
  match s.engine with
  | none => .error .assertion
  | some line => do return { s with engine := some (← orStop (line.load null x)) }

/-- The loop of `out_event`. When there are no more `asks`, `next_msg` fails of itself. -/
def fill : List Ask → Bool → ClosingSession → Except Fault ClosingSession
  | [], _, s => .ok s
  | ask :: asks, null, s =>
    if s.engine.any fun line => line.out.length < StreamEngine.outBatchSize then do
      match ← s.nextMsg ask with
      | (none, s) => return s
      | (some x, s) => fill asks false (← s.loadMsg null x)
    else .ok s

def writeOut (nbytes : Option ℕ) : ClosingSession :=
  { s with engine := s.engine.map (·.write nbytes) }

def outEvent (asks : List Ask) (nbytes : Option ℕ) : Except Fault ClosingSession :=
  match s.engine with
  | none => .error .assertion
  | some line =>
    if line.out = [] then
      match line.encoder with
      | none => .ok s
      | some (c, e) => do
        let (out, e') ← orStop (e.encode c.act none)
        let s ← fill asks e.inProgress.isNone { s with engine := some { line with out := out, encoder := some (c, e') } }
        return s.writeOut nbytes
    else .ok (s.writeOut nbytes)

/-- `engine->terminate ()`, or the end of `error` -/
def endEngine : ClosingSession := { s with engine := none, ended := s.ended ++ s.engine.toList }

def checkRead (s : ClosingSession) : Except Fault ClosingSession :=
  match s.pipe with
  | none => .ok s
  | some l => do return { s with pipe := some (l.putSession (← l.sessionView.checkRead)) }

def dropHalfRead : ℕ → ClosingSession → Except Fault ClosingSession
  | n, s =>
    if !s.incompleteIn then .ok s
    else
      match n with
      | 0 => .error .assertion
      | n + 1 => do
        match ← s.pullMsg with
        | (none, _) => .error .assertion
        | (some _, s) => dropHalfRead n s

def cleanPipes : Except Fault ClosingSession :=
  match s.pipe with
  | none => .error .assertion
  | some l => do
    let x ← l.sessionView.rollback (·.hasMore)
    let l := l.putSession x.flush
    -- a RADIO session may begin with the body that it holds
    dropHalfRead (l.inpipe.ready.length + 2) { s with pipe := some l }

/-- The pipe is detached when messages are to wait for a connection. -/
def detach : Except Fault ClosingSession :=
  match s.pipe with
  | none => .ok s
  | some l => do
    let l := l.hiccup
    let x ← l.sessionView.terminate (·.hasMore) false
    return { s with
      pipe := none, listed := false, terminatingPipes := s.terminatingPipes ++ [l.putSession x] }

def reconnect : Except Fault ClosingSession := do
  let s ← (if s.options.immediate then s.detach else .ok s)
  let s := { s with pendingMsg := none, connecting := s.options.reconnects }
  return if s.options.subscribes then { s with pipe := s.pipe.map SessionPipe.hiccup } else s

def engineError (reason : ErrorReason) : Except Fault ClosingSession := do
  let s := s.endEngine
  let s ← (if s.pipe.isSome then s.cleanPipes else .ok s)
  let s ← (if s.active ∧ reason ≠ .protocolError then s.reconnect else .ok { s with asked := true })
  s.checkRead

def processAttach : ClosingSession :=
  let s := { s with engine := some (.new s.options.raw), connecting := false }
  if s.pipe.isNone ∧ s.terminating = false then
    { s with
      pipe := some (.new s.options.conflate), bound := false, listed := false, midway := [], untold := false
      term := s.term.map fun _ => 0 }
  else s

/-- Nothing is left that `process_term` waits for. -/
def detached : Bool := s.pipe.isNone && !s.zapPipe && s.terminatingPipes.isEmpty

def processTerm : Except Fault ClosingSession :=
  if s.detached then .ok { s with terminating := true }
  else
    match s.pipe with
    | none => .ok { s with pending := true }
    | some l => do
      let x ← l.sessionView.terminate (·.hasMore) true
      let s := { s with pending := true, pipe := some (l.putSession x) }
      if s.engine.isNone then s.checkRead else return s

/-- `pipe_terminated`, once the pipe has been forgotten -/
def pipeTerminated : ClosingSession :=
  let s := if !s.terminating && s.options.raw then { s.endEngine with asked := true } else s
  if s.pending && s.detached then { s with pending := false, terminating := true } else s

/-- The session's end handles the oldest command; `hiccuped` of a session is an assertion that fails. -/
def deliver : Except Fault ClosingSession :=
  match s.pipe with
  | none => .ok s
  | some l =>
    match l.toSession with
    | [] => .ok s
    | c :: rest =>
      let l := { l with toSession := rest }
      let s := { s with term := s.term.map (· - 1) }
      match c with
      | .activateRead => do
        let (told, x) := l.sessionView.processActivateRead
        let s := { s with pipe := some (l.putSession x) }
        -- an engine goes on with output, which is for other steps
        if told && s.engine.isNone then s.checkRead else return s
      | .hiccup => .error .assertion
      | .pipeTerm => do return { s with pipe := some (l.putSession (← l.sessionView.processPipeTerm)) }
      | .pipeTermAck => do
        let _ ← l.sessionView.processPipeTermAck
        return pipeTerminated { s with pipe := none, listed := false }

/-- The session's end of a pipe that has been detached handles the oldest command. -/
def deliverDetached (i : ℕ) : Except Fault ClosingSession :=
  match s.terminatingPipes[i]? with
  | none => .ok s
  | some l =>
    match l.toSession with
    | [] => .ok s
    | c :: rest =>
      let l := { l with toSession := rest }
      match c with
      | .activateRead =>
        .ok { s with terminatingPipes := s.terminatingPipes.set i (l.putSession l.sessionView.processActivateRead.2) }
      | .hiccup => .error .assertion
      | .pipeTerm => do
        return { s with terminatingPipes := s.terminatingPipes.set i (l.putSession (← l.sessionView.processPipeTerm)) }
      | .pipeTermAck => do
        let _ ← l.sessionView.processPipeTermAck
        return pipeTerminated { s with terminatingPipes := s.terminatingPipes.eraseIdx i }

/-- The socket has been closed, or the session has been told to terminate. -/
def Shut : Prop := s.closed = true ∨ s.term.isSome = true

instance : Decidable s.Shut := by unfold Shut; infer_instance

def atEnd (f : EndView GroupMsg → Except Fault (EndView GroupMsg)) (l : SessionPipe GroupMsg) :
    Except Fault (SessionPipe GroupMsg) :=
  match l.socket with
  | none => .ok l
  | some p => do return l.putSocket (← f (l.socketView p))

def atSocket (f : EndView GroupMsg → Except Fault (EndView GroupMsg)) : Except Fault ClosingSession :=
  match s.pipe with
  | none => .ok s
  | some l => do return { s with pipe := some (← atEnd f l) }

/-- What is known of a frame that has been written. -/
def record (m : GroupMsg) : ClosingSession :=
  if s.Shut then s
  else if m.hasMore then { s with midway := s.midway ++ [m] }
  else { s with written := s.written ++ s.midway ++ [m], midway := [] }

def writeSocket (m : GroupMsg) (room : Bool) : ClosingSession :=
  match s.pipe with
  | none => s
  | some l =>
    match l.socket with
    | none => s
    | some p =>
      let (taken, x) := (l.socketView p).write (·.hasMore) m room
      if taken then { s.record m with pipe := some (l.putSocket x) } else s

/-- The socket has not got to know yet that the pipe has been detached. -/
def writeDetached (i : ℕ) (m : GroupMsg) (room : Bool) : ClosingSession :=
  match s.terminatingPipes[i]? with
  | none => s
  | some l =>
    match l.socket with
    | none => s
    | some p =>
      let (taken, x) := (l.socketView p).write (·.hasMore) m room
      if taken then { s.record m with terminatingPipes := s.terminatingPipes.set i (l.putSocket x) } else s

def deliverSocket (s : ClosingSession) : Except Fault ClosingSession :=
  match s.pipe with
  | none => .ok s
  | some l => do return { s with pipe := some (← l.deliverSocket) }

def deliverSocketDetached (i : ℕ) : Except Fault ClosingSession :=
  match s.terminatingPipes[i]? with
  | none => .ok s
  | some l => do return { s with terminatingPipes := s.terminatingPipes.set i (← l.deliverSocket) }

/-- The end of the socket is as before any termination. -/
def Untold : Prop := s.bound = true ∧ ∃ l ∈ s.pipe, ∃ p ∈ l.socket, p.state.isOpen = true

instance : Decidable s.Untold := by unfold Untold; infer_instance

/-- The owner of the session sends it a `term`. -/
def sendTerm : ClosingSession :=
  { s with term := some (s.pipe.elim 0 (·.toSession.length)), untold := decide s.Untold }

/-- `process_term` of the socket as far as its pipes go -/
def close : Except Fault ClosingSession := do
  let s ← (if s.bound then s.atSocket (·.terminate (·.hasMore) false) else .ok s)
  let pipes ← s.terminatingPipes.mapM (atEnd (·.terminate (·.hasMore) false))
  return { s with closed := true, terminatingPipes := pipes }

/-- `term_endpoint`; what a pointer to a pipe that is no more leads to is not said here. -/
def disconnect : Except Fault ClosingSession := do
  let s ← (if s.listed then s.atSocket (·.terminate (·.hasMore) false) else .ok s)
  return s.sendTerm

/-- `process_bind` of the socket -/
def bind : Except Fault ClosingSession :=
  let s := { s with bound := true }
  if s.closed then s.atSocket (·.terminate (·.hasMore) false) else .ok s

inductive Op where
  | write (m : GroupMsg) (room : Bool)
  | flushSocket | rollback | read
  | terminate (delay : Bool)
  | deliverSocket
  | writeDetached (i : ℕ) (m : GroupMsg) (room : Bool)
  | deliverSocketDetached (i : ℕ)
  | bind | close | disconnect | sendTerm
  | deliver
  | deliverDetached (i : ℕ)
  | processTerm
  | attach
  /-- the engine writes a part of the greeting, and ends the exchange of greetings -/
  | greet (bytes : List UInt8)
  | begin (kind : EncoderKind) (identity : Option (Msg × ℕ))
  | outEvent (asks : List Ask) (nbytes : Option ℕ)
  | push (m : GroupMsg) (room : Bool)
  | flush
  | engineError (reason : ErrorReason)
  | zapOpened | zapTerminated
  | destroy

def Ready (op : Op) : Prop := s.destroyed = false ∧
  match op with
  | .write _ _ => s.bound = true ∧ s.closed = false
  | .flushSocket | .rollback | .read | .terminate _ | .deliverSocket => s.bound = true
  | .writeDetached _ _ _ => s.closed = false
  | .deliverSocketDetached _ | .deliver | .deliverDetached _ => True
  | .bind => s.bound = false
  | .close => s.closed = false
  | .disconnect => s.active = true ∧ s.closed = false ∧ s.term = none
  | .sendTerm => (s.closed = true ∨ s.asked = true) ∧ s.term = none
  | .processTerm => s.term = some 0 ∧ s.pending = false ∧ s.terminating = false
  | .attach => s.connecting = true ∧ s.engine.isNone = true
  | .greet _ | .begin _ _ => s.engine.any (·.encoder.isNone) = true
  | .outEvent _ _ | .push _ _ | .flush | .engineError _ => s.engine.isSome = true
  | .zapOpened => s.zapPipe = false
  | .zapTerminated => s.zapPipe = true
  | .destroy => s.terminating = true

def act : Op → Except Fault ClosingSession
  | .write m room => .ok (s.writeSocket m room)
  | .flushSocket => s.atSocket fun x => .ok x.flush
  | .rollback => do return { ← s.atSocket (·.rollback (·.hasMore)) with midway := [] }
  | .read => s.atSocket fun x => do return (← x.read).2
  | .terminate delay => do return { ← s.atSocket (·.terminate (·.hasMore) delay) with midway := [] }
  | .deliverSocket => s.deliverSocket
  | .writeDetached i m room => .ok (s.writeDetached i m room)
  | .deliverSocketDetached i => s.deliverSocketDetached i
  | .bind => s.bind
  | .close => s.close
  | .disconnect => s.disconnect
  | .sendTerm => .ok s.sendTerm
  | .deliver => s.deliver
  | .deliverDetached i => s.deliverDetached i
  | .processTerm => s.processTerm
  | .attach => .ok s.processAttach
  | .greet bytes => .ok { s with engine := s.engine.map fun line => { line with out := line.out ++ bytes } }
  | .begin kind identity =>
    match s.engine with
    | none => .ok s
    | some line => do return { s with engine := some (← orStop (line.begin kind identity)) }
  | .outEvent asks nbytes => s.outEvent asks nbytes
  | .push m room => .ok (s.pushMsg m room)
  | .flush => .ok s.flush
  | .engineError reason => s.engineError reason
  | .zapOpened => .ok { s with zapPipe := true }
  | .zapTerminated => .ok (pipeTerminated { s with zapPipe := false })
  | .destroy => .ok { s.endEngine with destroyed := true }

/-- The session is to terminate for an error of its connection. -/
def GivesUp : Op → Prop
  | .engineError reason => s.active = false ∨ reason = .protocolError
  | _ => False

instance (op : Op) : Decidable (s.GivesUp op) := by
  cases op <;> unfold GivesUp <;> infer_instance

def run (op : Op) : Except Fault ClosingSession := do
  let s' ← s.act op
  return { s' with lost := s.lost || decide (s.GivesUp op) }

def Start : Prop := ∃ options active, s = new options active

abbrev Step : ClosingSession → Op → ClosingSession → Prop := Does Ready run

def pulled (s : ClosingSession) : List GroupMsg := (s.ended ++ s.engine.toList).flatMap Line.pulled

/-- The engines hold nothing that comes from the session. -/
def Spent (s : ClosingSession) : Prop := ∀ line ∈ s.engine, line.Spent

/-- The pipe of a raw socket takes the engine with it. -/
def Leaves : Prop := s.terminating = false → s.options.raw = true → s.Spent

/-- What would be lost: an engine is given up only when it has passed on everything that it has pulled; a queue that is
dropped is empty, and nothing is written to it later; a message, or a delimiter, on a conflating pipe takes the place of
nothing; and a session that is told to terminate before its pipe is has nothing to read. -/
def Keeps : Op → Prop
  | .write m _ => ∀ l ∈ s.pipe, (¬ s.Shut → l.dropped = []) ∧ (l.conflate = true → m.hasMore = false ∧ l.unread = [])
  | .writeDetached i _ _ => s.Shut ∨ ∀ l ∈ s.terminatingPipes[i]?, ∀ p ∈ l.socket, p.state ≠ .active
  | .terminate _ | .close => ∀ l ∈ s.pipe, l.conflate = true → l.unread = []
  | .disconnect => s.listed = true → ∀ l ∈ s.pipe, l.conflate = true → l.unread = []
  | .processTerm => s.untold = true → ∀ l ∈ s.pipe, l.session.state = .active → l.unread = []
  | .deliver => (∃ l ∈ s.pipe, l.toSession.head? = some .pipeTermAck) → s.Leaves
  | .deliverDetached i => (∃ l ∈ s.terminatingPipes[i]?, l.toSession.head? = some .pipeTermAck) → s.Leaves
  | .zapTerminated => s.Leaves
  | .engineError reason => ¬ s.GivesUp (.engineError reason) → s.Spent ∧ s.pendingMsg = none ∧ s.incompleteIn = false ∧
    (s.options.immediate = true → ∀ l ∈ s.pipe, l.session.readable = true → l.unread = []) ∧
    (s.options.subscribes = true → ∀ l ∈ s.pipe, l.session.state = .active → l.unread = [] ∧ l.inpipe.unfinished = [])
  | .destroy => s.Spent ∧ s.pendingMsg = none
  | _ => True

instance : Decidable s.Spent := by unfold Spent; infer_instance

instance : Decidable s.Leaves := by unfold Leaves; infer_instance

instance (op : Op) : Decidable (s.Ready op) := by
  cases op <;> unfold Ready <;> infer_instance

instance (op : Op) : Decidable (s.Keeps op) := by
  cases op <;> unfold Keeps <;> infer_instance

end ClosingSession

end Zmq
