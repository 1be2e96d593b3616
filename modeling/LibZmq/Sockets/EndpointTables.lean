import LibZmq.Sessions.EndPair
import LibZmq.Sessions.ZapPipe
import Mathlib

/-! The tables in which a socket keeps what it has connected and bound, with the objects and pipes that the entries point to:
sessions and listeners, which the socket owns, and the socket's ends of pipes. The other ends belong to the sessions or to
somebody else. The messages that pass, and what is done with them, are said with each step. -/

namespace Zmq

universe u v w x

/-- The options that sessions copy. -/
structure EndpointOptions where
  /-- `options.immediate` is 1 -/
  immediate : Bool
  rawSocket : Bool
  conflate : Bool

/-- A session, or a listener, that the socket has launched. -/
structure EndpointOwn (P : Type w) where
  listener : Bool
  options : EndpointOptions
  /-- the protocol is PGM, EPGM, NORM or UDP -/
  subscribeToAll : Bool
  pipe : Option P
  terminatingPipes : List P
  engine : Bool
  hasLingerTimer : Bool
  /-- `term` has been sent and has not been processed -/
  termed : Bool
  pending : Bool
  terminating : Bool
  destroyed : Bool
  /-- the socket has processed the acknowledgement -/
  acked : Bool

structure EndpointEntry (A : Type u) (O : Type v) (P : Type w) where
  addr : A
  own : O
  pipe : Option P
deriving DecidableEq

/-- A pipe of the socket, which has the first end. -/
structure SocketPipe (O : Type v) (F : Type x) where
  pair : EndPair F
  /-- the session that has the other end -/
  session : Option O
  /-- it is in the array `pipes` of the socket, and tells the socket what happens -/
  attached : Bool

inductive SocketCmd (O : Type v) (P : Type w) where
  | own (object : O)
  | termReq (object : O)
  | termAck (object : O)
  | bind (pipe : P)

def SocketCmd.isOwn {O : Type v} {P : Type w} : SocketCmd O P → Bool
  | .own _ => true
  | _ => false

structure EndpointTables (A : Type u) (O : Type v) (P : Type w) (F : Type x) where
  type : SocketType
  options : EndpointOptions
  endpoints : List (EndpointEntry A O P)
  inprocs : List (A × P)
  /-- the entry that `add_endpoint` is to insert, while it launches the object -/
  adding : Option (EndpointEntry A O P)
  pipes : P → Option (SocketPipe O F)
  objects : O → Option (EndpointOwn P)
  owned : List O
  termAcks : ℕ
  /-- the commands for the socket itself, oldest first -/
  mailbox : List (SocketCmd O P)

namespace EndpointOwn

variable {P : Type w}

def new (listener : Bool) (options : EndpointOptions) (subscribeToAll : Bool) (pipe : Option P) : EndpointOwn P where
  listener := listener
  options := options
  subscribeToAll := subscribeToAll
  pipe := pipe
  terminatingPipes := []
  engine := false
  hasLingerTimer := false
  termed := false
  pending := false
  terminating := false
  destroyed := false
  acked := false

/-- The session has nothing to wait for, apart from the ZAP pipe. -/
def settle (c : EndpointOwn P) : EndpointOwn P :=
  if c.pending ∧ c.pipe.isNone ∧ c.terminatingPipes = [] then { c with pending := false, terminating := true } else c

end EndpointOwn

namespace EndpointTables

variable {A : Type u} {O : Type v} {P : Type w} {F : Type x}

def new (type : SocketType) (options : EndpointOptions) : EndpointTables A O P F where
  type := type
  options := options
  endpoints := []
  inprocs := []
  adding := none
  pipes _ := none
  objects _ := none
  owned := []
  termAcks := 0
  mailbox := []

def isSingleConnect (s : EndpointTables A O P F) : Bool := s.type == .dealer || s.type == .sub || s.type == .req

def post (s : EndpointTables A O P F) (c : SocketCmd O P) : EndpointTables A O P F := { s with mailbox := s.mailbox ++ [c] }

variable [DecidableEq O] [DecidableEq P] (s : EndpointTables A O P F)

def setObject (o : O) (c : EndpointOwn P) : EndpointTables A O P F :=
  { s with objects := Function.update s.objects o (some c) }

def setPipe (p : P) (d : SocketPipe O F) : EndpointTables A O P F :=
  { s with pipes := Function.update s.pipes p (some d) }

def onPipe (p : P) (f : EndPair F → Except Fault (EndPair F)) :
    Except Fault (EndpointTables A O P F) :=
  match s.pipes p with
  | none => .error .useAfterFree
  | some d => (f d.pair).map fun pair => s.setPipe p { d with pair := pair }

/-- `pipepair`, and `attach_pipe` of the socket; the type of the socket may then terminate the pipe, in a step of its own. -/
def createPipe (p : P) (conflate : Bool) (session : Option O) (attached : Bool) :
    EndpointTables A O P F := s.setPipe p ⟨.new conflate, session, attached⟩

def launch (addr : A) (o : O) (c : EndpointOwn P) : EndpointTables A O P F :=
  { s.setObject o c with adding := some ⟨addr, o, c.pipe⟩ }

def add : EndpointTables A O P F :=
  match s.adding with
  | none => s
  | some e => { s.post (.own e.own) with endpoints := s.endpoints ++ [e], adding := none }

/-- `connect` to an address of inproc. -/
def connectInproc (addr : A) (p : P) : EndpointTables A O P F :=
  { s.createPipe p s.options.conflate none true with inprocs := s.inprocs ++ [(addr, p)] }

/-- `connect` to any other address, up to `send_plug`. -/
def connect [DecidableEq A] (s : EndpointTables A O P F) (addr : A) (o : O) (p : P) (subscribeToAll : Bool) : EndpointTables A O P F :=
  if s.isSingleConnect ∧ ∃ e ∈ s.endpoints, e.addr = addr then s
  else if s.options.immediate = false ∨ subscribeToAll = true then
    (s.createPipe p s.options.conflate (some o) true).launch addr o (.new false s.options subscribeToAll (some p))
  else s.launch addr o (.new false s.options subscribeToAll none)

/-- `bind` to an address of UDP, up to `send_plug`. -/
def bindUdp (addr : A) (o : O) (p : P) : EndpointTables A O P F :=
  (s.createPipe p false (some o) true).launch addr o (.new false s.options true (some p))

/-- `bind` to an address that takes a listener, up to `send_plug`. -/
def bind (addr : A) (o : O) : EndpointTables A O P F :=
  s.launch addr o (.new true s.options false none)

omit [DecidableEq P] in
/-- Pointers to objects are only compared, until one is found among those that are owned. -/
def processTermReq (o : O) : EndpointTables A O P F :=
  if o ∈ s.owned then
    { s with
      owned := s.owned.erase o
      termAcks := s.termAcks + 1
      objects := Function.update s.objects o ((s.objects o).map fun c => { c with termed := true }) }
  else s

variable (more : F → Bool) (s : EndpointTables A O P F)

def termOne (e : EndpointEntry A O P) : Except Fault (EndpointTables A O P F) :=
  match e.pipe with
  | none => .ok (s.processTermReq e.own)
  | some p => do return (← s.onPipe p (·.terminate more .first false)).processTermReq e.own

/-- `term_endpoint`; an address of TCP that has no entry may resolve to one that has. ENOENT is `false`. -/
def termEndpoint [DecidableEq A] (s : EndpointTables A O P F) (addr : A) (resolved : List A) : Except Fault (Bool × EndpointTables A O P F) :=
  match (addr :: resolved).find? fun a => s.endpoints.any fun e => e.addr = a with
  | none => .ok (false, s)
  | some a => do
    let s ← (s.endpoints.filter fun e => e.addr = a).foldlM (termOne more) s
    return (true, { s with endpoints := s.endpoints.filter fun e => e.addr ≠ a })

/-- `term_endpoint` for an address of inproc, which this socket may have bound. -/
def termInproc [DecidableEq A] (s : EndpointTables A O P F) (addr : A) (bound : Bool) : Except Fault (Bool × EndpointTables A O P F) :=
  if bound then .ok (true, s)
  else if ¬∃ e ∈ s.inprocs, e.1 = addr then .ok (false, s)
  else do
    let s ← (s.inprocs.filter fun e => e.1 = addr).foldlM (fun s e => s.onPipe e.2 (·.terminate more .first true)) s
    return (true, { s with inprocs := s.inprocs.filter fun e => e.1 ≠ addr })

def deliver : Except Fault (EndpointTables A O P F) :=
  match s.mailbox with
  | [] => .ok s
  | c :: rest =>
    let s := { s with mailbox := rest }
    match c with
    | .own o => .ok { s with owned := s.owned ++ [o] }
    | .termReq o => .ok (s.processTermReq o)
    | .termAck o =>
      if s.termAcks = 0 then .error .assertion
      else .ok { s with
        termAcks := s.termAcks - 1
        objects := Function.update s.objects o ((s.objects o).map fun c => { c with acked := true }) }
    | .bind p => .ok { s with pipes := Function.update s.pipes p ((s.pipes p).map fun d => { d with attached := true }) }

/-- `hiccuped`, unless the type of the socket handles it. -/
def hiccuped (p : P) : Except Fault (EndpointTables A O P F) :=
  if s.options.immediate then s.onPipe p (·.terminate more .first false) else .ok s

omit [DecidableEq O] in
def pipeTerminated (p : P) : EndpointTables A O P F :=
  { s with inprocs := s.inprocs.eraseP fun e => e.2 = p }

/-- The socket's end of the pipe handles the oldest command. -/
def deliverPipe (p : P) : Except Fault (EndpointTables A O P F) :=
  match s.pipes p with
  | none => .error .useAfterFree
  | some d => do
    let s ← s.onPipe p (·.deliver .first)
    match (d.pair.inbox .first).head? with
    | some .hiccup => if (d.pair.ends .first).any fun e => e.state = .active then s.hiccuped more p else return s
    | some .pipeTermAck => return s.pipeTerminated p
    | _ => return s

omit [DecidableEq O] [DecidableEq P] in
/-- `own_t::terminate` of an object that the socket owns. -/
def terminate (o : O) (c : EndpointOwn P) : EndpointTables A O P F :=
  if c.terminating then s else s.post (.termReq o)

def sessionPipeTerminated (o : O) (c : EndpointOwn P) (p : P) : EndpointTables A O P F :=
  let c :=
    if c.pipe = some p then { c with pipe := none, hasLingerTimer := false }
    else { c with terminatingPipes := c.terminatingPipes.erase p }
  if c.terminating = false ∧ c.options.rawSocket = true then
    (s.setObject o (EndpointOwn.settle { c with engine := false })).terminate o c
  else s.setObject o c.settle

def deliverPeer (p : P) : Except Fault (EndpointTables A O P F) :=
  match s.pipes p with
  | none => .error .useAfterFree
  | some d => do
    let s ← s.onPipe p (·.deliver .second)
    if (d.pair.inbox .second).head? = some .pipeTermAck then
      match d.session.bind fun o => (s.objects o).map fun c => (o, c) with
      | none => return s
      | some (o, c) => return s.sessionPipeTerminated o c p
    else return s

/-- `process_attach`; `p` is the pipe that is made if there is none. -/
def processAttach (o : O) (c : EndpointOwn P) (p : P) : EndpointTables A O P F :=
  if c.pipe.isNone ∧ c.terminating = false then
    ((s.createPipe p c.options.conflate (some o) false).setObject o { c with pipe := some p, engine := true }).post (.bind p)
  else s.setObject o { c with engine := true }

/-- `reconnect`, apart from the connecter. -/
def reconnect (o : O) (c : EndpointOwn P) : Except Fault (EndpointTables A O P F) :=
  match c.pipe with
  | none => .ok (s.setObject o c)
  | some p =>
    if c.options.immediate = true ∧ c.subscribeToAll = false then do
      let s ← s.onPipe p (·.hiccup .second)
      let s ← s.onPipe p (·.terminate more .second false)
      return s.setObject o { c with pipe := none, terminatingPipes := p :: c.terminatingPipes }
    else if s.type = .sub ∨ s.type = .xsub then do
      let s ← s.onPipe p (·.hiccup .second)
      return s.setObject o c
    else .ok (s.setObject o c)

/-- `engine_error`, apart from the messages that it drops or finds. -/
def engineError (o : O) (c : EndpointOwn P) (reason : ErrorReason) :
    Except Fault (EndpointTables A O P F) :=
  let c := { c with engine := false }
  match reason with
  | .timeoutError | .connectionError => s.reconnect more o c
  | .protocolError => .ok ((s.setObject o c).terminate o c)

def processTerm (o : O) (c : EndpointOwn P) (linger : ℤ) : Except Fault (EndpointTables A O P F) :=
  let c := { c with termed := false }
  if c.listener then .ok (s.setObject o { c with terminating := true })
  else if c.pending then .error .assertion
  else
    match c.pipe with
    | none => .ok (s.setObject o (EndpointOwn.settle { c with pending := true }))
    | some p => do
      let s ← s.onPipe p (·.terminate more .second (linger ≠ 0))
      return s.setObject o { c with pending := true, hasLingerTimer := c.hasLingerTimer || 0 < linger }

def timerEvent (o : O) (c : EndpointOwn P) : Except Fault (EndpointTables A O P F) :=
  match c.pipe with
  | none => .error .assertion
  | some p => do
    let s ← s.onPipe p (·.terminate more .second false)
    return s.setObject o { c with hasLingerTimer := false }

inductive Op (A : Type u) (O : Type v) (P : Type w) (F : Type x) where
  | setsockopt (options : EndpointOptions)
  | connectInproc (addr : A) (p : P)
  | connect (addr : A) (o : O) (p : P) (subscribeToAll : Bool)
  | bindUdp (addr : A) (o : O) (p : P)
  | bind (addr : A) (o : O)
  | add
  | termEndpoint (addr : A) (resolved : List A)
  | termInproc (addr : A) (bound : Bool)
  /-- the type of the socket terminates a pipe: one too many, one whose identity is taken over, one that gets an empty message -/
  | terminate (p : P) (delay : Bool)
  | deliver
  | deliverPipe (p : P)
  | call (side : Side) (p : P) (c : EndCall F)
  /-- the other end: a socket that connects, or a session that a listener has launched -/
  | offer (p : P) (conflate : Bool)
  | peerTerminate (p : P) (delay : Bool)
  | deliverPeer (p : P)
  | attach (o : O) (p : P)
  | engineError (o : O) (reason : ErrorReason)
  | processTerm (o : O) (linger : ℤ)
  | timer (o : O)
  /-- the object and its own children have nothing to wait for -/
  | acknowledge (o : O)

/-- What is said of an object that has been launched and not destroyed. -/
def Object (o : O) (holds : EndpointOwn P → Bool) : Prop :=
  (s.objects o).any (fun c => !c.destroyed && holds c) = true

/-- The thread of the socket does one thing at a time, and a call first processes what the socket has sent to itself. -/
def Idle : Prop := s.adding.isNone = true ∧ ∀ c ∈ s.mailbox, c.isOwn = false

def Ready : Op A O P F → Prop
  | .setsockopt _ => s.adding.isNone = true
  | .connectInproc _ p => s.Idle ∧ (s.pipes p).isNone = true
  | .connect _ o p _ | .bindUdp _ o p => s.Idle ∧ (s.objects o).isNone = true ∧ (s.pipes p).isNone = true
  | .bind _ o => s.Idle ∧ (s.objects o).isNone = true
  | .add => s.adding.isSome = true
  | .termEndpoint _ _ | .termInproc _ _ => s.Idle
  | .terminate p _ | .call .first p _ => (s.pipes p).any (·.attached) = true
  | .deliver => s.adding.isNone = true
  | .deliverPipe p => s.adding.isNone = true ∧ (s.pipes p).any (·.attached) = true
  | .call .second _ _ => True
  | .offer p _ => (s.pipes p).isNone = true
  | .peerTerminate p _ => (s.pipes p).any (·.session.isNone) = true
  | .deliverPeer _ => True
  | .attach o p => s.Object o (fun c => !c.listener && !c.engine) ∧ (s.pipes p).isNone = true
  | .engineError o _ => s.Object o fun c => c.engine
  | .processTerm o _ => s.Object o fun c => c.termed
  | .timer o => s.Object o fun c => c.hasLingerTimer
  | .acknowledge o => s.Object o fun c => c.terminating

def onObject (o : O) (f : EndpointOwn P → Except Fault (EndpointTables A O P F)) :
    Except Fault (EndpointTables A O P F) :=
  match s.objects o with
  | none => .error .useAfterFree
  | some c => f c

def run [DecidableEq A] (s : EndpointTables A O P F) : Op A O P F → Except Fault (EndpointTables A O P F)
  | .setsockopt options => .ok { s with options := options }
  | .connectInproc addr p => .ok (s.connectInproc addr p)
  | .connect addr o p subscribeToAll => .ok (s.connect addr o p subscribeToAll)
  | .bindUdp addr o p => .ok (s.bindUdp addr o p)
  | .bind addr o => .ok (s.bind addr o)
  | .add => .ok s.add
  | .termEndpoint addr resolved => do return (← s.termEndpoint more addr resolved).2
  | .termInproc addr bound => do return (← s.termInproc more addr bound).2
  | .terminate p delay => s.onPipe p (·.terminate more .first delay)
  | .deliver => s.deliver
  | .deliverPipe p => s.deliverPipe more p
  | .call side p c => s.onPipe p (·.call more side c)
  | .offer p conflate => .ok ((s.createPipe p conflate none false).post (.bind p))
  | .peerTerminate p delay => s.onPipe p (·.terminate more .second delay)
  | .deliverPeer p => s.deliverPeer p
  | .attach o p => s.onObject o fun c => .ok (s.processAttach o c p)
  | .engineError o reason => s.onObject o fun c => s.engineError more o c reason
  | .processTerm o linger => s.onObject o fun c => s.processTerm more o c linger
  | .timer o => s.onObject o fun c => s.timerEvent more o c
  | .acknowledge o => s.onObject o fun c => .ok ((s.setObject o { c with destroyed := true }).post (.termAck o))

def Start : Prop := ∃ type options, s = new type options

abbrev Step [DecidableEq A] : EndpointTables A O P F → Op A O P F → EndpointTables A O P F → Prop := Does Ready (run more)

/-! ## What the tables are to hold -/

def LivePipe (p : P) : Prop :=
  (s.pipes p).any (fun d => (d.pair.ends .first).isSome) = true

/-- The object is alive, or its termination has not been acknowledged. -/
def LiveOwn (o : O) : Prop := (s.objects o).any (fun c => !c.destroyed || !c.acked) = true

/-- The entries, with the one that is to be inserted. -/
def entries : List (EndpointEntry A O P) := s.endpoints ++ s.adding.toList

def ofOwn (o : O) : Prop := ∃ e ∈ s.entries, e.own = o

def ofPipe (p : P) : Prop := ∃ e ∈ s.entries, e.pipe = some p

/-- What `endpoints` points to does not end on its own: no session of an entry meets a protocol error, or loses a pipe of a raw
socket, the type of the socket does not terminate the pipe of an entry, and no hiccup of one comes when `options.immediate` has
been set. -/
def Keeps : Op A O P F → Prop
  | .engineError o reason => reason = .protocolError → ¬ s.ofOwn o
  | .terminate p _ => ¬ s.ofPipe p
  | .deliverPipe p => s.options.immediate = true →
      (s.pipes p).any (fun d => (d.pair.inbox .first).head? = some .hiccup) = true → ¬ s.ofPipe p
  | .deliverPeer p => (s.pipes p).any (fun d => (d.pair.inbox .second).head? = some .pipeTermAck ∧
      d.session.any fun o => (s.objects o).any (·.options.rawSocket) ∧ ∃ e ∈ s.entries, e.own = o) = false
  | _ => True

instance : Decidable s.Idle := by unfold Idle; infer_instance

instance (o : O) (holds : EndpointOwn P → Bool) : Decidable (s.Object o holds) := by
  unfold Object
  infer_instance

instance (op : Op A O P F) : Decidable (s.Ready op) := by
  cases op with
  | call side p c => cases side <;> unfold Ready <;> infer_instance
  | _ => unfold Ready; infer_instance

instance (o : O) : Decidable (s.ofOwn o) := by unfold ofOwn; infer_instance

instance (p : P) : Decidable (s.ofPipe p) := by unfold ofPipe; infer_instance

instance (op : Op A O P F) : Decidable (s.Keeps op) := by
  cases op <;> unfold Keeps <;> infer_instance

instance (p : P) : Decidable (s.LivePipe p) := by unfold LivePipe; infer_instance

instance (o : O) : Decidable (s.LiveOwn o) := by unfold LiveOwn; infer_instance

end EndpointTables

end Zmq
