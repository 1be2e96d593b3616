import LibZmq.Flight
import LibZmq.Run

/-! Inproc endpoints, kept by `ctx_t`: a connect finds the socket that has bound the name, or is pending until some
socket binds it. Whoever is to send a socket a command has it count the command first, so that it is still there. -/

namespace Zmq

open Function (update)

universe u v w

/-- What of a socket's options its peers are to know. -/
structure InprocOptions where
  recvIdentity : Bool
  identity : List UInt8

structure EndpointT (S : Type u) where
  socket : S
  options : InprocOptions

/-- `connect_pipe` and `bind_pipe` are the two ends of `pipe`. -/
structure PendingConnectionT (S : Type u) (N : Type v) (Q : Type w) where
  addr : N
  endpoint : EndpointT S
  pipe : Q

inductive InprocCmd (Q : Type w) where
  | bind (pipe : Q)
  | inprocConnected

inductive InprocSide where
  | connectSide | bindSide

/-- What a socket is to do next in a connect or a bind. -/
inductive InprocCall (S : Type u) (N : Type v) (Q : Type w) where
  /-- `find_endpoint` has found nobody -/
  | lost (addr : N) (pipe : Q)
  | found (pipe : Q) (peer : EndpointT S)
  /-- the name is registered -/
  | binding (addr : N)

/-- `socket_base_t`: `tag` says that the socket is not closed, `pipes` counts the pipes attached to it. -/
structure SocketT where
  options : InprocOptions
  tag : Bool
  sentSeqnum : UInt32
  processedSeqnum : UInt64
  terminating : Bool
  pipes : ℕ
  termAcks : ℤ

inductive InprocFault where
  | assertion
  /-- a socket that has been deallocated is accessed -/
  | useAfterFree

/-- How far a connect has come. -/
inductive ConnectStage (S : Type u) where
  | unused
  | lost
  | found (peer : S)
  | pending
  /-- `bind` is on its way to the peer -/
  | sent (peer : S)
  /-- the pipe is attached to the peer -/
  | attached (peer : S)
deriving DecidableEq

structure Inproc (S : Type u) (N : Type v) (Q : Type w) where
  sockets : S → SocketT
  created : S → Bool
  destroyed : S → Bool
  endpoints : N → Option (EndpointT S)
  pendingConnections : List (PendingConnectionT S N Q)
  calls : S → Option (InprocCall S N Q)
  /-- the identities that each pipe carries to the socket that binds -/
  toBind : Q → List (List UInt8)
  /-- and to the one that connects -/
  toConnect : Q → List (List UInt8)
  flight : List (Packet S (InprocCmd Q))
  /-- who has made the pipe, to connect to which name -/
  made : Q → Option (S × N)
  stage : Q → ConnectStage S
  /-- the sockets to which the pipe has been attached as the side that binds -/
  attached : Q → List S
  /-- the sockets that have found this one and are yet to send it `bind` -/
  finders : S → Finset S
  /-- calls of `inc_seqnum` -/
  incs : S → ℕ
  /-- calls of `process_seqnum` -/
  handled : S → ℕ

namespace Inproc

variable {S : Type u} {N : Type v} {Q : Type w}

def empty : Inproc S N Q where
  sockets _ := ⟨⟨false, []⟩, true, 0, 0, false, 0, 0⟩
  created _ := false
  destroyed _ := false
  endpoints _ := none
  pendingConnections := []
  calls _ := none
  toBind _ := []
  toConnect _ := []
  flight := []
  made _ := none
  stage _ := .unused
  attached _ := []
  finders _ := ∅
  incs _ := 0
  handled _ := 0

variable (s : Inproc S N Q)

def Alive (x : S) : Prop := s.created x = true ∧ s.destroyed x = false

instance (x : S) : Decidable (s.Alive x) := by unfold Alive; infer_instance

/-- The socket is there and has not been closed. -/
def Open (x : S) : Prop := s.Alive x ∧ (s.sockets x).tag = true

instance (x : S) : Decidable (s.Open x) := by unfold Open; infer_instance

def sendCommand (src dst : S) (cmd : InprocCmd Q) : Except InprocFault (Inproc S N Q) :=
  if s.Alive dst then .ok { s with flight := s.flight ++ [⟨src, dst, cmd⟩] } else .error .useAfterFree

variable [DecidableEq S] [DecidableEq N] [DecidableEq Q] (s : Inproc S N Q)

def setSocket (x : S) (o : SocketT) : Inproc S N Q :=
  { s with sockets := update s.sockets x o }

def incSeqnum (x : S) : Except InprocFault (Inproc S N Q) :=
  if s.Alive x then
    .ok { s with
      sockets := update s.sockets x { s.sockets x with sentSeqnum := (s.sockets x).sentSeqnum + 1 }
      incs := update s.incs x (s.incs x + 1) }
  else .error .useAfterFree

/-! Termination, as of `own_t`. -/

def checkTermAcks (x : S) : Inproc S N Q :=
  if (s.sockets x).terminating ∧ (s.sockets x).processedSeqnum = (s.sockets x).sentSeqnum.toUInt64 ∧
      (s.sockets x).termAcks = 0 then
    { s with destroyed := update s.destroyed x true }
  else s

def processSeqnum (x : S) : Inproc S N Q :=
  checkTermAcks { s with
    sockets := update s.sockets x { s.sockets x with processedSeqnum := (s.sockets x).processedSeqnum + 1 }
    handled := update s.handled x (s.handled x + 1) } x

def unregisterTermAck (x : S) : Except InprocFault (Inproc S N Q) :=
  if (s.sockets x).termAcks ≤ 0 then .error .assertion
  else .ok ((s.setSocket x { s.sockets x with termAcks := (s.sockets x).termAcks - 1 }).checkTermAcks x)

def attachPipe (x : S) : Inproc S N Q :=
  let s := s.setSocket x { s.sockets x with pipes := (s.sockets x).pipes + 1 }
  if (s.sockets x).terminating then s.setSocket x { s.sockets x with termAcks := (s.sockets x).termAcks + 1 } else s

def processBind (x : S) (pipe : Q) : Inproc S N Q :=
  { s.attachPipe x with
    attached := update s.attached pipe (s.attached pipe ++ [x])
    stage := update s.stage pipe (.attached x) }

def process (x : S) (cmd : InprocCmd Q) : Except InprocFault (Inproc S N Q) :=
  if ¬ s.Alive x then .error .useAfterFree
  else match cmd with
    | .bind pipe => .ok ((s.processBind x pipe).processSeqnum x)
    | .inprocConnected => .ok (s.processSeqnum x)

def sendBind (src dst : S) (pipe : Q) (incSeqnum : Bool) : Except InprocFault (Inproc S N Q) := do
  let s ← if incSeqnum then s.incSeqnum dst else .ok s
  let s ← s.sendCommand src dst (.bind pipe)
  return { s with stage := update s.stage pipe (.sent dst) }

/-- If the name is taken, this fails with `EADDRINUSE`. -/
def registerEndpoint (addr : N) (endpoint : EndpointT S) : Option (Inproc S N Q) :=
  match s.endpoints addr with
  | some _ => none
  | none => some { s with endpoints := update s.endpoints addr (some endpoint) }

def unregisterEndpoint (addr : N) (x : S) : Inproc S N Q :=
  if (s.endpoints addr).map (·.socket) = some x then
    { s with endpoints := update s.endpoints addr none }
  else s

def unregisterEndpoints (x : S) : Inproc S N Q :=
  { s with endpoints := fun addr => if (s.endpoints addr).map (·.socket) = some x then none else s.endpoints addr }

def findEndpoint (addr : N) : Except InprocFault (Option (EndpointT S) × Inproc S N Q) :=
  match s.endpoints addr with
  | none => .ok (none, s)
  | some endpoint => do
    let s ← s.incSeqnum endpoint.socket
    return (some endpoint, s)

/-- The identity that the pipe carries is dropped, unless the socket that binds is to have it. -/
def dropIdentity (bindOptions : InprocOptions) (pipe : Q) : Except InprocFault (Inproc S N Q) :=
  if bindOptions.recvIdentity then .ok s
  else match s.toBind pipe with
    | [] => .error .assertion
    | _ :: rest => .ok { s with toBind := update s.toBind pipe rest }

/-- The socket that connects is sent the identity of the other one, if it is to have it and is not closed. -/
def sendIdentity (bindOptions : InprocOptions) (p : PendingConnectionT S N Q) :
    Except InprocFault (Inproc S N Q) :=
  if p.endpoint.options.recvIdentity then
    if ¬ s.Alive p.endpoint.socket then .error .useAfterFree
    else if (s.sockets p.endpoint.socket).tag then
      .ok { s with toConnect := update s.toConnect p.pipe (s.toConnect p.pipe ++ [bindOptions.identity]) }
    else .ok s
  else .ok s

def connectInprocSockets (bindSocket : S) (bindOptions : InprocOptions)
    (p : PendingConnectionT S N Q) (side : InprocSide) : Except InprocFault (Inproc S N Q) := do
  let s ← s.incSeqnum bindSocket
  let s ← s.dropIdentity bindOptions p.pipe
  let s ← match side with
    | .bindSide => do
      let s ← s.process bindSocket (.bind p.pipe)
      s.sendCommand bindSocket p.endpoint.socket .inprocConnected
    | .connectSide => s.sendBind p.endpoint.socket bindSocket p.pipe false
  s.sendIdentity bindOptions p

def pendConnection (p : PendingConnectionT S N Q) : Except InprocFault (Inproc S N Q) :=
  match s.endpoints p.addr with
  | none => do
    let s ← s.incSeqnum p.endpoint.socket
    return { s with
      pendingConnections := s.pendingConnections ++ [p]
      stage := update s.stage p.pipe .pending }
  | some endpoint => s.connectInprocSockets endpoint.socket endpoint.options p .connectSide

def connectEach (addr : N) (bindSocket : S) : List (PendingConnectionT S N Q) → Inproc S N Q → Except InprocFault (Inproc S N Q)
  | [], s => .ok s
  | p :: rest, s =>
    match s.endpoints addr with
    -- the name has just been registered
    | none => .error .assertion
    | some endpoint => do
      let s ← s.connectInprocSockets bindSocket endpoint.options p .bindSide
      connectEach addr bindSocket rest s

def connectPending (addr : N) (bindSocket : S) : Except InprocFault (Inproc S N Q) := do
  let s ← connectEach addr bindSocket (s.pendingConnections.filter fun p => p.addr = addr) s
  return { s with pendingConnections := s.pendingConnections.filter fun p => p.addr ≠ addr }

/-- The first half of `connect`. -/
def find (x : S) (addr : N) (pipe : Q) : Except InprocFault (Inproc S N Q) := do
  let (peer, s) ← s.findEndpoint addr
  let s := { s with made := update s.made pipe (some (x, addr)) }
  match peer with
  | none => return { s with
      calls := update s.calls x (some (.lost addr pipe))
      stage := update s.stage pipe .lost }
  | some peer => return { s with
      calls := update s.calls x (some (.found pipe peer))
      stage := update s.stage pipe (.found peer.socket)
      finders := update s.finders peer.socket (insert x (s.finders peer.socket)) }

/-- The second half: the identities are exchanged, and the pipe is attached. -/
def join (x : S) : Except InprocFault (Inproc S N Q) :=
  match s.calls x with
  | some (.lost addr pipe) => do
    let s := { s with
      toBind := update s.toBind pipe [(s.sockets x).options.identity]
      toConnect := update s.toConnect pipe [] }
    let s ← s.pendConnection ⟨addr, ⟨x, (s.sockets x).options⟩, pipe⟩
    return { s.attachPipe x with calls := update s.calls x none }
  | some (.found pipe peer) => do
    let s := { s with
      toBind := update s.toBind pipe (if peer.options.recvIdentity then [(s.sockets x).options.identity] else [])
      toConnect := update s.toConnect pipe
        (if (s.sockets x).options.recvIdentity then [peer.options.identity] else []) }
    let s ← s.sendBind x peer.socket pipe false
    return { s.attachPipe x with
      calls := update s.calls x none
      finders := update s.finders peer.socket ((s.finders peer.socket).erase x) }
  | _ => .ok s

/-- The first half of `bind`. -/
def register (x : S) (addr : N) : Inproc S N Q :=
  match s.registerEndpoint addr ⟨x, (s.sockets x).options⟩ with
  | none => s
  | some s => { s with calls := update s.calls x (some (.binding addr)) }

/-- The second half. -/
def bound (x : S) : Except InprocFault (Inproc S N Q) :=
  match s.calls x with
  | some (.binding addr) => do
    let s ← s.connectPending addr x
    return { s with calls := update s.calls x none }
  | _ => .ok s

/-- `process_term`, in the reaper thread -/
def processTerm (x : S) : Inproc S N Q :=
  let s := s.unregisterEndpoints x
  (s.setSocket x { s.sockets x with
    termAcks := (s.sockets x).termAcks + (s.sockets x).pipes, terminating := true }).checkTermAcks x

def pipeTerminated (x : S) : Except InprocFault (Inproc S N Q) :=
  let s := s.setSocket x { s.sockets x with pipes := (s.sockets x).pipes - 1 }
  if (s.sockets x).terminating then s.unregisterTermAck x else .ok s

inductive Op (S : Type u) (N : Type v) (Q : Type w) where
  | create (x : S) (options : InprocOptions)
  | setOptions (x : S) (options : InprocOptions)
  /-- `connect`, up to what `find_endpoint` returns -/
  | find (x : S) (addr : N) (pipe : Q)
  | join (x : S)
  /-- `bind`, up to what `register_endpoint` returns -/
  | register (x : S) (addr : N)
  | bound (x : S)
  | unregister (x : S) (addr : N)
  | close (x : S)
  | reap (x : S)
  /-- one of the socket's pipes has terminated -/
  | pipeTerminated (x : S)
  | deliver (x y : S)

/-- A socket is used by one thread at a time, and not once it is closed; each connect makes a new pipe. -/
def Ready : Op S N Q → Prop
  | .create x _ => s.created x = false
  | .setOptions x _ | .register x _ | .unregister x _ | .close x => s.Open x ∧ s.calls x = none
  | .find x _ pipe => s.Open x ∧ s.calls x = none ∧ s.made pipe = none
  | .join x | .bound x => s.calls x ≠ none
  | .reap x => s.Alive x ∧ (s.sockets x).tag = false ∧ (s.sockets x).terminating = false
  | .pipeTerminated x => s.Alive x ∧ 0 < (s.sockets x).pipes
  | .deliver x y => (Packet.next x y s.flight).isSome

instance (op : Op S N Q) : Decidable (s.Ready op) := by
  cases op <;> unfold Ready <;> infer_instance

def run : Op S N Q → Except InprocFault (Inproc S N Q)
  | .create x options => .ok { s with
      sockets := update s.sockets x ⟨options, true, 0, 0, false, 0, 0⟩
      created := update s.created x true }
  | .setOptions x options => .ok (s.setSocket x { s.sockets x with options := options })
  | .find x addr pipe => s.find x addr pipe
  | .join x => s.join x
  | .register x addr => .ok (s.register x addr)
  | .bound x => s.bound x
  | .unregister x addr => .ok (s.unregisterEndpoint addr x)
  | .close x => .ok (s.setSocket x { s.sockets x with tag := false })
  | .reap x => .ok (s.processTerm x)
  | .pipeTerminated x => s.pipeTerminated x
  | .deliver x y =>
    match Packet.next x y s.flight with
    | none => .ok s
    | some m => process { s with flight := Packet.rest x y s.flight } m.dst m.cmd

omit [DecidableEq S] [DecidableEq N] [DecidableEq Q] in
def Start : Prop := s = empty

abbrev Step : Inproc S N Q → Op S N Q → Inproc S N Q → Prop := Does Ready run

end Inproc

end Zmq
