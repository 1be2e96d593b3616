import LibZmq.Pipe.Model

/-! The pipe between a socket and a session: its two ends, the commands between them and the queues of both directions,
without water marks and addresses. Whether there is room for a message is for each write to say. -/

namespace Zmq

universe u

structure EndT where
  inActive : Bool
  outpipe : Bool
  state : PipeState
  delay : Bool

inductive EndCmd where
  | activateRead | hiccup | pipeTerm | pipeTermAck
deriving DecidableEq

/-- What a method of an end reads and changes. The delimiter is `none`. -/
structure EndView (F : Type u) where
  conflate : Bool
  self : EndT
  inpipe : Staged (Option F)
  outpipe : Staged (Option F)
  sent : List EndCmd

namespace EndT

def new : EndT := ⟨true, true, .active, true⟩

def readable (p : EndT) : Bool := p.state == .active || p.state == .waitingForDelimiter

end EndT

namespace EndView

variable {F : Type u}

def send (x : EndView F) (c : EndCmd) : EndView F := { x with sent := x.sent ++ [c] }

def acknowledge (x : EndView F) (state : PipeState) : EndView F :=
  { x with self := { x.self with outpipe := false, state := state } }.send .pipeTermAck

def processDelimiter (x : EndView F) : Except Fault (EndView F) :=
  if x.self.state = .active then .ok { x with self := { x.self with state := .delimiterReceived } }
  else if x.self.state = .waitingForDelimiter then .ok (x.acknowledge .termAckSent)
  else .error .assertion

def read (x : EndView F) : Except Fault (Option F × EndView F) :=
  if !x.self.inActive || !x.self.readable then .ok (none, x)
  else
    match x.inpipe.read with
    | (none, q) => .ok (none, { x with inpipe := q, self := { x.self with inActive := false } })
    | (some none, q) => do return (none, ← processDelimiter { x with inpipe := q })
    | (some (some f), q) => .ok (some f, { x with inpipe := q })

def checkRead (x : EndView F) : Except Fault (EndView F) :=
  if !x.self.inActive || !x.self.readable then .ok x
  else
    match x.inpipe.ready with
    | [] => .ok { x with inpipe := x.inpipe.checkRead.2, self := { x.self with inActive := false } }
    | none :: _ => processDelimiter { x with inpipe := x.inpipe.read.2 }
    | some _ :: _ => .ok x

/-- A conflating pipe keeps the last frame that has been written, which can be read at once. -/
def put (x : EndView F) (f : Option F) (incomplete : Bool) : EndView F :=
  { x with outpipe := if x.conflate then { x.outpipe with ready := [f] } else x.outpipe.write f incomplete }

variable (more : F → Bool) (x : EndView F)

def write (f : F) (room : Bool) : Bool × EndView F :=
  if x.self.state = .active ∧ room then (true, x.put (some f) (more f)) else (false, x)

/-- Frames that are taken back have been waiting for the rest of their message. -/
def rollback : Except Fault (EndView F) :=
  if !x.self.outpipe then .ok x
  else if x.outpipe.unfinished.all fun f => f.any more then .ok { x with outpipe := { x.outpipe with unfinished := [] } }
  else .error .assertion

def flush (x : EndView F) : EndView F :=
  if x.self.state = .termAckSent ∨ x.self.outpipe = false then x
  else
    let (awake, q) := if x.conflate then (false, x.outpipe) else x.outpipe.flush
    let x := { x with outpipe := q }
    if awake then x else x.send .activateRead

def stopOutbound : Except Fault (EndView F) :=
  if !x.self.outpipe then .ok x
  else do
    let x ← x.rollback more
    return (x.put none false).flush

def terminate (delay : Bool) : Except Fault (EndView F) :=
  let x := { x with self := { x.self with delay := delay } }
  match x.self.state with
  | .termReqSent1 | .termReqSent2 | .termAckSent => .ok x
  | .active | .delimiterReceived =>
    stopOutbound more ({ x with self := { x.self with state := .termReqSent1 } }.send .pipeTerm)
  | .waitingForDelimiter => if !delay then stopOutbound more (x.acknowledge .termAckSent) else stopOutbound more x

def processActivateRead : Bool × EndView F :=
  if !x.self.inActive && x.self.readable then (true, { x with self := { x.self with inActive := true } }) else (false, x)

def processPipeTerm : Except Fault (EndView F) :=
  match x.self.state with
  | .active =>
    if x.self.delay then .ok { x with self := { x.self with state := .waitingForDelimiter } }
    else .ok (x.acknowledge .termAckSent)
  | .delimiterReceived => .ok (x.acknowledge .termAckSent)
  | .termReqSent1 => .ok (x.acknowledge .termReqSent2)
  | _ => .error .assertion

/-- The end is deallocated when this returns. -/
def processPipeTermAck : Except Fault (EndView F) :=
  match x.self.state with
  | .termReqSent1 => .ok (x.acknowledge .termReqSent1)
  | .termAckSent | .termReqSent2 => .ok x
  | _ => .error .assertion

end EndView

structure SessionPipe (F : Type u) where
  conflate : Bool
  session : EndT
  socket : Option EndT
  inpipe : Staged (Option F)
  /-- that the session has dropped in a hiccup and the socket has not, oldest first; the socket writes to the oldest -/
  dropped : List (Staged (Option F))
  outpipe : Staged (Option F)
  toSession : List EndCmd
  toSocket : List EndCmd

namespace SessionPipe

variable {F : Type u}

def new (conflate : Bool) : SessionPipe F := ⟨conflate, .new, some .new, .empty, [], .empty, [], []⟩

variable (l : SessionPipe F)

def sessionView : EndView F := ⟨l.conflate, l.session, l.inpipe, l.outpipe, []⟩

def putSession (x : EndView F) : SessionPipe F :=
  { l with session := x.self, inpipe := x.inpipe, outpipe := x.outpipe, toSocket := l.toSocket ++ x.sent }

def socketView (p : EndT) : EndView F := ⟨l.conflate, p, l.outpipe, l.dropped.headD l.inpipe, []⟩

def putSocket (x : EndView F) : SessionPipe F :=
  let l := { l with socket := some x.self, outpipe := x.inpipe, toSession := l.toSession ++ x.sent }
  match l.dropped with
  | [] => { l with inpipe := x.outpipe }
  | _ :: rest => { l with dropped := x.outpipe :: rest }

def hiccup : SessionPipe F :=
  if l.session.state ≠ .active then l
  else { l with
    session := { l.session with inActive := true }
    inpipe := .empty
    dropped := l.dropped ++ [l.inpipe]
    toSocket := l.toSocket ++ [.hiccup] }

/-- `process_hiccup` of the socket's end; what it has not flushed is lost with the rest of the old queue. -/
def processHiccup (p : EndT) : Except Fault (SessionPipe F) :=
  if !p.outpipe then .error .assertion
  else
    match l.dropped with
    | [] => .error .useAfterFree
    | _ :: rest => .ok { l with dropped := rest }

def deliverSocket : Except Fault (SessionPipe F) :=
  match l.socket, l.toSocket with
  | some p, c :: rest =>
    let l := { l with toSocket := rest }
    match c with
    | .activateRead => .ok (l.putSocket (l.socketView p).processActivateRead.2)
    | .hiccup => l.processHiccup p
    | .pipeTerm => return l.putSocket (← (l.socketView p).processPipeTerm)
    | .pipeTermAck => return { l.putSocket (← (l.socketView p).processPipeTermAck) with socket := none }
  | _, _ => .ok l

end SessionPipe

end Zmq
