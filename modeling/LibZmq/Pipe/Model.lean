import LibZmq.Pipe.Upipe

/-! `pipe_t` and the pair of ends that `pipepair` makes. A method works on its
own end, on the heap of ypipes and on the commands it sends; one call, or the
handling of one command, is one step of the pair. The pair is not conflating. -/

namespace Zmq

inductive PipeState where
  | active
  | delimiterReceived
  | waitingForDelimiter
  | termAckSent
  | termReqSent1
  | termReqSent2
deriving DecidableEq

/-- Pointers to ypipes are heap addresses, NULL being `none`. -/
structure PipeT where
  inpipe : Option ℕ
  outpipe : Option ℕ
  inActive : Bool
  outActive : Bool
  hwm : Int32
  lwm : Int32
  inhwmboost : Int32
  outhwmboost : Int32
  msgsRead : UInt64
  msgsWritten : UInt64
  peersMsgsRead : UInt64
  /-- an event sink has been set -/
  sink : Bool
  state : PipeState
  delay : Bool
  credential : List UInt8
deriving DecidableEq

inductive Cmd where
  | activateRead
  | activateWrite (msgsRead : UInt64)
  | hiccup (pipe : ℕ)
  | pipeTerm
  | pipeTermAck
deriving DecidableEq

/-- The calls a pipe makes on its event sink. -/
inductive SinkEvent where
  | readActivated | writeActivated | hiccuped | pipeTerminated

inductive Fault where
  | assertion
  | nullDereference
  /-- a deallocated ypipe or pipe is accessed, or deallocated again -/
  | useAfterFree
deriving DecidableEq

/-- The ypipes that have been allocated; a deleted one is `none`. -/
structure Heap where
  cells : ℕ → Option Upipe
  next : ℕ

namespace Heap

def get (h : Heap) : Option ℕ → Except Fault Upipe
  | none => .error .nullDereference
  | some i => match h.cells i with
    | none => .error .useAfterFree
    | some q => .ok q

def set (h : Heap) (p : Option ℕ) (q : Upipe) : Heap :=
  match p with
  | none => h
  | some i => { h with cells := Function.update h.cells i (some q) }

/-- `LIBZMQ_DELETE` -/
def delete (h : Heap) (p : Option ℕ) : Heap :=
  match p with
  | none => h
  | some i => { h with cells := Function.update h.cells i none }

def alloc (h : Heap) : Heap :=
  ⟨Function.update h.cells h.next (some Upipe.new), h.next + 1⟩

end Heap

/-- What a method of one end reads and changes. -/
structure Ctx where
  self : PipeT
  heap : Heap
  sent : List Cmd
  events : List SinkEvent

namespace Ctx

def inpipe (x : Ctx) : Except Fault Upipe := x.heap.get x.self.inpipe

def outpipe (x : Ctx) : Except Fault Upipe := x.heap.get x.self.outpipe

def setInpipe (x : Ctx) (q : Upipe) : Ctx := { x with heap := x.heap.set x.self.inpipe q }

def setOutpipe (x : Ctx) (q : Upipe) : Ctx := { x with heap := x.heap.set x.self.outpipe q }

def update (x : Ctx) (f : PipeT → PipeT) : Ctx := { x with self := f x.self }

def send (x : Ctx) (c : Cmd) : Ctx := { x with sent := x.sent ++ [c] }

def notify (x : Ctx) (e : SinkEvent) : Except Fault Ctx :=
  if x.self.sink then .ok { x with events := x.events ++ [e] } else .error .nullDereference

end Ctx

namespace PipeT

def computeLwm (hwm : Int32) : Int32 := (hwm + 1) / 2

def new (inpipe outpipe : ℕ) (inhwm outhwm : Int32) : PipeT where
  inpipe := some inpipe
  outpipe := some outpipe
  inActive := true
  outActive := true
  hwm := outhwm
  lwm := computeLwm inhwm
  inhwmboost := 0
  outhwmboost := 0
  msgsRead := 0
  msgsWritten := 0
  peersMsgsRead := 0
  sink := false
  state := .active
  delay := true
  credential := []

/-- The conversion of an `int` to `uint64_t`. -/
def toU64 (n : Int32) : UInt64 := n.toInt64.toUInt64

def checkHwm (p : PipeT) : Bool :=
  let full := p.hwm > 0 ∧ p.msgsWritten - p.peersMsgsRead ≥ toU64 p.hwm
  !decide full

def setHwms (p : PipeT) (inhwm outhwm : Int32) : PipeT :=
  let in' := if inhwm ≤ 0 ∨ p.inhwmboost ≤ 0 then 0 else inhwm + p.inhwmboost
  let out := if outhwm ≤ 0 ∨ p.outhwmboost ≤ 0 then 0 else outhwm + p.outhwmboost
  { p with lwm := computeLwm in', hwm := out }

def setHwmsBoost (p : PipeT) (inhwmboost outhwmboost : Int32) : PipeT :=
  { p with inhwmboost := inhwmboost, outhwmboost := outhwmboost }

def readable (p : PipeT) : Bool :=
  p.state == .active || p.state == .waitingForDelimiter

/-- `!(flags () & more) && !is_identity ()`, the frames that are counted. -/
def counted (m : Msg) : Bool := !m.hasMore && !m.isIdentity

variable (x : Ctx)

def acknowledge (state : PipeState) : Ctx :=
  (x.update fun p => { p with outpipe := none, state := state }).send .pipeTermAck

def processDelimiter : Except Fault Ctx :=
  if x.self.state = .active then .ok (x.update fun p => { p with state := .delimiterReceived })
  else if x.self.state = .waitingForDelimiter then .ok (acknowledge x .termAckSent)
  else .error .assertion

def checkRead : Except Fault (Bool × Ctx) :=
  if !x.self.inActive then .ok (false, x)
  else if !x.self.readable then .ok (false, x)
  else do
    let (rc, q) := (← x.inpipe).checkRead
    let x := x.setInpipe q
    if !rc then return (false, x.update fun p => { p with inActive := false })
    match q.probe Msg.isDelimiter with
    | (none, _) => throw .assertion
    | (some false, q) => return (true, x.setInpipe q)
    | (some true, q) =>
      match q.read with
      | (none, _) => throw .assertion
      | (some _, q) => return (false, ← processDelimiter (x.setInpipe q))

/-- The end of `read`: count the frame, and report progress at multiples of `lwm`. -/
def countRead (m : Msg) : Ctx :=
  let x := x.update fun p => { p with msgsRead := if counted m then p.msgsRead + 1 else p.msgsRead }
  if x.self.lwm > 0 ∧ x.self.msgsRead % toU64 x.self.lwm = 0 then
    x.send (.activateWrite x.self.msgsRead)
  else x

def read : Except Fault (Option Msg × Ctx) :=
  if !x.self.inActive then .ok (none, x)
  else if !x.self.readable then .ok (none, x)
  else do
    let q ← x.inpipe
    let (msg, q, credential) := Upipe.readMessage (q.size + 1) q x.self.credential
    let x := (x.setInpipe q).update fun p => { p with credential := credential }
    match msg with
    | none => return (none, x.update fun p => { p with inActive := false })
    | some m =>
      if m.isDelimiter then return (none, ← processDelimiter x)
      return (some m, countRead x m)

def checkWrite (p : PipeT) : Bool × PipeT :=
  if !p.outActive ∨ p.state ≠ .active then (false, p)
  else if !p.checkHwm then (false, { p with outActive := false })
  else (true, p)

def write (m : Msg) : Except Fault (Bool × Ctx) :=
  let (rc, self) := x.self.checkWrite
  let x := { x with self := self }
  if !rc then .ok (false, x)
  else do
    let x := x.setOutpipe ((← x.outpipe).write m m.hasMore)
    return (true, x.update fun p =>
      { p with msgsWritten := if counted m then p.msgsWritten + 1 else p.msgsWritten })

def rollback : Except Fault Ctx :=
  if x.self.outpipe = none then .ok x
  else do
    let q ← x.outpipe
    match Upipe.unwriteAll q.size q with
    | none => throw .assertion
    | some q => return x.setOutpipe q

def flush : Except Fault Ctx :=
  if x.self.state = .termAckSent then .ok x
  else if x.self.outpipe = none then .ok x
  else do
    let (rc, q) := (← x.outpipe).flush
    let x := x.setOutpipe q
    if !rc then return x.send .activateRead
    return x

def processActivateRead : Except Fault Ctx :=
  if !x.self.inActive && x.self.readable then
    (x.update fun p => { p with inActive := true }).notify .readActivated
  else .ok x

def processActivateWrite (msgsRead : UInt64) : Except Fault Ctx :=
  let x := x.update fun p => { p with peersMsgsRead := msgsRead }
  if !x.self.outActive && x.self.state == .active then
    (x.update fun p => { p with outActive := true }).notify .writeActivated
  else .ok x

/-- The command carries a pointer that is not NULL, so its assertion holds. -/
def processHiccup (pipe : ℕ) : Except Fault Ctx :=
  if x.self.outpipe = none then .error .assertion
  else do
    let (_, q) := (← x.outpipe).flush
    let msgsWritten := Upipe.drain q.size q x.self.msgsWritten
    let x := { x with heap := x.heap.delete x.self.outpipe }
    let x := x.update fun p =>
      { p with outpipe := some pipe, outActive := true, msgsWritten := msgsWritten }
    if x.self.state = .active then x.notify .hiccuped else return x

def processPipeTerm : Except Fault Ctx :=
  match x.self.state with
  | .active =>
    if x.self.delay then .ok (x.update fun p => { p with state := .waitingForDelimiter })
    else .ok (acknowledge x .termAckSent)
  | .delimiterReceived => .ok (acknowledge x .termAckSent)
  | .termReqSent1 => .ok (acknowledge x .termReqSent2)
  | _ => .error .assertion

/-- The end is deallocated when this returns. Deleting the ypipe closes the
messages left in it. -/
def processPipeTermAck : Except Fault Ctx := do
  let x ← if x.self.sink then x.notify .pipeTerminated else throw .assertion
  let x ← match x.self.state with
    | .termReqSent1 => pure (acknowledge x .termReqSent1)
    | .termAckSent | .termReqSent2 => pure x
    | _ => throw .assertion
  let _ ← x.inpipe
  return { x with heap := x.heap.delete x.self.inpipe }

def setNodelay (p : PipeT) : PipeT := { p with delay := false }

/-- The end of `terminate`: drop the unfinished message, write the delimiter. -/
def stopOutbound : Except Fault Ctx :=
  let x := x.update fun p => { p with outActive := false }
  if x.self.outpipe = none then .ok x
  else do
    let x ← rollback x
    let x := x.setOutpipe ((← x.outpipe).write Msg.initDelimiter false)
    flush x

/-- The six states are all there are, so the last `zmq_assert (false)` is not reached. -/
def terminate (delay : Bool) : Except Fault Ctx :=
  let x := x.update fun p => { p with delay := delay }
  match x.self.state with
  | .termReqSent1 | .termReqSent2 => .ok x
  | .termAckSent => .ok x
  | .active | .delimiterReceived =>
    stopOutbound ((x.send .pipeTerm).update fun p => { p with state := .termReqSent1 })
  | .waitingForDelimiter =>
    if !delay then stopOutbound (acknowledge x .termAckSent) else stopOutbound x

def hiccup : Except Fault Ctx :=
  if x.self.state ≠ .active then .ok x
  else
    let pipe := x.heap.next
    let x := { x with heap := x.heap.alloc }
    let x := x.update fun p => { p with inpipe := some pipe, inActive := true }
    .ok (x.send (.hiccup pipe))

end PipeT

end Zmq
