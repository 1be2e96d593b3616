import LibZmq.Flight
import LibZmq.Run

/-! `own_t`: objects that live in several threads and own each other. An object is deallocated when it has been
told to terminate, its children have terminated and it has processed all commands that it was to wait for. -/

namespace Zmq

open Function (update)

universe u

inductive OwnCmd (O : Type u) where
  | plug
  | own (object : O)
  | attach
  | termReq (object : O)
  | term
  | termAck
deriving DecidableEq

/-- `owned` is a set without an order of its own. -/
structure OwnT (O : Type u) where
  terminating : Bool
  sentSeqnum : UInt32
  processedSeqnum : UInt64
  owner : Option O
  owned : List O
  termAcks : ℤ

inductive OwnFault where
  | assertion
  /-- an object that has been deallocated is accessed -/
  | useAfterFree
  /-- `term_acks`, which is an `int`, overflows -/
  | overflow

/-- Where an object is in its life, as seen by its owner. An object without an owner is `free` until it terminates. -/
inductive OwnPhase where
  | unborn | free
  /-- the owner has not processed `own` yet -/
  | owning
  | owned
  /-- the owner has sent `term` -/
  | termed
  | terminating
  /-- deallocated, the owner has not processed `term_ack` yet -/
  | acked
  | done
deriving DecidableEq

/-- The objects, the commands in flight, and what has become of the objects. -/
structure Tree (O : Type u) where
  objs : O → OwnT O
  flight : List (Packet O (OwnCmd O))
  created : O → Bool
  /-- how often the object has been deallocated -/
  deletions : O → ℕ
  /-- how many `term` commands have been sent to the object -/
  terms : O → ℕ
  phase : O → OwnPhase
  /-- the children that have been sent `term` and whose `term_ack` has not been processed -/
  awaited : O → Finset O
  /-- the other events that the object waits for -/
  waits : O → ℕ

namespace OwnT

variable {O : Type u}

def new : OwnT O := ⟨false, 0, 0, none, [], 0⟩

end OwnT

namespace Tree

variable {O : Type u}

def empty : Tree O :=
  ⟨fun _ => .new, [], fun _ => false, fun _ => 0, fun _ => 0, fun _ => .unborn, fun _ => ∅, fun _ => 0⟩

def Alive (s : Tree O) (x : O) : Prop := s.created x = true ∧ s.deletions x = 0

instance (s : Tree O) (x : O) : Decidable (s.Alive x) := by unfold Alive; infer_instance

def send (s : Tree O) (src dst : O) (cmd : OwnCmd O) : Except OwnFault (Tree O) :=
  if s.Alive dst then .ok { s with flight := s.flight ++ [⟨src, dst, cmd⟩] } else .error .useAfterFree

variable [DecidableEq O] (s : Tree O)

def setObj (x : O) (o : OwnT O) : Tree O := { s with objs := update s.objs x o }

def setPhase (x : O) (phase : OwnPhase) : Tree O := { s with phase := update s.phase x phase }

/-- Called from any thread. -/
def incSeqnum (x : O) : Except OwnFault (Tree O) :=
  if s.Alive x then .ok (s.setObj x { s.objs x with sentSeqnum := (s.objs x).sentSeqnum + 1 }) else .error .useAfterFree

/-- `process_destroy` -/
def destroy (x : O) : Except OwnFault (Tree O) :=
  if s.Alive x then
    .ok { s with
      deletions := update s.deletions x (s.deletions x + 1)
      phase := update s.phase x (if (s.objs x).owner = none then .done else .acked) }
  else .error .useAfterFree

def confirm (x : O) : Except OwnFault (Tree O) :=
  match (s.objs x).owner with
  | some owner => s.send x owner .termAck
  | none => .ok s

def checkTermAcks (x : O) : Except OwnFault (Tree O) :=
  if (s.objs x).terminating ∧ (s.objs x).processedSeqnum = (s.objs x).sentSeqnum.toUInt64 ∧ (s.objs x).termAcks = 0 then
    if (s.objs x).owned ≠ [] then .error .assertion
    else do
      let s ← s.confirm x
      s.destroy x
  else .ok s

def registerTermAcks (x : O) (count : ℕ) : Except OwnFault (Tree O) :=
  if (s.objs x).termAcks + count < 2 ^ 31 then
    .ok (s.setObj x { s.objs x with termAcks := (s.objs x).termAcks + count })
  else .error .overflow

def unregisterTermAck (x : O) : Except OwnFault (Tree O) :=
  if (s.objs x).termAcks ≤ 0 then .error .assertion
  else (s.setObj x { s.objs x with termAcks := (s.objs x).termAcks - 1 }).checkTermAcks x

def processSeqnum (x : O) : Except OwnFault (Tree O) :=
  (s.setObj x { s.objs x with processedSeqnum := (s.objs x).processedSeqnum + 1 }).checkTermAcks x

def sendTerm (x child : O) : Except OwnFault (Tree O) := do
  let s ← s.send x child .term
  return { s with
    terms := update s.terms child (s.terms child + 1)
    phase := update s.phase child .termed
    awaited := update s.awaited x (insert child (s.awaited x)) }

def sendTerms (x : O) : List O → Tree O → Except OwnFault (Tree O)
  | [], s => .ok s
  | child :: rest, s => do
    let s ← s.sendTerm x child
    sendTerms x rest s

def processTermReq (x object : O) : Except OwnFault (Tree O) :=
  if (s.objs x).terminating then .ok s
  else if object ∉ (s.objs x).owned then .ok s
  else do
    let s := s.setObj x { s.objs x with owned := (s.objs x).owned.erase object }
    let s ← s.registerTermAcks x 1
    s.sendTerm x object

def termChild (x object : O) : Except OwnFault (Tree O) := s.processTermReq x object

def processOwn (x object : O) : Except OwnFault (Tree O) :=
  if (s.objs x).terminating then do
    let s ← s.registerTermAcks x 1
    s.sendTerm x object
  else .ok ((s.setObj x { s.objs x with owned := (s.objs x).owned.insert object }).setPhase object .owned)

def processTerm (x : O) : Except OwnFault (Tree O) :=
  if (s.objs x).terminating then .error .assertion
  else do
    let s ← sendTerms x (s.objs x).owned s
    let s ← s.registerTermAcks x (s.objs x).owned.length
    let s := (s.setObj x { s.objs x with owned := [], terminating := true }).setPhase x .terminating
    s.checkTermAcks x

def terminate (x : O) : Except OwnFault (Tree O) :=
  if (s.objs x).terminating then .ok s
  else match (s.objs x).owner with
    | none => s.processTerm x
    | some owner => s.send x owner (.termReq x)

def create (x : O) (phase : OwnPhase) : Tree O :=
  { s with
    objs := update s.objs x .new
    created := update s.created x true
    phase := update s.phase x phase }

def setOwner (x owner : O) : Except OwnFault (Tree O) :=
  if (s.objs x).owner ≠ none then .error .assertion else .ok (s.setObj x { s.objs x with owner := some owner })

/-- A command with a sequence number. -/
def sendSeq (src dst : O) (cmd : OwnCmd O) : Except OwnFault (Tree O) := do
  let s ← s.incSeqnum dst
  s.send src dst cmd

/-- The child is new. With `attach`, it is to wait for a command that is sent after it has been launched. -/
def launchChild (x child : O) (attach : Bool) : Except OwnFault (Tree O) := do
  let s := s.create child .owning
  let s ← if attach then s.incSeqnum child else .ok s
  let s ← s.setOwner child x
  let s ← s.sendSeq x child .plug
  let s ← s.sendSeq x x (.own child)
  if attach then s.send x child .attach else .ok s

/-- `process_term_ack`, of a child -/
def processTermAck (x child : O) : Except OwnFault (Tree O) :=
  unregisterTermAck { s with
    phase := update s.phase child .done
    awaited := update s.awaited x ((s.awaited x).erase child) } x

def process (m : Packet O (OwnCmd O)) : Except OwnFault (Tree O) :=
  if ¬ s.Alive m.dst then .error .useAfterFree
  else match m.cmd with
    | .plug | .attach => s.processSeqnum m.dst
    | .own object => do
      let s ← s.processOwn m.dst object
      s.processSeqnum m.dst
    | .termReq object => s.processTermReq m.dst object
    | .term => s.processTerm m.dst
    | .termAck => s.processTermAck m.dst m.src

/-! What objects and their threads do, in any order. -/

inductive Op (O : Type u) where
  | root (x : O)
  | launchChild (x child : O) (attach : Bool)
  | terminate (x : O)
  | termChild (x object : O)
  | attach (x owner : O)
  | wait (x : O) (count : ℕ)
  | event (x : O)
  | deliver (x y : O)

/-- Only objects that are there do something, and only new ones are launched. -/
def Ready : Op O → Prop
  | .root x => s.created x = false
  | .launchChild x child _ => s.Alive x ∧ s.created child = false
  | .terminate x | .termChild x _ | .wait x _ => s.Alive x
  | .attach x owner => s.Alive x ∧ (s.objs x).owner = some owner
  | .event x => 0 < s.waits x
  | .deliver x y => (Packet.next x y s.flight).isSome

instance (op : Op O) : Decidable (s.Ready op) := by
  cases op <;> unfold Ready <;> infer_instance

def run : Op O → Except OwnFault (Tree O)
  | .root x => .ok (s.create x .free)
  | .launchChild x child attach => s.launchChild x child attach
  | .terminate x => s.terminate x
  | .termChild x object => s.termChild x object
  | .attach x owner => s.sendSeq x owner .attach
  | .wait x count => do
    let s ← s.registerTermAcks x count
    return { s with waits := update s.waits x (s.waits x + count) }
  | .event x => unregisterTermAck { s with waits := update s.waits x (s.waits x - 1) } x
  | .deliver x y =>
    match Packet.next x y s.flight with
    | none => .ok s
    | some m => process { s with flight := Packet.rest x y s.flight } m

omit [DecidableEq O] in
def Start : Prop := s = empty

abbrev Step : Tree O → Op O → Tree O → Prop := Does Ready run

end Tree

end Zmq
