import LibZmq.Run
import LibZmq.Pipe.Model

/-! Two ends in two threads. A step is a call on one end or the delivery of the
oldest command sent to it; commands to one end arrive in the order sent. -/

namespace Zmq

inductive Side where
  | first | second
deriving DecidableEq

namespace Side

def peer : Side → Side
  | first => second
  | second => first

@[simp] theorem peer_peer (s : Side) : s.peer.peer = s := by cases s <;> rfl

@[simp] theorem peer_ne (s : Side) : s.peer ≠ s := by cases s <;> decide

@[simp] theorem ne_peer (s : Side) : s ≠ s.peer := by cases s <;> decide

theorem eq_or_eq_peer (s t : Side) : t = s ∨ t = s.peer := by cases s <;> cases t <;> decide

end Side

structure Pair where
  /-- a deallocated end is `none` -/
  ends : Side → Option PipeT
  /-- the commands sent to an end and not delivered yet, oldest first -/
  inbox : Side → List Cmd
  heap : Heap

namespace Pair

inductive Op where
  | checkRead
  | read
  | checkWrite
  | write (m : Msg)
  | rollback
  | flush
  | hiccup
  | setNodelay
  | terminate (delay : Bool)
  | setHwms (inhwm outhwm : Int32)
  | deliver
deriving DecidableEq

inductive Res where
  | unit
  | bool (rc : Bool)
  | msg (m : Option Msg)
deriving DecidableEq

open PipeT

def call (x : Ctx) : Op → Except Fault (Res × Ctx)
  | .checkRead => do let (rc, x) ← PipeT.checkRead x; return (.bool rc, x)
  | .read => do let (m, x) ← PipeT.read x; return (.msg m, x)
  | .checkWrite =>
    let (rc, self) := x.self.checkWrite
    .ok (.bool rc, { x with self := self })
  | .write m => do let (rc, x) ← PipeT.write x m; return (.bool rc, x)
  | .rollback => do return (.unit, ← PipeT.rollback x)
  | .flush => do return (.unit, ← PipeT.flush x)
  | .hiccup => do return (.unit, ← PipeT.hiccup x)
  | .setNodelay => .ok (.unit, { x with self := x.self.setNodelay })
  | .terminate delay => do return (.unit, ← PipeT.terminate x delay)
  | .setHwms inhwm outhwm => .ok (.unit, { x with self := x.self.setHwms inhwm outhwm })
  | .deliver => .ok (.unit, x)

/-- The handler of a command, and whether the end outlives it. -/
def process (x : Ctx) : Cmd → Except Fault (Bool × Ctx)
  | .activateRead => do return (true, ← processActivateRead x)
  | .activateWrite msgsRead => do return (true, ← processActivateWrite x msgsRead)
  | .hiccup pipe => do return (true, ← processHiccup x pipe)
  | .pipeTerm => do return (true, ← processPipeTerm x)
  | .pipeTermAck => do return (false, ← processPipeTermAck x)

/-- The pair after a method of end `s`, whose inbox now is `inbox`. A command to
a peer that has been deallocated is sent through a dangling pointer. -/
def commit (w : Pair) (s : Side) (inbox : List Cmd) (alive : Bool) (x : Ctx) : Except Fault Pair :=
  if w.ends s.peer = none ∧ x.sent ≠ [] then .error .useAfterFree
  else .ok {
    ends := Function.update w.ends s (if alive then some x.self else none)
    inbox := Function.update (Function.update w.inbox s inbox) s.peer (w.inbox s.peer ++ x.sent)
    heap := x.heap }

/-- A pipe is called only until it has told its sink that it terminated. -/
def Enabled (w : Pair) (s : Side) : Op → Prop
  | .deliver => w.inbox s ≠ []
  | .write m => w.ends s ≠ none ∧ m.isDelimiter = false
  | _ => w.ends s ≠ none

def step (w : Pair) (s : Side) (op : Op) : Except Fault (Res × Pair) :=
  match w.ends s with
  | none => .error .useAfterFree
  | some p =>
    match op, w.inbox s with
    | .deliver, [] => .ok (.unit, w)
    | .deliver, c :: rest => do
      let (alive, x) ← process ⟨p, w.heap, [], []⟩ c
      return (.unit, ← w.commit s rest alive x)
    | op, inbox => do
      let (rc, x) ← call ⟨p, w.heap, [], []⟩ op
      return (rc, ← w.commit s inbox true x)

/-- `pipepair` for two ends that do not conflate. -/
def pipepair (hwms : Side → Int32) : Pair where
  ends
    | .first => some (PipeT.new 0 1 (hwms .second) (hwms .first))
    | .second => some (PipeT.new 1 0 (hwms .first) (hwms .second))
  inbox _ := []
  heap := (Heap.alloc (Heap.alloc ⟨fun _ => none, 0⟩))

/-- `set_event_sink` and `set_hwms_boost` on both ends. -/
def attach (w : Pair) (inboost outboost : Side → Int32) : Pair :=
  { w with ends := fun s => (w.ends s).map fun p =>
      { p.setHwmsBoost (inboost s) (outboost s) with sink := true } }

/-- A call or delivery with the end it is on and what it returned. -/
structure Event where
  side : Side
  op : Op
  res : Res

def Step (w : Pair) (e : Event) (w' : Pair) : Prop :=
  w.Enabled e.side e.op ∧ w.step e.side e.op = .ok (e.res, w')

/-- A pair both of whose ends have just been attached. -/
def Attached (w : Pair) : Prop :=
  ∃ hwms inboost outboost, w = (pipepair hwms).attach inboost outboost

instance (w : Pair) (s : Side) : (op : Op) → Decidable (w.Enabled s op)
  | .deliver => inferInstanceAs (Decidable (w.inbox s ≠ []))
  | .write m => inferInstanceAs (Decidable (w.ends s ≠ none ∧ m.isDelimiter = false))
  | .checkRead | .read | .checkWrite | .rollback | .flush | .hiccup | .setNodelay
  | .terminate _ | .setHwms _ _ => inferInstanceAs (Decidable (w.ends s ≠ none))

def play (guard : Pair → Event → Prop) [∀ w e, Decidable (guard w e)] (w : Pair) : List (Side × Op) → Option (List Event × Pair)
  | [] => some ([], w)
  | (s, op) :: rest =>
    if w.Enabled s op then
      match w.step s op with
      | .ok (r, w') =>
        if guard w ⟨s, op, r⟩ then (play guard w' rest).map fun x => (⟨s, op, r⟩ :: x.1, x.2)
        else none
      | .error _ => none
    else none

def free (_ : Pair) (_ : Event) : Prop := True

instance (w : Pair) (e : Event) : Decidable (free w e) := .isTrue trivial

theorem play_run {guard : Pair → Event → Prop} [∀ w e, Decidable (guard w e)] {init : Pair → Prop}
    {ops : List (Side × Op)} {w w' : Pair} {evs evs' : List Event}
    (h : Run init (Guarded guard Step) evs w) (hp : w.play guard ops = some (evs', w')) :
    Run init (Guarded guard Step) (evs ++ evs') w' := by
  induction ops generalizing w evs evs' with
  | nil =>
    cases hp
    simpa using h
  | cons x ops ih =>
    obtain ⟨s, op⟩ := x
    unfold play at hp
    by_cases he : w.Enabled s op
    · rw [if_pos he] at hp
      cases hs : w.step s op with
      | error e => simp [hs] at hp
      | ok x =>
        simp only [hs] at hp
        by_cases hg : guard w ⟨s, op, x.1⟩
        · rw [if_pos hg, Option.map_eq_some_iff] at hp
          obtain ⟨y, hy, hyy⟩ := hp
          cases hyy
          have hstep : Guarded guard Step w ⟨s, op, x.1⟩ x.2 := ⟨hg, he, hs⟩
          simpa using ih (.snoc h hstep) hy
        · rw [if_neg hg] at hp
          cases hp
    · rw [if_neg he] at hp
      cases hp

end Pair

end Zmq
