import LibZmq.Sockets.Dist
import LibZmq.Sockets.Fq
import LibZmq.Trie.Model

/-! `xsub_t`, and `dish_t` as far as it sends. What the user asks for goes to all pipes, and is sent
to each new pipe and each pipe that has hiccuped. -/

namespace Zmq

inductive SubFault where
  | trie (fault : TrieFault)
  | socket (fault : SocketFault)

namespace SubFault

def ofTrie {α : Type} (x : Except TrieFault α) : Except SubFault α := x.mapError .trie

def ofSocket {α : Type} (x : Except SocketFault α) : Except SubFault α := x.mapError .socket

variable {α : Type} {a : α}

theorem ofSocket_ok {x : Except SocketFault α} (h : ofSocket x = .ok a) : x = .ok a := by
  cases x with
  | error e => exact absurd h nofun
  | ok b => exact congrArg _ (Except.ok.inj h)

end SubFault

namespace Outlet

/-- Messages written past `dist_t`; those that are refused are dropped. -/
def writeAll (o : Outlet) (msgs : List Msg) : Outlet := msgs.foldl (fun o m => (o.write m).2) o

/-- `pipe_t::process_hiccup`: the new queue, and `dropped` messages that the old one held. -/
def processHiccup (o : Outlet) (pipe : ℕ) (dropped : UInt64) : Outlet where
  self := { o.self with outpipe := some pipe, outActive := true, msgsWritten := o.self.msgsWritten - dropped }
  out := Staged.empty

end Outlet

structure XsubT (P : Type) where
  fq : FqT P
  dist : DistT P
  subscriptions : TrieT
  hasMessage : Bool
  message : Msg
  more : Bool
  filter : Bool
  invertMatching : Bool

namespace XsubT

open SubFault

variable {P : Type}

def emptyMsg : Msg := ⟨.vsm, 0, []⟩

def new (filter : Bool) : XsubT P := ⟨.new, .new, .new, false, emptyMsg, false, filter, false⟩

def subscription (topic : List UInt8) : Msg := .ofData (1 :: topic)

/-- `subscriptions.apply (send_subscription, pipe_)`, without the writes -/
def cached (x : XsubT P) : Except SubFault (List Msg) :=
  ofTrie ((fun topics => topics.map subscription) <$> x.subscriptions.apply)

variable [DecidableEq P] (x : XsubT P)

def sendSubscriptions (outlets : P → Outlet) (pipe : P) : Except SubFault (P → Outlet) := do
  return Function.update outlets pipe ((outlets pipe).writeAll (← x.cached)).flush

def xattachPipe (outlets : P → Outlet) (pipe : P) : Except SubFault (XsubT P × (P → Outlet)) := do
  let x := { x with fq := x.fq.attach pipe, dist := x.dist.attach pipe }
  return (x, ← x.sendSubscriptions outlets pipe)

def xreadActivated (pipe : P) : XsubT P := { x with fq := x.fq.activated pipe }

def xwriteActivated (pipe : P) : XsubT P := { x with dist := x.dist.activated pipe }

def xpipeTerminated (pipe : P) : XsubT P :=
  { x with fq := x.fq.pipeTerminated pipe, dist := x.dist.pipeTerminated pipe }

def xhiccuped (outlets : P → Outlet) (pipe : P) : Except SubFault (P → Outlet) :=
  x.sendSubscriptions outlets pipe

def sendToAll (x : XsubT P) (outlets : P → Outlet) (msg : Msg) : Except SubFault (XsubT P × (P → Outlet)) := do
  let (dist, outlets) ← ofSocket (x.dist.sendToAll outlets msg)
  return ({ x with dist := dist }, outlets)

def xsend (outlets : P → Outlet) (msg : Msg) : Except SubFault (XsubT P × (P → Outlet)) :=
  match msg.data with
  | [] => x.sendToAll outlets msg
  | c :: topic =>
    if c = 1 then do
      let (_, t) ← ofTrie (x.subscriptions.add topic)
      sendToAll { x with subscriptions := t } outlets msg
    else if c = 0 then do
      let (unique, t) ← ofTrie (x.subscriptions.rm topic)
      let x := { x with subscriptions := t }
      if unique then x.sendToAll outlets msg else return (x, outlets)
    else x.sendToAll outlets msg

omit [DecidableEq P] in
def matchMsg (msg : Msg) : Except SubFault Bool := do
  return xor (← ofTrie (x.subscriptions.check msg.data)) x.invertMatching

/-- The remaining parts of a message that does not match are popped; the pipes have fewer than `n` frames. -/
def popRest : ℕ → FqT P → (P → Inlet) → Msg → Except SubFault (FqT P × (P → Inlet))
  | 0, fq, inlets, _ => .ok (fq, inlets)
  | n + 1, fq, inlets, msg =>
    if msg.hasMore then do
      let (got, fq, inlets) ← ofSocket (fq.recvpipe inlets)
      match got with
      | none => throw (.socket .assertion)
      | some (_, msg) => popRest n fq inlets msg
    else .ok (fq, inlets)

/-- The loops of `xrecv` and `xhas_in`: the next frame that is part of a message begun, or matches. The
pipes have fewer than `n` frames. -/
def recvMatching (x : XsubT P) (more : Bool) : ℕ → FqT P → (P → Inlet) → Except SubFault (Option (P × Msg) × FqT P × (P → Inlet))
  | 0, fq, inlets => .ok (none, fq, inlets)
  | n + 1, fq, inlets => do
    let (got, fq, inlets) ← ofSocket (fq.recvpipe inlets)
    match got with
    | none => return (none, fq, inlets)
    | some (pipe, msg) =>
      if more || !x.filter then return (some (pipe, msg), fq, inlets)
      if ← x.matchMsg msg then return (some (pipe, msg), fq, inlets)
      let (fq, inlets) ← popRest (n + 1) fq inlets msg
      recvMatching x more n fq inlets

def frames (inlets : P → Inlet) : ℕ := (x.fq.pipes.items.map fun p => (inlets p).frames.length).sum

def xrecv (inlets : P → Inlet) : Except SubFault (Option Msg × XsubT P × (P → Inlet)) :=
  if x.hasMessage then
    .ok (some x.message, { x with hasMessage := false, more := x.message.hasMore, message := emptyMsg }, inlets)
  else do
    let (got, fq, inlets) ← x.recvMatching x.more (x.frames inlets + 1) x.fq inlets
    match got with
    | none => return (none, { x with fq := fq }, inlets)
    | some (_, msg) => return (some msg, { x with fq := fq, more := msg.hasMore }, inlets)

def xhasIn (inlets : P → Inlet) : Except SubFault (Bool × XsubT P × (P → Inlet)) :=
  if x.more || x.hasMessage then .ok (true, x, inlets)
  else do
    let (got, fq, inlets) ← x.recvMatching false (x.frames inlets + 1) x.fq inlets
    match got with
    | none => return (false, { x with fq := fq }, inlets)
    | some (_, msg) => return (true, { x with fq := fq, message := msg, hasMessage := true }, inlets)

end XsubT

/-- Receiving is left out. -/
structure DishT (P : Type) where
  fq : FqT P
  dist : DistT P
  subscriptions : List (List UInt8)

namespace DishT

open SubFault

variable {P : Type}

def groupMaxLength : ℕ := 15

def new : DishT P := ⟨.new, .new, []⟩

/-- `init_join` and `set_group`; the data is the group. -/
def join (group : List UInt8) : Msg := ⟨.join, 0, group⟩

def leave (group : List UInt8) : Msg := ⟨.leave, 0, group⟩

variable [DecidableEq P] (x : DishT P)

def sendSubscriptions (outlets : P → Outlet) (pipe : P) : P → Outlet :=
  Function.update outlets pipe ((outlets pipe).writeAll (x.subscriptions.map join)).flush

def xattachPipe (outlets : P → Outlet) (pipe : P) : DishT P × (P → Outlet) :=
  let x := { x with fq := x.fq.attach pipe, dist := x.dist.attach pipe }
  (x, x.sendSubscriptions outlets pipe)

def xreadActivated (pipe : P) : DishT P := { x with fq := x.fq.activated pipe }

def xwriteActivated (pipe : P) : DishT P := { x with dist := x.dist.activated pipe }

def xpipeTerminated (pipe : P) : DishT P :=
  { x with fq := x.fq.pipeTerminated pipe, dist := x.dist.pipeTerminated pipe }

def xhiccuped (outlets : P → Outlet) (pipe : P) : P → Outlet := x.sendSubscriptions outlets pipe

def sendToAll (x : DishT P) (outlets : P → Outlet) (msg : Msg) : Except SubFault (DishT P × (P → Outlet)) := do
  let (dist, outlets) ← ofSocket (x.dist.sendToAll outlets msg)
  return ({ x with dist := dist }, outlets)

/-- `false` with EINVAL. The groups are ordered. -/
def xjoin (outlets : P → Outlet) (group : List UInt8) :
    Except SubFault (Bool × DishT P × (P → Outlet)) :=
  if groupMaxLength < group.length ∨ group ∈ x.subscriptions then .ok (false, x, outlets)
  else do
    let x := { x with subscriptions := x.subscriptions.orderedInsert (· ≤ ·) group }
    let (x, outlets) ← x.sendToAll outlets (join group)
    return (true, x, outlets)

def xleave (outlets : P → Outlet) (group : List UInt8) :
    Except SubFault (Bool × DishT P × (P → Outlet)) :=
  if groupMaxLength < group.length ∨ group ∉ x.subscriptions then .ok (false, x, outlets)
  else do
    let (x, outlets) ← sendToAll { x with subscriptions := x.subscriptions.erase group } outlets (leave group)
    return (true, x, outlets)

end DishT

end Zmq
