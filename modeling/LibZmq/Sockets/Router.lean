import LibZmq.Sockets.Fq
import LibZmq.Sockets.Lb
import LibZmq.Zmtp.Wire
import Mathlib.Data.List.AList

/-! `router_t`. Each pipe has an identity, under which messages are sent to it, once its peer has
given one or one has been made up. -/

namespace Zmq

namespace Outlet

def terminate (o : Outlet) (delay : Bool) : Outlet :=
  match o.self.state with
  | .termReqSent1 | .termReqSent2 | .termAckSent => { o with self := { o.self with delay := delay } }
  | .active | .delimiterReceived => {
      self := { o.self with delay := delay, state := .termReqSent1, outActive := false }
      out := if o.self.outpipe = none then o.out else (Pair.delimit o.out).flush.2 }
  | .waitingForDelimiter =>
    if delay then {
      self := { o.self with delay := delay, outActive := false }
      out := if o.self.outpipe = none then o.out else (Pair.delimit o.out).flush.2 }
    else { o with self := { o.self with
      delay := delay, state := .termAckSent, outpipe := none, outActive := false } }

end Outlet

/-- The ends of all pipes, and the identities stored in them. -/
structure Ends (P : Type) where
  inlets : P → Inlet
  outlets : P → Outlet
  ids : P → List UInt8

namespace Ends

variable {P : Type} [DecidableEq P]

def setInlet (e : Ends P) (p : P) (i : Inlet) : Ends P := { e with inlets := Function.update e.inlets p i }

def setOutlet (e : Ends P) (p : P) (o : Outlet) : Ends P := { e with outlets := Function.update e.outlets p o }

def setIdentity (e : Ends P) (p : P) (identity : List UInt8) : Ends P :=
  { e with ids := Function.update e.ids p identity }

/-- An end that is not to be read any more has nothing to read. -/
def terminate (e : Ends P) (p : P) (delay : Bool) : Ends P where
  inlets := if ((e.outlets p).terminate delay).self.readable then e.inlets
    else Function.update e.inlets p ⟨false, []⟩
  outlets := Function.update e.outlets p ((e.outlets p).terminate delay)
  ids := e.ids

end Ends

structure OutpipeT (P : Type) where
  pipe : P
  active : Bool
deriving DecidableEq

inductive RouterRc where
  | ok | eagain | ehostunreach
deriving DecidableEq

/-- `optionsRawSocket` is `options.raw_socket`. -/
structure RouterT (P : Type) where
  fq : FqT P
  prefetched : Bool
  identitySent : Bool
  prefetchedId : Msg
  prefetchedMsg : Msg
  currentIn : Option P
  terminateCurrentIn : Bool
  moreIn : Bool
  anonymousPipes : Finset P
  outpipes : AList fun _ : List UInt8 => OutpipeT P
  currentOut : Option P
  moreOut : Bool
  nextRid : UInt32
  mandatory : Bool
  rawSocket : Bool
  optionsRawSocket : Bool
  probeRouter : Bool
  handover : Bool
  connectRid : List UInt8

inductive RouterOption where
  | connectRid (rid : List UInt8)
  | raw (on : Bool)
  | mandatory (on : Bool)
  | probe (on : Bool)
  | handover (on : Bool)

namespace RouterT

variable {P : Type}

def emptyMsg : Msg := ⟨.vsm, 0, []⟩

def new (nextRid : UInt32) : RouterT P where
  fq := .new
  prefetched := false
  identitySent := false
  prefetchedId := emptyMsg
  prefetchedMsg := emptyMsg
  currentIn := none
  terminateCurrentIn := false
  moreIn := false
  anonymousPipes := ∅
  outpipes := ∅
  currentOut := none
  moreOut := false
  nextRid := nextRid
  mandatory := false
  rawSocket := false
  optionsRawSocket := false
  probeRouter := false
  handover := false
  connectRid := []

/-- An identity that is made up. -/
def autoId (rid : UInt32) : List UInt8 := 0 :: putUint32 rid

/-- A peer as the user sees it. -/
def idMsg (identity : List UInt8) : Msg := (Msg.ofData identity).setFlags Msg.more

variable [DecidableEq P] (r : RouterT P)

/-- The end of `identify_peer`: the pipe and its identity are put into the table. -/
def register (e : Ends P) (pipe : P) (identity : List UInt8) :
    Except SocketFault (Bool × RouterT P × Ends P) :=
  if identity ∈ r.outpipes then .error .assertion
  else .ok (true, { r with outpipes := r.outpipes.insert identity ⟨pipe, true⟩ }, e.setIdentity pipe identity)

/-- The pipe that has the identity of a new one gets another identity and is to terminate. -/
def handOver (e : Ends P) (identity : List UInt8) (existing : OutpipeT P) :
    Except SocketFault (RouterT P × Ends P) :=
  let newIdentity := autoId r.nextRid
  let r := { r with nextRid := r.nextRid + 1 }
  let e := e.setIdentity existing.pipe newIdentity
  if newIdentity ∈ r.outpipes then .error .assertion
  else
    let r := { r with outpipes := (r.outpipes.insert newIdentity existing).erase identity }
    if some existing.pipe = r.currentIn then .ok ({ r with terminateCurrentIn := true }, e)
    else .ok (r, e.terminate existing.pipe true)

/-- The part of `identify_peer` for an identity that is made up. -/
def registerAuto (e : Ends P) (pipe : P) : Except SocketFault (Bool × RouterT P × Ends P) :=
  register { r with nextRid := r.nextRid + 1 } e pipe (autoId r.nextRid)

/-- The part of `identify_peer` for an identity that the peer has sent. -/
def registerPeer (e : Ends P) (pipe : P) (identity : List UInt8) :
    Except SocketFault (Bool × RouterT P × Ends P) :=
  match r.outpipes.lookup identity with
  | none => r.register e pipe identity
  | some existing =>
    if r.handover then do
      let (r, e) ← r.handOver e identity existing
      r.register e pipe identity
    else .ok (false, r, e)

def identifyPeer (e : Ends P) (pipe : P) : Except SocketFault (Bool × RouterT P × Ends P) :=
  if r.connectRid ≠ [] then register { r with connectRid := [] } e pipe r.connectRid
  else if r.optionsRawSocket then r.registerAuto e pipe
  else
    let (msg, inlet) := (e.inlets pipe).read
    let e := e.setInlet pipe inlet
    match msg with
    | none => .ok (false, r, e)
    | some msg => if msg.data = [] then r.registerAuto e pipe else r.registerPeer e pipe msg.data

def xattachPipe (e : Ends P) (pipe : P) : Except SocketFault (RouterT P × Ends P) := do
  let e := if r.probeRouter then e.setOutlet pipe ((e.outlets pipe).write emptyMsg).2.flush else e
  let (ok, r, e) ← r.identifyPeer e pipe
  return (if ok then { r with fq := r.fq.attach pipe }
    else { r with anonymousPipes := insert pipe r.anonymousPipes }, e)

omit [DecidableEq P] in
def xsetsockopt : RouterOption → Bool × RouterT P
  | .connectRid rid => if rid = [] then (false, r) else (true, { r with connectRid := rid })
  | .raw on => (true, { r with rawSocket := on, optionsRawSocket := on || r.optionsRawSocket })
  | .mandatory on => (true, { r with mandatory := on })
  | .probe on => (true, { r with probeRouter := on })
  | .handover on => (true, { r with handover := on })

def xpipeTerminated (e : Ends P) (pipe : P) : Except SocketFault (RouterT P) :=
  if pipe ∈ r.anonymousPipes then .ok { r with anonymousPipes := r.anonymousPipes.erase pipe }
  else if e.ids pipe ∈ r.outpipes then .ok { r with
    outpipes := r.outpipes.erase (e.ids pipe)
    fq := r.fq.pipeTerminated pipe
    currentOut := if r.currentOut = some pipe then none else r.currentOut }
  else .error .assertion

def xreadActivated (e : Ends P) (pipe : P) : Except SocketFault (RouterT P × Ends P) :=
  if pipe ∈ r.anonymousPipes then do
    let (ok, r, e) ← r.identifyPeer e pipe
    return (if ok then { r with anonymousPipes := r.anonymousPipes.erase pipe, fq := r.fq.attach pipe } else r, e)
  else
    -- the pipe is swapped with the first one that is not active
    if r.fq.active < r.fq.pipes.size then .ok ({ r with fq := r.fq.activated pipe }, e) else .error .outOfBounds

/-- The entry of a pipe, which the search from the beginning of the table finds. -/
def entry (pipe : P) : Option (List UInt8 × OutpipeT P) :=
  (r.outpipes.entries.find? fun x => x.2.pipe = pipe).map fun x => (x.1, x.2)

def xwriteActivated (pipe : P) : Except SocketFault (RouterT P) :=
  match r.entry pipe with
  | none => .error .assertion
  | some (identity, outpipe) =>
    if outpipe.active then .error .assertion
    else .ok { r with outpipes := r.outpipes.insert identity { outpipe with active := true } }

/-- `xsend` of the first part of a message, the identity of the peer it is for. -/
def sendIdentity (e : Ends P) (msg : Msg) : RouterRc × RouterT P × Ends P :=
  if msg.hasMore then
    match r.outpipes.lookup msg.data with
    | some outpipe =>
      let (ok, outlet) := (e.outlets outpipe.pipe).checkWrite
      let e := e.setOutlet outpipe.pipe outlet
      if ok then (.ok, { r with moreOut := true, currentOut := some outpipe.pipe }, e)
      else
        let r := { r with outpipes := r.outpipes.insert msg.data { outpipe with active := false } }
        if r.mandatory then (.eagain, { r with moreOut := false }, e) else (.ok, { r with moreOut := true }, e)
    | none => if r.mandatory then (.ehostunreach, { r with moreOut := false }, e) else (.ok, { r with moreOut := true }, e)
  else (.ok, r, e)

def sendPart (e : Ends P) (msg : Msg) : RouterT P × Ends P :=
  let msg := if r.optionsRawSocket then { msg with flags := msg.flags &&& ~~~Msg.more } else msg
  let r := { r with moreOut := msg.hasMore }
  match r.currentOut with
  | none => (r, e)
  | some pipe =>
    -- an empty message closes a raw connection
    if r.rawSocket ∧ msg.data = [] then ({ r with currentOut := none }, e.terminate pipe false)
    else if ((e.outlets pipe).write msg).1 then
      if msg.hasMore then (r, e.setOutlet pipe ((e.outlets pipe).write msg).2)
      else ({ r with currentOut := none }, e.setOutlet pipe ((e.outlets pipe).write msg).2.flush)
    else ({ r with currentOut := none }, e.setOutlet pipe ((e.outlets pipe).write msg).2)

def xsend (e : Ends P) (msg : Msg) : Except SocketFault (RouterRc × RouterT P × Ends P) :=
  if r.moreOut then .ok (.ok, r.sendPart e msg)
  else if r.currentOut = none then .ok (r.sendIdentity e msg)
  else .error .assertion

/-- `recvpipe` again and again as long as identities come; the pipes have `n - 1` frames at most. -/
def recvPast : ℕ → FqT P → (P → Inlet) → Except SocketFault (Option (P × Msg) × FqT P × (P → Inlet))
  | 0, fq, inlets => .ok (none, fq, inlets)
  | n + 1, fq, inlets => do
    let (got, fq, inlets) ← fq.recvpipe inlets
    match got with
    | none => return (none, fq, inlets)
    | some (pipe, msg) => if msg.isIdentity then recvPast n fq inlets else return (some (pipe, msg), fq, inlets)

/-- The next frame that is no identity. -/
def fetch (e : Ends P) : Except SocketFault (Option (P × Msg) × RouterT P × Ends P) := do
  let frames := (r.fq.pipes.items.map fun p => (e.inlets p).frames.length).sum
  let (got, fq, inlets) ← recvPast (frames + 1) r.fq e.inlets
  return (got, { r with fq := fq }, { e with inlets := inlets })

/-- The end of a part that has been received. -/
def finish (e : Ends P) (msg : Msg) : RouterT P × Ends P :=
  if msg.hasMore then ({ r with moreIn := true }, e)
  else match r.terminateCurrentIn, r.currentIn with
    | true, some pipe => ({ r with moreIn := false, terminateCurrentIn := false, currentIn := none }, e.terminate pipe true)
    | _, _ => ({ r with moreIn := false, currentIn := none }, e)

def xrecv (e : Ends P) : Except SocketFault (Option Msg × RouterT P × Ends P) :=
  if r.prefetched then
    if !r.identitySent then
      .ok (some r.prefetchedId, { r with prefetchedId := emptyMsg, identitySent := true }.finish e r.prefetchedId)
    else .ok (some r.prefetchedMsg, { r with prefetchedMsg := emptyMsg, prefetched := false }.finish e r.prefetchedMsg)
  else do
    let (got, r, e) ← r.fetch e
    match got with
    | none => return (none, r, e)
    | some (pipe, msg) =>
      if r.moreIn then return (some msg, r.finish e msg)
      else return (some (idMsg (e.ids pipe)),
        { r with prefetchedMsg := msg, prefetched := true, currentIn := some pipe, identitySent := true }, e)

def xhasIn (e : Ends P) : Except SocketFault (Bool × RouterT P × Ends P) :=
  if r.moreIn ∨ r.prefetched then .ok (true, r, e)
  else do
    let (got, r, e) ← r.fetch e
    match got with
    | none => return (false, r, e)
    | some (pipe, msg) =>
      return (true, { r with
        prefetchedMsg := msg, prefetchedId := idMsg (e.ids pipe), prefetched := true, identitySent := false,
        currentIn := some pipe }, e)

end RouterT

end Zmq
