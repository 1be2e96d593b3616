import LibZmq.Sockets.Receiving

/-! `stream_t`. Each connection has an identity that is made up; what it receives is passed on with the identity before
it. -/

namespace Zmq

structure StreamT (P : Type) where
  fq : FqT P
  prefetched : Bool
  identitySent : Bool
  prefetchedId : Msg
  prefetchedMsg : Msg
  outpipes : AList fun _ : List UInt8 => OutpipeT P
  currentOut : Option P
  moreOut : Bool
  nextRid : UInt32
  connectRid : List UInt8

namespace StreamT

open RouterT (emptyMsg autoId idMsg)

variable {P : Type}

def new (nextRid : UInt32) : StreamT P :=
  ⟨.new, false, false, emptyMsg, emptyMsg, ∅, none, false, nextRid, []⟩

variable [DecidableEq P] (s : StreamT P)

def identifyPeer (e : Ends P) (pipe : P) : Except SocketFault (StreamT P × Ends P) :=
  let (identity, s) := if s.connectRid ≠ [] then (s.connectRid, { s with connectRid := [] })
    else (autoId s.nextRid, { s with nextRid := s.nextRid + 1 })
  if identity ∈ s.outpipes then .error .assertion
  else .ok ({ s with outpipes := s.outpipes.insert identity ⟨pipe, true⟩ }, e.setIdentity pipe identity)

def xattachPipe (e : Ends P) (pipe : P) : Except SocketFault (StreamT P × Ends P) :=
  (s.identifyPeer e pipe).map fun x => ({ x.1 with fq := x.1.fq.attach pipe }, x.2)

def xpipeTerminated (e : Ends P) (pipe : P) : Except SocketFault (StreamT P) :=
  if e.ids pipe ∈ s.outpipes then .ok { s with
    outpipes := s.outpipes.erase (e.ids pipe)
    fq := s.fq.pipeTerminated pipe
    currentOut := if s.currentOut = some pipe then none else s.currentOut }
  else .error .assertion

def xreadActivated (e : Ends P) (pipe : P) : Except SocketFault (StreamT P × Ends P) :=
  -- the pipe is swapped with the first one that is not active
  if s.fq.active < s.fq.pipes.size then .ok ({ s with fq := s.fq.activated pipe }, e) else .error .outOfBounds

def xwriteActivated (pipe : P) : Except SocketFault (StreamT P) :=
  match s.outpipes.entries.find? fun x => x.2.pipe = pipe with
  | none => .error .assertion
  | some ⟨identity, outpipe⟩ =>
    if outpipe.active then .error .assertion
    else .ok { s with outpipes := s.outpipes.insert identity { outpipe with active := true } }

omit [DecidableEq P] in
/-- `ZMQ_CONNECT_RID`; an empty one is refused. -/
def xsetsockopt (rid : List UInt8) : StreamT P := if rid = [] then s else { s with connectRid := rid }

/-- `xsend` of the first part of a message, the identity of the connection it is for. -/
def sendIdentity (e : Ends P) (msg : Msg) : RouterRc × StreamT P × Ends P :=
  if msg.hasMore then
    match s.outpipes.lookup msg.data with
    | some outpipe =>
      let (ok, outlet) := (e.outlets outpipe.pipe).checkWrite
      let e := e.setOutlet outpipe.pipe outlet
      if ok then (.ok, { s with moreOut := true, currentOut := some outpipe.pipe }, e)
      else (.eagain, { s with outpipes := s.outpipes.insert msg.data { outpipe with active := false } }, e)
    | none => (.ehostunreach, s, e)
  else (.ok, { s with moreOut := true }, e)

def sendPart (e : Ends P) (msg : Msg) : StreamT P × Ends P :=
  let msg := { msg with flags := msg.flags &&& ~~~Msg.more }
  let sent := { s with moreOut := false, currentOut := none }
  match s.currentOut with
  | none => (sent, e)
  | some pipe =>
    -- an empty message closes the connection
    if msg.data = [] then (sent, e.terminate pipe false)
    else if ((e.outlets pipe).write msg).1 then (sent, e.setOutlet pipe ((e.outlets pipe).write msg).2.flush)
    else (sent, e.setOutlet pipe ((e.outlets pipe).write msg).2)

def xsend (e : Ends P) (msg : Msg) : Except SocketFault (RouterRc × StreamT P × Ends P) :=
  if s.moreOut then .ok (.ok, s.sendPart e msg)
  else if s.currentOut = none then .ok (s.sendIdentity e msg)
  else .error .assertion

def xrecv (e : Ends P) : Except SocketFault (Option Msg × StreamT P × Ends P) :=
  if s.prefetched then
    if !s.identitySent then
      .ok (some s.prefetchedId, { s with prefetchedId := emptyMsg, identitySent := true }, e)
    else .ok (some s.prefetchedMsg, { s with prefetchedMsg := emptyMsg, prefetched := false }, e)
  else do
    let (got, fq, inlets) ← s.fq.recvpipe e.inlets
    match got with
    | none => return (none, { s with fq := fq }, { e with inlets := inlets })
    | some (pipe, msg) =>
      if msg.hasMore then throw .assertion
      else return (some (idMsg (e.ids pipe)),
        { s with fq := fq, prefetchedMsg := msg, prefetched := true, identitySent := true }, { e with inlets := inlets })

def xhasIn (e : Ends P) : Except SocketFault (Bool × StreamT P × Ends P) :=
  if s.prefetched then .ok (true, s, e)
  else do
    let (got, fq, inlets) ← s.fq.recvpipe e.inlets
    match got with
    | none => return (false, { s with fq := fq }, { e with inlets := inlets })
    | some (pipe, msg) =>
      if msg.hasMore then throw .assertion
      else return (true, { s with
        fq := fq, prefetchedMsg := msg, prefetchedId := idMsg (e.ids pipe), prefetched := true, identitySent := false },
        { e with inlets := inlets })

def base : SocketBase (StreamT P) P (List UInt8) SocketFault where
  xattachPipe := xattachPipe
  xreadActivated := xreadActivated
  xwriteActivated := xwriteActivated
  xpipeTerminated := xpipeTerminated
  xsetsockopt := xsetsockopt
  xsend s e msg := (s.xsend e msg).map Prod.snd

variable {M : Type}

/-- The metadata of a message is that of the identity before it. -/
def recv (s : Served (StreamT P) P M) : Except SocketFault (Option (Msg × Option M) × Served (StreamT P) P M) := do
  let (got, socket, ends) ← s.socket.xrecv s.ends
  let s' := s.after s.ends (socket, ends)
  match got with
  | none => return (none, s')
  | some msg =>
    if s.socket.prefetched then
      if !s.socket.identitySent then return (some (msg, s.idMetadata), { s' with idMetadata := none })
      else return (some (msg, s.msgMetadata), { s' with msgMetadata := none })
    else do
      let (got, _, inlets) ← s.socket.fq.recvpipe s.ends.inlets
      let metadata := got.bind fun x => s.marks.last s.ends.inlets inlets x.1
      return (some (msg, metadata), { s' with msgMetadata := metadata })

def poll (s : Served (StreamT P) P M) : Except SocketFault (Bool × Served (StreamT P) P M) := do
  let (rc, socket, ends) ← s.socket.xhasIn s.ends
  let s' := s.after s.ends (socket, ends)
  if s.socket.prefetched then return (rc, s')
  else do
    let (got, _, inlets) ← s.socket.fq.recvpipe s.ends.inlets
    match got with
    | none => return (rc, s')
    | some (pipe, _) =>
      let metadata := s.marks.last s.ends.inlets inlets pipe
      return (rc, { s' with idMetadata := metadata, msgMetadata := metadata })

/-- Frames without more; each is a message. -/
def Single (frames : List Msg) : Prop := ∀ m ∈ frames, m.hasMore = false

instance : DecidablePred Single := fun frames => by
  unfold Single
  infer_instance

def receiver : Receiver (Served (StreamT P) P M) (Served.Op P M (List UInt8)) (Msg × Option M) SocketFault where
  ready := Served.Ready Single
  other := Served.run base
  poll := poll
  recv := recv

end StreamT

end Zmq
