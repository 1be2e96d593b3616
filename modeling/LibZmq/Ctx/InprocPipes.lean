import LibZmq.Ctx.Inproc
import LibZmq.Ctx.PipeEnds

/-! How two inproc sockets come to share a pipe: the one that connects makes it, with the marks and the identities that
both ask for if the name is bound already, else for itself only until `connect_inproc_sockets` completes it. -/

namespace Zmq

inductive SocketType where
  | pair | pub | sub | req | rep | dealer | router | pull | push | xpub | xsub | stream
  | server | client | radio | dish | gather | scatter | dgram
deriving DecidableEq

/-- `setsockopt` refuses marks below zero. -/
structure PeerOptions extends InprocOptions where
  type : SocketType
  sndhwm : Int32
  rcvhwm : Int32
  conflate : Bool
  sndhwm_nonneg : 0 ≤ sndhwm
  rcvhwm_nonneg : 0 ≤ rcvhwm

namespace PeerOptions

/-- `options_t ()`, with the type that the socket gives it. -/
def new (type : SocketType) : PeerOptions := ⟨⟨false, []⟩, type, 1000, 1000, false, by decide, by decide⟩

def conflates (o : PeerOptions) : Bool :=
  o.conflate &&
    (o.type == .dealer || o.type == .pull || o.type == .push || o.type == .pub || o.type == .sub)

def identityMsg (o : PeerOptions) : Msg := (Msg.ofData o.identity).setFlags Msg.identity

end PeerOptions

/-- Neither a user nor a socket sends identities, credentials or delimiters. -/
structure Msg.FromUser (m : Msg) : Prop where
  identity : m.isIdentity = false
  credential : m.isCredential = false
  delimiter : m.isDelimiter = false

abbrev UserMsg := { m : Msg // m.FromUser }

inductive InprocAbort where
  /-- `zmq_assert (ok)`: there is no identity to read -/
  | unread
  /-- `zmq_assert (written)` -/
  | unwritten
  | inPipe (fault : Fault)

namespace InprocAbort

def ofPipe {α : Type} (x : Except Fault α) : Except InprocAbort α := x.mapError .inPipe

end InprocAbort

open InprocAbort

namespace PipeEnd

def writeIdentity (x : PipeEnd) (o : PeerOptions) : Except InprocAbort PipeEnd := do
  let (written, x) ← ofPipe (x.write o.identityMsg)
  if written then return x.flush else throw .unwritten

/-- Messages of the socket, which it drops if the pipe is full. -/
def announce (msgs : List UserMsg) (x : PipeEnd) : Except InprocAbort PipeEnd := do
  return (← ofPipe (x.writeAll (msgs.map (·.1)))).flush

/-- The identity that the socket does not ask for. -/
def dropIdentity (x : PipeEnd) : Except InprocAbort PipeEnd := do
  match ← ofPipe x.read with
  | (some _, x) => return x
  | (none, _) => throw .unread

end PipeEnd

/-- The two ends of a pipe and the commands on their way to them. -/
structure InprocPair where
  connectPipe : PipeT
  bindPipe : PipeT
  toBind : YPipeBase
  toConnect : YPipeBase
  toBindCmds : List Cmd
  toConnectCmds : List Cmd

namespace InprocPair

variable (p : InprocPair)

def connectEnd : PipeEnd := ⟨p.connectPipe, p.toConnect, p.toBind, []⟩

def bindEnd : PipeEnd := ⟨p.bindPipe, p.toBind, p.toConnect, []⟩

def setConnectEnd (x : PipeEnd) : InprocPair :=
  { p with
    connectPipe := x.self
    toConnect := x.inpipe
    toBind := x.outpipe
    toBindCmds := p.toBindCmds ++ x.sent }

def setBindEnd (x : PipeEnd) : InprocPair :=
  { p with
    bindPipe := x.self
    toBind := x.inpipe
    toConnect := x.outpipe
    toConnectCmds := p.toConnectCmds ++ x.sent }

def onConnect (f : PipeEnd → Except InprocAbort PipeEnd) : Except InprocAbort InprocPair :=
  (f p.connectEnd).map p.setConnectEnd

def onBind (f : PipeEnd → Except InprocAbort PipeEnd) : Except InprocAbort InprocPair :=
  (f p.bindEnd).map p.setBindEnd

/-- `pipepair`, with the marks that limit the socket that connects and the one that binds. -/
def pipepair (hwm0 hwm1 : Int32) (conflate : Bool) : InprocPair where
  connectPipe := PipeT.new 0 1 hwm1 hwm0
  bindPipe := PipeT.new 1 0 hwm0 hwm1
  toBind := YPipeBase.new conflate
  toConnect := YPipeBase.new conflate
  toBindCmds := []
  toConnectCmds := []

/-- `set_hwms_boost` on both ends. -/
def boost (connecter binder : PeerOptions) : InprocPair :=
  { p with
    connectPipe := p.connectPipe.setHwmsBoost binder.sndhwm binder.rcvhwm
    bindPipe := p.bindPipe.setHwmsBoost connecter.sndhwm connecter.rcvhwm }

/-- The identity of the socket that connects, if the other one asks for it. -/
def connectIdentity (asks : Bool) (o : PeerOptions) : Except InprocAbort InprocPair :=
  if asks then p.onConnect (·.writeIdentity o) else .ok p

def bindIdentity (asks : Bool) (o : PeerOptions) : Except InprocAbort InprocPair :=
  if asks then p.onBind (·.writeIdentity o) else .ok p

/-- The identity that has been sent in any case is read if the socket that binds does not ask for it. -/
def dropIdentity (p : InprocPair) (asks : Bool) : Except InprocAbort InprocPair :=
  if !asks then p.onBind PipeEnd.dropIdentity else .ok p

/-- `set_hwms` on both ends. -/
def setMarks (connectIn connectOut bindIn bindOut : Int32) : InprocPair :=
  { p with
    connectPipe := p.connectPipe.setHwms connectIn connectOut
    bindPipe := p.bindPipe.setHwms bindIn bindOut }

/-- The marks that `connect_inproc_sockets` sets. -/
def marked (connecter binder : PeerOptions) : InprocPair :=
  if connecter.conflates then p.setMarks (-1) (-1) (-1) (-1)
  else (p.boost connecter binder).setMarks connecter.rcvhwm connecter.sndhwm binder.rcvhwm binder.sndhwm

end InprocPair

open InprocPair

/-- `socket_base_t::connect` with the options of the peer that `find_endpoint` has found, up to `send_bind`. -/
def connectFound (connecter binder : PeerOptions) : Except InprocAbort InprocPair := do
  let sndhwm := if connecter.sndhwm ≠ 0 ∧ binder.rcvhwm ≠ 0 then connecter.sndhwm + binder.rcvhwm else 0
  let rcvhwm := if connecter.rcvhwm ≠ 0 ∧ binder.sndhwm ≠ 0 then connecter.rcvhwm + binder.sndhwm else 0
  let conflate := connecter.conflates
  let p := pipepair (if conflate then -1 else sndhwm) (if conflate then -1 else rcvhwm) conflate
  let p := if conflate then p else p.boost connecter binder
  let p ← p.connectIdentity binder.recvIdentity connecter
  p.bindIdentity connecter.recvIdentity binder

/-- `socket_base_t::connect` without a peer, up to `pend_connection`. The options of the peer are those of `options_t ()`. -/
def connectAlone (connecter : PeerOptions) : Except InprocAbort InprocPair :=
  let conflate := connecter.conflates
  let p := pipepair (if conflate then -1 else connecter.sndhwm) (if conflate then -1 else connecter.rcvhwm) conflate
  let p := if conflate then p else p.boost connecter (.new .pair)
  p.onConnect (·.writeIdentity connecter)

/-- `ctx_t::connect_inproc_sockets`. The socket that binds has its end from the moment of `process_command` or `send_bind`
on; `adopt` is what it does with it before the identity is written. `isOpen` is what `check_tag` finds. -/
def connectInprocSockets (connecter binder : PeerOptions) (isOpen : Bool) (adopt : PipeEnd → Except InprocAbort PipeEnd)
    (p : InprocPair) : Except InprocAbort InprocPair := do
  let p ← p.dropIdentity binder.recvIdentity
  let p ← (p.marked connecter binder).onBind adopt
  p.bindIdentity (connecter.recvIdentity && isOpen) binder

end Zmq
