import LibZmq.Sockets.Router

/-! `dealer_t` and `req_t`. A request goes to one pipe behind an empty frame, and the reply to it is to come from that
pipe. -/

namespace Zmq

structure DealerT (P : Type) where
  fq : FqT P
  lb : LbT P
  probeRouter : Bool

namespace DealerT

variable {P : Type} [DecidableEq P]

omit [DecidableEq P] in
def new : DealerT P := ⟨.new, .new, false⟩

variable (d : DealerT P)

def xattachPipe (e : Ends P) (pipe : P) : DealerT P × Ends P :=
  ({ d with fq := d.fq.attach pipe, lb := d.lb.attach pipe },
    if d.probeRouter then e.setOutlet pipe ((e.outlets pipe).write RouterT.emptyMsg).2.flush else e)

/-- With the pipe that has taken the message, `some none` if the message has been dropped; `none` with EAGAIN. -/
def sendpipe (e : Ends P) (msg : Msg) : Except SocketFault (Option (Option P) × DealerT P × Ends P) :=
  if d.lb.dropping then .ok (some none, { d with lb := { d.lb with more := msg.hasMore, dropping := msg.hasMore } }, e)
  else do
    let (pipe, lb, outlets) ← LbT.sendLoop msg d.lb.active d.lb e.outlets
    return (pipe.map some, { d with lb := lb }, { e with outlets := outlets })

def recvpipe (d : DealerT P) (e : Ends P) : Except SocketFault (Option (P × Msg) × DealerT P × Ends P) := do
  let (got, fq, inlets) ← d.fq.recvpipe e.inlets
  return (got, { d with fq := fq }, { e with inlets := inlets })

def xhasIn (e : Ends P) : Except SocketFault (Bool × DealerT P × Ends P) := do
  let (rc, fq, inlets) ← d.fq.hasIn e.inlets
  return (rc, { d with fq := fq }, { e with inlets := inlets })

def xhasOut (e : Ends P) : Except SocketFault (Bool × DealerT P × Ends P) := do
  let (rc, lb, outlets) ← d.lb.hasOut e.outlets
  return (rc, { d with lb := lb }, { e with outlets := outlets })

def xpipeTerminated (pipe : P) : DealerT P :=
  { d with fq := d.fq.pipeTerminated pipe, lb := d.lb.pipeTerminated pipe }

omit [DecidableEq P] in
/-- The frames in the pipes, of which each turn of a loop that receives takes one. -/
def waiting (e : Ends P) : ℕ := (d.fq.pipes.items.map fun p => (e.inlets p).frames.length).sum

/-- `xrecv` again and again, until it fails. -/
def drain : ℕ → DealerT P → Ends P → Except SocketFault (DealerT P × Ends P)
  | 0, d, e => .ok (d, e)
  | n + 1, d, e => do
    let (got, d, e) ← d.recvpipe e
    match got with
    | none => return (d, e)
    | some _ => drain n d e

theorem sendpipe_lb {d : DealerT P} {e : Ends P} {msg : Msg} :
    (d.sendpipe e msg).map (fun x => (x.1.isSome, x.2.1.lb, x.2.2.outlets)) = d.lb.sendpipe e.outlets msg := by
  unfold sendpipe LbT.sendpipe
  split_ifs
  · rfl
  · cases LbT.sendLoop msg d.lb.active d.lb e.outlets with
    | error f => rfl
    | ok x =>
      obtain ⟨pipe, lb, outlets⟩ := x
      cases pipe <;> rfl

end DealerT

structure ReqT (P : Type) extends DealerT P where
  receivingReply : Bool
  messageBegins : Bool
  replyPipe : Option P
  requestIdFramesEnabled : Bool
  requestId : UInt32
  strict : Bool

inductive ReqRc where
  | ok | efsm | eagain
deriving DecidableEq

namespace ReqT

variable {P : Type} [DecidableEq P]

omit [DecidableEq P] in
def new (requestId : UInt32) : ReqT P := ⟨.new, false, true, none, false, requestId, true⟩

/-- The bytes of `request_id` in memory, the low one first. -/
def requestIdBytes (requestId : UInt32) : List UInt8 :=
  [requestId.toUInt8, (requestId >>> 8).toUInt8, (requestId >>> 16).toUInt8, (requestId >>> 24).toUInt8]

def idFrame (requestId : UInt32) : Msg := ⟨.lmsg, Msg.more, requestIdBytes requestId⟩

def bottom : Msg := ⟨.vsm, Msg.more, []⟩

variable (r : ReqT P)

/-- `sendpipe (.., &reply_pipe)` -/
def sendFirst (e : Ends P) (msg : Msg) : Except SocketFault (Option (Option P) × ReqT P × Ends P) := do
  let (took, d, e) ← r.toDealerT.sendpipe e msg
  match took with
  | some (some pipe) => return (took, { r with toDealerT := d, replyPipe := some pipe }, e)
  | _ => return (took, { r with toDealerT := d }, e)

/-- The frame with the request id, if there is to be one. With the pipes that have taken it; `none` with EAGAIN. -/
def sendId (e : Ends P) : Except SocketFault (Option (List (Option P)) × ReqT P × Ends P) :=
  if r.requestIdFramesEnabled then do
    let (took, r, e) ← sendFirst { r with requestId := r.requestId + 1 } e (idFrame (r.requestId + 1))
    return (took.map fun pipe => [pipe], r, e)
  else .ok (some [], r, e)

/-- The frames of a request in front of its body. -/
def sendEnvelope (e : Ends P) : Except SocketFault (Option (List (Option P)) × ReqT P × Ends P) := do
  let (id, r, e) ← sendId { r with replyPipe := none } e
  match id with
  | none => return (none, r, e)
  | some took =>
    let (bot, r, e) ← r.sendFirst e bottom
    match bot with
    | none => return (none, r, e)
    | some pipe =>
      if r.replyPipe = none then .error .assertion
      else
        -- eat all messages that can be received
        let (d, e) ← r.toDealerT.drain (r.waiting e + 1) e
        return (some (took ++ [pipe]), { r with toDealerT := d, messageBegins := false }, e)

def sendBody (e : Ends P) (msg : Msg) : Except SocketFault (ReqRc × List (Option P) × ReqT P × Ends P) := do
  let (took, d, e) ← r.toDealerT.sendpipe e msg
  let r := { r with toDealerT := d }
  match took with
  | none => return (.eagain, [], r, e)
  | some pipe => return (.ok, [pipe], if msg.hasMore then r else { r with receivingReply := true, messageBegins := true }, e)

/-- A frame that is the first one of the body. -/
def sendRequest (e : Ends P) (msg : Msg) : Except SocketFault (ReqRc × List (Option P) × ReqT P × Ends P) := do
  let (took, r, e) ← r.sendEnvelope e
  match took with
  | none => return (.eagain, [], r, e)
  | some took =>
    let (rc, took', r, e) ← r.sendBody e msg
    return (rc, took ++ took', r, e)

/-- With the pipes that have taken the frames sent. -/
def xsend (e : Ends P) (msg : Msg) : Except SocketFault (ReqRc × List (Option P) × ReqT P × Ends P) :=
  if r.receivingReply then
    if r.strict then .ok (.efsm, [], r, e)
    else sendRequest { r with receivingReply := false, messageBegins := true } e msg
  else if r.messageBegins then r.sendRequest e msg
  else r.sendBody e msg

/-- The loop of `recv_reply_pipe`, which passes over the frames of other pipes. -/
def recvReplyLoop : ℕ → ReqT P → Ends P → Except SocketFault (Option (P × Msg) × ReqT P × Ends P)
  | 0, r, e => .ok (none, r, e)
  | n + 1, r, e => do
    let (got, d, e) ← r.toDealerT.recvpipe e
    let r := { r with toDealerT := d }
    match got with
    | none => return (none, r, e)
    | some (pipe, msg) =>
      if r.replyPipe = none ∨ r.replyPipe = some pipe then return (some (pipe, msg), r, e) else recvReplyLoop n r e

def recvReplyPipe (e : Ends P) : Except SocketFault (Option (P × Msg) × ReqT P × Ends P) :=
  recvReplyLoop (r.waiting e + 1) r e

/-- The remaining frames of a message are passed over. -/
def skipRest : ℕ → ReqT P → Ends P → Msg → Except SocketFault (ReqT P × Ends P)
  | 0, _, _, _ => .error .assertion
  | n + 1, r, e, msg =>
    if msg.hasMore then do
      let (got, r, e) ← r.recvReplyPipe e
      match got with
      | none => .error .assertion
      | some (_, msg) => skipRest n r e msg
    else .ok (r, e)

/-- One of the first frames of a reply. If it is not as it is to be, the message is passed over; `none` with EAGAIN. -/
def expect (e : Ends P) (good : Msg → Bool) : Except SocketFault (Option Bool × ReqT P × Ends P) := do
  let (got, r, e) ← r.recvReplyPipe e
  match got with
  | none => return (none, r, e)
  | some (_, msg) =>
    if good msg then return (some true, r, e)
    else
      let (r, e) ← r.skipRest (r.waiting e + 2) e msg
      return (some false, r, e)

def goodId (requestId : UInt32) (msg : Msg) : Bool := msg.hasMore && msg.data == requestIdBytes requestId

def goodBottom (msg : Msg) : Bool := msg.hasMore && msg.data.isEmpty

def expectId (e : Ends P) : Except SocketFault (Option Bool × ReqT P × Ends P) :=
  if r.requestIdFramesEnabled then r.expect e (goodId r.requestId) else .ok (some true, r, e)

/-- Messages are passed over until one begins as a reply does; `false` with EAGAIN. -/
def findReply : ℕ → ReqT P → Ends P → Except SocketFault (Bool × ReqT P × Ends P)
  | 0, r, e => .ok (false, r, e)
  | n + 1, r, e => do
    let (id, r, e) ← r.expectId e
    match id with
    | none => return (false, r, e)
    | some false => findReply n r e
    | some true =>
      let (bot, r, e) ← r.expect e goodBottom
      match bot with
      | none => return (false, r, e)
      | some false => findReply n r e
      | some true => return (true, { r with messageBegins := false }, e)

/-- A frame of the body, with the pipe that it comes from. -/
def recvBody (e : Ends P) : Except SocketFault (ReqRc × Option (P × Msg) × ReqT P × Ends P) := do
  let (got, r, e) ← r.recvReplyPipe e
  match got with
  | none => return (.eagain, none, r, e)
  | some (pipe, msg) =>
    return (.ok, some (pipe, msg), if msg.hasMore then r else { r with receivingReply := false, messageBegins := true }, e)

def xrecv (e : Ends P) : Except SocketFault (ReqRc × Option (P × Msg) × ReqT P × Ends P) :=
  if r.receivingReply then
    if r.messageBegins then do
      let (found, r, e) ← r.findReply (r.waiting e + 1) e
      if found then r.recvBody e else return (.eagain, none, r, e)
    else r.recvBody e
  else .ok (.efsm, none, r, e)

def xhasIn (r : ReqT P) (e : Ends P) : Except SocketFault (Bool × ReqT P × Ends P) :=
  if !r.receivingReply then .ok (false, r, e)
  else do
    let (rc, d, e) ← r.toDealerT.xhasIn e
    return (rc, { r with toDealerT := d }, e)

def xhasOut (r : ReqT P) (e : Ends P) : Except SocketFault (Bool × ReqT P × Ends P) :=
  if r.receivingReply then .ok (false, r, e)
  else do
    let (rc, d, e) ← r.toDealerT.xhasOut e
    return (rc, { r with toDealerT := d }, e)

def xpipeTerminated (r : ReqT P) (pipe : P) : ReqT P :=
  { r with
    replyPipe := if r.replyPipe = some pipe then none else r.replyPipe
    toDealerT := r.toDealerT.xpipeTerminated pipe }

end ReqT

end Zmq
