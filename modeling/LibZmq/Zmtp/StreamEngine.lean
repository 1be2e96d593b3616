import LibZmq.Zmtp.Encoder

/-! `stream_engine_t`: the exchange of greetings, and the output. Memory that `outpos` points to is the list of the
`outsize` bytes there. -/

namespace Zmq

inductive Security where
  | null | plain | curve | gssapi
deriving DecidableEq

/-- `haveCurve` and `haveGssapi` are options of the build. -/
structure EngineOptions where
  identity : List UInt8
  type : UInt8
  mechanism : Security
  zapDomain : List UInt8
  haveCurve : Bool
  haveGssapi : Bool
  /-- `identity_size` is an `unsigned char` -/
  identity_le : identity.length ≤ 255

/-- What `handshake` may find the peer to speak. -/
inductive Protocol where
  | unversioned | zmtp1 | zmtp2
  | zmtp3 (mechanism : Security)
deriving DecidableEq

inductive EncoderKind where
  | v1 | v2

namespace EncoderKind

def act : EncoderKind → EncodeStep → Encoder → Msg → Encoder
  | .v1 => V1Encoder.act
  | .v2 => V2Encoder.act

def header : EncoderKind → Msg → List UInt8
  | .v1 => V1Encoder.header
  | .v2 => V2Encoder.header

def frame (kind : EncoderKind) (m : Msg) : List UInt8 := kind.header m ++ m.data

theorem writes (kind : EncoderKind) : Encoder.Writes kind.act kind.header :=
  match kind with
  | .v1 => Encoder.v1_writes
  | .v2 => Encoder.v2_writes

end EncoderKind

inductive OutPos where
  | null
  | greeting (offset : ℕ)
  /-- the buffer of the encoder, or the message being encoded -/
  | encoder
deriving DecidableEq

structure StreamEngine where
  options : EngineOptions
  /-- the `insize` bytes at `inpos` -/
  inbuf : List UInt8
  outpos : OutPos
  out : List UInt8
  encoder : Option (EncoderKind × Encoder)
  handshaking : Bool
  greetingSize : ℕ
  /-- the part of `greeting_recv` that has been read -/
  greetingRecv : List UInt8
  outputStopped : Bool
  /-- the encoder, the decoder and the mechanism that `handshake` has made -/
  protocol : Option Protocol
  failed : Bool

namespace StreamEngine

def signatureSize : ℕ := 10
def v2GreetingSize : ℕ := 12
def v3GreetingSize : ℕ := 64
def revisionPos : ℕ := 10
def outBatchSize : ℕ := 8192

def zmtp10 : UInt8 := 0
def zmtp20 : UInt8 := 1

variable (o : EngineOptions)

def zapEnabled : Bool := o.mechanism ≠ .null ∨ o.zapDomain ≠ []

/-- The length and flags fields of the identity message, the length in the long format. -/
def signature : List UInt8 :=
  0xff :: (putUint64 (UInt64.ofNat (o.identity.length + 1)) ++ [0x7f])

/-- The name of the mechanism in ASCII, in a field of 20 bytes. -/
def mechanismName (m : Security) : List UInt8 :=
  let name : List UInt8 := match m with
    | .null => [0x4e, 0x55, 0x4c, 0x4c]
    | .plain => [0x50, 0x4c, 0x41, 0x49, 0x4e]
    | .curve => [0x43, 0x55, 0x52, 0x56, 0x45]
    | .gssapi => [0x47, 0x53, 0x53, 0x41, 0x50, 0x49]
  name ++ List.replicate (20 - name.length) 0

def new : StreamEngine where
  options := o
  inbuf := []
  outpos := .greeting 0
  out := signature o
  encoder := none
  handshaking := true
  greetingSize := v2GreetingSize
  greetingRecv := []
  outputStopped := false
  protocol := none
  failed := false

variable (s : StreamEngine)

/-- `greeting_recv [i]` -/
def recv (i : ℕ) : Except CodecFault UInt8 :=
  match s.greetingRecv[i]? with
  | some b => .ok b
  | none => .error .outOfBounds

/-- `outpos + outsize == greeting_send + n` -/
def sent (n : ℕ) : Bool :=
  match s.outpos with
  | .greeting offset => offset + s.out.length == n
  | _ => false

/-- Bytes are stored at `outpos + outsize`, and `outsize` grows. -/
def queue (bytes : List UInt8) : Except CodecFault StreamEngine :=
  match s.outpos with
  | .greeting offset =>
    if offset + s.out.length + bytes.length ≤ v3GreetingSize then .ok { s with out := s.out ++ bytes }
    else .error .outOfBounds
  | .null => .error .nullDereference
  | .encoder => .error .foreignPointer

def sendVersion : Except CodecFault StreamEngine :=
  if s.sent signatureSize then s.queue [3] else .ok s

/-- The rest of the greeting, which depends on the revision of the peer. -/
def sendRest : Except CodecFault StreamEngine :=
  if signatureSize < s.greetingRecv.length ∧ s.sent (signatureSize + 1) then do
    let revision ← s.recv revisionPos
    if revision = zmtp10 ∨ revision = zmtp20 then s.queue [s.options.type]
    else do
      let s ← s.queue (0 :: (mechanismName s.options.mechanism ++ List.replicate 32 0))
      return { s with greetingSize := v3GreetingSize }
  else .ok s

/-- What follows each read of `handshake`; `false` is the `break`. -/
def received : Except CodecFault (Bool × StreamEngine) := do
  let first ← s.recv 0
  if first ≠ 0xff then return (false, s)
  else if s.greetingRecv.length < signatureSize then return (true, s)
  else do
    let flags ← s.recv 9
    if flags &&& 1 = 0 then return (false, s)
    else do
      let s ← s.sendVersion
      let s ← s.sendRest
      return (true, s)

/-- The loop of `handshake`. Each `tcp_read` returns as many bytes as `reads` says, if there are so many and there
is room; `false` with EAGAIN. -/
def receiveGreeting : List ℕ → StreamEngine → List UInt8 → Except CodecFault (Bool × StreamEngine × List UInt8)
  | [], s, wire => .ok (decide (s.greetingSize ≤ s.greetingRecv.length), s, wire)
  | n :: reads, s, wire =>
    if s.greetingRecv.length < s.greetingSize then do
      let room := min n (s.greetingSize - s.greetingRecv.length)
      if wire.take room = [] then return (false, s, wire)
      else do
        let (more, s) ← received { s with greetingRecv := s.greetingRecv ++ wire.take room }
        if more then receiveGreeting reads s (wire.drop room) else return (true, s, wire.drop room)
    else .ok (true, s, wire)

def isUnversioned : Except CodecFault Bool := do
  let first ← s.recv 0
  if first ≠ 0xff then return true
  else do
    let flags ← s.recv 9
    return flags &&& 1 = 0

/-- `memcmp (greeting_recv + 12, name, 20) == 0` -/
def offers (m : Security) : Except CodecFault Bool :=
  if s.greetingRecv.length < 12 + 20 then .error .outOfBounds
  else .ok ((s.greetingRecv.drop 12).take 20 = mechanismName m)

def built : Bool :=
  match o.mechanism with
  | .null | .plain => true
  | .curve => o.haveCurve
  | .gssapi => o.haveGssapi

/-- `none` when `handshake` calls `error (protocol_error)`. -/
def select : Except CodecFault (Option Protocol) := do
  let unversioned ← s.isUnversioned
  if unversioned then return if zapEnabled s.options then none else some .unversioned
  else do
    let revision ← s.recv revisionPos
    if revision = zmtp10 then return if zapEnabled s.options then none else some .zmtp1
    else if revision = zmtp20 then return if zapEnabled s.options then none else some .zmtp2
    else do
      let same ← s.offers s.options.mechanism
      return if built s.options ∧ same then some (.zmtp3 s.options.mechanism) else none

def identityMsg : Msg := .ofData o.identity

/-- The part of `handshake` for an unversioned peer: the header of the identity message has been sent already, and
the decoder sees what has been received. -/
def beginUnversioned : Except CodecFault StreamEngine := do
  let headerSize := if 255 ≤ s.options.identity.length + 1 then 10 else 2
  let encoder ← (Encoder.new outBatchSize).loadMsg (EncoderKind.act .v1) (identityMsg s.options)
  let (tmp, encoder) ← encoder.encode (EncoderKind.act .v1) (some headerSize)
  if tmp.length ≠ headerSize then .error .assertion
  else return { s with encoder := some (.v1, encoder), inbuf := s.greetingRecv }

def begin : Protocol → Except CodecFault StreamEngine
  | .unversioned => s.beginUnversioned
  | .zmtp1 => .ok { s with encoder := some (.v1, .new outBatchSize) }
  | .zmtp2 | .zmtp3 _ => .ok { s with encoder := some (.v2, .new outBatchSize) }

/-- The end of `handshake`, once the greeting has been received. -/
def conclude : Except CodecFault StreamEngine := do
  match ← s.select with
  | none => return { s with failed := true }
  | some protocol => do
    let s ← s.begin protocol
    return { s with handshaking := false, protocol := some protocol }

def handshake (reads : List ℕ) (wire : List UInt8) :
    Except CodecFault (StreamEngine × List UInt8) :=
  if !s.handshaking ∨ s.greetingSize ≤ s.greetingRecv.length then .error .assertion
  else do
    let (complete, s, wire) ← receiveGreeting reads s wire
    if complete then do
      let s ← s.conclude
      return (s, wire)
    else return (s, wire)

/-- The loop of `out_event`: `msgs` are the messages that `next_msg` gives before it fails. Returns those it has
given. -/
def fill (kind : EncoderKind) : List Msg → OutPos → List UInt8 → Encoder →
    Except CodecFault (List Msg × OutPos × List UInt8 × Encoder)
  | [], outpos, out, e => .ok ([], outpos, out, e)
  | m :: msgs, outpos, out, e =>
    if out.length < outBatchSize then do
      let e ← e.loadMsg kind.act m
      let (bytes, e) ← e.encode kind.act (if outpos = .null then none else some (outBatchSize - out.length))
      if bytes = [] then .error .assertion
      else do
        let (given, rest) ← fill kind msgs .encoder (out ++ bytes) e
        return (m :: given, rest)
    else .ok ([], outpos, out, e)

/-- The part of `out_event` that reads from the encoder, which sets `outpos` if there is a message in progress. -/
def readEncoder (kind : EncoderKind) (e : Encoder) (msgs : List Msg) :
    Except CodecFault (List Msg × StreamEngine) := do
  let outpos := if e.inProgress = none then OutPos.null else .encoder
  let (out, e) ← e.encode kind.act none
  let (given, outpos, out, e) ← fill kind msgs outpos out e
  return (given, { s with outpos := outpos, out := out, encoder := some (kind, e), outputStopped := out = [] || s.outputStopped })

/-- The part of `out_event` that writes: `nbytes` is what `tcp_write` returns, `none` for -1. Returns what the
socket has accepted. -/
def writeOut (nbytes : Option ℕ) : List UInt8 × StreamEngine :=
  match nbytes with
  | none => ([], s)
  | some n =>
    let outpos := match s.outpos with
      | .greeting offset => .greeting (offset + min n s.out.length)
      | outpos => outpos
    (s.out.take n, { s with outpos := outpos, out := s.out.drop n })

/-- Returns the messages that have been taken and what the socket has accepted. -/
def outEvent (msgs : List Msg) (nbytes : Option ℕ) :
    Except CodecFault (List Msg × List UInt8 × StreamEngine) :=
  if s.out = [] then
    match s.encoder with
    | none => if s.handshaking then .ok ([], [], s) else .error .assertion
    | some (kind, e) => do
      let (given, s) ← s.readEncoder kind e msgs
      return (given, if s.out = [] then ([], s) else s.writeOut nbytes)
  else .ok ([], s.writeOut nbytes)

def restartOutput (msgs : List Msg) (nbytes : Option ℕ) :
    Except CodecFault (List Msg × List UInt8 × StreamEngine) :=
  outEvent { s with outputStopped := false } msgs nbytes

end StreamEngine

end Zmq
