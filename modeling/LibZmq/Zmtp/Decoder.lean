import LibZmq.Collect
import LibZmq.Zmtp.Encoder

/-! `decoder_base_t`. Pointers are offsets into one of three pieces of memory, and every
access is checked against the piece that it goes to. -/

namespace Zmq

/-- `read_pos` and the addresses it is compared to. -/
inductive Ptr where
  /-- into the `tmpbuf` of the derived class -/
  | tmp (i : ℕ)
  /-- into the memory that a message has of its own -/
  | msg (i : ℕ)
  /-- into the buffer of the allocator -/
  | buf (i : ℕ)
deriving DecidableEq

namespace Ptr

def add : Ptr → ℕ → Ptr
  | .tmp i, n => .tmp (i + n)
  | .msg i, n => .msg (i + n)
  | .buf i, n => .buf (i + n)

@[simp] theorem add_zero (p : Ptr) : p.add 0 = p := by cases p <;> rfl

theorem add_add (p : Ptr) (m n : ℕ) : (p.add m).add n = p.add (m + n) := by
  cases p <;> simp [add, Nat.add_assoc]

end Ptr

/-- The payload of the message in progress. -/
inductive Body where
  /-- `size` bytes of its own, of which the first ones have been stored -/
  | own (size : ℕ) (stored : List UInt8)
  /-- bytes of the receive buffer from an offset on -/
  | inPlace (off : ℕ) (bytes : List UInt8)

def maxVsmSize : ℕ := 33

namespace Body

def size : Body → ℕ
  | .own size _ => size
  | .inPlace _ bytes => bytes.length

def data : Body → Ptr
  | .own _ _ => .msg 0
  | .inPlace off _ => .buf off

def bytes : Body → List UInt8
  | .own _ stored => stored
  | .inPlace _ bytes => bytes

def type : Body → MsgType
  | .own size _ => if size ≤ maxVsmSize then .vsm else .lmsg
  | .inPlace _ _ => .zclmsg

end Body

inductive Errno where
  | eproto | emsgsize | enomem
deriving DecidableEq

/-- What an action of the state machine, or `decode`, returns. -/
inductive Rc where
  /-- 0: more data are required -/
  | more
  /-- 1: the message in progress is complete -/
  | message
  /-- -1 -/
  | error (e : Errno)
deriving DecidableEq

/-- What the decoder gets from its surroundings: the limit on the size of a message, and
whether `malloc` of a number of bytes succeeds. -/
structure DecoderEnv where
  maxmsgsize : ℤ
  malloc : ℕ → Bool

structure Allocator where
  base : UInt64
  received : List UInt8
  bufsize : ℕ
  maxSize : ℕ

structure Allocator.Filled (mem : Allocator) : Prop where
  told : mem.bufsize = mem.received.length
  fits : mem.received.length ≤ mem.maxSize

/-- `own` holds the next action and other fields of the derived class. -/
structure Decoder (τ : Type) where
  own : τ
  readPos : Ptr
  toRead : ℕ
  tmpbuf : List UInt8
  flags : UInt8
  body : Body
  alloc : Allocator

namespace Decoder

variable {τ : Type} (d : Decoder τ)

def nextStep (readPos : Ptr) (toRead : ℕ) (own : τ) : Decoder τ :=
  { d with readPos := readPos, toRead := toRead, own := own }

def contentSize : ℕ := 40

def initSizeOk (env : DecoderEnv) (size : ℕ) : Bool :=
  size ≤ maxVsmSize || (contentSize + size < 2 ^ 64 && env.malloc (contentSize + size))

theorem initSizeOk_cases {env : DecoderEnv} {size : ℕ} (h : initSizeOk env size = true) :
    size ≤ 33 ∨ 40 + size < 2 ^ 64 ∧ env.malloc (40 + size) = true := by
  simp only [initSizeOk, Bool.or_eq_true, Bool.and_eq_true, decide_eq_true_eq] at h
  exact h

def initSize (env : DecoderEnv) (size : ℕ) : Option (Decoder τ) :=
  if initSizeOk env size then some { d with flags := 0, body := .own size [] } else none

/-- The size exceeds `maxmsgsize`, which has no limit if it is negative. -/
def tooLarge (env : DecoderEnv) (size : ℕ) : Prop := env.maxmsgsize ≥ 0 ∧ (size : ℤ) > env.maxmsgsize

instance (env : DecoderEnv) (size : ℕ) : Decidable (tooLarge env size) :=
  inferInstanceAs (Decidable (_ ∧ _))

/-- The bytes from `p` on belong to the decoder, to its message or to the allocator. -/
def owns (p : Ptr) (n : ℕ) : Bool :=
  match p with
  | .tmp i => i + n ≤ d.tmpbuf.length
  | .msg i =>
    match d.body with
    | .own size stored => i ≤ stored.length && i + n ≤ size
    | .inPlace _ _ => false
  | .buf i => i + n ≤ d.alloc.maxSize

def store (bytes : List UInt8) : Except CodecFault (Decoder τ) :=
  if d.owns d.readPos bytes.length then
    match d.readPos with
    | .tmp i => .ok { d with tmpbuf := d.tmpbuf.take i ++ bytes ++ d.tmpbuf.drop (i + bytes.length) }
    | .msg i =>
      match d.body with
      | .own size stored =>
        .ok { d with body := .own size (stored.take i ++ bytes ++ stored.drop (i + bytes.length)) }
      | .inPlace _ _ => .error .outOfBounds
    | .buf i =>
      let received := d.alloc.received.take i ++ bytes ++ d.alloc.received.drop (i + bytes.length)
      .ok { d with alloc := { d.alloc with received := received } }
  else .error .outOfBounds

def advance (n : ℕ) : Decoder τ :=
  { d with readPos := d.readPos.add n, toRead := d.toRead - n }

/-- The buffer to be filled, and its size. The allocator makes a new buffer at the address
`addr`, or uses the old one again. -/
def getBuffer (allocate : Allocator → UInt64 → Allocator) (addr : UInt64) :
    Except CodecFault (Ptr × ℕ × Decoder τ) :=
  let d := { d with alloc := allocate d.alloc addr }
  if d.alloc.bufsize ≤ d.toRead then
    if d.owns d.readPos d.toRead then .ok (d.readPos, d.toRead, d) else .error .outOfBounds
  else if d.owns (.buf 0) d.alloc.bufsize then .ok (.buf 0, d.alloc.bufsize, d)
  else .error .outOfBounds

def runSteps (act : Decoder τ → Ptr → Except CodecFault (Rc × Decoder τ)) (readFrom : Ptr) :
    ℕ → Decoder τ → Except CodecFault (Rc × Decoder τ)
  | 0, _ => .error .stuck
  | fuel + 1, d =>
    if d.toRead ≠ 0 then .ok (.more, d)
    else do
      let (rc, d) ← act d readFrom
      if rc ≠ .more then return (rc, d)
      runSteps act readFrom fuel d

/-- The state machine never runs more than two actions in a row. -/
def stepFuel : ℕ := 3

/-- Copy bytes that are at `src`, unless the message is in place there. -/
def copyFrom (src : Ptr) (bytes : List UInt8) : Except CodecFault (Decoder τ) :=
  if d.readPos ≠ src then d.store bytes else .ok d

/-- The loop of `decode`: `used` of the bytes at `data` are processed, `bytes` are not. -/
def decodeLoop (act : Decoder τ → Ptr → Except CodecFault (Rc × Decoder τ)) (data : Ptr) :
    ℕ → Decoder τ → ℕ → List UInt8 → Except CodecFault (Rc × ℕ × Decoder τ)
  | 0, _, _, _ => .error .stuck
  | fuel + 1, d, used, bytes =>
    if bytes = [] then .ok (.more, used, d)
    else do
      let toCopy := min d.toRead bytes.length
      let d ← d.copyFrom (data.add used) (bytes.take toCopy)
      let d := d.advance toCopy
      let used := used + toCopy
      let (rc, d) ← runSteps act (data.add used) stepFuel d
      if rc ≠ .more then return (rc, used, d)
      decodeLoop act data fuel d used (bytes.drop toCopy)

/-- `decode`, with the bytes that are at `data`; returns how many of them were used. -/
def decode (act : Decoder τ → Ptr → Except CodecFault (Rc × Decoder τ)) (d : Decoder τ) (data : Ptr)
    (bytes : List UInt8) : Except CodecFault (Rc × ℕ × Decoder τ) :=
  if data = d.readPos then
    if d.toRead < bytes.length then .error .assertion
    else do
      let (rc, d) ← runSteps act (data.add bytes.length) stepFuel (d.advance bytes.length)
      return (rc, bytes.length, d)
  else decodeLoop act data (bytes.length + 1) d 0 bytes

/-- The message is complete, and the caller moves it out of the decoder. -/
def message : Msg × Decoder τ :=
  (⟨d.body.type, d.flags, d.body.bytes⟩, { d with flags := 0, body := .own 0 [] })

def decodeAll (act : Decoder τ → Ptr → Except CodecFault (Rc × Decoder τ)) :
    ℕ → Decoder τ → Ptr → List UInt8 → Except CodecFault (List Msg × Option Errno × Decoder τ)
  | 0, _, _, _ => .error .stuck
  | fuel + 1, d, data, bytes =>
    if bytes = [] then .ok ([], none, d)
    else do
      let (rc, used, d) ← d.decode act data bytes
      match rc with
      | .more => return ([], none, d)
      | .error e => return ([], some e, d)
      | .message =>
        let (m, d) := d.message
        let (ms, e, d) ← decodeAll act fuel d (data.add used) (bytes.drop used)
        return (m :: ms, e, d)

def fill (p : Ptr) (bytes : List UInt8) : Except CodecFault (Decoder τ) :=
  match p with
  | .buf _ => .ok { d with alloc := { d.alloc with received := bytes } }
  | _ => d.store bytes

def pieces : List UInt8 → List ℕ → List (List UInt8)
  | bytes, [] => [bytes]
  | bytes, k :: cuts => bytes.take k :: pieces (bytes.drop k) cuts

def decodePieces (act : Decoder τ → Ptr → Except CodecFault (Rc × Decoder τ)) :
    Decoder τ → Ptr → List (List UInt8) → Except CodecFault (List Msg × Option Errno × Decoder τ)
  | d, _, [] => .ok ([], none, d)
  | d, p, bytes :: rest => do
    let (ms, e, d) ← decodeAll act (bytes.length + 1) d p bytes
    if e ≠ none then return (ms, e, d)
    let (ms', e, d) ← decodePieces act d (p.add bytes.length) rest
    return (ms ++ ms', e, d)

/-- A read of at most `n` bytes into the buffer that the decoder provides, which is at the
address `addr` if it is new. -/
structure Read where
  addr : UInt64
  n : ℕ
  cuts : List ℕ

/-- Get a buffer, read some of the stream into it, tell the decoder how much, and decode. -/
def receive (act : Decoder τ → Ptr → Except CodecFault (Rc × Decoder τ))
    (allocate : Allocator → UInt64 → Allocator) (resize : Allocator → ℕ → Allocator)
    (d : Decoder τ) (r : Read) (stream : List UInt8) :
    Except CodecFault (List Msg × Option Errno × Decoder τ × List UInt8) := do
  let (p, size, d) ← d.getBuffer allocate r.addr
  let bytes := stream.take (min r.n size)
  let d ← d.fill p bytes
  let d := { d with alloc := resize d.alloc bytes.length }
  let (ms, e, d) ← decodePieces act d p (pieces bytes r.cuts)
  return (ms, e, d, stream.drop (min r.n size))

def receiveAll (act : Decoder τ → Ptr → Except CodecFault (Rc × Decoder τ))
    (allocate : Allocator → UInt64 → Allocator) (resize : Allocator → ℕ → Allocator) :
    Decoder τ → List Read → List UInt8 →
    Except CodecFault (List Msg × Option Errno × Decoder τ × List UInt8)
  | d, [], stream => .ok ([], none, d, stream)
  | d, r :: reads, stream => do
    let (ms, e, d, stream) ← d.receive act allocate resize r stream
    if e ≠ none then return (ms, e, d, stream)
    let (ms', e, d, stream) ← receiveAll act allocate resize d reads stream
    return (ms ++ ms', e, d, stream)

end Decoder

end Zmq
