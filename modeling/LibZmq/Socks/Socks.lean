import Mathlib.Tactic

/-! The messages that are exchanged with a SOCKS5 proxy. A buffer is the list of what has been encoded into it or read into it, and
what `tcp_read` and `tcp_write` return is an argument. -/

namespace Zmq

inductive SocksFault where
  | assertion
  /-- the assertion on the length of a hostname -/
  | longHostname
  | outOfBounds
  | divisionByZero
  /-- a handle is used that is not registered with the poller -/
  | unregistered

/-- `socks_greeting_encoder_t` and `socks_request_encoder_t`, but for what they encode. -/
structure SocksEncoderT where
  buf : List UInt8
  bytesWritten : ℕ

namespace SocksEncoderT

def new : SocksEncoderT := ⟨[], 0⟩

def output (e : SocksEncoderT) (rc : ℤ) : SocksEncoderT := { e with bytesWritten := e.bytesWritten + rc.toNat }

def hasPendingData (e : SocksEncoderT) : Bool := e.bytesWritten < e.buf.length

end SocksEncoderT

structure SocksGreetingT where
  methods : List UInt8

/-- `socks_greeting_encoder_t::encode` -/
def SocksGreetingT.encode (greeting : SocksGreetingT) : SocksEncoderT :=
  ⟨[0x05, UInt8.ofNat greeting.methods.length] ++ greeting.methods, 0⟩

structure SocksRequestT where
  command : UInt8
  hostname : List UInt8
  port : UInt16
  bounded : hostname.length ≤ 255

def socksRequestT (command : UInt8) (hostname : List UInt8) (port : UInt16) : Except SocksFault SocksRequestT :=
  if h : hostname.length ≤ 255 then .ok ⟨command, hostname, port, h⟩ else .error .longHostname

/-- What `getaddrinfo` makes of a host without looking it up. -/
inductive NumericHost where
  | inet (addr : Vector UInt8 4)
  | inet6 (addr : Vector UInt8 16)
  | other

/-- `socks_request_encoder_t::encode` -/
def SocksRequestT.encode (getaddrinfo : List UInt8 → NumericHost) (req : SocksRequestT) : SocksEncoderT :=
  let addr := match getaddrinfo req.hostname with
    | .inet addr => 0x01 :: addr.toList
    | .inet6 addr => 0x04 :: addr.toList
    | .other => 0x03 :: UInt8.ofNat req.hostname.length :: req.hostname
  ⟨[0x05, req.command, 0x00] ++ addr ++ [(req.port / 256).toUInt8, (req.port % 256).toUInt8], 0⟩

theorem SocksGreetingT.encode_pending (greeting : SocksGreetingT) : greeting.encode.hasPendingData = true :=
  decide_eq_true (Nat.succ_pos _)

theorem SocksRequestT.encode_pending (getaddrinfo : List UInt8 → NumericHost) (req : SocksRequestT) :
    (req.encode getaddrinfo).hasPendingData = true := by
  simp [encode, SocksEncoderT.hasPendingData]

structure SocksChoiceT where
  method : UInt8

structure SocksChoiceDecoderT where
  buf : List UInt8

namespace SocksChoiceDecoderT

def new : SocksChoiceDecoderT := ⟨[]⟩

def input (d : SocksChoiceDecoderT) (data : Option (List UInt8)) : Except SocksFault (ℤ × SocksChoiceDecoderT) :=
  if ¬ d.buf.length < 2 then .error .assertion
  else
    match data with
    | none => .ok (-1, d)
    | some [] => .ok (0, d)
    | some xs =>
      if ∃ b ∈ (d.buf ++ xs)[0]?, b ≠ 0x05 then .ok (-1, ⟨d.buf ++ xs⟩)
      else .ok (xs.length, ⟨d.buf ++ xs⟩)

def messageReady (d : SocksChoiceDecoderT) : Bool := d.buf.length = 2

def decode (d : SocksChoiceDecoderT) : Except SocksFault SocksChoiceT :=
  if d.messageReady then .ok ⟨d.buf.getD 1 0⟩ else .error .assertion

end SocksChoiceDecoderT

structure SocksResponseT where
  responseCode : UInt8
  address : List UInt8
  port : UInt16

/-- The elements of the buffer are signed. -/
structure SocksResponseDecoderT where
  buf : List UInt8
deriving DecidableEq

namespace SocksResponseDecoderT

def size : ℕ := 262

def new : SocksResponseDecoderT := ⟨[]⟩

/-- The number of bytes that `tcp_read` is asked for, a `size_t`. -/
def request (d : SocksResponseDecoderT) : Except SocksFault ℕ :=
  if d.buf.length < 5 then .ok (5 - d.buf.length)
  else
    match d.buf.getD 3 0 with
    | 0x01 => .ok (3 + 2)
    | 0x03 => .ok (((d.buf.getD 4 0).toInt8.toInt + 2) % 2 ^ 64).toNat
    | 0x04 => .ok (15 + 2)
    | _ => .error .assertion

/-- The checks on the bytes that are there. -/
def Rejects (buf : List UInt8) : Prop :=
  (∃ b ∈ buf[0]?, b ≠ 0x05) ∨ (∃ b ∈ buf[1]?, b.toInt8.toInt > 0x08) ∨ (∃ b ∈ buf[2]?, b ≠ 0x00) ∨
    ∃ b ∈ buf[3]?, b ≠ 0x01 ∧ b ≠ 0x03 ∧ b ≠ 0x04

instance (buf : List UInt8) : Decidable (Rejects buf) := by
  unfold Rejects
  infer_instance

def input (d : SocksResponseDecoderT) (data : Option (List UInt8)) : Except SocksFault (ℤ × SocksResponseDecoderT) :=
  d.request.bind fun _ =>
    match data with
    | none => .ok (-1, d)
    | some [] => .ok (0, d)
    | some xs =>
      if size < d.buf.length + xs.length then .error .outOfBounds
      else if Rejects (d.buf ++ xs) then .ok (-1, ⟨d.buf ++ xs⟩)
      else .ok (xs.length, ⟨d.buf ++ xs⟩)

def messageReady (d : SocksResponseDecoderT) : Except SocksFault Bool :=
  if d.buf.length < 4 then .ok false
  else
    match d.buf.getD 3 0 with
    | 0x01 => .ok (d.buf.length = 10)
    -- the sum is an unsigned int
    | 0x03 => .ok (4 < d.buf.length ∧ (d.buf.length : ℤ) = (4 + 1 + (d.buf.getD 4 0).toInt8.toInt + 2) % 2 ^ 32)
    | 0x04 => .ok (d.buf.length = 22)
    | _ => .error .assertion

def decode (d : SocksResponseDecoderT) : Except SocksFault SocksResponseT :=
  d.messageReady.bind fun ready => if ready then .ok ⟨d.buf.getD 1 0, [], 0⟩ else .error .assertion

end SocksResponseDecoderT

end Zmq
