import LibZmq.Zmtp.Mechanism

/-! What the two sides of CURVE have in common. The functions of NaCl are a parameter. A message to be boxed begins with
`crypto_box_ZEROBYTES` zero bytes, and a box with `crypto_box_BOXZEROBYTES` of them. -/

namespace Zmq

/-- `none` is the return value -1. -/
structure Crypto where
  box : (m n pk sk : List UInt8) → Option (List UInt8)
  boxOpen : (c n pk sk : List UInt8) → Option (List UInt8)
  beforenm : (pk sk : List UInt8) → List UInt8
  afternm : (m n k : List UInt8) → Option (List UInt8)
  openAfternm : (c n k : List UInt8) → Option (List UInt8)
  secretbox : (m n k : List UInt8) → Option (List UInt8)
  secretboxOpen : (c n k : List UInt8) → Option (List UInt8)

namespace Crypto

/-- A box that hides nothing: the authenticator is the end of the nonce. -/
def clearBox (m n : List UInt8) : Option (List UInt8) :=
  if m.length < 32 then none else some (List.replicate 16 0 ++ (n.drop 8).take 16 ++ m.drop 32)

def clearOpen (c n : List UInt8) : Option (List UInt8) :=
  if 32 ≤ c.length ∧ (c.drop 16).take 16 = (n.drop 8).take 16 then some (List.replicate 32 0 ++ c.drop 32) else none

def clear : Crypto where
  box m n _ _ := clearBox m n
  boxOpen c n _ _ := clearOpen c n
  beforenm _ _ := List.replicate 32 0
  afternm m n _ := clearBox m n
  openAfternm c n _ := clearOpen c n
  secretbox m n _ := clearBox m n
  secretboxOpen c n _ := clearOpen c n

end Crypto

namespace Curve

/-- `crypto_box_ZEROBYTES` and `crypto_secretbox_ZEROBYTES` -/
def zeroBytes : ℕ := 32

/-- `crypto_box_BOXZEROBYTES` and `crypto_secretbox_BOXZEROBYTES` -/
def boxZeroBytes : ℕ := 16

def zeros (n : ℕ) : List UInt8 := List.replicate n 0

/-- What a function of NaCl writes into a local array of `size` bytes. -/
def into (size : ℕ) (c : List UInt8) : Except Crash (List UInt8) := Block.append size [] c

/-- What is left of a box when the leading zeros are not sent. -/
def strip (c : List UInt8) : List UInt8 := c.drop boxZeroBytes

/-- A box that is received, in a local array of `size` bytes. -/
def received (size : ℕ) (c : List UInt8) : Except Crash (List UInt8) := do
  Block.append size (← Block.append size [] (zeros boxZeroBytes)) c

/-- `n` random bytes, `k` have been drawn before. -/
def draw (random : ℕ → UInt8) (k n : ℕ) : List UInt8 := (List.range n).map fun i => random (k + i)

def helloTag : List UInt8 := ascii ['C', 'u', 'r', 'v', 'e', 'Z', 'M', 'Q', 'H', 'E', 'L', 'L', 'O', '-', '-', '-']

def welcomeTag : List UInt8 := ascii ['W', 'E', 'L', 'C', 'O', 'M', 'E', '-']

def cookieTag : List UInt8 := ascii ['C', 'O', 'O', 'K', 'I', 'E', '-', '-']

def vouchTag : List UInt8 := ascii ['V', 'O', 'U', 'C', 'H', '-', '-', '-']

def initiateTag : List UInt8 := ascii ['C', 'u', 'r', 'v', 'e', 'Z', 'M', 'Q', 'I', 'N', 'I', 'T', 'I', 'A', 'T', 'E']

def readyTag : List UInt8 := ascii ['C', 'u', 'r', 'v', 'e', 'Z', 'M', 'Q', 'R', 'E', 'A', 'D', 'Y', '-', '-', '-']

/-- Of the nonces of messages from the client. -/
def clientTag : List UInt8 := ascii ['C', 'u', 'r', 'v', 'e', 'Z', 'M', 'Q', 'M', 'E', 'S', 'S', 'A', 'G', 'E', 'C']

/-- Of the nonces of messages from the server. -/
def serverTag : List UInt8 := ascii ['C', 'u', 'r', 'v', 'e', 'Z', 'M', 'Q', 'M', 'E', 'S', 'S', 'A', 'G', 'E', 'S']

def messageFlags (m : Msg) : UInt8 :=
  (if m.flags &&& Msg.more ≠ 0 then 0x01 else 0) ||| (if m.flags &&& Msg.command ≠ 0 then 0x02 else 0)

/-- `encode`: `tag` begins the nonce, `nonce` is `cn_nonce`. -/
def encodeMessage (crypto : Crypto) (tag : List UInt8) (nonce : UInt64) (precom : List UInt8) (m : Msg) :
    Except Crash Msg :=
  match crypto.afternm (zeros zeroBytes ++ messageFlags m :: m.data) (tag ++ putUint64 nonce) precom with
  | none => .error .assertion
  | some c => .ok (.ofData (messageName ++ putUint64 nonce ++ strip c))

/-- The decoded message: the flags are those of the first byte. -/
def openedMessage (plaintext : List UInt8) : Msg :=
  let flags := plaintext.getD zeroBytes 0
  let m := Msg.ofData (plaintext.drop (zeroBytes + 1))
  let m := if flags &&& 0x01 ≠ 0 then m.setFlags Msg.more else m
  if flags &&& 0x02 ≠ 0 then m.setFlags Msg.command else m

/-- `decode`: the nonce counts as used before the box is opened. -/
def decodeMessage (crypto : Crypto) (tag : List UInt8) (peerNonce : UInt64) (precom : List UInt8) (m : Msg) :
    Except MechErrno Msg × UInt64 :=
  if m.data.length < 33 then (.error .eproto, peerNonce)
  else if m.data.take 8 ≠ messageName then (.error .eproto, peerNonce)
  else
    let nonce := getUint64 (m.data.drop 8)
    if nonce ≤ peerNonce then (.error .eproto, peerNonce)
    else
      match crypto.openAfternm (zeros boxZeroBytes ++ m.data.drop 16) (tag ++ (m.data.drop 8).take 8) precom with
      | none => (.error .eproto, nonce)
      | some plaintext => (.ok (openedMessage plaintext), nonce)

variable {size : ℕ} {c r : List UInt8}

theorem into_ok (h : c.length ≤ size) : into size c = .ok c := Block.append_ok (by rwa [List.length_nil, Nat.zero_add])

theorem into_eq (h : into size c = .ok r) : c.length ≤ size ∧ r = c := by
  obtain ⟨hlen, hr⟩ := Block.append_eq h
  rw [List.length_nil, Nat.zero_add] at hlen
  exact ⟨hlen, hr⟩

theorem received_ok (h : boxZeroBytes + c.length ≤ size) : received size c = .ok (zeros boxZeroBytes ++ c) := by
  have hz : ([] ++ zeros boxZeroBytes : List UInt8).length = boxZeroBytes := by simp [zeros]
  unfold received
  rw [Block.append_ok (by rw [← List.length_append, hz]; omega)]
  exact Block.append_ok (by rw [hz]; exact h)

theorem received_eq (h : received size c = .ok r) : boxZeroBytes + c.length ≤ size ∧ r = zeros boxZeroBytes ++ c := by
  obtain ⟨b, hb, h⟩ := bind_ok h
  obtain ⟨-, rfl⟩ := Block.append_eq hb
  obtain ⟨hlen, hr⟩ := Block.append_eq h
  simp only [List.nil_append, zeros, List.length_replicate] at hlen hr
  exact ⟨hlen, hr⟩

end Curve

end Zmq
