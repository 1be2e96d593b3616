import LibZmq.Block
import LibZmq.Zmtp.StreamEngine

/-! `mechanism_t`: the properties of a peer, and how they are written and parsed. A name that is given as a C string
is the list of the bytes before its end. -/

namespace Zmq

/-- What `errno` says after -1; `other` is for derived classes. -/
inductive MechErrno where
  | eagain | eproto | einval | eacces | efsm | econnrefused | enotconn
  | other (code : ℕ)
deriving DecidableEq

inductive Ret where
  | ok
  | error (e : MechErrno)
deriving DecidableEq

structure MechanismOptions extends EngineOptions where
  recvIdentity : Bool
  plainUsername : List UInt8
  plainPassword : List UInt8

def MechanismOptions.new (type : UInt8) : MechanismOptions where
  identity := []
  type := type
  mechanism := .null
  zapDomain := []
  haveCurve := true
  haveGssapi := false
  identity_le := Nat.zero_le _
  recvIdentity := false
  plainUsername := []
  plainPassword := []

def ascii (name : List Char) : List UInt8 := name.map fun c => UInt8.ofNat c.toNat

/-- The types of sockets in the order of their numbers. -/
def socketTypeNames : List (List UInt8) :=
  [ascii ['P', 'A', 'I', 'R'], ascii ['P', 'U', 'B'], ascii ['S', 'U', 'B'], ascii ['R', 'E', 'Q'],
    ascii ['R', 'E', 'P'], ascii ['D', 'E', 'A', 'L', 'E', 'R'], ascii ['R', 'O', 'U', 'T', 'E', 'R'],
    ascii ['P', 'U', 'L', 'L'], ascii ['P', 'U', 'S', 'H'], ascii ['X', 'P', 'U', 'B'], ascii ['X', 'S', 'U', 'B'],
    ascii ['S', 'T', 'R', 'E', 'A', 'M'], ascii ['S', 'E', 'R', 'V', 'E', 'R'], ascii ['C', 'L', 'I', 'E', 'N', 'T'],
    ascii ['R', 'A', 'D', 'I', 'O'], ascii ['D', 'I', 'S', 'H'], ascii ['G', 'A', 'T', 'H', 'E', 'R'],
    ascii ['S', 'C', 'A', 'T', 'T', 'E', 'R'], ascii ['D', 'G', 'R', 'A', 'M']]

def socketTypeString (type : UInt8) : Except Crash (List UInt8) :=
  match socketTypeNames[type.toNat]? with
  | some name => .ok name
  | none => .error .assertion

/-- The numbers of the types that a socket may be connected to. -/
def peerTypes (type : UInt8) : List ℕ :=
  match type.toNat with
  | 0 => [0]
  | 1 => [2, 10]
  | 2 => [1, 9]
  | 3 => [4, 6]
  | 4 => [3, 5]
  | 5 => [4, 5, 6]
  | 6 => [3, 5, 6]
  | 7 => [8]
  | 8 => [7]
  | 9 => [2, 10]
  | 10 => [1, 9]
  | 12 => [13]
  | 13 => [12]
  | 14 => [15]
  | 15 => [14]
  | 16 => [17]
  | 17 => [16]
  | 18 => [18]
  | _ => []

def checkSocketType (o : MechanismOptions) (type : List UInt8) : Bool :=
  (peerTypes o.type).any fun i => socketTypeNames[i]? == some type

abbrev Property := List UInt8 × List UInt8

/-- `dict_t`: the first value of a name stays. -/
abbrev Dict := List Property

local instance lawfulBEq_bytes : LawfulBEq (List UInt8) := inferInstance

def Dict.insert (d : Dict) (p : Property) : Dict := if p.1 ∈ d.map Prod.fst then d else d ++ [p]

structure MechanismBase where
  options : MechanismOptions
  identity : List UInt8
  userId : List UInt8
  zmtpProperties : Dict
  zapProperties : Dict

namespace MechanismBase

def new (o : MechanismOptions) : MechanismBase := ⟨o, [], [], [], []⟩

def setPeerIdentity (m : MechanismBase) (id : List UInt8) : MechanismBase := { m with identity := id }

def setUserId (m : MechanismBase) (data : List UInt8) : MechanismBase :=
  { m with
    userId := data
    zapProperties := Dict.insert m.zapProperties (ascii ['U', 's', 'e', 'r', '-', 'I', 'd'], data) }

end MechanismBase

namespace Metadata

def identityName : List UInt8 := ascii ['I', 'd', 'e', 'n', 't', 'i', 't', 'y']

def socketTypeName : List UInt8 := ascii ['S', 'o', 'c', 'k', 'e', 't', '-', 'T', 'y', 'p', 'e']

/-- `add_property` writes behind the bytes `b` of a buffer of `size` bytes. -/
def addProperty (size : ℕ) (b name value : List UInt8) : Except Crash (List UInt8) := do
  Block.assert (name.length ≤ 255)
  let b ← Block.append size b [UInt8.ofNat name.length]
  let b ← Block.append size b name
  Block.assert (value.length ≤ 0x7FFFFFFF)
  let b ← Block.append size b (putUint32 (UInt32.ofNat value.length))
  Block.append size b value

def addProperties (size : ℕ) : List UInt8 → List Property → Except Crash (List UInt8)
  | b, [] => .ok b
  | b, p :: ps => do addProperties size (← addProperty size b p.1 p.2) ps

/-- The virtual function `property`: the error it sets, if it returns -1. -/
abbrev Check := List UInt8 → List UInt8 → Option MechErrno

/-- `property` of `mechanism_t`, which no class overrides. -/
def property : Check := fun _ _ => none

/-- The error that a property ends the parsing with. -/
def refusal (check : Check) (o : MechanismOptions) (p : Property) : Option MechErrno :=
  if p.1 = identityName ∧ o.recvIdentity then none
  else if p.1 = socketTypeName then if checkSocketType o p.2 then none else some .einval
  else check p.1 p.2

def keep (zapFlag : Bool) (m : MechanismBase) (p : Property) : MechanismBase :=
  let m := if p.1 = identityName ∧ m.options.recvIdentity then m.setPeerIdentity p.2 else m
  if zapFlag then { m with zapProperties := m.zapProperties.insert p }
  else { m with zmtpProperties := m.zmtpProperties.insert p }

def ending (bytesLeft : ℕ) : Ret := if bytesLeft > 0 then .error .eproto else .ok

/-- The loop of `parse_metadata` at position `ptr` of the buffer `b`. Each round takes a byte or more, so that `fuel`
lasts if it is `bytesLeft` at first. -/
def parse (check : Check) (zapFlag : Bool) (b : List UInt8) :
    ℕ → (ptr bytesLeft : ℕ) → MechanismBase → Except Crash (Ret × MechanismBase)
  | 0, _, bytesLeft, m => .ok (ending bytesLeft, m)
  | fuel + 1, ptr, bytesLeft, m =>
    if bytesLeft ≤ 1 then .ok (ending bytesLeft, m)
    else do
      let nameLength := ((← Block.read b ptr 1).headD 0).toNat
      let ptr := ptr + 1
      let bytesLeft := bytesLeft - 1
      if bytesLeft < nameLength then return (ending bytesLeft, m)
      let name ← Block.read b ptr nameLength
      let ptr := ptr + nameLength
      let bytesLeft := bytesLeft - nameLength
      if bytesLeft < 4 then return (ending bytesLeft, m)
      let valueLength := (getUint32 (← Block.read b ptr 4)).toNat
      let ptr := ptr + 4
      let bytesLeft := bytesLeft - 4
      if bytesLeft < valueLength then return (ending bytesLeft, m)
      let value ← Block.read b ptr valueLength
      match refusal check m.options (name, value) with
      | some e => return (.error e, m)
      | none => parse check zapFlag b fuel (ptr + valueLength) (bytesLeft - valueLength) (keep zapFlag m (name, value))

def parseMetadata (check : Check) (m : MechanismBase) (b : List UInt8) (zapFlag : Bool) :
    Except Crash (Ret × MechanismBase) :=
  parse check zapFlag b b.length 0 b.length m

end Metadata

end Zmq
