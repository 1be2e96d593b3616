import Mathlib.Tactic

/-! The part of `msg_t` that pipes look at: type, flags and payload. -/

namespace Zmq

inductive MsgType where
  | vsm | lmsg | delimiter | cmsg | zclmsg | join | leave
deriving DecidableEq, Inhabited

structure Msg where
  type : MsgType
  flags : UInt8
  data : List UInt8
deriving DecidableEq, Inhabited

namespace Msg

def more : UInt8 := 1
def command : UInt8 := 2
def credential : UInt8 := 32
def identity : UInt8 := 64
def shared : UInt8 := 128

def init : Msg := ⟨.vsm, 0, []⟩

/-- `init_size`, and the contents. -/
def ofData (data : List UInt8) : Msg := ⟨if data.length ≤ 33 then .vsm else .lmsg, 0, data⟩

theorem ofData_data (data : List UInt8) : (ofData data).data = data := rfl

def setFlags (m : Msg) (flags : UInt8) : Msg := { m with flags := m.flags ||| flags }

def initDelimiter : Msg := ⟨.delimiter, 0, []⟩

def hasMore (m : Msg) : Bool := m.flags &&& more != 0

def isIdentity (m : Msg) : Bool := m.flags &&& identity == identity

def isCredential (m : Msg) : Bool := m.flags &&& credential == credential

def isDelimiter (m : Msg) : Bool := m.type == .delimiter

@[simp] theorem initDelimiter_hasMore : initDelimiter.hasMore = false := rfl

@[simp] theorem initDelimiter_isDelimiter : initDelimiter.isDelimiter = true := rfl

@[simp] theorem initDelimiter_isCredential : initDelimiter.isCredential = false := rfl

end Msg

end Zmq
