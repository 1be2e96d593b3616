import LibZmq.Block
import LibZmq.Msg

/-! `msg_t` objects, the contents that they refer to, and the metadata. A `msg_t` that is not valid, because it has been
closed or never initialised, has no type. -/

namespace Zmq

/-- `msg_t`, the object. Its content counts for the types `lmsg` and `zclmsg`, its data for `vsm` and `cmsg`. -/
structure MsgT where
  type : Option MsgType
  flags : UInt8
  group : List UInt8
  routingId : UInt32
  metadata : Option ℕ
  content : ℕ
  data : List UInt8

namespace MsgT

def raw : MsgT := ⟨none, 0, [], 0, none, 0, []⟩

def init : MsgT := ⟨some .vsm, 0, [], 0, none, 0, []⟩

def vsm (data : List UInt8) : MsgT := { init with data := data }

def cmsg (data : List UInt8) : MsgT := { init with type := some .cmsg, data := data }

def lmsg (content : ℕ) : MsgT := { init with type := some .lmsg, content := content }

def zclmsg (content : ℕ) : MsgT := { init with type := some .zclmsg, content := content }

def isShared (m : MsgT) : Bool := m.flags &&& Msg.shared != 0

/-- The content that a message refers to. -/
def holds (m : MsgT) : Option ℕ := if m.type = some .lmsg ∨ m.type = some .zclmsg then some m.content else none

end MsgT

structure ContentT where
  data : List UInt8
  ffn : Bool
  refcnt : UInt32
  frees : ℕ

structure MetadataT where
  refCnt : UInt32
  /-- the engine that has made it has not dropped its reference -/
  kept : Bool
  deletes : ℕ

/-- The `msg_t` objects of a process. Contents and metadata are numbered as they are made. -/
structure Messages (H : Type) where
  msgs : H → MsgT
  contents : ℕ → ContentT
  contentsMade : ℕ
  metadatas : ℕ → MetadataT
  metadatasMade : ℕ
  /-- all objects that have been in use -/
  objects : Finset H
  /-- of a message that is being distributed: the references that are still to be given to copies -/
  owed : H → Option ℕ

namespace Messages

variable {H : Type} [DecidableEq H]

def empty : Messages H := ⟨fun _ => .raw, fun _ => ⟨[], false, 0, 0⟩, 0, fun _ => ⟨0, false, 0⟩, 0, ∅, fun _ => none⟩

variable (s : Messages H)

def setMsg (h : H) (m : MsgT) : Messages H :=
  { s with msgs := Function.update s.msgs h m, objects := insert h s.objects }

def setContent (c : ℕ) (content : ContentT) : Messages H :=
  { s with contents := Function.update s.contents c content }

def setMetadataT (i : ℕ) (metadata : MetadataT) : Messages H :=
  { s with metadatas := Function.update s.metadatas i metadata }

def setOwed (h : H) (k : Option ℕ) : Messages H := { s with owed := Function.update s.owed h k }

/-- The content is deallocated, and `ffn` called if there is one. -/
def free (c : ℕ) : Messages H := s.setContent c { s.contents c with frees := (s.contents c).frees + 1 }

/-- `drop_ref`, and the deletion that follows if there are no references left. -/
def dropRef (i : ℕ) : Messages H :=
  let refCnt := (s.metadatas i).refCnt - 1
  s.setMetadataT i { s.metadatas i with
    refCnt := refCnt
    deletes := (s.metadatas i).deletes + if refCnt = 0 then 1 else 0 }

def addRef (i : ℕ) : Messages H :=
  s.setMetadataT i { s.metadatas i with refCnt := (s.metadatas i).refCnt + 1 }

/-- `refcnt.sub (refs)`, after which the content is freed if the count has dropped to zero. -/
def sub (c : ℕ) (refs : UInt32) : Messages H :=
  let s := s.setContent c { s.contents c with refcnt := (s.contents c).refcnt - refs }
  if (s.contents c).refcnt = 0 then s.free c else s

/-- A content that is not shared is freed, one that is shared loses a reference. -/
def closeContent (m : MsgT) : Except Crash (Messages H) :=
  match m.holds with
  | none => .ok s
  | some c => do
    Block.assert (m.type = some .zclmsg → (s.contents c).ffn = true)
    return if m.isShared then s.sub c 1 else s.free c

def closeMetadata (m : MsgT) : Messages H :=
  match m.metadata with
  | none => s
  | some i => s.dropRef i

/-- `false` stands for -1, with EFAULT. -/
def close (h : H) : Except Crash (Bool × Messages H) :=
  if (s.msgs h).type = none then .ok (false, s)
  else do
    let s1 ← s.closeContent (s.msgs h)
    return (true, (s1.closeMetadata (s.msgs h)).setMsg h { s.msgs h with type := none, metadata := none })

def init (h : H) : Messages H := s.setMsg h .init

/-- A new content, without references being counted. -/
def newContent (data : List UInt8) (ffn : Bool) : Messages H :=
  { s.setContent s.contentsMade ⟨data, ffn, 0, 0⟩ with contentsMade := s.contentsMade + 1 }

/-- `init_size`, and the data. -/
def initSize (h : H) (data : List UInt8) : Messages H :=
  if data.length ≤ 33 then s.setMsg h (.vsm data)
  else (s.newContent data false).setMsg h (.lmsg s.contentsMade)

/-- Without `ffn` the data are constant. -/
def initData (h : H) (data : List UInt8) (ffn : Bool) : Messages H :=
  if ffn then (s.newContent data true).setMsg h (.lmsg s.contentsMade) else s.setMsg h (.cmsg data)

/-- The `content_t` is one that is not in use. -/
def initExternalStorage (h : H) (data : List UInt8) (ffn : Bool) : Messages H :=
  (s.newContent data ffn).setMsg h (.zclmsg s.contentsMade)

def move (target src : H) : Except Crash (Bool × Messages H) :=
  if (s.msgs src).type = none then .ok (false, s)
  else do
    let (rc, s) ← s.close target
    if rc then return (true, (s.setMsg target (s.msgs src)).init src) else return (false, s)

/-- References are added to the content of a message. One that has not been shared had one. -/
def addReferences (h : H) (refs : UInt32) : Messages H :=
  match (s.msgs h).holds with
  | none => s
  | some c =>
    let m := s.msgs h
    if m.isShared then s.setContent c { s.contents c with refcnt := (s.contents c).refcnt + refs }
    else (s.setContent c { s.contents c with refcnt := refs + 1 }).setMsg h { m with flags := m.flags ||| Msg.shared }

def addMetadata (m : MsgT) : Messages H :=
  match m.metadata with
  | none => s
  | some i => s.addRef i

def copy (target src : H) : Except Crash (Bool × Messages H) :=
  if (s.msgs src).type = none then .ok (false, s)
  else do
    let (rc, s) ← s.close target
    if rc then
      let s := (s.addReferences src 1).addMetadata (s.msgs src)
      return (true, s.setMsg target (s.msgs src))
    else return (false, s)

def setMetadata (h : H) (i : ℕ) : Except Crash (Messages H) := do
  Block.assert ((s.msgs h).metadata = none)
  return (s.addRef i).setMsg h { s.msgs h with metadata := some i }

def resetMetadata (h : H) : Messages H :=
  match (s.msgs h).metadata with
  | none => s
  | some i => (s.dropRef i).setMsg h { s.msgs h with metadata := none }

/-- The engine that makes it keeps a reference. -/
def newMetadata : Messages H :=
  { s.setMetadataT s.metadatasMade ⟨1, true, 0⟩ with metadatasMade := s.metadatasMade + 1 }

/-- The engine drops its reference. -/
def dropMetadata (i : ℕ) : Messages H := (s.setMetadataT i { s.metadatas i with kept := false }).dropRef i

/-- `refs` is an `int`. -/
def addRefs (h : H) (refs : ℕ) : Except Crash (Messages H) := do
  Block.assert ((s.msgs h).metadata = none)
  if refs = 0 then return s else return s.addReferences h (UInt32.ofNat refs)

def rmRefs (h : H) (refs : ℕ) : Except Crash (Messages H) := do
  Block.assert ((s.msgs h).metadata = none)
  if refs = 0 then return s
  else
    match (s.msgs h).holds with
    | none => return (← s.close h).2
    | some c =>
      if (s.msgs h).isShared then return s.sub c (UInt32.ofNat refs) else return (← s.close h).2

end Messages
end Zmq
