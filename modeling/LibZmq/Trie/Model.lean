import LibZmq.Trie.Node
import LibZmq.Trie.Buffer

/-! `trie_t`, the subscriptions of one socket. The label of a node is its `refcnt`. -/

namespace Zmq

abbrev TrieT := Node UInt32

namespace TrieT

def refcnt (t : TrieT) : UInt32 := t.label

def new : TrieT := Node.new 0

def isRedundant (t : TrieT) : Bool := t.refcnt == 0 && t.slots.liveNodes == 0

def add : TrieT → List UInt8 → Except TrieFault (Bool × TrieT)
  | t, [] =>
    let refcnt := t.refcnt + 1
    .ok (refcnt == 1, ⟨refcnt, t.slots⟩)
  | t, c :: key => do
    let slots ← t.slots.reserve c
    match ← slots.get c with
    | some next =>
      let (ret, next) ← add next key
      return (ret, ⟨t.refcnt, slots.set c (some next)⟩)
    | none =>
      let slots := { slots with liveNodes := slots.liveNodes + 1 }
      if slots.count = 1 then
        if slots.liveNodes ≠ 1 then throw .assertion
      else if slots.liveNodes ≤ 1 then throw .assertion
      let (ret, next) ← add new key
      return (ret, ⟨t.refcnt, slots.set c (some next)⟩)

/-- Take out the redundant child of `c`, and compact the table if possible. -/
def prune (s : Slots TrieT) (c : UInt8) : Except TrieFault (Slots TrieT) :=
  match s.next with
  | .node _ =>
    if s.count ≠ 1 then .error .wrongMember
    else if s.liveNodes ≠ 1 then .error .assertion
    else .ok { s with next := .node none, count := 0, liveNodes := 0 }
  | .table t =>
    let t := t.set (c.toNat - s.min.toNat) none
    if s.count = 1 then .error .wrongMember
    else if s.liveNodes ≤ 1 then .error .assertion
    else
      let liveNodes := s.liveNodes - 1
      if liveNodes = 1 then
        -- the pruned node was at one end, so the other end holds the last child
        let (node, min) :=
          if c = s.min then ((t[s.count - 1]?).join, s.min + UInt8.ofNat (s.count - 1))
          else if c.toNat = s.min.toNat + s.count - 1 then ((t[0]?).join, s.min)
          else (none, s.min)
        match node with
        | none => .error .assertion
        | some node => .ok ⟨min, 1, liveNodes, .node (some node)⟩
      else s.compact t liveNodes c

def rm : TrieT → List UInt8 → Except TrieFault (Bool × TrieT)
  | t, [] =>
    if t.refcnt = 0 then .ok (false, t)
    else
      let refcnt := t.refcnt - 1
      .ok (refcnt == 0, ⟨refcnt, t.slots⟩)
  | t, c :: key =>
    if t.slots.count = 0 ∨ t.slots.outside c then .ok (false, t)
    else do
      match ← t.slots.get c with
      | none => return (false, t)
      | some next =>
        let (ret, next) ← rm next key
        if next.isRedundant then return (ret, ⟨t.refcnt, ← prune t.slots c⟩)
        return (ret, ⟨t.refcnt, t.slots.set c (some next)⟩)

def check : TrieT → List UInt8 → Except TrieFault Bool
  | t, [] => .ok (t.refcnt != 0)
  | t, c :: data =>
    if t.refcnt ≠ 0 then .ok true
    else if t.slots.outside c then .ok false
    else do
      match ← t.slots.get c with
      | some next => check next data
      | none => if t.slots.count = 1 then throw .nullDereference else return false

mutual

def applyHelper : TrieT → Buff → ℕ → ℕ → Except TrieFault Buff
  | ⟨refcnt, ⟨min, count, _, .node next⟩⟩, buff, buffsize, maxbuffsize => do
    let buff ← buff.callIf (refcnt != 0) buffsize
    let (maxbuffsize, buff) := buff.adjust buffsize maxbuffsize
    if count = 0 then return buff
    if count ≠ 1 then throw .wrongMember
    let buff ← buff.put buffsize min
    match next with
    | none => throw .nullDereference
    | some next => applyHelper next buff (buffsize + 1) maxbuffsize
  | ⟨refcnt, ⟨min, count, _, .table t⟩⟩, buff, buffsize, maxbuffsize => do
    let buff ← buff.callIf (refcnt != 0) buffsize
    let (maxbuffsize, buff) := buff.adjust buffsize maxbuffsize
    if count = 0 then return buff
    if count = 1 then throw .wrongMember
    applyTable t min 0 buff buffsize maxbuffsize

def applyTable : List (Option TrieT) → UInt8 → ℕ → Buff → ℕ → ℕ → Except TrieFault Buff
  | [], _, _, buff, _, _ => .ok buff
  | next :: t, min, c, buff, buffsize, maxbuffsize => do
    let buff ← buff.put buffsize (min + UInt8.ofNat c)
    match next with
    | none => applyTable t min (c + 1) buff buffsize maxbuffsize
    | some next =>
      let buff ← applyHelper next buff (buffsize + 1) maxbuffsize
      applyTable t min (c + 1) buff buffsize maxbuffsize

end

/-- The strings `func_` is called with. -/
def apply (t : TrieT) : Except TrieFault (List (List UInt8)) := do
  let buff ← applyHelper t .empty 0 0
  return buff.calls

end TrieT

end Zmq
