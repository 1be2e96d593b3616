import LibZmq.Trie.Node
import LibZmq.Trie.Buffer

/-! `mtrie_t`, the subscriptions of many pipes. The label of a node is its `pipes`, where
`none` is the null pointer. -/

namespace Zmq

/-- `P` stands for the addresses of pipes. -/
abbrev MtrieT (P : Type) := Node (Option (Finset P))

/-- What the loop over a table in `rm_helper` keeps up to date. -/
structure Sweep where
  liveNodes : ℕ
  newMin : UInt8
  newMax : UInt8

/-- The child at `c` is not redundant, so it is a candidate for both ends. -/
def Sweep.keep (sw : Sweep) (c : ℕ) : Sweep :=
  { sw with
    newMin := if c < sw.newMin.toNat then UInt8.ofNat c else sw.newMin
    newMax := if sw.newMax.toNat < c then UInt8.ofNat c else sw.newMax }

namespace MtrieT

variable {P : Type}

def pipes (t : MtrieT P) : Option (Finset P) := t.label

def new : MtrieT P := Node.new none

def isRedundant (t : MtrieT P) : Bool := t.pipes.isNone && t.slots.liveNodes == 0

variable [DecidableEq P]

def add : MtrieT P → List UInt8 → P → Except TrieFault (Bool × MtrieT P)
  | t, [], pipe =>
    let result := t.pipes.isNone
    .ok (result, ⟨some (insert pipe (t.pipes.getD ∅)), t.slots⟩)
  | t, c :: key, pipe => do
    let slots ← t.slots.reserve c
    match ← slots.get c with
    | some next =>
      let (ret, next) ← add next key pipe
      return (ret, ⟨t.pipes, slots.set c (some next)⟩)
    | none =>
      let slots := { slots with liveNodes := slots.liveNodes + 1 }
      let (ret, next) ← add new key pipe
      return (ret, ⟨t.pipes, slots.set c (some next)⟩)

/-- Take out the redundant child of `c`, and compact the table if possible. -/
def prune (s : Slots (MtrieT P)) (c : UInt8) : Except TrieFault (Slots (MtrieT P)) :=
  match s.next with
  | .node _ =>
    if s.count ≠ 1 then .error .wrongMember
    else if s.liveNodes ≠ 1 then .error .assertion
    else .ok { s with next := .node none, count := 0, liveNodes := 0 }
  | .table t =>
    let t := t.set (c.toNat - s.min.toNat) none
    if s.count = 1 then .error .wrongMember
    else if s.liveNodes ≤ 1 then .error .assertion
    else
      let liveNodes := s.liveNodes - 1
      if liveNodes = 1 then
        match t.findIdx? Option.isSome with
        | none => .error .assertion
        | some i => .ok ⟨s.min + UInt8.ofNat i, 1, liveNodes, .node (t[i]?).join⟩
      else s.compact t liveNodes c

def rm : MtrieT P → List UInt8 → P → Except TrieFault (Bool × MtrieT P)
  | t, [], pipe =>
    match t.pipes with
    | none => .ok (true, t)
    | some pipes =>
      if pipe ∈ pipes then
        let pipes := pipes.erase pipe
        if pipes = ∅ then .ok (true, ⟨none, t.slots⟩) else .ok (false, ⟨some pipes, t.slots⟩)
      else .error .assertion
  | t, c :: key, pipe =>
    if t.slots.count = 0 ∨ t.slots.outside c then .ok (false, t)
    else do
      match ← t.slots.get c with
      | none => return (false, t)
      | some next =>
        let (ret, next) ← rm next key pipe
        if next.isRedundant then return (ret, ⟨t.pipes, ← prune t.slots c⟩)
        return (ret, ⟨t.pipes, t.slots.set c (some next)⟩)

/-- `pipes && pipes->erase (pipe_)`; a set that is empty then is deleted. -/
def erasePipe (pipes : Option (Finset P)) (pipe : P) : Bool × Option (Finset P) :=
  match pipes with
  | none => (false, none)
  | some s =>
    if pipe ∈ s then (true, if s.erase pipe = ∅ then none else some (s.erase pipe))
    else (false, some s)

/-- What is left of a table once the loop is over. -/
def shrink (min : UInt8) (count : ℕ) (t : List (Option (MtrieT P))) (sw : Sweep) :
    Except TrieFault (Slots (MtrieT P)) :=
  let { liveNodes, newMin, newMax } := sw
  if count ≤ 1 then .error .assertion
  else if liveNodes = 0 then .ok ⟨min, 0, liveNodes, .node none⟩
  else if liveNodes = 1 then
    if newMin ≠ newMax then .error .assertion
    else if newMin < min ∨ min.toNat + count ≤ newMin.toNat then .error .assertion
    else match (t[newMin.toNat - min.toNat]?).join with
      | none => .error .assertion
      | some node => .ok ⟨newMin, 1, liveNodes, .node (some node)⟩
  else if min < newMin ∨ newMax.toNat < min.toNat + count - 1 then
    if newMax ≤ newMin then .error .assertion
    else if newMin < min ∨ min.toNat + count - 1 < newMax.toNat then .error .assertion
    else
      let newCount := newMax.toNat - newMin.toNat + 1
      if count ≤ newCount then .error .assertion
      else .ok ⟨newMin, newCount, liveNodes, .table ((t.drop (newMin.toNat - min.toNat)).take newCount)⟩
  else .ok ⟨min, count, liveNodes, .table t⟩

mutual

def rmHelper : MtrieT P → P → Bool → Buff → ℕ → ℕ → Except TrieFault (Buff × MtrieT P)
  | ⟨pipes, ⟨min, count, liveNodes, .node next⟩⟩, pipe, callOnUniq, buff, buffsize, maxbuffsize => do
    let (erased, pipes) := erasePipe pipes pipe
    let buff ← buff.callIf (erased && (!callOnUniq || pipes.isNone)) buffsize
    let (maxbuffsize, buff) := buff.adjust buffsize maxbuffsize
    if count = 0 then return (buff, ⟨pipes, ⟨min, count, liveNodes, .node next⟩⟩)
    if count ≠ 1 then throw .wrongMember
    let buff ← buff.put buffsize min
    match next with
    | none => throw .nullDereference
    | some next =>
      let (buff, next) ← rmHelper next pipe callOnUniq buff (buffsize + 1) maxbuffsize
      if next.isRedundant then
        if liveNodes ≠ 1 then throw .assertion
        return (buff, ⟨pipes, ⟨min, 0, 0, .node none⟩⟩)
      return (buff, ⟨pipes, ⟨min, count, liveNodes, .node (some next)⟩⟩)
  | ⟨pipes, ⟨min, count, liveNodes, .table t⟩⟩, pipe, callOnUniq, buff, buffsize, maxbuffsize => do
    let (erased, pipes) := erasePipe pipes pipe
    let buff ← buff.callIf (erased && (!callOnUniq || pipes.isNone)) buffsize
    let (maxbuffsize, buff) := buff.adjust buffsize maxbuffsize
    if count = 0 then return (buff, ⟨pipes, ⟨min, count, liveNodes, .table t⟩⟩)
    if count = 1 then throw .wrongMember
    let sweep := ⟨liveNodes, UInt8.ofNat (min.toNat + count - 1), min⟩
    let (buff, t, sweep) ← rmTable t pipe callOnUniq min 0 buff buffsize maxbuffsize sweep
    return (buff, ⟨pipes, ← shrink min count t sweep⟩)

def rmTable : List (Option (MtrieT P)) → P → Bool → UInt8 → ℕ → Buff → ℕ → ℕ → Sweep →
    Except TrieFault (Buff × List (Option (MtrieT P)) × Sweep)
  | [], _, _, _, _, buff, _, _, sweep => .ok (buff, [], sweep)
  | next :: t, pipe, callOnUniq, min, c, buff, buffsize, maxbuffsize, sweep => do
    let buff ← buff.put buffsize (min + UInt8.ofNat c)
    match next with
    | none =>
      let (buff, t, sweep) ← rmTable t pipe callOnUniq min (c + 1) buff buffsize maxbuffsize sweep
      return (buff, none :: t, sweep)
    | some next =>
      let (buff, next) ← rmHelper next pipe callOnUniq buff (buffsize + 1) maxbuffsize
      if next.isRedundant then
        if sweep.liveNodes = 0 then throw .assertion
        let sweep := { sweep with liveNodes := sweep.liveNodes - 1 }
        let (buff, t, sweep) ← rmTable t pipe callOnUniq min (c + 1) buff buffsize maxbuffsize sweep
        return (buff, none :: t, sweep)
      let sweep := sweep.keep (min.toNat + c)
      let (buff, t, sweep) ← rmTable t pipe callOnUniq min (c + 1) buff buffsize maxbuffsize sweep
      return (buff, some next :: t, sweep)

end

/-- `rm` of a pipe: the strings `func_` is called with, and the trie after it. -/
def rmPipe (t : MtrieT P) (pipe : P) (callOnUniq : Bool) :
    Except TrieFault (List (List UInt8) × MtrieT P) := do
  let (buff, t) ← rmHelper t pipe callOnUniq .empty 0 0
  return (buff.calls, t)

omit [DecidableEq P]

/-- The pipes `func_` is called for, each as often as it is called. -/
def matchPipes : MtrieT P → List UInt8 → Except TrieFault (Multiset P)
  | t, [] => .ok (t.pipes.getD ∅).val
  | t, c :: data =>
    let own := (t.pipes.getD ∅).val
    if t.slots.count = 0 then .ok own
    else if t.slots.outside c then .ok own
    else do
      match ← t.slots.get c with
      | some next => return own + (← matchPipes next data)
      | none => if t.slots.count = 1 then throw .nullDereference else return own

end MtrieT

end Zmq
