import LibZmq.Pipe.Marks

/-! One end of the pipe between two inproc sockets, which conflates if the socket that connects asks for it. What it
sends to the other end is kept with it. -/

namespace Zmq

/-- `ypipe_base_t`; of a `dbuffer_t` only the message that can be read counts. -/
inductive YPipeBase where
  | normal (q : Staged Msg)
  | conflate (latest : Option Msg)

namespace YPipeBase

def new (conflate : Bool) : YPipeBase := if conflate then .conflate none else .normal Staged.empty

def write (y : YPipeBase) (m : Msg) (incomplete : Bool) : YPipeBase :=
  match y with
  | .normal q => .normal (q.write m incomplete)
  | .conflate _ => .conflate (some m)

/-- The reader of a `ypipe_conflate_t` is never awake. -/
def flush : YPipeBase → Bool × YPipeBase
  | .normal q => (q.flush.1, .normal q.flush.2)
  | .conflate latest => (false, .conflate latest)

def read : YPipeBase → Option Msg × YPipeBase
  | .normal q => (q.read.1, .normal q.read.2)
  | .conflate latest => (latest, .conflate none)

/-- The loop of `pipe_t::rollback`; `none` when its `zmq_assert` fails. -/
def unwriteAll : YPipeBase → Option YPipeBase
  | .normal q => if q.unfinished.all Msg.hasMore then some (.normal { q with unfinished := [] }) else none
  | .conflate latest => some (.conflate latest)

/-- What the reader finds, oldest first. -/
def readable : YPipeBase → List Msg
  | .normal q => q.ready
  | .conflate latest => latest.toList

def isConflate : YPipeBase → Bool
  | .normal _ => false
  | .conflate _ => true

/-- The `read_message` loop of `pipe_t::read`, with a bound on its rounds. -/
def readMessage : ℕ → YPipeBase → List UInt8 → Option Msg × YPipeBase × List UInt8
  | 0, y, credential => (none, y, credential)
  | n + 1, y, credential =>
    match y.read with
    | (none, y) => (none, y, credential)
    | (some m, y) => if m.isCredential then readMessage n y m.data else (some m, y, credential)

def pushAll (y : YPipeBase) (msgs : List Msg) : YPipeBase := msgs.foldl (fun y m => y.write m m.hasMore) y

theorem pushAll_normal (q : Staged Msg) (msgs : List Msg) : ∃ q', (normal q).pushAll msgs = .normal q' ∧
    q'.ready = q.ready ∧ q'.complete ++ q'.unfinished = q.complete ++ q.unfinished ++ msgs := by
  induction msgs generalizing q with
  | nil => exact ⟨q, rfl, rfl, (List.append_nil _).symm⟩
  | cons m msgs ih =>
    obtain ⟨q', hq', hready, hrest⟩ := ih (q.write m m.hasMore)
    refine ⟨q', hq', ?_, ?_⟩
    · rw [hready, Staged.write]
      split_ifs <;> rfl
    · rw [hrest, Staged.write]
      split_ifs <;> simp

theorem pushAll_conflate (latest : Option Msg) (msgs : List Msg) :
    (conflate latest).pushAll msgs = .conflate (msgs.getLast?.or latest) := by
  induction msgs generalizing latest with
  | nil => rfl
  | cons m msgs ih =>
    have h := ih (some m)
    rw [List.getLast?_cons]
    refine h.trans ?_
    cases msgs.getLast? <;> rfl

theorem flush_write_normal (q : Staged Msg) (m : Msg) :
    ((normal q).write m false).flush.2.readable = q.ready ++ (q.complete ++ q.unfinished) ++ [m] := by
  unfold write flush readable
  dsimp only
  rw [Staged.flush_ready, Staged.write]
  simp

theorem flush_normal (q : Staged Msg) : (normal q).flush.2.readable = q.ready ++ q.complete :=
  q.flush_ready

theorem read_spec {y : YPipeBase} {m : Msg} {rest : List Msg} (h : y.readable = m :: rest) :
    y.read.1 = some m ∧ y.read.2.readable = rest := by
  cases y with
  | normal q =>
    have hread : q.read = (some m, { q with ready := rest }) := Staged.read_cons h
    exact ⟨congrArg Prod.fst hread, congrArg (fun r => r.2.ready) hread⟩
  | conflate latest =>
    cases latest with
    | none => cases h
    | some m' =>
      cases h
      exact ⟨rfl, rfl⟩

end YPipeBase

/-- `pipe_t` with its two ypipes. -/
structure PipeEnd where
  self : PipeT
  inpipe : YPipeBase
  outpipe : YPipeBase
  /-- to the other end -/
  sent : List Cmd

namespace PipeEnd

variable (x : PipeEnd)

def update (f : PipeT → PipeT) : PipeEnd := { x with self := f x.self }

def send (c : Cmd) : PipeEnd := { x with sent := x.sent ++ [c] }

def acknowledge (state : PipeState) : PipeEnd :=
  (x.update fun p => { p with outpipe := none, state := state }).send .pipeTermAck

def processDelimiter : Except Fault PipeEnd :=
  if x.self.state = .active then .ok (x.update fun p => { p with state := .delimiterReceived })
  else if x.self.state = .waitingForDelimiter then .ok (x.acknowledge .termAckSent)
  else .error .assertion

def countRead (m : Msg) : PipeEnd :=
  let x := x.update fun p => { p with msgsRead := if PipeT.counted m then p.msgsRead + 1 else p.msgsRead }
  if x.self.lwm > 0 ∧ x.self.msgsRead % PipeT.toU64 x.self.lwm = 0 then x.send (.activateWrite x.self.msgsRead)
  else x

def read : Except Fault (Option Msg × PipeEnd) :=
  if !x.self.inActive then .ok (none, x)
  else if !x.self.readable then .ok (none, x)
  else
    match YPipeBase.readMessage (x.inpipe.readable.length + 1) x.inpipe x.self.credential with
    | (none, y, credential) =>
      .ok (none, { x with inpipe := y }.update fun p => { p with credential := credential, inActive := false })
    | (some m, y, credential) =>
      let x := { x with inpipe := y }.update fun p => { p with credential := credential }
      if m.isDelimiter then return (none, ← x.processDelimiter)
      else .ok (some m, x.countRead m)

/-- The loop of sockets that read all there is, with a bound on its rounds. -/
def readAll : ℕ → PipeEnd → Except Fault PipeEnd
  | 0, x => .ok x
  | n + 1, x => do
    match ← x.read with
    | (none, x) => return x
    | (some _, x) => readAll n x

def write (x : PipeEnd) (m : Msg) : Except Fault (Bool × PipeEnd) :=
  let (rc, self) := x.self.checkWrite
  if !rc then .ok (false, { x with self := self })
  else if self.outpipe = none then .error .nullDereference
  else
    .ok (true, { x with
      self := { self with msgsWritten := if PipeT.counted m then self.msgsWritten + 1 else self.msgsWritten }
      outpipe := x.outpipe.write m m.hasMore })

/-- Messages that are dropped if the pipe is full. -/
def writeAll : List Msg → PipeEnd → Except Fault PipeEnd
  | [], x => .ok x
  | m :: msgs, x => do writeAll msgs (← x.write m).2

def rollback : Except Fault PipeEnd :=
  if x.self.outpipe = none then .ok x
  else
    match x.outpipe.unwriteAll with
    | none => .error .assertion
    | some y => .ok { x with outpipe := y }

def flush (x : PipeEnd) : PipeEnd :=
  if x.self.state = .termAckSent ∨ x.self.outpipe = none then x
  else
    let (rc, y) := x.outpipe.flush
    let x := { x with outpipe := y }
    if rc then x else x.send .activateRead

def processActivateRead : Except Fault PipeEnd :=
  if !x.self.inActive && x.self.readable then
    if x.self.sink then .ok (x.update fun p => { p with inActive := true }) else .error .nullDereference
  else .ok x

def processActivateWrite (msgsRead : UInt64) : Except Fault PipeEnd :=
  let x := x.update fun p => { p with peersMsgsRead := msgsRead }
  if !x.self.outActive && x.self.state == .active then
    if x.self.sink then .ok (x.update fun p => { p with outActive := true }) else .error .nullDereference
  else .ok x

def processPipeTerm : Except Fault PipeEnd :=
  match x.self.state with
  | .active =>
    if x.self.delay then .ok (x.update fun p => { p with state := .waitingForDelimiter })
    else .ok (x.acknowledge .termAckSent)
  | .delimiterReceived => .ok (x.acknowledge .termAckSent)
  | .termReqSent1 => .ok (x.acknowledge .termReqSent2)
  | _ => .error .assertion

/-- The end of `terminate`: drop the unfinished message, write the delimiter. -/
def stopOutbound : Except Fault PipeEnd :=
  let x := x.update fun p => { p with outActive := false }
  if x.self.outpipe = none then .ok x
  else do
    let x ← x.rollback
    return { x with outpipe := x.outpipe.write Msg.initDelimiter false }.flush

def terminate (delay : Bool) : Except Fault PipeEnd :=
  let x := x.update fun p => { p with delay := delay }
  match x.self.state with
  | .termReqSent1 | .termReqSent2 | .termAckSent => .ok x
  | .active | .delimiterReceived =>
    ((x.send .pipeTerm).update fun p => { p with state := .termReqSent1 }).stopOutbound
  | .waitingForDelimiter => if !delay then (x.acknowledge .termAckSent).stopOutbound else x.stopOutbound

variable {x : PipeEnd}

theorem write_refused (h : x.self.checkWrite.1 = false) (m : Msg) :
    x.write m = .ok (false, { x with self := x.self.checkWrite.2 }) := by
  unfold write
  generalize x.self.checkWrite = checked at h ⊢
  obtain ⟨rc, self⟩ := checked
  cases h
  rfl

theorem write_done (h : x.self.checkWrite.1 = true) (ho : x.self.outpipe ≠ none) (m : Msg) : x.write m = .ok (true, { x with
      self := { x.self with msgsWritten := if PipeT.counted m then x.self.msgsWritten + 1 else x.self.msgsWritten }
      outpipe := x.outpipe.write m m.hasMore }) := by
  have hw : x.self.checkWrite = (true, x.self) := by
    rcases Pair.checkWrite_cases x.self with hw | hw
    · exact hw
    · rw [h] at hw
      cases hw
  unfold write
  rw [hw]
  simp [ho]

structure Accepted (x : PipeEnd) (msgs acc : List Msg) (p : PipeT) : Prop where
  writes : ∃ outActive msgsWritten, p = { x.self with outActive := outActive, msgsWritten := msgsWritten }
  idle : msgs = [] → p = x.self
  sublist : acc.Sublist msgs
  first : x.self.checkWrite.1 = true → msgs ≠ [] → acc ≠ []
  all : x.self.outActive = true → x.self.state = .active → x.self.hwm ≤ 0 → acc = msgs

theorem writeAll_spec (msgs : List Msg) (x : PipeEnd) (ho : x.self.outpipe ≠ none) : ∃ acc self,
    Accepted x msgs acc self ∧ x.writeAll msgs = .ok { x with self := self, outpipe := x.outpipe.pushAll acc } := by
  induction msgs generalizing x with
  | nil =>
    exact ⟨[], x.self, ⟨⟨_, _, rfl⟩, fun _ => rfl, List.nil_sublist _, fun _ hne => absurd rfl hne, fun _ _ _ => rfl⟩, rfl⟩
  | cons m msgs ih =>
    unfold writeAll
    cases hw : x.self.checkWrite.1 with
    | false =>
      rw [write_refused hw]
      have hself : x.self.checkWrite.2 =
          { x.self with outActive := x.self.outActive && (x.self.state != .active || x.self.checkHwm) } :=
        Pair.checkWrite_snd x.self
      obtain ⟨acc, self, hacc, he⟩ := ih { x with self := x.self.checkWrite.2 } (by
        rw [hself]
        exact ho)
      refine ⟨acc, self, ⟨?_, fun hn => absurd hn (List.cons_ne_nil m msgs), hacc.sublist.cons m, fun hc => ?_,
        fun ha hs hh => ?_⟩, he⟩
      · obtain ⟨a, w, hs⟩ := hacc.writes
        refine ⟨a, w, hs.trans ?_⟩
        rw [hself]
      · rw [hw] at hc
        cases hc
      · have hroom : x.self.checkHwm = true := by
          unfold PipeT.checkHwm
          simp only [Bool.not_eq_true', decide_eq_false_iff_not]
          exact fun hc => absurd hc.1 (Int32.not_lt.mpr hh)
        rw [Pair.checkWrite_fst, ha, hs, hroom] at hw
        cases hw
    | true =>
      rw [write_done hw ho]
      obtain ⟨acc, self, hacc, he⟩ := ih { x with
        self := { x.self with msgsWritten := if PipeT.counted m then x.self.msgsWritten + 1 else x.self.msgsWritten }
        outpipe := x.outpipe.write m m.hasMore } ho
      obtain ⟨a, w, hs⟩ := hacc.writes
      exact ⟨m :: acc, self, ⟨⟨a, w, hs⟩, fun hn => absurd hn (List.cons_ne_nil m msgs), hacc.sublist.cons_cons m,
        fun _ _ => List.cons_ne_nil m acc, fun ha hs hh => congrArg _ (hacc.all ha hs hh)⟩, he⟩

end PipeEnd

structure PipeT.Fresh (p : PipeT) : Prop where
  state : p.state = .active
  inActive : p.inActive = true
  outActive : p.outActive = true
  outpipe : p.outpipe ≠ none
  unwritten : p.msgsWritten = 0
  unreported : p.peersMsgsRead = 0

namespace PipeT.Fresh

variable {p : PipeT}

theorem checkWrite (h : p.Fresh) : p.checkWrite.1 = true := by
  have hroom : p.checkHwm = true := by
    refine (Flow.hasRoom_iff (Link.flowOf p p [] [])).mpr ?_
    change Flow.mark p.hwm = 0 ∨ (p.msgsWritten - p.peersMsgsRead).toNat < Flow.mark p.hwm
    rw [h.unwritten, h.unreported]
    exact Nat.eq_zero_or_pos _
  rw [Pair.checkWrite_fst, h.outActive, h.state, hroom]
  rfl

theorem boosted (h : p.Fresh) (inhwmboost outhwmboost : Int32) : (p.setHwmsBoost inhwmboost outhwmboost).Fresh :=
  ⟨h.state, h.inActive, h.outActive, h.outpipe, h.unwritten, h.unreported⟩

theorem marked (h : p.Fresh) (inhwm outhwm : Int32) : (p.setHwms inhwm outhwm).Fresh :=
  ⟨h.state, h.inActive, h.outActive, h.outpipe, h.unwritten, h.unreported⟩

theorem new (inpipe outpipe : ℕ) (inhwm outhwm : Int32) : (PipeT.new inpipe outpipe inhwm outhwm).Fresh :=
  ⟨rfl, rfl, rfl, Option.some_ne_none _, rfl, rfl⟩

end PipeT.Fresh

namespace PipeEnd

variable {x : PipeEnd} {y : YPipeBase}

theorem rollback_eq (ho : x.self.outpipe ≠ none) (hy : x.outpipe.unwriteAll = some y) :
    x.rollback = .ok { x with outpipe := y } := by
  unfold rollback
  rw [if_neg ho, hy]

theorem flush_eq (hs : x.self.state ≠ .termAckSent) (ho : x.self.outpipe ≠ none) :
    ∃ sent, x.flush = { x with outpipe := x.outpipe.flush.2, sent := x.sent ++ sent } ∧
      ∀ c ∈ sent, c = .activateRead := by
  unfold flush
  rw [if_neg (by simp [hs, ho])]
  dsimp only
  split_ifs
  · exact ⟨[], by rw [List.append_nil], nofun⟩
  · exact ⟨[.activateRead], rfl, fun c hc => List.mem_singleton.mp hc⟩

theorem flush_cases (x : PipeEnd) : x.flush = x ∨ x.self.state ≠ .termAckSent ∧ x.self.outpipe ≠ none := by
  by_cases h : x.self.state = .termAckSent ∨ x.self.outpipe = none
  · exact .inl (if_pos h)
  · exact .inr (not_or.mp h)

theorem stopOutbound_eq (ho : x.self.outpipe ≠ none) (hy : x.outpipe.unwriteAll = some y) : x.stopOutbound = .ok ({ x with
      self := { x.self with outActive := false }
      outpipe := y.write Msg.initDelimiter false } : PipeEnd).flush := by
  refine (if_neg ho).trans ?_
  rw [rollback_eq (show (x.update fun p => { p with outActive := false }).self.outpipe ≠ none from ho) hy]
  rfl

theorem countRead_eq (x : PipeEnd) (m : Msg) :
    ∃ n sent, x.countRead m = { x with self := { x.self with msgsRead := n }, sent := sent } := by
  obtain ⟨n, hn⟩ : ∃ n, n = if PipeT.counted m then x.self.msgsRead + 1 else x.self.msgsRead := ⟨_, rfl⟩
  unfold countRead update
  dsimp only
  rw [← hn]
  split_ifs
  · exact ⟨n, _, rfl⟩
  · exact ⟨n, x.sent, rfl⟩

theorem read_eq (hi : x.self.inActive = true) (hr : x.self.readable = true) {m : Msg} {rest : List Msg}
    (hm : x.inpipe.readable = m :: rest) (hc : m.isCredential = false) (hd : m.isDelimiter = false) :
    ∃ n sent, x.read = .ok (some m, { x with
      self := { x.self with msgsRead := n }
      inpipe := x.inpipe.read.2
      sent := sent }) := by
  have hread : x.inpipe.read.1 = some m := (YPipeBase.read_spec hm).1
  have hloop : ∀ n, YPipeBase.readMessage (n + 1) x.inpipe x.self.credential =
      (some m, x.inpipe.read.2, x.self.credential) := by
    intro n
    unfold YPipeBase.readMessage
    generalize x.inpipe.read = y at hread ⊢
    obtain ⟨rc, y⟩ := y
    cases hread
    simp only [hc, Bool.false_eq_true, if_false]
  obtain ⟨n, sent, he⟩ := countRead_eq { x with inpipe := x.inpipe.read.2 } m
  refine ⟨n, sent, ?_⟩
  unfold read
  rw [if_neg (by simp [hi]), if_neg (by simp [hr]), hloop]
  dsimp only
  rw [if_neg (by simp [hd])]
  exact congrArg (fun y => Except.ok (some m, y)) he

end PipeEnd

end Zmq
