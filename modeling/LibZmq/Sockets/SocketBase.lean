import LibZmq.Objects.OwnMoves

/-! `socket_base_t` when it is closed. Its pipes and its children are waited for with one counter, together with the
commands that have been announced by `inc_seqnum`. -/

namespace Zmq

open List Bool Except

open Function (update update_of_ne update_self)

universe u v

/-- The pipes are in no order that matters here. -/
structure SocketBaseT (P : Type u) (O : Type v) extends OwnT O where
  pipes : List P
  destroyed : Bool

/-- The commands with a sequence number that a socket is sent. -/
inductive SeqnumCmd (P : Type u) (O : Type v) where
  | own (object : O)
  | bind (pipe : P)
  | inprocConnected
deriving DecidableEq

def SeqnumCmd.isOwn {P : Type u} {O : Type v} : SeqnumCmd P O → Bool
  | .own _ => true
  | _ => false

structure SocketLife (P : Type u) (O : Type v) where
  socket : SocketBaseT P O
  /-- the commands that `inc_seqnum` has been called for and that have not been processed -/
  due : List (SeqnumCmd P O)
  asked : List O
  told : P → Bool
  marks : ℕ

namespace SocketLife

variable {P : Type u} {O : Type v}

def new : SocketLife P O := ⟨⟨.new, [], false⟩, [], [], fun _ => false, 0⟩

variable (s : SocketLife P O)

def processDestroy : SocketLife P O :=
  { s with socket := { s.socket with destroyed := true }, marks := s.marks + 1 }

/-- A socket has no owner to confirm to. -/
def checkTermAcks : Except OwnFault (SocketLife P O) :=
  if s.socket.terminating ∧ s.socket.processedSeqnum = s.socket.sentSeqnum.toUInt64 ∧ s.socket.termAcks = 0 then
    if s.socket.owned ≠ [] then .error .assertion else .ok s.processDestroy
  else .ok s

def registerTermAcks (count : ℕ) : Except OwnFault (SocketLife P O) :=
  if s.socket.termAcks + count < 2 ^ 31 then
    .ok { s with socket := { s.socket with termAcks := s.socket.termAcks + count } }
  else .error .overflow

def unregisterTermAck : Except OwnFault (SocketLife P O) :=
  if s.socket.termAcks ≤ 0 then .error .assertion
  else checkTermAcks { s with socket := { s.socket with termAcks := s.socket.termAcks - 1 } }

def processSeqnum : Except OwnFault (SocketLife P O) :=
  checkTermAcks { s with socket := { s.socket with processedSeqnum := s.socket.processedSeqnum + 1 } }

def incSeqnum : SocketLife P O :=
  { s with socket := { s.socket with sentSeqnum := s.socket.sentSeqnum + 1 } }

def sendTerm (object : O) : SocketLife P O := { s with asked := s.asked ++ [object] }

variable [DecidableEq P] [DecidableEq O] (s : SocketLife P O)

def terminatePipe (pipe : P) : SocketLife P O := { s with told := update s.told pipe true }

/-- A socket type that takes one pipe only terminates a second one in `xattach_pipe`. -/
def attachPipe (pipe : P) (refused : Bool) : Except OwnFault (SocketLife P O) := do
  let s := { s with socket := { s.socket with pipes := s.socket.pipes ++ [pipe] } }
  let s := if refused then s.terminatePipe pipe else s
  if s.socket.terminating then do
    let s ← s.registerTermAcks 1
    return s.terminatePipe pipe
  else return s

def pipeTerminated (pipe : P) : Except OwnFault (SocketLife P O) :=
  let s := { s with socket := { s.socket with pipes := s.socket.pipes.erase pipe } }
  if s.socket.terminating then s.unregisterTermAck else .ok s

def processTermReq (object : O) : Except OwnFault (SocketLife P O) :=
  if s.socket.terminating then .ok s
  else if object ∉ s.socket.owned then .ok s
  else do
    let s := { s with socket := { s.socket with owned := s.socket.owned.erase object } }
    let s ← s.registerTermAcks 1
    return s.sendTerm object

def processOwn (object : O) : Except OwnFault (SocketLife P O) :=
  if s.socket.terminating then do
    let s ← s.registerTermAcks 1
    return s.sendTerm object
  else return { s with socket := { s.socket with owned := s.socket.owned.insert object } }

def ownProcessTerm : Except OwnFault (SocketLife P O) :=
  if s.socket.terminating then .error .assertion
  else do
    let s ← { s with asked := s.asked ++ s.socket.owned }.registerTermAcks s.socket.owned.length
    checkTermAcks { s with socket := { s.socket with owned := [], terminating := true } }

def processTerm : Except OwnFault (SocketLife P O) := do
  let s := { s with told := fun pipe => s.told pipe || decide (pipe ∈ s.socket.pipes) }
  let s ← s.registerTermAcks s.socket.pipes.length
  s.ownProcessTerm

def terminate : Except OwnFault (SocketLife P O) :=
  if s.socket.terminating then .ok s else s.processTerm

def processTermAck (object : O) : Except OwnFault (SocketLife P O) :=
  unregisterTermAck { s with asked := s.asked.erase object }

def process (refused : Bool) : SeqnumCmd P O → Except OwnFault (SocketLife P O)
  | .own object => do
    let s ← s.processOwn object
    s.processSeqnum
  | .bind pipe => do
    let s ← s.attachPipe pipe refused
    s.processSeqnum
  | .inprocConnected => s.processSeqnum

/-! What happens to a socket, in any order. -/

inductive Op (P : Type u) (O : Type v) where
  | attach (pipe : P) (refused : Bool)
  | expect (cmd : SeqnumCmd P O)
  | process (cmd : SeqnumCmd P O) (refused : Bool)
  | terminatePipe (pipe : P)
  | pipeTerminated (pipe : P)
  | termReq (object : O)
  | terminate
  | termAck (object : O)

def Parent : Prop :=
  s.socket.owned ≠ [] ∨ s.asked ≠ [] ∨ ∃ cmd ∈ s.due, cmd.isOwn = true

instance : Decidable s.Parent := by
  unfold Parent
  infer_instance

/-- When the socket has been closed, the application does not use it and other sockets do not find it. Sessions attach pipes
as long as they are there. -/
def Ready : Op P O → Prop
  | .attach _ _ => s.socket.terminating = false
  | .expect (.bind _) => s.socket.terminating = false ∨ s.Parent
  | .expect _ => s.socket.terminating = false
  | .process cmd _ => cmd ∈ s.due
  | .terminatePipe pipe | .pipeTerminated pipe => pipe ∈ s.socket.pipes
  | .termReq _ | .terminate => True
  | .termAck object => object ∈ s.asked

instance (op : Op P O) : Decidable (s.Ready op) := by
  cases op with
  | expect cmd => cases cmd <;> unfold Ready <;> infer_instance
  | _ => unfold Ready; infer_instance

def run : Op P O → Except OwnFault (SocketLife P O)
  | .attach pipe refused => s.attachPipe pipe refused
  | .expect cmd => .ok { s.incSeqnum with due := s.due ++ [cmd] }
  | .process cmd refused => process { s with due := s.due.erase cmd } refused cmd
  | .terminatePipe pipe => .ok (s.terminatePipe pipe)
  | .pipeTerminated pipe => s.pipeTerminated pipe
  | .termReq object => s.processTermReq object
  | .terminate => s.terminate
  | .termAck object => s.processTermAck object

def Start : Prop := s = new

abbrev Step : SocketLife P O → Op P O → SocketLife P O → Prop := Does Ready run

def Over : Prop :=
  s.socket.terminating = true ∧ s.socket.pipes = [] ∧ s.socket.owned = [] ∧ s.asked = [] ∧ s.due = []

instance : Decidable s.Over := by
  unfold Over
  infer_instance

/-- What a closed socket waits for is counted, and it is marked as destroyed once, when there is nothing left. -/
structure Exact (s : SocketLife P O) : Prop where
  acks : s.socket.terminating = true → s.socket.termAcks = s.socket.pipes.length + (s.socket.owned.length + s.asked.length : ℕ)
  nonneg : 0 ≤ s.socket.termAcks
  once : s.marks = if s.Over then 1 else 0
  destroyed : s.socket.destroyed = true ↔ s.Over
  /-- nothing is waited for that has not been asked to end -/
  told : s.socket.terminating = true → ∀ pipe ∈ s.socket.pipes, s.told pipe = true

/-- How many acknowledgements the operation registers. -/
def registers : Op P O → ℕ
  | .process (.bind _) _ | .process (.own _) _ => if s.socket.terminating then 1 else 0
  | .termReq object => if s.socket.terminating ∨ object ∉ s.socket.owned then 0 else 1
  | .terminate => if s.socket.terminating then 0 else s.socket.pipes.length + s.socket.owned.length
  | _ => 0

def Counts (op : Op P O) : Prop :=
  s.socket.termAcks + s.registers op < 2 ^ 31 ∧
    match op with
    | .expect _ => s.socket.sentSeqnum.toNat + 1 < 2 ^ 32
    | _ => True

instance (op : Op P O) : Decidable (s.Counts op) := by
  unfold Counts
  cases op <;> infer_instance

structure Registered (s : SocketLife P O) : Prop where
  acks : s.socket.termAcks = (s.asked.length + if s.socket.terminating then s.socket.pipes.length else 0 : ℕ)
  owned : s.socket.terminating = true → s.socket.owned = []
  told : s.socket.terminating = true → ∀ pipe ∈ s.socket.pipes, s.told pipe = true

structure Counted (s : SocketLife P O) : Prop extends Registered s where
  seq : s.socket.sentSeqnum.toNat = s.socket.processedSeqnum.toNat + s.due.length

def Unmarked : Prop := s.marks = 0 ∧ s.socket.destroyed = false

structure Sound (s : SocketLife P O) : Prop extends Counted s where
  once : s.marks = if s.Over then 1 else 0
  destroyed : s.socket.destroyed = true ↔ s.Over

variable {s s' : SocketLife P O} {op : Op P O} {pipe : P} {object : O}

section

omit [DecidableEq P] [DecidableEq O]

theorem Counted.all_processed (h : s.Counted) : s.socket.processedSeqnum = s.socket.sentSeqnum.toUInt64 ↔ s.due = [] := by
  have hseq := h.seq
  rw [← UInt64.toNat_inj, UInt32.toNat_toUInt64, ← length_eq_zero_iff]
  omega

theorem Counted.over_iff (h : s.Counted) : (s.socket.terminating = true ∧
    s.socket.processedSeqnum = s.socket.sentSeqnum.toUInt64 ∧ s.socket.termAcks = 0) ↔ s.Over := by
  have hacks := h.acks
  rw [h.all_processed]
  constructor
  · rintro ⟨ht, hdue, hzero⟩
    rw [if_pos ht] at hacks
    exact ⟨ht, length_eq_zero_iff.mp (by omega), h.owned ht, length_eq_zero_iff.mp (by omega), hdue⟩
  · rintro ⟨ht, hpipes, -, hasked, hdue⟩
    rw [if_pos ht, hpipes, hasked] at hacks
    exact ⟨ht, hdue, hacks⟩

theorem Counted.sound (h : s.Counted) (hu : s.Unmarked) (hno : ¬ s.Over) : s.Sound :=
  ⟨h, by rw [if_neg hno]; exact hu.1, by simp [hu.2, hno]⟩

theorem Sound.unmarked (h : s.Sound) (hno : ¬ s.Over) : s.Unmarked := by
  refine ⟨by rw [h.once, if_neg hno], ?_⟩
  rw [← not_eq_true, h.destroyed]
  exact hno

theorem Counted.check (h : s.Counted) (hu : s.Unmarked) : ∃ s', s.checkTermAcks = .ok s' ∧ s'.Sound := by
  unfold checkTermAcks
  by_cases hover : s.Over
  · have howned : ¬ s.socket.owned ≠ [] := not_not.mpr hover.2.2.1
    rw [if_pos (h.over_iff.mpr hover), if_neg howned]
    have hcounted : s.processDestroy.Counted := ⟨⟨h.acks, h.owned, h.told⟩, h.seq⟩
    have hmarked : s.processDestroy.Over := hover
    refine ⟨_, rfl, hcounted, ?_, fun _ => hmarked, fun _ => rfl⟩
    rw [if_pos hmarked]
    exact congrArg (· + 1) hu.1
  · rw [if_neg (mt h.over_iff.mp hover)]
    exact ⟨s, rfl, h.sound hu hover⟩

structure Kept (s s' : SocketLife P O) : Prop where
  registered : s'.Registered
  due : s'.due = s.due
  sent : s'.socket.sentSeqnum = s.socket.sentSeqnum
  processed : s'.socket.processedSeqnum = s.socket.processedSeqnum
  marks : s'.marks = s.marks
  destroyed : s'.socket.destroyed = s.socket.destroyed
  terminating : s'.socket.terminating = s.socket.terminating

theorem Kept.unmarked (h : Kept s s') (hu : s.Unmarked) : s'.Unmarked :=
  ⟨h.marks.trans hu.1, h.destroyed.trans hu.2⟩

theorem Kept.counted (h : Kept s s') (hc : s.Counted) : s'.Counted :=
  ⟨h.registered, by rw [h.sent, h.processed, h.due]; exact hc.seq⟩

theorem register_ok {n : ℕ} (h : s.socket.termAcks + n < 2 ^ 31) : s.registerTermAcks n =
    .ok { s with socket := { s.socket with termAcks := s.socket.termAcks + n } } := if_pos h

end

omit [DecidableEq O] in
theorem attachPipe_ok {n : ℕ} (refused : Bool) (hn : n = if s.socket.terminating then 1 else 0)
    (hlt : s.socket.termAcks + n < 2 ^ 31) : ∃ told : P → Bool,
      s.attachPipe pipe refused = .ok { s with
        socket := { s.socket with pipes := s.socket.pipes ++ [pipe], termAcks := s.socket.termAcks + n }, told := told } ∧
      (s.socket.terminating = true → ∀ q, s.told q = true ∨ q = pipe → told q = true) := by
  obtain ⟨told, htold⟩ : ∃ told, told = if refused then update s.told pipe true else s.told := ⟨_, rfl⟩
  have hattach : s.attachPipe pipe refused =
      if s.socket.terminating then do
        let s ← registerTermAcks { s with socket := { s.socket with pipes := s.socket.pipes ++ [pipe] }, told := told } 1
        return s.terminatePipe pipe
      else .ok { s with socket := { s.socket with pipes := s.socket.pipes ++ [pipe] }, told := told } := by
    rw [htold]
    cases refused <;> rfl
  rw [hattach]
  cases ht : s.socket.terminating with
  | false =>
    rw [ht] at hn
    subst hn
    exact ⟨told, by simp, nofun⟩
  | true =>
    rw [ht] at hn
    subst hn
    refine ⟨update told pipe true, ?_, fun _ q hq => ?_⟩
    · rw [register_ok (by exact hlt)]
      rfl
    · by_cases hqp : q = pipe
      · rw [hqp, update_self]
      · rw [update_of_ne hqp, htold]
        have hq := hq.resolve_right hqp
        cases refused with
        | false => exact hq
        | true => rwa [if_pos rfl, update_of_ne hqp]

omit [DecidableEq O] in
theorem attachPipe_kept (pipe : P) (h : s.Registered) (refused : Bool)
    (hlt : s.socket.termAcks + (if s.socket.terminating then 1 else 0 : ℕ) < 2 ^ 31) :
    ∃ s', s.attachPipe pipe refused = .ok s' ∧ Kept s s' := by
  obtain ⟨told, hok, htold⟩ := attachPipe_ok refused rfl hlt
  refine ⟨_, hok, ⟨?_, h.owned, fun ht q hq => ?_⟩, rfl, rfl, rfl, rfl, rfl, rfl⟩
  · have hacks := h.acks
    rw [hacks, length_append, length_singleton]
    split_ifs <;> push_cast <;> omega
  · refine htold ht q ?_
    rcases mem_append.mp hq with hq | hq
    · exact .inl (h.told ht q hq)
    · exact .inr (mem_singleton.mp hq)

omit [DecidableEq P] in
theorem processOwn_kept (object : O) (h : s.Registered)
    (hlt : s.socket.termAcks + (if s.socket.terminating then 1 else 0 : ℕ) < 2 ^ 31) :
    ∃ s', s.processOwn object = .ok s' ∧ Kept s s' := by
  have hacks := h.acks
  unfold processOwn
  cases ht : s.socket.terminating with
  | false =>
    refine ⟨_, rfl, ⟨?_, fun hc => (nomatch ht.symm.trans hc), fun hc => (nomatch ht.symm.trans hc)⟩, rfl, rfl, rfl, rfl, rfl,
      rfl⟩
    rw [hacks]
  | true =>
    rw [ht] at hacks hlt
    rw [register_ok (n := 1) (by exact hlt)]
    refine ⟨_, rfl, ⟨?_, h.owned, h.told⟩, rfl, rfl, rfl, rfl, rfl, rfl⟩
    unfold sendTerm
    rw [ht, length_append, length_singleton]
    split_ifs at * <;> push_cast <;> omega

omit [DecidableEq P] in
theorem processTermReq_kept (object : O) (h : s.Registered)
    (hlt : s.socket.termAcks + (if s.socket.terminating ∨ object ∉ s.socket.owned then 0 else 1 : ℕ) < 2 ^ 31) :
    ∃ s', s.processTermReq object = .ok s' ∧ Kept s s' := by
  have hacks := h.acks
  have hsame : Kept s s := ⟨h, rfl, rfl, rfl, rfl, rfl, rfl⟩
  unfold processTermReq
  cases ht : s.socket.terminating with
  | true => exact ⟨s, rfl, hsame⟩
  | false =>
    rw [ht] at hacks hlt
    by_cases howned : object ∈ s.socket.owned
    · have hone : ¬ (false = true ∨ object ∉ s.socket.owned) := by simp [howned]
      rw [if_neg hone] at hlt
      rw [if_neg (not_not.mpr howned)]
      dsimp only
      rw [register_ok (n := 1) (by exact hlt)]
      refine ⟨_, rfl, ⟨?_, fun hc => (nomatch ht.symm.trans hc), fun hc => (nomatch ht.symm.trans hc)⟩, rfl, rfl, rfl, rfl, rfl,
        rfl⟩
      unfold sendTerm
      rw [hacks, ht, length_append, length_singleton]
      push_cast
      omega
    · rw [if_pos howned]
      exact ⟨s, rfl, hsame⟩

omit [DecidableEq P] [DecidableEq O] in
theorem processSeqnum_sound (h : s.Registered) (hu : s.Unmarked) (hlt : s.socket.sentSeqnum.toNat < 2 ^ 32)
    (hseq : s.socket.sentSeqnum.toNat = s.socket.processedSeqnum.toNat + s.due.length + 1) :
    ∃ s', s.processSeqnum = .ok s' ∧ s'.Sound := by
  have hnext := Tree.succ_toNat (n := s.socket.processedSeqnum) (by omega)
  refine Counted.check ⟨⟨h.acks, h.owned, h.told⟩, ?_⟩ hu
  change s.socket.sentSeqnum.toNat = (s.socket.processedSeqnum + 1).toNat + s.due.length
  omega

omit [DecidableEq P] [DecidableEq O] in
theorem unregisterTermAck_sound (hacks : s.socket.termAcks =
      (s.asked.length + (if s.socket.terminating then s.socket.pipes.length else 0) + 1 : ℕ))
    (howned : s.socket.terminating = true → s.socket.owned = [])
    (htold : s.socket.terminating = true → ∀ pipe ∈ s.socket.pipes, s.told pipe = true)
    (hseq : s.socket.sentSeqnum.toNat = s.socket.processedSeqnum.toNat + s.due.length) (hu : s.Unmarked) :
    ∃ s', s.unregisterTermAck = .ok s' ∧ s'.Sound := by
  unfold unregisterTermAck
  rw [if_neg (by omega)]
  refine Counted.check ⟨⟨?_, howned, htold⟩, hseq⟩ hu
  split_ifs at * <;> push_cast <;> omega

theorem process_sound {cmd : SeqnumCmd P O} (h : s.Sound) (hdue : cmd ∈ s.due) (refused : Bool)
    (hc : s.Counts (.process cmd refused)) : ∃ s', s.run (.process cmd refused) = .ok s' ∧ s'.Sound := by
  have hno : ¬ s.Over := fun hover => ne_nil_of_mem hdue hover.2.2.2.2
  have hu := h.unmarked hno
  have hlt := hc.1
  have hsent : s.socket.sentSeqnum.toNat < 2 ^ 32 := s.socket.sentSeqnum.toNat_lt
  have hlength : (s.due.erase cmd).length + 1 = s.due.length := length_erase_add_one hdue
  have hseq := h.seq
  obtain ⟨t, ht⟩ : ∃ t, t = { s with due := s.due.erase cmd } := ⟨_, rfl⟩
  have hregistered : t.Registered := ht ▸ ⟨h.acks, h.owned, h.told⟩
  have hunmarked : t.Unmarked := ht ▸ hu
  have hfinish : ∀ s1, Kept t s1 → ∃ s', s1.processSeqnum = .ok s' ∧ s'.Sound := fun s1 hk => by
    refine processSeqnum_sound hk.registered (hk.unmarked hunmarked) (by rw [hk.sent, ht]; exact hsent) ?_
    rw [hk.sent, hk.processed, hk.due, ht]
    dsimp only
    omega
  have hrun : s.run (.process cmd refused) = t.process refused cmd := by rw [ht]; rfl
  rw [hrun]
  cases cmd with
  | own object =>
    obtain ⟨s1, hown, hk⟩ := processOwn_kept object hregistered (by rw [ht]; exact hlt)
    unfold process
    dsimp only
    rw [hown]
    exact hfinish s1 hk
  | bind pipe =>
    obtain ⟨s1, hattach, hk⟩ := attachPipe_kept pipe hregistered refused (by rw [ht]; exact hlt)
    unfold process
    dsimp only
    rw [hattach]
    exact hfinish s1 hk
  | inprocConnected =>
    exact hfinish t ⟨hregistered, rfl, rfl, rfl, rfl, rfl, rfl⟩

theorem terminate_sound (h : s.Sound) (hc : s.Counts .terminate) : ∃ s', s.run .terminate = .ok s' ∧ s'.Sound := by
  change ∃ s', s.terminate = .ok s' ∧ s'.Sound
  unfold terminate
  cases ht : s.socket.terminating with
  | true => exact ⟨s, rfl, h⟩
  | false =>
    have hno : ¬ s.Over := fun hover => nomatch ht.symm.trans hover.1
    have hacks := h.acks
    have hlt : s.socket.termAcks + (if s.socket.terminating then 0 else s.socket.pipes.length + s.socket.owned.length : ℕ) <
      2 ^ 31 := hc.1
    rw [ht] at hacks hlt
    rw [if_neg Bool.false_ne_true] at hacks hlt ⊢
    have hpipes : s.socket.termAcks + s.socket.pipes.length < 2 ^ 31 := by omega
    have hchildren : s.socket.termAcks + s.socket.pipes.length + s.socket.owned.length < 2 ^ 31 := by omega
    unfold processTerm
    dsimp only
    rw [register_ok (by exact hpipes)]
    change ∃ s', (if s.socket.terminating = true then _ else _) = ok s' ∧ _
    rw [if_neg (by rw [ht]; exact false_ne_true), register_ok (by exact hchildren)]
    refine Counted.check ⟨⟨?_, fun _ => rfl, fun _ q hq => ?_⟩, h.seq⟩ (h.unmarked hno)
    · dsimp only
      rw [length_append]
      simp only [if_true]
      push_cast
      omega
    · simp only [or_eq_true, decide_eq_true_eq]
      exact .inr hq

theorem pipeTerminated_sound (h : s.Sound) (hp : pipe ∈ s.socket.pipes) :
    ∃ s', s.run (.pipeTerminated pipe) = .ok s' ∧ s'.Sound := by
  have hno : ¬ s.Over := fun hover => ne_nil_of_mem hp hover.2.1
  have hu := h.unmarked hno
  have hacks := h.acks
  have hlength : (s.socket.pipes.erase pipe).length + 1 = s.socket.pipes.length := length_erase_add_one hp
  change ∃ s', s.pipeTerminated pipe = .ok s' ∧ s'.Sound
  unfold pipeTerminated
  dsimp only
  cases ht : s.socket.terminating with
  | false =>
    refine ⟨_, rfl, Counted.sound ⟨⟨?_, fun hc => (nomatch ht.symm.trans hc), fun hc => (nomatch ht.symm.trans hc)⟩, h.seq⟩ hu
      fun hover => (nomatch ht.symm.trans hover.1)⟩
    rw [hacks, ht]
    rfl
  | true =>
    rw [ht, if_pos rfl] at hacks
    refine unregisterTermAck_sound ?_ h.owned (fun _ q hq => h.told ht q (mem_of_mem_erase hq)) h.seq hu
    rw [hacks, ht, if_pos rfl, Nat.add_assoc, hlength]

theorem termAck_sound (h : s.Sound) (ha : object ∈ s.asked) : ∃ s', s.run (.termAck object) = .ok s' ∧ s'.Sound := by
  have hno : ¬ s.Over := fun hover => ne_nil_of_mem ha hover.2.2.2.1
  have hlength : (s.asked.erase object).length + 1 = s.asked.length := length_erase_add_one ha
  have hacks := h.acks
  refine unregisterTermAck_sound ?_ h.owned h.told h.seq (h.unmarked hno)
  dsimp only
  omega

theorem expect_sound {cmd : SeqnumCmd P O} (h : s.Sound) (hready : s.Ready (.expect cmd)) (hc : s.Counts (.expect cmd)) :
    ∃ s', s.run (.expect cmd) = .ok s' ∧ s'.Sound := by
  have hopen : s.socket.terminating = false ∨ s.Parent := by
    cases cmd with
    | bind pipe => exact hready
    | _ => exact .inl hready
  have hno : ¬ s.Over := by
    rintro ⟨ht, -, howned, hasked, hdue⟩
    rcases hopen with hopen | ho | ha | ⟨cmd, hcmd, -⟩
    · exact nomatch hopen.symm.trans ht
    · exact ho howned
    · exact ha hasked
    · exact absurd (hdue ▸ hcmd) not_mem_nil
  have hne : s.due ++ [cmd] ≠ [] := by simp
  have hseq := h.seq
  have hnext := Tree.succ_toNat32 hc.2
  refine ⟨_, rfl, Counted.sound ⟨⟨h.acks, h.owned, h.told⟩, ?_⟩ (h.unmarked hno) fun hover => hne hover.2.2.2.2⟩
  change (s.socket.sentSeqnum + 1).toNat = s.socket.processedSeqnum.toNat + (s.due ++ [cmd]).length
  rw [length_append, length_singleton]
  omega

theorem Sound.run (h : s.Sound) (hready : s.Ready op) (hc : s.Counts op) : ∃ s', s.run op = .ok s' ∧ s'.Sound := by
  cases op with
  | attach pipe refused =>
    have ht : s.socket.terminating = false := hready
    have hlt : s.socket.termAcks + (if s.socket.terminating then 1 else 0 : ℕ) < 2 ^ 31 := by
      rw [ht]
      exact hc.1
    have hu := h.unmarked fun hover => (nomatch ht.symm.trans hover.1)
    obtain ⟨s', hrun, hk⟩ := attachPipe_kept pipe h.toRegistered refused hlt
    exact ⟨s', hrun, (hk.counted h.toCounted).sound (hk.unmarked hu) fun hover =>
      (nomatch (hk.terminating.trans ht).symm.trans hover.1)⟩
  | expect cmd => exact expect_sound h hready hc
  | process cmd refused => exact process_sound h hready refused hc
  | terminatePipe pipe =>
    refine ⟨_, rfl, ⟨⟨h.acks, h.owned, fun ht q hq => ?_⟩, h.seq⟩, h.once, h.destroyed⟩
    change update s.told pipe true q = true
    by_cases hqp : q = pipe
    · rw [hqp, update_self]
    · rw [update_of_ne hqp]
      exact h.told ht q hq
  | pipeTerminated pipe => exact pipeTerminated_sound h hready
  | termReq object =>
    by_cases ht : s.socket.terminating = true
    · exact ⟨s, if_pos ht, h⟩
    · have hno : ¬ s.Over := fun hover => ht hover.1
      obtain ⟨s', hrun, hk⟩ := processTermReq_kept object h.toRegistered hc.1
      exact ⟨s', hrun, (hk.counted h.toCounted).sound (hk.unmarked (h.unmarked hno)) fun hover =>
        ht (hk.terminating.symm.trans hover.1)⟩
  | terminate => exact terminate_sound h hc
  | termAck object => exact termAck_sound h hready

omit [DecidableEq P] [DecidableEq O] in
theorem new_sound : (new : SocketLife P O).Sound :=
  ⟨⟨⟨rfl, nofun, nofun⟩, rfl⟩, rfl, nofun, fun h => (nomatch h.1)⟩

theorem run_sound {ops : List (Op P O)} (h : Run Start (Guarded Counts Step) ops s) : s.Sound := by
  refine h.invariant Sound (fun s h0 => h0 ▸ new_sound) fun s op s' hI hs => ?_
  obtain ⟨hc, hready, hrun⟩ := hs
  obtain ⟨t, ht, hsound⟩ := hI.run hready hc
  cases hrun.symm.trans ht
  exact hsound

omit [DecidableEq P] [DecidableEq O] in
theorem Sound.exact (h : s.Sound) : s.Exact := by
  have hacks := h.acks
  refine ⟨fun ht => ?_, by omega, h.once, h.destroyed, h.told⟩
  rw [hacks, ht, h.owned ht]
  simp only [length_nil]
  push_cast
  omega

/-- A closed socket waits for exactly its pipes and its children, as long as no counter overflows. -/
theorem waits_exactly {ops : List (Op P O)} (h : Run Start (Guarded Counts Step) ops s) :
    s.Exact ∧ ∀ op, s.Ready op → s.Counts op → ∃ s', s.run op = .ok s' :=
  ⟨(run_sound h).exact, fun _ hready hc => (run_sound h).run hready hc |>.imp fun _ hs => hs.1⟩

/-- A pipe that is refused, one that is attached when the socket has been closed, and a child. -/
def closing : List (Op ℕ ℕ) :=
  [.attach 0 false, .attach 1 true, .expect (.own 0), .process (.own 0) false, .expect (.bind 2), .pipeTerminated 1, .terminate,
    .process (.bind 2) false, .expect (.bind 3), .pipeTerminated 0, .termAck 0, .pipeTerminated 2, .process (.bind 3) false]

theorem waits_exactly_closing : (∃ s : SocketLife ℕ ℕ, Run Start (Guarded Counts Step) closing s ∧ s.marks = 0 ∧ s.Exact) ∧
    ∃ s : SocketLife ℕ ℕ, Run Start (Guarded Counts Step) (closing ++ [.pipeTerminated 3]) s ∧ s.marks = 1 ∧ s.Exact :=
  ⟨exists_run (P := fun s => s.marks = 0) (rfl : Start new) (by decide) fun _ hs hmarks => ⟨hmarks, (waits_exactly hs).1⟩,
    exists_run (P := fun s => s.marks = 1) (rfl : Start new) (by decide) fun _ hs hmarks => ⟨hmarks, (waits_exactly hs).1⟩⟩

omit [DecidableEq O] in
theorem terminate_idle (ht : s.socket.terminating = false) (hp : s.socket.pipes = []) (ho : s.socket.owned = [])
    (ha : s.socket.termAcks = 0) (hseq : s.socket.processedSeqnum = s.socket.sentSeqnum.toUInt64) :
    ∃ t, s.terminate = .ok t ∧ t.marks = s.marks + 1 ∧ t.due = s.due := by
  have hpipes := length_eq_zero_iff.mpr hp
  have howned := length_eq_zero_iff.mpr ho
  have hnone : s.socket.termAcks + s.socket.pipes.length < 2 ^ 31 := by omega
  have hnone' : s.socket.termAcks + s.socket.pipes.length + s.socket.owned.length < 2 ^ 31 := by omega
  unfold terminate processTerm
  rw [if_neg (by rw [ht]; exact false_ne_true)]
  dsimp only
  rw [register_ok (by exact hnone)]
  change ∃ t, (if s.socket.terminating = true then _ else _) = ok t ∧ _
  rw [if_neg (by rw [ht]; exact false_ne_true), register_ok (by exact hnone')]
  change ∃ t, checkTermAcks _ = ok t ∧ _
  unfold checkTermAcks
  dsimp only
  rw [if_pos ⟨rfl, hseq, by rw [ha, hp, ho]; rfl⟩]
  exact ⟨_, rfl, rfl, rfl⟩

theorem crowd (n : ℕ) : ∃ s : SocketLife ℕ ℕ, Run Start Step ((range n).map fun pipe => .expect (.bind pipe)) s ∧
    s.socket = { (new : SocketLife ℕ ℕ).socket with sentSeqnum := UInt32.ofNat n } ∧ s.due.length = n ∧ s.marks = 0 := by
  induction n with
  | zero => exact ⟨new, .nil rfl, rfl, rfl, rfl⟩
  | succ n ih =>
    obtain ⟨s, hs, hsocket, hdue, hmarks⟩ := ih
    have hready : s.Ready (.expect (.bind n)) := .inl (by rw [hsocket]; rfl)
    refine ⟨{ s.incSeqnum with due := s.due ++ [.bind n] }, ?_, ?_, ?_, hmarks⟩
    · rw [range_succ, map_append]
      exact hs.snoc ⟨hready, rfl⟩
    · unfold incSeqnum
      rw [hsocket, UInt32.ofNat_add]
      rfl
    · rw [length_append, length_singleton, hdue]

/-- The counter of commands is back at zero: the socket is marked as destroyed while all of them are to be processed. -/
theorem marked_early : ¬ ∀ (ops : List (Op ℕ ℕ)) (s : SocketLife ℕ ℕ), Run Start Step ops s → s.Exact := by
  intro hexact
  obtain ⟨n, hn⟩ : ∃ n, n = 2 ^ 32 := ⟨_, rfl⟩
  obtain ⟨s, hs, hsocket, hdue, hmarks⟩ := crowd n
  have hzero : UInt32.ofNat n = 0 := by rw [hn]; rfl
  rw [hzero] at hsocket
  have hmany : s.due ≠ [] := fun hnil => by
    rw [hnil, length_nil] at hdue
    omega
  obtain ⟨t, hrun, hmarked, hleft⟩ : ∃ t, s.run .terminate = .ok t ∧ t.marks = 1 ∧ t.due = s.due := by
    obtain ⟨t, hrun, hmarked, hleft⟩ := terminate_idle (s := s) (by rw [hsocket]; rfl) (by rw [hsocket]; rfl)
      (by rw [hsocket]; rfl) (by rw [hsocket]; rfl) (by rw [hsocket]; rfl)
    exact ⟨t, hrun, hmarked.trans (congrArg (· + 1) hmarks), hleft⟩
  have hready : s.Ready .terminate := trivial
  have honce := (hexact _ t (hs.snoc ⟨hready, hrun⟩)).once
  have hno : ¬ t.Over := fun hover => hmany (hleft ▸ hover.2.2.2.2)
  rw [hmarked, if_neg hno] at honce
  exact absurd honce Nat.one_ne_zero

end SocketLife

end Zmq
