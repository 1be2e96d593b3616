import LibZmq.Ctx.InprocPipes

/-! What a socket that binds does with a pipe that is attached to it: `socket_base_t::attach_pipe` and the `xattach_pipe`
of each type, as far as the pipe notices. -/

namespace Zmq

open List

/-- What `attach_pipe` looks at. -/
structure BinderT where
  options : PeerOptions
  /-- `pipe` of PAIR and DGRAM is not NULL -/
  taken : Bool
  probeRouter : Bool
  /-- the topics of SUB and XSUB and the groups of DISH -/
  subscriptions : List (List UInt8)
  welcomeMsg : List UInt8
  connectRid : List UInt8
  rawSocket : Bool
  terminating : Bool

namespace BinderT

def new (options : PeerOptions) : BinderT := ⟨options, false, false, [], [], [], false, false⟩

variable (b : BinderT)

/-- The probe of ROUTER, REP, DEALER and REQ. -/
def probe (x : PipeEnd) : Except Fault PipeEnd :=
  if b.probeRouter then do return (← x.writeAll [Msg.init]).flush else .ok x

/-- `router_t::identify_peer`, as far as it reads. -/
def identifyPeer (x : PipeEnd) : Except Fault PipeEnd :=
  if b.connectRid ≠ [] ∨ b.rawSocket then .ok x else do return (← x.read).2

def requests : List Msg :=
  b.subscriptions.map fun name => if b.options.type = .dish then ⟨.join, 0, []⟩ else Msg.ofData (1 :: name)

def welcome (x : PipeEnd) : Except Fault PipeEnd :=
  if b.welcomeMsg = [] then .ok x else do return (← x.writeAll [Msg.ofData b.welcomeMsg]).flush

/-- `xread_activated` of XPUB and RADIO. -/
def xreadActivated (x : PipeEnd) : Except Fault PipeEnd := x.readAll (x.inpipe.readable.length + 1)

def setNodelay (x : PipeEnd) : PipeEnd := x.update PipeT.setNodelay

def xattachPipe (x : PipeEnd) : Except Fault PipeEnd :=
  match b.options.type with
  | .pair | .dgram => if b.taken then x.terminate false else .ok x
  | .pub => b.welcome (setNodelay x) >>= xreadActivated
  | .xpub => b.welcome x >>= xreadActivated
  | .radio => xreadActivated (setNodelay x)
  | .sub | .xsub | .dish => do return (← x.writeAll b.requests).flush
  | .router | .rep => b.probe x >>= b.identifyPeer
  | .dealer | .req => b.probe x
  | .push | .scatter => .ok (setNodelay x)
  | .pull | .gather | .server | .client | .stream => .ok x

def attachPipe (x : PipeEnd) : Except Fault PipeEnd := do
  let x ← b.xattachPipe (x.update fun p => { p with sink := true })
  if b.terminating then x.terminate false else return x

/-- The socket after it has been given a pipe. -/
def attached : BinderT := { b with taken := true, connectRid := [] }

def greeting : List Msg :=
  match b.options.type with
  | .pub | .xpub => if b.welcomeMsg = [] then [] else [Msg.ofData b.welcomeMsg]
  | .sub | .xsub | .dish => b.requests
  | .router | .rep | .dealer | .req => if b.probeRouter then [Msg.init] else []
  | _ => []

def takes (msgs : List Msg) : List Msg :=
  match b.options.type with
  | .pub | .xpub | .radio => msgs
  | .router | .rep => if b.connectRid ≠ [] ∨ b.rawSocket then [] else msgs.take 1
  | _ => []

def Rejects : Prop :=
  (b.options.type = .pair ∨ b.options.type = .dgram) ∧ b.taken = true ∨ b.terminating = true

end BinderT

namespace YPipeBase

def Whole (y : YPipeBase) : Prop := ∀ q, y = .normal q → ∀ m ∈ q.unfinished, m.hasMore = true

variable {y : YPipeBase}

theorem Whole.write (h : y.Whole) (m : Msg) : (y.write m m.hasMore).Whole := by
  intro q hq r hr
  cases y with
  | conflate latest => cases hq
  | normal q' =>
    have hq' : q = q'.write m m.hasMore := (YPipeBase.normal.inj hq).symm
    subst hq'
    unfold Staged.write at hr
    split_ifs at hr with hm
    · rcases mem_append.mp hr with hr | hr
      · exact h q' rfl r hr
      · exact mem_singleton.mp hr ▸ hm
    · cases hr

theorem Whole.flush (h : y.Whole) : y.flush.2.Whole := by
  intro q hq m hm
  cases y with
  | conflate latest => cases hq
  | normal q' =>
    have hq' : q = q'.flush.2 := (YPipeBase.normal.inj hq).symm
    subst hq'
    refine h q' rfl m ?_
    rwa [show q'.flush.2.unfinished = q'.unfinished by unfold Staged.flush; split_ifs <;> rfl] at hm

theorem Whole.unwriteAll (h : y.Whole) : ∃ y', y.unwriteAll = some y' ∧ y'.Whole := by
  cases y with
  | conflate latest => exact ⟨_, rfl, nofun⟩
  | normal q =>
    have hall : q.unfinished.all Msg.hasMore = true := all_eq_true.mpr (h q rfl)
    refine ⟨.normal { q with unfinished := [] }, if_pos hall, fun q' hq' m hm => ?_⟩
    cases hq'
    cases hm

end YPipeBase

namespace PipeEnd

variable {x : PipeEnd} {m : Msg} {x' : PipeEnd} {rest : List Msg}

def Willing (x : PipeEnd) (n : ℕ) : Prop :=
  x.self.outActive = true ∧ x.self.state = .active ∧
    (Flow.mark x.self.hwm = 0 ∨ x.self.msgsWritten.toNat + n < Flow.mark x.self.hwm)

structure Able (x : PipeEnd) : Prop where
  outpipe : x.self.state = .active → x.self.outpipe ≠ none
  unreported : x.self.peersMsgsRead = 0
  whole : x.outpipe.Whole

theorem mark_lt (n : Int32) : Flow.mark n < 2 ^ 31 := by
  unfold Flow.mark
  have := Int32.toInt_lt n
  omega

theorem checkWrite_iff (h : x.Able) : x.self.checkWrite.1 = true ↔ x.Willing 0 := by
  have hroom : x.self.checkHwm = true ↔
      Flow.mark x.self.hwm = 0 ∨ (x.self.msgsWritten - x.self.peersMsgsRead).toNat < Flow.mark x.self.hwm :=
    Flow.hasRoom_iff (Link.flowOf x.self x.self [] [])
  rw [h.unreported, UInt64.sub_zero] at hroom
  rw [Pair.checkWrite_fst, Bool.and_eq_true, Bool.and_eq_true, beq_iff_eq, hroom, Willing, Nat.add_zero, and_assoc]

def Wrote (x x' : PipeEnd) : Prop := ∃ outActive msgsWritten outpipe sent, x' = { x with
  self := { x.self with outActive := outActive, msgsWritten := msgsWritten }
  outpipe := outpipe
  sent := sent }

theorem Wrote.refl (x : PipeEnd) : Wrote x x := ⟨_, _, _, _, rfl⟩

theorem Wrote.trans {x' x'' : PipeEnd} (h : Wrote x x') (h' : Wrote x' x'') : Wrote x x'' := by
  obtain ⟨a, w, y, sent, rfl⟩ := h
  obtain ⟨a', w', y', sent', rfl⟩ := h'
  exact ⟨a', w', y', sent', rfl⟩

theorem Willing.mono {n k : ℕ} (h : x.Willing n) (hk : k ≤ n) : x.Willing k :=
  ⟨h.1, h.2.1, h.2.2.imp_right fun hw => by omega⟩

theorem write_willing (h : x.Able) (hm : PipeT.counted m = true) : ∃ rc x', x.write m = .ok (rc, x') ∧ Wrote x x' ∧ x'.Able ∧
    ∀ n, x'.Willing n ↔ x.Willing (n + 1) := by
  cases hc : x.self.checkWrite.1 with
  | false =>
    refine ⟨false, _, write_refused hc m, ?_, ?_, fun n => ?_⟩
    · exact ⟨_, x.self.msgsWritten, x.outpipe, x.sent, by rw [Pair.checkWrite_snd]⟩
    · refine ⟨?_, ?_, h.whole⟩
      · rw [Pair.checkWrite_snd]
        exact h.outpipe
      · rw [Pair.checkWrite_snd]
        exact h.unreported
    · have hno : ¬x.Willing 0 := fun hw => by
        rw [(checkWrite_iff h).mpr hw] at hc
        cases hc
      refine ⟨fun hw => absurd ?_ hno, fun hw => absurd (hw.mono (Nat.zero_le _)) hno⟩
      obtain ⟨ha, hs, hroom⟩ := hw.mono (Nat.zero_le n)
      rw [Pair.checkWrite_snd] at ha hs hroom
      rw [Bool.and_eq_true] at ha
      exact ⟨ha.1, hs, hroom⟩
  | true =>
    have hw := (checkWrite_iff h).mp hc
    have ho := h.outpipe hw.2.1
    refine ⟨true, _, write_done hc ho m, ⟨x.self.outActive, _, _, x.sent, rfl⟩,
      ⟨h.outpipe, h.unreported, h.whole.write m⟩, fun n => ?_⟩
    rw [hm]
    unfold Willing
    dsimp only
    have hlt := mark_lt x.self.hwm
    refine and_congr Iff.rfl (and_congr Iff.rfl ?_)
    rcases hw.2.2 with hzero | hroom
    · simp only [hzero, true_or]
    · have hnext : (x.self.msgsWritten + 1).toNat = x.self.msgsWritten.toNat + 1 := by
        change (x.self.msgsWritten.toNat + 1) % 2 ^ 64 = _
        omega
      rw [if_pos rfl]
      refine or_congr Iff.rfl ?_
      omega

theorem writeAll_willing (h : x.Able) {msgs : List Msg} (hm : ∀ m ∈ msgs, PipeT.counted m = true) : ∃ x', x.writeAll msgs = .ok x' ∧
    Wrote x x' ∧ x'.Able ∧ ∀ n, x'.Willing n ↔ x.Willing (n + msgs.length) := by
  induction msgs generalizing x with
  | nil => exact ⟨x, rfl, .refl x, h, fun n => Iff.rfl⟩
  | cons m msgs ih =>
    obtain ⟨rc, y, hy, hwrote, hable, hwilling⟩ := write_willing h (hm m mem_cons_self)
    obtain ⟨x', hx', hwrote', hable', hwilling'⟩ := ih hable fun r hr => hm r (mem_cons_of_mem _ hr)
    refine ⟨x', ?_, hwrote.trans hwrote', hable', fun n => (hwilling' n).trans ((hwilling _).trans ?_)⟩
    · unfold writeAll
      rw [hy]
      exact hx'
    · rw [length_cons, Nat.add_assoc]

theorem flush_wrote (x : PipeEnd) : ∃ sent y, x.flush = { x with outpipe := y, sent := sent } ∧
    (x.outpipe.Whole → y.Whole) := by
  rcases flush_cases x with he | ⟨hs, ho⟩
  · exact ⟨x.sent, x.outpipe, he, id⟩
  · obtain ⟨sent, he, -⟩ := flush_eq hs ho
    exact ⟨_, _, he, YPipeBase.Whole.flush⟩

structure Reads (x : PipeEnd) : Prop where
  inActive : x.self.inActive = true
  state : x.self.state = .active ∨ x.self.state = .waitingForDelimiter
  plain : ∀ m ∈ x.inpipe.readable, m.isCredential = false

theorem Wrote.reads (h : Wrote x x') (hr : x.Reads) : x'.Reads := by
  obtain ⟨a, w, y, sent, rfl⟩ := h
  exact ⟨hr.inActive, hr.state, hr.plain⟩

theorem Wrote.inpipe (h : Wrote x x') : x'.inpipe = x.inpipe := by
  obtain ⟨a, w, y, sent, rfl⟩ := h
  rfl

theorem Reads.readable (h : x.Reads) : x.self.readable = true := by
  unfold PipeT.readable
  rcases h.state with hs | hs
  · rw [hs]
    rfl
  · rw [hs]
    rfl

theorem read_empty (hr : x.Reads) (h : x.Able) (he : x.inpipe.readable = []) : ∃ x', x.read = .ok (none, x') ∧ x'.Able ∧
    ∀ n, x'.Willing n ↔ x.Willing n := by
  obtain ⟨y, hy⟩ : ∃ y, x.inpipe.read = (none, y) := by
    cases hi : x.inpipe with
    | normal q =>
      rw [hi] at he
      have hread : q.read = (none, { q with asleep := true }) := Staged.read_nil he
      exact ⟨.normal q.read.2, by rw [YPipeBase.read, hread]⟩
    | conflate latest =>
      rw [hi] at he
      cases latest with
      | none => exact ⟨_, rfl⟩
      | some m => cases he
  refine ⟨{ x with inpipe := y }.update fun p => { p with credential := x.self.credential, inActive := false }, ?_,
    ⟨h.outpipe, h.unreported, h.whole⟩, fun n => Iff.rfl⟩
  unfold read YPipeBase.readMessage
  rw [if_neg (by simp [hr.inActive]), if_neg (by simp [hr.readable]), hy]

theorem processDelimiter_unwilling (h : x.Able) (hs : x.self.state = .active ∨ x.self.state = .waitingForDelimiter) :
    ∃ x', x.processDelimiter = .ok x' ∧ x'.Able ∧ ∀ n, ¬x'.Willing n := by
  unfold processDelimiter
  rcases hs with hs | hs
  · rw [if_pos hs]
    exact ⟨_, rfl, ⟨nofun, h.unreported, h.whole⟩, fun n hn => (by cases hn.2.1)⟩
  · rw [if_neg (by rw [hs]; decide), if_pos hs]
    exact ⟨_, rfl, ⟨nofun, h.unreported, h.whole⟩, fun n hn => (by cases hn.2.1)⟩

theorem read_delimiter (hr : x.Reads) (h : x.Able) (hm : x.inpipe.readable = m :: rest)
    (hd : m.isDelimiter = true) : ∃ x', x.read = .ok (none, x') ∧ x'.Able ∧ ∀ n, ¬x'.Willing n := by
  have hc : m.isCredential = false := hr.plain m (hm ▸ mem_cons_self)
  obtain ⟨y, hy⟩ : ∃ y, x.inpipe.read = (some m, y) := ⟨_, Prod.ext (YPipeBase.read_spec hm).1 rfl⟩
  have hread : x.read = do return (none, ← ({ x with inpipe := y }.update fun p =>
      { p with credential := x.self.credential }).processDelimiter) := by
    unfold read YPipeBase.readMessage
    rw [if_neg (by simp [hr.inActive]), if_neg (by simp [hr.readable]), hy]
    simp only [hc, hd, Bool.false_eq_true, if_false, if_true]
  obtain ⟨x', hx', hable, hw⟩ := processDelimiter_unwilling (x := { x with inpipe := y }.update fun p =>
    { p with credential := x.self.credential }) ⟨h.outpipe, h.unreported, h.whole⟩ hr.state
  exact ⟨x', by rw [hread, hx']; rfl, hable, hw⟩

theorem read_next (hr : x.Reads) (h : x.Able) (hm : x.inpipe.readable = m :: rest)
    (hd : m.isDelimiter = false) : ∃ x', x.read = .ok (some m, x') ∧ x'.Able ∧ x'.Reads ∧ x'.inpipe.readable = rest ∧
      ∀ n, x'.Willing n ↔ x.Willing n := by
  have hc : m.isCredential = false := hr.plain m (hm ▸ mem_cons_self)
  obtain ⟨n, sent, he⟩ := read_eq hr.inActive hr.readable hm hc hd
  have hrest := (YPipeBase.read_spec hm).2
  refine ⟨_, he, ⟨h.outpipe, h.unreported, h.whole⟩, ⟨hr.inActive, hr.state, fun r hmem => ?_⟩, hrest, fun n => Iff.rfl⟩
  rw [show _ = rest from hrest] at hmem
  exact hr.plain r (hm ▸ mem_cons_of_mem _ hmem)

theorem read_willing (hr : x.Reads) (h : x.Able) : ∃ r x', x.read = .ok (r, x') ∧ x'.Able ∧
    ∀ n, x'.Willing n ↔ x.Willing n ∧ ∀ m ∈ x.inpipe.readable.take 1, m.isDelimiter = false := by
  cases hm : x.inpipe.readable with
  | nil =>
    obtain ⟨x', hx', hable, hw⟩ := read_empty hr h hm
    exact ⟨none, x', hx', hable, fun n => (hw n).trans (by simp)⟩
  | cons m rest =>
    cases hd : m.isDelimiter with
    | true =>
      obtain ⟨x', hx', hable, hw⟩ := read_delimiter hr h hm hd
      exact ⟨none, x', hx', hable, fun n => iff_of_false (hw n) (by simp [hd])⟩
    | false =>
      obtain ⟨x', hx', hable, -, -, hw⟩ := read_next hr h hm hd
      exact ⟨some m, x', hx', hable, fun n => (hw n).trans (by simp [hd])⟩

theorem readAll_willing {fuel : ℕ} (hr : x.Reads) (h : x.Able) (hf : x.inpipe.readable.length < fuel) : ∃ x',
    x.readAll fuel = .ok x' ∧ x'.Able ∧ ∀ n, x'.Willing n ↔ x.Willing n ∧ ∀ m ∈ x.inpipe.readable, m.isDelimiter = false := by
  induction fuel generalizing x with
  | zero => omega
  | succ fuel ih =>
    unfold readAll
    cases hm : x.inpipe.readable with
    | nil =>
      obtain ⟨x', hx', hable, hw⟩ := read_empty hr h hm
      exact ⟨x', by rw [hx']; rfl, hable, fun n => (hw n).trans (by simp)⟩
    | cons m rest =>
      cases hd : m.isDelimiter with
      | true =>
        obtain ⟨x', hx', hable, hw⟩ := read_delimiter hr h hm hd
        exact ⟨x', by rw [hx']; rfl, hable, fun n => iff_of_false (hw n) (by simp [hd])⟩
      | false =>
        obtain ⟨y, hy, hable, hreads, hrest, hw⟩ := read_next hr h hm hd
        obtain ⟨x', hx', hable', hw'⟩ := ih hreads hable (by
          rw [hrest]
          rw [hm, length_cons] at hf
          omega)
        refine ⟨x', by rw [hy]; exact hx', hable', fun n => ?_⟩
        rw [hw', hw, hrest]
        simp [hd]

theorem counted_of_flags (h : m.flags = 0) : PipeT.counted m = true := by
  rw [PipeT.counted, Msg.hasMore, Msg.isIdentity, h]
  rfl

theorem stopOutbound_spec (h : x.outpipe.Whole) : ∃ x', x.stopOutbound = .ok x' ∧
    x'.self = { x.self with outActive := false } ∧ x'.outpipe.Whole := by
  by_cases ho : x.self.outpipe = none
  · exact ⟨_, if_pos ho, rfl, h⟩
  · obtain ⟨y, hy, hwhole⟩ := h.unwriteAll
    obtain ⟨sent, z, hz, hflush⟩ := flush_wrote { x with
      self := { x.self with outActive := false }
      outpipe := y.write Msg.initDelimiter false }
    refine ⟨_, stopOutbound_eq ho hy, congrArg self hz, ?_⟩
    exact (congrArg outpipe hz).symm ▸ hflush (hwhole.write Msg.initDelimiter)

theorem stopOutbound_unwilling (hr : x.self.peersMsgsRead = 0) (hw : x.outpipe.Whole) (hne : x.self.state ≠ .active) :
    ∃ x', x.stopOutbound = .ok x' ∧ x'.Able ∧ ∀ n, ¬x'.Willing n := by
  obtain ⟨x', hx', hself, hwhole⟩ := stopOutbound_spec hw
  have hstate : x'.self.state = x.self.state := by rw [hself]
  have hread : x'.self.peersMsgsRead = x.self.peersMsgsRead := by rw [hself]
  exact ⟨x', hx', ⟨fun hact => absurd (hstate.symm.trans hact) hne, hread.trans hr, hwhole⟩,
    fun n hn => hne (hstate.symm.trans hn.2.1)⟩

theorem terminate_unwilling (h : x.Able) (delay : Bool) : ∃ x', x.terminate delay = .ok x' ∧ x'.Able ∧ ∀ n, ¬x'.Willing n := by
  obtain ⟨z, hz⟩ : ∃ z, z = x.update fun p => { p with delay := delay } := ⟨_, rfl⟩
  have hread : z.self.peersMsgsRead = 0 := hz ▸ h.unreported
  have hwhole : z.outpipe.Whole := hz ▸ h.whole
  have hidle : z.self.state ≠ .active → ∃ x', (.ok z : Except Fault PipeEnd) = .ok x' ∧ x'.Able ∧ ∀ n, ¬x'.Willing n :=
    fun hne => ⟨z, rfl, ⟨fun hact => absurd hact hne, hread, hwhole⟩, fun n hn => hne hn.2.1⟩
  unfold terminate
  rw [← hz]
  dsimp only
  cases hs : z.self.state with
  | active | delimiterReceived => exact stopOutbound_unwilling hread hwhole (by simp [update])
  | waitingForDelimiter =>
    cases delay with
    | false => exact stopOutbound_unwilling (x := z.acknowledge .termAckSent) hread hwhole (by simp [acknowledge, update, send])
    | true => exact stopOutbound_unwilling hread hwhole (by rw [hs]; decide)
  | termAckSent | termReqSent1 | termReqSent2 => exact hidle (by rw [hs]; decide)

end PipeEnd

namespace BinderT

open PipeEnd

variable {x : PipeEnd} (b : BinderT)

theorem requests_counted : ∀ m ∈ b.requests, PipeT.counted m = true := by
  intro m hm
  obtain ⟨name, -, rfl⟩ := mem_map.mp hm
  split_ifs
  · rfl
  · exact counted_of_flags rfl

theorem greets {msgs : List Msg} (hr : x.Reads) (h : x.Able) (hm : ∀ m ∈ msgs, PipeT.counted m = true) : ∃ x',
    (do return (← x.writeAll msgs).flush : Except Fault PipeEnd) = .ok x' ∧ x'.Reads ∧ x'.Able ∧
      x'.inpipe = x.inpipe ∧ ∀ n, x'.Willing n ↔ x.Willing (n + msgs.length) := by
  obtain ⟨y, hy, hwrote, hable, hw⟩ := writeAll_willing h hm
  obtain ⟨sent, z, hz, hwhole⟩ := flush_wrote y
  have hreads := hwrote.reads hr
  refine ⟨y.flush, by rw [hy]; rfl, ?_, ?_, ?_, ?_⟩
  · rw [hz]
    exact ⟨hreads.inActive, hreads.state, hreads.plain⟩
  · rw [hz]
    exact ⟨hable.outpipe, hable.unreported, hwhole hable.whole⟩
  · rw [hz]
    exact hwrote.inpipe
  · rw [hz]
    exact hw

theorem greets_if {c : Prop} [Decidable c] {m : Msg} (hr : x.Reads) (h : x.Able) (hm : PipeT.counted m = true) : ∃ x',
    (if c then do return (← x.writeAll [m]).flush else .ok x : Except Fault PipeEnd) = .ok x' ∧ x'.Reads ∧ x'.Able ∧
      x'.inpipe = x.inpipe ∧ ∀ n, x'.Willing n ↔ x.Willing (n + (if c then [m] else []).length) := by
  split_ifs
  · exact greets hr h fun r hmem => mem_singleton.mp hmem ▸ hm
  · exact ⟨x, rfl, hr, h, rfl, fun n => Iff.rfl⟩

theorem probes (hr : x.Reads) (h : x.Able) : ∃ x', b.probe x = .ok x' ∧ x'.Reads ∧ x'.Able ∧ x'.inpipe = x.inpipe ∧
    ∀ n, x'.Willing n ↔ x.Willing (n + (if b.probeRouter then [Msg.init] else []).length) :=
  greets_if hr h (counted_of_flags rfl)

theorem welcomes (hr : x.Reads) (h : x.Able) : ∃ x', b.welcome x = .ok x' ∧ x'.Reads ∧ x'.Able ∧ x'.inpipe = x.inpipe ∧
    ∀ n, x'.Willing n ↔ x.Willing (n + (if b.welcomeMsg = [] then [] else [Msg.ofData b.welcomeMsg]).length) := by
  unfold welcome
  split_ifs
  · exact ⟨x, rfl, hr, h, rfl, fun n => Iff.rfl⟩
  · exact greets hr h fun r hmem => mem_singleton.mp hmem ▸ counted_of_flags rfl

theorem nodelay_reads (hr : x.Reads) : (setNodelay x).Reads := ⟨hr.inActive, hr.state, hr.plain⟩

theorem nodelay_able (h : x.Able) : (setNodelay x).Able := ⟨h.outpipe, h.unreported, h.whole⟩

theorem identifies (hr : x.Reads) (h : x.Able) : ∃ x', b.identifyPeer x = .ok x' ∧ x'.Able ∧ ∀ n, x'.Willing n ↔
    x.Willing n ∧ ∀ m ∈ (if b.connectRid ≠ [] ∨ b.rawSocket then [] else x.inpipe.readable.take 1), m.isDelimiter = false := by
  unfold identifyPeer
  split_ifs
  · exact ⟨x, rfl, h, fun n => by simp⟩
  · obtain ⟨r, x', hx', hable, hw⟩ := read_willing hr h
    exact ⟨x', by rw [hx']; rfl, hable, hw⟩

theorem activates (hr : x.Reads) (h : x.Able) : ∃ x', xreadActivated x = .ok x' ∧ x'.Able ∧ ∀ n, x'.Willing n ↔
    x.Willing n ∧ ∀ m ∈ x.inpipe.readable, m.isDelimiter = false := readAll_willing hr h (Nat.lt_succ_self _)

theorem greets_then {f g : PipeEnd → Except Fault PipeEnd} {k : ℕ} (takes : List Msg → List Msg)
    (hf : ∃ y, f x = .ok y ∧ y.Reads ∧ y.Able ∧ y.inpipe = x.inpipe ∧ ∀ n, y.Willing n ↔ x.Willing (n + k))
    (hg : ∀ y : PipeEnd, y.Reads → y.Able → ∃ x', g y = .ok x' ∧ x'.Able ∧
      ∀ n, x'.Willing n ↔ y.Willing n ∧ ∀ m ∈ takes y.inpipe.readable, m.isDelimiter = false) :
    ∃ x', (f x >>= g) = .ok x' ∧ x'.Able ∧
      ∀ n, x'.Willing n ↔ x.Willing (n + k) ∧ ∀ m ∈ takes x.inpipe.readable, m.isDelimiter = false := by
  obtain ⟨y, hy, hreads, hable, hin, hw⟩ := hf
  obtain ⟨x', hx', hable', hw'⟩ := hg y hreads hable
  exact ⟨x', by rw [hy]; exact hx', hable', fun n => by rw [hw', hw, hin]⟩

theorem xattachPipe_willing (hr : x.Reads) (h : x.Able) : ∃ x', b.xattachPipe x = .ok x' ∧ x'.Able ∧
    ∀ n, x'.Willing n ↔ x.Willing (n + b.greeting.length) ∧
      ¬((b.options.type = .pair ∨ b.options.type = .dgram) ∧ b.taken = true) ∧
      ∀ m ∈ b.takes x.inpipe.readable, m.isDelimiter = false := by
  have hidle : ∀ y : PipeEnd, y.Able → (∀ n, y.Willing n ↔ x.Willing n) → ∃ x', (.ok y : Except Fault PipeEnd) = .ok x' ∧
      x'.Able ∧ ∀ n, x'.Willing n ↔ x.Willing (n + ([] : List Msg).length) ∧ ∀ m ∈ ([] : List Msg), m.isDelimiter = false :=
    fun y hy hw => ⟨y, rfl, hy, fun n => (hw n).trans (by simp)⟩
  cases ht : b.options.type with
  | pair | dgram =>
    simp only [xattachPipe, greeting, takes, ht, reduceCtorEq, or_false, or_true, true_and]
    cases b.taken with
    | false => simpa using hidle x h fun n => Iff.rfl
    | true =>
      obtain ⟨x', hx', hable, hw⟩ := terminate_unwilling h false
      exact ⟨x', by simpa using hx', hable, fun n => iff_of_false (hw n) fun hc => hc.2.1 rfl⟩
  | pub =>
    simp only [xattachPipe, greeting, takes, ht, reduceCtorEq, or_self, false_and, not_false_eq_true, true_and]
    exact greets_then id (b.welcomes (nodelay_reads hr) (nodelay_able h)) fun y => activates
  | xpub =>
    simp only [xattachPipe, greeting, takes, ht, reduceCtorEq, or_self, false_and, not_false_eq_true, true_and]
    exact greets_then id (b.welcomes hr h) fun y => activates
  | radio =>
    simp only [xattachPipe, greeting, takes, ht, reduceCtorEq, or_self, false_and, not_false_eq_true, true_and]
    exact activates (nodelay_reads hr) (nodelay_able h)
  | sub | xsub | dish =>
    simp only [xattachPipe, greeting, takes, ht, reduceCtorEq, or_self, false_and, not_false_eq_true, true_and]
    obtain ⟨x', hx', -, hable, -, hw⟩ := greets hr h b.requests_counted
    exact ⟨x', hx', hable, fun n => (hw n).trans (by simp)⟩
  | router | rep =>
    simp only [xattachPipe, greeting, takes, ht, reduceCtorEq, or_self, false_and, not_false_eq_true, true_and]
    exact greets_then (fun msgs => if b.connectRid ≠ [] ∨ b.rawSocket = true then [] else msgs.take 1)
      (b.probes hr h) fun y => b.identifies
  | dealer | req =>
    simp only [xattachPipe, greeting, takes, ht, reduceCtorEq, or_self, false_and, not_false_eq_true, true_and]
    obtain ⟨x', hx', -, hable, -, hw⟩ := b.probes hr h
    exact ⟨x', hx', hable, fun n => (hw n).trans (by simp)⟩
  | push | scatter =>
    simp only [xattachPipe, greeting, takes, ht, reduceCtorEq, or_self, false_and, not_false_eq_true, true_and]
    exact hidle (setNodelay x) (nodelay_able h) fun n => Iff.rfl
  | pull | gather | server | client | stream =>
    simp only [xattachPipe, greeting, takes, ht, reduceCtorEq, or_self, false_and, not_false_eq_true, true_and]
    exact hidle x h fun n => Iff.rfl

theorem attachPipe_willing (hr : x.Reads) (h : x.Able) : ∃ x', b.attachPipe x = .ok x' ∧ x'.Able ∧
    (x'.Willing 0 ↔ x.Willing b.greeting.length ∧ ¬b.Rejects ∧ ∀ m ∈ b.takes x.inpipe.readable, m.isDelimiter = false) := by
  obtain ⟨y, hy, hable, hw⟩ := b.xattachPipe_willing (x := x.update fun p => { p with sink := true })
    ⟨hr.inActive, hr.state, hr.plain⟩ ⟨h.outpipe, h.unreported, h.whole⟩
  unfold attachPipe Rejects
  rw [hy]
  cases ht : b.terminating with
  | false =>
    refine ⟨y, rfl, hable, (hw 0).trans ?_⟩
    rw [Nat.zero_add]
    simp only [Bool.false_eq_true, or_false]
    rfl
  | true =>
    obtain ⟨x', hx', hable', hno⟩ := terminate_unwilling hable false
    exact ⟨x', hx', hable', iff_of_false (hno 0) fun hc => hc.2.1 (.inr rfl)⟩

end BinderT

end Zmq
