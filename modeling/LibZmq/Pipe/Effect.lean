import LibZmq.Pipe.Pair

/-! Everything a call on a live end can do: one constructor of `Effect` for each
way through the source, with the condition under which it is taken. Queues are
described by their staged view. -/

namespace Zmq

open Bool PipeT

namespace Pair

open PipeT

inductive Delimited (p : PipeT) : PipeT → List Cmd → Prop
  | active (h : p.state = .active) : Delimited p { p with state := .delimiterReceived } []
  | waiting (h : p.state = .waitingForDelimiter) :
    Delimited p { p with outpipe := none, state := .termAckSent } [.pipeTermAck]

def readCount (p : PipeT) (m : Msg) : UInt64 := if counted m then p.msgsRead + 1 else p.msgsRead

def report (p : PipeT) (n : UInt64) : List Cmd :=
  if p.lwm > 0 ∧ n % toU64 p.lwm = 0 then [.activateWrite n] else []

def wake (q : Staged Msg) : List Cmd := if q.flush.1 then [] else [.activateRead]

/-- The outbound queue once `terminate` has written its delimiter. -/
def delimit (q : Staged Msg) : Staged Msg :=
  ({ q with unfinished := [] } : Staged Msg).write Msg.initDelimiter false

inductive Change where
  | keep
  | inbound (q : Staged Msg)
  | outbound (q : Staged Msg)
  | fresh
  /-- the outbound queue is deleted, the next one taken -/
  | adopt
  /-- the inbound queue is deleted with the end -/
  | release

inductive Effect (p : PipeT) (i o : Staged Msg) (next : ℕ) : Op → Res → PipeT → Change → List Cmd → Prop
  | checkReadIdle (hp : (p.inActive && p.readable) = false) :
    Effect p i o next .checkRead (.bool false) p .keep []
  | checkReadEmpty (hp : (p.inActive && p.readable) = true) (he : i.ready = []) :
    Effect p i o next .checkRead (.bool false) { p with inActive := false }
      (.inbound { i with asleep := true }) []
  | checkReadTrue {m rest} (hp : (p.inActive && p.readable) = true) (he : i.ready = m :: rest)
    (hm : m.isDelimiter = false) :
    Effect p i o next .checkRead (.bool true) p (.inbound i) []
  | checkReadDelimiter {m rest p' sent} (hp : (p.inActive && p.readable) = true)
    (he : i.ready = m :: rest) (hm : m.isDelimiter = true) (hd : Delimited p p' sent) :
    Effect p i o next .checkRead (.bool false) p' (.inbound { i with ready := rest }) sent
  | readIdle (hp : (p.inActive && p.readable) = false) :
    Effect p i o next .read (.msg none) p .keep []
  | readEmpty {c} (hp : (p.inActive && p.readable) = true)
    (he : i.ready.dropWhile Msg.isCredential = []) :
    Effect p i o next .read (.msg none) { p with inActive := false, credential := c }
      (.inbound { i with ready := [], asleep := true }) []
  | readDelimiter {m rest c p' sent} (hp : (p.inActive && p.readable) = true)
    (he : i.ready.dropWhile Msg.isCredential = m :: rest) (hm : m.isDelimiter = true)
    (hd : Delimited { p with credential := c } p' sent) :
    Effect p i o next .read (.msg none) p' (.inbound { i with ready := rest }) sent
  | readMessage {m rest c} (hp : (p.inActive && p.readable) = true)
    (he : i.ready.dropWhile Msg.isCredential = m :: rest) (hm : m.isDelimiter = false) :
    Effect p i o next .read (.msg (some m)) { p with credential := c, msgsRead := readCount p m }
      (.inbound { i with ready := rest }) (report p (readCount p m))
  | checkWrite : Effect p i o next .checkWrite (.bool p.checkWrite.1) p.checkWrite.2 .keep []
  | writeRefused {m} (hw : p.checkWrite.1 = false) :
    Effect p i o next (.write m) (.bool false) p.checkWrite.2 .keep []
  | writeDone {m} (hw : p.checkWrite = (true, p)) (ho : p.outpipe ≠ none) :
    Effect p i o next (.write m) (.bool true)
      { p with msgsWritten := if counted m then p.msgsWritten + 1 else p.msgsWritten }
      (.outbound (o.write m m.hasMore)) []
  | rollbackIdle (ho : p.outpipe = none) : Effect p i o next .rollback .unit p .keep []
  | rollback (ho : p.outpipe ≠ none) :
    Effect p i o next .rollback .unit p (.outbound { o with unfinished := [] }) []
  | flushIdle (ho : p.state = .termAckSent ∨ p.outpipe = none) :
    Effect p i o next .flush .unit p .keep []
  | flush (hs : p.state ≠ .termAckSent) (ho : p.outpipe ≠ none) :
    Effect p i o next .flush .unit p (.outbound o.flush.2) (wake o)
  | hiccupIdle (hs : p.state ≠ .active) : Effect p i o next .hiccup .unit p .keep []
  | hiccup (hs : p.state = .active) :
    Effect p i o next .hiccup .unit { p with inpipe := some next, inActive := true } .fresh
      [.hiccup next]
  | setNodelay : Effect p i o next .setNodelay .unit p.setNodelay .keep []
  | setHwms {inhwm outhwm} :
    Effect p i o next (.setHwms inhwm outhwm) .unit (p.setHwms inhwm outhwm) .keep []
  | terminateIdle {delay}
    (hs : p.state = .termReqSent1 ∨ p.state = .termReqSent2 ∨ p.state = .termAckSent) :
    Effect p i o next (.terminate delay) .unit { p with delay := delay } .keep []
  | terminateRequest {delay} (hs : p.state = .active ∨ p.state = .delimiterReceived)
    (ho : p.outpipe ≠ none) :
    Effect p i o next (.terminate delay) .unit
      { p with delay := delay, state := .termReqSent1, outActive := false }
      (.outbound (delimit o).flush.2) (.pipeTerm :: wake (delimit o))
  | terminateAck (hs : p.state = .waitingForDelimiter) :
    Effect p i o next (.terminate false) .unit
      { p with delay := false, outpipe := none, state := .termAckSent, outActive := false }
      .keep [.pipeTermAck]
  | terminateWait (hs : p.state = .waitingForDelimiter) (ho : p.outpipe ≠ none) :
    Effect p i o next (.terminate true) .unit { p with delay := true, outActive := false }
      (.outbound (delimit o).flush.2) (wake (delimit o))

inductive Handled (p : PipeT) (o : Staged Msg) : Cmd → Option PipeT → Change → List Cmd → Prop
  | activateRead :
    Handled p o .activateRead (some { p with inActive := p.inActive || p.readable }) .keep []
  | activateWrite {n} :
    Handled p o (.activateWrite n)
      (some { p with peersMsgsRead := n, outActive := p.outActive || p.state == .active }) .keep []
  | hiccup {a} (ho : p.outpipe ≠ none) :
    Handled p o (.hiccup a)
      (some { p with
        outpipe := some a
        outActive := true
        msgsWritten := p.msgsWritten -
          UInt64.ofNat ((o.ready ++ o.complete).countP fun m => !m.hasMore) }) .adopt []
  | pipeTermWait (hs : p.state = .active) (hd : p.delay = true) :
    Handled p o .pipeTerm (some { p with state := .waitingForDelimiter }) .keep []
  | pipeTermAck (hs : p.state = .active ∧ p.delay = false ∨ p.state = .delimiterReceived) :
    Handled p o .pipeTerm (some { p with outpipe := none, state := .termAckSent }) .keep
      [.pipeTermAck]
  | pipeTermBoth (hs : p.state = .termReqSent1) :
    Handled p o .pipeTerm (some { p with outpipe := none, state := .termReqSent2 }) .keep
      [.pipeTermAck]
  | ackReply (hs : p.state = .termReqSent1) :
    Handled p o .pipeTermAck none .release [.pipeTermAck]
  | ackLast (hs : p.state = .termAckSent ∨ p.state = .termReqSent2) :
    Handled p o .pipeTermAck none .release []

inductive Applied (p : PipeT) (h : Heap) : Change → Heap → Prop
  | keep : Applied p h .keep h
  | inbound {q v} (hv : Upipe.view q = v) : Applied p h (.inbound v) (h.set p.inpipe q)
  | outbound {q v} (hv : Upipe.view q = v) : Applied p h (.outbound v) (h.set p.outpipe q)
  | fresh : Applied p h .fresh h.alloc
  | adopt : Applied p h .adopt (h.delete p.outpipe)
  | release : Applied p h .release (h.delete p.inpipe)

structure Sound (p : PipeT) (h : Heap) (i o : Staged Msg) : Prop where
  inpipe : ∃ a q, p.inpipe = some a ∧ h.cells a = some q ∧ q.view = i
  outpipe : ∀ a, p.outpipe = some a → ∃ q, h.cells a = some q ∧ q.view = o
  unfinished : ∀ m ∈ o.unfinished, m.hasMore = true
  writable : p.outpipe = none → p.state = .termAckSent ∨ p.state = .termReqSent2

abbrev ctx (p : PipeT) (h : Heap) : Ctx := ⟨p, h, [], []⟩

theorem ok_bind {α β : Type} (a : α) (f : α → Except Fault β) : (Except.ok a >>= f) = f a := rfl

variable {q : Upipe} {a : Option ℕ}

theorem get_eq {h : Heap} {i : ℕ} (ha : a = some i) (hq : h.cells i = some q) : h.get a = .ok q := by simp [Heap.get, ha, hq]

theorem set_set (h : Heap) (a : Option ℕ) (q q' : Upipe) : (h.set a q).set a q' = h.set a q' := by
  cases a <;> simp [Heap.set]

theorem get_set {h : Heap} {i : ℕ} (ha : a = some i) (q : Upipe) : (h.set a q).get a = .ok q := by simp [Heap.get, Heap.set, ha]

variable {p : PipeT} {h : Heap} {i o : Staged Msg} {x : Ctx}

theorem Sound.read_get (hp : Sound p h i o) : ∃ q, (ctx p h).inpipe = .ok q ∧ q.view = i := by
  obtain ⟨a, q, ha, hq, hv⟩ := hp.inpipe
  exact ⟨q, get_eq ha hq, hv⟩

theorem Sound.write_get (hp : Sound p h i o) (ho : p.outpipe ≠ none) :
    ∃ a q, p.outpipe = some a ∧ h.cells a = some q ∧ q.view = o := by
  obtain ⟨a, ha⟩ := Option.ne_none_iff_exists'.mp ho
  obtain ⟨q, hq, hv⟩ := hp.outpipe a ha
  exact ⟨a, q, ha, hq, hv⟩

def Goes (p : PipeT) (h : Heap) (i o : Staged Msg) (op : Op) : Prop :=
  ∃ r p' h' sent c, call (ctx p h) op = .ok (r, ⟨p', h', sent, []⟩) ∧ Effect p i o h.next op r p' c sent ∧ Applied p h c h'

theorem processDelimiter_spec (x : Ctx) (hr : x.self.readable = true) :
    ∃ p' sent, processDelimiter x = .ok ⟨p', x.heap, x.sent ++ sent, x.events⟩ ∧ Delimited x.self p' sent := by
  simp only [readable, or_eq_true, beq_iff_eq] at hr
  unfold processDelimiter
  rcases hr with hs | hs
  · rw [if_pos hs]
    refine ⟨_, [], ?_, .active hs⟩
    rw [List.append_nil]
    rfl
  · rw [if_neg (by rw [hs]; decide), if_pos hs]
    exact ⟨_, _, rfl, .waiting hs⟩

theorem checkRead_goes (hp : Sound p h i o) : Goes p h i o .checkRead := by
  obtain ⟨q, hg, rfl⟩ := hp.read_get
  cases ha : p.inActive && p.readable with
  | false =>
    refine ⟨_, _, _, _, _, ?_, .checkReadIdle ha, .keep⟩
    simp only [and_eq_false_iff] at ha
    rcases ha with ha | ha <;> simp [call, checkRead, ha]
  | true =>
    have ha' := ha
    simp only [and_eq_true] at ha'
    simp only [Goes, call, checkRead, ha', Bool.not_true, Bool.false_eq_true, if_false, hg, ok_bind]
    cases hr : q.view.ready with
    | nil =>
      obtain ⟨q1, e1, v1⟩ := Upipe.checkRead_nil hr
      simp only [e1]
      exact ⟨_, _, _, _, _, rfl, .checkReadEmpty ha hr, .inbound v1⟩
    | cons m rest =>
      obtain ⟨q1, e1, v1⟩ := Upipe.checkRead_cons hr
      obtain ⟨q2, e2, v2⟩ := Upipe.probe_cons Msg.isDelimiter (v1 ▸ hr)
      simp only [e1, e2]
      cases hm : m.isDelimiter with
      | false =>
        refine ⟨_, _, _, _, _, rfl, .checkReadTrue ha hr hm, ?_⟩
        simp only [Ctx.setInpipe, set_set]
        exact .inbound (v2.trans v1)
      | true =>
        obtain ⟨q3, e3, v3⟩ := Upipe.read_cons (v2 ▸ v1 ▸ hr)
        obtain ⟨p', sent, hd, hp'⟩ :=
          processDelimiter_spec (((ctx p h).setInpipe q1).setInpipe q3) ha'.2
        simp only [e3, hd, ok_bind]
        refine ⟨_, _, _, _, _, rfl, .checkReadDelimiter ha hr hm hp', ?_⟩
        simp only [Ctx.setInpipe, set_set]
        exact .inbound (by rw [v3, v2, v1])

theorem countRead_eq (x : Ctx) (m : Msg) : countRead x m = ⟨{ x.self with msgsRead := readCount x.self m }, x.heap,
      x.sent ++ report x.self (readCount x.self m), x.events⟩ := by
  change (if x.self.lwm > 0 ∧ readCount x.self m % toU64 x.self.lwm = 0 then _ else _) = _
  by_cases hl : x.self.lwm > 0 ∧ readCount x.self m % toU64 x.self.lwm = 0
  · rw [report, if_pos hl, if_pos hl]
    rfl
  · rw [report, if_neg hl, if_neg hl, List.append_nil]
    rfl

theorem read_goes (hp : Sound p h i o) : Goes p h i o .read := by
  obtain ⟨q, hg, rfl⟩ := hp.read_get
  cases ha : p.inActive && p.readable with
  | false =>
    refine ⟨_, _, _, _, _, ?_, .readIdle ha, .keep⟩
    simp only [and_eq_false_iff] at ha
    rcases ha with ha | ha <;> simp [call, PipeT.read, ha]
  | true =>
    have ha' := ha
    simp only [and_eq_true] at ha'
    have hs := Upipe.readMessage_spec (q.size + 1) q p.credential (by
      have := q.ready_le_size
      omega)
    obtain ⟨⟨msg, q1, c⟩, e1⟩ : ∃ x, Upipe.readMessage (q.size + 1) q p.credential = x := ⟨_, rfl⟩
    simp only [e1] at hs
    simp only [Goes, call, PipeT.read, ha', Bool.not_true, Bool.false_eq_true, if_false, hg,
      ok_bind, e1]
    cases hr : q.view.ready.dropWhile Msg.isCredential with
    | nil =>
      rw [Staged.read_nil hr] at hs
      obtain ⟨rfl, v1⟩ := Prod.mk.inj hs
      exact ⟨_, _, _, _, _, rfl, .readEmpty ha hr, .inbound (by rw [v1, hr])⟩
    | cons m rest =>
      rw [Staged.read_cons hr] at hs
      obtain ⟨rfl, v1⟩ := Prod.mk.inj hs
      cases hm : m.isDelimiter with
      | false =>
        refine ⟨_, _, _, _, _, ?_, .readMessage (c := c) ha hr hm, .inbound v1⟩
        simp only [hm, false_eq_true, if_false]
        exact congrArg (fun x => Except.ok (Res.msg (some m), x)) (countRead_eq _ m)
      | true =>
        obtain ⟨p', sent, hd, hp'⟩ := processDelimiter_spec
          (((ctx p h).setInpipe q1).update fun p => { p with credential := c }) ha'.2
        simp only [hm, if_true, hd]
        exact ⟨_, _, _, _, _, rfl, .readDelimiter ha hr hm hp', .inbound v1⟩

@[simp] theorem checkWrite_fst (p : PipeT) : p.checkWrite.1 = (p.outActive && p.state == .active && p.checkHwm) := by
  unfold checkWrite
  cases p.outActive <;> cases p.checkHwm <;> by_cases h : p.state = .active <;> simp [h]

@[simp] theorem checkWrite_snd (p : PipeT) : p.checkWrite.2 =
      { p with outActive := p.outActive && (p.state != .active || p.checkHwm) } := by
  have hset : ∀ b b', b = b' → ({ p with outActive := b } : PipeT) = { p with outActive := b' } :=
    fun _ _ h => by rw [h]
  unfold checkWrite
  split_ifs with h1 h2
  · apply hset p.outActive
    rcases h1 with h1 | h1
    · rw [not_eq_true'] at h1
      rw [h1, Bool.false_and]
    · simp [h1]
  · apply hset false
    simp_all
  · apply hset p.outActive
    simp_all

theorem checkWrite_cases (p : PipeT) : p.checkWrite = (true, p) ∨ p.checkWrite.1 = false := by
  unfold checkWrite
  split_ifs <;> simp

theorem write_goes (hp : Sound p h i o) (m : Msg) : Goes p h i o (.write m) := by
  rcases checkWrite_cases p with hw | hw
  · have ha : p.state = .active := by
      by_contra ha
      simp [checkWrite, ha] at hw
    have ho : p.outpipe ≠ none := by
      intro ho
      rcases hp.writable ho with e | e <;> simp [e] at ha
    obtain ⟨a, q, hoa, hq, rfl⟩ := hp.write_get ho
    have hg : (ctx p h).outpipe = .ok q := get_eq hoa hq
    refine ⟨_, _, _, _, _, ?_, .writeDone hw ho, .outbound (q.view_write m m.hasMore)⟩
    simp only [call, write, hw, Bool.not_true, Bool.false_eq_true, if_false, hg, ok_bind]
    rfl
  · refine ⟨_, _, _, _, _, ?_, .writeRefused hw, .keep⟩
    simp only [call, write, hw, Bool.not_false, if_true, ok_bind]
    rfl

theorem rollback_spec {a : ℕ} (ho : x.self.outpipe = some a)
    (hq : x.heap.cells a = some q) (hm : ∀ m ∈ q.view.unfinished, m.hasMore = true) : ∃ q', rollback x = .ok (x.setOutpipe q') ∧
      q'.view = { q.view with unfinished := [] } := by
  have hg : x.outpipe = .ok q := get_eq ho hq
  obtain ⟨q', he, hv⟩ := Upipe.unwriteAll_spec q.size q q.unfinished_le_size hm
  refine ⟨q', ?_, hv⟩
  unfold rollback
  rw [if_neg (by simp [ho])]
  simp only [hg, ok_bind, he]
  rfl

theorem rollback_goes (hp : Sound p h i o) : Goes p h i o .rollback := by
  by_cases ho : p.outpipe = none
  · exact ⟨_, _, _, _, _, by simp [call, rollback, ho], .rollbackIdle ho, .keep⟩
  · obtain ⟨a, q, hoa, hq, rfl⟩ := hp.write_get ho
    obtain ⟨q', he, hv⟩ := rollback_spec (x := ctx p h) hoa hq hp.unfinished
    refine ⟨_, _, _, _, _, ?_, .rollback ho, .outbound hv⟩
    simp only [call, he, ok_bind]
    rfl

theorem flush_spec {a : ℕ} (hs : x.self.state ≠ .termAckSent) (ho : x.self.outpipe = some a) (hq : x.heap.cells a = some q) :
    ∃ q', flush x = .ok { x.setOutpipe q' with sent := x.sent ++ wake q.view } ∧
      q'.view = q.view.flush.2 := by
  have hg : x.outpipe = .ok q := get_eq ho hq
  obtain ⟨q', he, hv⟩ := q.flush_cases
  refine ⟨q', ?_, hv⟩
  unfold flush
  rw [if_neg hs, if_neg (by simp [ho])]
  simp only [hg, ok_bind, he, wake]
  cases q.view.flush.1 with
  | true =>
    simp only [if_true, List.append_nil]
    rfl
  | false => rfl

theorem flush_goes (hp : Sound p h i o) : Goes p h i o .flush := by
  by_cases hs : p.state = .termAckSent
  · exact ⟨_, _, _, _, _, by simp [call, flush, hs], .flushIdle (.inl hs), .keep⟩
  by_cases ho : p.outpipe = none
  · exact ⟨_, _, _, _, _, by simp [call, flush, ho], .flushIdle (.inr ho), .keep⟩
  obtain ⟨a, q, hoa, hq, rfl⟩ := hp.write_get ho
  obtain ⟨q', he, hv⟩ := flush_spec (x := ctx p h) hs hoa hq
  refine ⟨_, _, _, _, _, ?_, .flush hs ho, .outbound hv⟩
  simp only [call, he, ok_bind]
  rfl

theorem stopOutbound_spec {a : ℕ} (hs : x.self.state ≠ .termAckSent)
    (ho : x.self.outpipe = some a) (hq : x.heap.cells a = some q)
    (hm : ∀ m ∈ q.view.unfinished, m.hasMore = true) :
    ∃ q', stopOutbound x = .ok { x with
        self := { x.self with outActive := false }
        heap := x.heap.set x.self.outpipe q'
        sent := x.sent ++ wake (delimit q.view) } ∧
      q'.view = (delimit q.view).flush.2 := by
  let x0 : Ctx := { x with self := { x.self with outActive := false } }
  obtain ⟨q1, e1, v1⟩ := rollback_spec (x := x0) ho hq hm
  have hg : (x0.setOutpipe q1).outpipe = .ok q1 := get_set ho q1
  let x2 := (x0.setOutpipe q1).setOutpipe (q1.write Msg.initDelimiter false)
  have hq2 : x2.heap.cells a = some (q1.write Msg.initDelimiter false) := by
    simp [x2, x0, Ctx.setOutpipe, ho, Heap.set]
  obtain ⟨q3, e3, v3⟩ := flush_spec (x := x2) hs ho hq2
  have hv : (q1.write Msg.initDelimiter false).view = delimit q.view := by
    rw [Upipe.view_write, v1]
    rfl
  rw [hv] at e3 v3
  refine ⟨q3, ?_, v3⟩
  change (if x.self.outpipe = none then _ else _) = _
  rw [if_neg (by simp [ho])]
  change (rollback x0 >>= _) = _
  rw [e1, ok_bind, hg, ok_bind]
  rw [e3]
  simp only [x2, x0, Ctx.setOutpipe, set_set]

theorem terminate_goes (hp : Sound p h i o) (delay : Bool) : Goes p h i o (.terminate delay) := by
  have hidle : p.state = .termReqSent1 ∨ p.state = .termReqSent2 ∨ p.state = .termAckSent →
      Goes p h i o (.terminate delay) := by
    intro hs
    refine ⟨_, _, _, _, _, ?_, .terminateIdle hs, .keep⟩
    rcases hs with hs | hs | hs <;> simp only [call, terminate, Ctx.update, hs] <;> rfl
  have hrequest : p.state = .active ∨ p.state = .delimiterReceived →
      Goes p h i o (.terminate delay) := by
    intro hs
    have ho : p.outpipe ≠ none := by
      intro ho
      rcases hp.writable ho with e | e <;> simp [e] at hs
    obtain ⟨a, q, hoa, hq, rfl⟩ := hp.write_get ho
    obtain ⟨q', he, hv⟩ := stopOutbound_spec
      (x := ⟨{ p with delay := delay, state := .termReqSent1 }, h, [.pipeTerm], []⟩)
      (by simp) hoa hq hp.unfinished
    refine ⟨_, _, _, _, _, ?_, .terminateRequest hs ho, .outbound hv⟩
    have hc : terminate (ctx p h) delay = stopOutbound
        ⟨{ p with delay := delay, state := .termReqSent1 }, h, [.pipeTerm], []⟩ := by
      rcases hs with hs | hs <;> simp only [terminate, Ctx.update, hs] <;> rfl
    simp only [call, hc, he, ok_bind]
    rfl
  cases hs : p.state with
  | active => exact hrequest (.inl hs)
  | delimiterReceived => exact hrequest (.inr hs)
  | termAckSent => exact hidle (.inr (.inr hs))
  | termReqSent1 => exact hidle (.inl hs)
  | termReqSent2 => exact hidle (.inr (.inl hs))
  | waitingForDelimiter =>
    cases delay with
    | false =>
      refine ⟨_, _, _, _, _, ?_, .terminateAck hs, .keep⟩
      simp only [call, terminate, Ctx.update, hs]
      rfl
    | true =>
      have ho : p.outpipe ≠ none := by
        intro ho
        rcases hp.writable ho with e | e <;> simp [e] at hs
      obtain ⟨a, q, hoa, hq, rfl⟩ := hp.write_get ho
      obtain ⟨q', he, hv⟩ := stopOutbound_spec (x := ctx { p with delay := true } h)
        (by simp [hs]) hoa hq hp.unfinished
      refine ⟨_, _, _, _, _, ?_, .terminateWait hs ho, .outbound hv⟩
      have hc : terminate (ctx p h) true =
          stopOutbound (ctx { p with delay := true } h) := by
        simp only [terminate, Ctx.update, hs]
        rfl
      simp only [call, hc, he, ok_bind]
      rfl

theorem hiccup_goes (p : PipeT) (h : Heap) (i o : Staged Msg) : Goes p h i o .hiccup := by
  by_cases hs : p.state = .active
  · refine ⟨_, _, _, _, _, ?_, .hiccup hs, .fresh⟩
    simp only [call]
    unfold hiccup
    rw [if_neg (not_not_intro hs)]
    rfl
  · refine ⟨_, _, _, _, _, ?_, .hiccupIdle hs, .keep⟩
    simp only [call, hiccup, ne_eq, hs, not_false_eq_true, if_true]
    rfl

theorem call_goes (hp : Sound p h i o) {op : Op} (hop : op ≠ .deliver) : Goes p h i o op := by
  cases op with
  | checkRead => exact checkRead_goes hp
  | read => exact read_goes hp
  | checkWrite => exact ⟨_, _, _, _, _, rfl, .checkWrite, .keep⟩
  | write m => exact write_goes hp m
  | rollback => exact rollback_goes hp
  | flush => exact flush_goes hp
  | hiccup => exact hiccup_goes p h i o
  | setNodelay => exact ⟨_, _, _, _, _, rfl, .setNodelay, .keep⟩
  | terminate delay => exact terminate_goes hp delay
  | setHwms inhwm outhwm => exact ⟨_, _, _, _, _, rfl, .setHwms, .keep⟩
  | deliver => exact absurd rfl hop

def Acceptable (p : PipeT) : Cmd → Prop
  | .activateRead | .activateWrite _ => True
  | .hiccup _ => p.outpipe ≠ none
  | .pipeTerm => p.state = .active ∨ p.state = .delimiterReceived ∨ p.state = .termReqSent1
  | .pipeTermAck => p.state = .termReqSent1 ∨ p.state = .termAckSent ∨ p.state = .termReqSent2

def Handles (p : PipeT) (h : Heap) (o : Staged Msg) (cmd : Cmd) : Prop :=
  ∃ alive p' h' sent evs c, process (ctx p h) cmd = .ok (alive, ⟨p', h', sent, evs⟩) ∧
    Handled p o cmd (if alive then some p' else none) c sent ∧ Applied p h c h'

variable {cmd : Cmd}

theorem activateRead_handles (hs : p.sink = true) (h : Heap) (o : Staged Msg) : Handles p h o .activateRead := by
  by_cases ha : (!p.inActive && p.readable) = true
  · refine ⟨true, { p with inActive := p.inActive || p.readable }, h, [], [.readActivated], .keep, ?_, .activateRead, .keep⟩
    have hr : (p.inActive || p.readable) = true := by
      simp only [and_eq_true] at ha
      simp [ha.2]
    simp only [process, processActivateRead, ha, if_true, Ctx.notify, Ctx.update, hs, hr]
    rfl
  · refine ⟨true, { p with inActive := p.inActive || p.readable }, h, [], [], .keep, ?_, .activateRead, .keep⟩
    have hr : (p.inActive || p.readable) = p.inActive := by
      cases hi : p.inActive <;> simp_all
    simp only [process, processActivateRead, ha, hr]
    rfl

theorem activateWrite_handles (hs : p.sink = true) (h : Heap) (o : Staged Msg) (n : UInt64) :
    Handles p h o (.activateWrite n) := by
  by_cases ha : (!p.outActive && p.state == .active) = true
  · refine ⟨true, { p with peersMsgsRead := n, outActive := p.outActive || p.state == .active }, h,
      [], [.writeActivated], .keep, ?_, .activateWrite, .keep⟩
    have hr : (p.outActive || p.state == .active) = true := by
      simp only [and_eq_true] at ha
      simp [ha.2]
    simp only [process, processActivateWrite, Ctx.update, ha, if_true, Ctx.notify, hs, hr]
    rfl
  · refine ⟨true, { p with peersMsgsRead := n, outActive := p.outActive || p.state == .active }, h,
      [], [], .keep, ?_, .activateWrite, .keep⟩
    have hr : (p.outActive || p.state == .active) = p.outActive := by
      cases hi : p.outActive <;> simp_all
    simp only [process, processActivateWrite, Ctx.update, ha, hr]
    rfl

theorem hiccup_handles (hp : Sound p h i o) (hs : p.sink = true) (ho : p.outpipe ≠ none) (a : ℕ) : Handles p h o (.hiccup a) := by
  obtain ⟨b, q, hob, hq, rfl⟩ := hp.write_get ho
  have hg : (ctx p h).outpipe = .ok q := get_eq hob hq
  obtain ⟨q', he, hv⟩ := q.flush_cases
  have hd := Upipe.drain_spec q'.size q' p.msgsWritten q'.ready_le_size
  rw [hv, Staged.flush_ready] at hd
  refine ⟨true, _, _, [], if p.state = .active then [.hiccuped] else [], _, ?_, .hiccup ho, .adopt⟩
  simp only [process, processHiccup, ho, if_false, hg, ok_bind, he, hd]
  by_cases ha : p.state = .active
  · simp only [Ctx.update, ha, if_true, Ctx.notify, hs]
    rfl
  · simp only [Ctx.update, ha, if_false]
    rfl

theorem pipeTerm_handles (h : Heap) (o : Staged Msg)
    (hs : p.state = .active ∨ p.state = .delimiterReceived ∨ p.state = .termReqSent1) : Handles p h o .pipeTerm := by
  rcases hs with hs | hs | hs
  · cases hd : p.delay with
    | true =>
      refine ⟨true, _, _, _, [], _, ?_, .pipeTermWait hs hd, .keep⟩
      simp only [process, processPipeTerm, hs]
      rw [if_pos hd]
      rfl
    | false =>
      refine ⟨true, _, _, _, [], _, ?_, .pipeTermAck (.inl ⟨hs, hd⟩), .keep⟩
      simp only [process, processPipeTerm, hs]
      rw [if_neg (ne_true_of_eq_false hd)]
      rfl
  · refine ⟨true, _, _, _, [], _, ?_, .pipeTermAck (.inr hs), .keep⟩
    simp only [process, processPipeTerm, hs]
    rfl
  · refine ⟨true, _, _, _, [], _, ?_, .pipeTermBoth hs, .keep⟩
    simp only [process, processPipeTerm, hs]
    rfl

theorem pipeTermAck_handles (hp : Sound p h i o) (hk : p.sink = true)
    (hs : p.state = .termReqSent1 ∨ p.state = .termAckSent ∨ p.state = .termReqSent2) : Handles p h o .pipeTermAck := by
  obtain ⟨q, hg, rfl⟩ := hp.read_get
  rcases hs with hs | hs
  · refine ⟨false, { p with outpipe := none, state := .termReqSent1 }, _, _, [.pipeTerminated], _, ?_, .ackReply hs, .release⟩
    have hg' : h.get p.inpipe = .ok q := hg
    simp only [process, processPipeTermAck, hk, if_true, Ctx.notify, ok_bind, hs, pure_bind,
      Ctx.inpipe, acknowledge, Ctx.update, Ctx.send, hg']
    rfl
  · refine ⟨false, p, _, _, [.pipeTerminated], _, ?_, .ackLast hs, .release⟩
    have hg' : h.get p.inpipe = .ok q := hg
    rcases hs with hs | hs <;>
      simp only [process, processPipeTermAck, hk, if_true, Ctx.notify, ok_bind, hs, pure_bind, Ctx.inpipe, hg'] <;>
      rfl

theorem process_handles (hp : Sound p h i o) (hs : p.sink = true) (hc : Acceptable p cmd) : Handles p h o cmd := by
  cases cmd with
  | activateRead => exact activateRead_handles hs h o
  | activateWrite n => exact activateWrite_handles hs h o n
  | hiccup a => exact hiccup_handles hp hs hc a
  | pipeTerm => exact pipeTerm_handles h o hc
  | pipeTermAck => exact pipeTermAck_handles hp hs hc

end Pair

end Zmq
