import LibZmq.Pipe.Refine

/-! One direction of a link while neither end terminates: the writer's and the
reader's counters, the queues between them and the progress reports on their way
back. Every move of the link is one of a few steps of each direction. -/

namespace Zmq

open List

structure Flow where
  written : UInt64
  /-- `peers_msgs_read` of the writer -/
  peersRead : UInt64
  outActive : Bool
  hwm : Int32
  /-- `msgs_read` of the reader -/
  read : UInt64
  inActive : Bool
  lwm : Int32
  chan : List (Staged Msg)
  reports : List UInt64

namespace Flow

open Pair PipeT

def hasRoom (f : Flow) : Bool := !decide (f.hwm > 0 ∧ f.written - f.peersRead ≥ toU64 f.hwm)

def inq (f : Flow) : Staged Msg := f.chan.getLast?.getD Staged.empty

def outq (f : Flow) : Staged Msg := f.chan.head?.getD Staged.empty

def setInq (f : Flow) (q : Staged Msg) : Flow := { f with chan := f.chan.dropLast ++ [q] }

def setOutq (f : Flow) (q : Staged Msg) : Flow := { f with chan := q :: f.chan.tail }

def bump (n : UInt64) (m : Msg) : UInt64 := if counted m then n + 1 else n

def progress (lwm : Int32) (n : UInt64) : List UInt64 :=
  if lwm > 0 ∧ n % toU64 lwm = 0 then [n] else []

inductive Step (s : Side) (next : Option Cmd) (f : Flow) : Event → Flow → Prop
  | write {m} (ho : f.outActive = true) (hr : f.hasRoom = true) :
    Step s next f ⟨s, .write m, .bool true⟩
      { f.setOutq (f.outq.write m m.hasMore) with written := bump f.written m }
  | refuse {op} (hr : f.hasRoom = false) :
    Step s next f ⟨s, op, .bool false⟩ { f with outActive := false }
  | rollback : Step s next f ⟨s, .rollback, .unit⟩ (f.setOutq { f.outq with unfinished := [] })
  | flush : Step s next f ⟨s, .flush, .unit⟩ (f.setOutq f.outq.flush.2)
  | report {v rest} (hn : next = some (.activateWrite v)) (hv : f.reports = v :: rest) :
    Step s next f ⟨s, .deliver, .unit⟩ { f with peersRead := v, reports := rest, outActive := true }
  | setOut {inhwm outhwm hwm} :
    Step s next f ⟨s, .setHwms inhwm outhwm, .unit⟩ { f with hwm := hwm }
  | adopt {a} (hn : next = some (.hiccup a)) :
    Step s next f ⟨s, .deliver, .unit⟩
      { f with
        written := f.written -
          UInt64.ofNat ((f.outq.ready ++ f.outq.complete).countP fun m => !m.hasMore)
        outActive := true
        chan := f.chan.tail }
  | checkEmpty (ha : f.inActive = true) (he : f.inq.ready = []) :
    Step s next f ⟨s.peer, .checkRead, .bool false⟩
      { f.setInq { f.inq with asleep := true } with inActive := false }
  | readEmpty (ha : f.inActive = true) (he : f.inq.ready.dropWhile Msg.isCredential = []) :
    Step s next f ⟨s.peer, .read, .msg none⟩
      { f.setInq { f.inq with ready := [], asleep := true } with inActive := false }
  | read {m rest} (ha : f.inActive = true) (he : f.inq.ready.dropWhile Msg.isCredential = m :: rest) :
    Step s next f ⟨s.peer, .read, .msg (some m)⟩
      { f.setInq { f.inq with ready := rest } with
        read := bump f.read m
        reports := f.reports ++ progress f.lwm (bump f.read m) }
  | setIn {inhwm outhwm lwm} :
    Step s next f ⟨s.peer, .setHwms inhwm outhwm, .unit⟩ { f with lwm := lwm }
  | hiccup :
    Step s next f ⟨s.peer, .hiccup, .unit⟩
      { f with inActive := true, chan := f.chan ++ [Staged.empty] }
  | wake : Step s next f ⟨s.peer, .deliver, .unit⟩ { f with inActive := true }
  | idle {e} (hw : ∀ m, e ≠ ⟨s, .write m, .bool true⟩)
    (hr : ∀ m, e ≠ ⟨s.peer, .read, .msg (some m)⟩) : Step s next f e f

end Flow

namespace Link

open Pair PipeT Zmq.Flow

/-- The progress reports among the commands. -/
def reportsOf (cmds : List Cmd) : List UInt64 :=
  cmds.filterMap fun
    | .activateWrite n => some n
    | _ => none

/-- The direction from a writer to a reader, with the commands sent to the writer. -/
def flowOf (p p' : PipeT) (inbox : List Cmd) (chan : List (Staged Msg)) : Flow where
  written := p.msgsWritten
  peersRead := p.peersMsgsRead
  outActive := p.outActive
  hwm := p.hwm
  read := p'.msgsRead
  inActive := p'.inActive
  lwm := p'.lwm
  chan := chan
  reports := reportsOf inbox

/-- The direction that end `s` writes to, while both ends live. -/
def flow (l : Link) (s : Side) : Option Flow :=
  match l.ends s, l.ends s.peer with
  | some p, some p' => some (flowOf p p' (l.inbox s) (l.chan s))
  | _, _ => none

def Running (l : Link) : Prop := ∀ s, ∃ p, l.ends s = some p ∧ p.state = .active

variable {l l' : Link} {s : Side}

theorem reportsOf_append (cmds cmds' : List Cmd) :
    reportsOf (cmds ++ cmds') = reportsOf cmds ++ reportsOf cmds' := filterMap_append

theorem running_inbox (H : Handshake l) (R : Running l) (s : Side) : Cmd.pipeTerm ∉ l.inbox s ∧ Cmd.pipeTermAck ∉ l.inbox s := by
  obtain ⟨p, hp, hs⟩ := R s
  obtain ⟨p', hp', hs'⟩ := R s.peer
  have h := H.hears s
  rw [hp, hp'] at h
  simp only [Hears, hs', told] at h
  exact (Phase.walk_opened h).2

theorem running_frames (H : Handshake l) (R : Running l) (s : Side) : ∀ m ∈ frames (l.chan s), m.isDelimiter = false := by
  intro m hm
  by_contra hd
  obtain ⟨p, hp, hs⟩ := R s.peer
  obtain ⟨p1, hp1, hs1⟩ := H.delimiter s.peer p hp hs
    (by rw [Side.peer_peer]; exact ⟨m, hm, by simpa using hd⟩)
  rw [Side.peer_peer] at hp1
  obtain ⟨p2, hp2, hs2⟩ := R s
  cases hp1.symm.trans hp2
  rw [hs1] at hs2
  cases hs2

variable {p p' pe : PipeT} {i o : Staged Msg} {nx : ℕ} {op : Op} {r : Res} {c : Change} {f : Flow} {cmd : Cmd}
  {sent : List Cmd} {inbox : List Cmd} {next : Option Cmd} {chan : Side → List (Staged Msg)}

theorem reportsOf_wake (q : Staged Msg) : reportsOf (wake q) = [] := by
  unfold wake
  cases q.flush.1 <;> rfl

theorem reportsOf_report (p : PipeT) (n : UInt64) : reportsOf (report p n) = progress p.lwm n := by
  unfold report progress
  split_ifs <;> rfl

theorem effect_running (he : Effect p i o nx op r p' c sent) (hs : p.state = .active)
    (ht : ∀ d, op ≠ .terminate d) (hd : ∀ m ∈ i.items, m.isDelimiter = false) : p'.state = .active := by
  have hmem : ∀ m, m ∈ i.ready → m ∈ i.items := fun m hm =>
    mem_append_left _ (mem_append_left _ hm)
  cases he with
  | checkReadDelimiter _ hr hm =>
    rw [hd _ (hmem _ (hr ▸ mem_cons_self))] at hm
    cases hm
  | readDelimiter _ hr hm =>
    rw [hd _ (hmem _ ((dropWhile_suffix _).mem (hr ▸ mem_cons_self)))] at hm
    cases hm
  | checkWrite | writeRefused => simpa using hs
  | terminateIdle | terminateRequest | terminateAck | terminateWait => exact absurd rfl (ht _)
  | _ => exact hs

theorem delimited_stops (h : Delimited p p' sent) (hs : p'.state = .active) : False := by
  cases h <;> cases hs

theorem hasRoom_eq (hf : f = flowOf p pe inbox (chan s)) : f.hasRoom = p.checkHwm := by
  rw [hf]
  rfl

theorem effect_writes (hf : f = flowOf p pe inbox (chan s)) (ho : f.outq = o)
    (hs : p.state = .active) (hs' : p'.state = .active) (he : Effect p i o nx op r p' c sent) :
    f.Step s next ⟨s, op, r⟩ (flowOf p' pe inbox (shift s chan c s)) := by
  have hidle : (∀ m, op = .write m → r ≠ .bool true) → shift s chan c s = chan s →
      p'.msgsWritten = p.msgsWritten → p'.peersMsgsRead = p.peersMsgsRead →
      p'.outActive = p.outActive → p'.hwm = p.hwm →
      f.Step s next ⟨s, op, r⟩ (flowOf p' pe inbox (shift s chan c s)) := by
    intro hw hc h1 h2 h3 h4
    have hff : flowOf p' pe inbox (shift s chan c s) = f := by
      rw [hf, hc]
      simp only [flowOf, h1, h2, h3, h4]
    rw [hff]
    refine .idle ?_ (by simp)
    intro m hm
    injection hm with _ hop hr
    exact hw m hop hr
  have hfull : r = .bool false → p.checkHwm = false → c = .keep → p' = { p with outActive := false } →
      f.Step s next ⟨s, op, r⟩ (flowOf p' pe inbox (shift s chan c s)) := by
    rintro rfl hh rfl rfl
    have hx : flowOf { p with outActive := false } pe inbox (shift s chan .keep s) =
        { f with outActive := false } := by rw [hf]; rfl
    rw [hx]
    exact .refuse (by rw [hasRoom_eq hf, hh])
  cases he with
  | checkReadIdle | checkReadTrue | readIdle | readMessage | rollbackIdle | flushIdle | hiccupIdle
  | setNodelay | terminateIdle | checkReadEmpty | readEmpty | hiccup =>
    exact hidle (by simp) (by simp [shift]) rfl rfl rfl rfl
  | checkReadDelimiter _ _ _ hd | readDelimiter _ _ _ hd => exact (delimited_stops hd hs').elim
  | checkWrite =>
    cases hh : p.checkHwm with
    | true => exact hidle (by simp) rfl (by simp) (by simp) (by simp [hh]) (by simp)
    | false => exact hfull (by simp [hh]) hh rfl (by simp [hs, hh])
  | writeRefused hw =>
    cases hh : p.checkHwm with
    | true => exact hidle (by simp) rfl (by simp) (by simp) (by simp [hh]) (by simp)
    | false => exact hfull rfl hh rfl (by simp [hs, hh])
  | @writeDone m hw _ =>
    have h1 : p.checkWrite.1 = true := by rw [hw]
    simp only [checkWrite_fst, Bool.and_eq_true] at h1
    have hx : flowOf { p with msgsWritten := if counted m then p.msgsWritten + 1 else p.msgsWritten }
        pe inbox (shift s chan (.outbound (o.write m m.hasMore)) s) =
        { f.setOutq (f.outq.write m m.hasMore) with written := bump f.written m } := by
      rw [ho, hf]
      simp [flowOf, shift, setOutq, bump]
    rw [hx]
    exact .write (by rw [hf]; exact h1.1.1) (by rw [hasRoom_eq hf, h1.2])
  | rollback =>
    have hx : flowOf p pe inbox (shift s chan (.outbound { o with unfinished := [] }) s) =
        f.setOutq { f.outq with unfinished := [] } := by
      rw [ho, hf]
      simp [flowOf, shift, setOutq]
    rw [hx]
    exact .rollback
  | flush =>
    have hx : flowOf p pe inbox (shift s chan (.outbound o.flush.2) s) =
        f.setOutq f.outq.flush.2 := by
      rw [ho, hf]
      simp [flowOf, shift, setOutq]
    rw [hx]
    exact .flush
  | @setHwms inhwm outhwm =>
    have hx : flowOf (p.setHwms inhwm outhwm) pe inbox (shift s chan .keep s) =
        { f with hwm := (p.setHwms inhwm outhwm).hwm } := by
      rw [hf]
      rfl
    rw [hx]
    exact .setOut
  | terminateRequest | terminateAck => cases hs'
  | terminateWait hw =>
    rw [hs] at hw
    cases hw

theorem inActive_of (h : (p.inActive && p.readable) = true) : p.inActive = true := by
  simp only [Bool.and_eq_true] at h
  exact h.1

theorem effect_reads {t : Side} (hf : f = flowOf pe p inbox (chan t)) (hi : f.inq = i)
    (hs : p.state = .active) (hs' : p'.state = .active) (he : Effect p i o nx op r p' c sent) :
    f.Step t next ⟨t.peer, op, r⟩ (flowOf pe p' (inbox ++ sent) (shift t.peer chan c t)) := by
  have hpp : t.peer.peer = t := t.peer_peer
  have hidle : (∀ m, r ≠ .msg (some m)) → shift t.peer chan c t = chan t →
      reportsOf sent = [] → p'.msgsRead = p.msgsRead → p'.inActive = p.inActive →
      p'.lwm = p.lwm →
      f.Step t next ⟨t.peer, op, r⟩ (flowOf pe p' (inbox ++ sent) (shift t.peer chan c t)) := by
    intro hr hc hn h1 h2 h3
    have hff : flowOf pe p' (inbox ++ sent) (shift t.peer chan c t) = f := by
      rw [hf, hc]
      simp only [flowOf, reportsOf_append, hn, append_nil, h1, h2, h3]
    rw [hff]
    refine .idle (by simp) ?_
    intro m hm
    injection hm with _ _ hr'
    exact hr m hr'
  have hset : ∀ q, shift t.peer chan (.inbound q) t = (chan t).dropLast ++ [q] := by
    intro q
    simp [shift, hpp]
  cases he with
  | checkReadIdle | readIdle | rollbackIdle | flushIdle | hiccupIdle | setNodelay | terminateIdle =>
    exact hidle (by simp) rfl rfl rfl rfl rfl
  | checkWrite | writeRefused => exact hidle (by simp) rfl rfl (by simp) (by simp) (by simp)
  | writeDone | rollback => exact hidle (by simp) (by simp [shift]) rfl rfl rfl rfl
  | flush => exact hidle (by simp) (by simp [shift]) (reportsOf_wake o) rfl rfl rfl
  | checkReadDelimiter _ _ _ hd | readDelimiter _ _ _ hd => exact (delimited_stops hd hs').elim
  | checkReadTrue _ he hm =>
    refine hidle (by simp) ?_ rfl rfl rfl rfl
    rw [hset]
    cases hl : (chan t).getLast? with
    | none =>
      rw [← hi, hf, Flow.inq, flowOf, hl] at he
      cases he
    | some q =>
      have hq : i = q := by rw [← hi, hf, Flow.inq, flowOf, hl, Option.getD_some]
      rw [hq]
      exact dropLast_append_getLast? q hl
  | checkReadEmpty hp he =>
    have hx : flowOf pe { p with inActive := false } (inbox ++ [])
        (shift t.peer chan (.inbound { i with asleep := true }) t) =
        { f.setInq { f.inq with asleep := true } with inActive := false } := by
      rw [hset, hi, hf, append_nil]
      rfl
    rw [hx]
    exact .checkEmpty (by rw [hf]; exact inActive_of hp) (hi ▸ he)
  | @readEmpty cr hp he =>
    have hx : flowOf pe { p with inActive := false, credential := cr } (inbox ++ [])
        (shift t.peer chan (.inbound { i with ready := [], asleep := true }) t) =
        { f.setInq { f.inq with ready := [], asleep := true } with inActive := false } := by
      rw [hset, hi, hf, append_nil]
      rfl
    rw [hx]
    exact .readEmpty (by rw [hf]; exact inActive_of hp) (hi ▸ he)
  | @readMessage m rest cr hp he hm =>
    have hx : flowOf pe { p with credential := cr, msgsRead := readCount p m }
        (inbox ++ report p (readCount p m))
        (shift t.peer chan (.inbound { i with ready := rest }) t) =
        { f.setInq { f.inq with ready := rest } with
          read := bump f.read m
          reports := f.reports ++ progress f.lwm (bump f.read m) } := by
      rw [hset, hi, hf]
      simp only [flowOf, reportsOf_append, reportsOf_report]
      rfl
    rw [hx]
    exact .read (by rw [hf]; exact inActive_of hp) (hi ▸ he)
  | hiccup =>
    have hx : flowOf pe { p with inpipe := some nx, inActive := true } (inbox ++ [.hiccup nx])
        (shift t.peer chan .fresh t) =
        { f with inActive := true, chan := f.chan ++ [Staged.empty] } := by
      rw [hf]
      simp [flowOf, shift, hpp, reportsOf]
    rw [hx]
    exact .hiccup
  | @setHwms inhwm outhwm =>
    have hx : flowOf pe (p.setHwms inhwm outhwm) (inbox ++ []) (shift t.peer chan .keep t) =
        { f with lwm := (p.setHwms inhwm outhwm).lwm } := by
      rw [hf, append_nil]
      rfl
    rw [hx]
    exact .setIn
  | terminateRequest | terminateAck => cases hs'
  | terminateWait hw =>
    rw [hs] at hw
    cases hw

theorem handled_writes {rest : List Cmd} (hf : f = flowOf p pe (cmd :: rest) (chan s)) (ho : f.outq = o)
    (hs : p.state = .active) (ht : cmd ≠ .pipeTerm) (ha : cmd ≠ .pipeTermAck)
    (hh : Handled p o cmd (some p') c sent) :
    f.Step s (some cmd) ⟨s, .deliver, .unit⟩ (flowOf p' pe rest (shift s chan c s)) := by
  cases hh with
  | activateRead =>
    have hx : flowOf { p with inActive := p.inActive || p.readable } pe rest (shift s chan .keep s) =
        f := by
      rw [hf]
      rfl
    rw [hx]
    exact .idle (by simp) (by simp)
  | @activateWrite n =>
    have hx : flowOf { p with peersMsgsRead := n, outActive := p.outActive || p.state == .active } pe
        rest (shift s chan .keep s) =
        { f with peersRead := n, reports := reportsOf rest, outActive := true } := by
      rw [hf]
      simp [flowOf, shift, hs]
    rw [hx]
    exact .report rfl (by rw [hf]; rfl)
  | @hiccup a =>
    have hx : flowOf { p with
          outpipe := some a
          outActive := true
          msgsWritten := p.msgsWritten -
            UInt64.ofNat ((o.ready ++ o.complete).countP fun m => !m.hasMore) } pe rest
        (shift s chan .adopt s) =
        { f with
          written := f.written -
            UInt64.ofNat ((f.outq.ready ++ f.outq.complete).countP fun m => !m.hasMore)
          outActive := true
          chan := f.chan.tail } := by
      rw [ho, hf]
      simp [flowOf, shift, reportsOf]
    rw [hx]
    exact .adopt rfl
  | pipeTermWait | pipeTermAck | pipeTermBoth => exact absurd rfl ht

theorem handled_reads {t : Side} (hf : f = flowOf pe p inbox (chan t))
    (hs : p.state = .active) (ht : cmd ≠ .pipeTerm) (ha : cmd ≠ .pipeTermAck) (hh : Handled p o cmd (some p') c sent) :
    f.Step t next ⟨t.peer, .deliver, .unit⟩ (flowOf pe p' (inbox ++ sent) (shift t.peer chan c t)) := by
  have hidle : flowOf pe p' (inbox ++ sent) (shift t.peer chan c t) = f → f.Step t next ⟨t.peer, .deliver, .unit⟩
        (flowOf pe p' (inbox ++ sent) (shift t.peer chan c t)) := by
    intro hx
    rw [hx]
    exact .idle (by simp) (by simp)
  cases hh with
  | activateRead =>
    have hx : flowOf pe { p with inActive := p.inActive || p.readable } (inbox ++ [])
        (shift t.peer chan .keep t) = { f with inActive := true } := by
      rw [hf]
      simp [flowOf, shift, PipeT.readable, hs]
    rw [hx]
    exact .wake
  | activateWrite =>
    apply hidle
    rw [hf, append_nil]
    rfl
  | hiccup =>
    apply hidle
    rw [hf]
    simp [flowOf, shift]
  | pipeTermWait | pipeTermAck | pipeTermBoth => exact absurd rfl ht

theorem flow_eq {p p' : PipeT} (hp : l.ends s = some p) (hp' : l.ends s.peer = some p') :
    l.flow s = some (flowOf p p' (l.inbox s) (l.chan s)) := by
  simp only [flow, hp, hp']

theorem flow_inv (h : l.flow s = some f) : ∃ p p', l.ends s = some p ∧
    l.ends s.peer = some p' ∧ f = flowOf p p' (l.inbox s) (l.chan s) := by
  unfold flow at h
  split at h
  · exact ⟨_, _, by assumption, by assumption, (Option.some.inj h).symm⟩
  · cases h

theorem flow_chan (h : l.flow s = some f) : f.chan = l.chan s := by
  obtain ⟨p, p', -, -, rfl⟩ := flow_inv h
  rfl

theorem move_flow {e : Event} (H : Handshake l) (R : Running l) (h : Move l e l') (ht : ∀ d, e.op ≠ .terminate d) :
    Running l' ∧ ∀ t, ∃ f f', l.flow t = some f ∧ l'.flow t = some f' ∧ f.Step t (l.inbox t).head? e f' := by
  have hboth : ∀ s (p p1 p' : PipeT), l.ends s = some p → l.ends s.peer = some p1 →
      l'.ends s = some p' → l'.ends s.peer = some p1 → p'.state = .active → p1.state = .active →
      (flowOf p p1 (l.inbox s) (l.chan s)).Step s (l.inbox s).head? e (flowOf p' p1 (l'.inbox s) (l'.chan s)) →
      (flowOf p1 p (l.inbox s.peer) (l.chan s.peer)).Step s.peer (l.inbox s.peer).head? e
        (flowOf p1 p' (l'.inbox s.peer) (l'.chan s.peer)) →
      Running l' ∧ ∀ t, ∃ f f', l.flow t = some f ∧ l'.flow t = some f' ∧
      f.Step t (l.inbox t).head? e f' := by
    intro s p p1 p' hp hp1 hp' hp1' hs' hs1 h1 h2
    constructor
    · intro t
      rcases s.eq_or_eq_peer t with rfl | rfl
      · exact ⟨p', hp', hs'⟩
      · exact ⟨p1, hp1', hs1⟩
    · intro t
      rcases s.eq_or_eq_peer t with rfl | rfl
      · exact ⟨_, _, flow_eq hp hp1, flow_eq hp' hp1', h1⟩
      · exact ⟨_, _, flow_eq hp1 (by rw [Side.peer_peer, hp]), flow_eq hp1' (by rw [Side.peer_peer, hp']), h2⟩
  cases h with
  | @call s op r p _ p' c sent hp _ he =>
    obtain ⟨p0, hp0, hs⟩ := R s
    cases hp.symm.trans hp0
    obtain ⟨p1, hp1, hs1⟩ := R s.peer
    have hs' : p'.state = .active := effect_running he hs ht fun m hm =>
      running_frames H R s.peer m (inq_mem hm)
    have h1 : (flowOf p p1 (l.inbox s) (l.chan s)).Step s (l.inbox s).head? ⟨s, op, r⟩ _ :=
      effect_writes rfl rfl hs hs' he
    have h2 : (flowOf p1 p (l.inbox s.peer) (l.chan s.peer)).Step s.peer (l.inbox s.peer).head?
        ⟨s.peer.peer, op, r⟩ _ :=
      effect_reads (rfl : _ = flowOf p1 p (l.inbox s.peer) (l.chan s.peer)) rfl hs hs' he
    refine hboth s p p1 p' hp hp1 (after_ends ..) (by simpa using hp1) hs' hs1 ?_ ?_
    · simpa [after] using h1
    · simpa [after] using h2
  | @deliver s p cmd rest pe c sent hp hc hh =>
    obtain ⟨p0, hp0, hs⟩ := R s
    cases hp.symm.trans hp0
    obtain ⟨p1, hp1, hs1⟩ := R s.peer
    have hin := running_inbox H R s
    rw [hc] at hin
    simp only [mem_cons, not_or] at hin
    obtain ⟨p', rfl, hst⟩ := handled_state hh (Ne.symm hin.1.1) (Ne.symm hin.2.1)
    have h1 : (flowOf p p1 (cmd :: rest) (l.chan s)).Step s (some cmd) ⟨s, .deliver, .unit⟩ _ :=
      handled_writes (rfl : _ = flowOf p p1 (cmd :: rest) (l.chan s)) rfl hs (Ne.symm hin.1.1)
        (Ne.symm hin.2.1) hh
    have h2 : (flowOf p1 p (l.inbox s.peer) (l.chan s.peer)).Step s.peer (l.inbox s.peer).head?
        ⟨s.peer.peer, .deliver, .unit⟩ _ :=
      handled_reads (rfl : _ = flowOf p1 p (l.inbox s.peer) (l.chan s.peer)) hs (Ne.symm hin.1.1)
        (Ne.symm hin.2.1) hh
    refine hboth s p p1 p' hp hp1 (after_ends ..) (by simpa using hp1) (hst.trans hs) hs1 ?_ ?_
    · simpa [after, hc] using h1
    · simpa [after] using h2

end Link

namespace Pair

open Link

theorem attached_running {w : Pair} (h : Attached w) : Running w.link := by
  obtain ⟨hwms, inboost, outboost, rfl⟩ := h
  intro s
  cases s <;> exact ⟨_, rfl, rfl⟩

theorem run_flows {init : Pair → Prop} {guard : Pair → Event → Prop}
    {I : List Event → Side → Flow → Prop} {evs : List Event} {w : Pair}
    (h : Run init (Guarded guard Step) evs w) (hinit : ∀ w, init w → Attached w)
    (hguard : ∀ w e, guard w e → ∀ d, e.op ≠ .terminate d) (h0 : ∀ w s f, init w → w.link.flow s = some f → I [] s f)
    (hstep : ∀ evs (w : Pair) e (w' : Pair) s f f', Safe w → guard w e → Move w.link e w'.link →
      w.link.flow s = some f → w'.link.flow s = some f' → f.Step s (w.inbox s).head? e f' → I evs s f → I (evs ++ [e]) s f') :
    Safe w ∧ Running w.link ∧ ∀ s, ∃ f, w.link.flow s = some f ∧ I evs s f := by
  refine h.history (fun evs w => Safe w ∧ Running w.link ∧ ∀ s, ∃ f, w.link.flow s = some f ∧ I evs s f) ?_ ?_
  · intro w hw
    have R := attached_running (hinit w hw)
    refine ⟨attached_safe (hinit w hw), R, fun s => ?_⟩
    obtain ⟨p, hp, -⟩ := R s
    obtain ⟨p', hp', -⟩ := R s.peer
    exact ⟨_, flow_eq hp hp', h0 w s _ hw (flow_eq hp hp')⟩
  · rintro evs w e w' ⟨S, R, hI⟩ ⟨hg, hs⟩
    obtain ⟨hm, S'⟩ := step_move S hs
    obtain ⟨R', hf⟩ := move_flow S.handshake R hm (hguard w e hg)
    refine ⟨S', R', fun s => ?_⟩
    obtain ⟨f, f', h1, h2, h3⟩ := hf s
    obtain ⟨f0, h4, h5⟩ := hI s
    cases h1.symm.trans h4
    exact ⟨f', h2, hstep evs w e w' s f f' S hg hm h1 h2 h3 h5⟩

end Pair

end Zmq
