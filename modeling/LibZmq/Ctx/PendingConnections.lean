import LibZmq.Ctx.Binders
import LibZmq.Ctx.Opening

/-! Connections that are pending in a context until some socket binds their name: what the sockets that connect may do
with them meanwhile, and when `connect_pending` takes them over without an assertion that fails. -/

namespace Zmq

open List PipeEnd

open InprocAbort

namespace PipeEnd

/-- `process_command`. Inproc pipes do not hiccup, and an end without a sink cannot be told that it is over. -/
def process (x : PipeEnd) : Cmd → Except Fault PipeEnd
  | .activateRead => x.processActivateRead
  | .activateWrite msgsRead => x.processActivateWrite msgsRead
  | .pipeTerm => x.processPipeTerm
  | .hiccup _ | .pipeTermAck => .error .assertion

end PipeEnd

/-- `pending_connection_t`; the options are a copy that `connect` has made. -/
structure Pended where
  options : PeerOptions
  /-- the socket has not been closed -/
  isOpen : Bool
  pair : InprocPair

/-- What the thread of the socket that connects does with a pending pipe; `bind_pipe` is on this thread as well. -/
inductive PendedOp where
  | write (m : UserMsg)
  | flush
  | rollback
  | read
  | setHwms (inhwm outhwm : Int32)
  | setNodelay
  | terminate (delay : Bool)
  /-- the next command to `bind_pipe` is handled -/
  | deliver
  | close

namespace Pended

def onConnect (s : Pended) (f : PipeEnd → Except Fault PipeEnd) : Except InprocAbort Pended :=
  (s.pair.onConnect fun x => ofPipe (f x)).map fun p => { s with pair := p }

def run (s : Pended) : PendedOp → Except InprocAbort Pended
  | .write m => s.onConnect fun x => (x.write m.1).map (·.2)
  | .flush => s.onConnect fun x => .ok x.flush
  | .rollback => s.onConnect PipeEnd.rollback
  | .read => s.onConnect fun x => x.read.map (·.2)
  | .setHwms inhwm outhwm => s.onConnect fun x => .ok (x.update (·.setHwms inhwm outhwm))
  | .setNodelay => s.onConnect fun x => .ok (x.update PipeT.setNodelay)
  | .terminate delay => s.onConnect fun x => x.terminate delay
  | .deliver =>
    match s.pair.toBindCmds with
    | [] => .ok s
    | c :: rest =>
      ({ s.pair with toBindCmds := rest }.onBind fun x => ofPipe (x.process c)).map fun p => { s with pair := p }
  | .close => .ok { s with isOpen := false }

/-- `connect_inproc_sockets`, on the side of the socket that binds. -/
def connectTo (s : Pended) (b : BinderT) : Except InprocAbort InprocPair :=
  connectInprocSockets s.options b.options s.isOpen (fun x => ofPipe (b.attachPipe x)) s.pair

end Pended

/-- What happens to the connections that are pending for a name. -/
inductive PendingOp where
  | connect (options : PeerOptions)
  | call (i : ℕ) (op : PendedOp)

namespace Pending

def run (s : List Pended) : PendingOp → Except InprocAbort (List Pended)
  | .connect options => (connectAlone options).map fun p => s ++ [⟨options, true, p⟩]
  | .call i op =>
    match s[i]? with
    | none => .ok s
    | some p => (p.run op).map (s.set i)

def Start (s : List Pended) : Prop := s = []

abbrev Step : List Pended → PendingOp → List Pended → Prop := Does free run

/-- `ctx_t::connect_pending` -/
def connectPending : BinderT → List Pended → Except InprocAbort (List InprocPair)
  | _, [] => .ok []
  | b, s :: rest => do
    let p ← s.connectTo b
    return p :: (← connectPending b.attached rest)

end Pending

/-! ## What a pending pipe carries -/

namespace YPipeBase

def items : YPipeBase → List Msg
  | .normal q => q.items
  | .conflate latest => latest.toList

def Blank : YPipeBase → Prop
  | .normal q => q.items = []
  | .conflate latest => latest = none

structure Carries (conflates closed : Bool) (y : YPipeBase) : Prop where
  kind : y.isConflate = conflates
  plain : ∀ m ∈ y.items, m.isCredential = false
  whole : y.Whole
  /-- only a conflating pipe can have a delimiter in front -/
  front : ∃ m rest, y.readable = m :: rest ∧ m.isDelimiter = (conflates && closed)
  undelimited : closed = false → ∀ m ∈ y.items, m.isDelimiter = false

variable {conflates closed : Bool} {y : YPipeBase}

theorem Carries.write (h : Carries conflates false y) {m : Msg} (hm : m.FromUser) :
    Carries conflates false (y.write m m.hasMore) := by
  have hitems : ∀ r ∈ (y.write m m.hasMore).items, r ∈ y.items ∨ r = m := by
    intro r hr
    cases y with
    | conflate latest => exact .inr (mem_singleton.mp hr)
    | normal q =>
      unfold write items Staged.items Staged.write at hr
      unfold items Staged.items
      split_ifs at hr <;> simp at hr ⊢ <;> tauto
  refine ⟨?_, fun r hr => ?_, h.whole.write m, ?_, fun _ r hr => ?_⟩
  · exact (by cases y <;> rfl : (y.write m m.hasMore).isConflate = y.isConflate).trans h.kind
  · rcases hitems r hr with hr | rfl
    · exact h.plain r hr
    · exact hm.credential
  · obtain ⟨m', rest, hm', hd⟩ := h.front
    cases y with
    | conflate latest => exact ⟨m, [], rfl, by rw [hm.delimiter, Bool.and_false]⟩
    | normal q =>
      refine ⟨m', rest, ?_, hd⟩
      rw [← hm']
      unfold write Staged.write
      split_ifs <;> rfl
  · rcases hitems r hr with hr | rfl
    · exact h.undelimited rfl r hr
    · exact hm.delimiter

theorem Carries.flush (h : Carries conflates closed y) : Carries conflates closed y.flush.2 := by
  cases y with
  | conflate latest => exact h
  | normal q =>
    have hitems : (YPipeBase.normal q).flush.2.items = q.items := by
      unfold YPipeBase.flush items Staged.flush Staged.publish Staged.items
      dsimp only
      split_ifs <;> simp
    obtain ⟨m, rest, hm, hd⟩ := h.front
    refine ⟨h.kind, fun r hr => h.plain r ?_, h.whole.flush, ⟨m, rest ++ q.complete, ?_, hd⟩,
      fun hc r hr => h.undelimited hc r ?_⟩
    · rwa [hitems] at hr
    · rw [flush_normal]
      exact congrArg (· ++ q.complete) hm
    · rwa [hitems] at hr

theorem Carries.unwriteAll (h : Carries conflates closed y) : ∃ y', y.unwriteAll = some y' ∧ Carries conflates closed y' := by
  obtain ⟨y', hy', hwhole⟩ := h.whole.unwriteAll
  refine ⟨y', hy', ?_⟩
  cases y with
  | conflate latest =>
    cases hy'
    exact h
  | normal q =>
    unfold YPipeBase.unwriteAll at hy'
    dsimp only at hy'
    split_ifs at hy'
    cases hy'
    have hitems : ∀ r ∈ items (.normal { q with unfinished := [] }), r ∈ items (.normal q) := by
      intro r hr
      unfold items Staged.items at hr ⊢
      simp at hr ⊢
      tauto
    exact ⟨h.kind, fun r hr => h.plain r (hitems r hr), hwhole, h.front, fun hc r hr => h.undelimited hc r (hitems r hr)⟩

theorem Carries.delimit (h : Carries conflates false y) : Carries conflates true (y.write Msg.initDelimiter false).flush.2 := by
  cases y with
  | conflate latest =>
    have hc : conflates = true := h.kind.symm
    refine ⟨h.kind, fun r hr => ?_, fun q hq => (by cases hq), ⟨Msg.initDelimiter, [], rfl, ?_⟩, nofun⟩
    · rw [mem_singleton.mp hr]
      rfl
    · rw [hc]
      rfl
  | normal q =>
    have hc : conflates = false := h.kind.symm
    obtain ⟨m, rest, hm, hd⟩ := h.front
    refine ⟨h.kind, fun r hr => ?_, (h.whole.write Msg.initDelimiter).flush, ?_, nofun⟩
    · have hmem : r ∈ items (.normal q) ∨ r = Msg.initDelimiter := by
        unfold YPipeBase.write YPipeBase.flush items Staged.flush Staged.publish Staged.write Staged.items at hr
        unfold items Staged.items
        simp at hr ⊢
        tauto
      rcases hmem with hmem | rfl
      · exact h.plain r hmem
      · rfl
    · rw [flush_write_normal, show q.ready = m :: rest from hm, hc]
      rw [hc] at hd
      exact ⟨m, rest ++ (q.complete ++ q.unfinished) ++ [Msg.initDelimiter], rfl, hd⟩

theorem Settled.blank (h : Settled y none) : y.Blank := by
  cases h with
  | normal => rfl
  | conflate => rfl

theorem Settled.carries {m : Msg} (h : Settled y (some m)) (hc : m.isCredential = false) (hd : m.isDelimiter = false) :
    Carries y.isConflate false y := by
  have hfront : m.isDelimiter = (y.isConflate && false) := by rw [hd, Bool.and_false]
  cases h with
  | normal =>
    refine ⟨rfl, fun r hr => mem_singleton.mp hr ▸ hc, fun q hq r hr => ?_, ⟨m, [], rfl, hfront⟩,
      fun _ r hr => mem_singleton.mp hr ▸ hd⟩
    cases hq
    cases hr
  | conflate =>
    exact ⟨rfl, fun r hr => mem_singleton.mp hr ▸ hc, fun q hq r hr => (by cases hq), ⟨m, [], rfl, hfront⟩,
      fun _ r hr => mem_singleton.mp hr ▸ hd⟩

end YPipeBase

namespace Pended

open YPipeBase

def stays (s : Pended) : Bool := s.pair.connectPipe.state == .active

structure Sound (s : Pended) : Prop where
  connectState : s.pair.connectPipe.state = .active ∨ s.pair.connectPipe.state = .termReqSent1
  connectOut : s.pair.connectPipe.outpipe ≠ none
  bindState : s.pair.bindPipe.state = .active ∨ s.pair.bindPipe.state = .waitingForDelimiter
  bindOut : s.pair.bindPipe.outpipe ≠ none
  bindActive : s.pair.bindPipe.inActive = true ∧ s.pair.bindPipe.outActive = true
  unwritten : s.pair.bindPipe.msgsWritten = 0 ∧ s.pair.bindPipe.peersMsgsRead = 0
  delays : s.pair.bindPipe.delay = true
  commands : ∀ c ∈ s.pair.toBindCmds, c = .activateRead ∨ c = .pipeTerm
  /-- the request for termination is on its way or has been handled, once -/
  told : s.pair.toBindCmds.count .pipeTerm + (if s.pair.bindPipe.state = .active then 0 else 1) =
    if s.stays then 0 else 1
  blank : s.pair.toConnect.Blank
  carries : Carries s.options.conflates (!s.stays) s.pair.toBind

theorem Sound.moves {s : Pended} (h : s.Sound) {x : PipeEnd} (hs : x.self.state = s.pair.connectPipe.state)
    (ho : x.self.outpipe = s.pair.connectPipe.outpipe) (hb : x.inpipe.Blank)
    (hc : Carries s.options.conflates (!s.stays) x.outpipe) (hsent : ∀ c ∈ x.sent, c = .activateRead) :
    Sound { s with pair := s.pair.setConnectEnd x } := by
  have hstays : ({ s with pair := s.pair.setConnectEnd x } : Pended).stays = s.stays := by
    exact congrArg (· == PipeState.active) hs
  have hnone : x.sent.count .pipeTerm = 0 := count_eq_zero.mpr fun hmem => by cases hsent _ hmem
  have hcount : (s.pair.toBindCmds ++ x.sent).count .pipeTerm = s.pair.toBindCmds.count .pipeTerm := by
    rw [count_append, hnone, Nat.add_zero]
  refine ⟨?_, ho.trans_ne h.connectOut, h.bindState, h.bindOut, h.bindActive, h.unwritten, h.delays, fun c hmem => ?_, ?_, hb, ?_⟩
  · exact h.connectState.imp hs.trans hs.trans
  · rcases mem_append.mp hmem with hmem | hmem
    · exact h.commands c hmem
    · exact .inl (hsent c hmem)
  · rw [hstays]
    exact (congrArg (· + _) hcount).trans h.told
  · rw [hstays]
    exact hc

variable {s s' : Pended}

theorem onConnect_ok {f : PipeEnd → Except Fault PipeEnd} {x : PipeEnd} (h : f s.pair.connectEnd = .ok x) :
    s.onConnect f = .ok { s with pair := s.pair.setConnectEnd x } := by
  change ((ofPipe (f s.pair.connectEnd)).map s.pair.setConnectEnd).map _ = _
  rw [h]
  rfl

theorem Sound.write (h : s.Sound) (m : UserMsg) : ∃ s', s.run (.write m) = .ok s' ∧ s'.Sound := by
  have hrun : ∀ rc x, s.pair.connectEnd.write m.1 = .ok (rc, x) →
      s.run (.write m) = .ok { s with pair := s.pair.setConnectEnd x } := by
    intro rc x he
    refine onConnect_ok ?_
    rw [he]
    rfl
  cases hc : s.pair.connectPipe.checkWrite.1 with
  | false =>
    refine ⟨_, hrun _ _ (write_refused (x := s.pair.connectEnd) hc m.1), h.moves ?_ ?_ h.blank h.carries ?_⟩
    · change s.pair.connectPipe.checkWrite.2.state = _
      rw [Pair.checkWrite_snd]
    · change s.pair.connectPipe.checkWrite.2.outpipe = _
      rw [Pair.checkWrite_snd]
    · exact fun c hmem => by cases hmem
  | true =>
    have hstays : s.stays = true := by
      rw [Pair.checkWrite_fst] at hc
      simp only [Bool.and_eq_true] at hc
      exact hc.1.2
    refine ⟨_, hrun _ _ (write_done (x := s.pair.connectEnd) hc h.connectOut m.1), h.moves rfl rfl h.blank ?_ ?_⟩
    · have hcarries := h.carries
      rw [hstays] at hcarries ⊢
      exact hcarries.write m.2
    · exact fun c hmem => by cases hmem

theorem Sound.flush (h : s.Sound) : ∃ s', s.run .flush = .ok s' ∧ s'.Sound := by
  refine ⟨_, onConnect_ok rfl, ?_⟩
  rcases flush_cases s.pair.connectEnd with he | ⟨hs, ho⟩
  · rw [he]
    exact h.moves rfl rfl h.blank h.carries fun c hmem => by cases hmem
  · obtain ⟨sent, he, hsent⟩ := flush_eq hs ho
    rw [he]
    exact h.moves rfl rfl h.blank h.carries.flush hsent

theorem Sound.rollback (h : s.Sound) : ∃ s', s.run .rollback = .ok s' ∧ s'.Sound := by
  obtain ⟨y, hy, hcarries⟩ := h.carries.unwriteAll
  have he := rollback_eq (x := s.pair.connectEnd) h.connectOut hy
  exact ⟨_, onConnect_ok he, h.moves rfl rfl h.blank hcarries fun c hmem => by cases hmem⟩

theorem blank_read {y : YPipeBase} (h : y.Blank) : ∃ y', y.read = (none, y') ∧ y'.Blank ∧ y.readable = [] := by
  cases y with
  | normal q =>
    have hready : q.ready = [] := by
      unfold Blank Staged.items at h
      simp at h
      exact h.1
    have hread : q.read = (none, { q with asleep := true }) := Staged.read_nil hready
    refine ⟨.normal { q with asleep := true }, by rw [YPipeBase.read, hread], h, hready⟩
  | conflate latest =>
    obtain rfl : latest = none := h
    exact ⟨_, rfl, rfl, rfl⟩

theorem Sound.read (h : s.Sound) : ∃ s', s.run .read = .ok s' ∧ s'.Sound := by
  obtain ⟨y, hy, hblank, hempty⟩ := blank_read h.blank
  obtain ⟨x, hx, hs, ho, hb, hout, hsent⟩ : ∃ x, s.pair.connectEnd.read = .ok (none, x) ∧
      x.self.state = s.pair.connectPipe.state ∧ x.self.outpipe = s.pair.connectPipe.outpipe ∧ x.inpipe.Blank ∧
      x.outpipe = s.pair.toBind ∧ x.sent = [] := by
    unfold PipeEnd.read YPipeBase.readMessage
    split_ifs
    · exact ⟨_, rfl, rfl, rfl, h.blank, rfl, rfl⟩
    · exact ⟨_, rfl, rfl, rfl, h.blank, rfl, rfl⟩
    · rw [show s.pair.connectEnd.inpipe.read = _ from hy]
      exact ⟨_, rfl, rfl, rfl, hblank, rfl, rfl⟩
  refine ⟨_, onConnect_ok (by rw [hx]; rfl), h.moves hs ho hb ?_ fun c hmem => ?_⟩
  · rw [hout]
    exact h.carries
  · rw [hsent] at hmem
    cases hmem

theorem Sound.updates (h : s.Sound) (f : PipeT → PipeT) (hs : ∀ p, (f p).state = p.state)
    (ho : ∀ p, (f p).outpipe = p.outpipe) : ∃ s', s.onConnect (fun x => .ok (x.update f)) = .ok s' ∧ s'.Sound :=
  ⟨_, onConnect_ok rfl, h.moves (hs _) (ho _) h.blank h.carries fun c hmem => by cases hmem⟩

theorem terminate_active {x : PipeEnd} {y : YPipeBase} (hs : x.self.state = .active) (ho : x.self.outpipe ≠ none)
    (hy : x.outpipe.unwriteAll = some y) (delay : Bool) : ∃ sent, (∀ c ∈ sent, c = .activateRead) ∧
      x.terminate delay = .ok { x with
        self := { x.self with delay := delay, state := .termReqSent1, outActive := false }
        outpipe := (y.write Msg.initDelimiter false).flush.2
        sent := x.sent ++ [.pipeTerm] ++ sent } := by
  have hstop : x.terminate delay = stopOutbound { x with
      self := { x.self with delay := delay, state := .termReqSent1 }
      sent := x.sent ++ [.pipeTerm] } := by
    unfold terminate
    dsimp only
    rw [show (x.update fun p => { p with delay := delay }).self.state = .active from hs]
    rfl
  obtain ⟨sent, hflush, hsent⟩ := flush_eq (x := { x with
    self := { x.self with delay := delay, state := .termReqSent1, outActive := false }
    outpipe := y.write Msg.initDelimiter false
    sent := x.sent ++ [.pipeTerm] }) (by simp) ho
  have hwrites : x.terminate delay = .ok (flush { x with
      self := { x.self with delay := delay, state := .termReqSent1, outActive := false }
      outpipe := y.write Msg.initDelimiter false
      sent := x.sent ++ [.pipeTerm] }) := hstop.trans (stopOutbound_eq ho hy)
  exact ⟨sent, hsent, by rw [hwrites, hflush]⟩

theorem Sound.terminate (h : s.Sound) (delay : Bool) : ∃ s', s.run (.terminate delay) = .ok s' ∧ s'.Sound := by
  rcases h.connectState with hs | hs
  · have hstays : s.stays = true := by
      unfold stays
      rw [hs]
      rfl
    have hcarries := h.carries
    have htold := h.told
    rw [hstays] at hcarries htold
    obtain ⟨y, hy, hcarries⟩ := hcarries.unwriteAll
    obtain ⟨sent, hsent, he⟩ := terminate_active (x := s.pair.connectEnd) hs h.connectOut hy delay
    have hnone : sent.count .pipeTerm = 0 := count_eq_zero.mpr fun hmem => by cases hsent _ hmem
    refine ⟨_, onConnect_ok he, .inr rfl, h.connectOut, h.bindState, h.bindOut, h.bindActive, h.unwritten, h.delays,
      fun c hmem => ?_, ?_, h.blank, hcarries.delimit⟩
    · rcases mem_append.mp hmem with hmem | hmem
      · exact h.commands c hmem
      · rcases mem_cons.mp hmem with rfl | hmem
        · exact .inr rfl
        · exact .inl (hsent c hmem)
    · change count Cmd.pipeTerm (s.pair.toBindCmds ++ ([] ++ [Cmd.pipeTerm] ++ sent)) +
        (if s.pair.bindPipe.state = .active then 0 else 1) = 1
      rw [if_pos rfl] at htold
      simp
      omega
  · refine ⟨_, onConnect_ok (x := s.pair.connectEnd.update fun p => { p with delay := delay }) ?_,
      h.moves rfl rfl h.blank h.carries fun c hmem => by cases hmem⟩
    unfold PipeEnd.terminate
    dsimp only
    rw [show (s.pair.connectEnd.update fun p => { p with delay := delay }).self.state = .termReqSent1 from hs]

theorem Sound.deliver (h : s.Sound) : ∃ s', s.run .deliver = .ok s' ∧ s'.Sound := by
  cases hq : s.pair.toBindCmds with
  | nil => exact ⟨s, by rw [run, hq], h⟩
  | cons c rest =>
    have hrun : ∀ x, s.pair.bindEnd.process c = .ok x → s.run .deliver =
        .ok { s with pair := ({ s.pair with toBindCmds := rest } : InprocPair).setBindEnd x } := by
      intro x hx
      rw [run, hq]
      change ((ofPipe (s.pair.bindEnd.process c)).map _).map _ = _
      rw [hx]
      rfl
    have hrest : ∀ c ∈ rest, c = .activateRead ∨ c = .pipeTerm := fun c hmem =>
      h.commands c (hq ▸ mem_cons_of_mem _ hmem)
    have htold := h.told
    rw [hq] at htold
    rcases h.commands c (hq ▸ mem_cons_self) with rfl | rfl
    · have hx : s.pair.bindEnd.process .activateRead = .ok s.pair.bindEnd :=
        if_neg (by rw [show s.pair.bindEnd.self.inActive = true from h.bindActive.1]; simp)
      refine ⟨_, hrun _ hx, h.connectState, h.connectOut, h.bindState, h.bindOut, h.bindActive, h.unwritten, h.delays, hrest,
        ?_, h.blank, h.carries⟩
      rwa [count_cons_of_ne (by decide)] at htold
    · have hactive : s.pair.bindPipe.state = .active := by
        by_contra hne
        rw [count_cons_self] at htold
        split_ifs at htold
        omega
      have hx : s.pair.bindEnd.process .pipeTerm =
          .ok (s.pair.bindEnd.update fun p => { p with state := .waitingForDelimiter }) := by
        unfold process processPipeTerm
        rw [show s.pair.bindEnd.self.state = .active from hactive]
        exact if_pos h.delays
      refine ⟨_, hrun _ hx, h.connectState, h.connectOut, .inr rfl, h.bindOut, h.bindActive, h.unwritten, h.delays, hrest,
        ?_, h.blank, h.carries⟩
      rw [count_cons_self, if_pos hactive] at htold
      exact htold

theorem Sound.run (h : s.Sound) (op : PendedOp) : ∃ s', s.run op = .ok s' ∧ s'.Sound := by
  cases op with
  | write m => exact h.write m
  | flush => exact h.flush
  | rollback => exact h.rollback
  | read => exact h.read
  | setHwms inhwm outhwm | setNodelay => exact h.updates _ (fun _ => rfl) fun _ => rfl
  | terminate delay => exact h.terminate delay
  | deliver => exact h.deliver
  | close => exact ⟨_, rfl, h.connectState, h.connectOut, h.bindState, h.bindOut, h.bindActive, h.unwritten, h.delays,
      h.commands, h.told, h.blank, h.carries⟩

theorem connected_sound (options : PeerOptions) : ∃ p, connectAlone options = .ok p ∧ Sound ⟨options, true, p⟩ := by
  obtain ⟨p, hp, hopened, -, hb⟩ := InprocPair.connectAlone_spec options
  have hstays : stays ⟨options, true, p⟩ = true := by
    unfold stays
    rw [show (⟨options, true, p⟩ : Pended).pair.connectPipe.state = .active from hopened.connect.state]
    rfl
  have hdelay : p.bindPipe.delay = true := by
    rw [hb]
    unfold InprocPair.lone
    cases options.conflates <;> rfl
  have hnone : p.toBindCmds.count .pipeTerm = 0 :=
    count_eq_zero.mpr fun hmem => by cases hopened.commands _ hmem
  refine ⟨p, hp, .inl hopened.connect.state, hopened.connect.outpipe, .inl hopened.bind.state, hopened.bind.outpipe,
    ⟨hopened.bind.inActive, hopened.bind.outActive⟩, ⟨hopened.bind.unwritten, hopened.bind.unreported⟩, hdelay,
    fun c hmem => .inl (hopened.commands c hmem), ?_, ?_, ?_⟩
  · rw [hstays, hnone, if_pos hopened.bind.state]
    rfl
  · exact hopened.toConnect.blank
  · rw [hstays]
    have hcarries := hopened.toBind.carries options.identityMsg_isCredential options.identityMsg_isDelimiter
    rwa [hopened.toBindKind] at hcarries

end Pended

namespace Pending

variable {s s' : List Pended}

theorem run_sound (h : ∀ p ∈ s, p.Sound) (op : PendingOp) : ∃ s', run s op = .ok s' ∧ ∀ p ∈ s', p.Sound := by
  cases op with
  | connect options =>
    obtain ⟨p, hp, hsound⟩ := Pended.connected_sound options
    refine ⟨s ++ [⟨options, true, p⟩], by rw [run, hp]; rfl, fun q hq => ?_⟩
    rcases mem_append.mp hq with hq | hq
    · exact h q hq
    · exact mem_singleton.mp hq ▸ hsound
  | call i op =>
    cases hi : s[i]? with
    | none => exact ⟨s, by rw [run, hi], h⟩
    | some p =>
      obtain ⟨p', hp', hsound⟩ := (h p (mem_of_getElem? hi)).run op
      refine ⟨s.set i p', by simp only [run, hi, hp']; rfl, fun q hq => ?_⟩
      rcases mem_or_eq_of_mem_set hq with hq | rfl
      · exact h q hq
      · exact hsound

theorem sound {ops : List PendingOp} (h : Run Start Step ops s) : ∀ p ∈ s, p.Sound := by
  refine h.invariant (fun s => ∀ p ∈ s, p.Sound) (fun s hs p hp => ?_) fun s op s' hs hstep => ?_
  · rw [show s = [] from hs] at hp
    cases hp
  · obtain ⟨s'', hrun, hsound⟩ := run_sound hs op
    rw [hstep.2] at hrun
    cases hrun
    exact hsound

end Pending

/-! ## A socket binds -/

def capacity (connecter binder : PeerOptions) : ℕ :=
  if connecter.conflates ∨ connecter.rcvhwm = 0 ∨ binder.sndhwm = 0 then 0
  else Flow.mark (binder.sndhwm + connecter.rcvhwm)

namespace Pended

def offered (s : Pended) (b : BinderT) : List Msg :=
  if b.options.recvIdentity then s.pair.toBind.readable else s.pair.toBind.readable.tail

end Pended

namespace BinderT

structure Answers (b : BinderT) (s : Pended) : Prop where
  untold : s.pair.bindPipe.state = .active
  keeps : ¬b.Rejects
  room : capacity s.options b.options = 0 ∨ b.greeting.length < capacity s.options b.options
  unended : ∀ m ∈ b.takes (s.offered b), m.isDelimiter = false

/-- When a pending connection can be taken over. -/
structure Adopts (b : BinderT) (s : Pended) : Prop where
  /-- a conflating pipe has a delimiter instead of an identity once the socket that connects has disconnected -/
  identity : b.options.recvIdentity = false → s.options.conflates = true → s.stays = true
  answer : s.options.recvIdentity = true → s.isOpen = true → b.Answers s

end BinderT

namespace PipeEnd

variable {x : PipeEnd}

theorem writeIdentity_cases (h : x.Able) (o : PeerOptions) :
    x.Willing 0 ∧ (∃ x', x.writeIdentity o = .ok x') ∨ ¬x.Willing 0 ∧ x.writeIdentity o = .error .unwritten := by
  rw [← checkWrite_iff h]
  unfold writeIdentity
  cases hc : x.self.checkWrite.1 with
  | false =>
    rw [write_refused hc]
    exact .inr ⟨Bool.false_ne_true, rfl⟩
  | true =>
    have hw := (checkWrite_iff h).mp hc
    rw [write_done hc (h.outpipe hw.2.1)]
    exact .inl ⟨rfl, _, rfl⟩

theorem dropIdentity_delimiter (hr : x.Reads) (h : x.Able) {m : Msg} {rest : List Msg} (hm : x.inpipe.readable = m :: rest)
    (hd : m.isDelimiter = true) : x.dropIdentity = .error .unread := by
  obtain ⟨x', hx', -⟩ := read_delimiter hr h hm hd
  unfold dropIdentity
  rw [hx']
  rfl

end PipeEnd

namespace InprocPair

variable {p : InprocPair}

theorem marked_hwm (connecter binder : PeerOptions) (p : InprocPair) :
    Flow.mark (p.marked connecter binder).bindPipe.hwm = capacity connecter binder := by
  have hzero : ∀ k : Int32, 0 ≤ k → (k ≤ 0 ↔ k = 0) :=
    fun k hk => ⟨fun h => Int32.le_antisymm h hk, fun h => h ▸ Int32.le_refl _⟩
  unfold marked capacity
  cases hc : connecter.conflates with
  | true => rfl
  | false =>
    simp only [Bool.false_eq_true, if_false, false_or, boost, setMarks, PipeT.setHwmsBoost, PipeT.setHwms,
      hzero _ connecter.rcvhwm_nonneg, hzero _ binder.sndhwm_nonneg, or_comm (a := binder.sndhwm = 0)]
    split_ifs <;> rfl

theorem marked_bindEnd (connecter binder : PeerOptions) (p : InprocPair) : ∃ hwm lwm inhwmboost outhwmboost,
    (p.marked connecter binder).bindEnd = { p.bindEnd with
      self := { p.bindPipe with hwm := hwm, lwm := lwm, inhwmboost := inhwmboost, outhwmboost := outhwmboost } } := by
  unfold marked
  split_ifs
  · exact ⟨_, _, p.bindPipe.inhwmboost, p.bindPipe.outhwmboost, rfl⟩
  · exact ⟨_, _, _, _, rfl⟩

theorem marked_end (connecter binder : PeerOptions) (hr : p.bindEnd.Reads) (h : p.bindEnd.Able)
    (hout : p.bindPipe.outActive = true) (hw : p.bindPipe.msgsWritten = 0) :
    (p.marked connecter binder).bindEnd.Reads ∧ (p.marked connecter binder).bindEnd.Able ∧
      (p.marked connecter binder).bindEnd.inpipe = p.toBind ∧ ∀ n, (p.marked connecter binder).bindEnd.Willing n ↔
        p.bindPipe.state = .active ∧ (capacity connecter binder = 0 ∨ n < capacity connecter binder) := by
  have hmark : Flow.mark (p.marked connecter binder).bindEnd.self.hwm = _ := marked_hwm connecter binder p
  obtain ⟨hwm, lwm, inboost, outboost, he⟩ := marked_bindEnd connecter binder p
  rw [he] at hmark ⊢
  refine ⟨⟨hr.inActive, hr.state, hr.plain⟩, ⟨h.outpipe, h.unreported, h.whole⟩, rfl, fun n => ?_⟩
  unfold PipeEnd.Willing
  rw [hmark]
  rw [hout, hw]
  simp

end InprocPair

namespace Pended

variable {s : Pended}

theorem Sound.bindEnd (h : s.Sound) : s.pair.bindEnd.Reads ∧ s.pair.bindEnd.Able := by
  refine ⟨⟨h.bindActive.1, h.bindState, fun m hm => h.carries.plain m ?_⟩, fun _ => h.bindOut, h.unwritten.2, ?_⟩
  · change m ∈ s.pair.toBind.readable at hm
    cases hy : s.pair.toBind with
    | normal q =>
      rw [hy] at hm
      exact mem_append_left _ (mem_append_left _ hm)
    | conflate latest =>
      rw [hy] at hm
      exact hm
  · intro q hq m hm
    have hblank := h.blank
    rw [show s.pair.toConnect = .normal q from hq] at hblank
    unfold YPipeBase.Blank Staged.items at hblank
    simp only [append_eq_nil_iff] at hblank
    rw [hblank.2] at hm
    cases hm

theorem Sound.drops (h : s.Sound) (b : BinderT) : (b.options.recvIdentity = false ∧ s.options.conflates = true ∧ s.stays = false ∧
      s.pair.dropIdentity b.options.recvIdentity = .error .unread) ∨
    (b.options.recvIdentity = false → s.options.conflates = true → s.stays = true) ∧
      ∃ p, s.pair.dropIdentity b.options.recvIdentity = .ok p ∧ p.bindEnd.Reads ∧ p.bindEnd.Able ∧
        p.bindPipe.outActive = true ∧ p.bindPipe.msgsWritten = 0 ∧ p.bindPipe.state = s.pair.bindPipe.state ∧
        p.toBind.readable = s.offered b := by
  obtain ⟨hreads, hable⟩ := h.bindEnd
  cases hr : b.options.recvIdentity with
  | true =>
    right
    refine ⟨nofun, s.pair, rfl, hreads, hable, h.bindActive.2, h.unwritten.1, rfl, ?_⟩
    rw [offered, hr, if_pos rfl]
  | false =>
    obtain ⟨m, rest, hm, hd⟩ := h.carries.front
    cases hdm : m.isDelimiter with
    | true =>
      left
      rw [hdm, eq_comm, Bool.and_eq_true, Bool.not_eq_true'] at hd
      refine ⟨rfl, hd.1, hd.2, ?_⟩
      have he := dropIdentity_delimiter hreads hable hm hdm
      change s.pair.onBind dropIdentity = _
      rw [InprocPair.onBind, he]
      rfl
    | false =>
      right
      rw [hdm, eq_comm, Bool.and_eq_false_iff, Bool.not_eq_false'] at hd
      have hc : m.isCredential = false := hreads.plain m (by
        change m ∈ s.pair.toBind.readable
        rw [hm]
        exact mem_cons_self)
      obtain ⟨n, cmds, he⟩ := InprocPair.onBind_dropIdentity h.bindActive.1 hreads.readable hm hc hdm
      have hrest := (YPipeBase.read_spec hm).2
      refine ⟨fun _ hconf => hd.resolve_left (by rw [hconf]; exact Bool.noConfusion), _, he,
        ⟨h.bindActive.1, h.bindState, fun r hmem => hreads.plain r ?_⟩, ⟨hable.outpipe, hable.unreported, hable.whole⟩,
        h.bindActive.2, h.unwritten.1, rfl, ?_⟩
      · change r ∈ s.pair.toBind.read.2.readable at hmem
        change r ∈ s.pair.toBind.readable
        rw [hrest] at hmem
        rw [hm]
        exact mem_cons_of_mem _ hmem
      · rw [offered, hr, hm]
        exact hrest

theorem Sound.adopts (h : s.Sound) (b : BinderT) : b.Adopts s ∧ (∃ p, s.connectTo b = .ok p) ∨
    ¬b.Adopts s ∧ (s.connectTo b = .error .unread ∨ s.connectTo b = .error .unwritten) := by
  rcases h.drops b with ⟨hr, hc, hs, he⟩ | ⟨hid, p, hd, hreads, hable, hout, hw, hstate, hoffered⟩
  · refine .inr ⟨fun ha => ?_, .inl ?_⟩
    · rw [ha.identity hr hc] at hs
      cases hs
    · unfold connectTo connectInprocSockets
      rw [he]
      rfl
  obtain ⟨hreads', hable', hin, hwilling⟩ := InprocPair.marked_end s.options b.options hreads hable hout hw
  obtain ⟨x, hx, hablex, hwx⟩ := b.attachPipe_willing hreads' hable'
  obtain ⟨q, hq⟩ : ∃ q, q = (p.marked s.options b.options).setBindEnd x := ⟨_, rfl⟩
  have hadopt : (p.marked s.options b.options).onBind (fun x => ofPipe (b.attachPipe x)) = .ok q := by
    change (ofPipe (b.attachPipe (p.marked s.options b.options).bindEnd)).map _ = _
    rw [hx, hq]
    rfl
  have hrun : s.connectTo b = q.bindIdentity (s.options.recvIdentity && s.isOpen) b.options :=
    connectInprocSockets_eq s.isOpen hd hadopt
  rw [hwilling, hin, hoffered, hstate] at hwx
  rw [hrun]
  cases hasks : s.options.recvIdentity && s.isOpen with
  | false =>
    refine .inl ⟨⟨hid, fun h1 h2 => ?_⟩, q, rfl⟩
    rw [h1, h2] at hasks
    cases hasks
  | true =>
    rw [Bool.and_eq_true] at hasks
    have hanswers : x.Willing 0 ↔ b.Adopts s :=
      hwx.trans ⟨fun ⟨⟨h1, h2⟩, h3, h4⟩ => ⟨hid, fun _ _ => ⟨h1, h3, h2, h4⟩⟩,
        fun ha => have ⟨h1, h3, h2, h4⟩ := ha.answer hasks.1 hasks.2; ⟨⟨h1, h2⟩, h3, h4⟩⟩
    have hend : q.bindEnd.Able ∧ (q.bindEnd.Willing 0 ↔ x.Willing 0) := by
      rw [hq]
      exact ⟨⟨hablex.outpipe, hablex.unreported, hablex.whole⟩, Iff.rfl⟩
    change b.Adopts s ∧ (∃ r, q.onBind (·.writeIdentity b.options) = .ok r) ∨
      ¬b.Adopts s ∧ (q.onBind (·.writeIdentity b.options) = _ ∨ q.onBind (·.writeIdentity b.options) = _)
    rw [← hanswers, ← hend.2, InprocPair.onBind]
    rcases writeIdentity_cases hend.1 b.options with ⟨hyes, y, hy⟩ | ⟨hno, hy⟩
    · rw [hy]
      exact .inl ⟨hyes, _, rfl⟩
    · rw [hy]
      exact .inr ⟨hno, .inr rfl⟩

end Pended

namespace Pending

/-- Every connection can be taken over; the first one finds the socket as it is, the others after it. -/
def Adoptable (b : BinderT) (s : List Pended) : Prop :=
  ∀ i p, s[i]? = some p → (if i = 0 then b else b.attached).Adopts p

theorem adoptable_cons {b : BinderT} {p : Pended} {rest : List Pended} :
    Adoptable b (p :: rest) ↔ b.Adopts p ∧ Adoptable b.attached rest := by
  have hagain : ∀ i, (if i = 0 then b.attached else b.attached.attached) = b.attached := fun i => ite_self _
  constructor
  · intro h
    refine ⟨h 0 p rfl, fun i q hq => ?_⟩
    rw [hagain]
    exact h (i + 1) q hq
  · rintro ⟨h0, hrest⟩ i q hq
    cases i with
    | zero =>
      cases hq
      exact h0
    | succ i =>
      have hadopts := hrest i q hq
      rwa [hagain] at hadopts

theorem connectPending_cases {s : List Pended} (h : ∀ p ∈ s, p.Sound) (b : BinderT) :
    Adoptable b s ∧ (∃ ps, connectPending b s = .ok ps) ∨
      ¬Adoptable b s ∧ (connectPending b s = .error .unread ∨ connectPending b s = .error .unwritten) := by
  induction s generalizing b with
  | nil => exact .inl ⟨fun i p hp => (by cases hp), [], rfl⟩
  | cons p rest ih =>
    rw [adoptable_cons]
    unfold connectPending
    rcases (h p mem_cons_self).adopts b with ⟨ha, q, hq⟩ | ⟨hno, he⟩
    · rw [hq]
      rcases ih (fun q hq => h q (mem_cons_of_mem _ hq)) b.attached with ⟨hrest, qs, hqs⟩ | ⟨hno, he⟩
      · exact .inl ⟨⟨ha, hrest⟩, q :: qs, by rw [hqs]; rfl⟩
      · refine .inr ⟨fun hc => hno hc.2, he.imp ?_ ?_⟩
        · intro he
          rw [he]
          rfl
        · intro he
          rw [he]
          rfl
    · refine .inr ⟨fun hc => hno hc.1, he.imp ?_ ?_⟩
      · intro he
        rw [he]
        rfl
      · intro he
        rw [he]
        rfl

/-- After any history, `connect_pending` goes through all connections without a failing assertion exactly if each can be
taken over. -/
theorem pending_adopted {ops : List PendingOp} {s : List Pended} (h : Run Start Step ops s) (b : BinderT) :
    connectPending b s ≠ .error .unread ∧ connectPending b s ≠ .error .unwritten ↔ Adoptable b s := by
  rcases connectPending_cases (sound h) b with ⟨ha, ps, hps⟩ | ⟨hno, he⟩
  · rw [hps]
    exact iff_of_true ⟨nofun, nofun⟩ ha
  · exact iff_of_false (fun hc => he.elim hc.1 hc.2) hno

def asking : PeerOptions := { PeerOptions.new .router with recvIdentity := true }

def conflating : PeerOptions := { PeerOptions.new .push with conflate := true }

def hello : UserMsg := ⟨Msg.ofData [104, 105], ⟨by decide, by decide, by decide⟩⟩

theorem pending_adopted_asking : ∃ s, Run Start Step [.connect asking, .call 0 (.write hello), .call 0 .flush] s ∧
    Adoptable (.new (.new .dealer)) s := by
  obtain ⟨s, hs, hp⟩ := @run_of_play _ _ _ free run _ free _ _ Start
    [.connect asking, .call 0 (.write hello), .call 0 .flush] [] (fun s => (connectPending (.new (.new .dealer)) s).isOk) true
    rfl rfl
  refine ⟨s, hs.unguarded, (pending_adopted hs.unguarded _).mp ⟨fun he => ?_, fun he => ?_⟩⟩
  · rw [he] at hp
    cases hp
  · rw [he] at hp
    cases hp

/-- After `zmq_disconnect` the end that waits for its socket takes no identity once it has learnt of it, and a conflating
pipe has none to be read. -/
theorem disconnected_aborts : (∃ s, Run Start Step [.connect asking, .call 0 (.terminate true), .call 0 .deliver] s ∧
      connectPending (.new (.new .dealer)) s = .error .unwritten) ∧
    ∃ s, Run Start Step [.connect conflating, .call 0 (.terminate true)] s ∧
      connectPending (.new (.new .pull)) s = .error .unread := by
  constructor
  · obtain ⟨s, hs, hp⟩ := @run_of_play _ _ _ free run _ free _ _ Start
      [.connect asking, .call 0 (.terminate true), .call 0 .deliver] [] (connectPending (.new (.new .dealer)))
      (.error .unwritten) rfl rfl
    exact ⟨s, hs.unguarded, hp⟩
  · obtain ⟨s, hs, hp⟩ := @run_of_play _ _ _ free run _ free _ _ Start [.connect conflating, .call 0 (.terminate true)] []
      (connectPending (.new (.new .pull))) (.error .unread) rfl rfl
    exact ⟨s, hs.unguarded, hp⟩

end Pending

end Zmq
