import LibZmq.Ctx.InprocPipes

/-! What connecting makes of the two ends: nothing has been written but identities. -/

namespace Zmq

open InprocAbort InprocPair

theorem connectInprocSockets_eq {connecter binder : PeerOptions} (isOpen : Bool)
    {adopt : PipeEnd → Except InprocAbort PipeEnd} {p p' q : InprocPair} (hd : p.dropIdentity binder.recvIdentity = .ok p')
    (ha : (p'.marked connecter binder).onBind adopt = .ok q) :
    connectInprocSockets connecter binder isOpen adopt p = q.bindIdentity (connecter.recvIdentity && isOpen) binder := by
  unfold connectInprocSockets
  rw [hd]
  change (p'.marked connecter binder).onBind adopt >>= _ = _
  rw [ha]
  rfl

namespace PeerOptions

theorem identityMsg_flags (o : PeerOptions) : o.identityMsg.flags = Msg.identity := UInt8.zero_or

theorem identityMsg_hasMore (o : PeerOptions) : o.identityMsg.hasMore = false := by
  rw [Msg.hasMore, identityMsg_flags]
  rfl

theorem identityMsg_isIdentity (o : PeerOptions) : o.identityMsg.isIdentity = true := by
  rw [Msg.isIdentity, identityMsg_flags]
  rfl

theorem identityMsg_isCredential (o : PeerOptions) : o.identityMsg.isCredential = false := by
  rw [Msg.isCredential, identityMsg_flags]
  rfl

theorem identityMsg_counted (o : PeerOptions) : PipeT.counted o.identityMsg = false := by
  rw [PipeT.counted, identityMsg_isIdentity, Bool.not_true, Bool.and_false]

theorem identityMsg_isDelimiter (o : PeerOptions) : o.identityMsg.isDelimiter = false := by
  unfold identityMsg Msg.setFlags Msg.ofData Msg.isDelimiter
  dsimp only
  split_ifs <;> rfl

end PeerOptions

namespace PipeEnd

variable {x : PipeEnd}

theorem writeIdentity_fresh (h : x.self.Fresh) (o : PeerOptions) : ∃ sent, (∀ c ∈ sent, c = .activateRead) ∧
    x.writeIdentity o = .ok { x with
      outpipe := (x.outpipe.write o.identityMsg false).flush.2
      sent := x.sent ++ sent } := by
  have hs : x.self.state ≠ .termAckSent := by
    rw [h.state]
    decide
  obtain ⟨sent, hf, hsent⟩ := flush_eq (x := { x with outpipe := x.outpipe.write o.identityMsg false }) hs h.outpipe
  refine ⟨sent, hsent, ?_⟩
  unfold writeIdentity
  rw [write_done h.checkWrite h.outpipe, o.identityMsg_counted, o.identityMsg_hasMore]
  exact congrArg Except.ok hf

theorem writeIdentity_outpipe {x' : PipeEnd} {o : PeerOptions} (ho : x.self.outpipe ≠ none) (h : x.writeIdentity o = .ok x') :
    x'.outpipe = (x.outpipe.write o.identityMsg false).flush.2 := by
  obtain ⟨⟨written, y⟩, hw, h⟩ := bind_ok h
  cases hc : x.self.checkWrite.1 with
  | false =>
    rw [write_refused hc] at hw
    cases hw
    cases h
  | true =>
    have hs : x.self.state = .active := by
      rw [Pair.checkWrite_fst] at hc
      simp only [Bool.and_eq_true, beq_iff_eq] at hc
      exact hc.1.2
    rw [write_done hc ho, o.identityMsg_counted, o.identityMsg_hasMore] at hw
    cases hw
    obtain ⟨sent, hf, -⟩ := flush_eq (x := { x with outpipe := x.outpipe.write o.identityMsg false })
      (by rw [hs]; decide) ho
    cases h
    exact congrArg PipeEnd.outpipe hf

theorem announce_fresh (h : x.self.Fresh) (msgs : List UserMsg) : ∃ acc self sent,
    Accepted x (msgs.map (·.1)) acc self ∧ x.announce msgs = .ok { x with
      self := self
      outpipe := (x.outpipe.pushAll acc).flush.2
      sent := sent } := by
  obtain ⟨acc, self, hacc, he⟩ := writeAll_spec (msgs.map (·.1)) x h.outpipe
  obtain ⟨a, w, hself⟩ := hacc.writes
  have hs : self.state ≠ .termAckSent := by
    rw [hself, h.state]
    decide
  have ho : self.outpipe ≠ none := by
    rw [hself]
    exact h.outpipe
  obtain ⟨sent, hf, -⟩ := flush_eq (x := { x with self := self, outpipe := x.outpipe.pushAll acc }) hs ho
  refine ⟨acc, self, x.sent ++ sent, hacc, ?_⟩
  unfold announce
  rw [he]
  exact congrArg Except.ok hf

theorem dropIdentity_ok (hi : x.self.inActive = true) (hr : x.self.readable = true) {m : Msg} {rest : List Msg}
    (hm : x.inpipe.readable = m :: rest) (hc : m.isCredential = false) (hd : m.isDelimiter = false) :
    ∃ n sent, x.dropIdentity = .ok { x with
      self := { x.self with msgsRead := n }
      inpipe := x.inpipe.read.2
      sent := sent } := by
  obtain ⟨n, sent, he⟩ := read_eq hi hr hm hc hd
  refine ⟨n, sent, ?_⟩
  unfold dropIdentity
  rw [he]
  rfl

end PipeEnd

namespace InprocPair

variable {p : InprocPair}

theorem onBind_ok {q : InprocPair} {f : PipeEnd → Except InprocAbort PipeEnd} (h : p.onBind f = .ok q) :
    ∃ x, f p.bindEnd = .ok x ∧ q = p.setBindEnd x := by
  unfold onBind at h
  cases hf : f p.bindEnd with
  | error e =>
    rw [hf] at h
    cases h
  | ok x =>
    rw [hf] at h
    exact ⟨x, rfl, (Except.ok.inj h).symm⟩

theorem onConnect_writeIdentity (h : p.connectPipe.Fresh) (o : PeerOptions) :
    ∃ sent, (∀ c ∈ sent, c = .activateRead) ∧ p.onConnect (·.writeIdentity o) = .ok { p with
      toBind := (p.toBind.write o.identityMsg false).flush.2
      toBindCmds := p.toBindCmds ++ sent } := by
  obtain ⟨sent, hsent, he⟩ := PipeEnd.writeIdentity_fresh (x := p.connectEnd) h o
  exact ⟨sent, hsent, by rw [onConnect, he]; rfl⟩

theorem onBind_writeIdentity (h : p.bindPipe.Fresh) (o : PeerOptions) :
    ∃ cmds, p.onBind (·.writeIdentity o) = .ok { p with
      toConnect := (p.toConnect.write o.identityMsg false).flush.2
      toConnectCmds := cmds } := by
  obtain ⟨sent, -, he⟩ := PipeEnd.writeIdentity_fresh (x := p.bindEnd) h o
  exact ⟨p.toConnectCmds ++ sent, by rw [onBind, he]; rfl⟩

theorem onConnect_announce (h : p.connectPipe.Fresh) (msgs : List UserMsg) : ∃ acc self cmds,
    PipeEnd.Accepted p.connectEnd (msgs.map (·.1)) acc self ∧ p.onConnect (PipeEnd.announce msgs) = .ok { p with
      connectPipe := self
      toBind := (p.toBind.pushAll acc).flush.2
      toBindCmds := cmds } := by
  obtain ⟨acc, self, sent, hacc, he⟩ := PipeEnd.announce_fresh (x := p.connectEnd) h msgs
  exact ⟨acc, self, p.toBindCmds ++ sent, hacc, by rw [onConnect, he]; rfl⟩

theorem onBind_announce (h : p.bindPipe.Fresh) (msgs : List UserMsg) : ∃ acc self cmds,
    PipeEnd.Accepted p.bindEnd (msgs.map (·.1)) acc self ∧ p.onBind (PipeEnd.announce msgs) = .ok { p with
      bindPipe := self
      toConnect := (p.toConnect.pushAll acc).flush.2
      toConnectCmds := cmds } := by
  obtain ⟨acc, self, sent, hacc, he⟩ := PipeEnd.announce_fresh (x := p.bindEnd) h msgs
  exact ⟨acc, self, p.toConnectCmds ++ sent, hacc, by rw [onBind, he]; rfl⟩

theorem onBind_dropIdentity (hi : p.bindPipe.inActive = true) (hr : p.bindPipe.readable = true) {m : Msg}
    {rest : List Msg} (hm : p.toBind.readable = m :: rest) (hc : m.isCredential = false) (hd : m.isDelimiter = false) :
    ∃ n cmds, p.onBind PipeEnd.dropIdentity = .ok { p with
      bindPipe := { p.bindPipe with msgsRead := n }
      toBind := p.toBind.read.2
      toConnectCmds := cmds } := by
  obtain ⟨n, sent, he⟩ := PipeEnd.dropIdentity_ok (x := p.bindEnd) hi hr hm hc hd
  exact ⟨n, p.toConnectCmds ++ sent, by rw [onBind, he]; rfl⟩

end InprocPair

namespace YPipeBase

inductive Settled : YPipeBase → Option Msg → Prop
  | normal {m : Option Msg} {asleep : Bool} : Settled (.normal ⟨m.toList, [], [], asleep⟩) m
  | conflate {m : Option Msg} : Settled (.conflate m) m

theorem settled_new (conflate : Bool) : Settled (.new conflate) none := by
  cases conflate
  · exact @Settled.normal none false
  · exact .conflate

theorem Settled.write {y : YPipeBase} (h : Settled y none) (m : Msg) : Settled (y.write m false).flush.2 (some m) := by
  cases h with
  | normal => exact @Settled.normal (some m) false
  | conflate => exact .conflate

end YPipeBase

open YPipeBase

namespace InprocPair

structure Opened (p : InprocPair) (toBind toConnect : Option Msg) (conflate : Bool) : Prop where
  connect : p.connectPipe.Fresh
  bind : p.bindPipe.Fresh
  toBind : Settled p.toBind toBind
  toConnect : Settled p.toConnect toConnect
  toBindKind : p.toBind.isConflate = conflate
  toConnectKind : p.toConnect.isConflate = conflate
  commands : ∀ c ∈ p.toBindCmds, c = .activateRead

theorem new_isConflate (conflate : Bool) : (YPipeBase.new conflate).isConflate = conflate := by
  cases conflate <;> rfl

theorem write_isConflate (y : YPipeBase) (m : Msg) : (y.write m false).flush.2.isConflate = y.isConflate := by
  cases y <;> rfl

theorem pipepair_opened (hwm0 hwm1 : Int32) (conflate : Bool) : (pipepair hwm0 hwm1 conflate).Opened none none conflate :=
  ⟨.new .., .new .., settled_new conflate, settled_new conflate, new_isConflate conflate, new_isConflate conflate, nofun⟩

variable {p : InprocPair} {toBind toConnect : Option Msg} {conflate : Bool}

theorem Opened.boosted (h : p.Opened toBind toConnect conflate) (connecter binder : PeerOptions) :
    (p.boost connecter binder).Opened toBind toConnect conflate :=
  ⟨h.connect.boosted .., h.bind.boosted .., h.toBind, h.toConnect, h.toBindKind, h.toConnectKind, h.commands⟩

def asked (asks : Bool) (o : PeerOptions) : Option Msg := if asks then some o.identityMsg else none

theorem Opened.connectIdentity (h : p.Opened none toConnect conflate) (asks : Bool) (o : PeerOptions) :
    ∃ p', p.connectIdentity asks o = .ok p' ∧ p'.Opened (asked asks o) toConnect conflate ∧
      p'.connectPipe = p.connectPipe ∧ p'.bindPipe = p.bindPipe := by
  cases asks with
  | false => exact ⟨p, rfl, h, rfl, rfl⟩
  | true =>
    obtain ⟨sent, hsent, he⟩ := onConnect_writeIdentity h.connect o
    exact ⟨_, he, ⟨h.connect, h.bind, h.toBind.write _, h.toConnect, (write_isConflate ..).trans h.toBindKind,
      h.toConnectKind, fun c hc => (List.mem_append.mp hc).elim (h.commands c) (hsent c)⟩, rfl, rfl⟩

theorem Opened.bindIdentity (h : p.Opened toBind none conflate) (asks : Bool) (o : PeerOptions) :
    ∃ p', p.bindIdentity asks o = .ok p' ∧ p'.Opened toBind (asked asks o) conflate ∧
      p'.connectPipe = p.connectPipe ∧ p'.bindPipe = p.bindPipe := by
  cases asks with
  | false => exact ⟨p, rfl, h, rfl, rfl⟩
  | true =>
    obtain ⟨cmds, he⟩ := onBind_writeIdentity h.bind o
    exact ⟨_, he, ⟨h.connect, h.bind, h.toBind, h.toConnect.write _, h.toBindKind,
      (write_isConflate ..).trans h.toConnectKind, h.commands⟩, rfl, rfl⟩

def joint (connecter binder : PeerOptions) : InprocPair :=
  let sndhwm := if connecter.sndhwm ≠ 0 ∧ binder.rcvhwm ≠ 0 then connecter.sndhwm + binder.rcvhwm else 0
  let rcvhwm := if connecter.rcvhwm ≠ 0 ∧ binder.sndhwm ≠ 0 then connecter.rcvhwm + binder.sndhwm else 0
  let conflate := connecter.conflates
  let p := pipepair (if conflate then -1 else sndhwm) (if conflate then -1 else rcvhwm) conflate
  if conflate then p else p.boost connecter binder

theorem joint_opened (connecter binder : PeerOptions) : (joint connecter binder).Opened none none connecter.conflates := by
  unfold joint
  cases connecter.conflates with
  | true => exact pipepair_opened ..
  | false => exact (pipepair_opened ..).boosted ..

theorem connectFound_spec (connecter binder : PeerOptions) : ∃ p, connectFound connecter binder = .ok p ∧
    p.Opened (asked binder.recvIdentity connecter) (asked connecter.recvIdentity binder) connecter.conflates ∧
    p.connectPipe = (joint connecter binder).connectPipe ∧ p.bindPipe = (joint connecter binder).bindPipe := by
  obtain ⟨p, hp, hopened, hc, hb⟩ := (joint_opened connecter binder).connectIdentity binder.recvIdentity connecter
  obtain ⟨p', hp', hopened', hc', hb'⟩ := hopened.bindIdentity connecter.recvIdentity binder
  refine ⟨p', ?_, hopened', hc'.trans hc, hb'.trans hb⟩
  exact (congrArg (· >>= _) hp).trans hp'

def lone (connecter : PeerOptions) : InprocPair :=
  let conflate := connecter.conflates
  let p := pipepair (if conflate then -1 else connecter.sndhwm) (if conflate then -1 else connecter.rcvhwm) conflate
  if conflate then p else p.boost connecter (.new .pair)

theorem lone_opened (connecter : PeerOptions) : (lone connecter).Opened none none connecter.conflates := by
  unfold lone
  cases connecter.conflates with
  | true => exact pipepair_opened ..
  | false => exact (pipepair_opened ..).boosted ..

theorem connectAlone_spec (connecter : PeerOptions) : ∃ p, connectAlone connecter = .ok p ∧
    p.Opened (some connecter.identityMsg) none connecter.conflates ∧
    p.connectPipe = (lone connecter).connectPipe ∧ p.bindPipe = (lone connecter).bindPipe :=
  (lone_opened connecter).connectIdentity true connecter

end InprocPair

end Zmq
