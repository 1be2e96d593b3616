import LibZmq.Ctx.Opening

/-! Connecting an inproc socket before and after the other one binds: the two ways compute the same marks and boosts, and
put the same identities first, unless the socket that binds writes before its identity is. -/

namespace Zmq

open List

structure PipeMarks where
  hwm : Int32
  lwm : Int32
  inhwmboost : Int32
  outhwmboost : Int32
deriving DecidableEq

def PipeMarks.effective (m : PipeMarks) : PipeMarks :=
  { m with hwm := if m.hwm ≤ 0 then 0 else m.hwm, lwm := if m.lwm ≤ 0 then 0 else m.lwm }

def PipeT.marks (p : PipeT) : PipeMarks := ⟨p.hwm, p.lwm, p.inhwmboost, p.outhwmboost⟩

/-- The identities that can be read, with the number of messages before each. -/
def YPipeBase.identities (y : YPipeBase) : List (Msg × ℕ) := y.readable.zipIdx.filter (·.1.isIdentity)

namespace InprocPair

/-- Pipes that two sockets cannot tell apart. -/
structure Alike (p q : InprocPair) : Prop where
  connect : p.connectPipe.marks.effective = q.connectPipe.marks.effective
  bind : p.bindPipe.marks.effective = q.bindPipe.marks.effective
  connectLater : ∀ inhwm outhwm, (p.connectPipe.setHwms inhwm outhwm).marks.effective =
    (q.connectPipe.setHwms inhwm outhwm).marks.effective
  bindLater : ∀ inhwm outhwm, (p.bindPipe.setHwms inhwm outhwm).marks.effective =
    (q.bindPipe.setHwms inhwm outhwm).marks.effective
  toBind : p.toBind.identities = q.toBind.identities
  toConnect : p.toConnect.identities = q.toConnect.identities

/-- The name is bound when the socket connects. Then the socket that binds writes `early`, the other one `sends`. -/
def bindFirst (connecter binder : PeerOptions) (sends early : List UserMsg) : Except InprocAbort InprocPair := do
  let p ← connectFound connecter binder
  let p ← p.onBind (PipeEnd.announce early)
  p.onConnect (PipeEnd.announce sends)

/-- The name is bound after the socket has connected and written `sends`. The socket that binds gets to write `early`
before `connect_inproc_sockets` writes its identity, either in its `xattach_pipe` or because `send_bind` goes first. -/
def connectFirst (connecter binder : PeerOptions) (sends early : List UserMsg) : Except InprocAbort InprocPair := do
  let p ← connectAlone connecter
  let p ← p.onConnect (PipeEnd.announce sends)
  connectInprocSockets connecter binder true (PipeEnd.announce early) p

end InprocPair

/-! ## What is written and what can be read -/

namespace YPipeBase

variable {msgs : List Msg} {first : Option Msg} {y : YPipeBase}

theorem identities_users (h : ∀ m ∈ msgs, m.isIdentity = false) (k : ℕ) :
    (msgs.zipIdx k).filter (fun e => e.1.isIdentity) = [] := by
  apply filter_eq_nil_iff.mpr
  intro e he
  rw [h e.1 (fst_mem_of_mem_zipIdx he)]
  exact Bool.false_ne_true

theorem Settled.pushed (h : Settled y first) (msgs : List Msg) :
    (∃ q shown, (y.pushAll msgs).flush.2 = .normal q ∧ q.ready = first.toList ++ shown ∧
      shown ++ q.complete ++ q.unfinished = msgs ∧ ∀ m, y ≠ .conflate m) ∨
    (y = .conflate first ∧ (y.pushAll msgs).flush.2 = .conflate (msgs.getLast?.or first)) := by
  cases h with
  | @normal first asleep =>
    left
    obtain ⟨q, hq, hready, hrest⟩ := pushAll_normal ⟨first.toList, [], [], asleep⟩ msgs
    have hempty : q.flush.2.complete = [] := by
      unfold Staged.flush
      split_ifs with hc
      · exact hc
      · rfl
    have hsame : q.flush.2.unfinished = q.unfinished := by
      unfold Staged.flush
      split_ifs <;> rfl
    refine ⟨q.flush.2, q.complete, by rw [hq]; rfl, ?_, ?_, fun m => by simp⟩
    · rw [Staged.flush_ready, hready]
    · rw [hempty, hsame, append_nil, hrest]
      rfl
  | conflate => exact .inr ⟨rfl, by rw [pushAll_conflate]; rfl⟩

theorem Settled.pushed_identities (h : Settled y first)
    (hf : ∀ m ∈ first, m.isIdentity = true) (hm : ∀ m ∈ msgs, m.isIdentity = false) :
    (y.pushAll msgs).flush.2.identities = if y.isConflate ∧ msgs ≠ [] then [] else first.toList.zipIdx := by
  have hfirst : first.toList.zipIdx.filter (fun e => e.1.isIdentity) = first.toList.zipIdx := by
    cases first with
    | none => rfl
    | some m => simp [hf m rfl]
  rcases h.pushed msgs with ⟨q, shown, hy, hready, hrest, hne⟩ | ⟨rfl, hy⟩
  · have hcond : ¬(y.isConflate = true ∧ msgs ≠ []) := by
      cases y with
      | normal q => exact fun hc => Bool.false_ne_true hc.1
      | conflate m => exact absurd rfl (hne m)
    have hshown : ∀ m ∈ shown, m.isIdentity = false := fun m hmem => hm m (by
      rw [← hrest]
      exact mem_append_left _ (mem_append_left _ hmem))
    rw [if_neg hcond, hy]
    unfold identities readable
    dsimp only
    rw [hready, zipIdx_append, filter_append, hfirst, identities_users hshown, append_nil]
  · rw [hy]
    unfold identities readable
    cases hlast : msgs.getLast? with
    | none =>
      rw [getLast?_eq_none_iff.mp hlast]
      exact hfirst
    | some m =>
      have hmem : m ∈ msgs := mem_of_getLast? hlast
      rw [if_pos ⟨rfl, ne_nil_of_mem hmem⟩]
      simp [hm m hmem]

end YPipeBase

open YPipeBase

theorem PipeEnd.Accepted.marks {x : PipeEnd} {msgs acc : List Msg} {self : PipeT} (h : x.Accepted msgs acc self) :
    self.marks = x.self.marks := by
  obtain ⟨a, w, hs⟩ := h.writes
  rw [hs]
  rfl

namespace InprocPair

variable {p : InprocPair} {conflate : Bool} {connecter binder : PeerOptions} {acc : List Msg} {msgs : List UserMsg} {y : YPipeBase}

theorem marks_later {p q : PipeT} (h : p.marks.effective = q.marks.effective) (inhwm outhwm : Int32) :
    (p.setHwms inhwm outhwm).marks.effective = (q.setHwms inhwm outhwm).marks.effective := by
  have hin : p.inhwmboost = q.inhwmboost := congrArg PipeMarks.inhwmboost h
  have hout : p.outhwmboost = q.outhwmboost := congrArg PipeMarks.outhwmboost h
  unfold PipeT.setHwms PipeT.marks
  rw [hin, hout]

theorem sum_eq {m n : Int32} (hm : 0 ≤ m) (hn : 0 ≤ n) :
    (if m ≠ 0 ∧ n ≠ 0 then m + n else 0) = if m ≤ 0 ∨ n ≤ 0 then 0 else m + n := by
  have hzero : ∀ k : Int32, 0 ≤ k → (k ≤ 0 ↔ k = 0) :=
    fun k hk => ⟨fun h => Int32.le_antisymm h hk, fun h => h ▸ Int32.le_refl _⟩
  simp only [hzero m hm, hzero n hn]
  by_cases h1 : m = 0 <;> by_cases h2 : n = 0 <;> simp [h1, h2]

theorem marked_connect (h : connecter.conflates = true → p.connectPipe.inhwmboost = 0 ∧ p.connectPipe.outhwmboost = 0) :
    (joint connecter binder).connectPipe.marks.effective = (p.marked connecter binder).connectPipe.marks.effective := by
  unfold joint InprocPair.marked
  cases hc : connecter.conflates with
  | true =>
    obtain ⟨hin, hout⟩ := h hc
    simp only [if_true, pipepair, setMarks, PipeT.new, PipeT.setHwms, PipeT.marks, hin, hout]
    decide
  | false =>
    simp only [Bool.false_eq_true, if_false, pipepair, boost, setMarks, PipeT.new, PipeT.setHwmsBoost, PipeT.setHwms,
      PipeT.marks, sum_eq connecter.sndhwm_nonneg binder.rcvhwm_nonneg, sum_eq connecter.rcvhwm_nonneg binder.sndhwm_nonneg]
    rfl

theorem marked_bind (h : connecter.conflates = true → p.bindPipe.inhwmboost = 0 ∧ p.bindPipe.outhwmboost = 0) :
    (joint connecter binder).bindPipe.marks.effective = (p.marked connecter binder).bindPipe.marks.effective := by
  unfold joint InprocPair.marked
  cases hc : connecter.conflates with
  | true =>
    obtain ⟨hin, hout⟩ := h hc
    simp only [if_true, pipepair, setMarks, PipeT.new, PipeT.setHwms, PipeT.marks, hin, hout]
    decide
  | false =>
    simp only [Bool.false_eq_true, if_false, pipepair, boost, setMarks, PipeT.new, PipeT.setHwmsBoost, PipeT.setHwms,
      PipeT.marks, sum_eq connecter.sndhwm_nonneg binder.rcvhwm_nonneg, sum_eq connecter.rcvhwm_nonneg binder.sndhwm_nonneg,
      Int32.add_comm binder.rcvhwm, Int32.add_comm binder.sndhwm, or_comm (a := binder.rcvhwm ≤ 0),
      or_comm (a := binder.sndhwm ≤ 0)]

def shown (conflate : Bool) (identity : Option Msg) (msgs : List UserMsg) : List (Msg × ℕ) :=
  if conflate = true ∧ msgs ≠ [] then [] else identity.toList.zipIdx

theorem asked_isIdentity (asks : Bool) (o : PeerOptions) : ∀ m ∈ asked asks o, m.isIdentity = true := by
  cases asks with
  | false => exact fun m hm => by cases hm
  | true =>
    intro m hm
    cases hm
    exact o.identityMsg_isIdentity

theorem users_not_identity (h : acc.Sublist (msgs.map (·.1))) : ∀ m ∈ acc, m.isIdentity = false := by
  intro m hm
  obtain ⟨u, -, rfl⟩ := mem_map.mp (h.subset hm)
  exact u.2.identity

theorem shown_accepted {x : PipeEnd} {self : PipeT} (h : x.Accepted (msgs.map (·.1)) acc self)
    (hx : x.self.Fresh) {identity : Option Msg} (hy : Settled y identity)
    (hi : ∀ m ∈ identity, m.isIdentity = true) (hk : y.isConflate = true → x.self.hwm ≤ 0) :
    (y.pushAll acc).flush.2.identities = shown y.isConflate identity msgs := by
  rw [hy.pushed_identities hi (users_not_identity h.sublist), shown]
  cases hc : y.isConflate with
  | false => simp
  | true =>
    have hne : acc ≠ [] ↔ msgs ≠ [] := by
      rw [h.all hx.outActive hx.state (hk hc), ne_eq, map_eq_nil_iff]
    simp only [hne]

def Unmarked (p : InprocPair) (conflate : Bool) : Prop :=
  conflate = true → p.connectPipe.hwm ≤ 0 ∧ p.bindPipe.hwm ≤ 0

theorem joint_unmarked (connecter binder : PeerOptions) : (joint connecter binder).Unmarked connecter.conflates := by
  intro hc
  have hneg : (-1 : Int32) ≤ 0 := by decide
  unfold joint
  rw [hc]
  exact ⟨hneg, hneg⟩

theorem lone_unmarked (connecter : PeerOptions) : (lone connecter).Unmarked connecter.conflates := by
  intro hc
  have hneg : (-1 : Int32) ≤ 0 := by decide
  unfold lone
  rw [hc]
  exact ⟨hneg, hneg⟩

theorem Unmarked.congr {p q : InprocPair} (h : p.Unmarked conflate) (hc : q.connectPipe = p.connectPipe)
    (hb : q.bindPipe = p.bindPipe) : q.Unmarked conflate := by
  intro h1
  rw [hc, hb]
  exact h h1

theorem bindFirst_ok {sends early : List UserMsg} {p p' p'' : InprocPair}
    (h : connectFound connecter binder = .ok p) (h' : p.onBind (PipeEnd.announce early) = .ok p')
    (h'' : p'.onConnect (PipeEnd.announce sends) = .ok p'') : bindFirst connecter binder sends early = .ok p'' := by
  unfold bindFirst
  rw [h]
  change p.onBind (PipeEnd.announce early) >>= _ = _
  rw [h']
  exact h''

theorem bindFirst_spec (connecter binder : PeerOptions) (sends early : List UserMsg) :
    ∃ p, bindFirst connecter binder sends early = .ok p ∧
      p.connectPipe.marks = (joint connecter binder).connectPipe.marks ∧
      p.bindPipe.marks = (joint connecter binder).bindPipe.marks ∧
      p.toBind.identities = shown connecter.conflates (asked binder.recvIdentity connecter) sends ∧
      p.toConnect.identities = shown connecter.conflates (asked connecter.recvIdentity binder) early := by
  obtain ⟨p, hp, hopened, hc, hb⟩ := connectFound_spec connecter binder
  have hmarks := (joint_unmarked connecter binder).congr hc hb
  obtain ⟨acc, self, cmds, hacc, he⟩ := onBind_announce hopened.bind early
  obtain ⟨acc', self', cmds', hacc', he'⟩ := onConnect_announce (p := { p with
    bindPipe := self
    toConnect := (p.toConnect.pushAll acc).flush.2
    toConnectCmds := cmds }) hopened.connect sends
  refine ⟨_, bindFirst_ok hp he he', ?_, ?_, ?_, ?_⟩
  · rw [← hc]
    exact hacc'.marks
  · rw [← hb]
    exact hacc.marks
  · rw [← hopened.toBindKind]
    exact shown_accepted hacc' hopened.connect hopened.toBind (asked_isIdentity _ _)
      fun hk => (hmarks (hopened.toBindKind ▸ hk)).1
  · rw [← hopened.toConnectKind]
    exact shown_accepted hacc hopened.bind hopened.toConnect (asked_isIdentity _ _)
      fun hk => (hmarks (hopened.toConnectKind ▸ hk)).2

theorem dropIdentity_spec (hb : p.bindPipe.Fresh) (asks : Bool)
    (hm : ∀ m ∈ p.toBind.readable, m.isCredential = false ∧ m.isDelimiter = false) (hne : p.toBind.readable ≠ []) :
    ∃ n y cmds, p.dropIdentity asks = .ok { p with
      bindPipe := { p.bindPipe with msgsRead := n }
      toBind := y
      toConnectCmds := cmds } ∧
      y.readable = if asks then p.toBind.readable else p.toBind.readable.tail := by
  cases asks with
  | true => exact ⟨p.bindPipe.msgsRead, p.toBind, p.toConnectCmds, rfl, rfl⟩
  | false =>
    obtain ⟨m, rest, hmr⟩ := exists_cons_of_ne_nil hne
    obtain ⟨hc, hd⟩ := hm m (by rw [hmr]; exact mem_cons_self)
    have hr : p.bindPipe.readable = true := by
      unfold PipeT.readable
      rw [hb.state]
      rfl
    obtain ⟨n, cmds, he⟩ := onBind_dropIdentity hb.inActive hr hmr hc hd
    refine ⟨n, p.toBind.read.2, cmds, he, ?_⟩
    rw [hmr]
    exact (YPipeBase.read_spec hmr).2

structure Waits (p : InprocPair) (connecter : PeerOptions) (sends : List UserMsg) : Prop where
  bind : p.bindPipe.Fresh
  toConnect : Settled p.toConnect none
  kind : p.toConnect.isConflate = connecter.conflates
  connectBoosts : connecter.conflates = true → p.connectPipe.inhwmboost = 0 ∧ p.connectPipe.outhwmboost = 0
  bindBoosts : connecter.conflates = true → p.bindPipe.inhwmboost = 0 ∧ p.bindPipe.outhwmboost = 0
  unmarked : p.Unmarked connecter.conflates
  plain : ∀ m ∈ p.toBind.readable, m.isCredential = false ∧ m.isDelimiter = false
  front : p.toBind.readable ≠ []
  users : ∀ m ∈ p.toBind.readable.tail, m.isIdentity = false
  identities : p.toBind.identities = shown connecter.conflates (some connecter.identityMsg) sends

theorem settled_readable {o : PeerOptions} (h : Settled y (some o.identityMsg)) (hacc : acc.Sublist (msgs.map (·.1))) :
    ∃ m rest, (y.pushAll acc).flush.2.readable = m :: rest ∧ m.isCredential = false ∧ m.isDelimiter = false ∧
      ∀ r ∈ rest, r.FromUser := by
  have husers : ∀ m ∈ acc, m.FromUser := by
    intro m hm
    obtain ⟨u, -, rfl⟩ := mem_map.mp (hacc.subset hm)
    exact u.2
  rcases h.pushed acc with ⟨q, shown, hy, hready, hrest, -⟩ | ⟨-, hy⟩
  · rw [hy]
    refine ⟨o.identityMsg, shown, hready, o.identityMsg_isCredential, o.identityMsg_isDelimiter, fun r hr => husers r ?_⟩
    rw [← hrest]
    exact mem_append_left _ (mem_append_left _ hr)
  · rw [hy]
    cases hlast : acc.getLast? with
    | none =>
      exact ⟨o.identityMsg, [], rfl, o.identityMsg_isCredential, o.identityMsg_isDelimiter, nofun⟩
    | some m =>
      have hm := husers m (mem_of_getLast? hlast)
      exact ⟨m, [], rfl, hm.credential, hm.delimiter, nofun⟩

theorem pended_spec (connecter : PeerOptions) (sends : List UserMsg) : ∃ p,
    (connectAlone connecter >>= fun p => p.onConnect (PipeEnd.announce sends)) = .ok p ∧ p.Waits connecter sends := by
  obtain ⟨p, hp, hopened, hc, hb⟩ := connectAlone_spec connecter
  obtain ⟨acc, self, cmds, hacc, he⟩ := onConnect_announce hopened.connect sends
  obtain ⟨m, rest, hreadable, hcred, hdel, husers⟩ := settled_readable hopened.toBind hacc.sublist
  obtain ⟨a, w, hself⟩ := hacc.writes
  have hmarks := (lone_unmarked connecter).congr hc hb
  have hboosts : connecter.conflates = true → (lone connecter).connectPipe.inhwmboost = 0 ∧
      (lone connecter).connectPipe.outhwmboost = 0 ∧ (lone connecter).bindPipe.inhwmboost = 0 ∧
      (lone connecter).bindPipe.outhwmboost = 0 := by
    intro h
    unfold lone
    rw [h]
    exact ⟨rfl, rfl, rfl, rfl⟩
  refine ⟨_, (congrArg (· >>= _) hp).trans he, hopened.bind, hopened.toConnect, hopened.toConnectKind, fun h => ?_,
    fun h => ?_, fun h => ?_, fun r hr => ?_, ?_, fun r hr => ?_, ?_⟩
  · rw [hself]
    change p.connectPipe.inhwmboost = 0 ∧ p.connectPipe.outhwmboost = 0
    rw [hc]
    exact ⟨(hboosts h).1, (hboosts h).2.1⟩
  · rw [hb]
    exact (hboosts h).2.2
  · rw [hself]
    exact hmarks h
  · rw [hreadable] at hr
    rcases mem_cons.mp hr with rfl | hr
    · exact ⟨hcred, hdel⟩
    · exact ⟨(husers r hr).credential, (husers r hr).delimiter⟩
  · rw [hreadable]
    exact cons_ne_nil m rest
  · rw [hreadable] at hr
    exact (husers r hr).identity
  · rw [← hopened.toBindKind]
    exact shown_accepted hacc hopened.connect hopened.toBind
      (fun m hm => Option.some.inj hm ▸ connecter.identityMsg_isIdentity) fun hk => (hmarks (hopened.toBindKind ▸ hk)).1

structure Adopted (connecter binder : PeerOptions) (sends early : List UserMsg) (p q : InprocPair) : Prop where
  connect : q.connectPipe.marks = (p.marked connecter binder).connectPipe.marks
  bind : q.bindPipe.marks = (p.marked connecter binder).bindPipe.marks
  toBind : q.toBind.identities = shown connecter.conflates (asked binder.recvIdentity connecter) sends
  toConnect : ∃ (x : PipeEnd) (acc : List Msg), x.self.Fresh ∧ (connecter.conflates = true → x.self.hwm ≤ 0) ∧
    PipeEnd.Accepted x (early.map (·.1)) acc q.bindPipe ∧ q.toConnect = (p.toConnect.pushAll acc).flush.2

theorem marked_read {p p' : InprocPair} (connecter binder : PeerOptions) {n : UInt64} (hc : p'.connectPipe = p.connectPipe)
    (hb : p'.bindPipe = { p.bindPipe with msgsRead := n }) :
    (p'.marked connecter binder).connectPipe.marks = (p.marked connecter binder).connectPipe.marks ∧
      (p'.marked connecter binder).bindPipe.marks = (p.marked connecter binder).bindPipe.marks := by
  unfold marked setMarks boost
  split_ifs
  · exact ⟨by rw [hc], by rw [hb]; rfl⟩
  · exact ⟨by rw [hc], by rfl⟩

theorem marked_fresh (h : p.bindPipe.Fresh) (connecter binder : PeerOptions) : (p.marked connecter binder).bindPipe.Fresh := by
  unfold marked
  split_ifs
  · exact h.marked _ _
  · exact (h.boosted _ _).marked _ _

theorem marked_unlimited (h : connecter.conflates = true) (binder : PeerOptions)
    (p : InprocPair) : (p.marked connecter binder).bindPipe.hwm ≤ 0 := by
  unfold marked
  rw [if_pos h]
  exact Int32.le_refl 0

theorem adopted_spec {sends : List UserMsg} (h : p.Waits connecter sends)
    (binder : PeerOptions) (early : List UserMsg) : ∃ q, Adopted connecter binder sends early p q ∧
      connectInprocSockets connecter binder true (PipeEnd.announce early) p =
        q.bindIdentity connecter.recvIdentity binder := by
  obtain ⟨n, y, cmds, hd, hy⟩ := dropIdentity_spec h.bind binder.recvIdentity h.plain h.front
  obtain ⟨p1, hp1⟩ : ∃ p1, p1 = { p with
      bindPipe := { p.bindPipe with msgsRead := n }
      toBind := y
      toConnectCmds := cmds } := ⟨_, rfl⟩
  rw [← hp1] at hd
  have hread : p1.bindPipe.Fresh := by
    rw [hp1]
    exact ⟨h.bind.state, h.bind.inActive, h.bind.outActive, h.bind.outpipe, h.bind.unwritten, h.bind.unreported⟩
  have hc : p1.connectPipe = p.connectPipe := by rw [hp1]
  have hb : p1.bindPipe = { p.bindPipe with msgsRead := n } := by rw [hp1]
  obtain ⟨hmc, hmb⟩ := marked_read connecter binder hc hb
  have hlanes : (p1.marked connecter binder).toBind = y ∧ (p1.marked connecter binder).toConnect = p.toConnect := by
    rw [hp1]
    unfold marked
    split_ifs
    · exact ⟨rfl, rfl⟩
    · exact ⟨rfl, rfl⟩
  obtain ⟨acc, self, cmds', hacc, he⟩ := onBind_announce (marked_fresh hread connecter binder) early
  obtain ⟨q, hq⟩ : ∃ q, q = { p1.marked connecter binder with
      bindPipe := self
      toConnect := ((p1.marked connecter binder).toConnect.pushAll acc).flush.2
      toConnectCmds := cmds' } := ⟨_, rfl⟩
  rw [← hq] at he
  refine ⟨q, ⟨?_, ?_, ?_, ?_⟩, (connectInprocSockets_eq true hd he).trans (by rw [Bool.and_true])⟩
  · rw [hq]
    exact hmc
  · rw [hq]
    exact hacc.marks.trans hmb
  · rw [hq]
    rw [hlanes.1]
    unfold identities
    rw [hy]
    cases hr : binder.recvIdentity with
    | true => exact h.identities
    | false =>
      rw [if_neg Bool.false_ne_true, identities_users h.users]
      exact (ite_self _).symm
  · refine ⟨(p1.marked connecter binder).bindEnd, acc, marked_fresh hread connecter binder,
      fun hc => marked_unlimited hc binder p1, ?_, ?_⟩
    · rw [hq]
      exact hacc
    · rw [hq, ← hlanes.2]

theorem identities_behind (h : Settled y none) (hacc : ∀ m ∈ acc, m.isIdentity = false)
    {m : Msg} (hm : m.isIdentity = true) : (((y.pushAll acc).flush.2.write m false).flush.2).identities =
      [(m, if y.isConflate then 0 else acc.length)] := by
  rcases h.pushed acc with ⟨q, shown, hy, hready, hrest, hne⟩ | ⟨rfl, hy⟩
  · have hkind : y.isConflate = false := by
      cases y with
      | normal q => rfl
      | conflate m => exact absurd rfl (hne m)
    rw [hy, hkind]
    unfold identities
    rw [flush_write_normal, hready]
    have hall : none.toList ++ shown ++ (q.complete ++ q.unfinished) = acc := by
      rw [← hrest]
      simp
    rw [hall, zipIdx_append, filter_append, identities_users hacc]
    simp [hm]
  · rw [hy]
    unfold identities
    simp [write, flush, readable, isConflate, hm]

end InprocPair

open InprocPair

/-- The two orders make the same pipe unless the socket that connects asks for an identity and the socket that binds writes
to it before that identity is written. -/
theorem orders_alike (connecter binder : PeerOptions) (sends early : List UserMsg) :
    (∃ p q, bindFirst connecter binder sends early = .ok p ∧ connectFirst connecter binder sends early = .ok q ∧
      Alike p q) ↔ connecter.recvIdentity = false ∨ early = [] := by
  obtain ⟨p, hp, hpc, hpb, hpToBind, hpToConnect⟩ := bindFirst_spec connecter binder sends early
  obtain ⟨w, hw, hwaits⟩ := pended_spec connecter sends
  obtain ⟨q, hq, hrun⟩ := adopted_spec hwaits binder early
  have hfirst : connectFirst connecter binder sends early = q.bindIdentity connecter.recvIdentity binder := by
    rw [← hrun]
    unfold connectFirst
    rw [← bind_assoc, hw]
    rfl
  have halike : ∀ r : InprocPair, r.connectPipe = q.connectPipe → r.bindPipe = q.bindPipe → r.toBind = q.toBind →
      r.toConnect.identities = shown connecter.conflates (asked connecter.recvIdentity binder) early → Alike p r := by
    intro r hrc hrb hrt hri
    have hc : p.connectPipe.marks.effective = r.connectPipe.marks.effective := by
      rw [hpc, hrc, hq.connect, marked_connect hwaits.connectBoosts]
    have hb : p.bindPipe.marks.effective = r.bindPipe.marks.effective := by
      rw [hpb, hrb, hq.bind, marked_bind hwaits.bindBoosts]
    exact ⟨hc, hb, marks_later hc, marks_later hb, by rw [hpToBind, hrt, hq.toBind], hpToConnect.trans hri.symm⟩
  obtain ⟨x, acc, hx, hlimit, hacc, hlane⟩ := hq.toConnect
  have husers := users_not_identity hacc.sublist
  have hkind := hwaits.kind
  have hbehind : (q.toConnect.write binder.identityMsg false).flush.2.identities =
      [(binder.identityMsg, if connecter.conflates then 0 else acc.length)] := by
    rw [hlane, ← hkind]
    exact identities_behind hwaits.toConnect husers binder.identityMsg_isIdentity
  constructor
  · rintro ⟨p', r, hp', hr, hsame⟩
    by_contra hne
    obtain ⟨hasks, hearly⟩ := not_or.mp hne
    rw [Bool.not_eq_false] at hasks
    rw [hp] at hp'
    cases hp'
    have hout : q.bindEnd.self.outpipe ≠ none := by
      obtain ⟨a, n, hw⟩ := hacc.writes
      exact (congrArg PipeT.outpipe hw).trans_ne hx.outpipe
    rw [hfirst, hasks] at hr
    have hwrite : q.onBind (·.writeIdentity binder) = .ok r := hr
    obtain ⟨y, hy, hyr⟩ := onBind_ok hwrite
    have hi := hsame.toConnect
    rw [hpToConnect, hyr, setBindEnd, PipeEnd.writeIdentity_outpipe hout hy] at hi
    replace hi := hi.trans hbehind
    rw [hasks] at hi
    cases hc : connecter.conflates with
    | true =>
      rw [hc, shown, if_pos ⟨rfl, hearly⟩] at hi
      cases hi
    | false =>
      rw [hc, ] at hi
      have hlength : 0 = acc.length := congrArg Prod.snd (cons.inj hi).1
      exact hacc.first hx.checkWrite (mt map_eq_nil_iff.mp hearly) (eq_nil_of_length_eq_zero hlength.symm)
  · intro h
    cases hr : connecter.recvIdentity with
    | false =>
      refine ⟨p, q, hp, by rw [hfirst, hr]; rfl, halike q rfl rfl rfl ?_⟩
      rw [hlane, ← hkind, hr]
      exact shown_accepted hacc hx hwaits.toConnect (asked_isIdentity false binder) fun hk => hlimit (hkind ▸ hk)
    | true =>
      have he : early = [] := h.resolve_left (by rw [hr]; exact Bool.noConfusion)
      have hfresh : q.bindPipe.Fresh := by
        rw [hacc.idle (by rw [he]; rfl)]
        exact hx
      have hnil : acc = [] := by
        have := hacc.sublist
        rw [he] at this
        exact sublist_nil.mp this
      obtain ⟨cmds, hw⟩ := onBind_writeIdentity hfresh binder
      have hrun : connectFirst connecter binder sends early = .ok _ := (hfirst.trans (by rw [hr]; rfl)).trans hw
      refine ⟨p, _, hp, hrun, halike _ rfl rfl rfl ?_⟩
      refine hbehind.trans ?_
      rw [hnil, hr, he]
      cases connecter.conflates <;> rfl

/-- A ROUTER connects to a DEALER with `ZMQ_PROBE_ROUTER`. The probe comes first if the ROUTER has been first. -/
theorem orders_probe : ∃ p q, bindFirst { PeerOptions.new .router with recvIdentity := true } (.new .dealer) []
      [⟨Msg.init, by decide, by decide, by decide⟩] = .ok p ∧
    connectFirst { PeerOptions.new .router with recvIdentity := true } (.new .dealer) []
      [⟨Msg.init, by decide, by decide, by decide⟩] = .ok q ∧
    p.toConnect.identities.map (·.2) = [0] ∧ q.toConnect.identities.map (·.2) = [1] ∧ ¬Alike p q := by
  refine ⟨_, _, rfl, rfl, rfl, rfl, fun h => ?_⟩
  have hsame := congrArg (map (·.2)) h.toConnect
  exact absurd hsame (by decide)

end Zmq
