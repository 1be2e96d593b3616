import LibZmq.Ctx.Meeting

/-! Runs of inproc connects and binds. As long as no socket is sent so many commands that their counter overflows, each
connect whose name is bound meets one socket, and a socket that terminates waits for just the commands in flight. -/

namespace Zmq

open Function (update update_eq_self update_idem update_of_ne update_self)

universe u v w

namespace Inproc

variable {S : Type u} {N : Type v} {Q : Type w} [DecidableEq S] {s s' : Inproc S N Q}
    {o : InprocOptions} {p : PendingConnectionT S N Q} {e : EndpointT S} {l l' : List (PendingConnectionT S N Q)}
  {x y b c : S} {n : N} {q : Q}

theorem Counts.caught_up (h : s.Counts) : (s.sockets x).processedSeqnum = (s.sockets x).sentSeqnum.toUInt64 ↔ s.due x = 0 := by
  have hi := h.incs x
  have hs := h.counted x
  have hp := h.processed x
  rw [← UInt64.toNat_inj, UInt32.toNat_toUInt64]
  omega

omit [DecidableEq S] in
theorem Settled.same (h : (s.sockets x).terminating = true → ¬ s.Idle x) (hs : s'.sockets x = s.sockets x) :
    (s'.sockets x).terminating = true → ¬ s'.Idle x := by
  unfold Idle
  rw [hs]
  exact h

theorem Core.checked [DecidableEq Q] [DecidableEq N] (h : s.Core) (hothers : ∀ y ≠ x, s.destroyed y = false → (s.sockets y).terminating = true → ¬ s.Idle y)
    (hx : s.created x = true) : (s.checkTermAcks x).Sound := by
  by_cases hc : (s.sockets x).terminating = true ∧ s.Idle x
  · have hcheck : s.checkTermAcks x = { s with destroyed := update s.destroyed x true } := if_pos hc
    rw [hcheck]
    obtain ⟨hterm, hidle⟩ := hc
    have hdue := h.toCounts.caught_up.mp hidle.1
    have hne : ∀ y, (s.sockets y).terminating = false → y ≠ x := by
      rintro y hy rfl
      rw [hterm] at hy
      cases hy
    refine ⟨⟨⟨fun y hy => ?_, h.tag, fun m e he => ?_, fun y hy => ?_⟩, h.toConnects.same rfl rfl (fun _ => .inl rfl) rfl
        (fun _ _ _ => Iff.rfl) h.once rfl rfl,
      ⟨h.finders, h.incs, h.unborn, fun y hy => ?_, h.counted, h.processed, h.acks⟩, ⟨h.bounds.pending, h.bounds.binding⟩⟩,
      fun y hy => ?_⟩
    all_goals dsimp only at *
    · rcases eq_or_ne y x with rfl | hyx
      · exact ⟨hx, hterm⟩
      · rw [update_of_ne hyx] at hy
        exact h.destroyed y hy
    · obtain ⟨⟨hc, hd⟩, hrun⟩ := h.endpoints m e he
      exact ⟨⟨hc, (update_of_ne (hne _ hrun) _ _).trans hd⟩, hrun⟩
    · obtain ⟨⟨hc, hd⟩, htag⟩ := h.calls y hy
      exact ⟨⟨hc, (update_of_ne (hne _ (h.toLives.running hy)) _ _).trans hd⟩, htag⟩
    · rcases eq_or_ne y x with rfl | hyx
      · exact hdue
      · rw [update_of_ne hyx] at hy
        exact h.gone y hy
    · rcases eq_or_ne y x with rfl | hyx
      · rw [update_self] at hy
        cases hy
      · rw [update_of_ne hyx] at hy
        exact hothers y hyx hy
  · have hcheck : s.checkTermAcks x = s := if_neg hc
    rw [hcheck]
    refine ⟨h, fun y hy hterm hidle => ?_⟩
    rcases eq_or_ne y x with rfl | hyx
    · exact hc ⟨hterm, hidle⟩
    · exact hothers y hyx hy hterm hidle

theorem ok_bind {α β : Type u} {a : α} {f : α → Except InprocFault β} : (Except.ok a >>= f) = f a := rfl

theorem checkTermAcks_running (h : (s.sockets x).terminating = false) : s.checkTermAcks x = s := if_neg (by simp [h])

theorem incSeqnum_ok (h : s.Alive x) : s.incSeqnum x = .ok { s with
    sockets := update s.sockets x { s.sockets x with sentSeqnum := (s.sockets x).sentSeqnum + 1 }
    incs := update s.incs x (s.incs x + 1) } := if_pos h

omit [DecidableEq S] in
theorem sendCommand_ok {cmd : InprocCmd Q} (h : s.Alive y) :
    s.sendCommand x y cmd = .ok { s with flight := s.flight ++ [⟨x, y, cmd⟩] } := if_pos h

theorem sendBind_ok [DecidableEq Q] (h : s.Alive y) : s.sendBind x y q false =
    .ok { s with
      flight := s.flight ++ [⟨x, y, .bind q⟩]
      stage := update s.stage q (.sent y) } := by
  simp only [sendBind, Bool.false_eq_true, if_false, ok_bind, sendCommand_ok h]
  rfl

omit [DecidableEq S] in
theorem dropIdentity_ok [DecidableEq Q] (h : s.toBind q ≠ []) : ∃ l, s.dropIdentity o q = .ok { s with toBind := update s.toBind q l } := by
  unfold dropIdentity
  split_ifs
  · exact ⟨s.toBind q, by rw [update_eq_self]⟩
  · cases hb : s.toBind q with
    | nil => exact absurd hb h
    | cons id rest => exact ⟨rest, rfl⟩

omit [DecidableEq S] in
theorem sendIdentity_ok [DecidableEq Q] (h : s.Alive p.endpoint.socket) :
    ∃ l, s.sendIdentity o p = .ok { s with toConnect := update s.toConnect p.pipe l } := by
  unfold sendIdentity
  split_ifs
  · exact ⟨_, rfl⟩
  · exact ⟨s.toConnect p.pipe, by rw [update_eq_self]⟩
  · exact ⟨s.toConnect p.pipe, by rw [update_eq_self]⟩

theorem attachPipe_running (h : (s.sockets x).terminating = false) : s.attachPipe x = s.setSocket x (piped (s.sockets x)) := by
  simp [attachPipe, setSocket, piped, h]

theorem attachPipe_eq : s.attachPipe x = s.setSocket x (attachedTo (s.sockets x)) := by
  cases h : (s.sockets x).terminating <;> simp [attachPipe, setSocket, attachedTo, h]

theorem connectSide_ok [DecidableEq Q] (hb : s.Alive b) (hx : s.Alive p.endpoint.socket) (hp : s.toBind p.pipe ≠ []) :
    ∃ toBind toConnect, s.connectInprocSockets b o p .connectSide = .ok { s with
      sockets := update s.sockets b { s.sockets b with sentSeqnum := (s.sockets b).sentSeqnum + 1 }
      incs := update s.incs b (s.incs b + 1)
      toBind := update s.toBind p.pipe toBind
      toConnect := update s.toConnect p.pipe toConnect
      flight := s.flight ++ [⟨p.endpoint.socket, b, .bind p.pipe⟩]
      stage := update s.stage p.pipe (.sent b) } := by
  obtain ⟨s1, hs1⟩ : ∃ s1 : Inproc S N Q, s1 = { s with
      sockets := update s.sockets b { s.sockets b with sentSeqnum := (s.sockets b).sentSeqnum + 1 }
      incs := update s.incs b (s.incs b + 1) } := ⟨_, rfl⟩
  have hinc : s.incSeqnum b = .ok s1 := by rw [incSeqnum_ok hb, hs1]
  have hp1 : s1.toBind p.pipe ≠ [] := by rwa [hs1]
  have hb1 : s1.Alive b := by rwa [hs1]
  have hx1 : s1.Alive p.endpoint.socket := by rwa [hs1]
  obtain ⟨toBind, hdrop⟩ := dropIdentity_ok (o := o) hp1
  obtain ⟨s2, hs2⟩ : ∃ s2 : Inproc S N Q, s2 = { s1 with toBind := update s1.toBind p.pipe toBind } := ⟨_, rfl⟩
  rw [← hs2] at hdrop
  have hb2 : s2.Alive b := by rwa [hs2]
  obtain ⟨s3, hs3⟩ : ∃ s3 : Inproc S N Q, s3 = { s2 with
      flight := s2.flight ++ [⟨p.endpoint.socket, b, .bind p.pipe⟩]
      stage := update s2.stage p.pipe (.sent b) } := ⟨_, rfl⟩
  have hsend : s2.sendBind p.endpoint.socket b p.pipe false = .ok s3 := by rw [sendBind_ok hb2, hs3]
  have hx3 : s3.Alive p.endpoint.socket := by rw [hs3, hs2]; exact hx1
  obtain ⟨toConnect, hident⟩ := sendIdentity_ok (o := o) hx3
  refine ⟨toBind, toConnect, ?_⟩
  simp only [connectInprocSockets, hinc, hdrop, hsend, ok_bind, hident]
  rw [hs3, hs2, hs1]

theorem bindSide_ok [DecidableEq Q] (hb : s.Alive b)
    (hrun : (s.sockets b).terminating = false) (hx : s.Alive p.endpoint.socket) (hp : s.toBind p.pipe ≠ []) :
    ∃ toBind toConnect, s.connectInprocSockets b o p .bindSide = .ok (s.taking b p toBind toConnect) := by
  obtain ⟨s1, hs1⟩ : ∃ s1 : Inproc S N Q, s1 = { s with
      sockets := update s.sockets b { s.sockets b with sentSeqnum := (s.sockets b).sentSeqnum + 1 }
      incs := update s.incs b (s.incs b + 1) } := ⟨_, rfl⟩
  have hinc : s.incSeqnum b = .ok s1 := by rw [incSeqnum_ok hb, hs1]
  have hp1 : s1.toBind p.pipe ≠ [] := by rwa [hs1]
  obtain ⟨toBind, hdrop⟩ := dropIdentity_ok (o := o) hp1
  obtain ⟨s2, hs2⟩ : ∃ s2 : Inproc S N Q, s2 = { s1 with toBind := update s1.toBind p.pipe toBind } := ⟨_, rfl⟩
  rw [← hs2] at hdrop
  have hb2 : s2.Alive b := by rw [hs2, hs1]; exact hb
  have hobj : s2.sockets b = { s.sockets b with sentSeqnum := (s.sockets b).sentSeqnum + 1 } := by
    rw [hs2, hs1]
    exact update_self _ _ _
  obtain ⟨s3, hs3⟩ : ∃ s3 : Inproc S N Q, s3 = { s2 with
      sockets := update s2.sockets b { piped (s2.sockets b) with
        processedSeqnum := (s2.sockets b).processedSeqnum + 1 }
      handled := update s2.handled b (s2.handled b + 1)
      attached := update s2.attached p.pipe (s2.attached p.pipe ++ [b])
      stage := update s2.stage p.pipe (.attached b) } := ⟨_, rfl⟩
  have hprocess : s2.process b (.bind p.pipe) = .ok s3 := by
    have hbind : s2.processBind b p.pipe = { s2 with
        sockets := update s2.sockets b (piped (s2.sockets b))
        attached := update s2.attached p.pipe (s2.attached p.pipe ++ [b])
        stage := update s2.stage p.pipe (.attached b) } := by
      unfold processBind
      rw [attachPipe_running (by rw [hobj]; exact hrun)]
      rfl
    have hseq : (s2.processBind b p.pipe).processSeqnum b = s3 := by
      rw [hbind]
      unfold processSeqnum
      dsimp only
      rw [update_self, update_idem, checkTermAcks_running, hs3]
      · rfl
      · dsimp only
        rw [update_self, hobj]
        exact hrun
    unfold process
    rw [if_neg (not_not.mpr hb2)]
    dsimp only
    rw [hseq]
  have hx3 : s3.Alive p.endpoint.socket := by rw [hs3, hs2, hs1]; exact hx
  obtain ⟨s4, hs4⟩ : ∃ s4 : Inproc S N Q, s4 = { s3 with flight := s3.flight ++ [⟨b, p.endpoint.socket, .inprocConnected⟩] } := ⟨_, rfl⟩
  have hsend : s3.sendCommand b p.endpoint.socket .inprocConnected = .ok s4 := by rw [sendCommand_ok hx3, hs4]
  have hx4 : s4.Alive p.endpoint.socket := by rw [hs4]; exact hx3
  obtain ⟨toConnect, hident⟩ := sendIdentity_ok (o := o) hx4
  refine ⟨toBind, toConnect, ?_⟩
  simp only [connectInprocSockets, hinc, hdrop, hprocess, hsend, ok_bind, hident]
  rw [hs4, hs3, hobj, hs2, hs1]
  dsimp only
  rw [update_idem]
  rfl

theorem connectEach_ok [DecidableEq Q] [DecidableEq N] {l rest : List (PendingConnectionT S N Q)}
    (h : Core { s with pendingConnections := l ++ rest }) (he : s.endpoints n = some e)
    (hk : s.CountsTo e.socket l.length) :
    ∃ s', connectEach n e.socket l s = .ok s' ∧ Core { s' with pendingConnections := rest } ∧
      s'.pendingConnections = s.pendingConnections ∧ s'.calls = s.calls ∧ s'.destroyed = s.destroyed ∧
      (∀ q, s'.stage q = if q ∈ l.map (·.pipe) then .attached e.socket else s.stage q) ∧
      ∀ y ≠ e.socket, s'.sockets y = s.sockets y := by
  induction l generalizing s with
  | nil => exact ⟨s, rfl, h, rfl, rfl, rfl, fun q => by simp, fun _ _ => rfl⟩
  | cons p l ih =>
    obtain ⟨hb, hrun⟩ := h.endpoints n e he
    have hx : s.Alive p.endpoint.socket := by
      refine h.toCounts.alive (x := p.endpoint.socket) ?_
      unfold due
      rw [List.cons_append, List.countP_cons, if_pos (decide_eq_true rfl)]
      omega
    have hlen : (s.sockets e.socket).sentSeqnum.toNat + (l.length + 1) < 2 ^ 32 := hk
    obtain ⟨toBind, toConnect, hone⟩ := bindSide_ok (s := s) (o := e.options) hb hrun hx (h.carries p (by simp))
    have hcore : Core { s.taking e.socket p toBind toConnect with pendingConnections := l ++ rest } :=
      h.takes hb hrun (by unfold CountsTo; omega)
    have hsent : ((s.taking e.socket p toBind toConnect).sockets e.socket).sentSeqnum.toNat =
        (s.sockets e.socket).sentSeqnum.toNat + 1 := by
      unfold taking
      dsimp only
      rw [update_self]
      exact succ_count (by omega)
    obtain ⟨s', hrest, hcore', hpending, hcalls, hdestroyed, hstage, hothers⟩ := ih hcore he (by unfold CountsTo; omega)
    refine ⟨s', ?_, hcore', hpending, hcalls, hdestroyed, fun q => ?_, fun y hy => ?_⟩
    · unfold connectEach
      simp only [he, hone, ok_bind, hrest]
    · simp only [hstage, List.map_cons, List.mem_cons]
      by_cases hq : q ∈ l.map (·.pipe)
      · rw [if_pos hq, if_pos (.inr hq)]
      · rw [if_neg hq]
        unfold taking
        dsimp only
        rcases eq_or_ne q p.pipe with rfl | hne
        · rw [update_self, if_pos (.inl rfl)]
        · rw [update_of_ne hne, if_neg (not_or.mpr ⟨hne, hq⟩)]
    · rw [hothers y hy]
      exact update_of_ne hy _ _

omit [DecidableEq S] in
theorem Connects.perm (hl : l.Perm l')
    (h : Connects { s with pendingConnections := l }) : Connects { s with pendingConnections := l' } := by
  refine ⟨h.unused, h.lost, h.found, fun r => ?_, h.sent, h.attached, h.loser, h.finder,
    fun p hp => h.maker p (hl.mem_iff.mpr hp), h.sender, ?_, h.once, fun p hp => h.carries p (hl.mem_iff.mpr hp)⟩
  · exact (h.pending r).trans (hl.map _).mem_iff
  · exact (hl.map _).nodup_iff.mp h.nodup

theorem Core.perm (hl : l.Perm l') (h : Core { s with pendingConnections := l }) : Core { s with pendingConnections := l' } := by
  have hdue : ∀ y, due { s with pendingConnections := l' } y = due { s with pendingConnections := l } y := fun y => by
    unfold due
    rw [hl.countP_eq]
  refine ⟨⟨h.destroyed, h.tag, h.endpoints, h.calls⟩, h.toConnects.perm hl,
    ⟨h.finders, fun y => ?_, h.unborn, fun y hy => ?_, h.counted, h.processed,
    h.acks⟩, ⟨fun p hp => h.bounds.pending p (hl.mem_iff.mpr hp), h.bounds.binding⟩⟩
  · rw [hdue]
    exact h.incs y
  · rw [hdue]
    exact h.gone y hy

/-- No counter of commands is brought back to zero. -/
def Keeps [DecidableEq N] (s : Inproc S N Q) : Op S N Q → Prop
  | .find _ addr _ => ∀ e ∈ s.endpoints addr, s.CountsTo e.socket 1
  | .join x =>
    match s.calls x with
    | some (.lost addr _) =>
      match s.endpoints addr with
      | none => s.CountsTo x 1
      | some e => s.CountsTo e.socket 1
    | _ => True
  | .bound x =>
    match s.calls x with
    | some (.binding addr) => s.CountsTo x (s.pendingConnections.countP fun p => p.addr = addr)
    | _ => True
  | _ => True

instance [DecidableEq N] (s : Inproc S N Q) (op : Op S N Q) : Decidable (s.Keeps op) := by
  induction op using Op.casesOn with
  | find x n q =>
    unfold Keeps CountsTo
    infer_instance
  | join x =>
    unfold Keeps CountsTo
    dsimp only
    split
    · split <;> infer_instance
    · infer_instance
  | bound x =>
    unfold Keeps CountsTo
    dsimp only
    split <;> infer_instance
  | _ => exact .isTrue trivial

def advance [DecidableEq Q] [DecidableEq N] (s : Inproc S N Q) : Op S N Q → Q → ConnectStage S
  | .find _ n q => update s.stage q (match s.endpoints n with | none => .lost | some e => .found e.socket)
  | .join x =>
    match s.calls x with
    | some (.lost n q) => update s.stage q (match s.endpoints n with | none => .pending | some e => .sent e.socket)
    | some (.found q e) => update s.stage q (.sent e.socket)
    | _ => s.stage
  | .bound x =>
    match s.calls x with
    | some (.binding n) => fun q =>
      if q ∈ (s.pendingConnections.filter fun p => p.addr = n).map (·.pipe) then .attached x else s.stage q
    | _ => s.stage
  | .deliver x y =>
    match Packet.next x y s.flight with
    | some ⟨_, b, .bind q⟩ => update s.stage q (.attached b)
    | _ => s.stage
  | _ => s.stage

theorem running_settled (hx : (s'.sockets x).terminating = false) (hothers : ∀ y ≠ x, s'.sockets y = s.sockets y)
    (h : (s.sockets y).terminating = true → ¬ s.Idle y) : (s'.sockets y).terminating = true → ¬ s'.Idle y := by
  by_cases hyx : y = x
  · rw [hyx, hx]
    exact nofun
  · exact Settled.same h (hothers y hyx)

theorem find_bound [DecidableEq Q] [DecidableEq N] (he : s.endpoints n = some e) (halive : s.Alive e.socket) :
    s.run (.find x n q) = .ok (s.finding x n q e) := by
  simp only [run, Inproc.find, findEndpoint, he, incSeqnum_ok halive, ok_bind]
  rfl

theorem join_found [DecidableEq Q] [DecidableEq N] (hcall : s.calls x = some (.found q e)) (halive : s.Alive e.socket)
    (hrun : (s.sockets x).terminating = false) :
    ∃ toBind toConnect, s.run (.join x) = .ok (s.sending x q e.socket toBind toConnect) := by
  obtain ⟨toBind, hb⟩ : ∃ l, l = if e.options.recvIdentity then [(s.sockets x).options.identity] else [] := ⟨_, rfl⟩
  obtain ⟨toConnect, hc⟩ : ∃ l, l = if (s.sockets x).options.recvIdentity then [e.options.identity] else [] := ⟨_, rfl⟩
  obtain ⟨s1, hs1⟩ : ∃ s1 : Inproc S N Q, s1 = { s with
      toBind := update s.toBind q toBind
      toConnect := update s.toConnect q toConnect } := ⟨_, rfl⟩
  have halive1 : s1.Alive e.socket := by rwa [hs1]
  have hrun1 : (s1.sockets x).terminating = false := by rwa [hs1]
  have hjoin : s.run (.join x) = s1.sendBind x e.socket q false >>= fun s => .ok { s.attachPipe x with
      calls := update s.calls x none
      finders := update s.finders e.socket ((s.finders e.socket).erase x) } := by
    simp only [run, Inproc.join, hcall, ← hb, ← hc, ← hs1]
    rfl
  refine ⟨toBind, toConnect, ?_⟩
  rw [hjoin, sendBind_ok halive1, ok_bind, attachPipe_running (by exact hrun1), hs1]
  rfl

theorem Sound.find [DecidableEq Q] [DecidableEq N] (h : s.Sound) (hr : s.Ready (.find x n q)) (hk : s.Keeps (.find x n q)) :
    ∃ s', s.run (.find x n q) = .ok s' ∧ s'.Sound ∧ s'.stage = s.advance (.find x n q) := by
  obtain ⟨hx, hcall, hq⟩ := hr
  cases he : s.endpoints n with
  | none =>
    refine ⟨s.losing x n q, ?_, ⟨h.toCore.loses hx hcall hq, h.settled⟩, by simp only [advance, he]; rfl⟩
    simp only [run, Inproc.find, findEndpoint, he, ok_bind]
    rfl
  | some e =>
    obtain ⟨halive, hrun⟩ := h.endpoints n e he
    refine ⟨s.finding x n q e, find_bound he halive, ⟨h.toCore.finds hx hcall hq he (hk e he), fun y hy => ?_⟩,
      by simp only [advance, he]; rfl⟩
    rcases eq_or_ne y e.socket with rfl | hne
    · intro hterm
      rw [finding_socket, hrun] at hterm
      cases hterm
    · exact Settled.same (h.settled y hy) (finding_socket_ne hne)

theorem Sound.join [DecidableEq Q] [DecidableEq N] (h : s.Sound) (hk : s.Keeps (.join x)) :
    ∃ s', s.run (.join x) = .ok s' ∧ s'.Sound ∧ s'.stage = s.advance (.join x) := by
  cases hcall : s.calls x with
  | none => exact ⟨s, by simp only [run, Inproc.join, hcall], h, by simp only [advance, hcall]⟩
  | some k =>
    have hrun := h.toLives.running (x := x) (by rw [hcall]; simp)
    have hx := (h.calls x (by rw [hcall]; simp)).1
    cases k with
    | binding n => exact ⟨s, by simp only [run, Inproc.join, hcall], h, by simp only [advance, hcall]⟩
    | found q e =>
      have halive : s.Alive e.socket := h.toCounts.alive <| by
        have hin : x ∈ s.finders e.socket := (h.finders e.socket x).mpr (by rw [hcall]; rfl)
        have := Finset.card_pos.mpr ⟨x, hin⟩
        unfold due
        omega
      obtain ⟨toBind, toConnect, hjoin⟩ := join_found hcall halive hrun
      refine ⟨s.sending x q e.socket toBind toConnect, hjoin, ⟨h.toCore.sends hcall, fun y hy => ?_⟩,
        by simp only [advance, hcall]; rfl⟩
      refine running_settled (x := x) ?_ (fun z hz => sending_socket_ne hz) (h.settled y hy)
      rw [sending_socket]
      exact hrun
    | lost n q =>
      obtain ⟨o, ho⟩ : ∃ o, o = (s.sockets x).options := ⟨_, rfl⟩
      obtain ⟨s1, hs1⟩ : ∃ s1 : Inproc S N Q, s1 = { s with
          toBind := update s.toBind q [o.identity]
          toConnect := update s.toConnect q [] } := ⟨_, rfl⟩
      have hx1 : s1.Alive x := by rwa [hs1]
      have hjoin : s.run (.join x) = s1.pendConnection ⟨n, ⟨x, o⟩, q⟩ >>= fun s => .ok { s.attachPipe x with
          calls := update s.calls x none } := by
        simp only [run, Inproc.join, hcall, hs1, ho]
        rfl
      cases hn : s.endpoints n with
      | none =>
        have hk' : s.CountsTo x 1 := by simpa only [Keeps, hcall, hn] using hk
        have hn1 : s1.endpoints n = none := by rwa [hs1]
        refine ⟨s.pending x ⟨n, ⟨x, o⟩, q⟩ [o.identity] [], ?_,
          ⟨h.toCore.pends hcall hn (by simp) hk', fun y hy => ?_⟩, by simp only [advance, hcall, hn]; rfl⟩
        · rw [hjoin]
          unfold pendConnection
          simp only [hn1, incSeqnum_ok hx1, ok_bind, pure_bind]
          rw [attachPipe_running, hs1]
          · unfold setSocket pending
            dsimp only
            rw [update_self, update_idem]
          · dsimp only
            rw [update_self, hs1]
            exact hrun
        · refine running_settled (x := x) ?_ (fun z hz => update_of_ne hz _ _) (h.settled y hy)
          have hself : (s.pending x ⟨n, ⟨x, o⟩, q⟩ [o.identity] []).sockets x =
              piped { s.sockets x with sentSeqnum := (s.sockets x).sentSeqnum + 1 } := update_self _ _ _
          rw [hself]
          exact hrun
      | some e =>
        have hk' : s.CountsTo e.socket 1 := by simpa only [Keeps, hcall, hn] using hk
        have hn1 : s1.endpoints n = some e := by rwa [hs1]
        obtain ⟨halive, hrun'⟩ := h.endpoints n e hn
        have halive1 : s1.Alive e.socket := by rwa [hs1]
        obtain ⟨toBind, toConnect, hconnect⟩ := connectSide_ok (s := s1) (o := e.options) (p := ⟨n, ⟨x, o⟩, q⟩) halive1 hx1
          (by rw [hs1]; simp)
        refine ⟨s.catching x q e.socket toBind toConnect, ?_, ⟨h.toCore.catches hcall halive hk', fun y hy => ?_⟩,
          by simp only [advance, hcall, hn]; rfl⟩
        · rw [hjoin]
          unfold pendConnection
          simp only [hn1, hconnect, ok_bind]
          rw [attachPipe_running, hs1]
          · unfold setSocket catching
            dsimp only
            rw [update_idem, update_idem]
          · rw [socket_update SocketT.terminating (by rfl), hs1]
            exact hrun
        · have hfield : ∀ z, ((s.catching x q e.socket toBind toConnect).sockets z).terminating =
              (s.sockets z).terminating := fun z => by
            unfold catching
            rw [socket_update SocketT.terminating (by rfl), socket_update SocketT.terminating (by rfl)]
          by_cases hyx : y = x ∨ y = e.socket
          · rw [hfield]
            rcases hyx with rfl | rfl
            · rw [hrun]
              exact nofun
            · rw [hrun']
              exact nofun
          · rw [not_or] at hyx
            exact Settled.same (h.settled y hy)
              ((update_of_ne hyx.1 _ _).trans (update_of_ne hyx.2 _ _))

theorem Core.released [DecidableEq Q] [DecidableEq N] (h : s.Core) (hcall : s.calls x = some (.binding n)) (hp : ∀ p ∈ s.pendingConnections, p.addr ≠ n) :
    Core { s with calls := update s.calls x none } := by
  have hcalls : ∀ y ≠ x, update s.calls x none y = s.calls y := fun y hy => update_of_ne hy _ _
  refine ⟨h.toLives.same rfl rfl rfl (fun _ => rfl) (fun _ => rfl) fun y hy => ?_,
    h.toConnects.same rfl rfl (fun y => ?_) rfl (fun _ _ _ => Iff.rfl) h.once rfl rfl,
    ⟨h.toCounts.lost_finders hcalls (by rw [hcall]; rfl) (by dsimp only; rw [update_self]; rfl) rfl, h.incs, h.unborn,
      h.gone, h.counted, h.processed, h.acks⟩,
    ⟨fun p hin e he => ?_, fun b m hb => ?_⟩⟩
  all_goals dsimp only at *
  · refine h.calls y fun hnone => hy ?_
    rcases eq_or_ne y x with rfl | hyx
    · exact update_self _ _ _
    · rw [hcalls y hyx, hnone]
  · rcases eq_or_ne y x with rfl | hyx
    · exact .inr ⟨by rw [hcall]; rfl, by rw [update_self]; rfl⟩
    · exact .inl (hcalls y hyx)
  · have hb := h.bounds.pending p hin e he
    rw [hcalls]
    · exact hb
    · rintro rfl
      rw [hcall] at hb
      exact hp p hin (InprocCall.binding.inj (Option.some.inj hb)).symm
  · refine h.bounds.binding b m ?_
    rcases eq_or_ne b x with rfl | hbx
    · rw [update_self] at hb
      cases hb
    · rwa [hcalls b hbx] at hb

theorem Sound.bound [DecidableEq Q] [DecidableEq N] (h : s.Sound) (hk : s.Keeps (.bound x)) :
    ∃ s', s.run (.bound x) = .ok s' ∧ s'.Sound ∧ s'.stage = s.advance (.bound x) := by
  cases hcall : s.calls x with
  | none => exact ⟨s, by simp only [run, Inproc.bound, hcall], h, by simp only [advance, hcall]⟩
  | some k =>
    cases k with
    | lost n q | found q e => exact ⟨s, by simp only [run, Inproc.bound, hcall], h, by simp only [advance, hcall]⟩
    | binding n =>
      obtain ⟨l, hl⟩ : ∃ l, l = s.pendingConnections.filter fun p => p.addr = n := ⟨_, rfl⟩
      obtain ⟨rest, hrest⟩ : ∃ rest, rest = s.pendingConnections.filter fun p => p.addr ≠ n := ⟨_, rfl⟩
      have hperm : s.pendingConnections.Perm (l ++ rest) := by
        rw [hl, hrest]
        have := (List.filter_append_perm (fun p => decide (p.addr = n)) s.pendingConnections).symm
        simpa only [decide_not] using this
      obtain ⟨e, he, rfl⟩ := Option.map_eq_some_iff.mp (h.bounds.binding x n hcall)
      have hk' : s.CountsTo e.socket l.length := by
        rw [hl, ← List.countP_eq_length_filter]
        simpa only [Keeps, hcall] using hk
      obtain ⟨s1, heach, hcore, hpending, hcalls, hdestroyed, hstage, hothers⟩ :=
        connectEach_ok (Core.perm hperm h.toCore) he hk'
      have hcall1 : s1.calls e.socket = some (.binding n) := by rw [hcalls, hcall]
      refine ⟨{ s1 with
        pendingConnections := rest
        calls := update s1.calls e.socket none }, ?_,
        ⟨hcore.released hcall1 fun p hp => ?_, fun y hy => ?_⟩, funext fun q => ?_⟩
      · simp only [run, Inproc.bound, hcall, connectPending, ← hl, heach, ok_bind]
        rw [hrest, ← hpending]
        rfl
      · rw [hrest] at hp
        simpa using (List.mem_filter.mp hp).2
      · refine running_settled (x := e.socket) (hcore.toLives.running (x := e.socket) (by rw [hcall1]; simp)) hothers
          (h.settled y ?_)
        rwa [← hdestroyed]
      · simp only [advance, hcall, ← hl]
        exact hstage q

end Inproc

end Zmq
