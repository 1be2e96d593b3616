import LibZmq.Ctx.MeetOnce

/-! Sockets come and go while inproc connects and binds are made. As long as no socket is sent so many commands that
their counter overflows, each connect that asks the context while its name is bound meets that socket. -/

namespace Zmq

open List Option

open Function (update update_idem update_of_ne update_self)

universe u v w

namespace Inproc

variable {S : Type u} {N : Type v} {Q : Type w} [DecidableEq S] [DecidableEq N] [DecidableEq Q] {s s' : Inproc S N Q}
  {x y b c : S} {n : N} {q : Q} {op : Op S N Q}

omit [DecidableEq N] [DecidableEq Q] in
theorem Counts.kept {f : S → SocketT} (h : s.Counts) (hsent : ∀ y, (f y).sentSeqnum = (s.sockets y).sentSeqnum)
    (hprocessed : ∀ y, (f y).processedSeqnum = (s.sockets y).processedSeqnum) (hacks : ∀ y, (f y).Balanced) :
    Counts { s with sockets := f } := by
  refine ⟨h.finders, h.incs, h.unborn, h.gone, fun y => ?_, fun y => ?_, hacks⟩
  · rw [hsent]
    exact h.counted y
  · rw [hprocessed]
    exact h.processed y

omit [DecidableEq N] [DecidableEq Q] in
theorem Core.changes {o : SocketT} (h : s.Core) (hsent : o.sentSeqnum = (s.sockets x).sentSeqnum)
    (hprocessed : o.processedSeqnum = (s.sockets x).processedSeqnum) (hterm : o.terminating = (s.sockets x).terminating)
    (htag : o.tag = (s.sockets x).tag ∨ o.tag = false ∧ s.calls x = none) (hacks : o.Balanced) : (s.setSocket x o).Core := by
  have hfield : ∀ y, ((s.setSocket x o).sockets y).terminating = (s.sockets y).terminating :=
    socket_update SocketT.terminating hterm
  refine ⟨⟨fun y hy => ?_, fun y hy => ?_, fun m e he => ?_, fun y hy => ?_⟩,
    h.toConnects.same rfl rfl (fun _ => .inl rfl) rfl (fun _ _ _ => Iff.rfl) h.once rfl rfl,
    h.toCounts.kept (socket_update SocketT.sentSeqnum hsent) (socket_update SocketT.processedSeqnum hprocessed)
      (balanced_update h.acks hacks), ⟨h.bounds.pending, h.bounds.binding⟩⟩
  · rw [hfield]
    exact h.destroyed y hy
  · rw [hfield] at hy
    have hold := h.tag y hy
    rcases eq_or_ne y x with rfl | hyx
    · have hself : (s.setSocket y o).sockets y = o := update_self _ _ _
      rw [hself]
      rcases htag with htag | ⟨htag, -⟩
      · rw [htag, hold]
      · exact htag
    · have hne : (s.setSocket x o).sockets y = s.sockets y := update_of_ne hyx _ _
      rw [hne, hold]
  · rw [hfield]
    exact h.endpoints m e he
  · have hy' := h.calls y hy
    refine ⟨hy'.1, ?_⟩
    rcases eq_or_ne y x with rfl | hyx
    · have hself : (s.setSocket y o).sockets y = o := update_self _ _ _
      rw [hself]
      rcases htag with htag | ⟨-, hnone⟩
      · rw [htag]
        exact hy'.2
      · exact absurd hnone hy
    · have hne : (s.setSocket x o).sockets y = s.sockets y := update_of_ne hyx _ _
      rw [hne]
      exact hy'.2

omit [DecidableEq N] [DecidableEq Q] in
theorem Sound.changes {o : SocketT} (h : s.Sound) (hsent : o.sentSeqnum = (s.sockets x).sentSeqnum)
    (hprocessed : o.processedSeqnum = (s.sockets x).processedSeqnum) (hterm : o.terminating = (s.sockets x).terminating)
    (htag : o.tag = (s.sockets x).tag ∨ o.tag = false ∧ s.calls x = none) (hacks : o.termAcks = (s.sockets x).termAcks)
    (hpipes : o.pipes = (s.sockets x).pipes ∨ o.terminating = false) : (s.setSocket x o).Sound := by
  have hbalanced : o.Balanced := by
    have := h.acks x
    unfold SocketT.Balanced at this ⊢
    rw [hacks, this, hterm]
    rcases hpipes with hpipes | hpipes
    · rw [hpipes]
    · rw [hterm] at hpipes
      rw [hpipes]
      rfl
  refine ⟨h.toCore.changes hsent hprocessed hterm htag hbalanced, fun y hy => ?_⟩
  have hfield : ∀ {β : Type} (f : SocketT → β), f o = f (s.sockets x) →
      f ((s.setSocket x o).sockets y) = f (s.sockets y) := fun f hf => socket_update f hf y
  unfold Idle
  rw [hfield (·.terminating) hterm, hfield (·.processedSeqnum) hprocessed, hfield (·.sentSeqnum) hsent,
    hfield (·.termAcks) hacks]
  exact h.settled y hy

omit [DecidableEq N] [DecidableEq Q] in
theorem Sound.creates {o : InprocOptions} (h : s.Sound) (hx : s.created x = false) :
    Sound { s with
      sockets := update s.sockets x ⟨o, true, 0, 0, false, 0, 0⟩
      created := update s.created x true } := by
  have hborn : ∀ y, s.created y = true → y ≠ x := by
    rintro y hy rfl
    rw [hx] at hy
    cases hy
  have hsocket : ∀ y ≠ x, update s.sockets x ⟨o, true, 0, 0, false, 0, 0⟩ y = s.sockets y := fun y hy =>
    update_of_ne hy _ _
  have hcreated : ∀ y, s.created y = true → update s.created x true y = true := fun y hy => by
    rw [update_of_ne (hborn y hy), hy]
  have hincs := h.unborn x hx
  have hdue := h.incs x
  refine ⟨⟨⟨fun y hy => ?_, fun y hy => ?_, fun m e he => ?_, fun y hy => ?_⟩,
    h.toConnects.same rfl rfl (fun _ => .inl rfl) rfl (fun _ _ _ => Iff.rfl) h.once rfl rfl,
    ⟨h.finders, h.incs, fun y hy => ?_, h.gone, fun y => ?_, fun y => ?_, fun y => ?_⟩,
    ⟨h.bounds.pending, h.bounds.binding⟩⟩, fun y hy => ?_⟩
  all_goals dsimp only at *
  · obtain ⟨hc, ht⟩ := h.destroyed y hy
    rw [hsocket y (hborn y hc)]
    exact ⟨hcreated y hc, ht⟩
  · rcases eq_or_ne y x with rfl | hyx
    · rw [update_self] at hy
      cases hy
    · rw [hsocket y hyx] at hy ⊢
      exact h.tag y hy
  · obtain ⟨⟨hc, hd⟩, hrun⟩ := h.endpoints m e he
    rw [hsocket _ (hborn _ hc)]
    exact ⟨⟨hcreated _ hc, hd⟩, hrun⟩
  · obtain ⟨⟨hc, hd⟩, htag⟩ := h.calls y hy
    refine ⟨⟨hcreated _ hc, hd⟩, ?_⟩
    dsimp only
    rw [hsocket _ (hborn _ hc)]
    exact htag
  · rcases eq_or_ne y x with rfl | hyx
    · rw [update_self] at hy
      cases hy
    · rw [update_of_ne hyx] at hy
      exact h.unborn y hy
  · rcases eq_or_ne y x with rfl | hyx
    · rw [update_self, hincs]
      rfl
    · rw [hsocket y hyx]
      exact h.counted y
  · rcases eq_or_ne y x with rfl | hyx
    · rw [update_self]
      have : s.handled y = 0 := by omega
      rw [this]
      rfl
    · rw [hsocket y hyx]
      exact h.processed y
  · rcases eq_or_ne y x with rfl | hyx
    · rw [update_self]
      rfl
    · rw [hsocket y hyx]
      exact h.acks y
  · rcases eq_or_ne y x with rfl | hyx
    · rw [update_self]
      exact nofun
    · unfold Idle
      dsimp only
      rw [hsocket y hyx]
      exact h.settled y hy

omit [DecidableEq Q] in
theorem Sound.registers {o : InprocOptions} (h : s.Sound) (hx : s.Open x) (hcall : s.calls x = none)
    (hn : s.endpoints n = none) :
    Sound { s with
      endpoints := update s.endpoints n (some ⟨x, o⟩)
      calls := update s.calls x (some (.binding n)) } := by
  have hcalls : ∀ y ≠ x, update s.calls x (some (.binding n)) y = s.calls y := fun y hy =>
    update_of_ne hy _ _
  have hrun : (s.sockets x).terminating = false := by
    by_contra hterm
    have htag := h.tag x (by simpa using hterm)
    rw [hx.2] at htag
    cases htag
  refine ⟨⟨⟨h.destroyed, h.tag, fun m e he => ?_, fun y hy => ?_⟩,
    h.toConnects.same rfl rfl (fun y => ?_) rfl (fun _ _ _ => Iff.rfl) h.once rfl rfl,
    ⟨h.toCounts.lost_finders hcalls (by rw [hcall]; rfl) (by dsimp only; rw [update_self]; rfl) rfl, h.incs,
      h.unborn, h.gone, h.counted, h.processed, h.acks⟩, ⟨fun p hp e he => ?_, fun b m hb => ?_⟩⟩, h.settled⟩
  all_goals dsimp only at *
  · rcases eq_or_ne m n with rfl | hmn
    · rw [update_self] at he
      cases he
      exact ⟨hx.1, hrun⟩
    · rw [update_of_ne hmn] at he
      exact h.endpoints m e he
  · rcases eq_or_ne y x with rfl | hyx
    · exact hx
    · rw [hcalls y hyx] at hy
      exact h.calls y hy
  · rcases eq_or_ne y x with rfl | hyx
    · rw [hcall, update_self]
      exact .inr ⟨rfl, rfl⟩
    · exact .inl (hcalls y hyx)
  · rcases eq_or_ne p.addr n with hpn | hpn
    · rw [hpn, update_self] at he
      cases he
      rw [update_self, hpn]
    · rw [update_of_ne hpn] at he
      have hb := h.bounds.pending p hp e he
      rw [hcalls]
      · exact hb
      · intro hex
        rw [hex, hcall] at hb
        cases hb
  · rcases eq_or_ne b x with rfl | hbx
    · rw [update_self] at hb
      obtain rfl := InprocCall.binding.inj (some.inj hb)
      rw [update_self]
      rfl
    · rw [hcalls b hbx] at hb
      have hm := h.bounds.binding b m hb
      have hmn : m ≠ n := by
        rintro rfl
        rw [hn] at hm
        cases hm
      rwa [update_of_ne hmn]

omit [DecidableEq N] [DecidableEq Q] in
theorem Core.unbinds {f : N → Option (EndpointT S)} (h : s.Core) (hcall : s.calls x = none)
    (hf : ∀ m, f m = s.endpoints m ∨ f m = none ∧ (s.endpoints m).map (·.socket) = some x) : Core { s with endpoints := f } := by
  have hkept : ∀ m e, f m = some e → s.endpoints m = some e := fun m e he => by
    rcases hf m with hm | ⟨hm, -⟩
    · rw [← hm, he]
    · rw [hm] at he
      cases he
  refine ⟨⟨h.destroyed, h.tag, fun m e he => h.endpoints m e (hkept m e he), h.calls⟩,
    h.toConnects.same rfl rfl (fun _ => .inl rfl) rfl (fun _ _ _ => Iff.rfl) h.once rfl rfl,
    ⟨h.finders, h.incs, h.unborn, h.gone, h.counted, h.processed, h.acks⟩,
    ⟨fun p hp e he => h.bounds.pending p hp e (hkept _ e he), fun b m hb => ?_⟩⟩
  dsimp only at *
  rcases hf m with hm | ⟨-, hm⟩
  · rw [hm]
    exact h.bounds.binding b m hb
  · have hbound := h.bounds.binding b m hb
    rw [hm] at hbound
    rw [← some.inj hbound, hcall] at hb
    cases hb

omit [DecidableEq N] [DecidableEq Q] in
theorem Core.terminates (h : s.Core) (hx : s.Alive x) (htag : (s.sockets x).tag = false)
    (hrun : (s.sockets x).terminating = false) (hends : ∀ m, (s.endpoints m).map (·.socket) ≠ some x) :
    (s.setSocket x { s.sockets x with
      termAcks := (s.sockets x).termAcks + (s.sockets x).pipes, terminating := true }).Core := by
  obtain ⟨o, ho⟩ : ∃ o, o = { s.sockets x with
    termAcks := (s.sockets x).termAcks + (s.sockets x).pipes, terminating := true } := ⟨_, rfl⟩
  have hself : (s.setSocket x o).sockets x = o := update_self _ _ _
  have hne : ∀ y ≠ x, (s.setSocket x o).sockets y = s.sockets y := fun y hy => update_of_ne hy _ _
  have hbalanced : o.Balanced := by
    have := h.acks x
    unfold SocketT.Balanced at this ⊢
    rw [hrun] at this
    rw [ho]
    rw [this]
    simp
  rw [← ho]
  refine ⟨⟨fun y hy => ?_, fun y hy => ?_, fun m e he => ?_, fun y hy => ?_⟩,
    h.toConnects.same rfl rfl (fun _ => .inl rfl) rfl (fun _ _ _ => Iff.rfl) h.once rfl rfl,
    h.toCounts.kept (socket_update SocketT.sentSeqnum (by rw [ho])) (socket_update SocketT.processedSeqnum (by rw [ho]))
      (balanced_update h.acks hbalanced), ⟨h.bounds.pending, h.bounds.binding⟩⟩
  · rcases eq_or_ne y x with rfl | hyx
    · exact absurd (hx.2.symm.trans hy) (by simp)
    · rw [hne y hyx]
      exact h.destroyed y hy
  · rcases eq_or_ne y x with rfl | hyx
    · rw [hself, ho]
      exact htag
    · rw [hne y hyx] at hy ⊢
      exact h.tag y hy
  · have hex : e.socket ≠ x := fun hex => hends m (by
      have he' : s.endpoints m = some e := he
      rw [he', ← hex]
      rfl)
    rw [hne _ hex]
    exact h.endpoints m e he
  · obtain ⟨halive, ht⟩ := h.calls y hy
    have hyx : y ≠ x := by
      rintro rfl
      rw [htag] at ht
      cases ht
    exact ⟨halive, by rw [hne y hyx]; exact ht⟩

theorem Sound.reap (h : s.Sound) (hr : s.Ready (.reap x)) : ∃ s', s.run (.reap x) = .ok s' ∧ s'.Sound ∧ s'.stage = s.stage := by
  obtain ⟨hx, htag, hrun⟩ := hr
  have hcall : s.calls x = none := by
    by_contra hcall
    rw [(h.calls x hcall).2] at htag
    cases htag
  obtain ⟨s1, hs1⟩ : ∃ s1, s1 = s.unregisterEndpoints x := ⟨_, rfl⟩
  have hf : ∀ m, s1.endpoints m = if (s.endpoints m).map (·.socket) = some x then none else s.endpoints m := fun m => by
    rw [hs1]
    rfl
  have hcore : s1.Core := by
    have := h.toCore.unbinds hcall (f := s1.endpoints) fun m => by
      rw [hf]
      by_cases hm : (s.endpoints m).map (·.socket) = some x
      · rw [if_pos hm]
        exact .inr ⟨rfl, hm⟩
      · rw [if_neg hm]
        exact .inl rfl
    rwa [hs1] at this ⊢
  have hends : ∀ m, (s1.endpoints m).map (·.socket) ≠ some x := fun m => by
    rw [hf]
    by_cases hm : (s.endpoints m).map (·.socket) = some x
    · rw [if_pos hm]
      simp
    · rwa [if_neg hm]
  have hx1 : s1.Alive x := by rwa [hs1]
  have hterm := hcore.terminates hx1 (by rwa [hs1]) (by rwa [hs1]) hends
  refine ⟨_, rfl, ?_, ?_⟩
  · unfold processTerm
    rw [← hs1]
    refine hterm.checked (fun y hy hdestroyed hstops => ?_) hx1.1
    have hne : ∀ o, (s1.setSocket x o).sockets y = s1.sockets y := fun o => update_of_ne hy _ _
    unfold Idle
    rw [hne] at hstops ⊢
    rw [hs1] at hstops hdestroyed ⊢
    exact h.settled y hdestroyed hstops
  · unfold processTerm checkTermAcks
    dsimp only
    split_ifs <;> rfl

theorem Sound.pipeTerminated (h : s.Sound) (hr : s.Ready (.pipeTerminated x)) :
    ∃ s', s.run (.pipeTerminated x) = .ok s' ∧ s'.Sound ∧ s'.stage = s.stage := by
  obtain ⟨hx, hpipes⟩ := hr
  have hacks := h.acks x
  unfold SocketT.Balanced at hacks
  obtain ⟨o, ho⟩ : ∃ o, o = { s.sockets x with pipes := (s.sockets x).pipes - 1 } := ⟨_, rfl⟩
  have hself : (s.setSocket x o).sockets x = o := update_self _ _ _
  have hrun : s.run (.pipeTerminated x) = if ((s.setSocket x o).sockets x).terminating then
      (s.setSocket x o).unregisterTermAck x else .ok (s.setSocket x o) := by
    rw [ho]
    rfl
  rw [hself] at hrun
  have hfield : o.terminating = (s.sockets x).terminating := by rw [ho]
  cases hterm : (s.sockets x).terminating with
  | false =>
    refine ⟨s.setSocket x o, ?_, ?_, rfl⟩
    · rw [hrun, hfield, hterm]
      rfl
    · subst ho
      exact h.changes rfl rfl rfl (.inl rfl) rfl (.inr hterm)
  | true =>
    obtain ⟨o', ho'⟩ : ∃ o', o' = { o with termAcks := o.termAcks - 1 } := ⟨_, rfl⟩
    rw [hterm, if_pos rfl] at hacks
    have hbalanced : o'.Balanced := by
      unfold SocketT.Balanced
      rw [ho', ho]
      dsimp only
      rw [hterm, if_pos rfl]
      omega
    have hcore : (s.setSocket x o').Core := by
      refine h.toCore.changes ?_ ?_ ?_ (.inl ?_) hbalanced
      all_goals rw [ho', ho]
    refine ⟨(s.setSocket x o').checkTermAcks x, ?_, hcore.checked (fun y hy hdestroyed hstops => ?_) hx.1, ?_⟩
    · have hpos : ¬ o.termAcks ≤ 0 := by
        rw [ho]
        dsimp only
        omega
      have hset : (s.setSocket x o).setSocket x o' = s.setSocket x o' := by
        unfold setSocket
        rw [update_idem]
      rw [hrun, hfield, hterm, if_pos rfl]
      unfold unregisterTermAck
      rw [hself, if_neg hpos, ← ho', hset]
    · have hne : (s.setSocket x o').sockets y = s.sockets y := update_of_ne hy _ _
      unfold Idle
      rw [hne] at hstops ⊢
      exact h.settled y hdestroyed hstops
    · unfold checkTermAcks
      split_ifs <;> rfl

theorem Sound.deliver (h : s.Sound) : ∃ s', s.run (.deliver x y) = .ok s' ∧ s'.Sound ∧ s'.stage = s.advance (.deliver x y) := by
  cases hm : Packet.next x y s.flight with
  | none => exact ⟨s, by simp only [run, hm], h, by simp only [advance, hm]⟩
  | some m =>
    obtain ⟨older, newer, hf, hrest, -, -, -⟩ := Packet.next_spec hm
    obtain ⟨halive, -, -⟩ := h.toCounts.arrives hf
    obtain ⟨c, b, cmd⟩ := m
    have hothers : ∀ (t : Inproc S N Q), (∀ z ≠ b, t.sockets z = s.sockets z) → t.destroyed = s.destroyed →
        ∀ z ≠ b, t.destroyed z = false → (t.sockets z).terminating = true → ¬ t.Idle z :=
        fun t hsame hdestroyed z hz hd hstops => by
      unfold Idle
      rw [hsame z hz] at hstops ⊢
      rw [hdestroyed] at hd
      exact h.settled z hd hstops
    cases cmd with
    | inprocConnected =>
      have hcore := h.toCore.connected hf rfl
      refine ⟨_, ?_, hcore.checked (hothers _ (fun z hz => update_of_ne hz _ _) rfl) halive.1, ?_⟩
      · simp only [run, hm, hrest]
        unfold process
        rw [if_neg (not_not.mpr (by exact halive))]
        rfl
      · simp only [advance, hm]
        unfold checkTermAcks
        split_ifs <;> rfl
    | bind q =>
      have hcore := h.toCore.attaches hf
      refine ⟨_, ?_, hcore.checked (hothers _ (fun z hz => update_of_ne hz _ _) rfl) halive.1, ?_⟩
      · simp only [run, hm, hrest]
        unfold process
        rw [if_neg (not_not.mpr (by exact halive))]
        unfold processSeqnum processBind
        rw [attachPipe_eq]
        unfold setSocket
        dsimp only
        rw [update_self, update_idem]
        rfl
      · simp only [advance, hm]
        unfold checkTermAcks
        split_ifs <;> rfl

theorem Sound.runs (h : s.Sound) (hr : s.Ready op) (hk : s.Keeps op) :
    ∃ s', s.run op = .ok s' ∧ s'.Sound ∧ s'.stage = s.advance op := by
  cases op with
  | create x o => exact ⟨_, rfl, h.creates hr, rfl⟩
  | setOptions x o => exact ⟨_, rfl, h.changes rfl rfl rfl (.inl rfl) rfl (.inl rfl), rfl⟩
  | find x n q => exact h.find hr hk
  | join x => exact h.join hk
  | register x n =>
    refine ⟨_, rfl, ?_⟩
    unfold register registerEndpoint
    cases hn : s.endpoints n with
    | none => exact ⟨h.registers hr.1 hr.2 hn, rfl⟩
    | some e => exact ⟨h, rfl⟩
  | bound x => exact h.bound hk
  | unregister x n =>
    refine ⟨_, rfl, ?_⟩
    unfold unregisterEndpoint
    by_cases hn : (s.endpoints n).map (·.socket) = some x
    · rw [if_pos hn]
      refine ⟨⟨h.toCore.unbinds hr.2 fun m => ?_, h.settled⟩, rfl⟩
      rcases eq_or_ne m n with rfl | hmn
      · rw [update_self]
        exact .inr ⟨rfl, hn⟩
      · exact .inl (update_of_ne hmn _ _)
    · rw [if_neg hn]
      exact ⟨h, rfl⟩
  | close x => exact ⟨_, rfl, h.changes rfl rfl rfl (.inr ⟨rfl, hr.2⟩) rfl (.inl rfl), rfl⟩
  | reap x => exact h.reap hr
  | pipeTerminated x => exact h.pipeTerminated hr
  | deliver x y => exact h.deliver

omit [DecidableEq N] [DecidableEq Q] in
theorem Sound.start : (empty : Inproc S N Q).Sound := by
  refine ⟨⟨⟨fun y hy => (by cases hy), fun y hy => (by cases hy), fun m e he => (by cases he), fun y hy => absurd rfl hy⟩,
    ⟨fun q => ⟨fun _ => rfl, fun _ => rfl⟩, fun q c n hq => (by cases hq), fun q c n b hq => (by cases hq),
      fun q => ⟨nofun, fun hc => nomatch hc⟩, fun q c n b hq => (by cases hq),
      fun q => rfl, fun c n q hc => (by cases hc), fun c q b hc => (by cases hc), nofun,
      fun c b q hc => (nomatch hc), nodup_nil, nodup_nil, nofun⟩,
    ⟨fun b c => ⟨fun hc => absurd hc (Finset.notMem_empty c), nofun⟩, fun y => rfl, fun y _ => rfl,
      fun y hy => (by cases hy), fun y => rfl, fun y => rfl, fun y => rfl⟩,
    ⟨nofun, fun b m hb => (by cases hb)⟩⟩, fun y _ hy => (by cases hy)⟩

theorem sound {ops : List (Op S N Q)} (h : Run Start (Guarded Keeps Step) ops s) : s.Sound := by
  refine h.invariant Sound (fun s hs => ?_) fun s op s' hsound hstep => ?_
  · obtain rfl : s = empty := hs
    exact Sound.start
  · obtain ⟨hk, hr, hop⟩ := hstep
    obtain ⟨s1, hs1, hsound', -⟩ := hsound.runs hr hk
    rw [hs1] at hop
    cases hop
    exact hsound'

/-- What becomes of the connects, and what the sockets have counted. -/
structure MeetsOnce (s : Inproc S N Q) : Prop where
  /-- Who has not met anybody is about to ask the context, or is pending. The name is not bound then, unless the socket
  that has bound it is about to take up the connect. -/
  unmet : ∀ q c n, s.made q = some (c, n) → (s.stage q).peer = none → s.attached q = [] ∧
    (s.calls c = some (.lost n q) ∨ (∃ o, ⟨n, ⟨c, o⟩, q⟩ ∈ s.pendingConnections) ∧
      ∀ e, s.endpoints n = some e → s.calls e.socket = some (.binding n))
  /-- `bind` is to be sent, in flight or processed, once, and attaches the pipe to the socket that has been met. -/
  met : ∀ q c n b, s.made q = some (c, n) → (s.stage q).peer = some b →
    (if meets (s.calls c) = some (q, b) then 1 else 0) + (s.flight.filterMap bindPipe).count q + (s.attached q).length = 1 ∧
    (∀ a ∈ s.attached q, a = b) ∧ ∀ d a, ⟨d, a, .bind q⟩ ∈ s.flight → d = c ∧ a = b
  counted : ∀ x, s.incs x = s.handled x + s.due x
  /-- A socket that terminates waits for its pipes and for the commands that it is yet to process. -/
  waits : ∀ x, (s.sockets x).terminating = true → s.destroyed x = false → 0 < s.due x ∨ 0 < (s.sockets x).pipes
  gone : ∀ x, s.destroyed x = true → s.due x = 0

omit [DecidableEq N] in
theorem Sound.meetsOnce (h : s.Sound) : s.MeetsOnce := by
  refine ⟨fun q c n hq hp => ⟨?_, ?_⟩, fun q c n b hq hp => ?_, h.incs, fun x hterm hx => ?_, h.gone⟩
  · rw [h.attached]
    cases hst : s.stage q <;> simp_all [ConnectStage.peer, ConnectStage.owners]
  · cases hst : s.stage q with
    | unused =>
      rw [(h.unused q).mp hst] at hq
      cases hq
    | lost => exact .inl ((h.lost q c n hq).mp hst)
    | pending =>
      obtain ⟨p, hin, rfl⟩ := mem_map.mp ((h.toConnects.pending q).mp hst)
      have hmade := h.maker p hin
      rw [hq] at hmade
      cases hmade
      exact .inr ⟨⟨p.endpoint.options, hin⟩, h.bounds.pending p hin⟩
    | _ =>
      rw [hst] at hp
      cases hp
  · have hflight : ∀ d a, ⟨d, a, .bind q⟩ ∈ s.flight → d = c ∧ s.stage q = .sent a := fun d a hin => by
      have hd := h.sender d a q hin
      rw [hq] at hd
      cases hd
      exact ⟨rfl, (h.sent q c n a hq).mpr hin⟩
    have hsent : (s.flight.filterMap bindPipe).count q = if s.stage q = .sent b then 1 else 0 := by
      by_cases hst : s.stage q = .sent b
      · rw [if_pos hst]
        exact count_eq_one_of_mem h.once (mem_binds.mpr ⟨c, b, (h.sent q c n b hq).mp hst⟩)
      · rw [if_neg hst]
        refine count_eq_zero.mpr fun hin => ?_
        obtain ⟨d, a, hin⟩ := mem_binds.mp hin
        have ha := (hflight d a hin).2
        rw [ha] at hp
        cases hp
        exact hst ha
    have hmet : meets (s.calls c) = some (q, b) ↔ s.stage q = .found b := (h.found q c n b hq).symm
    refine ⟨?_, fun a ha => ?_, fun d a hin => ?_⟩
    · simp only [hsent, hmet, h.attached]
      cases hst : s.stage q <;> simp_all [ConnectStage.peer, ConnectStage.owners]
    · rw [h.attached] at ha
      cases hst : s.stage q <;> simp_all [ConnectStage.peer, ConnectStage.owners]
    · obtain ⟨hd, ha⟩ := hflight d a hin
      rw [ha] at hp
      exact ⟨hd, some.inj hp⟩
  · have hidle := h.settled x hx hterm
    unfold Idle at hidle
    rw [h.toCounts.caught_up, h.acks x] at hidle
    omega

/-- What one step does for the connects. -/
structure Joins (s : Inproc S N Q) (op : Op S N Q) (s' : Inproc S N Q) : Prop where
  stage : s'.stage = s.advance op
  kept : ∀ q b, (s.stage q).peer = some b → (s'.stage q).peer = some b
  /-- A connect meets only who has bound its name. -/
  bound : ∀ q b, (s.stage q).peer = none → (s'.stage q).peer = some b → ∃ c n,
    (s.made q = some (c, n) ∨ op = .find c n q) ∧ (s.endpoints n).map (·.socket) = some b

theorem Sound.joins (h : s.Sound) (hr : s.Ready op) (hs : s'.stage = s.advance op) : s.Joins op s' := by
  have hupdate : ∀ (q : Q) (st : ConnectStage S), s'.stage = update s.stage q st →
      (∀ b, (s.stage q).peer = some b → st.peer = some b) → (∀ b, (s.stage q).peer = none → st.peer = some b → ∃ c n,
        (s.made q = some (c, n) ∨ op = .find c n q) ∧ (s.endpoints n).map (·.socket) = some b) → s.Joins op s' :=
      fun q st hst hkept hbound => by
    refine ⟨hs, fun r b hr => ?_, fun r b hr hr' => ?_⟩
    · rw [hst]
      rcases eq_or_ne r q with rfl | hrq
      · rw [update_self]
        exact hkept b hr
      · rwa [update_of_ne hrq]
    · rw [hst] at hr'
      rcases eq_or_ne r q with rfl | hrq
      · rw [update_self] at hr'
        exact hbound b hr hr'
      · rw [update_of_ne hrq, hr] at hr'
        cases hr'
  have hsame : s'.stage = s.stage → s.Joins op s' := fun hst => by
    refine ⟨hs, fun r b hr => ?_, fun r b hr hr' => ?_⟩
    · rwa [hst]
    · rw [hst, hr] at hr'
      cases hr'
  cases op with
  | find x n q =>
    have hst := (h.unused q).mpr hr.2.2
    refine hupdate q _ hs (fun b hb => ?_) fun b _ hb => ⟨x, n, .inr rfl, ?_⟩
    · rw [hst] at hb
      cases hb
    · cases he : s.endpoints n with
      | none =>
        rw [he] at hb
        cases hb
      | some e =>
        rw [he] at hb
        exact hb
  | join x =>
    cases hcall : s.calls x with
    | none => exact hsame (by simpa only [advance, hcall] using hs)
    | some k =>
      cases k with
      | binding n => exact hsame (by simpa only [advance, hcall] using hs)
      | found q e =>
        have hs' : s'.stage = update s.stage q (.sent e.socket) := by simpa only [advance, hcall] using hs
        have hmeets : meets (s.calls x) = some (q, e.socket) := by rw [hcall]; rfl
        obtain ⟨⟨c, n⟩, hq, rfl⟩ := map_eq_some_iff.mp (h.finder x q e.socket hmeets)
        have hst := (h.found q c n e.socket hq).mpr hmeets
        refine hupdate q _ hs' (fun b hb => ?_) fun b hb => ?_
        · rwa [hst] at hb
        · rw [hst] at hb
          cases hb
      | lost n q =>
        have hq := h.loser x n q hcall
        have hst := (h.lost q x n hq).mpr hcall
        have hnone : ∀ b, (s.stage q).peer ≠ some b := fun b hb => by
          rw [hst] at hb
          cases hb
        cases he : s.endpoints n with
        | none =>
          have hs' : s'.stage = update s.stage q .pending := by simpa only [advance, hcall, he] using hs
          exact hupdate q _ hs' (fun b hb => absurd hb (hnone b)) fun b _ hb => (by cases hb)
        | some e =>
          have hs' : s'.stage = update s.stage q (.sent e.socket) := by simpa only [advance, hcall, he] using hs
          refine hupdate q _ hs' (fun b hb => absurd hb (hnone b)) fun b _ hb => ⟨x, n, .inl hq, ?_⟩
          rw [he]
          exact hb
  | bound x =>
    cases hcall : s.calls x with
    | none => exact hsame (by simpa only [advance, hcall] using hs)
    | some k =>
      cases k with
      | lost n q | found q e => exact hsame (by simpa only [advance, hcall] using hs)
      | binding n =>
        have hs' : ∀ q, s'.stage q =
            if q ∈ (s.pendingConnections.filter fun p => p.addr = n).map (·.pipe) then .attached x else s.stage q :=
          fun q => by rw [hs]; simp only [advance, hcall]
        have hpending : ∀ q, q ∈ (s.pendingConnections.filter fun p => p.addr = n).map (·.pipe) →
            s.stage q = .pending ∧ ∃ c, s.made q = some (c, n) := fun q hq => by
          obtain ⟨p, hp, rfl⟩ := mem_map.mp hq
          obtain ⟨hin, hn⟩ := mem_filter.mp hp
          have hmade := h.maker p hin
          rw [of_decide_eq_true hn] at hmade
          exact ⟨(h.toConnects.pending _).mpr (mem_map_of_mem hin), _, hmade⟩
        refine ⟨hs, fun r b hr => ?_, fun r b hr hr' => ?_⟩
        · rw [hs']
          by_cases hq : r ∈ (s.pendingConnections.filter fun p => p.addr = n).map (·.pipe)
          · rw [(hpending r hq).1] at hr
            cases hr
          · rwa [if_neg hq]
        · rw [hs'] at hr'
          by_cases hq : r ∈ (s.pendingConnections.filter fun p => p.addr = n).map (·.pipe)
          · obtain ⟨-, c, hc⟩ := hpending r hq
            rw [if_pos hq] at hr'
            cases hr'
            exact ⟨c, n, .inl hc, h.bounds.binding x n hcall⟩
          · rw [if_neg hq, hr] at hr'
            cases hr'
  | deliver x y =>
    cases hm : Packet.next x y s.flight with
    | none => exact hsame (by simpa only [advance, hm] using hs)
    | some m =>
      obtain ⟨older, newer, hf, -, -, -, -⟩ := Packet.next_spec hm
      obtain ⟨c, b, cmd⟩ := m
      cases cmd with
      | inprocConnected => exact hsame (by simpa only [advance, hm] using hs)
      | bind q =>
        have hs' : s'.stage = update s.stage q (.attached b) := by simpa only [advance, hm] using hs
        have hin : ⟨c, b, .bind q⟩ ∈ s.flight := by rw [hf]; simp
        obtain ⟨⟨c', n⟩, hq, rfl⟩ := map_eq_some_iff.mp (h.sender c b q hin)
        have hst := (h.sent q c' n b hq).mpr hin
        refine hupdate q _ hs' (fun a ha => ?_) fun a ha => ?_
        · rwa [hst] at ha
        · rw [hst] at ha
          cases ha
  | _ => exact hsame hs

/-- Each connect that asks the context while its name is bound meets that socket and no other, its pipe is attached once,
each socket has counted just the commands that it is to process, and nothing fails. -/
theorem meets_once {ops : List (Op S N Q)} (h : Run Start (Guarded Keeps Step) ops s) :
    s.MeetsOnce ∧ ∀ op, s.Ready op → s.Keeps op → ∃ s', s.run op = .ok s' ∧ s.Joins op s' := by
  have hs := sound h
  refine ⟨hs.meetsOnce, fun op hr hk => ?_⟩
  obtain ⟨s', hrun, -, hstage⟩ := hs.runs hr hk
  exact ⟨s', hrun, hs.joins hr hstage⟩

/-- One connect is made before the name is bound and one later. -/
theorem meets_once_two : ∃ s : Inproc (Fin 3) Unit ℕ, (s.attached 0, s.attached 1, s.incs 2, s.handled 2) = ([2], [2], 2, 2) ∧
    s.MeetsOnce := by
  obtain ⟨s, hs, hf⟩ : ∃ s : Inproc (Fin 3) Unit ℕ, Run Start (Guarded Keeps Step)
      [.create 0 ⟨false, []⟩, .create 1 ⟨false, []⟩, .create 2 ⟨true, []⟩, .find 0 () 0, .join 0, .register 2 (), .find 1 () 1,
        .bound 2, .join 1, .deliver 1 2, .deliver 2 0] s ∧
      (s.attached 0, s.attached 1, s.incs 2, s.handled 2) = ([2], [2], 2, 2) := by
    refine run_of_play rfl ?_
    decide
  exact ⟨s, hf, (meets_once hs).1⟩

/-! A socket to which so many connects are made that its counter is back at zero. -/

omit [DecidableEq N] [DecidableEq Q] in
theorem setSocket_self {o : SocketT} : (s.setSocket x o).sockets x = o := update_self _ _ _

/-- One socket has bound a name to which another one connects over and over. -/
def overAndOver (n : ℕ) : List (Op Bool Unit ℕ) :=
  [.create true ⟨false, []⟩, .create false ⟨false, []⟩, .register true (), .bound true] ++
    (range n).flatMap fun q => [.find false () q, .join false]

theorem over_and_over (n : ℕ) : ∃ s : Inproc Bool Unit ℕ, Run Start Step (overAndOver n) s ∧
    s.sockets true = ⟨⟨false, []⟩, true, UInt32.ofNat n, 0, false, 0, 0⟩ ∧ (∀ x, s.Open x) ∧
    (s.sockets false).terminating = false ∧ (∀ x, s.calls x = none) ∧
    (s.endpoints ()).map (·.socket) = some true ∧ (∀ q, n ≤ q → s.made q = none) ∧
    (0 < n → ⟨false, true, .bind 0⟩ ∈ s.flight) := by
  induction n with
  | zero =>
    have hplay : play Ready run free (empty : Inproc Bool Unit ℕ) (overAndOver 0) = some _ := rfl
    have hstart : Run Start (Guarded free Step) [] (empty : Inproc Bool Unit ℕ) := .nil rfl
    refine ⟨_, (play_run hstart hplay).unguarded, rfl, fun x => ?_, rfl, fun x => ?_, rfl, fun q _ => rfl,
      fun h => absurd h (lt_irrefl 0)⟩
    · cases x <;> exact ⟨⟨rfl, rfl⟩, rfl⟩
    · cases x <;> rfl
  | succ n ih =>
    obtain ⟨s, hs, hsocket, hopen, hrun, hcalls, hends, hmade, hin⟩ := ih
    obtain ⟨e, he, hes⟩ := map_eq_some_iff.mp hends
    have halive : s.Alive e.socket := (hopen e.socket).1
    have hfind : s.run (.find false () n) = .ok (s.finding false () n e) := find_bound he halive
    have hcall : (s.finding false () n e).calls false = some (.found n e) := finding_calls
    have hself : (s.finding false () n e).sockets e.socket =
      { s.sockets e.socket with sentSeqnum := (s.sockets e.socket).sentSeqnum + 1 } := finding_socket
    have hne : (s.finding false () n e).sockets false = s.sockets false := finding_socket_ne (by rw [hes]; simp)
    rw [hes] at hself
    obtain ⟨toBind, toConnect, hjoin⟩ := join_found hcall (by exact halive) (by rw [hne]; exact hrun)
    obtain ⟨s', hs'⟩ : ∃ s', s' = (s.finding false () n e).sending false n e.socket toBind toConnect := ⟨_, rfl⟩
    have htrue : s'.sockets true = { s.sockets true with sentSeqnum := (s.sockets true).sentSeqnum + 1 } := by
      rw [hs', ← hself]
      exact sending_socket_ne (by simp)
    have hfalse : s'.sockets false = piped (s.sockets false) := by
      rw [hs', ← hne]
      exact sending_socket
    refine ⟨s', ?_, ?_, fun x => ?_, by rw [hfalse]; exact hrun, fun x => ?_, by rw [hs']; exact hends, fun q hq => ?_,
      fun _ => ?_⟩
    · have hready : s.Ready (.find false () n) := ⟨hopen false, hcalls false, hmade n le_rfl⟩
      have hready' : (s.finding false () n e).Ready (.join false) := by
        rw [Ready, hcall]
        simp
      have hsecond := (hs.snoc ⟨hready, hfind⟩).snoc ⟨hready', hjoin⟩
      have happend : overAndOver (n + 1) = overAndOver n ++ [.find false () n] ++ [.join false] := by
        simp [overAndOver, range_succ]
      rw [happend, hs']
      exact hsecond
    · rw [htrue, hsocket, UInt32.ofNat_add]
      rfl
    · refine ⟨by rw [hs']; exact (hopen x).1, ?_⟩
      cases x with
      | true => rw [htrue]; exact (hopen true).2
      | false => rw [hfalse]; exact (hopen false).2
    · rw [hs']
      cases x with
      | true => rw [sending_calls_ne (by simp), finding_calls_ne (by simp), hcalls]
      | false => exact sending_calls
    · have hqn : q ≠ n := by omega
      rw [hs']
      exact (update_of_ne hqn _ _).trans (hmade q (by omega))
    · rw [hs']
      unfold sending
      rcases Nat.eq_zero_or_pos n with rfl | hpos
      · rw [hes]
        simp
      · exact mem_append_left _ (hin hpos)

/-- The counter of commands is back at zero. A socket that is closed does not wait for any of the commands in flight, and
what the first of them is sent to is there no more. -/
theorem deallocated_with_binds : ∃ s : Inproc Bool Unit ℕ,
    Run Start Step (overAndOver (2 ^ 32) ++ [.close true] ++ [.reap true]) s ∧ s.destroyed true = true ∧ 0 < s.due true ∧
    s.Ready (.deliver false true) ∧ ∀ s', s.run (.deliver false true) ≠ .ok s' := by
  obtain ⟨n, hn⟩ : ∃ n, n = 2 ^ 32 := ⟨_, rfl⟩
  rw [← hn]
  obtain ⟨s, hs, hsocket, hopen, -, hcalls, -, -, hin⟩ := over_and_over n
  have hbind := hin (by omega)
  have hzero : UInt32.ofNat n = 0 := by rw [hn]; rfl
  rw [hzero] at hsocket
  obtain ⟨t, ht⟩ : ∃ t, t = s.setSocket true { s.sockets true with tag := false } := ⟨_, rfl⟩
  have htsocket : t.sockets true = ⟨⟨false, []⟩, false, 0, 0, false, 0, 0⟩ := by
    rw [ht, setSocket_self, hsocket]
  have hready0 : s.Ready (.close true) := ⟨hopen true, hcalls true⟩
  have hrun0 : s.run (.close true) = .ok t := by rw [ht]; rfl
  have hclose := hs.snoc ⟨hready0, hrun0⟩
  have hready : t.Ready (.reap true) := by
    rw [Ready, htsocket]
    exact ⟨by rw [ht]; exact (hopen true).1, rfl, rfl⟩
  obtain ⟨u, hu⟩ : ∃ u, u = t.processTerm true := ⟨_, rfl⟩
  have hprocess : t.processTerm true = { (t.unregisterEndpoints true).setSocket true ⟨⟨false, []⟩, false, 0, 0, true, 0, 0⟩ with
      destroyed := update t.destroyed true true } := by
    have hobj : (t.unregisterEndpoints true).sockets true = ⟨⟨false, []⟩, false, 0, 0, false, 0, 0⟩ := htsocket
    have hterm : t.processTerm true =
        ((t.unregisterEndpoints true).setSocket true ⟨⟨false, []⟩, false, 0, 0, true, 0, 0⟩).checkTermAcks true := by
      unfold processTerm
      dsimp only
      rw [hobj]
      rfl
    have hself : ((t.unregisterEndpoints true).setSocket true ⟨⟨false, []⟩, false, 0, 0, true, 0, 0⟩).sockets true =
        ⟨⟨false, []⟩, false, 0, 0, true, 0, 0⟩ := setSocket_self
    rw [hterm]
    exact if_pos (by rw [hself]; decide)
  have hflight : u.flight = s.flight := by rw [hu, hprocess, ht]; rfl
  have hgone : u.destroyed true = true := by
    rw [hu, hprocess]
    rfl
  have hnext : (Packet.next false true u.flight).isSome := by
    rw [hflight, Packet.next, find?_isSome]
    exact ⟨_, hbind, rfl⟩
  have hrun : t.run (.reap true) = .ok u := by rw [hu]; rfl
  refine ⟨u, hclose.snoc ⟨hready, hrun⟩, hgone, ?_, hnext, fun s' hs' => ?_⟩
  · have hpos : 0 < u.flight.countP fun m => m.dst = true := by
      rw [hflight]
      exact countP_pos_iff.mpr ⟨_, hbind, rfl⟩
    unfold due
    omega
  · obtain ⟨m, hm⟩ := isSome_iff_exists.mp hnext
    obtain ⟨-, -, -, -, -, -, hdst⟩ := Packet.next_spec hm
    simp only [run, hm, process, hdst] at hs'
    rw [if_pos] at hs'
    · cases hs'
    · exact fun halive => absurd (hgone.symm.trans halive.2) (by simp)

end Inproc

end Zmq
