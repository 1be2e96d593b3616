import LibZmq.Zmtp.EngineOutput
import LibZmq.Zmtp.EngineTimers

/-! An engine becomes ready once, and its flags tell which timers are registered. -/

namespace Zmq

open StreamEngine (outBatchSize)

namespace Engine

variable {σ μ : Type} {M : EngineMechanism μ} {S : EngineSession σ} {e e' : Engine σ μ} {w : Write} {t : TimerId}
    {r : Except MechErrno Msg} {null : Bool} {fuel : ℕ} {k : μ}

structure Tidy (e : Engine σ μ) : Prop where
  armed : Armed none e
  late : e.late = false
  readied : e.readied ≤ 1
  identities : e.identities ≤ 1

theorem Tidy.arm (h : Tidy e) (ht : e.has t = false) : Tidy (e.arm t) :=
  ⟨h.armed.arm ht, h.late, h.readied, h.identities⟩

theorem Tidy.armOnce (h : Tidy e) (t : TimerId) (wanted : Bool) : Tidy (e.armOnce t wanted) := by
  rcases e.armOnce_cases t wanted with heq | ⟨hhas, heq⟩
  · rwa [heq]
  · rw [heq]
    exact h.arm hhas

theorem Tidy.mechanism (h : Tidy e) (k : Option μ) : Tidy { e with mechanism := k } :=
  ⟨h.armed, h.late, h.readied, h.identities⟩

theorem Tidy.disarm (h : Tidy e) (hx : e.disarm t = .ok e') : Tidy e' := by
  obtain ⟨e1, h1, harmed, -⟩ := h.armed.disarm t
  cases hx.symm.trans h1
  rcases disarm_cases hx with ⟨-, rfl⟩ | ⟨-, -, rfl⟩ <;> exact ⟨harmed, h.late, h.readied, h.identities⟩

theorem next_tidy (h : Tidy e) (hx : Next M S e r e') : Tidy e' := by
  cases hx with
  | @ping _ _ k' =>
    have hasked : Tidy { e with mechanism := some k', nextMsg := .pullAndEncode } := ⟨h.armed, h.late, h.readied, h.identities⟩
    exact hasked.armOnce _ _
  | _ => exact ⟨h.armed, h.late, h.readied, h.identities⟩

theorem settle_tidy (h : Tidy e) (n : NextMsg) : Tidy (e.settle n) := by
  cases n <;> exact ⟨h.armed, h.late, h.readied, h.identities⟩

theorem writeOut_tidy (h : Tidy e) (w : Write) : Tidy (e.writeOut w) := by
  cases w <;> exact ⟨h.armed, h.late, h.readied, h.identities⟩

theorem fill_tidy (ht : Talks e) (h : Tidy e) (hx : fill M S fuel null e = .ok e') : Tidy e' := by
  refine (fill_keeps (I := fun e => Talks e ∧ Tidy e)
    (fun ⟨ht, h⟩ hx => ⟨next_talks ht hx, next_tidy h (next_cases ht.nextMsg hx)⟩)
    (fun {e m e'} bytes encoder ⟨ht, h⟩ hx => ⟨settle_talks ((next_talks ht hx).filled _ _) _, settle_tidy ?_ _⟩) ⟨ht, h⟩ hx).2
  have h1 := next_tidy h (next_cases ht.nextMsg hx)
  exact ⟨h1.armed, h1.late, h1.readied, h1.identities⟩

theorem outEvent_tidy (ht : Talks e) (h : Tidy e) (hx : e.outEvent M S w = .ok e') : Tidy e' := by
  cases outEvent_cases hx with
  | writes => exact writeOut_tidy h w
  | greeting => exact h
  | @idle kind _ encoder' bytes _ _ _ _ hfill =>
    have hfilled : Tidy { e with out := bytes, encoder := some (kind, encoder') } := ⟨h.armed, h.late, h.readied, h.identities⟩
    have ht := fill_tidy (ht.filled _ _) hfilled hfill
    exact ⟨ht.armed, ht.late, ht.readied, ht.identities⟩
  | @fills kind _ encoder' bytes _ _ _ _ hfill =>
    have hfilled : Tidy { e with out := bytes, encoder := some (kind, encoder') } := ⟨h.armed, h.late, h.readied, h.identities⟩
    exact writeOut_tidy (fill_tidy (ht.filled _ _) hfilled hfill) w

theorem tidy_keeps : Keeps M S (fun _ _ _ _ => True) Tidy where
  push hI hx := by
    obtain ⟨s, -, rfl⟩ := push_cases hx
    exact ⟨hI.armed, hI.late, hI.readied, hI.identities⟩
  arm hI ht := hI.arm ht
  disarm hI hx := hI.disarm hx
  mechanism _ hI := hI.mechanism _
  processMsg _ hI := ⟨hI.armed, hI.late, hI.readied, hI.identities⟩
  received _ hI := ⟨hI.armed, hI.late, hI.readied, hI.identities⟩
  ping {e _ _} ht hI _ hx := by
    have hasked : Talks e.requestPing := ⟨ht.phase, nofun, ht.processMsg⟩
    exact outEvent_tidy hasked ⟨hI.armed, hI.late, hI.readied, hI.identities⟩ hx
  pong {e _ _} ht hI _ hx := by
    have hasked : Talks e.requestPong := ⟨ht.phase, nofun, ht.processMsg⟩
    exact outEvent_tidy hasked ⟨hI.armed, hI.late, hI.readied, hI.identities⟩ hx

/-- The session takes the identity of the peer should the mechanism become ready. -/
def Welcomes (S : EngineSession σ) (e : Engine σ μ) : Prop :=
  e.settings.recvIdentity = true → e.nextMsg = .nextHandshakeCommand →
    ∀ identity m s, S.pushMsg e.session ((Msg.ofData identity).setFlags Msg.identity) ≠ .ok (.error .eagain, m, s)

structure Shaking (e : Engine σ μ) : Prop where
  phase : e.phase = .connected
  nextMsg : e.nextMsg = .nextHandshakeCommand
  processMsg : e.processMsg = .processHandshakeCommand
  encoder : ∃ kind encoder, Encodes e.encoder kind encoder ∧ encoder.inProgress = none
  ivl : e.has .heartbeatIvl = false
  readied : e.readied = 0
  identities : e.identities = 0

def Unready (M : EngineMechanism μ) (e : Engine σ μ) : Prop := ∃ k, e.mechanism = some k ∧ M.status k ≠ .ready

theorem mechanismReady_cases (hs : Shaking e) (h : Tidy e) (hw : e.Welcomes S) (hx : e.mechanismReady M S = .ok e') :
    Talks e' ∧ Tidy e' ∧ e'.nextMsg = .pullAndEncode ∧ e'.out = e.out ∧ e'.encoder = e.encoder := by
  obtain ⟨k, -, hx⟩ := bind_ok hx
  obtain ⟨⟨taken, e1⟩, h1, hx⟩ := bind_ok hx
  generalize he0 : (if 0 < e.settings.heartbeatInterval then e.arm .heartbeatIvl else e) = e0 at h1
  have h0 : Armed none e0 ∧ e0 = { e with has := e0.has, timers := e0.timers } := by
    rw [← he0]
    split_ifs
    · exact ⟨h.armed.arm hs.ivl, rfl⟩
    · exact ⟨h.armed, rfl⟩
  obtain ⟨harmed0, heq0⟩ := h0
  obtain ⟨htaken, s, n, hn, he1⟩ : taken = true ∧ ∃ s n, n ≤ 1 ∧ e1 = { e0 with session := s, identities := n } := by
    have hid0 : e0.identities = 0 := by rw [heq0]; exact hs.identities
    unfold pushIdentity at h1
    split_ifs at h1 with hrecv
    · obtain ⟨⟨rc, m, e2⟩, h2, h1⟩ := bind_ok h1
      obtain ⟨s, hpush, rfl⟩ := push_cases h2
      dsimp only at h1
      rw [heq0] at hpush hrecv
      split_ifs at h1 with heagain
      · exact absurd (heagain ▸ hpush) (hw hrecv hs.nextMsg _ m s)
      · obtain ⟨_, -, h1⟩ := bind_ok h1
        cases h1
        exact ⟨rfl, s, e0.identities + 1, by rw [hid0], rfl⟩
    · obtain ⟨htaken, he1⟩ := ok_pair h1
      exact ⟨htaken.symm, e0.session, e0.identities, by rw [hid0]; exact Nat.zero_le 1, he1.symm⟩
  subst htaken he1
  obtain ⟨_, -, hx⟩ := bind_ok hx
  cases hx
  rw [heq0] at harmed0 ⊢
  exact ⟨⟨hs.phase, by rintro ⟨⟩, by rintro ⟨⟩⟩, ⟨harmed0, h.late, Nat.succ_le_succ (Nat.le_of_eq hs.readied), hn⟩, rfl, rfl, rfl⟩

def Shaken (M : EngineMechanism μ) (e : Engine σ μ) : Prop := Tidy e ∧ (Shaking e ∧ Unready M e ∨ Talks e)

theorem nextHandshakeCommand_cases (hk : e.mechanism = some k) (hn : M.status k ≠ .ready)
    (hx : e.nextHandshakeCommand M S = .ok (r, e')) :
    ∃ k', e' = { e with mechanism := some k' } ∧ ((∃ errno, r = .error errno) ∧ M.status k' ≠ .ready ∨
      ∃ cmd, r = .ok (cmd.setFlags Msg.command) ∧ M.nextHandshakeCommand k = .ok (.ok cmd, k')) := by
  obtain ⟨k1, hk1, hx⟩ := bind_ok hx
  cases hk.symm.trans (theMechanism_eq hk1)
  cases hstatus : M.status k with
  | ready => exact absurd hstatus hn
  | error =>
    rw [hstatus] at hx
    cases hx
    exact ⟨k, by rw [← hk], .inl ⟨⟨_, rfl⟩, hn⟩⟩
  | handshaking =>
    rw [hstatus] at hx
    obtain ⟨⟨r1, k'⟩, h1, hx⟩ := bind_ok hx
    cases hx
    have h1 := liftCrash_ok h1
    refine ⟨k', rfl, ?_⟩
    cases r1 with
    | error errno => exact .inl ⟨⟨errno, rfl⟩, M.next_error hstatus h1⟩
    | ok cmd => exact .inr ⟨cmd, rfl, h1⟩

theorem Shaking.mechanism (hs : Shaking e) (k : Option μ) : Shaking { e with mechanism := k } :=
  ⟨hs.phase, hs.nextMsg, hs.processMsg, hs.encoder, hs.ivl, hs.readied, hs.identities⟩

theorem fill_ready (hs : Shaking e) (h : Tidy e) (hw : e.Welcomes S)
    (hk : e.mechanism = some k) (hready : M.status k = .ready) (hlt : e.out.length < outBatchSize)
    (hx : fill M S (fuel + 1) null e = .ok e') : Talks e' ∧ Tidy e' := by
  unfold fill at hx
  rw [if_pos hlt] at hx
  obtain ⟨⟨r, e1⟩, hnext, hx⟩ := bind_ok hx
  unfold next at hnext
  rw [hs.nextMsg] at hnext
  obtain ⟨k1, hk1, hnext⟩ := bind_ok hnext
  cases hk.symm.trans (theMechanism_eq hk1)
  rw [hready] at hnext
  obtain ⟨e0, h0, hnext⟩ := bind_ok hnext
  obtain ⟨ht0, htidy0, hn0, hout0, -⟩ := mechanismReady_cases hs h hw h0
  refine (fun hf => ⟨fill_talks ht0 hf, fill_tidy ht0 htidy0 hf⟩ : fill M S (fuel + 1) null e0 = .ok e' → _) ?_
  unfold fill next
  rw [if_pos (by rwa [hout0]), hn0]
  rw [hs.nextMsg] at hx
  rw [hnext]
  exact hx

theorem fill_again (hs : Shaking e) (h : Tidy e) (hw : e.Welcomes S)
    (hk : e.mechanism = some k) (hagain : ∀ {r k'}, M.nextHandshakeCommand k = .ok (r, k') → ∃ errno, r = .error errno)
    (hlt : e.out.length < outBatchSize) (hx : fill M S (fuel + 1) null e = .ok e') : Shaken M e' := by
  by_cases hready : M.status k = .ready
  · obtain ⟨ht', h'⟩ := fill_ready hs h hw hk hready hlt hx
    exact ⟨h', .inr ht'⟩
  · unfold fill at hx
    rw [if_pos hlt] at hx
    obtain ⟨⟨r, e1⟩, hnext, hx⟩ := bind_ok hx
    unfold next at hnext
    rw [hs.nextMsg] at hnext
    obtain ⟨k', rfl, ⟨⟨errno, rfl⟩, hn'⟩ | ⟨cmd, rfl, hcmd⟩⟩ := nextHandshakeCommand_cases hk hready hnext
    · cases hx
      exact ⟨h.mechanism _, .inl ⟨hs.mechanism _, k', rfl, hn'⟩⟩
    · obtain ⟨errno, herror⟩ := hagain hcmd
      cases herror

theorem fill_shaken (hs : Shaking e) (hu : Unready M e) (h : Tidy e) (hw : e.Welcomes S)
    (hout : e.out = []) (hx : fill M S (fuel + 2) null e = .ok e') : Shaken M e' := by
  obtain ⟨k, hk, hn⟩ := hu
  have hlt : e.out.length < outBatchSize := by
    rw [hout]
    decide
  unfold fill at hx
  rw [if_pos hlt] at hx
  obtain ⟨⟨r, e1⟩, hnext, hx⟩ := bind_ok hx
  unfold next at hnext
  rw [hs.nextMsg] at hnext hx
  obtain ⟨k', rfl, ⟨⟨errno, rfl⟩, hn'⟩ | ⟨cmd, rfl, hcmd⟩⟩ := nextHandshakeCommand_cases hk hn hnext
  · cases hx
    exact ⟨h.mechanism _, .inl ⟨hs.mechanism _, k', rfl, hn'⟩⟩
  · obtain ⟨e2, hl, hx⟩ := bind_ok hx
    obtain ⟨kind, encoder, henc, hidle⟩ := hs.encoder
    obtain ⟨bytes, encoder2, rfl, -, henc2, hidle2, hbytes⟩ :=
      load_cases (e := { e with mechanism := some k' }) henc hlt hidle (fun _ => hout) hl
    obtain ⟨hsize, hagain⟩ := M.next_ok hcmd
    have hlt2 : (e.out ++ bytes).length < outBatchSize := by
      rw [hout]
      exact Nat.lt_of_le_of_lt (hbytes.trans ((frame_length_le kind _).trans (Nat.add_le_add_left hsize 10))) (by decide)
    have hs2 : Shaking { e with mechanism := some k', out := e.out ++ bytes, encoder := some (kind, encoder2) } :=
      ⟨hs.phase, hs.nextMsg, hs.processMsg, ⟨kind, encoder2, henc2, hidle2 hlt2⟩, hs.ivl, hs.readied, hs.identities⟩
    have h2 : Tidy { e with mechanism := some k', out := e.out ++ bytes, encoder := some (kind, encoder2) } :=
      ⟨h.armed, h.late, h.readied, h.identities⟩
    exact fill_again hs2 h2 hw rfl hagain hlt2 hx

theorem writeOut_shaken (h : Shaken M e) (w : Write) : Shaken M (e.writeOut w) := by
  refine ⟨writeOut_tidy h.1 w, h.2.imp (fun ⟨hs, k, hk, hn⟩ => ?_) (writeOut_talks · w)⟩
  cases w <;>
    exact ⟨⟨hs.phase, hs.nextMsg, hs.processMsg, hs.encoder, hs.ivl, hs.readied, hs.identities⟩, k, hk, hn⟩

theorem Shaken.polling (h : Shaken M e) (stopped pollout : Bool) :
    Shaken M { e with outputStopped := stopped, pollout := pollout } := by
  obtain ⟨htidy, ⟨hs, hu⟩ | ht⟩ := h
  · exact ⟨⟨htidy.armed, htidy.late, htidy.readied, htidy.identities⟩,
      .inl ⟨⟨hs.phase, hs.nextMsg, hs.processMsg, hs.encoder, hs.ivl, hs.readied, hs.identities⟩, hu⟩⟩
  · exact ⟨⟨htidy.armed, htidy.late, htidy.readied, htidy.identities⟩, .inr ⟨ht.phase, ht.nextMsg, ht.processMsg⟩⟩

theorem outEvent_shaken (h : Shaken M e) (hw : e.Welcomes S) (hx : e.outEvent M S w = .ok e') : Shaken M e' := by
  obtain ⟨htidy, ⟨hs, hu⟩ | ht⟩ := h
  · obtain ⟨kind, encoder, henc, hidle⟩ := hs.encoder
    have hfilled : ∀ {kind' encoder1 encoder2 bytes e1}, e.encoder = some (kind', encoder1) →
        encoder1.encode kind'.act none = .ok (bytes, encoder2) →
        fill M S outBatchSize encoder1.inProgress.isNone
          { e with out := bytes, encoder := some (kind', encoder2) } = .ok e1 → Shaken M e1 := by
      intro kind' encoder1 encoder2 bytes e1 henc1 hbytes hfill
      cases henc.current.symm.trans henc1
      have hnone : encoder.encode kind.act none = .ok ([], encoder) := if_pos hidle
      obtain ⟨rfl, rfl⟩ := ok_pair (hbytes.symm.trans hnone)
      refine fill_shaken (e := { e with out := [], encoder := some (kind, encoder2) })
        ⟨hs.phase, hs.nextMsg, hs.processMsg, ⟨kind, encoder2, ⟨rfl, henc.owes, henc.bufsize⟩, hidle⟩, hs.ivl, hs.readied,
          hs.identities⟩ hu ⟨htidy.armed, htidy.late, htidy.readied, htidy.identities⟩ hw rfl
        (show fill M S (8190 + 2) _ _ = _ from hfill)
    cases outEvent_cases hx with
    | writes => exact writeOut_shaken ⟨htidy, .inl ⟨hs, hu⟩⟩ w
    | greeting hphase => cases hs.phase.symm.trans hphase
    | idle _ henc1 hbytes hfill => exact (hfilled henc1 hbytes hfill).polling true false
    | fills _ henc1 hbytes hfill => exact writeOut_shaken (hfilled henc1 hbytes hfill) w
  · exact ⟨outEvent_tidy ht htidy hx, .inr (outEvent_talks ht hx)⟩

theorem restartOutput_shaken (h : Shaken M e) (hw : e.Welcomes S) (hx : e.restartOutput M S w = .ok e') : Shaken M e' := by
  unfold restartOutput at hx
  split_ifs at hx
  · cases hx
    exact h
  · exact outEvent_shaken (h.polling false true) hw hx
  · exact outEvent_shaken h hw hx

theorem Shaken.phase (h : Shaken M e) : e.phase = .connected := h.2.elim (·.1.phase) (·.phase)

theorem Talks.welcomes (h : Talks e) : e.Welcomes S := fun _ hn => absurd hn h.nextMsg

theorem restartIfStopped_shaken (h : Shaken M e) (hw : e.Welcomes S) (hx : e.restartIfStopped M S w = .ok e') : Shaken M e' := by
  unfold restartIfStopped at hx
  split_ifs at hx
  · exact restartOutput_shaken h hw hx
  · cases hx
    exact h

theorem commandTaken_shaken {rc : Ret} (hs : Shaking e) (h : Tidy e) (hw : e.Welcomes S) (hk : e.mechanism = some k)
    (hx : e.commandTaken M S k w = .ok (rc, e')) :
    Tidy e' ∧ e'.phase = .connected ∧ (rc = .ok ∨ rc = .error .eagain → Shaken M e') := by
  unfold commandTaken at hx
  cases hstatus : M.status k with
  | ready =>
    rw [hstatus] at hx
    obtain ⟨e1, h1, hx⟩ := bind_ok hx
    obtain ⟨e2, h2, hx⟩ := bind_ok hx
    cases hx
    obtain ⟨ht1, htidy1, -⟩ := mechanismReady_cases hs h hw h1
    have h2 := restartIfStopped_shaken (M := M) ⟨htidy1, .inr ht1⟩ ht1.welcomes h2
    exact ⟨h2.1, h2.phase, fun _ => h2⟩
  | error =>
    rw [hstatus] at hx
    cases hx
    refine ⟨h, hs.phase, fun hrc => ?_⟩
    rcases hrc with hrc | hrc <;> cases hrc
  | handshaking =>
    rw [hstatus] at hx
    obtain ⟨e1, h1, hx⟩ := bind_ok hx
    cases hx
    have h1 := restartIfStopped_shaken ⟨h, .inl ⟨hs, k, hk, by rw [hstatus]; nofun⟩⟩ hw h1
    exact ⟨h1.1, h1.phase, fun _ => h1⟩

theorem process_shaken {m : Msg} {rc : Ret} (h : Shaken M e) (hw : e.Welcomes S) (hx : e.process M S m w = .ok (rc, e')) :
    Tidy e' ∧ e'.phase = .connected ∧ (rc = .ok ∨ rc = .error .eagain → Shaken M e') := by
  obtain ⟨htidy, ⟨hs, k, hk, hn⟩ | ht⟩ := h
  · obtain ⟨⟨rc1, m1, e1⟩, h1, hx⟩ := bind_ok hx
    obtain ⟨htidy1, hp1, hstage1⟩ :
        Tidy e1 ∧ e1.phase = .connected ∧ (rc1 = .ok ∨ rc1 = .error .eagain → Shaken M e1) := by
      unfold handler at h1
      rw [hs.processMsg] at h1
      obtain ⟨k1, hk1, h1⟩ := bind_ok h1
      cases hk.symm.trans (theMechanism_eq hk1)
      obtain ⟨⟨rc2, k'⟩, h2, h1⟩ := bind_ok h1
      have hlate : (e.late || decide (M.status k = MechanismStatus.ready)) = false := by
        rw [htidy.late, decide_eq_false hn]
        rfl
      have hs1 : Shaking { e with late := e.late || decide (M.status k = MechanismStatus.ready), mechanism := some k' } :=
        ⟨hs.phase, hs.nextMsg, hs.processMsg, hs.encoder, hs.ivl, hs.readied, hs.identities⟩
      have htidy1 : Tidy { e with late := e.late || decide (M.status k = MechanismStatus.ready), mechanism := some k' } :=
        ⟨htidy.armed, hlate, htidy.readied, htidy.identities⟩
      cases rc2 with
      | error errno =>
        cases h1
        refine ⟨htidy1, hs.phase, fun hrc => ⟨htidy1, .inl ⟨hs1, k', rfl, ?_⟩⟩⟩
        rcases hrc with hrc | hrc
        · cases hrc
        · cases hrc
          exact M.process_again hn (liftCrash_ok h2)
      | ok =>
        obtain ⟨⟨rc3, e3⟩, h3, h1⟩ := bind_ok h1
        cases h1
        exact commandTaken_shaken hs1 htidy1 hw rfl h3
    cases hx
    refine ⟨⟨htidy1.armed, htidy1.late, htidy1.readied, htidy1.identities⟩, hp1, fun hrc => ?_⟩
    obtain ⟨htidy2, ⟨hs2, hu2⟩ | ht2⟩ := hstage1 hrc
    · exact ⟨⟨htidy2.armed, htidy2.late, htidy2.readied, htidy2.identities⟩,
        .inl ⟨⟨hs2.phase, hs2.nextMsg, hs2.processMsg, hs2.encoder, hs2.ivl, hs2.readied, hs2.identities⟩, hu2⟩⟩
    · exact ⟨⟨htidy2.armed, htidy2.late, htidy2.readied, htidy2.identities⟩, .inr ⟨ht2.phase, ht2.nextMsg, ht2.processMsg⟩⟩
  · obtain ⟨ht', htidy'⟩ := process_keeps tidy_keeps ht htidy (fun _ => trivial) hx
    exact ⟨htidy', ht'.phase, fun _ => ⟨htidy', .inr ht'⟩⟩

structure Greets (e : Engine σ μ) : Prop where
  phase : e.phase = .greeting
  encoder : e.encoder = none
  mechanism : e.mechanism = none
  nextMsg : e.nextMsg ≠ .nextHandshakeCommand
  processMsg : e.processMsg ≠ .processHandshakeCommand
  ivl : e.has .heartbeatIvl = false
  readied : e.readied = 0
  identities : e.identities = 0

def Unplugged (e : Engine σ μ) : Prop := e.phase = .dead ∧ ∀ t, e.has t = false

def Orderly (M : EngineMechanism μ) (e : Engine σ μ) : Prop :=
  Tidy e ∧ (Greets e ∨ (Shaking e ∧ Unready M e ∨ Talks e) ∨ Unplugged e)

/-- Whenever the mechanism may become ready, the session takes the identity of the peer. -/
def welcomed (S : EngineSession σ) : Allowance σ μ where
  frame e _ := e.Welcomes S
  output e _ := e.Welcomes S
  timer _ _ _ := True
  hangup _ := True

theorem Shaken.orderly (h : Shaken M e) : Orderly M e := ⟨h.1, .inr (.inl h.2)⟩

theorem Orderly.shaken (h : Orderly M e) (hp : e.phase = .connected) : Shaken M e := by
  obtain ⟨htidy, hg | h | hd⟩ := h
  · cases hg.phase.symm.trans hp
  · exact ⟨htidy, h⟩
  · cases hd.1.symm.trans hp

theorem Greets.writeOut (h : Greets e) (w : Write) : Greets (e.writeOut w) := by
  cases w <;> exact ⟨h.phase, h.encoder, h.mechanism, h.nextMsg, h.processMsg, h.ivl, h.readied, h.identities⟩

theorem outEvent_orderly (hp : e.phase ≠ .dead) (h : Orderly M e) (hw : e.Welcomes S) (hx : e.outEvent M S w = .ok e') :
    Orderly M e' := by
  obtain ⟨htidy, hg | hstage | hd⟩ := h
  · cases outEvent_cases hx with
    | writes => exact ⟨writeOut_tidy htidy w, .inl (hg.writeOut w)⟩
    | greeting => exact ⟨htidy, .inl hg⟩
    | idle _ henc | fills _ henc => cases hg.encoder.symm.trans henc
  · exact (outEvent_shaken ⟨htidy, hstage⟩ hw hx).orderly
  · exact absurd hd.1 hp

theorem Orderly.same (h : Orderly M e) (s : σ) (pollin pollout stopped stopped' ioError : Bool) :
    Orderly M { e with
      session := s, pollin := pollin, pollout := pollout
      inputStopped := stopped, outputStopped := stopped', ioError := ioError } := by
  obtain ⟨htidy, hg | (⟨hs, hu⟩ | ht) | hd⟩ := h
  · exact ⟨⟨htidy.armed, htidy.late, htidy.readied, htidy.identities⟩,
      .inl ⟨hg.phase, hg.encoder, hg.mechanism, hg.nextMsg, hg.processMsg, hg.ivl, hg.readied, hg.identities⟩⟩
  · exact ⟨⟨htidy.armed, htidy.late, htidy.readied, htidy.identities⟩,
      .inr (.inl (.inl ⟨⟨hs.phase, hs.nextMsg, hs.processMsg, hs.encoder, hs.ivl, hs.readied, hs.identities⟩, hu⟩))⟩
  · exact ⟨⟨htidy.armed, htidy.late, htidy.readied, htidy.identities⟩, .inr (.inl (.inr ⟨ht.phase, ht.nextMsg, ht.processMsg⟩))⟩
  · exact ⟨⟨htidy.armed, htidy.late, htidy.readied, htidy.identities⟩, .inr (.inr hd)⟩

theorem restartOutput_orderly (hp : e.phase ≠ .dead) (h : Orderly M e) (hw : e.Welcomes S)
    (hx : e.restartOutput M S w = .ok e') : Orderly M e' := by
  unfold restartOutput at hx
  split_ifs at hx
  · cases hx
    exact h
  · exact outEvent_orderly (e := { e with pollout := true, outputStopped := false }) hp
      (h.same e.session e.pollin true e.inputStopped false e.ioError) hw hx
  · exact outEvent_orderly hp h hw hx

theorem terminate_cases {x : Option TimerId} (h : Armed x e) (hx : e.terminate = .ok e') :
    Armed x e' ∧ Unplugged e' ∧ e'.late = e.late ∧ e'.readied = e.readied ∧ e'.identities = e.identities := by
  obtain ⟨e1, h1, hx⟩ := bind_ok hx
  cases hx
  obtain ⟨e2, h2, harmed, hhas⟩ := h.unplug
  cases h1.symm.trans h2
  have hsame : e1.late = e.late ∧ e1.readied = e.readied ∧ e1.identities = e.identities := by
    obtain ⟨a1, ha1, h1⟩ := bind_ok h1
    obtain ⟨a2, ha2, h1⟩ := bind_ok h1
    obtain ⟨a3, ha3, h1⟩ := bind_ok h1
    have keeps : ∀ {a b : Engine σ μ} {t}, a.disarm t = .ok b →
        b.late = a.late ∧ b.readied = a.readied ∧ b.identities = a.identities := by
      intro a b t hab
      rcases disarm_cases hab with ⟨-, rfl⟩ | ⟨-, -, rfl⟩ <;> exact ⟨rfl, rfl, rfl⟩
    obtain ⟨p1, p2, p3⟩ := keeps ha1
    obtain ⟨q1, q2, q3⟩ := keeps ha2
    obtain ⟨r1, r2, r3⟩ := keeps ha3
    obtain ⟨s1, s2, s3⟩ := keeps h1
    exact ⟨s1.trans (r1.trans (q1.trans p1)), s2.trans (r2.trans (q2.trans p2)), s3.trans (r3.trans (q3.trans p3))⟩
  exact ⟨harmed, ⟨rfl, hhas⟩, hsame⟩

theorem executeTimer_orderly (h : Orderly M e) (ht : t ∈ e.timers) (hx : e.executeTimer M S t w = .ok e') : Orderly M e' := by
  obtain ⟨htidy, hstage⟩ := h
  obtain ⟨hhas, harmed⟩ := htidy.armed.fired ht
  unfold executeTimer at hx
  split_ifs at hx with hdead
  obtain ⟨e1, h1, hx⟩ := bind_ok hx
  cases hx
  by_cases hivl : t = .heartbeatIvl
  · subst hivl
    obtain ⟨e2, h2, h1⟩ := bind_ok h1
    cases h1
    obtain hg | (⟨hs, -⟩ | htalks) | hd := hstage
    · cases hg.ivl.symm.trans hhas
    · cases hs.ivl.symm.trans hhas
    · have hasked : Talks e.requestPing := ⟨htalks.phase, nofun, htalks.processMsg⟩
      have hI2 := outEvent_tidy hasked ⟨htidy.armed, htidy.late, htidy.readied, htidy.identities⟩ h2
      have ht2 := outEvent_talks hasked h2
      refine ⟨⟨fun t => ?_, hI2.late, hI2.readied, hI2.identities⟩, .inr (.inl (.inr ⟨ht2.phase, ht2.nextMsg, ht2.processMsg⟩))⟩
      have hcount := hI2.armed t
      exact hcount
    · exact absurd hd.1 hdead
  · have h1 : terminate { e with has := Function.update e.has t false } = .ok e1 := by
      cases t with
      | heartbeatIvl => exact absurd rfl hivl
      | _ => exact h1
    obtain ⟨harmed1, hd1, hlate, hreadied, hid⟩ := terminate_cases harmed h1
    refine ⟨⟨fun t' => ?_, hlate.trans htidy.late, hreadied ▸ htidy.readied, hid ▸ htidy.identities⟩, .inr (.inr hd1)⟩
    have hcount := harmed1 t'
    by_cases heq : t' = t
    · subst heq
      rw [if_pos rfl] at hcount
      rw [List.count_erase_self, hcount]
      rfl
    · rw [if_neg fun hc => heq (Option.some.inj hc).symm] at hcount
      rw [List.count_erase_of_ne heq, hcount]
      rfl

theorem connect_orderly {p : Spoken μ} (hp : e.phase = .greeting) (hfresh : (Greeted.complete p).Fresh M) (h : Orderly M e)
    (hx : e.connect p = .ok e') : Orderly M e' ∧ e'.phase = .connected := by
  obtain ⟨htidy, hg | hstage | hd⟩ := h
  · have hnew : ∀ kind, Encodes (some (kind, Encoder.new outBatchSize)) kind (Encoder.new outBatchSize) := fun kind =>
      ⟨rfl, ⟨_, .idle⟩, rfl⟩
    have hkeep : ∀ {a b : Engine σ μ}, a.disarm .handshake = .ok b → Shaken M a → Shaken M b := by
      intro a b hab ha
      have htidy := ha.1.disarm hab
      refine ⟨htidy, ?_⟩
      rcases disarm_cases hab with ⟨-, rfl⟩ | ⟨-, -, rfl⟩
      · exact ha.2
      · obtain ⟨-, ⟨hs, hu⟩ | ht⟩ := ha
        · exact .inl ⟨⟨hs.phase, hs.nextMsg, hs.processMsg, hs.encoder, hs.ivl, hs.readied, hs.identities⟩, hu⟩
        · exact .inr ⟨ht.phase, ht.nextMsg, ht.processMsg⟩
    have hdone : Shaken M e' := by
      refine hkeep hx ?_
      cases p with
      | unversioned encoder => exact ⟨⟨htidy.armed, htidy.late, htidy.readied, htidy.identities⟩, .inr ⟨rfl, nofun, nofun⟩⟩
      | older kind =>
        exact ⟨⟨htidy.armed, htidy.late, htidy.readied, htidy.identities⟩, .inr ⟨rfl, hg.nextMsg, hg.processMsg⟩⟩
      | zmtp3 k =>
        refine ⟨⟨htidy.armed, htidy.late, htidy.readied, htidy.identities⟩,
          .inl ⟨⟨rfl, rfl, rfl, ⟨.v2, _, hnew .v2, rfl⟩, hg.ivl, hg.readied, hg.identities⟩, k, rfl, ?_⟩⟩
        rw [show M.status k = .handshaking from hfresh]
        nofun
    exact ⟨hdone.orderly, hdone.phase⟩
  · cases hp.symm.trans (Shaken.phase ⟨htidy, hstage⟩)
  · cases hp.symm.trans hd.1

theorem orderly_invariant : Invariant M S (welcomed S) (Orderly M) Tidy where
  weak h := h.1
  error h hx := by
    obtain ⟨harmed, hd, hlate, hreadied, hid⟩ := terminate_cases h.armed hx
    exact ⟨⟨harmed, hlate.trans h.late, hreadied ▸ h.readied, hid ▸ h.identities⟩, .inr (.inr hd)⟩
  process hp h hw hx := by
    obtain ⟨htidy, hp', hstage⟩ := process_shaken (h.shaken hp) hw hx
    exact ⟨htidy, hp', fun hrc => (hstage hrc).orderly⟩
  output hp h _ hw hx := outEvent_orderly hp h hw hx
  restart {e _} s _ hp h hw hx :=
    restartOutput_orderly (e := { e with session := s }) hp (h.same s e.pollin e.pollout e.inputStopped e.outputStopped e.ioError)
      hw hx
  timer h ht _ hx := executeTimer_orderly h ht hx
  hangup {e} h _ := h.same e.session false false e.inputStopped e.outputStopped true
  input {e} stopped pollin h := h.same e.session pollin e.pollout stopped e.outputStopped e.ioError
  session {e s} _ h := h.same s e.pollin e.pollout e.inputStopped e.outputStopped e.ioError
  deliver {e} frames h := by
    obtain ⟨htidy, hg | (⟨hs, k, hk, hn⟩ | ht) | hd⟩ := h
    · refine ⟨htidy.mechanism _, .inl ⟨hg.phase, hg.encoder, ?_, hg.nextMsg, hg.processMsg, hg.ivl, hg.readied, hg.identities⟩⟩
      rw [hg.mechanism]
      rfl
    · refine ⟨htidy.mechanism _, .inr (.inl (.inl ⟨hs.mechanism _, M.deliver k frames, ?_, ?_⟩))⟩
      · rw [hk]
        rfl
      · rwa [M.deliver_status]
    · exact ⟨htidy.mechanism _, .inr (.inl (.inr ⟨ht.phase, ht.nextMsg, ht.processMsg⟩))⟩
    · exact ⟨htidy.mechanism _, .inr (.inr hd)⟩
  zap {e k k' rc} h hk hz := by
    refine ⟨h.1.mechanism _, fun hrc => ?_⟩
    obtain ⟨htidy, hg | (⟨hs, k1, hk1, hn⟩ | ht) | hd⟩ := h
    · cases hg.mechanism.symm.trans hk
    · cases hk.symm.trans hk1
      exact ⟨htidy.mechanism _, .inr (.inl (.inl ⟨hs.mechanism _, k', rfl, M.zap_ok hn (hrc ▸ hz)⟩))⟩
    · exact ⟨htidy.mechanism _, .inr (.inl (.inr ⟨ht.phase, ht.nextMsg, ht.processMsg⟩))⟩
    · exact ⟨htidy.mechanism _, .inr (.inr hd)⟩
  queue {e} queued hp h := by
    obtain ⟨htidy, hg | hstage | hd⟩ := h
    · exact ⟨⟨htidy.armed, htidy.late, htidy.readied, htidy.identities⟩,
        .inl ⟨hg.phase, hg.encoder, hg.mechanism, hg.nextMsg, hg.processMsg, hg.ivl, hg.readied, hg.identities⟩⟩
    · cases hp.symm.trans (Shaken.phase ⟨htidy, hstage⟩)
    · cases hp.symm.trans hd.1
  connect hp hfresh h hx := connect_orderly hp hfresh h hx

/-- An engine that has just been plugged in. -/
def Plugged (e : Engine σ μ) : Prop := ∃ o session greeting, e = plug o session greeting

theorem Plugged.orderly (h : Plugged e) : Orderly M e := by
  obtain ⟨o, session, greeting, rfl⟩ := h
  unfold plug
  split_ifs
  · exact ⟨⟨Armed.arm (fun _ => rfl) rfl, rfl, Nat.zero_le 1, Nat.zero_le 1⟩, .inl ⟨rfl, rfl, rfl, nofun, nofun, rfl, rfl, rfl⟩⟩
  · exact ⟨⟨fun _ => rfl, rfl, Nat.zero_le 1, Nat.zero_le 1⟩, .inl ⟨rfl, rfl, rfl, nofun, nofun, rfl, rfl, rfl⟩⟩

/-- In every run in which the session takes the identity of the peer, the engine becomes ready once at most and asks its
mechanism nothing more when it is, and the flags tell which timers are registered: none when the engine is deleted. -/
theorem ready_once {ops : List (Op σ μ)} (h : Run Plugged (Guarded (Allowed M S (welcomed S)) (Step M S)) ops e) :
    e.readied ≤ 1 ∧ e.identities ≤ 1 ∧ e.late = false ∧ (e.phase = .connected → ∀ k, e.mechanism = some k → M.status k = .ready →
        e.nextMsg ≠ .nextHandshakeCommand ∧ e.processMsg ≠ .processHandshakeCommand) ∧
      (∀ t, e.timers.count t = (e.has t).toNat) ∧ (e.phase = .dead → e.timers = []) ∧
      ∀ op, e.Ready M S op → e.Allowed M S (welcomed S) op → e.run M S op ≠ .error .timerNotFound := by
  have hJ : Orderly M e := run_keeps orderly_invariant (fun _ he => he.orderly) h
  refine ⟨hJ.1.readied, hJ.1.identities, hJ.1.late, fun hp k hk hready => ?_, hJ.1.armed, fun hp => ?_, fun op hop hG =>
    run_finds orderly_invariant (·.armed) hJ hop hG⟩
  · obtain ⟨-, ⟨-, k1, hk1, hn⟩ | ht⟩ := hJ.shaken hp
    · cases hk.symm.trans hk1
      exact absurd hready hn
    · exact ⟨ht.nextMsg, ht.processMsg⟩
  · have hnone : ∀ t, e.has t = false := by
      obtain ⟨htidy, hg | hstage | hd⟩ := hJ
      · cases hp.symm.trans hg.phase
      · cases hp.symm.trans (Shaken.phase ⟨htidy, hstage⟩)
      · exact hd.2
    refine List.eq_nil_iff_forall_not_mem.mpr fun t ht => ?_
    exact absurd (hJ.1.armed.fired ht).1 (by rw [hnone t]; nofun)

theorem welcomes_iff {e : Engine PipeSession μ} : e.Welcomes PipeSession.session ↔
    (e.settings.recvIdentity = true → e.nextMsg = .nextHandshakeCommand → e.session.room ≠ 0) := by
  have hidentity : ∀ identity, ((Msg.ofData identity).setFlags Msg.identity).isCommand = false := fun _ =>
    show ((0 ||| Msg.identity) &&& Msg.command != 0) = false by decide
  refine forall_congr' fun _ => forall_congr' fun _ => ⟨fun h hroom => ?_, fun hroom identity m s h => ?_⟩
  · obtain ⟨m, s, hfull⟩ := (PipeSession.pushMsg_full (hidentity [])).mpr hroom
    exact h [] m s hfull
  · exact hroom ((PipeSession.pushMsg_full (hidentity identity)).mp ⟨m, s, h⟩)

section Decidable

instance (e : Engine PipeSession μ) : Decidable (e.Welcomes PipeSession.session) := decidable_of_iff _ welcomes_iff.symm

instance (e : Engine PipeSession μ) (f : Frame) : Decidable ((welcomed PipeSession.session).frame e f) :=
  inferInstanceAs (Decidable (e.Welcomes PipeSession.session))

instance (e : Engine PipeSession μ) (w : Write) : Decidable ((welcomed PipeSession.session).output e w) :=
  inferInstanceAs (Decidable (e.Welcomes PipeSession.session))

instance (e : Engine PipeSession μ) (t : TimerId) (w : Write) : Decidable ((welcomed PipeSession.session).timer e t w) :=
  .isTrue trivial

instance (e : Engine PipeSession μ) : Decidable ((welcomed PipeSession.session).hangup e) := .isTrue trivial

end Decidable

def dealerReady : Msg :=
  (Msg.ofData (readyName ++ Metadata.encodeAll
    [(Metadata.socketTypeName, ascii ['D', 'E', 'A', 'L', 'E', 'R']), (Metadata.identityName, [])])).setFlags Msg.command

def routerHandshake : List (Op PipeSession NullMechanism.Checked) :=
  [.output .all, .greeting (List.replicate 54 0) (.complete (.zmtp3 (NullMechanism.unasked 6))) .nothing, .output .all,
    .input (.bytes ⟨[⟨dealerReady, .all⟩], false⟩), .output .all]

theorem ready_once_router : ∃ e, Run Plugged (Guarded (Allowed NullMechanism.engine PipeSession.session
      (welcomed PipeSession.session)) (Step NullMechanism.engine PipeSession.session)) routerHandshake e ∧
    (e.readied, e.identities) = (1, 1) ∧ e.timers.count .heartbeatIvl = (e.has .heartbeatIvl).toNat :=
  exists_run (P := fun e => (e.readied, e.identities) = (1, 1))
    (⟨routerSettings, .new [] 5, List.replicate 10 0, rfl⟩ : Plugged _) (by decide +kernel)
    fun _ hrun he => ⟨he, (ready_once hrun).2.2.2.2.1 _⟩

/-- A session whose pipe is full does not take the identity. `mechanism_ready` is begun again, with another timer, and the
first one is still registered when the engine has been deleted. -/
theorem timer_fires_on_deleted : ∃ ops e, Run Plugged (Step NullMechanism.engine PipeSession.session) ops e ∧
    e.phase = .dead ∧ .heartbeatIvl ∈ e.timers ∧
    e.run NullMechanism.engine PipeSession.session (.timer .heartbeatIvl .all) = .error .deleted := by
  refine ⟨routerHandshake ++ [.output .all, .terminate],
    exists_run_free (P := fun e => e.phase = .dead ∧ .heartbeatIvl ∈ e.timers)
      (⟨routerSettings, .new [] 0, List.replicate 10 0, rfl⟩ : Plugged _) (by decide +kernel)
      fun e _ ⟨hphase, htimers⟩ => ?_⟩
  exact ⟨hphase, htimers, if_pos hphase⟩

end Engine

end Zmq
