import LibZmq.Zmtp.EngineReady

/-! An engine whose connection has failed while input was stopped: its descriptor has been removed from the poller, and
what is left in its buffers is still to be processed. -/

namespace Zmq

open Except

namespace Engine

variable {σ μ : Type} {M : EngineMechanism μ} {S : EngineSession σ} {e e1 e' : Engine σ μ} {w : Write}

structure Rests (e e' : Engine σ μ) : Prop where
  ioError : e'.ioError = e.ioError
  pollin : e'.pollin = e.pollin
  inputStopped : e'.inputStopped = e.inputStopped
  phase : e'.phase = e.phase
  pollout : e.ioError = true → e'.pollout = e.pollout

theorem Rests.refl (e : Engine σ μ) : Rests e e := ⟨rfl, rfl, rfl, rfl, fun _ => rfl⟩

theorem Rests.trans (h : Rests e e1) (h' : Rests e1 e') : Rests e e' where
  ioError := h'.ioError.trans h.ioError
  pollin := h'.pollin.trans h.pollin
  inputStopped := h'.inputStopped.trans h.inputStopped
  phase := h'.phase.trans h.phase
  pollout hio := (h'.pollout (h.ioError.trans hio)).trans (h.pollout hio)

def Calm {α : Type} (e : Engine σ μ) (st : α → Engine σ μ) (x : Except EngineFault α) : Prop :=
  x ≠ .error .ioError ∧ ∀ a, x = .ok a → Rests e (st a)

section Calm

variable {α β : Type} {st : α → Engine σ μ} {st' : β → Engine σ μ} {x : Except EngineFault α}
  {f : α → Except EngineFault β} {a : α}

theorem calm_ok (h : Rests e (st a)) : Calm e st (.ok a) :=
  ⟨nofun, fun _ heq => ok.inj heq ▸ h⟩

theorem calm_error {fault : EngineFault} (h : fault ≠ .ioError) : Calm e st (.error fault) :=
  ⟨fun heq => h (error.inj heq), fun _ heq => nomatch heq⟩

theorem Calm.bind (hx : Calm e st x) (hf : ∀ a, x = .ok a → Calm (st a) st' (f a)) : Calm e st' (x >>= f) := by
  cases x with
  | error fault => exact ⟨fun h => hx.1 (congrArg _ (error.inj h)), nofun⟩
  | ok a => exact ⟨(hf a rfl).1, fun b h => (hx.2 a rfl).trans ((hf a rfl).2 b h)⟩

theorem Calm.after (h : Rests e e1) (hx : Calm e1 st x) : Calm e st x := ⟨hx.1, fun a ha => h.trans (hx.2 a ha)⟩

theorem calm_liftCrash (e : Engine σ μ) (x : Except Crash α) : Calm e (fun _ => e) (liftCrash x) := by
  cases x with
  | error crash => exact calm_error nofun
  | ok a => exact calm_ok (.refl e)

theorem calm_liftCodec (e : Engine σ μ) (x : Except CodecFault α) : Calm e (fun _ => e) (liftCodec x) := by
  cases x with
  | error fault => exact calm_error nofun
  | ok a => exact calm_ok (.refl e)

theorem calm_assert (e : Engine σ μ) (p : Prop) [Decidable p] : Calm e (fun _ => e) (assert p) := calm_liftCrash e _

theorem calm_theMechanism (e : Engine σ μ) : Calm e (fun _ => e) e.theMechanism := by
  unfold theMechanism
  split
  · exact calm_error (by rintro ⟨⟩)
  · exact calm_ok (.refl e)

theorem calm_assertNoIoError (h : e.ioError = false) : Calm e (fun _ => e) e.assertNoIoError := by
  unfold assertNoIoError
  rw [h]
  exact calm_ok (.refl e)

end Calm

theorem push_calm (e : Engine σ μ) (m : Msg) : Calm e (·.2.2) (e.push S m) :=
  (calm_liftCrash e _).bind fun _ _ => calm_ok ⟨rfl, rfl, rfl, rfl, fun _ => rfl⟩

theorem disarm_calm (e : Engine σ μ) (t : TimerId) : Calm e id (e.disarm t) := by
  unfold disarm cancelTimer
  split_ifs
  · exact calm_ok ⟨rfl, rfl, rfl, rfl, fun _ => rfl⟩
  · exact calm_error nofun
  · exact calm_ok (.refl e)

theorem armOnce_rests (e : Engine σ μ) (t : TimerId) (wanted : Bool) : Rests e (e.armOnce t wanted) := by
  rcases e.armOnce_cases t wanted with h | ⟨-, h⟩
  · rw [h]
    exact .refl e
  · rw [h]
    exact ⟨rfl, rfl, rfl, rfl, fun _ => rfl⟩

theorem encode_calm (e : Engine σ μ) (m : Msg) : Calm e (·.2) (e.encode M m) :=
  (calm_theMechanism e).bind fun _ _ => (calm_liftCrash e _).bind fun _ _ => calm_ok ⟨rfl, rfl, rfl, rfl, fun _ => rfl⟩

theorem pullMsgFromSession_rests (e : Engine σ μ) : Rests e (e.pullMsgFromSession S).2 := by
  rcases e.pullMsgFromSession_cases (S := S) with ⟨s, -, h⟩ | ⟨m, s, -, h⟩
  · rw [h]
    exact ⟨rfl, rfl, rfl, rfl, fun _ => rfl⟩
  · rw [h]
    exact ⟨rfl, rfl, rfl, rfl, fun _ => rfl⟩

theorem pullAndEncode_calm (e : Engine σ μ) : Calm e (·.2) (e.pullAndEncode M S) := by
  have hpull := pullMsgFromSession_rests (S := S) e
  unfold pullAndEncode
  dsimp only
  split
  · exact calm_ok hpull
  · refine Calm.after hpull ((encode_calm _ _).bind fun _ _ => ?_)
    exact calm_ok (.refl _)

theorem pushIdentity_calm (e : Engine σ μ) (k : μ) : Calm e (·.2) (e.pushIdentity M S k) := by
  unfold pushIdentity
  split_ifs
  · refine (push_calm e _).bind fun r _ => ?_
    dsimp only
    split_ifs
    · exact calm_ok (.refl _)
    · exact (calm_assert _ _).bind fun _ _ => calm_ok ⟨rfl, rfl, rfl, rfl, fun _ => rfl⟩
  · exact calm_ok (.refl e)

theorem mechanismReady_calm (e : Engine σ μ) : Calm e id (e.mechanismReady M S) := by
  have harmed : Rests e (if 0 < e.settings.heartbeatInterval then e.arm .heartbeatIvl else e) := by
    split_ifs
    · exact ⟨rfl, rfl, rfl, rfl, fun _ => rfl⟩
    · exact .refl e
  refine Calm.after harmed ((calm_theMechanism _).bind fun k _ => (pushIdentity_calm _ k).bind fun r _ => ?_)
  dsimp only
  split
  · exact calm_ok (.refl _)
  · exact (calm_assert _ _).bind fun _ _ => calm_ok ⟨rfl, rfl, rfl, rfl, fun _ => rfl⟩

theorem next_calm (e : Engine σ μ) : Calm e (·.2) (e.next M S) := by
  unfold next
  split
  · exact calm_ok ⟨rfl, rfl, rfl, rfl, fun _ => rfl⟩
  · exact calm_ok (pullMsgFromSession_rests e)
  · refine (calm_theMechanism e).bind fun k _ => ?_
    split
    · exact (mechanismReady_calm e).bind fun e1 _ => pullAndEncode_calm e1
    · exact calm_ok (.refl e)
    · exact (calm_liftCrash e _).bind fun _ _ => calm_ok ⟨rfl, rfl, rfl, rfl, fun _ => rfl⟩
  · exact pullAndEncode_calm e
  · refine (encode_calm e _).bind fun r _ => calm_ok (Rests.trans ?_ (armOnce_rests _ _ _))
    exact ⟨rfl, rfl, rfl, rfl, fun _ => rfl⟩
  · exact (encode_calm e _).bind fun _ _ => calm_ok ⟨rfl, rfl, rfl, rfl, fun _ => rfl⟩

theorem load_calm (e : Engine σ μ) (null : Bool) (m : Msg) : Calm e id (e.load null m) := by
  unfold load
  split
  · exact calm_error nofun
  · exact (calm_liftCodec e _).bind fun _ _ => (calm_liftCodec e _).bind fun _ _ => (calm_assert e _).bind fun _ _ =>
      calm_ok ⟨rfl, rfl, rfl, rfl, fun _ => rfl⟩

theorem settle_rests (e : Engine σ μ) (n : NextMsg) : Rests e (e.settle n) := by
  cases n <;> exact ⟨rfl, rfl, rfl, rfl, fun _ => rfl⟩

theorem fill_calm (fuel : ℕ) (null : Bool) (e : Engine σ μ) : Calm e id (fill M S fuel null e) := by
  induction fuel generalizing null e with
  | zero => exact calm_ok (.refl e)
  | succ fuel ih =>
    unfold fill
    split_ifs
    · refine (next_calm e).bind fun r _ => ?_
      dsimp only
      split
      · exact calm_ok (.refl _)
      · exact (load_calm _ _ _).bind fun e1 _ => (ih false _).after (settle_rests e1 _)
    · exact calm_ok (.refl e)

theorem writeOut_rests (h : e.ioError = false) (w : Write) : Rests e (e.writeOut w) := by
  cases w <;> exact ⟨rfl, rfl, rfl, rfl, fun hio => nomatch h.symm.trans hio⟩

theorem outEvent_calm (h : e.ioError = false) (w : Write) : Calm e id (e.outEvent M S w) := by
  refine (calm_assertNoIoError h).bind fun _ _ => ?_
  split_ifs
  · split
    · exact (calm_assert e _).bind fun _ _ => calm_ok (.refl e)
    · rename_i kind encoder _
      refine (calm_liftCodec e _).bind fun r _ => ?_
      have hfilled : Rests e { e with out := r.1, encoder := some (kind, r.2) } := ⟨rfl, rfl, rfl, rfl, fun _ => rfl⟩
      refine Calm.after hfilled ((fill_calm _ _ _).bind fun e1 h1 => ?_)
      have hio : e1.ioError = false := ((fill_calm _ _ _).2 e1 h1).ioError.trans h
      split_ifs
      · exact calm_ok ⟨rfl, rfl, rfl, rfl, fun hfailed => absurd (hio.symm.trans hfailed) (by simp)⟩
      · exact calm_ok (writeOut_rests hio w)
  · exact calm_ok (writeOut_rests h w)

theorem restartOutput_calm (e : Engine σ μ) (w : Write) : Calm e id (e.restartOutput M S w) := by
  unfold restartOutput
  split_ifs with hio
  · exact calm_ok (.refl e)
  · have hio := eq_false_of_ne_true hio
    have hstarted : Rests e { e with pollout := true, outputStopped := false } :=
      ⟨rfl, rfl, rfl, rfl, fun hfailed => nomatch hio.symm.trans hfailed⟩
    exact Calm.after hstarted (outEvent_calm (hstarted.ioError.trans hio) w)
  · exact outEvent_calm (eq_false_of_ne_true hio) w

theorem restartIfStopped_calm (e : Engine σ μ) (w : Write) : Calm e id (e.restartIfStopped M S w) := by
  unfold restartIfStopped
  split_ifs
  · exact restartOutput_calm e w
  · exact calm_ok (.refl e)

/-- The session takes the credential that it is offered before the first message. -/
def takesCredential (M : EngineMechanism μ) (S : EngineSession σ) (e : Engine σ μ) : Bool :=
  match e.mechanism with
  | none => false
  | some k =>
    match e.pushCredential S (M.base k).userId with
    | .ok (.ok, _) => true
    | _ => false

/-- The frame is a PING, and it is decoded at once. -/
def Answers (M : EngineMechanism μ) (S : EngineSession σ) (e : Engine σ μ) (msg : Msg) : Prop :=
  Pings M e msg ∧ (e.processMsg = .writeCredential → e.takesCredential M S = true)

theorem heartbeat_calm {interval : Option UInt16} (h : interval ≠ none → e.ioError = false) :
    Calm e id (e.heartbeat M S interval w) := by
  cases interval with
  | none => exact calm_ok (.refl e)
  | some ttl =>
    have harmed := armOnce_rests e .heartbeatTtl (0 < ttl)
    have hasked : Rests e (e.armOnce .heartbeatTtl (0 < ttl)).requestPong :=
      harmed.trans ⟨rfl, rfl, rfl, rfl, fun _ => rfl⟩
    exact Calm.after hasked (outEvent_calm (hasked.ioError.trans (h (Option.some_ne_none _))) w)

variable {m : Msg} {x : Except EngineFault (Engine σ μ)} {r : Reading} {left : Input}

theorem decodeAndPush_calm (hp : e.processMsg = .decodeAndPush) (h : Pings M e m → e.ioError = false) :
    Calm e (·.2.2) (e.decodeAndPush M S m w) := by
  refine (calm_theMechanism e).bind fun k hk => (calm_liftCrash e _).bind fun r hdec => ?_
  obtain ⟨r, k'⟩ := r
  have hdecoded : Rests e { e with mechanism := some k' } := ⟨rfl, rfl, rfl, rfl, fun _ => rfl⟩
  cases r with
  | error errno => exact calm_ok hdecoded
  | ok plain =>
    refine Calm.after hdecoded ((disarm_calm _ _).bind fun e1 h1 => (disarm_calm e1 _).bind fun e2 h2 => ?_)
    have hio : e2.ioError = e.ioError := (((disarm_calm _ _).2 e1 h1).trans ((disarm_calm _ _).2 e2 h2)).ioError
    refine Calm.bind (show Calm e2 (fun _ => e2) (commandInterval plain) from ?_) fun interval hint => ?_
    · unfold commandInterval
      split_ifs
      · exact calm_liftCrash e2 _
      · exact calm_ok (.refl e2)
    · refine (heartbeat_calm fun hne => ?_).bind fun e3 _ => (push_calm e3 plain).bind fun r _ => ?_
      · obtain ⟨i, rfl⟩ := Option.ne_none_iff_exists'.mp hne
        unfold commandInterval at hint
        split_ifs at hint with hc
        · exact hio.trans (h ⟨.inr hp, k, plain, k', i, theMechanism_eq hk, liftCrash_ok hdec, hc, liftCrash_ok hint⟩)
        · cases hint
      · dsimp only
        split_ifs
        · exact calm_ok ⟨rfl, rfl, rfl, rfl, fun _ => rfl⟩
        · exact calm_ok (.refl _)

theorem pushCredential_calm (e : Engine σ μ) (credential : List UInt8) : Calm e (·.2) (e.pushCredential S credential) := by
  unfold pushCredential
  split_ifs
  · exact calm_ok (.refl e)
  · exact (push_calm e _).bind fun _ _ => calm_ok (.refl _)

theorem pushCredential_mechanism {credential : List UInt8} {rc : PushRc} (h : e.pushCredential S credential = .ok (rc, e')) :
    e'.mechanism = e.mechanism := by
  unfold pushCredential at h
  split_ifs at h
  · cases h
    rfl
  · obtain ⟨⟨rc1, m1, e1⟩, h1, h⟩ := bind_ok h
    obtain ⟨s, -, rfl⟩ := push_cases h1
    cases h
    rfl

theorem writeCredential_calm (hp : e.processMsg = .writeCredential) (h : Answers M S e m → e.ioError = false) :
    Calm e (·.2.2) (e.writeCredential M S m w) := by
  refine (calm_theMechanism e).bind fun k hk => (pushCredential_calm e _).bind fun r hr => ?_
  obtain ⟨rc, e1⟩ := r
  have hk := theMechanism_eq hk
  dsimp only
  split_ifs with hrc
  · subst hrc
    have hpushed : Rests e e1 := (pushCredential_calm e _).2 _ hr
    have hdecoding : Rests e1 { e1 with processMsg := .decodeAndPush } := ⟨rfl, rfl, rfl, rfl, fun _ => rfl⟩
    refine Calm.after hdecoding (decodeAndPush_calm rfl fun hping => hpushed.ioError.trans (h ?_))
    obtain ⟨-, k1, plain, k', i, hk1, hrest⟩ := hping
    refine ⟨⟨.inl hp, k1, plain, k', i, (pushCredential_mechanism hr).symm.trans hk1, hrest⟩, fun _ => ?_⟩
    unfold takesCredential
    rw [hk]
    dsimp only
    rw [hr]
  · exact calm_ok (.refl e1)

theorem commandTaken_calm (e : Engine σ μ) (k : μ) (w : Write) : Calm e (·.2) (e.commandTaken M S k w) := by
  unfold commandTaken
  split
  · exact (mechanismReady_calm e).bind fun e1 _ => (restartIfStopped_calm e1 w).bind fun e2 _ => calm_ok (.refl e2)
  · exact calm_ok (.refl e)
  · exact (restartIfStopped_calm e w).bind fun e2 _ => calm_ok (.refl e2)

theorem process_calm (h : Answers M S e m → e.ioError = false) : Calm e (·.2) (e.process M S m w) := by
  refine Calm.bind (show Calm e (·.2.2) (e.handler M S m w) from ?_) fun r _ => calm_ok ⟨rfl, rfl, rfl, rfl, fun _ => rfl⟩
  unfold handler
  cases hp : e.processMsg with
  | processIdentityMsg =>
    refine Calm.bind (show Calm e (·.2) (e.takeIdentity S m) from ?_) fun r _ => calm_ok ⟨rfl, rfl, rfl, rfl, fun _ => rfl⟩
    unfold takeIdentity
    split_ifs
    · exact (push_calm e _).bind fun _ _ => (calm_assert _ _).bind fun _ _ => calm_ok (.refl _)
    · exact calm_ok (.refl e)
  | writeSubscriptionMsg =>
    refine (push_calm e _).bind fun r _ => ?_
    dsimp only
    split_ifs
    · have hnext : Rests r.2.2 { r.2.2 with processMsg := .pushMsgToSession } := ⟨rfl, rfl, rfl, rfl, fun _ => rfl⟩
      exact Calm.after hnext ((push_calm _ m).bind fun _ _ => calm_ok (.refl _))
    · exact calm_ok (.refl _)
  | pushMsgToSession => exact (push_calm e m).bind fun _ _ => calm_ok (.refl _)
  | processHandshakeCommand =>
    refine (calm_theMechanism e).bind fun k _ => ?_
    have hlate : Rests e { e with late := e.late || decide (M.status k = MechanismStatus.ready) } :=
      ⟨rfl, rfl, rfl, rfl, fun _ => rfl⟩
    refine Calm.after hlate ((calm_liftCrash _ _).bind fun r _ => ?_)
    obtain ⟨rc, k'⟩ := r
    cases rc with
    | error errno => exact calm_ok ⟨rfl, rfl, rfl, rfl, fun _ => rfl⟩
    | ok =>
      refine Calm.after ?_ ((commandTaken_calm _ k' w).bind fun _ _ => calm_ok (.refl _))
      exact ⟨rfl, rfl, rfl, rfl, fun _ => rfl⟩
  | writeCredential => exact writeCredential_calm hp h
  | decodeAndPush => exact decodeAndPush_calm hp fun hping => h ⟨hping, fun hw => absurd (hp.symm.trans hw) (by simp)⟩
  | pushOneThenDecodeAndPush =>
    refine (push_calm e m).bind fun r _ => calm_ok ?_
    split_ifs
    · exact ⟨rfl, rfl, rfl, rfl, fun _ => rfl⟩
    · exact .refl _

/-- The poller reports nothing about a descriptor that has been removed; the interval of the heartbeats does not end, and
no PING is answered, once the engine has failed. -/
def resting (M : EngineMechanism μ) (S : EngineSession σ) : Allowance σ μ where
  frame e f := e.ioError = true → ¬ Answers M S e f.msg
  output _ _ := True
  timer e t _ := t = .heartbeatIvl → e.ioError = false
  hangup e := e.ioError = false

structure Parked (e : Engine σ μ) : Prop where
  pollin : e.ioError = true → e.pollin = false
  pollout : e.ioError = true → e.pollout = false
  inputStopped : e.ioError = true → e.inputStopped = true
  phase : e.ioError = true → e.phase ≠ .greeting

theorem parked_of_sound (h : e.ioError = false) : Parked e := by
  have hno : ¬ e.ioError = true := fun hio => nomatch h.symm.trans hio
  exact ⟨fun hio => absurd hio hno, fun hio => absurd hio hno, fun hio => absurd hio hno, fun hio => absurd hio hno⟩

theorem Parked.rests (h : Parked e) (hr : Rests e e') : Parked e' where
  pollin hio := hr.pollin.trans (h.pollin (hr.ioError.symm.trans hio))
  pollout hio := (hr.pollout (hr.ioError.symm.trans hio)).trans (h.pollout (hr.ioError.symm.trans hio))
  inputStopped hio := hr.inputStopped.trans (h.inputStopped (hr.ioError.symm.trans hio))
  phase hio := hr.phase ▸ h.phase (hr.ioError.symm.trans hio)

def Parks (x : Except EngineFault (Engine σ μ)) : Prop := x ≠ .error .ioError ∧ ∀ e', x = .ok e' → Parked e'

theorem parks_ok (h : Parked e) : Parks (.ok e) := ⟨nofun, fun _ heq => ok.inj heq ▸ h⟩

theorem Calm.parks (hx : Calm e id x) (h : Parked e) : Parks x :=
  ⟨hx.1, fun e' he => h.rests (hx.2 e' he)⟩

theorem Calm.bind_parks {α : Type} {st : α → Engine σ μ} {x : Except EngineFault α} {f : α → Except EngineFault (Engine σ μ)}
    (hx : Calm e st x) (hf : ∀ a, x = .ok a → Rests e (st a) → Parks (f a)) : Parks (x >>= f) := by
  cases x with
  | error fault => exact ⟨fun h => hx.1 (congrArg _ (error.inj h)), fun _ h => nomatch h⟩
  | ok a => exact hf a rfl (hx.2 a rfl)

theorem Parks.bind {f : Engine σ μ → Except EngineFault (Engine σ μ)} (hx : Parks x)
    (hf : ∀ e', x = .ok e' → Parked e' → Parks (f e')) : Parks (x >>= f) := by
  cases x with
  | error fault => exact ⟨fun h => hx.1 (congrArg _ (error.inj h)), fun _ h => nomatch h⟩
  | ok e' => exact hf e' rfl (hx.2 e' rfl)

theorem unplug_calm (e : Engine σ μ) : Calm e id e.unplug :=
  (disarm_calm e _).bind fun e1 _ => (disarm_calm e1 _).bind fun e2 _ => (disarm_calm e2 _).bind fun e3 _ => disarm_calm e3 _

theorem terminate_parks (h : Parked e) : Parks e.terminate := by
  refine (unplug_calm e).bind_parks fun e1 _ hr => parks_ok ?_
  have h1 := h.rests hr
  exact ⟨h1.pollin, h1.pollout, h1.inputStopped, fun _ => nofun⟩

theorem processAll_calm {frames : List Frame} {malformed : Bool} (hG : FramesAllowed M S (resting M S) e frames) :
    Calm e (·.2) (e.processAll M S frames malformed) := by
  induction frames generalizing e with
  | nil => exact calm_ok (.refl e)
  | cons f frames ih =>
    have hsound : Answers M S e f.msg → e.ioError = false := fun hanswers =>
      eq_false_of_ne_true fun hio => hG.1 hio hanswers
    refine (process_calm hsound).bind fun r hr => ?_
    obtain ⟨rc, e1⟩ := r
    cases rc with
    | ok => exact ih (hG.2 e1 hr)
    | error errno => cases errno <;> exact calm_ok (.refl e1)

theorem inEvent_parks (hp : e.phase = .connected) (h : Parked e) (hG : InputAllowed M S (resting M S) e r) :
    Parks (e.inEvent M S r) := by
  have hio : e.ioError = false := by
    cases hs : e.inputStopped with
    | true => exact hG.1 hs
    | false => exact eq_false_of_ne_true fun hio => nomatch hs.symm.trans (h.inputStopped hio)
  refine (calm_assertNoIoError hio).bind_parks fun _ _ _ => ?_
  split_ifs with hstopped
  · exact parks_ok ⟨fun _ => rfl, fun _ => rfl, fun _ => hstopped, fun _ => hp ▸ nofun⟩
  · have hG := hG.2 (eq_false_of_ne_true hstopped)
    cases r with
    | nothing => exact parks_ok h
    | closed => exact terminate_parks h
    | bytes input =>
      refine (processAll_calm hG).bind_parks fun a _ hr => ?_
      obtain ⟨ending, e1⟩ := a
      have hio1 : e1.ioError = false := hr.ioError.trans hio
      cases ending with
      | drained | eagain => exact parks_ok (parked_of_sound hio1)
      | protocolError => exact terminate_parks (h.rests hr)

theorem restartInput_parks (hp : e.phase = .connected) (h : Parked e)
    (hG : RestartAllowed M S (resting M S) e w left r) : Parks (e.restartInput M S w left r) := by
  have hsound : Answers M S e e.received → e.ioError = false := fun hanswers =>
    eq_false_of_ne_true fun hio => hG.1 hio hanswers
  refine (calm_assert e _).bind_parks fun _ _ _ => (process_calm hsound).bind_parks fun a ha hr => ?_
  obtain ⟨rc, e1⟩ := a
  have h1 : Parked e1 := h.rests hr
  cases rc with
  | error errno =>
    cases errno with
    | eagain => exact parks_ok h1
    | _ => exact terminate_parks h1
  | ok =>
    obtain ⟨hframes, hrest⟩ := hG.2 e1 ha
    refine (processAll_calm hframes).bind_parks fun b hb hr2 => ?_
    obtain ⟨ending, e2⟩ := b
    have h2 : Parked e2 := h1.rests hr2
    dsimp only
    split_ifs with heagain hio herror
    · exact parks_ok h2
    · exact terminate_parks h2
    · exact terminate_parks h2
    · have hdrained : ending = .drained := by
        cases ending with
        | drained => rfl
        | eagain => exact absurd rfl heagain
        | protocolError => exact absurd rfl herror
      rw [hdrained] at hb
      have hio2 : ({ e2 with inputStopped := false, pollin := true } : Engine σ μ).ioError = false := eq_false_of_ne_true hio
      exact inEvent_parks ((hr2.phase.trans hr.phase).trans hp) (parked_of_sound hio2) (hrest e2 hb)

theorem zapMsgAvailable_parks {w' : Write} (hp : e.phase = .connected) (h : Parked e)
    (hG : e.Allowed M S (resting M S) (.zapMsgAvailable w left r w')) : Parks (e.zapMsgAvailable M S w left r w') := by
  refine (calm_theMechanism e).bind_parks fun k hk _ => (calm_liftCrash e _).bind_parks fun a hz _ => ?_
  obtain ⟨rc, k'⟩ := a
  have hk := theMechanism_eq hk
  have hz := liftCrash_ok hz
  have h0 : Parked { e with mechanism := some k' } := h.rests ⟨rfl, rfl, rfl, rfl, fun _ => rfl⟩
  cases rc with
  | error errno => exact terminate_parks h0
  | ok =>
    have hrestarted : Parks (restartInputIfStopped M S { e with mechanism := some k' } w left r) := by
      unfold restartInputIfStopped
      split_ifs with hstopped
      · exact restartInput_parks hp h0 ((hG k k' hk hz).1 hstopped)
      · exact parks_ok h0
    refine hrestarted.bind fun e1 _ h1 => ?_
    split_ifs
    · exact ⟨nofun, fun _ heq => nomatch heq⟩
    · exact (restartIfStopped_calm e1 w').parks h1

theorem connect_cases {p : Spoken μ} (hx : e.connect p = .ok e') : e'.ioError = e.ioError ∧ e'.phase = .connected := by
  have hdisarmed : ∀ e1 : Engine σ μ, e1.ioError = e.ioError → e1.phase = .connected → e1.disarm .handshake = .ok e' →
      e'.ioError = e.ioError ∧ e'.phase = .connected := fun e1 hio hp h => by
    have hr := (disarm_calm _ _).2 e' h
    exact ⟨hr.ioError.trans hio, hr.phase.trans hp⟩
  cases p with
  | unversioned encoder | older kind | zmtp3 k => exact hdisarmed _ (by rfl) (by rfl) hx

theorem greetingEvent_parks {queued : List UInt8} {g : Greeted μ} (hp : e.phase = .greeting) (h : Parked e)
    (hG : e.Allowed M S (resting M S) (.greeting queued g r)) : Parks (e.greetingEvent M S queued g r) := by
  have hio : e.ioError = false := eq_false_of_ne_true fun hio => h.phase hio hp
  have hqueued : Parked (e.queue queued) := parked_of_sound hio
  refine (calm_assertNoIoError hio).bind_parks fun _ _ _ => ?_
  cases g with
  | incomplete => exact parks_ok hqueued
  | failed => exact terminate_parks hqueued
  | complete p =>
    have hconnected : Parks ((e.queue queued).connect p) := by
      refine ⟨fun hx => ?_, fun e1 h1 => parked_of_sound ((connect_cases h1).1.trans hio)⟩
      cases p with
      | unversioned encoder | older kind | zmtp3 k => exact (disarm_calm _ _).1 hx
    exact hconnected.bind fun e1 h1 hparked => inEvent_parks (connect_cases h1).2 hparked (hG p rfl e1 h1)

theorem executeTimer_parks {t : TimerId} (h : Parked e) (hG : t = .heartbeatIvl → e.ioError = false) :
    Parks (e.executeTimer M S t w) := by
  unfold executeTimer
  split_ifs
  · exact ⟨nofun, fun _ heq => nomatch heq⟩
  · refine Parks.bind ?_ fun e1 _ h1 => parks_ok (h1.rests ⟨rfl, rfl, rfl, rfl, fun _ => rfl⟩)
    cases t with
    | heartbeatIvl =>
      have hasked : e.requestPing.ioError = false := hG rfl
      exact (outEvent_calm hasked w).bind_parks fun e1 _ hr => parks_ok (parked_of_sound (hr.ioError.trans hasked))
    | handshake | heartbeatTtl | heartbeatTimeout => exact terminate_parks ⟨h.pollin, h.pollout, h.inputStopped, h.phase⟩

theorem run_parks {op : Op σ μ} (h : Parked e) (hready : e.Ready M S op) (hG : e.Allowed M S (resting M S) op) :
    Parks (e.run M S op) := by
  cases op with
  | session s | deliver frames => exact parks_ok (h.rests ⟨rfl, rfl, rfl, rfl, fun _ => rfl⟩)
  | greeting queued g r => exact greetingEvent_parks hready.1 h hG
  | input r => exact inEvent_parks hready h hG
  | output w =>
    have hio : e.ioError = false := eq_false_of_ne_true fun hio => nomatch (h.pollout hio).symm.trans hready.2
    exact (outEvent_calm hio w).parks h
  | restartOutput s w =>
    have hactive : Rests e { e with session := s } := ⟨rfl, rfl, rfl, rfl, fun _ => rfl⟩
    exact (restartOutput_calm _ w).parks (h.rests hactive)
  | restartInput w left r => exact restartInput_parks hready h hG
  | zapMsgAvailable w left r w' => exact zapMsgAvailable_parks hready h hG
  | timer t w => exact executeTimer_parks h hG
  | terminate => exact terminate_parks h

theorem Plugged.parked (h : Plugged e) : Parked e := by
  obtain ⟨o, session, greeting, rfl⟩ := h
  refine parked_of_sound ?_
  unfold plug
  split_ifs <;> rfl

/-- In every run in which the poller reports nothing about a descriptor that has been removed, and in which no heartbeat is
due once the engine has failed, a failed engine asks nothing of the poller, and neither `in_event` nor `out_event` is
entered. -/
theorem failed_engine_rests {ops : List (Op σ μ)} (h : Run Plugged (Guarded (Allowed M S (resting M S)) (Step M S)) ops e) :
    (e.ioError = true → e.pollin = false ∧ e.pollout = false ∧ e.inputStopped = true) ∧
      ∀ op, e.Ready M S op → e.Allowed M S (resting M S) op → e.run M S op ≠ .error .ioError := by
  have hparked : Parked e := h.invariant Parked (fun e he => he.parked) fun e op e' hparked hs =>
    (run_parks hparked hs.2.1 hs.1).2 e' hs.2.2
  exact ⟨fun hio => ⟨hparked.pollin hio, hparked.pollout hio, hparked.inputStopped hio⟩, fun op hready hG =>
    (run_parks hparked hready hG).1⟩

section Decidable

instance (e : Engine σ μ) (f : Frame) : Decidable ((resting M S).frame e f) :=
  inferInstanceAs (Decidable (e.ioError = true → ¬ (Pings M e f.msg ∧ (e.processMsg = .writeCredential → e.takesCredential M S = true))))

instance (e : Engine σ μ) (w : Write) : Decidable ((resting M S).output e w) := .isTrue trivial

instance (e : Engine σ μ) (t : TimerId) (w : Write) : Decidable ((resting M S).timer e t w) :=
  inferInstanceAs (Decidable (t = .heartbeatIvl → e.ioError = false))

instance (e : Engine σ μ) : Decidable ((resting M S).hangup e) := inferInstanceAs (Decidable (e.ioError = false))

end Decidable

theorem executeTimer_fails (hio : e.ioError = true) (hp : e.phase ≠ .dead) :
    e.executeTimer M S .heartbeatIvl w = .error .ioError := by
  have hassert : e.requestPing.assertNoIoError = .error .ioError := if_pos hio
  unfold executeTimer timerEvent outEvent
  rw [if_neg hp, hassert]
  rfl

/-- A session with room for the identity of its peer only, so that the message that follows stops the input; then the
connection is closed by the peer. -/
def closedWhileStopped : List (Op PipeSession NullMechanism.Checked) :=
  routerHandshake ++ [.input (.bytes ⟨[⟨.ofData [7], .all⟩], false⟩), .input .closed]

theorem plugged_full : Plugged
    (plug routerSettings (.new [] 1) (List.replicate 10 0) : Engine PipeSession NullMechanism.Checked) :=
  ⟨_, _, _, rfl⟩

theorem failed_engine_rests_stopped : ∃ e, Run Plugged (Guarded (Allowed NullMechanism.engine PipeSession.session
      (resting NullMechanism.engine PipeSession.session)) (Step NullMechanism.engine PipeSession.session))
      (closedWhileStopped ++ [.restartOutput (.new [.ofFrame (.ofData [7])] 0) .all]) e ∧
    e.ioError = true ∧ e.pollin = false ∧ e.pollout = false ∧ e.inputStopped = true :=
  exists_run (P := fun e => e.ioError = true) plugged_full (by decide +kernel)
    fun _ hrun he => ⟨he, (failed_engine_rests hrun).1 he⟩

/-- The interval of the heartbeats ends before the session has room again; or the session has room, and a PING is found
in what is left of the input. -/
theorem failed_engine_writes : ∃ e, Run Plugged (Guarded (Allowed NullMechanism.engine PipeSession.session
      (resting NullMechanism.engine PipeSession.session)) (Step NullMechanism.engine PipeSession.session))
      (closedWhileStopped ++ [.session ⟨.new [], 5, true⟩]) e ∧ (.heartbeatIvl ∈ e.timers ∧
      e.run NullMechanism.engine PipeSession.session (.timer .heartbeatIvl .all) = .error .ioError) ∧ e.phase = .connected ∧
      e.run NullMechanism.engine PipeSession.session (.restartInput .all ⟨[⟨ping, .all⟩], false⟩ .nothing) = .error .ioError := by
  refine exists_run (P := fun e => e.ioError = true ∧ e.phase = .connected ∧ .heartbeatIvl ∈ e.timers ∧
    (match e.run NullMechanism.engine PipeSession.session (.restartInput .all ⟨[⟨ping, .all⟩], false⟩ .nothing) with
      | .error fault => some fault
      | .ok _ => none) = some .ioError) plugged_full (by decide +kernel) fun e _ ⟨hio, hphase, htimer, he⟩ =>
    ⟨⟨htimer, executeTimer_fails hio (hphase ▸ nofun)⟩, hphase, ?_⟩
  split at he
  · rename_i fault hfault
    rw [hfault, Option.some.inj he]
  · cases he

end Engine

end Zmq
