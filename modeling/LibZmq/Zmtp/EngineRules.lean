import LibZmq.Zmtp.EngineRuns

/-! The rules that carry a property of an engine from what a call is made of to calls, and from calls to runs. -/

namespace Zmq

open Option

namespace Engine

variable {σ μ : Type} {M : EngineMechanism μ} {S : EngineSession σ} {e e' : Engine σ μ} {w : Write}

/-- A property of talking engines that is kept by whatever is done to them, a heartbeat being asked for only if `H` allows
it: the heartbeat, whether output is stopped, what the next message is to be, and what the socket does. -/
structure Keeps (M : EngineMechanism μ) (S : EngineSession σ) (H : NextMsg → Bool → NextMsg → Write → Prop)
    (I : Engine σ μ → Prop) : Prop where
  push : ∀ {e e' m m' rc}, I e → e.push S m = .ok (rc, m', e') → I e'
  arm : ∀ {e t}, I e → e.has t = false → I (e.arm t)
  disarm : ∀ {e e' t}, I e → e.disarm t = .ok e' → I e'
  mechanism : ∀ {e} k, I e → I { e with mechanism := k }
  processMsg : ∀ {e} p, I e → I { e with processMsg := p }
  received : ∀ {e} m, I e → I { e with received := m }
  ping : ∀ {e e' w}, Talks e → I e → H .producePing e.outputStopped e.nextMsg w → e.requestPing.outEvent M S w = .ok e' → I e'
  pong : ∀ {e e' w}, Talks e → I e → H .producePong e.outputStopped e.nextMsg w → e.requestPong.outEvent M S w = .ok e' → I e'

/-- The frame is a PING, and it is about to be decoded. -/
def Pings (M : EngineMechanism μ) (e : Engine σ μ) (msg : Msg) : Prop :=
  (e.processMsg = .writeCredential ∨ e.processMsg = .decodeAndPush) ∧
    ∃ k m k' interval, e.mechanism = some k ∧ M.decode k msg = .ok (.ok m, k') ∧ m.isCommand = true ∧
      processCommand m.data = .ok (some interval)

def pings (M : EngineMechanism μ) (e : Engine σ μ) (msg : Msg) : Bool :=
  match e.mechanism.map (M.decode · msg) with
  | some (.ok (.ok m, _)) => m.isCommand && (processCommand m.data).toOption.join.isSome
  | _ => false

theorem pings_iff {msg : Msg} :
    Pings M e msg ↔ (e.processMsg = .writeCredential ∨ e.processMsg = .decodeAndPush) ∧ pings M e msg = true := by
  refine and_congr_right fun _ => ⟨fun ⟨k, m, k', interval, hk, hdec, hm, hcmd⟩ => ?_, fun h => ?_⟩
  · unfold pings
    rw [hk, map_some, hdec]
    dsimp only
    rw [hm, hcmd]
    rfl
  · unfold pings at h
    split at h
    · obtain ⟨hm, hcmd⟩ := Bool.and_eq_true_iff.mp h
      obtain ⟨k, hk, hdec⟩ := map_eq_some_iff.mp ‹_›
      obtain ⟨interval, hinterval⟩ := isSome_iff_exists.mp hcmd
      refine ⟨k, _, _, interval, hk, hdec, hm, ?_⟩
      cases hp : processCommand _ with
      | error crash =>
        rw [hp] at hinterval
        cases hinterval
      | ok r =>
        rw [hp] at hinterval
        exact congrArg _ hinterval
    · cases h

instance (msg : Msg) : Decidable (Pings M e msg) := decidable_of_iff _ pings_iff.symm

section Keeps

variable {H : NextMsg → Bool → NextMsg → Write → Prop} {I : Engine σ μ → Prop} {rc : Ret} {m m' : Msg}

theorem Keeps.armOnce (K : Keeps M S H I) (h : I e) (t : TimerId) (wanted : Bool) : I (e.armOnce t wanted) := by
  rcases e.armOnce_cases t wanted with heq | ⟨hhas, heq⟩
  · rwa [heq]
  · rw [heq]
    exact K.arm h hhas

theorem heartbeat_keeps (K : Keeps M S H I) (ht : Talks e) (hI : I e) {interval : Option UInt16}
    (hH : interval ≠ none → H .producePong e.outputStopped e.nextMsg w) (hx : e.heartbeat M S interval w = .ok e') :
    Talks e' ∧ I e' := by
  cases interval with
  | none =>
    cases hx
    exact ⟨ht, hI⟩
  | some ttl =>
    have halike := e.armOnce_alike .heartbeatTtl (0 < ttl)
    have ht' := ht.alike halike
    have hasked : Talks (e.armOnce .heartbeatTtl (0 < ttl)).requestPong := ⟨ht'.phase, nofun, ht'.processMsg⟩
    refine ⟨outEvent_talks hasked hx, K.pong ht' (K.armOnce hI _ _) ?_ hx⟩
    rw [halike.outputStopped, halike.nextMsg]
    exact hH (some_ne_none _)

theorem decodeAndPush_keeps (K : Keeps M S H I) (ht : Talks e) (hI : I e) (hp : e.processMsg = .decodeAndPush)
    (hH : Pings M e m → H .producePong e.outputStopped e.nextMsg w) (hx : e.decodeAndPush M S m w = .ok (rc, m', e')) :
    Talks e' ∧ I e' := by
  obtain ⟨k, hk, hx⟩ := bind_ok hx
  obtain ⟨⟨r, k'⟩, hdec, hx⟩ := bind_ok hx
  have ht0 : Talks { e with mechanism := some k' } := ⟨ht.phase, ht.nextMsg, ht.processMsg⟩
  have hI0 : I { e with mechanism := some k' } := K.mechanism _ hI
  cases r with
  | error errno =>
    cases hx
    exact ⟨ht0, hI0⟩
  | ok plain =>
    obtain ⟨e1, h1, hx⟩ := bind_ok hx
    obtain ⟨e2, h2, hx⟩ := bind_ok hx
    obtain ⟨interval, hint, hx⟩ := bind_ok hx
    obtain ⟨e3, h3, hx⟩ := bind_ok hx
    obtain ⟨⟨rc1, m1, e4⟩, h4, hx⟩ := bind_ok hx
    have halike := (disarm_alike h1).trans (disarm_alike h2)
    have hping : interval ≠ none → H .producePong e2.outputStopped e2.nextMsg w := fun hne => by
      rw [halike.outputStopped, halike.nextMsg]
      obtain ⟨i, rfl⟩ := ne_none_iff_exists'.mp hne
      unfold commandInterval at hint
      split_ifs at hint with hc
      · exact hH ⟨.inr hp, k, plain, k', i, theMechanism_eq hk, liftCrash_ok hdec, hc, liftCrash_ok hint⟩
      · cases hint
    obtain ⟨ht3, hI3⟩ := heartbeat_keeps K (ht0.alike halike) (K.disarm (K.disarm hI0 h1) h2) hping h3
    have ht4 := ht3.alike (push_alike h4)
    have hI4 := K.push hI3 h4
    cases hx
    split_ifs
    · exact ⟨⟨ht4.phase, ht4.nextMsg, nofun⟩, K.processMsg _ hI4⟩
    · exact ⟨ht4, hI4⟩

theorem writeCredential_keeps (K : Keeps M S H I) (ht : Talks e) (hI : I e) (hp : e.processMsg = .writeCredential)
    (hH : Pings M e m → H .producePong e.outputStopped e.nextMsg w) (hx : e.writeCredential M S m w = .ok (rc, m', e')) :
    Talks e' ∧ I e' := by
  obtain ⟨k, hk, hx⟩ := bind_ok hx
  obtain ⟨⟨rc1, e1⟩, h1, hx⟩ := bind_ok hx
  obtain ⟨halike, hmech, hI1⟩ : Alike e e1 ∧ e1.mechanism = e.mechanism ∧ I e1 := by
    unfold pushCredential at h1
    split_ifs at h1
    · cases h1
      exact ⟨⟨rfl, rfl, rfl, rfl⟩, rfl, hI⟩
    · obtain ⟨⟨rc2, m2, e2⟩, h2, h1⟩ := bind_ok h1
      cases h1
      refine ⟨push_alike h2, ?_, K.push hI h2⟩
      obtain ⟨s, -, rfl⟩ := push_cases h2
      rfl
  have ht1 := ht.alike halike
  dsimp only at hx
  split_ifs at hx
  · refine decodeAndPush_keeps K (e := { e1 with processMsg := .decodeAndPush }) ⟨ht1.phase, ht1.nextMsg, nofun⟩
      (K.processMsg _ hI1) rfl (fun hping => ?_) hx
    rw [halike.outputStopped, halike.nextMsg]
    refine hH ?_
    obtain ⟨-, k, plain, k', i, hk, hrest⟩ := hping
    exact ⟨.inl hp, k, plain, k', i, hmech ▸ hk, hrest⟩
  · cases hx
    exact ⟨ht1, hI1⟩

theorem process_keeps (K : Keeps M S H I) (ht : Talks e) (hI : I e)
    (hH : Pings M e m → H .producePong e.outputStopped e.nextMsg w)
    (hx : e.process M S m w = .ok (rc, e')) : Talks e' ∧ I e' := by
  obtain ⟨⟨rc1, m1, e1⟩, h1, hx⟩ := bind_ok hx
  obtain ⟨ht1, hI1⟩ : Talks e1 ∧ I e1 := by
    unfold handler at h1
    cases hp : e.processMsg with
    | processHandshakeCommand => exact absurd hp ht.processMsg
    | processIdentityMsg =>
      rw [hp] at h1
      obtain ⟨⟨m2, e2⟩, h2, h1⟩ := bind_ok h1
      obtain ⟨halike, hI2⟩ : Alike e e2 ∧ I e2 := by
        unfold takeIdentity at h2
        split_ifs at h2
        · obtain ⟨⟨rc3, m3, e3⟩, h3, h2⟩ := bind_ok h2
          obtain ⟨_, -, h2⟩ := bind_ok h2
          cases h2
          exact ⟨push_alike h3, K.push hI h3⟩
        · cases h2
          exact ⟨⟨rfl, rfl, rfl, rfl⟩, hI⟩
      have ht2 := ht.alike halike
      cases h1
      refine ⟨⟨ht2.phase, ht2.nextMsg, ?_⟩, K.processMsg _ hI2⟩
      split_ifs <;> rintro ⟨⟩
    | writeSubscriptionMsg =>
      rw [hp] at h1
      obtain ⟨⟨rc2, m2, e2⟩, h2, h1⟩ := bind_ok h1
      have ht2 := ht.alike (push_alike h2)
      have hI2 := K.push hI h2
      dsimp only at h1
      split_ifs at h1
      · obtain ⟨⟨rc3, m3, e3⟩, h3, h1⟩ := bind_ok h1
        cases h1
        exact ⟨Talks.alike (e := { e2 with processMsg := .pushMsgToSession }) ⟨ht2.phase, ht2.nextMsg, by rintro ⟨⟩⟩ (push_alike h3),
          K.push (K.processMsg _ hI2) h3⟩
      · cases h1
        exact ⟨ht2, hI2⟩
    | pushMsgToSession =>
      rw [hp] at h1
      obtain ⟨⟨rc2, m2, e2⟩, h2, h1⟩ := bind_ok h1
      cases h1
      exact ⟨ht.alike (push_alike h2), K.push hI h2⟩
    | writeCredential =>
      rw [hp] at h1
      exact writeCredential_keeps K ht hI hp hH h1
    | decodeAndPush =>
      rw [hp] at h1
      exact decodeAndPush_keeps K ht hI hp hH h1
    | pushOneThenDecodeAndPush =>
      rw [hp] at h1
      obtain ⟨⟨rc2, m2, e2⟩, h2, h1⟩ := bind_ok h1
      have ht2 := ht.alike (push_alike h2)
      have hI2 := K.push hI h2
      cases h1
      split_ifs
      · exact ⟨⟨ht2.phase, ht2.nextMsg, by rintro ⟨⟩⟩, K.processMsg _ hI2⟩
      · exact ⟨ht2, hI2⟩
  cases hx
  exact ⟨⟨ht1.phase, ht1.nextMsg, ht1.processMsg⟩, K.received _ hI1⟩

end Keeps

/-! Conditions on the steps of a run, and what is kept by the steps that meet them. -/

/-- What may happen: a frame may be handled, the poller or the session may have the engine write, a timer may fire, and the
poller may report an event while input is stopped. -/
structure Allowance (σ μ : Type) where
  frame : Engine σ μ → Frame → Prop
  output : Engine σ μ → Write → Prop
  timer : Engine σ μ → TimerId → Write → Prop
  hangup : Engine σ μ → Prop

variable (M S) (G : Allowance σ μ)

def FramesAllowed : Engine σ μ → List Frame → Prop
  | _, [] => True
  | e, f :: frames => G.frame e f ∧ ∀ e', e.process M S f.msg f.write = .ok (.ok, e') → FramesAllowed e' frames

def ReadingAllowed (e : Engine σ μ) : Reading → Prop
  | .bytes input => FramesAllowed M S G e input.frames
  | _ => True

def InputAllowed (e : Engine σ μ) (r : Reading) : Prop :=
  (e.inputStopped = true → G.hangup e) ∧ (e.inputStopped = false → ReadingAllowed M S G e r)

def RestartAllowed (e : Engine σ μ) (w : Write) (left : Input) (r : Reading) : Prop :=
  G.frame e ⟨e.received, w⟩ ∧ ∀ e1, e.process M S e.received w = .ok (.ok, e1) →
    FramesAllowed M S G e1 left.frames ∧ ∀ e2, e1.processAll M S left.frames left.malformed = .ok (.drained, e2) →
      InputAllowed M S G { e2 with inputStopped := false, pollin := true } r

/-- Everything that happens in the course of a call is allowed. -/
def Allowed (e : Engine σ μ) : Op σ μ → Prop
  | .session _ | .deliver _ | .terminate => True
  | .greeting queued g r => ∀ p, g = .complete p → ∀ e1, (e.queue queued).connect p = .ok e1 → InputAllowed M S G e1 r
  | .input r => InputAllowed M S G e r
  | .output w => G.output e w
  | .restartOutput s w => G.output { e with session := s } w
  | .restartInput w left r => RestartAllowed M S G e w left r
  | .zapMsgAvailable w left r w' => ∀ k k', e.mechanism = some k → M.zapMsgAvailable k = .ok (.ok, k') →
    (e.inputStopped = true → RestartAllowed M S G { e with mechanism := some k' } w left r) ∧
      ∀ e1, restartInputIfStopped M S { e with mechanism := some k' } w left r = .ok e1 → G.output e1 w'
  | .timer t w => G.timer e t w

section Decidable

instance {ε α : Type} {x : Except ε α} {P : α → Prop} [∀ a, Decidable (P a)] : Decidable (∀ a, x = .ok a → P a) :=
  match x with
  | .error _ => .isTrue nofun
  | .ok a => decidable_of_iff (P a) ⟨fun h _ heq => Except.ok.inj heq ▸ h, fun h => h a rfl⟩

instance {ε α : Type} {x : Except ε (Ret × α)} {P : α → Prop} [∀ a, Decidable (P a)] :
    Decidable (∀ a, x = .ok (.ok, a) → P a) :=
  match x with
  | .error _ => .isTrue nofun
  | .ok (.error _, _) => .isTrue nofun
  | .ok (.ok, a) => decidable_of_iff (P a) ⟨fun h _ heq => (Prod.mk.inj (Except.ok.inj heq)).2 ▸ h, fun h => h a rfl⟩

instance {ε α : Type} {x : Except ε (Ending × α)} {P : α → Prop} [∀ a, Decidable (P a)] :
    Decidable (∀ a, x = .ok (.drained, a) → P a) :=
  match x with
  | .error _ => .isTrue nofun
  | .ok (.eagain, _) => .isTrue nofun
  | .ok (.protocolError, _) => .isTrue nofun
  | .ok (.drained, a) => decidable_of_iff (P a) ⟨fun h _ heq => (Prod.mk.inj (Except.ok.inj heq)).2 ▸ h, fun h => h a rfl⟩

variable [∀ e f, Decidable (G.frame e f)] [∀ e w, Decidable (G.output e w)] [∀ e t w, Decidable (G.timer e t w)]
  [∀ e, Decidable (G.hangup e)]

instance decidableFramesAllowed : (e : Engine σ μ) → (frames : List Frame) → Decidable (FramesAllowed M S G e frames)
  | _, [] => .isTrue trivial
  | e, f :: frames =>
    have := fun e' : Engine σ μ => decidableFramesAllowed e' frames
    inferInstanceAs (Decidable (G.frame e f ∧ ∀ e', e.process M S f.msg f.write = .ok (.ok, e') → FramesAllowed M S G e' frames))

instance (e : Engine σ μ) (r : Reading) : Decidable (ReadingAllowed M S G e r) :=
  match r with
  | .nothing | .closed => .isTrue trivial
  | .bytes input => decidableFramesAllowed M S G e input.frames

instance (e : Engine σ μ) (r : Reading) : Decidable (InputAllowed M S G e r) :=
  inferInstanceAs (Decidable ((e.inputStopped = true → G.hangup e) ∧ (e.inputStopped = false → ReadingAllowed M S G e r)))

instance (e : Engine σ μ) (w : Write) (left : Input) (r : Reading) : Decidable (RestartAllowed M S G e w left r) :=
  inferInstanceAs (Decidable (G.frame e ⟨e.received, w⟩ ∧ ∀ e1, e.process M S e.received w = .ok (.ok, e1) →
    FramesAllowed M S G e1 left.frames ∧ ∀ e2, e1.processAll M S left.frames left.malformed = .ok (.drained, e2) →
      InputAllowed M S G { e2 with inputStopped := false, pollin := true } r))

instance (e : Engine σ μ) (op : Op σ μ) : Decidable (e.Allowed M S G op) :=
  match op with
  | .session _ | .deliver _ | .terminate => .isTrue trivial
  | .greeting _ .incomplete _ | .greeting _ .failed _ => .isTrue nofun
  | .greeting queued (.complete p) r =>
    decidable_of_iff (∀ e1, (e.queue queued).connect p = .ok e1 → InputAllowed M S G e1 r)
      ⟨fun h _ heq => Greeted.complete.inj heq ▸ h, fun h => h p rfl⟩
  | .input r => inferInstanceAs (Decidable (InputAllowed M S G e r))
  | .output w => inferInstanceAs (Decidable (G.output e w))
  | .restartOutput s w => inferInstanceAs (Decidable (G.output { e with session := s } w))
  | .restartInput w left r => inferInstanceAs (Decidable (RestartAllowed M S G e w left r))
  | .zapMsgAvailable w left r w' =>
    match hk : e.mechanism with
    | none => .isTrue fun _ _ heq => nomatch hk.symm.trans heq
    | some k =>
      decidable_of_iff (∀ k', M.zapMsgAvailable k = .ok (.ok, k') →
        (e.inputStopped = true → RestartAllowed M S G { e with mechanism := some k' } w left r) ∧
          ∀ e1, restartInputIfStopped M S { e with mechanism := some k' } w left r = .ok e1 → G.output e1 w')
        ⟨fun h _ k' heq => some.inj (hk.symm.trans heq) ▸ h k', fun h k' => h k k' hk⟩
  | .timer t w => inferInstanceAs (Decidable (G.timer e t w))

end Decidable

structure Invariant (J W : Engine σ μ → Prop) : Prop where
  weak : ∀ {e}, J e → W e
  error : ∀ {e e'}, W e → e.terminate = .ok e' → J e'
  process : ∀ {e e' m w rc}, e.phase = .connected → J e → G.frame e ⟨m, w⟩ → e.process M S m w = .ok (rc, e') →
    W e' ∧ e'.phase = .connected ∧ (rc = .ok ∨ rc = .error .eagain → J e')
  output : ∀ {e e' w}, e.phase ≠ .dead → J e → e.pollout = true → G.output e w → e.outEvent M S w = .ok e' → J e'
  restart : ∀ {e e'} s {w}, e.phase ≠ .dead → J e → G.output { e with session := s } w →
    restartOutput M S { e with session := s } w = .ok e' → J e'
  timer : ∀ {e e' t w}, J e → t ∈ e.timers → G.timer e t w → e.executeTimer M S t w = .ok e' → J e'
  hangup : ∀ {e}, J e → G.hangup e → J { e with ioError := true, pollin := false, pollout := false }
  input : ∀ {e} stopped pollin, J e → J { e with inputStopped := stopped, pollin := pollin }
  session : ∀ {e s}, e.Ready M S (.session s) → J e → J { e with session := s }
  deliver : ∀ {e} frames, J e → J { e with mechanism := e.mechanism.map (M.deliver · frames) }
  zap : ∀ {e k k' rc}, J e → e.mechanism = some k → M.zapMsgAvailable k = .ok (rc, k') →
    W { e with mechanism := some k' } ∧ (rc = .ok → J { e with mechanism := some k' })
  queue : ∀ {e} queued, e.phase = .greeting → J e → J (e.queue queued)
  connect : ∀ {e e' p}, e.phase = .greeting → (Greeted.complete p).Fresh M → J e → e.connect p = .ok e' → J e' ∧ e'.phase = .connected

variable {M S G} {J W : Engine σ μ → Prop} {r : Reading} {left : Input}

theorem processAll_keeps (K : Invariant M S G J W) {frames : List Frame} {malformed : Bool} {ending : Ending}
    (hp : e.phase = .connected) (hJ : J e) (hG : FramesAllowed M S G e frames)
    (hx : e.processAll M S frames malformed = .ok (ending, e')) :
    W e' ∧ e'.phase = .connected ∧ (ending ≠ .protocolError → J e') := by
  induction frames generalizing e with
  | nil =>
    cases hx
    exact ⟨K.weak hJ, hp, fun _ => hJ⟩
  | cons f frames ih =>
    obtain ⟨⟨rc, e1⟩, h1, hx⟩ := bind_ok hx
    obtain ⟨hW1, hp1, hJ1⟩ := K.process hp hJ hG.1 h1
    cases rc with
    | ok => exact ih hp1 (hJ1 (.inl rfl)) (hG.2 e1 h1) hx
    | error errno =>
      cases errno with
      | eagain =>
        cases hx
        exact ⟨hW1, hp1, fun _ => hJ1 (.inr rfl)⟩
      | _ =>
        cases hx
        exact ⟨hW1, hp1, fun hne => absurd rfl hne⟩

theorem inEvent_keeps (K : Invariant M S G J W) (hp : e.phase = .connected) (hJ : J e)
    (hG : InputAllowed M S G e r) (hx : e.inEvent M S r = .ok e') : J e' := by
  obtain ⟨_, -, hx⟩ := bind_ok hx
  split_ifs at hx with hstopped
  · cases hx
    exact K.hangup hJ (hG.1 hstopped)
  · have hG := hG.2 (eq_false_of_ne_true hstopped)
    cases r with
    | nothing =>
      cases hx
      exact hJ
    | closed => exact K.error (K.weak hJ) hx
    | bytes input =>
      obtain ⟨⟨ending, e1⟩, h1, hx⟩ := bind_ok hx
      obtain ⟨hW1, -, hJ1⟩ := processAll_keeps K hp hJ hG h1
      cases ending with
      | drained =>
        cases hx
        exact hJ1 nofun
      | eagain =>
        cases hx
        exact K.input true false (hJ1 nofun)
      | protocolError => exact K.error hW1 hx

theorem restartInput_keeps (K : Invariant M S G J W) (hp : e.phase = .connected) (hJ : J e)
    (hG : RestartAllowed M S G e w left r) (hx : e.restartInput M S w left r = .ok e') : J e' := by
  obtain ⟨_, -, hx⟩ := bind_ok hx
  obtain ⟨⟨rc, e1⟩, h1, hx⟩ := bind_ok hx
  obtain ⟨hW1, hp1, hJ1⟩ := K.process hp hJ hG.1 h1
  cases rc with
  | error errno =>
    cases errno with
    | eagain =>
      cases hx
      exact hJ1 (.inr rfl)
    | _ => exact K.error hW1 hx
  | ok =>
    obtain ⟨hframes, hrest⟩ := hG.2 e1 h1
    obtain ⟨⟨ending, e2⟩, h2, hx⟩ := bind_ok hx
    obtain ⟨hW2, hp2, hJ2⟩ := processAll_keeps K hp1 (hJ1 (.inl rfl)) hframes h2
    dsimp only at hx
    split_ifs at hx with heagain hio herror
    · cases hx
      rw [heagain] at hJ2
      exact hJ2 nofun
    · exact K.error hW2 hx
    · exact K.error hW2 hx
    · have hdrained : ending = .drained := by
        cases ending with
        | drained => rfl
        | eagain => exact absurd rfl heagain
        | protocolError => exact absurd rfl herror
      rw [hdrained] at h2
      exact inEvent_keeps K (e := { e2 with inputStopped := false, pollin := true }) hp2 (K.input false true (hJ2 herror))
        (hrest e2 h2) hx

theorem zapMsgAvailable_keeps (K : Invariant M S G J W) {w' : Write} (hp : e.phase = .connected)
    (hJ : J e) (hG : e.Allowed M S G (.zapMsgAvailable w left r w')) (hx : e.zapMsgAvailable M S w left r w' = .ok e') :
    J e' := by
  obtain ⟨k, hk, hx⟩ := bind_ok hx
  obtain ⟨⟨rc, k'⟩, hz, hx⟩ := bind_ok hx
  have hk := theMechanism_eq hk
  have hz := liftCrash_ok hz
  obtain ⟨hW1, hJ1⟩ := K.zap hJ hk hz
  cases rc with
  | error errno => exact K.error hW1 hx
  | ok =>
    obtain ⟨hrestart, hout⟩ := hG k k' hk hz
    obtain ⟨e1, h1, hx⟩ := bind_ok hx
    have hJ2 : J e1 := by
      have h1' := h1
      unfold restartInputIfStopped at h1'
      split_ifs at h1' with hstopped
      · exact restartInput_keeps K (e := { e with mechanism := some k' }) hp (hJ1 rfl) (hrestart hstopped) h1'
      · cases h1'
        exact hJ1 rfl
    split_ifs at hx with hdead
    unfold restartIfStopped at hx
    split_ifs at hx
    · exact K.restart e1.session hdead hJ2 (hout e1 h1) hx
    · cases hx
      exact hJ2

theorem step_keeps (K : Invariant M S G J W) {op : Op σ μ} (hJ : J e) (hG : e.Allowed M S G op) (hx : Step M S e op e') :
    J e' := by
  obtain ⟨hready, hx⟩ := hx
  cases op with
  | session s =>
    cases hx
    exact K.session hready hJ
  | deliver frames =>
    cases hx
    exact K.deliver frames hJ
  | greeting queued g r =>
    obtain ⟨_, -, hx⟩ := bind_ok hx
    obtain ⟨hready, hfresh⟩ := hready
    have hJ1 := K.queue queued hready hJ
    cases g with
    | incomplete =>
      cases hx
      exact hJ1
    | failed => exact K.error (K.weak hJ1) hx
    | complete p =>
      obtain ⟨e1, h1, hx⟩ := bind_ok hx
      obtain ⟨hJ2, hp⟩ := K.connect (e := e.queue queued) hready hfresh hJ1 h1
      exact inEvent_keeps K hp hJ2 (hG p rfl e1 h1) hx
  | input r => exact inEvent_keeps K hready hJ hG hx
  | output w => exact K.output hready.1 hJ hready.2 hG hx
  | restartOutput s w => exact K.restart s hready hJ hG hx
  | restartInput w left r => exact restartInput_keeps K hready hJ hG hx
  | zapMsgAvailable w left r w' => exact zapMsgAvailable_keeps K hready hJ hG hx
  | timer t w => exact K.timer hJ hready hG hx
  | terminate => exact K.error (K.weak hJ) hx

theorem run_keeps (K : Invariant M S G J W) {init : Engine σ μ → Prop} (h0 : ∀ e, init e → J e) {ops : List (Op σ μ)}
    (h : Run init (Guarded (Allowed M S G) (Step M S)) ops e) : J e :=
  h.invariant J h0 fun _ _ _ hJ hs => step_keeps K hJ hs.1 hs.2

theorem Keeps.invariant {H : NextMsg → Bool → NextMsg → Write → Prop} {I : Engine σ μ → Prop} (K : Keeps M S H I)
    (frame : ∀ {e m w}, I e → G.frame e ⟨m, w⟩ → Pings M e m → H .producePong e.outputStopped e.nextMsg w)
    (timer : ∀ {e w}, I e → G.timer e .heartbeatIvl w → H .producePing e.outputStopped e.nextMsg w)
    (timers : ∀ {e} timers, I e → I { e with timers := timers })
    (output : ∀ {e e' w}, Talks e → I e → e.pollout = true → G.output e w → e.outEvent M S w = .ok e' → I e')
    (restart : ∀ {e e'} s {w}, Talks e → I e → G.output { e with session := s } w →
      restartOutput M S { e with session := s } w = .ok e' → Talks e' ∧ I e')
    (hangup : ∀ {e}, I e → G.hangup e → I { e with ioError := true, pollin := false, pollout := false })
    (input : ∀ {e} stopped pollin, I e → I { e with inputStopped := stopped, pollin := pollin })
    (session : ∀ {e s}, e.Ready M S (.session s) → I e → I { e with session := s }) :
    Invariant M S G (fun e => e.phase = .dead ∨ Talks e ∧ I e) fun _ => True where
  weak _ := trivial
  error _ hx := by
    obtain ⟨e1, -, hx⟩ := bind_ok hx
    cases hx
    exact .inl rfl
  process hp hJ hG hx := by
    obtain ⟨ht, hI⟩ := hJ.resolve_left (hp ▸ nofun)
    have hkeeps := process_keeps K ht hI (frame hI hG) hx
    exact ⟨trivial, hkeeps.1.phase, fun _ => .inr hkeeps⟩
  output hp hJ hpoll hG hx := by
    obtain ⟨ht, hI⟩ := hJ.resolve_left hp
    exact .inr ⟨outEvent_talks ht hx, output ht hI hpoll hG hx⟩
  restart s _ hp hJ hG hx := by
    obtain ⟨ht, hI⟩ := hJ.resolve_left hp
    exact .inr (restart s ht hI hG hx)
  timer {e e' t w} hJ _ hG hx := by
    unfold executeTimer at hx
    split_ifs at hx with hdead
    obtain ⟨ht, hI⟩ := hJ.resolve_left hdead
    obtain ⟨e1, h1, hx⟩ := bind_ok hx
    cases hx
    cases t with
    | heartbeatIvl =>
      obtain ⟨e2, h2, h1⟩ := bind_ok h1
      cases h1
      have hasked : Talks e.requestPing := ⟨ht.phase, nofun, ht.processMsg⟩
      have ht2 := outEvent_talks hasked h2
      exact .inr ⟨⟨ht2.phase, ht2.nextMsg, ht2.processMsg⟩, show I { e2 with timers := _ } from timers _ (K.ping ht hI (timer hI hG) h2)⟩
    | _ =>
      obtain ⟨e2, -, h1⟩ := bind_ok h1
      cases h1
      exact .inl rfl
  hangup hJ hG := hJ.imp id fun ⟨ht, hI⟩ => ⟨⟨ht.phase, ht.nextMsg, ht.processMsg⟩, hangup hI hG⟩
  input a b hJ := hJ.imp id fun ⟨ht, hI⟩ => ⟨⟨ht.phase, ht.nextMsg, ht.processMsg⟩, input a b hI⟩
  session hr hJ := hJ.imp id fun ⟨ht, hI⟩ => ⟨⟨ht.phase, ht.nextMsg, ht.processMsg⟩, session hr hI⟩
  deliver _ hJ := hJ.imp id fun ⟨ht, hI⟩ => ⟨⟨ht.phase, ht.nextMsg, ht.processMsg⟩, K.mechanism _ hI⟩
  zap hJ _ _ := ⟨trivial, fun _ => hJ.imp id fun ⟨ht, hI⟩ => ⟨⟨ht.phase, ht.nextMsg, ht.processMsg⟩, K.mechanism _ hI⟩⟩
  queue _ hp hJ := absurd hp (hJ.elim (fun h => h ▸ nofun) fun h => h.1.phase ▸ nofun)
  connect hp _ hJ _ := absurd hp (hJ.elim (fun h => h ▸ nofun) fun h => h.1.phase ▸ nofun)

end Engine

end Zmq
