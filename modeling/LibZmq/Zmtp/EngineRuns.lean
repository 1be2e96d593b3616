import LibZmq.Zmtp.Connection
import LibZmq.Zmtp.Engine

/-! Whole runs of an engine: what its session, its poller and the handler of its mechanism may call, in any order, and what
each of these calls is made of. -/

namespace Zmq

open Except

namespace Engine

variable {σ μ : Type}

inductive Op (σ μ : Type) where
  | session (s : σ)
  | deliver (frames : List Msg)
  | greeting (queued : List UInt8) (g : Greeted μ) (r : Reading)
  | input (r : Reading)
  | output (w : Write)
  /-- the pipe of the session is activated, which leaves it in some state -/
  | restartOutput (s : σ) (w : Write)
  | restartInput (w : Write) (left : Input) (r : Reading)
  | zapMsgAvailable (w : Write) (left : Input) (r : Reading) (w' : Write)
  | timer (t : TimerId) (w : Write)
  | terminate

variable (M : EngineMechanism μ) (S : EngineSession σ)

def Greeted.Fresh (g : Greeted μ) : Prop :=
  match g with
  | .complete (.zmtp3 k) => M.status k = .handshaking
  | _ => True

instance (g : Greeted μ) : Decidable (g.Fresh M) := by
  unfold Greeted.Fresh
  split <;> infer_instance

/-- The poller calls `out_event` as long as it polls for output. A timer that is registered may fire, whatever has become
of the engine. -/
def Ready (e : Engine σ μ) : Op σ μ → Prop
  | .session s => e.phase ≠ .dead ∧ (S.asleep e.session = true → S.asleep s = true)
  | .deliver _ => e.phase ≠ .dead
  | .greeting _ g _ => e.phase = .greeting ∧ g.Fresh M
  | .input _ | .restartInput _ _ _ | .zapMsgAvailable _ _ _ _ => e.phase = .connected
  | .output _ => e.phase ≠ .dead ∧ e.pollout = true
  | .restartOutput _ _ | .terminate => e.phase ≠ .dead
  | .timer t _ => t ∈ e.timers

instance (e : Engine σ μ) (op : Op σ μ) : Decidable (e.Ready M S op) := by
  cases op <;> unfold Ready <;> infer_instance

def run (e : Engine σ μ) : Op σ μ → Except EngineFault (Engine σ μ)
  | .session s => .ok { e with session := s }
  | .deliver frames => .ok { e with mechanism := e.mechanism.map (M.deliver · frames) }
  | .greeting queued g r => e.greetingEvent M S queued g r
  | .input r => e.inEvent M S r
  | .output w => e.outEvent M S w
  | .restartOutput s w => restartOutput M S { e with session := s } w
  | .restartInput w left r => e.restartInput M S w left r
  | .zapMsgAvailable w left r w' => e.zapMsgAvailable M S w left r w'
  | .timer t w => e.executeTimer M S t w
  | .terminate => e.terminate

abbrev Step : Engine σ μ → Op σ μ → Engine σ μ → Prop := Does (Ready M S) (run M S)

variable {M S} {e e' : Engine σ μ} {w : Write} {α : Type} {m m' : Msg} {rc : PushRc} {t : TimerId} {null : Bool} {fuel : ℕ}
    {r : Except MechErrno Msg}

theorem liftCodec_ok {x : Except CodecFault α} {a : α} (h : liftCodec x = .ok a) : x = .ok a := by
  cases x with
  | error _ => cases h
  | ok _ => exact congrArg ok (ok.inj h)

theorem liftCrash_ok {x : Except Crash α} {a : α} (h : liftCrash x = .ok a) : x = .ok a := by
  cases x with
  | error _ => cases h
  | ok _ => exact congrArg ok (ok.inj h)

theorem assert_eq {p : Prop} [Decidable p] {x : Unit} (h : assert p = .ok x) : p := Block.assert_eq (liftCrash_ok h)

theorem assertNoIoError_eq {x : Unit} (h : e.assertNoIoError = .ok x) : e.ioError = false := by
  unfold assertNoIoError at h
  split_ifs at h with hio
  exact eq_false_of_ne_true hio

theorem theMechanism_eq {k : μ} (h : e.theMechanism = .ok k) : e.mechanism = some k := by
  unfold theMechanism at h
  cases hm : e.mechanism with
  | none =>
    rw [hm] at h
    cases h
  | some k1 =>
    rw [hm] at h
    exact congrArg some (ok.inj h)

theorem push_cases (h : e.push S m = .ok (rc, m', e')) :
    ∃ s, S.pushMsg e.session m = .ok (rc, m', s) ∧ e' = { e with session := s } := by
  obtain ⟨⟨rc1, m1, s⟩, hpush, h⟩ := bind_ok h
  cases h
  exact ⟨s, liftCrash_ok hpush, rfl⟩

theorem disarm_cases (h : e.disarm t = .ok e') : (e.has t = false ∧ e' = e) ∨ (e.has t = true ∧ t ∈ e.timers ∧
        e' = { e with has := Function.update e.has t false, timers := e.timers.erase t }) := by
  unfold disarm at h
  split_ifs at h with ht
  · unfold cancelTimer at h
    split_ifs at h with hmem
    exact .inr ⟨ht, hmem, (ok.inj h).symm⟩
  · exact .inl ⟨eq_false_of_ne_true ht, (ok.inj h).symm⟩

inductive OutEvent (M : EngineMechanism μ) (S : EngineSession σ) (e : Engine σ μ) (w : Write) : Engine σ μ → Prop
  | writes (hout : e.out ≠ []) : OutEvent M S e w (e.writeOut w)
  | greeting (hphase : e.phase = .greeting) : OutEvent M S e w e
  | idle {kind encoder encoder' bytes e'} (hout : e.out = []) (henc : e.encoder = some (kind, encoder))
    (hbytes : encoder.encode kind.act none = .ok (bytes, encoder'))
    (hfill : fill M S StreamEngine.outBatchSize encoder.inProgress.isNone
      { e with out := bytes, encoder := some (kind, encoder') } = .ok e') (hout' : e'.out = []) :
    OutEvent M S e w { e' with outputStopped := true, pollout := false }
  | fills {kind encoder encoder' bytes e'} (hout : e.out = []) (henc : e.encoder = some (kind, encoder))
    (hbytes : encoder.encode kind.act none = .ok (bytes, encoder'))
    (hfill : fill M S StreamEngine.outBatchSize encoder.inProgress.isNone
      { e with out := bytes, encoder := some (kind, encoder') } = .ok e') (hout' : e'.out ≠ []) :
    OutEvent M S e w (e'.writeOut w)

theorem outEvent_cases (h : e.outEvent M S w = .ok e') : OutEvent M S e w e' := by
  obtain ⟨_, -, h⟩ := bind_ok h
  split_ifs at h with hout
  · cases henc : e.encoder with
    | none =>
      rw [henc] at h
      obtain ⟨_, hphase, h⟩ := bind_ok h
      cases h
      exact .greeting (assert_eq hphase)
    | some x =>
      obtain ⟨kind, encoder⟩ := x
      rw [henc] at h
      obtain ⟨⟨bytes, encoder'⟩, hbytes, h⟩ := bind_ok h
      obtain ⟨e1, hfill, h⟩ := bind_ok h
      split_ifs at h with hout'
      · cases h
        exact .idle hout henc (liftCodec_ok hbytes) hfill hout'
      · cases h
        exact .fills hout henc (liftCodec_ok hbytes) hfill hout'
  · cases h
    exact .writes hout

theorem load_eq {m : Msg} (h : e.load null m = .ok e') :
    ∃ bytes encoder, e' = { e with out := e.out ++ bytes, encoder := encoder } := by
  unfold load at h
  cases henc : e.encoder with
  | none =>
    rw [henc] at h
    cases h
  | some x =>
    rw [henc] at h
    obtain ⟨encoder, -, h⟩ := bind_ok h
    obtain ⟨⟨bytes, encoder'⟩, -, h⟩ := bind_ok h
    obtain ⟨_, -, h⟩ := bind_ok h
    exact ⟨bytes, _, (ok.inj h).symm⟩

theorem fill_keeps {I : Engine σ μ → Prop} (hstop : ∀ {e errno e'}, I e → e.next M S = .ok (.error errno, e') → I e')
    (hload : ∀ {e m e'} bytes encoder, I e → e.next M S = .ok (.ok m, e') →
      I (settle { e' with out := e'.out ++ bytes, encoder := encoder } e.nextMsg))
    {null : Bool} (hI : I e) (h : fill M S fuel null e = .ok e') : I e' := by
  induction fuel generalizing e null with
  | zero =>
    cases h
    exact hI
  | succ fuel ih =>
    unfold fill at h
    split_ifs at h
    · obtain ⟨⟨r, e1⟩, hnext, h⟩ := bind_ok h
      cases r with
      | error errno =>
        cases h
        exact hstop hI hnext
      | ok m =>
        obtain ⟨e2, hl, h⟩ := bind_ok h
        obtain ⟨bytes, encoder, rfl⟩ := load_eq hl
        exact ih (hload bytes encoder hI hnext) h
    · cases h
      exact hI

/-! An engine that has its handshake behind it. -/

structure Talks (e : Engine σ μ) : Prop where
  phase : e.phase = .connected
  nextMsg : e.nextMsg ≠ .nextHandshakeCommand
  processMsg : e.processMsg ≠ .processHandshakeCommand

inductive Next (M : EngineMechanism μ) (S : EngineSession σ) (e : Engine σ μ) : Except MechErrno Msg → Engine σ μ → Prop
  | identity (hn : e.nextMsg = .identityMsg) : Next M S e (.ok (.ofData e.settings.identity)) { e with nextMsg := .pullMsgFromSession }
  | nothing {s} (hn : e.nextMsg = .pullMsgFromSession ∨ e.nextMsg = .pullAndEncode) (hpull : S.pullMsg e.session = (none, s)) :
    Next M S e (.error .eagain) { e with session := s }
  | pulled {m s} (hn : e.nextMsg = .pullMsgFromSession) (hpull : S.pullMsg e.session = (some m, s)) :
    Next M S e (.ok m) { e with session := s }
  | encoded {m m' s k k'} (hn : e.nextMsg = .pullAndEncode) (hpull : S.pullMsg e.session = (some m, s))
    (hmech : e.mechanism = some k) (henc : M.encode k m = .ok (m', k')) :
    Next M S e (.ok m') { e with session := s, mechanism := some k' }
  | ping {m' k k'} (hn : e.nextMsg = .producePing) (hmech : e.mechanism = some k) (hlen : m'.data.length ≤ 71) :
    Next M S e (.ok m')
      (armOnce { e with mechanism := some k', nextMsg := .pullAndEncode } .heartbeatTimeout (0 < e.settings.timeout))
  | pong {m' k k'} (hn : e.nextMsg = .producePong) (hmech : e.mechanism = some k) (hlen : m'.data.length ≤ 71) :
    Next M S e (.ok m') { e with mechanism := some k', nextMsg := .pullAndEncode }

theorem encode_cases (h : e.encode M m = .ok (m', e')) :
    ∃ k k', e.mechanism = some k ∧ M.encode k m = .ok (m', k') ∧ e' = { e with mechanism := some k' } := by
  obtain ⟨k, hk, h⟩ := bind_ok h
  obtain ⟨⟨m1, k'⟩, henc, h⟩ := bind_ok h
  cases h
  exact ⟨k, k', theMechanism_eq hk, liftCrash_ok henc, rfl⟩

theorem pullMsgFromSession_cases (e : Engine σ μ) :
    (∃ s, S.pullMsg e.session = (none, s) ∧ e.pullMsgFromSession S = (.error .eagain, { e with session := s })) ∨
      ∃ m s, S.pullMsg e.session = (some m, s) ∧ e.pullMsgFromSession S = (.ok m, { e with session := s }) := by
  unfold pullMsgFromSession
  cases hpull : S.pullMsg e.session with
  | mk r s =>
    cases r with
    | none => exact .inl ⟨s, rfl, rfl⟩
    | some m => exact .inr ⟨m, s, rfl, rfl⟩

theorem next_cases (hn : e.nextMsg ≠ .nextHandshakeCommand) (h : e.next M S = .ok (r, e')) : Next M S e r e' := by
  unfold next at h
  cases hnext : e.nextMsg with
  | identityMsg =>
    rw [hnext] at h
    cases h
    exact .identity hnext
  | pullMsgFromSession =>
    rw [hnext] at h
    rcases e.pullMsgFromSession_cases (S := S) with ⟨s, hpull, heq⟩ | ⟨m, s, hpull, heq⟩
    · cases heq ▸ h
      exact .nothing (.inl hnext) hpull
    · cases heq ▸ h
      exact .pulled hnext hpull
  | nextHandshakeCommand => exact absurd hnext hn
  | pullAndEncode =>
    rw [hnext] at h
    unfold pullAndEncode at h
    rcases e.pullMsgFromSession_cases (S := S) with ⟨s, hpull, heq⟩ | ⟨m, s, hpull, heq⟩
    · rw [heq] at h
      cases h
      exact .nothing (.inr hnext) hpull
    · rw [heq] at h
      obtain ⟨⟨m', e1⟩, henc, h⟩ := bind_ok h
      cases h
      obtain ⟨k, k', hk, hk', rfl⟩ := encode_cases henc
      exact .encoded hnext hpull hk hk'
  | producePing =>
    rw [hnext] at h
    obtain ⟨⟨m', e1⟩, henc, h⟩ := bind_ok h
    cases h
    obtain ⟨k, k', hk, hk', rfl⟩ := encode_cases henc
    exact .ping hnext hk (M.encode_length hk')
  | producePong =>
    rw [hnext] at h
    obtain ⟨⟨m', e1⟩, henc, h⟩ := bind_ok h
    cases h
    obtain ⟨k, k', hk, hk', rfl⟩ := encode_cases henc
    exact .pong hnext hk ((M.encode_length hk').trans (show 5 + 64 ≤ 71 by decide))

theorem armOnce_cases (e : Engine σ μ) (t : TimerId) (wanted : Bool) :
    e.armOnce t wanted = e ∨ (e.has t = false ∧ e.armOnce t wanted = e.arm t) := by
  unfold armOnce
  split_ifs with h
  · exact .inr ⟨by simpa using (Bool.and_eq_true_iff.mp h).1, rfl⟩
  · exact .inl rfl

structure Alike (e e' : Engine σ μ) : Prop where
  phase : e'.phase = e.phase
  nextMsg : e'.nextMsg = e.nextMsg
  processMsg : e'.processMsg = e.processMsg
  outputStopped : e'.outputStopped = e.outputStopped

theorem Alike.trans {e1 e2 e3 : Engine σ μ} (h : Alike e1 e2) (h' : Alike e2 e3) : Alike e1 e3 :=
  ⟨h'.phase.trans h.phase, h'.nextMsg.trans h.nextMsg, h'.processMsg.trans h.processMsg, h'.outputStopped.trans h.outputStopped⟩

theorem Talks.alike (h : Talks e) (ha : Alike e e') : Talks e' :=
  ⟨ha.phase.trans h.phase, ha.nextMsg ▸ h.nextMsg, ha.processMsg ▸ h.processMsg⟩

theorem push_alike (h : e.push S m = .ok (rc, m', e')) : Alike e e' := by
  obtain ⟨s, -, rfl⟩ := push_cases h
  exact ⟨rfl, rfl, rfl, rfl⟩

theorem disarm_alike (h : e.disarm t = .ok e') : Alike e e' := by
  rcases disarm_cases h with ⟨-, rfl⟩ | ⟨-, -, rfl⟩ <;> exact ⟨rfl, rfl, rfl, rfl⟩

theorem armOnce_alike (e : Engine σ μ) (t : TimerId) (wanted : Bool) : Alike e (e.armOnce t wanted) := by
  rcases e.armOnce_cases t wanted with h | ⟨-, h⟩ <;> rw [h] <;> exact ⟨rfl, rfl, rfl, rfl⟩

theorem next_talks (h : Talks e) (hx : e.next M S = .ok (r, e')) : Talks e' := by
  cases next_cases h.nextMsg hx with
  | identity hn => exact ⟨h.phase, nofun, h.processMsg⟩
  | nothing | pulled | encoded => exact ⟨h.phase, h.nextMsg, h.processMsg⟩
  | @ping _ _ k' =>
    have hasked : Talks { e with mechanism := some k', nextMsg := .pullAndEncode } := ⟨h.phase, nofun, h.processMsg⟩
    exact hasked.alike (armOnce_alike _ _ _)
  | pong => exact ⟨h.phase, nofun, h.processMsg⟩

theorem Talks.filled (h : Talks e) (out : List UInt8) (encoder : Option (EncoderKind × Encoder)) :
    Talks { e with out := out, encoder := encoder } :=
  ⟨h.phase, h.nextMsg, h.processMsg⟩

theorem settle_talks (h : Talks e) (n : NextMsg) : Talks (e.settle n) := by
  cases n <;> exact ⟨h.phase, h.nextMsg, h.processMsg⟩

theorem writeOut_talks (h : Talks e) (w : Write) : Talks (e.writeOut w) := by
  cases w <;> exact ⟨h.phase, h.nextMsg, h.processMsg⟩

theorem fill_talks (h : Talks e) (hx : fill M S fuel null e = .ok e') : Talks e' :=
  fill_keeps (fun h hx => next_talks h hx)
    (fun _ _ h hx => settle_talks ((next_talks h hx).filled _ _) _) h hx

theorem outEvent_talks (h : Talks e) (hx : e.outEvent M S w = .ok e') : Talks e' := by
  cases outEvent_cases hx with
  | writes => exact writeOut_talks h w
  | greeting => exact h
  | idle _ _ _ hfill =>
    have ht := fill_talks (h.filled _ _) hfill
    exact ⟨ht.phase, ht.nextMsg, ht.processMsg⟩
  | fills _ _ _ hfill =>
    exact writeOut_talks (fill_talks (h.filled _ _) hfill) w

end Engine

end Zmq
