import LibZmq.Zmtp.EngineMechanisms
import LibZmq.Zmtp.EngineRules

/-! The heartbeats that an engine is to send: `next_msg` is all that remembers them. -/

namespace Zmq

namespace Engine

variable {σ μ : Type} {M : EngineMechanism μ} {S : EngineSession σ} {e e' : Engine σ μ} {w : Write} {null : Bool} {fuel : ℕ}

structure Remembers (e : Engine σ μ) : Prop where
  pong : e.owesPong = true → e.nextMsg = .producePong
  ping : e.owesPing = true → e.nextMsg = .producePing

theorem armOnce_owes (e : Engine σ μ) (t : TimerId) (wanted : Bool) :
    (e.armOnce t wanted).owesPong = e.owesPong ∧ (e.armOnce t wanted).owesPing = e.owesPing := by
  rcases e.armOnce_cases t wanted with h | ⟨-, h⟩ <;> rw [h] <;> exact ⟨rfl, rfl⟩

theorem next_owes {r : Except MechErrno Msg} (h : Next M S e r e') : e'.owesPong = e.owesPong ∧ e'.owesPing = e.owesPing := by
  cases h with
  | @ping _ _ k' => exact armOnce_owes { e with mechanism := some k', nextMsg := .pullAndEncode } _ _
  | _ => exact ⟨rfl, rfl⟩

theorem Remembers.settled (h : Remembers e) (e' : Engine σ μ) (n : NextMsg) (hpong : e'.owesPong = e.owesPong)
    (hping : e'.owesPing = e.owesPing) :
    (settle { e' with nextMsg := n } e.nextMsg).owesPong = false ∧ (settle { e' with nextMsg := n } e.nextMsg).owesPing = false := by
  have hpong' : e.nextMsg ≠ .producePong → e'.owesPong = false := fun hn => by
    rw [hpong]
    exact eq_false_of_ne_true fun hc => hn (h.pong hc)
  have hping' : e.nextMsg ≠ .producePing → e'.owesPing = false := fun hn => by
    rw [hping]
    exact eq_false_of_ne_true fun hc => hn (h.ping hc)
  cases hn : e.nextMsg with
  | producePing => exact ⟨hpong' (by rw [hn]; nofun), rfl⟩
  | producePong => exact ⟨rfl, hping' (by rw [hn]; nofun)⟩
  | _ => exact ⟨hpong' (by rw [hn]; nofun), hping' (by rw [hn]; nofun)⟩

theorem fill_remembers (ht : Talks e) (h : Remembers e) (hx : fill M S fuel null e = .ok e') : Remembers e' := by
  refine (fill_keeps (I := fun e => Talks e ∧ Remembers e) (fun ⟨ht, h⟩ hx => ⟨next_talks ht hx, ?_⟩)
    (fun {e m e'} bytes encoder ⟨ht, h⟩ hx => ⟨settle_talks ((next_talks ht hx).filled _ _) _, ?_⟩) ⟨ht, h⟩ hx).2
  · cases next_cases ht.nextMsg hx with
    | nothing => exact ⟨h.pong, h.ping⟩
  · obtain ⟨hpong, hping⟩ := next_owes (next_cases ht.nextMsg hx)
    obtain ⟨hpong', hping'⟩ := h.settled { e' with out := e'.out ++ bytes, encoder := encoder } e'.nextMsg hpong hping
    exact ⟨fun hc => (nomatch hpong'.symm.trans hc), fun hc => (nomatch hping'.symm.trans hc)⟩

theorem writeOut_remembers (h : Remembers e) (w : Write) : Remembers (e.writeOut w) := by
  cases w <;> exact ⟨h.pong, h.ping⟩

theorem outEvent_remembers (ht : Talks e) (h : Remembers e) (hx : e.outEvent M S w = .ok e') : Remembers e' := by
  cases outEvent_cases hx with
  | writes => exact writeOut_remembers h w
  | greeting => exact h
  | @idle kind _ encoder' bytes _ _ _ _ hfill =>
    have hfilled : Remembers { e with out := bytes, encoder := some (kind, encoder') } := ⟨h.pong, h.ping⟩
    have hr := fill_remembers (ht.filled _ _) hfilled hfill
    exact ⟨hr.pong, hr.ping⟩
  | @fills kind _ encoder' bytes _ _ _ _ hfill =>
    have hfilled : Remembers { e with out := bytes, encoder := some (kind, encoder') } := ⟨h.pong, h.ping⟩
    exact writeOut_remembers (fill_remembers (ht.filled _ _) hfilled hfill) w

def Apart (asked : NextMsg) (_ : Bool) (next : NextMsg) (_ : Write) : Prop :=
  (asked = .producePong → next ≠ .producePing) ∧ (asked = .producePing → next ≠ .producePong)

theorem remembers_keeps : Keeps M S Apart Remembers where
  push hI hx := by
    obtain ⟨s, -, rfl⟩ := push_cases hx
    exact ⟨hI.pong, hI.ping⟩
  arm hI _ := ⟨hI.pong, hI.ping⟩
  disarm hI hx := by
    rcases disarm_cases hx with ⟨-, rfl⟩ | ⟨-, -, rfl⟩ <;> exact ⟨hI.pong, hI.ping⟩
  mechanism _ hI := ⟨hI.pong, hI.ping⟩
  processMsg _ hI := ⟨hI.pong, hI.ping⟩
  received _ hI := ⟨hI.pong, hI.ping⟩
  ping {e _ _} ht hI hw hx := by
    have hasked : Talks e.requestPing := ⟨ht.phase, nofun, ht.processMsg⟩
    exact outEvent_remembers hasked ⟨fun hc => absurd (hI.pong hc) (hw.2 rfl), fun _ => rfl⟩ hx
  pong {e _ _} ht hI hw hx := by
    have hasked : Talks e.requestPong := ⟨ht.phase, nofun, ht.processMsg⟩
    exact outEvent_remembers hasked ⟨fun _ => rfl, fun hc => absurd (hI.ping hc) (hw.1 rfl)⟩ hx

/-- No PING is handled while a PING waits to be sent, and the interval does not end while a PONG does. -/
def apart (M : EngineMechanism μ) : Allowance σ μ where
  frame e f := Pings M e f.msg → e.nextMsg ≠ .producePing
  output _ _ := True
  timer e t _ := t = .heartbeatIvl → e.nextMsg ≠ .producePong
  hangup _ := True

theorem restart_remembers (s : σ) (ht : Talks e) (h : Remembers e) (hx : restartOutput M S { e with session := s } w = .ok e') :
    Talks e' ∧ Remembers e' := by
  unfold restartOutput at hx
  split_ifs at hx
  · cases hx
    exact ⟨⟨ht.phase, ht.nextMsg, ht.processMsg⟩, h.pong, h.ping⟩
  · have hasked : Talks { e with session := s, pollout := true, outputStopped := false } := ⟨ht.phase, ht.nextMsg, ht.processMsg⟩
    exact ⟨outEvent_talks hasked hx, outEvent_remembers hasked ⟨h.pong, h.ping⟩ hx⟩
  · have hasked : Talks { e with session := s } := ⟨ht.phase, ht.nextMsg, ht.processMsg⟩
    exact ⟨outEvent_talks hasked hx, outEvent_remembers hasked ⟨h.pong, h.ping⟩ hx⟩

theorem remembers_invariant : Invariant M S (apart M) (fun e => e.phase = .dead ∨ Talks e ∧ Remembers e) fun _ => True := by
  refine remembers_keeps.invariant (fun _ hG hp => ⟨fun _ => hG hp, nofun⟩) (fun _ hG => ⟨nofun, fun _ => hG rfl⟩)
    (fun _ h => ⟨h.pong, h.ping⟩) (fun ht h _ _ hx => outEvent_remembers ht h hx)
    (fun s _ ht h _ hx => restart_remembers s ht h hx) (fun h _ => ⟨h.pong, h.ping⟩) (fun _ _ h => ⟨h.pong, h.ping⟩)
    (fun _ h => ⟨h.pong, h.ping⟩)

theorem fill_settled (ht : Talks e) (h : e.owesPong = false ∧ e.owesPing = false)
    (hx : fill M S fuel null e = .ok e') : e'.owesPong = false ∧ e'.owesPing = false := by
  refine (fill_keeps (I := fun e => Talks e ∧ e.owesPong = false ∧ e.owesPing = false)
    (fun ⟨ht, h⟩ hx => ⟨next_talks ht hx, ?_⟩)
    (fun {e m e'} bytes encoder ⟨ht, h⟩ hx => ⟨settle_talks ((next_talks ht hx).filled _ _) _, ?_⟩) ⟨ht, h⟩ hx).2
  · obtain ⟨hpong, hping⟩ := next_owes (next_cases ht.nextMsg hx)
    exact ⟨hpong.trans h.1, hping.trans h.2⟩
  · obtain ⟨hpong, hping⟩ := next_owes (next_cases ht.nextMsg hx)
    cases e.nextMsg <;> first | exact ⟨hpong.trans h.1, hping.trans h.2⟩ | exact ⟨hpong.trans h.1, rfl⟩ | exact ⟨rfl, hping.trans h.2⟩

/-- A ready engine that owes no heartbeat. -/
structure Rested (e : Engine σ μ) : Prop where
  talks : Talks e
  pong : e.owesPong = false
  ping : e.owesPing = false

theorem fill_first (ht : Talks e) (h : Remembers e) (hlt : e.out.length < StreamEngine.outBatchSize)
    (hx : fill M S (fuel + 1) null e = .ok e') : e'.owesPong = false ∧ e'.owesPing = false := by
  unfold fill at hx
  rw [if_pos hlt] at hx
  obtain ⟨⟨r, e1⟩, hnext, hx⟩ := bind_ok hx
  have hcases := next_cases ht.nextMsg hnext
  obtain ⟨hpong, hping⟩ := next_owes hcases
  cases r with
  | error errno =>
    cases hx
    cases hcases with
    | nothing hn =>
      constructor
      · refine eq_false_of_ne_true fun hc => ?_
        rcases hn with hn | hn <;> cases hn.symm.trans (h.pong hc)
      · refine eq_false_of_ne_true fun hc => ?_
        rcases hn with hn | hn <;> cases hn.symm.trans (h.ping hc)
  | ok m =>
    obtain ⟨e2, hl, hx⟩ := bind_ok hx
    obtain ⟨bytes, encoder, rfl⟩ := load_eq hl
    have ht2 := settle_talks ((next_talks ht hnext).filled (e1.out ++ bytes) encoder) e.nextMsg
    exact fill_settled ht2 (h.settled { e1 with out := e1.out ++ bytes, encoder := encoder } e1.nextMsg hpong hping) hx

/-- Nothing is left of the messages before. -/
def Flushed (e : Engine σ μ) : Prop :=
  e.out = [] ∧ ∃ kind encoder, e.encoder = some (kind, encoder) ∧ encoder.inProgress = none

theorem writeOut_owes (e : Engine σ μ) (w : Write) : (e.writeOut w).owesPong = e.owesPong ∧ (e.writeOut w).owesPing = e.owesPing := by
  cases w <;> exact ⟨rfl, rfl⟩

theorem outEvent_pays (ht : Talks e) (h : Remembers e) (hflushed : e.Flushed) (hx : e.outEvent M S w = .ok e') :
    e'.owesPong = false ∧ e'.owesPing = false := by
  obtain ⟨hout, kind, encoder, henc, hidle⟩ := hflushed
  have hfirst : ∀ {kind' encoder1 encoder2 bytes e1}, e.encoder = some (kind', encoder1) →
      encoder1.encode kind'.act none = .ok (bytes, encoder2) →
      fill M S StreamEngine.outBatchSize encoder1.inProgress.isNone
        { e with out := bytes, encoder := some (kind', encoder2) } = .ok e1 → e1.owesPong = false ∧ e1.owesPing = false := by
    intro kind' encoder1 encoder2 bytes e1 henc1 hbytes hfill
    cases henc.symm.trans henc1
    have hnone : encoder.encode kind.act none = .ok ([], encoder) := if_pos hidle
    obtain ⟨rfl, rfl⟩ := ok_pair (hbytes.symm.trans hnone)
    have hempty : Remembers { e with out := [], encoder := some (kind, encoder2) } := ⟨h.pong, h.ping⟩
    exact fill_first (ht.filled _ _) hempty (show 0 < 8192 by decide) (show fill M S (8191 + 1) _ _ = _ from hfill)
  cases outEvent_cases hx with
  | writes hne => exact absurd hout hne
  | greeting hphase => cases ht.phase.symm.trans hphase
  | idle _ henc1 hbytes hfill =>
    obtain ⟨hpong, hping⟩ := hfirst henc1 hbytes hfill
    exact ⟨hpong, hping⟩
  | fills _ henc1 hbytes hfill =>
    obtain ⟨hpong, hping⟩ := hfirst henc1 hbytes hfill
    exact ⟨(writeOut_owes _ w).1.trans hpong, (writeOut_owes _ w).2.trans hping⟩

/-- In every run in which no PING is handled while a PING waits to be sent and no interval ends while a PONG does, a
heartbeat that is to be sent remains the next message until it is in the encoder, which it is as soon as the engine writes
with nothing left of the messages before. -/
theorem heartbeats_remembered {ops : List (Op σ μ)} (h : Run Rested (Guarded (Allowed M S (apart M)) (Step M S)) ops e)
    (hlive : e.phase ≠ .dead) : (e.owesPong = true → e.nextMsg = .producePong) ∧ (e.owesPing = true → e.nextMsg = .producePing) ∧
      ∀ w e', e.Flushed → e.outEvent M S w = .ok e' → e'.owesPong = false ∧ e'.owesPing = false := by
  have hstart : ∀ e : Engine σ μ, Rested e → e.phase = .dead ∨ Talks e ∧ Remembers e := fun e he =>
    .inr ⟨he.talks, ⟨fun hc => (nomatch he.pong.symm.trans hc), fun hc => (nomatch he.ping.symm.trans hc)⟩⟩
  obtain ⟨ht, hI⟩ := (run_keeps remembers_invariant hstart h).resolve_left hlive
  exact ⟨hI.pong, hI.ping, fun _ _ hf hx => outEvent_pays ht hI hf hx⟩

theorem talking_rested (s : PipeSession) : Rested (talking s) := ⟨⟨rfl, nofun, nofun⟩, rfl, rfl⟩

section Decidable

instance (e : Engine σ μ) (f : Frame) : Decidable ((apart M).frame e f) :=
  inferInstanceAs (Decidable (Pings M e f.msg → e.nextMsg ≠ .producePing))

instance (e : Engine σ μ) (w : Write) : Decidable ((apart M).output e w) := .isTrue trivial

instance (e : Engine σ μ) (t : TimerId) (w : Write) : Decidable ((apart M).timer e t w) :=
  inferInstanceAs (Decidable (t = .heartbeatIvl → e.nextMsg ≠ .producePong))

instance (e : Engine σ μ) : Decidable ((apart M).hangup e) := .isTrue trivial

end Decidable

/-- A PING is handled while a message is being sent, and the PONG waits for its turn. -/
theorem heartbeats_remembered_waiting : ∃ e, Run Rested (Guarded (Allowed NullMechanism.engine PipeSession.session
      (apart NullMechanism.engine)) (Step NullMechanism.engine PipeSession.session))
      [.output (.part 1), .input (.bytes ⟨[⟨ping, .part 1⟩], false⟩)] e ∧ e.owesPong = true ∧ e.nextMsg = .producePong :=
  exists_run (P := fun e => e.owesPong = true ∧ e.phase = .connected) (talking_rested (.new [.ofFrame (.ofData [7])] 5))
    (by decide +kernel) fun _ hrun ⟨howes, hphase⟩ =>
      ⟨howes, (heartbeats_remembered hrun (by rw [hphase]; nofun)).1 howes⟩

/-- The interval ends while a PONG waits for its turn. Everything is sent in the end but the PONG. -/
theorem pong_dropped : ∃ ops e, Run Rested (Step NullMechanism.engine PipeSession.session) ops e ∧
    e.phase = .connected ∧ e.owesPong = true ∧ e.nextMsg = .pullAndEncode ∧ e.outputStopped = true :=
  ⟨[.output (.part 1), .input (.bytes ⟨[⟨ping, .part 1⟩], false⟩), .timer .heartbeatIvl (.part 1), .output .all,
      .output .all, .output .all],
    exists_run_free (P := fun e => e.phase = .connected ∧ e.owesPong = true ∧ e.nextMsg = .pullAndEncode ∧
      e.outputStopped = true) (talking_rested (.new [.ofFrame (.ofData [7, 8, 9])] 5)) (by decide +kernel) fun _ _ h => h⟩

end Engine

end Zmq
