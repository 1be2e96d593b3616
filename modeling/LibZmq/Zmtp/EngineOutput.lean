import LibZmq.Zmtp.EngineMechanisms
import LibZmq.Zmtp.EngineRules

/-! The output of an engine that talks: what it has not sent yet, the socket is polled for. -/

namespace Zmq

open StreamEngine (outBatchSize)

namespace Engine

variable {σ μ : Type} {M : EngineMechanism μ} {S : EngineSession σ} {e e' e1 : Engine σ μ} {w : Write} {kind : EncoderKind}
    {encoder : Encoder} {null : Bool} {n : NextMsg} {fuel : ℕ}

structure Encodes (current : Option (EncoderKind × Encoder)) (kind : EncoderKind) (encoder : Encoder) : Prop where
  current : current = some (kind, encoder)
  owes : ∃ owed, encoder.Owes owed
  bufsize : encoder.bufsize = outBatchSize

structure SamePolling (e e' : Engine σ μ) : Prop where
  pollout : e'.pollout = e.pollout
  outputStopped : e'.outputStopped = e.outputStopped
  writeFailed : e'.writeFailed = e.writeFailed
  ioError : e'.ioError = e.ioError

theorem SamePolling.trans (h : SamePolling e e1) (h' : SamePolling e1 e') : SamePolling e e' :=
  ⟨h'.pollout.trans h.pollout, h'.outputStopped.trans h.outputStopped, h'.writeFailed.trans h.writeFailed,
    h'.ioError.trans h.ioError⟩

theorem armOnce_output (e : Engine σ μ) (t : TimerId) (wanted : Bool) :
    SamePolling e (e.armOnce t wanted) ∧ (e.armOnce t wanted).encoder = e.encoder ∧ (e.armOnce t wanted).out = e.out ∧
      (e.armOnce t wanted).session = e.session := by
  rcases e.armOnce_cases t wanted with h | ⟨-, h⟩ <;> rw [h] <;> exact ⟨⟨rfl, rfl, rfl, rfl⟩, rfl, rfl, rfl⟩

theorem next_output {r : Except MechErrno Msg} (h : Next M S e r e') :
    SamePolling e e' ∧ e'.encoder = e.encoder ∧ e'.out = e.out := by
  cases h with
  | @ping _ _ k' =>
    obtain ⟨hp, henc, hout, -⟩ :=
      armOnce_output { e with mechanism := some k', nextMsg := .pullAndEncode } .heartbeatTimeout (0 < e.settings.timeout)
    exact ⟨⟨hp.pollout, hp.outputStopped, hp.writeFailed, hp.ioError⟩, henc, hout⟩
  | _ => exact ⟨⟨rfl, rfl, rfl, rfl⟩, rfl, rfl⟩

theorem settle_output (e : Engine σ μ) (n : NextMsg) : SamePolling e (e.settle n) ∧ (e.settle n).encoder = e.encoder ∧
    (e.settle n).out = e.out ∧ (e.settle n).session = e.session ∧ (e.settle n).nextMsg = e.nextMsg := by
  cases n <;> exact ⟨⟨rfl, rfl, rfl, rfl⟩, rfl, rfl, rfl, rfl⟩

theorem load_cases (henc : Encodes e.encoder kind encoder) (hlt : e.out.length < outBatchSize)
    (hidle : encoder.inProgress = none) (hnull : null = true → e.out = []) {m : Msg}
    (h : e.load null m = .ok e') : ∃ bytes encoder', e' = { e with out := e.out ++ bytes, encoder := some (kind, encoder') } ∧
      bytes ≠ [] ∧ Encodes e'.encoder kind encoder' ∧ (e'.out.length < outBatchSize → encoder'.inProgress = none) ∧
      bytes.length ≤ (kind.frame m).length := by
  obtain ⟨owed, howes⟩ := henc.owes
  unfold load at h
  rw [henc.current] at h
  obtain ⟨encoder1, hl, h⟩ := bind_ok h
  obtain ⟨⟨bytes, encoder2⟩, hb, h⟩ := bind_ok h
  obtain ⟨_, hne, h⟩ := bind_ok h
  cases h
  have hl := liftCodec_ok hl
  have hb := liftCodec_ok hb
  rcases Encoder.loadMsg_spec kind.writes howes m with ⟨-, -, encoder1', hl', howes1⟩ | ⟨hbusy, -⟩
  · cases hl.symm.trans hl'
    have hsize1 := (Encoder.loadMsg_bufsize kind.writes hl).trans henc.bufsize
    have hroom : (if null then none else some (outBatchSize - e.out.length)).getD encoder1.bufsize =
        outBatchSize - e.out.length := by
      split_ifs with hn
      · rw [hnull hn]
        exact hsize1
      · rfl
    obtain ⟨bytes', encoder2', rest, hb', howes2, hsplit, -, hsize2, hdone⟩ := Connection.encode_loaded howes1
      (if null then none else some (outBatchSize - e.out.length)) (by omega)
    cases hb.symm.trans hb'
    refine ⟨bytes, encoder2, rfl, assert_eq hne, ⟨rfl, ⟨rest, howes2⟩, hsize2.trans hsize1⟩, fun hl => hdone ?_, ?_⟩
    · rw [List.length_append] at hl
      omega
    · rw [← hsplit, List.length_append]
      omega
  · exact absurd hidle hbusy

structure Drained (S : EngineSession σ) (next : NextMsg) (s : σ) (encoder : Encoder) : Prop where
  idle : encoder.inProgress = none
  ping : next ≠ .producePing
  pong : next ≠ .producePong
  asleep : S.asleep s = true

theorem drained_of_nothing {s s' : σ} (hn : n = .pullMsgFromSession ∨ n = .pullAndEncode)
    (hpull : S.pullMsg s = (none, s')) (hidle : encoder.inProgress = none) : Drained S n s' encoder := by
  refine ⟨hidle, fun hc => ?_, fun hc => ?_, S.pull_none hpull⟩ <;> rcases hn with h | h <;> cases h.symm.trans hc

theorem fill_drains (ht : Talks e)
    (henc : Encodes e.encoder kind encoder) (hidle : e.out.length < outBatchSize → encoder.inProgress = none)
    (hnull : null = true → e.out = []) (hfuel : outBatchSize ≤ fuel + e.out.length)
    (h : fill M S fuel null e = .ok e') : SamePolling e e' ∧ ∃ encoder', Encodes e'.encoder kind encoder' ∧
      (e'.out.length < outBatchSize → Drained S e'.nextMsg e'.session encoder') := by
  induction fuel generalizing e encoder null with
  | zero =>
    cases h
    exact ⟨⟨rfl, rfl, rfl, rfl⟩, encoder, henc, fun hlt => by omega⟩
  | succ fuel ih =>
    unfold fill at h
    split_ifs at h with hlt
    · obtain ⟨⟨r, e1⟩, hnext, h⟩ := bind_ok h
      have hcases := next_cases ht.nextMsg hnext
      obtain ⟨hpoll, henc1, hout1⟩ := next_output hcases
      cases r with
      | error errno =>
        cases h
        cases hcases with
        | nothing hn hpull =>
          exact ⟨hpoll, encoder, ⟨henc.current, henc.owes, henc.bufsize⟩, fun _ => drained_of_nothing hn hpull (hidle hlt)⟩
      | ok m =>
        obtain ⟨e2, hl, h⟩ := bind_ok h
        obtain ⟨bytes, encoder2, rfl, hne, henc2, hidle2, -⟩ := load_cases (e := e1)
          ⟨henc1.trans henc.current, henc.owes, henc.bufsize⟩ (by rwa [hout1]) (hidle hlt)
          (fun hn => hout1.trans (hnull hn)) hl
        have ht2 := settle_talks ((next_talks ht hnext).filled (e1.out ++ bytes) (some (kind, encoder2))) e.nextMsg
        obtain ⟨hpoll2, hencoder, hout, -⟩ :=
          settle_output { e1 with out := e1.out ++ bytes, encoder := some (kind, encoder2) } e.nextMsg
        have hlen : e.out.length < (e1.out ++ bytes).length := by
          rw [hout1, List.length_append]
          have := List.length_pos_iff.mpr hne
          omega
        obtain ⟨hpoll3, hrest⟩ := ih ht2 ⟨hencoder.trans henc2.current, henc2.owes, henc2.bufsize⟩
          (by rw [hout]; exact hidle2)
          (show false = true → _ by rintro ⟨⟩) (by rw [hout]; dsimp only; omega) h
        exact ⟨(hpoll.trans ⟨hpoll2.pollout, hpoll2.outputStopped, hpoll2.writeFailed, hpoll2.ioError⟩).trans hpoll3, hrest⟩
    · cases h
      exact ⟨⟨rfl, rfl, rfl, rfl⟩, encoder, henc, fun hlt' => absurd hlt' hlt⟩

theorem frame_length_le (kind : EncoderKind) (m : Msg) : (kind.frame m).length ≤ 10 + m.data.length := by
  unfold EncoderKind.frame
  rw [List.length_append]
  refine Nat.add_le_add_right ?_ _
  cases kind with
  | v1 =>
    unfold EncoderKind.header V1Encoder.header
    dsimp only
    split_ifs
    · exact (by decide : 2 ≤ 10)
    · exact Nat.le_refl 10
  | v2 =>
    unfold EncoderKind.header V2Encoder.header
    dsimp only
    split_ifs
    all_goals first | exact (by decide : 9 ≤ 10) | exact (by decide : 2 ≤ 10)

theorem fill_heartbeat (hn : e.nextMsg = .producePing ∨ e.nextMsg = .producePong) (henc : Encodes e.encoder kind encoder)
    (hidle : encoder.inProgress = none) (hout : e.out = []) (hasleep : S.asleep e.session = true)
    (h : fill M S (fuel + 2) null e = .ok e') : SamePolling e e' ∧ e'.out ≠ [] ∧
      ∃ encoder', Encodes e'.encoder kind encoder' ∧ Drained S e'.nextMsg e'.session encoder' := by
  have hlt : e.out.length < outBatchSize := by
    rw [hout]
    decide
  unfold fill at h
  rw [if_pos hlt] at h
  obtain ⟨⟨r, e1⟩, hnext, h⟩ := bind_ok h
  have hcases := next_cases (by rcases hn with hn | hn <;> rw [hn] <;> rintro ⟨⟩) hnext
  obtain ⟨hpoll, henc1, hout1⟩ := next_output hcases
  obtain ⟨m, rfl, hlen, hnext1, hsession⟩ :
      ∃ m, r = .ok m ∧ m.data.length ≤ 71 ∧ e1.nextMsg = .pullAndEncode ∧ e1.session = e.session := by
    cases hcases with
    | @ping m k k' hn hmech hlen =>
      obtain ⟨-, -, -, hsession⟩ :=
        armOnce_output { e with mechanism := some k', nextMsg := .pullAndEncode } .heartbeatTimeout (0 < e.settings.timeout)
      exact ⟨m, rfl, hlen, (armOnce_alike _ _ _).nextMsg, hsession⟩
    | @pong m k k' hn hmech hlen => exact ⟨m, rfl, hlen, rfl, rfl⟩
    | identity hother => rcases hn with hn | hn <;> cases hn.symm.trans hother
    | nothing hother => rcases hn with hn | hn <;> rcases hother with hother | hother <;> cases hn.symm.trans hother
    | pulled hother | encoded hother => rcases hn with hn | hn <;> cases hn.symm.trans hother
  obtain ⟨e2, hl, h⟩ := bind_ok h
  obtain ⟨bytes, encoder2, rfl, hne, henc2, hidle2, hbytes⟩ := load_cases (henc1 ▸ henc) (by rwa [hout1]) hidle
    (fun _ => hout1.trans hout) hl
  obtain ⟨hpoll2, hencoder, hout2, hsession2, hnext2⟩ :=
    settle_output { e1 with out := e1.out ++ bytes, encoder := some (kind, encoder2) } e.nextMsg
  have hlt2 : (e1.out ++ bytes).length < outBatchSize := by
    have := frame_length_le kind m
    rw [hout1, hout]
    exact Nat.lt_of_le_of_lt (hbytes.trans (this.trans (Nat.add_le_add_left hlen 10))) (by decide)
  generalize hsettled : settle { e1 with out := e1.out ++ bytes, encoder := some (kind, encoder2) } e.nextMsg = e3
    at h hpoll2 hencoder hout2 hsession2 hnext2
  unfold fill at h
  rw [if_pos (by rw [hout2]; exact hlt2)] at h
  obtain ⟨⟨r', e4⟩, hnext', h⟩ := bind_ok h
  have hpull3 : e3.nextMsg = .pullAndEncode := hnext2.trans hnext1
  have hcases' := next_cases (by rw [hpull3]; rintro ⟨⟩) hnext'
  have hasleep3 : (S.pullMsg e3.session).1 = none := by
    rw [hsession2, show Engine.session _ = _ from hsession]
    exact S.pull_asleep hasleep
  cases hcases' with
  | nothing hn' hpull =>
    cases h
    refine ⟨hpoll.trans ⟨hpoll2.pollout, hpoll2.outputStopped, hpoll2.writeFailed, hpoll2.ioError⟩, ?_, encoder2,
      hencoder ▸ henc2, drained_of_nothing hn' hpull (hidle2 hlt2)⟩
    exact fun hc => hne (List.append_eq_nil_iff.mp (hout2.symm.trans hc)).2
  | encoded _ hpull => rw [hpull] at hasleep3; cases hasleep3
  | identity hother | pulled hother | ping hother | pong hother => cases hpull3.symm.trans hother

structure Polled (S : EngineSession σ) (e : Engine σ μ) : Prop where
  encoder : ∃ kind encoder, Encodes e.encoder kind encoder ∧
    (e.outputStopped = true → e.out = [] ∧ e.pollout = false ∧ Drained S e.nextMsg e.session encoder)
  ioError : e.ioError = false
  pollout : e.writeFailed = false → e.outputStopped = false → e.pollout = true

theorem writeOut_polled (ht : Talks e) (henc : Encodes e.encoder kind encoder)
    (hio : e.ioError = false) (hrun : e.outputStopped = false) (hpoll : e.writeFailed = false → e.pollout = true) :
    Polled S (e.writeOut w) := by
  cases w with
  | fail => exact ⟨⟨kind, encoder, henc, fun hc => nomatch hrun.symm.trans hc⟩, hio, nofun⟩
  | part n => exact ⟨⟨kind, encoder, henc, fun hc => nomatch hrun.symm.trans hc⟩, hio, fun hf _ => hpoll hf⟩
  | all =>
    refine ⟨⟨kind, encoder, henc, fun hc => nomatch hrun.symm.trans hc⟩, hio, fun hf _ => ?_⟩
    unfold writeOut
    rw [hpoll hf, ht.phase]
    rfl

theorem refilled {encoder encoder' : Encoder} {bytes : List UInt8} (ht : Talks e)
    (henc : Encodes e.encoder kind encoder) (hbytes : encoder.encode kind.act none = .ok (bytes, encoder'))
    (h : fill M S outBatchSize encoder.inProgress.isNone { e with out := bytes, encoder := some (kind, encoder') } = .ok e') :
    SamePolling e e' ∧ ∃ encoder1, Encodes e'.encoder kind encoder1 ∧
      (e'.out.length < outBatchSize → Drained S e'.nextMsg e'.session encoder1) := by
  obtain ⟨owed, howes⟩ := henc.owes
  obtain ⟨bytes1, encoder1, rest, hb, howes1, -, hidle⟩ := Encoder.encode_spec kind.writes howes none
  cases hbytes.symm.trans hb
  have hsize := (Encoder.encode_bufsize kind.writes hbytes).trans henc.bufsize
  have hnull : encoder.inProgress.isNone = true → bytes = [] := fun hn => by
    have hnone : encoder.encode kind.act none = .ok ([], encoder) := if_pos (Option.isNone_iff_eq_none.mp hn)
    exact (ok_pair (hbytes.symm.trans hnone)).1
  obtain ⟨hpoll, hrest⟩ := fill_drains (ht.filled _ _) ⟨rfl, ⟨rest, howes1⟩, hsize⟩
    (fun hlt => hidle (by rwa [henc.bufsize])) hnull (Nat.le_add_right _ _) h
  exact ⟨⟨hpoll.pollout, hpoll.outputStopped, hpoll.writeFailed, hpoll.ioError⟩, hrest⟩

theorem outEvent_running (ht : Talks e) (henc : Encodes e.encoder kind encoder)
    (hio : e.ioError = false) (hrun : e.outputStopped = false) (hpoll : e.writeFailed = false → e.pollout = true)
    (h : e.outEvent M S w = .ok e') : Polled S e' := by
  cases outEvent_cases h with
  | writes => exact writeOut_polled ht henc hio hrun hpoll
  | greeting hphase => cases ht.phase.symm.trans hphase
  | idle _ henc1 hbytes hfill hout =>
    cases henc.current.symm.trans henc1
    obtain ⟨hsame, encoder1, henc', hdrained⟩ := refilled ht henc hbytes hfill
    refine ⟨⟨kind, encoder1, henc', fun _ => ⟨hout, rfl, hdrained ?_⟩⟩, hsame.ioError.trans hio, fun _ => nofun⟩
    rw [hout]
    decide
  | fills _ henc1 hbytes hfill hout =>
    cases henc.current.symm.trans henc1
    obtain ⟨hsame, encoder1, henc', -⟩ := refilled ht henc hbytes hfill
    have ht' := fill_talks (ht.filled _ _) hfill
    refine writeOut_polled ht' henc' (hsame.ioError.trans hio) (hsame.outputStopped.trans hrun) fun hf => ?_
    exact hsame.pollout.trans (hpoll (hsame.writeFailed.symm.trans hf))

theorem outEvent_stopped (ht : Talks e)
    (hn : e.nextMsg = .producePing ∨ e.nextMsg = .producePong) (henc : Encodes e.encoder kind encoder)
    (hio : e.ioError = false) (hstop : e.outputStopped = true) (hout : e.out = []) (hidle : encoder.inProgress = none)
    (hoff : e.pollout = false) (hasleep : S.asleep e.session = true) (h : e.outEvent M S .all = .ok e') : Polled S e' := by
  have hheart : ∀ {kind' encoder1 encoder2 bytes e1}, e.encoder = some (kind', encoder1) →
      encoder1.encode kind'.act none = .ok (bytes, encoder2) →
      fill M S outBatchSize encoder1.inProgress.isNone { e with out := bytes, encoder := some (kind', encoder2) } = .ok e1 →
      SamePolling e e1 ∧ e1.out ≠ [] ∧ ∃ encoder', Encodes e1.encoder kind encoder' ∧ Drained S e1.nextMsg e1.session encoder' := by
    intro kind' encoder1 encoder2 bytes e1 henc1 hbytes hfill
    cases henc.current.symm.trans henc1
    have hnone : encoder.encode kind.act none = .ok ([], encoder) := if_pos hidle
    cases hbytes.symm.trans hnone
    obtain ⟨hsame, hrest⟩ := fill_heartbeat (e := { e with out := [], encoder := _ }) hn ⟨rfl, henc.owes, henc.bufsize⟩ hidle
      rfl hasleep (show fill M S (8190 + 2) _ _ = _ from hfill)
    exact ⟨⟨hsame.pollout, hsame.outputStopped, hsame.writeFailed, hsame.ioError⟩, hrest⟩
  cases outEvent_cases h with
  | writes hne => exact absurd hout hne
  | greeting hphase => cases ht.phase.symm.trans hphase
  | idle _ henc1 hbytes hfill hempty => exact absurd hempty (hheart henc1 hbytes hfill).2.1
  | fills _ henc1 hbytes hfill =>
    obtain ⟨hsame, -, encoder', henc', hdrained⟩ := hheart henc1 hbytes hfill
    have hstop' := hsame.outputStopped.trans hstop
    refine ⟨⟨kind, encoder', henc', fun _ => ⟨rfl, ?_, hdrained⟩⟩, hsame.ioError.trans hio, fun _ hc => nomatch hstop'.symm.trans hc⟩
    exact (congrArg (· && _) (hsame.pollout.trans hoff)).trans (Bool.false_and _)

def Taken (_ : NextMsg) (stopped : Bool) (_ : NextMsg) (w : Write) : Prop := stopped = true → w = .all

theorem request_polled {ping pong : Bool} (hn : n = .producePing ∨ n = .producePong) (ht : Talks e) (hI : Polled S e)
    (hw : Taken n e.outputStopped e.nextMsg w)
    (h : outEvent M S { e with nextMsg := n, owesPing := ping, owesPong := pong } w = .ok e') : Polled S e' := by
  obtain ⟨kind, encoder, henc, hstopped⟩ := hI.encoder
  have hasked : Talks { e with nextMsg := n, owesPing := ping, owesPong := pong } :=
    ⟨ht.phase, by rcases hn with rfl | rfl <;> nofun, ht.processMsg⟩
  cases hs : e.outputStopped with
  | false => exact outEvent_running hasked henc hI.ioError hs (fun hf => hI.pollout hf hs) h
  | true =>
    obtain ⟨hout, hoff, hdrained⟩ := hstopped hs
    rw [hw hs] at h
    exact outEvent_stopped hasked hn henc hI.ioError hs hout hdrained.idle hoff hdrained.asleep h

theorem polled_keeps : Keeps M S Taken (Polled S) where
  push hI hx := by
    obtain ⟨s, hpush, rfl⟩ := push_cases hx
    obtain ⟨kind, encoder, henc, hstopped⟩ := hI.encoder
    refine ⟨⟨kind, encoder, henc, fun hs => ?_⟩, hI.ioError, hI.pollout⟩
    obtain ⟨hout, hoff, hdrained⟩ := hstopped hs
    exact ⟨hout, hoff, hdrained.idle, hdrained.ping, hdrained.pong, S.push_asleep hdrained.asleep hpush⟩
  arm hI _ := ⟨hI.encoder, hI.ioError, hI.pollout⟩
  disarm hI hx := by
    rcases disarm_cases hx with ⟨-, rfl⟩ | ⟨-, -, rfl⟩ <;> exact ⟨hI.encoder, hI.ioError, hI.pollout⟩
  mechanism _ hI := ⟨hI.encoder, hI.ioError, hI.pollout⟩
  processMsg _ hI := ⟨hI.encoder, hI.ioError, hI.pollout⟩
  received _ hI := ⟨hI.encoder, hI.ioError, hI.pollout⟩
  ping ht hI hw hx := request_polled (.inl rfl) ht hI hw hx
  pong ht hI hw hx := request_polled (.inr rfl) ht hI hw hx

/-- There are bytes that have not been written, or a heartbeat is the next message. -/
def Pending (e : Engine σ μ) : Prop := e.out ≠ [] ∨ e.nextMsg = .producePing ∨ e.nextMsg = .producePong

def Covered (S : EngineSession σ) (e : Engine σ μ) : Prop := Polled S e ∨ e.ioError = true ∧ ¬ e.Pending

theorem outEvent_ioError (h : e.outEvent M S w = .ok e') : e.ioError = false := by
  obtain ⟨_, hio, -⟩ := bind_ok h
  exact assertNoIoError_eq hio

theorem covered_keeps : Keeps M S Taken (Covered S) where
  push hI hx := by
    refine hI.imp (fun hI => polled_keeps.push (M := M) hI hx) fun hI => ?_
    obtain ⟨s, -, rfl⟩ := push_cases hx
    exact hI
  arm hI hh := hI.imp (fun hI => polled_keeps.arm (M := M) hI hh) id
  disarm hI hx := by
    refine hI.imp (fun hI => polled_keeps.disarm (M := M) hI hx) fun hI => ?_
    rcases disarm_cases hx with ⟨-, rfl⟩ | ⟨-, -, rfl⟩ <;> exact hI
  mechanism k hI := hI.imp (polled_keeps.mechanism (M := M) k) id
  processMsg p hI := hI.imp (polled_keeps.processMsg (M := M) p) id
  received m hI := hI.imp (polled_keeps.received (M := M) m) id
  ping {e _ _} ht hI hw hx := by
    have hio : e.ioError = false := outEvent_ioError (e := e.requestPing) hx
    exact hI.imp (fun hI => polled_keeps.ping ht hI hw hx) fun hI => nomatch hI.1.symm.trans hio
  pong {e _ _} ht hI hw hx := by
    have hio : e.ioError = false := outEvent_ioError (e := e.requestPong) hx
    exact hI.imp (fun hI => polled_keeps.pong ht hI hw hx) fun hI => nomatch hI.1.symm.trans hio

/-- Whenever a heartbeat is asked for while output is stopped, the socket takes at once all that the engine writes; and the
poller reports nothing while input is stopped and there is something to send. -/
def promptly (M : EngineMechanism μ) : Allowance σ μ where
  frame e f := Pings M e f.msg → e.outputStopped = true → f.write = .all
  output _ _ := True
  timer e t w := t = .heartbeatIvl → e.outputStopped = true → w = .all
  hangup e := ¬ e.Pending

theorem restart_covered (s : σ) (ht : Talks e) (hI : Covered S e) (h : restartOutput M S { e with session := s } w = .ok e') :
    Talks e' ∧ Covered S e' := by
  unfold restartOutput at h
  rcases hI with hI | hI
  · obtain ⟨kind, encoder, henc, -⟩ := hI.encoder
    rw [if_neg (by rw [hI.ioError]; nofun)] at h
    split_ifs at h with hs
    · have hasked : Talks { e with session := s, pollout := true, outputStopped := false } := ⟨ht.phase, ht.nextMsg, ht.processMsg⟩
      exact ⟨outEvent_talks hasked h, .inl (outEvent_running hasked henc hI.ioError rfl (fun _ => rfl) h)⟩
    · have hasked : Talks { e with session := s } := ⟨ht.phase, ht.nextMsg, ht.processMsg⟩
      have hrun := eq_false_of_ne_true hs
      exact ⟨outEvent_talks hasked h, .inl (outEvent_running hasked henc hI.ioError hrun (fun hf => hI.pollout hf hrun) h)⟩
  · rw [if_pos hI.1] at h
    cases h
    exact ⟨⟨ht.phase, ht.nextMsg, ht.processMsg⟩, .inr hI⟩

theorem covered_invariant : Invariant M S (promptly M) (fun e => e.phase = .dead ∨ Talks e ∧ Covered S e) fun _ => True := by
  refine covered_keeps.invariant (fun _ hG hp hs => hG hp hs) (fun _ hG hs => hG rfl hs)
    (fun _ hI => hI.imp (fun hI => ⟨hI.encoder, hI.ioError, hI.pollout⟩) id) (fun ht hI hpoll _ hx => ?_)
    (fun s _ ht hI _ hx => restart_covered s ht hI hx) (fun _ hG => .inr ⟨rfl, hG⟩)
    (fun _ _ hI => hI.imp (fun hI => ⟨hI.encoder, hI.ioError, hI.pollout⟩) id) (fun hr hI => hI.imp (fun hI => ?_) id)
  · have hI := hI.resolve_right fun hI => nomatch hI.1.symm.trans (outEvent_ioError hx)
    obtain ⟨kind, encoder, henc, hstopped⟩ := hI.encoder
    have hrun := eq_false_of_ne_true fun hs => nomatch hpoll.symm.trans (hstopped hs).2.1
    exact .inl (outEvent_running ht henc hI.ioError hrun (fun _ => hpoll) hx)
  · obtain ⟨kind, encoder, henc, hstopped⟩ := hI.encoder
    refine ⟨⟨kind, encoder, henc, fun hs => ?_⟩, hI.ioError, hI.pollout⟩
    obtain ⟨hout, hoff, hdrained⟩ := hstopped hs
    exact ⟨hout, hoff, hdrained.idle, hdrained.ping, hdrained.pong, hr.2 hdrained.asleep⟩

/-- An engine whose handshake has just been completed, and whose output is not stopped. -/
structure Connected (e : Engine σ μ) : Prop where
  talks : Talks e
  encoder : ∃ kind encoder, Encodes e.encoder kind encoder
  ioError : e.ioError = false
  outputStopped : e.outputStopped = false
  pollout : e.pollout = true

/-- In every run in which a heartbeat that is asked for while output is stopped is taken at once, output is not stopped
as long as there is something to send, and the socket is polled for output unless a write has failed. -/
theorem pending_output_polled {ops : List (Op σ μ)} (h : Run Connected (Guarded (Allowed M S (promptly M)) (Step M S)) ops e)
    (hlive : e.phase ≠ .dead) (hp : e.Pending) : e.outputStopped = false ∧ (e.writeFailed = false → e.pollout = true) := by
  have hstart : ∀ e : Engine σ μ, Connected e → e.phase = .dead ∨ Talks e ∧ Covered S e := fun e he => by
    obtain ⟨kind, encoder, henc⟩ := he.encoder
    refine .inr ⟨he.talks, .inl ⟨⟨kind, encoder, henc, fun hs => ?_⟩, he.ioError, fun _ _ => he.pollout⟩⟩
    cases he.outputStopped.symm.trans hs
  obtain ⟨-, hI⟩ := (run_keeps covered_invariant hstart h).resolve_left hlive
  have hI := hI.resolve_right fun hI => hI.2 hp
  obtain ⟨kind, encoder, -, hstopped⟩ := hI.encoder
  have hrun : e.outputStopped = false := eq_false_of_ne_true fun hs => by
    obtain ⟨hout, -, hdrained⟩ := hstopped hs
    rcases hp with hp | hp | hp
    · exact hp hout
    · exact hdrained.ping hp
    · exact hdrained.pong hp
  exact ⟨hrun, fun hf => hI.pollout hf hrun⟩

theorem talking_connected (s : PipeSession) : Connected (talking s) :=
  ⟨⟨rfl, nofun, nofun⟩, ⟨.v2, .new outBatchSize, rfl, ⟨_, .idle⟩, rfl⟩, rfl, rfl, rfl⟩

section Decidable

instance (e : Engine σ μ) : Decidable e.Pending := by
  unfold Pending
  infer_instance

instance (e : Engine σ μ) (f : Frame) : Decidable ((promptly M).frame e f) :=
  inferInstanceAs (Decidable (Pings M e f.msg → e.outputStopped = true → f.write = .all))

instance (e : Engine σ μ) (w : Write) : Decidable ((promptly M).output e w) := .isTrue trivial

instance (e : Engine σ μ) (t : TimerId) (w : Write) : Decidable ((promptly M).timer e t w) :=
  inferInstanceAs (Decidable (t = .heartbeatIvl → e.outputStopped = true → w = .all))

instance (e : Engine σ μ) : Decidable ((promptly M).hangup e) := inferInstanceAs (Decidable (¬ e.Pending))

end Decidable

/-- Output is stopped, and started again by a message, of which the socket does not take all. -/
theorem pending_output_polled_message : ∃ e, Run Connected (Guarded (Allowed NullMechanism.engine PipeSession.session
      (promptly NullMechanism.engine)) (Step NullMechanism.engine PipeSession.session))
      [.output .all, .restartOutput (.new [.ofFrame (.ofData [7])] 5) (.part 1)] e ∧
    e.out = [1, 7] ∧ e.outputStopped = false ∧ (e.writeFailed = false → e.pollout = true) :=
  exists_run (P := fun e => e.out = [1, 7] ∧ e.phase = .connected) (talking_connected (.new [] 5)) (by decide +kernel)
    fun _ hrun ⟨hout, hphase⟩ =>
      ⟨hout, pending_output_polled hrun (by rw [hphase]; nofun) (.inl (by rw [hout]; nofun))⟩

/-- The interval ends while output is stopped, and the socket does not take all of the PING. -/
theorem ping_not_polled : ∃ ops e, Run Connected (Step NullMechanism.engine PipeSession.session) ops e ∧
    e.phase = .connected ∧ e.out ≠ [] ∧ e.writeFailed = false ∧ e.outputStopped = true ∧ e.pollout = false :=
  ⟨[.output .all, .timer .heartbeatIvl (.part 3)],
    exists_run_free (P := fun e => e.phase = .connected ∧ e.out ≠ [] ∧ e.writeFailed = false ∧ e.outputStopped = true ∧
      e.pollout = false) (talking_connected (.new [] 5)) (by decide +kernel) fun _ _ h => h⟩

end Engine

end Zmq
