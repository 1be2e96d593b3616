import LibZmq.Zmtp.Greeting

/-! A stream engine on a socket, over whole runs: reads of any size, writes of any size, messages that come at any
time. -/

namespace Zmq

open List Option Bool Except

open StreamEngine Greeting

structure Connection where
  engine : StreamEngine
  /-- what the peer sends and has not been read yet -/
  wire : List UInt8
  /-- all bytes that the socket has accepted -/
  accepted : List UInt8
  /-- all messages that `next_msg` has given -/
  loaded : List Msg
  /-- all bytes that the decoder has consumed -/
  passed : List UInt8

namespace Connection

def new (o : EngineOptions) (stream : List UInt8) : Connection := ⟨.new o, stream, [], [], []⟩

inductive Op where
  /-- `in_event` while the engine is handshaking, with what each `tcp_read` returns -/
  | handshake (reads : List ℕ)
  /-- `in_event` or `restart_input` later: `n` bytes are read if there are none, and the decoder consumes `k` -/
  | decode (n k : ℕ)
  | outEvent (msgs : List Msg) (nbytes : Option ℕ)
  | restartOutput (msgs : List Msg) (nbytes : Option ℕ)

/-- Nothing is called any more once `error` has been. -/
def Ready (s : Connection) : Op → Prop
  | .handshake _ => s.engine.failed = false ∧ s.engine.handshaking = true
  | .decode _ _ => s.engine.failed = false ∧ s.engine.handshaking = false
  | .outEvent _ _ | .restartOutput _ _ => s.engine.failed = false

instance (s : Connection) (op : Op) : Decidable (s.Ready op) := by
  cases op <;> unfold Ready <;> infer_instance

/-- What is there to decode and what is still on the wire, once `in_event` has read. -/
def received (s : Connection) (n : ℕ) : List UInt8 × List UInt8 :=
  if s.engine.inbuf = [] then (s.wire.take n, s.wire.drop n) else (s.engine.inbuf, s.wire)

def run (s : Connection) : Op → Except CodecFault Connection
  | .handshake reads => do
    let (engine, wire) ← s.engine.handshake reads s.wire
    return { s with engine := engine, wire := wire }
  | .decode n k =>
    .ok { s with
      engine := { s.engine with inbuf := (s.received n).1.drop k }
      wire := (s.received n).2
      passed := s.passed ++ (s.received n).1.take k }
  | .outEvent msgs nbytes => do
    let (given, bytes, engine) ← s.engine.outEvent msgs nbytes
    return { s with engine := engine, accepted := s.accepted ++ bytes, loaded := s.loaded ++ given }
  | .restartOutput msgs nbytes => do
    let (given, bytes, engine) ← s.engine.restartOutput msgs nbytes
    return { s with engine := engine, accepted := s.accepted ++ bytes, loaded := s.loaded ++ given }

def Start (o : EngineOptions) (stream : List UInt8) (s : Connection) : Prop := s = new o stream

abbrev Step : Connection → Op → Connection → Prop := Does Ready run

variable {kind : EncoderKind} {e e' : Encoder} {owed out : List UInt8} {m : Msg} {msgs : List Msg} {outpos : OutPos}

theorem header_ne (kind : EncoderKind) (m : Msg) : kind.header m ≠ [] := by
  cases kind with
  | v1 =>
    unfold EncoderKind.header V1Encoder.header
    dsimp only
    split_ifs <;> exact cons_ne_nil _ _
  | v2 =>
    unfold EncoderKind.header V2Encoder.header
    dsimp only
    split_ifs <;> exact cons_ne_nil _ _

theorem encode_loaded (h : Encoder.Owes e (kind.frame m)) (data : Option ℕ) (hpos : 0 < data.getD e.bufsize) :
    ∃ bytes e' rest, e.encode kind.act data = .ok (bytes, e') ∧ Encoder.Owes e' rest ∧ bytes ++ rest = kind.frame m ∧
      bytes ≠ [] ∧ e'.bufsize = e.bufsize ∧ (bytes.length < data.getD e.bufsize → e'.inProgress = none) := by
  obtain ⟨bytes, e', rest, hx, howes, hsplit, hdone⟩ := Encoder.encode_spec kind.writes h data
  refine ⟨bytes, e', rest, hx, howes, hsplit, ?_, Encoder.encode_bufsize kind.writes hx, hdone⟩
  rintro rfl
  have hrest := howes.idle_nil (hdone hpos)
  rw [hrest] at hsplit
  exact header_ne kind m (append_eq_nil_iff.mp hsplit.symm).1

theorem fill_spec (h : Encoder.Owes e owed) (hsize : e.bufsize = outBatchSize)
    (hdone : out.length < outBatchSize → e.inProgress = none) (hnull : outpos = .null → out = []) :
    ∃ given outpos' out' e' owed', fill kind msgs outpos out e = .ok (given, outpos', out', e') ∧
      Encoder.Owes e' owed' ∧ e'.bufsize = outBatchSize ∧ out' ++ owed' = out ++ owed ++ given.flatMap kind.frame ∧
      (out' = [] → e'.inProgress = none) := by
  induction msgs generalizing outpos out e owed with
  | nil =>
    refine ⟨[], outpos, out, e, owed, rfl, h, hsize, by simp, ?_⟩
    rintro rfl
    exact hdone (by decide)
  | cons m msgs ih =>
    unfold fill
    by_cases hlt : out.length < outBatchSize
    · rw [if_pos hlt]
      rcases Encoder.loadMsg_spec kind.writes h m with ⟨-, hnil, e1, hload, h1⟩ | ⟨hbusy, -⟩
      · have hsize1 : e1.bufsize = outBatchSize := (Encoder.loadMsg_bufsize kind.writes hload).trans hsize
        obtain ⟨data, hdata⟩ : ∃ data, data = (if outpos = .null then none else some (outBatchSize - out.length)) :=
          ⟨_, rfl⟩
        have hroom : data.getD e1.bufsize = outBatchSize - out.length := by
          rw [hdata, hsize1]
          split_ifs with hn
          · rw [hnull hn]
            rfl
          · rfl
        obtain ⟨bytes, e2, rest, henc, h2, hsplit, hne, hsize2, hdone2⟩ :=
          encode_loaded h1 data (by omega)
        obtain ⟨given, outpos', out', e', owed', hfill, howes, hs, hout, hd⟩ := @ih _ _ (out ++ bytes) .encoder h2
          (hsize2.trans hsize1) (fun hl => hdone2 (by rw [length_append] at hl; omega))
          (fun hc => absurd hc (by simp))
        refine ⟨m :: given, outpos', out', e', owed', ?_, howes, hs, ?_, hd⟩
        · rw [hload]
          dsimp only [bind, Except.bind]
          rw [← hdata, henc]
          dsimp only
          rw [if_neg hne, hfill]
          rfl
        · rw [hout, hnil, append_nil, flatMap_cons, ← hsplit]
          simp only [append_assoc]
      · exact absurd (hdone hlt) hbusy
    · refine ⟨[], outpos, out, e, owed, if_neg hlt, h, hsize, by simp, ?_⟩
      rintro rfl
      exact absurd (by decide) hlt

theorem readEncoder_spec {s : StreamEngine} (h : Encoder.Owes e owed) (hsize : e.bufsize = outBatchSize) :
    ∃ given outpos' out' e' owed', s.readEncoder kind e msgs = .ok (given, { s with
        outpos := outpos', out := out', encoder := some (kind, e'), outputStopped := out' = [] || s.outputStopped }) ∧
      Encoder.Owes e' owed' ∧ e'.bufsize = outBatchSize ∧ out' ++ owed' = owed ++ given.flatMap kind.frame ∧
      (out' = [] → owed' = []) := by
  obtain ⟨bytes, e1, rest, henc, h1, hsplit, hdone⟩ := Encoder.encode_spec kind.writes h none
  have hsize1 : e1.bufsize = outBatchSize := (Encoder.encode_bufsize kind.writes henc).trans hsize
  obtain ⟨outpos, hpos⟩ : ∃ outpos, outpos = (if e.inProgress = none then OutPos.null else .encoder) := ⟨_, rfl⟩
  have hnull : outpos = .null → bytes = [] := by
    intro hc
    rw [hpos] at hc
    split_ifs at hc with hidle
    have hnone : e.encode kind.act none = .ok ([], e) := if_pos hidle
    exact (ok_pair (henc.symm.trans hnone)).1
  obtain ⟨given, outpos', out', e', owed', hfill, howes, hs, hout, hd⟩ := @fill_spec kind _ _ _ msgs _ h1 hsize1
    (fun hl => hdone (by rw [hsize]; exact hl)) hnull
  refine ⟨given, outpos', out', e', owed', ?_, howes, hs, by rw [hout, hsplit], fun hn => howes.idle_nil (hd hn)⟩
  unfold readEncoder
  rw [henc, ← hpos]
  dsimp only [bind, Except.bind]
  rw [hfill]
  rfl

variable {o : EngineOptions} {stream : List UInt8} {s s' : Connection} {p : Protocol} {accepted : List UInt8} {engine : StreamEngine}

theorem consumed_eq {l : List UInt8} (h : verdict o l = some (.chosen p)) (hle : l.length ≤ size (known l)) :
    p = .unversioned ∨ l.length = consumed p := by
  by_cases hk : known l = .unversioned
  · rw [verdict_unversioned hk] at h
    have h := congrArg Verdict.protocol (some.inj h)
    rw [unlessZap_protocol] at h
    change _ = some p at h
    split_ifs at h
    exact .inl (some.inj h).symm
  · right
    have hlen : l.length = size (known l) := by
      have := (verdict_none_iff (o := o) hk).not.mp (by rw [h]; simp)
      omega
    unfold verdict at h
    cases hkl : known l with
    | nothing | versioned => simp [hkl] at h
    | unversioned => exact absurd hkl hk
    | revision r =>
      rw [hkl] at h hlen
      dsimp only at h
      rw [if_neg (by omega)] at h
      have h := congrArg Verdict.protocol (some.inj h)
      rw [speaks_protocol] at h
      change _ = some p at h
      rw [hlen]
      by_cases h1 : r = zmtp10
      · split_ifs at h
        cases h
        exact if_pos (.inl h1)
      · by_cases h2 : r = zmtp20
        · split_ifs at h
          cases h
          exact if_pos (.inr h2)
        · split_ifs at h
          cases h
          exact if_neg fun hc => hc.elim h1 h2

structure Runs (o : EngineOptions) (stream : List UInt8) (s : Connection) (p : Protocol) : Prop where
  options : s.engine.options = o
  handshaking : s.engine.handshaking = false
  failed : s.engine.failed = false
  protocol : s.engine.protocol = some p
  verdict : verdict o stream = some (.chosen p)
  greeting : sends o (known stream) <+: s.accepted ++ s.engine.out
  output : ∃ e owed, s.engine.encoder = some (kindOf p, e) ∧ Encoder.Owes e owed ∧ e.bufsize = outBatchSize ∧
    s.accepted ++ s.engine.out ++ owed = sends o (known stream) ++ identityBody o p ++ s.loaded.flatMap (kindOf p).frame
  input : s.passed ++ s.engine.inbuf ++ s.wire = stream.drop (consumed p)

inductive Sound (o : EngineOptions) (stream : List UInt8) (s : Connection) : Prop
  | reading (h : Reads o s.accepted s.engine) (hv : verdict o s.engine.greetingRecv = none)
    (hw : s.engine.greetingRecv ++ s.wire = stream) (hl : s.loaded = []) (hp : s.passed = []) : Sound o stream s
  | rejected (hf : s.engine.failed = true) (hn : s.engine.protocol = none) (hv : verdict o stream = some .rejected)
    (hs : s.accepted ++ s.engine.out = sends o (known stream)) (hl : s.loaded = [])
    (hh : s.engine.handshaking = true) (hk : known stream = known s.engine.greetingRecv) : Sound o stream s
  | running (p : Protocol) (h : Runs o stream s p) : Sound o stream s

theorem reads_pending (h : Reads o accepted engine) (hv : verdict o engine.greetingRecv = none) :
    known engine.greetingRecv ≠ .unversioned ∧ engine.greetingRecv.length < engine.greetingSize := by
  have hk : known engine.greetingRecv ≠ .unversioned := by
    intro hc
    rw [verdict_unversioned hc] at hv
    exact absurd hv (some_ne_none _)
  rw [h.size]
  exact ⟨hk, (verdict_none_iff hk).mp hv⟩

theorem handshake_sound {reads : List ℕ} (h : Reads o s.accepted s.engine)
    (hv : verdict o s.engine.greetingRecv = none) (hw : s.engine.greetingRecv ++ s.wire = stream) (hl : s.loaded = [])
    (hp : s.passed = []) : ∃ s', s.run (.handshake reads) = .ok s' ∧ Sound o stream s' := by
  obtain ⟨hk, hlt⟩ := reads_pending h hv
  obtain ⟨complete, engine, got, wire, hloop, hwire, hrecv, hr, hc⟩ := @receiveGreeting_spec o _ _ s.wire reads h hk
  have hstream : engine.greetingRecv ++ wire = stream := by rw [hrecv, append_assoc, ← hwire, hw]
  have hstart : ¬ (!s.engine.handshaking ∨ s.engine.greetingSize ≤ s.engine.greetingRecv.length) := by
    rw [h.handshaking]
    simpa using hlt
  unfold Connection.run StreamEngine.handshake
  dsimp only [bind, Except.bind]
  rw [if_neg hstart, hloop]
  cases hcomplete : complete with
  | false =>
    refine ⟨_, rfl, .reading hr ?_ hstream hl hp⟩
    by_contra hne
    exact Bool.false_ne_true (hcomplete.symm.trans (hc.mpr hne))
  | true =>
    obtain ⟨v, hv⟩ := Option.ne_none_iff_exists'.mp (hc.mp hcomplete)
    obtain ⟨hvs, hks⟩ := verdict_append hv wire
    rw [hstream] at hvs hks
    have hsent := hr.sent
    rw [← hks] at hsent
    unfold conclude
    dsimp only [bind, Except.bind]
    rw [select_spec hr.options hv]
    cases v with
    | rejected => exact ⟨_, rfl, .rejected rfl hr.protocol hvs hsent hl hr.handshaking hks⟩
    | chosen p =>
      obtain ⟨e, hbegin, howes, hsize⟩ := begin_spec engine p
      rw [hr.options] at howes
      dsimp only [Verdict.protocol]
      rw [hbegin]
      refine ⟨_, rfl, .running p ⟨hr.options, rfl, hr.failed, rfl, hvs, ?_, ⟨e, _, rfl, howes, hsize, ?_⟩, ?_⟩⟩
      · exact ⟨[], by rw [append_nil]; exact hsent.symm⟩
      · rw [hsent, hl, flatMap_nil, append_nil]
      · rw [hp]
        have hle := hr.le
        rw [hr.size] at hle
        rcases consumed_eq hv hle with rfl | hlen
        · exact hstream
        · by_cases hu : p = .unversioned
          · rw [hu]
            exact hstream
          · rw [if_neg hu, hr.inbuf, ← hstream, ← hlen, drop_left]
            rfl

theorem writeOut_spec (engine : StreamEngine) (nbytes : Option ℕ) : ∃ outpos,
    (engine.writeOut nbytes).2 = { engine with outpos := outpos, out := (engine.writeOut nbytes).2.out } ∧
      (engine.writeOut nbytes).1 ++ (engine.writeOut nbytes).2.out = engine.out ∧
      ∀ offset, engine.outpos = .greeting offset →
        outpos = .greeting (offset + (engine.writeOut nbytes).1.length) := by
  cases nbytes with
  | none => exact ⟨engine.outpos, rfl, rfl, fun _ h => h⟩
  | some n =>
    refine ⟨_, rfl, take_append_drop _ _, fun offset h => ?_⟩
    simp only [writeOut, h, length_take]

theorem reads_write (h : Reads o accepted engine) (nbytes : Option ℕ) :
    Reads o (accepted ++ (engine.writeOut nbytes).1) (engine.writeOut nbytes).2 := by
  obtain ⟨outpos, hengine, hout, hpos⟩ := writeOut_spec engine nbytes
  have hpos := hpos _ h.outpos
  rw [hengine]
  refine ⟨h.options, ?_, ?_, h.size, h.encoder, h.handshaking, h.inbuf, h.protocol, h.failed, h.le⟩
  · rw [hpos, length_append]
  · rw [append_assoc, hout]
    exact h.sent

theorem runs_write (h : Runs o stream s p) (nbytes : Option ℕ) : Runs o stream { s with
      engine := (s.engine.writeOut nbytes).2, accepted := s.accepted ++ (s.engine.writeOut nbytes).1 } p := by
  obtain ⟨outpos, hengine, hout, -⟩ := writeOut_spec s.engine nbytes
  obtain ⟨e, owed, henc, howes, hsize, hall⟩ := h.output
  have hsame : s.accepted ++ (s.engine.writeOut nbytes).1 ++ (s.engine.writeOut nbytes).2.out =
      s.accepted ++ s.engine.out := by rw [append_assoc, hout]
  have hrest : ∀ P : StreamEngine → Prop, (∀ outpos out, P { s.engine with outpos := outpos, out := out }) →
      P (s.engine.writeOut nbytes).2 := fun P hP => by
    rw [hengine]
    exact hP _ _
  refine ⟨hrest (fun x => x.options = o) fun _ _ => h.options, hrest (fun x => x.handshaking = false) fun _ _ => h.handshaking,
    hrest (fun x => x.failed = false) fun _ _ => h.failed, hrest (fun x => x.protocol = some p) fun _ _ => h.protocol,
    h.verdict, ?_, ⟨e, owed, hrest (fun x => x.encoder = _) fun _ _ => henc, howes, hsize, ?_⟩,
    hrest (fun x => s.passed ++ x.inbuf ++ s.wire = _) fun _ _ => h.input⟩
  · rw [hsame]
    exact h.greeting
  · rw [hsame]
    exact hall

theorem outEvent_sound (msgs : List Msg) (nbytes : Option ℕ) (h : Sound o stream s) (hf : s.engine.failed = false) :
    ∃ given bytes engine, s.engine.outEvent msgs nbytes = .ok (given, bytes, engine) ∧
      Sound o stream { s with engine := engine, accepted := s.accepted ++ bytes, loaded := s.loaded ++ given } := by
  unfold StreamEngine.outEvent
  cases h with
  | rejected hf' => exact nomatch hf.symm.trans hf'
  | reading h hv hw hl hp =>
    by_cases hout : s.engine.out = []
    · rw [if_pos hout, h.encoder]
      rw [if_pos h.handshaking]
      refine ⟨[], [], _, rfl, .reading ?_ hv hw ((append_nil s.loaded).trans hl) hp⟩
      rw [append_nil]
      exact h
    · rw [if_neg hout]
      obtain ⟨outpos, hengine, -, -⟩ := writeOut_spec s.engine nbytes
      have hrecv : (s.engine.writeOut nbytes).2.greetingRecv = s.engine.greetingRecv := by rw [hengine]
      refine ⟨[], (s.engine.writeOut nbytes).1, (s.engine.writeOut nbytes).2, rfl, .reading (reads_write h nbytes) ?_ ?_
        ((append_nil s.loaded).trans hl) hp⟩
      · exact (congrArg (verdict o) hrecv).trans hv
      · exact (congrArg (· ++ s.wire) hrecv).trans hw
  | running p h =>
    by_cases hout : s.engine.out = []
    · obtain ⟨e, owed, henc, howes, hsize, hall⟩ := h.output
      obtain ⟨given, outpos, out, e', owed', hread, howes', hsize', hsplit, -⟩ :=
        @readEncoder_spec (kindOf p) _ _ msgs s.engine howes hsize
      rw [if_pos hout, henc]
      dsimp only [bind, Except.bind]
      rw [hread]
      dsimp only
      rw [hout, append_nil] at hall
      have hruns : Runs o stream { s with
          engine := { s.engine with outpos := outpos, out := out, encoder := some (kindOf p, e'),
                                    outputStopped := out = [] || s.engine.outputStopped }
          loaded := s.loaded ++ given } p := by
        refine ⟨h.options, h.handshaking, h.failed, h.protocol, h.verdict, ?_, ⟨e', owed', rfl, howes', hsize', ?_⟩, h.input⟩
        · have hg := h.greeting
          rw [hout, append_nil] at hg
          exact hg.trans (prefix_append _ _)
        · rw [append_assoc, hsplit, flatMap_append, ← append_assoc, ← append_assoc, hall]
      by_cases hnone : out = []
      · rw [if_pos hnone]
        refine ⟨given, [], _, rfl, .running p ?_⟩
        rw [append_nil]
        exact hruns
      · rw [if_neg hnone]
        exact ⟨given, _, _, rfl, .running p (runs_write hruns nbytes)⟩
    · rw [if_neg hout]
      refine ⟨[], _, _, rfl, .running p ?_⟩
      rw [append_nil]
      exact runs_write h nbytes

theorem restart_sound (h : Sound o stream s) : Sound o stream { s with engine := { s.engine with outputStopped := false } } := by
  cases h with
  | reading h hv hw hl hp =>
    exact .reading ⟨h.options, h.outpos, h.sent, h.size, h.encoder, h.handshaking, h.inbuf, h.protocol, h.failed, h.le⟩
      hv hw hl hp
  | rejected hf hn hv hs hl hh hk => exact .rejected hf hn hv hs hl hh hk
  | running p h =>
    exact .running p ⟨h.options, h.handshaking, h.failed, h.protocol, h.verdict, h.greeting, h.output, h.input⟩

theorem received_append (n : ℕ) : (s.received n).1 ++ (s.received n).2 = s.engine.inbuf ++ s.wire := by
  unfold Connection.received
  split_ifs with hi
  · rw [hi, take_append_drop, nil_append]
  · rfl

theorem decode_sound {n k : ℕ} (h : Sound o stream s) (hr : s.Ready (.decode n k)) :
    ∃ s', s.run (.decode n k) = .ok s' ∧ Sound o stream s' := by
  cases h with
  | reading h => exact nomatch hr.2.symm.trans h.handshaking
  | rejected hf => exact nomatch hr.1.symm.trans hf
  | running p h =>
    refine ⟨_, rfl, .running p ⟨h.options, h.handshaking, h.failed, h.protocol, h.verdict, h.greeting, h.output, ?_⟩⟩
    rw [append_assoc s.passed, take_append_drop, append_assoc, received_append, ← append_assoc]
    exact h.input

theorem Sound.run {op : Op} (h : Sound o stream s) (hr : s.Ready op) : ∃ s', s.run op = .ok s' ∧ Sound o stream s' := by
  cases op with
  | handshake reads =>
    cases h with
    | reading h hv hw hl hp => exact handshake_sound h hv hw hl hp
    | rejected hf => exact nomatch hr.1.symm.trans hf
    | running p h => exact nomatch h.handshaking.symm.trans hr.2
  | decode n k => exact decode_sound h hr
  | outEvent msgs nbytes =>
    obtain ⟨given, bytes, engine, hx, hs⟩ := outEvent_sound msgs nbytes h hr
    refine ⟨_, ?_, hs⟩
    unfold Connection.run
    dsimp only [bind, bind]
    rw [hx]
    rfl
  | restartOutput msgs nbytes =>
    obtain ⟨given, bytes, engine, hx, hs⟩ := outEvent_sound msgs nbytes (restart_sound h) hr
    refine ⟨_, ?_, hs⟩
    unfold Connection.run StreamEngine.restartOutput
    dsimp only [bind, bind] at hx ⊢
    rw [hx]
    rfl

theorem new_sound : Sound o stream (new o stream) :=
  .reading ⟨rfl, rfl, rfl, rfl, rfl, rfl, rfl, rfl, rfl, Nat.zero_le _⟩ rfl rfl rfl rfl

theorem run_sound {ops : List Op} (h : Run (Start o stream) Step ops s) : Sound o stream s :=
  h.invariant (Sound o stream) (fun _ h0 => h0 ▸ new_sound) fun _ _ _ hs ⟨hr, hx⟩ => by
    obtain ⟨s', hx', h'⟩ := hs.run hr
    cases hx.symm.trans hx'
    exact h'

/-- However the bytes of the peer are cut into reads and whatever is written meanwhile, no call fails; the greeting
is read within its bounds until there is a verdict; the verdict, the greeting that is sent and what the decoder gets
are those of the stream. -/
theorem greeting_of_stream {ops : List Op} (h : Run (Start o stream) Step ops s) : (∀ op, s.Ready op → ∃ s', s.run op = .ok s') ∧
    (s.engine.failed = false → s.engine.handshaking = true →
      s.engine.greetingRecv ++ s.wire = stream ∧ verdict o s.engine.greetingRecv = none ∧
      s.accepted ++ s.engine.out = sends o (known s.engine.greetingRecv) ∧
      s.engine.greetingRecv.length < s.engine.greetingSize ∧ s.engine.greetingSize ≤ v3GreetingSize) ∧
    (s.engine.failed = true → verdict o stream = some .rejected ∧ s.accepted ++ s.engine.out = sends o (known stream)) ∧
    (s.engine.handshaking = false → ∃ p, s.engine.protocol = some p) ∧
    ∀ p, s.engine.protocol = some p → verdict o stream = some (.chosen p) ∧
      (∃ rest, s.accepted ++ s.engine.out = sends o (known stream) ++ rest ∧
        rest <+: identityBody o p ++ s.loaded.flatMap (kindOf p).frame) ∧
      s.passed ++ s.engine.inbuf ++ s.wire = stream.drop (consumed p) := by
  have hs := run_sound h
  refine ⟨fun op hr => (hs.run hr).imp fun _ hx => hx.1, ?_⟩
  cases hs with
  | reading h hv hw hl hp =>
    have hmax : size (known s.engine.greetingRecv) ≤ v3GreetingSize := by
      cases known s.engine.greetingRecv with
      | revision r => by_cases hr : older r <;> simp [size, hr, v2GreetingSize, v3GreetingSize]
      | _ => exact (by decide : v2GreetingSize ≤ v3GreetingSize)
    refine ⟨fun _ _ => ⟨hw, hv, h.sent, (reads_pending h hv).2, ?_⟩, fun hf => ?_, fun hc => ?_, fun p hp' => ?_⟩
    · rw [h.size]
      exact hmax
    · exact absurd (h.failed.symm.trans hf) false_ne_true
    · exact absurd (hc.symm.trans h.handshaking) false_ne_true
    · exact absurd (h.protocol.symm.trans hp') (some_ne_none p).symm
  | rejected hf hn hv hsent hl hh hk =>
    refine ⟨fun hc => ?_, fun _ => ⟨hv, hsent⟩, fun hc => ?_, fun p hp' => ?_⟩
    · exact absurd (hc.symm.trans hf) false_ne_true
    · exact absurd (hc.symm.trans hh) false_ne_true
    · exact absurd (hn.symm.trans hp') (some_ne_none p).symm
  | running p h =>
    refine ⟨fun _ hc => ?_, fun hc => ?_, fun _ => ⟨p, h.protocol⟩, fun q hq => ?_⟩
    · exact absurd (h.handshaking.symm.trans hc) false_ne_true
    · exact absurd (h.failed.symm.trans hc) false_ne_true
    · cases h.protocol.symm.trans hq
      obtain ⟨rest, hrest⟩ := h.greeting
      obtain ⟨e, owed, -, -, -, hall⟩ := h.output
      refine ⟨h.verdict, ⟨rest, hrest.symm, owed, ?_⟩, h.input⟩
      rw [← hrest, append_assoc, append_assoc] at hall
      exact append_cancel_left hall

/-- A socket without an identity and without security. -/
def plainOptions : EngineOptions := ⟨[], 5, .null, [], false, false, by decide⟩

/-- The greeting of ZMTP/3.0 with the mechanism NULL, and two bytes more. -/
def greeting3 : List UInt8 :=
  signature plainOptions ++ [3, 0] ++ mechanismName .null ++ replicate 32 0 ++ [4, 26]

/-- The greeting in five reads, a part of the own greeting written in between. -/
theorem greeting_of_stream_five : ∃ s : Connection, Run (Start plainOptions greeting3) Step
      [.handshake [1, 8], .outEvent [] (some 4), .handshake [1], .handshake [60, 60], .decode 8192 1] s ∧
    s.engine.protocol = some (.zmtp3 .null) ∧ (s.accepted.length, s.engine.out.length) = (4, 60) ∧
    (s.passed ++ s.engine.inbuf ++ s.wire = greeting3.drop 64) := by
  refine exists_run_free (P := fun s => s.engine.protocol = some (.zmtp3 .null) ∧
    (s.accepted.length, s.engine.out.length) = (4, 60)) (rfl : Start plainOptions greeting3 _) (by decide +kernel)
    fun s hs ⟨hp, hlen⟩ => ?_
  exact ⟨hp, hlen, ((greeting_of_stream hs).2.2.2.2 _ hp).2.2⟩

/-- What the socket accepts is the greeting, then the identity that an unversioned peer takes for the first message,
then the frames of the messages; a message is loaded only when the one before is complete, and then gives some bytes.
Nothing is held back once the engine has nothing left to write. -/
theorem output_is_frames {ops : List Op} (h : Run (Start o stream) Step ops s) : (∀ op, s.Ready op → ∃ s', s.run op = .ok s') ∧
    (s.engine.protocol = none → s.accepted <+: sends o (known s.engine.greetingRecv)) ∧ ∀ p, s.engine.protocol = some p →
      s.accepted <+: sends o (known stream) ++ identityBody o p ++ s.loaded.flatMap (kindOf p).frame ∧
      ∃ e, s.engine.encoder = some (kindOf p, e) ∧ (s.engine.out = [] → e.inProgress = none →
        s.accepted = sends o (known stream) ++ identityBody o p ++ s.loaded.flatMap (kindOf p).frame) := by
  have hs := run_sound h
  refine ⟨fun op hr => (hs.run hr).imp fun _ hx => hx.1, ?_⟩
  cases hs with
  | reading h hv hw hl hp =>
    refine ⟨fun _ => ⟨_, h.sent⟩, fun p hp' => ?_⟩
    exact absurd (h.protocol.symm.trans hp') (some_ne_none p).symm
  | rejected hf hn hv hsent hl hh hk =>
    rw [hk] at hsent
    exact ⟨fun _ => ⟨_, hsent⟩, fun p hp' => absurd (hn.symm.trans hp') (some_ne_none p).symm⟩
  | running p h =>
    refine ⟨fun hc => absurd (h.protocol.symm.trans hc) (some_ne_none p), fun q hq => ?_⟩
    cases h.protocol.symm.trans hq
    obtain ⟨e, owed, henc, howes, -, hall⟩ := h.output
    refine ⟨⟨s.engine.out ++ owed, by rw [← append_assoc, hall]⟩, e, henc, fun hout hidle => ?_⟩
    rw [howes.idle_nil hidle, hout, append_nil, append_nil] at hall
    exact hall

/-- Two messages for an unversioned peer, its first byte being enough to know it; the socket accepts 16 bytes. -/
theorem output_is_frames_two : ∃ s : Connection, Run (Start plainOptions [1, 0]) Step
      [.handshake [1], .outEvent [] (some 3), .outEvent [] (some 7), .outEvent [⟨.vsm, Msg.more, [8, 9]⟩, ⟨.vsm, 0, []⟩] (some 5),
        .outEvent [] (some 9)] s ∧ s.accepted = signature plainOptions ++ [3, 1, 8, 9, 1, 0] ∧
    s.accepted = sends plainOptions (known [1, 0]) ++ identityBody plainOptions .unversioned ++
      s.loaded.flatMap (kindOf .unversioned).frame := by
  refine exists_run_free (P := fun s => s.engine.protocol = some .unversioned ∧
    s.accepted = signature plainOptions ++ [3, 1, 8, 9, 1, 0] ∧ s.engine.out = [] ∧
    (s.engine.encoder.map fun x => x.2.inProgress) = some none)
    (rfl : Start plainOptions [1, 0] _) (by decide +kernel) fun s hs ⟨hp, ha, hout, hidle⟩ => ?_
  obtain ⟨-, e, henc, hall⟩ := (output_is_frames hs).2.2 _ hp
  rw [henc] at hidle
  exact ⟨ha, hall hout (some.inj hidle)⟩

end Connection

end Zmq
