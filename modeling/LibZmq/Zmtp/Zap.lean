import LibZmq.Zmtp.Grammar
import LibZmq.Zmtp.Mechanism

/-! What the calls on the ZAP pipe do: the frames that are read, and what a reply that is accepted looks like. -/

namespace Zmq

namespace Metadata

theorem parseMetadata_same {β : Type} (f : MechanismBase → β) {check : Check} {m m' : MechanismBase} {b : List UInt8}
    {zapFlag : Bool} {rc : Ret} (hf : ∀ m p, f (keep zapFlag m p) = f m) (h : parseMetadata check m b zapFlag = .ok (rc, m')) :
    f m' = f m := by
  have hall : ∀ (ps : List Property) (m : MechanismBase), f (reportAll check zapFlag m ps).2 = f m := by
    intro ps
    induction ps with
    | nil => exact fun _ => rfl
    | cons p ps ih =>
      intro m
      unfold reportAll
      cases refusal check m.options p with
      | some e => rfl
      | none => exact (ih _).trans (hf m p)
  obtain ⟨hfit, hnone, happ⟩ := cut_spec b
  rw [happ, parseMetadata_cut hfit hnone] at h
  rw [← hall (cut b).1 m]
  cases hr : reportAll check zapFlag m (cut b).1 with
  | mk e m1 =>
    rw [hr] at h
    cases e <;> exact congrArg f (ok_pair h).2.symm

theorem exists_parseMetadata (check : Check) (m : MechanismBase) (b : List UInt8) (zapFlag : Bool) :
    ∃ rc m', parseMetadata check m b zapFlag = .ok (rc, m') := by
  obtain ⟨hfit, hnone, happ⟩ := cut_spec b
  have h : parseMetadata check m (encodeAll (cut b).1 ++ (cut b).2) zapFlag = _ := parseMetadata_cut hfit hnone
  rw [← happ] at h
  cases hr : reportAll check zapFlag m (cut b).1 with
  | mk e m1 =>
    rw [hr] at h
    cases e <;> exact ⟨_, _, h⟩

end Metadata

/-- Seven frames that make up a reply with this status code. -/
structure ZapReply (frames : List Msg) (code : List UInt8) : Prop where
  length : frames.length = 7
  more : ∀ i (h : i < frames.length), (frames[i]).hasMore = decide (i < 6)
  delimiter : (frames.getD 0 .init).data = []
  version : (frames.getD 1 .init).data = ZapMechanism.zapVersion
  request : (frames.getD 2 .init).data = ZapMechanism.requestId
  status : (frames.getD 3 .init).data = code
  code_length : code.length = 3

namespace ZapSession

structure Reads (s : ZapSession) (used : List Msg) (s' : ZapSession) : Prop where
  handler : s'.handler = s.handler
  connected : s'.connected = s.connected
  outgoing : s'.outgoing = s.outgoing
  incoming : s.incoming = used ++ s'.incoming

theorem Reads.refl (s : ZapSession) : s.Reads [] s := ⟨rfl, rfl, rfl, rfl⟩

theorem Reads.trans {s s1 s2 : ZapSession} {u v : List Msg} (h : s.Reads u s1) (h' : s1.Reads v s2) : s.Reads (u ++ v) s2 :=
  ⟨h'.handler.trans h.handler, h'.connected.trans h.connected, h'.outgoing.trans h.outgoing,
    by rw [h.incoming, h'.incoming, List.append_assoc]⟩

theorem readZapMsg_reads {s s' : ZapSession} {r : Except MechErrno Msg} (h : s.readZapMsg = (r, s')) :
    s.Reads (match r with | .ok m => [m] | .error _ => []) s' := by
  unfold readZapMsg at h
  split_ifs at h with hc
  · cases hi : s.incoming with
    | nil =>
      rw [hi] at h
      cases h
      exact Reads.refl s
    | cons m incoming =>
      rw [hi] at h
      cases h
      exact ⟨rfl, rfl, rfl, hi⟩
  · cases h
    exact Reads.refl s

theorem readFrames_reads {n : ℕ} {s s' : ZapSession} {r : Except MechErrno (List Msg)} (h : readFrames n s = (r, s')) :
    ∃ used, s.Reads used s' ∧ ∀ ms, r = .ok ms → ms = used ∧ ms.length = n ∧
      ∀ i (h : i < ms.length), (ms[i]).hasMore = decide (i + 1 < n) := by
  induction n generalizing s s' r with
  | zero =>
    cases h
    refine ⟨[], Reads.refl s, fun ms hms => ?_⟩
    cases hms
    exact ⟨rfl, rfl, fun i hi => absurd hi (Nat.not_lt_zero i)⟩
  | succ n ih =>
    unfold readFrames at h
    cases hr : s.readZapMsg with
    | mk r1 s1 =>
      have hread := readZapMsg_reads hr
      rw [hr] at h
      cases r1 with
      | error e =>
        cases h
        exact ⟨[], hread, fun ms hms => nomatch hms⟩
      | ok m =>
        simp only at h
        split_ifs at h with hmore
        · cases h
          exact ⟨[m], hread, fun ms hms => nomatch hms⟩
        cases hr2 : readFrames n s1 with
        | mk r2 s2 =>
          rw [hr2] at h
          obtain ⟨used, hused, hms2⟩ := ih hr2
          cases r2 with
          | error e =>
            cases h
            exact ⟨[m] ++ used, hread.trans hused, fun ms hms => nomatch hms⟩
          | ok ms =>
            cases h
            obtain ⟨rfl, hlen, hflags⟩ := hms2 ms rfl
            refine ⟨[m] ++ ms, hread.trans hused, fun ms' hms' => ?_⟩
            cases hms'
            refine ⟨rfl, by rw [List.length_cons, hlen], fun i hi => ?_⟩
            cases i with
            | zero =>
              simp only [List.getElem_cons_zero]
              cases n <;> simpa using hmore
            | succ i =>
              rw [List.getElem_cons_succ, hflags i (Nat.lt_of_succ_lt_succ hi)]
              exact decide_eq_decide.mpr (by omega)

end ZapSession

namespace ZapMechanism

variable {z z' : ZapMechanism} {rejected : MechErrno} {rc : Ret}

theorem receive_spec (h : z.receiveAndProcessZapReply rejected = .ok (rc, z')) :
    ∃ used, z.session.Reads used z'.session ∧ (z'.base.options = z.base.options ∧
      z'.base.zmtpProperties = z.base.zmtpProperties) ∧ z'.peerAddress = z.peerAddress ∧
      (rc = .ok → ZapReply used z'.statusCode) := by
  unfold receiveAndProcessZapReply at h
  cases hr : z.session.readFrames 7 with
  | mk r s =>
    obtain ⟨used, hreads, hms⟩ := ZapSession.readFrames_reads hr
    rw [hr] at h
    cases r with
    | error e =>
      cases h
      exact ⟨used, hreads, ⟨rfl, rfl⟩, rfl, nofun⟩
    | ok frames =>
      obtain ⟨rfl, hlen, hflags⟩ := hms frames rfl
      simp only at h
      split_ifs at h with hbad hstatus
      · cases h
        exact ⟨frames, hreads, ⟨rfl, rfl⟩, rfl, nofun⟩
      · cases h
        exact ⟨frames, hreads, ⟨rfl, rfl⟩, rfl, nofun⟩
      obtain ⟨⟨rc1, base⟩, hparse, hret⟩ := bind_ok h
      cases hret
      simp only [not_or, not_not] at hbad hstatus
      have hoptions := Metadata.parseMetadata_same MechanismBase.options (Metadata.keep_options true) hparse
      have hproperties := Metadata.parseMetadata_same MechanismBase.zmtpProperties Metadata.keep_zmtpProperties_zap hparse
      refine ⟨frames, hreads, ⟨hoptions, hproperties⟩, rfl, fun _ => ⟨hlen, fun i hi => ?_, hbad.1, hbad.2.1, hbad.2.2, rfl, hstatus⟩⟩
      rw [hflags i hi]
      exact decide_eq_decide.mpr (by omega)

theorem writeFrames_spec {frames : List (List UInt8)} {s s' : ZapSession} (h : s.writeFrames frames = .ok s') :
    s'.handler = s.handler ∧ s'.incoming = s.incoming ∧ (frames ≠ [] → s.connected = true) ∧ s'.connected = s.connected := by
  have hwrite : ∀ {s s1 : ZapSession} {m : Msg}, s.writeZapMsg m = .ok s1 →
      s.connected = true ∧ s1 = { s with outgoing := s.outgoing ++ [m] } := fun hw => by
    obtain ⟨⟨⟩, ha, hret⟩ := bind_ok hw
    exact ⟨Block.assert_eq ha, (Except.ok.inj hret).symm⟩
  induction frames generalizing s with
  | nil =>
    cases h
    exact ⟨rfl, rfl, fun hc => absurd rfl hc, rfl⟩
  | cons data frames ih =>
    cases frames with
    | nil =>
      obtain ⟨hc, rfl⟩ := hwrite h
      exact ⟨rfl, rfl, fun _ => hc, rfl⟩
    | cons data' frames =>
      obtain ⟨s1, h1, h2⟩ := bind_ok h
      obtain ⟨hc, rfl⟩ := hwrite h1
      obtain ⟨h3, h4, -, h5⟩ := ih h2
      exact ⟨h3, h4, fun _ => hc, h5⟩

theorem sendZapRequest_spec {mechanism : List UInt8} {credentials : List (List UInt8)}
    (h : z.sendZapRequest mechanism credentials = .ok z') : z'.session.handler = z.session.handler ∧
      z'.session.incoming = z.session.incoming ∧ z'.session.connected = true ∧ z'.base = z.base ∧
      z'.statusCode = z.statusCode := by
  obtain ⟨s, hs, hret⟩ := bind_ok h
  cases hret
  obtain ⟨h1, h2, h3, h4⟩ := writeFrames_spec hs
  exact ⟨h1, h2, h4.trans (h3 (by simp)), rfl, rfl⟩

end ZapMechanism

namespace ZapSession

theorem zapConnect_spec {s s' : ZapSession} {rc : Ret} (h : s.zapConnect = .ok (rc, s')) : s'.handler = s.handler ∧
    s'.incoming = s.incoming ∧ (rc = .ok ↔ s.handler = true) ∧ (rc = .ok → s'.connected = true) := by
  obtain ⟨⟨⟩, -, hret⟩ := bind_ok h
  split_ifs at hret with hh
  · cases hret
    exact ⟨rfl, rfl, iff_of_true rfl hh, fun _ => rfl⟩
  · cases hret
    exact ⟨rfl, rfl, iff_of_false (nofun) hh, nofun⟩

end ZapSession

end Zmq
