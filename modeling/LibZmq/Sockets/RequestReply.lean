import LibZmq.Sockets.LoadBalancer
import LibZmq.Sockets.Req

/-! Requests over pipes that come, go and deliver messages at any time. Whom a reply is received from is compared with
whom the request was written to. -/

namespace Zmq

open List Option Bool Prod

open Function (update update_of_ne update_self)

variable {got : Option Msg} {i i' : Inlet}

theorem Inlet.read_listening (h : i.read = (got, i')) (ha : i'.inActive = true) : i.inActive = true := by
  rcases i.read_cases with ⟨hi, hr⟩ | ⟨hi, -, hr⟩ | ⟨m, rest, hi, -, hr⟩
  · rw [h] at hr
    rw [(Prod.mk.inj hr).2] at ha
    exact ha
  · exact hi
  · exact hi

theorem Inlet.read_pending (h : i.read = (got, i')) :
    (∀ m ∈ i'.pending, m ∈ i.pending) ∧ ∀ m, got = some m → i.inActive = true ∧ m ∈ i.pending := by
  cases got with
  | none => exact ⟨fun m hm => Inlet.read_none h ▸ hm, fun m hc => (by cases hc)⟩
  | some m =>
    obtain ⟨hp, ha⟩ := Inlet.read_some h
    refine ⟨fun m' hm' => ?_, fun m' hc => ⟨Inlet.read_listening h ha, ?_⟩⟩
    · rw [hp]
      exact mem_cons_of_mem m hm'
    · rw [hp, some.inj hc]
      exact mem_cons_self

namespace DealerT

variable {P : Type} {d d' d1 : DealerT P} {e e' e1 : Ends P} {p : P} {m : Msg}

structure Reads (d : DealerT P) (e : Ends P) (d' : DealerT P) (e' : Ends P) : Prop where
  lb : d'.lb = d.lb
  outlets : e'.outlets = e.outlets
  pipes : ∀ p, p ∈ d'.fq.pipes → p ∈ d.fq.pipes
  listening : ∀ p, (e'.inlets p).inActive = true → (e.inlets p).inActive = true
  pending : ∀ p, ∀ m ∈ (e'.inlets p).pending, m ∈ (e.inlets p).pending

theorem Reads.refl : Reads d e d e := ⟨rfl, rfl, fun _ => id, fun _ => id, fun _ _ => id⟩

theorem Reads.trans (h : Reads d e d1 e1) (h' : Reads d1 e1 d' e') : Reads d e d' e' :=
  ⟨h'.lb.trans h.lb, h'.outlets.trans h.outlets, fun p hp => h.pipes p (h'.pipes p hp),
    fun p hp => h.listening p (h'.listening p hp), fun p m hm => h.pending p m (h'.pending p m hm)⟩

def Readable (d : DealerT P) (e : Ends P) (p : P) (m : Msg) : Prop :=
  p ∈ d.fq.pipes ∧ (e.inlets p).inActive = true ∧ m ∈ (e.inlets p).pending

theorem Reads.readable (h : Reads d e d' e') (hp : d'.Readable e' p m) : d.Readable e p m :=
  ⟨h.pipes p hp.1, h.listening p hp.2.1, h.pending p m hp.2.2⟩

variable [DecidableEq P] {got : Option (P × Msg)}

theorem recvLoop_reads {n : ℕ} {fq fq' : FqT P} {inlets : P → Inlet}
    (h : FqT.recvLoop n fq inlets = .ok (got, fq', e'.inlets)) (hfq : d.fq = fq) (he : e.inlets = inlets)
    (hlb : d'.lb = d.lb) (hout : e'.outlets = e.outlets) (hfq' : d'.fq = fq') :
    Reads d e d' e' ∧ ∀ p m, got = some (p, m) → d.Readable e p m := by
  induction n generalizing d e fq inlets with
  | zero =>
    obtain ⟨rfl, hrest⟩ := ok_pair h
    obtain ⟨hf, hi⟩ := Prod.mk.inj hrest
    refine ⟨⟨hlb, hout, fun p hp => ?_, fun p hp => ?_, fun p m hm => ?_⟩, fun p m hc => (by cases hc)⟩
    · rwa [hfq', ← hf, ← hfq] at hp
    · rwa [← hi, ← he] at hp
    · rwa [← hi, ← he] at hm
  | succ n ih =>
    unfold FqT.recvLoop at h
    cases hget : fq.pipes.get fq.current with
    | none => simp [hget] at h
    | some pipe =>
      simp only [hget] at h
      have hmem : pipe ∈ d.fq.pipes := hfq ▸ (ArrayT.get_iff.mp hget).1
      obtain ⟨r, i, hr⟩ : ∃ r i, (inlets pipe).read = (r, i) := ⟨_, _, rfl⟩
      rw [← he] at hr
      obtain ⟨hpend, hsome⟩ := Inlet.read_pending hr
      have hlisten : ∀ p, (update e.inlets pipe i p).inActive = true → (e.inlets p).inActive = true :=
          fun p hp => by
        rcases eq_or_ne p pipe with rfl | hne
        · rw [update_self] at hp
          exact Inlet.read_listening hr hp
        · rwa [update_of_ne hne] at hp
      have hpending : ∀ p, ∀ m ∈ (update e.inlets pipe i p).pending, m ∈ (e.inlets p).pending :=
          fun p m hm => by
        rcases eq_or_ne p pipe with rfl | hne
        · rw [update_self] at hm
          exact hpend m hm
        · rwa [update_of_ne hne] at hm
      simp only [← he, hr] at h
      cases r with
      | some msg =>
        obtain ⟨rfl, hrest⟩ := ok_pair h
        obtain ⟨hf, hi⟩ := Prod.mk.inj hrest
        refine ⟨⟨hlb, hout, fun p hp => ?_, fun p hp => ?_, fun p m hm => ?_⟩, fun p m hc => ?_⟩
        · rw [hfq', ← hf] at hp
          rw [hfq]
          unfold FqT.fetched at hp
          split_ifs at hp <;> exact hp
        · exact hlisten p (by rwa [hi])
        · exact hpending p m (by rwa [hi])
        · cases hc
          exact ⟨hmem, hsome msg rfl⟩
      | none =>
        split_ifs at h
        obtain ⟨hreads, hgot⟩ := @ih { d with fq := { fq with toRota := fq.deactivate } }
          { e with inlets := update e.inlets pipe i } _ _ h rfl rfl hlb hout
        have hstep : Reads d e { d with fq := { fq with toRota := fq.deactivate } }
            { e with inlets := update e.inlets pipe i } :=
          ⟨rfl, rfl, fun p hp => hfq ▸ Rota.deactivate_mem.mp hp, hlisten, hpending⟩
        exact ⟨hstep.trans hreads, fun p m hc => hstep.readable (hgot p m hc)⟩

theorem recvpipe_reads (h : d.recvpipe e = .ok (got, d', e')) :
    Reads d e d' e' ∧ ∀ p m, got = some (p, m) → d.Readable e p m := by
  obtain ⟨⟨got1, fq, inlets⟩, hrecv, h⟩ := bind_ok h
  obtain ⟨rfl, hrest⟩ := ok_pair h
  cases hrest
  have hrecv' : FqT.recvLoop d.fq.active d.fq e.inlets = .ok (got1, fq, ({ e with inlets := inlets } : Ends P).inlets) := hrecv
  exact recvLoop_reads hrecv' rfl rfl rfl rfl rfl

theorem drain_reads {n : ℕ} (h : drain n d e = .ok (d', e')) : Reads d e d' e' := by
  induction n generalizing d e with
  | zero =>
    cases h
    exact .refl
  | succ n ih =>
    obtain ⟨⟨got, d1, e1⟩, hrecv, h⟩ := bind_ok h
    have hreads := (recvpipe_reads hrecv).1
    cases got with
    | none =>
      cases h
      exact hreads
    | some x => exact hreads.trans (ih h)

inductive Sends (d : DealerT P) (m : Msg) : Option (Option P) → DealerT P → Ends P → Prop
  | dropped {after : DealerT P} {ends : Ends P} (hd : d.lb.dropping = true) (hm : after.lb.more = m.hasMore)
      (hd' : after.lb.dropping = m.hasMore) : Sends d m (some none) after ends
  | refused {after : DealerT P} {ends : Ends P} (hd : d.lb.dropping = false) (hm : after.lb.more = false)
      (hd' : after.lb.dropping = false) : Sends d m none after ends
  | taken {after : DealerT P} {ends : Ends P} {pipe : P} (hd : d.lb.dropping = false)
      (hc : d.lb.more = true → d.lb.IsCurrent pipe) (hm : after.lb.more = m.hasMore) (hd' : after.lb.dropping = false)
      (hc' : m.hasMore = true → after.lb.IsCurrent pipe ∧ (ends.outlets pipe).self.outActive = true) :
      Sends d m (some (some pipe)) after ends

theorem skips_wf {E : Type} {rel : E → E → Prop} {r r' : Rota P} {ends ends' : P → E}
    (h : Rota.Skips rel r ends r' ends') (hr : r.Wf) : r'.Wf := by
  induction h with
  | done => exact hr
  | skip hc _ _ ih => exact ih (Rota.deactivate_wf hr hc)

theorem sendpipe_sends (h : d.lb.Wf) (hc : d.lb.more = true → d.lb.dropping = false → ∃ p, d.lb.IsCurrent p) :
    ∃ took d' e', d.sendpipe e m = .ok (took, d', e') ∧ d'.fq = d.fq ∧ e'.inlets = e.inlets ∧ d'.lb.Wf ∧
      Sends d m took d' e' := by
  unfold sendpipe
  cases hd : d.lb.dropping with
  | true => exact ⟨_, _, _, rfl, rfl, rfl, h, .dropped hd rfl rfl⟩
  | false =>
    obtain ⟨r, outlets, hskips, hsame, hx⟩ := @LbT.sendLoop_skips _ _ _ e.outlets m _ h rfl
    have hwf := skips_wf hskips h
    rcases hx with ⟨hx, hr⟩ | ⟨p, o, hp, ⟨hw, hx⟩ | ⟨hm, hw, hx⟩⟩
    · rw [hx]
      refine ⟨_, _, _, rfl, rfl, rfl, hwf, .refused hd ?_ hd⟩
      by_contra hm
      have hm : d.lb.more = true := by simpa using hm
      obtain ⟨q, hq⟩ := hc hm hd
      have hpos := hq.active_pos
      rw [← (hsame hm).1] at hpos
      omega
    · rw [hx]
      have hcur : d.lb.more = true → d.lb.IsCurrent p := fun hm => (hsame hm).1 ▸ hp
      obtain ⟨hcheck, rfl⟩ := Outlet.write_true hw
      have hactive := (Outlet.checkWrite_true hcheck).1
      cases hmm : m.hasMore with
      | true =>
        refine ⟨_, _, _, rfl, rfl, rfl, ?_, .taken hd hcur ?_ ?_ fun _ => ⟨?_, ?_⟩⟩
        all_goals simp only [LbT.written, hmm, if_true]
        · exact hwf
        · exact hd
        · exact hp
        · rw [update_self]
          exact hactive
      | false =>
        refine ⟨_, _, _, rfl, rfl, rfl, ?_, .taken hd hcur ?_ ?_ fun hc => ?_⟩
        · simp only [LbT.written, hmm]
          exact Rota.advance_wf hwf hp.active_pos
        · simp only [LbT.written, hmm]
          rfl
        · simp only [LbT.written, hmm]
          exact hd
        · rw [hmm] at hc
          cases hc
    · rw [hx]
      exact ⟨_, _, _, rfl, rfl, rfl, hwf, .refused hd rfl hd⟩

end DealerT

namespace ReqT

variable {P : Type} {r r' r1 : ReqT P} {e e' e1 : Ends P} {p : P} {m : Msg} {took : List (Option P)}

structure Reads (r : ReqT P) (e : Ends P) (r' : ReqT P) (e' : Ends P) : Prop where
  dealer : DealerT.Reads r.toDealerT e r'.toDealerT e'
  receivingReply : r'.receivingReply = r.receivingReply
  replyPipe : r'.replyPipe = r.replyPipe
  strict : r'.strict = r.strict

theorem Reads.refl : Reads r e r e := ⟨.refl, rfl, rfl, rfl⟩

theorem Reads.trans (h : Reads r e r1 e1) (h' : Reads r1 e1 r' e') : Reads r e r' e' :=
  ⟨h.dealer.trans h'.dealer, h'.receivingReply.trans h.receivingReply, h'.replyPipe.trans h.replyPipe, h'.strict.trans h.strict⟩

def Accepts (r : ReqT P) (e : Ends P) (p : P) (m : Msg) : Prop :=
  r.toDealerT.Readable e p m ∧ (r.replyPipe = none ∨ r.replyPipe = some p)

theorem Reads.accepts (h : Reads r e r' e') (hp : r'.Accepts e' p m) : r.Accepts e p m :=
  ⟨h.dealer.readable hp.1, h.replyPipe ▸ hp.2⟩

variable [DecidableEq P] {got : Option (P × Msg)} {n : ℕ} {rc : ReqRc}

theorem recvReplyLoop_reads (h : recvReplyLoop n r e = .ok (got, r', e')) :
    Reads r e r' e' ∧ ∀ p m, got = some (p, m) → r.Accepts e p m := by
  induction n generalizing r e with
  | zero =>
    cases h
    exact ⟨.refl, fun p m hc => (by cases hc)⟩
  | succ n ih =>
    obtain ⟨⟨got1, d1, e1⟩, hrecv, h⟩ := bind_ok h
    obtain ⟨hreads, hgot⟩ := DealerT.recvpipe_reads hrecv
    have hstep : Reads r e { r with toDealerT := d1 } e1 := ⟨hreads, rfl, rfl, rfl⟩
    cases got1 with
    | none =>
      cases h
      exact ⟨hstep, fun p m hc => (by cases hc)⟩
    | some x =>
      obtain ⟨pipe, msg⟩ := x
      dsimp only at h
      split_ifs at h with hpipe
      · cases h
        refine ⟨hstep, fun p m hc => ?_⟩
        cases hc
        exact ⟨hgot pipe msg rfl, hpipe⟩
      · obtain ⟨hrest, hgot'⟩ := ih h
        exact ⟨hstep.trans hrest, fun p m hc => hstep.accepts (hgot' p m hc)⟩

theorem skipRest_reads (h : r.skipRest n e m = .ok (r', e')) : Reads r e r' e' := by
  induction n generalizing r e m with
  | zero => cases h
  | succ n ih =>
    unfold skipRest at h
    split_ifs at h
    · obtain ⟨⟨got, r1, e1⟩, hrecv, h⟩ := bind_ok h
      have hreads := (recvReplyLoop_reads hrecv).1
      cases got with
      | none => cases h
      | some x => exact hreads.trans (ih h)
    · cases h
      exact .refl

theorem expect_reads {good : Msg → Bool} {rc : Option Bool} (h : r.expect e good = .ok (rc, r', e')) :
    Reads r e r' e' ∧ (rc ≠ none → ∃ p m, r.Accepts e p m) := by
  obtain ⟨⟨got, r1, e1⟩, hrecv, h⟩ := bind_ok h
  obtain ⟨hreads, hgot⟩ := recvReplyLoop_reads hrecv
  cases got with
  | none =>
    cases h
    exact ⟨hreads, fun hc => absurd rfl hc⟩
  | some x =>
    obtain ⟨pipe, msg⟩ := x
    dsimp only at h
    split_ifs at h
    · cases h
      exact ⟨hreads, fun _ => ⟨pipe, msg, hgot pipe msg rfl⟩⟩
    · obtain ⟨⟨r2, e2⟩, hskip, h⟩ := bind_ok h
      cases h
      exact ⟨hreads.trans (skipRest_reads hskip), fun _ => ⟨pipe, msg, hgot pipe msg rfl⟩⟩

theorem findReply_reads {found : Bool} (h : findReply n r e = .ok (found, r', e')) : Reads r e r' e' := by
  induction n generalizing r e with
  | zero =>
    cases h
    exact .refl
  | succ n ih =>
    obtain ⟨⟨id, r1, e1⟩, hid, h⟩ := bind_ok h
    have hreads : Reads r e r1 e1 := by
      unfold expectId at hid
      split_ifs at hid
      · exact (expect_reads hid).1
      · cases hid
        exact .refl
    rcases id with _ | _ | _
    · cases h
      exact hreads
    · exact hreads.trans (ih h)
    · obtain ⟨⟨bot, r2, e2⟩, hbot, h⟩ := bind_ok h
      have hreads' := hreads.trans (expect_reads hbot).1
      rcases bot with _ | _ | _
      · cases h
        exact hreads'
      · exact hreads'.trans (ih h)
      · cases h
        exact ⟨hreads'.dealer, hreads'.receivingReply, hreads'.replyPipe, hreads'.strict⟩

structure Receives (r : ReqT P) (e : Ends P) (got : Option (P × Msg)) (r' : ReqT P) (e' : Ends P) : Prop where
  dealer : DealerT.Reads r.toDealerT e r'.toDealerT e'
  replyPipe : r'.replyPipe = r.replyPipe
  strict : r'.strict = r.strict
  goes : r'.receivingReply = true ∨ r'.messageBegins = true
  accepts : ∀ p m, got = some (p, m) → r.Accepts e p m

theorem recvBody_receives (hr : r.receivingReply = true) (h : r.recvBody e = .ok (rc, got, r', e')) : r.Receives e got r' e' := by
  obtain ⟨⟨got1, r1, e1⟩, hgot, h⟩ := bind_ok h
  obtain ⟨hreads, haccepts⟩ := recvReplyLoop_reads hgot
  cases got1 with
  | none =>
    obtain ⟨-, hrest⟩ := ok_pair h
    obtain ⟨hn, hrest⟩ := Prod.mk.inj hrest
    cases hrest
    subst hn
    exact ⟨hreads.dealer, hreads.replyPipe, hreads.strict, .inl (hreads.receivingReply.trans hr), fun p m hc => (by cases hc)⟩
  | some x =>
    obtain ⟨pipe, msg⟩ := x
    obtain ⟨-, hrest⟩ := ok_pair h
    obtain ⟨hn, hrest⟩ := Prod.mk.inj hrest
    cases hrest
    subst hn
    cases hm : msg.hasMore with
    | true => exact ⟨hreads.dealer, hreads.replyPipe, hreads.strict, .inl (hreads.receivingReply.trans hr), haccepts⟩
    | false => exact ⟨hreads.dealer, hreads.replyPipe, hreads.strict, .inr rfl, haccepts⟩

theorem xrecv_receives (h : r.xrecv e = .ok (rc, got, r', e')) :
    (r.receivingReply = false ∧ got = none ∧ r' = r ∧ e' = e) ∨ r.receivingReply = true ∧ r.Receives e got r' e' := by
  unfold xrecv at h
  split_ifs at h with hr hb
  · refine .inr ⟨hr, ?_⟩
    obtain ⟨⟨found, r1, e1⟩, hfind, h⟩ := bind_ok h
    have hreads := findReply_reads hfind
    cases found with
    | false =>
      obtain ⟨-, hrest⟩ := ok_pair h
      obtain ⟨hn, hrest⟩ := Prod.mk.inj hrest
      cases hrest
      subst hn
      exact ⟨hreads.dealer, hreads.replyPipe, hreads.strict, .inl (hreads.receivingReply.trans hr), fun p m hc => (by cases hc)⟩
    | true =>
      have hbody := recvBody_receives (hreads.receivingReply.trans hr) h
      exact ⟨hreads.dealer.trans hbody.dealer, hbody.replyPipe.trans hreads.replyPipe, hbody.strict.trans hreads.strict,
        hbody.goes, fun p m hc => hreads.accepts (hbody.accepts p m hc)⟩
  · exact .inr ⟨hr, recvBody_receives hr h⟩
  · obtain ⟨-, hrest⟩ := ok_pair h
    obtain ⟨hn, hrest⟩ := Prod.mk.inj hrest
    cases hrest
    subst hn
    exact .inl ⟨by simpa using hr, rfl, rfl, rfl⟩

structure Carries (r : ReqT P) (e : Ends P) (carriers : List (Option P)) : Prop where
  wf : r.lb.Wf
  strict : r.strict = true
  dropping : r.lb.dropping = true → r.lb.more = true
  idle : r.receivingReply = true ∨ r.messageBegins = true → r.lb.more = false
  current : r.lb.more = true → r.lb.dropping = false → ∃ p, r.replyPipe = some p ∧ r.lb.IsCurrent p ∧
    ((e.outlets p).self.state = .active → (e.outlets p).self.outActive = true)
  dropped : r.lb.dropping = true → r.replyPipe = none
  carried : r.receivingReply = true ∨ r.messageBegins = false → ∀ p, r.replyPipe = some p →
    carriers ≠ [] ∧ ∀ c ∈ carriers, c = some p

theorem Carries.quiet (h : Carries r e took) (hm : r.lb.more = false) : r.lb.dropping = false := by
  by_contra hd
  rw [h.dropping (by simpa using hd)] at hm
  cases hm

theorem Carries.sends (h : Carries r e took) : ∃ sent d' e', r.toDealerT.sendpipe e m = .ok (sent, d', e') ∧
    d'.fq = r.fq ∧ e'.inlets = e.inlets ∧ d'.lb.Wf ∧ DealerT.Sends r.toDealerT m sent d' e' :=
  DealerT.sendpipe_sends h.wf fun hm hd => by
    obtain ⟨p, -, hp, -⟩ := h.current hm hd
    exact ⟨p, hp⟩

theorem Carries.body (h : Carries r e took) (hr : r.receivingReply = false) (hb : r.messageBegins = false)
    (hm : r.lb.more = true) : ∃ rc took' r' e', r.sendBody e m = .ok (rc, took', r', e') ∧ Carries r' e' (took ++ took') ∧
      rc ≠ .efsm ∧ r'.fq = r.fq ∧ e'.inlets = e.inlets := by
  obtain ⟨sent, d', e', hsend, hfq, hin, hwf, hsends⟩ := h.sends (m := m)
  unfold sendBody
  rw [hsend]
  cases hsends with
  | dropped hd hm' hd' =>
    have hnone := h.dropped hd
    cases hmm : m.hasMore with
    | true =>
      rw [hmm] at hm' hd'
      refine ⟨.ok, [none], { r with toDealerT := d' }, e', by rfl,
        ⟨hwf, h.strict, fun _ => hm', fun hc => ?_, fun _ hc => ?_, fun _ => hnone, fun _ p hp => ?_⟩, by simp, hfq, hin⟩
      · rw [hr, hb] at hc
        simp at hc
      · rw [hd'] at hc
        cases hc
      · rw [hnone] at hp
        cases hp
    | false =>
      rw [hmm] at hm' hd'
      refine ⟨.ok, [none], { r with toDealerT := d', receivingReply := true, messageBegins := true }, e',
        by rfl,
        ⟨hwf, h.strict, fun hc => ?_, fun _ => hm', fun hc => ?_, fun _ => hnone, fun _ p hp => ?_⟩, by simp, hfq, hin⟩
      · rw [hd'] at hc
        cases hc
      · rw [hm'] at hc
        cases hc
      · rw [hnone] at hp
        cases hp
  | refused hd hm' hd' =>
    refine ⟨.eagain, [], { r with toDealerT := d' }, e', rfl,
      ⟨hwf, h.strict, fun hc => ?_, fun _ => hm', fun hc => ?_, fun hc => ?_, fun hc p hp => ?_⟩, by simp, hfq, hin⟩
    · rw [hd'] at hc
      cases hc
    · rw [hm'] at hc
      cases hc
    · rw [hd'] at hc
      cases hc
    · rw [append_nil]
      exact h.carried hc p hp
  | @taken _ _ pipe hd hc hm' hd' hc' =>
    obtain ⟨p, hp, hcur, -⟩ := h.current hm hd
    obtain rfl : p = pipe := hcur.unique (hc hm)
    obtain ⟨hne, hall⟩ := h.carried (.inr hb) p hp
    have hcarried : took ++ [some p] ≠ [] ∧ ∀ c ∈ took ++ [some p], c = some p := by
      refine ⟨by simp, fun c hc => ?_⟩
      rcases mem_append.mp hc with hc | hc
      · exact hall c hc
      · exact mem_singleton.mp hc
    have hsame : ∀ q, r.replyPipe = some q → took ++ [some p] ≠ [] ∧ ∀ c ∈ took ++ [some p], c = some q := fun q hq => by
      rw [hp] at hq
      cases hq
      exact hcarried
    cases hmm : m.hasMore with
    | true =>
      rw [hmm] at hm' hc'
      refine ⟨.ok, [some p], { r with toDealerT := d' }, e', by rfl,
        ⟨hwf, h.strict, fun _ => hm', fun hc => ?_, fun _ _ => ⟨p, hp, (hc' rfl).1, fun _ => (hc' rfl).2⟩, fun hc => ?_,
          fun _ => hsame⟩, by simp, hfq, hin⟩
      · rw [hr, hb] at hc
        simp at hc
      · rw [hd'] at hc
        cases hc
    | false =>
      rw [hmm] at hm'
      refine ⟨.ok, [some p], { r with toDealerT := d', receivingReply := true, messageBegins := true }, e',
        by rfl,
        ⟨hwf, h.strict, fun hc => ?_, fun _ => hm', fun hc => ?_, fun hc => ?_, fun _ => hsame⟩, by simp, hfq, hin⟩
      · rw [hd'] at hc
        cases hc
      · rw [hm'] at hc
        cases hc
      · rw [hd'] at hc
        cases hc

theorem Carries.rests (hwf : r.lb.Wf) (hs : r.strict = true) (hm : r.lb.more = false) (hd : r.lb.dropping = false)
    (hr : r.receivingReply = false) (hb : r.messageBegins = true) : Carries r e took := by
  refine ⟨hwf, hs, fun hc => ?_, fun _ => hm, fun hc => ?_, fun hc => ?_, fun hc => ?_⟩
  · rw [hd] at hc
    cases hc
  · rw [hm] at hc
    cases hc
  · rw [hd] at hc
    cases hc
  · rw [hr, hb] at hc
    simp at hc

structure Leads (r : ReqT P) (e : Ends P) (p : P) : Prop where
  wf : r.lb.Wf
  more : r.lb.more = true
  dropping : r.lb.dropping = false
  replyPipe : r.replyPipe = some p
  current : r.lb.IsCurrent p
  active : (e.outlets p).self.outActive = true

structure Keeps (r : ReqT P) (e : Ends P) (r' : ReqT P) (e' : Ends P) : Prop where
  fq : r'.fq = r.fq
  inlets : e'.inlets = e.inlets
  receivingReply : r'.receivingReply = r.receivingReply
  messageBegins : r'.messageBegins = r.messageBegins
  strict : r'.strict = r.strict

omit [DecidableEq P] in
theorem Keeps.trans (h : Keeps r e r1 e1) (h' : Keeps r1 e1 r' e') : Keeps r e r' e' :=
  ⟨h'.fq.trans h.fq, h'.inlets.trans h.inlets, h'.receivingReply.trans h.receivingReply,
    h'.messageBegins.trans h.messageBegins, h'.strict.trans h.strict⟩

theorem sendFirst_leads (hm : m.hasMore = true) (hwf : r.lb.Wf) (hd : r.lb.dropping = false)
    (hc : r.lb.more = true → ∃ q, r.lb.IsCurrent q) : ∃ sent r' e', r.sendFirst e m = .ok (sent, r', e') ∧ Keeps r e r' e' ∧
      (sent = none ∧ r'.lb.Wf ∧ r'.lb.more = false ∧ r'.lb.dropping = false ∨
        ∃ p, sent = some (some p) ∧ Leads r' e' p ∧ (r.lb.more = true → r.lb.IsCurrent p)) := by
  obtain ⟨sent, d', e', hsend, hfq, hin, hwf', hsends⟩ := DealerT.sendpipe_sends (e := e) (m := m) hwf fun h _ => hc h
  unfold sendFirst
  rw [hsend]
  cases hsends with
  | dropped hc =>
    rw [hd] at hc
    cases hc
  | refused _ hm' hd' => exact ⟨none, _, e', rfl, ⟨hfq, hin, rfl, rfl, rfl⟩, .inl ⟨rfl, hwf', hm', hd'⟩⟩
  | @taken _ _ p _ hcur hm' hd' hc' =>
    obtain ⟨hp, ha⟩ := hc' hm
    exact ⟨_, _, e', rfl, ⟨hfq, hin, rfl, rfl, rfl⟩, .inr ⟨p, rfl, ⟨hwf', hm'.trans hm, hd', rfl, hp, ha⟩, hcur⟩⟩

theorem idFrame_hasMore {n : UInt32} : (idFrame n).hasMore = true := by simp [idFrame, Msg.hasMore, Msg.more]

theorem sendId_leads (hwf : r.lb.Wf) (hm : r.lb.more = false) (hd : r.lb.dropping = false) :
    ∃ sent r' e', r.sendId e = .ok (sent, r', e') ∧ Keeps r e r' e' ∧
      (sent = none ∧ r'.lb.Wf ∧ r'.lb.more = false ∧ r'.lb.dropping = false ∨
        sent = some [] ∧ r' = r ∨ ∃ p, sent = some [some p] ∧ Leads r' e' p) := by
  unfold sendId
  split_ifs
  · obtain ⟨sent, r', e', hsend, hkeeps, hx⟩ :=
      @sendFirst_leads _ { r with requestId := r.requestId + 1 } e (idFrame (r.requestId + 1)) _ idFrame_hasMore hwf hd
        fun hc => absurd (hm.symm.trans hc) (by simp)
    rw [hsend]
    refine ⟨_, r', e', rfl, ⟨hkeeps.fq, hkeeps.inlets, hkeeps.receivingReply, hkeeps.messageBegins, hkeeps.strict⟩, ?_⟩
    rcases hx with ⟨rfl, hx⟩ | ⟨p, rfl, hx, -⟩
    · exact .inl ⟨rfl, hx⟩
    · exact .inr (.inr ⟨p, rfl, hx⟩)
  · exact ⟨some [], r, e, rfl, ⟨rfl, rfl, rfl, rfl, rfl⟩, .inr (.inl ⟨rfl, rfl⟩)⟩

theorem sendEnvelope_carries {sent : Option (List (Option P))} (h : Carries r e took) (hr : r.receivingReply = false)
    (hb : r.messageBegins = true) (hx : r.sendEnvelope e = .ok (sent, r', e')) :
    (∀ p, ∀ m ∈ (e'.inlets p).pending, m ∈ (e.inlets p).pending) ∧
      (sent = none ∧ (∀ took', Carries r' e' took') ∨ ∃ took', sent = some took' ∧ Carries r' e' took' ∧
        r'.receivingReply = false ∧ r'.messageBegins = false ∧ r'.lb.more = true) := by
  have hm := h.idle (.inr hb)
  have hd := h.quiet hm
  obtain ⟨id, r1, e1, hid, hkeeps, hcases⟩ := @sendId_leads _ { r with replyPipe := none } e _ h.wf hm hd
  obtain ⟨x, hid', hx⟩ := bind_ok hx
  cases hid.symm.trans hid'
  have hrests : ∀ {r2 : ReqT P} {e2 : Ends P}, Keeps { r with replyPipe := none } e r2 e2 → r2.lb.Wf → r2.lb.more = false →
      r2.lb.dropping = false → ∀ took', Carries r2 e2 took' := fun hk hwf hm hd took' =>
    .rests hwf (hk.strict.trans h.strict) hm hd (hk.receivingReply.trans hr) (hk.messageBegins.trans hb)
  have hpend : ∀ {r2 : ReqT P} {e2 : Ends P}, Keeps { r with replyPipe := none } e r2 e2 →
      ∀ p, ∀ m ∈ (e2.inlets p).pending, m ∈ (e.inlets p).pending := fun hk p m hm => by
    rwa [hk.inlets] at hm
  cases id with
  | none =>
    cases hx
    rcases hcases with ⟨-, hwf, hm, hd⟩ | ⟨hc, -⟩ | ⟨p, hc, -⟩
    · exact ⟨hpend hkeeps, .inl ⟨rfl, hrests hkeeps hwf hm hd⟩⟩
    · cases hc
    · cases hc
  | some took1 =>
    -- all that has been taken so far has been taken by the current pipe
    have hcur : r1.lb.Wf ∧ r1.lb.dropping = false ∧ (r1.lb.more = true → ∃ q, r1.lb.IsCurrent q) ∧
        ∀ q, (r1.lb.more = true → r1.lb.IsCurrent q) → ∀ c ∈ took1, c = some q := by
      rcases hcases with ⟨hc, -⟩ | ⟨hc, rfl⟩ | ⟨p, hc, hleads⟩
      · cases hc
      · cases hc
        exact ⟨h.wf, hd, fun hc => absurd (hm.symm.trans hc) (by simp), fun q _ c hc => nomatch hc⟩
      · cases hc
        refine ⟨hleads.wf, hleads.dropping, fun _ => ⟨p, hleads.current⟩, fun q hq c hc => ?_⟩
        rw [mem_singleton.mp hc, hleads.current.unique (hq hleads.more)]
    obtain ⟨hwf1, hd1, hex, hall⟩ := hcur
    obtain ⟨bot, r2, e2, hbot, hkeeps', hcases'⟩ := @sendFirst_leads _ r1 e1 bottom _ rfl hwf1 hd1 hex
    have hkeeps2 := hkeeps.trans hkeeps'
    obtain ⟨y, hbot', hx⟩ := bind_ok hx
    cases hbot.symm.trans hbot'
    rcases hcases' with ⟨rfl, hwf, hm, hd⟩ | ⟨p, rfl, hleads, hq⟩
    · cases hx
      exact ⟨hpend hkeeps2, .inl ⟨rfl, hrests hkeeps2 hwf hm hd⟩⟩
    · dsimp only at hx
      rw [if_neg (by rw [hleads.replyPipe]; simp)] at hx
      obtain ⟨⟨d, e3⟩, hdrain, hx⟩ := bind_ok hx
      obtain ⟨hsent, hrest⟩ := ok_pair hx
      cases hrest
      have hreads := DealerT.drain_reads hdrain
      refine ⟨fun q m hm => hpend hkeeps2 q m (hreads.pending q m hm),
        .inr ⟨took1 ++ [some p], hsent.symm, ⟨?_, hkeeps2.strict.trans h.strict, fun _ => ?_, fun hc => ?_, fun _ _ => ?_,
          fun hc => ?_, fun _ q hq' => ⟨by simp, fun c hc => ?_⟩⟩, hkeeps2.receivingReply.trans hr, rfl, ?_⟩⟩
      · rw [hreads.lb]
        exact hleads.wf
      · rw [hreads.lb]
        exact hleads.more
      · rcases hc with hc | hc
        · rw [hkeeps2.receivingReply.trans hr] at hc
          cases hc
        · cases hc
      · refine ⟨p, hleads.replyPipe, ?_, fun _ => ?_⟩
        · rw [hreads.lb]
          exact hleads.current
        · rw [hreads.outlets]
          exact hleads.active
      · rw [hreads.lb, hleads.dropping] at hc
        cases hc
      · rw [hleads.replyPipe] at hq'
        cases hq'
        rcases mem_append.mp hc with hc | hc
        · exact hall p hq c hc
        · exact mem_singleton.mp hc
      · rw [hreads.lb]
        exact hleads.more

theorem xsend_carries {sent : List (Option P)} (h : Carries r e took)
    (hk : r.receivingReply = false → r.messageBegins = false → r.lb.more = true) (hx : r.xsend e m = .ok (rc, sent, r', e')) :
    (∀ p, ∀ m ∈ (e'.inlets p).pending, m ∈ (e.inlets p).pending) ∧
      Carries r' e' (if rc = .efsm then took else if r.messageBegins then sent else took ++ sent) := by
  unfold xsend at hx
  rw [h.strict, if_pos rfl] at hx
  split_ifs at hx with hr hb
  · cases hx
    exact ⟨fun _ _ => id, h⟩
  · obtain ⟨⟨began, r1, e1⟩, hbegan, hx⟩ := bind_ok hx
    obtain ⟨hpend, hcases⟩ := sendEnvelope_carries h (by simpa using hr) hb hbegan
    rw [if_pos hb]
    rcases hcases with ⟨rfl, hcarries⟩ | ⟨took1, rfl, hcarries, hr1, hb1, hm1⟩
    · cases hx
      exact ⟨hpend, hcarries _⟩
    · obtain ⟨rc2, took2, r2, e2, hbody, hcarries2, hrc, -, hin⟩ := hcarries.body (m := m) hr1 hb1 hm1
      obtain ⟨y, hbody', hx⟩ := bind_ok hx
      cases hbody.symm.trans hbody'
      obtain ⟨hrc2, hrest⟩ := ok_pair hx
      obtain ⟨hsent, hrest⟩ := Prod.mk.inj hrest
      cases hrest
      rw [← hrc2, ← hsent, if_neg hrc]
      refine ⟨fun p m hm => hpend p m ?_, hcarries2⟩
      rwa [hin] at hm
  · have hr : r.receivingReply = false := by simpa using hr
    have hb : r.messageBegins = false := by simpa using hb
    obtain ⟨rc2, took2, r2, e2, hbody, hcarries2, hrc, -, hin⟩ := h.body (m := m) hr hb (hk hr hb)
    obtain ⟨hrc2, hrest⟩ := ok_pair (hbody.symm.trans hx)
    obtain ⟨hsent, hrest⟩ := Prod.mk.inj hrest
    cases hrest
    rw [← hrc2, ← hsent, if_neg hrc, if_neg (by rw [hb]; simp)]
    refine ⟨fun p m hm => ?_, hcarries2⟩
    rwa [hin] at hm

theorem Carries.receives (h : Carries r e took) (hr : r.receivingReply = true)
    (hx : Receives r e got r' e') : Carries r' e' took := by
  have hm : r'.lb.more = false := by
    rw [hx.dealer.lb]
    exact h.idle (.inl hr)
  refine ⟨?_, hx.strict.trans h.strict, fun hc => ?_, fun _ => hm, fun hc => ?_, fun hc => ?_, fun _ p hp => ?_⟩
  · rw [hx.dealer.lb]
    exact h.wf
  · rw [hx.dealer.lb] at hc ⊢
    exact h.dropping hc
  · rw [hm] at hc
    cases hc
  · rw [hx.dealer.lb] at hc
    rw [hx.replyPipe]
    exact h.dropped hc
  · rw [hx.replyPipe] at hp
    exact h.carried (.inl hr) p hp

end ReqT

structure Reply (P : Type) where
  pipe : P
  msg : Msg
  /-- the pipes that have taken the frames of the request, `none` for a frame that has been dropped -/
  carriers : List (Option P)
deriving DecidableEq

structure RequestReply (P : Type) where
  req : ReqT P
  ends : Ends P
  delivered : P → List Msg
  /-- the pipes that have taken the frames of the last request -/
  carriers : List (Option P)
  replies : List (Reply P)

namespace RequestReply

variable {P : Type}

def new (requestId : UInt32) : RequestReply P where
  req := .new requestId
  ends := ⟨fun _ => ⟨false, []⟩, fun _ => LoadBalancer.unattached, fun _ => []⟩
  delivered _ := []
  carriers := []
  replies := []

inductive Op (P : Type) where
  | attach (pipe : P) (self : PipeT)
  | deliver (pipe : P) (frames : List Msg)
  | readActivated (pipe : P)
  | writeActivated (pipe : P) (msgsRead : UInt64)
  /-- something else happens to the ends of the pipe; one that is not to be read any more has nothing to read -/
  | drift (pipe : P) (inlet : Inlet) (outlet : Outlet)
  | pipeTerminated (pipe : P)
  | correlate (on : Bool)
  | probeRouter (on : Bool)
  | xsend (msg : Msg)
  | xrecv
  | xhasIn
  | xhasOut

variable [DecidableEq P] (s : RequestReply P)

def Ready : Op P → Prop
  | .attach p self => p ∉ s.req.fq.pipes ∧ p ∉ s.req.lb.pipes ∧ self.outActive = true
  | .deliver p _ => p ∈ s.req.fq.pipes
  | .readActivated p => p ∈ s.req.fq.pipes ∧ (s.ends.inlets p).inActive = false
  | .writeActivated p _ => p ∈ s.req.lb.pipes ∧ (s.ends.outlets p).self.outActive = false ∧
      (s.ends.outlets p).self.state = .active
  | .drift p i o => (i = s.ends.inlets p ∨ i = ⟨false, []⟩) ∧ Outlet.Drifts (s.ends.outlets p) o
  | .pipeTerminated p => p ∈ s.req.fq.pipes ∧ p ∈ s.req.lb.pipes
  | _ => True

instance (op : Op P) : Decidable (s.Ready op) := by
  cases op <;> unfold Ready <;> infer_instance

def run : Op P → Except SocketFault (RequestReply P)
  | .attach p self =>
    let (d, e) := s.req.toDealerT.xattachPipe ((s.ends.setInlet p ⟨true, []⟩).setOutlet p ⟨self, Staged.empty⟩) p
    .ok { s with req := { s.req with toDealerT := d }, ends := e }
  | .deliver p frames => .ok { s with
      ends := s.ends.setInlet p { s.ends.inlets p with frames := (s.ends.inlets p).frames ++ frames }
      delivered := update s.delivered p (s.delivered p ++ frames) }
  | .readActivated p =>
    -- the pipe is swapped with the first one that is not active
    if s.req.fq.active < s.req.fq.pipes.size then .ok { s with
      req := { s.req with fq := s.req.fq.activated p }
      ends := s.ends.setInlet p { s.ends.inlets p with inActive := true } }
    else .error .outOfBounds
  | .writeActivated p n =>
    if s.req.lb.active < s.req.lb.pipes.size then .ok { s with
      req := { s.req with lb := s.req.lb.activated p }
      ends := s.ends.setOutlet p { s.ends.outlets p with
        self := { (s.ends.outlets p).self with peersMsgsRead := n, outActive := true } } }
    else .error .outOfBounds
  | .drift p i o => .ok { s with ends := (s.ends.setInlet p i).setOutlet p o }
  | .pipeTerminated p => .ok { s with
      req := s.req.xpipeTerminated p
      ends := s.ends.setOutlet p (s.ends.outlets p).closed }
  | .correlate on => .ok { s with req := { s.req with requestIdFramesEnabled := on } }
  | .probeRouter on => .ok { s with req := { s.req with probeRouter := on } }
  | .xsend m => do
    let (rc, took, req, ends) ← s.req.xsend s.ends m
    return { s with
      req := req, ends := ends
      carriers := if rc = .efsm then s.carriers else if s.req.messageBegins then took else s.carriers ++ took }
  | .xrecv => do
    let (_, got, req, ends) ← s.req.xrecv s.ends
    return { s with
      req := req, ends := ends
      replies := s.replies ++ got.toList.map fun x => ⟨x.1, x.2, s.carriers⟩ }
  | .xhasIn => do
    let (_, req, ends) ← s.req.xhasIn s.ends
    return { s with req := req, ends := ends }
  | .xhasOut => do
    let (_, req, ends) ← s.req.xhasOut s.ends
    return { s with req := req, ends := ends }

def Start : Prop := ∃ requestId, s = new requestId

abbrev Step : RequestReply P → Op P → RequestReply P → Prop := Does Ready run

/-- Each frame that has been received has arrived at the pipe to which the whole request had gone. -/
def Answered : Prop := ∀ x ∈ s.replies,
  x.msg ∈ s.delivered x.pipe ∧ x.carriers ≠ [] ∧ ∀ c ∈ x.carriers, c = some x.pipe

/-- Not an attempt to receive a reply while the pipe of the request is gone and some pipe can be read; not the next
frame of a request of which a frame has been refused; and not a termination that moves the pipe being written, the last
active one, to another place than the one `current` goes to. -/
def Keeps : Op P → Prop
  | .xrecv => s.req.receivingReply = true → s.req.replyPipe = none → ∀ p ∈ s.req.fq.pipes.items,
      (s.ends.inlets p).inActive = true → (s.ends.inlets p).pending = []
  | .xsend _ => s.req.receivingReply = false → s.req.messageBegins = false → s.req.lb.more = true
  | .pipeTerminated p => ¬ (s.req.lb.more = true ∧ s.req.lb.dropping = false ∧ 0 < s.req.lb.pipes.index p ∧
      s.req.lb.pipes.index p < s.req.lb.current ∧ s.req.lb.current + 1 = s.req.lb.active)
  | _ => True

instance (op : Op P) : Decidable (s.Keeps op) := by
  cases op <;> unfold Keeps <;> infer_instance

structure Sound (s : RequestReply P) : Prop where
  carries : s.req.Carries s.ends s.carriers
  arrived : ∀ p, ∀ m ∈ (s.ends.inlets p).pending, m ∈ s.delivered p
  answered : s.Answered

variable {s s' : RequestReply P} {p : P} {m : Msg} {e : Ends P} {i : Inlet} {o : Outlet}

theorem carries_same {r r' : ReqT P} {e e' : Ends P} {took : List (Option P)} (h : r.Carries e took) (hwf : r'.lb.Wf)
    (hmore : r'.lb.more = r.lb.more) (hdropping : r'.lb.dropping = r.lb.dropping)
    (hr : r'.receivingReply = r.receivingReply) (hb : r'.messageBegins = r.messageBegins)
    (hpipe : r'.replyPipe = r.replyPipe) (hs : r'.strict = r.strict) (hcurrent : ∀ p, r.lb.more = true → r.lb.IsCurrent p →
      ((e.outlets p).self.state = .active → (e.outlets p).self.outActive = true) → r'.lb.IsCurrent p ∧
        ((e'.outlets p).self.state = .active → (e'.outlets p).self.outActive = true)) : r'.Carries e' took := by
  refine ⟨hwf, hs.trans h.strict, ?_, ?_, fun hm hd => ?_, ?_, ?_⟩
  · rw [hdropping, hmore]
    exact h.dropping
  · rw [hr, hb, hmore]
    exact h.idle
  · rw [hmore] at hm
    rw [hdropping] at hd
    obtain ⟨p, hp, hc, ha⟩ := h.current hm hd
    exact ⟨p, hpipe.trans hp, hcurrent p hm hc ha⟩
  · rw [hdropping, hpipe]
    exact h.dropped
  · rw [hr, hb, hpipe]
    exact h.carried

theorem Sound.same (h : s.Sound) (hc : s'.req.Carries s'.ends s'.carriers)
    (hi : ∀ p, ∀ m ∈ (s'.ends.inlets p).pending, m ∈ (s.ends.inlets p).pending) (hd : s'.delivered = s.delivered)
    (hr : s'.replies = s.replies) : s'.Sound := by
  refine ⟨hc, fun p m hm => ?_, fun x hx => ?_⟩
  · rw [hd]
    exact h.arrived p m (hi p m hm)
  · rw [hr] at hx
    rw [hd]
    exact h.answered x hx

theorem setInlet_pending (hi : ∀ m ∈ i.pending, m ∈ (e.inlets p).pending) (q : P) :
    ∀ m ∈ ((e.setInlet p i).inlets q).pending, m ∈ (e.inlets q).pending := by
  intro m hm
  unfold Ends.setInlet at hm
  dsimp only at hm
  rcases eq_or_ne q p with rfl | hne
  · rw [update_self] at hm
    exact hi m hm
  · rwa [update_of_ne hne] at hm

theorem setOutlet_current {q : P} (h : q = p → ((e.outlets p).self.state = .active → (e.outlets p).self.outActive = true) →
      o.self.state = .active → o.self.outActive = true)
    (ha : (e.outlets q).self.state = .active → (e.outlets q).self.outActive = true) :
    ((e.setOutlet p o).outlets q).self.state = .active → ((e.setOutlet p o).outlets q).self.outActive = true := by
  unfold Ends.setOutlet
  dsimp only
  rcases eq_or_ne q p with rfl | hne
  · rw [update_self]
    exact h rfl ha
  · rwa [update_of_ne hne]

theorem Sound.attach {self : PipeT} (h : s.Sound) (hr : s.Ready (.attach p self)) (hs : s.run (.attach p self) = .ok s') :
    s'.Sound := by
  obtain ⟨-, hlb, hactive⟩ := hr
  cases hs
  have hwf := h.carries.wf
  refine h.same (carries_same h.carries (Rota.attach_wf hwf hlb) rfl rfl rfl rfl rfl rfl fun q _ hq ha =>
    ⟨Rota.attach_isCurrent hwf hlb hq, ?_⟩) (fun q => ?_) rfl rfl
  · have hqp : q ≠ p := fun hc => hlb (hc ▸ hq.1.1)
    have hsame : ((DealerT.xattachPipe s.req.toDealerT ((s.ends.setInlet p ⟨true, []⟩).setOutlet p ⟨self, Staged.empty⟩)
        p).2.outlets q) = s.ends.outlets q := by
      unfold DealerT.xattachPipe
      split_ifs
      · exact (update_of_ne hqp _ _).trans (update_of_ne hqp _ _)
      · exact update_of_ne hqp _ _
    rw [← hsame] at ha
    exact ha
  · have hsame : ((DealerT.xattachPipe s.req.toDealerT ((s.ends.setInlet p ⟨true, []⟩).setOutlet p ⟨self, Staged.empty⟩)
        p).2.inlets) = (s.ends.setInlet p ⟨true, []⟩).inlets := by
      unfold DealerT.xattachPipe
      split_ifs <;> rfl
    intro m hm
    have hm : m ∈ ((s.ends.setInlet p ⟨true, []⟩).inlets q).pending := hsame ▸ hm
    exact setInlet_pending (fun m hm => absurd hm not_mem_nil) q m hm

theorem Sound.deliver {frames : List Msg} (h : s.Sound) (hs : s.run (.deliver p frames) = .ok s') : s'.Sound := by
  cases hs
  refine ⟨carries_same h.carries h.carries.wf rfl rfl rfl rfl rfl rfl fun q _ hq ha => ⟨hq, ha⟩, fun q m hm => ?_, fun x hx => ?_⟩
  · dsimp only [Ends.setInlet] at hm ⊢
    rcases eq_or_ne q p with rfl | hne
    · rw [update_self] at hm ⊢
      unfold Inlet.pending at hm
      rw [filter_append] at hm
      rcases mem_append.mp hm with hm | hm
      · exact mem_append_left _ (h.arrived q m hm)
      · exact mem_append_right _ (mem_of_mem_filter hm)
    · rw [update_of_ne hne] at hm ⊢
      exact h.arrived q m hm
  · obtain ⟨hin, hx⟩ := h.answered x hx
    refine ⟨?_, hx⟩
    dsimp only
    rcases eq_or_ne x.pipe p with hp | hne
    · rw [hp, update_self]
      exact mem_append_left _ (hp ▸ hin)
    · rwa [update_of_ne hne]

theorem Sound.readActivated (h : s.Sound) (hs : s.run (.readActivated p) = .ok s') : s'.Sound := by
  simp only [run] at hs
  split_ifs at hs
  cases hs
  exact h.same (carries_same h.carries h.carries.wf rfl rfl rfl rfl rfl rfl fun q _ hq ha => ⟨hq, ha⟩)
    (setInlet_pending fun _ hm => hm) rfl rfl

theorem Sound.writeActivated {n : UInt64} (h : s.Sound) (hr : s.Ready (.writeActivated p n))
    (hs : s.run (.writeActivated p n) = .ok s') : s'.Sound := by
  obtain ⟨hp, ha, hst⟩ := hr
  simp only [run] at hs
  split_ifs at hs with hlt
  cases hs
  refine h.same (carries_same h.carries (Rota.activated_wf h.carries.wf hlt) rfl rfl rfl rfl rfl rfl fun q _ hq hqa =>
    ⟨Rota.activated_isCurrent hp hlt ?_ hq, setOutlet_current (fun _ _ _ => rfl) hqa⟩) (fun _ _ => id) rfl rfl
  rintro rfl
  rw [hqa hst] at ha
  cases ha

theorem Sound.drift (h : s.Sound) (hr : s.Ready (.drift p i o)) (hs : s.run (.drift p i o) = .ok s') : s'.Sound := by
  obtain ⟨hi, ho⟩ := hr
  cases hs
  refine h.same (carries_same h.carries h.carries.wf rfl rfl rfl rfl rfl rfl fun q _ hq hqa => ⟨hq, ?_⟩)
    (setInlet_pending fun m hm => ?_) rfl rfl
  · refine setOutlet_current (e := s.ends.setInlet p i) (fun _ ha hst => ?_) hqa
    have hold : (s.ends.outlets p).self.state = .active := by
      by_contra hc
      exact ho.closed hc hst
    exact (ho.inactive (ha hold)).resolve_right fun hc => hc hst
  · rcases hi with rfl | rfl
    · exact hm
    · exact nomatch hm

theorem Sound.pipeTerminated (h : s.Sound) (hr : s.Ready (.pipeTerminated p)) (hk : s.Keeps (.pipeTerminated p))
    (hs : s.run (.pipeTerminated p) = .ok s') : s'.Sound := by
  obtain ⟨-, hp⟩ := hr
  cases hs
  have hc := h.carries
  have hreply : ∀ q, (s.req.xpipeTerminated p).replyPipe = some q → s.req.replyPipe = some q ∧ q ≠ p := fun q hq => by
    unfold ReqT.xpipeTerminated at hq
    split_ifs at hq with hsame
    exact ⟨hq, fun hqp => hsame (hqp ▸ hq)⟩
  have hdropping : (s.req.xpipeTerminated p).lb.dropping =
      (s.req.lb.dropping || (s.req.lb.pipes.index p == s.req.lb.current && s.req.lb.more)) := rfl
  have hmore : (s.req.xpipeTerminated p).lb.more = s.req.lb.more := rfl
  refine h.same ⟨Rota.pipeTerminated_wf hc.wf hp, hc.strict, fun hd => ?_, hc.idle, fun hm hd => ?_, fun hd => ?_,
    fun hx q hq => hc.carried hx q (hreply q hq).1⟩ (fun _ _ => id) rfl rfl
  · rw [hdropping, or_eq_true, and_eq_true] at hd
    exact hd.elim hc.dropping And.right
  · rw [hmore] at hm
    rw [hdropping, or_eq_false_iff] at hd
    obtain ⟨q, hq, hcur, ha⟩ := hc.current hm hd.1
    have hne : q ≠ p := by
      rintro rfl
      have := hd.2
      rw [hm, hcur.2] at this
      simp at this
    refine ⟨q, ?_, Rota.pipeTerminated_isCurrent hc.wf hp hcur hne fun hx => hk ⟨hm, hd.1, hx⟩,
      setOutlet_current (fun hqp => absurd hqp hne) ha⟩
    unfold ReqT.xpipeTerminated
    rw [if_neg, hq]
    rw [hq]
    exact fun hqp => hne (some.inj hqp)
  · rw [hdropping, or_eq_true, and_eq_true] at hd
    unfold ReqT.xpipeTerminated
    rcases hd with hd | ⟨hi, hm⟩
    · rw [hc.dropped hd, if_neg (by simp)]
    · by_cases hd : s.req.lb.dropping = true
      · rw [hc.dropped hd, if_neg (by simp)]
      · obtain ⟨q, hq, hcur, -⟩ := hc.current hm (by simpa using hd)
        have hqp : q = p := ((ArrayT.index_inj hcur.1.1).mp (hcur.2.trans (beq_iff_eq.mp hi).symm))
        rw [hq, hqp, if_pos rfl]

theorem Sound.xsend (h : s.Sound) (hk : s.Keeps (.xsend m)) (hs : s.run (.xsend m) = .ok s') : s'.Sound := by
  obtain ⟨⟨rc, took, req, ends⟩, hsend, hs⟩ := bind_ok hs
  cases hs
  obtain ⟨hpend, hcarries⟩ := ReqT.xsend_carries h.carries hk hsend
  exact h.same hcarries hpend rfl rfl

theorem Sound.xrecv (h : s.Sound) (hk : s.Keeps .xrecv) (hs : s.run .xrecv = .ok s') : s'.Sound := by
  obtain ⟨⟨rc, got, req, ends⟩, hrecv, hs⟩ := bind_ok hs
  cases hs
  rcases ReqT.xrecv_receives hrecv with ⟨-, rfl, rfl, rfl⟩ | ⟨hr, hx⟩
  · exact h.same h.carries (fun _ _ => id) rfl (by simp)
  · refine ⟨h.carries.receives hr hx, fun q m hm => h.arrived q m (hx.dealer.pending q m hm), fun x hin => ?_⟩
    rcases mem_append.mp hin with hin | hin
    · exact h.answered x hin
    · obtain ⟨⟨q, m⟩, hgot, rfl⟩ := mem_map.mp hin
      obtain ⟨⟨hmem, hactive, hpend⟩, hpipe⟩ := hx.accepts q m (mem_toList.mp hgot)
      refine ⟨h.arrived q m hpend, ?_⟩
      rcases hpipe with hpipe | hpipe
      · have hnone := hk hr hpipe q hmem hactive
        rw [hnone] at hpend
        exact nomatch hpend
      · exact h.carries.carried (.inl hr) q hpipe

theorem find_pending {n : ℕ} {r r' : Rota P} {inlets inlets' : P → Inlet} {rc : Bool}
    (h : Rota.find Inlet.checkRead n r inlets = .ok (rc, r', inlets')) (p : P) : (inlets' p).pending = (inlets p).pending := by
  induction n generalizing r inlets with
  | zero =>
    obtain ⟨-, hrest⟩ := ok_pair h
    rw [(Prod.mk.inj hrest).2]
  | succ n ih =>
    unfold Rota.find at h
    cases hget : r.pipes.get r.current with
    | none => simp [hget] at h
    | some q =>
      simp only [hget] at h
      have hsame : (update inlets q (inlets q).checkRead.2 p).pending = (inlets p).pending := by
        rcases eq_or_ne p q with rfl | hne
        · rw [update_self]
          rcases (inlets p).checkRead_cases with ⟨-, hc⟩ | hc
          · rw [hc]
          · rw [hc]
            rfl
        · rw [update_of_ne hne]
      split_ifs at h
      · obtain ⟨-, hrest⟩ := ok_pair h
        rw [← (Prod.mk.inj hrest).2]
        exact hsame
      · exact (ih h).trans hsame

theorem Sound.xhasIn (h : s.Sound) (hs : s.run .xhasIn = .ok s') : s'.Sound := by
  obtain ⟨⟨rc, req, ends⟩, hin, hs⟩ := bind_ok hs
  cases hs
  unfold ReqT.xhasIn at hin
  split_ifs at hin
  · cases hin
    exact h
  · obtain ⟨⟨rc1, d, e⟩, hd, hin⟩ := bind_ok hin
    cases hin
    obtain ⟨⟨rc2, fq, inlets⟩, hfq, hd⟩ := bind_ok hd
    obtain ⟨-, hrest⟩ := ok_pair hd
    obtain ⟨rfl, rfl⟩ := Prod.mk.inj hrest
    refine h.same (carries_same h.carries h.carries.wf rfl rfl rfl rfl rfl rfl fun q _ hq ha => ⟨hq, ha⟩) (fun q m hm => ?_)
      rfl rfl
    unfold FqT.hasIn at hfq
    split_ifs at hfq
    · cases hfq
      rwa [← (Prod.mk.inj hrest).2] at hm
    · obtain ⟨⟨rc3, rota, inlets3⟩, hfind, hfq⟩ := bind_ok hfq
      cases hfq
      rwa [find_pending hfind] at hm

theorem Sound.xhasOut (h : s.Sound) (hs : s.run .xhasOut = .ok s') : s'.Sound := by
  obtain ⟨⟨rc, req, ends⟩, hout, hs⟩ := bind_ok hs
  cases hs
  unfold ReqT.xhasOut at hout
  split_ifs at hout
  · cases hout
    exact h
  · obtain ⟨⟨rc1, d, e⟩, hd, hout⟩ := bind_ok hout
    cases hout
    obtain ⟨⟨rc2, lb, outlets⟩, hlb, hd⟩ := bind_ok hd
    cases hd
    obtain ⟨b, r, outlets', hgoes, hskips, hsame⟩ := @LbT.hasOut_skips _ _ _ s.ends.outlets h.carries.wf
    obtain ⟨-, hrest⟩ := ok_pair (hgoes.symm.trans hlb)
    cases hrest
    refine h.same (carries_same h.carries (DealerT.skips_wf hskips h.carries.wf) rfl rfl rfl rfl rfl rfl
      fun q hm hq ha => ?_) (fun _ _ => id) rfl rfl
    obtain ⟨rfl, rfl⟩ := hsame hm
    exact ⟨hq, ha⟩

theorem Sound.step (h : s.Sound) {op : Op P} (hs : Guarded Keeps Step s op s') : s'.Sound := by
  obtain ⟨hk, hr, hs⟩ := hs
  cases op with
  | attach p self => exact h.attach hr hs
  | deliver p frames => exact h.deliver hs
  | readActivated p => exact h.readActivated hs
  | writeActivated p n => exact h.writeActivated hr hs
  | drift p i o => exact h.drift hr hs
  | pipeTerminated p => exact h.pipeTerminated hr hk hs
  | correlate on | probeRouter on =>
    cases hs
    exact h.same (carries_same h.carries h.carries.wf rfl rfl rfl rfl rfl rfl fun q _ hq ha => ⟨hq, ha⟩) (fun _ _ => id)
      rfl rfl
  | xsend m => exact h.xsend hk hs
  | xrecv => exact h.xrecv hk hs
  | xhasIn => exact h.xhasIn hs
  | xhasOut => exact h.xhasOut hs

theorem new_sound {n : UInt32} : (new n : RequestReply P).Sound := by
  refine ⟨.rests Rota.empty_wf rfl rfl rfl rfl rfl, fun p m hm => (nomatch hm), nofun⟩

/-- In a run whose steps all meet the condition each frame of a reply comes from the pipe that has taken the request. -/
theorem replies_answered {ops : List (Op P)} (h : Run Start (Guarded Keeps Step) ops s) : s.Answered := by
  have hs : s.Sound := h.invariant Sound (fun s hs => by
    obtain ⟨n, rfl⟩ := hs
    exact new_sound) fun s op s' hI hs => hI.step hs
  exact hs.answered

open LoadBalancer (endOf frame)

/-- Another pipe's message is passed over. -/
theorem replies_answered_two : ∃ s : RequestReply ℕ, Run Start (Guarded Keeps Step)
      [.attach 0 (endOf 0), .attach 1 (endOf 0), .xsend (frame 7), .deliver 1 [ReqT.bottom, frame 8], .readActivated 1,
        .deliver 0 [ReqT.bottom, frame 9], .readActivated 0, .xrecv] s ∧
    s.replies = [⟨0, frame 9, [some 0, some 0]⟩] ∧ s.Answered :=
  exists_run (P := fun s => s.replies = [⟨0, frame 9, [some 0, some 0]⟩]) (⟨0, rfl⟩ : Start (new 0)) (by decide +kernel)
    fun _ hs hf => ⟨hf, replies_answered hs⟩

/-- The pipe that has taken the request terminates, and what another pipe has sent counts as the reply. -/
theorem reply_of_another : ∃ s : RequestReply ℕ, Run Start Step
      [.attach 0 (endOf 0), .attach 1 (endOf 0), .xsend (frame 7), .deliver 1 [ReqT.bottom, frame 8], .readActivated 1,
        .pipeTerminated 0, .xrecv] s ∧ s.replies = [⟨1, frame 8, [some 0, some 0]⟩] ∧ ¬ s.Answered := by
  refine exists_run_free (P := fun s => s.replies = [⟨1, frame 8, [some 0, some 0]⟩]) (⟨0, rfl⟩ : Start (new 0))
    (by decide +kernel) fun s _ hf => ⟨hf, fun h => ?_⟩
  obtain ⟨-, -, hall⟩ := h ⟨1, frame 8, [some 0, some 0]⟩ (by rw [hf]; exact mem_singleton_self _)
  exact absurd (hall (some 0) (by simp)) (by simp)

end RequestReply

end Zmq
