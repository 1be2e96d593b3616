import LibZmq.Sessions.Closing

/-! A session that closes loses no message that its socket has written, as long as no engine is given up that has not passed
on everything. -/

namespace Zmq

open List Except Option SessionPipe Encoder

/-! ## What the engine has encoded -/

namespace Coding

variable {c : Coding} {e e' : Encoder} {owed : List UInt8} {m : Msg} {out : List UInt8} {data : Option ℕ}

theorem refill_raw (h : Encoder.Owes e owed) : e.refill RawEncoder.act = e.refill V2Encoder.act := by
  cases h with
  | idle => rfl
  | @header rest bufsize m => cases rest <;> rfl
  | body => cases owed <;> rfl

theorem encodeLoop_raw {own : Bool} {n fuel : ℕ} (h : Encoder.Owes e owed) (hp : e.inProgress ≠ none) :
    encodeLoop RawEncoder.act own n fuel e out = encodeLoop V2Encoder.act own n fuel e out := by
  induction fuel generalizing e owed out with
  | zero => rfl
  | succ fuel ih =>
    unfold encodeLoop
    by_cases hlt : out.length < n
    · rw [if_pos hlt, if_pos hlt, refill_raw h]
      rcases refill_spec v2_writes h hp with ⟨hr, -⟩ | ⟨e1, hr, h1, hp1, -⟩
      · rw [hr]
        rfl
      · rw [hr]
        obtain ⟨rest, hrest, -⟩ := owes_drop h1 hp1 (Nat.min_le_left e1.writePos.length (n - out.length))
        dsimp only [bind, Except.bind]
        rw [ih hrest hp1]
    · rw [if_neg hlt, if_neg hlt]

theorem encode_raw (h : Encoder.Owes e owed) : e.encode RawEncoder.act data = e.encode V2Encoder.act data := by
  unfold encode
  by_cases hp : e.inProgress = none
  · rw [if_pos hp, if_pos hp]
  · rw [if_neg hp, if_neg hp, encodeLoop_raw h hp]

theorem encode_owes (h : Encoder.Owes e owed) (hx : e.encode c.act data = .ok (out, e')) :
    ∃ rest, Encoder.Owes e' rest ∧ out ++ rest = owed := by
  have hwrites : ∀ {act header}, Encoder.Writes act header → e.encode act data = .ok (out, e') →
      ∃ rest, Encoder.Owes e' rest ∧ out ++ rest = owed := fun hw hx => by
    obtain ⟨o, e1, rest, hx1, howes, hsplit, -⟩ := encode_spec hw h data
    cases hx.symm.trans hx1
    exact ⟨rest, howes, hsplit⟩
  cases c with
  | zmtp kind => exact hwrites kind.writes hx
  | raw => exact hwrites v2_writes ((encode_raw h).symm.trans hx)

theorem loadMsg_owes (h : Encoder.Owes e owed) (hx : e.loadMsg c.act m = .ok e') : owed = [] ∧ Encoder.Owes e' (c.frame m) := by
  cases c with
  | zmtp kind =>
    rcases loadMsg_spec kind.writes h m with ⟨-, hnil, e1, hx1, howes⟩ | ⟨-, hx1⟩
    · cases hx.symm.trans hx1
      exact ⟨hnil, howes⟩
    · cases hx.symm.trans hx1
  | raw =>
    cases h with
    | idle =>
      cases hx
      exact ⟨rfl, .body⟩
    | header | body => cases hx

end Coding

namespace Line

variable {line line' : Line} {x : Load}

/-- What the socket has accepted, and what is still to come, ends with the frames of what has been loaded. -/
structure Sound (line : Line) : Prop where
  greeting : line.encoder = none → line.loads = []
  frames : ∀ c e, line.encoder = some (c, e) → ∃ opening owed, Encoder.Owes e owed ∧
    line.accepted ++ line.out ++ owed = opening ++ line.loads.flatMap fun x => c.frame x.msg

theorem new_sound (raw : Bool) : (new raw).Sound where
  greeting _ := rfl
  frames c e he := by
    cases raw with
    | false => cases he
    | true =>
      cases he
      exact ⟨[], [], .idle, rfl⟩

theorem Sound.greet (h : line.Sound) (hn : line.encoder = none) (bytes : List UInt8) :
    ({ line with out := line.out ++ bytes } : Line).Sound :=
  ⟨h.greeting, fun c e he => by cases hn.symm.trans he⟩

theorem Sound.begin {kind : EncoderKind} {identity : Option (Msg × ℕ)} (h : line.Sound) (hn : line.encoder = none)
    (hx : line.begin kind identity = .ok line') : line'.Sound ∧ line'.loads = line.loads := by
  cases identity with
  | none =>
    cases hx
    refine ⟨⟨nofun, fun c e he => ?_⟩, rfl⟩
    cases he
    exact ⟨line.accepted ++ line.out, [], .idle, by rw [h.greeting hn]; rfl⟩
  | some identity =>
    obtain ⟨m, size⟩ := identity
    obtain ⟨e1, h1, hx⟩ := bind_ok hx
    obtain ⟨⟨out, e2⟩, h2, hx⟩ := bind_ok hx
    cases hx
    obtain ⟨-, howes⟩ := @Coding.loadMsg_owes (.zmtp kind) _ _ _ m .idle h1
    obtain ⟨rest, howes, -⟩ := @Coding.encode_owes (.zmtp kind) _ _ _ _ _ howes h2
    refine ⟨⟨nofun, fun c e he => ?_⟩, rfl⟩
    cases he
    refine ⟨line.accepted ++ line.out ++ rest, rest, howes, ?_⟩
    rw [h.greeting hn, flatMap_nil, append_nil]

theorem Sound.load {null : Bool} (h : line.Sound) (hx : line.load null x = .ok line') :
    line'.Sound ∧ line'.loads = line.loads ++ [x] := by
  unfold Line.load at hx
  cases he : line.encoder with
  | none =>
    rw [he] at hx
    cases hx
  | some pair =>
    obtain ⟨c, e⟩ := pair
    rw [he] at hx
    obtain ⟨opening, owed, howes, hall⟩ := h.frames c e he
    obtain ⟨e1, h1, hx⟩ := bind_ok hx
    obtain ⟨⟨bytes, e2⟩, h2, hx⟩ := bind_ok hx
    dsimp only at hx
    split_ifs at hx
    cases hx
    obtain ⟨rfl, howes1⟩ := Coding.loadMsg_owes howes h1
    obtain ⟨rest, howes2, hsplit⟩ := Coding.encode_owes howes1 h2
    refine ⟨⟨nofun, fun c' e' he' => ?_⟩, rfl⟩
    cases he'
    refine ⟨opening, rest, howes2, ?_⟩
    rw [append_nil] at hall
    calc line.accepted ++ (line.out ++ bytes) ++ rest = line.accepted ++ line.out ++ (bytes ++ rest) := by
          simp only [append_assoc]
      _ = opening ++ line.loads.flatMap (fun x => c.frame x.msg) ++ c.frame x.msg := by rw [hall, hsplit]
      _ = opening ++ (line.loads ++ [x]).flatMap fun x => c.frame x.msg := by
          rw [flatMap_append, flatMap_singleton, append_assoc]

theorem Sound.write (h : line.Sound) (nbytes : Option ℕ) : (line.write nbytes).Sound ∧ (line.write nbytes).loads = line.loads := by
  cases nbytes with
  | none => exact ⟨h, rfl⟩
  | some n =>
    refine ⟨⟨h.greeting, fun c e he => ?_⟩, rfl⟩
    obtain ⟨opening, owed, howes, hall⟩ := h.frames c e he
    refine ⟨opening, owed, howes, Eq.trans ?_ hall⟩
    unfold Line.write
    rw [append_assoc line.accepted, take_append_drop]

theorem Sound.resume {c : Coding} {e e' : Encoder} {out : List UInt8} (h : line.Sound) (he : line.encoder = some (c, e))
    (hout : line.out = []) (hx : e.encode c.act none = .ok (out, e')) :
    ({ line with out := out, encoder := some (c, e') } : Line).Sound := by
  obtain ⟨opening, owed, howes, hall⟩ := h.frames c e he
  obtain ⟨rest, howes', hsplit⟩ := Coding.encode_owes howes hx
  refine ⟨nofun, fun c' e1 he' => ?_⟩
  cases he'
  refine ⟨opening, rest, howes', ?_⟩
  rw [hout, append_nil] at hall
  rw [← hall, ← hsplit, append_assoc]

theorem Sound.delivered (h : line.Sound) (hi : line.Idle) : line.Delivered := by
  unfold Delivered Line.frames
  cases he : line.encoder with
  | none => exact nil_suffix
  | some pair =>
    obtain ⟨c, e⟩ := pair
    obtain ⟨opening, owed, howes, hall⟩ := h.frames c e he
    obtain ⟨hout, hnone⟩ := hi
    rw [he] at hnone
    rw [hout, howes.idle_nil (isNone_iff_eq_none.mp hnone), append_nil, append_nil] at hall
    exact ⟨opening, hall.symm⟩

theorem pulled_load (h : line'.loads = line.loads ++ [x]) :
    line'.pulled = line.pulled ++ (x.source.bind Pulled.completes).toList := by
  unfold pulled
  rw [h, filterMap_append, filterMap_cons]
  cases x.source.bind Pulled.completes <;> rfl

theorem pulled_same (h : line'.loads = line.loads) : line'.pulled = line.pulled := by
  unfold pulled
  rw [h]

end Line

namespace ClosingSession

open EndView

variable {s s' : ClosingSession} {l : SessionPipe GroupMsg} {x : EndView GroupMsg} {p : EndT} {hand hand' : List GroupMsg}
    {pipes : List (SessionPipe GroupMsg)} {null : Bool} {asks : List Ask} {m : GroupMsg} {room : Bool} {delay : Bool}
    {f : EndView GroupMsg → Except Fault (EndView GroupMsg)}
  {taken added : List (Option GroupMsg)}

def due : Option (SessionPipe GroupMsg) → List GroupMsg
  | none => []
  | some l => if l.session.readable then l.unread else []

def Covers (s : ClosingSession) (hand due : List GroupMsg) : Prop :=
  ∃ rest, s.pulled ++ hand ++ s.pendingMsg.toList ++ due = s.written ++ rest ∧ (¬ s.Shut → rest = [])

structure Live (hand : List GroupMsg) (s : ClosingSession) : Prop where
  alive : s.destroyed = false
  orderly : ∀ l, s.pipe = some l → l.Orderly
  log : s.Covers hand (due s.pipe)
  asked : ∀ l, s.pipe = some l → l.session.state = .termReqSent1 ∨ l.session.state = .termReqSent2 → s.Shut
  /-- the request to terminate the pipe comes before the `term` -/
  term : ∀ n l, s.term = some n → s.pipe = some l → l.session.state = .active →
    s.untold = true ∨ s.Covers hand [] ∨ EndCmd.pipeTerm ∈ l.toSession.take n
  closed : s.closed = true → s.bound = true → ∀ l p, s.pipe = some l → l.socket = some p → p.state.isOpen = false
  fresh : s.bound = false → ∀ l, s.pipe = some l → l.unread = []
  midway : ¬ s.Shut → ∀ l p, s.pipe = some l → l.socket = some p → p.state = .active →
    l.outqueue.unfinished = s.midway.map some ∧ (l.dropped ≠ [] → s.midway = [])
  finished : s.terminating = true → s.pipe = none
  lines : ∀ line ∈ s.ended ++ s.engine.toList, line.Sound
  delivered : ∀ line ∈ s.ended, line.pulled ≠ [] → line.Delivered

theorem Covers.extra {rest : List GroupMsg} (h : s.Covers hand []) (hs : s.Shut) (hp : s.pendingMsg = none) :
    s.Covers (hand ++ rest) [] := by
  obtain ⟨more, hmore, -⟩ := h
  refine ⟨more ++ rest, ?_, fun hc => absurd hs hc⟩
  rw [hp, toList_none, append_nil, append_nil] at hmore ⊢
  rw [← append_assoc, hmore, append_assoc]

theorem Live.aside {incompleteIn connecting pending asked zapPipe listed : Bool} (h : Live hand s) : Live hand { s with
      incompleteIn := incompleteIn, connecting := connecting, pending := pending, asked := asked, zapPipe := zapPipe
      listed := listed, terminatingPipes := pipes } :=
  ⟨h.alive, h.orderly, h.log, h.asked, h.term, h.closed, h.fresh, h.midway, h.finished, h.lines, h.delivered⟩

theorem Live.turns (h : Live hand s) (hl : s.pipe = some l) (hx : Turns l.sessionView x taken)
    (hasked : x.self.state = .termReqSent1 ∨ x.self.state = .termReqSent2 → s.Shut)
    (hlog : s.Covers hand' (due (some (l.putSession x)))) (hhand : s.Covers hand [] → s.term.isSome = true → s.Covers hand' []) :
    Live hand' { s with pipe := some (l.putSession x) } := by
  obtain ⟨horderly, hunread⟩ := (h.orderly l hl).turns hx
  refine ⟨h.alive, fun l1 hl1 => ?_, hlog, fun l1 hl1 hs => ?_, fun n l1 hn hl1 hs => ?_, fun hc hb l1 p hl1 hp => ?_,
    fun hb l1 hl1 => ?_, fun hs l1 p hl1 hp ha => ?_, fun ht => ?_, h.lines, h.delivered⟩
  · cases hl1
    exact horderly
  · cases hl1
    exact hasked hs
  · cases hl1
    rcases h.term n l hn hl (hx.active hs).1 with hu | hc | ht
    · exact .inl hu
    · exact .inr (.inl (hhand hc (by rw [show s.term = some n from hn]; rfl)))
    · exact .inr (.inr ht)
  · cases hl1
    exact h.closed hc hb l p hl hp
  · cases hl1
    rw [h.fresh hb l hl] at hunread
    exact (append_eq_nil_iff.mp hunread.symm).2
  · cases hl1
    rw [(l.turns_outqueue hx).2]
    exact h.midway hs l p hl hp ha
  · cases hl.symm.trans (h.finished ht)

theorem due_found (h : l.Orderly) (hx : Found l.sessionView x none) : due (some (l.putSession x)) = due (some l) := by
  cases hx with
  | delimiter ht hs =>
    have hnone : l.unread = [] := by
      have hcar := h.carried
      unfold unread
      unfold Staged.whole at hcar ⊢
      rw [show l.inpipe.ready = none :: x.inpipe.ready from ht.ready] at hcar ⊢
      exact hcar.nothing
    have hpast : (l.putSession x).session.readable = false := by
      change x.self.readable = false
      unfold EndT.readable
      rcases hs with hs | hs <;> rw [hs] <;> rfl
    dsimp only [due]
    rw [hpast, hnone]
    exact (ite_self _).symm
  | nothing ht hs =>
    obtain ⟨-, hunread⟩ := h.turns ht
    have hread : (l.putSession x).session.readable = l.session.readable := by
      unfold EndT.readable
      rw [show (l.putSession x).session.state = l.session.state from hs]
    dsimp only [due]
    rw [hread, show l.unread = (l.putSession x).unread from hunread]

theorem Live.found (h : Live hand s) (hl : s.pipe = some l) (hx : Found l.sessionView x none) :
    Live hand { s with pipe := some (l.putSession x) } := by
  have hlog := h.log
  rw [hl, ← due_found (h.orderly l hl) hx] at hlog
  cases hx with
  | delimiter ht hs =>
    refine h.turns hl ht (fun hc => ?_) hlog fun hc _ => hc
    rcases hs with hs | hs <;> rw [hs] at hc <;> rcases hc with hc | hc <;> cases hc
  | nothing ht hs => exact h.turns hl ht (fun hc => h.asked l hl (hs ▸ hc)) hlog fun hc _ => hc

theorem Live.quietly (h : Live hand s) (hl : s.pipe = some l) (hx : Turns l.sessionView x [])
    (hasked : x.self.state = .termReqSent1 ∨ x.self.state = .termReqSent2 → s.Shut)
    (hread : x.self.readable = l.session.readable) : Live hand { s with pipe := some (l.putSession x) } := by
  refine h.turns hl hx hasked ?_ fun hc _ => hc
  have hlog := h.log
  obtain ⟨-, hunread⟩ := (h.orderly l hl).turns hx
  rw [hl] at hlog
  dsimp only [due] at hlog ⊢
  rw [show (l.putSession x).session.readable = l.session.readable from hread]
  rw [show l.unread = (l.putSession x).unread from hunread] at hlog
  exact hlog

theorem Live.checkRead (h : Live hand s) (hx : s.checkRead = .ok s') : Live hand s' := by
  unfold ClosingSession.checkRead at hx
  cases hl : s.pipe with
  | none =>
    rw [hl] at hx
    exact ok.inj hx ▸ h
  | some l =>
    rw [hl] at hx
    obtain ⟨x, h1, h2⟩ := bind_ok hx
    exact ok.inj h2 ▸ h.found hl (checkRead_found (h.orderly l hl).delay h1)

theorem Live.pullBase {r : Option GroupMsg} (h : Live [] s) (hp : s.pendingMsg = none) (hx : s.pullBase = .ok (r, s')) :
    Live r.toList s' ∧ s'.pendingMsg = none ∧ s'.options = s.options ∧ s'.engine = s.engine ∧ s'.active = s.active := by
  unfold ClosingSession.pullBase at hx
  cases hl : s.pipe with
  | none =>
    rw [hl] at hx
    cases hx
    exact ⟨h, hp, rfl, rfl, rfl⟩
  | some l =>
    rw [hl] at hx
    obtain ⟨⟨m, x⟩, h1, h2⟩ := bind_ok hx
    have hfound := read_found (h.orderly l hl).delay h1
    cases m with
    | none =>
      cases h2
      exact ⟨h.found hl hfound, hp, rfl, rfl, rfl⟩
    | some m =>
      cases h2
      refine ⟨Live.aside (s := { s with pipe := some (l.putSession x) }) ?_, hp, rfl, rfl, rfl⟩
      cases hfound with
      | message m ht hself =>
        have hreads : l.session.readable = true := by
          by_contra hn
          have hr := h1
          unfold EndView.read at hr
          rw [if_pos (by
            rw [show l.sessionView.self.readable = false from Bool.eq_false_of_not_eq_true hn]
            simp)] at hr
          cases (ok_pair hr).1
        obtain ⟨-, hunread⟩ := (h.orderly l hl).turns ht
        rw [reduceOption_singleton] at hunread
        refine h.turns hl ht (fun hc => h.asked l hl ?_) ?_ fun hc hterm => hc.extra (.inr hterm) hp
        · rw [hself] at hc
          exact hc
        · have hlog := h.log
          rw [hl] at hlog
          dsimp only [due] at hlog ⊢
          rw [show (l.putSession x).session.readable = true from by rw [← hreads]; exact congrArg EndT.readable hself, if_pos rfl]
          rw [hreads, if_pos rfl, hunread] at hlog
          obtain ⟨rest, hrest, hshut⟩ := hlog
          refine ⟨rest, Eq.trans ?_ hrest, hshut⟩
          rw [hp]
          simp only [toList_none, toList_some, append_assoc, nil_append]

theorem Live.regroup (pendingMsg : Option GroupMsg) (h : Live hand s)
    (heq : hand' ++ pendingMsg.toList = hand ++ s.pendingMsg.toList) : Live hand' { s with pendingMsg := pendingMsg } := by
  have hcovers : ∀ d, s.Covers hand d → ({ s with pendingMsg := pendingMsg } : ClosingSession).Covers hand' d := by
    rintro d ⟨rest, hrest, hshut⟩
    refine ⟨rest, Eq.trans ?_ hrest, hshut⟩
    change s.pulled ++ hand' ++ pendingMsg.toList ++ d = s.pulled ++ hand ++ s.pendingMsg.toList ++ d
    rw [append_assoc s.pulled, heq, ← append_assoc s.pulled]
  refine ⟨h.alive, h.orderly, hcovers _ h.log, h.asked, fun n l hn hl hs => ?_, h.closed, h.fresh, h.midway, h.finished, h.lines,
    h.delivered⟩
  exact (h.term n l hn hl hs).imp_right (Or.imp_left (hcovers _))

theorem Live.pullMsg {r : Option Pulled} (h : Live [] s) (hx : s.pullMsg = .ok (r, s')) :
    Live (r.bind Pulled.completes).toList s' ∧ s'.engine = s.engine := by
  unfold ClosingSession.pullMsg at hx
  cases hp : s.pendingMsg with
  | some m =>
    rw [hp] at hx
    cases hx
    exact ⟨h.regroup none (by rw [hp]; rfl), rfl⟩
  | none =>
    rw [hp] at hx
    obtain ⟨⟨m, s1⟩, h1, h2⟩ := bind_ok hx
    obtain ⟨hlive, hp1, -, hengine, -⟩ := h.pullBase hp h1
    cases m with
    | none =>
      cases h2
      exact ⟨hlive, hengine⟩
    | some m =>
      have h2 := ok.inj h2
      split_ifs at h2
      · cases h2
        exact ⟨hlive.regroup (some m) (by rw [hp1]; rfl), hengine⟩
      · cases h2
        exact ⟨hlive, hengine⟩

theorem Live.nextMsg {ask : Ask} {r : Option Load} (h : Live [] s) (hx : s.nextMsg ask = .ok (r, s')) :
    Live (r.bind fun x => x.source.bind Pulled.completes).toList s' ∧ s'.engine = s.engine := by
  cases ask with
  | own m =>
    cases hx
    exact ⟨h, rfl⟩
  | pull encode =>
    obtain ⟨⟨q, s1⟩, h1, h2⟩ := bind_ok hx
    cases h2
    obtain ⟨hlive, hengine⟩ := h.pullMsg h1
    cases q with
    | none | some q => exact ⟨hlive, hengine⟩

theorem Live.plug {line : Line} {connecting : Bool} (h : Live hand s) (hs : line.Sound)
    (hp : ({ s with engine := some line, connecting := connecting } : ClosingSession).pulled ++ hand' = s.pulled ++ hand) :
    Live hand' { s with engine := some line, connecting := connecting } := by
  have hcovers : ∀ d, s.Covers hand d →
      ({ s with engine := some line, connecting := connecting } : ClosingSession).Covers hand' d := by
    rintro d ⟨rest, hrest, hshut⟩
    exact ⟨rest, hp ▸ hrest, hshut⟩
  refine ⟨h.alive, h.orderly, hcovers _ h.log, h.asked, fun n l hn hl ha => ?_, h.closed, h.fresh, h.midway, h.finished,
    fun one hone => ?_, h.delivered⟩
  · exact (h.term n l hn hl ha).imp_right (Or.imp_left (hcovers _))
  · rcases mem_append.mp hone with hone | hone
    · exact h.lines one (mem_append_left _ hone)
    · exact mem_singleton.mp hone ▸ hs

theorem Live.engine {line line' : Line} (h : Live hand s) (he : s.engine = some line) (hs : line'.Sound)
    (hp : line'.pulled = line.pulled ++ hand) : Live [] { s with engine := some line' } := by
  refine h.plug hs ?_
  unfold ClosingSession.pulled
  rw [he, append_nil]
  simp only [toList_some, flatMap_append, flatMap_singleton, hp, append_assoc]

theorem Live.line {line : Line} (h : Live hand s) (he : s.engine = some line) : line.Sound :=
  h.lines line (mem_append_right _ (by rw [he]; exact mem_cons_self))

theorem orStop_ok {α : Type} {y : Except CodecFault α} {a : α} (h : orStop y = .ok a) : y = .ok a := by
  cases y with
  | ok b => exact congrArg _ (ok.inj h)
  | error e => cases h

theorem Live.loadMsg {y : Load} (h : Live (y.source.bind Pulled.completes).toList s)
    (hx : s.loadMsg null y = .ok s') : Live [] s' := by
  unfold ClosingSession.loadMsg at hx
  cases he : s.engine with
  | none =>
    rw [he] at hx
    cases hx
  | some line =>
    rw [he] at hx
    obtain ⟨line', h1, h2⟩ := bind_ok hx
    cases h2
    obtain ⟨hs, hloads⟩ := (h.line he).load (orStop_ok h1)
    exact h.engine he hs (Line.pulled_load hloads)

theorem Live.fill (h : Live [] s) (hx : fill asks null s = .ok s') : Live [] s' := by
  induction asks generalizing s null with
  | nil => exact ok.inj hx ▸ h
  | cons ask asks ih =>
    unfold ClosingSession.fill at hx
    split_ifs at hx
    · obtain ⟨⟨r, s1⟩, h1, h2⟩ := bind_ok hx
      obtain ⟨hlive, -⟩ := h.nextMsg h1
      cases r with
      | none => exact ok.inj h2 ▸ hlive
      | some y =>
        obtain ⟨s2, h3, h4⟩ := bind_ok h2
        exact ih (hlive.loadMsg h3) h4
    · exact ok.inj hx ▸ h

theorem Live.writeOut (h : Live [] s) (nbytes : Option ℕ) : Live [] (s.writeOut nbytes) := by
  unfold ClosingSession.writeOut
  cases he : s.engine with
  | none =>
    rw [map_none, ← he]
    exact h
  | some line =>
    obtain ⟨hs, hloads⟩ := (h.line he).write nbytes
    refine h.engine he hs ?_
    rw [Line.pulled_same hloads, append_nil]

theorem Live.outEvent {nbytes : Option ℕ} (h : Live [] s) (hx : s.outEvent asks nbytes = .ok s') : Live [] s' := by
  unfold ClosingSession.outEvent at hx
  cases he : s.engine with
  | none =>
    rw [he] at hx
    cases hx
  | some line =>
    rw [he] at hx
    dsimp only at hx
    split_ifs at hx with hout
    · cases hc : line.encoder with
      | none =>
        rw [hc] at hx
        exact ok.inj hx ▸ h
      | some pair =>
        obtain ⟨c, e⟩ := pair
        rw [hc] at hx
        obtain ⟨⟨out, e'⟩, h1, hx⟩ := bind_ok hx
        obtain ⟨s1, h2, hx⟩ := bind_ok hx
        cases hx
        have hs := (h.line he).resume hc hout (orStop_ok h1)
        have hstart := h.engine he hs (by rw [append_nil]; rfl)
        exact (hstart.fill h2).writeOut nbytes
    · exact ok.inj hx ▸ h.writeOut nbytes

theorem Live.endEngine (h : Live hand s) (hs : s.Spent) : Live hand s.endEngine := by
  have hpulled : s.endEngine.pulled = s.pulled := by
    unfold ClosingSession.pulled ClosingSession.endEngine
    rw [toList_none, append_nil]
  have hcovers : ∀ d, s.Covers hand d → s.endEngine.Covers hand d := by
    rintro d ⟨rest, hrest, hshut⟩
    exact ⟨rest, hpulled.symm ▸ hrest, hshut⟩
  refine ⟨h.alive, h.orderly, hcovers _ h.log, h.asked, fun n l hn hl ha => ?_, h.closed, h.fresh, h.midway, h.finished,
    fun one hone => ?_, fun one hone hne => ?_⟩
  · exact (h.term n l hn hl ha).imp_right (Or.imp_left (hcovers _))
  · rw [show s.endEngine.engine.toList = [] from rfl, append_nil] at hone
    exact h.lines one hone
  · rcases mem_append.mp hone with hold | hlast
    · exact h.delivered one hold hne
    · obtain hidle := (hs one (mem_toList.mp hlast)).resolve_left hne
      exact (h.lines one (mem_append_right _ hlast)).delivered hidle

theorem Live.pushMsg (h : Live hand s) : Live hand (s.pushMsg m room) := by
  unfold ClosingSession.pushMsg
  split
  · exact h
  · rename_i l hl
    have hd := (h.orderly l hl).delay
    have hself : (l.sessionView.write (·.hasMore) m room).2.self = l.session := by
      rcases write_cases (fun m : GroupMsg => m.hasMore) l.sessionView m room with hw | ⟨-, hw⟩ <;>
      · rw [hw]
        rfl
    refine h.quietly hl (turns_write hd m room) (fun hc => h.asked l hl ?_) ?_
    · rw [hself] at hc
      exact hc
    · rw [hself]

theorem Live.flush (h : Live hand s) : Live hand s.flush := by
  unfold ClosingSession.flush
  split
  · exact h
  · rename_i l hl
    have hself : l.sessionView.flush.self = l.session := (flush_self l.sessionView).1
    refine h.quietly hl (turns_flush (h.orderly l hl).delay) (fun hc => h.asked l hl ?_) ?_
    · rw [hself] at hc
      exact hc
    · rw [hself]

theorem Live.cleanPipes (h : Live hand s) (hi : s.incompleteIn = false) (hx : s.cleanPipes = .ok s') :
    Live hand s' ∧ ∃ pipe, s' = { s with pipe := pipe } ∧ ∀ l', pipe = some l' → ∃ l, s.pipe = some l ∧
      l'.session = l.session ∧ l'.inpipe = l.inpipe := by
  unfold ClosingSession.cleanPipes at hx
  cases hl : s.pipe with
  | none =>
    rw [hl] at hx
    cases hx
  | some l =>
    rw [hl] at hx
    obtain ⟨x, h1, h2⟩ := bind_ok hx
    have hdrop : ∀ n pipe, dropHalfRead (n + 1) { s with pipe := pipe } = .ok { s with pipe := pipe } := fun n pipe => by
      rw [show ({ s with pipe := pipe } : ClosingSession).incompleteIn = false from hi]
      rfl
    cases (hdrop _ _).symm.trans h2
    have hsame : x.self = l.session ∧ x.inpipe = l.inpipe ∧ x.sent = [] := by
      rcases rollback_cases h1 with rfl | rfl <;> exact ⟨rfl, rfl, rfl⟩
    obtain ⟨hself, hin, -⟩ := flush_self x
    have hturns : Turns l.sessionView x.flush [] := by
      refine .same (h.orderly l hl).delay ?_ ?_ (hin.trans hsame.2.1) fun c hc => ?_
      · rw [hself, hsame.1]
        rfl
      · rw [hself, hsame.1]
        rfl
      · have hsent := (flush_sent x).1 c hc
        rw [hsame.2.2] at hsent
        exact hsent
    refine ⟨h.quietly hl hturns (fun hc => h.asked l hl ?_) ?_, _, rfl, fun l' hl' => ⟨l, rfl, ?_⟩⟩
    · rw [hself, hsame.1] at hc
      exact hc
    · rw [hself, hsame.1]
    · cases hl'
      exact ⟨hself.trans hsame.1, hin.trans hsame.2.1⟩

theorem Live.forget (h : Live hand s) (hd : due s.pipe = []) :
    Live hand { s with pipe := none, listed := false, terminatingPipes := pipes } := by
  have hlog := h.log
  rw [hd] at hlog
  exact ⟨h.alive, fun l hl => (by cases hl), hlog, fun l hl => (by cases hl), fun n l _ hl => (by cases hl),
    fun _ _ l p hl => (by cases hl), fun _ l hl => (by cases hl), fun _ l p hl => (by cases hl), fun _ => rfl, h.lines, h.delivered⟩

theorem Live.hiccup (h : Live hand s) (hl : s.pipe = some l)
    (hk : l.session.state = .active → l.unread = [] ∧ l.inpipe.unfinished = []) :
    Live hand { s with pipe := some l.hiccup } := by
  by_cases hs : l.session.state = .active
  swap
  · rw [show l.hiccup = l from if_pos hs, ← hl]
    exact h
  obtain ⟨hunread, hunf⟩ := hk hs
  have horderly := (h.orderly l hl).hiccup
  have heq : l.hiccup = { l with
      session := { l.session with inActive := true }, inpipe := .empty, dropped := l.dropped ++ [l.inpipe]
      toSocket := l.toSocket ++ [.hiccup] } := if_neg fun hc => hc hs
  rw [heq] at horderly ⊢
  refine ⟨h.alive, fun l1 hl1 => ?_, ?_, fun l1 hl1 hc => ?_, fun n l1 hn hl1 hc => ?_, fun hc hb l1 p hl1 hp => ?_,
    fun hb l1 hl1 => ?_, fun hc l1 p hl1 hp ha => ?_, fun ht => ?_, h.lines, h.delivered⟩
  · cases hl1
    exact horderly
  · have hlog := h.log
    rw [hl] at hlog
    dsimp only [due] at hlog ⊢
    rw [hunread, ite_self] at hlog
    rw [show ({ l with
      session := { l.session with inActive := true }, inpipe := .empty, dropped := l.dropped ++ [l.inpipe]
      toSocket := l.toSocket ++ [.hiccup] } : SessionPipe GroupMsg).unread = [] from rfl, ite_self]
    exact hlog
  · cases hl1
    exact h.asked l hl hc
  · cases hl1
    exact h.term n l hn hl hc
  · cases hl1
    exact h.closed hc hb l p hl hp
  · cases hl1
    rfl
  · cases hl1
    obtain ⟨hmid, hdropped⟩ := h.midway hc l p hl hp ha
    have hout : (l.dropped ++ [l.inpipe]).headD .empty = l.outqueue := by
      unfold outqueue
      cases l.dropped <;> rfl
    refine ⟨(congrArg Staged.unfinished hout).trans hmid, fun _ => ?_⟩
    cases hd : l.dropped with
    | nil =>
      rw [outqueue_nil hd, hunf] at hmid
      exact map_eq_nil_iff.mp hmid.symm
    | cons old rest => exact hdropped (by rw [hd]; exact cons_ne_nil _ _)
  · cases hl.symm.trans (h.finished ht)

theorem Live.reconnect (h : Live hand s) (hp : s.pendingMsg = none) (hi : s.options.immediate = true → due s.pipe = [])
    (hk : s.options.subscribes = true → ∀ l, s.pipe = some l → l.session.state = .active → l.unread = [] ∧ l.inpipe.unfinished = [])
    (hx : s.reconnect = .ok s') : Live hand s' := by
  obtain ⟨s1, h1, h2⟩ := bind_ok hx
  cases h2
  have hs1 : Live hand s1 ∧ s1.pendingMsg = none ∧ s1.options = s.options ∧ (s1.pipe = none ∨ s1 = s) := by
    by_cases him : s.options.immediate = true
    · rw [if_pos him] at h1
      unfold ClosingSession.detach at h1
      cases hl : s.pipe with
      | none =>
        rw [hl] at h1
        exact ok.inj h1 ▸ ⟨h, hp, rfl, .inl hl⟩
      | some l =>
        rw [hl] at h1
        obtain ⟨x, -, h3⟩ := bind_ok h1
        exact ok.inj h3 ▸ ⟨h.forget (hi him), hp, rfl, .inl rfl⟩
    · rw [if_neg him] at h1
      exact ok.inj h1 ▸ ⟨h, hp, rfl, .inr rfl⟩
  obtain ⟨hlive, hp1, hopt, hpipe⟩ := hs1
  have hreset : Live hand { s1 with pendingMsg := none, connecting := s1.options.reconnects } :=
    (hlive.regroup none (by rw [hp1])).aside
  split_ifs with hsub
  · cases hl : s1.pipe with
    | none =>
      rw [map_none]
      exact hl ▸ hreset
    | some l =>
      refine hreset.hiccup hl fun ha => hk ?_ l ?_ ha
      · rw [← hopt]
        exact hsub
      · rcases hpipe with hn | rfl
        · cases hl.symm.trans hn
        · exact hl
  · exact hreset

theorem Live.engineError {reason : ErrorReason} (h : Live [] s) (hg : ¬ s.GivesUp (.engineError reason))
    (hk : s.Keeps (.engineError reason)) (hx : s.engineError reason = .ok s') : Live [] s' := by
  obtain ⟨hspent, hp, hinc, himm, hsub⟩ := hk hg
  obtain ⟨s1, h1, hrest⟩ := bind_ok hx
  obtain ⟨s2, h2, hlast⟩ := bind_ok hrest
  have hend := h.endEngine hspent
  have hs1 : Live [] s1 ∧ ∃ pipe, s1 = { s.endEngine with pipe := pipe } ∧ ∀ l', pipe = some l' → ∃ l, s.pipe = some l ∧
      l'.session = l.session ∧ l'.inpipe = l.inpipe := by
    split_ifs at h1
    · exact hend.cleanPipes hinc h1
    · exact ok.inj h1 ▸ ⟨hend, s.pipe, rfl, fun l hl => ⟨l, hl, rfl, rfl⟩⟩
  obtain ⟨hlive, pipe, rfl, hpipe⟩ := hs1
  have hactive : s.active = true := by
    by_contra hn
    exact hg (.inl (Bool.eq_false_of_not_eq_true hn))
  have hne : reason ≠ .protocolError := fun hc => hg (.inr hc)
  have hback : ({ s.endEngine with pipe := pipe } : ClosingSession).reconnect = .ok s2 := by
    rw [if_pos ⟨hactive, hne⟩] at h2
    exact h2
  refine Live.checkRead (hlive.reconnect hp (fun hi => ?_) (fun hs l' hl' ha => ?_) hback) hlast
  · cases hl' : pipe with
    | none => rfl
    | some l' =>
      obtain ⟨l, hl, hsession, hin⟩ := hpipe l' hl'
      dsimp only [due]
      split_ifs with hr
      · rw [hsession] at hr
        have hu := himm hi l hl hr
        unfold unread at hu ⊢
        rw [hin]
        exact hu
      · rfl
  · obtain ⟨l, hl, hsession, hin⟩ := hpipe l' hl'
    rw [hsession] at ha
    have hu := hsub hs l hl ha
    unfold unread at hu ⊢
    rw [hin]
    exact hu

theorem Live.processAttach (h : Live hand s) (he : s.engine = none) : Live hand s.processAttach := by
  have hplug : Live hand { s with engine := some (.new s.options.raw), connecting := false } := by
    refine h.plug (Line.new_sound _) (congrArg (· ++ hand) ?_)
    unfold ClosingSession.pulled
    rw [he]
    simp only [toList_some, toList_none, flatMap_append, flatMap_singleton, append_nil]
    exact append_nil _
  unfold ClosingSession.processAttach
  dsimp only
  split_ifs with hc
  · have hlog := hplug.log
    rw [show s.pipe = none from isNone_iff_eq_none.mp hc.1] at hlog
    have hterm : ∀ d, ({ s with engine := some (.new s.options.raw), connecting := false } : ClosingSession).Covers hand d →
        ({ s with
          engine := some (.new s.options.raw), connecting := false, pipe := some (.new s.options.conflate), bound := false
          listed := false, midway := [], untold := false, term := s.term.map fun _ => 0 } : ClosingSession).Covers hand d := by
      rintro d ⟨rest, hrest, hshut⟩
      refine ⟨rest, hrest, fun hc => hshut fun hs => hc ?_⟩
      rcases hs with hs | hs
      · exact .inl hs
      · exact .inr (isSome_map.trans hs)
    refine ⟨hplug.alive, fun l hl => ?_, hterm _ hlog, fun l hl hs => ?_, fun n l _ _ _ => .inr (.inl (hterm _ hlog)),
      fun _ hb => (by cases hb), fun _ l hl => ?_, fun _ l p hl _ _ => ?_, fun ht => ?_, hplug.lines, hplug.delivered⟩
    · cases hl
      exact new_orderly _
    · cases hl
      rcases hs with hs | hs <;> cases hs
    · cases hl
      rfl
    · cases hl
      exact ⟨rfl, fun hd => absurd rfl hd⟩
    · exact nomatch hc.2.symm.trans ht
  · exact hplug

theorem Live.terminates (h : Live hand s) (hd : s.detached = true) : Live hand { s with terminating := true } := by
  have hp : s.pipe = none := by
    unfold ClosingSession.detached at hd
    rw [Bool.and_eq_true, Bool.and_eq_true] at hd
    exact isNone_iff_eq_none.mp hd.1.1
  exact ⟨h.alive, h.orderly, h.log, h.asked, h.term, h.closed, h.fresh, h.midway, fun _ => hp, h.lines, h.delivered⟩

theorem Live.processTerm (h : Live hand s) (ht : s.term = some 0) (hk : s.Keeps .processTerm) (hx : s.processTerm = .ok s') :
    Live hand s' := by
  unfold ClosingSession.processTerm at hx
  by_cases hd : s.detached = true
  · rw [if_pos hd] at hx
    exact ok.inj hx ▸ h.terminates hd
  rw [if_neg hd] at hx
  cases hl : s.pipe with
  | none =>
    rw [hl] at hx
    exact ok.inj hx ▸ (hl ▸ h.aside)
  | some l =>
    rw [hl] at hx
    obtain ⟨x, h1, h2⟩ := bind_ok hx
    obtain ⟨hturns, hne, hactive, hread⟩ := turns_terminate h1
    have hshut : s.Shut := .inr (by rw [ht]; rfl)
    have hlive : Live hand { s with pipe := some (l.putSession x) } := by
      by_cases ha : l.session.state = .active
      · refine h.turns hl hturns (fun _ => hshut) ?_ fun hc _ => hc
        dsimp only [due]
        rw [if_neg (by rw [show (l.putSession x).session.readable = false from hactive ha]; exact Bool.false_ne_true)]
        -- the socket has terminated the pipe before, or there is nothing to read
        rcases h.term 0 l ht hl ha with hu | hc | hc
        · have hlog := h.log
          rw [hl] at hlog
          dsimp only [due] at hlog
          rw [hk hu l hl ha, ite_self] at hlog
          exact hlog
        · exact hc
        · cases hc
      · exact h.quietly hl hturns (fun _ => hshut) (hread ha)
    dsimp only at h2
    split_ifs at h2
    · exact Live.checkRead hlive.aside h2
    · exact ok.inj h2 ▸ hlive.aside

theorem Live.pipeTerminated (h : Live hand s) (hk : s.Leaves) : Live hand s.pipeTerminated := by
  obtain ⟨s1, hs1⟩ : ∃ s1, s1 = (if !s.terminating && s.options.raw then { s.endEngine with asked := true } else s) := ⟨_, rfl⟩
  have hraw : Live hand s1 := by
    rw [hs1]
    by_cases hc : (!s.terminating && s.options.raw) = true
    · rw [if_pos hc]
      rw [Bool.and_eq_true, Bool.not_eq_true'] at hc
      exact (h.endEngine (hk hc.1 hc.2)).aside
    · rw [if_neg hc]
      exact h
  unfold ClosingSession.pipeTerminated
  rw [← hs1]
  dsimp only
  split_ifs with hc
  · rw [Bool.and_eq_true] at hc
    exact (hraw.terminates hc.2).aside
  · exact hraw

theorem Live.pop {c : EndCmd} {rest : List EndCmd} (h : Live hand s) (hl : s.pipe = some l) (hc : l.toSession = c :: rest)
    (hne : l.session.state = .active → c ≠ .pipeTerm) :
    Live hand { s with pipe := some { l with toSession := rest }, term := s.term.map (· - 1) } := by
  have ho := h.orderly l hl
  have htake : ∀ n, l.session.state = .active → EndCmd.pipeTerm ∈ l.toSession.take n → EndCmd.pipeTerm ∈ rest.take (n - 1) := by
    intro n ha ht
    cases n with
    | zero => exact nomatch ht
    | succ n =>
      rw [hc] at ht
      exact (mem_cons.mp ht).resolve_left fun heq => hne ha heq.symm
  have hcovers : ∀ d, s.Covers hand d →
      ({ s with pipe := some { l with toSession := rest }, term := s.term.map (· - 1) } : ClosingSession).Covers hand d := by
    rintro d ⟨more, hmore, hshut⟩
    refine ⟨more, hmore, fun hn => hshut fun hs => hn ?_⟩
    exact hs.imp_right isSome_map.trans
  have hshut : s.Shut → ({ s with pipe := some { l with toSession := rest }, term := s.term.map (· - 1) } : ClosingSession).Shut :=
    fun hs => hs.imp_right isSome_map.trans
  refine ⟨h.alive, fun l1 hl1 => ?_, ?_, fun l1 hl1 hs => ?_, fun n l1 hn hl1 ha => ?_, fun hc hb l1 p hl1 hp => ?_,
    fun hb l1 hl1 => ?_, fun hs l1 p hl1 hp ha => ?_, fun ht => ?_, h.lines, h.delivered⟩
  · cases hl1
    refine ⟨ho.carried, ho.delay, ho.writer, ho.unfinished, ho.single, ho.blank, ho.quiet, fun ha => ?_⟩
    refine (ho.told ha).imp_left fun ht => ?_
    rw [hc] at ht
    exact (mem_cons.mp ht).resolve_left fun heq => hne ha heq.symm
  · have hlog := hcovers _ h.log
    rw [hl] at hlog
    exact hlog
  · cases hl1
    exact hshut (h.asked l hl hs)
  · cases hl1
    obtain ⟨m, hm, rfl⟩ := map_eq_some_iff.mp hn
    rcases h.term m l hm hl ha with hu | hd | ht
    · exact .inl hu
    · exact .inr (.inl (hcovers _ hd))
    · exact .inr (.inr (htake m ha ht))
  · cases hl1
    exact h.closed hc hb l p hl hp
  · cases hl1
    exact h.fresh hb l hl
  · cases hl1
    exact h.midway (fun hn => hs (hshut hn)) l p hl hp ha
  · cases hl.symm.trans (h.finished ht)

theorem Live.deliver (h : Live hand s) (hk : s.Keeps .deliver) (hx : s.deliver = .ok s') : Live hand s' := by
  unfold ClosingSession.deliver at hx
  cases hl : s.pipe with
  | none =>
    rw [hl] at hx
    exact ok.inj hx ▸ h
  | some l =>
    rw [hl] at hx
    dsimp only at hx
    split at hx
    · exact ok.inj hx ▸ h
    rename_i c rest hc
    have ho := h.orderly l hl
    cases c with
    | activateRead =>
      have hpop := h.pop hl hc fun _ => by rintro ⟨⟩
      have hd := (hpop.orderly _ rfl).delay
      obtain ⟨hturns, hstate⟩ := turns_processActivateRead (x := ({ l with toSession := rest } : SessionPipe GroupMsg).sessionView) hd
      have hwoken := hpop.quietly rfl hturns (fun hs => hpop.asked _ rfl (hstate ▸ hs)) (by
        unfold EndT.readable
        rw [hstate]
        rfl)
      split_ifs at hx
      · exact hwoken.checkRead hx
      · exact ok.inj hx ▸ hwoken
    | hiccup => cases hx
    | pipeTerm =>
      obtain ⟨x, h1, h2⟩ := bind_ok hx
      cases h2
      obtain ⟨hturns, hne, hread, hasked⟩ := @turns_processPipeTerm _ l.sessionView x ho.delay h1
      exact (h.quietly hl hturns (fun hs => h.asked l hl (.inl (hasked hs))) hread).pop rfl hc fun ha => absurd ha hne
    | pipeTermAck =>
      obtain ⟨x, h1, h2⟩ := bind_ok hx
      cases h2
      have hpast : due s.pipe = [] := by
        have hread : l.session.readable = false := by
          unfold EndView.processPipeTermAck at h1
          unfold EndT.readable
          split at h1
          · rename_i hs
            rw [show l.session.state = .termReqSent1 from hs]
            rfl
          · rename_i hs
            rw [show l.session.state = .termAckSent from hs]
            rfl
          · rename_i hs
            rw [show l.session.state = .termReqSent2 from hs]
            rfl
          · cases h1
        rw [hl]
        dsimp only [due]
        rw [hread]
        rfl
      have hpop := h.pop hl hc fun _ => by rintro ⟨⟩
      refine Live.pipeTerminated ?_ ?_
      · exact hpop.forget (by rw [hl] at hpast; exact hpast)
      · exact hk ⟨l, hl, by rw [hc]; rfl⟩

theorem Live.deliverDetached {i : ℕ} (h : Live hand s) (hk : s.Keeps (.deliverDetached i)) (hx : s.deliverDetached i = .ok s') :
    Live hand s' := by
  unfold ClosingSession.deliverDetached at hx
  cases hl : s.terminatingPipes[i]? with
  | none =>
    rw [hl] at hx
    exact ok.inj hx ▸ h
  | some l =>
    rw [hl] at hx
    dsimp only at hx
    split at hx
    · exact ok.inj hx ▸ h
    rename_i c rest hc
    cases c with
    | activateRead => exact ok.inj hx ▸ h.aside
    | hiccup => cases hx
    | pipeTerm =>
      obtain ⟨x, -, h2⟩ := bind_ok hx
      exact ok.inj h2 ▸ h.aside
    | pipeTermAck =>
      obtain ⟨x, -, h2⟩ := bind_ok hx
      cases h2
      exact h.aside.pipeTerminated (hk ⟨l, hl, by rw [hc]; rfl⟩)

theorem putSocket_same (l : SessionPipe GroupMsg) (x : EndView GroupMsg) : (l.putSocket x).session = l.session ∧
    (l.putSocket x).socket = some x.self ∧ (l.putSocket x).toSession = l.toSession ++ x.sent ∧
    ((l.putSocket x).dropped ≠ [] → l.dropped ≠ []) := by
  obtain ⟨inpipe, dropped, h, ⟨-, rfl, rfl⟩ | ⟨old, rest, hd, rfl, -⟩⟩ := l.putSocket_eq x
  · rw [h]
    exact ⟨rfl, rfl, rfl, fun hc => absurd rfl hc⟩
  · rw [h]
    exact ⟨rfl, rfl, rfl, fun _ => by rw [hd]; exact cons_ne_nil _ _⟩

theorem Live.put (written mid : List GroupMsg) (h : Live hand s) (hl : s.pipe = some l) (hp : l.socket = some p)
    (ho : (l.putSocket x).Orderly) (hwritten : s.Shut → written = s.written)
    (hlog : ({ s with written := written } : ClosingSession).Covers hand (due (some (l.putSocket x))))
    (hfresh : s.bound = false → (l.putSocket x).unread = [])
    (hopen : x.self.state.isOpen = true → p.state.isOpen = true)
    (hmid : ¬ s.Shut → x.self.state = .active → x.outpipe.unfinished = mid.map some ∧ (l.dropped ≠ [] → mid = [])) :
    Live hand { s with pipe := some (l.putSocket x), written := written, midway := mid } := by
  obtain ⟨hsession, hsocket, hsent, hdropped⟩ := putSocket_same l x
  refine ⟨h.alive, fun l1 hl1 => ?_, hlog, fun l1 hl1 hs => ?_, fun n l1 hn hl1 ha => ?_, fun hc hb l1 p1 hl1 hp1 => ?_,
    fun hb l1 hl1 => ?_, fun hs l1 p1 hl1 hp1 ha => ?_, fun ht => ?_, h.lines, h.delivered⟩
  · cases hl1
    exact ho
  · cases hl1
    exact h.asked l hl (hsession ▸ hs)
  · cases hl1
    rcases h.term n l hn hl (hsession ▸ ha) with hu | hd | ht
    · exact .inl hu
    · obtain rfl := hwritten (.inr (by rw [show s.term = some n from hn]; rfl))
      exact .inr (.inl hd)
    · refine .inr (.inr ?_)
      rw [hsent]
      exact ((prefix_append _ _).take n).subset ht
  · cases hl1
    cases hsocket.symm.trans hp1
    by_contra hn
    exact nomatch (h.closed hc hb l p hl hp).symm.trans (hopen (by simpa using hn))
  · cases hl1
    exact hfresh hb
  · cases hl1
    cases hsocket.symm.trans hp1
    rw [putSocket_outqueue]
    obtain ⟨hu, hd⟩ := hmid hs ha
    exact ⟨hu, fun hc => hd (hdropped hc)⟩
  · cases hl.symm.trans (h.finished ht)

theorem Live.fills {mid : List GroupMsg} (h : Live hand s) (hl : s.pipe = some l) (hp : l.socket = some p)
    (hx : Fills (l.socketView p) x added) (hadded : added = [] ∨ added = [none] ∧ (l.conflate = true → l.unread = []))
    (hopen : p.state.isOpen = true → x.self.state.isOpen = true ∨ EndCmd.pipeTerm ∈ x.sent)
    (hmid : x.self.state = .active → (mid = s.midway ∧ x.outpipe.unfinished = l.outqueue.unfinished) ∨
      mid = [] ∧ x.outpipe.unfinished = []) : Live hand { s with pipe := some (l.putSocket x), midway := mid } := by
  have horderly := h.orderly l hl
  have hwhole : x.outpipe.whole = l.outqueue.whole ∨ x.outpipe.whole = l.outqueue.whole ++ [none] ∨
      l.conflate = true ∧ l.unread = [] ∧ x.outpipe.whole = [none] := by
    rcases hx.whole with hw | ⟨hc, hne, hw⟩
    · rcases hadded with rfl | ⟨rfl, -⟩
      · exact .inl (hw.trans (append_nil _))
      · exact .inr (.inl hw)
    · obtain ⟨rfl, hnone⟩ := hadded.resolve_left hne
      exact .inr (.inr ⟨hc, hnone hc, hw⟩)
  obtain ⟨ho, hunread⟩ := horderly.fills hp hx (fun hcar => by
    rcases hwhole with hw | hw | ⟨-, -, hw⟩
    · rw [hw]
      exact hcar
    · rw [hw]
      exact hcar.stop
    · rw [hw]
      exact ⟨[], 1, rfl⟩) fun _ => hopen
  have hsame : (l.putSocket x).unread = l.unread := by
    rw [hunread]
    split_ifs with hd
    · have hq := outqueue_nil hd
      rcases hwhole with hw | hw | ⟨-, hnone, hw⟩
      · rw [hw, hq]
        rfl
      · rw [hw, hq, reduceOption_append]
        exact append_nil _
      · rw [hw, hnone]
        rfl
    · rfl
  refine h.put _ mid hl hp ho (fun _ => rfl) ?_ (fun hb => hsame.trans (h.fresh hb l hl)) hx.opens fun hs ha => ?_
  · have hlog := h.log
    rw [hl] at hlog
    dsimp only [due] at hlog ⊢
    rw [(putSocket_same l x).1, hsame]
    exact hlog
  · rcases hmid ha with ⟨rfl, hu⟩ | ⟨rfl, hu⟩
    · obtain ⟨hm, hd⟩ := h.midway hs l p hl hp (hx.active ha).1
      exact ⟨hu.trans hm, hd⟩
    · exact ⟨hu, fun _ => rfl⟩

theorem closed_of_terminates {state : PipeState} (h : Terminates x delay state) : state.isOpen = false := by
  cases h with
  | already h => rcases h with h | h | h <;> rw [h] <;> rfl
  | requests h => rfl
  | drops h hd => rfl
  | waits h hd => rfl

theorem Live.terminate (h : Live hand s) (hk : ∀ l ∈ s.pipe, l.conflate = true → l.unread = [])
    (hx : s.atSocket (·.terminate (·.hasMore) delay) = .ok s') : Live hand { s' with midway := [] } ∧
      (∃ pipe, s' = { s with pipe := pipe }) ∧ ∀ l p, s'.pipe = some l → l.socket = some p → p.state.isOpen = false := by
  unfold ClosingSession.atSocket at hx
  cases hl : s.pipe with
  | none =>
    rw [hl] at hx
    cases hx
    refine ⟨⟨h.alive, h.orderly, h.log, h.asked, h.term, h.closed, h.fresh, fun _ l p hl1 => ?_, h.finished, h.lines, h.delivered⟩,
      ⟨s.pipe, rfl⟩, fun l p hl1 => by cases hl.symm.trans hl1⟩
    cases hl.symm.trans hl1
  | some l =>
    rw [hl] at hx
    obtain ⟨l', h1, h2⟩ := bind_ok hx
    cases h2
    unfold atEnd at h1
    cases hp : l.socket with
    | none =>
      rw [hp] at h1
      cases h1
      refine ⟨⟨h.alive, fun l1 hl1 => h.orderly l1 (hl.trans hl1), ?_, fun l1 hl1 => h.asked l1 (hl.trans hl1),
        fun n l1 hn hl1 => h.term n l1 hn (hl.trans hl1), fun hc hb l1 p hl1 => h.closed hc hb l1 p (hl.trans hl1),
        fun hb l1 hl1 => h.fresh hb l1 (hl.trans hl1), fun _ l1 p hl1 hp1 => ?_, fun ht => ?_, h.lines, h.delivered⟩,
        ⟨some l, rfl⟩, fun l1 p hl1 hp1 => ?_⟩
      · have hlog := h.log
        rw [hl] at hlog
        exact hlog
      · cases hl1
        cases hp.symm.trans hp1
      · cases hl.symm.trans (h.finished ht)
      · cases hl1
        cases hp.symm.trans hp1
    | some p =>
      rw [hp] at h1
      obtain ⟨x, h3, h4⟩ := bind_ok h1
      cases h4
      obtain ⟨hterm, -, -, -, hsent⟩ := terminate_spec h3
      have hclosed := closed_of_terminates hterm
      have hnot : x.self.state ≠ .active := fun ha => by
        rw [ha] at hclosed
        cases hclosed
      have hsingle : (l.socketView p).conflate = true → (l.socketView p).outpipe.complete = [] := fun hc =>
        ((h.orderly l hl).single hc).1
      refine ⟨?_, ⟨_, rfl⟩, fun l1 p1 hl1 hp1 => ?_⟩
      · rcases fills_terminate hsingle h3 with hx | hx
        · exact h.fills hl hp hx (.inl rfl) (fun ho => .inr (hsent ho)) fun ha => absurd ha hnot
        · exact h.fills hl hp hx (.inr ⟨rfl, hk l hl⟩) (fun ho => .inr (hsent ho)) fun ha => absurd ha hnot
      · cases hl1
        cases (putSocket_same l x).2.1.symm.trans hp1
        exact hclosed

theorem atSocket_pipe (hx : s.atSocket f = .ok s') : ∃ pipe, s' = { s with pipe := pipe } := by
  unfold ClosingSession.atSocket at hx
  cases hl : s.pipe with
  | none =>
    rw [hl] at hx
    exact ⟨s.pipe, (ok.inj hx).symm⟩
  | some l =>
    rw [hl] at hx
    obtain ⟨l', -, h2⟩ := bind_ok hx
    exact ⟨some l', (ok.inj h2).symm⟩

theorem Live.atSocket (mid : List GroupMsg) (h : Live hand s)
    (hf : ∀ x x', f x = .ok x' → Fills x x' [] ∧ (x.self.state.isOpen = true → x'.self.state.isOpen = true) ∧
      (x'.self.state = .active → x'.self.outpipe = true →
        (mid = s.midway ∧ x'.outpipe.unfinished = x.outpipe.unfinished) ∨ mid = [] ∧ x'.outpipe.unfinished = []))
    (hx : s.atSocket f = .ok s') : Live hand { s' with midway := mid } := by
  unfold ClosingSession.atSocket at hx
  cases hl : s.pipe with
  | none =>
    rw [hl] at hx
    cases hx
    refine ⟨h.alive, h.orderly, h.log, h.asked, h.term, h.closed, h.fresh, fun _ l p hl1 => ?_, h.finished, h.lines, h.delivered⟩
    cases hl.symm.trans hl1
  | some l =>
    rw [hl] at hx
    obtain ⟨l', h1, h2⟩ := bind_ok hx
    cases h2
    unfold atEnd at h1
    cases hp : l.socket with
    | none =>
      rw [hp] at h1
      cases h1
      rw [← hl]
      refine ⟨h.alive, h.orderly, h.log, h.asked, h.term, h.closed, h.fresh, fun _ l1 p hl1 hp1 => ?_, h.finished, h.lines,
        h.delivered⟩
      cases hl.symm.trans hl1
      cases hp.symm.trans hp1
    | some p =>
      rw [hp] at h1
      obtain ⟨x, h3, h4⟩ := bind_ok h1
      cases h4
      obtain ⟨hfills, hopen, hmid⟩ := hf _ _ h3
      refine h.fills hl hp hfills (.inl rfl) (fun ho => .inl (hopen ho)) fun ha => hmid ha ?_
      obtain ⟨hactive, hsame, -⟩ := hfills.active ha
      exact hsame.trans ((h.orderly l hl).writer p hp hactive).1

theorem write_spec (ho : l.Orderly) (hp : l.socket = some p) (hk : l.conflate = true → m.hasMore = false ∧ l.unread = [])
    (hx : (l.socketView p).write (·.hasMore) m room = (true, x)) : p.state = .active ∧ x.self = p ∧ (l.putSocket x).Orderly ∧
    (m.hasMore = true → x.outpipe.unfinished = l.outqueue.unfinished ++ [some m] ∧ (l.putSocket x).unread = l.unread) ∧
    (m.hasMore = false → x.outpipe.unfinished = [] ∧ (l.putSocket x).unread =
      if l.dropped = [] then l.unread ++ l.outqueue.unfinished.reduceOption ++ [m] else l.unread) := by
  rcases write_cases (fun m : GroupMsg => m.hasMore) (l.socketView p) m room with hw | ⟨hactive, hw⟩
  · cases hw.symm.trans hx
  cases hw.symm.trans hx
  obtain ⟨-, hnone, -⟩ := ho.writer p hp hactive
  have hself : ((l.socketView p).put (some m) m.hasMore).self = p := rfl
  -- whatever is there afterwards, no delimiter is
  have hgo : ∀ added, Fills (l.socketView p) ((l.socketView p).put (some m) m.hasMore) added →
      none ∉ ((l.socketView p).put (some m) m.hasMore).outpipe.whole →
      (l.putSocket ((l.socketView p).put (some m) m.hasMore)).Orderly ∧
        (l.putSocket ((l.socketView p).put (some m) m.hasMore)).unread = if l.dropped = [] then
          ((l.socketView p).put (some m) m.hasMore).outpipe.whole.reduceOption else l.unread := fun added hf hn =>
    ho.fills hp hf (fun _ => carried_of_not_mem hn) fun _ hopen => .inl hopen
  refine ⟨hactive, hself, ?_⟩
  by_cases hc : l.conflate = true
  · obtain ⟨hmore, hunread⟩ := hk hc
    obtain ⟨hcomplete, hunf⟩ := ho.single hc
    have hput : ((l.socketView p).put (some m) m.hasMore).outpipe = { l.outqueue with ready := [some m] } := by
      unfold put
      rw [if_pos (show (l.socketView p).conflate = true from hc)]
      rfl
    have hwhole : ((l.socketView p).put (some m) m.hasMore).outpipe.whole = [some m] := by
      rw [hput]
      dsimp only
      rw [hcomplete]
      rfl
    obtain ⟨horderly, hun⟩ := hgo [some m] ⟨rfl, .inr ⟨hc, cons_ne_nil _ _, hwhole⟩,
      fun f hf => (by rw [hput] at hf; exact .inl hf), fun h => ⟨h, rfl, by simp⟩, id,
      fun _ h => by rw [hput]; exact h⟩ (by rw [hwhole]; simp)
    refine ⟨horderly, fun hc => (by cases hmore.symm.trans hc), fun _ => ⟨by rw [hput]; exact hunf, ?_⟩⟩
    rw [hun, hwhole, hunread, hunf]
    rfl
  · have hput : ((l.socketView p).put (some m) m.hasMore).outpipe = l.outqueue.write (some m) m.hasMore := by
      unfold put
      rw [if_neg (show ¬ (l.socketView p).conflate = true from hc)]
      rfl
    cases hmore : m.hasMore with
    | true =>
      rw [hmore] at hput hgo
      have hwhole : ((l.socketView p).put (some m) true).outpipe.whole = l.outqueue.whole := by
        rw [hput]
        rfl
      have hsome : ∀ f ∈ ((l.socketView p).put (some m) true).outpipe.unfinished,
          f ∈ (l.socketView p).outpipe.unfinished ∨ f ≠ none := fun f hf => by
        rw [hput] at hf
        exact (mem_append.mp hf).imp_right fun hm => by rw [mem_singleton.mp hm]; exact some_ne_none m
      obtain ⟨horderly, hun⟩ := hgo [] ⟨rfl, .inl (hwhole.trans (append_nil _).symm), hsome,
        fun h => ⟨h, rfl, not_mem_nil⟩, id, fun h => absurd h hc⟩ (by rw [hwhole]; exact hnone)
      refine ⟨horderly, fun _ => ⟨by rw [hput]; rfl, ?_⟩, nofun⟩
      rw [hun]
      split_ifs with hd
      · rw [hwhole, outqueue_nil hd]
        rfl
      · rfl
    | false =>
      rw [hmore] at hput hgo
      have hwhole : ((l.socketView p).put (some m) false).outpipe.whole =
          l.outqueue.whole ++ (l.outqueue.unfinished ++ [some m]) := by
        rw [hput]
        change l.outqueue.ready ++ (l.outqueue.complete ++ l.outqueue.unfinished ++ [some m]) = _
        unfold Staged.whole
        simp only [append_assoc]
      have hnew : none ∉ l.outqueue.unfinished ++ [some m] := fun hn => by
        rcases mem_append.mp hn with hn | hn
        · exact ho.unfinished hn
        · cases mem_singleton.mp hn
      have hsome : ∀ f ∈ ((l.socketView p).put (some m) false).outpipe.unfinished,
          f ∈ (l.socketView p).outpipe.unfinished ∨ f ≠ none := fun f hf => by
        rw [hput] at hf
        exact nomatch hf
      obtain ⟨horderly, hun⟩ := hgo _ ⟨rfl, .inl hwhole, hsome, fun h => ⟨h, rfl, hnew⟩, id, fun h => absurd h hc⟩ (by
        rw [hwhole]
        exact fun hn => (mem_append.mp hn).elim hnone hnew)
      refine ⟨horderly, nofun, fun _ => ⟨by rw [hput]; rfl, ?_⟩⟩
      rw [hun]
      split_ifs with hd
      · rw [hwhole, reduceOption_append, reduceOption_append, append_assoc, outqueue_nil hd]
        rfl
      · rfl

theorem Live.readable (h : Live hand s) (hs : ¬ s.Shut) (hl : s.pipe = some l) (hp : l.socket = some p) (ha : p.state = .active) :
    l.session.readable = true := by
  obtain ⟨-, -, hdr, hta⟩ := (h.orderly l hl).writer p hp ha
  have hreq := fun hc => hs (h.asked l hl hc)
  unfold EndT.readable
  cases hstate : l.session.state with
  | active => rfl
  | waitingForDelimiter => rfl
  | delimiterReceived => exact absurd hstate hdr
  | termAckSent => exact absurd hstate hta
  | termReqSent1 => exact absurd (.inl hstate) hreq
  | termReqSent2 => exact absurd (.inr hstate) hreq

theorem reduceOption_map_some (ms : List GroupMsg) : (ms.map some).reduceOption = ms := by
  induction ms with
  | nil => rfl
  | cons m ms ih => rw [map_cons, reduceOption_cons_of_some, ih]

theorem Live.writeSocket (h : Live hand s) (hb : s.bound = true) (hk : s.Keeps (.write m room)) :
    Live hand (s.writeSocket m room) := by
  unfold ClosingSession.writeSocket
  cases hl : s.pipe with
  | none => exact h
  | some l =>
    dsimp only
    cases hp : l.socket with
    | none => exact h
    | some p =>
      dsimp only
      cases hx : (l.socketView p).write (·.hasMore) m room with
      | mk taken x =>
        split_ifs with ht
        swap
        · exact h
        subst ht
        obtain ⟨hdropped, hconf⟩ := hk l hl
        obtain ⟨hactive, hself, horderly, hbegun, hcomplete⟩ := write_spec (h.orderly l hl) hp hconf hx
        have hopen : x.self.state.isOpen = true → p.state.isOpen = true := fun ho => hself ▸ ho
        have hfresh : s.bound = false → (l.putSocket x).unread = [] := fun hc => by cases hb.symm.trans hc
        have hlog := h.log
        rw [hl] at hlog
        obtain ⟨more, hmore, hshut⟩ := hlog
        have hread : (l.putSocket x).session.readable = l.session.readable := congrArg EndT.readable (putSocket_same l x).1
        unfold record
        by_cases hs : s.Shut
        · -- what is written now does not count, and comes after what does
          rw [if_pos hs]
          refine h.put s.written s.midway hl hp horderly (fun _ => rfl) ?_ hfresh hopen
            fun hn => absurd hs hn
          have hnew : ∃ new, (l.putSocket x).unread = l.unread ++ new := by
            cases hmm : m.hasMore with
            | true => exact ⟨[], (hbegun hmm).2.trans (append_nil _).symm⟩
            | false =>
              rw [(hcomplete hmm).2]
              split_ifs
              · exact ⟨_, append_assoc _ _ _⟩
              · exact ⟨[], (append_nil _).symm⟩
          obtain ⟨new, hnew⟩ := hnew
          refine ⟨more ++ if l.session.readable then new else [], ?_, fun hn => absurd hs hn⟩
          dsimp only [due] at hmore ⊢
          rw [hread, hnew]
          rw [← append_assoc, ← hmore]
          split_ifs
          · simp only [append_assoc]
          · simp only [append_nil]
        rw [if_neg hs]
        have hnone := hdropped hs
        obtain ⟨hmid, -⟩ := h.midway hs l p hl hp hactive
        have hr := h.readable hs hl hp hactive
        dsimp only [due] at hmore
        rw [hr, if_pos rfl] at hmore
        rw [hr] at hread
        cases hmm : m.hasMore with
        | true =>
          obtain ⟨hunf, hun⟩ := hbegun hmm
          refine h.put s.written (s.midway ++ [m]) hl hp horderly (fun hc => absurd hc hs) ⟨more, ?_, hshut⟩ hfresh hopen
            fun _ _ => ⟨?_, ?_⟩
          · dsimp only [due]
            rw [hread, hun]
            exact hmore
          · rw [hunf, hmid, map_append]
            rfl
          · exact fun hc => absurd hnone hc
        | false =>
          obtain ⟨hunf, hun⟩ := hcomplete hmm
          refine h.put (s.written ++ s.midway ++ [m]) [] hl hp horderly (fun hc => absurd hc hs) ⟨more, ?_, hshut⟩ hfresh hopen
            fun _ _ => ⟨hunf, fun _ => rfl⟩
          dsimp only [due]
          rw [hread, if_pos rfl, hun, if_pos hnone, hmid, reduceOption_map_some, hshut hs, append_nil]
          rw [hshut hs, append_nil] at hmore
          change s.pulled ++ hand ++ s.pendingMsg.toList ++ _ = s.written ++ s.midway ++ [m]
          rw [← hmore]
          simp only [append_assoc]

theorem Live.deliverSocket (h : Live hand s) (hb : s.bound = true) (hx : s.deliverSocket = .ok s') : Live hand s' := by
  unfold ClosingSession.deliverSocket at hx
  cases hl : s.pipe with
  | none =>
    rw [hl] at hx
    exact ok.inj hx ▸ h
  | some l =>
    rw [hl] at hx
    obtain ⟨l', h1, h2⟩ := bind_ok hx
    cases h2
    obtain ⟨horderly, hunread, hsession, hsent, -, hqueue, hsocket⟩ := (h.orderly l hl).deliverSocket h1
    refine ⟨h.alive, fun l1 hl1 => ?_, ?_, fun l1 hl1 hs => ?_, fun n l1 hn hl1 ha => ?_, fun hc hb l1 p1 hl1 hp1 => ?_,
      fun hc l1 hl1 => ?_, fun hs l1 p1 hl1 hp1 ha => ?_, fun ht => ?_, h.lines, h.delivered⟩
    · cases hl1
      exact horderly
    · have hlog := h.log
      rw [hl] at hlog
      dsimp only [due] at hlog ⊢
      rw [hsession, hunread]
      exact hlog
    · cases hl1
      exact h.asked l hl (hsession ▸ hs)
    · cases hl1
      rcases h.term n l hn hl (hsession ▸ ha) with hu | hd | ht
      · exact .inl hu
      · exact .inr (.inl hd)
      · exact .inr (.inr ((hsent.take n).subset ht))
    · cases hl1
      obtain ⟨p, hp, -, hopen⟩ := hsocket p1 hp1
      by_contra hn
      exact nomatch (h.closed hc hb l p hl hp).symm.trans (hopen (by simpa using hn))
    · cases hb.symm.trans hc
    · cases hl1
      obtain ⟨p, hp, hactive, -⟩ := hsocket p1 hp1
      obtain ⟨hmid, hdropped⟩ := h.midway hs l p hl hp (hactive ha)
      rcases hqueue with ⟨hd, hq⟩ | ⟨old, hd, hq⟩
      · rw [hq p hp (hactive ha), hd]
        exact ⟨hmid, hdropped⟩
      · -- nothing has been begun when the socket comes to the next queue
        have hnil := hdropped (by rw [hd]; exact cons_ne_nil _ _)
        rw [hq, hnil]
        exact ⟨rfl, fun _ => rfl⟩
    · cases hl.symm.trans (h.finished ht)

theorem Live.close (h : Live hand s) (hk : s.Keeps .close) (hx : s.close = .ok s') : Live hand s' := by
  obtain ⟨s1, h1, hx⟩ := bind_ok hx
  obtain ⟨pipes, -, hx⟩ := bind_ok hx
  cases hx
  have hs1 : Live hand { s1 with midway := [] } ∧ s1.bound = s.bound ∧ (s1.bound = true → ∀ l p, s1.pipe = some l →
      l.socket = some p → p.state.isOpen = false) ∨ s1 = s ∧ s.bound = false := by
    by_cases hb : s.bound = true
    · rw [if_pos hb] at h1
      obtain ⟨hlive, ⟨pipe, rfl⟩, hclosed⟩ := h.terminate hk h1
      exact .inl ⟨hlive, rfl, fun _ => hclosed⟩
    · rw [if_neg hb] at h1
      exact .inr ⟨(ok.inj h1).symm, Bool.eq_false_of_not_eq_true hb⟩
  have hany : ∀ mid, Live hand { s1 with midway := mid } →
      (s1.bound = true → ∀ l p, s1.pipe = some l → l.socket = some p → p.state.isOpen = false) →
      Live hand { s1 with closed := true, terminatingPipes := pipes } := by
    intro mid hl hclosed
    have hcovers : ∀ d, ({ s1 with midway := mid } : ClosingSession).Covers hand d →
        ({ s1 with closed := true, terminatingPipes := pipes } : ClosingSession).Covers hand d := by
      rintro d ⟨rest, hrest, -⟩
      exact ⟨rest, hrest, fun hn => absurd (.inl rfl) hn⟩
    refine ⟨hl.alive, hl.orderly, hcovers _ hl.log, fun _ _ _ => .inl rfl, fun n l hn hl1 ha => ?_, fun _ => hclosed, hl.fresh,
      fun hn => absurd (.inl rfl) hn, hl.finished, hl.lines, hl.delivered⟩
    exact (hl.term n l hn hl1 ha).imp_right (Or.imp_left (hcovers _))
  rcases hs1 with ⟨hlive, -, hclosed⟩ | ⟨rfl, hb⟩
  · exact hany [] hlive hclosed
  · exact hany s1.midway h fun hc => by cases hb.symm.trans hc

theorem Live.sendTerm (mid : List GroupMsg) (h : Live hand { s with midway := mid }) : Live hand s.sendTerm := by
  have hshut : s.sendTerm.Shut := .inr rfl
  have hcovers : ∀ d, ({ s with midway := mid } : ClosingSession).Covers hand d → s.sendTerm.Covers hand d := by
    rintro d ⟨rest, hrest, -⟩
    exact ⟨rest, hrest, fun hn => absurd hshut hn⟩
  refine ⟨h.alive, h.orderly, hcovers _ h.log, fun _ _ _ => hshut, fun n l hn hl ha => ?_, h.closed, h.fresh,
    fun hn => absurd hshut hn, h.finished, h.lines, h.delivered⟩
  have hl' : s.pipe = some l := hl
  have hn' : some (s.pipe.elim 0 (·.toSession.length)) = some n := hn
  rw [hl'] at hn'
  cases hn'
  rcases (h.orderly l hl).told ha with ht | ⟨p, hp, hopen⟩
  · refine .inr (.inr ?_)
    rw [show (some l : Option (SessionPipe GroupMsg)).elim 0 (·.toSession.length) = l.toSession.length from rfl, take_length]
    exact ht
  · by_cases hb : s.bound = true
    · exact .inl (decide_eq_true ⟨hb, l, hl', p, hp, hopen⟩)
    · -- the socket has not got the pipe, and has not written anything
      have hlog := hcovers _ h.log
      rw [show ({ s with midway := mid } : ClosingSession).pipe = some l from hl] at hlog
      dsimp only [due] at hlog
      rw [h.fresh (Bool.eq_false_of_not_eq_true hb) l hl, ite_self] at hlog
      exact .inr (.inl hlog)

theorem Live.disconnect (h : Live hand s) (hk : s.Keeps .disconnect) (hx : s.disconnect = .ok s') : Live hand s' := by
  obtain ⟨s1, h1, hx⟩ := bind_ok hx
  cases hx
  by_cases hl : s.listed = true
  · rw [if_pos hl] at h1
    exact Live.sendTerm [] (h.terminate (hk hl) h1).1
  · rw [if_neg hl] at h1
    cases h1
    exact Live.sendTerm s.midway h

theorem Live.bind (h : Live hand s) (hb : s.bound = false) (hx : s.bind = .ok s') : Live hand s' := by
  unfold ClosingSession.bind at hx
  by_cases hc : s.closed = true
  · rw [if_pos hc] at hx
    have hempty : ∀ l ∈ s.pipe, l.conflate = true → l.unread = [] := fun l hl _ => h.fresh hb l hl
    have hsame : ∃ s1, s.atSocket (·.terminate (·.hasMore) false) = .ok s1 ∧ s' = { s1 with bound := true } := by
      unfold ClosingSession.atSocket at hx ⊢
      cases hl : s.pipe with
      | none =>
        rw [hl] at hx
        refine ⟨s, rfl, ?_⟩
        rw [hl]
        exact (ok.inj hx).symm
      | some l =>
        rw [hl] at hx
        obtain ⟨l', h1, h2⟩ := bind_ok hx
        refine ⟨{ s with pipe := some l' }, ?_, (ok.inj h2).symm⟩
        dsimp only [bind, bind]
        rw [h1]
        rfl
    obtain ⟨s1, h1, rfl⟩ := hsame
    obtain ⟨hlive, ⟨pipe, rfl⟩, hclosed⟩ := h.terminate hempty h1
    exact ⟨hlive.alive, hlive.orderly, hlive.log, hlive.asked, hlive.term, fun _ _ => hclosed, nofun,
      fun hn => absurd (.inl hc) hn, hlive.finished, hlive.lines, hlive.delivered⟩
  · rw [if_neg hc] at hx
    cases hx
    exact ⟨h.alive, h.orderly, h.log, h.asked, h.term, fun hc' => absurd hc' hc, nofun, h.midway, h.finished,
      h.lines, h.delivered⟩

theorem Live.read (h : Live hand s) (hx : s.atSocket (fun x => do return (← x.read).2) = .ok s') : Live hand s' := by
  have hf : ∀ x x' : EndView GroupMsg, (do return (← x.read).2 : Except Fault _) = .ok x' → Fills x x' [] ∧
      (x.self.state.isOpen = true → x'.self.state.isOpen = true) ∧ (x'.self.state = .active → x'.self.outpipe = true →
        (s.midway = s.midway ∧ x'.outpipe.unfinished = x.outpipe.unfinished) ∨ s.midway = [] ∧ x'.outpipe.unfinished = []) := by
    intro x x' hx
    obtain ⟨⟨r, x1⟩, h1, h2⟩ := bind_ok hx
    cases h2
    obtain ⟨hfills, hopen⟩ := fills_read h1
    refine ⟨hfills, hopen, fun _ _ => .inl ⟨rfl, ?_⟩⟩
    unfold EndView.read at h1
    split_ifs at h1
    · cases h1
      rfl
    · split at h1
      · cases h1
        rfl
      · obtain ⟨x2, h3, h4⟩ := bind_ok h1
        cases h4
        exact congrArg Staged.unfinished (processDelimiter_spec h3).2.1
      · cases h1
        rfl
  obtain ⟨pipe, rfl⟩ := atSocket_pipe hx
  exact h.atSocket s.midway hf hx

theorem Live.flushSocket (h : Live hand s) (hx : s.atSocket (fun x => .ok x.flush) = .ok s') : Live hand s' := by
  have hf : ∀ x x' : EndView GroupMsg, (.ok x.flush : Except Fault _) = .ok x' → Fills x x' [] ∧
      (x.self.state.isOpen = true → x'.self.state.isOpen = true) ∧ (x'.self.state = .active → x'.self.outpipe = true →
        (s.midway = s.midway ∧ x'.outpipe.unfinished = x.outpipe.unfinished) ∨ s.midway = [] ∧ x'.outpipe.unfinished = []) := by
    intro x x' hx
    cases hx
    refine ⟨fills_flush x, fun ho => ?_, fun _ _ => .inl ⟨rfl, (flush_whole x).2.1⟩⟩
    rw [(flush_self x).1]
    exact ho
  obtain ⟨pipe, rfl⟩ := atSocket_pipe hx
  exact h.atSocket s.midway hf hx

theorem Live.rollback (h : Live hand s) (hx : s.atSocket (·.rollback (·.hasMore)) = .ok s') : Live hand { s' with midway := [] } := by
  refine h.atSocket [] (fun x x' hx => ⟨fills_rollback hx, fun ho => ?_, fun _ ho => .inr ⟨rfl, ?_⟩⟩) hx
  · rcases rollback_cases hx with rfl | rfl <;> exact ho
  · unfold EndView.rollback at hx
    split_ifs at hx with hc
    · cases hx
      rw [ho] at hc
      cases hc
    · exact ok.inj hx ▸ rfl

theorem Live.act {op : Op} (h : Live [] s) (hr : s.Ready op) (hk : s.Keeps op) (hg : ¬ s.GivesUp op) (hne : op ≠ .destroy)
    (hx : s.act op = .ok s') : Live [] s' := by
  obtain ⟨-, hr⟩ := hr
  cases op with
  | write m room => exact ok.inj hx ▸ h.writeSocket hr.1 hk
  | flushSocket => exact h.flushSocket hx
  | rollback =>
    obtain ⟨s1, h1, h2⟩ := bind_ok hx
    exact ok.inj h2 ▸ h.rollback h1
  | read => exact h.read hx
  | terminate delay =>
    obtain ⟨s1, h1, h2⟩ := bind_ok hx
    exact ok.inj h2 ▸ (h.terminate hk h1).1
  | deliverSocket => exact h.deliverSocket hr hx
  | writeDetached i m room =>
    cases hx
    unfold ClosingSession.writeDetached
    split
    · exact h
    · rename_i l hl
      split
      · exact h
      · rename_i p hp
        rcases write_cases (fun m : GroupMsg => m.hasMore) (l.socketView p) m room with hw | ⟨ha, hw⟩
        · rw [hw]
          exact h
        · rw [hw]
          have hs : s.Shut := hk.resolve_right fun hc => hc l hl p hp ha
          unfold record
          rw [if_pos hs]
          exact h.aside
  | deliverSocketDetached i =>
    change s.deliverSocketDetached i = .ok s' at hx
    unfold ClosingSession.deliverSocketDetached at hx
    split at hx
    · exact ok.inj hx ▸ h
    · obtain ⟨l', -, h2⟩ := bind_ok hx
      exact ok.inj h2 ▸ h.aside
  | bind => exact h.bind hr hx
  | close => exact h.close hk hx
  | disconnect => exact h.disconnect hk hx
  | sendTerm => exact ok.inj hx ▸ Live.sendTerm s.midway h
  | deliver => exact h.deliver hk hx
  | deliverDetached i => exact h.deliverDetached hk hx
  | processTerm => exact h.processTerm hr.1 hk hx
  | attach => exact ok.inj hx ▸ h.processAttach (isNone_iff_eq_none.mp hr.2)
  | greet bytes =>
    cases hx
    cases he : s.engine with
    | none =>
      rw [he] at hr
      cases hr
    | some line =>
      rw [he] at hr
      refine h.engine he ((h.line he).greet (isNone_iff_eq_none.mp hr) bytes) ?_
      rw [append_nil]
      rfl
  | begin kind identity =>
    unfold ClosingSession.act at hx
    cases he : s.engine with
    | none =>
      rw [he] at hx
      exact ok.inj hx ▸ h
    | some line =>
      rw [he] at hx hr
      obtain ⟨line', h1, h2⟩ := bind_ok hx
      cases h2
      obtain ⟨hs, hloads⟩ := (h.line he).begin (isNone_iff_eq_none.mp hr) (orStop_ok h1)
      exact h.engine he hs (by rw [Line.pulled_same hloads, append_nil])
  | outEvent asks nbytes => exact h.outEvent hx
  | push m room => exact ok.inj hx ▸ h.pushMsg
  | flush => exact ok.inj hx ▸ h.flush
  | engineError reason => exact h.engineError hg hk hx
  | zapOpened => exact ok.inj hx ▸ h.aside
  | zapTerminated => exact ok.inj hx ▸ h.aside.pipeTerminated hk
  | destroy => exact absurd rfl hne

structure Closed (s : ClosingSession) : Prop where
  destroyed : s.destroyed = true
  written : s.written <+: s.ended.flatMap Line.pulled
  delivered : ∀ line ∈ s.ended, line.pulled ≠ [] → line.Delivered

theorem Live.destroy (h : Live [] s) (ht : s.terminating = true) (hk : s.Keeps .destroy) :
    Closed { s.endEngine with destroyed := true } := by
  obtain ⟨hspent, hp⟩ := hk
  have hlast := h.endEngine hspent
  refine ⟨rfl, ?_, hlast.delivered⟩
  obtain ⟨rest, hrest, -⟩ := hlast.log
  rw [show s.endEngine.pendingMsg = none from hp, show s.endEngine.pipe = none from h.finished ht] at hrest
  unfold ClosingSession.pulled at hrest
  rw [show s.endEngine.engine.toList = [] from rfl] at hrest
  simp only [toList_none, append_nil, due] at hrest
  exact ⟨rest, hrest.symm⟩

def Sound (s : ClosingSession) : Prop := s.lost = true ∨ Live [] s ∨ Closed s

theorem new_live (options : ClosingOptions) (active : Bool) : Live [] (new options active) := by
  have hpipe : ∀ l, (new options active).pipe = some l → l = SessionPipe.new options.conflate := fun l hl => by
    unfold new at hl
    split_ifs at hl
    exact (some.inj hl).symm
  refine ⟨rfl, fun l hl => ?_, ⟨[], ?_, fun _ => rfl⟩, fun l hl hs => ?_, fun n l hn => (by cases hn), nofun,
    nofun, fun _ l p hl _ _ => ?_, nofun, fun one hone => ?_, fun one hone => ?_⟩
  · rw [hpipe l hl]
    exact new_orderly _
  · have hdue : due (new options active).pipe = [] := by
      unfold new
      split_ifs <;> rfl
    rw [hdue]
    rfl
  · rw [hpipe l hl] at hs
    rcases hs with hs | hs <;> cases hs
  · rw [hpipe l hl]
    exact ⟨rfl, fun hd => absurd rfl hd⟩
  · exact nomatch hone
  · exact nomatch hone

theorem Sound.step {op : Op} (h : Sound s) (hk : s.Keeps op) (hr : s.Ready op) (hx : s.run op = .ok s') : Sound s' := by
  obtain ⟨s1, h1, h2⟩ := bind_ok hx
  cases h2
  by_cases hlost : (s.lost || decide (s.GivesUp op)) = true
  · exact .inl hlost
  rw [Bool.or_eq_true, not_or, decide_eq_true_eq] at hlost
  rcases h.resolve_left hlost.1 with hlive | hclosed
  · right
    by_cases hop : op = .destroy
    · subst hop
      cases h1
      have hend := hlive.destroy hr.2 hk
      exact .inr ⟨hend.destroyed, hend.written, hend.delivered⟩
    · have hact := hlive.act hr hk hlost.2 hop h1
      exact .inl ⟨hact.alive, hact.orderly, hact.log, hact.asked, hact.term, hact.closed, hact.fresh, hact.midway, hact.finished,
        hact.lines, hact.delivered⟩
  · exact nomatch hr.1.symm.trans hclosed.destroyed

theorem run_sound {ops : List Op} (h : Run Start (Guarded Keeps Step) ops s) : Sound s := by
  refine h.invariant Sound (fun s hs => ?_) fun s op s' hi hs => hi.step hs.1 hs.2.1 hs.2.2
  obtain ⟨options, active, rfl⟩ := hs
  exact .inr (.inl (new_live options active))

/-- When the session is no more, and not for an error of its last connection, the engines have pulled all messages that the
socket has written before it was closed, and the encoding of all that an engine has pulled has been accepted. -/
theorem closing_loses_nothing {ops : List Op} (h : Run Start (Guarded Keeps Step) ops s) (hd : s.destroyed = true)
    (hl : s.lost = false) : s.written <+: s.ended.flatMap Line.pulled ∧ ∀ line ∈ s.ended, line.pulled ≠ [] → line.Delivered := by
  rcases run_sound h with hlost | hlive | hclosed
  · cases hl.symm.trans hlost
  · cases hlive.alive.symm.trans hd
  · exact ⟨hclosed.written, hclosed.delivered⟩

def connected : ClosingSession := new ⟨false, false, false, false, false, true⟩ true

/-- A message of two frames is written and the socket is closed, before the engine has pulled anything; the last `tcp_write`
returns `nbytes`. -/
def closeEarly (nbytes : ℕ) : List Op :=
  [.attach, .greet [255, 127], .outEvent [] (some 2), .begin .v2 none, .write (.ofData [7] Msg.more) true,
    .write (.ofData [8, 9] 0) true, .flushSocket, .close, .sendTerm, .deliver, .processTerm,
    .outEvent [.pull id, .pull id, .pull id] (some nbytes), .deliverSocket, .deliver, .destroy]

theorem closing_loses_nothing_early : ∃ s, Run Start (Guarded Keeps Step) (closeEarly 7) s ∧
    s.written = [.ofData [7] Msg.more, .ofData [8, 9] 0] ∧ s.ended.map Line.accepted = [[255, 127, 1, 1, 7, 0, 2, 8, 9]] ∧
    s.written <+: s.ended.flatMap Line.pulled ∧ ∀ line ∈ s.ended, line.pulled ≠ [] → line.Delivered :=
  exists_run (P := fun s => s.destroyed = true ∧ s.lost = false ∧ s.written = [.ofData [7] Msg.more, .ofData [8, 9] 0] ∧
      s.ended.map Line.accepted = [[255, 127, 1, 1, 7, 0, 2, 8, 9]]) (⟨_, _, rfl⟩ : Start connected) (by decide +kernel)
    fun _ hrun ⟨hd, hl, hw, ha⟩ => ⟨hw, ha, closing_loses_nothing hrun hd hl⟩

/-- The delimiter has been read together with the message, of which the socket has not accepted a byte when the engine is
terminated. -/
theorem closing_can_lose : ∃ s, Run Start (Guarded free Step) (closeEarly 0) s ∧ s.destroyed = true ∧ s.lost = false ∧
    ¬ (s.written <+: s.ended.flatMap Line.pulled ∧ ∀ line ∈ s.ended, line.pulled ≠ [] → line.Delivered) :=
  exists_run (P := fun s => s.destroyed = true ∧ s.lost = false ∧ ¬ ∀ line ∈ s.ended, line.pulled ≠ [] → line.Delivered)
    (⟨_, _, rfl⟩ : Start connected) (by decide +kernel) fun _ _ ⟨hd, hl, hs⟩ => ⟨hd, hl, fun hc => hs hc.2⟩

end ClosingSession

end Zmq
