import LibZmq.Sockets.RequestReply

/-! What REQ writes to its pipes. Each complete message is to be an envelope and the frames of one request, whatever
pipes do between two frames. -/

namespace Zmq

open Option Bool Prod

open Function (update update_eq_self update_of_ne update_self)

theorem Outlet.accept_checkWrite {o : Outlet} {m : Msg} (hm : m.hasMore = true) :
    (o.accept m).self.checkWrite = o.self.checkWrite := by
  have hc : PipeT.counted m = false := by simp [PipeT.counted, hm]
  simp [Outlet.accept, hc]

namespace Outlet

/-- What the reading of a delimiter does to the end. -/
def delimited (o : Outlet) : Outlet where
  self := match o.self.state with
    | .active => { o.self with state := .delimiterReceived }
    | .waitingForDelimiter => { o.self with outpipe := none, state := .termAckSent }
    | _ => o.self
  out := o.out

variable {o : Outlet}

theorem delimited_drifts : Drifts o o.delimited := by
  unfold delimited
  cases hs : o.self.state with
  | active => exact drifts_of_keep (.inl rfl) (.inl rfl) (.inr PipeState.noConfusion)
  | waitingForDelimiter =>
    exact drifts_of_keep (.inl rfl) (.inr ⟨rfl, PipeState.noConfusion⟩) (.inr PipeState.noConfusion)
  | _ => exact drifts_of_keep (.inl rfl) (.inl rfl) (.inl rfl)

end Outlet

namespace LbT

variable {P : Type} [DecidableEq P] {lb : LbT P} {w : P → Outlet} {p : P} {m : Msg} {n : ℕ}

/-- The pipe that `has_out` stops at, outside of a message. -/
def next (lb : LbT P) (w : P → Outlet) : Option P :=
  match Rota.find Outlet.checkWrite lb.active lb.toRota w with
  | .ok (true, r, _) => r.pipes.get r.current
  | _ => none

def taken (o : Outlet) (m : Msg) : Outlet := if m.hasMore then o.accept m else (o.accept m).flush

theorem sendLoop_find (h : lb.Wf) (hm : lb.more = false) (hn : lb.active = n) :
    (∃ r w', Rota.find Outlet.checkWrite n lb.toRota w = .ok (false, r, w') ∧ r.Wf ∧
        sendLoop m n lb w = .ok (none, { lb with toRota := r }, w')) ∨
      ∃ r w' p, Rota.find Outlet.checkWrite n lb.toRota w = .ok (true, r, w') ∧ r.Wf ∧ r.IsCurrent p ∧
        (w' p).self.checkWrite.1 = true ∧
        sendLoop m n lb w = .ok (some p, written { lb with toRota := r } m, update w' p (taken (w' p) m)) := by
  induction n generalizing lb w with
  | zero => exact .inl ⟨lb.toRota, w, rfl, h, rfl⟩
  | succ n ih =>
    obtain ⟨p, hget, hp⟩ := Rota.current_get h (by omega)
    simp only [sendLoop, Rota.find, hget]
    cases hw : (w p).self.checkWrite.1 with
    | true =>
      rw [(Outlet.checkWrite_true hw).2.2, Outlet.write_done hw, update_eq_self]
      exact .inr ⟨lb.toRota, w, p, rfl, h, hp, hw, rfl⟩
    | false =>
      have hc : (w p).checkWrite = (false, (w p).refuse) := Prod.ext hw rfl
      have hmore : ¬ lb.more = true := by simp [hm]
      have hrest := @ih { lb with toRota := lb.deactivate } (update w p (w p).refuse) (Rota.deactivate_wf h hp) hm
        (by change lb.active - 1 = n; omega)
      simp only [hc, Outlet.write_refused hw, if_neg hmore, retire_eq h hp.active_pos, false_eq_true, if_false]
      exact hrest

structure Heads (lb : LbT P) (w : P → Outlet) (p : P) : Prop where
  wf : lb.Wf
  more : lb.more = true
  dropping : lb.dropping = false
  current : lb.IsCurrent p
  writable : (w p).self.checkWrite.1 = true

theorem taken_checkWrite {o : Outlet} (hm : m.hasMore = true) : (taken o m).self.checkWrite = o.self.checkWrite := by
  rw [taken, if_pos hm, Outlet.accept_checkWrite hm]

theorem Heads.sendLoop (h : Heads lb w p) :
    sendLoop m lb.active lb w = .ok (some p, lb.written m, update w p (taken (w p) m)) := by
  obtain ⟨n, hn⟩ : ∃ n, lb.active = n + 1 := Nat.exists_eq_succ_of_ne_zero h.current.active_pos.ne'
  rw [hn]
  simp only [LbT.sendLoop, h.current.get, Outlet.write_done h.writable]
  rfl

theorem Heads.written (h : Heads lb w p) (hm : m.hasMore = true) : Heads (lb.written m) (update w p (taken (w p) m)) p := by
  have hlb : lb.written m = { lb with more := true } := if_pos hm
  rw [hlb]
  refine ⟨h.wf, rfl, h.dropping, h.current, ?_⟩
  rw [update_self, taken_checkWrite hm]
  exact h.writable

theorem sendLoop_next (h : lb.Wf) (hm : lb.more = false) (hd : lb.dropping = false) (hp : lb.next w = some p)
    (hmm : m.hasMore = true) : ∃ lb' w', sendLoop m lb.active lb w = .ok (some p, lb', w') ∧ Heads lb' w' p := by
  rcases @sendLoop_find _ _ _ w m _ h hm rfl with ⟨r, w1, hf, -, -⟩ | ⟨r, w1, q, hf, hwf, hq, hw, hs⟩
  · simp [next, hf] at hp
  · have hget : r.pipes.get r.current = some p := by simpa [next, hf] using hp
    cases hq.get.symm.trans hget
    refine ⟨_, _, hs, ?_⟩
    have hlb : LbT.written { lb with toRota := r } m = { lb with toRota := r, more := true } := if_pos hmm
    rw [hlb]
    refine ⟨hwf, rfl, hd, hq, ?_⟩
    rw [update_self, taken_checkWrite hmm]
    exact hw

theorem sendLoop_none (h : lb.Wf) (hm : lb.more = false) (hp : lb.next w = none) :
    ∃ lb' w', sendLoop m lb.active lb w = .ok (none, lb', w') := by
  rcases @sendLoop_find _ _ _ w m _ h hm rfl with ⟨r, w1, -, -, hs⟩ | ⟨r, w1, q, hf, -, hq, -⟩
  · exact ⟨_, _, hs⟩
  · have hget := hq.get
    simp [next, hf, hget] at hp

end LbT

theorem LoadBalancer.Sound.resting {P : Type} [DecidableEq P] {s : LoadBalancer P} (h : s.Sound) (hb : s.begun = []) :
    s.lb.more = false ∧ s.lb.dropping = false := by
  have hm : s.lb.more = false := by simp [h.more, hb]
  refine ⟨hm, eq_false_of_not_eq_true fun hd => ?_⟩
  exact nomatch hm.symm.trans (h.dropping hd)

namespace DealerT

variable {P : Type} [DecidableEq P] {d d' : DealerT P} {e e' : Ends P} {p : P} {m : Msg} {sent : List (List Msg)}
  {begun : List Msg} {took : Option (Option P)}

theorem sendpipe_sound (h : LoadBalancer.Sound ⟨d.lb, e.outlets, sent, begun, false⟩) (hm : m.isDelimiter = false)
    (hx : d.sendpipe e m = .ok (took, d', e')) :
    took.isSome = true ∧ LoadBalancer.Sound (LoadBalancer.accepted ⟨d'.lb, e'.outlets, sent, begun, false⟩ m) ∨
      took = none ∧ LoadBalancer.Sound ⟨d'.lb, e'.outlets, sent, begun, !begun.isEmpty⟩ := by
  obtain ⟨s', hrun, hs⟩ := h.sendpipe rfl hm
  have hlb : d.lb.sendpipe e.outlets m = .ok (took.isSome, d'.lb, e'.outlets) := by
    rw [← sendpipe_lb, hx]
    rfl
  simp only [LoadBalancer.run, hlb] at hrun
  cases hrun
  cases took with
  | some pipe => exact .inl ⟨rfl, hs⟩
  | none => exact .inr ⟨rfl, hs⟩

theorem sendpipe_heads (h : LbT.Heads d.lb e.outlets p) (hx : d.sendpipe e m = .ok (took, d', e')) :
    took = some (some p) ∧ (m.hasMore = true → LbT.Heads d'.lb e'.outlets p) := by
  unfold sendpipe at hx
  rw [h.dropping, h.sendLoop] at hx
  cases hx
  exact ⟨rfl, h.written⟩

theorem sendpipe_next (h : d.lb.Wf) (hm : d.lb.more = false) (hd : d.lb.dropping = false)
    (hp : d.lb.next e.outlets = some p) (hmm : m.hasMore = true) (hx : d.sendpipe e m = .ok (took, d', e')) :
    took = some (some p) ∧ LbT.Heads d'.lb e'.outlets p := by
  obtain ⟨lb', w', hs, hheads⟩ := LbT.sendLoop_next h hm hd hp hmm
  unfold sendpipe at hx
  rw [hd, hs] at hx
  cases hx
  exact ⟨rfl, hheads⟩

theorem sendpipe_none (h : d.lb.Wf) (hm : d.lb.more = false) (hd : d.lb.dropping = false)
    (hp : d.lb.next e.outlets = none) (hx : d.sendpipe e m = .ok (took, d', e')) : took = none := by
  obtain ⟨lb', w', hs⟩ := @LbT.sendLoop_none _ _ _ _ m h hm hp
  unfold sendpipe at hx
  rw [hd, hs] at hx
  exact (ok_pair hx).1.symm

end DealerT

namespace Ends

variable {P : Type} [DecidableEq P] {e : Ends P} {ate : List P} {p : P}

/-- The delimiters of the pipes have been read. -/
def eat (e : Ends P) (ate : List P) : Ends P := ate.foldl (fun e p => e.setOutlet p (e.outlets p).delimited) e

theorem eat_outlets (hp : p ∉ ate) : (e.eat ate).outlets p = e.outlets p := by
  induction ate generalizing e with
  | nil => rfl
  | cons q ate ih =>
    obtain ⟨hne, hp⟩ := not_or.mp (mt List.mem_cons.mpr hp)
    have hrest := @ih (e.setOutlet q (e.outlets q).delimited) hp
    exact hrest.trans (update_of_ne hne _ _)

theorem eat_sound {lb : LbT P} {sent : List (List Msg)} {begun : List Msg} {refused : Bool}
    (h : LoadBalancer.Sound ⟨lb, e.outlets, sent, begun, refused⟩) :
    LoadBalancer.Sound ⟨lb, (e.eat ate).outlets, sent, begun, refused⟩ := by
  induction ate generalizing e with
  | nil => exact h
  | cons q ate ih =>
    have hd := Outlet.delimited_drifts (o := e.outlets q)
    apply ih (e := e.setOutlet q (e.outlets q).delimited)
    exact h.fade hd.toFades fun _ => hd.inactive

end Ends

namespace ReqT

variable {P : Type} [DecidableEq P]

/-- The number of the next request, if it is to have one. -/
def nextId (r : ReqT P) : Option UInt32 := if r.requestIdFramesEnabled then some (r.requestId + 1) else none

/-- `sendRequest`, with the pipes whose delimiters are read while messages are eaten. -/
def sendRequestEating (r : ReqT P) (e : Ends P) (ate : List P) (msg : Msg) :
    Except SocketFault (ReqRc × List (Option P) × ReqT P × Ends P) := do
  let (took, r, e) ← r.sendEnvelope e
  match took with
  | none => return (.eagain, [], r, e)
  | some took =>
    let (rc, took', r, e) ← r.sendBody (e.eat ate) msg
    return (rc, took ++ took', r, e)

def xsendEating (r : ReqT P) (e : Ends P) (ate : List P) (msg : Msg) :
    Except SocketFault (ReqRc × List (Option P) × ReqT P × Ends P) :=
  if r.receivingReply then
    if r.strict then .ok (.efsm, [], r, e)
    else sendRequestEating { r with receivingReply := false, messageBegins := true } e ate msg
  else if r.messageBegins then r.sendRequestEating e ate msg
  else r.sendBody e msg

variable {r r' : ReqT P} {e e' : Ends P} {p : P} {m : Msg} {sent : List (List Msg)} {begun : List Msg} {took : Option (List (Option P))}
    {rc : ReqRc}

theorem sendFirst_sendpipe {took : Option (Option P)} (hx : r.sendFirst e m = .ok (took, r', e')) :
    r.toDealerT.sendpipe e m = .ok (took, r'.toDealerT, e') ∧ r'.receivingReply = r.receivingReply ∧
      r'.messageBegins = r.messageBegins ∧ r'.requestIdFramesEnabled = r.requestIdFramesEnabled := by
  obtain ⟨⟨took1, d, e1⟩, hsend, hx⟩ := bind_ok hx
  rcases took1 with _ | _ | pipe
  all_goals
    cases hx
    exact ⟨hsend, rfl, rfl, rfl⟩

theorem sendFirst_goes {took : Option (Option P)} (h : LoadBalancer.Sound ⟨r.lb, e.outlets, sent, begun, false⟩)
    (hp : LbT.Heads r.lb e.outlets p ∨ begun = [] ∧ r.lb.next e.outlets = some p) (hm : m.hasMore = true)
    (hd : m.isDelimiter = false) (hx : r.sendFirst e m = .ok (took, r', e')) :
    took = some (some p) ∧ LbT.Heads r'.lb e'.outlets p ∧
      LoadBalancer.Sound ⟨r'.lb, e'.outlets, sent, begun ++ [m], false⟩ ∧ r'.receivingReply = r.receivingReply ∧
      r'.messageBegins = r.messageBegins := by
  obtain ⟨hsend, hr, hb, -⟩ := sendFirst_sendpipe hx
  have hgoes : took = some (some p) ∧ LbT.Heads r'.lb e'.outlets p := by
    rcases hp with hp | ⟨rfl, hp⟩
    · exact (DealerT.sendpipe_heads hp hsend).imp_right fun hh => hh hm
    · exact DealerT.sendpipe_next h.wf (h.resting rfl).1 (h.resting rfl).2 hp hm hsend
  obtain ⟨rfl, hheads⟩ := hgoes
  refine ⟨rfl, hheads, ?_, hr, hb⟩
  have hsound := (DealerT.sendpipe_sound h hd hsend).resolve_right fun hc => some_ne_none _ hc.1
  simpa only [LoadBalancer.accepted, hm, if_true] using hsound.2

theorem sendId_next (h : LoadBalancer.Sound ⟨r.lb, e.outlets, sent, [], false⟩)
    (hp : r.lb.next e.outlets = some p) (hx : r.sendId e = .ok (took, r', e')) :
    took ≠ none ∧ (LbT.Heads r'.lb e'.outlets p ∨ (r.nextId.map idFrame).toList = [] ∧ r'.lb.next e'.outlets = some p) ∧
      LoadBalancer.Sound ⟨r'.lb, e'.outlets, sent, (r.nextId.map idFrame).toList, false⟩ ∧
      r'.receivingReply = r.receivingReply := by
  unfold sendId at hx
  unfold nextId
  split_ifs at hx ⊢ with hi
  · obtain ⟨⟨first, r1, e1⟩, hfirst, hx⟩ := bind_ok hx
    cases hx
    obtain ⟨rfl, hheads, hsound, hr, -⟩ :=
      @sendFirst_goes _ _ { r with requestId := r.requestId + 1 } _ _ _ _ _ _ _ _ h (.inr ⟨rfl, hp⟩) idFrame_hasMore rfl hfirst
    exact ⟨by simp, .inl hheads, hsound, hr⟩
  · cases hx
    exact ⟨by simp, .inr ⟨rfl, hp⟩, h, rfl⟩

theorem sendEnvelope_next (h : LoadBalancer.Sound ⟨r.lb, e.outlets, sent, [], false⟩) (hp : r.lb.next e.outlets = some p)
    (hx : r.sendEnvelope e = .ok (took, r', e')) : took ≠ none ∧ LbT.Heads r'.lb e'.outlets p ∧
      LoadBalancer.Sound ⟨r'.lb, e'.outlets, sent, (r.nextId.map idFrame).toList ++ [bottom], false⟩ ∧
      r'.receivingReply = r.receivingReply ∧ r'.messageBegins = false := by
  obtain ⟨⟨id, r1, e1⟩, hid, hx⟩ := bind_ok hx
  obtain ⟨hne, hgo, hsound, hr⟩ := @sendId_next _ _ { r with replyPipe := none } _ _ _ _ _ _ h hp hid
  obtain ⟨ids, rfl⟩ := ne_none_iff_exists'.mp hne
  obtain ⟨⟨bot, r2, e2⟩, hbot, hx⟩ := bind_ok hx
  obtain ⟨rfl, hheads, hsound2, hr2, -⟩ := sendFirst_goes hsound hgo rfl rfl hbot
  dsimp only at hx
  split_ifs at hx
  obtain ⟨⟨d, e3⟩, hdrain, hx⟩ := bind_ok hx
  cases hx
  have hreads := DealerT.drain_reads hdrain
  refine ⟨by simp, ?_, ?_, hr2.trans hr, rfl⟩
  · rw [hreads.outlets]
    rw [hreads.lb]
    exact hheads
  · rw [hreads.outlets]
    rw [hreads.lb]
    exact hsound2

theorem sendFirst_none {took : Option (Option P)} (h : LoadBalancer.Sound ⟨r.lb, e.outlets, sent, [], false⟩)
    (hp : r.lb.next e.outlets = none) (hd : m.isDelimiter = false) (hx : r.sendFirst e m = .ok (took, r', e')) :
    took = none ∧ LoadBalancer.Sound ⟨r'.lb, e'.outlets, sent, [], false⟩ ∧ r'.receivingReply = r.receivingReply ∧
      r'.messageBegins = r.messageBegins := by
  obtain ⟨hsend, hr, hb, -⟩ := sendFirst_sendpipe hx
  obtain rfl := DealerT.sendpipe_none h.wf (h.resting rfl).1 (h.resting rfl).2 hp hsend
  have hsound := (DealerT.sendpipe_sound h hd hsend).resolve_left fun hc => false_ne_true hc.1
  exact ⟨rfl, hsound.2, hr, hb⟩

theorem sendEnvelope_none (h : LoadBalancer.Sound ⟨r.lb, e.outlets, sent, [], false⟩) (hp : r.lb.next e.outlets = none)
    (hx : r.sendEnvelope e = .ok (took, r', e')) :
    took = none ∧ LoadBalancer.Sound ⟨r'.lb, e'.outlets, sent, [], false⟩ ∧ r'.receivingReply = r.receivingReply ∧
      r'.messageBegins = r.messageBegins := by
  obtain ⟨⟨id, r1, e1⟩, hid, hx⟩ := bind_ok hx
  unfold sendId at hid
  split_ifs at hid
  · obtain ⟨⟨first, r2, e2⟩, hfirst, hid⟩ := bind_ok hid
    cases hid
    obtain ⟨rfl, hsound, hr, hb⟩ :=
      @sendFirst_none _ _ { r with replyPipe := none, requestId := r.requestId + 1 } _ _ _ _ _ _ h hp rfl hfirst
    cases hx
    exact ⟨rfl, hsound, hr, hb⟩
  · cases hid
    obtain ⟨⟨bot, r2, e2⟩, hbot, hx⟩ := bind_ok hx
    obtain ⟨rfl, hsound, hr, hb⟩ := @sendFirst_none _ _ { r with replyPipe := none } _ _ _ _ _ _ h hp rfl hbot
    cases hx
    exact ⟨rfl, hsound, hr, hb⟩

theorem sendBody_goes {took : List (Option P)} (h : LoadBalancer.Sound ⟨r.lb, e.outlets, sent, begun, false⟩)
    (hp : r.lb.dropping = true ∨ ∃ p, LbT.Heads r.lb e.outlets p) (hd : m.isDelimiter = false)
    (hx : r.sendBody e m = .ok (rc, took, r', e')) :
    rc = .ok ∧ LoadBalancer.Sound (LoadBalancer.accepted ⟨r'.lb, e'.outlets, sent, begun, false⟩ m) ∧
      if m.hasMore then r'.receivingReply = r.receivingReply ∧ r'.messageBegins = r.messageBegins
      else r'.receivingReply = true ∧ r'.messageBegins = true := by
  obtain ⟨⟨pipe, d, e1⟩, hsend, hx⟩ := bind_ok hx
  have hsome : pipe ≠ none := by
    rcases hp with hp | ⟨p, hp⟩
    · unfold DealerT.sendpipe at hsend
      rw [if_pos hp] at hsend
      rw [← (ok_pair hsend).1]
      simp
    · rw [(DealerT.sendpipe_heads hp hsend).1]
      simp
  obtain ⟨pipe, rfl⟩ := ne_none_iff_exists'.mp hsome
  have hsound := ((DealerT.sendpipe_sound h hd hsend).resolve_right fun hc => some_ne_none _ hc.1).2
  cases hx
  refine ⟨rfl, ?_, ?_⟩
  · split_ifs <;> exact hsound
  · split_ifs <;> exact ⟨rfl, rfl⟩

theorem sendRequestEating_goes {ate : List P} {took : List (Option P)}
    (h : LoadBalancer.Sound ⟨r.lb, e.outlets, sent, [], false⟩) (hr : r.receivingReply = false)
    (hk : ∀ p ∈ r.lb.next e.outlets, p ∉ ate) (hd : m.isDelimiter = false)
    (hx : r.sendRequestEating e ate m = .ok (rc, took, r', e')) : (rc = .ok ∧ LoadBalancer.Sound
        (LoadBalancer.accepted ⟨r'.lb, e'.outlets, sent, (r.nextId.map idFrame).toList ++ [bottom], false⟩ m) ∧
      (if m.hasMore then r'.receivingReply = false ∧ r'.messageBegins = false
        else r'.receivingReply = true ∧ r'.messageBegins = true)) ∨
      (r.lb.next e.outlets = none ∧ rc ≠ .ok ∧ LoadBalancer.Sound ⟨r'.lb, e'.outlets, sent, [], false⟩ ∧
        r'.receivingReply = false ∧ r'.messageBegins = r.messageBegins) := by
  obtain ⟨⟨env, r1, e1⟩, henv, hx⟩ := bind_ok hx
  cases hp : r.lb.next e.outlets with
  | none =>
    obtain ⟨rfl, hsound, hr1, hb1⟩ := sendEnvelope_none h hp henv
    cases hx
    exact .inr ⟨rfl, by simp, hsound, hr1.trans hr, hb1⟩
  | some p =>
    obtain ⟨hne, hheads, hsound, hr1, hb1⟩ := sendEnvelope_next h hp henv
    obtain ⟨env, rfl⟩ := ne_none_iff_exists'.mp hne
    obtain ⟨⟨rc2, took2, r2, e2⟩, hbody, hx⟩ := bind_ok hx
    cases hx
    have hheads' : LbT.Heads r1.lb (e1.eat ate).outlets p :=
      ⟨hheads.wf, hheads.more, hheads.dropping, hheads.current, by rw [Ends.eat_outlets (hk p hp)]; exact hheads.writable⟩
    have hgoes := sendBody_goes (Ends.eat_sound hsound) (.inr ⟨p, hheads'⟩) hd hbody
    rw [hr1, hr, hb1] at hgoes
    exact .inl hgoes

end ReqT

structure Request where
  id : Option UInt32
  body : List Msg

namespace Request

/-- The message that the request is on the wire. -/
def wire (q : Request) : List Msg := (q.id.map ReqT.idFrame).toList ++ ReqT.bottom :: q.body

def add (q : Request) (m : Msg) : Request := { q with body := q.body ++ [m] }

theorem add_wire {q : Request} {m : Msg} : (q.add m).wire = q.wire ++ [m] := by simp [add, wire]

end Request

structure Requester (P : Type) where
  req : ReqT P
  ends : Ends P
  sent : List Request
  begun : Option Request

namespace Requester

variable {P : Type}

def new (requestId : UInt32) : Requester P where
  req := .new requestId
  ends := ⟨fun _ => ⟨false, []⟩, fun _ => LoadBalancer.unattached, fun _ => []⟩
  sent := []
  begun := none

inductive Op (P : Type) where
  | attach (pipe : P) (self : PipeT)
  | readActivated (pipe : P)
  | writeActivated (pipe : P) (msgsRead : UInt64)
  | drift (pipe : P) (inlet : Inlet) (outlet : Outlet)
  | pipeTerminated (pipe : P)
  | correlate (on : Bool)
  | relaxed (on : Bool)
  /-- with the pipes whose delimiters are read while messages are eaten -/
  | xsend (msg : Msg) (ate : List P)
  | xrecv
  | xhasIn
  | xhasOut

variable [DecidableEq P] (s : Requester P)

/-- What pipes keep to: a pipe is new when it is attached, and it is activated when it was not active. No frame is a
delimiter. -/
def Ready : Op P → Prop
  | .attach p self => p ∉ s.req.fq.pipes ∧ p ∉ s.req.lb.pipes ∧ (s.ends.outlets p).written = [] ∧ self.outActive = true ∧
      self.outpipe ≠ none
  | .readActivated p => p ∈ s.req.fq.pipes ∧ (s.ends.inlets p).inActive = false
  | .writeActivated p _ => p ∈ s.req.lb.pipes ∧ (s.ends.outlets p).self.outActive = false ∧
      (s.ends.outlets p).self.state = .active
  | .drift p _ o => Outlet.Drifts (s.ends.outlets p) o
  | .pipeTerminated p => p ∈ s.req.fq.pipes ∧ p ∈ s.req.lb.pipes
  | .xsend m _ => m.isDelimiter = false
  | _ => True

instance (op : Op P) : Decidable (s.Ready op) := by
  cases op <;> unfold Ready <;> infer_instance

section

omit [DecidableEq P]

/-- The request that the next frame belongs to. -/
def asked : Request :=
  if s.req.receivingReply || s.req.messageBegins then ⟨s.req.nextId, []⟩ else s.begun.getD ⟨none, []⟩

def accepted (q : Request) (m : Msg) : Requester P :=
  if m.hasMore then { s with begun := some (q.add m) } else { s with sent := s.sent ++ [q.add m], begun := none }

/-- The frame has been refused; a request of which the envelope has been sent is not given up. -/
def refused (q : Request) : Requester P :=
  { s with begun := if s.req.receivingReply || s.req.messageBegins then none else some q }

end

def run : Op P → Except SocketFault (Requester P)
  | .attach p self => .ok { s with
      -- `xattachPipe`, when `probe_router` is not set
      req := { s.req with fq := s.req.fq.attach p, lb := s.req.lb.attach p }
      ends := (s.ends.setInlet p ⟨true, []⟩).setOutlet p ⟨self, Staged.empty⟩ }
  | .readActivated p =>
    -- the pipe is swapped with the first one that is not active
    if s.req.fq.active < s.req.fq.pipes.size then .ok { s with
      req := { s.req with fq := s.req.fq.activated p }
      ends := s.ends.setInlet p { s.ends.inlets p with inActive := true } }
    else .error .outOfBounds
  | .writeActivated p n =>
    if s.req.lb.active < s.req.lb.pipes.size then .ok { s with
      req := { s.req with lb := s.req.lb.activated p }
      ends := s.ends.setOutlet p { s.ends.outlets p with
        self := { (s.ends.outlets p).self with peersMsgsRead := n, outActive := true } } }
    else .error .outOfBounds
  | .drift p i o => .ok { s with ends := (s.ends.setInlet p i).setOutlet p o }
  | .pipeTerminated p => .ok { s with
      req := s.req.xpipeTerminated p
      ends := s.ends.setOutlet p (s.ends.outlets p).closed }
  | .correlate on => .ok { s with req := { s.req with requestIdFramesEnabled := on } }
  | .relaxed on => .ok { s with req := { s.req with strict := !on } }
  | .xsend m ate => do
    let (rc, _, req, ends) ← s.req.xsendEating s.ends ate m
    let t := { s with req := req, ends := ends }
    return if rc = .ok then t.accepted s.asked m else t.refused s.asked
  | .xrecv => do
    let (_, _, req, ends) ← s.req.xrecv s.ends
    return { s with req := req, ends := ends }
  | .xhasIn => do
    let (_, req, ends) ← s.req.xhasIn s.ends
    return { s with req := req, ends := ends }
  | .xhasOut => do
    let (_, req, ends) ← s.req.xhasOut s.ends
    return { s with req := req, ends := ends }

def Start : Prop := ∃ requestId, s = new requestId

abbrev Step : Requester P → Op P → Requester P → Prop := Does Ready run

/-- What the load balancer has been asked to send. -/
def balancer : LoadBalancer P :=
  ⟨s.req.lb, s.ends.outlets, s.sent.map Request.wire, (s.begun.map Request.wire).getD [], false⟩

/-- Each complete message in a pipe is the frame with the request id, if there is one, the empty frame and the body of
one request, and nothing else is in a pipe than the first frames of the request being sent. -/
def WellFormed : Prop := s.balancer.Whole

/-- What a failed `xsend` is to leave as it is: the state of the request, and with a reply pending what the reply is
compared with. -/
def Unmoved (r r' : ReqT P) : Prop :=
  r'.receivingReply = r.receivingReply ∧ r'.messageBegins = r.messageBegins ∧
    (r.receivingReply = true → r'.replyPipe = r.replyPipe ∧ r'.requestId = r.requestId)

/-- Each `xsend` that fails is to leave the request as it is. -/
def Retryable (m : Msg) (ate : List P) : Prop :=
  ∀ rc took r' e', s.req.xsendEating s.ends ate m = .ok (rc, took, r', e') → rc ≠ .ok → Unmoved s.req r'

/-- Not a frame of a request whose pipe does not take it, neither because it has left the active state nor because
it is full; not a request whose pipe has its delimiter read before the body is written; not a new request in place of one
whose reply is pending, when no pipe takes it; not a termination that moves the pipe being written, the last active one, to
another place than the one `current` goes to; and not an activation while all pipes count as active. -/
def Keeps : Op P → Prop
  | .xsend _ ate =>
    if s.req.receivingReply then
      s.req.strict = true ∨ ∃ p ∈ s.req.lb.next s.ends.outlets, p ∉ ate
    else if s.req.messageBegins then ∀ p ∈ s.req.lb.next s.ends.outlets, p ∉ ate
    else s.req.lb.dropping = true ∨ ∃ p ∈ s.req.lb.pipes.get s.req.lb.current, (s.ends.outlets p).self.checkWrite.1 = true
  | .writeActivated _ _ => s.req.lb.active < s.req.lb.pipes.size
  | .pipeTerminated p => ¬ (s.req.lb.more = true ∧ s.req.lb.dropping = false ∧ 0 < s.req.lb.pipes.index p ∧
      s.req.lb.pipes.index p < s.req.lb.current ∧ s.req.lb.current + 1 = s.req.lb.active)
  | _ => True

instance (op : Op P) : Decidable (s.Keeps op) := by
  cases op <;> unfold Keeps <;> infer_instance

/-- What holds between two calls: the load balancer and REQ agree on whether a request is being sent. -/
structure Sound (s : Requester P) : Prop where
  balancer : s.balancer.Sound
  begun : s.begun.isSome = !(s.req.receivingReply || s.req.messageBegins)

variable {s s' : Requester P} {p : P} {m : Msg} {e : Ends P} {sent : List Request} {b : Option Request} {r : ReqT P} {q : Request}

theorem Sound.idle (h : s.Sound) (hi : s.req.receivingReply = true ∨ s.req.messageBegins = true) :
    s.begun = none ∧ LoadBalancer.Sound ⟨s.req.lb, s.ends.outlets, s.sent.map Request.wire, [], false⟩ := by
  have hb : s.begun = none := by
    rw [← not_isSome_iff_eq_none, h.begun]
    rcases hi with hi | hi <;> simp [hi]
  have hs := h.balancer
  unfold Requester.balancer at hs
  rw [hb] at hs
  exact ⟨hb, hs⟩

omit [DecidableEq P] in
theorem accepted_balancer : (accepted ⟨r, e, sent, b⟩ q m).balancer =
      LoadBalancer.accepted ⟨r.lb, e.outlets, sent.map Request.wire, q.wire, false⟩ m := by
  unfold accepted LoadBalancer.accepted
  split_ifs <;> simp [balancer, Request.add_wire]

theorem Sound.accepted (hs : LoadBalancer.Sound (LoadBalancer.accepted ⟨r.lb, e.outlets, sent.map Request.wire, q.wire, false⟩ m))
    (hf : if m.hasMore then r.receivingReply = false ∧ r.messageBegins = false
      else r.receivingReply = true ∧ r.messageBegins = true) : (accepted ⟨r, e, sent, b⟩ q m).Sound := by
  refine ⟨accepted_balancer ▸ hs, ?_⟩
  unfold Requester.accepted
  split_ifs at hf ⊢ <;> simp [hf.1, hf.2]

theorem Sound.xsend {ate : List P} {rc : ReqRc} {took : List (Option P)} {r' : ReqT P} {e' : Ends P} (h : s.Sound)
    (hd : m.isDelimiter = false) (hk : s.Keeps (.xsend m ate)) (hx : s.req.xsendEating s.ends ate m = .ok (rc, took, r', e')) :
    (rc ≠ .ok → Unmoved s.req r') ∧
      Sound (if rc = .ok then Requester.accepted ⟨r', e', s.sent, s.begun⟩ s.asked m else refused ⟨r', e', s.sent, s.begun⟩ s.asked) := by
  unfold ReqT.xsendEating at hx
  unfold Keeps at hk
  split_ifs at hx hk with hr hs hb
  · -- a request is refused while a reply is pending
    cases hx
    refine ⟨fun _ => ⟨rfl, rfl, fun _ => ⟨rfl, rfl⟩⟩, ?_⟩
    obtain ⟨hbegun, hsound⟩ := h.idle (.inl hr)
    refine ⟨?_, ?_⟩
    · simpa [Requester.balancer, refused, hr] using hsound
    · simp [refused, hr]
  · -- a new request takes the place of one whose reply is pending
    obtain ⟨-, hsound⟩ := h.idle (.inl hr)
    obtain ⟨p, hp, hate⟩ := hk.resolve_left hs
    have hasked : s.asked = ⟨s.req.nextId, []⟩ := if_pos (by simp [hr])
    rcases @ReqT.sendRequestEating_goes _ _ { s.req with receivingReply := false, messageBegins := true } _ _ _ _ _ _ _ _
      hsound rfl (fun q hq => mem_unique hp hq ▸ hate) hd hx with
      ⟨rfl, hsound, hf⟩ | ⟨hnone, -⟩
    · refine ⟨fun hc => absurd rfl hc, ?_⟩
      rw [hasked]
      exact .accepted hsound hf
    · exact absurd (hnone.symm.trans hp) (by simp)
  · -- a request begins
    obtain ⟨-, hsound⟩ := h.idle (.inr hb)
    have hr : s.req.receivingReply = false := by simpa using hr
    have hasked : s.asked = ⟨s.req.nextId, []⟩ := if_pos (by simp [hb])
    rcases ReqT.sendRequestEating_goes hsound hr hk hd hx with ⟨rfl, hsound, hf⟩ | ⟨-, hrc, hsound, hr', hb'⟩
    · refine ⟨fun hc => absurd rfl hc, ?_⟩
      rw [hasked]
      exact .accepted hsound hf
    · refine ⟨fun _ => ⟨hr'.trans hr.symm, hb', fun hc => absurd (hr.symm.trans hc) (by simp)⟩, ?_⟩
      rw [if_neg hrc]
      have hb' := hb'.trans hb
      refine ⟨?_, ?_⟩
      · simpa [Requester.balancer, refused, hb'] using hsound
      · simp [refused, hb']
  · -- a request goes on
    have hr : s.req.receivingReply = false := by simpa using hr
    have hb : s.req.messageBegins = false := by simpa using hb
    obtain ⟨q, hq⟩ : ∃ q, s.begun = some q := isSome_iff_exists.mp (by rw [h.begun, hr, hb]; rfl)
    have hasked : s.asked = q := by simp [asked, hr, hb, hq]
    have hsound := h.balancer
    unfold Requester.balancer at hsound
    rw [hq] at hsound
    have hmore : s.req.lb.more = true := hsound.more.trans (by simp [Request.wire])
    have hgo : s.req.lb.dropping = true ∨ ∃ p, LbT.Heads s.req.lb s.ends.outlets p := by
      by_cases hdrop : s.req.lb.dropping = true
      · exact .inl hdrop
      obtain ⟨p, hp, hw⟩ := hk.resolve_left hdrop
      have hdrop : s.req.lb.dropping = false := by simpa using hdrop
      obtain ⟨p', hcur, -⟩ := hsound.current hmore hdrop
      obtain rfl := some.inj (hcur.get.symm.trans hp)
      exact .inr ⟨p', hsound.wf, hmore, hdrop, hcur, hw⟩
    obtain ⟨rfl, hsound, hf⟩ := ReqT.sendBody_goes hsound hgo hd hx
    refine ⟨fun hc => absurd rfl hc, ?_⟩
    rw [hasked]
    rw [hr, hb] at hf
    exact .accepted hsound hf

theorem Sound.same (h : s.Sound) (hlb : r.lb = s.req.lb) (ho : e.outlets = s.ends.outlets)
    (hf : (r.receivingReply || r.messageBegins) = (s.req.receivingReply || s.req.messageBegins)) :
    Sound { s with req := r, ends := e } := by
  refine ⟨?_, ?_⟩
  · have hs := h.balancer
    unfold Requester.balancer at hs ⊢
    rw [hlb, ho]
    exact hs
  · rw [hf]
    exact h.begun

theorem Sound.moved {lb : LbT P} {fq : FqT P} {pipe : Option P} (h : s.Sound)
    (hs : LoadBalancer.Sound { s.balancer with lb := lb, outlets := e.outlets }) :
    Sound { s with req := { s.req with lb := lb, fq := fq, replyPipe := pipe }, ends := e } := ⟨hs, h.begun⟩

theorem Sound.run {op : Op P} (h : s.Sound) (hr : s.Ready op) (hk : s.Keeps op) (hx : s.run op = .ok s') : s'.Sound := by
  cases op with
  | attach p self =>
    cases hx
    exact h.moved (h.balancer.attach hr.2.1 hr.2.2.1 hr.2.2.2.2)
  | readActivated p =>
    by_cases hlt : s.req.fq.active < s.req.fq.pipes.size
    · cases (if_pos hlt).symm.trans hx
      exact h.same rfl rfl rfl
    · exact absurd ((if_neg hlt).symm.trans hx) (by simp)
  | writeActivated p n =>
    cases (if_pos hk).symm.trans hx
    exact h.moved (h.balancer.activated hr.1 hr.2.1 hr.2.2 hk)
  | drift p i o =>
    cases hx
    exact h.moved (h.balancer.fade hr.toFades fun _ => hr.inactive)
  | pipeTerminated p =>
    cases hx
    exact h.moved (h.balancer.pipeTerminated hr.2 hk)
  | correlate on | relaxed on =>
    cases hx
    exact h.same rfl rfl rfl
  | xsend m ate =>
    obtain ⟨⟨rc, took, r', e'⟩, hsend, hx⟩ := bind_ok hx
    cases hx
    exact (h.xsend hr hk hsend).2
  | xrecv =>
    obtain ⟨⟨rc, got, r', e'⟩, hrecv, hx⟩ := bind_ok hx
    cases hx
    rcases ReqT.xrecv_receives hrecv with ⟨-, -, rfl, rfl⟩ | ⟨hreply, hgot⟩
    · exact h
    · refine h.same hgot.dealer.lb hgot.dealer.outlets ?_
      rw [hreply]
      rcases hgot.goes with hgo | hgo <;> simp [hgo]
  | xhasIn =>
    obtain ⟨⟨rc, r', e'⟩, hin, hx⟩ := bind_ok hx
    cases hx
    unfold ReqT.xhasIn at hin
    split_ifs at hin
    · cases hin
      exact h
    · obtain ⟨⟨rc, d, e1⟩, hdealer, hret⟩ := bind_ok hin
      cases hret
      obtain ⟨⟨rc, fq, inlets⟩, -, hret⟩ := bind_ok hdealer
      cases hret
      exact h.same rfl rfl rfl
  | xhasOut =>
    obtain ⟨⟨rc, r', e'⟩, hout, hx⟩ := bind_ok hx
    cases hx
    unfold ReqT.xhasOut at hout
    split_ifs at hout
    · cases hout
      exact h
    · obtain ⟨⟨rc, d, e1⟩, hdealer, hret⟩ := bind_ok hout
      cases hret
      obtain ⟨⟨rc, lb, outlets⟩, hhas, hret⟩ := bind_ok hdealer
      cases hret
      obtain ⟨t, ht, hs⟩ := h.balancer.hasOut
      have hrun : s.balancer.run .hasOut = .ok { s.balancer with lb := lb, outlets := outlets } := by
        simp only [LoadBalancer.run, Requester.balancer, hhas]
        rfl
      cases hrun.symm.trans ht
      exact h.moved hs

theorem new_sound {requestId : UInt32} : (new requestId : Requester P).Sound := ⟨LoadBalancer.new_sound, rfl⟩

theorem run_sound {ops : List (Op P)} (h : Run Start (Guarded Keeps Step) ops s) : s.Sound := by
  refine h.invariant Sound (fun _ h0 => ?_) fun s op s' hI hs => ?_
  · obtain ⟨requestId, rfl⟩ := h0
    exact new_sound
  · obtain ⟨hk, hr, hrun⟩ := hs
    exact hI.run hr hk hrun

/-- In a run in which no call breaks the condition, pipes hold well-formed requests, and an `xsend` that meets the
condition and fails leaves the request as it is. -/
theorem requests_well_formed {ops : List (Op P)} (h : Run Start (Guarded Keeps Step) ops s) :
    s.WellFormed ∧ ∀ m ate, s.Ready (.xsend m ate) → s.Keeps (.xsend m ate) → s.Retryable m ate :=
  ⟨(run_sound h).balancer.whole, fun _ _ hr hk _ _ _ _ hx => ((run_sound h).xsend hr hk hx).1⟩

open LoadBalancer (frame frameMore endOf)

/-- A request with an id goes to the second of two pipes while the first one is full. -/
def correlated : List (Op ℕ) :=
  [.attach 0 (endOf 1), .attach 1 (endOf 0), .correlate true, .xsend (frame 1) [], .relaxed true, .xsend (frameMore 2) [0],
    .xsend (frame 3) []]

theorem requests_well_formed_two : ∃ s : Requester ℕ, Run Start (Guarded Keeps Step) correlated s ∧
    (s.ends.outlets 1).written = [ReqT.idFrame 7, ReqT.bottom, frameMore 2, frame 3] ∧ s.WellFormed :=
  exists_run (P := fun s => (s.ends.outlets 1).written = [ReqT.idFrame 7, ReqT.bottom, frameMore 2, frame 3])
    (⟨5, rfl⟩ : Start (new 5)) (by decide +kernel) fun _ hs hw => ⟨hw, (requests_well_formed hs).1⟩

/-- The peer of the first of two pipes terminates within a request, the frame it refuses is sent again. -/
def sentAgain : List (Op ℕ) :=
  [.attach 0 (endOf 0), .attach 1 (endOf 0), .xsend (frameMore 1) [],
    .drift 0 ⟨false, []⟩ ⟨{ endOf 0 with state := .waitingForDelimiter }, ⟨[], [], [ReqT.bottom, frameMore 1], false⟩⟩,
    .xsend (frame 2) [], .xsend (frame 2) []]

/-- A reply is pending, and the pipe is full. -/
def pendingReply : List (Op ℕ) := [.attach 0 (endOf 1), .relaxed true, .xsend (frame 1) []]

/-- A frame that has been refused goes to another pipe without its envelope; and a request that no pipe takes ends the
wait for the reply to the one before. -/
theorem requests_can_be_malformed : (∃ s : Requester ℕ, Run Start Step sentAgain s ∧ ¬ s.WellFormed) ∧
      ∃ s : Requester ℕ, Run Start Step pendingReply s ∧ s.Ready (.xsend (frame 2) []) ∧ ¬ s.Retryable (frame 2) [] := by
  constructor
  · refine exists_run_free (P := fun s => s.balancer.sent = [[ReqT.bottom, frameMore 1, frame 2]] ∧
      (s.balancer.outlets 1).written = [frame 2]) (⟨5, rfl⟩ : Start (new 5)) (by decide +kernel) fun s _ ⟨hsent, hw⟩ h => ?_
    have hrest := LoadBalancer.Whole.rest (p := 1) (m := frame 2) h (by rw [hw]; decide)
    rw [hsent, hw] at hrest
    exact absurd hrest (by decide)
  · refine exists_run_free (P := fun s => s.req.receivingReply = true ∧
      ((s.req.xsendEating s.ends [] (frame 2)).toOption.map fun x => (x.1, x.2.2.1.receivingReply)) =
        some (ReqRc.eagain, false)) (⟨5, rfl⟩ : Start (new 5)) (by decide +kernel) fun s _ ⟨hr, hx⟩ => ⟨rfl, fun h => ?_⟩
    cases hsend : s.req.xsendEating s.ends [] (frame 2) with
    | error f => simp [hsend, Except.toOption] at hx
    | ok x =>
      obtain ⟨rc, took, r', e'⟩ := x
      rw [hsend] at hx
      obtain ⟨rfl, hr'⟩ := Prod.mk.inj (Option.some.inj hx)
      have hmoved := (h _ _ _ _ hsend (by simp)).1
      rw [hr, hr'] at hmoved
      exact false_ne_true hmoved

end Requester

end Zmq
