import LibZmq.Sockets.Distribution
import LibZmq.Sockets.Xsub

/-! A subscriber, XSUB or DISH, over pipes that come, go, fill up, hiccup and are activated at any time.
What `dist_t` takes for writable is compared with what the pipes say. -/

namespace Zmq

open Bool Except

open Function (update update_idem update_of_ne update_self)

namespace Outlet

/-- The end has room for so many messages of one part. -/
def Room : ℕ → PipeT → Prop
  | 0, _ => True
  | n + 1, p => p.checkHwm = true ∧ Room n { p with msgsWritten := p.msgsWritten + 1 }

instance : (n : ℕ) → (p : PipeT) → Decidable (Room n p)
  | 0, _ => .isTrue trivial
  | n + 1, p =>
    have : Decidable (Room n { p with msgsWritten := p.msgsWritten + 1 }) := instDecidableRoom n _
    inferInstanceAs (Decidable (_ ∧ _))

variable {o : Outlet} {msgs : List Msg}

theorem checkWrite_inactive (h : o.self.outActive = false) : o.self.checkWrite.1 = false := by
  simp [Pair.checkWrite_fst, h]

theorem writeAll_inactive (h : o.self.outActive = false) :
    (o.writeAll msgs).self.outActive = false ∧ (o.writeAll msgs).self.state = o.self.state := by
  induction msgs generalizing o with
  | nil => exact ⟨h, rfl⟩
  | cons m msgs ih =>
    have hw := write_refused (m := m) (checkWrite_inactive h)
    have hr : o.refuse.self.outActive = false := by simp [refuse, h]
    obtain ⟨h1, h2⟩ := ih hr
    have he : o.writeAll (m :: msgs) = o.refuse.writeAll msgs := by
      rw [writeAll, List.foldl_cons, hw]
      rfl
    rw [he]
    exact ⟨h1, h2.trans refuse_state⟩

theorem writeAll_outActive (ha : o.self.outActive = true) (hs : o.self.state = .active)
    (hm : ∀ m ∈ msgs, PipeT.counted m = true) :
    ((o.writeAll msgs).self.outActive = true ↔ Room msgs.length o.self) ∧ (o.writeAll msgs).self.state = .active := by
  induction msgs generalizing o with
  | nil => exact ⟨iff_of_true ha trivial, hs⟩
  | cons m msgs ih =>
    cases hw : o.self.checkHwm with
    | true =>
      have hc : o.self.checkWrite.1 = true := by simp [Pair.checkWrite_fst, ha, hs, hw]
      have he : o.writeAll (m :: msgs) = (o.accept m).writeAll msgs := by
        rw [writeAll, List.foldl_cons, write_done hc]
        rfl
      have hself : (o.accept m).self = { o.self with msgsWritten := o.self.msgsWritten + 1 } := by
        simp [accept, hm m List.mem_cons_self]
      obtain ⟨h1, h2⟩ := ih (o := o.accept m) ha hs fun m hx => hm m (List.mem_cons_of_mem _ hx)
      rw [he, h1, hself]
      exact ⟨⟨fun h => ⟨hw, h⟩, And.right⟩, h2⟩
    | false =>
      have hc : o.self.checkWrite.1 = false := by simp [Pair.checkWrite_fst, hw]
      have he : o.writeAll (m :: msgs) = o.refuse.writeAll msgs := by
        rw [writeAll, List.foldl_cons, write_refused hc]
        rfl
      have hr : o.refuse.self.outActive = false := by simp [refuse, hs, hw]
      obtain ⟨h1, h2⟩ := @writeAll_inactive _ msgs hr
      rw [he, h1]
      refine ⟨iff_of_false false_ne_true fun h => ?_, ?_⟩
      · exact absurd (hw.symm.trans h.1) (by simp)
      · rw [h2, refuse_state]
        exact hs

end Outlet

namespace DistT

variable {P : Type} [DecidableEq P] {d d' : DistT P} {w w' : P → Outlet} {p : P} {m : Msg} {o : Outlet}

/-- An end of a pipe that is not terminating is eligible exactly if it can be written. So it is activated only when it
is not eligible, and one that is not eligible is activated when there is room. -/
def InStep (d : DistT P) (w : P → Outlet) : Prop := ∀ p ∈ d.pipes, (w p).self.state = .active →
  ((w p).self.outActive = true ↔ d.Eligible p)

theorem attach_inStep (h : d.Wf) (hi : d.InStep w) (hp : p ∉ d.pipes) (hs : o.self.state = .active) :
    (d.attach p).InStep (update w p o) ↔ o.self.outActive = true := by
  have helig : (d.attach p).Eligible p := (attach_eligible h hp).mpr (.inr rfl)
  constructor
  · intro hi
    have := hi p helig.1
    rw [update_self] at this
    exact (this hs).mpr helig
  · intro ha q hq hqs
    rcases eq_or_ne q p with rfl | hne
    · rw [update_self]
      exact iff_of_true ha helig
    · rw [update_of_ne hne] at hqs ⊢
      have hq := ((attach_mem h hp).mp hq).resolve_right hne
      rw [attach_eligible h hp, hi q hq hqs]
      exact ⟨.inl, fun hc => hc.resolve_right hne⟩

theorem update_inStep (hi : d.InStep w) (hp : p ∈ d.pipes) :
    d.InStep (update w p o) ↔ (o.self.state = .active → (o.self.outActive = true ↔ d.Eligible p)) := by
  constructor
  · intro h
    have := h p hp
    rwa [update_self] at this
  · intro h q hq hqs
    rcases eq_or_ne q p with rfl | hne
    · rw [update_self] at hqs ⊢
      exact h hqs
    · rw [update_of_ne hne] at hqs ⊢
      exact hi q hq hqs

theorem drift_inStep (hi : d.InStep w) (hd : Outlet.Drifts (w p) o) : d.InStep (update w p o) := by
  intro q hq hqs
  rcases eq_or_ne q p with rfl | hne
  · rw [update_self] at hqs ⊢
    have hs : (w q).self.state = .active := by_contra fun hc => hd.closed hc hqs
    rw [← hi q hq hs]
    exact ⟨hd.outActive, fun ha => (hd.inactive ha).resolve_right fun hc => hc hqs⟩
  · rw [update_of_ne hne] at hqs ⊢
    exact hi q hq hqs

theorem activated_inStep (h : d.Wf) (hi : d.InStep w) (hp : p ∈ d.pipes)
    (ha : (w p).self.outActive = false) (hs : (w p).self.state = .active) (ho : o.self.outActive = true) :
    (d.activated p).Wf ∧ (d.activated p).InStep (update w p o) := by
  have hn : ¬ d.Eligible p := fun he => false_ne_true (ha.symm.trans ((hi p hp hs).mpr he))
  rw [activated_eq h hp hn]
  refine ⟨join_wf h hp hn, fun q hq hqs => ?_⟩
  rw [join_eligible hp hn]
  rcases eq_or_ne q p with rfl | hne
  · rw [update_self]
    exact iff_of_true ho (.inr rfl)
  · rw [update_of_ne hne] at hqs ⊢
    rw [hi q (join_mem.mp hq) hqs]
    exact ⟨.inl, fun hc => hc.resolve_right hne⟩

theorem pipeTerminated_inStep (h : d.Wf) (hi : d.InStep w) (hp : p ∈ d.pipes) :
    (d.pipeTerminated p).Wf ∧ (d.pipeTerminated p).InStep (update w p o) := by
  obtain ⟨hwf, hmem, -, heligible, -⟩ := pipeTerminated_left h hp
  refine ⟨hwf, fun q hq hqs => ?_⟩
  obtain ⟨hq, hne⟩ := (hmem q).mp hq
  rw [update_of_ne hne] at hqs ⊢
  rw [heligible, hi q hq hqs]
  exact ⟨fun he => ⟨he, hne⟩, And.left⟩

theorem sent_inStep {e : DistT P} (hi : d.InStep w) (hm : ∀ q, q ∈ e.pipes ↔ q ∈ d.pipes)
    (he : ∀ q, e.Eligible q ↔ d.Eligible q) (hsent : Sent e w m d' w') : d'.InStep w' := by
  intro q hq hqs
  have hq : q ∈ d.pipes := (hm q).mp ((hsent.mem q).mp hq)
  rw [hsent.eligible, he]
  by_cases hmatches : e.Matches q
  · rw [hsent.tried q hmatches, tried] at hqs ⊢
    cases hw : (w q).self.checkWrite.1 with
    | true =>
      obtain ⟨ha, hs, -⟩ := Outlet.checkWrite_true hw
      have hself : (wrote (w q) m).self.outActive = true := by
        unfold wrote
        split_ifs
        · exact ha
        · rw [Outlet.flush_self]
          exact ha
      exact iff_of_true hself ⟨(hi q hq hs).mp ha, fun _ => rfl⟩
    | false =>
      rw [hw] at hqs
      have ha := (Outlet.refuse_refuses hw).resolve_right fun hc => hc hqs
      exact iff_of_false (ne_true_of_eq_false ha) fun hc => false_ne_true (hc.2 hmatches)
  · rw [hsent.same q hmatches] at hqs ⊢
    rw [hi q hq hqs]
    exact ⟨fun hc => ⟨hc, fun hx => absurd hx hmatches⟩, And.left⟩

theorem sendToAll_inStep (h : d.Wf) (hi : d.InStep w) (hx : d.sendToAll w m = .ok (d', w')) : d'.Wf ∧ d'.InStep w' := by
  obtain ⟨d1, w1, hx', hsent, -⟩ := sendToAll_sent (w := w) (m := m) h
  cases hx'.symm.trans hx
  exact ⟨hsent.wf, sent_inStep (e := { d with matching := d.active }) hi (fun _ => Iff.rfl) (fun _ => Iff.rfl) hsent⟩

end DistT

inductive Upstream (P : Type) where
  | xsub (x : XsubT P)
  | dish (x : DishT P)

namespace Upstream

open SubFault

variable {P : Type}

def dist : Upstream P → DistT P
  | .xsub x => x.dist
  | .dish x => x.dist

/-- What is sent to a new pipe, and to one that has hiccuped. -/
def cached : Upstream P → Except SubFault (List Msg)
  | .xsub x => x.cached
  | .dish x => .ok (x.subscriptions.map DishT.join)

variable [DecidableEq P]

def xattachPipe (u : Upstream P) (outlets : P → Outlet) (pipe : P) : Except SubFault (Upstream P × (P → Outlet)) :=
  match u with
  | .xsub x => do
    let (x, outlets) ← x.xattachPipe outlets pipe
    return (.xsub x, outlets)
  | .dish x => .ok (.dish (x.xattachPipe outlets pipe).1, (x.xattachPipe outlets pipe).2)

def xwriteActivated : Upstream P → P → Upstream P
  | .xsub x, pipe => .xsub (x.xwriteActivated pipe)
  | .dish x, pipe => .dish (x.xwriteActivated pipe)

def xpipeTerminated : Upstream P → P → Upstream P
  | .xsub x, pipe => .xsub (x.xpipeTerminated pipe)
  | .dish x, pipe => .dish (x.xpipeTerminated pipe)

def xhiccuped (u : Upstream P) (outlets : P → Outlet) (pipe : P) : Except SubFault (P → Outlet) :=
  match u with
  | .xsub x => x.xhiccuped outlets pipe
  | .dish x => .ok (x.xhiccuped outlets pipe)

variable {u u' : Upstream P} {w w' : P → Outlet} {p : P}

theorem counted_of_flags {m : Msg} (h : m.flags = 0) : PipeT.counted m = true := by
  simp [PipeT.counted, Msg.hasMore, Msg.isIdentity, Msg.identity, h]

omit [DecidableEq P] in
theorem cached_counted {msgs : List Msg} (h : u.cached = .ok msgs) : ∀ m ∈ msgs, PipeT.counted m = true := by
  intro m hm
  cases u with
  | xsub x =>
    unfold cached XsubT.cached at h
    cases ha : x.subscriptions.apply with
    | error e => simp [ha, ofTrie, Except.mapError, Functor.map, Except.map] at h
    | ok topics =>
      simp only [ha, ofTrie, Except.mapError, Functor.map, Except.map] at h
      cases h
      obtain ⟨topic, -, rfl⟩ := List.mem_map.mp hm
      exact counted_of_flags rfl
  | dish x =>
    cases h
    obtain ⟨group, -, rfl⟩ := List.mem_map.mp hm
    exact counted_of_flags rfl

theorem xattachPipe_ok (h : u.xattachPipe w p = .ok (u', w')) : u'.dist = u.dist.attach p ∧
    ∃ msgs, u.cached = .ok msgs ∧ w' = update w p ((w p).writeAll msgs).flush := by
  cases u with
  | xsub x =>
    obtain ⟨⟨x', w1⟩, hx, h⟩ := bind_ok h
    cases h
    obtain ⟨w2, hw, hx⟩ := bind_ok hx
    cases hx
    obtain ⟨msgs, hm, hw⟩ := bind_ok hw
    cases hw
    exact ⟨rfl, msgs, hm, rfl⟩
  | dish x =>
    cases h
    exact ⟨rfl, _, rfl, rfl⟩

theorem xhiccuped_ok (h : u.xhiccuped w p = .ok w') :
    ∃ msgs, u.cached = .ok msgs ∧ w' = update w p ((w p).writeAll msgs).flush := by
  cases u with
  | xsub x =>
    obtain ⟨msgs, hm, hw⟩ := bind_ok h
    cases hw
    exact ⟨msgs, hm, rfl⟩
  | dish x =>
    cases h
    exact ⟨_, rfl, rfl⟩

theorem xwriteActivated_dist : (u.xwriteActivated p).dist = u.dist.activated p := by cases u <;> rfl

theorem xpipeTerminated_dist : (u.xpipeTerminated p).dist = u.dist.pipeTerminated p := by cases u <;> rfl

end Upstream

structure Subscriber (P : Type) where
  socket : Upstream P
  outlets : P → Outlet

namespace Subscriber

open LoadBalancer (unattached endOf frame)

variable {P : Type}

inductive Op (P : Type) where
  | attach (pipe : P) (self : PipeT)
  | drift (pipe : P) (outlet : Outlet)
  | activateWrite (pipe : P) (msgsRead : UInt64)
  | hiccup (pipe : P) (queue : ℕ) (dropped : UInt64)
  | pipeTerminated (pipe : P)
  | xsend (msg : Msg)
  | xjoin (group : List UInt8)
  | xleave (group : List UInt8)

variable [DecidableEq P] (s : Subscriber P)

/-- What pipes keep to: a pipe is new and active when it is attached. -/
def Ready : Op P → Prop
  | .attach p self => p ∉ s.socket.dist.pipes ∧ self.outActive = true ∧ self.state = .active
  | .drift p o => Outlet.Drifts (s.outlets p) o
  | .activateWrite p _ | .hiccup p _ _ | .pipeTerminated p => p ∈ s.socket.dist.pipes
  | .xsend _ => ∃ x, s.socket = .xsub x
  | .xjoin _ | .xleave _ => ∃ x, s.socket = .dish x

instance (u : Upstream P) : Decidable (∃ x, u = .xsub x) :=
  match u with
  | .xsub x => .isTrue ⟨x, rfl⟩
  | .dish _ => .isFalse (by rintro ⟨x, ⟨⟩⟩)

instance (u : Upstream P) : Decidable (∃ x, u = .dish x) :=
  match u with
  | .dish x => .isTrue ⟨x, rfl⟩
  | .xsub _ => .isFalse (by rintro ⟨x, ⟨⟩⟩)

instance (op : Op P) : Decidable (s.Ready op) := by
  cases op <;> unfold Ready <;> infer_instance

def run : Op P → Except SubFault (Subscriber P)
  | .attach p self => do
    let (socket, outlets) ← s.socket.xattachPipe (update s.outlets p ⟨self, Staged.empty⟩) p
    return ⟨socket, outlets⟩
  | .drift p o => .ok { s with outlets := update s.outlets p o }
  | .activateWrite p n =>
    let o := s.outlets p
    let s := { s with outlets := update s.outlets p { o with
      self := { o.self with peersMsgsRead := n, outActive := o.self.outActive || o.self.state == .active } } }
    .ok (if !o.self.outActive && o.self.state == .active then { s with socket := s.socket.xwriteActivated p } else s)
  | .hiccup p a n => do
    let outlets := update s.outlets p ((s.outlets p).processHiccup a n)
    return { s with outlets := ← if (s.outlets p).self.state = .active then s.socket.xhiccuped outlets p else .ok outlets }
  | .pipeTerminated p => .ok ⟨s.socket.xpipeTerminated p, update s.outlets p (s.outlets p).closed⟩
  | .xsend m => match s.socket with
    | .xsub x => do
      let (x, outlets) ← x.xsend s.outlets m
      return ⟨.xsub x, outlets⟩
    | .dish _ => .ok s
  | .xjoin g => match s.socket with
    | .dish x => do
      let (_, x, outlets) ← x.xjoin s.outlets g
      return ⟨.dish x, outlets⟩
    | .xsub _ => .ok s
  | .xleave g => match s.socket with
    | .dish x => do
      let (_, x, outlets) ← x.xleave s.outlets g
      return ⟨.dish x, outlets⟩
    | .xsub _ => .ok s

def Start : Prop :=
  (∃ filter, s = ⟨.xsub (.new filter), fun _ => unattached⟩) ∨ s = ⟨.dish .new, fun _ => unattached⟩

abbrev Step : Subscriber P → Op P → Subscriber P → Prop := Does Ready run

/-- The distributor and the pipes agree on which ends can be written. -/
def InStep (s : Subscriber P) : Prop := s.socket.dist.InStep s.outlets

def cost : ℕ := match s.socket.cached with
  | .ok msgs => msgs.length
  | .error _ => 0

/-- A new pipe has room for all subscriptions. A pipe that has hiccuped has room for them exactly if it was eligible. -/
def Keeps : Op P → Prop
  | .attach _ self => Outlet.Room s.cost self
  | .hiccup p a n => (s.outlets p).self.state = .active →
    (Outlet.Room s.cost ((s.outlets p).processHiccup a n).self ↔ s.socket.dist.Eligible p)
  | _ => True

instance (d : DistT P) (p : P) : Decidable (d.Eligible p) := inferInstanceAs (Decidable (_ ∧ _))

instance (op : Op P) : Decidable (s.Keeps op) := by
  cases op <;> unfold Keeps <;> infer_instance

variable {s s' : Subscriber P} {p : P}

omit [DecidableEq P] in
theorem cost_room {msgs : List Msg} {o : Outlet} (h : s.socket.cached = .ok msgs) (ha : o.self.outActive = true)
    (hs : o.self.state = .active) : ((o.writeAll msgs).flush.self.outActive = true ↔ Outlet.Room s.cost o.self) ∧
      (o.writeAll msgs).flush.self.state = .active := by
  have hcost : s.cost = msgs.length := by simp [cost, h]
  rw [hcost, Outlet.flush_self]
  exact Outlet.writeAll_outActive ha hs (Upstream.cached_counted h)

theorem attach_step {self : PipeT} (hwf : s.socket.dist.Wf) (hi : s.InStep) (hr : s.Ready (.attach p self))
    (hs : s.run (.attach p self) = .ok s') : s'.socket.dist.Wf ∧ (s'.InStep ↔ s.Keeps (.attach p self)) := by
  obtain ⟨hp, ha, hactive⟩ := hr
  obtain ⟨⟨socket, outlets⟩, hx, hs⟩ := bind_ok hs
  cases hs
  obtain ⟨hdist, msgs, hm, hw⟩ := Upstream.xattachPipe_ok hx
  rw [update_self, update_idem] at hw
  obtain ⟨hroom, hstate⟩ := cost_room (o := ⟨self, Staged.empty⟩) hm ha hactive
  unfold InStep
  rw [hdist, hw, DistT.attach_inStep hwf hi hp hstate]
  exact ⟨DistT.attach_wf hwf hp, hroom⟩

theorem hiccup_step {a : ℕ} {n : UInt64} (hwf : s.socket.dist.Wf) (hi : s.InStep) (hp : p ∈ s.socket.dist.pipes)
    (hs : s.run (.hiccup p a n) = .ok s') : s'.socket.dist.Wf ∧ (s'.InStep ↔ s.Keeps (.hiccup p a n)) := by
  unfold Subscriber.run at hs
  dsimp only at hs
  unfold InStep Keeps
  split_ifs at hs with hactive
  · obtain ⟨outlets, hx, hs⟩ := bind_ok hs
    cases hs
    obtain ⟨msgs, hm, hw⟩ := Upstream.xhiccuped_ok hx
    rw [update_self, update_idem] at hw
    obtain ⟨hroom, hstate⟩ := cost_room (o := (s.outlets p).processHiccup a n) hm rfl hactive
    rw [hw, DistT.update_inStep hi hp, hroom]
    refine ⟨hwf, ?_⟩
    simp only [hstate, hactive]
  · cases hs
    refine ⟨hwf, ?_⟩
    rw [DistT.update_inStep hi hp]
    exact iff_of_true (fun hc => absurd hc hactive) fun hc => absurd hc hactive

theorem xsend_step {m : Msg} (hwf : s.socket.dist.Wf) (hi : s.InStep) (hs : s.run (.xsend m) = .ok s') :
    s'.socket.dist.Wf ∧ s'.InStep := by
  unfold Subscriber.run at hs
  cases hsock : s.socket with
  | dish x =>
    simp only [hsock] at hs
    cases hs
    exact ⟨hwf, hi⟩
  | xsub x =>
    unfold InStep at hi
    rw [hsock] at hwf hi
    simp only [hsock] at hs
    obtain ⟨⟨x', w⟩, hx, hs⟩ := bind_ok hs
    cases hs
    have hall : ∀ y : XsubT P, y.sendToAll s.outlets m = .ok (x', w) → y.dist = x.dist →
        x'.dist.Wf ∧ x'.dist.InStep w := by
      intro y hsend hy
      obtain ⟨⟨d, w1⟩, hd, hsend⟩ := bind_ok hsend
      cases hsend
      rw [hy] at hd
      exact DistT.sendToAll_inStep hwf hi (SubFault.ofSocket_ok hd)
    unfold XsubT.xsend at hx
    split at hx
    · exact hall x hx rfl
    · split_ifs at hx
      · obtain ⟨y, -, hx⟩ := bind_ok hx
        exact hall _ hx rfl
      · obtain ⟨y, -, hx⟩ := bind_ok hx
        dsimp only at hx
        split_ifs at hx
        · exact hall _ hx rfl
        · cases hx
          exact ⟨hwf, hi⟩
      · exact hall x hx rfl

theorem dish_step {x x' : DishT P} {w w' : P → Outlet} {g : List UInt8} {b : Bool} (hwf : x.dist.Wf)
    (hi : x.dist.InStep w) (hx : x.xjoin w g = .ok (b, x', w') ∨ x.xleave w g = .ok (b, x', w')) :
    x'.dist.Wf ∧ x'.dist.InStep w' := by
  have hall : ∀ (y : DishT P) (m : Msg), (y.sendToAll w m >>= fun z => .ok (true, z.1, z.2)) = .ok (b, x', w') →
      y.dist = x.dist → x'.dist.Wf ∧ x'.dist.InStep w' := by
    intro y m hsend hy
    obtain ⟨z, hsend, he⟩ := bind_ok hsend
    obtain ⟨-, he⟩ := ok_pair he
    obtain rfl : z = (x', w') := he
    obtain ⟨⟨d, w2⟩, hd, hsend⟩ := bind_ok hsend
    cases hsend
    rw [hy] at hd
    exact DistT.sendToAll_inStep hwf hi (SubFault.ofSocket_ok hd)
  have hsame : (ok (false, x, w) : Except SubFault (Bool × DishT P × (P → Outlet))) = .ok (b, x', w') →
      x'.dist.Wf ∧ x'.dist.InStep w' := by
    intro he
    cases he
    exact ⟨hwf, hi⟩
  rcases hx with hx | hx
  · unfold DishT.xjoin at hx
    split_ifs at hx
    · exact hsame hx
    · exact hall _ _ hx rfl
  · unfold DishT.xleave at hx
    split_ifs at hx
    · exact hsame hx
    · exact hall _ _ hx rfl

theorem step_iff {op : Op P} (hwf : s.socket.dist.Wf) (hi : s.InStep) (hr : s.Ready op) (hs : s.run op = .ok s') :
    s'.socket.dist.Wf ∧ (s'.InStep ↔ s.Keeps op) := by
  have htrue : s'.socket.dist.Wf ∧ s'.InStep → s'.socket.dist.Wf ∧ (s'.InStep ↔ True) :=
    fun h => ⟨h.1, iff_of_true h.2 trivial⟩
  cases op with
  | attach p self => exact attach_step hwf hi hr hs
  | hiccup p a n => exact hiccup_step hwf hi hr hs
  | drift p o =>
    cases hs
    exact htrue ⟨hwf, DistT.drift_inStep hi hr⟩
  | activateWrite p n =>
    cases hs
    have hp : p ∈ s.socket.dist.pipes := hr
    refine htrue ?_
    unfold InStep
    cases hc : (!(s.outlets p).self.outActive && (s.outlets p).self.state == .active) with
    | true =>
      obtain ⟨ha, hactive⟩ : (s.outlets p).self.outActive = false ∧ (s.outlets p).self.state = .active := by
        simpa using hc
      rw [if_pos rfl]
      rw [Upstream.xwriteActivated_dist]
      exact DistT.activated_inStep hwf hi hp ha hactive (by simp [hactive])
    | false =>
      refine ⟨hwf, (DistT.update_inStep hi hp).mpr fun hactive => ?_⟩
      rw [← hi p hp hactive]
      simp_all
  | pipeTerminated p =>
    cases hs
    refine htrue ?_
    unfold InStep
    rw [Upstream.xpipeTerminated_dist]
    exact DistT.pipeTerminated_inStep hwf hi hr
  | xsend m => exact htrue (xsend_step hwf hi hs)
  | xjoin g | xleave g =>
    refine htrue ?_
    obtain ⟨x, hx⟩ := hr
    unfold InStep at hi
    unfold Subscriber.run at hs
    rw [hx] at hwf hi
    simp only [hx] at hs
    obtain ⟨⟨b, x', w'⟩, hj, hs⟩ := bind_ok hs
    cases hs
    first
      | exact dish_step hwf hi (.inl hj)
      | exact dish_step hwf hi (.inr hj)

theorem start_inStep (h : Start s) : s.socket.dist.Wf ∧ s.InStep := by
  have hempty : ∀ q, q ∉ (DistT.new : DistT P).pipes := nofun
  rcases h with ⟨filter, rfl⟩ | rfl
  · exact ⟨DistT.new_wf, fun q hq => absurd hq (hempty q)⟩
  · exact ⟨DistT.new_wf, fun q hq => absurd hq (hempty q)⟩

theorem run_inStep {ops : List (Op P)} (h : Run Start (Guarded Keeps Step) ops s) : s.socket.dist.Wf ∧ s.InStep :=
  h.invariant (fun s => s.socket.dist.Wf ∧ s.InStep) (fun _ => start_inStep) fun _ _ _ hI hs =>
    (step_iff hI.1 hI.2 hs.2.1 hs.2.2).imp_right fun h => h.mpr hs.1

/-- The distributor and the pipes agree in every state of a run exactly if each step meets the condition. -/
theorem dist_in_step {ops : List (Op P)} :
    Run Start (Guarded (fun s _ => s.InStep) Step) ops s ∧ s.InStep ↔ Run Start (Guarded Keeps Step) ops s := by
  constructor
  · rintro ⟨h, hi⟩
    induction h with
    | nil h0 => exact .nil h0
    | snoc _ hs ih =>
      have hrun := ih hs.1
      obtain ⟨hwf, hinStep⟩ := run_inStep hrun
      exact hrun.snoc ⟨(step_iff hwf hinStep hs.2.1 hs.2.2).2.mp hi, hs.2⟩
  · intro h
    refine ⟨?_, (run_inStep h).2⟩
    induction h with
    | nil h0 => exact .nil h0
    | snoc h hs ih => exact ih.snoc ⟨(run_inStep h).2, hs.2⟩

/-- A pipe with room for one message is full, and then hiccups: it can be written, and the distributor does not
know. A pipe with room for one message is given two subscriptions when it is attached: it cannot be written,
and the distributor does not know. -/
theorem dist_out_of_step :
    (∃ s : Subscriber ℕ, Run Start Step [.attach 0 (endOf 1), .xsend (frame 7), .xsend (frame 7), .hiccup 0 2 1] s ∧
      (s.outlets 0).self.outActive = true ∧ ¬ s.socket.dist.Eligible 0 ∧ ¬ s.InStep) ∧
    ∃ s : Subscriber ℕ, Run Start Step [.xjoin [65], .xjoin [66], .attach 0 (endOf 1)] s ∧
      (s.outlets 0).self.outActive = false ∧ s.socket.dist.Eligible 0 ∧ ¬ s.InStep := by
  constructor
  · exact exists_run_free (P := fun s => (s.outlets 0).self.outActive = true ∧ (s.outlets 0).self.state = .active ∧
        0 ∈ s.socket.dist.pipes ∧ ¬ s.socket.dist.Eligible 0)
      (.inl ⟨false, rfl⟩ : Start ⟨.xsub (.new false), fun _ => unattached⟩) (by decide +kernel)
      fun _ _ ⟨ha, hstate, hmem, helig⟩ => ⟨ha, helig, fun h => helig ((h 0 hmem hstate).mp ha)⟩
  · exact exists_run_free (P := fun s => (s.outlets 0).self.outActive = false ∧ (s.outlets 0).self.state = .active ∧
        s.socket.dist.Eligible 0) (.inr rfl : Start ⟨.dish .new, fun _ => unattached⟩) (by decide +kernel)
      fun _ _ ⟨ha, hstate, helig⟩ =>
        ⟨ha, helig, fun h => false_ne_true (ha.symm.trans ((h 0 helig.1 hstate).mpr helig))⟩

end Subscriber

end Zmq
