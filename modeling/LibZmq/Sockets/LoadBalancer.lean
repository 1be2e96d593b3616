import LibZmq.Sockets.Lb

/-! Load balancing over pipes that come, go, fill up and start to terminate at any time,
and a caller that sends messages frame by frame. What the pipes hold is compared with what
the caller has sent. -/

namespace Zmq

open List Bool Prod

open Function (update update_of_ne update_self)

universe u

structure LoadBalancer (P : Type u) where
  lb : LbT P
  outlets : P → Outlet
  sent : List (List Msg)
  begun : List Msg
  /-- the next frame of that message has been refused -/
  refused : Bool

namespace LoadBalancer

variable {P : Type u}

def unattached : Outlet :=
  ⟨⟨none, none, false, false, 0, 0, 0, 0, 0, 0, 0, false, .termAckSent, false, []⟩, Staged.empty⟩

def new : LoadBalancer P := ⟨.new, fun _ => unattached, [], [], false⟩

inductive Op (P : Type u) where
  | attach (pipe : P) (self : PipeT)
  | drift (pipe : P) (outlet : Outlet)
  | activated (pipe : P) (msgsRead : UInt64)
  | pipeTerminated (pipe : P)
  | sendpipe (msg : Msg)
  | abandon
  | hasOut

variable [DecidableEq P] (s : LoadBalancer P)

/-- What pipes and the caller keep to: a pipe is new when it is attached, it is activated when it was
not active, and no frame is a delimiter. -/
def Ready : Op P → Prop
  | .attach p self => p ∉ s.lb.pipes ∧ (s.outlets p).written = [] ∧ self.outActive = true ∧ self.outpipe ≠ none
  | .drift p o => Outlet.Drifts (s.outlets p) o
  | .activated p _ => p ∈ s.lb.pipes ∧ (s.outlets p).self.outActive = false ∧ (s.outlets p).self.state = .active
  | .pipeTerminated p => p ∈ s.lb.pipes
  | .sendpipe m => m.isDelimiter = false
  | .abandon => s.refused = true
  | .hasOut => True

instance (op : Op P) : Decidable (s.Ready op) := by
  cases op <;> unfold Ready <;> infer_instance

def accepted (m : Msg) : LoadBalancer P :=
  if m.hasMore then { s with begun := s.begun ++ [m], refused := false }
  else { s with sent := s.sent ++ [s.begun ++ [m]], begun := [], refused := false }

def run : Op P → Except SocketFault (LoadBalancer P)
  | .attach p self => .ok { s with
      lb := s.lb.attach p, outlets := update s.outlets p ⟨self, Staged.empty⟩ }
  | .drift p o => .ok { s with outlets := update s.outlets p o }
  | .activated p n =>
    -- the pipe is swapped with the first one that is not active
    if s.lb.active < s.lb.pipes.size then .ok { s with
      lb := s.lb.activated p
      outlets := update s.outlets p { s.outlets p with
        self := { (s.outlets p).self with peersMsgsRead := n, outActive := true } } }
    else .error .outOfBounds
  | .pipeTerminated p => .ok { s with
      lb := s.lb.pipeTerminated p, outlets := update s.outlets p (s.outlets p).closed }
  | .sendpipe m => do
    let (rc, lb, outlets) ← s.lb.sendpipe s.outlets m
    let s := { s with lb := lb, outlets := outlets }
    return if rc then s.accepted m else { s with refused := !s.begun.isEmpty }
  | .abandon => .ok { s with begun := [], refused := false }
  | .hasOut => do
    let (_, lb, outlets) ← s.lb.hasOut s.outlets
    return { s with lb := lb, outlets := outlets }

def Start : Prop := s = new

abbrev Step : LoadBalancer P → Op P → LoadBalancer P → Prop := Does Ready run

/-- Each message that has been sent is all in one pipe or in none, in order, and nothing else is in a
pipe than the first frames of the message being sent, in one pipe at most. -/
structure Whole (s : LoadBalancer P) : Prop where
  complete : ∃ assigned : List (List Msg × Option P), assigned.map fst = s.sent ∧
    ∀ p, (s.outlets p).written = (assigned.filter fun x => x.2 = some p).flatMap fst
  part : ∃ target : Option P, ∀ p, (s.outlets p).part = [] ∨ target = some p ∧ (s.outlets p).part = s.begun

def Safe : Prop := ∀ op, s.Ready op → ∃ s', s.run op = .ok s'

/-- Not a termination that moves the pipe being written, the last active one, to another place than the
one `current` goes to; not an activation while all pipes count as active; and not the next frame of a message
whose frame has been refused. -/
def Keeps : Op P → Prop
  | .pipeTerminated p => ¬ (s.lb.more = true ∧ s.lb.dropping = false ∧ 0 < s.lb.pipes.index p ∧
      s.lb.pipes.index p < s.lb.current ∧ s.lb.current + 1 = s.lb.active)
  | .activated _ _ => s.lb.active < s.lb.pipes.size
  | .sendpipe _ => s.refused = false
  | _ => True

instance (op : Op P) : Decidable (s.Keeps op) := by
  cases op <;> unfold Keeps <;> infer_instance

def Assigned (sent : List (List Msg)) (outlets : P → Outlet) : Prop :=
  ∃ assigned : List (List Msg × Option P), assigned.map fst = sent ∧
    ∀ p, (outlets p).written = (assigned.filter fun x => x.2 = some p).flatMap fst

structure Sound (s : LoadBalancer P) : Prop where
  wf : s.lb.Wf
  linked : ∀ p, (s.outlets p).self.state = .active → (s.outlets p).self.outpipe ≠ none
  assigned : Assigned s.sent s.outlets
  more : s.lb.more = (!s.begun.isEmpty && !s.refused)
  dropping : s.lb.dropping = true → s.lb.more = true
  frames : ∀ m ∈ s.begun, m.isDelimiter = false
  part : ∀ p, (s.outlets p).part = [] ∨ s.lb.more = true ∧ s.lb.dropping = false ∧ s.lb.IsCurrent p ∧ (s.outlets p).part = s.begun
  current : s.lb.more = true → s.lb.dropping = false → ∃ p, s.lb.IsCurrent p ∧
    ((s.outlets p).self.state = .active → (s.outlets p).self.outActive = true ∧ (s.outlets p).part = s.begun)

variable {s s' : LoadBalancer P} {p : P} {m : Msg} {sent : List (List Msg)} {outlets : P → Outlet} {o : Outlet} {msg : List Msg}

theorem Sound.whole (h : s.Sound) : s.Whole := by
  refine ⟨h.assigned, ?_⟩
  by_cases hc : ∃ p, (s.outlets p).part ≠ []
  · obtain ⟨p, hp⟩ := hc
    obtain ⟨hm, hd, hcur, -⟩ := (h.part p).resolve_left hp
    refine ⟨some p, fun q => ?_⟩
    rcases h.part q with hq | ⟨-, -, hq, hbegun⟩
    · exact .inl hq
    · exact .inr ⟨congrArg some (hcur.unique hq), hbegun⟩
  · exact ⟨none, fun q => .inl (by_contra fun hq => hc ⟨q, hq⟩)⟩

theorem assigned_update (h : Assigned sent outlets)
    (ho : o.written = (outlets p).written) : Assigned sent (update outlets p o) := by
  obtain ⟨assigned, hmap, hw⟩ := h
  refine ⟨assigned, hmap, fun q => ?_⟩
  rcases eq_or_ne q p with rfl | hne
  · rw [update_self, ho, hw]
  · rw [update_of_ne hne, hw]

theorem assigned_snoc (h : Assigned sent outlets) (ho : o.written = (outlets p).written ++ msg) :
    Assigned (sent ++ [msg]) (update outlets p o) := by
  obtain ⟨assigned, hmap, hw⟩ := h
  refine ⟨assigned ++ [(msg, some p)], by simp [hmap], fun q => ?_⟩
  rw [filter_append, flatMap_append, ← hw]
  rcases eq_or_ne q p with rfl | hne
  · rw [update_self, ho]
    simp
  · rw [update_of_ne hne]
    simp [hne.symm]

theorem assigned_drop (h : Assigned sent outlets) : Assigned (sent ++ [msg]) outlets := by
  obtain ⟨assigned, hmap, hw⟩ := h
  refine ⟨assigned ++ [(msg, none)], by simp [hmap], fun q => ?_⟩
  rw [filter_append, flatMap_append, ← hw]
  simp

theorem Sound.fade (h : s.Sound) (hd : Outlet.Fades (s.outlets p) o)
    (ha : s.lb.more = true → (s.outlets p).self.outActive = true → o.self.outActive = true ∨ o.self.state ≠ .active) :
    Sound { s with outlets := update s.outlets p o } := by
  refine ⟨h.wf, ?_, assigned_update h.assigned hd.written, h.more, h.dropping, h.frames, ?_, ?_⟩
  · intro q hq
    change (update s.outlets p o q).self.state = .active at hq
    change (update s.outlets p o q).self.outpipe ≠ none
    rcases eq_or_ne q p with rfl | hne
    · rw [update_self] at hq ⊢
      have hs : (s.outlets q).self.state = .active := by
        by_contra hs
        exact hd.closed hs hq
      exact (hd.linked (h.linked q hs)).resolve_right fun hc => hc hq
    · rw [update_of_ne hne] at hq ⊢
      exact h.linked q hq
  · intro q
    change (update s.outlets p o q).part = [] ∨ s.lb.more = true ∧ s.lb.dropping = false ∧
      s.lb.IsCurrent q ∧ (update s.outlets p o q).part = s.begun
    rcases eq_or_ne q p with rfl | hne
    · rw [update_self]
      rcases hd.part with hp | ⟨hp, -⟩
      · rw [hp]
        exact h.part q
      · exact .inl hp
    · rw [update_of_ne hne]
      exact h.part q
  · intro hm hdrop
    obtain ⟨q, hc, hq⟩ := h.current hm hdrop
    refine ⟨q, hc, fun hs => ?_⟩
    change (update s.outlets p o q).self.state = .active at hs
    change (update s.outlets p o q).self.outActive = true ∧ (update s.outlets p o q).part = s.begun
    rcases eq_or_ne q p with rfl | hne
    · rw [update_self] at hs ⊢
      have hs' : (s.outlets q).self.state = .active := by
        by_contra hs'
        exact hd.closed hs' hs
      rw [hd.part.resolve_right fun hc => hc.2 hs]
      exact ⟨(ha hm (hq hs').1).resolve_right fun hc => hc hs, (hq hs').2⟩
    · rw [update_of_ne hne] at hs ⊢
      exact hq hs

theorem Sound.skip (h : s.Sound) (hc : s.lb.IsCurrent p) (hm : s.lb.more = false) :
    Sound { s with
      lb := { s.lb with toRota := s.lb.deactivate }
      outlets := update s.outlets p (s.outlets p).refuse } := by
  have h' := h.fade (Outlet.refuse_fades : (s.outlets p).Fades _) fun hc => nomatch hm.symm.trans hc
  refine ⟨Rota.deactivate_wf h.wf hc, h'.linked, h'.assigned, h'.more, h'.dropping, h'.frames, fun q => ?_, fun hc => ?_⟩
  · exact .inl ((h'.part q).resolve_right fun hq => false_ne_true (hm.symm.trans hq.1))
  · exact nomatch hm.symm.trans hc

theorem Sound.skips {r r' : Rota P} {w w' : P → Outlet} (hs : Rota.Skips LbT.Refuses r w r' w')
    (hm : s.lb.more = false) (h : Sound { s with lb := { s.lb with toRota := r }, outlets := w }) :
    Sound { s with lb := { s.lb with toRota := r' }, outlets := w' } := by
  induction hs with
  | done => exact h
  | skip hc ho _ ih =>
    rw [ho.2] at ih
    exact ih (h.skip hc hm)

theorem Sound.searched {r : Rota P} {w : P → Outlet} (h : s.Sound) (hs : Rota.Skips LbT.Refuses s.lb.toRota s.outlets r w)
    (hm : s.lb.more = true → r = s.lb.toRota ∧ w = s.outlets) :
    Sound { s with lb := { s.lb with toRota := r }, outlets := w } := by
  cases hmore : s.lb.more with
  | true =>
    obtain ⟨rfl, rfl⟩ := hm hmore
    exact h
  | false => exact Sound.skips hs hmore h

theorem Sound.begun_nil (h : s.Sound) (hr : s.refused = false) (hm : s.lb.more = false) : s.begun = [] := by
  have := h.more
  rw [hm, hr] at this
  simpa using this.symm

theorem Sound.part_nil (h : s.Sound) (hm : s.lb.more = false ∨ s.lb.dropping = true) (q : P) : (s.outlets q).part = [] := by
  refine (h.part q).resolve_right fun hq => ?_
  rcases hm with hm | hm
  · exact false_ne_true (hm.symm.trans hq.1)
  · exact false_ne_true (hq.2.1.symm.trans hm)

theorem Sound.part_current (h : s.Sound) (hr : s.refused = false) (hd : s.lb.dropping = false) (hc : s.lb.IsCurrent p)
    (hs : (s.outlets p).self.state = .active) : (s.outlets p).part = s.begun := by
  cases hm : s.lb.more with
  | true =>
    obtain ⟨q, hq, hp⟩ := h.current hm hd
    obtain rfl := hc.unique hq
    exact (hp hs).2
  | false => rw [h.part_nil (.inl hm), h.begun_nil hr hm]

theorem Sound.part_other (h : s.Sound) (hc : s.lb.IsCurrent p) {q : P} (hne : q ≠ p) : (s.outlets q).part = [] :=
  (h.part q).resolve_right fun hq => hne (hq.2.2.1.unique hc)

theorem Sound.write (h : s.Sound) (hr : s.refused = false) (hd : s.lb.dropping = false) (hc : s.lb.IsCurrent p)
    (hw : (s.outlets p).self.checkWrite.1 = true) (hm : m.isDelimiter = false) :
    Sound (accepted { s with
      lb := s.lb.written m
      outlets := update s.outlets p
        (if m.hasMore then (s.outlets p).accept m else ((s.outlets p).accept m).flush) } m) := by
  obtain ⟨hactive, hstate, -⟩ := Outlet.checkWrite_true hw
  have hpart := h.part_current hr hd hc hstate
  have hlink := h.linked p hstate
  have hlinked : ∀ o, o.self = ((s.outlets p).accept m).self → ∀ q, (update s.outlets p o q).self.state = .active →
      (update s.outlets p o q).self.outpipe ≠ none := by
    intro o ho q hq
    rcases eq_or_ne q p with rfl | hne
    · rw [update_self, ho]
      exact hlink
    · rw [update_of_ne hne] at hq ⊢
      exact h.linked q hq
  cases hmore : m.hasMore with
  | true =>
    obtain ⟨hp, hw⟩ := Outlet.accept_more hmore hlink
    rw [hpart] at hp
    simp only [accepted, LbT.written, hmore, if_true]
    refine ⟨h.wf, hlinked _ rfl, assigned_update h.assigned hw, by simp, fun _ => rfl, ?_, fun q => ?_, fun _ _ => ?_⟩
    · intro x hx
      rcases mem_append.mp hx with hx | hx
      · exact h.frames x hx
      · exact mem_singleton.mp hx ▸ hm
    · rcases eq_or_ne q p with rfl | hne
      · refine .inr ⟨rfl, hd, hc, ?_⟩
        dsimp only
        rw [update_self, hp]
      · left
        dsimp only
        rw [update_of_ne hne]
        exact h.part_other hc hne
    · refine ⟨p, hc, fun _ => ?_⟩
      dsimp only
      rw [update_self, hp]
      exact ⟨hactive, rfl⟩
  | false =>
    obtain ⟨hp, hw⟩ := Outlet.accept_last hmore hm (by rw [hpart]; exact h.frames) hlink
    rw [hpart, append_assoc] at hw
    simp only [accepted, LbT.written, hmore, false_eq_true, if_false]
    refine ⟨Rota.advance_wf h.wf hc.active_pos, hlinked _ Outlet.flush_self,
      assigned_snoc h.assigned (Outlet.flush_written.trans hw), rfl, fun hx => ?_, fun x hx => ?_, fun q => .inl ?_,
      fun hx => ?_⟩
    · exact nomatch hd.symm.trans hx
    · exact nomatch hx
    · dsimp only
      rcases eq_or_ne q p with rfl | hne
      · rw [update_self, Outlet.flush_part, hp]
      · rw [update_of_ne hne]
        exact h.part_other hc hne
    · exact nomatch hx

theorem Sound.rollback (h : s.Sound) (hr : s.refused = false) (hm : s.lb.more = true)
    (hd : s.lb.dropping = false) (hc : s.lb.IsCurrent p) (ho : o.written = (s.outlets p).written) (hs : o.self.state = (s.outlets p).self.state)
    (hl : o.self.outpipe = (s.outlets p).self.outpipe) (hp : o.part = []) :
    Sound { s with
      lb := { s.lb with more := false }
      outlets := update s.outlets p o
      refused := !s.begun.isEmpty } := by
  have hb : (!s.begun.isEmpty) = true := by
    have := h.more
    rw [hm, hr, Bool.not_false, Bool.and_true] at this
    exact this.symm
  refine ⟨h.wf, fun q hq => ?_, assigned_update h.assigned ho, by simp, fun hx => ?_, h.frames, fun q => .inl ?_,
    fun hx => ?_⟩
  · change (update s.outlets p o q).self.state = .active at hq
    change (update s.outlets p o q).self.outpipe ≠ none
    rcases eq_or_ne q p with rfl | hne
    · rw [update_self] at hq ⊢
      rw [hl]
      exact h.linked q (hs ▸ hq)
    · rw [update_of_ne hne] at hq ⊢
      exact h.linked q hq
  · exact nomatch hd.symm.trans hx
  · dsimp only
    rcases eq_or_ne q p with rfl | hne
    · rw [update_self, hp]
    · rw [update_of_ne hne]
      exact h.part_other hc hne
  · exact nomatch hx

theorem Sound.drop (h : s.Sound) (hd : s.lb.dropping = true) (hm : m.isDelimiter = false) :
    Sound (accepted { s with lb := { s.lb with more := m.hasMore, dropping := m.hasMore } } m) := by
  cases hmore : m.hasMore with
  | true =>
    simp only [accepted, hmore, if_true]
    refine ⟨h.wf, h.linked, h.assigned, by simp, fun _ => rfl, ?_, fun q => .inl (h.part_nil (.inr hd) q), fun _ hx => ?_⟩
    · intro x hx
      rcases mem_append.mp hx with hx | hx
      · exact h.frames x hx
      · exact mem_singleton.mp hx ▸ hm
    · exact absurd hx.symm false_ne_true
  | false =>
    simp only [accepted, hmore, false_eq_true, if_false]
    exact ⟨h.wf, h.linked, assigned_drop h.assigned, rfl, id, nofun, fun q => .inl (h.part_nil (.inr hd) q), nofun⟩

theorem Sound.sendpipe (h : s.Sound) (hr : s.refused = false) (hm : m.isDelimiter = false) :
    ∃ s', s.run (.sendpipe m) = .ok s' ∧ s'.Sound := by
  simp only [run, LbT.sendpipe]
  by_cases hd : s.lb.dropping = true
  · rw [if_pos hd]
    exact ⟨_, rfl, h.drop hd hm⟩
  rw [if_neg hd]
  have hd : s.lb.dropping = false := eq_false_of_not_eq_true hd
  obtain ⟨r, w, hs, hmore, hx⟩ := @LbT.sendLoop_skips _ _ s.lb s.outlets m _ h.wf rfl
  have h' := h.searched hs hmore
  rcases hx with ⟨hx, ha⟩ | ⟨p, o, hc, ⟨hw, hx⟩ | ⟨hmore', hw, hx⟩⟩
  · -- nothing to write to, so not within a message
    rw [hx]
    refine ⟨_, rfl, ?_⟩
    have hm' : s.lb.more = false := by
      by_contra hm'
      have hm' := eq_true_of_not_eq_false hm'
      obtain ⟨q, hq, -⟩ := h'.current hm' hd
      exact absurd ha (Nat.pos_iff_ne_zero.mp hq.active_pos)
    have hr' : (!s.begun.isEmpty) = s.refused := by
      rw [h.begun_nil hr hm', hr]
      rfl
    rw [hr']
    exact h'
  · rw [hx]
    obtain ⟨hw', rfl⟩ := Outlet.write_true hw
    exact ⟨_, rfl, h'.write hr hd hc hw' hm⟩
  · rw [hx]
    obtain ⟨-, rfl⟩ := Outlet.write_false hw
    exact ⟨_, rfl, h'.rollback hr hmore' hd hc (by simp) (by simp) (by simp) (by simp)⟩

theorem Sound.hasOut (h : s.Sound) : ∃ s', s.run .hasOut = .ok s' ∧ s'.Sound := by
  obtain ⟨b, r, w, hx, hs, hm⟩ := @LbT.hasOut_skips _ _ s.lb s.outlets h.wf
  simp only [run, hx]
  exact ⟨_, rfl, h.searched hs hm⟩

theorem Sound.abandon (h : s.Sound) (hr : s.refused = true) : Sound { s with begun := [], refused := false } := by
  have hm : s.lb.more = false := by
    rw [h.more, hr]
    simp
  refine ⟨h.wf, h.linked, h.assigned, hm, h.dropping, nofun,
    fun q => .inl (h.part_nil (.inl hm) q), fun hx => nomatch hm.symm.trans hx⟩

theorem Sound.attach {self : PipeT} (h : s.Sound) (hp : p ∉ s.lb.pipes) (hw : (s.outlets p).written = [])
    (hl : self.outpipe ≠ none) : Sound { s with lb := s.lb.attach p, outlets := update s.outlets p ⟨self, Staged.empty⟩ } := by
  have hne : ∀ {q}, s.lb.IsCurrent q → q ≠ p := by
    rintro q hq rfl
    exact hp hq.1.1
  have hcurrent : ∀ {q}, s.lb.IsCurrent q → (s.lb.attach p).IsCurrent q := fun hq => Rota.attach_isCurrent h.wf hp hq
  refine ⟨Rota.attach_wf h.wf hp, fun q hq => ?_, assigned_update h.assigned hw.symm, h.more, h.dropping, h.frames,
    fun q => ?_, fun hm hd => ?_⟩
  · change (update s.outlets p _ q).self.state = .active at hq
    change (update s.outlets p _ q).self.outpipe ≠ none
    rcases eq_or_ne q p with rfl | hne
    · rw [update_self]
      exact hl
    · rw [update_of_ne hne] at hq ⊢
      exact h.linked q hq
  · dsimp only
    rcases eq_or_ne q p with rfl | hne
    · rw [update_self]
      exact .inl (if_neg hl)
    · rw [update_of_ne hne]
      exact (h.part q).imp_right fun hq => ⟨hq.1, hq.2.1, hcurrent hq.2.2.1, hq.2.2.2⟩
  · obtain ⟨q, hc, hq⟩ := h.current hm hd
    refine ⟨q, hcurrent hc, ?_⟩
    dsimp only
    rwa [update_of_ne (hne hc)]

theorem Sound.activated {n : UInt64} (h : s.Sound) (hp : p ∈ s.lb.pipes) (ha : (s.outlets p).self.outActive = false)
    (hs : (s.outlets p).self.state = .active) (hlt : s.lb.active < s.lb.pipes.size) :
    Sound { s with
      lb := s.lb.activated p
      outlets := update s.outlets p { s.outlets p with
        self := { (s.outlets p).self with peersMsgsRead := n, outActive := true } } } := by
  have h' := h.fade (p := p) (o := { s.outlets p with
    self := { (s.outlets p).self with peersMsgsRead := n, outActive := true } })
    ⟨rfl, .inl rfl, id, .inl⟩ fun _ _ => .inl rfl
  -- within a message the current pipe is active, so it is another one
  have hne : ∀ {q}, s.lb.more = true → s.lb.dropping = false → s.lb.IsCurrent q → q ≠ p := by
    rintro q hm hd hq rfl
    obtain ⟨q', hc, hq'⟩ := h.current hm hd
    obtain rfl := hc.unique hq
    exact false_ne_true (ha.symm.trans (hq' hs).1)
  refine ⟨Rota.activated_wf h.wf hlt, h'.linked, h'.assigned, h'.more, h'.dropping, h'.frames, fun q => ?_, fun hm hd => ?_⟩
  · exact (h'.part q).imp_right fun hq =>
      ⟨hq.1, hq.2.1, Rota.activated_isCurrent hp hlt (hne hq.1 hq.2.1 hq.2.2.1) hq.2.2.1, hq.2.2.2⟩
  · obtain ⟨q, hc, hq⟩ := h'.current hm hd
    exact ⟨q, Rota.activated_isCurrent hp hlt (hne hm hd hc) hc, hq⟩

theorem Sound.pipeTerminated (h : s.Sound) (hp : p ∈ s.lb.pipes) (hk : s.Keeps (.pipeTerminated p)) :
    Sound { s with lb := s.lb.pipeTerminated p, outlets := update s.outlets p (s.outlets p).closed } := by
  have h' := h.fade (Outlet.closed_fades : (s.outlets p).Fades _) fun _ _ => .inr PipeState.noConfusion
  have hclosed : (update s.outlets p (s.outlets p).closed p).part = [] := by
    rw [update_self]
    exact if_pos rfl
  have hindex : ∀ {q}, s.lb.IsCurrent q → (s.lb.pipes.index p = s.lb.current ↔ p = q) := fun {q} hq => by
    rw [← hq.2, ArrayT.index_inj hp]
  have hcurrent : ∀ {q}, s.lb.more = true → s.lb.dropping = false → s.lb.IsCurrent q → q ≠ p →
      (s.lb.pipeTerminated p).IsCurrent q := fun hm hd hq hne =>
    Rota.pipeTerminated_isCurrent h.wf hp hq hne fun hc => hk ⟨hm, hd, hc⟩
  refine ⟨Rota.pipeTerminated_wf h.wf hp, h'.linked, h'.assigned, h'.more, fun hd => ?_, h'.frames, fun q => ?_, fun hm hd => ?_⟩
  · rcases or_eq_true_iff.mp hd with hd | hd
    · exact h.dropping hd
    · exact (and_eq_true_iff.mp hd).2
  · rcases eq_or_ne q p with rfl | hne
    · exact .inl hclosed
    refine (h'.part q).imp_right fun ⟨hm, hd, hc, hpart⟩ => ⟨hm, ?_, hcurrent hm hd hc hne, hpart⟩
    have hi : s.lb.pipes.index p ≠ s.lb.current := fun hi => hne ((hindex hc).mp hi).symm
    exact Bool.or_eq_false_iff.mpr ⟨hd, by rw [beq_eq_false_iff_ne.mpr hi, Bool.false_and]⟩
  · have hmore : s.lb.more = true := hm
    obtain ⟨hd, hi⟩ := or_eq_false_iff.mp hd
    obtain ⟨q, hc, hq⟩ := h'.current hm hd
    have hne : q ≠ p := by
      rintro rfl
      rw [hmore, (hindex hc).mpr rfl, beq_self_eq_true] at hi
      exact Bool.noConfusion hi
    exact ⟨q, hcurrent hm hd hc hne, hq⟩

theorem Sound.run (h : s.Sound) {op : Op P} (hr : s.Ready op) (hk : s.Keeps op) : ∃ s', s.run op = .ok s' ∧ s'.Sound := by
  cases op with
  | attach p self => exact ⟨_, rfl, h.attach hr.1 hr.2.1 hr.2.2.2⟩
  | drift p o => exact ⟨_, rfl, h.fade hr.toFades fun _ => hr.inactive⟩
  | activated p n => exact ⟨_, if_pos hk, h.activated hr.1 hr.2.1 hr.2.2 hk⟩
  | pipeTerminated p => exact ⟨_, rfl, h.pipeTerminated hr hk⟩
  | sendpipe m => exact h.sendpipe hk hr
  | abandon => exact ⟨_, rfl, h.abandon hr⟩
  | hasOut => exact h.hasOut

theorem new_sound : (new : LoadBalancer P).Sound where
  wf := Rota.empty_wf
  linked _ hp := absurd hp PipeState.noConfusion
  assigned := ⟨[], rfl, fun _ => rfl⟩
  more := rfl
  dropping h := h
  frames _ hm := nomatch hm
  part _ := .inl rfl
  current hm := nomatch hm

theorem run_sound {ops : List (Op P)} (h : Run Start (Guarded Keeps Step) ops s) : s.Sound := by
  refine h.invariant Sound (fun _ h0 => h0 ▸ new_sound) fun s op s' hI hs => ?_
  obtain ⟨hk, hr, hrun⟩ := hs
  obtain ⟨t, ht, hsound⟩ := hI.run hr hk
  cases hrun.symm.trans ht
  exact hsound

/-- In a run in which no call breaks the condition, messages stay whole, and every call that meets the
condition goes through. -/
theorem load_balancing_whole {ops : List (Op P)} (h : Run Start (Guarded Keeps Step) ops s) :
    s.Whole ∧ ∀ op, s.Ready op → s.Keeps op → ∃ s', s.run op = .ok s' :=
  ⟨(run_sound h).whole, fun _ hr hk => ((run_sound h).run hr hk).imp fun _ hs => hs.1⟩

def endOf (hwm : Int32) : PipeT :=
  ⟨some 0, some 1, true, true, hwm, 0, 0, 0, 0, 0, 0, true, .active, true, []⟩

def frame (n : UInt8) : Msg := ⟨.vsm, 0, [n]⟩

def frameMore (n : UInt8) : Msg := ⟨.vsm, Msg.more, [n]⟩

/-- A message is being written to the third of three pipes. -/
def threePipes : List (Op ℕ) :=
  [.attach 0 (endOf 0), .attach 1 (endOf 0), .attach 2 (endOf 0), .sendpipe (frame 1), .sendpipe (frame 2),
    .sendpipe (frameMore 3)]

/-- The first pipe terminates, then the one being written; the rest of the message is dropped. -/
theorem load_balancing_whole_three : ∃ s : LoadBalancer ℕ, Run Start (Guarded Keeps Step)
      (threePipes ++ [.pipeTerminated 0, .pipeTerminated 2, .sendpipe (frame 4), .sendpipe (frame 5)]) s ∧
    (s.outlets 1).written = [frame 2, frame 5] ∧ s.Whole :=
  exists_run (P := fun s => (s.outlets 1).written = [frame 2, frame 5]) (rfl : Start new) (by decide)
    fun _ hs hw => ⟨hw, (load_balancing_whole hs).1⟩

theorem Whole.rest (h : s.Whole) (hm : m ∈ (s.outlets p).written) :
    ∃ msg ∈ s.sent, m ∈ msg ∧ ∀ x ∈ msg, x ∈ (s.outlets p).written := by
  obtain ⟨assigned, hmap, hw⟩ := h.complete
  rw [hw, mem_flatMap] at hm
  obtain ⟨⟨msg, d⟩, hmem, hm⟩ := hm
  obtain ⟨hmem', -⟩ := mem_filter.mp hmem
  refine ⟨msg, hmap ▸ mem_map_of_mem hmem', hm, fun x hx => ?_⟩
  rw [hw, mem_flatMap]
  exact ⟨_, hmem, hx⟩

/-- The peer of the first of two pipes terminates within a message, the frame it refuses is sent again. -/
def sentAgain : List (Op ℕ) :=
  [.attach 0 (endOf 0), .attach 1 (endOf 0), .sendpipe (frameMore 1),
    .drift 0 ⟨{ endOf 0 with state := .waitingForDelimiter }, ⟨[], [], [frameMore 1], false⟩⟩,
    .sendpipe (frame 2), .sendpipe (frame 2)]

/-- The mark of a pipe is lowered within a message, so that the pipe is full. -/
def filledUp : List (Op ℕ) :=
  [.attach 0 (endOf 2), .sendpipe (frame 1), .sendpipe (frameMore 2),
    .drift 0 ⟨{ endOf 1 with msgsWritten := 1 }, ⟨[frame 1], [], [frameMore 2], false⟩⟩, .sendpipe (frame 3)]

/-- The second of three pipes terminates while the third is written; a frame that has been refused is sent
again; and a pipe that has filled up within a message is activated. -/
theorem load_balancing_can_split :
    (∃ s : LoadBalancer ℕ, Run Start Step (threePipes ++ [.pipeTerminated 1, .sendpipe (frame 4)]) s ∧ ¬ s.Whole) ∧
    (∃ s : LoadBalancer ℕ, Run Start Step sentAgain s ∧ ¬ s.Whole) ∧
    ∃ s : LoadBalancer ℕ, Run Start Step filledUp s ∧ ¬ s.Safe := by
  refine ⟨?_, ?_, ?_⟩
  · refine exists_run_free (P := fun s => s.sent = [[frame 1], [frame 2], [frameMore 3, frame 4]] ∧
      (s.outlets 0).written = [frame 1, frame 4]) (rfl : Start new) (by decide) fun s _ ⟨hsent, hw⟩ h => ?_
    have hrest := h.rest (p := 0) (m := frame 4) (by rw [hw]; decide)
    rw [hsent, hw] at hrest
    exact absurd hrest (by decide)
  · refine exists_run_free (P := fun s => s.sent = [[frameMore 1, frame 2]] ∧ (s.outlets 1).written = [frame 2])
      (rfl : Start new) (by decide) fun s _ ⟨hsent, hw⟩ h => ?_
    have hrest := h.rest (p := 1) (m := frame 2) (by rw [hw]; decide)
    rw [hsent, hw] at hrest
    exact absurd hrest (by decide)
  · refine exists_run_free (P := fun s => s.Ready (.activated 0 1) ∧ (s.run (.activated 0 1)).toBool = false)
      (rfl : Start new) (by decide) fun s _ ⟨hr, hfails⟩ hsafe => ?_
    obtain ⟨s', hs'⟩ := hsafe _ hr
    rw [hs'] at hfails
    exact Bool.noConfusion hfails

end LoadBalancer

end Zmq
