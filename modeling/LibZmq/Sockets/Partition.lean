import LibZmq.Sockets.LoadBalancer

/-! Which pipes `lb_t` takes for writable. The place of a pipe in the array is compared with what the pipe itself says. -/

namespace Zmq

open Function

namespace LoadBalancer

universe u

variable {P : Type u} [DecidableEq P]

/-- The array begins with the pipes that can be written to. -/
structure Partitioned (s : LoadBalancer P) : Prop where
  active_le : s.lb.active ≤ s.lb.pipes.size
  current : s.lb.current < s.lb.active ∨ s.lb.current = 0
  full : ∀ p ∈ s.lb.pipes, (s.outlets p).self.state = .active → (s.outlets p).self.outActive = false →
    s.lb.active ≤ s.lb.pipes.index p
  writable : ∀ p ∈ s.lb.pipes, (s.outlets p).self.state = .active → (s.outlets p).self.outActive = true →
    s.lb.pipes.index p < s.lb.active

/-- A frame in the middle of a message does not find the pipe full. -/
def Fits (s : LoadBalancer P) : Op P → Prop
  | .sendpipe _ => s.lb.more = true → s.lb.dropping = false → (s.lb.pipes.get s.lb.current).all fun p =>
      (s.outlets p).self.checkWrite.1 || (s.outlets p).self.state != .active
  | _ => True

instance (s : LoadBalancer P) (op : Op P) : Decidable (s.Fits op) := by
  induction op using Op.casesOn <;> unfold Fits <;> infer_instance

def Matched (r : Rota P) (outlets : P → Outlet) : Prop :=
  ∀ p ∈ r.pipes, (outlets p).self.state = .active → ((outlets p).self.outActive = true ↔ r.IsActive p)

variable {s : LoadBalancer P} {r r' : Rota P} {w w' : P → Outlet} {o : Outlet} {p : P}

theorem partitioned (hwf : s.lb.Wf) (h : Matched s.lb.toRota s.outlets) : s.Partitioned where
  active_le := hwf.active_le
  current := hwf.current_lt.imp_right And.right
  full p hp hs ho := by
    by_contra hlt
    have hactive := (h p hp hs).mpr ⟨hp, Nat.lt_of_not_le hlt⟩
    exact Bool.false_ne_true (ho.symm.trans hactive)
  writable p hp hs ho := ((h p hp hs).mp ho).2

theorem Matched.update (h : Matched r w) (ho : o.self.state = .active → p ∈ r.pipes →
    (o.self.outActive = true ↔ r.IsActive p)) : Matched r (update w p o) := by
  intro q hq hs
  rcases eq_or_ne q p with rfl | hne
  · rw [update_self] at hs ⊢
    exact ho hs hq
  · rw [update_of_ne hne] at hs ⊢
    exact h q hq hs

theorem Matched.write (h : Matched r w) (hs : o.self.state = (w p).self.state)
    (ho : o.self.outActive = (w p).self.outActive) : Matched r (Function.update w p o) :=
  h.update fun hactive hp => by
    rw [ho]
    exact h p hp (hs.symm.trans hactive)

theorem Matched.skip (hwf : r.Wf) (hc : r.IsCurrent p) (hw : (w p).self.checkWrite.1 = false) (h : Matched r w) :
    Matched r.deactivate (Function.update w p (w p).refuse) := by
  intro q hq hs
  rw [Rota.deactivate_isActive hwf hc]
  rcases eq_or_ne q p with rfl | hne
  · rw [update_self] at hs ⊢
    rw [(Outlet.refuse_refuses hw).resolve_right fun hn => hn hs]
    exact iff_of_false Bool.false_ne_true fun hq => hq.2 rfl
  · rw [update_of_ne hne] at hs ⊢
    rw [and_iff_left hne]
    exact h q (Rota.deactivate_mem.mp hq) hs

theorem Matched.skips (hs : Rota.Skips LbT.Refuses r w r' w') (hwf : r.Wf) (h : Matched r w) : r'.Wf ∧ Matched r' w' := by
  induction hs with
  | done => exact ⟨hwf, h⟩
  | skip hc ho _ ih =>
    obtain ⟨hw, rfl⟩ := ho
    exact ih (Rota.deactivate_wf hwf hc) (h.skip hwf hc hw)

structure Matching (s : LoadBalancer P) : Prop where
  wf : s.lb.Wf
  matched : Matched s.lb.toRota s.outlets

namespace Matching

variable {s' : LoadBalancer P} {m : Msg}

theorem attach {self : PipeT} (h : s.Matching) (hp : p ∉ s.lb.pipes) (ho : self.outActive = true) :
    Matching { s with lb := s.lb.attach p, outlets := update s.outlets p ⟨self, Staged.empty⟩ } := by
  refine ⟨Rota.attach_wf h.wf hp, fun q hq hs => ?_⟩
  change _ ↔ (s.lb.toRota.attach p).IsActive q
  rw [Rota.attach_isActive h.wf hp]
  dsimp only at hs ⊢
  rcases eq_or_ne q p with rfl | hne
  · rw [update_self]
    exact iff_of_true ho (Or.inr rfl)
  · rw [update_of_ne hne] at hs ⊢
    rw [or_iff_left hne]
    exact h.matched q ((Rota.attach_mem.mp hq).resolve_right hne) hs

theorem drift (h : s.Matching) (hd : Outlet.Drifts (s.outlets p) o) : Matching { s with outlets := update s.outlets p o } := by
  refine ⟨h.wf, h.matched.update fun hs hp => ?_⟩
  have hactive : (s.outlets p).self.state = .active := by
    by_contra hn
    exact hd.closed hn hs
  rw [← h.matched p hp hactive]
  exact ⟨hd.outActive, fun ho => (hd.inactive ho).resolve_right fun hn => hn hs⟩

theorem behind (h : s.Matching) (hp : p ∈ s.lb.pipes) (ho : (s.outlets p).self.outActive = false)
    (hs : (s.outlets p).self.state = .active) : ¬ s.lb.IsActive p := by
  rw [← h.matched p hp hs, ho]
  exact Bool.false_ne_true

theorem activated {n : UInt64} (h : s.Matching) (hp : p ∈ s.lb.pipes) (hn : ¬ s.lb.IsActive p) :
    Matching { s with
      lb := s.lb.activated p
      outlets := update s.outlets p { s.outlets p with
        self := { (s.outlets p).self with peersMsgsRead := n, outActive := true } } } := by
  refine ⟨Rota.activated_wf h.wf (Rota.inactive_lt hp hn), fun q hq hs => ?_⟩
  change _ ↔ (s.lb.toRota.activated p).IsActive q
  rw [Rota.activated_isActive hp hn]
  dsimp only at hs ⊢
  rcases eq_or_ne q p with rfl | hne
  · rw [update_self]
    exact iff_of_true rfl (Or.inr rfl)
  · rw [update_of_ne hne] at hs ⊢
    rw [or_iff_left hne]
    exact h.matched q (Rota.activated_mem.mp hq) hs

theorem pipeTerminated (h : s.Matching) (hp : p ∈ s.lb.pipes) :
    Matching { s with lb := s.lb.pipeTerminated p, outlets := update s.outlets p (s.outlets p).closed } := by
  refine ⟨Rota.pipeTerminated_wf h.wf hp, fun q hq hs => ?_⟩
  obtain ⟨hq, hne⟩ := (Rota.pipeTerminated_mem hp).mp hq
  change _ ↔ (s.lb.toRota.pipeTerminated p).IsActive q
  dsimp only at hs ⊢
  rw [update_of_ne hne] at hs ⊢
  rw [Rota.pipeTerminated_isActive h.wf hp, and_iff_left hne]
  exact h.matched q hq hs

theorem sendpipe (h : s.Matching) (hf : s.Fits (.sendpipe m)) (hx : s.run (.sendpipe m) = .ok s') : s'.Matching := by
  obtain ⟨⟨rc, lb, outlets⟩, hsend, hx⟩ := bind_ok hx
  have hnext : s'.lb = lb ∧ s'.outlets = outlets := by
    cases hx
    unfold accepted
    split_ifs <;> exact ⟨rfl, rfl⟩
  suffices hm : lb.Wf ∧ Matched lb.toRota outlets by
    rw [← hnext.1, ← hnext.2] at hm
    exact ⟨hm.1, hm.2⟩
  unfold LbT.sendpipe at hsend
  split_ifs at hsend with hd
  · cases hsend
    exact ⟨h.wf, h.matched⟩
  obtain ⟨⟨pipe, lb1, w1⟩, hloop, hsend⟩ := bind_ok hsend
  cases hsend
  obtain ⟨r, w, hs, hmore, hgoes⟩ := @LbT.sendLoop_skips _ _ s.lb s.outlets m _ h.wf rfl
  obtain ⟨hwf, hmatched⟩ := Matched.skips hs h.wf h.matched
  rcases hgoes with ⟨hgoes, -⟩ | ⟨p, o, hc, ⟨hw, hgoes⟩ | ⟨hm, hw, hgoes⟩⟩
  · obtain ⟨-, hrest⟩ := ok_pair (hloop.symm.trans hgoes)
    cases hrest
    exact ⟨hwf, hmatched⟩
  · obtain ⟨-, hrest⟩ := ok_pair (hloop.symm.trans hgoes)
    cases hrest
    obtain ⟨-, rfl⟩ := Outlet.write_true hw
    have hwritten : ∀ o, o.self = ((w p).accept m).self → Matched r (update w p o) :=
      fun o ho => hmatched.write (by rw [ho]; rfl) (by rw [ho]; rfl)
    unfold LbT.written
    split_ifs
    · exact ⟨hwf, hwritten _ rfl⟩
    · exact ⟨Rota.advance_wf hwf hc.active_pos, hwritten _ Outlet.flush_self⟩
  · obtain ⟨-, hrest⟩ := ok_pair (hloop.symm.trans hgoes)
    cases hrest
    obtain ⟨hfull, rfl⟩ := Outlet.write_false hw
    obtain ⟨rfl, rfl⟩ := hmore hm
    have hfits := hf hm (Bool.eq_false_of_not_eq_true hd)
    rw [hc.get, Option.all_some, hfull, Bool.false_or, bne_iff_ne] at hfits
    refine ⟨hwf, hmatched.update fun hs => absurd ?_ hfits⟩
    rwa [Outlet.rollback_self, Outlet.refuse_state] at hs

theorem hasOut (h : s.Matching) (hx : s.run .hasOut = .ok s') : s'.Matching := by
  obtain ⟨b, r, w, hgoes, hs, -⟩ := @LbT.hasOut_skips _ _ s.lb s.outlets h.wf
  obtain ⟨⟨rc, lb, outlets⟩, hcall, hx⟩ := bind_ok hx
  obtain ⟨-, hrest⟩ := ok_pair (hcall.symm.trans hgoes)
  cases hrest
  cases hx
  obtain ⟨hwf, hmatched⟩ := Matched.skips hs h.wf h.matched
  exact ⟨hwf, hmatched⟩

theorem run {op : Op P} (h : s.Matching) (hr : s.Ready op) (hf : s.Fits op) (hx : s.run op = .ok s') : s'.Matching := by
  cases op with
  | attach p self =>
    cases hx
    exact h.attach hr.1 hr.2.2.1
  | drift p o =>
    cases hx
    exact h.drift hr
  | activated p n =>
    have hn := h.behind hr.1 hr.2.1 hr.2.2
    cases (if_pos (Rota.inactive_lt hr.1 hn)).symm.trans hx
    exact h.activated hr.1 hn
  | pipeTerminated p =>
    cases hx
    exact h.pipeTerminated hr
  | sendpipe m => exact h.sendpipe hf hx
  | abandon =>
    cases hx
    exact ⟨h.wf, h.matched⟩
  | hasOut => exact h.hasOut hx

end Matching

theorem new_matching : (new : LoadBalancer P).Matching := ⟨Rota.empty_wf, nofun⟩

theorem run_matching {ops : List (Op P)} (h : Run Start (Guarded Fits Step) ops s) : s.Matching := by
  refine h.invariant Matching (fun _ h0 => h0 ▸ new_matching) fun s op s' hI hs => ?_
  obtain ⟨hf, hr, hrun⟩ := hs
  exact hI.run hr hf hrun

/-- As long as no frame in the middle of a message finds its pipe full, the array says which pipes can be written to, and
a pipe that is activated is moved from behind the active ones. -/
theorem partition_matches {ops : List (Op P)} (h : Run Start (Guarded Fits Step) ops s) :
    s.Partitioned ∧ ∀ p n, s.Ready (.activated p n) →
      s.lb.active ≤ s.lb.pipes.index p ∧ ∃ s', s.run (.activated p n) = .ok s' := by
  have hm := run_matching h
  have hpart := partitioned hm.wf hm.matched
  refine ⟨hpart, fun p n hr => ⟨hpart.full p hr.1 hr.2.2 hr.2.1, _, if_pos ?_⟩⟩
  exact Rota.inactive_lt hr.1 (hm.behind hr.1 hr.2.1 hr.2.2)

/-- A pipe fills up between two messages and is activated again in the middle of one. -/
def refilled : List (Op ℕ) :=
  [.attach 0 (endOf 1), .attach 1 (endOf 0), .sendpipe (frame 1), .sendpipe (frameMore 2), .sendpipe (frame 3),
    .sendpipe (frame 4), .activated 0 1]

theorem partition_matches_refilled : ∃ s : LoadBalancer ℕ, Run Start (Guarded Fits Step) refilled s ∧ s.Partitioned :=
  exists_run (P := fun s => s.lb.active = 2) (rfl : Start new) (by decide) fun _ hs _ => (partition_matches hs).1

/-- The mark of a pipe is lowered in the middle of a message. The pipe refuses the next frame and stays among the active
ones; there is no place left behind them when it is activated. -/
theorem partition_breaks : ∃ s : LoadBalancer ℕ, Run Start Step filledUp s ∧ ¬ s.Partitioned ∧
    s.Ready (.activated 0 1) ∧ s.run (.activated 0 1) = .error .outOfBounds := by
  refine exists_run_free (P := fun s => (0 ∈ s.lb.pipes ∧ (s.outlets 0).self.state = .active ∧
    (s.outlets 0).self.outActive = false ∧ s.lb.pipes.index 0 < s.lb.active) ∧ s.Ready (.activated 0 1) ∧
    ¬ s.lb.active < s.lb.pipes.size) (rfl : Start new) (by decide) fun s _ ⟨⟨hp, hs', ho, hi⟩, hready, hlt⟩ => ?_
  exact ⟨fun h => absurd hi (Nat.not_lt_of_le (h.full 0 hp hs' ho)), hready, if_neg hlt⟩

end LoadBalancer

end Zmq
