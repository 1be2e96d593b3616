import LibZmq.Sockets.LoadBalancer
import LibZmq.Sockets.Dist

/-! A distributor over pipes that come, go, become unwritable between two frames and writable again. What
the pipes hold is compared with the messages that have been sent. -/

namespace Zmq

open List Bool Function DistT

namespace DistT

variable {P : Type} [DecidableEq P] {d : DistT P} {x y : P} {w : P → Outlet} {m : Msg}

/-! Within a message the active pipes stay the same, until they leave. -/

theorem join_active (h : d.Wf) (hx : x ∈ d.pipes) (hn : ¬ d.Eligible x) (hm : d.more = true) :
    (d.join x).IsActive y ↔ d.IsActive y := by
  have h2 := h.active_le
  have h3 := behind hx hn
  have hi := ArrayT.index_lt.mpr hx
  unfold join
  rw [if_pos hm]
  exact and_congr join_mem (ArrayT.swap_lt (n := d.active) hi (by omega) (by omega) y)

theorem attach_active (h : d.Wf) (hx : x ∉ d.pipes) (hm : d.more = true) : (d.attach x).IsActive y ↔ d.IsActive y := by
  rw [attach_eq h hx, join_active (pushed_wf h hx) pushed_mem (pushed_not h hx) hm]
  exact pushed_lt hx (Nat.le_trans h.active_le h.eligible_le)

theorem pipeTerminated_active (h : d.Wf) (hx : x ∈ d.pipes) : (d.pipeTerminated x).IsActive y ↔ d.IsActive y ∧ y ≠ x := by
  obtain ⟨hl, hw⟩ := leave_left h hx
  have hx' : x ∈ (d.leave x).pipes := (hl.mem x).mpr hx
  have he : (d.leave x).active ≤ (d.leave x).pipes.index x :=
    Nat.le_of_not_lt fun hlt => ((hl.active x).mp ⟨hx', hlt⟩).2 rfl
  exact (ArrayT.erase_lt hx' he).trans (hl.active y)

theorem writeLoop_active {n i : ℕ} {d' : DistT P} {w' : P → Outlet} (hd : d.matching = d.active)
    (hx : writeLoop m n i d w = .ok (d', w')) : d'.matching = d'.active := by
  induction n generalizing d i w with
  | zero =>
    cases hx
    exact hd
  | succ n ih =>
    unfold writeLoop at hx
    cases hg : d.pipes.get i with
    | none => simp [hg] at hx
    | some p =>
      simp only [hg] at hx
      split_ifs at hx
      · exact ih hd hx
      · exact ih (d := d.refused p) (by simp only [refused, hd]) hx

theorem sendToAll_sent (h : d.Wf) : ∃ d' w', d.sendToAll w m = .ok (d', w') ∧
    Sent { d with matching := d.active } w m d' w' ∧ (m.hasMore = true → ∀ y, d'.IsActive y → d'.Matches y) := by
  have hwf : Wf { d with matching := d.active } := ⟨Nat.le_refl _, h.active_le, h.eligible_le, h.idle⟩
  obtain ⟨d', w', hx, hsent⟩ := @sendToMatching_sent _ _ _ w m hwf
  refine ⟨d', w', hx, hsent, fun hm y hy => ?_⟩
  obtain ⟨⟨d1, w1⟩, hd, hx⟩ := bind_ok hx
  cases hx
  have heq : d1.matching = d1.active := by
    unfold distribute at hd
    split_ifs at hd
    · cases hd
      rfl
    · exact writeLoop_active rfl hd
  unfold IsActive at hy
  rw [if_pos hm] at hy
  exact ⟨hy.1, heq ▸ hy.2⟩

end DistT

structure Distribution (P : Type) where
  dist : DistT P
  outlets : P → Outlet
  /-- frames go to all pipes, as in `xsub_t`, and not to those that match, as in `xpub_t` -/
  toAll : Bool
  sent : List (List Msg)
  begun : List Msg

namespace Distribution

open LoadBalancer (unattached endOf frame frameMore)

variable {P : Type}

def new (toAll : Bool) : Distribution P := ⟨.new, fun _ => unattached, toAll, [], []⟩

inductive Op (P : Type) where
  | attach (pipe : P) (self : PipeT)
  | drift (pipe : P) (outlet : Outlet)
  | activated (pipe : P) (msgsRead : UInt64)
  | pipeTerminated (pipe : P)
  | matchPipes (calls : List P)
  | reverseMatch
  | send (msg : Msg)

variable [DecidableEq P] (s : Distribution P)

/-- What pipes and the socket keep to: a pipe is new when it is attached, it is activated when it was not
active, and pipes are matched before the first frame only. -/
def Ready : Op P → Prop
  | .attach p self => p ∉ s.dist.pipes ∧ self.outActive = true ∧ self.outpipe ≠ none
  | .drift p o => Outlet.Drifts (s.outlets p) o
  | .activated p _ => p ∈ s.dist.pipes ∧ (s.outlets p).self.outActive = false ∧ (s.outlets p).self.state = .active
  | .pipeTerminated p => p ∈ s.dist.pipes
  | .matchPipes _ | .reverseMatch => s.toAll = false ∧ s.dist.more = false
  | .send m => m.isDelimiter = false

instance (op : Op P) : Decidable (s.Ready op) := by
  cases op <;> unfold Ready <;> infer_instance

def accepted (m : Msg) : Distribution P :=
  if m.hasMore then { s with begun := s.begun ++ [m] }
  else { s with sent := s.sent ++ [s.begun ++ [m]], begun := [] }

def run : Op P → Except SocketFault (Distribution P)
  | .attach p self => .ok { s with
      dist := s.dist.attach p, outlets := Function.update s.outlets p ⟨self, Staged.empty⟩ }
  | .drift p o => .ok { s with outlets := Function.update s.outlets p o }
  | .activated p n => .ok { s with
      dist := s.dist.activated p
      outlets := Function.update s.outlets p { s.outlets p with
        self := { (s.outlets p).self with peersMsgsRead := n, outActive := true } } }
  | .pipeTerminated p => .ok { s with
      dist := s.dist.pipeTerminated p, outlets := Function.update s.outlets p (s.outlets p).closed }
  | .matchPipes calls => .ok { s with dist := calls.foldl DistT.matchPipe s.dist }
  | .reverseMatch => .ok { s with dist := s.dist.reverseMatch }
  | .send m => do
    let (dist, outlets) ← if s.toAll then s.dist.sendToAll s.outlets m else s.dist.sendToMatching s.outlets m
    -- `xpub_t` unmatches all pipes at the end of a message
    let dist := if s.toAll || m.hasMore then dist else dist.unmatch
    return accepted { s with dist := dist, outlets := outlets } m

def Start : Prop := ∃ toAll, s = new toAll

abbrev Step : Distribution P → Op P → Distribution P → Prop := Does Ready run

/-- Each pipe has got some of the messages that have been sent, all frames of each, in order, and otherwise
holds the first frames of one message at most. -/
def Atomic : Prop := ∀ p,
  (∃ got : List (List Msg), got.Sublist s.sent ∧ (s.outlets p).written = got.flatten) ∧
    ∃ msg ∈ s.sent ++ [s.begun], (s.outlets p).part <+: msg

/-- The pipes that the next frame is for. -/
def Reached (p : P) : Prop := if s.toAll then s.dist.IsActive p else s.dist.Matches p

instance (p : P) : Decidable (s.Reached p) := by
  unfold Reached DistT.IsActive DistT.Matches
  infer_instance

/-- No pipe that takes the first frame of a message still holds frames of one that it has not got whole. -/
def Keeps : Op P → Prop
  | .send _ => s.begun = [] → ∀ p ∈ s.dist.pipes.items, s.Reached p → (s.outlets p).self.checkWrite.1 = true →
    (s.outlets p).part = []
  | _ => True

instance (op : Op P) : Decidable (s.Keeps op) := by
  cases op <;> unfold Keeps <;> infer_instance

structure Sound (s : Distribution P) : Prop where
  wf : s.dist.Wf
  more : s.dist.more = !s.begun.isEmpty
  linked : ∀ p, (s.outlets p).self.state = .active → (s.outlets p).self.outpipe ≠ none
  passive : ∀ p, s.dist.Eligible p → (s.outlets p).self.outActive = true ∨ (s.outlets p).self.state ≠ .active
  frames : ∀ msg ∈ s.sent ++ [s.begun], ∀ m ∈ msg, m.isDelimiter = false
  atomic : s.Atomic
  current : s.dist.more = true → ∀ p, s.dist.Matches p → (s.outlets p).self.state = .active → (s.outlets p).part = s.begun
  all : s.toAll = true → s.dist.more = true → ∀ p, s.dist.IsActive p → s.dist.Matches p

variable {s s' : Distribution P} {p : P} {m : Msg} {o : Outlet} {d : DistT P}

theorem new_sound {toAll : Bool} : (new toAll : Distribution P).Sound where
  wf := new_wf
  more := rfl
  linked _ hp := absurd hp PipeState.noConfusion
  passive _ hp := absurd hp.1 not_mem_nil
  frames msg hmsg m hm := by
    obtain rfl : msg = [] := by simpa [new] using hmsg
    exact nomatch hm
  atomic _ := ⟨⟨[], List.Sublist.refl [], rfl⟩, [], by simp [new], by simp [new, unattached, Outlet.part]⟩
  current hm := nomatch hm
  all _ hm := nomatch hm

theorem Sound.update (h : s.Sound) (hd : Outlet.Fades (s.outlets p) o) (hwf : d.Wf) (hmore : d.more = s.dist.more)
    (hpass : ∀ q, d.Eligible q → (update s.outlets p o q).self.outActive = true ∨ (update s.outlets p o q).self.state ≠ .active)
    (hmatches : s.dist.more = true → ∀ q, d.Matches q → s.dist.Matches q)
    (hall : s.toAll = true → s.dist.more = true → ∀ q, d.IsActive q → d.Matches q) :
    Sound { s with dist := d, outlets := update s.outlets p o } := by
  refine ⟨hwf, hmore.trans h.more, fun q hq => ?_, hpass, h.frames, fun q => ?_, fun hm q hq hs => ?_, fun ht hm =>
    hall ht (hmore ▸ hm)⟩
  · dsimp only at hq ⊢
    rcases eq_or_ne q p with rfl | hne
    · rw [update_self] at hq ⊢
      have hs : (s.outlets q).self.state = .active := by_contra fun hs => hd.closed hs hq
      exact (hd.linked (h.linked q hs)).resolve_right fun hc => hc hq
    · rw [update_of_ne hne] at hq ⊢
      exact h.linked q hq
  · dsimp only
    rcases eq_or_ne q p with rfl | hne
    · rw [update_self, hd.written]
      refine ⟨(h.atomic q).1, ?_⟩
      rcases hd.part with hp | ⟨hp, -⟩
      · rw [hp]
        exact (h.atomic q).2
      · exact ⟨s.begun, by simp, by rw [hp]; exact nil_prefix⟩
    · rw [update_of_ne hne]
      exact h.atomic q
  · have hm : s.dist.more = true := hmore ▸ hm
    have hold := h.current hm q (hmatches hm q hq)
    dsimp only at hs ⊢
    rcases eq_or_ne q p with rfl | hne
    · rw [update_self] at hs ⊢
      have hs' : (s.outlets q).self.state = .active := by_contra fun hc => hd.closed hc hs
      rw [hd.part.resolve_right fun hc => hc.2 hs]
      exact hold hs'
    · rw [update_of_ne hne] at hs ⊢
      exact hold hs

theorem Sound.attach {self : PipeT} (h : s.Sound) (hr : s.Ready (.attach p self)) :
    Sound { s with dist := s.dist.attach p, outlets := Function.update s.outlets p ⟨self, Staged.empty⟩ } := by
  obtain ⟨hp, ha, hl⟩ := hr
  have hempty : Outlet.part ⟨self, Staged.empty⟩ = [] ∧ Outlet.written ⟨self, Staged.empty⟩ = [] := by
    simp [Outlet.part, Outlet.written, Staged.empty]
  have hne : ∀ {q}, q ∈ s.dist.pipes → q ≠ p := by
    rintro q hq rfl
    exact hp hq
  refine ⟨attach_wf h.wf hp, attach_more.trans h.more, fun q hq => ?_, fun q hq => ?_, h.frames,
    fun q => ?_, fun hm q hq hs => ?_, fun ht hm q hq => ?_⟩
  · dsimp only at hq ⊢
    rcases eq_or_ne q p with rfl | hqp
    · rw [update_self]
      exact hl
    · rw [update_of_ne hqp] at hq ⊢
      exact h.linked q hq
  · dsimp only
    rcases (attach_eligible h.wf hp).mp hq with hq | rfl
    · rw [update_of_ne (hne hq.1)]
      exact h.passive q hq
    · rw [update_self]
      exact .inl ha
  · dsimp only
    rcases eq_or_ne q p with rfl | hqp
    · rw [update_self, hempty.1]
      exact ⟨⟨[], nil_sublist _, rfl⟩, s.begun, by simp, nil_prefix⟩
    · rw [update_of_ne hqp]
      exact h.atomic q
  · have hm : s.dist.more = true := attach_more.symm.trans hm
    have hq := (attach_matches h.wf hp).mp hq
    dsimp only at hs ⊢
    rw [update_of_ne (hne hq.1)] at hs ⊢
    exact h.current hm q hq hs
  · have hm : s.dist.more = true := attach_more.symm.trans hm
    exact (attach_matches h.wf hp).mpr (h.all ht hm q ((attach_active h.wf hp hm).mp hq))

theorem Sound.drift (h : s.Sound) (hd : Outlet.Drifts (s.outlets p) o) :
    Sound { s with outlets := Function.update s.outlets p o } := by
  refine h.update hd.toFades h.wf rfl (fun q hq => ?_) (fun _ _ hq => hq) h.all
  rcases eq_or_ne q p with rfl | hne
  · rw [update_self]
    rcases h.passive q hq with ha | hs
    · exact hd.inactive ha
    · exact .inr (hd.closed hs)
  · rw [update_of_ne hne]
    exact h.passive q hq

theorem Sound.activated {n : UInt64} (h : s.Sound) (hr : s.Ready (.activated p n)) :
    Sound { s with
      dist := s.dist.activated p
      outlets := Function.update s.outlets p { s.outlets p with
        self := { (s.outlets p).self with peersMsgsRead := n, outActive := true } } } := by
  obtain ⟨hp, ha, hs⟩ := hr
  have hn : ¬ s.dist.Eligible p := fun he => by
    rcases h.passive p he with h1 | h1
    · exact false_ne_true (ha.symm.trans h1)
    · exact h1 hs
  rw [activated_eq h.wf hp hn]
  refine h.update ⟨rfl, .inl rfl, id, .inl⟩ (join_wf h.wf hp hn) rfl (fun q hq => ?_)
    (fun _ q => (join_matches h.wf hp hn).mp) fun ht hm q hq => ?_
  · rcases (join_eligible hp hn).mp hq with he | rfl
    · have hne : q ≠ p := by
        rintro rfl
        exact hn he
      rw [Function.update_of_ne hne]
      exact h.passive q he
    · rw [Function.update_self]
      exact .inl rfl
  · exact (join_matches h.wf hp hn).mpr (h.all ht hm q ((join_active h.wf hp hn hm).mp hq))

theorem Sound.pipeTerminated (h : s.Sound) (hp : p ∈ s.dist.pipes) :
    Sound { s with
      dist := s.dist.pipeTerminated p, outlets := Function.update s.outlets p (s.outlets p).closed } := by
  obtain ⟨hwf, -, hmatches, heligible, hmore⟩ := pipeTerminated_left h.wf hp
  refine h.update Outlet.closed_fades hwf hmore (fun q hq => ?_) (fun _ q hq => ((hmatches q).mp hq).1) fun ht hm q hq => ?_
  · obtain ⟨hq, hne⟩ := (heligible q).mp hq
    rw [update_of_ne hne]
    exact h.passive q hq
  · obtain ⟨hq, hne⟩ := (pipeTerminated_active h.wf hp).mp hq
    exact (hmatches q).mpr ⟨h.all ht hm q hq, hne⟩

theorem Sound.rearrange (h : s.Sound) (hm : s.dist.more = false) (hwf : d.Wf)
    (hr : DistT.Rearranged s.dist d) : Sound { s with dist := d } := by
  have hmore : d.more = false := hr.more.trans hm
  refine ⟨hwf, hr.more.trans h.more, h.linked, fun q hq => h.passive q ((hr.eligible q).mp hq), h.frames, h.atomic,
    fun hc => (nomatch hmore.symm.trans hc),
    fun _ hc => nomatch hmore.symm.trans hc⟩

theorem Sound.holds (h : s.Sound) (hk : s.Keeps (.send m)) (hp : s.Reached p)
    (hw : (s.outlets p).self.checkWrite.1 = true) : (s.outlets p).part = s.begun := by
  obtain ⟨-, hs, -⟩ := Outlet.checkWrite_true hw
  cases hb : s.begun with
  | nil =>
    have hmem : p ∈ s.dist.pipes := by
      unfold Reached at hp
      split_ifs at hp
      · exact hp.1
      · exact hp.1
    exact hk hb p hmem hp hw
  | cons x rest =>
    have hm : s.dist.more = true := by simp [h.more, hb]
    have hmatches : s.dist.Matches p := by
      unfold Reached at hp
      split_ifs at hp with ht
      · exact h.all ht hm p hp
      · exact hp
    exact (h.current hm p hmatches hs).trans hb

theorem Sound.tried (h : s.Sound) (hk : s.Keeps (.send m)) (hd : m.isDelimiter = false) (hp : s.Reached p) :
    ((s.outlets p).self.checkWrite.1 = false ∧ tried (s.outlets p) m = (s.outlets p).refuse) ∨
    ((s.outlets p).self.checkWrite.1 = true ∧ (tried (s.outlets p) m).self.state = (s.outlets p).self.state ∧
      (tried (s.outlets p) m).self.outActive = (s.outlets p).self.outActive ∧
      (tried (s.outlets p) m).self.outpipe = (s.outlets p).self.outpipe ∧ if m.hasMore then
        (tried (s.outlets p) m).part = s.begun ++ [m] ∧ (tried (s.outlets p) m).written = (s.outlets p).written
      else (tried (s.outlets p) m).part = [] ∧ (tried (s.outlets p) m).written = (s.outlets p).written ++ (s.begun ++ [m])) := by
  cases hw : (s.outlets p).self.checkWrite.1 with
  | false => exact .inl ⟨rfl, if_neg (by rw [hw]; exact false_ne_true)⟩
  | true =>
    have hpart := h.holds hk hp hw
    have hlink := h.linked p (Outlet.checkWrite_true hw).2.1
    have hframes : ∀ x ∈ (s.outlets p).part, x.isDelimiter = false := by
      rw [hpart]
      exact h.frames s.begun (by simp)
    have ht : DistT.tried (s.outlets p) m = DistT.wrote (s.outlets p) m := if_pos hw
    refine .inr ⟨rfl, ?_⟩
    rw [ht, wrote]
    cases hm : m.hasMore with
    | true =>
      obtain ⟨h1, h2⟩ := Outlet.accept_more (o := s.outlets p) hm hlink
      rw [hpart] at h1
      exact ⟨rfl, rfl, rfl, h1, h2⟩
    | false =>
      obtain ⟨h1, h2⟩ := Outlet.accept_last hm hd hframes hlink
      rw [hpart, append_assoc] at h2
      simp only [false_eq_true, if_false, Outlet.flush_self, Outlet.flush_part, Outlet.flush_written]
      exact ⟨rfl, rfl, rfl, h1, h2⟩

omit [DecidableEq P] in
theorem accepted_frames (h : ∀ msg ∈ s.sent ++ [s.begun], ∀ m ∈ msg, m.isDelimiter = false) (hd : m.isDelimiter = false) :
    ∀ msg ∈ (s.accepted m).sent ++ [(s.accepted m).begun], ∀ m ∈ msg, m.isDelimiter = false := by
  have hnew : ∀ x ∈ s.begun ++ [m], x.isDelimiter = false := by
    intro x hx
    rcases mem_append.mp hx with hx | hx
    · exact h s.begun (by simp) x hx
    · exact mem_singleton.mp hx ▸ hd
  unfold accepted
  intro msg hmsg
  cases hm : m.hasMore with
  | true =>
    simp only [hm, if_true] at hmsg
    rcases mem_append.mp hmsg with hmsg | hmsg
    · exact h msg (mem_append_left _ hmsg)
    · rw [mem_singleton.mp hmsg]
      exact hnew
  | false =>
    simp only [hm, false_eq_true, if_false] at hmsg
    rcases mem_append.mp hmsg with hmsg | hmsg
    · rcases mem_append.mp hmsg with hmsg | hmsg
      · exact h msg (mem_append_left _ hmsg)
      · rw [mem_singleton.mp hmsg]
        exact hnew
    · rw [mem_singleton.mp hmsg]
      simp

theorem Sound.atomic_same (h : s.Sound) (m : Msg) (hw : o.written = (s.outlets p).written) (hp : o.part = (s.outlets p).part) :
    (∃ got : List (List Msg), got.Sublist (s.accepted m).sent ∧ o.written = got.flatten) ∧
      ∃ msg ∈ (s.accepted m).sent ++ [(s.accepted m).begun], o.part <+: msg := by
  obtain ⟨⟨got, hgot, hwritten⟩, msg, hmsg, hpart⟩ := h.atomic p
  rw [hw, hp]
  unfold accepted
  have hbegun : msg = s.begun → (s.outlets p).part <+: s.begun ++ [m] := by
    rintro rfl
    exact hpart.trans (prefix_append _ _)
  cases hm : m.hasMore with
  | true =>
    refine ⟨⟨got, hgot, hwritten⟩, ?_⟩
    rcases mem_append.mp hmsg with hs | hb
    · exact ⟨msg, mem_append_left _ hs, hpart⟩
    · exact ⟨s.begun ++ [m], by simp, hbegun (mem_singleton.mp hb)⟩
  | false =>
    refine ⟨⟨got, hgot.trans (sublist_append_left _ _), hwritten⟩, ?_⟩
    rcases mem_append.mp hmsg with hs | hb
    · exact ⟨msg, by simp [hs], hpart⟩
    · exact ⟨s.begun ++ [m], by simp, hbegun (mem_singleton.mp hb)⟩

theorem Sound.sent {d d0 d' : DistT P} {w' : P → Outlet} (h : s.Sound) (hk : s.Keeps (.send m))
    (hd : m.isDelimiter = false) (hm0 : ∀ q, d0.Matches q ↔ s.Reached q) (he0 : ∀ q, d0.Eligible q → s.dist.Eligible q)
    (hsent : DistT.Sent d0 s.outlets m d' w') (hwf : d.Wf) (hmore : d.more = m.hasMore)
    (he : ∀ q, d.Eligible q → d'.Eligible q) (hmatches : m.hasMore = true → ∀ q, d.Matches q → d'.Matches q)
    (hall : s.toAll = true → m.hasMore = true → ∀ q, d.IsActive q → d.Matches q) :
    Sound (accepted { s with dist := d, outlets := w' } m) := by
  have hsplit : ∀ q, (s.Reached q ∧ w' q = DistT.tried (s.outlets q) m) ∨ (¬ s.Reached q ∧ w' q = s.outlets q) := by
    intro q
    by_cases hr : s.Reached q
    · exact .inl ⟨hr, hsent.tried q ((hm0 q).mpr hr)⟩
    · exact .inr ⟨hr, hsent.same q fun hc => hr ((hm0 q).mp hc)⟩
  have hdist : ∀ x : Distribution P, (x.accepted m).dist = x.dist ∧ (x.accepted m).outlets = x.outlets ∧
      (x.accepted m).toAll = x.toAll := by
    intro x
    unfold accepted
    split_ifs <;> exact ⟨rfl, rfl, rfl⟩
  obtain ⟨h1, h2, h3⟩ := hdist { s with dist := d, outlets := w' }
  obtain ⟨h4, h5⟩ : (accepted { s with dist := d, outlets := w' } m).sent = (s.accepted m).sent ∧
      (accepted { s with dist := d, outlets := w' } m).begun = (s.accepted m).begun := by
    unfold accepted
    split_ifs <;> exact ⟨rfl, rfl⟩
  refine ⟨h1 ▸ hwf, ?_, ?_, ?_, accepted_frames h.frames hd, ?_, ?_, ?_⟩
  · rw [h1, hmore]
    unfold accepted
    cases hm : m.hasMore <;> simp
  · rw [h2]
    intro q hq
    dsimp only at hq ⊢
    rcases hsplit q with ⟨hr, hw⟩ | ⟨-, hw⟩
    · rcases h.tried hk hd hr with ⟨-, ht⟩ | ⟨-, hs, -, ho, -⟩
      · rw [hw, ht] at hq ⊢
        rw [Outlet.refuse_state] at hq
        rw [Outlet.refuse_outpipe]
        exact h.linked q hq
      · rw [hw, hs] at hq
        rw [hw, ho]
        exact h.linked q hq
    · rw [hw] at hq ⊢
      exact h.linked q hq
  · rw [h1, h2]
    intro q hq
    dsimp only at hq ⊢
    obtain ⟨hq, hcheck⟩ := (hsent.eligible q).mp (he q hq)
    rcases hsplit q with ⟨hr, hw⟩ | ⟨-, hw⟩
    · rcases h.tried hk hd hr with ⟨hc, -⟩ | ⟨-, hs, ha, -⟩
      · exact absurd (hc.symm.trans (hcheck ((hm0 q).mpr hr))) false_ne_true
      · rw [hw, ha, hs]
        exact h.passive q (he0 q hq)
    · rw [hw]
      exact h.passive q (he0 q hq)
  · intro q
    rw [h2, h4, h5]
    dsimp only
    rcases hsplit q with ⟨hr, hw⟩ | ⟨-, hw⟩
    · rcases h.tried hk hd hr with ⟨-, ht⟩ | ⟨-, -, -, -, ht⟩
      · rw [hw, ht]
        exact h.atomic_same m Outlet.refuse_written Outlet.refuse_part
      · rw [hw]
        obtain ⟨⟨got, hgot, hwritten⟩, -⟩ := h.atomic q
        unfold accepted
        cases hm : m.hasMore with
        | true =>
          rw [hm] at ht
          rw [ht.1, ht.2]
          exact ⟨⟨got, hgot, hwritten⟩, s.begun ++ [m], by simp, prefix_rfl⟩
        | false =>
          rw [hm] at ht
          rw [ht.1, ht.2]
          refine ⟨⟨got ++ [s.begun ++ [m]], hgot.append (List.Sublist.refl _), ?_⟩, [], by simp, prefix_rfl⟩
          rw [hwritten]
          simp
    · rw [hw]
      exact h.atomic_same m rfl rfl
  · rw [h1, h2, hmore]
    intro hm q hq _
    dsimp only
    obtain ⟨hq0, hcheck⟩ := (hsent.matches' q).mp (hmatches hm q hq)
    have hr := (hm0 q).mp hq0
    rcases h.tried hk hd hr with ⟨hc, -⟩ | ⟨-, -, -, -, ht⟩
    · exact nomatch hc.symm.trans hcheck
    · rw [hm] at ht
      rw [hsent.tried q hq0, ht.1]
      unfold accepted
      rw [if_pos hm]
  · rw [h1, h3, hmore]
    exact hall

theorem Sound.send (h : s.Sound) (hd : m.isDelimiter = false) (hk : s.Keeps (.send m)) :
    ∃ s', s.run (.send m) = .ok s' ∧ s'.Sound := by
  cases ht : s.toAll with
  | true =>
    obtain ⟨d', w', hx, hsent, hall⟩ := sendToAll_sent (w := s.outlets) (m := m) h.wf
    refine ⟨accepted { s with dist := d', outlets := w' } m, ?_, ?_⟩
    · simp only [run, ht, if_true, hx]
      rfl
    · have hreached : ∀ q, DistT.Matches { s.dist with matching := s.dist.active } q ↔ s.Reached q := by
        intro q
        unfold Reached
        rw [ht]
        exact Iff.rfl
      exact h.sent hk hd hreached (fun q hq => hq) hsent hsent.wf hsent.more (fun _ hq => hq) (fun _ _ hq => hq)
        fun _ => hall
  | false =>
    obtain ⟨d', w', hx, hsent⟩ := @DistT.sendToMatching_sent _ _ _ s.outlets m h.wf
    have hwf := hsent.wf
    refine ⟨accepted { s with dist := if m.hasMore then d' else d'.unmatch, outlets := w' } m, ?_, ?_⟩
    · simp only [run, ht, Bool.false_eq_true, if_false, hx, Bool.false_or]
      rfl
    · refine h.sent hk hd (fun q => ?_) (fun q hq => hq) hsent ?_ ?_ (fun q hq => ?_) (fun hm q hq => ?_)
        fun hc => nomatch ht.symm.trans hc
      · unfold Reached
        rw [ht]
        exact Iff.rfl
      · split_ifs
        · exact hwf
        · exact ⟨Nat.zero_le _, hwf.active_le, hwf.eligible_le, hwf.idle⟩
      · split_ifs
        · exact hsent.more
        · exact hsent.more
      · split_ifs at hq
        · exact hq
        · exact hq
      · rwa [if_pos hm] at hq

theorem Sound.run (h : s.Sound) {op : Op P} (hr : s.Ready op) (hk : s.Keeps op) : ∃ s', s.run op = .ok s' ∧ s'.Sound := by
  cases op with
  | attach p self => exact ⟨_, rfl, h.attach hr⟩
  | drift p o => exact ⟨_, rfl, h.drift hr⟩
  | activated p n => exact ⟨_, rfl, h.activated hr⟩
  | pipeTerminated p => exact ⟨_, rfl, h.pipeTerminated hr⟩
  | matchPipes calls =>
    obtain ⟨hwf, hre, -⟩ := foldl_matchPipe calls h.wf hr.2
    exact ⟨_, rfl, h.rearrange hr.2 hwf hre⟩
  | reverseMatch =>
    obtain ⟨hwf, hre, -⟩ := reverseMatch_spec h.wf hr.2
    exact ⟨_, rfl, h.rearrange hr.2 hwf hre⟩
  | send m => exact h.send hr hk

theorem run_sound {ops : List (Op P)} (h : Run Start (Guarded Keeps Step) ops s) : s.Sound := by
  refine h.invariant Sound (fun _ h0 => ?_) fun s op s' hI hs => ?_
  · obtain ⟨toAll, rfl⟩ := h0
    exact new_sound
  · obtain ⟨hk, hr, hrun⟩ := hs
    obtain ⟨t, ht, hsound⟩ := hI.run hr hk
    cases hrun.symm.trans ht
    exact hsound

/-- In a run in which no message begins on a pipe that holds frames of another one, distribution is atomic, and
every call that meets the condition goes through. -/
theorem distribution_atomic {ops : List (Op P)} (h : Run Start (Guarded Keeps Step) ops s) :
    s.Atomic ∧ ∀ op, s.Ready op → s.Keeps op → ∃ s', s.run op = .ok s' :=
  ⟨(run_sound h).atomic, fun _ hr hk => ((run_sound h).run hr hk).imp fun _ hs => hs.1⟩

/-- The end of a pipe with room for two messages, once ZMQ_SNDHWM has been lowered. -/
def lowered : PipeT := { endOf 0 with outhwmboost := 1 }

/-- Two messages, and the first frame of another one. Then ZMQ_SNDHWM is lowered to 1, so that the
second frame is refused, and the peer reads. -/
def completedByAnother : List (Op ℕ) :=
  [.attach 0 lowered, .send (frame 1), .send (frame 2), .send (frameMore 3),
    .drift 0 ⟨{ lowered with msgsWritten := 2 }.setHwms 0 1, ⟨[frame 1, frame 2], [], [frameMore 3], false⟩⟩,
    .send (frame 4), .activated 0 2]

/-- The rest of the message is sent, and a whole one to another pipe. -/
theorem distribution_atomic_two : ∃ s : Distribution ℕ, Run Start (Guarded Keeps Step)
      (completedByAnother ++ [.pipeTerminated 0, .attach 1 (endOf 0), .send (frameMore 5), .send (frame 6)]) s ∧
    s.sent = [[frame 1], [frame 2], [frameMore 3, frame 4], [frameMore 5, frame 6]] ∧
    (s.outlets 1).written = [frameMore 5, frame 6] ∧ s.Atomic :=
  exists_run (P := fun s => s.sent = [[frame 1], [frame 2], [frameMore 3, frame 4], [frameMore 5, frame 6]] ∧
      (s.outlets 1).written = [frameMore 5, frame 6]) (⟨true, rfl⟩ : Start (new true)) (by decide +kernel)
    fun _ hs ⟨h1, h2⟩ => ⟨h1, h2, (distribution_atomic hs).1⟩

/-- The next message completes the one that the pipe has not got whole. -/
theorem completed_by_another : ∃ s : Distribution ℕ, Run Start Step (completedByAnother ++ [.send (frame 5)]) s ∧
    s.sent = [[frame 1], [frame 2], [frameMore 3, frame 4], [frame 5]] ∧
    (s.outlets 0).written = [frame 1, frame 2, frameMore 3, frame 5] ∧ ¬ s.Atomic := by
  refine exists_run_free (P := fun s => s.sent = [[frame 1], [frame 2], [frameMore 3, frame 4], [frame 5]] ∧
    (s.outlets 0).written = [frame 1, frame 2, frameMore 3, frame 5]) (⟨true, rfl⟩ : Start (new true)) (by decide +kernel)
    fun s _ ⟨h1, h2⟩ => ⟨h1, h2, fun h => ?_⟩
  obtain ⟨⟨got, hgot, hw⟩, -⟩ := h 0
  rw [h1] at hgot
  rw [h2] at hw
  have hall : ∀ got ∈ [[frame 1], [frame 2], [frameMore 3, frame 4], [frame 5]].sublists,
      [frame 1, frame 2, frameMore 3, frame 5] ≠ got.flatten := by decide
  exact hall got (mem_sublists.mpr hgot) hw

end Distribution

end Zmq
