import LibZmq.Sockets.Fq

/-! Fair queueing over pipes that come, go and deliver whole messages at any time. What
has been read is compared with what was delivered. -/

namespace Zmq

open List Option Bool

open Function (update update_of_ne update_self)

universe u

/-- Frames that end where a message ends. -/
def Whole (frames : List Msg) : Prop := ∀ m ∈ frames.getLast?, m.hasMore = false

instance (frames : List Msg) : Decidable (Whole frames) := by
  unfold Whole
  infer_instance

structure FairQueue (P : Type u) where
  fq : FqT P
  inlets : P → Inlet
  delivered : P → List Msg
  /-- what has been received, with the pipe it came from -/
  got : List (P × Msg)

namespace FairQueue

variable {P : Type u}

def new : FairQueue P := ⟨.new, fun _ => ⟨false, []⟩, fun _ => [], []⟩

inductive Op (P : Type u) where
  | attach (pipe : P)
  | deliver (pipe : P) (frames : List Msg)
  | activated (pipe : P)
  | pipeTerminated (pipe : P)
  | recvpipe
  | hasIn

/-- The pipe of the message that has been received in part. -/
def reading (s : FairQueue P) : Option P :=
  s.got.getLast?.bind fun x => if x.2.hasMore then some x.1 else none

variable [DecidableEq P] (s : FairQueue P)

def received (p : P) : List Msg := (s.got.filter fun x => x.1 = p).map Prod.snd

/-- What pipes and their peers keep to: a pipe is new when it is attached, it delivers whole
messages, it is activated when it was inactive, and it stays while it is read. -/
def Ready : Op P → Prop
  | .attach p => p ∉ s.fq.pipes ∧ s.delivered p = []
  | .deliver p frames => p ∈ s.fq.pipes ∧ Whole (frames.filter fun m => !m.isCredential)
  | .activated p => p ∈ s.fq.pipes ∧ (s.inlets p).inActive = false
  | .pipeTerminated p => p ∈ s.fq.pipes ∧ s.reading ≠ some p
  | .recvpipe | .hasIn => True

instance (op : Op P) : Decidable (s.Ready op) := by
  cases op <;> unfold Ready <;> infer_instance

def run : Op P → Except SocketFault (FairQueue P)
  | .attach p => .ok { s with fq := s.fq.attach p, inlets := update s.inlets p ⟨true, []⟩ }
  | .deliver p frames => .ok { s with
      inlets := update s.inlets p { s.inlets p with frames := (s.inlets p).frames ++ frames }
      delivered := update s.delivered p (s.delivered p ++ frames.filter fun m => !m.isCredential) }
  | .activated p =>
    -- the pipe is swapped with the first one that is not active
    if s.fq.active < s.fq.pipes.size then .ok { s with
      fq := s.fq.activated p, inlets := update s.inlets p { s.inlets p with inActive := true } }
    else .error .outOfBounds
  | .pipeTerminated p => .ok { s with fq := s.fq.pipeTerminated p }
  | .recvpipe => do
    let (r, fq, inlets) ← s.fq.recvpipe s.inlets
    return { s with fq := fq, inlets := inlets, got := s.got ++ r.toList }
  | .hasIn => do
    let (_, fq, inlets) ← s.fq.hasIn s.inlets
    return { s with fq := fq, inlets := inlets }

def Start : Prop := s = new

abbrev Step : FairQueue P → Op P → FairQueue P → Prop := Does Ready run

/-- Between the first frame of a message and its frame without more nothing comes from another
pipe, and from each pipe its frames come one after the other. -/
structure Unmixed (s : FairQueue P) : Prop where
  chain : s.got.IsChain fun x y => x.2.hasMore = true → y.1 = x.1
  consecutive : ∀ p, s.received p <+: s.delivered p

/-- No assertion fails and no index is out of bounds. -/
def Safe : Prop := ∀ op, s.Ready op → ∃ s', s.run op = .ok s'

/-- Not a termination that moves the pipe being read, the last active one, to another place
than the one `current` goes to. -/
def Keeps : Op P → Prop
  | .pipeTerminated p => ¬ (s.fq.more = true ∧ 0 < s.fq.pipes.index p ∧ s.fq.pipes.index p < s.fq.current ∧
      s.fq.current + 1 = s.fq.active)
  | _ => True

instance (op : Op P) : Decidable (s.Keeps op) := by
  cases op <;> unfold Keeps <;> infer_instance

structure Sound (s : FairQueue P) : Prop where
  wf : s.fq.Wf
  listening : ∀ p, s.fq.IsActive p → (s.inlets p).inActive = true
  more : s.fq.more = s.reading.isSome
  current : ∀ p, s.reading = some p → s.fq.IsCurrent p
  stream : ∀ p ∈ s.fq.pipes, s.received p ++ (s.inlets p).pending = s.delivered p
  past : ∀ p, s.received p <+: s.delivered p
  whole : ∀ p, Whole (s.delivered p)
  chain : s.got.IsChain fun x y => x.2.hasMore = true → y.1 = x.1

variable {s s' : FairQueue P} {p : P} {i : Inlet} {w : P → Inlet} {op : Op P}

omit [DecidableEq P] in
theorem reading_eq : s.reading = some p ↔ ∃ l m, s.got = l ++ [(p, m)] ∧ m.hasMore = true := by
  unfold reading
  rcases eq_nil_or_concat' s.got with hg | ⟨l, ⟨q, m⟩, hg⟩
  · simp [hg]
  · rw [hg, getLast?_concat, bind_some]
    constructor
    · intro h
      split_ifs at h with hm
      cases h
      exact ⟨l, m, rfl, hm⟩
    · rintro ⟨l', m', he, hm⟩
      obtain ⟨-, he⟩ := append_inj' he rfl
      obtain ⟨rfl, rfl⟩ := he
      exact if_pos hm

theorem Sound.rest_pending (h : s.Sound) (hr : s.reading = some p) : (s.inlets p).pending ≠ [] := by
  intro hp
  obtain ⟨l, m, hg, hm⟩ := reading_eq.mp hr
  have hs := h.stream p (h.current p hr).1.1
  have hreceived : s.received p = (l.filter fun x => x.1 = p).map Prod.snd ++ [m] := by simp [received, hg]
  rw [hp, append_nil, hreceived] at hs
  have hw := h.whole p m (by rw [← hs, getLast?_concat]; rfl)
  exact false_ne_true (hw.symm.trans hm)

theorem Sound.not_reading (h : s.Sound) (hm : s.fq.more = false) : s.reading = none := by
  rw [← not_isSome_iff_eq_none, ← h.more, hm]
  exact false_ne_true

theorem update_pending (hi : i.pending = (w p).pending) (q : P) : (update w p i q).pending = (w q).pending := by
  rcases eq_or_ne q p with rfl | hq
  · rw [update_self, hi]
  · rw [update_of_ne hq]

theorem Sound.skip (h : s.Sound) (hc : s.fq.IsCurrent p) (hm : s.fq.more = false) (hi : i.pending = (s.inlets p).pending) :
    Sound { s with fq := { s.fq with toRota := s.fq.deactivate }, inlets := update s.inlets p i } where
  wf := Rota.deactivate_wf h.wf hc
  listening q hq := by
    obtain ⟨hq, hne⟩ := (Rota.deactivate_isActive h.wf hc).mp hq
    change (update s.inlets p i q).inActive = true
    rw [update_of_ne hne]
    exact h.listening q hq
  more := h.more
  current q hq := by
    have hq : s.reading = some q := hq
    rw [h.not_reading hm] at hq
    exact absurd hq.symm (some_ne_none q)
  stream q hq := by
    rw [update_pending hi]
    exact h.stream q (Rota.deactivate_mem.mp hq)
  past := h.past
  whole := h.whole
  chain := h.chain

theorem Sound.skips {r r' : Rota P} {w w' : P → Inlet} (hs : Rota.Skips FqT.Kept r w r' w')
    (hm : s.fq.more = false) (h : Sound { s with fq := { s.fq with toRota := r }, inlets := w }) :
    Sound { s with fq := { s.fq with toRota := r' }, inlets := w' } := by
  induction hs with
  | done => exact h
  | skip hc hi _ ih => exact ih (h.skip hc hm hi.1)

theorem Sound.searched {r : Rota P} (h : s.Sound) (hs : Rota.Skips FqT.Kept s.fq.toRota s.inlets r w)
    (hm : s.fq.more = true → r = s.fq.toRota ∧ w = s.inlets) : Sound { s with fq := { s.fq with toRota := r }, inlets := w } := by
  cases hmore : s.fq.more with
  | true =>
    obtain ⟨rfl, rfl⟩ := hm hmore
    exact h
  | false => exact Sound.skips hs hmore h

theorem received_snoc (q : P) (m : Msg) :
    received { s with got := s.got ++ [(p, m)] } q = s.received q ++ if p = q then [m] else [] := by
  unfold received
  split_ifs with h <;> simp [h]

omit [DecidableEq P] in
theorem reading_snoc (m : Msg) : reading { s with got := s.got ++ [(p, m)] } = if m.hasMore then some p else none := by
  unfold reading
  rw [getLast?_concat, bind_some]

theorem Sound.fetch {m : Msg} (h : s.Sound) (hc : s.fq.IsCurrent p) (hr : (s.inlets p).read = (some m, i)) : Sound { s with
      fq := s.fq.fetched m
      inlets := update s.inlets p i
      got := s.got ++ [(p, m)] } := by
  obtain ⟨hp, hi⟩ := Inlet.read_some hr
  have hpipes : (s.fq.fetched m).pipes = s.fq.pipes := by
    unfold FqT.fetched
    split_ifs <;> rfl
  have hactive : (s.fq.fetched m).active = s.fq.active := by
    unfold FqT.fetched
    split_ifs <;> rfl
  have hstream : ∀ q ∈ s.fq.pipes, (s.received q ++ if p = q then [m] else []) ++ (update s.inlets p i q).pending =
      s.delivered q := by
    intro q hq
    rw [← h.stream q hq]
    rcases eq_or_ne p q with rfl | hne
    · rw [if_pos rfl, update_self, hp, append_assoc, singleton_append]
    · rw [if_neg hne, update_of_ne hne.symm, append_nil]
  refine ⟨?_, ?_, ?_, ?_, ?_, ?_, h.whole, ?_⟩
  · unfold FqT.fetched
    split_ifs
    · exact h.wf
    · exact Rota.advance_wf h.wf hc.active_pos
  · intro q hq
    change (update s.inlets p i q).inActive = true
    rcases eq_or_ne q p with rfl | hne
    · rw [update_self, hi]
    · rw [update_of_ne hne]
      refine h.listening q ?_
      unfold Rota.IsActive at hq ⊢
      rwa [← hpipes, ← hactive]
  · change (s.fq.fetched m).more = (reading { s with got := s.got ++ [(p, m)] }).isSome
    rw [reading_snoc, FqT.fetched]
    split_ifs <;> rfl
  · intro q hq
    change reading { s with got := s.got ++ [(p, m)] } = some q at hq
    rw [reading_snoc] at hq
    split_ifs at hq with hm
    cases hq
    simpa [FqT.fetched, hm] using hc
  · intro q hq
    change received { s with got := s.got ++ [(p, m)] } q ++ _ = _
    rw [received_snoc]
    exact hstream q (hpipes ▸ hq)
  · intro q
    change received { s with got := s.got ++ [(p, m)] } q <+: s.delivered q
    rw [received_snoc]
    rcases eq_or_ne p q with rfl | hne
    · exact ⟨_, hstream p hc.1.1⟩
    · rw [if_neg hne, append_nil]
      exact h.past q
  · refine isChain_append.mpr ⟨h.chain, isChain_singleton _, ?_⟩
    rintro ⟨q, x⟩ hx y hy hm
    cases hy
    obtain ⟨l, hl⟩ := getLast?_eq_some_iff.mp hx
    exact hc.unique (h.current q (reading_eq.mpr ⟨l, x, hl, hm⟩))

theorem Sound.recvpipe (h : s.Sound) : ∃ s', s.run .recvpipe = .ok s' ∧ s'.Sound := by
  obtain ⟨r, w, hs, hm, hx⟩ := @FqT.recvLoop_goes _ _ s.fq s.inlets _ h.wf rfl (by
    intro hm
    rw [h.more] at hm
    obtain ⟨p, hp⟩ := isSome_iff_exists.mp hm
    exact ⟨p, h.current p hp, Inlet.read_isSome (h.listening p (h.current p hp).1) (h.rest_pending hp)⟩)
  have h' := h.searched hs hm
  simp only [run, FqT.recvpipe]
  rcases hx with hx | ⟨p, m, i, hc, hr, hx⟩
  · rw [hx]
    exact ⟨_, rfl, by simpa using h'⟩
  · rw [hx]
    exact ⟨_, rfl, h'.fetch hc hr⟩

theorem Sound.hasIn (h : s.Sound) : ∃ s', s.run .hasIn = .ok s' ∧ s'.Sound := by
  obtain ⟨b, r, w, hx, hs, hm⟩ := @FqT.hasIn_goes _ _ s.fq s.inlets h.wf
  simp only [run, hx]
  exact ⟨_, rfl, h.searched hs hm⟩

theorem Sound.received_nil (h : s.Sound) (hd : s.delivered p = []) : s.received p = [] :=
  prefix_nil.mp (hd ▸ h.past p)

theorem Sound.attach (h : s.Sound) (hp : p ∉ s.fq.pipes) (hd : s.delivered p = []) :
    Sound { s with fq := s.fq.attach p, inlets := update s.inlets p ⟨true, []⟩ } := by
  have hfq := FqT.attach_toRota hp
  refine ⟨?_, ?_, h.more, ?_, ?_, h.past, h.whole, h.chain⟩
  · rw [hfq]
    exact Rota.attach_wf h.wf hp
  · intro q hq
    change (update s.inlets p ⟨true, []⟩ q).inActive = true
    rw [hfq, Rota.attach_isActive h.wf hp] at hq
    rcases eq_or_ne q p with rfl | hne
    · rw [update_self]
    · rw [update_of_ne hne]
      exact h.listening q (hq.resolve_right hne)
  · intro q hq
    rw [hfq]
    exact Rota.attach_isCurrent h.wf hp (h.current q hq)
  · intro q hq
    change s.received q ++ (update s.inlets p ⟨true, []⟩ q).pending = s.delivered q
    rw [hfq, Rota.attach_mem] at hq
    rcases eq_or_ne q p with rfl | hne
    · rw [update_self, hd, h.received_nil hd]
      rfl
    · rw [update_of_ne hne]
      exact h.stream q (hq.resolve_right hne)

theorem whole_append {l l' : List Msg} (h : Whole l) (h' : Whole l') : Whole (l ++ l') := by
  unfold Whole
  rw [getLast?_append]
  cases hl : l'.getLast? with
  | none => exact h
  | some m => exact fun x hx => h' x (by rw [hl]; exact hx)

theorem Sound.deliver {frames : List Msg} (h : s.Sound) (hw : Whole (frames.filter fun m => !m.isCredential)) :
    Sound { s with
      inlets := update s.inlets p { s.inlets p with frames := (s.inlets p).frames ++ frames }
      delivered := update s.delivered p (s.delivered p ++ frames.filter fun m => !m.isCredential) } := by
  refine ⟨h.wf, ?_, h.more, h.current, ?_, ?_, ?_, h.chain⟩
  · intro q hq
    change (update s.inlets p _ q).inActive = true
    rcases eq_or_ne q p with rfl | hne
    · rw [update_self]
      exact h.listening q hq
    · rw [update_of_ne hne]
      exact h.listening q hq
  · intro q hq
    change s.received q ++ (update s.inlets p _ q).pending = update s.delivered p _ q
    rcases eq_or_ne q p with rfl | hne
    · rw [update_self, update_self, ← h.stream q hq, Inlet.pending, filter_append,
        append_assoc]
      rfl
    · rw [update_of_ne hne, update_of_ne hne]
      exact h.stream q hq
  · intro q
    change s.received q <+: update s.delivered p _ q
    rcases eq_or_ne q p with rfl | hne
    · rw [update_self]
      exact (h.past q).trans (prefix_append _ _)
    · rw [update_of_ne hne]
      exact h.past q
  · intro q
    change Whole (update s.delivered p _ q)
    rcases eq_or_ne q p with rfl | hne
    · rw [update_self]
      exact whole_append (h.whole q) hw
    · rw [update_of_ne hne]
      exact h.whole q

theorem Sound.activated (h : s.Sound) (hp : p ∈ s.fq.pipes) (hi : (s.inlets p).inActive = false) :
    ∃ s', s.run (.activated p) = .ok s' ∧ s'.Sound := by
  have hn : ¬ s.fq.IsActive p := fun ha => false_ne_true (hi.symm.trans (h.listening p ha))
  have hlt := Rota.inactive_lt hp hn
  refine ⟨_, if_pos hlt, Rota.activated_wf h.wf hlt, ?_, h.more, fun q hq => ?_, ?_, h.past, h.whole, h.chain⟩
  · intro q hq
    change (update s.inlets p _ q).inActive = true
    rcases eq_or_ne q p with rfl | hne
    · rw [update_self]
    · rw [update_of_ne hne]
      exact h.listening q (((Rota.activated_isActive hp hn).mp hq).resolve_right hne)
  · have hc := h.current q hq
    refine Rota.activated_isCurrent hp hlt ?_ hc
    rintro rfl
    exact hn hc.1
  · intro q hq
    rw [update_pending (i := ⟨true, (s.inlets p).frames⟩) (w := s.inlets) rfl]
    exact h.stream q (Rota.activated_mem.mp hq)

theorem Sound.pipeTerminated (h : s.Sound) (hp : p ∈ s.fq.pipes) (hr : s.reading ≠ some p)
    (hk : s.Keeps (.pipeTerminated p)) : Sound { s with fq := s.fq.pipeTerminated p } where
  wf := Rota.pipeTerminated_wf h.wf hp
  listening q hq := h.listening q ((Rota.pipeTerminated_isActive h.wf hp).mp hq).1
  more := h.more
  current q hq := by
    have hq : s.reading = some q := hq
    refine Rota.pipeTerminated_isCurrent h.wf hp (h.current q hq) ?_ ?_
    · rintro rfl
      exact hr hq
    · intro hc
      exact hk ⟨by rw [h.more, hq]; rfl, hc⟩
  stream q hq := h.stream q ((Rota.pipeTerminated_mem hp).mp hq).1
  past := h.past
  whole := h.whole
  chain := h.chain

theorem Sound.run (h : s.Sound) (hr : s.Ready op) (hk : s.Keeps op) : ∃ s', s.run op = .ok s' ∧ s'.Sound := by
  cases op with
  | attach p => exact ⟨_, rfl, h.attach hr.1 hr.2⟩
  | deliver p frames => exact ⟨_, rfl, h.deliver hr.2⟩
  | activated p => exact h.activated hr.1 hr.2
  | pipeTerminated p => exact ⟨_, rfl, h.pipeTerminated hr.1 hr.2 hk⟩
  | recvpipe => exact h.recvpipe
  | hasIn => exact h.hasIn

theorem Sound.safe (h : s.Sound) : s.Safe := by
  intro op hr
  cases op with
  | activated | recvpipe | hasIn =>
    obtain ⟨s', hs, -⟩ := h.run hr trivial
    exact ⟨s', hs⟩
  | attach | deliver | pipeTerminated => exact ⟨_, rfl⟩

theorem new_sound : (new : FairQueue P).Sound where
  wf := Rota.empty_wf
  listening _ hp := absurd hp.2 (Nat.not_lt_zero _)
  more := rfl
  current _ hp := absurd hp.symm (some_ne_none _)
  stream _ hp := nomatch hp
  past _ := nil_prefix
  whole _ _ hm := absurd hm.symm (some_ne_none _)
  chain := isChain_nil

theorem step_sound (h : s.Sound) (hs : Guarded Keeps Step s op s') : s'.Sound := by
  obtain ⟨hk, hr, hrun⟩ := hs
  obtain ⟨t, ht, hsound⟩ := h.run hr hk
  cases hrun.symm.trans ht
  exact hsound

theorem run_sound {ops : List (Op P)} (h : Run Start (Guarded Keeps Step) ops s) : s.Sound :=
  h.invariant Sound (fun _ h0 => h0 ▸ new_sound) (fun _ _ _ hI hs => step_sound hI hs)

/-- In a run in which every termination keeps the pipe being read current, messages are not
mixed and no assertion fails. -/
theorem fair_queueing_unmixed {ops : List (Op P)} (h : Run Start (Guarded Keeps Step) ops s) : s.Unmixed ∧ s.Safe := by
  have hs := run_sound h
  exact ⟨⟨hs.chain, hs.past⟩, hs.safe⟩

/-- The second of three pipes, or of four, terminates in the middle of a message of the third. -/
def threePipes : List (Op ℕ) :=
  [.attach 0, .attach 1, .attach 2, .deliver 0 [⟨.vsm, 0, [1]⟩], .deliver 1 [⟨.vsm, 0, [2]⟩],
    .deliver 2 [⟨.vsm, Msg.more, [3]⟩, ⟨.vsm, 0, [4]⟩], .recvpipe, .recvpipe, .recvpipe]

theorem fair_queueing_unmixed_four : ∃ s : FairQueue ℕ,
    Run Start (Guarded Keeps Step) (threePipes ++ [.attach 3, .pipeTerminated 1, .recvpipe]) s ∧
    s.got.length = 4 ∧ s.Unmixed ∧ s.Safe :=
  exists_run (P := fun s => s.got.length = 4) (rfl : Start new) (by decide)
    fun _ hs hlen => ⟨hlen, fair_queueing_unmixed hs⟩

/-- After that termination the next frame comes from another pipe, or an assertion fails. -/
theorem fair_queueing_can_mix :
    (∃ s : FairQueue ℕ, Run Start Step (threePipes ++ [.deliver 0 [⟨.vsm, 0, [5]⟩], .pipeTerminated 1, .recvpipe]) s ∧
      ¬ s.Unmixed) ∧ ∃ s : FairQueue ℕ, Run Start Step (threePipes ++ [.pipeTerminated 1]) s ∧ ¬ s.Safe := by
  constructor
  · refine exists_run_free (P := fun s => s.got = [(0, ⟨.vsm, 0, [1]⟩), (1, ⟨.vsm, 0, [2]⟩), (2, ⟨.vsm, Msg.more, [3]⟩),
      (0, ⟨.vsm, 0, [5]⟩)]) (rfl : Start new) (by decide) fun s _ hgot hu => ?_
    have hc := hu.chain
    rw [hgot] at hc
    simp [Msg.hasMore, Msg.more] at hc
  · refine exists_run_free (P := fun s => (s.run .recvpipe).toBool = false) (rfl : Start new) (by decide)
      fun s _ hfails hsafe => ?_
    obtain ⟨s', hs'⟩ := hsafe .recvpipe trivial
    rw [hs'] at hfails
    exact Bool.noConfusion hfails

end FairQueue

end Zmq
