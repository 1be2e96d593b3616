import LibZmq.Sockets.LoadBalancer
import LibZmq.Sockets.Xpub

/-! A publisher over pipes that come, go, fill up and start to terminate at any time, with the
subscriptions that are in effect. Each frame that is sent is compared with the pipes it is for. -/

namespace Zmq

open Finset DistT XpubT

open Function (update update_of_ne update_self)

namespace DistT

variable {P : Type} [DecidableEq P] {d : DistT P} {w : P → Outlet}

theorem checkHwm_iff : d.checkHwm w = true ↔ ∀ p, d.Matches p → (w p).self.checkHwm = true := by
  unfold checkHwm
  rw [List.all_eq_true]
  constructor
  · rintro h p ⟨hp, hi⟩
    exact h p ((List.mem_take_iff_idxOf_lt hp).mpr hi)
  · intro h p hp
    have hmem : p ∈ d.pipes := List.mem_of_mem_take hp
    exact h p ⟨hmem, (List.mem_take_iff_idxOf_lt hmem).mp hp⟩

theorem wrote_out (o : Outlet) (m : Msg) : (wrote o m).out ≠ o.out := by
  have hlen : ∀ s s' : Staged Msg, s.items.length ≠ s'.items.length → s ≠ s' := fun s s' hn he => hn (by rw [he])
  have hwrite : (o.accept m).out.items.length = o.out.items.length + 1 := by
    unfold Outlet.accept Staged.write Staged.items
    cases m.hasMore <;> simp <;> omega
  have hflush : (o.accept m).flush.out.items.length = (o.accept m).out.items.length := by
    unfold Outlet.flush
    split_ifs
    · rfl
    · unfold Staged.flush Staged.publish Staged.items
      split_ifs <;> simp
  refine hlen _ _ ?_
  unfold wrote
  split_ifs
  · omega
  · omega

end DistT

namespace XpubT

variable {P : Type} [DecidableEq P] {x : XpubT P} {w : P → Outlet} {m : Msg} {calls : List P} {d : DistT P}

/-- What the first frame of a message marks, on top of what is marked already. -/
def Marked (x : XpubT P) (calls : List P) (p : P) : Prop :=
  if x.invertMatching then x.dist.Eligible p ∧ ¬ (x.dist.Matches p ∨ p ∈ calls)
  else x.dist.Matches p ∨ p ∈ calls ∧ x.dist.Eligible p

theorem markAsMatching_eq (h : d.Wf) (hm : d.more = false) (hc : ∀ p ∈ calls, p ∈ d.pipes) :
    markAsMatching d calls = .ok (calls.foldl matchPipe d) := by
  induction calls generalizing d with
  | nil => rfl
  | cons p calls ih =>
    obtain ⟨hw, hr⟩ := matchPipe_wf (x := p) h hm
    rw [markAsMatching, if_pos (hc p List.mem_cons_self)]
    exact ih hw (hr.more.trans hm) fun q hq => (hr.mem q).mpr (hc q (List.mem_cons_of_mem p hq))

theorem search_spec (h : x.dist.Wf) (hm : x.dist.more = false) (hc : ∀ p ∈ calls, p ∈ x.dist.pipes) :
    ∃ d, x.search calls = .ok d ∧ d.Wf ∧ DistT.Rearranged x.dist d ∧ ∀ p, d.Matches p ↔ x.Marked calls p := by
  obtain ⟨hw, hr, hmatches⟩ := foldl_matchPipe calls h hm
  obtain ⟨hw', hr', hmatches'⟩ := reverseMatch_spec hw (hr.more.trans hm)
  rw [search, markAsMatching_eq h hm hc]
  unfold Marked
  by_cases hi : x.invertMatching = true
  · refine ⟨_, rfl, ?_⟩
    simp only [hi, if_true]
    refine ⟨hw', hr.trans hr', fun p => ?_⟩
    rw [hmatches', hr.eligible, hmatches]
    exact and_congr_right fun he => not_congr (or_congr_right (and_iff_left he))
  · refine ⟨_, rfl, ?_⟩
    simp only [hi]
    exact ⟨hw, hr, hmatches⟩

theorem xsend_spec (h : d.Wf) (hd : x.choose calls = .ok d) :
    (x.lossy || d.checkHwm w) = false ∧ x.xsend w m calls = .ok (false, { x with dist := d }, w) ∨
    (x.lossy || d.checkHwm w) = true ∧ ∃ d' w', DistT.Sent d w m d' w' ∧ x.xsend w m calls =
      .ok (true, { x with dist := if m.hasMore then d' else d'.unmatch, more := m.hasMore }, w') := by
  unfold xsend
  rw [hd]
  dsimp only [bind, Except.bind]
  cases hl : (x.lossy || d.checkHwm w) with
  | false => exact .inl ⟨rfl, rfl⟩
  | true =>
    obtain ⟨d', w', hs, hsent⟩ := @DistT.sendToMatching_sent _ _ _ w m h
    refine .inr ⟨rfl, d', w', hsent, ?_⟩
    rw [hs]
    rfl

end XpubT

structure Publisher (P : Type) where
  xpub : XpubT P
  outlets : P → Outlet
  /-- the subscriptions in effect -/
  subs : Finset (List UInt8 × P)
  /-- within a message, the pipes that its last frame was for -/
  audience : Option (Finset P)

namespace Publisher

open LoadBalancer (unattached endOf frame frameMore)

variable {P : Type}

def new (pub : Bool) : Publisher P := ⟨.new pub, fun _ => unattached, ∅, none⟩

inductive Op (P : Type) where
  | attach (pipe : P) (self : PipeT) (all : Bool) (msgs : List Msg)
  | drift (pipe : P) (outlet : Outlet)
  | readActivated (pipe : P) (msgs : List Msg)
  | writeActivated (pipe : P) (msgsRead : UInt64)
  | pipeTerminated (pipe : P)
  | xsetsockopt (opt : XpubOption)
  /-- ZMQ_INVERT_MATCHING -/
  | invertMatching (on : Bool)
  | xrecv
  /-- `calls` are the pipes that the subscriptions find, in some order -/
  | xsend (msg : Msg) (calls : List P)

variable [DecidableEq P] (s : Publisher P)

/-- What pipes keep to: a pipe is new when it is attached, and it is activated when it was not
active. -/
def Ready : Op P → Prop
  | .attach p self _ _ => p ∉ s.xpub.dist.pipes ∧ self.checkWrite.1 = true
  | .drift p o => Outlet.Drifts (s.outlets p) o
  | .readActivated p _ => p ∈ s.xpub.dist.pipes
  | .writeActivated p _ => p ∈ s.xpub.dist.pipes ∧ (s.outlets p).self.outActive = false ∧ (s.outlets p).self.state = .active
  | .pipeTerminated p => p ∈ s.xpub.dist.pipes
  | .xsend m calls => s.xpub.more = false → s.xpub.subscriptions.matchPipes m.data = .ok (calls : Multiset P)
  | _ => True

instance (e : Except TrieFault (Multiset P)) (ms : Multiset P) : Decidable (e = .ok ms) :=
  match e with
  | .ok a => decidable_of_iff (a = ms) ⟨congrArg _, Except.ok.inj⟩
  | .error _ => .isFalse nofun

instance (op : Op P) : Decidable (s.Ready op) := by
  cases op <;> unfold Ready <;> infer_instance

/-- The pipe has a subscription that is a prefix of the frame. -/
def Wants (m : Msg) (p : P) : Prop := ∃ x ∈ s.subs, x.2 = p ∧ x.1 <+: m.data

instance (m : Msg) (p : P) : Decidable (s.Wants m p) :=
  inferInstanceAs (Decidable (∃ x ∈ s.subs, x.2 = p ∧ x.1 <+: m.data))

/-- What says whether a frame is for a pipe: its subscriptions for a first frame, the frame before it
for a later one. -/
def Chosen (m : Msg) (p : P) : Prop :=
  match s.audience with
  | none => if s.xpub.invertMatching then ¬ s.Wants m p else s.Wants m p
  | some a => p ∈ a

/-- The frame is to be written to the pipe. -/
def Target (m : Msg) (p : P) : Prop :=
  p ∈ s.xpub.dist.pipes ∧ (s.outlets p).self.checkWrite.1 = true ∧ s.Chosen m p

instance (m : Msg) (p : P) : Decidable (s.Target m p) := by
  unfold Target Chosen
  cases s.audience
  · dsimp only
    infer_instance
  · dsimp only
    infer_instance

def targets (m : Msg) : Finset P := s.xpub.dist.pipes.items.toFinset.filter (s.Target m)

def run : Op P → Except XpubFault (Publisher P)
  | .attach p self all msgs => do
    let (xpub, outlets) ← s.xpub.xattachPipe (update s.outlets p ⟨self, Staged.empty⟩) p all msgs
    return { s with
      xpub := xpub, outlets := outlets
      subs := msgs.foldl (XpubT.heard s.xpub.manual p) (if all then insert ([], p) s.subs else s.subs) }
  | .drift p o => .ok { s with outlets := update s.outlets p o }
  | .readActivated p msgs => do
    let xpub ← s.xpub.xreadActivated p msgs
    return { s with xpub := xpub, subs := msgs.foldl (XpubT.heard s.xpub.manual p) s.subs }
  | .writeActivated p n => .ok { s with
      xpub := s.xpub.xwriteActivated p
      outlets := update s.outlets p { s.outlets p with
        self := { (s.outlets p).self with peersMsgsRead := n, outActive := true } } }
  | .pipeTerminated p => do
    let xpub ← s.xpub.xpipeTerminated p
    return { s with
      xpub := xpub
      outlets := update s.outlets p (s.outlets p).closed
      subs := s.subs.filter (·.2 ≠ p)
      audience := s.audience.map (·.erase p) }
  | .xsetsockopt opt => do
    let (_, xpub) ← s.xpub.xsetsockopt opt
    return { s with xpub := xpub, subs := s.xpub.settled s.subs opt }
  | .invertMatching on => .ok { s with xpub := { s.xpub with invertMatching := on } }
  | .xrecv => .ok { s with xpub := s.xpub.xrecv.2 }
  | .xsend m calls => do
    let (rc, xpub, outlets) ← s.xpub.xsend s.outlets m calls
    return { s with
      xpub := xpub, outlets := outlets
      audience := if rc then (if m.hasMore then some (s.targets m) else none) else s.audience }

def Start : Prop := ∃ pub, s = new pub

abbrev Step : Publisher P → Op P → Publisher P → Prop := Does Ready run

/-- A frame that is accepted is written once to each of its targets, and nothing else is written. -/
def Routed (m : Msg) (rc : Bool) (outlets : P → Outlet) : Prop :=
  if rc then ∀ p, (s.Target m p → outlets p = DistT.wrote (s.outlets p) m) ∧
    (¬ s.Target m p → (outlets p).out = (s.outlets p).out)
  else outlets = s.outlets

/-- The pipes that the first frame marks let the message through. -/
def Accepts (calls : List P) : Prop :=
  s.xpub.lossy = true ∨ ∀ p ∈ s.xpub.dist.pipes.items, s.xpub.Marked calls p → (s.outlets p).self.checkHwm = true

/-- Not the first frame of a message that is let through while a writable pipe is still marked for one that
has been refused and has no subscription for the new one; and in manual mode not the termination of a pipe
that the user has subscribed, nor a subscription of a pipe that has terminated. -/
def Keeps : Op P → Prop
  | .xsend m calls => s.audience = none → s.Accepts calls →
    ∀ p ∈ s.xpub.dist.pipes.items, s.xpub.dist.Matches p → (s.outlets p).self.checkWrite.1 = true → s.Wants m p
  | .pipeTerminated p => s.xpub.manual = true → ∀ x ∈ s.subs, x.2 ≠ p
  | .xsetsockopt (.subscribe _) => s.xpub.manual = true → ∀ p ∈ s.xpub.lastPipe, p ∈ s.xpub.dist.pipes
  | _ => True

structure Sound (s : Publisher P) : Prop where
  wf : s.xpub.dist.Wf
  trie : MtrieT.Represents s.xpub.subscriptions s.subs
  attached : ∀ x ∈ s.subs, x.2 ∈ s.xpub.dist.pipes
  more : s.xpub.more = s.audience.isSome
  distMore : s.xpub.dist.more = s.audience.isSome
  audience : ∀ a, s.audience = some a → ∀ p, s.xpub.dist.Matches p ↔ p ∈ a
  eligible : ∀ p ∈ s.xpub.dist.pipes, (s.outlets p).self.outActive = true → (s.outlets p).self.state = .active →
    s.xpub.dist.Eligible p
  passive : ∀ p, s.xpub.dist.Eligible p → (s.outlets p).self.outActive = true ∨ (s.outlets p).self.state ≠ .active

instance (d : DistT P) (p : P) : Decidable (d.Matches p) := inferInstanceAs (Decidable (_ ∧ _))

instance (d : DistT P) (p : P) : Decidable (d.Eligible p) := inferInstanceAs (Decidable (_ ∧ _))

instance (x : XpubT P) (calls : List P) (p : P) : Decidable (x.Marked calls p) := by
  unfold XpubT.Marked
  infer_instance

instance (calls : List P) : Decidable (s.Accepts calls) := by
  unfold Accepts
  infer_instance

instance (op : Op P) : Decidable (s.Keeps op) := by
  cases op with
  | xsetsockopt opt => cases opt <;> unfold Keeps <;> infer_instance
  | _ => unfold Keeps; infer_instance

variable {s s' : Publisher P} {p : P} {m : Msg} {o : Outlet} {msgs : List Msg} {d d' : DistT P} {w' : P → Outlet}

theorem mem_heard {manual : Bool} {r : Finset (List UInt8 × P)} {x : List UInt8 × P} (msgs : List Msg)
    (h : x ∈ msgs.foldl (heard manual p) r) : x ∈ r ∨ x.2 = p := by
  induction msgs generalizing r with
  | nil => exact .inl h
  | cons m msgs ih =>
    rcases ih h with h | h
    · unfold heard at h
      cases hd : m.data with
      | nil =>
        rw [hd] at h
        exact .inl h
      | cons c topic =>
        rw [hd] at h
        dsimp only at h
        split_ifs at h
        · exact .inl h
        · exact .inl (mem_of_mem_erase h)
        · rcases mem_insert.mp h with rfl | h
          · exact .inr rfl
          · exact .inl h
        · exact .inl h
    · exact .inr h

omit [DecidableEq P] in
theorem welcome_outActive {x : XpubT P} (h : o.self.checkWrite.1 = true) : (x.welcome o).self.outActive = true := by
  have ha := (Outlet.checkWrite_true h).1
  unfold welcome
  split_ifs
  · exact ha
  · rw [Outlet.write_done h]
    simpa [Outlet.accept] using ha

theorem Sound.keep {xpub : XpubT P} {subs : Finset (List UInt8 × P)} (h : s.Sound) (hdist : xpub.dist = s.xpub.dist)
    (hmore : xpub.more = s.xpub.more) (ht : MtrieT.Represents xpub.subscriptions subs)
    (ha : ∀ x ∈ subs, x.2 ∈ s.xpub.dist.pipes) : Sound { s with xpub := xpub, subs := subs } := by
  rw [← hdist] at ha
  have hwf := h.wf
  have hm := h.distMore
  have haud := h.audience
  have helig := h.eligible
  have hpass := h.passive
  rw [← hdist] at hwf hm haud helig hpass
  exact ⟨hwf, ht, ha, hmore.trans h.more, hm, haud, helig, hpass⟩

theorem Sound.attach {self : PipeT} {all : Bool} (h : s.Sound) (hp : p ∉ s.xpub.dist.pipes)
    (hw : self.checkWrite.1 = true) (hs : s.run (.attach p self all msgs) = .ok s') : s'.Sound := by
  obtain ⟨⟨xpub, outlets⟩, hx, hs⟩ := bind_ok hs
  cases hs
  obtain ⟨⟨t, mt, pipes, pending, rfl⟩, rfl, ht⟩ := xattachPipe_spec h.trie hx
  have hne : ∀ {q}, q ∈ s.xpub.dist.pipes → q ≠ p := by
    rintro q hq rfl
    exact hp hq
  have helig : ∀ q, (s.xpub.dist.attach p).Eligible q ↔ s.xpub.dist.Eligible q ∨ q = p := fun q =>
    attach_eligible h.wf hp
  refine ⟨attach_wf h.wf hp, ht, fun x hx => ?_, h.more, attach_more.trans h.distMore, fun a ha q => ?_,
    fun q hq ha hs => ?_, fun q hq => ?_⟩
  · refine (attach_mem h.wf hp).mpr ?_
    rcases mem_heard msgs hx with hx | hx
    · split_ifs at hx
      · rcases mem_insert.mp hx with rfl | hx
        · exact .inr rfl
        · exact .inl (h.attached x hx)
      · exact .inl (h.attached x hx)
    · exact .inr hx
  · exact (attach_matches h.wf hp).trans (h.audience a ha q)
  · rcases (attach_mem h.wf hp).mp hq with hq | rfl
    · dsimp only at ha hs
      rw [update_of_ne (hne hq), update_of_ne (hne hq)] at ha hs
      exact (helig q).mpr (.inl (h.eligible q hq ha hs))
    · exact (helig q).mpr (.inr rfl)
  · dsimp only
    rcases (helig q).mp hq with hq | rfl
    · rw [update_of_ne (hne hq.1), update_of_ne (hne hq.1)]
      exact h.passive q hq
    · rw [update_self, update_self]
      exact .inl (welcome_outActive hw)

theorem Sound.drift (h : s.Sound) (hd : Outlet.Drifts (s.outlets p) o) : Sound { s with outlets := update s.outlets p o } := by
  refine ⟨h.wf, h.trie, h.attached, h.more, h.distMore, h.audience, fun q hq ha hs => ?_, fun q hq => ?_⟩
  · dsimp only at ha hs
    rcases eq_or_ne q p with rfl | hne
    · rw [update_self] at ha hs
      exact h.eligible q hq (hd.outActive ha) (by_contra fun hc => hd.closed hc hs)
    · rw [update_of_ne hne] at ha hs
      exact h.eligible q hq ha hs
  · dsimp only
    rcases eq_or_ne q p with rfl | hne
    · rw [update_self]
      rcases h.passive q hq with ha | hs
      · exact hd.inactive ha
      · exact .inr (hd.closed hs)
    · rw [update_of_ne hne]
      exact h.passive q hq

theorem Sound.readActivated (h : s.Sound) (hp : p ∈ s.xpub.dist.pipes)
    (hs : s.run (.readActivated p msgs) = .ok s') : s'.Sound := by
  obtain ⟨xpub, hx, hs⟩ := bind_ok hs
  cases hs
  obtain ⟨⟨t, mt, pipes, pending, rfl⟩, ht⟩ := xreadActivated_spec h.trie hx
  refine ⟨h.wf, ht, fun x hx => ?_, h.more, h.distMore, h.audience, h.eligible, h.passive⟩
  rcases mem_heard msgs hx with hx | rfl
  · exact h.attached x hx
  · exact hp

theorem Sound.writeActivated {n : UInt64} (h : s.Sound) (hp : p ∈ s.xpub.dist.pipes)
    (ha : (s.outlets p).self.outActive = false) (hs : (s.outlets p).self.state = .active) :
    Sound { s with
      xpub := s.xpub.xwriteActivated p
      outlets := update s.outlets p { s.outlets p with
        self := { (s.outlets p).self with peersMsgsRead := n, outActive := true } } } := by
  have hn : ¬ s.xpub.dist.Eligible p := fun he => by
    rcases h.passive p he with h1 | h1
    · exact Bool.false_ne_true (ha.symm.trans h1)
    · exact h1 hs
  unfold xwriteActivated
  rw [activated_eq h.wf hp hn]
  have helig : ∀ q, (s.xpub.dist.join p).Eligible q ↔ s.xpub.dist.Eligible q ∨ q = p := fun q => join_eligible hp hn
  refine ⟨join_wf h.wf hp hn, h.trie, fun x hx => join_mem.mpr (h.attached x hx), h.more, h.distMore,
    fun a ha q => (join_matches h.wf hp hn).trans (h.audience a ha q), fun q hq ha hs => (helig q).mpr ?_,
    fun q hq => ?_⟩
  · rcases eq_or_ne q p with rfl | hne
    · exact .inr rfl
    · dsimp only at ha hs
      rw [update_of_ne hne] at ha hs
      exact .inl (h.eligible q (join_mem.mp hq) ha hs)
  · dsimp only
    rcases eq_or_ne q p with rfl | hne
    · rw [update_self]
      exact .inl rfl
    · rw [update_of_ne hne]
      exact h.passive q (((helig q).mp hq).resolve_right hne)

theorem Sound.pipeTerminated (h : s.Sound) (hp : p ∈ s.xpub.dist.pipes) (hk : s.Keeps (.pipeTerminated p))
    (hs : s.run (.pipeTerminated p) = .ok s') : s'.Sound := by
  obtain ⟨xpub, hx, hs⟩ := bind_ok hs
  cases hs
  obtain ⟨⟨t, mt, last, pipes, pending, rfl⟩, ht⟩ := xpipeTerminated_spec h.trie hk hx
  obtain ⟨hwf, hmem, hmatches, heligible, hmore⟩ := pipeTerminated_left h.wf hp
  refine ⟨hwf, ht, fun x hx => ?_, ?_, ?_, fun a ha q => ?_, fun q hq ha hs => ?_, fun q hq => ?_⟩
  · obtain ⟨hx, hne⟩ := mem_filter.mp hx
    exact (hmem x.2).mpr ⟨h.attached x hx, hne⟩
  · rw [Option.isSome_map]
    exact h.more
  · rw [Option.isSome_map]
    exact hmore.trans h.distMore
  · obtain ⟨b, hb, rfl⟩ := Option.map_eq_some_iff.mp ha
    rw [hmatches, h.audience b hb, mem_erase, and_comm]
  · obtain ⟨hq, hne⟩ := (hmem q).mp hq
    dsimp only at ha hs
    rw [update_of_ne hne] at ha hs
    exact (heligible q).mpr ⟨h.eligible q hq ha hs, hne⟩
  · obtain ⟨hq, hne⟩ := (heligible q).mp hq
    dsimp only
    rw [update_of_ne hne]
    exact h.passive q hq

theorem Sound.xsetsockopt {opt : XpubOption} (h : s.Sound) (hk : s.Keeps (.xsetsockopt opt))
    (hs : s.run (.xsetsockopt opt) = .ok s') : s'.Sound := by
  obtain ⟨⟨rc, xpub⟩, hx, hs⟩ := bind_ok hs
  cases hs
  obtain ⟨hdist, hmore, ht⟩ := xsetsockopt_spec h.trie hx
  have hattached : ∀ x ∈ s.xpub.settled s.subs opt, x.2 ∈ s.xpub.dist.pipes := by
    intro x hx
    cases opt with
    | verbose on | verboser on | nodrop on | manual on | welcomeMsg data => exact h.attached x hx
    | subscribe topic =>
      simp only [settled] at hx
      split at hx
      · rename_i q hm hl
        rcases mem_insert.mp hx with rfl | hx
        · exact hk hm q hl
        · exact h.attached x hx
      · exact h.attached x hx
    | unsubscribe topic =>
      simp only [settled] at hx
      split at hx
      · exact h.attached x (mem_of_mem_erase hx)
      · exact h.attached x hx
  exact h.keep hdist hmore ht hattached

omit [DecidableEq P] in
theorem xrecv_same (x : XpubT P) : x.xrecv.2.dist = x.dist ∧ x.xrecv.2.more = x.more ∧
    x.xrecv.2.subscriptions = x.subscriptions := by
  unfold xrecv
  split
  · exact ⟨rfl, rfl, rfl⟩
  · split <;> exact ⟨rfl, rfl, rfl⟩

theorem Sound.xrecv (h : s.Sound) : Sound { s with xpub := s.xpub.xrecv.2 } := by
  obtain ⟨hdist, hmore, ht⟩ := xrecv_same s.xpub
  exact h.keep hdist hmore (ht ▸ h.trie) h.attached

theorem Sound.calls (h : s.Sound) {calls : List P}
    (hc : s.xpub.subscriptions.matchPipes m.data = .ok (calls : Multiset P)) : p ∈ calls ↔ s.Wants m p := by
  obtain ⟨ms, hms, hcount⟩ := MtrieT.represents_match h.trie m.data
  cases hms.symm.trans hc
  rw [← Multiset.mem_coe, ← Multiset.count_pos, hcount, card_pos]
  constructor
  · rintro ⟨x, hx⟩
    obtain ⟨hx, hp⟩ := mem_filter.mp hx
    exact ⟨x, hx, hp⟩
  · rintro ⟨x, hx, hp⟩
    exact ⟨x, mem_filter.mpr ⟨hx, hp⟩⟩

theorem Sound.wants (h : s.Sound) (hw : s.Wants m p) : p ∈ s.xpub.dist.pipes := by
  obtain ⟨x, hx, rfl, -⟩ := hw
  exact h.attached x hx

theorem Sound.writable (h : s.Sound) (hp : p ∈ s.xpub.dist.pipes) (hw : (s.outlets p).self.checkWrite.1 = true) :
    s.xpub.dist.Eligible p := by
  obtain ⟨ha, hs, -⟩ := Outlet.checkWrite_true hw
  exact h.eligible p hp ha hs

def Marks (s : Publisher P) (calls : List P) (p : P) : Prop :=
  if s.xpub.more then s.xpub.dist.Matches p else s.xpub.Marked calls p

theorem Sound.choose (h : s.Sound) {calls : List P} (hr : s.Ready (.xsend m calls)) :
    ∃ d, s.xpub.choose calls = .ok d ∧ d.Wf ∧ DistT.Rearranged s.xpub.dist d ∧ ∀ p, d.Matches p ↔ s.Marks calls p := by
  unfold XpubT.choose Marks
  cases hm : s.xpub.more with
  | true => exact ⟨_, if_pos rfl, h.wf, .refl _, fun p => Iff.rfl⟩
  | false =>
    have hdist : s.xpub.dist.more = false := h.distMore.trans (h.more.symm.trans hm)
    exact search_spec h.wf hdist fun p hp => h.wants ((h.calls (hr hm)).mp hp)

def Unmisled (s : Publisher P) (m : Msg) : Prop :=
  ∀ p ∈ s.xpub.dist.pipes.items, s.xpub.dist.Matches p → (s.outlets p).self.checkWrite.1 = true → s.Wants m p

theorem Sound.marks_iff (h : s.Sound) {calls : List P} (hr : s.Ready (.xsend m calls)) :
    (s.audience = none → s.Unmisled m) ↔ ∀ p, (s.outlets p).self.checkWrite.1 = true →
      (s.Marks calls p ↔ p ∈ s.xpub.dist.pipes ∧ s.Chosen m p) := by
  unfold Marks Chosen
  have hmore := h.more
  cases ha : s.audience with
  | some a =>
    rw [ha] at hmore
    simp only [hmore, Option.isSome_some, if_true]
    refine ⟨fun _ p _ => ?_, fun _ hc => absurd hc (Option.some_ne_none a)⟩
    rw [h.audience a ha]
    exact ⟨fun hp => ⟨((h.audience a ha p).mpr hp).1, hp⟩, And.right⟩
  | none =>
    rw [ha] at hmore
    simp only [hmore, Option.isSome_none, Bool.false_eq_true, if_false, forall_const]
    have hcalls : ∀ p, p ∈ calls ↔ s.Wants m p := fun p => h.calls (hr (by rw [hmore]; rfl))
    unfold XpubT.Marked
    constructor
    · intro hk p hw
      split_ifs
      · constructor
        · rintro ⟨he, hn⟩
          exact ⟨he.1, fun hc => hn (.inr ((hcalls p).mpr hc))⟩
        · rintro ⟨hp, hn⟩
          refine ⟨h.writable hp hw, ?_⟩
          rintro (hm | hc)
          · exact hn (hk p hp hm hw)
          · exact hn ((hcalls p).mp hc)
      · constructor
        · rintro (hm | ⟨hc, he⟩)
          · exact ⟨hm.1, hk p hm.1 hm hw⟩
          · exact ⟨he.1, (hcalls p).mp hc⟩
        · rintro ⟨hp, hc⟩
          exact .inr ⟨(hcalls p).mpr hc, h.writable hp hw⟩
    · intro hk p hp hm hw
      have := hk p hw
      split_ifs at this
      · exact by_contra fun hn => (this.mpr ⟨hp, hn⟩).2 (.inl hm)
      · exact (this.mp (.inl hm)).2

theorem Sound.accepts_iff (h : s.Sound) {calls : List P} (ha : s.audience = none)
    (hd : ∀ p, d.Matches p ↔ s.Marks calls p) (hr : DistT.Rearranged s.xpub.dist d) :
    (s.xpub.lossy || d.checkHwm s.outlets) = true ↔ s.Accepts calls := by
  have hmore := h.more
  rw [ha] at hmore
  rw [Bool.or_eq_true, checkHwm_iff]
  refine or_congr_right ?_
  simp only [hd, Marks, hmore, Option.isSome_none, Bool.false_eq_true, if_false]
  refine ⟨fun hk p _ hm => hk p hm, fun hk p hm => hk p ?_ hm⟩
  have hm' : d.Matches p := (hd p).mpr (by simpa [Marks, hmore] using hm)
  exact (hr.mem p).mp hm'.1

theorem routed_iff (hsent : DistT.Sent d s.outlets m d' w') : s.Routed m true w' ↔ ∀ p, (s.outlets p).self.checkWrite.1 = true →
      (d.Matches p ↔ p ∈ s.xpub.dist.pipes ∧ s.Chosen m p) := by
  unfold Routed Target
  refine forall_congr' fun p => ?_
  by_cases hw : (s.outlets p).self.checkWrite.1 = true
  · have htried : tried (s.outlets p) m = wrote (s.outlets p) m := if_pos hw
    simp only [hw, true_and, true_imp_iff]
    by_cases hm : d.Matches p
    · rw [hsent.tried p hm, htried]
      refine ⟨fun hk => iff_of_true hm (by_contra fun hc => wrote_out _ _ (hk.2 hc)), fun hk => ?_⟩
      exact ⟨fun _ => rfl, fun hc => absurd (hk.mp hm) hc⟩
    · rw [hsent.same p hm]
      refine ⟨fun hk => iff_of_false hm fun hc => ?_, fun hk => ?_⟩
      · exact wrote_out (s.outlets p) m (congrArg Outlet.out (hk.1 hc).symm)
      · exact ⟨fun hc => absurd (hk.mpr hc) hm, fun _ => rfl⟩
  · have htried : tried (s.outlets p) m = (s.outlets p).refuse := if_neg hw
    refine iff_of_true ⟨fun hc => absurd hc.2.1 hw, fun _ => ?_⟩ fun hc => absurd hc hw
    by_cases hm : d.Matches p
    · rw [hsent.tried p hm, htried]
      rfl
    · rw [hsent.same p hm]

theorem mem_targets : p ∈ s.targets m ↔ s.Target m p := by
  unfold targets
  rw [mem_filter, List.mem_toFinset]
  exact ⟨And.right, fun h => ⟨h.1, h⟩⟩

theorem Sound.sent (h : s.Sound) (hr : DistT.Rearranged s.xpub.dist d)
    (hsent : DistT.Sent d s.outlets m d' w') (hk : ∀ p, (s.outlets p).self.checkWrite.1 = true →
      (d.Matches p ↔ p ∈ s.xpub.dist.pipes ∧ s.Chosen m p)) :
    Sound { s with
      xpub := { s.xpub with dist := if m.hasMore then d' else d'.unmatch, more := m.hasMore }
      outlets := w'
      audience := if m.hasMore then some (s.targets m) else none } := by
  have hactive : ∀ p, d'.Eligible p → (w' p).self.outActive = (s.outlets p).self.outActive ∧
      (w' p).self.state = (s.outlets p).self.state := by
    intro p he
    by_cases hm : d.Matches p
    · rw [hsent.tried p hm, tried, if_pos (((hsent.eligible p).mp he).2 hm), wrote]
      split_ifs
      · exact ⟨rfl, rfl⟩
      · rw [Outlet.flush_self]
        exact ⟨rfl, rfl⟩
    · rw [hsent.same p hm]
      exact ⟨rfl, rfl⟩
  have heligible : ∀ p ∈ d'.pipes, (w' p).self.outActive = true → (w' p).self.state = .active → d'.Eligible p := by
    intro p hp ha hs
    have hp := (hr.mem p).mp ((hsent.mem p).mp hp)
    by_cases hm : d.Matches p
    · rw [hsent.tried p hm, tried] at ha hs
      by_cases hw : (s.outlets p).self.checkWrite.1 = true
      · exact (hsent.eligible p).mpr ⟨(hr.eligible p).mpr (h.writable hp hw), fun _ => hw⟩
      · rw [if_neg hw] at ha hs
        rcases Outlet.refuse_refuses (Bool.eq_false_of_not_eq_true hw) with hc | hc
        · exact absurd (hc.symm.trans ha) (by simp)
        · exact absurd hs hc
    · rw [hsent.same p hm] at ha hs
      exact (hsent.eligible p).mpr ⟨(hr.eligible p).mpr (h.eligible p hp ha hs), fun hc => absurd hc hm⟩
  have hpassive : ∀ p, d'.Eligible p → (w' p).self.outActive = true ∨ (w' p).self.state ≠ .active := by
    intro p he
    rw [(hactive p he).1, (hactive p he).2]
    exact h.passive p ((hr.eligible p).mp ((hsent.eligible p).mp he).1)
  have hattached : ∀ x ∈ s.subs, x.2 ∈ d'.pipes := fun x hx =>
    (hsent.mem _).mpr ((hr.mem _).mpr (h.attached x hx))
  have hmore := hsent.more
  cases hm : m.hasMore with
  | true =>
    rw [hm] at hmore
    refine ⟨hsent.wf, h.trie, hattached, rfl, hmore, fun a ha p => ?_, heligible, hpassive⟩
    cases ha
    rw [mem_targets]
    refine (hsent.matches' p).trans ?_
    constructor
    · rintro ⟨hp, hw⟩
      obtain ⟨hp, hc⟩ := (hk p hw).mp hp
      exact ⟨hp, hw, hc⟩
    · rintro ⟨hp, hw, hc⟩
      exact ⟨(hk p hw).mpr ⟨hp, hc⟩, hw⟩
  | false =>
    rw [hm] at hmore
    have hwf := hsent.wf
    exact ⟨⟨Nat.zero_le _, hwf.active_le, hwf.eligible_le, hwf.idle⟩, h.trie, hattached, rfl, hmore,
      fun a ha => absurd ha.symm (Option.some_ne_none a), heligible, hpassive⟩

theorem Sound.unsent {calls : List P} (h : s.Sound) (hwf : d.Wf) (hr : DistT.Rearranged s.xpub.dist d)
    (hd : ∀ p, d.Matches p ↔ s.Marks calls p) : Sound { s with xpub := { s.xpub with dist := d } } := by
  refine ⟨hwf, h.trie, fun x hx => (hr.mem _).mpr (h.attached x hx), h.more, hr.more.trans h.distMore, fun a ha p => ?_,
    fun p hp ha hs => (hr.eligible p).mpr (h.eligible p ((hr.mem p).mp hp) ha hs),
    fun p hp => h.passive p ((hr.eligible p).mp hp)⟩
  have hmore : s.xpub.more = true := by
    rw [h.more, show s.audience = some a from ha]
    rfl
  refine (hd p).trans ?_
  rw [Marks, if_pos hmore]
  exact h.audience a ha p

theorem Sound.send (h : s.Sound) {calls : List P} (hr : s.Ready (.xsend m calls)) :
    ∃ rc xpub outlets, s.xpub.xsend s.outlets m calls = .ok (rc, xpub, outlets) ∧
      (s.Keeps (.xsend m calls) ↔ s.Routed m rc outlets) ∧
      (s.Keeps (.xsend m calls) → Sound { s with
        xpub := xpub, outlets := outlets
        audience := if rc then (if m.hasMore then some (s.targets m) else none) else s.audience }) := by
  obtain ⟨d, hchoose, hwf, hre, hd⟩ := h.choose hr
  rcases xsend_spec (w := s.outlets) (m := m) hwf hchoose with ⟨hl, hx⟩ | ⟨hl, d', w', hsent, hx⟩
  · refine ⟨_, _, _, hx, iff_of_true ?_ rfl, fun _ => h.unsent hwf hre hd⟩
    intro ha haccepts
    exact nomatch hl.symm.trans ((h.accepts_iff ha hd hre).mpr haccepts)
  · have hkeeps : s.Keeps (.xsend m calls) ↔ ∀ p, (s.outlets p).self.checkWrite.1 = true →
        (d.Matches p ↔ p ∈ s.xpub.dist.pipes ∧ s.Chosen m p) := by
      simp only [hd]
      rw [← h.marks_iff hr]
      exact ⟨fun hk ha => hk ha ((h.accepts_iff ha hd hre).mp hl), fun hk ha _ => hk ha⟩
    refine ⟨_, _, _, hx, hkeeps.trans (routed_iff hsent).symm, fun hk => ?_⟩
    exact h.sent hre hsent (hkeeps.mp hk)

theorem Sound.run (h : s.Sound) {op : Op P} (hr : s.Ready op) (hk : s.Keeps op) (hs : s.run op = .ok s') : s'.Sound := by
  cases op with
  | attach p self all msgs => exact h.attach hr.1 hr.2 hs
  | drift p o =>
    cases hs
    exact h.drift hr
  | readActivated p msgs => exact h.readActivated hr hs
  | writeActivated p n =>
    cases hs
    exact h.writeActivated hr.1 hr.2.1 hr.2.2
  | pipeTerminated p => exact h.pipeTerminated hr hk hs
  | xsetsockopt opt => exact h.xsetsockopt hk hs
  | invertMatching on =>
    cases hs
    exact ⟨h.wf, h.trie, h.attached, h.more, h.distMore, h.audience, h.eligible, h.passive⟩
  | xrecv =>
    cases hs
    exact h.xrecv
  | xsend m calls =>
    obtain ⟨rc, xpub, outlets, hx, -, hsound⟩ := h.send hr
    obtain ⟨⟨rc', xpub', outlets'⟩, hx', hs⟩ := bind_ok hs
    obtain ⟨rfl, he⟩ := ok_pair (hx.symm.trans hx')
    cases he
    cases hs
    exact hsound hk

theorem new_sound {pub : Bool} : (new pub : Publisher P).Sound where
  wf := new_wf
  trie := MtrieT.new_represents
  attached _ hx := absurd hx (notMem_empty _)
  more := rfl
  distMore := rfl
  audience a ha := absurd ha.symm (Option.some_ne_none a)
  eligible _ hp := nomatch hp
  passive _ hp := absurd hp.1 List.not_mem_nil

theorem run_sound {ops : List (Op P)} (h : Run Start (Guarded Keeps Step) ops s) : s.Sound := by
  refine h.invariant Sound (fun _ h0 => ?_) fun s op s' hI hs => ?_
  · obtain ⟨pub, rfl⟩ := h0
    exact new_sound
  · obtain ⟨hk, hr, hrun⟩ := hs
    exact hI.run hr hk hrun

theorem Sound.ready (h : s.Sound) (m : Msg) : ∃ calls, s.Ready (.xsend m calls) := by
  obtain ⟨ms, hms, -⟩ := MtrieT.represents_match h.trie m.data
  obtain ⟨calls, rfl⟩ := Quot.exists_rep ms
  exact ⟨calls, fun _ => hms⟩

/-- After a run in which every call met the condition, the next frame goes where it should, and nowhere else,
exactly if its call meets it too. -/
theorem routed_by_subscriptions {ops : List (Op P)} (h : Run Start (Guarded Keeps Step) ops s) (m : Msg) :
    (∃ calls, s.Ready (.xsend m calls)) ∧ ∀ calls, s.Ready (.xsend m calls) →
      ∃ rc xpub outlets, s.xpub.xsend s.outlets m calls = .ok (rc, xpub, outlets) ∧
        (s.Keeps (.xsend m calls) ↔ s.Routed m rc outlets) := by
  refine ⟨(run_sound h).ready m, fun calls hr => ?_⟩
  obtain ⟨rc, xpub, outlets, hx, hkeeps, -⟩ := (run_sound h).send hr
  exact ⟨rc, xpub, outlets, hx, hkeeps⟩

def subscription (c : UInt8) (topic : List UInt8) : Msg := ⟨.vsm, 0, c :: topic⟩

/-- Two pipes subscribe to the same topic, and the first of them has room for one message only. A second one
is refused until the peer has read the first. -/
def refusedOnce : List (Op ℕ) :=
  [.attach 0 (endOf 1) false [subscription 1 [65]], .attach 1 (endOf 0) false [subscription 1 [65]],
    .xsetsockopt (.nodrop true), .xsend (frame 65) [0, 1], .xsend (frame 65) [0, 1],
    .drift 0 ⟨{ endOf 1 with msgsWritten := 1, peersMsgsRead := 1 }, ⟨[frame 65], [], [], false⟩⟩]

/-- The same message is sent again, in two parts. -/
theorem routed_by_subscriptions_again : ∃ s : Publisher ℕ,
    Run Start (Guarded Keeps Step) (refusedOnce ++ [.xsend (frameMore 65) [0, 1], .attach 2 (endOf 0) true []]) s ∧
    s.audience = some {0, 1} ∧ ∃ calls, s.Ready (.xsend (frame 7) calls) :=
  exists_run (P := fun s => s.audience = some {0, 1}) (⟨false, rfl⟩ : Start (new false)) (by decide)
    fun _ hs ha => ⟨ha, (routed_by_subscriptions hs (frame 7)).1⟩

def sending (m : Msg) (calls : List ℕ) (p : ℕ) (s : Publisher ℕ) : Bool × Bool × Staged Msg × Option (Bool × Staged Msg) :=
  (decide (s.Ready (.xsend m calls)), decide (s.Target m p), (s.outlets p).out,
    (s.xpub.xsend s.outlets m calls).toOption.map fun r => (r.1, (r.2.2 p).out))

theorem not_routed {s : Publisher ℕ} {m : Msg} {calls : List ℕ} {p : ℕ} {b : Bool} {before after : Staged Msg}
    (h : sending m calls p s = (true, b, before, some (true, after))) (hb : b = decide (before = after)) :
    s.Ready (.xsend m calls) ∧ ∃ xpub outlets, s.xpub.xsend s.outlets m calls = .ok (true, xpub, outlets) ∧
      ¬ s.Routed m true outlets := by
  obtain ⟨hr, h⟩ := Prod.mk.inj h
  obtain ⟨ht, h⟩ := Prod.mk.inj h
  obtain ⟨hbefore, h⟩ := Prod.mk.inj h
  refine ⟨of_decide_eq_true hr, ?_⟩
  obtain ⟨⟨rc, xpub, outlets⟩, hx, h⟩ := Option.map_eq_some_iff.mp h
  obtain ⟨rfl, hafter⟩ := Prod.mk.inj h
  have hx : s.xpub.xsend s.outlets m calls = .ok (true, xpub, outlets) := by
    cases he : s.xpub.xsend s.outlets m calls with
    | error e => simp [he, Except.toOption] at hx
    | ok r =>
      rw [he] at hx
      exact congrArg _ (Option.some.inj hx)
  refine ⟨xpub, outlets, hx, fun hrouted => ?_⟩
  by_cases htarget : s.Target m p
  · have hne := wrote_out (s.outlets p) m
    rw [← (hrouted p).1 htarget] at hne
    rw [decide_eq_true htarget] at ht
    rw [← ht] at hb
    exact hne (hafter.trans ((of_decide_eq_true hb.symm).symm.trans hbefore.symm))
  · have he := (hrouted p).2 htarget
    rw [decide_eq_false htarget] at ht
    rw [← ht] at hb
    exact of_decide_eq_false hb.symm (hbefore.symm.trans (he.symm.trans hafter))

/-- A pipe without subscriptions is to get every message, and has room for one only. -/
def refusedInverted : List (Op ℕ) :=
  [.invertMatching true, .xsetsockopt (.nodrop true), .attach 0 (endOf 1) false [], .xsend (frame 65) [],
    .xsend (frame 65) [], .drift 0 ⟨{ endOf 1 with msgsWritten := 1, peersMsgsRead := 1 }, ⟨[frame 65], [], [], false⟩⟩]

/-- The user subscribes the pipe that has asked for it, which then terminates. -/
def subscribedByUser : List (Op ℕ) :=
  [.xsetsockopt (.manual true), .attach 0 (endOf 0) false [subscription 1 [65]], .xrecv,
    .xsetsockopt (.subscribe [65]), .pipeTerminated 0]

/-- A message that no pipe has subscribed to is sent in place of the refused one and goes to a pipe. With
inverted matching the refused message is sent again and does not go to a pipe. And a pipe that
is no longer there is matched. -/
theorem refused_message_misroutes : (∃ s : Publisher ℕ, Run Start Step refusedOnce s ∧ ∃ xpub outlets,
      s.xpub.xsend s.outlets (frame 66) [] = .ok (true, xpub, outlets) ∧ ¬ s.Routed (frame 66) true outlets) ∧
    (∃ s : Publisher ℕ, Run Start Step refusedInverted s ∧ ∃ xpub outlets,
      s.xpub.xsend s.outlets (frame 65) [] = .ok (true, xpub, outlets) ∧ ¬ s.Routed (frame 65) true outlets) ∧
    ∃ s : Publisher ℕ, Run Start Step subscribedByUser s ∧ s.Ready (.xsend (frame 65) [0]) ∧
      (s.run (.xsend (frame 65) [0])).isOk = false := by
  refine ⟨?_, ?_, ?_⟩
  · exact exists_run_free (P := fun s => sending (frame 66) [] 1 s =
        (true, false, ⟨[frame 65], [], [], false⟩, some (true, ⟨[frame 65, frame 66], [], [], false⟩)))
      (⟨false, rfl⟩ : Start (new false)) (by decide) fun _ _ hf => (not_routed hf (by decide)).2
  · exact exists_run_free (P := fun s => sending (frame 65) [] 0 s =
        (true, true, ⟨[frame 65], [], [], false⟩, some (true, ⟨[frame 65], [], [], false⟩)))
      (⟨false, rfl⟩ : Start (new false)) (by decide) fun _ _ hf => (not_routed hf (by decide)).2
  · exact exists_run_free (P := fun s => s.Ready (.xsend (frame 65) [0]) ∧ (s.run (.xsend (frame 65) [0])).isOk = false)
      (⟨false, rfl⟩ : Start (new false)) (by decide +kernel) fun _ _ h => h

end Publisher

end Zmq
