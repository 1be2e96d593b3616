import LibZmq.Sockets.Addressing
import LibZmq.Sockets.Receiving

/-! `pair_t`, which talks to one peer at a time, and a user that sends and receives messages of several frames through
it. -/

namespace Zmq

open List Option

open Function (update update_of_ne update_self)

structure PairT (P : Type) where
  pipe : Option P

namespace PairT

variable {P : Type}

def new : PairT P := ⟨none⟩

variable [DecidableEq P] (s : PairT P)

/-- A second peer is refused. -/
def xattachPipe (e : Ends P) (pipe : P) : PairT P × Ends P :=
  if s.pipe = none then (⟨some pipe⟩, e) else (s, e.terminate pipe false)

def xpipeTerminated (pipe : P) : PairT P := if s.pipe = some pipe then ⟨none⟩ else s

def xsend (e : Ends P) (msg : Msg) : Bool × Ends P :=
  match s.pipe with
  | none => (false, e)
  | some pipe =>
    let (ok, outlet) := (e.outlets pipe).write msg
    if !ok then (false, e.setOutlet pipe outlet)
    else (true, e.setOutlet pipe (if msg.hasMore then outlet else outlet.flush))

/-- The frame, with the pipe it has come from, or `none` with EAGAIN. -/
def xrecv (e : Ends P) : Option (P × Msg) × Ends P :=
  match s.pipe with
  | none => (none, e)
  | some pipe =>
    let (got, inlet) := (e.inlets pipe).read
    (got.map fun msg => (pipe, msg), e.setInlet pipe inlet)

def xhasIn (e : Ends P) : Bool × Ends P :=
  match s.pipe with
  | none => (false, e)
  | some pipe =>
    let (rc, inlet) := (e.inlets pipe).checkRead
    (rc, e.setInlet pipe inlet)

def xhasOut (e : Ends P) : Bool × Ends P :=
  match s.pipe with
  | none => (false, e)
  | some pipe =>
    let (rc, outlet) := (e.outlets pipe).checkWrite
    (rc, e.setOutlet pipe outlet)

end PairT

structure PairUser (P : Type) where
  socket : PairT P
  ends : Ends P
  attached : Finset P
  seen : Finset P
  arrived : P → List Msg
  sent : List (List Msg)
  begun : List Msg
  got : List (P × Msg)

namespace PairUser

open LoadBalancer (unattached Assigned)
open Intake (received reading)

variable {P : Type}

def new : PairUser P :=
  ⟨.new, ⟨fun _ => ⟨false, []⟩, fun _ => unattached, fun _ => []⟩, ∅, ∅, fun _ => [], [], [], []⟩

inductive Op (P : Type) where
  | attach (pipe : P) (self : PipeT) (frames : List Msg)
  | deliver (pipe : P) (frames : List Msg)
  | drift (pipe : P) (outlet : Outlet)
  | readActivated (pipe : P)
  | writeActivated (pipe : P) (msgsRead : UInt64)
  | pipeTerminated (pipe : P)
  | xsend (msg : Msg)
  | xrecv
  | xhasIn
  | xhasOut

def plain (frames : List Msg) : List Msg := frames.filter fun m => !m.isCredential

/-- What pipes and the user keep to: a pipe is attached once, it delivers whole messages until it is closed, and no frame
is a delimiter. -/
def Ready (s : PairUser P) : Op P → Prop
  | .attach p self frames => p ∉ s.seen ∧ self.outpipe ≠ none ∧ Whole (plain frames)
  | .deliver p frames => p ∈ s.attached ∧ (s.ends.outlets p).self.readable = true ∧ Whole (plain frames)
  | .drift p o => Outlet.Drifts (s.ends.outlets p) o ∧ (o.self.readable = true → (s.ends.outlets p).self.readable = true)
  | .readActivated p => p ∈ s.attached ∧ (s.ends.inlets p).inActive = false ∧ (s.ends.outlets p).self.readable = true
  | .writeActivated p _ => p ∈ s.attached ∧ (s.ends.outlets p).self.outActive = false ∧
      (s.ends.outlets p).self.state = .active
  | .pipeTerminated p => p ∈ s.attached
  | .xsend m => m.isDelimiter = false
  | .xrecv | .xhasIn | .xhasOut => True

variable [DecidableEq P] (s : PairUser P)

instance (op : Op P) : Decidable (s.Ready op) := by
  cases op <;> unfold Ready <;> infer_instance

def accepted (m : Msg) : PairUser P :=
  if m.hasMore then { s with begun := s.begun ++ [m] } else { s with sent := s.sent ++ [s.begun ++ [m]], begun := [] }

def run : Op P → Except SocketFault (PairUser P)
  | .attach p self frames =>
    let x := s.socket.xattachPipe ((s.ends.setInlet p ⟨true, frames⟩).setOutlet p ⟨self, Staged.empty⟩) p
    .ok { s with
      socket := x.1
      ends := x.2
      attached := insert p s.attached
      seen := insert p s.seen
      arrived := update s.arrived p (plain frames) }
  | .deliver p frames => .ok { s with
      ends := s.ends.setInlet p ⟨(s.ends.inlets p).inActive, (s.ends.inlets p).frames ++ frames⟩
      arrived := update s.arrived p (s.arrived p ++ plain frames) }
  | .drift p o => .ok { s with
      ends := (if o.self.readable then s.ends else s.ends.setInlet p ⟨false, []⟩).setOutlet p o }
  | .readActivated p => .ok { s with ends := s.ends.setInlet p ⟨true, (s.ends.inlets p).frames⟩ }
  | .writeActivated p n => .ok { s with
      ends := s.ends.setOutlet p { s.ends.outlets p with
        self := { (s.ends.outlets p).self with peersMsgsRead := n, outActive := true } } }
  | .pipeTerminated p => .ok { s with
      socket := s.socket.xpipeTerminated p
      ends := s.ends.setOutlet p (s.ends.outlets p).closed
      attached := s.attached.erase p }
  | .xsend m =>
    let x := s.socket.xsend s.ends m
    .ok (if x.1 then accepted { s with ends := x.2 } m else { s with ends := x.2 })
  | .xrecv =>
    let x := s.socket.xrecv s.ends
    .ok { s with ends := x.2, got := s.got ++ x.1.toList }
  | .xhasIn => .ok { s with ends := (s.socket.xhasIn s.ends).2 }
  | .xhasOut => .ok { s with ends := (s.socket.xhasOut s.ends).2 }

def Start : Prop := s = new

abbrev Step : PairUser P → Op P → PairUser P → Prop := Does Ready run

omit [DecidableEq P] in
def Message (frames : List (P × Msg)) : Prop :=
  ∃ first last, frames = first ++ [last] ∧ (∀ x ∈ first, x.2.hasMore = true) ∧ last.2.hasMore = false

def Exact (arrived : P → List Msg) (got : List (P × Msg)) : Prop :=
  ∀ before frames after, got = before ++ frames ++ after → reading before = none → Message frames →
    ∃ p l l', (∀ x ∈ frames, x.1 = p) ∧ arrived p = l ++ frames.map Prod.snd ++ l' ∧ Whole l

/-- Each message that has been sent is all in one pipe or in none, and nothing else is in a pipe than the first frames of
the message being sent, in one pipe at most. Each message that has been received is one of one peer. -/
structure Unmixed (s : PairUser P) : Prop where
  complete : Assigned s.sent s.ends.outlets
  part : ∃ target : Option P, ∀ p, (s.ends.outlets p).part = [] ∨ target = some p ∧ (s.ends.outlets p).part = s.begun
  exactly : Exact s.arrived s.got

/-- No peer is accepted in the middle of a message that is sent or received. -/
def Keeps : Op P → Prop
  | .attach _ _ _ => s.socket.pipe = none → s.begun = [] ∧ reading s.got = none
  | _ => True

instance (op : Op P) : Decidable (s.Keeps op) := by
  cases op <;> unfold Keeps <;> infer_instance

section

variable {arrived : P → List Msg} {got : List (P × Msg)} {p : P} {m : Msg}

omit [DecidableEq P] in
theorem same_pipe {first : List (P × Msg)} {last : P × Msg} (h : (first ++ [last]).IsChain fun x y => x.2.hasMore = true → y.1 = x.1)
    (hm : ∀ x ∈ first, x.2.hasMore = true) : ∀ x ∈ first, x.1 = last.1 := by
  induction first with
  | nil => exact nofun
  | cons y rest ih =>
    have hrest := ih h.tail fun x hx => hm x (mem_cons_of_mem y hx)
    intro x hx
    rcases mem_cons.mp hx with rfl | hx
    · have hy := hm x mem_cons_self
      cases rest with
      | nil => exact ((isChain_cons_cons.mp h).1 hy).symm
      | cons z zs => exact ((isChain_cons_cons.mp h).1 hy).symm.trans (hrest z mem_cons_self)
    · exact hrest x hx

theorem received_all {frames : List (P × Msg)} (h : ∀ x ∈ frames, x.1 = p) : received frames p = frames.map Prod.snd := by
  unfold received
  rw [filter_eq_self.mpr fun x hx => decide_eq_true (h x hx)]

theorem exact_of_chain (h : got.IsChain fun x y => x.2.hasMore = true → y.1 = x.1) (hp : ∀ p, received got p <+: arrived p) :
    Exact arrived got := by
  rintro before frames after rfl hbefore ⟨first, last, rfl, hmore, -⟩
  have hchain := h.left_of_append
  have hsame : ∀ x ∈ first ++ [last], x.1 = last.1 := by
    intro x hx
    rcases mem_append.mp hx with hx | hx
    · exact same_pipe hchain.right_of_append hmore x hx
    · rw [mem_singleton.mp hx]
  have hwhole : Whole (received before last.1) :=
    Intake.whole_received hchain.left_of_append fun hc => by
      rw [hbefore] at hc
      cases hc
  obtain ⟨rest, hrest⟩ := hp last.1
  refine ⟨last.1, received before last.1, received after last.1 ++ rest, hsame, ?_, hwhole⟩
  rw [← hrest, Intake.received_append, Intake.received_append, received_all hsame, append_assoc _ _ rest]

end

structure Sound (s : PairUser P) : Prop where
  linked : ∀ p, (s.ends.outlets p).self.state = .active → (s.ends.outlets p).self.outpipe ≠ none
  assigned : Assigned s.sent s.ends.outlets
  frames : ∀ m ∈ s.begun, m.isDelimiter = false
  part : ∀ p, (s.ends.outlets p).part = [] ∨ s.socket.pipe = some p ∧ (s.ends.outlets p).part = s.begun
  current : ∀ p, s.socket.pipe = some p → (s.ends.outlets p).self.state = .active → (s.ends.outlets p).part = s.begun
  unmixed : s.got.IsChain fun x y => x.2.hasMore = true → y.1 = x.1
  stream : ∀ p, received s.got p ++ (s.ends.inlets p).pending <+: s.arrived p
  full : ∀ p, (s.ends.outlets p).self.readable = true → received s.got p ++ (s.ends.inlets p).pending = s.arrived p
  turn : ∀ p q, reading s.got = some p → s.socket.pipe = some q → q = p
  member : ∀ p, s.socket.pipe = some p → p ∈ s.seen
  fresh : ∀ p, p ∉ s.seen → (s.ends.outlets p).written = [] ∧ s.arrived p = []

section

variable {s s' : PairUser P} {p : P} {m : Msg} {e' : Ends P} {o : Outlet} {i : Inlet} {self : PipeT} {frames : List Msg} {t : PairT P}

theorem Sound.unmixedMessages (h : Sound s) : Unmixed s := by
  refine ⟨h.assigned, ⟨s.socket.pipe, h.part⟩, exact_of_chain h.unmixed fun p => ?_⟩
  exact (prefix_append _ _).trans (h.stream p)

theorem assigned_congr {sent : List (List Msg)} {outlets outlets' : P → Outlet} (h : Assigned sent outlets)
    (ho : ∀ p, (outlets' p).written = (outlets p).written) : Assigned sent outlets' := by
  obtain ⟨assigned, hmap, hw⟩ := h
  exact ⟨assigned, hmap, fun p => (ho p).trans (hw p)⟩

theorem Sound.fade (h : Sound s) (hf : ∀ p, Outlet.Fades (s.ends.outlets p) (e'.outlets p))
    (hr : ∀ p, (e'.outlets p).self.readable = true → (s.ends.outlets p).self.readable = true)
    (hi : ∀ p, (e'.inlets p).pending = (s.ends.inlets p).pending ∨
      (e'.inlets p).pending = [] ∧ (e'.outlets p).self.readable = false) : Sound { s with ends := e' } := by
  have hstate : ∀ p, (e'.outlets p).self.state = .active → (s.ends.outlets p).self.state = .active := by
    intro p hp
    by_contra hc
    exact (hf p).closed hc hp
  refine ⟨fun p hp => ?_, assigned_congr h.assigned fun p => (hf p).written, h.frames, fun p => ?_, fun p hp hs => ?_, h.unmixed,
    fun p => ?_, fun p hp => ?_, h.turn, h.member, fun p hp => ?_⟩
  · exact ((hf p).linked (h.linked p (hstate p hp))).resolve_right fun hc => hc hp
  · rcases (hf p).part with hpart | ⟨hpart, -⟩
    · rw [hpart]
      exact h.part p
    · exact .inl hpart
  · rw [(hf p).part.resolve_right fun hc => hc.2 hs]
    exact h.current p hp (hstate p hs)
  · rcases hi p with hi | ⟨hi, -⟩
    · rw [hi]
      exact h.stream p
    · rw [hi, append_nil]
      exact (prefix_append _ _).trans (h.stream p)
  · rcases hi p with hi | ⟨-, hclosed⟩
    · rw [hi]
      exact h.full p (hr p hp)
    · exact nomatch hclosed.symm.trans hp
  · exact ⟨(hf p).written.trans (h.fresh p hp).1, (h.fresh p hp).2⟩

theorem Sound.fadeOne (h : Sound s) (hf : Outlet.Fades (s.ends.outlets p) o)
    (hr : o.self.readable = true → (s.ends.outlets p).self.readable = true) : Sound { s with ends := s.ends.setOutlet p o } := by
  refine h.fade (fun q => ?_) (fun q => ?_) fun q => .inl rfl
  · rcases eq_or_ne q p with rfl | hne
    · rw [show (s.ends.setOutlet q o).outlets q = o from update_self _ _ _]
      exact hf
    · rw [show (s.ends.setOutlet p o).outlets q = s.ends.outlets q from update_of_ne hne _ _]
      exact (Outlet.Drifts.refl _).toFades
  · rcases eq_or_ne q p with rfl | hne
    · rw [show (s.ends.setOutlet q o).outlets q = o from update_self _ _ _]
      exact hr
    · rw [show (s.ends.setOutlet p o).outlets q = s.ends.outlets q from update_of_ne hne _ _]
      exact id

theorem Sound.inlet (h : Sound s) (hi : i.pending = (s.ends.inlets p).pending) :
    Sound { s with ends := s.ends.setInlet p i } := by
  refine h.fade (fun q => (Outlet.Drifts.refl _).toFades) (fun q => id) fun q => .inl ?_
  rcases eq_or_ne q p with rfl | hne
  · rw [show (s.ends.setInlet q i).inlets q = i from update_self _ _ _]
    exact hi
  · exact congrArg Inlet.pending (update_of_ne hne _ _)

theorem Sound.enter (frames : List Msg) (h : Sound s) (hp : p ∉ s.seen) (ho : self.outpipe ≠ none) : Sound { s with
      ends := (s.ends.setInlet p ⟨true, frames⟩).setOutlet p ⟨self, Staged.empty⟩
      attached := insert p s.attached
      seen := insert p s.seen
      arrived := update s.arrived p (plain frames) } := by
  have hne : ∀ q ∈ s.seen, q ≠ p := fun q hq he => hp (he ▸ hq)
  have hself : ((s.ends.setInlet p ⟨true, frames⟩).setOutlet p ⟨self, Staged.empty⟩).outlets p = ⟨self, Staged.empty⟩ :=
    update_self _ _ _
  have hother : ∀ q, q ≠ p → ((s.ends.setInlet p ⟨true, frames⟩).setOutlet p ⟨self, Staged.empty⟩).outlets q = s.ends.outlets q :=
    fun q hq => update_of_ne hq _ _
  have hinlet : ((s.ends.setInlet p ⟨true, frames⟩).setOutlet p ⟨self, Staged.empty⟩).inlets p = ⟨true, frames⟩ :=
    update_self _ _ _
  have hinlets : ∀ q, q ≠ p → ((s.ends.setInlet p ⟨true, frames⟩).setOutlet p ⟨self, Staged.empty⟩).inlets q = s.ends.inlets q :=
    fun q hq => update_of_ne hq _ _
  have hpart : (⟨self, Staged.empty⟩ : Outlet).part = [] := ite_self _
  have hgot : received s.got p = [] := by
    have := (prefix_append _ _).trans (h.stream p)
    rw [(h.fresh p hp).2] at this
    exact prefix_nil.mp this
  refine ⟨fun q hq => ?_, assigned_congr h.assigned fun q => ?_, h.frames, fun q => ?_, fun q hq hs => ?_, h.unmixed, fun q => ?_,
    fun q hq => ?_, h.turn, fun q hq => Finset.mem_insert_of_mem (h.member q hq), fun q hq => ?_⟩
  · rcases eq_or_ne q p with rfl | hqp
    · rw [hself]
      exact ho
    · rw [hother q hqp] at hq ⊢
      exact h.linked q hq
  · rcases eq_or_ne q p with rfl | hqp
    · rw [hself, (h.fresh q hp).1]
      rfl
    · rw [hother q hqp]
  · rcases eq_or_ne q p with rfl | hqp
    · rw [hself]
      exact .inl hpart
    · rw [hother q hqp]
      exact h.part q
  · have hqp := hne q (h.member q hq)
    rw [hother q hqp] at hs ⊢
    exact h.current q hq hs
  · dsimp only
    rcases eq_or_ne q p with rfl | hqp
    · rw [hinlet, hgot, update_self]
      exact prefix_rfl
    · rw [hinlets q hqp, update_of_ne hqp]
      exact h.stream q
  · dsimp only at hq ⊢
    rcases eq_or_ne q p with rfl | hqp
    · rw [hinlet, hgot, update_self]
      rfl
    · rw [hother q hqp] at hq
      rw [hinlets q hqp, update_of_ne hqp]
      exact h.full q hq
  · have hqp : q ≠ p := fun he => hq (he ▸ Finset.mem_insert_self _ _)
    dsimp only
    rw [hother q hqp, update_of_ne hqp]
    exact h.fresh q fun hc => hq (Finset.mem_insert_of_mem hc)

theorem Sound.accept (h : Sound s) (hp : p ∈ s.seen) (hs : s.socket.pipe = none) (hb : s.begun = [])
    (hr : reading s.got = none) : Sound { s with socket := ⟨some p⟩ } := by
  have hpart : ∀ q, (s.ends.outlets q).part = [] := fun q => (h.part q).resolve_right fun hc => by
    rw [hs] at hc
    exact absurd hc.1.symm (some_ne_none q)
  refine ⟨h.linked, h.assigned, h.frames, fun q => .inl (hpart q), fun q _ _ => (hpart q).trans hb.symm, h.unmixed, h.stream,
    h.full, fun q r hq => ?_, fun q hq => some.inj hq ▸ hp, h.fresh⟩
  exact absurd (hq.symm.trans hr) (some_ne_none q)

theorem Sound.terminate {delay : Bool} (h : Sound s) : Sound { s with ends := s.ends.terminate p delay } := by
  have hcuts := Ends.Cuts.terminate s.ends p delay
  refine h.fade (fun q => ?_) (fun q hq => ?_) fun q => (hcuts.inlets q).imp (congrArg Inlet.pending) fun hi => ⟨?_, hi.2⟩
  · rcases eq_or_ne q p with rfl | hne
    · rw [show (s.ends.terminate q delay).outlets q = (s.ends.outlets q).terminate delay from update_self _ _ _]
      exact Outlet.terminate_drifts.toFades
    · rw [show (s.ends.terminate p delay).outlets q = s.ends.outlets q from update_of_ne hne _ _]
      exact (Outlet.Drifts.refl _).toFades
  · by_contra hc
    exact nomatch (hcuts.closed q (Bool.eq_false_of_not_eq_true hc)).symm.trans hq
  · rw [hi.1]
    rfl

theorem Sound.attach (h : Sound s) (hr : s.Ready (.attach p self frames))
    (hk : s.Keeps (.attach p self frames)) (hx : s.run (.attach p self frames) = .ok s') : Sound s' := by
  cases hx
  have hin := h.enter frames hr.1 hr.2.1
  unfold PairT.xattachPipe
  by_cases hs : s.socket.pipe = none
  · rw [if_pos hs]
    exact hin.accept (Finset.mem_insert_self _ _) hs (hk hs).1 (hk hs).2
  · rw [if_neg hs]
    exact hin.terminate

theorem Sound.deliver (h : Sound s) (hr : s.Ready (.deliver p frames))
    (hmem : p ∈ s.seen) (hx : s.run (.deliver p frames) = .ok s') : Sound s' := by
  cases hx
  have hpending : Inlet.pending ⟨(s.ends.inlets p).inActive, (s.ends.inlets p).frames ++ frames⟩ =
      (s.ends.inlets p).pending ++ plain frames := filter_append ..
  have hgrown : received s.got p ++ ((s.ends.inlets p).pending ++ plain frames) = s.arrived p ++ plain frames := by
    rw [← append_assoc, h.full p hr.2.1]
  have hinlet : (s.ends.setInlet p ⟨(s.ends.inlets p).inActive, (s.ends.inlets p).frames ++ frames⟩).inlets p =
      ⟨(s.ends.inlets p).inActive, (s.ends.inlets p).frames ++ frames⟩ := update_self _ _ _
  have hinlets : ∀ q, q ≠ p → (s.ends.setInlet p ⟨(s.ends.inlets p).inActive, (s.ends.inlets p).frames ++ frames⟩).inlets q =
      s.ends.inlets q := fun q hq => update_of_ne hq _ _
  refine ⟨h.linked, h.assigned, h.frames, h.part, h.current, h.unmixed, fun q => ?_, fun q hq => ?_, h.turn, h.member,
    fun q hq => ⟨(h.fresh q hq).1, ?_⟩⟩
  · dsimp only
    rcases eq_or_ne q p with rfl | hqp
    · rw [hinlet, hpending, hgrown, update_self]
    · rw [hinlets q hqp, update_of_ne hqp]
      exact h.stream q
  · dsimp only
    rcases eq_or_ne q p with rfl | hqp
    · rw [hinlet, hpending, hgrown, update_self]
    · rw [hinlets q hqp, update_of_ne hqp]
      exact h.full q hq
  · have hqp : q ≠ p := fun he => hq (he ▸ hmem)
    exact (update_of_ne hqp _ _).trans (h.fresh q hq).2

theorem Sound.drift (h : Sound s) (hr : s.Ready (.drift p o)) (hx : s.run (.drift p o) = .ok s') : Sound s' := by
  cases hx
  by_cases hread : o.self.readable = true
  · rw [if_pos hread]
    exact h.fadeOne hr.1.toFades hr.2
  · rw [if_neg hread]
    have hcuts : Ends.Cuts s.ends ((s.ends.setInlet p ⟨false, []⟩).setOutlet p o) :=
      .close (Bool.eq_false_of_not_eq_true hread)
    refine h.fade (fun q => ?_) (fun q hq => ?_) fun q => (hcuts.inlets q).imp (congrArg Inlet.pending) fun hi => ⟨?_, hi.2⟩
    · rcases eq_or_ne q p with rfl | hne
      · rw [show ((s.ends.setInlet q ⟨false, []⟩).setOutlet q o).outlets q = o from update_self _ _ _]
        exact hr.1.toFades
      · rw [show ((s.ends.setInlet p ⟨false, []⟩).setOutlet p o).outlets q = s.ends.outlets q from update_of_ne hne _ _]
        exact (Outlet.Drifts.refl _).toFades
    · by_contra hc
      exact nomatch (hcuts.closed q (Bool.eq_false_of_not_eq_true hc)).symm.trans hq
    · rw [hi.1]
      rfl

theorem Sound.pipeTerminated (h : Sound s) (hx : s.run (.pipeTerminated p) = .ok s') : Sound s' := by
  cases hx
  have hclosed : Sound { s with ends := s.ends.setOutlet p (s.ends.outlets p).closed } :=
    h.fadeOne Outlet.closed_fades nofun
  unfold PairT.xpipeTerminated
  by_cases hs : s.socket.pipe = some p
  · rw [if_pos hs]
    refine ⟨hclosed.linked, hclosed.assigned, hclosed.frames, fun q => ?_, fun q hq => (by cases hq), hclosed.unmixed,
      hclosed.stream, hclosed.full, fun q r _ hr => (by cases hr), fun q hq => (by cases hq), hclosed.fresh⟩
    refine .inl ((hclosed.part q).elim id fun hq => ?_)
    cases hs.symm.trans hq.1
    rw [show (s.ends.setOutlet p (s.ends.outlets p).closed).outlets p = (s.ends.outlets p).closed from update_self _ _ _]
    exact if_pos rfl
  · rw [if_neg hs]
    exact ⟨hclosed.linked, hclosed.assigned, hclosed.frames, hclosed.part, hclosed.current, hclosed.unmixed,
      hclosed.stream, hclosed.full, hclosed.turn, hclosed.member, hclosed.fresh⟩

theorem Sound.write (h : Sound s) (hp : s.socket.pipe = some p) (hw : (s.ends.outlets p).self.checkWrite.1 = true)
    (hm : m.isDelimiter = false) : Sound (accepted { s with
      ends := s.ends.setOutlet p (if m.hasMore then (s.ends.outlets p).accept m else ((s.ends.outlets p).accept m).flush) } m) := by
  obtain ⟨-, hstate, -⟩ := Outlet.checkWrite_true hw
  have hpart := h.current p hp hstate
  have hlink := h.linked p hstate
  obtain ⟨o, ho⟩ : ∃ o, (if m.hasMore then (s.ends.outlets p).accept m else ((s.ends.outlets p).accept m).flush) = o := ⟨_, rfl⟩
  have hoself : o.self = ((s.ends.outlets p).accept m).self := by
    rw [← ho]
    split_ifs
    · rfl
    · exact Outlet.flush_self
  have hself : (s.ends.setOutlet p o).outlets p = o := update_self _ _ _
  have hother : ∀ q, q ≠ p → (s.ends.setOutlet p o).outlets q = s.ends.outlets q := fun q hq => update_of_ne hq _ _
  have hlinked : ∀ q, ((s.ends.setOutlet p o).outlets q).self.state = .active →
      ((s.ends.setOutlet p o).outlets q).self.outpipe ≠ none := by
    intro q hq
    rcases eq_or_ne q p with rfl | hne
    · rw [hself, hoself]
      exact hlink
    · rw [hother q hne] at hq ⊢
      exact h.linked q hq
  have hnone : ∀ q, q ≠ p → (s.ends.outlets q).part = [] := fun q hq => (h.part q).resolve_right fun hc =>
    hq (some.inj (hc.1.symm.trans hp))
  have hfull : ∀ q, ((s.ends.setOutlet p o).outlets q).self.readable = true →
      received s.got q ++ (s.ends.inlets q).pending = s.arrived q := by
    intro q hq
    rcases eq_or_ne q p with rfl | hne
    · rw [hself, hoself] at hq
      exact h.full q hq
    · rw [hother q hne] at hq
      exact h.full q hq
  have hfresh : ∀ q, q ∉ s.seen → ((s.ends.setOutlet p o).outlets q).written = [] ∧ s.arrived q = [] := by
    intro q hq
    rw [hother q fun he => hq (he ▸ h.member p hp)]
    exact h.fresh q hq
  rw [ho]
  cases hmore : m.hasMore with
  | true =>
    obtain ⟨hp', hw'⟩ := Outlet.accept_more hmore hlink
    rw [if_pos hmore] at ho
    rw [ho, hpart] at hp'
    rw [ho] at hw'
    unfold accepted
    rw [if_pos hmore]
    refine ⟨hlinked, assigned_congr h.assigned fun q => ?_, fun x hx => ?_, fun q => ?_, fun q hq _ => ?_, h.unmixed, h.stream,
      hfull, h.turn, h.member, hfresh⟩
    · rcases eq_or_ne q p with rfl | hne
      · rw [hself]
        exact hw'
      · rw [hother q hne]
    · rcases mem_append.mp hx with hx | hx
      · exact h.frames x hx
      · exact mem_singleton.mp hx ▸ hm
    · rcases eq_or_ne q p with rfl | hne
      · rw [hself]
        exact .inr ⟨hp, hp'⟩
      · rw [hother q hne]
        exact .inl (hnone q hne)
    · cases hp.symm.trans hq
      rw [hself]
      exact hp'
  | false =>
    obtain ⟨hp', hw'⟩ := Outlet.accept_last hmore hm (by rw [hpart]; exact h.frames) hlink
    rw [if_neg (by rw [hmore]; exact Bool.false_ne_true)] at ho
    have hopart : o.part = [] := by rw [← ho, Outlet.flush_part, hp']
    have howritten : o.written = (s.ends.outlets p).written ++ (s.begun ++ [m]) := by
      rw [← ho, Outlet.flush_written, hw', hpart, append_assoc]
    have hparts : ∀ q, ((s.ends.setOutlet p o).outlets q).part = [] := by
      intro q
      rcases eq_or_ne q p with rfl | hne
      · rw [hself, hopart]
      · rw [hother q hne, hnone q hne]
    unfold accepted
    rw [if_neg (by rw [hmore]; exact Bool.false_ne_true)]
    exact ⟨hlinked, LoadBalancer.assigned_snoc h.assigned howritten, nofun,
      fun q => .inl (hparts q), fun q _ _ => hparts q, h.unmixed, h.stream, hfull, h.turn, h.member, hfresh⟩

theorem xsend_none (hp : t.pipe = none) : t.xsend e' m = (false, e') := by
  unfold PairT.xsend
  rw [hp]

theorem xsend_some (hp : t.pipe = some p) : t.xsend e' m = if (e'.outlets p).self.checkWrite.1
    then (true, e'.setOutlet p (if m.hasMore then (e'.outlets p).accept m else ((e'.outlets p).accept m).flush))
    else (false, e'.setOutlet p (e'.outlets p).refuse) := by
  unfold PairT.xsend
  rw [hp]
  dsimp only
  by_cases hw : (e'.outlets p).self.checkWrite.1 = true
  · rw [Outlet.write_done hw, if_pos hw]
    rfl
  · rw [Outlet.write_refused (Bool.eq_false_of_not_eq_true hw), if_neg hw]
    rfl

theorem Sound.xsend (h : Sound s) (hm : m.isDelimiter = false) (hx : s.run (.xsend m) = .ok s') : Sound s' := by
  cases hx
  cases hp : s.socket.pipe with
  | none =>
    rw [xsend_none hp]
    exact h
  | some p =>
    rw [xsend_some hp]
    by_cases hw : (s.ends.outlets p).self.checkWrite.1 = true
    · rw [if_pos hw]
      exact h.write hp hw hm
    · rw [if_neg hw]
      refine h.fadeOne Outlet.refuse_fades fun hc => ?_
      unfold PipeT.readable at hc ⊢
      rwa [Outlet.refuse_state] at hc

theorem Sound.read (h : Sound s) (hp : s.socket.pipe = some p) (hr : (s.ends.inlets p).read = (some m, i)) :
    Sound { s with ends := s.ends.setInlet p i, got := s.got ++ [(p, m)] } := by
  obtain ⟨hpending, -⟩ := Inlet.read_some hr
  have hself : (s.ends.setInlet p i).inlets p = i := update_self _ _ _
  have hother : ∀ q, q ≠ p → (s.ends.setInlet p i).inlets q = s.ends.inlets q := fun q hq => update_of_ne hq _ _
  have hstream : ∀ q, received (s.got ++ [(p, m)]) q ++ ((s.ends.setInlet p i).inlets q).pending =
      received s.got q ++ (s.ends.inlets q).pending := by
    intro q
    rw [Intake.received_append]
    rcases eq_or_ne p q with rfl | hne
    · rw [Intake.received_self, hself, hpending, append_assoc, singleton_append]
    · have hnone : received [(p, m)] q = [] := Intake.received_other fun x hx => by rwa [mem_singleton.mp hx]
      rw [hnone, hother q hne.symm, append_nil]
  refine ⟨h.linked, h.assigned, h.frames, h.part, h.current, ?_, fun q => ?_, fun q hq => ?_, fun q r hq hr => ?_, h.member, h.fresh⟩
  · refine isChain_append.mpr ⟨h.unmixed, isChain_singleton _, ?_⟩
    rintro ⟨q, y⟩ hy z hz hmore
    cases hz
    obtain ⟨l, hl⟩ := getLast?_eq_some_iff.mp hy
    exact h.turn q p (Intake.reading_eq.mpr ⟨l, y, hl, hmore⟩) hp
  · exact (hstream q).symm ▸ h.stream q
  · exact (hstream q).trans (h.full q hq)
  · rw [Intake.reading_snoc] at hq
    split_ifs at hq
    cases hq
    exact some.inj (hr.symm.trans hp)

theorem Sound.xrecv (h : Sound s) (hx : s.run .xrecv = .ok s') : Sound s' := by
  cases hx
  unfold PairT.xrecv
  cases hp : s.socket.pipe with
  | none =>
    rw [toList_none, append_nil]
    exact h
  | some p =>
    obtain ⟨⟨got, i⟩, hr⟩ : ∃ x, (s.ends.inlets p).read = x := ⟨_, rfl⟩
    dsimp only
    rw [hr]
    cases got with
    | none =>
      rw [map_none, toList_none, append_nil]
      exact h.inlet (Inlet.read_none hr)
    | some m => exact h.read hp hr

theorem Sound.xhasIn (h : Sound s) (hx : s.run .xhasIn = .ok s') : Sound s' := by
  cases hx
  unfold PairT.xhasIn
  cases hp : s.socket.pipe with
  | none => exact h
  | some p =>
    refine h.inlet ?_
    rcases (s.ends.inlets p).checkRead_cases with ⟨-, hc⟩ | hc
    · rw [hc]
    · rw [hc]
      rfl

theorem Sound.xhasOut (h : Sound s) (hx : s.run .xhasOut = .ok s') : Sound s' := by
  cases hx
  unfold PairT.xhasOut
  cases hp : s.socket.pipe with
  | none => exact h
  | some p =>
    refine h.fadeOne Outlet.refuse_fades fun hc => ?_
    unfold PipeT.readable at hc ⊢
    rwa [Outlet.checkWrite_state] at hc

theorem step_sound {op : Op P} (h : Sound s ∧ s.attached ⊆ s.seen) (hs : Guarded Keeps Step s op s') :
    Sound s' ∧ s'.attached ⊆ s'.seen := by
  obtain ⟨hk, hr, hx⟩ := hs
  obtain ⟨h, hseen⟩ := h
  cases op with
  | attach p self frames =>
    refine ⟨h.attach hr hk hx, ?_⟩
    cases hx
    exact Finset.insert_subset_insert p hseen
  | deliver p frames =>
    refine ⟨h.deliver hr (hseen hr.1) hx, ?_⟩
    cases hx
    exact hseen
  | drift p o =>
    refine ⟨h.drift hr hx, ?_⟩
    cases hx
    exact hseen
  | readActivated p =>
    cases hx
    exact ⟨h.inlet rfl, hseen⟩
  | writeActivated p n =>
    cases hx
    exact ⟨h.fadeOne ⟨rfl, .inl rfl, id, .inl⟩ id, hseen⟩
  | pipeTerminated p =>
    refine ⟨h.pipeTerminated hx, ?_⟩
    cases hx
    exact (Finset.erase_subset p _).trans hseen
  | xsend m =>
    refine ⟨h.xsend hr hx, ?_⟩
    cases hx
    unfold accepted
    split_ifs <;> exact hseen
  | xrecv =>
    refine ⟨h.xrecv hx, ?_⟩
    cases hx
    exact hseen
  | xhasIn =>
    refine ⟨h.xhasIn hx, ?_⟩
    cases hx
    exact hseen
  | xhasOut =>
    refine ⟨h.xhasOut hx, ?_⟩
    cases hx
    exact hseen

theorem new_sound : Sound (new : PairUser P) where
  linked p hp := by cases hp
  assigned := ⟨[], rfl, fun p => rfl⟩
  frames m hm := nomatch hm
  part p := .inl (if_pos rfl)
  current p hp := by cases hp
  unmixed := isChain_nil
  stream p := nil_prefix
  full p hp := by cases hp
  turn p q hp := by cases hp
  member p hp := by cases hp
  fresh p _ := ⟨rfl, rfl⟩

/-- As long as no peer is accepted in the middle of a message, no messages are mixed. -/
theorem pair_unmixed {ops : List (Op P)} (h : Run Start (Guarded Keeps Step) ops s) : Unmixed s := by
  refine (h.invariant (fun s => Sound s ∧ s.attached ⊆ s.seen) (fun s hs => ?_) fun _ _ _ hi hs => step_sound hi hs).1.unmixedMessages
  subst hs
  exact ⟨new_sound, Finset.Subset.refl _⟩

end

open LoadBalancer (frame frameMore endOf)

/-- A second peer is refused, and the first one terminates between two messages. -/
def peerReplaced : List (Op ℕ) :=
  [.attach 0 (endOf 0) [frameMore 1, frame 2], .attach 1 (endOf 0) [frame 9], .xsend (frameMore 3), .xrecv, .xsend (frame 4),
    .xrecv, .pipeTerminated 1, .pipeTerminated 0, .attach 2 (endOf 0) [frame 5], .xsend (frame 6), .xrecv]

theorem pair_unmixed_replaced : ∃ s : PairUser ℕ, Run Start (Guarded Keeps Step) peerReplaced s ∧
    s.sent = [[frameMore 3, frame 4], [frame 6]] ∧ s.got = [(0, frameMore 1), (0, frame 2), (2, frame 5)] ∧ Unmixed s :=
  exists_run (P := fun s => s.sent = [[frameMore 3, frame 4], [frame 6]] ∧ s.got = [(0, frameMore 1), (0, frame 2), (2, frame 5)])
    (rfl : Start new) (by decide) fun _ hs ⟨hsent, hgot⟩ => ⟨hsent, hgot, pair_unmixed hs⟩

def peerLost (out : Staged Msg) : List (Op ℕ) :=
  [.drift 0 (Outlet.closed ⟨endOf 0, out⟩), .pipeTerminated 0, .attach 1 (endOf 0) [frame 3]]

/-- A new peer gets the rest of a message begun to another, or what is received is of two peers. -/
theorem pair_can_mix : (∃ s : PairUser ℕ, Run Start Step
      (.attach 0 (endOf 0) [] :: .xsend (frameMore 1) :: peerLost (Staged.empty.write (frameMore 1) true) ++ [.xsend (frame 2)]) s ∧
      s.sent = [[frameMore 1, frame 2]] ∧ (s.ends.outlets 1).written = [frame 2] ∧ ¬ Unmixed s) ∧ ∃ s : PairUser ℕ, Run Start Step
      (.attach 0 (endOf 0) [frameMore 1, frame 2] :: .xrecv :: peerLost Staged.empty ++ [.xrecv]) s ∧
      s.got = [(0, frameMore 1), (1, frame 3)] ∧ ¬ Unmixed s := by
  constructor
  · refine exists_run_free (P := fun s => s.sent = [[frameMore 1, frame 2]] ∧ (s.ends.outlets 1).written = [frame 2])
      (rfl : Start new) (by decide) fun s _ ⟨hsent, hwritten⟩ => ⟨hsent, hwritten, fun hc => ?_⟩
    obtain ⟨assigned, hmap, hw⟩ := hc.complete
    rw [hsent] at hmap
    obtain ⟨x, rest, rfl, hx, hrest⟩ := map_eq_cons_iff.mp hmap
    obtain rfl := map_eq_nil_iff.mp hrest
    have hone := (hw 1).symm.trans hwritten
    by_cases ht : x.2 = some 1
    · simp [ht, hx, frameMore, frame] at hone
    · simp [ht] at hone
  · refine exists_run_free (P := fun s => s.got = [(0, frameMore 1), (1, frame 3)]) (rfl : Start new) (by decide)
      fun s _ hgot => ⟨hgot, fun hc => ?_⟩
    obtain ⟨p, l, l', hp, -, -⟩ := hc.exactly [] s.got [] (append_nil _).symm rfl
      ⟨[(0, frameMore 1)], (1, frame 3), hgot, fun x hx => mem_singleton.mp hx ▸ rfl, rfl⟩
    rw [hgot] at hp
    have h0 := hp (0, frameMore 1) mem_cons_self
    have h1 := hp (1, frame 3) (mem_cons_of_mem _ mem_cons_self)
    exact absurd (h0.trans h1.symm) (by decide)

end PairUser

end Zmq
