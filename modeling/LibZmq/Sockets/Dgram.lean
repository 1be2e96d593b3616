import LibZmq.Sockets.PairSocket

/-! `dgram_t`, whose messages are an address and a body, and a user that sends frames through it while its pipe fills up, goes
away and is replaced. -/

namespace Zmq

open List

open Function (update update_of_ne update_self)

structure DgramT (P : Type) extends PairT P where
  moreOut : Bool

inductive DgramRc where
  | ok | einval | eagain
  /-- -1, and `errno` is what it was -/
  | unset
deriving DecidableEq

namespace DgramT

variable {P : Type}

def new : DgramT P := ⟨.new, false⟩

variable [DecidableEq P]

def xattachPipe (s : DgramT P) (e : Ends P) (pipe : P) : DgramT P × Ends P :=
  let (pair, e) := s.toPairT.xattachPipe e pipe
  ({ s with toPairT := pair }, e)

def xpipeTerminated (s : DgramT P) (pipe : P) : DgramT P := { s with toPairT := s.toPairT.xpipeTerminated pipe }

/-- What is returned, and what becomes of the caller's message; `none` is a message that has been closed. -/
def xsend (s : DgramT P) (e : Ends P) (msg : Msg) : DgramRc × Option Msg × DgramT P × Ends P :=
  match s.pipe with
  | none => (.unset, none, s, e)
  | some pipe =>
    -- an address comes with more, a body without
    if msg.hasMore = s.moreOut then (.einval, some msg, s, e)
    else
      let s := { s with moreOut := !s.moreOut }
      let (ok, outlet) := (e.outlets pipe).write msg
      if !ok then (.eagain, some msg, s, e.setOutlet pipe outlet)
      else (.ok, some Msg.init, s, e.setOutlet pipe (if msg.hasMore then outlet else outlet.flush))

end DgramT

/-- A call that failed: the flag and the caller's message, before it and after it. -/
structure FailedSend where
  before : Bool × Option Msg
  after : Bool × Option Msg
deriving DecidableEq

structure DgramUser (P : Type) where
  socket : DgramT P
  ends : Ends P
  seen : Finset P
  failed : List FailedSend

namespace DgramUser

open LoadBalancer (unattached)

variable {P : Type}

def new : DgramUser P := ⟨.new, ⟨fun _ => ⟨false, []⟩, fun _ => unattached, fun _ => []⟩, ∅, []⟩

inductive Op (P : Type) where
  | attach (pipe : P) (self : PipeT)
  /-- something arrives at an end, or it is activated -/
  | arrive (pipe : P) (inlet : Inlet)
  | drift (pipe : P) (outlet : Outlet)
  | writeActivated (pipe : P) (msgsRead : UInt64)
  | pipeTerminated (pipe : P)
  | xsend (msg : Msg)
  | xrecv
  | xhasIn
  | xhasOut

variable [DecidableEq P]

/-- What pipes and the user keep to: a pipe is attached once, and no frame is a delimiter. -/
def Ready (s : DgramUser P) : Op P → Prop
  | .attach p self => p ∉ s.seen ∧ self.outpipe ≠ none
  | .drift p o => Outlet.Drifts (s.ends.outlets p) o
  | .writeActivated p _ => (s.ends.outlets p).self.outActive = false ∧ (s.ends.outlets p).self.state = .active
  | .xsend m => m.isDelimiter = false
  | .arrive _ _ | .pipeTerminated _ | .xrecv | .xhasIn | .xhasOut => True

instance (s : DgramUser P) (op : Op P) : Decidable (s.Ready op) := by
  cases op <;> unfold Ready <;> infer_instance

/-- What a call leaves that sends `m`. -/
def after (s : DgramUser P) (m : Msg) : DgramRc × Option Msg × DgramT P × Ends P → DgramUser P
  | (rc, msg, socket, ends) => { s with
      socket := socket
      ends := ends
      failed := if rc = .ok then s.failed else s.failed ++ [⟨(s.socket.moreOut, some m), (socket.moreOut, msg)⟩] }

def run (s : DgramUser P) : Op P → Except SocketFault (DgramUser P)
  | .attach p self =>
    let x := s.socket.xattachPipe (s.ends.setOutlet p ⟨self, Staged.empty⟩) p
    .ok { s with socket := x.1, ends := x.2, seen := insert p s.seen }
  | .arrive p i => .ok { s with ends := s.ends.setInlet p i }
  | .drift p o => .ok { s with ends := s.ends.setOutlet p o }
  | .writeActivated p n => .ok { s with
      ends := s.ends.setOutlet p { s.ends.outlets p with
        self := { (s.ends.outlets p).self with peersMsgsRead := n, outActive := true } } }
  | .pipeTerminated p => .ok { s with
      socket := s.socket.xpipeTerminated p, ends := s.ends.setOutlet p (s.ends.outlets p).closed }
  | .xsend m =>
    .ok (s.after m (s.socket.xsend s.ends m))
  | .xrecv => .ok { s with ends := (s.socket.toPairT.xrecv s.ends).2 }
  | .xhasIn => .ok { s with ends := (s.socket.toPairT.xhasIn s.ends).2 }
  | .xhasOut => .ok { s with ends := (s.socket.toPairT.xhasOut s.ends).2 }

def Start (s : DgramUser P) : Prop := s = new

abbrev Step : DgramUser P → Op P → DgramUser P → Prop := Does Ready run

def Alternates (frames : List Msg) : Prop := ∀ i m, frames[i]? = some m → m.hasMore = (i % 2 == 0)

end DgramUser

namespace Outlet

/-- The frames that an end has accepted and not taken back. -/
def frames (o : Outlet) : List Msg := o.written ++ o.part

variable {o o' : Outlet} {m : Msg}

@[simp] theorem flush_frames : o.flush.frames = o.frames := by simp [frames]

theorem accept_frames (ho : o.self.outpipe ≠ none) (hm : m.isDelimiter = false) (hp : ∀ x ∈ o.part, x.isDelimiter = false) :
    (o.accept m).frames = o.frames ++ [m] := by
  unfold frames
  cases hmore : m.hasMore with
  | true =>
    obtain ⟨hpart, hwritten⟩ := accept_more hmore ho
    rw [hpart, hwritten, append_assoc]
  | false =>
    obtain ⟨hpart, hwritten⟩ := accept_last hmore hm hp ho
    rw [hpart, hwritten, append_nil]

theorem Fades.frames (h : Fades o o') : o'.frames = o.frames ∨ o'.frames = o.written ∧ o'.self.state ≠ .active := by
  unfold Outlet.frames
  rw [h.written]
  apply h.part.imp
  · intro hpart
    rw [hpart]
  · intro hpart
    rw [hpart.1, append_nil]
    exact ⟨rfl, hpart.2⟩

end Outlet

namespace DgramUser

variable {P : Type} [DecidableEq P]

/-- What is promised of the calls so far and of each pipe. -/
structure InTurn (s : DgramUser P) : Prop where
  failed : ∀ f ∈ s.failed, f.after = f.before
  alternates : ∀ p, Alternates (s.ends.outlets p).frames

/-- A frame is sent only to a pipe that takes it, unless its flag is refused, and a pipe is accepted only when an address is due. -/
def Keeps (s : DgramUser P) : Op P → Prop
  | .attach _ _ => s.socket.pipe = none → s.socket.moreOut = false
  | .xsend m =>
    match s.socket.pipe with
    | none => False
    | some p => m.hasMore = s.socket.moreOut ∨ (s.ends.outlets p).self.checkWrite.1 = true
  | _ => True

instance (s : DgramUser P) (op : Op P) : Decidable (s.Keeps op) := by
  unfold Keeps
  split
  · infer_instance
  · split <;> infer_instance
  · infer_instance

section Alternates

variable {l l' : List Msg} {m : Msg}

theorem alternates_nil : Alternates [] := by
  intro i m hm
  simp at hm

theorem Alternates.left (h : Alternates (l ++ l')) : Alternates l := by
  intro i m hm
  apply h i m
  rw [List.getElem?_append_left (List.getElem?_eq_some_iff.mp hm).1]
  exact hm

theorem Alternates.snoc (h : Alternates l) (hm : m.hasMore = (l.length % 2 == 0)) : Alternates (l ++ [m]) := by
  intro i x hx
  rw [getElem?_append] at hx
  split_ifs at hx with hi
  · exact h i x hx
  · obtain ⟨hlt, rfl⟩ := List.getElem?_eq_some_iff.mp hx
    have hi : i = l.length := by
      rw [length_singleton] at hlt
      omega
    subst hi
    simpa using hm

end Alternates

structure Sound (s : DgramUser P) : Prop extends InTurn s where
  linked : ∀ p, (s.ends.outlets p).self.state = .active → (s.ends.outlets p).self.outpipe ≠ none
  frames : ∀ p, ∀ m ∈ (s.ends.outlets p).frames, m.isDelimiter = false
  turn : ∀ p, s.socket.pipe = some p → (s.ends.outlets p).self.state = .active →
    s.socket.moreOut = ((s.ends.outlets p).frames.length % 2 == 1)
  member : ∀ p, s.socket.pipe = some p → p ∈ s.seen

variable {s s' : DgramUser P} {p : P} {m : Msg} {o : Outlet} {e : Ends P} {ops : List (Op P)}

omit [DecidableEq P] in
theorem Sound.socket {t : DgramT P} (h : Sound s) (hturn : ∀ p, t.pipe = some p → (s.ends.outlets p).self.state = .active →
      t.moreOut = ((s.ends.outlets p).frames.length % 2 == 1)) (hmember : ∀ p, t.pipe = some p → p ∈ s.seen) :
    Sound { s with socket := t } :=
  ⟨⟨h.failed, h.alternates⟩, h.linked, h.frames, hturn, hmember⟩

theorem Sound.outlet (h : Sound s) (he : e.outlets = update s.ends.outlets p o) (hlinked : o.self.state = .active → o.self.outpipe ≠ none)
    (hframes : ∀ m ∈ o.frames, m.isDelimiter = false) (halt : Alternates o.frames)
    (hturn : s.socket.pipe = some p → o.self.state = .active → s.socket.moreOut = (o.frames.length % 2 == 1)) :
    Sound { s with ends := e } := by
  have hself : e.outlets p = o := he ▸ update_self _ _ _
  have hother : ∀ q, q ≠ p → e.outlets q = s.ends.outlets q := fun q hq => he ▸ update_of_ne hq _ _
  refine ⟨⟨h.failed, fun q => ?_⟩, fun q => ?_, fun q => ?_, fun q => ?_, h.member⟩ <;> dsimp only
  all_goals
    rcases eq_or_ne q p with rfl | hq
    · rw [hself]
      assumption
    · rw [hother q hq]
      first
      | exact h.alternates q
      | exact h.linked q
      | exact h.frames q
      | exact h.turn q

theorem Sound.fade (h : Sound s) (hf : Outlet.Fades (s.ends.outlets p) o)
    (he : e.outlets = update s.ends.outlets p o) : Sound { s with ends := e } := by
  have hstate : o.self.state = .active → (s.ends.outlets p).self.state = .active := by
    intro ho
    by_contra hc
    exact hf.closed hc ho
  apply h.outlet he
  · intro ho
    exact (hf.linked (h.linked p (hstate ho))).resolve_right (not_not_intro ho)
  · intro x hx
    rcases hf.frames with hframes | ⟨hframes, -⟩
    · exact h.frames p x (hframes ▸ hx)
    · exact h.frames p x (mem_append_left _ (hframes ▸ hx))
  · rcases hf.frames with hframes | ⟨hframes, -⟩
    · rw [hframes]
      exact h.alternates p
    · rw [hframes]
      exact (h.alternates p).left
  · intro hp ho
    rw [hf.frames.resolve_right fun hc => hc.2 ho]
    exact h.turn p hp (hstate ho)

theorem Sound.inlet {i : Inlet} (h : Sound s) : Sound { s with ends := s.ends.setInlet p i } :=
  ⟨⟨h.failed, h.alternates⟩, h.linked, h.frames, h.turn, h.member⟩

theorem Sound.attach {self : PipeT} (h : Sound s) (hr : s.Ready (.attach p self)) (hk : s.Keeps (.attach p self))
    (hx : s.run (.attach p self) = .ok s') : Sound s' := by
  cases hx
  have hpart : (⟨self, Staged.empty⟩ : Outlet).part = [] := ite_self _
  have hframes : (⟨self, Staged.empty⟩ : Outlet).frames = [] := by
    unfold Outlet.frames
    rw [hpart]
    rfl
  have hne : s.socket.pipe ≠ some p := fun hp => hr.1 (h.member p hp)
  have hnew : Sound { s with ends := s.ends.setOutlet p ⟨self, Staged.empty⟩ } := by
    apply h.outlet rfl
    · exact fun _ => hr.2
    · simp [hframes]
    · rw [hframes]
      exact alternates_nil
    · intro hp
      exact absurd hp hne
  have hseen : Sound { s with ends := s.ends.setOutlet p ⟨self, Staged.empty⟩, seen := insert p s.seen } :=
    ⟨⟨hnew.failed, hnew.alternates⟩, hnew.linked, hnew.frames, hnew.turn, fun q hq => Finset.mem_insert_of_mem (h.member q hq)⟩
  unfold DgramT.xattachPipe PairT.xattachPipe
  by_cases hs : s.socket.pipe = none
  · rw [if_pos hs]
    apply hseen.socket
    · intro q hq _
      cases hq
      rw [show (s.ends.setOutlet p ⟨self, Staged.empty⟩).outlets p = ⟨self, Staged.empty⟩ from update_self _ _ _, hframes]
      exact hk hs
    · intro q hq
      cases hq
      exact Finset.mem_insert_self _ _
  · rw [if_neg hs]
    exact hseen.fade Outlet.terminate_drifts.toFades rfl

theorem xsend_some {t : DgramT P} (hp : t.pipe = some p) (hm : m.hasMore = t.moreOut ∨ (e.outlets p).self.checkWrite.1 = true) :
    t.xsend e m = if m.hasMore = t.moreOut then (.einval, some m, t, e)
      else (.ok, some Msg.init, { t with moreOut := !t.moreOut },
        e.setOutlet p (if m.hasMore then (e.outlets p).accept m else ((e.outlets p).accept m).flush)) := by
  unfold DgramT.xsend
  rw [hp]
  dsimp only
  by_cases hflag : m.hasMore = t.moreOut
  · rw [if_pos hflag, if_pos hflag]
  · rw [if_neg hflag, if_neg hflag, Outlet.write_done (hm.resolve_left hflag)]
    rfl

theorem Sound.write (h : Sound s) (hp : s.socket.pipe = some p) (hm : m.isDelimiter = false)
    (hself : o.self = ((s.ends.outlets p).accept m).self) (hframes : o.frames = (s.ends.outlets p).frames ++ [m])
    (hmore : m.hasMore = !((s.ends.outlets p).frames.length % 2 == 1)) (hactive : (s.ends.outlets p).self.state = .active) :
    Sound { s with socket := { s.socket with moreOut := !s.socket.moreOut }, ends := s.ends.setOutlet p o } := by
  have hidle : Sound { s with socket := ⟨⟨none⟩, false⟩ } := h.socket (fun _ hq => nomatch hq) fun _ hq => nomatch hq
  have hout : Sound { s with socket := ⟨⟨none⟩, false⟩, ends := s.ends.setOutlet p o } := by
    apply hidle.outlet rfl
    · intro hstate
      rw [hself] at hstate ⊢
      exact h.linked p hstate
    · rw [hframes]
      intro x hx
      rcases mem_append.mp hx with hx | hx
      · exact h.frames p x hx
      · rw [mem_singleton.mp hx]
        exact hm
    · rw [hframes]
      apply (h.alternates p).snoc
      rw [hmore]
      rcases Nat.mod_two_eq_zero_or_one (s.ends.outlets p).frames.length with hlen | hlen <;> rw [hlen] <;> rfl
    · exact fun hq => nomatch hq
  apply hout.socket
  · intro q hq _
    cases hp.symm.trans hq
    rw [show (s.ends.setOutlet p o).outlets p = o from update_self _ _ _, hframes, h.turn p hp hactive,
      length_append, length_singleton]
    rcases Nat.mod_two_eq_zero_or_one (s.ends.outlets p).frames.length with hlen | hlen
    · rw [Nat.add_mod, hlen]
      rfl
    · rw [Nat.add_mod, hlen]
      rfl
  · exact h.member

theorem Sound.xsend (h : Sound s) (hr : s.Ready (.xsend m)) (hk : s.Keeps (.xsend m)) (hx : s.run (.xsend m) = .ok s') :
    Sound s' := by
  cases hx
  unfold Keeps at hk
  cases hp : s.socket.pipe with
  | none =>
    rw [hp] at hk
    exact hk.elim
  | some p =>
    rw [hp] at hk
    rw [xsend_some hp hk]
    by_cases hflag : m.hasMore = s.socket.moreOut
    · rw [if_pos hflag]
      refine ⟨⟨fun f hf => ?_, h.alternates⟩, h.linked, h.frames, h.turn, h.member⟩
      rcases mem_append.mp hf with hf | hf
      · exact h.failed f hf
      · rw [mem_singleton.mp hf]
    · rw [if_neg hflag]
      obtain ⟨-, hstate, -⟩ := Outlet.checkWrite_true (hk.resolve_left hflag)
      have hlink := h.linked p hstate
      have hturn := h.turn p hp hstate
      have hframes := Outlet.accept_frames hlink hr fun x hx => h.frames p x (mem_append_right _ hx)
      obtain ⟨o, ho⟩ : ∃ o, (if m.hasMore then (s.ends.outlets p).accept m else ((s.ends.outlets p).accept m).flush) = o := ⟨_, rfl⟩
      have hself : o.self = ((s.ends.outlets p).accept m).self := by
        rw [← ho]
        split_ifs <;> simp
      have hnew : o.frames = (s.ends.outlets p).frames ++ [m] := by
        rw [← ho, ← hframes]
        split_ifs <;> simp
      rw [ho]
      exact h.write hp hr hself hnew (by rw [Bool.eq_not_of_ne hflag, hturn]) hstate

theorem Sound.pipeTerminated (h : Sound s) (hx : s.run (.pipeTerminated p) = .ok s') : Sound s' := by
  cases hx
  have hclosed : Sound { s with ends := s.ends.setOutlet p (s.ends.outlets p).closed } := h.fade Outlet.closed_fades rfl
  unfold DgramT.xpipeTerminated PairT.xpipeTerminated
  by_cases hs : s.socket.pipe = some p
  · rw [if_pos hs]
    apply hclosed.socket
    · intro q hq
      exact nomatch hq
    · intro q hq
      exact nomatch hq
  · rw [if_neg hs]
    exact hclosed

theorem Sound.xrecv (h : Sound s) (hx : s.run .xrecv = .ok s') : Sound s' := by
  cases hx
  unfold PairT.xrecv
  split
  · exact h
  · exact h.inlet

theorem Sound.xhasIn (h : Sound s) (hx : s.run .xhasIn = .ok s') : Sound s' := by
  cases hx
  unfold PairT.xhasIn
  split
  · exact h
  · exact h.inlet

theorem Sound.xhasOut (h : Sound s) (hx : s.run .xhasOut = .ok s') : Sound s' := by
  cases hx
  unfold PairT.xhasOut
  split
  · exact h
  · exact h.fade Outlet.refuse_fades rfl

theorem step_sound {op : Op P} (h : Sound s) (hs : Guarded Keeps Step s op s') : Sound s' := by
  obtain ⟨hk, hr, hx⟩ := hs
  cases op with
  | attach p self => exact h.attach hr hk hx
  | arrive p i =>
    cases hx
    exact h.inlet
  | drift p o =>
    cases hx
    exact h.fade hr.toFades rfl
  | writeActivated p n =>
    cases hx
    refine h.fade (p := p) ?_ rfl
    exact ⟨rfl, .inl rfl, id, .inl⟩
  | pipeTerminated p => exact h.pipeTerminated hx
  | xsend m => exact h.xsend hr hk hx
  | xrecv => exact h.xrecv hx
  | xhasIn => exact h.xhasIn hx
  | xhasOut => exact h.xhasOut hx

omit [DecidableEq P] in
theorem new_sound : Sound (new : DgramUser P) where
  failed f hf := nomatch hf
  alternates p := alternates_nil
  linked p hp := by cases hp
  frames p m hm := nomatch hm
  turn p hp := by cases hp
  member p hp := by cases hp

/-- As long as a frame is sent only to a pipe that takes it, and no pipe is accepted when a body is due, calls that fail change
nothing, and addresses and bodies take turns in every pipe. -/
theorem dgram_in_turn (h : Run Start (Guarded Keeps Step) ops s) : InTurn s := by
  refine (h.invariant Sound (fun s hs => ?_) fun _ _ _ hi hs => step_sound hi hs).toInTurn
  subst hs
  exact new_sound

open LoadBalancer (frame frameMore endOf)

/-- An address that comes twice is refused, and the pipe is replaced when an address is due. -/
def pipeReplaced : List (Op ℕ) :=
  [.attach 0 (endOf 0), .xsend (frameMore 1), .xsend (frameMore 1), .xsend (frame 2), .drift 0 (Outlet.closed ⟨endOf 0,
    ((Staged.empty.write (frameMore 1) true).write (frame 2) false).flush.2⟩), .pipeTerminated 0, .attach 1 (endOf 0),
    .xsend (frameMore 3), .xsend (frame 4)]

theorem dgram_in_turn_replaced : ∃ s : DgramUser ℕ, Run Start (Guarded Keeps Step) pipeReplaced s ∧
    (s.ends.outlets 0).frames = [frameMore 1, frame 2] ∧ (s.ends.outlets 1).frames = [frameMore 3, frame 4] ∧ InTurn s :=
  exists_run (P := fun s => (s.ends.outlets 0).frames = [frameMore 1, frame 2] ∧
      (s.ends.outlets 1).frames = [frameMore 3, frame 4]) (rfl : Start new) (by decide)
    fun _ hs ⟨h0, h1⟩ => ⟨h0, h1, dgram_in_turn hs⟩

/-- The pipe is full when the address is sent. When it is sent again it is refused, and the body is sent alone. -/
def pipeFull : List (Op ℕ) :=
  [.attach 0 { endOf 0 with outActive := false }, .xsend (frameMore 1), .writeActivated 0 0, .xsend (frameMore 1), .xsend (frame 2)]

theorem dgram_can_fall_out : ∃ s : DgramUser ℕ, Run Start Step pipeFull s ∧
    s.failed.head? = some ⟨(false, some (frameMore 1)), (true, some (frameMore 1))⟩ ∧
    (s.ends.outlets 0).frames = [frame 2] ∧ ¬ InTurn s := by
  refine exists_run_free (P := fun s => s.failed.head? = some ⟨(false, some (frameMore 1)), (true, some (frameMore 1))⟩ ∧
    (s.ends.outlets 0).frames = [frame 2]) (rfl : Start new) (by decide)
    fun s _ ⟨hfailed, hframes⟩ => ⟨hfailed, hframes, fun hturn => ?_⟩
  have hfirst := hturn.alternates 0 0 (frame 2) (by rw [hframes]; rfl)
  exact nomatch hfirst

end DgramUser

end Zmq
