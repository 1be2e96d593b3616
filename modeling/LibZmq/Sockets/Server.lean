import LibZmq.Sockets.Outpipes

/-! `server_t`, which receives messages of one frame, each with a number for the pipe it has come from. -/

namespace Zmq

open List Option

open Function (update update_of_ne update_self)

structure ServerT (P : Type) where
  fq : FqT P
  outpipes : AList fun _ : UInt32 => OutpipeT P
  nextRid : UInt32

namespace ServerT

variable {P : Type}

def new (nextRid : UInt32) : ServerT P := ⟨.new, ∅, nextRid⟩

variable [DecidableEq P]

/-- `rids` are the routing ids that the pipes keep; 0 is never used. -/
def xattachPipe (s : ServerT P) (rids : P → UInt32) (pipe : P) : Except SocketFault (ServerT P × (P → UInt32)) :=
  let (routingId, nextRid) := if s.nextRid = 0 then (s.nextRid + 1, s.nextRid + 2) else (s.nextRid, s.nextRid + 1)
  if routingId ∈ s.outpipes then .error .assertion
  else .ok (⟨s.fq.attach pipe, s.outpipes.insert routingId ⟨pipe, true⟩, nextRid⟩, update rids pipe routingId)

def xpipeTerminated (s : ServerT P) (rids : P → UInt32) (pipe : P) : Except SocketFault (ServerT P) :=
  if rids pipe ∈ s.outpipes then .ok { s with outpipes := s.outpipes.erase (rids pipe), fq := s.fq.pipeTerminated pipe }
  else .error .assertion

def xreadActivated (s : ServerT P) (pipe : P) : Except SocketFault (ServerT P) :=
  -- the pipe is swapped with the first one that is not active
  if s.fq.active < s.fq.pipes.size then .ok { s with fq := s.fq.activated pipe } else .error .outOfBounds

/-- The loop that drops the frames up to the end of a message. `n` bounds the number of calls of `recvpipe`; the frames
that these have returned are listed. -/
def dropRest : ℕ → FqT P → (P → Inlet) → Except SocketFault (Bool × List (P × Msg) × FqT P × (P → Inlet))
  | 0, fq, inlets => .ok (false, [], fq, inlets)
  | n + 1, fq, inlets => do
    let (got, fq, inlets) ← fq.recvpipe inlets
    match got with
    | none => return (false, [], fq, inlets)
    | some x =>
      if x.2.hasMore then do
        let (rc, frames, fq, inlets) ← dropRest n fq inlets
        return (rc, x :: frames, fq, inlets)
      else return (true, [x], fq, inlets)

/-- The loop over messages of more than one frame. -/
def recvSingle : ℕ → FqT P → (P → Inlet) → Except SocketFault (Option (P × Msg) × List (P × Msg) × FqT P × (P → Inlet))
  | 0, fq, inlets => .ok (none, [], fq, inlets)
  | n + 1, fq, inlets => do
    let (got, fq, inlets) ← fq.recvpipe inlets
    match got with
    | none => return (none, [], fq, inlets)
    | some x =>
      if x.2.hasMore then do
        let (rc, dropped, fq, inlets) ← dropRest n fq inlets
        if rc then do
          let (got, frames, fq, inlets) ← recvSingle n fq inlets
          return (got, x :: dropped ++ frames, fq, inlets)
        else return (none, x :: dropped, fq, inlets)
      else return (some x, [x], fq, inlets)

/-- The message and its routing id, or `none` with EAGAIN, and the frames that have been read for it. -/
def xrecv (s : ServerT P) (inlets : P → Inlet) (rids : P → UInt32) :
    Except SocketFault (Option (Msg × UInt32) × List (P × Msg) × ServerT P × (P → Inlet)) := do
  let (got, frames, fq, inlets) ← recvSingle (s.fq.held inlets + 1) s.fq inlets
  return (got.map fun x => (x.2, rids x.1), frames, { s with fq := fq }, inlets)

def xhasIn (s : ServerT P) (inlets : P → Inlet) : Except SocketFault (Bool × ServerT P × (P → Inlet)) := do
  let (rc, fq, inlets) ← s.fq.hasIn inlets
  return (rc, { s with fq := fq }, inlets)

end ServerT

structure Server (P : Type) where
  socket : ServerT P
  ends : Ends P
  rids : P → UInt32
  attached : Finset P
  seen : Finset P
  delivered : P → List Msg
  got : List (P × Msg)
  returned : List (Msg × UInt32)

namespace Server

open LoadBalancer (unattached frame frameMore endOf)
open Intake (received reading)

variable {P : Type}

def new (nextRid : UInt32) : Server P :=
  ⟨.new nextRid, ⟨fun _ => ⟨false, []⟩, fun _ => unattached, fun _ => []⟩, fun _ => 0, ∅, ∅, fun _ => [], [], []⟩

inductive Op (P : Type) where
  | attach (pipe : P) (self : PipeT) (frames : List Msg)
  | deliver (pipe : P) (frames : List Msg)
  | drift (pipe : P) (outlet : Outlet)
  | readActivated (pipe : P)
  | pipeTerminated (pipe : P)
  | xrecv
  | xhasIn

def plain (frames : List Msg) : List Msg := frames.filter fun m => !m.isCredential

/-- What pipes keep to: a pipe is attached once, and delivers whole messages until it is closed. -/
def Ready (s : Server P) : Op P → Prop
  | .attach p self frames => p ∉ s.seen ∧ self.readable = true ∧ Framed (plain frames)
  | .deliver p frames => p ∈ s.attached ∧ (s.ends.outlets p).self.readable = true ∧ Framed (plain frames)
  | .drift p o => o.self.readable = true → (s.ends.outlets p).self.readable = true
  | .readActivated p => p ∈ s.attached ∧ (s.ends.inlets p).inActive = false ∧ (s.ends.outlets p).self.readable = true
  | .pipeTerminated p => p ∈ s.attached
  | .xrecv | .xhasIn => True

variable [DecidableEq P]

instance (s : Server P) (op : Op P) : Decidable (s.Ready op) := by
  cases op <;> unfold Ready <;> infer_instance

def run (s : Server P) : Op P → Except SocketFault (Server P)
  | .attach p self frames => (s.socket.xattachPipe s.rids p).map fun x => { s with
      socket := x.1
      rids := x.2
      ends := (s.ends.setInlet p ⟨true, frames⟩).setOutlet p ⟨self, Staged.empty⟩
      attached := insert p s.attached
      seen := insert p s.seen
      delivered := update s.delivered p (plain frames) }
  | .deliver p frames => .ok { s with
      ends := s.ends.setInlet p ⟨(s.ends.inlets p).inActive, (s.ends.inlets p).frames ++ frames⟩
      delivered := update s.delivered p (s.delivered p ++ plain frames) }
  | .drift p o => .ok { s with
      ends := (if o.self.readable then s.ends else s.ends.setInlet p ⟨false, []⟩).setOutlet p o }
  | .readActivated p => (s.socket.xreadActivated p).map fun socket => { s with
      socket := socket, ends := s.ends.setInlet p ⟨true, (s.ends.inlets p).frames⟩ }
  | .pipeTerminated p => (s.socket.xpipeTerminated s.rids p).map fun socket => { s with
      socket := socket, ends := s.ends.setOutlet p (s.ends.outlets p).closed, attached := s.attached.erase p }
  | .xrecv => do
    let (got, frames, socket, inlets) ← s.socket.xrecv s.ends.inlets s.rids
    return { s with
      socket := socket
      ends := { s.ends with inlets := inlets }
      got := s.got ++ frames
      returned := s.returned ++ got.toList }
  | .xhasIn => do
    let (_, socket, inlets) ← s.socket.xhasIn s.ends.inlets
    return { s with socket := socket, ends := { s.ends with inlets := inlets } }

def Start (s : Server P) : Prop := ∃ nextRid, s = new nextRid

abbrev Step : Server P → Op P → Server P → Prop := Does Ready run

omit [DecidableEq P] in
def singles : Bool → List (P × Msg) → List (P × Msg)
  | _, [] => []
  | within, x :: rest => if within || x.2.hasMore then singles x.2.hasMore rest else x :: singles false rest

/-- What has been returned are the messages of one frame, in the order in which the fair queue has returned them, each with
the routing id of its pipe; and the fair queue returns whole messages, each pipe's in order. -/
structure Receives (s : Server P) : Prop where
  returned : s.returned = (singles false s.got).map fun x => (x.2, s.rids x.1)
  whole : reading s.got = none
  unmixed : s.got.IsChain fun x y => x.2.hasMore = true → y.1 = x.1
  consecutive : ∀ p, received s.got p <+: s.delivered p

/-- Routing ids tell the pipes apart. -/
structure Routed (s : Server P) : Prop where
  nonzero : ∀ p ∈ s.attached, s.rids p ≠ 0
  distinct : ∀ p ∈ s.attached, ∀ q ∈ s.attached, s.rids p = s.rids q → p = q

structure Feed (fq : FqT P) (inlets : P → Inlet) (outlets : P → Outlet) (delivered : P → List Msg) (got : List (P × Msg)) :
    Prop where
  supplied : fq.Supplied inlets outlets
  more : fq.more = (reading got).isSome
  current : ∀ p, reading got = some p → fq.IsCurrent p
  unmixed : got.IsChain fun x y => x.2.hasMore = true → y.1 = x.1
  stream : ∀ p, received got p ++ (inlets p).pending <+: delivered p
  full : ∀ p ∈ fq.pipes, (outlets p).self.readable = true → received got p ++ (inlets p).pending = delivered p

section

variable {fq fq' : FqT P} {inlets inlets' : P → Inlet} {outlets : P → Outlet} {delivered : P → List Msg} {l l' : List (P × Msg)}
  {got : List (P × Msg)} {p q : P} {m : Msg}

theorem recvpipe_others {r : Option (P × Msg)} (h : fq.Supplied inlets outlets)
    (hx : fq.recvpipe inlets = .ok (r, fq', inlets')) : (∀ x ∈ r, x.1 ∈ fq.pipes) ∧
      ∀ q, (∀ x ∈ r, x.1 ≠ q) → (inlets' q).pending = (inlets q).pending := by
  have hnext : fq.more = true → ∃ p, fq.IsCurrent p ∧ ((inlets p).read.1).isSome = true := by
    intro hm
    obtain ⟨p, m, rest, hc, ha, hp, -⟩ := h.next hm
    exact ⟨p, hc, Inlet.read_isSome ha (by rw [hp]; exact cons_ne_nil m rest)⟩
  obtain ⟨r1, w, hs, -, hgoes⟩ := FqT.recvLoop_goes h.wf rfl hnext
  have hkept := FqT.skips_kept hs
  rcases hgoes with hgoes | ⟨p, m, i, hc, -, hgoes⟩
  · obtain ⟨rfl, hrest⟩ := ok_pair (hx.symm.trans hgoes)
    cases hrest
    exact ⟨fun x hx => (by cases hx), fun q _ => hkept q⟩
  · obtain ⟨rfl, hrest⟩ := ok_pair (hx.symm.trans hgoes)
    cases hrest
    refine ⟨fun x hx => ?_, fun q hq => ?_⟩
    · cases hx
      exact hs.mem.mp hc.1.1
    · have hne : q ≠ p := fun he => hq _ rfl he.symm
      rw [update_of_ne hne]
      exact hkept q

theorem Feed.recvpipe (h : Feed fq inlets outlets delivered got) : ∃ r fq' inlets',
    fq.recvpipe inlets = .ok (r, fq', inlets') ∧ Feed fq' inlets' outlets delivered (got ++ r.toList) ∧
      (∀ p, p ∈ fq'.pipes ↔ p ∈ fq.pipes) ∧ (∀ x ∈ r, x.1 ∈ fq.pipes) ∧ (r = none → reading got = none) ∧
      fq'.held inlets' + r.toList.length ≤ fq.held inlets := by
  obtain ⟨r, fq', inlets', hx, hsup, hmem, -, hr⟩ := h.supplied.recvpipe
  obtain ⟨hfrom, hothers⟩ := recvpipe_others h.supplied hx
  have hheld := (FqT.recvLoop_held rfl hx).2
  refine ⟨r, fq', inlets', hx, ?_, hmem, hfrom, fun hn => ?_, hheld⟩
  · cases r with
    | none =>
      have hpending : ∀ q, (inlets' q).pending = (inlets q).pending := fun q => hothers q fun x hx => by cases hx
      have hnone : reading got = none := by
        rw [← not_isSome_iff_eq_none, ← h.more, hr.1]
        exact Bool.false_ne_true
      rw [toList_none, append_nil]
      refine ⟨hsup, ?_, fun p hp => ?_, h.unmixed, fun p => ?_, fun p hp hopen => ?_⟩
      · rw [hnone]
        exact hr.2.1
      · rw [hnone] at hp
        cases hp
      · rw [hpending]
        exact h.stream p
      · rw [hpending]
        exact h.full p ((hmem p).mp hp) hopen
    | some x =>
      obtain ⟨p, m⟩ := x
      have hstream : ∀ q, received (got ++ [(p, m)]) q ++ (inlets' q).pending = received got q ++ (inlets q).pending := by
        intro q
        rw [Intake.received_append]
        rcases eq_or_ne p q with rfl | hne
        · rw [Intake.received_self, hr.frame, append_assoc, singleton_append]
        · have hpending : (inlets' q).pending = (inlets q).pending := hothers q fun x hx => by
            cases hx
            exact hne
          have hnone : received [(p, m)] q = [] := Intake.received_other fun x hx => by rwa [mem_singleton.mp hx]
          rw [hpending, hnone, append_nil]
      refine ⟨hsup, ?_, fun q hq => ?_, ?_, fun q => ?_, fun q hq hopen => ?_⟩
      · rw [hr.more, toList_some, Intake.reading_snoc]
        cases m.hasMore <;> rfl
      · rw [toList_some, Intake.reading_snoc] at hq
        split_ifs at hq with hm
        cases hq
        exact hr.goesOn hm
      · refine isChain_append.mpr ⟨h.unmixed, isChain_singleton _, ?_⟩
        rintro ⟨q, y⟩ hy z hz hm
        cases hz
        obtain ⟨l, hl⟩ := getLast?_eq_some_iff.mp hy
        have hread : reading got = some q := Intake.reading_eq.mpr ⟨l, y, hl, hm⟩
        have hmore : fq.more = true := by
          rw [h.more, hread]
          rfl
        exact (hr.begun hmore).2.unique (h.current q hread)
      · rw [toList_some, hstream]
        exact h.stream q
      · rw [toList_some, hstream]
        exact h.full q ((hmem q).mp hq) hopen
  · subst hn
    rw [← not_isSome_iff_eq_none, ← h.more, hr.1]
    exact Bool.false_ne_true

section

omit [DecidableEq P]

theorem singles_cons {x : P × Msg} {rest : List (P × Msg)} {within : Bool} : singles within (x :: rest) =
    if within || x.2.hasMore then singles x.2.hasMore rest else x :: singles false rest := rfl

theorem singles_append (l l' : List (P × Msg)) (within : Bool) : singles within (l ++ l') =
    singles within l ++ singles (if l = [] then within else (reading l).isSome) l' := by
  induction l generalizing within with
  | nil => rfl
  | cons x rest ih =>
    have hreading : (if rest = [] then x.2.hasMore else (reading rest).isSome) = (reading (x :: rest)).isSome := by
      cases rest with
      | nil =>
        unfold reading
        cases hm : x.2.hasMore <;> simp [hm]
      | cons y ys =>
        unfold reading
        rw [getLast?_cons_cons, if_neg (cons_ne_nil y ys)]
    rw [if_neg (cons_ne_nil x rest), cons_append, singles_cons, singles_cons]
    split_ifs with hc
    · rw [ih, hreading]
    · have hm : x.2.hasMore = false := by
        rw [Bool.or_eq_true, not_or, Bool.not_eq_true, Bool.not_eq_true] at hc
        exact hc.2
      rw [ih, ← hm, hreading, cons_append]

theorem reading_append (h : l' ≠ []) : reading (l ++ l') = reading l' := by
  unfold reading
  rw [getLast?_append_of_ne_nil l h]

end

structure Draws (fq : FqT P) (inlets : P → Inlet) (outlets : P → Outlet) (delivered : P → List Msg) (got frames : List (P × Msg))
    (fq' : FqT P) (inlets' : P → Inlet) : Prop where
  feed : Feed fq' inlets' outlets delivered (got ++ frames)
  mem : ∀ p, p ∈ fq'.pipes ↔ p ∈ fq.pipes
  origin : ∀ x ∈ frames, x.1 ∈ fq.pipes
  held : fq'.held inlets' + frames.length ≤ fq.held inlets
  listens : fq.Listens inlets → fq'.Listens inlets'

theorem Draws.trans {fq1 fq2 : FqT P} {w1 w2 : P → Inlet}
    (h : Draws fq inlets outlets delivered got l fq1 w1) (h' : Draws fq1 w1 outlets delivered (got ++ l) l' fq2 w2) :
    Draws fq inlets outlets delivered got (l ++ l') fq2 w2 where
  feed := append_assoc got l l' ▸ h'.feed
  mem p := (h'.mem p).trans (h.mem p)
  origin x hx := (mem_append.mp hx).elim (h.origin x) fun hx => (h.mem _).mp (h'.origin x hx)
  held := by
    have := h.held
    have := h'.held
    rw [length_append]
    omega
  listens hl := h'.listens (h.listens hl)

theorem Feed.draws (h : Feed fq inlets outlets delivered got) : ∃ r fq' inlets',
    fq.recvpipe inlets = .ok (r, fq', inlets') ∧ Draws fq inlets outlets delivered got r.toList fq' inlets' ∧
      (r = none → reading got = none ∧ fq'.active = 0) := by
  obtain ⟨r, fq', inlets', hx, hfeed, hmem, horigin, hnone, hheld⟩ := h.recvpipe
  exact ⟨r, fq', inlets', hx, ⟨hfeed, hmem, fun x hx => horigin x (mem_toList.mp hx), hheld,
    fun hl => (FqT.recvLoop_listens hl h.supplied.wf rfl hx).1⟩, fun hr => ⟨hnone hr, (FqT.recvLoop_held rfl hx).1 hr⟩⟩

theorem Feed.dropRest {n : ℕ} (h : Feed fq inlets outlets delivered got) (hr : reading got ≠ none)
    (hn : fq.held inlets < n) : ∃ frames fq' inlets', ServerT.dropRest n fq inlets = .ok (true, frames, fq', inlets') ∧
      Draws fq inlets outlets delivered got frames fq' inlets' ∧ frames ≠ [] ∧ reading frames = none ∧
      singles true frames = [] := by
  induction n generalizing fq inlets got with
  | zero => exact absurd hn (Nat.not_lt_zero _)
  | succ n ih =>
    obtain ⟨r, fq1, w1, hx, hdraws, hnone⟩ := h.draws
    cases r with
    | none => exact absurd (hnone rfl).1 hr
    | some x =>
      obtain ⟨p, m⟩ := x
      have hlt : fq1.held w1 < n := by
        have := hdraws.held
        rw [toList_some, length_singleton] at this
        omega
      cases hm : m.hasMore with
      | true =>
        have hreading : reading (got ++ [(p, m)]) ≠ none := by
          rw [Intake.reading_snoc, if_pos hm]
          exact some_ne_none p
        obtain ⟨frames, fq2, w2, hx2, hdraws2, hne, hend, hsingles⟩ := ih hdraws.feed hreading hlt
        refine ⟨(p, m) :: frames, fq2, w2, ?_, hdraws.trans hdraws2, cons_ne_nil _ _, ?_, ?_⟩
        · unfold ServerT.dropRest
          rw [hx]
          change (if m.hasMore then _ else _) = _
          rw [if_pos hm, hx2]
          rfl
        · exact (reading_append (l := [(p, m)]) hne).trans hend
        · rw [singles_cons, Bool.true_or, hm]
          exact hsingles
      | false =>
        refine ⟨[(p, m)], fq1, w1, ?_, hdraws, cons_ne_nil _ _, ?_, ?_⟩
        · unfold ServerT.dropRest
          rw [hx]
          change (if m.hasMore then _ else _) = _
          rw [if_neg (by rw [hm]; exact Bool.false_ne_true)]
          rfl
        · simp [reading, hm]
        · rfl

theorem Feed.recvSingle {n : ℕ} (h : Feed fq inlets outlets delivered got) (hr : reading got = none)
    (hn : fq.held inlets < n) : ∃ r frames fq' inlets', ServerT.recvSingle n fq inlets = .ok (r, frames, fq', inlets') ∧
      Draws fq inlets outlets delivered got frames fq' inlets' ∧ reading (got ++ frames) = none ∧
      singles false frames = r.toList ∧ (r = none → fq'.active = 0) := by
  induction n generalizing fq inlets got with
  | zero => exact absurd hn (Nat.not_lt_zero _)
  | succ n ih =>
    obtain ⟨r, fq1, w1, hx, hdraws, hnone⟩ := h.draws
    cases r with
    | none =>
      refine ⟨none, [], fq1, w1, ?_, hdraws, ?_, rfl, fun _ => (hnone rfl).2⟩
      · unfold ServerT.recvSingle
        rw [hx]
        rfl
      · rw [append_nil]
        exact hr
    | some x =>
      obtain ⟨p, m⟩ := x
      have hlt : fq1.held w1 < n := by
        have := hdraws.held
        rw [toList_some, length_singleton] at this
        omega
      cases hm : m.hasMore with
      | false =>
        refine ⟨some (p, m), [(p, m)], fq1, w1, ?_, hdraws, ?_, ?_, fun hc => nomatch hc⟩
        · unfold ServerT.recvSingle
          rw [hx]
          change (if m.hasMore then _ else _) = _
          rw [if_neg (by rw [hm]; exact Bool.false_ne_true)]
          rfl
        · rw [Intake.reading_snoc, if_neg (by rw [hm]; exact Bool.false_ne_true)]
        · rw [singles_cons, if_neg (by rw [hm]; exact Bool.false_ne_true)]
          rfl
      | true =>
        have hreading : reading (got ++ [(p, m)]) ≠ none := by
          rw [Intake.reading_snoc, if_pos hm]
          exact some_ne_none p
        obtain ⟨dropped, fq2, w2, hx2, hdraws2, hne, hend, hdropped⟩ := hdraws.feed.dropRest hreading hlt
        have hbetween := hdraws.trans hdraws2
        have hreading2 : reading (got ++ ((p, m) :: dropped)) = none := by
          rw [reading_append (cons_ne_nil _ _)]
          exact (reading_append (l := [(p, m)]) hne).trans hend
        have hlt2 : fq2.held w2 < n := by
          have := hdraws2.held
          omega
        obtain ⟨r, frames, fq3, w3, hx3, hdraws3, hend3, hsingles, hdry⟩ := ih hbetween.feed hreading2 hlt2
        refine ⟨r, (p, m) :: dropped ++ frames, fq3, w3, ?_, hbetween.trans hdraws3, ?_, ?_, hdry⟩
        · unfold ServerT.recvSingle
          rw [hx]
          change (if m.hasMore then _ else _) = _
          rw [if_pos hm, hx2]
          change (ServerT.recvSingle n fq2 w2 >>= _) = _
          rw [hx3]
          rfl
        · rw [← append_assoc]
          exact hend3
        · rw [singles_append, singles_cons, hm, Bool.false_or, hdropped]
          have hnone : reading ((p, m) :: dropped) = none := (reading_append (l := [(p, m)]) hne).trans hend
          rw [hnone]
          exact hsingles

theorem supplied_skips {r : Rota P} (hs : Rota.Skips FqT.Kept fq.toRota inlets r inlets') (hm : fq.more = false)
    (h : fq.Supplied inlets outlets) : FqT.Supplied { fq with toRota := r } inlets' outlets := by
  obtain ⟨r0, more⟩ := fq
  dsimp only at hs hm
  subst hm
  induction hs with
  | done => exact h
  | skip hc hi _ ih =>
    refine ih ⟨Rota.deactivate_wf h.wf hc, fun q => ?_, nofun, fun q hq => ?_⟩
    · rw [FairQueue.update_pending hi.1]
      exact h.framed q
    · obtain ⟨hq, hne⟩ := (Rota.deactivate_isActive h.wf hc).mp hq
      rw [update_of_ne hne]
      exact h.listening q hq

theorem Feed.hasIn (h : Feed fq inlets outlets delivered got) (hr : reading got = none) : ∃ b fq' inlets',
    fq.hasIn inlets = .ok (b, fq', inlets') ∧ Feed fq' inlets' outlets delivered got ∧ (∀ p, p ∈ fq'.pipes ↔ p ∈ fq.pipes) ∧
      (fq.Listens inlets → fq'.Listens inlets') := by
  obtain ⟨b, r, w, hx, hs, -⟩ := @FqT.hasIn_goes _ _ fq inlets h.supplied.wf
  have hmore : fq.more = false := by
    rw [h.more, hr]
    rfl
  have hkept := FqT.skips_kept hs
  refine ⟨b, _, w, hx, ⟨supplied_skips hs hmore h.supplied, h.more, fun p hp => ?_, h.unmixed, fun p => ?_, fun p hp hopen => ?_⟩,
    fun p => hs.mem, FqT.skips_listens hs h.supplied.wf⟩
  · rw [hr] at hp
    cases hp
  · rw [hkept]
    exact h.stream p
  · rw [hkept]
    exact h.full p (hs.mem.mp hp) hopen

theorem Feed.received_le (h : Feed fq inlets outlets delivered got) (p : P) : received got p <+: delivered p :=
  (prefix_append _ _).trans (h.stream p)

inductive Feed.Change (fq : FqT P) (inlets : P → Inlet) (outlets : P → Outlet) (delivered : P → List Msg)
    (got : List (P × Msg)) (fq' : FqT P) (inlets' : P → Inlet) (outlets' : P → Outlet) (delivered' : P → List Msg) (p : P) :
    Prop where
  | same (hi : (inlets' p).pending = (inlets p).pending) (hd : delivered' p = delivered p)
      (ho : p ∈ fq'.pipes → (outlets' p).self.readable = true → p ∈ fq.pipes ∧ (outlets p).self.readable = true)
  | closed (hi : (inlets' p).pending = []) (hd : delivered' p = delivered p) (ho : (outlets' p).self.readable = false)
  | filled (hd : delivered' p = received got p ++ (inlets' p).pending)

theorem Feed.keep {outlets' : P → Outlet} {delivered' : P → List Msg} (h : Feed fq inlets outlets delivered got)
    (hr : reading got = none) (hs : fq'.Supplied inlets' outlets') (hm : fq'.more = fq.more)
    (hp : ∀ p, Feed.Change fq inlets outlets delivered got fq' inlets' outlets' delivered' p) :
    Feed fq' inlets' outlets' delivered' got := by
  refine ⟨hs, hm.trans h.more, fun p hc => ?_, h.unmixed, fun p => ?_, fun p hmem hopen => ?_⟩
  · rw [hr] at hc
    cases hc
  · cases hp p with
    | same hi hd _ =>
      rw [hi, hd]
      exact h.stream p
    | closed hi hd _ =>
      rw [hi, hd, append_nil]
      exact h.received_le p
    | filled hd => rw [hd]
  · cases hp p with
    | same hi hd ho =>
      rw [hi, hd]
      exact h.full p (ho hmem hopen).1 (ho hmem hopen).2
    | closed _ _ ho => exact nomatch ho.symm.trans hopen
    | filled hd => exact hd.symm

end

def ridCount : ℕ := 2 ^ 32 - 1

def nonzeroRid (n : UInt32) : UInt32 := if n = 0 then n + 1 else n

theorem nonzeroRid_ne (n : UInt32) : nonzeroRid n ≠ 0 := by
  unfold nonzeroRid
  split_ifs with h
  · rw [h]
    decide
  · exact h

theorem nonzeroRid_next {n : UInt32} {k : ℕ} (h : (nonzeroRid n).toNat = k % ridCount + 1) :
    (nonzeroRid (nonzeroRid n + 1)).toNat = (k + 1) % ridCount + 1 := by
  generalize nonzeroRid n = rid at h
  have hadd : (rid + 1).toNat = (rid.toNat + 1) % 2 ^ 32 := UInt32.toNat_add rid 1
  unfold ridCount at *
  by_cases hend : k % (2 ^ 32 - 1) = 2 ^ 32 - 2
  · have hzero : rid + 1 = 0 := UInt32.toNat_inj.mp (by rw [hadd, h, hend]; rfl)
    rw [hzero, show nonzeroRid 0 = 1 from rfl]
    have hone : (1 : UInt32).toNat = 1 := rfl
    omega
  · have hne : rid + 1 ≠ 0 := by
      intro hc
      have hc := congrArg UInt32.toNat hc
      rw [show (0 : UInt32).toNat = 0 from rfl] at hc
      omega
    unfold nonzeroRid
    rw [if_neg hne]
    omega

def Numbered (rids : P → UInt32) (nextRid : UInt32) (seen : Finset P) : Prop :=
  ∃ (base : ℕ) (number : P → ℕ), (∀ p ∈ seen, number p < seen.card ∧ (rids p).toNat = (base + number p) % ridCount + 1) ∧
    (∀ p ∈ seen, ∀ q ∈ seen, number p = number q → p = q) ∧
    (nonzeroRid nextRid).toNat = (base + seen.card) % ridCount + 1

theorem mod_ne {a b c : ℕ} (h : b < c) (hc : c < ridCount) : (a + b) % ridCount ≠ (a + c) % ridCount := by
  unfold ridCount at *
  omega

section

variable {s s' : ServerT P} {rids rids' : P → UInt32} {p : P} {seen : Finset P} {nextRid : UInt32}

theorem xattachPipe_eq : s.xattachPipe rids p = if nonzeroRid s.nextRid ∈ s.outpipes then .error .assertion
    else .ok (⟨s.fq.attach p, s.outpipes.insert (nonzeroRid s.nextRid) ⟨p, true⟩, nonzeroRid s.nextRid + 1⟩,
      update rids p (nonzeroRid s.nextRid)) := by
  unfold ServerT.xattachPipe nonzeroRid
  by_cases h : s.nextRid = 0
  · simp only [h, if_true]
    rfl
  · simp only [h, if_false]

theorem Numbered.attach (h : Numbered rids nextRid seen) (hp : p ∉ seen) :
    Numbered (update rids p (nonzeroRid nextRid)) (nonzeroRid nextRid + 1) (insert p seen) := by
  obtain ⟨base, number, hnumber, hinj, hnext⟩ := h
  have hcard : (insert p seen).card = seen.card + 1 := Finset.card_insert_of_notMem hp
  have hold : ∀ q ∈ seen, update number p seen.card q = number q := fun q hq =>
    update_of_ne (by rintro rfl; exact hp hq) _ _
  have hne : ∀ q ∈ seen, q ≠ p := fun q hq he => hp (he ▸ hq)
  refine ⟨base, update number p seen.card, fun q hq => ?_, fun q hq r hr he => ?_, ?_⟩
  · rw [hcard]
    rcases Finset.mem_insert.mp hq with rfl | hseen
    · rw [update_self, update_self]
      exact ⟨Nat.lt_succ_self _, hnext⟩
    · rw [hold q hseen, update_of_ne (hne q hseen)]
      exact ⟨Nat.lt_succ_of_lt (hnumber q hseen).1, (hnumber q hseen).2⟩
  · rcases Finset.mem_insert.mp hq with rfl | hseen
    · rcases Finset.mem_insert.mp hr with rfl | hr
      · rfl
      · rw [update_self, hold r hr] at he
        exact absurd he.symm (Nat.ne_of_lt (hnumber r hr).1)
    · rcases Finset.mem_insert.mp hr with rfl | hr
      · rw [update_self, hold q hseen] at he
        exact absurd he (Nat.ne_of_lt (hnumber q hseen).1)
      · rw [hold q hseen, hold r hr] at he
        exact hinj q hseen r hr he
  · rw [hcard]
    exact nonzeroRid_next hnext

omit [DecidableEq P] in
theorem Numbered.fresh (h : Numbered rids nextRid seen) (hc : seen.card < ridCount) (hp : p ∈ seen) :
    rids p ≠ nonzeroRid nextRid := by
  obtain ⟨base, number, hnumber, -, hnext⟩ := h
  obtain ⟨hlt, hrid⟩ := hnumber p hp
  intro he
  rw [he, hnext] at hrid
  exact mod_ne hlt hc (Nat.succ.inj hrid).symm

end

structure Sound (s : Server P) : Prop where
  listens : s.socket.fq.Listens s.ends.inlets
  feed : Feed s.socket.fq s.ends.inlets s.ends.outlets s.delivered s.got
  idle : reading s.got = none
  attached : ∀ p, p ∈ s.socket.fq.pipes ↔ p ∈ s.attached
  seen : ∀ p ∈ s.attached, p ∈ s.seen
  origin : ∀ x ∈ s.got, x.1 ∈ s.seen
  returned : s.returned = (singles false s.got).map fun x => (x.2, s.rids x.1)
  directory : Directory s.socket.outpipes s.rids s.attached
  nonzero : ∀ p ∈ s.attached, s.rids p ≠ 0
  numbered : Numbered s.rids s.socket.nextRid s.seen

section

variable {s s' : Server P} {p : P} {frames : List Msg} {op : Op P}

theorem Sound.receives (h : Sound s) : Receives s := ⟨h.returned, h.idle, h.feed.unmixed, h.feed.received_le⟩

theorem Sound.routed (h : Sound s) : Routed s := ⟨h.nonzero, fun _ hp _ hq => h.directory.distinct hp hq⟩

omit [DecidableEq P] in
theorem singles_subset (l : List (P × Msg)) (within : Bool) : ∀ x ∈ singles within l, x ∈ l := by
  induction l generalizing within with
  | nil => exact fun x hx => hx
  | cons y rest ih =>
    intro x hx
    rw [singles_cons] at hx
    split_ifs at hx
    · exact mem_cons_of_mem y (ih _ x hx)
    · rcases mem_cons.mp hx with rfl | hx
      · exact mem_cons_self
      · exact mem_cons_of_mem y (ih _ x hx)

theorem Sound.keep {fq : FqT P} {ends : Ends P} {delivered : P → List Msg} (h : Sound s)
    (hs : fq.Supplied ends.inlets ends.outlets) (hm : fq.more = s.socket.fq.more)
    (hmem : ∀ p, p ∈ fq.pipes ↔ p ∈ s.socket.fq.pipes) (hl : fq.Listens ends.inlets)
    (hp : ∀ p, Feed.Change s.socket.fq s.ends.inlets s.ends.outlets s.delivered s.got fq ends.inlets ends.outlets delivered p) :
    Sound { s with socket := { s.socket with fq := fq }, ends := ends, delivered := delivered } where
  listens := hl
  feed := h.feed.keep h.idle hs hm hp
  idle := h.idle
  attached p := (hmem p).trans (h.attached p)
  seen := h.seen
  origin := h.origin
  returned := h.returned
  directory := h.directory
  nonzero := h.nonzero
  numbered := h.numbered

theorem Sound.attach {self : PipeT} (h : Sound s) (hr : s.Ready (.attach p self frames))
    (hfree : nonzeroRid s.socket.nextRid ∉ s.socket.outpipes) : ∃ s', s.run (.attach p self frames) = .ok s' ∧ Sound s' := by
  obtain ⟨hseen, hopen, hframed⟩ := hr
  have hpfq : p ∉ s.socket.fq.pipes := fun hc => hseen (h.seen p ((h.attached p).mp hc))
  have hfq := FqT.attach_toRota hpfq
  have hne : ∀ q ∈ s.seen, q ≠ p := fun q hq he => hseen (he ▸ hq)
  have hset : s.socket.fq.Supplied ((s.ends.setInlet p ⟨true, frames⟩).setOutlet p ⟨self, Staged.empty⟩).inlets
      ((s.ends.setInlet p ⟨true, frames⟩).setOutlet p ⟨self, Staged.empty⟩).outlets :=
    h.feed.supplied.set hframed (fun _ hc => hpfq hc.1.1) (fun q hne => update_of_ne hne _ _)
      fun hc => absurd hc.1 hpfq
  have hinlet : ((s.ends.setInlet p ⟨true, frames⟩).setOutlet p ⟨self, Staged.empty⟩).inlets p = ⟨true, frames⟩ :=
    update_self p _ _
  have hsup := hset.attach hpfq (Or.inl (congrArg Inlet.inActive hinlet))
  have hmem : ∀ q, q ∈ (s.socket.fq.attach p).pipes ↔ q ∈ insert p s.attached := by
    intro q
    rw [hfq, Rota.attach_mem, Finset.mem_insert, h.attached, or_comm]
  have hl : (s.socket.fq.attach p).Listens ((s.ends.setInlet p ⟨true, frames⟩).setOutlet p ⟨self, Staged.empty⟩).inlets :=
    FqT.attach_listens h.feed.supplied.wf h.listens hpfq
  refine ⟨_, congrArg (Except.map _) (xattachPipe_eq.trans (if_neg hfree)), ?_⟩
  refine ⟨hl, h.feed.keep h.idle hsup rfl fun q => ?_, h.idle, hmem, ?_, fun x hx => Finset.mem_insert_of_mem (h.origin x hx), ?_,
    h.directory.insert (fun hc => hseen (h.seen p hc)) hfree, ?_, h.numbered.attach hseen⟩
  · rcases eq_or_ne q p with rfl | hq
    · refine .filled ?_
      have hnone : received s.got q = [] := Intake.received_other fun x hx => hne _ (h.origin x hx)
      rw [hnone, hinlet]
      exact update_self q _ _
    · refine .same (congrArg Inlet.pending (update_of_ne hq _ _)) (update_of_ne hq _ _) fun hmemq hopenq => ?_
      rw [show ((s.ends.setInlet p ⟨true, frames⟩).setOutlet p ⟨self, Staged.empty⟩).outlets q = s.ends.outlets q from
        update_of_ne hq _ _] at hopenq
      refine ⟨?_, hopenq⟩
      rw [hfq] at hmemq
      exact (Rota.attach_mem.mp hmemq).resolve_right hq
  · intro q hq
    exact (Finset.mem_insert.mp hq).elim (fun he => he ▸ Finset.mem_insert_self _ _)
      fun hq => Finset.mem_insert_of_mem (h.seen q hq)
  · refine h.returned.trans (map_congr_left fun x hx => ?_)
    exact congrArg (Prod.mk x.2) (update_of_ne (hne x.1 (h.origin x (singles_subset _ _ x hx))) _ _).symm
  · intro q hq
    dsimp only
    rcases Finset.mem_insert.mp hq with rfl | hq
    · rw [update_self]
      exact nonzeroRid_ne _
    · rw [update_of_ne (hne q (h.seen q hq))]
      exact h.nonzero q hq

theorem Sound.pipeTerminated (h : Sound s) (hp : p ∈ s.attached) : ∃ s', s.run (.pipeTerminated p) = .ok s' ∧ Sound s' := by
  have hpfq : p ∈ s.socket.fq.pipes := (h.attached p).mpr hp
  have hmore : s.socket.fq.more = true → False := by
    rw [h.feed.more, h.idle]
    exact Bool.false_ne_true
  have hmem : ∀ q, q ∈ (s.socket.fq.pipeTerminated p).pipes ↔ q ∈ s.attached.erase p := by
    intro q
    rw [Finset.mem_erase, ← h.attached, and_comm]
    exact Rota.pipeTerminated_mem hpfq
  have hcuts : Ends.Cuts s.ends (s.ends.setOutlet p (s.ends.outlets p).closed) := .setOutlet fun _ => rfl
  have hsup := (h.feed.supplied.pipeTerminated hpfq fun hm => (hmore hm).elim).cuts hcuts fun hm => (hmore hm).elim
  refine ⟨_, congrArg (Except.map _) (if_pos (h.directory.mem hp)), ?_⟩
  have hl : (s.socket.fq.pipeTerminated p).Listens s.ends.inlets := fun q hq hi => by
    obtain ⟨hq, hne⟩ := (Rota.pipeTerminated_mem hpfq).mp hq
    exact (Rota.pipeTerminated_isActive h.feed.supplied.wf hpfq).mpr ⟨h.listens q hq hi, hne⟩
  refine ⟨hl, h.feed.keep h.idle hsup rfl fun q => .same rfl rfl fun hq hopen => ⟨?_, ?_⟩, h.idle, hmem,
    fun q hq => h.seen q (Finset.mem_of_mem_erase hq), h.origin, h.returned, h.directory.erase hp,
    fun q hq => h.nonzero q (Finset.mem_of_mem_erase hq), h.numbered⟩
  · exact (h.attached q).mpr (Finset.mem_of_mem_erase ((hmem q).mp hq))
  · rwa [show (s.ends.setOutlet p (s.ends.outlets p).closed).outlets q = s.ends.outlets q from
      update_of_ne (Finset.ne_of_mem_erase ((hmem q).mp hq)) _ _] at hopen

theorem Sound.deliver (h : Sound s) (hr : s.Ready (.deliver p frames)) : ∃ s', s.run (.deliver p frames) = .ok s' ∧ Sound s' := by
  obtain ⟨hp, hopen, hframed⟩ := hr
  refine ⟨_, rfl, h.keep (h.feed.supplied.grow hframed fun ha => ha) rfl (fun _ => Iff.rfl)
    (h.listens.narrow fun q hi => ?_) fun q => ?_⟩
  · rcases eq_or_ne q p with rfl | hne
    · simpa only [Ends.setInlet, update_self] using hi
    · simpa only [Ends.setInlet, update_of_ne hne] using hi
  rcases eq_or_ne q p with rfl | hq
  · refine .filled ?_
    rw [show (s.ends.setInlet q ⟨(s.ends.inlets q).inActive, (s.ends.inlets q).frames ++ frames⟩).inlets q =
      ⟨(s.ends.inlets q).inActive, (s.ends.inlets q).frames ++ frames⟩ from update_self q _ _,
      update_self, ← h.feed.full q ((h.attached q).mpr hp) hopen, append_assoc]
    exact congrArg (received s.got q ++ ·) (filter_append ..).symm
  · exact .same (congrArg Inlet.pending (update_of_ne hq _ _)) (update_of_ne hq _ _) fun hm ho => ⟨hm, ho⟩

theorem Sound.drift {o : Outlet} (h : Sound s) (hr : s.Ready (.drift p o)) : ∃ s', s.run (.drift p o) = .ok s' ∧ Sound s' := by
  have hcuts : Ends.Cuts s.ends ((if o.self.readable then s.ends else s.ends.setInlet p ⟨false, []⟩).setOutlet p o) := by
    split_ifs with hread
    · exact .setOutlet fun hc => nomatch hc.symm.trans (hr hread)
    · exact .close (Bool.eq_false_of_not_eq_true hread)
  have hsup := h.feed.supplied.cuts hcuts fun hm => by
    rw [h.feed.more, h.idle] at hm
    exact nomatch hm
  refine ⟨_, rfl, h.keep hsup rfl (fun _ => Iff.rfl) (h.listens.narrow fun q hi => ?_) fun q => ?_⟩
  · rcases hcuts.inlets q with he | ⟨he, -⟩
    · rwa [he] at hi
    · rw [he] at hi
      cases hi
  rcases hcuts.inlets q with hi | ⟨hi, hclosed⟩
  · refine .same (congrArg Inlet.pending hi) rfl fun hm hopen => ⟨hm, ?_⟩
    by_contra hc
    exact nomatch (hcuts.closed q (Bool.eq_false_of_not_eq_true hc)).symm.trans hopen
  · exact .closed (congrArg Inlet.pending hi) rfl hclosed

theorem Sound.readActivated (h : Sound s) (hr : s.Ready (.readActivated p)) :
    ∃ s', s.run (.readActivated p) = .ok s' ∧ Sound s' := by
  obtain ⟨hp, hi, hopen⟩ := hr
  obtain ⟨hlt, hsup⟩ := h.feed.supplied.activated ((h.attached p).mpr hp) hi hopen
  have hidle : ¬ s.socket.fq.IsActive p := fun ha => (h.feed.supplied.listening p ha).elim
    (fun hc => nomatch hi.symm.trans hc) fun hc => nomatch hopen.symm.trans hc
  have hl : (s.socket.fq.activated p).Listens (s.ends.setInlet p ⟨true, (s.ends.inlets p).frames⟩).inlets :=
    FqT.activated_listens h.listens ((h.attached p).mpr hp) hidle
  refine ⟨_, congrArg (Except.map _) (if_pos hlt), h.keep hsup rfl (fun q => Rota.activated_mem) hl fun q => ?_⟩
  refine .same ?_ rfl fun hm ho => ⟨Rota.activated_mem.mp hm, ho⟩
  rcases eq_or_ne q p with rfl | hq
  · exact (congrArg Inlet.pending (update_self q ⟨true, (s.ends.inlets q).frames⟩ s.ends.inlets)).trans rfl
  · exact congrArg Inlet.pending (update_of_ne hq _ _)

theorem Sound.recvs (h : Sound s) : ∃ r frames fq inlets,
    s.socket.xrecv s.ends.inlets s.rids = .ok (r.map fun x => (x.2, s.rids x.1), frames, { s.socket with fq := fq }, inlets) ∧
    Draws s.socket.fq s.ends.inlets s.ends.outlets s.delivered s.got frames fq inlets ∧ reading (s.got ++ frames) = none ∧
    singles false frames = r.toList ∧ (r = none → fq.active = 0) := by
  obtain ⟨r, frames, fq, inlets, hx, hdraws⟩ := h.feed.recvSingle h.idle (Nat.lt_succ_self _)
  refine ⟨r, frames, fq, inlets, ?_, hdraws⟩
  unfold ServerT.xrecv
  rw [hx]
  rfl

theorem Sound.xrecv (h : Sound s) : ∃ s', s.run .xrecv = .ok s' ∧ Sound s' := by
  obtain ⟨r, frames, fq, inlets, hrun, hdraws, hidle, hsingles, -⟩ := h.recvs
  refine ⟨{ s with
    socket := { s.socket with fq := fq }
    ends := { s.ends with inlets := inlets }
    got := s.got ++ frames
    returned := s.returned ++ (r.map fun x => (x.2, s.rids x.1)).toList }, ?_, ?_⟩
  · change (s.socket.xrecv s.ends.inlets s.rids >>= _) = _
    rw [hrun]
    rfl
  · refine ⟨hdraws.listens h.listens, hdraws.feed, hidle, fun q => (hdraws.mem q).trans (h.attached q), h.seen, fun x hx => ?_,
      ?_, h.directory, h.nonzero, h.numbered⟩
    · exact (mem_append.mp hx).elim (h.origin x) fun hx => h.seen _ ((h.attached _).mp (hdraws.origin x hx))
    · have hbegun : (if s.got = [] then false else (reading s.got).isSome) = false := by
        rw [h.idle]
        split_ifs <;> rfl
      rw [singles_append, hbegun, hsingles, map_append, ← h.returned]
      cases r <;> rfl

theorem Sound.xhasIn (h : Sound s) : ∃ s', s.run .xhasIn = .ok s' ∧ Sound s' := by
  obtain ⟨b, fq, inlets, hx, hfeed, hmem, hl⟩ := h.feed.hasIn h.idle
  have hrun : s.socket.xhasIn s.ends.inlets = .ok (b, { s.socket with fq := fq }, inlets) := by
    unfold ServerT.xhasIn
    rw [hx]
    rfl
  refine ⟨{ s with socket := { s.socket with fq := fq }, ends := { s.ends with inlets := inlets } }, ?_, ?_⟩
  · change (s.socket.xhasIn s.ends.inlets >>= _) = _
    rw [hrun]
    rfl
  · exact ⟨hl h.listens, hfeed, h.idle, fun q => (hmem q).trans (h.attached q), h.seen, h.origin, h.returned, h.directory, h.nonzero,
      h.numbered⟩

theorem Sound.free (h : Sound s) (hc : s.seen.card < ridCount) : nonzeroRid s.socket.nextRid ∉ s.socket.outpipes := by
  intro hmem
  obtain ⟨x, hx⟩ := isSome_iff_exists.mp (AList.lookup_isSome.mpr hmem)
  obtain ⟨hp, hrid⟩ := h.directory.listed _ x hx
  exact h.numbered.fresh hc (h.seen _ hp) hrid

theorem Sound.goes (h : Sound s) (hr : s.Ready op) (hc : s.seen.card < ridCount) : ∃ s', s.run op = .ok s' ∧ Sound s' := by
  cases op with
  | attach p self frames => exact h.attach hr (h.free hc)
  | deliver p frames => exact h.deliver hr
  | drift p o => exact h.drift hr
  | readActivated p => exact h.readActivated hr
  | pipeTerminated p => exact h.pipeTerminated hr
  | xrecv => exact h.xrecv
  | xhasIn => exact h.xhasIn

theorem Sound.step (h : Sound s) (hs : Step s op s') : Sound s' := by
  obtain ⟨hr, hx⟩ := hs
  have hgoes : ∃ s', s.run op = .ok s' ∧ Sound s' := by
    cases op with
    | attach p self frames =>
      -- the assertion has held
      refine h.attach hr fun hmem => ?_
      obtain ⟨x, hattach, -⟩ := map_ok hx
      rw [xattachPipe_eq, if_pos hmem] at hattach
      cases hattach
    | deliver p frames => exact h.deliver hr
    | drift p o => exact h.drift hr
    | readActivated p => exact h.readActivated hr
    | pipeTerminated p => exact h.pipeTerminated hr
    | xrecv => exact h.xrecv
    | xhasIn => exact h.xhasIn
  obtain ⟨s1, hx1, h1⟩ := hgoes
  cases hx1.symm.trans hx
  exact h1

theorem new_sound (nextRid : UInt32) : Sound (new nextRid : Server P) where
  listens p hp := absurd hp not_mem_nil
  feed := ⟨FqT.new_supplied, rfl, (by intro p hp; cases hp), isChain_nil, fun p => prefix_rfl, (by intro p hp; cases hp)⟩
  idle := rfl
  attached p := iff_of_false not_mem_nil (Finset.notMem_empty p)
  seen p hp := hp
  origin x hx := nomatch hx
  returned := rfl
  directory := .empty
  nonzero p hp := absurd hp (Finset.notMem_empty p)
  numbered := by
    refine ⟨(nonzeroRid nextRid).toNat - 1, fun _ => 0, fun p hp => absurd hp (Finset.notMem_empty p),
      fun p hp => absurd hp (Finset.notMem_empty p), ?_⟩
    have hlt := UInt32.toNat_lt (nonzeroRid nextRid)
    have hpos : (nonzeroRid nextRid).toNat ≠ 0 := fun hc => nonzeroRid_ne nextRid (UInt32.toNat_inj.mp hc)
    change (nonzeroRid nextRid).toNat = ((nonzeroRid nextRid).toNat - 1 + 0) % ridCount + 1
    rw [Nat.mod_eq_of_lt (by unfold ridCount; omega)]
    omega

theorem run_sound {ops : List (Op P)} (h : Run Start Step ops s) : Sound s := by
  refine h.invariant Sound (fun s hs => ?_) fun _ _ _ hi hs => hi.step hs
  obtain ⟨nextRid, rfl⟩ := hs
  exact new_sound nextRid

/-- The next call of `xrecv` returns EAGAIN only after all pipes have run dry. -/
def Dry (s : Server P) : Prop := ∃ got frames t inlets, s.socket.xrecv s.ends.inlets s.rids = .ok (got, frames, t, inlets) ∧
  (got = none → ∀ p ∈ t.fq.pipes, (inlets p).inActive = false)

theorem Sound.dry (h : Sound s) : Dry s := by
  obtain ⟨r, frames, fq, inlets, hrun, hdraws, -, -, hdry⟩ := h.recvs
  refine ⟨_, _, _, _, hrun, fun hr p hp => ?_⟩
  by_contra hc
  have hactive := (hdraws.listens h.listens p hp (by simpa using hc)).2
  rw [hdry (by simpa using hr)] at hactive
  exact Nat.not_lt_zero _ hactive

/-- A server returns the messages of one frame, each with the routing id of the pipe it has come from, and EAGAIN only if all
pipes are dry. Routing ids are not 0 and tell the pipes apart; no assertion fails until 2^32 - 1 pipes have been attached. -/
theorem singles_received {ops : List (Op P)} (h : Run Start Step ops s) :
    Receives s ∧ Dry s ∧ Routed s ∧ (s.seen.card < 2 ^ 32 - 1 → ∀ op, s.Ready op → ∃ s', s.run op = .ok s') := by
  have hs := run_sound h
  refine ⟨hs.receives, hs.dry, hs.routed, fun hc op hr => ?_⟩
  obtain ⟨s', hx, -⟩ := hs.goes hr hc
  exact ⟨s', hx⟩

end

/-- Two peers send a message of one frame and one of two frames, and the counter wraps. -/
def twoClients : List (Op ℕ) :=
  [.attach 0 (endOf 0) [frameMore 1, frame 2, frame 3], .attach 1 (endOf 0) [frame 4], .xrecv, .xrecv, .xrecv]

theorem singles_received_two : ∃ s : Server ℕ, Run Start Step twoClients s ∧ s.returned = [(frame 4, 1), (frame 3, 4294967295)] ∧
    Receives s ∧ Dry s ∧ Routed s ∧ (s.seen.card < 2 ^ 32 - 1 → ∀ op, s.Ready op → ∃ s', s.run op = .ok s') :=
  exists_run_free (P := fun s => s.returned = [(frame 4, 1), (frame 3, 4294967295)])
    (⟨4294967295, rfl⟩ : Start (new 4294967295)) (by decide) fun _ hs hret => ⟨hret, singles_received hs⟩

end Server

end Zmq
