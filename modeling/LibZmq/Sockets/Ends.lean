import LibZmq.Pipe.Link

/-! What a socket sees of its end of a pipe: an inlet it reads from, an outlet it
writes to. The calls on them are those of `pipe_t`. -/

namespace Zmq

open Option Bool Prod PipeState

open Pair PipeT

/-- `frames` is what the end can still read, up to the delimiter. -/
structure Inlet where
  inActive : Bool
  frames : List Msg
deriving DecidableEq

namespace Inlet

def of (p : PipeT) (q : Staged Msg) : Inlet where
  inActive := p.inActive && p.readable
  frames := if p.readable then q.ready.takeWhile fun m => !m.isDelimiter else []

def checkRead (i : Inlet) : Bool × Inlet :=
  if !i.inActive then (false, i)
  else match i.frames with
    | [] => (false, { i with inActive := false })
    | _ :: _ => (true, i)

/-- Credentials are kept by the pipe. -/
def read (i : Inlet) : Option Msg × Inlet :=
  if !i.inActive then (none, i)
  else match i.frames.dropWhile Msg.isCredential with
    | [] => (none, ⟨false, []⟩)
    | m :: rest => (some m, { i with frames := rest })

def pending (i : Inlet) : List Msg := i.frames.filter fun m => !m.isCredential

variable {i : Inlet}

theorem pending_eq : i.pending = (i.frames.dropWhile Msg.isCredential).filter fun m => !m.isCredential := by
  unfold pending
  induction i.frames with
  | nil => rfl
  | cons m rest ih =>
    cases hm : m.isCredential with
    | true => rw [List.dropWhile_cons_of_pos hm, List.filter_cons_of_neg (by simp [hm]), ih]
    | false => rw [List.dropWhile_cons_of_neg (by simp [hm])]

theorem read_idle (ha : i.inActive = false) : i.read = (none, i) := by simp [read, ha]

theorem read_empty (ha : i.inActive = true) (hf : i.frames.dropWhile Msg.isCredential = []) :
    i.read = (none, ⟨false, []⟩) := by simp [read, ha, hf]

theorem read_cons {m : Msg} {rest : List Msg} (ha : i.inActive = true) (hf : i.frames.dropWhile Msg.isCredential = m :: rest) :
    i.read = (some m, ⟨true, rest⟩) := by simp [read, ha, hf]

theorem read_cases (i : Inlet) :
    (i.inActive = false ∧ i.read = (none, i)) ∨
    (i.inActive = true ∧ i.pending = [] ∧ i.read = (none, ⟨false, []⟩)) ∨
    ∃ m rest, i.inActive = true ∧ i.pending = m :: Inlet.pending ⟨true, rest⟩ ∧ i.read = (some m, ⟨true, rest⟩) := by
  cases ha : i.inActive with
  | false => exact .inl ⟨rfl, read_idle ha⟩
  | true =>
    right
    rw [pending_eq]
    cases hf : i.frames.dropWhile Msg.isCredential with
    | nil => exact .inl ⟨rfl, rfl, read_empty ha hf⟩
    | cons m rest =>
      have hm : m.isCredential = false := by
        have := List.head?_dropWhile_not Msg.isCredential i.frames
        simpa [hf] using this
      exact .inr ⟨m, rest, rfl, List.filter_cons_of_pos (by simp [hm]), read_cons ha hf⟩

theorem read_none {i' : Inlet} (h : i.read = (none, i')) : i'.pending = i.pending := by
  rcases i.read_cases with ⟨-, he⟩ | ⟨-, hp, he⟩ | ⟨m, rest, -, -, he⟩
  · rw [h] at he
    rw [(Prod.mk.inj he).2]
  · rw [h] at he
    rw [(Prod.mk.inj he).2, hp]
    rfl
  · rw [h] at he
    exact absurd (Prod.mk.inj he).1 (Option.some_ne_none m).symm

theorem read_none_inactive {i' : Inlet} (h : i.read = (none, i')) : i'.inActive = false ∧ i'.frames.length ≤ i.frames.length := by
  rcases i.read_cases with ⟨ha, hr⟩ | ⟨-, -, hr⟩ | ⟨m, rest, -, -, hr⟩
  · rw [h] at hr
    rw [(Prod.mk.inj hr).2]
    exact ⟨ha, Nat.le_refl _⟩
  · rw [h] at hr
    rw [(Prod.mk.inj hr).2]
    exact ⟨rfl, Nat.zero_le _⟩
  · rw [h] at hr
    exact absurd (Prod.mk.inj hr).1 (Option.some_ne_none m).symm

theorem read_some {i' : Inlet} {m : Msg} (h : i.read = (some m, i')) : i.pending = m :: i'.pending ∧ i'.inActive = true := by
  rcases i.read_cases with ⟨-, he⟩ | ⟨-, -, he⟩ | ⟨m', rest, -, hp, he⟩
  · rw [h] at he
    exact absurd (Prod.mk.inj he).1 (Option.some_ne_none m)
  · rw [h] at he
    exact absurd (Prod.mk.inj he).1 (Option.some_ne_none m)
  · rw [h] at he
    obtain ⟨hm, rfl⟩ := Prod.mk.inj he
    rw [some.inj hm]
    exact ⟨hp, rfl⟩

theorem read_isSome (ha : i.inActive = true) (hp : i.pending ≠ []) : i.read.1.isSome = true := by
  rcases i.read_cases with ⟨h, -⟩ | ⟨-, h, -⟩ | ⟨m, rest, -, -, he⟩
  · exact nomatch ha.symm.trans h
  · exact absurd h hp
  · rw [he]
    rfl

theorem checkRead_cases (i : Inlet) :
    (i.inActive = true ∧ i.checkRead = (true, i)) ∨ i.checkRead = (false, { i with inActive := false }) := by
  obtain ⟨a, l⟩ := i
  cases a with
  | false => exact .inr rfl
  | true =>
    cases l with
    | nil => exact .inr rfl
    | cons m rest => exact .inl ⟨rfl, rfl⟩

end Inlet

namespace Pair.Change

def inq : Change → Staged Msg → Staged Msg
  | .inbound q, _ => q
  | _, i => i

def outq : Change → Staged Msg → Staged Msg
  | .outbound q, _ => q
  | _, o => o

end Pair.Change

variable {p p' : PipeT} {i o : Staged Msg} {nx : ℕ} {r : Res} {c : Change} {sent : List Cmd}

/-- The end and the queue it writes to. -/
structure Outlet where
  self : PipeT
  out : Staged Msg
deriving DecidableEq

namespace Outlet

def checkWrite (o : Outlet) : Bool × Outlet :=
  (o.self.checkWrite.1, { o with self := o.self.checkWrite.2 })

def refuse (o : Outlet) : Outlet := { o with self := o.self.checkWrite.2 }

def accept (o : Outlet) (m : Msg) : Outlet where
  self := { o.self with msgsWritten := if counted m then o.self.msgsWritten + 1 else o.self.msgsWritten }
  out := o.out.write m m.hasMore

def write (o : Outlet) (m : Msg) : Bool × Outlet :=
  if !o.self.checkWrite.1 then (false, o.refuse) else (true, o.accept m)

def rollback (o : Outlet) : Outlet :=
  if o.self.outpipe = none then o else { o with out := { o.out with unfinished := [] } }

def flush (o : Outlet) : Outlet :=
  if o.self.state = .termAckSent ∨ o.self.outpipe = none then o else { o with out := o.out.flush.2 }

/-- The complete frames, the delimiter apart. -/
def written (o : Outlet) : List Msg := (o.out.ready ++ o.out.complete).filter fun m => !m.isDelimiter

/-- The part of a message that the end holds until the message is complete. -/
def part (o : Outlet) : List Msg := if o.self.outpipe = none then [] else o.out.unfinished

/-- An end whose peer is gone, or that has been deallocated. -/
def closed (o : Outlet) : Outlet :=
  { o with self := { o.self with outpipe := none, outActive := false, state := .termAckSent } }

structure Fades (o o' : Outlet) : Prop where
  written : o'.written = o.written
  part : o'.part = o.part ∨ o'.part = [] ∧ o'.self.state ≠ .active
  closed : o.self.state ≠ .active → o'.self.state ≠ .active
  linked : o.self.outpipe ≠ none → o'.self.outpipe ≠ none ∨ o'.self.state ≠ .active

/-- What happens to the end while its socket is not writing. -/
structure Drifts (o o' : Outlet) : Prop extends Fades o o' where
  outActive : o'.self.outActive = true → o.self.outActive = true
  inactive : o.self.outActive = true → o'.self.outActive = true ∨ o'.self.state ≠ .active

instance (o o' : Outlet) : Decidable (Drifts o o') :=
  decidable_of_iff ((o'.written = o.written ∧ (o'.part = o.part ∨ o'.part = [] ∧ o'.self.state ≠ .active)) ∧
      (o.self.state ≠ .active → o'.self.state ≠ .active) ∧ (o'.self.outActive = true → o.self.outActive = true) ∧
      (o.self.outActive = true → o'.self.outActive = true ∨ o'.self.state ≠ .active) ∧
      (o.self.outpipe ≠ none → o'.self.outpipe ≠ none ∨ o'.self.state ≠ .active))
    ⟨fun ⟨⟨h1, h2⟩, h3, h4, h5, h6⟩ => ⟨⟨h1, h2, h3, h6⟩, h4, h5⟩, fun ⟨⟨h1, h2, h3, h6⟩, h4, h5⟩ => ⟨⟨h1, h2⟩, h3, h4, h5, h6⟩⟩

variable {o : Outlet} {m : Msg}

theorem write_refused (h : o.self.checkWrite.1 = false) : o.write m = (false, o.refuse) :=
  if_pos (by rw [h]; rfl)

theorem write_done (h : o.self.checkWrite.1 = true) : o.write m = (true, o.accept m) :=
  if_neg (by rw [h]; exact false_ne_true)

theorem write_false {o' : Outlet} (h : o.write m = (false, o')) : o.self.checkWrite.1 = false ∧ o' = o.refuse := by
  cases hw : o.self.checkWrite.1 with
  | false => exact ⟨rfl, (Prod.mk.inj (h.symm.trans (write_refused hw))).2⟩
  | true => exact absurd (Prod.mk.inj (h.symm.trans (write_done hw))).1 Bool.noConfusion

theorem write_true {o' : Outlet} (h : o.write m = (true, o')) : o.self.checkWrite.1 = true ∧ o' = o.accept m := by
  cases hw : o.self.checkWrite.1 with
  | false => exact absurd (Prod.mk.inj (h.symm.trans (write_refused hw))).1 Bool.noConfusion
  | true => exact ⟨rfl, (Prod.mk.inj (h.symm.trans (write_done hw))).2⟩

theorem checkWrite_true (h : o.self.checkWrite.1 = true) :
    o.self.outActive = true ∧ o.self.state = .active ∧ o.checkWrite = (true, o) := by
  have hw := (Pair.checkWrite_cases o.self).resolve_right (by rw [h]; exact Bool.noConfusion)
  rw [Pair.checkWrite_fst] at h
  simp only [and_eq_true, beq_iff_eq] at h
  refine ⟨h.1.1, h.1.2, ?_⟩
  unfold checkWrite
  rw [hw]

@[simp] theorem refuse_state : o.refuse.self.state = o.self.state := by simp [refuse]

@[simp] theorem refuse_outpipe : o.refuse.self.outpipe = o.self.outpipe := by simp [refuse]

@[simp] theorem refuse_out : o.refuse.out = o.out := rfl

@[simp] theorem refuse_part : o.refuse.part = o.part := by simp [part]

@[simp] theorem refuse_written : o.refuse.written = o.written := rfl

theorem refuse_fades : Fades o o.refuse where
  written := refuse_written
  part := .inl refuse_part
  closed h := by rwa [refuse_state]
  linked h := .inl (by rwa [refuse_outpipe])

theorem closed_fades : Fades o o.closed where
  written := rfl
  part := .inr ⟨if_pos rfl, noConfusion⟩
  closed _ := noConfusion
  linked _ := .inr noConfusion

theorem refuse_refuses (h : o.self.checkWrite.1 = false) : o.refuse.self.outActive = false ∨ o.refuse.self.state ≠ .active := by
  simp only [refuse, Pair.checkWrite_snd]
  cases hs : (o.self.state == .active) with
  | false => exact .inr (by simpa using hs)
  | true =>
    left
    have hs : o.self.state = .active := by simpa using hs
    cases ha : o.self.outActive with
    | false => rfl
    | true => simpa [ha, hs] using h

@[simp] theorem accept_state : (o.accept m).self.state = o.self.state := rfl

@[simp] theorem accept_outpipe : (o.accept m).self.outpipe = o.self.outpipe := rfl

@[simp] theorem flush_self : o.flush.self = o.self := by
  unfold flush
  split_ifs <;> rfl

@[simp] theorem rollback_self : o.rollback.self = o.self := by
  unfold rollback
  split_ifs <;> rfl

@[simp] theorem flush_part : o.flush.part = o.part := by
  unfold part
  rw [flush_self, flush]
  split_ifs
  · rfl
  · rfl
  · exact Link.flush_unfinished

@[simp] theorem flush_written : o.flush.written = o.written := by
  unfold written flush
  split_ifs
  · rfl
  · unfold Staged.flush Staged.publish
    split_ifs <;> simp

@[simp] theorem rollback_part : o.rollback.part = [] := by
  unfold part
  rw [rollback]
  split_ifs <;> rfl

@[simp] theorem rollback_written : o.rollback.written = o.written := by
  unfold rollback
  split_ifs <;> rfl

theorem accept_more (hm : m.hasMore = true) (ho : o.self.outpipe ≠ none) :
    (o.accept m).part = o.part ++ [m] ∧ (o.accept m).written = o.written := by
  simp [part, written, accept, ho, hm, Staged.write]

theorem accept_last (hm : m.hasMore = false) (hd : m.isDelimiter = false) (hp : ∀ x ∈ o.part, x.isDelimiter = false)
    (ho : o.self.outpipe ≠ none) : (o.accept m).part = [] ∧ (o.accept m).written = o.written ++ o.part ++ [m] := by
  have hpart : o.part = o.out.unfinished := if_neg ho
  rw [hpart] at hp ⊢
  have hf : o.out.unfinished.filter (fun x => !x.isDelimiter) = o.out.unfinished :=
    List.filter_eq_self.mpr fun x hx => by simp [hp x hx]
  refine ⟨by simp [part, accept, ho, hm, Staged.write], ?_⟩
  simp [written, accept, hm, Staged.write, hd, hf]

end Outlet

theorem drifts_of_keep (hw : p'.outActive = p.outActive ∨ p'.outActive = false ∧ p'.state ≠ .active)
    (ho : p'.outpipe = p.outpipe ∨ p'.outpipe = none ∧ p'.state ≠ .active)
    (hs : p'.state = p.state ∨ p'.state ≠ .active) : Outlet.Drifts ⟨p, o⟩ ⟨p', o⟩ where
  written := rfl
  part := by
    rcases ho with h | ⟨h, hs⟩
    · exact .inl (by simp [Outlet.part, h])
    · exact .inr ⟨by simp [Outlet.part, h], hs⟩
  closed := by
    intro h
    rcases hs with hs | hs
    · exact hs ▸ h
    · exact hs
  outActive h := by
    rcases hw with hw | ⟨hw, -⟩
    · exact hw ▸ h
    · exact nomatch hw.symm.trans h
  inactive h := hw.imp (fun hw => hw.trans h) And.right
  linked h := ho.imp (fun (ho : p'.outpipe = p.outpipe) => ho ▸ h) And.right

theorem drifts_of_delimit (hs : p'.state ≠ .active) (hw : p'.outActive = false) :
    Outlet.Drifts ⟨p, o⟩ ⟨p', (delimit o).flush.2⟩ where
  written := by
    have hc : (delimit o).complete = o.complete ++ [Msg.initDelimiter] := by simp [delimit, Staged.write]
    have hr : (delimit o).ready = o.ready := rfl
    simp [Outlet.written, Staged.flush, Staged.publish, hc, hr]
  part := by
    refine .inr ⟨?_, hs⟩
    rw [Outlet.part]
    split_ifs
    · rfl
    · rw [Link.flush_unfinished]
      rfl
  closed _ := hs
  outActive h := nomatch hw.symm.trans h
  inactive _ := .inr hs
  linked _ := .inr hs

end Zmq
