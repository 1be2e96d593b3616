import LibZmq.Run
import LibZmq.Ypipe.Refine

/-! One writer and one reader thread on a `ypipe_t`. The threads meet only at
`c`, so a step is the part of a call that makes one access to it: every call is
one step but a `flush` whose compare-and-swap fails, which takes a second one. -/

namespace Zmq

universe u

namespace YPipe

variable {T : Type u}

/-- A step with what it returned. `flushCas none` has not returned yet, and the
`flushSet` that follows it returns false. -/
inductive Event (T : Type u) where
  | write (value : T) (incomplete : Bool)
  | unwrite (rc : Option T)
  | flushCas (rc : Option Bool)
  | flushSet
  | checkRead (rc : Bool)
  | probe (fn : T → Bool) (rc : Bool)
  | read (rc : Option T)

structure Shared (T : Type u) where
  pipe : YPipe T
  /-- the writer is between the two steps of a `flush` -/
  flushing : Bool

/-- What the events alone say has happened. -/
structure History (T : Type u) where
  flushed : List T
  complete : List T
  unfinished : List T
  read : List T
  /-- some `check_read` has failed since the last `flush` that had items -/
  missed : Bool
  /-- some `check_read` has failed since the last `flush` that returned false -/
  unsignalled : Bool

def History.next (h : History T) : Event T → History T
  | .write v true => { h with unfinished := h.unfinished ++ [v] }
  | .write v false =>
    { h with complete := h.complete ++ h.unfinished ++ [v], unfinished := [] }
  | .unwrite (some _) => { h with unfinished := h.unfinished.dropLast }
  | .unwrite none => h
  | .flushCas (some _) =>
    if h.complete = [] then h
    else { h with flushed := h.flushed ++ h.complete, complete := [], missed := false }
  | .flushCas none => h
  | .flushSet =>
    { h with flushed := h.flushed ++ h.complete, complete := [], missed := false, unsignalled := false }
  | .checkRead true => h
  | .checkRead false => { h with missed := true, unsignalled := true }
  | .probe _ _ => h
  | .read (some v) => { h with read := h.read ++ [v] }
  | .read none => { h with missed := true, unsignalled := true }

def history (evs : List (Event T)) : History T :=
  evs.foldl History.next ⟨[], [], [], [], false, false⟩

theorem history_snoc (evs : List (Event T)) (e : Event T) : history (evs ++ [e]) = (history evs).next e := by
  simp [history, List.foldl_append]

structure Agrees (h : History T) (s : Shared T) : Prop where
  wf : s.pipe.Wf
  flushed : h.flushed = h.read ++ s.pipe.view.ready
  complete : h.complete = s.pipe.view.complete
  unfinished : h.unfinished = s.pipe.view.unfinished
  missed : h.missed = s.pipe.view.asleep
  unsignalled : h.unsignalled = s.pipe.view.asleep
  flushing : s.flushing = true → s.pipe.view.asleep = true ∧ h.complete ≠ []

theorem Agrees.sleep {h : History T} {s s' : Shared T} (ha : Agrees h s) (hw : s'.pipe.Wf)
    (hv : s'.pipe.view = { s.pipe.view with asleep := true }) (hfl : s'.flushing = s.flushing) :
    Agrees { h with missed := true, unsignalled := true } s' :=
  ⟨hw, by rw [ha.flushed, hv], by rw [ha.complete, hv], by rw [ha.unfinished, hv], by rw [hv],
    by rw [hv], fun hf => ⟨by rw [hv], (ha.flushing (hfl ▸ hf)).2⟩⟩

theorem Agrees.same {h : History T} {s s' : Shared T} (ha : Agrees h s) (hw : s'.pipe.Wf)
    (hv : s'.pipe.view = s.pipe.view) (hf : s'.flushing = s.flushing) : Agrees h s' :=
  ⟨hw, by rw [ha.flushed, hv], by rw [ha.complete, hv], by rw [ha.unfinished, hv],
    by rw [ha.missed, hv], by rw [ha.unsignalled, hv], by rw [hv, hf]; exact ha.flushing⟩

theorem Agrees.flushed_eq_read_iff {h : History T} {s : Shared T} (ha : Agrees h s) :
    h.flushed = h.read ↔ s.pipe.view.ready = [] := by
  rw [ha.flushed]
  simp

variable [Inhabited T] {e : Event T}

def Start (s : Shared T) : Prop := s = ⟨new, false⟩

def Step (s : Shared T) (e : Event T) (s' : Shared T) : Prop :=
  match e with
  | .write v b => s.flushing = false ∧ s' = ⟨s.pipe.write v b, false⟩
  | .unwrite rc => s.flushing = false ∧ s.pipe.unwrite = (rc, s'.pipe) ∧ s'.flushing = false
  | .flushCas rc => s.flushing = false ∧ s.pipe.flushCas = (rc, s'.pipe) ∧ s'.flushing = rc.isNone
  | .flushSet => s.flushing = true ∧ s' = ⟨s.pipe.flushSet, false⟩
  | .checkRead rc => s.pipe.checkRead = (rc, s'.pipe) ∧ s'.flushing = s.flushing
  | .probe fn rc => s.pipe.probe fn = (some rc, s'.pipe) ∧ s'.flushing = s.flushing
  | .read rc => s.pipe.read = (rc, s'.pipe) ∧ s'.flushing = s.flushing

theorem agrees_start {s : Shared T} (h : Start s) : Agrees (history []) s := by
  subst h
  have hv : (new : YPipe T).view = Staged.empty := new_view
  constructor <;> simp [history, hv, Staged.empty, new_wf]

theorem agrees_step {h : History T} {s s' : Shared T} (ha : Agrees h s) (hs : Step s e s') : Agrees (h.next e) s' := by
  have hw := ha.wf
  cases e with
  | write v b =>
    obtain ⟨hfl, rfl⟩ := hs
    have hv := write_view hw v b
    cases b <;>
      exact ⟨write_wf hw v _, by simp [History.next, hv, Staged.write, ha.flushed],
        by simp [History.next, hv, Staged.write, ha.complete, ha.unfinished],
        by simp [History.next, hv, Staged.write, ha.unfinished],
        by simp [History.next, hv, Staged.write, ha.missed],
        by simp [History.next, hv, Staged.write, ha.unsignalled], by simp⟩
  | unwrite rc =>
    obtain ⟨hfl, hu, hfl'⟩ := hs
    have hv := unwrite_view hw
    have hw' := unwrite_wf hw
    rw [hu] at hv hw'
    simp only [Staged.unwrite, Prod.mk.injEq] at hv
    obtain ⟨hrc, hv⟩ := hv
    have hn : h.next (.unwrite rc) = { h with unfinished := h.unfinished.dropLast } := by
      cases rc with
      | some _ => rfl
      | none =>
        have : h.unfinished = [] := by
          rw [ha.unfinished]
          exact List.getLast?_eq_none_iff.mp hrc.symm
        simp only [History.next, this, List.dropLast_nil]
        rw [← this]
    rw [hn]
    exact ⟨hw', by simp [hv, ha.flushed], by simp [hv, ha.complete], by simp [hv, ha.unfinished],
      by simp [hv, ha.missed], by simp [hv, ha.unsignalled], by simp [hfl']⟩
  | flushCas rc =>
    obtain ⟨hfl, hu, hfl'⟩ := hs
    have hcomp := complete_eq_nil_iff hw
    rw [flushCas_eq hw] at hu
    split_ifs at hu with h1 h2
    · -- nothing to flush
      obtain ⟨rfl, hp⟩ := Prod.mk.inj hu
      have hc : h.complete = [] := by rw [ha.complete, hcomp.mpr h1]
      simp only [History.next, hc, if_true]
      exact ha.same (by rw [← hp]; exact hw) (by rw [hp]) (by rw [hfl', hfl]; rfl)
    · -- the reader is asleep: the flush goes on
      obtain ⟨rfl, hp⟩ := Prod.mk.inj hu
      have hsl : s.pipe.view.asleep = true := by simp [view, h2]
      exact ⟨by rw [← hp]; exact hw, by rw [← hp]; exact ha.flushed,
        by rw [← hp]; exact ha.complete, by rw [← hp]; exact ha.unfinished,
        by rw [← hp]; exact ha.missed, by rw [← hp]; exact ha.unsignalled,
        fun _ => ⟨by rw [← hp]; exact hsl, fun e => h1 (hcomp.mp (ha.complete ▸ e))⟩⟩
    · obtain ⟨rfl, hp⟩ := Prod.mk.inj hu
      have hc : h.complete ≠ [] := by rw [ha.complete]; exact fun e => h1 (hcomp.mp e)
      have hsl : s.pipe.view.asleep = false := by
        cases hc' : s.pipe.c with
        | none => exact absurd hc' h2
        | some _ => simp [view, hc']
      have hp' : s'.pipe = s.pipe.flushSet := hp.symm
      have hv := flushSet_view hw
      simp only [History.next, hc, if_false]
      exact ⟨by rw [hp']; exact flushSet_wf hw,
        by simp [hp', hv, Staged.publish, ha.flushed, ha.complete],
        by simp [hp', hv, Staged.publish], by simp [hp', hv, Staged.publish, ha.unfinished],
        by simp [hp', hv], by simp [hp', hv, ha.unsignalled, hsl], by simp [hfl']⟩
  | flushSet =>
    obtain ⟨hfl, rfl⟩ := hs
    have hv := flushSet_view hw
    exact ⟨flushSet_wf hw, by simp [History.next, hv, Staged.publish, ha.flushed, ha.complete],
      by simp [History.next, hv, Staged.publish],
      by simp [History.next, hv, Staged.publish, ha.unfinished],
      by simp [History.next, hv], by simp [History.next, hv], by simp⟩
  | checkRead rc =>
    obtain ⟨hu, hfl⟩ := hs
    have hp := checkRead_spec hw
    rw [hu] at hp
    have hv := hp.view
    unfold Staged.checkRead at hv
    split at hv
    next hr =>
      obtain ⟨rfl, hv⟩ := Prod.mk.inj hv
      exact ha.sleep hp.wf hv hfl
    next hr =>
      obtain ⟨rfl, hv⟩ := Prod.mk.inj hv
      exact ha.same hp.wf hv hfl
  | probe fn rc =>
    obtain ⟨hu, hfl⟩ := hs
    have hp := checkRead_spec hw
    obtain ⟨hq, hrc⟩ := probe_spec hw fn
    rw [hu] at hq hrc
    rw [← hq] at hp
    have hv := hp.view
    unfold Staged.checkRead at hv
    split at hv
    next hr => simp [hr] at hrc
    next hr =>
      obtain ⟨-, hv⟩ := Prod.mk.inj hv
      exact ha.same hp.wf hv hfl
  | read rc =>
    obtain ⟨hu, hfl⟩ := hs
    obtain ⟨hw', hv⟩ := read_spec hw
    rw [hu] at hw' hv
    unfold Staged.read at hv
    split at hv
    next hr =>
      obtain ⟨rfl, hv⟩ := Prod.mk.inj hv
      exact ha.sleep hw' hv hfl
    next v rest hr =>
      obtain ⟨rfl, hv⟩ := Prod.mk.inj hv
      exact ⟨hw', by simp [History.next, hv, ha.flushed, hr], by simp [History.next, hv, ha.complete],
        by simp [History.next, hv, ha.unfinished], by simp [History.next, hv, ha.missed],
        by simp [History.next, hv, ha.unsignalled], by rw [hfl, hv]; exact ha.flushing⟩

theorem agrees_run {evs : List (Event T)} {s : Shared T} (h : Run Start Step evs s) : Agrees (history evs) s :=
  h.history (fun evs s => Agrees (history evs) s) (fun _ => agrees_start) fun evs s e s' ha hs => by
    rw [history_snoc]
    exact agrees_step ha hs

/-- What a step may return after the history `h`. -/
def Answers (h : History T) : Event T → Prop
  | .write _ _ => True
  | .unwrite none => h.unfinished = []
  | .unwrite (some v) => ∃ older, h.unfinished = older ++ [v]
  | .flushCas none => h.complete ≠ [] ∧ h.missed = true
  | .flushCas (some rc) => rc = true ∧ (h.complete ≠ [] → h.missed = false)
  | .flushSet => h.complete ≠ [] ∧ h.missed = true
  | .checkRead false => h.flushed = h.read
  | .checkRead true => h.flushed ≠ h.read
  | .probe fn rc => ∃ v rest, h.flushed = h.read ++ v :: rest ∧ rc = fn v
  | .read none => h.flushed = h.read
  | .read (some v) => ∃ rest, h.flushed = h.read ++ v :: rest

theorem step_answers {h : History T} {s s' : Shared T} (ha : Agrees h s) (hs : Step s e s') : Answers h e := by
  have hw := ha.wf
  have hnil := ha.flushed_eq_read_iff
  cases e with
  | write v b => trivial
  | unwrite rc =>
    obtain ⟨-, hu, -⟩ := hs
    have hv := unwrite_view hw
    rw [hu] at hv
    simp only [Staged.unwrite, Prod.mk.injEq, ← ha.unfinished] at hv
    cases rc with
    | none => exact List.getLast?_eq_none_iff.mp hv.1.symm
    | some v =>
      obtain ⟨older, ho⟩ := List.getLast?_eq_some_iff.mp hv.1.symm
      exact ⟨older, ho⟩
  | flushCas rc =>
    obtain ⟨-, hu, -⟩ := hs
    have hcomp := complete_eq_nil_iff hw
    rw [← ha.complete] at hcomp
    have hmiss : h.missed = s.pipe.c.isNone := ha.missed
    rw [flushCas_eq hw] at hu
    split_ifs at hu with h1 h2
    · obtain ⟨rfl, -⟩ := Prod.mk.inj hu
      exact ⟨rfl, fun hc => absurd (hcomp.mpr h1) hc⟩
    · obtain ⟨rfl, -⟩ := Prod.mk.inj hu
      exact ⟨fun e => h1 (hcomp.mp e), by rw [hmiss, h2]; rfl⟩
    · obtain ⟨rfl, -⟩ := Prod.mk.inj hu
      refine ⟨rfl, fun _ => ?_⟩
      rw [hmiss, Option.isNone_eq_false_iff, Option.isSome_iff_ne_none]
      exact h2
  | flushSet =>
    obtain ⟨hsl, hc⟩ := ha.flushing hs.1
    exact ⟨hc, ha.missed.trans hsl⟩
  | checkRead rc =>
    have hv := checkRead_view hw
    rw [hs.1] at hv
    unfold Staged.checkRead at hv
    split at hv
    next hr =>
      obtain ⟨rfl, -⟩ := Prod.mk.inj hv
      exact hnil.mpr hr
    next hr =>
      obtain ⟨rfl, -⟩ := Prod.mk.inj hv
      exact fun e => by rw [hnil.mp e] at hr; cases hr
  | probe fn rc =>
    obtain ⟨-, hrc⟩ := probe_spec hw fn
    rw [hs.1] at hrc
    cases hr : s.pipe.view.ready with
    | nil => simp [hr] at hrc
    | cons v rest =>
      simp only [hr, List.head?_cons, Option.map_some, Option.some.injEq] at hrc
      exact ⟨v, rest, by rw [ha.flushed, hr], hrc⟩
  | read rc =>
    have hv := read_view hw
    rw [hs.1] at hv
    unfold Staged.read at hv
    split at hv
    next hr =>
      obtain ⟨rfl, -⟩ := Prod.mk.inj hv
      exact hnil.mpr hr
    next v rest hr =>
      obtain ⟨rfl, -⟩ := Prod.mk.inj hv
      exact ⟨rest, by rw [ha.flushed, hr]⟩

/-- In every interleaving: what was read is a prefix of what was completed and
flushed; every step answers as the history says; `probe` aborts only with nothing
left to read; and a flushed item is unread with the reader asleep only if some
`flush` has returned false since the reader last found nothing. -/
theorem fifo_correct {evs : List (Event T)} {s : Shared T} (h : Run Start Step evs s) :
    (history evs).read <+: (history evs).flushed ∧ (∀ e s', Step s e s' → Answers (history evs) e) ∧
    (∀ fn, (s.pipe.probe fn).1 = none ↔ (history evs).flushed = (history evs).read) ∧
    ((history evs).unsignalled = true → (history evs).flushed = (history evs).read) := by
  have ha := agrees_run h
  refine ⟨⟨_, ha.flushed.symm⟩, fun e s' hs => step_answers ha hs, fun fn => ?_, fun hu => ?_⟩
  · rw [ha.flushed_eq_read_iff, (probe_spec ha.wf fn).2]
    simp
  · rw [ha.flushed_eq_read_iff]
    exact view_wf ha.wf (ha.unsignalled ▸ hu)

/-- A reader that sleeps through the first flush is signalled, and reads the item. -/
theorem fifo_correct_woken : let evs : List (Event ℕ) := [.checkRead false, .write 5 true, .write 7 false, .flushCas none,
      .flushSet, .read (some 5)]
    ∃ s, Run Start Step evs s ∧ (history evs).read = [5] ∧ (history evs).flushed = [5, 7] ∧
      (history evs).read <+: (history evs).flushed := by
  let q : YPipe ℕ := (new.checkRead.2.write 5 true).write 7 false
  have run : Run Start Step [.checkRead false, .write 5 true, .write 7 false, .flushCas none,
      .flushSet, .read (some 5)] ⟨q.flushSet.read.2, false⟩ := by
    have h0 : Run Start Step [] (⟨new, false⟩ : Shared ℕ) := .nil rfl
    have h1 := h0.snoc (show Step _ (.checkRead false) ⟨new.checkRead.2, false⟩ from ⟨rfl, rfl⟩)
    have h2 := h1.snoc (show Step _ (.write 5 true) _ from ⟨rfl, rfl⟩)
    have h3 := h2.snoc (show Step _ (.write 7 false) ⟨q, false⟩ from ⟨rfl, rfl⟩)
    have h4 := h3.snoc (show Step _ (.flushCas none) ⟨q, true⟩ from ⟨rfl, rfl, rfl⟩)
    have h5 := h4.snoc (show Step _ .flushSet ⟨q.flushSet, false⟩ from ⟨rfl, rfl⟩)
    exact h5.snoc (show Step _ (.read (some 5)) _ from ⟨rfl, rfl⟩)
  exact ⟨_, run, rfl, rfl, (fifo_correct run).1⟩

end YPipe

end Zmq
