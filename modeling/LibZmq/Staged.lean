import Mathlib.Tactic

/-! A staged FIFO between one writer and one reader. What is written waits in
`open'` until the item that completes it is written, then in `complete` until
the next flush publishes it to the reader. A reader that finds nothing falls
asleep; the flush that publishes to a sleeping reader says so. -/

namespace Zmq

open List

universe u

structure Staged (T : Type u) where
  ready : List T
  complete : List T
  unfinished : List T
  asleep : Bool
deriving DecidableEq

namespace Staged

variable {T : Type u} {s : Staged T} {rest : List T}

def empty : Staged T := ⟨[], [], [], false⟩

def items (s : Staged T) : List T := s.ready ++ s.complete ++ s.unfinished

def write (s : Staged T) (value : T) (incomplete : Bool) : Staged T :=
  if incomplete then { s with unfinished := s.unfinished ++ [value] }
  else { s with complete := s.complete ++ s.unfinished ++ [value], unfinished := [] }

def unwrite (s : Staged T) : Option T × Staged T :=
  (s.unfinished.getLast?, { s with unfinished := s.unfinished.dropLast })

def publish (s : Staged T) : Staged T :=
  { s with ready := s.ready ++ s.complete, complete := [] }

/-- `false` when the reader has to be woken. -/
def flush (s : Staged T) : Bool × Staged T :=
  if s.complete = [] then (true, s) else (!s.asleep, { s.publish with asleep := false })

def checkRead (s : Staged T) : Bool × Staged T :=
  match s.ready with
  | [] => (false, { s with asleep := true })
  | _ :: _ => (true, s)

def read (s : Staged T) : Option T × Staged T :=
  match s.ready with
  | [] => (none, { s with asleep := true })
  | v :: rest => (some v, { s with ready := rest })

theorem unwrite_eq (s : Staged T) : s.unwrite = (s.unfinished.getLast?, { s with unfinished := s.unfinished.dropLast }) := rfl

theorem checkRead_nil (h : s.ready = []) : s.checkRead = (false, { s with asleep := true }) := by
  simp only [checkRead, h]

theorem checkRead_cons {v : T} (h : s.ready = v :: rest) : s.checkRead = (true, s) := by
  simp only [checkRead, h]

theorem read_nil (h : s.ready = []) : s.read = (none, { s with asleep := true }) := by
  simp only [read, h]

theorem read_cons {v : T} (h : s.ready = v :: rest) : s.read = (some v, { s with ready := rest }) := by
  simp only [read, h]

theorem flush_ready (s : Staged T) : s.flush.2.ready = s.ready ++ s.complete := by
  unfold flush
  by_cases h : s.complete = []
  · rw [if_pos h, h, append_nil]
  · rw [if_neg h, publish]

def Wf (s : Staged T) : Prop := s.asleep = true → s.ready = []

/-! Counting the items of a kind, in one queue and along a list of queues. -/

variable (f : T → Bool)

def count (s : Staged T) : ℕ := s.items.countP f

@[simp] theorem count_empty : (empty : Staged T).count f = 0 := rfl

theorem count_write (s : Staged T) (v : T) (b : Bool) : (s.write v b).count f = s.count f + if f v then 1 else 0 := by
  unfold count write items
  cases b <;> simp only [if_true, Bool.false_eq_true, if_false, countP_append, countP_cons, countP_nil] <;> omega

theorem count_flush (s : Staged T) : s.flush.2.count f = s.count f := by
  unfold count flush publish items
  split_ifs
  · rfl
  · simp only [countP_append, countP_nil]
    omega

theorem count_rollback (h : ∀ v ∈ s.unfinished, f v = false) : ({ s with unfinished := [] } : Staged T).count f = s.count f := by
  have h0 : s.unfinished.countP f = 0 := countP_eq_zero.mpr fun v hv => by simp [h v hv]
  simp only [count, items, countP_append, h0, countP_nil]

theorem count_ready {front rest : List T} (h : s.ready = front ++ rest) (b : Bool) :
    ({ s with ready := rest, asleep := b } : Staged T).count f + front.countP f = s.count f := by
  simp only [count, items, countP_append, h]
  omega

def tally (c : List (Staged T)) : ℕ := (c.map (count f)).sum

theorem tally_head (c : List (Staged T)) (q : Staged T) :
    tally f (q :: c.tail) + (c.head?.getD empty).count f = tally f c + q.count f := by
  cases c with
  | nil => simp [tally]
  | cons v c =>
    simp only [tally, tail_cons, map_cons, sum_cons, head?_cons, Option.getD_some]
    omega

theorem tally_last (c : List (Staged T)) (q : Staged T) :
    tally f (c.dropLast ++ [q]) + (c.getLast?.getD empty).count f = tally f c + q.count f := by
  rcases eq_nil_or_concat' c with rfl | ⟨d, v, rfl⟩
  · simp [tally]
  · simp only [tally, dropLast_concat, map_append, sum_append, map_cons,
      map_nil, sum_cons, sum_nil, getLast?_append, getLast?_singleton,
      Option.some_or, Option.getD_some]
    omega

theorem tally_snoc_empty (c : List (Staged T)) : tally f (c ++ [empty]) = tally f c := by
  simp [tally]

theorem tally_tail (c : List (Staged T)) : tally f c.tail + (c.head?.getD empty).count f = tally f c := by
  cases c with
  | nil => simp [tally]
  | cons v c =>
    simp only [tally, tail_cons, map_cons, sum_cons, head?_cons, Option.getD_some]
    omega

end Staged

end Zmq
