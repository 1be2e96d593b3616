import Mathlib.Tactic

/-! The single-writer single-reader queue of `ypipe.hpp`. A pointer to a queue
element is the number of the slot it points to, slots being numbered in the
order in which `yqueue_t` hands them out. -/

namespace Zmq

universe u

/-- `yqueue_t` as its users see it: the slots from `front` to `back`. -/
structure YQueue (T : Type u) where
  beginPos : ℕ
  slots : List T

namespace YQueue

variable {T : Type u} [Inhabited T]

def new : YQueue T := ⟨0, []⟩

variable (q : YQueue T)

def front : T := q.slots.headD default

def back : T := q.slots.getLastD default

/-- `&queue.front ()` -/
def frontPos : ℕ := q.beginPos

/-- `&queue.back ()` -/
def backPos : ℕ := q.beginPos + q.slots.length - 1

/-- `queue.back () = value_` -/
def setBack (value : T) : YQueue T :=
  { q with slots := q.slots.dropLast ++ [value] }

/-- The new element is uninitialised storage. -/
def push : YQueue T := { q with slots := q.slots ++ [default] }

def unpush : YQueue T := { q with slots := q.slots.dropLast }

def pop : YQueue T := ⟨q.beginPos + 1, q.slots.tail⟩

end YQueue

/-- `atomic_ptr_t::cas`: the old value, and what the pointer holds afterwards. -/
def cas (c cmp val : Option ℕ) : Option ℕ × Option ℕ :=
  (c, if c = cmp then val else c)

/-- `w`, `f` and `r` are the first un-flushed item, the first item to be flushed
in the future and the first un-prefetched item; `c` is the pointer the two
threads share, NULL (`none`) while the reader is asleep. -/
structure YPipe (T : Type u) where
  queue : YQueue T
  w : ℕ
  r : Option ℕ
  f : ℕ
  c : Option ℕ

namespace YPipe

variable {T : Type u} [Inhabited T]

def new : YPipe T :=
  let queue : YQueue T := YQueue.new.push
  ⟨queue, queue.backPos, some queue.backPos, queue.backPos, some queue.backPos⟩

variable (p : YPipe T)

def write (value : T) (incomplete : Bool) : YPipe T :=
  let queue := (p.queue.setBack value).push
  { p with queue := queue, f := if incomplete then p.f else queue.backPos }

def unwrite : Option T × YPipe T :=
  if p.f = p.queue.backPos then (none, p)
  else
    let queue := p.queue.unpush
    (some queue.back, { p with queue := queue })

/-- `flush` up to and including its compare-and-swap; no value is returned yet
when the swap failed. -/
def flushCas : Option Bool × YPipe T :=
  if p.w = p.f then (some true, p)
  else
    let (old, c) := cas p.c (some p.w) (some p.f)
    if old ≠ some p.w then (none, { p with c := c })
    else (some true, { p with c := c, w := p.f })

/-- The rest of `flush` once the swap has failed. -/
def flushSet : YPipe T := { p with c := some p.f, w := p.f }

def flush : Bool × YPipe T :=
  match p.flushCas with
  | (some rc, p) => (rc, p)
  | (none, p) => (false, p.flushSet)

def checkRead : Bool × YPipe T :=
  if some p.queue.frontPos ≠ p.r ∧ p.r ≠ none then (true, p)
  else
    let (r, c) := cas p.c (some p.queue.frontPos) none
    let p := { p with r := r, c := c }
    if some p.queue.frontPos = r ∨ r = none then (false, p) else (true, p)

def read : Option T × YPipe T :=
  match p.checkRead with
  | (false, p) => (none, p)
  | (true, p) => (some p.queue.front, { p with queue := p.queue.pop })

/-- `none` when `zmq_assert (rc)` fails. -/
def probe (fn : T → Bool) : Option Bool × YPipe T :=
  match p.checkRead with
  | (false, p) => (none, p)
  | (true, p) => (some (fn p.queue.front), p)

end YPipe

end Zmq
