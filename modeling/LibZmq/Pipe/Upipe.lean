import LibZmq.Msg
import LibZmq.Ypipe.Refine

/-! The `upipe_t` between two `pipe_t`: a `ypipe_t` of messages that carries the
relation between its pointers, and the loops `pipe.cpp` runs over one. -/

namespace Zmq

open List

/-- `upipe_normal_t` -/
abbrev Upipe := { q : YPipe Msg // q.Wf }

namespace Upipe

def new : Upipe := ⟨YPipe.new, YPipe.new_wf⟩

def write (q : Upipe) (m : Msg) (incomplete : Bool) : Upipe :=
  ⟨q.1.write m incomplete, YPipe.write_wf q.2 m incomplete⟩

def unwrite (q : Upipe) : Option Msg × Upipe := (q.1.unwrite.1, ⟨q.1.unwrite.2, YPipe.unwrite_wf q.2⟩)

def flush (q : Upipe) : Bool × Upipe := (q.1.flush.1, ⟨q.1.flush.2, YPipe.flush_wf q.2⟩)

def checkRead (q : Upipe) : Bool × Upipe :=
  (q.1.checkRead.1, ⟨q.1.checkRead.2, YPipe.checkRead_wf q.2⟩)

def read (q : Upipe) : Option Msg × Upipe := (q.1.read.1, ⟨q.1.read.2, YPipe.read_wf q.2⟩)

def probe (q : Upipe) (fn : Msg → Bool) : Option Bool × Upipe :=
  ((q.1.probe fn).1, ⟨(q.1.probe fn).2, (YPipe.probe_spec q.2 fn).1 ▸ YPipe.checkRead_wf q.2⟩)

def view (q : Upipe) : Staged Msg := q.1.view

/-- The number of items in the queue, which bounds the loops below. -/
def size (q : Upipe) : ℕ := q.1.items.length

@[simp] theorem view_new : new.view = Staged.empty := YPipe.new_view

@[simp] theorem view_write (q : Upipe) (m : Msg) (b : Bool) : (q.write m b).view = q.view.write m b := YPipe.write_view q.2 m b

theorem unwrite_view (q : Upipe) : (q.unwrite.1, q.unwrite.2.view) = q.view.unwrite :=
  YPipe.unwrite_view q.2

theorem flush_view (q : Upipe) : (q.flush.1, q.flush.2.view) = q.view.flush := YPipe.flush_view q.2

theorem checkRead_view (q : Upipe) : (q.checkRead.1, q.checkRead.2.view) = q.view.checkRead :=
  YPipe.checkRead_view q.2

theorem read_view (q : Upipe) : (q.read.1, q.read.2.view) = q.view.read := YPipe.read_view q.2

theorem probe_view (q : Upipe) (fn : Msg → Bool) :
    ((q.probe fn).1, (q.probe fn).2.view) = (q.view.ready.head?.map fn, q.view.checkRead.2) := by
  obtain ⟨h2, h1⟩ := YPipe.probe_spec q.2 fn
  exact Prod.ext h1 ((congrArg YPipe.view h2).trans (congrArg Prod.snd q.checkRead_view))

theorem exists_of_view {α : Type} {x : α × Upipe} {a : α} {s : Staged Msg}
    (h : (x.1, x.2.view) = (a, s)) : ∃ q', x = (a, q') ∧ q'.view = s := by
  obtain ⟨h1, h2⟩ := Prod.mk.inj h
  exact ⟨x.2, Prod.ext h1 rfl, h2⟩

variable {q : Upipe} {rest : List Msg} {m : Msg}

theorem checkRead_nil (h : q.view.ready = []) : ∃ q', q.checkRead = (false, q') ∧ q'.view = { q.view with asleep := true } :=
  exists_of_view (q.checkRead_view.trans (Staged.checkRead_nil h))

theorem checkRead_cons (h : q.view.ready = m :: rest) : ∃ q', q.checkRead = (true, q') ∧ q'.view = q.view :=
  exists_of_view (q.checkRead_view.trans (Staged.checkRead_cons h))

theorem read_nil (h : q.view.ready = []) : ∃ q', q.read = (none, q') ∧ q'.view = { q.view with asleep := true } :=
  exists_of_view (q.read_view.trans (Staged.read_nil h))

theorem read_cons (h : q.view.ready = m :: rest) : ∃ q', q.read = (some m, q') ∧ q'.view = { q.view with ready := rest } :=
  exists_of_view (q.read_view.trans (Staged.read_cons h))

theorem flush_cases (q : Upipe) : ∃ q', q.flush = (q.view.flush.1, q') ∧ q'.view = q.view.flush.2 :=
  exists_of_view (show _ = (q.view.flush.1, q.view.flush.2) from q.flush_view)

theorem probe_cons (fn : Msg → Bool) (h : q.view.ready = m :: rest) : ∃ q', q.probe fn = (some (fn m), q') ∧ q'.view = q.view :=
  exists_of_view ((q.probe_view fn).trans (by rw [h, Staged.checkRead_cons h]; rfl))

theorem view_wf (q : Upipe) : q.view.Wf := YPipe.view_wf q.2

theorem size_eq (q : Upipe) : q.size = q.view.items.length := by
  rw [size, ← YPipe.view_items q.2]
  rfl

theorem ready_le_size (q : Upipe) : q.view.ready.length ≤ q.size := by
  rw [size_eq, Staged.items]
  simp only [length_append]
  omega

theorem unfinished_le_size (q : Upipe) : q.view.unfinished.length ≤ q.size := by
  rw [size_eq, Staged.items]
  simp only [length_append]
  omega

/-! The loops of `pipe.cpp`. Each takes a bound on its number of rounds, which
`size` is. -/

/-- The `read_message` loop of `pipe_t::read`: credentials are kept, not returned. -/
def readMessage : ℕ → Upipe → List UInt8 → Option Msg × Upipe × List UInt8
  | 0, q, credential => (none, q, credential)
  | n + 1, q, credential =>
    match q.read with
    | (none, q) => (none, q, credential)
    | (some m, q) => if m.isCredential then readMessage n q m.data else (some m, q, credential)

theorem readMessage_spec (n : ℕ) (q : Upipe) (c : List UInt8) (hn : q.view.ready.length < n) :
    ((readMessage n q c).1, (readMessage n q c).2.1.view) =
      ({ q.view with ready := q.view.ready.dropWhile Msg.isCredential } : Staged Msg).read := by
  induction n generalizing q c with
  | zero => omega
  | succ n ih =>
    unfold readMessage
    cases hr : q.view.ready with
    | nil =>
      obtain ⟨q', he, hv⟩ := read_nil hr
      simp only [he, hv, dropWhile_nil, Staged.read, hr]
    | cons m rest =>
      obtain ⟨q', he, hv⟩ := read_cons hr
      simp only [he]
      rw [dropWhile_cons]
      split_ifs with hc
      · rw [hr, length_cons] at hn
        rw [ih q' m.data (by rw [hv]; dsimp only; omega), hv]
      · simp only [Staged.read, hv]

/-- The loop of `pipe_t::rollback`; `none` when its `zmq_assert` fails. -/
def unwriteAll : ℕ → Upipe → Option Upipe
  | 0, q => some q
  | n + 1, q =>
    match q.unwrite with
    | (none, q) => some q
    | (some m, q) => if m.hasMore then unwriteAll n q else none

theorem unwriteAll_spec (n : ℕ) (q : Upipe) (hn : q.view.unfinished.length ≤ n) (hm : ∀ m ∈ q.view.unfinished, m.hasMore = true) :
    ∃ q', unwriteAll n q = some q' ∧ q'.view = { q.view with unfinished := [] } := by
  induction n generalizing q with
  | zero =>
    have hu : q.view.unfinished = [] := length_eq_zero_iff.mp (by omega)
    exact ⟨q, rfl, by rw [← hu]⟩
  | succ n ih =>
    obtain ⟨q', he, hv⟩ := exists_of_view (q.unwrite_view.trans (Staged.unwrite_eq q.view))
    unfold unwriteAll
    simp only [he]
    cases hu : q.view.unfinished.getLast? with
    | none =>
      have hnil := getLast?_eq_none_iff.mp hu
      exact ⟨q', rfl, by rw [hv, hnil]; rfl⟩
    | some m =>
      have hmem : m ∈ q.view.unfinished := mem_of_getLast? hu
      have hlen : q'.view.unfinished.length ≤ n := by
        rw [hv, length_dropLast]
        omega
      obtain ⟨q'', he'', hv''⟩ := ih q' hlen fun m hm' =>
        hm m (dropLast_subset _ (by rw [hv] at hm'; exact hm'))
      simp only [hm m hmem, if_true]
      exact ⟨q'', he'', by rw [hv'', hv]⟩

/-- The loop of `process_hiccup`, with the `msgs_written` it leaves. -/
def drain : ℕ → Upipe → UInt64 → UInt64
  | 0, _, msgsWritten => msgsWritten
  | n + 1, q, msgsWritten =>
    match q.read with
    | (none, _) => msgsWritten
    | (some m, q) => drain n q (if m.hasMore then msgsWritten else msgsWritten - 1)

theorem drain_spec (n : ℕ) (q : Upipe) (w : UInt64) (hn : q.view.ready.length ≤ n) :
    drain n q w = w - UInt64.ofNat (q.view.ready.countP fun m => !m.hasMore) := by
  induction n generalizing q w with
  | zero =>
    have hr : q.view.ready = [] := length_eq_zero_iff.mp (by omega)
    simp [drain, hr]
  | succ n ih =>
    unfold drain
    cases hr : q.view.ready with
    | nil =>
      obtain ⟨q', he, -⟩ := read_nil hr
      simp [he]
    | cons m rest =>
      obtain ⟨q', he, hv⟩ := read_cons hr
      rw [hr, length_cons] at hn
      simp only [he]
      rw [ih q' _ (by rw [hv]; dsimp only; omega), hv]
      cases hm : m.hasMore with
      | true => simp [hm]
      | false =>
        have h1 : UInt64.ofNat 1 = 1 := rfl
        simp only [Bool.false_eq_true, if_false, countP_cons, hm, Bool.not_false, if_true]
        rw [UInt64.ofNat_add, h1]
        grind

end Upipe

end Zmq
