import LibZmq.Ypipe.Model
import LibZmq.Staged

/-! `ypipe_t` is the staged FIFO: the four pointers cut the queue into what the
reader can see, what the next flush publishes and the unfinished message. -/

namespace Zmq

open List YQueue

universe u

namespace YPipe

variable {T : Type u} {p : YPipe T} {rest : List T}

/-- The items in the queue: every slot but the terminator. -/
def items (p : YPipe T) : List T := p.queue.slots.dropLast

/-- What relates the pointers of a queue between two operations. -/
structure Wf (p : YPipe T) : Prop where
  slots_ne : p.queue.slots ≠ []
  begin_le : p.queue.beginPos ≤ p.w
  w_le : p.w ≤ p.f
  f_le : p.f ≤ p.queue.backPos
  r_mem : ∀ x, p.r = some x → p.queue.beginPos ≤ x ∧ x ≤ p.w
  c_eq : p.c = none ∨ p.c = some p.w
  asleep : p.c = none → p.w = p.queue.beginPos

def view (p : YPipe T) : Staged T where
  ready := p.items.take (p.w - p.queue.beginPos)
  complete := (p.items.drop (p.w - p.queue.beginPos)).take (p.f - p.w)
  unfinished := p.items.drop (p.f - p.queue.beginPos)
  asleep := p.c.isNone

theorem backPos_eq (h : p.Wf) : p.queue.backPos = p.queue.beginPos + p.items.length := by
  have := length_pos_iff.mpr h.slots_ne
  simp only [backPos, items, length_dropLast]
  omega

theorem slots_eq (h : p.Wf) : ∃ t, p.queue.slots = p.items ++ [t] :=
  ⟨_, (dropLast_append_getLast h.slots_ne).symm⟩

theorem view_items (h : p.Wf) : p.view.items = p.items := by
  have hs : p.f - p.queue.beginPos = (p.w - p.queue.beginPos) + (p.f - p.w) := by
    have := h.begin_le; have := h.w_le; omega
  simp only [Staged.items, view]
  rw [hs, append_assoc, ← drop_drop, take_append_drop, take_append_drop]

theorem view_wf (h : p.Wf) : p.view.Wf := by
  intro hs
  have : p.w = p.queue.beginPos := h.asleep (by simpa [view] using hs)
  simp [view, this]

theorem ready_eq_nil_iff (h : p.Wf) : p.view.ready = [] ↔ p.w = p.queue.beginPos := by
  have := backPos_eq h
  have := h.begin_le; have := h.w_le; have := h.f_le
  rw [← length_eq_zero_iff]
  simp only [view, length_take]
  omega

theorem complete_eq_nil_iff (h : p.Wf) : p.view.complete = [] ↔ p.w = p.f := by
  have := backPos_eq h
  have := h.begin_le; have := h.w_le; have := h.f_le
  rw [← length_eq_zero_iff]
  simp only [view, length_take, length_drop]
  omega

theorem unfinished_eq_nil_iff (h : p.Wf) : p.view.unfinished = [] ↔ p.f = p.queue.backPos := by
  have := backPos_eq h
  have := h.begin_le; have := h.w_le; have := h.f_le
  rw [← length_eq_zero_iff]
  simp only [view, length_drop]
  omega

theorem drop_dropLast {l : List T} {n : ℕ} (h : n < l.length) : l.dropLast.drop n = (l.drop n).dropLast := by
  rw [dropLast_eq_take, dropLast_eq_take, drop_take, length_drop]
  congr 1
  omega

theorem flushCas_eq (h : p.Wf) : p.flushCas = if p.w = p.f then (some true, p)
      else if p.c = none then (none, p) else (some true, { p with c := some p.f, w := p.f }) := by
  unfold flushCas cas
  rcases h.c_eq with hc | hc
  · simp only [hc, reduceCtorEq, if_false, ne_eq, not_false_eq_true, if_true]
    rw [← hc]
  · simp [hc]

theorem flush_eq (h : p.Wf) : p.flush = if p.w = p.f then (true, p) else (!p.c.isNone, p.flushSet) := by
  unfold flush
  rw [flushCas_eq h]
  split_ifs with h1 h2
  · rfl
  · simp [h2]
  · cases hc : p.c with
    | none => exact absurd hc h2
    | some _ => rfl

theorem flushSet_wf (h : p.Wf) : p.flushSet.Wf :=
  ⟨h.slots_ne, h.begin_le.trans h.w_le, le_rfl, h.f_le,
    fun x hx => ⟨(h.r_mem x hx).1, (h.r_mem x hx).2.trans h.w_le⟩, Or.inr rfl, fun e => by cases e⟩

theorem flushSet_view (h : p.Wf) : p.flushSet.view = { p.view.publish with asleep := false } := by
  have hs : p.f - p.queue.beginPos = (p.w - p.queue.beginPos) + (p.f - p.w) := by
    have := h.begin_le; have := h.w_le; omega
  simp only [Staged.publish, view, flushSet, Staged.mk.injEq, Nat.sub_self, take_zero]
  refine ⟨?_, trivial, rfl, rfl⟩
  rw [hs, take_add]
  rfl

theorem flush_wf (h : p.Wf) : p.flush.2.Wf := by
  rw [flush_eq h]
  split_ifs
  · exact h
  · exact flushSet_wf h

theorem flush_view (h : p.Wf) : (p.flush.1, p.flush.2.view) = p.view.flush := by
  rw [flush_eq h]
  unfold Staged.flush
  simp only [complete_eq_nil_iff h]
  split_ifs
  · rfl
  · rw [flushSet_view h]
    rfl

structure Prefetched (p p' : YPipe T) (ok : Bool) : Prop where
  wf : p'.Wf
  queue : p'.queue = p.queue
  w : p'.w = p.w
  f : p'.f = p.f
  view : (ok, p'.view) = p.view.checkRead
  r : ok = true → ∃ x, p'.r = some x ∧ p'.queue.beginPos < x

theorem checkRead_spec (h : p.Wf) : p.Prefetched p.checkRead.2 p.checkRead.1 := by
  have hready := ready_eq_nil_iff h
  have hbw := h.begin_le
  have hawake : p.w ≠ p.queue.beginPos → p.view.checkRead = (true, p.view) := by
    intro hw
    unfold Staged.checkRead
    split
    next e => exact absurd (hready.mp e) hw
    next => rfl
  have hsleep : p.w = p.queue.beginPos →
      p.view.checkRead = (false, { p.view with asleep := true }) := by
    intro hw
    simp only [Staged.checkRead, hready.mpr hw]
  unfold checkRead
  split_ifs with h1
  · obtain ⟨hr, hne⟩ := h1
    obtain ⟨x, hx⟩ := Option.ne_none_iff_exists'.mp hne
    have hm := h.r_mem x hx
    have hx' : x ≠ p.queue.beginPos := fun e => hr (by rw [hx, e]; rfl)
    exact ⟨h, rfl, rfl, rfl, (hawake (by omega)).symm, fun _ => ⟨x, hx, by dsimp only; omega⟩⟩
  · simp only [cas, frontPos]
    rcases h.c_eq with hc | hc
    · -- the reader was already asleep
      have hw := h.asleep hc
      simp only [hc, or_true, if_true, reduceCtorEq, if_false]
      refine ⟨⟨h.slots_ne, h.begin_le, h.w_le, h.f_le, by simp, Or.inl rfl, fun _ => hw⟩,
        rfl, rfl, rfl, (hsleep hw).symm, by simp⟩
    · by_cases hw : p.w = p.queue.beginPos
      · simp only [hc, hw, if_true, true_or]
        refine ⟨⟨h.slots_ne, le_rfl, hw ▸ h.w_le, h.f_le, ?_, Or.inl rfl, fun _ => rfl⟩, rfl, hw.symm, rfl, ?_, by simp⟩
        · intro x hx
          cases hx
          exact ⟨le_rfl, le_rfl⟩
        · rw [hsleep hw]
          simp only [YPipe.view, hw, Option.isNone_none]
          rfl
      · have hw' : ¬ p.queue.beginPos = p.w := fun e => hw e.symm
        simp only [hc, Option.some.injEq, hw, hw', if_false, reduceCtorEq, or_self]
        refine ⟨⟨h.slots_ne, h.begin_le, h.w_le, h.f_le, ?_, Or.inr rfl, by simp⟩,
          rfl, rfl, rfl, ?_, fun _ => ⟨_, rfl, by dsimp only; omega⟩⟩
        · intro x hx
          cases hx
          exact ⟨hbw, le_rfl⟩
        · rw [hawake hw]
          simp only [YPipe.view, hc]
          rfl

theorem checkRead_wf (h : p.Wf) : p.checkRead.2.Wf := (checkRead_spec h).wf

theorem checkRead_view (h : p.Wf) : (p.checkRead.1, p.checkRead.2.view) = p.view.checkRead := (checkRead_spec h).view

theorem pop_spec (h : p.Wf) {v : T} (hr : p.view.ready = v :: rest) (hx : ∃ x, p.r = some x ∧ p.queue.beginPos < x) :
    ({ p with queue := p.queue.pop }).Wf ∧
      ({ p with queue := p.queue.pop }).view = { p.view with ready := rest } := by
  obtain ⟨x, hx, hbx⟩ := hx
  have hm := h.r_mem x hx
  have hl := backPos_eq h
  have := h.begin_le; have := h.w_le; have := h.f_le
  have hc : p.c = some p.w := h.c_eq.resolve_left fun e => by have := h.asleep e; omega
  obtain ⟨t, ht⟩ := slots_eq h
  have hi : p.items ≠ [] := by
    intro e
    rw [e] at hl
    simp at hl
    omega
  have hslots : p.queue.pop.slots = p.items.tail ++ [t] := by
    simp only [pop, ht]
    exact tail_append_of_ne_nil hi
  have hb : p.queue.pop.beginPos = p.queue.beginPos + 1 := rfl
  have hlen : p.items.tail.length = p.items.length - 1 := length_tail
  have hpos := length_pos_iff.mpr hi
  constructor
  · refine ⟨by simp [hslots], ?_, h.w_le, ?_, ?_, Or.inr hc, by simp [hc]⟩
    · simp only [hb]; omega
    · simp only [backPos, hslots, hb, length_append, length_singleton, hlen]
      omega
    · intro y hy
      rw [hx] at hy
      cases hy
      exact ⟨hbx, hm.2⟩
  · have hit : ({ p with queue := p.queue.pop } : YPipe T).items = p.items.tail := by
      change p.queue.pop.slots.dropLast = _
      rw [hslots, dropLast_concat]
    have hdrop : ∀ n, p.queue.beginPos < n →
        p.items.tail.drop (n - (p.queue.beginPos + 1)) = p.items.drop (n - p.queue.beginPos) := by
      intro n hn
      rw [drop_tail]
      congr 1
      omega
    simp only [view, hit, hb, Staged.mk.injEq, and_true]
    simp only [view] at hr
    refine ⟨?_, by rw [hdrop _ (by omega)], hdrop _ (by omega)⟩
    rw [show p.w - p.queue.beginPos = (p.w - (p.queue.beginPos + 1)) + 1 by omega] at hr
    cases hitems : p.items with
    | nil => exact absurd hitems hi
    | cons a l =>
      rw [hitems, take_succ_cons] at hr
      cases hr
      rfl

variable [Inhabited T]

theorem new_wf : (new : YPipe T).Wf := by
  constructor <;> simp [new, new, push, backPos]

theorem new_view : (new : YPipe T).view = Staged.empty := by
  simp [view, items, new, YQueue.new, YQueue.push, YQueue.backPos, Staged.empty]

theorem write_items (p : YPipe T) (v : T) (b : Bool) : (p.write v b).items = p.items ++ [v] := by
  simp [items, write, setBack, push]

theorem write_backPos (h : p.Wf) (v : T) (b : Bool) : (p.write v b).queue.backPos = p.queue.backPos + 1 := by
  have := length_pos_iff.mpr h.slots_ne
  simp only [write, backPos, setBack, push, length_append,
    length_dropLast, length_singleton]
  omega

theorem write_f (h : p.Wf) (v : T) (b : Bool) : (p.write v b).f = if b then p.f else p.queue.backPos + 1 := by
  rw [← write_backPos h v b]
  rfl

theorem write_wf (h : p.Wf) (v : T) (b : Bool) : (p.write v b).Wf := by
  have hb := write_backPos h v b
  have hf := write_f h v b
  have := h.w_le; have := h.f_le
  refine ⟨by simp [write, push], h.begin_le, ?_, ?_, h.r_mem, h.c_eq, h.asleep⟩
  · change p.w ≤ (p.write v b).f
    rw [hf]
    split_ifs <;> omega
  · rw [hb, hf]
    split_ifs <;> omega

theorem write_view (h : p.Wf) (v : T) (b : Bool) : (p.write v b).view = p.view.write v b := by
  have hi := write_items p v b
  have hf := write_f h v b
  have hl := backPos_eq h
  have := h.begin_le; have := h.w_le; have := h.f_le
  have hw : (p.write v b).w = p.w := rfl
  have hq : (p.write v b).queue.beginPos = p.queue.beginPos := rfl
  have hc : (p.write v b).c = p.c := rfl
  have hready : take (p.w - p.queue.beginPos) (p.items ++ [v]) =
      take (p.w - p.queue.beginPos) p.items := take_append_of_le_length (by omega)
  have hrest : drop (p.w - p.queue.beginPos) (p.items ++ [v]) =
      drop (p.w - p.queue.beginPos) p.items ++ [v] := drop_append_of_le_length (by omega)
  cases b with
  | true =>
    simp only [if_true] at hf
    simp only [view, Staged.write, if_true, hi, hf, hw, hq, hc, hready, hrest, Staged.mk.injEq,
      true_and, and_true]
    refine ⟨?_, drop_append_of_le_length (by omega)⟩
    rw [take_append_of_le_length (by simp only [length_drop]; omega)]
  | false =>
    simp only [Bool.false_eq_true, if_false] at hf
    simp only [view, Staged.write, Bool.false_eq_true, if_false, hi, hf, hw, hq, hc, hready, hrest,
      Staged.mk.injEq, true_and, and_true]
    -- what was complete and what was unfinished is all that follows `w`
    have hs : p.f - p.queue.beginPos = (p.w - p.queue.beginPos) + (p.f - p.w) := by omega
    refine ⟨?_, drop_eq_nil_of_le (by simp only [length_append, length_singleton]; omega)⟩
    rw [hs, ← drop_drop, take_append_drop]
    exact take_of_length_le (by
      simp only [length_append, length_drop, length_singleton]; omega)

theorem unwrite_wf (h : p.Wf) : p.unwrite.2.Wf := by
  unfold unwrite
  split_ifs with hf
  · exact h
  · have := backPos_eq h
    have := h.begin_le; have := h.w_le; have := h.f_le
    have hlen : p.items.length = p.queue.slots.length - 1 := length_dropLast
    refine ⟨?_, h.begin_le, h.w_le, ?_, h.r_mem, h.c_eq, h.asleep⟩
    · rw [← length_pos_iff]
      simp only [unpush, length_dropLast]
      omega
    · simp only [backPos, unpush, length_dropLast]
      omega

theorem unwrite_view (h : p.Wf) : (p.unwrite.1, p.unwrite.2.view) = p.view.unwrite := by
  have hnil := unfinished_eq_nil_iff h
  unfold unwrite
  split_ifs with hf
  · have := hnil.mpr hf
    simp only [Staged.unwrite, this, getLast?_nil, dropLast_nil]
    rw [← this]
  · have hne : p.view.unfinished ≠ [] := fun e => hf (hnil.mp e)
    have := backPos_eq h
    have := h.begin_le; have := h.w_le; have := h.f_le
    have hi : p.items ≠ [] := by
      intro e
      simp [view, e] at hne
    -- the last item becomes the terminator
    have hback : p.queue.unpush.back = p.items.getLast hi := by
      change (p.items.getLastD default) = _
      rw [getLastD_eq_getLast?, getLast?_eq_some_getLast hi]
      rfl
    have hb : p.queue.unpush.beginPos = p.queue.beginPos := rfl
    have hs : ({ p with queue := p.queue.unpush } : YPipe T).items = p.items.dropLast := rfl
    simp only [Staged.unwrite, Prod.mk.injEq]
    constructor
    · rw [hback]
      simp only [view, getLast?_drop]
      rw [if_neg (by omega), getLast?_eq_some_getLast hi]
    · simp only [view, hb, hs, Staged.mk.injEq, and_true]
      refine ⟨?_, ?_, drop_dropLast (by omega)⟩
      · rw [dropLast_eq_take, take_take, Nat.min_eq_left (by omega)]
      · rw [drop_dropLast (by omega), dropLast_eq_take, take_take, length_drop,
          Nat.min_eq_left (by omega)]

theorem front_of_ready (h : p.Wf) {v : T} (hr : p.view.ready = v :: rest) : p.queue.front = v := by
  obtain ⟨t, ht⟩ := slots_eq h
  simp only [view] at hr
  cases hi : p.items with
  | nil => simp [hi] at hr
  | cons a l =>
    rw [hi] at hr
    cases hn : p.w - p.queue.beginPos with
    | zero => simp [hn] at hr
    | succ n =>
      rw [hn, take_succ_cons] at hr
      cases hr
      simp [front, ht, hi]

theorem read_spec (h : p.Wf) : p.read.2.Wf ∧ (p.read.1, p.read.2.view) = p.view.read := by
  have hp := checkRead_spec h
  unfold read
  cases hr : p.view.ready with
  | nil =>
    have hv := hp.view
    simp only [Staged.checkRead, hr, Prod.mk.injEq] at hv
    obtain ⟨hok, hv⟩ := hv
    split
    next p' e =>
      rw [e] at hv hp
      refine ⟨hp.wf, ?_⟩
      simp only [Staged.read, hr, Prod.mk.injEq, true_and]
      exact hv
    next e => rw [e] at hok; cases hok
  | cons v rest =>
    have hv := hp.view
    simp only [Staged.checkRead, hr, Prod.mk.injEq] at hv
    obtain ⟨hok, hv⟩ := hv
    split
    next e => rw [e] at hok; cases hok
    next p' e =>
      rw [e] at hv hp hok
      have hr' : p'.view.ready = v :: rest := by rw [hv, hr]
      obtain ⟨hw, hview⟩ := pop_spec hp.wf hr' (hp.r rfl)
      refine ⟨hw, ?_⟩
      simp only [Staged.read, hr, Prod.mk.injEq, Option.some.injEq]
      exact ⟨front_of_ready hp.wf hr', by rw [hview, hv]⟩

theorem read_wf (h : p.Wf) : p.read.2.Wf := (read_spec h).1

theorem read_view (h : p.Wf) : (p.read.1, p.read.2.view) = p.view.read :=
  (read_spec h).2

theorem probe_spec (h : p.Wf) (fn : T → Bool) : (p.probe fn).2 = p.checkRead.2 ∧ (p.probe fn).1 = p.view.ready.head?.map fn := by
  have hp := checkRead_spec h
  have hv := hp.view
  unfold probe
  cases hr : p.view.ready with
  | nil =>
    simp only [Staged.checkRead, hr, Prod.mk.injEq] at hv
    obtain ⟨hok, hv⟩ := hv
    split
    next e => exact ⟨by rw [e], rfl⟩
    next e => rw [e] at hok; cases hok
  | cons v rest =>
    simp only [Staged.checkRead, hr, Prod.mk.injEq] at hv
    obtain ⟨hok, hv⟩ := hv
    split
    next e => rw [e] at hok; cases hok
    next p' e =>
      rw [e] at hv hp ⊢
      have hr' : p'.view.ready = v :: rest := by rw [hv, hr]
      exact ⟨rfl, by rw [front_of_ready hp.wf hr']; rfl⟩

end YPipe

end Zmq
