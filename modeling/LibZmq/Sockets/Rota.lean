import LibZmq.Sockets.Array

/-! What `fq_t` and `lb_t` share: an array of pipes with the active ones at its beginning,
and an index into it that goes round among the active ones. -/

namespace Zmq

open ArrayT

universe u v

inductive SocketFault where
  | assertion
  | outOfBounds

structure Rota (P : Type u) where
  pipes : ArrayT P
  active : ℕ
  current : ℕ

namespace Rota

variable {P : Type u}

def empty : Rota P := ⟨.empty, 0, 0⟩

def deactivate (r : Rota P) : Rota P where
  active := r.active - 1
  pipes := r.pipes.swap r.current (r.active - 1)
  current := if r.current = r.active - 1 then 0 else r.current

def advance (r : Rota P) : Rota P := { r with current := (r.current + 1) % r.active }

variable [DecidableEq P]

def activated (r : Rota P) (pipe : P) : Rota P :=
  { r with pipes := r.pipes.swap (r.pipes.index pipe) r.active, active := r.active + 1 }

def attach (r : Rota P) (pipe : P) : Rota P := activated { r with pipes := r.pipes.pushBack pipe } pipe

/-- The part of `pipe_terminated` before the pipe is erased. -/
def leave (r : Rota P) (pipe : P) : Rota P :=
  let index := r.pipes.index pipe
  if index < r.active then {
    active := r.active - 1
    pipes := r.pipes.swap index (r.active - 1)
    current := if r.current = r.active - 1 then 0 else r.current }
  else r

def pipeTerminated (r : Rota P) (pipe : P) : Rota P :=
  { r.leave pipe with pipes := (r.leave pipe).pipes.erase pipe }

/-- The loop of `fq_t::has_in` and `lb_t::has_out`: pipes whose check fails are deactivated.
Each turn returns or leaves one active pipe less. -/
def find {E : Type v} (check : E → Bool × E) : ℕ → Rota P → (P → E) → Except SocketFault (Bool × Rota P × (P → E))
  | 0, r, ends => .ok (false, r, ends)
  | n + 1, r, ends =>
    match r.pipes.get r.current with
    | none => .error .outOfBounds
    | some pipe =>
      let (rc, e) := check (ends pipe)
      let ends := Function.update ends pipe e
      if rc then .ok (true, r, ends) else find check n r.deactivate ends

/-- The bounds of the segments, with `current` among the active pipes when there are any. -/
structure Wf (r : Rota P) : Prop where
  active_le : r.active ≤ r.pipes.size
  current_lt : r.current < r.active ∨ r.active = 0 ∧ r.current = 0

def IsActive (r : Rota P) (p : P) : Prop := p ∈ r.pipes ∧ r.pipes.index p < r.active

def IsCurrent (r : Rota P) (p : P) : Prop := r.IsActive p ∧ r.pipes.index p = r.current

inductive Skips {E : Type v} (rel : E → E → Prop) : Rota P → (P → E) → Rota P → (P → E) → Prop
  | done {r ends} : Skips rel r ends r ends
  | skip {r ends p e r' ends'} (hc : r.IsCurrent p) (he : rel (ends p) e)
    (h : Skips rel r.deactivate (Function.update ends p e) r' ends') : Skips rel r ends r' ends'

variable {r : Rota P} {p x y : P} {E : Type v} {r' : Rota P}

omit [DecidableEq P] in
theorem empty_wf : (empty : Rota P).Wf := ⟨Nat.le_refl _, Or.inr ⟨rfl, rfl⟩⟩

theorem current_get (h : r.Wf) (ha : 0 < r.active) : ∃ p, r.pipes.get r.current = some p ∧ r.IsCurrent p := by
  have hc : r.current < r.active := by
    rcases h.current_lt with h | h
    · exact h
    · omega
  obtain ⟨p, hp⟩ := get_lt (Nat.lt_of_lt_of_le hc h.active_le)
  obtain ⟨hm, hi⟩ := get_iff.mp hp
  exact ⟨p, hp, ⟨hm, hi ▸ hc⟩, hi⟩

theorem IsCurrent.get (h : r.IsCurrent p) : r.pipes.get r.current = some p := get_iff.mpr ⟨h.1.1, h.2⟩

theorem IsCurrent.unique (hp : r.IsCurrent p) (hx : r.IsCurrent x) : p = x :=
  (index_inj hp.1.1).mp (hp.2.trans hx.2.symm)

theorem IsCurrent.lt (h : r.IsCurrent p) : r.current < r.active := h.2 ▸ h.1.2

theorem IsCurrent.active_pos (h : r.IsCurrent p) : 0 < r.active := Nat.lt_of_le_of_lt (Nat.zero_le _) h.1.2

theorem Skips.mono {rel rel' : E → E → Prop} {ends ends' : P → E}
    (h : Skips rel r ends r' ends') (hr : ∀ e e', rel e e' → rel' e e') : Skips rel' r ends r' ends' := by
  induction h with
  | done => exact .done
  | skip hc he _ ih => exact .skip hc (hr _ _ he) ih

theorem activated_mem : y ∈ (r.activated x).pipes ↔ y ∈ r.pipes := mem_swap

theorem activated_isActive (hx : x ∈ r.pipes) (hn : ¬ r.IsActive x) : (r.activated x).IsActive y ↔ r.IsActive y ∨ y = x := by
  have hn : r.active ≤ r.pipes.index x := Nat.le_of_not_lt fun h => hn ⟨hx, h⟩
  unfold IsActive
  rw [activated_mem]
  constructor
  · rintro ⟨hy, hlt⟩
    exact ((join_lt hx hn hy).mp hlt).imp_left fun h => ⟨hy, h⟩
  · rintro (⟨hy, hlt⟩ | rfl)
    · exact ⟨hy, (join_lt hx hn hy).mpr (Or.inl hlt)⟩
    · exact ⟨hx, (join_lt hx hn hx).mpr (Or.inr rfl)⟩

theorem activated_wf (h : r.Wf) (hlt : r.active < r.pipes.size) : (r.activated x).Wf := by
  refine ⟨?_, Or.inl ?_⟩
  · change r.active + 1 ≤ (r.pipes.swap _ _).size
    rw [size_swap]
    exact hlt
  · change r.current < r.active + 1
    rcases h.current_lt with h | ⟨-, h⟩ <;> omega

theorem inactive_lt (hx : x ∈ r.pipes) (hn : ¬ r.IsActive x) : r.active < r.pipes.size :=
  Nat.lt_of_le_of_lt (Nat.le_of_not_lt fun hlt => hn ⟨hx, hlt⟩) (index_lt.mpr hx)

theorem activated_isCurrent (hx : x ∈ r.pipes) (hlt : r.active < r.pipes.size) (hne : p ≠ x) (hp : r.IsCurrent p) :
    (r.activated x).IsCurrent p := by
  have hi := index_lt.mpr hx
  have hc := hp.1.2
  have hne : r.pipes.index p ≠ r.pipes.index x := fun he => hne ((index_inj hp.1.1).mp he)
  have hindex : (r.activated x).pipes.index p = r.current := by
    change (r.pipes.swap _ _).index p = r.current
    rw [index_swap hi hlt, if_neg hne, if_neg (by omega), hp.2]
  refine ⟨⟨activated_mem.mpr hp.1.1, ?_⟩, hindex⟩
  have := hp.2
  change (r.activated x).pipes.index p < r.active + 1
  omega

/-! Attachment, an activation of the new pipe. -/

theorem pushed_isActive (h : r.Wf) (hx : x ∉ r.pipes) : IsActive { r with pipes := r.pipes.pushBack x } y ↔ r.IsActive y := by
  unfold IsActive
  have hle := h.active_le
  rw [mem_pushBack, index_pushBack hx]
  split_ifs with hy hyx
  · simp [hy]
  · simp only [hyx, hx, or_true, true_and, false_and, iff_false]
    omega
  · simp [hy, hyx]

theorem attach_mem : y ∈ (r.attach x).pipes ↔ y ∈ r.pipes ∨ y = x := activated_mem.trans mem_pushBack

theorem pushed_wf (h : r.Wf) (hx : x ∉ r.pipes) : Wf { r with pipes := r.pipes.pushBack x } := by
  refine ⟨?_, h.current_lt⟩
  have := h.active_le
  rw [size_pushBack hx]
  exact Nat.le_succ_of_le this

theorem pushed_inactive (h : r.Wf) (hx : x ∉ r.pipes) : ¬ IsActive { r with pipes := r.pipes.pushBack x } x :=
  fun ha => hx ((pushed_isActive h hx).mp ha).1

theorem pushed_mem : x ∈ r.pipes.pushBack x := mem_pushBack.mpr (Or.inr rfl)

theorem attach_isActive (h : r.Wf) (hx : x ∉ r.pipes) : (r.attach x).IsActive y ↔ r.IsActive y ∨ y = x :=
  (activated_isActive pushed_mem (pushed_inactive h hx)).trans (or_congr_left (pushed_isActive h hx))

theorem pushed_lt (h : r.Wf) (hx : x ∉ r.pipes) : r.active < (r.pipes.pushBack x).size :=
  inactive_lt pushed_mem (pushed_inactive h hx)

theorem attach_wf (h : r.Wf) (hx : x ∉ r.pipes) : (r.attach x).Wf :=
  activated_wf (pushed_wf h hx) (pushed_lt h hx)

theorem attach_isCurrent (h : r.Wf) (hx : x ∉ r.pipes) (hp : r.IsCurrent p) : (r.attach x).IsCurrent p := by
  refine activated_isCurrent pushed_mem (pushed_lt h hx) ?_ ⟨(pushed_isActive h hx).mpr hp.1, ?_⟩
  · rintro rfl
    exact hx hp.1.1
  rw [index_pushBack hx, if_pos hp.1.1, hp.2]

theorem leave_idle (h : ¬ r.pipes.index x < r.active) : r.leave x = r := if_neg h

theorem leave_active (h : r.pipes.index x < r.active) : r.leave x = {
    active := r.active - 1
    pipes := r.pipes.swap (r.pipes.index x) (r.active - 1)
    current := if r.current = r.active - 1 then 0 else r.current } := if_pos h

theorem leave_mem : y ∈ (r.leave x).pipes ↔ y ∈ r.pipes := by
  by_cases h : r.pipes.index x < r.active
  · rw [leave_active h]
    exact mem_swap
  · rw [leave_idle h]

theorem leave_isActive (h : r.Wf) : (r.leave x).IsActive y ↔ r.IsActive y ∧ y ≠ x := by
  by_cases hx : r.pipes.index x < r.active
  · unfold IsActive
    rw [leave_mem, leave_active hx, and_assoc]
    exact and_congr_right (leave_lt hx h.active_le)
  · rw [leave_idle hx, iff_self_and]
    rintro hy rfl
    exact hx hy.2

theorem leave_wf (h : r.Wf) : (r.leave x).Wf := by
  by_cases hx : r.pipes.index x < r.active
  · have hle := h.active_le
    rw [leave_active hx]
    refine ⟨?_, ?_⟩
    · rw [size_swap]
      exact Nat.le_trans (Nat.sub_le _ _) hle
    · dsimp only
      rcases h.current_lt with hc | hc
      · split_ifs <;> omega
      · omega
  · rwa [leave_idle hx]

theorem leave_isCurrent (h : r.Wf) (hp : r.IsCurrent p) (hne : p ≠ x)
    (hk : ¬ (0 < r.pipes.index x ∧ r.pipes.index x < r.current ∧ r.current + 1 = r.active)) : (r.leave x).IsCurrent p := by
  refine ⟨(leave_isActive h).mpr ⟨hp.1, hne⟩, ?_⟩
  by_cases hx : r.pipes.index x < r.active
  · have hle := h.active_le
    have hpc := hp.2
    have hne : r.pipes.index p ≠ r.pipes.index x := fun he => hne ((index_inj hp.1.1).mp he)
    rw [leave_active hx, index_swap (by omega) (by omega), if_neg hne]
    dsimp only
    split_ifs <;> omega
  · rw [leave_idle hx]
    exact hp.2

theorem deactivate_eq (hx : r.IsCurrent x) : r.deactivate = r.leave x := by
  rw [leave_active hx.1.2, hx.2]
  rfl

omit [DecidableEq P] in
theorem deactivate_mem : y ∈ r.deactivate.pipes ↔ y ∈ r.pipes := mem_swap

theorem Skips.mem {rel : E → E → Prop} {ends ends' : P → E} (h : Skips rel r ends r' ends') : y ∈ r'.pipes ↔ y ∈ r.pipes := by
  induction h with
  | done => rfl
  | skip _ _ _ ih => exact ih.trans deactivate_mem

theorem deactivate_isActive (h : r.Wf) (hx : r.IsCurrent x) : r.deactivate.IsActive y ↔ r.IsActive y ∧ y ≠ x := by
  rw [deactivate_eq hx]
  exact leave_isActive h

theorem deactivate_wf (h : r.Wf) (hx : r.IsCurrent x) : r.deactivate.Wf := by
  rw [deactivate_eq hx]
  exact leave_wf h

omit [DecidableEq P] in
theorem advance_wf (h : r.Wf) (ha : 0 < r.active) : r.advance.Wf := ⟨h.active_le, Or.inl (Nat.mod_lt _ ha)⟩

theorem find_goes {check : E → Bool × E} {ends : P → E} {n : ℕ} (h : r.Wf) (hn : r.active = n) :
    ∃ b r' ends', find check n r ends = .ok (b, r', ends') ∧ ∃ ends1, Skips (fun e e' => check e = (false, e')) r ends r' ends1 ∧
        (b = false ∧ ends' = ends1 ∨
          ∃ p e, b = true ∧ r'.IsCurrent p ∧ check (ends1 p) = (true, e) ∧ ends' = Function.update ends1 p e) := by
  induction n generalizing r ends with
  | zero => exact ⟨false, r, ends, rfl, ends, .done, Or.inl ⟨rfl, rfl⟩⟩
  | succ n ih =>
    obtain ⟨p, hget, hp⟩ := current_get h (by omega)
    obtain ⟨b, e, hc⟩ : ∃ b e, check (ends p) = (b, e) := ⟨_, _, rfl⟩
    simp only [find, hget, hc]
    cases b with
    | true => exact ⟨true, r, _, rfl, ends, .done, Or.inr ⟨p, e, rfl, hp, hc, rfl⟩⟩
    | false =>
      obtain ⟨b, r', ends', hf, ends1, hs, hx⟩ := @ih r.deactivate (Function.update ends p e) (deactivate_wf h hp)
        (by change r.active - 1 = n; omega)
      exact ⟨b, r', ends', hf, ends1, .skip hp hc hs, hx⟩

theorem pipeTerminated_mem (hx : x ∈ r.pipes) : y ∈ (r.pipeTerminated x).pipes ↔ y ∈ r.pipes ∧ y ≠ x :=
  (mem_erase (leave_mem.mpr hx)).trans (and_congr_left fun _ => leave_mem)

theorem erased_index (hx : x ∈ r.pipes) (hn : ¬ r.IsActive x) (hy : r.IsActive y) :
    (r.pipes.erase x).index y = r.pipes.index y := by
  have hi := index_lt.mpr hx
  have hn : r.active ≤ r.pipes.index x := Nat.le_of_not_lt fun h => hn ⟨hx, h⟩
  have hlt := hy.2
  have hne : y ≠ x := by
    rintro rfl
    omega
  rw [index_erase hx hy.1 hne, if_neg (by omega)]

theorem left_inactive (h : r.Wf) : ¬ (r.leave x).IsActive x := fun ha => ((leave_isActive h).mp ha).2 rfl

theorem pipeTerminated_isActive (h : r.Wf) (hx : x ∈ r.pipes) : (r.pipeTerminated x).IsActive y ↔ r.IsActive y ∧ y ≠ x := by
  rw [← leave_isActive h]
  have hx' : x ∈ (r.leave x).pipes := leave_mem.mpr hx
  have hn : (r.leave x).active ≤ (r.leave x).pipes.index x := Nat.le_of_not_lt fun ha => left_inactive h ⟨hx', ha⟩
  constructor
  · rintro ⟨hm, hlt⟩
    obtain ⟨hy, hne⟩ := (mem_erase hx').mp hm
    refine ⟨hy, ?_⟩
    change ((r.leave x).pipes.erase x).index y < (r.leave x).active at hlt
    rw [index_erase hx' hy hne] at hlt
    split_ifs at hlt <;> omega
  · intro hy
    refine ⟨(mem_erase hx').mpr ⟨hy.1, ?_⟩, ?_⟩
    · rintro rfl
      exact left_inactive h hy
    · change ((r.leave x).pipes.erase x).index y < (r.leave x).active
      rw [erased_index hx' (left_inactive h) hy]
      exact hy.2

theorem pipeTerminated_wf (h : r.Wf) (hx : x ∈ r.pipes) : (r.pipeTerminated x).Wf := by
  have hx' : x ∈ (r.leave x).pipes := leave_mem.mpr hx
  have hi := index_lt.mpr hx'
  have hn : (r.leave x).active ≤ (r.leave x).pipes.index x := Nat.le_of_not_lt fun ha => left_inactive h ⟨hx', ha⟩
  refine ⟨?_, (leave_wf h).current_lt⟩
  change (r.leave x).active ≤ ((r.leave x).pipes.erase x).size
  rw [size_erase hx']
  omega

theorem pipeTerminated_isCurrent (h : r.Wf) (hx : x ∈ r.pipes) (hp : r.IsCurrent p) (hne : p ≠ x)
    (hk : ¬ (0 < r.pipes.index x ∧ r.pipes.index x < r.current ∧ r.current + 1 = r.active)) :
    (r.pipeTerminated x).IsCurrent p := by
  have hl := leave_isCurrent h hp hne hk
  refine ⟨(pipeTerminated_isActive h hx).mpr ⟨hp.1, hne⟩, ?_⟩
  change ((r.leave x).pipes.erase x).index p = (r.leave x).current
  rw [erased_index (leave_mem.mpr hx) (left_inactive h) hl.1, hl.2]

end Rota

end Zmq
