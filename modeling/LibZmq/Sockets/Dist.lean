import LibZmq.Sockets.Ends
import LibZmq.Sockets.Rota

/-! `dist_t`, a message for many pipes. The array begins with the matching pipes, the active
ones around them and the eligible ones around these. -/

namespace Zmq

open ArrayT Nat

open Function (update update_of_ne update_self)

universe u

structure DistT (P : Type u) where
  pipes : ArrayT P
  matching : ℕ
  active : ℕ
  eligible : ℕ
  more : Bool

namespace DistT

variable {P : Type u}

def new : DistT P := ⟨.empty, 0, 0, 0, false⟩

def unmatch (d : DistT P) : DistT P := { d with matching := 0 }

def reverseLoop : ℕ → ℕ → DistT P → DistT P
  | 0, _, d => d
  | n + 1, i, d => reverseLoop n (i + 1) { d with pipes := d.pipes.swap i d.matching, matching := d.matching + 1 }

def reverseMatch (d : DistT P) : DistT P := reverseLoop (d.eligible - d.matching) d.matching d.unmatch

variable [DecidableEq P] (d : DistT P)

def attach (pipe : P) : DistT P :=
  let pipes := d.pipes.pushBack pipe
  if d.more then { d with pipes := pipes.swap d.eligible (pipes.size - 1), eligible := d.eligible + 1 }
  else { d with
    pipes := pipes.swap d.active (pipes.size - 1), active := d.active + 1, eligible := d.eligible + 1 }

def matchPipe (pipe : P) : DistT P :=
  if d.pipes.index pipe < d.matching then d
  else if d.eligible ≤ d.pipes.index pipe then d
  else { d with pipes := d.pipes.swap (d.pipes.index pipe) d.matching, matching := d.matching + 1 }

/-- The part of `pipe_terminated` before the pipe is erased. -/
def leave (pipe : P) : DistT P :=
  let (pipes, matching) := d.pipes.demote pipe d.matching
  let (pipes, active) := pipes.demote pipe d.active
  let (pipes, eligible) := pipes.demote pipe d.eligible
  ⟨pipes, matching, active, eligible, d.more⟩

def pipeTerminated (pipe : P) : DistT P :=
  { d.leave pipe with pipes := (d.leave pipe).pipes.erase pipe }

def activated (pipe : P) : DistT P :=
  let d := if d.eligible < d.pipes.size then
      { d with pipes := d.pipes.swap (d.pipes.index pipe) d.eligible, eligible := d.eligible + 1 }
    else d
  if !d.more && d.active < d.pipes.size then
    { d with pipes := d.pipes.swap (d.eligible - 1) d.active, active := d.active + 1 }
  else d

/-- What `write` does when the pipe refuses the message. -/
def refused (pipe : P) : DistT P :=
  let pipes := d.pipes.swap (d.pipes.index pipe) (d.matching - 1)
  let pipes := pipes.swap (pipes.index pipe) (d.active - 1)
  let pipes := pipes.swap (d.active - 1) (d.eligible - 1)
  { d with pipes := pipes, matching := d.matching - 1, active := d.active - 1, eligible := d.eligible - 1 }

/-- A write that succeeds, with the flush after the last frame. -/
def wrote (o : Outlet) (msg : Msg) : Outlet := if msg.hasMore then o.accept msg else (o.accept msg).flush

/-- The loop of `distribute` over the matching pipes from `i` on; each turn goes on or leaves one
matching pipe less. -/
def writeLoop (msg : Msg) : ℕ → ℕ → DistT P → (P → Outlet) → Except SocketFault (DistT P × (P → Outlet))
  | 0, _, d, outlets => .ok (d, outlets)
  | n + 1, i, d, outlets =>
    match d.pipes.get i with
    | none => .error .outOfBounds
    | some pipe =>
      if ((outlets pipe).write msg).1 then
        writeLoop msg n (i + 1) d (update outlets pipe (wrote (outlets pipe) msg))
      else writeLoop msg n i (d.refused pipe) (update outlets pipe (outlets pipe).refuse)

/-- References to the content are not counted. -/
def distribute (outlets : P → Outlet) (msg : Msg) : Except SocketFault (DistT P × (P → Outlet)) :=
  if d.matching = 0 then .ok (d, outlets) else writeLoop msg d.matching 0 d outlets

def sendToMatching (outlets : P → Outlet) (msg : Msg) : Except SocketFault (DistT P × (P → Outlet)) := do
  let (d, outlets) ← d.distribute outlets msg
  return ({ d with active := if msg.hasMore then d.active else d.eligible, more := msg.hasMore }, outlets)

def sendToAll (outlets : P → Outlet) (msg : Msg) : Except SocketFault (DistT P × (P → Outlet)) :=
  sendToMatching { d with matching := d.active } outlets msg

omit [DecidableEq P] in
def checkHwm (outlets : P → Outlet) : Bool :=
  (d.pipes.items.take d.matching).all fun p => (outlets p).self.checkHwm

/-- Each segment is part of the next one; between messages every eligible pipe is active. -/
structure Wf (d : DistT P) : Prop where
  matching_le : d.matching ≤ d.active
  active_le : d.active ≤ d.eligible
  eligible_le : d.eligible ≤ d.pipes.size
  idle : d.more = false → d.active = d.eligible

def Matches (p : P) : Prop := p ∈ d.pipes ∧ d.pipes.index p < d.matching

def IsActive (p : P) : Prop := p ∈ d.pipes ∧ d.pipes.index p < d.active

def Eligible (p : P) : Prop := p ∈ d.pipes ∧ d.pipes.index p < d.eligible

variable {d : DistT P} {x y : P}

omit [DecidableEq P] in
theorem new_wf : (new : DistT P).Wf := ⟨le_refl _, le_refl _, le_refl _, fun _ => rfl⟩

def join (d : DistT P) (pipe : P) : DistT P := { d with
  pipes := d.pipes.swap (d.pipes.index pipe) d.eligible
  active := if d.more then d.active else d.active + 1
  eligible := d.eligible + 1 }

theorem join_mem : y ∈ (d.join x).pipes ↔ y ∈ d.pipes := mem_swap

theorem behind (hx : x ∈ d.pipes) (hn : ¬ d.Eligible x) : d.eligible ≤ d.pipes.index x :=
  Nat.le_of_not_lt fun hlt => hn ⟨hx, hlt⟩

theorem join_wf (h : d.Wf) (hx : x ∈ d.pipes) (hn : ¬ d.Eligible x) : (d.join x).Wf := by
  have h1 := h.matching_le
  have h2 := h.active_le
  have h3 := behind hx hn
  have hi := index_lt.mpr hx
  unfold join
  refine ⟨?_, ?_, ?_, fun hm => ?_⟩
  · dsimp only
    split_ifs <;> omega
  · dsimp only
    split_ifs <;> omega
  · rw [size_swap]
    exact lt_of_le_of_lt h3 hi
  · rw [hm, h.idle hm]
    rfl

theorem join_matches (h : d.Wf) (hx : x ∈ d.pipes) (hn : ¬ d.Eligible x) : (d.join x).Matches y ↔ d.Matches y := by
  have h1 := h.matching_le
  have h2 := h.active_le
  have h3 := behind hx hn
  have hi := index_lt.mpr hx
  exact and_congr join_mem (swap_lt (n := d.matching) hi (by omega) (by omega) y)

theorem join_eligible (hx : x ∈ d.pipes) (hn : ¬ d.Eligible x) : (d.join x).Eligible y ↔ d.Eligible y ∨ y = x := by
  constructor
  · rintro ⟨hy, hlt⟩
    have hy := join_mem.mp hy
    exact ((join_lt hx (behind hx hn) hy).mp hlt).imp_left fun hlt => ⟨hy, hlt⟩
  · intro hy
    have hy' : y ∈ d.pipes := hy.elim And.left fun hy => hy ▸ hx
    exact ⟨join_mem.mpr hy', (join_lt hx (behind hx hn) hy').mpr (hy.imp_left And.right)⟩

def pushed (d : DistT P) (pipe : P) : DistT P := { d with pipes := d.pipes.pushBack pipe }

theorem pushed_index (hx : x ∉ d.pipes) : (d.pipes.pushBack x).index x = d.pipes.size := by
  rw [index_pushBack hx, if_neg hx, if_pos rfl]

theorem pushed_mem : x ∈ (d.pushed x).pipes := mem_pushBack.mpr (.inr rfl)

theorem pushed_lt {n : ℕ} (hx : x ∉ d.pipes) (hn : n ≤ d.pipes.size) :
    y ∈ (d.pushed x).pipes ∧ (d.pushed x).pipes.index y < n ↔ y ∈ d.pipes ∧ d.pipes.index y < n := by
  change y ∈ d.pipes.pushBack x ∧ (d.pipes.pushBack x).index y < n ↔ _
  rw [mem_pushBack, index_pushBack hx]
  by_cases hy : y ∈ d.pipes
  · simp [hy]
  · simp only [hy, false_or, if_false, false_and, iff_false, not_and]
    intro hyx
    rw [if_pos hyx]
    omega

theorem pushed_wf (h : d.Wf) (hx : x ∉ d.pipes) : (d.pushed x).Wf := by
  refine ⟨h.matching_le, h.active_le, ?_, h.idle⟩
  change d.eligible ≤ (d.pipes.pushBack x).size
  rw [size_pushBack hx]
  exact le_succ_of_le h.eligible_le

theorem pushed_matches (h : d.Wf) (hx : x ∉ d.pipes) : (d.pushed x).Matches y ↔ d.Matches y :=
  pushed_lt hx (le_trans h.matching_le (le_trans h.active_le h.eligible_le))

theorem pushed_eligible (h : d.Wf) (hx : x ∉ d.pipes) : (d.pushed x).Eligible y ↔ d.Eligible y :=
  pushed_lt hx h.eligible_le

theorem pushed_not (h : d.Wf) (hx : x ∉ d.pipes) : ¬ (d.pushed x).Eligible x := fun he =>
  hx ((pushed_eligible h hx).mp he).1

theorem attach_eq (h : d.Wf) (hx : x ∉ d.pipes) : d.attach x = (d.pushed x).join x := by
  unfold attach join pushed
  dsimp only
  rw [size_pushBack hx, Nat.add_sub_cancel, pushed_index hx]
  by_cases hm : d.more = true
  · rw [if_pos hm, if_pos hm, swap_comm]
  · rw [if_neg hm, if_neg hm, h.idle (Bool.eq_false_of_not_eq_true hm), swap_comm]

theorem attach_mem (h : d.Wf) (hx : x ∉ d.pipes) : y ∈ (d.attach x).pipes ↔ y ∈ d.pipes ∨ y = x := by
  rw [attach_eq h hx, join_mem]
  exact mem_pushBack

theorem attach_wf (h : d.Wf) (hx : x ∉ d.pipes) : (d.attach x).Wf := by
  rw [attach_eq h hx]
  exact join_wf (pushed_wf h hx) pushed_mem (pushed_not h hx)

theorem attach_matches (h : d.Wf) (hx : x ∉ d.pipes) : (d.attach x).Matches y ↔ d.Matches y := by
  rw [attach_eq h hx, join_matches (pushed_wf h hx) pushed_mem (pushed_not h hx), pushed_matches h hx]

theorem attach_eligible (h : d.Wf) (hx : x ∉ d.pipes) : (d.attach x).Eligible y ↔ d.Eligible y ∨ y = x := by
  rw [attach_eq h hx, join_eligible pushed_mem (pushed_not h hx), pushed_eligible h hx]

theorem attach_more : (d.attach x).more = d.more := by
  unfold attach
  split_ifs <;> rfl

theorem activated_eq (h : d.Wf) (hx : x ∈ d.pipes) (hn : ¬ d.Eligible x) : d.activated x = d.join x := by
  have hlt : d.eligible < d.pipes.size := lt_of_le_of_lt (behind hx hn) (index_lt.mpr hx)
  unfold activated join
  rw [if_pos hlt]
  dsimp only
  rw [Nat.add_sub_cancel]
  by_cases hm : d.more = true
  · simp [hm]
  · have hidle := h.idle (Bool.eq_false_of_not_eq_true hm)
    rw [hidle, swap_self, if_neg hm]
    simp [hm, hlt]

theorem activated_wf (h : d.Wf) : (d.activated x).Wf ∧ (∀ y, y ∈ (d.activated x).pipes ↔ y ∈ d.pipes) ∧
    (d.activated x).more = d.more := by
  have h1 := h.matching_le
  have h2 := h.active_le
  have hidle := h.idle
  unfold activated
  by_cases he : d.eligible < d.pipes.size
  · dsimp only
    split_ifs with hm
    · refine ⟨⟨?_, ?_, ?_, fun hf => ?_⟩, fun y => mem_swap.trans mem_swap, rfl⟩
      · exact le_succ_of_le h1
      · exact succ_le_succ h2
      · rw [size_swap, size_swap]
        exact he
      · exact congrArg (· + 1) (hidle hf)
    · refine ⟨⟨h1, le_succ_of_le h2, ?_, fun hf => absurd ?_ hm⟩, fun y => mem_swap, rfl⟩
      · rw [size_swap]
        exact he
      · have hf : d.more = false := hf
        simp [hf]
        omega
  · dsimp only
    split_ifs with hm
    · have hf : d.more = false ∧ d.active < d.pipes.size := by simpa using hm
      have := hidle hf.1
      omega
    · exact ⟨h, fun y => Iff.rfl, rfl⟩

theorem matchPipe_cases (h : d.Wf) (x : P) : (d.matchPipe x = d ∧ (d.Eligible x → d.Matches x)) ∨ (d.Eligible x ∧ ¬ d.Matches x ∧
      d.matchPipe x = { d with pipes := d.pipes.swap (d.pipes.index x) d.matching, matching := d.matching + 1 }) := by
  unfold matchPipe
  have hmem : d.pipes.index x < d.eligible → x ∈ d.pipes := fun hlt =>
    index_lt.mp (lt_of_lt_of_le hlt h.eligible_le)
  by_cases h1 : d.pipes.index x < d.matching
  · rw [if_pos h1]
    exact .inl ⟨rfl, fun he => ⟨he.1, h1⟩⟩
  · rw [if_neg h1]
    by_cases h2 : d.eligible ≤ d.pipes.index x
    · rw [if_pos h2]
      exact .inl ⟨rfl, fun he => absurd he.2 (not_lt.mpr h2)⟩
    · rw [if_neg h2]
      have h2 := Nat.lt_of_not_le h2
      exact .inr ⟨⟨hmem h2, h2⟩, fun hm => h1 hm.2, rfl⟩

theorem matchPipe_matches (h : d.Wf) : (d.matchPipe x).Matches y ↔ d.Matches y ∨ y = x ∧ d.Eligible x := by
  rcases matchPipe_cases h x with ⟨he, hx⟩ | ⟨hx, hn, he⟩
  · rw [he]
    constructor
    · exact .inl
    · rintro (hy | ⟨rfl, hy⟩)
      · exact hy
      · exact hx hy
  · rw [he]
    have hn : d.matching ≤ d.pipes.index x := Nat.le_of_not_lt fun hlt => hn ⟨hx.1, hlt⟩
    unfold Matches
    rw [mem_swap]
    constructor
    · rintro ⟨hy, hlt⟩
      exact ((join_lt hx.1 hn hy).mp hlt).imp (fun hlt => ⟨hy, hlt⟩) fun hy => ⟨hy, hx⟩
    · rintro (⟨hy, hlt⟩ | ⟨rfl, -⟩)
      · exact ⟨hy, (join_lt hx.1 hn hy).mpr (.inl hlt)⟩
      · exact ⟨hx.1, (join_lt hx.1 hn hx.1).mpr (.inr rfl)⟩

theorem matchPipe_eligible (h : d.Wf) : (d.matchPipe x).Eligible y ↔ d.Eligible y := by
  rcases matchPipe_cases h x with ⟨he, -⟩ | ⟨hx, hn, he⟩
  · rw [he]
  · rw [he]
    have hn : d.matching ≤ d.pipes.index x := Nat.le_of_not_lt fun hlt => hn ⟨hx.1, hlt⟩
    have hlt := hx.2
    have hle := h.eligible_le
    unfold Eligible
    dsimp only
    rw [mem_swap, swap_lt (by omega) (by omega) (by omega)]

structure Rearranged (d d' : DistT P) : Prop where
  mem : ∀ y, y ∈ d'.pipes ↔ y ∈ d.pipes
  eligible : ∀ y, d'.Eligible y ↔ d.Eligible y
  more : d'.more = d.more

theorem Rearranged.refl (d : DistT P) : Rearranged d d := ⟨fun _ => Iff.rfl, fun _ => Iff.rfl, rfl⟩

theorem Rearranged.trans {d1 d2 d3 : DistT P} (h : Rearranged d1 d2) (h' : Rearranged d2 d3) : Rearranged d1 d3 :=
  ⟨fun y => (h'.mem y).trans (h.mem y), fun y => (h'.eligible y).trans (h.eligible y), h'.more.trans h.more⟩

theorem matchPipe_wf (h : d.Wf) (hm : d.more = false) : (d.matchPipe x).Wf ∧ Rearranged d (d.matchPipe x) := by
  have hr : ∀ y, (d.matchPipe x).Eligible y ↔ d.Eligible y := fun y => matchPipe_eligible h
  rcases matchPipe_cases h x with ⟨he, -⟩ | ⟨hx, hn, he⟩
  · rw [he]
    exact ⟨h, .refl d⟩
  · rw [he] at hr ⊢
    have hn : d.matching ≤ d.pipes.index x := Nat.le_of_not_lt fun hlt => hn ⟨hx.1, hlt⟩
    have hlt := hx.2
    refine ⟨⟨?_, h.active_le, ?_, h.idle⟩, fun y => mem_swap, hr, rfl⟩
    · rw [h.idle hm]
      exact lt_of_le_of_lt hn hlt
    · rw [size_swap]
      exact h.eligible_le

theorem foldl_matchPipe (calls : List P) (h : d.Wf) (hm : d.more = false) :
    (calls.foldl matchPipe d).Wf ∧ Rearranged d (calls.foldl matchPipe d) ∧
      ∀ y, (calls.foldl matchPipe d).Matches y ↔ d.Matches y ∨ y ∈ calls ∧ d.Eligible y := by
  induction calls generalizing d with
  | nil => exact ⟨h, .refl d, fun y => by simp⟩
  | cons x calls ih =>
    obtain ⟨hw, hr⟩ := matchPipe_wf (x := x) h hm
    obtain ⟨hw', hr', hmatches⟩ := ih hw (hr.more.trans hm)
    refine ⟨hw', hr.trans hr', fun y => ?_⟩
    rw [List.foldl_cons, hmatches, matchPipe_matches h, hr.eligible, List.mem_cons]
    constructor
    · rintro ((hy | ⟨rfl, hy⟩) | ⟨hy, he⟩)
      · exact .inl hy
      · exact .inr ⟨.inl rfl, hy⟩
      · exact .inr ⟨.inr hy, he⟩
    · rintro (hy | ⟨rfl | hy, he⟩)
      · exact .inl (.inl hy)
      · exact .inl (.inr ⟨rfl, he⟩)
      · exact .inr ⟨hy, he⟩

theorem reverseLoop_spec {n k prev : ℕ} (hm : d.matching = k) (hn : prev + k + n ≤ d.pipes.size) :
    ∃ pipes : ArrayT P, reverseLoop n (prev + k) d = { d with pipes := pipes, matching := k + n } ∧
      pipes.size = d.pipes.size ∧ (∀ y, y ∈ pipes ↔ y ∈ d.pipes) ∧
      (∀ y, pipes.index y < k + n ↔ d.pipes.index y < k ∨ prev + k ≤ d.pipes.index y ∧ d.pipes.index y < prev + k + n) ∧
      ∀ m, prev + k + n ≤ m → ∀ y, pipes.index y < m ↔ d.pipes.index y < m := by
  induction n generalizing d k with
  | zero =>
    refine ⟨d.pipes, ?_, rfl, fun _ => Iff.rfl, fun y => ?_, fun m _ y => Iff.rfl⟩
    · cases d
      simp_all [reverseLoop]
    · omega
  | succ n ih =>
    obtain ⟨pipes, he, hsize, hmem, hlt, houter⟩ :=
      @ih ⟨d.pipes.swap (prev + k) d.matching, d.matching + 1, d.active, d.eligible, d.more⟩ (k + 1)
        (by rw [← hm]) (by rw [size_swap]; omega)
    have hswap := fun y => index_swap (a := d.pipes) (i := prev + k) (j := d.matching) (by omega) (by omega) y
    refine ⟨pipes, ?_, ?_, fun y => (hmem y).trans mem_swap, fun y => ?_, fun m hm' y => ?_⟩
    · rw [reverseLoop, show prev + k + 1 = prev + (k + 1) by omega, he, show k + 1 + n = k + (n + 1) by omega]
    · rw [hsize, size_swap]
    · rw [show k + (n + 1) = k + 1 + n by omega, hlt, hswap]
      split_ifs <;> omega
    · rw [houter m (by omega), hswap]
      split_ifs <;> omega

theorem reverseMatch_spec (h : d.Wf) (hm : d.more = false) :
    d.reverseMatch.Wf ∧ Rearranged d d.reverseMatch ∧ ∀ y, d.reverseMatch.Matches y ↔ d.Eligible y ∧ ¬ d.Matches y := by
  have h1 := h.matching_le
  have h2 := h.active_le
  have h3 := h.eligible_le
  obtain ⟨pipes, he, hsize, hmem, hlt, houter⟩ := @reverseLoop_spec P _ d.unmatch (d.eligible - d.matching) 0 d.matching rfl
    (by change d.matching + 0 + (d.eligible - d.matching) ≤ d.pipes.size; omega)
  dsimp only [unmatch, add_zero] at he hsize hmem hlt houter
  rw [zero_add] at he hlt
  have he : d.reverseMatch = { d with pipes := pipes, matching := d.eligible - d.matching } := he
  rw [he]
  refine ⟨⟨?_, h2, hsize ▸ h3, h.idle⟩, ⟨hmem, fun y => ?_, rfl⟩, fun y => ?_⟩
  · have := h.idle hm
    dsimp only
    omega
  · exact and_congr (hmem y) (houter d.eligible (by omega) y)
  · unfold Matches
    rw [hmem, hlt]
    constructor
    · rintro ⟨hy, hlt⟩
      exact ⟨⟨hy, by omega⟩, fun hm => by omega⟩
    · rintro ⟨⟨hy, hlt⟩, hn⟩
      have : ¬ d.pipes.index y < d.matching := fun hlt => hn ⟨hy, hlt⟩
      exact ⟨hy, by omega⟩

structure Left (d d' : DistT P) (x : P) : Prop where
  size : d'.pipes.size = d.pipes.size
  mem : ∀ y, y ∈ d'.pipes ↔ y ∈ d.pipes
  matches' : ∀ y, d'.Matches y ↔ d.Matches y ∧ y ≠ x
  active : ∀ y, d'.IsActive y ↔ d.IsActive y ∧ y ≠ x
  eligible : ∀ y, d'.Eligible y ↔ d.Eligible y ∧ y ≠ x
  inner : ∀ k ≤ d.matching, k ≤ d.pipes.index x → ∀ y, d'.pipes.index y < k ↔ d.pipes.index y < k
  bound : d'.matching = if d.pipes.index x < d.matching then d.matching - 1 else d.matching
  more : d'.more = d.more

theorem and_congr_of_mem {a b c d : Prop} (h : a ↔ b) (hb : b → (c ↔ d)) : a ∧ c ↔ b ∧ d := by
  rw [h]
  exact and_congr_right hb

theorem leave_left (h : d.Wf) (hx : x ∈ d.pipes) : Left d (d.leave x) x ∧ (d.leave x).Wf := by
  have h1 := h.matching_le
  have h2 := h.active_le
  have h3 := h.eligible_le
  unfold leave
  have D1 := demote_demoted (x := x) (show d.matching ≤ d.pipes.size by omega)
  generalize d.pipes.demote x d.matching = r1 at D1 ⊢
  obtain ⟨p1, m⟩ := r1
  dsimp only at D1 ⊢
  have s1 := D1.size
  have D2 := demote_demoted (x := x) (show d.active ≤ p1.size by omega)
  generalize p1.demote x d.active = r2 at D2 ⊢
  obtain ⟨p2, a⟩ := r2
  dsimp only at D2 ⊢
  have s2 := D2.size
  have D3 := demote_demoted (x := x) (show d.eligible ≤ p2.size by omega)
  generalize p2.demote x d.eligible = r3 at D3 ⊢
  obtain ⟨p3, e⟩ := r3
  dsimp only at D3 ⊢
  have s3 := D3.size
  have hx1 : x ∈ p1 := (D1.mem x).mpr hx
  have x1 := D1.self hx
  have x2 := D2.self hx1
  have hmem : ∀ y, y ∈ p3 ↔ y ∈ d.pipes := fun y => (D3.mem y).trans ((D2.mem y).trans (D1.mem y))
  -- the pipe is behind each segment it has left
  have hx12 : m ≤ p2.index x := Nat.le_of_not_lt fun hlt => Nat.not_lt.mpr x1 ((D2.inner m x1 x).mp hlt)
  have hmatches : ∀ y ∈ d.pipes, (p3.index y < m ↔ d.pipes.index y < d.matching ∧ y ≠ x) := fun y hy =>
    (D3.inner m hx12 y).trans ((D2.inner m x1 y).trans (D1.lt y hy))
  have hactive : ∀ y ∈ d.pipes, (p3.index y < a ↔ d.pipes.index y < d.active ∧ y ≠ x) := fun y hy =>
    (D3.inner a x2 y).trans ((D2.lt y ((D1.mem y).mpr hy)).trans (and_congr_left' (D1.outer _ h1 (by omega) y)))
  have heligible : ∀ y ∈ d.pipes, (p3.index y < e ↔ d.pipes.index y < d.eligible ∧ y ≠ x) := fun y hy =>
    (D3.lt y ((D2.mem y).mpr ((D1.mem y).mpr hy))).trans
      (and_congr_left' ((D2.outer _ h2 (by omega) y).trans (D1.outer _ (by omega) h3 y)))
  have hbounds : m ≤ a ∧ a ≤ e ∧ e ≤ p3.size ∧ (d.more = false → a = e) := by
    have b1 := D1.bound
    have b2 := D2.bound
    have b3 := D3.bound
    have o2 := D2.outer d.eligible h2 (by omega) x
    have hidle := h.idle
    refine ⟨?_, ?_, ?_, fun hm => ?_⟩
    · split_ifs at b1 b2 <;> omega
    · split_ifs at b2 b3 <;> omega
    · split_ifs at b3 <;> omega
    · have := hidle hm
      split_ifs at b2 b3 <;> omega
  refine ⟨⟨by rw [s3, s2, s1], hmem, fun y => ?_, fun y => ?_, fun y => ?_, fun k hk hkx y => ?_,
    D1.bound, rfl⟩, ⟨hbounds.1, hbounds.2.1, hbounds.2.2.1, hbounds.2.2.2⟩⟩
  · unfold Matches
    rw [and_assoc]
    exact and_congr_of_mem (hmem y) (hmatches y)
  · unfold IsActive
    rw [and_assoc]
    exact and_congr_of_mem (hmem y) (hactive y)
  · unfold Eligible
    rw [and_assoc]
    exact and_congr_of_mem (hmem y) (heligible y)
  · have hk1 : k ≤ p1.index x := Nat.le_of_not_lt fun hlt => Nat.not_lt.mpr hkx ((D1.inner k hkx x).mp hlt)
    have hk2 : k ≤ p2.index x := Nat.le_of_not_lt fun hlt => Nat.not_lt.mpr hk1 ((D2.inner k hk1 x).mp hlt)
    exact (D3.inner k hk2 y).trans ((D2.inner k hk1 y).trans (D1.inner k hkx y))

theorem refused_eq (h : d.Wf) (hx : d.Matches x) : d.refused x = d.leave x := by
  have h1 := h.matching_le
  have h2 := h.active_le
  have h3 := h.eligible_le
  have hi := hx.2
  have i1 : (d.pipes.swap (d.pipes.index x) (d.matching - 1)).index x = d.matching - 1 :=
    index_swap_left hx.1 (by omega)
  have hx1 : x ∈ d.pipes.swap (d.pipes.index x) (d.matching - 1) := mem_swap.mpr hx.1
  have i2 : ((d.pipes.swap (d.pipes.index x) (d.matching - 1)).swap (d.matching - 1) (d.active - 1)).index x = d.active - 1 := by
    have := index_swap_left (j := d.active - 1) hx1 (by rw [size_swap]; omega)
    rwa [i1] at this
  unfold refused leave demote
  rw [if_pos hi]
  dsimp only
  rw [i1, if_pos (show d.matching - 1 < d.active by omega)]
  rw [i2, if_pos (show d.active - 1 < d.eligible by omega)]

theorem pipeTerminated_left (h : d.Wf) (hx : x ∈ d.pipes) : (d.pipeTerminated x).Wf ∧
    (∀ y, y ∈ (d.pipeTerminated x).pipes ↔ y ∈ d.pipes ∧ y ≠ x) ∧ (∀ y, (d.pipeTerminated x).Matches y ↔ d.Matches y ∧ y ≠ x) ∧
    (∀ y, (d.pipeTerminated x).Eligible y ↔ d.Eligible y ∧ y ≠ x) ∧ (d.pipeTerminated x).more = d.more := by
  obtain ⟨hl, hw⟩ := leave_left h hx
  have hx' : x ∈ (d.leave x).pipes := (hl.mem x).mpr hx
  have he : (d.leave x).eligible ≤ (d.leave x).pipes.index x := behind hx' fun he => ((hl.eligible x).mp he).2 rfl
  have hm : (d.leave x).matching ≤ (d.leave x).pipes.index x :=
    le_trans hw.matching_le (le_trans hw.active_le he)
  have hi := index_lt.mpr hx'
  refine ⟨⟨hw.matching_le, hw.active_le, ?_, hw.idle⟩, fun y => ?_, fun y => ?_, fun y => ?_, hl.more⟩
  · change (d.leave x).eligible ≤ ((d.leave x).pipes.erase x).size
    rw [size_erase hx']
    omega
  · exact (mem_erase hx').trans (and_congr_left' (hl.mem y))
  · exact (erase_lt hx' hm).trans (hl.matches' y)
  · exact (erase_lt hx' he).trans (hl.eligible y)

def tried (o : Outlet) (msg : Msg) : Outlet := if o.self.checkWrite.1 then wrote o msg else o.refuse

theorem write_fst (o : Outlet) (msg : Msg) : (o.write msg).1 = o.self.checkWrite.1 := by
  cases hw : o.self.checkWrite.1 with
  | false => rw [Outlet.write_refused hw]
  | true => rw [Outlet.write_done hw]

variable {w : P → Outlet} {msg : Msg}

theorem writeLoop_spec {n i : ℕ} (h : d.Wf) (hn : i + n = d.matching) : ∃ d' w', writeLoop msg n i d w = .ok (d', w') ∧
    d'.Wf ∧ d'.more = d.more ∧ (∀ y, y ∈ d'.pipes ↔ y ∈ d.pipes) ∧
    (∀ y, d.Matches y → i ≤ d.pipes.index y → w' y = tried (w y) msg) ∧
    (∀ y, (d.Matches y → d.pipes.index y < i) → w' y = w y) ∧
    (∀ y, d'.Matches y ↔ d.Matches y ∧ (i ≤ d.pipes.index y → (w y).self.checkWrite.1 = true)) ∧
    ∀ y, d'.Eligible y ↔ d.Eligible y ∧ (d.Matches y → i ≤ d.pipes.index y → (w y).self.checkWrite.1 = true) := by
  induction n generalizing d i w with
  | zero =>
    refine ⟨d, w, rfl, h, rfl, fun _ => Iff.rfl, fun y hy hi => ?_, fun _ _ => rfl, fun y => ?_, fun y => ?_⟩
    · exact absurd hy.2 (by omega)
    · exact ⟨fun hy => ⟨hy, fun hi => absurd hy.2 (by omega)⟩, And.left⟩
    · exact ⟨fun hy => ⟨hy, fun hm hi => absurd hm.2 (by omega)⟩, And.left⟩
  | succ n ih =>
    have h1 := h.matching_le
    have h2 := h.active_le
    have h3 := h.eligible_le
    obtain ⟨p, hget⟩ := get_lt (a := d.pipes) (i := i) (by omega)
    obtain ⟨hp, hi⟩ := get_iff.mp hget
    have hpm : d.Matches p := ⟨hp, by omega⟩
    simp only [writeLoop, hget, write_fst]
    cases hw : (w p).self.checkWrite.1 with
    | true =>
      obtain ⟨d', w', hx, hwf, hmore, hmem, htried, hsame, hmatches, heligible⟩ :=
        @ih d (update w p (wrote (w p) msg)) (i + 1) h (by omega)
      have hcheck : ∀ y, i + 1 ≤ d.pipes.index y → update w p (wrote (w p) msg) y = w y := fun y hy => by
        rw [update_of_ne]
        rintro rfl
        omega
      have hle : ∀ y, y ∈ d.pipes → i ≤ d.pipes.index y → y = p ∨ i + 1 ≤ d.pipes.index y := fun y hy hle => by
        rw [← index_inj hy]
        omega
      refine ⟨d', w', by simpa using hx, hwf, hmore, hmem, fun y hy hle' => ?_, fun y hy => ?_, fun y => ?_, fun y => ?_⟩
      · rcases hle y hy.1 hle' with rfl | hlt
        · rw [hsame y fun _ => by omega, update_self, tried, if_pos hw]
        · rw [htried y hy hlt, hcheck y hlt]
      · have hne : y ≠ p := by
          rintro rfl
          exact absurd (hy hpm) (by omega)
        rw [hsame y fun hy' => by have := hy hy'; omega, update_of_ne hne]
      · rw [hmatches]
        refine and_congr_right fun hy => ⟨fun hc hle' => ?_, fun hc hle' => ?_⟩
        · rcases hle y hy.1 hle' with rfl | hlt
          · exact hw
          · rw [← hcheck y hlt]
            exact hc hlt
        · rw [hcheck y hle']
          exact hc (by omega)
      · rw [heligible]
        refine and_congr_right fun _ => forall_congr' fun hy => ⟨fun hc hle' => ?_, fun hc hle' => ?_⟩
        · rcases hle y hy.1 hle' with rfl | hlt
          · exact hw
          · rw [← hcheck y hlt]
            exact hc hlt
        · rw [hcheck y hle']
          exact hc (by omega)
    | false =>
      obtain ⟨hl, hwf1⟩ := leave_left h hp
      have hbound : (d.leave p).matching = d.matching - 1 := by
        rw [hl.bound, if_pos hpm.2]
      obtain ⟨d', w', hx, hwf, hmore, hmem, htried, hsame, hmatches, heligible⟩ :=
        @ih (d.leave p) (update w p (w p).refuse) i hwf1 (by omega)
      have hinner : ∀ y, i ≤ (d.leave p).pipes.index y ↔ i ≤ d.pipes.index y := fun y => by
        have := hl.inner i (by omega) (by omega) y
        omega
      have hnot : ¬ (d.leave p).Matches p := fun hm => ((hl.matches' p).mp hm).2 rfl
      have hfalse : ¬ (i ≤ d.pipes.index p → (w p).self.checkWrite.1 = true) := fun hc =>
        Bool.false_ne_true (hw.symm.trans (hc (by omega)))
      refine ⟨d', w', ?_, hwf, hmore.trans hl.more, fun y => (hmem y).trans (hl.mem y), fun y hy hle => ?_, fun y hy => ?_,
        fun y => ?_, fun y => ?_⟩
      · rw [refused_eq h hpm]
        exact hx
      · rcases eq_or_ne y p with rfl | hne
        · rw [hsame y fun hm => absurd hm hnot, update_self, tried, hw]
          rfl
        · rw [htried y ((hl.matches' y).mpr ⟨hy, hne⟩) ((hinner y).mpr hle), update_of_ne hne]
      · have hne : y ≠ p := by
          rintro rfl
          exact absurd (hy hpm) (by omega)
        rw [hsame y, update_of_ne hne]
        intro hm
        have := hy ((hl.matches' y).mp hm).1
        have := hinner y
        omega
      · rw [hmatches, hl.matches', hinner]
        rcases eq_or_ne y p with rfl | hne
        · exact ⟨fun hc => absurd rfl hc.1.2, fun hc => absurd hc.2 hfalse⟩
        · simp [hne]
      · rw [heligible, hl.eligible, hl.matches', hinner]
        rcases eq_or_ne y p with rfl | hne
        · exact ⟨fun hc => absurd rfl hc.1.2, fun hc => absurd (hc.2 hpm) hfalse⟩
        · simp [hne]

structure Sent (d : DistT P) (w : P → Outlet) (msg : Msg) (d' : DistT P) (w' : P → Outlet) : Prop where
  wf : d'.Wf
  mem : ∀ y, y ∈ d'.pipes ↔ y ∈ d.pipes
  tried : ∀ y, d.Matches y → w' y = tried (w y) msg
  same : ∀ y, ¬ d.Matches y → w' y = w y
  matches' : ∀ y, d'.Matches y ↔ d.Matches y ∧ (w y).self.checkWrite.1 = true
  eligible : ∀ y, d'.Eligible y ↔ d.Eligible y ∧ (d.Matches y → (w y).self.checkWrite.1 = true)
  more : d'.more = msg.hasMore

theorem sendToMatching_sent (h : d.Wf) : ∃ d' w', d.sendToMatching w msg = .ok (d', w') ∧ Sent d w msg d' w' := by
  obtain ⟨d1, w1, hx, hwf, -, hmem, htried, hsame, hmatches, heligible⟩ :=
    @writeLoop_spec P _ d w msg d.matching 0 h (zero_add _)
  have hd : d.distribute w msg = .ok (d1, w1) := by
    unfold distribute
    split_ifs with h0
    · rw [h0] at hx
      exact hx
    · exact hx
  refine ⟨{ d1 with active := if msg.hasMore then d1.active else d1.eligible, more := msg.hasMore }, w1, ?_, ?_⟩
  · rw [sendToMatching, hd]
    rfl
  · refine ⟨⟨?_, ?_, hwf.eligible_le, fun hm => ?_⟩, hmem, fun y hy => htried y hy (zero_le _),
      fun y hy => hsame y fun hm => absurd hm hy, fun y => ?_, fun y => ?_, rfl⟩
    · have h1 := hwf.matching_le
      have h2 := hwf.active_le
      dsimp only
      split_ifs <;> omega
    · have h2 := hwf.active_le
      dsimp only
      split_ifs <;> omega
    · have hm : msg.hasMore = false := hm
      rw [hm]
      rfl
    · exact (hmatches y).trans (and_congr_right fun _ => ⟨fun hc => hc (zero_le _), fun hc _ => hc⟩)
    · exact (heligible y).trans (and_congr_right fun _ => forall_congr' fun _ =>
        ⟨fun hc => hc (zero_le _), fun hc _ => hc⟩)

end DistT

end Zmq
