import LibZmq.Calls
import LibZmq.Sockets.Dist

/-! `dist_t` over `array_t` as it is, with the index that each item stores. It does what `DistT` does, whose pipes are
found by their position. -/

namespace Zmq

open List ArrayT DistT Nat

open Function (update)

universe u

/-- The index of an item is an `int`, so there are no more than 2^31 items. -/
structure SlotArray (T : Type u) where
  items : List T
  arrayIndex : T → ℕ

namespace SlotArray

variable {T : Type u} [DecidableEq T]

def pushBack (a : SlotArray T) (x : T) : SlotArray T := ⟨a.items ++ [x], update a.arrayIndex x a.items.length⟩

def swap (a : SlotArray T) (i j : ℕ) : Except SocketFault (SlotArray T) :=
  match a.items[i]?, a.items[j]? with
  | some x, some y => .ok ⟨(a.items.set i y).set j x, update (update a.arrayIndex x j) y i⟩
  | _, _ => .error .outOfBounds

def erase (a : SlotArray T) (x : T) : Except SocketFault (SlotArray T) :=
  match a.items.getLast? with
  | none => .error .outOfBounds
  | some back =>
    if a.arrayIndex x < a.items.length then
      .ok ⟨(a.items.set (a.arrayIndex x) back).dropLast, update a.arrayIndex back (a.arrayIndex x)⟩
    else .error .outOfBounds

structure Reps (a : SlotArray T) (b : ArrayT T) : Prop where
  items : a.items = b.items
  index : ∀ x ∈ b, a.arrayIndex x = b.index x

variable {a : SlotArray T} {b : ArrayT T} {x : T} {i j : ℕ}

theorem pushBack_reps (h : Reps a b) (hx : x ∉ b) : Reps (a.pushBack x) (b.pushBack x) := by
  refine ⟨?_, fun y hy => ?_⟩
  · rw [ArrayT.pushBack, dif_neg hx, pushBack, h.items]
  · rw [index_pushBack hx]
    change update _ _ _ y = _
    rw [Function.update_apply]
    rcases mem_pushBack.mp hy with hy | rfl
    · have hne : y ≠ x := fun he => hx (he ▸ hy)
      rw [if_neg hne, if_pos hy, h.index y hy]
    · rw [if_pos rfl, if_neg hx, if_pos rfl, h.items]
      rfl

theorem swap_reps (h : Reps a b) (hi : i < b.size) (hj : j < b.size) : ∃ a', a.swap i j = .ok a' ∧ Reps a' (b.swap i j) := by
  obtain ⟨x, hx⟩ := get_lt hi
  obtain ⟨y, hy⟩ := get_lt hj
  obtain ⟨hxb, hxi⟩ := get_iff.mp hx
  obtain ⟨hyb, hyj⟩ := get_iff.mp hy
  have hx : b.items[i]? = some x := hx
  have hy : b.items[j]? = some y := hy
  refine ⟨_, by rw [swap, h.items, hx, hy], ?_, fun z hz => ?_⟩
  · rw [ArrayT.swap, dif_pos ⟨hi, hj⟩]
    simp only [List.get_eq_getElem, (List.getElem?_eq_some_iff.mp hx).2, (List.getElem?_eq_some_iff.mp hy).2]
  · have hz := mem_swap.mp hz
    change update _ _ _ z = _
    rw [index_swap hi hj, Function.update_apply, Function.update_apply, ← hxi, ← hyj]
    simp only [index_inj hz, h.index z hz]
    split_ifs with h1 h2 h2
    · rw [← h1, ← h2]
    · rfl
    · rfl
    · rfl

theorem erase_reps (h : Reps a b) (hx : x ∈ b) : ∃ a', a.erase x = .ok a' ∧ Reps a' (b.erase x) := by
  have hi := index_lt.mpr hx
  obtain ⟨y, hy⟩ := get_lt (show b.size - 1 < b.size by omega)
  obtain ⟨hyb, hyi⟩ := get_iff.mp hy
  have hlast : a.items.getLast? = some y := by
    rw [getLast?_eq_getElem?, h.items]
    exact hy
  refine ⟨_, by rw [erase, hlast, h.index x hx]; exact if_pos (h.items ▸ hi), ?_, fun z hz => ?_⟩
  · rw [ArrayT.erase, if_pos hx]
    change _ = (b.swap _ _).items.dropLast
    rw [ArrayT.swap, dif_pos ⟨hi, by omega⟩]
    simp only [List.get_eq_getElem, (List.getElem?_eq_some_iff.mp (show b.items[b.size - 1]? = some y from hy)).2, h.items]
    rw [dropLast_eq_take, dropLast_eq_take, length_set, length_set, length_set]
    exact (List.take_set_of_le (le_refl _)).symm
  · obtain ⟨hz, hne⟩ := (mem_erase hx).mp hz
    change update _ _ _ z = _
    rw [index_erase hx hz hne, Function.update_apply, ← hyi]
    simp only [index_inj hz, h.index z hz]

end SlotArray

structure SlotDist (P : Type u) where
  pipes : SlotArray P
  matching : ℕ
  active : ℕ
  eligible : ℕ
  more : Bool

namespace SlotDist

variable {P : Type u} [DecidableEq P]

/-- A new item has the index -1, the largest `size_type`. -/
def new : SlotDist P := ⟨⟨[], fun _ => 2 ^ 64 - 1⟩, 0, 0, 0, false⟩

variable (d : SlotDist P)

def attach (pipe : P) : Except SocketFault (SlotDist P) := do
  let pipes := d.pipes.pushBack pipe
  if d.more then
    let pipes ← pipes.swap d.eligible (pipes.items.length - 1)
    return { d with pipes := pipes, eligible := d.eligible + 1 }
  else
    let pipes ← pipes.swap d.active (pipes.items.length - 1)
    return { d with pipes := pipes, active := d.active + 1, eligible := d.eligible + 1 }

def matchPipe (pipe : P) : Except SocketFault (SlotDist P) := do
  if d.pipes.arrayIndex pipe < d.matching then return d
  if d.pipes.arrayIndex pipe ≥ d.eligible then return d
  let pipes ← d.pipes.swap (d.pipes.arrayIndex pipe) d.matching
  return { d with pipes := pipes, matching := d.matching + 1 }

def unmatch : SlotDist P := { d with matching := 0 }

def reverseLoop : ℕ → ℕ → SlotDist P → Except SocketFault (SlotDist P)
  | 0, _, d => .ok d
  | n + 1, i, d => do
    let pipes ← d.pipes.swap i d.matching
    reverseLoop n (i + 1) { d with pipes := pipes, matching := d.matching + 1 }

def reverseMatch : Except SocketFault (SlotDist P) :=
  reverseLoop (d.eligible - d.matching) d.matching d.unmatch

def demote (a : SlotArray P) (pipe : P) (n : ℕ) : Except SocketFault (SlotArray P × ℕ) :=
  if a.arrayIndex pipe < n then do
    let a ← a.swap (a.arrayIndex pipe) (n - 1)
    return (a, n - 1)
  else .ok (a, n)

def pipeTerminated (pipe : P) : Except SocketFault (SlotDist P) := do
  let (pipes, matching) ← demote d.pipes pipe d.matching
  let (pipes, active) ← demote pipes pipe d.active
  let (pipes, eligible) ← demote pipes pipe d.eligible
  let pipes ← pipes.erase pipe
  return ⟨pipes, matching, active, eligible, d.more⟩

def activated (pipe : P) : Except SocketFault (SlotDist P) := do
  let d ← if d.eligible < d.pipes.items.length then do
      let pipes ← d.pipes.swap (d.pipes.arrayIndex pipe) d.eligible
      pure { d with pipes := pipes, eligible := d.eligible + 1 }
    else pure d
  if !d.more && d.active < d.pipes.items.length then
    let pipes ← d.pipes.swap (d.eligible - 1) d.active
    return { d with pipes := pipes, active := d.active + 1 }
  return d

def write (pipe : P) (taken : Bool) : Except SocketFault (Bool × SlotDist P) := do
  if taken then return (true, d)
  let pipes ← d.pipes.swap (d.pipes.arrayIndex pipe) (d.matching - 1)
  let pipes ← pipes.swap (pipes.arrayIndex pipe) (d.active - 1)
  let pipes ← pipes.swap (d.active - 1) (d.eligible - 1)
  return (false, { d with pipes := pipes, matching := d.matching - 1, active := d.active - 1, eligible := d.eligible - 1 })

/-- The loop of `distribute` from `i` on, of at most `n` turns: the pipes that are written to, and the array after it. The
index goes back by one when the last pipe of the segment has come in the place of the one that failed. -/
def writeLoop (taken : ℕ → Bool) : ℕ → UInt64 → SlotDist P → Except SocketFault (List P × SlotDist P)
  | 0, i, d => if i.toNat < d.matching then .error .outOfBounds else .ok ([], d)
  | n + 1, i, d =>
    if i.toNat < d.matching then
      match d.pipes.items[i.toNat]? with
      | none => .error .outOfBounds
      | some pipe => do
        let (written, d) ← d.write pipe (taken n)
        let i := if written then i else i - 1
        let (pipes, d) ← writeLoop taken n (i + 1) d
        return (pipe :: pipes, d)
    else .ok ([], d)

def distribute (taken : ℕ → Bool) : Except SocketFault (List P × SlotDist P) :=
  if d.matching = 0 then .ok ([], d) else writeLoop taken d.matching 0 d

def sendToMatching (msgMore : Bool) (taken : ℕ → Bool) : Except SocketFault (List P × SlotDist P) := do
  let (pipes, d) ← d.distribute taken
  let d := if msgMore then d else { d with active := d.eligible }
  return (pipes, { d with more := msgMore })

def sendToAll (msgMore : Bool) (taken : ℕ → Bool) : Except SocketFault (List P × SlotDist P) :=
  sendToMatching { d with matching := d.active } msgMore taken

structure Sim (s : SlotDist P) (d : DistT P) : Prop where
  pipes : s.pipes.Reps d.pipes
  matching : s.matching = d.matching
  active : s.active = d.active
  eligible : s.eligible = d.eligible
  more : s.more = d.more

variable {s : SlotDist P} {d : DistT P} {x y : P}

theorem attach_sim (h : Sim s d) (hw : d.Wf) (hx : x ∉ d.pipes) : ∃ s', s.attach x = .ok s' ∧ Sim s' (d.attach x) := by
  obtain ⟨a, m, ac, e, more⟩ := s
  obtain ⟨hp, rfl, rfl, rfl, rfl⟩ := h
  have hp := SlotArray.pushBack_reps hp hx
  have hsize := size_pushBack hx
  have hlen : (a.pushBack x).items.length = (d.pipes.pushBack x).size := congrArg length hp.items
  have h2 := hw.active_le
  have h3 := hw.eligible_le
  unfold attach DistT.attach
  dsimp only
  rw [hlen]
  split_ifs
  · obtain ⟨a', ha, hr⟩ := SlotArray.swap_reps (i := d.eligible) (j := (d.pipes.pushBack x).size - 1) hp (by omega) (by omega)
    rw [ha]
    exact ⟨_, rfl, hr, rfl, rfl, rfl, rfl⟩
  · obtain ⟨a', ha, hr⟩ := SlotArray.swap_reps (i := d.active) (j := (d.pipes.pushBack x).size - 1) hp (by omega) (by omega)
    rw [ha]
    exact ⟨_, rfl, hr, rfl, rfl, rfl, rfl⟩

theorem matchPipe_sim (h : Sim s d) (hw : d.Wf) (hx : x ∈ d.pipes) : ∃ s', s.matchPipe x = .ok s' ∧ Sim s' (d.matchPipe x) := by
  obtain ⟨a, m, ac, e, more⟩ := s
  obtain ⟨hp, rfl, rfl, rfl, rfl⟩ := h
  have h3 := hw.eligible_le
  unfold matchPipe DistT.matchPipe
  dsimp only
  rw [hp.index x hx]
  split_ifs with hm he
  · exact ⟨_, rfl, hp, rfl, rfl, rfl, rfl⟩
  · exact ⟨_, rfl, hp, rfl, rfl, rfl, rfl⟩
  · obtain ⟨a', ha, hr⟩ := SlotArray.swap_reps (i := d.pipes.index x) (j := d.matching) hp (by omega) (by omega)
    rw [ha]
    exact ⟨_, rfl, hr, rfl, rfl, rfl, rfl⟩

theorem reverseLoop_sim {n i : ℕ} (h : Sim s d) (hi : i + n ≤ d.pipes.size) (hm : d.matching ≤ i) :
    ∃ s', reverseLoop n i s = .ok s' ∧ Sim s' (DistT.reverseLoop n i d) := by
  induction n generalizing i s d with
  | zero => exact ⟨s, rfl, h⟩
  | succ n ih =>
    obtain ⟨a, m, ac, e, more⟩ := s
    obtain ⟨hp, rfl, rfl, rfl, rfl⟩ := h
    rw [reverseLoop, DistT.reverseLoop]
    obtain ⟨a', ha, hr⟩ := SlotArray.swap_reps (i := i) (j := d.matching) hp (by omega) (by omega)
    rw [ha]
    exact ih (d := { d with pipes := d.pipes.swap i d.matching, matching := d.matching + 1 }) ⟨hr, rfl, rfl, rfl, rfl⟩
      (by simp only [size_swap]; omega) (succ_le_succ hm)

theorem reverseMatch_sim (h : Sim s d) (hw : d.Wf) : ∃ s', s.reverseMatch = .ok s' ∧ Sim s' d.reverseMatch := by
  have h1 := hw.matching_le
  have h2 := hw.active_le
  have h3 := hw.eligible_le
  unfold reverseMatch DistT.reverseMatch
  rw [h.matching, h.eligible]
  exact reverseLoop_sim (d := d.unmatch) ⟨h.pipes, rfl, h.active, h.eligible, h.more⟩
    (by change _ ≤ d.pipes.size; omega) (zero_le _)

theorem demote_sim {a : SlotArray P} {b : ArrayT P} {n : ℕ} (h : a.Reps b) (hx : x ∈ b) (hn : n ≤ b.size) :
    ∃ a', demote a x n = .ok (a', (b.demote x n).2) ∧ a'.Reps (b.demote x n).1 := by
  unfold demote ArrayT.demote
  rw [h.index x hx]
  split_ifs with hlt
  · obtain ⟨a', ha, hr⟩ := SlotArray.swap_reps (i := b.index x) (j := n - 1) h (by omega) (by omega)
    rw [ha]
    exact ⟨a', rfl, hr⟩
  · exact ⟨a, rfl, h⟩

theorem pipeTerminated_sim (h : Sim s d) (hw : d.Wf) (hx : x ∈ d.pipes) :
    ∃ s', s.pipeTerminated x = .ok s' ∧ Sim s' (d.pipeTerminated x) := by
  have h1 := hw.matching_le
  have h2 := hw.active_le
  have h3 := hw.eligible_le
  have D1 := demote_demoted (a := d.pipes) (x := x) (n := d.matching) (by omega)
  have D2 := demote_demoted (a := (d.pipes.demote x d.matching).1) (x := x) (n := d.active) (by rw [D1.size]; omega)
  have hx1 := (D1.mem x).mpr hx
  have hx2 := (D2.mem x).mpr hx1
  obtain ⟨a1, e1, r1⟩ := demote_sim (n := d.matching) h.pipes hx (by omega)
  obtain ⟨a2, e2, r2⟩ := demote_sim (n := d.active) r1 hx1 (by rw [D1.size]; omega)
  obtain ⟨a3, e3, r3⟩ := demote_sim (n := d.eligible) r2 hx2 (by rw [D2.size, D1.size]; omega)
  have hl := (leave_left hw hx).1
  obtain ⟨a4, e4, r4⟩ := SlotArray.erase_reps r3 ((hl.mem x).mpr hx)
  refine ⟨⟨a4, _, _, _, s.more⟩, ?_, r4, rfl, rfl, rfl, h.more⟩
  rw [pipeTerminated, h.matching, e1]
  simp only [bind, Except.bind, h.active, e2, h.eligible, e3, e4]
  rfl

theorem activated_sim (h : Sim s d) (hw : d.Wf) (hx : x ∈ d.pipes) (hn : ¬ d.Eligible x) :
    ∃ s', s.activated x = .ok s' ∧ Sim s' (d.activated x) := by
  obtain ⟨a, m, ac, e, more⟩ := s
  obtain ⟨hp, rfl, rfl, rfl, rfl⟩ := h
  have h2 := hw.active_le
  have hi := index_lt.mpr hx
  have he : d.eligible < d.pipes.size := lt_of_le_of_lt (behind hx hn) hi
  have hlen : ∀ {a : SlotArray P} {b : ArrayT P}, a.Reps b → a.items.length = b.size := fun hp => congrArg length hp.items
  unfold activated DistT.activated
  obtain ⟨a', ha, hr⟩ := SlotArray.swap_reps (i := d.pipes.index x) (j := d.eligible) hp hi he
  dsimp only
  rw [hp.index x hx, hlen hp, ha, if_pos he, if_pos he]
  simp only [bind, Except.bind, pure, Except.pure, hlen hr]
  split_ifs with hm
  · obtain ⟨a'', ha', hr'⟩ := SlotArray.swap_reps (i := d.eligible) (j := d.active) hr
      (by rw [size_swap]; omega) (by rw [size_swap]; omega)
    rw [Nat.add_sub_cancel, ha']
    exact ⟨_, rfl, hr', rfl, rfl, rfl, rfl⟩
  · exact ⟨_, rfl, hr, rfl, rfl, rfl, rfl⟩

theorem refused_sim (h : Sim s d) (hw : d.Wf) (hx : d.Matches x) :
    ∃ s', s.write x false = .ok (false, s') ∧ Sim s' (d.refused x) := by
  obtain ⟨a, m, ac, e, more⟩ := s
  obtain ⟨hp, rfl, rfl, rfl, rfl⟩ := h
  have h1 := hw.matching_le
  have h2 := hw.active_le
  have h3 := hw.eligible_le
  have hi := hx.2
  have hp : a.Reps d.pipes := hp
  obtain ⟨a1, e1, r1⟩ := SlotArray.swap_reps (i := d.pipes.index x) (j := d.matching - 1) hp (by omega) (by omega)
  have hx1 : x ∈ d.pipes.swap (d.pipes.index x) (d.matching - 1) := mem_swap.mpr hx.1
  obtain ⟨a2, e2, r2⟩ := SlotArray.swap_reps (i := _) (j := d.active - 1) r1 (index_lt.mpr hx1)
    (by rw [size_swap]; omega)
  obtain ⟨a3, e3, r3⟩ := SlotArray.swap_reps (i := d.active - 1) (j := d.eligible - 1) r2
    (by rw [size_swap, size_swap]; omega) (by rw [size_swap, size_swap]; omega)
  refine ⟨⟨a3, d.matching - 1, d.active - 1, d.eligible - 1, d.more⟩, ?_, r3, rfl, rfl, rfl, rfl⟩
  simp only [write, Bool.false_eq_true, if_false, bind, Except.bind, hp.index x hx.1, e1, r1.index x hx1, e2, e3]
  rfl

theorem writeLoop_sim (taken : ℕ → Bool) {n : ℕ} {i : UInt64} (h : Sim s d) (hw : d.Wf) (hn : i.toNat + n = d.matching)
    (hfit : d.matching < 2 ^ 64) : ∃ visits s' d', writeLoop taken n i s = .ok (visits, s') ∧ Sim s' d' ∧ d'.Wf ∧
      d'.more = d.more ∧ (∀ y, y ∈ d'.pipes ↔ y ∈ d.pipes) ∧ visits.Nodup ∧
      ∀ y, y ∈ visits ↔ d.Matches y ∧ i.toNat ≤ d.pipes.index y := by
  induction n generalizing i s d with
  | zero =>
    refine ⟨[], s, d, ?_, h, hw, rfl, fun _ => Iff.rfl, nodup_nil, fun y => ?_⟩
    · rw [writeLoop, if_neg (by rw [h.matching]; omega)]
    · exact ⟨fun hy => (nomatch hy), fun hy => absurd hy.1.2 (by omega)⟩
  | succ n ih =>
    have h1 := hw.matching_le
    have h2 := hw.active_le
    have h3 := hw.eligible_le
    obtain ⟨p, hget⟩ := get_lt (a := d.pipes) (i := i.toNat) (by omega)
    obtain ⟨hp, hi⟩ := get_iff.mp hget
    have hpm : d.Matches p := ⟨hp, by omega⟩
    have hget' : s.pipes.items[i.toNat]? = some p := h.pipes.items ▸ hget
    rw [writeLoop, if_pos (by rw [h.matching]; omega), hget']
    dsimp only
    cases taken n with
    | true =>
      have hnext : (i + 1).toNat = i.toNat + 1 := by
        rw [UInt64.toNat_add]
        exact mod_eq_of_lt (by change i.toNat + 1 < 2 ^ 64; omega)
      obtain ⟨visits, s', d', hx, hsim, hw', hmore, hmem, hnodup, hvisits⟩ := ih (i := i + 1) h hw (by omega) hfit
      refine ⟨p :: visits, s', d', ?_, hsim, hw', hmore, hmem, nodup_cons.mpr ⟨fun hv => ?_, hnodup⟩, fun y => ?_⟩
      · simp only [write, bind, Except.bind, pure, Except.pure, if_true, hx]
      · have := ((hvisits p).mp hv).2
        omega
      · rw [mem_cons, hvisits, hnext]
        constructor
        · rintro (rfl | ⟨hy, hlt⟩)
          · exact ⟨hpm, by omega⟩
          · exact ⟨hy, by omega⟩
        · rintro ⟨hy, hle⟩
          rw [← index_inj hy.1, hi]
          by_cases heq : d.pipes.index y = i.toNat
          · exact Or.inl heq
          · exact Or.inr ⟨hy, by omega⟩
    | false =>
      obtain ⟨s1, hs1, hsim1⟩ := refused_sim h hw hpm
      obtain ⟨hl, hw1⟩ := leave_left hw hp
      rw [refused_eq hw hpm] at hsim1
      have hbound : (d.leave p).matching = d.matching - 1 := by rw [hl.bound, if_pos hpm.2]
      obtain ⟨visits, s', d', hx, hsim, hw', hmore, hmem, hnodup, hvisits⟩ := ih (i := i) hsim1 hw1 (by omega) (by omega)
      refine ⟨p :: visits, s', d', ?_, hsim, hw', hmore.trans hl.more, fun y => (hmem y).trans (hl.mem y),
        nodup_cons.mpr ⟨fun hv => ?_, hnodup⟩, fun y => ?_⟩
      · simp only [hs1, bind, Except.bind, pure, Except.pure, Bool.false_eq_true, if_false, UInt64.sub_add_cancel, hx]
      · exact ((hl.matches' p).mp ((hvisits p).mp hv).1).2 rfl
      · have hinner := hl.inner i.toNat (by omega) (by omega) y
        rw [mem_cons, hvisits, hl.matches']
        constructor
        · rintro (rfl | ⟨⟨hy, -⟩, hle⟩)
          · exact ⟨hpm, by omega⟩
          · exact ⟨hy, by omega⟩
        · rintro ⟨hy, hle⟩
          by_cases hyp : y = p
          · exact Or.inl hyp
          · exact Or.inr ⟨⟨hy, hyp⟩, by omega⟩

theorem sendToMatching_sim (msgMore : Bool) (taken : ℕ → Bool) (h : Sim s d) (hw : d.Wf) (hfit : d.matching < 2 ^ 64) :
    ∃ visits s' d', s.sendToMatching msgMore taken = .ok (visits, s') ∧ Sim s' d' ∧ d'.Wf ∧ (∀ y, y ∈ d'.pipes ↔ y ∈ d.pipes) ∧
      visits.Perm (s.pipes.items.take s.matching) := by
  obtain ⟨visits, s1, d1, hx, hsim, hw1, -, hmem, hnodup, hvisits⟩ :=
    writeLoop_sim taken (n := d.matching) (i := 0) h hw (zero_add _) hfit
  have hd : s.distribute taken = .ok (visits, s1) := by
    unfold distribute
    rw [h.matching]
    split_ifs with h0
    · rw [h0, writeLoop, h.matching, h0] at hx
      exact hx
    · exact hx
  have hperm : visits.Perm (s.pipes.items.take s.matching) := by
    refine (perm_ext_iff_of_nodup hnodup ((take_sublist _ _).nodup (h.pipes.items ▸ d.pipes.nodup))).mpr fun y => ?_
    rw [hvisits, h.pipes.items, h.matching]
    constructor
    · rintro ⟨⟨hy, hlt⟩, -⟩
      exact (mem_take_iff_idxOf_lt hy).mpr hlt
    · intro hy
      have hy' : y ∈ d.pipes.items := mem_of_mem_take hy
      exact ⟨⟨hy', (mem_take_iff_idxOf_lt hy').mp hy⟩, zero_le _⟩
  have h2 := hw1.active_le
  rw [sendToMatching, hd]
  cases msgMore with
  | true =>
    exact ⟨visits, _, { d1 with more := true }, rfl, ⟨hsim.pipes, hsim.matching, hsim.active, hsim.eligible, rfl⟩,
      ⟨hw1.matching_le, h2, hw1.eligible_le, fun hm => Bool.noConfusion hm⟩, hmem, hperm⟩
  | false =>
    exact ⟨visits, _, { d1 with active := d1.eligible, more := false }, rfl,
      ⟨hsim.pipes, hsim.matching, hsim.eligible, hsim.eligible, rfl⟩,
      ⟨le_trans hw1.matching_le h2, le_refl _, hw1.eligible_le, fun _ => rfl⟩, hmem, hperm⟩

/-- The calls; `taken` says which writes succeed. -/
inductive Op (P : Type u) where
  | attach (pipe : P)
  | matchPipe (pipe : P)
  | reverseMatch
  | unmatch
  | pipeTerminated (pipe : P)
  | activated (pipe : P)
  | sendToAll (msgMore : Bool) (taken : ℕ → Bool)
  | sendToMatching (msgMore : Bool) (taken : ℕ → Bool)

/-- The pipes that are written to, and the object after the call. -/
def call (d : SlotDist P) : Op P → Except SocketFault (List P × SlotDist P)
  | .attach pipe => return ([], ← d.attach pipe)
  | .matchPipe pipe => return ([], ← d.matchPipe pipe)
  | .reverseMatch => return ([], ← d.reverseMatch)
  | .unmatch => .ok ([], d.unmatch)
  | .pipeTerminated pipe => return ([], ← d.pipeTerminated pipe)
  | .activated pipe => return ([], ← d.activated pipe)
  | .sendToAll msgMore taken => d.sendToAll msgMore taken
  | .sendToMatching msgMore taken => d.sendToMatching msgMore taken

/-- A pipe is attached once, its index is an `int`, `match` is called between messages only, and `activated` for a
pipe that is not eligible. -/
def Callable (d : SlotDist P) : Op P → Prop
  | .attach pipe => pipe ∉ d.pipes.items ∧ d.pipes.items.length < 2 ^ 31
  | .matchPipe pipe => pipe ∈ d.pipes.items ∧ d.more = false
  | .pipeTerminated pipe => pipe ∈ d.pipes.items
  | .activated pipe => pipe ∈ d.pipes.items ∧ d.eligible ≤ d.pipes.arrayIndex pipe
  | _ => True

/-- `reverse_match` is called between messages only. -/
def Marks (d : SlotDist P) (op : Op P) : Prop := Callable d op ∧ (op = .reverseMatch → d.more = false)

/-- Each call is made in a state that allows it. -/
def Legal (ok : SlotDist P → Op P → Prop) : SlotDist P → List (Op P) → Prop
  | _, [] => True
  | d, op :: ops => ok d op ∧ ∀ r d', call d op = .ok (r, d') → Legal ok d' ops

def held (pipes : List P) : Op P → List P
  | .attach pipe => pipe :: pipes
  | .pipeTerminated pipe => pipes.filter (· ≠ pipe)
  | _ => pipes

structure Ordered (d : SlotDist P) (pipes : List P) : Prop where
  matching_le : d.matching ≤ d.active
  active_le : d.active ≤ d.eligible
  eligible_le : d.eligible ≤ d.pipes.items.length
  idle : d.more = false → d.active = d.eligible
  stored : ∀ i x, d.pipes.items[i]? = some x → d.pipes.arrayIndex x = i
  nodup : d.pipes.items.Nodup
  mem : ∀ x, x ∈ d.pipes.items ↔ x ∈ pipes

def Stands (s : SlotDist P) (pipes : List P) : Prop :=
  ∃ d : DistT P, Sim s d ∧ d.Wf ∧ (∀ x, x ∈ d.pipes ↔ x ∈ pipes) ∧ d.pipes.size ≤ 2 ^ 31

variable {pipes : List P} {op : Op P}

theorem Stands.ordered (h : Stands s pipes) : Ordered s pipes := by
  obtain ⟨d, hsim, hw, hmem, -⟩ := h
  have hitems := hsim.pipes.items
  refine ⟨?_, ?_, ?_, ?_, fun i x hx => ?_, hitems ▸ d.pipes.nodup, fun x => hitems ▸ hmem x⟩
  · rw [hsim.matching, hsim.active]
    exact hw.matching_le
  · rw [hsim.active, hsim.eligible]
    exact hw.active_le
  · rw [hsim.eligible, hitems]
    exact hw.eligible_le
  · rw [hsim.more, hsim.active, hsim.eligible]
    exact hw.idle
  · obtain ⟨hxb, hi⟩ := get_iff.mp (show d.pipes.items[i]? = some x from hitems ▸ hx)
    rw [hsim.pipes.index x hxb, hi]

omit [DecidableEq P] in
theorem size_le {b : ArrayT P} {l : List P} (h : ∀ x ∈ b, x ∈ l) : b.size ≤ l.length :=
  (subperm_of_subset b.nodup h).length_le

theorem sends (h : Stands s pipes) (msgMore : Bool) (taken : ℕ → Bool) :
    (∃ visits s', s.sendToMatching msgMore taken = .ok (visits, s') ∧ Stands s' pipes ∧
      visits.Perm (s.pipes.items.take s.matching)) ∧ ∃ visits s', s.sendToAll msgMore taken = .ok (visits, s') ∧ Stands s' pipes ∧
      visits.Perm (s.pipes.items.take s.active) := by
  obtain ⟨d, hsim, hw, hmem, hfit⟩ := h
  have h1 := hw.matching_le
  have h2 := hw.active_le
  have h3 := hw.eligible_le
  have hstands : ∀ {s' d'}, Sim s' d' → d'.Wf → (∀ y, y ∈ d'.pipes ↔ y ∈ d.pipes) → Stands s' pipes :=
    fun hsim' hw' hmem' => ⟨_, hsim', hw', fun x => (hmem' x).trans (hmem x), (size_le fun x => (hmem' x).mp).trans hfit⟩
  refine ⟨?_, ?_⟩
  · obtain ⟨visits, s', d', hx, hsim', hw', hmem', hperm⟩ := sendToMatching_sim msgMore taken hsim hw (by omega)
    exact ⟨visits, s', hx, hstands hsim' hw' hmem', hperm⟩
  · obtain ⟨visits, s', d', hx, hsim', hw', hmem', hperm⟩ := sendToMatching_sim msgMore taken
      (s := { s with matching := s.active }) (d := { d with matching := d.active })
      ⟨hsim.pipes, hsim.active, hsim.active, hsim.eligible, hsim.more⟩ ⟨le_refl _, h2, h3, hw.idle⟩
      (by change d.active < _; omega)
    exact ⟨visits, s', hx, hstands hsim' hw' hmem', hperm⟩

theorem call_stands (h : Stands s pipes) (hl : Marks s op) : ∃ r s', call s op = .ok (r, s') ∧ Stands s' (held pipes op) := by
  have hs := h
  obtain ⟨d, hsim, hw, hmem, hfit⟩ := h
  obtain ⟨hc, hrev⟩ := hl
  have hin : ∀ x, x ∈ s.pipes.items ↔ x ∈ d.pipes := fun x => hsim.pipes.items ▸ Iff.rfl
  have hstands : ∀ {s' d'}, Sim s' d' → d'.Wf → (∀ y, y ∈ d'.pipes ↔ y ∈ d.pipes) → Stands s' pipes :=
    fun hsim' hw' hmem' => ⟨_, hsim', hw', fun x => (hmem' x).trans (hmem x), (size_le fun x => (hmem' x).mp).trans hfit⟩
  cases op with
  | attach x =>
    obtain ⟨hx, hroom⟩ := hc
    have hx : x ∉ d.pipes := (hin x).not.mp hx
    obtain ⟨s', hs', hsim'⟩ := attach_sim hsim hw hx
    refine ⟨[], s', by rw [call, hs']; rfl, _, hsim', attach_wf hw hx, fun y => ?_, ?_⟩
    · rw [attach_mem hw hx, hmem, held, mem_cons, or_comm]
    · refine (size_le (l := x :: d.pipes.items) fun y hy => ?_).trans (by rwa [hsim.pipes.items] at hroom)
      rw [mem_cons, or_comm]
      exact (attach_mem hw hx).mp hy
  | matchPipe x =>
    obtain ⟨hx, hm⟩ := hc
    obtain ⟨s', hs', hsim'⟩ := matchPipe_sim hsim hw ((hin x).mp hx)
    obtain ⟨hw', hr⟩ := matchPipe_wf (x := x) hw (hsim.more ▸ hm)
    exact ⟨[], s', by rw [call, hs']; rfl, hstands hsim' hw' hr.mem⟩
  | reverseMatch =>
    obtain ⟨s', hs', hsim'⟩ := reverseMatch_sim hsim hw
    obtain ⟨hw', hr, -⟩ := reverseMatch_spec hw (hsim.more ▸ hrev rfl)
    exact ⟨[], s', by rw [call, hs']; rfl, hstands hsim' hw' hr.mem⟩
  | unmatch =>
    have hsim' : Sim s.unmatch d.unmatch := ⟨hsim.pipes, rfl, hsim.active, hsim.eligible, hsim.more⟩
    exact ⟨[], _, rfl, hstands hsim' ⟨zero_le _, hw.active_le, hw.eligible_le, hw.idle⟩ fun _ => Iff.rfl⟩
  | pipeTerminated x =>
    have hx := (hin x).mp hc
    obtain ⟨s', hs', hsim'⟩ := pipeTerminated_sim hsim hw hx
    obtain ⟨hw', hmem', -⟩ := pipeTerminated_left hw hx
    refine ⟨[], s', by rw [call, hs']; rfl, _, hsim', hw', fun y => ?_, (size_le fun y hy => ((hmem' y).mp hy).1).trans hfit⟩
    rw [hmem', hmem, held, mem_filter, decide_eq_true_iff]
  | activated x =>
    obtain ⟨hx, he⟩ := hc
    have hx := (hin x).mp hx
    rw [hsim.pipes.index x hx, hsim.eligible] at he
    obtain ⟨s', hs', hsim'⟩ := activated_sim hsim hw hx fun hn => not_lt.mpr he hn.2
    obtain ⟨hw', hmem', -⟩ := activated_wf (x := x) hw
    exact ⟨[], s', by rw [call, hs']; rfl, hstands hsim' hw' hmem'⟩
  | sendToAll msgMore taken =>
    obtain ⟨-, visits, s', hx, hs', -⟩ := sends hs msgMore taken
    exact ⟨visits, s', hx, hs'⟩
  | sendToMatching msgMore taken =>
    obtain ⟨⟨visits, s', hx, hs', -⟩, -⟩ := sends hs msgMore taken
    exact ⟨visits, s', hx, hs'⟩

theorem run_stands {ops : List (Op P)} (h : Stands s pipes) (hl : Legal Marks s ops) :
    ∃ rs s', exec call s ops = .ok (rs, s') ∧ Stands s' (ops.foldl held pipes) := by
  induction ops generalizing s pipes with
  | nil => exact ⟨[], s, rfl, h⟩
  | cons op ops ih =>
    obtain ⟨r, s1, hc, h1⟩ := call_stands h hl.1
    obtain ⟨rs, s', hx, h'⟩ := ih h1 (hl.2 r s1 hc)
    exact ⟨r :: rs, s', exec_cons.mpr ⟨r, s1, rs, hc, hx, rfl⟩, h'⟩

theorem new_stands : Stands (new : SlotDist P) [] :=
  ⟨.new, ⟨⟨rfl, nofun⟩, rfl, rfl, rfl, rfl⟩, new_wf, fun _ => Iff.rfl, zero_le _⟩

/-- After every run the segments are in order, and a send then writes to each of its pipes once. -/
theorem ordered_run {ops : List (Op P)} (h : Legal Marks new ops) :
    ∃ rs d, exec call new ops = .ok (rs, d) ∧ Ordered d (ops.foldl held []) ∧ ∀ msgMore taken,
      (∃ visits d', d.sendToMatching msgMore taken = .ok (visits, d') ∧ visits.Perm (d.pipes.items.take d.matching)) ∧
      ∃ visits d', d.sendToAll msgMore taken = .ok (visits, d') ∧ visits.Perm (d.pipes.items.take d.active) := by
  obtain ⟨rs, d, hx, hd⟩ := run_stands new_stands h
  refine ⟨rs, d, hx, hd.ordered, fun msgMore taken => ?_⟩
  obtain ⟨⟨v, d1, h1, -, p1⟩, v', d2, h2, -, p2⟩ := sends hd msgMore taken
  exact ⟨⟨v, d1, h1, p1⟩, v', d2, h2, p2⟩

/-- Two of three pipes refuse the first frame, one of them the first in the array. -/
theorem ordered_run_three : ∃ rs d, exec call (new : SlotDist ℕ)
    [.attach 5, .attach 6, .attach 7, .sendToAll true fun n => n == 1, .activated 5] = .ok (rs, d) ∧ Ordered d [7, 6, 5] := by
  have hnew : ∀ {d : SlotDist ℕ} {op : Op ℕ}, Callable d op → op ≠ .reverseMatch → Marks d op := fun hc hop => ⟨hc, fun h => absurd h hop⟩
  obtain ⟨rs, d, hx, hd, -⟩ := @ordered_run ℕ _
    [.attach 5, .attach 6, .attach 7, .sendToAll true fun n => n == 1, .activated 5]
    ⟨hnew ⟨by decide, by decide⟩ nofun, fun _ _ h => by
      cases h
      exact ⟨hnew ⟨by decide, by decide⟩ nofun, fun _ _ h => by
        cases h
        exact ⟨hnew ⟨by decide, by decide⟩ nofun, fun _ _ h => by
          cases h
          exact ⟨hnew trivial nofun, fun _ _ h => by
            cases h
            exact ⟨hnew ⟨by decide, by decide⟩ nofun, fun _ _ _ => trivial⟩⟩⟩⟩⟩
  exact ⟨rs, d, hx, hd⟩

/-- In the middle of a message `reverse_match` marks a pipe that is eligible only. -/
theorem reverseMatch_breaks : Legal Callable (new : SlotDist ℕ)
      [.attach 0, .sendToAll true fun _ => true, .attach 1, .unmatch, .reverseMatch] ∧
    ∃ rs d, exec call (new : SlotDist ℕ) [.attach 0, .sendToAll true fun _ => true, .attach 1, .unmatch, .reverseMatch] =
      .ok (rs, d) ∧ ¬ d.matching ≤ d.active := by
  refine ⟨⟨⟨by decide, by decide⟩, fun _ _ h => ?_⟩, _, _, rfl, by decide⟩
  cases h
  refine ⟨trivial, fun _ _ h => ?_⟩
  cases h
  refine ⟨⟨by decide, by decide⟩, fun _ _ h => ?_⟩
  cases h
  exact ⟨trivial, fun _ _ _ => ⟨trivial, fun _ _ _ => trivial⟩⟩

end SlotDist

end Zmq
