import LibZmq.Sockets.FairQueue

/-! How fair `fq_t` is: how often the messages of one pipe are returned while another pipe waits for its turn. A pipe that
is found dry is swapped with the last active one, which may come to its turn a second time. -/

namespace Zmq

open List

open Function (update update_of_ne update_self)

universe u v

namespace Rota

variable {P : Type u} [DecidableEq P]

def turns (r : Rota P) (a x : P) : ℕ :=
  (if r.pipes.index x < r.current then 1 else 0) + if r.pipes.index a < r.current then 0 else 1

def Before (r : Rota P) (x a : P) : Prop :=
  (r.pipes.index x < r.pipes.index a ∧ r.pipes.index a < r.current) ∨
    (r.current ≤ r.pipes.index x ∧ (r.pipes.index a < r.current ∨ r.pipes.index x < r.pipes.index a))

variable {r : Rota P} {a x p : P}

omit [DecidableEq P] in
theorem advance_current (h : r.current < r.active) :
    (r.current + 1 < r.active ∧ r.advance.current = r.current + 1) ∨ (r.current + 1 = r.active ∧ r.advance.current = 0) := by
  by_cases hlast : r.current + 1 = r.active
  · exact .inr ⟨hlast, by rw [advance, hlast, Nat.mod_self]⟩
  · exact .inl ⟨by omega, Nat.mod_eq_of_lt (by omega)⟩

theorem index_ne (hp : p ∈ r.pipes) (hne : p ≠ a) : r.pipes.index a ≠ r.pipes.index p :=
  fun h => hne ((ArrayT.index_inj hp).mp h.symm)

theorem advance_turns (hp : r.IsCurrent p) (hx : r.IsActive x) (hne : p ≠ x) :
    r.advance.turns a x + (if p = a then 1 else 0) ≤ r.turns a x := by
  have hcurrent := hp.lt
  have hxp := index_ne hp.1.1 hne
  have hxlt := hx.2
  have hap : p ≠ a → r.pipes.index a ≠ r.current := fun h => hp.2 ▸ index_ne hp.1.1 h
  have heq : p = a → r.pipes.index a = r.current := fun h => h ▸ hp.2
  rw [hp.2] at hxp
  unfold turns
  change (if r.pipes.index x < r.advance.current then 1 else 0) + (if r.pipes.index a < r.advance.current then 0 else 1) + _ ≤ _
  rcases advance_current hcurrent with ⟨-, h⟩ | ⟨hlast, h⟩
  · by_cases hpa : p = a
    · have := heq hpa
      split_ifs <;> omega
    · split_ifs <;> omega
  · by_cases hpa : p = a
    · have := heq hpa
      split_ifs <;> omega
    · split_ifs <;> omega

theorem deactivate_index (h : r.Wf) (hp : r.IsCurrent p) (y : P) : r.deactivate.pipes.index y =
    if r.pipes.index y = r.current then r.active - 1 else if r.pipes.index y = r.active - 1 then r.current
    else r.pipes.index y := by
  have hcurrent := hp.lt
  have hle := h.active_le
  exact ArrayT.index_swap (by omega) (by omega) y

omit [DecidableEq P] in
theorem deactivate_current : r.deactivate.current = if r.current = r.active - 1 then 0 else r.current := rfl

omit [DecidableEq P] in
theorem deactivate_active : r.deactivate.active = r.active - 1 := rfl

theorem deactivate_turns (h : r.Wf) (hp : r.IsCurrent p) (hx : r.IsActive x) (hne : p ≠ x) :
    r.deactivate.turns a x ≤ r.turns a x := by
  have hcurrent := hp.lt
  have hxp := index_ne hp.1.1 hne
  have hxlt := hx.2
  rw [hp.2] at hxp
  unfold turns
  rw [deactivate_index h hp, deactivate_index h hp, deactivate_current, if_neg hxp]
  split_ifs <;> omega

theorem activated_index (hp : p ∈ r.pipes) (hn : ¬ r.IsActive p) (y : P) : (r.activated p).pipes.index y = r.pipes.index y ∨
      r.active ≤ r.pipes.index y ∧ r.active ≤ (r.activated p).pipes.index y := by
  have hlt := inactive_lt hp hn
  have hpi := ArrayT.index_lt.mpr hp
  have hpn : r.active ≤ r.pipes.index p := Nat.le_of_not_lt fun h => hn ⟨hp, h⟩
  have hindex : (r.activated p).pipes.index y =
      if r.pipes.index y = r.pipes.index p then r.active else if r.pipes.index y = r.active then r.pipes.index p
      else r.pipes.index y := ArrayT.index_swap hpi hlt y
  rw [hindex]
  split_ifs <;> omega

theorem attach_index (h : r.Wf) (hp : p ∉ r.pipes) (y : P) : (r.attach p).pipes.index y = r.pipes.index y ∨
      r.active ≤ r.pipes.index y ∧ r.active ≤ (r.attach p).pipes.index y := by
  have hle := h.active_le
  have hpushed := activated_index (r := { r with pipes := r.pipes.pushBack p }) pushed_mem (pushed_inactive h hp) y
  change (r.attach p).pipes.index y = (r.pipes.pushBack p).index y ∨
    r.active ≤ (r.pipes.pushBack p).index y ∧ r.active ≤ (r.attach p).pipes.index y at hpushed
  rw [ArrayT.index_pushBack hp y] at hpushed
  by_cases hy : y ∈ r.pipes
  · rwa [if_pos hy] at hpushed
  · have hout := ArrayT.index_of_notMem hy
    right
    split_ifs at hpushed <;> omega

section Joins

variable {r' : Rota P}

theorem joins_turns (h : r.Wf) (hcurrent : r'.current = r.current)
    (hindex : ∀ y, r'.pipes.index y = r.pipes.index y ∨ r.active ≤ r.pipes.index y ∧ r.active ≤ r'.pipes.index y) :
    r'.turns a x ≤ r.turns a x := by
  have hxi := hindex x
  have hai := hindex a
  have hc : r.current ≤ r.active := by rcases h.current_lt with h | ⟨h, h'⟩ <;> omega
  unfold turns
  split_ifs <;> omega

theorem Before.joins (hb : r.Before x a) (h : r.Wf) (hcurrent : r'.current = r.current) (hx : r.IsActive x)
    (hindex : ∀ y, r'.pipes.index y = r.pipes.index y ∨ r.active ≤ r.pipes.index y ∧ r.active ≤ r'.pipes.index y) :
    r'.Before x a := by
  have hxlt := hx.2
  have hxi := hindex x
  have hai := hindex a
  have hc : r.current ≤ r.active := by rcases h.current_lt with h | ⟨h, h'⟩ <;> omega
  unfold Before at hb ⊢
  omega

end Joins

/-! When the current pipe has its turn. -/

theorem Before.not_current (h : r.Before x a) (hp : r.IsCurrent p) : p ≠ a := by
  rintro rfl
  have hindex := hp.2
  rcases h with ⟨h1, h⟩ | ⟨h1, h | h⟩ <;> omega

theorem advance_before : r.advance.Before x a ↔ (r.pipes.index x < r.pipes.index a ∧ r.pipes.index a < r.advance.current) ∨
      (r.advance.current ≤ r.pipes.index x ∧ (r.pipes.index a < r.advance.current ∨ r.pipes.index x < r.pipes.index a)) := Iff.rfl

theorem Before.advance (h : r.Before x a) (hp : r.IsCurrent p) (hx : r.IsActive x) (hne : p ≠ x) : r.advance.Before x a := by
  have hcurrent := hp.lt
  have hxp := index_ne hp.1.1 hne
  have hxlt := hx.2
  have hap := index_ne hp.1.1 (h.not_current hp)
  rw [hp.2] at hxp hap
  rw [advance_before]
  unfold Before at h
  rcases advance_current hcurrent with ⟨-, hnext⟩ | ⟨hlast, hnext⟩
  · omega
  · omega

theorem before_after (hp : r.IsCurrent a) (hx : r.IsActive x) (hne : a ≠ x) : r.advance.Before x a := by
  have hcurrent := hp.lt
  have hxp := index_ne hp.1.1 hne
  have hxlt := hx.2
  have hindex := hp.2
  rw [advance_before]
  rcases advance_current hcurrent with ⟨-, hnext⟩ | ⟨hlast, hnext⟩
  · omega
  · omega

/-! When pipes are found dry, as `dry` says. -/

/-- How many pipes a search that skips all of them comes to before `p`: from the one whose turn it is to the last one,
and from there backwards. -/
def searched (r : Rota P) (p : P) : ℕ :=
  if r.pipes.index p = r.current then 0
  else if r.pipes.index p = 0 then r.active - r.current
  else r.active - r.pipes.index p

/-- A search comes to `a` out of its place, because all those before it are dry. -/
def Overtakes (r : Rota P) (dry : P → Prop) (a : P) : Prop :=
  ¬ dry a ∧ r.pipes.index a < r.active ∧ r.pipes.index a ≠ r.current ∧ r.pipes.index a ≠ 0 ∧
    ∀ p ∈ r.pipes.items, r.pipes.index p < r.active → r.searched p < r.searched a → dry p

instance (r : Rota P) (dry : P → Prop) [DecidablePred dry] (a : P) : Decidable (r.Overtakes dry a) := by
  unfold Overtakes
  infer_instance

def Ahead (r : Rota P) (dry : P → Prop) (x a : P) : Prop :=
  r.Before x a ∨ dry a ∧ r.pipes.index a = r.current ∧ r.current < r.pipes.index x

theorem deactivate_searched (h : r.Wf) (hp : r.IsCurrent p) {y : P} (hy : r.pipes.index y < r.active)
    (hne : r.pipes.index y ≠ r.current) :
    r.deactivate.pipes.index y < r.deactivate.active ∧ r.deactivate.searched y + 1 = r.searched y := by
  have hcurrent := hp.lt
  have hindex := deactivate_index h hp y
  unfold searched
  rw [hindex, deactivate_current, deactivate_active]
  split_ifs <;> omega

variable {dry : P → Prop}

theorem Overtakes.of_deactivate (h : r.Wf) (hp : r.IsCurrent p) (hdry : dry p)
    (ho : r.deactivate.Overtakes dry a) : r.Overtakes dry a := by
  have hindex := deactivate_index h hp a
  obtain ⟨hna, hai, hac, ha0, hbefore⟩ := ho
  rw [hindex, deactivate_active] at hai
  rw [hindex] at ha0
  have hkept : r.pipes.index a ≠ r.current ∧ r.pipes.index a ≠ 0 ∧ r.pipes.index a < r.active := by
    split_ifs at hai hac ha0 <;> omega
  have hsearched := (deactivate_searched h hp hkept.2.2 hkept.1).2
  refine ⟨hna, hkept.2.2, hkept.1, hkept.2.1, fun y hy hyi hlt => ?_⟩
  by_cases hyc : r.pipes.index y = r.current
  · exact (ArrayT.index_inj hy).mp (hyc.trans hp.2.symm) ▸ hdry
  · obtain ⟨hyi', hys⟩ := deactivate_searched h hp hyi hyc
    exact hbefore y (deactivate_mem.mpr hy) hyi' (by omega)

theorem Ahead.deactivate (h : r.Ahead dry x a) (hwf : r.Wf) (hp : r.IsCurrent p) (hdry : dry p)
    (hx : r.IsActive x) (hne : p ≠ x) (hno : ¬ r.Overtakes dry a) : r.deactivate.Ahead dry x a := by
  have hcurrent := hp.lt
  have hindex := deactivate_index hwf hp
  have hxlt := hx.2
  have hxp := index_ne hp.1.1 hne
  rw [hp.2] at hxp
  have hlast : r.pipes.index a = r.active - 1 → r.pipes.index a ≠ r.current → dry a := by
    intro hai hac
    by_contra hna
    refine hno ⟨hna, by omega, hac, by omega, fun y hy hyi hlt => ?_⟩
    have hyc : r.pipes.index y = r.current := by
      unfold searched at hlt
      split_ifs at hlt <;> omega
    exact (ArrayT.index_inj hy).mp (hyc.trans hp.2.symm) ▸ hdry
  unfold Ahead Before at h ⊢
  rw [hindex, hindex, deactivate_current, if_neg hxp]
  by_cases hai : r.pipes.index a = r.active - 1
  · by_cases hac : r.pipes.index a = r.current
    · split_ifs <;> omega
    · have hda := hlast hai hac
      simp only [hda, true_and] at h ⊢
      split_ifs <;> omega
  · split_ifs <;> grind

theorem Ahead.before (h : r.Ahead dry x a) (hp : r.IsCurrent p) (hdry : ¬ dry p) : r.Before x a := by
  refine h.resolve_right fun hskip => hdry ?_
  obtain ⟨hda, hindex, -⟩ := hskip
  exact (ArrayT.index_inj hp.1.1).mp (hp.2.trans hindex.symm) ▸ hda

end Rota

/-- The pipes of the messages that end in a list of frames, one after the other. -/
def finished {P : Type u} (l : List (P × Msg)) : List P := (l.filter fun f => !f.2.hasMore).map Prod.fst

theorem finished_append {P : Type u} (l l' : List (P × Msg)) : finished (l ++ l') = finished l ++ finished l' := by
  unfold finished
  rw [filter_append, map_append]

variable {i i' : Inlet}

theorem Inlet.read_dry (ha : i.inActive = true) (h : i.read = (none, i')) : i.pending = [] := by
  rcases i.read_cases with ⟨hi, -⟩ | ⟨-, hp, -⟩ | ⟨m, rest, -, -, hr⟩
  · exact nomatch hi.symm.trans ha
  · exact hp
  · exact nomatch hr.symm.trans h

theorem Inlet.checkRead_dry (ha : i.inActive = true) (h : i.checkRead = (false, i')) : i.frames = [] ∧ i'.frames = [] := by
  obtain ⟨a, frames⟩ := i
  cases ha
  cases frames with
  | nil =>
    obtain rfl := (Prod.mk.inj h).2
    exact ⟨rfl, rfl⟩
  | cons m rest => exact nomatch (Prod.mk.inj h).1

theorem Inlet.checkRead_some (h : i.checkRead = (true, i')) : i.frames ≠ [] := by
  intro hf
  unfold checkRead at h
  rw [hf] at h
  split_ifs at h
  all_goals exact nomatch h

namespace Rota

variable {P : Type u} [DecidableEq P] {r r' : Rota P} {inlets inlets' : P → Inlet} {a x p : P}

structure Listening (r : Rota P) (inlets : P → Inlet) (dry : Inlet → Prop) (x : P) : Prop where
  wf : r.Wf
  inActive : ∀ p, r.IsActive p → (inlets p).inActive = true
  active : r.IsActive x
  pending : ¬ dry (inlets x)

def Finds (dry : Inlet → Prop) (rel : Inlet → Inlet → Prop) : Prop :=
  ∀ i i', rel i i' → i.inActive = true → dry i ∧ dry i'

section

variable {dry : Inlet → Prop} {rel : Inlet → Inlet → Prop}

theorem Listening.ne (h : r.Listening inlets dry x) (hd : dry (inlets p)) : p ≠ x := by
  rintro rfl
  exact h.pending hd

theorem Listening.deactivate (h : r.Listening inlets dry x) (hp : r.IsCurrent p) (hne : p ≠ x) (i : Inlet) :
    r.deactivate.Listening (update inlets p i) dry x where
  wf := deactivate_wf h.wf hp
  inActive q hq := by
    obtain ⟨hq, hqp⟩ := (deactivate_isActive h.wf hp).mp hq
    rw [update_of_ne hqp]
    exact h.inActive q hq
  active := (deactivate_isActive h.wf hp).mpr ⟨h.active, hne.symm⟩
  pending := by rw [update_of_ne hne.symm]; exact h.pending

theorem find_active {E : Type v} {check : E → Bool × E} {ends ends' : P → E} {n : ℕ} (hn : r.active = n)
    (hx : find check n r ends = .ok (false, r', ends')) : r'.active = 0 := by
  induction n generalizing r ends with
  | zero =>
    cases hx
    exact hn
  | succ n ih =>
    unfold find at hx
    split at hx
    · exact nomatch hx
    · dsimp only at hx
      split_ifs at hx
      · exact nomatch hx
      · exact ih (by change r.active - 1 = n; omega) hx

theorem Skips.turns (hs : Skips rel r inlets r' inlets') (hfinds : Finds dry rel) (h : r.Listening inlets dry x) (a : P) :
    r'.Listening inlets' dry x ∧ r'.turns a x ≤ r.turns a x := by
  induction hs with
  | done => exact ⟨h, Nat.le_refl _⟩
  | skip hc he _ ih =>
    have hne := h.ne (hfinds _ _ he (h.inActive _ hc.1)).1
    obtain ⟨hl, hle⟩ := ih (h.deactivate hc hne _)
    exact ⟨hl, hle.trans (deactivate_turns h.wf hc h.active hne)⟩

theorem update_dry {i : Inlet} (hd : dry (inlets p)) (hi : dry i) :
    (fun q => dry (update inlets p i q)) = fun q => dry (inlets q) := by
  funext q
  rcases eq_or_ne q p with rfl | hne
  · rw [update_self]
    exact propext ⟨fun _ => hd, fun _ => hi⟩
  · rw [update_of_ne hne]

theorem Skips.ahead (hs : Skips rel r inlets r' inlets') (hfinds : Finds dry rel) (h : r.Listening inlets dry x)
    (hno : ¬ r.Overtakes (fun q => dry (inlets q)) a) (hahead : r.Ahead (fun q => dry (inlets q)) x a) :
    r'.Ahead (fun q => dry (inlets' q)) x a := by
  induction hs with
  | done => exact hahead
  | @skip r inlets p i r' inlets' hc he _ ih =>
    obtain ⟨hd, hd'⟩ := hfinds _ _ he (h.inActive _ hc.1)
    have hne := h.ne hd
    have hdry := update_dry hd hd'
    refine ih (h.deactivate hc hne i) ?_ ?_
    · rw [hdry]
      exact fun ho => hno (ho.of_deactivate h.wf hc hd)
    · rw [hdry]
      exact hahead.deactivate h.wf hc hd h.active hne hno

end

end Rota

namespace FqT

variable {P : Type u} [DecidableEq P] {fq fq' : FqT P} {inlets inlets' : P → Inlet} {a x p : P} {m : Msg}

theorem read_finds : Rota.Finds (fun i => i.pending = []) fun i i' => i.read = (none, i') := fun _ _ h ha =>
  ⟨Inlet.read_dry ha h, (Inlet.read_none h).trans (Inlet.read_dry ha h)⟩

theorem checkRead_finds : Rota.Finds (fun i => i.frames = []) fun i i' => i.checkRead = (false, i') := fun _ _ h ha =>
  Inlet.checkRead_dry ha h

theorem fetched_turns (fq : FqT P) (hp : fq.IsCurrent p) (hx : fq.IsActive x) (a : P) (m : Msg) :
    x ∈ finished [(p, m)] ∨ (finished [(p, m)]).count a + (fq.fetched m).turns a x ≤ fq.turns a x := by
  unfold fetched
  cases hm : m.hasMore with
  | true =>
    have hnone : finished [(p, m)] = [] := by simp [finished, hm]
    rw [hnone]
    right
    exact Nat.le_of_eq (Nat.zero_add _)
  | false =>
    have hone : finished [(p, m)] = [p] := by simp [finished, hm]
    rw [hone]
    by_cases hne : p = x
    · exact .inl (mem_singleton.mpr hne.symm)
    · right
      have hturns := Rota.advance_turns (a := a) hp hx hne
      rw [count_singleton, Nat.add_comm]
      simpa [beq_iff_eq] using hturns

theorem fetched_before (fq : FqT P) (hp : fq.IsCurrent p) (hx : fq.IsActive x) (hb : fq.Before x a) (m : Msg) :
    x ∈ finished [(p, m)] ∨ a ∉ finished [(p, m)] ∧ (fq.fetched m).Before x a := by
  unfold fetched
  cases hm : m.hasMore with
  | true =>
    have hnone : finished [(p, m)] = [] := by simp [finished, hm]
    rw [hnone]
    exact .inr ⟨not_mem_nil, hb⟩
  | false =>
    have hone : finished [(p, m)] = [p] := by simp [finished, hm]
    rw [hone]
    by_cases hne : p = x
    · exact .inl (mem_singleton.mpr hne.symm)
    · exact .inr ⟨fun h => hb.not_current hp (mem_singleton.mp h).symm, hb.advance hp hx hne⟩

theorem recvLoop_searches {n : ℕ} {o : Option (P × Msg)} (hwf : fq.Wf) (hn : fq.active = n)
    (hx : recvLoop n fq inlets = .ok (o, fq', inlets')) :
    ∃ (r : Rota P) (ends : P → Inlet), Rota.Skips (fun i i' => i.read = (none, i')) fq.toRota inlets r ends ∧
      (o = none ∧ r.active = 0 ∨
        ∃ p m i, o = some (p, m) ∧ r.IsCurrent p ∧ (ends p).read = (some m, i) ∧ fq' = fetched { fq with toRota := r } m) := by
  induction n generalizing fq inlets with
  | zero =>
    obtain ⟨rfl, -⟩ := ok_pair hx
    exact ⟨fq.toRota, inlets, .done, .inl ⟨rfl, hn⟩⟩
  | succ n ih =>
    obtain ⟨p, hget, hp⟩ := Rota.current_get hwf (by omega)
    obtain ⟨b, i, hr⟩ : ∃ b i, (inlets p).read = (b, i) := ⟨_, _, rfl⟩
    simp only [recvLoop, hget, hr] at hx
    cases b with
    | some m =>
      cases hx
      exact ⟨fq.toRota, inlets, .done, .inr ⟨p, m, i, rfl, hp, hr, rfl⟩⟩
    | none =>
      split_ifs at hx
      obtain ⟨r, ends, hs, hends⟩ := @ih { fq with toRota := fq.deactivate } (update inlets p i)
        (Rota.deactivate_wf hwf hp) (by change fq.active - 1 = n; omega) hx
      exact ⟨r, ends, .skip hp hr hs, hends⟩

theorem hasIn_searches {rc : Bool} (hwf : fq.Wf) (hx : fq.hasIn inlets = .ok (rc, fq', inlets')) : fq'.toRota = fq.toRota ∨
    ∃ ends, Rota.Skips (fun i i' => i.checkRead = (false, i')) fq.toRota inlets fq'.toRota ends ∧
      (fq'.active = 0 ∨ ∃ p, fq'.IsCurrent p ∧ (ends p).frames ≠ []) := by
  unfold hasIn at hx
  split_ifs at hx
  · cases hx
    exact .inl rfl
  · obtain ⟨⟨b, r, w⟩, hfind, hx⟩ := bind_ok hx
    cases hx
    obtain ⟨b', r', w', hf, ends, hs, hends⟩ := @Rota.find_goes _ _ _ _ Inlet.checkRead inlets _ hwf rfl
    obtain ⟨rfl, hrest⟩ := ok_pair (hfind.symm.trans hf)
    cases hrest
    refine .inr ⟨ends, hs, ?_⟩
    rcases hends with ⟨rfl, -⟩ | ⟨p, i, -, hp, hi, -⟩
    · exact .inl (Rota.find_active rfl hfind)
    · exact .inr ⟨p, hp, Inlet.checkRead_some hi⟩

end FqT

namespace FairQueue

variable {P : Type u} [DecidableEq P] {s s' s1 : FairQueue P} {a x p : P} {m : Msg} {op : Op P} {ops : List (Op P)}

/-- The pipe is active and has a complete message. -/
def Waiting (s : FairQueue P) (x : P) : Prop := s.fq.IsActive x ∧ ∃ m ∈ (s.inlets x).pending, m.hasMore = false

/-- The pipe waits and no pipe terminates. -/
def Waits (x : P) (s : FairQueue P) : Op P → Prop
  | .pipeTerminated _ => False
  | _ => s.Waiting x

/-- The pipe waits and the call does not come to `a` out of its place. -/
def WaitsOrdered (x a : P) (s : FairQueue P) (op : Op P) : Prop :=
  Waits x s op ∧
    match op with
    | .recvpipe => ¬ s.fq.Overtakes (fun p => (s.inlets p).pending = []) a
    | .hasIn => ¬ s.fq.Overtakes (fun p => (s.inlets p).frames = []) a
    | _ => True

instance (s : FairQueue P) (x : P) : Decidable (s.Waiting x) := by
  unfold Waiting Rota.IsActive
  infer_instance

instance (s : FairQueue P) (x : P) (op : Op P) : Decidable (Waits x s op) := by
  induction op using Op.casesOn <;> unfold Waits <;> infer_instance

instance (s : FairQueue P) (x a : P) (op : Op P) : Decidable (WaitsOrdered x a s op) := by
  unfold WaitsOrdered
  induction op using Op.casesOn <;> infer_instance

theorem Waits.keeps (h : Waits x s op) : s.Keeps op := by
  cases op with
  | pipeTerminated p => exact absurd h id
  | _ => trivial

theorem Waits.waiting (h : Waits x s op) : s.Waiting x := by
  cases op with
  | pipeTerminated p => exact absurd h id
  | _ => exact h

theorem Waiting.pending (h : s.Waiting x) : (s.inlets x).pending ≠ [] := by
  obtain ⟨m, hm, -⟩ := h.2
  exact ne_nil_of_mem hm

theorem Waiting.frames (h : s.Waiting x) : (s.inlets x).frames ≠ [] := by
  intro hf
  refine h.pending ?_
  unfold Inlet.pending
  rw [hf]
  rfl

theorem Waiting.listening {dry : Inlet → Prop} (h : s.Waiting x) (hs : s.Sound) (hd : ¬ dry (s.inlets x)) :
    s.fq.Listening s.inlets dry x where
  wf := hs.wf
  inActive := hs.listening
  active := h.1
  pending := hd

theorem step_joins (h : s.Sound) (hw : Waits x s op) (hs : Step s op s') (hop : op ≠ .recvpipe) (hop' : op ≠ .hasIn) :
    s'.got = s.got ∧ s'.fq.current = s.fq.current ∧ ∀ y, s'.fq.pipes.index y = s.fq.pipes.index y ∨
      s.fq.active ≤ s.fq.pipes.index y ∧ s.fq.active ≤ s'.fq.pipes.index y := by
  obtain ⟨hready, hrun⟩ := hs
  cases op with
  | attach p =>
    cases hrun
    have hfq := FqT.attach_toRota hready.1
    refine ⟨rfl, rfl, fun y => ?_⟩
    rw [hfq]
    exact Rota.attach_index h.wf hready.1 y
  | deliver p frames =>
    cases hrun
    exact ⟨rfl, rfl, fun y => .inl rfl⟩
  | activated p =>
    have hn : ¬ s.fq.IsActive p := fun ha => Bool.false_ne_true (hready.2.symm.trans (h.listening p ha))
    cases (if_pos (Rota.inactive_lt hready.1 hn)).symm.trans hrun
    exact ⟨rfl, rfl, Rota.activated_index hready.1 hn⟩
  | pipeTerminated p => exact absurd hw id
  | recvpipe => exact absurd rfl hop
  | hasIn => exact absurd rfl hop'

theorem step_recvpipe (h : s.Sound) (hw : s.Waiting x) (hs : Step s .recvpipe s') :
    ∃ (r : Rota P) (ends : P → Inlet) (p : P) (m : Msg),
      Rota.Skips (fun i i' => i.read = (none, i')) s.fq.toRota s.inlets r ends ∧ r.Listening ends (fun i => i.pending = []) x ∧
      r.IsCurrent p ∧ (ends p).pending ≠ [] ∧ s'.got = s.got ++ [(p, m)] ∧ s'.fq = FqT.fetched { s.fq with toRota := r } m := by
  obtain ⟨⟨o, fq, inlets⟩, hx, hret⟩ := bind_ok hs.2
  cases hret
  obtain ⟨r, ends, hskips, hends⟩ := FqT.recvLoop_searches h.wf rfl hx
  have hl := (hskips.turns FqT.read_finds (hw.listening h hw.pending) x).1
  rcases hends with ⟨-, hnone⟩ | ⟨p, m, i, rfl, hp, hread, rfl⟩
  · exact absurd hl.active.2 (by omega)
  · refine ⟨r, ends, p, m, hskips, hl, hp, ?_, rfl, rfl⟩
    rw [(Inlet.read_some hread).1]
    exact cons_ne_nil _ _

theorem step_turns (h : s.Sound) (hw : Waits x s op) (hs : Step s op s') (a : P) : ∃ l, s'.got = s.got ++ l ∧
    (x ∈ finished l ∨ (finished l).count a + s'.fq.turns a x ≤ s.fq.turns a x) := by
  have hwait := hw.waiting
  have hnone : s'.got = s.got → s'.fq.turns a x ≤ s.fq.turns a x → ∃ l, s'.got = s.got ++ l ∧
      (x ∈ finished l ∨ (finished l).count a + s'.fq.turns a x ≤ s.fq.turns a x) := fun hgot hle =>
    ⟨[], by rw [hgot, append_nil], .inr (by simpa [finished] using hle)⟩
  by_cases hop : op = .recvpipe
  · subst hop
    obtain ⟨r, ends, p, m, hskips, hl, hp, -, hgot, hfq⟩ := step_recvpipe h hwait hs
    have hturns := (hskips.turns FqT.read_finds (hwait.listening h hwait.pending) a).2
    refine ⟨[(p, m)], hgot, ?_⟩
    rw [hfq]
    exact (FqT.fetched_turns { s.fq with toRota := r } hp hl.active a m).imp id fun hle => hle.trans hturns
  by_cases hop' : op = .hasIn
  · subst hop'
    obtain ⟨⟨rc, fq, inlets⟩, hx, hret⟩ := bind_ok hs.2
    cases hret
    refine hnone rfl ?_
    rcases FqT.hasIn_searches h.wf hx with heq | ⟨ends, hskips, -⟩
    · exact heq ▸ Nat.le_refl _
    · exact (hskips.turns FqT.checkRead_finds (hwait.listening h hwait.frames) a).2
  · obtain ⟨hgot, hcurrent, hindex⟩ := step_joins h hw hs hop hop'
    exact hnone hgot (Rota.joins_turns h.wf hcurrent hindex)

theorem step_before (h : s.Sound) (hw : WaitsOrdered x a s op) (hb : s.fq.Before x a) (hs : Step s op s') :
    ∃ l, s'.got = s.got ++ l ∧ (x ∈ finished l ∨ a ∉ finished l ∧ s'.fq.Before x a) := by
  obtain ⟨hw, hordered⟩ := hw
  have hwait := hw.waiting
  have hnone : s'.got = s.got → s'.fq.Before x a → ∃ l, s'.got = s.got ++ l ∧
      (x ∈ finished l ∨ a ∉ finished l ∧ s'.fq.Before x a) := fun hgot hbefore =>
    ⟨[], by rw [hgot, append_nil], .inr ⟨not_mem_nil, hbefore⟩⟩
  by_cases hop : op = .recvpipe
  · subst hop
    obtain ⟨r, ends, p, m, hskips, hl, hp, hpending, hgot, hfq⟩ := step_recvpipe h hwait hs
    have hahead := hskips.ahead FqT.read_finds (hwait.listening h hwait.pending) hordered (.inl hb)
    refine ⟨[(p, m)], hgot, ?_⟩
    rw [hfq]
    exact FqT.fetched_before { s.fq with toRota := r } hp hl.active (hahead.before hp hpending) m
  by_cases hop' : op = .hasIn
  · subst hop'
    obtain ⟨⟨rc, fq, inlets⟩, hx, hret⟩ := bind_ok hs.2
    cases hret
    refine hnone rfl ?_
    rcases FqT.hasIn_searches h.wf hx with heq | ⟨ends, hskips, hends⟩
    · exact heq ▸ hb
    · have hlisten : s.fq.Listening s.inlets (fun i => i.frames = []) x := hwait.listening h hwait.frames
      have hl := (hskips.turns FqT.checkRead_finds hlisten x).1
      rcases hends with hzero | ⟨p, hp, hframes⟩
      · exact absurd hl.active.2 (by omega)
      · exact (hskips.ahead FqT.checkRead_finds hlisten hordered (.inl hb)).before hp hframes
  · obtain ⟨hgot, hcurrent, hindex⟩ := step_joins h hw hs hop hop'
    exact hnone hgot (hb.joins h.wf hcurrent hwait.1 hindex)

theorem run_before (h : s1.Sound) (hb : s1.fq.Before x a) (hrun : Run (fun s => s = s1) (Guarded (WaitsOrdered x a) Step) ops s) :
    s.Sound ∧ ∃ l, s.got = s1.got ++ l ∧ (x ∈ finished l ∨ a ∉ finished l ∧ s.fq.Before x a) := by
  induction hrun with
  | nil h0 =>
    subst h0
    exact ⟨h, [], (append_nil _).symm, .inr ⟨not_mem_nil, hb⟩⟩
  | snoc _ hs ih =>
    obtain ⟨hsound, l, hgot, hl⟩ := ih
    have hnext := step_sound hsound ⟨hs.1.1.keeps, hs.2⟩
    rcases hl with hx | ⟨hna, hbefore⟩
    · obtain ⟨l', hgot', -⟩ := step_turns hsound hs.1.1 hs.2 a
      refine ⟨hnext, l ++ l', by rw [hgot', hgot, append_assoc], .inl ?_⟩
      rw [finished_append]
      exact mem_append_left _ hx
    · obtain ⟨l', hgot', hl'⟩ := step_before hsound hs.1 hbefore hs.2
      refine ⟨hnext, l ++ l', by rw [hgot', hgot, append_assoc], ?_⟩
      rw [finished_append, mem_append, mem_append, not_or]
      exact hl'.imp .inr fun ⟨hna', hb'⟩ => ⟨⟨hna, hna'⟩, hb'⟩

theorem returned (h : s.Sound) (hrun : s.run .recvpipe = .ok s1) (hgot : s1.got = s.got ++ [(a, m)])
    (hm : m.hasMore = false) : ∃ r : Rota P, r.IsCurrent a ∧ s1.fq.toRota = r.advance := by
  obtain ⟨⟨o, fq, inlets⟩, hx, hret⟩ := bind_ok hrun
  cases hret
  obtain ⟨r, w, -, -, hnone | ⟨p, m', i, hp, -, hsome⟩⟩ := @FqT.recvLoop_goes _ _ s.fq s.inlets _ h.wf rfl fun hm => by
    obtain ⟨p, hp⟩ := Option.isSome_iff_exists.mp (h.more ▸ hm)
    exact ⟨p, h.current p hp, Inlet.read_isSome (h.listening p (h.current p hp).1) (h.rest_pending hp)⟩
  · cases hx.symm.trans hnone
    exact absurd (append_cancel_left hgot) (by simp)
  · obtain ⟨rfl, hrest⟩ := ok_pair (hx.symm.trans hsome)
    cases hrest
    cases singleton_inj.mp (append_cancel_left hgot)
    refine ⟨r, hp, ?_⟩
    unfold FqT.fetched
    rw [if_neg (Bool.eq_false_iff.mp hm)]

/-- A state between messages, from which on what is received is counted. -/
structure Rests (s : FairQueue P) : Prop where
  wf : s.fq.Wf
  listening : ∀ p, s.fq.IsActive p → (s.inlets p).inActive = true
  more : s.fq.more = false
  whole : ∀ p, Whole (s.inlets p).pending
  delivered : ∀ p, s.delivered p = (s.inlets p).pending
  got : s.got = []

theorem Rests.sound (h : s.Rests) : s.Sound := by
  have hreading : s.reading = none := by
    unfold reading
    rw [h.got]
    rfl
  have hreceived : ∀ p, s.received p = [] := fun p => by simp [received, h.got]
  refine ⟨h.wf, h.listening, ?_, fun p hp => ?_, fun p _ => ?_, fun p => ?_, fun p => ?_, ?_⟩
  · rw [hreading]
    exact h.more
  · rw [hreading] at hp
    exact absurd hp.symm (Option.some_ne_none p)
  · rw [hreceived, h.delivered]
    rfl
  · rw [hreceived]
    exact nil_prefix
  · rw [h.delivered]
    exact h.whole p
  · rw [h.got]
    exact isChain_nil

section

variable {before : List (Op P)}

theorem rests_sound (h : Run Rests (Guarded Keeps Step) before s) (hrun : s.run .recvpipe = .ok s1) : s.Sound ∧ s1.Sound := by
  have hs : s.Sound := h.invariant Sound (fun _ h0 => h0.sound) fun _ _ _ hI hs => step_sound hI hs
  have hstep : Guarded Keeps Step s .recvpipe s1 := ⟨trivial, trivial, hrun⟩
  exact ⟨hs, step_sound hs hstep⟩

/-- Between two messages of `a` one of `x`, which waits, has been returned, unless a search came to `a` out of its
place. -/
theorem fair_between (h : Run Rests (Guarded Keeps Step) before s) (hrun : s.run .recvpipe = .ok s1)
    (hgot : s1.got = s.got ++ [(a, m)]) (hm : m.hasMore = false) (hne : a ≠ x) (hx : s1.Waiting x)
    (hrun' : Run (fun s => s = s1) (Guarded (WaitsOrdered x a) Step) ops s') :
    ∃ l, s'.got = s1.got ++ l ∧ (a ∈ finished l → x ∈ finished l) := by
  obtain ⟨hs, hs1⟩ := rests_sound h hrun
  obtain ⟨r, hr, heq⟩ := returned hs hrun hgot hm
  have hactive : r.IsActive x := by
    have hx := hx.1
    rw [heq] at hx
    exact hx
  obtain ⟨-, l, hl, hbefore⟩ := run_before hs1 (heq ▸ Rota.before_after hr hactive hne) hrun'
  exact ⟨l, hl, fun ha => hbefore.resolve_right fun hn => hn.1 ha⟩

end

theorem new_rests : Rests (new : FairQueue P) where
  wf := new_sound.wf
  listening := new_sound.listening
  more := rfl
  whole _ _ hm := absurd hm.symm (Option.some_ne_none _)
  delivered _ := rfl
  got := rfl

def returns (guard : FairQueue P → Op P → Prop) [∀ s op, Decidable (guard s op)] (x : P) (f : P × Msg) (ops : List (Op P))
    (l : List (P × Msg)) (s : FairQueue P) : Bool :=
  match s.run .recvpipe with
  | .error _ => false
  | .ok s1 => decide ((s1.got = s.got ++ [f] ∧ s1.Waiting x) ∧ (play Ready run guard s1 ops).map got = some (s1.got ++ l))

theorem of_returns {guard : FairQueue P → Op P → Prop} [∀ s op, Decidable (guard s op)] {f : P × Msg} {l : List (P × Msg)}
    (h : s.returns guard x f ops l = true) : ∃ s1 s', s.run .recvpipe = .ok s1 ∧ s1.got = s.got ++ [f] ∧ s1.Waiting x ∧
      Run (fun s => s = s1) (Guarded guard Step) ops s' ∧ s'.got = s1.got ++ l := by
  unfold returns at h
  cases hrun : s.run .recvpipe with
  | error e =>
    rw [hrun] at h
    exact nomatch h
  | ok s1 =>
    rw [hrun] at h
    obtain ⟨⟨hgot, hx⟩, hplay⟩ := of_decide_eq_true h
    obtain ⟨s', hrun', hgot'⟩ : ∃ s', Run (fun s => s = s1) (Guarded guard Step) ops s' ∧ s'.got = s1.got ++ l :=
      run_of_play rfl hplay
    exact ⟨s1, s', rfl, hgot, hx, hrun', hgot'⟩

/-- Three pipes, the first of which has nothing more, when it is the turn of the last. -/
def lastTurn (more : List Msg) : List (Op ℕ) :=
  [.attach 0, .attach 1, .attach 2, .deliver 0 [⟨.vsm, 0, [1]⟩], .deliver 1 [⟨.vsm, 0, [2]⟩],
    .deliver 2 (⟨.vsm, 0, [3]⟩ :: more), .recvpipe, .recvpipe, .deliver 1 [⟨.vsm, 0, [4]⟩, ⟨.vsm, 0, [5]⟩]]

/-- The first pipe has another message in time. -/
theorem fair_between_dry : ∃ s s1 s' : FairQueue ℕ, Run Rests (Guarded Keeps Step) (lastTurn [⟨.vsm, 0, [6]⟩, ⟨.vsm, 0, [7]⟩]) s ∧
    s.run .recvpipe = .ok s1 ∧ s1.got = s.got ++ [(2, ⟨.vsm, 0, [3]⟩)] ∧
    Run (fun s => s = s1) (Guarded (WaitsOrdered 1 2) Step) [.deliver 0 [⟨.vsm, 0, [8]⟩], .recvpipe, .recvpipe, .recvpipe] s' ∧
    ∃ l, s'.got = s1.got ++ l ∧ 2 ∈ finished l ∧ 1 ∈ finished l := by
  obtain ⟨s, hs, hreturns⟩ : ∃ s : FairQueue ℕ, Run Rests (Guarded Keeps Step) (lastTurn [⟨.vsm, 0, [6]⟩, ⟨.vsm, 0, [7]⟩]) s ∧
      s.returns (WaitsOrdered 1 2) 1 (2, ⟨.vsm, 0, [3]⟩) [.deliver 0 [⟨.vsm, 0, [8]⟩], .recvpipe, .recvpipe, .recvpipe]
        [(0, ⟨.vsm, 0, [8]⟩), (1, ⟨.vsm, 0, [4]⟩), (2, ⟨.vsm, 0, [6]⟩)] = true := by
    refine run_of_play new_rests ?_
    decide
  obtain ⟨s1, s', hrun, hgot, hx, hrun', hgot'⟩ := of_returns hreturns
  refine ⟨s, s1, s', hs, hrun, hgot, hrun', ?_⟩
  obtain ⟨l, hl, hfair⟩ := fair_between hs hrun hgot rfl (by decide) hx hrun'
  obtain rfl := append_cancel_left (hgot'.symm.trans hl)
  exact ⟨_, hl, by decide, hfair (by decide)⟩

/-- The last pipe takes the place of the first, which is found dry, and has its turn again before the second. -/
theorem unfair_between : ¬ ∀ (before ops : List (Op ℕ)) (s s1 s' : FairQueue ℕ) (a x : ℕ) (m : Msg),
    Run Rests (Guarded Keeps Step) before s → s.run .recvpipe = .ok s1 → s1.got = s.got ++ [(a, m)] →
    m.hasMore = false → a ≠ x → s1.Waiting x → Run (fun s => s = s1) (Guarded (Waits x) Step) ops s' →
      ∃ l, s'.got = s1.got ++ l ∧ (a ∈ finished l → x ∈ finished l) := by
  intro hfair
  obtain ⟨s, hs, hreturns⟩ : ∃ s : FairQueue ℕ, Run Rests (Guarded Keeps Step) (lastTurn [⟨.vsm, 0, [6]⟩]) s ∧
      s.returns (Waits 1) 1 (2, ⟨.vsm, 0, [3]⟩) [.hasIn, .recvpipe] [(2, ⟨.vsm, 0, [6]⟩)] = true := by
    refine run_of_play new_rests ?_
    decide
  obtain ⟨s1, s', hrun, hgot, hx, hrun', hgot'⟩ := of_returns hreturns
  obtain ⟨l, hl, hturn⟩ := hfair _ _ s s1 s' 2 1 _ hs hrun hgot rfl (by decide) hx hrun'
  obtain rfl := append_cancel_left (hgot'.symm.trans hl)
  exact absurd (hturn (by decide)) (by decide)

end FairQueue

end Zmq
