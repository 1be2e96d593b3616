import LibZmq.Sockets.FairQueue

/-! A fair queue as the socket over it sees it: which frame a call returns next, and what that leaves to be read. -/

namespace Zmq

open List Option Bool Prod

open Function (update update_eq_self update_of_ne update_self)

namespace Inlet

variable {i i' : Inlet} {m : Msg}

theorem read_some_shorter (h : i.read = (some m, i')) : i'.frames.length < i.frames.length := by
  unfold read at h
  split_ifs at h
  · exact absurd (Prod.mk.inj h).1.symm (Option.some_ne_none m)
  · cases hd : i.frames.dropWhile Msg.isCredential with
    | nil =>
      rw [hd] at h
      exact absurd (Prod.mk.inj h).1.symm (Option.some_ne_none m)
    | cons x rest =>
      rw [hd] at h
      obtain ⟨-, rfl⟩ := Prod.mk.inj h
      have hle : (x :: rest).length ≤ i.frames.length := hd ▸ (dropWhile_sublist _).length_le
      exact Nat.lt_of_lt_of_le (Nat.lt_succ_self _) hle

end Inlet

namespace FqT

variable {P : Type} {fq fq' : FqT P} {inlets inlets' : P → Inlet} {p : P} {m : Msg} {i : Inlet}

/-- The frames in the pipes, credentials among them. -/
def held (fq : FqT P) (inlets : P → Inlet) : ℕ := (fq.pipes.items.map fun p => (inlets p).frames.length).sum

def Listens [DecidableEq P] (fq : FqT P) (inlets : P → Inlet) : Prop :=
  ∀ p ∈ fq.pipes, (inlets p).inActive = true → fq.IsActive p

theorem fetched_pipes : (fq.fetched m).pipes = fq.pipes := by
  unfold fetched
  split_ifs <;> rfl

theorem fetched_active : (fq.fetched m).active = fq.active := by
  unfold fetched
  split_ifs <;> rfl

variable [DecidableEq P]

omit [DecidableEq P] in
theorem held_perm (h : fq'.pipes.items.Perm fq.pipes.items) : fq'.held inlets = fq.held inlets := (h.map _).sum_eq

theorem held_le (hi : i.frames.length ≤ (inlets p).frames.length) : fq.held (update inlets p i) ≤ fq.held inlets := by
  refine sum_le_sum fun q _ => ?_
  rcases eq_or_ne q p with rfl | hne
  · rwa [update_self]
  · rw [update_of_ne hne]

theorem held_lt (hp : p ∈ fq.pipes) (hi : i.frames.length < (inlets p).frames.length) :
    fq.held (update inlets p i) < fq.held inlets := by
  refine sum_lt_sum _ _ (fun q _ => ?_) ⟨p, hp, ?_⟩
  · rcases eq_or_ne q p with rfl | hne
    · rw [update_self]
      exact Nat.le_of_lt hi
    · rw [update_of_ne hne]
  · rwa [update_self]

theorem fetched_listens (h : fq.Listens inlets) (hc : fq.IsCurrent p) : Listens (fq.fetched m) (update inlets p i) := by
  intro q hq hi
  have hactive : fq.IsActive q := by
    rcases eq_or_ne q p with rfl | hne
    · exact hc.1
    · rw [update_of_ne hne] at hi
      exact h q (fetched_pipes ▸ hq) hi
  unfold Rota.IsActive at hactive ⊢
  rwa [fetched_pipes, fetched_active]

theorem deactivate_listens (h : fq.Listens inlets) (hwf : fq.Wf) (hc : fq.IsCurrent p) (hi : i.inActive = false) :
    Listens { fq with toRota := fq.deactivate } (update inlets p i) := by
  intro q hq hq'
  have hne : q ≠ p := by
    rintro rfl
    rw [update_self, hi] at hq'
    exact false_ne_true hq'
  rw [update_of_ne hne] at hq'
  exact (Rota.deactivate_isActive hwf hc).mpr ⟨h q (Rota.deactivate_mem.mp hq) hq', hne⟩

theorem skips_listens {r r' : Rota P} {w w' : P → Inlet} {more : Bool} (hs : Rota.Skips Kept r w r' w') (hwf : r.Wf)
    (h : Listens ⟨r, more⟩ w) : Listens ⟨r', more⟩ w' := by
  induction hs with
  | done => exact h
  | skip hc hi _ ih => exact ih (Rota.deactivate_wf hwf hc) (deactivate_listens h hwf hc hi.2.1)

theorem attach_listens (hwf : fq.Wf) (h : fq.Listens inlets) (hp : p ∉ fq.pipes) : Listens (fq.attach p) (update inlets p i) := by
  intro q hq hi
  rw [attach_toRota hp] at hq ⊢
  refine (Rota.attach_isActive hwf hp).mpr ?_
  rcases eq_or_ne q p with rfl | hne
  · exact .inr rfl
  · rw [update_of_ne hne] at hi
    exact .inl (h q ((Rota.attach_mem.mp hq).resolve_right hne) hi)

theorem activated_listens (h : fq.Listens inlets) (hp : p ∈ fq.pipes) (hn : ¬ fq.IsActive p) :
    Listens (fq.activated p) (update inlets p i) := by
  intro q hq hi
  refine (Rota.activated_isActive hp hn).mpr ?_
  rcases eq_or_ne q p with rfl | hne
  · exact .inr rfl
  · rw [update_of_ne hne] at hi
    exact .inl (h q (Rota.activated_mem.mp hq) hi)

theorem Listens.narrow (h : fq.Listens inlets) (hi : ∀ p, (inlets' p).inActive = true → (inlets p).inActive = true) :
    fq.Listens inlets' := fun p hp ha => h p hp (hi p ha)

omit [DecidableEq P] in
theorem deactivate_perm : fq.deactivate.pipes.items.Perm fq.pipes.items := by
  unfold Rota.deactivate ArrayT.swap
  dsimp only
  split_ifs with h
  · exact set_set_perm h.1 h.2
  · exact List.Perm.refl _

theorem recvLoop_held {n : ℕ} {r : Option (P × Msg)} (hn : fq.active = n) (hx : recvLoop n fq inlets = .ok (r, fq', inlets')) :
    (r = none → fq'.active = 0) ∧ fq'.held inlets' + r.toList.length ≤ fq.held inlets := by
  induction n generalizing fq inlets with
  | zero =>
    cases hx
    exact ⟨fun _ => hn, Nat.le_refl _⟩
  | succ n ih =>
    cases hget : fq.pipes.get fq.current with
    | none => simp [recvLoop, hget] at hx
    | some p =>
      obtain ⟨b, i, hr⟩ : ∃ b i, (inlets p).read = (b, i) := ⟨_, _, rfl⟩
      simp only [recvLoop, hget, hr] at hx
      cases b with
      | some m =>
        cases hx
        refine ⟨fun hc => absurd hc (by simp), ?_⟩
        have hheld : held (fq.fetched m) (update inlets p i) = held fq (update inlets p i) := by
          unfold held
          rw [fetched_pipes]
        rw [hheld]
        exact held_lt (ArrayT.get_iff.mp hget).1 (Inlet.read_some_shorter hr)
      | none =>
        split_ifs at hx
        obtain ⟨hdry, hheld⟩ := @ih { fq with toRota := fq.deactivate } (update inlets p i)
          (by change fq.active - 1 = n; omega) hx
        refine ⟨hdry, Nat.le_trans hheld ?_⟩
        rw [@held_perm _ fq { fq with toRota := fq.deactivate } _ deactivate_perm]
        exact held_le (Inlet.read_none_inactive hr).2

theorem recvLoop_listens {n : ℕ} {r : Option (P × Msg)} (h : fq.Listens inlets) (hwf : fq.Wf) (hn : fq.active = n)
    (hx : recvLoop n fq inlets = .ok (r, fq', inlets')) :
    fq'.Listens inlets' ∧ fq'.pipes.items.Perm fq.pipes.items ∧ ∀ q, q ∉ fq.pipes → inlets' q = inlets q := by
  induction n generalizing fq inlets with
  | zero =>
    cases hx
    exact ⟨h, List.Perm.refl _, fun _ _ => rfl⟩
  | succ n ih =>
    obtain ⟨p, hget, hp⟩ := Rota.current_get hwf (by omega)
    obtain ⟨b, i, hr⟩ : ∃ b i, (inlets p).read = (b, i) := ⟨_, _, rfl⟩
    have hother : ∀ q, q ∉ fq.pipes → update inlets p i q = inlets q := fun q hq =>
      update_of_ne (by rintro rfl; exact hq hp.1.1) _ _
    simp only [recvLoop, hget, hr] at hx
    cases b with
    | some m =>
      cases hx
      exact ⟨fetched_listens h hp, by rw [fetched_pipes], hother⟩
    | none =>
      dsimp only at hx
      split_ifs at hx
      obtain ⟨hl, hperm, hsame⟩ := @ih { fq with toRota := fq.deactivate } (update inlets p i)
        (deactivate_listens h hwf hp (Inlet.read_none_inactive hr).1) (Rota.deactivate_wf hwf hp)
        (by change fq.active - 1 = n; omega) hx
      refine ⟨hl, hperm.trans deactivate_perm, fun q hq => ?_⟩
      exact (hsame q fun hc => hq (Rota.deactivate_mem.mp hc)).trans (hother q hq)

theorem recvpipe_current (hc : fq.IsCurrent p) (hr : (inlets p).read = (some m, i)) :
    fq.recvpipe inlets = .ok (some (p, m), fq.fetched m, update inlets p i) := by
  obtain ⟨n, hn⟩ : ∃ n, fq.active = n + 1 := Nat.exists_eq_succ_of_ne_zero hc.active_pos.ne'
  simp only [recvpipe, hn, recvLoop, hc.get, hr]

end FqT

structure Intake {P : Type} [DecidableEq P] (fq : FqT P) (inlets : P → Inlet) (arrived : P → List Msg)
    (got : List (P × Msg)) : Prop where
  queue : FairQueue.Sound ⟨fq, inlets, arrived, got⟩
  listens : fq.Listens inlets
  /-- a pipe that is not attached has nothing to read -/
  fresh : ∀ p, p ∉ fq.pipes → arrived p = [] ∧ (inlets p).pending = []

namespace Intake

variable {P : Type}

/-- The pipe of the message that has been received in part. -/
def reading (got : List (P × Msg)) : Option P := got.getLast?.bind fun x => if x.2.hasMore then some x.1 else none

variable [DecidableEq P]

def received (got : List (P × Msg)) (p : P) : List Msg := (got.filter fun x => x.1 = p).map snd

variable {fq fq' : FqT P} {inlets inlets' : P → Inlet} {arrived : P → List Msg} {got : List (P × Msg)} {p q : P}
  {m : Msg} {r : Option (P × Msg)}

theorem received_append {l : List (P × Msg)} : received (got ++ l) p = received got p ++ received l p := by
  simp [received]

theorem received_self : received [(p, m)] p = [m] := by simp [received]

theorem received_other (h : ∀ x ∈ got, x.1 ≠ p) : received got p = [] := by
  simpa [received, filter_eq_nil_iff] using h

omit [DecidableEq P] in
theorem reading_snoc : reading (got ++ [(p, m)]) = if m.hasMore then some p else none := by simp [reading]

omit [DecidableEq P] in
theorem reading_eq : reading got = some p ↔ ∃ l m, got = l ++ [(p, m)] ∧ m.hasMore = true :=
  FairQueue.reading_eq (s := { FairQueue.new with got := got })

theorem arrived_eq (h : Intake fq inlets arrived got) (p : P) : arrived p = received got p ++ (inlets p).pending := by
  by_cases hp : p ∈ fq.pipes
  · exact (h.queue.stream p hp).symm
  · have hreceived : received got p <+: arrived p := h.queue.past p
    rw [(h.fresh p hp).1] at hreceived ⊢
    rw [prefix_nil.mp hreceived, (h.fresh p hp).2]
    rfl

theorem recv (h : Intake fq inlets arrived got) : ∃ r fq' inlets', fq.recvpipe inlets = .ok (r, fq', inlets') ∧
    Intake fq' inlets' arrived (got ++ r.toList) ∧ (∀ p, p ∈ fq'.pipes ↔ p ∈ fq.pipes) ∧
    (r = none → fq'.active = 0 ∧ reading got = none) ∧ (∀ p, reading got = some p → ∃ m, r = some (p, m)) ∧
    fq'.held inlets' + r.toList.length ≤ fq.held inlets := by
  obtain ⟨s', hrun, hs⟩ := h.queue.recvpipe
  obtain ⟨⟨r, fq', inlets'⟩, hx, hret⟩ := bind_ok hrun
  cases hret
  obtain ⟨hlistens, hperm, hsame⟩ := FqT.recvLoop_listens h.listens h.queue.wf rfl hx
  obtain ⟨hdry, hheld⟩ := FqT.recvLoop_held rfl hx
  have hpipes : ∀ p, p ∈ fq'.pipes ↔ p ∈ fq.pipes := fun p => hperm.mem_iff
  have hnext : ∀ p, reading got = some p → ∃ m, r = some (p, m) := fun p hp => by
    have hc := h.queue.current p hp
    obtain ⟨m, hm⟩ := Option.isSome_iff_exists.mp (Inlet.read_isSome (h.queue.listening p hc.1) (h.queue.rest_pending hp))
    have hcurrent := FqT.recvpipe_current hc (Prod.ext hm rfl : (inlets p).read = (some m, _))
    exact ⟨m, (ok_pair (hx.symm.trans hcurrent)).1⟩
  refine ⟨r, fq', inlets', hx, ⟨hs, hlistens, fun p hp => ?_⟩, hpipes, fun hr => ⟨hdry hr, ?_⟩, hnext, hheld⟩
  · have hp : p ∉ fq.pipes := fun hc => hp ((hpipes p).mpr hc)
    rw [hsame p hp]
    exact h.fresh p hp
  · by_contra hc
    obtain ⟨p, hp⟩ := ne_none_iff_exists'.mp hc
    obtain ⟨m, hm⟩ := hnext p hp
    rw [hr] at hm
    exact some_ne_none _ hm.symm

theorem skips (hs : Rota.Skips FqT.Kept fq.toRota inlets fq'.toRota inlets') (hm : fq.more = false)
    (hm' : fq'.more = fq.more) (h : Intake fq inlets arrived got) : Intake fq' inlets' arrived got := by
  obtain ⟨r, more⟩ := fq
  obtain ⟨r', more'⟩ := fq'
  dsimp only at hm hm' hs
  subst hm'
  induction hs with
  | done => exact h
  | @skip r w p i r' w' hc hi hs ih =>
    refine ih ⟨h.queue.skip hc hm hi.1, FqT.deactivate_listens h.listens h.queue.wf hc hi.2.1, fun q hq => ?_⟩
    have hq : q ∉ r.pipes := fun hq' => hq (Rota.deactivate_mem.mpr hq')
    rw [update_of_ne (by rintro rfl; exact hq hc.1.1)]
    exact h.fresh q hq

theorem hasIn {rc : Bool} (h : Intake fq inlets arrived got) (hx : fq.hasIn inlets = .ok (rc, fq', inlets')) :
    Intake fq' inlets' arrived got := by
  obtain ⟨b, r, w, hgoes, hs, hmore⟩ := @FqT.hasIn_goes _ _ fq inlets h.queue.wf
  cases hgoes.symm.trans hx
  by_cases hm : fq.more = true
  · obtain ⟨rfl, rfl⟩ := hmore hm
    exact h
  · exact h.skips hs (eq_false_of_not_eq_true hm) rfl

theorem attach (h : Intake fq inlets arrived got) (hp : p ∉ fq.pipes) :
    Intake (fq.attach p) (update inlets p ⟨true, []⟩) arrived got := by
  refine ⟨h.queue.attach hp (h.fresh p hp).1, FqT.attach_listens h.queue.wf h.listens hp, fun q hq => ?_⟩
  change q ∉ (fq.attach p).toRota.pipes at hq
  rw [FqT.attach_toRota hp] at hq
  obtain ⟨hq, hne⟩ := not_or.mp (mt Rota.attach_mem.mpr hq)
  rw [update_of_ne hne]
  exact h.fresh q hq

theorem deliver {frames : List Msg} (h : Intake fq inlets arrived got) (hp : p ∈ fq.pipes)
    (hw : Whole (frames.filter fun m => !m.isCredential)) :
    Intake fq (update inlets p { inlets p with frames := (inlets p).frames ++ frames })
      (update arrived p (arrived p ++ frames.filter fun m => !m.isCredential)) got := by
  refine ⟨h.queue.deliver hw, h.listens.narrow fun q hi => ?_, fun q hq => ?_⟩
  · rcases eq_or_ne q p with rfl | hne
    · rwa [update_self] at hi
    · rwa [update_of_ne hne] at hi
  · have hne : q ≠ p := by
      rintro rfl
      exact hq hp
    rw [update_of_ne hne, update_of_ne hne]
    exact h.fresh q hq

theorem activated (h : Intake fq inlets arrived got) (hp : p ∈ fq.pipes) (hi : (inlets p).inActive = false) :
    fq.active < fq.pipes.size ∧ Intake (fq.activated p) (update inlets p { inlets p with inActive := true }) arrived got := by
  have hn : ¬ fq.IsActive p := fun ha => false_ne_true (hi.symm.trans (h.queue.listening p ha))
  have hlt := Rota.inactive_lt hp hn
  obtain ⟨s', hrun, hs⟩ := h.queue.activated hp hi
  cases (if_pos hlt).symm.trans hrun
  refine ⟨hlt, hs, FqT.activated_listens h.listens hp hn, fun q hq => ?_⟩
  have hq : q ∉ fq.pipes := fun hc => hq (Rota.activated_mem.mpr hc)
  have hne : q ≠ p := fun hc => hq (hc ▸ hp)
  rw [update_of_ne hne]
  exact h.fresh q hq

theorem whole_received (h : got.IsChain fun x y => x.2.hasMore = true → y.1 = x.1) (hp : reading got ≠ some p) :
    Whole (received got p) := by
  induction got using reverseRecOn with
  | nil => exact fun m hm => absurd hm.symm (some_ne_none m)
  | append_singleton l x ih =>
    obtain ⟨q, m⟩ := x
    rw [reading_snoc] at hp
    rw [received_append]
    rcases eq_or_ne q p with rfl | hne
    · rw [received_self]
      intro y hy
      rw [getLast?_concat] at hy
      cases hy
      by_contra hm
      exact hp (if_pos (by simpa using hm))
    · have hnone : received [(q, m)] p = [] := received_other fun x hx => by rwa [mem_singleton.mp hx]
      rw [hnone, append_nil]
      refine ih h.left_of_append fun hr => ?_
      obtain ⟨l', y, rfl, hy⟩ := reading_eq.mp hr
      have hchain := (isChain_append.mp h).2.2 (p, y) (by simp) (q, m) (by simp) hy
      exact hne hchain

theorem restart (h : Intake fq inlets arrived got) (hr : reading got = none) :
    Intake fq inlets (fun p => (inlets p).pending) [] := by
  have hmore : fq.more = false := by
    have hm : fq.more = (reading got).isSome := h.queue.more
    rw [hm, hr]
    rfl
  refine ⟨⟨h.queue.wf, h.queue.listening, hmore, fun p hp => ?_, fun p _ => rfl, fun p => nil_prefix, fun p => ?_,
    isChain_nil⟩, h.listens, fun p hp => ⟨(h.fresh p hp).2, (h.fresh p hp).2⟩⟩
  · exact absurd hp.symm (some_ne_none _)
  · intro m hm
    have hw : Whole (arrived p) := h.queue.whole p
    refine hw m ?_
    rw [h.arrived_eq p, getLast?_append, hm]
    rfl

end Intake

end Zmq
