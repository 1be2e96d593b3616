import LibZmq.Timers.Execute

/-! What `timeout` answers, and that it does not matter to later calls whether it has been called. -/

namespace Zmq

open List TimersT

universe u

/-- A timers object whose handlers leave it alone, and the times at which timers have fired. -/
structure TimersHistory (H : Type u) where
  timers : TimersT H
  fired : List (UInt64 × Finset ℤ)

namespace TimersHistory

open TimersT (Sheds quiet)

variable {H : Type u}

def new : TimersHistory H := ⟨.new, []⟩

inductive Op (H : Type u) where
  | add (now interval : UInt64) (handler : H)
  | cancel (timerId : ℤ)
  | setInterval (now : UInt64) (timerId : ℤ) (interval : UInt64)
  | reset (now : UInt64) (timerId : ℤ)
  | timeout (now : UInt64)
  | execute (now : UInt64)

/-- A timer that is cancelled has been added, and times that timers wait for are below 2 ^ 63. -/
def Ready (s : TimersHistory H) : Op H → Prop
  | .add now interval _ | .setInterval now _ interval => now.toNat + interval.toNat < 2 ^ 63
  | .cancel timerId => timerId ≤ s.timers.nextTimerId
  | .reset now timerId => ∀ key timer, s.timers.Waits key timer → timer.timerId = timerId → now.toNat + timer.interval.toNat < 2 ^ 63
  | .timeout now => now.toNat < 2 ^ 63
  | .execute now => ∀ timer, s.timers.Due now timer → now.toNat + timer.interval.toNat < 2 ^ 63

inductive Makes (s : TimersHistory H) : Op H → TimersHistory H → Prop
  | add {now interval handler timerId t} (_ : s.timers.add now interval handler = .ok (timerId, t)) :
      Makes s (.add now interval handler) { s with timers := t }
  | cancel {timerId} : Makes s (.cancel timerId) { s with timers := (s.timers.cancel timerId).2 }
  | setInterval {now timerId interval} :
      Makes s (.setInterval now timerId interval) { s with timers := (s.timers.setInterval now timerId interval).2 }
  | reset {now timerId} : Makes s (.reset now timerId) { s with timers := (s.timers.reset now timerId).2 }
  | timeout {now v t} (_ : s.timers.Timeout now (.ok (v, t))) : Makes s (.timeout now) { s with timers := t }
  | execute {now w fired} (_ : s.timers.Execute quiet now (.ok (w, fired))) :
      Makes s (.execute now) ⟨w.timers, s.fired ++ [(now, (fired.map TimerT.timerId).toFinset)]⟩

def Start (s : TimersHistory H) : Prop := s = new

def Step (s : TimersHistory H) (op : Op H) (s' : TimersHistory H) : Prop := s.Ready op ∧ Makes s op s'

def Op.isTimeout : Op H → Bool
  | .timeout _ => true
  | _ => false

def Next (t : TimersT H) (now : UInt64) (v : ℤ) : Prop :=
  (v = -1 ↔ ¬ ∃ key timer, t.Waits key timer) ∧
    ∀ key, IsLeast {key | ∃ timer, t.Waits key timer} key → v = max 0 ((key : ℤ) - now.toNat)

end TimersHistory

namespace TimersT

variable {H : Type u} {t t' : TimersT H} {now interval : UInt64} {timerId : ℤ} {handler : H}

theorem add_waits (hc : ∀ timerId ∈ t.cancelledTimers, timerId ≤ t.nextTimerId)
    (ht : t.add now interval handler = .ok (timerId, t')) (key : ℕ) (timer : TimerT H) :
    t'.Waits key timer ↔ t.Waits key timer ∨ key = (now + interval).toNat ∧ timer = ⟨t.nextTimerId + 1, interval, handler⟩ := by
  obtain ⟨-, rfl⟩ := add_eq ht
  constructor
  · rintro ⟨hlive, n, hn, rfl, rfl⟩
    rcases Multimap.mem_insert.mp hn with rfl | hn
    · exact .inr ⟨rfl, rfl⟩
    · exact .inl ⟨hlive, n, hn, rfl, rfl⟩
  · rintro (⟨hlive, n, hn, rfl, rfl⟩ | ⟨rfl, rfl⟩)
    · exact ⟨hlive, n, Multimap.mem_insert.mpr (.inr hn), rfl, rfl⟩
    · refine ⟨fun hmem => ?_, _, Multimap.mem_insert.mpr (.inl rfl), rfl, rfl⟩
      have := hc _ hmem
      dsimp only at this
      omega

theorem add_same {t1 : TimersT H} (ht : t.add now interval handler = .ok (timerId, t')) (hnext : t1.nextTimerId = t.nextTimerId) :
    ∃ t1', t1.add now interval handler = .ok (timerId, t1') := by
  obtain ⟨rfl, -⟩ := add_eq ht
  unfold add at ht ⊢
  rw [hnext]
  split_ifs at ht ⊢
  exact ⟨_, rfl⟩

theorem cancel_waits (key : ℕ) (timer : TimerT H) :
    (t.cancel timerId).2.Waits key timer ↔ t.Waits key timer ∧ timer.timerId ≠ timerId := by
  unfold cancel
  split_ifs with hc
  · refine (and_iff_left_of_imp fun h hid => ?_).symm
    exact h.1 (hid ▸ hc)
  · unfold Waits
    rw [Finset.mem_insert, not_or]
    tauto

theorem reinsert_waits {f : TimerT H → TimerT H} (h : Issued t) (hf : ∀ timer, (f timer).timerId = timer.timerId) (key : ℕ)
    (timer : TimerT H) : (t.reinsert now timerId f).2.Waits key timer ↔ t.Waits key timer ∧ timer.timerId ≠ timerId ∨
      ∃ key' timer', t.Waits key' timer' ∧ timer'.timerId = timerId ∧ timer = f timer' ∧
        key = (now + (f timer').interval).toNat := by
  rcases t.reinsert_cases now timerId f with ⟨hnone, he⟩ | ⟨n, hn, rfl, he⟩
  · rw [he]
    constructor
    · rintro ⟨hc, n, hn, rfl, rfl⟩
      exact .inl ⟨⟨hc, n, hn, rfl, rfl⟩, hnone n hn⟩
    · rintro (⟨hwaits, -⟩ | ⟨key', timer', ⟨-, n, hn, -, rfl⟩, hid, -⟩)
      · exact hwaits
      · exact absurd hid (hnone n hn)
  · rw [he]
    constructor
    · rintro ⟨hc, n', hn', rfl, rfl⟩
      rcases Multimap.mem_insert.mp hn' with rfl | hn'
      · refine .inr ⟨n.key, n.value, ⟨?_, n, hn, rfl, rfl⟩, rfl, rfl, rfl⟩
        rwa [hf] at hc
      · exact .inl ⟨⟨hc, n', (Multimap.mem_erase.mp hn').1, rfl, rfl⟩, h.distinct.erased hn n' hn'⟩
    · rintro (⟨⟨hc, n', hn', rfl, rfl⟩, hne⟩ | ⟨key', timer', ⟨hc, n', hn', -, rfl⟩, hid, rfl, rfl⟩)
      · refine ⟨hc, n', Multimap.mem_insert.mpr (.inr (Multimap.mem_erase.mpr ⟨hn', fun href => hne ?_⟩)), rfl, rfl⟩
        rw [Multimap.eq_of_ref hn' hn href]
      · obtain rfl := h.distinct n' hn' n hn hid
        refine ⟨?_, _, Multimap.mem_insert.mpr (.inl rfl), rfl, rfl⟩
        rwa [hf]

theorem reset_waits (h : Issued t) (key : ℕ) (timer : TimerT H) :
    (t.reset now timerId).2.Waits key timer ↔ t.Waits key timer ∧ timer.timerId ≠ timerId ∨
      ∃ key' timer', t.Waits key' timer' ∧ timer'.timerId = timerId ∧ timer = timer' ∧ key = (now + timer'.interval).toNat :=
  reinsert_waits (f := fun timer => timer) h (fun _ => rfl) key timer

theorem setInterval_waits (h : Issued t) (key : ℕ) (timer : TimerT H) :
    (t.setInterval now timerId interval).2.Waits key timer ↔ t.Waits key timer ∧ timer.timerId ≠ timerId ∨
      ∃ key' timer', t.Waits key' timer' ∧ timer'.timerId = timerId ∧ timer = { timer' with interval := interval } ∧
        key = (now + interval).toNat :=
  reinsert_waits (f := fun timer => { timer with interval := interval }) h (fun _ => rfl) key timer

end TimersT

namespace TimersHistory

open TimersT (Sheds quiet)

variable {H : Type u}

structure Sane (t : TimersT H) : Prop extends t.Issued where
  cancelled : ∀ timerId ∈ t.cancelledTimers, timerId ≤ t.nextTimerId
  times : ∀ key timer, t.Waits key timer → key < 2 ^ 63

structure Alike (s s' : TimersHistory H) : Prop where
  nextTimerId : s'.timers.nextTimerId = s.timers.nextTimerId
  waits : ∀ key timer, s'.timers.Waits key timer ↔ s.timers.Waits key timer
  fired : s'.fired = s.fired

variable {s s' s1 s1' : TimersHistory H} {t t' : TimersT H} {op : Op H} {ops : List (Op H)} {now interval : UInt64} {timerId : ℤ}
  {handler : H}

theorem toNat_add_lt {a b : UInt64} (h : a.toNat + b.toNat < 2 ^ 63) : (a + b).toNat < 2 ^ 63 := by
  rw [toNat_add_of_lt (Nat.lt_trans h (by decide))]
  exact h

theorem Sane.grows (h : Sane t) (ht : t.Grows t') (hnext : t.nextTimerId ≤ t'.nextTimerId)
    (hc : ∀ timerId ∈ t'.cancelledTimers, timerId ∈ t.cancelledTimers ∨ timerId ≤ t.nextTimerId)
    (htimes : ∀ key timer, t'.Waits key timer → t.Waits key timer ∨ key < 2 ^ 63) : Sane t' := by
  refine ⟨ht.toIssued, fun timerId hid => ?_, fun key timer hwaits => ?_⟩
  · rcases hc timerId hid with hid | hle
    · exact (h.cancelled timerId hid).trans hnext
    · exact hle.trans hnext
  · rcases htimes key timer hwaits with hwaits | hlt
    · exact h.times key timer hwaits
    · exact hlt

theorem reinsert_same (t : TimersT H) (now : UInt64) (timerId : ℤ) (f : TimerT H → TimerT H) :
    (t.reinsert now timerId f).2.nextTimerId = t.nextTimerId ∧
      (t.reinsert now timerId f).2.cancelledTimers = t.cancelledTimers := by
  rcases t.reinsert_cases now timerId f with ⟨-, he⟩ | ⟨n, -, -, he⟩ <;> rw [he] <;> exact ⟨rfl, rfl⟩

theorem cancel_next (t : TimersT H) (timerId : ℤ) : (t.cancel timerId).2.nextTimerId = t.nextTimerId := by
  unfold cancel
  split_ifs <;> rfl

theorem timeout_sheds {v : ℤ} (h : Sane t) (ht : t.Timeout now (.ok (v, t'))) : Sheds t t' ∧ t'.Answers now v := by
  obtain ⟨v', t'', -, hreturns, hsheds, hanswers⟩ := timeout_eq now h.distinct
  cases hreturns.unique ht
  exact ⟨hsheds, hanswers⟩

theorem Sane.step (h : Sane s.timers) (hs : Step s op s') : Sane s'.timers := by
  obtain ⟨hr, hm⟩ := hs
  cases hm with
  | add ht =>
    have hwaits := add_waits h.cancelled ht
    have heq := (add_eq ht).2
    apply h.grows (h.toIssued.add ht)
    · rw [heq]
      exact (Int.lt_succ _).le
    · rw [heq]
      exact fun timerId hid => .inl hid
    · intro key timer hw
      rcases (hwaits key timer).mp hw with hw | ⟨rfl, -⟩
      · exact .inl hw
      · exact .inr (toNat_add_lt hr)
  | @cancel timerId =>
    have hgrows : s.timers.Grows (s.timers.cancel timerId).2 := h.toIssued.cancel
    apply h.grows hgrows (cancel_next s.timers timerId).ge
    · intro id hid
      unfold cancel at hid
      split_ifs at hid
      · exact .inl hid
      · rcases Finset.mem_insert.mp hid with rfl | hid
        · exact .inr hr
        · exact .inl hid
    · exact fun key timer hw => .inl ((cancel_waits key timer).mp hw).1
  | @setInterval now timerId interval =>
    obtain ⟨hnext, hcancelled⟩ := reinsert_same s.timers now timerId fun timer => { timer with interval := interval }
    have hgrows : s.timers.Grows (s.timers.setInterval now timerId interval).2 := h.toIssued.reinsert fun _ => rfl
    apply h.grows hgrows hnext.ge fun id hid => .inl (hcancelled ▸ hid)
    intro key timer hw
    apply ((setInterval_waits h.toIssued key timer).mp hw).imp And.left
    rintro ⟨key', timer', -, -, -, rfl⟩
    exact toNat_add_lt hr
  | @reset now timerId =>
    obtain ⟨hnext, hcancelled⟩ := reinsert_same s.timers now timerId fun timer => timer
    have hgrows : s.timers.Grows (s.timers.reset now timerId).2 := h.toIssued.reinsert fun _ => rfl
    apply h.grows hgrows hnext.ge fun id hid => .inl (hcancelled ▸ hid)
    intro key timer hw
    apply ((reset_waits h.toIssued key timer).mp hw).imp And.left
    rintro ⟨key', timer', hwaits, hid, -, rfl⟩
    exact toNat_add_lt (hr key' timer' hwaits hid)
  | timeout ht =>
    obtain ⟨hsheds, -⟩ := timeout_sheds h ht
    apply h.grows (h.toIssued.sheds hsheds) hsheds.nextTimerId.ge
    · exact fun timerId hid => .inl (hsheds.forgets timerId hid)
    · exact fun key timer hw => .inl (hsheds.waits.mp hw)
  | @execute now w fired he =>
    obtain ⟨w', fired', heq, hexecuted⟩ := he.executed h.distinct
    cases heq
    refine ⟨⟨hexecuted.distinct, fun n hn => ?_⟩, fun timerId hid => ?_, fun key timer hw => ?_⟩
    · obtain ⟨n', hn', hid⟩ := hexecuted.has _ ⟨n, hn, rfl⟩
      rw [← hid, hexecuted.nextTimerId]
      exact h.given n' hn'
    · rw [hexecuted.nextTimerId]
      exact h.cancelled timerId ((hexecuted.cancelled timerId).mp hid).1
    · rcases (hexecuted.waits key timer).mp hw with ⟨hwaits, -⟩ | ⟨hdue, rfl⟩
      · exact h.times key timer hwaits
      · exact toNat_add_lt (hr timer hdue)

theorem Alike.step (hab : Alike s s1) (h : Sane s.timers) (h1 : Sane s1.timers) (hs : Step s op s') (hop : op.isTimeout = false) :
    ∃ s1', Step s1 op s1' ∧ Alike s' s1' := by
  obtain ⟨hr, hm⟩ := hs
  have hdue : ∀ now timer, s1.timers.Due now timer ↔ s.timers.Due now timer := fun now timer =>
    exists_congr fun key => and_congr_right fun _ => hab.waits key timer
  cases hm with
  | @add now interval handler timerId t ht =>
    have hwaits := add_waits h.cancelled ht
    obtain ⟨t1, ht1⟩ := add_same ht hab.nextTimerId
    refine ⟨_, ⟨hr, .add ht1⟩, ?_, fun key timer => ?_, hab.fired⟩
    · rw [(add_eq ht).2, (add_eq ht1).2]
      exact congrArg (· + 1) hab.nextTimerId
    · rw [add_waits h1.cancelled ht1, hwaits, hab.waits, hab.nextTimerId]
  | @cancel timerId =>
    refine ⟨_, ⟨?_, .cancel⟩, ?_, fun key timer => ?_, hab.fired⟩
    · unfold Ready
      rw [hab.nextTimerId]
      exact hr
    · exact (cancel_next _ _).trans (hab.nextTimerId.trans (cancel_next _ _).symm)
    · rw [cancel_waits, cancel_waits, hab.waits]
  | @setInterval now timerId interval =>
    refine ⟨_, ⟨hr, .setInterval⟩, ?_, fun key timer => ?_, hab.fired⟩
    · exact (reinsert_same _ _ _ _).1.trans (hab.nextTimerId.trans (reinsert_same _ _ _ _).1.symm)
    · rw [setInterval_waits h.toIssued, setInterval_waits h1.toIssued]
      simp only [hab.waits]
  | @reset now timerId =>
    refine ⟨_, ⟨fun key timer hw => hr key timer ((hab.waits key timer).mp hw), .reset⟩, ?_, fun key timer => ?_, hab.fired⟩
    · exact (reinsert_same _ _ _ _).1.trans (hab.nextTimerId.trans (reinsert_same _ _ _ _).1.symm)
    · rw [reset_waits h.toIssued, reset_waits h1.toIssued]
      simp only [hab.waits]
  | timeout ht => exact nomatch hop
  | @execute now w fired he =>
    obtain ⟨w', fired', heq, hexecuted⟩ := he.executed h.distinct
    cases heq
    have hbounded : s1.timers.Bounded now := fun timer hd => (hr timer ((hdue now timer).mp hd)).trans (by decide)
    have halone : TimersT.Walk.Alone s1.timers now := by
      intro timer timer' hd hd' hzero hzero'
      by_contra hne
      exact (execute_diverges h.distinct ((hdue now timer).mp hd) ((hdue now timer').mp hd') hne hzero hzero').not_returns he
    obtain ⟨r, hr1⟩ := execute_returns h1.distinct halone hbounded
    obtain ⟨w1, fired1, rfl, hexecuted1⟩ := hr1.executed h1.distinct
    refine ⟨_, ⟨fun timer hd => hr timer ((hdue now timer).mp hd), .execute hr1⟩, ?_, fun key timer => ?_, ?_⟩
    · exact hexecuted1.nextTimerId.trans (hab.nextTimerId.trans hexecuted.nextTimerId.symm)
    · rw [hexecuted1.waits, hexecuted.waits, hab.waits, hdue]
    · have hsame : (fired1.map TimerT.timerId).toFinset = (fired.map TimerT.timerId).toFinset := by
        ext timerId
        simp only [mem_toFinset, mem_map, hexecuted1.fired, hexecuted.fired, hdue]
      rw [hab.fired, hsame]

end TimersHistory

end Zmq
