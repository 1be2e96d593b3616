import LibZmq.Timers.Runs

/-! Calls of `execute` whose handlers leave the timers alone. The loop inserts the timers that have fired into the map that it goes
through. -/

namespace Zmq

open List Multimap

universe u

namespace TimersT

variable {H : Type u}

def quiet : TimerT H → TimersT H → TimersT H := fun _ t => t

/-- The timer waits for a time that has come. -/
def Due (t : TimersT H) (now : UInt64) (timer : TimerT H) : Prop := ∃ key ≤ now.toNat, t.Waits key timer

/-- What `execute` leaves: the timers that were due have fired and wait for their next time, and the cancelled ones that the loop
has come to are removed. -/
structure Executed (t : TimersT H) (now : UInt64) (w : Walk H) (fired : List (TimerT H)) : Prop where
  distinct : w.timers.Distinct
  nextTimerId : w.timers.nextTimerId = t.nextTimerId
  fired : ∀ timer, timer ∈ fired ↔ t.Due now timer
  waits : ∀ key timer, w.timers.Waits key timer ↔
    t.Waits key timer ∧ now.toNat < key ∨ t.Due now timer ∧ key = (now + timer.interval).toNat
  has : ∀ timerId, w.timers.Has timerId → t.Has timerId
  passed : ∃ before rest, w.timers.timers.At w.it before rest ∧ ∀ n ∈ before, n.value.timerId ∉ w.timers.cancelledTimers
  removed : ∀ n ∈ w.timers.timers.entries, n.value.timerId ∈ t.cancelledTimers → n ∈ t.timers.entries ∧ now.toNat < n.key
  cancelled : ∀ timerId, timerId ∈ w.timers.cancelledTimers ↔
    timerId ∈ t.cancelledTimers ∧ (w.timers.Has timerId ∨ ¬ t.Has timerId)

namespace Walk

def fire (now : UInt64) (w : Walk H) (n : Entry ℕ (TimerT H)) : Walk H where
  timers := { w.timers with timers := (w.timers.timers.erase n.ref).insert (now + n.value.interval).toNat n.value }
  it := w.timers.timers.next n.ref

def next (now : UInt64) (w : Walk H) (n : Entry ℕ (TimerT H)) : Entry ℕ (TimerT H) :=
  ⟨w.timers.timers.nextRef, (now + n.value.interval).toNat, n.value⟩

variable {t : TimersT H} {now : UInt64} {s : Walk H × List (TimerT H)} {w : Walk H} {fired : List (TimerT H)}
  {before rest : List (Entry ℕ (TimerT H))} {n : Entry ℕ (TimerT H)} {timer : TimerT H}

theorem quiet_round (now : UInt64) (fired : List (TimerT H)) (hat : w.timers.timers.At w.it before rest) :
    (rest = [] ∧ executeRound quiet now (w, fired) = .done (.ok (w, fired))) ∨ ∃ n rest', rest = n :: rest' ∧
      (n.value.timerId ∈ w.timers.cancelledTimers ∧
          executeRound quiet now (w, fired) = .again (⟨w.timers.remove n, w.timers.timers.next n.ref⟩, fired) ∨
        n.value.timerId ∉ w.timers.cancelledTimers ∧ now.toNat < n.key ∧
          executeRound quiet now (w, fired) = .done (.ok (w, fired)) ∨
        n.value.timerId ∉ w.timers.cancelledTimers ∧ n.key ≤ now.toNat ∧
          executeRound quiet now (w, fired) = .again (w.fire now n, fired ++ [n.value])) := by
  cases rest with
  | nil =>
    left
    have hit : w.it = none := hat.it
    refine ⟨rfl, ?_⟩
    unfold executeRound visit
    rw [hit]
  | cons n rest =>
    right
    obtain ⟨hit, hderef⟩ := hat.deref
    have hvisit : w.visit now =
        if n.value.timerId ∈ w.timers.cancelledTimers then .ok (.removes ⟨w.timers.remove n, w.timers.timers.next n.ref⟩)
        else if now.toNat < n.key then .ok .leaves else .ok (.calls n.value) := by
      unfold visit
      rw [hit]
      dsimp only
      rw [hderef]
    have hresume : w.resume now n.value = .ok (w.fire now n) := by
      unfold resume
      rw [hit]
      dsimp only
      rw [hderef]
      rfl
    refine ⟨n, rest, rfl, ?_⟩
    by_cases hc : n.value.timerId ∈ w.timers.cancelledTimers
    · rw [if_pos hc] at hvisit
      refine .inl ⟨hc, ?_⟩
      unfold executeRound
      rw [hvisit]
    · rw [if_neg hc] at hvisit
      right
      by_cases hkey : now.toNat < n.key
      · rw [if_pos hkey] at hvisit
        refine .inl ⟨hc, hkey, ?_⟩
        unfold executeRound
        rw [hvisit]
      · rw [if_neg hkey] at hvisit
        refine .inr ⟨hc, Nat.not_lt.mp hkey, ?_⟩
        unfold executeRound
        rw [hvisit]
        dsimp only [quiet]
        rw [hresume]

theorem fire_at (now : UInt64) (hat : w.timers.timers.At w.it before (n :: rest)) : ((∃ m ∈ rest, m.key ≤ (w.next now n).key) ∧
      (w.fire now n).timers.timers.At (w.fire now n).it before (place rest (w.next now n))) ∨
    ((∀ m ∈ rest, (w.next now n).key < m.key) ∧
      (w.fire now n).timers.timers.At (w.fire now n).it (place before (w.next now n)) rest) := by
  have hnext := hat.next.erase_last
  cases rest with
  | nil => exact .inr ⟨by simp, hnext.insert_lt (by simp)⟩
  | cons m rest =>
    rcases le_or_gt m.key (w.next now n).key with hle | hlt
    · exact .inl ⟨⟨m, mem_cons_self, hle⟩, hnext.insert_ge hle⟩
    · have htail := (pairwise_cons.mp hat.sorted_rest).2
      refine .inr ⟨fun x hx => ?_, hnext.insert_lt fun x hx => Option.some.inj hx ▸ hlt⟩
      rcases mem_cons.mp hx with rfl | hx
      · exact hlt
      · exact hlt.trans_le ((pairwise_cons.mp htail).1 x hx)

structure Walked (t : TimersT H) (now : UInt64) (w : Walk H) (fired : List (TimerT H)) (before rest : List (Entry ℕ (TimerT H))) :
    Prop where
  at_ : w.timers.timers.At w.it before rest
  distinct : w.timers.Distinct
  nextTimerId : w.timers.nextTimerId = t.nextTimerId
  entries : ∀ n ∈ w.timers.timers.entries, n ∈ t.timers.entries ∧ n.value ∉ fired ∨
    n.value ∈ fired ∧ n.key = (now + n.value.interval).toNat
  kept : ∀ n ∈ t.timers.entries, n.value.timerId ∉ t.cancelledTimers → n.value ∉ fired → n ∈ w.timers.timers.entries
  refired : ∀ timer ∈ fired, t.Due now timer ∧ ∃ n ∈ w.timers.timers.entries, n.value = timer
  cancelled : ∀ timerId, timerId ∈ w.timers.cancelledTimers ↔
    timerId ∈ t.cancelledTimers ∧ (w.timers.Has timerId ∨ ¬ t.Has timerId)
  passed : ∀ n ∈ before, n.value ∈ fired

theorem Walked.start (ht : t.Distinct) : Walked t now t.walk [] [] t.timers.entries where
  at_ := first_at
  distinct := ht
  nextTimerId := rfl
  entries _ hn := .inl ⟨hn, not_mem_nil⟩
  kept _ hn _ _ := hn
  refired _ htimer := nomatch htimer
  cancelled _ := ⟨fun h => ⟨h, em _⟩, And.left⟩
  passed _ hn := nomatch hn

theorem Walked.due (h : Walked t now w fired before rest) (hn : n ∈ w.timers.timers.entries)
    (hc : n.value.timerId ∉ w.timers.cancelledTimers) (hkey : n.key ≤ now.toNat) : t.Due now n.value := by
  rcases h.entries n hn with ⟨hmem, -⟩ | ⟨hfired, -⟩
  · refine ⟨n.key, hkey, fun hc' => hc ?_, n, hmem, rfl, rfl⟩
    exact (h.cancelled _).mpr ⟨hc', .inl ⟨n, hn, rfl⟩⟩
  · exact (h.refired _ hfired).1

theorem Walked.has (h : Walked t now w fired before rest) {timerId : ℤ} (hhas : w.timers.Has timerId) : t.Has timerId := by
  obtain ⟨n, hn, rfl⟩ := hhas
  rcases h.entries n hn with ⟨hmem, -⟩ | ⟨hfired, -⟩
  · exact ⟨n, hmem, rfl⟩
  · obtain ⟨⟨key, -, -, n', hn', -, heq⟩, -⟩ := h.refired _ hfired
    exact ⟨n', hn', congrArg _ heq⟩

theorem Walked.remove (h : Walked t now w fired before (n :: rest)) (hc : n.value.timerId ∈ w.timers.cancelledTimers) :
    Walked t now ⟨w.timers.remove n, w.timers.timers.next n.ref⟩ fired before rest := by
  have hsheds := Sheds.remove h.distinct h.at_.mem hc
  have hc' := ((h.cancelled _).mp hc).1
  refine ⟨h.at_.next.erase_last, hsheds.distinct h.distinct, h.nextTimerId, fun n' hn' => h.entries n' (hsheds.subset n' hn'),
    fun n' hn' hlive hfired => ?_, fun timer htimer => ?_, fun timerId => ?_, h.passed⟩
  · refine mem_erase.mpr ⟨h.kept n' hn' hlive hfired, fun href => hlive ?_⟩
    rwa [eq_of_ref (h.kept n' hn' hlive hfired) h.at_.mem href]
  · obtain ⟨hdue, n', hn', rfl⟩ := h.refired timer htimer
    refine ⟨hdue, n', mem_erase.mpr ⟨hn', fun href => ?_⟩, rfl⟩
    rw [eq_of_ref hn' h.at_.mem href] at hdue
    exact hdue.elim fun key hkey => hkey.2.1 hc'
  · rw [hsheds.cancelled, h.cancelled]
    constructor
    · rintro ⟨⟨hid, hold⟩, hnew⟩
      rcases hnew with hnew | hnone
      · exact ⟨hid, .inl hnew⟩
      · exact ⟨hid, .inr (hold.resolve_left hnone)⟩
    · rintro ⟨hid, hhas | hnone⟩
      · exact ⟨⟨hid, .inl (hsheds.has hhas)⟩, .inl hhas⟩
      · exact ⟨⟨hid, .inr hnone⟩, .inr fun hhas => hnone (h.has hhas)⟩

theorem Walked.other (h : Walked t now w fired before (n :: rest)) {n' : Entry ℕ (TimerT H)}
    (hn' : n' ∈ (w.timers.timers.erase n.ref).entries) : n'.value ≠ n.value :=
  fun heq => h.distinct.erased h.at_.mem n' hn' (congrArg _ heq)

theorem Walked.fire (h : Walked t now w fired before (n :: rest)) (hc : n.value.timerId ∉ w.timers.cancelledTimers)
    (hkey : n.key ≤ now.toNat) {before' rest' : List (Entry ℕ (TimerT H))}
    (hat : (w.fire now n).timers.timers.At (w.fire now n).it before' rest')
    (hbefore : ∀ x ∈ before', x ∈ before ∨ x = w.next now n) :
    Walked t now (w.fire now n) (fired ++ [n.value]) before' rest' := by
  have hdue := h.due h.at_.mem hc hkey
  refine ⟨hat, h.distinct.replace h.at_.mem rfl, h.nextTimerId, fun n' hn' => ?_, fun n' hn' hlive hfired => ?_,
    fun timer htimer => ?_, fun timerId => ?_, fun x hx => ?_⟩
  · rcases mem_insert.mp hn' with rfl | hn'
    · exact .inr ⟨by simp, rfl⟩
    · rcases h.entries n' (mem_erase.mp hn').1 with ⟨hmem, hnot⟩ | ⟨hfired, hkey'⟩
      · refine .inl ⟨hmem, fun hfired => ?_⟩
        rcases mem_append.mp hfired with hfired | hfired
        · exact hnot hfired
        · exact h.other hn' (mem_singleton.mp hfired)
      · exact .inr ⟨mem_append_left _ hfired, hkey'⟩
  · have hmem := h.kept n' hn' hlive fun hmem => hfired (mem_append_left _ hmem)
    refine mem_insert.mpr (.inr (mem_erase.mpr ⟨hmem, fun href => hfired ?_⟩))
    rw [eq_of_ref hmem h.at_.mem href]
    simp
  · rcases mem_append.mp htimer with htimer | htimer
    · obtain ⟨hdue', n', hn', rfl⟩ := h.refired timer htimer
      refine ⟨hdue', ?_⟩
      by_cases href : n'.ref = n.ref
      · rw [eq_of_ref hn' h.at_.mem href]
        exact ⟨_, mem_insert.mpr (.inl rfl), rfl⟩
      · exact ⟨n', mem_insert.mpr (.inr (mem_erase.mpr ⟨hn', href⟩)), rfl⟩
    · obtain rfl := mem_singleton.mp htimer
      exact ⟨hdue, _, mem_insert.mpr (.inl rfl), rfl⟩
  · refine (h.cancelled timerId).trans (and_congr_right fun _ => or_congr_left ?_)
    exact (has_replace h.at_.mem rfl).symm
  · rcases hbefore x hx with hx | rfl
    · exact mem_append_left _ (h.passed x hx)
    · simp [next]

def Behind (now : UInt64) (w : Walk H) (n : Entry ℕ (TimerT H)) (rest rest' : List (Entry ℕ (TimerT H))) : Prop :=
  (∃ m ∈ rest, m.key ≤ (w.next now n).key) ∧ rest' = Multimap.place rest (w.next now n) ∨
    (∀ m ∈ rest, (w.next now n).key < m.key) ∧ rest' = rest

theorem Walked.round (h : Walked t now w fired before rest) :
    ((∀ m ∈ rest, now.toNat < m.key) ∧ executeRound quiet now (w, fired) = .done (.ok (w, fired))) ∨ ∃ n rest', rest = n :: rest' ∧
      (n.value.timerId ∈ t.cancelledTimers ∧ (∃ w', executeRound quiet now (w, fired) = .again (w', fired) ∧
          Walked t now w' fired before rest') ∨ t.Due now n.value ∧ n.key ≤ now.toNat ∧ ∃ w' before' rest'',
          executeRound quiet now (w, fired) = .again (w', fired ++ [n.value]) ∧
          Walked t now w' (fired ++ [n.value]) before' rest'' ∧ Behind now w n rest' rest'') := by
  rcases quiet_round now fired h.at_ with ⟨rfl, hround⟩ | ⟨n, rest', rfl, hcase⟩
  · exact .inl ⟨by simp, hround⟩
  · rcases hcase with ⟨hc, hround⟩ | ⟨hc, hkey, hround⟩ | ⟨hc, hkey, hround⟩
    · exact .inr ⟨n, rest', rfl, .inl ⟨((h.cancelled _).mp hc).1, _, hround, h.remove hc⟩⟩
    · refine .inl ⟨fun m hm => ?_, hround⟩
      rcases mem_cons.mp hm with rfl | hm
      · exact hkey
      · exact hkey.trans_le ((pairwise_cons.mp h.at_.sorted_rest).1 m hm)
    · refine .inr ⟨n, rest', rfl, .inr ⟨h.due h.at_.mem hc hkey, hkey, ?_⟩⟩
      rcases fire_at now h.at_ with ⟨hex, hat⟩ | ⟨hall, hat⟩
      · exact ⟨_, _, _, hround, h.fire hc hkey hat fun x hx => .inl hx, .inl ⟨hex, rfl⟩⟩
      · exact ⟨_, _, _, hround, h.fire hc hkey hat fun x hx => (mem_place.mp hx).symm, .inr ⟨hall, rfl⟩⟩

theorem Walked.executed (h : Walked t now w fired before rest) (ht : t.Distinct) (hrest : ∀ m ∈ rest, now.toNat < m.key) :
    Executed t now w fired := by
  have hsplit : ∀ n ∈ w.timers.timers.entries, n.value ∈ fired ∨ now.toNat < n.key := by
    intro n hn
    rw [h.at_.entries] at hn
    rcases mem_append.mp hn with hn | hn
    · exact .inl (h.passed n hn)
    · exact .inr (hrest n hn)
  have hlive : ∀ timer ∈ fired, timer.timerId ∉ w.timers.cancelledTimers := by
    intro timer htimer hc
    obtain ⟨⟨key, -, hwaits⟩, -⟩ := h.refired timer htimer
    exact hwaits.1 ((h.cancelled _).mp hc).1
  have hall : ∀ timer, timer ∈ fired ↔ t.Due now timer := by
    intro timer
    constructor
    · exact fun htimer => (h.refired timer htimer).1
    · rintro ⟨key, hkey, hc, n, hn, rfl, rfl⟩
      by_contra hnot
      exact (hsplit n (h.kept n hn hc hnot)).elim hnot fun hlt => Nat.not_lt.mpr hkey hlt
  refine ⟨h.distinct, h.nextTimerId, hall, fun key timer => ?_, fun _ => h.has, ⟨before, rest, h.at_, fun n hn => hlive _ (h.passed n hn)⟩,
    fun n hn hc => ?_, h.cancelled⟩
  · constructor
    · rintro ⟨hc, n, hn, rfl, rfl⟩
      rcases h.entries n hn with ⟨hmem, hnot⟩ | ⟨hfired, hkey⟩
      · refine .inl ⟨⟨fun hc' => hc ((h.cancelled _).mpr ⟨hc', .inl ⟨n, hn, rfl⟩⟩), n, hmem, rfl, rfl⟩, ?_⟩
        exact (hsplit n hn).resolve_left hnot
      · exact .inr ⟨(hall _).mp hfired, hkey⟩
    · rintro (⟨⟨hc, n, hn, rfl, rfl⟩, hlt⟩ | ⟨hdue, rfl⟩)
      · have hnot : n.value ∉ fired := by
          intro hfired
          obtain ⟨key, hkey, -, n', hn', rfl, heq⟩ := (hall _).mp hfired
          rw [ht n' hn' n hn (congrArg _ heq)] at hkey
          exact Nat.not_lt.mpr hkey hlt
        exact ⟨fun hc' => hc ((h.cancelled _).mp hc').1, n, h.kept n hn hc hnot, rfl, rfl⟩
      · have hfired := (hall timer).mpr hdue
        obtain ⟨-, n, hn, rfl⟩ := h.refired timer hfired
        exact ⟨hlive _ hfired, n, hn, ((h.entries n hn).resolve_left fun hold => hold.2 hfired).2, rfl⟩
  · have hnot : n.value ∉ fired := by
      intro hfired
      obtain ⟨⟨key, -, hwaits⟩, -⟩ := h.refired _ hfired
      exact hwaits.1 hc
    exact ⟨((h.entries n hn).resolve_right fun hold => hnot hold.1).1, (hsplit n hn).resolve_left hnot⟩

end Walk

variable {r : Except TimersFault (Walk H × List (TimerT H))} {t : TimersT H} {now : UInt64}

theorem Execute.rule (ht : t.Distinct)
    (h : Execute quiet t now r) (I : List (TimerT H) → List (Entry ℕ (TimerT H)) → Prop) (h0 : I [] t.timers.entries)
    (hremove : ∀ w fired before n rest, Walk.Walked t now w fired before (n :: rest) → n.value.timerId ∈ t.cancelledTimers →
      I fired (n :: rest) → I fired rest)
    (hfire : ∀ w fired before n rest rest', Walk.Walked t now w fired before (n :: rest) → t.Due now n.value →
      n.key ≤ now.toNat → Walk.Behind now w n rest rest' → I fired (n :: rest) → I (fired ++ [n.value]) rest') :
    ∃ w fired rest, r = .ok (w, fired) ∧ Executed t now w fired ∧ I fired rest ∧ ∀ m ∈ rest, now.toNat < m.key := by
  obtain ⟨⟨w, fired⟩, ⟨before, rest, hwalked, hI⟩, hdone⟩ := Round.Returns.rule h
    (fun s => ∃ before rest, Walk.Walked t now s.1 s.2 before rest ∧ I s.2 rest) ⟨[], _, Walk.Walked.start ht, h0⟩
    fun s s' ⟨before, rest, hs, hI⟩ hround => by
      rcases hs.round with ⟨-, hr⟩ | ⟨n, rest', rfl, ⟨hc, w', hr, hw'⟩ | ⟨hdue, hkey, w', before', rest'', hr, hw', hbehind⟩⟩
      · exact nomatch hr.symm.trans hround
      · cases Round.again.inj (hr.symm.trans hround)
        exact ⟨_, _, hw', hremove _ _ _ n rest' hs hc hI⟩
      · cases Round.again.inj (hr.symm.trans hround)
        exact ⟨_, _, hw', hfire _ _ _ n rest' rest'' hs hdue hkey hbehind hI⟩
  rcases hwalked.round with ⟨hrest, hr⟩ | ⟨n, rest', -, ⟨-, w', hr, -⟩ | ⟨-, -, w', before', rest'', hr, -⟩⟩
  · cases Round.done.inj (hr.symm.trans hdone)
    exact ⟨w, fired, rest, rfl, hwalked.executed ht hrest, hI, hrest⟩
  · exact nomatch hr.symm.trans hdone
  · exact nomatch hr.symm.trans hdone

theorem Execute.executed (ht : t.Distinct)
    (h : Execute quiet t now r) : ∃ w fired, r = .ok (w, fired) ∧ Executed t now w fired := by
  obtain ⟨w, fired, -, hr, hexecuted, -⟩ := h.rule ht (fun _ _ => True) trivial (fun _ _ _ _ _ _ _ _ => trivial)
    fun _ _ _ _ _ _ _ _ _ _ _ => trivial
  exact ⟨w, fired, hr, hexecuted⟩

/-! ## Whether `execute` returns -/

def Bounded (t : TimersT H) (now : UInt64) : Prop :=
  ∀ timer, t.Due now timer → now.toNat + timer.interval.toNat < 2 ^ 64

variable {t : TimersT H} {now : UInt64} {w : Walk H} {fired : List (TimerT H)} {before rest rest' : List (Entry ℕ (TimerT H))}
  {n : Entry ℕ (TimerT H)} {timer : TimerT H}

theorem toNat_add_of_lt {a b : UInt64} (h : a.toNat + b.toNat < 2 ^ 64) : (a + b).toNat = a.toNat + b.toNat := by
  exact Nat.mod_eq_of_lt h

namespace Walk

def Goes (t : TimersT H) (now : UInt64) (n : Entry ℕ (TimerT H)) : Prop :=
  n.value.timerId ∈ t.cancelledTimers ∨ n.key ≤ now.toNat

instance (t : TimersT H) (now : UInt64) (n : Entry ℕ (TimerT H)) : Decidable (Goes t now n) := by
  unfold Goes
  infer_instance

def Again (t : TimersT H) (now : UInt64) (n : Entry ℕ (TimerT H)) : Prop :=
  n.value.timerId ∉ t.cancelledTimers ∧ n.key ≤ now.toNat ∧ n.value.interval = 0

instance (t : TimersT H) (now : UInt64) (n : Entry ℕ (TimerT H)) : Decidable (Again t now n) := by
  unfold Again
  infer_instance

def weight (t : TimersT H) (now : UInt64) (rest : List (Entry ℕ (TimerT H))) : ℕ :=
  2 * rest.countP (Goes t now ·) + if rest.head?.any (Again t now ·) then 1 else 0

theorem weight_le (t : TimersT H) (now : UInt64) (rest : List (Entry ℕ (TimerT H))) :
    weight t now rest ≤ 2 * rest.countP (Goes t now ·) + 1 := by
  unfold weight
  split_ifs <;> omega

theorem weight_cons (rest : List (Entry ℕ (TimerT H))) (hgoes : Goes t now n) :
    weight t now (n :: rest) = 2 * rest.countP (Goes t now ·) + 2 + if Again t now n then 1 else 0 := by
  unfold weight
  rw [countP_cons_of_pos (p := (Goes t now ·)) (decide_eq_true hgoes)]
  simp only [head?_cons, Option.any_some, decide_eq_true_eq]
  omega

def Alone (t : TimersT H) (now : UInt64) : Prop :=
  ∀ timer timer', t.Due now timer → t.Due now timer' → timer.interval = 0 → timer'.interval = 0 → timer = timer'

theorem Walked.weight_fire (h : Walked t now w fired before (n :: rest)) (halone : Alone t now) (hb : Bounded t now)
    (hdue : t.Due now n.value) (hkey : n.key ≤ now.toNat) (hbehind : Behind now w n rest rest') :
    weight t now rest' < weight t now (n :: rest) := by
  have hlive : n.value.timerId ∉ t.cancelledTimers := hdue.elim fun _ hkey => hkey.2.1
  have hnext : (w.next now n).key = now.toNat + n.value.interval.toNat := toNat_add_of_lt (hb _ hdue)
  have hw := weight_cons rest (.inr hkey : Goes t now n)
  rcases hbehind with ⟨⟨m, hm, hmkey⟩, rfl⟩ | ⟨-, rfl⟩
  · have hcount : (place rest (w.next now n)).countP (Goes t now ·) =
        rest.countP (Goes t now ·) + if Goes t now (w.next now n) then 1 else 0 := by
      rw [place_perm.countP_eq, countP_cons]
      simp
    by_cases hzero : n.value.interval = 0
    · rw [if_pos ⟨hlive, hkey, hzero⟩] at hw
      have hhead : ¬ (place rest (w.next now n)).head?.any (Again t now ·) = true := by
        cases rest with
        | nil => exact nomatch hm
        | cons x rest =>
          have hx : x.key ≤ m.key := by
            rcases mem_cons.mp hm with rfl | hm
            · exact le_refl _
            · exact (pairwise_cons.mp (pairwise_cons.mp h.at_.sorted_rest).2).1 m hm
          rw [place_cons_le (hx.trans hmkey)]
          simp only [head?_cons, Option.any_some, decide_eq_true_eq]
          rintro ⟨hxlive, hxkey, hxzero⟩
          have hxmem : x ∈ w.timers.timers.entries := by simp [h.at_.entries]
          have hxdue := h.due hxmem (fun hc => hxlive ((h.cancelled _).mp hc).1) hxkey
          have hsame := h.distinct x hxmem n h.at_.mem (congrArg _ (halone _ _ hxdue hdue hxzero hzero))
          exact h.at_.rest_ne x mem_cons_self (congrArg _ hsame)
      rw [weight, hcount]
      split_ifs <;> omega
    · have hpos : n.value.interval.toNat ≠ 0 := fun h0 => hzero (UInt64.toNat_inj.mp h0)
      have hstops : ¬ Goes t now (w.next now n) := by
        rintro (hc | hle)
        · exact hlive hc
        · omega
      rw [if_neg hstops] at hcount
      have := weight_le t now (place rest (w.next now n))
      omega
  · have := weight_le t now rest'
    omega

theorem weight_remove (rest : List (Entry ℕ (TimerT H))) (hc : n.value.timerId ∈ t.cancelledTimers) :
    weight t now rest < weight t now (n :: rest) := by
  have hw := weight_cons rest (.inl hc : Goes t now n)
  have := weight_le t now rest
  omega

end Walk

theorem execute_returns (ht : t.Distinct) (halone : Walk.Alone t now) (hb : Bounded t now) : ∃ r, Execute quiet t now r := by
  apply Round.returns_of_measure (fun s => ∃ before rest, Walk.Walked t now s.1 s.2 before rest)
    (fun s => Walk.weight t now (s.1.timers.timers.behind s.1.it)) ⟨[], _, Walk.Walked.start ht⟩
  rintro s s' ⟨before, rest, hs⟩ hround
  rw [hs.at_.behind]
  rcases hs.round with ⟨-, hr⟩ | ⟨n, rest', rfl, ⟨hc, w', hr, hw'⟩ | ⟨hdue, hkey, w', before', rest'', hr, hw', hbehind⟩⟩
  · exact nomatch hr.symm.trans hround
  · cases Round.again.inj (hr.symm.trans hround)
    refine ⟨⟨_, _, hw'⟩, ?_⟩
    rw [hw'.at_.behind]
    exact Walk.weight_remove _ hc
  · cases Round.again.inj (hr.symm.trans hround)
    refine ⟨⟨_, _, hw'⟩, ?_⟩
    rw [hw'.at_.behind]
    exact hs.weight_fire halone hb hdue hkey hbehind

theorem execute_diverges {z z' : TimerT H} (ht : t.Distinct) (hz : t.Due now z) (hz' : t.Due now z') (hne : z ≠ z')
    (hzero : z.interval = 0) (hzero' : z'.interval = 0) : Round.Diverges (Walk.executeRound quiet now) (t.walk, []) := by
  apply Round.diverges_of_invariant fun s => ∃ before rest, Walk.Walked t now s.1 s.2 before rest ∧
    ∀ x, x = z ∨ x = z' → ∃ n ∈ rest, n.value = x ∧ n.key ≤ now.toNat
  · refine ⟨[], _, Walk.Walked.start ht, fun x hx => ?_⟩
    have hdue : t.Due now x := by rcases hx with rfl | rfl <;> assumption
    obtain ⟨key, hkey, -, n, hn, rfl, rfl⟩ := hdue
    exact ⟨n, hn, rfl, hkey⟩
  · rintro ⟨w, fired⟩ ⟨before, rest, hs, hall⟩
    have hzeros : ∀ x, x = z ∨ x = z' → x.interval = 0 ∧ t.Due now x := by
      rintro x (rfl | rfl)
      · exact ⟨hzero, hz⟩
      · exact ⟨hzero', hz'⟩
    rcases hs.round with ⟨hrest, -⟩ | ⟨n, rest', rfl, ⟨hc, w', hr, hw'⟩ | ⟨hdue, hkey, w', before', rest'', hr, hw', hbehind⟩⟩
    · obtain ⟨n, hn, -, hkey⟩ := hall z (.inl rfl)
      exact absurd hkey (Nat.not_le.mpr (hrest n hn))
    · refine ⟨_, hr, _, _, hw', fun x hx => ?_⟩
      obtain ⟨m, hm, rfl, hmkey⟩ := hall x hx
      rcases mem_cons.mp hm with rfl | hm
      · exact absurd hc ((hzeros _ hx).2.elim fun _ h => h.2.1)
      · exact ⟨m, hm, rfl, hmkey⟩
    · have hsub : rest'.Sublist rest'' := by
        rcases hbehind with ⟨-, rfl⟩ | ⟨-, rfl⟩
        · exact place_sublist
        · exact .refl _
      refine ⟨_, hr, _, _, hw', fun x hx => ?_⟩
      obtain ⟨m, hm, rfl, hmkey⟩ := hall x hx
      rcases mem_cons.mp hm with rfl | hm
      · -- the other one is still behind the iterator, so that the new entry is too
        have hnow : (w.next now m).key = now.toNat := by
          unfold Walk.next
          rw [(hzeros _ hx).1]
          simp
        obtain ⟨x', hx', hne'⟩ : ∃ x', (x' = z ∨ x' = z') ∧ x' ≠ m.value := by
          rcases hx with hx | hx
          · exact ⟨z', .inr rfl, fun h => hne (hx.symm.trans h.symm)⟩
          · exact ⟨z, .inl rfl, fun h => hne (h.trans hx)⟩
        obtain ⟨y, hy, rfl, hykey⟩ := hall x' hx'
        have hyrest : y ∈ rest' := (mem_cons.mp hy).resolve_left fun h => hne' (congrArg _ h)
        rcases hbehind with ⟨-, rfl⟩ | ⟨hlt, -⟩
        · exact ⟨_, mem_place.mpr (.inl rfl), rfl, hnow.le⟩
        · exact absurd (hlt y hyrest) (by rw [hnow]; exact Nat.not_lt.mpr hykey)
      · exact ⟨m, hsub.subset hm, rfl, hmkey⟩

/-! ## Whether each timer fires once -/

/-- What is promised of a call: it returns, what is due has fired once and waits for one interval more. -/
def Prompt (t : TimersT H) (now : UInt64) : Prop :=
  ∃ w fired, Execute quiet t now (.ok (w, fired)) ∧ fired.Nodup ∧ Executed t now w fired ∧
    ∀ timer ∈ fired, w.timers.Waits (now.toNat + timer.interval.toNat) timer

/-- Next times do not wrap around, and a timer without an interval is the last one that is due. -/
structure Spaced (t : TimersT H) (now : UInt64) : Prop where
  bounded : ∀ n ∈ t.timers.entries, n.value.timerId ∉ t.cancelledTimers → n.key ≤ now.toNat →
    now.toNat + n.value.interval.toNat < 2 ^ 64
  last : t.timers.entries.Pairwise fun n m => Walk.Again t now n → now.toNat < m.key

instance (t : TimersT H) (now : UInt64) : Decidable (Spaced t now) :=
  decidable_of_iff (_ ∧ _) ⟨fun h => ⟨h.1, h.2⟩, fun h => ⟨h.bounded, h.last⟩⟩

theorem Spaced.bounded' (h : Spaced t now) : Bounded t now := by
  rintro timer ⟨key, hkey, hc, n, hn, rfl, rfl⟩
  exact h.bounded n hn hc hkey

theorem Spaced.alone (h : Spaced t now) : Walk.Alone t now := by
  rintro timer timer' ⟨key, hkey, hc, n, hn, rfl, rfl⟩ ⟨key', hkey', hc', n', hn', rfl, rfl⟩ hzero hzero'
  obtain ⟨before, after, heq⟩ := append_of_mem hn
  have hlast := h.last
  rw [heq] at hn' hlast
  obtain ⟨-, hafter, hbefore⟩ := pairwise_append.mp hlast
  rcases mem_append.mp hn' with hmem | hmem
  · exact absurd hkey (Nat.not_le.mpr (hbefore n' hmem n mem_cons_self ⟨hc', hkey', hzero'⟩))
  · rcases mem_cons.mp hmem with rfl | hmem
    · rfl
    · exact absurd hkey' (Nat.not_le.mpr ((pairwise_cons.mp hafter).1 n' hmem ⟨hc, hkey, hzero⟩))

structure Ahead (t : TimersT H) (now : UInt64) (fired : List (TimerT H)) (rest : List (Entry ℕ (TimerT H))) : Prop where
  nodup : fired.Nodup
  later : ∀ m ∈ rest, m.value ∈ fired → now.toNat < m.key
  left : ∃ passed old, t.timers.entries = passed ++ old ∧ old.Sublist rest ∧ ∀ m ∈ rest, m ∈ old ∨ m.value ∈ fired

theorem Ahead.first (h : Ahead t now fired (n :: rest)) (hn : n.value ∉ fired) (hne : n ∉ rest) :
    ∃ passed old, t.timers.entries = passed ++ n :: old ∧ old.Sublist rest ∧ ∀ m ∈ rest, m ∈ old ∨ m.value ∈ fired := by
  obtain ⟨passed, old, heq, hsub, hall⟩ := h.left
  have hmem := (hall n mem_cons_self).resolve_right hn
  rcases sublist_cons_iff.mp hsub with hsub' | ⟨old', rfl, hsub'⟩
  · exact absurd (hsub'.subset hmem) hne
  · refine ⟨passed, old', heq, hsub', fun m hm => ?_⟩
    refine (hall m (mem_cons_of_mem n hm)).imp_left fun hm' => (mem_cons.mp hm').resolve_left fun heq => ?_
    exact hne (heq ▸ hm)

theorem Ahead.remove (h : Ahead t now fired (n :: rest)) (hw : Walk.Walked t now w fired before (n :: rest))
    (hc : n.value.timerId ∈ t.cancelledTimers) : Ahead t now fired rest := by
  have hn : n.value ∉ fired := fun hfired => (hw.refired _ hfired).1.elim fun _ hkey => hkey.2.1 hc
  obtain ⟨passed, old, heq, hsub, hall⟩ := h.first hn fun hmem => hw.at_.rest_ne n hmem rfl
  exact ⟨h.nodup, fun m hm => h.later m (mem_cons_of_mem n hm), passed ++ [n], old, by simp [heq], hsub, hall⟩

theorem Ahead.fire (h : Ahead t now fired (n :: rest)) (hs : Spaced t now) (hw : Walk.Walked t now w fired before (n :: rest))
    (hdue : t.Due now n.value) (hkey : n.key ≤ now.toNat) (hbehind : Walk.Behind now w n rest rest') :
    Ahead t now (fired ++ [n.value]) rest' := by
  have hn : n.value ∉ fired := fun hfired => Nat.not_lt.mpr hkey (h.later n mem_cons_self hfired)
  have hlive : n.value.timerId ∉ t.cancelledTimers := hdue.elim fun _ hkey => hkey.2.1
  obtain ⟨passed, old, heq, hsub, hall⟩ := h.first hn fun hmem => hw.at_.rest_ne n hmem rfl
  have hnext : (w.next now n).key = now.toNat + n.value.interval.toNat := toNat_add_of_lt (hs.bounded' _ hdue)
  have hother : ∀ m ∈ rest, m.value ≠ n.value := by
    intro m hm heq
    have hmem : m ∈ w.timers.timers.entries := by simp [hw.at_.entries, hm]
    exact hw.at_.rest_ne m hm (congrArg _ (hw.distinct m hmem n hw.at_.mem (congrArg _ heq)))
  -- an entry that is inserted behind the iterator is not due
  have hnew : ∀ m ∈ rest', m ∈ rest ∨ m = w.next now n ∧ now.toNat < m.key := by
    intro m hm
    rcases hbehind with ⟨⟨x, hx, hxkey⟩, rfl⟩ | ⟨-, rfl⟩
    · rcases mem_place.mp hm with rfl | hm
      · refine .inr ⟨rfl, ?_⟩
        by_contra hle
        have hzero : n.value.interval = 0 := UInt64.toNat_inj.mp (show n.value.interval.toNat = 0 by omega)
        have hlast := hs.last
        rw [heq] at hlast
        have hafter := (pairwise_cons.mp (pairwise_append.mp hlast).2.1).1
        have hxlt : now.toNat < x.key := by
          rcases hall x hx with hxold | hxfired
          · exact hafter x hxold ⟨hlive, hkey, hzero⟩
          · exact h.later x (mem_cons_of_mem n hx) hxfired
        omega
      · exact .inl hm
    · exact .inl hm
  have hsub' : rest.Sublist rest' := by
    rcases hbehind with ⟨-, rfl⟩ | ⟨-, rfl⟩
    · exact place_sublist
    · exact .refl _
  refine ⟨?_, fun m hm hmem => ?_, passed ++ [n], old, by simp [heq], hsub.trans hsub', fun m hm => ?_⟩
  · refine nodup_append.mpr ⟨h.nodup, nodup_singleton _, fun x hx y hy hxy => hn ?_⟩
    rwa [← mem_singleton.mp hy, ← hxy]
  · rcases hnew m hm with hm | ⟨-, hlt⟩
    · refine h.later m (mem_cons_of_mem n hm) ((mem_append.mp hmem).resolve_right fun heq => ?_)
      exact hother m hm (mem_singleton.mp heq)
    · exact hlt
  · rcases hnew m hm with hm | ⟨rfl, -⟩
    · exact (hall m hm).imp_right fun hmem => mem_append_left _ hmem
    · exact .inr (by simp [Walk.next])

theorem Spaced.prompt (h : Spaced t now) (ht : t.Distinct) : Prompt t now := by
  obtain ⟨r, hr⟩ := execute_returns ht h.alone h.bounded'
  obtain ⟨w, fired, rest, rfl, hexecuted, hahead, -⟩ := hr.rule ht (Ahead t now)
    ⟨nodup_nil, fun _ _ hmem => (nomatch hmem), [], _, rfl, .refl _, fun m hm => .inl hm⟩
    (fun _ _ _ _ _ hw hc hI => hI.remove hw hc) fun _ _ _ _ _ _ hw hdue hkey hbehind hI => hI.fire h hw hdue hkey hbehind
  refine ⟨w, fired, hr, hahead.nodup, hexecuted, fun timer htimer => ?_⟩
  have hdue := (hexecuted.fired timer).mp htimer
  exact (hexecuted.waits _ _).mpr (.inr ⟨hdue, (toNat_add_of_lt (h.bounded' _ hdue)).symm⟩)

theorem fires_twice {r : Except TimersFault (Walk H × List (TimerT H))} {m : Entry ℕ (TimerT H)} (ht : t.Distinct)
    (h : Execute quiet t now r) (hagain : Walk.Again t now n) (hsub : [n, m].Sublist t.timers.entries) (hm : m.key ≤ now.toNat) :
    ∃ w fired, r = .ok (w, fired) ∧ ¬ fired.Nodup := by
  obtain ⟨hlive, hkey, hzero⟩ := hagain
  obtain ⟨w, fired, rest, hr, -, hI, hrest⟩ := h.rule ht
    (fun fired rest => [n, m].Sublist rest ∨ (n.value ∈ fired ∧ ∃ x ∈ rest, x.value = n.value ∧ x.key ≤ now.toNat) ∨ ¬ fired.Nodup)
    (.inl hsub)
    (fun w fired before x rest hw hc hI => by
      rcases hI with hsub | ⟨hfired, y, hy, hvalue, hykey⟩ | hdup
      · rcases sublist_cons_iff.mp hsub with hsub | ⟨l, hl, -⟩
        · exact .inl hsub
        · exact absurd ((cons.inj hl).1 ▸ hc) hlive
      · refine .inr (.inl ⟨hfired, y, (mem_cons.mp hy).resolve_left fun heq => ?_, hvalue, hykey⟩)
        rw [← heq, hvalue] at hc
        exact hlive hc
      · exact .inr (.inr hdup))
    fun w fired before x rest rest' hw hdue hxkey hbehind hI => by
      have hsub' : rest.Sublist rest' := by
        rcases hbehind with ⟨-, rfl⟩ | ⟨-, rfl⟩
        · exact place_sublist
        · exact .refl _
      rcases hI with hsub | ⟨hfired, y, hy, hvalue, hykey⟩ | hdup
      · rcases sublist_cons_iff.mp hsub with hsub | ⟨l, hl, hlsub⟩
        · exact .inl (hsub.trans hsub')
        · obtain ⟨rfl, rfl⟩ := cons.inj hl
          have hmem := singleton_sublist.mp hlsub
          have hnow : (w.next now n).key = now.toNat := by
            unfold Walk.next
            rw [hzero]
            simp
          rcases hbehind with ⟨-, rfl⟩ | ⟨hlt, -⟩
          · exact .inr (.inl ⟨by simp, _, mem_place.mpr (.inl rfl), rfl, hnow.le⟩)
          · exact absurd (hlt m hmem) (by rw [hnow]; exact Nat.not_lt.mpr hm)
      · rcases mem_cons.mp hy with rfl | hy
        · refine .inr (.inr fun hnodup => ?_)
          rw [hvalue] at hnodup
          exact (nodup_append.mp hnodup).2.2 _ hfired _ (mem_singleton_self _) rfl
        · exact .inr (.inl ⟨mem_append_left _ hfired, y, hsub'.subset hy, hvalue, hykey⟩)
      · exact .inr (.inr fun hnodup => hdup (nodup_append.mp hnodup).1)
  refine ⟨w, fired, hr, ?_⟩
  rcases hI with hsub | ⟨-, x, hx, -, hxkey⟩ | hdup
  · exact absurd hkey (Nat.not_le.mpr (hrest n (hsub.subset mem_cons_self)))
  · exact absurd hxkey (Nat.not_le.mpr (hrest x hx))
  · exact hdup

theorem Prompt.spaced (h : Prompt t now) (ht : t.Distinct) : Spaced t now := by
  obtain ⟨w, fired, hr, hnodup, hexecuted, hwaits⟩ := h
  refine ⟨fun n hn hc hkey => ?_, pairwise_iff_forall_sublist.mpr fun hsub hagain => ?_⟩
  · have hdue : t.Due now n.value := ⟨n.key, hkey, hc, n, hn, rfl, rfl⟩
    rcases (hexecuted.waits _ _).mp (hwaits _ ((hexecuted.fired _).mpr hdue)) with ⟨⟨-, n', hn', heq, hvalue⟩, hlt⟩ | ⟨-, heq⟩
    · rw [ht n' hn' n hn (congrArg _ hvalue)] at heq
      omega
    · rw [heq]
      exact UInt64.toNat_lt _
  · by_contra hle
    obtain ⟨w', fired', hr', hdup⟩ := fires_twice ht hr hagain hsub (Nat.not_lt.mp hle)
    cases hr'
    exact hdup hnodup

end TimersT

namespace TimersUser

variable {H : Type u} {s : TimersUser H} {ops : List (Op H)}

/-- After any calls, `execute` returns and lets each timer that is due fire once if no next time wraps around and a timer without an
interval is the last one that is due, and only then. -/
theorem execute_prompt_iff (h : Run Start Step ops s) (now : UInt64) : s.timers.Prompt now ↔ s.timers.Spaced now :=
  ⟨fun hp => hp.spaced (run_base h).distinct, fun hs => hs.prompt (run_base h).distinct⟩

def dueCalls : List (Op ℕ) := [.add 0 10 1, .add 5 5 2, .add 12 0 3, .add 0 20 4, .cancel 2]

theorem execute_prompt_calls : ∃ s : TimersUser ℕ, Run Start Step dueCalls s ∧
    s.timers.timers.entries.map (fun n => (n.key, n.value.timerId)) = [(10, 1), (10, 2), (12, 3), (20, 4)] ∧ s.timers.Prompt 15 :=
  exists_run_free (P := fun s => s.timers.timers.entries.map (fun n => (n.key, n.value.timerId)) =
      [(10, 1), (10, 2), (12, 3), (20, 4)] ∧ s.timers.Spaced 15) (rfl : Start new) (by decide)
    fun _ hs ⟨hentries, hspaced⟩ => ⟨hentries, (execute_prompt_iff hs 15).mpr hspaced⟩

/-- Two timers without an interval: the call does not return. -/
theorem execute_can_diverge : ∃ s : TimersUser ℕ, Run Start Step [.add 0 0 1, .add 0 0 2] s ∧
    Round.Diverges (TimersT.Walk.executeRound TimersT.quiet 0) (s.timers.walk, []) ∧ ¬ s.timers.Prompt 0 := by
  refine exists_run_free (P := fun s => s.timers.timers.entries = [⟨0, 0, 1, 0, 1⟩, ⟨1, 0, 2, 0, 2⟩] ∧
    s.timers.cancelledTimers = ∅) (rfl : Start new) (by decide) fun s hs ⟨hentries, hcancelled⟩ => ?_
  have hdue : ∀ n ∈ s.timers.timers.entries, n.key = 0 → s.timers.Due 0 n.value := by
    intro n hn hkey
    refine ⟨0, le_refl _, ?_, n, hn, hkey, rfl⟩
    rw [hcancelled]
    exact Finset.notMem_empty _
  have hdiverges : Round.Diverges (TimersT.Walk.executeRound TimersT.quiet 0) (s.timers.walk, []) := by
    have hfirst := hdue ⟨0, 0, 1, 0, 1⟩ (by simp [hentries]) rfl
    have hsecond := hdue ⟨1, 0, 2, 0, 2⟩ (by simp [hentries]) rfl
    exact TimersT.execute_diverges (run_base hs).distinct hfirst hsecond (by decide) rfl rfl
  refine ⟨hdiverges, ?_⟩
  intro hprompt
  obtain ⟨w, fired, hr, -⟩ := hprompt
  exact hdiverges.not_returns hr

end TimersUser

end Zmq
