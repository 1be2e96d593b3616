import LibZmq.Loop
import LibZmq.Multimap

/-! `timers_t`. The readings of the clock are arguments of the calls. -/

namespace Zmq

open Multimap

universe u

/-- `handler` is the function together with its argument. -/
structure TimerT (H : Type u) where
  timerId : ℤ
  interval : UInt64
  handler : H
deriving DecidableEq

/-- The keys of `timers` are the values of an `uint64_t`. -/
structure TimersT (H : Type u) where
  nextTimerId : ℤ
  timers : Multimap ℕ (TimerT H)
  cancelledTimers : Finset ℤ

inductive TimersFault where
  /-- an iterator is used whose entry has been erased -/
  | dangling
  | overflow

namespace TimersT

variable {H : Type u}

def new : TimersT H := ⟨0, .empty, ∅⟩

variable (t : TimersT H)

def add (now interval : UInt64) (handler : H) : Except TimersFault (ℤ × TimersT H) :=
  if t.nextTimerId < 2 ^ 31 - 1 then
    let timer : TimerT H := ⟨t.nextTimerId + 1, interval, handler⟩
    .ok (timer.timerId, { t with
      nextTimerId := t.nextTimerId + 1, timers := t.timers.insert (now + interval).toNat timer })
  else .error .overflow

/-- Whether the call succeeds; if not, `errno` is EINVAL. -/
def cancel (timerId : ℤ) : Bool × TimersT H :=
  if timerId ∈ t.cancelledTimers then (false, t)
  else (true, { t with cancelledTimers := insert timerId t.cancelledTimers })

/-- The first entry of a timer is replaced; without one, `errno` is EINVAL. -/
def reinsert (now : UInt64) (timerId : ℤ) (change : TimerT H → TimerT H) : Bool × TimersT H :=
  match t.timers.entries.find? (·.value.timerId = timerId) with
  | none => (false, t)
  | some n =>
    let timer := change n.value
    (true, { t with timers := (t.timers.erase n.ref).insert (now + timer.interval).toNat timer })

def setInterval (now : UInt64) (timerId : ℤ) (interval : UInt64) : Bool × TimersT H :=
  t.reinsert now timerId fun timer => { timer with interval := interval }

def reset (now : UInt64) (timerId : ℤ) : Bool × TimersT H := t.reinsert now timerId fun timer => timer

def remove (n : Entry ℕ (TimerT H)) : TimersT H :=
  { t with timers := t.timers.erase n.ref, cancelledTimers := t.cancelledTimers.erase n.value.timerId }

structure Walk (H : Type u) where
  timers : TimersT H
  it : Option ℕ

def walk : Walk H := ⟨t, t.timers.first⟩

namespace Walk

def timeoutRound (now : UInt64) (s : Walk H) : Round (Walk H) (Except TimersFault (ℤ × TimersT H)) :=
  match s.it with
  | none => .done (.ok (-1, s.timers))
  | some ref =>
    match s.timers.timers.deref? ref with
    | none => .done (.error .dangling)
    | some n =>
      if n.value.timerId ∈ s.timers.cancelledTimers then .again ⟨s.timers.remove n, s.timers.timers.next ref⟩
      else if now.toNat < n.key then .done (.ok (((n.key : ℤ) - now.toNat).bmod (2 ^ 64), s.timers))
      else .done (.ok (0, s.timers))

inductive Visit (H : Type u) where
  | leaves
  | removes (s : Walk H)
  | calls (timer : TimerT H)

def visit (now : UInt64) (s : Walk H) : Except TimersFault (Visit H) :=
  match s.it with
  | none => .ok .leaves
  | some ref =>
    match s.timers.timers.deref? ref with
    | none => .error .dangling
    | some n =>
      if n.value.timerId ∈ s.timers.cancelledTimers then .ok (.removes ⟨s.timers.remove n, s.timers.timers.next ref⟩)
      else if now.toNat < n.key then .ok .leaves
      else .ok (.calls n.value)

/-- The rest of the round; `timer` is the copy that has been made before the call. -/
def resume (now : UInt64) (timer : TimerT H) (s : Walk H) : Except TimersFault (Walk H) :=
  match s.it with
  | none => .error .dangling
  | some ref =>
    match s.timers.timers.deref? ref with
    | none => .error .dangling
    | some _ => .ok {
        timers := { s.timers with timers := (s.timers.timers.erase ref).insert (now + timer.interval).toNat timer }
        it := s.timers.timers.next ref }

/-- A round of `execute`, with what the handlers do to the timers; `fired` are the timers whose handlers have been called. -/
def executeRound (handle : TimerT H → TimersT H → TimersT H) (now : UInt64) (s : Walk H × List (TimerT H)) :
    Round (Walk H × List (TimerT H)) (Except TimersFault (Walk H × List (TimerT H))) :=
  match s.1.visit now with
  | .error e => .done (.error e)
  | .ok .leaves => .done (.ok s)
  | .ok (.removes s') => .again (s', s.2)
  | .ok (.calls timer) =>
    match ({ s.1 with timers := handle timer s.1.timers } : Walk H).resume now timer with
    | .error e => .done (.error e)
    | .ok s' => .again (s', s.2 ++ [timer])

end Walk

def Timeout (now : UInt64) : Except TimersFault (ℤ × TimersT H) → Prop :=
  Round.Returns (Walk.timeoutRound now) t.walk

/-- `execute` returns, with where its loop is left and the timers that have fired. -/
def Execute (handle : TimerT H → TimersT H → TimersT H) (t : TimersT H) (now : UInt64) :
    Except TimersFault (Walk H × List (TimerT H)) → Prop :=
  Round.Returns (Walk.executeRound handle now) (t.walk, [])

/-- As many rounds as there are entries, and one more, are enough. -/
def timeout (now : UInt64) : Except TimersFault (ℤ × TimersT H) :=
  (Round.rounds (Walk.timeoutRound now) (t.timers.entries.length + 1) t.walk).getD (.ok (-1, t))

/-! ## What the calls leave -/

def Distinct : Prop :=
  ∀ n ∈ t.timers.entries, ∀ n' ∈ t.timers.entries, n.value.timerId = n'.value.timerId → n = n'

def Has (timerId : ℤ) : Prop := ∃ n ∈ t.timers.entries, n.value.timerId = timerId

/-- The timer is waiting for this time, and has not been cancelled. -/
def Waits (key : ℕ) (timer : TimerT H) : Prop :=
  timer.timerId ∉ t.cancelledTimers ∧ ∃ n ∈ t.timers.entries, n.key = key ∧ n.value = timer

variable {t t' : TimersT H} {now interval : UInt64} {timerId : ℤ} {n : Entry ℕ (TimerT H)} {timer : TimerT H} {handler : H}
  {m : Multimap ℕ (TimerT H)} {key ref : ℕ}

theorem add_eq (h : t.add now interval handler = .ok (timerId, t')) :
    timerId = t.nextTimerId + 1 ∧ t' = { t with
      nextTimerId := t.nextTimerId + 1
      timers := t.timers.insert (now + interval).toNat ⟨t.nextTimerId + 1, interval, handler⟩ } := by
  unfold add at h
  split_ifs at h
  cases h
  exact ⟨rfl, rfl⟩

theorem reinsert_cases (t : TimersT H) (now : UInt64) (timerId : ℤ) (change : TimerT H → TimerT H) :
    ((∀ n ∈ t.timers.entries, n.value.timerId ≠ timerId) ∧ t.reinsert now timerId change = (false, t)) ∨
    ∃ n ∈ t.timers.entries, n.value.timerId = timerId ∧ t.reinsert now timerId change = (true, { t with
      timers := (t.timers.erase n.ref).insert (now + (change n.value).interval).toNat (change n.value) }) := by
  unfold reinsert
  cases h : t.timers.entries.find? (·.value.timerId = timerId) with
  | none =>
    left
    refine ⟨fun n hn => ?_, rfl⟩
    simpa using List.find?_eq_none.mp h n hn
  | some n =>
    right
    exact ⟨n, List.mem_of_find?_eq_some h, by simpa using List.find?_some h, rfl⟩

theorem Distinct.erase (h : t.Distinct) : Distinct { t with timers := t.timers.erase ref } := by
  intro n hn n' hn'
  exact h n (mem_erase.mp hn).1 n' (mem_erase.mp hn').1

theorem Distinct.erased (h : t.Distinct) (hn : n ∈ t.timers.entries) :
    ∀ n' ∈ (t.timers.erase n.ref).entries, n'.value.timerId ≠ n.value.timerId := by
  intro n' hn' hid
  obtain ⟨hmem, href⟩ := mem_erase.mp hn'
  rw [h n' hmem n hn hid] at href
  exact href rfl

theorem Distinct.insert (h : t.Distinct) (hn : ∀ n ∈ t.timers.entries, n.value.timerId ≠ timer.timerId) :
    Distinct { t with timers := t.timers.insert key timer } := by
  intro n hmem n' hmem' hid
  rcases mem_insert.mp hmem with rfl | hmem <;> rcases mem_insert.mp hmem' with rfl | hmem'
  · rfl
  · exact absurd hid.symm (hn n' hmem')
  · exact absurd hid (hn n hmem)
  · exact h n hmem n' hmem' hid

theorem has_replace (hn : n ∈ t.timers.entries) (hid : timer.timerId = n.value.timerId) :
    Has { t with timers := (t.timers.erase n.ref).insert key timer } timerId ↔ t.Has timerId := by
  constructor
  · rintro ⟨n', hn', rfl⟩
    rcases mem_insert.mp hn' with rfl | hn'
    · exact ⟨n, hn, hid.symm⟩
    · exact ⟨n', (mem_erase.mp hn').1, rfl⟩
  · rintro ⟨n', hn', rfl⟩
    by_cases href : n'.ref = n.ref
    · rw [eq_of_ref hn' hn href]
      exact ⟨_, mem_insert.mpr (.inl rfl), hid⟩
    · exact ⟨n', mem_insert.mpr (.inr (mem_erase.mpr ⟨hn', href⟩)), rfl⟩

theorem Distinct.replace (h : t.Distinct) (hn : n ∈ t.timers.entries) (hid : timer.timerId = n.value.timerId) :
    Distinct { t with timers := (t.timers.erase n.ref).insert key timer } := by
  have herase : Distinct { t with timers := t.timers.erase n.ref } := h.erase
  apply herase.insert
  intro n' hn'
  rw [hid]
  exact h.erased hn n' hn'

structure Sheds (t t' : TimersT H) : Prop where
  nextTimerId : t'.nextTimerId = t.nextTimerId
  nextRef : t'.timers.nextRef = t.timers.nextRef
  subset : ∀ n ∈ t'.timers.entries, n ∈ t.timers.entries
  kept : ∀ n ∈ t.timers.entries, n.value.timerId ∉ t.cancelledTimers → n ∈ t'.timers.entries
  cancelled : ∀ timerId, timerId ∈ t'.cancelledTimers ↔ timerId ∈ t.cancelledTimers ∧ (t'.Has timerId ∨ ¬ t.Has timerId)

namespace Sheds

variable {t'' : TimersT H}

theorem refl (t : TimersT H) : Sheds t t where
  nextTimerId := rfl
  nextRef := rfl
  subset _ hn := hn
  kept _ hn _ := hn
  cancelled _ := ⟨fun h => ⟨h, em _⟩, And.left⟩

theorem distinct (h : Sheds t t') (ht : t.Distinct) : t'.Distinct :=
  fun n hn n' hn' => ht n (h.subset n hn) n' (h.subset n' hn')

theorem has (h : Sheds t t') : t'.Has timerId → t.Has timerId := fun ⟨n, hn, hid⟩ => ⟨n, h.subset n hn, hid⟩

theorem forgets (h : Sheds t t') : ∀ timerId ∈ t'.cancelledTimers, timerId ∈ t.cancelledTimers :=
  fun timerId hid => ((h.cancelled timerId).mp hid).1

theorem still (h : Sheds t t') (hn : n ∈ t'.timers.entries) (hc : n.value.timerId ∈ t.cancelledTimers) :
    n.value.timerId ∈ t'.cancelledTimers := (h.cancelled _).mpr ⟨hc, .inl ⟨n, hn, rfl⟩⟩

theorem trans (h : Sheds t t') (h' : Sheds t' t'') : Sheds t t'' where
  nextTimerId := h'.nextTimerId.trans h.nextTimerId
  nextRef := h'.nextRef.trans h.nextRef
  subset n hn := h.subset n (h'.subset n hn)
  kept n hn hc := h'.kept n (h.kept n hn hc) fun hc' => hc (h.forgets _ hc')
  cancelled timerId := by
    rw [h'.cancelled, h.cancelled]
    constructor
    · rintro ⟨⟨hc, hold⟩, hnew⟩
      refine ⟨hc, ?_⟩
      rcases hnew with hnew | hnone
      · exact .inl hnew
      · exact .inr (hold.resolve_left hnone)
    · rintro ⟨hc, hhas | hnone⟩
      · exact ⟨⟨hc, .inl (h'.has hhas)⟩, .inl hhas⟩
      · exact ⟨⟨hc, .inr hnone⟩, .inr fun hhas => hnone (h.has hhas)⟩

theorem waits (h : Sheds t t') : t'.Waits key timer ↔ t.Waits key timer := by
  constructor
  · rintro ⟨hc, n, hn, hkey, rfl⟩
    exact ⟨fun hc' => hc (h.still hn hc'), n, h.subset n hn, hkey, rfl⟩
  · rintro ⟨hc, n, hn, hkey, rfl⟩
    exact ⟨fun hc' => hc (h.forgets _ hc'), n, h.kept n hn hc, hkey, rfl⟩

theorem remove (ht : t.Distinct) (hn : n ∈ t.timers.entries) (hc : n.value.timerId ∈ t.cancelledTimers) :
    Sheds t (t.remove n) where
  nextTimerId := rfl
  nextRef := rfl
  subset n' hn' := (mem_erase.mp hn').1
  kept n' hn' hc' := by
    refine mem_erase.mpr ⟨hn', fun href => hc' ?_⟩
    rwa [eq_of_ref hn' hn href]
  cancelled timerId := by
    change timerId ∈ t.cancelledTimers.erase n.value.timerId ↔ _
    rw [Finset.mem_erase]
    constructor
    · rintro ⟨hne, hid⟩
      refine ⟨hid, ?_⟩
      by_cases h : t.Has timerId
      · obtain ⟨n', hn', rfl⟩ := h
        refine .inl ⟨n', mem_erase.mpr ⟨hn', fun href => hne ?_⟩, rfl⟩
        rw [eq_of_ref hn' hn href]
      · exact .inr h
    · rintro ⟨hid, ⟨n', hn', rfl⟩ | hnone⟩
      · exact ⟨ht.erased hn n' hn', hid⟩
      · exact ⟨fun heq => hnone ⟨n, hn, heq.symm⟩, hid⟩

end Sheds

def Answers (t : TimersT H) (now : UInt64) (v : ℤ) : Prop :=
  t.timers.entries = [] ∧ v = -1 ∨ ∃ n rest, t.timers.entries = n :: rest ∧ n.value.timerId ∉ t.cancelledTimers ∧
    v = if now.toNat < n.key then ((n.key : ℤ) - now.toNat).bmod (2 ^ 64) else 0

theorem timeout_eq (now : UInt64) (ht : t.Distinct) :
    ∃ v t', t.timeout now = .ok (v, t') ∧ t.Timeout now (.ok (v, t')) ∧ Sheds t t' ∧ t'.Answers now v := by
  have hrounds : ∀ k (t : TimersT H), t.Distinct → t.timers.entries.length = k → ∃ v t',
      Round.rounds (Walk.timeoutRound now) (k + 1) t.walk = some (.ok (v, t')) ∧ Sheds t t' ∧ t'.Answers now v := by
    intro k
    induction k with
    | zero =>
      intro t ht hlen
      have hnil := List.eq_nil_of_length_eq_zero hlen
      refine ⟨-1, t, Round.rounds_done ?_, .refl t, .inl ⟨hnil, rfl⟩⟩
      simp [Walk.timeoutRound, walk, first, hnil]
    | succ k ih =>
      intro t ht hlen
      obtain ⟨n, rest, hentries⟩ := List.exists_cons_of_length_eq_add_one hlen
      have hat : t.timers.At t.timers.first [] (n :: rest) := hentries ▸ first_at
      obtain ⟨hit, hderef⟩ := hat.deref
      have hround : Walk.timeoutRound now t.walk =
          if n.value.timerId ∈ t.cancelledTimers then .again ⟨t.remove n, t.timers.next n.ref⟩
          else if now.toNat < n.key then .done (.ok (((n.key : ℤ) - now.toNat).bmod (2 ^ 64), t))
          else .done (.ok (0, t)) := by
        unfold Walk.timeoutRound walk
        rw [hit]
        dsimp only
        rw [hderef]
      by_cases hc : n.value.timerId ∈ t.cancelledTimers
      · rw [if_pos hc] at hround
        have hshed := Sheds.remove ht hat.mem hc
        have hnext := Multimap.At.erase_last (show t.timers.At (t.timers.next n.ref) ([] ++ [n]) rest from hat.next)
        have hfirst : t.timers.next n.ref = (t.remove n).timers.first := by
          rw [hnext.it]
          exact congrArg (·.head?.map Entry.ref) hnext.entries.symm
        obtain ⟨v, t', hr, hs, hv⟩ := ih (t.remove n) (hshed.distinct ht) (by
          rw [show (t.remove n).timers.entries = rest from hnext.entries]
          simpa [hentries] using hlen)
        refine ⟨v, t', ?_, hshed.trans hs, hv⟩
        rw [Round.rounds_again hround, hfirst]
        exact hr
      · have hlive : n.value.timerId ∉ t.cancelledTimers := hc
        split_ifs at hround with hkey
        · exact ⟨_, t, Round.rounds_done hround, .refl t, .inr ⟨n, rest, hentries, hlive, (if_pos hkey).symm⟩⟩
        · exact ⟨_, t, Round.rounds_done hround, .refl t, .inr ⟨n, rest, hentries, hlive, (if_neg hkey).symm⟩⟩
  obtain ⟨v, t', hr, h⟩ := hrounds _ t ht rfl
  refine ⟨v, t', ?_, ⟨_, hr⟩, h⟩
  unfold timeout
  rw [hr]
  rfl

structure Issued (t : TimersT H) : Prop where
  distinct : t.Distinct
  given : ∀ n ∈ t.timers.entries, n.value.timerId ≤ t.nextTimerId

structure Grows (t t' : TimersT H) : Prop extends t'.Issued where
  nextRef : t.timers.nextRef ≤ t'.timers.nextRef
  entries : ∀ n ∈ t'.timers.entries, n ∈ t.timers.entries ∨ t.timers.nextRef ≤ n.ref

namespace Issued

theorem fresh (h : Issued t) : ∀ n ∈ t.timers.entries, n.value.timerId ≠ t.nextTimerId + 1 := by
  intro n hn hid
  have := h.given n hn
  omega

theorem sheds (h : Issued t) (ht : Sheds t t') : Grows t t' where
  distinct := ht.distinct h.distinct
  given n hn := ht.nextTimerId ▸ h.given n (ht.subset n hn)
  nextRef := ht.nextRef.ge
  entries n hn := .inl (ht.subset n hn)

theorem cancel (h : Issued t) : Grows t (t.cancel timerId).2 := by
  unfold TimersT.cancel
  split_ifs <;> exact ⟨⟨h.distinct, h.given⟩, le_refl _, fun n hn => .inl hn⟩

theorem add (h : Issued t) (ht : t.add now interval handler = .ok (timerId, t')) : Grows t t' := by
  obtain ⟨-, rfl⟩ := add_eq ht
  refine ⟨⟨Distinct.insert h.distinct h.fresh, fun n hn => ?_⟩, Nat.le_succ _, fun n hn => ?_⟩
  · rcases mem_insert.mp hn with rfl | hn
    · exact le_refl _
    · have := h.given n hn
      dsimp only
      omega
  · rcases mem_insert.mp hn with rfl | hn
    · exact .inr (le_refl _)
    · exact .inl hn

theorem reinsert {change : TimerT H → TimerT H} (h : Issued t)
    (hchange : ∀ timer, (change timer).timerId = timer.timerId) : Grows t (t.reinsert now timerId change).2 := by
  rcases t.reinsert_cases now timerId change with ⟨-, he⟩ | ⟨n, hn, -, he⟩
  · rw [he]
    exact ⟨h, le_refl _, fun n hn => .inl hn⟩
  · rw [he]
    refine ⟨⟨h.distinct.replace hn (hchange _), fun n' hn' => ?_⟩, Nat.le_succ _, fun n' hn' => ?_⟩
    · rcases mem_insert.mp hn' with rfl | hn'
      · rw [hchange]
        exact h.given n hn
      · exact h.given n' (mem_erase.mp hn').1
    · rcases mem_insert.mp hn' with rfl | hn'
      · exact .inr (le_refl _)
      · exact .inl (mem_erase.mp hn').1

end Issued

end TimersT

end Zmq
