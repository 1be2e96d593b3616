import LibZmq.Timers.Runs

/-! Handlers that add, cancel and reset timers while they are called. -/

namespace Zmq

open Option Finset Multimap

open Function (update update_of_ne update_self)

universe u

namespace TimersUser

open TimersT (Walk)

variable {H : Type u}

/-- No handler resets the timer it is called for, or sets its interval. -/
def Keeps (s : TimersUser H) : Op H → Prop
  | .setInterval _ timerId _ | .reset _ timerId => ∀ timer ∈ s.firing, timer.timerId ≠ timerId
  | _ => True

instance (s : TimersUser H) (op : Op H) : Decidable (s.Keeps op) := by
  induction op using Op.casesOn <;> unfold Keeps <;> infer_instance

/-- What is promised of the timers: each has one entry at most, none fires that has been cancelled, each fires when the calls
have determined, and waits for the time they have determined next. -/
structure Orderly (s : TimersUser H) : Prop where
  once : s.timers.Distinct
  fired : ∀ f ∈ s.fired, f.cancelled = false ∧ ∃ x, f.scheduled = some x ∧ x.1 ≤ f.now.toNat
  scheduled : ∀ n ∈ s.timers.timers.entries, (∀ timer ∈ s.firing, timer.timerId ≠ n.value.timerId) →
    s.schedule n.value.timerId = some (n.key, n.value.interval)
  kept : ∀ timerId x, s.schedule timerId = some x → timerId ∉ s.cancelled →
    ∃ n ∈ s.timers.timers.entries, n.value.timerId = timerId

structure Sound (s : TimersUser H) : Prop extends Orderly s where
  valid : ∀ e, s.execution = some e → ∀ ref ∈ e.it, ∃ n ∈ s.timers.timers.entries, n.ref = ref
  planned : ∀ e timer, s.execution = some e → e.firing = some timer →
    s.schedule timer.timerId = some ((e.now + timer.interval).toNat, timer.interval)
  recorded : ∀ timerId ∈ s.timers.cancelledTimers, timerId ∈ s.cancelled
  cancelled : ∀ n ∈ s.timers.timers.entries, n.value.timerId ∈ s.cancelled → n.value.timerId ∈ s.timers.cancelledTimers
  future : ∀ timerId ∈ s.cancelled, s.timers.nextTimerId < timerId → timerId ∈ s.timers.cancelledTimers

variable {s s' : TimersUser H} {e : Execution H} {timer : TimerT H} {op : Op H} {ops : List (Op H)} {t : TimersT H}
  {now interval : UInt64} {timerId : ℤ} {handler : H}

theorem firing_of (he : s.execution = some e) : s.firing = e.firing := by
  unfold firing
  rw [he]
  rfl

theorem Sound.sheds {x : Option (Execution H)} (h : Sound s) (hb : Base s) (ht : s.timers.Sheds t) (hfiring : s.firing = none)
    (hx : x.bind Execution.firing = none) (hvalid : ∀ e, x = some e → ∀ ref ∈ e.it, ∃ n ∈ t.timers.entries, n.ref = ref) :
    Sound { s with timers := t, execution := x } := by
  have hnone : ∀ timer ∈ s.firing, ∀ y : ℤ, timer.timerId ≠ y := by
    intro timer htimer
    rw [hfiring] at htimer
    exact nomatch htimer
  refine ⟨⟨ht.distinct h.once, h.fired, fun n hn _ => ?_, fun timerId y hy hc => ?_⟩, hvalid, fun e timer he htimer => ?_,
    fun timerId hid => ?_, fun n hn hc => ?_, fun timerId hid hlt => ?_⟩
  · exact h.scheduled n (ht.subset n hn) fun timer htimer => hnone timer htimer _
  · obtain ⟨n, hn, rfl⟩ := h.kept timerId y hy hc
    exact ⟨n, ht.kept n hn fun hc' => hc (h.recorded _ hc'), rfl⟩
  · dsimp only at he
    rw [he] at hx
    exact nomatch htimer.symm.trans hx
  · exact h.recorded timerId (ht.forgets timerId hid)
  · exact ht.still hn (h.cancelled n (ht.subset n hn) hc)
  · rw [ht.nextTimerId] at hlt
    refine (ht.cancelled timerId).mpr ⟨h.future timerId hid hlt, .inr ?_⟩
    rintro ⟨n, hn, rfl⟩
    have := hb.given n hn
    omega

theorem Sound.add (h : Sound s) (hb : Base s) (hx : s.run (.add now interval handler) = .ok s') : Sound s' := by
  obtain ⟨⟨timerId, t⟩, ht, rfl⟩ := map_ok hx
  obtain ⟨rfl, rfl⟩ := TimersT.add_eq ht
  have hgrows := hb.add ht
  have hne := hb.fresh
  refine ⟨⟨hgrows.distinct, h.fired, fun n hn hfiring => ?_, fun timerId x hx hc => ?_⟩, fun e he ref href => ?_,
    fun e timer he htimer => ?_, h.recorded, fun n hn hc => ?_, fun timerId hid hlt => ?_⟩
  · rcases mem_insert.mp hn with rfl | hn
    · exact update_self _ _ _
    · exact (update_of_ne (hne n hn) _ _).trans (h.scheduled n hn hfiring)
  · by_cases hid : timerId = s.timers.nextTimerId + 1
    · exact ⟨_, mem_insert.mpr (.inl rfl), hid.symm⟩
    · obtain ⟨n, hn, rfl⟩ := h.kept timerId x ((update_of_ne hid _ _).symm.trans hx) hc
      exact ⟨n, mem_insert.mpr (.inr hn), rfl⟩
  · obtain ⟨n, hn, hnref⟩ := h.valid e he ref href
    exact ⟨n, mem_insert.mpr (.inr hn), hnref⟩
  · obtain ⟨ref, hit, -, hentry⟩ := hb.firing e timer he htimer
    obtain ⟨n, hn, hnref⟩ := h.valid e he ref hit
    refine (update_of_ne ?_ _ _).trans (h.planned e timer he htimer)
    rw [← hentry n hn hnref]
    exact hne n hn
  · rcases mem_insert.mp hn with rfl | hn
    · exact h.future _ hc (Int.lt_succ _)
    · exact h.cancelled n hn hc
  · exact h.future timerId hid (Int.lt_of_add_one_le hlt.le)

theorem Sound.cancel (h : Sound s) (hx : s.run (.cancel timerId) = .ok s') : Sound s' := by
  cases hx
  by_cases hc : timerId ∈ s.timers.cancelledTimers
  · rw [show s.timers.cancel timerId = (false, s.timers) from if_pos hc]
    exact h
  · rw [show s.timers.cancel timerId =
      (true, { s.timers with cancelledTimers := insert timerId s.timers.cancelledTimers }) from if_neg hc]
    refine ⟨⟨h.once, h.fired, h.scheduled, fun id x hx hid => ?_⟩, h.valid, h.planned, fun id hid => ?_, fun n hn hid => ?_,
      fun id hid hlt => ?_⟩
    · exact h.kept id x hx fun hmem => hid (mem_insert_of_mem hmem)
    · rcases mem_insert.mp hid with rfl | hid
      · exact mem_insert_self _ _
      · exact mem_insert_of_mem (h.recorded id hid)
    · rcases mem_insert.mp hid with hid | hid
      · rw [hid]
        exact mem_insert_self _ _
      · exact mem_insert_of_mem (h.cancelled n hn hid)
    · rcases mem_insert.mp hid with rfl | hid
      · exact mem_insert_self _ _
      · exact mem_insert_of_mem (h.future id hid hlt)

theorem Sound.reinsert {f : TimerT H → TimerT H} {x : TimerT H} (h : Sound s) (hb : Base s)
    (hr : s.execution.isNone = true ∨ s.firing.isSome = true) (hk : ∀ timer ∈ s.firing, timer.timerId ≠ timerId) (hf : ∀ timer, (f timer).timerId = timer.timerId) {n : Entry ℕ (TimerT H)}
    (hn : n ∈ s.timers.timers.entries) (hid : n.value.timerId = timerId) (hx : x = f n.value) :
    Sound (plan { s with timers := { s.timers with
        timers := (s.timers.timers.erase n.ref).insert (now + x.interval).toNat x } }
      timerId (some ((now + x.interval).toNat, x.interval))) := by
  have hxid : x.timerId = timerId := by rw [hx, hf, hid]
  have hother : ∀ n' ∈ (s.timers.timers.erase n.ref).entries, n'.value.timerId ≠ timerId := by
    intro n' hn'
    rw [← hid]
    exact h.once.erased hn n' hn'
  refine ⟨⟨h.once.replace hn (hxid.trans hid.symm), h.fired, fun n' hn' hfiring => ?_, fun id y hy hc => ?_⟩, fun e he ref href => ?_,
    fun e timer he htimer => ?_, h.recorded, fun n' hn' hc => ?_, h.future⟩
  · rcases mem_insert.mp hn' with rfl | hn'
    · rw [hxid]
      exact update_self _ _ _
    · refine (update_of_ne (hother n' hn') _ _).trans (h.scheduled n' (mem_erase.mp hn').1 hfiring)
  · by_cases hne : id = timerId
    · exact ⟨_, mem_insert.mpr (.inl rfl), hxid.trans hne.symm⟩
    · obtain ⟨n', hn', rfl⟩ := h.kept id y ((update_of_ne hne _ _).symm.trans hy) hc
      refine ⟨n', mem_insert.mpr (.inr (mem_erase.mpr ⟨hn', fun href => hne ?_⟩)), rfl⟩
      rw [eq_of_ref hn' hn href, hid]
  · have he' : s.execution = some e := he
    obtain ⟨timer, htimer⟩ : ∃ timer, s.firing = some timer :=
      isSome_iff_exists.mp (hr.resolve_left (by rw [he']; exact Bool.false_ne_true))
    obtain ⟨ref', hit, -, hentry⟩ := hb.firing e timer he' ((firing_of he').symm.trans htimer)
    obtain rfl := some.inj (hit.symm.trans href)
    obtain ⟨n', hn', hnref⟩ := h.valid e he' ref' href
    refine ⟨n', mem_insert.mpr (.inr (mem_erase.mpr ⟨hn', fun heq => ?_⟩)), hnref⟩
    apply hk timer htimer
    rw [← hentry n hn (heq.symm.trans hnref), hid]
  · have he' : s.execution = some e := he
    exact (update_of_ne (hk timer ((firing_of he').trans htimer)) _ _).trans (h.planned e timer he' htimer)
  · rcases mem_insert.mp hn' with rfl | hn'
    · rw [hxid, ← hid] at hc ⊢
      exact h.cancelled n hn hc
    · exact h.cancelled n' (mem_erase.mp hn').1 hc

theorem Sound.setInterval (h : Sound s) (hb : Base s) (hr : s.Ready (.setInterval now timerId interval))
    (hk : s.Keeps (.setInterval now timerId interval)) (hx : s.run (.setInterval now timerId interval) = .ok s') : Sound s' := by
  cases hx
  rcases s.timers.reinsert_cases now timerId fun timer => { timer with interval := interval } with ⟨-, he⟩ | ⟨n, hn, hid, he⟩
  · rw [show s.timers.setInterval now timerId interval = _ from he]
    exact h
  · rw [show s.timers.setInterval now timerId interval = _ from he]
    exact h.reinsert (x := { n.value with interval := interval }) hb hr hk
      (f := fun timer => { timer with interval := interval }) (fun _ => rfl) hn hid rfl

theorem Sound.reset (h : Sound s) (hb : Base s) (hr : s.Ready (.reset now timerId)) (hk : s.Keeps (.reset now timerId))
    (hx : s.run (.reset now timerId) = .ok s') : Sound s' := by
  cases hx
  rcases s.timers.reinsert_cases now timerId fun timer => timer with ⟨-, he⟩ | ⟨n, hn, hid, he⟩
  · rw [show s.timers.reset now timerId = _ from he]
    exact h
  · rw [show s.timers.reset now timerId = _ from he]
    have hplan : s.schedule timerId = some (n.key, n.value.interval) := by
      rw [← hid]
      exact h.scheduled n hn fun timer htimer => by rw [hid]; exact hk timer htimer
    rw [hplan]
    exact h.reinsert hb hr hk (fun _ => rfl) hn hid rfl

theorem Sound.execute (h : Sound s) (hr : s.Ready (.execute now)) (hx : s.run (.execute now) = .ok s') : Sound s' := by
  cases hx
  have hfiring : s.firing = none := by
    unfold firing
    rw [isNone_iff_eq_none.mp hr]
    rfl
  refine ⟨⟨h.once, h.fired, fun n hn _ => h.scheduled n hn fun timer htimer => ?_, h.kept⟩, fun e he => ?_,
    fun e timer he htimer => ?_, h.recorded, h.cancelled, h.future⟩
  · rw [hfiring] at htimer
    exact nomatch htimer
  · cases he
    exact first_at.valid
  · cases he
    exact nomatch htimer

theorem Sound.visit (h : Sound s) (hb : Base s) (he : s.execution = some e) (hfiring : e.firing = none)
    (hx : s.visit e = .ok s') : Sound s' := by
  have hnone : s.firing = none := (firing_of he).trans hfiring
  rcases visit_cases hx with rfl | ⟨ref, n, hit, hn, rfl, ⟨hc, rfl⟩ | ⟨hc, hkey, rfl⟩⟩
  · exact h.sheds hb (.refl _) hnone rfl fun _ he => nomatch he
  · refine h.sheds hb (TimersT.Sheds.remove h.once hn hc) hnone hfiring fun e' he' => ?_
    cases he'
    exact next_valid hn
  · have hlive : n.value.timerId ∉ s.cancelled := fun hmem => hc (h.cancelled n hn hmem)
    have hplan := h.scheduled n hn fun timer htimer => by
      rw [hnone] at htimer
      exact nomatch htimer
    have hother : ∀ n' ∈ s.timers.timers.entries, n.value.timerId ≠ n'.value.timerId →
        update s.schedule n.value.timerId (some ((e.now + n.value.interval).toNat, n.value.interval)) n'.value.timerId =
          some (n'.key, n'.value.interval) := by
      intro n' hn' hne
      refine (update_of_ne hne.symm _ _).trans (h.scheduled n' hn' fun timer htimer => ?_)
      rw [hnone] at htimer
      exact nomatch htimer
    refine ⟨⟨h.once, fun f hf => ?_, fun n' hn' hne => hother n' hn' (hne _ rfl), fun timerId x hx hid => ?_⟩,
      fun e' he' => ?_, fun e' timer he' htimer => ?_, h.recorded, h.cancelled, h.future⟩
    · rcases List.mem_append.mp hf with hf | hf
      · exact h.fired f hf
      · rw [List.mem_singleton.mp hf]
        exact ⟨decide_eq_false hlive, _, hplan, hkey⟩
    · by_cases hne : timerId = n.value.timerId
      · exact ⟨n, hn, hne.symm⟩
      · exact h.kept timerId x ((update_of_ne hne _ _).symm.trans hx) hid
    · cases he'
      exact h.valid e he
    · cases he'
      cases htimer
      exact update_self _ _ _

theorem Sound.resume (h : Sound s) (hb : Base s) (he : s.execution = some e) (hfiring : e.firing = some timer)
    (hx : s.resume e timer = .ok s') : Sound s' := by
  obtain ⟨ref, n, hit, hn, rfl, rfl⟩ := resume_cases hx
  obtain ⟨ref', hit', -, hentry⟩ := hb.firing e timer he hfiring
  cases hit.symm.trans hit'
  have htimer := hentry n hn rfl
  have hsome : s.firing = some timer := (firing_of he).trans hfiring
  have hother : ∀ n' ∈ (s.timers.timers.erase n.ref).entries, n'.value.timerId ≠ timer.timerId := by
    intro n' hn'
    rw [← htimer]
    exact h.once.erased hn n' hn'
  refine ⟨⟨h.once.replace hn (congrArg _ htimer.symm), h.fired, fun n' hn' _ => ?_, fun timerId x hx hid => ?_⟩,
    fun e' he' ref' href' => ?_, fun e' timer' he' htimer' => ?_, h.recorded, fun n' hn' hc => ?_, h.future⟩
  · rcases mem_insert.mp hn' with rfl | hn'
    · exact h.planned e timer he hfiring
    · refine h.scheduled n' (mem_erase.mp hn').1 fun timer' htimer' => ?_
      cases hsome.symm.trans htimer'
      exact (hother n' hn').symm
  · by_cases hne : timerId = timer.timerId
    · exact ⟨_, mem_insert.mpr (.inl rfl), hne.symm⟩
    · obtain ⟨n', hn', rfl⟩ := h.kept timerId x hx hid
      refine ⟨n', mem_insert.mpr (.inr (mem_erase.mpr ⟨hn', fun href => hne ?_⟩)), rfl⟩
      rw [eq_of_ref hn' hn href, htimer]
  · cases he'
    obtain ⟨n', hn', hnref⟩ := next_valid hn ref' href'
    exact ⟨n', mem_insert.mpr (.inr hn'), hnref⟩
  · cases he'
    exact nomatch htimer'
  · rcases mem_insert.mp hn' with rfl | hn'
    · rw [← htimer] at hc ⊢
      exact h.cancelled n hn hc
    · exact h.cancelled n' (mem_erase.mp hn').1 hc

theorem step_sound (h : Sound s) (hb : Base s) (hs : Guarded Keeps Step s op s') : Sound s' := by
  obtain ⟨hk, hr, hx⟩ := hs
  cases op with
  | add now interval handler => exact h.add hb hx
  | cancel timerId => exact h.cancel hx
  | setInterval now timerId interval => exact h.setInterval hb hr hk hx
  | reset now timerId => exact h.reset hb hr hk hx
  | timeout now =>
    obtain ⟨⟨v, t⟩, ht, rfl⟩ := map_ok hx
    obtain ⟨v', t', ht', -, hsheds, -⟩ := TimersT.timeout_eq now h.once
    cases ht.symm.trans ht'
    have hidle : s.execution = none := isNone_iff_eq_none.mp hr
    have hfiring : s.firing = none := by
      unfold firing
      rw [hidle]
      rfl
    refine h.sheds hb hsheds hfiring hfiring fun e he => ?_
    exact nomatch hidle.symm.trans he
  | execute now => exact h.execute hr hx
  | visit =>
    obtain ⟨e, he, hfiring⟩ := ready_visit hr
    rw [run_visit he] at hx
    exact h.visit hb he hfiring hx
  | resume =>
    obtain ⟨e, timer, he, hfiring⟩ := ready_resume hr
    rw [run_resume he hfiring] at hx
    exact h.resume hb he hfiring hx

theorem new_sound : Sound (new : TimersUser H) where
  once _ hn := nomatch hn
  fired _ hf := nomatch hf
  scheduled _ hn := nomatch hn
  kept _ _ hx := nomatch hx
  valid _ he := nomatch he
  planned _ _ he := nomatch he
  recorded _ hid := absurd hid (notMem_empty _)
  cancelled _ hn := nomatch hn
  future _ hid := absurd hid (notMem_empty _)

theorem run_sound (h : Run Start (Guarded Keeps Step) ops s) : Sound s ∧ Base s := by
  refine h.invariant (fun s => Sound s ∧ Base s) (fun s hs => ?_) fun _ _ _ hi hs => ⟨step_sound hi.1 hi.2 hs, step_base hi.2 hs.2⟩
  subst hs
  exact ⟨new_sound, new_base⟩

theorem Sound.deref {ref : ℕ} (h : Sound s) (he : s.execution = some e) (hit : e.it = some ref) :
    ∃ n, s.timers.timers.deref? ref = some n := by
  obtain ⟨n, hn, rfl⟩ := h.valid e he ref hit
  exact ⟨n, deref_mem hn⟩

theorem Sound.safe (h : Sound s) (hb : Base s) (hr : s.Ready op) : s.run op ≠ .error .dangling := by
  cases op with
  | add now interval handler =>
    unfold run TimersT.add
    split_ifs <;> exact nofun
  | cancel timerId | setInterval now timerId interval | reset now timerId => exact nofun
  | timeout now =>
    obtain ⟨v, t, ht, -⟩ := TimersT.timeout_eq now h.once
    change (s.timers.timeout now).map _ ≠ _
    rw [ht]
    exact nofun
  | execute now => exact nofun
  | visit =>
    obtain ⟨e, he, -⟩ := ready_visit hr
    rw [run_visit he]
    unfold TimersUser.visit Walk.visit
    cases hit : e.it with
    | none => exact nofun
    | some ref =>
      obtain ⟨n, hn⟩ := h.deref he hit
      dsimp only
      rw [hn]
      dsimp only
      split_ifs <;> exact nofun
  | resume =>
    obtain ⟨e, timer, he, hfiring⟩ := ready_resume hr
    obtain ⟨ref, hit, -⟩ := hb.firing e timer he hfiring
    obtain ⟨n, hn⟩ := h.deref he hit
    rw [run_resume he hfiring]
    unfold TimersUser.resume Walk.resume
    rw [hit]
    dsimp only
    rw [hn]
    exact nofun

theorem Sound.dangles {f : TimerT H → TimerT H} (h : Sound s) (hb : Base s) (he : s.execution = some e)
    (hfiring : e.firing = some timer) (hs : s'.execution = s.execution)
    (ht : s'.timers = (s.timers.reinsert now timer.timerId f).2) : s'.run .resume = .error .dangling := by
  obtain ⟨ref, hit, hlt, hentry⟩ := hb.firing e timer he hfiring
  obtain ⟨n, hn, rfl⟩ := h.valid e he ref hit
  have hvalue := hentry n hn rfl
  have hgone : s'.timers.timers.deref? n.ref = none := by
    rcases s.timers.reinsert_cases now timer.timerId f with ⟨hnone, -⟩ | ⟨n', hn', hid, heq⟩
    · exact absurd (congrArg _ hvalue) (hnone n hn)
    · have hsame : n' = n := h.once n' hn' n hn (hid.trans (congrArg _ hvalue.symm))
      rw [ht, heq, hsame]
      exact deref_erased hlt
  rw [run_resume (hs.trans he) hfiring]
  unfold TimersUser.resume Walk.resume
  rw [hit]
  dsimp only
  rw [hgone]
  rfl

theorem Sound.own_dangles (h : Sound s) (hb : Base s) (hk : ¬ s.Keeps op) (hx : s.run op = .ok s') :
    s'.run .resume = .error .dangling := by
  have hown : ∀ timerId, (¬ ∀ timer ∈ s.firing, timer.timerId ≠ timerId) →
      ∃ e timer, s.execution = some e ∧ e.firing = some timer ∧ timer.timerId = timerId := by
    intro timerId hk
    push Not at hk
    obtain ⟨timer, htimer, hid⟩ := hk
    obtain ⟨e, he, hfiring⟩ := bind_eq_some_iff.mp htimer
    exact ⟨e, timer, he, hfiring, hid⟩
  have hsucceeds : ∀ e timer f now, s.execution = some e → e.firing = some timer →
      (s.timers.reinsert now timer.timerId f).1 = true := by
    intro e timer f now he hfiring
    obtain ⟨ref, hit, -, hentry⟩ := hb.firing e timer he hfiring
    obtain ⟨n, hn, hnref⟩ := h.valid e he ref hit
    rcases s.timers.reinsert_cases now timer.timerId f with ⟨hnone, -⟩ | ⟨n', -, -, heq⟩
    · exact absurd (congrArg _ (hentry n hn hnref)) (hnone n hn)
    · rw [heq]
  cases op with
  | setInterval now timerId interval =>
    obtain ⟨e, timer, he, hfiring, rfl⟩ := hown timerId hk
    have hset : (s.timers.setInterval now timer.timerId interval).1 = true := hsucceeds e timer _ now he hfiring
    cases hx
    rw [if_pos hset]
    exact h.dangles hb he hfiring rfl rfl
  | reset now timerId =>
    obtain ⟨e, timer, he, hfiring, rfl⟩ := hown timerId hk
    have hreset : (s.timers.reset now timer.timerId).1 = true := hsucceeds e timer _ now he hfiring
    cases hx
    rw [if_pos hreset]
    exact h.dangles hb he hfiring rfl rfl
  | _ => exact absurd trivial hk

/-- As long as no handler resets its own timer or sets its interval, timers are kept and fire as the calls determine, and no
iterator is used whose entry has been erased. One is used when a handler that has done so returns. -/
theorem handlers_orderly (h : Run Start (Guarded Keeps Step) ops s) :
    Orderly s ∧ (∀ op, s.Ready op → s.run op ≠ .error .dangling) ∧
      ∀ op s', s.Ready op → ¬ s.Keeps op → s.run op = .ok s' → s'.run .resume = .error .dangling := by
  obtain ⟨hsound, hbase⟩ := run_sound h
  exact ⟨hsound.toOrderly, fun op hr => hsound.safe hbase hr, fun op s' _ hk hx => hsound.own_dangles hbase hk hx⟩

/-- The handler of the first timer cancels the second, sets the interval of the third and adds a fourth. -/
def handlerCalls : List (Op ℕ) :=
  [.add 0 10 1, .add 0 10 2, .add 0 20 3, .execute 10, .visit, .cancel 2, .setInterval 11 3 50, .add 12 5 4, .resume, .visit, .visit]

theorem handlers_orderly_calls : ∃ s : TimersUser ℕ, Run Start (Guarded Keeps Step) handlerCalls s ∧
    s.timers.timers.entries.map (fun n => (n.key, n.value.timerId)) = [(17, 4), (20, 1), (61, 3)] ∧ Orderly s :=
  exists_run (P := fun s => s.timers.timers.entries.map (fun n => (n.key, n.value.timerId)) = [(17, 4), (20, 1), (61, 3)])
    (rfl : Start new) (by decide) fun _ hs hentries => ⟨hentries, (handlers_orderly hs).1⟩

def ownReset : List (Op ℕ) := [.add 0 10 1, .execute 10, .visit, .reset 10 1]

theorem handlers_can_dangle : ∃ s : TimersUser ℕ, Run Start Step ownReset s ∧ s.Ready .resume ∧
    s.run .resume = .error .dangling := by
  refine exists_run_free (P := fun s => s.Ready .resume ∧ (s.run .resume matches .error .dangling) = true)
    (rfl : Start new) (by decide) fun s _ ⟨hready, hfault⟩ => ⟨hready, ?_⟩
  cases hx : s.run .resume with
  | ok s' => simp [hx] at hfault
  | error f =>
    cases f with
    | dangling => rfl
    | overflow => simp [hx] at hfault

end TimersUser

end Zmq
