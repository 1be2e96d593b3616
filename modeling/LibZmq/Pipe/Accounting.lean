import LibZmq.Pipe.Flow
import LibZmq.Pipe.Termination

/-! The counters of the two ends of a direction differ by the frames in its
queues that count, unless a read skips a counted credential or a hiccup drains an
identity frame. -/

namespace Zmq

open List Option UInt64 Staged

namespace Flow

open Pair PipeT Link

/-- The frames of a kind in the queues of a direction. -/
def holds (g : Msg → Bool) (f : Flow) : ℕ := Staged.tally g f.chan

variable {f : Flow} {g : Msg → Bool}

def Ending (g : Msg → Bool) : Prop := ∀ m, m.hasMore = true → g m = false

theorem outq_multipart (hm : ∀ q ∈ f.chan, Multipart q) : Multipart f.outq := by
  unfold outq
  cases hq : f.chan.head? with
  | none => exact empty_multipart
  | some q => exact hm q (mem_of_head? hq)

theorem holds_setOutq (q : Staged Msg) : (f.setOutq q).holds g + f.outq.count g = f.holds g + q.count g := tally_head g f.chan q

theorem holds_setInq (q : Staged Msg) : (f.setInq q).holds g + f.inq.count g = f.holds g + q.count g := tally_last g f.chan q

theorem holds_write (m : Msg) : (f.setOutq (f.outq.write m m.hasMore)).holds g = f.holds g + if g m then 1 else 0 := by
  have h := holds_setOutq (f := f) (g := g) (f.outq.write m m.hasMore)
  rw [count_write] at h
  omega

theorem holds_rollback (hg : Ending g) (hm : ∀ q ∈ f.chan, Multipart q) :
    (f.setOutq { f.outq with unfinished := [] }).holds g = f.holds g := by
  have h := holds_setOutq (f := f) (g := g) { f.outq with unfinished := [] }
  rw [count_rollback g fun v hv => hg v (outq_multipart hm v hv)] at h
  omega

theorem holds_flush : (f.setOutq f.outq.flush.2).holds g = f.holds g := by
  have h := holds_setOutq (f := f) (g := g) f.outq.flush.2
  rw [count_flush] at h
  omega

theorem holds_read {front rest : List Msg} (h : f.inq.ready = front ++ rest) (b : Bool) :
    (f.setInq { f.inq with ready := rest, asleep := b }).holds g + front.countP g = f.holds g := by
  have h1 := holds_setInq (f := f) (g := g) { f.inq with ready := rest, asleep := b }
  have h2 := count_ready g h b
  dsimp only at h1 h2 ⊢
  omega

theorem holds_adopt (hg : Ending g) (hm : ∀ q ∈ f.chan, Multipart q) :
    Staged.tally g f.chan.tail + (f.outq.ready ++ f.outq.complete).countP g = f.holds g := by
  have h := Staged.tally_tail g f.chan
  have h0 : f.outq.unfinished.countP g = 0 :=
    countP_eq_zero.mpr fun v hv => by simp [hg v (outq_multipart hm v hv)]
  have h1 : f.outq.count g = (f.outq.ready ++ f.outq.complete).countP g := by
    simp only [Staged.count, Staged.items, countP_append, h0, Nat.add_zero]
  rw [← h1]
  exact h

def Balanced (f : Flow) : Prop := f.written = f.read + UInt64.ofNat (f.holds counted)

def skipped (f : Flow) : List Msg := f.inq.ready.takeWhile Msg.isCredential

theorem ready_eq_skipped {l : List Msg} (h : f.inq.ready.dropWhile Msg.isCredential = l) : f.inq.ready = f.skipped ++ l := by
  rw [← h, skipped, takeWhile_append_dropWhile]

theorem ready_eq_read {m : Msg} {rest : List Msg} (h : f.inq.ready.dropWhile Msg.isCredential = m :: rest) :
    f.inq.ready = (f.skipped ++ [m]) ++ rest := by
  rw [ready_eq_skipped h, append_assoc, singleton_append]

def drained (f : Flow) : List Msg := f.outq.ready ++ f.outq.complete

structure Counts (s : Side) (next : Option Cmd) (f : Flow) (e : Event) : Prop where
  skip : e.side = s.peer → e.op = .read → f.inActive = true → ∀ m ∈ f.skipped, counted m = false
  drain : e.side = s → e.op = .deliver → (∃ a, next = some (.hiccup a)) → ∀ m ∈ f.drained, m.hasMore = false → counted m = true

theorem counted_ending : Ending counted := by
  intro m hm
  simp [counted, hm]

theorem counts_ofNat (n : UInt64) (a b : ℕ) : n + ofNat a + ofNat b = n + ofNat (a + b) := by
  rw [UInt64.ofNat_add, UInt64.add_assoc]

theorem bump_eq (n : UInt64) (m : Msg) : bump n m = n + ofNat (if counted m then 1 else 0) := by
  unfold bump
  split_ifs
  · rfl
  · simp

theorem step_balanced {s : Side} {next : Option Cmd} {e : Event} {f' : Flow}
    (h : f.Step s next e f') (hc : f.Counts s next e) (hm : ∀ q ∈ f.chan, Multipart q) (hb : f.Balanced) : f'.Balanced := by
  have hskip : e.side = s.peer → e.op = .read → f.inActive = true → f.skipped.countP counted = 0 :=
    fun h1 h2 h3 => countP_eq_zero.mpr fun m hm => by simp [hc.skip h1 h2 h3 m hm]
  cases h with
  | @write m ho hr =>
    change bump f.written m = f.read + ofNat ((f.setOutq (f.outq.write m m.hasMore)).holds counted)
    rw [holds_write, bump_eq, hb, counts_ofNat]
  | rollback =>
    change f.written = f.read + ofNat ((f.setOutq { f.outq with unfinished := [] }).holds counted)
    rw [holds_rollback counted_ending hm, hb]
  | flush =>
    change f.written = f.read + ofNat ((f.setOutq f.outq.flush.2).holds counted)
    rw [holds_flush, hb]
  | adopt hn =>
    have h := holds_adopt counted_ending hm
    have hd : (f.outq.ready ++ f.outq.complete).countP (fun m => !m.hasMore) =
        (f.outq.ready ++ f.outq.complete).countP counted := by
      apply countP_congr
      intro m hm'
      have hx := hc.drain rfl rfl ⟨_, hn⟩ m hm'
      cases hmore : m.hasMore with
      | true => simp [counted, hmore]
      | false => simp [hx hmore]
    change f.written - ofNat _ = f.read + ofNat (tally counted f.chan.tail)
    rw [hb, ← h, ofNat_add]
    grind
  | checkEmpty ha he =>
    have h : (f.setInq { f.inq with asleep := true }).holds counted = f.holds counted :=
      holds_read (nil_append _).symm true
    change f.written = f.read + ofNat ((f.setInq { f.inq with asleep := true }).holds counted)
    rw [h, hb]
  | readEmpty ha he =>
    have h := holds_read (g := counted) (ready_eq_skipped he) true
    rw [hskip rfl rfl ha, Nat.add_zero] at h
    change f.written = f.read + ofNat ((f.setInq { f.inq with ready := [], asleep := true }).holds counted)
    rw [h, hb]
  | @read m rest ha he =>
    have h := holds_read (g := counted) (ready_eq_read he) f.inq.asleep
    rw [countP_append, hskip rfl rfl ha, Nat.zero_add, countP_singleton] at h
    change f.written = bump f.read m + ofNat ((f.setInq { f.inq with ready := rest }).holds counted)
    rw [bump_eq, counts_ofNat, Nat.add_comm, h, hb]
  | hiccup =>
    change f.written = f.read + ofNat (tally counted (f.chan ++ [empty]))
    rw [tally_snoc_empty]
    exact hb
  | refuse | report | setOut | setIn | wake | idle => exact hb

end Flow

namespace Pair

open Link PipeT

/-- The event does not make the two ends of a direction count differently: a read
skips no credential that counts, a hiccup drains no whole message that does not. -/
def Accounted (w : Pair) (e : Event) : Prop :=
  match e.op with
  | .terminate _ => False
  | .read => (w.ends e.side).any PipeT.inActive = true →
      ∀ m ∈ (w.link.inq e.side).ready.takeWhile Msg.isCredential, counted m = false
  | .deliver =>
    match (w.inbox e.side).head? with
    | some (.hiccup _) =>
      ∀ m ∈ (w.link.outq e.side).ready ++ (w.link.outq e.side).complete, m.hasMore = false → counted m = true
    | _ => True
  | _ => True

instance (w : Pair) (e : Event) : Decidable (w.Accounted e) := by
  unfold Accounted
  split
  · infer_instance
  · infer_instance
  · split <;> infer_instance
  · infer_instance

theorem accounted_counts {w : Pair} {e : Event} (h : w.Accounted e) {s : Side} {f : Flow}
    (hf : w.link.flow s = some f) : f.Counts s (w.inbox s).head? e := by
  obtain ⟨p, p', hp, hp', rfl⟩ := flow_inv hf
  constructor
  · intro hs hop ha
    unfold Accounted at h
    rw [hop, hs] at h
    have hin : w.link.inq s.peer = (flowOf p p' (w.link.inbox s) (w.link.chan s)).inq := by
      simp [inq, Flow.inq, flowOf]
    rw [hin] at h
    exact h (by rw [show w.ends s.peer = some p' from hp']; exact ha)
  · rintro hs hop ⟨a, hn⟩
    unfold Accounted at h
    rw [hop, hs, hn] at h
    exact h

/-- The counters of both directions agree. -/
def Agree (w : Pair) : Prop :=
  (∀ s, w.inbox s = []) → ∀ s p p', w.ends s = some p → w.ends s.peer = some p' →
    frames (w.link.chan s) = [] → p.msgsWritten = p'.msgsRead

theorem holds_frames (g : Msg → Bool) (f : Flow) : f.holds g = (frames f.chan).countP g := by
  unfold frames
  rw [countP_flatMap]
  rfl

/-- In a run whose every event counts alike on both ends, they agree whenever a
direction is empty. -/
theorem accounting_agrees {evs : List Event} {w : Pair} (h : Run Attached (Guarded Accounted Step) evs w) : Agree w := by
  obtain ⟨-, -, hI⟩ := run_flows (I := fun _ _ f => f.Balanced) h (fun _ h => h)
    (by
      intro w e hg d hop
      rw [Accounted, hop] at hg
      exact hg)
    (by
      rintro w s f ⟨hwms, inboost, outboost, rfl⟩ hf
      cases s <;> exact some.inj hf ▸ rfl)
    (by
      intro evs w e w' s f f' S hg hm hf hf' hs hb
      exact Flow.step_balanced hs (accounted_counts hg hf) (flow_chan hf ▸ S.multipart s) hb)
  intro _ s p p' hp hp' hempty
  obtain ⟨f, hf, hb⟩ := hI s
  have hz : f.holds counted = 0 := by
    rw [holds_frames, flow_chan hf, hempty]
    rfl
  rw [flow_eq hp hp'] at hf
  rw [Flow.Balanced, hz] at hb
  rw [← some.inj hf] at hb
  simpa [flowOf] using hb

def crossHiccup : List (Side × Op) :=
  [(.first, .write ⟨.vsm, 0, [1]⟩), (.first, .flush), (.second, .read), (.first, .deliver),
    (.second, .hiccup), (.first, .write ⟨.vsm, 0, [2]⟩), (.first, .deliver)]

theorem accounting_agrees_hiccup : ∃ evs w p p', Run Attached (Guarded Accounted Step) evs w ∧
    w.ends .first = some p ∧ w.ends .second = some p' ∧ evs.length = 7 ∧ p.msgsWritten = p'.msgsRead := by
  obtain ⟨⟨evs, w⟩, hx⟩ := isSome_iff_exists.mp
    (show (pairOfOne.play Accounted crossHiccup).isSome = true by decide)
  have hrun : Run Attached (Guarded Accounted Step) ([] ++ evs) w :=
    play_run (.nil ⟨_, _, _, rfl⟩) hx
  have hinbox : (pairOfOne.play Accounted crossHiccup).map
      (fun x => (x.1.length, x.2.inbox .first, x.2.inbox .second)) = some (7, [], []) := by decide
  have hends : (pairOfOne.play Accounted crossHiccup).map
      (fun x => ((x.2.ends .first).isSome, (x.2.ends .second).isSome,
        frames (x.2.link.chan .first))) = some (true, true, []) := by decide
  simp only [hx, map_some, some.injEq, Prod.mk.injEq] at hinbox hends
  obtain ⟨hlen, hi1, hi2⟩ := hinbox
  obtain ⟨h1, h2, hempty⟩ := hends
  obtain ⟨p, hp⟩ := isSome_iff_exists.mp h1
  obtain ⟨p', hp'⟩ := isSome_iff_exists.mp h2
  refine ⟨_, w, p, p', hrun, hp, hp', hlen, accounting_agrees hrun ?_ .first p p' hp hp' hempty⟩
  intro s
  cases s
  · exact hi1
  · exact hi2

def credentialOnly : List (Side × Op) :=
  [(.first, .write ⟨.vsm, Msg.credential, [1]⟩), (.first, .flush), (.second, .read)]

theorem accounting_can_differ : ∃ evs w, Run Attached Step evs w ∧
    (∀ e ∈ evs, e.op = .write ⟨.vsm, Msg.credential, [1]⟩ ∨ e.op = .flush ∨ e.op = .read) ∧ ¬ Agree w := by
  obtain ⟨⟨evs, w⟩, hx⟩ := isSome_iff_exists.mp
    (show (pairOfOne.play free credentialOnly).isSome = true by decide)
  have hops : (pairOfOne.play free credentialOnly).map (fun x => x.1.map Event.op) =
      some [.write ⟨.vsm, Msg.credential, [1]⟩, .flush, .read] := by decide
  have hinbox : (pairOfOne.play free credentialOnly).map
      (fun x => (x.2.inbox .first, x.2.inbox .second, frames (x.2.link.chan .first))) =
      some ([], [], []) := by decide
  have hends : (pairOfOne.play free credentialOnly).map
      (fun x => ((x.2.ends .first).map PipeT.msgsWritten, (x.2.ends .second).map PipeT.msgsRead)) =
      some (some 1, some 0) := by decide
  simp only [hx, map_some, some.injEq, Prod.mk.injEq] at hops hinbox hends
  obtain ⟨hi1, hi2, hempty⟩ := hinbox
  obtain ⟨h1, h2⟩ := hends
  refine ⟨evs, w, (play_run (.nil ⟨_, _, _, rfl⟩) hx).unguarded, ?_, ?_⟩
  · intro e he
    have hmem := mem_map_of_mem (f := Event.op) he
    rw [hops] at hmem
    simpa using hmem
  · intro hag
    obtain ⟨p, hp, hw⟩ := map_eq_some_iff.mp h1
    obtain ⟨p', hp', hr⟩ := map_eq_some_iff.mp h2
    have heq := hag (by
      intro s
      cases s
      · exact hi1
      · exact hi2) .first p p' hp hp' hempty
    rw [hw, hr] at heq
    exact absurd heq (by decide)

end Pair

end Zmq
