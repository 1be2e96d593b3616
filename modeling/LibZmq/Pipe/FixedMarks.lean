import LibZmq.Pipe.Marks
import LibZmq.Pipe.Rounds

/-! Water marks that never change: when a blocked writer is always woken, and how
far a writer of data can run ahead of its reader. -/

namespace Zmq

open List Option Bool UInt64

namespace Pair

open Link PipeT Zmq.Flow

/-- A pair just attached in which end `s` writes with the high mark `h`. -/
def AttachedAt (h : Int32) (s : Side) (w : Pair) : Prop :=
  ∃ hwms inboost outboost, hwms s = h ∧ w = (pipepair hwms).attach inboost outboost

variable {w : Pair} {h : Int32}

theorem attachedAt_attached {s : Side} (hw : AttachedAt h s w) : Attached w := by
  obtain ⟨hwms, inboost, outboost, -, rfl⟩ := hw
  exact ⟨hwms, inboost, outboost, rfl⟩

theorem attachedAt_at {s : Side} (hw : AttachedAt h s w) : At w s (fresh h) := by
  have hatt := attachedAt_attached hw
  obtain ⟨hwms, inboost, outboost, rfl, rfl⟩ := hw
  exact ⟨attached_safe hatt, attached_running hatt, attached_flow .., rfl, rfl⟩

theorem attached_first (h : Int32) : AttachedAt h .first ((pipepair fun _ => h).attach (fun _ => 0) (fun _ => 0)) :=
  ⟨_, _, _, rfl, rfl⟩

theorem unmarked_keeps {e : Event} (h : w.Unmarked e) : w.KeepsLive e := by
  refine ⟨h.1, ?_⟩
  have h2 := h.2
  split
  · rename_i hop _ _
    rw [hop] at h2
    exact h2.elim
  · rename_i hop _ _
    intro _ _ hc
    rw [hop] at h2
    rw [show _ = false from h2] at hc
    cases hc
  · trivial

def byte : Msg := ⟨.vsm, 0, [0]⟩

theorem byte_single : Single byte := ⟨by decide, by decide, by decide⟩

def stalled (n : ℕ) : Flow :=
  { fresh 2147483647 with written := UInt64.ofNat n, read := UInt64.ofNat n }

theorem stalled_hasRoom {n : ℕ} (h : n < 2147483647) : (stalled n).hasRoom = true := by
  rw [hasRoom_iff]
  right
  change (UInt64.ofNat n - 0).toNat < 2147483647
  rw [UInt64.sub_zero, UInt64.toNat_ofNat_of_lt' (by simp [UInt64.size]; omega)]
  exact h

theorem stalled_crossed (n : ℕ) : crossed (stalled n) = stalled (n + 1) := by
  have hp : progress (stalled n).lwm ((stalled n).read + 1) = [] := by
    rw [progress_eq, if_neg]
    exact fun h => absurd h.1 (show ¬ 0 < mark (computeLwm 2147483647) by decide)
  have h1 : UInt64.ofNat 1 = 1 := rfl
  unfold crossed
  rw [hp]
  simp [stalled, fresh, ofNat_add, h1]

theorem stalled_run (n : ℕ) (hn : n ≤ 2147483647) : ∃ evs w,
    Run (AttachedAt 2147483647 .first) (Guarded Unmarked Step) evs w ∧ At w .first (stalled n) := by
  induction n with
  | zero =>
    have h0 := attached_first 2147483647
    exact ⟨[], _, .nil h0, attachedAt_at h0⟩
  | succ n ih =>
    obtain ⟨evs, w, hrun, hat⟩ := ih (by omega)
    obtain ⟨w', hrun', hat'⟩ := hat.cross byte_single rfl rfl rfl (stalled_hasRoom (by omega)) hrun
      fun w => ⟨⟨trivial, by decide⟩, ⟨trivial, trivial⟩, ⟨trivial, trivial⟩⟩
    exact ⟨_, w', hrun', stalled_crossed n ▸ hat'⟩

theorem stalled_stranded (hat : At w .first (stalled 2147483647)) : ¬ NotStranded w .first := by
  intro hns
  obtain ⟨p, p', hp, -, hf⟩ := flow_inv hat.flow
  have hquiet : ∀ t, w.inbox t = [] := by
    intro t
    cases t
    · exact hat.inbox
    · exact hat.quiet
  have hdrained : Drained w .first := by
    intro q hq
    rw [← flow_chan hat.flow] at hq
    obtain rfl := mem_singleton.mp hq
    exact ⟨rfl, rfl⟩
  have hopen := (hns hat.running hquiet hdrained p hp).1
  rw [← hasRoom_eq hf] at hopen
  exact absurd hopen (by decide)

/-- Unless its mark is the largest `int`, no writer is stranded. -/
theorem fixed_not_stranded_iff {h : Int32} (hpos : 0 < h) :
    (∀ s evs w, Run (AttachedAt h s) (Guarded Unmarked Step) evs w → NotStranded w s) ↔ h ≠ 2147483647 := by
  constructor
  · rintro hall rfl
    obtain ⟨evs, w, hrun, hat⟩ := stalled_run 2147483647 le_rfl
    exact stalled_stranded hat (hall _ evs w hrun)
  · intro hne s evs w hrun
    obtain ⟨S, -, hI⟩ := run_flows (I := fun _ t f => t = s → f.window.Live) hrun
      (fun _ => attachedAt_attached) (fun _ _ hg => ordinary_terminate hg.1)
      (by
        rintro w t f hw hf rfl
        rw [some.inj (hf.symm.trans (attachedAt_at hw).flow)]
        exact fresh_live hne)
      (by
        intro evs w e w' t f f' S hg hm hf hf' hs hl ht
        exact step_keeps_live S (unmarked_keeps hg) hm hf hf' hs (hl ht))
    obtain ⟨f, hf, hl⟩ := hI s
    exact live_not_stranded S ⟨f, hf, hl rfl⟩

def twoFrames : List (Side × Op) :=
  [(.first, .write ⟨.vsm, Msg.more, [1]⟩), (.first, .write ⟨.vsm, 0, [2]⟩), (.first, .checkWrite),
    (.first, .flush), (.second, .read), (.second, .read), (.first, .deliver), (.first, .deliver)]

theorem fixed_not_stranded_one : 0 < (1 : Int32) ∧ ∃ evs w,
    Run (AttachedAt 1 .first) (Guarded Unmarked Step) evs w ∧ evs.length = 8 ∧ NotStranded w .first := by
  obtain ⟨⟨evs, w⟩, hx⟩ := isSome_iff_exists.mp
    (show (pairOfOne.play Unmarked twoFrames).isSome = true by decide)
  have hlen : (pairOfOne.play Unmarked twoFrames).map (fun x => x.1.length) = some 8 := by decide
  simp only [hx, map_some, some.injEq] at hlen
  have hrun : Run (AttachedAt 1 .first) (Guarded Unmarked Step) ([] ++ evs) w :=
    play_run (.nil (attached_first 1)) hx
  exact ⟨by decide, _, w, hrun, hlen, (fixed_not_stranded_iff (h := 1) (by decide)).mpr (by decide) .first _ w hrun⟩

theorem fixed_can_strand : ∃ evs w,
    Run (AttachedAt 2147483647 .first) (Guarded Unmarked Step) evs w ∧ ¬ NotStranded w .first := by
  obtain ⟨evs, w, hrun, hat⟩ := stalled_run 2147483647 le_rfl
  exact ⟨evs, w, hrun, stalled_stranded hat⟩

end Pair

namespace Flow

open Pair PipeT Link

/-- The frames of a kind that is not data. -/
def special (m : Msg) : Bool := m.isIdentity || m.isCredential

def completes (s : Side) (e : Event) : Bool :=
  match e.op, e.res with
  | .write m, .bool true => e.side == s && !m.hasMore
  | _, _ => false

def returns (s : Side) (e : Event) : Bool :=
  match e.op, e.res with
  | .read, .msg (some m) => e.side == s.peer && !m.hasMore
  | _, _ => false

structure Bounded (h written back : ℕ) (f : Flow) : Prop where
  hwm : mark f.hwm = h
  data : f.holds special = 0
  wrote : f.written = UInt64.ofNat written
  read : f.read = UInt64.ofNat back
  between : written = back + f.holds counted
  reported : ∃ known : List ℕ, f.peersRead :: f.reports = known.map UInt64.ofNat ∧
    known.Pairwise (· ≤ ·) ∧ ∀ n ∈ known, n ≤ back ∧ written ≤ n + h

variable {f f' : Flow} {s : Side} {next : Option Cmd} {e : Event} {h written back : ℕ} {m : Msg}

theorem holds_rollback_le {g : Msg → Bool} : (f.setOutq { f.outq with unfinished := [] }).holds g ≤ f.holds g := by
  have h1 := holds_setOutq (f := f) (g := g) { f.outq with unfinished := [] }
  have h2 : ({ f.outq with unfinished := [] } : Staged Msg).count g ≤ f.outq.count g := by
    simp [Staged.count, Staged.items]
  omega

theorem ofNat_sub_toNat {a b h : ℕ} (hb : b ≤ a) (ha : a ≤ b + h) (hh : h < 2 ^ 64) :
    (UInt64.ofNat a - UInt64.ofNat b).toNat = a - b := by
  rw [← ofNat_sub hb, toNat_ofNat_of_lt' (by simp [size]; omega)]

theorem bounded_room (hb : f.Bounded h written back) (hh : h < 2 ^ 64) :
    written - back ≤ h ∧ (f.written - f.peersRead).toNat ≤ h ∧ (written < 2 ^ 64 → f.peersRead ≤ f.written) := by
  obtain ⟨known, hk, -, hle⟩ := hb.reported
  cases known with
  | nil => cases hk
  | cons n known =>
    obtain ⟨hp, -⟩ := cons.inj hk
    obtain ⟨h1, h2⟩ := hle n mem_cons_self
    have h3 := hb.between
    refine ⟨by omega, ?_, ?_⟩
    · rw [hp, hb.wrote, ofNat_sub_toNat (by omega) h2 hh]
      omega
    · intro hw
      rw [hp, hb.wrote, le_iff_toNat_le, toNat_ofNat_of_lt' (by simp [size]; omega),
        toNat_ofNat_of_lt' (by omega)]
      omega

theorem bounded_same (hb : f.Bounded h written back) (h1 : f'.hwm = f.hwm)
    (h2 : f'.holds special = 0) (h3 : f'.written = f.written) (h4 : f'.read = f.read)
    (h5 : f'.holds counted = f.holds counted) (h6 : f'.peersRead = f.peersRead)
    (h7 : f'.reports = f.reports) : f'.Bounded h written back := by
  refine ⟨by rw [h1, hb.hwm], h2, by rw [h3, hb.wrote], by rw [h4, hb.read], ?_, ?_⟩
  · rw [h5, hb.between]
  · rw [h6, h7]
    exact hb.reported

theorem counted_data (h : special m = false) : counted m = !m.hasMore := by
  simp only [special, or_eq_false_iff] at h
  simp [counted, h.1]

theorem bounded_write (hb : f.Bounded h written back) (hpos : 0 < h) (hh : h < 2 ^ 64)
    (hr : f.hasRoom = true) (hm : special m = false) :
    ({ f.setOutq (f.outq.write m m.hasMore) with written := bump f.written m } : Flow).Bounded h
      (written + if m.hasMore then 0 else 1) back := by
  have hspecial := holds_write (f := f) (g := special) m
  have hcounted := holds_write (f := f) (g := counted) m
  rw [hb.data, hm] at hspecial
  have hcond : (if counted m then 1 else 0) = if m.hasMore then 0 else 1 := by
    rw [counted_data hm]
    cases m.hasMore <;> rfl
  rw [hcond] at hcounted
  refine ⟨hb.hwm, hspecial, ?_, hb.read, ?_, ?_⟩
  · rw [bump_eq, hcond, hb.wrote, ofNat_add]
  · change _ = back + (f.setOutq _).holds counted
    rw [hcounted, hb.between, Nat.add_assoc]
  · obtain ⟨known, hk, hsort, hle⟩ := hb.reported
    refine ⟨known, hk, hsort, fun n hn => ⟨(hle n hn).1, ?_⟩⟩
    cases known with
    | nil => cases hk
    | cons n0 known =>
      obtain ⟨hp, -⟩ := cons.inj hk
      obtain ⟨h1, h2⟩ := hle n0 mem_cons_self
      have h3 := hb.between
      have hroom : written - n0 < h := by
        rw [hasRoom_iff, hb.hwm, hp, hb.wrote, ofNat_sub_toNat (by omega) h2 hh] at hr
        omega
      -- what the writer knows is the oldest of the counts still to come
      have hn0 : n0 ≤ n := by
        rcases mem_cons.mp hn with rfl | hn
        · exact le_rfl
        · exact rel_of_pairwise_cons hsort hn
      split_ifs <;> omega

theorem bounded_ahead (hb : f.Bounded h written back) : written ≤ back + h := by
  obtain ⟨known, hk, -, hle⟩ := hb.reported
  cases known with
  | nil => cases hk
  | cons n known =>
    have := hle n mem_cons_self
    omega

theorem skipped_counted (h : f.skipped.countP special = 0) : f.skipped.countP counted = 0 := by
  apply countP_eq_zero.mpr
  intro m hm
  have h1 := countP_eq_zero.mp h m hm
  simp [special, mem_takeWhile_imp hm] at h1

theorem bounded_read {rest : List Msg} (hb : f.Bounded h written back)
    (he : f.inq.ready.dropWhile Msg.isCredential = m :: rest) :
    ({ f.setInq { f.inq with ready := rest } with
        read := bump f.read m
        reports := f.reports ++ progress f.lwm (bump f.read m) } : Flow).Bounded h written
      (back + if m.hasMore then 0 else 1) := by
  have hx : ∀ g, (f.setInq { f.inq with ready := rest }).holds g + (f.skipped.countP g +
      if g m then 1 else 0) = f.holds g := by
    intro g
    have h1 := holds_read (g := g) (ready_eq_read he) f.inq.asleep
    rw [countP_append, countP_singleton] at h1
    exact h1
  have hspecial := hx special
  have hcounted := hx counted
  rw [hb.data] at hspecial
  have hm : special m = false := by
    cases hm : special m with
    | false => rfl
    | true =>
      rw [hm, if_pos rfl] at hspecial
      omega
  have hskip := skipped_counted (f := f) (by omega)
  obtain ⟨k, hk⟩ : ∃ k, (if m.hasMore then 0 else 1) = k := ⟨_, rfl⟩
  have hcond : (if counted m then 1 else 0) = k := by
    rw [counted_data hm, ← hk]
    cases m.hasMore <;> rfl
  have hbetween := hb.between
  have hread : bump f.read m = UInt64.ofNat (back + k) := by
    rw [bump_eq, hcond, hb.read, UInt64.ofNat_add]
  rw [hk]
  refine ⟨hb.hwm, ?_, hb.wrote, hread, ?_, ?_⟩
  · change (f.setInq { f.inq with ready := rest }).holds special = 0
    omega
  · change written = _ + (f.setInq { f.inq with ready := rest }).holds counted
    omega
  · have hahead := bounded_ahead hb
    obtain ⟨known, hk, hsort, hle⟩ := hb.reported
    change ∃ known', f.peersRead :: (f.reports ++ progress f.lwm (bump f.read m)) = _ ∧ _
    rw [progress_eq]
    split_ifs with hp
    · refine ⟨known ++ [back + k], ?_, ?_, ?_⟩
      · rw [← cons_append, hk, hread, map_append, map_singleton]
      · refine pairwise_append.mpr ⟨hsort, pairwise_singleton _ _, ?_⟩
        intro a ha b hb'
        obtain rfl := mem_singleton.mp hb'
        exact (hle a ha).1.trans (Nat.le_add_right _ _)
      · intro n hn
        rcases mem_append.mp hn with hn | hn
        · exact ⟨(hle n hn).1.trans (Nat.le_add_right _ _), (hle n hn).2⟩
        · obtain rfl := mem_singleton.mp hn
          omega
    · rw [append_nil]
      exact ⟨known, hk, hsort, fun n hn => ⟨(hle n hn).1.trans (Nat.le_add_right _ _), (hle n hn).2⟩⟩

theorem completes_iff : completes s e = true ↔ ∃ m, e = ⟨s, .write m, .bool true⟩ ∧ m.hasMore = false := by
  obtain ⟨t, op, r⟩ := e
  unfold completes
  constructor
  · intro h
    split at h
    · rename_i m hop hr
      subst hop hr
      simp only [and_eq_true, beq_iff_eq, not_eq_true'] at h
      obtain ⟨rfl, hm⟩ := h
      exact ⟨m, rfl, hm⟩
    · cases h
  · rintro ⟨m, he, hm⟩
    cases he
    simp [hm]

theorem returns_iff : returns s e = true ↔ ∃ m, e = ⟨s.peer, .read, .msg (some m)⟩ ∧ m.hasMore = false := by
  obtain ⟨t, op, r⟩ := e
  unfold returns
  constructor
  · intro h
    split at h
    · rename_i m hop hr
      subst hop hr
      simp only [and_eq_true, beq_iff_eq, not_eq_true'] at h
      obtain ⟨rfl, hm⟩ := h
      exact ⟨m, rfl, hm⟩
    · cases h
  · rintro ⟨m, he, hm⟩
    cases he
    simp [hm]

theorem step_bounded (hs : f.Step s next e f') (hp : Plain s next e) (hd : e.side = s → ∀ m, e.op = .write m → special m = false)
    (hm : ∀ q ∈ f.chan, Multipart q) (hpos : 0 < h) (hh : h < 2 ^ 64) (hb : f.Bounded h written back) :
    f'.Bounded h (written + if completes s e then 1 else 0) (back + if returns s e then 1 else 0) := by
  cases hs with
  | @write m ho hr =>
    have h1 := bounded_write hb hpos hh hr (hd rfl m rfl)
    have h2 : (if completes s ⟨s, .write m, .bool true⟩ then 1 else 0) = if m.hasMore then 0 else 1 := by
      cases h : m.hasMore <;> simp [completes, h]
    rw [h2]
    exact h1
  | @read m rest ha he =>
    have h1 := bounded_read hb he
    have h2 : (if returns s ⟨s.peer, .read, .msg (some m)⟩ then 1 else 0) = if m.hasMore then 0 else 1 := by
      cases h : m.hasMore <;> simp [returns, h]
    rw [h2]
    exact h1
  | @report v rest hn hv =>
    refine ⟨hb.hwm, hb.data, hb.wrote, hb.read, hb.between, ?_⟩
    obtain ⟨known, hk, hsort, hle⟩ := hb.reported
    rw [hv] at hk
    cases known with
    | nil => cases hk
    | cons n known =>
      exact ⟨known, (cons.inj hk).2, hsort.of_cons, fun n hn => hle n (mem_cons_of_mem _ hn)⟩
  | rollback =>
    have h1 := holds_rollback_le (f := f) (g := special)
    rw [hb.data] at h1
    exact bounded_same hb rfl (Nat.le_zero.mp h1) rfl rfl (holds_rollback counted_ending hm) rfl rfl
  | flush => exact bounded_same hb rfl (holds_flush.trans hb.data) rfl rfl holds_flush rfl rfl
  | checkEmpty ha he =>
    have hx : ∀ g, (f.setInq { f.inq with asleep := true }).holds g = f.holds g :=
      fun g => holds_read (nil_append _).symm true
    exact bounded_same hb rfl ((hx special).trans hb.data) rfl rfl (hx counted) rfl rfl
  | readEmpty ha he =>
    have hx : ∀ g, (f.setInq { f.inq with ready := [], asleep := true }).holds g +
        f.skipped.countP g = f.holds g :=
      fun g => holds_read (ready_eq_skipped he) true
    have hspecial := hx special
    rw [hb.data] at hspecial
    have hcounted := hx counted
    rw [skipped_counted (Nat.eq_zero_of_add_eq_zero_left hspecial)] at hcounted
    exact bounded_same hb rfl (Nat.eq_zero_of_add_eq_zero_right hspecial) rfl rfl hcounted rfl rfl
  | @refuse op hr =>
    have h1 : completes s ⟨s, op, .bool false⟩ = false := by
      cases op <;> rfl
    have h2 : returns s ⟨s, op, .bool false⟩ = false := by
      cases op <;> rfl
    rw [h1, h2]
    exact bounded_same hb rfl hb.data rfl rfl rfl rfl rfl
  | wake => exact bounded_same hb rfl hb.data rfl rfl rfl rfl rfl
  | setOut | setIn => exact absurd rfl (hp.marks _ _)
  | hiccup => exact absurd rfl hp.hiccup
  | adopt hn => exact absurd hn (hp.deliver rfl rfl _)
  | idle hw hr =>
    have h1 : completes s e = false := by
      by_contra h
      obtain ⟨m, he, -⟩ := completes_iff.mp (by simpa using h)
      exact hw m he
    have h2 : returns s e = false := by
      by_contra h
      obtain ⟨m, he, -⟩ := returns_iff.mp (by simpa using h)
      exact hr m he
    rw [h1, h2]
    exact hb

end Flow

namespace Pair

open Link PipeT Zmq.Flow

/-- The marks stay, and end `s` writes data frames only. -/
def DataFrom (s : Side) (w : Pair) (e : Event) : Prop :=
  w.Ordinary e ∧
    match e.op with
    | .setHwms _ _ => False
    | .write m => e.side = s → special m = false
    | _ => True

instance (s : Side) (w : Pair) (e : Event) : Decidable (w.DataFrom s e) := by
  refine @instDecidableAnd _ _ _ ?_
  induction e.op using Op.casesOn <;> infer_instance

variable {h : Int32} {s : Side} {w : Pair} {e : Event}

theorem dataFrom_special (hg : w.DataFrom s e) (hs : e.side = s) {m : Msg} (hop : e.op = .write m) : special m = false := by
  have h2 := hg.2
  rw [hop] at h2
  exact h2 hs

theorem dataFrom_plain (hg : w.DataFrom s e) : Plain s (w.inbox s).head? e := by
  refine ⟨?_, ordinary_hiccup hg.1, ?_, ?_⟩
  · intro inhwm outhwm hop
    have h2 := hg.2
    rw [hop] at h2
    exact h2
  · rintro rfl hop a
    exact ordinary_deliver hg.1 hop a
  · intro hs _ m hop _
    have hm := dataFrom_special hg hs hop
    simp only [special, or_eq_false_iff] at hm
    exact hm.2

/-- However late the reports are, the writer is at most its mark ahead of the reader,
and of what it knows of the reader. -/
theorem hwm_bound (hpos : 0 < h) {evs : List Event}
    (hr : Run (AttachedAt h s) (Guarded (DataFrom s) Step) evs w) :
    evs.countP (returns s) ≤ evs.countP (completes s) ∧
    evs.countP (completes s) - evs.countP (returns s) ≤ mark h ∧
    ∃ p, w.ends s = some p ∧ (p.msgsWritten - p.peersMsgsRead).toNat ≤ mark h ∧
      (evs.countP (completes s) < 2 ^ 64 → p.peersMsgsRead ≤ p.msgsWritten) := by
  have hh : mark h < 2 ^ 64 := by
    have := Int32.toInt_lt h
    unfold mark
    omega
  obtain ⟨-, -, hI⟩ := run_flows
    (I := fun evs t f => t = s →
      f.Bounded (mark h) (evs.countP (completes s)) (evs.countP (returns s))) hr
    (fun _ => attachedAt_attached) (fun _ _ hg => ordinary_terminate hg.1)
    (by
      rintro w t f hw hf rfl
      rw [some.inj (hf.symm.trans (attachedAt_at hw).flow)]
      exact ⟨rfl, rfl, rfl, rfl, rfl, [0], rfl, pairwise_singleton _ _, by simp⟩)
    (by
      rintro evs w e w' t f f' S hg hm hf hf' hs hb rfl
      rw [countP_append, countP_append, countP_singleton, countP_singleton]
      exact step_bounded hs (dataFrom_plain hg) (fun ht m hop => dataFrom_special hg ht hop)
        (flow_chan hf ▸ S.multipart t) (mark_pos.mpr hpos) hh (hb rfl))
  obtain ⟨f, hf, hb⟩ := hI s
  obtain ⟨p, p', hp, -, rfl⟩ := flow_inv hf
  obtain ⟨h1, h2, h3⟩ := bounded_room (hb rfl) hh
  have h4 := (hb rfl).between
  exact ⟨by omega, h1, p, hp, h2, h3⟩

def aheadByTwo : List (Side × Op) :=
  [(.first, .write ⟨.vsm, 0, [1]⟩), (.first, .write ⟨.vsm, 0, [2]⟩), (.first, .write ⟨.vsm, 0, [3]⟩),
    (.first, .flush), (.second, .read), (.first, .deliver), (.first, .write ⟨.vsm, 0, [3]⟩)]

theorem hwm_bound_two : ∃ evs w, Run (AttachedAt 2 .first) (Guarded (DataFrom .first) Step) evs w ∧
    evs.countP (completes .first) = 3 ∧ evs.countP (returns .first) = 1 ∧ 3 - evs.countP (returns .first) ≤ mark 2 := by
  obtain ⟨⟨evs, w⟩, hx⟩ := isSome_iff_exists.mp
    (show (((pipepair fun _ => 2).attach (fun _ => 0) (fun _ => 0)).play (DataFrom .first)
      aheadByTwo).isSome = true by decide)
  have hcount : (((pipepair fun _ => 2).attach (fun _ => 0) (fun _ => 0)).play (DataFrom .first)
      aheadByTwo).map (fun x => (x.1.countP (completes .first), x.1.countP (returns .first))) =
      some (3, 1) := by decide
  simp only [hx, map_some, some.injEq, Prod.mk.injEq] at hcount
  have hrun : Run (AttachedAt 2 .first) (Guarded (DataFrom .first) Step) ([] ++ evs) w :=
    play_run (.nil (attached_first 2)) hx
  exact ⟨_, w, hrun, hcount.1, hcount.2, hcount.1 ▸ (hwm_bound (by decide) hrun).2.1⟩

def rolling (n : ℕ) : Flow :=
  { fresh 1 with
    written := UInt64.ofNat n
    read := UInt64.ofNat n
    peersRead := UInt64.ofNat n }

theorem rolling_hasRoom (n : ℕ) : (rolling n).hasRoom = true := by
  rw [hasRoom_iff]
  right
  change (UInt64.ofNat n - UInt64.ofNat n).toNat < 1
  rw [UInt64.sub_self]
  decide

theorem rolling_crossed (n : ℕ) : crossed (rolling n) =
    { rolling (n + 1) with peersRead := ofNat n, reports := [ofNat (n + 1)] } := by
  have h1 : (rolling n).read + 1 = UInt64.ofNat (n + 1) := by
    rw [ofNat_add]
    rfl
  have hlow : mark (computeLwm 1) = 1 := by decide
  have hp : progress (rolling n).lwm ((rolling n).read + 1) = [UInt64.ofNat (n + 1)] := by
    rw [progress_eq, show mark (rolling n).lwm = 1 from hlow, if_pos ⟨by decide, Nat.mod_one _⟩, h1]
  unfold crossed
  rw [hp]
  simp only [rolling, fresh, nil_append]
  rw [← h1]
  rfl

theorem rolling_run (n : ℕ) : ∃ evs w,
    Run (AttachedAt 1 .first) (Guarded (DataFrom .first) Step) evs w ∧ At w .first (rolling n) := by
  induction n with
  | zero =>
    have h0 := attached_first 1
    exact ⟨[], _, .nil h0, attachedAt_at h0⟩
  | succ n ih =>
    obtain ⟨evs, w, hrun, hat⟩ := ih
    obtain ⟨w1, hrun1, hat1⟩ := hat.cross byte_single rfl rfl rfl (rolling_hasRoom n) hrun
      fun w => ⟨⟨trivial, fun _ => by decide⟩, ⟨trivial, trivial⟩, ⟨trivial, trivial⟩⟩
    rw [rolling_crossed] at hat1
    obtain ⟨w2, hs2, hat2⟩ := hat1.report rfl
    have hg : DataFrom .first w1 ⟨.first, .deliver, .unit⟩ := by
      refine ⟨?_, trivial⟩
      simp [Ordinary, hat1.inbox]
    exact ⟨_, w2, .snoc hrun1 ⟨hg, hs2⟩, hat2⟩

/-- After 2 ^ 64 messages the writer's counter has wrapped and the reader's has not. -/
theorem written_can_wrap : ∃ evs w p, Run (AttachedAt 1 .first) (Guarded (DataFrom .first) Step) evs w ∧ w.ends .first = some p ∧
    ¬ p.peersMsgsRead ≤ p.msgsWritten := by
  obtain ⟨evs, w, hrun, hat⟩ := rolling_run 18446744073709551615
  obtain ⟨w', hs, hat'⟩ := hat.write rfl (rolling_hasRoom _) byte_single.delimiter
  obtain ⟨p, p', hp, -, hf⟩ := flow_inv hat'.flow
  have hg : DataFrom .first w ⟨.first, .write byte, .bool true⟩ := ⟨trivial, fun _ => by decide⟩
  refine ⟨_, w', p, .snoc hrun ⟨hg, hs⟩, hp, ?_⟩
  have h1 := congrArg Flow.written hf
  have h2 := congrArg Flow.peersRead hf
  change _ = p.msgsWritten at h1
  change _ = p.peersMsgsRead at h2
  rw [← h1, ← h2]
  decide

end Pair

end Zmq
