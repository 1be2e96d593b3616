import LibZmq.Window
import LibZmq.Pipe.Accounting
import Mathlib.Data.List.TakeWhile

/-! The high and low water marks of a direction as a window: when the marks are set
so that it is live, no writer is left blocked with nothing to read. -/

namespace Zmq

open List Option

namespace Flow

open Pair PipeT Link

/-- A mark as a number, 0 when there is none. -/
def mark (n : Int32) : ℕ := n.toInt.toNat

/-- The frames the reader will count when it reads them. -/
def returned (m : Msg) : Bool := counted m && !m.isCredential

def lastReport (f : Flow) : UInt64 := f.reports.getLast?.getD f.peersRead

def window (f : Flow) : Window where
  high := mark f.hwm
  low := mark f.lwm
  waking := f.outActive || !f.reports.isEmpty
  written := f.written
  reported := f.lastReport
  read := f.read
  queued := f.holds returned

variable {n : Int32}

theorem mark_pos : 0 < mark n ↔ 0 < n := by
  rw [Int32.lt_iff_toInt_lt]
  unfold mark
  have h : (0 : Int32).toInt = 0 := rfl
  omega

theorem toU64_toNat (h : 0 < n) : (toU64 n).toNat = mark n := by
  have h1 : 0 < n.toInt := by simpa using Int32.lt_iff_toInt_lt.mp h
  have h2 : n.toInt64.toBitVec.toInt = n.toInt := Int32.toInt_toInt64 n
  rw [BitVec.toInt_eq_toNat_cond] at h2
  change n.toInt64.toBitVec.toNat = n.toInt.toNat
  split_ifs at h2 <;> omega

theorem hasRoom_iff (f : Flow) : f.hasRoom = true ↔ mark f.hwm = 0 ∨ (f.written - f.peersRead).toNat < mark f.hwm := by
  unfold hasRoom
  rw [Bool.not_eq_true', decide_eq_false_iff_not]
  by_cases h : 0 < f.hwm
  · have hm := mark_pos.mpr h
    rw [ge_iff_le, UInt64.le_iff_toNat_le, toU64_toNat h]
    constructor
    · intro hn
      right
      by_contra hlt
      exact hn ⟨h, by omega⟩
    · rintro (h0 | hlt) ⟨-, hge⟩ <;> omega
  · have hm : mark f.hwm = 0 := by
      by_contra hne
      exact h (mark_pos.mp (by omega))
    simp only [hm, true_or, iff_true]
    exact fun hn => h hn.1

theorem mark_computeLwm {h : Int32} (hpos : 0 < h) (hne : h ≠ 2147483647) : mark (computeLwm h) = (mark h + 1) / 2 := by
  have h1 : 0 < h.toInt := by simpa using Int32.lt_iff_toInt_lt.mp hpos
  have h2 := Int32.toInt_lt h
  have h3 : h.toInt ≠ 2147483647 := fun e => hne (Int32.toInt_inj.mp e)
  have hone : (1 : Int32).toInt = 1 := rfl
  have htwo : (2 : Int32).toInt = 2 := rfl
  have hadd : (h.toInt + 1).bmod (2 ^ 32) = h.toInt + 1 := Int.bmod_eq_of_le (by omega) (by omega)
  have hdiv : (h.toInt + 1).tdiv 2 = (h.toInt + 1) / 2 := Int.tdiv_eq_ediv_of_nonneg (by omega)
  have hmod : ((h.toInt + 1) / 2).bmod (2 ^ 32) = (h.toInt + 1) / 2 :=
    Int.bmod_eq_of_le (by omega) (by omega)
  unfold mark computeLwm
  rw [Int32.toInt_div, Int32.toInt_add, hone, htwo, hadd, hdiv]
  omega

theorem progress_eq (lwm : Int32) (n : UInt64) : progress lwm n = if 0 < mark lwm ∧ n.toNat % mark lwm = 0 then [n] else [] := by
  unfold progress
  by_cases h : 0 < lwm
  · have hm := mark_pos.mpr h
    have hiff : (lwm > 0 ∧ n % toU64 lwm = 0) ↔ (0 < mark lwm ∧ n.toNat % mark lwm = 0) := by
      rw [← UInt64.toNat_inj, UInt64.toNat_mod, toU64_toNat h]
      simp [h, hm]
    simp only [hiff]
  · have hm : ¬ 0 < mark lwm := fun hp => h (mark_pos.mp hp)
    rw [if_neg fun hn => h hn.1, if_neg fun hn => hm hn.1]

theorem returned_ending : Ending returned := by
  intro m hm
  simp [returned, counted, hm]

theorem returned_eq {m : Msg} (h : counted m = true → m.isCredential = false) : returned m = counted m := by
  unfold returned
  cases hc : counted m with
  | false => rfl
  | true => simp [h hc]

theorem skipped_returned (f : Flow) : f.skipped.countP returned = 0 := by
  apply countP_eq_zero.mpr
  intro m hm
  simp [returned, mem_takeWhile_imp hm]

theorem live_of_eq {f f' : Flow} (h : f'.window = f.window) (hl : f.window.Live) : f'.window.Live := h ▸ hl

structure Plain (s : Side) (next : Option Cmd) (e : Event) : Prop where
  marks : ∀ inhwm outhwm, e.op ≠ .setHwms inhwm outhwm
  hiccup : e.op ≠ .hiccup
  deliver : e.side = s → e.op = .deliver → ∀ a, next ≠ some (.hiccup a)
  write : e.side = s → e.res = .bool true → ∀ m, e.op = .write m → counted m = true → m.isCredential = false

variable {f f' : Flow} {s : Side} {next : Option Cmd} {e : Event} {q : Staged Msg}

theorem window_setOutq (h : (f.setOutq q).holds returned = f.holds returned) : (f.setOutq q).window = f.window := by
  unfold window
  rw [h]
  rfl

theorem window_setInq {b : Bool} (h : (f.setInq q).holds returned = f.holds returned) :
    ({ f.setInq q with inActive := b } : Flow).window = f.window := by
  have h' : ({ f.setInq q with inActive := b } : Flow).holds returned = f.holds returned := h
  unfold window
  rw [h']
  rfl

theorem step_live (h : f.Step s next e f') (hp : Plain s next e) (hm : ∀ q ∈ f.chan, Multipart q)
    (hl : f.window.Live) : f'.window.Live := by
  cases h with
  | @write m ho hr =>
    have hq : ({ f.setOutq (f.outq.write m m.hasMore) with written := bump f.written m } : Flow).holds
        returned = f.holds returned + if returned m then 1 else 0 := holds_write m
    have hw : f.window.waking = true := by simp [window, ho]
    have hb := returned_eq (hp.write rfl rfl m rfl)
    cases hc : counted m with
    | true =>
      rw [hb, ] at hq
      have hx : ({ f.setOutq (f.outq.write m m.hasMore) with written := bump f.written m } :
          Flow).window =
          { f.window with written := f.window.written + 1, queued := f.window.queued + 1 } := by
        unfold window
        rw [hq]
        simp [setOutq, bump, hc, lastReport]
      exact hx ▸ Window.live_write hl hw
    | false =>
      rw [hb, hc, if_neg Bool.false_ne_true] at hq
      refine live_of_eq ?_ hl
      unfold window
      rw [hq]
      simp [setOutq, bump, hc, lastReport]
  | refuse hr =>
    have hfull : ¬ (mark f.hwm = 0 ∨ (f.written - f.peersRead).toNat < mark f.hwm) := by
      rw [← hasRoom_iff, hr]
      exact Bool.false_ne_true
    by_cases hrep : f.reports = []
    · have hx : ({ f with outActive := false } : Flow).window =
          { f.window with waking := false } := by
        simp [window, hrep, lastReport, holds]
      have hroom : f.window.room = 0 := by
        have hlast : f.lastReport = f.peersRead := by simp [lastReport, hrep]
        simp only [Window.room, window, hlast]
        omega
      rw [hx]
      exact Window.live_refuse hl (show 0 < mark f.hwm by omega) hroom
    · refine live_of_eq ?_ hl
      simp [window, hrep, lastReport, holds]
  | rollback => exact live_of_eq (window_setOutq (holds_rollback returned_ending hm)) hl
  | flush => exact live_of_eq (window_setOutq holds_flush) hl
  | @report v rest hn hv =>
    refine live_of_eq ?_ hl
    have hlast : rest.getLast?.getD v = f.lastReport := by
      rw [lastReport, hv]
      cases rest <;> simp [getLast?_cons]
    simp [window, hv, lastReport, holds, hlast]
  | setOut | setIn => exact absurd rfl (hp.marks _ _)
  | hiccup => exact absurd rfl hp.hiccup
  | adopt hn => exact absurd hn (hp.deliver rfl rfl _)
  | checkEmpty ha he =>
    exact live_of_eq (window_setInq (holds_read (nil_append _).symm true)) hl
  | readEmpty ha he =>
    have h1 := holds_read (g := returned) (ready_eq_skipped he) true
    rw [skipped_returned] at h1
    exact live_of_eq (window_setInq h1) hl
  | @read m rest ha he =>
    have hcred : m.isCredential = false := by
      have h1 := head_dropWhile_not (p := Msg.isCredential) (l := f.inq.ready) (by simp [he])
      simpa [he] using h1
    obtain ⟨n, hn⟩ : ∃ n, (f.setInq { f.inq with ready := rest }).holds returned = n := ⟨_, rfl⟩
    have hq : n + (if counted m then 1 else 0) = f.holds returned := by
      have h1 := holds_read (g := returned) (ready_eq_read he) f.inq.asleep
      rw [countP_append, skipped_returned, Nat.zero_add, countP_singleton,
        returned_eq fun _ => hcred] at h1
      rw [← hn]
      exact h1
    -- the window after the read, with or without a report
    have hx : ∀ rs, ({ f.setInq { f.inq with ready := rest } with
          read := bump f.read m
          reports := f.reports ++ rs } : Flow).window =
        { f.window with
          read := bump f.read m
          queued := n
          reported := rs.getLast?.getD f.lastReport
          waking := f.window.waking || !rs.isEmpty } := by
      intro rs
      unfold window
      rw [← hn]
      cases rs with
      | nil => simp [setInq, lastReport, holds]
      | cons v rs => simp [setInq, lastReport, holds, getLast?_cons]
    rw [hx, progress_eq]
    cases hc : counted m with
    | true =>
      have h1 := Window.live_read hl (show 0 < f.holds returned by simp [hc] at hq; omega)
      have hq' : f.window.queued - 1 = n := by
        simp only [hc, if_true] at hq
        simp only [window, ← hq]
        omega
      rw [hq'] at h1
      simp only [bump, hc, if_true]
      by_cases hr : 0 < mark f.lwm ∧ (f.read + 1).toNat % mark f.lwm = 0
      · rw [if_pos hr]
        rw [if_pos (show 0 < f.window.low ∧ (f.window.read + 1).toNat % f.window.low = 0 from hr)] at h1
        simpa [window] using h1
      · rw [if_neg hr]
        rw [if_neg (show ¬ (0 < f.window.low ∧ (f.window.read + 1).toNat % f.window.low = 0)
          from hr)] at h1
        simpa [window] using h1
    | false =>
      have h1 := Window.live_reread hl
      have hq' : f.window.queued = n := by
        simp only [hc, Bool.false_eq_true, if_false, Nat.add_zero] at hq
        simp only [window, ← hq]
      rw [← hq']
      simp only [bump, hc, Bool.false_eq_true, if_false]
      by_cases hr : 0 < mark f.lwm ∧ f.read.toNat % mark f.lwm = 0
      · rw [if_pos hr]
        rw [if_pos (show 0 < f.window.low ∧ f.window.read.toNat % f.window.low = 0 from hr)] at h1
        simpa [window] using h1
      · rw [if_neg hr]
        rw [if_neg (show ¬ (0 < f.window.low ∧ f.window.read.toNat % f.window.low = 0) from hr)] at h1
        simpa [window] using h1
  | wake | idle => exact hl

theorem step_written {m : Msg} (h : f.Step s next e f') (he : e = ⟨s, .write m, .bool true⟩) :
    f' = { f.setOutq (f.outq.write m m.hasMore) with written := bump f.written m } := by
  cases h with
  | write ho hr =>
    cases he
    rfl
  | idle hw => exact absurd he (hw m)
  | _ => simp at he

end Flow

namespace Pair

open Link PipeT Zmq.Flow

/-- The writer has flushed and the reader has read all complete messages. -/
def Drained (w : Pair) (s : Side) : Prop := ∀ q ∈ w.link.chan s, q.ready = [] ∧ q.complete = []

instance (w : Pair) (s : Side) : Decidable (w.Drained s) := by
  unfold Drained
  infer_instance

/-- With nothing in flight and nothing to read, the writer can write again. -/
def NotStranded (w : Pair) (s : Side) : Prop :=
  (∀ t, ∃ p, w.ends t = some p ∧ p.state = .active) → (∀ t, w.inbox t = []) → Drained w s →
    ∀ p, w.ends s = some p → p.checkHwm = true ∧ p.outActive = true

/-- The direction that end `s` writes to is live. -/
def LiveFrom (w : Pair) (s : Side) : Prop := ∃ f, w.link.flow s = some f ∧ f.window.Live

variable {w : Pair} {s : Side} {e : Event}

theorem drained_holds {f : Flow} (hd : Drained w s) (hm : ∀ q ∈ w.link.chan s, Multipart q) (hf : w.link.flow s = some f) :
    f.holds returned = 0 := by
  rw [holds_frames, countP_eq_zero, flow_chan hf]
  intro m hmem
  obtain ⟨q, hq, hmq⟩ := mem_frames.mp hmem
  obtain ⟨h1, h2⟩ := hd q hq
  rw [Staged.items, h1, h2, ] at hmq
  simp [returned_ending m (hm q hq m hmq)]

theorem live_not_stranded (S : Safe w) (h : LiveFrom w s) : NotStranded w s := by
  intro hact hq hd p hp
  obtain ⟨f, hf, hl⟩ := h
  obtain ⟨hw, hroom⟩ := Window.live_open hl (drained_holds hd (S.multipart s) hf)
  obtain ⟨p', hp', -⟩ := hact s.peer
  obtain rfl := some.inj (hf.symm.trans (flow_eq (l := w.link) hp hp'))
  have hrep : reportsOf (w.link.inbox s) = [] := by
    rw [show w.link.inbox s = [] from hq s]
    rfl
  constructor
  · rw [← hasRoom_eq (f := flowOf p p' (w.link.inbox s) (w.link.chan s)) rfl, hasRoom_iff]
    simpa [window, lastReport, flowOf, hrep] using hroom
  · simpa [window, flowOf, hrep] using hw

/-- The event is a call or a delivery that has nothing to do with termination or hiccups. -/
def Ordinary (w : Pair) (e : Event) : Prop :=
  match e.op with
  | .terminate _ | .hiccup => False
  | .deliver =>
    match (w.inbox e.side).head? with
    | some .activateRead | some (.activateWrite _) => True
    | _ => False
  | _ => True

instance (w : Pair) (e : Event) : Decidable (w.Ordinary e) := by
  unfold Ordinary
  induction e.op using Op.casesOn with
  | deliver =>
    generalize (w.inbox e.side).head? = cmd
    induction cmd using Option.casesOn with
    | none => infer_instance
    | some cmd => induction cmd using Cmd.casesOn <;> infer_instance
  | _ => infer_instance

/-- The marks stay, and no credential is written. -/
def Unmarked (w : Pair) (e : Event) : Prop :=
  w.Ordinary e ∧
    match e.op with
    | .setHwms _ _ => False
    | .write m => m.isCredential = false
    | _ => True

instance (w : Pair) (e : Event) : Decidable (w.Unmarked e) := by
  unfold Unmarked
  refine @instDecidableAnd _ _ _ ?_
  induction e.op using Op.casesOn <;> infer_instance

/-- New marks, or a credential that counts, leave both directions live. -/
def KeepsLive (w : Pair) (e : Event) : Prop :=
  w.Ordinary e ∧
    match e.op, w.ends e.side, w.ends e.side.peer with
    | .setHwms inhwm outhwm, some p, some p' =>
      (flowOf (p.setHwms inhwm outhwm) p' (w.inbox e.side) (w.link.chan e.side)).window.Live ∧
      (flowOf p' (p.setHwms inhwm outhwm) (w.inbox e.side.peer)
        (w.link.chan e.side.peer)).window.Live
    | .write m, some p, some p' =>
      e.res = .bool true → counted m = true → m.isCredential = true →
        (flowOf { p with msgsWritten := p.msgsWritten + 1 } p' (w.inbox e.side)
          (w.link.chan e.side)).window.Live
    | _, _, _ => True

instance (w : Pair) (e : Event) : Decidable (w.KeepsLive e) := by
  unfold KeepsLive
  refine @instDecidableAnd _ _ _ ?_
  generalize w.ends e.side = p, w.ends e.side.peer = p'
  induction e.op using Op.casesOn <;> induction p using Option.casesOn <;> induction p' using Option.casesOn <;> infer_instance

theorem ordinary_terminate (h : w.Ordinary e) : ∀ d, e.op ≠ .terminate d := by
  intro d hop
  rw [Ordinary, hop] at h
  exact h

theorem ordinary_hiccup (h : w.Ordinary e) : e.op ≠ .hiccup := by
  intro hop
  rw [Ordinary, hop] at h
  exact h

theorem ordinary_deliver (h : w.Ordinary e) (hop : e.op = .deliver) (a : ℕ) : (w.inbox e.side).head? ≠ some (.hiccup a) := by
  intro hn
  rw [Ordinary, hop, hn] at h
  exact h

theorem move_marks {l l' : Link} {inhwm outhwm : Int32} {r : Res} {p p' : PipeT}
    (h : Move l ⟨s, .setHwms inhwm outhwm, r⟩ l') (hp : l.ends s = some p) (hp' : l.ends s.peer = some p') :
    l'.flow s = some (flowOf (p.setHwms inhwm outhwm) p' (l.inbox s) (l.chan s)) ∧ l'.flow s.peer =
        some (flowOf p' (p.setHwms inhwm outhwm) (l.inbox s.peer) (l.chan s.peer)) := by
  cases h with
  | @call _ _ _ p0 _ _ _ _ hp0 _ he =>
    cases hp.symm.trans hp0
    cases he
    constructor
    · rw [flow_eq (after_ends ..) (by simpa using hp'), after_inbox]
      rfl
    · rw [flow_eq (s := s.peer) (by simpa using hp') (by rw [Side.peer_peer]; exact after_ends ..), after_inbox_peer, append_nil]
      rfl

theorem write_credential {f : Flow} {m : Msg} (hc : counted m = true) (hm : m.isCredential = true) :
    ({ f.setOutq (f.outq.write m m.hasMore) with written := bump f.written m } : Flow).window =
      ({ f with written := f.written + 1 } : Flow).window := by
  have hq : ({ f.setOutq (f.outq.write m m.hasMore) with written := bump f.written m } : Flow).holds
      returned = ({ f with written := f.written + 1 } : Flow).holds returned := by
    have h1 := holds_write (f := f) (g := returned) m
    simp only [returned, hc, hm, Bool.not_true, Bool.and_false, Bool.false_eq_true, if_false, Nat.add_zero] at h1
    exact h1
  unfold window
  rw [hq]
  simp [setOutq, bump, hc, lastReport]

theorem step_keeps_live {w w' : Pair} {f f' : Flow} (S : Safe w)
    (hg : w.KeepsLive e) (hm : Move w.link e w'.link) (hf : w.link.flow s = some f)
    (hf' : w'.link.flow s = some f') (hs : f.Step s (w.inbox s).head? e f') (hl : f.window.Live) : f'.window.Live := by
  obtain ⟨t, op, r⟩ := e
  obtain ⟨p, p', hp, hp', hff⟩ := flow_inv hf
  by_cases hset : ∃ inhwm outhwm, op = .setHwms inhwm outhwm
  · obtain ⟨inhwm, outhwm, rfl⟩ := hset
    have hx := hg.2
    rcases s.eq_or_eq_peer t with rfl | rfl
    · simp only [show w.ends t = some p from hp, show w.ends t.peer = some p' from hp'] at hx
      rw [some.inj (hf'.symm.trans (move_marks hm hp hp').1)]
      exact hx.1
    · simp only [Side.peer_peer, show w.ends s = some p from hp, show w.ends s.peer = some p' from hp'] at hx
      have h2 := (move_marks hm hp' (by rw [Side.peer_peer]; exact hp)).2
      rw [Side.peer_peer] at h2
      rw [some.inj (hf'.symm.trans h2)]
      exact hx.2
  by_cases hcred : t = s ∧ r = .bool true ∧ ∃ m, op = .write m ∧ counted m = true ∧ m.isCredential = true
  · obtain ⟨rfl, rfl, m, rfl, hc, hcr⟩ := hcred
    have hx := hg.2
    simp only [show w.ends t = some p from hp, show w.ends t.peer = some p' from hp', hc, hcr, forall_const] at hx
    rw [step_written hs rfl, write_credential hc hcr, hff]
    exact hx
  · refine step_live hs ⟨?_, ordinary_hiccup hg.1, ?_, ?_⟩ (flow_chan hf ▸ S.multipart s) hl
    · intro inhwm outhwm hop
      exact hset ⟨_, _, hop⟩
    · rintro rfl hop a
      exact ordinary_deliver hg.1 hop a
    · intro ht hr m hop hc
      cases hcr : m.isCredential with
      | false => rfl
      | true => exact absurd ⟨ht, hr, m, hop, hc, hcr⟩ hcred

def fresh (h : Int32) : Flow where
  written := 0
  peersRead := 0
  outActive := true
  hwm := h
  read := 0
  inActive := true
  lwm := computeLwm h
  chan := [Staged.empty]
  reports := []

theorem attached_flow (hwms inboost outboost : Side → Int32) (s : Side) :
    ((pipepair hwms).attach inboost outboost).link.flow s = some (fresh (hwms s)) := by
  cases s <;> rfl

theorem fresh_live {h : Int32} (hne : h ≠ 2147483647) : (fresh h).window.Live := by
  by_cases hpos : 0 < h
  · right
    have hm := mark_pos.mpr hpos
    have hl := mark_computeLwm hpos hne
    have hdue : (fresh h).window.due ≤ mark (computeLwm h) := by
      exact (min_le_left _ _).trans (Nat.sub_le _ _)
    have hroom : (fresh h).window.room = mark h := by simp [Window.room, window, fresh, lastReport]
    have hempty : (fresh h).holds returned = 0 := rfl
    have hdrift : (fresh h).window.drift = 0 := by
      simp only [Window.drift, window, hempty]
      simp [fresh]
    refine ⟨show 0 < mark (computeLwm h) by omega, .inr ?_, ?_⟩
    · rw [hdrift]
      change mark (computeLwm h) + 0 ≤ mark h
      omega
    · rw [if_pos (show (fresh h).window.waking = true from rfl)]
      omega
  · refine .inl ⟨?_, rfl⟩
    change mark h = 0
    have := mt mark_pos.mp hpos
    omega

/-- In a run that starts live and in which every change of the marks, and every
credential, leaves both directions live, no writer is stranded. -/
theorem marks_not_stranded {evs : List Event} {w : Pair}
    (h : Run (fun w => Attached w ∧ ∀ s, LiveFrom w s) (Guarded KeepsLive Step) evs w) (s : Side) : NotStranded w s := by
  obtain ⟨S, -, hI⟩ := run_flows (I := fun _ _ f => f.window.Live) h (fun _ h => h.1)
    (fun _ _ hg => ordinary_terminate hg.1)
    (by
      rintro w s f ⟨-, hl⟩ hf
      obtain ⟨f0, hf0, hl0⟩ := hl s
      rwa [some.inj (hf.symm.trans hf0)])
    (by
      intro evs w e w' s f f' S hg hm hf hf' hs hl
      exact step_keeps_live S hg hm hf hf' hs hl)
  exact live_not_stranded S (hI s)

def inprocPair : Pair := (pipepair fun _ => 2).attach (fun _ => 1) (fun _ => 1)

def marksSet : List (Side × Op) :=
  [(.second, .setHwms 1 1), (.first, .write ⟨.vsm, 0, [1]⟩), (.first, .setHwms 1 2),
    (.first, .flush), (.second, .read), (.first, .deliver)]

theorem marks_not_stranded_inproc : ∃ evs w p, Run (fun w => Attached w ∧ ∀ s, LiveFrom w s) (Guarded KeepsLive Step) evs w ∧
    evs.length = 6 ∧ w.ends .first = some p ∧ p.checkHwm = true ∧ p.outActive = true := by
  obtain ⟨⟨evs, w⟩, hx⟩ := isSome_iff_exists.mp
    (show (inprocPair.play KeepsLive marksSet).isSome = true by decide)
  have hinit : Attached inprocPair ∧ ∀ s, LiveFrom inprocPair s :=
    ⟨⟨_, _, _, rfl⟩, fun s => ⟨_, attached_flow _ _ _ s, fresh_live (by decide)⟩⟩
  have hrun : Run (fun w => Attached w ∧ ∀ s, LiveFrom w s) (Guarded KeepsLive Step) ([] ++ evs) w :=
    play_run (.nil hinit) hx
  have hquiet : (inprocPair.play KeepsLive marksSet).map (fun x => (x.1.length, x.2.inbox .first,
      x.2.inbox .second, decide (x.2.Drained .first))) = some (6, [], [], true) := by decide
  have hends : (inprocPair.play KeepsLive marksSet).map
      (fun x => ((x.2.ends .first).map PipeT.state, (x.2.ends .second).map PipeT.state)) =
      some (some .active, some .active) := by decide
  simp only [hx, map_some, some.injEq, Prod.mk.injEq] at hquiet hends
  obtain ⟨hlen, hi1, hi2, hchan⟩ := hquiet
  obtain ⟨⟨p, hp, hs⟩, p', hp', hs'⟩ :=
    hends.imp map_eq_some_iff.mp map_eq_some_iff.mp
  refine ⟨_, w, p, hrun, hlen, hp, marks_not_stranded hrun .first ?_ ?_ (of_decide_eq_true hchan) p hp⟩
  · intro t
    cases t
    · exact ⟨p, hp, hs⟩
    · exact ⟨p', hp', hs'⟩
  · intro t
    cases t
    · exact hi1
    · exact hi2

def marksReset : List (Side × Op) :=
  [(.second, .setHwms 1 1), (.first, .write ⟨.vsm, 0, [1]⟩), (.first, .flush), (.second, .read)]

theorem marks_can_strand : ∃ evs w, Run Attached Step evs w ∧
    (∀ e ∈ evs, e.op = .setHwms 1 1 ∨ e.op = .write ⟨.vsm, 0, [1]⟩ ∨ e.op = .flush ∨ e.op = .read) ∧ ¬ NotStranded w .first := by
  obtain ⟨⟨evs, w⟩, hx⟩ := isSome_iff_exists.mp
    (show (pairOfOne.play free marksReset).isSome = true by decide)
  have hops : (pairOfOne.play free marksReset).map (fun x => x.1.map Event.op) =
      some [.setHwms 1 1, .write ⟨.vsm, 0, [1]⟩, .flush, .read] := by decide
  have hquiet : (pairOfOne.play free marksReset).map (fun x => (x.2.inbox .first,
      x.2.inbox .second, decide (x.2.Drained .first))) = some ([], [], true) := by decide
  have hends : (pairOfOne.play free marksReset).map
      (fun x => ((x.2.ends .first).map fun p => (p.state, p.checkHwm), (x.2.ends .second).map PipeT.state)) =
      some (some (.active, false), some .active) := by decide
  simp only [hx, map_some, some.injEq, Prod.mk.injEq] at hops hquiet hends
  obtain ⟨hi1, hi2, hchan⟩ := hquiet
  obtain ⟨⟨p, hp, hs⟩, p', hp', hs'⟩ :=
    hends.imp map_eq_some_iff.mp map_eq_some_iff.mp
  obtain ⟨hs, hroom⟩ := Prod.mk.inj hs
  refine ⟨evs, w, (play_run (.nil ⟨_, _, _, rfl⟩) hx).unguarded, ?_, ?_⟩
  · intro e he
    have hmem := mem_map_of_mem (f := Event.op) he
    rw [hops] at hmem
    simpa using hmem
  · intro hns
    have hopen := hns (by
      intro t
      cases t
      · exact ⟨p, hp, hs⟩
      · exact ⟨p', hp', hs'⟩) (by
      intro t
      cases t
      · exact hi1
      · exact hi2) (of_decide_eq_true hchan) p hp
    rw [hopen.1] at hroom
    cases hroom

end Pair

end Zmq
