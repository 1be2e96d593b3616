import LibZmq.Pipe.Termination
import Mathlib.Data.List.TakeWhile

/-! An end that waits for a delimiter. A hiccup makes its receiver throw away
the queue it has been writing to; if the delimiter is in there and the sender of
the hiccup still wants to read it, it waits for ever. Short of that it never does. -/

namespace Zmq

open List Option

namespace Link

open Pair PipeT

/-- The next command of the end is a hiccup that would delete a delimiter the
peer has not read yet. -/
def LateHiccup (l : Link) (s : Side) : Prop :=
  match l.ends s, l.inbox s, l.ends s.peer with
  | some p, .hiccup _ :: _, some p' => p.state = .termReqSent1 ∧ p'.readable = true
  | _, _, _ => False

instance (l : Link) (s : Side) : Decidable (l.LateHiccup s) := by
  unfold LateHiccup
  split <;> infer_instance

def Kept (l : Link) : Prop :=
  ∀ s p p', l.ends s = some p → p.state = .termReqSent1 → l.ends s.peer = some p' →
    p'.readable = true → ∃ q ∈ l.chan s, Msg.initDelimiter ∈ q.ready

def Woken (l : Link) : Prop :=
  ∀ s p, l.ends s = some p → p.readable = true → p.inActive = false → Cmd.activateRead ∈ l.inbox s ∨ (l.inq s).asleep = true

def Spans (l : Link) : Prop :=
  ∀ s p, l.ends s = some p → p.outpipe ≠ none → (l.chan s).length = (hiccups (l.inbox s)).length + 1

variable {p p' : PipeT} {i o q : Staged Msg} {nx : ℕ} {op : Op} {r : Res} {c : Change}
  {sent : List Cmd}

theorem mem_delimit (q : Staged Msg) : Msg.initDelimiter ∈ (delimit q).flush.2.ready := by
  simp [Staged.flush_ready, delimit, Staged.write]

theorem effect_requests (he : Effect p i o nx op r p' c sent) (hs : p'.state = .termReqSent1) :
    p.state = .termReqSent1 ∧ c = .keep ∨ ∃ q, c = .outbound q ∧
      (Msg.initDelimiter ∈ q.ready ∨ p.state = .termReqSent1 ∧ ∀ m ∈ o.ready, m ∈ q.ready) := by
  have hidle : p.state = .termReqSent1 → (p.inActive && p.readable) ≠ true := by
    intro h hr
    rcases readable_cases hr with h' | h' <;> rw [h] at h' <;> cases h'
  cases he with
  | checkReadEmpty hp | checkReadTrue hp | readEmpty hp | readMessage hp =>
    exact absurd hp (hidle hs)
  | checkReadDelimiter hp _ _ hd | readDelimiter hp _ _ hd => cases hd <;> cases hs
  | checkWrite | writeRefused => exact .inl ⟨by simpa using hs, rfl⟩
  | writeDone hw =>
    simp only [PipeT.checkWrite, show p.state = .termReqSent1 from hs] at hw
    simp at hw
  | rollback => exact .inr ⟨_, rfl, .inr ⟨hs, fun m hm => hm⟩⟩
  | flush => exact .inr ⟨_, rfl, .inr ⟨hs, fun m hm => by
      rw [Staged.flush_ready]
      exact mem_append_left _ hm⟩⟩
  | hiccup ha => rw [show p.state = .termReqSent1 from hs] at ha; cases ha
  | terminateRequest => exact .inr ⟨_, rfl, .inl (mem_delimit o)⟩
  | terminateAck => cases hs
  | terminateWait hw => rw [show p.state = .termReqSent1 from hs] at hw; cases hw
  | _ => exact .inl ⟨hs, rfl⟩

theorem effect_readable (he : Effect p i o nx op r p' c sent) (hr : p'.readable = true) : p.readable = true := by
  cases he with
  | checkReadDelimiter _ _ _ hd | readDelimiter _ _ _ hd => cases hd <;> cases hr
  | checkWrite | writeRefused => simpa [PipeT.readable] using hr
  | terminateRequest | terminateAck => cases hr
  | _ => exact hr

theorem delimiter_dropWhile {l : List Msg} (h : Msg.initDelimiter ∈ l) : Msg.initDelimiter ∈ l.dropWhile Msg.isCredential := by
  rw [← takeWhile_append_dropWhile (p := Msg.isCredential) (l := l), mem_append] at h
  rcases h with h | h
  · exact absurd (mem_takeWhile_imp h) (by decide)
  · exact h

theorem effect_leaves (he : Effect p i o nx op r p' (.inbound q) sent) (hr : p'.readable = true)
    (hd : Msg.initDelimiter ∈ i.ready) : Msg.initDelimiter ∈ q.ready := by
  cases he with
  | checkReadEmpty _ he | checkReadTrue => exact hd
  | checkReadDelimiter _ _ _ hp | readDelimiter _ _ _ hp => cases hp <;> cases hr
  | readEmpty _ he =>
    have hin := delimiter_dropWhile hd
    rw [he] at hin
    cases hin
  | readMessage _ he hm =>
    have hin := delimiter_dropWhile hd
    rw [he, mem_cons] at hin
    rcases hin with rfl | h
    · cases hm
    · exact h

theorem effect_sleeps (he : Effect p i o nx op r p' c sent) (hr : p'.readable = true) (ha : p'.inActive = false) :
    (∃ q, c = .inbound q ∧ q.asleep = true) ∨ p.inActive = false ∧ (c = .keep ∨ ∃ q, c = .outbound q) := by
  cases he with
  | checkReadEmpty | readEmpty => exact .inl ⟨_, rfl, rfl⟩
  | checkReadTrue hp | readMessage hp => simp_all
  | checkReadDelimiter _ _ _ hp | readDelimiter _ _ _ hp => cases hp <;> cases hr
  | checkWrite | writeRefused => exact .inr ⟨by simpa using ha, .inl rfl⟩
  | hiccup => cases ha
  | writeDone | rollback | flush | terminateRequest | terminateWait =>
    exact .inr ⟨ha, .inr ⟨_, rfl⟩⟩
  | _ => exact .inr ⟨ha, .inl rfl⟩

theorem flush_wakes (h : q.asleep = true) : q.flush.2.asleep = true ∨ Cmd.activateRead ∈ wake q := by
  unfold wake Staged.flush
  by_cases hc : q.complete = []
  · simp [hc, h]
  · simp [hc, h]

theorem effect_wakes (he : Effect p i o nx op r p' (.outbound q) sent) (h : o.asleep = true) :
    q.asleep = true ∨ Cmd.activateRead ∈ sent := by
  have hd : (delimit o).asleep = true := h
  cases he with
  | writeDone => exact .inl (by unfold Staged.write; split_ifs <;> exact h)
  | rollback => exact .inl h
  | flush => exact flush_wakes h
  | terminateRequest => exact (flush_wakes hd).imp_right (mem_cons_of_mem _)
  | terminateWait => exact flush_wakes hd

theorem handled_requests {cmd : Cmd} (hh : Handled p o cmd (some p') c sent) (hs : p'.state = .termReqSent1) :
    p.state = .termReqSent1 ∧ (c = .keep ∨ ∃ a, cmd = .hiccup a) := by
  cases hh <;> simp_all

theorem handled_readable {cmd : Cmd} (hh : Handled p o cmd (some p') c sent) (hr : p'.readable = true) : p.readable = true := by
  cases hh <;> simp_all [PipeT.readable]

theorem handled_sleeps {cmd : Cmd} (hh : Handled p o cmd (some p') c sent) (hr : p'.readable = true) (ha : p'.inActive = false) :
    p.inActive = false ∧ cmd ≠ .activateRead := by
  cases hh <;> simp_all [PipeT.readable]

theorem move_kept {l l' : Link} {e : Event} (K : Kept l) (h : Move l e l')
    (hg : e.op = .deliver → ¬ l.LateHiccup e.side) : Kept l' := by
  intro t p1 p2 hp1 hs hp2 hr
  cases h with
  | @call s op _ p _ p' c sent hp hop he =>
    rcases s.eq_or_eq_peer t with rfl | rfl
    · obtain rfl : p' = p1 := by simpa using hp1
      have hp2' : l.ends t.peer = some p2 := by simpa using hp2
      rcases effect_requests he hs with ⟨h0, rfl⟩ | ⟨q, rfl, hd | ⟨h0, hsub⟩⟩
      · exact K t p p2 hp h0 hp2' hr
      · exact ⟨q, by simp [after, shift], hd⟩
      · obtain ⟨q0, hq0, hd⟩ := K t p p2 hp h0 hp2' hr
        -- the delimiter is in the queue written to or in one that is left alone
        cases hc : l.chan t with
        | nil => simp [hc] at hq0
        | cons v rest =>
          rw [hc, mem_cons] at hq0
          rcases hq0 with rfl | hq0
          · refine ⟨q, by simp [after, shift], hsub _ ?_⟩
            simpa [outq, hc] using hd
          · exact ⟨q0, by simp [after, shift, hc, hq0], hd⟩
    · obtain rfl : p' = p2 := by simpa using hp2
      have hp1' : l.ends s.peer = some p1 := by simpa using hp1
      obtain ⟨q0, hq0, hd⟩ := K s.peer p1 p hp1' hs (s.peer_peer.symm ▸ hp) (effect_readable he hr)
      cases c with
      | inbound q =>
        obtain ⟨d, v, hdv⟩ : ∃ d v, l.chan s.peer = d ++ [v] :=
          (eq_nil_or_concat' (l.chan s.peer)).resolve_left (ne_nil_of_mem hq0)
        rw [hdv, mem_append, mem_singleton] at hq0
        rcases hq0 with hq0 | rfl
        · exact ⟨q0, by simp [after, shift, hdv, hq0], hd⟩
        · refine ⟨q, by simp [after, shift], effect_leaves he hr ?_⟩
          simpa [inq, hdv] using hd
      | fresh => exact ⟨q0, by simp [after, shift, hq0], hd⟩
      | release => cases he
      | _ => exact ⟨q0, by simpa [after, shift] using hq0, hd⟩
  | @deliver s p cmd rest pe c sent hp hc hh =>
    rcases s.eq_or_eq_peer t with rfl | rfl
    · obtain rfl : pe = some p1 := by simpa using hp1
      have hp2' : l.ends t.peer = some p2 := by simpa using hp2
      rcases handled_requests hh hs with ⟨h0, rfl | ⟨a, rfl⟩⟩
      · exact K t p p2 hp h0 hp2' hr
      · exact absurd (by simp only [LateHiccup, hp, hc, hp2', h0, hr, and_self]) (hg rfl)
    · obtain rfl : pe = some p2 := by simpa using hp2
      have hp1' : l.ends s.peer = some p1 := by simpa using hp1
      obtain ⟨q0, hq0, hd⟩ := K s.peer p1 p hp1' hs (s.peer_peer.symm ▸ hp) (handled_readable hh hr)
      refine ⟨q0, ?_, hd⟩
      have hchan : shift s l.chan c s.peer = l.chan s.peer := by
        cases hh <;> simp [shift]
      simpa [after, hchan] using hq0

theorem inq_shift {l : Link} {s : Side} {inbox : List Cmd} {pe : Option PipeT} (hc : c = .adopt → 2 ≤ (l.chan s).length) :
    (l.after s inbox pe c sent).inq s.peer = l.inq s.peer ∨ ∃ q, c = .outbound q ∧ (l.after s inbox pe c sent).inq s.peer = q ∧
        (l.outq s = l.inq s.peer ∨ l.chan s = []) := by
  unfold inq outq
  cases c with
  | outbound q =>
    cases hcs : l.chan s with
    | nil => exact .inr ⟨q, rfl, by simp [after, shift, hcs]⟩
    | cons v rest =>
      cases rest with
      | nil => exact .inr ⟨q, rfl, by simp [after, shift, hcs]⟩
      | cons v' rest => exact .inl (by simp [after, shift, hcs])
  | adopt =>
    have h2 := hc rfl
    cases hcs : l.chan s with
    | nil => simp [hcs] at h2
    | cons v rest =>
      cases rest with
      | nil => simp [hcs] at h2
      | cons v' rest => exact .inl (by simp [after, shift, hcs])
  | _ => exact .inl (by simp [after, shift])

theorem move_woken {l l' : Link} {e : Event} (W : Woken l) (A : Spans l) (h : Move l e l') : Woken l' := by
  intro t p1 hp1 hr ha
  cases h with
  | @call s op _ p _ p' c sent hp hop he =>
    rcases s.eq_or_eq_peer t with rfl | rfl
    · obtain rfl : p' = p1 := by simpa using hp1
      rcases effect_sleeps he hr ha with ⟨q, rfl, hq⟩ | ⟨ha0, hc⟩
      · exact .inr (by simpa [inq, after, shift] using hq)
      · have hin : (l.after t (l.inbox t) (some p') c sent).inq t = l.inq t := by
          rcases hc with rfl | ⟨q, rfl⟩ <;> simp [inq, after, shift]
        rw [hin, after_inbox]
        exact W t p hp (effect_readable he hr) ha0
    · have hp1' : l.ends s.peer = some p1 := by simpa using hp1
      have hnad : c = .adopt → 2 ≤ (l.chan s).length := by
        rintro rfl
        cases he
      rw [after_inbox_peer]
      rcases W s.peer p1 hp1' hr ha with hw | hw
      · exact .inl (mem_append_left _ hw)
      · rcases inq_shift hnad with hi | ⟨q, rfl, hi, ho | ho⟩
        · exact .inr (by rw [hi, hw])
        · rw [← ho] at hw
          rcases effect_wakes he hw with hq | hq
          · exact .inr (by rw [hi, hq])
          · exact .inl (mem_append_right _ hq)
        · simp [inq, ho, Staged.empty] at hw
  | @deliver s p cmd rest pe c sent hp hc hh =>
    rcases s.eq_or_eq_peer t with rfl | rfl
    · obtain rfl : pe = some p1 := by simpa using hp1
      obtain ⟨ha0, hne⟩ := handled_sleeps hh hr ha
      have hin : (l.after t rest (some p1) c sent).inq t = l.inq t := by
        cases hh <;> simp [inq, after, shift]
      rw [hin, after_inbox]
      rcases W t p hp (handled_readable hh hr) ha0 with hw | hw
      · rw [hc, mem_cons] at hw
        exact .inl (hw.resolve_left (Ne.symm hne))
      · exact .inr hw
    · have hp1' : l.ends s.peer = some p1 := by simpa using hp1
      have hnad : c = .adopt → 2 ≤ (l.chan s).length := by
        rintro rfl
        cases hh with
        | hiccup ho =>
          rw [A s p hp ho, hc]
          simp [hiccups]
      rw [after_inbox_peer]
      rcases W s.peer p1 hp1' hr ha with hw | hw
      · exact .inl (mem_append_left _ hw)
      · rcases inq_shift hnad with hi | ⟨q, rfl, hi, -⟩
        · exact .inr (by rw [hi, hw])
        · cases hh

end Link

namespace Pair

open Link

variable {w : Pair} {s : Side} {p : PipeT}

theorem link_spans (w : Pair) : w.link.Spans := by
  intro s p hp ho
  obtain ⟨a, ha⟩ := ne_none_iff_exists'.mp ho
  simp [link, chain, route, show w.ends s = some p from hp, ha]

/-- The next command delivered is not a hiccup that deletes an unread delimiter. -/
def InTime (w : Pair) (e : Event) : Prop := e.op = .deliver → ¬ w.link.LateHiccup e.side

instance (w : Pair) (e : Event) : Decidable (w.InTime e) :=
  inferInstanceAs (Decidable (_ → _))

structure Hopeful (w : Pair) : Prop where
  safe : Safe w
  kept : w.link.Kept
  woken : w.link.Woken

theorem run_hopeful {evs : List Event} (h : Run Attached (Guarded InTime Step) evs w) : Hopeful w := by
  refine h.invariant Hopeful ?_ ?_
  · intro w hw
    refine ⟨attached_safe hw, ?_, ?_⟩
    · obtain ⟨hwms, inboost, outboost, rfl⟩ := hw
      intro s p p' hp hs
      cases s <;>
      · cases hp
        cases hs
    · obtain ⟨hwms, inboost, outboost, rfl⟩ := hw
      intro s p hp _ ha
      cases s <;>
      · cases hp
        cases ha
  · rintro w e w' ⟨S, K, W⟩ ⟨hg, hs⟩
    obtain ⟨hm, S'⟩ := step_move S hs
    exact ⟨S', move_kept K hm hg, move_woken W (link_spans w) hm⟩

theorem waiting_requested {l : Link} (H : Handshake l) (hq : ∀ t, l.inbox t = [])
    (hp : l.ends s = some p) (hs : p.state = .waitingForDelimiter) : l.Requested s.peer := by
  obtain ⟨p1, hp1⟩ := quiet_alone H hq hp
  have h1 := H.hears s
  have h2 := H.hears s.peer
  simp only [Hears] at h1 h2
  refine ⟨p1, hp1, ?_⟩
  cases hs1 : p1.state <;> simp_all [heard, told]

/-- The end can read on to a delimiter, and acknowledges the termination when it does. -/
def Finishes (w : Pair) (s : Side) : Prop :=
  (∃ p i q, w.ends s = some p ∧ p.inActive = true ∧ p.inpipe = some i ∧ w.heap.cells i = some q ∧
    Msg.initDelimiter ∈ q.view.ready) ∧
  ∃ evs w', Run (fun x => x = w) Step evs w' ∧ (∀ e ∈ evs, e.side = s ∧ e.op = .read) ∧
    (∃ p', w'.ends s = some p' ∧ p'.state = .termAckSent) ∧ .pipeTermAck ∈ w'.inbox s.peer

/-- No end that waits for a delimiter waits in vain. -/
def NoHang (w : Pair) : Prop :=
  ∀ s p, w.ends s = some p → p.state = .waitingForDelimiter → (∀ t, w.inbox t = []) → Finishes w s

theorem reads_finish (n : ℕ) {w : Pair} {p : PipeT} (S : Safe w) (hp : w.ends s = some p)
    (hs : p.state = .waitingForDelimiter) (ha : p.inActive = true)
    (hd : Msg.initDelimiter ∈ (w.link.inq s).ready) (hn : (w.link.inq s).ready.length ≤ n) :
    ∃ evs w', Run (fun x => x = w) Step evs w' ∧ (∀ e ∈ evs, e.side = s ∧ e.op = .read) ∧
      (∃ p', w'.ends s = some p' ∧ p'.state = .termAckSent) ∧ .pipeTermAck ∈ w'.inbox s.peer := by
  induction n generalizing w p with
  | zero =>
    rw [length_eq_zero_iff.mp (Nat.le_zero.mp hn)] at hd
    cases hd
  | succ n ih =>
    have hr : p.readable = true := by simp [PipeT.readable, hs]
    have hen : w.Enabled s .read := by
      show w.ends s ≠ none
      simp [hp]
    obtain ⟨r, w', hw, hm, S'⟩ := step_goes S hen
    have hone : Run (fun x => x = w) Step ([] ++ [⟨s, .read, r⟩]) w' :=
      .snoc (.nil rfl) (show Step w ⟨s, .read, r⟩ w' from ⟨hen, hw⟩)
    obtain ⟨l', hl⟩ : ∃ l', w'.link = l' := ⟨_, rfl⟩
    have hends : ∀ t, w'.ends t = l'.ends t := fun t => congrFun (congrArg Link.ends hl) t
    have hinbox : ∀ t, w'.inbox t = l'.inbox t := fun t => congrFun (congrArg Link.inbox hl) t
    rw [hl] at hm
    cases hm with
    | @call _ _ _ p0 _ p' c sent hp0 _ he =>
      cases hp.symm.trans hp0
      have hin := delimiter_dropWhile hd
      cases he with
      | readIdle hi => simp [ha, hr] at hi
      | readEmpty _ he =>
        rw [he] at hin
        cases hin
      | readDelimiter _ _ _ hdl =>
        cases hdl with
        | active hs' =>
          rw [show p.state = .waitingForDelimiter from hs] at hs'
          cases hs'
        | waiting =>
          refine ⟨_, w', hone, by simp, ⟨_, (hends s).trans (after_ends ..), rfl⟩, ?_⟩
          rw [hinbox]
          simp
      | @readMessage m rest _ _ he hmd =>
        have hq : w'.link.inq s = { w.link.inq s with ready := rest } := by
          rw [hl]
          simp [inq, Link.after, shift]
        rw [he, mem_cons] at hin
        have hrest := hin.resolve_left (by rintro rfl; cases hmd)
        have hlen : rest.length + 1 ≤ (w.link.inq s).ready.length := by
          have := (dropWhile_sublist (p := Msg.isCredential) (l := (w.link.inq s).ready)).length_le
          rwa [he] at this
        obtain ⟨evs, w'', hrun, hevs, hend, hsent⟩ := ih S' ((hends s).trans (after_ends ..)) hs ha
          (by rw [hq]; exact hrest) (by rw [hq]; dsimp only; omega)
        refine ⟨_, w'', hone.append hrun, ?_, hend, hsent⟩
        intro e he
        rcases mem_append.mp he with he | he
        · rw [mem_singleton.mp he]
          exact ⟨rfl, rfl⟩
        · exact hevs e he

/-- An end that waits with nothing in flight finishes, in every run in which no
hiccup deletes a delimiter its sender still wants to read. -/
theorem hiccup_no_hang {evs : List Event} (h : Run Attached (Guarded InTime Step) evs w) : NoHang w := by
  obtain ⟨S, K, W⟩ := run_hopeful h
  have H : Handshake w.link := S.handshake
  intro s p hp hs hq
  have hr : p.readable = true := by simp [PipeT.readable, hs]
  obtain ⟨p1, hp1, hs1⟩ := waiting_requested H hq hp hs
  obtain ⟨q, hmem, hd⟩ := K s.peer p1 p hp1 hs1 (s.peer_peer.symm ▸ hp) hr
  have ho : p1.outpipe ≠ none := by
    intro ho
    rcases (H.own _ _ hp1).outpipe.mp ho with hf | hf <;> rw [hs1] at hf <;> cases hf
  have hone : (w.link.chan s.peer).length = 1 := by
    rw [link_spans w s.peer p1 hp1 ho, show w.link.inbox s.peer = [] from hq _]
    rfl
  obtain ⟨v, hv⟩ := length_eq_one_iff.mp hone
  rw [hv, mem_singleton] at hmem
  subst hmem
  have hin : w.link.inq s = q := by simp [inq, hv]
  obtain ⟨⟨a, u, ha, hu, huv⟩, -, -, -⟩ := S.sound hp
  rw [hin] at huv
  have hact : p.inActive = true := by
    by_contra hna
    rcases W s p hp hr (by simpa using hna) with hw | hw
    · rw [show w.link.inbox s = [] from hq _] at hw
      cases hw
    · rw [hin, ← huv] at hw
      rw [← huv, u.view_wf hw] at hd
      cases hd
  refine ⟨⟨p, a, u, hp, hact, ha, hu, huv ▸ hd⟩, ?_⟩
  exact reads_finish _ S hp hs hact (hin ▸ hd) le_rfl

def hiccupInTime : List (Side × Op) :=
  [(.second, .hiccup), (.first, .deliver), (.first, .terminate true), (.second, .deliver)]

theorem hiccup_no_hang_in_time : ∃ evs w p, Run Attached (Guarded InTime Step) evs w ∧
    w.ends .second = some p ∧ p.state = .waitingForDelimiter ∧ Finishes w .second := by
  obtain ⟨⟨evs, w⟩, hx⟩ := isSome_iff_exists.mp
    (show (pairOfOne.play InTime hiccupInTime).isSome = true by decide)
  have hrun : Run Attached (Guarded InTime Step) ([] ++ evs) w :=
    play_run (.nil ⟨_, _, _, rfl⟩) hx
  have hinbox : (pairOfOne.play InTime hiccupInTime).map
      (fun x => (x.2.inbox .first, x.2.inbox .second)) = some ([], []) := by decide
  have hend : (pairOfOne.play InTime hiccupInTime).map
      (fun x => (x.2.ends .second).map PipeT.state) = some (some .waitingForDelimiter) := by decide
  simp only [hx, map_some, some.injEq, Prod.mk.injEq] at hinbox hend
  obtain ⟨hi1, hi2⟩ := hinbox
  obtain ⟨p, hp, hs⟩ := map_eq_some_iff.mp hend
  refine ⟨_, w, p, hrun, hp, hs, hiccup_no_hang hrun .second p hp hs ?_⟩
  intro t
  cases t
  · exact hi1
  · exact hi2

def crossing : List (Side × Op) :=
  [(.second, .hiccup), (.first, .terminate true), (.first, .deliver), (.second, .deliver)]

theorem hiccup_can_hang : ∃ evs w, Run Attached Step evs w ∧
    (∀ e ∈ evs, e.op = .hiccup ∨ e.op = .terminate true ∨ e.op = .deliver) ∧ ¬ NoHang w := by
  obtain ⟨⟨evs, w⟩, hx⟩ := isSome_iff_exists.mp
    (show (pairOfOne.play free crossing).isSome = true by decide)
  have hops : (pairOfOne.play free crossing).map (fun x => x.1.map Event.op) =
      some [.hiccup, .terminate true, .deliver, .deliver] := by decide
  have hinbox : (pairOfOne.play free crossing).map (fun x => (x.2.inbox .first, x.2.inbox .second)) =
      some ([], []) := by decide
  have hend : (pairOfOne.play free crossing).map (fun x => ((x.2.ends .second).map PipeT.state,
      ((x.2.ends .second).bind PipeT.inpipe).map fun i => (x.2.heap.view i).ready)) =
      some (some .waitingForDelimiter, some []) := by decide
  simp only [hx, map_some, some.injEq, Prod.mk.injEq] at hops hinbox hend
  obtain ⟨hi1, hi2⟩ := hinbox
  obtain ⟨hst, hready⟩ := hend
  refine ⟨evs, w, (play_run (.nil ⟨_, _, _, rfl⟩) hx).unguarded, ?_, ?_⟩
  · intro e he
    have := mem_map_of_mem (f := Event.op) he
    rw [hops] at this
    simp only [mem_cons, not_mem_nil, or_false] at this
    tauto
  · intro hnh
    obtain ⟨p, hp, hs⟩ := map_eq_some_iff.mp hst
    obtain ⟨⟨p', i, q, hp', -, hi, hq, hd⟩, -⟩ := hnh .second p hp hs (by
      intro t
      cases t
      · exact hi1
      · exact hi2)
    simp only [hp', bind_some, hi, map_some, some.injEq, Heap.view, hq,
      Option.elim] at hready
    rw [hready] at hd
    cases hd

end Pair

end Zmq
