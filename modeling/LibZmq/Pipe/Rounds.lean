import LibZmq.Pipe.Flow

/-! A message that crosses a direction in which nothing waits: it is written, flushed
and read at once. Rounds of this kind take the counters as far as one likes. -/

namespace Zmq

namespace Pair

open Link PipeT Zmq.Flow

structure At (w : Pair) (s : Side) (f : Flow) : Prop where
  safe : Safe w
  running : Running w.link
  flow : w.link.flow s = some f
  inbox : w.inbox s = f.reports.map Cmd.activateWrite
  quiet : w.inbox s.peer = []

variable {w w' : Pair} {s : Side} {f : Flow} {p p' : PipeT} {op : Op} {r : Res} {c : Change}
  {sent : List Cmd}

theorem call_effect (S : Safe w) (hp : w.ends s = some p) (hop : op ≠ .deliver)
    (hw : ∀ m, op = .write m → m.isDelimiter = false) : ∃ r next p' c sent w', Step w ⟨s, op, r⟩ w' ∧ Safe w' ∧
      Effect p (w.link.inq s) (w.link.outq s) next op r p' c sent ∧ w'.link = w.link.after s (w.inbox s) (some p') c sent := by
  obtain ⟨r, w', hs, hm, S'⟩ := call_step S hp hop hw
  have hen : w.Enabled s op := by
    have hne : w.ends s ≠ none := by simp [hp]
    cases op with
    | deliver => exact absurd rfl hop
    | write m => exact ⟨hne, hw m rfl⟩
    | _ => exact hne
  generalize hl : w'.link = l' at hm
  cases hm with
  | @call _ _ _ p0 next p' c sent hp0 _ he =>
    cases hp.symm.trans hp0
    exact ⟨r, next, p', c, sent, w', ⟨hen, hs⟩, S', he, hl⟩
  | deliver => exact absurd rfl hop

theorem running_outpipe (S : Safe w) (hp : w.ends s = some p) (hs : p.state = .active) : p.outpipe ≠ none := by
  intro ho
  have hf := (S.handshake.own s p hp).outpipe.mp ho
  simp [Final, hs] at hf

theorem flow_after {l : Link} (inbox : List Cmd) (hp' : l.ends s.peer = some p') :
    (l.after s inbox (some p) c sent).flow s = some (flowOf p p' inbox (shift s l.chan c s)) := by
  rw [flow_eq (after_ends ..) (by rw [after_ends_peer]; exact hp'), after_inbox]
  rfl

theorem flow_after_peer {l : Link} (inbox : List Cmd) (hp : l.ends s = some p) : (l.after s.peer inbox (some p') c sent).flow s =
      some (flowOf p p' (l.inbox s ++ sent) (shift s.peer l.chan c s)) := by
  have h1 := after_ends_peer l s.peer inbox (some p') c sent
  have h2 := after_inbox_peer l s.peer inbox (some p') c sent
  rw [Side.peer_peer] at h1 h2
  rw [flow_eq (h1.trans hp) (after_ends ..), h2]
  rfl

theorem step_running {e : Event} (S : Safe w) (R : Running w.link) (hs : Step w e w')
    (ht : ∀ d, e.op ≠ .terminate d) : Running w'.link :=
  (move_flow S.handshake R (step_move S hs).1 ht).1

theorem reportsOf_map (vs : List UInt64) : reportsOf (vs.map Cmd.activateWrite) = vs := by
  simp [reportsOf, List.filterMap_map]

theorem report_eq (p : PipeT) (n : UInt64) : report p n = (progress p.lwm n).map Cmd.activateWrite := by
  unfold report progress
  split_ifs <;> rfl

theorem At.write (h : At w s f) {m : Msg} (ho : f.outActive = true) (hr : f.hasRoom = true) (hd : m.isDelimiter = false) :
    ∃ w', Step w ⟨s, .write m, .bool true⟩ w' ∧
      At w' s { f.setOutq (f.outq.write m m.hasMore) with written := bump f.written m } := by
  obtain ⟨p, p', hp, hp', rfl⟩ := flow_inv h.flow
  obtain ⟨p0, hp0, hact⟩ := h.running s
  cases hp.symm.trans hp0
  obtain ⟨r, next, p1, c, sent, w', hs, S', he, hl⟩ := call_effect h.safe hp
    (show Op.write m ≠ .deliver by simp) (by simp [hd])
  have hrun := step_running h.safe h.running hs (by simp)
  cases he with
  | writeRefused hw =>
    rw [hasRoom_eq (f := flowOf p p' (w.link.inbox s) (w.link.chan s)) rfl] at hr
    simp [hact, hr, show p.outActive = true from ho] at hw
  | writeDone =>
    have hflow := (congrArg (Link.flow · s) hl).trans (flow_after (w.inbox s) hp')
    refine ⟨w', hs, S', hrun, hflow.trans ?_, ?_, ?_⟩
    · simp only [shift, Function.update_self]
      rfl
    · change w'.link.inbox s = _
      rw [hl, after_inbox]
      exact h.inbox
    · change w'.link.inbox s.peer = _
      rw [hl, after_inbox_peer, List.append_nil]
      exact h.quiet

theorem wake_awake {q : Staged Msg} (h : q.asleep = false) : wake q = [] := by
  unfold wake Staged.flush
  split_ifs with h1 h2 h2
  · rfl
  · simp at h2
  · rfl
  · simp [h] at h2

theorem At.flush (h : At w s f) (ha : f.outq.asleep = false) :
    ∃ w', Step w ⟨s, .flush, .unit⟩ w' ∧ At w' s (f.setOutq f.outq.flush.2) := by
  obtain ⟨p, p', hp, hp', rfl⟩ := flow_inv h.flow
  obtain ⟨p0, hp0, hact⟩ := h.running s
  cases hp.symm.trans hp0
  obtain ⟨r, next, p1, c, sent, w', hs, S', he, hl⟩ := call_effect h.safe hp
    (show Op.flush ≠ .deliver by simp) (by simp)
  have hrun := step_running h.safe h.running hs (by simp)
  cases he with
  | flushIdle ho =>
    rcases ho with ho | ho
    · rw [hact] at ho
      cases ho
    · exact absurd ho (running_outpipe h.safe hp hact)
  | flush =>
    have hflow := (congrArg (Link.flow · s) hl).trans (flow_after (w.inbox s) hp')
    refine ⟨w', hs, S', hrun, hflow.trans ?_, ?_, ?_⟩
    · simp only [shift, Function.update_self]
      rfl
    · change w'.link.inbox s = _
      rw [hl, after_inbox]
      exact h.inbox
    · change w'.link.inbox s.peer = _
      rw [hl, after_inbox_peer, wake_awake (q := w.link.outq s) ha, List.append_nil]
      exact h.quiet

theorem At.read (h : At w s f) {m : Msg} {rest : List Msg} (ha : f.inActive = true)
    (hq : f.inq.ready = m :: rest) (hc : m.isCredential = false) (hd : m.isDelimiter = false) :
    ∃ w', Step w ⟨s.peer, .read, .msg (some m)⟩ w' ∧
      At w' s { f.setInq { f.inq with ready := rest } with
        read := bump f.read m
        reports := f.reports ++ progress f.lwm (bump f.read m) } := by
  obtain ⟨p, p', hp, hp', rfl⟩ := flow_inv h.flow
  obtain ⟨p0, hp0, hact⟩ := h.running s.peer
  cases hp'.symm.trans hp0
  obtain ⟨r, next, p1, c, sent, w', hs, S', he, hl⟩ := call_effect h.safe hp'
    (show Op.read ≠ .deliver by simp) (by simp)
  have hrun := step_running h.safe h.running hs (by simp)
  have hin : w.link.inq s.peer = (flowOf p p' (w.link.inbox s) (w.link.chan s)).inq := by
    rw [Link.inq, Side.peer_peer]
    rfl
  have hdrop : (w.link.inq s.peer).ready.dropWhile Msg.isCredential = m :: rest := by
    rw [hin, hq, List.dropWhile_cons_of_neg (by simp [hc])]
  cases he with
  | readIdle hidle => simp [show p'.inActive = true from ha, PipeT.readable, hact] at hidle
  | readEmpty _ hx =>
    rw [hdrop] at hx
    cases hx
  | readDelimiter _ hx hm =>
    rw [hdrop] at hx
    rw [← (List.cons.inj hx).1, hd] at hm
    cases hm
  | @readMessage m' rest' cr _ hx =>
    rw [hdrop] at hx
    obtain ⟨rfl, rfl⟩ := List.cons.inj hx
    have hflow := (congrArg (Link.flow · s) hl).trans (flow_after_peer (w.inbox s.peer) hp)
    have hinbox := (congrArg (Link.inbox · s.peer.peer) hl).trans (after_inbox_peer ..)
    rw [Side.peer_peer] at hinbox
    refine ⟨w', hs, S', hrun, hflow.trans ?_, hinbox.trans ?_, ?_⟩
    · simp only [shift, Side.peer_peer, Function.update_self, reportsOf_append, reportsOf_report,
        hin, flowOf]
      rfl
    · rw [report_eq, List.map_append]
      exact congrArg (· ++ _) h.inbox
    · change w'.link.inbox s.peer = _
      rw [hl, after_inbox]
      exact h.quiet

theorem At.report (h : At w s f) {v : UInt64} {rest : List UInt64} (hv : f.reports = v :: rest) :
    ∃ w', Step w ⟨s, .deliver, .unit⟩ w' ∧ At w' s { f with peersRead := v, reports := rest, outActive := true } := by
  obtain ⟨p, p', hp, hp', rfl⟩ := flow_inv h.flow
  obtain ⟨p0, hp0, hact⟩ := h.running s
  cases hp.symm.trans hp0
  have hc : w.inbox s = .activateWrite v :: rest.map Cmd.activateWrite := by
    rw [h.inbox, hv, List.map_cons]
  obtain ⟨w', hs, hm, S'⟩ := deliver_step h.safe hp hc
  have hstep : Step w ⟨s, .deliver, .unit⟩ w' := ⟨by simp [Enabled, hc], hs⟩
  have hrun := step_running h.safe h.running hstep (by simp)
  generalize hl : w'.link = l' at hm
  cases hm with
  | call hp1 hop he => cases he
  | @deliver _ p1 cmd rest' pe c sent hp1 hc1 hh =>
    cases hp.symm.trans hp1
    obtain ⟨rfl, rfl⟩ := List.cons.inj (hc.symm.trans hc1)
    cases hh with
    | activateWrite =>
      have hflow := (congrArg (Link.flow · s) hl).trans (flow_after (rest.map Cmd.activateWrite) hp')
      refine ⟨w', hstep, S', hrun, hflow.trans ?_, ?_, ?_⟩
      · simp only [shift, flowOf, reportsOf_map, hact, beq_self_eq_true, Bool.or_true]
      · change w'.link.inbox s = _
        rw [hl, after_inbox]
      · change w'.link.inbox s.peer = _
        rw [hl, after_inbox_peer, List.append_nil]
        exact h.quiet

structure Single (m : Msg) : Prop where
  counted : counted m = true
  credential : m.isCredential = false
  delimiter : m.isDelimiter = false

def crossed (f : Flow) : Flow :=
  { f with
    written := f.written + 1
    read := f.read + 1
    reports := f.reports ++ progress f.lwm (f.read + 1) }

theorem At.cross (h : At w s f) {m : Msg} (hm : Single m) (hc : f.chan = [Staged.empty])
    (ho : f.outActive = true) (hi : f.inActive = true) (hr : f.hasRoom = true)
    {init : Pair → Prop} {guard : Pair → Event → Prop} {evs : List Event}
    (hrun : Run init (Guarded guard Step) evs w)
    (hg : ∀ w, guard w ⟨s, .write m, .bool true⟩ ∧ guard w ⟨s, .flush, .unit⟩ ∧
      guard w ⟨s.peer, .read, .msg (some m)⟩) :
    ∃ w', Run init (Guarded guard Step)
        (evs ++ [⟨s, .write m, .bool true⟩, ⟨s, .flush, .unit⟩, ⟨s.peer, .read, .msg (some m)⟩]) w' ∧
      At w' s (crossed f) := by
  have hmore : m.hasMore = false := by
    have := hm.counted
    simp only [PipeT.counted, Bool.and_eq_true, Bool.not_eq_true'] at this
    exact this.1
  obtain ⟨w1, s1, h1⟩ := h.write ho hr hm.delimiter
  obtain ⟨w2, s2, h2⟩ := h1.flush (by simp [setOutq, Flow.outq, hc, hmore, Staged.write, Staged.empty])
  have hready : ∀ q : Flow, q.chan = [⟨[m], [], [], false⟩] → q.inq.ready = m :: [] := by
    intro q hq
    simp [Flow.inq, hq]
  obtain ⟨w3, s3, h3⟩ := h2.read hi
    (hready _ (by simp [setOutq, Flow.outq, hc, hmore, Staged.write, Staged.empty, Staged.flush,
      Staged.publish])) hm.credential hm.delimiter
  have hend : At w3 s (crossed f) := by
    convert h3 using 1
    simp [crossed, setOutq, setInq, Flow.outq, Flow.inq, hc, hmore, Staged.write, Staged.empty,
      Staged.flush, Staged.publish, bump, hm.counted]
  have hlast := Run.snoc (Run.snoc (Run.snoc hrun ⟨(hg w).1, s1⟩) ⟨(hg w1).2.1, s2⟩) ⟨(hg w2).2.2, s3⟩
  exact ⟨w3, by simpa using hlast, hend⟩

end Pair

end Zmq
