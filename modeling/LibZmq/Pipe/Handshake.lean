import LibZmq.Pipe.Link

/-! The commands an end may send, seen as a walk: it starts open, and the
commands that end the conversation move it on. What one end has sent and what
the other has received differ by the commands in flight, in every state of both. -/

namespace Zmq

open Option

inductive Phase where
  | opened
  /-- `pipe_term` sent -/
  | termed
  /-- `pipe_term` sent, then `pipe_term_ack` -/
  | termedAcked
  /-- `pipe_term_ack` sent without a `pipe_term` -/
  | acked

namespace Phase

def next : Phase → Cmd → Option Phase
  | opened, .activateRead => opened
  | opened, .activateWrite _ => opened
  | opened, .hiccup _ => opened
  | opened, .pipeTerm => termed
  | opened, .pipeTermAck => acked
  | termed, .activateRead => termed
  | termed, .activateWrite _ => termed
  | termed, .pipeTermAck => termedAcked
  | _, _ => none

def walk (a : Phase) (cmds : List Cmd) : Option Phase := cmds.foldlM next a

@[simp] theorem walk_nil (a : Phase) : walk a [] = some a := rfl

theorem walk_cons (a : Phase) (c : Cmd) (cmds : List Cmd) : walk a (c :: cmds) = (next a c).bind fun b => walk b cmds := rfl

theorem walk_append (a : Phase) (cmds cmds' : List Cmd) : walk a (cmds ++ cmds') = (walk a cmds).bind fun b => walk b cmds' :=
  List.foldlM_append

variable {cmds : List Cmd}

theorem walk_over {a b : Phase} (ha : a = termedAcked ∨ a = acked) (h : walk a cmds = some b) : cmds = [] ∧ b = a := by
  cases cmds with
  | nil => exact ⟨rfl, (some.inj h).symm⟩
  | cons c cmds =>
    rw [walk_cons] at h
    rcases ha with rfl | rfl <;> cases c <;> simp [next] at h

theorem walk_termed {b : Phase} (h : walk termed cmds = some b) : b = termed ∨ b = termedAcked := by
  induction cmds with
  | nil => exact .inl (some.inj h).symm
  | cons c cmds ih =>
    rw [walk_cons] at h
    cases c with
    | activateRead | activateWrite n => exact ih h
    | hiccup i | pipeTerm => simp [next] at h
    | pipeTermAck => exact .inr (walk_over (.inl rfl) h).2

theorem walk_opened {a : Phase} (h : walk a cmds = some opened) : a = opened ∧ Cmd.pipeTerm ∉ cmds ∧ Cmd.pipeTermAck ∉ cmds := by
  induction cmds generalizing a with
  | nil => exact ⟨some.inj h, by simp, by simp⟩
  | cons c cmds ih =>
    obtain ⟨b, hb, hw⟩ := bind_eq_some_iff.mp h
    obtain ⟨rfl, ht, ha⟩ := ih hw
    cases a <;> cases c <;> simp_all [next]

end Phase

namespace Link

open Pair PipeT Phase

def told : PipeState → Phase
  | .active | .delimiterReceived | .waitingForDelimiter => opened
  | .termReqSent1 => termed
  | .termReqSent2 => termedAcked
  | .termAckSent => acked

def heard : PipeState → Phase
  | .active | .delimiterReceived | .termReqSent1 => opened
  | .waitingForDelimiter | .termAckSent | .termReqSent2 => termed

def Final (s : PipeState) : Prop := s = .termAckSent ∨ s = .termReqSent2

def Hears (receiver : Option PipeT) (inbox : List Cmd) (sender : Option PipeT) : Prop :=
  match receiver, sender with
  | none, _ => inbox = []
  | some p, some p' => walk (heard p.state) inbox = some (told p'.state)
  | some p, none => Final p.state ∧
      (walk (heard p.state) inbox = some termedAcked ∨ walk (heard p.state) inbox = some acked)

structure Own (p : PipeT) : Prop where
  sink : p.sink = true
  outpipe : p.outpipe = none ↔ Final p.state

def hasDelimiter (c : List (Staged Msg)) : Prop := ∃ m ∈ frames c, m.isDelimiter = true

def Requested (l : Link) (s : Side) : Prop := ∃ p, l.ends s = some p ∧ p.state = .termReqSent1

structure Handshake (l : Link) : Prop where
  own : ∀ s p, l.ends s = some p → Own p
  hears : ∀ s, Hears (l.ends s) (l.inbox s) (l.ends s.peer)
  delimiter : ∀ s p, l.ends s = some p → p.state = .active → hasDelimiter (l.chan s.peer) → l.Requested s.peer
  received : ∀ s p, l.ends s = some p → p.state = .delimiterReceived → l.Requested s.peer

structure Talks (p : PipeT) (sent : List Cmd) (p' : PipeT) : Prop where
  heard : heard p'.state = heard p.state
  told : walk (told p.state) sent = some (told p'.state)
  final : Final p.state → sent = [] ∧ p'.state = p.state

variable {p p' : PipeT} {sent : List Cmd}

theorem Talks.request (h : Talks p sent p') (hs : p.state = .termReqSent1) : p'.state = .termReqSent1 := by
  obtain ⟨h1, h2, -⟩ := h
  rw [hs] at h1 h2
  rcases walk_termed h2 with h2 | h2 <;> cases hs : p'.state <;>
    simp_all [Link.heard, Link.told]

theorem Talks.same (h : p'.state = p.state) : Talks p [] p' :=
  ⟨by rw [h], by rw [h]; rfl, fun _ => ⟨rfl, h⟩⟩

theorem Own.same (h : Own p) (hs : p'.sink = p.sink) (ho : p'.outpipe = p.outpipe) (he : p'.state = p.state) : Own p' :=
  ⟨by rw [hs, h.sink], by rw [ho, he, h.outpipe]⟩

theorem readable_cases {p : PipeT} (h : (p.inActive && p.readable) = true) :
    p.state = .active ∨ p.state = .waitingForDelimiter := by
  simp only [Bool.and_eq_true, readable, Bool.or_eq_true, beq_iff_eq] at h
  exact h.2

theorem walk_wake (q : Staged Msg) {a : Phase} (ha : a = opened ∨ a = termed) : walk a (wake q) = some a := by
  unfold wake
  cases q.flush.1 <;> rcases ha with rfl | rfl <;> rfl

theorem walk_report (p : PipeT) (n : UInt64) : walk opened (report p n) = some opened := by
  unfold report
  split_ifs <;> rfl

theorem delimited_talks (h : Delimited p p' sent) : Talks p sent p' := by
  cases h with
  | active hs => exact ⟨by simp [hs, heard], by simp [hs, told], by simp [hs, Final]⟩
  | waiting hs => exact ⟨by simp [hs, heard], by simp [hs, told, walk, next], by simp [hs, Final]⟩

theorem delimited_own (h : Delimited p p' sent) (ho : Own p) : Own p' := by
  cases h with
  | active hs => exact ⟨ho.sink, by simp [ho.outpipe, hs, Final]⟩
  | waiting hs => exact ⟨ho.sink, by simp [Final]⟩

variable {p p' : PipeT} {i o : Staged Msg} {nx : ℕ} {op : Op} {r : Res} {c : Change} {cmd : Cmd} {other : Option PipeT}
    {rest inbox : List Cmd} {pe : Option PipeT} {l l' : Link} {e : Event}
  {sent : List Cmd}

theorem told_flush (ho : Own p) (hp : p.outpipe ≠ none) : told p.state = opened ∨ told p.state = termed := by
  have hf : ¬ Final p.state := fun hf => hp (ho.outpipe.mpr hf)
  simp only [Final, not_or] at hf
  cases hs : p.state <;> simp_all [told]

theorem effect_own (ho : Own p) (he : Effect p i o nx op r p' c sent) : Own p' := by
  cases he with
  | checkReadDelimiter _ _ _ hd => exact delimited_own hd ho
  | readDelimiter _ _ _ hd => exact delimited_own hd (ho.same rfl rfl rfl)
  | checkWrite | writeRefused => exact ho.same (by simp) (by simp) (by simp)
  | terminateRequest hs hp => exact ⟨ho.sink, by simp [hp, Final]⟩
  | terminateAck hs => exact ⟨ho.sink, by simp [Final]⟩
  | _ => exact ho.same rfl rfl rfl

theorem effect_talks (ho : Own p) (he : Effect p i o nx op r p' c sent) : Talks p sent p' := by
  have hfinal : p.outpipe ≠ none → ¬ Final p.state := fun hp hf => hp (ho.outpipe.mpr hf)
  cases he with
  | checkReadDelimiter _ _ _ hd => exact delimited_talks hd
  | readDelimiter _ _ _ hd =>
    obtain ⟨hh, ht, hf⟩ := delimited_talks hd
    exact ⟨hh, ht, hf⟩
  | readMessage hp he hm =>
    rcases readable_cases hp with hs | hs
    · exact ⟨rfl, by simp only [hs, told, walk_report], by simp [hs, Final]⟩
    · exact ⟨rfl, by simp only [hs, told, walk_report], by simp [hs, Final]⟩
  | checkWrite | writeRefused => exact Talks.same (by simp)
  | flush hs hp => exact ⟨rfl, walk_wake o (told_flush ho hp), fun hf => absurd hf (hfinal hp)⟩
  | hiccup hs => exact ⟨rfl, by simp [hs, told, walk, next], by simp [hs, Final]⟩
  | terminateRequest hs hp =>
    refine ⟨?_, ?_, fun hf => absurd hf (hfinal hp)⟩
    · rcases hs with hs | hs <;> simp [hs, heard]
    · have hw : walk termed (wake (delimit o)) = some termed := walk_wake _ (.inr rfl)
      rcases hs with hs | hs <;> simp only [hs, told, walk_cons, next, bind_some, hw]
  | terminateAck hs => exact ⟨by simp [hs, heard], by simp [hs, told, walk, next], by simp [hs, Final]⟩
  | terminateWait hs hp =>
    exact ⟨rfl, walk_wake _ (told_flush ho hp), fun hf => absurd hf (hfinal hp)⟩
  | _ => exact Talks.same rfl

theorem next_heard {s : PipeState} {b : Phase} (h : next (heard s) cmd = some b)
    (hc : cmd ≠ .pipeTerm) (ha : cmd ≠ .pipeTermAck) : heard s = b := by
  cases s <;> cases cmd <;> simp_all [heard, next]

theorem hears_next (h : Hears (some p) (cmd :: rest) other) : ∃ b, next (heard p.state) cmd = some b ∧
      ∀ p1, heard p1.state = b → (Final p.state → Final p1.state) → Hears (some p1) rest other := by
  cases other with
  | some p' =>
    simp only [Hears, walk_cons] at h
    obtain ⟨b, hb, hw⟩ := bind_eq_some_iff.mp h
    exact ⟨b, hb, fun p1 h1 _ => by simpa only [Hears, h1] using hw⟩
  | none =>
    obtain ⟨hf, hw⟩ := h
    obtain ⟨b, hb⟩ : ∃ b, next (heard p.state) cmd = some b := by
      rcases hw with hw | hw <;>
        exact (bind_eq_some_iff.mp (walk_cons _ _ _ ▸ hw)).imp fun _ h => h.1
    simp only [walk_cons, hb, bind_some] at hw
    exact ⟨b, hb, fun p1 h1 h2 => ⟨h2 hf, by simpa only [h1] using hw⟩⟩

theorem hears_send (h : Hears other inbox (some p))
    (ht : walk (told p.state) sent = some (told p'.state)) (hn : other = none → sent = []) :
    Hears other (inbox ++ sent) (some p') := by
  cases other with
  | none => simpa [Hears, hn rfl] using h
  | some q =>
    simp only [Hears, walk_append] at h ⊢
    rw [h, bind_some, ht]

theorem acked_cases {s s' : PipeState} (h : walk (heard s') inbox = some (told s))
    (ha : next (heard s) .pipeTermAck = some (told s')) : (s = .termReqSent1 ∨ s = .termReqSent2) ∧ Final s' := by
  have hf : Final s' := by
    cases s <;> cases s' <;> simp_all [heard, told, next, Final]
  have ht : heard s' = termed := by rcases hf with rfl | rfl <;> rfl
  rw [ht] at h
  refine ⟨?_, hf⟩
  rcases walk_termed h with h | h <;> cases s <;> simp_all [told]

theorem accepts (ho : Own p) (h : Hears (some p) (cmd :: rest) other) (h' : Hears other inbox (some p)) : Acceptable p cmd := by
  obtain ⟨b, hb, -⟩ := hears_next h
  cases cmd with
  | activateRead => trivial
  | activateWrite n => trivial
  | hiccup a =>
    intro hn
    rcases ho.outpipe.mp hn with hs | hs <;> simp [hs, heard, next] at hb
  | pipeTerm =>
    cases hs : p.state <;> simp_all [heard, next, Acceptable]
  | pipeTermAck =>
    cases other with
    | none => exact .inr h.1
    | some p' =>
      simp only [Hears, walk_cons, hb, bind_some] at h h'
      have hover : b = termedAcked ∨ b = acked := by
        cases hs : p.state <;> simp_all [heard, next]
      obtain ⟨-, hb'⟩ := walk_over hover h
      rcases (acked_cases h' (hb'.symm ▸ hb)).1 with hs | hs
      · exact .inl hs
      · exact .inr (.inr hs)

theorem hears_ack (h : Hears (some p) (.pipeTermAck :: rest) other) : rest = [] := by
  obtain ⟨b, hb, -⟩ := hears_next h
  have hover : b = termedAcked ∨ b = acked := by
    cases hs : p.state <;> simp_all [heard, next]
  cases other with
  | none =>
    have hw := h.2
    simp only [walk_cons, hb, bind_some] at hw
    rcases hw with hw | hw <;> exact (walk_over hover hw).1
  | some p' =>
    simp only [Hears, walk_cons, hb, bind_some] at h
    exact (walk_over hover h).1

theorem handled_hears {other pe : Option PipeT} (h : Hears (some p) (cmd :: rest) other) (h' : Hears other inbox (some p))
    (hh : Handled p o cmd pe c sent) : Hears pe rest other ∧ Hears other (inbox ++ sent) pe ∧ (other = none → sent = []) := by
  obtain ⟨b, hb, hn⟩ := hears_next h
  have hkeep : ∀ p1 : PipeT, p1.state = p.state → heard p.state = b → sent = [] →
      Hears (some p1) rest other ∧ Hears other (inbox ++ sent) (some p1) ∧
        (other = none → sent = []) := by
    intro p1 h1 h2 h3
    subst h3
    exact ⟨hn p1 (by rw [h1, h2]) (by rw [h1]; exact id), hears_send h' (by rw [h1]; rfl) fun _ => rfl, fun _ => rfl⟩
  have hreply : ∀ p1 : PipeT, heard p1.state = b → walk (told p.state) sent = some (told p1.state) →
      ¬ Final p.state → Hears (some p1) rest other ∧ Hears other (inbox ++ sent) (some p1) ∧
        (other = none → sent = []) := by
    intro p1 h1 h2 h3
    have hne : other = none → sent = [] := fun e => absurd (by subst e; exact h.1) h3
    exact ⟨hn p1 h1 fun hf => absurd hf h3, hears_send h' h2 hne, hne⟩
  cases hh with
  | activateRead | activateWrite | hiccup ho => exact hkeep _ rfl (next_heard hb (by simp) (by simp)) rfl
  | pipeTermWait hs hd =>
    simp only [hs, heard, next, some.injEq] at hb
    exact hreply _ hb (by simp [hs, told]) (by simp [hs, Final])
  | pipeTermAck hs =>
    rcases hs with ⟨hs, -⟩ | hs <;>
    · simp only [hs, heard, next, some.injEq] at hb
      exact hreply _ hb (by simp [hs, told, walk, next]) (by simp [hs, Final])
  | pipeTermBoth hs =>
    simp only [hs, heard, next, some.injEq] at hb
    exact hreply _ hb (by simp [hs, told, walk, next]) (by simp [hs, Final])
  | ackReply hs =>
    obtain rfl := hears_ack h
    cases other with
    | none => exact absurd h.1 (by simp [hs, Final])
    | some p' =>
      refine ⟨rfl, ?_, by simp⟩
      simp only [Hears, walk_cons, hb, bind_some, walk_nil] at h h'
      have hf := (acked_cases h' (h ▸ hb)).2
      refine ⟨hf, .inl ?_⟩
      rw [walk_append, h', hs]
      rfl
  | ackLast hs =>
    obtain rfl := hears_ack h
    cases other with
    | none => exact ⟨rfl, by simpa [Hears] using h', fun _ => rfl⟩
    | some p' =>
      refine ⟨rfl, ?_, by simp⟩
      simp only [Hears, walk_cons, hb, bind_some, walk_nil] at h h'
      have hf := (acked_cases h' (h ▸ hb)).2
      refine ⟨hf, ?_⟩
      rw [List.append_nil, h']
      rcases hs with hs | hs <;> simp [hs, told]

theorem call_hears {inbox inbox' : List Cmd}
    (h : Hears (some p) inbox other) (h' : Hears other inbox' (some p)) (ht : Talks p sent p') :
    Hears (some p') inbox other ∧ Hears other (inbox' ++ sent) (some p') ∧ (other = none → sent = []) := by
  have hne : other = none → sent = [] := by
    rintro rfl
    exact (ht.final h.1).1
  refine ⟨?_, hears_send h' ht.told hne, hne⟩
  cases other with
  | none => exact ⟨(ht.final h.1).2.symm ▸ h.1, ht.heard.symm ▸ h.2⟩
  | some q => simpa only [Hears, ht.heard] using h

theorem effect_active (he : Effect p i o nx op r p' c sent) (h : p'.state = .active) : p.state = .active := by
  cases he with
  | checkReadDelimiter _ _ _ hd | readDelimiter _ _ _ hd => cases hd <;> simp at h
  | checkWrite | writeRefused => simpa using h
  | terminateRequest | terminateAck => simp at h
  | terminateWait => exact h
  | _ => exact h

theorem effect_received (he : Effect p i o nx op r p' c sent) (h : p'.state = .delimiterReceived) :
    p.state = .delimiterReceived ∨ p.state = .active ∧ ∃ m ∈ i.items, m.isDelimiter = true := by
  have hmem : ∀ m, m ∈ i.ready → m ∈ i.items := fun m hm =>
    List.mem_append_left _ (List.mem_append_left _ hm)
  cases he with
  | checkReadDelimiter _ hr hm hd =>
    cases hd with
    | active hs => exact .inr ⟨hs, _, hmem _ (hr ▸ List.mem_cons_self), hm⟩
    | waiting => simp at h
  | readDelimiter _ hr hm hd =>
    cases hd with
    | active hs =>
      exact .inr ⟨hs, _, hmem _ ((List.dropWhile_suffix _).mem (hr ▸ List.mem_cons_self)), hm⟩
    | waiting => simp at h
  | checkWrite | writeRefused => exact .inl (by simpa using h)
  | terminateRequest | terminateAck => simp at h
  | _ => exact .inl h

theorem handled_own (ho : Own p) (hh : Handled p o cmd (some p') c sent) : Own p' := by
  cases hh with
  | activateRead | activateWrite => exact ho.same rfl rfl rfl
  | hiccup hp =>
    have hf : ¬ Final p.state := fun hf => hp (ho.outpipe.mpr hf)
    exact ⟨ho.sink, by simpa using hf⟩
  | pipeTermWait hs hd => exact ⟨ho.sink, by simp [ho.outpipe, hs, Final]⟩
  | pipeTermAck | pipeTermBoth => exact ⟨ho.sink, by simp [Final]⟩

theorem handled_state (hh : Handled p o cmd pe c sent)
    (ht : cmd ≠ .pipeTerm) (ha : cmd ≠ .pipeTermAck) : ∃ p', pe = some p' ∧ p'.state = p.state := by
  cases hh <;> simp_all

theorem handled_open (hh : Handled p o cmd (some p') c sent)
    (h : p'.state = .active ∨ p'.state = .delimiterReceived) : p.state = p'.state := by
  cases hh <;> simp_all

theorem handled_change (hh : Handled p o cmd pe c sent) : c = .keep ∨ c = .adopt ∨ c = .release := by
  cases hh <;> simp

theorem requested_stays (H : Handshake l) (h : Move l e l') {t : Side}
    (hp : l.ends t = some p) (ht : told p.state = opened) (hr : l.Requested t.peer)
    (hs : e.side = t.peer) : l'.Requested t.peer := by
  obtain ⟨p1, hp1, hs1⟩ := hr
  cases h with
  | call hp' hop he =>
    obtain rfl : _ = t.peer := hs
    cases hp'.symm.trans hp1
    exact ⟨_, after_ends .., (effect_talks (H.own _ _ hp1) he).request hs1⟩
  | deliver hp' hc hh =>
    obtain rfl : _ = t.peer := hs
    cases hp'.symm.trans hp1
    have hw := H.hears t.peer
    rw [hp', hc, Side.peer_peer, hp] at hw
    simp only [Hears, ht] at hw
    obtain ⟨-, h1, h2⟩ := walk_opened hw
    simp only [List.mem_cons, not_or] at h1 h2
    obtain ⟨p2, rfl, h3⟩ := handled_state hh (Ne.symm h1.1) (Ne.symm h2.1)
    exact ⟨p2, after_ends .., h3.trans hs1⟩

theorem not_waiting {l : Link} (H : Handshake l) {t : Side} {p1 : PipeT} (hp : l.ends t = some p)
    (hp1 : l.ends t.peer = some p1) (ht : told p.state = opened) : p1.state ≠ .waitingForDelimiter := by
  intro hs
  have hw := H.hears t.peer
  rw [hp1, Side.peer_peer, hp] at hw
  simp only [Hears, ht] at hw
  simpa [hs, heard] using (walk_opened hw).1

theorem move_own (H : Handshake l) (h : Move l e l') (t : Side) (hp : l'.ends t = some p) : Own p := by
  cases h with
  | @call s _ _ p0 _ p' _ _ hp0 _ he =>
    rcases s.eq_or_eq_peer t with rfl | rfl
    · rw [after_ends] at hp
      exact some.inj hp ▸ effect_own (H.own _ _ hp0) he
    · exact H.own _ p (by simpa using hp)
  | @deliver s p0 _ _ pe _ _ hp0 hc hh =>
    rcases s.eq_or_eq_peer t with rfl | rfl
    · rw [after_ends] at hp
      subst hp
      exact handled_own (H.own _ _ hp0) hh
    · exact H.own _ p (by simpa using hp)

theorem move_hears (H : Handshake l) (h : Move l e l') (t : Side) : Hears (l'.ends t) (l'.inbox t) (l'.ends t.peer) := by
  have hboth : ∀ s, (Hears (l'.ends s) (l'.inbox s) (l'.ends s.peer) ∧ Hears (l'.ends s.peer) (l'.inbox s.peer) (l'.ends s)) →
      Hears (l'.ends t) (l'.inbox t) (l'.ends t.peer) := by
    intro s hs
    rcases s.eq_or_eq_peer t with rfl | rfl
    · exact hs.1
    · simpa using hs.2
  cases h with
  | @call s _ _ p0 _ p' _ _ hp0 _ he =>
    have h1 := H.hears s
    have h2 := H.hears s.peer
    rw [hp0] at h1
    rw [Side.peer_peer, hp0] at h2
    have hx := call_hears h1 h2 (effect_talks (H.own _ _ hp0) he)
    apply hboth s
    simpa using ⟨hx.1, hx.2.1⟩
  | @deliver s p0 _ _ pe _ _ hp0 hc hh =>
    have h1 := H.hears s
    have h2 := H.hears s.peer
    rw [hp0, hc] at h1
    rw [Side.peer_peer, hp0] at h2
    have hx := handled_hears h1 h2 hh
    apply hboth s
    simpa using ⟨hx.1, hx.2.1⟩

theorem move_delimiter (H : Handshake l) (h : Move l e l') (t : Side)
    (hp : l'.ends t = some p) (hs : p.state = .active) (hd : hasDelimiter (l'.chan t.peer)) : l'.Requested t.peer := by
  obtain ⟨m, hm, hmd⟩ := hd
  cases h with
  | @call s op _ p0 _ p' c sent hp0 hop he =>
    rcases s.eq_or_eq_peer t with rfl | rfl
    · obtain rfl : p' = p := by simpa using hp
      have hm0 : m ∈ frames (l.chan t.peer) := by
        rcases frames_shift_peer hm with h0 | ⟨q, rfl, h0⟩
        · exact h0
        · exact inq_mem (effect_inbound he h0)
      obtain ⟨p1, hp1, hs1⟩ := H.delimiter t p0 hp0 (effect_active he hs) ⟨m, hm0, hmd⟩
      exact ⟨p1, by simpa using hp1, hs1⟩
    · have hp1 : l.ends s.peer = some p := by simpa using hp
      have ht : told p.state = opened := by simp [hs, told]
      have hold : m ∈ frames (l.chan s) → (l.after s (l.inbox s) (some p') c sent).Requested s := by
        intro hm0
        have hr := H.delimiter s.peer p hp1 hs (by simpa using ⟨m, hm0, hmd⟩)
        simpa using requested_stays H (.call hp0 hop he) hp1 ht hr (by simp)
      rw [Side.peer_peer] at hm ⊢
      rcases frames_shift_self hm with hm0 | ⟨q, rfl, hm0⟩
      · exact hold hm0
      · rcases effect_outbound he hm0 with hm0 | rfl | ⟨-, ⟨-, hs'⟩ | hs'⟩
        · exact hold (outq_mem hm0)
        · rw [hop m rfl] at hmd
          cases hmd
        · exact ⟨p', by simp, hs'⟩
        · exact absurd hs' (not_waiting H hp1 (by simpa using hp0) ht)
  | @deliver s p0 _ _ pe c _ hp0 hc hh =>
    rcases s.eq_or_eq_peer t with rfl | rfl
    · obtain rfl : pe = some p := by simpa using hp
      have hm0 : m ∈ frames (l.chan t.peer) := by
        rcases frames_shift_peer hm with hm | ⟨q, rfl, hm⟩
        · exact hm
        · rcases handled_change hh with e | e | e <;> cases e
      obtain ⟨p1, hp1, hs1⟩ := H.delimiter t p0 hp0
        ((handled_open hh (.inl hs)).trans hs) ⟨m, hm0, hmd⟩
      exact ⟨p1, by simpa using hp1, hs1⟩
    · have hp1 : l.ends s.peer = some p := by simpa using hp
      have ht : told p.state = opened := by simp [hs, told]
      rw [Side.peer_peer] at hm ⊢
      have hm0 : m ∈ frames (l.chan s) := by
        rcases frames_shift_self hm with hm | ⟨q, rfl, hm⟩
        · exact hm
        · rcases handled_change hh with e | e | e <;> cases e
      have hr := H.delimiter s.peer p hp1 hs (by simpa using ⟨m, hm0, hmd⟩)
      simpa using requested_stays H (.deliver hp0 hc hh) hp1 ht hr (by simp)

theorem move_received (H : Handshake l) (h : Move l e l') (t : Side)
    (hp : l'.ends t = some p) (hs : p.state = .delimiterReceived) : l'.Requested t.peer := by
  have hstay : e.side = t.peer → l.ends t = some p → l'.Requested t.peer := fun he hp0 =>
    requested_stays H h hp0 (by simp [hs, told]) (H.received t p hp0 hs) he
  cases h with
  | @call s op _ p0 _ p' c sent hp0 hop he =>
    rcases s.eq_or_eq_peer t with rfl | rfl
    · obtain rfl : p' = p := by simpa using hp
      obtain ⟨p1, hp1, hs1⟩ : l.Requested t.peer := by
        rcases effect_received he hs with hs0 | ⟨hs0, m, hm, hmd⟩
        · exact H.received t p0 hp0 hs0
        · exact H.delimiter t p0 hp0 hs0 ⟨m, inq_mem hm, hmd⟩
      exact ⟨p1, by simpa using hp1, hs1⟩
    · exact hstay (by simp) (by simpa using hp)
  | @deliver s p0 _ _ pe c _ hp0 hc hh =>
    rcases s.eq_or_eq_peer t with rfl | rfl
    · obtain rfl : pe = some p := by simpa using hp
      obtain ⟨p1, hp1, hs1⟩ := H.received t p0 hp0 ((handled_open hh (.inr hs)).trans hs)
      exact ⟨p1, by simpa using hp1, hs1⟩
    · exact hstay (by simp) (by simpa using hp)

theorem move_handshake (H : Handshake l) (h : Move l e l') : Handshake l' :=
  ⟨fun t _ hp => move_own H h t hp, move_hears H h, fun t _ hp => move_delimiter H h t hp, fun t _ hp => move_received H h t hp⟩

end Link

end Zmq
