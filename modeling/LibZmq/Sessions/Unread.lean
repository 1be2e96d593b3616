import LibZmq.Run
import LibZmq.Sessions.SessionPipe
import Mathlib.Data.List.ReduceOption

/-! What a pipe holds for its session: messages in the order in which they have been written, and the delimiter after
them. -/

namespace Zmq

open List Bool Except EndView

universe u

variable {F : Type u}

namespace Staged

/-- What is complete, read or not flushed yet. -/
def whole (q : Staged (Option F)) : List (Option F) := q.ready ++ q.complete

theorem whole_flush (q : Staged (Option F)) : q.flush.2.whole = q.whole := by
  unfold flush
  split_ifs
  · rfl
  · exact append_nil _

theorem whole_nil {q : Staged (Option F)} (h : q.items = []) : q.whole = [] := (append_eq_nil_iff.mp h).1

end Staged

namespace PipeState

/-- The states in which `terminate` sends the request to terminate. -/
def isOpen (p : PipeState) : Bool := p == .active || p == .delimiterReceived

end PipeState

namespace EndView

variable {more : F → Bool} {x x' : EndView F} {taken added : List (Option F)} {delay : Bool} {r : Option F}

structure Turns (x x' : EndView F) (taken : List (Option F)) : Prop where
  ready : x.inpipe.ready = taken ++ x'.inpipe.ready
  complete : x'.inpipe.complete = x.inpipe.complete
  unfinished : x'.inpipe.unfinished = x.inpipe.unfinished
  delay : x'.self.delay = true
  active : x'.self.state = .active → x.self.state = .active ∧ ∀ c ∈ x'.sent, c ∈ x.sent ∨ c = .activateRead
  past : x'.self.state = .delimiterReceived ∨ x'.self.state = .termAckSent →
    x.self.state = .delimiterReceived ∨ x.self.state = .termAckSent ∨ none ∈ taken

theorem Turns.same (hd : x.self.delay = true) (hs : x'.self.state = x.self.state) (hd' : x'.self.delay = x.self.delay)
    (hi : x'.inpipe = x.inpipe) (hc : ∀ c ∈ x'.sent, c ∈ x.sent ∨ c = .activateRead) : Turns x x' [] where
  ready := by
    rw [hi]
    rfl
  complete := by rw [hi]
  unfinished := by rw [hi]
  delay := hd'.trans hd
  active h := ⟨hs.symm.trans h, hc⟩
  past h := by
    rw [hs] at h
    exact h.imp_right .inl

theorem Turns.leave (hd : x'.self.delay = true) (hi : x'.inpipe = x.inpipe) (hs : x'.self.state ≠ .active)
    (hp : x'.self.state = .delimiterReceived ∨ x'.self.state = .termAckSent →
      x.self.state = .delimiterReceived ∨ x.self.state = .termAckSent) : Turns x x' [] where
  ready := by
    rw [hi]
    rfl
  complete := by rw [hi]
  unfinished := by rw [hi]
  delay := hd
  active h := absurd h hs
  past h := (hp h).imp_right .inl

theorem flush_cases (x : EndView F) : ∃ q : Staged (Option F),
    (q.whole = x.outpipe.whole ∧ q.unfinished = x.outpipe.unfinished ∧ (x.conflate = true → q = x.outpipe)) ∧
      (x.flush = { x with outpipe := q } ∨ x.flush = { x with outpipe := q }.send .activateRead) := by
  unfold flush
  by_cases hs : x.self.state = .termAckSent ∨ x.self.outpipe = false
  · rw [if_pos hs]
    exact ⟨x.outpipe, ⟨rfl, rfl, fun _ => rfl⟩, .inl rfl⟩
  rw [if_neg hs]
  by_cases hc : x.conflate = true
  · rw [if_pos hc]
    exact ⟨x.outpipe, ⟨rfl, rfl, fun _ => rfl⟩, .inr rfl⟩
  refine ⟨x.outpipe.flush.2, ⟨Staged.whole_flush _, ?_, fun h => absurd h hc⟩, ?_⟩
  · unfold Staged.flush
    split_ifs <;> rfl
  · dsimp only
    split_ifs
    · exact .inl rfl
    · exact .inr rfl

theorem flush_self (x : EndView F) : x.flush.self = x.self ∧ x.flush.inpipe = x.inpipe ∧ x.flush.conflate = x.conflate := by
  obtain ⟨q, -, h | h⟩ := flush_cases x
  · rw [h]
    exact ⟨rfl, rfl, rfl⟩
  · rw [h]
    exact ⟨rfl, rfl, rfl⟩

theorem flush_sent (x : EndView F) : (∀ c ∈ x.flush.sent, c ∈ x.sent ∨ c = .activateRead) ∧ ∀ c ∈ x.sent, c ∈ x.flush.sent := by
  obtain ⟨q, -, h | h⟩ := flush_cases x
  · rw [h]
    exact ⟨fun _ => .inl, fun _ hc => hc⟩
  · rw [h]
    exact ⟨fun c hc => (mem_append.mp hc).imp_right mem_singleton.mp, fun c hc => mem_append_left _ hc⟩

theorem flush_whole (x : EndView F) : x.flush.outpipe.whole = x.outpipe.whole ∧
    x.flush.outpipe.unfinished = x.outpipe.unfinished ∧ (x.conflate = true → x.flush.outpipe = x.outpipe) := by
  obtain ⟨q, hq, h | h⟩ := flush_cases x
  · rw [h]
    exact hq
  · rw [h]
    exact hq

theorem rollback_cases (hx : x.rollback more = .ok x') : x' = x ∨ x' = { x with outpipe := { x.outpipe with unfinished := [] } } := by
  unfold rollback at hx
  split_ifs at hx
  · exact .inl (ok.inj hx).symm
  · exact .inr (ok.inj hx).symm

theorem write_cases (more : F → Bool) (x : EndView F) (f : F) (room : Bool) : (x.write more f room = (false, x)) ∨
    x.self.state = .active ∧ x.write more f room = (true, x.put (some f) (more f)) := by
  unfold write
  split_ifs with h
  · exact .inr ⟨h.1, rfl⟩
  · exact .inl rfl

theorem stopOutbound_cases (hx : x.stopOutbound more = .ok x') : (x.self.outpipe = false ∧ x' = x) ∨
    (x' = ({ x with outpipe := { x.outpipe with unfinished := [] } }.put none false).flush) := by
  unfold stopOutbound at hx
  split_ifs at hx with h
  · exact .inl ⟨(not_eq_true' _).mp h, (ok.inj hx).symm⟩
  · obtain ⟨x1, h1, h2⟩ := bind_ok hx
    cases h2
    unfold rollback at h1
    split_ifs at h1
    exact .inr (ok.inj h1 ▸ rfl)

theorem stopOutbound_self (hx : x.stopOutbound more = .ok x') : x'.self = x.self ∧ x'.inpipe = x.inpipe ∧
    x'.conflate = x.conflate ∧ ∀ c ∈ x.sent, c ∈ x'.sent := by
  rcases stopOutbound_cases hx with ⟨-, rfl⟩ | rfl
  · exact ⟨rfl, rfl, rfl, fun _ h => h⟩
  · obtain ⟨hself, hin, hconf⟩ := flush_self ({ x with outpipe := { x.outpipe with unfinished := [] } }.put none false)
    exact ⟨hself, hin, hconf, fun c hc => (flush_sent _).2 c hc⟩

inductive Terminates (x : EndView F) (delay : Bool) : PipeState → Prop
  | already (h : x.self.state = .termReqSent1 ∨ x.self.state = .termReqSent2 ∨ x.self.state = .termAckSent) :
    Terminates x delay x.self.state
  | requests (h : x.self.state.isOpen = true) : Terminates x delay .termReqSent1
  | drops (h : x.self.state = .waitingForDelimiter) (hd : delay = false) : Terminates x delay .termAckSent
  | waits (h : x.self.state = .waitingForDelimiter) (hd : delay = true) : Terminates x delay .waitingForDelimiter

theorem terminate_spec (hx : x.terminate more delay = .ok x') :
    Terminates x delay x'.self.state ∧ x'.self.delay = delay ∧ x'.inpipe = x.inpipe ∧ x'.conflate = x.conflate ∧
      (x.self.state.isOpen = true → EndCmd.pipeTerm ∈ x'.sent) := by
  unfold terminate at hx
  dsimp only at hx
  have hclosed : x.self.state = .termReqSent1 ∨ x.self.state = .termReqSent2 ∨ x.self.state = .termAckSent →
      ¬ x.self.state.isOpen = true := by
    rintro (h | h | h) <;> rw [h] <;> decide
  split at hx
  · rename_i h
    cases hx
    exact ⟨.already (.inl h), rfl, rfl, rfl, fun ho => absurd ho (hclosed (.inl h))⟩
  · rename_i h
    cases hx
    exact ⟨.already (.inr (.inl h)), rfl, rfl, rfl, fun ho => absurd ho (hclosed (.inr (.inl h)))⟩
  · rename_i h
    cases hx
    exact ⟨.already (.inr (.inr h)), rfl, rfl, rfl, fun ho => absurd ho (hclosed (.inr (.inr h)))⟩
  · rename_i h
    obtain ⟨hself, hin, hconf, hsent⟩ := stopOutbound_self hx
    refine ⟨?_, congrArg EndT.delay hself, hin, hconf, fun _ => hsent _ (mem_append_right _ mem_cons_self)⟩
    rw [hself]
    exact .requests (by rw [h]; rfl)
  · rename_i h
    obtain ⟨hself, hin, hconf, hsent⟩ := stopOutbound_self hx
    refine ⟨?_, congrArg EndT.delay hself, hin, hconf, fun _ => hsent _ (mem_append_right _ mem_cons_self)⟩
    rw [hself]
    exact .requests (by rw [h]; rfl)
  · rename_i h
    have hopen : ¬ x.self.state.isOpen = true := by
      rw [h]
      decide
    split_ifs at hx with hd
    · obtain ⟨hself, hin, hconf, -⟩ := stopOutbound_self hx
      refine ⟨?_, congrArg EndT.delay hself, hin, hconf, fun ho => absurd ho hopen⟩
      rw [hself]
      exact .drops h ((not_eq_true' delay).mp hd)
    · obtain ⟨hself, hin, hconf, -⟩ := stopOutbound_self hx
      refine ⟨?_, congrArg EndT.delay hself, hin, hconf, fun ho => absurd ho hopen⟩
      rw [hself]
      rw [h]
      exact .waits h (by simpa using hd)

theorem processDelimiter_spec (hx : x.processDelimiter = .ok x') : x'.inpipe = x.inpipe ∧ x'.outpipe = x.outpipe ∧
    x'.conflate = x.conflate ∧ x'.self.delay = x.self.delay ∧ (x.self.state = .active ∧ x'.self.state = .delimiterReceived ∨
      x.self.state = .waitingForDelimiter ∧ x'.self.state = .termAckSent) := by
  unfold processDelimiter at hx
  split_ifs at hx with h1 h2
  · cases hx
    exact ⟨rfl, rfl, rfl, rfl, .inl ⟨h1, rfl⟩⟩
  · cases hx
    exact ⟨rfl, rfl, rfl, rfl, .inr ⟨h2, rfl⟩⟩

theorem Turns.delimiter {rest : List (Option F)} {q : Staged (Option F)} (hd : x.self.delay = true)
    (hr : x.inpipe.ready = none :: rest) (hq : q = { x.inpipe with ready := rest })
    (hx : { x with inpipe := q }.processDelimiter = .ok x') : Turns x x' [none] ∧
    (x'.self.state = .delimiterReceived ∨ x'.self.state = .termAckSent) := by
  obtain ⟨hin, -, -, hdelay, hs⟩ := processDelimiter_spec hx
  have hstate : x'.self.state = .delimiterReceived ∨ x'.self.state = .termAckSent := hs.imp And.right And.right
  subst hq
  refine ⟨⟨?_, by rw [hin], by rw [hin], hdelay.trans hd, fun hc => ?_, fun _ => .inr (.inr mem_cons_self)⟩, hstate⟩
  · rw [hin]
    exact hr
  · rw [hc] at hstate
    rcases hstate with h | h <;> cases h

inductive Found (x x' : EndView F) : Option F → Prop
  | message (f : F) (h : Turns x x' [some f]) (hself : x'.self = x.self) : Found x x' (some f)
  | delimiter (h : Turns x x' [none]) (hs : x'.self.state = .delimiterReceived ∨ x'.self.state = .termAckSent) : Found x x' none
  | nothing (h : Turns x x' []) (hs : x'.self.state = x.self.state) : Found x x' none

theorem read_found (hd : x.self.delay = true) (hx : x.read = .ok (r, x')) : Found x x' r := by
  unfold read at hx
  split_ifs at hx
  · cases hx
    exact .nothing (.same hd rfl rfl rfl fun _ => .inl) rfl
  · cases hr : x.inpipe.ready with
    | nil =>
      rw [Staged.read_nil hr] at hx
      cases hx
      exact .nothing ⟨rfl, rfl, rfl, hd, fun h => ⟨h, fun _ => .inl⟩, fun h => h.imp_right .inl⟩ rfl
    | cons f rest =>
      rw [Staged.read_cons hr] at hx
      cases f with
      | none =>
        obtain ⟨x1, h1, h2⟩ := bind_ok hx
        cases h2
        obtain ⟨hturns, hpast⟩ := Turns.delimiter hd hr rfl h1
        exact .delimiter hturns hpast
      | some f =>
        cases hx
        exact .message f ⟨hr, rfl, rfl, hd, fun h => ⟨h, fun _ => .inl⟩, fun h => h.imp_right .inl⟩ rfl

theorem checkRead_found (hd : x.self.delay = true) (hx : x.checkRead = .ok x') : Found x x' none := by
  unfold checkRead at hx
  split_ifs at hx
  · cases hx
    exact .nothing (.same hd rfl rfl rfl fun _ => .inl) rfl
  · split at hx
    · rename_i hr
      cases hx
      refine .nothing ⟨?_, ?_, ?_, hd, fun h => ⟨h, fun _ => .inl⟩, fun h => h.imp_right .inl⟩ rfl
      · rw [Staged.checkRead_nil hr]
        rfl
      · rw [Staged.checkRead_nil hr]
      · rw [Staged.checkRead_nil hr]
    · rename_i rest hr
      obtain ⟨hturns, hpast⟩ := Turns.delimiter hd hr (by rw [Staged.read_cons hr]) hx
      exact .delimiter hturns hpast
    · cases hx
      exact .nothing (.same hd rfl rfl rfl fun _ => .inl) rfl

theorem turns_write (hd : x.self.delay = true) (f : F) (room : Bool) : Turns x (x.write more f room).2 [] := by
  rcases write_cases more x f room with h | ⟨-, h⟩
  · rw [h]
    exact .same hd rfl rfl rfl fun _ => .inl
  · rw [h]
    exact .same hd rfl rfl rfl fun _ => .inl

theorem turns_flush (hd : x.self.delay = true) : Turns x x.flush [] := by
  obtain ⟨hself, hin, -⟩ := flush_self x
  exact .same hd (by rw [hself]) (by rw [hself]) hin (flush_sent x).1

theorem turns_processActivateRead (hd : x.self.delay = true) : Turns x x.processActivateRead.2 [] ∧
    x.processActivateRead.2.self.state = x.self.state := by
  unfold processActivateRead
  split_ifs
  · exact ⟨.same hd rfl rfl rfl fun _ => .inl, rfl⟩
  · exact ⟨.same hd rfl rfl rfl fun _ => .inl, rfl⟩

theorem turns_processPipeTerm (hd : x.self.delay = true) (hx : x.processPipeTerm = .ok x') : Turns x x' [] ∧
    x'.self.state ≠ .active ∧ x'.self.readable = x.self.readable ∧
    (x'.self.state = .termReqSent1 ∨ x'.self.state = .termReqSent2 → x.self.state = .termReqSent1) := by
  unfold processPipeTerm at hx
  unfold EndT.readable
  split at hx
  · rename_i hs
    rw [if_pos hd] at hx
    cases hx
    have hne : PipeState.waitingForDelimiter ≠ .active := by decide
    refine ⟨.leave hd rfl hne ?_, hne, by rw [hs]; rfl, ?_⟩
    · rintro (h | h) <;> cases h
    · rintro (h | h) <;> cases h
  · rename_i hs
    cases hx
    have hne : PipeState.termAckSent ≠ .active := by decide
    refine ⟨.leave hd rfl hne fun _ => .inl hs, hne, by rw [hs]; rfl, ?_⟩
    rintro (h | h) <;> cases h
  · rename_i hs
    cases hx
    have hne : PipeState.termReqSent2 ≠ .active := by decide
    refine ⟨.leave hd rfl hne ?_, hne, by rw [hs]; rfl, fun _ => hs⟩
    rintro (h | h) <;> cases h
  · cases hx

theorem turns_terminate (hx : x.terminate more true = .ok x') : Turns x x' [] ∧
    x'.self.state ≠ .active ∧ (x.self.state = .active → x'.self.readable = false) ∧
    (x.self.state ≠ .active → x'.self.readable = x.self.readable) := by
  obtain ⟨hstate, hdelay, hin, -, -⟩ := terminate_spec hx
  generalize hs' : x'.self.state = state at hstate
  have hread : x'.self.readable = (state == .active || state == .waitingForDelimiter) := by
    unfold EndT.readable
    rw [hs']
  cases hstate with
  | already h =>
    have hne : x.self.state ≠ .active := by
      rintro hc
      rw [hc] at h
      rcases h with h | h | h <;> cases h
    refine ⟨.leave hdelay hin (by rw [hs']; exact hne) fun hp => ?_, hne, fun hc => absurd hc hne, fun _ => hread⟩
    rw [hs'] at hp
    exact hp
  | requests h =>
    have hne : x'.self.state ≠ .active := by
      rw [hs']
      decide
    refine ⟨.leave hdelay hin hne fun hp => ?_, by decide, fun _ => hread, fun hc => ?_⟩
    · rw [hs'] at hp
      rcases hp with hp | hp <;> cases hp
    · have hdr : x.self.state = .delimiterReceived := by
        unfold PipeState.isOpen at h
        simpa [hc] using h
      rw [hread]
      unfold EndT.readable
      rw [hdr]
      rfl
  | drops h hd => cases hd
  | waits h hd =>
    have hne : x'.self.state ≠ .active := by
      rw [hs']
      decide
    refine ⟨.leave hdelay hin hne fun hp => ?_, by decide, fun hc => ?_, fun _ => ?_⟩
    · rw [hs'] at hp
      rcases hp with hp | hp <;> cases hp
    · cases h.symm.trans hc
    · rw [hread]
      unfold EndT.readable
      rw [h]

/-! What the socket's end does with the queue that it writes to. -/

structure Fills (x x' : EndView F) (added : List (Option F)) : Prop where
  conflate : x'.conflate = x.conflate
  whole : x'.outpipe.whole = x.outpipe.whole ++ added ∨ x.conflate = true ∧ added ≠ [] ∧ x'.outpipe.whole = added
  unfinished : ∀ f ∈ x'.outpipe.unfinished, f ∈ x.outpipe.unfinished ∨ f ≠ none
  active : x'.self.state = .active → x.self.state = .active ∧ x'.self.outpipe = x.self.outpipe ∧ none ∉ added
  opens : x'.self.state.isOpen = true → x.self.state.isOpen = true
  single : x.conflate = true → x.outpipe.complete = [] ∧ x.outpipe.unfinished = [] →
    x'.outpipe.complete = [] ∧ x'.outpipe.unfinished = []

theorem Fills.same (hc : x'.conflate = x.conflate) (ho : x'.outpipe = x.outpipe)
    (hs : x'.self.state = .active → x.self.state = .active ∧ x'.self.outpipe = x.self.outpipe)
    (hopen : x'.self.state.isOpen = true → x.self.state.isOpen = true) : Fills x x' [] where
  conflate := hc
  whole := by
    rw [ho, append_nil]
    exact .inl rfl
  unfinished f hf := by
    rw [ho] at hf
    exact .inl hf
  active h := ⟨(hs h).1, (hs h).2, not_mem_nil⟩
  opens := hopen
  single _ h := by
    rw [ho]
    exact h

theorem fills_flush (x : EndView F) : Fills x x.flush [] := by
  obtain ⟨hself, -, hconf⟩ := flush_self x
  obtain ⟨hwhole, hunf, hsame⟩ := flush_whole x
  refine ⟨hconf, ?_, fun f hf => .inl (hunf ▸ hf), fun h => ?_, fun h => ?_, fun hc h => ?_⟩
  · rw [hwhole, append_nil]
    exact .inl rfl
  · rw [hself] at h ⊢
    exact ⟨h, rfl, not_mem_nil⟩
  · rw [hself] at h
    exact h
  · rw [hsame hc]
    exact h

theorem fills_rollback (hx : x.rollback more = .ok x') : Fills x x' [] := by
  rcases rollback_cases hx with rfl | rfl
  · exact .same rfl rfl (fun h => ⟨h, rfl⟩) id
  · exact ⟨rfl, .inl (append_nil _).symm, nofun, fun h => ⟨h, rfl, not_mem_nil⟩, id, fun _ h => ⟨h.1, rfl⟩⟩

theorem whole_put (x : EndView F) : (x.put none false).outpipe.whole = x.outpipe.whole ++ x.outpipe.unfinished ++ [none] ∨
    x.conflate = true ∧ (x.put none false).outpipe.whole = none :: x.outpipe.complete := by
  unfold put
  by_cases hc : x.conflate = true
  · rw [if_pos hc]
    exact .inr ⟨hc, rfl⟩
  · rw [if_neg hc]
    refine .inl ?_
    change x.outpipe.ready ++ (x.outpipe.complete ++ x.outpipe.unfinished ++ [none]) = _
    unfold Staged.whole
    simp only [append_assoc]

theorem put_unfinished (x : EndView F) (h : x.outpipe.unfinished = []) : (x.put none false).outpipe.unfinished = [] := by
  unfold put
  split_ifs
  · exact h
  · rfl

theorem fills_stopOutbound (hs : x.self.state.isOpen = false) (hsingle : x.conflate = true → x.outpipe.complete = [])
    (hx : x.stopOutbound more = .ok x') : Fills x x' [] ∨ Fills x x' [none] := by
  have hactive : x.self.state ≠ .active := fun h => by
    rw [h] at hs
    cases hs
  rcases stopOutbound_cases hx with ⟨-, rfl⟩ | rfl
  · exact .inl (.same rfl rfl (fun h => absurd h hactive) id)
  right
  obtain ⟨y, hy⟩ : ∃ y : EndView F, y = { x with outpipe := { x.outpipe with unfinished := [] } } := ⟨_, rfl⟩
  rw [← hy]
  have hyu : y.outpipe.unfinished = [] := by rw [hy]
  have hput := put_unfinished y hyu
  obtain ⟨hself, -, hconf⟩ := flush_self (y.put none false)
  obtain ⟨hwhole, hunf, hsame⟩ := flush_whole (y.put none false)
  have hconflate : (y.put none false).conflate = x.conflate := by rw [hy]; rfl
  refine ⟨hconf.trans hconflate, ?_, fun f hf => ?_, fun h => ?_, fun h => ?_, fun hc h => ?_⟩
  · rw [hwhole]
    rcases whole_put y with h | ⟨hc, h⟩
    · rw [h, hyu, append_nil, hy]
      exact .inl rfl
    · rw [hy] at hc
      refine .inr ⟨hc, cons_ne_nil _ _, ?_⟩
      rw [h, hy]
      exact congrArg _ (hsingle hc)
  · rw [hunf, hput] at hf
    exact nomatch hf
  · rw [hself, hy] at h
    exact absurd h hactive
  · rw [hself, hy] at h
    exact h
  · rw [hsame (hconflate.trans hc), hput]
    refine ⟨?_, rfl⟩
    unfold put
    rw [if_pos (by rw [hy]; exact hc), hy]
    exact h.1

theorem fills_terminate (hsingle : x.conflate = true → x.outpipe.complete = [])
    (hx : x.terminate more delay = .ok x') : Fills x x' [] ∨ Fills x x' [none] := by
  -- what the end of `terminate` begins with has the queue of `x`, in another state
  have hmoved : ∀ y : EndView F, y.stopOutbound more = .ok x' → y.outpipe = x.outpipe → y.conflate = x.conflate →
      y.self.state.isOpen = false → Fills x x' [] ∨ Fills x x' [none] := by
    intro y hy ho hc hs
    have hopen : ∀ added, Fills y x' added → x'.self.state.isOpen = false := fun added h => by
      by_contra hn
      exact nomatch (h.opens (by simpa using hn)).symm.trans hs
    have hactive : ∀ added, Fills y x' added → x'.self.state ≠ .active := fun added h ha => by
      have hn := hopen added h
      rw [ha] at hn
      cases hn
    have hfrom : ∀ added, Fills y x' added → Fills x x' added := fun added h =>
      ⟨h.conflate.trans hc, ho ▸ hc ▸ h.whole, ho ▸ h.unfinished, fun ha => absurd ha (hactive added h),
        fun ha => (nomatch (hopen added h).symm.trans ha), ho ▸ hc ▸ h.single⟩
    exact (fills_stopOutbound hs (by rw [ho, hc]; exact hsingle) hy).imp (hfrom _) (hfrom _)
  unfold terminate at hx
  dsimp only at hx
  split at hx
  · cases hx
    exact .inl (.same rfl rfl (fun h => ⟨h, rfl⟩) id)
  · cases hx
    exact .inl (.same rfl rfl (fun h => ⟨h, rfl⟩) id)
  · cases hx
    exact .inl (.same rfl rfl (fun h => ⟨h, rfl⟩) id)
  · exact hmoved _ hx rfl rfl rfl
  · exact hmoved _ hx rfl rfl rfl
  · rename_i hs
    split_ifs at hx
    · exact hmoved _ hx rfl rfl rfl
    · refine hmoved _ hx rfl rfl ?_
      rw [hs]
      rfl

theorem fills_read (hx : x.read = .ok (r, x')) : Fills x x' [] ∧ (x.self.state.isOpen = true → x'.self.state.isOpen = true) := by
  unfold read at hx
  split_ifs at hx
  · cases hx
    exact ⟨.same rfl rfl (fun h => ⟨h, rfl⟩) id, id⟩
  · split at hx
    · cases hx
      exact ⟨.same rfl rfl (fun h => ⟨h, rfl⟩) id, id⟩
    · obtain ⟨x1, h1, h2⟩ := bind_ok hx
      cases h2
      obtain ⟨-, hout, hconf, -, hs⟩ := processDelimiter_spec h1
      rcases hs with ⟨hs0, hs⟩ | ⟨hs0, hs⟩
      · refine ⟨.same hconf hout (fun h => ?_) fun _ => ?_, fun _ => by rw [hs]; rfl⟩
        · cases hs.symm.trans h
        · rw [hs0]
          rfl
      · refine ⟨.same hconf hout (fun h => ?_) fun h => ?_, fun h => ?_⟩
        · cases hs.symm.trans h
        · rw [hs] at h
          cases h
        · rw [hs0] at h
          cases h
    · cases hx
      exact ⟨.same rfl rfl (fun h => ⟨h, rfl⟩) id, id⟩

theorem fills_processActivateRead (x : EndView F) : Fills x x.processActivateRead.2 [] ∧
    x.processActivateRead.2.self.state = x.self.state := by
  unfold processActivateRead
  split_ifs
  · exact ⟨.same rfl rfl (fun h => ⟨h, rfl⟩) id, rfl⟩
  · exact ⟨.same rfl rfl (fun h => ⟨h, rfl⟩) id, rfl⟩

theorem fills_processPipeTerm (hx : x.processPipeTerm = .ok x') : Fills x x' [] := by
  unfold processPipeTerm at hx
  split at hx
  · split_ifs at hx
    · cases hx
      exact .same rfl rfl (nofun) nofun
    · cases hx
      exact .same rfl rfl (nofun) nofun
  · cases hx
    exact .same rfl rfl (nofun) nofun
  · cases hx
    exact .same rfl rfl (nofun) nofun
  · cases hx

theorem fills_processPipeTermAck (hx : x.processPipeTermAck = .ok x') : Fills x x' [] := by
  unfold processPipeTermAck at hx
  split at hx
  · cases hx
    exact .same rfl rfl (nofun) nofun
  · rename_i hs
    cases hx
    refine .same rfl rfl (fun h => (by cases hs.symm.trans h)) id
  · rename_i hs
    cases hx
    refine .same rfl rfl (fun h => (by cases hs.symm.trans h)) id
  · cases hx

end EndView

def Carried (items : List (Option F)) : Prop :=
  ∃ (ms : List F) (k : ℕ), items = ms.map some ++ replicate k none

variable {items : List (Option F)}

theorem Carried.tail {f : Option F} (h : Carried (f :: items)) : Carried items := by
  obtain ⟨ms, k, h⟩ := h
  cases ms with
  | nil =>
    cases k with
    | zero => cases h
    | succ k => exact ⟨[], k, (cons.inj h).2⟩
  | cons m ms => exact ⟨ms, k, (cons.inj h).2⟩

theorem Carried.drop {front items : List (Option F)} (h : Carried (front ++ items)) : Carried items := by
  induction front with
  | nil => exact h
  | cons f front ih => exact ih h.tail

theorem Carried.stop (h : Carried items) : Carried (items ++ [none]) := by
  obtain ⟨ms, k, rfl⟩ := h
  refine ⟨ms, k + 1, ?_⟩
  rw [append_assoc, ← replicate_succ']

theorem carried_of_not_mem (h : none ∉ items) : Carried items := by
  refine ⟨items.reduceOption, 0, ?_⟩
  induction items with
  | nil => rfl
  | cons f items ih =>
    cases f with
    | none => exact absurd mem_cons_self h
    | some f =>
      exact congrArg _ (ih fun hc => h (mem_cons_of_mem _ hc))

theorem Carried.nothing (h : Carried (none :: items)) : items.reduceOption = [] := by
  obtain ⟨ms, k, h⟩ := h
  cases ms with
  | nil =>
    cases k with
    | zero => cases h
    | succ k =>
      obtain ⟨-, rfl⟩ := cons.inj (show none :: items = none :: replicate k none from h)
      exact reduceOption_replicate_none
  | cons m ms => cases (cons.inj h).1

namespace SessionPipe

variable {l l' : SessionPipe F} {x : EndView F} {p : EndT} {taken added : List (Option F)}

def outqueue (l : SessionPipe F) : Staged (Option F) := l.dropped.headD l.inpipe

theorem outqueue_nil (hd : l.dropped = []) : l.outqueue = l.inpipe := by
  unfold outqueue
  rw [hd]
  rfl

theorem outqueue_cons {old : Staged (Option F)} {rest : List (Staged (Option F))} (hd : l.dropped = old :: rest) :
    l.outqueue = old := by
  unfold outqueue
  rw [hd]
  rfl

/-- The messages that the session has still to read. -/
def unread (l : SessionPipe F) : List F := l.inpipe.whole.reduceOption

/-- What holds of the two ends as long as the session waits for what the socket has written. -/
structure Orderly (l : SessionPipe F) : Prop where
  carried : Carried l.inpipe.whole
  delay : l.session.delay = true
  writer : ∀ p, l.socket = some p → p.state = .active → p.outpipe = true ∧ none ∉ l.outqueue.whole ∧
    l.session.state ≠ .delimiterReceived ∧ l.session.state ≠ .termAckSent
  unfinished : none ∉ l.outqueue.unfinished
  single : l.conflate = true → l.outqueue.complete = [] ∧ l.outqueue.unfinished = []
  blank : ∀ old rest, l.dropped = old :: rest → (∀ q ∈ rest, q.items = []) ∧ l.inpipe.items = []
  quiet : l.session.state = .active → ∀ c ∈ l.toSocket, c = .activateRead ∨ c = .hiccup
  told : l.session.state = .active → EndCmd.pipeTerm ∈ l.toSession ∨ ∃ p, l.socket = some p ∧ p.state.isOpen = true

theorem new_orderly (conflate : Bool) : (new conflate : SessionPipe F).Orderly where
  carried := ⟨[], 0, rfl⟩
  delay := rfl
  writer p hp _ := by
    cases hp
    exact ⟨rfl, not_mem_nil, by rintro ⟨⟩, by rintro ⟨⟩⟩
  unfinished := not_mem_nil
  single _ := ⟨rfl, rfl⟩
  blank old rest h := by cases h
  quiet _ c hc := nomatch hc
  told _ := .inr ⟨_, rfl, rfl⟩

theorem turns_outqueue (l : SessionPipe F) (hx : EndView.Turns l.sessionView x taken) :
    (l.putSession x).outqueue.complete = l.outqueue.complete ∧ (l.putSession x).outqueue.unfinished = l.outqueue.unfinished := by
  unfold outqueue putSession
  cases l.dropped with
  | nil => exact ⟨hx.complete, hx.unfinished⟩
  | cons old rest => exact ⟨rfl, rfl⟩

theorem Orderly.turns (h : l.Orderly) (hx : EndView.Turns l.sessionView x taken) :
    (l.putSession x).Orderly ∧ l.unread = taken.reduceOption ++ (l.putSession x).unread := by
  have hwhole : l.inpipe.whole = taken ++ x.inpipe.whole := by
    unfold Staged.whole
    rw [show l.inpipe.ready = taken ++ x.inpipe.ready from hx.ready, hx.complete, append_assoc]
    rfl
  have htaken : ∀ old rest, l.dropped = old :: rest → taken = [] ∧ x.inpipe.items = [] := fun old rest hd => by
    obtain ⟨-, hitems⟩ := h.blank old rest hd
    have hnil := Staged.whole_nil hitems
    rw [hwhole] at hnil
    have hu : l.inpipe.unfinished = [] := (append_eq_nil_iff.mp hitems).2
    refine ⟨(append_eq_nil_iff.mp hnil).1, ?_⟩
    refine append_eq_nil_iff.mpr ⟨(append_eq_nil_iff.mp hnil).2, hx.unfinished.trans hu⟩
  have hout : ∀ f, f ∈ (l.putSession x).outqueue.whole → f ∈ l.outqueue.whole := fun f hf => by
    cases hd : l.dropped with
    | nil =>
      rw [show (l.putSession x).outqueue = x.inpipe from outqueue_nil hd] at hf
      rw [outqueue_nil hd, hwhole]
      exact mem_append_right _ hf
    | cons old rest =>
      rw [outqueue_cons (l := l.putSession x) hd] at hf
      rw [outqueue_cons hd]
      exact hf
  have hrest := l.turns_outqueue hx
  refine ⟨⟨?_, hx.delay, fun p hp ha => ?_, ?_, fun hc => ?_, fun old rest hd => ?_, fun ha c hc => ?_, fun ha => ?_⟩, ?_⟩
  · have hcar := h.carried
    rw [hwhole] at hcar
    exact hcar.drop
  · obtain ⟨ho, hnone, hdr, hta⟩ := h.writer p hp ha
    have hpast : ¬ (x.self.state = .delimiterReceived ∨ x.self.state = .termAckSent) := fun hc => by
      rcases hx.past hc with hc | hc | hc
      · exact hdr hc
      · exact hta hc
      · cases hd : l.dropped with
        | nil =>
          refine hnone ?_
          rw [outqueue_nil hd, hwhole]
          exact mem_append_left _ hc
        | cons old rest =>
          rw [(htaken old rest hd).1] at hc
          exact nomatch hc
    exact ⟨ho, fun hc => hnone (hout _ hc), fun hc => hpast (.inl hc), fun hc => hpast (.inr hc)⟩
  · rw [hrest.2]
    exact h.unfinished
  · rw [hrest.1, hrest.2]
    exact h.single hc
  · exact ⟨(h.blank old rest hd).1, (htaken old rest hd).2⟩
  · obtain ⟨hactive, hsent⟩ := hx.active ha
    rcases mem_append.mp hc with hc | hc
    · exact h.quiet hactive c hc
    · exact (hsent c hc).elim (fun hn => nomatch hn) .inl
  · exact h.told (hx.active ha).1
  · unfold unread
    rw [hwhole, reduceOption_append]
    rfl

theorem putSocket_eq (l : SessionPipe F) (x : EndView F) : ∃ inpipe dropped, l.putSocket x =
    ⟨l.conflate, l.session, some x.self, inpipe, dropped, x.inpipe, l.toSession ++ x.sent, l.toSocket⟩ ∧
      ((l.dropped = [] ∧ dropped = [] ∧ inpipe = x.outpipe) ∨
        ∃ old rest, l.dropped = old :: rest ∧ dropped = x.outpipe :: rest ∧ inpipe = l.inpipe) := by
  unfold putSocket
  cases hd : l.dropped with
  | nil => exact ⟨_, _, rfl, .inl ⟨rfl, rfl, rfl⟩⟩
  | cons old rest => exact ⟨_, _, rfl, .inr ⟨old, rest, rfl, rfl, rfl⟩⟩

theorem putSocket_outqueue (l : SessionPipe F) (x : EndView F) : (l.putSocket x).outqueue = x.outpipe := by
  obtain ⟨inpipe, dropped, h, ⟨-, rfl, rfl⟩ | ⟨old, rest, -, rfl, -⟩⟩ := l.putSocket_eq x
  · rw [h]
    rfl
  · rw [h]
    rfl

theorem Orderly.fills (h : l.Orderly) (hp : l.socket = some p) (hx : EndView.Fills (l.socketView p) x added)
    (hcar : Carried l.outqueue.whole → Carried x.outpipe.whole)
    (hopen : l.session.state = .active → p.state.isOpen = true → x.self.state.isOpen = true ∨ EndCmd.pipeTerm ∈ x.sent) :
    (l.putSocket x).Orderly ∧ (l.putSocket x).unread = if l.dropped = [] then x.outpipe.whole.reduceOption else l.unread := by
  have hout := l.putSocket_outqueue x
  obtain ⟨inpipe, dropped, hput, hcases⟩ := l.putSocket_eq x
  have hold : (l.socketView p).outpipe = l.outqueue := rfl
  have hkept : Carried inpipe.whole ∧ inpipe.whole.reduceOption = (if l.dropped = [] then x.outpipe.whole.reduceOption else l.unread) ∧
      ∀ old rest, dropped = old :: rest → (∀ q ∈ rest, q.items = []) ∧ inpipe.items = [] := by
    rcases hcases with ⟨hd, rfl, rfl⟩ | ⟨old, rest, hd, rfl, rfl⟩
    · refine ⟨hcar ?_, (if_pos hd).symm, fun old rest hc => by cases hc⟩
      rw [outqueue_nil hd]
      exact h.carried
    · refine ⟨h.carried, ?_, fun old' rest' hc => ?_⟩
      · rw [if_neg (by rw [hd]; exact cons_ne_nil _ _)]
        rfl
      · obtain ⟨-, rfl⟩ := cons.inj hc
        exact h.blank old rest hd
  rw [hput] at hout ⊢
  refine ⟨⟨hkept.1, h.delay, fun p' hp' ha => ?_, ?_, fun hc => ?_, hkept.2.2, h.quiet, fun ha => ?_⟩, hkept.2.1⟩
  · cases hp'
    obtain ⟨hactive, hsame, hnone⟩ := hx.active ha
    obtain ⟨ho, hnot, hpast⟩ := h.writer p hp hactive
    refine ⟨hsame.trans ho, ?_, hpast⟩
    rw [hout]
    rcases hx.whole with hw | ⟨-, -, hw⟩
    · rw [hw]
      exact fun hc => (mem_append.mp hc).elim hnot hnone
    · rw [hw]
      exact hnone
  · rw [hout]
    exact fun hc => (hx.unfinished _ hc).elim h.unfinished fun hn => hn rfl
  · rw [hout]
    exact hx.single hc (h.single hc)
  · rcases h.told ha with ht | ⟨p', hp', ho⟩
    · exact .inl (mem_append_left _ ht)
    · cases hp.symm.trans hp'
      rcases hopen ha ho with ho | ht
      · exact .inr ⟨_, rfl, ho⟩
      · exact .inl (mem_append_right _ ht)

theorem Orderly.hiccup (h : l.Orderly) : l.hiccup.Orderly := by
  unfold SessionPipe.hiccup
  split_ifs with hs
  · exact h
  have hout : ∀ q : Staged (Option F), (l.dropped ++ [l.inpipe]).headD q = l.outqueue := fun q => by
    unfold outqueue
    cases l.dropped <;> rfl
  refine ⟨⟨[], 0, rfl⟩, h.delay, fun p hp ha => ?_, ?_, fun hc => ?_, fun old rest hd => ?_, fun ha c hc => ?_, h.told⟩
  · obtain ⟨ho, hnone, hpast⟩ := h.writer p hp ha
    refine ⟨ho, ?_, hpast⟩
    unfold outqueue
    rw [hout]
    exact hnone
  · unfold outqueue
    rw [hout]
    exact h.unfinished
  · unfold outqueue
    rw [hout]
    exact h.single hc
  · refine ⟨fun q hq => ?_, rfl⟩
    cases hl : l.dropped with
    | nil =>
      rw [hl] at hd
      obtain ⟨-, rfl⟩ := cons.inj hd
      exact nomatch hq
    | cons old' rest' =>
      rw [hl] at hd
      obtain ⟨-, rfl⟩ := cons.inj hd
      obtain ⟨hrest, hblank⟩ := h.blank old' rest' hl
      rcases mem_append.mp hq with hq | hq
      · exact hrest q hq
      · exact mem_singleton.mp hq ▸ hblank
  · rcases mem_append.mp hc with hc | hc
    · exact h.quiet ha c hc
    · exact .inr (mem_singleton.mp hc)

theorem Orderly.deliverSocket (h : l.Orderly) (hx : l.deliverSocket = .ok l') : l'.Orderly ∧ l'.unread = l.unread ∧
    l'.session = l.session ∧ l.toSession <+: l'.toSession ∧ l'.conflate = l.conflate ∧
    (l'.dropped = l.dropped ∧ (∀ p, l.socket = some p → p.state = .active → l'.outqueue.unfinished = l.outqueue.unfinished) ∨
      ∃ old, l.dropped = old :: l'.dropped ∧ l'.outqueue.unfinished = []) ∧
    ∀ p', l'.socket = some p' → ∃ p, l.socket = some p ∧ (p'.state = .active → p.state = .active) ∧
      (p'.state.isOpen = true → p.state.isOpen = true) := by
  unfold SessionPipe.deliverSocket at hx
  split at hx
  swap
  · cases hx
    refine ⟨h, rfl, rfl, prefix_rfl, rfl, .inl ⟨rfl, fun _ _ _ => rfl⟩, fun p' hp' => ⟨p', hp', id, id⟩⟩
  rename_i p c rest hp hc
  have hrest : ({ l with toSocket := rest } : SessionPipe F).Orderly :=
    ⟨h.carried, h.delay, h.writer, h.unfinished, h.single, h.blank,
      fun ha c hm => h.quiet ha c (hc ▸ mem_cons_of_mem _ hm), h.told⟩
  -- an end that leaves its queue alone
  have hmethod : ∀ x : EndView F, EndView.Fills (l.socketView p) x [] → x.outpipe = l.outqueue →
      (l.session.state = .active → p.state.isOpen = true → x.self.state.isOpen = true ∨ EndCmd.pipeTerm ∈ x.sent) →
      (({ l with toSocket := rest } : SessionPipe F).putSocket x).Orderly ∧
        (({ l with toSocket := rest } : SessionPipe F).putSocket x).unread = l.unread ∧
        (({ l with toSocket := rest } : SessionPipe F).putSocket x).session = l.session ∧
        l.toSession <+: (({ l with toSocket := rest } : SessionPipe F).putSocket x).toSession ∧
        (({ l with toSocket := rest } : SessionPipe F).putSocket x).conflate = l.conflate ∧
        (({ l with toSocket := rest } : SessionPipe F).putSocket x).outqueue = l.outqueue ∧
        ((({ l with toSocket := rest } : SessionPipe F).putSocket x).dropped = l.dropped) ∧
        (({ l with toSocket := rest } : SessionPipe F).putSocket x).socket = some x.self := by
    intro x hx hsame hopen
    obtain ⟨horderly, hunread⟩ := hrest.fills hp hx (fun hcar => hsame.symm ▸ hcar) hopen
    have hout := SessionPipe.putSocket_outqueue { l with toSocket := rest } x
    obtain ⟨inpipe, dropped, hput, hcases⟩ := SessionPipe.putSocket_eq { l with toSocket := rest } x
    refine ⟨horderly, ?_, by rw [hput], ?_, by rw [hput], hout.trans hsame, ?_, by rw [hput]⟩
    · rw [hunread]
      split_ifs with hd
      · rw [hsame]
        unfold outqueue
        rw [show l.dropped = [] from hd]
        rfl
      · rfl
    · rw [hput]
      exact prefix_append _ _
    · rw [hput]
      rcases hcases with ⟨hd, hd', -⟩ | ⟨old, tail, hd, hd', -⟩
      · exact hd'.trans (show l.dropped = [] from hd).symm
      · refine hd'.trans ?_
        rw [hsame]
        unfold outqueue
        rw [show l.dropped = old :: tail from hd]
        rfl
  cases c with
  | activateRead =>
    cases hx
    obtain ⟨hfills, hstate⟩ := fills_processActivateRead (l.socketView p)
    have hsame : (l.socketView p).processActivateRead.2.outpipe = l.outqueue := by
      unfold processActivateRead
      split_ifs <;> rfl
    obtain ⟨horderly, hunread, hs, ht, hconf, hout, hd, hself⟩ := hmethod _ hfills hsame fun _ ho => by
      rw [hstate]
      exact .inl ho
    refine ⟨horderly, hunread, hs, ht, hconf, .inl ⟨hd, fun _ _ _ => congrArg Staged.unfinished hout⟩, fun p' hp' => ?_⟩
    cases hself.symm.trans hp'
    exact ⟨p, hp, fun ha => hstate.symm.trans ha, hfills.opens⟩
  | hiccup =>
    unfold SessionPipe.processHiccup at hx
    split_ifs at hx
    cases hd : l.dropped with
    | nil =>
      rw [hd] at hx
      cases hx
    | cons old tail =>
      rw [hd] at hx
      cases hx
      obtain ⟨htail, hblank⟩ := h.blank old tail hd
      have hnext : (tail.headD l.inpipe).items = [] := by
        cases tail with
        | nil => exact hblank
        | cons q tail => exact htail q mem_cons_self
      have hnone := append_eq_nil_iff.mp hnext
      refine ⟨⟨h.carried, h.delay, fun p hp ha => ?_, ?_, fun _ => ?_, fun old' rest' hd' => ?_, hrest.quiet, h.told⟩, rfl, rfl,
        prefix_rfl, rfl, .inr ⟨old, rfl, hnone.2⟩, fun p' hp' => ⟨p', hp', id, id⟩⟩
      · obtain ⟨ho, -, hpast⟩ := h.writer p hp ha
        refine ⟨ho, ?_, hpast⟩
        rw [show ({ l with toSocket := rest, dropped := tail } : SessionPipe F).outqueue.whole = [] from hnone.1]
        exact not_mem_nil
      · rw [show ({ l with toSocket := rest, dropped := tail } : SessionPipe F).outqueue.unfinished = [] from hnone.2]
        exact not_mem_nil
      · exact ⟨(append_eq_nil_iff.mp hnone.1).2, hnone.2⟩
      · refine ⟨fun q hq => htail q ?_, hblank⟩
        rw [show tail = old' :: rest' from hd']
        exact mem_cons_of_mem _ hq
  | pipeTerm =>
    obtain ⟨x, h1, h2⟩ := bind_ok hx
    cases h2
    have hfills := fills_processPipeTerm h1
    have hsame : x.outpipe = l.outqueue := by
      unfold processPipeTerm at h1
      split at h1
      · split_ifs at h1 <;> exact ok.inj h1 ▸ rfl
      · exact ok.inj h1 ▸ rfl
      · exact ok.inj h1 ▸ rfl
      · cases h1
    -- a session that has asked for the end is not active
    obtain ⟨horderly, hunread, hs, ht, hconf, hout, hd, hself⟩ := hmethod _ hfills hsame fun ha _ => by
      have hq := h.quiet ha .pipeTerm (hc ▸ mem_cons_self)
      rcases hq with hq | hq <;> cases hq
    refine ⟨horderly, hunread, hs, ht, hconf, .inl ⟨hd, fun _ _ _ => congrArg Staged.unfinished hout⟩, fun p' hp' => ?_⟩
    cases hself.symm.trans hp'
    exact ⟨p, hp, fun ha => (hfills.active ha).1, hfills.opens⟩
  | pipeTermAck =>
    obtain ⟨x, h1, h2⟩ := bind_ok hx
    cases h2
    have hfills := fills_processPipeTermAck h1
    have hsame : x.outpipe = l.outqueue := by
      unfold processPipeTermAck at h1
      split at h1
      · exact ok.inj h1 ▸ rfl
      · exact ok.inj h1 ▸ rfl
      · exact ok.inj h1 ▸ rfl
      · cases h1
    have hnot : l.session.state ≠ .active := fun ha => by
      have hq := h.quiet ha .pipeTermAck (hc ▸ mem_cons_self)
      rcases hq with hq | hq <;> cases hq
    obtain ⟨horderly, hunread, hs, ht, hconf, hout, hd, -⟩ := hmethod _ hfills hsame fun ha _ => absurd ha hnot
    refine ⟨⟨horderly.carried, horderly.delay, fun p hp => (by cases hp), horderly.unfinished, horderly.single, horderly.blank,
      horderly.quiet, fun ha => ?_⟩, hunread, hs, ht, hconf, .inl ⟨hd, fun _ _ _ => congrArg Staged.unfinished hout⟩,
      fun p' hp' => by cases hp'⟩
    exact absurd ((congrArg EndT.state hs).symm.trans ha) hnot

end SessionPipe

end Zmq
