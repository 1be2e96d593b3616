import LibZmq.Pipe.Pair
import LibZmq.Sessions.Unread

/-! A pipe with both of its ends, either of which may have been deallocated: as long as neither end terminates, only messages
pass between them, and both ends stay. -/

namespace Zmq

open List Option Except

open Function (update update_of_ne update_self)

universe u

variable {F : Type u}

/-- The methods of an end that pass messages. -/
inductive EndCall (F : Type u) where
  | checkRead | read
  | write (f : F) (room : Bool)
  | rollback | flush

namespace EndView

def call (more : F → Bool) (x : EndView F) : EndCall F → Except Fault (EndView F)
  | .checkRead => x.checkRead
  | .read => do return (← x.read).2
  | .write f room => .ok (x.write more f room).2
  | .rollback => x.rollback more
  | .flush => .ok x.flush

end EndView

structure EndPair (F : Type u) where
  conflate : Bool
  ends : Side → Option EndT
  inpipe : Side → Staged (Option F)
  /-- that the end has dropped in a hiccup and its peer has not, oldest first; the peer writes to the oldest -/
  dropped : Side → List (Staged (Option F))
  inbox : Side → List EndCmd

namespace EndPair

def new (conflate : Bool) : EndPair F := ⟨conflate, fun _ => some .new, fun _ => .empty, fun _ => [], fun _ => []⟩

def view (d : EndPair F) (s : Side) (p : EndT) : EndView F :=
  ⟨d.conflate, p, d.inpipe s, (d.dropped s.peer).headD (d.inpipe s.peer), []⟩

def put (d : EndPair F) (s : Side) (x : EndView F) : EndPair F :=
  let d := { d with
    ends := update d.ends s (some x.self)
    inpipe := update d.inpipe s x.inpipe
    inbox := update d.inbox s.peer (d.inbox s.peer ++ x.sent) }
  match d.dropped s.peer with
  | [] => { d with inpipe := update d.inpipe s.peer x.outpipe }
  | _ :: rest => { d with dropped := update d.dropped s.peer (x.outpipe :: rest) }

def method (d : EndPair F) (s : Side) (f : EndView F → Except Fault (EndView F)) : Except Fault (EndPair F) :=
  match d.ends s with
  | none => .error .useAfterFree
  | some p => do return d.put s (← f (d.view s p))

def call (more : F → Bool) (d : EndPair F) (s : Side) (c : EndCall F) : Except Fault (EndPair F) := d.method s (·.call more c)

def terminate (more : F → Bool) (d : EndPair F) (s : Side) (delay : Bool) : Except Fault (EndPair F) :=
  d.method s (·.terminate more delay)

def hiccup (d : EndPair F) (s : Side) : Except Fault (EndPair F) :=
  match d.ends s with
  | none => .error .useAfterFree
  | some p =>
    if p.state ≠ .active then .ok d
    else .ok { d with
      ends := update d.ends s (some { p with inActive := true })
      inpipe := update d.inpipe s .empty
      dropped := update d.dropped s (d.dropped s ++ [d.inpipe s])
      inbox := update d.inbox s.peer (d.inbox s.peer ++ [.hiccup]) }

/-- What the end has not flushed is lost with the rest of the old queue. -/
def processHiccup (d : EndPair F) (s : Side) (p : EndT) : Except Fault (EndPair F) :=
  if !p.outpipe then .error .assertion
  else
    match d.dropped s.peer with
    | [] => .error .useAfterFree
    | _ :: rest => .ok { d with dropped := update d.dropped s.peer rest }

/-- The end handles the oldest command, apart from what its sink does. -/
def deliver (d : EndPair F) (s : Side) : Except Fault (EndPair F) :=
  match d.ends s, d.inbox s with
  | some p, c :: rest =>
    let d := { d with inbox := update d.inbox s rest }
    match c with
    | .activateRead => d.method s fun x => .ok x.processActivateRead.2
    | .hiccup => d.processHiccup s p
    | .pipeTerm => d.method s (·.processPipeTerm)
    | .pipeTermAck => do
      let d ← d.method s (·.processPipeTermAck)
      return { d with ends := update d.ends s none }
  | _, _ => .ok d

structure Quiet (d : EndPair F) : Prop where
  ends : ∀ s, ∃ p, d.ends s = some p ∧ p.state = .active
  inbox : ∀ s, ∀ c ∈ d.inbox s, c = .activateRead ∨ c = .hiccup
  inpipe : ∀ s, none ∉ (d.inpipe s).items
  dropped : ∀ s, ∀ q ∈ d.dropped s, none ∉ q.items

end EndPair

namespace EndView

variable {more : F → Bool} {x x' : EndView F}

structure Calm (x x' : EndView F) : Prop where
  state : x'.self.state = x.self.state
  sent : ∀ c ∈ x'.sent, c ∈ x.sent ∨ c = .activateRead
  inpipe : none ∈ x'.inpipe.items → none ∈ x.inpipe.items
  outpipe : none ∈ x'.outpipe.items → none ∈ x.outpipe.items

theorem Calm.refl (x : EndView F) : Calm x x := ⟨rfl, fun _ => .inl, id, id⟩

theorem mem_items {q : Staged (Option F)} : none ∈ q.items ↔ none ∈ q.whole ∨ none ∈ q.unfinished := mem_append

theorem calm_read {r : Option F} (hn : none ∉ x.inpipe.items) (hx : x.read = .ok (r, x')) : Calm x x' := by
  unfold EndView.read at hx
  split_ifs at hx
  · cases hx
    exact .refl x
  · cases hr : x.inpipe.ready with
    | nil =>
      rw [Staged.read_nil hr] at hx
      cases hx
      exact ⟨rfl, fun _ => .inl, id, id⟩
    | cons f rest =>
      have hmem : ∀ g ∈ f :: rest, g ∈ x.inpipe.items := by
        intro g hg
        rw [← hr] at hg
        exact mem_append_left _ (mem_append_left _ hg)
      rw [Staged.read_cons hr] at hx
      cases f with
      | none => exact absurd (hmem none mem_cons_self) hn
      | some f =>
        cases hx
        refine ⟨rfl, fun _ => .inl, fun h => ?_, id⟩
        unfold Staged.items at h ⊢
        rw [hr]
        exact mem_cons_of_mem _ h

theorem calm_checkRead (hn : none ∉ x.inpipe.items) (hx : x.checkRead = .ok x') : Calm x x' := by
  unfold EndView.checkRead at hx
  split_ifs at hx
  · exact ok.inj hx ▸ .refl x
  · split at hx
    · rename_i hr
      cases hx
      rw [Staged.checkRead_nil hr]
      exact ⟨rfl, fun _ => .inl, id, id⟩
    · rename_i rest hr
      refine absurd ?_ hn
      unfold Staged.items
      rw [hr]
      exact mem_cons_self
    · exact ok.inj hx ▸ .refl x

theorem calm_write (f : F) (room : Bool) : Calm x (x.write more f room).2 := by
  rcases write_cases more x f room with h | ⟨-, h⟩
  · rw [h]
    exact .refl x
  · rw [h]
    refine ⟨rfl, fun _ => .inl, id, fun hmem => ?_⟩
    unfold EndView.put Staged.write Staged.items at hmem
    unfold Staged.items
    split_ifs at hmem <;> simp at hmem ⊢ <;> tauto

theorem calm_rollback (hx : x.rollback more = .ok x') : Calm x x' := by
  rcases rollback_cases hx with rfl | rfl
  · exact .refl _
  · exact ⟨rfl, fun _ => .inl, id, fun h => mem_items.mpr ((mem_items.mp h).imp_right fun h => nomatch h)⟩

theorem calm_flush : Calm x x.flush := by
  obtain ⟨hself, hin, -⟩ := flush_self x
  obtain ⟨hwhole, hunf, -⟩ := flush_whole x
  refine ⟨by rw [hself], (flush_sent x).1, fun h => hin ▸ h, fun h => ?_⟩
  rw [mem_items, hwhole, hunf] at h
  exact mem_items.mpr h

theorem calm_call {c : EndCall F} (hn : none ∉ x.inpipe.items) (hx : x.call more c = .ok x') : Calm x x' := by
  cases c with
  | checkRead => exact calm_checkRead hn hx
  | read =>
    obtain ⟨⟨r, x1⟩, h1, h2⟩ := bind_ok hx
    exact ok.inj h2 ▸ calm_read hn h1
  | write f room => exact ok.inj hx ▸ calm_write f room
  | rollback => exact calm_rollback hx
  | flush => exact ok.inj hx ▸ calm_flush

theorem calm_processActivateRead : Calm x x.processActivateRead.2 := by
  unfold EndView.processActivateRead
  split_ifs
  · exact ⟨rfl, fun _ => .inl, id, id⟩
  · exact .refl x

theorem terminate_error {delay : Bool} {e : Fault} (hx : x.terminate more delay = .error e) : e = .assertion := by
  have hroll : ∀ {y : EndView F}, y.rollback more = .error e → e = .assertion := by
    intro y hy
    unfold EndView.rollback at hy
    split_ifs at hy
    exact (error.inj hy).symm
  have hstop : ∀ {y : EndView F}, y.stopOutbound more = .error e → e = .assertion := by
    intro y hy
    unfold EndView.stopOutbound at hy
    split_ifs at hy
    cases hr : y.rollback more with
    | error e' =>
      rw [hr] at hy
      exact hroll (hr.trans hy)
    | ok y' =>
      rw [hr] at hy
      cases hy
  unfold EndView.terminate at hx
  dsimp only at hx
  split at hx
  · cases hx
  · cases hx
  · cases hx
  · exact hstop hx
  · exact hstop hx
  · split_ifs at hx
    · exact hstop hx
    · exact hstop hx

end EndView

namespace EndPair

open EndView

variable {more : F → Bool} {d d' : EndPair F} {s : Side} {x : EndView F} {f : EndView F → Except Fault (EndView F)}

theorem method_ok (hx : d.method s f = .ok d') : ∃ p x, d.ends s = some p ∧ f (d.view s p) = .ok x ∧ d' = d.put s x := by
  unfold method at hx
  cases hp : d.ends s with
  | none =>
    rw [hp] at hx
    cases hx
  | some p =>
    rw [hp] at hx
    obtain ⟨x, h1, h2⟩ := bind_ok hx
    exact ⟨p, x, rfl, h1, (ok.inj h2).symm⟩

theorem put_ends (d : EndPair F) (s : Side) (x : EndView F) : (d.put s x).ends = update d.ends s (some x.self) := by
  unfold put
  dsimp only
  split <;> rfl

theorem put_inbox (d : EndPair F) (s : Side) (x : EndView F) :
    (d.put s x).inbox = update d.inbox s.peer (d.inbox s.peer ++ x.sent) := by
  unfold put
  dsimp only
  split <;> rfl

theorem method_ends (hx : d.method s f = .ok d') (t : Side) : (d'.ends t).isSome = (d.ends t).isSome := by
  obtain ⟨p, x, hp, -, rfl⟩ := method_ok hx
  rw [put_ends]
  rcases eq_or_ne t s with rfl | hne
  · rw [update_self, hp]
    rfl
  · rw [update_of_ne hne]

theorem hiccup_ends (hx : d.hiccup s = .ok d') (t : Side) : (d'.ends t).isSome = (d.ends t).isSome := by
  unfold hiccup at hx
  cases hp : d.ends s with
  | none =>
    rw [hp] at hx
    cases hx
  | some p =>
    simp only [hp] at hx
    split_ifs at hx
    · rw [ok.inj hx]
    · cases hx
      rcases eq_or_ne t s with rfl | hne
      · dsimp only
        rw [update_self, hp]
        rfl
      · dsimp only
        rw [update_of_ne hne]

theorem deliver_ends (hx : d.deliver s = .ok d') (t : Side) (ht : t = s → (d.inbox s).head? ≠ some .pipeTermAck) :
    (d'.ends t).isSome = (d.ends t).isSome := by
  unfold deliver at hx
  split at hx
  · rename_i p c rest hp hb
    dsimp only at hx
    split at hx
    · exact method_ends hx t
    · unfold processHiccup at hx
      split_ifs at hx
      split at hx
      · cases hx
      · exact ok.inj hx ▸ rfl
    · exact method_ends hx t
    · obtain ⟨d1, h1, h2⟩ := bind_ok hx
      cases h2
      have hne : t ≠ s := fun h => ht h (by rw [hb]; rfl)
      exact (congrArg isSome (update_of_ne hne _ _)).trans (method_ends h1 t)
  · exact ok.inj hx ▸ rfl

theorem quiet_new (conflate : Bool) : Quiet (new conflate : EndPair F) where
  ends _ := ⟨_, rfl, rfl⟩
  inbox _ _ hc := nomatch hc
  inpipe _ := not_mem_nil
  dropped _ _ hq := nomatch hq

theorem Quiet.view (h : Quiet d) (s : Side) (p : EndT) : none ∉ (d.view s p).outpipe.items := by
  unfold EndPair.view
  cases hd : d.dropped s.peer with
  | nil => exact h.inpipe s.peer
  | cons q rest => exact h.dropped s.peer q (by rw [hd]; exact mem_cons_self)

theorem Quiet.put {p : EndT} (h : Quiet d) (hp : d.ends s = some p) (hx : Calm (d.view s p) x) : Quiet (d.put s x) where
  ends t := by
    obtain ⟨q, hq, hs⟩ := h.ends t
    rw [put_ends]
    rcases eq_or_ne t s with rfl | hne
    · rw [update_self]
      exact ⟨x.self, rfl, hx.state.trans (some.inj (hp.symm.trans hq) ▸ hs)⟩
    · rw [update_of_ne hne]
      exact ⟨q, hq, hs⟩
  inbox t c hc := by
    rw [put_inbox] at hc
    rcases eq_or_ne t s.peer with rfl | hne
    · rw [update_self] at hc
      rcases mem_append.mp hc with hc | hc
      · exact h.inbox _ c hc
      · exact .inl ((hx.sent c hc).resolve_left not_mem_nil)
    · rw [update_of_ne hne] at hc
      exact h.inbox t c hc
  inpipe t := by
    have hin : none ∉ x.inpipe.items := fun hc => h.inpipe s (hx.inpipe hc)
    have hout : none ∉ x.outpipe.items := fun hc => h.view s p (hx.outpipe hc)
    have hold : none ∉ (update d.inpipe s x.inpipe t).items := by
      rcases eq_or_ne t s with rfl | hne
      · rwa [update_self]
      · rw [update_of_ne hne]
        exact h.inpipe t
    unfold EndPair.put
    dsimp only
    split
    · rcases eq_or_ne t s.peer with rfl | hne
      · dsimp only
        rwa [update_self]
      · dsimp only
        rwa [update_of_ne hne]
    · exact hold
  dropped t q hq := by
    have hout : none ∉ x.outpipe.items := fun hc => h.view s p (hx.outpipe hc)
    unfold EndPair.put at hq
    dsimp only at hq
    split at hq
    · exact h.dropped t q hq
    · rename_i q0 rest hd
      rcases eq_or_ne t s.peer with rfl | hne
      · dsimp only at hq
        rw [update_self] at hq
        rcases mem_cons.mp hq with rfl | hq
        · exact hout
        · exact h.dropped _ q (by rw [hd]; exact mem_cons_of_mem _ hq)
      · dsimp only at hq
        rw [update_of_ne hne] at hq
        exact h.dropped t q hq

theorem Quiet.method (h : Quiet d) (hf : ∀ p x, d.ends s = some p → f (d.view s p) = .ok x → Calm (d.view s p) x)
    (hx : d.method s f = .ok d') : Quiet d' := by
  obtain ⟨p, x, hp, hfx, rfl⟩ := method_ok hx
  exact h.put hp (hf p x hp hfx)

theorem Quiet.call {c : EndCall F} (h : Quiet d) (hx : d.call more s c = .ok d') : Quiet d' :=
  h.method (fun _ _ _ => calm_call (h.inpipe s)) hx

theorem Quiet.take {rest : List EndCmd} (h : Quiet d) (hr : ∀ c ∈ rest, c ∈ d.inbox s) :
    Quiet { d with inbox := update d.inbox s rest } where
  ends := h.ends
  inbox t c hc := by
    rcases eq_or_ne t s with rfl | hne
    · dsimp only at hc
      rw [update_self] at hc
      exact h.inbox _ c (hr c hc)
    · dsimp only at hc
      rw [update_of_ne hne] at hc
      exact h.inbox t c hc
  inpipe := h.inpipe
  dropped := h.dropped

theorem Quiet.hiccup (h : Quiet d) (hx : d.hiccup s = .ok d') : Quiet d' := by
  obtain ⟨p, hp, hs⟩ := h.ends s
  unfold EndPair.hiccup at hx
  simp only [hp] at hx
  rw [if_neg (not_not_intro hs)] at hx
  cases hx
  refine ⟨fun t => ?_, fun t c hc => ?_, fun t => ?_, fun t q hq => ?_⟩
  · rcases eq_or_ne t s with rfl | hne
    · dsimp only
      rw [update_self]
      exact ⟨_, rfl, hs⟩
    · dsimp only
      rw [update_of_ne hne]
      exact h.ends t
  · rcases eq_or_ne t s.peer with rfl | hne
    · dsimp only at hc
      rw [update_self] at hc
      rcases mem_append.mp hc with hc | hc
      · exact h.inbox _ c hc
      · exact .inr (mem_singleton.mp hc)
    · dsimp only at hc
      rw [update_of_ne hne] at hc
      exact h.inbox t c hc
  · rcases eq_or_ne t s with rfl | hne
    · dsimp only
      rw [update_self]
      exact not_mem_nil
    · dsimp only
      rw [update_of_ne hne]
      exact h.inpipe t
  · rcases eq_or_ne t s with rfl | hne
    · dsimp only at hq
      rw [update_self] at hq
      rcases mem_append.mp hq with hq | hq
      · exact h.dropped _ q hq
      · rw [mem_singleton.mp hq]
        exact h.inpipe _
    · dsimp only at hq
      rw [update_of_ne hne] at hq
      exact h.dropped t q hq

theorem Quiet.deliver (h : Quiet d) (hx : d.deliver s = .ok d') : Quiet d' := by
  unfold EndPair.deliver at hx
  split at hx
  · rename_i p c rest hp hb
    have htake : Quiet { d with inbox := update d.inbox s rest } :=
      h.take fun c hc => by rw [hb]; exact mem_cons_of_mem _ hc
    rcases h.inbox s c (by rw [hb]; exact mem_cons_self) with rfl | rfl
    · exact htake.method (fun p x _ hfx => ok.inj hfx ▸ calm_processActivateRead) hx
    · unfold processHiccup at hx
      dsimp only at hx
      split_ifs at hx
      split at hx
      · cases hx
      · rename_i q more hd
        cases hx
        refine ⟨htake.ends, htake.inbox, htake.inpipe, fun t r hr => ?_⟩
        rcases eq_or_ne t s.peer with rfl | hne
        · dsimp only at hr
          rw [update_self] at hr
          exact h.dropped _ r (by rw [hd]; exact mem_cons_of_mem _ hr)
        · dsimp only at hr
          rw [update_of_ne hne] at hr
          exact h.dropped t r hr
  · exact ok.inj hx ▸ h

theorem terminate_error {delay : Bool} {e : Fault} (hs : (d.ends s).isSome = true) (hx : d.terminate more s delay = .error e) :
    e = .assertion := by
  obtain ⟨p, hp⟩ := isSome_iff_exists.mp hs
  unfold terminate method at hx
  rw [hp] at hx
  cases ht : (d.view s p).terminate more delay with
  | error e' =>
    simp only [ht] at hx
    exact EndView.terminate_error (ht.trans (congrArg error (error.inj hx)))
  | ok x =>
    simp only [ht] at hx
    cases hx

end EndPair

end Zmq
