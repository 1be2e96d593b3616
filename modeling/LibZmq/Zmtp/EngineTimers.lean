import LibZmq.Zmtp.EngineRules

/-! The timers of an engine and its four flags. -/

namespace Zmq

open Function (update update_eq_self_iff update_of_ne update_self)

namespace Engine

variable {σ μ : Type} {M : EngineMechanism μ} {S : EngineSession σ} {e e' : Engine σ μ} {w : Write}

/-- The timers that the flags say are registered, once each, and one that is being executed. -/
def Armed (executed : Option TimerId) (e : Engine σ μ) : Prop :=
  ∀ t, e.timers.count t = (e.has t).toNat + if executed = some t then 1 else 0

variable {x : Option TimerId} {t : TimerId}

theorem Armed.arm (h : Armed x e) (ht : e.has t = false) : Armed x (e.arm t) := by
  intro t'
  have hcount := h t'
  unfold Engine.arm addTimer
  dsimp only
  by_cases heq : t' = t
  · subst heq
    rw [ht] at hcount
    rw [update_self, List.count_cons_self, hcount]
    exact Nat.add_right_comm 0 _ 1
  · rw [update_of_ne heq, List.count_cons_of_ne (Ne.symm heq), hcount]

theorem Armed.mem (h : Armed x e) (ht : e.has t = true) : t ∈ e.timers := by
  refine List.count_pos_iff.mp ?_
  rw [h t, ht]
  exact Nat.lt_of_lt_of_le Nat.zero_lt_one (Nat.le_add_right _ _)

theorem Armed.disarm (h : Armed x e) (t : TimerId) : ∃ e', e.disarm t = .ok e' ∧ Armed x e' ∧ e'.has = update e.has t false := by
  unfold Engine.disarm
  split_ifs with ht
  · have hmem := h.mem ht
    refine ⟨_, if_pos hmem, fun t' => ?_, rfl⟩
    have hcount := h t'
    dsimp only
    by_cases heq : t' = t
    · subst heq
      rw [ht] at hcount
      rw [List.count_erase_self, hcount]
      exact Nat.add_sub_assoc (Nat.le_refl 1) _ ▸ (by simp)
    · rw [update_of_ne heq, List.count_erase_of_ne heq, hcount]
  · refine ⟨e, rfl, h, ?_⟩
    exact (update_eq_self_iff.mpr (eq_false_of_ne_true ht).symm).symm

theorem Armed.unplug (h : Armed x e) : ∃ e', e.unplug = .ok e' ∧ Armed x e' ∧ ∀ t, e'.has t = false := by
  obtain ⟨e1, h1, ha1, hh1⟩ := h.disarm .handshake
  obtain ⟨e2, h2, ha2, hh2⟩ := ha1.disarm .heartbeatTtl
  obtain ⟨e3, h3, ha3, hh3⟩ := ha2.disarm .heartbeatTimeout
  obtain ⟨e4, h4, ha4, hh4⟩ := ha3.disarm .heartbeatIvl
  refine ⟨e4, ?_, ha4, fun t => ?_⟩
  · unfold Engine.unplug
    rw [h1]
    change e1.disarm _ >>= _ = _
    rw [h2]
    change e2.disarm _ >>= _ = _
    rw [h3]
    exact h4
  · rw [hh4, hh3, hh2, hh1]
    cases t <;> rfl

/-! Nothing but the cancelling of a timer looks for one. -/

def Finds {α : Type} (x : Except EngineFault α) : Prop := x ≠ .error .timerNotFound

section Finds

variable {α β : Type} {y : Except EngineFault α} {f : α → Except EngineFault β}

theorem finds_ok (a : α) : Finds (.ok a : Except EngineFault α) := nofun

theorem Finds.bind (hy : Finds y) (hf : ∀ a, y = .ok a → Finds (f a)) : Finds (y >>= f) := by
  cases y with
  | error fault => exact fun h => hy (congrArg _ (Except.error.inj h))
  | ok a => exact hf a rfl

theorem finds_liftCrash (y : Except Crash α) : Finds (liftCrash y) := by
  cases y <;> nofun

theorem finds_liftCodec (y : Except CodecFault α) : Finds (liftCodec y) := by
  cases y <;> nofun

theorem finds_assert (p : Prop) [Decidable p] : Finds (assert p) := finds_liftCrash _

theorem finds_assertNoIoError (e : Engine σ μ) : Finds e.assertNoIoError := by
  unfold assertNoIoError
  split_ifs <;> nofun

end Finds

theorem theMechanism_finds (e : Engine σ μ) : Finds e.theMechanism := by
  unfold theMechanism
  split <;> rintro ⟨⟩

theorem push_finds (e : Engine σ μ) (m : Msg) : Finds (e.push S m) := (finds_liftCrash _).bind fun _ _ => finds_ok _

theorem encode_finds (e : Engine σ μ) (m : Msg) : Finds (e.encode M m) :=
  (theMechanism_finds e).bind fun _ _ => (finds_liftCrash _).bind fun _ _ => finds_ok _

theorem pullAndEncode_finds (e : Engine σ μ) : Finds (e.pullAndEncode M S) := by
  unfold pullAndEncode
  split
  split
  · exact finds_ok _
  · exact (encode_finds _ _).bind fun _ _ => finds_ok _

theorem pushIdentity_finds (e : Engine σ μ) (k : μ) : Finds (e.pushIdentity M S k) := by
  unfold pushIdentity
  split_ifs
  · refine (push_finds _ _).bind fun _ _ => ?_
    dsimp only
    split_ifs
    · exact finds_ok _
    · exact (finds_assert _).bind fun _ _ => finds_ok _
  · exact finds_ok _

theorem mechanismReady_finds (e : Engine σ μ) : Finds (e.mechanismReady M S) := by
  refine (theMechanism_finds _).bind fun k _ => (pushIdentity_finds _ _).bind fun _ _ => ?_
  dsimp only
  split
  · exact finds_ok _
  · exact (finds_assert _).bind fun _ _ => finds_ok _

theorem next_finds (e : Engine σ μ) : Finds (e.next M S) := by
  unfold next
  split
  · exact finds_ok _
  · exact finds_ok _
  · refine (theMechanism_finds e).bind fun k _ => ?_
    split
    · exact (mechanismReady_finds e).bind fun _ _ => pullAndEncode_finds _
    · exact finds_ok _
    · exact (finds_liftCrash _).bind fun _ _ => finds_ok _
  · exact pullAndEncode_finds e
  · exact (encode_finds e _).bind fun _ _ => finds_ok _
  · exact (encode_finds e _).bind fun _ _ => finds_ok _

theorem load_finds (e : Engine σ μ) (null : Bool) (m : Msg) : Finds (e.load null m) := by
  unfold load
  split
  · nofun
  · exact (finds_liftCodec _).bind fun _ _ => (finds_liftCodec _).bind fun _ _ => (finds_assert _).bind fun _ _ => finds_ok _

theorem fill_finds (fuel : ℕ) (null : Bool) (e : Engine σ μ) : Finds (fill M S fuel null e) := by
  induction fuel generalizing null e with
  | zero => exact finds_ok _
  | succ fuel ih =>
    unfold fill
    split_ifs
    · refine (next_finds e).bind fun r _ => ?_
      dsimp only
      split
      · exact finds_ok _
      · exact (load_finds _ _ _).bind fun _ _ => ih _ _
    · exact finds_ok _

theorem outEvent_finds (e : Engine σ μ) (w : Write) : Finds (e.outEvent M S w) := by
  refine (finds_assertNoIoError _).bind fun _ _ => ?_
  split_ifs
  · split
    · exact (finds_assert _).bind fun _ _ => finds_ok _
    · refine (finds_liftCodec _).bind fun _ _ => (fill_finds _ _ _).bind fun _ _ => ?_
      split_ifs <;> exact finds_ok _
  · exact finds_ok _

theorem restartOutput_finds (e : Engine σ μ) (w : Write) : Finds (e.restartOutput M S w) := by
  unfold restartOutput
  split_ifs
  · exact finds_ok _
  · exact outEvent_finds _ _
  · exact outEvent_finds _ _

theorem restartIfStopped_finds (e : Engine σ μ) (w : Write) : Finds (e.restartIfStopped M S w) := by
  unfold restartIfStopped
  split_ifs
  · exact restartOutput_finds e w
  · exact finds_ok _

theorem heartbeat_finds (e : Engine σ μ) (interval : Option UInt16) (w : Write) : Finds (e.heartbeat M S interval w) := by
  cases interval with
  | none => exact finds_ok _
  | some ttl => exact outEvent_finds _ _

theorem disarm_finds (h : Armed x e) (t : TimerId) : Finds (e.disarm t) := by
  obtain ⟨e', h', -⟩ := h.disarm t
  rw [h']
  exact finds_ok _

theorem terminate_finds (h : Armed x e) : Finds e.terminate := by
  obtain ⟨e', h', -⟩ := h.unplug
  refine Finds.bind ?_ fun _ _ => finds_ok _
  rw [h']
  exact finds_ok _

theorem decodeAndPush_finds (h : Armed x e) (m : Msg) : Finds (e.decodeAndPush M S m w) := by
  refine (theMechanism_finds e).bind fun k _ => (finds_liftCrash _).bind fun r _ => ?_
  obtain ⟨r, k'⟩ := r
  cases r with
  | error errno => exact finds_ok _
  | ok plain =>
    have h0 : Armed x { e with mechanism := some k' } := h
    refine (disarm_finds h0 _).bind fun e1 h1 => ?_
    have ha1 : Armed x e1 := by
      obtain ⟨e1', h1', ha, -⟩ := h0.disarm .heartbeatTimeout
      cases h1.symm.trans h1'
      exact ha
    refine (disarm_finds ha1 _).bind fun e2 _ => Finds.bind ?_ fun _ _ => (heartbeat_finds _ _ _).bind fun _ _ =>
      (push_finds _ _).bind fun _ _ => finds_ok _
    unfold commandInterval
    split_ifs
    · exact finds_liftCrash _
    · exact finds_ok _

theorem commandTaken_finds (e : Engine σ μ) (k : μ) : Finds (e.commandTaken M S k w) := by
  unfold commandTaken
  split
  · exact (mechanismReady_finds e).bind fun _ _ => (restartIfStopped_finds _ _).bind fun _ _ => finds_ok _
  · exact finds_ok _
  · exact (restartIfStopped_finds _ _).bind fun _ _ => finds_ok _

theorem handler_finds (h : Armed x e) (m : Msg) : Finds (e.handler M S m w) := by
  unfold handler
  split
  · refine Finds.bind ?_ fun _ _ => finds_ok _
    unfold takeIdentity
    split_ifs
    · exact (push_finds _ _).bind fun _ _ => (finds_assert _).bind fun _ _ => finds_ok _
    · exact finds_ok _
  · refine (push_finds _ _).bind fun _ _ => ?_
    dsimp only
    split_ifs
    · exact (push_finds _ _).bind fun _ _ => finds_ok _
    · exact finds_ok _
  · exact (push_finds _ _).bind fun _ _ => finds_ok _
  · refine (theMechanism_finds e).bind fun _ _ => (finds_liftCrash _).bind fun r _ => ?_
    obtain ⟨rc, k'⟩ := r
    cases rc with
    | error errno => exact finds_ok _
    | ok => exact (commandTaken_finds _ _).bind fun _ _ => finds_ok _
  · refine (theMechanism_finds e).bind fun k _ => Finds.bind ?_ fun r hr => ?_
    · unfold pushCredential
      split_ifs
      · exact finds_ok _
      · exact (push_finds _ _).bind fun _ _ => finds_ok _
    · have ha : Armed x r.2 := by
        unfold pushCredential at hr
        split_ifs at hr
        · cases hr
          exact h
        · obtain ⟨⟨rc, m', e1⟩, h1, hr⟩ := bind_ok hr
          cases hr
          obtain ⟨s, -, rfl⟩ := push_cases h1
          exact h
      dsimp only
      split_ifs
      · exact decodeAndPush_finds (e := { r.2 with processMsg := .decodeAndPush }) ha m
      · exact finds_ok _
  · exact decodeAndPush_finds h m
  · exact (push_finds _ _).bind fun _ _ => finds_ok _

theorem process_finds (h : Armed x e) (m : Msg) : Finds (e.process M S m w) :=
  (handler_finds h m).bind fun _ _ => finds_ok _

section Runs

variable {G : Allowance σ μ} {J W : Engine σ μ → Prop} {r : Reading} {left : Input}

theorem processAll_finds (K : Invariant M S G J W) (hW : ∀ {e}, W e → Armed none e) {frames : List Frame} {malformed : Bool}
    (hp : e.phase = .connected) (hJ : J e) (hG : FramesAllowed M S G e frames) : Finds (e.processAll M S frames malformed) := by
  induction frames generalizing e with
  | nil => exact finds_ok _
  | cons f frames ih =>
    refine (process_finds (hW (K.weak hJ)) f.msg).bind fun r h1 => ?_
    obtain ⟨rc, e1⟩ := r
    cases rc with
    | ok =>
      obtain ⟨-, hp1, hJ1⟩ := K.process hp hJ hG.1 h1
      exact ih hp1 (hJ1 (.inl rfl)) (hG.2 e1 h1)
    | error errno => cases errno <;> exact finds_ok _

theorem inEvent_finds (K : Invariant M S G J W) (hW : ∀ {e}, W e → Armed none e) (hp : e.phase = .connected)
    (hJ : J e) (hG : InputAllowed M S G e r) : Finds (e.inEvent M S r) := by
  refine (finds_assertNoIoError _).bind fun _ _ => ?_
  split_ifs with hstopped
  · exact finds_ok _
  · have hG := hG.2 (eq_false_of_ne_true hstopped)
    cases r with
    | nothing => exact finds_ok _
    | closed => exact terminate_finds (hW (K.weak hJ))
    | bytes input =>
      refine (processAll_finds K hW hp hJ hG).bind fun r h1 => ?_
      obtain ⟨ending, e1⟩ := r
      obtain ⟨hW1, -⟩ := processAll_keeps K hp hJ hG h1
      cases ending with
      | protocolError => exact terminate_finds (hW hW1)
      | _ => exact finds_ok _

theorem restartInput_finds (K : Invariant M S G J W) (hW : ∀ {e}, W e → Armed none e)
    (hp : e.phase = .connected) (hJ : J e) (hG : RestartAllowed M S G e w left r) : Finds (e.restartInput M S w left r) := by
  refine (finds_assert _).bind fun _ _ => (process_finds (hW (K.weak hJ)) _).bind fun r1 h1 => ?_
  obtain ⟨rc, e1⟩ := r1
  obtain ⟨hW1, hp1, hJ1⟩ := K.process hp hJ hG.1 h1
  cases rc with
  | error errno =>
    cases errno with
    | eagain => exact finds_ok _
    | _ => exact terminate_finds (hW hW1)
  | ok =>
    obtain ⟨hframes, hrest⟩ := hG.2 e1 h1
    refine (processAll_finds K hW hp1 (hJ1 (.inl rfl)) hframes).bind fun r2 h2 => ?_
    obtain ⟨ending, e2⟩ := r2
    obtain ⟨hW2, hp2, hJ2⟩ := processAll_keeps K hp1 (hJ1 (.inl rfl)) hframes h2
    dsimp only
    split_ifs with heagain hio herror
    · exact finds_ok _
    · exact terminate_finds (hW hW2)
    · exact terminate_finds (hW hW2)
    · have hdrained : ending = .drained := by
        cases ending with
        | drained => rfl
        | eagain => exact absurd rfl heagain
        | protocolError => exact absurd rfl herror
      rw [hdrained] at h2
      exact inEvent_finds K hW (e := { e2 with inputStopped := false, pollin := true }) hp2 (K.input false true (hJ2 herror))
        (hrest e2 h2)

theorem zapMsgAvailable_finds (K : Invariant M S G J W) (hW : ∀ {e}, W e → Armed none e)
    {w' : Write} (hp : e.phase = .connected) (hJ : J e) (hG : e.Allowed M S G (.zapMsgAvailable w left r w')) :
    Finds (e.zapMsgAvailable M S w left r w') := by
  refine (theMechanism_finds e).bind fun k hk => (finds_liftCrash _).bind fun r1 hz => ?_
  obtain ⟨rc, k'⟩ := r1
  have hk := theMechanism_eq hk
  have hz := liftCrash_ok hz
  obtain ⟨hW1, hJ1⟩ := K.zap hJ hk hz
  cases rc with
  | error errno => exact terminate_finds (hW hW1)
  | ok =>
    obtain ⟨hrestart, -⟩ := hG k k' hk hz
    refine Finds.bind ?_ fun e1 _ => ?_
    · unfold restartInputIfStopped
      split_ifs with hstopped
      · exact restartInput_finds K hW (e := { e with mechanism := some k' }) hp (hJ1 rfl) (hrestart hstopped)
      · exact finds_ok _
    · split_ifs
      · nofun
      · exact restartIfStopped_finds e1 w'

theorem Armed.fired (h : Armed none e) (ht : t ∈ e.timers) :
    e.has t = true ∧ Armed (some t) { e with has := update e.has t false } := by
  have hhas : e.has t = true := by
    have hcount := h t
    have hpos := List.count_pos_iff.mpr ht
    cases hb : e.has t with
    | false =>
      rw [hb] at hcount
      exact absurd hcount (Nat.ne_of_gt hpos)
    | true => rfl
  refine ⟨hhas, fun t' => ?_⟩
  have hcount := h t'
  dsimp only
  by_cases heq : t' = t
  · subst heq
    rw [hhas] at hcount
    rw [hcount, update_self, if_pos rfl]
    rfl
  · rw [hcount, update_of_ne heq, if_neg fun hc => heq (Option.some.inj hc).symm]
    rfl

theorem executeTimer_finds (h : Armed none e) (ht : t ∈ e.timers) : Finds (e.executeTimer M S t w) := by
  unfold executeTimer
  split_ifs
  · nofun
  · refine Finds.bind ?_ fun _ _ => finds_ok _
    cases t with
    | heartbeatIvl => exact (outEvent_finds _ _).bind fun _ _ => finds_ok _
    | _ => exact terminate_finds (h.fired ht).2

theorem connect_finds (h : Armed none e) (p : Spoken μ) : Finds (e.connect p) := by
  have hany : ∀ e1 : Engine σ μ, e1.has = e.has → e1.timers = e.timers → Finds (e1.disarm .handshake) := by
    intro e1 hhas htimers
    have harmed : Armed none e1 := fun t => by
      rw [hhas, htimers]
      exact h t
    exact disarm_finds harmed .handshake
  cases p <;> exact hany _ rfl rfl

theorem run_finds (K : Invariant M S G J W) (hW : ∀ {e}, W e → Armed none e) {op : Op σ μ} (hJ : J e)
    (hready : e.Ready M S op) (hG : e.Allowed M S G op) : Finds (e.run M S op) := by
  cases op with
  | session s | deliver frames => exact finds_ok _
  | greeting queued g r =>
    obtain ⟨hready, hfresh⟩ := hready
    have hJ1 := K.queue queued hready hJ
    refine (finds_assertNoIoError _).bind fun _ _ => ?_
    cases g with
    | incomplete => exact finds_ok _
    | failed => exact terminate_finds (hW (K.weak hJ1))
    | complete p =>
      refine (connect_finds (hW (K.weak hJ1)) p).bind fun e1 h1 => ?_
      obtain ⟨hJ2, hp⟩ := K.connect (e := e.queue queued) hready hfresh hJ1 h1
      exact inEvent_finds K hW hp hJ2 (hG p rfl e1 h1)
  | input r => exact inEvent_finds K hW hready hJ hG
  | output w => exact outEvent_finds e w
  | restartOutput s w => exact restartOutput_finds _ w
  | restartInput w left r => exact restartInput_finds K hW hready hJ hG
  | zapMsgAvailable w left r w' => exact zapMsgAvailable_finds K hW hready hJ hG
  | timer t w => exact executeTimer_finds (hW (K.weak hJ)) hready
  | terminate => exact terminate_finds (hW (K.weak hJ))

end Runs

end Engine

end Zmq
