import LibZmq.Objects.OwnMoves

/-! Runs of trees of objects. As long as the counters of an object do not overflow, every object terminates exactly
once, after its children, and no command reaches an object that is gone. -/

namespace Zmq

open OwnPhase

open Function (update update_comm update_idem update_of_ne update_self)

universe u

namespace Tree

variable {O : Type u} [DecidableEq O] {s s' : Tree O} {x y p c : O} {m : Packet O (OwnCmd O)} {cmd : OwnCmd O} {src dst : O}
  {older newer : List (Packet O (OwnCmd O))}

omit [DecidableEq O] in
theorem Settled.same (h : s.Settled x) (hp : (s'.phase x).live = (s.phase x).live) (ho : s'.objs x = s.objs x) :
    s'.Settled x := by
  unfold Settled Idle at h ⊢
  rw [hp, ho]
  exact h

theorem Core.busy (h : s.Core) (hm : m ∈ s.flight) (hseq : m.cmd.isSeq = true) : ¬ s.Idle m.dst := by
  rintro ⟨hidle, -⟩
  have hs := h.seq m.dst
  have hdue : 0 < due s.flight m.dst := List.countP_pos_iff.mpr ⟨m, hm, by simp [hseq]⟩
  rw [hidle, UInt32.toNat_toUInt64] at hs
  omega

omit [DecidableEq O] in
theorem send_ok (h : s.Alive dst) : s.send src dst cmd = .ok { s with flight := s.flight ++ [⟨src, dst, cmd⟩] } := if_pos h

theorem destroy_ok (h : s.Alive x) : s.destroy x = .ok { s with
    deletions := update s.deletions x (s.deletions x + 1)
    phase := update s.phase x (if (s.objs x).owner = none then .done else .acked) } := if_pos h

theorem Core.checks (h : s.Core) (hx : (s.phase x).live = true) (howned : (s.objs x).terminating = true → (s.objs x).owned = []) :
    ∃ s', s.checkTermAcks x = .ok s' ∧ s'.Core ∧ s'.Settled x ∧ s'.objs = s.objs ∧ ∀ y ≠ x, s'.phase y = s.phase y := by
  by_cases hc : (s.objs x).terminating = true ∧ s.Idle x
  · obtain ⟨hterm, hidle⟩ := hc
    have hph : s.phase x = .terminating := phase_terminating hx (by rw [← h.terminating]; exact hterm)
    have halive : s.Alive x := h.alive_iff.mpr hx
    have hcheck : s.checkTermAcks x = s.confirm x >>= fun s => s.destroy x := by
      unfold checkTermAcks
      rw [if_pos ⟨hterm, hidle⟩, if_neg (by simp [howned hterm])]
    cases hown : (s.objs x).owner with
    | none =>
      have hconfirm : s.confirm x = .ok s := by
        unfold confirm
        rw [hown]
      refine ⟨_, ?_, h.destroyed_root hown hph hidle (howned hterm), ?_, rfl, fun y hy => update_of_ne hy _ _⟩
      · rw [hcheck, hconfirm]
        exact (destroy_ok halive).trans (by rw [if_pos hown])
      · intro hl
        simp [live, gone] at hl
    | some p =>
      have hp : s.Alive p := h.alive_iff.mpr (h.parent x p hown (by rw [hph]; simp))
      have hconfirm : s.confirm x = .ok { s with flight := s.flight ++ [⟨x, p, .termAck⟩] } := by
        unfold confirm
        rw [hown]
        exact send_ok hp
      refine ⟨_, ?_, h.destroyed hown hph hidle (howned hterm), ?_, rfl, fun y hy => update_of_ne hy _ _⟩
      · rw [hcheck, hconfirm]
        exact (destroy_ok (s := { s with flight := s.flight ++ [⟨x, p, .termAck⟩] }) halive).trans
          (by rw [if_neg (by rw [hown]; simp)])
      · intro hl
        simp [live, gone] at hl
  · have hcheck : s.checkTermAcks x = .ok s := if_neg hc
    exact ⟨s, hcheck, h, fun _ hterm => ⟨howned hterm, fun hidle => hc ⟨hterm, hidle⟩⟩, rfl, fun _ _ => rfl⟩

theorem Core.checked (h : s.Core) (hx : (s.phase x).live = true)
    (howned : (s.objs x).terminating = true → (s.objs x).owned = []) (hothers : ∀ y ≠ x, s.Settled y) :
    ∃ s', s.checkTermAcks x = .ok s' ∧ s'.Sound := by
  obtain ⟨s', hs, hcore, hset, hobjs, hphase⟩ := h.checks hx howned
  refine ⟨s', hs, hcore, fun y => ?_⟩
  rcases eq_or_ne y x with rfl | hne
  · exact hset
  · exact (hothers y hne).same (by rw [hphase y hne]) (by rw [hobjs])

/-! `term` is sent to several children. -/

def asked (s : Tree O) (p : O) (l : List O) : Tree O :=
  { s with
    flight := s.flight ++ l.map fun c => ⟨p, c, .term⟩
    terms := fun c => s.terms c + l.count c
    phase := fun c => if c ∈ l then .termed else s.phase c
    awaited := update s.awaited p (s.awaited p ∪ l.toFinset) }

theorem sendTerm_ok (hc : s.Alive c) : s.sendTerm p c = .ok (s.asked p [c]) := by
  unfold sendTerm
  rw [send_ok hc]
  have hterms : update s.terms c (s.terms c + 1) = fun d => s.terms d + [c].count d := by
    funext d
    rcases eq_or_ne d c with rfl | hne
    · simp
    · simp [hne, hne.symm]
  have hphase : update s.phase c .termed = fun d => if d ∈ [c] then .termed else s.phase d := by
    funext d
    rcases eq_or_ne d c with rfl | hne <;> simp [*]
  have hawaited : insert c (s.awaited p) = s.awaited p ∪ [c].toFinset := by
    ext d
    simp
  unfold asked
  rw [← hterms, ← hphase, ← hawaited]
  rfl

theorem asked_asked (l : List O) : (s.asked p [c]).asked p l = s.asked p (c :: l) := by
  unfold asked
  congr 1
  · simp
  · funext d
    simp only [List.count_cons, List.count_nil]
    omega
  · funext d
    by_cases hd : d ∈ l <;> simp [hd]
  · simp

theorem sendTerms_ok {l : List O} (hl : ∀ c ∈ l, s.Alive c) : sendTerms p l s = .ok (s.asked p l) := by
  induction l generalizing s with
  | nil =>
    unfold sendTerms asked
    simp
  | cons c l ih =>
    unfold sendTerms
    rw [sendTerm_ok (hl c List.mem_cons_self)]
    have hrest := ih (s := s.asked p [c]) fun d hd => hl d (List.mem_cons_of_mem _ hd)
    exact hrest.trans (by rw [asked_asked])

theorem ask_eq (l : List O) : s.ask p l = (s.asked p l).setObj p { s.objs p with
    owned := (s.objs p).owned.filter fun c => c ∉ l, termAcks := (s.objs p).termAcks + l.length } := rfl

theorem register_ok {n : ℕ} (h : (s.objs x).termAcks + n < 2 ^ 31) :
    s.registerTermAcks x n = .ok (s.setObj x { s.objs x with termAcks := (s.objs x).termAcks + n }) := if_pos h

theorem setObj_setObj (o o' : OwnT O) : (s.setObj x o).setObj x o' = s.setObj x o' := by
  unfold setObj
  rw [update_idem]

theorem setObj_objs (o : OwnT O) : (s.setObj x o).objs x = o := update_self _ _ _

theorem alive_setObj {o : OwnT O} : (s.setObj x o).Alive y ↔ s.Alive y := Iff.rfl

theorem Core.asks_one (h : s.Core) (hx : (s.phase x).live = true) (hin : c ∈ (s.objs x).owned)
    (hlt : (s.objs x).termAcks + 1 < 2 ^ 31) :
    ((s.setObj x { s.objs x with owned := (s.objs x).owned.erase c }).registerTermAcks x 1 >>=
      fun s => s.sendTerm x c) = .ok (s.ask x [c]) ∧ (s.ask x [c]).Core := by
  have hc := (h.owned x c).mp hin
  have halive : s.Alive c := h.alive_iff.mpr (by rw [hc.2]; rfl)
  refine ⟨?_, h.ask hx (List.nodup_singleton c) fun d hd => by rwa [List.mem_singleton.mp hd]⟩
  have herase : (s.objs x).owned.erase c = (s.objs x).owned.filter fun d => d ∉ [c] := by
    rw [(h.nodup x).erase_eq_filter]
    congr 1
    funext d
    simp [bne, beq_eq_decide]
  rw [register_ok (by rw [setObj_objs]; exact hlt), setObj_setObj, setObj_objs, herase]
  change sendTerm (s.setObj x _) x c = _
  rw [sendTerm_ok (alive_setObj.mpr halive)]
  rfl

theorem Sound.term_req (h : s.Sound) (hx : (s.phase x).live = true)
    (hlt : (s.objs x).terminating = false → (s.objs x).termAcks + 1 < 2 ^ 31) :
    ∃ s', s.processTermReq x c = .ok s' ∧ s'.Sound := by
  unfold processTermReq
  by_cases hterm : (s.objs x).terminating = true
  · rw [if_pos hterm]
    exact ⟨s, rfl, h⟩
  · rw [if_neg hterm]
    by_cases hin : c ∈ (s.objs x).owned
    · rw [if_neg (not_not.mpr hin)]
      obtain ⟨heq, hcore⟩ := h.toCore.asks_one hx hin (hlt (by simpa using hterm))
      refine ⟨_, heq, hcore, fun y => ?_⟩
      have hlive := ask_live (p := x) (l := [c]) (fun d hd => by
        rw [List.mem_singleton.mp hd]
        exact ((h.owned x c).mp hin).2) y
      rcases eq_or_ne y x with rfl | hne
      · intro _ hterm'
        rw [ask_eq, setObj_objs] at hterm'
        exact absurd hterm' hterm
      · exact (h.settled y).same hlive (update_of_ne hne _ _)
    · rw [if_pos hin]
      exact ⟨s, rfl, h⟩

def stopped (s : Tree O) (x : O) : Tree O :=
  { s with
    objs := update s.objs x { s.objs x with terminating := true }
    phase := update s.phase x .terminating }

theorem stopped_obj : (s.stopped x).objs x = { s.objs x with terminating := true } := update_self _ _ _

theorem stopped_phase : (s.stopped x).phase x = .terminating := update_self _ _ _

theorem processTerm_eq (hterm : (s.objs x).terminating = false) (hx : x ∉ (s.objs x).owned)
    (halive : ∀ c ∈ (s.objs x).owned, s.Alive c) (hlt : (s.objs x).termAcks + (s.objs x).owned.length < 2 ^ 31) :
    s.processTerm x = ((s.stopped x).ask x (s.objs x).owned).checkTermAcks x := by
  have hstate : ((s.asked x (s.objs x).owned).setObj x { s.objs x with
      terminating := true, owned := [], termAcks := (s.objs x).termAcks + (s.objs x).owned.length }).setPhase x
      .terminating = (s.stopped x).ask x (s.objs x).owned := by
    have hnil : ((s.objs x).owned.filter fun c => c ∉ (s.objs x).owned) = [] :=
      List.filter_eq_nil_iff.mpr fun d hd => by simpa using hd
    have hphase : update (fun c => if c ∈ (s.objs x).owned then termed else s.phase c) x .terminating =
        fun c => if c ∈ (s.objs x).owned then termed else update s.phase x .terminating c := by
      funext d
      rcases eq_or_ne d x with rfl | hne
      · rw [update_self, update_self, if_neg hx]
      · rw [update_of_ne hne, update_of_ne hne]
    rw [ask_eq, stopped_obj]
    unfold setPhase setObj asked stopped
    dsimp only
    rw [hphase, hnil, update_idem]
  rw [← hstate]
  unfold processTerm
  rw [if_neg (by simp [hterm]), sendTerms_ok halive]
  change (registerTermAcks (s.asked x (s.objs x).owned) x (s.objs x).owned.length >>= _) = _
  rw [register_ok (s := s.asked x (s.objs x).owned) hlt]
  change checkTermAcks (setPhase (setObj (setObj _ x _) x _) x .terminating) x = _
  rw [setObj_setObj, setObj_objs]
  rfl

theorem Core.term (hcore : (s.stopped x).Core) (hterm : (s.objs x).terminating = false)
    (hlt : (s.objs x).termAcks + (s.objs x).owned.length < 2 ^ 31) (hothers : ∀ y ≠ x, s.Settled y) :
    ∃ s', s.processTerm x = .ok s' ∧ s'.Sound := by
  have howned : ((s.stopped x).objs x).owned = (s.objs x).owned := by rw [stopped_obj]
  have hchild : ∀ d ∈ (s.objs x).owned, (s.stopped x).phase d = .owned ∧ d ≠ x := fun d hd => by
    have := (hcore.owned x d).mp (by rwa [howned])
    exact ⟨this.2, (hcore.child d x this.1).2.symm⟩
  have hasked := hcore.ask (p := x) (l := (s.objs x).owned) (by rw [stopped_phase]; rfl)
    (howned ▸ hcore.nodup x) fun d hd => by rwa [howned]
  have hlive := ask_live (p := x) fun d hd => (hchild d hd).1
  rw [processTerm_eq hterm (fun hin => (hchild x hin).2 rfl) (fun d hd => ?_) hlt]
  · refine hasked.checked (by rw [hlive, stopped_phase]; rfl) (fun _ => ?_) fun y hne => ?_
    · rw [ask_eq, setObj_objs]
      rw [howned]
      exact List.filter_eq_nil_iff.mpr fun d hd => by simpa using hd
    · refine (hothers y hne).same ?_ ((update_of_ne hne _ _).trans (update_of_ne hne _ _))
      rw [hlive]
      unfold stopped
      dsimp only
      rw [update_of_ne hne]
  · have hd' := hcore.alive_iff (x := d) |>.mpr (by rw [(hchild d hd).1]; rfl)
    exact hd'

def taken (s : Tree O) (p c : O) : Tree O :=
  { s with
    objs := update s.objs p { s.objs p with
      owned := (s.objs p).owned.insert c, processedSeqnum := (s.objs p).processedSeqnum + 1 }
    phase := update s.phase c .owned }

theorem taken_obj : (s.taken p c).objs p = { s.objs p with
    owned := (s.objs p).owned.insert c, processedSeqnum := (s.objs p).processedSeqnum + 1 } :=
  update_self _ _ _

theorem processOwn_terminating (hterm : (s.objs p).terminating = true) (howned : (s.objs p).owned = [])
    (hc : s.Alive c) (hlt : (s.objs p).termAcks + 1 < 2 ^ 31) :
    (s.processOwn p c >>= fun s => s.processSeqnum p) = ((s.taken p c).ask p [c]).checkTermAcks p := by
  have hstate : ((s.setObj p { s.objs p with termAcks := (s.objs p).termAcks + (1 : ℕ) }).asked p [c]).setObj p
      { s.objs p with
        termAcks := (s.objs p).termAcks + (1 : ℕ), processedSeqnum := (s.objs p).processedSeqnum + 1 } =
      (s.taken p c).ask p [c] := by
    have hphase : (fun d => if d ∈ [c] then termed else s.phase d) =
        fun d => if d ∈ [c] then termed else update s.phase c .owned d := by
      funext d
      by_cases hd : d ∈ [c]
      · rw [if_pos hd, if_pos hd]
      · rw [if_neg hd, if_neg hd, update_of_ne (by simpa using hd)]
    rw [ask_eq]
    unfold setObj asked taken
    dsimp only
    rw [hphase, howned]
    simp
  rw [← hstate]
  unfold processOwn
  rw [if_pos hterm]
  rw [register_ok hlt]
  change (sendTerm (s.setObj p _) p c >>= _) = _
  rw [sendTerm_ok (alive_setObj.mpr hc)]
  change processSeqnum (asked (s.setObj p _) p [c]) p = _
  unfold processSeqnum
  have hobj : ((s.setObj p { s.objs p with termAcks := (s.objs p).termAcks + (1 : ℕ) }).asked p [c]).objs p =
      { s.objs p with termAcks := (s.objs p).termAcks + (1 : ℕ) } := setObj_objs _
  rw [hobj]

theorem Core.own (hcore : (s.taken p c).Core) (hp : (s.phase p).live = true) (hc : s.Alive c)
    (hlt : (s.objs p).terminating = true → (s.objs p).termAcks + 1 < 2 ^ 31)
    (howned : (s.objs p).terminating = true → (s.objs p).owned = []) (hothers : ∀ y ≠ p, s.Settled y)
    (hlive : ∀ y, ((s.taken p c).phase y).live = (s.phase y).live) :
    ∃ s', (s.processOwn p c >>= fun s => s.processSeqnum p) = .ok s' ∧ s'.Sound := by
  have hin : c ∈ ((s.taken p c).objs p).owned := by
    rw [taken_obj]
    exact List.mem_insert_self
  by_cases hterm : (s.objs p).terminating = true
  · rw [processOwn_terminating hterm (howned hterm) hc (hlt hterm)]
    have hphase : ∀ d ∈ [c], (s.taken p c).phase d = .owned := fun d hd => by
      rw [List.mem_singleton.mp hd]
      exact update_self _ _ _
    have hlive' := ask_live (p := p) hphase
    have hasked := hcore.ask (p := p) (by rw [hlive]; exact hp) (List.nodup_singleton c) fun d hd => by
      rwa [List.mem_singleton.mp hd]
    refine hasked.checked (by rw [hlive', hlive]; exact hp) (fun _ => ?_) fun y hne => ?_
    · rw [ask_eq, setObj_objs, taken_obj, howned hterm]
      simp
    · refine (hothers y hne).same (by rw [hlive', hlive]) ?_
      exact (update_of_ne hne _ _).trans (update_of_ne hne _ _)
  · have heq : (s.processOwn p c >>= fun s => s.processSeqnum p) = (s.taken p c).checkTermAcks p := by
      unfold processOwn
      rw [if_neg hterm]
      change checkTermAcks (setObj (setPhase (setObj s p _) c .owned) p _) p = _
      have hobj : ((s.setObj p { s.objs p with owned := (s.objs p).owned.insert c }).setPhase c .owned).objs p =
          { s.objs p with owned := (s.objs p).owned.insert c } := setObj_objs _
      rw [hobj]
      unfold setPhase setObj taken
      rw [update_idem]
    rw [heq]
    refine hcore.checked (by rw [hlive]; exact hp) (fun hterm' => ?_) fun y hne => ?_
    · rw [taken_obj] at hterm'
      exact absurd hterm' hterm
    · exact (hothers y hne).same (hlive y) (update_of_ne hne _ _)

theorem sendSeq_ok (h : s.Alive dst) : s.sendSeq src dst cmd = .ok { s with
      objs := update s.objs dst { s.objs dst with sentSeqnum := (s.objs dst).sentSeqnum + 1 }
      flight := s.flight ++ [⟨src, dst, cmd⟩] } := by
  unfold sendSeq incSeqnum
  rw [if_pos h]
  exact send_ok h

def attached (s : Tree O) (x y : O) : Tree O :=
  { s with
    objs := update s.objs y { s.objs y with sentSeqnum := (s.objs y).sentSeqnum + 1 }
    flight := s.flight ++ [⟨x, y, .attach⟩] }

theorem launchChild_ok (hp : s.Alive p) (hpc : p ≠ c) (hc : s.deletions c = 0) (attach : Bool) :
    s.launchChild p c attach = .ok (if attach then (s.launched p c).attached p c else s.launched p c) := by
  obtain ⟨hcreated, hdeletions⟩ := hp
  cases attach
  · simp [launchChild, create, setOwner, sendSeq, incSeqnum, send, setObj, Alive, launched, OwnT.new, hc, hpc,
      hcreated, hdeletions, bind, Except.bind]
  · simp [launchChild, create, setOwner, sendSeq, incSeqnum, send, setObj, Alive, launched, attached, OwnT.new, hc, hpc,
      hpc.symm, hcreated, hdeletions, bind, Except.bind]
    rw [update_comm hpc, update_idem]

/-- One command more does not bring the counter of an object back to zero. -/
def Counts (s : Tree O) (x : O) : Prop := (s.objs x).sentSeqnum.toNat + 1 < 2 ^ 32

/-- The object can wait for so many acknowledgements more. -/
def Awaits (s : Tree O) (x : O) (count : ℕ) : Prop := (s.objs x).termAcks + count < 2 ^ 31

instance (x : O) : Decidable (s.Counts x) := by unfold Counts; infer_instance

instance (x : O) (count : ℕ) : Decidable (s.Awaits x count) := by unfold Awaits; infer_instance

/-- How many children an object may have to wait for when it processes the command. -/
def asks (o : OwnT O) : OwnCmd O → ℕ
  | .own _ | .termReq _ => 1
  | .term => o.owned.length
  | _ => 0

def Keeps (s : Tree O) : Op O → Prop
  | .root _ | .event _ => True
  | .launchChild x _ _ => s.Counts x
  | .attach _ owner => s.Counts owner
  | .terminate x => s.Awaits x (s.objs x).owned.length
  | .termChild x _ => s.Awaits x 1
  | .wait x count => s.Awaits x count
  | .deliver x y => ∀ m ∈ Packet.next x y s.flight, s.Awaits y (asks (s.objs y) m.cmd)

instance (op : Op O) : Decidable (s.Keeps op) := by
  induction op using Op.casesOn <;> unfold Keeps <;> infer_instance

theorem Sound.delivers (h : s.Sound) (hr : s.Ready (.deliver x y)) (hk : s.Keeps (.deliver x y)) :
    ∃ s', s.run (.deliver x y) = .ok s' ∧ s'.Sound := by
  obtain ⟨m, hm⟩ := Option.isSome_iff_exists.mp hr
  have hacks := hk m hm
  obtain ⟨older, newer, hf, hrest, hold, rfl, rfl⟩ := Packet.next_spec hm
  have hin : m ∈ s.flight := by rw [hf]; simp
  have hlive := h.mail.live m hin
  have halive : Alive { s with flight := older ++ newer } m.dst := h.alive_iff.mpr hlive
  have howned := fun hterm => (h.settled m.dst hlive hterm).1
  have hrun : s.run (.deliver m.src m.dst) = process { s with flight := older ++ newer } m := by
    simp only [run, hm, hrest]
  rw [hrun]
  obtain ⟨src, dst, cmd⟩ := m
  have hprocess : process { s with flight := older ++ newer } ⟨src, dst, cmd⟩ = _ := if_neg (not_not.mpr halive)
  rw [hprocess]
  cases cmd with
  | plug =>
    refine (h.toCore.arrives_seq hf (.inl rfl)).checked hlive (fun hterm => ?_) fun y hne => ?_
    · dsimp only at hterm ⊢
      rw [update_self] at hterm ⊢
      exact howned hterm
    · exact (h.settled y).same rfl (update_of_ne hne _ _)
  | attach =>
    refine (h.toCore.arrives_seq hf (.inr rfl)).checked hlive (fun hterm => ?_) fun y hne => ?_
    · dsimp only at hterm ⊢
      rw [update_self] at hterm ⊢
      exact howned hterm
    · exact (h.settled y).same rfl (update_of_ne hne _ _)
  | own c =>
    obtain ⟨c', p, hc, hpend⟩ := (h.mail.once _ rfl).mp hin
    obtain ⟨rfl, rfl, rfl, hph⟩ := OwnCmd.pending_own hpend
    refine Core.own (s := { s with flight := older ++ newer }) (h.toCore.owns hf hold) hlive ?_ (fun _ => hacks) howned
      (fun y _ => (h.settled y).same rfl rfl) (live_update (by rw [hph]; rfl))
    exact h.alive_iff.mpr (by rw [hph]; rfl)
  | termReq c =>
    have hcore := h.toCore.arrives hf rfl rfl
    exact Sound.term_req ⟨hcore, fun y => (h.settled y).same rfl rfl⟩ hlive fun _ => hacks
  | term =>
    obtain ⟨c, p, hc, hpend⟩ := (h.mail.once _ rfl).mp hin
    obtain ⟨rfl, rfl, hph⟩ := OwnCmd.pending_term hpend
    refine Core.term (s := { s with flight := older ++ newer }) (h.toCore.told hf hold) ?_ hacks
      fun y _ => (h.settled y).same rfl rfl
    exact (h.terminating dst).trans (by rw [hph]; rfl)
  | termAck =>
    obtain ⟨c, p, hc, hpend⟩ := (h.mail.once _ rfl).mp hin
    obtain ⟨rfl, rfl, hph⟩ := OwnCmd.pending_ack hpend
    obtain ⟨hpos, hcore⟩ := h.toCore.acked hf hold
    have hlive' : ∀ x, (update s.phase src .done x).live = (s.phase x).live := live_update (by rw [hph]; rfl)
    have hack : processTermAck { s with flight := older ++ newer } dst src = checkTermAcks { s with
          flight := older ++ newer
          objs := update s.objs dst { s.objs dst with termAcks := (s.objs dst).termAcks - 1 }
          phase := update s.phase src .done
          awaited := update s.awaited dst ((s.awaited dst).erase src) } dst :=
      if_neg (not_le.mpr hpos)
    rw [hack]
    refine hcore.checked ((hlive' dst).trans hlive) (fun hterm => ?_) fun y hne => ?_
    · dsimp only at hterm ⊢
      rw [update_self] at hterm ⊢
      exact howned hterm
    · exact (h.settled y).same (hlive' y) (update_of_ne hne _ _)

theorem Sound.terminates (h : s.Sound) (hr : s.Ready (.terminate x)) (hk : s.Keeps (.terminate x)) :
    ∃ s', s.run (.terminate x) = .ok s' ∧ s'.Sound := by
  have hlive := h.alive_iff.mp hr
  unfold run terminate
  by_cases hterm : (s.objs x).terminating = true
  · exact ⟨s, if_pos hterm, h⟩
  · dsimp only
    rw [if_neg hterm]
    have hstops : (s.phase x).stops = false := by
      rw [← h.terminating]
      simpa using hterm
    cases hown : (s.objs x).owner with
    | none =>
      have hroot := h.root x hown
      have hph : s.phase x = .free := by
        cases hp : s.phase x <;> simp_all [root, stops, live]
      exact Core.term (h.toCore.stops hown hph) (by simpa using hterm) hk fun y _ => h.settled y
    | some p =>
      have hp : (s.phase p).live = true := h.parent x p hown fun hd => by rw [hd] at hstops; cases hstops
      exact ⟨_, send_ok (h.alive_iff.mpr hp), h.toCore.requests hown hlive hp, fun y => (h.settled y).same rfl rfl⟩

theorem Sound.posts (h : s.Sound) (hcmd : cmd = .plug ∨ cmd = .attach)
    (hdst : (s.phase dst).live = true) (hsrc : (s.phase src).live = true) (hlt : s.Counts dst) :
    Sound { s with
      objs := update s.objs dst { s.objs dst with sentSeqnum := (s.objs dst).sentSeqnum + 1 }
      flight := s.flight ++ [⟨src, dst, cmd⟩] } := by
  have hcore := h.toCore.posts hcmd hdst hsrc hlt
  refine ⟨hcore, fun y => ?_⟩
  rcases eq_or_ne y dst with rfl | hne
  · refine fun hl hterm => ⟨?_, ?_⟩
    · dsimp only at hterm ⊢
      rw [update_self] at hterm ⊢
      exact (h.settled y hl hterm).1
    · refine hcore.busy (m := ⟨src, y, cmd⟩) (by simp) ?_
      rcases hcmd with rfl | rfl <;> rfl
  · exact (h.settled y).same rfl (update_of_ne hne _ _)

theorem Sound.launches (h : s.Sound) (hc : s.created c = false) (hp : (s.phase p).live = true) (hlt : s.Counts p) :
    (s.launched p c).Sound := by
  have hcore := h.toCore.launches hc hp hlt
  refine ⟨hcore, fun y => ?_⟩
  rcases eq_or_ne y c with rfl | hyc
  · intro _ hterm
    rw [h.toCore.launched_child hc hp] at hterm
    cases hterm
  · have hphase : (s.launched p c).phase y = s.phase y := update_of_ne hyc _ _
    rcases eq_or_ne y p with rfl | hyp
    · intro hl hterm
      rw [hphase] at hl
      rw [launched_field (·.terminating) (fun _ => rfl) hyc] at hterm
      refine ⟨?_, hcore.busy (m := ⟨y, y, .own c⟩) (by simp [launched]) rfl⟩
      rw [launched_field (·.owned) (fun _ => rfl) hyc]
      exact (h.settled y hl hterm).1
    · exact (h.settled y).same (by rw [hphase])
        ((update_of_ne hyp _ _).trans (update_of_ne hyc _ _))

theorem Sound.runs {op : Op O} (h : s.Sound) (hr : s.Ready op) (hk : s.Keeps op) :
    ∃ s', s.run op = .ok s' ∧ s'.Sound := by
  cases op with
  | root x =>
    refine ⟨_, rfl, h.toCore.created_root hr, fun y => ?_⟩
    unfold create
    rcases eq_or_ne y x with rfl | hne
    · intro _ hterm
      dsimp only at hterm
      rw [update_self] at hterm
      cases hterm
    · refine (h.settled y).same ?_ (update_of_ne hne _ _)
      dsimp only
      rw [update_of_ne hne]
  | launchChild x c attach =>
    obtain ⟨halive, hc⟩ := hr
    have hlive := h.alive_iff.mp halive
    have hdel : s.deletions c = 0 := (h.deletions c).trans (by rw [(h.toCore.unborn hc).1]; rfl)
    have hne := h.toCore.launched_ne hc hlive
    have hsound := h.launches hc hlive hk
    refine ⟨_, launchChild_ok halive hne hdel attach, ?_⟩
    cases attach with
    | false => exact hsound
    | true =>
      refine hsound.posts (.inr rfl) ?_ ?_ ?_
      · exact (congrArg live (update_self _ _ _)).trans rfl
      · exact (congrArg live (update_of_ne hne _ _)).trans hlive
      · unfold Counts
        rw [h.toCore.launched_child hc hlive]
        change (1 : UInt32).toNat + 1 < 2 ^ 32
        decide
  | terminate x => exact h.terminates hr hk
  | termChild x c => exact h.term_req (h.alive_iff.mp hr) fun _ => hk
  | attach x p =>
    obtain ⟨halive, hown⟩ := hr
    have hlive := h.alive_iff.mp halive
    have hp : (s.phase p).live = true := h.parent x p hown fun hd => by rw [hd] at hlive; cases hlive
    exact ⟨_, sendSeq_ok (h.alive_iff.mpr hp), h.posts (.inr rfl) hp hlive hk⟩
  | wait x count =>
    have hlive := h.alive_iff.mp hr
    have hcore := h.toCore.waits (x := x) (n := s.waits x + count) (k := count) (by omega) hlive
    refine ⟨_, ?_, hcore, fun y => ?_⟩
    · change (s.registerTermAcks x count >>= _) = _
      rw [register_ok hk]
      rfl
    rcases eq_or_ne y x with rfl | hne
    · intro hl hterm
      unfold Idle
      dsimp only at hterm ⊢
      rw [update_self] at hterm ⊢
      obtain ⟨howned, hidle⟩ := h.settled y hl hterm
      refine ⟨howned, fun hc => hidle ⟨hc.1, ?_⟩⟩
      have hacks := h.acks y
      have hzero := hc.2
      dsimp only at hzero
      omega
    · exact (h.settled y).same rfl (update_of_ne hne _ _)
  | event x =>
    have hpos : 0 < s.waits x := hr
    have hlive : (s.phase x).live = true := by
      by_contra hdead
      have := h.idle x (by simpa using hdead)
      omega
    have hacks := h.acks x
    have hcore := h.toCore.waits (x := x) (n := s.waits x - 1) (k := -1) (by omega) hlive
    have hrun : s.run (.event x) = checkTermAcks { s with
        objs := update s.objs x { s.objs x with termAcks := (s.objs x).termAcks - 1 }
        waits := update s.waits x (s.waits x - 1) } x := if_neg (by dsimp only; omega)
    rw [hrun]
    refine hcore.checked hlive (fun hterm => ?_) fun y hne => ?_
    · dsimp only at hterm ⊢
      rw [update_self] at hterm ⊢
      exact (h.settled x hlive hterm).1
    · exact (h.settled y).same rfl (update_of_ne hne _ _)
  | deliver x y => exact h.delivers hr hk

theorem Sound.start : (empty : Tree O).Sound where
  created _ := rfl
  deletions _ := rfl
  terminating _ := rfl
  terms _ := rfl
  root _ _ := rfl
  child _ _ h := by cases h
  owned _ _ := ⟨fun h => (List.not_mem_nil h).elim, fun h => by cases h.1⟩
  nodup _ := List.nodup_nil
  awaited _ _ := ⟨fun h => absurd h (Finset.notMem_empty _), fun h => by cases h.1⟩
  parent _ _ h := by cases h
  born _ _ h := by cases h
  rank := ⟨fun _ => 0, 0, ⟨fun _ h => (by cases h), fun _ _ h => (by cases h)⟩⟩
  acks _ := rfl
  seq _ := rfl
  idle _ _ := rfl
  mail := by
    refine ⟨?_, ?_, ?_, fun m _ => ⟨?_, ?_⟩, List.nodup_nil, List.Pairwise.nil⟩
    · simp [empty]
    · simp [empty]
    · simp [empty]
    · simp [empty]
    · rintro ⟨c, p, hc, -⟩
      cases hc
  settled _ h := by cases h

theorem sound {ops : List (Op O)} (h : Run Start (Guarded Keeps Step) ops s) : s.Sound :=
  h.invariant Sound (fun s hs => hs ▸ Sound.start) fun s op s' hs ⟨hk, hr, hrun⟩ => by
    obtain ⟨s1, hrun1, hs1⟩ := hs.runs hr hk
    rw [hrun] at hrun1
    rwa [Except.ok.inj hrun1]

/-- A deallocated object has been told to terminate, and has waited for its children and for all commands. -/
structure Over (s : Tree O) (x : O) : Prop where
  told : (s.objs x).terminating = true ∧ ((s.objs x).owner ≠ none → s.terms x = 1)
  children : ∀ c, (s.objs c).owner = some x → s.terms c = 1 ∧ s.deletions c = 1 ∧ s.phase c = .done
  processed : (s.objs x).processedSeqnum.toNat = (s.objs x).sentSeqnum.toNat
  acks : (s.objs x).termAcks = 0 ∧ (s.objs x).owned = []
  silent : ∀ m ∈ s.flight, m.dst ≠ x

theorem Sound.over (h : s.Sound) (hx : s.deletions x = 1) : s.Over x := by
  have hgone : (s.phase x).gone = true := by
    by_contra hno
    have hd := h.deletions x
    rw [if_neg hno] at hd
    omega
  have hdead : (s.phase x).live = false := by simp [live, hgone]
  have hchild : ∀ c, (s.objs c).owner = some x → s.phase c = .done := fun c hc => by
    by_contra hno
    have := h.parent c x hc hno
    rw [hdead] at this
    cases this
  have hsilent : ∀ m ∈ s.flight, m.dst ≠ x := fun m hm hd => by
    have := h.mail.live m hm
    rw [hd, hdead] at this
    cases this
  have hawaited : s.awaited x = ∅ := Finset.eq_empty_iff_forall_notMem.mpr fun c hc => by
    obtain ⟨hc, ha⟩ := (h.awaited x c).mp hc
    rw [hchild c hc] at ha
    cases ha
  have hdue : due s.flight x = 0 := List.countP_eq_zero.mpr fun m hm => by simp [hsilent m hm]
  refine ⟨⟨?_, fun ho => ?_⟩, fun c hc => ⟨?_, ?_, hchild c hc⟩, ?_, ⟨?_, ?_⟩, hsilent⟩
  · rw [h.terminating]
    cases hp : s.phase x <;> simp_all [gone, stops]
  · obtain ⟨p, hp⟩ := Option.ne_none_iff_exists'.mp ho
    rw [h.terms]
    cases hq : s.phase x <;> simp_all [gone, told, termsAt]
  · rw [h.terms, hc, hchild c hc]
    rfl
  · rw [h.deletions, hchild c hc]
    rfl
  · have hs := h.seq x
    omega
  · have hacks := h.acks x
    rw [hawaited, h.idle x hdead] at hacks
    exact hacks
  · refine List.eq_nil_iff_forall_not_mem.mpr fun c hc => ?_
    obtain ⟨hc, ho⟩ := (h.owned x c).mp hc
    rw [hchild c hc] at ho
    cases ho

theorem Sound.all_gone (h : s.Sound) (hflight : s.flight = []) (hwaits : ∀ x, s.waits x = 0) :
    (s.phase x).stops = true → (s.phase x).gone = true := by
  obtain ⟨rank, bound, hb, hr⟩ := h.rank
  have hnone : ∀ c p m, (s.objs c).owner = some p → OwnCmd.pending p c (s.phase c) ≠ some m := fun c p m hc hm => by
    have := (h.mail.once m (OwnCmd.pending_once hm)).mpr ⟨c, p, hc, hm⟩
    rw [hflight] at this
    exact List.not_mem_nil this
  obtain ⟨n, hn⟩ : ∃ n, n = bound - rank x := ⟨_, rfl⟩
  induction n using Nat.strong_induction_on generalizing x with
  | _ n ih =>
    intro hstops
    by_contra halive
    have hph : s.phase x = .terminating := by
      cases hp : s.phase x <;> simp_all [stops, gone]
    obtain ⟨-, hidle⟩ := h.settled x (by rw [hph]; rfl) (by rw [h.terminating, hstops])
    have hawaited : s.awaited x ≠ ∅ := fun hempty => by
      refine hidle ⟨?_, ?_⟩
      · have hs := h.seq x
        rw [hflight] at hs
        apply UInt64.toNat_inj.mp
        exact hs.symm
      · rw [h.acks, hempty, hwaits]
        rfl
    obtain ⟨c, hc⟩ := Finset.nonempty_iff_ne_empty.mpr hawaited
    obtain ⟨hown, haw⟩ := (h.awaited x c).mp hc
    have hpc := hnone c x
    have hcp : s.phase c = .terminating := by
      cases hp : s.phase c with
      | termed => exact absurd rfl (hp ▸ hpc ⟨x, c, .term⟩ hown)
      | acked => exact absurd rfl (hp ▸ hpc ⟨c, x, .termAck⟩ hown)
      | terminating => rfl
      | _ => simp [hp, OwnPhase.awaited] at haw
    have hlt := hr c x hown
    have hbc : rank c < bound := hb c (by rw [h.created, hcp]; rfl)
    have hgone := ih (bound - rank c) (by omega) rfl (by rw [hcp]; rfl)
    rw [hcp] at hgone
    cases hgone

/-- Every object that is told to terminate is deallocated once, after all that it waits for; no command is sent to one
that is gone, and no assertion fails. -/
theorem terminates_exactly {ops : List (Op O)} (h : Run Start (Guarded Keeps Step) ops s) :
    (∀ x, s.deletions x ≤ 1 ∧ s.terms x ≤ 1 ∧ 0 ≤ (s.objs x).termAcks) ∧
    (∀ x, s.deletions x = 1 → s.Over x) ∧
    (∀ m ∈ s.flight, s.Alive m.dst) ∧
    (∀ op, s.Ready op → s.Keeps op → ∃ s', s.run op = .ok s') ∧
    (s.flight = [] → (∀ x, s.waits x = 0) →
      ∀ x, (s.objs x).terminating = true ∨ s.terms x = 1 → s.deletions x = 1) := by
  have hs := sound h
  refine ⟨fun x => ⟨?_, ?_, ?_⟩, fun x => hs.over, fun m hm => hs.alive_iff.mpr (hs.mail.live m hm),
    fun op hr hk => ?_, fun hflight hwaits x hx => ?_⟩
  · rw [hs.deletions]
    split_ifs <;> omega
  · rw [hs.terms]
    unfold termsAt
    split
    · omega
    · split_ifs <;> omega
  · rw [hs.acks]
    omega
  · obtain ⟨s', hrun, -⟩ := hs.runs hr hk
    exact ⟨s', hrun⟩
  · have hstops : (s.phase x).stops = true := by
      rcases hx with hx | hx
      · rwa [← hs.terminating]
      · rw [hs.terms] at hx
        unfold termsAt at hx
        split at hx
        · cases hx
        · next p hp =>
          have hno : s.phase x ≠ .termed := fun hph => by
            have := (hs.mail.once ⟨p, x, .term⟩ rfl).mpr ⟨x, p, hp, by rw [hph]; rfl⟩
            rw [hflight] at this
            exact List.not_mem_nil this
          cases hp : s.phase x <;> simp_all [OwnPhase.told, OwnPhase.stops]
    rw [hs.deletions, if_pos (hs.all_gone hflight hwaits hstops)]

theorem terminates_exactly_two : ∃ s : Tree ℕ, (s.deletions 0, s.deletions 1, s.terms 1) = (1, 1, 1) ∧ s.Over 0 ∧ s.Over 1 := by
  obtain ⟨s, hs, hf⟩ : ∃ s, Run Start (Guarded Keeps Step) [.root 0, .launchChild 0 1 true, .deliver 0 1, .deliver 0 0,
      .deliver 0 1, .terminate 0, .deliver 0 1, .deliver 1 0] s ∧
      (s.deletions 0, s.deletions 1, s.terms 1) = (1, 1, 1) := by
    refine run_of_play rfl ?_
    decide
  simp only [Prod.mk.injEq] at hf
  exact ⟨s, by simp [hf], (terminates_exactly hs).2.1 0 hf.1, (terminates_exactly hs).2.1 1 hf.2.1⟩

theorem crowd (n : ℕ) : ∃ s : Tree ℕ, Run Start Step (.root 0 :: (List.range n).map fun i => .launchChild 0 (i + 1) false) s ∧
    s.objs 0 = ⟨false, UInt32.ofNat n, 0, none, [], 0⟩ ∧ (∀ x, s.created x = decide (x ≤ n)) ∧
    (∀ x, s.deletions x = 0 ∧ s.terms x = 0) ∧ (0 < n → ⟨0, 0, .own 1⟩ ∈ s.flight ∧ (s.objs 1).owner = some 0) := by
  induction n with
  | zero =>
    refine ⟨empty.create 0 .free, @Run.snoc _ _ _ _ [] _ _ _ (.nil rfl) ⟨rfl, rfl⟩, rfl, fun x => ?_, fun _ => ⟨rfl, rfl⟩,
      fun h => absurd h (lt_irrefl 0)⟩
    unfold create
    dsimp only
    rcases eq_or_ne x 0 with rfl | hne
    · rfl
    · rw [update_of_ne hne]
      exact (decide_eq_false (by omega)).symm
  | succ n ih =>
    obtain ⟨s, hs, hobj, hcreated, hno, hown⟩ := ih
    have halive : s.Alive 0 := ⟨by rw [hcreated]; simp, (hno 0).1⟩
    have hnew : s.created (n + 1) = false := by
      rw [hcreated]
      simp
    have hrun := launchChild_ok (c := n + 1) halive (by omega) (hno (n + 1)).1 false
    refine ⟨s.launched 0 (n + 1), ?_, ?_, fun x => ?_, hno, fun _ => ?_⟩
    · rw [List.range_succ, List.map_append]
      exact hs.snoc ⟨⟨halive, hnew⟩, hrun⟩
    · have hself : (s.launched 0 (n + 1)).objs 0 = { s.objs 0 with sentSeqnum := (s.objs 0).sentSeqnum + 1 } := by
        unfold launched
        dsimp only
        rw [update_self]
      rw [hself, hobj, UInt32.ofNat_add]
      rfl
    · unfold launched
      dsimp only
      rcases eq_or_ne x (n + 1) with rfl | hne
      · simp
      · rw [update_of_ne hne, hcreated]
        congr 1
        apply propext
        omega
    · unfold launched
      dsimp only
      rw [update_of_ne (by omega)]
      rcases Nat.eq_zero_or_pos n with rfl | hpos
      · simp
      · obtain ⟨hin, ho⟩ := hown hpos
        rw [update_of_ne (by omega)]
        exact ⟨List.mem_append_left _ hin, ho⟩

/-- The counter of commands is back at zero: the object is deallocated while all these commands are in flight and its
children have not been told. -/
theorem deallocated_early : ∃ s : Tree ℕ,
    Run Start Step ((.root 0 :: (List.range (2 ^ 32)).map fun i => .launchChild 0 (i + 1) false) ++ [.terminate 0]) s ∧
    s.deletions 0 = 1 ∧ ⟨0, 0, .own 1⟩ ∈ s.flight ∧ (s.objs 1).owner = some 0 ∧ s.deletions 1 = 0 ∧ s.terms 1 = 0 := by
  obtain ⟨n, hn⟩ : ∃ n, n = 2 ^ 32 := ⟨_, rfl⟩
  rw [← hn]
  obtain ⟨s, hs, hobj, hcreated, hno, hown⟩ := crowd n
  obtain ⟨hin, ho⟩ := hown (by omega)
  have hzero : UInt32.ofNat n = 0 := by rw [hn]; rfl
  rw [hzero] at hobj
  have halive : s.Alive 0 := ⟨by rw [hcreated]; simp, (hno 0).1⟩
  obtain ⟨t, ht⟩ : ∃ t, t = (s.stopped 0).ask 0 [] := ⟨_, rfl⟩
  have htobj : t.objs 0 = ⟨true, 0, 0, none, [], 0⟩ := by
    rw [ht, ask_eq, stopped_obj, hobj]
    rfl
  have hterm : s.run (.terminate 0) = t.checkTermAcks 0 := by
    have heq := processTerm_eq (s := s) (x := 0) (by rw [hobj]) (by rw [hobj]; simp)
      (by rw [hobj]; exact fun _ h => absurd h List.not_mem_nil) (by rw [hobj]; decide)
    rw [hobj] at heq
    rw [ht, ← heq]
    simp [run, terminate, hobj]
  have hcheck : t.checkTermAcks 0 = t.destroy 0 := by
    simp [checkTermAcks, confirm, htobj, bind, Except.bind]
  have halive' : t.Alive 0 := by
    rw [ht]
    exact halive
  have hready : s.Ready (.terminate 0) := halive
  have hrun := (hterm.trans hcheck).trans (destroy_ok halive')
  refine ⟨_, hs.snoc ⟨hready, hrun⟩, ?_, ?_, ?_, ?_, ?_⟩
  all_goals dsimp only
  · rw [ht]
    exact congrArg (· + 1) (hno 0).1
  · rw [ht]
    exact List.mem_append_left _ hin
  · rw [ht]
    exact ho
  · rw [ht]
    exact (hno 1).1
  · rw [ht]
    exact (hno 1).2

end Tree

end Zmq
