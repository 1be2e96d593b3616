import LibZmq.Objects.OwnTree

/-! Each thing that an object can do keeps the invariant of the tree. -/

namespace Zmq

open List Option OwnCmd OwnPhase

open Function (update update_of_ne update_self)

universe u

namespace Tree

variable {O : Type u} [DecidableEq O] {s s' : Tree O} {x y p c : O} {m : Packet O (OwnCmd O)}
  {older newer : List (Packet O (OwnCmd O))}

theorem Core.arrives (h : s.Core) (hf : s.flight = older ++ m :: newer) (hm : m.cmd.isOnce = false)
    (hseq : m.cmd.isSeq = false) : Core { s with flight := older ++ newer } := by
  refine ⟨h.toStatus.same rfl rfl rfl rfl (fun _ => rfl) fun _ => rfl,
    h.toFamily.same rfl rfl rfl (fun _ => rfl) fun _ => rfl, ⟨h.acks, fun x => ?_, h.idle⟩,
    h.mail.rest hf hm rfl rfl fun _ => rfl⟩
  have hs := h.seq x
  rw [hf, due_append, due_cons, hseq] at hs
  rw [due_append]
  simpa using hs

theorem succ_toNat {n : UInt64} (h : n.toNat < 2 ^ 32) : (n + 1).toNat = n.toNat + 1 := by
  rw [UInt64.toNat_add]
  exact Nat.mod_eq_of_lt (by have : (1 : UInt64).toNat = 1 := rfl; omega)

theorem update_field {β : Type*} (f : OwnT O → β) {g : O → OwnT O} {o : OwnT O} (h : f o = f (g x)) (y : O) :
    f (update g x o y) = f (g y) := by
  rcases eq_or_ne y x with rfl | hne
  · rw [update_self, h]
  · rw [update_of_ne hne]

theorem Counters.seq_arrives {o : OwnT O} (h : s.Counters) (hf : s.flight = older ++ m :: newer)
    (hm : m.cmd.isSeq = true) (ho : o.sentSeqnum = (s.objs m.dst).sentSeqnum)
    (hp : o.processedSeqnum = (s.objs m.dst).processedSeqnum + 1) (x : O) : (update s.objs m.dst o x).sentSeqnum.toNat =
      (update s.objs m.dst o x).processedSeqnum.toNat + due (older ++ newer) x := by
  have hs := h.seq x
  rw [hf, due_append, due_cons] at hs
  rw [update_field (·.sentSeqnum) ho, due_append]
  rcases eq_or_ne x m.dst with rfl | hne
  · rw [if_pos ⟨rfl, hm⟩] at hs
    have hlt := (s.objs m.dst).sentSeqnum.toNat_lt
    rw [update_self, hp, succ_toNat (by omega)]
    omega
  · rw [if_neg fun hc => hne hc.1.symm] at hs
    rw [update_of_ne hne]
    exact hs

theorem Core.arrives_seq (h : s.Core) (hf : s.flight = older ++ m :: newer) (hm : m.cmd = .plug ∨ m.cmd = .attach) :
    Core { s with
      flight := older ++ newer
      objs := update s.objs m.dst
        { s.objs m.dst with processedSeqnum := (s.objs m.dst).processedSeqnum + 1 } } := by
  obtain ⟨o, ho⟩ : ∃ o, o = { s.objs m.dst with processedSeqnum := (s.objs m.dst).processedSeqnum + 1 } := ⟨_, rfl⟩
  have howner : ∀ x, (update s.objs m.dst o x).owner = (s.objs x).owner := update_field _ (by rw [ho])
  have hacks : ∀ x, (update s.objs m.dst o x).termAcks = (s.objs x).termAcks := update_field _ (by rw [ho])
  have hseq : m.cmd.isSeq = true := by rcases hm with hm | hm <;> rw [hm] <;> rfl
  have honce : m.cmd.isOnce = false := by rcases hm with hm | hm <;> rw [hm] <;> rfl
  rw [← ho]
  refine ⟨h.toStatus.same rfl rfl rfl rfl (update_field (·.terminating) (by rw [ho])) howner,
    h.toFamily.same rfl rfl rfl howner (update_field (·.owned) (by rw [ho])),
    ⟨fun x => ?_, h.seq_arrives hf hseq (by rw [ho]) (by rw [ho]), h.idle⟩,
    h.mail.rest hf honce rfl rfl howner⟩
  rw [hacks]
  exact h.acks x

theorem Core.owns (h : s.Core) (hf : s.flight = older ++ ⟨p, p, .own c⟩ :: newer)
    (hold : ∀ n ∈ older, ¬ (n.src = p ∧ n.dst = p)) :
    Core { s with
      flight := older ++ newer
      objs := update s.objs p
        { s.objs p with owned := (s.objs p).owned.insert c, processedSeqnum := (s.objs p).processedSeqnum + 1 }
      phase := update s.phase c .owned } := by
  obtain ⟨o, ho⟩ : ∃ o, o = { s.objs p with
      owned := (s.objs p).owned.insert c, processedSeqnum := (s.objs p).processedSeqnum + 1 } := ⟨_, rfl⟩
  have howner : ∀ x, (update s.objs p o x).owner = (s.objs x).owner := update_field _ (by rw [ho])
  have hstops : ∀ x, (update s.objs p o x).terminating = (s.objs x).terminating := update_field _ (by rw [ho])
  have hacks : ∀ x, (update s.objs p o x).termAcks = (s.objs x).termAcks := update_field _ (by rw [ho])
  obtain ⟨c', p', hc, hm⟩ := (h.mail.once ⟨p, p, .own c⟩ rfl).mp (by rw [hf]; simp)
  obtain ⟨rfl, rfl, hph⟩ := pending_inj hm (rfl : pending _ _ .owning = _)
  have hlive : ∀ x, (update s.phase c' OwnPhase.owned x).live = (s.phase x).live :=
    live_update (by rw [hph]; rfl)
  rw [← ho]
  have hborn : s.created c' = true := by rw [h.created, hph]; rfl
  refine ⟨h.toStatus.moves hborn (fun _ _ => rfl) rfl howner ?_ (fun _ _ => rfl) ?_ (fun x _ => hstops x) ?_ (fun _ _ => rfl)
      (by simp) (fun hn => by rw [hc] at hn; cases hn) fun _ => rfl,
    h.toFamily.moves hborn (fun _ _ => rfl) rfl howner (fun q => ?_) (fun q d hne => ?_) (fun q => ?_) (fun q => ?_) (fun _ _ _ => Iff.rfl)
      (fun _ _ _ => rfl) (fun hd => by rw [hph] at hd; cases hd),
    ⟨fun x => ?_, h.seq_arrives hf rfl (by rw [ho]) (by rw [ho]), fun x hx => h.idle x (by rwa [hlive] at hx)⟩,
    h.mail.takes hf hold hc hm rfl rfl howner rfl (by rw [hph]; rfl) nofun⟩
  all_goals dsimp only at *
  · rw [h.deletions, hph]
    rfl
  · rw [hstops, h.terminating, hph]
    rfl
  · rw [h.terms, hph]
    rfl
  · rcases eq_or_ne q p' with rfl | hne
    · rw [ho]
      simp [hc]
    · rw [update_of_ne hne, h.owned, hc]
      simp [hne.symm]
  · rcases eq_or_ne q p' with rfl | hne'
    · rw [ho]
      simp [hne]
    · rw [update_of_ne hne']
  · rcases eq_or_ne q p' with rfl | hne
    · rw [update_self, ho]
      exact (h.nodup q).insert
    · rw [update_of_ne hne]
      exact h.nodup q
  · rw [h.awaited, hph]
    simp [OwnPhase.awaited]
  · rw [hacks]
    exact h.acks x

theorem Core.terminates {flight : List (Packet O (OwnCmd O))} (h : s.Core) (hph : s.phase c = .termed ∨ s.phase c = .free)
    (hterms : s.terms c = termsAt (s.objs c).owner .terminating) (haw : ∀ q, c ∈ s.awaited q ↔ (s.objs c).owner = some q)
    (hdue : ∀ x, due flight x = due s.flight x) (hmail : ∀ s' : Tree O, s'.flight = flight →
      s'.phase = update s.phase c .terminating → (∀ x, (s'.objs x).owner = (s.objs x).owner) → s'.Mail) :
    Core { s with
      flight := flight
      objs := update s.objs c { s.objs c with terminating := true }
      phase := update s.phase c .terminating } := by
  obtain ⟨o, ho⟩ : ∃ o, o = { s.objs c with terminating := true } := ⟨_, rfl⟩
  have howner : ∀ x, (update s.objs c o x).owner = (s.objs x).owner := update_field _ (by rw [ho])
  have howned : ∀ x, (update s.objs c o x).owned = (s.objs x).owned := update_field _ (by rw [ho])
  have hacks : ∀ x, (update s.objs c o x).termAcks = (s.objs x).termAcks := update_field _ (by rw [ho])
  have hsent : ∀ x, (update s.objs c o x).sentSeqnum = (s.objs x).sentSeqnum := update_field _ (by rw [ho])
  have hprocessed : ∀ x, (update s.objs c o x).processedSeqnum = (s.objs x).processedSeqnum :=
    update_field _ (by rw [ho])
  have hlive : ∀ x, (update s.phase c terminating x).live = (s.phase x).live :=
    live_update (by rcases hph with hph | hph <;> rw [hph] <;> rfl)
  rw [← ho]
  have hborn : s.created c = true := by rcases hph with hph | hph <;> rw [h.created, hph] <;> rfl
  refine ⟨h.toStatus.moves hborn (fun _ _ => rfl) rfl howner ?_ (fun _ _ => rfl) ?_ (fun x hne => ?_) hterms (fun _ _ => rfl)
      (by simp) (fun _ => rfl) (fun _ => rfl),
    h.toFamily.moves hborn (fun _ _ => rfl) rfl howner (fun q => ?_) (fun q d _ => ?_) (fun q => ?_) (fun q => ?_) (fun _ _ _ => Iff.rfl)
      (fun _ _ _ => rfl) (fun hd => ?_),
    ⟨fun x => ?_, fun x => ?_, fun x hx => h.idle x (by rwa [hlive] at hx)⟩, hmail _ rfl rfl howner⟩
  all_goals dsimp only at *
  · rcases hph with hph | hph <;> rw [h.deletions, hph] <;> rfl
  · rw [update_self, ho]
    rfl
  · rw [update_of_ne hne]
  · rcases hph with hph | hph <;> simp [howned, h.owned, hph]
  · rw [howned]
  · rw [howned]
    exact h.nodup q
  · simp [haw, OwnPhase.awaited]
  · rcases hph with hph | hph <;> cases hph.symm.trans hd
  · rw [hacks]
    exact h.acks x
  · rw [hsent, hprocessed, hdue]
    exact h.seq x

theorem Core.told (h : s.Core) (hf : s.flight = older ++ ⟨p, c, .term⟩ :: newer)
    (hold : ∀ n ∈ older, ¬ (n.src = p ∧ n.dst = c)) :
    Core { s with
      flight := older ++ newer
      objs := update s.objs c { s.objs c with terminating := true }
      phase := update s.phase c .terminating } := by
  obtain ⟨c', p', hc, hm⟩ := (h.mail.once ⟨p, c, .term⟩ rfl).mp (by rw [hf]; simp)
  obtain ⟨rfl, rfl, hph⟩ := pending_inj hm (rfl : pending _ _ .termed = _)
  refine h.terminates (.inl hph) ?_ (fun q => ?_) (fun x => ?_)
    fun _ hf' hp ho => h.mail.takes hf hold hc hm hf' hp ho rfl (by rw [hph]; rfl) nofun
  · rw [h.terms, hph]
    rfl
  · rw [h.awaited, hph]
    simp [OwnPhase.awaited]
  · rw [hf, due_append, due_append, due_cons]
    simp [isSeq]

theorem Core.stops (h : s.Core) (hc : (s.objs c).owner = none) (hph : s.phase c = .free) :
    Core { s with
      objs := update s.objs c { s.objs c with terminating := true }
      phase := update s.phase c .terminating } := by
  refine h.terminates (.inr hph) ?_ (fun q => ?_) (fun _ => rfl) fun _ hf hp ho => h.mail.moves hf hp ho hc fun m _ => ?_
  · rw [h.terms, hc]
    rfl
  · rw [h.awaited, hc]
    simp
  · rw [hp]
    exact live_update (by rw [hph]; rfl) m.dst

theorem Core.acked (h : s.Core) (hf : s.flight = older ++ ⟨c, p, .termAck⟩ :: newer)
    (hold : ∀ n ∈ older, ¬ (n.src = c ∧ n.dst = p)) :
    0 < (s.objs p).termAcks ∧ Core { s with
      flight := older ++ newer
      objs := update s.objs p { s.objs p with termAcks := (s.objs p).termAcks - 1 }
      phase := update s.phase c .done
      awaited := update s.awaited p ((s.awaited p).erase c) } := by
  obtain ⟨o, ho⟩ : ∃ o, o = { s.objs p with termAcks := (s.objs p).termAcks - 1 } := ⟨_, rfl⟩
  have howner : ∀ x, (update s.objs p o x).owner = (s.objs x).owner := update_field _ (by rw [ho])
  have howned : ∀ x, (update s.objs p o x).owned = (s.objs x).owned := update_field _ (by rw [ho])
  have hstops : ∀ x, (update s.objs p o x).terminating = (s.objs x).terminating := update_field _ (by rw [ho])
  have hsent : ∀ x, (update s.objs p o x).sentSeqnum = (s.objs x).sentSeqnum := update_field _ (by rw [ho])
  have hprocessed : ∀ x, (update s.objs p o x).processedSeqnum = (s.objs x).processedSeqnum :=
    update_field _ (by rw [ho])
  obtain ⟨c', p', hc, hm⟩ := (h.mail.once ⟨c, p, .termAck⟩ rfl).mp (by rw [hf]; simp)
  obtain ⟨rfl, rfl, hph⟩ := pending_inj hm (rfl : pending _ _ .acked = _)
  have hlive : ∀ x, (update s.phase c' done x).live = (s.phase x).live :=
    live_update (by rw [hph]; rfl)
  have hmem : c' ∈ s.awaited p' := (h.awaited p' c').mpr ⟨hc, by rw [hph]; rfl⟩
  have hcard := Finset.card_pos.mpr ⟨c', hmem⟩
  have hacks := h.acks p'
  refine ⟨by omega, ?_⟩
  rw [← ho]
  have hborn : s.created c' = true := by rw [h.created, hph]; rfl
  refine ⟨h.toStatus.moves hborn (fun _ _ => rfl) rfl howner ?_ (fun _ _ => rfl) ?_ (fun x _ => hstops x) ?_ (fun _ _ => rfl)
      (by simp) (fun _ => rfl) (fun _ => rfl),
    h.toFamily.moves hborn (fun _ _ => rfl) rfl howner (fun q => ?_) (fun q d _ => ?_) (fun q => ?_) (fun q => ?_) (fun q d hne => ?_)
      (fun d hd hd' => ?_) (fun _ => rfl),
    ⟨fun x => ?_, fun x => ?_, fun x hx => h.idle x (by rwa [hlive] at hx)⟩,
    h.mail.takes hf hold hc hm rfl rfl howner rfl (by rw [hph]; rfl) (fun _ => hph)⟩
  all_goals dsimp only at *
  · rw [h.deletions, hph]
    rfl
  · rw [hstops, h.terminating, hph]
    rfl
  · rw [h.terms, hph]
    rfl
  · rw [howned, h.owned, hph]
    simp
  · rw [howned]
  · rw [howned]
    exact h.nodup q
  · rcases eq_or_ne q p' with rfl | hne
    · simp [OwnPhase.awaited]
    · rw [update_of_ne hne, h.awaited, hc]
      simp [hne.symm]
  · rcases eq_or_ne q p' with rfl | hne'
    · simp [hne]
    · rw [update_of_ne hne']
  · have := h.parent d c' hd hd'
    rw [hph] at this
    cases this
  · rcases eq_or_ne x p' with rfl | hne
    · rw [update_self, update_self, Finset.card_erase_of_mem hmem, ho]
      dsimp only
      omega
    · rw [update_of_ne hne, update_of_ne hne]
      exact h.acks x
  · have hs := h.seq x
    rw [hf, due_append, due_cons] at hs
    rw [hsent, hprocessed, due_append]
    simpa [isSeq] using hs

theorem phase_terminating {ph : OwnPhase} (hl : ph.live = true) (hs : ph.stops = true) : ph = .terminating := by
  cases ph <;> simp_all [live, stops, gone]

theorem Core.quiet (h : s.Core) (hph : s.phase x = .terminating) (hx : s.Idle x) (howned : (s.objs x).owned = []) :
    (∀ c, (s.objs c).owner = some x → s.phase c = .done) ∧ (∀ m ∈ s.flight, m.dst ≠ x) ∧ s.waits x = 0 := by
  have hacks := h.acks x
  rw [hx.2] at hacks
  have hawaited : s.awaited x = ∅ := Finset.card_eq_zero.mp (by omega)
  have hdue : due s.flight x = 0 := by
    have hs := h.seq x
    rw [hx.1, UInt32.toNat_toUInt64] at hs
    omega
  have hseq : ∀ m ∈ s.flight, m.dst = x → m.cmd.isSeq = false := fun m hm hd => by
    have := countP_eq_zero.mp hdue m hm
    simpa [hd] using this
  have hdone : ∀ c, (s.objs c).owner = some x → s.phase c = .done := fun c hc => by
    have hchild := (h.child c x hc).1
    have hown := h.owned x c
    have haw := h.awaited x c
    rw [howned, hc] at hown
    rw [hawaited, hc] at haw
    cases hp : s.phase c with
    | unborn | free => simp [hp, child] at hchild
    | owning =>
      have hin := (h.mail.once ⟨x, x, .own c⟩ rfl).mpr ⟨c, x, hc, by rw [hp]; rfl⟩
      exact absurd (hseq _ hin rfl) (by simp [isSeq])
    | owned => simp [hp] at hown
    | termed | terminating | acked => simp [hp, OwnPhase.awaited] at haw
    | done => rfl
  refine ⟨hdone, fun m hm hd => ?_, by omega⟩
  have hnot := hseq m hm hd
  obtain ⟨src, dst, cmd⟩ := m
  obtain rfl : dst = x := hd
  cases cmd with
  | plug | own c | attach => cases hnot
  | termReq c =>
    obtain ⟨rfl, hc⟩ := h.mail.req _ hm c rfl
    exact h.mail.undone _ hm hc (hdone _ hc)
  | term =>
    obtain ⟨c, p, -, hm'⟩ := (h.mail.once _ rfl).mp hm
    obtain ⟨rfl, -, hp⟩ := pending_inj hm' (rfl : pending _ _ .termed = _)
    rw [hph] at hp
    cases hp
  | termAck =>
    obtain ⟨c, p, hc, hm'⟩ := (h.mail.once _ rfl).mp hm
    obtain ⟨rfl, rfl, hp⟩ := pending_inj hm' (rfl : pending _ _ .acked = _)
    rw [hdone _ hc] at hp
    cases hp

theorem Mail.acks (h : s.Mail) (hc : (s.objs x).owner = some p) (hph : s.phase x = .terminating)
    (hpx : p ≠ x) (hp : (s.phase p).live = true) (hnone : ∀ m ∈ s.flight, m.dst ≠ x)
    (hf' : s'.flight = s.flight ++ [⟨x, p, .termAck⟩]) (hp' : s'.phase = update s.phase x .acked)
    (ho : ∀ x, (s'.objs x).owner = (s.objs x).owner) : s'.Mail := by
  have hmem : ∀ n, n ∈ s'.flight ↔ n ∈ s.flight ∨ n = ⟨x, p, .termAck⟩ := fun n => by rw [hf']; simp
  have hnot : ⟨x, p, .termAck⟩ ∉ s.flight := fun hin => by
    obtain ⟨c, q, -, hm⟩ := (h.once _ rfl).mp hin
    obtain ⟨rfl, -, hph'⟩ := pending_inj hm (rfl : pending _ _ .acked = _)
    rw [hph] at hph'
    cases hph'
  refine ⟨fun n hn => ?_, fun n hn hs => ?_, fun n hn c hc' => ?_, fun n hn => ?_, ?_, ?_⟩
  · rw [hp']
    rcases (hmem n).mp hn with hn | rfl
    · rw [update_of_ne (hnone n hn)]
      exact h.live n hn
    · rwa [update_of_ne hpx]
  · rw [hp']
    rcases eq_or_ne n.src x with hx | hne
    · rw [hx]
      simp
    · rw [update_of_ne hne]
      rcases (hmem n).mp hn with hn | rfl
      · exact h.undone n hn (by rwa [← ho])
      · exact absurd rfl hne
  · rw [ho]
    rcases (hmem n).mp hn with hn | rfl
    · exact h.req n hn c hc'
    · cases hc'
  · rw [hmem, h.once n hn, hp']
    simp only [ho]
    constructor
    · rintro (⟨c, q, hcq, hm⟩ | rfl)
      · refine ⟨c, q, hcq, ?_⟩
        rw [update_of_ne]
        · exact hm
        · rintro rfl
          rw [hph] at hm
          cases hm
      · exact ⟨x, p, hc, by rw [update_self]; rfl⟩
    · rintro ⟨c, q, hcq, hm⟩
      rcases eq_or_ne c x with rfl | hne
      · rw [hc] at hcq
        cases hcq
        rw [update_self] at hm
        exact .inr (some.inj hm).symm
      · rw [update_of_ne hne] at hm
        exact .inl ⟨c, q, hcq, hm⟩
  · rw [hf', filter_append]
    refine List.Nodup.append h.nodup (nodup_singleton _) fun n hn hn' => ?_
    obtain rfl := mem_singleton.mp hn'
    exact hnot (mem_of_mem_filter hn)
  · rw [hf']
    refine pairwise_append.mpr ⟨h.last, pairwise_singleton _ _, fun a ha b hb hcmd hab => ?_⟩
    obtain rfl := mem_singleton.mp hb
    obtain ⟨src, dst, cmd⟩ := a
    obtain ⟨rfl, rfl⟩ := hab
    obtain rfl := hcmd
    exact hnot ha

theorem Core.destroyed (h : s.Core) (hc : (s.objs x).owner = some p) (hph : s.phase x = .terminating)
    (hx : s.Idle x) (howned : (s.objs x).owned = []) :
    Core { s with
      flight := s.flight ++ [⟨x, p, .termAck⟩]
      deletions := update s.deletions x (s.deletions x + 1)
      phase := update s.phase x .acked } := by
  obtain ⟨hdone, hnone, hwaits⟩ := h.quiet hph hx howned
  have hpx := (h.child x p hc).2
  have hborn : s.created x = true := by rw [h.created, hph]; rfl
  refine ⟨h.toStatus.moves hborn (fun _ _ => rfl) rfl (fun _ => rfl) ?_ (fun y hne => ?_) ?_ (fun _ _ => rfl) ?_ (fun _ _ => rfl)
      (by simp) (fun hn => by rw [hc] at hn; cases hn) (fun _ => rfl),
    h.toFamily.moves hborn (fun _ _ => rfl) rfl (fun _ => rfl) (fun q => ?_) (fun _ _ _ => Iff.rfl) h.nodup (fun q => ?_)
      (fun _ _ _ => Iff.rfl) (fun d hd hd' => absurd (hdone d hd) hd') (fun hd => by rw [hph] at hd; cases hd),
    ⟨h.acks, fun y => ?_, fun y hy => ?_⟩,
    h.mail.acks hc hph hpx (h.parent x p hc (by rw [hph]; simp)) hnone rfl rfl fun _ => rfl⟩
  all_goals dsimp only at *
  · rw [update_self, h.deletions, hph]
    rfl
  · rw [update_of_ne hne]
  · rw [h.terminating, hph]
    rfl
  · rw [h.terms, hph]
    rfl
  · rw [h.owned, hph]
    simp
  · rw [h.awaited, hph]
    simp [OwnPhase.awaited]
  · rw [due_append, due_none (l := [_]) (by simp [isSeq])]
    exact h.seq y
  · rcases eq_or_ne y x with rfl | hne
    · exact hwaits
    · rw [update_of_ne hne] at hy
      exact h.idle y hy

theorem Core.destroyed_root (h : s.Core) (hc : (s.objs x).owner = none) (hph : s.phase x = .terminating)
    (hx : s.Idle x) (howned : (s.objs x).owned = []) :
    Core { s with
      deletions := update s.deletions x (s.deletions x + 1)
      phase := update s.phase x .done } := by
  obtain ⟨hdone, hnone, hwaits⟩ := h.quiet hph hx howned
  have hborn : s.created x = true := by rw [h.created, hph]; rfl
  refine ⟨h.toStatus.moves hborn (fun _ _ => rfl) rfl (fun _ => rfl) ?_ (fun y hne => ?_) ?_ (fun _ _ => rfl) ?_ (fun _ _ => rfl)
      (by simp) (fun _ => rfl) (fun _ => rfl),
    h.toFamily.moves hborn (fun _ _ => rfl) rfl (fun _ => rfl) (fun q => ?_) (fun _ _ _ => Iff.rfl) h.nodup (fun q => ?_)
      (fun _ _ _ => Iff.rfl) (fun d hd hd' => absurd (hdone d hd) hd') (fun _ => rfl),
    ⟨h.acks, h.seq, fun y hy => ?_⟩,
    h.mail.moves rfl rfl (fun _ => rfl) hc fun m hm => by dsimp only; rw [update_of_ne (hnone m hm)]⟩
  all_goals dsimp only at *
  · rw [update_self, h.deletions, hph]
    rfl
  · rw [update_of_ne hne]
  · rw [h.terminating, hph]
    rfl
  · rw [h.terms, hc]
    rfl
  · rw [h.owned, hph]
    simp
  · rw [h.awaited, hc]
    simp
  · rcases eq_or_ne y x with rfl | hne
    · exact hwaits
    · rw [update_of_ne hne] at hy
      exact h.idle y hy

omit [DecidableEq O] in
theorem Mail.posts (h : s.Mail) (hm : m.cmd.isOnce = false) (hlive : (s.phase m.dst).live = true)
    (hsrc : (s.objs m.src).owner = some m.dst → (s.phase m.src).live = true)
    (hreq : ∀ c, m.cmd = .termReq c → c = m.src ∧ (s.objs c).owner = some m.dst)
    (hack : s.phase m.src ≠ .acked) (hf' : s'.flight = s.flight ++ [m]) (hp : s'.phase = s.phase)
    (ho : ∀ x, (s'.objs x).owner = (s.objs x).owner) : s'.Mail := by
  have hmem : ∀ n, n ∈ s'.flight ↔ n ∈ s.flight ∨ n = m := fun n => by rw [hf']; simp
  refine ⟨fun n hn => ?_, fun n hn hs => ?_, fun n hn c hc => ?_, fun n hn => ?_, ?_, ?_⟩
  · rw [hp]
    rcases (hmem n).mp hn with hn | rfl
    · exact h.live n hn
    · exact hlive
  · rw [ho] at hs
    rw [hp]
    rcases (hmem n).mp hn with hn | rfl
    · exact h.undone n hn hs
    · intro hd
      have := hsrc hs
      rw [hd] at this
      cases this
  · rw [ho]
    rcases (hmem n).mp hn with hn | rfl
    · exact h.req n hn c hc
    · exact hreq c hc
  · rw [hmem, or_iff_left (by rintro rfl; rw [hm] at hn; cases hn), h.once n hn, hp]
    simp only [ho]
  · rw [hf', filter_append, filter_cons_of_neg (by simp [hm]), filter_nil, append_nil]
    exact h.nodup
  · rw [hf']
    refine pairwise_append.mpr ⟨h.last, pairwise_singleton _ _, fun a ha b hb hcmd hab => ?_⟩
    obtain rfl := mem_singleton.mp hb
    obtain ⟨c, q, -, hm'⟩ := (h.once a (by rw [hcmd]; rfl)).mp ha
    obtain ⟨src, dst, cmd⟩ := a
    obtain rfl : cmd = .termAck := hcmd
    obtain rfl : b.src = src := hab.1
    obtain ⟨rfl, -, hph⟩ := pending_inj hm' (rfl : pending _ _ .acked = _)
    exact hack hph

theorem succ_toNat32 {n : UInt32} (h : n.toNat + 1 < 2 ^ 32) : (n + 1).toNat = n.toNat + 1 := by
  exact Nat.mod_eq_of_lt h

theorem Core.posts {src dst : O} {cmd : OwnCmd O} (h : s.Core) (hcmd : cmd = .plug ∨ cmd = .attach)
    (hdst : (s.phase dst).live = true) (hsrc : (s.phase src).live = true)
    (hlt : (s.objs dst).sentSeqnum.toNat + 1 < 2 ^ 32) :
    Core { s with
      objs := update s.objs dst { s.objs dst with sentSeqnum := (s.objs dst).sentSeqnum + 1 }
      flight := s.flight ++ [⟨src, dst, cmd⟩] } := by
  obtain ⟨o, ho⟩ : ∃ o, o = { s.objs dst with sentSeqnum := (s.objs dst).sentSeqnum + 1 } := ⟨_, rfl⟩
  have howner : ∀ x, (update s.objs dst o x).owner = (s.objs x).owner := update_field _ (by rw [ho])
  have hacks : ∀ x, (update s.objs dst o x).termAcks = (s.objs x).termAcks := update_field _ (by rw [ho])
  have hprocessed : ∀ x, (update s.objs dst o x).processedSeqnum = (s.objs x).processedSeqnum :=
    update_field _ (by rw [ho])
  have hseq : cmd.isSeq = true := by rcases hcmd with hm | hm <;> rw [hm] <;> rfl
  have honce : cmd.isOnce = false := by rcases hcmd with hm | hm <;> rw [hm] <;> rfl
  rw [← ho]
  refine ⟨h.toStatus.same rfl rfl rfl rfl (update_field (·.terminating) (by rw [ho])) howner,
    h.toFamily.same rfl rfl rfl howner (update_field (·.owned) (by rw [ho])),
    ⟨fun x => ?_, fun x => ?_, h.idle⟩,
    h.mail.posts honce hdst (fun _ => hsrc) (fun c hc => ?_) (fun hc => ?_) rfl rfl howner⟩
  all_goals dsimp only at *
  · rw [hacks]
    exact h.acks x
  · have hs := h.seq x
    rw [due_append, due_cons]
    rcases eq_or_ne x dst with rfl | hne
    · rw [update_self, ho, if_pos ⟨rfl, hseq⟩]
      rw [succ_toNat32 hlt, hs]
      rfl
    · rw [update_of_ne hne, if_neg fun hc => hne hc.1.symm]
      exact hs
  · rcases hcmd with hm | hm <;> rw [hm] at hc <;> cases hc
  · rw [hc] at hsrc
    cases hsrc

theorem Core.requests (h : s.Core) (hc : (s.objs c).owner = some p) (hl : (s.phase c).live = true)
    (hp : (s.phase p).live = true) : Core { s with flight := s.flight ++ [⟨c, p, .termReq c⟩] } := by
  refine ⟨h.toStatus.same rfl rfl rfl rfl (fun _ => rfl) fun _ => rfl,
    h.toFamily.same rfl rfl rfl (fun _ => rfl) fun _ => rfl, ⟨h.acks, fun x => ?_, h.idle⟩,
    h.mail.posts rfl hp (fun _ => hl) (fun d hd => ?_) (fun hc => ?_) rfl rfl fun _ => rfl⟩
  all_goals dsimp only at *
  · rw [due_append, due_none (l := [_]) (by simp [isSeq])]
    exact h.seq x
  · cases termReq.inj hd
    exact ⟨rfl, hc⟩
  · rw [hc] at hl
    cases hl

theorem Core.waits (h : s.Core) {n : ℕ} {k : ℤ} (hn : (n : ℤ) = s.waits x + k) (hl : (s.phase x).live = true) :
    Core { s with
      objs := update s.objs x { s.objs x with termAcks := (s.objs x).termAcks + k }
      waits := update s.waits x n } := by
  obtain ⟨o, ho⟩ : ∃ o, o = { s.objs x with termAcks := (s.objs x).termAcks + k } := ⟨_, rfl⟩
  have howner : ∀ y, (update s.objs x o y).owner = (s.objs y).owner := update_field _ (by rw [ho])
  have hsent : ∀ y, (update s.objs x o y).sentSeqnum = (s.objs y).sentSeqnum := update_field _ (by rw [ho])
  have hprocessed : ∀ y, (update s.objs x o y).processedSeqnum = (s.objs y).processedSeqnum :=
    update_field _ (by rw [ho])
  rw [← ho]
  refine ⟨h.toStatus.same rfl rfl rfl rfl (update_field (·.terminating) (by rw [ho])) howner,
    h.toFamily.same rfl rfl rfl howner (update_field (·.owned) (by rw [ho])),
    ⟨fun y => ?_, fun y => ?_, fun y hy => ?_⟩, h.mail.same rfl rfl howner⟩
  all_goals dsimp only at *
  · have hacks := h.acks y
    rcases eq_or_ne y x with rfl | hne
    · rw [update_self, update_self, ho]
      dsimp only
      omega
    · rw [update_of_ne hne, update_of_ne hne]
      exact hacks
  · rw [hsent, hprocessed]
    exact h.seq y
  · rw [update_of_ne]
    · exact h.idle y hy
    · rintro rfl
      rw [hl] at hy
      cases hy

theorem Core.unborn (h : s.Core) (hx : s.created x = false) : s.phase x = .unborn ∧ (s.objs x).owner = none ∧
    (∀ c, (s.objs c).owner ≠ some x) ∧ (s.objs x).owned = [] ∧ s.awaited x = ∅ ∧ s.waits x = 0 ∧
    ∀ m ∈ s.flight, m.dst ≠ x := by
  have hph : s.phase x = .unborn := by
    have := h.created x
    rw [hx] at this
    simpa using this.symm
  have hno : ∀ c, (s.objs c).owner ≠ some x := fun c hc => by
    have := h.born c x hc
    rw [hx] at this
    cases this
  refine ⟨hph, ?_, hno, ?_, ?_, h.idle x (by rw [hph]; rfl), fun m hm hd => ?_⟩
  · cases ho : (s.objs x).owner with
    | none => rfl
    | some p =>
      have := (h.child x p ho).1
      rw [hph] at this
      cases this
  · exact eq_nil_iff_forall_not_mem.mpr fun c hc => hno c ((h.owned x c).mp hc).1
  · exact Finset.eq_empty_iff_forall_notMem.mpr fun c hc => hno c ((h.awaited x c).mp hc).1
  · have := h.mail.live m hm
    rw [hd, hph] at this
    cases this

theorem Core.created_root (h : s.Core) (hx : s.created x = false) : (s.create x .free).Core := by
  obtain ⟨hph, hnone, hno, howned, hawaited, hwaits, hflight⟩ := h.unborn hx
  have howner : ∀ y, (update s.objs x OwnT.new y).owner = (s.objs y).owner :=
    update_field (·.owner) (by rw [hnone]; rfl)
  have howned' : ∀ y, (update s.objs x OwnT.new y).owned = (s.objs y).owned :=
    update_field (·.owned) (by rw [howned]; rfl)
  have hstops : ∀ y, (update s.objs x OwnT.new y).terminating = (s.objs y).terminating :=
    update_field (·.terminating) (by rw [h.terminating, hph]; rfl)
  unfold create
  refine ⟨h.toStatus.moves ?_ (fun y hne => ?_) rfl howner ?_ (fun _ _ => rfl) ?_ (fun y _ => hstops y) ?_
      (fun _ _ => rfl) (by simp) (fun _ => rfl) (fun hn => absurd hnone hn),
    h.toFamily.moves ?_ (fun y hne => ?_) rfl howner (fun q => ?_) (fun q d _ => ?_) (fun q => ?_) (fun q => ?_)
      (fun _ _ _ => Iff.rfl) (fun d hd => absurd hd (hno d)) (fun hd => by rw [hph] at hd; cases hd),
    ⟨fun y => ?_, fun y => ?_, fun y hy => ?_⟩,
    h.mail.moves rfl rfl howner hnone fun m hm => by dsimp only; rw [update_of_ne (hflight m hm)]⟩
  all_goals dsimp only at *
  · rw [update_self]
  · rw [update_of_ne hne]
  · rw [h.deletions, hph]
    rfl
  · rw [hstops, h.terminating, hph]
    rfl
  · rw [h.terms, hnone]
    rfl
  · rw [update_self]
  · rw [update_of_ne hne]
  · rw [howned', h.owned, hph]
    simp
  · rw [howned']
  · rw [howned']
    exact h.nodup q
  · rw [h.awaited, hph]
    simp [OwnPhase.awaited]
  · rcases eq_or_ne y x with rfl | hne
    · rw [update_self, hawaited, hwaits]
      rfl
    · rw [update_of_ne hne]
      exact h.acks y
  · rcases eq_or_ne y x with rfl | hne
    · have hdue : due s.flight y = 0 := countP_eq_zero.mpr fun m hm => by simp [hflight m hm]
      rw [update_self, hdue]
      rfl
    · rw [update_of_ne hne]
      exact h.seq y
  · rcases eq_or_ne y x with rfl | hne
    · exact hwaits
    · rw [update_of_ne hne] at hy
      exact h.idle y hy

def launched (s : Tree O) (p c : O) : Tree O :=
  { s with
    objs := update (update s.objs c ⟨false, 1, 0, some p, [], 0⟩) p
      { s.objs p with sentSeqnum := (s.objs p).sentSeqnum + 1 }
    created := update s.created c true
    phase := update s.phase c .owning
    flight := s.flight ++ [⟨p, c, .plug⟩, ⟨p, p, .own c⟩] }

theorem launched_field {β : Type*} (f : OwnT O → β) (hf : ∀ o : OwnT O, f { o with sentSeqnum := o.sentSeqnum + 1 } = f o)
    (hx : x ≠ c) : f ((s.launched p c).objs x) = f (s.objs x) := by
  unfold launched
  dsimp only
  rcases eq_or_ne x p with rfl | hxp
  · rw [update_self, hf]
  · rw [update_of_ne hxp, update_of_ne hx]

section

variable (h : s.Core) (hc : s.created c = false) (hp : (s.phase p).live = true)

include h hc hp

theorem Core.launched_ne : p ≠ c := by
  rintro rfl
  have hph := (h.unborn hc).1
  rw [hph] at hp
  cases hp

theorem Core.launched_child : (s.launched p c).objs c = ⟨false, 1, 0, some p, [], 0⟩ := by
  have hne := h.launched_ne hc hp
  unfold launched
  dsimp only
  rw [update_of_ne hne.symm, update_self]

theorem Core.launched_owner {q : O} : ((s.launched p c).objs x).owner = some q ↔
    if x = c then q = p else (s.objs x).owner = some q := by
  split_ifs with hx
  · rw [hx, h.launched_child hc hp]
    exact ⟨fun hq => (some.inj hq).symm, fun hq => by rw [hq]⟩
  · rw [launched_field (·.owner) (fun _ => rfl) hx]

theorem Core.launched_mail : (s.launched p c).Mail := by
  obtain ⟨hph, hnone, hno, -, -, -, hflight⟩ := h.unborn hc
  have hne := h.launched_ne hc hp
  have howner : ∀ x q, _ := fun x q => h.launched_owner hc hp (x := x) (q := q)
  have hmem : ∀ n, n ∈ (s.launched p c).flight ↔ n ∈ s.flight ∨ n = ⟨p, c, .plug⟩ ∨ n = ⟨p, p, .own c⟩ := fun n => by
    unfold launched
    simp
  have hphase : ∀ x ≠ c, (s.launched p c).phase x = s.phase x := fun x hx => update_of_ne hx _ _
  have hphase' : (s.launched p c).phase c = .owning := update_self _ _ _
  have hnot : ⟨p, p, .own c⟩ ∉ s.flight := fun hin => by
    obtain ⟨c', q, -, hm⟩ := (h.mail.once _ rfl).mp hin
    obtain ⟨rfl, -, hph'⟩ := pending_inj hm (rfl : pending _ _ .owning = _)
    rw [hph] at hph'
    cases hph'
  refine ⟨fun n hn => ?_, fun n hn hs => ?_, fun n hn d hd => ?_, fun n hn => ?_, ?_, ?_⟩
  · rcases (hmem n).mp hn with hn | rfl | rfl
    · rw [hphase _ (hflight n hn)]
      exact h.mail.live n hn
    · rw [hphase']
      rfl
    · rwa [hphase _ hne]
  · rcases eq_or_ne n.src c with hx | hx
    · rw [hx, hphase']
      simp
    · rw [hphase _ hx]
      rw [howner, if_neg hx] at hs
      rcases (hmem n).mp hn with hn | rfl | rfl
      · exact h.mail.undone n hn hs
      · exact absurd hs (hno p)
      · exact absurd rfl (h.child p p hs).2
  · rcases (hmem n).mp hn with hn | rfl | rfl
    · obtain ⟨rfl, hd'⟩ := h.mail.req n hn d hd
      refine ⟨rfl, (howner _ _).mpr ?_⟩
      rw [if_neg]
      · exact hd'
      · intro hx
        rw [hx, hnone] at hd'
        cases hd'
    · cases hd
    · cases hd
  · rw [hmem, h.mail.once n hn]
    constructor
    · rintro (⟨d, q, hd, hm⟩ | rfl | rfl)
      · have hdc : d ≠ c := by
          rintro rfl
          rw [hnone] at hd
          cases hd
        exact ⟨d, q, by rwa [howner, if_neg hdc], by rwa [hphase d hdc]⟩
      · cases hn
      · exact ⟨c, p, by rw [howner, if_pos rfl], by rw [hphase']; rfl⟩
    · rintro ⟨d, q, hd, hm⟩
      rw [howner] at hd
      split_ifs at hd with hdc
      · rw [hd, hdc, hphase'] at hm
        exact .inr (.inr (some.inj hm).symm)
      · rw [hphase d hdc] at hm
        exact .inl ⟨d, q, hd, hm⟩
  · unfold launched
    rw [filter_append]
    refine List.Nodup.append h.mail.nodup (by simp [isOnce]) fun n hn hn' => ?_
    rcases mem_pair.mp (mem_of_mem_filter hn') with rfl | rfl
    · simp [isOnce] at hn'
    · exact hnot (mem_of_mem_filter hn)
  · refine pairwise_append.mpr ⟨h.mail.last, by simp, fun a ha b hb hcmd hab => ?_⟩
    obtain ⟨d, q, -, hm⟩ := (h.mail.once a (by rw [hcmd]; rfl)).mp ha
    obtain ⟨src, dst, cmd⟩ := a
    obtain rfl : cmd = .termAck := hcmd
    obtain rfl : src = p := by rcases mem_pair.mp hb with rfl | rfl <;> exact hab.1.symm
    obtain ⟨rfl, -, hph'⟩ := pending_inj hm (rfl : pending _ _ .acked = _)
    rw [hph'] at hp
    cases hp

theorem Core.launches (hlt : (s.objs p).sentSeqnum.toNat + 1 < 2 ^ 32) : (s.launched p c).Core := by
  obtain ⟨hph, hnone, hno, howned, hawaited, hwaits, hflight⟩ := h.unborn hc
  have hne := h.launched_ne hc hp
  have howner : ∀ x q, _ := fun x q => h.launched_owner hc hp (x := x) (q := q)
  have hchild := h.launched_child hc hp
  have hphase : ∀ x ≠ c, (s.launched p c).phase x = s.phase x := fun x hx => update_of_ne hx _ _
  have hphase' : (s.launched p c).phase c = .owning := update_self _ _ _
  have hcreated : ∀ x ≠ c, (s.launched p c).created x = s.created x := fun x hx => update_of_ne hx _ _
  have hcreated' : (s.launched p c).created c = true := update_self _ _ _
  refine ⟨⟨fun x => ?_, fun x => ?_, fun x => ?_, fun x => ?_, fun x hx => ?_, fun x q hx => ?_⟩,
    ⟨fun q d => ?_, fun q => ?_, fun q d => ?_, fun d q hd hd' => ?_, fun d q hd => ?_, ?_⟩,
    ⟨fun x => ?_, fun x => ?_, fun x hx => ?_⟩, h.launched_mail hc hp⟩
  · rcases eq_or_ne x c with rfl | hx
    · rw [hcreated', hphase']
      rfl
    · rw [hcreated x hx, hphase x hx, h.created]
  · rcases eq_or_ne x c with rfl | hx
    · rw [hphase']
      exact (h.deletions x).trans (by rw [hph]; rfl)
    · rw [hphase x hx]
      exact h.deletions x
  · rcases eq_or_ne x c with rfl | hx
    · rw [hphase', hchild]
      rfl
    · rw [hphase x hx, launched_field (·.terminating) (fun _ => rfl) hx]
      exact h.terminating x
  · rcases eq_or_ne x c with rfl | hx
    · rw [hphase', hchild]
      exact (h.terms x).trans (by rw [hnone]; rfl)
    · rw [hphase x hx, launched_field (·.owner) (fun _ => rfl) hx]
      exact h.terms x
  · rcases eq_or_ne x c with rfl | hxc
    · rw [hchild] at hx
      cases hx
    · rw [launched_field (·.owner) (fun _ => rfl) hxc] at hx
      rw [hphase x hxc]
      exact h.root x hx
  · rw [howner] at hx
    split_ifs at hx with hxc
    · rw [hx, hxc, hphase']
      exact ⟨rfl, hne⟩
    · rw [hphase x hxc]
      exact h.child x q hx
  · rw [howner]
    rcases eq_or_ne q c with rfl | hq
    · rw [hchild]
      simp only [not_mem_nil, false_iff, not_and]
      intro hd
      split_ifs at hd with hdc
      · exact absurd hd.symm hne
      · exact absurd hd (hno d)
    · rw [launched_field (·.owned) (fun _ => rfl) hq, h.owned]
      rcases eq_or_ne d c with rfl | hd
      · rw [hnone, hphase']
        simp
      · rw [if_neg hd, hphase d hd]
  · rcases eq_or_ne q c with rfl | hq
    · rw [hchild]
      exact nodup_nil
    · rw [launched_field (·.owned) (fun _ => rfl) hq]
      exact h.nodup q
  · rw [howner]
    have hiff : d ∈ (s.launched p c).awaited q ↔ _ := h.awaited q d
    rcases eq_or_ne d c with rfl | hd
    · rw [hnone] at hiff
      rw [hphase']
      simpa [OwnPhase.awaited] using hiff
    · rw [if_neg hd, hphase d hd]
      exact hiff
  · rw [howner] at hd
    split_ifs at hd with hdc
    · rw [hd, hphase p hne]
      exact hp
    · rw [hphase d hdc] at hd'
      have hq := h.parent d q hd hd'
      rw [hphase q]
      · exact hq
      · rintro rfl
        exact hno d hd
  · rw [howner] at hd
    split_ifs at hd with hdc
    · rw [hd, hcreated p hne, h.created]
      exact decide_eq_true fun hu => by rw [hu] at hp; cases hp
    · rcases eq_or_ne q c with rfl | hq
      · exact hcreated'
      · rw [hcreated q hq]
        exact h.born d q hd
  · obtain ⟨rank, bound, hb, hr⟩ := h.rank
    have hcp : s.created p = true := by
      rw [h.created]
      exact decide_eq_true fun hu => by rw [hu] at hp; cases hp
    refine ⟨update rank c bound, bound + 1, fun x hx => ?_, fun d q hd => ?_⟩
    · rcases eq_or_ne x c with rfl | hxc
      · rw [update_self]
        exact Nat.lt_succ_self _
      · rw [update_of_ne hxc]
        rw [hcreated x hxc] at hx
        exact Nat.lt_succ_of_lt (hb x hx)
    · rw [howner] at hd
      split_ifs at hd with hdc
      · rw [hd, hdc, update_self, update_of_ne hne]
        exact hb p hcp
      · have hq : q ≠ c := by
          rintro rfl
          exact hno d hd
        rw [update_of_ne hdc, update_of_ne hq]
        exact hr d q hd
  · rcases eq_or_ne x c with rfl | hx
    · rw [hchild]
      change (0 : ℤ) = (s.awaited x).card + s.waits x
      rw [hawaited, hwaits]
      rfl
    · rw [launched_field (·.termAcks) (fun _ => rfl) hx]
      exact h.acks x
  · have hdue : due (s.launched p c).flight x =
        due s.flight x + (if c = x then 1 else 0) + if p = x then 1 else 0 := by
      unfold launched
      rw [due_append, due_cons]
      simp [due, isSeq]
      omega
    rw [hdue]
    rcases eq_or_ne x c with rfl | hx
    · have hzero : due s.flight x = 0 := countP_eq_zero.mpr fun m hm => by simp [hflight m hm]
      rw [hchild, hzero, if_pos rfl, if_neg hne]
      rfl
    · have hs := h.seq x
      rw [launched_field (·.processedSeqnum) (fun _ => rfl) hx, if_neg hx.symm]
      rcases eq_or_ne x p with rfl | hxp
      · have hsent : ((s.launched x c).objs x).sentSeqnum = (s.objs x).sentSeqnum + 1 := by
          unfold launched
          dsimp only
          rw [update_self]
        rw [hsent, succ_toNat32 hlt, if_pos rfl]
        omega
      · have hsent : (s.launched p c).objs x = s.objs x := by
          unfold launched
          dsimp only
          rw [update_of_ne hxp, update_of_ne hx]
        rw [hsent, if_neg hxp.symm]
        omega
  · rcases eq_or_ne x c with rfl | hxc
    · exact hwaits
    · rw [hphase x hxc] at hx
      exact h.idle x hx

end

def ask (s : Tree O) (p : O) (l : List O) : Tree O :=
  { s with
    objs := update s.objs p { s.objs p with
      owned := (s.objs p).owned.filter fun c => c ∉ l, termAcks := (s.objs p).termAcks + l.length }
    flight := s.flight ++ l.map fun c => ⟨p, c, .term⟩
    terms := fun c => s.terms c + l.count c
    phase := fun c => if c ∈ l then .termed else s.phase c
    awaited := update s.awaited p (s.awaited p ∪ l.toFinset) }

theorem ask_live {l : List O} (hl : ∀ c ∈ l, s.phase c = .owned) (x : O) : ((s.ask p l).phase x).live = (s.phase x).live := by
  change (if x ∈ l then termed else s.phase x).live = _
  split_ifs with hx
  · rw [hl x hx]
    rfl
  · rfl

theorem Core.ask {l : List O} (h : s.Core) (hp : (s.phase p).live = true) (hn : l.Nodup)
    (hl : ∀ c ∈ l, c ∈ (s.objs p).owned) : (s.ask p l).Core := by
  have hchild : ∀ c ∈ l, (s.objs c).owner = some p ∧ s.phase c = .owned := fun c hc => (h.owned p c).mp (hl c hc)
  have hlive := ask_live (p := p) fun c hc => (hchild c hc).2
  obtain ⟨o, ho⟩ : ∃ o, o = { s.objs p with
      owned := (s.objs p).owned.filter fun c => c ∉ l, termAcks := (s.objs p).termAcks + l.length } := ⟨_, rfl⟩
  have howner : ∀ x, (update s.objs p o x).owner = (s.objs x).owner := update_field _ (by rw [ho])
  have hterminating : ∀ x, (update s.objs p o x).terminating = (s.objs x).terminating :=
    update_field _ (by rw [ho])
  have hsent : ∀ x, (update s.objs p o x).sentSeqnum = (s.objs x).sentSeqnum := update_field _ (by rw [ho])
  have hprocessed : ∀ x, (update s.objs p o x).processedSeqnum = (s.objs x).processedSeqnum :=
    update_field _ (by rw [ho])
  have hpdone : s.phase p ≠ .done := fun hc => by rw [hc] at hp; exact Bool.false_ne_true hp
  unfold Tree.ask at hlive ⊢
  rw [← ho] at hlive ⊢
  refine ⟨⟨fun x => ?_, fun x => ?_, fun x => ?_, fun x => ?_, fun x hx => ?_, fun x q hx => ?_⟩,
    ⟨fun q c => ?_, fun q => ?_, fun q c => ?_, fun c q hc hd => ?_, fun c q hc => ?_, ?_⟩,
    ⟨fun x => ?_, fun x => ?_, fun x hx => h.idle x (by rwa [hlive] at hx)⟩,
    ⟨fun n hn => ?_, fun n hn hs => ?_, fun n hn c hc => ?_, fun n hn => ?_, ?_, ?_⟩⟩
  all_goals dsimp only at *
  · rw [h.created]
    split_ifs with hx
    · rw [(hchild x hx).2]
      rfl
    · rfl
  · rw [h.deletions]
    split_ifs with hx <;> simp_all [gone]
  · rw [hterminating, h.terminating]
    split_ifs with hx
    · rw [(hchild x hx).2]
      rfl
    · rfl
  · rw [howner, h.terms]
    by_cases hx : x ∈ l
    · obtain ⟨hown, hph⟩ := hchild x hx
      rw [if_pos hx, count_eq_one_of_mem hn hx, hown, hph]
      rfl
    · rw [if_neg hx, count_eq_zero_of_not_mem hx, Nat.add_zero]
  · rw [howner] at hx
    split_ifs with hxl
    · rw [(hchild x hxl).1] at hx
      cases hx
    · exact h.root x hx
  · rw [howner] at hx
    refine ⟨?_, (h.child x q hx).2⟩
    split_ifs
    · rfl
    · exact (h.child x q hx).1
  · rw [howner]
    have hiff := h.owned q c
    by_cases hc : c ∈ l
    · obtain ⟨hown, -⟩ := hchild c hc
      rw [if_pos hc]
      refine ⟨fun hq => ?_, fun hq => absurd hq.2 (by simp)⟩
      rcases eq_or_ne q p with rfl | hne
      · rw [update_self, ho] at hq
        have := of_mem_filter hq
        simp [hc] at this
      · rw [update_of_ne hne] at hq
        exact absurd (some.inj (hown.symm.trans (hiff.mp hq).1)).symm hne
    · rw [if_neg hc, ← hiff]
      rcases eq_or_ne q p with rfl | hne
      · rw [ho]
        simp [hc]
      · rw [update_of_ne hne]
  · rcases eq_or_ne q p with rfl | hne
    · rw [update_self, ho]
      exact (h.nodup q).filter _
    · rw [update_of_ne hne]
      exact h.nodup q
  · rw [howner]
    have hiff := h.awaited q c
    by_cases hc : c ∈ l
    · obtain ⟨hown, hph⟩ := hchild c hc
      rcases eq_or_ne q p with rfl | hne
      · simp [hc, hown, OwnPhase.awaited]
      · rw [update_of_ne hne, hiff, hown]
        simp [hne.symm]
    · rw [if_neg hc, ← hiff]
      rcases eq_or_ne q p with rfl | hne
      · simp [hc]
      · rw [update_of_ne hne]
  · rw [howner] at hc
    rw [hlive]
    refine h.parent c q hc fun hdone => hd ?_
    rw [if_neg fun hcl => by rw [(hchild c hcl).2] at hdone; cases hdone]
    exact hdone
  · rw [howner] at hc
    exact h.born c q hc
  · obtain ⟨rank, bound, hb, hr⟩ := h.rank
    exact ⟨rank, bound, hb, fun c p hcp => hr c p (by rwa [← howner])⟩
  · rcases eq_or_ne x p with rfl | hne
    · have hdisjoint : Disjoint (s.awaited x) l.toFinset := Finset.disjoint_left.mpr fun c hc hcl => by
        have hph := ((h.awaited x c).mp hc).2
        rw [(hchild c (mem_toFinset.mp hcl)).2] at hph
        exact Bool.false_ne_true hph
      rw [update_self, update_self, Finset.card_union_of_disjoint hdisjoint,
        toFinset_card_of_nodup hn, ho]
      dsimp only
      rw [h.acks x]
      omega
    · rw [update_of_ne hne, update_of_ne hne]
      exact h.acks x
  · have hnone : due (l.map fun c => (⟨p, c, .term⟩ : Packet O (OwnCmd O))) x = 0 := due_none fun m hm => by
      obtain ⟨c, -, rfl⟩ := mem_map.mp hm
      rfl
    rw [due_append, hnone, hsent, hprocessed]
    exact h.seq x
  · rw [hlive]
    rcases mem_append.mp hn with hn | hn
    · exact h.mail.live n hn
    · obtain ⟨c, hc, rfl⟩ := mem_map.mp hn
      rw [(hchild c hc).2]
      rfl
  · split_ifs with hl'
    · simp
    · rcases mem_append.mp hn with hn | hn
      · exact h.mail.undone n hn (by rwa [howner] at hs)
      · obtain ⟨c, -, rfl⟩ := mem_map.mp hn
        exact hpdone
  · rw [howner]
    rcases mem_append.mp hn with hn | hn
    · exact h.mail.req n hn c hc
    · obtain ⟨c', -, rfl⟩ := mem_map.mp hn
      cases hc
  · simp only [howner]
    rw [mem_append, h.mail.once n hn]
    constructor
    · rintro (⟨c, q, hc, hm⟩ | hm)
      · refine ⟨c, q, hc, ?_⟩
        rw [if_neg fun hcl => by rw [(hchild c hcl).2] at hm; cases hm]
        exact hm
      · obtain ⟨c, hc, rfl⟩ := mem_map.mp hm
        refine ⟨c, p, (hchild c hc).1, ?_⟩
        rw [if_pos hc]
        rfl
    · rintro ⟨c, q, hc, hm⟩
      split_ifs at hm with hcl
      · rw [(hchild c hcl).1] at hc
        cases hc
        exact .inr (mem_map.mpr ⟨c, hcl, some.inj hm⟩)
      · exact .inl ⟨c, q, hc, hm⟩
  · rw [filter_append]
    refine List.Nodup.append h.mail.nodup ((hn.map fun a b hab => ?_).filter _) fun n hn hn' => ?_
    · simpa using hab
    · obtain ⟨hn, ho'⟩ := mem_filter.mp hn
      obtain ⟨hn', -⟩ := mem_filter.mp hn'
      obtain ⟨c, hc, rfl⟩ := mem_map.mp hn'
      obtain ⟨c', q, hc', hm'⟩ := (h.mail.once _ ho').mp hn
      obtain ⟨rfl, -, hph⟩ := pending_inj hm' (rfl : pending _ _ .termed = _)
      rw [(hchild c' hc).2] at hph
      cases hph
  · refine pairwise_append.mpr ⟨h.mail.last, ?_, fun a ha b hb hcmd hc => ?_⟩
    · refine pairwise_of_forall_mem_list fun a ha b hb hcmd => ?_
      obtain ⟨c, -, rfl⟩ := mem_map.mp ha
      cases hcmd
    · obtain ⟨c, -, rfl⟩ := mem_map.mp hb
      obtain ⟨c', q, hc', hm'⟩ := (h.mail.once a (by rw [hcmd]; rfl)).mp ha
      have hgone : s.phase p = .acked := by
        obtain ⟨src, dst, cmd⟩ := a
        obtain rfl : cmd = .termAck := hcmd
        obtain rfl : p = src := hc.1
        obtain ⟨rfl, -, hph⟩ := pending_inj hm' (rfl : pending _ _ .acked = _)
        exact hph
      rw [hgone] at hp
      exact Bool.false_ne_true hp

end Tree

end Zmq
