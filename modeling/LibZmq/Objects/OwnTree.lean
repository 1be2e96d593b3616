import LibZmq.Objects.Own

/-! Trees of objects over whole runs. What is in flight and what an object counts follow from where its children are
in their lives. -/

namespace Zmq

open List Option

open Function (update update_of_ne update_self)

universe u

namespace OwnPhase

def awaited : OwnPhase → Bool
  | .termed | .terminating | .acked => true
  | _ => false

def told : OwnPhase → Bool
  | .termed | .terminating | .acked | .done => true
  | _ => false

def stops : OwnPhase → Bool
  | .terminating | .acked | .done => true
  | _ => false

def gone : OwnPhase → Bool
  | .acked | .done => true
  | _ => false

def live (p : OwnPhase) : Bool := p ≠ .unborn && !p.gone

def child : OwnPhase → Bool
  | .unborn | .free => false
  | _ => true

def root : OwnPhase → Bool
  | .unborn | .free | .terminating | .done => true
  | _ => false

end OwnPhase

namespace OwnCmd

variable {O : Type u}

def pending (p c : O) : OwnPhase → Option (Packet O (OwnCmd O))
  | .owning => some ⟨p, p, .own c⟩
  | .termed => some ⟨p, c, .term⟩
  | .acked => some ⟨c, p, .termAck⟩
  | _ => none

def isSeq : OwnCmd O → Bool
  | .plug | .own _ | .attach => true
  | _ => false

def isOnce : OwnCmd O → Bool
  | .own _ | .term | .termAck => true
  | _ => false

variable {p p' c c' : O} {ph ph' : OwnPhase} {m : Packet O (OwnCmd O)}

theorem pending_once (h : pending p c ph = some m) : m.cmd.isOnce = true := by
  cases ph <;> simp only [pending, reduceCtorEq, some.injEq] at h <;> subst h <;> rfl

theorem pending_inj (h : pending p c ph = some m) (h' : pending p' c' ph' = some m) : c = c' ∧ p = p' ∧ ph = ph' := by
  cases ph <;> simp only [pending, reduceCtorEq, some.injEq] at h <;> subst h <;> cases ph' <;>
    simp_all [pending]

theorem pending_own {x y d : O} (h : pending p c ph = some ⟨x, y, .own d⟩) : x = p ∧ y = p ∧ d = c ∧ ph = .owning := by
  cases ph <;> cases h
  exact ⟨rfl, rfl, rfl, rfl⟩

theorem pending_term {x y : O} (h : pending p c ph = some ⟨x, y, .term⟩) : x = p ∧ y = c ∧ ph = .termed := by
  cases ph <;> cases h
  exact ⟨rfl, rfl, rfl⟩

theorem pending_ack {x y : O} (h : pending p c ph = some ⟨x, y, .termAck⟩) : x = c ∧ y = p ∧ ph = .acked := by
  cases ph <;> cases h
  exact ⟨rfl, rfl, rfl⟩

end OwnCmd

namespace Tree

variable {O : Type u} {s s' : Tree O} {x y p c : O} {m : Packet O (OwnCmd O)} {ph : OwnPhase}

def termsAt (owner : Option O) (phase : OwnPhase) : ℕ :=
  match owner with
  | none => 0
  | some _ => if phase.told then 1 else 0

structure Status (s : Tree O) : Prop where
  created : ∀ x, s.created x = decide (s.phase x ≠ .unborn)
  deletions : ∀ x, s.deletions x = if (s.phase x).gone then 1 else 0
  terminating : ∀ x, (s.objs x).terminating = (s.phase x).stops
  terms : ∀ x, s.terms x = termsAt (s.objs x).owner (s.phase x)
  root : ∀ x, (s.objs x).owner = none → (s.phase x).root = true
  child : ∀ x p, (s.objs x).owner = some p → (s.phase x).child = true ∧ p ≠ x

/-- What an owner stores follows from the phases of its children, and it is there as long as one of them is not done. -/
structure Family (s : Tree O) : Prop where
  owned : ∀ p c, c ∈ (s.objs p).owned ↔ (s.objs c).owner = some p ∧ s.phase c = .owned
  nodup : ∀ p, (s.objs p).owned.Nodup
  awaited : ∀ p c, c ∈ s.awaited p ↔ (s.objs c).owner = some p ∧ (s.phase c).awaited = true
  parent : ∀ c p, (s.objs c).owner = some p → s.phase c ≠ .done → (s.phase p).live = true
  born : ∀ c p, (s.objs c).owner = some p → s.created p = true
  /-- no object is its own ancestor -/
  rank : ∃ (rank : O → ℕ) (bound : ℕ), (∀ x, s.created x = true → rank x < bound) ∧
    ∀ c p, (s.objs c).owner = some p → rank p < rank c

def due [DecidableEq O] (l : List (Packet O (OwnCmd O))) (x : O) : ℕ := l.countP fun m => m.dst = x ∧ m.cmd.isSeq

structure Counters [DecidableEq O] (s : Tree O) : Prop where
  acks : ∀ x, (s.objs x).termAcks = (s.awaited x).card + s.waits x
  seq : ∀ x, (s.objs x).sentSeqnum.toNat = (s.objs x).processedSeqnum.toNat + due s.flight x
  idle : ∀ x, (s.phase x).live = false → s.waits x = 0

structure Mail (s : Tree O) : Prop where
  live : ∀ m ∈ s.flight, (s.phase m.dst).live = true
  undone : ∀ m ∈ s.flight, (s.objs m.src).owner = some m.dst → s.phase m.src ≠ .done
  req : ∀ m ∈ s.flight, ∀ c, m.cmd = .termReq c → c = m.src ∧ (s.objs c).owner = some m.dst
  once : ∀ m : Packet O (OwnCmd O), m.cmd.isOnce = true →
    (m ∈ s.flight ↔ ∃ c p, (s.objs c).owner = some p ∧ OwnCmd.pending p c (s.phase c) = some m)
  nodup : (s.flight.filter fun m => m.cmd.isOnce).Nodup
  last : s.flight.Pairwise fun a b => a.cmd = .termAck → ¬ (b.src = a.src ∧ b.dst = a.dst)

structure Core [DecidableEq O] (s : Tree O) : Prop extends Status s, Family s, Counters s where
  mail : s.Mail

def Idle (s : Tree O) (x : O) : Prop :=
  (s.objs x).processedSeqnum = (s.objs x).sentSeqnum.toUInt64 ∧ (s.objs x).termAcks = 0

def Settled (s : Tree O) (x : O) : Prop :=
  (s.phase x).live = true → (s.objs x).terminating = true → (s.objs x).owned = [] ∧ ¬ s.Idle x

structure Sound [DecidableEq O] (s : Tree O) : Prop extends Core s where
  settled : ∀ x, s.Settled x

theorem Status.alive_iff (h : s.Status) : s.Alive x ↔ (s.phase x).live = true := by
  unfold Alive OwnPhase.live
  rw [h.created, h.deletions]
  cases s.phase x <;> simp [OwnPhase.gone]

theorem Status.same (h : s.Status) (hc : s'.created = s.created) (hd : s'.deletions = s.deletions)
    (ht : s'.terms = s.terms) (hp : s'.phase = s.phase) (hs : ∀ x, (s'.objs x).terminating = (s.objs x).terminating)
    (ho : ∀ x, (s'.objs x).owner = (s.objs x).owner) : s'.Status := by
  refine ⟨fun x => ?_, fun x => ?_, fun x => ?_, fun x => ?_, fun x => ?_, fun x p => ?_⟩
  · rw [hc, hp]
    exact h.created x
  · rw [hd, hp]
    exact h.deletions x
  · rw [hs, hp]
    exact h.terminating x
  · rw [ht, ho, hp]
    exact h.terms x
  · rw [ho, hp]
    exact h.root x
  · rw [ho, hp]
    exact h.child x p

theorem Family.same (h : s.Family) (hc : s'.created = s.created) (hp : s'.phase = s.phase)
    (ha : s'.awaited = s.awaited) (ho : ∀ x, (s'.objs x).owner = (s.objs x).owner)
    (hl : ∀ x, (s'.objs x).owned = (s.objs x).owned) : s'.Family := by
  refine ⟨fun p c => ?_, fun p => ?_, fun p c => ?_, fun c p => ?_, fun c p => ?_, ?_⟩
  · rw [hl, ho, hp]
    exact h.owned p c
  · rw [hl]
    exact h.nodup p
  · rw [ha, ho, hp]
    exact h.awaited p c
  · rw [ho, hp]
    exact h.parent c p
  · rw [ho, hc]
    exact h.born c p
  · obtain ⟨rank, bound, hb, hr⟩ := h.rank
    exact ⟨rank, bound, by rwa [hc], fun c p hcp => hr c p (by rwa [← ho])⟩

theorem Status.moves [DecidableEq O] (h : s.Status) (hc : s'.created c = true) (hc' : ∀ x ≠ c, s'.created x = s.created x)
    (hp : s'.phase = update s.phase c ph) (ho : ∀ x, (s'.objs x).owner = (s.objs x).owner)
    (hd : s'.deletions c = if ph.gone then 1 else 0) (hd' : ∀ x ≠ c, s'.deletions x = s.deletions x)
    (hs : (s'.objs c).terminating = ph.stops) (hs' : ∀ x ≠ c, (s'.objs x).terminating = (s.objs x).terminating)
    (ht : s'.terms c = termsAt (s.objs c).owner ph) (ht' : ∀ x ≠ c, s'.terms x = s.terms x)
    (hborn : ph ≠ .unborn) (hroot : (s.objs c).owner = none → ph.root = true)
    (hchild : (s.objs c).owner ≠ none → ph.child = true) : s'.Status := by
  refine ⟨fun x => ?_, fun x => ?_, fun x => ?_, fun x => ?_, fun x hx => ?_, fun x q hx => ?_⟩
  all_goals rcases eq_or_ne x c with rfl | hne
  · rw [hc, hp, update_self, decide_eq_true hborn]
  · rw [hc' x hne, hp, h.created, update_of_ne hne]
  · rw [hd, hp, update_self]
  · rw [hd' x hne, hp, update_of_ne hne]
    exact h.deletions x
  · rw [hs, hp, update_self]
  · rw [hs' x hne, hp, update_of_ne hne]
    exact h.terminating x
  · rw [ht, hp, ho, update_self]
  · rw [ht' x hne, hp, ho, update_of_ne hne]
    exact h.terms x
  · rw [hp, update_self]
    exact hroot (by rwa [ho] at hx)
  · rw [hp, update_of_ne hne]
    exact h.root x (by rwa [ho] at hx)
  · rw [ho] at hx
    rw [hp, update_self]
    exact ⟨hchild (by rw [hx]; simp), (h.child x q hx).2⟩
  · rw [ho] at hx
    rw [hp, update_of_ne hne]
    exact h.child x q hx

theorem Family.moves [DecidableEq O] (h : s.Family) (hc : s'.created c = true) (hc' : ∀ x ≠ c, s'.created x = s.created x)
    (hp : s'.phase = update s.phase c ph) (ho : ∀ x, (s'.objs x).owner = (s.objs x).owner)
    (hown : ∀ q, c ∈ (s'.objs q).owned ↔ (s.objs c).owner = some q ∧ ph = .owned)
    (hown' : ∀ q d, d ≠ c → (d ∈ (s'.objs q).owned ↔ d ∈ (s.objs q).owned)) (hn : ∀ q, (s'.objs q).owned.Nodup)
    (haw : ∀ q, c ∈ s'.awaited q ↔ (s.objs c).owner = some q ∧ ph.awaited = true)
    (haw' : ∀ q d, d ≠ c → (d ∈ s'.awaited q ↔ d ∈ s.awaited q))
    (hlive : ∀ d, (s.objs d).owner = some c → s.phase d ≠ .done → ph.live = true)
    (hdone : s.phase c = .done → ph = .done) : s'.Family := by
  refine ⟨fun q d => ?_, hn, fun q d => ?_, fun d q hd hd' => ?_, fun d q => ?_, ?_⟩
  · rw [ho, hp]
    rcases eq_or_ne d c with rfl | hne
    · rw [hown, update_self]
    · rw [hown' q d hne, update_of_ne hne, h.owned]
  · rw [ho, hp]
    rcases eq_or_ne d c with rfl | hne
    · rw [haw, update_self]
    · rw [haw' q d hne, update_of_ne hne, h.awaited]
  · rw [ho] at hd
    have hnot : s.phase d ≠ .done := fun hdone' => hd' <| by
      rw [hp]
      rcases eq_or_ne d c with rfl | hne
      · rw [update_self, hdone hdone']
      · rw [update_of_ne hne, hdone']
    rw [hp]
    rcases eq_or_ne q c with rfl | hne
    · rw [update_self]
      exact hlive d hd hnot
    · rw [update_of_ne hne]
      exact h.parent d q hd hnot
  · rw [ho]
    intro hd
    rcases eq_or_ne q c with rfl | hne
    · exact hc
    · rw [hc' q hne]
      exact h.born d q hd
  · obtain ⟨rank, bound, hb, hr⟩ := h.rank
    refine ⟨rank, max bound (rank c + 1), fun x hx => ?_, fun d q hdq => hr d q (by rwa [← ho])⟩
    rcases eq_or_ne x c with rfl | hne
    · exact lt_max_of_lt_right (Nat.lt_succ_self _)
    · rw [hc' x hne] at hx
      exact lt_max_of_lt_left (hb x hx)

theorem live_update [DecidableEq O] (h : ph.live = (s.phase c).live) (x : O) : (update s.phase c ph x).live = (s.phase x).live := by
  rcases eq_or_ne x c with rfl | hne
  · rw [update_self, h]
  · rw [update_of_ne hne]

theorem due_append [DecidableEq O] (l l' : List (Packet O (OwnCmd O))) (x : O) : due (l ++ l') x = due l x + due l' x :=
  countP_append

theorem due_cons [DecidableEq O] (m : Packet O (OwnCmd O)) (l : List (Packet O (OwnCmd O))) (x : O) :
    due (m :: l) x = due l x + if m.dst = x ∧ m.cmd.isSeq = true then 1 else 0 := by
  unfold due
  rw [countP_cons]
  simp

theorem due_none [DecidableEq O] {l : List (Packet O (OwnCmd O))} (h : ∀ m ∈ l, m.cmd.isSeq = false) : due l x = 0 :=
  countP_eq_zero.mpr fun m hm => by simp [h m hm]

variable {older newer : List (Packet O (OwnCmd O))}

theorem Mail.gone (h : s.Mail) (hf : s.flight = older ++ m :: newer) (ho : m.cmd.isOnce = true) : m ∉ older ++ newer := by
  intro hm
  have hnodup := h.nodup
  rw [hf, filter_append, filter_cons_of_pos (by exact ho)] at hnodup
  have hmem : m ∈ (older ++ newer).filter fun m => m.cmd.isOnce := mem_filter.mpr ⟨hm, ho⟩
  rw [filter_append] at hmem
  exact (nodup_cons.mp (nodup_middle.mp hnodup)).1 hmem

theorem sub_flight (hf : s.flight = older ++ m :: newer) : List.Sublist (older ++ newer) s.flight := by
  rw [hf]
  exact List.Sublist.append_left (sublist_cons_self m newer) older

theorem mem_flight {n : Packet O (OwnCmd O)} (hf : s.flight = older ++ m :: newer) (hn : n ≠ m) :
    n ∈ s.flight ↔ n ∈ older ++ newer := by
  rw [hf, mem_append, mem_append, mem_cons, or_iff_right (a := n = m) hn]

theorem Mail.rest (h : s.Mail) (hf : s.flight = older ++ m :: newer) (hm : m.cmd.isOnce = false)
    (hf' : s'.flight = older ++ newer) (hp : s'.phase = s.phase) (ho : ∀ x, (s'.objs x).owner = (s.objs x).owner) : s'.Mail := by
  have hsub := sub_flight hf
  rw [← hf'] at hsub
  refine ⟨fun n hn => ?_, fun n hn => ?_, fun n hn c => ?_, fun n hn => ?_, (hsub.filter _).nodup h.nodup, h.last.sublist hsub⟩
  · rw [hp]
    exact h.live n (hsub.subset hn)
  · rw [hp, ho]
    exact h.undone n (hsub.subset hn)
  · rw [ho]
    exact h.req n (hsub.subset hn) c
  · rw [hf', ← mem_flight hf (by rintro rfl; rw [hm] at hn; cases hn), h.once n hn, hp]
    simp only [ho]

theorem Mail.takes [DecidableEq O] (h : s.Mail) (hf : s.flight = older ++ m :: newer)
    (hold : ∀ n ∈ older, ¬ (n.src = m.src ∧ n.dst = m.dst)) (hc : (s.objs c).owner = some p) (hm : OwnCmd.pending p c (s.phase c) = some m)
    (hf' : s'.flight = older ++ newer) (hp : s'.phase = update s.phase c ph)
    (ho : ∀ x, (s'.objs x).owner = (s.objs x).owner) (hph : OwnCmd.pending p c ph = none)
    (hlive : ph.live = (s.phase c).live) (hdone : ph = .done → s.phase c = .acked) : s'.Mail := by
  have hsub := sub_flight hf
  rw [← hf'] at hsub
  have hlive' : ∀ x, (s'.phase x).live = (s.phase x).live := fun x => by
    rw [hp]
    rcases eq_or_ne x c with rfl | hne
    · rw [update_self, hlive]
    · rw [update_of_ne hne]
  have hgone := h.gone hf (OwnCmd.pending_once hm)
  refine ⟨fun n hn => ?_, fun n hn hs hd => ?_, fun n hn c => ?_, fun n hn => ⟨fun hin => ?_, fun hin => ?_⟩,
    (hsub.filter _).nodup h.nodup, h.last.sublist hsub⟩
  · rw [hlive']
    exact h.live n (hsub.subset hn)
  · rw [ho] at hs
    have hn' := hsub.subset hn
    rcases eq_or_ne n.src c with he | hne
    · rw [hp, he, update_self] at hd
      rw [hdone hd] at hm
      cases hm
      rw [he, hc] at hs
      have hlast := h.last
      rw [hf] at hlast
      rw [hf'] at hn
      rcases mem_append.mp hn with hn | hn
      · exact hold n hn ⟨he, (some.inj hs).symm⟩
      · exact (pairwise_cons.mp (pairwise_append.mp hlast).2.1).1 n hn rfl ⟨he, (some.inj hs).symm⟩
    · rw [hp, update_of_ne hne] at hd
      exact h.undone n hn' hs hd
  · rw [ho]
    exact h.req n (hsub.subset hn) c
  · obtain ⟨c', p', hc', hm'⟩ := (h.once n hn).mp (hsub.subset hin)
    refine ⟨c', p', by rwa [ho], ?_⟩
    rw [hp, update_of_ne]
    · exact hm'
    · rintro rfl
      rw [hc] at hc'
      cases hc'
      rw [hm] at hm'
      rw [hf'] at hin
      exact hgone (some.inj hm' ▸ hin)
  · obtain ⟨c', p', hc', hm'⟩ := hin
    rw [ho] at hc'
    rw [hp] at hm'
    rcases eq_or_ne c' c with rfl | hne
    · rw [hc] at hc'
      cases hc'
      rw [update_self, hph] at hm'
      cases hm'
    · rw [update_of_ne hne] at hm'
      rw [hf', ← mem_flight hf]
      · exact (h.once n hn).mpr ⟨c', p', hc', hm'⟩
      · rintro rfl
        exact hne (OwnCmd.pending_inj hm hm').1.symm

theorem Mail.moves [DecidableEq O] (h : s.Mail) (hf : s'.flight = s.flight)
    (hp : s'.phase = update s.phase c ph) (ho : ∀ x, (s'.objs x).owner = (s.objs x).owner)
    (hc : (s.objs c).owner = none) (hlive : ∀ m ∈ s.flight, (s'.phase m.dst).live = (s.phase m.dst).live) : s'.Mail := by
  have hphase : ∀ d q, (s.objs d).owner = some q → s'.phase d = s.phase d := fun d q hd => by
    rw [hp, update_of_ne]
    rintro rfl
    rw [hc] at hd
    cases hd
  refine ⟨fun n hn => ?_, fun n hn hs => ?_, fun n hn c => ?_, fun n hn => ?_, by rw [hf]; exact h.nodup,
    by rw [hf]; exact h.last⟩
  · rw [hf] at hn
    rw [hlive n hn]
    exact h.live n hn
  · rw [hf] at hn
    rw [ho] at hs
    rw [hphase _ _ hs]
    exact h.undone n hn hs
  · rw [hf] at hn
    rw [ho]
    exact h.req n hn c
  · rw [hf, h.once n hn]
    constructor
    · rintro ⟨d, q, hd, hm⟩
      exact ⟨d, q, by rwa [ho], by rwa [hphase d q hd]⟩
    · rintro ⟨d, q, hd, hm⟩
      rw [ho] at hd
      exact ⟨d, q, hd, by rwa [hphase d q hd] at hm⟩

theorem Mail.same (h : s.Mail) (hf : s'.flight = s.flight) (hp : s'.phase = s.phase)
    (ho : ∀ x, (s'.objs x).owner = (s.objs x).owner) : s'.Mail := by
  refine ⟨fun n hn => ?_, fun n hn => ?_, fun n hn c => ?_, fun n hn => ?_, by rw [hf]; exact h.nodup, by rw [hf]; exact h.last⟩
  · rw [hf] at hn
    rw [hp]
    exact h.live n hn
  · rw [hf] at hn
    rw [hp, ho]
    exact h.undone n hn
  · rw [hf] at hn
    rw [ho]
    exact h.req n hn c
  · rw [hf, h.once n hn, hp]
    simp only [ho]

end Tree

end Zmq
