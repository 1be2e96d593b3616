import LibZmq.Sockets.RoutingTables

/-! Pipes that lose their identities to others. A pipe that a message is being read from is asked to terminate with the
last frame of the message. -/

namespace Zmq

open Option Bool Prod Finset

open Function (update update_of_ne update_self)

namespace RouterT

variable {P : Type} [DecidableEq P] {r r1 r' : RouterT P} {e e1 e' : Ends P} {p q : P} {identity : List UInt8} {m : Msg} {got : Bool}
    {existing : OutpipeT P} {rc : RouterRc}
  {attached : Finset P}

/-- The pipes whose identities lead to other pipes now. -/
def takenOver (r r' : RouterT P) : List P :=
  (r.outpipes.entries.filter fun x => (r'.outpipes.lookup x.1).any fun y => y.pipe ≠ x.2.pipe).map fun x => x.2.pipe

theorem mem_takenOver : q ∈ r.takenOver r' ↔ ∃ id x y, r.outpipes.lookup id = some x ∧ x.pipe = q ∧
    r'.outpipes.lookup id = some y ∧ y.pipe ≠ q := by
  unfold takenOver
  simp only [List.mem_map, List.mem_filter, any_eq_true, decide_eq_true_eq]
  constructor
  · rintro ⟨⟨id, x⟩, ⟨hx, y, hy, hne⟩, rfl⟩
    exact ⟨id, x, y, AList.mem_lookup_iff.mpr hx, rfl, hy, hne⟩
  · rintro ⟨id, x, y, hx, rfl, hy, hne⟩
    exact ⟨⟨id, x⟩, ⟨AList.mem_lookup_iff.mp hx, y, hy, hne⟩, rfl⟩

section

omit [DecidableEq P]

def Remains (r r' : RouterT P) : Prop :=
  ∀ id y, r'.outpipes.lookup id = some y → ∃ x, r.outpipes.lookup id = some x ∧ x.pipe = y.pipe

theorem Remains.same (h : r'.outpipes = r.outpipes) : Remains r r' := fun id y hy => ⟨y, by rw [← h]; exact hy, rfl⟩

theorem Remains.mark {x : OutpipeT P} (active : Bool) (hx : r.outpipes.lookup identity = some x)
    (h : r'.outpipes = r.outpipes.insert identity { x with active := active }) : Remains r r' := by
  intro id y hy
  rw [h] at hy
  rcases eq_or_ne id identity with rfl | hne
  · cases (AList.lookup_insert r.outpipes).symm.trans hy
    exact ⟨x, hx, rfl⟩
  · exact ⟨y, (AList.lookup_insert_ne hne).symm.trans hy, rfl⟩

end

theorem Remains.takenOver (h : Remains r r') : q ∉ r.takenOver r' := by
  intro hq
  obtain ⟨id, x, y, hx, rfl, hy, hne⟩ := mem_takenOver.mp hq
  obtain ⟨x', hx', he⟩ := h id y hy
  rw [some.inj (hx.symm.trans hx')] at hne
  exact hne he.symm

section

omit [DecidableEq P]

structure Listed (r : RouterT P) (e : Ends P) (attached : Finset P) : Prop where
  keyed : r.Keyed e
  disjoint : ∀ p ∈ r.anonymousPipes, ¬ r.Identified p
  anonymous : ∀ p ∈ r.anonymousPipes, p ∈ attached
  identified : ∀ p, r.Identified p → p ∈ attached

theorem Remains.identified (h : Remains r r') (hq : r'.Identified q) : r.Identified q := by
  obtain ⟨id, y, hy, rfl⟩ := hq
  obtain ⟨x, hx, he⟩ := h id y hy
  exact ⟨id, x, hx, he⟩

theorem Listed.remains (h : Listed r e attached) (hr : Remains r r') (ha : ∀ q ∈ r'.anonymousPipes, q ∈ r.anonymousPipes)
    (hi : e'.ids = e.ids) : Listed r' e' attached where
  keyed id y hy := by
    obtain ⟨x, hx, he⟩ := hr id y hy
    rw [hi, ← he]
    exact h.keyed id x hx
  disjoint q hq hc := h.disjoint q (ha q hq) (hr.identified hc)
  anonymous q hq := h.anonymous q (ha q hq)
  identified q hq := h.identified q (hr.identified hq)

end

theorem identifyPeer_ok (hk : r.Keyed e) (hp : ¬ r.Identified p)
    (hx : r.identifyPeer e p = .ok (got, r', e')) : Asks r e p got r' e' := by
  obtain ⟨hok, herror⟩ := identifyPeer_asks hk hp
  by_cases hi : r.Identifies (e.inlets p)
  · obtain ⟨got1, r1, e1, hx1, ha⟩ := hok hi
    obtain ⟨rfl, hrest⟩ := ok_pair (hx.symm.trans hx1)
    cases hrest
    exact ha
  · exact absurd (hx.symm.trans (herror hi)) nofun

theorem Listed.asked (h : Listed r e attached) (hp : ¬ r.Identified p) (ha : Asks r e p got r1 e')
    (ho : r'.outpipes = r1.outpipes)
    (hanon : r'.anonymousPipes = if got then r1.anonymousPipes.erase p else insert p r1.anonymousPipes) :
    Listed r' e' (insert p attached) := by
  have hident : ∀ q, r'.Identified q ↔ r.Identified q ∨ got = true ∧ q = p := fun q => by
    rw [← ha.identified]
    unfold Identified
    rw [ho]
  refine ⟨fun id x hx => ha.keyed id x (ho ▸ hx), fun q hq => ?_, fun q hq => ?_, fun q hq => ?_⟩
  · rw [hident]
    rw [hanon, ha.anonymous] at hq
    rintro (hc | ⟨rfl, rfl⟩)
    · cases got with
      | true => exact h.disjoint q (mem_of_mem_erase hq) hc
      | false =>
        rcases mem_insert.mp hq with rfl | hq
        · exact hp hc
        · exact h.disjoint q hq hc
    · exact notMem_erase _ _ hq
  · rw [hanon, ha.anonymous] at hq
    cases got with
    | true => exact mem_insert_of_mem (h.anonymous q (mem_of_mem_erase hq))
    | false => exact insert_subset_insert p (fun q hq => h.anonymous q hq) hq
  · rcases (hident q).mp hq with hq | ⟨-, rfl⟩
    · exact mem_insert_of_mem (h.identified q hq)
    · exact mem_insert_self _ _

structure Takes (r : RouterT P) (e : Ends P) (r' : RouterT P) (e' : Ends P) : Prop where
  currentIn : r'.currentIn = r.currentIn
  moreIn : r'.moreIn = r.moreIn
  prefetched : r'.prefetched = r.prefetched
  identitySent : r'.identitySent = r.identitySent
  prefetchedId : r'.prefetchedId = r.prefetchedId
  kept : r.terminateCurrentIn = true → r'.terminateCurrentIn = true
  set : r'.terminateCurrentIn = true → r.terminateCurrentIn = true ∨ ∃ q ∈ r.takenOver r', r.currentIn = some q
  asked : ∀ q ∈ r.takenOver r', r'.terminateCurrentIn = true ∧ r.currentIn = some q ∨ e'.outlets q = (e.outlets q).terminate true

theorem Takes.remains (h : Remains r r') (hc : r'.currentIn = r.currentIn) (hm : r'.moreIn = r.moreIn)
    (hp : r'.prefetched = r.prefetched) (hs : r'.identitySent = r.identitySent) (hi : r'.prefetchedId = r.prefetchedId)
    (ht : r'.terminateCurrentIn = r.terminateCurrentIn) : Takes r e r' e' :=
  ⟨hc, hm, hp, hs, hi, fun h => ht.trans h, fun h => .inl (ht.symm.trans h), fun _ hq => absurd hq h.takenOver⟩

theorem register_takes (hx : r.register e p identity = .ok (got, r', e')) : Takes r e r' e' := by
  unfold register at hx
  split_ifs at hx with hi
  cases hx
  have hnone : ∀ q, q ∉ r.takenOver { r with outpipes := r.outpipes.insert identity ⟨p, true⟩ } := by
    intro q hq
    obtain ⟨id, x, y, hl, rfl, hy, hne⟩ := mem_takenOver.mp hq
    have hid : id ≠ identity := by
      rintro rfl
      exact hi (AList.lookup_isSome.mp (by rw [hl]; rfl))
    rw [show (r.outpipes.insert identity ⟨p, true⟩).lookup id = _ from AList.lookup_insert_ne hid, hl] at hy
    exact hne (congrArg OutpipeT.pipe (some.inj hy).symm)
  exact ⟨rfl, rfl, rfl, rfl, rfl, id, .inl, fun q hq => absurd hq (hnone q)⟩

theorem takenOver_handedOver (hl : r.outpipes.lookup identity = some existing)
    (hauto : autoId r.nextRid ∉ r.outpipes) (hne : p ≠ existing.pipe)
    (ho : r'.outpipes = ((r.outpipes.insert (autoId r.nextRid) existing).erase identity).insert identity ⟨p, true⟩) :
    q ∈ r.takenOver r' ↔ q = existing.pipe := by
  rw [mem_takenOver, ho]
  constructor
  · rintro ⟨id, x, y, hx, rfl, hy, hyne⟩
    rcases eq_or_ne id identity with rfl | hid
    · rw [some.inj (hx.symm.trans hl)]
    · have hid' : id ≠ autoId r.nextRid := by
        rintro rfl
        exact hauto (AList.lookup_isSome.mp (by rw [hx]; rfl))
      rw [AList.lookup_insert_ne hid, AList.lookup_erase_ne hid, AList.lookup_insert_ne hid', hx] at hy
      exact absurd (congrArg OutpipeT.pipe (some.inj hy).symm) hyne
  · rintro rfl
    exact ⟨identity, existing, ⟨p, true⟩, hl, rfl, AList.lookup_insert _, hne⟩

theorem handOver_takes (hp : ¬ r.Identified p)
    (hl : r.outpipes.lookup identity = some existing) (hx : r.handOver e identity existing = .ok (r1, e1))
    (hx' : r1.register e1 p identity = .ok (got, r', e')) : Takes r e r' e' := by
  have hne : p ≠ existing.pipe := by
    rintro rfl
    exact hp ⟨identity, existing, hl, rfl⟩
  unfold register at hx'
  split_ifs at hx' with hi
  obtain ⟨-, hrest⟩ := ok_pair hx'
  cases hrest
  unfold handOver at hx
  dsimp only at hx
  split_ifs at hx with hauto hcur
  · cases hx
    refine ⟨rfl, rfl, rfl, rfl, rfl, fun _ => rfl,
      fun _ => .inr ⟨_, (takenOver_handedOver hl hauto hne rfl).mpr rfl, hcur.symm⟩, fun q hq => ?_⟩
    rw [(takenOver_handedOver hl hauto hne rfl).mp hq]
    exact .inl ⟨rfl, hcur.symm⟩
  · cases hx
    refine ⟨rfl, rfl, rfl, rfl, rfl, id, .inl, fun q hq => ?_⟩
    rw [(takenOver_handedOver hl hauto hne rfl).mp hq]
    exact .inr (update_self _ _ _)

theorem identifyPeer_takes (hp : ¬ r.Identified p) (hx : r.identifyPeer e p = .ok (got, r', e')) : Takes r e r' e' := by
  unfold identifyPeer at hx
  split_ifs at hx
  · have h : Takes { r with connectRid := [] } e r' e' := register_takes hx
    exact ⟨h.1, h.2, h.3, h.4, h.5, h.6, h.7, h.8⟩
  · have h : Takes { r with nextRid := r.nextRid + 1 } e r' e' := register_takes hx
    exact ⟨h.1, h.2, h.3, h.4, h.5, h.6, h.7, h.8⟩
  · obtain ⟨msg, i, hread⟩ : ∃ msg i, (e.inlets p).read = (msg, i) := ⟨_, _, rfl⟩
    rw [hread] at hx
    have hnothing : Takes r e r (e.setInlet p i) := .remains (.same rfl) rfl rfl rfl rfl rfl rfl
    cases msg with
    | none =>
      cases hx
      exact hnothing
    | some msg =>
      dsimp only at hx
      split_ifs at hx
      · have h : Takes { r with nextRid := r.nextRid + 1 } (e.setInlet p i) r' e' := register_takes hx
        exact ⟨h.1, h.2, h.3, h.4, h.5, h.6, h.7, h.8⟩
      · unfold registerPeer at hx
        cases hl : r.outpipes.lookup msg.data with
        | none =>
          rw [hl] at hx
          have h : Takes r (e.setInlet p i) r' e' := register_takes hx
          exact ⟨h.1, h.2, h.3, h.4, h.5, h.6, h.7, h.8⟩
        | some existing =>
          rw [hl] at hx
          split_ifs at hx
          · obtain ⟨⟨r1, e1⟩, hover, hx⟩ := bind_ok hx
            have h : Takes r (e.setInlet p i) r' e' := handOver_takes hp hl hover hx
            exact ⟨h.1, h.2, h.3, h.4, h.5, h.6, h.7, h.8⟩
          · cases hx
            exact hnothing

theorem xattachPipe_takes (hp : ¬ r.Identified p) (hx : r.xattachPipe e p = .ok (r', e')) : Takes r e r' e' := by
  obtain ⟨⟨got, r1, e1⟩, hid, hx⟩ := bind_ok hx
  obtain ⟨rfl, rfl⟩ := ok_pair hx
  have h := identifyPeer_takes hp hid
  have hprobe : ∀ q, q ≠ p → (if r.probeRouter then e.setOutlet p ((e.outlets p).write emptyMsg).2.flush else e).outlets q =
      e.outlets q := by
    intro q hq
    split_ifs
    · exact update_of_ne hq _ _
    · rfl
  have htakes : Takes r e r1 e1 := by
    refine ⟨h.1, h.2, h.3, h.4, h.5, h.6, h.7, fun q hq => (h.asked q hq).imp_right fun ho => ?_⟩
    obtain ⟨id, x, y, hl, rfl, -⟩ := mem_takenOver.mp hq
    rw [ho, hprobe]
    rintro rfl
    exact hp ⟨id, x, hl, rfl⟩
  cases got with
  | true | false => exact ⟨htakes.1, htakes.2, htakes.3, htakes.4, htakes.5, htakes.6, htakes.7, htakes.8⟩

theorem xreadActivated_takes (hd : p ∈ r.anonymousPipes → ¬ r.Identified p) (hx : r.xreadActivated e p = .ok (r', e')) :
    Takes r e r' e' := by
  unfold xreadActivated at hx
  split_ifs at hx with hp
  · obtain ⟨⟨got, r1, e1⟩, hid, hx⟩ := bind_ok hx
    cases hx
    have h := identifyPeer_takes (hd hp) hid
    cases got with
    | true => exact ⟨h.1, h.2, h.3, h.4, h.5, h.6, h.7, h.8⟩
    | false => exact h
  · cases hx
    exact .remains (.same rfl) rfl rfl rfl rfl rfl rfl

structure Reading (r : RouterT P) : Prop where
  current : r.currentIn ≠ none → r.prefetched = true ∨ r.moreIn = true
  id : r.prefetched = true → r.identitySent = false → r.prefetchedId.hasMore = true

omit [DecidableEq P] in
theorem Reading.same (h : Reading r) (hc : r'.currentIn = r.currentIn) (hm : r'.moreIn = r.moreIn)
    (hp : r'.prefetched = r.prefetched) (hs : r'.identitySent = r.identitySent) (hi : r'.prefetchedId = r.prefetchedId) :
    Reading r' := by
  refine ⟨?_, ?_⟩
  · rw [hc, hm, hp]
    exact h.current
  · rw [hp, hs, hi]
    exact h.id

structure Stays (r : RouterT P) (e : Ends P) (r' : RouterT P) (e' : Ends P) : Prop where
  outpipes : r'.outpipes = r.outpipes
  anonymous : r'.anonymousPipes = r.anonymousPipes
  currentIn : r'.currentIn = r.currentIn
  terminateCurrentIn : r'.terminateCurrentIn = r.terminateCurrentIn
  ids : e'.ids = e.ids
  outlets : e'.outlets = e.outlets

omit [DecidableEq P] in
theorem Stays.refl (r : RouterT P) (e : Ends P) : Stays r e r e := ⟨rfl, rfl, rfl, rfl, rfl, rfl⟩

theorem fetch_stays {got : Option (P × Msg)} (hx : r.fetch e = .ok (got, r', e')) :
    Stays r e r' e' ∧ r'.moreIn = r.moreIn ∧ r'.prefetched = r.prefetched ∧ r'.identitySent = r.identitySent ∧
      r'.prefetchedId = r.prefetchedId := by
  obtain ⟨⟨got1, fq, inlets⟩, -, hx⟩ := bind_ok hx
  cases hx
  exact ⟨⟨rfl, rfl, rfl, rfl, rfl, rfl⟩, rfl, rfl, rfl, rfl⟩

theorem idMsg_hasMore : (idMsg identity).hasMore = true := by
  change ((0 ||| Msg.more) &&& Msg.more != 0) = true
  decide

inductive Receives (r : RouterT P) (e : Ends P) : Option Msg → RouterT P → Ends P → Prop
  | nothing {r' : RouterT P} {e' : Ends P} (hs : Stays r e r' e') (hr : Reading r') : Receives r e none r' e'
  | more {m : Msg} {r' : RouterT P} {e' : Ends P} (hm : m.hasMore = true) (hs : Stays r e { r' with currentIn := r.currentIn } e')
      (hc : r.currentIn ≠ none → r'.currentIn = r.currentIn) (hr : Reading r') : Receives r e (some m) r' e'
  | last {m : Msg} {r' : RouterT P} {e' : Ends P} (hm : m.hasMore = false) (ht : r.terminateCurrentIn = true → r.currentIn = none)
      (hs : Stays r e { r' with currentIn := r.currentIn } e') (hr : Reading r') : Receives r e (some m) r' e'
  | asks {m : Msg} {p : P} {r' : RouterT P} {e' : Ends P} (hm : m.hasMore = false) (ht : r.terminateCurrentIn = true) (hp : r.currentIn = some p)
      (hs : Stays { r with terminateCurrentIn := false, currentIn := none } (e.terminate p true) r' e') (hr : Reading r') :
      Receives r e (some m) r' e'

theorem finish_receives (hs : Stays r e r1 e1) (hid : r1.prefetched = true → r1.identitySent = false → r1.prefetchedId.hasMore = true)
    (hx : r1.finish e1 m = (r', e')) : Receives r e (some m) r' e' := by
  unfold finish at hx
  split_ifs at hx with hm
  · cases hx
    exact .more hm ⟨hs.1, hs.2, rfl, hs.4, hs.5, hs.6⟩ (fun _ => hs.3) ⟨fun _ => .inr rfl, hid⟩
  · rw [not_eq_true] at hm
    split at hx
    · rename_i p ht hp
      cases hx
      refine .asks hm (hs.4.symm.trans ht) (hs.3.symm.trans hp) ⟨hs.1, hs.2, rfl, rfl, hs.5, ?_⟩
        ⟨fun hc => absurd rfl hc, hid⟩
      unfold Ends.terminate
      rw [hs.outlets]
    · rename_i hno
      cases hx
      refine .last hm (fun ht => ?_) ⟨hs.1, hs.2, rfl, hs.4, hs.5, hs.6⟩ ⟨fun hc => absurd rfl hc, hid⟩
      rw [eq_none_iff_forall_ne_some]
      exact fun p hp => hno p (hs.4.trans ht) (hs.3.trans hp)

theorem xrecv_receives {got : Option Msg} (h : Reading r) (hx : r.xrecv e = .ok (got, r', e')) : Receives r e got r' e' := by
  unfold xrecv at hx
  split_ifs at hx with hpre hsent
  · obtain ⟨rfl, he⟩ := ok_pair hx
    have hs : Stays r e { r with prefetchedId := emptyMsg, identitySent := true } e := ⟨rfl, rfl, rfl, rfl, rfl, rfl⟩
    exact finish_receives hs (nofun) he
  · obtain ⟨rfl, he⟩ := ok_pair hx
    have hs : Stays r e { r with prefetchedMsg := emptyMsg, prefetched := false } e := ⟨rfl, rfl, rfl, rfl, rfl, rfl⟩
    exact finish_receives hs (nofun) he
  · obtain ⟨⟨got1, r1, e1⟩, hfetch, hx⟩ := bind_ok hx
    obtain ⟨hs, hm, hp, his, hi⟩ := fetch_stays hfetch
    have hnot : r1.prefetched ≠ true := hp ▸ hpre
    cases got1 with
    | none =>
      cases hx
      exact .nothing hs (h.same hs.3 hm hp his hi)
    | some y =>
      dsimp only at hx
      split_ifs at hx with hmore
      · obtain ⟨rfl, he⟩ := ok_pair hx
        exact finish_receives hs (fun hc => absurd hc hnot) he
      · cases hx
        refine .more idMsg_hasMore ⟨hs.1, hs.2, rfl, hs.4, hs.5, hs.6⟩ (fun hc => ?_) ⟨fun _ => .inl rfl, fun _ hc => ?_⟩
        · exact ((h.current hc).elim hpre fun hc => hmore (hm.trans hc)).elim
        · exact nomatch hc

theorem xhasIn_stays {rc : Bool} (h : Reading r) (hx : r.xhasIn e = .ok (rc, r', e')) :
    Stays r e { r' with currentIn := r.currentIn } e' ∧ (r.currentIn ≠ none → r'.currentIn = r.currentIn) ∧ Reading r' := by
  unfold xhasIn at hx
  split_ifs at hx with hopen
  · cases hx
    exact ⟨.refl _ _, fun _ => rfl, h⟩
  · obtain ⟨⟨got1, r1, e1⟩, hfetch, hx⟩ := bind_ok hx
    obtain ⟨hs, hm, hp, his, hi⟩ := fetch_stays hfetch
    cases got1 with
    | none =>
      cases hx
      exact ⟨⟨hs.1, hs.2, rfl, hs.4, hs.5, hs.6⟩, fun _ => hs.3, h.same hs.3 hm hp his hi⟩
    | some y =>
      cases hx
      refine ⟨⟨hs.1, hs.2, rfl, hs.4, hs.5, hs.6⟩, fun hc => ?_, fun _ => .inl rfl, fun _ _ => idMsg_hasMore⟩
      exact absurd ((h.current hc).symm) hopen

structure Apart (r : RouterT P) (e : Ends P) (r' : RouterT P) (e' : Ends P) : Prop where
  remains : Remains r r'
  anonymous : ∀ p ∈ r'.anonymousPipes, p ∈ r.anonymousPipes
  ids : e'.ids = e.ids
  currentIn : r'.currentIn = r.currentIn
  moreIn : r'.moreIn = r.moreIn
  prefetched : r'.prefetched = r.prefetched
  identitySent : r'.identitySent = r.identitySent
  prefetchedId : r'.prefetchedId = r.prefetchedId
  terminateCurrentIn : r'.terminateCurrentIn = r.terminateCurrentIn

omit [DecidableEq P] in
theorem Apart.same (ho : r'.outpipes = r.outpipes) (ha : r'.anonymousPipes = r.anonymousPipes) (hi : e'.ids = e.ids)
    (hc : r'.currentIn = r.currentIn) (hm : r'.moreIn = r.moreIn) (hp : r'.prefetched = r.prefetched)
    (hs : r'.identitySent = r.identitySent) (hpi : r'.prefetchedId = r.prefetchedId)
    (ht : r'.terminateCurrentIn = r.terminateCurrentIn) : Apart r e r' e' :=
  ⟨.same ho, fun p hp => by rwa [ha] at hp, hi, hc, hm, hp, hs, hpi, ht⟩

theorem sendIdentity_apart (hx : r.sendIdentity e m = (rc, r', e')) : Apart r e r' e' := by
  unfold sendIdentity at hx
  split at hx
  · split at hx
    · rename_i x hl
      dsimp only at hx
      split_ifs at hx
      · cases hx
        exact .same rfl rfl rfl rfl rfl rfl rfl rfl rfl
      · cases hx
        exact ⟨.mark false hl rfl, fun _ => id, rfl, rfl, rfl, rfl, rfl, rfl, rfl⟩
      · cases hx
        exact ⟨.mark false hl rfl, fun _ => id, rfl, rfl, rfl, rfl, rfl, rfl, rfl⟩
    · split_ifs at hx
      · cases hx
        exact .same rfl rfl rfl rfl rfl rfl rfl rfl rfl
      · cases hx
        exact .same rfl rfl rfl rfl rfl rfl rfl rfl rfl
  · cases hx
    exact .same rfl rfl rfl rfl rfl rfl rfl rfl rfl

theorem sendPart_apart (hx : r.sendPart e m = (r', e')) : Apart r e r' e' := by
  unfold sendPart at hx
  dsimp only at hx
  split at hx
  · cases hx
    exact .same rfl rfl rfl rfl rfl rfl rfl rfl rfl
  · split_ifs at hx
    all_goals
      cases hx
      exact .same rfl rfl rfl rfl rfl rfl rfl rfl rfl

theorem xsend_apart (hx : r.xsend e m = .ok (rc, r', e')) : Apart r e r' e' := by
  unfold xsend at hx
  split_ifs at hx
  · exact sendPart_apart (ok_pair hx).2
  · exact sendIdentity_apart (Except.ok.inj hx)

theorem xwriteActivated_apart (hi : e'.ids = e.ids) (hx : r.xwriteActivated p = .ok r') : Apart r e r' e' := by
  unfold xwriteActivated at hx
  split at hx
  · cases hx
  · rename_i identity outpipe hentry
    split_ifs at hx
    cases hx
    have hl : r.outpipes.lookup identity = some outpipe := by
      obtain ⟨x, hfind, he⟩ := map_eq_some_iff.mp hentry
      cases he
      exact AList.mem_lookup_iff.mpr (List.mem_of_find?_eq_some hfind)
    exact ⟨.mark true hl rfl, fun _ => id, hi, rfl, rfl, rfl, rfl, rfl, rfl⟩

omit [DecidableEq P] in
theorem xsetsockopt_apart {opt : RouterOption} : Apart r e (r.xsetsockopt opt).2 e := by
  cases opt with
  | connectRid rid =>
    unfold xsetsockopt
    dsimp only
    split_ifs <;> exact .same rfl rfl rfl rfl rfl rfl rfl rfl rfl
  | raw on | mandatory on | probe on | handover on => exact .same rfl rfl rfl rfl rfl rfl rfl rfl rfl

theorem xpipeTerminated_apart (hi : e'.ids = e.ids) (hx : r.xpipeTerminated e p = .ok r') : Apart r e r' e' := by
  unfold xpipeTerminated at hx
  split_ifs at hx
  · cases hx
    exact ⟨.same rfl, fun q hq => mem_of_mem_erase hq, hi, rfl, rfl, rfl, rfl, rfl, rfl⟩
  all_goals
    cases hx
    refine ⟨fun id y hy => ⟨y, ?_, rfl⟩, fun _ => id, hi, rfl, rfl, rfl, rfl, rfl, rfl⟩
    rcases eq_or_ne id (e.ids p) with rfl | hne
    · exact absurd ((AList.lookup_erase _ _).symm.trans hy) (some_ne_none y).symm
    · exact (AList.lookup_erase_ne hne).symm.trans hy

theorem xpipeTerminated_gone (h : Listed r e attached) (hx : r.xpipeTerminated e p = .ok r') :
    ¬ (p ∈ r'.anonymousPipes ∨ r'.Identified p) := by
  unfold xpipeTerminated at hx
  split_ifs at hx with hanon hid
  · cases hx
    exact not_or.mpr ⟨notMem_erase _ _, h.disjoint p hanon⟩
  all_goals
    cases hx
    refine not_or.mpr ⟨hanon, ?_⟩
    rintro ⟨id, y, hy, rfl⟩
    rcases eq_or_ne id (e.ids y.pipe) with rfl | hne
    · exact absurd ((AList.lookup_erase _ _).symm.trans hy) (some_ne_none y).symm
    · exact hne (h.keyed id y ((AList.lookup_erase_ne hne).symm.trans hy)).symm

end RouterT

/-- A router and the pipes that have lost their identities to others. -/
structure Handover (P : Type) where
  routing : Routing P
  /-- the pipes, still attached, whose identities have been taken over -/
  lost : Finset P
  /-- those that have not been asked to terminate -/
  due : Finset P

namespace Handover

open RouterT

variable {P : Type}

def new (nextRid : UInt32) : Handover P := ⟨.new nextRid, ∅, ∅⟩

def Ready (s : Handover P) (op : Routing.Op P) : Prop := s.routing.Ready op

variable [DecidableEq P]

instance (s : Handover P) (op : Routing.Op P) : Decidable (s.Ready op) := by
  unfold Ready
  infer_instance

/-- Identities have been taken over, pipes have been asked to terminate, and others are gone. -/
def noted (s : Handover P) (r : Routing P) : Handover P where
  routing := r
  lost := (s.lost ∪ (s.routing.router.takenOver r.router).toFinset) ∩ r.attached
  due := ((s.due ∪ (s.routing.router.takenOver r.router).toFinset) ∩ r.attached).filter fun p =>
    r.ends.outlets p ≠ (s.routing.ends.outlets p).terminate true

def run (s : Handover P) (op : Routing.Op P) : Except SocketFault (Handover P) := do
  let r ← s.routing.run op
  return s.noted r

def Start (s : Handover P) : Prop := ∃ nextRid, s = new nextRid

abbrev Step : Handover P → Routing.Op P → Handover P → Prop := Does Ready run

def Last (got : Option Msg) : Prop := ∃ m, got = some m ∧ m.hasMore = false

/-- The pipe that is to be asked to terminate later is there and has lost its identity; it is asked with the last frame
of the message and at no other time; and no other pipe that has lost its identity has not been asked yet. -/
structure Safe (s : Handover P) : Prop where
  current : s.routing.router.terminateCurrentIn = true →
    ∃ p ∈ s.routing.attached, s.routing.router.currentIn = some p ∧ p ∈ s.lost
  due : ∀ p ∈ s.due, s.routing.router.terminateCurrentIn = true ∧ s.routing.router.currentIn = some p ∧
    (s.routing.router.prefetched = true ∨ s.routing.router.moreIn = true)
  asked : ∀ got r' e', s.routing.router.xrecv s.routing.ends = .ok (got, r', e') →
    s.routing.router.terminateCurrentIn = true → Last got → r'.terminateCurrentIn = false ∧
      ∃ p ∈ s.routing.attached, s.routing.router.currentIn = some p ∧ e'.outlets = (s.routing.ends.terminate p true).outlets
  once : ∀ got r' e', s.routing.router.xrecv s.routing.ends = .ok (got, r', e') →
    ¬ (s.routing.router.terminateCurrentIn = true ∧ Last got) →
      r'.terminateCurrentIn = s.routing.router.terminateCurrentIn ∧ e'.outlets = s.routing.ends.outlets

/-- The pipe that a message is being read from does not terminate once it has lost its identity. -/
def Keeps (s : Handover P) : Routing.Op P → Prop
  | .pipeTerminated p => ¬ (s.routing.router.terminateCurrentIn = true ∧ s.routing.router.currentIn = some p)
  | _ => True

instance (s : Handover P) (op : Routing.Op P) : Decidable (s.Keeps op) := by
  induction op using Routing.Op.casesOn <;> unfold Keeps <;> infer_instance

structure Sound (s : Handover P) : Prop where
  listed : Listed s.routing.router s.routing.ends s.routing.attached
  reading : Reading s.routing.router
  current : s.routing.router.terminateCurrentIn = true →
    ∃ p ∈ s.routing.attached, s.routing.router.currentIn = some p ∧ p ∈ s.lost
  due : ∀ p ∈ s.due, s.routing.router.terminateCurrentIn = true ∧ s.routing.router.currentIn = some p

variable {s s' : Handover P} {p : P} {r : Routing P}

theorem Sound.safe (h : s.Sound) : s.Safe := by
  refine ⟨h.current, fun p hp => ?_, fun got r' e' hx ht hend => ?_, fun got r' e' hx hno => ?_⟩
  · obtain ⟨ht, hc⟩ := h.due p hp
    exact ⟨ht, hc, h.reading.current (by rw [hc]; exact some_ne_none p)⟩
  · obtain ⟨p, hp, hc, -⟩ := h.current ht
    obtain ⟨m, rfl, hm⟩ := hend
    cases xrecv_receives h.reading hx with
    | more hm' => exact nomatch hm.symm.trans hm'
    | last _ ht' => exact absurd (hc.symm.trans (ht' ht)) (some_ne_none p)
    | asks _ _ hp' hs _ =>
      cases hc.symm.trans hp'
      exact ⟨hs.terminateCurrentIn, p, hp, hc, hs.outlets⟩
  · cases xrecv_receives h.reading hx with
    | nothing hs | more _ hs | last _ _ hs => exact ⟨hs.terminateCurrentIn, hs.outlets⟩
    | asks hm ht => exact absurd ⟨ht, _, rfl, hm⟩ hno

theorem noted_sound (hl : Listed r.router r.ends r.attached) (hr : Reading r.router)
    (hc : r.router.terminateCurrentIn = true → ∃ p ∈ r.attached, r.router.currentIn = some p ∧
      (p ∈ s.lost ∨ p ∈ s.routing.router.takenOver r.router)) (hd : ∀ p, p ∈ s.due ∨ p ∈ s.routing.router.takenOver r.router →
      r.ends.outlets p ≠ (s.routing.ends.outlets p).terminate true →
        r.router.terminateCurrentIn = true ∧ r.router.currentIn = some p) : (s.noted r).Sound := by
  refine ⟨hl, hr, fun ht => ?_, fun p hp => ?_⟩
  · obtain ⟨p, hp, hcur, hlost⟩ := hc ht
    refine ⟨p, hp, hcur, mem_inter.mpr ⟨mem_union.mpr ?_, hp⟩⟩
    exact hlost.imp_right List.mem_toFinset.mpr
  · obtain ⟨hp, hno⟩ := mem_filter.mp hp
    obtain ⟨hp, -⟩ := mem_inter.mp hp
    exact hd p ((mem_union.mp hp).imp_right List.mem_toFinset.mp) hno

theorem Sound.keep (h : s.Sound) (hrem : Remains s.routing.router r.router) (hl : Listed r.router r.ends r.attached)
    (hr : Reading r.router) (ht : r.router.terminateCurrentIn = s.routing.router.terminateCurrentIn)
    (hc : s.routing.router.currentIn ≠ none → r.router.currentIn = s.routing.router.currentIn)
    (hatt : ∀ p ∈ s.routing.attached, s.routing.router.terminateCurrentIn = true → s.routing.router.currentIn = some p →
      p ∈ r.attached) : (s.noted r).Sound := by
  refine noted_sound hl hr (fun hf => ?_) fun p hp _ => ?_
  · rw [ht] at hf
    obtain ⟨p, hp, hcur, hlost⟩ := h.current hf
    exact ⟨p, hatt p hp hf hcur, (hc (by rw [hcur]; exact some_ne_none p)).trans hcur, .inl hlost⟩
  · obtain ⟨hf, hcur⟩ := h.due p (hp.resolve_right hrem.takenOver)
    exact ⟨ht.trans hf, (hc (by rw [hcur]; exact some_ne_none p)).trans hcur⟩

theorem Sound.apart (h : s.Sound) (ha : Apart s.routing.router s.routing.ends r.router r.ends)
    (hatt : r.attached = s.routing.attached) : (s.noted r).Sound := by
  refine h.keep ha.remains ?_ (h.reading.same ha.currentIn ha.moreIn ha.prefetched ha.identitySent ha.prefetchedId)
    ha.terminateCurrentIn (fun _ => ha.currentIn) fun p hp _ _ => hatt ▸ hp
  rw [hatt]
  exact h.listed.remains ha.remains ha.anonymous ha.ids

theorem Sound.takes {e1 : Ends P} (h : s.Sound) (hl : Listed r.router r.ends r.attached)
    (hatt : ∀ p ∈ s.routing.attached, p ∈ r.attached) (ht : Takes s.routing.router e1 r.router r.ends)
    (ho : ∀ p ∈ s.routing.attached, s.routing.router.Identified p → e1.outlets p = s.routing.ends.outlets p) :
    (s.noted r).Sound := by
  have hident : ∀ p ∈ s.routing.router.takenOver r.router, s.routing.router.Identified p := by
    intro p hp
    obtain ⟨id, x, y, hx, rfl, -⟩ := mem_takenOver.mp hp
    exact ⟨id, x, hx, rfl⟩
  refine noted_sound hl (h.reading.same ht.1 ht.2 ht.3 ht.4 ht.5) (fun hf => ?_) fun p hp hno => ?_
  · rw [ht.currentIn]
    rcases ht.set hf with hf | ⟨p, hp, hcur⟩
    · obtain ⟨p, hp, hcur, hlost⟩ := h.current hf
      exact ⟨p, hatt p hp, hcur, .inl hlost⟩
    · exact ⟨p, hatt p (h.listed.identified p (hident p hp)), hcur, .inr hp⟩
  · rw [ht.currentIn]
    rcases hp with hp | hp
    · obtain ⟨hf, hcur⟩ := h.due p hp
      exact ⟨ht.kept hf, hcur⟩
    · refine (ht.asked p hp).resolve_right fun hasked => hno ?_
      rw [hasked, ho p (h.listed.identified p (hident p hp)) (hident p hp)]

theorem Sound.attach {self : PipeT} {frames : List Msg} (h : s.Sound) (hp : p ∉ s.routing.attached)
    (hx : s.routing.run (.attach p self frames) = .ok r) : (s.noted r).Sound := by
  have hident : ¬ s.routing.router.Identified p := fun hc => hp (h.listed.identified p hc)
  have hanon : p ∉ s.routing.router.anonymousPipes := fun hc => hp (h.listed.anonymous p hc)
  have hne : ∀ q, s.routing.router.Identified q → q ≠ p := by
    rintro q hq rfl
    exact hident hq
  obtain ⟨⟨r', e'⟩, hattach, hx⟩ := bind_ok hx
  cases hx
  refine h.takes ?_ (fun q hq => mem_insert_of_mem hq) (xattachPipe_takes hident hattach)
    fun q _ hq => update_of_ne (hne q hq) _ _
  obtain ⟨⟨got, r1, e1⟩, hid, hattach⟩ := bind_ok hattach
  cases hattach
  have hkeyed : ∀ e : Ends P, e.ids = update s.routing.ends.ids p [] →
      Listed s.routing.router e s.routing.attached := by
    refine fun e he => ⟨fun id x hl => ?_, h.listed.disjoint, h.listed.anonymous, h.listed.identified⟩
    rw [he, update_of_ne (hne _ ⟨id, x, hl, rfl⟩)]
    exact h.listed.keyed id x hl
  have ha := identifyPeer_ok (hkeyed _ (by split_ifs <;> rfl)).keyed hident hid
  refine (hkeyed _ (by split_ifs <;> rfl)).asked hident ha (by split_ifs <;> rfl) ?_
  cases got with
  | true =>
    rw [if_pos rfl, if_pos rfl, erase_eq_of_notMem]
    rw [ha.anonymous]
    exact hanon
  | false => rfl

theorem Sound.readActivated (h : s.Sound) (hp : p ∈ s.routing.attached) (hx : s.routing.run (.readActivated p) = .ok r) :
    (s.noted r).Sound := by
  obtain ⟨⟨r', e'⟩, hread, hx⟩ := bind_ok hx
  cases hx
  refine h.takes ?_ (fun q hq => hq) (xreadActivated_takes (h.listed.disjoint p) hread) fun q _ hq => rfl
  unfold xreadActivated at hread
  split_ifs at hread with hanon
  · obtain ⟨⟨got, r1, e1⟩, hid, hread⟩ := bind_ok hread
    cases hread
    have hident := h.listed.disjoint p hanon
    have ha := identifyPeer_ok (e := s.routing.ends.setInlet p { s.routing.ends.inlets p with inActive := true })
      h.listed.keyed hident hid
    have hset : Listed s.routing.router (s.routing.ends.setInlet p { s.routing.ends.inlets p with inActive := true })
        s.routing.attached := h.listed.remains (.same rfl) (fun _ => id) rfl
    rw [← insert_eq_of_mem hp]
    refine hset.asked hident ha (by split_ifs <;> rfl) ?_
    cases got with
    | true => rfl
    | false =>
      have hmem : p ∈ r1.anonymousPipes := by
        rw [ha.anonymous]
        exact hanon
      exact (insert_eq_of_mem hmem).symm
  · cases hread
    exact h.listed.remains (.same rfl) (fun _ => id) rfl

theorem Sound.pipeTerminated (h : s.Sound) (hk : s.Keeps (.pipeTerminated p))
    (hx : s.routing.run (.pipeTerminated p) = .ok r) : (s.noted r).Sound := by
  obtain ⟨r', hterm, hx⟩ := bind_ok hx
  cases hx
  have ha : Apart s.routing.router s.routing.ends r' (s.routing.ends.setOutlet p (s.routing.ends.outlets p).closed) :=
    xpipeTerminated_apart rfl hterm
  have hl := h.listed.remains ha.remains ha.anonymous ha.ids
  refine h.keep ha.remains ⟨hl.keyed, hl.disjoint, fun q hq => ?_, fun q hq => ?_⟩
    (h.reading.same ha.currentIn ha.moreIn ha.prefetched ha.identitySent ha.prefetchedId) ha.terminateCurrentIn
    (fun _ => ha.currentIn) fun q hq hf hc => ?_
  · refine mem_erase.mpr ⟨?_, hl.anonymous q hq⟩
    rintro rfl
    exact xpipeTerminated_gone h.listed hterm (.inl hq)
  · refine mem_erase.mpr ⟨?_, hl.identified q hq⟩
    rintro rfl
    exact xpipeTerminated_gone h.listed hterm (.inr hq)
  · refine mem_erase.mpr ⟨?_, hq⟩
    rintro rfl
    exact hk ⟨hf, hc⟩

theorem Sound.xrecv (h : s.Sound) (hx : s.routing.run .xrecv = .ok r) : (s.noted r).Sound := by
  obtain ⟨⟨got, r', e'⟩, hrecv, hx⟩ := bind_ok hx
  cases hx
  have hl : ∀ {r1 : RouterT P} {e1 e2 : Ends P} {r2 : RouterT P}, Stays r1 e1 r2 e2 → r1.outpipes = s.routing.router.outpipes →
      r1.anonymousPipes = s.routing.router.anonymousPipes → e1.ids = s.routing.ends.ids →
      Remains s.routing.router r2 ∧ Listed r2 e2 s.routing.attached := by
    intro r1 e1 e2 r2 hs ho ha hi
    have hrem : Remains s.routing.router r2 := .same (hs.outpipes.trans ho)
    exact ⟨hrem, h.listed.remains hrem (fun q hq => by rwa [hs.anonymous, ha] at hq) (hs.ids.trans hi)⟩
  cases xrecv_receives h.reading hrecv with
  | nothing hs hr =>
    obtain ⟨hrem, hl⟩ := hl hs rfl rfl rfl
    exact h.keep hrem hl hr hs.terminateCurrentIn (fun _ => hs.currentIn) fun _ hp _ _ => hp
  | more hm hs hc hr =>
    obtain ⟨hrem, hl⟩ := hl hs rfl rfl rfl
    exact h.keep hrem ⟨hl.1, hl.2, hl.3, hl.4⟩ hr hs.terminateCurrentIn hc fun _ hp _ _ => hp
  | last hm ht hs hr =>
    obtain ⟨hrem, hl⟩ := hl hs rfl rfl rfl
    have hf : s.routing.router.terminateCurrentIn ≠ true := fun hf => by
      obtain ⟨p, -, hc, -⟩ := h.current hf
      exact some_ne_none p (hc.symm.trans (ht hf))
    refine noted_sound ⟨hl.1, hl.2, hl.3, hl.4⟩ hr (fun hc => absurd (hs.terminateCurrentIn.symm.trans hc) hf) fun p hp _ => ?_
    exact absurd (h.due p (hp.resolve_right hrem.takenOver)).1 hf
  | asks hm ht hp hs hr =>
    obtain ⟨hrem, hl⟩ := hl hs rfl rfl rfl
    refine noted_sound hl hr (fun hc => nomatch hs.terminateCurrentIn.symm.trans hc) fun q hq hno => ?_
    obtain ⟨-, hc⟩ := h.due q (hq.resolve_right hrem.takenOver)
    cases hp.symm.trans hc
    refine absurd ?_ hno
    rw [hs.outlets]
    exact update_self _ _ _

theorem Sound.run {op : Routing.Op P} (h : s.Sound) (hr : s.Ready op) (hk : s.Keeps op) (hx : s.run op = .ok s') : s'.Sound := by
  obtain ⟨r, h1, hx⟩ := bind_ok hx
  cases hx
  cases op with
  | attach p self frames => exact h.attach hr.1 h1
  | readActivated p => exact h.readActivated hr.1 h1
  | pipeTerminated p => exact h.pipeTerminated hk h1
  | xrecv => exact h.xrecv h1
  | drift p i o =>
    cases h1
    exact h.apart (.same rfl rfl rfl rfl rfl rfl rfl rfl rfl) rfl
  | writeActivated p n =>
    obtain ⟨r', hact, h1⟩ := bind_ok h1
    cases h1
    exact h.apart (xwriteActivated_apart rfl hact) rfl
  | xsetsockopt opt =>
    cases h1
    exact h.apart xsetsockopt_apart rfl
  | xsend m =>
    obtain ⟨⟨rc, r', e'⟩, hsend, h1⟩ := bind_ok h1
    cases h1
    exact h.apart (xsend_apart hsend) rfl
  | xhasIn =>
    obtain ⟨⟨rc, r', e'⟩, hin, h1⟩ := bind_ok h1
    cases h1
    obtain ⟨hs, hc, hr⟩ := xhasIn_stays h.reading hin
    have hrem : Remains s.routing.router r' := .same hs.outpipes
    exact h.keep hrem (h.listed.remains hrem (fun q hq => by rwa [← hs.anonymous]) hs.ids) hr hs.terminateCurrentIn hc
      fun _ hp _ _ => hp

omit [DecidableEq P] in
theorem new_sound (nextRid : UInt32) : (new nextRid : Handover P).Sound := by
  have hident : ∀ q : P, ¬ (RouterT.new nextRid).Identified q := fun q ⟨id, x, hx, _⟩ =>
    absurd ((AList.lookup_empty id).symm.trans hx) (some_ne_none x).symm
  refine ⟨⟨fun id x hx => ?_, fun q hq => absurd hq (notMem_empty q), fun q hq => absurd hq (notMem_empty q),
    fun q hq => absurd hq (hident q)⟩, ⟨fun hc => absurd rfl hc, nofun⟩,
    nofun, fun p hp => absurd hp (notMem_empty p)⟩
  exact absurd ((AList.lookup_empty id).symm.trans hx) (some_ne_none x).symm

theorem run_sound {ops : List (Routing.Op P)} (h : Run Start (Guarded Keeps Step) ops s) : s.Sound :=
  h.invariant Sound (by
    rintro s ⟨nextRid, rfl⟩
    exact new_sound nextRid) fun _ _ _ hs ⟨hk, hr, hx⟩ => hs.run hr hk hx

/-- As long as no pipe terminates that is to be asked to, the pipe that the router asks is there, and each pipe is asked
that has lost its identity. -/
theorem handed_over_safely {ops : List (Routing.Op P)} (h : Run Start (Guarded Keeps Step) ops s) : s.Safe :=
  (run_sound h).safe

open LoadBalancer (frame frameMore endOf)

/-- The identity of a pipe is taken over while a message of two frames is being read from it. -/
def withinMessage : List (Routing.Op ℕ) :=
  [.xsetsockopt (.handover true), .attach 0 (endOf 0) [Routing.introduction [7], frameMore 1, frame 2], .xhasIn,
    .attach 1 (endOf 0) [Routing.introduction [7]], .xrecv, .xrecv, .xrecv, .pipeTerminated 0]

/-- The pipe has been asked by the time it terminates. -/
theorem handed_over_safely_within : ∃ s : Handover ℕ, Run Start (Guarded Keeps Step) withinMessage s ∧
    (s.routing.router.currentIn, s.lost, s.routing.attached) = (none, ∅, {1}) ∧ s.Safe :=
  exists_run (P := fun s => (s.routing.router.currentIn, s.lost, s.routing.attached) = (none, ∅, {1}))
    (⟨1, rfl⟩ : Start (new 1)) (by decide +kernel) fun _ hs hx => ⟨hx, handed_over_safely hs⟩

/-- The user closes the connection before the rest of the message has been received. -/
def goneWithinMessage : List (Routing.Op ℕ) :=
  [.xsetsockopt (.handover true), .attach 0 (endOf 0) [Routing.introduction [7], frame 1], .xhasIn,
    .attach 1 (endOf 0) [Routing.introduction [7]],
    .drift 0 ⟨false, []⟩ ⟨{ endOf 0 with state := .termReqSent1, outActive := false, delay := false }, Staged.empty⟩,
    .pipeTerminated 0, .xrecv]

/-- With the last frame a pipe is asked to terminate that is gone. -/
theorem gone_pipe_is_asked : ∃ s : Handover ℕ, Run Start Step goneWithinMessage s ∧ ¬ s.Safe ∧
    s.routing.router.terminateCurrentIn = true ∧ s.routing.router.currentIn = some 0 ∧ 0 ∉ s.routing.attached ∧
      ∃ r' e', s.routing.router.xrecv s.routing.ends = .ok (some (frame 1), r', e') := by
  refine exists_run_free (P := fun s => s.routing.router.terminateCurrentIn = true ∧ s.routing.router.currentIn = some 0 ∧
    0 ∉ s.routing.attached ∧ (s.routing.router.xrecv s.routing.ends).toOption.map fst = some (some (frame 1)))
    (⟨1, rfl⟩ : Start (new 1)) (by decide +kernel) fun s _ ⟨ht, hc, hgone, hx⟩ => ⟨fun h => ?_, ht, hc, hgone, ?_⟩
  · obtain ⟨p, hp, hcur, -⟩ := h.current ht
    cases hc.symm.trans hcur
    exact hgone hp
  · cases hrecv : s.routing.router.xrecv s.routing.ends with
    | error f => simp [hrecv, Except.toOption] at hx
    | ok x =>
      obtain ⟨got, r', e'⟩ := x
      rw [hrecv] at hx
      cases hx
      exact ⟨r', e', rfl⟩

end Handover

end Zmq
