import LibZmq.Sockets.LoadBalancer
import LibZmq.Sockets.Router

/-! A router over pipes that come, go and terminate at any time, and whose peers choose their identities.
The table of identities is compared with the pipes that are attached. -/

namespace Zmq

open Finset Outlet Rota

open Function (update update_idem update_of_ne update_self)

namespace Outlet

variable {o : Outlet} {delay : Bool}

theorem terminate_keeps (hs : (o.terminate delay).self.state = .active) :
    o.self.state = .active ∧ (o.terminate delay).self.outActive = o.self.outActive := by
  unfold terminate at *
  cases h : o.self.state <;> simp [h] at hs ⊢
  split_ifs at hs

theorem terminate_readable (h : o.self.readable = false) : (o.terminate delay).self.readable = false := by
  unfold PipeT.readable at *
  unfold terminate
  cases hs : o.self.state <;> simp_all

end Outlet

namespace RouterT

variable {P : Type} [DecidableEq P] {r r' : RouterT P} {e e' : Ends P} {p q : P} {identity : List UInt8} {got : Bool}

def Identified (r : RouterT P) (p : P) : Prop := ∃ id x, r.outpipes.lookup id = some x ∧ x.pipe = p

def Keyed (r : RouterT P) (e : Ends P) : Prop := ∀ id x, r.outpipes.lookup id = some x → e.ids x.pipe = id

structure Asks (r : RouterT P) (e : Ends P) (p : P) (got : Bool) (r' : RouterT P) (e' : Ends P) : Prop where
  keyed : r'.Keyed e'
  entries : ∀ x, (∃ id, r'.outpipes.lookup id = some x) ↔ (∃ id, r.outpipes.lookup id = some x) ∨ got = true ∧ x = ⟨p, true⟩
  fq : r'.fq = r.fq
  anonymous : r'.anonymousPipes = r.anonymousPipes
  outlets : ∀ q, e'.outlets q = e.outlets q ∨ e'.outlets q = (e.outlets q).terminate true
  inlets : ∀ q, q ≠ p → e'.inlets q = e.inlets q ∨ (e'.outlets q).self.readable = false
  listening : got = true → (e.inlets p).inActive = true → (e'.inlets p).inActive = true

omit [DecidableEq P] in
theorem Asks.identified (h : Asks r e p got r' e') : r'.Identified q ↔ r.Identified q ∨ got = true ∧ q = p := by
  constructor
  · rintro ⟨id, x, hx, rfl⟩
    rcases (h.entries x).mp ⟨id, hx⟩ with ⟨id, hx⟩ | ⟨hg, rfl⟩
    · exact .inl ⟨id, x, hx, rfl⟩
    · exact .inr ⟨hg, rfl⟩
  · rintro (⟨id, x, hx, rfl⟩ | ⟨hg, rfl⟩)
    · obtain ⟨id', hx'⟩ := (h.entries x).mpr (.inl ⟨id, hx⟩)
      exact ⟨id', x, hx', rfl⟩
    · obtain ⟨id, hx⟩ := (h.entries ⟨q, true⟩).mpr (.inr ⟨hg, rfl⟩)
      exact ⟨id, _, hx, rfl⟩

theorem register_asks (hk : r.Keyed e) (hp : ¬ r.Identified p) (hi : identity ∉ r.outpipes) :
    ∃ r' e', r.register e p identity = .ok (true, r', e') ∧ Asks r e p true r' e' := by
  refine ⟨_, _, if_neg hi, ?_, fun x => ?_, rfl, rfl, fun q => .inl rfl, fun q _ => .inl rfl, fun _ h => h⟩
  · intro id x hx
    rcases eq_or_ne id identity with rfl | hne
    · cases (AList.lookup_insert r.outpipes).symm.trans hx
      exact update_self _ _ _
    · have hx : r.outpipes.lookup id = some x := (AList.lookup_insert_ne hne).symm.trans hx
      have hpx : x.pipe ≠ p := fun hc => hp ⟨id, x, hx, hc⟩
      exact (update_of_ne hpx _ _).trans (hk id x hx)
  · constructor
    · rintro ⟨id, hx⟩
      rcases eq_or_ne id identity with rfl | hne
      · cases (AList.lookup_insert r.outpipes).symm.trans hx
        exact .inr ⟨rfl, rfl⟩
      · exact .inl ⟨id, (AList.lookup_insert_ne hne).symm.trans hx⟩
    · rintro (⟨id, hx⟩ | ⟨-, rfl⟩)
      · have hne : id ≠ identity := by
          rintro rfl
          exact hi (AList.lookup_isSome.mp (by rw [hx]; rfl))
        exact ⟨id, (AList.lookup_insert_ne hne).trans hx⟩
      · exact ⟨identity, AList.lookup_insert r.outpipes⟩

theorem handOver_asks {existing : OutpipeT P} (hk : r.Keyed e) (hp : ¬ r.Identified p)
    (hx : r.outpipes.lookup identity = some existing) (hi : autoId r.nextRid ∉ r.outpipes) :
    ∃ r' e', r.handOver e identity existing = .ok (r', e') ∧ Asks r e p false r' e' ∧ identity ∉ r'.outpipes ∧
      e'.inlets p = e.inlets p := by
  have hne : autoId r.nextRid ≠ identity := by
    rintro hc
    rw [hc] at hi
    exact hi (AList.lookup_isSome.mp (by rw [hx]; rfl))
  have hnot : existing.pipe ≠ p := fun hc => hp ⟨identity, existing, hx, hc⟩
  have hlookup : ∀ id, ((r.outpipes.insert (autoId r.nextRid) existing).erase identity).lookup id =
      if id = identity then none else if id = autoId r.nextRid then some existing else r.outpipes.lookup id := by
    intro id
    split_ifs with h1 h2
    · rw [h1]
      exact AList.lookup_erase _ _
    · rw [AList.lookup_erase_ne h1, h2]
      exact AList.lookup_insert _
    · rw [AList.lookup_erase_ne h1]
      exact AList.lookup_insert_ne h2
  have hkeyed : ∀ id x, ((r.outpipes.insert (autoId r.nextRid) existing).erase identity).lookup id = some x →
      (e.setIdentity existing.pipe (autoId r.nextRid)).ids x.pipe = id := by
    intro id x hl
    rw [hlookup] at hl
    split_ifs at hl with h1 h2
    · cases hl
      exact (update_self _ _ _).trans h2.symm
    · have hpx : x.pipe ≠ existing.pipe := fun hc => h1 ((hk id x hl).symm.trans (hc ▸ hk identity existing hx))
      exact (update_of_ne hpx _ _).trans (hk id x hl)
  have hentries : ∀ x, (∃ id, ((r.outpipes.insert (autoId r.nextRid) existing).erase identity).lookup id = some x) ↔
      (∃ id, r.outpipes.lookup id = some x) ∨ false = true ∧ x = ⟨p, true⟩ := by
    intro x
    simp only [hlookup, Bool.false_eq_true, false_and, or_false]
    constructor
    · rintro ⟨id, hl⟩
      split_ifs at hl
      · cases hl
        exact ⟨identity, hx⟩
      · exact ⟨id, hl⟩
    · rintro ⟨id, hl⟩
      rcases eq_or_ne id identity with rfl | h1
      · cases hx.symm.trans hl
        exact ⟨autoId r.nextRid, by rw [if_neg hne, if_pos rfl]⟩
      · refine ⟨id, ?_⟩
        rw [if_neg h1, if_neg, hl]
        rintro rfl
        exact hi (AList.lookup_isSome.mp (by rw [hl]; rfl))
  have hgone : identity ∉ (r.outpipes.insert (autoId r.nextRid) existing).erase identity := fun hc =>
    (AList.mem_erase.mp hc).1 rfl
  unfold handOver
  dsimp only
  split_ifs
  · exact ⟨_, _, rfl, ⟨hkeyed, hentries, rfl, rfl, fun q => .inl rfl, fun q _ => .inl rfl, nofun⟩, hgone, rfl⟩
  · refine ⟨_, _, rfl, ⟨hkeyed, hentries, rfl, rfl, fun q => ?_, fun q _ => ?_, nofun⟩, hgone, ?_⟩
    · rcases eq_or_ne q existing.pipe with rfl | hq
      · exact .inr (update_self _ _ _)
      · exact .inl (update_of_ne hq _ _)
    · unfold Ends.terminate
      dsimp only
      split_ifs with hr
      · exact .inl rfl
      · rcases eq_or_ne q existing.pipe with rfl | hq
        · refine .inr (Bool.eq_false_of_not_eq_true ?_)
          rw [update_self]
          exact hr
        · exact .inl (update_of_ne hq _ _)
    · unfold Ends.terminate
      split_ifs
      · rfl
      · exact update_of_ne hnot.symm _ _

omit [DecidableEq P] in
theorem Asks.trans {r1 r2 : RouterT P} {e1 e2 : Ends P} (h : Asks r e p false r1 e1)
    (h' : Asks r1 e1 p got r2 e2) (hi : e1.inlets p = e.inlets p)
    (ho : ∀ q, e2.outlets q = e1.outlets q) : Asks r e p got r2 e2 where
  keyed := h'.keyed
  entries x := by
    rw [h'.entries, h.entries]
    simp
  fq := h'.fq.trans h.fq
  anonymous := h'.anonymous.trans h.anonymous
  outlets q := by
    rw [ho]
    exact h.outlets q
  inlets q hq := by
    rcases h'.inlets q hq with hi' | hi'
    · rw [hi', ho]
      exact h.inlets q hq
    · exact .inr hi'
  listening hg ha := h'.listening hg (by rw [hi]; exact ha)

/-- The identity that the pipe is given, if any, leads to no identity that is in use. -/
def Identifies (r : RouterT P) (i : Inlet) : Prop :=
  if r.connectRid ≠ [] then r.connectRid ∉ r.outpipes
  else if r.optionsRawSocket then autoId r.nextRid ∉ r.outpipes
  else match i.read.1 with
    | none => True
    | some msg =>
      (msg.data = [] ∨ r.handover = true ∧ msg.data ∈ r.outpipes) → autoId r.nextRid ∉ r.outpipes

instance (r : RouterT P) (i : Inlet) : Decidable (r.Identifies i) := by
  unfold Identifies
  cases i.read.1 <;> infer_instance

theorem Asks.read {i : Inlet} (h : Asks r (e.setInlet p i) p got r' e') (hi : got = true → i.inActive = true) :
    Asks r e p got r' e' where
  keyed := h.keyed
  entries := h.entries
  fq := h.fq
  anonymous := h.anonymous
  outlets := h.outlets
  inlets q hq := by
    have hsame : (e.setInlet p i).inlets q = e.inlets q := update_of_ne hq _ _
    rw [← hsame]
    exact h.inlets q hq
  listening hg _ := h.listening hg (by
    rw [show (e.setInlet p i).inlets p = i from update_self _ _ _]
    exact hi hg)

omit [DecidableEq P] in
theorem Asks.nothing {e' : Ends P} (hk : r.Keyed e) (hids : e'.ids = e.ids) (ho : e'.outlets = e.outlets)
    (hi : ∀ q, q ≠ p → e'.inlets q = e.inlets q) : Asks r e p false r e' where
  keyed id x hx := by
    rw [hids]
    exact hk id x hx
  entries x := by simp
  fq := rfl
  anonymous := rfl
  outlets q := .inl (by rw [ho])
  inlets q hq := .inl (hi q hq)
  listening hc := nomatch hc

theorem registerAuto_asks (hk : r.Keyed e) (hp : ¬ r.Identified p) (hi : autoId r.nextRid ∉ r.outpipes) :
    ∃ r' e', r.registerAuto e p = .ok (true, r', e') ∧ Asks r e p true r' e' := by
  obtain ⟨r', e', hx, h⟩ := @register_asks P _ { r with nextRid := r.nextRid + 1 } e p (autoId r.nextRid) hk hp hi
  exact ⟨r', e', hx, h.keyed, h.entries, h.fq, h.anonymous, h.outlets, h.inlets, h.listening⟩

theorem registerPeer_asks (hk : r.Keyed e) (hp : ¬ r.Identified p)
    (hi : r.handover = true → identity ∈ r.outpipes → autoId r.nextRid ∉ r.outpipes) :
    ∃ got r' e', r.registerPeer e p identity = .ok (got, r', e') ∧ Asks r e p got r' e' := by
  unfold registerPeer
  cases hx : r.outpipes.lookup identity with
  | none =>
    obtain ⟨r', e', hr, h⟩ := register_asks hk hp (AList.lookup_eq_none.mp hx)
    exact ⟨true, r', e', hr, h⟩
  | some existing =>
    have hmem : identity ∈ r.outpipes := AList.lookup_isSome.mp (by rw [hx]; rfl)
    cases hh : r.handover with
    | false => exact ⟨false, r, e, rfl, .nothing hk rfl rfl fun q _ => rfl⟩
    | true =>
      obtain ⟨r1, e1, h1, ha1, hgone, hin⟩ := handOver_asks hk hp hx (hi hh hmem)
      have hp1 : ¬ r1.Identified p := fun hc => (ha1.identified.mp hc).elim hp fun hc => Bool.false_ne_true hc.1
      obtain ⟨r2, e2, h2, ha2⟩ := register_asks ha1.keyed hp1 hgone
      have hends : ∀ q, e2.outlets q = e1.outlets q := by
        unfold register at h2
        rw [if_neg hgone] at h2
        cases h2
        exact fun q => rfl
      refine ⟨true, r2, e2, ?_, ha1.trans ha2 hin hends⟩
      dsimp only
      rw [h1]
      exact h2

theorem identifyPeer_asks (hk : r.Keyed e) (hp : ¬ r.Identified p) :
    (r.Identifies (e.inlets p) → ∃ got r' e', r.identifyPeer e p = .ok (got, r', e') ∧ Asks r e p got r' e') ∧
      (¬ r.Identifies (e.inlets p) → r.identifyPeer e p = .error .assertion) := by
  unfold Identifies identifyPeer
  split_ifs with hrid hraw
  · refine ⟨fun hi => ?_, fun hi => if_pos (not_not.mp hi)⟩
    obtain ⟨r', e', hx, h⟩ := @register_asks P _ { r with connectRid := [] } e p r.connectRid hk hp hi
    exact ⟨true, r', e', hx, h.keyed, h.entries, h.fq, h.anonymous, h.outlets, h.inlets, h.listening⟩
  · refine ⟨fun hi => ?_, fun hi => if_pos (not_not.mp hi)⟩
    obtain ⟨r', e', hx, h⟩ := registerAuto_asks hk hp hi
    exact ⟨true, r', e', hx, h⟩
  · obtain ⟨msg, i, hread⟩ : ∃ msg i, (e.inlets p).read = (msg, i) := ⟨_, _, rfl⟩
    rw [hread]
    cases msg with
    | none =>
      refine ⟨fun _ => ⟨false, r, e.setInlet p i, rfl, .nothing hk rfl rfl fun q hq => ?_⟩, fun hc => absurd trivial hc⟩
      exact update_of_ne hq _ _
    | some msg =>
      have hactive : i.inActive = true := (Inlet.read_some hread).2
      dsimp only
      by_cases hempty : msg.data = []
      · rw [if_pos hempty]
        refine ⟨fun hi => ?_, fun hi => if_pos ?_⟩
        · obtain ⟨r', e', hx, h⟩ := @registerAuto_asks P _ r (e.setInlet p i) p hk hp (hi (.inl hempty))
          exact ⟨true, r', e', hx, h.read fun _ => hactive⟩
        · by_contra hc
          exact hi fun _ => hc
      · rw [if_neg hempty]
        refine ⟨fun hi => ?_, fun hi => ?_⟩
        · obtain ⟨got, r', e', hx, h⟩ := @registerPeer_asks P _ r (e.setInlet p i) p msg.data hk hp
            fun hh hm => hi (.inr ⟨hh, hm⟩)
          exact ⟨got, r', e', hx, h.read fun _ => hactive⟩
        · simp only [hempty, false_or, Classical.not_imp, not_not] at hi
          obtain ⟨⟨hh, hmem⟩, hauto⟩ := hi
          obtain ⟨existing, hx⟩ := Option.isSome_iff_exists.mp (AList.lookup_isSome.mpr hmem)
          unfold registerPeer
          rw [hx]
          dsimp only
          rw [if_pos hh, handOver]
          rw [if_pos hauto]
          rfl

/-! Receiving leaves the pipes of the queue as they are. -/

structure Rests (fq : FqT P) (w : P → Inlet) (fq' : FqT P) (w' : P → Inlet) : Prop where
  wf : fq'.Wf
  mem : ∀ q, q ∈ fq'.pipes ↔ q ∈ fq.pipes
  active : ∀ q, fq'.IsActive q → fq.IsActive q ∧ (w' q = w q ∨ (w' q).inActive = true)

variable {fq fq' : FqT P} {w w' : P → Inlet} {got : Option (P × Msg)}

theorem Rests.trans {fq1 fq2 : FqT P} {w1 w2 : P → Inlet} (h : Rests fq w fq1 w1) (h' : Rests fq1 w1 fq2 w2) :
    Rests fq w fq2 w2 where
  wf := h'.wf
  mem q := (h'.mem q).trans (h.mem q)
  active q hq := by
    obtain ⟨hq1, hw2⟩ := h'.active q hq
    obtain ⟨hq0, hw1⟩ := h.active q hq1
    refine ⟨hq0, ?_⟩
    rcases hw2 with hw2 | hw2
    · rw [hw2]
      exact hw1
    · exact .inr hw2

theorem recvLoop_rests {n : ℕ} (h : fq.Wf) (hn : fq.active = n) (hx : FqT.recvLoop n fq w = .ok (got, fq', w')) :
    Rests fq w fq' w' := by
  induction n generalizing fq w with
  | zero =>
    cases hx
    exact ⟨h, fun q => Iff.rfl, fun q hq => ⟨hq, .inl rfl⟩⟩
  | succ n ih =>
    obtain ⟨p, hget, hp⟩ := current_get h (by omega)
    simp only [FqT.recvLoop, hget] at hx
    obtain ⟨m, i, hr⟩ : ∃ m i, (w p).read = (m, i) := ⟨_, _, rfl⟩
    rw [hr] at hx
    cases m with
    | some m =>
      cases hx
      have hw : ∀ q, fq.IsActive q → fq.IsActive q ∧ (update w p i q = w q ∨ (update w p i q).inActive = true) := by
        intro q hq
        refine ⟨hq, ?_⟩
        rcases eq_or_ne q p with rfl | hne
        · rw [update_self]
          exact .inr (Inlet.read_some hr).2
        · exact .inl (update_of_ne hne _ _)
      unfold FqT.fetched
      split_ifs
      · exact ⟨h, fun q => Iff.rfl, hw⟩
      · exact ⟨advance_wf h (by omega), fun q => Iff.rfl, hw⟩
    | none =>
      split_ifs at hx
      have hd : Rests fq w { fq with toRota := fq.deactivate } (update w p i) := by
        refine ⟨deactivate_wf h hp, fun q => deactivate_mem, fun q hq => ?_⟩
        obtain ⟨hq, hne⟩ := (deactivate_isActive h hp).mp hq
        exact ⟨hq, .inl (update_of_ne hne _ _)⟩
      exact hd.trans (ih hd.wf (by change fq.active - 1 = n; omega) hx)

theorem recvPast_rests {n : ℕ} (h : fq.Wf) (hx : recvPast n fq w = .ok (got, fq', w')) : Rests fq w fq' w' := by
  induction n generalizing fq w with
  | zero =>
    cases hx
    exact ⟨h, fun q => Iff.rfl, fun q hq => ⟨hq, .inl rfl⟩⟩
  | succ n ih =>
    obtain ⟨⟨got1, fq1, w1⟩, h1, hx⟩ := bind_ok hx
    have hr1 := recvLoop_rests h rfl h1
    cases got1 with
    | none =>
      cases hx
      exact hr1
    | some y =>
      dsimp only at hx
      split_ifs at hx
      · exact hr1.trans (ih hr1.wf hx)
      · cases hx
        exact hr1

theorem fetch_rests (h : r.fq.Wf) (hx : r.fetch e = .ok (got, r', e')) :
    ∃ fq w, Rests r.fq e.inlets fq w ∧ r' = { r with fq := fq } ∧ e' = { e with inlets := w } := by
  obtain ⟨⟨got1, fq, w⟩, h1, hx⟩ := bind_ok hx
  cases hx
  exact ⟨fq, w, recvPast_rests h h1, rfl, rfl⟩

end RouterT

structure Routing (P : Type) where
  router : RouterT P
  ends : Ends P
  attached : Finset P

namespace Routing

open RouterT
open LoadBalancer (unattached endOf)

variable {P : Type}

def new (nextRid : UInt32) : Routing P := ⟨.new nextRid, ⟨fun _ => ⟨false, []⟩, fun _ => unattached, fun _ => []⟩, ∅⟩

inductive Op (P : Type) where
  /-- `frames` are there already -/
  | attach (pipe : P) (self : PipeT) (frames : List Msg)
  | drift (pipe : P) (inlet : Inlet) (outlet : Outlet)
  | readActivated (pipe : P)
  | writeActivated (pipe : P) (msgsRead : UInt64)
  | pipeTerminated (pipe : P)
  | xsetsockopt (opt : RouterOption)
  | xsend (msg : Msg)
  | xrecv
  | xhasIn

/-- What pipes keep to: a pipe is new when it is attached, it is activated when it was not active, and an end
that is not to be read any more stays so. -/
def Ready (s : Routing P) : Op P → Prop
  | .attach p self _ => p ∉ s.attached ∧ self.checkWrite.1 = true
  | .drift p i o => Outlet.Drifts (s.ends.outlets p) o ∧ (o.self.readable = true →
      (s.ends.outlets p).self.readable = true ∧ ((s.ends.inlets p).inActive = true → i.inActive = true))
  | .readActivated p => p ∈ s.attached ∧ (s.ends.inlets p).inActive = false ∧ (s.ends.outlets p).self.readable = true
  | .writeActivated p _ => p ∈ s.attached ∧ (s.ends.outlets p).self.outActive = false ∧
      (s.ends.outlets p).self.state = .active
  | .pipeTerminated p => p ∈ s.attached
  | _ => True

variable [DecidableEq P]

instance (s : Routing P) (op : Op P) : Decidable (s.Ready op) := by
  cases op <;> unfold Ready <;> infer_instance

def run (s : Routing P) : Op P → Except SocketFault (Routing P)
  | .attach p self frames => do
    let (router, ends) ← s.router.xattachPipe
      (((s.ends.setInlet p ⟨true, frames⟩).setOutlet p ⟨self, Staged.empty⟩).setIdentity p []) p
    return ⟨router, ends, insert p s.attached⟩
  | .drift p i o => .ok { s with ends := (s.ends.setInlet p i).setOutlet p o }
  | .readActivated p => do
    let (router, ends) ← s.router.xreadActivated (s.ends.setInlet p { s.ends.inlets p with inActive := true }) p
    return { s with router := router, ends := ends }
  | .writeActivated p n => do
    let router ← s.router.xwriteActivated p
    return { s with router := router, ends := s.ends.setOutlet p { s.ends.outlets p with
      self := { (s.ends.outlets p).self with peersMsgsRead := n, outActive := true } } }
  | .pipeTerminated p => do
    let router ← s.router.xpipeTerminated s.ends p
    return ⟨router, s.ends.setOutlet p (s.ends.outlets p).closed, s.attached.erase p⟩
  | .xsetsockopt opt => .ok { s with router := (s.router.xsetsockopt opt).2 }
  | .xsend msg => do
    let (_, router, ends) ← s.router.xsend s.ends msg
    return { s with router := router, ends := ends }
  | .xrecv => do
    let (_, router, ends) ← s.router.xrecv s.ends
    return { s with router := router, ends := ends }
  | .xhasIn => do
    let (_, router, ends) ← s.router.xhasIn s.ends
    return { s with router := router, ends := ends }

def Start (s : Routing P) : Prop := ∃ nextRid, s = new nextRid

abbrev Step : Routing P → Op P → Routing P → Prop := Does Ready run

omit [DecidableEq P] in
/-- The table, the pipes without an identity and the queue agree with the pipes that are attached. -/
structure Consistent (s : Routing P) : Prop where
  keyed : s.router.Keyed s.ends
  unique : ∀ p q, s.router.Identified p → s.router.Identified q → s.ends.ids p = s.ends.ids q → p = q
  disjoint : ∀ p ∈ s.router.anonymousPipes, ¬ s.router.Identified p
  attached : ∀ p, p ∈ s.attached ↔ p ∈ s.router.anonymousPipes ∨ s.router.Identified p
  fq : ∀ p, p ∈ s.router.fq.pipes ↔ s.router.Identified p

/-- The calls whose assertions are looked at. -/
def Asserts : Op P → Prop
  | .attach _ _ _ | .readActivated _ | .writeActivated _ _ | .pipeTerminated _ => True
  | _ => False

/-- No identity that a pipe is to get is in use, and a pipe does not fill up in the middle of a message that is
written to it. -/
def Keeps (s : Routing P) : Op P → Prop
  | .attach _ _ frames => s.router.Identifies ⟨true, frames⟩
  | .readActivated p => p ∈ s.router.anonymousPipes → s.router.Identifies ⟨true, (s.ends.inlets p).frames⟩
  | .xsend msg => s.router.moreOut = true → ¬ (s.router.rawSocket = true ∧ msg.data = []) →
      ∀ p ∈ s.router.currentOut, (s.ends.outlets p).self.state = .active → (s.ends.outlets p).self.checkHwm = true
  | _ => True

instance (s : Routing P) (op : Op P) : Decidable (s.Keeps op) := by
  cases op <;> unfold Keeps <;> infer_instance

structure Sound (s : Routing P) : Prop where
  keyed : s.router.Keyed s.ends
  disjoint : ∀ p ∈ s.router.anonymousPipes, ¬ s.router.Identified p
  attached : ∀ p, p ∈ s.attached ↔ p ∈ s.router.anonymousPipes ∨ s.router.Identified p
  fq : ∀ p, p ∈ s.router.fq.pipes ↔ s.router.Identified p
  wf : s.router.fq.Wf
  listening : ∀ p, s.router.fq.IsActive p → (s.ends.inlets p).inActive = true ∨ (s.ends.outlets p).self.readable = false
  idle : ∀ p ∈ s.attached, (s.ends.outlets p).self.state = .active → (s.ends.outlets p).self.outActive = false →
    ∃ id, s.router.outpipes.lookup id = some ⟨p, false⟩

variable {s s' : Routing P} {p : P} {r' : RouterT P} {got : Bool} {e : Ends P} {o : Outlet} {id : List UInt8} {msg : Msg}

theorem Sound.consistent (h : s.Sound) : s.Consistent := by
  refine ⟨h.keyed, fun p q hp hq he => ?_, h.disjoint, h.attached, h.fq⟩
  obtain ⟨id, x, hx, rfl⟩ := hp
  obtain ⟨id', y, hy, rfl⟩ := hq
  rw [h.keyed id x hx, h.keyed id' y hy] at he
  subst he
  rw [Option.some.inj (hx.symm.trans hy)]

theorem Sound.asked {e1 e' : Ends P} (h : s.Sound) (hp : ¬ s.router.Identified p)
    (hsame : ∀ q, q ≠ p → e1.inlets q = s.ends.inlets q ∧ e1.outlets q = s.ends.outlets q) (hin : (e1.inlets p).inActive = true)
    (hout : (e1.outlets p).self.state = .active → (e1.outlets p).self.outActive = true) (ha : Asks s.router e1 p got r' e') :
    Sound ⟨if got then { r' with fq := r'.fq.attach p, anonymousPipes := r'.anonymousPipes.erase p }
      else { r' with anonymousPipes := insert p r'.anonymousPipes }, e', insert p s.attached⟩ := by
  have hpfq : p ∉ r'.fq.pipes := by
    rw [ha.fq, h.fq]
    exact hp
  have hwf : r'.fq.Wf := ha.fq ▸ h.wf
  have hlistening : ∀ q, q ≠ p → s.router.fq.IsActive q →
      (e'.inlets q).inActive = true ∨ (e'.outlets q).self.readable = false := by
    intro q hne hq
    rcases ha.inlets q hne with hi | hi
    · rw [hi, (hsame q hne).1]
      refine (h.listening q hq).imp_right fun hr => ?_
      rcases ha.outlets q with ho | ho <;> rw [ho, (hsame q hne).2]
      · exact hr
      · exact terminate_readable hr
    · exact .inr hi
  have hidle : ∀ q ∈ insert p s.attached, (e'.outlets q).self.state = .active → (e'.outlets q).self.outActive = false →
      ∃ id, r'.outpipes.lookup id = some ⟨q, false⟩ := by
    intro q hq hs hoa
    have hbefore : (e1.outlets q).self.state = .active ∧ (e1.outlets q).self.outActive = false := by
      rcases ha.outlets q with ho | ho <;> rw [ho] at hs hoa
      · exact ⟨hs, hoa⟩
      · obtain ⟨hs', hoa'⟩ := terminate_keeps hs
        exact ⟨hs', hoa'.symm.trans hoa⟩
    rcases eq_or_ne q p with rfl | hne
    · exact nomatch (hout hbefore.1).symm.trans hbefore.2
    · rw [(hsame q hne).2] at hbefore
      have hq := (mem_insert.mp hq).resolve_left hne
      exact (ha.entries _).mpr (.inl (h.idle q hq hbefore.1 hbefore.2))
  cases got with
  | true =>
    refine ⟨ha.keyed, fun q hq => ?_, fun q => ?_, fun q => ?_, ?_, fun q hq => ?_, hidle⟩
    · obtain ⟨hne, hq⟩ := mem_erase.mp hq
      rw [ha.anonymous] at hq
      exact fun hc => (ha.identified.mp hc).elim (h.disjoint q hq) fun hc => hne hc.2
    · change _ ↔ q ∈ r'.anonymousPipes.erase p ∨ r'.Identified q
      rw [mem_insert, h.attached, ha.anonymous, ha.identified]
      by_cases hq : q = p <;> simp [hq, hp]
    · change q ∈ (r'.fq.attach p).pipes ↔ r'.Identified q
      rw [FqT.attach_toRota hpfq, attach_mem, ha.fq, h.fq, ha.identified]
      simp
    · change (r'.fq.attach p).Wf
      rw [FqT.attach_toRota hpfq]
      exact attach_wf hwf hpfq
    · change (r'.fq.attach p).IsActive q at hq
      rw [FqT.attach_toRota hpfq] at hq
      rcases eq_or_ne q p with rfl | hne
      · exact .inl (ha.listening rfl hin)
      · have hq := ((attach_isActive hwf hpfq).mp hq).resolve_right hne
        rw [ha.fq] at hq
        exact hlistening q hne hq
  | false =>
    have hident : ∀ q, r'.Identified q ↔ s.router.Identified q := fun q => ha.identified.trans (by simp)
    refine ⟨ha.keyed, fun q hq => ?_, fun q => ?_, fun q => ?_, hwf, fun q hq => ?_, hidle⟩
    · change ¬ r'.Identified q
      rw [hident]
      rcases mem_insert.mp hq with rfl | hq
      · exact hp
      · rw [ha.anonymous] at hq
        exact h.disjoint q hq
    · change _ ↔ q ∈ insert p r'.anonymousPipes ∨ r'.Identified q
      rw [mem_insert, h.attached, mem_insert, ha.anonymous, hident, or_assoc]
    · change q ∈ r'.fq.pipes ↔ r'.Identified q
      rw [ha.fq, h.fq, hident]
    · have hne : q ≠ p := by
        rintro rfl
        exact hpfq hq.1
      rw [ha.fq] at hq
      exact hlistening q hne hq

structure Drifts (e e' : Ends P) : Prop where
  ids : e'.ids = e.ids
  write : ∀ q, (e'.outlets q).self.state = .active → (e.outlets q).self.state = .active ∧
    ((e'.outlets q).self.outActive = false → (e.outlets q).self.outActive = false)
  read : ∀ q, (e'.outlets q).self.readable = true → (e.outlets q).self.readable = true ∧
    ((e.inlets q).inActive = true → (e'.inlets q).inActive = true)

omit [DecidableEq P] in
theorem Drifts.refl (e : Ends P) : Drifts e e := ⟨rfl, fun _ h => ⟨h, id⟩, fun _ h => ⟨h, id⟩⟩

theorem Drifts.setOutlet (hw : o.self.state = .active → (e.outlets p).self.state = .active ∧
    (o.self.outActive = false → (e.outlets p).self.outActive = false))
    (hr : o.self.readable = true → (e.outlets p).self.readable = true) : Drifts e (e.setOutlet p o) := by
  refine ⟨rfl, fun q hq => ?_, fun q hq => ?_⟩
  · rcases eq_or_ne q p with rfl | hne
    · rw [show (e.setOutlet q o).outlets q = o from update_self _ _ _] at hq ⊢
      exact hw hq
    · rw [show (e.setOutlet p o).outlets q = e.outlets q from update_of_ne hne _ _] at hq ⊢
      exact ⟨hq, id⟩
  · rcases eq_or_ne q p with rfl | hne
    · rw [show (e.setOutlet q o).outlets q = o from update_self _ _ _] at hq
      exact ⟨hr hq, id⟩
    · rw [show (e.setOutlet p o).outlets q = e.outlets q from update_of_ne hne _ _] at hq
      exact ⟨hq, id⟩

theorem Drifts.terminate (e : Ends P) (delay : Bool) : Drifts e (e.terminate p delay) := by
  have hself : ∀ q, q ≠ p → (e.terminate p delay).outlets q = e.outlets q := fun q hne => update_of_ne hne _ _
  have hp : (e.terminate p delay).outlets p = (e.outlets p).terminate delay := update_self _ _ _
  refine ⟨rfl, fun q hq => ?_, fun q hq => ?_⟩
  · rcases eq_or_ne q p with rfl | hne
    · rw [hp] at hq ⊢
      obtain ⟨hs, ho⟩ := terminate_keeps hq
      exact ⟨hs, fun hc => ho.symm.trans hc⟩
    · rw [hself q hne] at hq ⊢
      exact ⟨hq, id⟩
  · rcases eq_or_ne q p with rfl | hne
    · rw [hp] at hq
      refine ⟨Bool.eq_true_of_not_eq_false fun hc => ?_, fun hi => ?_⟩
      · exact Bool.false_ne_true ((terminate_readable hc).symm.trans hq)
      · unfold Ends.terminate
        rw [if_pos hq]
        exact hi
    · rw [hself q hne] at hq
      refine ⟨hq, fun hi => ?_⟩
      unfold Ends.terminate
      dsimp only
      split_ifs
      · exact hi
      · rw [update_of_ne hne]
        exact hi

theorem Sound.keep {e' : Ends P} (h : s.Sound) (hd : Drifts s.ends e')
    (ho : r'.outpipes = s.router.outpipes) (ha : r'.anonymousPipes = s.router.anonymousPipes) (hf : r'.fq = s.router.fq) :
    Sound { s with router := r', ends := e' } := by
  have hident : ∀ q, r'.Identified q ↔ s.router.Identified q := fun q => by
    unfold Identified
    rw [ho]
  refine ⟨fun id x hx => ?_, fun q hq => ?_, fun q => ?_, fun q => ?_, ?_, fun q hq => ?_, fun q hq hs hoa => ?_⟩
  · rw [hd.ids]
    rw [ho] at hx
    exact h.keyed id x hx
  · rw [hident]
    rw [ha] at hq
    exact h.disjoint q hq
  · rw [ha, hident]
    exact h.attached q
  · rw [hf, hident]
    exact h.fq q
  · rw [hf]
    exact h.wf
  · rw [hf] at hq
    cases hr : (e'.outlets q).self.readable with
    | false => exact .inr rfl
    | true =>
      obtain ⟨hr', hi⟩ := hd.read q hr
      exact .inl (hi ((h.listening q hq).resolve_right fun hc => Bool.false_ne_true (hc.symm.trans hr')))
  · rw [ho]
    obtain ⟨hs', hoa'⟩ := hd.write q hs
    exact h.idle q hq hs' (hoa' hoa)

theorem Sound.rests {fq : FqT P} {w : P → Inlet} (h : s.Sound) (hr : Rests s.router.fq s.ends.inlets fq w) :
    Sound { s with router := { s.router with fq := fq }, ends := { s.ends with inlets := w } } := by
  refine ⟨h.keyed, h.disjoint, h.attached, fun q => (hr.mem q).trans (h.fq q), hr.wf, fun q hq => ?_, h.idle⟩
  obtain ⟨hq, hw⟩ := hr.active q hq
  rcases hw with hw | hw
  · dsimp only
    rw [hw]
    exact h.listening q hq
  · exact .inl hw

theorem Sound.mark {b b' : Bool} {e' : Ends P} (h : s.Sound)
    (hx : s.router.outpipes.lookup id = some ⟨p, b⟩) (hids : e'.ids = s.ends.ids) (hin : e'.inlets = s.ends.inlets)
    (hout : ∀ q, q ≠ p → e'.outlets q = s.ends.outlets q)
    (hr : (e'.outlets p).self.readable = true → (s.ends.outlets p).self.readable = true)
    (hp : (e'.outlets p).self.state = .active → (e'.outlets p).self.outActive = false → b' = false) :
    Sound { s with router := { s.router with outpipes := s.router.outpipes.insert id ⟨p, b'⟩ }, ends := e' } := by
  have hlookup : ∀ id', (s.router.outpipes.insert id ⟨p, b'⟩).lookup id' =
      if id' = id then some ⟨p, b'⟩ else s.router.outpipes.lookup id' := by
    intro id'
    split_ifs with hc
    · rw [hc]
      exact AList.lookup_insert _
    · exact AList.lookup_insert_ne hc
  have hident : ∀ q, Identified { s.router with outpipes := s.router.outpipes.insert id ⟨p, b'⟩ } q ↔
      s.router.Identified q := by
    intro q
    unfold Identified
    simp only [hlookup]
    constructor
    · rintro ⟨id', x, hl, rfl⟩
      split_ifs at hl
      · cases hl
        exact ⟨id, _, hx, rfl⟩
      · exact ⟨id', x, hl, rfl⟩
    · rintro ⟨id', x, hl, rfl⟩
      by_cases hc : id' = id
      · subst hc
        cases hx.symm.trans hl
        exact ⟨id', _, if_pos rfl, rfl⟩
      · exact ⟨id', x, (if_neg hc).trans hl, rfl⟩
  refine ⟨fun id' x hl => ?_, fun q hq => ?_, fun q => ?_, fun q => (h.fq q).trans (hident q).symm, h.wf, fun q hq => ?_,
    fun q hq hs hoa => ?_⟩
  · rw [hids]
    have hl := (hlookup id').symm.trans hl
    split_ifs at hl with hc
    · cases hl
      rw [hc]
      exact h.keyed id ⟨p, b⟩ hx
    · exact h.keyed id' x hl
  · rw [hident]
    exact h.disjoint q hq
  · rw [hident]
    exact h.attached q
  · rw [hin]
    refine (h.listening q hq).imp_right fun hc => ?_
    rcases eq_or_ne q p with rfl | hne
    · exact Bool.eq_false_of_not_eq_true fun ht => Bool.false_ne_true (hc.symm.trans (hr ht))
    · rw [hout q hne]
      exact hc
  · simp only [hlookup]
    rcases eq_or_ne q p with rfl | hne
    · exact ⟨id, by rw [if_pos rfl, hp hs hoa]⟩
    · rw [hout q hne] at hs hoa
      obtain ⟨id', hl⟩ := h.idle q hq hs hoa
      have hc : id' ≠ id := by
        rintro rfl
        exact hne (congrArg OutpipeT.pipe (Option.some.inj (hx.symm.trans hl))).symm
      exact ⟨id', by rw [if_neg hc, hl]⟩

theorem Sound.attach {self : PipeT} {frames : List Msg} (h : s.Sound) (hp : p ∉ s.attached) (hw : self.checkWrite.1 = true) :
    (s.router.Identifies ⟨true, frames⟩ → ∃ s', s.run (.attach p self frames) = .ok s' ∧ s'.Sound) ∧
      (¬ s.router.Identifies ⟨true, frames⟩ → s.run (.attach p self frames) = .error .assertion) := by
  have hanon : p ∉ s.router.anonymousPipes := fun hc => hp ((h.attached p).mpr (.inl hc))
  have hident : ¬ s.router.Identified p := fun hc => hp ((h.attached p).mpr (.inr hc))
  -- the end when it is asked for the identity
  obtain ⟨o, e1, he1, ho, hprobe⟩ : ∃ o e1, e1 = (((s.ends.setInlet p ⟨true, frames⟩).setOutlet p o).setIdentity p []) ∧
      o.self.outActive = true ∧ (if s.router.probeRouter then
        let e := ((s.ends.setInlet p ⟨true, frames⟩).setOutlet p ⟨self, Staged.empty⟩).setIdentity p []
        e.setOutlet p ((e.outlets p).write emptyMsg).2.flush
        else ((s.ends.setInlet p ⟨true, frames⟩).setOutlet p ⟨self, Staged.empty⟩).setIdentity p []) = e1 := by
    have hactive : self.outActive = true := (checkWrite_true (o := ⟨self, Staged.empty⟩) hw).1
    split_ifs
    · refine ⟨((⟨self, Staged.empty⟩ : Outlet).write emptyMsg).2.flush, _, rfl, ?_, ?_⟩
      · rw [flush_self, write_done hw]
        exact hactive
      · simp [Ends.setOutlet, Ends.setInlet, Ends.setIdentity, update_idem]
    · exact ⟨⟨self, Staged.empty⟩, _, rfl, hactive, rfl⟩
  have hin : e1.inlets p = ⟨true, frames⟩ := by
    rw [he1]
    exact update_self _ _ _
  have hout : e1.outlets p = o := by
    rw [he1]
    exact update_self _ _ _
  have hsame : ∀ q, q ≠ p → e1.inlets q = s.ends.inlets q ∧ e1.outlets q = s.ends.outlets q := by
    intro q hne
    rw [he1]
    exact ⟨update_of_ne hne _ _, update_of_ne hne _ _⟩
  have hkeyed : s.router.Keyed e1 := by
    intro id x hx
    have hne : x.pipe ≠ p := fun hc => hident ⟨id, x, hx, hc⟩
    rw [he1]
    exact (update_of_ne hne _ _).trans (h.keyed id x hx)
  obtain ⟨hok, herror⟩ := identifyPeer_asks hkeyed hident
  rw [hin] at hok herror
  constructor
  · intro hi
    obtain ⟨got, r', e', hx, ha⟩ := hok hi
    refine ⟨_, ?_, h.asked hident hsame (by rw [hin]) (fun _ => by rw [hout]; exact ho) ha⟩
    have hnot : p ∉ r'.anonymousPipes := by
      rw [ha.anonymous]
      exact hanon
    unfold run xattachPipe
    dsimp only [bind, Except.bind]
    rw [hprobe, hx]
    cases got with
    | true =>
      rw [erase_eq_of_notMem hnot]
      rfl
    | false => rfl
  · intro hi
    unfold run xattachPipe
    dsimp only [bind, Except.bind]
    rw [hprobe, herror hi]

theorem Sound.readActivated (h : s.Sound) (hp : p ∈ s.attached) (hi : (s.ends.inlets p).inActive = false)
    (hr : (s.ends.outlets p).self.readable = true) :
    (s.Keeps (.readActivated p) → ∃ s', s.run (.readActivated p) = .ok s' ∧ s'.Sound) ∧
      (¬ s.Keeps (.readActivated p) → s.run (.readActivated p) = .error .assertion) := by
  have hself : (s.ends.setInlet p { s.ends.inlets p with inActive := true }).inlets p =
      ⟨true, (s.ends.inlets p).frames⟩ := update_self _ _ _
  have hsame : ∀ q, q ≠ p → (s.ends.setInlet p { s.ends.inlets p with inActive := true }).inlets q = s.ends.inlets q :=
    fun q hne => update_of_ne hne _ _
  by_cases hanon : p ∈ s.router.anonymousPipes
  · have hident := h.disjoint p hanon
    obtain ⟨hok, herror⟩ := @identifyPeer_asks P _ s.router (s.ends.setInlet p { s.ends.inlets p with inActive := true }) p
      h.keyed hident
    rw [hself] at hok herror
    constructor
    · intro hk
      obtain ⟨got, r', e', hx, ha⟩ := hok (hk hanon)
      have hsound := h.asked hident (fun q hne => ⟨hsame q hne, rfl⟩) (by rw [hself]) (fun hs => ?_) ha
      · rw [insert_eq_of_mem hp] at hsound
        refine ⟨_, ?_, hsound⟩
        unfold run xreadActivated
        dsimp only
        rw [if_pos hanon]
        rw [hx]
        cases got with
        | true => rfl
        | false =>
          rw [insert_eq_of_mem (show p ∈ r'.anonymousPipes from ha.anonymous ▸ hanon)]
          rfl
      · refine Bool.eq_true_of_not_eq_false fun hc => hident ?_
        obtain ⟨id, hx⟩ := h.idle p hp hs hc
        exact ⟨id, _, hx, rfl⟩
    · intro hk
      have hk : ¬ s.router.Identifies ⟨true, (s.ends.inlets p).frames⟩ := fun hc => hk fun _ => hc
      unfold run xreadActivated
      dsimp only
      rw [if_pos hanon]
      dsimp only [bind, Except.bind]
      rw [herror hk]
  · refine ⟨fun _ => ?_, fun hk => absurd (fun hc => absurd hc hanon) hk⟩
    have hident : s.router.Identified p := ((h.attached p).mp hp).resolve_left hanon
    have hfq : p ∈ s.router.fq.pipes := (h.fq p).mpr hident
    have hn : ¬ s.router.fq.IsActive p := fun hc => by
      rcases h.listening p hc with hl | hl
      · exact Bool.false_ne_true (hi.symm.trans hl)
      · exact Bool.false_ne_true (hl.symm.trans hr)
    have hlt : s.router.fq.active < s.router.fq.pipes.size := inactive_lt hfq hn
    refine ⟨⟨{ s.router with fq := s.router.fq.activated p }, s.ends.setInlet p { s.ends.inlets p with inActive := true },
      s.attached⟩, ?_, ⟨h.keyed, h.disjoint, h.attached, fun q => activated_mem.trans (h.fq q),
      activated_wf h.wf hlt, fun q hq => ?_, h.idle⟩⟩
    · unfold run xreadActivated
      dsimp only
      rw [if_neg hanon, if_pos hlt]
      rfl
    · rcases eq_or_ne q p with rfl | hne
      · left
        rw [hself]
      · rw [hsame q hne]
        exact h.listening q (((activated_isActive hfq hn).mp hq).resolve_right hne)

theorem entry_of_lookup {r : RouterT P} {x : OutpipeT P} (hk : r.Keyed e)
    (hx : r.outpipes.lookup id = some x) : r.entry x.pipe = some (id, x) := by
  unfold RouterT.entry
  have hmem : ⟨id, x⟩ ∈ r.outpipes.entries := AList.mem_lookup_iff.mp hx
  cases hf : r.outpipes.entries.find? fun y => y.2.pipe = x.pipe with
  | none => exact absurd (List.find?_eq_none.mp hf _ hmem) (by simp)
  | some y =>
    have hy : y.2.pipe = x.pipe := by simpa using List.find?_some hf
    have hl : r.outpipes.lookup y.1 = some y.2 := AList.mem_lookup_iff.mpr (List.mem_of_find?_eq_some hf)
    have hid : y.1 = id := by rw [← hk y.1 y.2 hl, ← hk id x hx, hy]
    rw [hid] at hl
    rw [Option.map_some, hid, Option.some.inj (hl.symm.trans hx)]

theorem Sound.writeActivated {n : UInt64} (h : s.Sound) (hp : p ∈ s.attached)
    (ha : (s.ends.outlets p).self.outActive = false) (hs : (s.ends.outlets p).self.state = .active) :
    ∃ s', s.run (.writeActivated p n) = .ok s' ∧ s'.Sound := by
  obtain ⟨id, hx⟩ := h.idle p hp hs ha
  have hentry := entry_of_lookup h.keyed hx
  have hself : (s.ends.setOutlet p { s.ends.outlets p with
      self := { (s.ends.outlets p).self with peersMsgsRead := n, outActive := true } }).outlets p = { s.ends.outlets p with
        self := { (s.ends.outlets p).self with peersMsgsRead := n, outActive := true } } := update_self _ _ _
  obtain ⟨o, ho⟩ : ∃ o : Outlet, o = { s.ends.outlets p with
      self := { (s.ends.outlets p).self with peersMsgsRead := n, outActive := true } } := ⟨_, rfl⟩
  rw [← ho] at hself
  have hmark := @Sound.mark P _ s p id false true (s.ends.setOutlet p o) h hx rfl rfl
    (fun q hne => update_of_ne hne _ _) (fun hr => ?_) fun _ hoa => ?_
  · refine ⟨_, ?_, hmark⟩
    rw [ho]
    unfold run xwriteActivated
    dsimp only at hentry ⊢
    rw [hentry]
    rfl
  · rw [hself, ho] at hr
    exact hr
  · rw [hself, ho] at hoa
    exact nomatch hoa

theorem Sound.pipeTerminated (h : s.Sound) (hp : p ∈ s.attached) : ∃ s', s.run (.pipeTerminated p) = .ok s' ∧ s'.Sound := by
  have hclosed : (s.ends.setOutlet p (s.ends.outlets p).closed).outlets p = (s.ends.outlets p).closed :=
    update_self _ _ _
  have hsame : ∀ q, q ≠ p → (s.ends.setOutlet p (s.ends.outlets p).closed).outlets q = s.ends.outlets q :=
    fun q hne => update_of_ne hne _ _
  have hlistening : ∀ q, s.router.fq.IsActive q → ((s.ends.setOutlet p (s.ends.outlets p).closed).inlets q).inActive = true ∨
      ((s.ends.setOutlet p (s.ends.outlets p).closed).outlets q).self.readable = false := by
    intro q hq
    rcases eq_or_ne q p with rfl | hne
    · rw [hclosed]
      exact .inr rfl
    · rw [hsame q hne]
      exact h.listening q hq
  have hidle : ∀ q ∈ s.attached.erase p, ((s.ends.setOutlet p (s.ends.outlets p).closed).outlets q).self.state = .active →
      ((s.ends.setOutlet p (s.ends.outlets p).closed).outlets q).self.outActive = false →
      ∃ id, s.router.outpipes.lookup id = some ⟨q, false⟩ := by
    intro q hq hs hoa
    obtain ⟨hne, hq⟩ := mem_erase.mp hq
    rw [hsame q hne] at hs hoa
    exact h.idle q hq hs hoa
  unfold run xpipeTerminated
  dsimp only
  by_cases hanon : p ∈ s.router.anonymousPipes
  · rw [if_pos hanon]
    refine ⟨_, rfl, ⟨h.keyed, fun q hq => h.disjoint q (mem_of_mem_erase hq), fun q => ?_, h.fq, h.wf, hlistening, hidle⟩⟩
    rw [mem_erase, mem_erase, h.attached]
    have hpn := h.disjoint p hanon
    by_cases hqp : q = p
    · subst hqp
      simp only [ne_eq, not_true_eq_false, false_and, false_or, false_iff]
      exact hpn
    · simp only [ne_eq, hqp, not_false_eq_true, true_and]
      rfl
  · obtain ⟨id, x, hx, rfl⟩ := ((h.attached p).mp hp).resolve_left hanon
    have hid := h.keyed id x hx
    have hfq : x.pipe ∈ s.router.fq.pipes := (h.fq _).mpr ⟨id, x, hx, rfl⟩
    have hmem : id ∈ s.router.outpipes := AList.lookup_isSome.mp (by rw [hx]; rfl)
    rw [if_neg hanon, hid, if_pos hmem]
    -- no other entry is of the pipe
    have hlookup : ∀ id' y, (s.router.outpipes.erase id).lookup id' = some y ↔
        s.router.outpipes.lookup id' = some y ∧ y.pipe ≠ x.pipe := by
      intro id' y
      rcases eq_or_ne id' id with rfl | hne
      · rw [AList.lookup_erase, hx]
        constructor
        · exact fun hc => absurd hc.symm (Option.some_ne_none y)
        · rintro ⟨hy, hc⟩
          exact absurd (congrArg OutpipeT.pipe (Option.some.inj hy)).symm hc
      · rw [AList.lookup_erase_ne hne]
        refine ⟨fun hy => ⟨hy, fun hc => hne ?_⟩, And.left⟩
        rw [← h.keyed id' y hy, hc, hid]
    have hident : ∀ q, (∃ id' y, (s.router.outpipes.erase id).lookup id' = some y ∧ y.pipe = q) ↔
        s.router.Identified q ∧ q ≠ x.pipe := by
      intro q
      simp only [hlookup]
      constructor
      · rintro ⟨id', y, ⟨hy, hne⟩, rfl⟩
        exact ⟨⟨id', y, hy, rfl⟩, hne⟩
      · rintro ⟨⟨id', y, hy, rfl⟩, hne⟩
        exact ⟨id', y, ⟨hy, hne⟩, rfl⟩
    refine ⟨_, rfl, ⟨fun id' y hy => h.keyed id' y ((hlookup id' y).mp hy).1, fun q hq hc => ?_, fun q => ?_, fun q => ?_,
      pipeTerminated_wf h.wf hfq, fun q hq => ?_, fun q hq hs hoa => ?_⟩⟩
    · exact h.disjoint q hq ((hident q).mp hc).1
    · refine mem_erase.trans ?_
      rw [h.attached]
      refine Iff.trans ?_ (or_congr_right (hident q).symm)
      constructor
      · rintro ⟨hne, hq | hq⟩
        · exact .inl hq
        · exact .inr ⟨hq, hne⟩
      · rintro (hq | ⟨hq, hne⟩)
        · exact ⟨fun hc => hanon (hc ▸ hq), .inl hq⟩
        · exact ⟨hne, .inr hq⟩
    · exact (pipeTerminated_mem hfq).trans ((and_congr_left' (h.fq q)).trans (hident q).symm)
    · exact hlistening q ((pipeTerminated_isActive h.wf hfq).mp hq).1
    · obtain ⟨id', hl⟩ := hidle q hq hs hoa
      exact ⟨id', (hlookup id' _).mpr ⟨hl, (mem_erase.mp hq).1⟩⟩

theorem Sound.drift {i : Inlet} (h : s.Sound) (hr : s.Ready (.drift p i o)) :
    Sound { s with ends := (s.ends.setInlet p i).setOutlet p o } := by
  obtain ⟨hd, hread⟩ := hr
  refine h.keep ⟨rfl, fun q hq => ?_, fun q hq => ?_⟩ rfl rfl rfl
  · rcases eq_or_ne q p with rfl | hne
    · rw [show ((s.ends.setInlet q i).setOutlet q o).outlets q = o from update_self _ _ _] at hq ⊢
      have hs : (s.ends.outlets q).self.state = .active := by
        by_contra hc
        exact hd.closed hc hq
      refine ⟨hs, fun hoa => Bool.eq_false_of_not_eq_true fun hc => ?_⟩
      rcases hd.inactive hc with ha | ha
      · exact Bool.false_ne_true (hoa.symm.trans ha)
      · exact ha hq
    · rw [show ((s.ends.setInlet p i).setOutlet p o).outlets q = s.ends.outlets q from update_of_ne hne _ _] at hq ⊢
      exact ⟨hq, id⟩
  · rcases eq_or_ne q p with rfl | hne
    · rw [show ((s.ends.setInlet q i).setOutlet q o).outlets q = o from update_self _ _ _] at hq
      rw [show ((s.ends.setInlet q i).setOutlet q o).inlets q = i from update_self _ _ _]
      exact hread hq
    · rw [show ((s.ends.setInlet p i).setOutlet p o).outlets q = s.ends.outlets q from update_of_ne hne _ _] at hq
      rw [show ((s.ends.setInlet p i).setOutlet p o).inlets q = s.ends.inlets q from update_of_ne hne _ _]
      exact ⟨hq, id⟩

theorem Sound.sendIdentity (h : s.Sound) :
    Sound { s with router := (s.router.sendIdentity s.ends msg).2.1, ends := (s.router.sendIdentity s.ends msg).2.2 } := by
  unfold RouterT.sendIdentity
  cases hm : msg.hasMore with
  | false => exact h
  | true =>
    rw [if_pos rfl]
    cases hx : s.router.outpipes.lookup msg.data with
    | none =>
      split_ifs
      · exact h.keep (.refl _) rfl rfl rfl
      · exact h.keep (.refl _) rfl rfl rfl
    | some outpipe =>
      have hself : (s.ends.setOutlet outpipe.pipe (s.ends.outlets outpipe.pipe).checkWrite.2).outlets outpipe.pipe =
        (s.ends.outlets outpipe.pipe).checkWrite.2 := update_self _ _ _
      dsimp only
      by_cases hc : (s.ends.outlets outpipe.pipe).checkWrite.1 = true
      · rw [(checkWrite_true hc).2.2]
        exact h.keep (.setOutlet (fun hs => ⟨hs, id⟩) id) rfl rfl rfl
      · have hmark := @Sound.mark P _ s outpipe.pipe msg.data outpipe.active false
          (s.ends.setOutlet outpipe.pipe (s.ends.outlets outpipe.pipe).checkWrite.2) h hx rfl rfl
          (fun q hne => update_of_ne hne _ _)
          (fun hr => by
            rw [hself] at hr
            change (s.ends.outlets outpipe.pipe).refuse.self.readable = true at hr
            unfold PipeT.readable at hr ⊢
            rwa [refuse_state] at hr)
          fun _ _ => rfl
        split_ifs
        · exact hmark.keep (.refl _) rfl rfl rfl
        · exact hmark.keep (.refl _) rfl rfl rfl

theorem Drifts.taken (hs : o.self.state = (e.outlets p).self.state)
    (ha : o.self.state = .active → o.self.outActive = (e.outlets p).self.outActive) : Drifts e (e.setOutlet p o) := by
  refine .setOutlet (fun h => ⟨hs ▸ h, fun hc => (ha h) ▸ hc⟩) fun h => ?_
  unfold PipeT.readable at h ⊢
  rwa [hs] at h

theorem Sound.sendPart (h : s.Sound) (hm : s.router.moreOut = true) (hk : s.Keeps (.xsend msg)) :
    Sound { s with router := (s.router.sendPart s.ends msg).1, ends := (s.router.sendPart s.ends msg).2 } := by
  unfold RouterT.sendPart
  obtain ⟨msg', hmsg, hdata⟩ : ∃ msg', msg' = (if s.router.optionsRawSocket then
      { msg with flags := msg.flags &&& ~~~Msg.more } else msg) ∧ msg'.data = msg.data := by
    refine ⟨_, rfl, ?_⟩
    split_ifs <;> rfl
  rw [← hmsg]
  cases hp : s.router.currentOut with
  | none => exact h.keep (.refl _) rfl rfl rfl
  | some p =>
    by_cases hraw : s.router.rawSocket = true ∧ msg'.data = []
    · dsimp only
      rw [if_pos hraw]
      exact h.keep (.terminate _ _) rfl rfl rfl
    · dsimp only
      rw [if_neg hraw]
      cases hw : (s.ends.outlets p).self.checkWrite.1 with
      | true =>
        rw [write_done hw, if_pos rfl]
        split_ifs
        · exact h.keep (.taken rfl fun _ => rfl) rfl rfl rfl
        · exact h.keep (.taken (by rw [flush_self]; rfl) fun _ => by rw [flush_self]; rfl) rfl rfl rfl
      | false =>
        rw [write_refused hw]
        refine h.keep (.taken refuse_state fun hs => ?_) rfl rfl rfl
        rw [refuse_state] at hs
        -- the end is not full, so it was not active before
        have hfull := hk hm (hdata ▸ hraw) p hp hs
        rw [Pair.checkWrite_fst, hs, hfull] at hw
        have ha : (s.ends.outlets p).self.outActive = false := by simpa using hw
        simp [refuse, Pair.checkWrite_snd, ha]

theorem Sound.fetch {got : Option (P × Msg)} {e' : Ends P} (h : s.Sound)
    (hx : s.router.fetch s.ends = .ok (got, r', e')) : Sound { s with router := r', ends := e' } := by
  obtain ⟨fq, w, hr, rfl, rfl⟩ := fetch_rests h.wf hx
  exact h.rests hr

theorem Sound.finish (h : s.Sound) :
    Sound { s with router := (s.router.finish s.ends msg).1, ends := (s.router.finish s.ends msg).2 } := by
  unfold RouterT.finish
  split_ifs
  · exact h.keep (.refl _) rfl rfl rfl
  · split
    · exact h.keep (.terminate _ _) rfl rfl rfl
    · exact h.keep (.refl _) rfl rfl rfl

theorem Sound.xrecv {got : Option Msg} {e' : Ends P} (h : s.Sound)
    (hx : s.router.xrecv s.ends = .ok (got, r', e')) : Sound { s with router := r', ends := e' } := by
  unfold RouterT.xrecv at hx
  split at hx
  · split at hx
    · obtain ⟨-, he⟩ := ok_pair hx
      obtain ⟨rfl, rfl⟩ := Prod.mk.inj he
      have hsent : Sound { s with router := { s.router with prefetchedId := emptyMsg, identitySent := true } } :=
        h.keep (.refl _) rfl rfl rfl
      exact hsent.finish
    · obtain ⟨-, he⟩ := ok_pair hx
      obtain ⟨rfl, rfl⟩ := Prod.mk.inj he
      have htaken : Sound { s with router := { s.router with prefetchedMsg := emptyMsg, prefetched := false } } :=
        h.keep (.refl _) rfl rfl rfl
      exact htaken.finish
  · obtain ⟨⟨got1, r1, e1⟩, h1, hx⟩ := bind_ok hx
    have hf := h.fetch h1
    cases got1 with
    | none =>
      cases hx
      exact hf
    | some y =>
      dsimp only at hx
      split at hx
      · obtain ⟨-, he⟩ := ok_pair hx
        obtain ⟨rfl, rfl⟩ := Prod.mk.inj he
        exact hf.finish
      · cases hx
        exact hf.keep (.refl _) rfl rfl rfl

theorem Sound.xhasIn {e' : Ends P} (h : s.Sound)
    (hx : s.router.xhasIn s.ends = .ok (got, r', e')) : Sound { s with router := r', ends := e' } := by
  unfold RouterT.xhasIn at hx
  split at hx
  · cases hx
    exact h
  · obtain ⟨⟨got1, r1, e1⟩, h1, hx⟩ := bind_ok hx
    have hf := h.fetch h1
    cases got1 with
    | none =>
      cases hx
      exact hf
    | some y =>
      cases hx
      exact hf.keep (.refl _) rfl rfl rfl

theorem Sound.run {op : Op P} (h : s.Sound) (hr : s.Ready op) (hk : s.Keeps op) (hx : s.run op = .ok s') : s'.Sound := by
  -- a call that has succeeded has led to the one state that it can lead to
  have hsame : (∃ s', s.run op = .ok s' ∧ s'.Sound) → s'.Sound := by
    rintro ⟨s'', hx', h'⟩
    cases hx.symm.trans hx'
    exact h'
  cases op with
  | attach p self frames => exact hsame ((h.attach hr.1 hr.2).1 hk)
  | readActivated p => exact hsame ((h.readActivated hr.1 hr.2.1 hr.2.2).1 hk)
  | writeActivated p n => exact hsame (h.writeActivated hr.1 hr.2.1 hr.2.2)
  | pipeTerminated p => exact hsame (h.pipeTerminated hr)
  | drift p i o => exact hsame ⟨_, rfl, h.drift hr⟩
  | xsetsockopt opt =>
    refine hsame ⟨_, rfl, ?_⟩
    cases opt with
    | connectRid rid =>
      unfold RouterT.xsetsockopt
      dsimp only
      split_ifs
      · exact h
      · exact h.keep (.refl _) rfl rfl rfl
    | raw on | mandatory on | probe on | handover on => exact h.keep (.refl _) rfl rfl rfl
  | xsend msg =>
    obtain ⟨⟨rc, r', e'⟩, h1, hx⟩ := bind_ok hx
    cases hx
    unfold RouterT.xsend at h1
    split at h1
    · rename_i hm
      obtain ⟨-, he⟩ := ok_pair h1
      obtain ⟨rfl, rfl⟩ := Prod.mk.inj he
      exact h.sendPart hm hk
    · split at h1
      · obtain ⟨-, he⟩ := ok_pair h1
        obtain ⟨rfl, rfl⟩ := Prod.mk.inj he
        exact h.sendIdentity
      · exact absurd h1 nofun
  | xrecv =>
    obtain ⟨⟨got, r', e'⟩, h1, hx⟩ := bind_ok hx
    cases hx
    exact h.xrecv h1
  | xhasIn =>
    obtain ⟨⟨got, r', e'⟩, h1, hx⟩ := bind_ok hx
    cases hx
    exact h.xhasIn h1

theorem new_sound (nextRid : UInt32) : (new nextRid : Routing P).Sound := by
  have hident : ∀ q : P, ¬ (RouterT.new nextRid).Identified q := fun q ⟨id, x, hx, _⟩ =>
    absurd ((AList.lookup_empty id).symm.trans hx) (Option.some_ne_none x).symm
  refine ⟨fun id x hx => ?_, fun q hq => ?_, fun q => ?_, fun q => ?_, empty_wf, fun q hq => ?_, fun q hq => ?_⟩
  · exact absurd ((AList.lookup_empty id).symm.trans hx) (Option.some_ne_none x).symm
  · exact absurd hq (notMem_empty q)
  · refine ⟨fun hq => absurd hq (notMem_empty q), fun hq => hq.elim (fun hq => ?_) fun hq => absurd hq (hident q)⟩
    exact absurd hq (notMem_empty q)
  · exact ⟨fun hq => (nomatch hq), fun hq => absurd hq (hident q)⟩
  · exact absurd hq.1 List.not_mem_nil
  · exact absurd hq (notMem_empty q)

theorem run_sound {ops : List (Op P)} (h : Run Start (Guarded Keeps Step) ops s) : s.Sound :=
  h.invariant Sound (by
    rintro s ⟨nextRid, rfl⟩
    exact new_sound nextRid) fun _ _ _ hs ⟨hk, hr, hx⟩ => hs.run hr hk hx

/-- As long as no pipe is to get an identity that is in use, and no pipe fills up within a message, the tables
are consistent, and an assertion fails exactly when the next pipe is to get one that is in use. -/
theorem tables_stay_consistent {ops : List (Op P)} (h : Run Start (Guarded Keeps Step) ops s) :
    s.Consistent ∧ ∀ op, s.Ready op → Asserts op → ((∃ s', s.run op = .ok s') ↔ s.Keeps op) := by
  have hs := run_sound h
  refine ⟨hs.consistent, fun op hr ha => ?_⟩
  have hiff : (s.Keeps op → ∃ s', s.run op = .ok s' ∧ s'.Sound) → (¬ s.Keeps op → s.run op = .error .assertion) →
      ((∃ s', s.run op = .ok s') ↔ s.Keeps op) := by
    intro hok herror
    refine ⟨fun ⟨s', hx⟩ => by_contra fun hk => ?_, fun hk => ?_⟩
    · exact absurd (hx.symm.trans (herror hk)) (by rintro ⟨⟩)
    · obtain ⟨s', hx, -⟩ := hok hk
      exact ⟨s', hx⟩
  cases op with
  | attach p self frames =>
    obtain ⟨hok, herror⟩ := @Sound.attach P _ s p self frames hs hr.1 hr.2
    exact hiff hok herror
  | readActivated p =>
    obtain ⟨hok, herror⟩ := hs.readActivated hr.1 hr.2.1 hr.2.2
    exact hiff hok herror
  | writeActivated p n => exact hiff (fun _ => hs.writeActivated hr.1 hr.2.1 hr.2.2) fun hk => absurd trivial hk
  | pipeTerminated p => exact hiff (fun _ => hs.pipeTerminated hr) fun hk => absurd trivial hk
  | _ => exact absurd ha id

/-- The message in which a peer gives its identity. -/
def introduction (identity : List UInt8) : Msg := ⟨.vsm, Msg.identity, identity⟩

/-- Two peers give the same identity, the second takes it over; a third gives none. -/
def takenOver : List (Op ℕ) :=
  [.xsetsockopt (.handover true), .attach 0 (endOf 0) [introduction [7]], .attach 1 (endOf 0) [introduction [7]],
    .attach 2 (endOf 0) [introduction []], .attach 3 (endOf 0) [], .pipeTerminated 0]

/-- The pipe that lost its identity had one that was made up until it terminated. -/
theorem tables_stay_consistent_four : ∃ s : Routing ℕ, Run Start (Guarded Keeps Step) takenOver s ∧
    (s.ends.ids 1, s.ends.ids 2, s.router.anonymousPipes) = ([7], autoId 2, {3}) ∧ s.Consistent :=
  exists_run (P := fun s => (s.ends.ids 1, s.ends.ids 2, s.router.anonymousPipes) = ([7], autoId 2, {3}))
    (⟨1, rfl⟩ : Start (new 1)) (by decide) fun _ hs hx => ⟨hx, (tables_stay_consistent hs).1⟩

/-- A peer gives the identity that is to be made up next. -/
def guessed : List (Op ℕ) :=
  [.attach 0 (endOf 0) [introduction []], .attach 1 (endOf 0) [introduction (autoId 2)]]

/-- The same, and another peer takes over an identity. -/
def guessedHandover : List (Op ℕ) :=
  [.xsetsockopt (.handover true), .attach 0 (endOf 0) [introduction (autoId 1)], .attach 1 (endOf 0) [introduction [7]]]

/-- The mark of a pipe is lowered within a message, so that the pipe is full. -/
def filledUp : List (Op ℕ) :=
  [.attach 0 (endOf 2) [introduction [7]], .xsend ⟨.vsm, Msg.more, [7]⟩, .xsend ⟨.vsm, 0, [1]⟩,
    .xsend ⟨.vsm, Msg.more, [7]⟩, .drift 0 ⟨true, []⟩ ⟨{ endOf 1 with msgsWritten := 1 }, ⟨[⟨.vsm, 0, [1]⟩], [], [], false⟩⟩,
    .xsend ⟨.vsm, 0, [2]⟩]

/-- An assertion fails when the identity that is made up has been given by a peer, with the next peer that has
none or with the next that takes one over; and when a pipe that filled up within a message is activated. -/
theorem assertion_fails : (∃ s : Routing ℕ, Run Start Step guessed s ∧ s.Ready (.attach 2 (endOf 0) [introduction []]) ∧
      (s.run (.attach 2 (endOf 0) [introduction []])).toBool = false) ∧
    (∃ s : Routing ℕ, Run Start Step guessedHandover s ∧ s.Ready (.attach 2 (endOf 0) [introduction [7]]) ∧
      (s.run (.attach 2 (endOf 0) [introduction [7]])).toBool = false) ∧
    ∃ s : Routing ℕ, Run Start Step filledUp s ∧ s.Ready (.writeActivated 0 1) ∧
      (s.run (.writeActivated 0 1)).toBool = false := by
  refine ⟨?_, ?_, ?_⟩
  · exact exists_run_free (P := fun s => s.Ready (.attach 2 (endOf 0) [introduction []]) ∧
      (s.run (.attach 2 (endOf 0) [introduction []])).toBool = false) (⟨1, rfl⟩ : Start (new 1)) (by decide) fun _ _ h => h
  · exact exists_run_free (P := fun s => s.Ready (.attach 2 (endOf 0) [introduction [7]]) ∧
      (s.run (.attach 2 (endOf 0) [introduction [7]])).toBool = false) (⟨1, rfl⟩ : Start (new 1)) (by decide) fun _ _ h => h
  · exact exists_run_free (P := fun s => s.Ready (.writeActivated 0 1) ∧ (s.run (.writeActivated 0 1)).toBool = false)
      (⟨1, rfl⟩ : Start (new 1)) (by decide) fun _ _ h => h

end Routing

end Zmq
