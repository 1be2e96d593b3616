import LibZmq.Sockets.RoutingTables

/-! What a router writes to its pipes. The messages in a pipe are compared with those that the user has addressed to the
peer. -/

namespace Zmq

open List Option

open Function (update update_eq_self update_of_ne update_self)

namespace Outlet

variable {o o1 o' : Outlet} {delay : Bool}

theorem Drifts.refl (o : Outlet) : Drifts o o := ⟨⟨rfl, .inl rfl, id, .inl⟩, id, .inl⟩

theorem Drifts.trans (h : Drifts o o1) (h' : Drifts o1 o') : Drifts o o' where
  written := h'.written.trans h.written
  part := by
    rcases h'.part with hp | hp
    · rcases h.part with hp' | ⟨hp', hs⟩
      · exact .inl (hp.trans hp')
      · exact .inr ⟨hp.trans hp', h'.closed hs⟩
    · exact .inr hp
  closed hs := h'.closed (h.closed hs)
  outActive ha := h.outActive (h'.outActive ha)
  inactive ha := by
    rcases h.inactive ha with ha | hs
    · exact h'.inactive ha
    · exact .inr (h'.closed hs)
  linked hl := by
    rcases h.linked hl with hl | hs
    · exact h'.linked hl
    · exact .inr (h'.closed hs)

theorem terminate_drifts : Drifts o (o.terminate delay) := by
  unfold terminate
  cases hs : o.self.state with
  | termReqSent1 | termReqSent2 | termAckSent => exact drifts_of_keep (.inl rfl) (.inl rfl) (.inl rfl)
  | active | delimiterReceived =>
    dsimp only
    split_ifs with ho
    · exact drifts_of_keep (.inr ⟨rfl, PipeState.noConfusion⟩) (.inl rfl) (.inr PipeState.noConfusion)
    · exact drifts_of_delimit PipeState.noConfusion rfl
  | waitingForDelimiter =>
    have hne : o.self.state ≠ .active := by rw [hs]; exact PipeState.noConfusion
    dsimp only
    split_ifs with hd ho
    · exact drifts_of_keep (.inr ⟨rfl, hne⟩) (.inl rfl) (.inl rfl)
    · exact drifts_of_delimit hne rfl
    · exact drifts_of_keep (.inr ⟨rfl, PipeState.noConfusion⟩) (.inr ⟨rfl, PipeState.noConfusion⟩)
        (.inr PipeState.noConfusion)

end Outlet

namespace RouterT

variable {P : Type} {r r1 r' : RouterT P} {e e1 e' : Ends P} {p : P} {identity : List UInt8} {m : Msg}
  {come : Option P}

structure Aside (come : Option P) (r : RouterT P) (e : Ends P) (r' : RouterT P) (e' : Ends P) : Prop where
  currentOut : r'.currentOut = r.currentOut
  moreOut : r'.moreOut = r.moreOut
  rawSocket : r'.rawSocket = r.rawSocket
  optionsRawSocket : r'.optionsRawSocket = r.optionsRawSocket
  probeRouter : r'.probeRouter = r.probeRouter
  anonymous : ∀ p ∈ r'.anonymousPipes, p ∈ r.anonymousPipes ∨ come = some p
  outlets : ∀ p, Outlet.Drifts (e.outlets p) (e'.outlets p)

theorem Aside.same (ho : e'.outlets = e.outlets) (hc : r'.currentOut = r.currentOut) (hm : r'.moreOut = r.moreOut)
    (hr : r'.rawSocket = r.rawSocket) (hor : r'.optionsRawSocket = r.optionsRawSocket) (hp : r'.probeRouter = r.probeRouter)
    (ha : ∀ p ∈ r'.anonymousPipes, p ∈ r.anonymousPipes ∨ come = some p) : Aside come r e r' e' :=
  ⟨hc, hm, hr, hor, hp, ha, fun p => by rw [ho]; exact .refl _⟩

theorem Aside.trans (h : Aside come r e r1 e1) (h' : Aside come r1 e1 r' e') : Aside come r e r' e' :=
  ⟨h'.currentOut.trans h.currentOut, h'.moreOut.trans h.moreOut, h'.rawSocket.trans h.rawSocket,
    h'.optionsRawSocket.trans h.optionsRawSocket, h'.probeRouter.trans h.probeRouter,
    fun p hp => (h'.anonymous p hp).elim (h.anonymous p) .inr,
    fun p => (h.outlets p).trans (h'.outlets p)⟩

variable [DecidableEq P] {got : Bool}

theorem Aside.terminate {delay : Bool} (hc : r'.currentOut = r.currentOut) (hm : r'.moreOut = r.moreOut)
    (hr : r'.rawSocket = r.rawSocket) (hor : r'.optionsRawSocket = r.optionsRawSocket) (hp : r'.probeRouter = r.probeRouter)
    (ha : ∀ p ∈ r'.anonymousPipes, p ∈ r.anonymousPipes ∨ come = some p) : Aside come r e r' (e.terminate p delay) := by
  refine ⟨hc, hm, hr, hor, hp, ha, fun q => ?_⟩
  rcases eq_or_ne q p with rfl | hne
  · rw [show (e.terminate q delay).outlets q = (e.outlets q).terminate delay from update_self _ _ _]
    exact Outlet.terminate_drifts
  · rw [show (e.terminate p delay).outlets q = e.outlets q from update_of_ne hne _ _]
    exact .refl _

theorem register_aside (hx : r.register e p identity = .ok (got, r', e')) : Aside come r e r' e' := by
  unfold register at hx
  split_ifs at hx
  cases hx
  exact .same rfl rfl rfl rfl rfl rfl fun _ => .inl

theorem handOver_aside {existing : OutpipeT P} (hx : r.handOver e identity existing = .ok (r', e')) : Aside come r e r' e' := by
  unfold handOver at hx
  dsimp only at hx
  split_ifs at hx
  · cases hx
    exact .same rfl rfl rfl rfl rfl rfl fun _ => .inl
  · cases hx
    have hrename (id) : Aside come r e r (e.setIdentity existing.pipe id) := .same rfl rfl rfl rfl rfl rfl fun _ => .inl
    exact (hrename _).trans (.terminate rfl rfl rfl rfl rfl fun _ => .inl)

theorem identifyPeer_aside (hx : r.identifyPeer e p = .ok (got, r', e')) : Aside come r e r' e' := by
  have hset : ∀ {r1 : RouterT P} {i : Inlet}, r1 = r → Aside come r e r1 (e.setInlet p i) := by
    rintro r1 i rfl
    exact .same rfl rfl rfl rfl rfl rfl fun _ => .inl
  unfold identifyPeer at hx
  split_ifs at hx
  · have h : Aside come { r with connectRid := [] } e r' e' := register_aside hx
    exact ⟨h.currentOut, h.moreOut, h.rawSocket, h.optionsRawSocket, h.probeRouter, h.anonymous, h.outlets⟩
  · have h : Aside come { r with nextRid := r.nextRid + 1 } e r' e' := register_aside hx
    exact ⟨h.currentOut, h.moreOut, h.rawSocket, h.optionsRawSocket, h.probeRouter, h.anonymous, h.outlets⟩
  · obtain ⟨msg, i, hread⟩ : ∃ msg i, (e.inlets p).read = (msg, i) := ⟨_, _, rfl⟩
    rw [hread] at hx
    cases msg with
    | none =>
      cases hx
      exact hset rfl
    | some msg =>
      dsimp only at hx
      split_ifs at hx
      · have h : Aside come { r with nextRid := r.nextRid + 1 } (e.setInlet p i) r' e' := register_aside hx
        exact ⟨h.currentOut, h.moreOut, h.rawSocket, h.optionsRawSocket, h.probeRouter, h.anonymous, h.outlets⟩
      · unfold registerPeer at hx
        cases hl : r.outpipes.lookup msg.data with
        | none =>
          rw [hl] at hx
          exact (hset rfl).trans (register_aside hx)
        | some existing =>
          rw [hl] at hx
          split_ifs at hx
          · obtain ⟨⟨r1, e1⟩, hover, hx⟩ := bind_ok hx
            exact (hset rfl).trans ((handOver_aside hover).trans (register_aside hx))
          · cases hx
            exact hset rfl

theorem xattachPipe_aside (hp : r.probeRouter = false) (hx : r.xattachPipe e p = .ok (r', e')) : Aside (some p) r e r' e' := by
  unfold xattachPipe at hx
  rw [hp] at hx
  obtain ⟨⟨got, r1, e1⟩, hid, hx⟩ := bind_ok hx
  cases hx
  refine (identifyPeer_aside hid).trans ?_
  split_ifs
  · exact .same rfl rfl rfl rfl rfl rfl fun _ => .inl
  · exact .same rfl rfl rfl rfl rfl rfl fun q hq => (Finset.mem_insert.mp hq).symm.imp_right fun h => congrArg some h.symm

theorem xreadActivated_aside (hx : r.xreadActivated e p = .ok (r', e')) : Aside come r e r' e' := by
  unfold xreadActivated at hx
  split_ifs at hx
  · obtain ⟨⟨got, r1, e1⟩, hid, hx⟩ := bind_ok hx
    cases hx
    refine (identifyPeer_aside hid).trans ?_
    split_ifs
    · exact .same rfl rfl rfl rfl rfl rfl fun q hq => .inl (Finset.mem_of_mem_erase hq)
    · exact .same rfl rfl rfl rfl rfl rfl fun _ => .inl
  · cases hx
    exact .same rfl rfl rfl rfl rfl rfl fun _ => .inl

theorem fetch_aside {got : Option (P × Msg)} (hx : r.fetch e = .ok (got, r', e')) : Aside come r e r' e' := by
  obtain ⟨⟨got1, fq, inlets⟩, -, hx⟩ := bind_ok hx
  cases hx
  exact .same rfl rfl rfl rfl rfl rfl fun _ => .inl

theorem finish_aside : Aside come r e (r.finish e m).1 (r.finish e m).2 := by
  unfold finish
  split_ifs
  · exact .same rfl rfl rfl rfl rfl rfl fun _ => .inl
  · split
    · exact .terminate rfl rfl rfl rfl rfl fun _ => .inl
    · exact .same rfl rfl rfl rfl rfl rfl fun _ => .inl

theorem xrecv_aside {got : Option Msg} (hx : r.xrecv e = .ok (got, r', e')) : Aside come r e r' e' := by
  have hfinish : ∀ {r1 : RouterT P} {e1 : Ends P} {m : Msg}, r1.finish e1 m = (r', e') → Aside come r e r1 e1 → Aside come r e r' e' := by
    intro r1 e1 m he h
    have h' : Aside come r1 e1 (r', e').1 (r', e').2 := he ▸ finish_aside
    exact h.trans h'
  unfold xrecv at hx
  split_ifs at hx
  · obtain ⟨-, he⟩ := ok_pair hx
    exact hfinish he (.same rfl rfl rfl rfl rfl rfl fun _ => .inl)
  · obtain ⟨-, he⟩ := ok_pair hx
    exact hfinish he (.same rfl rfl rfl rfl rfl rfl fun _ => .inl)
  · obtain ⟨⟨got1, r1, e1⟩, hfetch, hx⟩ := bind_ok hx
    have hf : Aside come r e r1 e1 := fetch_aside hfetch
    cases got1 with
    | none =>
      cases hx
      exact hf
    | some y =>
      dsimp only at hx
      split_ifs at hx
      · obtain ⟨-, he⟩ := ok_pair hx
        exact hfinish he hf
      · cases hx
        exact hf.trans (.same rfl rfl rfl rfl rfl rfl fun _ => .inl)

theorem xhasIn_aside {rc : Bool} (hx : r.xhasIn e = .ok (rc, r', e')) : Aside come r e r' e' := by
  unfold xhasIn at hx
  split_ifs at hx
  · cases hx
    exact .same rfl rfl rfl rfl rfl rfl fun _ => .inl
  · obtain ⟨⟨got1, r1, e1⟩, hfetch, hx⟩ := bind_ok hx
    have hf : Aside come r e r1 e1 := fetch_aside hfetch
    cases got1 with
    | none =>
      cases hx
      exact hf
    | some y =>
      cases hx
      exact hf.trans (.same rfl rfl rfl rfl rfl rfl fun _ => .inl)

end RouterT

structure Addressing (P : Type) where
  routing : Routing P
  /-- the messages of which every frame has been accepted, with the pipe of the peer they are for -/
  sent : List (Option P × List Msg)
  begun : Option (Option P × List Msg)

namespace Addressing

open RouterT
open LoadBalancer (frame frameMore endOf)

variable {P : Type}

def new (nextRid : UInt32) : Addressing P := ⟨.new nextRid, [], none⟩

/-- Besides what pipes keep to as ends of a router: a pipe that is attached has not been written to, the socket is not raw
and sends no probes, and no frame is a delimiter. -/
def Ready (s : Addressing P) (op : Routing.Op P) : Prop :=
  s.routing.Ready op ∧ match op with
    | .attach p self _ => (s.routing.ends.outlets p).written = [] ∧ self.outpipe ≠ none
    | .xsetsockopt (.raw _) | .xsetsockopt (.probe _) => False
    | .xsend m => m.isDelimiter = false
    | _ => True

variable [DecidableEq P]

instance (s : Addressing P) (op : Routing.Op P) : Decidable (s.Ready op) := by
  unfold Ready
  induction op using Routing.Op.casesOn with
  | xsetsockopt opt => induction opt using RouterOption.casesOn <;> infer_instance
  | _ => infer_instance

/-- What the user has sent after another frame, which names the peer or belongs to the message. -/
def noted (s : Addressing P) (r : Routing P) (m : Msg) : Addressing P :=
  match s.begun with
  | none =>
    if r.router.moreOut then ⟨r, s.sent, some ((s.routing.router.outpipes.lookup m.data).map OutpipeT.pipe, [])⟩
    else ⟨r, s.sent, none⟩
  | some (peer, frames) =>
    if m.hasMore then ⟨r, s.sent, some (peer, frames ++ [m])⟩ else ⟨r, s.sent ++ [(peer, frames ++ [m])], none⟩

def run (s : Addressing P) (op : Routing.Op P) : Except SocketFault (Addressing P) := do
  let r ← s.routing.run op
  match op with
  | .xsend m => return s.noted r m
  | _ => return { s with routing := r }

def Start (s : Addressing P) : Prop := ∃ nextRid, s = new nextRid

abbrev Step : Addressing P → Routing.Op P → Addressing P → Prop := Does Ready run

def Delivered (sent : List (Option P × List Msg)) (outlets : P → Outlet) : Prop :=
  ∃ kept : List (Option P × List Msg), kept.Sublist sent ∧
    ∀ p, (outlets p).written = (kept.filter fun x => x.1 = some p).flatMap Prod.snd

/-- What a pipe that can be written to holds of an unfinished message is what has been sent of the message to it, and
the entry of a pipe says so when the pipe is not to be written to. -/
structure Addressed (s : Addressing P) : Prop where
  complete : Delivered s.sent s.routing.ends.outlets
  part : ∀ p, (s.routing.ends.outlets p).self.state = .active → (s.routing.ends.outlets p).part = [] ∨
    s.begun = some (some p, (s.routing.ends.outlets p).part)
  active : ∀ id x, s.routing.router.outpipes.lookup id = some x → (s.routing.ends.outlets x.pipe).self.state = .active →
    (s.routing.ends.outlets x.pipe).self.outActive = false → x.active = false

/-- A pipe that can be activated is. -/
def Safe (s : Addressing P) : Prop :=
  ∀ p n, s.Ready (.writeActivated p n) → ∃ s', s.run (.writeActivated p n) = .ok s'

/-- The pipe of a message does not fill up within the message. -/
def Keeps (s : Addressing P) : Routing.Op P → Prop
  | .xsend _ => s.routing.router.moreOut = true → ∀ p ∈ s.routing.router.currentOut,
      (s.routing.ends.outlets p).self.state = .active → (s.routing.ends.outlets p).self.checkHwm = true
  | _ => True

instance (s : Addressing P) (op : Routing.Op P) : Decidable (s.Keeps op) := by
  induction op using Routing.Op.casesOn <;> unfold Keeps <;> infer_instance

def frames (begun : Option (Option P × List Msg)) : List Msg := (begun.map Prod.snd).getD []

structure Writes (r : RouterT P) (e : Ends P) (attached : Finset P) (sent : List (Option P × List Msg))
    (begun : Option (Option P × List Msg)) : Prop where
  raw : r.rawSocket = false ∧ r.optionsRawSocket = false
  probe : r.probeRouter = false
  more : begun.isSome = r.moreOut
  current : ∀ p, r.currentOut = some p → (p ∈ attached ∧ p ∉ r.anonymousPipes) ∧ begun = some (some p, frames begun) ∧
    ((e.outlets p).self.state = .active → (e.outlets p).self.outActive = true)
  part : ∀ p, (e.outlets p).self.state = .active →
    (e.outlets p).part = if r.currentOut = some p then frames begun else []
  linked : ∀ p, (e.outlets p).self.state = .active → (e.outlets p).self.outpipe ≠ none
  plain : ∀ m ∈ frames begun, m.isDelimiter = false
  complete : Delivered sent e.outlets

structure Sound (s : Addressing P) : Prop where
  routing : s.routing.Sound
  writes : Writes s.routing.router s.routing.ends s.routing.attached s.sent s.begun

variable {s s' : Addressing P} {p : P} {m : Msg} {r r' : RouterT P} {e e' : Ends P} {attached attached' : Finset P} {body : List Msg}
  {sent : List (Option P × List Msg)} {begun : Option (Option P × List Msg)}

theorem Sound.addressed (h : s.Sound) : s.Addressed := by
  refine ⟨h.writes.complete, fun p hp => ?_, fun id x hx hs ha => ?_⟩
  · rw [h.writes.part p hp]
    split_ifs with hc
    · exact .inr (h.writes.current p hc).2.1
    · exact .inl rfl
  · have hatt : x.pipe ∈ s.routing.attached := (h.routing.attached _).mpr (.inr ⟨id, x, hx, rfl⟩)
    obtain ⟨id', hx'⟩ := h.routing.idle _ hatt hs ha
    have hid : id' = id := by rw [← h.routing.keyed id' _ hx', ← h.routing.keyed id x hx]
    rw [hid] at hx'
    rw [some.inj (hx.symm.trans hx')]

theorem Sound.safe (h : s.Sound) : s.Safe := by
  intro p n hr
  obtain ⟨r, hx, -⟩ := h.routing.writeActivated (n := n) hr.1.1 hr.1.2.1 hr.1.2.2
  refine ⟨{ s with routing := r }, ?_⟩
  unfold run
  rw [hx]
  rfl

theorem Writes.aside {come : Option P} (h : Writes r e attached sent begun) (ha : Aside come r e r' e')
    (hatt : ∀ p ∈ attached, p ∈ attached') (hcome : ∀ p ∈ come, p ∉ attached) : Writes r' e' attached' sent begun := by
  have hstate : ∀ p, (e'.outlets p).self.state = .active → (e.outlets p).self.state = .active := fun p hp => by
    by_contra hc
    exact (ha.outlets p).closed hc hp
  refine ⟨⟨ha.rawSocket.trans h.raw.1, ha.optionsRawSocket.trans h.raw.2⟩, ha.probeRouter.trans h.probe,
    h.more.trans ha.moreOut.symm, fun p hp => ?_, fun p hp => ?_, fun p hp => ?_, h.plain, ?_⟩
  · obtain ⟨⟨hmem, hanon⟩, hb, hact⟩ := h.current p (ha.currentOut.symm.trans hp)
    refine ⟨⟨hatt p hmem, fun hc => ?_⟩, hb, fun hs => ?_⟩
    · exact (ha.anonymous p hc).elim hanon fun hc => hcome p hc hmem
    exact ((ha.outlets p).inactive (hact (hstate p hs))).resolve_right fun hc => hc hs
  · rw [ha.currentOut, ← h.part p (hstate p hp)]
    exact (ha.outlets p).part.resolve_right fun hc => hc.2 hp
  · exact ((ha.outlets p).linked (h.linked p (hstate p hp))).resolve_right fun hc => hc hp
  · obtain ⟨kept, hsub, hw⟩ := h.complete
    exact ⟨kept, hsub, fun p => (ha.outlets p).written.trans (hw p)⟩

theorem Writes.attach {self : PipeT} {ends : Ends P} (h : Writes r e attached sent begun) (hp : p ∉ attached)
    (hw : (e.outlets p).written = []) (hl : self.outpipe ≠ none)
    (ho : ends.outlets = update e.outlets p ⟨self, Staged.empty⟩) : Writes r ends attached sent begun := by
  have hself : ends.outlets p = ⟨self, Staged.empty⟩ := by rw [ho, update_self]
  have hother : ∀ q, q ≠ p → ends.outlets q = e.outlets q := fun q hne => by rw [ho, update_of_ne hne]
  have hcurrent : r.currentOut ≠ some p := fun hc => hp (h.current p hc).1.1
  refine ⟨h.raw, h.probe, h.more, fun q hq => ?_, fun q hq => ?_, fun q hq => ?_, h.plain, ?_⟩
  · have hne : q ≠ p := by
      rintro rfl
      exact hcurrent hq
    rw [hother q hne]
    exact h.current q hq
  · rcases eq_or_ne q p with rfl | hne
    · rw [if_neg hcurrent, hself]
      exact if_neg hl
    · rw [hother q hne] at hq ⊢
      exact h.part q hq
  · rcases eq_or_ne q p with rfl | hne
    · rw [hself]
      exact hl
    · rw [hother q hne] at hq ⊢
      exact h.linked q hq
  · obtain ⟨kept, hsub, hk⟩ := h.complete
    refine ⟨kept, hsub, fun q => ?_⟩
    rcases eq_or_ne q p with rfl | hne
    · rw [hself, ← hk, hw]
      rfl
    · rw [hother q hne]
      exact hk q

theorem Writes.pipeTerminated (h : Writes r e attached sent begun) (hx : r.xpipeTerminated e p = .ok r') :
    Writes r' (e.setOutlet p (e.outlets p).closed) (attached.erase p) sent begun := by
  have hself : (e.setOutlet p (e.outlets p).closed).outlets p = (e.outlets p).closed := update_self _ _ _
  have hother : ∀ q, q ≠ p → (e.setOutlet p (e.outlets p).closed).outlets q = e.outlets q := fun q hne =>
    update_of_ne hne _ _
  have hne : ∀ q, ((e.setOutlet p (e.outlets p).closed).outlets q).self.state = .active → q ≠ p := by
    rintro q hq rfl
    rw [hself] at hq
    exact PipeState.noConfusion hq
  obtain ⟨hraw, hprobe, hmore, hanon, hcur⟩ : (r'.rawSocket = false ∧ r'.optionsRawSocket = false) ∧ r'.probeRouter = false ∧
      r'.moreOut = r.moreOut ∧ (∀ q ∈ r'.anonymousPipes, q ∈ r.anonymousPipes) ∧
      r'.currentOut = if r.currentOut = some p then none else r.currentOut := by
    unfold xpipeTerminated at hx
    split_ifs at hx with hanon hid
    · cases hx
      have hc : r.currentOut ≠ some p := fun hc => (h.current p hc).1.2 hanon
      exact ⟨h.raw, h.probe, rfl, fun q hq => Finset.mem_of_mem_erase hq, (if_neg hc).symm⟩
    · cases hx
      exact ⟨h.raw, h.probe, rfl, fun q hq => hq, by simp [*]⟩
    · cases hx
      exact ⟨h.raw, h.probe, rfl, fun q hq => hq, by simp [*]⟩
  have hcurrent : ∀ q, q ≠ p → (r'.currentOut = some q ↔ r.currentOut = some q) := fun q hq => by
    rw [hcur]
    split_ifs with hc
    · rw [hc]
      simpa using Ne.symm hq
    · rfl
  have hgone : r'.currentOut ≠ some p := by
    rw [hcur]
    split_ifs with hc
    · exact some_ne_none p ∘ Eq.symm
    · exact hc
  refine ⟨hraw, hprobe, h.more.trans hmore.symm, fun q hq => ?_, fun q hq => ?_, fun q hq => ?_, h.plain, ?_⟩
  · have hqp : q ≠ p := by
      rintro rfl
      exact hgone hq
    obtain ⟨⟨hmem, hnot⟩, hrest⟩ := h.current q ((hcurrent q hqp).mp hq)
    rw [hother q hqp]
    exact ⟨⟨Finset.mem_erase.mpr ⟨hqp, hmem⟩, fun hc => hnot (hanon q hc)⟩, hrest⟩
  · have hqp := hne q hq
    rw [hother q hqp] at hq ⊢
    rw [h.part q hq]
    exact if_congr (hcurrent q hqp).symm rfl rfl
  · have hqp := hne q hq
    rw [hother q hqp] at hq ⊢
    exact h.linked q hq
  · obtain ⟨kept, hsub, hk⟩ := h.complete
    refine ⟨kept, hsub, fun q => ?_⟩
    rw [← hk]
    rcases eq_or_ne q p with rfl | hqp
    · rw [hself]
      rfl
    · rw [hother q hqp]

theorem Writes.writeActivated {n : UInt64} (h : Writes r e attached sent begun) (hx : r.xwriteActivated p = .ok r') :
    Writes r' (e.setOutlet p { e.outlets p with
      self := { (e.outlets p).self with peersMsgsRead := n, outActive := true } }) attached sent begun := by
  have hself : ∀ q, ((e.setOutlet p { e.outlets p with
      self := { (e.outlets p).self with peersMsgsRead := n, outActive := true } }).outlets q).out = (e.outlets q).out ∧
      ((e.setOutlet p { e.outlets p with
        self := { (e.outlets p).self with peersMsgsRead := n, outActive := true } }).outlets q).self.state =
          (e.outlets q).self.state ∧
      ((e.setOutlet p { e.outlets p with
        self := { (e.outlets p).self with peersMsgsRead := n, outActive := true } }).outlets q).self.outpipe =
          (e.outlets q).self.outpipe ∧
      ((e.outlets q).self.outActive = true → ((e.setOutlet p { e.outlets p with
        self := { (e.outlets p).self with peersMsgsRead := n, outActive := true } }).outlets q).self.outActive = true) := by
    intro q
    rcases eq_or_ne q p with rfl | hne
    · rw [show ∀ o, (e.setOutlet q o).outlets q = o from fun o => update_self _ _ _]
      exact ⟨rfl, rfl, rfl, fun _ => rfl⟩
    · rw [show ∀ o, (e.setOutlet p o).outlets q = e.outlets q from fun o => update_of_ne hne _ _]
      exact ⟨rfl, rfl, rfl, id⟩
  obtain ⟨outpipes, rfl⟩ : ∃ outpipes, r' = { r with outpipes := outpipes } := by
    unfold xwriteActivated at hx
    split at hx
    · cases hx
    · split_ifs at hx
      exact ⟨_, (Except.ok.inj hx).symm⟩
  refine ⟨h.raw, h.probe, h.more, fun q hq => ?_, fun q hq => ?_, fun q hq => ?_, h.plain, ?_⟩
  · obtain ⟨hmem, hb, ha⟩ := h.current q hq
    exact ⟨hmem, hb, fun hs => (hself q).2.2.2 (ha ((hself q).2.1.symm.trans hs))⟩
  · have hp := h.part q ((hself q).2.1.symm.trans hq)
    unfold Outlet.part at hp ⊢
    rw [(hself q).1, (hself q).2.2.1]
    exact hp
  · rw [(hself q).2.2.1]
    exact h.linked q ((hself q).2.1.symm.trans hq)
  · obtain ⟨kept, hsub, hk⟩ := h.complete
    refine ⟨kept, hsub, fun q => ?_⟩
    rw [← hk]
    unfold Outlet.written
    rw [(hself q).1]

theorem Delivered.drop {outlets : P → Outlet} {x : Option P × List Msg} (h : Delivered sent outlets) :
    Delivered (sent ++ [x]) outlets := by
  obtain ⟨kept, hsub, hk⟩ := h
  exact ⟨kept, hsub.trans (sublist_append_left _ _), hk⟩

theorem Delivered.fades {o : Outlet} (h : Delivered sent e.outlets) (hf : Outlet.Fades (e.outlets p) o) :
    Delivered sent (e.setOutlet p o).outlets := by
  obtain ⟨kept, hsub, hk⟩ := h
  refine ⟨kept, hsub, fun q => ?_⟩
  rw [← hk]
  rcases eq_or_ne q p with rfl | hne
  · rw [show (e.setOutlet q o).outlets q = o from update_self _ _ _]
    exact hf.written
  · rw [show (e.setOutlet p o).outlets q = e.outlets q from update_of_ne hne _ _]

theorem Delivered.complete {o : Outlet} (h : Delivered sent e.outlets)
    (hw : o.written = (e.outlets p).written ++ body) : Delivered (sent ++ [(some p, body)]) (e.setOutlet p o).outlets := by
  obtain ⟨kept, hsub, hk⟩ := h
  refine ⟨kept ++ [(some p, body)], hsub.append (List.Sublist.refl _), fun q => ?_⟩
  rw [filter_append, flatMap_append, ← hk]
  rcases eq_or_ne q p with rfl | hne
  · rw [show (e.setOutlet q o).outlets q = o from update_self _ _ _, hw]
    simp
  · rw [show (e.setOutlet p o).outlets q = e.outlets q from update_of_ne hne _ _,
      filter_cons_of_neg (by simpa using Ne.symm hne)]
    simp

theorem Writes.idle (h : Writes r e attached sent none) : r.currentOut = none := by
  rw [eq_none_iff_forall_not_mem]
  intro p hp
  exact some_ne_none _ (h.current p hp).2.1.symm

theorem Writes.start {moreOut : Bool} {outpipes} {peer : Option P} {o : Outlet}
    (h : Writes r e attached sent none) (hf : Outlet.Fades (e.outlets p) o) :
    Writes { r with moreOut := moreOut, outpipes := outpipes } (e.setOutlet p o) attached sent
      (if moreOut then some (peer, []) else none) := by
  have hother : ∀ q, q ≠ p → (e.setOutlet p o).outlets q = e.outlets q := fun q hne => update_of_ne hne _ _
  have hself : (e.setOutlet p o).outlets p = o := update_self _ _ _
  have hactive : o.self.state = .active → (e.outlets p).self.state = .active := fun hs => by
    by_contra hc
    exact hf.closed hc hs
  have hcur : ∀ q, r.currentOut ≠ some q := fun q hc => some_ne_none q (hc.symm.trans h.idle)
  refine ⟨h.raw, h.probe, by cases moreOut <;> rfl, fun q hq => absurd hq (hcur q), fun q hq => ?_, fun q hq => ?_,
    fun m hm => ?_, h.complete.fades hf⟩
  · rw [if_neg (hcur q)]
    rcases eq_or_ne q p with rfl | hne
    · rw [hself] at hq ⊢
      have hp := h.part q (hactive hq)
      rw [if_neg (hcur q)] at hp
      exact (hf.part.resolve_right fun hc => hc.2 hq).trans hp
    · rw [hother q hne] at hq ⊢
      exact (h.part q hq).trans (if_neg (hcur q))
  · rcases eq_or_ne q p with rfl | hne
    · rw [hself] at hq ⊢
      exact (hf.linked (h.linked q (hactive hq))).resolve_right fun hc => hc hq
    · rw [hother q hne] at hq ⊢
      exact h.linked q hq
  · cases moreOut <;> exact nomatch hm

theorem Writes.sendIdentity {rc : RouterRc} (h : Writes r e attached sent none)
    (hid : ∀ id x, r.outpipes.lookup id = some x → x.pipe ∈ attached ∧ x.pipe ∉ r.anonymousPipes)
    (hx : r.sendIdentity e m = (rc, r', e')) : Writes r' e' attached sent
      (if r'.moreOut then some ((r.outpipes.lookup m.data).map OutpipeT.pipe, []) else none) := by
  have hcur : ∀ q, r.currentOut ≠ some q := fun q hc => some_ne_none q (hc.symm.trans h.idle)
  have hnowhere : ∀ (moreOut : Bool) (peer : Option P), Writes { r with moreOut := moreOut } e attached sent
      (if moreOut then some (peer, []) else none) := by
    intro moreOut peer
    refine ⟨h.raw, h.probe, by cases moreOut <;> rfl, fun q hq => absurd hq (hcur q), fun q hq => ?_, h.linked,
      fun m hm => (by cases moreOut <;> cases hm), h.complete⟩
    rw [if_neg (hcur q)]
    exact (h.part q hq).trans (if_neg (hcur q))
  unfold RouterT.sendIdentity at hx
  split at hx
  · split at hx
    · rename_i x hl
      dsimp only at hx
      cases hw : (e.outlets x.pipe).self.checkWrite.1 with
      | true =>
        obtain ⟨ha, hs, hcheck⟩ := Outlet.checkWrite_true hw
        rw [hcheck, show e.setOutlet x.pipe (e.outlets x.pipe) = e from by
          rw [Ends.setOutlet, update_eq_self]] at hx
        cases hx
        rw [if_pos rfl, hl]
        refine ⟨h.raw, h.probe, rfl, fun q hq => ?_, fun q hq => ?_, h.linked, by rintro _ ⟨⟩, h.complete⟩
        · cases hq
          exact ⟨hid _ _ hl, rfl, fun _ => ha⟩
        · rw [h.part q hq]
          split_ifs <;> rfl
      | false =>
        rw [if_neg (by rw [show (e.outlets x.pipe).checkWrite.1 = false from hw]; exact Bool.false_ne_true)] at hx
        split_ifs at hx
        · cases hx
          exact @Writes.start P _ x.pipe r e attached sent false _ none _ h Outlet.refuse_fades
        · cases hx
          exact @Writes.start P _ x.pipe r e attached sent true _ _ _ h Outlet.refuse_fades
    · split_ifs at hx
      · cases hx
        exact hnowhere false none
      · cases hx
        exact hnowhere true _
  · cases hx
    rw [if_neg (by rw [show r.moreOut = false from h.more.symm]; exact Bool.false_ne_true)]
    exact h

theorem Writes.drop {peer : Option P} {p : P} {o : Outlet} (h : Writes r e attached sent (some (peer, body)))
    (hd : m.isDelimiter = false) (hf : Outlet.Fades (e.outlets p) o) (hs : o.self.state ≠ .active)
    (hp : ∀ q, r.currentOut = some q → q = p) :
    Writes { r with moreOut := m.hasMore, currentOut := none } (e.setOutlet p o) attached
      (if m.hasMore then sent else sent ++ [(peer, body ++ [m])]) (if m.hasMore then some (peer, body ++ [m]) else none) := by
  have hne : ∀ q, ((e.setOutlet p o).outlets q).self.state = .active →
      q ≠ p ∧ (e.setOutlet p o).outlets q = e.outlets q := by
    intro q hq
    have hqp : q ≠ p := by
      rintro rfl
      rw [show (e.setOutlet q o).outlets q = o from update_self _ _ _] at hq
      exact hs hq
    exact ⟨hqp, update_of_ne hqp _ _⟩
  refine ⟨h.raw, h.probe, by cases m.hasMore <;> rfl, fun q hq => absurd hq (some_ne_none q).symm, fun q hq => ?_,
    fun q hq => ?_, fun x hx => ?_, ?_⟩
  · obtain ⟨hqp, he⟩ := hne q hq
    rw [he] at hq ⊢
    exact (h.part q hq).trans (if_neg fun hc => hqp (hp q hc))
  · obtain ⟨-, he⟩ := hne q hq
    rw [he] at hq ⊢
    exact h.linked q hq
  · split_ifs at hx
    · exact (mem_append.mp hx).elim (h.plain x) fun hx => by rwa [mem_singleton.mp hx]
    · exact nomatch hx
  · split_ifs
    · exact h.complete.fades hf
    · exact (h.complete.fades hf).drop

theorem Writes.write {peer : Option P} {p : P} (h : Writes r e attached sent (some (peer, body)))
    (hd : m.isDelimiter = false) (hp : r.currentOut = some p) (hw : (e.outlets p).self.checkWrite.1 = true) :
    Writes { r with moreOut := m.hasMore, currentOut := if m.hasMore then r.currentOut else none }
      (e.setOutlet p (if m.hasMore then (e.outlets p).accept m else ((e.outlets p).accept m).flush)) attached
      (if m.hasMore then sent else sent ++ [(peer, body ++ [m])]) (if m.hasMore then some (peer, body ++ [m]) else none) := by
  obtain ⟨ha, hs, -⟩ := Outlet.checkWrite_true hw
  obtain ⟨hmem, hb, -⟩ := h.current p hp
  have hpart : (e.outlets p).part = body := (h.part p hs).trans (if_pos hp)
  have hlink := h.linked p hs
  obtain rfl : peer = some p := (Prod.mk.inj (some.inj hb)).1
  have hother : ∀ o q, q ≠ p → (e.setOutlet p o).outlets q = e.outlets q := fun o q hne => update_of_ne hne _ _
  have hself : ∀ o, (e.setOutlet p o).outlets p = o := fun o => update_self _ _ _
  cases hm : m.hasMore with
  | true =>
    simp only [if_true]
    obtain ⟨hpart', hwritten⟩ := Outlet.accept_more hm hlink
    refine ⟨h.raw, h.probe, rfl, fun q hq => ?_, fun q hq => ?_, fun q hq => ?_, fun x hx => ?_, ?_⟩
    · cases hq.symm.trans hp
      rw [hself]
      exact ⟨hmem, rfl, fun _ => ha⟩
    · rcases eq_or_ne q p with rfl | hne
      · rw [hself, hpart', hpart, if_pos hp]
        rfl
      · rw [hother _ q hne] at hq ⊢
        rw [h.part q hq, if_neg, if_neg] <;> exact fun hc => hne (some.inj (hc.symm.trans hp))
    · rcases eq_or_ne q p with rfl | hne
      · rw [hself]
        exact hlink
      · rw [hother _ q hne] at hq ⊢
        exact h.linked q hq
    · exact (mem_append.mp hx).elim (h.plain x) fun hx => by rwa [mem_singleton.mp hx]
    · obtain ⟨kept, hsub, hk⟩ := h.complete
      refine ⟨kept, hsub, fun q => ?_⟩
      rcases eq_or_ne q p with rfl | hne
      · rw [hself, hwritten, hk]
      · rw [hother _ q hne, hk]
  | false =>
    simp only [Bool.false_eq_true, if_false]
    obtain ⟨hpart', hwritten⟩ := Outlet.accept_last hm hd (by rw [hpart]; exact h.plain) hlink
    refine ⟨h.raw, h.probe, rfl, fun q hq => absurd hq (some_ne_none q).symm, fun q hq => ?_, fun q hq => ?_,
      nofun, h.complete.complete ?_⟩
    · rw [if_neg (some_ne_none q).symm]
      rcases eq_or_ne q p with rfl | hne
      · rw [hself, Outlet.flush_part, hpart']
      · rw [hother _ q hne] at hq ⊢
        exact (h.part q hq).trans (if_neg fun hc => hne (some.inj (hc.symm.trans hp)))
    · rcases eq_or_ne q p with rfl | hne
      · rw [hself, Outlet.flush_self]
        exact hlink
      · rw [hother _ q hne] at hq ⊢
        exact h.linked q hq
    · rw [Outlet.flush_written, hwritten, hpart, append_assoc]

theorem Writes.sendPart {peer : Option P} (h : Writes r e attached sent (some (peer, body))) (hd : m.isDelimiter = false)
    (hk : ∀ p ∈ r.currentOut, (e.outlets p).self.state = .active → (e.outlets p).self.checkHwm = true) :
    Writes (r.sendPart e m).1 (r.sendPart e m).2 attached
      (if m.hasMore then sent else sent ++ [(peer, body ++ [m])]) (if m.hasMore then some (peer, body ++ [m]) else none) := by
  unfold RouterT.sendPart
  rw [if_neg (by rw [h.raw.2]; exact Bool.false_ne_true)]
  cases hp : r.currentOut with
  | none =>
    dsimp only
    refine ⟨h.raw, h.probe, by cases m.hasMore <;> rfl, fun q hq => absurd hq (some_ne_none q).symm,
      fun q hq => ?_, h.linked, fun x hx => ?_, ?_⟩
    · exact (h.part q hq).trans (if_neg fun hc => some_ne_none q (hc.symm.trans hp))
    · split_ifs at hx
      · exact (mem_append.mp hx).elim (h.plain x) fun hx => by rwa [mem_singleton.mp hx]
      · exact nomatch hx
    · split_ifs
      · exact h.complete
      · exact h.complete.drop
  | some p =>
    dsimp only
    rw [if_neg (by rw [h.raw.1]; exact fun hc => Bool.false_ne_true hc.1)]
    cases hw : (e.outlets p).self.checkWrite.1 with
    | true =>
      rw [Outlet.write_done hw]
      have hwrite := h.write hd hp hw
      cases hm : m.hasMore with
      | true =>
        simp only [hm, if_true] at hwrite ⊢
        exact hp ▸ hwrite
      | false =>
        simp only [hm, Bool.false_eq_true, if_false] at hwrite ⊢
        exact hwrite
    | false =>
      rw [Outlet.write_refused hw]
      have hs : (e.outlets p).self.state ≠ .active := by
        intro hs
        rw [Pair.checkWrite_fst, hs, hk p hp hs, (h.current p hp).2.2 hs] at hw
        exact absurd hw (by decide)
      exact h.drop hd Outlet.refuse_fades (by rwa [Outlet.refuse_state]) fun q hq => some.inj (hq.symm.trans hp)

theorem Sound.xsend {r : Routing P} (h : s.Sound) (hd : m.isDelimiter = false) (hk : s.Keeps (.xsend m))
    (hx : s.routing.run (.xsend m) = .ok r) : (s.noted r m).Sound := by
  have hrouting : r.Sound := Routing.Sound.run h.routing (show s.routing.Ready (.xsend m) from trivial) (fun hm _ => hk hm) hx
  have hid : ∀ id x, s.routing.router.outpipes.lookup id = some x →
      x.pipe ∈ s.routing.attached ∧ x.pipe ∉ s.routing.router.anonymousPipes := fun id x hl =>
    ⟨(h.routing.attached _).mpr (.inr ⟨id, x, hl, rfl⟩), fun hc => h.routing.disjoint _ hc ⟨id, x, hl, rfl⟩⟩
  obtain ⟨⟨rc, r', e'⟩, h1, hx⟩ := bind_ok hx
  cases hx
  have hw := h.writes
  unfold noted
  unfold RouterT.xsend at h1
  cases hb : s.begun with
  | none =>
    rw [hb] at hw
    rw [if_neg (by rw [show s.routing.router.moreOut = false from hw.more.symm]; exact Bool.false_ne_true), if_pos hw.idle] at h1
    have hw := hw.sendIdentity hid (Except.ok.inj h1)
    dsimp only
    split_ifs with hm
    · rw [if_pos hm] at hw
      exact ⟨hrouting, hw⟩
    · rw [if_neg hm] at hw
      exact ⟨hrouting, hw⟩
  | some x =>
    obtain ⟨peer, body⟩ := x
    rw [hb] at hw
    have hm : s.routing.router.moreOut = true := hw.more.symm
    rw [if_pos hm] at h1
    obtain ⟨-, hrest⟩ := ok_pair h1
    obtain ⟨rfl, rfl⟩ := Prod.mk.inj hrest
    have hw := hw.sendPart hd (hk hm)
    cases hmore : m.hasMore with
    | true =>
      rw [hmore, ] at hw
      exact ⟨hrouting, hw⟩
    | false =>
      rw [hmore, ] at hw
      exact ⟨hrouting, hw⟩

theorem Sound.run {op : Routing.Op P} (h : s.Sound) (hr : s.Ready op) (hk : s.Keeps op) (hx : s.run op = .ok s') : s'.Sound := by
  obtain ⟨r, h1, hx⟩ := bind_ok hx
  -- a call that has succeeded has found no identity in use
  have hkeeps : s.routing.Keeps op := by
    by_contra hc
    have herror : s.routing.run op = .error .assertion := by
      cases op with
      | attach p self frames => exact (h.routing.attach hr.1.1 hr.1.2).2 hc
      | readActivated p => exact (h.routing.readActivated hr.1.1 hr.1.2.1 hr.1.2.2).2 hc
      | xsend m => exact absurd (fun hm _ => hk hm) hc
      | _ => exact absurd trivial hc
    exact absurd (h1.symm.trans herror) nofun
  have hrouting : r.Sound := h.routing.run hr.1 hkeeps h1
  have hw := h.writes
  have hsame : ∀ {r' : RouterT P} {e' : Ends P}, Aside none s.routing.router s.routing.ends r' e' →
      Writes r' e' s.routing.attached s.sent s.begun := fun ha => hw.aside ha (fun _ => id) fun p hp => by cases hp
  cases op with
  | attach p self frames =>
    cases hx
    refine ⟨hrouting, ?_⟩
    obtain ⟨⟨r', e'⟩, hattach, h1⟩ := bind_ok h1
    cases h1
    obtain ⟨hnew, hl⟩ := hr.2
    have hw' : Writes s.routing.router (((s.routing.ends.setInlet p ⟨true, frames⟩).setOutlet p ⟨self, Staged.empty⟩).setIdentity p [])
        s.routing.attached s.sent s.begun := hw.attach hr.1.1 hnew hl rfl
    exact hw'.aside (xattachPipe_aside hw.probe hattach) (fun q hq => Finset.mem_insert_of_mem hq) fun q hq => by
      cases hq
      exact hr.1.1
  | drift p i o =>
    cases hx
    refine ⟨hrouting, ?_⟩
    cases h1
    refine hsame ⟨rfl, rfl, rfl, rfl, rfl, fun _ => .inl, fun q => ?_⟩
    rcases eq_or_ne q p with rfl | hne
    · rw [show ((s.routing.ends.setInlet q i).setOutlet q o).outlets q = o from update_self _ _ _]
      exact hr.1.1
    · rw [show ((s.routing.ends.setInlet p i).setOutlet p o).outlets q = s.routing.ends.outlets q from update_of_ne hne _ _]
      exact .refl _
  | readActivated p =>
    cases hx
    refine ⟨hrouting, ?_⟩
    obtain ⟨⟨r', e'⟩, hread, h1⟩ := bind_ok h1
    cases h1
    have hset : Aside none s.routing.router s.routing.ends s.routing.router
        (s.routing.ends.setInlet p { s.routing.ends.inlets p with inActive := true }) :=
      .same rfl rfl rfl rfl rfl rfl fun _ => .inl
    exact hsame (hset.trans (xreadActivated_aside hread))
  | writeActivated p n =>
    cases hx
    refine ⟨hrouting, ?_⟩
    obtain ⟨r', hact, h1⟩ := bind_ok h1
    cases h1
    exact hw.writeActivated hact
  | pipeTerminated p =>
    cases hx
    refine ⟨hrouting, ?_⟩
    obtain ⟨r', hterm, h1⟩ := bind_ok h1
    cases h1
    exact hw.pipeTerminated hterm
  | xsetsockopt opt =>
    cases hx
    refine ⟨hrouting, ?_⟩
    cases h1
    refine hsame ?_
    cases opt with
    | connectRid rid =>
      unfold RouterT.xsetsockopt
      dsimp only
      split_ifs <;> exact .same rfl rfl rfl rfl rfl rfl fun _ => .inl
    | raw on | probe on => exact hr.2.elim
    | mandatory on | handover on => exact .same rfl rfl rfl rfl rfl rfl fun _ => .inl
  | xsend m =>
    cases hx
    exact h.xsend hr.2 hk h1
  | xrecv =>
    cases hx
    refine ⟨hrouting, ?_⟩
    obtain ⟨⟨got, r', e'⟩, hrecv, h1⟩ := bind_ok h1
    cases h1
    exact hsame (xrecv_aside hrecv)
  | xhasIn =>
    cases hx
    refine ⟨hrouting, ?_⟩
    obtain ⟨⟨rc, r', e'⟩, hin, h1⟩ := bind_ok h1
    cases h1
    exact hsame (xhasIn_aside hin)

theorem new_sound (nextRid : UInt32) : (new nextRid : Addressing P).Sound where
  routing := Routing.new_sound nextRid
  writes := by
    refine ⟨⟨rfl, rfl⟩, rfl, rfl, fun p hp => absurd hp (some_ne_none p).symm, fun p hp => ?_, fun p hp => ?_,
      nofun, [], List.Sublist.refl _, fun p => rfl⟩
    · exact absurd hp PipeState.noConfusion
    · exact absurd hp PipeState.noConfusion

theorem run_sound {ops : List (Routing.Op P)} (h : Run Start (Guarded Keeps Step) ops s) : s.Sound :=
  h.invariant Sound (by
    rintro s ⟨nextRid, rfl⟩
    exact new_sound nextRid) fun _ _ _ hs ⟨hk, hr, hx⟩ => hs.run hr hk hx

/-- As long as no pipe fills up within a message, pipes hold the messages addressed to their peers, and an assertion
does not fail when one is activated. -/
theorem messages_addressed {ops : List (Routing.Op P)} (h : Run Start (Guarded Keeps Step) ops s) : s.Addressed ∧ s.Safe :=
  ⟨(run_sound h).addressed, (run_sound h).safe⟩

/-- Messages to two peers and to one that is unknown; a peer goes within the message that is sent to it. -/
def twoPeers : List (Routing.Op ℕ) :=
  [.attach 0 (endOf 1) [Routing.introduction [7]], .attach 1 (endOf 0) [Routing.introduction [8]],
    .xsend (frameMore 7), .xsend (frameMore 1), .xsend (frame 2), .xsend (frameMore 9), .xsend (frame 3),
    .xsend (frameMore 7), .xsend (frame 4), .writeActivated 0 1, .xsend (frameMore 8), .xsend (frameMore 5),
    .pipeTerminated 1, .xsend (frame 6), .xsend (frameMore 7), .xsend (frame 8)]

/-- The message that a pipe had no room for is not sent later. -/
theorem messages_addressed_two : ∃ s : Addressing ℕ, Run Start (Guarded Keeps Step) twoPeers s ∧
    (s.routing.ends.outlets 0).written = [frameMore 1, frame 2, frame 8] ∧ s.Addressed ∧ s.Safe :=
  exists_run (P := fun s => (s.routing.ends.outlets 0).written = [frameMore 1, frame 2, frame 8]) (⟨1, rfl⟩ : Start (new 1))
    (by decide +kernel) fun _ hs hx => ⟨hx, messages_addressed hs⟩

/-- The mark of a pipe is lowered within a message, so that the pipe is full. The peer reads, and another message is
sent to it. -/
def cutShort : List (Routing.Op ℕ) :=
  [.attach 0 (endOf 2) [Routing.introduction [7]], .xsend (frameMore 7), .xsend (frame 1), .xsend (frameMore 7),
    .xsend (frameMore 2),
    .drift 0 ⟨true, []⟩ ⟨{ endOf 1 with msgsWritten := 1 }, ⟨[frame 1], [], [frameMore 2], false⟩⟩,
    .xsend (frame 3), .xsend (frameMore 7), .xsend (frame 4), .writeActivated 0 1, .xsend (frameMore 7), .xsend (frame 5)]

/-- A message that a pipe filled up within is completed by another one; and the assertion fails when such a pipe is
activated. -/
theorem messages_can_be_mixed : (∃ s : Addressing ℕ, Run Start Step cutShort s ∧ ¬ s.Addressed) ∧
      ∃ s : Addressing ℕ, Run Start Step Routing.filledUp s ∧ ¬ s.Addressed ∧ ¬ s.Safe := by
  constructor
  · refine exists_run_free (P := fun s => s.sent = [(some 0, [frame 1]), (some 0, [frameMore 2, frame 3]), (some 0, [frame 4]),
      (some 0, [frame 5])] ∧ (s.routing.ends.outlets 0).written = [frame 1, frameMore 2, frame 5])
      (⟨1, rfl⟩ : Start (new 1)) (by decide +kernel) fun s _ ⟨hsent, hw⟩ h => ?_
    obtain ⟨kept, hsub, hk⟩ := h.complete
    rw [hsent] at hsub
    have hnone : ∀ kept ∈ [(some 0, [frame 1]), (some 0, [frameMore 2, frame 3]), (some 0, [frame 4]),
        (some 0, [frame 5])].sublists, (kept.filter fun x => x.1 = some 0).flatMap Prod.snd ≠
          [frame 1, frameMore 2, frame 5] := by
      decide +kernel
    exact hnone kept (mem_sublists.mpr hsub) ((hk 0).symm.trans hw)
  · refine exists_run_free (P := fun s => (s.routing.ends.outlets 0).self.outActive = false ∧
      s.routing.router.outpipes.lookup [7] = some ⟨0, true⟩ ∧ s.Ready (.writeActivated 0 1) ∧
      (s.run (.writeActivated 0 1)).toBool = false) (⟨1, rfl⟩ : Start (new 1)) (by decide +kernel)
      fun s _ ⟨hidle, hentry, hready, hf⟩ => ⟨fun h => ?_, fun h => ?_⟩
    · exact Bool.noConfusion (h.active _ _ hentry hready.1.2.2 hidle)
    · obtain ⟨s', hx⟩ := h 0 1 hready
      rw [hx] at hf
      exact Bool.noConfusion hf

end Addressing

end Zmq
