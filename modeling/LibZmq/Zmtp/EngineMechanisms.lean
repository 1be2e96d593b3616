import LibZmq.Zmtp.Authorisation
import LibZmq.Zmtp.CurveMessages
import LibZmq.Zmtp.EngineRuns
import LibZmq.Zmtp.ErrorCommands
import LibZmq.Zmtp.HandshakeOrder
import LibZmq.Zmtp.Properties

/-! The mechanisms and the session of the library, as an engine relies on them. -/

namespace Zmq

open List

structure Traffic (μ : Type) where
  encode : μ → Msg → Except Crash (Msg × μ)
  decode : μ → Msg → Except Crash (Except MechErrno Msg × μ)
  base : μ → MechanismBase
  deliver : μ → List Msg → μ

namespace Mechanism

variable {μ α : Type}

/-- `encode` and `decode` of `mechanism_t`. -/
def plainTraffic (base : μ → MechanismBase) (deliver : μ → List Msg → μ) : Traffic μ where
  encode m msg := .ok (msg, m)
  decode m msg := .ok (.ok msg, m)
  base := base
  deliver := deliver

/-- What holds of every state of a mechanism, and what an engine relies on in such a state. -/
structure Reliable (M : Mechanism μ) (T : Traffic μ) (valid : μ → Prop) : Prop where
  next : ∀ {m m' random r}, valid m → M.nextHandshakeCommand m random = .ok (r, m') → valid m'
  process : ∀ {m m' cmd rc}, valid m → M.processHandshakeCommand m cmd = .ok (rc, m') → valid m'
  zap : ∀ {m m' rc}, valid m → M.zapMsgAvailable m = .ok (rc, m') → valid m'
  encode : ∀ {m m' msg msg'}, valid m → T.encode m msg = .ok (msg', m') → valid m'
  decode : ∀ {m m' msg r}, valid m → T.decode m msg = .ok (r, m') → valid m'
  deliver : ∀ {m} frames, valid m → valid (T.deliver m frames)
  next_ok : ∀ {m m' random cmd}, valid m → M.nextHandshakeCommand m random = .ok (.ok cmd, m') → cmd.data.length ≤ 2048 ∧
    ∀ {random' r m''}, M.nextHandshakeCommand m' random' = .ok (r, m'') → ∃ errno, r = .error errno
  next_error : ∀ {m m' random errno}, valid m → M.status m = .handshaking → M.nextHandshakeCommand m random = .ok (.error errno, m') →
    M.status m' ≠ .ready
  process_again : ∀ {m m' cmd}, valid m → M.status m ≠ .ready → M.processHandshakeCommand m cmd = .ok (.error .eagain, m') →
    M.status m' ≠ .ready
  zap_ok : ∀ {m m'}, M.status m ≠ .ready → M.zapMsgAvailable m = .ok (.ok, m') → M.status m' ≠ .ready
  deliver_status : ∀ m frames, M.status (T.deliver m frames) = M.status m
  encode_length : ∀ {m m' msg msg'}, T.encode m msg = .ok (msg', m') → msg'.data.length ≤ msg.data.length + 64

/-- The states in which calls leave a mechanism, in any order. -/
inductive Reached (M : Mechanism μ) (T : Traffic μ) (start : μ → Prop) : μ → Prop
  | start {m} (h : start m) : Reached M T start m
  | next {m m' random r} (hm : Reached M T start m) (h : M.nextHandshakeCommand m random = .ok (r, m')) : Reached M T start m'
  | process {m m' cmd rc} (hm : Reached M T start m) (h : M.processHandshakeCommand m cmd = .ok (rc, m')) : Reached M T start m'
  | zap {m m' rc} (hm : Reached M T start m) (h : M.zapMsgAvailable m = .ok (rc, m')) : Reached M T start m'
  | encode {m m' msg msg'} (hm : Reached M T start m) (h : T.encode m msg = .ok (msg', m')) : Reached M T start m'
  | decode {m m' msg r} (hm : Reached M T start m) (h : T.decode m msg = .ok (r, m')) : Reached M T start m'
  | deliver {m} (frames : List Msg) (hm : Reached M T start m) : Reached M T start (T.deliver m frames)

theorem Reliable.reached {M : Mechanism μ} {T : Traffic μ} {valid start : μ → Prop} (h : M.Reliable T valid)
    (hs : ∀ m, start m → valid m) : M.Reliable T (M.Reached T start) := by
  have hv : ∀ {m}, M.Reached T start m → valid m := fun hm => by
    induction hm with
    | start hm => exact hs _ hm
    | next _ hx ih => exact h.next ih hx
    | process _ hx ih => exact h.process ih hx
    | zap _ hx ih => exact h.zap ih hx
    | encode _ hx ih => exact h.encode ih hx
    | decode _ hx ih => exact h.decode ih hx
    | deliver frames _ ih => exact h.deliver frames ih
  exact { h with
    next := .next
    process := .process
    zap := .zap
    encode := .encode
    decode := .decode
    deliver := .deliver
    next_ok := fun hm => h.next_ok (hv hm)
    next_error := fun hm => h.next_error (hv hm)
    process_again := fun hm => h.process_again (hv hm) }

/-- A call that leaves a state in which the invariant holds. -/
def kept (valid : μ → Prop) (x : Except Crash (α × μ)) (h : ∀ a m, x = .ok (a, m) → valid m) :
    Except Crash (α × { m // valid m }) :=
  match x, h with
  | .error crash, _ => .error crash
  | .ok (a, m), h => .ok (a, ⟨m, h a m rfl⟩)

theorem kept_ok {valid : μ → Prop} {x : Except Crash (α × μ)} {h : ∀ a m, x = .ok (a, m) → valid m} {a : α}
    {k : { m // valid m }} (hx : kept valid x h = .ok (a, k)) : x = .ok (a, k.1) := by
  cases x with
  | error crash => cases hx
  | ok r =>
    cases hx
    rfl

/-- A mechanism, and what is random for each of its commands. -/
def Reliable.toEngine {M : Mechanism μ} {T : Traffic μ} {valid : μ → Prop} (h : M.Reliable T valid) :
    EngineMechanism ({ m // valid m } × (ℕ → ℕ → UInt8)) where
  nextHandshakeCommand k := do
    let (r, m) ← kept valid (M.nextHandshakeCommand k.1.1 (k.2 0)) fun _ _ hx => h.next k.1.2 hx
    return (r, m, fun i => k.2 (i + 1))
  processHandshakeCommand k cmd := do
    let (rc, m) ← kept valid (M.processHandshakeCommand k.1.1 cmd) fun _ _ hx => h.process k.1.2 hx
    return (rc, m, k.2)
  zapMsgAvailable k := do
    let (rc, m) ← kept valid (M.zapMsgAvailable k.1.1) fun _ _ hx => h.zap k.1.2 hx
    return (rc, m, k.2)
  status k := M.status k.1.1
  encode k msg := do
    let (msg, m) ← kept valid (T.encode k.1.1 msg) fun _ _ hx => h.encode k.1.2 hx
    return (msg, m, k.2)
  decode k msg := do
    let (r, m) ← kept valid (T.decode k.1.1 msg) fun _ _ hx => h.decode k.1.2 hx
    return (r, m, k.2)
  base k := T.base k.1.1
  deliver k frames := (⟨T.deliver k.1.1 frames, h.deliver frames k.1.2⟩, k.2)
  next_ok := by
    intro m m' cmd hx
    obtain ⟨⟨r, k⟩, hk, hx⟩ := bind_ok hx
    cases hx
    obtain ⟨hsize, hagain⟩ := h.next_ok m.1.2 (kept_ok hk)
    refine ⟨hsize, fun hx => ?_⟩
    obtain ⟨⟨r', k'⟩, hk', hx⟩ := bind_ok hx
    cases hx
    exact hagain (kept_ok hk')
  next_error := by
    intro m m' errno hs hx
    obtain ⟨⟨r, k⟩, hk, hx⟩ := bind_ok hx
    cases hx
    exact h.next_error m.1.2 hs (kept_ok hk)
  process_again := by
    intro m m' cmd hs hx
    obtain ⟨⟨rc, k⟩, hk, hx⟩ := bind_ok hx
    cases hx
    exact h.process_again m.1.2 hs (kept_ok hk)
  zap_ok := by
    intro m m' hs hx
    obtain ⟨⟨rc, k⟩, hk, hx⟩ := bind_ok hx
    cases hx
    exact h.zap_ok hs (kept_ok hk)
  deliver_status frames := h.deliver_status _ frames
  encode_length := by
    intro m m' msg msg' hx
    obtain ⟨⟨r, k⟩, hk, hx⟩ := bind_ok hx
    cases hx
    exact h.encode_length (kept_ok hk)

end Mechanism

theorem Metadata.parseMetadata_errno {m m' : MechanismBase} {b : List UInt8} {zapFlag : Bool} :
    parseMetadata property m b zapFlag ≠ .ok (.error .eagain, m') := by
  intro h
  obtain ⟨hfit, hnone, happ⟩ := cut_spec b
  rw [happ, parseMetadata_cut hfit hnone] at h
  cases hr : reportAll property zapFlag m (cut b).1 with
  | mk e m1 =>
    rw [hr] at h
    cases e with
    | none =>
      unfold ending at h
      split_ifs at h <;> cases h
    | some e =>
      have hfirst : firstRefusal property m.options (cut b).1 = (reportAll property zapFlag m (cut b).1).1 := (reportAll_fst _).symm
      rw [hr] at hfirst
      obtain ⟨p, -, hp⟩ := exists_of_findSome?_eq_some hfirst
      cases h
      unfold refusal property at hp
      split_ifs at hp
      cases hp

theorem errorReason_errno {data : List UInt8} : errorReason data ≠ .error .eagain := by
  unfold errorReason
  split_ifs <;> nofun

theorem addSocketProperties_length {o : MechanismOptions} {size : ℕ} {b r : List UInt8}
    (h : addSocketProperties o size b = .ok r) : r.length ≤ size :=
  (Metadata.addSocketProperties_ok h).2.2

theorem errorCommand_length {code : List UInt8} (length : UInt8) (h : code.length ≤ 3) :
    (errorCommand length code).data.length ≤ 2048 := by
  rw [Refusal.errorCommand_data, length_append]
  exact Nat.le_trans (Nat.add_le_add_left (Nat.succ_le_succ h) _) (show 6 + 4 ≤ 2048 by decide)

namespace ZapMechanism

theorem receive_code {z z' : ZapMechanism} {rejected : MechErrno} {rc : Ret}
    (h : z.receiveAndProcessZapReply rejected = .ok (rc, z')) : z'.statusCode = z.statusCode ∨ z'.statusCode.length = 3 := by
  unfold receiveAndProcessZapReply at h
  cases hr : z.session.readFrames 7 with
  | mk r s =>
    rw [hr] at h
    cases r with
    | error e =>
      cases h
      exact .inl rfl
    | ok frames =>
      dsimp only at h
      split_ifs at h with hbad hstatus
      · cases h
        exact .inl rfl
      · cases h
        exact .inl rfl
      · obtain ⟨⟨rc1, base⟩, -, hret⟩ := bind_ok h
        cases hret
        exact .inr (not_not.mp hstatus)

end ZapMechanism

/-! NULL. -/

namespace NullMechanism

variable {m m' : NullMechanism} {rc : Ret} {r : Except MechErrno Msg}

def traffic : Traffic NullMechanism :=
  Mechanism.plainTraffic (·.base) fun m ms => { m with toZapMechanism := m.toZapMechanism.deliver ms }

/-- A status code that has been kept is of three bytes. -/
def Valid (m : NullMechanism) : Prop := m.statusCode.length ≤ 3

theorem receive_valid (hv : m.Valid) (h : m.receiveAndProcessZapReply = .ok (rc, m')) : m'.Valid := by
  obtain ⟨⟨rc1, z⟩, hz, hret⟩ := bind_ok h
  cases hret
  rcases ZapMechanism.receive_code hz with hcode | hcode
  · exact (congrArg length hcode).trans_le hv
  · exact Nat.le_of_eq hcode

theorem sendZapRequest_valid (hv : m.Valid) (h : m.sendZapRequest = .ok m') : m'.Valid := by
  obtain ⟨z, hz, hret⟩ := bind_ok h
  cases hret
  obtain ⟨-, -, -, -, hcode⟩ := ZapMechanism.sendZapRequest_spec hz
  exact (congrArg length hcode).trans_le hv

theorem produce_valid (hv : m.Valid) (h : m.produce = .ok (r, m')) : m'.Valid ∧ ∃ cmd, r = .ok cmd ∧ cmd.data.length ≤ 2048 := by
  unfold produce at h
  split_ifs at h
  · cases h
    exact ⟨hv, _, rfl, errorCommand_length 3 hv⟩
  · obtain ⟨command, hc, hret⟩ := bind_ok h
    cases hret
    exact ⟨hv, _, rfl, (addSocketProperties_length hc).trans (show 512 ≤ 2048 by decide)⟩

theorem next_cases (hv : m.Valid) (h : m.nextHandshakeCommand = .ok (r, m')) :
    m'.Valid ∧ ((∃ errno, r = .error errno) ∧ m'.readyCommandSent = m.readyCommandSent ∧
        m'.readyCommandReceived = m.readyCommandReceived ∨ ∃ cmd, r = .ok cmd ∧ cmd.data.length ≤ 2048) := by
  unfold nextHandshakeCommand at h
  split_ifs at h with hsent hask hrequest
  · cases h
    exact ⟨hv, .inl ⟨⟨_, rfl⟩, rfl, rfl⟩⟩
  · cases h
    exact ⟨hv, .inl ⟨⟨_, rfl⟩, rfl, rfl⟩⟩
  · obtain ⟨m1, h1, h⟩ := bind_ok h
    obtain ⟨⟨rc, m2⟩, h2, h⟩ := bind_ok h
    have hv1 := sendZapRequest_valid hv h1
    have hv2 := receive_valid (m := { m1 with zapRequestSent := true }) hv1 h2
    cases rc with
    | error e =>
      cases h
      obtain ⟨hsame1, -⟩ := sendZapRequest_spec h1
      obtain ⟨-, hsame2, -⟩ := receive_spec h2
      exact ⟨hv2, .inl ⟨⟨_, rfl⟩, hsame2.readyCommandSent.trans hsame1.readyCommandSent,
        hsame2.readyCommandReceived.trans hsame1.readyCommandReceived⟩⟩
    | ok =>
      obtain ⟨hv', hcmd⟩ := produce_valid (m := { m2 with zapReplyReceived := true }) hv2 h
      exact ⟨hv', .inr hcmd⟩
  · obtain ⟨hv', hcmd⟩ := produce_valid hv h
    exact ⟨hv', .inr hcmd⟩

theorem status_ready : m.status = .ready ↔ m.readyCommandSent = true ∧ m.readyCommandReceived = true := by
  unfold status
  split_ifs with h h'
  · exact iff_of_true rfl (Bool.and_eq_true_iff.mp h)
  · exact iff_of_false nofun fun hc => h (Bool.and_eq_true_iff.mpr hc)
  · exact iff_of_false nofun fun hc => h (Bool.and_eq_true_iff.mpr hc)

theorem status_same (hs : m'.readyCommandSent = m.readyCommandSent) (hr : m'.readyCommandReceived = m.readyCommandReceived)
    (h : m.status ≠ .ready) : m'.status ≠ .ready := by
  intro hc
  rw [status_ready, hs, hr] at hc
  exact h (status_ready.mpr hc)

theorem process_valid {cmd : Msg} (hv : m.Valid) (h : m.processHandshakeCommand cmd = .ok (rc, m')) :
    m'.Valid ∧ rc ≠ .error .eagain := by
  unfold processHandshakeCommand at h
  split_ifs at h
  · cases h
    exact ⟨hv, nofun⟩
  · obtain ⟨⟨rc1, base⟩, hparse, hret⟩ := bind_ok h
    cases hret
    exact ⟨hv, fun hc => Metadata.parseMetadata_errno (hc ▸ hparse)⟩
  · unfold processErrorCommand at h
    cases hreason : errorReason cmd.data with
    | error e =>
      rw [hreason] at h
      cases h
      exact ⟨hv, fun hc => errorReason_errno (Ret.error.inj hc ▸ hreason)⟩
    | ok reason =>
      rw [hreason] at h
      cases h
      exact ⟨hv, nofun⟩
  · cases h
    exact ⟨hv, nofun⟩

theorem zap_cases (h : m.zapMsgAvailable = .ok (rc, m')) : (m.Valid → m'.Valid) ∧
    m'.readyCommandSent = m.readyCommandSent ∧ m'.readyCommandReceived = m.readyCommandReceived := by
  unfold zapMsgAvailable at h
  split_ifs at h
  · cases h
    exact ⟨id, rfl, rfl⟩
  · obtain ⟨⟨rc1, m1⟩, h1, hret⟩ := bind_ok h
    obtain ⟨-, hsame, -⟩ := receive_spec h1
    cases hret
    have hvalid : m.Valid → m1.Valid := fun hv => receive_valid hv h1
    split_ifs <;> exact ⟨hvalid, hsame.readyCommandSent, hsame.readyCommandReceived⟩

theorem reliable : mechanism.Reliable traffic Valid where
  next hv h := (next_cases hv h).1
  process hv h := (process_valid hv h).1
  zap hv h := (zap_cases h).1 hv
  encode hv h := by
    cases h
    exact hv
  decode hv h := by
    cases h
    exact hv
  deliver _ hv := hv
  next_ok {m m' random cmd} hv h := by
    obtain ⟨-, ⟨⟨errno, herror⟩, -⟩ | ⟨cmd', heq, hsize⟩⟩ := next_cases hv h
    · cases herror
    · cases heq
      refine ⟨hsize, fun {random' r m''} h' => ?_⟩
      have hsent : m'.nextHandshakeCommand = .ok (.error .eagain, m') := if_pos (Refusal.null_next h).1
      cases h'.symm.trans hsent
      exact ⟨_, rfl⟩
  next_error {m m' random errno} hv hs h := by
    obtain ⟨-, ⟨-, hsent, hreceived⟩ | ⟨cmd, heq, -⟩⟩ := next_cases hv h
    · exact status_same hsent hreceived (by rw [show m.status = .handshaking from hs]; nofun)
    · cases heq
  process_again hv _ h := absurd rfl (process_valid hv h).2
  zap_ok hs h := status_same (zap_cases h).2.1 (zap_cases h).2.2 hs
  deliver_status _ _ := rfl
  encode_length h := by
    cases h
    exact Nat.le_add_right _ _

end NullMechanism

/-! PLAIN. -/

namespace PlainClient

variable {m m' : PlainClient} {rc : Ret} {cmd : Msg}

def traffic : Traffic PlainClient := Mechanism.plainTraffic (·.base) fun m _ => m

theorem hello_length (h : m.produceHello = .ok cmd) : cmd.data.length ≤ 2048 := by
  obtain ⟨_, hu, h⟩ := bind_ok h
  obtain ⟨_, hp, hret⟩ := bind_ok h
  have hu := Block.assert_eq hu
  have hp := Block.assert_eq hp
  cases hret
  simp only [Msg.ofData_data, length_append, length_cons, helloName, ascii, length_map, length_nil]
  omega

theorem next_cases {r : Except MechErrno Msg} (h : m.nextHandshakeCommand = .ok (r, m')) : (∃ errno, r = .error errno) ∧ m' = m ∨
      ∃ cmd, r = .ok cmd ∧ cmd.data.length ≤ 2048 ∧ (m'.state = .waitingForWelcome ∨ m'.state = .waitingForReady) := by
  unfold nextHandshakeCommand at h
  cases hs : m.state
  case sendingHello =>
    rw [hs] at h
    obtain ⟨cmd, hc, hret⟩ := bind_ok h
    cases hret
    exact .inr ⟨cmd, rfl, hello_length hc, .inl rfl⟩
  case sendingInitiate =>
    rw [hs] at h
    obtain ⟨cmd, hc, hret⟩ := bind_ok h
    cases hret
    obtain ⟨command, hadd, hret⟩ := bind_ok hc
    cases hret
    exact .inr ⟨_, rfl, (addSocketProperties_length hadd).trans (show 512 ≤ 2048 by decide), .inr rfl⟩
  all_goals
    rw [hs] at h
    cases h
    exact .inl ⟨⟨_, rfl⟩, rfl⟩

theorem status_ready : m.status = .ready ↔ m.state = .ready := by
  unfold status
  split
  · exact iff_of_true rfl ‹_›
  · exact iff_of_false nofun (by rw [‹m.state = _›]; nofun)
  · exact iff_of_false nofun ‹_›

theorem process_again (h : m.processHandshakeCommand cmd = .ok (rc, m')) (hrc : rc ≠ .ok) : m'.state = m.state := by
  unfold processHandshakeCommand at h
  split_ifs at h
  · unfold processWelcome at h
    split_ifs at h <;> cases h <;> first | rfl | exact absurd rfl hrc
  · unfold processReady at h
    split_ifs at h
    · cases h
      rfl
    obtain ⟨⟨rc1, base⟩, -, hret⟩ := bind_ok h
    cases hret
    exact if_neg hrc
  · unfold processError at h
    split_ifs at h
    · cases h
      rfl
    split at h <;> cases h <;> first | rfl | exact absurd rfl hrc
  · cases h
    rfl

theorem reliable : mechanism.Reliable traffic fun _ => True where
  next _ _ := trivial
  process _ _ := trivial
  zap _ _ := trivial
  encode _ _ := trivial
  decode _ _ := trivial
  deliver _ _ := trivial
  next_ok {m m' random cmd} _ h := by
    obtain ⟨⟨errno, herror⟩, -⟩ | ⟨cmd', heq, hsize, hstate⟩ := next_cases h
    · cases herror
    · cases heq
      refine ⟨hsize, fun {random' r m''} h' => ?_⟩
      have hwaits : m'.nextHandshakeCommand = .ok (.error .eagain, m') := by
        unfold nextHandshakeCommand
        rcases hstate with hstate | hstate <;> rw [hstate]
      cases h'.symm.trans hwaits
      exact ⟨_, rfl⟩
  next_error {m m' random errno} _ hs h := by
    obtain ⟨-, rfl⟩ | ⟨cmd, heq, -⟩ := next_cases h
    · rw [hs]
      nofun
    · cases heq
  process_again _ hs h hc := hs (status_ready.mpr ((process_again h nofun).symm.trans (status_ready.mp hc)))
  zap_ok hs h := by
    cases h
    exact hs
  deliver_status _ _ := rfl
  encode_length h := by
    cases h
    exact Nat.le_add_right _ _

end PlainClient

namespace PlainServer

variable {m m' : PlainServer} {rc : Ret}

def traffic : Traffic PlainServer :=
  Mechanism.plainTraffic (·.base) fun m ms => { m with toZapMechanism := m.toZapMechanism.deliver ms }

theorem next_cases {r : Except MechErrno Msg} (h : m.nextHandshakeCommand = .ok (r, m')) :
    (∃ errno, r = .error errno) ∧ m' = m ∨ ∃ cmd, r = .ok cmd ∧ cmd.data.length ≤ 2048 ∧
      (m'.state = .waitingForInitiate ∨ m'.state = .ready ∨ m'.state = .errorCommandSent) := by
  unfold nextHandshakeCommand at h
  cases hs : m.state
  case sendingWelcome =>
    rw [hs] at h
    cases h
    exact .inr ⟨_, rfl, show 8 ≤ 2048 by decide, .inl rfl⟩
  case sendingReady =>
    rw [hs] at h
    obtain ⟨cmd, hc, hret⟩ := bind_ok h
    cases hret
    obtain ⟨command, hadd, hret⟩ := bind_ok hc
    cases hret
    exact .inr ⟨_, rfl, (addSocketProperties_length hadd).trans (show 512 ≤ 2048 by decide), .inr (.inl rfl)⟩
  case sendingError =>
    rw [hs] at h
    obtain ⟨cmd, hc, hret⟩ := bind_ok h
    cases hret
    obtain ⟨_, hcode, hret⟩ := bind_ok hc
    cases hret
    exact .inr ⟨_, rfl, errorCommand_length _ (Nat.le_of_eq (Block.assert_eq hcode)), .inr (.inr rfl)⟩
  all_goals
    rw [hs] at h
    cases h
    exact .inl ⟨⟨_, rfl⟩, rfl⟩

theorem status_ready : m.status = .ready ↔ m.state = .ready := by
  unfold status
  split
  · exact iff_of_true rfl ‹_›
  · exact iff_of_false nofun (by rw [‹m.state = _›]; nofun)
  · exact iff_of_false nofun ‹_›

theorem decided_state : m.decided.state = .sendingWelcome ∨ m.decided.state = .sendingError := by
  unfold decided
  split_ifs
  · exact .inl rfl
  · exact .inr rfl

theorem process_unready {cmd : Msg} (h : m.processHandshakeCommand cmd = .ok (rc, m')) (hs : m.state ≠ .ready) :
    m'.state ≠ .ready := by
  unfold processHandshakeCommand at h
  split at h
  · unfold processHello at h
    split at h
    · cases h
      exact hs
    · obtain ⟨⟨rc1, session⟩, -, h⟩ := bind_ok h
      dsimp only at h
      split_ifs at h
      · obtain ⟨m1, h1, h⟩ := bind_ok h
        obtain ⟨⟨rc2, m2⟩, h2, h⟩ := bind_ok h
        obtain ⟨hstate1, -⟩ := sendZapRequest_spec h1
        obtain ⟨-, hstate2, -⟩ := receive_spec h2
        split at h
        · cases h
          rcases decided_state (m := m2) with hd | hd <;> rw [hd] <;> nofun
        · cases h
          nofun
        · cases h
          rwa [hstate2, hstate1]
      · cases h
        nofun
  · unfold processInitiate at h
    split_ifs at h
    · cases h
      exact hs
    · obtain ⟨⟨rc1, base⟩, -, hret⟩ := bind_ok h
      cases hret
      split_ifs
      · nofun
      · exact hs
  · cases h
    exact hs

theorem zap_unready (h : m.zapMsgAvailable = .ok (rc, m')) (hs : m.state ≠ .ready) : m'.state ≠ .ready := by
  unfold zapMsgAvailable at h
  split_ifs at h
  · cases h
    exact hs
  · obtain ⟨⟨rc1, m1⟩, h1, hret⟩ := bind_ok h
    obtain ⟨-, hstate, -⟩ := receive_spec h1
    cases hret
    split_ifs
    · rcases decided_state (m := m1) with hd | hd <;> rw [hd] <;> nofun
    · rwa [hstate]

theorem reliable : mechanism.Reliable traffic fun _ => True where
  next _ _ := trivial
  process _ _ := trivial
  zap _ _ := trivial
  encode _ _ := trivial
  decode _ _ := trivial
  deliver _ _ := trivial
  next_ok {m m' random cmd} _ h := by
    obtain ⟨⟨errno, herror⟩, -⟩ | ⟨cmd', heq, hsize, hstate⟩ := next_cases h
    · cases herror
    · cases heq
      refine ⟨hsize, fun {random' r m''} h' => ?_⟩
      have hwaits : m'.nextHandshakeCommand = .ok (.error .eagain, m') := by
        unfold nextHandshakeCommand
        rcases hstate with hstate | hstate | hstate <;> rw [hstate]
      cases h'.symm.trans hwaits
      exact ⟨_, rfl⟩
  next_error {m m' random errno} _ hs h := by
    obtain ⟨-, rfl⟩ | ⟨cmd, heq, -⟩ := next_cases h
    · rw [hs]
      nofun
    · cases heq
  process_again _ hs h hc := process_unready h (fun hr => hs (status_ready.mpr hr)) (status_ready.mp hc)
  zap_ok hs h hc := zap_unready h (fun hr => hs (status_ready.mpr hr)) (status_ready.mp hc)
  deliver_status _ _ := rfl
  encode_length h := by
    cases h
    exact Nat.le_add_right _ _

end PlainServer

/-! CURVE. -/

namespace Curve

variable {crypto : Crypto} {tag precom : List UInt8} {nonce : UInt64} {m w : Msg}

theorem encodeMessage_length (hl : crypto.Lawful) (ht : tag ∈ [clientTag, serverTag])
    (h : encodeMessage crypto tag nonce precom m = .ok w) : w.data.length ≤ m.data.length + 64 := by
  obtain ⟨c, -, hlen, -, heq⟩ := encodeMessage_eq hl ht nonce precom m
  obtain rfl := Except.ok.inj (h.symm.trans heq)
  have hname : messageName.length = 8 := rfl
  rw [Msg.ofData_data, length_append, length_append, putUint64_length, ]
  omega

theorem strip_length {size : ℕ} {c r : List UInt8} (h : into size c = .ok r) : (strip r).length ≤ size - boxZeroBytes := by
  obtain ⟨hlen, rfl⟩ := into_eq h
  rw [strip, length_drop]
  exact Nat.sub_le_sub_right hlen _

end Curve

namespace CurveClient

open Curve

variable {crypto : Crypto} {m m' : CurveClient} {rc : Ret} {data : List UInt8} {r : Except MechErrno Msg} {random : ℕ → UInt8}

def traffic (crypto : Crypto) : Traffic CurveClient where
  encode := encode crypto
  decode := decode crypto
  base := (·.base)
  deliver m _ := m

structure Valid (m : CurveClient) : Prop where
  cnPublic : m.cnPublic.length ≤ 32
  cnCookie : m.cnCookie.length ≤ 96

theorem SameKeys.valid (h : m.SameKeys m') (hv : m.Valid) : m'.Valid :=
  ⟨by rw [h.cnPublic]; exact hv.cnPublic, by rw [h.cnCookie]; exact hv.cnCookie⟩

theorem welcome_valid (hv : m.Valid) (h : m.processWelcome crypto data = .ok (rc, m')) : m'.Valid := by
  rcases welcome_spec h with ⟨-, hsame⟩ | ⟨rfl, -⟩
  · exact hsame.valid hv
  · unfold processWelcome at h
    split_ifs at h
    · cases h
    obtain ⟨part, -, h⟩ := bind_ok h
    obtain ⟨box, -, h⟩ := bind_ok h
    obtain ⟨nonce, -, h⟩ := bind_ok h
    dsimp only at h
    split at h
    · cases h
    · obtain ⟨plaintext, -, h⟩ := bind_ok h
      obtain ⟨cnServer, -, h⟩ := bind_ok h
      obtain ⟨cnCookie, hcookie, hret⟩ := bind_ok h
      cases hret
      obtain ⟨-, rfl⟩ := Block.read_eq hcookie
      exact ⟨hv.cnPublic, length_take_le _ _⟩

theorem ready_valid (hv : m.Valid) (h : m.processReady crypto data = .ok (rc, m')) : m'.Valid := by
  unfold processReady at h
  split_ifs at h
  · cases h
    exact hv
  · obtain ⟨box, -, h⟩ := bind_ok h
    dsimp only at h
    split at h
    · cases h
      exact ⟨hv.cnPublic, hv.cnCookie⟩
    · obtain ⟨plaintext, -, h⟩ := bind_ok h
      obtain ⟨⟨rc1, base⟩, -, hret⟩ := bind_ok h
      cases hret
      exact ⟨hv.cnPublic, hv.cnCookie⟩

theorem error_valid (hv : m.Valid) (h : m.processError data = (rc, m')) : m'.Valid := by
  unfold processError at h
  split_ifs at h
  · cases h
    exact hv
  · split at h
    · cases h
      exact hv
    · cases h
      exact ⟨hv.cnPublic, hv.cnCookie⟩

theorem process_valid {cmd : Msg} (hv : m.Valid) (h : m.processHandshakeCommand crypto cmd = .ok (rc, m')) :
    m'.Valid ∧ (rc ≠ .ok → m'.state = m.state) := by
  unfold processHandshakeCommand at h
  split_ifs at h
  · refine ⟨welcome_valid hv h, fun hrc => ?_⟩
    rcases welcome_spec h with ⟨-, hsame⟩ | ⟨hok, -⟩
    · exact hsame.state
    · exact absurd hok hrc
  · refine ⟨ready_valid hv h, fun hrc => ?_⟩
    rcases ready_spec h with ⟨-, hsame⟩ | ⟨hok, -⟩
    · exact hsame.state
    · exact absurd hok hrc
  · have h := Except.ok.inj h
    refine ⟨error_valid hv h, fun hrc => ?_⟩
    rcases error_spec h with ⟨-, hsame⟩ | ⟨hok, -⟩
    · exact hsame.state
    · exact absurd hok hrc
  · cases h
    exact ⟨hv, fun _ => rfl⟩

theorem hello_cases (hv : m.Valid) (h : m.produceHello crypto = .ok (r, m')) :
    (∃ errno, r = .error errno) ∧ m' = m ∨ ∃ cmd, r = .ok cmd ∧ cmd.data.length ≤ 2048 ∧ m'.Valid := by
  unfold produceHello at h
  split at h
  · cases h
    exact .inl ⟨⟨_, rfl⟩, rfl⟩
  · obtain ⟨c, hc, hret⟩ := bind_ok h
    cases hret
    have hbox := strip_length hc
    have hkey := hv.cnPublic
    refine .inr ⟨_, rfl, ?_, hv.cnPublic, hv.cnCookie⟩
    simp only [Msg.ofData_data, length_append, length_cons, length_nil, helloName, ascii, length_map,
      zeros_length, putUint64_length]
    omega

theorem initiate_cases (hv : m.Valid) (h : m.produceInitiate crypto random = .ok (r, m')) :
    (∃ errno, r = .error errno) ∧ m' = m ∨ ∃ cmd, r = .ok cmd ∧ cmd.data.length ≤ 2048 ∧ m'.Valid := by
  unfold produceInitiate at h
  dsimp only at h
  split at h
  · cases h
    exact .inl ⟨⟨_, rfl⟩, rfl⟩
  · obtain ⟨v, -, h⟩ := bind_ok h
    obtain ⟨plaintext, -, h⟩ := bind_ok h
    split at h
    · cases h
      exact .inl ⟨⟨_, rfl⟩, rfl⟩
    · obtain ⟨c, hc, hret⟩ := bind_ok h
      cases hret
      have hbox := strip_length hc
      have hcookie := hv.cnCookie
      refine .inr ⟨_, rfl, ?_, hv.cnPublic, hv.cnCookie⟩
      simp only [Msg.ofData_data, length_append, length_cons, length_nil, initiateName, ascii, length_map, putUint64_length]
      omega

theorem next_cases (hv : m.Valid) (h : m.nextHandshakeCommand crypto random = .ok (r, m')) :
    (∃ errno, r = .error errno) ∧ m' = m ∨ ∃ cmd, r = .ok cmd ∧ cmd.data.length ≤ 2048 ∧ m'.Valid ∧
      (m'.state = .expectWelcome ∨ m'.state = .expectReady) := by
  unfold nextHandshakeCommand at h
  cases hs : m.state
  case sendHello =>
    rw [hs] at h
    obtain ⟨⟨r1, m1⟩, h1, hret⟩ := bind_ok h
    cases hret
    obtain ⟨⟨errno, rfl⟩, rfl⟩ | ⟨cmd, rfl, hsize, hv1⟩ := hello_cases hv h1
    · exact .inl ⟨⟨_, rfl⟩, rfl⟩
    · exact .inr ⟨cmd, rfl, hsize, ⟨hv1.cnPublic, hv1.cnCookie⟩, .inl rfl⟩
  case sendInitiate =>
    rw [hs] at h
    obtain ⟨⟨r1, m1⟩, h1, hret⟩ := bind_ok h
    cases hret
    obtain ⟨⟨errno, rfl⟩, rfl⟩ | ⟨cmd, rfl, hsize, hv1⟩ := initiate_cases hv h1
    · exact .inl ⟨⟨_, rfl⟩, rfl⟩
    · exact .inr ⟨cmd, rfl, hsize, ⟨hv1.cnPublic, hv1.cnCookie⟩, .inr rfl⟩
  all_goals
    rw [hs] at h
    cases h
    exact .inl ⟨⟨_, rfl⟩, rfl⟩

theorem status_ready : m.status = .ready ↔ m.state = .connected := by
  unfold status
  split
  · exact iff_of_true rfl ‹_›
  · exact iff_of_false nofun (by rw [‹m.state = _›]; nofun)
  · exact iff_of_false nofun ‹_›

theorem reliable (hl : crypto.Lawful) : (mechanism crypto).Reliable (traffic crypto) Valid where
  next hv h := by
    obtain ⟨-, rfl⟩ | ⟨cmd, -, -, hv', -⟩ := next_cases hv h
    · exact hv
    · exact hv'
  process hv h := (process_valid hv h).1
  zap hv h := by
    cases h
    exact hv
  encode hv h := by
    obtain ⟨_, -, h⟩ := bind_ok h
    obtain ⟨w, -, hret⟩ := bind_ok h
    cases hret
    exact ⟨hv.cnPublic, hv.cnCookie⟩
  decode hv h := by
    obtain ⟨_, -, hret⟩ := bind_ok h
    cases hret
    exact ⟨hv.cnPublic, hv.cnCookie⟩
  deliver _ hv := hv
  next_ok {m m' random cmd} hv h := by
    obtain ⟨⟨errno, herror⟩, -⟩ | ⟨cmd', heq, hsize, -, hstate⟩ := next_cases hv h
    · cases herror
    · cases heq
      refine ⟨hsize, fun {random' r m''} h' => ?_⟩
      have hwaits : m'.nextHandshakeCommand crypto random' = .ok (.error .eagain, m') := by
        unfold nextHandshakeCommand
        rcases hstate with hstate | hstate <;> rw [hstate]
      cases h'.symm.trans hwaits
      exact ⟨_, rfl⟩
  next_error {m m' random errno} hv hs h := by
    obtain ⟨-, rfl⟩ | ⟨cmd, heq, -⟩ := next_cases hv h
    · rw [hs]
      nofun
    · cases heq
  process_again hv hs h hc :=
    hs (status_ready.mpr (((process_valid hv h).2 nofun).symm.trans (status_ready.mp hc)))
  zap_ok hs h := by
    cases h
    exact hs
  deliver_status _ _ := rfl
  encode_length h := by
    obtain ⟨_, -, h⟩ := bind_ok h
    obtain ⟨w, hw, hret⟩ := bind_ok h
    cases hret
    exact encodeMessage_length hl (mem_cons_self ..) hw

end CurveClient

namespace CurveServer

open Curve

variable {crypto : Crypto} {m m' : CurveServer} {rc : Ret} {random : ℕ → UInt8} {cmd : Msg}

def traffic (crypto : Crypto) : Traffic CurveServer where
  encode := encode crypto
  decode := decode crypto
  base := (·.base)
  deliver m ms := { m with toZapMechanism := m.toZapMechanism.deliver ms }

theorem welcome_length (h : m.produceWelcome crypto random = .ok (.ok cmd, m')) : cmd.data.length ≤ 2048 := by
  unfold produceWelcome at h
  dsimp only at h
  split at h
  · cases h
  · obtain ⟨c, -, h⟩ := bind_ok h
    split at h
    · cases h
    · obtain ⟨w, hw, hret⟩ := bind_ok h
      cases hret
      have hbox := strip_length hw
      simp only [Msg.ofData_data, length_append, length_cons, length_nil, welcomeName, ascii, length_map, draw, length_range]
      omega

theorem ready_length (h : m.produceReady crypto = .ok (cmd, m')) : cmd.data.length ≤ 2048 := by
  obtain ⟨p, -, h⟩ := bind_ok h
  obtain ⟨plaintext, -, h⟩ := bind_ok h
  split at h
  · cases h
  · obtain ⟨c, hc, hret⟩ := bind_ok h
    cases hret
    have hbox := strip_length hc
    simp only [Msg.ofData_data, length_append, length_cons, length_nil, readyName, ascii, length_map, putUint64_length]
    omega

theorem next_cases {r : Except MechErrno Msg} (h : m.nextHandshakeCommand crypto random = .ok (r, m')) :
    (∃ errno, r = .error errno) ∧ m'.state = m.state ∨ ∃ cmd, r = .ok cmd ∧ cmd.data.length ≤ 2048 ∧
      (m'.state = .expectInitiate ∨ m'.state = .connected ∨ m'.state = .errorSent) := by
  unfold nextHandshakeCommand at h
  cases hs : m.state
  case sendWelcome =>
    rw [hs] at h
    obtain ⟨⟨r1, m1⟩, h1, hret⟩ := bind_ok h
    have hsame := produceWelcome_same h1
    cases hret
    cases r with
    | error errno => exact .inl ⟨⟨_, rfl⟩, hsame.state.trans hs⟩
    | ok cmd => exact .inr ⟨cmd, rfl, welcome_length h1, .inl rfl⟩
  case sendReady =>
    rw [hs] at h
    obtain ⟨⟨cmd, m1⟩, h1, hret⟩ := bind_ok h
    cases hret
    exact .inr ⟨cmd, rfl, ready_length h1, .inr (.inl rfl)⟩
  case sendError =>
    rw [hs] at h
    obtain ⟨cmd, hc, hret⟩ := bind_ok h
    cases hret
    obtain ⟨_, hcode, hret⟩ := bind_ok hc
    cases hret
    exact .inr ⟨_, rfl, errorCommand_length _ (Nat.le_of_eq (Block.assert_eq hcode)), .inr (.inr rfl)⟩
  all_goals
    rw [hs] at h
    cases h
    exact .inl ⟨⟨_, rfl⟩, hs⟩

theorem status_ready : m.status = .ready ↔ m.state = .connected := by
  unfold status
  split
  · exact iff_of_true rfl ‹_›
  · exact iff_of_false nofun (by rw [‹m.state = _›]; nofun)
  · exact iff_of_false nofun ‹_›

theorem decided_unready : m.decided.state ≠ .connected := by
  unfold decided
  split_ifs <;> nofun

theorem ask_unready {clientKey : List UInt8} (h : m.ask clientKey = .ok (rc, m')) (hs : m.state ≠ .connected) :
    m'.state ≠ .connected := by
  obtain ⟨m1, h1, h⟩ := bind_ok h
  obtain ⟨⟨rc2, m2⟩, h2, h⟩ := bind_ok h
  obtain ⟨hstate1, -⟩ := sendZapRequest_spec h1
  obtain ⟨-, hstate2, -⟩ := receive_spec h2
  dsimp only at h
  split at h
  · cases h
    exact decided_unready
  · cases h
    nofun
  · cases h
    rwa [hstate2, hstate1]

theorem settle_unready {plaintext : List UInt8} (h : m.settle plaintext = .ok (rc, m')) (hs : m.state ≠ .connected) :
    m'.state ≠ .connected := by
  obtain ⟨clientKey, -, h⟩ := bind_ok h
  obtain ⟨⟨rc1, session⟩, -, h⟩ := bind_ok h
  dsimp only at h
  split_ifs at h
  · obtain ⟨⟨rc2, m2⟩, h2, h⟩ := bind_ok h
    have hs2 := ask_unready h2 hs
    cases rc2 with
    | error e =>
      cases h
      exact hs2
    | ok =>
      obtain ⟨⟨rc3, base⟩, -, hret⟩ := bind_ok h
      cases hret
      exact hs2
  · obtain ⟨⟨rc2, m2⟩, h2, h⟩ := bind_ok h
    cases h2
    obtain ⟨⟨rc3, base⟩, -, hret⟩ := bind_ok h
    cases hret
    nofun

theorem process_unready (h : m.processHandshakeCommand crypto cmd = .ok (rc, m')) (hs : m.state ≠ .connected) :
    m'.state ≠ .connected := by
  unfold processHandshakeCommand at h
  split at h
  · obtain ⟨-, hstate | hstate⟩ := hello_cases h
    · rwa [hstate]
    · rw [hstate]
      nofun
  · obtain hsame | ⟨m1, plaintext, hsame, h1⟩ := initiate_cases h
    · rwa [hsame.state]
    · exact settle_unready h1 (by rwa [hsame.state])
  · cases h
    exact hs

theorem zap_unready (h : m.zapMsgAvailable = .ok (rc, m')) (hs : m.state ≠ .connected) : m'.state ≠ .connected := by
  unfold zapMsgAvailable at h
  split_ifs at h
  · cases h
    exact hs
  · obtain ⟨⟨rc1, m1⟩, h1, hret⟩ := bind_ok h
    obtain ⟨-, hstate, -⟩ := receive_spec h1
    cases hret
    split_ifs
    · exact decided_unready
    · rwa [hstate]

theorem reliable (hl : crypto.Lawful) : (mechanism crypto).Reliable (traffic crypto) fun _ => True where
  next _ _ := trivial
  process _ _ := trivial
  zap _ _ := trivial
  encode _ _ := trivial
  decode _ _ := trivial
  deliver _ _ := trivial
  next_ok {m m' random cmd} _ h := by
    obtain ⟨⟨errno, herror⟩, -⟩ | ⟨cmd', heq, hsize, hstate⟩ := next_cases h
    · cases herror
    · cases heq
      refine ⟨hsize, fun {random' r m''} h' => ?_⟩
      have hwaits : m'.nextHandshakeCommand crypto random' = .ok (.error .eagain, m') := by
        unfold nextHandshakeCommand
        rcases hstate with hstate | hstate | hstate <;> rw [hstate]
      cases h'.symm.trans hwaits
      exact ⟨_, rfl⟩
  next_error {m m' random errno} _ hs h := by
    obtain ⟨-, hsame⟩ | ⟨cmd, heq, -⟩ := next_cases h
    · intro hc
      have hready : m.status = .ready := status_ready.mpr (hsame.symm.trans (status_ready.mp hc))
      cases hs.symm.trans hready
    · cases heq
  process_again _ hs h hc := process_unready h (fun hr => hs (status_ready.mpr hr)) (status_ready.mp hc)
  zap_ok hs h hc := zap_unready h (fun hr => hs (status_ready.mpr hr)) (status_ready.mp hc)
  deliver_status _ _ := rfl
  encode_length h := by
    obtain ⟨_, -, h⟩ := bind_ok h
    obtain ⟨w, hw, hret⟩ := bind_ok h
    cases hret
    exact encodeMessage_length hl (mem_cons_of_mem _ (mem_cons_self ..)) hw

end CurveServer

/-- In every state it can come to, each mechanism does what an engine relies on. -/
theorem mechanisms_reliable {crypto : Crypto} (hl : crypto.Lawful) : NullMechanism.mechanism.Reliable NullMechanism.traffic
      (NullMechanism.mechanism.Reached NullMechanism.traffic fun m => ∃ o s peerAddress, NullMechanism.create o s peerAddress = .ok m) ∧
    PlainClient.mechanism.Reliable PlainClient.traffic (fun _ => True) ∧
    PlainServer.mechanism.Reliable PlainServer.traffic (fun _ => True) ∧
    (CurveClient.mechanism crypto).Reliable (CurveClient.traffic crypto) ((CurveClient.mechanism crypto).Reached
      (CurveClient.traffic crypto) fun m => m.Fresh ∧ m.cnPublic.length = 32 ∧ m.cnCookie.length = 96) ∧
    (CurveServer.mechanism crypto).Reliable (CurveServer.traffic crypto) fun _ => True := by
  refine ⟨NullMechanism.reliable.reached fun m hm => ?_, PlainClient.reliable, PlainServer.reliable,
    (CurveClient.reliable hl).reached fun m hm => ⟨hm.2.1.le, hm.2.2.le⟩, CurveServer.reliable hl⟩
  obtain ⟨o, s, peerAddress, hm⟩ := hm
  unfold NullMechanism.create at hm
  split_ifs at hm
  · obtain ⟨_, -, hret⟩ := bind_ok hm
    cases hret
    exact Nat.zero_le 3
  · cases hm
    exact Nat.zero_le 3

theorem mechanisms_reliable_clear : (CurveServer.mechanism Crypto.clear).Reliable (CurveServer.traffic Crypto.clear) fun _ => True :=
  (mechanisms_reliable Crypto.clear_lawful).2.2.2.2

/-- `session_base_t` with its pipe, which takes `room` more messages. -/
structure PipeSession where
  base : SessionBase
  room : ℕ
  asleep : Bool

namespace PipeSession

def new (readable : List GroupMsg) (room : ℕ) : PipeSession := ⟨.new readable, room, false⟩

def pullMsg (s : PipeSession) : Option Msg × PipeSession :=
  if s.asleep then (none, s)
  else
    match s.base.pullMsg with
    | (none, base) => (none, { s with base := base, asleep := true })
    | (some m, base) => (some m.toMsg, { s with base := base })

def pushMsg (s : PipeSession) (m : Msg) : Except Crash (PushRc × Msg × PipeSession) :=
  let (rc, m', base) := s.base.pushMsg (.ofFrame m) (decide (0 < s.room))
  .ok (rc, m'.toMsg, { s with base := base, room := if m.isCommand then s.room else s.room - 1 })

theorem pullMsg_none {s s' : PipeSession} (h : s.pullMsg = (none, s')) : s'.asleep = true := by
  unfold pullMsg at h
  split_ifs at h with ha
  · cases h
    exact ha
  · split at h
    · cases h
      rfl
    · cases h

def session : EngineSession PipeSession where
  pullMsg := pullMsg
  pushMsg := pushMsg
  asleep := asleep
  pull_none := pullMsg_none
  pull_asleep {s} h := by
    unfold pullMsg
    rw [if_pos h]
  push_asleep {s s' m m' rc} h hx := by
    unfold pushMsg at hx
    dsimp only at hx
    cases hx
    exact h

theorem pushMsg_full {s : PipeSession} {m : Msg} (hm : m.isCommand = false) :
    (∃ m' s', s.pushMsg m = .ok (.error .eagain, m', s')) ↔ s.room = 0 := by
  have hcommand : (GroupMsg.ofFrame m).isCommand = false := hm
  unfold pushMsg
  cases hroom : decide (0 < s.room) with
  | true =>
    rw [SessionBase.pushMsg_room hcommand]
    refine iff_of_false (fun ⟨m', s', h⟩ => ?_) (Nat.ne_of_gt (of_decide_eq_true hroom))
    cases h
  | false =>
    rw [SessionBase.pushMsg_full hcommand]
    exact iff_of_true ⟨_, _, rfl⟩ (Nat.eq_zero_of_not_pos (of_decide_eq_false hroom))

end PipeSession

/-! A peer that does without security. -/

namespace NullMechanism

abbrev Checked := { m : NullMechanism // m.Valid } × (ℕ → ℕ → UInt8)

def engine : EngineMechanism Checked := reliable.toEngine

/-- A mechanism of a socket of this type that no handler is asked about. -/
def unasked (type : UInt8) : Checked :=
  (⟨⟨.new (.new type) (.new false) [], false, false, false, false, false, false, false⟩, Nat.zero_le 3⟩, fun _ _ => 0)

end NullMechanism

namespace Engine

def routerSettings : EngineSettings where
  identity := []
  recvIdentity := true
  handshakeIvl := 30000
  heartbeatInterval := 1000
  heartbeatTtl := 0
  heartbeatTimeout := -1
  publishes := false
  peerProperties := []

def talking (s : PipeSession) : Engine PipeSession NullMechanism.Checked :=
  { (plug routerSettings s [] : Engine PipeSession NullMechanism.Checked) with
    phase := .connected
    mechanism := some (NullMechanism.unasked 6)
    nextMsg := .pullAndEncode
    processMsg := .writeCredential
    encoder := some (.v2, .new StreamEngine.outBatchSize)
    has := fun t => t == .heartbeatIvl
    timers := [.heartbeatIvl]
    readied := 1
    identities := 1 }

def ping : Msg := (Msg.ofData (pingName ++ [0, 0])).setFlags Msg.command

end Engine

end Zmq
