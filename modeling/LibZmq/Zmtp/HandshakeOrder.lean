import LibZmq.Zmtp.CurveClient
import LibZmq.Zmtp.PlainMechanism

/-! The order of the handshake on the side of the client: which commands are accepted when. -/

namespace Zmq

/-- What makes up a handshake, on the side of the client. -/
inductive Stage where
  | helloProduced | welcomeProcessed | initiateProduced | readyProcessed
deriving DecidableEq

namespace Stage

def ofCommand (data : List UInt8) : List Stage :=
  if data.take 6 = helloName then [helloProduced]
  else if data.take 8 = welcomeName then [welcomeProcessed]
  else if data.take 9 = initiateName then [initiateProduced]
  else if data.take 6 = readyName then [readyProcessed]
  else []

def ofProduced : Except MechErrno Msg → List Stage
  | .ok msg => ofCommand msg.data
  | .error _ => []

def ofAccepted (msg : Msg) (rc : Ret) : List Stage := if rc = .ok then ofCommand msg.data else []

def inOrder : List Stage := [helloProduced, welcomeProcessed, initiateProduced, readyProcessed]

variable {data : List UInt8}

theorem ofCommand_welcome (h : data.take 8 = welcomeName) : ofCommand data = [welcomeProcessed] := by
  rw [← List.take_append_drop 8 data, h]
  rfl

theorem ofCommand_ready (h : data.take 6 = readyName) : ofCommand data = [readyProcessed] := by
  rw [← List.take_append_drop 6 data, h]
  rfl

end Stage

namespace Mechanism

structure Progress (μ : Type) where
  mechanism : μ
  done : List Stage

inductive ClientOp where
  | nextHandshakeCommand (random : ℕ → UInt8)
  | processHandshakeCommand (msg : Msg)

variable {μ : Type} (c : Mechanism μ)

def run (s : Progress μ) : ClientOp → Except Crash (Progress μ)
  | .nextHandshakeCommand random => (c.nextHandshakeCommand s.mechanism random).map fun x =>
      ⟨x.2, s.done ++ Stage.ofProduced x.1⟩
  | .processHandshakeCommand msg => (c.processHandshakeCommand s.mechanism msg).map fun x =>
      ⟨x.2, s.done ++ Stage.ofAccepted msg x.1⟩

abbrev Step : Progress μ → ClientOp → Progress μ → Prop := Does (fun _ _ => True) c.run

def onCommands (guard : μ → Msg → Prop) (s : Progress μ) : ClientOp → Prop
  | .nextHandshakeCommand _ => True
  | .processHandshakeCommand msg => guard s.mechanism msg

instance (guard : μ → Msg → Prop) [∀ m msg, Decidable (guard m msg)] (s : Progress μ) (op : ClientOp) :
    Decidable (onCommands guard s op) := by
  cases op <;> unfold onCommands <;> infer_instance

variable {c} {guard : μ → Msg → Prop} {start : μ → Prop}

theorem run_done (stands : μ → List Stage → Prop) (h0 : ∀ m, start m → stands m [])
    (hnext : ∀ {m random x m' done}, stands m done → c.nextHandshakeCommand m random = .ok (x, m') →
      stands m' (done ++ Stage.ofProduced x))
    (hprocess : ∀ {m msg rc m' done}, stands m done → guard m msg → c.processHandshakeCommand m msg = .ok (rc, m') →
      stands m' (done ++ Stage.ofAccepted msg rc)) {ops : List ClientOp} {s : Progress μ}
    (h : Run (fun s => start s.mechanism ∧ s.done = []) (Guarded (onCommands guard) c.Step) ops s) :
    stands s.mechanism s.done := by
  refine h.invariant (fun s => stands s.mechanism s.done) (fun s hs => hs.2 ▸ h0 _ hs.1) fun s op s' hs hstep => ?_
  obtain ⟨hg, -, hrun⟩ := hstep
  cases op with
  | nextHandshakeCommand random =>
    cases hr : c.nextHandshakeCommand s.mechanism random with
    | error e => simp [run, hr, Except.map] at hrun
    | ok x =>
      simp only [run, hr] at hrun
      cases hrun
      exact hnext hs hr
  | processHandshakeCommand msg =>
    cases hr : c.processHandshakeCommand s.mechanism msg with
    | error e => simp [run, hr, Except.map] at hrun
    | ok x =>
      simp only [run, hr] at hrun
      cases hrun
      exact hprocess hs hg hr

end Mechanism

namespace CurveClient

open Curve Mechanism

variable {crypto : Crypto} {m m' : CurveClient} {rc : Ret} {data : List UInt8} {msg : Msg} {done : List Stage}

def welcomeOpens (crypto : Crypto) (m : CurveClient) (data : List UInt8) : Bool :=
  (crypto.boxOpen (zeros boxZeroBytes ++ (data.drop 24).take 144) (welcomeTag ++ (data.drop 8).take 16) m.serverKey
    m.cnSecret).isSome

/-- The box of a READY opens, and the metadata in it are accepted. -/
def readyOpens (crypto : Crypto) (m : CurveClient) (data : List UInt8) : Bool :=
  match crypto.openAfternm (zeros boxZeroBytes ++ data.drop 14) (readyTag ++ (data.drop 6).take 8) m.cnPrecom with
  | none => false
  | some p =>
    match Metadata.parseMetadata Metadata.property m.base (p.drop zeroBytes) false with
    | .ok (.ok, _) => true
    | _ => false

/-- A WELCOME or READY at another time than its own is not authentic. -/
def Timely (crypto : Crypto) (m : CurveClient) (msg : Msg) : Prop :=
  (msg.data.take 8 = welcomeName → m.state = .expectWelcome ∨ msg.data.length ≠ 168 ∨ m.welcomeOpens crypto msg.data = false) ∧
    (msg.data.take 6 = readyName → m.state = .expectReady ∨ msg.data.length < 30 ∨ m.readyOpens crypto msg.data = false)

instance (m : CurveClient) (msg : Msg) : Decidable (m.Timely crypto msg) := by
  unfold Timely
  infer_instance

structure SameKeys (m m' : CurveClient) : Prop where
  state : m'.state = m.state
  publicKey : m'.publicKey = m.publicKey
  secretKey : m'.secretKey = m.secretKey
  serverKey : m'.serverKey = m.serverKey
  cnPublic : m'.cnPublic = m.cnPublic
  cnSecret : m'.cnSecret = m.cnSecret
  cnServer : m'.cnServer = m.cnServer
  cnCookie : m'.cnCookie = m.cnCookie
  cnPrecom : m'.cnPrecom = m.cnPrecom

theorem SameKeys.refl (m : CurveClient) : m.SameKeys m := ⟨rfl, rfl, rfl, rfl, rfl, rfl, rfl, rfl, rfl⟩

theorem welcome_spec (h : m.processWelcome crypto data = .ok (rc, m')) : rc ≠ .ok ∧ m.SameKeys m' ∨
      rc = .ok ∧ m'.state = .sendInitiate ∧ data.length = 168 ∧ m.welcomeOpens crypto data = true := by
  unfold processWelcome at h
  split_ifs at h with hlen
  · cases h
    exact .inl ⟨nofun, .refl m⟩
  rw [not_not] at hlen
  obtain ⟨part, hpart, h⟩ := bind_ok h
  obtain ⟨-, rfl⟩ := Block.read_eq hpart
  obtain ⟨box, hbox, h⟩ := bind_ok h
  obtain ⟨-, rfl⟩ := received_eq hbox
  obtain ⟨nonce, hnonce, h⟩ := bind_ok h
  obtain ⟨-, rfl⟩ := Block.read_eq hnonce
  simp only at h
  cases ho : crypto.boxOpen (zeros boxZeroBytes ++ (data.drop 24).take 144) (welcomeTag ++ (data.drop 8).take 16)
      m.serverKey m.cnSecret with
  | none =>
    rw [ho] at h
    cases h
    exact .inl ⟨nofun, .refl m⟩
  | some p =>
    rw [ho] at h
    obtain ⟨plaintext, -, h⟩ := bind_ok h
    obtain ⟨cnServer, -, h⟩ := bind_ok h
    obtain ⟨cnCookie, -, hret⟩ := bind_ok h
    cases hret
    refine .inr ⟨rfl, rfl, hlen, ?_⟩
    unfold welcomeOpens
    rw [ho]
    rfl

theorem ready_spec (h : m.processReady crypto data = .ok (rc, m')) : rc ≠ .ok ∧ m.SameKeys m' ∨
      rc = .ok ∧ m'.state = .connected ∧ 30 ≤ data.length ∧ m.readyOpens crypto data = true := by
  unfold processReady at h
  split_ifs at h with hlen
  · cases h
    exact .inl ⟨nofun, .refl m⟩
  obtain ⟨box, hbox, h⟩ := bind_ok h
  obtain ⟨-, rfl⟩ := received_eq hbox
  simp only at h
  cases ho : crypto.openAfternm (zeros boxZeroBytes ++ data.drop 14) (readyTag ++ (data.drop 6).take 8) m.cnPrecom with
  | none =>
    rw [ho] at h
    cases h
    exact .inl ⟨nofun, ⟨rfl, rfl, rfl, rfl, rfl, rfl, rfl, rfl, rfl⟩⟩
  | some p =>
    rw [ho] at h
    obtain ⟨plaintext, hp, h⟩ := bind_ok h
    rw [(into_eq hp).2] at h
    obtain ⟨⟨rc1, base⟩, hparse, hret⟩ := bind_ok h
    cases hret
    by_cases hrc : rc1 = .ok
    · subst hrc
      refine .inr ⟨rfl, rfl, Nat.le_of_not_lt hlen, ?_⟩
      unfold readyOpens
      simp only [ho, hparse]
    · refine .inl ⟨hrc, ?_⟩
      simp only [if_neg hrc]
      exact ⟨rfl, rfl, rfl, rfl, rfl, rfl, rfl, rfl, rfl⟩

def Stands (m : CurveClient) (done : List Stage) : Prop :=
  match m.state with
  | .sendHello => done = []
  | .expectWelcome => done = [.helloProduced]
  | .sendInitiate => done = [.helloProduced, .welcomeProcessed]
  | .expectReady => done = [.helloProduced, .welcomeProcessed, .initiateProduced]
  | .connected => done = Stage.inOrder
  | .errorReceived => True

/-- A command is accepted in its own state only, and changes nothing of the handshake otherwise. -/
structure Orderly (m : CurveClient) (msg : Msg) (rc : Ret) (m' : CurveClient) : Prop where
  welcome : msg.data.take 8 = welcomeName → rc = .ok → m.state = .expectWelcome
  ready : msg.data.take 6 = readyName → rc = .ok → m.state = .expectReady
  refused : rc ≠ .ok → m.SameKeys m'

theorem error_spec (h : m.processError data = (rc, m')) : rc ≠ .ok ∧ m.SameKeys m' ∨ rc = .ok ∧ m'.state = .errorReceived := by
  unfold processError at h
  split_ifs at h
  · cases h
    exact .inl ⟨nofun, .refl m⟩
  · cases hr : errorReason data with
    | error e =>
      rw [hr] at h
      cases h
      exact .inl ⟨nofun, .refl m⟩
    | ok reason =>
      rw [hr] at h
      cases h
      exact .inr ⟨rfl, rfl⟩

theorem process_cases (ht : m.Timely crypto msg) (h : m.processHandshakeCommand crypto msg = .ok (rc, m')) :
    rc ≠ .ok ∧ m.SameKeys m' ∨ rc = .ok ∧ msg.data.take 8 = welcomeName ∧ m.state = .expectWelcome ∧ m'.state = .sendInitiate ∨
    rc = .ok ∧ msg.data.take 6 = readyName ∧ m.state = .expectReady ∧ m'.state = .connected ∨
    rc = .ok ∧ msg.data.take 6 = errorName ∧ m'.state = .errorReceived := by
  unfold processHandshakeCommand at h
  split_ifs at h with hw hr he
  · rcases welcome_spec h with hno | ⟨rfl, hs, hlen, hopen⟩
    · exact .inl hno
    · have hstate : m.state = .expectWelcome := by
        rcases ht.1 hw with hs | hc | hc
        · exact hs
        · exact absurd hlen hc
        · exact nomatch hopen.symm.trans hc
      exact .inr (.inl ⟨rfl, hw, hstate, hs⟩)
  · rcases ready_spec h with hno | ⟨rfl, hs, hlen, hopen⟩
    · exact .inl hno
    · have hstate : m.state = .expectReady := by
        rcases ht.2 hr with hs | hc | hc
        · exact hs
        · omega
        · exact nomatch hopen.symm.trans hc
      exact .inr (.inr (.inl ⟨rfl, hr, hstate, hs⟩))
  · rcases error_spec (Except.ok.inj h) with hno | ⟨rfl, hs⟩
    · exact .inl hno
    · exact .inr (.inr (.inr ⟨rfl, he, hs⟩))
  · cases h
    exact .inl ⟨nofun, .refl m⟩

theorem names_differ : ¬ (data.take 8 = welcomeName ∧ data.take 6 = readyName) ∧
    ¬ (data.take 8 = welcomeName ∧ data.take 6 = errorName) ∧ ¬ (data.take 6 = readyName ∧ data.take 6 = errorName) := by
  have hhead : ∀ {name : List UInt8} {n : ℕ}, data.take (n + 1) = name → data.head? = name.head? := fun h => by
    rw [← h, List.head?_take, if_neg (Nat.succ_ne_zero _)]
  refine ⟨fun ⟨h1, h2⟩ => ?_, fun ⟨h1, h2⟩ => ?_, fun ⟨h1, h2⟩ => ?_⟩
  · exact absurd ((hhead h1).symm.trans (hhead h2)) (by decide)
  · exact absurd ((hhead h1).symm.trans (hhead h2)) (by decide)
  · exact absurd (h1.symm.trans h2) (by decide)

theorem process_orderly (ht : m.Timely crypto msg) (h : m.processHandshakeCommand crypto msg = .ok (rc, m')) :
    m.Orderly msg rc m' := by
  rcases process_cases ht h with ⟨hrc, hsame⟩ | ⟨hrc, hn, hs, -⟩ | ⟨hrc, hn, hs, -⟩ | ⟨hrc, hn, -⟩
  · exact ⟨fun _ hc => absurd hc hrc, fun _ hc => absurd hc hrc, fun _ => hsame⟩
  · exact ⟨fun _ _ => hs, fun hc => absurd ⟨hn, hc⟩ names_differ.1, fun hc => absurd hrc hc⟩
  · exact ⟨fun hc => absurd ⟨hc, hn⟩ names_differ.1, fun _ _ => hs, fun hc => absurd hrc hc⟩
  · exact ⟨fun hc => absurd ⟨hc, hn⟩ names_differ.2.1, fun hc => absurd ⟨hc, hn⟩ names_differ.2.2, fun hc => absurd hrc hc⟩

theorem process_stands (hs : m.Stands done) (ht : m.Timely crypto msg) (h : m.processHandshakeCommand crypto msg = .ok (rc, m')) :
    m'.Stands (done ++ Stage.ofAccepted msg rc) := by
  unfold Stands at hs ⊢
  unfold Stage.ofAccepted
  rcases process_cases ht h with ⟨hrc, hsame⟩ | ⟨hrc, hn, hs1, hs2⟩ | ⟨hrc, hn, hs1, hs2⟩ | ⟨hrc, hn, hs2⟩
  · rw [hsame.state, if_neg hrc, List.append_nil]
    exact hs
  · rw [hs1] at hs
    rw [hs2, if_pos hrc, Stage.ofCommand_welcome hn, hs]
    rfl
  · rw [hs1] at hs
    rw [hs2, if_pos hrc, Stage.ofCommand_ready hn, hs]
    rfl
  · rw [hs2]
    trivial

theorem next_stands {random : ℕ → UInt8} {x : Except MechErrno Msg} (hs : m.Stands done)
    (h : m.nextHandshakeCommand crypto random = .ok (x, m')) : m'.Stands (done ++ Stage.ofProduced x) := by
  have hs0 := hs
  unfold nextHandshakeCommand at h
  unfold Stands at hs ⊢
  cases hstate : m.state
  case sendHello =>
    rw [hstate] at h hs
    obtain ⟨⟨x1, m1⟩, h1, hret⟩ := bind_ok h
    cases hret
    unfold produceHello at h1
    split at h1
    · cases h1
      simp only [hstate, Stage.ofProduced, List.append_nil]
      exact hs
    · obtain ⟨c, -, hret1⟩ := bind_ok h1
      cases hret1
      rw [hs]
      rfl
  case sendInitiate =>
    rw [hstate] at h hs
    obtain ⟨⟨x1, m1⟩, h1, hret⟩ := bind_ok h
    cases hret
    unfold produceInitiate at h1
    simp only at h1
    split at h1
    · cases h1
      simp only [hstate, Stage.ofProduced, List.append_nil]
      exact hs
    · obtain ⟨v, -, h1⟩ := bind_ok h1
      obtain ⟨plaintext, -, h1⟩ := bind_ok h1
      split at h1
      · cases h1
        simp only [hstate, Stage.ofProduced, List.append_nil]
        exact hs
      · obtain ⟨c, -, hret1⟩ := bind_ok h1
        cases hret1
        rw [hs]
        rfl
  all_goals
    rw [hstate] at h
    cases h
    exact (congrArg m.Stands (List.append_nil done)).mpr hs0

def Start (s : Progress CurveClient) : Prop := Fresh s.mechanism ∧ s.done = []

theorem run_stands {ops : List ClientOp} {s : Progress CurveClient}
    (h : Run Start (Guarded (onCommands (Timely crypto)) (CurveClient.mechanism crypto).Step) ops s) :
    s.mechanism.Stands s.done := by
  refine run_done Stands (fun m hm => ?_) next_stands process_stands h
  unfold Stands
  rw [hm.state]

theorem Stands.ready (h : m.Stands done) (hready : m.status = .ready) : done = Stage.inOrder := by
  unfold status at hready
  unfold Stands at h
  cases hstate : m.state
  case connected =>
    rw [hstate] at h
    exact h
  all_goals
    rw [hstate] at hready
    exact nomatch hready

/-- A client that is ready has gone through the handshake in order, as long as no authentic WELCOME or READY comes at
another time than its own; and the next such command is accepted in its own state only. -/
theorem handshake_in_order {ops : List ClientOp} {s : Progress CurveClient}
    (h : Run Start (Guarded (onCommands (Timely crypto)) (CurveClient.mechanism crypto).Step) ops s) :
    (s.mechanism.status = .ready → s.done = Stage.inOrder) ∧
      ∀ msg rc m', s.mechanism.Timely crypto msg → s.mechanism.processHandshakeCommand crypto msg = .ok (rc, m') →
        s.mechanism.Orderly msg rc m' :=
  ⟨(run_stands h).ready, fun _ _ _ ht hp => process_orderly ht hp⟩

/-- A WELCOME of zeros, for boxes that hide nothing. -/
def clearWelcome : Msg := .ofData (welcomeName ++ zeros 160)

def clearReady : Msg := .ofData (readyName ++ zeros 8 ++ readyTag.drop 8 ++ zeros 8)

def clearClient : CurveClient := .new (.new 5) [] [] [] [] []

def clearHandshake : List ClientOp :=
  [.nextHandshakeCommand fun _ => 0, .processHandshakeCommand clearWelcome, .nextHandshakeCommand fun _ => 0,
    .processHandshakeCommand clearReady]

theorem handshake_in_order_clear : ∃ s, Run Start (Guarded (onCommands (Timely .clear)) (CurveClient.mechanism .clear).Step)
    clearHandshake s ∧ s.mechanism.status = .ready ∧ s.done = Stage.inOrder :=
  exists_run (P := fun s => s.mechanism.status = .ready) (⟨⟨rfl, rfl, rfl⟩, rfl⟩ : Start ⟨clearClient, []⟩) (by decide +kernel)
    fun _ hs hx => ⟨hx, (handshake_in_order hs).1 hx⟩

/-- A READY right after WELCOME makes the client ready before it has sent INITIATE. -/
theorem ready_without_initiate : ∃ ops s, Run Start (CurveClient.mechanism .clear).Step ops s ∧
    s.mechanism.status = .ready ∧ s.done = [.helloProduced, .welcomeProcessed, .readyProcessed] :=
  ⟨[.nextHandshakeCommand fun _ => 0, .processHandshakeCommand clearWelcome, .processHandshakeCommand clearReady],
    exists_run_free (P := fun s => s.mechanism.status = .ready ∧ s.done = [.helloProduced, .welcomeProcessed, .readyProcessed])
      (⟨⟨rfl, rfl, rfl⟩, rfl⟩ : Start ⟨clearClient, []⟩) (by decide +kernel) fun _ _ h => h⟩

end CurveClient

end Zmq
