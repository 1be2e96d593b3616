import LibZmq.Ctx.InprocPipes
import LibZmq.Zmtp.CurveServer
import LibZmq.Zmtp.PlainMechanism

/-! The ZAP pipe of `session_base_t`: it belongs to the session, and the mechanism of each engine that is attached opens it. -/

namespace Zmq

open Option

open Function (update update_of_ne update_self)

universe u v

inductive MechanismOption where
  | null | plain | curve
deriving DecidableEq

structure SecurityOptions where
  mechanism : MechanismOption
  hasDomain : Bool
  asServer : Bool
  immediate : Bool
  reconnects : Bool

/-- The state of a mechanism, as far as ZAP goes. -/
inductive SecurityMechanism where
  | null (zapConnected zapRequestSent zapReplyReceived commandSent : Bool)
  | plainServer (state : PlainServer.State)
  | curveServer (state : CurveServer.State)
  /-- a client, of PLAIN or CURVE -/
  | client
deriving DecidableEq

/-- What `receive_and_process_zap_reply` finds. -/
inductive ZapOutcome where
  | success
  | refusal
  | missing
  | malformed

inductive PeerGreeting where
  | old
  | v3 (sameMechanism : Bool)

inductive ErrorReason where
  | protocolError | connectionError | timeoutError
deriving DecidableEq

structure SecurityEngine where
  handshaking : Bool
  mechanism : Option SecurityMechanism
  -- what is said about a run
  /-- its mechanism has opened the ZAP pipe -/
  opened : Bool

structure SecuredSession (P : Type u) (S : Type v) where
  options : SecurityOptions
  active : Bool
  pipe : Option P
  zapPipe : Option P
  terminatingPipes : List P
  engine : Option SecurityEngine
  connecting : Bool
  pending : Bool
  terminating : Bool
  -- what is said about a run
  /-- how often `find_endpoint` has returned the socket -/
  found : S → ℕ
  /-- the `bind` commands that the socket has been sent -/
  bound : S → ℕ

inductive SecurityFault where
  /-- `zap_connect` finds a ZAP pipe -/
  | zapPipe
  | nullPipe
  /-- `zap_msg_available` of an engine finds no mechanism -/
  | noMechanism
deriving DecidableEq

namespace SecuredSession

variable {P : Type u} {S : Type v}

def new (options : SecurityOptions) (active : Bool) (pipe : Option P) : SecuredSession P S where
  options := options
  active := active
  pipe := pipe
  zapPipe := none
  terminatingPipes := []
  engine := none
  connecting := true
  pending := false
  terminating := false
  found _ := 0
  bound _ := 0

def zapEnabled (s : SecuredSession P S) : Bool :=
  s.options.mechanism ≠ .null || s.options.mechanism = .null && s.options.hasDomain

/-- `reconnect`; the transport is one that has mechanisms. -/
def reconnect [DecidableEq P] (s : SecuredSession P S) : SecuredSession P S :=
  let s := match s.pipe with
    | some p =>
      if s.options.immediate then { s with terminatingPipes := s.terminatingPipes.insert p, pipe := none } else s
    | none => s
  { s with connecting := s.options.reconnects }

/-- `terminate` only asks the owner. -/
def engineError [DecidableEq P] (s : SecuredSession P S) (reason : ErrorReason) : SecuredSession P S :=
  let s := { s with engine := none }
  match reason with
  | .timeoutError | .connectionError => if s.active then s.reconnect else s
  | .protocolError => s

def processAttach (s : SecuredSession P S) (p : P) : SecuredSession P S :=
  { s with
    pipe := if s.pipe.isNone && !s.terminating then some p else s.pipe
    engine := some ⟨true, none, false⟩
    connecting := false }

variable [DecidableEq P] [DecidableEq S] (s : SecuredSession P S)

omit [DecidableEq P] in
/-- `found` is what `find_endpoint` returns. -/
def zapConnect (found : Option (S × SocketType)) (p : P) :
    Except SecurityFault (Bool × SecuredSession P S) :=
  if s.zapPipe.isSome then .error .zapPipe
  else match found with
    | none => .ok (false, s)
    | some (peer, type) =>
      let s := { s with found := update s.found peer (s.found peer + 1) }
      if type ≠ .rep ∧ type ≠ .router ∧ type ≠ .server then .ok (false, s)
      else .ok (true, { s with zapPipe := some p, bound := update s.bound peer (s.bound peer + 1) })

omit [DecidableEq P] [DecidableEq S] in
/-- The engine has its mechanism. -/
def start (m : SecurityMechanism) (opened : Bool) : SecuredSession P S :=
  { s with engine := some ⟨false, some m, opened⟩ }

/-- The end of `handshake`; engines have no mechanism for an old peer. -/
def handshake (peer : PeerGreeting) (found : Option (S × SocketType)) (p : P) :
    Except SecurityFault (SecuredSession P S) :=
  match peer with
  | .old => .ok (if s.zapEnabled then s.engineError .protocolError else { s with engine := some ⟨false, none, false⟩ })
  | .v3 false => .ok (s.engineError .protocolError)
  | .v3 true =>
    match s.options.mechanism with
    | .null =>
      if s.options.hasDomain then do
        let (connected, s) ← s.zapConnect found p
        return s.start (.null connected false false false) connected
      else .ok (s.start (.null false false false false) false)
    | .plain => .ok (s.start (if s.options.asServer then .plainServer .waitingForHello else .client) false)
    | .curve => .ok (s.start (if s.options.asServer then .curveServer .expectHello else .client) false)

/-- What servers do with a client that has said who it is: they ask the handler, if there is one. -/
def ask (found : Option (S × SocketType)) (p : P) (reply : ZapOutcome)
    (welcome error wait : SecurityMechanism) : Except SecurityFault (SecuredSession P S) := do
  let (connected, s) ← s.zapConnect found p
  if connected then
    match reply with
    | .success => return s.start welcome true
    | .refusal => return s.start error true
    | .missing => return s.start wait true
    | .malformed => return s.engineError .protocolError
  else return s.start welcome false

/-- A command of the peer. `valid` says whether it is the one that the mechanism expects, and well formed; `parsed` is the
result of `parse_metadata` at the end of `process_initiate`. -/
def processHandshakeCommand (e : SecurityEngine) (m : SecurityMechanism) (valid : Bool)
    (found : Option (S × SocketType)) (p : P) (reply : ZapOutcome) (parsed : Bool) :
    Except SecurityFault (SecuredSession P S) :=
  if valid then
    match m with
    | .plainServer .waitingForHello =>
      s.ask found p reply (.plainServer .sendingWelcome) (.plainServer .sendingError) (.plainServer .waitingForZapReply)
    | .plainServer .waitingForInitiate => .ok (s.start (.plainServer .sendingReady) e.opened)
    | .curveServer .expectHello => .ok (s.start (.curveServer .sendWelcome) e.opened)
    | .curveServer .expectInitiate => do
      let s ← s.ask found p reply (.curveServer .sendReady) (.curveServer .sendError) (.curveServer .expectZapReply)
      return if parsed then s else s.engineError .protocolError
    | .plainServer _ | .curveServer _ => .ok (s.engineError .protocolError)
    | .null _ _ _ _ | .client => .ok s
  else .ok (s.engineError .protocolError)

end SecuredSession

/-- `next_handshake_command` -/
def SecurityMechanism.next (reply : ZapOutcome) : SecurityMechanism → SecurityMechanism
  | .null connected requestSent received sent =>
    if sent then .null connected requestSent received sent
    else if connected && !received then
      if requestSent then .null connected requestSent received sent
      else
        match reply with
        | .success | .refusal => .null connected true true true
        | .missing | .malformed => .null connected true received sent
    else .null connected requestSent received true
  | .plainServer .sendingWelcome => .plainServer .waitingForInitiate
  | .plainServer .sendingReady => .plainServer .ready
  | .plainServer .sendingError => .plainServer .errorCommandSent
  | .curveServer .sendWelcome => .curveServer .expectInitiate
  | .curveServer .sendReady => .curveServer .connected
  | .curveServer .sendError => .curveServer .errorSent
  | m => m

/-- `none` is -1. -/
def SecurityMechanism.zapMsgAvailable (reply : ZapOutcome) : SecurityMechanism → Option SecurityMechanism
  | .null connected requestSent received sent =>
    if received then none
    else
      match reply with
      | .success | .refusal => some (.null connected requestSent true sent)
      | .missing | .malformed => none
  | .plainServer state =>
    if state ≠ .waitingForZapReply then none
    else
      match reply with
      | .success => some (.plainServer .sendingWelcome)
      | .refusal => some (.plainServer .sendingError)
      | .missing | .malformed => none
  | .curveServer state =>
    if state ≠ .expectZapReply then none
    else
      match reply with
      | .success => some (.curveServer .sendReady)
      | .refusal => some (.curveServer .sendError)
      | .missing | .malformed => none
  | .client => some .client

namespace SecuredSession

variable {P : Type u} {S : Type v} [DecidableEq P] [DecidableEq S] (s : SecuredSession P S)

/-- The engine goes on with output, which is for other steps. -/
def readActivated (p : P) (reply : ZapOutcome) : Except SecurityFault (SecuredSession P S) :=
  if s.pipe ≠ some p ∧ s.zapPipe ≠ some p then .ok s
  else
    match s.engine with
    | none => if s.pipe.isNone then .error .nullPipe else .ok s
    | some e =>
      if s.pipe = some p then .ok s
      else
        match e.mechanism with
        | none => .error .noMechanism
        | some m =>
          match m.zapMsgAvailable reply with
          | none => .ok (s.engineError .protocolError)
          | some m => .ok { s with engine := some { e with mechanism := some m } }

def pipeTerminated (p : P) : SecuredSession P S :=
  let s :=
    if s.pipe = some p then { s with pipe := none }
    else if s.zapPipe = some p then { s with zapPipe := none }
    else { s with terminatingPipes := s.terminatingPipes.erase p }
  if s.pending ∧ s.pipe = none ∧ s.zapPipe = none ∧ s.terminatingPipes = [] then
    { s with pending := false, terminating := true }
  else s

def processTerm : SecuredSession P S :=
  if s.pipe = none ∧ s.zapPipe = none ∧ s.terminatingPipes = [] then { s with terminating := true }
  else { s with pending := true }

inductive Op (P : Type u) (S : Type v) where
  | attach (p : P)
  | greeting (peer : PeerGreeting) (found : Option (S × SocketType)) (p : P)
  | command (valid : Bool) (found : Option (S × SocketType)) (p : P) (reply : ZapOutcome) (parsed : Bool)
  | next (reply : ZapOutcome)
  | engineError (reason : ErrorReason)
  | readActivated (p : P) (reply : ZapOutcome)
  | pipeTerminated (p : P)
  | processTerm

section

omit [DecidableEq P] [DecidableEq S]

/-- The pipes that the session knows, which are all that call it. -/
def Knows (p : P) : Prop := s.pipe = some p ∨ s.zapPipe = some p ∨ p ∈ s.terminatingPipes

/-- The mechanism of the engine, once the engine has greeted its peer. -/
def mechanism (s : SecuredSession P S) : Option (SecurityEngine × SecurityMechanism) :=
  match s.engine with
  | some e => e.mechanism.map fun m => (e, m)
  | none => none

def Ready : Op P S → Prop
  | .attach p => s.connecting = true ∧ s.engine.isNone = true ∧ ¬s.Knows p
  | .greeting _ _ p => s.engine.any (·.handshaking) = true ∧ ¬s.Knows p
  | .command _ _ p _ _ => s.mechanism.isSome = true ∧ ¬s.Knows p
  | .next _ => s.mechanism.isSome = true
  | .engineError _ => s.engine.isSome = true
  | .readActivated p _ | .pipeTerminated p => s.Knows p
  | .processTerm => s.pending = false ∧ s.terminating = false

/-- The mechanism of the engine is about to call `zap_connect`. -/
def Connects : Op P S → Prop
  | .greeting (.v3 true) _ _ => s.options.mechanism = .null ∧ s.options.hasDomain = true
  | .command true _ _ _ _ => s.mechanism.map Prod.snd = some (.plainServer .waitingForHello) ∨
    s.mechanism.map Prod.snd = some (.curveServer .expectInitiate)
  | _ => False

/-- There is a ZAP pipe that the mechanism of an earlier engine has opened. -/
def LeftOpen : Prop := s.zapPipe.isSome = true ∧ s.engine.any (·.opened) = false

/-- Nobody who binds the address of the handler is of another type. -/
def Suitable (found : Option (S × SocketType)) : Prop :=
  found.all (fun x => x.2 = .rep ∨ x.2 = .router ∨ x.2 = .server) = true

/-- The ZAP pipe can be read although its engine has gone, and there is neither an engine that has greeted its peer nor,
without an engine, a pipe to the socket. -/
def Stray : Prop :=
  match s.engine with
  | some e => e.opened = false ∧ e.handshaking = true
  | none => s.pipe.isNone = true

/-- When `zap_connect` is called, the ZAP pipe of an earlier engine has gone, and what binds the address of the handler is of
a suitable type. -/
def Keeps (op : Op P S) : Prop :=
  match op with
  | .greeting _ found _ | .command _ found _ _ _ => s.Connects op → ¬s.LeftOpen ∧ Suitable found
  | .readActivated p _ => s.zapPipe = some p → s.pipe ≠ some p → ¬s.Stray
  | _ => True

def Start : Prop := ∃ options active pipe, s = new options active pipe

end

instance (p : P) : Decidable (s.Knows p) := by unfold Knows; infer_instance

instance (op : Op P S) : Decidable (s.Ready op) := by
  cases op <;> unfold Ready <;> infer_instance

instance (op : Op P S) : Decidable (s.Connects op) := by
  unfold Connects; split <;> infer_instance

instance : Decidable s.LeftOpen := by unfold LeftOpen; infer_instance

instance (found : Option (S × SocketType)) : Decidable (Suitable found) := by unfold Suitable; infer_instance

instance : Decidable s.Stray := by unfold Stray; split <;> infer_instance

instance (op : Op P S) : Decidable (s.Keeps op) := by
  cases op <;> unfold Keeps <;> infer_instance

def run : Op P S → Except SecurityFault (SecuredSession P S)
  | .attach p => .ok (s.processAttach p)
  | .greeting peer found p => s.handshake peer found p
  | .command valid found p reply parsed =>
    match s.mechanism with
    | some (e, m) => s.processHandshakeCommand e m valid found p reply parsed
    | none => .ok s
  | .next reply =>
    match s.mechanism with
    | some (e, m) => .ok { s with engine := some { e with mechanism := some (m.next reply) } }
    | none => .ok s
  | .engineError reason => .ok (s.engineError reason)
  | .readActivated p reply => s.readActivated p reply
  | .pipeTerminated p => .ok (s.pipeTerminated p)
  | .processTerm => .ok s.processTerm

abbrev Step : SecuredSession P S → Op P S → SecuredSession P S → Prop := Does Ready run

end SecuredSession

def SecurityMechanism.Early : SecurityMechanism → Prop
  | .plainServer state => state = .waitingForHello
  | .curveServer state => state = .expectHello ∨ state = .sendWelcome ∨ state = .expectInitiate
  | _ => False

structure SecurityEngine.Sound (enabled : Bool) (e : SecurityEngine) : Prop where
  greeting : e.handshaking = true → e.mechanism = none ∧ e.opened = false
  greeted : e.handshaking = false → enabled = true → e.mechanism ≠ none
  early : ∀ m, e.mechanism = some m → m.Early → e.opened = false ∧ enabled = true

variable {reply : ZapOutcome}

theorem SecurityMechanism.early_next {m : SecurityMechanism} (h : (m.next reply).Early) : m.Early := by
  cases m with
  | null connected requestSent received sent =>
    unfold next at h
    dsimp only at h
    split_ifs at h
    · exact h
    · exact h
    · cases reply <;> exact h
    · exact h
  | plainServer state =>
    cases state with
    | waitingForHello => rfl
    | sendingWelcome | sendingReady | sendingError => cases h
    | _ => exact h
  | curveServer state =>
    cases state with
    | sendWelcome => exact .inr (.inl rfl)
    | sendReady | sendError => rcases h with h | h | h <;> cases h
    | _ => exact h
  | client => exact h

theorem SecurityMechanism.early_available {m m' : SecurityMechanism} (h : m.zapMsgAvailable reply = some m') : ¬m'.Early := by
  unfold zapMsgAvailable at h
  split at h
  · split_ifs at h
    split at h
    · cases h
      exact id
    · cases h
      exact id
    · cases h
    · cases h
  · split_ifs at h
    split at h
    · cases h
      exact nofun
    · cases h
      exact nofun
    · cases h
    · cases h
  · split_ifs at h
    split at h
    · cases h
      exact fun hc => (by rcases hc with hc | hc | hc <;> cases hc)
    · cases h
      exact fun hc => (by rcases hc with hc | hc | hc <;> cases hc)
    · cases h
    · cases h
  · cases h
    exact id

namespace SecuredSession

variable {P : Type u} {S : Type v} {s s' : SecuredSession P S} {p : P} {found : Option (S × SocketType)}

def Counted (s : SecuredSession P S) : Prop := ∀ peer, s.found peer = s.bound peer

structure Sound (s : SecuredSession P S) : Prop where
  counted : s.Counted
  engine : ∀ e, s.engine = some e → e.Sound s.zapEnabled
  enabled : s.zapPipe.isSome = true → s.zapEnabled = true

def Goes (x : Except SecurityFault (SecuredSession P S)) : Prop := ∃ s', x = .ok s' ∧ s'.Counted

theorem Goes.ok (h : s.Counted) : Goes (.ok s) := ⟨s, rfl, h⟩

structure Moves (s s' : SecuredSession P S) : Prop where
  options : s'.options = s.options
  zapPipe : s'.zapPipe = s.zapPipe
  found : s'.found = s.found
  bound : s'.bound = s.bound
  engine : ∀ e, s'.engine = some e → e.Sound s.zapEnabled

theorem Moves.counted (h : Moves s s') : s'.Counted ↔ s.Counted := by
  unfold Counted
  rw [h.found, h.bound]

theorem Moves.zapEnabled (h : Moves s s') : s'.zapEnabled = s.zapEnabled := by
  unfold SecuredSession.zapEnabled
  rw [h.options]

theorem Moves.sound (h : Moves s s') (hs : Sound s) : Sound s' where
  counted := h.counted.mpr hs.counted
  engine := h.zapEnabled.symm ▸ h.engine
  enabled := h.zapPipe.symm ▸ h.zapEnabled.symm ▸ hs.enabled

theorem moves_start {m : SecurityMechanism} {opened : Bool} (hm : m.Early → opened = false ∧ s.zapEnabled = true) :
    Moves s (s.start m opened) := by
  refine ⟨rfl, rfl, rfl, rfl, fun e he => ?_⟩
  cases he
  refine ⟨nofun, fun _ _ hc => (by cases hc), fun m' hm' => ?_⟩
  cases hm'
  exact hm

section

variable [DecidableEq P]

theorem moves_engineError (s : SecuredSession P S) (reason : ErrorReason) : Moves s (s.engineError reason) := by
  have hnone : Moves s { s with engine := none } := ⟨rfl, rfl, rfl, rfl, fun e he => (by cases he)⟩
  have hreconnect : Moves s (reconnect { s with engine := none }) := by
    unfold reconnect
    split
    · split_ifs <;> exact ⟨rfl, rfl, rfl, rfl, fun e he => (by cases he)⟩
    · exact ⟨rfl, rfl, rfl, rfl, fun e he => (by cases he)⟩
  unfold engineError
  dsimp only
  cases reason with
  | protocolError => exact hnone
  | connectionError | timeoutError =>
    split_ifs
    · exact hreconnect
    · exact hnone

end

section

variable [DecidableEq S]

theorem goes_zapConnect (h : s.Counted) : (∃ x, s.zapConnect found p = .ok x ∧ x.2.Counted) ↔
    s.zapPipe.isSome = false ∧ Suitable found := by
  unfold zapConnect
  by_cases hz : s.zapPipe.isSome = true
  · rw [hz]
    exact iff_of_false (fun ⟨x, hx, _⟩ => (by cases hx)) fun hc => Bool.noConfusion hc.1
  rw [if_neg hz]
  have hz := Bool.eq_false_of_not_eq_true hz
  rw [hz]
  cases found with
  | none => exact iff_of_true ⟨_, rfl, h⟩ ⟨rfl, rfl⟩
  | some x =>
    obtain ⟨peer, type⟩ := x
    dsimp only
    split_ifs with ht
    · refine iff_of_false ?_ fun hc => ?_
      · rintro ⟨x, hx, hcounted⟩
        cases hx
        have hpeer := hcounted peer
        dsimp only at hpeer
        rw [update_self, h peer] at hpeer
        exact Nat.succ_ne_self _ hpeer
      · rcases of_decide_eq_true hc.2 with hc | hc | hc
        · exact ht.1 hc
        · exact ht.2.1 hc
        · exact ht.2.2 hc
    · refine iff_of_true ⟨_, rfl, fun y => ?_⟩ ⟨rfl, decide_eq_true ?_⟩
      · dsimp only
        rcases eq_or_ne y peer with rfl | hne
        · rw [update_self, update_self, h y]
        · rw [update_of_ne hne, update_of_ne hne, h y]
      · by_contra hc
        obtain ⟨h1, hc⟩ := not_or.mp hc
        exact ht ⟨h1, not_or.mp hc⟩

theorem zapConnect_sound {connected : Bool} (h : Sound s) (he : s.zapEnabled = true)
    (hx : s.zapConnect found p = .ok (connected, s')) (hc : s'.Counted) : Sound s' ∧ s'.zapEnabled = true := by
  unfold zapConnect at hx
  split_ifs at hx
  split at hx
  · cases hx
    exact ⟨h, he⟩
  · split_ifs at hx
    · cases hx
      exact ⟨⟨hc, h.engine, h.enabled⟩, he⟩
    · cases hx
      exact ⟨⟨hc, h.engine, fun _ => he⟩, he⟩

end

variable [DecidableEq P] [DecidableEq S] {x : Except SecurityFault (SecuredSession P S)} {keeps : Prop} {m : SecurityMechanism}
    {e : SecurityEngine} {reply : ZapOutcome}

theorem ask_ok (reply : ZapOutcome) (welcome error wait : SecurityMechanism) {connected : Bool}
    (hx : s.zapConnect found p = .ok (connected, s')) (hw : ¬welcome.Early) (he : ¬error.Early) (hwait : ¬wait.Early) :
    ∃ s'', s.ask found p reply welcome error wait = .ok s'' ∧ Moves s' s'' := by
  have hask : s.ask found p reply welcome error wait = .ok (if connected then
      match reply with
      | .success => s'.start welcome true
      | .refusal => s'.start error true
      | .missing => s'.start wait true
      | .malformed => s'.engineError .protocolError
    else s'.start welcome false) := by
    unfold ask
    rw [hx]
    cases connected <;> cases reply <;> rfl
  refine ⟨_, hask, ?_⟩
  split_ifs
  · cases reply with
    | success => exact moves_start fun hc => absurd hc hw
    | refusal => exact moves_start fun hc => absurd hc he
    | missing => exact moves_start fun hc => absurd hc hwait
    | malformed => exact moves_engineError s' _
  · exact moves_start fun hc => absurd hc hw

omit [DecidableEq P] [DecidableEq S] in
theorem leftOpen_iff (h : s.engine.any (·.opened) = false) : ¬s.LeftOpen ↔ s.zapPipe.isSome = false := by
  unfold LeftOpen
  rw [h, and_iff_left rfl, Bool.not_eq_true]

structure Fair (s : SecuredSession P S) (keeps : Prop) (x : Except SecurityFault (SecuredSession P S)) : Prop where
  goes : keeps ↔ Goes x
  sound : ∀ s', x = .ok s' → s'.Counted → Sound s'

omit [DecidableEq P] [DecidableEq S] in
theorem Fair.imp {asks keeps : Prop} (ha : asks) (h : Fair s keeps x) : Fair s (asks → keeps) x :=
  ⟨(forall_prop_of_true ha).trans h.goes, h.sound⟩

omit [DecidableEq P] in
theorem Sound.connects (h : Sound s) (hz : s.zapEnabled = true)
    (ho : s.engine.any (·.opened) = false) (herror : ∀ e, s.zapConnect found p = .error e → x = .error e)
    (hok : ∀ connected s1, s.zapConnect found p = .ok (connected, s1) → ∃ s2, x = .ok s2 ∧ Moves s1 s2) :
    Fair s (¬s.LeftOpen ∧ Suitable found) x := by
  have hgoes : (∃ y, s.zapConnect found p = .ok y ∧ y.2.Counted) ↔ _ := goes_zapConnect h.counted
  rw [← leftOpen_iff ho] at hgoes
  cases hx : s.zapConnect found p with
  | error e =>
    obtain rfl := herror e hx
    refine ⟨hgoes.symm.trans (iff_of_false ?_ ?_), fun s' hs' => (by cases hs')⟩
    · rintro ⟨y, hc, -⟩
      cases hx.symm.trans hc
    · rintro ⟨y, hc, -⟩
      cases hc
  | ok y =>
    obtain ⟨connected, s1⟩ := y
    obtain ⟨s2, rfl, hmoves⟩ := hok connected s1 hx
    refine ⟨hgoes.symm.trans ⟨?_, ?_⟩, fun s' hs' hc => ?_⟩
    · rintro ⟨y, hy, hcounted⟩
      cases hx.symm.trans hy
      exact ⟨s2, rfl, hmoves.counted.mpr hcounted⟩
    · rintro ⟨s', hs', hcounted⟩
      cases hs'
      exact ⟨_, hx, hmoves.counted.mp hcounted⟩
    · cases hs'
      exact hmoves.sound (zapConnect_sound h hz hx (hmoves.counted.mp hc)).1

omit [DecidableEq P] [DecidableEq S] in
theorem Sound.fair (h : Sound s') (hk : keeps) : Fair s keeps (.ok s') where
  goes := iff_of_true hk (Goes.ok h.counted)
  sound s'' hs _ := by
    cases hs
    exact h

omit [DecidableEq P] [DecidableEq S] in
theorem Sound.moves (h : Sound s) (hm : Moves s s') (hk : keeps) : Fair s keeps (.ok s') :=
  (hm.sound h).fair hk

theorem Sound.handshake {peer : PeerGreeting} (h : Sound s) (hr : s.engine.any (·.handshaking) = true) :
    Fair s (s.Connects (.greeting peer found p) → ¬s.LeftOpen ∧ Suitable found) (s.handshake peer found p) := by
  have ho : s.engine.any (·.opened) = false := by
    cases he : s.engine with
    | none => rfl
    | some e =>
      rw [he] at hr
      exact ((h.engine e he).greeting hr).2
  unfold SecuredSession.handshake
  match peer with
  | .old =>
    dsimp only
    split_ifs with hz
    · exact h.moves (moves_engineError s _) False.elim
    · refine h.moves ⟨rfl, rfl, rfl, rfl, fun e he => ?_⟩ False.elim
      cases he
      exact ⟨nofun, fun _ hc => absurd hc hz, fun m hm => (by cases hm)⟩
  | .v3 false => exact h.moves (moves_engineError s _) False.elim
  | .v3 true =>
    cases hm : s.options.mechanism with
    | null =>
      dsimp only
      split_ifs with hd
      · have hz : s.zapEnabled = true := by
          unfold zapEnabled
          rw [hm, hd]
          rfl
        refine Fair.imp ⟨hm, hd⟩ (h.connects (p := p) hz ho (fun e he => ?_) fun connected s1 hs1 => ?_)
        · rw [he]
          rfl
        · rw [hs1]
          exact ⟨_, rfl, moves_start fun hc => hc.elim⟩
      · exact h.moves (moves_start fun hc => hc.elim) fun hc => absurd hc.2 hd
    | plain | curve =>
      have hz : s.zapEnabled = true := by
        unfold zapEnabled
        rw [hm]
        rfl
      refine h.moves (moves_start fun _ => ⟨rfl, hz⟩) fun hc => ?_
      cases hm.symm.trans hc.1

omit [DecidableEq P] [DecidableEq S] in
theorem mechanism_spec (h : s.mechanism = some (e, m)) : s.engine = some e ∧ e.mechanism = some m := by
  unfold mechanism at h
  split at h
  · rename_i e' he
    obtain ⟨m', hm, hpair⟩ := map_eq_some_iff.mp h
    cases hpair
    exact ⟨he, hm⟩
  · cases h

theorem Sound.processHandshakeCommand {valid parsed : Bool} (h : Sound s) (hm : s.mechanism = some (e, m)) :
    Fair s (s.Connects (.command valid found p reply parsed) → ¬s.LeftOpen ∧ Suitable found)
      (s.processHandshakeCommand e m valid found p reply parsed) := by
  obtain ⟨he, hem⟩ := mechanism_spec hm
  have hearly := (h.engine e he).early m hem
  have ho : m.Early → s.engine.any (·.opened) = false := fun hc => by
    rw [he]
    exact (hearly hc).1
  have hasks : s.Connects (.command true found p reply parsed) ↔ m = .plainServer .waitingForHello ∨
      m = .curveServer .expectInitiate := by
    unfold Connects
    rw [hm]
    exact or_congr some_inj some_inj
  unfold SecuredSession.processHandshakeCommand
  cases valid with
  | false =>
    exact h.moves (moves_engineError s _) False.elim
  | true =>
    have hother : ∀ {s'}, Moves s s' → ¬(m = .plainServer .waitingForHello ∨ m = .curveServer .expectInitiate) →
        Fair s (s.Connects (.command true found p reply parsed) → ¬s.LeftOpen ∧ Suitable found) (.ok s') :=
      fun hmoves hno => h.moves hmoves fun hc => absurd (hasks.mp hc) hno
    cases m with
    | null connected requestSent received sent | client =>
      refine hother ⟨rfl, rfl, rfl, rfl, h.engine⟩ fun hc => ?_
      rcases hc with hc | hc <;> cases hc
    | plainServer state =>
      cases state with
      | waitingForHello =>
        refine Fair.imp (hasks.mpr (.inl rfl)) (h.connects (p := p) (hearly rfl).2 (ho rfl) (fun e he => ?_)
          fun connected s1 hs1 => ?_)
        · unfold SecuredSession.ask
          rw [he]
          rfl
        · exact ask_ok _ _ _ _ hs1 (nofun) (nofun) (nofun)
      | waitingForInitiate =>
        refine hother (moves_start nofun) fun hc => ?_
        rcases hc with hc | hc <;> cases hc
      | _ =>
        refine hother (moves_engineError s _) fun hc => ?_
        rcases hc with hc | hc <;> cases hc
    | curveServer state =>
      cases state with
      | expectHello =>
        refine hother (moves_start fun _ => hearly (.inl rfl)) fun hc => ?_
        rcases hc with hc | hc <;> cases hc
      | expectInitiate =>
        have hnow : SecurityMechanism.Early (.curveServer .expectInitiate) := .inr (.inr rfl)
        refine Fair.imp (hasks.mpr (.inr rfl)) (h.connects (p := p) (hearly hnow).2 (ho hnow) (fun e he => ?_)
          fun connected s1 hs1 => ?_)
        · unfold SecuredSession.ask
          rw [he]
          rfl
        · obtain ⟨s2, hs2, hmoves⟩ := ask_ok reply (.curveServer .sendReady) (.curveServer .sendError)
            (.curveServer .expectZapReply) hs1
            (fun hc => (by rcases hc with hc | hc | hc <;> cases hc))
            (fun hc => (by rcases hc with hc | hc | hc <;> cases hc))
            (fun hc => (by rcases hc with hc | hc | hc <;> cases hc))
          rw [hs2]
          cases parsed with
          | true => exact ⟨s2, rfl, hmoves⟩
          | false =>
            have hdead := moves_engineError s2 .protocolError
            exact ⟨_, rfl, hdead.options.trans hmoves.options, hdead.zapPipe.trans hmoves.zapPipe,
              hdead.found.trans hmoves.found, hdead.bound.trans hmoves.bound, hmoves.zapEnabled ▸ hdead.engine⟩
      | _ =>
        refine hother (moves_engineError s _) fun hc => ?_
        rcases hc with hc | hc <;> cases hc

omit [DecidableEq S] in
theorem Sound.readActivated (h : Sound s) :
    Fair s (s.zapPipe = some p → s.pipe ≠ some p → ¬s.Stray) (s.readActivated p reply) := by
  unfold SecuredSession.readActivated
  by_cases hdetached : s.pipe ≠ some p ∧ s.zapPipe ≠ some p
  · rw [if_pos hdetached]
    exact h.fair fun hz => absurd hz hdetached.2
  rw [if_neg hdetached]
  have hzap : s.pipe ≠ some p → s.zapPipe = some p := fun hp => by
    by_contra hz
    exact hdetached ⟨hp, hz⟩
  cases he : s.engine with
  | none =>
    dsimp only
    have hstray : s.Stray ↔ s.pipe.isNone = true := by
      unfold Stray
      rw [he]
    split_ifs with hp
    · have hne : s.pipe ≠ some p := fun hc => by
        rw [hc] at hp
        cases hp
      refine ⟨iff_of_false (fun hk => hk (hzap hne) hne (hstray.mpr hp)) ?_, fun s' hs' => (by cases hs')⟩
      rintro ⟨s', hs', -⟩
      cases hs'
    · exact h.fair fun _ _ hc => hp (hstray.mp hc)
  | some e =>
    dsimp only
    have hstray : s.Stray ↔ e.opened = false ∧ e.handshaking = true := by
      unfold Stray
      rw [he]
    by_cases hp : s.pipe = some p
    · rw [if_pos hp]
      exact h.fair fun _ hc => absurd hp hc
    rw [if_neg hp]
    have hsound := h.engine e he
    cases hm : e.mechanism with
    | none =>
      -- without a mechanism there is no greeting yet
      have hgreeting : e.handshaking = true := by
        by_contra hc
        have hz : s.zapPipe.isSome = true := by rw [hzap hp]; rfl
        exact hsound.greeted (Bool.eq_false_of_not_eq_true hc) (h.enabled hz) hm
      have hstrays := hstray.mpr ⟨(hsound.greeting hgreeting).2, hgreeting⟩
      refine ⟨iff_of_false (fun hk => hk (hzap hp) hp hstrays) ?_, fun s' hs' => (by cases hs')⟩
      rintro ⟨s', hs', -⟩
      cases hs'
    | some m =>
      have hkeeps : s.zapPipe = some p → s.pipe ≠ some p → ¬s.Stray := fun _ _ hc => by
        obtain ⟨-, hgreeting⟩ := hstray.mp hc
        cases hm.symm.trans (hsound.greeting hgreeting).1
      dsimp only
      cases hx : m.zapMsgAvailable reply with
      | none => exact h.moves (moves_engineError s _) hkeeps
      | some m' =>
        refine h.moves ⟨rfl, rfl, rfl, rfl, fun e' he' => ?_⟩ hkeeps
        cases he'
        refine ⟨fun hc => ?_, fun _ _ hc => (by cases hc), fun m'' hm'' hc => ?_⟩
        · cases hm.symm.trans (hsound.greeting hc).1
        · cases hm''
          exact absurd hc (SecurityMechanism.early_available hx)

omit [DecidableEq S] in
theorem Sound.pipeTerminated (h : Sound s) : Sound (s.pipeTerminated p) := by
  have hend : ∀ {d : SecuredSession P S}, Sound d →
      Sound (if d.pending ∧ d.pipe = none ∧ d.zapPipe = none ∧ d.terminatingPipes = [] then
        { d with pending := false, terminating := true } else d) := by
    intro d hd
    split_ifs
    · exact ⟨hd.counted, hd.engine, hd.enabled⟩
    · exact hd
  apply hend
  split_ifs
  · exact ⟨h.counted, h.engine, h.enabled⟩
  · exact ⟨h.counted, h.engine, nofun⟩
  · exact ⟨h.counted, h.engine, h.enabled⟩

theorem Sound.step {op : Op P S} (h : Sound s) (hr : s.Ready op) : Fair s (s.Keeps op) (s.run op) := by
  cases op with
  | attach p =>
    refine Sound.fair ⟨h.counted, fun e he => ?_, h.enabled⟩ trivial
    cases he
    exact ⟨fun _ => ⟨rfl, rfl⟩, nofun, fun m hm => (by cases hm)⟩
  | greeting peer found p => exact h.handshake hr.1
  | command valid found p reply parsed =>
    obtain ⟨⟨e, m⟩, hm⟩ := isSome_iff_exists.mp hr.1
    unfold run
    rw [hm]
    exact h.processHandshakeCommand hm
  | next reply =>
    obtain ⟨⟨e, m⟩, hm⟩ := isSome_iff_exists.mp hr
    obtain ⟨he, hem⟩ := mechanism_spec hm
    have hsound := h.engine e he
    unfold run
    rw [hm]
    refine h.moves ⟨rfl, rfl, rfl, rfl, fun e' he' => ?_⟩ trivial
    cases he'
    refine ⟨fun hc => ?_, fun _ _ hc => (by cases hc), fun m' hm' hc => ?_⟩
    · cases hem.symm.trans (hsound.greeting hc).1
    · cases hm'
      exact hsound.early m hem (SecurityMechanism.early_next hc)
  | engineError reason => exact h.moves (moves_engineError s reason) trivial
  | readActivated p reply => exact h.readActivated
  | pipeTerminated p => exact h.pipeTerminated.fair trivial
  | processTerm =>
    refine Sound.fair ?_ trivial
    unfold processTerm
    split_ifs <;> exact ⟨h.counted, h.engine, h.enabled⟩

theorem run_sound {ops : List (Op P S)} (h : Run Start (Guarded Keeps Step) ops s) : Sound s := by
  refine h.invariant Sound (fun s hs => ?_) fun s op s' hi hs => ?_
  · obtain ⟨options, active, pipe, rfl⟩ := hs
    exact ⟨fun _ => rfl, fun e he => (by cases he), nofun⟩
  · obtain ⟨hk, hr, hx⟩ := hs
    have hfair := hi.step hr
    obtain ⟨s1, h1, hcounted⟩ := hfair.goes.mp hk
    cases h1.symm.trans hx
    exact hfair.sound _ hx hcounted

/-- No assertion about the ZAP pipe fails, no NULL pipe is used, and each socket that has been found is sent its `bind`, exactly
as long as no mechanism asks for a ZAP pipe while there is one that an earlier engine has left. -/
theorem zap_pipe_follows {ops : List (Op P S)} (h : Run Start (Guarded Keeps Step) ops s) :
    (∀ peer, s.found peer = s.bound peer) ∧ ∀ op, s.Ready op →
      (s.Keeps op ↔ ∃ s', s.run op = .ok s' ∧ ∀ peer, s'.found peer = s'.bound peer) :=
  ⟨(run_sound h).counted, fun _ hr => ((run_sound h).step hr).goes⟩

/-- A server that connects, and asks its handler for each of two engines. -/
def twice : List (Op ℕ ℕ) :=
  [.attach 1, .greeting (.v3 true) none 2, .command true (some (7, .rep)) 2 .missing true, .readActivated 2 .success,
    .next .missing, .pipeTerminated 2, .engineError .connectionError, .attach 3, .greeting (.v3 true) none 4,
    .command true (some (7, .router)) 4 .refusal true]

theorem zap_pipe_follows_twice : ∃ s : SecuredSession ℕ ℕ, Run Start (Guarded Keeps Step) twice s ∧
    (s.found 7, s.zapPipe) = (2, some 4) ∧ (∀ peer, s.found peer = s.bound peer) ∧ ∀ op, s.Ready op →
      (s.Keeps op ↔ ∃ s', s.run op = .ok s' ∧ ∀ peer, s'.found peer = s'.bound peer) :=
  exists_run (P := fun s => (s.found 7, s.zapPipe) = (2, some 4)) (s := new ⟨.plain, false, true, false, true⟩ true (some 0))
    ⟨_, _, _, rfl⟩ (by decide +kernel) fun _ hrun hs => ⟨hs, zap_pipe_follows hrun⟩

/-- A socket with a ZAP domain and NULL security reconnects: its session still has the ZAP pipe when the mechanism of the new
engine asks for one. -/
theorem zap_pipe_left_open : ∃ (ops : List (Op ℕ ℕ)) (s : SecuredSession ℕ ℕ), Run Start (Guarded free Step) ops s ∧
    s.Ready (.greeting (.v3 true) none 3) ∧ s.run (.greeting (.v3 true) none 3) = .error .zapPipe := by
  refine ⟨[.attach 1, .greeting (.v3 true) (some (7, .rep)) 2, .engineError .connectionError, .attach 3],
    exists_run (P := fun s => s.Ready (.greeting (.v3 true) none 3) ∧
      (match s.run (.greeting (.v3 true) none 3) with | .ok _ => none | .error e => some e) = some .zapPipe)
      (s := new ⟨.null, true, false, false, true⟩ true (some 0)) ⟨_, _, _, rfl⟩ (by decide +kernel)
      fun s _ ⟨hready, hfails⟩ => ⟨hready, ?_⟩⟩
  split at hfails
  · cases hfails
  · rename_i e he
    rw [he, some.inj hfails]

end SecuredSession

end Zmq
