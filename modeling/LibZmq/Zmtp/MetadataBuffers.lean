import LibZmq.Zmtp.PropertyExchange

/-! The buffers that a mechanism writes its properties into: 512 bytes on the heap for NULL and PLAIN, and arrays that
have 256 bytes left for CURVE. -/

namespace Zmq

open List

open Block Metadata

namespace Metadata

variable {o : MechanismOptions} {size : ℕ} {b : List UInt8}

def statement (o : MechanismOptions) : List UInt8 := encodeAll (socketProperties o)

/-- A type whose sockets state their identity. -/
def statesIdentity (type : UInt8) : Bool := type = 3 ∨ type = 5 ∨ type = 6

/-- The longest identity that 256 bytes have room for. -/
def identityRoom (type : UInt8) : ℕ := if type = 3 then 224 else 221

/-- The identity is not stated, or is short. -/
def IdentityFits (o : MechanismOptions) : Prop := statesIdentity o.type = true → o.identity.length ≤ identityRoom o.type

theorem name_length_le {type : ℕ} (h : type < 19) : (socketTypeNames.getD type []).length ≤ 7 := by
  have hall : ∀ i : Fin 19, (socketTypeNames.getD i.1 []).length ≤ 7 := by decide
  exact hall ⟨type, h⟩

theorem socketTypeString_eq (h : o.type.toNat < 19) : socketTypeString o.type = .ok (socketTypeNames.getD o.type.toNat []) := by
  have hlt : o.type.toNat < socketTypeNames.length := h
  unfold socketTypeString
  rw [getD_eq_getElem?_getD, getElem?_eq_getElem hlt]
  rfl

theorem writable_socketProperties (h : o.type.toNat < 19) : ∀ p ∈ socketProperties o, Writable p := by
  have hname := name_length_le h
  have hid := o.identity_le
  intro p hp
  rcases mem_cons.mp hp with rfl | hp
  · exact ⟨show socketTypeName.length ≤ 255 by decide, by change (socketTypeNames.getD _ []).length < _; omega⟩
  · split_ifs at hp
    · rw [mem_singleton.mp hp]
      exact ⟨show identityName.length ≤ 255 by decide, by change o.identity.length < _; omega⟩
    · exact nomatch hp

theorem statement_length (o : MechanismOptions) : (statement o).length = 16 + (socketTypeNames.getD o.type.toNat []).length +
      if statesIdentity o.type = true then 13 + o.identity.length else 0 := by
  have hs : socketTypeName.length = 11 := rfl
  have hi : identityName.length = 8 := rfl
  unfold statement socketProperties statesIdentity
  simp only [decide_eq_true_eq]
  split_ifs
  · simp only [encodeAll, flatMap_cons, flatMap_nil, append_nil, length_append, encode_length, hs, hi]
    omega
  · simp only [encodeAll, flatMap_cons, flatMap_nil, append_nil, encode_length, hs]
    omega

theorem statement_length_le (h : o.type.toNat < 19) : (statement o).length ≤ 291 := by
  have hname := name_length_le h
  have hid := o.identity_le
  rw [statement_length]
  split_ifs <;> omega

theorem statement_fits (h : o.type.toNat < 19) : (statement o).length ≤ 256 ↔ IdentityFits o := by
  have hname := name_length_le h
  rw [statement_length, IdentityFits]
  split_ifs with hs
  · have hlen : identityRoom o.type + (socketTypeNames.getD o.type.toNat []).length = 227 := by
      simp only [statesIdentity, decide_eq_true_eq] at hs
      rcases hs with ht | ht | ht <;> rw [ht] <;> rfl
    simp only [hs, forall_const]
    omega
  · exact iff_of_true (by omega) fun hx => absurd hx hs

theorem addSocketProperties_eq (h : o.type.toNat < 19) (hsize : b.length + (statement o).length ≤ size) :
    addSocketProperties o size b = .ok (b ++ statement o) := by
  have hw := writable_socketProperties h
  have hps := addProperties_eq hw hsize
  unfold addSocketProperties
  rw [socketTypeString_eq h, ok_bind]
  unfold socketProperties at hps
  unfold statement socketProperties
  split_ifs at hps ⊢
  · obtain ⟨b1, h1, hps⟩ := bind_ok hps
    obtain ⟨b2, h2, hps⟩ := bind_ok hps
    rw [h1, ok_bind, h2]
    exact hps
  · obtain ⟨b1, h1, hps⟩ := bind_ok hps
    rw [h1]
    exact hps

theorem addProperty_overflows {p : Property} (hp : Writable p) (hsize : size < b.length + (encode p).length) :
    addProperty size b p.1 p.2 = .error .outOfBounds := by
  rw [encode_length] at hsize
  have hvalue : p.2.length ≤ 0x7FFFFFFF := Nat.le_of_lt_succ hp.value
  unfold addProperty
  rw [assert_ok hp.name, ok_bind]
  by_cases h1 : b.length + 1 ≤ size
  case neg => rw [append_error (by rw [length_singleton]; omega), error_bind]
  rw [append_ok (by rwa [length_singleton]), ok_bind]
  by_cases h2 : b.length + 1 + p.1.length ≤ size
  case neg => rw [append_error (by simp only [length_append, length_singleton]; omega), error_bind]
  rw [append_ok (by simpa only [length_append, length_singleton]), ok_bind, assert_ok hvalue, ok_bind]
  by_cases h3 : b.length + 1 + p.1.length + 4 ≤ size
  case neg =>
    rw [append_error (by simp only [length_append, length_singleton, putUint32_length]; omega), error_bind]
  rw [append_ok (by simpa only [length_append, length_singleton, putUint32_length])]
  exact append_error (by simp only [length_append, length_singleton, putUint32_length]; omega)

theorem addSocketProperties_overflows (h : o.type.toNat < 19) (hsize : size < b.length + (statement o).length) :
    addSocketProperties o size b = .error .outOfBounds := by
  have hw := writable_socketProperties h
  unfold addSocketProperties
  rw [socketTypeString_eq h, ok_bind]
  unfold statement encodeAll socketProperties at hsize
  rw [flatMap_cons, length_append] at hsize
  have htype := hw _ mem_cons_self
  by_cases hfirst : b.length + (encode (socketTypeName, socketTypeNames.getD o.type.toNat [])).length ≤ size
  case neg => rw [addProperty_overflows htype (by omega), error_bind]
  rw [addProperty_eq htype hfirst]
  split_ifs at hsize ⊢ with hs
  · have hid := hw (identityName, o.identity) (by
      unfold socketProperties
      rw [if_pos hs]
      exact mem_cons_of_mem _ mem_cons_self)
    rw [flatMap_cons, flatMap_nil, append_nil] at hsize
    exact addProperty_overflows hid (by rw [length_append]; omega)
  · rw [flatMap_nil, length_nil] at hsize
    omega

end Metadata

namespace NullMechanism

variable {m m' : NullMechanism} {msg : Msg}

theorem safe_produce (ht : m.base.options.type.toNat < 19) : Safe m.produce := by
  have hlen := statement_length_le ht
  have hname : readyName.length = 6 := rfl
  unfold produce
  split_ifs
  · exact safe_ok
  · rw [addSocketProperties_eq ht (by omega)]
    exact safe_ok

theorem safe_nextHandshakeCommand (ht : m.base.options.type.toNat < 19) : Safe m.nextHandshakeCommand := by
  unfold nextHandshakeCommand
  split_ifs
  · exact safe_ok
  · exact safe_ok
  · refine Safe.bind (Safe.bind (Safe.bind (ZapSession.safe_writeFrames _ _) fun _ _ => safe_ok) fun _ _ => safe_ok)
      fun m1 h1 => ?_
    refine Safe.bind (Safe.bind (ZapMechanism.safe_receive _ _) fun _ _ => safe_ok) fun x h2 => ?_
    obtain ⟨rc, m2⟩ := x
    cases rc with
    | error e => exact safe_ok
    | ok =>
      obtain ⟨z, hz, hret⟩ := bind_ok h1
      cases hret
      obtain ⟨⟨rc', z'⟩, hz', hret'⟩ := bind_ok h2
      cases hret'
      obtain ⟨-, -, ⟨hoptions, -⟩, -⟩ := ZapMechanism.receive_spec hz'
      have hm : z'.base.options = m.base.options := hoptions.trans (congrArg _ (ZapMechanism.sendZapRequest_spec hz).2.2.2.1)
      exact safe_produce (show z'.base.options.type.toNat < 19 from hm ▸ ht)
  · exact safe_produce ht

theorem next_states (ht : m.base.options.type.toNat < 19) (h : m.nextHandshakeCommand = .ok (.ok msg, m'))
    (hs : m'.readyCommandSent = true) : msg.data = readyName ++ statement m.base.options := by
  have hlen := statement_length_le ht
  have hname : readyName.length = 6 := rfl
  obtain ⟨command, hc, rfl⟩ := next_ready h hs
  rw [addSocketProperties_eq ht (by omega)] at hc
  exact (Except.ok.inj hc).symm

end NullMechanism

namespace PlainClient

theorem next_states {m : PlainClient} (ht : m.base.options.type.toNat < 19) (hs : m.state = .sendingInitiate) :
    m.nextHandshakeCommand = .ok (.ok (.ofData (initiateName ++ statement m.base.options)), { m with state := .waitingForReady }) := by
  have hlen := statement_length_le ht
  have hname : initiateName.length = 9 := rfl
  unfold nextHandshakeCommand
  rw [hs]
  rw [produceInitiate, addSocketProperties_eq ht (by omega)]
  rfl

end PlainClient

namespace PlainServer

theorem next_states {m : PlainServer} (ht : m.base.options.type.toNat < 19) (hs : m.state = .sendingReady) :
    m.nextHandshakeCommand = .ok (.ok (.ofData (readyName ++ statement m.base.options)), { m with state := .ready }) := by
  have hlen := statement_length_le ht
  have hname : readyName.length = 6 := rfl
  unfold nextHandshakeCommand
  rw [hs]
  rw [produceReady, addSocketProperties_eq ht (by omega)]
  rfl

end PlainServer

/-- The arrays of a client that has received WELCOME are filled. -/
structure CurveClient.Sized (m : CurveClient) : Prop where
  publicKey : m.publicKey.length = 32
  serverKey : m.serverKey.length = 32
  cnPublic : m.cnPublic.length = 32
  cnCookie : m.cnCookie.length = 96

namespace CurveClient

open Curve

variable {crypto : Crypto} {m : CurveClient} {random : ℕ → UInt8}

theorem initiatePlaintext_eq {vouchNonce vouchBox : List UInt8} (hk : m.publicKey.length = 32) (hn : vouchNonce.length = 16)
    (hv : (strip vouchBox).length = 80) : m.initiatePlaintext vouchNonce vouchBox =
      addSocketProperties m.base.options (zeroBytes + 128 + 256) (zeros zeroBytes ++ (m.publicKey ++ vouchNonce ++ strip vouchBox)) := by
  unfold initiatePlaintext
  dsimp only
  rw [append_ok (by simp only [length_nil, zeros_length]; omega), ok_bind,
    append_ok (by simp only [length_append, length_nil, zeros_length]; omega), ok_bind,
    append_ok (by simp only [length_append, length_nil, zeros_length]; omega), ok_bind,
    append_ok (by simp only [length_append, length_nil, zeros_length]; omega), ok_bind]
  simp only [nil_append, append_assoc]

def sealInitiate (crypto : Crypto) (m : CurveClient) (plaintext : List UInt8) : Except Crash (Except MechErrno Msg × CurveClient) :=
  match crypto.box plaintext (initiateTag ++ putUint64 m.cnNonce) m.cnServer m.cnSecret with
  | none => .ok (.error unset, m)
  | some c => do
    let initiateBox ← into (boxZeroBytes + 144 + 256) c
    return (.ok (.ofData (initiateName ++ m.cnCookie ++ putUint64 m.cnNonce ++ strip initiateBox)),
      { m with cnNonce := m.cnNonce + 1 })

theorem produceInitiate_eq (hl : crypto.Lawful) (hm : m.Sized) (random : ℕ → UInt8) : ∃ nonce vouch : List UInt8,
    nonce.length = 16 ∧ vouch.length = 80 ∧ m.produceInitiate crypto random =
      addSocketProperties m.base.options (zeroBytes + 128 + 256) (zeros zeroBytes ++ (m.publicKey ++ nonce ++ vouch)) >>=
        m.sealInitiate crypto := by
  have hnonce : (draw random 0 16).length = 16 := by simp [draw]
  obtain ⟨v, hv, hvlen, -⟩ := hl.afternm (m.cnPublic ++ m.serverKey) (vouchTag ++ draw random 0 16)
    (crypto.beforenm m.cnServer m.secretKey) (by rfl)
  have hv80 : v.length = 80 := by rw [hvlen, length_append, hm.cnPublic, hm.serverKey]
  refine ⟨draw random 0 16, v, hnonce, hv80, ?_⟩
  unfold produceInitiate
  dsimp only
  rw [hl.box, append_assoc, hv]
  dsimp only
  rw [into_ok (Nat.le_of_eq (by rw [length_append, zeros_length, hv80])), ok_bind,
    initiatePlaintext_eq hm.publicKey hnonce (by rw [strip_zeros, hv80])]
  rfl

def InitiateStates (crypto : Crypto) (m : CurveClient) (random : ℕ → UInt8) : Prop :=
  ∃ msg m' box, m.nextHandshakeCommand crypto random = .ok (.ok msg, m') ∧
    msg.data = initiateName ++ m.cnCookie ++ putUint64 m.cnNonce ++ box ∧
    msg.data.length = 113 + (16 + 128 + (statement m.base.options).length)

theorem next_states (hl : crypto.Lawful) (hm : m.Sized) (ht : m.base.options.type.toNat < 19) (hs : m.state = .sendInitiate)
    (hfit : (statement m.base.options).length ≤ 256) : m.InitiateStates crypto random := by
  obtain ⟨nonce, vouch, hn, hv, heq⟩ := produceInitiate_eq hl hm random
  have hlen : (m.publicKey ++ nonce ++ vouch).length = 128 := by
    simp only [length_append, hm.publicKey, hn, hv]
  obtain ⟨c, hc, hclen, -⟩ := hl.afternm (m.publicKey ++ nonce ++ vouch ++ statement m.base.options)
    (initiateTag ++ putUint64 m.cnNonce) (crypto.beforenm m.cnServer m.cnSecret) (CurveServer.nonce_length _ _ rfl)
  rw [length_append] at hclen
  rw [addSocketProperties_eq ht (by rw [length_append, zeros_length]; omega), ok_bind, sealInitiate, hl.box,
    append_assoc (zeros zeroBytes), hc] at heq
  dsimp only at heq
  rw [into_ok (by rw [length_append, zeros_length]; omega), ] at heq
  refine ⟨.ofData (initiateName ++ m.cnCookie ++ putUint64 m.cnNonce ++ c),
    { m with cnNonce := m.cnNonce + 1, state := .expectReady }, c, ?_, rfl, ?_⟩
  · unfold nextHandshakeCommand
    rw [hs]
    rw [heq]
    rfl
  · have hname : initiateName.length = 9 := rfl
    have hcounter : (putUint64 m.cnNonce).length = 8 := rfl
    rw [Msg.ofData_data, length_append, length_append, length_append, hm.cnCookie, ]
    omega

theorem next_overflows (hl : crypto.Lawful) (hm : m.Sized) (ht : m.base.options.type.toNat < 19) (hs : m.state = .sendInitiate)
    (hlong : 256 < (statement m.base.options).length) : m.nextHandshakeCommand crypto random = .error .outOfBounds := by
  obtain ⟨nonce, vouch, hn, hv, heq⟩ := produceInitiate_eq hl hm random
  have hlen : (m.publicKey ++ nonce ++ vouch).length = 128 := by
    simp only [length_append, hm.publicKey, hn, hv]
  rw [addSocketProperties_overflows ht (by rw [length_append, zeros_length]; omega)] at heq
  unfold nextHandshakeCommand
  rw [hs]
  rw [heq]
  rfl

end CurveClient

namespace CurveServer

open Curve

variable {crypto : Crypto} {m : CurveServer} {random : ℕ → UInt8}

def ReadyStates (crypto : Crypto) (m : CurveServer) (random : ℕ → UInt8) : Prop :=
  ∃ msg m' box, m.nextHandshakeCommand crypto random = .ok (.ok msg, m') ∧
    msg.data = readyName ++ putUint64 m.cnNonce ++ box ∧ msg.data.length = 14 + (16 + (statement m.base.options).length)

theorem next_states (hl : crypto.Lawful) (ht : m.base.options.type.toNat < 19) (hs : m.state = .sendReady)
    (hfit : (statement m.base.options).length ≤ 256) : m.ReadyStates crypto random := by
  obtain ⟨c, hc, hclen, -⟩ := hl.afternm (statement m.base.options) (readyTag ++ putUint64 m.cnNonce) m.cnPrecom
    (nonce_length _ _ rfl)
  refine ⟨.ofData (readyName ++ putUint64 m.cnNonce ++ c), { m with cnNonce := m.cnNonce + 1, state := .connected }, c, ?_, rfl, ?_⟩
  · unfold nextHandshakeCommand produceReady
    rw [hs]
    dsimp only
    rw [append_ok (by simp only [length_nil, zeros_length]; omega), ok_bind, nil_append,
      addSocketProperties_eq ht (by rw [zeros_length]; omega), ok_bind, hc]
    dsimp only
    rw [into_ok (by rw [length_append, zeros_length]; omega), ]
    rfl
  · rw [Msg.ofData_data, length_append, hclen]
    rfl

theorem next_overflows (ht : m.base.options.type.toNat < 19) (hs : m.state = .sendReady)
    (hlong : 256 < (statement m.base.options).length) : m.nextHandshakeCommand crypto random = .error .outOfBounds := by
  unfold nextHandshakeCommand produceReady
  rw [hs]
  dsimp only
  rw [append_ok (by simp only [length_nil, zeros_length]; omega), ok_bind, nil_append,
    addSocketProperties_overflows ht (by rw [zeros_length]; omega)]
  rfl

end CurveServer

/-- The mechanisms a socket with the options `o` may use, NULL at any time and the others when it is their turn to state
the properties of the socket. -/
structure Producers (o : MechanismOptions) where
  null : NullMechanism
  plainClient : PlainClient
  plainServer : PlainServer
  curveClient : CurveClient
  curveServer : CurveServer
  null_options : null.base.options = o
  plainClient_options : plainClient.base.options = o
  plainServer_options : plainServer.base.options = o
  curveClient_options : curveClient.base.options = o
  curveServer_options : curveServer.base.options = o
  plainClient_state : plainClient.state = .sendingInitiate
  plainServer_state : plainServer.state = .sendingReady
  curveClient_state : curveClient.state = .sendInitiate
  curveServer_state : curveServer.state = .sendReady
  sized : curveClient.Sized

namespace Producers

variable {o : MechanismOptions} {crypto : Crypto} {p : Producers o} {random : ℕ → UInt8}

/-- Every mechanism writes the properties within its buffer, and makes a command of just them. -/
structure Fit (p : Producers o) (crypto : Crypto) (random : ℕ → UInt8) : Prop where
  null : Safe p.null.nextHandshakeCommand ∧ ∀ msg m, p.null.nextHandshakeCommand = .ok (.ok msg, m) →
    m.readyCommandSent = true → msg.data = readyName ++ statement o
  plainClient : ∃ m, p.plainClient.nextHandshakeCommand = .ok (.ok (.ofData (initiateName ++ statement o)), m)
  plainServer : ∃ m, p.plainServer.nextHandshakeCommand = .ok (.ok (.ofData (readyName ++ statement o)), m)
  curveClient : p.curveClient.InitiateStates crypto random
  curveServer : p.curveServer.ReadyStates crypto random

/-- The properties fit into every buffer if and only if an identity that is stated is short. -/
theorem metadata_within_buffers (p : Producers o) (ht : o.type.toNat < 19) (hl : crypto.Lawful) (random : ℕ → UInt8) :
    p.Fit crypto random ↔ IdentityFits o := by
  rw [← statement_fits ht]
  have hall : ∀ o', o' = o → o'.type.toNat < 19 ∧ statement o' = statement o := fun o' h => by
    rw [h]
    exact ⟨ht, rfl⟩
  obtain ⟨htnull, hnull⟩ := hall _ p.null_options
  obtain ⟨htpc, hpc⟩ := hall _ p.plainClient_options
  obtain ⟨htps, hps⟩ := hall _ p.plainServer_options
  obtain ⟨htcc, hcc⟩ := hall _ p.curveClient_options
  obtain ⟨htcs, hcs⟩ := hall _ p.curveServer_options
  constructor
  · intro h
    obtain ⟨msg, m, box, hnext, -⟩ := h.curveServer
    by_contra hlong
    rw [CurveServer.next_overflows htcs p.curveServer_state (by rw [hcs]; omega)] at hnext
    cases hnext
  · intro h
    refine ⟨⟨NullMechanism.safe_nextHandshakeCommand htnull, fun msg m hm hs => ?_⟩,
      ⟨{ p.plainClient with state := .waitingForReady }, ?_⟩, ⟨{ p.plainServer with state := .ready }, ?_⟩, ?_, ?_⟩
    · rw [← hnull]
      exact NullMechanism.next_states htnull hm hs
    · rw [← hpc]
      exact PlainClient.next_states htpc p.plainClient_state
    · rw [← hps]
      exact PlainServer.next_states htps p.plainServer_state
    · exact CurveClient.next_states hl p.sized htcc p.curveClient_state (by rwa [hcc])
    · exact CurveServer.next_states hl htcs p.curveServer_state (by rwa [hcs])

def dealer (identity : List UInt8) (h : identity.length ≤ 255) : MechanismOptions :=
  { MechanismOptions.new 5 with identity := identity, identity_le := h }

/-- The mechanisms of a socket that have got so far. -/
def ofOptions (o : MechanismOptions) : Producers o where
  null := ⟨.new o (.new false) [], false, false, false, false, false, false, false⟩
  plainClient := { PlainClient.new o with state := .sendingInitiate }
  plainServer := { PlainServer.new o (.new false) [] with state := .sendingReady }
  curveClient := { CurveClient.new o (Curve.zeros 32) (Curve.zeros 32) (Curve.zeros 32) (Curve.zeros 32) (Curve.zeros 32) with
    state := .sendInitiate
    cnServer := Curve.zeros 32
    cnCookie := Curve.zeros 96 }
  curveServer := { CurveServer.new o (.new false) [] (Curve.zeros 32) (Curve.zeros 32) (Curve.zeros 32) with state := .sendReady }
  null_options := rfl
  plainClient_options := rfl
  plainServer_options := rfl
  curveClient_options := rfl
  curveServer_options := rfl
  plainClient_state := rfl
  plainServer_state := rfl
  curveClient_state := rfl
  curveServer_state := rfl
  sized := ⟨rfl, rfl, rfl, rfl⟩

theorem metadata_within_buffers_dealer : let o := dealer (Curve.zeros 221) (by rw [Curve.zeros_length]; omega)
    ((ofOptions o).Fit .clear (fun _ => 0) ↔ IdentityFits o) ∧ IdentityFits o :=
  ⟨metadata_within_buffers _ (by decide) Crypto.clear_lawful _, fun _ => Nat.le_of_eq (Curve.zeros_length 221)⟩

/-- One byte of identity more than there is room for, on both sides. -/
theorem long_identity_overflows : let p := ofOptions (dealer (Curve.zeros 222) (by rw [Curve.zeros_length]; omega))
    p.curveClient.nextHandshakeCommand .clear (fun _ => 0) = .error .outOfBounds ∧
      p.curveServer.nextHandshakeCommand .clear (fun _ => 0) = .error .outOfBounds :=
  ⟨CurveClient.next_overflows Crypto.clear_lawful ⟨rfl, rfl, rfl, rfl⟩ (by decide) rfl (by decide +kernel),
    CurveServer.next_overflows (by decide) rfl (by decide +kernel)⟩

end Producers
end Zmq
