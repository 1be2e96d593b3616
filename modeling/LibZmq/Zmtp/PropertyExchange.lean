import LibZmq.Zmtp.CurveBuffers
import LibZmq.Zmtp.NullMechanism
import LibZmq.Zmtp.PlainMechanism
import LibZmq.Zmtp.Properties

/-! The commands in which NULL, PLAIN and CURVE tell about their sockets, and what the peer makes of them. -/

namespace Zmq

open List

open Metadata Block

namespace NullMechanism

variable {m m' peer : NullMechanism} {msg : Msg}

theorem produce_ready (h : m.produce = .ok (.ok msg, m')) (hr : m.readyCommandSent = false) (hs : m'.readyCommandSent = true) :
    ∃ command, addSocketProperties m.base.options 512 readyName = .ok command ∧ msg = .ofData command := by
  unfold produce at h
  split_ifs at h
  · cases h
    rw [hr] at hs
    exact nomatch hs
  · obtain ⟨command, hc, hret⟩ := bind_ok h
    obtain ⟨hmsg, -⟩ := ok_pair hret
    exact ⟨command, hc, (Except.ok.inj hmsg).symm⟩

theorem next_ready (h : m.nextHandshakeCommand = .ok (.ok msg, m')) (hs : m'.readyCommandSent = true) :
    ∃ command, addSocketProperties m.base.options 512 readyName = .ok command ∧ msg = .ofData command := by
  unfold nextHandshakeCommand at h
  split_ifs at h with hsent hask hrequest
  · cases h
  · cases h
  · have hr : m.readyCommandSent = false := (Bool.or_eq_false_iff.mp (Bool.not_eq_true _ ▸ hsent)).1
    obtain ⟨m1, h1, h⟩ := bind_ok h
    obtain ⟨⟨rc, m2⟩, h2, h⟩ := bind_ok h
    cases rc with
    | error e => cases h
    | ok =>
      obtain ⟨z, hz, hret⟩ := bind_ok h1
      cases hret
      obtain ⟨⟨rc', z'⟩, hz', hret'⟩ := bind_ok h2
      cases hret'
      obtain ⟨-, -, ⟨hoptions, -⟩, -⟩ := ZapMechanism.receive_spec hz'
      have hm : z'.base.options = m.base.options := hoptions.trans (congrArg _ (ZapMechanism.sendZapRequest_spec hz).2.2.2.1)
      obtain ⟨command, hcommand, hmsg⟩ := produce_ready h hr hs
      exact ⟨command, hm ▸ hcommand, hmsg⟩
  · have hr : m.readyCommandSent = false := (Bool.or_eq_false_iff.mp (Bool.not_eq_true _ ▸ hsent)).1
    exact produce_ready h hr hs

theorem recovers (h : m.nextHandshakeCommand = .ok (.ok msg, m')) (hs : m'.readyCommandSent = true)
    (hready : peer.readyCommandReceived = false) (herror : peer.errorCommandReceived = false)
    (hc : Compatible m.base.options peer.base) :
    ∃ peer', peer.processHandshakeCommand msg = .ok (.ok, peer') ∧ Recovered m.base.options peer.base peer'.base := by
  obtain ⟨command, hcommand, rfl⟩ := next_ready h hs
  obtain ⟨hw, rfl, -⟩ := addSocketProperties_ok hcommand
  obtain ⟨base, hparse, hrec⟩ := parse_socketProperties hw hc
  have hname : (readyName ++ encodeAll (socketProperties m.base.options)).take 6 = readyName := take_left' rfl
  have hrest : (readyName ++ encodeAll (socketProperties m.base.options)).drop 6 = _ := drop_left' rfl
  unfold processHandshakeCommand processReadyCommand
  rw [hready, herror, Msg.ofData_data, hrest, hparse]
  exact ⟨_, rfl, hrec⟩

end NullMechanism

namespace PlainClient

variable {client client' : PlainClient} {server server' : PlainServer} {msg : Msg}

theorem initiate_recovers (hs : client.state = .sendingInitiate) (h : client.nextHandshakeCommand = .ok (.ok msg, client'))
    (hw : server.state = .waitingForInitiate) (hc : Compatible client.base.options server.base) :
    ∃ s, server.processHandshakeCommand msg = .ok (.ok, s) ∧ Recovered client.base.options server.base s.base := by
  unfold nextHandshakeCommand at h
  rw [hs] at h
  obtain ⟨msg1, h1, hret⟩ := bind_ok h
  obtain ⟨hmsg, -⟩ := ok_pair hret
  cases hmsg
  obtain ⟨command, hcommand, hret⟩ := bind_ok h1
  cases hret
  obtain ⟨hwritable, rfl, -⟩ := addSocketProperties_ok hcommand
  obtain ⟨base, hparse, hrec⟩ := parse_socketProperties hwritable hc
  have hname : (initiateName ++ encodeAll (socketProperties client.base.options)).take 9 = initiateName := take_left' rfl
  have hrest : (initiateName ++ encodeAll (socketProperties client.base.options)).drop 9 = _ := drop_left' rfl
  unfold PlainServer.processHandshakeCommand PlainServer.processInitiate
  rw [hw]
  rw [Msg.ofData_data, hrest, hparse]
  exact ⟨_, rfl, hrec⟩

theorem ready_recovers (hs : server.state = .sendingReady) (h : server.nextHandshakeCommand = .ok (.ok msg, server'))
    (hw : client.state = .waitingForReady) (hc : Compatible server.base.options client.base) :
    ∃ c, client.processHandshakeCommand msg = .ok (.ok, c) ∧ Recovered server.base.options client.base c.base := by
  unfold PlainServer.nextHandshakeCommand at h
  rw [hs] at h
  obtain ⟨msg1, h1, hret⟩ := bind_ok h
  obtain ⟨hmsg, -⟩ := ok_pair hret
  cases hmsg
  obtain ⟨command, hcommand, hret⟩ := bind_ok h1
  cases hret
  obtain ⟨hwritable, rfl, -⟩ := addSocketProperties_ok hcommand
  obtain ⟨base, hparse, hrec⟩ := parse_socketProperties hwritable hc
  have hname : (readyName ++ encodeAll (socketProperties server.base.options)).take 6 = readyName := take_left' rfl
  have hrest : (readyName ++ encodeAll (socketProperties server.base.options)).drop 6 = _ := drop_left' rfl
  unfold processHandshakeCommand processReady
  rw [Msg.ofData_data, if_neg (not_not.mpr hw), hrest, hparse]
  exact ⟨_, rfl, hrec⟩

end PlainClient

namespace CurveServer

open Curve

variable {crypto : Crypto} {server server' : CurveServer} {client client' : CurveClient} {msg : Msg} {random : ℕ → UInt8}
    {m1 : CurveServer} {rc : Ret}

/-- What a client and a server have agreed on when INITIATE is sent: each knows the keys of the other, and the client
has the cookie. -/
structure Agrees (crypto : Crypto) (server : CurveServer) (client : CurveClient) : Prop where
  cnClient : server.cnClient = client.cnPublic
  short : crypto.beforenm client.cnServer client.cnSecret = crypto.beforenm server.cnClient server.cnSecret
  long : crypto.beforenm client.cnServer client.secretKey = crypto.beforenm client.publicKey server.cnSecret
  cookie : ∃ nonce c, client.cnCookie = nonce ++ c ∧ nonce.length = 16 ∧
    crypto.secretbox (zeros zeroBytes ++ (server.cnClient ++ server.cnSecret)) (cookieTag ++ nonce) server.cookieKey =
      some (zeros boxZeroBytes ++ c)
  publicKey : client.publicKey.length = 32
  serverKey : client.serverKey.length = 32
  cnPublic : client.cnPublic.length = 32
  cnSecret : server.cnSecret.length = 32

/-- The handler has been asked about the client if there is one; the metadata come next. -/
def asked (m : CurveServer) (clientKey : List UInt8) : Except Crash (Ret × CurveServer) := do
  let (rc, session) ← m.session.zapConnect
  let m := { m with session := session }
  if rc = .ok then m.ask clientKey else pure (Ret.ok, { m with state := .sendReady })

/-- Everything that INITIATE changes before the handler is asked. -/
def opened (crypto : Crypto) (m : CurveServer) (nonce : UInt64) : CurveServer :=
  { m with cnPeerNonce := nonce, cnPrecom := crypto.beforenm m.cnClient m.cnSecret }

theorem initiatePlaintext_ok {vouchNonce vouchBox p : List UInt8} (h : client.initiatePlaintext vouchNonce vouchBox = .ok p) :
    (∀ q ∈ socketProperties client.base.options, Writable q) ∧
      p = zeros zeroBytes ++ (client.publicKey ++ vouchNonce ++ strip vouchBox ++ encodeAll (socketProperties client.base.options)) ∧
      p.length ≤ zeroBytes + 128 + 256 := by
  obtain ⟨p1, h1, h⟩ := bind_ok h
  obtain ⟨p2, h2, h⟩ := bind_ok h
  obtain ⟨p3, h3, h⟩ := bind_ok h
  obtain ⟨p4, h4, h⟩ := bind_ok h
  obtain ⟨-, rfl⟩ := append_eq h1
  obtain ⟨-, rfl⟩ := append_eq h2
  obtain ⟨-, rfl⟩ := append_eq h3
  obtain ⟨-, rfl⟩ := append_eq h4
  obtain ⟨hw, rfl, hlen⟩ := addSocketProperties_ok h
  exact ⟨hw, by simp, hlen⟩

theorem asked_base {key : List UInt8} (h : server.asked key = .ok (rc, m1)) :
    m1.base.options = server.base.options ∧ m1.base.zmtpProperties = server.base.zmtpProperties := by
  obtain ⟨⟨rc1, session⟩, -, h⟩ := bind_ok h
  dsimp only at h
  split_ifs at h
  · obtain ⟨m2, h2, h⟩ := bind_ok h
    obtain ⟨⟨rc3, m3⟩, h3, h⟩ := bind_ok h
    obtain ⟨z, hz, hret⟩ := bind_ok h2
    cases hret
    obtain ⟨⟨rc', z'⟩, hz', hret'⟩ := bind_ok h3
    obtain ⟨rfl, rfl⟩ := ok_pair hret'
    obtain ⟨-, -, hsame, -, -⟩ := ZapMechanism.receive_spec hz'
    have hbase : z.base = server.base := (ZapMechanism.sendZapRequest_spec hz).2.2.2.1
    rw [hbase] at hsame
    rcases rc' with _ | e
    · cases h
      exact hsame
    · cases e <;>
      · cases h
        exact hsame
  · cases h
    exact ⟨rfl, rfl⟩

theorem settle_asked {plaintext key : List UInt8} {base : MechanismBase}
    (hkey : read plaintext zeroBytes 32 = .ok key) (h : server.asked key = .ok (rc, m1))
    (hparse : parseMetadata property m1.base (plaintext.drop (zeroBytes + 128)) false = .ok (.ok, base)) :
    server.settle plaintext = .ok (rc, if rc = .ok then { m1 with base := base } else m1) := by
  unfold asked at h
  unfold settle
  rw [hkey, ok_bind]
  cases hconnect : server.session.zapConnect with
  | error e =>
    rw [hconnect] at h
    cases h
  | ok x =>
    rw [hconnect, ok_bind] at h
    rw [ok_bind]
    dsimp only at h ⊢
    by_cases hc : x.1 = .ok
    all_goals
      first | rw [if_pos hc] at h ⊢ | rw [if_neg hc] at h ⊢
      rw [h]
      cases rc with
      | error e => rfl
      | ok =>
        rw [ok_bind]
        rw [hparse]
        rfl

theorem nonce_length (tag : List UInt8) (n : UInt64) (h : tag.length = 16) : (tag ++ putUint64 n).length = 24 := by
  rw [length_append, h]
  rfl

theorem produceInitiate_ok (hl : crypto.Lawful) (hserver : client.serverKey.length = 32) (hcn : client.cnPublic.length = 32)
    (h : client.produceInitiate crypto random = .ok (.ok msg, client')) :
    ∃ nonce vouch box, nonce.length = 16 ∧ vouch.length = 80 ∧ let metadata := encodeAll (socketProperties client.base.options)
      (∀ q ∈ socketProperties client.base.options, Writable q) ∧ metadata.length ≤ 256 + 32 - client.publicKey.length ∧
      crypto.boxOpen (zeros boxZeroBytes ++ vouch) (vouchTag ++ nonce) client.cnServer client.secretKey =
        some (zeros zeroBytes ++ (client.cnPublic ++ client.serverKey)) ∧
      crypto.boxOpen (zeros boxZeroBytes ++ box) (initiateTag ++ putUint64 client.cnNonce) client.cnServer client.cnSecret =
        some (zeros zeroBytes ++ (client.publicKey ++ nonce ++ vouch ++ metadata)) ∧
      box.length = 16 + (client.publicKey ++ nonce ++ vouch ++ metadata).length ∧
      msg = .ofData (initiateName ++ client.cnCookie ++ putUint64 client.cnNonce ++ box) := by
  have hnonce : (draw random 0 16).length = 16 := by simp [draw]
  have hvn : (vouchTag ++ draw random 0 16).length = 24 := by
    rfl
  obtain ⟨v, hv, hvlen, hvopen⟩ := hl.afternm (client.cnPublic ++ client.serverKey) (vouchTag ++ draw random 0 16)
    (crypto.beforenm client.cnServer client.secretKey) hvn
  have hv80 : v.length = 80 := by rw [hvlen, length_append, hcn, hserver]
  unfold CurveClient.produceInitiate at h
  dsimp only at h
  rw [hl.box, append_assoc, hv] at h
  obtain ⟨vouchBox, hvb, h⟩ := bind_ok h
  obtain ⟨-, rfl⟩ := into_eq hvb
  obtain ⟨plaintext, hp, h⟩ := bind_ok h
  obtain ⟨hw, rfl, hroom⟩ := initiatePlaintext_ok hp
  rw [strip_zeros] at h hroom
  obtain ⟨c, hc, hclen, hcopen⟩ := hl.afternm
    (client.publicKey ++ draw random 0 16 ++ v ++ encodeAll (socketProperties client.base.options))
    (initiateTag ++ putUint64 client.cnNonce) (crypto.beforenm client.cnServer client.cnSecret) (nonce_length _ _ rfl)
  rw [hl.box, hc] at h
  obtain ⟨initiateBox, hib, hret⟩ := bind_ok h
  obtain ⟨-, rfl⟩ := into_eq hib
  obtain ⟨hmsg, -⟩ := ok_pair hret
  refine ⟨draw random 0 16, v, c, hnonce, hv80, hw, ?_, by rw [hl.boxOpen]; exact hvopen, by rw [hl.boxOpen]; exact hcopen,
    hclen, ?_⟩
  · simp only [length_append, zeros_length, hnonce, hv80] at hroom
    omega
  · rw [← Except.ok.inj hmsg, strip_zeros]

theorem into_zeros {x : List UInt8} {n : ℕ} (h : x.length = n) :
    into (zeroBytes + n) (zeros zeroBytes ++ x) = .ok (zeros zeroBytes ++ x) :=
  into_ok (Nat.le_of_eq (by rw [length_append, zeros_length, h]))

theorem read_keys {x y : List UInt8} (hx : x.length = 32) (hy : y.length = 32) :
    read (zeros zeroBytes ++ (x ++ y)) zeroBytes 32 = .ok x ∧ read (zeros zeroBytes ++ (x ++ y)) (zeroBytes + 32) 32 = .ok y := by
  constructor
  · rw [← append_assoc]
    exact read_append (zeros_length _) hx
  · rw [← append_assoc, ← append_nil (_ ++ y)]
    exact read_append (by rw [length_append, zeros_length, hx]) hy

theorem Agrees.checkCookie {rest : List UInt8} (ha : server.Agrees crypto client) (hl : crypto.Lawful) :
    server.checkCookie crypto (initiateName ++ client.cnCookie ++ rest) = .ok true := by
  obtain ⟨nonce, c, hcookie, hnonce, hbox⟩ := ha.cookie
  have hn : (cookieTag ++ nonce).length = 24 := by
    rw [length_append, hnonce]
    rfl
  obtain ⟨c', hc', hclen, hopen⟩ := hl.secretbox (server.cnClient ++ server.cnSecret) (cookieTag ++ nonce) server.cookieKey hn
  obtain rfl : c' = c := append_cancel_left (Option.some.inj (hc'.symm.trans hbox))
  have hcn : server.cnClient.length = 32 := by rw [ha.cnClient, ha.cnPublic]
  have hlen : c'.length = 80 := by rw [hclen, length_append, hcn, ha.cnSecret]
  have h25 : read (initiateName ++ client.cnCookie ++ rest) 25 80 = .ok c' := by
    rw [hcookie, ← append_assoc]
    exact read_append (by rw [length_append, hnonce]; rfl) hlen
  have h9 : read (initiateName ++ client.cnCookie ++ rest) 9 16 = .ok nonce := by
    rw [hcookie, ← append_assoc, append_assoc (initiateName ++ nonce)]
    exact read_append rfl hnonce
  unfold CurveServer.checkCookie
  rw [h25, ok_bind, received_ok (by omega), ok_bind, h9, ok_bind, hopen]
  dsimp only
  rw [into_zeros (by rw [length_append, hcn, ha.cnSecret]), ok_bind, (read_keys hcn ha.cnSecret).1, ok_bind,
    (read_keys hcn ha.cnSecret).2, ok_bind, beq_self_eq_true, beq_self_eq_true]
  rfl

theorem Agrees.cookie_length (ha : server.Agrees crypto client) (hl : crypto.Lawful) : client.cnCookie.length = 96 := by
  obtain ⟨nonce, c, hcookie, hnonce, hbox⟩ := ha.cookie
  have hn : (cookieTag ++ nonce).length = 24 := by
    rw [length_append, hnonce]
    rfl
  obtain ⟨c', hc', hclen, -⟩ := hl.secretbox (server.cnClient ++ server.cnSecret) (cookieTag ++ nonce) server.cookieKey hn
  obtain rfl : c' = c := append_cancel_left (Option.some.inj (hc'.symm.trans hbox))
  rw [hcookie, length_append, hnonce, hclen, length_append, ha.cnSecret, ha.cnClient, ha.cnPublic]

theorem Agrees.checkVouch {nonce vouch metadata : List UInt8} (ha : server.Agrees crypto client) (hl : crypto.Lawful)
    (hn : nonce.length = 16) (hv : vouch.length = 80)
    (ho : crypto.boxOpen (zeros boxZeroBytes ++ vouch) (vouchTag ++ nonce) client.cnServer client.secretKey =
      some (zeros zeroBytes ++ (client.cnPublic ++ client.serverKey))) {n : UInt64} :
    CurveServer.checkVouch crypto { server with cnPeerNonce := n }
      (zeros zeroBytes ++ (client.publicKey ++ nonce ++ vouch ++ metadata)) = .ok true := by
  have hkey : read (zeros zeroBytes ++ (client.publicKey ++ nonce ++ vouch ++ metadata)) zeroBytes 32 = .ok client.publicKey := by
    rw [append_assoc client.publicKey, append_assoc client.publicKey, ← append_assoc]
    exact read_append (zeros_length _) ha.publicKey
  have hvouch : read (zeros zeroBytes ++ (client.publicKey ++ nonce ++ vouch ++ metadata)) (zeroBytes + 48) 80 = .ok vouch := by
    rw [← append_assoc, ← append_assoc]
    exact read_append (by simp only [length_append, zeros_length, ha.publicKey, hn]) hv
  have hnonce : read (zeros zeroBytes ++ (client.publicKey ++ nonce ++ vouch ++ metadata)) (zeroBytes + 32) 16 = .ok nonce := by
    rw [show zeros zeroBytes ++ (client.publicKey ++ nonce ++ vouch ++ metadata) =
      zeros zeroBytes ++ client.publicKey ++ nonce ++ (vouch ++ metadata) by simp only [append_assoc]]
    exact read_append (by simp only [length_append, zeros_length, ha.publicKey]) hn
  rw [hl.boxOpen, ha.long, ← hl.boxOpen] at ho
  unfold CurveServer.checkVouch
  rw [hkey, ok_bind, hvouch, ok_bind, received_ok (by omega), ok_bind, hnonce, ok_bind]
  dsimp only
  rw [ho]
  dsimp only
  rw [into_zeros (by rw [length_append, ha.cnPublic, ha.serverKey]), ok_bind,
    (read_keys ha.cnPublic ha.serverKey).1, ok_bind, ha.cnClient, beq_self_eq_true]
  rfl

theorem initiate_recovers (hl : crypto.Lawful) (ha : server.Agrees crypto client)
    (hs : server.state = .expectInitiate) (hc : client.state = .sendInitiate)
    (h : client.nextHandshakeCommand crypto random = .ok (.ok msg, client')) (hcomp : Compatible client.base.options server.base)
    (hask : (server.opened crypto client.cnNonce).asked client.publicKey = .ok (rc, m1)) :
    ∃ s, server.processHandshakeCommand crypto msg = .ok (rc, s) ∧
      (rc = .ok → Recovered client.base.options server.base s.base) := by
  unfold CurveClient.nextHandshakeCommand at h
  rw [hc] at h
  obtain ⟨⟨rc1, c1⟩, h1, hret⟩ := bind_ok h
  cases hret
  obtain ⟨nonce, vouch, box, hn, hv, hw, hroom, hvouch, hbox, hlen, rfl⟩ :=
    produceInitiate_ok hl ha.serverKey ha.cnPublic h1
  have hoptions := asked_base hask
  obtain ⟨base, hparse, hrec⟩ := parse_socketProperties (m := m1.base) hw
    (show Compatible client.base.options m1.base by unfold Compatible; rw [hoptions.1]; exact hcomp)
  have hcookie : client.cnCookie.length = 96 := ha.cookie_length hl
  simp only [length_append, ha.publicKey, hn, hv] at hlen hroom
  have hname : (initiateName ++ client.cnCookie ++ putUint64 client.cnNonce ++ box).take 9 = initiateName := by
    rw [append_assoc, append_assoc]
    exact take_left' rfl
  have hsize : (initiateName ++ client.cnCookie ++ putUint64 client.cnNonce ++ box).length = 113 + box.length := by
    rw [length_append, length_append, length_append, hcookie]
    rfl
  have hdrop : (initiateName ++ client.cnCookie ++ putUint64 client.cnNonce ++ box).drop 113 = box :=
    drop_left' (by rw [length_append, length_append, hcookie]; rfl)
  have hcounter : read (initiateName ++ client.cnCookie ++ putUint64 client.cnNonce ++ box) 105 8 =
      .ok (putUint64 client.cnNonce) :=
    read_append (by rw [length_append, hcookie]; rfl) rfl
  have hnonce : getUint64 ((initiateName ++ client.cnCookie ++ putUint64 client.cnNonce ++ box).drop 105) = client.cnNonce := by
    rw [append_assoc, drop_left' (by rw [length_append, hcookie]; rfl)]
    exact get_put_uint64 client.cnNonce
  have hkey : read (zeros zeroBytes ++ (client.publicKey ++ nonce ++ vouch ++ encodeAll (socketProperties client.base.options)))
      zeroBytes 32 = .ok client.publicKey := by
    rw [append_assoc client.publicKey, append_assoc client.publicKey, ← append_assoc]
    exact read_append (zeros_length _) ha.publicKey
  have hmeta : (zeros zeroBytes ++ (client.publicKey ++ nonce ++ vouch ++ encodeAll (socketProperties client.base.options))).drop
      (zeroBytes + 128) = encodeAll (socketProperties client.base.options) := by
    rw [← append_assoc]
    exact drop_left' (by simp only [length_append, zeros_length, ha.publicKey, hn, hv])
  have hsettle := settle_asked hkey hask (hmeta.symm ▸ hparse)
  rw [hl.boxOpen, ha.short, ← hl.boxOpen] at hbox
  have hcheck : server.checkCookie crypto (initiateName ++ client.cnCookie ++ putUint64 client.cnNonce ++ box) = .ok true := by
    rw [append_assoc]
    exact ha.checkCookie hl
  have hroom' : (zeros zeroBytes ++ (client.publicKey ++ nonce ++ vouch ++
      encodeAll (socketProperties client.base.options))).length ≤ zeroBytes + 128 + 256 := by
    simp only [length_append, zeros_length, ha.publicKey, hn, hv]
    omega
  have hprocess (msg : Msg) : server.processHandshakeCommand crypto msg = server.processInitiate crypto msg.data := by
    unfold processHandshakeCommand
    rw [hs]
  refine ⟨if rc = .ok then { m1 with base := base } else m1, ?_, fun hrc => ?_⟩
  · rw [hprocess, Msg.ofData_data]
    unfold processInitiate
    rw [ if_neg (by omega), hcheck, ok_bind, hdrop,
      received_ok (by omega), ok_bind, hcounter, ok_bind]
    dsimp only
    rw [hnonce, hbox]
    dsimp only
    rw [into_ok hroom', ok_bind, ha.checkVouch hl hn hv hvouch, ok_bind]
    exact hsettle
  · rw [if_pos hrc]
    exact hrec.of_same hoptions.1 hoptions.2

theorem ready_recovers (hl : crypto.Lawful) (hk : client.cnPrecom = server.cnPrecom) (hs : server.state = .sendReady)
    (h : server.nextHandshakeCommand crypto random = .ok (.ok msg, server'))
    (hcomp : Compatible server.base.options client.base) :
    ∃ c, client.processHandshakeCommand crypto msg = .ok (.ok, c) ∧ Recovered server.base.options client.base c.base := by
  unfold nextHandshakeCommand at h
  rw [hs] at h
  obtain ⟨⟨msg1, s1⟩, h1, hret⟩ := bind_ok h
  obtain ⟨hmsg, -⟩ := ok_pair hret
  cases hmsg
  obtain ⟨p, hp, h1⟩ := bind_ok h1
  obtain ⟨plaintext, hplain, h1⟩ := bind_ok h1
  obtain ⟨-, rfl⟩ := append_eq hp
  obtain ⟨hw, rfl, hroom⟩ := addSocketProperties_ok hplain
  rw [nil_append] at h1 hroom
  obtain ⟨c, hc, hlen, hopen⟩ := hl.afternm (encodeAll (socketProperties server.base.options))
    (readyTag ++ putUint64 server.cnNonce) server.cnPrecom (nonce_length _ _ rfl)
  rw [hc] at h1
  obtain ⟨readyBox, hbox, hret1⟩ := bind_ok h1
  obtain ⟨-, rfl⟩ := into_eq hbox
  obtain ⟨rfl, -⟩ := ok_pair hret1
  rw [strip_zeros]
  obtain ⟨base, hparse, hrec⟩ := parse_socketProperties hw hcomp
  have hname : (readyName ++ putUint64 server.cnNonce ++ c).take 6 = readyName := by
    rw [append_assoc]
    exact take_left' rfl
  have hdrop : (readyName ++ putUint64 server.cnNonce ++ c).drop 14 = c := drop_left' rfl
  have hcounter : ((readyName ++ putUint64 server.cnNonce ++ c).drop 6).take 8 = putUint64 server.cnNonce :=
    slice_append rfl rfl
  have hmeta : (zeros zeroBytes ++ encodeAll (socketProperties server.base.options)).drop zeroBytes = _ :=
    drop_left' (zeros_length _)
  have hsize : (readyName ++ putUint64 server.cnNonce ++ c).length = 14 + c.length := by
    rw [length_append]
    rfl
  simp only [length_append, zeros_length] at hroom
  unfold CurveClient.processHandshakeCommand CurveClient.processReady
  rw [Msg.ofData_data, if_neg (CurveClient.ready_not_welcome hname), if_pos hname, if_neg (by omega), hdrop,
    received_ok (by omega), ok_bind, hcounter]
  dsimp only
  rw [hk, hopen]
  dsimp only
  rw [into_ok (by simp only [length_append, zeros_length]; omega), ok_bind, hmeta, hparse]
  exact ⟨_, rfl, hrec⟩

end CurveServer

namespace Metadata

def produced {μ : Type} : Except Crash (Except MechErrno Msg × μ) → Bool
  | .ok (.ok _, _) => true
  | _ => false

theorem exists_produced {μ : Type} {x : Except Crash (Except MechErrno Msg × μ)} (h : produced x = true) :
    ∃ msg m, x = .ok (.ok msg, m) := by
  match x, h with
  | .ok (.ok msg, m), _ => exact ⟨msg, m, rfl⟩

/-- Properties that have been written one after the other are reported one after the other, to the end of what has been
written, if the types of sockets among them are types that the socket may be connected to. NULL, PLAIN and CURVE write
the type and the identity of their socket, and the peer finds them, unless its handler refuses a client of CURVE. -/
theorem properties_recovered {crypto : Crypto} (hl : crypto.Lawful) (m : MechanismBase) (zapFlag : Bool) (size : ℕ)
    (b : List UInt8) (ps : List Property) (hps : ∀ p ∈ ps, Writable p) (hsize : b.length + (encodeAll ps).length ≤ size)
    (htype : ∀ p ∈ ps, p.1 = socketTypeName → checkSocketType m.options p.2 = true) :
    (∃ written, addProperties size b ps = .ok (b ++ written) ∧ cut written = (ps, []) ∧
      parseMetadata property m written zapFlag = .ok (.ok, ps.foldl (keep zapFlag) m)) ∧
    (∀ (m m' peer : NullMechanism) (msg : Msg), m.nextHandshakeCommand = .ok (.ok msg, m') → m'.readyCommandSent = true →
      peer.readyCommandReceived = false → peer.errorCommandReceived = false → Compatible m.base.options peer.base →
      ∃ peer', peer.processHandshakeCommand msg = .ok (.ok, peer') ∧ Recovered m.base.options peer.base peer'.base) ∧
    (∀ (client client' : PlainClient) (server : PlainServer) (msg : Msg), client.state = .sendingInitiate →
      client.nextHandshakeCommand = .ok (.ok msg, client') → server.state = .waitingForInitiate →
      Compatible client.base.options server.base →
      ∃ s, server.processHandshakeCommand msg = .ok (.ok, s) ∧ Recovered client.base.options server.base s.base) ∧
    (∀ (server server' : PlainServer) (client : PlainClient) (msg : Msg), server.state = .sendingReady →
      server.nextHandshakeCommand = .ok (.ok msg, server') → client.state = .waitingForReady →
      Compatible server.base.options client.base →
      ∃ c, client.processHandshakeCommand msg = .ok (.ok, c) ∧ Recovered server.base.options client.base c.base) ∧
    (∀ (client client' : CurveClient) (server m1 : CurveServer) (msg : Msg) (random : ℕ → UInt8) (rc : Ret),
      server.Agrees crypto client → server.state = .expectInitiate → client.state = .sendInitiate →
      client.nextHandshakeCommand crypto random = .ok (.ok msg, client') → Compatible client.base.options server.base →
      (server.opened crypto client.cnNonce).asked client.publicKey = .ok (rc, m1) →
      ∃ s, server.processHandshakeCommand crypto msg = .ok (rc, s) ∧
        (rc = .ok → Recovered client.base.options server.base s.base)) ∧
    (∀ (server server' : CurveServer) (client : CurveClient) (msg : Msg) (random : ℕ → UInt8),
      client.cnPrecom = server.cnPrecom → server.state = .sendReady →
      server.nextHandshakeCommand crypto random = .ok (.ok msg, server') → Compatible server.base.options client.base →
      ∃ c, client.processHandshakeCommand crypto msg = .ok (.ok, c) ∧ Recovered server.base.options client.base c.base) :=
  ⟨⟨_, addProperties_eq hps hsize, cut_encodeAll hps, parse_encodeAll hps htype⟩,
    fun _ _ _ _ h hs hr he hc => NullMechanism.recovers h hs hr he hc,
    fun _ _ _ _ hs h hw hc => PlainClient.initiate_recovers hs h hw hc,
    fun _ _ _ _ hs h hw hc => PlainClient.ready_recovers hs h hw hc,
    fun _ _ _ _ _ _ _ ha hs hc h hcomp hask => CurveServer.initiate_recovers hl ha hs hc h hcomp hask,
    fun _ _ _ _ _ hk hs h hc => CurveServer.ready_recovers hl hk hs h hc⟩

/-- A socket type that is none of a peer is refused. -/
theorem unknown_type_refused : ∃ written, addProperties 64 [] [(socketTypeName, [88])] = .ok written ∧
    parseMetadata property (.new (.new 5)) written false = .ok (.error .einval, .new (.new 5)) :=
  ⟨_, rfl, rfl⟩

theorem properties_recovered_dealers :
    let o : MechanismOptions := { MechanismOptions.new 5 with recvIdentity := true }
    let ps : List Property := [(socketTypeName, ascii ['D', 'E', 'A', 'L', 'E', 'R']), (identityName, [1, 2])]
    let client : CurveClient := { CurveClient.new o (Curve.zeros 32) (Curve.zeros 32) (Curve.zeros 32) (Curve.zeros 32)
      (Curve.zeros 32) with state := .sendInitiate, cnServer := Curve.zeros 32, cnCookie := Curve.zeros 96 }
    let server : CurveServer := { CurveServer.new o (.new false) [] (Curve.zeros 32) (Curve.zeros 32) (Curve.zeros 32) with
      state := .expectInitiate, cnClient := Curve.zeros 32 }
    (∃ written, addProperties 64 [] ps = .ok written ∧ cut written = (ps, []) ∧
      parseMetadata property (.new o) written false = .ok (.ok, ps.foldl (keep false) (.new o))) ∧
    (∃ msg n n', (NullMechanism.create o (.new false) []) = .ok n ∧ n.nextHandshakeCommand = .ok (.ok msg, n') ∧
      ∃ peer', n.processHandshakeCommand msg = .ok (.ok, peer') ∧ Recovered n.base.options n.base peer'.base) ∧
    (∃ msg c s, PlainClient.nextHandshakeCommand ⟨.new o, .sendingInitiate⟩ = .ok (.ok msg, c) ∧
      PlainServer.processHandshakeCommand ⟨.new o (.new false) [], .waitingForInitiate⟩ msg = .ok (.ok, s) ∧
      Recovered o (.new o) s.base) ∧
    (∃ msg s c, PlainServer.nextHandshakeCommand ⟨.new o (.new false) [], .sendingReady⟩ = .ok (.ok msg, s) ∧
      PlainClient.processHandshakeCommand ⟨.new o, .waitingForReady⟩ msg = .ok (.ok, c) ∧
      Recovered o (.new o) c.base) ∧
    (∃ msg c s, client.nextHandshakeCommand .clear (fun _ => 0) = .ok (.ok msg, c) ∧
      server.processHandshakeCommand .clear msg = .ok (.ok, s) ∧ Recovered o (.new o) s.base) ∧
    (∃ msg s c, CurveServer.nextHandshakeCommand .clear { server with state := .sendReady, cnPrecom := Curve.zeros 32 }
        (fun _ => 0) = .ok (.ok msg, s) ∧
      CurveClient.processHandshakeCommand .clear { client with state := .expectReady, cnPrecom := Curve.zeros 32 } msg =
        .ok (.ok, c) ∧ Recovered o (.new o) c.base) := by
  intro o ps client server
  obtain ⟨⟨written, h1, h1'⟩, h2, h3, h4, h5, h6⟩ := properties_recovered Crypto.clear_lawful (.new o) false 64 [] ps
    (forall_mem_cons.mpr ⟨⟨by decide, by decide⟩, forall_mem_singleton.mpr ⟨by decide, by decide⟩⟩) (by decide)
    (by decide)
  refine ⟨⟨written, h1, h1'⟩, ⟨_, _, _, rfl, rfl, h2 _ _ _ _ rfl rfl rfl rfl rfl⟩, ?_, ?_, ?_, ?_⟩
  · obtain ⟨s, hs⟩ := h3 ⟨.new o, .sendingInitiate⟩ _ ⟨.new o (.new false) [], .waitingForInitiate⟩ _ rfl rfl rfl rfl
    exact ⟨_, _, s, rfl, hs⟩
  · obtain ⟨c, hc⟩ := h4 ⟨.new o (.new false) [], .sendingReady⟩ _ ⟨.new o, .waitingForReady⟩ _ rfl rfl rfl rfl
    exact ⟨_, _, c, rfl, hc⟩
  · have hagrees : server.Agrees .clear client :=
      ⟨rfl, rfl, rfl, ⟨Curve.zeros 16, Curve.zeros 80, rfl, rfl, rfl⟩, rfl, rfl, rfl, rfl⟩
    obtain ⟨msg, c, hmsg⟩ := exists_produced (x := client.nextHandshakeCommand .clear fun _ => 0) (by decide +kernel)
    obtain ⟨s, hs, hrec⟩ := h5 client c server _ msg (fun _ => 0) .ok hagrees rfl rfl hmsg rfl rfl
    exact ⟨msg, c, s, hmsg, hs, hrec rfl⟩
  · obtain ⟨msg, s, hmsg⟩ := exists_produced (x := CurveServer.nextHandshakeCommand .clear
      { server with state := .sendReady, cnPrecom := Curve.zeros 32 } fun _ => 0) (by decide +kernel)
    obtain ⟨c, hc⟩ := h6 _ s { client with state := .expectReady, cnPrecom := Curve.zeros 32 } msg (fun _ => 0) rfl rfl hmsg rfl
    exact ⟨msg, s, c, hmsg, hc⟩

end Metadata
end Zmq
