import LibZmq.Zmtp.CurveTraffic

/-! Runs of a client and a server of CURVE, and what holds of the traffic between them. -/

namespace Zmq

open List
namespace Curve

variable {crypto : Crypto} {tag precom precom' : List UInt8} {p p' : Prop} {sent : List Msg} {w : Msg} {n : UInt64}

def Boxed (crypto : Crypto) (tag : List UInt8) (connected : Prop) (precom : List UInt8) (sent : List Msg) : Prop :=
  ∀ w ∈ sent, w.data.take 8 = messageName → connected ∧ ∃ n m, encodeMessage crypto tag n precom m = .ok w

theorem Boxed.idle (h : Boxed crypto tag p precom sent) (hp : ¬ p) : Boxed crypto tag p' precom' sent :=
  fun w hw hm => absurd (h w hw hm).1 hp

theorem Boxed.other (h : Boxed crypto tag p precom sent) (hw : w.data.take 8 ≠ messageName) :
    Boxed crypto tag p precom (sent ++ [w]) := fun v hv hm =>
  (mem_append.mp hv).elim (fun hv => h v hv hm) fun hv => absurd hm (mem_singleton.mp hv ▸ hw)

theorem Boxed.snoc (h : Boxed crypto tag p precom sent) (hp : p) {m : Msg}
    (hw : encodeMessage crypto tag n precom m = .ok w) : Boxed crypto tag p precom (sent ++ [w]) := fun v hv hm =>
  (mem_append.mp hv).elim (fun hv => h v hv hm) fun hv => ⟨hp, n, m, mem_singleton.mp hv ▸ hw⟩

theorem nonceOf_encoded {m : Msg} (h : encodeMessage crypto tag n precom m = .ok w) : nonceOf w = some n := by
  unfold encodeMessage at h
  split at h
  · cases h
  · obtain rfl := Except.ok.inj h
    exact nonceOf_message n _

theorem filterMap_snoc_ne_nil (h : nonceOf w = some n) : (sent ++ [w]).filterMap nonceOf ≠ [] := by
  rw [filterMap_append, filterMap_cons_some h]
  exact append_ne_nil_of_right_ne_nil _ (cons_ne_nil _ _)

theorem client_handshaking {m : CurveClient} (h : m.status = .handshaking) : m.state ≠ .connected := by
  intro hc
  rw [CurveClient.status, hc] at h
  cases h

theorem server_handshaking {m : CurveServer} (h : m.status = .handshaking) : m.state ≠ .connected := by
  intro hc
  rw [CurveServer.status, hc] at h
  cases h

namespace Session

structure Sound (crypto : Crypto) (s : Session) : Prop where
  toServer : Lane s.sentByClient s.toServer s.deliveredToServer s.acceptedByServer s.client.cnNonce s.server.cnPeerNonce
  toClient : Lane s.sentByServer s.toClient s.deliveredToClient s.acceptedByClient s.server.cnNonce s.client.cnPeerNonce
  cnPublic : s.client.cnPublic.length = 32
  cookie : s.client.state = .sendInitiate → s.client.cnCookie.length = 96
  early : s.sentByClient.filterMap nonceOf = [] →
    s.server.state = .expectHello ∧ s.toClient = [] ∧ s.toServer = [] ∧ s.client.state ≠ .connected
  served : s.server.state = .connected → s.sentByServer.filterMap nonceOf ≠ []
  clientIdle : s.client.state ≠ .connected → s.acceptedByClient = []
  serverIdle : s.server.state ≠ .connected → s.acceptedByServer = []
  clientBoxed : Boxed crypto clientTag (s.client.state = .connected) s.client.cnPrecom s.sentByClient
  serverBoxed : Boxed crypto serverTag (s.server.state = .connected) s.server.cnPrecom s.sentByServer

namespace Sound

variable {s s' : Session} {m : Msg} {random : ℕ → UInt8} {client : CurveClient} {server : CurveServer}

theorem start (hc : client.Fresh) (hs : server.Fresh)
    (hp : client.cnPublic.length = 32) : (Session.start client server).Sound crypto where
  toServer := by
    unfold Session.start
    rw [hc.cnNonce, hs.cnPeerNonce]
    exact .nil
  toClient := by
    unfold Session.start
    rw [hs.cnNonce, hc.cnPeerNonce]
    exact .nil
  cnPublic := hp
  cookie h := by cases hc.state.symm.trans h
  early _ := ⟨hs.state, rfl, rfl, fun h => by cases hc.state.symm.trans h⟩
  served h := by cases hs.state.symm.trans h
  clientIdle _ := rfl
  serverIdle _ := rfl
  clientBoxed _ h := (not_mem_nil h).elim
  serverBoxed _ h := (not_mem_nil h).elim

theorem clientNext (h : s.Sound crypto) (hr : s.Ready (.clientNext random)) (hx : s.run crypto (.clientNext random) = .ok s') :
    s'.Sound crypto := by
  obtain ⟨⟨x, client⟩, hc, hret⟩ := bind_ok hx
  cases hret
  have hidle := client_handshaking hr
  rcases client_next h.cnPublic h.cookie hc with ⟨rfl, e, rfl⟩ | ⟨msg, rfl, hn, hm, hnonce, hpeer, hpub, hstate⟩
  · unfold produced
    simp only [append_nil]
    exact h
  · have hne : client.state ≠ .connected ∧ client.state ≠ .sendInitiate := by
      rcases hstate with hs | hs <;> rw [hs] <;> exact ⟨by decide, by decide⟩
    refine ⟨?_, hpeer.symm ▸ h.toClient, hpub.symm ▸ h.cnPublic, fun hs => absurd hs hne.2,
      fun hc => absurd hc (filterMap_snoc_ne_nil hn), h.served, fun _ => h.clientIdle hidle, h.serverIdle,
      (h.clientBoxed.idle hidle).other hm, h.serverBoxed⟩
    exact ((h.toServer.send (hnonce.symm ▸ h.toServer.counted.snoc hn)).fly)

theorem serverNext (h : s.Sound crypto) (hr : s.Ready (.serverNext random)) (hx : s.run crypto (.serverNext random) = .ok s') :
    s'.Sound crypto := by
  obtain ⟨⟨x, server⟩, hc, hret⟩ := bind_ok hx
  cases hret
  have hidle := server_handshaking hr
  obtain ⟨hprod, hpeer, hconn, hhello⟩ := server_next hidle hc
  have hboxed : ∀ p k, Boxed crypto serverTag p k s.sentByServer := fun _ _ => h.serverBoxed.idle hidle
  have hlane := h.toServer
  rw [← hpeer] at hlane
  rcases hprod with ⟨e, rfl, hnonce⟩ | ⟨msg, rfl, hm, hn⟩
  · unfold produced
    simp only [append_nil]
    refine ⟨hlane, hnonce.symm ▸ h.toClient, h.cnPublic, h.cookie, fun hc => ?_, fun hs => ?_, h.clientIdle,
      fun _ => h.serverIdle hidle, h.clientBoxed, hboxed _ _⟩
    · obtain ⟨hstate, hrest⟩ := h.early hc
      exact ⟨(congrArg CurveServer.state (hhello hstate).1).trans hstate, hrest⟩
    · obtain ⟨msg, hmsg, -⟩ := hconn hs
      cases hmsg
  · have hcounted : Counted (s.sentByServer ++ [msg]) server.cnNonce := by
      rcases hn with ⟨hn, hnonce⟩ | ⟨hn, hnonce⟩
      · rw [hnonce]
        exact h.toClient.counted.snoc hn
      · rw [hnonce]
        exact h.toClient.counted.other hn
    refine ⟨hlane, (h.toClient.send hcounted).fly, h.cnPublic, h.cookie, fun hc => ?_, fun hs => ?_, h.clientIdle,
      fun _ => h.serverIdle hidle, h.clientBoxed, (hboxed _ _).other hm⟩
    · obtain ⟨e, he⟩ := (hhello (h.early hc).1).2
      cases he
    · obtain ⟨msg1, hmsg, hn1⟩ := hconn hs
      cases hmsg
      exact filterMap_snoc_ne_nil hn1

theorem clientHears (h : s.Sound crypto) (hr : s.Ready .clientHears) (hx : s.run crypto .clientHears = .ok s') :
    s'.Sound crypto := by
  obtain ⟨⟨rc, client⟩, hc, hret⟩ := bind_ok hx
  cases hret
  have hidle := client_handshaking hr.1
  obtain ⟨hnonce, hpub, hpeer, hcookie⟩ := client_heard hc
  have hlane := h.toServer
  rw [← hnonce] at hlane
  have haccepted := h.clientIdle hidle
  have hback := h.toClient
  rw [haccepted] at hback
  refine ⟨hlane, ?_, hpub.symm ▸ h.cnPublic, fun hs => ?_, fun hc => absurd (h.early hc).2.1 hr.2, h.served,
    fun _ => haccepted, h.serverIdle, h.clientBoxed.idle hidle, h.serverBoxed⟩
  · rw [haccepted]
    exact hback.hear hr.2 hpeer
  · rcases hcookie hs with hlen | ⟨hs0, hsame⟩
    · exact hlen
    · rw [hsame]
      exact h.cookie hs0

theorem serverHears (h : s.Sound crypto) (hr : s.Ready .serverHears) (hx : s.run crypto .serverHears = .ok s') :
    s'.Sound crypto := by
  obtain ⟨⟨rc, server⟩, hc, hret⟩ := bind_ok hx
  cases hret
  have hidle := server_handshaking hr.1
  have hheard := server_heard hidle hc
  have hback := h.toClient
  rw [← hheard.nonce] at hback
  have haccepted := h.serverIdle hidle
  have hlane := h.toServer
  rw [haccepted] at hlane
  refine ⟨?_, hback, h.cnPublic, h.cookie, fun hc => absurd (h.early hc).2.2.1 hr.2, fun hs => absurd hs hheard.state,
    h.clientIdle, fun _ => haccepted, h.clientBoxed, h.serverBoxed.idle hidle⟩
  rw [haccepted]
  exact hlane.hear hr.2 hheard.peerNonce

theorem zapMsgAvailable (h : s.Sound crypto) (hx : s.run crypto .zapMsgAvailable = .ok s') : s'.Sound crypto := by
  obtain ⟨⟨rc, server⟩, hc, hret⟩ := bind_ok hx
  cases hret
  obtain ⟨hcalm, hwait⟩ := zapMsgAvailable_calm hc
  rcases hwait with rfl | hwait
  · exact h
  have hidle : s.server.state ≠ .connected := hwait ▸ by decide
  have hlane := h.toServer
  rw [← hcalm.peerNonce] at hlane
  have hback := h.toClient
  rw [← hcalm.nonce] at hback
  refine ⟨hlane, hback, h.cnPublic, h.cookie, fun hc => ?_, fun hs => absurd (hcalm.state hs) hidle, h.clientIdle,
    fun _ => h.serverIdle hidle, h.clientBoxed, h.serverBoxed.idle hidle⟩
  cases hwait.symm.trans (h.early hc).1

theorem clientEncodes (h : s.Sound crypto) (hx : s.run crypto (.clientEncodes m) = .ok s') : s'.Sound crypto := by
  obtain ⟨⟨w, client⟩, hc, hret⟩ := bind_ok hx
  cases hret
  obtain ⟨⟨⟩, hs, hc⟩ := bind_ok hc
  have hs := Block.assert_eq hs
  obtain ⟨w1, hw, hret⟩ := bind_ok hc
  cases hret
  have hn := nonceOf_encoded hw
  exact ⟨h.toServer.send (h.toServer.counted.snoc hn), h.toClient, h.cnPublic, h.cookie,
    fun hc => absurd hc (filterMap_snoc_ne_nil hn), h.served, h.clientIdle, h.serverIdle, h.clientBoxed.snoc hs hw, h.serverBoxed⟩

theorem serverEncodes (h : s.Sound crypto) (hx : s.run crypto (.serverEncodes m) = .ok s') : s'.Sound crypto := by
  obtain ⟨⟨w, server⟩, hc, hret⟩ := bind_ok hx
  cases hret
  obtain ⟨⟨⟩, hs, hc⟩ := bind_ok hc
  have hs := Block.assert_eq hs
  obtain ⟨w1, hw, hret⟩ := bind_ok hc
  cases hret
  have hn := nonceOf_encoded hw
  exact ⟨h.toServer, h.toClient.send (h.toClient.counted.snoc hn), h.cnPublic, h.cookie, h.early,
    fun _ => filterMap_snoc_ne_nil hn, h.clientIdle, h.serverIdle, h.clientBoxed, h.serverBoxed.snoc hs hw⟩

theorem serverDecodes (h : s.Sound crypto) (hx : s.run crypto (.serverDecodes w) = .ok s') : s'.Sound crypto := by
  obtain ⟨⟨x, server⟩, hc, hret⟩ := bind_ok hx
  cases hret
  obtain ⟨⟨⟩, hs, hc⟩ := bind_ok hc
  have hs := Block.assert_eq hs
  cases hc
  exact ⟨h.toServer.deliver (decodeMessage_nonce rfl) fun m hm => (decodeMessage_ok (Prod.ext hm rfl)).2.2.1, h.toClient,
    h.cnPublic, h.cookie, h.early, h.served, h.clientIdle, fun hc => absurd hs hc, h.clientBoxed, h.serverBoxed⟩

theorem clientDecodes (h : s.Sound crypto) (hx : s.run crypto (.clientDecodes w) = .ok s') : s'.Sound crypto := by
  obtain ⟨⟨x, client⟩, hc, hret⟩ := bind_ok hx
  cases hret
  obtain ⟨⟨⟩, hs, hc⟩ := bind_ok hc
  have hs := Block.assert_eq hs
  cases hc
  exact ⟨h.toServer, h.toClient.deliver (decodeMessage_nonce rfl) fun m hm => (decodeMessage_ok (Prod.ext hm rfl)).2.2.1,
    h.cnPublic, h.cookie, h.early, h.served, fun hc => absurd hs hc, h.serverIdle, h.clientBoxed, h.serverBoxed⟩

theorem run {op : SessionOp} (h : s.Sound crypto) (hr : s.Ready op) (hx : s.run crypto op = .ok s') : s'.Sound crypto := by
  cases op with
  | clientNext random => exact h.clientNext hr hx
  | serverNext random => exact h.serverNext hr hx
  | clientHears => exact h.clientHears hr hx
  | serverHears => exact h.serverHears hr hx
  | handlerReplies frames =>
    cases hx
    exact ⟨h.toServer, h.toClient, h.cnPublic, h.cookie, h.early, h.served, h.clientIdle, h.serverIdle, h.clientBoxed,
      h.serverBoxed⟩
  | zapMsgAvailable => exact h.zapMsgAvailable hx
  | clientEncodes m => exact h.clientEncodes hx
  | serverEncodes m => exact h.serverEncodes hx
  | clientDecodes w => exact h.clientDecodes hx
  | serverDecodes w => exact h.serverDecodes hx

theorem of_run {ops : List SessionOp} (hc : client.Fresh) (hs : server.Fresh) (hp : client.cnPublic.length = 32)
    (h : Run (fun s => s = .start client server) (Does Ready (Session.run crypto)) ops s) : s.Sound crypto :=
  h.invariant _ (fun _ h0 => h0 ▸ .start hc hs hp) fun _ _ _ hi hd => hi.run hd.1 hd.2

theorem server_accepts (h : s.Sound crypto) (hl : crypto.Lawful) (ha : Authentic crypto)
    (hd : s.server.decode crypto w = .ok (.ok m, server)) : 33 ≤ w.data.length ∧ w ∉ s.acceptedByServer ∧ w ∉ s.sentByServer ∧
      (used s.sentByClient < 2 ^ 64 → ∀ v ∈ s.acceptedByServer, ¬ List.Sublist [w, v] s.sentByClient) := by
  obtain ⟨⟨⟩, hs, hd⟩ := bind_ok hd
  obtain ⟨hx, rfl⟩ := ok_pair hd
  have hdec : decodeMessage crypto clientTag s.server.cnPeerNonce s.server.cnPrecom w = (.ok m, _) := Prod.ext hx rfl
  obtain ⟨hlen, hname, hn, hlt, -⟩ := decodeMessage_ok hdec
  obtain ⟨hnew, horder⟩ := h.toServer.fresh hn hlt
  refine ⟨hlen, hnew, fun hsent => ?_, horder⟩
  obtain ⟨-, n, m, he⟩ := h.serverBoxed w hsent hname
  exact decode_reflected hl ha (mem_pair.mpr (Or.inr rfl)) (mem_pair.mpr (Or.inl rfl)) (by decide) he hdec

theorem client_accepts (h : s.Sound crypto) (hl : crypto.Lawful) (ha : Authentic crypto)
    (hd : s.client.decode crypto w = .ok (.ok m, client)) : 33 ≤ w.data.length ∧ w ∉ s.acceptedByClient ∧ w ∉ s.sentByClient ∧
      (used s.sentByServer < 2 ^ 64 → ∀ v ∈ s.acceptedByClient, ¬ List.Sublist [w, v] s.sentByServer) := by
  obtain ⟨⟨⟩, hs, hd⟩ := bind_ok hd
  obtain ⟨hx, rfl⟩ := ok_pair hd
  have hdec : decodeMessage crypto serverTag s.client.cnPeerNonce s.client.cnPrecom w = (.ok m, _) := Prod.ext hx rfl
  obtain ⟨hlen, hname, hn, hlt, -⟩ := decodeMessage_ok hdec
  obtain ⟨hnew, horder⟩ := h.toClient.fresh hn hlt
  refine ⟨hlen, hnew, fun hsent => ?_, horder⟩
  obtain ⟨-, n, m, he⟩ := h.clientBoxed w hsent hname
  exact decode_reflected hl ha (mem_pair.mpr (Or.inl rfl)) (mem_pair.mpr (Or.inr rfl)) (by decide) he hdec

end Sound
end Session

theorem Lane.transmits {μ ν : Type} {encode : μ → Msg → Except Crash (Msg × μ)}
    {decode : ν → Msg → Except Crash (Except MechErrno Msg × ν)} {nonceAt : μ → UInt64} {peerNonceAt : ν → UInt64}
    {precomS : μ → List UInt8} {precomR : ν → List UInt8} {readyS : μ → Prop} {readyR : ν → Prop} {s : μ} {r : ν}
    {inFlight delivered accepted ms : List Msg}
    (h : Lane sent inFlight delivered accepted (nonceAt s) (peerNonceAt r)) (hl : crypto.Lawful)
    (ht : tag ∈ [clientTag, serverTag]) (hsend : Sends crypto tag encode nonceAt precomS readyS)
    (hhear : Hears crypto tag decode peerNonceAt precomR readyR) (h1 : readyS s) (h2 : readyR r)
    (hk : precomR r = precomS s) (hd : ∀ w ∈ delivered, w ∈ sent) (hsent : sent.filterMap nonceOf ≠ [])
    (hlen : used sent + ms.length < 2 ^ 64) :
    ∃ (ws : List Msg) (s' : μ) (ds : List Msg) (r' : ν), encodeEach encode s ms = .ok (ws, s') ∧
      decodeEach decode r ws = .ok (ds.map .ok, r') ∧ ds.map content = ms.map content := by
  rcases eq_or_ne ms [] with rfl | hne
  · exact ⟨[], s, [], r, rfl, rfl, rfl⟩
  have hpos := length_pos_of_ne_nil hne
  have hnonce := h.counted.toNat_le (by omega)
  exact decodeEach_encodeEach hl ht hsend hhear h1 h2 hk (fun _ => h.behind (by omega) hd hsent) (by omega)

theorem clear_authentic : Authentic .clear := by
  intro x p tag tag' k c n n' ht ht' hc ho
  have hnonce : ∀ {tag : List UInt8}, tag ∈ [clientTag, serverTag] → ∀ n : UInt64,
      ((tag ++ putUint64 n).drop 8).take 16 = tag.drop 8 ++ putUint64 n := by
    intro tag ht n
    have h16 := tag_length ht
    rw [drop_append_of_le_length (by omega)]
    exact take_of_length_le (Nat.le_of_eq (by rw [length_append, length_drop, h16, putUint64_length]))
  have hc : Crypto.clearBox (zeros zeroBytes ++ x) (tag ++ putUint64 n) = some c := hc
  have ho : Crypto.clearOpen c (tag' ++ putUint64 n') = some p := ho
  unfold Crypto.clearBox at hc
  unfold Crypto.clearOpen at ho
  split_ifs at hc ho with h1 h2
  have hmac : (c.drop 16).take 16 = tag.drop 8 ++ putUint64 n := by
    rw [← Option.some.inj hc, hnonce ht, append_assoc, drop_left' length_replicate]
    exact take_left' (by rw [length_append, length_drop, tag_length ht, putUint64_length])
  have heq : tag.drop 8 ++ putUint64 n = tag'.drop 8 ++ putUint64 n' := hmac.symm.trans (h2.2.trans (hnonce ht' n'))
  have hlen : (tag.drop 8).length = (tag'.drop 8).length := by
    rw [length_drop, length_drop, tag_length ht, tag_length ht']
  obtain ⟨htag, hput⟩ := append_inj heq hlen
  have hn : n' = n := by rw [← get_put_uint64 n', ← hput, get_put_uint64]
  refine ⟨?_, hn⟩
  rcases mem_pair.mp ht with rfl | rfl <;> rcases mem_pair.mp ht' with rfl | rfl
  · rfl
  · exact absurd htag (by decide)
  · exact absurd htag (by decide)
  · rfl

/-- A handshake on a network that loses nothing. -/
def handshakeOps : List SessionOp :=
  [.clientNext fun _ => 0, .serverHears, .serverNext fun _ => 0, .clientHears, .clientNext fun _ => 0, .serverHears,
    .serverNext fun _ => 0, .clientHears]

def clearClient : CurveClient := .new (.new 5) (zeros 32) (zeros 32) (zeros 32) (zeros 32) (zeros 32)

def clearServer : CurveServer := .new (.new 5) (.new false) [] (zeros 32) (zeros 32) (zeros 32)

def Met (s : Session) : Prop :=
  s.client.state = .connected ∧ s.server.state = .connected ∧ s.client.cnPrecom = s.server.cnPrecom ∧
    s.client.cnNonce = 3 ∧ used s.sentByClient = 2 ∧ s.deliveredToServer = []

instance (s : Session) : Decidable (Met s) := by
  unfold Met
  infer_instance

theorem clear_handshake : ∃ s, Run (fun s => s = .start clearClient clearServer)
    (Does Session.Ready (Session.run .clear)) handshakeOps s ∧ Met s :=
  exists_run_free (P := Met) rfl (by decide +kernel) fun _ _ h => h

/-- The counters of all commands increase until 2^64 of them have been used. Whatever the network delivers, nothing is
accepted that is too short, that has been accepted before, that was encoded for the other side, or, until then, that was
sent before something accepted. As long as only what has been sent is delivered, a sequence of messages is decoded to
what was encoded. -/
theorem traffic_decodes (hl : crypto.Lawful) (ha : Authentic crypto) {client : CurveClient} {server : CurveServer}
    (hc : client.Fresh) (hs : server.Fresh) (hp : client.cnPublic.length = 32) {ops : List SessionOp} {s : Session}
    (h : Run (fun s => s = .start client server) (Does Session.Ready (Session.run crypto)) ops s) :
    ((used s.sentByClient < 2 ^ 64 → (s.sentByClient.filterMap nonceOf).Pairwise (· < ·)) ∧
      (used s.sentByServer < 2 ^ 64 → (s.sentByServer.filterMap nonceOf).Pairwise (· < ·))) ∧
    ((∀ w m server', s.server.decode crypto w = .ok (.ok m, server') →
        33 ≤ w.data.length ∧ w ∉ s.acceptedByServer ∧ w ∉ s.sentByServer ∧
          (used s.sentByClient < 2 ^ 64 → ∀ v ∈ s.acceptedByServer, ¬ List.Sublist [w, v] s.sentByClient)) ∧
      (∀ w m client', s.client.decode crypto w = .ok (.ok m, client') →
        33 ≤ w.data.length ∧ w ∉ s.acceptedByClient ∧ w ∉ s.sentByClient ∧
          (used s.sentByServer < 2 ^ 64 → ∀ v ∈ s.acceptedByClient, ¬ List.Sublist [w, v] s.sentByServer))) ∧
    (s.client.state = .connected → s.server.state = .connected → s.client.cnPrecom = s.server.cnPrecom →
      ((∀ w ∈ s.deliveredToServer, w ∈ s.sentByClient) → ∀ ms, used s.sentByClient + ms.length < 2 ^ 64 →
        ∃ (ws : List Msg) (client' : CurveClient) (ds : List Msg) (server' : CurveServer),
          encodeEach (CurveClient.encode crypto) s.client ms = .ok (ws, client') ∧
          decodeEach (CurveServer.decode crypto) s.server ws = .ok (ds.map .ok, server') ∧ ds.map content = ms.map content) ∧
      ((∀ w ∈ s.deliveredToClient, w ∈ s.sentByServer) → ∀ ms, used s.sentByServer + ms.length < 2 ^ 64 →
        ∃ (ws : List Msg) (server' : CurveServer) (ds : List Msg) (client' : CurveClient),
          encodeEach (CurveServer.encode crypto) s.server ms = .ok (ws, server') ∧
          decodeEach (CurveClient.decode crypto) s.client ws = .ok (ds.map .ok, client') ∧ ds.map content = ms.map content)) := by
  have hsound := Session.Sound.of_run hc hs hp h
  refine ⟨⟨hsound.toServer.counted.pairwise, hsound.toClient.counted.pairwise⟩,
    ⟨fun _ _ _ => hsound.server_accepts hl ha, fun _ _ _ => hsound.client_accepts hl ha⟩, fun hcc hsc hk => ⟨?_, ?_⟩⟩
  · intro hd ms hlen
    have hsent : s.sentByClient.filterMap nonceOf ≠ [] := fun hn => (hsound.early hn).2.2.2 hcc
    exact hsound.toServer.transmits hl (mem_pair.mpr (Or.inl rfl)) client_sends server_hears hcc hsc hk.symm hd hsent hlen
  · intro hd ms hlen
    exact hsound.toClient.transmits hl (mem_pair.mpr (Or.inr rfl)) server_sends client_hears hsc hcc hk hd
      (hsound.served hsc) hlen

theorem traffic_decodes_clear : ∃ s, Run (fun s => s = .start clearClient clearServer)
    (Does Session.Ready (Session.run .clear)) handshakeOps s ∧ (s.sentByClient.filterMap nonceOf).Pairwise (· < ·) ∧
    (∀ w m server', s.server.decode .clear w = .ok (.ok m, server') → w ∉ s.sentByServer) ∧
    ∃ (ws : List Msg) (client' : CurveClient) (ds : List Msg) (server' : CurveServer),
      encodeEach (CurveClient.encode .clear) s.client [⟨.vsm, Msg.more, [1, 2]⟩, ⟨.vsm, 0, []⟩] = .ok (ws, client') ∧
        decodeEach (CurveServer.decode .clear) s.server ws = .ok (ds.map .ok, server') ∧
        ds.map content = [([1, 2], true, false), ([], false, false)] := by
  obtain ⟨s, hs, hc, hsrv, hk, -, hused, hd⟩ := clear_handshake
  obtain ⟨⟨hnonces, -⟩, ⟨haccepts, -⟩, htransmits⟩ :=
    traffic_decodes Crypto.clear_lawful clear_authentic ⟨rfl, rfl, rfl⟩ ⟨rfl, rfl, rfl⟩ rfl hs
  refine ⟨s, hs, hnonces (by rw [hused]; decide), fun w m server' hw => (haccepts w m server' hw).2.2.1, ?_⟩
  exact (htransmits hc hsrv hk).1 (by rw [hd]; exact fun _ h => (not_mem_nil h).elim) _ (by rw [hused]; decide)

/-- The counter starts again: of so many messages one is encoded that is not decoded. -/
theorem counter_starts_again : ∃ s, Run (fun s => s = .start clearClient clearServer)
    (Does Session.Ready (Session.run .clear)) handshakeOps s ∧ s.client.state = .connected ∧ s.server.state = .connected ∧
    s.client.cnPrecom = s.server.cnPrecom ∧ ¬ ∃ (ws : List Msg) (client' : CurveClient) (ds : List Msg) (server' : CurveServer),
      encodeEach (CurveClient.encode .clear) s.client (replicate (2 ^ 64 - 3 + 1) .init) = .ok (ws, client') ∧
        decodeEach (CurveServer.decode .clear) s.server ws = .ok (ds.map .ok, server') := by
  obtain ⟨s, hs, hc, hsrv, hk, hnonce, -, -⟩ := clear_handshake
  refine ⟨s, hs, hc, hsrv, hk, ?_⟩
  rintro ⟨ws, client', ds, server', he, hd⟩
  have hwrap : s.client.cnNonce + UInt64.ofNat (2 ^ 64 - 3) = 0 := by
    rw [hnonce]
    decide
  obtain ⟨x, hx, hno⟩ := not_decodeEach_encodeEach Crypto.clear_lawful (mem_pair.mpr (Or.inl rfl)) client_sends
    server_hears (2 ^ 64 - 3) hc hsrv hwrap he hd
  obtain ⟨m, -, rfl⟩ := mem_map.mp hx
  exact hno m rfl

end Curve
end Zmq
