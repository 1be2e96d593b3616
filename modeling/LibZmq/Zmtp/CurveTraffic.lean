import LibZmq.Zmtp.CurveMessages
import LibZmq.Zmtp.CurveClient
import LibZmq.Zmtp.CurveServer
import LibZmq.Zmtp.Zap

/-! A client and a server of CURVE from the beginning: the handshake in order, and then MESSAGE commands on a network
that may deliver anything. -/

namespace Zmq

open List CurveServer
namespace Curve

structure Session where
  client : CurveClient
  server : CurveServer
  /-- commands of the handshake that are in flight -/
  toServer : List Msg
  toClient : List Msg
  /-- all commands, oldest first -/
  sentByClient : List Msg
  sentByServer : List Msg
  /-- what `decode` has been called with, and what of it was accepted -/
  deliveredToServer : List Msg
  deliveredToClient : List Msg
  acceptedByServer : List Msg
  acceptedByClient : List Msg

inductive SessionOp where
  | clientNext (random : ℕ → UInt8)
  | serverNext (random : ℕ → UInt8)
  | clientHears
  | serverHears
  | handlerReplies (frames : List Msg)
  | zapMsgAvailable
  | clientEncodes (m : Msg)
  | serverEncodes (m : Msg)
  | clientDecodes (w : Msg)
  | serverDecodes (w : Msg)

namespace Session

def start (client : CurveClient) (server : CurveServer) : Session := ⟨client, server, [], [], [], [], [], [], [], []⟩

/-- The commands of the handshake are exchanged until the mechanism is ready. -/
def Ready (s : Session) : SessionOp → Prop
  | .clientNext _ => s.client.status = .handshaking
  | .serverNext _ => s.server.status = .handshaking
  | .clientHears => s.client.status = .handshaking ∧ s.toClient ≠ []
  | .serverHears => s.server.status = .handshaking ∧ s.toServer ≠ []
  | _ => True

instance (s : Session) (op : SessionOp) : Decidable (s.Ready op) := by
  cases op <;> unfold Ready <;> infer_instance

/-- What has been produced, if anything. -/
def produced : Except MechErrno Msg → List Msg
  | .ok msg => [msg]
  | .error _ => []

/-- The command, if it has been decoded. -/
def accepted (w : Msg) : Except MechErrno Msg → List Msg
  | .ok _ => [w]
  | .error _ => []

def run (crypto : Crypto) (s : Session) : SessionOp → Except Crash Session
  | .clientNext random => do
    let (x, client) ← s.client.nextHandshakeCommand crypto random
    return { s with client := client, toServer := s.toServer ++ produced x, sentByClient := s.sentByClient ++ produced x }
  | .serverNext random => do
    let (x, server) ← s.server.nextHandshakeCommand crypto random
    return { s with server := server, toClient := s.toClient ++ produced x, sentByServer := s.sentByServer ++ produced x }
  | .clientHears => do
    let (_, client) ← s.client.processHandshakeCommand crypto (s.toClient.headD .init)
    return { s with client := client, toClient := s.toClient.tail }
  | .serverHears => do
    let (_, server) ← s.server.processHandshakeCommand crypto (s.toServer.headD .init)
    return { s with server := server, toServer := s.toServer.tail }
  | .handlerReplies frames =>
    .ok { s with server.session.incoming := s.server.session.incoming ++ frames }
  | .zapMsgAvailable => do
    let (_, server) ← s.server.zapMsgAvailable
    return { s with server := server }
  | .clientEncodes m => do
    let (w, client) ← s.client.encode crypto m
    return { s with client := client, sentByClient := s.sentByClient ++ [w] }
  | .serverEncodes m => do
    let (w, server) ← s.server.encode crypto m
    return { s with server := server, sentByServer := s.sentByServer ++ [w] }
  | .clientDecodes w => do
    let (x, client) ← s.client.decode crypto w
    return { s with
      client := client
      deliveredToClient := s.deliveredToClient ++ [w]
      acceptedByClient := s.acceptedByClient ++ accepted w x }
  | .serverDecodes w => do
    let (x, server) ← s.server.decode crypto w
    return { s with
      server := server
      deliveredToServer := s.deliveredToServer ++ [w]
      acceptedByServer := s.acceptedByServer ++ accepted w x }

end Session

/-! One direction: the counters of the commands sent, and the counter that the other side remembers. -/

def Counted (sent : List Msg) (nonce : UInt64) : Prop :=
  ∃ k, sent.filterMap nonceOf = (range k).map (fun i => UInt64.ofNat (i + 1)) ∧ nonce = UInt64.ofNat (k + 1)

structure Lane (sent inFlight delivered accepted : List Msg) (nonce peerNonce : UInt64) : Prop where
  counted : Counted sent nonce
  inFlight : ∀ w ∈ inFlight, w ∈ sent
  peer : peerNonce = 1 ∨ ∃ w, (w ∈ sent ∨ w ∈ delivered) ∧ nonceOf w = some peerNonce
  accepted : ∀ w ∈ accepted, ∃ n, nonceOf w = some n ∧ n ≤ peerNonce

variable {sent inFlight delivered accepted : List Msg} {nonce peerNonce : UInt64} {w : Msg}

theorem Counted.snoc (h : Counted sent nonce) (hw : nonceOf w = some nonce) : Counted (sent ++ [w]) (nonce + 1) := by
  obtain ⟨k, hk, rfl⟩ := h
  refine ⟨k + 1, ?_, (UInt64.ofNat_add (k + 1) 1).symm⟩
  rw [filterMap_append, hk, range_succ]
  simp [hw]

theorem Counted.other (h : Counted sent nonce) (hw : nonceOf w = none) : Counted (sent ++ [w]) nonce := by
  obtain ⟨k, hk, rfl⟩ := h
  refine ⟨k, ?_, rfl⟩
  rw [filterMap_append, hk]
  simp [hw]

/-- How many counters have been used. -/
def used (sent : List Msg) : ℕ := (sent.filterMap nonceOf).length

theorem used_eq {k : ℕ} (hk : sent.filterMap nonceOf = (range k).map (fun i => UInt64.ofNat (i + 1))) : used sent = k := by
  rw [used, hk, length_map, length_range]

theorem ofNat_lt {a b : ℕ} (h : a < b) (hb : b < 2 ^ 64) : UInt64.ofNat a < UInt64.ofNat b := by
  rw [UInt64.lt_iff_toNat_lt, UInt64.toNat_ofNat', UInt64.toNat_ofNat', Nat.mod_eq_of_lt hb, Nat.mod_eq_of_lt (Nat.lt_trans h hb)]
  exact h

theorem Counted.pairwise (h : Counted sent nonce) (hlen : used sent < 2 ^ 64) :
    (sent.filterMap nonceOf).Pairwise (· < ·) := by
  obtain ⟨k, hk, -⟩ := h
  have hused := used_eq hk
  rw [hk, pairwise_map]
  refine pairwise_lt_range.imp_of_mem fun {a b} ha hb hab => ?_
  have := mem_range.mp hb
  exact ofNat_lt (by omega) (by omega)

theorem Counted.lt (h : Counted sent nonce) (hlen : used sent + 1 < 2 ^ 64) {n : UInt64} (hw : w ∈ sent)
    (hn : nonceOf w = some n) : n < nonce := by
  obtain ⟨k, hk, rfl⟩ := h
  have hused := used_eq hk
  have hmem : n ∈ sent.filterMap nonceOf := mem_filterMap.mpr ⟨w, hw, hn⟩
  rw [hk] at hmem
  obtain ⟨i, hi, rfl⟩ := mem_map.mp hmem
  have := mem_range.mp hi
  exact ofNat_lt (by omega) (by omega)

theorem Counted.toNat_le (h : Counted sent nonce) (hlen : used sent + 1 < 2 ^ 64) : nonce.toNat ≤ used sent + 1 := by
  obtain ⟨k, hk, rfl⟩ := h
  have hused := used_eq hk
  rw [UInt64.toNat_ofNat']
  omega

theorem Counted.one_lt (h : Counted sent nonce) (hlen : used sent + 1 < 2 ^ 64) (hs : sent.filterMap nonceOf ≠ []) :
    1 < nonce := by
  obtain ⟨k, hk, rfl⟩ := h
  have hused := used_eq hk
  rw [hk] at hs
  have hpos : k ≠ 0 := fun hc => hs (by rw [hc]; rfl)
  exact ofNat_lt (a := 1) (by omega) (by omega)

namespace Lane

theorem nil : Lane [] [] [] [] 1 1 := ⟨⟨0, rfl, rfl⟩, fun _ h => h, .inl rfl, fun _ h => (not_mem_nil h).elim⟩

theorem send (h : Lane sent inFlight delivered accepted nonce peerNonce) {nonce' : UInt64} (hc : Counted (sent ++ [w]) nonce') :
    Lane (sent ++ [w]) inFlight delivered accepted nonce' peerNonce :=
  ⟨hc, fun v hv => mem_append_left _ (h.inFlight v hv), h.peer.imp_right fun ⟨v, hv, hn⟩ =>
    ⟨v, hv.imp_left (mem_append_left _), hn⟩, h.accepted⟩

theorem fly (h : Lane (sent ++ [w]) inFlight delivered accepted nonce peerNonce) :
    Lane (sent ++ [w]) (inFlight ++ [w]) delivered accepted nonce peerNonce :=
  { h with inFlight := fun v hv => (mem_append.mp hv).elim (h.inFlight v) fun hv =>
      mem_append_right _ (mem_singleton.mpr (mem_singleton.mp hv)) }

variable {peerNonce' : UInt64}

theorem hear (h : Lane sent inFlight delivered [] nonce peerNonce) (hne : inFlight ≠ [])
    (hp : peerNonce' = peerNonce ∨ nonceOf (inFlight.headD .init) = some peerNonce') :
    Lane sent inFlight.tail delivered [] nonce peerNonce' := by
  refine ⟨h.counted, fun v hv => h.inFlight v (mem_of_mem_tail hv), ?_, fun _ hv => (not_mem_nil hv).elim⟩
  rcases hp with rfl | hn
  · exact h.peer
  · obtain ⟨v, rest, rfl⟩ := exists_cons_of_ne_nil hne
    exact .inr ⟨v, .inl (h.inFlight v mem_cons_self), hn⟩

theorem deliver (h : Lane sent inFlight delivered accepted nonce peerNonce) {x : Except MechErrno Msg}
    (hp : peerNonce' = peerNonce ∨ peerNonce < peerNonce' ∧ nonceOf w = some peerNonce')
    (hx : ∀ m, x = .ok m → nonceOf w = some peerNonce') :
    Lane sent inFlight (delivered ++ [w]) (accepted ++ Session.accepted w x) nonce peerNonce' := by
  have hle : peerNonce ≤ peerNonce' := by
    rcases hp with rfl | ⟨hlt, -⟩
    · exact UInt64.le_refl _
    · exact UInt64.le_of_lt hlt
  refine ⟨h.counted, h.inFlight, ?_, fun v hv => ?_⟩
  · rcases hp with rfl | ⟨-, hn⟩
    · exact h.peer.imp_right fun ⟨v, hv, hn⟩ => ⟨v, hv.imp_right (mem_append_left _), hn⟩
    · exact .inr ⟨w, .inr (mem_append_right _ (mem_singleton.mpr rfl)), hn⟩
  · rcases mem_append.mp hv with hv | hv
    · obtain ⟨n, hn, hlen⟩ := h.accepted v hv
      exact ⟨n, hn, UInt64.le_trans hlen hle⟩
    · cases x with
      | error e => exact (not_mem_nil hv).elim
      | ok m =>
        obtain rfl := mem_singleton.mp hv
        exact ⟨peerNonce', hx m rfl, UInt64.le_refl _⟩

theorem fresh (h : Lane sent inFlight delivered accepted nonce peerNonce) {n : UInt64} (hn : nonceOf w = some n)
    (hlt : peerNonce < n) : w ∉ accepted ∧ (used sent < 2 ^ 64 → ∀ v ∈ accepted, ¬ List.Sublist [w, v] sent) := by
  refine ⟨fun hw => ?_, fun hlen v hv hsub => ?_⟩
  · obtain ⟨n', hn', hle⟩ := h.accepted w hw
    cases hn.symm.trans hn'
    exact UInt64.not_lt.mpr hle hlt
  · obtain ⟨n', hn', hle⟩ := h.accepted v hv
    have hpair := (h.counted.pairwise hlen).sublist (hsub.filterMap nonceOf)
    rw [filterMap_cons_some hn, filterMap_cons_some hn'] at hpair
    have hnn : n < n' := (pairwise_cons.mp hpair).1 n' mem_cons_self
    exact UInt64.not_lt.mpr hle (UInt64.lt_trans hlt hnn)

theorem behind (h : Lane sent inFlight delivered accepted nonce peerNonce) (hlen : used sent + 1 < 2 ^ 64)
    (hd : ∀ w ∈ delivered, w ∈ sent) (hs : sent.filterMap nonceOf ≠ []) : peerNonce < nonce := by
  rcases h.peer with rfl | ⟨v, hv, hn⟩
  · exact h.counted.one_lt hlen hs
  · exact h.counted.lt hlen (hv.elim id (hd v)) hn

end Lane

/-! What a step of the handshake does to the counters. -/

theorem nonceOf_none {name : List UInt8} (hlen : 6 ≤ name.length)
    (h : name.take 6 ∉ [helloName, initiateName.take 6, readyName, messageName.take 6]) (rest : List UInt8) :
    nonceOf (.ofData (name ++ rest)) = none ∧ (name ++ rest).take 8 ≠ messageName := by
  have hbegin (k : ℕ) (hk : 6 ≤ k) {other : List UInt8} (ho : other.take 6 ∈ [helloName, initiateName.take 6, readyName,
      messageName.take 6]) : (name ++ rest).take k ≠ other := by
    rintro rfl
    rw [take_take, Nat.min_eq_left hk, take_append_of_le_length hlen] at ho
    exact h ho
  refine ⟨?_, hbegin 8 (by decide) (by decide)⟩
  unfold nonceOf
  rw [Msg.ofData_data, if_neg (hbegin 6 (by decide) (by decide)), if_neg (hbegin 9 (by decide) (by decide)),
    if_neg (hbegin 6 (by decide) (by decide)), if_neg (hbegin 8 (by decide) (by decide))]

theorem other_name {data name : List UInt8} {k : ℕ} (hk : 6 ≤ k) (h : data.take 6 ≠ name.take 6) : data.take k ≠ name := by
  rintro rfl
  rw [take_take, Nat.min_eq_left hk] at h
  exact h rfl

theorem nonceOf_hello (h : w.data.take 6 = helloName) : nonceOf w = some (getUint64 (w.data.drop 112)) := if_pos h

theorem nonceOf_initiate (h : w.data.take 9 = initiateName) : nonceOf w = some (getUint64 (w.data.drop 105)) := by
  have h6 : w.data.take 6 = initiateName.take 6 := by rw [← h, take_take, Nat.min_eq_left (by decide)]
  exact (if_neg (by rw [h6]; decide)).trans (if_pos h)

theorem nonceOf_ready (h : w.data.take 6 = readyName) : nonceOf w = some (getUint64 (w.data.drop 6)) := by
  unfold nonceOf
  rw [if_neg (by rw [h]; decide), if_neg (other_name (by decide) (by rw [h]; decide)), if_pos h]

structure Calm (m m' : CurveServer) : Prop where
  nonce : m'.cnNonce = m.cnNonce
  peerNonce : m'.cnPeerNonce = m.cnPeerNonce
  state : m'.state = .connected → m.state = .connected

namespace Calm

variable {m m' m'' : CurveServer} {rc : Ret}

theorem refl (m : CurveServer) : Calm m m := ⟨rfl, rfl, id⟩

theorem trans (h : Calm m m') (h' : Calm m' m'') : Calm m m'' :=
  ⟨h'.nonce.trans h.nonce, h'.peerNonce.trans h.peerNonce, h.state ∘ h'.state⟩

theorem decided (m : CurveServer) : Calm m m.decided := by
  refine ⟨rfl, rfl, fun hc => ?_⟩
  unfold CurveServer.decided at hc
  split_ifs at hc

theorem receive (h : m.receiveAndProcessZapReply = .ok (rc, m')) : Calm m m' := by
  obtain ⟨⟨rc1, z⟩, -, hret⟩ := bind_ok h
  cases hret
  exact ⟨rfl, rfl, id⟩

theorem ask {key : List UInt8} (h : m.ask key = .ok (rc, m')) : Calm m m' := by
  obtain ⟨m1, h1, h⟩ := bind_ok h
  obtain ⟨z, -, hret⟩ := bind_ok h1
  cases hret
  obtain ⟨⟨rc2, m2⟩, h2, h⟩ := bind_ok h
  have hreceive := receive h2
  have hcalm : Calm m m2 := ⟨hreceive.nonce, hreceive.peerNonce, hreceive.state⟩
  rcases rc2 with _ | e
  · cases h
    exact hcalm.trans (.decided m2)
  · cases e
    case eagain =>
      cases h
      exact ⟨hcalm.nonce, hcalm.peerNonce, nofun⟩
    all_goals
      cases h
      exact hcalm

theorem settle {plaintext : List UInt8} (h : m.settle plaintext = .ok (rc, m')) : Calm m m' := by
  obtain ⟨key, -, h⟩ := bind_ok h
  obtain ⟨⟨rc1, session⟩, -, h⟩ := bind_ok h
  dsimp only at h
  split_ifs at h
  all_goals
    obtain ⟨⟨rc2, m2⟩, h2, h⟩ := bind_ok h
    have hcalm : Calm m m2 := by
      first
      | have hask : Calm { m with session := session } m2 := ask h2
        exact ⟨hask.nonce, hask.peerNonce, hask.state⟩
      | cases h2
        exact ⟨rfl, rfl, by rintro ⟨⟩⟩
    cases rc2 with
    | error e =>
      cases h
      exact hcalm
    | ok =>
      obtain ⟨⟨rc3, base⟩, -, hret⟩ := bind_ok h
      cases hret
      exact ⟨hcalm.nonce, hcalm.peerNonce, hcalm.state⟩

end Calm

section Server

variable {crypto : Crypto} {m m' : CurveServer} {rc : Ret} {msg : Msg}

structure Heard (m : CurveServer) (msg : Msg) (m' : CurveServer) : Prop where
  nonce : m'.cnNonce = m.cnNonce
  peerNonce : m'.cnPeerNonce = m.cnPeerNonce ∨ nonceOf msg = some m'.cnPeerNonce
  state : m'.state ≠ .connected

theorem Heard.refl (h : m.state ≠ .connected) : Heard m msg m := ⟨rfl, .inl rfl, h⟩

theorem hello_heard (hs : m.state ≠ .connected) (h : m.processHello crypto msg.data = .ok (rc, m')) : Heard m msg m' := by
  unfold processHello at h
  split_ifs at h with h1 h2 h3
  · cases h
    exact .refl hs
  · cases h
    exact .refl hs
  · cases h
    exact .refl hs
  have hn := nonceOf_hello (not_not.mp h2)
  obtain ⟨key, -, h⟩ := bind_ok h
  obtain ⟨nonce, -, h⟩ := bind_ok h
  obtain ⟨part, -, h⟩ := bind_ok h
  obtain ⟨box, -, h⟩ := bind_ok h
  split at h
  · cases h
    exact ⟨rfl, .inr hn, hs⟩
  · obtain ⟨p, -, hret⟩ := bind_ok h
    cases hret
    exact ⟨rfl, .inr hn, nofun⟩

theorem initiate_heard (hs : m.state ≠ .connected) (h : m.processInitiate crypto msg.data = .ok (rc, m')) : Heard m msg m' := by
  unfold processInitiate at h
  split_ifs at h with h1 h2
  · cases h
    exact .refl hs
  · cases h
    exact .refl hs
  have hn := nonceOf_initiate (not_not.mp h2)
  obtain ⟨own, -, h⟩ := bind_ok h
  split_ifs at h
  · obtain ⟨box, -, h⟩ := bind_ok h
    obtain ⟨nonce, -, h⟩ := bind_ok h
    dsimp only at h
    split at h
    · cases h
      exact ⟨rfl, .inr hn, hs⟩
    · obtain ⟨p, -, h⟩ := bind_ok h
      obtain ⟨vouched, -, h⟩ := bind_ok h
      split_ifs at h
      · have hcalm := Calm.settle h
        exact ⟨hcalm.nonce, .inr (hcalm.peerNonce.symm ▸ hn), fun hc => hs (hcalm.state hc)⟩
      · cases h
        exact ⟨rfl, .inr hn, hs⟩
  · cases h
    exact .refl hs

theorem server_heard (hs : m.state ≠ .connected) (h : m.processHandshakeCommand crypto msg = .ok (rc, m')) : Heard m msg m' := by
  unfold processHandshakeCommand at h
  split at h
  · exact hello_heard hs h
  · exact initiate_heard hs h
  · cases h
    exact .refl hs

theorem zapMsgAvailable_calm (h : m.zapMsgAvailable = .ok (rc, m')) : Calm m m' ∧ (m' = m ∨ m.state = .expectZapReply) := by
  unfold zapMsgAvailable at h
  split_ifs at h with hs
  · cases h
    exact ⟨.refl m, .inl rfl⟩
  obtain ⟨⟨rc1, m1⟩, h1, hret⟩ := bind_ok h
  cases hret
  refine ⟨?_, .inr (not_not.mp hs)⟩
  split_ifs
  · exact (Calm.receive h1).trans (.decided m1)
  · exact Calm.receive h1

def Produces (nonce : UInt64) (x : Except MechErrno Msg) (nonce' : UInt64) : Prop :=
  (∃ e, x = .error e ∧ nonce' = nonce) ∨ ∃ msg, x = .ok msg ∧ msg.data.take 8 ≠ messageName ∧
    (nonceOf msg = some nonce ∧ nonce' = nonce + 1 ∨ nonceOf msg = none ∧ nonce' = nonce)

theorem server_next {x : Except MechErrno Msg} {random : ℕ → UInt8} (hs : m.state ≠ .connected)
    (h : m.nextHandshakeCommand crypto random = .ok (x, m')) : Produces m.cnNonce x m'.cnNonce ∧ m'.cnPeerNonce = m.cnPeerNonce ∧
      (m'.state = .connected → ∃ msg, x = .ok msg ∧ nonceOf msg = some m.cnNonce) ∧
      (m.state = .expectHello → m' = m ∧ ∃ e, x = .error e) := by
  unfold nextHandshakeCommand at h
  split at h
  case h_1 heq =>
    have hne : m.state ≠ .expectHello := heq ▸ by decide
    obtain ⟨⟨x1, m1⟩, h1, hret⟩ := bind_ok h
    cases hret
    unfold produceWelcome at h1
    dsimp only at h1
    split at h1
    · cases h1
    obtain ⟨c, -, h1⟩ := bind_ok h1
    split at h1
    · cases h1
      exact ⟨.inl ⟨_, rfl, rfl⟩, rfl, fun hc => absurd hc hs, fun hc => absurd hc hne⟩
    · obtain ⟨w, -, hret1⟩ := bind_ok h1
      cases hret1
      obtain ⟨hn, hm⟩ := nonceOf_none (show 6 ≤ welcomeName.length by decide) (by decide)
        (draw random 48 16 ++ strip w)
      exact ⟨.inr ⟨_, rfl, hm, .inr ⟨hn, rfl⟩⟩, rfl, nofun, fun hc => absurd hc hne⟩
  case h_2 heq =>
    have hne : m.state ≠ .expectHello := heq ▸ by decide
    obtain ⟨⟨msg, m1⟩, h1, hret⟩ := bind_ok h
    cases hret
    obtain ⟨p, -, h1⟩ := bind_ok h1
    obtain ⟨plaintext, -, h1⟩ := bind_ok h1
    split at h1
    · cases h1
    obtain ⟨c, -, hret1⟩ := bind_ok h1
    cases hret1
    have hname : (readyName ++ putUint64 m.cnNonce ++ strip c).take 6 = readyName := rfl
    have hn : nonceOf (.ofData (readyName ++ putUint64 m.cnNonce ++ strip c)) = some m.cnNonce :=
      (nonceOf_ready hname).trans (congrArg some (getUint64_append _ _))
    have hm : (readyName ++ putUint64 m.cnNonce ++ strip c).take 8 ≠ messageName :=
      other_name (by decide) (by rw [hname]; decide)
    exact ⟨.inr ⟨_, rfl, hm, .inl ⟨hn, rfl⟩⟩, rfl, fun _ => ⟨_, rfl, hn⟩, fun hc => absurd hc hne⟩
  case h_3 heq =>
    have hne : m.state ≠ .expectHello := heq ▸ by decide
    obtain ⟨msg, h1, hret⟩ := bind_ok h
    cases hret
    obtain ⟨⟨⟩, -, hret1⟩ := bind_ok h1
    cases hret1
    obtain ⟨hn, hm⟩ := nonceOf_none (show 6 ≤ errorName.length by decide) (by decide)
      (sizeofString :: m.statusCode)
    exact ⟨.inr ⟨_, rfl, hm, .inr ⟨hn, rfl⟩⟩, rfl, nofun, fun hc => absurd hc hne⟩
  case h_4 =>
    cases h
    exact ⟨.inl ⟨_, rfl, rfl⟩, rfl, fun hc => absurd hc hs, fun _ => ⟨rfl, _, rfl⟩⟩

end Server

section Client

variable {crypto : Crypto} {m m' : CurveClient} {rc : Ret} {msg : Msg}

theorem client_next {x : Except MechErrno Msg} {random : ℕ → UInt8} (hp : m.cnPublic.length = 32)
    (hcookie : m.state = .sendInitiate → m.cnCookie.length = 96) (h : m.nextHandshakeCommand crypto random = .ok (x, m')) :
    (m' = m ∧ ∃ e, x = .error e) ∨ ∃ msg, x = .ok msg ∧ nonceOf msg = some m.cnNonce ∧ msg.data.take 8 ≠ messageName ∧
      m'.cnNonce = m.cnNonce + 1 ∧ m'.cnPeerNonce = m.cnPeerNonce ∧ m'.cnPublic = m.cnPublic ∧
      (m'.state = .expectWelcome ∨ m'.state = .expectReady) := by
  unfold CurveClient.nextHandshakeCommand at h
  split at h
  case h_1 heq =>
    obtain ⟨⟨x1, m1⟩, h1, hret⟩ := bind_ok h
    cases hret
    unfold CurveClient.produceHello at h1
    split at h1
    · cases h1
      exact .inl ⟨rfl, _, rfl⟩
    obtain ⟨c, -, hret1⟩ := bind_ok h1
    cases hret1
    refine .inr ⟨_, rfl, ?_, ?_, rfl, rfl, rfl, .inl rfl⟩
    · have hdrop : (helloName ++ [1, 0] ++ zeros 72 ++ m.cnPublic ++ putUint64 m.cnNonce ++ strip c).drop 112 =
          putUint64 m.cnNonce ++ strip c := by
        rw [append_assoc]
        exact drop_left' (by rw [length_append, hp]; rfl)
      rw [nonceOf_hello rfl, Msg.ofData_data, hdrop, getUint64_append]
    · exact other_name (by decide) (show helloName ≠ _ by decide)
  case h_2 heq =>
    obtain ⟨⟨x1, m1⟩, h1, hret⟩ := bind_ok h
    cases hret
    unfold CurveClient.produceInitiate at h1
    dsimp only at h1
    split at h1
    · cases h1
      exact .inl ⟨rfl, _, rfl⟩
    obtain ⟨v, -, h1⟩ := bind_ok h1
    obtain ⟨plaintext, -, h1⟩ := bind_ok h1
    split at h1
    · cases h1
      exact .inl ⟨rfl, _, rfl⟩
    obtain ⟨c, -, hret1⟩ := bind_ok h1
    cases hret1
    refine .inr ⟨_, rfl, ?_, ?_, rfl, rfl, rfl, .inr rfl⟩
    · have hdrop : (initiateName ++ m.cnCookie ++ putUint64 m.cnNonce ++ strip c).drop 105 = putUint64 m.cnNonce ++ strip c := by
        rw [append_assoc]
        exact drop_left' (by rw [length_append, hcookie heq]; rfl)
      have hname : (initiateName ++ m.cnCookie ++ putUint64 m.cnNonce ++ strip c).take 9 = initiateName := by
        rw [append_assoc, append_assoc]
        exact take_left' rfl
      rw [nonceOf_initiate hname, Msg.ofData_data, hdrop, getUint64_append]
    · exact other_name (by decide) (show initiateName.take 6 ≠ _ by decide)
  case h_3 =>
    cases h
    exact .inl ⟨rfl, _, rfl⟩

theorem client_heard (h : m.processHandshakeCommand crypto msg = .ok (rc, m')) :
    m'.cnNonce = m.cnNonce ∧ m'.cnPublic = m.cnPublic ∧ (m'.cnPeerNonce = m.cnPeerNonce ∨ nonceOf msg = some m'.cnPeerNonce) ∧
      (m'.state = .sendInitiate → m'.cnCookie.length = 96 ∨ m.state = .sendInitiate ∧ m'.cnCookie = m.cnCookie) := by
  unfold CurveClient.processHandshakeCommand at h
  split_ifs at h with hw hr he
  · unfold CurveClient.processWelcome at h
    split_ifs at h
    · cases h
      exact ⟨rfl, rfl, .inl rfl, fun hs => .inr ⟨hs, rfl⟩⟩
    obtain ⟨part, -, h⟩ := bind_ok h
    obtain ⟨box, -, h⟩ := bind_ok h
    obtain ⟨nonce, -, h⟩ := bind_ok h
    dsimp only at h
    split at h
    · cases h
      exact ⟨rfl, rfl, .inl rfl, fun hs => .inr ⟨hs, rfl⟩⟩
    obtain ⟨plaintext, -, h⟩ := bind_ok h
    obtain ⟨cnServer, -, h⟩ := bind_ok h
    obtain ⟨cookie, hcookie, hret⟩ := bind_ok h
    cases hret
    refine ⟨rfl, rfl, .inl rfl, fun _ => .inl ?_⟩
    obtain ⟨hlen, rfl⟩ := Block.read_eq hcookie
    rw [length_take, length_drop]
    omega
  · have hn := nonceOf_ready hr
    unfold CurveClient.processReady at h
    split_ifs at h
    · cases h
      exact ⟨rfl, rfl, .inl rfl, fun hs => .inr ⟨hs, rfl⟩⟩
    obtain ⟨box, -, h⟩ := bind_ok h
    dsimp only at h
    split at h
    · cases h
      exact ⟨rfl, rfl, .inr hn, fun hs => .inr ⟨hs, rfl⟩⟩
    obtain ⟨plaintext, -, h⟩ := bind_ok h
    obtain ⟨⟨rc1, base⟩, -, hret⟩ := bind_ok h
    cases hret
    refine ⟨rfl, rfl, .inr hn, fun hs => .inr ⟨?_, rfl⟩⟩
    split_ifs at hs
    exact hs
  · unfold CurveClient.processError at h
    split_ifs at h
    · cases h
      exact ⟨rfl, rfl, .inl rfl, fun hs => .inr ⟨hs, rfl⟩⟩
    · split at h
      · cases h
        exact ⟨rfl, rfl, .inl rfl, fun hs => .inr ⟨hs, rfl⟩⟩
      · cases h
        exact ⟨rfl, rfl, .inl rfl, nofun⟩
  · cases h
    exact ⟨rfl, rfl, .inl rfl, fun hs => .inr ⟨hs, rfl⟩⟩

theorem client_sends : Sends crypto clientTag (CurveClient.encode crypto) CurveClient.cnNonce CurveClient.cnPrecom
    (fun m => m.state = .connected) := by
  intro m msg w hs he
  unfold CurveClient.encode
  rw [Block.assert_ok hs, he]
  exact ⟨_, rfl, hs, rfl, rfl⟩

theorem client_hears : Hears crypto serverTag (CurveClient.decode crypto) CurveClient.cnPeerNonce CurveClient.cnPrecom
    (fun m => m.state = .connected) := by
  intro m w x n hs hd
  unfold CurveClient.decode
  rw [Block.assert_ok hs, hd]
  exact ⟨_, rfl, hs, rfl, rfl⟩

end Client

variable {crypto : Crypto}

theorem server_sends : Sends crypto serverTag (encode crypto) cnNonce cnPrecom (fun m => m.state = .connected) := by
  intro m msg w hs he
  unfold encode
  rw [Block.assert_ok hs, he]
  exact ⟨_, rfl, hs, rfl, rfl⟩

theorem server_hears : Hears crypto clientTag (decode crypto) cnPeerNonce cnPrecom (fun m => m.state = .connected) := by
  intro m w x n hs hd
  unfold decode
  rw [Block.assert_ok hs, hd]
  exact ⟨_, rfl, hs, rfl, rfl⟩

end Curve
end Zmq
