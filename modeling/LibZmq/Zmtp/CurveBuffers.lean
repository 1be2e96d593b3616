import LibZmq.Zmtp.CurveBoxes
import LibZmq.Zmtp.CurveClient
import LibZmq.Zmtp.CurveServer
import LibZmq.Zmtp.Zap

/-! The local arrays of `process_initiate` and `process_ready`. Both are dimensioned for 256 bytes of metadata, and
neither compares the size of the command with them. -/

namespace Zmq

open List

open Block

/-- As many bytes are opened as there are in the box. -/
structure Crypto.KeepsLength (crypto : Crypto) : Prop where
  boxOpen : ∀ c n pk sk p, crypto.boxOpen c n pk sk = some p → p.length = c.length
  openAfternm : ∀ c n k p, crypto.openAfternm c n k = some p → p.length = c.length
  secretboxOpen : ∀ c n k p, crypto.secretboxOpen c n k = some p → p.length = c.length

theorem Crypto.clear_keepsLength : Crypto.clear.KeepsLength := by
  have h : ∀ c n p, Crypto.clearOpen c n = some p → p.length = c.length := by
    intro c n p hp
    unfold Crypto.clearOpen at hp
    split_ifs at hp with hc
    rw [← Option.some.inj hp, length_append, length_replicate, length_drop]
    omega
  exact ⟨fun c n _ _ => h c n, fun c n _ => h c n, fun c n _ => h c n⟩

/-! The dialogue with the handler does not touch the arrays. -/

namespace ZapSession

theorem safe_zapConnect (s : ZapSession) : Safe s.zapConnect := by
  refine safe_assert.bind fun _ _ => ?_
  split_ifs <;> exact safe_ok

theorem safe_writeZapMsg (s : ZapSession) (m : Msg) : Safe (s.writeZapMsg m) := safe_assert.bind fun _ _ => safe_ok

theorem safe_writeFrames (s : ZapSession) (frames : List (List UInt8)) : Safe (s.writeFrames frames) := by
  induction frames generalizing s with
  | nil => exact safe_ok
  | cons data frames ih =>
    cases frames with
    | nil => exact safe_writeZapMsg s _
    | cons next frames => exact (safe_writeZapMsg s _).bind fun s' _ => ih s'

end ZapSession

theorem ZapMechanism.safe_receive (z : ZapMechanism) (rejected : MechErrno) : Safe (z.receiveAndProcessZapReply rejected) := by
  unfold ZapMechanism.receiveAndProcessZapReply
  cases z.session.readFrames 7 with
  | mk r session =>
    cases r with
    | error e => exact safe_ok
    | ok frames =>
      dsimp only
      split_ifs
      · exact safe_ok
      · exact safe_ok
      · obtain ⟨rc, m', h⟩ := Metadata.exists_parseMetadata Metadata.property
          (z.base.setUserId (frames.getD 5 .init).data) (frames.getD 6 .init).data true
        rw [h]
        exact safe_ok

namespace Curve

variable {size : ℕ} {c : List UInt8}

theorem received_error (h : size < boxZeroBytes + c.length) (hz : boxZeroBytes ≤ size) :
    received size c = .error .outOfBounds := by
  unfold received
  rw [Block.append_ok (by simpa using hz)]
  exact Block.append_error (by simpa using h)

end Curve

namespace CurveServer

open Curve

variable {crypto : Crypto} {m : CurveServer} {data : List UInt8}

/-- The bytes of an INITIATE for which `process_initiate` has room. -/
def initiateCapacity : ℕ := 113 + (144 + 256)

/-- The cookie of an INITIATE opens to the keys of this connection. -/
def ownCookie (crypto : Crypto) (m : CurveServer) (data : List UInt8) : Bool :=
  match crypto.secretboxOpen (zeros boxZeroBytes ++ (data.drop 25).take 80) (cookieTag ++ (data.drop 9).take 16) m.cookieKey with
  | none => false
  | some p => (p.drop zeroBytes).take 32 == m.cnClient && (p.drop (zeroBytes + 32)).take 32 == m.cnSecret

theorem checkCookie_eq (hk : crypto.KeepsLength) (h : 257 ≤ data.length) :
    m.checkCookie crypto data = .ok (m.ownCookie crypto data) := by
  have hbox : ((data.drop 25).take 80).length = 80 := by
    rw [length_take, length_drop]
    omega
  unfold checkCookie ownCookie
  rw [read_ok (by omega), ok_bind, received_ok (by omega), ok_bind, read_ok (by omega), ok_bind]
  cases hp : crypto.secretboxOpen (zeros boxZeroBytes ++ (data.drop 25).take 80) (cookieTag ++ (data.drop 9).take 16)
    m.cookieKey with
  | none => rfl
  | some p =>
    have hlen : p.length = 96 := by rw [hk.secretboxOpen _ _ _ _ hp, length_append, hbox, zeros_length, boxZeroBytes]
    have hz : zeroBytes = 32 := rfl
    dsimp only
    rw [into_ok (by omega), ok_bind, read_ok (by omega), read_ok (by omega)]
    rfl

theorem safe_checkVouch (hk : crypto.KeepsLength) (h : zeroBytes + 128 ≤ data.length) : Safe (m.checkVouch crypto data) := by
  have hbox : ((data.drop (zeroBytes + 48)).take 80).length = 80 := by
    rw [length_take, length_drop]
    omega
  unfold checkVouch
  rw [read_ok (by omega), ok_bind, read_ok (by omega), ok_bind, received_ok (by omega), ok_bind, read_ok (by omega), ok_bind]
  dsimp only
  split
  · exact safe_ok
  · rename_i p hp
    have hlen : p.length = 96 := by rw [hk.boxOpen _ _ _ _ _ hp, length_append, hbox, zeros_length, boxZeroBytes]
    have hz : zeroBytes = 32 := rfl
    rw [into_ok (by omega), ok_bind]
    exact Safe.bind (safe_read.mpr (by omega)) fun _ _ => safe_ok

theorem safe_ask (m : CurveServer) (clientKey : List UInt8) : Safe (m.ask clientKey) := by
  refine Safe.bind (Safe.bind (Safe.bind (ZapSession.safe_writeFrames _ _) fun _ _ => safe_ok) fun _ _ => safe_ok) fun m1 _ => ?_
  refine Safe.bind (Safe.bind (ZapMechanism.safe_receive _ _) fun _ _ => safe_ok) fun x _ => ?_
  obtain ⟨rc, m2⟩ := x
  rcases rc with _ | e
  · exact safe_ok
  · cases e <;> exact safe_ok

theorem safe_settle (h : zeroBytes + 128 ≤ data.length) : Safe (m.settle data) := by
  refine Safe.bind (safe_read.mpr (by omega)) fun clientKey _ => ?_
  refine Safe.bind (ZapSession.safe_zapConnect _) fun x _ => ?_
  obtain ⟨rc, session⟩ := x
  dsimp only
  split_ifs
  all_goals
    refine Safe.bind (by first | exact safe_ask _ _ | exact safe_ok) fun y _ => ?_
    obtain ⟨rc, m⟩ := y
    cases rc with
    | error e => exact safe_ok
    | ok =>
      obtain ⟨rc, base, hp⟩ := Metadata.exists_parseMetadata Metadata.property m.base (data.drop (zeroBytes + 128)) false
      dsimp only
      rw [hp]
      exact safe_ok

theorem safe_processInitiate (hk : crypto.KeepsLength)
    (h : data.length ≤ initiateCapacity ∨ data.take 9 ≠ initiateName ∨ m.ownCookie crypto data = false) :
    Safe (m.processInitiate crypto data) := by
  unfold processInitiate
  split_ifs with hshort hname
  · exact safe_ok
  · exact safe_ok
  rw [checkCookie_eq hk (by omega), ok_bind]
  cases hc : m.ownCookie crypto data with
  | false => exact safe_ok
  | true =>
    have hlen : data.length ≤ 513 := h.resolve_right (by simp [not_not.mp hname, hc])
    rw [if_pos rfl, received_ok (by rw [length_drop]; omega), ok_bind, read_ok (by omega), ok_bind]
    dsimp only
    split
    · exact safe_ok
    · rename_i p hp
      have hplen : p.length = 16 + (data.length - 113) := by
        rw [hk.boxOpen _ _ _ _ _ hp, length_append, zeros_length, length_drop, boxZeroBytes]
      have hroom : zeroBytes + 128 ≤ p.length := by
        rw [zeroBytes]
        omega
      rw [into_ok (by rw [zeroBytes]; omega), ok_bind]
      refine Safe.bind (safe_checkVouch hk hroom) fun vouched _ => ?_
      split_ifs
      · exact safe_settle hroom
      · exact safe_ok

theorem processInitiate_rejects (hk : crypto.KeepsLength) (h : data.take 9 ≠ initiateName ∨ m.ownCookie crypto data = false) :
    m.processInitiate crypto data = .ok (.error .eproto, m) := by
  unfold processInitiate
  split_ifs with hshort hname
  · rfl
  · rfl
  rw [checkCookie_eq hk (by omega), h.resolve_left hname]
  rfl

theorem processInitiate_overflows (hk : crypto.KeepsLength) (hlen : initiateCapacity < data.length)
    (hname : data.take 9 = initiateName) (hc : m.ownCookie crypto data = true) :
    m.processInitiate crypto data = .error .outOfBounds := by
  rw [initiateCapacity] at hlen
  unfold processInitiate
  rw [if_neg (by omega), if_neg (not_not.mpr hname), checkCookie_eq hk (by omega), hc]
  rw [received_error (by rw [length_drop]; omega) (by omega)]
  rfl

end CurveServer

namespace CurveClient

open Curve

variable {crypto : Crypto} {m : CurveClient} {data : List UInt8}

/-- The bytes of a READY for which `process_ready` has room. -/
def readyCapacity : ℕ := 14 + (16 + 256)

theorem safe_processWelcome (hk : crypto.KeepsLength) : Safe (m.processWelcome crypto data) := by
  unfold processWelcome
  split_ifs with hsize
  · exact safe_ok
  have hbox : ((data.drop 24).take 144).length = 144 := by
    rw [length_take, length_drop]
    omega
  rw [read_ok (by omega), ok_bind, received_ok (by omega), ok_bind, read_ok (by omega), ok_bind]
  dsimp only
  split
  · exact safe_ok
  · rename_i p hp
    have hplen : p.length = 160 := by rw [hk.boxOpen _ _ _ _ _ hp, length_append, hbox, zeros_length, boxZeroBytes]
    have hz : zeroBytes = 32 := rfl
    rw [into_ok (by omega), ok_bind, read_ok (by omega), read_ok (by omega)]
    exact safe_ok

theorem safe_processReady (hk : crypto.KeepsLength) (h : data.length ≤ readyCapacity) : Safe (m.processReady crypto data) := by
  rw [readyCapacity] at h
  unfold processReady
  split_ifs with hsize
  · exact safe_ok
  rw [received_ok (by rw [length_drop]; omega), ok_bind]
  dsimp only
  split
  · exact safe_ok
  · rename_i p hp
    have hplen : p.length = 16 + (data.length - 14) := by
      rw [hk.openAfternm _ _ _ _ hp, length_append, zeros_length, length_drop, boxZeroBytes]
    obtain ⟨rc, base, hparse⟩ := Metadata.exists_parseMetadata Metadata.property m.base (p.drop zeroBytes) false
    rw [into_ok (by rw [zeroBytes]; omega), ok_bind, hparse]
    exact safe_ok

theorem processReady_overflows (hlen : readyCapacity < data.length) : m.processReady crypto data = .error .outOfBounds := by
  rw [readyCapacity] at hlen
  unfold processReady
  rw [if_neg (by omega), received_error (by rw [length_drop]; omega) (by omega)]
  rfl

theorem safe_processHandshakeCommand {msg : Msg} (hk : crypto.KeepsLength)
    (h : msg.data.take 6 ≠ readyName ∨ msg.data.length ≤ readyCapacity) : Safe (m.processHandshakeCommand crypto msg) := by
  unfold processHandshakeCommand
  split_ifs with hwelcome hready
  · exact safe_processWelcome hk
  · exact safe_processReady hk (h.resolve_left (not_not.mpr hready))
  · exact safe_ok
  · exact safe_ok

theorem ready_not_welcome (h : data.take 6 = readyName) : data.take 8 ≠ welcomeName := by
  intro hc
  have := congrArg (take 6) hc
  rw [take_take, Nat.min_eq_left (by omega), h] at this
  exact absurd this (by decide)

end CurveClient

namespace Curve

variable {crypto : Crypto} {server : CurveServer}

/-- Nothing leaves its array while a server that expects INITIATE and a client process what they receive, and an INITIATE
or a READY that there is no room for is refused, if and only if the INITIATE fits or shows no cookie of the connection,
and the READY fits. -/
theorem commands_within_buffers (hk : crypto.KeepsLength) (hs : server.state = .expectInitiate) (client : CurveClient)
    (msg : Msg) : ((server.processHandshakeCommand crypto msg ≠ .error .outOfBounds ∧
        (CurveServer.initiateCapacity < msg.data.length →
          ∃ s, server.processHandshakeCommand crypto msg = .ok (.error .eproto, s))) ↔
      (msg.data.length ≤ CurveServer.initiateCapacity ∨ msg.data.take 9 ≠ initiateName ∨
        server.ownCookie crypto msg.data = false)) ∧ ((client.processHandshakeCommand crypto msg ≠ .error .outOfBounds ∧
        (msg.data.take 6 = readyName → CurveClient.readyCapacity < msg.data.length →
          ∃ c, client.processHandshakeCommand crypto msg = .ok (.error .eproto, c))) ↔
      (msg.data.take 6 ≠ readyName ∨ msg.data.length ≤ CurveClient.readyCapacity)) := by
  have hserver : server.processHandshakeCommand crypto msg = server.processInitiate crypto msg.data := by
    unfold CurveServer.processHandshakeCommand
    rw [hs]
  rw [hserver]
  constructor
  · constructor
    · rintro ⟨hsafe, -⟩
      by_contra hc
      simp only [not_or, Nat.not_le, not_not, Bool.not_eq_false] at hc
      exact hsafe (CurveServer.processInitiate_overflows hk hc.1 hc.2.1 hc.2.2)
    · exact fun h => ⟨CurveServer.safe_processInitiate hk h, fun hlong =>
        ⟨server, CurveServer.processInitiate_rejects hk (h.resolve_left (Nat.not_le.mpr hlong))⟩⟩
  · constructor
    · rintro ⟨hsafe, -⟩
      by_contra hc
      simp only [not_or, Nat.not_le, not_not] at hc
      refine hsafe ?_
      unfold CurveClient.processHandshakeCommand
      rw [if_neg (CurveClient.ready_not_welcome hc.1), if_pos hc.1]
      exact CurveClient.processReady_overflows hc.2
    · exact fun h => ⟨CurveClient.safe_processHandshakeCommand hk h, fun hready hlong =>
        absurd hlong (Nat.not_lt.mpr (h.resolve_left (not_not.mpr hready)))⟩

theorem commands_within_buffers_clear :
    let server : CurveServer := { CurveServer.new (.new 5) (.new false) [] [] [] [] with state := .expectInitiate }
    let client : CurveClient := CurveClient.new (.new 5) [] [] [] [] []
    let msg := Msg.ofData (readyName ++ zeros 300)
    ((server.processHandshakeCommand .clear msg ≠ .error .outOfBounds ∧ (CurveServer.initiateCapacity < msg.data.length →
          ∃ s, server.processHandshakeCommand .clear msg = .ok (.error .eproto, s))) ↔
      (msg.data.length ≤ CurveServer.initiateCapacity ∨ msg.data.take 9 ≠ initiateName ∨
        server.ownCookie .clear msg.data = false)) ∧
    ((client.processHandshakeCommand .clear msg ≠ .error .outOfBounds ∧
        (msg.data.take 6 = readyName → CurveClient.readyCapacity < msg.data.length →
          ∃ c, client.processHandshakeCommand .clear msg = .ok (.error .eproto, c))) ↔
      (msg.data.take 6 ≠ readyName ∨ msg.data.length ≤ CurveClient.readyCapacity)) :=
  commands_within_buffers Crypto.clear_keepsLength rfl _ _

/-- One byte of metadata more than there is room for. -/
theorem long_initiate_overflows :
    let server : CurveServer := { CurveServer.new (.new 5) (.new false) [] [] [] (zeros 32) with
      state := .expectInitiate
      cnClient := zeros 32 }
    server.processHandshakeCommand .clear (.ofData (initiateName ++ zeros 505)) = .error .outOfBounds :=
  CurveServer.processInitiate_overflows Crypto.clear_keepsLength (by decide +kernel) (by decide +kernel) (by decide +kernel)

end Curve

end Zmq
