import LibZmq.Zmtp.Engine
import Mathlib.Data.Nat.Bitwise

/-! The TTL of the heartbeats on its way from the option to the timer of the peer: milliseconds, tenths of a second in
16 bits, network byte order and milliseconds again, in 16 bits. -/

namespace Zmq

open Option

/-- `setsockopt` with `ZMQ_HEARTBEAT_TTL`: the TTL that is stored, or EINVAL. -/
def setHeartbeatTtl (isInt : Bool) (value : Int32) : Option UInt16 :=
  let value := value / 100
  if isInt = true ∧ 0 ≤ value ∧ value ≤ 6553 then some (UInt16.ofNat value.toInt.toNat) else none

/-- The PING that `produce_ping_message` builds. -/
def pingMsg (ttl : UInt16) : Msg :=
  (Msg.ofData (pingName ++ [(ttl >>> 8).toUInt8, ttl.toUInt8])).setFlags Msg.command

/-- The interval of the TTL timer that a message arms; the engine has cancelled the one before it. -/
def ttlTimer (m : Msg) : Except EngineFault (Option ℤ) :=
  (Engine.commandInterval m).map fun interval => (interval.filter (0 < ·)).map fun ttl => (ttl.toNat : ℤ)

/-- What a TTL in milliseconds asks for: its tenths of a second, and no timer for none. -/
def wantedTimer (value : ℤ) : Option ℤ :=
  if value / 100 * 100 = 0 then none else some (value / 100 * 100)

theorem getUint16_put (n : UInt16) : getUint16 [(n >>> 8).toUInt8, n.toUInt8] = n := by
  have hn := n.toNat_lt
  have hhigh : n.toNat / 2 ^ 8 % 2 ^ 8 = n.toNat / 2 ^ 8 := Nat.mod_eq_of_lt (by omega)
  have hshift : (n.toNat / 2 ^ 8) <<< 8 % 2 ^ 16 = (n.toNat / 2 ^ 8) <<< 8 :=
    Nat.mod_eq_of_lt (by rw [Nat.shiftLeft_eq]; omega)
  apply UInt16.toNat_inj.mp
  calc (getUint16 [(n >>> 8).toUInt8, n.toUInt8]).toNat
      = (n.toNat / 2 ^ 8 % 2 ^ 8) <<< 8 % 2 ^ 16 ||| n.toNat % 2 ^ 8 := by
        simp [getUint16, UInt16.toNat_shiftLeft, UInt16.toNat_shiftRight, Nat.shiftRight_eq_div_pow]
    _ = (n.toNat / 2 ^ 8) <<< 8 ||| n.toNat % 2 ^ 8 := by rw [hhigh, hshift]
    _ = n.toNat := by
        rw [← Nat.shiftLeft_add_eq_or_of_lt (by omega), Nat.shiftLeft_eq]
        omega

theorem commandInterval_pingMsg (ttl : UInt16) : Engine.commandInterval (pingMsg ttl) = .ok (some (ttl * 100)) := by
  have hread : ∀ b0 b1, processCommand (pingName ++ [b0, b1]) = .ok (some (getUint16 [b0, b1] * 100)) :=
    fun b0 b1 => rfl
  have hflags : (pingMsg ttl).flags = Msg.command := UInt8.zero_or
  have hcommand : (pingMsg ttl).isCommand = true := by
    unfold Msg.isCommand
    rw [hflags]
    rfl
  have hdata : (pingMsg ttl).data = pingName ++ [(ttl >>> 8).toUInt8, ttl.toUInt8] := rfl
  unfold Engine.commandInterval
  rw [if_pos hcommand, hdata, hread, getUint16_put]
  rfl

theorem tdiv_hundred (value : ℤ) : 0 ≤ value ∧ value.tdiv 100 = value / 100 ∨ value < 0 ∧ value.tdiv 100 = -(-value / 100) := by
  by_cases hnonneg : 0 ≤ value
  · exact .inl ⟨hnonneg, Int.tdiv_eq_ediv_of_nonneg hnonneg⟩
  · refine .inr ⟨by omega, ?_⟩
    rw [← Int.tdiv_eq_ediv_of_nonneg (by omega), Int.neg_tdiv, neg_neg]

theorem setHeartbeatTtl_eq_some {value : Int32} {ttl : UInt16} (hset : setHeartbeatTtl true value = some ttl) :
    -100 < value.toInt ∧ value.toInt < 655400 ∧ (ttl.toNat : ℤ) = value.toInt.tdiv 100 := by
  have hdiv : (value / 100).toInt = value.toInt.tdiv 100 := Int32.toInt_div_of_ne_right value 100 (by decide)
  simp only [setHeartbeatTtl, true_and, ite_none_right_eq_some, some.injEq, Int32.le_iff_toInt_le, hdiv] at hset
  obtain ⟨⟨hnonneg, hle⟩, rfl⟩ := hset
  have hnonneg : 0 ≤ value.toInt.tdiv 100 := hnonneg
  have hle : value.toInt.tdiv 100 ≤ 6553 := hle
  have hstored : ((UInt16.ofNat (value.toInt.tdiv 100).toNat).toNat : ℤ) = value.toInt.tdiv 100 := by
    rw [UInt16.toNat_ofNat_of_lt' (by show _ < 2 ^ 16; omega), Int.toNat_of_nonneg hnonneg]
  have hcases := tdiv_hundred value.toInt
  exact ⟨by omega, by omega, hstored⟩

theorem interval_iff {value : ℤ} {ttl : UInt16} (hlow : -100 < value) (hhigh : value < 655400)
    (httl : (ttl.toNat : ℤ) = value.tdiv 100) :
    ((some (ttl * 100)).filter (0 < ·)).map (fun ttl => (ttl.toNat : ℤ)) = wantedTimer value ↔ 0 ≤ value ∧ value < 65600 := by
  have hmul : (ttl * 100).toNat = ttl.toNat * 100 % 65536 := UInt16.toNat_mul ttl 100
  have hpos : 0 < ttl * 100 ↔ 0 < ttl.toNat * 100 % 65536 := by
    rw [UInt16.lt_iff_toNat_lt, hmul]
    rfl
  have hcases := tdiv_hundred value
  by_cases harmed : 0 < ttl * 100
  · have htimer := hpos.mp harmed
    rw [filter_some_pos (by simpa using harmed), map_some, hmul, wantedTimer]
    split_ifs with hnone
    · refine iff_of_false nofun ?_
      omega
    · rw [some.injEq]
      omega
  · have htimer : ¬ 0 < ttl.toNat * 100 % 65536 := fun h => harmed (hpos.mpr h)
    rw [filter_some_neg (by simpa using harmed), map_none, wantedTimer]
    split_ifs with hnone
    · refine iff_of_true rfl ?_
      omega
    · refine iff_of_false nofun ?_
      omega

/-- The peer arms the timer that an accepted TTL asks for if and only if the TTL is not negative and its hundreds of
milliseconds fit in 16 bits. -/
theorem ttl_survives_iff {value : Int32} {ttl : UInt16} (hset : setHeartbeatTtl true value = some ttl) :
    ttlTimer (pingMsg ttl) = .ok (wantedTimer value.toInt) ↔ 0 ≤ value.toInt ∧ value.toInt < 65600 := by
  obtain ⟨hlow, hhigh, httl⟩ := setHeartbeatTtl_eq_some hset
  have htimer : ttlTimer (pingMsg ttl) = .ok (((some (ttl * 100)).filter (0 < ·)).map fun ttl => (ttl.toNat : ℤ)) := by
    unfold ttlTimer
    rw [commandInterval_pingMsg]
    rfl
  rw [htimer, Except.ok.injEq]
  exact interval_iff hlow hhigh httl

theorem ttl_survives_second : setHeartbeatTtl true 1050 = some 10 ∧ ttlTimer (pingMsg 10) = .ok (some 1000) := by
  have hset : setHeartbeatTtl true 1050 = some 10 := by decide
  exact ⟨hset, (ttl_survives_iff hset).mpr (by decide)⟩

/-- A TTL of more than a minute, which has 64 ms left when it arrives. -/
theorem ttl_overflows : setHeartbeatTtl true 65600 = some 656 ∧ ttlTimer (pingMsg 656) = .ok (some 64) ∧
      ttlTimer (pingMsg 656) ≠ .ok (wantedTimer 65600) :=
  ⟨by decide, by decide, by decide⟩

end Zmq
