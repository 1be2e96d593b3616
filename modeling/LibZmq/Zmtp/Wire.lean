import LibZmq.Msg

/-! Integers in network byte order. -/

namespace Zmq

open Nat

def putUint32 (value : UInt32) : List UInt8 :=
  [(value >>> 24).toUInt8, (value >>> 16).toUInt8, (value >>> 8).toUInt8, value.toUInt8]

def putUint64 (value : UInt64) : List UInt8 :=
  [((value >>> 56) &&& 0xff).toUInt8, ((value >>> 48) &&& 0xff).toUInt8,
    ((value >>> 40) &&& 0xff).toUInt8, ((value >>> 32) &&& 0xff).toUInt8,
    ((value >>> 24) &&& 0xff).toUInt8, ((value >>> 16) &&& 0xff).toUInt8,
    ((value >>> 8) &&& 0xff).toUInt8, (value &&& 0xff).toUInt8]

def getUint32 : List UInt8 → UInt32
  | b0 :: b1 :: b2 :: b3 :: _ =>
    (b0.toUInt32 <<< 24) ||| (b1.toUInt32 <<< 16) ||| (b2.toUInt32 <<< 8) ||| b3.toUInt32
  | _ => 0

def getUint64 : List UInt8 → UInt64
  | b0 :: b1 :: b2 :: b3 :: b4 :: b5 :: b6 :: b7 :: _ =>
    (b0.toUInt64 <<< 56) ||| (b1.toUInt64 <<< 48) ||| (b2.toUInt64 <<< 40) ||| (b3.toUInt64 <<< 32) |||
      (b4.toUInt64 <<< 24) ||| (b5.toUInt64 <<< 16) ||| (b6.toUInt64 <<< 8) ||| b7.toUInt64
  | _ => 0

theorem byte_testBit (value k : UInt64) (hk : k.toNat ≤ 56) (i : ℕ) :
    (((value >>> k) &&& 0xff).toUInt8.toUInt64 <<< k).toNat.testBit i =
      (decide (k.toNat ≤ i ∧ i < k.toNat + 8) && value.toNat.testBit i) := by
  have hbyte : ((value >>> k) &&& 0xff).toUInt8.toNat = (value.toNat >>> k.toNat) % 2 ^ 8 := by
    rw [UInt64.toNat_toUInt8, UInt64.toNat_and, UInt64.toNat_shiftRight,
      mod_eq_of_lt (show k.toNat < 64 by omega)]
    change (_ &&& (2 ^ 8 - 1)) % 2 ^ 8 = _
    rw [and_two_pow_sub_one_eq_mod, mod_mod]
  rw [UInt64.toNat_shiftLeft, UInt8.toNat_toUInt64, hbyte, mod_eq_of_lt (show k.toNat < 64 by omega),
    testBit_mod_two_pow, testBit_shiftLeft, testBit_mod_two_pow]
  by_cases hi : k.toNat ≤ i
  · by_cases hi8 : i < k.toNat + 8
    · simp [hi, hi8, show k.toNat + (i - k.toNat) = i by omega, show i < 64 by omega,
        show i - k.toNat < 8 by omega]
    · simp [hi8, show ¬ i - k.toNat < 8 by omega]
  · simp [hi]

theorem get_put_uint64 (value : UInt64) : getUint64 (putUint64 value) = value := by
  apply UInt64.toNat_inj.mp
  apply eq_of_testBit_eq
  intro i
  have h0 := byte_testBit value 0 (by decide) i
  simp only [UInt64.shiftRight_zero, UInt64.shiftLeft_zero] at h0
  simp only [putUint64, getUint64, UInt64.toNat_or, testBit_or, h0, byte_testBit value 56 (by decide),
    byte_testBit value 48 (by decide), byte_testBit value 40 (by decide), byte_testBit value 32 (by decide),
    byte_testBit value 24 (by decide), byte_testBit value 16 (by decide), byte_testBit value 8 (by decide),
    ← Bool.and_or_distrib_right]
  by_cases hi : i < 64
  · rw [← Bool.true_and (value.toNat.testBit i)]
    congr 1
    simp only [UInt64.reduceToNat, ← Bool.decide_or, decide_eq_true_eq]
    omega
  · rw [Nat.testBit_lt_two_pow (Nat.lt_of_lt_of_le value.toNat_lt
      (Nat.pow_le_pow_right (by decide) (by omega))), Bool.and_false]

theorem get_put_size {n : ℕ} (h : n < 2 ^ 64) : (getUint64 (putUint64 (UInt64.ofNat n))).toNat = n := by
  rw [get_put_uint64]
  exact mod_eq_of_lt h

theorem toUInt8_testBit (value k : UInt32) (hk : k.toNat < 32) (i : ℕ) :
    (value >>> k).toUInt8.toNat.testBit i = (decide (i < 8) && value.toNat.testBit (k.toNat + i)) := by
  rw [UInt32.toNat_toUInt8, UInt32.toNat_shiftRight, mod_eq_of_lt hk, testBit_mod_two_pow, testBit_shiftRight]

theorem toUInt32_testBit (b : UInt8) (k : UInt32) (hk : k.toNat ≤ 24) (i : ℕ) :
    (b.toUInt32 <<< k).toNat.testBit i = (decide (k.toNat ≤ i) && b.toNat.testBit (i - k.toNat)) := by
  have hb : b.toNat < 2 ^ 8 := b.toNat_lt
  have hlt : b.toNat <<< k.toNat < 2 ^ 32 := by
    rw [shiftLeft_eq]
    calc b.toNat * 2 ^ k.toNat ≤ b.toNat * 2 ^ 24 := Nat.mul_le_mul_left _ (Nat.pow_le_pow_right (by decide) hk)
      _ < 2 ^ 32 := by omega
  rw [UInt32.toNat_shiftLeft, UInt8.toNat_toUInt32, mod_eq_of_lt (show k.toNat < 32 by omega), mod_eq_of_lt hlt,
    testBit_shiftLeft]

theorem byte_testBit_out (b : UInt8) {i : ℕ} (h : 8 ≤ i) : b.toNat.testBit i = false :=
  Nat.testBit_lt_two_pow (Nat.lt_of_lt_of_le b.toNat_lt (Nat.pow_le_pow_right (by decide) h))

theorem getUint32_testBit (b0 b1 b2 b3 : UInt8) (bytes : List UInt8) (i : ℕ) :
    (getUint32 (b0 :: b1 :: b2 :: b3 :: bytes)).toNat.testBit i =
      if i < 8 then b3.toNat.testBit i else if i < 16 then b2.toNat.testBit (i - 8)
      else if i < 24 then b1.toNat.testBit (i - 16) else b0.toNat.testBit (i - 24) := by
  simp only [getUint32, UInt32.toNat_or, testBit_or, toUInt32_testBit b0 24 (by decide),
    toUInt32_testBit b1 16 (by decide), toUInt32_testBit b2 8 (by decide), UInt32.reduceToNat]
  split_ifs with h8 h16 h24
  · simp [show ¬ 24 ≤ i by omega, show ¬ 16 ≤ i by omega, show ¬ 8 ≤ i by omega]
  · simp [show ¬ 24 ≤ i by omega, show ¬ 16 ≤ i by omega, show 8 ≤ i by omega, byte_testBit_out b3 (show 8 ≤ i by omega)]
  · simp [show ¬ 24 ≤ i by omega, show 16 ≤ i by omega, byte_testBit_out b3 (show 8 ≤ i by omega),
      byte_testBit_out b2 (show 8 ≤ i - 8 by omega)]
  · simp [show 24 ≤ i by omega, byte_testBit_out b3 (show 8 ≤ i by omega),
      byte_testBit_out b2 (show 8 ≤ i - 8 by omega), byte_testBit_out b1 (show 8 ≤ i - 16 by omega)]

theorem get_put_uint32 (value : UInt32) (bytes : List UInt8) : getUint32 (putUint32 value ++ bytes) = value := by
  apply UInt32.toNat_inj.mp
  apply eq_of_testBit_eq
  intro i
  have h0 := toUInt8_testBit value 0 (by decide)
  simp only [UInt32.shiftRight_zero, UInt32.toNat_zero] at h0
  simp only [putUint32, List.cons_append, List.nil_append]
  rw [getUint32_testBit]
  simp only [h0, toUInt8_testBit value 8 (by decide), toUInt8_testBit value 16 (by decide),
    toUInt8_testBit value 24 (by decide), UInt32.reduceToNat]
  split_ifs with h8 h16 h24
  · simp [h8]
  · simp [show i - 8 < 8 by omega, show 8 + (i - 8) = i by omega]
  · simp [show i - 16 < 8 by omega, show 16 + (i - 16) = i by omega]
  · by_cases hi : i < 32
    · simp [show i - 24 < 8 by omega, show 24 + (i - 24) = i by omega]
    · rw [testBit_lt_two_pow
        (Nat.lt_of_lt_of_le value.toNat_lt (Nat.pow_le_pow_right (by decide) (show 32 ≤ i by omega)))]
      simp [show ¬ i - 24 < 8 by omega]

theorem put_get_uint32 (b0 b1 b2 b3 : UInt8) (bytes : List UInt8) :
    putUint32 (getUint32 (b0 :: b1 :: b2 :: b3 :: bytes)) = [b0, b1, b2, b3] := by
  have hbyte : ∀ {x b : UInt8}, (∀ i < 8, x.toNat.testBit i = b.toNat.testBit i) → x = b := fun {x b} h => by
    apply UInt8.toNat_inj.mp
    apply eq_of_testBit_eq
    intro i
    by_cases hi : i < 8
    · exact h i hi
    · rw [byte_testBit_out x (by omega), byte_testBit_out b (by omega)]
  have h0 := toUInt8_testBit (getUint32 (b0 :: b1 :: b2 :: b3 :: bytes)) 0 (by decide)
  simp only [UInt32.shiftRight_zero, UInt32.toNat_zero] at h0
  unfold putUint32
  congr 1
  · refine hbyte fun i hi => ?_
    rw [toUInt8_testBit _ 24 (by decide), getUint32_testBit]
    simp [hi, show ¬ 24 + i < 8 by omega, show ¬ 24 + i < 16 by omega, show ¬ 24 + i < 24 by omega]
  congr 1
  · refine hbyte fun i hi => ?_
    rw [toUInt8_testBit _ 16 (by decide), getUint32_testBit]
    simp [hi, show ¬ 16 + i < 8 by omega, show ¬ 16 + i < 16 by omega, show 16 + i < 24 by omega]
  congr 1
  · refine hbyte fun i hi => ?_
    rw [toUInt8_testBit _ 8 (by decide), getUint32_testBit]
    simp [hi, show ¬ 8 + i < 8 by omega, show 8 + i < 16 by omega]
  congr 1
  refine hbyte fun i hi => ?_
  rw [h0, getUint32_testBit]
  simp [hi]

end Zmq
