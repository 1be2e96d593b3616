import LibZmq.Run
import LibZmq.Tcp.TcpAddress

/-! `tcp_address_mask_t`, an accept filter. -/

namespace Zmq

inductive MaskFault where
  | assertion
  | outOfBounds

structure TcpAddressMask where
  address : SockAddr
  addressMask : ℤ
deriving DecidableEq

/-- The bits of an address in the order of the network, the highest one of a byte first. -/
def bit (bytes : List UInt8) (i : ℕ) : Option Bool := bytes[i / 8]?.map fun b => b.toNat.testBit (7 - i % 8)

namespace TcpAddressMask

/-- The address and the mask, which is empty when there is none; `none` is -1. -/
def splitMask (name : List UInt8) : Option (List UInt8 × List UInt8) :=
  match splitLast 47 name with
  | none => some (name, [])
  | some (addrStr, maskStr) => if maskStr = [] then none else some (addrStr, maskStr)

/-- `none` is -1; `resolveHostname` is `none` where no address is found. -/
def resolve (resolveHostname : List UInt8 → Bool → Option SockAddr) (name : List UInt8) (ipv6 : Bool) : Option TcpAddressMask := do
  let (addrStr, maskStr) ← splitMask name
  let address ← resolveHostname addrStr ipv6
  if maskStr = [] then some ⟨address, if address.family = .inet6 then 128 else 32⟩
  else if maskStr = [48] then some ⟨address, 0⟩
  else
    let mask := atoi maskStr
    if mask < 1 ∨ address.family = .inet6 ∧ 128 < mask ∨ address.family ≠ .inet6 ∧ 32 < mask then none
    else some ⟨address, mask⟩

def first (n : ℕ) (bytes : List UInt8) : Except MaskFault (List UInt8) :=
  if n ≤ bytes.length then .ok (bytes.take n) else .error .outOfBounds

def byte (i : ℕ) (bytes : List UInt8) : Except MaskFault UInt8 :=
  match bytes[i]? with
  | some b => .ok b
  | none => .error .outOfBounds

/-- `0xffU << (8 - mask % 8)`, cut to a byte -/
def lastByteBits (mask : ℕ) : UInt8 := UInt8.ofNat (0xff <<< (8 - mask % 8))

def matchAddress (t : TcpAddressMask) (ss : SockAddr) : Except MaskFault Bool :=
  if t.addressMask = -1 then .error .assertion
  else if ss.family ≠ t.address.family then .ok false
  else if 0 < t.addressMask then do
    let mask := ss.family.size * 8
    let mask := if t.addressMask < mask then t.addressMask.toNat else mask
    let fullBytes := mask / 8
    if (← first fullBytes t.address.bytes) ≠ (← first fullBytes ss.bytes) then return false
    if lastByteBits mask ≠ 0 then
      if (← byte fullBytes ss.bytes) &&& lastByteBits mask ≠ (← byte fullBytes t.address.bytes) &&& lastByteBits mask then
        return false
    return true
  else .ok true

variable {t : TcpAddressMask} {a b : UInt8} {l l' : List UInt8} {n : ℕ}

theorem byte_ext : a = b ↔ ∀ k < 8, a.toNat.testBit (7 - k) = b.toNat.testBit (7 - k) := by
  refine ⟨fun h _ _ => by rw [h], fun h => UInt8.toNat_inj.mp (Nat.eq_of_testBit_eq fun i => ?_)⟩
  by_cases hi : i < 8
  · have := h (7 - i) (by omega)
    rwa [show 7 - (7 - i) = i by omega] at this
  · have hbig : ∀ c : UInt8, c.toNat.testBit i = false := fun c =>
      Nat.testBit_lt_two_pow (Nat.lt_of_lt_of_le c.toNat_lt (Nat.pow_le_pow_right (by decide) (by omega)))
    rw [hbig, hbig]

theorem lastByteBits_testBit {k : ℕ} (hk : k < 8) : (lastByteBits n).toNat.testBit (7 - k) = decide (k < n % 8) := by
  have hall : ∀ r < 8, ∀ k < 8, (UInt8.ofNat (0xff <<< (8 - r))).toNat.testBit (7 - k) = decide (k < r) := by decide
  exact hall _ (Nat.mod_lt _ (by decide)) k hk

theorem and_lastByteBits : a &&& lastByteBits n = b &&& lastByteBits n ↔
    ∀ k < n % 8, a.toNat.testBit (7 - k) = b.toNat.testBit (7 - k) := by
  rw [byte_ext]
  constructor
  · intro h k hk
    have hbit := h k (by omega)
    simpa [lastByteBits_testBit (show k < 8 by omega), hk] using hbit
  · intro h k hk
    rw [UInt8.toNat_and, UInt8.toNat_and, Nat.testBit_and, Nat.testBit_and, lastByteBits_testBit hk]
    by_cases hlt : k < n % 8
    · rw [h k hlt]
    · simp [hlt]

theorem bits_iff (hl : n ≤ 8 * l.length) (hlen : l.length = l'.length) : (∀ i < n, bit l i = bit l' i) ↔
    l.take (n / 8) = l'.take (n / 8) ∧ ∀ k < n % 8, bit l (8 * (n / 8) + k) = bit l' (8 * (n / 8) + k) := by
  constructor
  · refine fun h => ⟨List.ext_getElem? fun j => ?_, fun k hk => h _ (by omega)⟩
    simp only [List.getElem?_take]
    split_ifs with hj
    · rw [List.getElem?_eq_getElem (by omega), List.getElem?_eq_getElem (by omega), Option.some_inj]
      refine byte_ext.mpr fun k hk => ?_
      have hbit := h (8 * j + k) (by omega)
      simpa [bit, show (8 * j + k) / 8 = j by omega, show (8 * j + k) % 8 = k by omega, show j < l.length by omega,
        show j < l'.length by omega] using hbit
    · rfl
  · rintro ⟨htake, hlast⟩ i hi
    by_cases hj : i / 8 < n / 8
    · have := congrArg (·[i / 8]?) htake
      simp only [List.getElem?_take_of_lt hj] at this
      rw [bit, bit, this]
    · have := hlast (i % 8) (by omega)
      rwa [show 8 * (n / 8) + i % 8 = i by omega] at this

theorem resolve_mask {resolveHostname : List UInt8 → Bool → Option SockAddr} {name : List UInt8} {ipv6 : Bool}
    (h : resolve resolveHostname name ipv6 = some t) : 0 ≤ t.addressMask ∧ t.addressMask ≤ 8 * t.address.family.size := by
  unfold resolve at h
  obtain ⟨⟨addrStr, maskStr⟩, -, h⟩ := Option.bind_eq_some_iff.mp h
  obtain ⟨address, -, h⟩ := Option.bind_eq_some_iff.mp h
  cases hf : address.family with
  | inet =>
    simp only [hf, reduceCtorEq, if_false, false_and, ne_eq, not_false_eq_true, true_and, false_or] at h
    split_ifs at h <;> cases h <;> simp only [hf, Family.size] <;> omega
  | inet6 =>
    simp only [hf, if_true, true_and, ne_eq, not_true_eq_false, false_and, or_false] at h
    split_ifs at h <;> cases h <;> simp only [hf, Family.size] <;> omega

/-- A peer passes a filter exactly when the families are the same and so are the bits that the mask covers; what is
compared is inside of both addresses. -/
theorem matchAddress_exact {resolveHostname : List UInt8 → Bool → Option SockAddr} {name : List UInt8} {ipv6 : Bool}
    (h : resolve resolveHostname name ipv6 = some t) (ss : SockAddr) :
    ∃ b, t.matchAddress ss = .ok b ∧ (b = true ↔ ss.family = t.address.family ∧
      ∀ i < t.addressMask.toNat, bit t.address.bytes i = bit ss.bytes i) := by
  obtain ⟨hpos, hle⟩ := resolve_mask h
  unfold matchAddress
  rw [if_neg (by omega)]
  by_cases hf : ss.family = t.address.family
  · have hl := t.address.sized
    have hlen : t.address.bytes.length = ss.bytes.length := by rw [hl, ss.sized, hf]
    rw [if_neg (not_not_intro hf)]
    by_cases hzero : 0 < t.addressMask
    · rw [if_pos hzero]
      have hmask : (if t.addressMask < (ss.family.size * 8 : ℕ) then t.addressMask.toNat else ss.family.size * 8) =
          t.addressMask.toNat := by
        rw [hf]
        split_ifs <;> omega
      dsimp only
      rw [hmask]
      obtain ⟨n, hn⟩ : ∃ n, t.addressMask.toNat = n := ⟨_, rfl⟩
      have hsize : n ≤ 8 * t.address.bytes.length := by omega
      have hfirst : ∀ l : List UInt8, l.length = t.address.bytes.length → first (n / 8) l = .ok (l.take (n / 8)) :=
        fun l hl => if_pos (by omega)
      rw [hn, hfirst _ rfl, hfirst _ hlen.symm]
      simp only [bind, Except.bind, pure, Except.pure]
      simp only [hf, true_and, bits_iff hsize hlen]
      by_cases htake : t.address.bytes.take (n / 8) = ss.bytes.take (n / 8)
      · rw [if_neg (not_not_intro htake)]
        simp only [htake, true_and]
        by_cases hlast : lastByteBits n = 0
        · have hnone : ∀ k < n % 8, False := fun k hk => by
            have := lastByteBits_testBit (n := n) (show k < 8 by omega)
            simp [hlast, hk] at this
          exact ⟨true, by rw [if_neg (not_not_intro hlast)], by simpa using fun k hk => (hnone k hk).elim⟩
        · have hlt : n / 8 < t.address.bytes.length := by
            by_contra hge
            have hmod : n % 8 = 0 := by omega
            exact hlast (by rw [lastByteBits, hmod]; rfl)
          have hbit : ∀ (l : List UInt8) (hl : n / 8 < l.length), ∀ k < n % 8,
              bit l (8 * (n / 8) + k) = some (l[n / 8].toNat.testBit (7 - k)) := fun l hl k hk => by
            simp [bit, show (8 * (n / 8) + k) / 8 = n / 8 by omega, show (8 * (n / 8) + k) % 8 = k by omega, hl]
          have hlt' : n / 8 < ss.bytes.length := by omega
          rw [if_pos hlast, byte, byte, List.getElem?_eq_getElem hlt, List.getElem?_eq_getElem hlt']
          refine ⟨decide (ss.bytes[n / 8] &&& lastByteBits n = t.address.bytes[n / 8] &&& lastByteBits n), ?_, ?_⟩
          · dsimp only
            split_ifs with hne
            · rw [decide_eq_false hne]
            · rw [decide_eq_true (not_not.mp hne)]
          · rw [decide_eq_true_iff, and_lastByteBits]
            refine forall₂_congr fun k hk => ?_
            rw [hbit _ hlt k hk, hbit _ hlt' k hk, Option.some_inj, eq_comm]
      · exact ⟨false, by rw [if_pos htake], by simp [htake]⟩
    · exact ⟨true, by rw [if_neg hzero], by simp [hf, show t.addressMask.toNat = 0 by omega]⟩
  · exact ⟨false, by rw [if_pos hf], by simp [hf]⟩

/-- Peers of 10.127.0.0/9, where names are found. -/
theorem matchAddress_exact_nine : ∃ b, (⟨⟨.inet, [10, 127, 0, 0], rfl, 0, 0⟩, 9⟩ : TcpAddressMask).matchAddress
      ⟨.inet, [10, 1, 2, 3], rfl, 80, 0⟩ = .ok b ∧ (b = true ↔ Family.inet = .inet ∧
      ∀ i < (9 : ℤ).toNat, bit [10, 127, 0, 0] i = bit [10, 1, 2, 3] i) :=
  @matchAddress_exact _ (fun _ _ => some ⟨.inet, [10, 127, 0, 0], rfl, 0, 0⟩) [110, 47, 57] false (by decide) _

end TcpAddressMask

end Zmq
