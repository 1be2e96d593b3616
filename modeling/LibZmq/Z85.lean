import LibZmq.Block
import LibZmq.Loop
import LibZmq.Radix
import Mathlib.Data.List.GetD
import Mathlib.Data.List.TakeWhile

/-! The Z85 codec. Both directions accumulate a value, group by group, and put it out in the other base. -/

namespace Zmq

open List UInt32 Nat Radix

namespace Z85

/-- Maps base 256 to base 85. -/
def encoder : List UInt8 :=
  ("0123456789" ++ "abcdefghij" ++ "klmnopqrst" ++ "uvwxyzABCD" ++ "EFGHIJKLMN" ++ "OPQRSTUVWX" ++ "YZ.-:+=^!/" ++
    "*?&<>()[]\x7b" ++ "\x7d@%$#").toList.map fun c => UInt8.ofNat c.toNat

/-- Maps base 85 to base 256, from the character 32 on. -/
def decoder : List UInt8 := [
  0x00, 0x44, 0x00, 0x54, 0x53, 0x52, 0x48, 0x00,
  0x4B, 0x4C, 0x46, 0x41, 0x00, 0x3F, 0x3E, 0x45,
  0x00, 0x01, 0x02, 0x03, 0x04, 0x05, 0x06, 0x07,
  0x08, 0x09, 0x40, 0x00, 0x49, 0x42, 0x4A, 0x47,
  0x51, 0x24, 0x25, 0x26, 0x27, 0x28, 0x29, 0x2A,
  0x2B, 0x2C, 0x2D, 0x2E, 0x2F, 0x30, 0x31, 0x32,
  0x33, 0x34, 0x35, 0x36, 0x37, 0x38, 0x39, 0x3A,
  0x3B, 0x3C, 0x3D, 0x4D, 0x00, 0x4E, 0x43, 0x00,
  0x00, 0x0A, 0x0B, 0x0C, 0x0D, 0x0E, 0x0F, 0x10,
  0x11, 0x12, 0x13, 0x14, 0x15, 0x16, 0x17, 0x18,
  0x19, 0x1A, 0x1B, 0x1C, 0x1D, 0x1E, 0x1F, 0x20,
  0x21, 0x22, 0x23, 0x4F, 0x00, 0x50, 0x00, 0x00]

/-- One direction. -/
structure Codec where
  /-- the base of what is read -/
  base : UInt32
  /-- how many bytes are read for a value -/
  group : UInt32
  digit : UInt8 → Except Crash UInt8
  /-- the base of what is put out -/
  outBase : UInt32
  /-- where `divisor` starts -/
  divisor : UInt32
  symbol : UInt32 → UInt8

/-- The variables of the loop; `inNbr` and `outNbr` are `byte_nbr` and `char_nbr` when bytes are encoded, and the other way
round when characters are decoded. -/
structure Conversion where
  dest : List UInt8
  inNbr : UInt32
  outNbr : UInt32
  value : UInt32

/-- The values of a divisor that is divided by `base` until it is zero, which takes fewer than `n` divisions. -/
def divisors (base : UInt32) : ℕ → UInt32 → List UInt32
  | 0, _ => []
  | n + 1, divisor => if divisor = 0 then [] else divisor :: divisors base n (divisor / base)

namespace Codec

/-- `dest [nbr++] = symbol (value / divisor % base)` -/
def output (c : Codec) (s : Conversion) (divisor : UInt32) : Except Crash Conversion :=
  if s.outNbr.toNat < s.dest.length then
    .ok { s with
      dest := s.dest.set s.outNbr.toNat (c.symbol (s.value / divisor % c.outBase)), outNbr := s.outNbr + 1 }
  else .error .outOfBounds

/-- One byte is read. -/
def round (c : Codec) (input : List UInt8) (s : Conversion) : Round Conversion (Except Crash Conversion) :=
  -- the index is an unsigned int, the size a size_t
  if h : s.inNbr.toNat < input.length then
    match c.digit input[s.inNbr.toNat] with
    | .error e => .done (.error e)
    | .ok digit =>
      let s := { s with value := s.value * c.base + digit.toUInt32, inNbr := s.inNbr + 1 }
      if s.inNbr % c.group = 0 then
        match (divisors c.outBase 32 c.divisor).foldlM c.output s with
        | .error e => .done (.error e)
        | .ok s => .again { s with value := 0 }
      else .again s
  else .done (.ok s)

/-- What the loop leaves. -/
def Converts (c : Codec) (dest input : List UInt8) : Except Crash Conversion → Prop :=
  Round.Returns (c.round input) ⟨dest, 0, 0, 0⟩

end Codec

def encode : Codec where
  base := 256
  group := 4
  digit := .ok
  outBase := 85
  divisor := 85 * 85 * 85 * 85
  symbol i := encoder.getD i.toNat 0

/-- `decoder [(uint8_t) c - 32]` -/
def decodeDigit (c : UInt8) : Except Crash UInt8 :=
  if 32 ≤ c.toNat then
    match decoder[c.toNat - 32]? with
    | some digit => .ok digit
    | none => .error .outOfBounds
  else .error .outOfBounds

def decode : Codec where
  base := 85
  group := 5
  digit := decodeDigit
  outBase := 256
  divisor := 256 * 256 * 256
  symbol := UInt32.toUInt8

/-- `zmq_z85_encode` behind its loop -/
def encodeEnd (size : ℕ) (s : Conversion) : Except Crash (Option (List UInt8)) := do
  Block.assert (s.outNbr.toNat = size * 5 % 2 ^ 64 / 4)
  if s.outNbr.toNat < s.dest.length then return some (s.dest.set s.outNbr.toNat 0) else throw .outOfBounds

/-- `zmq_z85_decode` behind its loop -/
def decodeEnd (length : ℕ) (s : Conversion) : Except Crash (Option (List UInt8)) := do
  Block.assert (s.outNbr.toNat = length * 4 % 2 ^ 64 / 5)
  return some s.dest

/-- `zmq_z85_encode` returns: NULL with EINVAL, or `dest`, with what it then contains. -/
def Encode (dest data : List UInt8) (r : Except Crash (Option (List UInt8))) : Prop :=
  if data.length % 4 ≠ 0 then r = .ok none else ∃ s, encode.Converts dest data s ∧ r = s >>= encodeEnd data.length

/-- `zmq_z85_decode` returns; `string` is without its NUL. -/
def Decode (dest string : List UInt8) (r : Except Crash (Option (List UInt8))) : Prop :=
  if string.length % 5 ≠ 0 then r = .ok none else ∃ s, decode.Converts dest string s ∧ r = s >>= decodeEnd string.length

/-- The string at an address. -/
def cString (dest : List UInt8) : List UInt8 := dest.takeWhile (· ≠ 0)

structure Conversion.Holds (s : Conversion) (room : ℕ) (out : List UInt8) : Prop where
  room : s.dest.length = room
  outNbr : s.outNbr.toNat = out.length
  out : s.dest.take out.length = out

namespace Codec

variable {c : Codec} {s s' : Conversion} {room : ℕ} {out input : List UInt8}

theorem output_spec (h : s.Holds room out) (divisor : UInt32) (hroom : out.length < room) (hlt : out.length + 1 < 2 ^ 32) :
    ∃ s', c.output s divisor = .ok s' ∧ s'.Holds room (out ++ [c.symbol (s.value / divisor % c.outBase)]) ∧
      s'.value = s.value ∧ s'.inNbr = s.inNbr := by
  have hin : s.outNbr.toNat < s.dest.length := by rw [h.room, h.outNbr]; exact hroom
  refine ⟨_, if_pos hin, ⟨?_, ?_, ?_⟩, rfl, rfl⟩
  · simp [h.room]
  · rw [UInt32.toNat_add, h.outNbr]
    simpa using hlt
  · rw [set_eq_take_append_cons_drop, if_pos hin, h.outNbr, h.out, length_append, length_singleton,
      take_append, take_of_length_le (Nat.le_succ _), Nat.add_sub_cancel_left]
    rfl

theorem outputs_spec (ds : List UInt32) (h : s.Holds room out) (hroom : out.length + ds.length ≤ room)
    (hlt : out.length + ds.length < 2 ^ 32) :
    ∃ s', ds.foldlM c.output s = .ok s' ∧ s'.Holds room (out ++ ds.map fun d => c.symbol (s.value / d % c.outBase)) ∧
      s'.inNbr = s.inNbr := by
  induction ds generalizing s out with
  | nil => exact ⟨s, rfl, by simpa using h, rfl⟩
  | cons d ds ih =>
    rw [length_cons] at hroom hlt
    obtain ⟨s1, hs1, h1, hvalue, hin⟩ := output_spec (c := c) h d (by omega) (by omega)
    have hlen : (out ++ [c.symbol (s.value / d % c.outBase)]).length = out.length + 1 := by simp
    obtain ⟨s2, hs2, h2, hin2⟩ := ih h1 (by omega) (by omega)
    refine ⟨s2, ?_, ?_, hin2.trans hin⟩
    · rw [foldlM_cons, hs1]
      exact hs2
    · rw [hvalue, append_assoc] at h2
      exact h2

structure Regular (c : Codec) (n : ℕ) : Prop where
  group : 0 < c.group.toNat
  divisors : (divisors c.outBase 32 c.divisor).map UInt32.toNat = ((range n).map (c.outBase.toNat ^ ·)).reverse

def spelled (c : Codec) (n : ℕ) (v : UInt32) : List UInt8 :=
  (Radix.spell c.outBase.toNat n v.toNat).map fun i => c.symbol (UInt32.ofNat i)

@[simp] theorem spelled_length {n : ℕ} {v : UInt32} : (c.spelled n v).length = n := by simp [spelled]

variable {n : ℕ}

theorem Regular.length (hc : c.Regular n) : (Z85.divisors c.outBase 32 c.divisor).length = n := by
  simpa using congrArg List.length hc.divisors

theorem Regular.outputs (hc : c.Regular n) (v : UInt32) :
    ((Z85.divisors c.outBase 32 c.divisor).map fun d => c.symbol (v / d % c.outBase)) = c.spelled n v := by
  have hsymbol : ∀ d : UInt32, c.symbol (v / d % c.outBase) =
      c.symbol (UInt32.ofNat (v.toNat / d.toNat % c.outBase.toNat)) := fun d => by
    rw [← UInt32.toNat_div, ← UInt32.toNat_mod, UInt32.ofNat_toNat]
  rw [spelled, spell_eq_map, ← hc.divisors, map_map, map_map]
  exact map_congr_left fun d _ => hsymbol d

/-- The digits of a group, as the table `f` has them. -/
def number (c : Codec) (f : UInt8 → UInt8) (g : List UInt8) : ℕ := Radix.value c.base.toNat (g.map fun x => (f x).toNat)

section Group

variable {f : UInt8 → UInt8} {start g rest : List UInt8} {x : UInt8}

theorem round_read (hinput : input = start ++ x :: rest) (hin : s.inNbr.toNat = start.length) (hdigit : c.digit x = .ok (f x)) :
    c.round input s = if (s.inNbr + 1) % c.group = 0 then match (Z85.divisors c.outBase 32 c.divisor).foldlM c.output
          { s with value := s.value * c.base + (f x).toUInt32, inNbr := s.inNbr + 1 } with
        | .error e => .done (.error e)
        | .ok s => .again { s with value := 0 }
      else .again { s with value := s.value * c.base + (f x).toUInt32, inNbr := s.inNbr + 1 } := by
  have hlt : s.inNbr.toNat < input.length := by
    rw [hinput, length_append, length_cons]
    omega
  have hx : input[s.inNbr.toNat] = x := by simp [hinput, hin]
  unfold round
  rw [dif_pos hlt, hx, hdigit]

theorem number_snoc (c : Codec) (f : UInt8 → UInt8) (g : List UInt8) (x : UInt8) :
    UInt32.ofNat (c.number f (g ++ [x])) = UInt32.ofNat (c.number f g) * c.base + (f x).toUInt32 := by
  unfold number
  rw [map_append, map_singleton, value_snoc, UInt32.ofNat_add, UInt32.ofNat_mul, UInt32.ofNat_toNat, ofNat_uInt8ToNat]

theorem group_spec (hc : c.Regular n) {seen : List UInt8} (h : s.Holds room out) (hg : g ≠ [])
    (hvalue : s.value = UInt32.ofNat (c.number f seen)) (hinput : input = start ++ g ++ rest)
    (hin : s.inNbr.toNat = start.length) (hseen : start.length % c.group.toNat = seen.length)
    (hgroup : seen.length + g.length = c.group.toNat) (hdigit : ∀ x ∈ g, c.digit x = .ok (f x))
    (hlen : input.length < 2 ^ 32) (hroom : out.length + n ≤ room) (hlt : out.length + n < 2 ^ 32) :
    ∃ s', (∀ r, Round.Returns (c.round input) s' r → Round.Returns (c.round input) s r) ∧
      s'.Holds room (out ++ c.spelled n (UInt32.ofNat (c.number f (seen ++ g)))) ∧ s'.value = 0 ∧
      s'.inNbr.toNat = (start ++ g).length := by
  induction g generalizing s start seen with
  | nil => exact absurd rfl hg
  | cons x g ih =>
    have hx := hdigit x mem_cons_self
    have hinput' : input = start ++ x :: (g ++ rest) := by simp [hinput]
    have hbound : start.length + 1 ≤ input.length := by
      rw [hinput', length_append, length_cons]
      omega
    have hnext : (s.inNbr + 1).toNat = start.length + 1 := by
      rw [UInt32.toNat_add, hin]
      exact mod_eq_of_lt (by change start.length + 1 < 2 ^ 32; omega)
    have hmod : ((s.inNbr + 1) % c.group).toNat = (start.length + 1) % c.group.toNat := by rw [UInt32.toNat_mod, hnext]
    have hvalue' := number_snoc c f seen x
    rw [← hvalue] at hvalue'
    rw [length_cons] at hgroup
    have hround := round_read hinput' hin hx
    have hdiv := div_add_mod start.length c.group.toNat
    cases g with
    | nil =>
      have hlast : (s.inNbr + 1) % c.group = 0 := by
        have hmul : start.length + 1 = c.group.toNat * (start.length / c.group.toNat + 1) := by
          rw [length_nil] at hgroup
          rw [mul_succ]
          omega
        apply UInt32.toNat_inj.mp
        rw [hmod, hmul, mul_mod_right]
        rfl
      rw [if_pos hlast] at hround
      have hs1 : Conversion.Holds { s with value := s.value * c.base + (f x).toUInt32, inNbr := s.inNbr + 1 } room out :=
        ⟨h.room, h.outNbr, h.out⟩
      obtain ⟨s2, hs2, h2, hin2⟩ := outputs_spec (c := c) _ hs1 (by rw [hc.length]; exact hroom) (by rw [hc.length]; exact hlt)
      rw [hc.outputs, ← hvalue'] at h2
      rw [hs2] at hround
      exact ⟨{ s2 with value := 0 }, fun r hr => .again hround hr, ⟨h2.room, h2.outNbr, h2.out⟩, rfl, by
        rw [hin2, hnext, length_append, length_singleton]⟩
    | cons y g =>
      rw [length_cons] at hgroup
      have hnot : ¬ (s.inNbr + 1) % c.group = 0 := fun hc0 => by
        have hzero := hmod.symm.trans (congrArg UInt32.toNat hc0)
        have hadd : start.length + 1 = seen.length + 1 + c.group.toNat * (start.length / c.group.toNat) := by omega
        rw [hadd, add_mul_mod_self_left, mod_eq_of_lt (by omega)] at hzero
        exact nomatch hzero
      rw [if_neg hnot] at hround
      have hs1 : Conversion.Holds { s with value := s.value * c.base + (f x).toUInt32, inNbr := s.inNbr + 1 } room out :=
        ⟨h.room, h.outNbr, h.out⟩
      have hmod1 : (start ++ [x]).length % c.group.toNat = (seen ++ [x]).length := by
        have hadd : start.length + 1 = seen.length + 1 + c.group.toNat * (start.length / c.group.toNat) := by omega
        rw [length_append, length_append, length_singleton, hadd, add_mul_mod_self_left,
          mod_eq_of_lt (by omega)]
      obtain ⟨s', hs', h', hv', hin'⟩ := ih hs1 (cons_ne_nil y g) hvalue'.symm
        (show input = start ++ [x] ++ y :: g ++ rest by simp [hinput])
        (by rw [hnext, length_append, length_singleton]) hmod1
        (by simp only [length_append, length_cons, length_nil]; omega)
        fun z hz => hdigit z (mem_cons_of_mem x hz)
      refine ⟨s', fun r hr => .again hround (hs' r hr), ?_, hv', ?_⟩
      · rw [append_assoc] at h'
        exact h'
      · rw [append_assoc] at hin'
        exact hin'

def converted (c : Codec) (n : ℕ) (f : UInt8 → UInt8) (groups : List (List UInt8)) : List UInt8 :=
  groups.flatMap fun g => c.spelled n (UInt32.ofNat (c.number f g))

theorem groups_spec (hc : c.Regular n) {groups : List (List UInt8)} (h : s.Holds room out) (hvalue : s.value = 0)
    (hinput : input = start ++ groups.flatten) (hin : s.inNbr.toNat = start.length) (hstart : start.length % c.group.toNat = 0)
    (hgroup : ∀ g ∈ groups, g.length = c.group.toNat) (hdigit : ∀ g ∈ groups, ∀ x ∈ g, c.digit x = .ok (f x))
    (hlen : input.length < 2 ^ 32) (hroom : out.length + groups.length * n ≤ room)
    (hlt : out.length + groups.length * n < 2 ^ 32) :
    ∃ s', Round.Returns (c.round input) s (.ok s') ∧ s'.Holds room (out ++ c.converted n f groups) := by
  induction groups generalizing s out start with
  | nil =>
    have hend : c.round input s = .done (.ok s) := by
      apply dif_neg
      rw [hin, hinput]
      simp
    exact ⟨s, .done hend, by simpa [converted] using h⟩
  | cons g groups ih =>
    have hg := hgroup g mem_cons_self
    have hpos := hc.group
    rw [length_cons, succ_mul] at hroom hlt
    obtain ⟨s1, hs1, h1, hv1, hin1⟩ := group_spec hc h
      (fun hnil => by rw [hnil] at hg; exact absurd hg (Nat.ne_of_lt hpos)) (show s.value = ofNat (c.number f []) from hvalue)
      (show input = start ++ g ++ groups.flatten by simp [hinput]) hin hstart
      (by simpa using hg) (hdigit g mem_cons_self) hlen (by omega) (by omega)
    have hlen1 : (out ++ c.spelled n (ofNat (c.number f ([] ++ g)))).length = out.length + n := by simp
    obtain ⟨s2, hs2, h2⟩ := ih h1 hv1 (show input = start ++ g ++ groups.flatten by simp [hinput]) hin1
      (by rw [length_append, hg, add_mod_right, hstart]) (fun g hg => hgroup g (mem_cons_of_mem _ hg))
      (fun g hg => hdigit g (mem_cons_of_mem _ hg)) (by omega) (by omega)
    refine ⟨s2, hs1 _ hs2, ?_⟩
    rw [append_assoc] at h2
    exact h2

end Group

/-! How much has been put out when the loop is left. -/

theorem outputs_count {ds : List UInt32} (h : ds.foldlM c.output s = .ok s') :
    s'.outNbr = s.outNbr + ofNat ds.length ∧ s'.inNbr = s.inNbr := by
  induction ds generalizing s with
  | nil =>
    cases h
    simp
  | cons d ds ih =>
    obtain ⟨s1, h1, h2⟩ := bind_ok h
    unfold output at h1
    split_ifs at h1
    cases h1
    obtain ⟨hout, hin⟩ := ih h2
    refine ⟨hout.trans ?_, hin⟩
    rw [length_cons, UInt32.ofNat_add, UInt32.add_assoc, UInt32.add_comm 1]
    rfl

def Counted (c : Codec) (n : ℕ) (s : Conversion) : Prop := s.outNbr = UInt32.ofNat (n * (s.inNbr.toNat / c.group.toNat))

theorem Regular.counted (hc : c.Regular n) (h : c.Counted n s) (hlen : input.length < 2 ^ 32)
    (hround : c.round input s = .again s') : c.Counted n s' ∧ s'.inNbr.toNat ≤ input.length := by
  unfold round at hround
  split at hround
  swap
  · exact nomatch hround
  rename_i hlt
  split at hround
  · exact nomatch hround
  have hnext : (s.inNbr + 1).toNat = s.inNbr.toNat + 1 := by
    exact mod_eq_of_lt (by change s.inNbr.toNat + 1 < 2 ^ 32; omega)
  dsimp only at hround
  have hmod : ((s.inNbr + 1) % c.group).toNat = (s.inNbr.toNat + 1) % c.group.toNat := by rw [UInt32.toNat_mod, hnext]
  unfold Counted at h ⊢
  split_ifs at hround with hend
  · rw [hend] at hmod
    split at hround
    · exact nomatch hround
    · rename_i s1 hs1
      cases Round.again.inj hround
      obtain ⟨hout, hin⟩ := outputs_count hs1
      rw [hin, hnext, hout, h, hc.length, ← UInt32.ofNat_add]
      refine ⟨congrArg UInt32.ofNat ?_, hlt⟩
      rw [← mul_succ]
      congr 1
      exact (succ_div_of_mod_eq_zero hmod.symm).symm
  · cases Round.again.inj hround
    rw [hnext, h]
    refine ⟨congrArg UInt32.ofNat (congrArg (n * ·) ?_), hlt⟩
    refine (succ_div_of_mod_ne_zero fun hzero => hend ?_).symm
    apply UInt32.toNat_inj.mp
    rw [hmod, hzero]
    rfl

theorem Converts.counted (hc : c.Regular n) {dest : List UInt8} (h : c.Converts dest input (.ok s)) :
    input.length < 2 ^ 32 ∧ s.outNbr = ofNat (n * (input.length / c.group.toNat)) := by
  obtain ⟨s1, hI, hdone⟩ := h.rule (fun s => input.length < 2 ^ 32 → c.Counted n s ∧ s.inNbr.toNat ≤ input.length)
    (fun _ => ⟨by simp [Counted], by simp⟩) fun s s' hI hround hlen => hc.counted (hI hlen).1 hlen hround
  unfold round at hdone
  split at hdone
  · split at hdone
    · exact nomatch Round.done.inj hdone
    · dsimp only at hdone
      split_ifs at hdone
      split at hdone
      · exact nomatch Round.done.inj hdone
      · exact nomatch hdone
  · rename_i hend
    obtain rfl := Except.ok.inj (Round.done.inj hdone)
    have hlt := s1.inNbr.toNat_lt
    have hlen : input.length < 2 ^ 32 := by omega
    obtain ⟨hcount, hle⟩ := hI hlen
    have heq : s1.inNbr.toNat = input.length := by omega
    exact ⟨hlen, heq ▸ hcount⟩

end Codec

theorem encoder_nodup : encoder.Nodup := by decide

theorem encoder_length : encoder.length = 85 := by decide

theorem encoder_nonzero : (0 : UInt8) ∉ encoder := by decide

/-- The value of a character of the alphabet. -/
def rank (c : UInt8) : UInt8 := UInt8.ofNat (encoder.idxOf c)

theorem decodeDigit_encoder : ∀ c ∈ encoder, decodeDigit c = .ok (rank c) := by decide +kernel

variable {c : UInt8}

theorem rank_toNat (hc : c ∈ encoder) : (rank c).toNat = encoder.idxOf c ∧ encoder.idxOf c < 85 := by
  have hlt : encoder.idxOf c < 85 := encoder_length ▸ idxOf_lt_length_of_mem hc
  exact ⟨UInt8.toNat_ofNat_of_lt' (lt_trans hlt (by decide)), hlt⟩

theorem encoder_rank (hc : c ∈ encoder) : encoder.getD (rank c).toNat 0 = c := by
  rw [(rank_toNat hc).1, getD_eq_getElem _ _ (idxOf_lt_length_of_mem hc)]
  exact getElem_idxOf _

theorem encoder_mem {i : ℕ} (hi : i < 85) : encoder.getD i 0 ∈ encoder := by
  rw [getD_eq_getElem _ _ (encoder_length.symm ▸ hi)]
  exact getElem_mem _

theorem rank_encoder {i : ℕ} (hi : i < 85) : (rank (encoder.getD i 0)).toNat = i := by
  rw [(rank_toNat (encoder_mem hi)).1, getD_eq_getElem _ _ (encoder_length.symm ▸ hi)]
  exact encoder_nodup.idxOf_getElem i _

theorem encode_regular : encode.Regular 5 := ⟨by decide, by decide⟩

theorem decode_regular : decode.Regular 4 := ⟨by decide, by decide⟩

theorem encode_spelled (v : UInt32) : encode.spelled 5 v = (spell 85 5 v.toNat).map fun i => encoder.getD i 0 := by
  apply map_congr_left
  intro i hi
  have hlt : i < 85 := spell_lt (by decide) i hi
  change encoder.getD (ofNat i).toNat 0 = _
  rw [toNat_ofNat_of_lt' (lt_trans hlt (by decide))]

theorem decode_spelled (v : UInt32) : decode.spelled 4 v = (spell 256 4 v.toNat).map UInt8.ofNat := by
  apply map_congr_left
  intro i hi
  exact toUInt8_ofNat

variable {g : List UInt8}

theorem encode_alphabet (v : UInt32) : ∀ c ∈ encode.spelled 5 v, c ∈ encoder := by
  intro c hc
  rw [encode_spelled] at hc
  obtain ⟨i, hi, rfl⟩ := mem_map.mp hc
  exact encoder_mem (spell_lt (by decide) i hi)

/-- The number that a group of characters stands for. -/
def groupValue (g : List UInt8) : ℕ := decode.number rank g

theorem byte_lt : ∀ d ∈ g.map (fun x => (id x).toNat), d < 256 := by
  intro d hd
  obtain ⟨x, -, rfl⟩ := mem_map.mp hd
  exact x.toNat_lt

theorem bytes_lt (hg : g.length = 4) : encode.number id g < 2 ^ 32 := by
  have hlt := value_lt (b := 256) (by decide) (byte_lt (g := g))
  rw [length_map, hg] at hlt
  exact hlt

theorem groupValue_encode {v : ℕ} (hv : v < 2 ^ 32) : groupValue (encode.spelled 5 (ofNat v)) = v := by
  have hrank : ((encode.spelled 5 (ofNat v)).map fun x => (rank x).toNat) = spell 85 5 v := by
    rw [encode_spelled, toNat_ofNat_of_lt' hv, map_map]
    refine (map_congr_left fun i hi => ?_).trans (map_id _)
    exact rank_encoder (spell_lt (by decide) i hi)
  change value 85 _ = v
  rw [hrank, value_spell]
  exact mod_eq_of_lt (lt_trans hv (by decide))

theorem decode_encode (hg : g.length = 4) :
    decode.spelled 4 (ofNat (groupValue (encode.spelled 5 (ofNat (encode.number id g))))) = g := by
  have hlt := bytes_lt hg
  have hbytes : spell 256 4 (encode.number id g) = g.map fun x => (id x).toNat := by
    have hlen : (g.map fun x => (id x).toNat).length = 4 := by rw [length_map, hg]
    rw [← hlen]
    exact spell_value (by decide) byte_lt
  rw [groupValue_encode hlt, decode_spelled, toNat_ofNat_of_lt' hlt, hbytes, map_map]
  refine (map_congr_left fun x _ => ?_).trans (map_id g)
  exact UInt8.ofNat_toNat

theorem encode_decode (hg : g.length = 5) (halpha : ∀ c ∈ g, c ∈ encoder) (hv : groupValue g < 2 ^ 32) :
    encode.spelled 5 (ofNat (encode.number id (decode.spelled 4 (ofNat (groupValue g))))) = g := by
  have hbytes : encode.number id (decode.spelled 4 (ofNat (groupValue g))) = groupValue g := by
    have hmap : ((decode.spelled 4 (ofNat (groupValue g))).map fun x => (id x).toNat) =
        spell 256 4 (groupValue g) := by
      rw [decode_spelled, toNat_ofNat_of_lt' hv, map_map]
      refine (map_congr_left fun i hi => ?_).trans (map_id _)
      exact UInt8.toNat_ofNat_of_lt' (spell_lt (by decide) i hi)
    change value 256 _ = _
    rw [hmap, value_spell]
    exact mod_eq_of_lt hv
  have hchars : spell 85 5 (groupValue g) = g.map fun x => (rank x).toNat := by
    have hlen : (g.map fun x => (rank x).toNat).length = 5 := by rw [length_map, hg]
    rw [← hlen]
    refine spell_value (by decide) fun d hd => ?_
    obtain ⟨c, hc, rfl⟩ := mem_map.mp hd
    obtain ⟨hrank, hlt⟩ := rank_toNat (halpha c hc)
    rwa [hrank]
  rw [hbytes, encode_spelled, toNat_ofNat_of_lt' hv, hchars, map_map]
  refine (map_congr_left fun c hc => ?_).trans (map_id g)
  exact encoder_rank (halpha c hc)

section Groups

variable {k m i : ℕ} {l : List UInt8} {groups : List (List UInt8)}

theorem exists_groups (h : l.length = m * k) :
    ∃ groups : List (List UInt8), groups.flatten = l ∧ (∀ g ∈ groups, g.length = k) ∧ groups.length = m := by
  induction m generalizing l with
  | zero => exact ⟨[], (eq_nil_of_length_eq_zero (h.trans (zero_mul k))).symm, by simp, rfl⟩
  | succ m ih =>
    rw [succ_mul] at h
    obtain ⟨groups, hflat, hlen, hm⟩ := ih (l := l.drop k) (by rw [length_drop]; omega)
    refine ⟨l.take k :: groups, ?_, ?_, by rw [length_cons, hm]⟩
    · rw [flatten_cons, hflat, take_append_drop]
    · intro g hg
      rcases mem_cons.mp hg with rfl | hg
      · rw [length_take]
        omega
      · exact hlen g hg

theorem flatten_length (h : ∀ g ∈ groups, g.length = k) : groups.flatten.length = groups.length * k := by
  induction groups with
  | nil => simp
  | cons g groups ih =>
    rw [flatten_cons, length_append, h g mem_cons_self, ih fun g hg => h g (mem_cons_of_mem _ hg),
      length_cons, succ_mul, add_comm]

theorem group_slice (h : ∀ g ∈ groups, g.length = k) (hg : g ∈ groups) : ∃ i, (groups.flatten.drop (k * i)).take k = g := by
  obtain ⟨before, after, rfl⟩ := append_of_mem hg
  have hbefore := flatten_length fun g hg => h g (mem_append_left _ hg)
  refine ⟨before.length, ?_⟩
  rw [flatten_append, flatten_cons, ← append_assoc]
  exact Block.slice_append (hbefore.trans (mul_comm _ _)) (h g hg)

theorem slice_group (h : ∀ g ∈ groups, g.length = k) :
    (groups.flatten.drop (k * i)).take k = [] ∨ (groups.flatten.drop (k * i)).take k ∈ groups := by
  induction i generalizing groups with
  | zero =>
    cases groups with
    | nil => simp
    | cons g groups =>
      right
      rw [flatten_cons, Nat.mul_zero, drop_zero, take_append_of_le_length (h g mem_cons_self).ge,
        take_of_length_le (h g mem_cons_self).le]
      exact mem_cons_self
  | succ i ih =>
    cases groups with
    | nil => simp
    | cons g groups =>
      rw [flatten_cons, mul_succ, add_comm, drop_append, ← h g mem_cons_self, drop_eq_nil_of_le
        (Nat.le_add_right _ _), Nat.add_sub_cancel_left, h g mem_cons_self]
      apply (ih fun g hg => h g (mem_cons_of_mem _ hg)).imp_right
      exact mem_cons_of_mem _

variable {c : Codec} {n : ℕ} {f : UInt8 → UInt8}

theorem converted_length : (c.converted n f groups).length = groups.length * n := by
  induction groups with
  | nil => simp [Codec.converted]
  | cons g groups ih =>
    rw [Codec.converted, flatMap_cons, length_append, Codec.spelled_length, length_cons, succ_mul, add_comm]
    exact congrArg (· + n) ih

theorem converts_groups (hc : c.Regular n) {dest : List UInt8} (hgroup : ∀ g ∈ groups, g.length = c.group.toNat)
    (hdigit : ∀ g ∈ groups, ∀ x ∈ g, c.digit x = .ok (f x)) (hlen : groups.flatten.length < 2 ^ 32)
    (hroom : groups.length * n ≤ dest.length) (hlt : groups.length * n < 2 ^ 32) :
    ∃ s, c.Converts dest groups.flatten (.ok s) ∧ s.Holds dest.length (c.converted n f groups) := by
  have h0 : Conversion.Holds ⟨dest, 0, 0, 0⟩ dest.length [] := ⟨rfl, rfl, rfl⟩
  exact Codec.groups_spec hc h0 rfl (show groups.flatten = [] ++ groups.flatten from rfl) rfl (zero_mod _) hgroup hdigit hlen (by simpa using hroom)
    (by simpa using hlt)

end Groups

variable {dest dest' data string : List UInt8} {groups : List (List UInt8)} {buf : List UInt8}

theorem encode_returns (hgroup : ∀ g ∈ groups, g.length = 4) (hroom : groups.length * 5 < dest.length)
    (hlt : groups.length * 5 < 2 ^ 32) :
    ∃ rest, Encode dest groups.flatten (.ok (some (encode.converted 5 id groups ++ 0 :: rest))) := by
  have hlen := flatten_length hgroup
  obtain ⟨s, hs, h⟩ := converts_groups (f := id) encode_regular hgroup (fun _ _ _ _ => rfl) (by omega) hroom.le hlt
  have hcount : s.outNbr.toNat = groups.length * 5 := h.outNbr.trans converted_length
  have hin : s.outNbr.toNat < s.dest.length := by rw [hcount, h.room]; exact hroom
  refine ⟨s.dest.drop (groups.length * 5 + 1), ?_⟩
  rw [Encode, if_neg (not_not_intro (by rw [hlen, mul_mod_left]))]
  refine ⟨_, hs, ?_⟩
  have hassert : s.outNbr.toNat = groups.flatten.length * 5 % 2 ^ 64 / 4 := by omega
  have hend : encodeEnd groups.flatten.length s = .ok (some (s.dest.set s.outNbr.toNat 0)) := by
    unfold encodeEnd
    rw [Block.assert_ok hassert, if_pos hin]
    rfl
  rw [Block.ok_bind, hend, set_eq_take_append_cons_drop, if_pos hin, h.outNbr, h.out, ← h.outNbr, hcount]

theorem encode_converted_alphabet : ∀ c ∈ encode.converted 5 id groups, c ∈ encoder := by
  intro c hc
  obtain ⟨g, -, hg⟩ := mem_flatMap.mp hc
  exact encode_alphabet _ c hg

theorem cString_encoded (rest : List UInt8) :
    cString (encode.converted 5 id groups ++ 0 :: rest) = encode.converted 5 id groups := by
  have hnonzero : ∀ c ∈ encode.converted 5 id groups, (decide (c ≠ 0)) = true := by
    intro c hc
    apply decide_eq_true
    rintro rfl
    exact encoder_nonzero (encode_converted_alphabet _ hc)
  rw [cString, takeWhile_append_of_pos hnonzero]
  simp

theorem Encode.unique {r r' : Except Crash (Option (List UInt8))} (h : Encode dest data r) (h' : Encode dest data r') :
    r = r' := by
  unfold Encode at h h'
  split_ifs at h h'
  · exact h.trans h'.symm
  · obtain ⟨s, hs, rfl⟩ := h
    obtain ⟨s', hs', rfl⟩ := h'
    rw [hs.unique hs']

theorem Encode.inv (h : Encode dest data (.ok (some dest'))) :
    ∃ groups : List (List UInt8), groups.flatten = data ∧ (∀ g ∈ groups, g.length = 4) ∧ groups.length * 5 < 2 ^ 32 ∧
      groups.length * 5 = data.length * 5 / 4 := by
  unfold Encode at h
  split_ifs at h with hsize
  · exact nomatch h
  obtain ⟨s, hs, hr⟩ := h
  obtain ⟨s, rfl, hend⟩ := bind_ok hr.symm
  obtain ⟨hlen, hcount⟩ := Codec.Converts.counted encode_regular hs
  obtain ⟨_, hassert, _⟩ := bind_ok hend
  have hnbr := Block.assert_eq hassert
  have hgroup : encode.group.toNat = 4 := rfl
  rw [hcount, hgroup, toNat_ofNat', mod_eq_of_lt (show data.length * 5 < 2 ^ 64 by omega)] at hnbr
  have hm : data.length = data.length / 4 * 4 := by omega
  obtain ⟨groups, hflat, hg, hlength⟩ := exists_groups hm
  refine ⟨groups, hflat, hg, ?_, ?_⟩ <;> rw [hlength] <;> omega

theorem decode_returns (buf : List UInt8) (hgroup : ∀ g ∈ groups, g.length = 5) (halpha : ∀ g ∈ groups, ∀ c ∈ g, c ∈ encoder)
    (hroom : groups.length * 4 ≤ buf.length) (hlt : groups.length * 5 < 2 ^ 32) :
    ∃ buf', Decode buf groups.flatten (.ok (some buf')) ∧ buf'.take (groups.length * 4) = decode.converted 4 rank groups := by
  have hlen := flatten_length hgroup
  obtain ⟨s, hs, h⟩ := converts_groups decode_regular hgroup
    (fun g hg c hc => decodeDigit_encoder c (halpha g hg c hc)) (by omega) hroom (by omega)
  have hcount : s.outNbr.toNat = groups.length * 4 := h.outNbr.trans converted_length
  refine ⟨s.dest, ?_, ?_⟩
  · rw [Decode, if_neg (not_not_intro (by rw [hlen, mul_mod_left]))]
    refine ⟨_, hs, ?_⟩
    have hassert : s.outNbr.toNat = groups.flatten.length * 4 % 2 ^ 64 / 5 := by omega
    rw [Block.ok_bind, decodeEnd, Block.assert_ok hassert]
    rfl
  · rw [← converted_length (c := decode) (f := rank)]
    exact h.out

theorem decode_converted (hgroup : ∀ g ∈ groups, g.length = 4) :
    decode.converted 4 rank (groups.map fun g => encode.spelled 5 (ofNat (encode.number id g))) = groups.flatten := by
  rw [Codec.converted, flatMap_map, flatten_eq_flatMap]
  apply flatMap_congr
  intro g hg
  exact decode_encode (hgroup g hg)

/-! ## Decoding undoes encoding -/

/-- What is promised of a byte string: its encoding ends with a NUL, is as long as it should be and decodes to it. -/
def RoundTrips (dest buf data : List UInt8) : Prop :=
  ∃ dest', Encode dest data (.ok (some dest')) ∧
    (∃ chars rest, dest' = chars ++ 0 :: rest ∧ chars.length = data.length * 5 / 4 ∧ ∀ c ∈ chars, c ∈ encoder) ∧
    ∃ buf', Decode buf (cString dest') (.ok (some buf')) ∧ buf'.take data.length = data

theorem roundTrips_groups (hgroup : ∀ g ∈ groups, g.length = 4) (hroom : groups.length * 5 < dest.length)
    (hbuf : groups.length * 4 ≤ buf.length) (hlt : groups.length * 5 < 2 ^ 32) : RoundTrips dest buf groups.flatten := by
  have hlen := flatten_length hgroup
  obtain ⟨rest, henc⟩ := encode_returns hgroup hroom hlt
  refine ⟨_, henc, ⟨_, rest, rfl, ?_, encode_converted_alphabet⟩, ?_⟩
  · rw [converted_length]
    omega
  · rw [cString_encoded]
    have hchars : encode.converted 5 id groups =
        (groups.map fun g => encode.spelled 5 (ofNat (encode.number id g))).flatten := flatMap_def
    obtain ⟨buf', hdec, htake⟩ := decode_returns buf
      (show ∀ g ∈ groups.map fun g => encode.spelled 5 (ofNat (encode.number id g)), g.length = 5 by simp) (by simpa using fun g _ c hc => encode_alphabet _ c hc) (by rwa [length_map]) (by rwa [length_map])
    rw [length_map, decode_converted hgroup, ← hlen] at htake
    exact ⟨buf', hchars ▸ hdec, htake⟩

theorem not_roundTrips (h : 2 ^ 32 ≤ data.length * 5 / 4) : ¬ RoundTrips dest buf data := by
  intro hrt
  obtain ⟨dest', henc, -⟩ := hrt
  obtain ⟨groups, -, -, hlt, heq⟩ := henc.inv
  omega

/-- Decoding undoes encoding for what has fewer than 2 ^ 32 characters. -/
theorem z85_roundTrips_iff {buf : List UInt8} (hsize : data.length % 4 = 0) (hdest : data.length * 5 / 4 < dest.length)
    (hbuf : data.length ≤ buf.length) : RoundTrips dest buf data ↔ data.length * 5 / 4 < 2 ^ 32 := by
  constructor
  · intro h
    by_contra hlt
    exact not_roundTrips (Nat.not_lt.mp hlt) h
  · intro hlt
    have hm : data.length = data.length / 4 * 4 := by omega
    obtain ⟨groups, rfl, hgroup, hlength⟩ := exists_groups hm
    apply roundTrips_groups hgroup <;> omega

theorem z85_roundTrips_hello : RoundTrips (replicate 6 0) (replicate 4 0) [134, 79, 210, 111] :=
  (z85_roundTrips_iff rfl (by decide) (by decide)).mpr (by decide)

/-- A byte string that is too long: the counter of the characters comes to 0, and the assertion behind the loop fails. -/
theorem z85_roundTrips_long : (replicate 3435973840 (0 : UInt8)).length % 4 = 0 ∧
    ¬ RoundTrips (replicate 4294967301 0) (replicate 3435973840 0) (replicate 3435973840 0) := by
  constructor
  · rw [length_replicate]
  · apply not_roundTrips
    rw [length_replicate]
    decide

/-- The string is what some byte string is encoded to. -/
def IsEncoding (string : List UInt8) : Prop :=
  ∃ data dest dest', data.length * 5 / 4 < dest.length ∧ Encode dest data (.ok (some dest')) ∧ cString dest' = string

/-- What is promised of a string: it is refused if it is no encoding, and else encoding what it is decoded to gives it back. -/
def Exact (buf string : List UInt8) : Prop :=
  ∃ r, Decode buf string r ∧ (r = .ok none ∧ ¬ IsEncoding string ∨ ∃ buf', r = .ok (some buf') ∧ IsEncoding string ∧
        ∀ dest : List UInt8, string.length < dest.length →
          ∃ dest', Encode dest (buf'.take (string.length * 4 / 5)) (.ok (some dest')) ∧ cString dest' = string)

/-- Every group of characters stands for a number of 32 bits. -/
def Fits (string : List UInt8) : Prop := ∀ i, groupValue ((string.drop (5 * i)).take 5) < 2 ^ 32

structure Decodable (string : List UInt8) : Prop where
  size : string.length % 5 = 0
  short : string.length < 2 ^ 32
  alphabet : ∀ c ∈ string, c ∈ encoder
  fits : Fits string

theorem IsEncoding.decodable (h : IsEncoding string) : Decodable string := by
  obtain ⟨data, dest, dest', hroom, henc, rfl⟩ := h
  obtain ⟨groups, rfl, hgroup, hlt, heq⟩ := henc.inv
  obtain ⟨rest, henc'⟩ := encode_returns hgroup (heq ▸ hroom) hlt
  have hdest := Option.some.inj (Except.ok.inj (henc.unique henc'))
  rw [hdest, cString_encoded]
  refine ⟨by rw [converted_length, mul_mod_left], by rwa [converted_length], encode_converted_alphabet, fun i => ?_⟩
  have hchars : encode.converted 5 id groups =
      (groups.map fun g => encode.spelled 5 (ofNat (encode.number id g))).flatten := flatMap_def
  rw [hchars]
  rcases slice_group (i := i)
    (show ∀ g ∈ groups.map fun g => encode.spelled 5 (ofNat (encode.number id g)), g.length = 5 by simp) with hnil | hg
  · rw [hnil]
    decide
  · obtain ⟨g, hg, heq⟩ := mem_map.mp hg
    rw [← heq, groupValue_encode (bytes_lt (hgroup g hg))]
    exact bytes_lt (hgroup g hg)

theorem encode_converted (hgroup : ∀ g ∈ groups, g.length = 5) (halpha : ∀ g ∈ groups, ∀ c ∈ g, c ∈ encoder)
    (hfits : ∀ g ∈ groups, groupValue g < 2 ^ 32) :
    encode.converted 5 id (groups.map fun g => decode.spelled 4 (ofNat (groupValue g))) = groups.flatten := by
  rw [Codec.converted, flatMap_map, flatten_eq_flatMap]
  apply flatMap_congr
  intro g hg
  exact encode_decode (hgroup g hg) (halpha g hg) (hfits g hg)

theorem Decodable.exact (h : Decodable string) (hbuf : string.length * 4 / 5 ≤ buf.length) : Exact buf string := by
  obtain ⟨hsize, hshort, halpha, hfits⟩ := h
  have hm : string.length = string.length / 5 * 5 := by omega
  obtain ⟨groups, rfl, hgroup, -⟩ := exists_groups hm
  have hlen := flatten_length hgroup
  have halpha' : ∀ g ∈ groups, ∀ c ∈ g, c ∈ encoder := fun g hg c hc => halpha c (mem_flatten.mpr ⟨g, hg, hc⟩)
  have hfits' : ∀ g ∈ groups, groupValue g < 2 ^ 32 := by
    intro g hg
    obtain ⟨i, hi⟩ := group_slice hgroup hg
    exact hi ▸ hfits i
  obtain ⟨buf', hdec, htake⟩ := decode_returns buf hgroup halpha' (by omega) (by omega)
  have hdata : decode.converted 4 rank groups =
      (groups.map fun g => decode.spelled 4 (ofNat (groupValue g))).flatten := flatMap_def
  have henc : ∀ dest : List UInt8, groups.flatten.length < dest.length →
      ∃ dest', Encode dest (decode.converted 4 rank groups) (.ok (some dest')) ∧ cString dest' = groups.flatten := by
    intro dest hdest
    obtain ⟨rest, hrest⟩ := encode_returns
      (show ∀ g ∈ groups.map fun g => decode.spelled 4 (ofNat (groupValue g)), g.length = 4 by simp)
      (show _ < dest.length by rw [length_map]; omega) (by rw [length_map]; omega)
    refine ⟨_, hrest, ?_⟩
    rw [← encode_converted hgroup halpha' hfits', cString_encoded]
  have htake' : buf'.take (groups.flatten.length * 4 / 5) = decode.converted 4 rank groups := by
    rw [← htake]
    congr 1
    omega
  refine ⟨_, hdec, .inr ⟨buf', rfl, ?_, fun dest hdest => htake' ▸ henc dest hdest⟩⟩
  obtain ⟨dest', hdest', hstring⟩ := henc (replicate (groups.flatten.length + 1) 0) (by simp)
  have hlength : (decode.converted 4 rank groups).length = groups.length * 4 := converted_length
  exact ⟨_, _, dest', by rw [length_replicate]; omega, hdest', hstring⟩

theorem Exact.decodable (h : Exact buf string) (hsize : string.length % 5 = 0) : Decodable string := by
  obtain ⟨r, hdec, ⟨rfl, -⟩ | ⟨buf', -, henc, -⟩⟩ := h
  · rw [Decode, if_neg (not_not_intro hsize)] at hdec
    obtain ⟨s, -, hr⟩ := hdec
    obtain ⟨s, -, hend⟩ := bind_ok hr.symm
    obtain ⟨_, -, hnone⟩ := bind_ok hend
    exact nomatch Except.ok.inj hnone
  · exact henc.decodable

/-- The decoder refuses exactly what is no encoding, and is inverse to the encoder, on strings of a wrong length and on those of
characters of the alphabet in groups that fit. -/
theorem z85_decode_exact_iff (buf : List UInt8) (hbuf : string.length * 4 / 5 ≤ buf.length) :
    Exact buf string ↔ string.length % 5 ≠ 0 ∨ string.length < 2 ^ 32 ∧ (∀ c ∈ string, c ∈ encoder) ∧ Fits string := by
  constructor
  · intro h
    by_cases hsize : string.length % 5 = 0
    · obtain ⟨-, hshort, halpha, hfits⟩ := h.decodable hsize
      exact .inr ⟨hshort, halpha, hfits⟩
    · exact .inl hsize
  · intro h
    by_cases hsize : string.length % 5 = 0
    · obtain ⟨hshort, halpha, hfits⟩ := h.resolve_left (not_not_intro hsize)
      exact Decodable.exact ⟨hsize, hshort, halpha, hfits⟩ hbuf
    · refine ⟨.ok none, ?_, .inl ⟨rfl, fun henc => hsize henc.decodable.size⟩⟩
      rw [Decode, if_pos hsize]

set_option maxRecDepth 2000 in
theorem z85_decode_exact_hello : Exact (replicate 4 0) ("Hello".toList.map fun c => UInt8.ofNat c.toNat) := by
  apply (z85_decode_exact_iff _ (by decide)).mpr
  refine .inr ⟨by decide, by decide, fun i => ?_⟩
  cases i with
  | zero => decide
  | succ i =>
    rw [drop_eq_nil_of_le (Nat.le_mul_of_pos_right 5 (Nat.succ_pos i))]
    decide

/-- A string of blanks, which are not in the alphabet, is decoded. -/
theorem z85_decode_blanks : ¬ Exact (replicate 4 0) (replicate 5 32) := by
  intro h
  have hmem := (h.decodable rfl).alphabet 32 (by decide)
  revert hmem
  decide

end Z85

end Zmq
