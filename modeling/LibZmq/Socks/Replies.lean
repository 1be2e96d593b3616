import LibZmq.Run
import LibZmq.Socks.Socks
import Mathlib.Data.FinEnum
import Mathlib.Data.List.GetD

/-! Reading the reply of a SOCKS5 proxy from a stream, which goes on behind the reply, however the stream is divided into reads. -/

namespace Zmq

open List Option Except SocksResponseDecoderT

structure ReplyPrefix (p : List UInt8) : Prop where
  version : ∀ b ∈ p[0]?, b = 5
  code : ∀ b ∈ p[1]?, b ≤ 8
  reserved : ∀ b ∈ p[2]?, b = 0
  atyp : ∀ b ∈ p[3]?, b = 1 ∨ b = 3 ∨ b = 4

/-- The length of a reply, which its first five bytes tell. -/
def replySize (p : List UInt8) : Option ℕ :=
  match p[3]?, p[4]? with
  | some atyp, some length => some (if atyp = 1 then 10 else if atyp = 3 then 7 + length.toNat else 22)
  | _, _ => none

/-- What is right in the beginning of a reply but for its code. -/
def Headed (p : List UInt8) : Prop :=
  (∀ b ∈ p[0]?, b = 5) ∧ (∀ b ∈ p[2]?, b = 0) ∧ ∀ b ∈ p[3]?, b = 1 ∨ b = 3 ∨ b = 4

instance (p : List UInt8) : Decidable (Headed p) := by
  unfold Headed
  infer_instance

theorem replyPrefix_iff {p : List UInt8} : ReplyPrefix p ↔ Headed p ∧ ∀ b ∈ p[1]?, b ≤ 8 :=
  ⟨fun h => ⟨⟨h.version, h.reserved, h.atyp⟩, h.code⟩, fun h => ⟨h.1.1, h.2, h.1.2.1, h.1.2.2⟩⟩

instance (p : List UInt8) : Decidable (ReplyPrefix p) := decidable_of_iff _ replyPrefix_iff.symm

inductive ReplyStatus where
  | more
  | failed
  | ready (code : UInt8)
deriving DecidableEq

/-- The decoder, what it has not read of the stream, and what has come of the reads. -/
structure ReplyReader where
  decoder : SocksResponseDecoderT
  unread : List UInt8
  status : ReplyStatus
deriving DecidableEq

namespace ReplyReader

def Ready (s : ReplyReader) (count : ℕ) : Prop :=
  s.status = .more ∧ 0 < count ∧ count ≤ s.unread.length ∧ ∀ n ∈ s.decoder.request.toOption, count ≤ n

instance (s : ReplyReader) (count : ℕ) : Decidable (s.Ready count) := by
  unfold Ready
  infer_instance

def run (s : ReplyReader) (count : ℕ) : Except SocksFault ReplyReader :=
  (s.decoder.input (some (s.unread.take count))).bind fun x =>
    if x.1 = 0 ∨ x.1 = -1 then .ok ⟨x.2, s.unread.drop count, .failed⟩
    else
      x.2.messageReady.bind fun ready =>
        if ready then x.2.decode.map fun response => ⟨x.2, s.unread.drop count, .ready response.responseCode⟩
        else .ok ⟨x.2, s.unread.drop count, .more⟩

def Start (stream : List UInt8) (s : ReplyReader) : Prop := s = ⟨.new, stream, .more⟩

abbrev Step : ReplyReader → ℕ → ReplyReader → Prop := Does Ready run

/-- What is promised of the reads: an error is reported for what no reply begins with, the reply is ready where it ends, and no byte
behind it is read or asked into memory behind the buffer. -/
structure Exact (stream : List UInt8) (s : ReplyReader) : Prop where
  consumed : s.decoder.buf ++ s.unread = stream
  failed : s.status = .failed ↔ ¬ ReplyPrefix s.decoder.buf
  ready : ∀ code, s.status = .ready code ↔ ReplyPrefix s.decoder.buf ∧ replySize s.decoder.buf = some s.decoder.buf.length ∧
    s.decoder.buf[1]? = some code
  within : ReplyPrefix s.decoder.buf → ∀ size ∈ replySize s.decoder.buf, s.decoder.buf.length ≤ size
  asks : s.status = .more → ∃ n, s.decoder.request = .ok n ∧ 0 < n ∧ s.decoder.buf.length + n ≤ SocksResponseDecoderT.size
  goes : ∀ count, s.Ready count → ∃ s', s.run count = .ok s'

/-- The code and the length of a name are below 128, and a read that goes on with the bytes behind the first five ends no later than
the reply. -/
def Keeps (s : ReplyReader) (count : ℕ) : Prop :=
  Headed (s.decoder.buf ++ s.unread.take count) → (∀ code ∈ (s.decoder.buf ++ s.unread.take count)[1]?, code < 128) ∧
    (ReplyPrefix (s.decoder.buf ++ s.unread.take count) → ((s.decoder.buf ++ s.unread.take count)[3]? = some 3 →
        ∀ length ∈ (s.decoder.buf ++ s.unread.take count)[4]?, length < 128) ∧
      (5 < s.decoder.buf.length → ∀ size ∈ replySize s.decoder.buf, s.decoder.buf.length + count ≤ size))

instance (s : ReplyReader) (count : ℕ) : Decidable (s.Keeps count) := by
  unfold Keeps
  infer_instance

end ReplyReader

section Grammar

variable {p xs : List UInt8} {size : ℕ}

theorem replySize_short (h : p.length < 5) : replySize p = none := by
  have hnone : p[4]? = none := getElem?_eq_none (by omega)
  unfold replySize
  rw [hnone]
  cases p[3]? <;> rfl

theorem replySize_long (h : 5 ≤ p.length) : ∃ atyp length, p[3]? = some atyp ∧ p[4]? = some length ∧
    replySize p = some (if atyp = 1 then 10 else if atyp = 3 then 7 + length.toNat else 22) := by
  obtain ⟨atyp, hatyp⟩ : ∃ atyp, p[3]? = some atyp := ⟨_, getElem?_eq_getElem (by omega)⟩
  obtain ⟨length, hlength⟩ : ∃ length, p[4]? = some length := ⟨_, getElem?_eq_getElem (by omega)⟩
  refine ⟨atyp, length, hatyp, hlength, ?_⟩
  unfold replySize
  rw [hatyp, hlength]

theorem seven_le_replySize (h : replySize p = some size) : 5 ≤ p.length ∧ 7 ≤ size := by
  rcases Nat.lt_or_ge p.length 5 with hlt | hge
  · rw [replySize_short hlt] at h
    exact nomatch h
  · obtain ⟨atyp, length, -, -, hsize⟩ := replySize_long hge
    cases hsize.symm.trans h
    refine ⟨hge, ?_⟩
    split_ifs <;> omega

theorem getElem?_append_some {i : ℕ} {b : UInt8} (h : p[i]? = some b) : (p ++ xs)[i]? = some b :=
  (List.getElem?_append_left (List.getElem?_eq_some_iff.mp h).1).trans h

theorem replySize_append (h : replySize p = some size) : replySize (p ++ xs) = some size := by
  obtain ⟨atyp, length, hatyp, hlength, hsize⟩ := replySize_long (seven_le_replySize h).1
  unfold replySize
  rw [getElem?_append_some hatyp, getElem?_append_some hlength, ← h, hsize]

theorem ReplyPrefix.of_append (h : ReplyPrefix (p ++ xs)) : ReplyPrefix p :=
  ⟨fun b hb => h.version b (getElem?_append_some hb), fun b hb => h.code b (getElem?_append_some hb),
    fun b hb => h.reserved b (getElem?_append_some hb), fun b hb => h.atyp b (getElem?_append_some hb)⟩

theorem ReplyPrefix.append (h : ReplyPrefix p) (hp : 4 ≤ p.length) : ReplyPrefix (p ++ xs) := by
  have hsame : ∀ i, i < 4 → (p ++ xs)[i]? = p[i]? := fun i hi => getElem?_append_left (by omega)
  refine ⟨?_, ?_, ?_, ?_⟩
  · rw [hsame 0 (by omega)]
    exact h.version
  · rw [hsame 1 (by omega)]
    exact h.code
  · rw [hsame 2 (by omega)]
    exact h.reserved
  · rw [hsame 3 (by omega)]
    exact h.atyp

end Grammar

section Signed

variable {b : UInt8}

theorem toInt8_eq : b.toInt8.toInt = if 2 * b.toNat < 2 ^ 8 then (b.toNat : ℤ) else b.toNat - (2 ^ 8 : ℕ) :=
  BitVec.toInt_eq_toNat_cond _

theorem toInt8_of_lt (h : b < 128) : b.toInt8.toInt = b.toNat := by
  have h' : b.toNat < 128 := h
  rw [toInt8_eq, if_pos (by omega)]

theorem toInt8_of_ge (h : 128 ≤ b) : b.toInt8.toInt = b.toNat - 256 := by
  have h' : 128 ≤ b.toNat := h
  rw [toInt8_eq, if_neg (by omega)]
  rfl

end Signed

namespace SocksResponseDecoderT

variable {p : List UInt8} {n size : ℕ}

theorem rejects_eq : Rejects p ↔ ¬ Headed p ∨ ∃ b ∈ p[1]?, b.toInt8.toInt > 0x08 := by
  unfold Rejects Headed
  rw [not_and_or, not_and_or]
  push Not
  rw [or_left_comm, or_comm]

theorem rejects_iff (h : ∀ b ∈ p[1]?, b < 128) : Rejects p ↔ ¬ ReplyPrefix p := by
  have hcode : (∃ b ∈ p[1]?, b.toInt8.toInt > 0x08) ↔ ¬ ∀ b ∈ p[1]?, b ≤ 8 := by
    push Not
    refine exists_congr fun b => and_congr_right fun hb => ?_
    rw [toInt8_of_lt (h b hb), UInt8.not_le]
    exact Int.ofNat_lt
  rw [rejects_eq, hcode, replyPrefix_iff, not_and_or]

theorem rejects_of_not_headed (h : ¬ Headed p) : Rejects p := rejects_eq.mpr (.inl h)

theorem not_rejects (h : Headed p) (hcode : ∃ b ∈ p[1]?, 128 ≤ b) : ¬ Rejects p := by
  obtain ⟨code, hmem, hge⟩ := hcode
  rw [rejects_eq, not_or, not_not]
  refine ⟨h, ?_⟩
  rintro ⟨b, hb, hgt⟩
  obtain rfl := mem_unique hmem hb
  rw [toInt8_of_ge hge] at hgt
  have := code.toNat_lt
  omega

theorem request_short (h : p.length < 5) : request ⟨p⟩ = .ok (5 - p.length) := if_pos h

theorem request_long (h : ReplyPrefix p) (hsize : replySize p = some size) (hname : p[3]? = some 3 → ∀ b ∈ p[4]?, b < 128) :
    request ⟨p⟩ = .ok (size - 5) := by
  have hlong := (seven_le_replySize hsize).1
  obtain ⟨atyp, length, hatyp, hlength, hsize'⟩ := replySize_long hlong
  cases hsize'.symm.trans hsize
  unfold request
  rw [if_neg (Nat.not_lt.mpr hlong)]
  rw [getD_eq_getElem?_getD, getD_eq_getElem?_getD, hatyp, hlength]
  rcases h.atyp atyp hatyp with rfl | rfl | rfl
  · rfl
  · have hlt := hname hatyp length hlength
    have hlt' : length.toNat < 128 := hlt
    change ok ((length.toInt8.toInt + 2) % 2 ^ 64).toNat = _
    rw [toInt8_of_lt hlt, if_neg (by decide), if_pos rfl]
    congr 1
    omega
  · rfl

theorem messageReady_short (h : ReplyPrefix p) (hp : p.length < 5) : messageReady ⟨p⟩ = .ok false := by
  unfold messageReady
  split_ifs with hlt
  · rfl
  · have hfour : p.length = 4 := Nat.le_antisymm (Nat.lt_succ_iff.mp hp) (Nat.not_lt.mp hlt)
    obtain ⟨atyp, hatyp⟩ : ∃ atyp, p[3]? = some atyp := ⟨_, getElem?_eq_getElem (by omega)⟩
    rw [hfour, getD_eq_getElem?_getD, hatyp]
    rcases h.atyp atyp hatyp with rfl | rfl | rfl
    · rfl
    · rfl
    · rfl

theorem messageReady_long (h : ReplyPrefix p) (hsize : replySize p = some size) (hname : p[3]? = some 3 → ∀ b ∈ p[4]?, b < 128) :
    messageReady ⟨p⟩ = .ok (p.length = size) := by
  have hlong := (seven_le_replySize hsize).1
  obtain ⟨atyp, length, hatyp, hlength, hsize'⟩ := replySize_long hlong
  cases hsize'.symm.trans hsize
  unfold messageReady
  rw [if_neg (by dsimp only; omega)]
  rw [getD_eq_getElem?_getD, getD_eq_getElem?_getD, hatyp, hlength]
  rcases h.atyp atyp hatyp with rfl | rfl | rfl
  · rfl
  · have hlt := hname hatyp length hlength
    have hlt' : length.toNat < 128 := hlt
    change ok (decide (4 < p.length ∧ (p.length : ℤ) = (4 + 1 + length.toInt8.toInt + 2) % 2 ^ 32)) = _
    rw [toInt8_of_lt hlt, if_neg (by decide), if_pos rfl]
    congr 1
    exact decide_eq_decide.mpr (by omega)
  · rfl

theorem headed_of_not_rejects (h : ¬ Rejects p) : Headed p := by
  by_contra hheaded
  exact h (rejects_of_not_headed hheaded)

theorem request_ok (h : Headed p) : ∃ n, request ⟨p⟩ = .ok n := by
  unfold request
  split_ifs with hlt
  · exact ⟨_, rfl⟩
  · obtain ⟨atyp, hatyp⟩ : ∃ atyp, p[3]? = some atyp := ⟨_, getElem?_eq_getElem (by dsimp only at hlt; omega)⟩
    rw [getD_eq_getElem?_getD, hatyp]
    rcases h.2.2 atyp hatyp with rfl | rfl | rfl
    · exact ⟨_, rfl⟩
    · exact ⟨_, rfl⟩
    · exact ⟨_, rfl⟩

theorem messageReady_ok (h : Headed p) : ∃ ready, messageReady ⟨p⟩ = .ok ready := by
  unfold messageReady
  split_ifs with hlt
  · exact ⟨_, rfl⟩
  · obtain ⟨atyp, hatyp⟩ : ∃ atyp, p[3]? = some atyp := ⟨_, getElem?_eq_getElem (Nat.not_lt.mp hlt)⟩
    rw [getD_eq_getElem?_getD, hatyp]
    rcases h.2.2 atyp hatyp with rfl | rfl | rfl
    · exact ⟨_, rfl⟩
    · exact ⟨_, rfl⟩
    · exact ⟨_, rfl⟩

end SocksResponseDecoderT

namespace ReplyReader

open SocksResponseDecoderT

variable {stream p q u : List UInt8} {s s' s'' : ReplyReader} {count count' n : ℕ} {counts : List ℕ}

section Rounds

variable (hr : s.Ready count) (hn : s.decoder.request = .ok n) (hsize : s.decoder.buf.length + n ≤ size)
include hr hn hsize

theorem input_eq : s.decoder.input (some (s.unread.take count)) =
    if Rejects (s.decoder.buf ++ s.unread.take count) then .ok (-1, ⟨s.decoder.buf ++ s.unread.take count⟩)
    else .ok (count, ⟨s.decoder.buf ++ s.unread.take count⟩) := by
  obtain ⟨-, hpos, hle, hasked⟩ := hr
  have hlength : (s.unread.take count).length = count := length_take_of_le hle
  have hcount : count ≤ n := hasked n (by rw [hn]; rfl)
  unfold input
  rw [hn]
  cases hxs : s.unread.take count with
  | nil =>
    rw [hxs] at hlength
    exact absurd hlength (Nat.ne_of_lt hpos)
  | cons x xs =>
    rw [hxs] at hlength
    dsimp only
    rw [hlength, if_neg (by omega)]
    rfl

theorem run_rejects (h : Rejects (s.decoder.buf ++ s.unread.take count)) :
    s.run count = .ok ⟨⟨s.decoder.buf ++ s.unread.take count⟩, s.unread.drop count, .failed⟩ := by
  unfold run
  rw [input_eq hr hn hsize, if_pos h]
  rfl

theorem run_accepts (h : ¬ Rejects (s.decoder.buf ++ s.unread.take count)) : s.run count =
    (messageReady ⟨s.decoder.buf ++ s.unread.take count⟩).bind fun ready => .ok ⟨⟨s.decoder.buf ++ s.unread.take count⟩,
      s.unread.drop count, if ready then .ready ((s.decoder.buf ++ s.unread.take count).getD 1 0) else .more⟩ := by
  have hpos := hr.2.1
  unfold run
  rw [input_eq hr hn hsize, if_neg h]
  change (if (count : ℤ) = 0 ∨ (count : ℤ) = -1 then _ else _) = _
  rw [if_neg (by omega)]
  cases hm : messageReady ⟨s.decoder.buf ++ s.unread.take count⟩ with
  | error e => rfl
  | ok ready =>
    cases ready with
    | false => rfl
    | true =>
      unfold decode
      rw [hm]
      rfl

theorem run_goes : ∃ s', s.run count = .ok s' := by
  by_cases h : Rejects (s.decoder.buf ++ s.unread.take count)
  · exact ⟨_, run_rejects hr hn hsize h⟩
  · obtain ⟨ready, hready⟩ := messageReady_ok (headed_of_not_rejects h)
    rw [run_accepts hr hn hsize h, hready]
    exact ⟨_, rfl⟩

end Rounds

structure Sound (stream : List UInt8) (s : ReplyReader) : Prop extends Exact stream s where
  name : s.status = .more → s.decoder.buf[3]? = some 3 → ∀ length ∈ s.decoder.buf[4]?, length < 128

theorem sound_failed (hc : q ++ u = stream) (h : ¬ ReplyPrefix q) : Sound stream ⟨⟨q⟩, u, .failed⟩ := by
  refine ⟨⟨hc, iff_of_true rfl h, fun code => iff_of_false ?_ fun hready => h hready.1, fun hp => absurd hp h, ?_, ?_⟩, ?_⟩
  · exact nofun
  · exact nofun
  · exact fun count hr => nomatch hr.1
  · exact nofun

theorem sound_ready (hc : q ++ u = stream) (h : ReplyPrefix q) (hsize : replySize q = some q.length) :
    Sound stream ⟨⟨q⟩, u, .ready (q.getD 1 0)⟩ := by
  have hlong := (seven_le_replySize hsize).1
  have hcode : q[1]? = some (q.getD 1 0) := by
    rw [getElem?_eq_getElem (by omega), getD_eq_getElem _ _ (by omega)]
  refine ⟨⟨hc, iff_of_false ?_ (not_not.mpr h), fun code => ?_, fun _ size hs => ?_, ?_, ?_⟩, ?_⟩
  · exact nofun
  · refine ⟨fun hstatus => ?_, fun hready => ?_⟩
    · cases ReplyStatus.ready.inj hstatus
      exact ⟨h, hsize, hcode⟩
    · exact congrArg ReplyStatus.ready (some.inj (hcode.symm.trans hready.2.2))
  · exact Nat.le_of_eq (some.inj (hsize.symm.trans hs))
  · exact nofun
  · exact fun count hr => nomatch hr.1
  · exact nofun

theorem sound_more (hc : q ++ u = stream) (h : ReplyPrefix q) (hname : q[3]? = some 3 → ∀ length ∈ q[4]?, length < 128)
    (hsize : ∀ size ∈ replySize q, q.length < size) : Sound stream ⟨⟨q⟩, u, .more⟩ := by
  have hasks : ∃ n, request ⟨q⟩ = .ok n ∧ 0 < n ∧ q.length + n ≤ size := by
    rcases Nat.lt_or_ge q.length 5 with hlt | hge
    · refine ⟨_, request_short hlt, by omega, ?_⟩
      unfold size
      omega
    · obtain ⟨atyp, length, hatyp, hlength, hsome⟩ := replySize_long hge
      have hlt := hsize _ hsome
      refine ⟨_, request_long h hsome hname, by omega, ?_⟩
      have hbound : (if atyp = 1 then 10 else if atyp = 3 then 7 + length.toNat else 22) ≤ 134 := by
        split_ifs with hone hthree
        · decide
        · have hlength' : length.toNat < 128 := hname (by rw [hatyp, hthree]) length hlength
          omega
        · decide
      unfold size
      omega
  refine ⟨⟨hc, iff_of_false ?_ (not_not.mpr h), fun code => iff_of_false ?_ fun hready => ?_, fun _ size hs => Nat.le_of_lt (hsize size hs),
    fun _ => hasks, fun count hr => ?_⟩, fun _ => hname⟩
  · exact nofun
  · exact nofun
  · exact Nat.lt_irrefl _ (hsize _ hready.2.1)
  · obtain ⟨n, hn, -, hle⟩ := hasks
    exact run_goes hr hn hle

theorem Sound.step (h : Sound stream s) (hk : s.Keeps count) (hs : Step s count s') : Sound stream s' := by
  obtain ⟨hr, hx⟩ := hs
  obtain ⟨n, hn, -, hroom⟩ := h.asks hr.1
  have hc : (s.decoder.buf ++ s.unread.take count) ++ s.unread.drop count = stream := by
    rw [append_assoc, take_append_drop]
    exact h.consumed
  by_cases hp : ReplyPrefix (s.decoder.buf ++ s.unread.take count)
  · obtain ⟨hheaded, hcode⟩ := replyPrefix_iff.mp hp
    obtain ⟨hlow, hrest⟩ := hk hheaded
    obtain ⟨hname, hwithin⟩ := hrest hp
    have hlength : (s.decoder.buf ++ s.unread.take count).length = s.decoder.buf.length + count := by
      rw [length_append, length_take_of_le hr.2.2.1]
    have hcount : count ≤ n := hr.2.2.2 n (by rw [hn]; rfl)
    have hle : ∀ size ∈ replySize (s.decoder.buf ++ s.unread.take count), (s.decoder.buf ++ s.unread.take count).length ≤ size := by
      intro size hsize
      rw [hlength]
      rcases Nat.lt_or_ge s.decoder.buf.length 5 with hlt | hge
      · cases (request_short hlt).symm.trans hn
        have := (seven_le_replySize hsize).2
        omega
      · obtain ⟨atyp, length, -, -, hsome⟩ := replySize_long hge
        cases (replySize_append hsome).symm.trans hsize
        rcases Nat.eq_or_lt_of_le hge with hfive | hgt
        · cases (request_long hp.of_append hsome (h.name hr.1)).symm.trans hn
          have := (seven_le_replySize hsome).2
          omega
        · exact hwithin hgt _ hsome
    rw [run_accepts hr hn hroom (fun hrejects => (rejects_iff hlow).mp hrejects hp)] at hx
    cases hsize : replySize (s.decoder.buf ++ s.unread.take count) with
    | none =>
      have hshort : (s.decoder.buf ++ s.unread.take count).length < 5 := by
        by_contra hge
        obtain ⟨atyp, length, -, -, hsome⟩ := replySize_long (Nat.not_lt.mp hge)
        exact nomatch hsize.symm.trans hsome
      rw [messageReady_short hp hshort] at hx
      cases hx
      refine sound_more hc hp hname fun size hmem => ?_
      rw [hsize] at hmem
      exact nomatch hmem
    | some size =>
      rw [messageReady_long hp hsize hname] at hx
      cases hx
      by_cases heq : (s.decoder.buf ++ s.unread.take count).length = size
      · rw [decide_eq_true heq]
        exact sound_ready hc hp (hsize.trans (congrArg some heq.symm))
      · rw [decide_eq_false heq]
        refine sound_more hc hp hname fun size' hmem => ?_
        cases hsize.symm.trans hmem
        exact Nat.lt_of_le_of_ne (hle size hsize) heq
  · have hrejects : Rejects (s.decoder.buf ++ s.unread.take count) := by
      by_cases hheaded : Headed (s.decoder.buf ++ s.unread.take count)
      · exact (rejects_iff (hk hheaded).1).mpr hp
      · exact rejects_of_not_headed hheaded
    cases (run_rejects hr hn hroom hrejects).symm.trans hx
    exact sound_failed hc hp

set_option maxRecDepth 2000 in
theorem run_sound (h : Run (Start stream) (Guarded Keeps Step) counts s) : Sound stream s := by
  refine h.invariant (Sound stream) (fun s hs => ?_) fun _ _ _ hs hstep => hs.step hstep.1 hstep.2
  rw [hs]
  apply sound_more
  · rfl
  · exact replyPrefix_iff.mpr (by decide)
  · exact nofun
  · exact fun size hb => nomatch hb

theorem Exact.unique (h : Exact stream s) (h' : Exact stream s') (hend : s.status ≠ .more) (hend' : s'.status ≠ .more) :
    s.status = s'.status ∧ (s.status ≠ .failed → s.unread = s'.unread) := by
  -- the first five bytes are the same where both have been read
  have hprefix : ∀ {t t' : ReplyReader}, Exact stream t → Exact stream t' → 5 ≤ t.decoder.buf.length →
      ReplyPrefix t.decoder.buf → ReplyPrefix t'.decoder.buf := by
    intro t t' ht ht' hlong hp
    have hstream : ReplyPrefix (t'.decoder.buf ++ t'.unread) := by
      rw [ht'.consumed, ← ht.consumed]
      exact hp.append (by omega)
    exact hstream.of_append
  have hsame : ∀ {t t' : ReplyReader} {code : UInt8}, Exact stream t → Exact stream t' → t.status = .ready code → t'.status ≠ .more →
      t'.status = .ready code ∧ t'.unread = t.unread := by
    intro t t' code ht ht' hready hend
    obtain ⟨hp, hsize, hcode⟩ := (ht.ready code).mp hready
    have hlong := (seven_le_replySize hsize).1
    have hp' := hprefix ht ht' hlong hp
    cases hstatus : t'.status with
    | more => exact absurd hstatus hend
    | failed => exact absurd hp' (ht'.failed.mp hstatus)
    | ready code' =>
      obtain ⟨-, hsize', hcode'⟩ := (ht'.ready code').mp hstatus
      have heq : replySize stream = some t.decoder.buf.length := by
        rw [← ht.consumed]
        exact replySize_append hsize
      have heq' : replySize stream = some t'.decoder.buf.length := by
        rw [← ht'.consumed]
        exact replySize_append hsize'
      have hlength := some.inj (heq.symm.trans heq')
      obtain ⟨hbuf, hunread⟩ := append_inj (ht.consumed.trans ht'.consumed.symm) hlength
      rw [hbuf] at hcode
      exact ⟨congrArg _ (some.inj (hcode'.symm.trans hcode)), hunread.symm⟩
  cases hstatus : s.status with
  | more => exact absurd hstatus hend
  | ready code =>
    obtain ⟨hstatus', hunread⟩ := hsame h h' hstatus hend'
    exact ⟨hstatus'.symm, fun _ => hunread.symm⟩
  | failed =>
    cases hstatus' : s'.status with
    | more => exact absurd hstatus' hend'
    | failed => exact ⟨rfl, fun hne => absurd rfl hne⟩
    | ready code =>
      have hready := (hsame h' h hstatus' hend).1
      exact nomatch hstatus.symm.trans hready

theorem name_ends (hs : Step s count s') (hbuf : s.decoder.buf.length = 5) (hp : ReplyPrefix s.decoder.buf)
    (hatyp : s.decoder.buf[3]? = some 3) (hlength : s.decoder.buf[4]? = some 255) : ¬ Exact stream s' := by
  obtain ⟨hr, hx⟩ := hs
  have hrequest : s.decoder.request = .ok 1 := by
    unfold request
    rw [if_neg (by omega), getD_eq_getElem?_getD, getD_eq_getElem?_getD, hatyp, hlength]
    rfl
  have hcount : count = 1 := Nat.le_antisymm (hr.2.2.2 1 (by rw [hrequest]; rfl)) hr.2.1
  have hroom : s.decoder.buf.length + 1 ≤ size := by
    rw [hbuf]
    decide
  have hsix : (s.decoder.buf ++ s.unread.take count).length = 6 := by
    rw [length_append, length_take_of_le hr.2.2.1, hbuf, hcount]
  have hp' : ReplyPrefix (s.decoder.buf ++ s.unread.take count) := hp.append (by omega)
  have hcode : ∀ b ∈ (s.decoder.buf ++ s.unread.take count)[1]?, b < 128 :=
    fun b hb => UInt8.lt_of_le_of_lt (hp'.code b hb) (by decide)
  have hready : messageReady ⟨s.decoder.buf ++ s.unread.take count⟩ = .ok true := by
    unfold messageReady
    rw [hsix, getD_eq_getElem?_getD, getD_eq_getElem?_getD, getElem?_append_some hatyp, getElem?_append_some hlength]
    rfl
  rw [run_accepts hr hrequest hroom (fun hrejects => (rejects_iff hcode).mp hrejects hp'), hready] at hx
  cases hx
  intro h
  obtain ⟨-, hsize, -⟩ := (h.ready _).mp rfl
  unfold replySize at hsize
  rw [hsix, getElem?_append_some hatyp, getElem?_append_some hlength] at hsize
  exact absurd (some.inj hsize) (by decide)

theorem name_asks (hatyp : p[3]? = some 3) {length : UInt8} (hlength : p[4]? = some length) (hge : 128 ≤ length)
    (hn : request ⟨p⟩ = .ok n) (hpos : 0 < n) (hroom : p.length + n ≤ size) : length = 255 := by
  have hlong : 5 ≤ p.length := (List.getElem?_eq_some_iff.mp hlength).1
  unfold request at hn
  rw [if_neg (Nat.not_lt.mpr hlong)] at hn
  rw [getD_eq_getElem?_getD, getD_eq_getElem?_getD, hatyp, hlength] at hn
  have hn' : ((length.toInt8.toInt + 2) % 2 ^ 64).toNat = n := ok.inj hn
  have hlt := length.toNat_lt
  rw [toInt8_of_ge hge] at hn'
  unfold size at hroom
  exact UInt8.toNat_inj.mp (show length.toNat = 255 by omega)

theorem Sound.breaks (h : Sound stream s) (hk : ¬ s.Keeps count) (hs : Step s count s') :
    ¬ Exact stream s' ∨ ∀ count' s'', Step s' count' s'' → ¬ Exact stream s'' := by
  obtain ⟨hr, hx⟩ := hs
  obtain ⟨n, hn, -, hroom⟩ := h.asks hr.1
  have hlength : (s.decoder.buf ++ s.unread.take count).length = s.decoder.buf.length + count := by
    rw [length_append, length_take_of_le hr.2.2.1]
  obtain ⟨hheaded, hk⟩ := Classical.not_imp.mp hk
  rcases not_and_or.mp hk with hcode | hrest
  · -- a code of 128 or more is not reported
    push Not at hcode
    have hcode' : ∃ b ∈ (s.decoder.buf ++ s.unread.take count)[1]?, 128 ≤ b := hcode.imp fun b hb => ⟨hb.1, UInt8.not_lt.mp hb.2⟩
    obtain ⟨ready, hready⟩ := messageReady_ok hheaded
    rw [run_accepts hr hn hroom (not_rejects hheaded hcode'), hready] at hx
    cases hx
    refine .inl fun he => ?_
    have hfailed := he.failed.mpr fun hp => ?_
    · cases ready <;> exact nomatch hfailed
    · obtain ⟨b, hb, hge⟩ := hcode'
      exact absurd (UInt8.le_trans hge (hp.code b hb)) (by decide)
  · obtain ⟨hp, hrest⟩ := Classical.not_imp.mp hrest
    have hlow : ∀ b ∈ (s.decoder.buf ++ s.unread.take count)[1]?, b < 128 :=
      fun b hb => UInt8.lt_of_le_of_lt (hp.code b hb) (by decide)
    obtain ⟨ready, hready⟩ := messageReady_ok hheaded
    rw [run_accepts hr hn hroom (fun hrejects => (rejects_iff hlow).mp hrejects hp), hready] at hx
    cases hx
    rcases not_and_or.mp hrest with hname | hwithin
    · -- the length of the name has just been read
      obtain ⟨hatyp, hname⟩ := Classical.not_imp.mp hname
      push Not at hname
      obtain ⟨length, hmem, hge⟩ := hname
      have hge' : 128 ≤ length := UInt8.not_lt.mp hge
      have hfive : (s.decoder.buf ++ s.unread.take count).length = 5 := by
        have hlong : 5 ≤ (s.decoder.buf ++ s.unread.take count).length := (List.getElem?_eq_some_iff.mp hmem).1
        rcases Nat.lt_or_ge s.decoder.buf.length 5 with hlt | hge5
        · cases (request_short hlt).symm.trans hn
          have hcount := hr.2.2.2 (5 - s.decoder.buf.length) (by rw [hn]; rfl)
          omega
        · obtain ⟨atyp, length', hatyp', hlength', -⟩ := replySize_long hge5
          cases (getElem?_append_some hlength').symm.trans hmem
          rw [some.inj ((getElem?_append_some hatyp').symm.trans hatyp)] at hatyp'
          exact absurd (h.name hr.1 hatyp' _ hlength') hge
      by_cases hff : length = 255
      · refine .inr fun count' s'' hs'' => ?_
        exact name_ends hs'' hfive hp hatyp (by rw [← hff]; exact hmem)
      · refine .inl fun he => hff ?_
        cases ready with
        | true =>
          obtain ⟨-, hsize, -⟩ := (he.ready _).mp rfl
          dsimp only at hsize
          have := (seven_le_replySize hsize).2
          omega
        | false =>
          obtain ⟨n', hn', hpos', hroom'⟩ := he.asks rfl
          exact name_asks hatyp hmem hge' hn' hpos' hroom'
    · push Not at hwithin
      obtain ⟨-, size, hsize, hlt⟩ := hwithin
      refine .inl fun he => ?_
      have hle := he.within hp size (replySize_append hsize)
      dsimp only at hle
      omega

/-- Reads that keep to the condition find the reply, and what they find does not depend on how the stream is divided. Reads that do not
go wrong. -/
theorem reply_exact (h : Run (Start stream) (Guarded Keeps Step) counts s) : Exact stream s ∧
    (∀ counts' s', Run (Start stream) (Guarded Keeps Step) counts' s' → s.status ≠ .more → s'.status ≠ .more →
      s.status = s'.status ∧ (s.status ≠ .failed → s.unread = s'.unread)) ∧
    ∀ count s', ¬ s.Keeps count → Step s count s' → ¬ Exact stream s' ∨ ∀ count' s'', Step s' count' s'' → ¬ Exact stream s'' :=
  ⟨(run_sound h).toExact, fun _ _ h' => (run_sound h).toExact.unique (run_sound h').toExact, fun _ _ => (run_sound h).breaks⟩

/-- A reply with a name of three bytes, and the first bytes of a greeting. -/
def nameReply : List UInt8 := [5, 0, 0, 3, 3, 97, 46, 98, 31, 144, 0xff, 0]

set_option maxRecDepth 2000 in
theorem reply_exact_name : ∃ s, Run (Start nameReply) (Guarded Keeps Step) [3, 2, 4, 1] s ∧ s.status = .ready 0 ∧
    s.unread = [0xff, 0] ∧ Exact nameReply s :=
  exists_run (P := fun s => s.status = .ready 0 ∧ s.unread = [0xff, 0]) (rfl : Start nameReply ⟨.new, nameReply, .more⟩)
    (by decide) fun _ hs ⟨hstatus, hunread⟩ => ⟨hstatus, hunread, (reply_exact hs).1⟩

/-- A reply with an IPv4 address, whose last bytes are read together with those behind it. -/
def inetReply : List UInt8 := [5, 0, 0, 1, 10, 0, 0, 1, 31, 144, 0xff, 0, 0, 0]

set_option maxRecDepth 2000 in
theorem replies_overread : ∃ s, Run (Start inetReply) Step [5, 3, 4] s ∧ s.status = .more ∧ s.unread = [0, 0] ∧
    ¬ Exact inetReply s := by
  refine exists_run_free (P := fun s => s = ⟨⟨[5, 0, 0, 1, 10, 0, 0, 1, 31, 144, 0xff, 0]⟩, [0, 0], .more⟩)
    (rfl : Start inetReply ⟨.new, inetReply, .more⟩) (by decide) fun s _ hs => ?_
  subst hs
  exact ⟨rfl, rfl, fun h => absurd (h.within (by decide) 10 rfl) (by decide)⟩

end ReplyReader

end Zmq
