import LibZmq.Zmtp.CurveBoxes

/-! MESSAGE commands: what is encoded is decoded, and what is decoded has not been decoded before. -/

namespace Zmq

open List Prod
namespace Curve

/-- A box of one side opens under no other nonce of either side. -/
def Authentic (crypto : Crypto) : Prop :=
  ∀ x p tag tag' k c (n n' : UInt64), tag ∈ [clientTag, serverTag] → tag' ∈ [clientTag, serverTag] →
    crypto.afternm (zeros zeroBytes ++ x) (tag ++ putUint64 n) k = some c →
    crypto.openAfternm c (tag' ++ putUint64 n') k = some p → tag' = tag ∧ n' = n

/-- The counter that a command states. -/
def nonceOf (m : Msg) : Option UInt64 :=
  if m.data.take 6 = helloName then some (getUint64 (m.data.drop 112))
  else if m.data.take 9 = initiateName then some (getUint64 (m.data.drop 105))
  else if m.data.take 6 = readyName then some (getUint64 (m.data.drop 6))
  else if m.data.take 8 = messageName then some (getUint64 (m.data.drop 8))
  else none

/-- What a message says to the other side: the payload, and the two flags that are transmitted. -/
def content (m : Msg) : List UInt8 × Bool × Bool :=
  (m.data, decide (m.flags &&& Msg.more ≠ 0), decide (m.flags &&& Msg.command ≠ 0))

/-- `encode` for one message after the other. -/
def encodeEach {μ : Type} (encode : μ → Msg → Except Crash (Msg × μ)) : μ → List Msg → Except Crash (List Msg × μ)
  | s, [] => .ok ([], s)
  | s, m :: ms => do
    let (w, s) ← encode s m
    let (ws, s) ← encodeEach encode s ms
    return (w :: ws, s)

/-- `decode` for one command after the other. -/
def decodeEach {μ : Type} (decode : μ → Msg → Except Crash (Except MechErrno Msg × μ)) :
    μ → List Msg → Except Crash (List (Except MechErrno Msg) × μ)
  | s, [] => .ok ([], s)
  | s, w :: ws => do
    let (x, s) ← decode s w
    let (xs, s) ← decodeEach decode s ws
    return (x :: xs, s)

variable {crypto : Crypto} {tag tag' precom : List UInt8} {nonce nonce' peerNonce : UInt64} {m w : Msg}

theorem putUint64_length (n : UInt64) : (putUint64 n).length = 8 := rfl

theorem getUint64_append (n : UInt64) (rest : List UInt8) : getUint64 (putUint64 n ++ rest) = n := get_put_uint64 n

theorem tag_length (h : tag ∈ [clientTag, serverTag]) : tag.length = 16 := by
  rcases mem_pair.mp h with rfl | rfl <;> rfl

theorem tagged_length (h : tag ∈ [clientTag, serverTag]) (n : UInt64) : (tag ++ putUint64 n).length = 24 := by
  rw [length_append, tag_length h, putUint64_length]

theorem encodeMessage_eq (hl : crypto.Lawful) (ht : tag ∈ [clientTag, serverTag]) (nonce : UInt64) (precom : List UInt8) (m : Msg) :
    ∃ c, crypto.afternm (zeros zeroBytes ++ messageFlags m :: m.data) (tag ++ putUint64 nonce) precom = some (zeros boxZeroBytes ++ c) ∧
      c.length = 17 + m.data.length ∧ crypto.openAfternm (zeros boxZeroBytes ++ c) (tag ++ putUint64 nonce) precom =
        some (zeros zeroBytes ++ messageFlags m :: m.data) ∧
      encodeMessage crypto tag nonce precom m = .ok (.ofData (messageName ++ putUint64 nonce ++ c)) := by
  obtain ⟨c, hc, hlen, hopen⟩ := hl.afternm (messageFlags m :: m.data) (tag ++ putUint64 nonce) precom (tagged_length ht nonce)
  refine ⟨c, hc, by rw [hlen, length_cons]; omega, hopen, ?_⟩
  unfold encodeMessage
  rw [hc]
  dsimp only
  rw [strip_zeros]

theorem flag_more {p q : Prop} [Decidable p] [Decidable q] :
    ((if p then 1 else 0) ||| (if q then 2 else 0) : UInt8) &&& 1 ≠ 0 ↔ p := by
  split_ifs with hp hq hq
  · exact iff_of_true (by decide) hp
  · exact iff_of_true (by decide) hp
  · exact iff_of_false (by decide) hp
  · exact iff_of_false (by decide) hp

theorem flag_command {p q : Prop} [Decidable p] [Decidable q] :
    ((if p then 1 else 0) ||| (if q then 2 else 0) : UInt8) &&& 2 ≠ 0 ↔ q := by
  split_ifs with hp hq hq
  · exact iff_of_true (by decide) hq
  · exact iff_of_false (by decide) hq
  · exact iff_of_true (by decide) hq
  · exact iff_of_false (by decide) hq

theorem openedMessage_flags (p : List UInt8) : (openedMessage p).flags =
    (if p.getD zeroBytes 0 &&& 1 ≠ 0 then 1 else 0) ||| (if p.getD zeroBytes 0 &&& 2 ≠ 0 then 2 else 0) := by
  unfold openedMessage
  dsimp only
  split_ifs
  · exact (by decide : 0 ||| Msg.more ||| Msg.command = 1 ||| 2)
  · exact (by decide : 0 ||| Msg.command = 0 ||| 2)
  · exact (by decide : 0 ||| Msg.more = 1 ||| 0)
  · exact (by decide : (0 : UInt8) = 0 ||| 0)

theorem openedMessage_data (p : List UInt8) : (openedMessage p).data = p.drop (zeroBytes + 1) := by
  unfold openedMessage
  dsimp only
  split_ifs <;> rfl

theorem content_opened : content (openedMessage (zeros zeroBytes ++ messageFlags m :: m.data)) = content m := by
  have hflags : (zeros zeroBytes ++ messageFlags m :: m.data).getD zeroBytes 0 = messageFlags m := by
    rfl
  have hdata : (zeros zeroBytes ++ messageFlags m :: m.data).drop (zeroBytes + 1) = m.data := by
    rfl
  have hmore : messageFlags m &&& 1 ≠ 0 ↔ m.flags &&& Msg.more ≠ 0 := flag_more
  have hcommand : messageFlags m &&& 2 ≠ 0 ↔ m.flags &&& Msg.command ≠ 0 := flag_command
  unfold content
  rw [openedMessage_data, openedMessage_flags, ]
  refine Prod.ext rfl (Prod.ext (decide_eq_decide.mpr ?_) (decide_eq_decide.mpr ?_))
  · exact flag_more.trans hmore
  · exact flag_command.trans hcommand

theorem nonceOf_message (n : UInt64) (c : List UInt8) : nonceOf (.ofData (messageName ++ putUint64 n ++ c)) = some n :=
  congrArg some (getUint64_append n c)

theorem nonceOf_named (h : w.data.take 8 = messageName) : nonceOf w = some (getUint64 (w.data.drop 8)) := by
  have hother (k : ℕ) (hk : k ≤ 9) (name : List UInt8) (hn : messageName.take k ≠ name.take 8) : w.data.take k ≠ name := by
    rintro rfl
    refine hn ?_
    rw [← h, take_take, take_take, Nat.min_comm]
  unfold nonceOf
  rw [if_neg (hother 6 (by decide) _ (by decide)), if_neg (hother 9 (by decide) _ (by decide)),
    if_neg (hother 6 (by decide) _ (by decide)), if_pos h]

theorem decode_encode (hl : crypto.Lawful) (ht : tag ∈ [clientTag, serverTag]) (h : peerNonce < nonce) :
    ∃ w m', encodeMessage crypto tag nonce precom m = .ok w ∧ nonceOf w = some nonce ∧
      decodeMessage crypto tag peerNonce precom w = (.ok m', nonce) ∧ content m' = content m := by
  obtain ⟨c, -, hlen, hopen, henc⟩ := encodeMessage_eq hl ht nonce precom m
  refine ⟨_, _, henc, nonceOf_message nonce c, ?_, content_opened⟩
  have hname : (messageName ++ putUint64 nonce ++ c).take 8 = messageName := rfl
  have hget : getUint64 ((messageName ++ putUint64 nonce ++ c).drop 8) = nonce := getUint64_append nonce c
  have hdrop : (messageName ++ putUint64 nonce ++ c).drop 16 = c := rfl
  have hput : ((messageName ++ putUint64 nonce ++ c).drop 8).take 8 = putUint64 nonce := rfl
  have hsize : (messageName ++ putUint64 nonce ++ c).length = 16 + c.length := by
    rw [length_append]
    rfl
  unfold decodeMessage
  rw [Msg.ofData_data, if_neg (by omega), if_neg (not_not.mpr hname), hget, hdrop, hput, hopen]
  rw [if_neg (UInt64.not_le.mpr h)]

theorem decodeMessage_ok (h : decodeMessage crypto tag peerNonce precom w = (.ok m, nonce)) :
    33 ≤ w.data.length ∧ w.data.take 8 = messageName ∧ nonceOf w = some nonce ∧ peerNonce < nonce ∧
      ∃ p, crypto.openAfternm (zeros boxZeroBytes ++ w.data.drop 16) (tag ++ (w.data.drop 8).take 8) precom = some p := by
  unfold decodeMessage at h
  dsimp only at h
  split_ifs at h with h1 h2 h3
  · cases (mk.inj h).1
  · cases (mk.inj h).1
  · cases (mk.inj h).1
  split at h
  · cases (mk.inj h).1
  · rename_i p hp
    cases h
    exact ⟨Nat.not_lt.mp h1, not_not.mp h2, nonceOf_named (not_not.mp h2), UInt64.not_le.mp h3, p, hp⟩

theorem decodeMessage_nonce {r : Except MechErrno Msg} (h : decodeMessage crypto tag peerNonce precom w = (r, nonce)) :
    nonce = peerNonce ∨ peerNonce < nonce ∧ nonceOf w = some nonce := by
  unfold decodeMessage at h
  dsimp only at h
  split_ifs at h with h1 h2 h3
  · exact .inl (mk.inj h).2.symm
  · exact .inl (mk.inj h).2.symm
  · exact .inl (mk.inj h).2.symm
  have hnonce : getUint64 (w.data.drop 8) = nonce := by
    split at h
    · exact (mk.inj h).2
    · exact (mk.inj h).2
  rw [← hnonce]
  exact .inr ⟨UInt64.not_le.mp h3, nonceOf_named (not_not.mp h2)⟩

theorem decode_reflected (hl : crypto.Lawful) (ha : Authentic crypto) (ht : tag ∈ [clientTag, serverTag])
    (ht' : tag' ∈ [clientTag, serverTag]) (hne : tag' ≠ tag) (he : encodeMessage crypto tag nonce precom m = .ok w)
    {m' : Msg} : decodeMessage crypto tag' peerNonce precom w ≠ (.ok m', nonce') := by
  intro h
  obtain ⟨c, hc, -, -, henc⟩ := encodeMessage_eq hl ht nonce precom m
  obtain rfl := Except.ok.inj (henc.symm.trans he)
  obtain ⟨-, -, -, -, p, hp⟩ := decodeMessage_ok h
  exact hne (ha _ p tag tag' precom _ nonce nonce ht ht' hc hp).1

/-! Whole sequences. The two sides differ in their states and in their tags. -/

section Sequences

variable {μ ν : Type} {encode : μ → Msg → Except Crash (Msg × μ)} {decode : ν → Msg → Except Crash (Except MechErrno Msg × ν)}
  {nonceAt : μ → UInt64} {peerNonceAt : ν → UInt64} {precomS : μ → List UInt8} {precomR : ν → List UInt8}
  {readyS : μ → Prop} {readyR : ν → Prop} {s s' : μ} {r r' : ν} {ms ws : List Msg}

def Sends (crypto : Crypto) (tag : List UInt8) (encode : μ → Msg → Except Crash (Msg × μ)) (nonceAt : μ → UInt64)
    (precomS : μ → List UInt8) (readyS : μ → Prop) : Prop :=
  ∀ s m w, readyS s → encodeMessage crypto tag (nonceAt s) (precomS s) m = .ok w →
    ∃ s', encode s m = .ok (w, s') ∧ readyS s' ∧ nonceAt s' = nonceAt s + 1 ∧ precomS s' = precomS s

def Hears (crypto : Crypto) (tag : List UInt8) (decode : ν → Msg → Except Crash (Except MechErrno Msg × ν))
    (peerNonceAt : ν → UInt64) (precomR : ν → List UInt8) (readyR : ν → Prop) : Prop :=
  ∀ r w x n, readyR r → decodeMessage crypto tag (peerNonceAt r) (precomR r) w = (x, n) →
    ∃ r', decode r w = .ok (x, r') ∧ readyR r' ∧ peerNonceAt r' = n ∧ precomR r' = precomR r

theorem add_one_toNat {n : UInt64} (h : n.toNat + 1 < 2 ^ 64) : (n + 1).toNat = n.toNat + 1 := by
  exact Nat.mod_eq_of_lt h

theorem decodeEach_encodeEach (hl : crypto.Lawful) (ht : tag ∈ [clientTag, serverTag])
    (hs : Sends crypto tag encode nonceAt precomS readyS) (hr : Hears crypto tag decode peerNonceAt precomR readyR)
    (h1 : readyS s) (h2 : readyR r) (hk : precomR r = precomS s) (hn : ms ≠ [] → peerNonceAt r < nonceAt s)
    (hlen : (nonceAt s).toNat + ms.length ≤ 2 ^ 64) :
    ∃ (ws : List Msg) (s' : μ) (ds : List Msg) (r' : ν), encodeEach encode s ms = .ok (ws, s') ∧
      decodeEach decode r ws = .ok (ds.map .ok, r') ∧
      ds.map content = ms.map content := by
  induction ms generalizing s r with
  | nil => exact ⟨[], s, [], r, rfl, rfl, rfl⟩
  | cons m ms ih =>
    obtain ⟨w, d, henc, -, hdec, hcontent⟩ : ∃ w m', encodeMessage crypto tag (nonceAt s) (precomS s) m = .ok w ∧
        nonceOf w = some (nonceAt s) ∧ decodeMessage crypto tag (peerNonceAt r) (precomS s) w = (.ok m', nonceAt s) ∧
        content m' = content m :=
      decode_encode hl ht (hn (cons_ne_nil m ms))
    obtain ⟨s1, hs1, hready1, hnonce1, hprecom1⟩ := hs s m w h1 henc
    obtain ⟨r1, hr1, hheard1, hpeer1, hprecom2⟩ := hr r w _ _ h2 (hk ▸ hdec)
    rw [length_cons] at hlen
    have hadd : ms ≠ [] → (nonceAt s + 1).toNat = (nonceAt s).toNat + 1 := fun hne => by
      have := length_pos_of_ne_nil hne
      exact add_one_toNat (by omega)
    obtain ⟨ws, s2, ds, r2, hws, hds, hcontents⟩ := ih hready1 hheard1 (by rw [hprecom2, hk, hprecom1])
      (fun hne => by
        rw [hpeer1, hnonce1, UInt64.lt_iff_toNat_lt, hadd hne]
        exact Nat.lt_succ_self _)
      (by
        rcases eq_or_ne ms [] with rfl | hne
        · exact Nat.le_of_lt (nonceAt s1).toNat_lt
        · rw [hnonce1, hadd hne]
          omega)
    refine ⟨w :: ws, s2, d :: ds, r2, ?_, ?_, ?_⟩
    · unfold encodeEach
      rw [hs1, Block.ok_bind]
      dsimp only
      rw [hws]
      rfl
    · unfold decodeEach
      rw [hr1, Block.ok_bind]
      dsimp only
      rw [hds]
      rfl
    · rw [map_cons, map_cons, hcontent, hcontents]

theorem decode_zero {x : Except MechErrno Msg} (hw : nonceOf w = some 0)
    (h : decodeMessage crypto tag peerNonce precom w = (x, nonce)) : ∀ m, x ≠ .ok m := by
  rintro m rfl
  obtain ⟨-, -, hn, hlt, -⟩ := decodeMessage_ok h
  cases hw.symm.trans hn
  exact Nat.not_lt_zero _ (UInt64.lt_iff_toNat_lt.mp hlt)

theorem not_decodeEach_encodeEach (hl : crypto.Lawful) (ht : tag ∈ [clientTag, serverTag])
    (hs : Sends crypto tag encode nonceAt precomS readyS) (hr : Hears crypto tag decode peerNonceAt precomR readyR) (k : ℕ)
    (h1 : readyS s) (h2 : readyR r) (hk : nonceAt s + UInt64.ofNat k = 0) {xs : List (Except MechErrno Msg)}
    (he : encodeEach encode s (replicate (k + 1) m) = .ok (ws, s')) (hd : decodeEach decode r ws = .ok (xs, r')) :
    ∃ x ∈ xs, ∀ m, x ≠ .ok m := by
  induction k generalizing s r ws xs with
  | zero =>
    obtain ⟨c, -, -, -, henc⟩ := encodeMessage_eq hl ht (nonceAt s) (precomS s) m
    obtain ⟨s1, hs1, -, -, -⟩ := hs s m _ h1 henc
    rw [replicate_succ, encodeEach, hs1, Block.ok_bind] at he
    obtain ⟨⟨ws1, s2⟩, hws, hret⟩ := bind_ok he
    cases hret
    obtain ⟨r1, hr1, -, -, -⟩ := hr r _ _ _ h2 rfl
    rw [decodeEach, hr1, Block.ok_bind] at hd
    obtain ⟨⟨xs1, r2⟩, hxs, hret⟩ := bind_ok hd
    cases hret
    rw [show UInt64.ofNat 0 = 0 from rfl, UInt64.add_zero] at hk
    refine ⟨_, mem_cons_self, decode_zero (hk ▸ nonceOf_message (nonceAt s) c) rfl⟩
  | succ k ih =>
    obtain ⟨c, -, -, -, henc⟩ := encodeMessage_eq hl ht (nonceAt s) (precomS s) m
    obtain ⟨s1, hs1, hready1, hnonce1, -⟩ := hs s m _ h1 henc
    rw [replicate_succ, encodeEach, hs1, Block.ok_bind] at he
    obtain ⟨⟨ws1, s2⟩, hws, hret⟩ := bind_ok he
    cases hret
    obtain ⟨r1, hr1, hheard1, -, -⟩ := hr r _ _ _ h2 rfl
    rw [decodeEach, hr1, Block.ok_bind] at hd
    obtain ⟨⟨xs1, r2⟩, hxs, hret⟩ := bind_ok hd
    cases hret
    have hk1 : nonceAt s1 + UInt64.ofNat k = 0 := by
      rw [hnonce1, ← hk, UInt64.ofNat_add, UInt64.add_assoc, UInt64.add_comm 1]
      rfl
    obtain ⟨x, hx, hno⟩ := ih hready1 hheard1 hk1 hws hxs
    exact ⟨x, mem_cons_of_mem _ hx, hno⟩

end Sequences

end Curve
end Zmq
