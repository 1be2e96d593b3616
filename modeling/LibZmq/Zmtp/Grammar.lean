import LibZmq.Zmtp.Metadata

/-! What `parse_metadata` accepts. A buffer is cut into the complete properties at its head and a rest that does not
begin with one. -/

namespace Zmq

open List
namespace Metadata

variable {check : Check} {o : MechanismOptions} {zapFlag : Bool} {m : MechanismBase} {p : Property} {k : UInt8} {fuel : ℕ}
  {ps : List Property} {bytes rest : List UInt8}

/-- A property of which the lengths can be stated. -/
def Fits (p : Property) : Prop := p.1.length < 2 ^ 8 ∧ p.2.length < 2 ^ 32

def encode (p : Property) : List UInt8 :=
  UInt8.ofNat p.1.length :: (p.1 ++ putUint32 (UInt32.ofNat p.2.length) ++ p.2)

def encodeAll (ps : List Property) : List UInt8 := ps.flatMap encode

/-- The property at the head, and the bytes behind it. -/
def next : List UInt8 → Option (Property × List UInt8)
  | [] => none
  | k :: bytes =>
    let n := k.toNat
    if bytes.length < n + 4 then none
    else
      let v := (getUint32 (bytes.drop n)).toNat
      if bytes.length < n + 4 + v then none
      else some ((bytes.take n, (bytes.drop (n + 4)).take v), bytes.drop (n + 4 + v))

def left : List UInt8 → ℕ
  | [] => 0
  | [_] => 1
  | k :: bytes =>
    if bytes.length < k.toNat then bytes.length
    else if bytes.length - k.toNat < 4 then bytes.length - k.toNat
    else bytes.length - k.toNat - 4

theorem encode_length (p : Property) : (encode p).length = p.1.length + p.2.length + 5 := by
  simp [encode, putUint32]
  omega

theorem putUint32_length (n : UInt32) : (putUint32 n).length = 4 := rfl

/-- The complete properties at the head of some bytes, and what is left. -/
def cutAll : ℕ → List UInt8 → List Property × List UInt8
  | 0, bytes => ([], bytes)
  | fuel + 1, bytes =>
    match next bytes with
    | none => ([], bytes)
    | some (p, rest) => ((p :: (cutAll fuel rest).1), (cutAll fuel rest).2)

def cut (bytes : List UInt8) : List Property × List UInt8 := cutAll bytes.length bytes

def reportAll (check : Check) (zapFlag : Bool) : MechanismBase → List Property → Option MechErrno × MechanismBase
  | m, [] => (none, m)
  | m, p :: ps =>
    match refusal check m.options p with
    | some e => (some e, m)
    | none => reportAll check zapFlag (keep zapFlag m p) ps

def firstRefusal (check : Check) (o : MechanismOptions) (ps : List Property) : Option MechErrno :=
  ps.findSome? (refusal check o)

/-- The bytes end right behind a name, or right behind the length of a value that is missing altogether. -/
def Seam (bytes : List UInt8) : Prop :=
  ∃ k name, name.length = k.toNat ∧ (bytes = k :: name ∧ name ≠ [] ∨ ∃ n, n ≠ 0 ∧ bytes = k :: (name ++ putUint32 n))

theorem exists_putUint32 (h : bytes.length = 4) : ∃ n, bytes = putUint32 n := by
  obtain ⟨b0, b1, b2, b3, rfl⟩ := length_eq_four.mp h
  exact ⟨getUint32 [b0, b1, b2, b3], (put_get_uint32 b0 b1 b2 b3 []).symm⟩

theorem next_cons {name value : List UInt8} (n : UInt32) (hk : name.length = k.toNat) :
    next (k :: (name ++ putUint32 n ++ value)) =
      if value.length < n.toNat then none else some ((name, value.take n.toNat), value.drop n.toNat) := by
  have hdrop : (name ++ putUint32 n ++ value).drop k.toNat = putUint32 n ++ value := by
    rw [append_assoc, drop_left' hk]
  have hdrop4 : (name ++ putUint32 n ++ value).drop (k.toNat + 4) = value := by
    rw [← drop_drop, hdrop, drop_left' (putUint32_length n)]
  have hlen : (name ++ putUint32 n ++ value).length = k.toNat + 4 + value.length := by
    rw [length_append, length_append, hk, putUint32_length]
  have hdropn : (name ++ putUint32 n ++ value).drop (k.toNat + 4 + n.toNat) = value.drop n.toNat := by
    rw [← drop_drop, hdrop4]
  simp only [next]
  rw [hdrop, get_put_uint32, hdropn, hdrop4, hlen, append_assoc, take_left' hk]
  split_ifs <;> first | rfl | omega

theorem next_encode (hp : Fits p) (rest : List UInt8) : next (encode p ++ rest) = some (p, rest) := by
  have hk : p.1.length = (UInt8.ofNat p.1.length).toNat := by
    exact (Nat.mod_eq_of_lt hp.1).symm
  have hw : (UInt32.ofNat p.2.length).toNat = p.2.length := by
    exact Nat.mod_eq_of_lt hp.2
  rw [encode, cons_append, append_assoc (p.1 ++ _), next_cons _ hk, hw, if_neg (by rw [length_append]; omega),
    take_left, drop_left]

theorem next_some (h : next bytes = some (p, rest)) : Fits p ∧ bytes = encode p ++ rest := by
  cases bytes with
  | nil => simp [next] at h
  | cons k bytes =>
    simp only [next] at h
    split_ifs at h with h4 hv
    cases h
    have hk : (bytes.take k.toNat).length = k.toNat := by
      rw [length_take]
      omega
    have hval : ((bytes.drop (k.toNat + 4)).take (getUint32 (bytes.drop k.toNat)).toNat).length =
        (getUint32 (bytes.drop k.toNat)).toNat := by
      rw [length_take, length_drop]
      omega
    have h4' : ((bytes.drop k.toNat).take 4).length = 4 := by
      rw [length_take, length_drop]
      omega
    obtain ⟨n, hn⟩ := exists_putUint32 h4'
    have hget : getUint32 (bytes.drop k.toNat) = n := by
      rw [← take_append_drop 4 (bytes.drop k.toNat), hn, get_put_uint32]
    refine ⟨⟨hk.symm ▸ k.toNat_lt, hval.symm ▸ UInt32.toNat_lt _⟩, ?_⟩
    simp only [encode, hk, hval, UInt8.ofNat_toNat, UInt32.ofNat_toNat, cons_append, cons.injEq, true_and]
    calc bytes = bytes.take k.toNat ++ ((bytes.drop k.toNat).take 4 ++ (bytes.drop k.toNat).drop 4) := by
          rw [take_append_drop, take_append_drop]
      _ = bytes.take k.toNat ++ (putUint32 n ++ bytes.drop (k.toNat + 4)) := by rw [hn, drop_drop]
      _ = _ := by
          have htail : bytes.drop (k.toNat + 4 + n.toNat) = (bytes.drop (k.toNat + 4)).drop n.toNat := drop_drop.symm
          rw [hget, htail, append_assoc, append_assoc, take_append_drop]

theorem getUint32_take (h : 4 ≤ bytes.length) : getUint32 (bytes.take 4) = getUint32 bytes := by
  obtain ⟨n, hn⟩ := exists_putUint32 (show (bytes.take 4).length = 4 by rw [length_take]; omega)
  rw [← take_append_drop 4 bytes, hn, get_put_uint32, take_left' (putUint32_length n), ← append_nil (putUint32 n), get_put_uint32]

theorem read_behind (pre : List UInt8) {j n : ℕ} (h : j + n ≤ bytes.length) :
    Block.read (pre ++ bytes) (pre.length + j) n = .ok ((bytes.drop j).take n) := by
  rw [Block.read_ok (by rw [length_append]; omega), ← drop_drop, drop_left]

theorem parse_next (pre : List UInt8) (hfuel : bytes.length ≤ fuel) :
    parse check zapFlag (pre ++ bytes) fuel pre.length bytes.length m =
      match next bytes with
      | none => .ok (ending (left bytes), m)
      | some (p, rest) =>
        match refusal check m.options p with
        | some e => .ok (.error e, m)
        | none =>
          parse check zapFlag (pre ++ encode p ++ rest) (fuel - 1) (pre ++ encode p).length rest.length (keep zapFlag m p) := by
  cases fuel with
  | zero =>
    obtain rfl := length_eq_zero_iff.mp (Nat.le_zero.mp hfuel)
    rfl
  | succ fuel =>
    match bytes with
    | [] => rfl
    | [k] =>
      have hn : next [k] = none := by simp [next]
      rfl
    | k :: b :: bytes =>
      have hk : Block.read (pre ++ k :: b :: bytes) pre.length 1 = .ok [k] := read_behind pre (j := 0) (by simp)
      have hname : ∀ n ≤ (b :: bytes).length, Block.read (pre ++ k :: b :: bytes) (pre.length + 1) n =
          .ok ((b :: bytes).take n) := fun n hn => read_behind pre (j := 1) (by simp at hn ⊢; omega)
      have hsize : ∀ n, n + 4 ≤ (b :: bytes).length → Block.read (pre ++ k :: b :: bytes) (pre.length + 1 + n) 4 =
          .ok (((b :: bytes).drop n).take 4) := fun n hn => by
        rw [Nat.add_assoc, read_behind pre (by simp at hn ⊢; omega), Nat.add_comm 1 n, drop_succ_cons]
      have hvalue : ∀ n v, n + 4 + v ≤ (b :: bytes).length → Block.read (pre ++ k :: b :: bytes) (pre.length + 1 + n + 4) v =
          .ok (((b :: bytes).drop (n + 4)).take v) := fun n v hn => by
        rw [Nat.add_assoc _ n, Nat.add_assoc, read_behind pre (by simp at hn ⊢; omega), Nat.add_comm 1 (n + 4), drop_succ_cons]
      generalize hrest : b :: bytes = xs at *
      have hxs : 0 < xs.length := hrest ▸ Nat.succ_pos _
      rw [parse, if_neg (by rw [length_cons]; omega), hk]
      simp only [length_cons, Nat.add_sub_cancel, pure, Except.pure, bind, Except.bind, headD_cons]
      have hn : next (k :: xs) = if xs.length < k.toNat + 4 then none
          else if xs.length < k.toNat + 4 + (getUint32 (xs.drop k.toNat)).toNat then none
          else some ((xs.take k.toNat, (xs.drop (k.toNat + 4)).take (getUint32 (xs.drop k.toNat)).toNat),
            xs.drop (k.toNat + 4 + (getUint32 (xs.drop k.toNat)).toNat)) := rfl
      have hleft : left (k :: xs) = if xs.length < k.toNat then xs.length
          else if xs.length - k.toNat < 4 then xs.length - k.toNat else xs.length - k.toNat - 4 := by
        rw [← hrest]
        rfl
      by_cases h1 : xs.length < k.toNat
      · rw [if_pos h1, hn, if_pos (by omega), hleft, if_pos h1]
      rw [if_neg h1, hname k.toNat (by omega)]
      by_cases h2 : xs.length - k.toNat < 4
      · simp only [if_pos h2]
        rw [hn, if_pos (by omega), hleft, if_neg h1, if_pos h2]
      have hlong : 4 ≤ (xs.drop k.toNat).length := by
        rw [length_drop]
        omega
      simp only [if_neg h2, hsize k.toNat (by omega), getUint32_take hlong]
      by_cases h3 : xs.length - k.toNat - 4 < (getUint32 (xs.drop k.toNat)).toNat
      · rw [if_pos h3, hn, if_neg (by omega), if_pos (by omega), hleft, if_neg h1, if_neg h2]
      simp only [if_neg h3, hvalue k.toNat _ (show k.toNat + 4 + (getUint32 (xs.drop k.toNat)).toNat ≤ _ by omega)]
      rw [if_neg (by omega), if_neg (by omega)] at hn
      obtain ⟨-, happ⟩ := next_some hn
      have hlen := congrArg length happ
      simp only [hn]
      cases refusal check m.options (xs.take k.toNat, (xs.drop (k.toNat + 4)).take (getUint32 (xs.drop k.toNat)).toNat) with
      | some e => rfl
      | none =>
        simp only [length_append, length_cons, length_drop] at hlen ⊢
        rw [happ, ← append_assoc]
        congr 1 <;> omega

@[simp] theorem keep_options (zapFlag : Bool) (m : MechanismBase) (p : Property) : (keep zapFlag m p).options = m.options := by
  unfold keep
  split_ifs <;> rfl

theorem keep_zmtpProperties_zap (m : MechanismBase) (p : Property) : (keep true m p).zmtpProperties = m.zmtpProperties := by
  simp only [keep, MechanismBase.setPeerIdentity, if_true]
  split_ifs <;> rfl

theorem reportAll_fst (ps : List Property) : (reportAll check zapFlag m ps).1 = firstRefusal check m.options ps := by
  induction ps generalizing m with
  | nil => rfl
  | cons p ps ih =>
    unfold reportAll firstRefusal
    rw [findSome?_cons]
    cases hr : refusal check m.options p with
    | some e => rfl
    | none =>
      rw [ih, keep_options]
      rfl

theorem parse_cut (hps : ∀ p ∈ ps, Fits p) (hrest : next rest = none) (pre : List UInt8)
    (hfuel : (encodeAll ps ++ rest).length ≤ fuel) :
    parse check zapFlag (pre ++ (encodeAll ps ++ rest)) fuel pre.length (encodeAll ps ++ rest).length m =
      match (reportAll check zapFlag m ps) with
      | (some e, m') => .ok (.error e, m')
      | (none, m') => .ok (ending (left rest), m') := by
  induction ps generalizing pre fuel m with
  | nil =>
    rw [parse_next pre hfuel]
    simp only [encodeAll, flatMap_nil, nil_append, hrest, reportAll]
  | cons p ps ih =>
    obtain ⟨hp, hps⟩ := forall_mem_cons.mp hps
    have happ : encodeAll (p :: ps) ++ rest = encode p ++ (encodeAll ps ++ rest) := by
      rw [encodeAll, flatMap_cons, append_assoc]
      rfl
    rw [happ] at hfuel ⊢
    rw [parse_next pre hfuel, next_encode hp]
    simp only [reportAll]
    cases refusal check m.options p with
    | some e => rfl
    | none =>
      rw [length_append, encode_length] at hfuel
      exact ih hps (pre ++ encode p) (by omega)

theorem parseMetadata_cut (hps : ∀ p ∈ ps, Fits p) (hrest : next rest = none) :
    parseMetadata check m (encodeAll ps ++ rest) zapFlag =
      match (reportAll check zapFlag m ps) with
      | (some e, m') => .ok (.error e, m')
      | (none, m') => .ok (ending (left rest), m') :=
  parse_cut hps hrest [] (Nat.le_refl _)

theorem cutAll_spec (hfuel : bytes.length ≤ fuel) : (∀ p ∈ (cutAll fuel bytes).1, Fits p) ∧
    next (cutAll fuel bytes).2 = none ∧ bytes = encodeAll (cutAll fuel bytes).1 ++ (cutAll fuel bytes).2 := by
  induction fuel generalizing bytes with
  | zero =>
    obtain rfl := length_eq_zero_iff.mp (Nat.le_zero.mp hfuel)
    simp [cutAll, next, encodeAll]
  | succ fuel ih =>
    unfold cutAll
    cases hn : next bytes with
    | none => exact ⟨fun p hp => (not_mem_nil hp).elim, hn, rfl⟩
    | some x =>
      obtain ⟨p, rest⟩ := x
      obtain ⟨hp, rfl⟩ := next_some hn
      rw [length_append, encode_length] at hfuel
      obtain ⟨hps, hnone, happ⟩ := ih (show rest.length ≤ fuel by omega)
      refine ⟨forall_mem_cons.mpr ⟨hp, hps⟩, hnone, ?_⟩
      simp only [encodeAll, flatMap_cons, append_assoc, append_cancel_left_eq]
      exact happ

theorem cut_spec (bytes : List UInt8) :
    (∀ p ∈ (cut bytes).1, Fits p) ∧ next (cut bytes).2 = none ∧ bytes = encodeAll (cut bytes).1 ++ (cut bytes).2 :=
  cutAll_spec (Nat.le_refl _)

theorem cut_unique {ps' : List Property} {rest' : List UInt8} (hps : ∀ p ∈ ps, Fits p) (hps' : ∀ p ∈ ps', Fits p)
    (hrest : next rest = none) (hrest' : next rest' = none) (h : encodeAll ps ++ rest = encodeAll ps' ++ rest') :
    ps = ps' ∧ rest = rest' := by
  induction ps generalizing ps' with
  | nil =>
    cases ps' with
    | nil => exact ⟨rfl, h⟩
    | cons p' ps' =>
      obtain ⟨hp', -⟩ := forall_mem_cons.mp hps'
      simp only [encodeAll, flatMap_nil, nil_append, flatMap_cons, append_assoc] at h
      rw [h, next_encode hp'] at hrest
      cases hrest
  | cons p ps ih =>
    obtain ⟨hp, htail⟩ := forall_mem_cons.mp hps
    simp only [encodeAll, flatMap_cons, append_assoc] at h
    have hn := next_encode hp (ps.flatMap encode ++ rest)
    rw [h] at hn
    cases ps' with
    | nil =>
      rw [flatMap_nil, nil_append, hrest'] at hn
      cases hn
    | cons p' ps' =>
      obtain ⟨hp', hps'⟩ := forall_mem_cons.mp hps'
      rw [flatMap_cons, append_assoc, next_encode hp'] at hn
      obtain ⟨rfl, ht⟩ := Prod.mk.inj (Option.some.inj hn)
      obtain ⟨rfl, rfl⟩ := ih htail hps' ht.symm
      exact ⟨rfl, rfl⟩

theorem left_of_short (hne : bytes ≠ []) (h : bytes.length < k.toNat + 4) :
    left (k :: bytes) = if bytes.length < k.toNat then bytes.length else bytes.length - k.toNat := by
  match bytes with
  | b :: bytes =>
    simp only [left]
    split_ifs <;> first | rfl | omega

theorem left_of_long (h : k.toNat + 4 ≤ bytes.length) : left (k :: bytes) = bytes.length - k.toNat - 4 := by
  match bytes with
  | [] => simp at h
  | b :: bytes =>
    simp only [left]
    rw [if_neg (by omega), if_neg (by omega)]

theorem left_eq_zero (h : next rest = none) : left rest = 0 ↔ rest = [] ∨ Seam rest := by
  constructor
  · intro h0
    cases rest with
    | nil => exact Or.inl rfl
    | cons k bytes =>
      right
      by_cases hne : bytes = []
      · subst hne
        cases h0
      have hpos := length_pos_of_ne_nil hne
      by_cases hlong : k.toNat + 4 ≤ bytes.length
      · rw [left_of_long hlong] at h0
        obtain ⟨n, hn⟩ := exists_putUint32 (show (bytes.drop k.toNat).length = 4 by rw [length_drop]; omega)
        have hk : (bytes.take k.toNat).length = k.toNat := by
          rw [length_take]
          omega
        have happ : bytes = bytes.take k.toNat ++ putUint32 n := by rw [← hn, take_append_drop]
        refine ⟨k, bytes.take k.toNat, hk, Or.inr ⟨n, ?_, congrArg _ happ⟩⟩
        rintro rfl
        rw [happ, ← append_nil (_ ++ _), next_cons 0 hk] at h
        simp at h
      · rw [left_of_short hne (by omega)] at h0
        split_ifs at h0 with h1
        · omega
        · exact ⟨k, bytes, by omega, Or.inl ⟨rfl, hne⟩⟩
  · rintro (rfl | ⟨k, name, hk, ⟨rfl, hne⟩ | ⟨n, -, rfl⟩⟩)
    · rfl
    · rw [left_of_short hne (by omega), if_neg (by omega)]
      omega
    · rw [left_of_long (by rw [length_append, putUint32_length]; omega), length_append, putUint32_length]
      omega

theorem not_seam_nil : ¬ Seam [] := by
  rintro ⟨k, name, -, ⟨h, -⟩ | ⟨n, -, h⟩⟩ <;> cases h

theorem complete_iff : (∃ ps, (∀ p ∈ ps, Fits p) ∧ bytes = encodeAll ps) ↔ (cut bytes).2 = [] := by
  obtain ⟨hfit, hnone, happ⟩ := cut_spec bytes
  constructor
  · rintro ⟨ps, hps, hb⟩
    have h : encodeAll (cut bytes).1 ++ (cut bytes).2 = encodeAll ps ++ [] := by
      rw [← happ, append_nil]
      exact hb
    exact (cut_unique hfit hps hnone rfl h).2
  · intro h
    exact ⟨_, hfit, by rw [← append_nil (encodeAll _), ← h]; exact happ⟩

/-- `parse_metadata` accepts the grammar exactly on the buffers that do not end at a seam. Where a property is refused
before the end is seen, the error is the one that the refusal sets. -/
theorem grammar_exact_iff (check : Check) (m : MechanismBase) (zapFlag : Bool) (b : List UInt8) :
    (∃ rc m', parseMetadata check m b zapFlag = .ok (rc, m') ∧
      (rc = .ok → ∃ ps, (∀ p ∈ ps, Fits p ∧ refusal check m.options p = none) ∧ b = encodeAll ps) ∧
      ((¬ ∃ ps, (∀ p ∈ ps, Fits p) ∧ b = encodeAll ps) → rc = .error .eproto)) ↔
    match firstRefusal check m.options (cut b).1 with
    | none => ¬ Seam (cut b).2
    | some e => (cut b).2 = [] ∨ e = .eproto := by
  obtain ⟨hfit, hnone, happ⟩ := cut_spec b
  have hparse : parseMetadata check m (encodeAll (cut b).1 ++ (cut b).2) zapFlag = _ := parseMetadata_cut hfit hnone
  rw [← happ] at hparse
  have hfst : (reportAll check zapFlag m (cut b).1).1 = _ := reportAll_fst (cut b).1
  rw [complete_iff]
  cases hr : reportAll check zapFlag m (cut b).1 with
  | mk e m1 =>
    rw [hr] at hfst hparse
    rw [← hfst]
    cases e with
    | some e =>
      constructor
      · rintro ⟨rc, m', h, -, he⟩
        cases hparse.symm.trans h
        exact or_iff_not_imp_left.mpr fun hc => Ret.error.inj (he hc)
      · intro h
        refine ⟨_, _, hparse, Ret.noConfusion, fun hc => ?_⟩
        rw [h.resolve_left hc]
    | none =>
      have hall : ∀ p ∈ (cut b).1, refusal check m.options p = none := findSome?_eq_none_iff.mp hfst.symm
      constructor
      · rintro ⟨rc, m', h, hok, -⟩ hseam
        cases hparse.symm.trans h
        rw [(left_eq_zero hnone).mpr (Or.inr hseam)] at hok
        obtain ⟨ps, hps, hb⟩ := hok rfl
        rw [complete_iff.mp ⟨ps, fun p hp => (hps p hp).1, hb⟩] at hseam
        exact not_seam_nil hseam
      · intro hseam
        refine ⟨_, _, hparse, fun hrc => ?_, fun hne => ?_⟩
        · have h0 : left (cut b).2 = 0 := by
            unfold ending at hrc
            split_ifs at hrc with hl
            omega
          have hempty := ((left_eq_zero hnone).mp h0).resolve_right hseam
          refine ⟨(cut b).1, fun p hp => ⟨hfit p hp, hall p hp⟩, ?_⟩
          rw [hempty, append_nil] at happ
          exact happ
        · have h0 : left (cut b).2 ≠ 0 := fun hc => ((left_eq_zero hnone).mp hc).elim hne hseam
          exact if_pos (Nat.pos_of_ne_zero h0)

/-- A buffer that ends behind a name is accepted. -/
theorem name_alone_accepted : parseMetadata property (.new (.new 5)) [1, 65] false = .ok (.ok, .new (.new 5)) ∧
    ¬ ∃ ps, (∀ p ∈ ps, Fits p) ∧ [1, 65] = encodeAll ps :=
  ⟨rfl, fun h => absurd (complete_iff.mp h) (by decide)⟩

end Metadata
end Zmq
