import LibZmq.Zmtp.Grammar
import LibZmq.Zmtp.Mechanism

/-! What has been written with `add_property` is what `parse_metadata` reports. -/

namespace Zmq

open List
namespace Metadata

variable {m : MechanismBase} {zapFlag : Bool} {p : Property} {ps : List Property} {b r name value : List UInt8} {size : ℕ}
    {o : MechanismOptions}

/-- A property that `add_property` can write. -/
structure Writable (p : Property) : Prop where
  name : p.1.length ≤ 255
  value : p.2.length < 2 ^ 31

theorem Writable.fits (h : Writable p) : Fits p := ⟨Nat.lt_succ_of_le h.name, Nat.lt_trans h.value (by decide)⟩

theorem addProperty_eq (hp : Writable p) (hsize : b.length + (encode p).length ≤ size) :
    addProperty size b p.1 p.2 = .ok (b ++ encode p) := by
  rw [encode_length] at hsize
  have hvalue : p.2.length ≤ 0x7FFFFFFF := Nat.le_of_lt_succ hp.value
  unfold addProperty
  rw [Block.assert_ok hp.name, Block.ok_bind, Block.append_ok (by rw [length_singleton]; omega), Block.ok_bind,
    Block.append_ok (by simp only [length_append, length_singleton]; omega), Block.ok_bind,
    Block.assert_ok hvalue, Block.ok_bind,
    Block.append_ok (by simp only [length_append, length_singleton, putUint32_length]; omega), Block.ok_bind,
    Block.append_ok (by simp only [length_append, length_singleton, putUint32_length]; omega)]
  simp [encode]

theorem addProperty_ok (h : addProperty size b name value = .ok r) :
    Writable (name, value) ∧ r = b ++ encode (name, value) ∧ r.length ≤ size := by
  obtain ⟨⟨⟩, hname, h⟩ := bind_ok h
  obtain ⟨b1, h1, h⟩ := bind_ok h
  obtain ⟨b2, h2, h⟩ := bind_ok h
  obtain ⟨⟨⟩, hvalue, h⟩ := bind_ok h
  obtain ⟨b3, h3, h⟩ := bind_ok h
  obtain ⟨-, rfl⟩ := Block.append_eq h1
  obtain ⟨-, rfl⟩ := Block.append_eq h2
  obtain ⟨-, rfl⟩ := Block.append_eq h3
  obtain ⟨hlen, rfl⟩ := Block.append_eq h
  refine ⟨⟨Block.assert_eq hname, Nat.lt_succ_of_le (Block.assert_eq hvalue)⟩, by simp [encode], ?_⟩
  rw [length_append]
  exact hlen

theorem addProperties_eq (hps : ∀ p ∈ ps, Writable p) (hsize : b.length + (encodeAll ps).length ≤ size) :
    addProperties size b ps = .ok (b ++ encodeAll ps) := by
  induction ps generalizing b with
  | nil => exact congrArg _ (append_nil b).symm
  | cons p ps ih =>
    obtain ⟨hp, hps⟩ := forall_mem_cons.mp hps
    rw [encodeAll, flatMap_cons, length_append] at hsize
    unfold addProperties
    rw [addProperty_eq hp (by omega), Block.ok_bind, ih hps (by rw [length_append, encodeAll]; omega),
      encodeAll, encodeAll, flatMap_cons, append_assoc]

theorem reportAll_kept {check : Check} (h : ∀ p ∈ ps, refusal check m.options p = none) :
    reportAll check zapFlag m ps = (none, ps.foldl (keep zapFlag) m) := by
  induction ps generalizing m with
  | nil => rfl
  | cons p ps ih =>
    obtain ⟨hp, hps⟩ := forall_mem_cons.mp h
    unfold reportAll
    rw [hp]
    exact ih fun q hq => by
      rw [keep_options]
      exact hps q hq

theorem refusal_property (h : p.1 = socketTypeName → checkSocketType m.options p.2 = true) :
    refusal property m.options p = none := by
  unfold refusal
  split_ifs with hid htype hcheck
  · rfl
  · rfl
  · exact absurd (h htype) hcheck
  · rfl

theorem parse_encodeAll (hps : ∀ p ∈ ps, Writable p)
    (htype : ∀ p ∈ ps, p.1 = socketTypeName → checkSocketType m.options p.2 = true) :
    parseMetadata property m (encodeAll ps) zapFlag = .ok (.ok, ps.foldl (keep zapFlag) m) := by
  have h : parseMetadata property m (encodeAll ps ++ []) zapFlag = _ := parseMetadata_cut (fun p hp => (hps p hp).fits) rfl
  rw [append_nil, reportAll_kept fun p hp => refusal_property (htype p hp)] at h
  exact h

theorem cut_encodeAll (hps : ∀ p ∈ ps, Writable p) : cut (encodeAll ps) = (ps, []) := by
  obtain ⟨hfit, hnone, happ⟩ := cut_spec (encodeAll ps)
  obtain ⟨h1, h2⟩ := cut_unique hfit (fun p hp => (hps p hp).fits) hnone (show next [] = none from rfl)
    (happ.symm.trans (append_nil _).symm)
  exact Prod.ext h1 h2

/-! What a mechanism writes about its socket. -/

def socketProperties (o : MechanismOptions) : List Property :=
  (socketTypeName, socketTypeNames.getD o.type.toNat []) ::
    if o.type = 3 ∨ o.type = 5 ∨ o.type = 6 then [(identityName, o.identity)] else []

theorem addSocketProperties_ok (h : addSocketProperties o size b = .ok r) :
    (∀ p ∈ socketProperties o, Writable p) ∧ r = b ++ encodeAll (socketProperties o) ∧ r.length ≤ size := by
  obtain ⟨name, hname, h⟩ := bind_ok h
  obtain ⟨b1, h1, h⟩ := bind_ok h
  obtain ⟨hw1, rfl, hlen1⟩ := addProperty_ok h1
  have hn : socketTypeNames.getD o.type.toNat [] = name := by
    unfold socketTypeString at hname
    split at hname
    · rename_i heq
      rw [getD_eq_getElem?_getD, heq]
      exact Except.ok.inj hname
    · cases hname
  unfold socketProperties
  rw [hn]
  split_ifs at h ⊢ with ho
  · obtain ⟨hw2, rfl, hlen⟩ := addProperty_ok h
    exact ⟨forall_mem_cons.mpr ⟨hw1, forall_mem_singleton.mpr hw2⟩, by simp [encodeAll], hlen⟩
  · cases h
    exact ⟨forall_mem_singleton.mpr hw1, by simp [encodeAll], hlen1⟩

/-- A socket whose type is one that `m` may be connected to. -/
def Compatible (o : MechanismOptions) (m : MechanismBase) : Prop :=
  checkSocketType m.options (socketTypeNames.getD o.type.toNat []) = true

/-- What is known after the properties of a socket have been parsed. -/
structure Recovered (o : MechanismOptions) (m m' : MechanismBase) : Prop where
  properties : m.zmtpProperties = [] → m'.zmtpProperties = socketProperties o
  identity : m.options.recvIdentity = true → (identityName, o.identity) ∈ socketProperties o → m'.identity = o.identity

theorem keep_zmtpProperties : (keep false m p).zmtpProperties = m.zmtpProperties.insert p := by
  simp only [keep, MechanismBase.setPeerIdentity, Bool.false_eq_true, if_false]
  split_ifs <;> rfl

theorem keep_identity : (keep zapFlag m p).identity =
    if p.1 = identityName ∧ m.options.recvIdentity then p.2 else m.identity := by
  unfold keep
  split_ifs <;> rfl

theorem socketTypeName_ne : socketTypeName ≠ identityName := by decide

theorem recovered (o : MechanismOptions) (m : MechanismBase) : Recovered o m ((socketProperties o).foldl (keep false) m) := by
  refine ⟨fun h => ?_, fun hr hmem => ?_⟩
  · unfold socketProperties
    split_ifs
    · rw [foldl_cons, foldl_cons, foldl_nil, keep_zmtpProperties, keep_zmtpProperties, h]
      simp [Dict.insert, socketTypeName_ne.symm]
    · rw [foldl_cons, foldl_nil, keep_zmtpProperties, h]
      rfl
  · unfold socketProperties at hmem ⊢
    split_ifs at hmem ⊢
    · rw [foldl_cons, foldl_cons, foldl_nil, keep_identity, if_pos ⟨rfl, hr⟩]
    · simp [socketTypeName_ne.symm] at hmem

theorem Recovered.of_same {m0 m m' : MechanismBase} (h : Recovered o m m')
    (ho : m.options = m0.options) (hz : m.zmtpProperties = m0.zmtpProperties) : Recovered o m0 m' :=
  ⟨fun h0 => h.properties (hz.trans h0), fun h0 => h.identity (ho ▸ h0)⟩

theorem parse_socketProperties (hw : ∀ p ∈ socketProperties o, Writable p) (hc : Compatible o m) :
    ∃ m', parseMetadata property m (encodeAll (socketProperties o)) false = .ok (.ok, m') ∧ Recovered o m m' := by
  refine ⟨_, parse_encodeAll hw fun p hp htype => ?_, recovered o m⟩
  rcases mem_cons.mp hp with rfl | hid
  · exact hc
  · split_ifs at hid
    · rw [mem_singleton.mp hid] at htype
      exact absurd htype.symm socketTypeName_ne
    · exact nomatch hid

end Metadata
end Zmq
