import LibZmq.Messages.Model
import LibZmq.Shares

/-! Who refers to a content or to metadata, as the reference counts have it. -/

namespace Zmq

open Finset

open Function (update update_eq_self update_of_ne update_self)
namespace Messages

open Shares

variable {H : Type} {s : Messages H} {h : H} {m : MsgT} {c : ℕ}

def holders (s : Messages H) : H → Option ℕ := fun h => (s.msgs h).holds

def sharing (s : Messages H) : H → Bool := fun h => (s.msgs h).isShared

def weights (s : Messages H) : H → ℕ := fun h => (s.owed h).getD 1

def labels (s : Messages H) : H → Option ℕ := fun h => (s.msgs h).metadata

def refcnts (s : Messages H) : ℕ → UInt32 := fun c => (s.contents c).refcnt

def frees (s : Messages H) : ℕ → ℕ := fun c => (s.contents c).frees

def refCnts (s : Messages H) : ℕ → UInt32 := fun i => (s.metadatas i).refCnt

def deletes (s : Messages H) : ℕ → ℕ := fun i => (s.metadatas i).deletes

/-- The reference of the engine that has made the metadata. -/
def keeps (s : Messages H) : ℕ → ℕ := fun i => if (s.metadatas i).kept then 1 else 0

def contentRefs (s : Messages H) (c : ℕ) : ℕ := refs s.objects s.holders s.weights (fun _ => 0) c

def metadataRefs (s : Messages H) (i : ℕ) : ℕ := refs s.objects s.labels (fun _ => 1) s.keeps i

def CountsContents (s : Messages H) (w : H → ℕ) (x : ℕ → ℕ) : Prop :=
  Counted s.objects s.holders s.sharing w x s.refcnts s.frees s.contentsMade

def CountsMetadata (s : Messages H) (w : H → ℕ) : Prop :=
  Counted s.objects s.labels (fun _ => true) w s.keeps s.refCnts s.deletes s.metadatasMade

structure Formed (s : Messages H) : Prop where
  outside : ∀ h, h ∉ s.objects → s.msgs h = .raw
  unlabelled : ∀ h, (s.msgs h).type = none ∨ s.owed h ≠ none → (s.msgs h).metadata = none
  known : ∀ h c, (s.msgs h).holds = some c → c < s.contentsMade
  hooked : ∀ h, (s.msgs h).type = some .zclmsg → (s.contents (s.msgs h).content).ffn = true

structure Holding (s : Messages H) (w : H → ℕ) (x : ℕ → ℕ) : Prop where
  contents : s.CountsContents w x
  metadata : s.CountsMetadata fun _ => 1
  formed : s.Formed

abbrev Sound (s : Messages H) : Prop := s.Holding s.weights fun _ => 0

def released (s : Messages H) (m : MsgT) (n : UInt32) : Messages H :=
  match m.holds with
  | none => s
  | some c => if m.isShared then s.sub c n else s.free c

/-- No content and no metadata has more references than a counter can count. -/
def Countable (s : Messages H) : Prop :=
  (∀ c < s.contentsMade, s.contentRefs c ≤ 2 ^ 32) ∧ ∀ i < s.metadatasMade, s.metadataRefs i ≤ 2 ^ 32

instance : Decidable s.Countable := inferInstanceAs (Decidable (_ ∧ _))

section Changes

variable {content : ContentT} {i : ℕ} {metadata : MetadataT} {n : UInt32} {data : List UInt8} {ffn : Bool}

@[simp] theorem refcnts_setContent : (s.setContent c content).refcnts = update s.refcnts c content.refcnt :=
  Function.comp_update ContentT.refcnt s.contents c content

@[simp] theorem frees_setContent : (s.setContent c content).frees = update s.frees c content.frees :=
  Function.comp_update ContentT.frees s.contents c content

@[simp] theorem frees_setRefcnt : (s.setContent c { s.contents c with refcnt := n }).frees = s.frees :=
  frees_setContent.trans (update_eq_self c s.frees)

@[simp] theorem refcnts_newContent : (s.newContent data ffn).refcnts = update s.refcnts s.contentsMade 0 :=
  refcnts_setContent

@[simp] theorem frees_newContent : (s.newContent data ffn).frees = update s.frees s.contentsMade 0 :=
  frees_setContent

@[simp] theorem refcnts_free : (s.free c).refcnts = s.refcnts :=
  refcnts_setContent.trans (update_eq_self c s.refcnts)

@[simp] theorem frees_free : (s.free c).frees = update s.frees c (s.frees c + 1) := frees_setContent

@[simp] theorem refcnts_sub : (s.sub c n).refcnts = update s.refcnts c (s.refcnts c - n) := by
  unfold sub
  dsimp only
  split_ifs
  · exact refcnts_free.trans refcnts_setContent
  · exact refcnts_setContent

@[simp] theorem frees_sub : (s.sub c n).frees = update s.frees c (s.frees c + if s.refcnts c - n = 0 then 1 else 0) := by
  have hcount : ((s.setContent c { s.contents c with refcnt := (s.contents c).refcnt - n }).contents c).refcnt =
      s.refcnts c - n := congrArg ContentT.refcnt (update_self c _ s.contents)
  unfold sub
  simp only [hcount]
  split_ifs
  · rw [frees_free, frees_setRefcnt]
  · rw [frees_setRefcnt, Nat.add_zero, update_eq_self]

@[simp] theorem refCnts_setMetadataT : (s.setMetadataT i metadata).refCnts = update s.refCnts i metadata.refCnt :=
  Function.comp_update MetadataT.refCnt s.metadatas i metadata

@[simp] theorem deletes_setMetadataT : (s.setMetadataT i metadata).deletes = update s.deletes i metadata.deletes :=
  Function.comp_update MetadataT.deletes s.metadatas i metadata

@[simp] theorem keeps_setMetadataT : (s.setMetadataT i metadata).keeps = update s.keeps i (if metadata.kept then 1 else 0) :=
  Function.comp_update (fun metadata : MetadataT => if metadata.kept then 1 else 0) s.metadatas i metadata

@[simp] theorem keeps_addRef : (s.addRef i).keeps = s.keeps :=
  keeps_setMetadataT.trans (update_eq_self i s.keeps)

@[simp] theorem refCnts_addRef : (s.addRef i).refCnts = update s.refCnts i (s.refCnts i + 1) := refCnts_setMetadataT

@[simp] theorem deletes_addRef : (s.addRef i).deletes = s.deletes :=
  deletes_setMetadataT.trans (update_eq_self i s.deletes)

@[simp] theorem keeps_dropRef : (s.dropRef i).keeps = s.keeps :=
  keeps_setMetadataT.trans (update_eq_self i s.keeps)

@[simp] theorem refCnts_dropRef : (s.dropRef i).refCnts = update s.refCnts i (s.refCnts i - 1) :=
  refCnts_setMetadataT

@[simp] theorem deletes_dropRef :
    (s.dropRef i).deletes = update s.deletes i (s.deletes i + if s.refCnts i - 1 = 0 then 1 else 0) :=
  deletes_setMetadataT

end Changes

/-! The operations in between, and what they leave alone. -/

theorem sub_eq (c : ℕ) (n : UInt32) : s.sub c n = { s with contents := (s.sub c n).contents } := by
  unfold sub
  dsimp only
  split_ifs <;> rfl

theorem released_eq (n : UInt32) : s.released m n = { s with contents := (s.released m n).contents } := by
  unfold released
  cases m.holds with
  | none => rfl
  | some c =>
    split_ifs
    · exact sub_eq c n
    · rfl

theorem closeMetadata_eq : s.closeMetadata m = { s with metadatas := (s.closeMetadata m).metadatas } := by
  unfold closeMetadata
  cases m.metadata with
  | none => rfl
  | some i => rfl

theorem addMetadata_eq : s.addMetadata m = { s with metadatas := (s.addMetadata m).metadatas } := by
  unfold addMetadata
  cases m.metadata with
  | none => rfl
  | some i => rfl

def KeepsData (s s' : Messages H) : Prop :=
  ∀ c, (s'.contents c).ffn = (s.contents c).ffn ∧ (s'.contents c).data = (s.contents c).data

theorem setContent_keeps {content : ContentT} (hf : content.ffn = (s.contents c).ffn) (hd : content.data = (s.contents c).data) :
    KeepsData s (s.setContent c content) := by
  intro c'
  change (update s.contents c content c').ffn = _ ∧ (update s.contents c content c').data = _
  rcases eq_or_ne c' c with rfl | hne
  · rw [update_self]
    exact ⟨hf, hd⟩
  · rw [update_of_ne hne]
    exact ⟨rfl, rfl⟩

theorem KeepsData.trans {s' s'' : Messages H} (h : KeepsData s s') (h' : KeepsData s' s'') : KeepsData s s'' := fun c =>
  ⟨(h' c).1.trans (h c).1, (h' c).2.trans (h c).2⟩

theorem sub_keeps (n : UInt32) : KeepsData s (s.sub c n) := by
  have hcount : KeepsData s (s.setContent c { s.contents c with refcnt := (s.contents c).refcnt - n }) :=
    setContent_keeps (by rfl) (by rfl)
  unfold sub
  dsimp only
  split_ifs
  · exact hcount.trans (setContent_keeps (by rfl) (by rfl))
  · exact hcount

theorem released_keeps (n : UInt32) : KeepsData s (s.released m n) := by
  unfold released
  cases m.holds with
  | none => exact fun _ => ⟨rfl, rfl⟩
  | some c =>
    split_ifs
    · exact sub_keeps n
    · exact setContent_keeps (by rfl) (by rfl)

theorem MsgT.holds_eq (hc : m.holds = some c) : m.content = c ∧ (m.type = some .lmsg ∨ m.type = some .zclmsg) := by
  unfold MsgT.holds at hc
  split_ifs at hc with ht
  exact ⟨Option.some.inj hc, ht⟩

namespace Formed

theorem counts (hf : s.Formed) {contents : ℕ → ContentT} (hc : ∀ c, (contents c).ffn = (s.contents c).ffn)
    (metadatas : ℕ → MetadataT) : { s with contents := contents, metadatas := metadatas }.Formed :=
  ⟨hf.outside, hf.unlabelled, hf.known, fun x hx => (hc _).trans (hf.hooked x hx)⟩

theorem newContent (hf : s.Formed) (data : List UInt8) (ffn : Bool) : (s.newContent data ffn).Formed := by
  refine ⟨hf.outside, hf.unlabelled, fun x c hc => Nat.lt_succ_of_lt (hf.known x c hc), fun x hx => ?_⟩
  have hlt := hf.known x _ (if_pos (.inr hx))
  change (update s.contents s.contentsMade _ (s.msgs x).content).ffn = true
  rw [update_of_ne (Nat.ne_of_lt hlt)]
  exact hf.hooked x hx

end Formed

section

variable [DecidableEq H] {k : Option ℕ}

theorem setMsg_self : (s.setMsg h m).msgs h = m := by
  change update s.msgs h m h = m
  rw [update_self]

theorem setMsg_other {y : H} (hy : y ≠ h) : (s.setMsg h m).msgs y = s.msgs y := by
  change update s.msgs h m y = s.msgs y
  rw [update_of_ne hy]

@[simp] theorem holders_setMsg : (s.setMsg h m).holders = update s.holders h m.holds :=
  Function.comp_update MsgT.holds s.msgs h m

@[simp] theorem sharing_setMsg : (s.setMsg h m).sharing = update s.sharing h m.isShared :=
  Function.comp_update MsgT.isShared s.msgs h m

@[simp] theorem labels_setMsg : (s.setMsg h m).labels = update s.labels h m.metadata :=
  Function.comp_update MsgT.metadata s.msgs h m

@[simp] theorem refcnts_setMsg : (s.setMsg h m).refcnts = s.refcnts := rfl

@[simp] theorem frees_setMsg : (s.setMsg h m).frees = s.frees := rfl

@[simp] theorem refCnts_setMsg : (s.setMsg h m).refCnts = s.refCnts := rfl

@[simp] theorem deletes_setMsg : (s.setMsg h m).deletes = s.deletes := rfl

@[simp] theorem keeps_setMsg : (s.setMsg h m).keeps = s.keeps := rfl

@[simp] theorem objects_setMsg : (s.setMsg h m).objects = insert h s.objects := rfl

@[simp] theorem weights_setOwed : (s.setOwed h k).weights = update s.weights h (k.getD 1) :=
  Function.comp_update (fun k : Option ℕ => k.getD 1) s.owed h k


theorem or_and_self (f g : UInt8) : (f ||| g) &&& g = g := by
  refine UInt8.toBitVec_inj.mp (BitVec.eq_of_getLsbD_eq fun i _ => ?_)
  rw [UInt8.toBitVec_and, UInt8.toBitVec_or, BitVec.getLsbD_and, BitVec.getLsbD_or]
  cases g.toBitVec.getLsbD i <;> simp

theorem isShared_or_shared : MsgT.isShared { m with flags := m.flags ||| Msg.shared } = true := by
  unfold MsgT.isShared
  rw [or_and_self]
  rfl

namespace CountsContents

variable {w : H → ℕ} {x : ℕ → ℕ} {t : H} {j v : ℕ}

theorem setMsg_none (hc : s.CountsContents w x) (hh : h ∈ s.objects ∨ s.holders h = none)
    (hno : s.holders h = none ∨ w h = 0) (hm : m.holds = none) (v : ℕ) :
    (s.setMsg h m).CountsContents (update w h v) x := by
  have := hc.idle hh hno m.isShared v
  unfold CountsContents
  rwa [holders_setMsg, sharing_setMsg, hm]

theorem setMsg_give (hc : s.CountsContents w x) (hh : h ∈ s.objects) (hw : 0 < w h) (ht : t ∈ s.objects ∨ s.holders t = none)
    (hno : s.holders t = none ∨ w t = 0) (hne : t ≠ h) (hv : v ≤ w h) :
    (s.setMsg t (s.msgs h)).CountsContents (update (update w h (w h - v)) t v) x := by
  unfold CountsContents
  rw [holders_setMsg, sharing_setMsg]
  cases hr : (s.msgs h).holds with
  | none =>
    have hleft := hc.idle (.inl hh) (.inl hr) (s.sharing h) (w h - v)
    rw [insert_eq_of_mem hh, update_eq_self, ← show s.holders h = none from hr, update_eq_self] at hleft
    refine hleft.idle ht ?_ _ v
    rw [update_of_ne hne]
    exact hno
  | some c => exact hc.give hh hr hw ht hno hne hv

theorem addReferences (hc : s.CountsContents w x) (hh : h ∈ s.objects) (hw : 0 < w h) (j : ℕ) :
    (s.addReferences h (UInt32.ofNat j)).CountsContents (update w h (w h + j)) x := by
  unfold CountsContents Messages.addReferences
  cases hr : (s.msgs h).holds with
  | none =>
    have := hc.idle (.inl hh) (.inl hr) (s.sharing h) (w h + j)
    rwa [insert_eq_of_mem hh, update_eq_self, ← show s.holders h = none from hr, update_eq_self] at this
  | some c =>
    have hshare := hc.share hh hr hw j rfl
    simp only [show s.sharing h = (s.msgs h).isShared from rfl] at hshare
    cases hs : (s.msgs h).isShared with
    | true =>
      simp only [hs, if_true] at hshare ⊢
      rw [insert_eq_of_mem hh, ← show s.holders h = some c from hr, ← show s.sharing h = true from hs,
        update_eq_self, update_eq_self] at hshare
      rw [refcnts_setContent, frees_setRefcnt]
      exact hshare
    | false =>
      simp only [hs, Bool.false_eq_true, if_false] at hshare ⊢
      rw [holders_setMsg, sharing_setMsg, refcnts_setMsg, frees_setMsg, refcnts_setContent, frees_setRefcnt, isShared_or_shared]
      rw [show MsgT.holds { s.msgs h with flags := (s.msgs h).flags ||| Msg.shared } = some c from hr]
      exact hshare

theorem released (hc : s.CountsContents w x) (hh : h ∈ s.objects ∨ s.holders h = none) (hw : 0 < w h)
    (hsmall : ∀ c, refs s.objects s.holders w x c ≤ 2 ^ 32) {r : Option ℕ} (hr : r = none ∨ r = s.holders h ∧ v = 0)
    (b : Bool) :
    Counted (insert h s.objects) (update s.holders h r) (update s.sharing h b) (update w h v)
      x (s.released (s.msgs h) (UInt32.ofNat (w h))).refcnts (s.released (s.msgs h) (UInt32.ofNat (w h))).frees
      s.contentsMade := by
  unfold Messages.released
  cases hm : (s.msgs h).holds with
  | none =>
    have hnone : s.holders h = none := hm
    have hr' : r = none := hr.elim id fun h => h.1.trans hnone
    rw [hr']
    exact hc.idle hh (.inl hnone) b v
  | some c =>
    have hin : h ∈ s.objects := hh.resolve_right fun hno => Option.some_ne_none c (hm.symm.trans hno)
    have hrelease := hc.release hin hm hw (hsmall c) (hr.imp_right And.right) (b := b) rfl rfl
    simp only [show s.sharing h = (s.msgs h).isShared from rfl] at hrelease
    cases hs : (s.msgs h).isShared with
    | true =>
      simp only [hs, if_true, refcnts_sub, frees_sub] at hrelease ⊢
      exact hrelease
    | false =>
      simp only [hs, Bool.false_eq_true, if_false, refcnts_free, frees_free] at hrelease ⊢
      rwa [update_eq_self] at hrelease

theorem newContent (hc : s.CountsContents w x) (hh : h ∈ s.objects ∨ s.holders h = none) (hno : s.holders h = none ∨ w h = 0)
    (data : List UInt8) (ffn : Bool) (hm : m.holds = some s.contentsMade) (hs : m.isShared = false) :
    ((s.newContent data ffn).setMsg h m).CountsContents (update w h 1) x := by
  have := hc.new hh hno 0
  unfold CountsContents
  rwa [holders_setMsg, sharing_setMsg, refcnts_setMsg, frees_setMsg, refcnts_newContent, frees_newContent, hm, hs]

end CountsContents

namespace CountsMetadata

variable {w : H → ℕ} {t : H} {v i : ℕ}

theorem setMsg_none (hc : s.CountsMetadata w) (hh : h ∈ s.objects ∨ s.labels h = none)
    (hno : s.labels h = none ∨ w h = 0) (hm : m.metadata = none) (v : ℕ) :
    (s.setMsg h m).CountsMetadata (update w h v) := by
  have := hc.idle hh hno true v
  unfold CountsMetadata
  rwa [labels_setMsg, hm, ← update_eq_self h fun _ => true]

theorem setMsg_give (hc : s.CountsMetadata w) (hh : h ∈ s.objects) (hw : 0 < w h) (ht : t ∈ s.objects ∨ s.labels t = none)
    (hno : s.labels t = none ∨ w t = 0) (hne : t ≠ h) (hv : v ≤ w h) (hm : m.metadata = s.labels h) :
    (s.setMsg t m).CountsMetadata (update (update w h (w h - v)) t v) := by
  unfold CountsMetadata
  rw [labels_setMsg, hm]
  cases hr : s.labels h with
  | none =>
    have hleft := hc.idle (.inl hh) (.inl hr) true (w h - v)
    rw [insert_eq_of_mem hh, update_eq_self, ← hr, update_eq_self] at hleft
    have := hleft.idle ht ?_ true v
    · rwa [update_eq_self] at this
    · rw [update_of_ne hne]
      exact hno
  | some i =>
    have := hc.give hh hr hw ht hno hne hv
    rwa [update_eq_self] at this

theorem addMetadata (hc : s.CountsMetadata w) (hh : h ∈ s.objects) (hw : 0 < w h) (hm : m.metadata = s.labels h) :
    (s.addMetadata m).CountsMetadata (update w h (w h + 1)) := by
  unfold CountsMetadata Messages.addMetadata
  rw [hm]
  cases hr : s.labels h with
  | none =>
    have := hc.idle (.inl hh) (.inl hr) true (w h + 1)
    rwa [insert_eq_of_mem hh, update_eq_self, ← hr, update_eq_self] at this
  | some i =>
    have := hc.share hh hr hw 1 rfl
    rw [insert_eq_of_mem hh, ← hr, update_eq_self, update_eq_self] at this
    rwa [keeps_addRef, refCnts_addRef, deletes_addRef]

theorem addReferences (hc : s.CountsMetadata w) (hh : h ∈ s.objects) (n : UInt32) : (s.addReferences h n).CountsMetadata w := by
  unfold Messages.addReferences
  cases hr : (s.msgs h).holds with
  | none => exact hc
  | some c =>
    cases hs : (s.msgs h).isShared with
    | true =>
      simp only [hs, if_true]
      exact hc
    | false =>
      simp only [hs, Bool.false_eq_true, if_false]
      unfold CountsMetadata
      rw [labels_setMsg]
      change Counted (insert h s.objects) (update s.labels h (s.labels h)) _ _ _ _ _ _
      rwa [insert_eq_of_mem hh, update_eq_self]

theorem closeMetadata (hc : s.CountsMetadata fun _ => 1) (hh : h ∈ s.objects ∨ s.labels h = none)
    (hsmall : ∀ i, s.metadataRefs i ≤ 2 ^ 32) :
    Counted (insert h s.objects) (update s.labels h none) (fun _ => true) (fun _ => 1)
      (s.closeMetadata (s.msgs h)).keeps (s.closeMetadata (s.msgs h)).refCnts (s.closeMetadata (s.msgs h)).deletes
      s.metadatasMade := by
  unfold Messages.closeMetadata
  cases hm : (s.msgs h).metadata with
  | none =>
    have := hc.idle hh (.inl hm) true 1
    rwa [update_eq_self, update_eq_self h fun _ => 1] at this
  | some i =>
    have hin : h ∈ s.objects := hh.resolve_right fun hno => Option.some_ne_none i (hm.symm.trans hno)
    have := hc.release hin hm Nat.one_pos (hsmall i) (r := none) (b := true) (w := 1) (.inl rfl) rfl rfl
    rw [update_eq_self, update_eq_self h fun _ => 1, ] at this
    rwa [keeps_dropRef, refCnts_dropRef, deletes_dropRef]

theorem adopt (hc : s.CountsMetadata w) (hh : h ∈ s.objects ∨ s.labels h = none) (hno : s.labels h = none ∨ w h = 0)
    (hlive : 0 < refs s.objects s.labels w s.keeps i) (hm : m.metadata = some i) :
    ((s.addRef i).setMsg h m).CountsMetadata (update w h 1) := by
  have := Counted.adopt hc hh hno hlive (fun _ _ _ => rfl) rfl
  rw [update_eq_self] at this
  unfold CountsMetadata
  rwa [labels_setMsg, keeps_setMsg, refCnts_setMsg, deletes_setMsg, keeps_addRef, refCnts_addRef, deletes_addRef, hm]

end CountsMetadata

namespace Formed

theorem setMsg (hf : s.Formed) (hun : m.type = none ∨ s.owed h ≠ none → m.metadata = none)
    (hk : ∀ c, m.holds = some c → c < s.contentsMade) (hz : m.type = some .zclmsg → (s.contents m.content).ffn = true) :
    (s.setMsg h m).Formed := by
  have hmsgs (x : H) : (s.setMsg h m).msgs x = if x = h then m else s.msgs x := by
    change update s.msgs h m x = _
    split_ifs with hx
    · rw [hx, update_self]
    · rw [update_of_ne hx]
  refine ⟨fun x hx => ?_, fun x hx => ?_, fun x c hc => ?_, fun x hx => ?_⟩ <;> rw [hmsgs] at *
  · rw [if_neg fun he : x = h => hx (he ▸ mem_insert_self h s.objects)]
    exact hf.outside x fun hmem => hx (mem_insert_of_mem hmem)
  · split_ifs at hx ⊢ with he
    · exact hun (he ▸ hx)
    · exact hf.unlabelled x hx
  · split_ifs at hc with he
    · exact hk c hc
    · exact hf.known x c hc
  · split_ifs at hx ⊢ with he
    · exact hz hx
    · exact hf.hooked x hx

theorem setOwed (hf : s.Formed) (k : Option ℕ) (hm : (s.msgs h).metadata = none) : (s.setOwed h k).Formed := by
  refine ⟨hf.outside, fun x hx => ?_, hf.known, hf.hooked⟩
  rcases eq_or_ne x h with rfl | hne
  · exact hm
  · refine hf.unlabelled x (hx.imp_right fun ho => ?_)
    change update s.owed h k x ≠ none at ho
    rwa [update_of_ne hne] at ho

theorem known_object (hf : s.Formed) (hv : (s.msgs h).type ≠ none) : h ∈ s.objects := by
  by_contra hno
  exact hv (by rw [hf.outside h hno]; rfl)

theorem holder_known (hf : s.Formed) (h : H) : h ∈ s.objects ∨ s.holders h = none := by
  by_cases hv : (s.msgs h).type = none
  · refine .inr (if_neg ?_)
    rw [hv]
    rintro (ht | ht) <;> cases ht
  · exact .inl (hf.known_object hv)

theorem label_known (hf : s.Formed) (h : H) : h ∈ s.objects ∨ s.labels h = none := by
  by_cases hv : (s.msgs h).type = none
  · exact .inr (hf.unlabelled h (.inl hv))
  · exact .inl (hf.known_object hv)

end Formed

end

end Messages
end Zmq
