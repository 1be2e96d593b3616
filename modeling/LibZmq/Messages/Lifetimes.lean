import LibZmq.Messages.References

/-! Sequences of operations on messages. Each content and each metadata object is freed once, when nothing refers to it any
more. -/

namespace Zmq

open Option Finset

open Function (update update_comm update_eq_self update_idem update_of_ne update_self)
namespace Messages

open Shares

variable {H : Type} {s : Messages H} {h t : H} {m : MsgT} {v : ℕ} {w : H → ℕ} {x : ℕ → ℕ}

structure Small (s : Messages H) (w : H → ℕ) (x : ℕ → ℕ) : Prop where
  contents : ∀ c, refs s.objects s.holders w x c ≤ 2 ^ 32
  metadata : ∀ i, s.metadataRefs i ≤ 2 ^ 32

theorem Sound.small (hs : s.Sound) (hsmall : s.Countable) : s.Small s.weights fun _ => 0 := by
  refine ⟨fun c => ?_, fun i => ?_⟩
  · rcases Nat.lt_or_ge c s.contentsMade with hc | hc
    · exact hsmall.1 c hc
    · rw [hs.contents.fresh c hc]
      exact Nat.zero_le _
  · rcases Nat.lt_or_ge i s.metadatasMade with hi | hi
    · exact hsmall.2 i hi
    · rw [metadataRefs, hs.metadata.fresh i hi]
      exact Nat.zero_le _

theorem weights_eq (ho : s.owed h = none) : s.weights h = 1 := by
  unfold weights
  rw [ho]
  rfl

theorem holds_none (hv : m.type = none) : m.holds = none := by
  refine if_neg ?_
  rw [hv]
  rintro (ht | ht) <;> cases ht

theorem unshared (hf : m.flags = 0) : m.isShared = false := by
  unfold MsgT.isShared
  rw [hf]
  decide

variable [DecidableEq H]

def closed (s : Messages H) (h : H) : Messages H :=
  { s with
    contents := (s.released (s.msgs h) 1).contents
    metadatas := (s.closeMetadata (s.msgs h)).metadatas }.setMsg h { s.msgs h with type := none, metadata := none }

omit [DecidableEq H] in
theorem closeContent_eq (hf : s.Formed) : s.closeContent (s.msgs h) = .ok (s.released (s.msgs h) 1) := by
  unfold closeContent released
  cases hr : (s.msgs h).holds with
  | none => rfl
  | some c =>
    have hffn : (s.msgs h).type = some .zclmsg → (s.contents c).ffn = true := fun hz => by
      rw [← (MsgT.holds_eq hr).1]
      exact hf.hooked h hz
    dsimp only
    rw [Block.assert_ok hffn]
    rfl

theorem close_eq (hf : s.Formed) (hv : (s.msgs h).type ≠ none) : s.close h = .ok (true, s.closed h) := by
  unfold close
  rw [if_neg hv, closeContent_eq hf]
  change Except.ok (true, ((s.released (s.msgs h) 1).closeMetadata (s.msgs h)).setMsg h _) = _
  have hmetadatas : ((s.released (s.msgs h) 1).closeMetadata (s.msgs h)).metadatas = (s.closeMetadata (s.msgs h)).metadatas := by
    rw [released_eq]
    unfold closeMetadata
    cases (s.msgs h).metadata <;> rfl
  rw [closeMetadata_eq, hmetadatas, released_eq]
  rfl

theorem Holding.closed (hs : s.Holding w x) (hsmall : s.Small w x) (hw : 0 < w h)
    (hn : s.released (s.msgs h) 1 = s.released (s.msgs h) (UInt32.ofNat (w h))) (v : ℕ) :
    (s.closed h).Holding (update w h v) x := by
  have hcontents := hs.contents.released (hs.formed.holder_known h) hw hsmall.contents (v := v) (.inl rfl)
    (MsgT.isShared { s.msgs h with type := none, metadata := none })
  have hmetadata := hs.metadata.closeMetadata (hs.formed.label_known h) hsmall.metadata
  refine ⟨?_, ?_, ?_⟩
  · unfold CountsContents Messages.closed
    rw [holders_setMsg, sharing_setMsg]
    rw [← hn] at hcontents
    exact hcontents
  · unfold CountsMetadata Messages.closed
    rw [labels_setMsg]
    exact hmetadata
  · refine (hs.formed.counts (fun c => (released_keeps 1 c).1) _).setMsg (fun _ => rfl) (fun c hc => ?_) (fun hz => ?_)
    · cases hc
    · cases hz

theorem Holding.closed_one (hs : s.Holding w x) (hsmall : s.Small w x) (hw : w h = 1) : (s.closed h).Holding w x := by
  have hclosed := hs.closed hsmall (hw ▸ Nat.one_pos) (by rw [hw]; rfl) (w h)
  rwa [update_eq_self] at hclosed

theorem Holding.put (hs : s.Holding w x) (hv : (s.msgs h).type = none) (hm : m.holds = none) (hmeta : m.metadata = none)
    (hz : m.type ≠ some .zclmsg) : (s.setMsg h m).Holding w x := by
  have hcontents := hs.contents.setMsg_none (hs.formed.holder_known h) (.inl (holds_none hv)) hm (w h)
  have hmetadata := hs.metadata.setMsg_none (hs.formed.label_known h) (.inl (hs.formed.unlabelled h (.inl hv))) hmeta 1
  rw [update_eq_self] at hcontents
  rw [update_eq_self h fun _ => 1] at hmetadata
  refine ⟨hcontents, hmetadata, hs.formed.setMsg (fun _ => hmeta) (fun c hc => ?_) (fun h => absurd h hz)⟩
  rw [hm] at hc
  cases hc

theorem Sound.putNew (hs : s.Sound) (hv : (s.msgs h).type = none) (ho : s.owed h = none) (data : List UInt8) {ffn : Bool}
    (hm : m.holds = some s.contentsMade) (hshared : m.isShared = false) (hmeta : m.metadata = none)
    (hz : m.type = some .zclmsg → ffn = true) : ((s.newContent data ffn).setMsg h m).Sound := by
  have hcontents := hs.contents.newContent (hs.formed.holder_known h) (.inl (holds_none hv)) data ffn hm hshared
  have hmetadata := CountsMetadata.setMsg_none (s := s.newContent data ffn) hs.metadata (hs.formed.label_known h)
    (.inl (hs.formed.unlabelled h (.inl hv))) hmeta 1
  rw [← weights_eq ho, update_eq_self] at hcontents
  rw [update_eq_self h fun _ => 1] at hmetadata
  refine ⟨hcontents, hmetadata, (hs.formed.newContent data ffn).setMsg (fun _ => hmeta) (fun c hc => ?_) (fun ht => ?_)⟩
  · rw [hm] at hc
    cases hc
    exact Nat.lt_succ_self _
  · rw [(MsgT.holds_eq hm).1]
    change (update s.contents s.contentsMade _ s.contentsMade).ffn = true
    rw [update_self]
    exact hz ht

theorem Holding.give (hc : s.CountsContents (update w h 2) x)
    (hm : s.CountsMetadata (update (fun _ => 1) h 2)) (hf : s.Formed) (hne : t ≠ h) (hh : (s.msgs h).type ≠ none)
    (ht : (s.msgs t).type = none) (hw : w h = 1) (hwt : w t = 1) (hot : s.owed t = none) :
    (s.setMsg t (s.msgs h)).Holding w x := by
  have hin := hf.known_object hh
  have hcontents := hc.setMsg_give hin (by rw [update_self]; exact Nat.two_pos) (hf.holder_known t)
    (.inl (holds_none ht)) hne (v := 1) (by rw [update_self]; exact Nat.le_succ 1)
  have hmetadata := hm.setMsg_give hin (by rw [update_self]; exact Nat.two_pos) (hf.label_known t)
    (.inl (hf.unlabelled t (.inl ht))) hne (v := 1) (by rw [update_self]; exact Nat.le_succ 1) rfl
  have hweights (w : H → ℕ) (h1 : w h = 1) (h2 : w t = 1) :
      update (update (update w h 2) h (update w h 2 h - 1)) t 1 = w := by
    rw [update_self, update_idem, show 2 - 1 = w h from h1.symm, update_eq_self, ← h2, update_eq_self]
  rw [hweights _ hw hwt] at hcontents
  rw [hweights _ rfl rfl] at hmetadata
  refine ⟨hcontents, hmetadata, hf.setMsg (fun hun => ?_) (fun c hc => hf.known h c hc) (hf.hooked h)⟩
  exact absurd hot (hun.resolve_left hh)

theorem closed_msgs (hne : t ≠ h) : (s.closed t).msgs h = s.msgs h := update_of_ne hne.symm _ _

theorem closed_type : ((s.closed t).msgs t).type = none := by
  change (update s.msgs t _ t).type = none
  rw [update_self]

theorem addReferences_msgs (n : UInt32) (y : H) : ∃ flags, (s.addReferences h n).msgs y = { s.msgs y with flags := flags } ∧
    (flags = (s.msgs y).flags ∨ flags = (s.msgs y).flags ||| Msg.shared) := by
  unfold addReferences
  cases (s.msgs h).holds with
  | none => exact ⟨_, rfl, .inl rfl⟩
  | some c =>
    dsimp only
    split_ifs
    · exact ⟨_, rfl, .inl rfl⟩
    · rcases eq_or_ne y h with rfl | hne
      · exact ⟨_, setMsg_self, .inr rfl⟩
      · exact ⟨_, setMsg_other hne, .inl rfl⟩

theorem addReferences_owed (n : UInt32) : (s.addReferences h n).owed = s.owed := by
  unfold addReferences
  cases (s.msgs h).holds with
  | none => rfl
  | some c =>
    dsimp only
    split_ifs <;> rfl

theorem Formed.addReferences (hf : s.Formed) (n : UInt32) : (s.addReferences h n).Formed := by
  unfold Messages.addReferences
  cases hr : (s.msgs h).holds with
  | none => exact hf
  | some c =>
    have hcounts (n : UInt32) : (s.setContent c { s.contents c with refcnt := n }).Formed :=
      hf.counts (fun c' => (setContent_keeps (by rfl) (by rfl) c').1) s.metadatas
    dsimp only
    split_ifs
    · exact hcounts _
    · exact (hcounts _).setMsg (hf.unlabelled h) (hf.known h) ((hcounts _).hooked h)

theorem Holding.share (hs : s.Holding w x) (hne : t ≠ h) (hh : (s.msgs h).type ≠ none) (ht : (s.msgs t).type = none)
    (hw : w h = 1) (hwt : w t = 1) (hot : s.owed t = none) : (((s.addReferences h 1).addMetadata (s.msgs h)).setMsg t
      (((s.addReferences h 1).addMetadata (s.msgs h)).msgs h)).Holding w x := by
  have hin := hs.formed.known_object hh
  obtain ⟨flags, hflags, -⟩ := addReferences_msgs (s := s) (h := h) 1 h
  obtain ⟨flags', hflags', -⟩ := addReferences_msgs (s := s) (h := h) 1 t
  have howed := addReferences_owed (s := s) (h := h) 1
  have hin' : h ∈ (s.addReferences h 1).objects := (hs.formed.addReferences 1).known_object (by rwa [hflags])
  have hcontents := hs.contents.addReferences hin (hw ▸ Nat.one_pos) 1
  have hmetadata := (hs.metadata.addReferences hin 1).addMetadata hin' Nat.one_pos (m := s.msgs h)
    (congrArg MsgT.metadata hflags).symm
  rw [hw] at hcontents
  rw [addMetadata_eq] at hmetadata ⊢
  refine Holding.give hcontents hmetadata ((hs.formed.addReferences 1).counts (fun _ => rfl) _) hne ?_ ?_ hw hwt ?_
  · rwa [hflags]
  · rwa [hflags']
  · exact (congrFun howed t).trans hot

theorem copy_ok (hs : s.Sound) (hsmall : s.Countable) (hne : t ≠ h) (ho : s.owed h = none) (hot : s.owed t = none) :
    ∃ rc s', s.copy t h = .ok (rc, s') ∧ s'.Sound := by
  by_cases hh : (s.msgs h).type = none
  · exact ⟨false, s, if_pos hh, hs⟩
  by_cases ht : (s.msgs t).type = none
  · refine ⟨false, s, ?_, hs⟩
    unfold copy close
    rw [if_neg hh, if_pos ht]
    rfl
  have hclosed := Holding.closed_one hs (hs.small hsmall) (weights_eq hot)
  refine ⟨true, ((((s.closed t).addReferences h 1).addMetadata ((s.closed t).msgs h)).setMsg t
    ((((s.closed t).addReferences h 1).addMetadata ((s.closed t).msgs h)).msgs h)), ?_, ?_⟩
  rotate_left
  · have hweights : (((s.closed t).addReferences h 1).addMetadata ((s.closed t).msgs h)).weights = s.weights := by
      rw [addMetadata_eq]
      rw [addReferences_owed]
      rfl
    change Holding _ (((s.closed t).addReferences h 1).addMetadata ((s.closed t).msgs h)).weights _
    rw [hweights]
    exact hclosed.share hne (by rwa [closed_msgs hne]) closed_type (weights_eq ho) (weights_eq hot) hot
  unfold copy
  rw [if_neg hh, close_eq hs.formed ht]
  rfl

theorem Holding.hand (hs : s.Holding w x) (hne : t ≠ h) (hh : (s.msgs h).type ≠ none) (ht : (s.msgs t).type = none)
    (hw : w h = 1) (hwt : w t = 1) (hot : s.owed t = none) : ((s.setMsg t (s.msgs h)).init h).Holding w x := by
  have hin := hs.formed.known_object hh
  have hcontents := hs.contents.setMsg_give hin (hw ▸ Nat.one_pos) (hs.formed.holder_known t) (.inl (holds_none ht)) hne
    (v := 1) (Nat.le_of_eq hw.symm)
  have hmetadata := hs.metadata.setMsg_give hin Nat.one_pos (hs.formed.label_known t)
    (.inl (hs.formed.unlabelled t (.inl ht))) hne (v := 1) (Nat.le_refl 1) rfl
  have hformed : (s.setMsg t (s.msgs h)).Formed :=
    hs.formed.setMsg (fun hun => absurd hot (hun.resolve_left hh)) (hs.formed.known h) (hs.formed.hooked h)
  have hzero (w : H → ℕ) (h1 : w h = 1) : update (update w h (w h - 1)) t 1 h = 0 := by
    rw [update_of_ne hne.symm, update_self, h1]
  have hweights (w : H → ℕ) (h1 : w h = 1) (h2 : w t = 1) :
      update (update (update w h (w h - 1)) t 1) h 1 = w := by
    rw [update_comm hne, update_idem, ← h2, update_comm hne.symm, update_eq_self, h2, ← h1, update_eq_self]
  have hcontents' := hcontents.setMsg_none (m := .init) (hformed.holder_known h) (.inr (hzero _ hw)) rfl 1
  have hmetadata' := hmetadata.setMsg_none (m := .init) (hformed.label_known h) (.inr (hzero _ rfl)) rfl 1
  rw [hweights _ hw hwt] at hcontents'
  rw [hweights _ rfl rfl] at hmetadata'
  exact ⟨hcontents', hmetadata', hformed.setMsg (fun _ => rfl) nofun (nofun)⟩

theorem move_eq (hf : s.Formed) (hh : (s.msgs h).type ≠ none) (ht : (s.msgs t).type ≠ none) (hne : t ≠ h) :
    s.move t h = .ok (true, ((s.closed t).setMsg t (s.msgs h)).init h) := by
  unfold move
  rw [if_neg hh, close_eq hf ht, ← closed_msgs (s := s) hne]
  rfl

theorem move_ok (hs : s.Sound) (hsmall : s.Countable) (hne : t ≠ h) (ho : s.owed h = none) (hot : s.owed t = none) :
    ∃ rc s', s.move t h = .ok (rc, s') ∧ s'.Sound := by
  by_cases hh : (s.msgs h).type = none
  · exact ⟨false, s, if_pos hh, hs⟩
  by_cases ht : (s.msgs t).type = none
  · refine ⟨false, s, ?_, hs⟩
    unfold move close
    rw [if_neg hh, if_pos ht]
    rfl
  have hclosed := Holding.closed_one hs (hs.small hsmall) (weights_eq hot)
  refine ⟨true, _, move_eq hs.formed hh ht hne, ?_⟩
  rw [← closed_msgs (s := s) hne]
  exact hclosed.hand hne (by rwa [closed_msgs hne]) closed_type (weights_eq ho) (weights_eq hot) hot

theorem Sound.relabel (hs : s.Sound) (hh : (s.msgs h).type ≠ none) (ho : s.owed h = none) {metadatas : ℕ → MetadataT}
    (hm : m = { s.msgs h with metadata := m.metadata })
    (hmetadata : ({ s with metadatas := metadatas }.setMsg h m).CountsMetadata fun _ => 1) :
    ({ s with metadatas := metadatas }.setMsg h m).Sound := by
  have hholds : m.holds = (s.msgs h).holds := by
    rw [hm]
    rfl
  refine ⟨?_, hmetadata, (hs.formed.counts (fun _ => rfl) metadatas).setMsg (fun hun => ?_) (fun c hc => ?_) (fun hz => ?_)⟩
  · unfold CountsContents
    rw [holders_setMsg, sharing_setMsg, objects_setMsg, insert_eq_of_mem (hs.formed.known_object hh), hm]
    exact (update_eq_self h s.holders).symm ▸ (update_eq_self h s.sharing).symm ▸ hs.contents
  · rw [hm] at hun
    exact absurd ho (hun.resolve_left hh)
  · exact hs.formed.known h c (hholds ▸ hc)
  · rw [hm] at hz ⊢
    exact hs.formed.hooked h hz

theorem setMetadata_ok {i : ℕ} (hs : s.Sound) (hh : (s.msgs h).type ≠ none) (ho : s.owed h = none)
    (hm : (s.msgs h).metadata = none) (hlive : 0 < s.metadataRefs i) : ∃ s', s.setMetadata h i = .ok s' ∧ s'.Sound := by
  have hmetadata := hs.metadata.adopt (m := { s.msgs h with metadata := some i }) (hs.formed.label_known h) (.inl hm) hlive rfl
  rw [update_eq_self h fun _ => 1] at hmetadata
  refine ⟨_, ?_, hs.relabel hh ho rfl hmetadata⟩
  unfold setMetadata
  rw [Block.assert_ok hm]
  rfl

theorem Sound.resetMetadata (hs : s.Sound) (hsmall : s.Countable) (hh : (s.msgs h).type ≠ none) (ho : s.owed h = none) :
    (s.resetMetadata h).Sound := by
  have hmetadata := hs.metadata.closeMetadata (hs.formed.label_known h) (hs.small hsmall).metadata
  unfold Messages.resetMetadata
  unfold closeMetadata at hmetadata
  cases hm : (s.msgs h).metadata with
  | none => exact hs
  | some i =>
    rw [hm] at hmetadata
    refine hs.relabel hh ho rfl ?_
    unfold CountsMetadata
    rw [labels_setMsg]
    exact hmetadata

omit [DecidableEq H] in
theorem Sound.newMetadata (hs : s.Sound) : s.newMetadata.Sound := by
  have hmetadata := hs.metadata.newKept
  refine ⟨hs.contents, ?_, hs.formed.outside, hs.formed.unlabelled, hs.formed.known, hs.formed.hooked⟩
  unfold CountsMetadata
  rw [show s.newMetadata.keeps = _ from keeps_setMetadataT, show s.newMetadata.refCnts = _ from refCnts_setMetadataT,
    show s.newMetadata.deletes = _ from deletes_setMetadataT]
  exact hmetadata

omit [DecidableEq H] in
theorem Sound.dropMetadata {i : ℕ} (hs : s.Sound) (hsmall : s.Countable) (hk : (s.metadatas i).kept = true) :
    (s.dropMetadata i).Sound := by
  have hmetadata := hs.metadata.unkeep (o := i) (if_pos hk) ((hs.small hsmall).metadata i) rfl rfl (fun _ _ _ => rfl)
  refine ⟨hs.contents, ?_, hs.formed.counts (fun _ => rfl) _⟩
  unfold CountsMetadata Messages.dropMetadata
  have hrefCnts : (s.setMetadataT i { s.metadatas i with kept := false }).refCnts = s.refCnts :=
    refCnts_setMetadataT.trans (update_eq_self i s.refCnts)
  have hdeletes : (s.setMetadataT i { s.metadatas i with kept := false }).deletes = s.deletes :=
    deletes_setMetadataT.trans (update_eq_self i s.deletes)
  rw [keeps_dropRef, refCnts_dropRef, deletes_dropRef, hrefCnts, hdeletes, keeps_setMetadataT]
  exact hmetadata

theorem Holding.owe (hc : s.CountsContents (update s.weights h v) fun _ => 0) (hm : s.CountsMetadata fun _ => 1)
    (hf : s.Formed) (hlabel : (s.msgs h).metadata = none) {k : Option ℕ} (hk : k.getD 1 = v) : (s.setOwed h k).Sound := by
  refine ⟨?_, hm, hf.setOwed k hlabel⟩
  rw [weights_setOwed, hk]
  exact hc

theorem addRefs_ok {n : ℕ} (hs : s.Sound) (hh : (s.msgs h).type ≠ none) (ho : s.owed h = none)
    (hm : (s.msgs h).metadata = none) : ∃ s', s.addRefs h n = .ok s' ∧ (s'.setOwed h (some (n + 1))).Sound := by
  have hw := weights_eq ho
  have hin := hs.formed.known_object hh
  unfold addRefs
  rw [Block.assert_ok hm]
  by_cases hn : n = 0
  · subst hn
    refine ⟨s, rfl, Holding.owe (v := 1) ?_ hs.metadata hs.formed hm rfl⟩
    have hcontents := hs.contents
    rwa [← update_eq_self h s.weights, hw] at hcontents
  · refine ⟨_, if_neg hn, Holding.owe (v := n + 1) ?_ (hs.metadata.addReferences hin _) (hs.formed.addReferences _) ?_ rfl⟩
    · have hcontents := hs.contents.addReferences hin (hw ▸ Nat.one_pos) n
      have hweights : (s.addReferences h (UInt32.ofNat n)).weights = s.weights := by
        unfold weights
        rw [addReferences_owed]
      rwa [hw, Nat.add_comm, ← hweights] at hcontents
    · obtain ⟨flags, hflags, -⟩ := addReferences_msgs (s := s) (h := h) (UInt32.ofNat n) h
      rwa [hflags]

theorem Sound.bitCopy {k : ℕ} (hs : s.Sound) (hh : (s.msgs h).type ≠ none) (hne : t ≠ h)
    (ht : (s.msgs t).type = none) (ho : s.owed h = some (k + 1))
    (hot : s.owed t = none) : ((s.setMsg t (s.msgs h)).setOwed h (some k)).Sound := by
  have hw : s.weights h = k + 1 := by
    unfold weights
    rw [ho]
    rfl
  have hlabel : (s.msgs h).metadata = none := hs.formed.unlabelled h (.inr (by rw [ho]; exact some_ne_none _))
  have hmsgs : (s.setMsg t (s.msgs h)).msgs h = s.msgs h := update_of_ne hne.symm _ _
  refine Holding.owe (v := k) ?_ ?_ ?_ (by rw [hmsgs]; exact hlabel) rfl
  · have hcontents := hs.contents.setMsg_give (hs.formed.known_object hh) (by omega) (hs.formed.holder_known t)
      (.inl (holds_none ht)) hne (v := 1) (by omega)
    rwa [hw, Nat.add_sub_cancel, update_comm hne.symm, ← weights_eq hot, update_eq_self] at hcontents
  · have hmetadata := hs.metadata.setMsg_none (hs.formed.label_known t) (.inl (hs.formed.unlabelled t (.inl ht))) hlabel 1
    rwa [update_eq_self t fun _ => 1] at hmetadata
  · exact hs.formed.setMsg (fun _ => hlabel) (hs.formed.known h) (hs.formed.hooked h)

theorem Holding.rmRefs {k : ℕ} (hs : s.Holding w x) (hsmall : s.Small w x) (hh : (s.msgs h).type ≠ none)
    (hlabel : (s.msgs h).metadata = none) (hw : w h = k) :
    ∃ s', s.rmRefs h k = .ok s' ∧ s'.Holding (update w h 0) x ∧ (∀ y ≠ h, s'.msgs y = s.msgs y) ∧
      (s'.msgs h).metadata = none ∧ s'.owed = s.owed ∧ KeepsData s s' := by
  have hin := hs.formed.known_object hh
  -- all that is left is one reference, or none that are counted
  have hclose (hpos : 0 < k) (hn : s.released (s.msgs h) 1 = s.released (s.msgs h) (UInt32.ofNat k)) :
      (s.closed h).Holding (update w h 0) x ∧ (∀ y ≠ h, (s.closed h).msgs y = s.msgs y) ∧
        ((s.closed h).msgs h).metadata = none ∧ (s.closed h).owed = s.owed ∧ KeepsData s (s.closed h) := by
    have hclosed := hs.closed hsmall (hw.symm ▸ hpos) (by rw [hw]; exact hn) 0
    exact ⟨hclosed, fun y hy => closed_msgs hy.symm, hclosed.formed.unlabelled h (.inl closed_type), rfl, released_keeps 1⟩
  unfold Messages.rmRefs
  rw [Block.assert_ok hlabel]
  by_cases hk : k = 0
  · refine ⟨s, if_pos hk, ?_, fun _ _ => rfl, hlabel, rfl, fun _ => ⟨rfl, rfl⟩⟩
    rwa [← hk, ← hw, update_eq_self]
  have hpos := Nat.pos_of_ne_zero hk
  rw [if_neg hk, close_eq hs.formed hh]
  cases hr : (s.msgs h).holds with
  | none =>
    refine ⟨_, rfl, hclose hpos ?_⟩
    unfold released
    rw [hr]
  | some c =>
    cases hshared : (s.msgs h).isShared with
    | false =>
      refine ⟨_, rfl, hclose hpos ?_⟩
      unfold released
      rw [hshared]
      rfl
    | true =>
      have hcontents := hs.contents.released (.inl hin) (hw ▸ hpos) hsmall.contents (v := 0) (.inr ⟨rfl, rfl⟩)
        (s.sharing h)
      rw [insert_eq_of_mem hin, update_eq_self, update_eq_self, hw] at hcontents
      refine ⟨s.released (s.msgs h) (UInt32.ofNat k), ?_, ?_⟩
      · unfold released
        rw [hr, hshared]
        rfl
      · have hkeeps := released_keeps (s := s) (m := s.msgs h) (UInt32.ofNat k)
        rw [released_eq] at hkeeps ⊢
        exact ⟨⟨hcontents, hs.metadata, hs.formed.counts (fun c => (hkeeps c).1) s.metadatas⟩, fun _ _ => rfl, hlabel, rfl, hkeeps⟩

theorem rmRefs_ok {k : ℕ} (hs : s.Sound) (hsmall : s.Countable) (hh : (s.msgs h).type ≠ none) (ho : s.owed h = some k) :
    ∃ s', s.rmRefs h k = .ok s' ∧ (s'.setOwed h (some 0)).Sound := by
  have hw : s.weights h = k := by
    unfold weights
    rw [ho]
    rfl
  have hlabel : (s.msgs h).metadata = none := hs.formed.unlabelled h (.inr (by rw [ho]; exact some_ne_none _))
  obtain ⟨s', hdo, hs', -, hlabel', howed, -⟩ := hs.rmRefs (hs.small hsmall) hh hlabel hw
  refine ⟨s', hdo, Holding.owe (v := 0) ?_ hs'.metadata hs'.formed hlabel' rfl⟩
  have hweights : s'.weights = s.weights := by
    unfold weights
    rw [howed]
  rw [hweights]
  exact hs'.contents

theorem Sound.reinit (hs : s.Sound) (ho : s.owed h = some 0) : ((s.init h).setOwed h none).Sound := by
  have hw : s.weights h = 0 := by
    unfold weights
    rw [ho]
    rfl
  have hlabel : (s.msgs h).metadata = none := hs.formed.unlabelled h (.inr (by rw [ho]; exact some_ne_none _))
  have hmetadata := hs.metadata.setMsg_none (m := .init) (hs.formed.label_known h) (.inl hlabel) rfl 1
  rw [update_eq_self h fun _ => 1] at hmetadata
  refine Holding.owe (hs.contents.setMsg_none (hs.formed.holder_known h) (.inr hw) rfl 1) hmetadata
    (hs.formed.setMsg (fun _ => rfl) nofun (nofun)) ?_ rfl
  change (update s.msgs h .init h).metadata = none
  rw [update_self]
  rfl

/-- The operations. Copies in bulk are made with `addRefs` for all of them but one, `bitCopy` for each, `rmRefs` for those that
have not been made, and `reinit`. -/
inductive Op (H : Type) where
  | init (h : H)
  | initSize (h : H) (data : List UInt8)
  | initData (h : H) (data : List UInt8) (ffn : Bool)
  | initExternalStorage (h : H) (data : List UInt8) (ffn : Bool)
  | close (h : H)
  | move (target src : H)
  | copy (target src : H)
  | newMetadata
  | dropMetadata (i : ℕ)
  | setMetadata (h : H) (i : ℕ)
  | resetMetadata (h : H)
  | addRefs (h : H) (refs : ℕ)
  | bitCopy (target src : H)
  | rmRefs (h : H) (refs : ℕ)
  | reinit (h : H)

/-- Messages that are valid are not initialised again, one that is being distributed is left alone, and metadata are set while
somebody has them. -/
def Ready (s : Messages H) : Op H → Prop
  | .init h | .initSize h _ | .initData h _ _ => (s.msgs h).type = none ∧ s.owed h = none
  | .initExternalStorage h _ ffn => (s.msgs h).type = none ∧ s.owed h = none ∧ ffn = true
  | .close h => s.owed h = none
  | .move target src | .copy target src => target ≠ src ∧ s.owed src = none ∧ s.owed target = none
  | .newMetadata => True
  | .dropMetadata i => (s.metadatas i).kept = true
  | .setMetadata h i => (s.msgs h).type ≠ none ∧ s.owed h = none ∧ (s.msgs h).metadata = none ∧ 0 < s.metadataRefs i
  | .resetMetadata h => (s.msgs h).type ≠ none ∧ s.owed h = none
  | .addRefs h refs => (s.msgs h).type ≠ none ∧ s.owed h = none ∧ (s.msgs h).metadata = none ∧ refs < 2 ^ 31
  | .bitCopy target src => target ≠ src ∧ (s.msgs src).type ≠ none ∧ 0 < (s.owed src).getD 0 ∧ (s.msgs target).type = none ∧
      s.owed target = none
  | .rmRefs h refs => (s.msgs h).type ≠ none ∧ s.owed h = some refs
  | .reinit h => s.owed h = some 0

instance (s : Messages H) (op : Op H) : Decidable (s.Ready op) := by
  cases op <;> (unfold Ready; infer_instance)

def run (s : Messages H) : Op H → Except Crash (Messages H)
  | .init h => .ok (s.init h)
  | .initSize h data => .ok (s.initSize h data)
  | .initData h data ffn => .ok (s.initData h data ffn)
  | .initExternalStorage h data ffn => .ok (s.initExternalStorage h data ffn)
  | .close h => do return (← s.close h).2
  | .move target src => do return (← s.move target src).2
  | .copy target src => do return (← s.copy target src).2
  | .newMetadata => .ok s.newMetadata
  | .dropMetadata i => .ok (s.dropMetadata i)
  | .setMetadata h i => s.setMetadata h i
  | .resetMetadata h => .ok (s.resetMetadata h)
  | .addRefs h refs => do return (← s.addRefs h refs).setOwed h (some (refs + 1))
  | .bitCopy target src => .ok ((s.setMsg target (s.msgs src)).setOwed src (some ((s.owed src).getD 0 - 1)))
  | .rmRefs h refs => do return (← s.rmRefs h refs).setOwed h (some 0)
  | .reinit h => .ok ((s.init h).setOwed h none)

theorem Sound.step {op : Op H} (hs : s.Sound) (hsmall : s.Countable) (hr : s.Ready op) : ∃ s', s.run op = .ok s' ∧ s'.Sound := by
  cases op with
  | init h => exact ⟨_, rfl, hs.put hr.1 rfl rfl nofun⟩
  | initSize h data =>
    refine ⟨_, rfl, ?_⟩
    unfold initSize
    split_ifs
    · exact hs.put hr.1 rfl rfl nofun
    · exact hs.putNew hr.1 hr.2 data rfl (unshared rfl) rfl nofun
  | initData h data ffn =>
    refine ⟨_, rfl, ?_⟩
    unfold initData
    split_ifs
    · exact hs.putNew hr.1 hr.2 data rfl (unshared rfl) rfl nofun
    · exact hs.put hr.1 rfl rfl nofun
  | initExternalStorage h data ffn => exact ⟨_, rfl, hs.putNew hr.1 hr.2.1 data rfl (unshared rfl) rfl (fun _ => hr.2.2)⟩
  | close h =>
    by_cases hh : (s.msgs h).type = none
    · exact ⟨s, by simp only [run, close, if_pos hh]; rfl, hs⟩
    · exact ⟨_, by simp only [run, close_eq hs.formed hh]; rfl, hs.closed_one (hs.small hsmall) (weights_eq hr)⟩
  | move target src =>
    obtain ⟨rc, s', hm, hs'⟩ := move_ok hs hsmall hr.1 hr.2.1 hr.2.2
    exact ⟨s', by simp only [run, hm]; rfl, hs'⟩
  | copy target src =>
    obtain ⟨rc, s', hm, hs'⟩ := copy_ok hs hsmall hr.1 hr.2.1 hr.2.2
    exact ⟨s', by simp only [run, hm]; rfl, hs'⟩
  | newMetadata => exact ⟨_, rfl, hs.newMetadata⟩
  | dropMetadata i => exact ⟨_, rfl, hs.dropMetadata hsmall hr⟩
  | setMetadata h i => exact setMetadata_ok hs hr.1 hr.2.1 hr.2.2.1 hr.2.2.2
  | resetMetadata h => exact ⟨_, rfl, hs.resetMetadata hsmall hr.1 hr.2⟩
  | addRefs h refs =>
    obtain ⟨s', ha, hs'⟩ := addRefs_ok (n := refs) hs hr.1 hr.2.1 hr.2.2.1
    exact ⟨_, by simp only [run, ha]; rfl, hs'⟩
  | bitCopy target src =>
    obtain ⟨hne, hsrc, howed, ht, hot⟩ := hr
    obtain ⟨k, hk⟩ : ∃ k, s.owed src = some (k + 1) := by
      cases ho : s.owed src with
      | none => simp [ho] at howed
      | some n =>
        rw [ho] at howed
        exact ⟨n - 1, congrArg some (Nat.sub_add_cancel howed).symm⟩
    refine ⟨_, rfl, ?_⟩
    rw [hk]
    exact hs.bitCopy hsrc hne ht hk hot
  | rmRefs h refs =>
    obtain ⟨s', ha, hs'⟩ := rmRefs_ok hs hsmall hr.1 hr.2
    exact ⟨_, by simp only [run, ha]; rfl, hs'⟩
  | reinit h => exact ⟨_, rfl, hs.reinit hr⟩

omit [DecidableEq H] in
theorem sound_empty : (empty : Messages H).Sound := by
  refine ⟨⟨fun o _ => rfl, ?_, ?_, ?_⟩, ⟨fun o _ => rfl, ?_, ?_, ?_⟩, fun _ _ => rfl, fun _ _ => rfl, ?_, ?_⟩
  · exact fun o ho => absurd ho (Nat.not_lt_zero o)
  · exact fun h hh => absurd hh (notMem_empty h)
  · exact fun o ho => absurd ho (Nat.lt_irrefl 0)
  · exact fun o ho => absurd ho (Nat.not_lt_zero o)
  · exact fun h hh => absurd hh (notMem_empty h)
  · exact fun o ho => absurd ho (Nat.lt_irrefl 0)
  · exact fun h c hc => by cases hc
  · exact fun h hz => by cases hz

/-- All operations are made while the counters can count the references. -/
abbrev Counting (s : Messages H) (_ : Op H) : Prop := s.Countable

theorem sound_run {ops : List (Op H)} (hrun : Run (fun s => s = empty) (Guarded Counting (Does Ready run)) ops s) : s.Sound := by
  refine hrun.invariant Sound (fun s h0 => h0 ▸ sound_empty) fun s op s' hs hstep => ?_
  obtain ⟨hsmall, hready, hdo⟩ := hstep
  obtain ⟨s1, h1, hs1⟩ := hs.step hsmall hready
  rw [hdo] at h1
  exact Except.ok.inj h1 ▸ hs1

/-- A message refers to a content. One that has given all its references away, and is about to be initialised again, does
not. -/
def Refers (s : Messages H) (h : H) (c : ℕ) : Prop := (s.msgs h).holds = some c ∧ s.owed h ≠ some 0

instance (s : Messages H) (h : H) (c : ℕ) : Decidable (s.Refers h c) := inferInstanceAs (Decidable (_ ∧ _))

theorem Sound.refs_pos (hs : s.Sound) (c : ℕ) : 0 < s.contentRefs c ↔ ∃ h, s.Refers h c := by
  have hweight (h : H) : 0 < s.weights h ↔ s.owed h ≠ some 0 := by
    unfold weights
    cases s.owed h with
    | none => simp
    | some k => simp [Nat.pos_iff_ne_zero]
  change 0 < total s.objects s.holders s.weights c + 0 ↔ _
  rw [Nat.add_zero, total_pos]
  constructor
  · rintro ⟨h, -, hc, hw⟩
    exact ⟨h, hc, (hweight h).mp hw⟩
  · rintro ⟨h, hc, hw⟩
    refine ⟨h, (hs.formed.holder_known h).resolve_right ?_, hc, (hweight h).mpr hw⟩
    rw [holders, hc]
    exact some_ne_none c

theorem Sound.metadataRefs_pos (hs : s.Sound) (i : ℕ) :
    0 < s.metadataRefs i ↔ (s.metadatas i).kept = true ∨ ∃ h, (s.msgs h).metadata = some i := by
  have htotal : 0 < total s.objects s.labels (fun _ => 1) i ↔ ∃ h, (s.msgs h).metadata = some i := by
    rw [total_pos]
    constructor
    · rintro ⟨h, -, hi, -⟩
      exact ⟨h, hi⟩
    · rintro ⟨h, hi⟩
      refine ⟨h, (hs.formed.label_known h).resolve_right ?_, hi, Nat.one_pos⟩
      rw [labels, hi]
      exact some_ne_none i
  rw [metadataRefs, refs, keeps]
  split_ifs with hk
  · simp only [hk, true_or, iff_true]
    omega
  · simp only [hk, Bool.false_eq_true, false_or]
    omega

/-- A content is freed once, when no message refers to it any more, and metadata are deleted once, when nothing refers to them
any more. -/
theorem freed_once {ops : List (Op H)} (hrun : Run (fun s => s = empty) (Guarded Counting (Does Ready run)) ops s) :
    (∀ c < s.contentsMade, ((∃ h, s.Refers h c) → (s.contents c).frees = 0) ∧
      ((¬ ∃ h, s.Refers h c) → (s.contents c).frees = 1)) ∧
    (∀ h c, s.Refers h c → c < s.contentsMade ∧ (s.contents c).frees = 0) ∧ (∀ i < s.metadatasMade,
      ((s.metadatas i).kept = true ∨ (∃ h, (s.msgs h).metadata = some i) → (s.metadatas i).deletes = 0) ∧
      (¬ ((s.metadatas i).kept = true ∨ ∃ h, (s.msgs h).metadata = some i) → (s.metadatas i).deletes = 1)) ∧
    ∀ op, s.Ready op → s.Countable → ∃ s', s.run op = .ok s' := by
  have hs := sound_run hrun
  have hcontent (c : ℕ) (hc : c < s.contentsMade) : ((∃ h, s.Refers h c) → (s.contents c).frees = 0) ∧
      ((¬ ∃ h, s.Refers h c) → (s.contents c).frees = 1) := by
    rw [← hs.refs_pos]
    have hfrees : (s.contents c).frees = if s.contentRefs c = 0 then 1 else 0 := hs.contents.freed c hc
    refine ⟨fun hpos => hfrees.trans (if_neg (Nat.ne_of_gt hpos)), fun hpos => hfrees.trans (if_pos ?_)⟩
    omega
  refine ⟨hcontent, fun h c hr => ?_, fun i hi => ?_, fun op hop hsmall => ?_⟩
  · have hc := hs.formed.known h c hr.1
    exact ⟨hc, (hcontent c hc).1 ⟨h, hr⟩⟩
  · rw [← hs.metadataRefs_pos]
    have hdeletes : (s.metadatas i).deletes = if s.metadataRefs i = 0 then 1 else 0 := hs.metadata.freed i hi
    refine ⟨fun hpos => hdeletes.trans (if_neg (Nat.ne_of_gt hpos)), fun hpos => hdeletes.trans (if_pos ?_)⟩
    omega
  · obtain ⟨s', hdo, -⟩ := hs.step hsmall hop
    exact ⟨s', hdo⟩

/-- A long message is copied, distributed to one place of two, and closed at all but that. -/
theorem freed_once_bulk : ∃ s : Messages ℕ, (∀ h c, s.Refers h c → c < s.contentsMade ∧ (s.contents c).frees = 0) ∧
    s.Refers 2 0 ∧ (s.metadatas 0).deletes = 1 := by
  let ops : List (Op ℕ) := [.newMetadata, .initSize 0 (List.replicate 34 7), .init 1, .copy 1 0, .setMetadata 1 0, .addRefs 0 1,
    .bitCopy 2 0, .close 1, .rmRefs 0 1, .reinit 0, .dropMetadata 0]
  obtain ⟨s, hrun, hs⟩ : ∃ s, Run (fun s => s = empty) (Guarded Counting (Does Ready run)) ops s ∧
      (decide (s.Refers 2 0), (s.metadatas 0).deletes) = (true, 1) :=
    run_of_play rfl (by decide +kernel)
  obtain ⟨hrefers, hdeletes⟩ := Prod.mk.inj hs
  exact ⟨s, (freed_once hrun).2.1, of_decide_eq_true hrefers, hdeletes⟩

/-- Two messages are each about to be copied to 2 ^ 31 places, and the count is back at 1. -/
theorem freed_early : ∃ s : Messages ℕ,
    (∃ ops, Run (fun s => s = empty) (Guarded Zmq.free (Does Ready run)) ops s) ∧ s.Refers 1 0 ∧ (s.contents 0).frees = 1 := by
  let ops : List (Op ℕ) := [.initSize 0 (List.replicate 34 7), .addRefs 0 (2 ^ 31 - 1), .bitCopy 1 0, .addRefs 1 (2 ^ 31 - 1),
    .bitCopy 2 0, .addRefs 2 2, .bitCopy 3 0, .close 3]
  obtain ⟨s, hrun, hs⟩ : ∃ s, Run (fun s => s = empty) (Guarded Zmq.free (Does Ready run)) ops s ∧
      (decide (s.Refers 1 0), (s.contents 0).frees) = (true, 1) :=
    run_of_play rfl (by decide +kernel)
  obtain ⟨hrefers, hfrees⟩ := Prod.mk.inj hs
  exact ⟨s, ⟨_, hrun⟩, of_decide_eq_true hrefers, hfrees⟩

end Messages
end Zmq
