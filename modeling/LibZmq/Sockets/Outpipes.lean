import LibZmq.Sockets.Receiving

/-! The tables in which sockets look up the pipe to send to. -/

namespace Zmq

open Option Finset

variable {P K : Type} [DecidableEq K]

/-- The table has an entry for each pipe that is attached, under the key that the pipe keeps, and no other entries. -/
structure Directory (outpipes : AList fun _ : K => OutpipeT P) (key : P → K) (attached : Finset P) : Prop where
  keyed : ∀ p ∈ attached, ∃ active, outpipes.lookup (key p) = some ⟨p, active⟩
  listed : ∀ k x, outpipes.lookup k = some x → x.pipe ∈ attached ∧ key x.pipe = k

namespace Directory

variable {outpipes : AList fun _ : K => OutpipeT P} {key : P → K} {attached : Finset P} {p q : P} {k : K}

theorem empty : Directory (∅ : AList fun _ : K => OutpipeT P) key ∅ :=
  ⟨fun p hp => absurd hp (notMem_empty p), fun _ x hx => absurd hx (some_ne_none x).symm⟩

theorem mem (h : Directory outpipes key attached) (hp : p ∈ attached) : key p ∈ outpipes := by
  obtain ⟨active, hl⟩ := h.keyed p hp
  exact AList.lookup_isSome.mp (by rw [hl]; rfl)

theorem distinct (h : Directory outpipes key attached) (hp : p ∈ attached) (hq : q ∈ attached) (he : key p = key q) : p = q := by
  obtain ⟨a, ha⟩ := h.keyed p hp
  obtain ⟨b, hb⟩ := h.keyed q hq
  rw [he, hb] at ha
  exact congrArg OutpipeT.pipe (some.inj ha).symm

theorem insert [DecidableEq P] {active : Bool} (h : Directory outpipes key attached) (hp : p ∉ attached) (hk : k ∉ outpipes) :
    Directory (outpipes.insert k ⟨p, active⟩) (Function.update key p k) (insert p attached) := by
  have hne : ∀ q ∈ attached, q ≠ p := fun q hq he => hp (he ▸ hq)
  refine ⟨fun q hq => ?_, fun k' x hx => ?_⟩
  · rcases mem_insert.mp hq with rfl | hq
    · refine ⟨active, ?_⟩
      rw [Function.update_self]
      exact AList.lookup_insert _
    · obtain ⟨a, ha⟩ := h.keyed q hq
      refine ⟨a, ?_⟩
      have hkey : key q ≠ k := fun he => hk (he ▸ h.mem hq)
      rw [Function.update_of_ne (hne q hq)]
      exact (AList.lookup_insert_ne hkey).trans ha
  · rcases eq_or_ne k' k with rfl | hk'
    · cases (AList.lookup_insert outpipes).symm.trans hx
      exact ⟨mem_insert_self _ _, Function.update_self _ _ _⟩
    · obtain ⟨hmem, hkey⟩ := h.listed k' x ((AList.lookup_insert_ne hk').symm.trans hx)
      exact ⟨mem_insert_of_mem hmem, (Function.update_of_ne (hne _ hmem) _ _).trans hkey⟩

theorem erase [DecidableEq P] (h : Directory outpipes key attached) (hp : p ∈ attached) :
    Directory (outpipes.erase (key p)) key (attached.erase p) := by
  refine ⟨fun q hq => ?_, fun k x hx => ?_⟩
  · obtain ⟨hne, hq⟩ := mem_erase.mp hq
    obtain ⟨a, ha⟩ := h.keyed q hq
    exact ⟨a, (AList.lookup_erase_ne fun he => hne (h.distinct hq hp he)).trans ha⟩
  · rcases eq_or_ne k (key p) with rfl | hne
    · exact absurd ((AList.lookup_erase _ _).symm.trans hx) (some_ne_none x).symm
    · obtain ⟨hmem, hkey⟩ := h.listed k x ((AList.lookup_erase_ne hne).symm.trans hx)
      exact ⟨mem_erase.mpr ⟨fun he => hne (he ▸ hkey.symm), hmem⟩, hkey⟩

theorem congr {key' : P → K} (h : Directory outpipes key attached) (hk : ∀ p ∈ attached, key' p = key p) :
    Directory outpipes key' attached := by
  refine ⟨fun p hp => ?_, fun k x hx => ?_⟩
  · rw [hk p hp]
    exact h.keyed p hp
  · obtain ⟨hmem, hkey⟩ := h.listed k x hx
    exact ⟨hmem, (hk _ hmem).trans hkey⟩

theorem mark {x : OutpipeT P} {active : Bool} (h : Directory outpipes key attached) (hx : outpipes.lookup k = some x) :
    Directory (outpipes.insert k { x with active := active }) key attached := by
  refine ⟨fun q hq => ?_, fun k' y hy => ?_⟩
  · rcases eq_or_ne (key q) k with hk | hk
    · obtain ⟨a, ha⟩ := h.keyed q hq
      rw [hk, hx] at ha
      refine ⟨active, ?_⟩
      rw [hk, AList.lookup_insert, some.inj ha]
    · obtain ⟨a, ha⟩ := h.keyed q hq
      exact ⟨a, (AList.lookup_insert_ne hk).trans ha⟩
  · rcases eq_or_ne k' k with rfl | hk
    · cases (AList.lookup_insert outpipes).symm.trans hy
      exact h.listed k' x hx
    · exact h.listed k' y ((AList.lookup_insert_ne hk).symm.trans hy)

end Directory

end Zmq
