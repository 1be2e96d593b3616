import LibZmq.Messages.Fanout

/-! What the pipes hold after a message has been distributed, and how the references are counted. -/

namespace Zmq

open Finset

open Function (update update_comm update_eq_self update_idem update_of_ne update_self)
namespace Messages

open Shares

variable {H : Type} {s : Messages H} {h t : H} {m : MsgT} {w : H → ℕ} {x : ℕ → ℕ}

theorem keeps_closeMetadata : (s.closeMetadata m).keeps = s.keeps := by
  unfold closeMetadata
  cases m.metadata with
  | none => rfl
  | some i => exact keeps_dropRef

variable [DecidableEq H]

/-! Counts do not grow while messages are handed on. -/

theorem Small.setMsg_none (hs : s.Small w x) (hf : s.Formed) (hm : m.holds = none) (hl : m.metadata = none) (v : ℕ) :
    (s.setMsg t m).Small (update w t v) x := by
  constructor
  · intro c
    have := refs_drop w x (o := c) (hf.holder_known t) (r := none) (w := v) (.inl rfl)
    rw [holders_setMsg, hm]
    exact Nat.le_trans (Nat.le_of_add_right_le (Nat.le_of_eq this)) (hs.contents c)
  · intro i
    have := refs_drop (fun _ => 1) s.keeps (o := i) (hf.label_known t) (r := none) (w := 1) (.inl rfl)
    rw [update_eq_self t fun _ => 1] at this
    unfold metadataRefs
    rw [labels_setMsg, hl]
    exact Nat.le_trans (Nat.le_of_add_right_le (Nat.le_of_eq this)) (hs.metadata i)

theorem Small.closed (hs : s.Small w x) (hf : s.Formed) (v : ℕ) : (s.closed t).Small (update w t v) x := by
  have hcounts : { s with
      contents := (s.released (s.msgs t) 1).contents
      metadatas := (s.closeMetadata (s.msgs t)).metadatas }.Small w x := by
    refine ⟨hs.contents, fun i => ?_⟩
    have := hs.metadata i
    rwa [metadataRefs, ← keeps_closeMetadata (m := s.msgs t)] at this
  exact hcounts.setMsg_none (hf.counts (fun c => (released_keeps 1 c).1) _) (holds_none rfl) rfl v

theorem Holding.giveOne (hs : s.Holding w x) (hh : (s.msgs h).type ≠ none) (hlabel : (s.msgs h).metadata = none)
    (hw : 0 < w h) (hne : t ≠ h) (ht : (s.msgs t).type = none) (hwt : w t = 1) :
    (s.setMsg t (s.msgs h)).Holding (update w h (w h - 1)) x := by
  have hcontents := hs.contents.setMsg_give (hs.formed.known_object hh) hw (hs.formed.holder_known t)
    (.inl (holds_none ht)) hne (v := 1) hw
  have hmetadata := hs.metadata.setMsg_none (hs.formed.label_known t) (.inl (hs.formed.unlabelled t (.inl ht))) hlabel 1
  rw [update_comm hne.symm, ← hwt, update_eq_self] at hcontents
  rw [update_eq_self t fun _ => 1] at hmetadata
  rw [← hwt]
  exact ⟨hcontents, hmetadata, hs.formed.setMsg (fun _ => hlabel) (hs.formed.known h) (hs.formed.hooked h)⟩

theorem Small.giveOne (hs : s.Small w x) (hf : s.Formed) (hh : (s.msgs h).type ≠ none) (hlabel : (s.msgs h).metadata = none)
    (hw : 0 < w h) (hne : t ≠ h) (ht : (s.msgs t).type = none) (hwt : w t = 1) :
    (s.setMsg t (s.msgs h)).Small (update w h (w h - 1)) x := by
  constructor
  · intro c
    rw [holders_setMsg]
    cases hr : (s.msgs h).holds with
    | none =>
      have hleft := refs_drop w x (o := c) (hf.holder_known h) (r := none) (w := w h - 1) (.inl rfl)
      rw [insert_eq_of_mem (hf.known_object hh), ← show s.holders h = none from hr, update_eq_self] at hleft
      have htaken := refs_drop (update w h (w h - 1)) x (o := c) (hf.holder_known t) (r := none) (w := 1) (.inl rfl)
      rw [update_comm hne.symm, ← hwt, update_eq_self] at htaken
      have := hs.contents c
      rw [hwt] at htaken
      rw [objects_setMsg]
      omega
    | some c' =>
      have : _ = refs _ _ _ _ c := refs_give x (hf.known_object hh) hr (hf.holder_known t) (.inl (holds_none ht)) hne (v := 1) hw
      rw [update_comm hne.symm, ← hwt, update_eq_self, hwt] at this
      rw [objects_setMsg, this]
      exact hs.contents c
  · have hsmall := hs.setMsg_none (t := t) (m := { s.msgs h with type := none }) hf (holds_none rfl) hlabel 1
    intro i
    have := hsmall.metadata i
    unfold metadataRefs at this ⊢
    rwa [labels_setMsg, ] at this ⊢

theorem Holding.setMsg_none (hs : s.Holding w x) (hno : s.holders t = none ∨ w t = 0) (hl : s.labels t = none)
    (hm : m.holds = none) (hlabel : m.metadata = none) (hz : m.type ≠ some .zclmsg) (v : ℕ) :
    (s.setMsg t m).Holding (update w t v) x := by
  have hmetadata := hs.metadata.setMsg_none (hs.formed.label_known t) (.inl hl) hlabel 1
  rw [update_eq_self t fun _ => 1] at hmetadata
  refine ⟨hs.contents.setMsg_none (hs.formed.holder_known t) hno hm v, hmetadata,
    hs.formed.setMsg (fun _ => hlabel) (fun c hc => ?_) (fun h => absurd h hz)⟩
  rw [hm] at hc
  cases hc

def left (s : Messages H) (h : H) (n : ℕ) (x : ℕ → ℕ) : ℕ → ℕ :=
  match (s.msgs h).holds with
  | none => x
  | some c => update x c (x c + n)

theorem Holding.abandon (hs : s.Holding w x) (hh : (s.msgs h).type ≠ none)
    (hshared : (s.msgs h).holds = none ∨ (s.msgs h).isShared = true ∨ w h = 0) :
    s.Holding (update w h 0) (s.left h (w h) x) := by
  have hin := hs.formed.known_object hh
  refine ⟨?_, hs.metadata, hs.formed⟩
  unfold left
  cases hr : (s.msgs h).holds with
  | none =>
    have := hs.contents.idle (.inl hin) (.inl hr) (s.sharing h) 0
    rwa [insert_eq_of_mem hin, ← show s.holders h = none from hr, update_eq_self, update_eq_self] at this
  | some c => exact hs.contents.abandon hin hr (hshared.resolve_left (by rw [hr]; exact Option.some_ne_none c))

theorem Small.abandon (hs : s.Small w x) (hf : s.Formed) (hh : (s.msgs h).type ≠ none) :
    s.Small (update w h 0) (s.left h (w h) x) := by
  have hin := hf.known_object hh
  refine ⟨fun c => ?_, hs.metadata⟩
  unfold left
  cases hr : (s.msgs h).holds with
  | none =>
    have := refs_drop w x (o := c) (hf.holder_known h) (r := none) (w := 0) (.inl rfl)
    rw [insert_eq_of_mem hin, ← show s.holders h = none from hr, update_eq_self] at this
    exact Nat.le_trans (Nat.le_of_add_right_le (Nat.le_of_eq this)) (hs.contents c)
  | some c' =>
    have : refs _ s.holders (update w h 0) (update x c' (x c' + w h)) c = _ :=
      refs_abandon x hin (show s.holders h = some c' from hr)
    exact this ▸ hs.contents c

end Messages

namespace Fan

open Messages

variable {P : Type} [DecidableEq P] {s : Messages (Place P)} {k : ℕ} {x : ℕ → ℕ} {e : FanEnd} {p : P} {e' : FanEnd} {ends : P → FanEnd}
    {l : List P}

def shares (k : ℕ) : Place P → ℕ := update (fun _ => 1) .caller k

structure Giving (s : Messages (Place P)) (k : ℕ) (x : ℕ → ℕ) : Prop where
  holding : s.Holding (shares k) x
  small : s.Small (shares k) x
  caller : (s.msgs .caller).type ≠ none
  label : (s.msgs .caller).metadata = none
  idle : ∀ h, s.owed h = none

def Room (s : Messages (Place P)) (e : FanEnd) (p : P) : Prop := (s.msgs (e.place p)).type = none ↔ e.conflate = false

structure Put (s s' : Messages (Place P)) (place : Place P) (moved : Bool) : Prop where
  at_place : s'.msgs place = s.msgs .caller
  caller : s'.msgs .caller = if moved then .init else s.msgs .caller
  others : ∀ h, h ≠ place → h ≠ .caller → s'.msgs h = s.msgs h
  data : KeepsData s s'

omit [DecidableEq P] in
theorem place_ne : e.place p ≠ .caller := by
  unfold FanEnd.place
  split_ifs <;> rintro ⟨⟩

theorem shares_caller : (shares k : Place P → ℕ) .caller = k := update_self _ _ _

theorem shares_place : (shares k : Place P → ℕ) (e.place p) = 1 := update_of_ne place_ne _ _

theorem update_shares (n : ℕ) : update (shares k : Place P → ℕ) .caller n = shares n := update_idem _ _ _

theorem put_copy (hg : Giving s k x) (hk : 0 < k) (he : e.conflate = false) (hroom : Room s e p) :
    ∃ s', putMessage s e p = .ok s' ∧ Giving s' (k - 1) x ∧ Put s s' (e.place p) false := by
  have hcaller : (s.setMsg (e.place p) (s.msgs .caller)).msgs .caller = s.msgs .caller :=
    setMsg_other place_ne.symm
  have hholding := hg.holding.giveOne hg.caller hg.label (by exact hk) place_ne (hroom.mpr he) shares_place
  have hsmall := hg.small.giveOne hg.holding.formed hg.caller hg.label (by exact hk) place_ne (hroom.mpr he)
    shares_place
  rw [update_shares] at hholding hsmall
  refine ⟨_, ?_, ⟨hholding, hsmall, ?_, ?_, hg.idle⟩, setMsg_self, hcaller, fun h hp _ => setMsg_other hp, fun _ => ⟨rfl, rfl⟩⟩
  · unfold putMessage
    rw [he]
    rfl
  · rw [hcaller]
    exact hg.caller
  · rw [hcaller]
    exact hg.label

theorem put_move (hg : Giving s k x) (hk : 0 < k) (he : e.conflate = true) (hroom : Room s e p)
    (hshared : (s.msgs .caller).holds = none ∨ (s.msgs .caller).isShared = true ∨ k = 1) :
    ∃ s', putMessage s e p = .ok s' ∧ Giving s' 1 (s.left .caller (k - 1) x) ∧ Put s s' (e.place p) true := by
  have hne : e.place p ≠ .caller := place_ne
  have ht : (s.msgs (e.place p)).type ≠ none := fun hn => by
    have := hroom.mp hn
    rw [he] at this
    cases this
  have hclosed := hg.holding.closed_one hg.small (shares_place (e := e) (p := p))
  have hsmall := hg.small.closed (t := e.place p) hg.holding.formed (shares k (e.place p))
  rw [update_eq_self] at hsmall
  have hmsg : (s.closed (e.place p)).msgs .caller = s.msgs .caller := closed_msgs hne
  have hgiven := hclosed.giveOne (by rw [hmsg]; exact hg.caller) (by rw [hmsg]; exact hg.label) (by exact hk) hne
    closed_type shares_place
  have hsmall := hsmall.giveOne hclosed.formed (by rw [hmsg]; exact hg.caller) (by rw [hmsg]; exact hg.label)
    (by exact hk) hne closed_type shares_place
  rw [shares_caller, update_shares, hmsg] at hgiven hsmall
  have hmsg' : ((s.closed (e.place p)).setMsg (e.place p) (s.msgs .caller)).msgs .caller = s.msgs .caller :=
    (setMsg_other hne.symm).trans hmsg
  have hleft := hgiven.abandon (h := .caller) (by rw [hmsg']; exact hg.caller) (by
    rw [hmsg', shares_caller]
    exact hshared.imp_right (Or.imp_right fun h1 => by omega))
  have hsmall := hsmall.abandon (h := .caller) hgiven.formed (by rw [hmsg']; exact hg.caller)
  rw [update_shares, left, hmsg'] at hleft hsmall
  have hlabel : ((s.closed (e.place p)).setMsg (e.place p) (s.msgs .caller)).labels .caller = none :=
    (congrArg MsgT.metadata hmsg').trans hg.label
  have hinit := hleft.setMsg_none (t := .caller) (m := .init) (.inr shares_caller) hlabel rfl rfl nofun 1
  have hsmall := hsmall.setMsg_none (t := .caller) (m := .init) hleft.formed rfl rfl 1
  rw [update_shares] at hinit hsmall
  have hat : (((s.closed (e.place p)).setMsg (e.place p) (s.msgs .caller)).setMsg .caller .init).msgs (e.place p) =
      s.msgs .caller := (setMsg_other hne).trans setMsg_self
  refine ⟨_, ?_, ⟨hinit, hsmall, ?_, ?_, hg.idle⟩, hat, setMsg_self, fun h hp hc => ?_, released_keeps 1⟩
  · unfold putMessage
    rw [he, Block.assert_ok hg.caller, move_eq hg.holding.formed hg.caller ht hne]
    change (Block.assert (MsgT.type (Messages.msgs (setMsg _ .caller .init) (e.place p)) ≠ none) >>= _) = _
    rw [Block.assert_ok (by rw [hat]; exact hg.caller)]
    rfl
  · rintro ⟨⟩
  · rfl
  · exact (setMsg_other hc).trans ((setMsg_other hp).trans (closed_msgs (Ne.symm hp)))

theorem Giving.any (hg : Giving s k x) (hm : (s.msgs .caller).holds = none) (n : ℕ) : Giving s n x := by
  have hin := hg.holding.formed.known_object hg.caller
  have hcontents := hg.holding.contents.idle (.inl hin) (.inl hm) (s.sharing .caller) n
  rw [insert_eq_of_mem hin, ← show s.holders .caller = none from hm, update_eq_self, update_eq_self,
    update_shares] at hcontents
  refine ⟨⟨hcontents, hg.holding.metadata, hg.holding.formed⟩, ⟨fun c => ?_, hg.small.metadata⟩, hg.caller, hg.label, hg.idle⟩
  have := Shares.refs_drop (shares k) x (o := c) (hg.holding.formed.holder_known .caller) (r := none) (w := n) (.inl rfl)
  rw [insert_eq_of_mem hin, ← show s.holders .caller = none from hm, update_eq_self, update_shares] at this
  exact Nat.le_trans (Nat.le_of_add_right_le (Nat.le_of_eq this)) (hg.small.contents c)

structure PutAll (ends : P → FanEnd) (l : List P) (s s' : Messages (Place P)) : Prop where
  at_place : ∀ p ∈ l, s'.msgs ((ends p).place p) = s.msgs .caller
  caller : s'.msgs .caller = s.msgs .caller
  others : ∀ h, h ≠ .caller → (∀ p ∈ l, h ≠ (ends p).place p) → s'.msgs h = s.msgs h
  data : KeepsData s s'

omit [DecidableEq P] in
theorem place_inj {q : P} (h : e.place p = e'.place q) : p = q := by
  unfold FanEnd.place at h
  split_ifs at h
  · exact (Place.buffer.inj h).1
  · exact (Place.slot.inj h).1

omit [DecidableEq P] in
theorem Put.room {s' : Messages (Place P)} {moved : Bool} (h : Put s s' (e.place p) moved) {q : P} (hne : q ≠ p)
    (hroom : Room s e' q) : Room s' e' q := by
  unfold Room at hroom ⊢
  rwa [h.others _ (fun he => hne (place_inj he)) place_ne]

theorem putAll_run (I : ℕ → Messages (Place P) → Prop) (hl : l.Nodup) (hrooms : ∀ p ∈ l, Room s (ends p) p) (hI : I l.length s)
    (hstep : ∀ n s p, p ∈ l → I (n + 1) s → Room s (ends p) p → ∃ s' moved, putMessage s (ends p) p = .ok s' ∧ I n s' ∧
      Put s s' ((ends p).place p) moved ∧ s'.msgs .caller = s.msgs .caller) :
    ∃ s', putAll ends l s = .ok s' ∧ I 0 s' ∧ PutAll ends l s s' := by
  induction l generalizing s with
  | nil => exact ⟨s, rfl, hI, fun p hp => (List.not_mem_nil hp).elim, rfl, fun _ _ _ => rfl, fun _ => ⟨rfl, rfl⟩⟩
  | cons p rest ih =>
    obtain ⟨hp, hrest⟩ := List.nodup_cons.mp hl
    obtain ⟨s1, moved, hs1, hI1, hput, hcaller⟩ := hstep rest.length s p List.mem_cons_self hI (hrooms p List.mem_cons_self)
    have hne : ∀ q ∈ rest, q ≠ p := fun q hq he => hp (he ▸ hq)
    obtain ⟨s', hs', hI', hall⟩ := ih hrest (fun q hq => hput.room (hne q hq) (hrooms q (List.mem_cons_of_mem p hq))) hI1
      fun n s q hq => hstep n s q (List.mem_cons_of_mem p hq)
    refine ⟨s', ?_, hI', fun q hq => ?_, hall.caller.trans hcaller, fun h hc ho => ?_, hput.data.trans hall.data⟩
    · unfold putAll
      rw [hs1]
      exact hs'
    · rcases List.mem_cons.mp hq with rfl | hq
      · rw [hall.others _ place_ne fun r hr he => hne r hr (place_inj he).symm]
        exact hput.at_place
      · exact (hall.at_place q hq).trans hcaller
    · rw [hall.others h hc fun q hq => ho q (List.mem_cons_of_mem p hq)]
      exact hput.others h (ho p List.mem_cons_self) hc

theorem putAll_copies (hl : l.Nodup) (hrooms : ∀ p ∈ l, Room s (ends p) p)
    (hn : ∀ p ∈ l, (ends p).conflate = false) (hg : Giving s (k + l.length) x) :
    ∃ s', putAll ends l s = .ok s' ∧ Giving s' k x ∧ PutAll ends l s s' := by
  refine putAll_run (fun n s => Giving s (k + n) x) hl hrooms hg fun n s p hp hg hroom => ?_
  obtain ⟨s', hs', hg', hput⟩ := put_copy hg (Nat.succ_pos _) (hn p hp) hroom
  exact ⟨s', false, hs', hg', hput, hput.caller⟩

theorem putAll_blank (hl : l.Nodup) (hrooms : ∀ p ∈ l, Room s (ends p) p) (hm : s.msgs .caller = .init) (hg : Giving s 1 x) :
    ∃ s', putAll ends l s = .ok s' ∧ Giving s' 1 x ∧ PutAll ends l s s' := by
  obtain ⟨s', hs', ⟨hg', -⟩, hall⟩ := @putAll_run _ _ _ ends l
    (fun _ (s : Messages (Place P)) => Giving s 1 x ∧ s.msgs .caller = .init) hl hrooms ⟨hg, hm⟩
    fun n s p hp ⟨hg, hm⟩ hroom => by
      have hnone : (s.msgs .caller).holds = none := by
        rw [hm]
        rfl
      cases he : (ends p).conflate with
      | false =>
        obtain ⟨s', hs', hg', hput⟩ := put_copy hg Nat.one_pos he hroom
        have hcaller : s'.msgs .caller = s.msgs .caller := hput.caller
        exact ⟨s', false, hs', ⟨hg'.any (by rw [hcaller]; exact hnone) 1, hcaller.trans hm⟩, hput, hcaller⟩
      | true =>
        obtain ⟨s', hs', hg', hput⟩ := put_move hg Nat.one_pos he hroom (.inl hnone)
        have hcaller : s'.msgs .caller = s.msgs .caller := hput.caller.trans hm.symm
        unfold left at hg'
        rw [hnone] at hg'
        exact ⟨s', true, hs', ⟨hg', hcaller.trans hm⟩, hput, hcaller⟩
  exact ⟨s', hs', hg', hall⟩

end Fan
end Zmq
