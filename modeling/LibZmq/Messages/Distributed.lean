import LibZmq.Messages.Deliveries

/-! When all pipes get the same message, and the references of its content are those of the pipes. -/

namespace Zmq

open List

open Function (update update_eq_self update_self)

namespace Messages

variable {H : Type} {s s' s'' : Messages H} {h h' h'' : H}

/-- What a message carries, in itself or in its content. -/
def bytes (s : Messages H) (h : H) : List UInt8 :=
  match (s.msgs h).holds with
  | none => (s.msgs h).data
  | some c => (s.contents c).data

def flags (s : Messages H) (h : H) : UInt8 := (s.msgs h).flags &&& ~~~Msg.shared

structure Alike (s : Messages H) (h : H) (s' : Messages H) (h' : H) : Prop where
  bytes : s'.bytes h' = s.bytes h
  flags : s'.flags h' = s.flags h
  group : (s'.msgs h').group = (s.msgs h).group
  metadata : (s'.msgs h').metadata = (s.msgs h).metadata

theorem Alike.trans (h1 : Alike s h s' h') (h2 : Alike s' h' s'' h'') : Alike s h s'' h'' :=
  ⟨h2.bytes.trans h1.bytes, h2.flags.trans h1.flags, h2.group.trans h1.group, h2.metadata.trans h1.metadata⟩

theorem alike_of_eq (hm : s'.msgs h' = s.msgs h) (hd : KeepsData s s') : Alike s h s' h' := by
  refine ⟨?_, ?_, congrArg MsgT.group hm, congrArg MsgT.metadata hm⟩
  · unfold Messages.bytes
    rw [hm]
    cases (s.msgs h).holds with
    | none => rfl
    | some c => exact (hd c).2
  · unfold Messages.flags
    rw [hm]

theorem or_and_not_self (f g : UInt8) : (f ||| g) &&& ~~~g = f &&& ~~~g := by
  refine UInt8.toBitVec_inj.mp (BitVec.eq_of_getLsbD_eq fun i _ => ?_)
  simp only [UInt8.toBitVec_and, UInt8.toBitVec_or, UInt8.toBitVec_not, BitVec.getLsbD_and, BitVec.getLsbD_or, BitVec.getLsbD_not]
  cases g.toBitVec.getLsbD i <;> simp

variable [DecidableEq H]

theorem addReferences_keeps (n : UInt32) : KeepsData s (s.addReferences h n) := by
  unfold addReferences
  cases (s.msgs h).holds with
  | none => exact fun _ => ⟨rfl, rfl⟩
  | some c =>
    dsimp only
    split_ifs <;> exact setContent_keeps (by rfl) (by rfl)

theorem addReferences_alike (n : UInt32) : Alike s h (s.addReferences h n) h := by
  obtain ⟨flags, hm, hflags⟩ := addReferences_msgs (s := s) (h := h) n h
  refine ⟨?_, ?_, by rw [hm], by rw [hm]⟩
  · unfold bytes
    rw [hm]
    change (match (s.msgs h).holds with | none => (s.msgs h).data | some c => ((s.addReferences h n).contents c).data) = _
    cases (s.msgs h).holds with
    | none => rfl
    | some c => exact (addReferences_keeps n c).2
  · unfold Messages.flags
    rw [hm]
    rcases hflags with rfl | rfl
    · rfl
    · exact or_and_not_self _ _

theorem addReferences_shared {c : ℕ} (n : UInt32) (hc : (s.msgs h).holds = some c) :
    ((s.addReferences h n).msgs h).isShared = true := by
  unfold addReferences
  rw [hc]
  dsimp only
  split_ifs with hs
  · exact hs
  · rw [setMsg_self]
    exact isShared_or_shared

theorem addReferences_other (n : UInt32) {y : H} (hy : y ≠ h) : (s.addReferences h n).msgs y = s.msgs y := by
  unfold addReferences
  cases (s.msgs h).holds with
  | none => rfl
  | some c =>
    dsimp only
    split_ifs
    · rfl
    · exact setMsg_other hy

theorem addReferences_refs (hin : h ∈ s.objects) (n : UInt32) : (s.addReferences h n).objects = s.objects ∧
    (s.addReferences h n).holders = s.holders ∧ (s.addReferences h n).labels = s.labels ∧
    (s.addReferences h n).keeps = s.keeps := by
  refine ⟨?_, funext fun y => ?_, funext fun y => ?_, ?_⟩
  · unfold addReferences
    cases (s.msgs h).holds with
    | none => rfl
    | some c =>
      dsimp only
      split_ifs
      · rfl
      · exact Finset.insert_eq_of_mem hin
  · obtain ⟨flags, hm, -⟩ := addReferences_msgs (s := s) (h := h) n y
    exact (congrArg MsgT.holds hm).trans rfl
  · obtain ⟨flags, hm, -⟩ := addReferences_msgs (s := s) (h := h) n y
    exact (congrArg MsgT.metadata hm).trans rfl
  · unfold addReferences
    cases (s.msgs h).holds with
    | none => rfl
    | some c =>
      dsimp only
      split_ifs <;> rfl

theorem Small.addReferences {w : H → ℕ} {x : ℕ → ℕ} (hs : s.Small w x) (hin : h ∈ s.objects) {n : ℕ}
    (hroom : ∀ c, Shares.refs s.objects s.holders w x c + n ≤ 2 ^ 32) :
    (s.addReferences h (UInt32.ofNat n)).Small (update w h (w h + n)) x := by
  obtain ⟨hobjects, hholders, hlabels, hkeeps⟩ := addReferences_refs hin (UInt32.ofNat n)
  refine ⟨fun c => ?_, fun i => ?_⟩
  · have := Shares.refs_update w x (o := c) (show h ∈ s.objects ∨ s.holders h = none from .inl hin) (s.holders h) (w h + n)
    rw [Finset.insert_eq_of_mem hin, update_eq_self] at this
    rw [hobjects, hholders]
    have hle := hroom c
    unfold Shares.of at this
    split_ifs at this <;> omega
  · have := hs.metadata i
    unfold metadataRefs at this ⊢
    rwa [hobjects, hlabels, hkeeps]

end Messages

namespace Fan

open Messages

variable {P : Type} [DecidableEq P] {f : Fan P} {s s' : Messages (Place P)} {k : ℕ} {x : ℕ → ℕ} {p : P} {ends : P → FanEnd}
    {l1 l2 : List P}

/-- A socket and its pipes are about to distribute a message. An array has an `int` for its indices, and counters have room
for the references. -/
structure Wf (f : Fan P) : Prop where
  dist : f.dist.Wf
  ints : f.dist.pipes.size ≤ 2 ^ 31
  sound : f.messages.Sound
  idle : ∀ h, f.messages.owed h = none
  contents : ∀ c, f.messages.contentRefs c + f.dist.pipes.size ≤ 2 ^ 32
  metadata : ∀ i, f.messages.metadataRefs i ≤ 2 ^ 32
  caller : (f.messages.msgs .caller).type ≠ none
  label : (f.messages.msgs .caller).metadata = none
  rooms : ∀ p ∈ f.dist.pipes, Room f.messages (f.ends p) p

/-- The pipes that the message is put into, in this order. -/
def order (f : Fan P) : List P :=
  reached (fun p => (f.ends p).writable) f.dist.matching (f.dist.pipes.items.take f.dist.matching)

/-- Each matching pipe that can be written has got the message, and the references of each content are those of the messages
that there are. -/
structure FannedOut (f f' : Fan P) : Prop where
  delivered : ∀ p, f.dist.Matches p → (f.ends p).writable = true → Alike f.messages .caller f'.messages ((f.ends p).place p)
  counted : f'.messages.CountsContents (fun _ => 1) fun _ => 0

def Normal (ends : P → FanEnd) (l : List P) : Prop := ∀ p ∈ l, (ends p).conflate = false

def Blank (f : Fan P) : Prop :=
  f.messages.bytes .caller = [] ∧ f.messages.flags .caller = 0 ∧ (f.messages.msgs .caller).group = []

/-- Only the last pipe that is written may conflate, and, if the content is counted, only if all pipes are written. -/
def Faithful (f : Fan P) : Prop :=
  if (f.messages.msgs .caller).holds = none then Normal f.ends f.order.dropLast ∨ f.Blank
  else Normal f.ends f.order ∨ Normal f.ends f.order.dropLast ∧ f.order.length = f.dist.matching

instance (ends : P → FanEnd) (l : List P) : Decidable (Normal ends l) := inferInstanceAs (Decidable (∀ p ∈ l, _))

instance (f : Fan P) : Decidable f.Blank := inferInstanceAs (Decidable (_ ∧ _))

instance (f : Fan P) : Decidable f.Faithful := by
  unfold Faithful
  infer_instance

theorem mem_order (hf : f.Wf) (hm : f.dist.Matches p) (hw : (f.ends p).writable = true) : p ∈ f.order := by
  have h1 := hf.dist.matching_le
  have h2 := hf.dist.active_le
  have h3 := hf.dist.eligible_le
  refine mem_reached ?_ ?_ hw
  · rw [length_take]
    change _ = min _ f.dist.pipes.size
    omega
  · refine mem_take_iff_getElem.mpr ⟨f.dist.pipes.index p, ?_, ?_⟩
    · exact Nat.lt_min.mpr ⟨hm.2, ArrayT.index_lt.mpr hm.1⟩
    · exact getElem_idxOf _

section

omit [DecidableEq P]

theorem order_subset (h : p ∈ f.order) : p ∈ f.dist.pipes ∧ (f.ends p).writable = true :=
  (reached_subset h).imp_left mem_of_mem_take

theorem order_nodup : f.order.Nodup := reached_nodup ((take_sublist _ _).nodup f.dist.pipes.nodup)

theorem length_order_le : f.order.length ≤ f.dist.matching := length_reached_le

theorem normal_or_split (ends : P → FanEnd) (l : List P) :
    Normal ends l ∨ ∃ l1 p l2, l = l1 ++ p :: l2 ∧ Normal ends l1 ∧ (ends p).conflate = true := by
  induction l with
  | nil => exact .inl fun p hp => (not_mem_nil hp).elim
  | cons q rest ih =>
    cases hq : (ends q).conflate with
    | true => exact .inr ⟨[], q, rest, rfl, fun p hp => (not_mem_nil hp).elim, hq⟩
    | false =>
      refine ih.imp (fun h p hp => ?_) fun ⟨l1, p, l2, he, hn, hp⟩ => ⟨q :: l1, p, l2, by rw [he]; rfl, fun r hr => ?_, hp⟩
      · rcases mem_cons.mp hp with rfl | hp
        · exact hq
        · exact h p hp
      · rcases mem_cons.mp hr with rfl | hr
        · exact hq
        · exact hn r hr

theorem normal_dropLast (hn : Normal ends l1) (hp : (ends p).conflate = true) :
    Normal ends (l1 ++ p :: l2).dropLast ↔ l2 = [] := by
  rcases eq_nil_or_concat l2 with rfl | ⟨init, last, rfl⟩
  · rw [dropLast_concat]
    exact ⟨fun _ => rfl, fun _ => hn⟩
  · have hdrop : (l1 ++ p :: init.concat last).dropLast = l1 ++ p :: init := by
      rw [concat_eq_append, ← cons_append, ← append_assoc, dropLast_concat]
    rw [hdrop]
    constructor
    · intro h
      have := h p (mem_append_right l1 mem_cons_self)
      rw [hp] at this
      cases this
    · intro h
      rw [concat_eq_append] at h
      exact absurd h (append_ne_nil_of_right_ne_nil init (cons_ne_nil last []))

end

theorem shares_one : (shares 1 : Place P → ℕ) = fun _ => 1 := update_eq_self Place.caller fun _ => 1

theorem Wf.weights (hf : f.Wf) : f.messages.weights = shares 1 := by
  unfold Messages.weights
  rw [shares_one]
  funext h
  rw [hf.idle h]
  rfl

theorem Wf.giving (hf : f.Wf) : Giving f.messages 1 fun _ => 0 := by
  have hholding : f.messages.Holding f.messages.weights fun _ => 0 := hf.sound
  rw [hf.weights] at hholding
  refine ⟨hholding, ⟨fun c => ?_, hf.metadata⟩, hf.caller, hf.label, hf.idle⟩
  rw [← hf.weights]
  exact Nat.le_trans (Nat.le_add_right _ _) (hf.contents c)

theorem Wf.addRefs (hf : f.Wf) (hm : f.dist.matching ≠ 0) : ∃ s, f.messages.addRefs .caller (f.dist.matching - 1) = .ok s ∧
    Giving s f.dist.matching (fun _ => 0) ∧ Alike f.messages .caller s .caller ∧
    (∀ h, h ≠ .caller → s.msgs h = f.messages.msgs h) ∧ KeepsData f.messages s ∧
    (s.msgs .caller).holds = (f.messages.msgs .caller).holds ∧
    (∀ c, (s.msgs .caller).holds = some c → (s.msgs .caller).isShared = true ∨ f.dist.matching = 1) := by
  have hg := hf.giving
  unfold Messages.addRefs
  rw [Block.assert_ok hf.label]
  by_cases hone : f.dist.matching - 1 = 0
  · have h1 : f.dist.matching = 1 := by omega
    refine ⟨f.messages, if_pos hone, ?_, alike_of_eq rfl fun _ => ⟨rfl, rfl⟩, fun _ _ => rfl, fun _ => ⟨rfl, rfl⟩, rfl,
      fun _ _ => .inr h1⟩
    rw [h1]
    exact hg
  · have hin := hg.holding.formed.known_object hf.caller
    have hsize : f.dist.matching ≤ f.dist.pipes.size :=
      Nat.le_trans hf.dist.matching_le (Nat.le_trans hf.dist.active_le hf.dist.eligible_le)
    have hcontents := hg.holding.contents.addReferences hin (by exact Nat.one_pos) (f.dist.matching - 1)
    have hsmall := hg.small.addReferences hin (n := f.dist.matching - 1) fun c => by
      have := hf.contents c
      unfold contentRefs at this
      rw [hf.weights] at this
      omega
    rw [shares_caller, update_shares, show 1 + (f.dist.matching - 1) = f.dist.matching by omega] at hcontents hsmall
    obtain ⟨flags, hmsg, -⟩ := addReferences_msgs (s := f.messages) (h := .caller) (UInt32.ofNat (f.dist.matching - 1)) .caller
    refine ⟨_, if_neg hone, ⟨⟨hcontents, hg.holding.metadata.addReferences hin _, hg.holding.formed.addReferences _⟩, hsmall,
      by rw [hmsg]; exact hf.caller, by rw [hmsg]; exact hf.label, fun h => by rw [addReferences_owed]; exact hf.idle h⟩,
      addReferences_alike _, fun h hh => addReferences_other _ hh, addReferences_keeps _, by rw [hmsg]; rfl,
      fun c hc => .inl (addReferences_shared (c := c) _ ?_)⟩
    rw [hmsg] at hc
    exact hc

theorem Giving.finish (hg : Giving s k x) : ∃ s', (if k = 0 then pure s else s.rmRefs .caller k) = .ok s' ∧
    (s'.init .caller).Holding (shares 1) x ∧ (∀ h, h ≠ .caller → (s'.init .caller).msgs h = s.msgs h) ∧
    KeepsData s (s'.init .caller) := by
  obtain ⟨s', hs', hholding, hothers, hlabel, -, hkeeps⟩ := hg.holding.rmRefs hg.small hg.caller hg.label shares_caller
  rw [update_shares] at hholding
  have hinit := hholding.setMsg_none (t := .caller) (m := .init) (.inr shares_caller)
    (show s'.labels .caller = none from hlabel) rfl rfl (by rintro ⟨⟩) 1
  rw [update_shares] at hinit
  refine ⟨s', ?_, hinit, fun h hh => (setMsg_other hh).trans (hothers h hh), hkeeps⟩
  split_ifs with hk
  · unfold Messages.rmRefs at hs'
    rw [Block.assert_ok hg.label, hk] at hs'
    exact hs'
  · exact hs'

theorem Giving.closeInit {f : Fan P} (hg : Giving f.messages 1 x) :
    ∃ f', f.closeInit = .ok f' ∧ f'.messages.Holding (shares 1) x ∧ f'.messages.msgs .caller = .init ∧
      (∀ h, h ≠ .caller → f'.messages.msgs h = f.messages.msgs h) ∧ KeepsData f.messages f'.messages := by
  have hclosed := hg.holding.closed_one hg.small shares_caller
  have hinit := hclosed.setMsg_none (t := .caller) (m := .init) (.inl (holds_none closed_type))
    (hclosed.formed.unlabelled _ (.inl closed_type)) rfl rfl (by rintro ⟨⟩) 1
  rw [update_shares] at hinit
  refine ⟨f.setMessages ((f.messages.closed .caller).init .caller), ?_, hinit, setMsg_self,
    fun h hh => (setMsg_other hh).trans (closed_msgs (Ne.symm hh)), released_keeps 1⟩
  unfold Fan.closeInit
  rw [close_eq hg.holding.formed hg.caller]
  rfl

theorem putAll_append : putAll ends (l1 ++ l2) s = putAll ends l1 s >>= putAll ends l2 := by
  induction l1 generalizing s with
  | nil => rfl
  | cons p rest ih =>
    change (putMessage s (ends p) p >>= putAll ends (rest ++ l2)) = (putMessage s (ends p) p >>= putAll ends rest) >>= putAll ends l2
    cases putMessage s (ends p) p with
    | error e => rfl
    | ok s1 => exact ih

inductive Delivered (f : Fan P) (s s' : Messages (Place P)) : (ℕ → ℕ) → Prop
  | copies (hn : Normal f.ends f.order) (h : ∀ p ∈ f.order, s'.msgs ((f.ends p).place p) = s.msgs .caller) :
      Delivered f s s' fun _ => 0
  | moved (l1 : List P) (p : P) (l2 : List P) (he : f.order = l1 ++ p :: l2) (hn : Normal f.ends l1)
      (hp : (f.ends p).conflate = true) (h : ∀ q ∈ f.order, q ∉ l2 → s'.msgs ((f.ends q).place q) = s.msgs .caller)
      (hblank : ∀ q ∈ l2, s'.msgs ((f.ends q).place q) = .init) :
      Delivered f s s' (s.left .caller (f.dist.matching - l1.length - 1) fun _ => 0)

theorem deliver (hf : f.Wf) (hg : Giving s f.dist.matching fun _ => 0) (hs : ∀ h, h ≠ .caller → s.msgs h = f.messages.msgs h)
    (hshared : (s.msgs .caller).holds = none ∨ (s.msgs .caller).isShared = true ∨ f.dist.matching = 1) :
    ∃ s' x', putAll f.ends f.order s = .ok s' ∧ Giving s' (f.dist.matching - f.order.length) x' ∧ KeepsData s s' ∧
      (s'.msgs .caller = s.msgs .caller ∨ s'.msgs .caller = .init) ∧ Delivered f s s' x' := by
  have hrooms : ∀ p ∈ f.order, Room s (f.ends p) p := fun p hp => by
    have := hf.rooms p (order_subset hp).1
    unfold Room at this ⊢
    rwa [hs _ place_ne]
  have hnodup : f.order.Nodup := order_nodup
  have hle : f.order.length ≤ f.dist.matching := length_order_le
  rcases normal_or_split f.ends f.order with hn | ⟨l1, p, l2, he, hn, hp⟩
  · obtain ⟨s', hs', hg', hall⟩ := putAll_copies (k := f.dist.matching - f.order.length) hnodup hrooms hn
      (by rwa [Nat.sub_add_cancel hle])
    exact ⟨s', _, hs', hg', hall.data, .inl hall.caller, .copies hn hall.at_place⟩
  · rw [he, length_append, length_cons] at hle
    have hnodup' := hnodup
    rw [he] at hnodup'
    obtain ⟨hnd1, hnd2, hdisj⟩ := nodup_append.mp hnodup'
    obtain ⟨hpl2, hnd3⟩ := nodup_cons.mp hnd2
    have hsub1 : ∀ q ∈ l1, q ∈ f.order := fun q hq => he ▸ mem_append_left _ hq
    have hsub2 : ∀ q ∈ p :: l2, q ∈ f.order := fun q hq => he ▸ mem_append_right _ hq
    -- copies, then the move, then empty messages
    obtain ⟨s1, hs1, hg1, hall1⟩ := putAll_copies (k := f.dist.matching - l1.length) hnd1 (fun q hq => hrooms q (hsub1 q hq)) hn
      (by rwa [Nat.sub_add_cancel (by omega)])
    have hroom1 : ∀ q ∈ p :: l2, Room s1 (f.ends q) q := fun q hq => by
      have := hrooms q (hsub2 q hq)
      unfold Room at this ⊢
      rwa [hall1.others _ place_ne fun r hr hplace => hdisj r hr q hq (place_inj hplace).symm]
    obtain ⟨s2, hs2, hg2, hput⟩ := put_move hg1 (by omega) hp (hroom1 p mem_cons_self) (by
      rw [hall1.caller]
      exact hshared.imp_right (Or.imp_right fun h1 => by omega))
    have hcaller2 : s2.msgs .caller = .init := hput.caller
    obtain ⟨s', hs', hg', hall⟩ := putAll_blank hnd3 (fun q hq => hput.room (fun h => hpl2 (h ▸ hq))
      (hroom1 q (mem_cons_of_mem p hq))) hcaller2 hg2
    refine ⟨s', _, ?_, hg'.any (by rw [hall.caller, hcaller2]; rfl) _, (hall1.data.trans hput.data).trans hall.data,
      .inr (hall.caller.trans hcaller2), ?_⟩
    · rw [he, putAll_append, hs1]
      change putMessage s1 (f.ends p) p >>= putAll f.ends l2 = _
      rw [hs2]
      exact hs'
    · have hleft : s1.left .caller (f.dist.matching - l1.length - 1) (fun _ => 0) =
          s.left .caller (f.dist.matching - l1.length - 1) fun _ => 0 := by
        unfold left
        rw [hall1.caller]
      rw [hleft]
      refine .moved l1 p l2 he hn hp (fun q hq hnot => ?_) fun q hq => (hall.at_place q hq).trans hcaller2
      have hq' : q ∈ l1 ∨ q = p := by
        rw [he] at hq
        rcases mem_append.mp hq with hq | hq
        · exact .inl hq
        · exact .inr ((mem_cons.mp hq).resolve_right hnot)
      rw [hall.others _ place_ne fun r hr hplace => hnot (by rw [show q = r from place_inj hplace]; exact hr)]
      rcases hq' with hq' | rfl
      · rw [hput.others _ (fun hplace => hdisj q hq' p mem_cons_self (place_inj hplace)) place_ne]
        exact hall1.at_place q hq'
      · exact hput.at_place.trans hall1.caller

omit [DecidableEq P] in
theorem alike_blank (hf : f.Wf) {p : Place P} (hm : s.msgs p = .init) : Alike f.messages .caller s p ↔ f.Blank := by
  have hbytes : s.bytes p = [] := by
    unfold bytes
    rw [hm]
    rfl
  have hflags : s.flags p = 0 := by
    unfold Messages.flags
    rw [hm]
    decide
  constructor
  · intro h
    exact ⟨h.bytes.symm.trans hbytes, h.flags.symm.trans hflags, h.group.symm.trans (by rw [hm]; rfl)⟩
  · rintro ⟨hb, hfl, hgr⟩
    exact ⟨hbytes.trans hb.symm, hflags.trans hfl.symm, by rw [hm, hgr]; rfl, by rw [hm, hf.label]; rfl⟩

structure Ended (f f' : Fan P) (s s' : Messages (Place P)) (x : ℕ → ℕ) : Prop where
  holding : f'.messages.Holding (shares 1) x
  others : ∀ h, h ≠ .caller → f'.messages.msgs h = s'.msgs h
  data : KeepsData s f'.messages
  delivered : Delivered f s s' x

theorem fannedOut_iff (hf : f.Wf) {f' : Fan P} {x : ℕ → ℕ} (he : Ended f f' s s' x) (hs : Alike f.messages .caller s .caller)
    (hholds : (s.msgs .caller).holds = (f.messages.msgs .caller).holds) : f.FannedOut f' ↔ f.Faithful := by
  have hcounted : f'.messages.CountsContents (fun _ => 1) x := by
    have := he.holding.contents
    rwa [shares_one] at this
  have hcopy (p : P) (hp : s'.msgs ((f.ends p).place p) = s.msgs .caller) :
      Alike f.messages .caller f'.messages ((f.ends p).place p) :=
    hs.trans (alike_of_eq ((he.others _ place_ne).trans hp) he.data)
  have hwritten (p : P) : f.dist.Matches p ∧ (f.ends p).writable = true ↔ p ∈ f.order := by
    refine ⟨fun h => mem_order hf h.1 h.2, fun h => ?_⟩
    obtain ⟨hmem, hw⟩ := reached_subset h
    obtain ⟨i, hi, hget⟩ := mem_take_iff_getElem.mp hmem
    have hlt := Nat.lt_min.mp hi
    refine ⟨⟨mem_of_mem_take hmem, ?_⟩, hw⟩
    rw [(ArrayT.get_iff.mp (List.getElem?_eq_some_iff.mpr ⟨hlt.2, hget⟩)).2]
    exact hlt.1
  have hlen : f.order.length ≤ f.dist.matching := length_order_le
  rcases he.delivered with ⟨hn, hall⟩ | ⟨l1, p, l2, horder, hn, hp, hall, hblank⟩
  · -- every pipe has a copy
    refine iff_of_true ⟨fun p hm hw => hcopy p (hall p ((hwritten p).mp ⟨hm, hw⟩)), hcounted⟩ ?_
    unfold Faithful
    split_ifs
    · exact .inl fun p hp => hn p (dropLast_subset _ hp)
    · exact .inl hn
  · have hdrop : _ ↔ l2 = [] := normal_dropLast hn hp
    rw [← horder] at hdrop
    have hlength : f.order.length = l1.length + (l2.length + 1) := by
      rw [horder, length_append, length_cons]
    have hdelivered : (∀ q, f.dist.Matches q → (f.ends q).writable = true →
        Alike f.messages .caller f'.messages ((f.ends q).place q)) ↔ l2 = [] ∨ f.Blank := by
      constructor
      · intro h
        rcases eq_nil_or_concat l2 with hnil | ⟨init, q, hl2⟩
        · exact .inl hnil
        · have hq : q ∈ l2 := by simp [hl2]
          have hmem : q ∈ f.order := horder ▸ mem_append_right _ (mem_cons_of_mem p hq)
          obtain ⟨hm, hw⟩ := (hwritten q).mpr hmem
          exact .inr ((alike_blank hf ((he.others _ place_ne).trans (hblank q hq))).mp (h q hm hw))
      · intro h q hm hw
        have hmem := (hwritten q).mp ⟨hm, hw⟩
        by_cases hq : q ∈ l2
        · refine (alike_blank hf ((he.others _ place_ne).trans (hblank q hq))).mpr (h.resolve_left fun hnil => ?_)
          rw [hnil] at hq
          cases hq
        · exact hcopy q (hall q hmem hq)
    unfold left at hcounted
    rw [hholds] at hcounted
    cases hr : (f.messages.msgs .caller).holds with
    | none =>
      rw [hr] at hcounted
      unfold Faithful
      rw [if_pos hr, hdrop, ← hdelivered]
      exact ⟨FannedOut.delivered, fun h => ⟨h, hcounted⟩⟩
    | some c =>
      rw [hr] at hcounted
      dsimp only at hcounted
      unfold Faithful
      rw [if_neg (by rw [hr]; exact Option.some_ne_none c)]
      rcases Nat.eq_zero_or_pos (f.dist.matching - l1.length - 1) with hzero | hpos
      · have hnil : l2 = [] := eq_nil_of_length_eq_zero (by omega)
        rw [hzero, update_eq_self c fun _ => 0] at hcounted
        have hlength' : f.order.length = f.dist.matching := by omega
        exact iff_of_true ⟨hdelivered.mpr (.inl hnil), hcounted⟩ (.inr ⟨hdrop.mpr hnil, hlength'⟩)
      · -- so many references belong to nobody
        have hsize : f.dist.matching ≤ 2 ^ 31 := Nat.le_trans (Nat.le_trans hf.dist.matching_le
          (Nat.le_trans hf.dist.active_le hf.dist.eligible_le)) hf.ints
        refine iff_of_false (fun h => ?_) ?_
        · have := hcounted.no_extra (o := c) h.counted (by rw [update_self]; omega)
          rw [update_self] at this
          omega
        · rintro (h | ⟨h, hl⟩)
          · have := h p (horder ▸ mem_append_right _ mem_cons_self)
            rw [hp] at this
            cases this
          · have hnil := hdrop.mp h
            rw [hnil, length_nil] at hlength
            omega

/-- `distribute` goes through, and every pipe gets the message, with the right number of references, exactly if no pipe that
conflates is written before another one, or before references are given back. -/
theorem distribute_fans_out (hf : f.Wf) : ∃ f', f.distribute = .ok f' ∧ f'.messages.msgs .caller = .init ∧
    (f.FannedOut f' ↔ f.Faithful) := by
  unfold distribute
  by_cases hm : f.dist.matching = 0
  · rw [if_pos hm]
    obtain ⟨f', hf', hholding, hcaller, hothers, hkeeps⟩ := hf.giving.closeInit
    have hnil : f.order = [] := eq_nil_of_length_eq_zero (Nat.le_zero.mp (hm ▸ length_order_le))
    refine ⟨f', hf', hcaller, fannedOut_iff hf (s := f.messages) ⟨hholding, hothers, hkeeps, .copies ?_ ?_⟩
      (alike_of_eq rfl fun _ => ⟨rfl, rfl⟩) rfl⟩
    · rw [hnil]
      exact fun p hp => (not_mem_nil hp).elim
    · rw [hnil]
      exact fun p hp => (not_mem_nil hp).elim
  rw [if_neg hm]
  have hn : 0 + f.dist.matching = f.dist.matching := Nat.zero_add _
  by_cases hv : (f.messages.msgs .caller).type = some .vsm
  · rw [if_pos hv]
    have hnone : (f.messages.msgs .caller).holds = none := by
      unfold MsgT.holds
      rw [hv]
      rfl
    obtain ⟨s', x', hput, hg', hkeeps, hcaller', hd⟩ := deliver hf (hf.giving.any hnone _) (fun _ _ => rfl) (.inl hnone)
    obtain ⟨f1, hf1, rfl⟩ := @writeLoop_ok _ _ _ _ 0 f s' hf.dist hn hput
    have hnone' : (f1.messages.msgs .caller).holds = none := by
      rcases hcaller' with h | h
      · rw [h]
        exact hnone
      · rw [h]
        rfl
    obtain ⟨f', hf', hholding, hcaller, hothers', hkeeps'⟩ := (hg'.any hnone' 1).closeInit
    refine ⟨f', ?_, hcaller, fannedOut_iff hf ⟨hholding, hothers', hkeeps.trans hkeeps', hd⟩
      (alike_of_eq rfl fun _ => ⟨rfl, rfl⟩) rfl⟩
    rw [hf1]
    exact hf'
  · rw [if_neg hv]
    obtain ⟨s, hs, hg, halike, hsame, -, hholds, hshared⟩ := hf.addRefs hm
    have hshared' : (s.msgs .caller).holds = none ∨ (s.msgs .caller).isShared = true ∨ f.dist.matching = 1 := by
      cases hr : (s.msgs .caller).holds with
      | none => exact .inl rfl
      | some c => exact .inr (hshared c hr)
    obtain ⟨s', x', hput, hg', hkeeps, -, hd⟩ := deliver hf hg hsame hshared'
    obtain ⟨f1, hf1, rfl⟩ := @writeLoop_ok _ _ _ _ 0 (f.setMessages s) s' hf.dist hn hput
    obtain ⟨s2, hs2, hholding, hothers', hkeeps'⟩ := hg'.finish
    refine ⟨f1.setMessages (s2.init .caller), ?_, setMsg_self,
      fannedOut_iff hf ⟨hholding, hothers', hkeeps.trans hkeeps', hd⟩ halike hholds⟩
    rw [hs]
    change (writeLoop f.dist.matching 0 0 (f.setMessages s) >>= _) = _
    rw [hf1, Nat.zero_add]
    change (if f.dist.matching - f.order.length = 0 then (.ok f1.messages : Except Crash (Messages (Place P))) >>= _
      else f1.messages.rmRefs .caller (f.dist.matching - f.order.length) >>= _) = _
    split_ifs at hs2 ⊢
    · cases hs2
      rfl
    · rw [hs2]
      rfl

/-! Two pipes, and a message of 34 bytes for both of them. -/

def twoMessages : Messages (Place Bool) :=
  let s := (((empty.setMsg (.buffer false false) .init).setMsg (.buffer false true) .init).setMsg
    (.buffer true false) .init).setMsg (.buffer true true) .init
  (s.newContent (replicate 34 7) false).setMsg .caller (.lmsg 0)

def twoPipes (conflates : Bool → Bool) : Fan Bool where
  dist := ⟨⟨[false, true], by decide⟩, 2, 2, 2, false⟩
  ends p := ⟨.new 0 1 0 0, conflates p, 0, false, false, true⟩
  messages := twoMessages

theorem twoMessages_sound : twoMessages.Sound := by
  have h1 := (sound_empty (H := Place Bool)).put (h := .buffer false false) (m := .init) rfl rfl rfl (by decide)
  have h2 := h1.put (h := .buffer false true) (m := .init) rfl rfl rfl (by decide)
  have h3 := h2.put (h := .buffer true false) (m := .init) rfl rfl rfl (by decide)
  have h4 := h3.put (h := .buffer true true) (m := .init) rfl rfl rfl (by decide)
  exact Sound.putNew h4 (h := .caller) (m := .lmsg 0) rfl rfl (replicate 34 7) rfl (unshared rfl) rfl (by rintro ⟨⟩)

theorem twoPipes_wf (conflates : Bool → Bool) : (twoPipes conflates).Wf := by
  refine ⟨⟨Nat.le_refl 2, Nat.le_refl 2, Nat.le_refl 2, fun _ => rfl⟩, (by decide : 2 ≤ 2 ^ 31), twoMessages_sound,
    fun _ => rfl, fun c => ?_, fun i => ?_, (by decide : (twoMessages.msgs .caller).type ≠ none), rfl, fun p _ => ?_⟩
  · cases c with
    | zero =>
      change twoMessages.contentRefs 0 + 2 ≤ _
      decide +kernel
    | succ c =>
      have hfresh : twoMessages.contentRefs (c + 1) = 0 := twoMessages_sound.contents.fresh (c + 1) (Nat.succ_pos c)
      change twoMessages.contentRefs (c + 1) + 2 ≤ _
      rw [hfresh]
      decide
  · have hfresh : twoMessages.metadataRefs i = 0 := twoMessages_sound.metadata.fresh i (Nat.zero_le _)
    change twoMessages.metadataRefs i ≤ _
    rw [hfresh]
    decide
  · change (twoMessages.msgs (FanEnd.place ⟨_, conflates p, 0, false, false, true⟩ p)).type = none ↔ conflates p = false
    cases conflates p <;> cases p <;> decide

theorem distribute_fans_out_two : ∃ f', (twoPipes fun p => p).distribute = .ok f' ∧ (twoPipes fun p => p).FannedOut f' := by
  obtain ⟨f', hf', -, hiff⟩ := distribute_fans_out (twoPipes_wf fun p => p)
  exact ⟨f', hf', hiff.mpr (by decide +kernel)⟩

/-- Of two pipes that conflate the second one gets an empty message. -/
theorem second_gets_nothing : (twoPipes fun _ => true).Wf ∧
    ∃ f', (twoPipes fun _ => true).distribute = .ok f' ∧ ¬ (twoPipes fun _ => true).FannedOut f' := by
  refine ⟨twoPipes_wf _, ?_⟩
  have hrun : ((twoPipes fun _ => true).distribute.map fun f' => f'.messages.bytes (.buffer true false)) = .ok [] := by
    decide +kernel
  cases hd : (twoPipes fun _ => true).distribute with
  | error e =>
    rw [hd] at hrun
    cases hrun
  | ok f' =>
    rw [hd] at hrun
    refine ⟨f', rfl, fun h => ?_⟩
    have hbytes := (h.delivered true ⟨mem_cons_of_mem false mem_cons_self, Nat.one_lt_two⟩ (by decide)).bytes
    exact absurd ((show f'.messages.bytes (.buffer true false) = [] from Except.ok.inj hrun).symm.trans hbytes)
      (by decide +kernel)

end Fan

end Zmq
