import LibZmq.Mtrie.RmPipe
import LibZmq.Trie.Counted

/-! `mtrie_t::match`, by which a publisher chooses pipes, and `trie_t::check`, by which a
subscriber chooses messages. Both look for subscribed topics that the message begins with. -/

namespace Zmq

open List Finset

namespace MtrieT

variable {P : Type} [DecidableEq P] {t t' : MtrieT P} {r : Finset (List UInt8 × P)}

/-- The subscriptions of a trie that was built from the empty one, without removing any
that is not there. -/
inductive Built : MtrieT P → Finset (List UInt8 × P) → Prop
  | new : Built new ∅
  | add {t t' r key pipe b} (h : Built t r) (hx : add t key pipe = .ok (b, t')) :
    Built t' (insert (key, pipe) r)
  | rm {t t' r key pipe b} (h : Built t r) (hp : (key, pipe) ∈ r) (hx : rm t key pipe = .ok (b, t')) :
    Built t' (r.erase (key, pipe))
  | rmPipe {t t' r pipe callOnUniq calls} (h : Built t r)
    (hx : rmPipe t pipe callOnUniq = .ok (calls, t')) : Built t' (r.filter (·.2 ≠ pipe))

theorem pipesOf_filter (pipe : P) (key : List UInt8) : pipesOf (r.filter (·.2 ≠ pipe)) key = (pipesOf r key).erase pipe := by
  ext x
  simp [pipesOf, and_comm]

theorem rmPipe_represents (pipe : P) (callOnUniq : Bool) (h : Represents t r) :
    ∃ (calls : List (List UInt8)) (t' : MtrieT P), rmPipe t pipe callOnUniq = .ok (calls, t') ∧
      Represents t' (r.filter (·.2 ≠ pipe)) ∧ calls.Nodup ∧
      ∀ key, key ∈ calls ↔ (key, pipe) ∈ r ∧ (callOnUniq = true → ∀ x, (key, x) ∈ r → x = pipe) := by
  obtain ⟨calls, t', hrm, hlists, herased⟩ := rmPipe_spec pipe callOnUniq h.1
  have hval : ∀ key x, x ∈ (t.val none key).getD ∅ ↔ (key, x) ∈ r := by
    intro key x
    rw [h.2, ← mem_pipesOf]
    split_ifs with he <;> simp [he]
  refine ⟨calls, t', hrm, ⟨herased.wf, fun key => ?_⟩, hlists.nodup, fun key => ?_⟩
  · rw [herased.val, h.2, pipesOf_filter]
    by_cases he : pipesOf r key = ∅
    · simp [he, erasePipe]
    · rw [if_neg he]
      simp only [erasePipe]
      split_ifs with hp hq hq
      · rfl
      · rfl
      · rw [erase_eq_of_notMem hp] at hq
        exact absurd hq he
      · rw [erase_eq_of_notMem hp]
  · rw [hlists.mem, told_iff (val_kept h.1 key), hval]
    simp only [mem_erasePipe, hval, not_and, not_not]

theorem built_represents (h : Built t r) : Represents t r := by
  induction h with
  | new => exact new_represents
  | @add t t' r key pipe b _ hx ih =>
    obtain ⟨t1, hadd, h1⟩ := call_represents (.add key pipe) ih trivial
    cases hadd.symm.trans hx
    exact h1
  | @rm t t' r key pipe b _ hp hx ih =>
    obtain ⟨t1, hrm, h1⟩ := call_represents (.rm key pipe) ih (.inl hp)
    cases hrm.symm.trans hx
    exact h1
  | @rmPipe t t' r pipe callOnUniq calls _ hx ih =>
    obtain ⟨calls1, t1, hrm, h1, -⟩ := rmPipe_represents pipe callOnUniq ih
    cases hrm.symm.trans hx
    exact h1

theorem count_own (l : Option (Finset P)) (x : P) : ((l.getD ∅).val).count x = if x ∈ l.getD ∅ then 1 else 0 := by
  split_ifs with hx
  · exact Multiset.count_eq_one_of_mem (l.getD ∅).nodup hx
  · exact Multiset.count_eq_zero_of_notMem hx

theorem match_spec (data : List UInt8) (h : Wf t) : ∃ ms, matchPipes t data = .ok ms ∧
    ∀ x, ms.count x = data.inits.countP fun p => decide (x ∈ (t.val none p).getD ∅) := by
  induction data generalizing t with
  | nil =>
    refine ⟨_, rfl, fun x => ?_⟩
    rw [count_own, inits, countP_cons, countP_nil, Nat.zero_add]
    by_cases hx : x ∈ t.label.getD ∅ <;> simp [pipes, hx]
  | cons c data ih =>
    -- the node itself, and what is below it
    have hsplit : ∀ x, (c :: data).inits.countP (fun p => decide (x ∈ (t.val none p).getD ∅)) =
        (if x ∈ t.pipes.getD ∅ then 1 else 0) +
          data.inits.countP fun p => decide (x ∈ (t.val none (c :: p)).getD ∅) := by
      intro x
      rw [inits_cons, countP_cons, countP_map, Nat.add_comm]
      by_cases hx : x ∈ t.label.getD ∅ <;> simp [pipes, hx, Function.comp_def]
    have hleaf : t.child c = none → ∀ x, (t.pipes.getD ∅).val.count x =
        (c :: data).inits.countP fun p => decide (x ∈ (t.val none p).getD ∅) := by
      intro hc x
      rw [hsplit, count_own]
      simp [Node.val_none hc]
    by_cases hcount : t.slots.count = 0
    · exact ⟨_, by rw [matchPipes, if_pos hcount], hleaf (Node.child_outside h.slots_wf (.inl hcount))⟩
    by_cases hout : t.slots.outside c = true
    · exact ⟨_, by rw [matchPipes, if_neg hcount, if_pos hout], hleaf (Node.child_outside h.slots_wf (.inr hout))⟩
    have hget := Slots.get_child h.slots_wf (c := c) (by simpa using hout)
    cases hc : t.child c with
    | none =>
      refine ⟨_, ?_, hleaf hc⟩
      rw [matchPipes, if_neg hcount, if_neg hout, hget, show t.slots.child c = none from hc]
      simp only [bind, Except.bind, if_neg (Slots.count_ne_one h.slots_wf (by simpa using hout) hc)]
      rfl
    | some next =>
      obtain ⟨ms, hms, hcountms⟩ := ih (h.child_wf hc)
      refine ⟨(t.pipes.getD ∅).val + ms, ?_, fun x => ?_⟩
      · rw [matchPipes, if_neg hcount, if_neg hout, hget, show t.slots.child c = some next from hc]
        simp only [bind, Except.bind, hms]
        rfl
      · rw [Multiset.count_add, hcountms, hsplit, count_own]
        simp only [Node.val_some hc]

theorem inits_nodup (data : List UInt8) : data.inits.Nodup := by
  induction data with
  | nil => simp
  | cons c data ih =>
    rw [inits_cons, nodup_cons]
    exact ⟨by simp, List.Nodup.map (fun a b hab => (cons.inj hab).2) ih⟩

def matching (r : Finset (List UInt8 × P)) (x : P) (data : List UInt8) : Finset (List UInt8 × P) :=
  r.filter fun y => y.2 = x ∧ y.1 <+: data

theorem card_matching (x : P) (data : List UInt8) :
    (matching r x data).card = data.inits.countP fun p => decide ((p, x) ∈ r) := by
  have himage : matching r x data =
      ((data.inits.filter fun p => decide ((p, x) ∈ r)).toFinset).image fun p => (p, x) := by
    ext ⟨p, y⟩
    simp only [matching, Finset.mem_filter, Finset.mem_image, mem_toFinset, mem_filter,
      mem_inits, decide_eq_true_eq, Prod.mk.injEq]
    constructor
    · rintro ⟨hr, rfl, hp⟩
      exact ⟨p, ⟨hp, hr⟩, rfl, rfl⟩
    · rintro ⟨p, ⟨hp, hr⟩, rfl, rfl⟩
      exact ⟨hr, rfl, hp⟩
  rw [himage, Finset.card_image_of_injective _ (fun a b hab => (Prod.mk.inj hab).1),
    toFinset_card_of_nodup ((inits_nodup data).filter _), countP_eq_length_filter]

theorem represents_match (h : Represents t r) (data : List UInt8) : ∃ ms, matchPipes t data = .ok ms ∧
    ∀ x, ms.count x = (matching r x data).card := by
  obtain ⟨ms, hms, hcount⟩ := match_spec data h.1
  refine ⟨ms, hms, fun x => ?_⟩
  rw [hcount, card_matching]
  refine congrArg (countP · data.inits) (funext fun p => ?_)
  rw [decide_eq_decide, h.2, ← mem_pipesOf]
  split_ifs with he <;> simp [he]

/-- `match` calls the function for a pipe once per subscribed topic of the pipe that the
data begins with, so for the pipes whose own trie would accept the data. -/
theorem match_agrees (h : Built t r) (data : List UInt8) : ∃ ms, matchPipes t data = .ok ms ∧
    (∀ x, ms.count x = (matching r x data).card) ∧ ∀ (x : P) (ops : List TrieT.Op) (rs : List Bool) (u : TrieT),
      Allowed TrieT.bag TrieT.Countable 0 ops → exec TrieT.call .new ops = .ok (rs, u) →
      (∀ key, key ∈ (answers TrieT.bag 0 ops).2 ↔ (key, x) ∈ r) → ∃ b, TrieT.check u data = .ok b ∧ (x ∈ ms ↔ b = true) := by
  obtain ⟨ms, hms, hcount⟩ := represents_match (built_represents h) data
  refine ⟨ms, hms, hcount, fun x ops rs u hallowed hexec hkeys => ?_⟩
  obtain ⟨u', hexec', hholds⟩ :=
    allowed_refines (fun _ _ _ => TrieT.call_holds) TrieT.new_holds hallowed
  cases hexec.symm.trans hexec'
  obtain ⟨b, hb, hiff⟩ := TrieT.check_spec data hholds.1
  refine ⟨b, hb, ?_⟩
  rw [hiff, ← Multiset.count_pos, hcount, card_pos]
  constructor
  · rintro ⟨⟨p, y⟩, hy⟩
    obtain ⟨hr, rfl, hp⟩ := mem_filter.mp hy
    exact ⟨p, hp, (TrieT.holds_mem hholds p).mpr ((hkeys p).mpr hr)⟩
  · rintro ⟨p, hp, hv⟩
    exact ⟨(p, x), mem_filter.mpr ⟨(hkeys p).mp ((TrieT.holds_mem hholds p).mp hv), rfl, hp⟩⟩

/-- Pipe 0 subscribes to everything and to one topic more, pipe 1 to another topic only. -/
theorem match_agrees_three : ∃ t : MtrieT ℕ, Built t {([65, 66], 1), ([65], 0), ([], 0)} ∧ ∃ ms, matchPipes t [65, 67] = .ok ms ∧
      (∀ x, ms.count x = (matching {([65, 66], 1), ([65], 0), ([], 0)} x [65, 67]).card) ∧
      ∃ u, exec TrieT.call .new [.add [], .add [65]] = .ok ([true, true], u) ∧
        ∃ b, TrieT.check u [65, 67] = .ok b ∧ (0 ∈ ms ↔ b = true) := by
  obtain ⟨t1, h1, -, hwf1, -⟩ := add_spec [] (0 : ℕ) new_wf
  obtain ⟨t2, h2, -, hwf2, -⟩ := add_spec [65] (0 : ℕ) hwf1
  obtain ⟨t3, h3, -, -, -⟩ := add_spec [65, 66] (1 : ℕ) hwf2
  have hbuilt : Built t3 {([65, 66], 1), ([65], 0), ([], 0)} := .add (.add (.add .new h1) h2) h3
  obtain ⟨ms, hms, hcount, hagree⟩ := match_agrees hbuilt [65, 67]
  have hallowed : Allowed TrieT.bag TrieT.Countable 0 [.add [], .add [65]] := by decide
  obtain ⟨u, hu, -⟩ := allowed_refines (fun _ _ _ => TrieT.call_holds) TrieT.new_holds hallowed
  have hkeys : ∀ key, key ∈ (answers TrieT.bag 0 [.add [], .add [65]]).2 ↔
      (key, 0) ∈ ({([65, 66], 1), ([65], 0), ([], 0)} : Finset (List UInt8 × ℕ)) := by
    intro key
    simp [answers, TrieT.bag, or_comm]
  exact ⟨t3, hbuilt, ms, hms, hcount, u, hu, hagree 0 _ _ u hallowed hu hkeys⟩

end MtrieT

end Zmq
