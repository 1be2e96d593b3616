import LibZmq.Calls
import LibZmq.Mtrie.Model

/-! `mtrie_t` as a relation between topics and pipes. `add` and `rm` of a subscription
follow the relation for as long as no `rm` is of a topic that has a node but not the pipe. -/

namespace Zmq

open Option Except Finset

namespace MtrieT

variable {P : Type} {s : Slots (MtrieT P)} {t t' y : MtrieT P} {c : UInt8} {key : List UInt8} {pipe : P}

theorem findIdx_spec {α : Type} {u : List (Option α)} (h : 0 < u.countP isSome) :
    ∃ i x, u.findIdx? isSome = some i ∧ u[i]? = some (some x) := by
  obtain ⟨p, hp, hs⟩ := List.countP_pos_iff.mp h
  obtain ⟨i, hi⟩ := isSome_iff_exists.mp
    (show (u.findIdx? isSome).isSome = true from List.findIdx?_isSome.trans (List.any_eq_true.mpr ⟨p, hp, hs⟩))
  obtain ⟨hlt, hx, -⟩ := List.findIdx?_eq_some_iff_getElem.mp hi
  obtain ⟨x, hx⟩ := isSome_iff_exists.mp hx
  exact ⟨i, x, hi, by rw [List.getElem?_eq_getElem hlt, hx]⟩

theorem prune_spec (h : s.Wf) (hc : s.child c = some y) :
    ∃ s', prune s c = .ok s' ∧ s'.Wf ∧ s'.child = Function.update s.child c none := by
  cases h with
  | none => simp [Slots.child_none] at hc
  | @node m x =>
    have hm : c = m := by
      by_contra hne
      simp [Slots.child_node, hne] at hc
    subst hm
    refine ⟨⟨c, 0, 0, .node none⟩, rfl, .none, ?_⟩
    funext c'
    rw [Slots.child_none, Function.update_apply, Slots.child_node]
    split_ifs <;> rfl
  | @table m n t hlen hfit hlive hends =>
    subst hlive
    obtain ⟨j, hu⟩ := Slots.cleared_set hlen hfit hends hc
    obtain ⟨u, hset⟩ : ∃ u, t.set (c.toNat - m.toNat) none = u := ⟨_, rfl⟩
    rw [hset] at hu
    unfold prune
    have htwo := hu.two
    have hcount := hu.count
    have hulen := hu.length
    simp only [hset, if_neg (by omega : ¬ t.length = 1), if_neg (by omega : ¬ t.countP isSome ≤ 1),
      show t.countP isSome - 1 = u.countP isSome by omega]
    by_cases hone : u.countP isSome = 1
    · obtain ⟨i, x, hi, hx⟩ := findIdx_spec (u := u) (by omega)
      obtain ⟨h1, h2⟩ := Slots.single_wf (m := m) (by omega) hone hx
      rw [hone, hi]
      dsimp only
      rw [hx]
      exact ⟨_, rfl, h1, hu.children h2⟩
    · rw [if_neg hone]
      exact Slots.compact_spec hu (by omega)

/-- A set of pipes that is there is not empty. -/
def Kept (l : Option (Finset P)) : Prop := l ≠ some ∅

/-- The nodes of an mtrie are in shape. -/
def Wf (t : MtrieT P) : Prop := Node.Wf Kept none t

theorem isRedundant_iff : t.isRedundant = true ↔ t.Redundant none := by
  simp [isRedundant, pipes, Node.Redundant]

theorem new_wf : Wf (new : MtrieT P) := Node.new_wf (by simp [Kept])

theorem kept_some {s : Finset P} {x : P} (h : x ∈ s) : Kept (some s) := by
  intro hs
  cases hs
  simp at h

def At : MtrieT P → List UInt8 → Prop
  | _, [] => True
  | t, c :: key => ∃ next, t.child c = some next ∧ At next key

theorem exists_topic (h : Wf t) (hr : ¬ t.Redundant none) : ∃ q, t.val none q ≠ none := by
  induction h with
  | @intro n _ hs hchildren hlive ih =>
    by_cases hl : n.label = none
    · obtain ⟨c, y, hy⟩ := Slots.exists_child hs fun h0 => hr ⟨hl, h0⟩
      obtain ⟨q, hq⟩ := ih c y hy (hlive c y hy)
      exact ⟨c :: q, by rwa [Node.val_some hy]⟩
    · exact ⟨[], hl⟩

theorem at_iff (h : Wf t) (hk : key ≠ []) : At t key ↔ ∃ q, key <+: q ∧ t.val none q ≠ none := by
  induction key generalizing t with
  | nil => exact absurd rfl hk
  | cons c key ih =>
    constructor
    · rintro ⟨next, hc, hat⟩
      obtain ⟨-, -, hchildren, hlive⟩ := h
      have hbelow : ∃ q, key <+: q ∧ next.val none q ≠ none := by
        by_cases hk : key = []
        · obtain ⟨q, hq⟩ := exists_topic (hchildren c next hc) (hlive c next hc)
          exact ⟨q, hk ▸ List.nil_prefix, hq⟩
        · exact (ih (hchildren c next hc) hk).mp hat
      obtain ⟨q, hpre, hq⟩ := hbelow
      exact ⟨c :: q, List.cons_prefix_cons.mpr ⟨rfl, hpre⟩, by rwa [Node.val_some hc]⟩
    · rintro ⟨q, hpre, hq⟩
      obtain ⟨r, rfl⟩ := hpre
      rw [List.cons_append] at hq
      cases hc : t.child c with
      | none => exact absurd (Node.val_none hc) hq
      | some next =>
        rw [Node.val_some hc] at hq
        by_cases hk : key = []
        · exact ⟨next, hc, hk ▸ trivial⟩
        · exact ⟨next, hc, (ih (h.child_wf hc) hk).mpr ⟨_, List.prefix_append key r, hq⟩⟩

variable [DecidableEq P]

theorem add_spec (key : List UInt8) (pipe : P) (h : Wf t) :
    ∃ t', add t key pipe = .ok ((t.val none key).isNone, t') ∧ ¬ t'.Redundant none ∧
      Node.Changed Kept none t key (some (insert pipe ((t.val none key).getD ∅))) t' := by
  induction key generalizing t with
  | nil =>
    refine ⟨_, rfl, fun hr => Option.some_ne_none _ hr.1, Node.changed_label h ?_⟩
    exact kept_some (Finset.mem_insert_self pipe _)
  | cons c key ih =>
    cases hc : t.child c with
    | none =>
      have hv : (new : MtrieT P).val none key = t.val none (c :: key) := by
        rw [new, Node.new_val, Node.val_none hc]
      obtain ⟨n', hadd, hlive, hn⟩ := ih new_wf
      rw [hv] at hadd hn
      obtain ⟨s1, hres, hget, -, -, hchanged, hlive'⟩ := Node.changed_new h hc hn hlive
      refine ⟨_, ?_, hlive', hchanged⟩
      simp only [add, hres, hget, hadd, bind, Except.bind, pure, Except.pure]
      rfl
    | some next =>
      have hv : next.val none key = t.val none (c :: key) := (Node.val_some hc).symm
      obtain ⟨n', hadd, hlive, hn⟩ := ih (h.child_wf hc)
      rw [hv] at hadd hn
      obtain ⟨hres, hget, hchanged, hlive'⟩ := Node.changed_old h hc hn hlive
      refine ⟨_, ?_, hlive', hchanged⟩
      simp only [add, hres, hget, hadd, bind, Except.bind, pure, Except.pure]
      rfl

theorem rm_child {next : MtrieT P} (h : Wf t) (hc : t.child c = some next) : rm t (c :: key) pipe = rm next key pipe >>= fun x =>
      if x.2.isRedundant then prune t.slots c >>= fun s => .ok (x.1, ⟨t.pipes, s⟩)
      else .ok (x.1, ⟨t.pipes, t.slots.set c (some x.2)⟩) := by
  have hout : ¬ (t.slots.count = 0 ∨ t.slots.outside c = true) := by
    intro hout
    rw [Node.child_outside h.slots_wf hout] at hc
    cases hc
  rw [rm, if_neg hout, Slots.get_child h.slots_wf (by simpa using (not_or.mp hout).2), show t.slots.child c = some next from hc]
  rfl

theorem rm_present {pipes : Finset P} (key : List UInt8) (h : Wf t) (hv : t.val none key = some pipes)
    (hp : pipe ∈ pipes) : ∃ t', rm t key pipe = .ok (decide (pipes.erase pipe = ∅), t') ∧
      Node.Changed Kept none t key (if pipes.erase pipe = ∅ then none else some (pipes.erase pipe)) t' := by
  induction key generalizing t with
  | nil =>
    refine ⟨⟨if pipes.erase pipe = ∅ then none else some (pipes.erase pipe), t.slots⟩, ?_, Node.changed_label h ?_⟩
    · rw [rm, show t.pipes = some pipes from hv]
      dsimp only
      split_ifs with he <;> simp [he]
    · split_ifs with he
      · exact (some_ne_none _).symm
      · exact fun hx => he (some.inj hx)
  | cons c key ih =>
    cases hc : t.child c with
    | none =>
      rw [Node.val_none hc] at hv
      cases hv
    | some next =>
      rw [Node.val_some hc] at hv
      obtain ⟨n', hrm, hn⟩ := ih (h.child_wf hc) hv
      rw [rm_child h hc, hrm]
      change ∃ t', (if n'.isRedundant then _ else _) = _ ∧ _
      cases hred : n'.isRedundant with
      | true =>
        obtain ⟨s', hprune, hwf', hchild⟩ := prune_spec h.slots_wf hc
        refine ⟨⟨t.pipes, s'⟩, ?_, Node.changed_pruned h hc hn (isRedundant_iff.mp hred) hwf' hchild⟩
        rw [hprune]
        rfl
      | false =>
        have hlive : ¬ n'.Redundant none := by
          rw [← isRedundant_iff, hred]
          exact Bool.false_ne_true
        obtain ⟨-, -, hchanged, -⟩ := Node.changed_old h hc hn hlive
        exact ⟨_, by rfl, hchanged⟩

theorem rm_child_same {next : MtrieT P} {b : Bool} (h : Wf t) (hc : t.child c = some next)
    (hrm : rm next key pipe = .ok (b, next)) : rm t (c :: key) pipe = .ok (b, t) := by
  have hlive : ¬ isRedundant next = true := by
    obtain ⟨-, -, -, hlive⟩ := h
    rw [isRedundant_iff]
    exact hlive c next hc
  rw [rm_child h hc, hrm]
  change (if isRedundant next then _ else _) = _
  rw [if_neg hlive, Slots.set_same h.slots_wf hc]
  cases t
  rfl

theorem rm_absent (key : List UInt8) (h : Wf t) (hat : ¬ At t key) : rm t key pipe = .ok (false, t) := by
  induction key generalizing t with
  | nil => exact absurd trivial hat
  | cons c key ih =>
    cases hc : t.child c with
    | none =>
      by_cases hout : t.slots.count = 0 ∨ t.slots.outside c = true
      · rw [rm, if_pos hout]
      · rw [rm, if_neg hout, Slots.get_child h.slots_wf (by simpa using (not_or.mp hout).2), show t.slots.child c = none from hc]
        rfl
    | some next =>
      exact rm_child_same h hc (ih (h.child_wf hc) fun hx => hat ⟨next, hc, hx⟩)

theorem rm_other (key : List UInt8) (h : Wf t) (hat : At t key) (hp : ∀ pipes, t.val none key = some pipes → pipe ∉ pipes) :
    rm t key pipe = if t.val none key = none then .ok (true, t) else .error .assertion := by
  induction key generalizing t with
  | nil =>
    rw [Node.val_nil] at hp ⊢
    cases hl : t.label with
    | none => rw [rm, show t.pipes = none from hl, if_pos rfl]
    | some pipes =>
      rw [rm, show t.pipes = some pipes from hl, if_neg (some_ne_none _)]
      simp only [hp pipes hl, if_false]
  | cons c key ih =>
    obtain ⟨next, hc, hnext⟩ := hat
    rw [Node.val_some hc] at hp ⊢
    have hrm := ih (h.child_wf hc) hnext hp
    split_ifs at hrm ⊢ with hv
    · exact rm_child_same h hc hrm
    · rw [rm_child h hc, hrm]
      rfl

theorem rm_wf {b : Bool} (h : Wf t) (hrm : rm t key pipe = .ok (b, t')) : Wf t' := by
  by_cases hat : At t key
  · by_cases hp : ∀ pipes, t.val none key = some pipes → pipe ∉ pipes
    · rw [rm_other key h hat hp] at hrm
      split_ifs at hrm
      cases hrm
      exact h
    · push Not at hp
      obtain ⟨pipes, hv, hmem⟩ := hp
      obtain ⟨t1, hrm', hwf, -⟩ := rm_present key h hv hmem
      rw [hrm'] at hrm
      cases hrm
      exact hwf
  · rw [rm_absent key h hat] at hrm
    cases hrm
    exact h

inductive Op (P : Type) where
  | add (key : List UInt8) (pipe : P)
  | rm (key : List UInt8) (pipe : P)

def call (t : MtrieT P) : Op P → Except TrieFault (Bool × MtrieT P)
  | .add key pipe => add t key pipe
  | .rm key pipe => rm t key pipe

def pipesOf (r : Finset (List UInt8 × P)) (key : List UInt8) : Finset P :=
  (r.filter (·.1 = key)).image Prod.snd

/-- A relation between topics and pipes: the first pipe of a topic and the last one are news. -/
def relation (r : Finset (List UInt8 × P)) : Op P → Bool × Finset (List UInt8 × P)
  | .add key pipe => (decide (pipesOf r key = ∅), insert (key, pipe) r)
  | .rm key pipe => (decide (pipesOf r key = {pipe}), r.erase (key, pipe))

/-- What is removed is there, or its topic has no node. -/
def Removable (r : Finset (List UInt8 × P)) : Op P → Prop
  | .add _ _ => True
  | .rm key pipe => (key, pipe) ∈ r ∨ (key ≠ [] ∧ ∀ x ∈ r, ¬ key <+: x.1)

instance (r : Finset (List UInt8 × P)) : (op : Op P) → Decidable (Removable r op)
  | .add _ _ => inferInstanceAs (Decidable True)
  | .rm key pipe =>
    inferInstanceAs (Decidable ((key, pipe) ∈ r ∨ (key ≠ [] ∧ ∀ x ∈ r, ¬ key <+: x.1)))

/-- The mtrie is in shape and its nodes hold the pipes of their topics. -/
def Represents (t : MtrieT P) (r : Finset (List UInt8 × P)) : Prop :=
  Wf t ∧ ∀ key, t.val none key = if pipesOf r key = ∅ then none else some (pipesOf r key)

variable {r : Finset (List UInt8 × P)} {op : Op P}

theorem mem_pipesOf {x : P} : x ∈ pipesOf r key ↔ (key, x) ∈ r := by
  simp [pipesOf]

theorem new_represents : Represents (new : MtrieT P) ∅ := by
  refine ⟨new_wf, fun key => ?_⟩
  rw [new, Node.new_val]
  simp [pipesOf]

theorem pipesOf_insert (key' : List UInt8) : pipesOf (insert (key, pipe) r) key' =
    if key' = key then insert pipe (pipesOf r key') else pipesOf r key' := by
  ext x
  split_ifs with hk
  · simp [hk, mem_pipesOf]
  · simp [hk, mem_pipesOf]

theorem pipesOf_erase (key' : List UInt8) : pipesOf (r.erase (key, pipe)) key' =
    if key' = key then (pipesOf r key').erase pipe else pipesOf r key' := by
  ext x
  split_ifs with hk
  · simp [hk, mem_pipesOf]
  · simp [hk, mem_pipesOf]

theorem Represents.val_some (h : Represents t r) (hp : (key, pipe) ∈ r) : t.val none key = some (pipesOf r key) := by
  rw [h.2, if_neg]
  exact ne_empty_of_mem (mem_pipesOf.mpr hp)

theorem Represents.val_ne (h : Represents t r) : t.val none key ≠ none ↔ ∃ x, (key, x) ∈ r := by
  rw [h.2]
  split_ifs with he
  · simp only [ne_eq, not_true_eq_false, false_iff, ← mem_pipesOf, he]
    simp
  · simp only [ne_eq, reduceCtorEq, not_false_eq_true, true_iff, ← mem_pipesOf]
    exact nonempty_iff_ne_empty.mpr he

theorem Represents.at_iff (h : Represents t r) : At t key ↔ ¬ (key ≠ [] ∧ ∀ x ∈ r, ¬ key <+: x.1) := by
  by_cases hk : key = []
  · simp [hk, At]
  · rw [MtrieT.at_iff h.1 hk]
    simp only [h.val_ne, ne_eq, hk, not_false_eq_true, true_and, not_forall, not_not]
    constructor
    · rintro ⟨q, hpre, x, hx⟩
      exact ⟨(q, x), hx, hpre⟩
    · rintro ⟨⟨q, x⟩, hx, hpre⟩
      exact ⟨q, hpre, x, hx⟩

theorem erase_eq_empty {s : Finset P} {x : P} (hx : x ∈ s) : s.erase x = ∅ ↔ s = {x} := by
  rw [erase_eq_empty_iff]
  constructor
  · rintro (rfl | h)
    · simp at hx
    · exact h
  · exact .inr

theorem call_represents (op : Op P) (h : Represents t r) (hop : Removable r op) :
    ∃ t', call t op = .ok ((relation r op).1, t') ∧ Represents t' (relation r op).2 := by
  cases op with
  | add key pipe =>
    obtain ⟨t', hadd, -, hwf, hval⟩ := add_spec key pipe h.1
    refine ⟨t', ?_, hwf, fun key' => ?_⟩
    · rw [call, hadd, h.2]
      simp only [relation]
      split_ifs with he <;> simp [he]
    · rw [hval, Function.update_apply, relation, pipesOf_insert]
      by_cases hk : key' = key
      · rw [if_pos hk, if_pos hk, hk, h.2, if_neg (insert_ne_empty _ _)]
        split_ifs with he <;> simp [he]
      · rw [if_neg hk, if_neg hk]
        exact h.2 key'
  | rm key pipe =>
    by_cases hmem : (key, pipe) ∈ r
    · obtain ⟨t', hrm, hwf, hval⟩ := rm_present key h.1 (h.val_some hmem) (mem_pipesOf.mpr hmem)
      refine ⟨t', ?_, hwf, fun key' => ?_⟩
      · rw [call, hrm, relation]
        simp only [erase_eq_empty (mem_pipesOf.mpr hmem)]
      · rw [hval, Function.update_apply, relation, pipesOf_erase]
        by_cases hk : key' = key
        · rw [if_pos hk, if_pos hk, hk]
        · rw [if_neg hk, if_neg hk]
          exact h.2 key'
    · have habsent : key ≠ [] ∧ ∀ x ∈ r, ¬ key <+: x.1 := hop.resolve_left hmem
      refine ⟨t, ?_, ?_⟩
      · have hnot : ¬ pipesOf r key = {pipe} := by
          intro he
          exact hmem (mem_pipesOf.mp (he ▸ mem_singleton_self pipe))
        rw [call, rm_absent key h.1 (fun hat => h.at_iff.mp hat habsent), relation, decide_eq_false hnot]
      · rwa [relation, erase_eq_of_notMem hmem]

theorem call_wrong (h : Represents t r) (hop : ¬ Removable r op) (t' : MtrieT P) : call t op ≠ .ok ((relation r op).1, t') := by
  cases op with
  | add key pipe => exact absurd trivial hop
  | rm key pipe =>
    obtain ⟨hmem, hnode⟩ := not_or.mp hop
    have hnot : ¬ pipesOf r key = {pipe} := by
      intro he
      exact hmem (mem_pipesOf.mp (he ▸ mem_singleton_self pipe))
    rw [relation, decide_eq_false hnot]
    rw [call, rm_other key h.1 (h.at_iff.mpr hnode) fun pipes hv hx => ?_]
    · split_ifs <;> simp
    · rw [h.2] at hv
      split_ifs at hv
      cases hv
      exact hmem (mem_pipesOf.mp hx)

/-- From the empty mtrie on, the calls are answered as by the relation, which the mtrie then
represents, exactly if each `rm` is of a subscription that is there or of a topic, not the
empty one, that no subscribed topic begins with. -/
theorem relation_refined_iff {ops : List (Op P)} :
    Refines call relation Represents (new : MtrieT P) ∅ ops ↔ Allowed relation Removable ∅ ops :=
  refines_iff (fun _ _ op => call_represents op) (fun _ _ _ => call_wrong) new_represents

/-- One pipe unsubscribes from the topic of another one. -/
theorem foreign_rm_aborts : exec call (new : MtrieT ℕ) [.add [65] 0, .rm [65] 1] = .error .assertion ∧
    ¬ Refines call relation Represents (new : MtrieT ℕ) ∅ [.add [65] 0, .rm [65] 1] := by
  have habort : exec call (new : MtrieT ℕ) [.add [65] 0, .rm [65] 1] = .error .assertion := rfl
  refine ⟨habort, ?_⟩
  rintro ⟨t, hx, -⟩
  cases hx

end MtrieT

end Zmq
