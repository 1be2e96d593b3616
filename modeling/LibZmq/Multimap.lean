import Mathlib.Tactic

/-! Ordered multimaps whose entries are referred to by iterators. An iterator is the reference of an entry, or `none` behind the
last one, and stays what it is while other entries come and go. -/

namespace Zmq

open List

universe u v

structure Entry (K : Type u) (V : Type v) where
  ref : ℕ
  key : K
  value : V
deriving DecidableEq

/-- Equal keys are in the order of their insertion. -/
structure Multimap (K : Type u) (V : Type v) [LinearOrder K] where
  entries : List (Entry K V)
  nextRef : ℕ
  sorted : entries.Pairwise fun n m => n.key ≤ m.key
  distinct : entries.Pairwise fun n m => n.ref ≠ m.ref
  bounded : ∀ n ∈ entries, n.ref < nextRef

namespace Multimap

variable {K : Type u} {V : Type v} [LinearOrder K]

/-- An entry goes behind those whose keys are not greater. -/
def place (l : List (Entry K V)) (n : Entry K V) : List (Entry K V) :=
  l.takeWhile (·.key ≤ n.key) ++ n :: l.dropWhile (·.key ≤ n.key)

section Place

variable {l before rest : List (Entry K V)} {n m : Entry K V}

theorem place_cons_le (h : m.key ≤ n.key) : place (m :: l) n = m :: place l n := by
  simp [place, h]

theorem place_cons_lt (h : n.key < m.key) : place (m :: l) n = n :: m :: l := by
  simp [place, Std.not_le.mpr h]

@[simp] theorem mem_place : m ∈ place l n ↔ m = n ∨ m ∈ l := by
  induction l with
  | nil => simp [place]
  | cons x l ih =>
    rcases le_or_gt x.key n.key with hx | hx
    · rw [place_cons_le hx, mem_cons, mem_cons]
      tauto
    · rw [place_cons_lt hx, mem_cons]

theorem place_perm : (place l n).Perm (n :: l) := by
  induction l with
  | nil => exact .refl _
  | cons x l ih =>
    rcases le_or_gt x.key n.key with hx | hx
    · rw [place_cons_le hx]
      exact (ih.cons x).trans (.swap n x l)
    · rw [place_cons_lt hx]

theorem place_sublist : l.Sublist (place l n) := by
  induction l with
  | nil => exact nil_sublist _
  | cons x l ih =>
    rcases le_or_gt x.key n.key with hx | hx
    · rw [place_cons_le hx]
      exact ih.cons_cons x
    · rw [place_cons_lt hx]
      exact sublist_cons_self n _

theorem place_sorted (h : l.Pairwise fun n m => n.key ≤ m.key) : (place l n).Pairwise fun n m => n.key ≤ m.key := by
  induction l with
  | nil => exact pairwise_singleton _ n
  | cons x l ih =>
    obtain ⟨hx, hl⟩ := pairwise_cons.mp h
    rcases le_or_gt x.key n.key with hle | hlt
    · rw [place_cons_le hle]
      refine pairwise_cons.mpr ⟨fun m hm => ?_, ih hl⟩
      rcases mem_place.mp hm with rfl | hm
      · exact hle
      · exact hx m hm
    · rw [place_cons_lt hlt]
      refine pairwise_cons.mpr ⟨fun m hm => ?_, h⟩
      rcases mem_cons.mp hm with rfl | hm
      · exact hlt.le
      · exact hlt.le.trans (hx m hm)

theorem place_distinct (h : l.Pairwise fun n m => n.ref ≠ m.ref) (hn : ∀ m ∈ l, m.ref ≠ n.ref) :
    (place l n).Pairwise fun n m => n.ref ≠ m.ref := by
  refine (place_perm.pairwise_iff Ne.symm).mpr (pairwise_cons.mpr ⟨fun m hm => ?_, h⟩)
  exact (hn m hm).symm

theorem place_append_ge (h : (before ++ m :: rest).Pairwise fun n m => n.key ≤ m.key) (hm : m.key ≤ n.key) :
    place (before ++ m :: rest) n = before ++ place (m :: rest) n := by
  induction before with
  | nil => rfl
  | cons x before ih =>
    obtain ⟨hx, hl⟩ := pairwise_cons.mp h
    have hle : x.key ≤ n.key := (hx m (by simp)).trans hm
    rw [cons_append, place_cons_le hle, ih hl, cons_append]

theorem place_append_lt (h : ∀ m ∈ rest.head?, n.key < m.key) : place (before ++ rest) n = place before n ++ rest := by
  induction before with
  | nil =>
    cases rest with
    | nil => rfl
    | cons m rest => exact place_cons_lt (h m rfl)
  | cons x before ih =>
    rcases le_or_gt x.key n.key with hx | hx
    · rw [cons_append, place_cons_le hx, place_cons_le hx, ih, cons_append]
    · rw [cons_append, place_cons_lt hx, place_cons_lt hx, cons_append, cons_append]

end Place

def empty : Multimap K V := ⟨[], 0, .nil, .nil, nofun⟩

def insert (m : Multimap K V) (key : K) (value : V) : Multimap K V where
  entries := place m.entries ⟨m.nextRef, key, value⟩
  nextRef := m.nextRef + 1
  sorted := place_sorted m.sorted
  distinct := place_distinct m.distinct fun n hn => Nat.ne_of_lt (m.bounded n hn)
  bounded n hn := by
    rcases mem_place.mp hn with rfl | hn
    · exact Nat.lt_succ_self _
    · exact Nat.lt_succ_of_lt (m.bounded n hn)

def erase (m : Multimap K V) (ref : ℕ) : Multimap K V where
  entries := m.entries.filter (·.ref ≠ ref)
  nextRef := m.nextRef
  sorted := m.sorted.filter _
  distinct := m.distinct.filter _
  bounded n hn := m.bounded n (List.mem_filter.mp hn).1

def first (m : Multimap K V) : Option ℕ := m.entries.head?.map Entry.ref

def next (m : Multimap K V) (ref : ℕ) : Option ℕ := (m.entries.dropWhile (·.ref ≠ ref)).tail.head?.map Entry.ref

/-- `*it`; `none` if the entry has been erased. -/
def deref? (m : Multimap K V) (ref : ℕ) : Option (Entry K V) := m.entries.find? (·.ref = ref)

def behind (m : Multimap K V) : Option ℕ → List (Entry K V)
  | none => []
  | some ref => m.entries.dropWhile (·.ref ≠ ref)

structure At (m : Multimap K V) (it : Option ℕ) (before rest : List (Entry K V)) : Prop where
  entries : m.entries = before ++ rest
  it : it = rest.head?.map Entry.ref

variable {m : Multimap K V} {it : Option ℕ} {before rest : List (Entry K V)} {n n' : Entry K V} {key : K} {value : V} {ref : ℕ}

@[simp] theorem mem_insert : n ∈ (m.insert key value).entries ↔ n = ⟨m.nextRef, key, value⟩ ∨ n ∈ m.entries := mem_place

@[simp] theorem mem_erase : n ∈ (m.erase ref).entries ↔ n ∈ m.entries ∧ n.ref ≠ ref := by simp [erase]

theorem eq_of_ref (hn : n ∈ m.entries) (hn' : n' ∈ m.entries) (h : n.ref = n'.ref) : n = n' := by
  have hnodup : (m.entries.map Entry.ref).Nodup := pairwise_map.mpr m.distinct
  exact inj_on_of_nodup_map hnodup hn hn' h

theorem deref_mem (hn : n ∈ m.entries) : m.deref? n.ref = some n := by
  cases h : m.deref? n.ref with
  | none => exact absurd (find?_eq_none.mp h n hn) (by simp)
  | some n' =>
    have href : n'.ref = n.ref := by simpa using find?_some h
    rw [eq_of_ref (mem_of_find?_eq_some h) hn href]

theorem mem_of_deref (h : m.deref? ref = some n) : n ∈ m.entries ∧ n.ref = ref :=
  ⟨mem_of_find?_eq_some h, by simpa using find?_some h⟩

theorem deref_erased (h : ref < m.nextRef) : ((m.erase ref).insert key value).deref? ref = none := by
  apply find?_eq_none.mpr
  intro n hn
  rcases mem_insert.mp hn with rfl | hn
  · exact fun href => (Nat.ne_of_lt h).symm (of_decide_eq_true href)
  · simpa using (mem_erase.mp hn).2

theorem first_at : m.At m.first [] m.entries := ⟨rfl, rfl⟩

theorem first_nil (h : m.entries = []) : m.first = none := congrArg (fun l => l.head?.map Entry.ref) h

theorem first_cons (h : m.entries = n :: rest) : m.first = some n.ref := congrArg (fun l => l.head?.map Entry.ref) h

namespace At

theorem mem (h : m.At it before (n :: rest)) : n ∈ m.entries := by simp [h.entries]

theorem deref (h : m.At it before (n :: rest)) : it = some n.ref ∧ m.deref? n.ref = some n := ⟨h.it, deref_mem h.mem⟩

theorem valid (h : m.At it before rest) : ∀ ref ∈ it, ∃ n ∈ m.entries, n.ref = ref := by
  intro ref href
  rw [h.it] at href
  obtain ⟨n, hn, rfl⟩ := Option.map_eq_some_iff.mp href
  exact ⟨n, by simp [h.entries, mem_of_mem_head? hn], rfl⟩

theorem before_ne (h : m.At it before (n :: rest)) : ∀ x ∈ before, x.ref ≠ n.ref := by
  intro x hx
  have hd := m.distinct
  rw [h.entries] at hd
  exact (pairwise_append.mp hd).2.2 x hx n mem_cons_self

theorem rest_ne (h : m.At it before (n :: rest)) : ∀ x ∈ rest, x.ref ≠ n.ref := by
  intro x hx
  have hd := m.distinct
  rw [h.entries] at hd
  exact ((pairwise_cons.mp (pairwise_append.mp hd).2.1).1 x hx).symm

theorem next (h : m.At it before (n :: rest)) : m.At (m.next n.ref) (before ++ [n]) rest := by
  refine ⟨by simp [h.entries], ?_⟩
  unfold Multimap.next
  rw [h.entries, dropWhile_append_of_pos fun x hx => decide_eq_true (h.before_ne x hx),
    dropWhile_cons_of_neg (by simp)]
  rfl

theorem sorted_rest (h : m.At it before rest) : rest.Pairwise fun n m => n.key ≤ m.key := by
  have hs := m.sorted
  rw [h.entries] at hs
  exact (pairwise_append.mp hs).2.1

theorem behind (h : m.At it before rest) : m.behind it = rest := by
  rw [h.it]
  cases rest with
  | nil => rfl
  | cons n rest =>
    change m.entries.dropWhile (·.ref ≠ n.ref) = _
    rw [h.entries, dropWhile_append_of_pos fun x hx => decide_eq_true (h.before_ne x hx),
      dropWhile_cons_of_neg (by simp)]

theorem erase_last (h : m.At it (before ++ [n]) rest) : (m.erase n.ref).At it before rest := by
  have h' : m.At (some n.ref) before (n :: rest) := ⟨by simp [h.entries], rfl⟩
  refine ⟨?_, h.it⟩
  have hbefore : before.filter (·.ref ≠ n.ref) = before := filter_eq_self.mpr fun x hx => decide_eq_true (h'.before_ne x hx)
  have hrest : rest.filter (·.ref ≠ n.ref) = rest := filter_eq_self.mpr fun x hx => decide_eq_true (h'.rest_ne x hx)
  change m.entries.filter _ = _
  rw [h'.entries, filter_append, filter_cons_of_neg (by simp), hbefore, hrest]

theorem insert_ge (h : m.At it before (n :: rest)) (hkey : n.key ≤ key) :
    (m.insert key value).At it before (place (n :: rest) ⟨m.nextRef, key, value⟩) := by
  have hs := m.sorted
  rw [h.entries] at hs
  refine ⟨?_, ?_⟩
  · change place m.entries _ = _
    rw [h.entries, place_append_ge hs hkey]
  · rw [place_cons_le hkey]
    exact h.it

theorem insert_lt (h : m.At it before rest) (hkey : ∀ n ∈ rest.head?, key < n.key) :
    (m.insert key value).At it (place before ⟨m.nextRef, key, value⟩) rest := by
  refine ⟨?_, h.it⟩
  change place m.entries _ = _
  rw [h.entries, place_append_lt hkey]

end At

theorem at_mem (hn : n ∈ m.entries) : ∃ before rest, m.At (some n.ref) before (n :: rest) := by
  obtain ⟨before, rest, he⟩ := append_of_mem hn
  exact ⟨before, rest, he, rfl⟩

theorem next_valid (hn : n ∈ m.entries) : ∀ ref ∈ m.next n.ref, ∃ n' ∈ (m.erase n.ref).entries, n'.ref = ref := by
  obtain ⟨before, rest, hat⟩ := at_mem hn
  exact hat.next.erase_last.valid

theorem filter_notMem_erase [DecidableEq V] (hn : n ∈ m.entries) :
    m.entries.filter (fun n' => n' ∉ (m.erase n.ref).entries) = [n] := by
  obtain ⟨before, rest, hat⟩ := at_mem hn
  have hkept : ∀ x ∈ m.entries, x.ref ≠ n.ref → ¬ decide (x ∉ (m.erase n.ref).entries) = true := by
    intro x hx hne
    simpa using ⟨hx, hne⟩
  have hbefore : before.filter (fun n' => n' ∉ (m.erase n.ref).entries) = [] :=
    filter_eq_nil_iff.mpr fun x hx => hkept x (by simp [hat.entries, hx]) (hat.before_ne x hx)
  have hrest : rest.filter (fun n' => n' ∉ (m.erase n.ref).entries) = [] :=
    filter_eq_nil_iff.mpr fun x hx => hkept x (by simp [hat.entries, hx]) (hat.rest_ne x hx)
  conv_lhs => rw [hat.entries]
  rw [filter_append, hbefore, filter_cons_of_pos (by simp), hrest]
  rfl

end Multimap

end Zmq
