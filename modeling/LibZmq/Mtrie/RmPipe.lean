import LibZmq.Mtrie.Relation

/-! `mtrie_t::rm` of a pipe takes the pipe out of every node. The loop over a table
prunes children while it goes on, and the table is cut down to what is left after it. -/

namespace Zmq

open List Option UInt8 Slots

structure Swept {α : Type} (m c : ℕ) (u : List (Option α)) (sw sw' : Sweep) : Prop where
  min_le : sw'.newMin.toNat ≤ sw.newMin.toNat
  min_live : ∀ j, (u[j]?).join ≠ none → sw'.newMin.toNat ≤ m + c + j
  min_eq : sw'.newMin = sw.newMin ∨ ∃ j, (u[j]?).join ≠ none ∧ sw'.newMin.toNat = m + c + j
  max_le : sw.newMax.toNat ≤ sw'.newMax.toNat
  max_live : ∀ j, (u[j]?).join ≠ none → m + c + j ≤ sw'.newMax.toNat
  max_eq : sw'.newMax = sw.newMax ∨ ∃ j, (u[j]?).join ≠ none ∧ sw'.newMax.toNat = m + c + j

section

variable {α : Type} {m c : ℕ} {u : List (Option α)} {sw sw' : Sweep}

theorem swept_nil : Swept m c ([] : List (Option α)) sw sw :=
  ⟨Nat.le_refl _, by simp, .inl rfl, Nat.le_refl _, by simp, .inl rfl⟩

theorem swept_none (h : Swept m (c + 1) u sw sw') : Swept m c (none :: u) sw sw' := by
  refine ⟨h.min_le, fun j hj => ?_, h.min_eq.imp_right ?_, h.max_le, fun j hj => ?_, h.max_eq.imp_right ?_⟩
  · cases j with
    | zero => simp at hj
    | succ j =>
      have := h.min_live j hj
      omega
  · rintro ⟨j, hj, hx⟩
    exact ⟨j + 1, hj, by omega⟩
  · cases j with
    | zero => simp at hj
    | succ j =>
      have := h.max_live j hj
      omega
  · rintro ⟨j, hj, hx⟩
    exact ⟨j + 1, hj, by omega⟩

theorem swept_some {x : α} (hfit : m + c < 256) (h : Swept m (c + 1) u (sw.keep (m + c)) sw') :
    Swept m c (some x :: u) sw sw' := by
  have hbyte : (ofNat (m + c)).toNat = m + c := by
    exact Nat.mod_eq_of_lt hfit
  obtain ⟨hmin, hmin_eq⟩ : (sw.keep (m + c)).newMin.toNat ≤ sw.newMin.toNat ∧
      (sw.keep (m + c)).newMin.toNat ≤ m + c ∧
      ((sw.keep (m + c)).newMin = sw.newMin ∨ (sw.keep (m + c)).newMin.toNat = m + c) := by
    unfold Sweep.keep
    dsimp only
    split_ifs with hx
    · exact ⟨by omega, by omega, .inr hbyte⟩
    · exact ⟨by omega, by omega, .inl rfl⟩
  obtain ⟨hmax, hmax_eq⟩ : sw.newMax.toNat ≤ (sw.keep (m + c)).newMax.toNat ∧
      m + c ≤ (sw.keep (m + c)).newMax.toNat ∧
      ((sw.keep (m + c)).newMax = sw.newMax ∨ (sw.keep (m + c)).newMax.toNat = m + c) := by
    unfold Sweep.keep
    dsimp only
    split_ifs with hx
    · exact ⟨by omega, by omega, .inr hbyte⟩
    · exact ⟨by omega, by omega, .inl rfl⟩
  have h1 := h.min_le
  have h2 := h.max_le
  refine ⟨by omega, fun j hj => ?_, ?_, by omega, fun j hj => ?_, ?_⟩
  · cases j with
    | zero => omega
    | succ j =>
      omega
  · rcases h.min_eq with hx | ⟨j, hj, hx⟩
    · rw [hx]
      exact hmin_eq.2.imp_right fun hx => ⟨0, by simp, by omega⟩
    · exact .inr ⟨j + 1, hj, by omega⟩
  · cases j with
    | zero => omega
    | succ j =>
      have := h.max_live j hj
      omega
  · rcases h.max_eq with hx | ⟨j, hj, hx⟩
    · rw [hx]
      exact hmax_eq.2.imp_right fun hx => ⟨0, by simp, by omega⟩
    · exact .inr ⟨j + 1, hj, by omega⟩

end

namespace MtrieT

variable {P : Type} {m : UInt8}

theorem lt_of_live {α : Type} {u : List (Option α)} {j : ℕ} (h : (u[j]?).join ≠ none) : j < u.length := by
  by_contra hj
  rw [getElem?_eq_none (by omega)] at h
  exact h rfl

theorem shrink_spec {u : List (Option (MtrieT P))} (sw : Sweep) (hlen : 1 < u.length)
    (hfit : m.toNat + u.length ≤ 256) (hlive : sw.liveNodes = u.countP isSome)
    (h : Swept m.toNat 0 u ⟨u.countP isSome, ofNat (m.toNat + u.length - 1), m⟩ sw) :
    ∃ s', shrink m u.length u sw = .ok s' ∧ s'.Wf ∧ ∀ c, s'.child c = entry m.toNat u c.toNat := by
  obtain ⟨live, newMin, newMax⟩ := sw
  obtain ⟨hmin_le, hmin_live, hmin_eq, hmax_le, hmax_live, hmax_eq⟩ := h
  simp only [Nat.add_zero] at hmin_live hmin_eq hmax_live hmax_eq
  have hlast : (ofNat (m.toNat + u.length - 1)).toNat = m.toNat + u.length - 1 := by
    exact Nat.mod_eq_of_lt (by omega)
  subst hlive
  unfold shrink
  simp only [if_neg (by omega : ¬ u.length ≤ 1)]
  by_cases h0 : u.countP isSome = 0
  · rw [h0]
    refine ⟨_, rfl, .none, fun c => ?_⟩
    rw [child_none]
    cases hc : entry m.toNat u c.toNat with
    | none => rfl
    | some x =>
      obtain ⟨j, -, hj⟩ := Span.entry_some hc
      exact absurd rfl (countP_eq_zero.mp h0 _ (mem_of_getElem? hj))
  rw [if_neg h0]
  obtain ⟨i, x, -, hi⟩ := findIdx_spec (u := u) (by omega)
  have hilive : (u[i]?).join ≠ none := by
    rw [hi]
    exact some_ne_none x
  have hilt := lt_of_live hilive
  have hmin_i := hmin_live i hilive
  have hmax_i := hmax_live i hilive
  by_cases h1 : u.countP isSome = 1
  · -- both ends are where the one child is
    have honly : ∀ j, (u[j]?).join ≠ none → j = i := by
      intro j hj
      obtain ⟨y, hy⟩ := ne_none_iff_exists'.mp hj
      exact Span.only_entry h1 (join_eq_some_iff.mp hy) hi
    have hmin : newMin.toNat = m.toNat + i := by
      rcases hmin_eq with hx | ⟨j, hj, hx⟩
      · rw [hx] at hmin_i ⊢
        omega
      · rw [hx, honly j hj]
    have hmax : newMax.toNat = m.toNat + i := by
      rcases hmax_eq with hx | ⟨j, hj, hx⟩
      · rw [hx] at hmax_i ⊢
        omega
      · rw [hx, honly j hj]
    have hbyte : newMin = m + ofNat i := by
      rw [← UInt8.toNat_inj, hmin, add_toNat (by omega)]
    have hsame : newMin = newMax := by rw [← UInt8.toNat_inj, hmin, hmax]
    have hrange : ¬ (newMin < m ∨ m.toNat + u.length ≤ newMin.toNat) := by
      rw [lt_iff_toNat_lt]
      omega
    rw [if_neg (not_not_intro hsame), if_neg hrange, hmin,
      show m.toNat + i - m.toNat = i by omega, hi, h1, hbyte]
    obtain ⟨hwf, hchild⟩ := single_wf (m := m) (by omega) h1 hi
    exact ⟨_, rfl, hwf, hchild⟩
  · rw [if_neg h1]
    -- the two ends differ, so a child is at each of them
    have hne : newMin.toNat < newMax.toNat := by
      by_contra hle
      have honly : ∀ j, (u[j]?).join ≠ none → j = i := by
        intro j hj
        have := hmin_live j hj
        have := hmax_live j hj
        omega
      have hnone : ∀ j, j ≠ i → (u[j]?).join = none := fun j hj => by
        by_contra hx
        exact hj (honly j hx)
      have hcount := Span.count_trim (t := u) (i := i) (k := 1) (fun j hj => hnone j (by omega))
        (fun j hj => hnone j (by omega))
      have hle := countP_le_length (p := isSome) (l := (u.drop i).take 1)
      rw [length_take] at hle
      omega
    obtain ⟨a, ha, hmin⟩ : ∃ a, (u[a]?).join ≠ none ∧ newMin.toNat = m.toNat + a := by
      refine hmin_eq.resolve_left fun hx => ?_
      rw [hx] at hne
      rcases hmax_eq with hy | ⟨j, hj, hy⟩
      · rw [hy] at hne
        omega
      · have := lt_of_live hj
        omega
    obtain ⟨b, hb, hmax⟩ : ∃ b, (u[b]?).join ≠ none ∧ newMax.toNat = m.toNat + b := by
      refine hmax_eq.resolve_left fun hx => ?_
      rw [hx] at hne
      omega
    have hblt := lt_of_live hb
    have hbyte : newMin = m + ofNat a := by
      rw [← UInt8.toNat_inj, hmin, add_toNat (by omega)]
    have hleft : ∀ j < a, (u[j]?).join = none := by
      intro j hj
      by_contra hx
      have := hmin_live j hx
      omega
    have hright : ∀ j, b < j → (u[j]?).join = none := by
      intro j hj
      by_contra hx
      have := hmax_live j hx
      omega
    by_cases hcut : m < newMin ∨ newMax.toNat < m.toNat + u.length - 1
    · have hcut' : 0 < a ∨ b + 1 < u.length := by
        rw [lt_iff_toNat_lt] at hcut
        omega
      have hrange : ¬ (newMin < m ∨ m.toNat + u.length - 1 < newMax.toNat) := by
        rw [lt_iff_toNat_lt]
        omega
      have horder : ¬ newMax ≤ newMin := by
        rw [le_iff_toNat_le]
        omega
      rw [if_pos hcut, if_neg horder, if_neg hrange, hmin, hmax,
        show m.toNat + b - (m.toNat + a) + 1 = b - a + 1 by omega,
        show m.toNat + a - m.toNat = a by omega, if_neg (by omega : ¬ u.length ≤ b - a + 1), hbyte]
      obtain ⟨hwf, hchild⟩ := trim_wf (m := m) (t := u) (i := a) (k := b - a + 1) hfit hleft
        (fun j hj => hright j (by omega)) ha (by rwa [show a + (b - a + 1) - 1 = b by omega])
        (by omega) (by omega)
      exact ⟨_, rfl, hwf, hchild⟩
    · have hends : a = 0 ∧ b = u.length - 1 := by
        rw [lt_iff_toNat_lt] at hcut
        omega
      rw [if_neg hcut]
      exact ⟨_, rfl, .table hlen hfit rfl ⟨hends.1 ▸ ha, hends.2 ▸ hb⟩, fun c => rfl⟩

variable {pipe : P} {callOnUniq : Bool} {t t' : MtrieT P}

theorem val_kept (h : Wf t) (key : List UInt8) : Kept (t.val none key) := by
  induction key generalizing t with
  | nil =>
    obtain ⟨hlabel, -, -, -⟩ := h
    exact hlabel
  | cons c key ih =>
    cases hc : t.child c with
    | none =>
      rw [Node.val_none hc]
      exact (some_ne_none _).symm
    | some next =>
      rw [Node.val_some hc]
      exact ih (h.child_wf hc)

variable [DecidableEq P] {l : Option (Finset P)} {path : List UInt8} {buff : Buff}

def Told (pipe : P) (callOnUniq : Bool) (l : Option (Finset P)) : Prop :=
  ((erasePipe l pipe).1 && (!callOnUniq || (erasePipe l pipe).2.isNone)) = true

structure Erased (pipe : P) (t t' : MtrieT P) : Prop where
  wf : Wf t'
  val : ∀ key, t'.val none key = (erasePipe (t.val none key) pipe).2

inductive Left (pipe : P) : Option (MtrieT P) → Option (MtrieT P) → Prop
  | none : Left pipe none none
  | gone {n n'} (h : Erased pipe n n') (hr : n'.Redundant none) : Left pipe (some n) none
  | kept {n n'} (h : Erased pipe n n') (hr : ¬ n'.Redundant none) : Left pipe (some n) (some n')

theorem told_none : ¬ Told pipe callOnUniq none := by simp [Told, erasePipe]

theorem erasePipe_kept (pipe : P) (h : Kept l) : Kept (erasePipe l pipe).2 := by
  unfold erasePipe
  cases l with
  | none => exact h
  | some s =>
    dsimp only
    split_ifs with hp he
    · exact (some_ne_none _).symm
    · exact fun hx => he (some.inj hx)
    · exact h

theorem entry_left {m : ℕ} {u v : List (Option (MtrieT P))} (h : List.Forall₂ (Left pipe) u v) (i : ℕ) :
    Left pipe (entry m u i) (entry m v i) := by
  induction h generalizing m with
  | nil =>
    rw [Span.entry_nil]
    exact .none
  | cons hx _ ih =>
    rw [Span.entry_cons, Span.entry_cons]
    dsimp only
    split_ifs
    · exact hx
    · exact ih

theorem erased_node {s s' : Slots (MtrieT P)} (h : Wf ⟨l, s⟩) (hs : s'.Wf) (hc : ∀ c, Left pipe (s.child c) (s'.child c)) :
    Erased pipe ⟨l, s⟩ ⟨(erasePipe l pipe).2, s'⟩ := by
  have hlabel : Kept l := by
    obtain ⟨hlabel, -, -, -⟩ := h
    exact hlabel
  refine ⟨⟨erasePipe_kept pipe hlabel, hs, ?_, ?_⟩, fun key => ?_⟩
  · intro c n' hn
    have hx := hc c
    rw [show s'.child c = some n' from hn] at hx
    generalize s.child c = x at hx
    cases hx with
    | kept h hr => exact h.wf
  · intro c n' hn
    have hx := hc c
    rw [show s'.child c = some n' from hn] at hx
    generalize s.child c = x at hx
    cases hx with
    | kept h hr => exact hr
  · cases key with
    | nil => rfl
    | cons c key =>
      have hx := hc c
      simp only [Node.val, Node.child]
      generalize s.child c = x at hx ⊢
      generalize s'.child c = y at hx ⊢
      cases hx with
      | none => rfl
      | gone h hr => exact (h.val key ▸ Node.redundant_val h.wf hr key).symm
      | kept h hr => exact h.val key

def RmVisits (pipe : P) (callOnUniq : Bool) (t : MtrieT P) : Prop :=
  ∀ (buff : Buff) (path : List UInt8) (n : ℕ), buff.Spells path n → ∃ (buff' : Buff) (keys : List (List UInt8)) (t' : MtrieT P),
      rmHelper t pipe callOnUniq buff path.length n = .ok (buff', t') ∧
      buff'.Spells path n ∧ buff'.calls = buff.calls ++ keys.map (path ++ ·) ∧
      (Node.Lists keys fun p => Told pipe callOnUniq (t.val none p)) ∧ Erased pipe t t'

theorem rm_visits_child (ht : RmVisits pipe callOnUniq t) {n : ℕ} (h : buff.Spells path n) (hn : path.length < n) (c : UInt8) :
    ∃ (buff1 buff' : Buff) (keys : List (List UInt8)) (t' : MtrieT P), buff.put path.length c = .ok buff1 ∧
      rmHelper t pipe callOnUniq buff1 (path.length + 1) n = .ok (buff', t') ∧ buff'.Spells path n ∧
      buff'.calls = buff.calls ++ (keys.map (c :: ·)).map (path ++ ·) ∧
      (Node.Lists keys fun p => Told pipe callOnUniq (t.val none p)) ∧ Erased pipe t t' := by
  obtain ⟨buff1, hput, hcalls1, hsp1⟩ := Buff.put_spells h hn c
  obtain ⟨buff', keys, t', hrm, hsp', hcalls', hlists, herased⟩ := ht buff1 (path ++ [c]) n hsp1
  rw [length_append] at hrm
  refine ⟨buff1, buff', keys, t', hput, hrm, hsp'.up, ?_, hlists, herased⟩
  rw [hcalls', hcalls1]
  simp [Function.comp_def]

theorem rm_visits_table (u : List (Option (MtrieT P))) (hu : ∀ next, some next ∈ u → RmVisits pipe callOnUniq next) (c : ℕ)
    (hfit : m.toNat + c + u.length ≤ 256) {n : ℕ}
    (h : buff.Spells path n) (hn : path.length < n) (sw : Sweep) (hlive : u.countP isSome ≤ sw.liveNodes) :
    ∃ (buff' : Buff) (keys : List (List UInt8)) (v : List (Option (MtrieT P))) (sw' : Sweep),
      rmTable u pipe callOnUniq m c buff path.length n sw = .ok (buff', v, sw') ∧
      buff'.Spells path n ∧ buff'.calls = buff.calls ++ keys.map (path ++ ·) ∧
      Node.Lists keys (Node.Below none (Told pipe callOnUniq) fun c' => entry (m.toNat + c) u c'.toNat) ∧
      List.Forall₂ (Left pipe) u v ∧ Swept m.toNat c v sw sw' ∧
      sw'.liveNodes + u.countP isSome = sw.liveNodes + v.countP isSome := by
  induction u generalizing c buff sw with
  | nil =>
    exact ⟨buff, [], [], sw, rfl, h, by simp, Node.lists_nil (by simp [Span.entry_nil]), .nil, swept_nil, rfl⟩
  | cons next u ih =>
    rw [length_cons] at hfit
    have hu' : ∀ next, some next ∈ u → RmVisits pipe callOnUniq next :=
      fun next hx => hu next (mem_cons_of_mem _ hx)
    cases next with
    | none =>
      obtain ⟨buff1, hput, hcalls1, hsp1⟩ := Buff.put_spells h hn (m + ofNat c)
      obtain ⟨buff', keys, v, sw', hrm, hsp', hcalls', hlists, hleft, hswept, hcount⟩ :=
        ih hu' (c + 1) (by omega) hsp1.up sw hlive
      refine ⟨buff', keys, none :: v, sw', ?_, hsp', by rw [hcalls', hcalls1], ?_, .cons .none hleft, swept_none hswept, hcount⟩
      · simp only [rmTable, hput, bind, Except.bind, hrm, pure, Except.pure]
      · simpa only [Span.entry_none, Nat.add_assoc] using hlists
    | some next =>
      rw [countP_cons_of_pos rfl] at hlive
      obtain ⟨buff1, buff2, keys1, n', hput, hrm1, hsp2, hcalls2, hlists1, herased⟩ :=
        rm_visits_child (hu next mem_cons_self) h hn (m + ofNat c)
      cases hred : isRedundant n' with
      | true =>
        obtain ⟨buff', keys, v, sw', hrm, hsp', hcalls', hlists, hleft, hswept, hcount⟩ :=
          ih hu' (c + 1) (by omega) hsp2 { sw with liveNodes := sw.liveNodes - 1 } (by
            dsimp only
            omega)
        refine ⟨buff', keys1.map ((m + ofNat c) :: ·) ++ keys, none :: v, sw', ?_, hsp', ?_,
          Node.lists_cons (add_toNat (by omega)) hlists1 hlists,
          .cons (.gone herased (isRedundant_iff.mp hred)) hleft, swept_none ?_, ?_⟩
        · simp only [rmTable, hput, bind, Except.bind, hrm1, hred, if_true,
            if_neg (by omega : ¬ sw.liveNodes = 0), hrm, pure, Except.pure]
        · rw [hcalls', hcalls2, map_append, append_assoc]
        · exact ⟨hswept.min_le, hswept.min_live, hswept.min_eq, hswept.max_le, hswept.max_live, hswept.max_eq⟩
        · rw [countP_cons_of_pos rfl, countP_cons_of_neg (by simp)]
          dsimp only at hcount
          omega
      | false =>
        obtain ⟨buff', keys, v, sw', hrm, hsp', hcalls', hlists, hleft, hswept, hcount⟩ :=
          ih hu' (c + 1) (by omega) hsp2 (sw.keep (m.toNat + c)) (by
            change _ ≤ sw.liveNodes
            omega)
        refine ⟨buff', keys1.map ((m + ofNat c) :: ·) ++ keys, some n' :: v, sw', ?_, hsp', ?_,
          Node.lists_cons (add_toNat (by omega)) hlists1 hlists,
          .cons (.kept herased fun hr => ?_) hleft, swept_some (by omega) hswept, ?_⟩
        · simp only [rmTable, hput, bind, Except.bind, hrm1, hred, Bool.false_eq_true, if_false, hrm, pure, Except.pure]
        · rw [hcalls', hcalls2, map_append, append_assoc]
        · rw [isRedundant_iff.mpr hr] at hred
          cases hred
        · rw [countP_cons_of_pos rfl, countP_cons_of_pos rfl]
          change _ = sw.liveNodes + _ at hcount
          omega

theorem rm_visits (pipe : P) (callOnUniq : Bool) (h : Wf t) : RmVisits pipe callOnUniq t := by
  induction h with
  | @intro n hlabel hs hchildren hlive ih =>
    intro buff path size hb
    obtain ⟨l, s⟩ := n
    have hwf : Wf ⟨l, s⟩ := ⟨hlabel, hs, hchildren, hlive⟩
    -- the call for the node itself
    obtain ⟨told, htold⟩ : ∃ told, ((erasePipe l pipe).1 && (!callOnUniq || (erasePipe l pipe).2.isNone)) = told := ⟨_, rfl⟩
    obtain ⟨buff0, hcall, hsp0, hcalls0⟩ : ∃ buff0 : Buff, buff.callIf told path.length = .ok buff0 ∧
        buff0.Spells path size ∧ buff0.calls = buff.calls ++ if told then [path] else [] :=
      ⟨_, Buff.callIf_eq hb _, ⟨hb.spelled, hb.size, hb.room⟩, rfl⟩
    obtain ⟨hsp1, hcalls1, hlt, hle⟩ := Buff.adjust_spells hsp0
    generalize hadj : buff0.adjust path.length size = adj at hsp1 hcalls1 hlt hle
    obtain ⟨size1, buff1⟩ := adj
    have hall : ∀ (buff' : Buff) (keys : List (List UInt8)) (s' : Slots (MtrieT P)),
        buff'.Spells path size1 → buff'.calls = buff1.calls ++ keys.map (path ++ ·) →
        Node.Lists keys (Node.Below none (Told pipe callOnUniq) (Node.child ⟨l, s⟩)) →
        s'.Wf → (∀ c, Left pipe (s.child c) (s'.child c)) →
        ∃ keys' : List (List UInt8), buff'.Spells path size ∧ buff'.calls = buff.calls ++ keys'.map (path ++ ·) ∧
          (Node.Lists keys' fun p => Told pipe callOnUniq ((⟨l, s⟩ : MtrieT P).val none p)) ∧
          Erased pipe ⟨l, s⟩ ⟨(erasePipe l pipe).2, s'⟩ := by
      intro buff' keys s' hsp' hcalls' hlists hs' hleft
      refine ⟨_, hsp'.mono hb.size hle, ?_,
        Node.lists_node (b := told) (by rw [← htold]; exact Iff.rfl) told_none hlists,
        erased_node hwf hs' hleft⟩
      rw [hcalls', hcalls1, hcalls0, ]
      split_ifs <;> simp
    cases hs with
    | @none m p =>
      obtain ⟨keys', h1, h2, h3, h4⟩ := hall buff1 [] ⟨m, 0, 0, .node p⟩ hsp1 (by simp)
        (Node.lists_nil (by simp [Node.child, child_none])) .none
        (fun c => by
          rw [child_none]
          exact .none)
      refine ⟨buff1, keys', _, ?_, h1, h2, h3, h4⟩
      simp only [rmHelper, htold, hcall, bind, Except.bind, hadj, if_true, pure, Except.pure]
    | @node m next =>
      obtain ⟨buff2, buff3, keys, n', hput, hrm, hsp3, hcalls3, hlists, herased⟩ :=
        rm_visits_child (ih m next (by simp [Node.child, child_node])) hsp1 hlt m
      have hkeys := Node.lists_child (c := m) hlists (child_node m 1 (some next))
      cases hred : isRedundant n' with
      | true =>
        obtain ⟨keys', h1, h2, h3, h4⟩ := hall buff3 (keys.map (m :: ·)) ⟨m, 0, 0, .node none⟩ hsp3
          hcalls3 hkeys .none (fun c => by
            rw [child_none, child_node]
            split_ifs
            · exact .gone herased (isRedundant_iff.mp hred)
            · exact .none)
        refine ⟨buff3, keys', _, ?_, h1, h2, h3, h4⟩
        simp only [rmHelper, htold, hcall, bind, Except.bind, hadj, Nat.one_ne_zero, if_false, ne_eq,
          not_true_eq_false, hput, hrm, hred, if_true, pure, Except.pure]
      | false =>
        obtain ⟨keys', h1, h2, h3, h4⟩ := hall buff3 (keys.map (m :: ·)) ⟨m, 1, 1, .node (some n')⟩ hsp3
          hcalls3 hkeys .node (fun c => by
            rw [child_node, child_node]
            split_ifs
            · refine .kept herased fun hr => ?_
              rw [isRedundant_iff.mpr hr] at hred
              cases hred
            · exact .none)
        refine ⟨buff3, keys', _, ?_, h1, h2, h3, h4⟩
        simp only [rmHelper, htold, hcall, bind, Except.bind, hadj, Nat.one_ne_zero, if_false, ne_eq,
          not_true_eq_false, hput, hrm, hred, Bool.false_eq_true, pure, Except.pure]
    | @table m n u hlen hfit hlive' hends =>
      obtain ⟨buff2, keys, v, sw, hrm, hsp2, hcalls2, hlists, hleft, hswept, hcount⟩ :=
        rm_visits_table (m := m) u
          (fun next hx => by
            obtain ⟨c, hc⟩ := child_mem hfit hx
            exact ih c next hc)
          0 (by omega) hsp1 hlt ⟨n, ofNat (m.toNat + u.length - 1), m⟩ (by
            dsimp only
            omega)
      dsimp only at hcount
      have hvlen := hleft.length_eq
      obtain ⟨s', hshrink, hs', hchild⟩ := shrink_spec (m := m) (u := v) sw (by omega) (by omega)
        (by omega) (by
          rw [← hvlen]
          exact ⟨hswept.min_le, hswept.min_live, hswept.min_eq, hswept.max_le, hswept.max_live, hswept.max_eq⟩)
      obtain ⟨keys', h1, h2, h3, h4⟩ := hall buff2 keys s' hsp2 hcalls2 hlists hs'
        (fun c => by
          rw [hchild]
          exact entry_left hleft c.toNat)
      refine ⟨buff2, keys', _, ?_, h1, h2, h3, h4⟩
      rw [← hvlen] at hshrink
      simp only [rmHelper, htold, hcall, bind, Except.bind, hadj, if_neg (by omega : ¬ u.length = 0),
        if_neg (by omega : ¬ u.length = 1), hrm, hshrink, pure, Except.pure]

def Subscribed (t : MtrieT P) (key : List UInt8) (x : P) : Prop := x ∈ (t.val none key).getD ∅

/-- The tries that calls lead to, from the empty one on. -/
inductive Reached : MtrieT P → Prop
  | new : Reached new
  | add {t t' key pipe b} (h : Reached t) (hx : add t key pipe = .ok (b, t')) : Reached t'
  | rm {t t' key pipe b} (h : Reached t) (hx : rm t key pipe = .ok (b, t')) : Reached t'
  | rmPipe {t t' pipe callOnUniq calls} (h : Reached t)
    (hx : rmPipe t pipe callOnUniq = .ok (calls, t')) : Reached t'

theorem rmPipe_spec (pipe : P) (callOnUniq : Bool) (h : Wf t) : ∃ (calls : List (List UInt8)) (t' : MtrieT P),
    rmPipe t pipe callOnUniq = .ok (calls, t') ∧
    (Node.Lists calls fun p => Told pipe callOnUniq (t.val none p)) ∧ Erased pipe t t' := by
  obtain ⟨buff, keys, t', hrm, -, hcalls, hlists, herased⟩ :=
    rm_visits pipe callOnUniq h .empty [] 0 Buff.empty_spells
  have hkeys : buff.calls = keys := by simpa [Buff.empty] using hcalls
  refine ⟨keys, t', ?_, hlists, herased⟩
  rw [rmPipe, show rmHelper t pipe callOnUniq .empty 0 0 = .ok (buff, t') from hrm, ← hkeys]
  rfl

theorem reached_wf (h : Reached t) : Wf t := by
  induction h with
  | new => exact new_wf
  | @add t t' key pipe b _ hx ih =>
    obtain ⟨t1, hadd, -, hwf, -⟩ := add_spec key pipe ih
    rw [hadd] at hx
    cases hx
    exact hwf
  | rm _ hx ih => exact rm_wf ih hx
  | @rmPipe t t' pipe callOnUniq calls _ hx ih =>
    obtain ⟨calls1, t1, hrm, -, herased⟩ := rmPipe_spec pipe callOnUniq ih
    rw [hrm] at hx
    cases hx
    exact herased.wf

theorem mem_erasePipe {x : P} : x ∈ (erasePipe l pipe).2.getD ∅ ↔ x ∈ l.getD ∅ ∧ x ≠ pipe := by
  unfold erasePipe
  cases l with
  | none => simp
  | some s =>
    dsimp only
    split_ifs with hp he
    · have hx : x ∈ s.erase pipe ↔ False := by simp [he]
      simpa [and_comm] using hx
    · simp [Finset.mem_erase, and_comm]
    · refine ⟨fun hx => ⟨hx, ?_⟩, And.left⟩
      rintro rfl
      exact hp hx

theorem told_iff (h : Kept l) : Told pipe callOnUniq l ↔
    pipe ∈ l.getD ∅ ∧ (callOnUniq = true → ∀ x, x ∉ (erasePipe l pipe).2.getD ∅) := by
  have hkept := erasePipe_kept pipe h
  have hnone : (erasePipe l pipe).2.isNone = true ↔ ∀ x, x ∉ (erasePipe l pipe).2.getD ∅ := by
    generalize (erasePipe l pipe).2 = r at hkept
    cases r with
    | none => simp
    | some s =>
      simp only [isNone_some, Bool.false_eq_true, getD_some, false_iff]
      exact fun hx => hkept (congrArg some (Finset.eq_empty_of_forall_notMem hx))
  have herased : (erasePipe l pipe).1 = true ↔ pipe ∈ l.getD ∅ := by
    unfold erasePipe
    cases l with
    | none => simp
    | some s =>
      dsimp only
      split_ifs with hp <;> simp [hp]
  rw [Told, Bool.and_eq_true, Bool.or_eq_true, herased, hnone]
  cases callOnUniq <;> simp

/-- Whatever was added and removed before, removing a pipe takes out its subscriptions and
no others, leaves the nodes in shape, and calls the function once for each of its topics,
or for those of them that are left without any pipe. -/
theorem rmPipe_exact (h : Reached t) (pipe : P) (callOnUniq : Bool) :
    ∃ (calls : List (List UInt8)) (t' : MtrieT P), rmPipe t pipe callOnUniq = .ok (calls, t') ∧ Wf t' ∧
      (∀ key x, Subscribed t' key x ↔ Subscribed t key x ∧ x ≠ pipe) ∧ calls.Nodup ∧
      ∀ key, key ∈ calls ↔ Subscribed t key pipe ∧ (callOnUniq = true → ∀ x, ¬ Subscribed t' key x) := by
  have hwf := reached_wf h
  obtain ⟨calls, t', hrm, hlists, herased⟩ := rmPipe_spec pipe callOnUniq hwf
  refine ⟨calls, t', hrm, herased.wf, fun key x => ?_, hlists.nodup, fun key => ?_⟩
  · rw [Subscribed, herased.val, mem_erasePipe]
    rfl
  · rw [hlists.mem, told_iff (val_kept hwf key)]
    simp only [Subscribed, herased.val]

/-- Two pipes share one of three topics, and a table is cut down to one child. -/
theorem rmPipe_exact_shared : ∃ t : MtrieT ℕ, Reached t ∧
    ∃ (calls : List (List UInt8)) (t' : MtrieT ℕ), rmPipe t 0 true = .ok (calls, t') ∧ Wf t' ∧
      (∀ key x, Subscribed t' key x ↔ Subscribed t key x ∧ x ≠ 0) ∧ calls.Nodup ∧
      ∀ key, key ∈ calls ↔ Subscribed t key 0 ∧ (true = true → ∀ x, ¬ Subscribed t' key x) := by
  obtain ⟨t1, h1, -, hwf1, -⟩ := add_spec [65] (0 : ℕ) new_wf
  obtain ⟨t2, h2, -, hwf2, -⟩ := add_spec [67, 1] (0 : ℕ) hwf1
  obtain ⟨t3, h3, -, -, -⟩ := add_spec [65] (1 : ℕ) hwf2
  have hreached : Reached t3 := .add (.add (.add .new h1) h2) h3
  exact ⟨t3, hreached, rmPipe_exact hreached 0 true⟩

end MtrieT

end Zmq
