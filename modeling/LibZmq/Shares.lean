import Mathlib.Tactic

/-! Objects that are shared. Each holder refers to one object at most, and has a number of shares in it. -/

namespace Zmq

open Option Bool Finset Nat

open Function (update update_eq_self update_of_ne update_self)
namespace Shares

variable {H O : Type*} [DecidableEq O] {S : Finset H} {refers : H → Option O} {weight : H → ℕ} {h x : H}
  {o : O}

def of (refers : H → Option O) (weight : H → ℕ) (o : O) (h : H) : ℕ := if refers h = some o then weight h else 0

def total (S : Finset H) (refers : H → Option O) (weight : H → ℕ) (o : O) : ℕ := ∑ h ∈ S, of refers weight o h

theorem of_self (weight : H → ℕ) (hr : refers h = some o) : of refers weight o h = weight h := if_pos hr

theorem of_none (weight : H → ℕ) (hr : refers h ≠ some o) : of refers weight o h = 0 := if_neg hr

theorem le_total (weight : H → ℕ) (hS : h ∈ S) (hr : refers h = some o) : weight h ≤ total S refers weight o := by
  rw [← of_self weight hr]
  exact single_le_sum (fun _ _ => zero_le _) hS

theorem add_le_total [DecidableEq H] (weight : H → ℕ) (hS : h ∈ S) (hx : x ∈ S) (hne : x ≠ h) (hr : refers h = some o) (hrx : refers x = some o) :
    weight h + weight x ≤ total S refers weight o := by
  unfold total
  rw [← add_sum_erase S _ hS, of_self weight hr]
  refine Nat.add_le_add_left ?_ _
  rw [← of_self weight hrx]
  exact single_le_sum (f := of refers weight o) (fun _ _ => zero_le _) (mem_erase.mpr ⟨hne, hx⟩)

theorem total_pos : 0 < total S refers weight o ↔ ∃ h ∈ S, refers h = some o ∧ 0 < weight h := by
  unfold total of
  rw [sum_pos_iff]
  constructor
  · rintro ⟨h, hS, hpos⟩
    split_ifs at hpos with hr
    · exact ⟨h, hS, hr, hpos⟩
    · exact absurd hpos (lt_irrefl 0)
  · rintro ⟨h, hS, hr, hpos⟩
    exact ⟨h, hS, by rwa [if_pos hr]⟩

theorem total_update [DecidableEq H] (weight : H → ℕ) (hS : h ∈ S ∨ refers h = none) (r : Option O) (w : ℕ) :
    total (insert h S) (update refers h r) (update weight h w) o + of refers weight o h =
      total S refers weight o + if r = some o then w else 0 := by
  have hself : of (update refers h r) (update weight h w) o h = if r = some o then w else 0 := by
    unfold of
    rw [update_self, update_self]
  have hother : ∀ x ∈ S.erase h, of (update refers h r) (update weight h w) o x = of refers weight o x := by
    intro x hx
    unfold of
    rw [update_of_ne (ne_of_mem_erase hx), update_of_ne (ne_of_mem_erase hx)]
  have hnew : total (insert h S) (update refers h r) (update weight h w) o =
      (if r = some o then w else 0) + ∑ x ∈ S.erase h, of refers weight o x := by
    unfold total
    rw [← add_sum_erase (insert h S) _ (mem_insert_self h S), hself, erase_insert_eq_erase, sum_congr rfl hother]
  have hold : total S refers weight o = of refers weight o h + ∑ x ∈ S.erase h, of refers weight o x := by
    rcases hS with hS | hr
    · exact (add_sum_erase S _ hS).symm
    · by_cases hmem : h ∈ S
      · exact (add_sum_erase S _ hmem).symm
      · rw [of_none weight (by rw [hr]; exact (some_ne_none o).symm), erase_eq_of_notMem hmem, zero_add, total]
  omega

/-! Objects whose shares are counted, and that are freed when no share is left. An object that only one holder has, one
that does not say that it is shared, need not be counted. Counts have 32 bits. -/

/-- The shares of the holders, and those that something else has. -/
def refs (S : Finset H) (refers : H → Option O) (weight : H → ℕ) (extra : O → ℕ) (o : O) : ℕ :=
  total S refers weight o + extra o

structure Counted (S : Finset H) (refers : H → Option ℕ) (shared : H → Bool) (weight : H → ℕ) (extra : ℕ → ℕ)
    (count : ℕ → UInt32) (frees : ℕ → ℕ) (made : ℕ) : Prop where
  fresh : ∀ o, made ≤ o → refs S refers weight extra o = 0
  freed : ∀ o, o < made → frees o = if refs S refers weight extra o = 0 then 1 else 0
  counted : ∀ h ∈ S, ∀ o, refers h = some o → 0 < weight h →
    if shared h then count o = UInt32.ofNat (refs S refers weight extra o) else refs S refers weight extra o = 1
  extras : ∀ o, 0 < extra o → count o = UInt32.ofNat (refs S refers weight extra o)

theorem refs_update [DecidableEq H] (weight : H → ℕ) (extra : O → ℕ) (hS : h ∈ S ∨ refers h = none) (r : Option O) (w : ℕ) :
    refs (insert h S) (update refers h r) (update weight h w) extra o + of refers weight o h =
      refs S refers weight extra o + if r = some o then w else 0 := by
  have := total_update weight (o := o) hS r w
  unfold refs
  omega

theorem le_refs (weight : H → ℕ) (extra : O → ℕ) (hS : h ∈ S) (hr : refers h = some o) : weight h ≤ refs S refers weight extra o :=
  (le_total weight hS hr).trans (le_add_right _ _)

theorem add_le_refs [DecidableEq H] (weight : H → ℕ) (extra : O → ℕ) (hS : h ∈ S) (hx : x ∈ S) (hne : x ≠ h) (hr : refers h = some o)
    (hrx : refers x = some o) : weight h + weight x ≤ refs S refers weight extra o :=
  (add_le_total weight hS hx hne hr hrx).trans (le_add_right _ _)

theorem refs_drop [DecidableEq H] (weight : H → ℕ) (extra : O → ℕ) (hS : h ∈ S ∨ refers h = none) {r : Option O} {w : ℕ}
    (hno : r = none ∨ w = 0) : refs (insert h S) (update refers h r) (update weight h w) extra o + of refers weight o h =
      refs S refers weight extra o := by
  have hzero : (if r = some o then w else 0) = 0 := by
    rcases hno with rfl | rfl
    · exact if_neg (some_ne_none o).symm
    · exact ite_self 0
  rw [refs_update weight extra hS r w, hzero, add_zero]

theorem of_idle (hno : refers h = none ∨ weight h = 0) : of refers weight o h = 0 := by
  unfold of
  split_ifs with hr
  · exact hno.resolve_left (by rw [hr]; exact some_ne_none o)
  · rfl

theorem refs_give [DecidableEq H] {t : H} {o' : O} {v : ℕ} (extra : O → ℕ) (hS : h ∈ S) (hr : refers h = some o)
    (ht : t ∈ S ∨ refers t = none) (hno : refers t = none ∨ weight t = 0) (hne : t ≠ h) (hv : v ≤ weight h) :
    refs (insert t S) (update refers t (some o)) (update (update weight h (weight h - v)) t v)
      extra o' = refs S refers weight extra o' := by
  have hleft := refs_update weight extra (o := o') (show h ∈ S ∨ refers h = none from .inl hS) (some o) (weight h - v)
  rw [insert_eq_of_mem hS, ← hr, update_eq_self] at hleft
  have htaken := refs_update (update weight h (weight h - v)) extra (o := o') ht (some o) v
  have hempty : of refers (update weight h (weight h - v)) o' t = 0 :=
    of_idle (by rwa [update_of_ne hne])
  unfold of at hleft hempty
  simp only [hr, some.injEq] at hleft
  unfold of at htaken
  simp only [some.injEq, hempty] at htaken
  split_ifs at hleft htaken <;> omega

theorem refs_abandon [DecidableEq H] {o' : O} (extra : O → ℕ) (hS : h ∈ S) (hr : refers h = some o) :
    refs S refers (update weight h 0) (update extra o (extra o + weight h)) o' =
      refs S refers weight extra o' := by
  have := refs_drop weight extra (o := o') (show h ∈ S ∨ refers h = none from .inl hS) (r := some o) (w := 0) (.inr rfl)
  rw [insert_eq_of_mem hS, ← hr, update_eq_self] at this
  unfold of at this
  simp only [hr, some.injEq] at this
  unfold refs at this ⊢
  rcases eq_or_ne o' o with rfl | hne
  · rw [if_pos rfl] at this
    rw [update_self]
    omega
  · rw [if_neg hne.symm] at this
    rw [update_of_ne hne]
    omega

namespace Counted

variable {refers : H → Option ℕ} {shared : H → Bool} {extra : ℕ → ℕ} {count : ℕ → UInt32} {frees : ℕ → ℕ}
  {made : ℕ} {o : ℕ} {t : H}

theorem idle [DecidableEq H] (hc : Counted S refers shared weight extra count frees made) (hS : h ∈ S ∨ refers h = none)
    (hno : refers h = none ∨ weight h = 0) (b : Bool) (w : ℕ) :
    Counted (insert h S) (update refers h none) (update shared h b) (update weight h w) extra
      count frees made := by
  have hrefs : ∀ o, refs (insert h S) (update refers h none) (update weight h w) extra o =
      refs S refers weight extra o := fun o => by
    have := refs_drop weight extra (o := o) hS (r := none) (w := w) (.inl rfl)
    rwa [of_idle hno] at this
  refine ⟨fun o ho => (hrefs o).trans (hc.fresh o ho), fun o ho => (hrefs o).symm ▸ hc.freed o ho, fun x hx o hr hw => ?_,
    fun o ho => (hrefs o).symm ▸ hc.extras o ho⟩
  rw [hrefs]
  rcases eq_or_ne x h with rfl | hne
  · rw [update_self] at hr
    cases hr
  · rw [update_of_ne hne] at hr hw ⊢
    exact hc.counted x ((mem_insert.mp hx).resolve_left hne) o hr hw

theorem new [DecidableEq H] (hc : Counted S refers shared weight extra count frees made) (hS : h ∈ S ∨ refers h = none)
    (hno : refers h = none ∨ weight h = 0) (n : UInt32) :
    Counted (insert h S) (update refers h (some made)) (update shared h false) (update weight h 1)
      extra (update count made n) (update frees made 0) (made + 1) := by
  have hrefs : ∀ o, refs (insert h S) (update refers h (some made)) (update weight h 1) extra o =
      refs S refers weight extra o + if made = o then 1 else 0 := fun o => by
    have := refs_update weight extra (o := o) hS (some made) 1
    simp only [of_idle hno, some.injEq] at this
    exact this
  have h0 := hc.fresh made (le_refl _)
  refine ⟨fun o ho => ?_, fun o ho => ?_, fun x hx o hr hw => ?_, fun o ho => ?_⟩
  · rw [hrefs, hc.fresh o (by omega), if_neg (by omega)]
  · rw [hrefs]
    rcases eq_or_ne o made with rfl | hne
    · rw [update_self, if_pos rfl, if_neg (by omega)]
    · rw [update_of_ne hne, if_neg hne.symm]
      exact hc.freed o (by omega)
  · rw [hrefs]
    rcases eq_or_ne x h with rfl | hne
    · rw [update_self] at hr
      cases hr
      rw [update_self, if_neg Bool.false_ne_true, if_pos rfl, h0]
    · rw [update_of_ne hne] at hr hw ⊢
      have hxS := (mem_insert.mp hx).resolve_left hne
      have hne' : o ≠ made := by
        rintro rfl
        have := le_refs weight extra hxS hr
        omega
      rw [update_of_ne hne', if_neg hne'.symm]
      exact hc.counted x hxS o hr hw
  · have hne : o ≠ made := by
      rintro rfl
      unfold refs at h0
      omega
    rw [hrefs, update_of_ne hne, if_neg hne.symm]
    exact hc.extras o ho

theorem newKept (hc : Counted S refers shared weight extra count frees made) :
    Counted S refers shared weight (update extra made 1) (update count made 1)
      (update frees made 0) (made + 1) := by
  have h0 := hc.fresh made (le_refl _)
  have hrefs : ∀ o, refs S refers weight (update extra made 1) o =
      refs S refers weight extra o + if made = o then 1 else 0 := fun o => by
    unfold refs at h0 ⊢
    rcases eq_or_ne o made with rfl | hne
    · rw [update_self, if_pos rfl]
      omega
    · rw [update_of_ne hne, if_neg hne.symm, add_zero]
  refine ⟨fun o ho => ?_, fun o ho => ?_, fun x hx o hr hw => ?_, fun o ho => ?_⟩
  · rw [hrefs, hc.fresh o (by omega), if_neg (by omega)]
  · rw [hrefs]
    rcases eq_or_ne o made with rfl | hne
    · rw [update_self, if_pos rfl, if_neg (by omega)]
    · rw [update_of_ne hne, if_neg hne.symm]
      exact hc.freed o (by omega)
  · have hne' : o ≠ made := by
      rintro rfl
      have := le_refs weight extra hx hr
      omega
    rw [hrefs, update_of_ne hne', if_neg hne'.symm]
    exact hc.counted x hx o hr hw
  · rw [hrefs]
    rcases eq_or_ne o made with rfl | hne
    · rw [update_self, if_pos rfl, h0]
      rfl
    · rw [update_of_ne hne] at ho ⊢
      rw [if_neg hne.symm]
      exact hc.extras o ho

theorem ofNat_sub_eq_zero {n k : ℕ} (hk : k ≤ n) (hpos : 0 < k) (hn : n ≤ 2 ^ 32) :
    UInt32.ofNat n - UInt32.ofNat k = UInt32.ofNat (n - k) ∧ (UInt32.ofNat (n - k) = 0 ↔ n - k = 0) := by
  constructor
  · rw [← UInt32.ofNat_sub hk]
  · rw [← UInt32.toNat_inj, UInt32.toNat_ofNat', mod_eq_of_lt (by omega)]
    rfl

theorem release [DecidableEq H] (hc : Counted S refers shared weight extra count frees made) (hS : h ∈ S) (hr : refers h = some o)
    (hw : 0 < weight h) (hsmall : refs S refers weight extra o ≤ 2 ^ 32) {r : Option ℕ} {b : Bool} {w : ℕ}
    (hno : r = none ∨ w = 0) {n : UInt32} {k : ℕ}
    (hn : n = if shared h then count o - UInt32.ofNat (weight h) else count o)
    (hk : k = frees o + if shared h then (if n = 0 then 1 else 0) else 1) :
    Counted (insert h S) (update refers h r) (update shared h b) (update weight h w) extra
      (update count o n) (update frees o k) made := by
  have hrefs : ∀ o', refs (insert h S) (update refers h r) (update weight h w) extra o' =
      refs S refers weight extra o' - if o = o' then weight h else 0 := fun o' => by
    have := refs_drop weight extra (o := o') (show h ∈ S ∨ refers h = none from .inl hS) hno
    unfold of at this
    simp only [hr, some.injEq] at this
    omega
  have hle := le_refs weight extra hS hr
  have hmade : o < made := Nat.lt_of_not_le fun hge => by
    have := hc.fresh o hge
    omega
  have hfrees : frees o = 0 := (hc.freed o hmade).trans (if_neg (by omega))
  have hcount := hc.counted h hS o hr hw
  obtain ⟨hsub, hzero⟩ := ofNat_sub_eq_zero hle hw hsmall
  -- one that does not say that the object is shared has had the only share
  have hshared : refs S refers weight extra o = weight h ∨
      shared h = true ∧ n = UInt32.ofNat (refs S refers weight extra o - weight h) := by
    cases hs : shared h with
    | false =>
      rw [hs, if_neg Bool.false_ne_true] at hcount
      exact .inl (by omega)
    | true =>
      rw [hs] at hcount
      exact .inr ⟨rfl, by rw [hn, hs, if_pos rfl, hcount, hsub]⟩
  refine ⟨fun o' ho => ?_, fun o' ho => ?_, fun x hx o' hrx hwx => ?_, fun o' ho => ?_⟩
  · rw [hrefs, hc.fresh o' ho, Nat.zero_sub]
  · rw [hrefs]
    rcases eq_or_ne o' o with rfl | hne
    · rw [update_self, if_pos rfl, hk, hfrees, zero_add]
      cases hs : shared h with
      | false =>
        rw [hs, if_neg Bool.false_ne_true] at hcount
        rw [if_neg Bool.false_ne_true, if_pos (by omega)]
      | true =>
        rw [hs] at hcount hn
        rw [if_pos rfl, hn, hcount, hsub]
        exact if_congr hzero rfl rfl
    · rw [update_of_ne hne, if_neg hne.symm]
      exact hc.freed o' ho
  · rw [hrefs]
    rcases eq_or_ne x h with rfl | hneh
    · rw [update_self] at hrx hwx
      rcases hno with rfl | rfl
      · cases hrx
      · exact absurd hwx (lt_irrefl 0)
    · rw [update_of_ne hneh] at hrx hwx ⊢
      have hxS := (mem_insert.mp hx).resolve_left hneh
      have hcx := hc.counted x hxS o' hrx hwx
      rcases eq_or_ne o' o with rfl | hne
      · have hboth := add_le_refs weight extra hS hxS hneh hr hrx
        rw [update_self, if_pos rfl]
        obtain ⟨-, hn'⟩ := hshared.resolve_left (by omega)
        cases hs : shared x with
        | false =>
          rw [hs, if_neg Bool.false_ne_true] at hcx
          omega
        | true => rw [if_pos rfl, hn']
      · rw [update_of_ne hne, if_neg hne.symm]
        exact hcx
  · rw [hrefs]
    rcases eq_or_ne o' o with rfl | hne
    · have hboth := add_le_add_right (le_total weight hS hr) (extra o')
      rw [update_self, if_pos rfl]
      exact (hshared.resolve_left (by unfold refs; omega)).2
    · rw [update_of_ne hne, if_neg hne.symm]
      exact hc.extras o' ho

theorem unkeep (hc : Counted S refers shared weight extra count frees made) (hx : extra o = 1)
    (hsmall : refs S refers weight extra o ≤ 2 ^ 32) {n : UInt32} {k : ℕ} (hn : n = count o - 1)
    (hk : k = frees o + if n = 0 then 1 else 0) (hs : ∀ h ∈ S, refers h = some o → shared h = true) :
    Counted S refers shared weight (update extra o 0) (update count o n) (update frees o k) made := by
  have hle : 1 ≤ refs S refers weight extra o := by
    unfold refs
    omega
  have hrefs : ∀ o', refs S refers weight (update extra o 0) o' =
      refs S refers weight extra o' - if o = o' then 1 else 0 := fun o' => by
    unfold refs
    rcases eq_or_ne o' o with rfl | hne
    · rw [update_self, if_pos rfl, hx]
      rfl
    · rw [update_of_ne hne, if_neg hne.symm]
      rfl
  have hmade : o < made := Nat.lt_of_not_le fun hge => by
    have := hc.fresh o hge
    omega
  have hfrees : frees o = 0 := (hc.freed o hmade).trans (if_neg (by omega))
  obtain ⟨hsub, hzero⟩ := ofNat_sub_eq_zero hle one_pos hsmall
  have hn' : n = UInt32.ofNat (refs S refers weight extra o - 1) := by
    rw [hn, hc.extras o (by omega), ← hsub]
    rfl
  refine ⟨fun o' ho => ?_, fun o' ho => ?_, fun x hxS o' hrx hwx => ?_, fun o' ho => ?_⟩
  · rw [hrefs, hc.fresh o' ho, Nat.zero_sub]
  · rw [hrefs]
    rcases eq_or_ne o' o with rfl | hne
    · rw [update_self, if_pos rfl, hk, hfrees, zero_add, hn']
      exact if_congr hzero rfl rfl
    · rw [update_of_ne hne, if_neg hne.symm]
      exact hc.freed o' ho
  · rw [hrefs]
    rcases eq_or_ne o' o with rfl | hne
    · rw [update_self, if_pos rfl, if_pos (hs x hxS hrx), hn']
    · rw [update_of_ne hne, if_neg hne.symm]
      exact hc.counted x hxS o' hrx hwx
  · rcases eq_or_ne o' o with rfl | hne
    · rw [update_self] at ho
      exact absurd ho (lt_irrefl 0)
    · rw [update_of_ne hne] at ho
      rw [hrefs, update_of_ne hne, if_neg hne.symm]
      exact hc.extras o' ho

theorem share [DecidableEq H] (hc : Counted S refers shared weight extra count frees made) (hS : h ∈ S) (hr : refers h = some o)
    (hw : 0 < weight h) (j : ℕ) {n : UInt32}
    (hn : n = if shared h then count o + UInt32.ofNat j else UInt32.ofNat j + 1) :
    Counted (insert h S) (update refers h (some o)) (update shared h true)
      (update weight h (weight h + j)) extra (update count o n) frees made := by
  have hrefs : ∀ o', refs (insert h S) (update refers h (some o)) (update weight h (weight h + j)) extra o' =
      refs S refers weight extra o' + if o = o' then j else 0 := fun o' => by
    have := refs_update weight extra (o := o') (show h ∈ S ∨ refers h = none from .inl hS) (some o) (weight h + j)
    unfold of at this
    simp only [hr, some.injEq] at this
    split_ifs at this ⊢ <;> omega
  have hle := le_refs weight extra hS hr
  have hmade : o < made := Nat.lt_of_not_le fun hge => by
    have := hc.fresh o hge
    omega
  have hcount := hc.counted h hS o hr hw
  have hn' : n = UInt32.ofNat (refs S refers weight extra o + j) := by
    cases hs : shared h with
    | false =>
      rw [hs, if_neg Bool.false_ne_true] at hcount hn
      rw [hn, hcount, UInt32.ofNat_add, UInt32.add_comm]
      rfl
    | true =>
      rw [hs, if_pos rfl] at hcount hn
      rw [hn, hcount, UInt32.ofNat_add]
  refine ⟨fun o' ho => ?_, fun o' ho => ?_, fun x hx o' hrx hwx => ?_, fun o' ho => ?_⟩
  · rw [hrefs, hc.fresh o' ho, if_neg (by omega)]
  · rw [hrefs, hc.freed o' ho]
    rcases eq_or_ne o' o with rfl | hne
    · rw [if_neg (by omega), if_neg (by omega)]
    · rw [if_neg hne.symm, add_zero]
  · rw [hrefs]
    rcases eq_or_ne x h with rfl | hneh
    · rw [update_self] at hrx
      cases hrx
      rw [update_self, if_pos rfl, if_pos rfl, update_self, hn']
    · rw [update_of_ne hneh] at hrx hwx ⊢
      have hxS := (mem_insert.mp hx).resolve_left hneh
      have hcx := hc.counted x hxS o' hrx hwx
      rcases eq_or_ne o' o with rfl | hne
      · have hboth := add_le_refs weight extra hS hxS hneh hr hrx
        rw [update_self, if_pos rfl, hn']
        cases hs : shared x with
        | false =>
          rw [hs, if_neg Bool.false_ne_true] at hcx
          omega
        | true => rw [if_pos rfl]
      · rw [update_of_ne hne, if_neg hne.symm]
        exact hcx
  · rw [hrefs]
    rcases eq_or_ne o' o with rfl | hne
    · rw [update_self, if_pos rfl, hn']
    · rw [update_of_ne hne, if_neg hne.symm]
      exact hc.extras o' ho

theorem give [DecidableEq H] (hc : Counted S refers shared weight extra count frees made) (hS : h ∈ S) (hr : refers h = some o)
    (hw : 0 < weight h) (ht : t ∈ S ∨ refers t = none) (hno : refers t = none ∨ weight t = 0) (hne : t ≠ h) {v : ℕ}
    (hv : v ≤ weight h) : Counted (insert t S) (update refers t (some o)) (update shared t (shared h))
      (update (update weight h (weight h - v)) t v) extra count frees made := by
  have hrefs : ∀ o', refs (insert t S) (update refers t (some o))
      (update (update weight h (weight h - v)) t v) extra o' = refs S refers weight extra o' := fun o' =>
    refs_give extra hS hr ht hno hne hv
  refine ⟨fun o' ho => (hrefs o').trans (hc.fresh o' ho), fun o' ho => (hrefs o').symm ▸ hc.freed o' ho,
    fun x hx o' hrx hwx => ?_, fun o' ho => (hrefs o').symm ▸ hc.extras o' ho⟩
  rw [hrefs]
  rcases eq_or_ne x t with rfl | hxt
  · rw [update_self] at hrx
    cases hrx
    rw [update_self]
    exact hc.counted h hS o hr hw
  · rw [update_of_ne hxt] at hrx hwx ⊢
    refine hc.counted x ((mem_insert.mp hx).resolve_left hxt) o' hrx ?_
    rcases eq_or_ne x h with rfl | hxh
    · exact hw
    · rwa [update_of_ne hxh] at hwx

theorem adopt [DecidableEq H] (hc : Counted S refers shared weight extra count frees made) (ht : t ∈ S ∨ refers t = none)
    (hno : refers t = none ∨ weight t = 0) (hlive : 0 < refs S refers weight extra o)
    (hs : ∀ x ∈ S, refers x = some o → shared x = true) {n : UInt32} (hn : n = count o + 1) :
    Counted (insert t S) (update refers t (some o)) (update shared t true) (update weight t 1)
      extra (update count o n) frees made := by
  have hrefs : ∀ o', refs (insert t S) (update refers t (some o)) (update weight t 1) extra o' =
      refs S refers weight extra o' + if o = o' then 1 else 0 := fun o' => by
    have := refs_update weight extra (o := o') ht (some o) 1
    simp only [of_idle hno, some.injEq] at this
    exact this
  have hmade : o < made := Nat.lt_of_not_le fun hge => by
    have := hc.fresh o hge
    omega
  have hcount : count o = UInt32.ofNat (refs S refers weight extra o) := by
    rcases Nat.eq_zero_or_pos (extra o) with hx | hx
    · obtain ⟨x, hxS, hrx, hwx⟩ := total_pos.mp (show 0 < total S refers weight o by unfold refs at hlive; omega)
      have := hc.counted x hxS o hrx hwx
      rwa [hs x hxS hrx] at this
    · exact hc.extras o hx
  have hn' : n = UInt32.ofNat (refs S refers weight extra o + 1) := by
    rw [hn, hcount, UInt32.ofNat_add]
    rfl
  refine ⟨fun o' ho => ?_, fun o' ho => ?_, fun x hx o' hrx hwx => ?_, fun o' ho => ?_⟩
  · rw [hrefs, hc.fresh o' ho, if_neg (by omega)]
  · rw [hrefs, hc.freed o' ho]
    rcases eq_or_ne o' o with rfl | hne
    · rw [if_neg (by omega), if_neg (by omega)]
    · rw [if_neg hne.symm, add_zero]
  · rw [hrefs]
    rcases eq_or_ne x t with rfl | hxt
    · rw [update_self] at hrx
      cases hrx
      rw [update_self, if_pos rfl, if_pos rfl, update_self, hn']
    · rw [update_of_ne hxt] at hrx hwx ⊢
      have hxS := (mem_insert.mp hx).resolve_left hxt
      rcases eq_or_ne o' o with rfl | hne
      · rw [hs x hxS hrx, if_pos rfl, if_pos rfl, update_self, hn']
      · rw [update_of_ne hne, if_neg hne.symm]
        exact hc.counted x hxS o' hrx hwx
  · rw [hrefs]
    rcases eq_or_ne o' o with rfl | hne
    · rw [update_self, if_pos rfl, hn']
    · rw [update_of_ne hne, if_neg hne.symm]
      exact hc.extras o' ho

theorem abandon [DecidableEq H] (hc : Counted S refers shared weight extra count frees made) (hS : h ∈ S) (hr : refers h = some o)
    (hs : shared h = true ∨ weight h = 0) :
    Counted S refers shared (update weight h 0) (update extra o (extra o + weight h)) count frees made := by
  have hrefs : ∀ o', refs S refers (update weight h 0) (update extra o (extra o + weight h)) o' =
      refs S refers weight extra o' := fun o' => refs_abandon extra hS hr
  refine ⟨fun o' ho => (hrefs o').trans (hc.fresh o' ho), fun o' ho => (hrefs o').symm ▸ hc.freed o' ho,
    fun x hx o' hrx hwx => ?_, fun o' ho => ?_⟩
  · rw [hrefs]
    refine hc.counted x hx o' hrx ?_
    rcases eq_or_ne x h with rfl | hne
    · rw [update_self] at hwx
      omega
    · rwa [update_of_ne hne] at hwx
  · rw [hrefs]
    rcases eq_or_ne o' o with rfl | hne
    · rw [update_self] at ho
      rcases Nat.eq_zero_or_pos (weight h) with hw | hw
      · exact hc.extras o' (by omega)
      · have := hc.counted h hS o' hr hw
        rwa [hs.resolve_right (by omega)] at this
    · rw [update_of_ne hne] at ho
      exact hc.extras o' ho

theorem no_extra (hc : Counted S refers shared weight extra count frees made)
    (hc' : Counted S refers shared weight (fun _ => 0) count frees made) (hsmall : extra o < 2 ^ 32) : extra o = 0 := by
  by_contra hpos
  have hrefs : refs S refers weight extra o = refs S refers weight (fun _ => 0) o + extra o := rfl
  have hmade : o < made := Nat.lt_of_not_le fun hge => by
    have := hc.fresh o hge
    omega
  have hfrees := hc.freed o hmade
  rw [if_neg (by omega), hc'.freed o hmade] at hfrees
  have hlive : 0 < total S refers weight o := by
    split_ifs at hfrees with hzero
    exact pos_of_ne_zero fun h => hzero h
  obtain ⟨h, hS, hr, hw⟩ := total_pos.mp hlive
  have hcount := hc.counted h hS o hr hw
  have hcount' := hc'.counted h hS o hr hw
  cases hs : shared h with
  | false =>
    rw [hs, if_neg Bool.false_ne_true] at hcount hcount'
    omega
  | true =>
    rw [hs] at hcount hcount'
    have hmod := congrArg UInt32.toNat (hcount.symm.trans hcount')
    rw [UInt32.toNat_ofNat', UInt32.toNat_ofNat'] at hmod
    omega

end Counted

end Shares
end Zmq
