import Mathlib.Tactic

/-! Parsing a stream in parts whose length is known before they are read. What is parsed
does not depend on the pieces in which the stream arrives, and frames of which each is
parsed on its own are parsed one after the other. -/

namespace Zmq

open List

universe u v w x

/-- The part that is being read, how long it is, and what of it has arrived. -/
structure Part (κ : Type u) (β : Type v) where
  label : κ
  need : ℕ
  got : List β

/-- What a part that is complete leads to. -/
inductive Outcome (κ : Type u) (ο : Type w) (ε : Type x) where
  | fail (e : ε)
  | emit (o : ο) (label : κ) (need : ℕ)
  | go (label : κ) (need : ℕ)

namespace Part

variable {κ : Type u} {β : Type v} {ο : Type w} {ε : Type x}

def start (label : κ) (need : ℕ) : Part κ β := ⟨label, need, []⟩

def step (act : κ → List β → Outcome κ ο ε) (p : Part κ β) (b : β) : Except ε (Option ο × Part κ β) :=
  let got := p.got ++ [b]
  if got.length < p.need then .ok (none, { p with got := got })
  else match act p.label got with
    | .fail e => .error e
    | .emit o label need => .ok (some o, start label need)
    | .go label need => .ok (none, start label need)

/-- A piece of the stream: what is parsed, and the part or the error after it. -/
def feed (act : κ → List β → Outcome κ ο ε) : Part κ β → List β → List ο × Except ε (Part κ β)
  | p, [] => ([], .ok p)
  | p, b :: bs =>
    match p.step act b with
    | .error e => ([], .error e)
    | .ok (o, p') => (o.toList ++ (feed act p' bs).1, (feed act p' bs).2)

/-- The parts that begin within a piece of the stream are as `Q` says, which is told how
many elements were read before. -/
def Along (act : κ → List β → Outcome κ ο ε) (Q : ℕ → κ → ℕ → Prop) : ℕ → Part κ β → List β → Prop
  | _, _, [] => True
  | j, p, b :: bs =>
    match p.step act b with
    | .error _ => True
    | .ok (_, p') => (p'.got = [] → Q (j + 1) p'.label p'.need) ∧ Along act Q (j + 1) p' bs

variable {act : κ → List β → Outcome κ ο ε} {p : Part κ β} {bs cs : List β} {Q : ℕ → κ → ℕ → Prop} {j : ℕ} {p' : Part κ β} {label : κ}
    {need : ℕ} {R : κ → ℕ → Prop} {μ : Type*} {frame : μ → List β} {read : μ → ο} {ms : List μ}

@[simp] theorem feed_nil : p.feed act [] = ([], .ok p) := rfl

theorem feed_append : p.feed act (bs ++ cs) =
    match (p.feed act bs).2 with
    | .error e => ((p.feed act bs).1, .error e)
    | .ok p' => ((p.feed act bs).1 ++ (p'.feed act cs).1, (p'.feed act cs).2) := by
  induction bs generalizing p with
  | nil => rfl
  | cons b bs ih =>
    rw [cons_append]
    cases hs : p.step act b with
    | error e => simp only [feed, hs]
    | ok x =>
      obtain ⟨o, p'⟩ := x
      simp only [feed, hs, ih]
      cases (p'.feed act bs).2 <;> simp

theorem feed_append_ok (h : (p.feed act bs).2 = .ok p') :
    p.feed act (bs ++ cs) = ((p.feed act bs).1 ++ (p'.feed act cs).1, (p'.feed act cs).2) := by
  rw [feed_append, h]

theorem along_append (h : (p.feed act bs).2 = .ok p') :
    p.Along act Q j (bs ++ cs) ↔ p.Along act Q j bs ∧ p'.Along act Q (j + bs.length) cs := by
  induction bs generalizing p j with
  | nil =>
    cases h
    simp [Along]
  | cons b bs ih =>
    rw [cons_append]
    cases hs : p.step act b with
    | error e => simp [feed, hs] at h
    | ok x =>
      obtain ⟨o, p1⟩ := x
      simp only [feed, hs] at h
      simp only [Along, hs, ih h, length_cons, and_assoc,
        show j + 1 + bs.length = j + (bs.length + 1) by omega]

theorem along_left (h : p.Along act Q j (bs ++ cs)) : p.Along act Q j bs := by
  induction bs generalizing p j with
  | nil => trivial
  | cons b bs ih =>
    rw [cons_append] at h
    cases hs : p.step act b with
    | error e => simp [Along, hs]
    | ok x =>
      simp only [Along, hs] at h ⊢
      exact ⟨h.1, ih h.2⟩

theorem along_error {e : ε} (hfeed : (p.feed act bs).2 = .error e) (h : p.Along act Q j bs) : p.Along act Q j (bs ++ cs) := by
  induction bs generalizing p j with
  | nil => cases hfeed
  | cons b bs ih =>
    rw [cons_append]
    cases hs : p.step act b with
    | error e' => simp [Along, hs]
    | ok x =>
      simp only [feed, Along, hs] at hfeed h ⊢
      exact ⟨h.1, ih hfeed h.2⟩

theorem along_mono {R : ℕ → κ → ℕ → Prop} {i : ℕ} (hQ : ∀ k label need, Q (j + k) label need → R (i + k) label need)
    (h : p.Along act Q j bs) : p.Along act R i bs := by
  induction bs generalizing p i j with
  | nil => trivial
  | cons b bs ih =>
    cases hs : p.step act b with
    | error e => simp [Along, hs]
    | ok x =>
      simp only [Along, hs] at h ⊢
      refine ⟨fun hgot => hQ 1 _ _ (h.1 hgot), ih (fun k label need hk => ?_) h.2⟩
      rw [Nat.add_assoc] at hk ⊢
      exact hQ _ _ _ hk

theorem feed_short (h : p.got.length + bs.length < p.need) : p.feed act bs = ([], .ok { p with got := p.got ++ bs }) := by
  induction bs generalizing p with
  | nil => simp
  | cons b bs ih =>
    rw [length_cons] at h
    have hs : p.step act b = .ok (none, { p with got := p.got ++ [b] }) := by
      rw [step, if_pos]
      simp only [length_append, length_singleton]
      omega
    simp only [feed, hs]
    rw [ih]
    · simp
    · simp only [length_append, length_singleton]
      omega

theorem step_last (act : κ → List β → Outcome κ ο ε) {b : β} (h : p.got.length + 1 = p.need) : p.step act b =
    match act p.label (p.got ++ [b]) with
    | .fail e => .error e
    | .emit o label need => .ok (some o, start label need)
    | .go label need => .ok (none, start label need) := by
  rw [step, if_neg]
  rw [length_append, length_singleton]
  omega

theorem feed_full (act : κ → List β → Outcome κ ο ε) (h : p.got.length + bs.length = p.need) (hbs : bs ≠ []) :
    p.feed act bs = match act p.label (p.got ++ bs) with
      | .fail e => ([], .error e)
      | .emit o label need => ([o], .ok (start label need))
      | .go label need => ([], .ok (start label need)) := by
  obtain ⟨as, b, rfl⟩ : ∃ as b, bs = as ++ [b] :=
    ⟨bs.dropLast, bs.getLast hbs, (dropLast_append_getLast hbs).symm⟩
  rw [length_append, length_singleton] at h
  rw [feed_append, feed_short (by omega)]
  have hs := step_last act (p := { p with got := p.got ++ as }) (b := b) (by
    simp only [length_append]
    omega)
  simp only [append_assoc] at hs
  simp only [feed, hs]
  cases act p.label (p.got ++ (as ++ [b])) <;> rfl

theorem along_go (h : p.got.length + bs.length = p.need) (hbs : bs ≠ [])
    (hgo : act p.label (p.got ++ bs) = .go label need) (ha : p.Along act Q j bs) : Q (j + bs.length) label need := by
  obtain ⟨as, b, rfl⟩ : ∃ as b, bs = as ++ [b] :=
    ⟨bs.dropLast, bs.getLast hbs, (dropLast_append_getLast hbs).symm⟩
  rw [length_append, length_singleton] at h
  have hs := step_last act (p := { p with got := p.got ++ as }) (b := b) (by
    simp only [length_append]
    omega)
  simp only [append_assoc, hgo] at hs
  have hlast := ((along_append (by rw [feed_short (by omega)])).mp ha).2
  simp only [Along, hs] at hlast
  rw [length_append, ]
  exact hlast.1 rfl

theorem along_full (h : p.got.length + bs.length = p.need) (hQ : ∀ label need,
    (act p.label (p.got ++ bs) = .go label need ∨ ∃ o, act p.label (p.got ++ bs) = .emit o label need) →
      Q (j + bs.length) label need) : p.Along act Q j bs := by
  induction bs generalizing p j with
  | nil => trivial
  | cons b bs ih =>
    by_cases hbs : bs = []
    · subst hbs
      have hs := step_last act (p := p) (b := b) h
      cases hact : act p.label (p.got ++ [b]) with
      | fail e =>
        rw [hact] at hs
        simp [Along, hs]
      | emit o label need =>
        rw [hact] at hs
        simp only [Along, hs]
        exact ⟨fun _ => hQ label need (Or.inr ⟨o, hact⟩), trivial⟩
      | go label need =>
        rw [hact] at hs
        simp only [Along, hs]
        exact ⟨fun _ => hQ label need (Or.inl hact), trivial⟩
    · have hpos := length_pos_iff.mpr hbs
      rw [length_cons] at h
      have hs : p.step act b = .ok (none, { p with got := p.got ++ [b] }) := by
        rw [step, if_pos]
        rw [length_append, length_singleton]
        omega
      simp only [Along, hs]
      refine ⟨fun hx => absurd hx (by simp), ih ?_ fun label need hx => ?_⟩
      · dsimp only
        rw [length_append, length_singleton]
        omega
      · have := hQ label need (by rwa [append_assoc] at hx)
        rwa [length_cons, Nat.add_comm bs.length, ← Nat.add_assoc] at this

def Meets (act : κ → List β → Outcome κ ο ε) (R : κ → ℕ → Prop) (p : Part κ β) (bs : List β) : Prop :=
  ∃ as cs label need, bs = as ++ cs ∧ as ≠ [] ∧ (p.feed act as).2 = .ok (start label need) ∧ R label need

theorem Meets.left (h : p.Meets act R bs) (cs : List β) : p.Meets act R (bs ++ cs) := by
  obtain ⟨as, ds, label, need, rfl, has, hfeed, hR⟩ := h
  exact ⟨as, ds ++ cs, label, need, append_assoc .., has, hfeed, hR⟩

theorem Meets.after (hfeed : (p.feed act bs).2 = .ok p') (h : p'.Meets act R cs) : p.Meets act R (bs ++ cs) := by
  obtain ⟨as, ds, label, need, rfl, has, hfeed', hR⟩ := h
  refine ⟨bs ++ as, ds, label, need, (append_assoc ..).symm, append_ne_nil_of_right_ne_nil bs has, ?_, hR⟩
  rw [feed_append_ok hfeed, hfeed']

theorem meets_full (h : p.got.length + bs.length = p.need) (hbs : bs ≠ [])
    (hgo : act p.label (p.got ++ bs) = .go label need) (hR : R label need) : p.Meets act R bs := by
  have hfeed := feed_full act h hbs
  rw [hgo] at hfeed
  exact ⟨bs, [], label, need, (append_nil bs).symm, hbs, by rw [hfeed], hR⟩

theorem along_last (h : p.Along act Q j bs) (hbs : bs ≠ []) (hfeed : (p.feed act bs).2 = .ok p')
    (hgot : p'.got = []) : Q (j + bs.length) p'.label p'.need := by
  induction bs generalizing p j with
  | nil => exact absurd rfl hbs
  | cons b bs ih =>
    cases hs : p.step act b with
    | error e => simp [feed, hs] at hfeed
    | ok x =>
      simp only [feed, Along, hs] at hfeed h
      by_cases hlast : bs = []
      · subst hlast
        cases hfeed
        exact h.1 hgot
      · rw [length_cons, Nat.add_comm bs.length, ← Nat.add_assoc]
        exact ih h.2 hlast hfeed

theorem not_meets (h : p.Along act (fun _ label need => ¬ R label need) 0 bs) : ¬ p.Meets act R bs := by
  rintro ⟨as, cs, label, need, rfl, has, hfeed, hR⟩
  exact along_last (along_left h) has hfeed rfl hR

theorem feed_frames (h : ∀ m ∈ ms, p.feed act (frame m) = ([read m], .ok p)) :
    p.feed act (ms.flatMap frame) = (ms.map read, .ok p) := by
  induction ms with
  | nil => rfl
  | cons m ms ih =>
    have hm := h m mem_cons_self
    rw [flatMap_cons, feed_append_ok (by rw [hm]), hm, ih fun m' hm' => h m' (mem_cons_of_mem _ hm')]
    rfl

theorem along_frames (h : ∀ m ∈ ms, p.feed act (frame m) = ([read m], .ok p))
    (hQ : ∀ m ∈ ms, ∀ j, p.Along act Q j (frame m)) (j : ℕ) : p.Along act Q j (ms.flatMap frame) := by
  induction ms generalizing j with
  | nil => trivial
  | cons m ms ih =>
    rw [flatMap_cons, along_append (by rw [h m mem_cons_self])]
    exact ⟨hQ m mem_cons_self j, ih (fun m' hm' => h m' (mem_cons_of_mem _ hm'))
      (fun m' hm' => hQ m' (mem_cons_of_mem _ hm')) _⟩

theorem feed_prefix (act : κ → List β → Outcome κ ο ε) (p : Part κ β) (bs cs : List β) :
    (p.feed act bs).1 <+: (p.feed act (bs ++ cs)).1 := by
  rw [feed_append]
  cases (p.feed act bs).2 with
  | error e => exact prefix_refl _
  | ok p' => exact prefix_append _ _

theorem feed_ok_of_append (h : (p.feed act (bs ++ cs)).2 = .ok p') :
    ∃ p1, (p.feed act bs).2 = .ok p1 ∧ (p1.feed act cs).2 = .ok p' := by
  rw [feed_append] at h
  cases hbs : (p.feed act bs).2 with
  | error e =>
    rw [hbs] at h
    cases h
  | ok p1 =>
    rw [hbs] at h
    exact ⟨p1, rfl, h⟩

end Part

end Zmq
