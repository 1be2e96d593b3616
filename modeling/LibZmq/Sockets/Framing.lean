import LibZmq.Sockets.Intake
import LibZmq.Sockets.RoutingTables

/-! Frames in the order in which pipes deliver them: messages that end, with identities as messages of their own. A fair
queue over such pipes goes on with the message it has begun. -/

namespace Zmq

open List Bool

open Function (update update_of_ne update_self)

/-- Frames that end where a message ends; an identity is a message of its own. -/
structure Framed (frames : List Msg) : Prop where
  whole : Whole frames
  chain : frames.IsChain fun x y => x.hasMore = true → y.isIdentity = false
  single : ∀ m ∈ frames, m.isIdentity = true → m.hasMore = false

instance (frames : List Msg) : Decidable (Framed frames) :=
  decidable_of_iff (Whole frames ∧ (frames.IsChain fun x y => x.hasMore = true → y.isIdentity = false) ∧
      ∀ m ∈ frames, m.isIdentity = true → m.hasMore = false)
    ⟨fun ⟨h1, h2, h3⟩ => ⟨h1, h2, h3⟩, fun ⟨h1, h2, h3⟩ => ⟨h1, h2, h3⟩⟩

namespace Framed

variable {m : Msg} {rest l l' : List Msg}

theorem nil : Framed [] := ⟨fun _ hm => absurd hm (by simp), isChain_nil, nofun⟩

theorem tail (h : Framed (m :: rest)) : Framed rest := by
  refine ⟨fun x hx => h.whole x ?_, h.chain.tail, fun x hx => h.single x (mem_cons_of_mem m hx)⟩
  cases rest with
  | nil => exact absurd hx (by simp)
  | cons y rest => rwa [getLast?_cons_cons]

theorem next (h : Framed (m :: rest)) (hm : m.hasMore = true) : ∃ x xs, rest = x :: xs ∧ x.isIdentity = false := by
  cases rest with
  | nil => exact nomatch hm.symm.trans (h.whole m rfl)
  | cons x xs => exact ⟨x, xs, rfl, (isChain_cons_cons.mp h.chain).1 hm⟩

theorem append (h : Framed l) (h' : Framed l') : Framed (l ++ l') := by
  refine ⟨FairQueue.whole_append h.whole h'.whole, isChain_append.mpr ⟨h.chain, h'.chain, ?_⟩, fun m hm => ?_⟩
  · intro x hx y _ hm
    exact nomatch hm.symm.trans (h.whole x hx)
  · exact (mem_append.mp hm).elim (h.single m) (h'.single m)

end Framed

namespace FqT

variable {P : Type} [DecidableEq P] {fq fq' : FqT P} {inlets inlets' : P → Inlet} {p q : P} {m : Msg}

theorem skips_kept {r r' : Rota P} {w w' : P → Inlet} (hs : Rota.Skips Kept r w r' w') (q : P) :
    (w' q).pending = (w q).pending := by
  induction hs with
  | done => rfl
  | skip _ hi _ ih => exact ih.trans (FairQueue.update_pending hi.1 q)

structure Supplied (fq : FqT P) (inlets : P → Inlet) (outlets : P → Outlet) : Prop where
  wf : fq.Wf
  framed : ∀ p, Framed (inlets p).pending
  next : fq.more = true → ∃ p m rest, fq.IsCurrent p ∧ (inlets p).inActive = true ∧ (inlets p).pending = m :: rest ∧
    m.isIdentity = false
  listening : ∀ p, fq.IsActive p → (inlets p).inActive = true ∨ (outlets p).self.readable = false

structure Taken (fq : FqT P) (inlets : P → Inlet) (p : P) (m : Msg) (fq' : FqT P) (inlets' : P → Inlet) : Prop where
  more : fq'.more = m.hasMore
  begun : fq.more = true → m.isIdentity = false ∧ fq.IsCurrent p
  goesOn : m.hasMore = true → fq'.IsCurrent p
  frame : (inlets p).pending = m :: (inlets' p).pending

variable {outlets outlets' : P → Outlet}

omit [DecidableEq P] in
theorem fetched_more : (fq.fetched m).more = m.hasMore := by
  unfold fetched
  split_ifs with hm
  · exact hm.symm
  · exact (eq_false_of_not_eq_true hm).symm

theorem fetched_current (hm : m.hasMore = true) : (fq.fetched m).IsCurrent p ↔ fq.IsCurrent p := by
  unfold fetched
  rw [if_pos hm]

theorem Supplied.recvpipe (h : Supplied fq inlets outlets) :
    ∃ got fq' inlets', fq.recvpipe inlets = .ok (got, fq', inlets') ∧ Supplied fq' inlets' outlets ∧
      (∀ q, q ∈ fq'.pipes ↔ q ∈ fq.pipes) ∧ (∀ q, (inlets' q).pending <:+ (inlets q).pending) ∧
      match got with
      | none => fq.more = false ∧ fq'.more = false ∧ fq'.active = 0
      | some (p, m) => Taken fq inlets p m fq' inlets' := by
  have hnext : fq.more = true → ∃ p, fq.IsCurrent p ∧ ((inlets p).read.1).isSome = true := by
    intro hm
    obtain ⟨p, m, rest, hc, ha, hp, -⟩ := h.next hm
    exact ⟨p, hc, Inlet.read_isSome ha (by rw [hp]; exact cons_ne_nil m rest)⟩
  obtain ⟨r, inlets', hs, hsame, hx⟩ := recvLoop_goes h.wf rfl hnext
  have hkept := skips_kept hs
  have hframed : ∀ q, Framed (inlets' q).pending := fun q => by
    rw [hkept]
    exact h.framed q
  have hlistening : ∀ {got fq1 w}, fq.recvpipe inlets = .ok (got, fq1, w) → fq1.Wf ∧ (∀ q, q ∈ fq1.pipes ↔ q ∈ fq.pipes) ∧
      ∀ q, fq1.IsActive q → (w q).inActive = true ∨ (outlets q).self.readable = false := by
    intro got fq1 w hx
    have hr := RouterT.recvLoop_rests h.wf rfl hx
    refine ⟨hr.wf, hr.mem, fun q hq => ?_⟩
    obtain ⟨hq, hw⟩ := hr.active q hq
    rcases hw with hw | hw
    · rw [hw]
      exact h.listening q hq
    · exact .inl hw
  rcases hx with hx | ⟨p, m, i, hc, hr, hx⟩
  · have hm : fq.more = false := by
      by_contra hm
      obtain ⟨p, hc, hsome⟩ := hnext (eq_true_of_not_eq_false hm)
      obtain ⟨m, hread⟩ := Option.isSome_iff_exists.mp hsome
      have hcur := recvpipe_current hc (Prod.ext hread rfl : (inlets p).read = (some m, _))
      have hnone := (ok_pair (hx.symm.trans hcur)).1
      exact Option.some_ne_none _ hnone.symm
    obtain ⟨hwf, hmem, hl⟩ := hlistening hx
    exact ⟨_, _, _, hx, ⟨hwf, hframed, fun hc => (nomatch hm.symm.trans hc), hl⟩, hmem,
      fun q => hkept q ▸ suffix_rfl, hm, hm, (recvLoop_held rfl hx).1 rfl⟩
  · obtain ⟨hwf, hmem, hl⟩ := hlistening hx
    obtain ⟨hpending, hactive⟩ := Inlet.read_some hr
    have hf := hframed p
    rw [hpending] at hf
    refine ⟨_, _, _, hx, ⟨hwf, fun q => ?_, fun hm => ?_, hl⟩, hmem, fun q => ?_, fetched_more, fun hm => ?_, fun hm => ?_, ?_⟩
    · rcases eq_or_ne q p with rfl | hne
      · rw [update_self]
        exact hf.tail
      · rw [update_of_ne hne]
        exact hframed q
    · rw [fetched_more] at hm
      obtain ⟨x, xs, hrest, hx⟩ := hf.next hm
      refine ⟨p, x, xs, (fetched_current hm).mpr hc, ?_, ?_, hx⟩
      · rw [update_self]
        exact hactive
      · rw [update_self]
        exact hrest
    · rw [← hkept q]
      rcases eq_or_ne q p with rfl | hne
      · rw [update_self, hpending]
        exact suffix_cons m _
      · have he := congrArg Inlet.pending (update_of_ne hne i inlets')
        exact he ▸ suffix_rfl
    · obtain ⟨rfl, rfl⟩ := hsame hm
      obtain ⟨p', m', rest, hc', -, hp', hid⟩ := h.next hm
      obtain rfl := hc.unique hc'
      rw [hpending] at hp'
      rw [(cons.inj hp').1]
      exact ⟨hid, hc⟩
    · exact (fetched_current hm).mpr hc
    · rw [update_self, ← hkept, hpending]

theorem not_active_new {q : P} : ¬ (new : FqT P).IsActive q := fun h => absurd h.1 not_mem_nil

theorem new_supplied : Supplied (new : FqT P) (fun _ => ⟨false, []⟩) outlets :=
  ⟨Rota.empty_wf, fun _ => .nil, nofun, fun _ hq => absurd hq not_active_new⟩

theorem Supplied.attach (h : Supplied fq inlets outlets) (hp : p ∉ fq.pipes)
    (hl : (inlets p).inActive = true ∨ (outlets p).self.readable = false) : Supplied (fq.attach p) inlets outlets := by
  have hfq := attach_toRota hp
  refine ⟨?_, h.framed, fun hm => ?_, fun q hq => ?_⟩
  · rw [hfq]
    exact Rota.attach_wf h.wf hp
  · obtain ⟨q, m, rest, hc, hq⟩ := h.next hm
    refine ⟨q, m, rest, ?_, hq⟩
    rw [hfq]
    exact Rota.attach_isCurrent h.wf hp hc
  · rw [hfq] at hq
    rcases (Rota.attach_isActive h.wf hp).mp hq with hq | rfl
    · exact h.listening q hq
    · exact hl

def Leaves (fq : FqT P) (p : P) : Prop :=
  fq.more = true → ¬ fq.IsCurrent p ∧ ¬ (0 < fq.pipes.index p ∧ fq.pipes.index p < fq.current ∧ fq.current + 1 = fq.active)

instance (fq : FqT P) (p : P) : Decidable (fq.IsCurrent p) := by
  unfold Rota.IsCurrent Rota.IsActive
  infer_instance

instance (fq : FqT P) (p : P) : Decidable (fq.Leaves p) := by
  unfold Leaves
  infer_instance

theorem Supplied.pipeTerminated (h : Supplied fq inlets outlets) (hp : p ∈ fq.pipes) (hl : fq.Leaves p) :
    Supplied (fq.pipeTerminated p) inlets outlets := by
  refine ⟨Rota.pipeTerminated_wf h.wf hp, h.framed, fun hm => ?_, fun q hq => ?_⟩
  · obtain ⟨q, m, rest, hc, hq⟩ := h.next hm
    obtain ⟨hn, hk⟩ := hl hm
    refine ⟨q, m, rest, Rota.pipeTerminated_isCurrent h.wf hp hc ?_ hk, hq⟩
    rintro rfl
    exact hn hc
  · exact h.listening q ((Rota.pipeTerminated_isActive h.wf hp).mp hq).1

theorem Supplied.set {i : Inlet} (h : Supplied fq inlets outlets) (hf : Framed i.pending)
    (hn : fq.more = true → ¬ fq.IsCurrent p) (ho : ∀ q, q ≠ p → outlets' q = outlets q)
    (hl : fq.IsActive p → i.inActive = true ∨ (outlets' p).self.readable = false) : Supplied fq (update inlets p i) outlets' := by
  refine ⟨h.wf, fun q => ?_, fun hm => ?_, fun q hq => ?_⟩
  · rcases eq_or_ne q p with rfl | hne
    · rwa [update_self]
    · rw [update_of_ne hne]
      exact h.framed q
  · obtain ⟨q, m, rest, hc, hq⟩ := h.next hm
    refine ⟨q, m, rest, hc, ?_⟩
    rw [update_of_ne]
    · exact hq
    · rintro rfl
      exact hn hm hc
  · rcases eq_or_ne q p with rfl | hne
    · rw [update_self]
      exact hl hq
    · rw [update_of_ne hne, ho q hne]
      exact h.listening q hq

theorem Supplied.grow {frames : List Msg} {active : Bool} (h : Supplied fq inlets outlets)
    (hf : Framed (frames.filter fun m => !m.isCredential)) (ha : (inlets p).inActive = true → active = true) :
    Supplied fq (update inlets p ⟨active, (inlets p).frames ++ frames⟩) outlets := by
  have hpending : Inlet.pending ⟨active, (inlets p).frames ++ frames⟩ =
      (inlets p).pending ++ frames.filter fun m => !m.isCredential := filter_append ..
  refine ⟨h.wf, fun q => ?_, fun hm => ?_, fun q hq => ?_⟩
  · rcases eq_or_ne q p with rfl | hne
    · rw [update_self, hpending]
      exact (h.framed q).append hf
    · rw [update_of_ne hne]
      exact h.framed q
  · obtain ⟨q, m, rest, hc, hactive, hq, hid⟩ := h.next hm
    rcases eq_or_ne q p with rfl | hne
    · refine ⟨q, m, rest ++ frames.filter fun m => !m.isCredential, hc, ?_, ?_, hid⟩
      · rw [update_self]
        exact ha hactive
      · rw [update_self, hpending, hq]
        rfl
    · refine ⟨q, m, rest, hc, ?_⟩
      rw [update_of_ne hne]
      exact ⟨hactive, hq, hid⟩
  · rcases eq_or_ne q p with rfl | hne
    · rw [update_self]
      exact (h.listening q hq).imp_left ha
    · rw [update_of_ne hne]
      exact h.listening q hq

theorem Supplied.activated (h : Supplied fq inlets outlets) (hp : p ∈ fq.pipes) (hi : (inlets p).inActive = false)
    (hr : (outlets p).self.readable = true) : fq.active < fq.pipes.size ∧
      Supplied (fq.activated p) (update inlets p ⟨true, (inlets p).frames⟩) outlets := by
  have hn : ¬ fq.IsActive p := fun hc => (h.listening p hc).elim (fun hc => false_ne_true (hi.symm.trans hc))
    fun hc => false_ne_true (hc.symm.trans hr)
  have hlt := Rota.inactive_lt hp hn
  have hset : Supplied fq (update inlets p ⟨true, (inlets p).frames⟩) outlets :=
    h.set (h.framed p) (fun _ hc => hn hc.1) (fun _ _ => rfl) fun _ => .inl rfl
  refine ⟨hlt, Rota.activated_wf h.wf hlt, hset.framed, fun hm => ?_, fun q hq => ?_⟩
  · obtain ⟨q, m, rest, hc, hq⟩ := hset.next hm
    refine ⟨q, m, rest, Rota.activated_isCurrent hp hlt ?_ hc, hq⟩
    rintro rfl
    exact hn hc.1
  · rcases (Rota.activated_isActive hp hn).mp hq with hq | rfl
    · exact hset.listening q hq
    · exact .inl (by rw [update_self])

end FqT

namespace Outlet

variable {o : Outlet} {m : Msg}

theorem checkWrite_state : o.checkWrite.2.self.state = o.self.state := refuse_state

end Outlet

namespace Ends

variable {P : Type} [DecidableEq P] {fq : FqT P} {e e1 e' : Ends P} {p : P} {delay : Bool} {o : Outlet}

omit [DecidableEq P] in
structure Cuts (e e' : Ends P) : Prop where
  inlets : ∀ q, e'.inlets q = e.inlets q ∨ e'.inlets q = ⟨false, []⟩ ∧ (e'.outlets q).self.readable = false
  closed : ∀ q, (e.outlets q).self.readable = false → (e'.outlets q).self.readable = false

theorem Cuts.setOutlet (hr : (e.outlets p).self.readable = false → o.self.readable = false) : Cuts e (e.setOutlet p o) := by
  refine ⟨fun q => .inl rfl, fun q hq => ?_⟩
  rcases eq_or_ne q p with rfl | hne
  · rw [show (e.setOutlet q o).outlets q = o from update_self _ _ _]
    exact hr hq
  · rwa [show (e.setOutlet p o).outlets q = e.outlets q from update_of_ne hne _ _]

theorem Cuts.close (hr : o.self.readable = false) : Cuts e ((e.setInlet p ⟨false, []⟩).setOutlet p o) := by
  refine ⟨fun q => ?_, fun q hq => ?_⟩
  · rcases eq_or_ne q p with rfl | hne
    · rw [show ((e.setInlet q ⟨false, []⟩).setOutlet q o).outlets q = o from update_self _ _ _]
      exact .inr ⟨update_self _ _ _, hr⟩
    · exact .inl (update_of_ne hne _ _)
  · rcases eq_or_ne q p with rfl | hne
    · rwa [show ((e.setInlet q ⟨false, []⟩).setOutlet q o).outlets q = o from update_self _ _ _]
    · rwa [show ((e.setInlet p ⟨false, []⟩).setOutlet p o).outlets q = e.outlets q from update_of_ne hne _ _]

theorem Cuts.terminate (e : Ends P) (p : P) (delay : Bool) : Cuts e (e.terminate p delay) := by
  by_cases hr : ((e.outlets p).terminate delay).self.readable = true
  · have he : e.terminate p delay = e.setOutlet p ((e.outlets p).terminate delay) := by
      unfold Ends.terminate
      rw [if_pos hr]
      rfl
    rw [he]
    exact .setOutlet Outlet.terminate_readable
  · have he : e.terminate p delay = (e.setInlet p ⟨false, []⟩).setOutlet p ((e.outlets p).terminate delay) := by
      unfold Ends.terminate
      rw [if_neg hr]
      rfl
    rw [he]
    exact .close (eq_false_of_not_eq_true hr)

end Ends

theorem FqT.Supplied.cuts {P : Type} [DecidableEq P] {fq : FqT P} {e e' : Ends P} (h : fq.Supplied e.inlets e.outlets)
    (hc : Ends.Cuts e e') (hn : fq.more = true → ∀ p, fq.IsCurrent p → e'.inlets p = e.inlets p) :
    fq.Supplied e'.inlets e'.outlets := by
  refine ⟨h.wf, fun p => ?_, fun hm => ?_, fun p hp => ?_⟩
  · rcases hc.inlets p with hi | ⟨hi, -⟩
    · rw [hi]
      exact h.framed p
    · rw [hi]
      exact .nil
  · obtain ⟨p, m, rest, hcur, hp⟩ := h.next hm
    refine ⟨p, m, rest, hcur, ?_⟩
    rw [hn hm p hcur]
    exact hp
  · rcases hc.inlets p with hi | ⟨-, hr⟩
    · rw [hi]
      exact (h.listening p hp).imp_right (hc.closed p)
    · exact .inr hr

end Zmq
