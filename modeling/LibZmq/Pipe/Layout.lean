import LibZmq.Pipe.Handshake

/-! The heap under a link. Each ypipe is on exactly one of the two chains of
addresses that lead from an end's `outpipe` through the hiccups in flight to its
peer's `inpipe`; from this no step follows a bad pointer, and each one is a move
of the link. -/

namespace Zmq

open List Option

open Function (update)

namespace Heap

/-- What the ypipe at an address holds. -/
def view (h : Heap) (a : ℕ) : Staged Msg := (h.cells a).elim Staged.empty Upipe.view

theorem view_set (h : Heap) (a b : ℕ) (q : Upipe) : (h.set (some a) q).view b = if b = a then q.view else h.view b := by
  unfold view set
  by_cases hb : b = a
  · subst hb
    simp
  · simp [hb]

variable {h : Heap} {c : List ℕ} {a : ℕ}

theorem view_delete {a b : ℕ} (hb : b ≠ a) : (h.delete (some a)).view b = h.view b := by
  simp [view, delete, hb]

theorem view_alloc {b : ℕ} (hb : b ≠ h.next) : h.alloc.view b = h.view b := by
  simp [view, alloc, hb]

theorem view_alloc_next (h : Heap) : h.alloc.view h.next = Staged.empty := by
  simp [view, alloc]

theorem map_set_ne (ha : a ∉ c) (q : Upipe) : c.map (h.set (some a) q).view = c.map h.view := by
  apply map_congr_left
  intro b hb
  have hne : b ≠ a := fun e => ha (e ▸ hb)
  rw [view_set, if_neg hne]

theorem map_set_head (hc : (a :: c).Nodup) (q : Upipe) : (a :: c).map (h.set (some a) q).view = q.view :: c.map h.view := by
  rw [map_cons, map_set_ne (nodup_cons.mp hc).1, view_set, if_pos rfl]

theorem map_set_last (ha : c.getLast? = some a) (hc : c.Nodup) (q : Upipe) :
    c.map (h.set (some a) q).view = (c.map h.view).dropLast ++ [q.view] := by
  obtain ⟨d, rfl⟩ := getLast?_eq_some_iff.mp ha
  have hd : a ∉ d := fun hm => (nodup_append.mp hc).2.2 a hm a (by simp) rfl
  rw [map_append, map_set_ne hd]
  simp [view_set]

theorem map_delete (ha : a ∉ c) : c.map (h.delete (some a)).view = c.map h.view := by
  apply map_congr_left
  intro b hb
  exact view_delete fun e => ha (e ▸ hb)

theorem map_alloc (hc : ∀ a ∈ c, a < h.next) : c.map h.alloc.view = c.map h.view := by
  apply map_congr_left
  intro b hb
  exact view_alloc (Nat.ne_of_lt (hc b hb))

end Heap

namespace Pair

open Link

def reroute (s : Side) (chain : Side → List ℕ) (next : ℕ) : Change → Side → List ℕ
  | .keep | .inbound _ | .outbound _ => chain
  | .fresh => update chain s.peer (chain s.peer ++ [next])
  | .adopt => update chain s (chain s).tail
  | .release => update chain s.peer []

structure Placed (h : Heap) (chain : Side → List ℕ) : Prop where
  live : ∀ s, ∀ a ∈ chain s, h.cells a ≠ none
  bound : ∀ s, ∀ a ∈ chain s, a < h.next
  distinct : ∀ s, (chain s ++ chain s.peer).Nodup

theorem Placed.nodup {h : Heap} {chain : Side → List ℕ} (H : Placed h chain) (s : Side) :
    (chain s).Nodup := (nodup_append.mp (H.distinct s)).1

theorem Placed.apart {h : Heap} {chain : Side → List ℕ} (H : Placed h chain) {s : Side} {a : ℕ}
    (ha : a ∈ chain s) : a ∉ chain s.peer := fun hb =>
  (nodup_append.mp (H.distinct s)).2.2 a ha a hb rfl

structure Anchored (p : PipeT) (s : Side) (chain : Side → List ℕ) (c : Change) : Prop where
  inpipe : (chain s.peer).getLast? = p.inpipe
  outpipe : p.outpipe ≠ none → (chain s).head? = p.outpipe
  writes : ∀ q, c = .outbound q → p.outpipe ≠ none
  adopts : c = .adopt → p.outpipe ≠ none
  releases : c = .release → ∃ a, chain s.peer = [a]
  live : p.inpipe ≠ none

section
variable {p : PipeT} {s : Side} {h h' : Heap} {chain : Side → List ℕ} {c : Change} {q : Upipe} {a : ℕ}

theorem both_sides {α : Type} {f g : Side → α} (s : Side) (h1 : f s = g s) (h2 : f s.peer = g s.peer) : f = g := by
  funext t
  rcases s.eq_or_eq_peer t with rfl | rfl
  · exact h1
  · exact h2

theorem Anchored.head (hA : Anchored p s chain c) (ho : p.outpipe ≠ none) :
    ∃ o rest, p.outpipe = some o ∧ chain s = o :: rest := by
  obtain ⟨o, ho'⟩ := ne_none_iff_exists'.mp ho
  have hh := ho' ▸ hA.outpipe ho
  cases hc : chain s with
  | nil => simp [hc] at hh
  | cons b rest =>
    simp only [hc, head?_cons, some.injEq] at hh
    exact ⟨o, rest, ho', by rw [hh]⟩

theorem applied_views (H : Placed h chain) (hA : Anchored p s chain c) (ha : Applied p h c h') :
    (fun t => (reroute s chain h.next c t).map h'.view) = shift s (fun t => (chain t).map h.view) c := by
  obtain ⟨i, hi⟩ := ne_none_iff_exists'.mp hA.live
  have hlast := hi ▸ hA.inpipe
  have himem : i ∈ chain s.peer := mem_of_getLast? hlast
  have hapart : i ∉ chain s := by simpa using H.apart himem
  cases ha with
  | keep => rfl
  | @inbound q v hv =>
    subst hv
    rw [hi]
    apply both_sides s
    · simpa [reroute, shift] using Heap.map_set_ne hapart q
    · simpa [reroute, shift] using Heap.map_set_last hlast (H.nodup _) q
  | @outbound q v hv =>
    subst hv
    obtain ⟨o, rest, ho, hc⟩ := hA.head (hA.writes _ rfl)
    have hn := H.nodup s
    have hx := H.apart (s := s) (a := o) (by simp [hc])
    rw [hc] at hn
    rw [ho]
    apply both_sides s
    · simpa [reroute, shift, hc] using Heap.map_set_head hn q
    · simpa [reroute, shift] using Heap.map_set_ne hx q
  | fresh =>
    apply both_sides s
    · simpa [reroute, shift] using Heap.map_alloc (H.bound s)
    · simpa [reroute, shift, Heap.view_alloc_next] using Heap.map_alloc (H.bound s.peer)
  | adopt =>
    obtain ⟨o, rest, ho, hc⟩ := hA.head (hA.adopts rfl)
    have hn := H.nodup s
    have hx := H.apart (s := s) (a := o) (by simp [hc])
    rw [hc] at hn
    rw [ho]
    apply both_sides s
    · simpa [reroute, shift, hc] using Heap.map_delete (nodup_cons.mp hn).1
    · simpa [reroute, shift] using Heap.map_delete hx
  | release =>
    rw [hi]
    apply both_sides s
    · simpa [reroute, shift] using Heap.map_delete hapart
    · simp [reroute, shift]

theorem set_live {b : ℕ} (hb : h.cells b ≠ none) : (h.set (some a) q).cells b ≠ none := by
  unfold Heap.set
  by_cases hab : b = a
  · subst hab
    simp
  · simpa [hab] using hb

theorem delete_live {a b : ℕ} (hab : b ≠ a) (hb : h.cells b ≠ none) : (h.delete (some a)).cells b ≠ none := by
  simpa [Heap.delete, hab] using hb

theorem alloc_live {b : ℕ} (hb : h.cells b ≠ none) : h.alloc.cells b ≠ none := by
  unfold Heap.alloc
  by_cases hab : b = h.next
  · subst hab
    simp
  · simpa [hab] using hb

theorem Placed.drop {chain' : Side → List ℕ} (H : Placed h chain) (hs : ∀ t, (chain' t).Sublist (chain t)) : Placed h chain' :=
  ⟨fun t a ha => H.live t a ((hs t).mem ha), fun t a ha => H.bound t a ((hs t).mem ha),
    fun t => (H.distinct t).sublist ((hs t).append (hs t.peer))⟩

theorem Placed.deleted (H : Placed h chain) (ha : ∀ t, a ∉ chain t) : Placed (h.delete (some a)) chain :=
  ⟨fun t b hb => delete_live (fun e => ha t (e ▸ hb)) (H.live t b hb), H.bound, H.distinct⟩

theorem Placed.set (H : Placed h chain) : Placed (h.set (some a) q) chain :=
  ⟨fun t b hb => set_live (H.live t b hb), H.bound, H.distinct⟩

theorem Placed.alloc (H : Placed h chain) (s : Side) : Placed h.alloc (update chain s (chain s ++ [h.next])) := by
  have hmem : ∀ t a, a ∈ update chain s (chain s ++ [h.next]) t →
      a ∈ chain t ∨ a = h.next := by
    intro t a ha
    by_cases ht : t = s
    · subst ht
      simpa using ha
    · exact .inl (by simpa [ht] using ha)
  have hnew : ∀ t, h.next ∉ chain t := fun t hm => Nat.lt_irrefl _ (H.bound t _ hm)
  refine ⟨?_, ?_, ?_⟩
  · intro t a ha
    rcases hmem t a ha with ha | rfl
    · exact alloc_live (H.live t a ha)
    · simp [Heap.alloc]
  · intro t a ha
    rcases hmem t a ha with ha | rfl
    · exact Nat.lt_succ_of_lt (H.bound t a ha)
    · exact Nat.lt_succ_self _
  · intro t
    have hd := H.distinct t
    rcases s.eq_or_eq_peer t with rfl | rfl
    · have h1 : (h.next :: (chain t ++ chain t.peer)).Nodup :=
        nodup_cons.mpr ⟨by simp [hnew], hd⟩
      simpa using (perm_middle.nodup_iff).mpr h1
    · have h1 : ((chain s.peer ++ chain s) ++ [h.next]).Nodup := by
        rw [nodup_append]
        rw [Side.peer_peer] at hd
        refine ⟨hd, by simp, ?_⟩
        rintro a ha b hb rfl
        rw [mem_singleton] at hb
        subst hb
        rcases mem_append.mp ha with ha | ha
        · exact hnew _ ha
        · exact hnew _ ha
      simpa using h1

theorem applied_placed (H : Placed h chain) (hA : Anchored p s chain c) (ha : Applied p h c h') :
    Placed h' (reroute s chain h.next c) := by
  obtain ⟨i, hi⟩ := ne_none_iff_exists'.mp hA.live
  have hlast := hi ▸ hA.inpipe
  have himem : i ∈ chain s.peer := mem_of_getLast? hlast
  cases ha with
  | keep => exact H
  | inbound hv =>
    rw [hi]
    exact H.set
  | outbound hv =>
    obtain ⟨o, rest, ho, hc⟩ := hA.head (hA.writes _ rfl)
    rw [ho]
    exact H.set
  | fresh => exact H.alloc s.peer
  | adopt =>
    obtain ⟨o, rest, ho, hc⟩ := hA.head (hA.adopts rfl)
    have hn := H.nodup s
    have hx := H.apart (s := s) (a := o) (by simp [hc])
    rw [hc] at hn
    rw [ho]
    apply Placed.deleted
    · apply H.drop
      intro t
      rcases s.eq_or_eq_peer t with rfl | rfl
      · simp [reroute, tail_sublist]
      · simp [reroute]
    · intro t
      rcases s.eq_or_eq_peer t with rfl | rfl
      · simpa [reroute, hc] using (nodup_cons.mp hn).1
      · simpa [reroute] using hx
  | release =>
    rw [hi]
    apply Placed.deleted
    · apply H.drop
      intro t
      rcases s.eq_or_eq_peer t with rfl | rfl
      · simp [reroute]
      · simp [reroute]
    · intro t
      rcases s.eq_or_eq_peer t with rfl | rfl
      · simpa [reroute] using H.apart himem
      · simp [reroute]

end

/-- The addresses in the hiccups among the commands. -/
def hiccups (cmds : List Cmd) : List ℕ :=
  cmds.filterMap fun
    | .hiccup a => some a
    | _ => none

/-- The addresses from a writer to a reader, given the commands on their way to
the writer. -/
def route (writer : Option PipeT) (inbox : List Cmd) (reader : Option PipeT) : List ℕ :=
  match writer.bind PipeT.outpipe with
  | some a => a :: hiccups inbox
  | none => (reader.bind PipeT.inpipe).toList

/-- The addresses of the queues from an end to its peer. -/
def chain (w : Pair) (s : Side) : List ℕ := route (w.ends s) (w.inbox s) (w.ends s.peer)

def link (w : Pair) : Link := ⟨w.ends, w.inbox, fun s => (w.chain s).map w.heap.view⟩

structure Layout (w : Pair) : Prop where
  placed : Placed w.heap w.chain
  last : ∀ s, (w.chain s).getLast? = (w.ends s.peer).bind PipeT.inpipe
  inpipe : ∀ s p, w.ends s = some p → p.inpipe ≠ none

theorem hiccups_append (cmds cmds' : List Cmd) : hiccups (cmds ++ cmds') = hiccups cmds ++ hiccups cmds' := filterMap_append

theorem hiccups_termed {cmds : List Cmd} {b : Phase} (h : Phase.walk .termed cmds = some b) : hiccups cmds = [] := by
  induction cmds with
  | nil => rfl
  | cons c cmds ih =>
    rw [Phase.walk_cons] at h
    cases c with
    | activateRead | activateWrite n => exact ih h
    | hiccup i | pipeTerm => simp [Phase.next] at h
    | pipeTermAck =>
      obtain ⟨rfl, -⟩ := Phase.walk_over (.inl rfl) h
      rfl

variable {w : Pair} {s : Side} {p p' : PipeT} {inbox inbox' : List Cmd}

def after (w : Pair) (s : Side) (inbox : List Cmd) (pe : Option PipeT) (sent : List Cmd)
    (heap : Heap) : Pair where
  ends := update w.ends s pe
  inbox := update (update w.inbox s inbox) s.peer (w.inbox s.peer ++ sent)
  heap := heap

theorem commit_eq {inbox : List Cmd} {alive : Bool} {x : Ctx} (h : w.ends s.peer = none → x.sent = []) :
    w.commit s inbox alive x = .ok (w.after s inbox (if alive then some x.self else none) x.sent x.heap) := by
  unfold commit
  rw [if_neg (by tauto)]
  rfl

theorem after_chain (inbox : List Cmd) (pe : Option PipeT) (sent : List Cmd) (h : Heap) :
    (w.after s inbox pe sent h).chain s = route pe inbox (w.ends s.peer) := by
  simp [chain, after]

theorem after_chain_peer (inbox : List Cmd) (pe : Option PipeT) (sent : List Cmd) (h : Heap) :
    (w.after s inbox pe sent h).chain s.peer = route (w.ends s.peer) (w.inbox s.peer ++ sent) pe := by
  simp [chain, after]

theorem route_forget {writer : Option PipeT} {reader : Option PipeT}
    (hl : (route (some p) inbox reader).getLast? = reader.bind PipeT.inpipe)
    (hh : hiccups inbox = []) (hw : writer.bind PipeT.outpipe = none) :
    route writer inbox' reader = route (some p) inbox reader := by
  unfold route at hl ⊢
  rw [hw]
  cases ho : (some p).bind PipeT.outpipe with
  | none => rfl
  | some a =>
    simp only [ho, hh, getLast?_singleton] at hl
    rw [← hl]
    simp [hh]

theorem route_eq {writer writer' reader reader' : Option PipeT} (hi : hiccups inbox' = hiccups inbox)
    (ho : writer'.bind PipeT.outpipe = writer.bind PipeT.outpipe) (hr : reader'.bind PipeT.inpipe = reader.bind PipeT.inpipe) :
    route writer' inbox' reader' = route writer inbox reader := by
  unfold route
  rw [ho, hr, hi]

theorem effect_points {i o : Staged Msg} {nx : ℕ} {op : Op} {r : Res} {c : Change}
    {sent : List Cmd} (he : Effect p i o nx op r p' c sent) :
    (c = .fresh ∧ p'.inpipe = some nx ∧ p'.outpipe = p.outpipe ∧ sent = [.hiccup nx] ∧ p.state = .active) ∨
    ((c = .keep ∨ (∃ q, c = .inbound q) ∨ ∃ q, c = .outbound q ∧ p.outpipe ≠ none) ∧ p'.inpipe = p.inpipe ∧ hiccups sent = [] ∧
      (p'.outpipe = p.outpipe ∨ p'.outpipe = none)) := by
  have hw : ∀ q : Staged Msg, hiccups (wake q) = [] := by
    intro q
    unfold wake
    cases q.flush.1 <;> rfl
  have hr : ∀ p n, hiccups (report p n) = [] := by
    intro p n
    unfold report
    split_ifs <;> rfl
  cases he with
  | hiccup hs => exact .inl ⟨rfl, rfl, rfl, rfl, hs⟩
  | checkReadDelimiter _ _ _ hd | readDelimiter _ _ _ hd => cases hd <;> simp [hiccups]
  | readMessage => simp [hr]
  | checkWrite | writeRefused => simp [hiccups]
  | flush _ ho => simp [hw, ho]
  | terminateRequest _ ho =>
    have hw' : hiccups (.pipeTerm :: wake (delimit o)) = [] := hw _
    simp [hw', ho]
  | terminateWait _ ho => simp [hw, ho]
  | setHwms => simp [hiccups, PipeT.setHwms]
  | setNodelay => simp [hiccups, PipeT.setNodelay]
  | _ => simp_all [hiccups]

end Pair

end Zmq
