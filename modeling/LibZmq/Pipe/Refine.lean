import LibZmq.Pipe.Layout

/-! The pair refines its link: in a safe pair every call and every delivery that
may be made goes through, is a move of the link, and leaves the pair safe. -/

namespace Zmq

open Option

namespace Pair

open Link

variable {w : Pair} {s : Side} {p p' : PipeT} {c : Change} {inbox : List Cmd} {sent : List Cmd} {pe : Option PipeT} {h' : Heap}
    {cmd : Cmd}

structure Safe (w : Pair) : Prop where
  layout : Layout w
  handshake : Handshake w.link
  multipart : ∀ s, ∀ q ∈ w.link.chan s, Multipart q

theorem Safe.last (S : Safe w) (hp : w.ends s = some p) : ∃ i, p.inpipe = some i ∧ (w.chain s.peer).getLast? = some i := by
  obtain ⟨i, hi⟩ := ne_none_iff_exists'.mp (S.layout.inpipe s p hp)
  refine ⟨i, hi, ?_⟩
  rw [S.layout.last, Side.peer_peer, hp]
  exact hi

theorem Safe.sound (S : Safe w) (hp : w.ends s = some p) : Sound p w.heap (w.link.inq s) (w.link.outq s) := by
  obtain ⟨i, hi, hl⟩ := S.last hp
  obtain ⟨q, hq⟩ := ne_none_iff_exists'.mp
    (S.layout.placed.live _ i (List.mem_of_getLast? hl))
  refine ⟨⟨i, q, hi, hq, ?_⟩, ?_, ?_, (S.handshake.own s p hp).outpipe.mp⟩
  · simp [inq, link, hl, Heap.view, hq]
  · intro a ha
    have hc : w.chain s = a :: hiccups (w.inbox s) := by simp [chain, route, hp, ha]
    obtain ⟨q, hq⟩ := ne_none_iff_exists'.mp (S.layout.placed.live s a (by simp [hc]))
    exact ⟨q, hq, by simp [outq, link, hc, Heap.view, hq]⟩
  · unfold outq
    cases ho : (w.link.chan s).head? with
    | none => exact empty_multipart
    | some q => exact S.multipart s q (List.mem_of_head? ho)

theorem Safe.anchored (S : Safe w) (hp : w.ends s = some p)
    (hw : ∀ q, c = .outbound q → p.outpipe ≠ none) (ha : c = .adopt → p.outpipe ≠ none)
    (hr : c = .release → ∃ a, w.chain s.peer = [a]) : Anchored p s w.chain c := by
  obtain ⟨i, hi, hl⟩ := S.last hp
  refine ⟨hl.trans hi.symm, ?_, hw, ha, hr, by simp [hi]⟩
  intro ho
  obtain ⟨a, ha⟩ := ne_none_iff_exists'.mp ho
  simp [chain, route, hp, ha]

theorem after_link (S : Safe w) (hA : Anchored p s w.chain c) (ha : Applied p w.heap c h')
    (hc : (w.after s inbox pe sent h').chain = reroute s w.chain w.heap.next c) :
    (w.after s inbox pe sent h').link = w.link.after s inbox pe c sent := by
  have hv := applied_views S.layout.placed hA ha
  simp only [link, hc, Link.after]
  congr 1

theorem after_layout (S : Safe w) (hA : Anchored p s w.chain c) (ha : Applied p w.heap c h')
    (hc : (w.after s inbox pe sent h').chain = reroute s w.chain w.heap.next c)
    (hl : ∀ t, (reroute s w.chain w.heap.next c t).getLast? = ((w.after s inbox pe sent h').ends t.peer).bind PipeT.inpipe)
    (hi : ∀ p', pe = some p' → p'.inpipe ≠ none) : Layout (w.after s inbox pe sent h') := by
  refine ⟨?_, ?_, ?_⟩
  · rw [hc]
    exact applied_placed S.layout.placed hA ha
  · rw [hc]
    exact hl
  · intro t p' hp'
    rcases s.eq_or_eq_peer t with rfl | rfl
    · exact hi p' (by simpa [after] using hp')
    · exact S.layout.inpipe _ p' (by simpa [after] using hp')

theorem final_hiccups {other : Option PipeT} (h : Hears (some p) inbox other) (hf : Final p.state) : hiccups inbox = [] := by
  have ht : heard p.state = .termed := by rcases hf with hf | hf <;> rw [hf] <;> rfl
  cases other with
  | some p1 =>
    simp only [Hears, ht] at h
    exact hiccups_termed h
  | none =>
    have hw := h.2
    rw [ht] at hw
    rcases hw with hw | hw <;> exact hiccups_termed hw

theorem peer_writes {l : Link} (H : Handshake l) (hp : l.ends s = some p)
    (hs : p.state = .active) : ∃ b, (l.ends s.peer).bind PipeT.outpipe = some b := by
  cases hp1 : l.ends s.peer with
  | none =>
    have h := H.hears s
    rw [hp, hp1] at h
    exact absurd h.1 (by simp [hs, Final])
  | some p1 =>
    apply ne_none_iff_exists'.mp
    intro ho
    have h := H.hears s.peer
    rw [hp1, Side.peer_peer, hp] at h
    have hf := (H.own _ _ hp1).outpipe.mp ho
    have ht : heard p1.state = .termed := by rcases hf with hf | hf <;> rw [hf] <;> rfl
    simp only [Hears, ht, hs, told] at h
    rcases Phase.walk_termed h with h | h <;> cases h

theorem after_last (S : Safe w) (hp : w.ends s = some p) (hi : p'.inpipe = p.inpipe) {sent : List Cmd} (t : Side) :
    (w.chain t).getLast? = ((w.after s inbox (some p') sent h').ends t.peer).bind PipeT.inpipe := by
  rw [S.layout.last]
  rcases s.eq_or_eq_peer t with rfl | rfl
  · simp [after]
  · simp [after, hp, hi]

theorem call_step (S : Safe w) (hp : w.ends s = some p) {op : Op} (hop : op ≠ .deliver)
    (hw : ∀ m, op = .write m → m.isDelimiter = false) :
    ∃ r w', w.step s op = .ok (r, w') ∧ Move w.link ⟨s, op, r⟩ w'.link ∧ Safe w' := by
  obtain ⟨r, p', h', sent, c, hcall, he, ha⟩ := call_goes (S.sound hp) hop
  have ho := S.handshake.own s p hp
  have h1 := S.handshake.hears s
  have h2 := S.handshake.hears s.peer
  rw [show w.link.ends s = some p from hp] at h1
  rw [Side.peer_peer, show w.link.ends s = some p from hp] at h2
  obtain ⟨hx, -, hnone⟩ := call_hears h1 h2 (effect_talks ho he)
  have hstep : w.step s op = .ok (r, w.after s (w.inbox s) (some p') sent h') := by
    have hb : w.step s op = call (ctx p w.heap) op >>= fun x =>
        (w.commit s (w.inbox s) true x.2) >>= fun w' => Except.ok (x.1, w') := by
      unfold step
      rw [hp]
      cases op <;> first | rfl | exact absurd rfl hop
    rw [hb, hcall, ok_bind, commit_eq hnone, ok_bind]
    rfl
  have hself : p'.outpipe = p.outpipe ∨ p'.outpipe = none →
      route (some p') (w.inbox s) (w.ends s.peer) = w.chain s := by
    unfold chain
    rw [hp]
    rintro (h | h)
    · exact route_eq rfl h rfl
    · have hl := S.layout.last s
      rw [chain, hp] at hl
      exact route_forget hl (final_hiccups hx ((effect_own ho he).outpipe.mp h)) h
  have hgood : Anchored p s w.chain c ∧ (w.after s (w.inbox s) (some p') sent h').chain = reroute s w.chain w.heap.next c ∧
      (∀ t, (reroute s w.chain w.heap.next c t).getLast? =
        ((w.after s (w.inbox s) (some p') sent h').ends t.peer).bind PipeT.inpipe) ∧
      p'.inpipe ≠ none := by
    rcases effect_points he with ⟨rfl, hi, ho', rfl, hs⟩ | ⟨hc, hi, hh, ho'⟩
    · obtain ⟨b, hb⟩ := peer_writes S.handshake hp hs
      have hb' : (w.ends s.peer).bind PipeT.outpipe = some b := hb
      refine ⟨S.anchored hp (by simp) (by simp) (by simp), ?_, ?_, by simp [hi]⟩
      · apply both_sides s
        · rw [after_chain, hself (.inl ho')]
          simp [reroute]
        · rw [after_chain_peer]
          simp [reroute, chain, route, hb', hiccups]
      · intro t
        rcases s.eq_or_eq_peer t with rfl | rfl
        · simp [reroute, after, S.layout.last]
        · simp [reroute, after, hi]
    · have hre : reroute s w.chain w.heap.next c = w.chain := by
        rcases hc with rfl | ⟨q, rfl⟩ | ⟨q, rfl, -⟩ <;> rfl
      refine ⟨S.anchored hp ?_ ?_ ?_, ?_, ?_, ?_⟩
      · rintro q rfl
        simp at hc
        exact hc
      · rintro rfl
        simp at hc
      · rintro rfl
        simp at hc
      · rw [hre]
        apply both_sides s
        · rw [after_chain, hself ho']
        · rw [after_chain_peer, chain, Side.peer_peer, hp]
          exact route_eq (by rw [hiccups_append, hh, List.append_nil]) rfl hi
      · intro t
        rw [hre]
        exact after_last S hp hi t
      · rw [hi]
        exact S.layout.inpipe s p hp
  obtain ⟨hA, hc, hl, hi⟩ := hgood
  have hlink := after_link S hA ha hc
  have hm : Move w.link ⟨s, op, r⟩ (w.after s (w.inbox s) (some p') sent h').link := by
    rw [hlink]
    exact .call hp hw he
  refine ⟨r, _, hstep, hm, after_layout S hA ha hc hl (fun p1 h => some.inj h ▸ hi),
    move_handshake S.handshake hm, move_multipart hm S.multipart⟩

theorem handled_points {o : Staged Msg} (hh : Handled p o cmd pe c sent) : hiccups sent = [] ∧
    ((c = .adopt ∧ p.outpipe ≠ none ∧ ∃ a p', cmd = .hiccup a ∧ pe = some p' ∧ p'.outpipe = some a ∧ p'.inpipe = p.inpipe) ∨
      (c = .keep ∧ hiccups [cmd] = [] ∧ ∃ p', pe = some p' ∧ p'.inpipe = p.inpipe ∧
        (p'.outpipe = p.outpipe ∨ p'.outpipe = none)) ∨ (c = .release ∧ cmd = .pipeTermAck ∧ pe = none)) := by
  cases hh <;> simp_all [hiccups]

theorem route_gone {l : Link} (H : Handshake l) {t : Side}
    (h : Hears (l.ends t) inbox none) (reader : Option PipeT) (inbox' : List Cmd) :
    route (l.ends t) inbox' reader = (reader.bind PipeT.inpipe).toList := by
  have ho : (l.ends t).bind PipeT.outpipe = none := by
    cases hp : l.ends t with
    | none => rfl
    | some p1 =>
      rw [hp] at h
      exact (H.own _ _ hp).outpipe.mpr h.1
  simp [route, ho]

theorem deliver_step (S : Safe w) (hp : w.ends s = some p) {rest : List Cmd} (hc : w.inbox s = cmd :: rest) :
    ∃ w', w.step s .deliver = .ok (.unit, w') ∧ Move w.link ⟨s, .deliver, .unit⟩ w'.link ∧
      Safe w' := by
  have ho := S.handshake.own s p hp
  have h1 := S.handshake.hears s
  have h2 := S.handshake.hears s.peer
  rw [show w.link.ends s = some p from hp, show w.link.inbox s = cmd :: rest from hc] at h1
  rw [Side.peer_peer, show w.link.ends s = some p from hp] at h2
  obtain ⟨alive, p', h', sent, evs, c, hproc, hh, ha⟩ :=
    process_handles (S.sound hp) ho.sink (accepts ho h1 h2)
  obtain ⟨pe, hpe⟩ : ∃ pe, (if alive then some p' else none) = pe := ⟨_, rfl⟩
  rw [hpe] at hh
  obtain ⟨hx, hx', hnone⟩ := handled_hears h1 h2 hh
  have hstep : w.step s .deliver = .ok (.unit, w.after s rest pe sent h') := by
    have hb : w.step s .deliver = process (ctx p w.heap) cmd >>= fun x =>
        (w.commit s rest x.1 x.2) >>= fun w' => Except.ok (.unit, w') := by
      unfold step
      rw [hp, hc]
      rfl
    rw [hb, hproc, ok_bind, commit_eq hnone, ok_bind, hpe]
  have hl := S.layout.last s
  rw [chain, hp, hc] at hl
  have hgood : Anchored p s w.chain c ∧
      (w.after s rest pe sent h').chain = reroute s w.chain w.heap.next c ∧
      (∀ t, (reroute s w.chain w.heap.next c t).getLast? =
        ((w.after s rest pe sent h').ends t.peer).bind PipeT.inpipe) ∧
      ∀ p1, pe = some p1 → p1.inpipe ≠ none := by
    have hpeer : ∀ p1 : PipeT, p1.inpipe = p.inpipe → hiccups sent = [] →
        route (w.ends s.peer) (w.inbox s.peer ++ sent) (some p1) = w.chain s.peer := by
      intro p1 hi hs
      rw [chain, Side.peer_peer, hp]
      exact route_eq (by rw [hiccups_append, hs, List.append_nil]) rfl hi
    obtain ⟨hs, ⟨rfl, ho', a, p1, rfl, rfl, ha', hi⟩ | ⟨rfl, hk, p1, rfl, hi, ho'⟩ | ⟨rfl, rfl, rfl⟩⟩ :=
      handled_points hh
    · obtain ⟨b, hb⟩ := ne_none_iff_exists'.mp ho'
      have hcs : w.chain s = b :: a :: hiccups rest := by
        simp [chain, route, hp, hb, hc, hiccups]
      refine ⟨S.anchored hp (by simp) (fun _ => ho') (by simp), ?_, ?_, ?_⟩
      · apply both_sides s
        · rw [after_chain]
          simp [reroute, hcs, route, ha']
        · rw [after_chain_peer, hpeer p1 hi hs]
          simp [reroute]
      · intro t
        rw [← after_last S hp hi t]
        rcases s.eq_or_eq_peer t with rfl | rfl
        · simp [reroute, hcs]
        · simp [reroute]
      · rintro p2 h2
        rw [← some.inj h2, hi]
        exact S.layout.inpipe s p hp
    · have hcons : hiccups (cmd :: rest) = hiccups rest := by
        have := hiccups_append [cmd] rest
        rwa [hk] at this
      refine ⟨S.anchored hp (by simp) (by simp) (by simp), ?_, ?_, ?_⟩
      · apply both_sides s
        · rw [after_chain]
          change _ = w.chain s
          rw [chain, hp, hc]
          rcases ho' with ho' | ho'
          · exact route_eq hcons.symm ho' rfl
          · have hf := (handled_own ho hh).outpipe.mp ho'
            exact route_forget hl (hcons.trans (final_hiccups hx hf)) ho'
        · rw [after_chain_peer, hpeer p1 hi hs]
          rfl
      · intro t
        exact after_last S hp hi t
      · rintro p2 h2
        rw [← some.inj h2, hi]
        exact S.layout.inpipe s p hp
    · have hrest : rest = [] := hears_ack h1
      subst hrest
      have hgone : ∀ reader inbox', route (w.ends s.peer) inbox' reader =
          (reader.bind PipeT.inpipe).toList := route_gone S.handshake hx'
      obtain ⟨i, hi, -⟩ := S.last hp
      refine ⟨S.anchored hp (by simp) (by simp) fun _ => ⟨i, ?_⟩, ?_, ?_, by simp⟩
      · rw [chain, hgone, Side.peer_peer, hp]
        simp [hi]
      · apply both_sides s
        · rw [after_chain]
          simp only [reroute, Function.update_of_ne (Side.ne_peer s)]
          rw [chain, hp, hc]
          exact route_forget hl rfl rfl
        · rw [after_chain_peer, hgone]
          simp [reroute]
      · intro t
        rcases s.eq_or_eq_peer t with rfl | rfl
        · simp [reroute, after, S.layout.last]
        · simp [reroute, after]
  obtain ⟨hA, hch, hlast, hi⟩ := hgood
  have hlink := after_link S hA ha hch
  have hm : Move w.link ⟨s, .deliver, .unit⟩ (w.after s rest pe sent h').link := by
    rw [hlink]
    exact .deliver hp hc hh
  exact ⟨_, hstep, hm, after_layout S hA ha hch hlast hi, move_handshake S.handshake hm,
    move_multipart hm S.multipart⟩

theorem attached_safe (h : Attached w) : Safe w := by
  obtain ⟨hwms, inboost, outboost, rfl⟩ := h
  have hcells : ∀ s, ∀ a ∈ ((pipepair hwms).attach inboost outboost).chain s, a = 0 ∨ a = 1 := by
    intro s
    cases s <;> simp [chain, route, pipepair, attach, PipeT.new, PipeT.setHwmsBoost, hiccups]
  have hview : ∀ s, ∀ q ∈ ((pipepair hwms).attach inboost outboost).link.chan s,
      q = Staged.empty := by
    intro s q hq
    obtain ⟨a, ha, rfl⟩ := List.mem_map.mp hq
    rcases hcells s a ha with rfl | rfl <;> rfl
  refine ⟨⟨⟨?_, ?_, ?_⟩, ?_, ?_⟩, ⟨?_, ?_, ?_, ?_⟩, ?_⟩
  · intro s a ha
    rcases hcells s a ha with rfl | rfl <;> simp [pipepair, attach, Heap.alloc]
  · intro s a ha
    rcases hcells s a ha with rfl | rfl <;> simp [pipepair, attach, Heap.alloc]
  · intro s
    cases s <;> simp [chain, route, pipepair, attach, PipeT.new, PipeT.setHwmsBoost, hiccups, Side.peer]
  · intro s
    cases s <;> rfl
  · intro s p hp
    cases s <;>
    · cases hp
      simp [PipeT.new, PipeT.setHwmsBoost]
  · intro s p hp
    cases s <;>
    · cases hp
      exact ⟨rfl, by simp [PipeT.new, PipeT.setHwmsBoost, Final]⟩
  · intro s
    cases s <;> rfl
  · rintro s p hp hs ⟨m, hm, -⟩
    obtain ⟨q, hq, hm⟩ := mem_frames.mp hm
    rw [hview _ q hq] at hm
    cases hm
  · intro s p hp hs
    cases s <;>
    · cases hp
      cases hs
  · intro s q hq
    rw [hview s q hq]
    exact empty_multipart

theorem step_goes (S : Safe w) {op : Op} (h : w.Enabled s op) :
    ∃ r w', w.step s op = .ok (r, w') ∧ Move w.link ⟨s, op, r⟩ w'.link ∧ Safe w' := by
  by_cases hop : op = .deliver
  · subst hop
    obtain ⟨cmd, rest, hc⟩ := List.exists_cons_of_ne_nil (show w.inbox s ≠ [] from h)
    cases hp : w.ends s with
    | none =>
      have hh := S.handshake.hears s
      rw [show w.link.ends s = none from hp, show w.link.inbox s = cmd :: rest from hc] at hh
      cases hh
    | some p =>
      obtain ⟨w', h'⟩ := deliver_step S hp hc
      exact ⟨_, w', h'⟩
  · obtain ⟨p, hp⟩ : ∃ p, w.ends s = some p := by
      apply ne_none_iff_exists'.mp
      cases op <;> first | exact h | exact h.1 | exact absurd rfl hop
    refine call_step S hp hop ?_
    rintro m rfl
    exact h.2

theorem step_move (S : Safe w) {e : Event} {w' : Pair} (h : Step w e w') : Move w.link e w'.link ∧ Safe w' := by
  obtain ⟨r, w1, h1, hm, hs⟩ := step_goes S h.1
  obtain ⟨hr, hw⟩ := ok_pair (h1.symm.trans h.2)
  subst hr hw
  exact ⟨hm, hs⟩

theorem run_safe {evs : List Event} (h : Run Attached Step evs w) : Safe w :=
  h.invariant Safe (fun _ => attached_safe) fun _ _ _ S hs => (step_move S hs).2

end Pair

end Zmq
