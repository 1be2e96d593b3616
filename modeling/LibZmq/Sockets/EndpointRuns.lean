import LibZmq.Sockets.EndpointTables

/-! As long as nothing that `endpoints` points to ends on its own, the tables of a socket hold what is alive. -/

namespace Zmq

open List Option Except EndpointTables

open Function (update_eq_self_iff update_of_ne update_self)

variable {σ : Type*} {ε : Type*} {φ : Type*}

theorem foldlM_keeps {f : σ → ε → Except φ σ} (holds : σ → Prop) {l : List ε} {s s' : σ}
    (hstep : ∀ s s' e, e ∈ l → holds s → f s e = .ok s' → holds s') (h : holds s) (hx : l.foldlM f s = .ok s') : holds s' := by
  induction l generalizing s with
  | nil => exact ok.inj hx ▸ h
  | cons e l ih =>
    obtain ⟨s1, h1, h2⟩ := bind_ok hx
    exact ih (fun s s' e he => hstep s s' e (mem_cons_of_mem _ he)) (hstep s s1 e mem_cons_self h h1) h2

theorem foldlM_fails {f : σ → ε → Except φ σ} (holds : σ → Prop) {l : List ε} {s : σ}
    {x y : φ} (hstep : ∀ s s' e, e ∈ l → holds s → f s e = .ok s' → holds s')
    (hfail : ∀ s e x, e ∈ l → holds s → f s e = .error x → x = y) (h : holds s) (hx : l.foldlM f s = .error x) : x = y := by
  induction l generalizing s with
  | nil => cases hx
  | cons e l ih =>
    rw [foldlM_cons] at hx
    cases h1 : f s e with
    | error x' =>
      rw [h1] at hx
      exact error.inj hx ▸ hfail s e x' mem_cons_self h h1
    | ok s1 =>
      rw [h1] at hx
      exact ih (fun s s' e he => hstep s s' e (mem_cons_of_mem _ he))
        (fun s e x he => hfail s e x (mem_cons_of_mem _ he)) (hstep s s1 e mem_cons_self h h1) hx

universe u v w x

namespace EndpointOwn

variable {P : Type w}

structure Runs (c : EndpointOwn P) : Prop where
  termed : c.termed = false
  pending : c.pending = false
  terminating : c.terminating = false
  destroyed : c.destroyed = false
  timer : c.hasLingerTimer = false

def Stays (c : EndpointOwn P) : Prop := c.options.immediate = true → c.subscribeToAll = true

theorem settle_pipes (c : EndpointOwn P) : c.settle.pipe = c.pipe ∧ c.settle.terminatingPipes = c.terminatingPipes := by
  unfold settle
  split_ifs <;> exact ⟨rfl, rfl⟩

end EndpointOwn

namespace EndpointTables

open EndpointOwn

variable {A : Type u} {O : Type v} {P : Type w} {F : Type x} {inprocs : List (A × P)}
    {f : EndPair F → Except Fault (EndPair F)} {addr : A}
  {s s' : EndpointTables A O P F} {l l' : List (EndpointEntry A O P)} {e : EndpointEntry A O P} {o : O} {p : P}
  {c c' : EndpointOwn P} {d : SocketPipe O F}

theorem setObject_self [DecidableEq O] (s : EndpointTables A O P F) (o : O) (c : EndpointOwn P) : (s.setObject o c).objects o = some c :=
  update_self _ _ _

theorem setObject_ne [DecidableEq O] {o' : O} (h : o' ≠ o) : (s.setObject o c).objects o' = s.objects o' := update_of_ne h _ _

structure Holds (s : EndpointTables A O P F) (e : EndpointEntry A O P) : Prop where
  own : ∃ c, s.objects e.own = some c ∧ c.Runs ∧ ∀ p, e.pipe = some p → c.pipe = some p ∧ c.Stays
  pipe : ∀ p, e.pipe = some p → ∃ d, s.pipes p = some d ∧ d.session = some e.own ∧ d.pair.Quiet

/-- What the tables say of objects and pipes, where `l` are the entries of `endpoints` that count. -/
structure Sound (s : EndpointTables A O P F) (l : List (EndpointEntry A O P)) : Prop where
  owns : (l.map (·.own)).Nodup
  entry : ∀ e ∈ l, s.Holds e
  asked : ∀ o, .termReq o ∈ s.mailbox → (s.objects o).isSome = true ∧ ∀ e ∈ l, e.own ≠ o
  held : ∀ o c p, s.objects o = some c → c.pipe = some p ∨ p ∈ c.terminatingPipes → ∃ d, s.pipes p = some d ∧ d.session = some o
  inprocs : ∀ e ∈ s.inprocs, ∃ d, s.pipes e.2 = some d ∧ d.session = none ∧ (d.pair.ends .first).isSome = true
  single : (s.inprocs.map (·.2)).Nodup

theorem Sound.same (h : Sound s l) (hp : s'.pipes = s.pipes) (ho : s'.objects = s.objects) (hm : s'.mailbox = s.mailbox)
    (hi : s'.inprocs = s.inprocs) : Sound s' l where
  owns := h.owns
  entry e he := by
    obtain ⟨hown, hpipe⟩ := h.entry e he
    exact ⟨ho ▸ hown, hp ▸ hpipe⟩
  asked o hmem := by
    rw [hm] at hmem
    rw [ho]
    exact h.asked o hmem
  held o c p hc hheld := by
    rw [ho] at hc
    rw [hp]
    exact h.held o c p hc hheld
  inprocs e he := by
    rw [hi] at he
    rw [hp]
    exact h.inprocs e he
  single := hi ▸ h.single

theorem Sound.sublist (h : Sound s l) (hl : l'.Sublist l) : Sound s l' where
  owns := h.owns.sublist (hl.map _)
  entry e he := h.entry e (hl.subset he)
  asked o hm := ⟨(h.asked o hm).1, fun e he => (h.asked o hm).2 e (hl.subset he)⟩
  held := h.held
  inprocs := h.inprocs
  single := h.single

theorem Sound.fewer (h : Sound s l) {mailbox : List (SocketCmd O P)}
    (hm : ∀ c ∈ mailbox, c ∈ s.mailbox) (hi : inprocs.Sublist s.inprocs) :
    Sound { s with mailbox := mailbox, inprocs := inprocs } l where
  owns := h.owns
  entry e he := ⟨(h.entry e he).own, (h.entry e he).pipe⟩
  asked o hmem := h.asked o (hm _ hmem)
  held := h.held
  inprocs e he := h.inprocs e (hi.subset he)
  single := h.single.sublist (hi.map _)

theorem Sound.post {cmd : SocketCmd O P} (h : Sound s l)
    (hc : ∀ o, cmd = .termReq o → (s.objects o).isSome = true ∧ ∀ e ∈ l, e.own ≠ o) : Sound (s.post cmd) l where
  owns := h.owns
  entry e he := ⟨(h.entry e he).own, (h.entry e he).pipe⟩
  asked o hm := by
    rcases mem_append.mp hm with hm | hm
    · exact h.asked o hm
    · exact hc o (mem_singleton.mp hm).symm
  held := h.held
  inprocs := h.inprocs
  single := h.single

theorem Sound.setPipe [DecidableEq P] (h : Sound s l) (hd : ∀ d0, s.pipes p = some d0 → d.session = d0.session ∧
    ((∃ e ∈ l, e.pipe = some p) → d0.pair.Quiet → d.pair.Quiet) ∧
    ((∃ e ∈ s.inprocs, e.2 = p) → (d0.pair.ends .first).isSome = true → (d.pair.ends .first).isSome = true)) :
    Sound (s.setPipe p d) l where
  owns := h.owns
  entry e he := by
    refine ⟨(h.entry e he).own, fun q hq => ?_⟩
    obtain ⟨d0, hd0, hs0, hquiet⟩ := (h.entry e he).pipe q hq
    rcases eq_or_ne q p with rfl | hne
    · obtain ⟨hs, hq', -⟩ := hd d0 hd0
      exact ⟨d, update_self _ _ _, hs.trans hs0, hq' ⟨e, he, hq⟩ hquiet⟩
    · exact ⟨d0, (update_of_ne hne _ _).trans hd0, hs0, hquiet⟩
  asked := h.asked
  held o c q hc hheld := by
    obtain ⟨d0, hd0, hs0⟩ := h.held o c q hc hheld
    rcases eq_or_ne q p with rfl | hne
    · exact ⟨d, update_self _ _ _, (hd d0 hd0).1.trans hs0⟩
    · exact ⟨d0, (update_of_ne hne _ _).trans hd0, hs0⟩
  inprocs e he := by
    obtain ⟨d0, hd0, hs0, hlive⟩ := h.inprocs e he
    rcases eq_or_ne e.2 p with rfl | hne
    · obtain ⟨hs, -, hl⟩ := hd d0 hd0
      exact ⟨d, update_self _ _ _, hs.trans hs0, hl ⟨e, he, rfl⟩ hlive⟩
    · exact ⟨d0, (update_of_ne hne _ _).trans hd0, hs0, hlive⟩
  single := h.single

theorem onPipe_ok [DecidableEq P] (hx : s.onPipe p f = .ok s') :
    ∃ d pair, s.pipes p = some d ∧ f d.pair = .ok pair ∧ s' = s.setPipe p { d with pair := pair } := by
  unfold onPipe at hx
  split at hx
  · cases hx
  · rename_i d hd
    obtain ⟨pair, hf, hs⟩ := map_ok hx
    exact ⟨d, pair, hd, hf, hs.symm⟩

theorem Sound.onPipe [DecidableEq P] (h : Sound s l) (hx : s.onPipe p f = .ok s')
    (hq : (∃ e ∈ l, e.pipe = some p) → ∀ d pair, s.pipes p = some d → d.pair.Quiet → f d.pair = .ok pair → pair.Quiet)
    (hl : (∃ e ∈ s.inprocs, e.2 = p) → ∀ d pair, s.pipes p = some d → f d.pair = .ok pair →
      (pair.ends .first).isSome = (d.pair.ends .first).isSome) : Sound s' l := by
  obtain ⟨d, pair, hd, hf, rfl⟩ := onPipe_ok hx
  refine h.setPipe fun d0 hd0 => ?_
  cases hd.symm.trans hd0
  exact ⟨rfl, fun he hquiet => hq he d pair hd hquiet hf, fun he hlive => (hl he d pair hd hf).trans hlive⟩

theorem Sound.setObject [DecidableEq O] (h : Sound s l) (hr : ∀ e ∈ l, e.own = o → ∀ c0, s.objects o = some c0 → c0.Runs →
      (∀ p, e.pipe = some p → c0.pipe = some p ∧ c0.Stays) → c.Runs ∧ ∀ p, e.pipe = some p → c.pipe = some p ∧ c.Stays)
    (hp : ∀ p, c.pipe = some p ∨ p ∈ c.terminatingPipes → ∃ d, s.pipes p = some d ∧ d.session = some o) :
    Sound (s.setObject o c) l where
  owns := h.owns
  entry e he := by
    refine ⟨?_, (h.entry e he).pipe⟩
    obtain ⟨c0, hc0, hruns, hpipe⟩ := (h.entry e he).own
    rcases eq_or_ne e.own o with heq | hne
    · obtain ⟨hruns', hpipe'⟩ := hr e he heq c0 (heq ▸ hc0) hruns hpipe
      exact ⟨c, heq ▸ setObject_self s o c, hruns', hpipe'⟩
    · exact ⟨c0, (setObject_ne hne).trans hc0, hruns, hpipe⟩
  asked o' hm := by
    obtain ⟨hsome, hne⟩ := h.asked o' hm
    refine ⟨?_, hne⟩
    rcases eq_or_ne o' o with rfl | hne
    · exact congrArg isSome (setObject_self s _ c)
    · exact (congrArg isSome (setObject_ne hne)).trans hsome
  held o' c' p hc hheld := by
    rcases eq_or_ne o' o with rfl | hne
    · cases (setObject_self s _ c).symm.trans hc
      exact hp p hheld
    · exact h.held o' c' p ((setObject_ne hne).symm.trans hc) hheld
  inprocs := h.inprocs
  single := h.single

theorem Sound.insert (h : Sound s l) (hne : ∀ e' ∈ l, e'.own ≠ e.own) (he : s.Holds e)
    (hm : .termReq e.own ∉ s.mailbox) : Sound s (l ++ [e]) where
  owns := by
    rw [map_append]
    refine h.owns.append (nodup_singleton _) fun o ho ho' => ?_
    obtain ⟨e', he', rfl⟩ := mem_map.mp ho
    exact hne e' he' (mem_singleton.mp ho')
  entry e' he' := by
    rcases mem_append.mp he' with he' | he'
    · exact h.entry e' he'
    · exact mem_singleton.mp he' ▸ he
  asked o ho := by
    refine ⟨(h.asked o ho).1, fun e' he' heq => ?_⟩
    rcases mem_append.mp he' with he' | he'
    · exact (h.asked o ho).2 e' he' heq
    · rw [mem_singleton.mp he'] at heq
      exact hm (heq ▸ ho)
  held := h.held
  inprocs := h.inprocs
  single := h.single

theorem Sound.known (h : Sound s l) (he : e ∈ l) : (s.objects e.own).isSome = true ∧
    ∀ p, e.pipe = some p → (s.pipes p).isSome = true := by
  obtain ⟨c, hc, -⟩ := (h.entry e he).own
  refine ⟨by rw [hc]; rfl, fun p hp => ?_⟩
  obtain ⟨d, hd, -⟩ := (h.entry e he).pipe p hp
  rw [hd]
  rfl

theorem Sound.createPipe [DecidableEq P] {conflate attached : Bool} {session : Option O} (h : Sound s l) (hp : (s.pipes p).isNone = true) :
    Sound (s.createPipe p conflate session attached) l := by
  refine h.setPipe fun d0 hd0 => ?_
  rw [hd0] at hp
  cases hp

theorem Sound.launch [DecidableEq O] (h : Sound s l) (ho : (s.objects o).isNone = true) (hc : c.Runs)
    (hd : ∀ p, c.pipe = some p → c.Stays ∧ ∃ d, s.pipes p = some d ∧ d.session = some o ∧ d.pair.Quiet)
    (ht : c.terminatingPipes = []) : Sound (s.launch addr o c) (l ++ [⟨addr, o, c.pipe⟩]) := by
  have hfresh : ∀ e ∈ l, e.own ≠ o := by
    rintro e he rfl
    have := (h.known he).1
    rw [isNone_iff_eq_none.mp ho] at this
    cases this
  have hset : Sound (s.setObject o c) l := by
    refine h.setObject (fun e he heq => absurd heq (hfresh e he)) fun p hp => ?_
    rcases hp with hp | hp
    · obtain ⟨-, d, hpd, hs, -⟩ := hd p hp
      exact ⟨d, hpd, hs⟩
    · rw [ht] at hp
      cases hp
  have hadd : Sound (s.launch addr o c) l := hset.same rfl rfl rfl rfl
  refine hadd.insert (e := ⟨addr, o, c.pipe⟩) hfresh ⟨⟨c, update_self _ _ _, hc, fun p hp => ⟨hp, (hd p hp).1⟩⟩, ?_⟩ ?_
  · exact fun p hp => (hd p hp).2
  · intro hm
    have := (h.asked o hm).1
    rw [isNone_iff_eq_none.mp ho] at this
    cases this

theorem Sound.launchPiped [DecidableEq P] [DecidableEq O] {conflate : Bool} (h : Sound s l) (ho : (s.objects o).isNone = true)
    (hp : (s.pipes p).isNone = true) (hc : c.Runs) (hpipe : c.pipe = some p) (hs : c.Stays) (ht : c.terminatingPipes = []) :
    Sound ((s.createPipe p conflate (some o) true).launch addr o c) (l ++ [⟨addr, o, some p⟩]) := by
  have hcreate : Sound (s.createPipe p conflate (some o) true) l := h.createPipe hp
  rw [← hpipe]
  refine hcreate.launch ho hc (fun q hq => ?_) ht
  cases hpipe.symm.trans hq
  exact ⟨hs, _, update_self _ _ _, rfl, EndPair.quiet_new conflate⟩

theorem Sound.connectInproc [DecidableEq P] (h : Sound s l) (hp : (s.pipes p).isNone = true) : Sound (s.connectInproc addr p) l := by
  have hcreate : Sound (s.createPipe p s.options.conflate none true) l := h.createPipe hp
  refine ⟨hcreate.owns, fun e he => ⟨(hcreate.entry e he).own, (hcreate.entry e he).pipe⟩, hcreate.asked, hcreate.held, ?_, ?_⟩
  · intro e he
    rcases mem_append.mp he with he | he
    · exact hcreate.inprocs e he
    · rw [mem_singleton.mp he]
      exact ⟨_, update_self _ _ _, rfl, rfl⟩
  · have happ : (s.connectInproc addr p).inprocs.map (·.2) = s.inprocs.map (·.2) ++ [p] := map_append
    rw [happ]
    refine h.single.append (nodup_singleton _) fun q hq hq' => ?_
    rw [mem_singleton.mp hq'] at hq
    obtain ⟨e, he, rfl⟩ := mem_map.mp hq
    obtain ⟨d, hd, -⟩ := h.inprocs e he
    rw [hd] at hp
    cases hp

theorem Sound.processTermReq [DecidableEq O] (h : Sound s l) (ho : ∀ e ∈ l, e.own ≠ o) : Sound (s.processTermReq o) l := by
  unfold EndpointTables.processTermReq
  split_ifs
  · cases hc : s.objects o with
    | none =>
      refine h.same rfl ?_ rfl rfl
      exact update_eq_self_iff.mpr hc.symm
    | some c =>
      have hset : Sound (s.setObject o { c with termed := true }) l :=
        h.setObject (fun e he heq => absurd heq (ho e he)) fun p hp => h.held o c p hc hp
      exact hset.same rfl rfl rfl rfl
  · exact h

variable {more : F → Bool} {delay : Bool} {side : Side} {i : A × P} {q : P}

theorem onPipe_entries [DecidableEq P] (hx : s.onPipe p f = .ok s') :
    s'.endpoints = s.endpoints ∧ s'.adding = s.adding ∧ s'.inprocs = s.inprocs ∧ s'.objects = s.objects := by
  obtain ⟨d, pair, -, -, rfl⟩ := onPipe_ok hx
  exact ⟨rfl, rfl, rfl, rfl⟩

theorem processTermReq_entries [DecidableEq O] (s : EndpointTables A O P F) (o : O) :
    (s.processTermReq o).endpoints = s.endpoints ∧ (s.processTermReq o).adding = s.adding ∧
      (s.processTermReq o).inprocs = s.inprocs ∧ (s.processTermReq o).pipes = s.pipes := by
  unfold processTermReq
  split_ifs <;> exact ⟨rfl, rfl, rfl, rfl⟩

theorem Sound.terminatePipe [DecidableEq P] (h : Sound s l) (hp : ∀ e ∈ l, e.pipe ≠ some p)
    (hx : s.onPipe p (·.terminate more side delay) = .ok s') : Sound s' l :=
  h.onPipe hx (fun he => absurd he fun ⟨e, he, hpe⟩ => hp e he hpe) fun _ _ _ _ hf => EndPair.method_ends hf .first

theorem Sound.termOne [DecidableEq P] [DecidableEq O] (h : Sound s l) (ho : ∀ e' ∈ l, e'.own ≠ e.own) (hp : ∀ p, e.pipe = some p → ∀ e' ∈ l, e'.pipe ≠ some p)
    (hx : s.termOne more e = .ok s') : Sound s' l ∧ s'.endpoints = s.endpoints ∧ s'.adding = s.adding := by
  unfold EndpointTables.termOne at hx
  split at hx
  · cases hx
    obtain ⟨hend, hadd, -, -⟩ := processTermReq_entries s e.own
    exact ⟨h.processTermReq ho, hend, hadd⟩
  · rename_i p hpipe
    obtain ⟨s1, h1, h2⟩ := bind_ok hx
    cases h2
    obtain ⟨hend, hadd, -, -⟩ := processTermReq_entries s1 e.own
    obtain ⟨hend1, hadd1, -, -⟩ := onPipe_entries h1
    exact ⟨(h.terminatePipe (hp p hpipe) h1).processTermReq ho, hend.trans hend1, hadd.trans hadd1⟩

theorem Sound.apart {e' : EndpointEntry A O P} (h : Sound s l) (he : e ∈ l) (he' : e' ∈ l) (hne : e' ≠ e) :
    e'.own ≠ e.own ∧ ∀ p, e.pipe = some p → e'.pipe ≠ some p := by
  have hown : e'.own ≠ e.own := fun heq => hne (inj_on_of_nodup_map h.owns he' he heq)
  refine ⟨hown, fun p hp hp' => hown ?_⟩
  obtain ⟨d, hd, hs, -⟩ := (h.entry e he).pipe p hp
  obtain ⟨d', hd', hs', -⟩ := (h.entry e' he').pipe p hp'
  cases hd.symm.trans hd'
  exact some.inj (hs'.symm.trans hs)

theorem Sound.deliver [DecidableEq P] [DecidableEq O] (h : Sound s l) (hx : s.deliver = .ok s') :
    Sound s' l ∧ s'.endpoints = s.endpoints ∧ s'.adding = s.adding := by
  unfold EndpointTables.deliver at hx
  split at hx
  · exact ok.inj hx ▸ ⟨h, rfl, rfl⟩
  · rename_i cmd rest hm
    have hrest : Sound { s with mailbox := rest } l :=
      h.fewer (fun c hc => by rw [hm]; exact mem_cons_of_mem _ hc) (List.Sublist.refl _)
    cases cmd with
    | own o => exact ok.inj hx ▸ ⟨hrest.same rfl rfl rfl rfl, rfl, rfl⟩
    | termReq o =>
      obtain ⟨hend, hadd, -, -⟩ := processTermReq_entries { s with mailbox := rest } o
      have ho := (h.asked o (by rw [hm]; exact mem_cons_self)).2
      exact ok.inj hx ▸ ⟨hrest.processTermReq ho, hend, hadd⟩
    | termAck o =>
      dsimp only at hx
      split_ifs at hx
      cases hx
      refine ⟨?_, rfl, rfl⟩
      cases hc : s.objects o with
      | none =>
        refine hrest.same rfl ?_ rfl rfl
        exact update_eq_self_iff.mpr hc.symm
      | some c =>
        have hset : Sound ({ s with mailbox := rest }.setObject o { c with acked := true }) l := by
          refine hrest.setObject (fun e he heq c0 hc0 hruns hpipe => ?_) fun p hp => h.held o c p hc hp
          cases hc.symm.trans hc0
          exact ⟨⟨hruns.termed, hruns.pending, hruns.terminating, hruns.destroyed, hruns.timer⟩, hpipe⟩
        exact hset.same rfl rfl rfl rfl
    | bind p =>
      cases hx
      refine ⟨?_, rfl, rfl⟩
      cases hd : s.pipes p with
      | none =>
        refine hrest.same ?_ rfl rfl rfl
        exact update_eq_self_iff.mpr hd.symm
      | some d =>
        have hset : Sound ({ s with mailbox := rest }.setPipe p { d with attached := true }) l := by
          refine hrest.setPipe fun d0 hd0 => ?_
          cases hd.symm.trans hd0
          exact ⟨rfl, fun _ hq => hq, fun _ hl => hl⟩
        exact hset.same rfl rfl rfl rfl

theorem eraseP_gone [DecidableEq P] (hn : (inprocs.map (·.2)).Nodup) (hi : i ∈ inprocs.eraseP fun i => i.2 = p) : i.2 ≠ p := by
  induction inprocs with
  | nil => cases hi
  | cons j inprocs ih =>
    obtain ⟨hj, hn⟩ := nodup_cons.mp hn
    by_cases hjp : j.2 = p
    · rw [eraseP_cons_of_pos (by simpa using hjp)] at hi
      rintro rfl
      have hmem : i.2 ∈ inprocs.map (·.2) := mem_map_of_mem hi
      rw [← hjp] at hmem
      exact hj hmem
    · rw [eraseP_cons_of_neg (by simpa using hjp)] at hi
      rcases mem_cons.mp hi with rfl | hi
      · exact hjp
      · exact ih hn hi

theorem Sound.unacknowledged (h : Sound s l) (hd : s.pipes p = some d)
    (hack : (d.pair.inbox side).head? = some .pipeTermAck) : ∀ e ∈ l, e.pipe ≠ some p := by
  intro e he hp
  obtain ⟨d', hd', -, hq⟩ := (h.entry e he).pipe p hp
  cases hd.symm.trans hd'
  rcases hq.inbox side _ (mem_of_mem_head? (mem_def.mpr hack)) with hc | hc <;> cases hc

theorem Sound.deliverPipe [DecidableEq P] (h : Sound s l) (hk : s.options.immediate = true →
      (s.pipes p).any (fun d => (d.pair.inbox .first).head? = some .hiccup) = true → ∀ e ∈ l, e.pipe ≠ some p)
    (hx : s.deliverPipe more p = .ok s') : Sound s' l ∧ s'.endpoints = s.endpoints ∧ s'.adding = s.adding := by
  unfold EndpointTables.deliverPipe at hx
  split at hx
  · cases hx
  · rename_i d hd
    obtain ⟨s1, h1, h2⟩ := bind_ok hx
    obtain ⟨hend, hadd, hin, -⟩ := onPipe_entries h1
    have hquiet : ∀ d pair, s.pipes p = some d → d.pair.Quiet → d.pair.deliver .first = .ok pair → pair.Quiet :=
      fun _ _ _ hq hf => hq.deliver hf
    have hstay : (d.pair.inbox .first).head? ≠ some .pipeTermAck → Sound s1 l := by
      refine fun hne => h.onPipe h1 (fun _ => hquiet) fun _ d' pair hd' hf => EndPair.deliver_ends hf .first fun _ => ?_
      cases hd.symm.trans hd'
      exact hne
    split at h2
    · rename_i hhead
      have hs1 : Sound s1 l := hstay (by rw [hhead]; exact nofun)
      split_ifs at h2
      · unfold hiccuped at h2
        split_ifs at h2 with him
        · have hopt : s1.options = s.options := by
            obtain ⟨d0, pair, -, -, rfl⟩ := onPipe_ok h1
            rfl
          have hno := hk (hopt ▸ him) (by rw [hd]; exact decide_eq_true hhead)
          obtain ⟨hend2, hadd2, -, -⟩ := onPipe_entries h2
          exact ⟨hs1.terminatePipe hno h2, hend2.trans hend, hadd2.trans hadd⟩
        · exact ok.inj h2 ▸ ⟨hs1, hend, hadd⟩
      · exact ok.inj h2 ▸ ⟨hs1, hend, hadd⟩
    · rename_i hhead
      cases h2
      refine ⟨?_, hend, hadd⟩
      obtain ⟨d0, pair, hd0, hf, rfl⟩ := onPipe_ok h1
      have hfew : Sound (s.pipeTerminated p) l := h.fewer (fun _ hc => hc) (eraseP_sublist ..)
      have hset : Sound ((s.pipeTerminated p).setPipe p { d0 with pair := pair }) l := by
        refine hfew.setPipe fun d1 hd1 => ?_
        cases hd0.symm.trans hd1
        refine ⟨rfl, fun _ hq => hq.deliver hf, fun hmem => ?_⟩
        obtain ⟨i, hi, hip⟩ := hmem
        exact absurd hip (eraseP_gone h.single hi)
      exact hset.same rfl rfl rfl rfl
    · rename_i hne
      cases h2
      exact ⟨hstay hne, hend, hadd⟩

theorem Sound.stopped (h : Sound s l) (hc : s.objects o = some c) (hr : ¬ c.Runs) : ∀ e ∈ l, e.own ≠ o := by
  rintro e he rfl
  obtain ⟨c0, hc0, hruns, -⟩ := (h.entry e he).own
  exact hr (some.inj (hc.symm.trans hc0) ▸ hruns)

theorem Sound.own_pipe (h : Sound s l) (hc : s.objects o = some c) (hp : c.pipe = some p ∨ p ∈ c.terminatingPipes)
    (he : e ∈ l) (hep : e.pipe = some p) : e.own = o := by
  obtain ⟨d, hd, hs⟩ := h.held o c p hc hp
  obtain ⟨d', hd', hs', -⟩ := (h.entry e he).pipe p hep
  cases hd.symm.trans hd'
  exact some.inj (hs'.symm.trans hs)

theorem onPipe_held [DecidableEq P] (hx : s.onPipe p f = .ok s')
    (hq : ∃ d, s.pipes q = some d ∧ d.session = some o) : ∃ d, s'.pipes q = some d ∧ d.session = some o := by
  obtain ⟨d, hd, hs⟩ := hq
  obtain ⟨d0, pair, hd0, -, rfl⟩ := onPipe_ok hx
  rcases eq_or_ne q p with rfl | hne
  · cases hd.symm.trans hd0
    exact ⟨_, update_self _ _ _, hs⟩
  · exact ⟨d, (update_of_ne hne _ _).trans hd, hs⟩

theorem Sound.sessionPipeTerminated [DecidableEq P] [DecidableEq O] (h : Sound s l) (hc : s.objects o = some c) (hp : ∀ e ∈ l, e.pipe ≠ some p)
    (hk : c.options.rawSocket = true → ∀ e ∈ l, e.own ≠ o) : Sound (s.sessionPipeTerminated o c p) l ∧
      (s.sessionPipeTerminated o c p).endpoints = s.endpoints ∧ (s.sessionPipeTerminated o c p).adding = s.adding := by
  -- what is left of the session, whether it then terminates or not
  have hkeep : ∀ c1 : EndpointOwn P, (c.Runs → c1.Runs) → (∀ q, q ≠ p → c.pipe = some q → c1.pipe = some q) →
      (∀ q, c1.pipe = some q ∨ q ∈ c1.terminatingPipes → c.pipe = some q ∨ q ∈ c.terminatingPipes) →
      c1.options = c.options → c1.subscribeToAll = c.subscribeToAll → Sound (s.setObject o c1.settle) l := by
    intro c1 hruns hpipe hheld hopt hall
    obtain ⟨hsp, hst⟩ := settle_pipes c1
    refine h.setObject (fun e he heq c0 hc0 hr hep => ?_) fun q hq => h.held o c q hc (hheld q (by rwa [hsp, hst] at hq))
    cases hc.symm.trans hc0
    have hsettle : c1.settle = c1 := by
      unfold settle
      rw [if_neg fun hc => absurd ((hruns hr).pending.symm.trans hc.1) (by decide)]
    rw [hsettle]
    refine ⟨hruns hr, fun q hq => ?_⟩
    have hne : q ≠ p := fun heq' => hp e he (heq' ▸ hq)
    obtain ⟨hq', hstays⟩ := hep q hq
    refine ⟨hpipe q hne hq', ?_⟩
    unfold Stays
    rw [hopt, hall]
    exact hstays
  unfold EndpointTables.sessionPipeTerminated
  dsimp only
  have hraw : ∀ c1 c2 : EndpointOwn P, Sound (s.setObject o c1) l → c2.options = c.options →
      c2.terminating = false ∧ c2.options.rawSocket = true → Sound ((s.setObject o c1).terminate o c2) l := by
    intro c1 c2 hs1 hopt hcond
    unfold terminate
    rw [if_neg (by rw [hcond.1]; decide)]
    refine hs1.post fun o' ho' => ?_
    obtain rfl : o = o' := by
      injection ho'
    exact ⟨congrArg isSome (setObject_self s o c1), hk (hopt ▸ hcond.2)⟩
  have hterm : ∀ c1 c2 : EndpointOwn P, ((s.setObject o c1).terminate o c2).endpoints = s.endpoints ∧
      ((s.setObject o c1).terminate o c2).adding = s.adding := by
    intro c1 c2
    unfold terminate
    split_ifs <;> exact ⟨rfl, rfl⟩
  by_cases hcp : c.pipe = some p
  · have hlost : ∀ q, q ≠ p → c.pipe = some q → (none : Option P) = some q := fun q hne hq =>
      absurd (some.inj (hq.symm.trans hcp)) hne
    split_ifs with hcond
    · refine ⟨hraw _ _ (hkeep _ (fun hr => ⟨hr.1, hr.2, hr.3, hr.4, rfl⟩) hlost (fun q hq => .inr (hq.resolve_left ?_)) rfl rfl)
        (by rfl) hcond, hterm _ _⟩
      exact nofun
    · refine ⟨hkeep _ (fun hr => ⟨hr.1, hr.2, hr.3, hr.4, rfl⟩) hlost (fun q hq => .inr (hq.resolve_left ?_)) rfl rfl, rfl, rfl⟩
      exact nofun
  · have hfew : ∀ q, c.pipe = some q ∨ q ∈ c.terminatingPipes.erase p → c.pipe = some q ∨ q ∈ c.terminatingPipes :=
      fun q hq => hq.imp_right mem_of_mem_erase
    split_ifs with hcond
    · exact ⟨hraw _ _ (hkeep _ (fun hr => ⟨hr.1, hr.2, hr.3, hr.4, hr.5⟩) (fun q _ hq => hq) hfew rfl rfl) (by rfl) hcond, hterm _ _⟩
    · exact ⟨hkeep _ (fun hr => ⟨hr.1, hr.2, hr.3, hr.4, hr.5⟩) (fun q _ hq => hq) hfew rfl rfl, rfl, rfl⟩

theorem Sound.deliverPeer [DecidableEq P] [DecidableEq O] (h : Sound s l) (hk : ∀ d o c, s.pipes p = some d → (d.pair.inbox .second).head? = some .pipeTermAck →
      d.session = some o → s.objects o = some c → c.options.rawSocket = true → ∀ e ∈ l, e.own ≠ o)
    (hx : s.deliverPeer p = .ok s') : Sound s' l ∧ s'.endpoints = s.endpoints ∧ s'.adding = s.adding := by
  unfold EndpointTables.deliverPeer at hx
  split at hx
  · cases hx
  · rename_i d hd
    obtain ⟨s1, h1, h2⟩ := bind_ok hx
    obtain ⟨hend, hadd, hin, hobj⟩ := onPipe_entries h1
    have hs1 : Sound s1 l := h.onPipe h1 (fun _ _ _ _ hq hf => hq.deliver hf) fun _ _ _ _ hf =>
      EndPair.deliver_ends hf .first nofun
    split_ifs at h2 with hack
    · split at h2
      · exact ok.inj h2 ▸ ⟨hs1, hend, hadd⟩
      · rename_i o c hoc
        obtain ⟨o', ho', hoc⟩ := bind_eq_some_iff.mp hoc
        obtain ⟨c', hc', hoc⟩ := map_eq_some_iff.mp hoc
        obtain ⟨rfl, rfl⟩ := Prod.mk.inj hoc
        cases h2
        obtain ⟨hs2, hend2, hadd2⟩ := hs1.sessionPipeTerminated hc' (h.unacknowledged hd hack)
          (hk d o' c' hd hack ho' (hobj ▸ hc'))
        exact ⟨hs2, hend2.trans hend, hadd2.trans hadd⟩
    · exact ok.inj h2 ▸ ⟨hs1, hend, hadd⟩

theorem Sound.processAttach [DecidableEq P] [DecidableEq O] (h : Sound s l) (hc : s.objects o = some c) (hp : (s.pipes p).isNone = true) :
    Sound (s.processAttach o c p) l ∧ (s.processAttach o c p).endpoints = s.endpoints ∧
      (s.processAttach o c p).adding = s.adding := by
  unfold EndpointTables.processAttach
  split_ifs with hcond
  · refine ⟨?_, rfl, rfl⟩
    have hcreate : Sound (s.createPipe p c.options.conflate (some o) false) l := h.createPipe hp
    have hset : Sound ((s.createPipe p c.options.conflate (some o) false).setObject o
        { c with pipe := some p, engine := true }) l := by
      refine hcreate.setObject (fun e he heq c0 hc0 hr hep => ?_) fun q hq => ?_
      · cases hc.symm.trans hc0
        refine ⟨⟨hr.1, hr.2, hr.3, hr.4, hr.5⟩, fun q hq => ?_⟩
        have hnone := hcond.1
        rw [(hep q hq).1] at hnone
        cases hnone
      · rcases hq with hq | hq
        · cases hq
          exact ⟨_, update_self _ _ _, rfl⟩
        · exact hcreate.held o c q hc (.inr hq)
    exact hset.post fun o' ho' => by cases ho'
  · refine ⟨h.setObject (fun e he heq c0 hc0 hr hep => ?_) fun q hq => h.held o c q hc hq, rfl, rfl⟩
    cases hc.symm.trans hc0
    exact ⟨⟨hr.1, hr.2, hr.3, hr.4, hr.5⟩, hep⟩

theorem Sound.setSession [DecidableEq O] (h : Sound s l) (hc : s.objects o = some c) (hr : c.Runs → c'.Runs) (hp : c'.pipe = c.pipe)
    (ht : c'.terminatingPipes = c.terminatingPipes) (hopt : c'.options = c.options) (hall : c'.subscribeToAll = c.subscribeToAll) :
    Sound (s.setObject o c') l := by
  refine h.setObject (fun e he heq c0 hc0 hruns hep => ?_) fun q hq => h.held o c q hc (by rwa [hp, ht] at hq)
  cases hc.symm.trans hc0
  refine ⟨hr hruns, fun q hq => ?_⟩
  rw [hp]
  unfold Stays
  rw [hopt, hall]
  exact hep q hq

theorem Sound.reconnect [DecidableEq P] [DecidableEq O] (h : Sound s l) (hc : s.objects o = some c) (hr : c.Runs → c'.Runs) (hp : c'.pipe = c.pipe)
    (ht : c'.terminatingPipes = c.terminatingPipes) (hopt : c'.options = c.options) (hall : c'.subscribeToAll = c.subscribeToAll)
    (hx : s.reconnect more o c' = .ok s') : Sound s' l ∧ s'.endpoints = s.endpoints ∧ s'.adding = s.adding := by
  unfold EndpointTables.reconnect at hx
  split at hx
  · exact ok.inj hx ▸ ⟨h.setSession hc hr hp ht hopt hall, rfl, rfl⟩
  · rename_i p hcp
    have hcp' : c.pipe = some p := hp.symm.trans hcp
    split_ifs at hx with him hsub
    · obtain ⟨s1, h1, hx⟩ := bind_ok hx
      obtain ⟨s2, h2, hx⟩ := bind_ok hx
      cases hx
      have hno : ∀ e ∈ l, e.pipe ≠ some p := by
        intro e he hep
        obtain ⟨c0, hc0, -, hstays⟩ := (h.entry e he).own
        rw [h.own_pipe hc (.inl hcp') he hep] at hc0
        cases hc.symm.trans hc0
        have hsub := (hstays p hep).2 (hopt ▸ him.1)
        rw [← hall, him.2] at hsub
        cases hsub
      have hs1 : Sound s1 l := h.onPipe h1 (fun he => absurd he fun ⟨e, he, hep⟩ => hno e he hep) fun _ _ _ _ hf =>
        EndPair.hiccup_ends hf .first
      have hs2 : Sound s2 l := hs1.terminatePipe hno h2
      obtain ⟨hend1, hadd1, -, hobj1⟩ := onPipe_entries h1
      obtain ⟨hend2, hadd2, -, hobj2⟩ := onPipe_entries h2
      refine ⟨hs2.setObject (fun e he heq c0 hc0 hruns hep => ?_) fun q hq => ?_, hend2.trans hend1, hadd2.trans hadd1⟩
      · rw [hobj2, hobj1] at hc0
        cases hc.symm.trans hc0
        obtain ⟨h1, h2, h3, h4, h5⟩ := hr hruns
        refine ⟨⟨h1, h2, h3, h4, h5⟩, fun q hq => ?_⟩
        have hqp : q = p := some.inj ((hep q hq).1.symm.trans hcp')
        exact absurd (hqp ▸ hq) (hno e he)
      · refine onPipe_held h2 (onPipe_held h1 (h.held o c q hc ?_))
        rcases hq with hq | hq
        · cases hq
        · rcases mem_cons.mp hq with rfl | hq
          · exact .inl hcp'
          · exact .inr (ht ▸ hq)
    · obtain ⟨s1, h1, hx⟩ := bind_ok hx
      cases hx
      obtain ⟨hend1, hadd1, -, hobj1⟩ := onPipe_entries h1
      have hs1 : Sound s1 l := h.onPipe h1 (fun _ _ _ _ hq hf => hq.hiccup hf) fun _ _ _ _ hf => EndPair.hiccup_ends hf .first
      exact ⟨hs1.setSession (by rw [hobj1]; exact hc) hr hp ht hopt hall, hend1, hadd1⟩
    · exact ok.inj hx ▸ ⟨h.setSession hc hr hp ht hopt hall, rfl, rfl⟩

theorem Sound.engineError [DecidableEq P] [DecidableEq O] {reason : ErrorReason} (h : Sound s l) (hc : s.objects o = some c)
    (hk : reason = .protocolError → ∀ e ∈ l, e.own ≠ o) (hx : s.engineError more o c reason = .ok s') :
    Sound s' l ∧ s'.endpoints = s.endpoints ∧ s'.adding = s.adding := by
  have hruns : c.Runs → EndpointOwn.Runs { c with engine := false } := fun hr => ⟨hr.1, hr.2, hr.3, hr.4, hr.5⟩
  unfold EndpointTables.engineError at hx
  cases reason with
  | timeoutError | connectionError => exact h.reconnect hc hruns rfl rfl rfl rfl hx
  | protocolError =>
    cases hx
    have hset : Sound (s.setObject o { c with engine := false }) l := h.setSession hc hruns rfl rfl rfl rfl
    unfold terminate
    split_ifs
    · exact ⟨hset, rfl, rfl⟩
    · refine ⟨hset.post fun o' ho' => ?_, rfl, rfl⟩
      obtain rfl : o = o' := by
        injection ho'
      exact ⟨congrArg isSome (setObject_self s o _), hk rfl⟩

theorem Sound.stop [DecidableEq P] [DecidableEq O] (h : Sound s l) (hc : s.objects o = some c) (hr : ¬ c.Runs) (hp : c.pipe = some p)
    (hx : s.onPipe p (·.terminate more .second delay) = .ok s') (hp' : c'.pipe = c.pipe)
    (ht : c'.terminatingPipes = c.terminatingPipes) : Sound (s'.setObject o c') l ∧ s'.endpoints = s.endpoints ∧
      s'.adding = s.adding := by
  have ho := h.stopped hc hr
  obtain ⟨hend, hadd, -, -⟩ := onPipe_entries hx
  have hs1 : Sound s' l := h.terminatePipe (fun e he hep => ho e he (h.own_pipe hc (.inl hp) he hep)) hx
  exact ⟨hs1.setObject (fun e he heq => absurd heq (ho e he)) fun q hq =>
    onPipe_held hx (h.held o c q hc (by rwa [hp', ht] at hq)), hend, hadd⟩

theorem Sound.processTerm [DecidableEq P] [DecidableEq O] {linger : ℤ} (h : Sound s l) (hc : s.objects o = some c) (hr : ¬ c.Runs)
    (hx : s.processTerm more o c linger = .ok s') : Sound s' l ∧ s'.endpoints = s.endpoints ∧ s'.adding = s.adding := by
  have ho := h.stopped hc hr
  have hset : ∀ c1 : EndpointOwn P, c1.pipe = c.pipe → c1.terminatingPipes = c.terminatingPipes → Sound (s.setObject o c1) l :=
    fun c1 hp ht => h.setObject (fun e he heq => absurd heq (ho e he)) fun q hq => h.held o c q hc (by rwa [hp, ht] at hq)
  unfold EndpointTables.processTerm at hx
  dsimp only at hx
  split_ifs at hx
  · exact ok.inj hx ▸ ⟨hset _ rfl rfl, rfl, rfl⟩
  · split at hx
    · obtain ⟨hp, ht⟩ := settle_pipes { c with termed := false, pending := true }
      exact ok.inj hx ▸ ⟨hset _ hp ht, rfl, rfl⟩
    · rename_i p hp
      obtain ⟨s1, h1, h2⟩ := bind_ok hx
      exact ok.inj h2 ▸ h.stop hc hr hp h1 rfl rfl

theorem Sound.timerEvent [DecidableEq P] [DecidableEq O] (h : Sound s l) (hc : s.objects o = some c) (hr : ¬ c.Runs) (hx : s.timerEvent more o c = .ok s') :
    Sound s' l ∧ s'.endpoints = s.endpoints ∧ s'.adding = s.adding := by
  unfold EndpointTables.timerEvent at hx
  split at hx
  · cases hx
  · rename_i p hp
    obtain ⟨s1, h1, h2⟩ := bind_ok hx
    exact ok.inj h2 ▸ h.stop hc hr hp h1 rfl rfl

theorem start_sound {type : SocketType} {options : EndpointOptions} :
    Sound (new type options : EndpointTables A O P F) [] where
  owns := nodup_nil
  entry _ he := nomatch he
  asked _ hm := nomatch hm
  held _ _ _ hc := by cases hc
  inprocs _ he := nomatch he
  single := nodup_nil

theorem Sound.entries (h : Sound s' s.entries) (hend : s'.endpoints = s.endpoints) (hadd : s'.adding = s.adding) :
    Sound s' s'.entries := by
  have hsame : s'.entries = s.entries := by
    unfold EndpointTables.entries
    rw [hend, hadd]
  rwa [hsame]

theorem object_cases {holds : EndpointOwn P → Bool} (h : s.Object o holds) : ∃ c, s.objects o = some c ∧ holds c = true := by
  obtain ⟨c, hc, hh⟩ := (any_eq_true _ _).mp h
  exact ⟨c, hc, ((Bool.and_eq_true _ _).mp hh).2⟩

theorem onObject_ok {f : EndpointOwn P → Except Fault (EndpointTables A O P F)} (hc : s.objects o = some c)
    (hx : s.onObject o f = .ok s') : f c = .ok s' := by
  unfold onObject at hx
  rwa [hc] at hx

variable {resolved : List A} {x : Fault}

theorem Sound.termEndpoint [DecidableEq P] [DecidableEq O] [DecidableEq A] {r : Bool} (h : Sound s s.entries) (hidle : s.adding = none)
    (hx : s.termEndpoint more addr resolved = .ok (r, s')) : Sound s' s'.entries := by
  unfold EndpointTables.termEndpoint at hx
  split at hx
  · cases hx
    exact h
  · rename_i a ha
    have hentries : s.entries = s.endpoints := by
      unfold EndpointTables.entries
      rw [hidle]
      exact append_nil _
    rw [hentries] at h
    obtain ⟨s1, h1, h2⟩ := bind_ok hx
    cases h2
    have hfew : Sound s (s.endpoints.filter fun e => e.addr ≠ a) := h.sublist filter_sublist
    -- those that go are apart from those that stay
    obtain ⟨hsound, hend, hadd⟩ := foldlM_keeps
      (fun s' : EndpointTables A O P F => Sound s' (s.endpoints.filter fun e => e.addr ≠ a) ∧ s'.endpoints = s.endpoints ∧
        s'.adding = s.adding) (fun s2 s3 e he hs2 hx2 => by
          obtain ⟨heold, hea⟩ := mem_filter.mp he
          have hapart : ∀ e' ∈ s.endpoints.filter (fun e => e.addr ≠ a), e'.own ≠ e.own ∧ ∀ p, e.pipe = some p → e'.pipe ≠ some p := by
            intro e' he'
            obtain ⟨hold', hne'⟩ := mem_filter.mp he'
            refine h.apart heold hold' ?_
            rintro rfl
            exact absurd (of_decide_eq_true hea) (of_decide_eq_true hne')
          obtain ⟨hs3, hend3, hadd3⟩ := hs2.1.termOne (fun e' he' => (hapart e' he').1)
            (fun p hp e' he' => (hapart e' he').2 p hp) hx2
          exact ⟨hs3, hend3.trans hs2.2.1, hadd3.trans hs2.2.2⟩) ⟨hfew, rfl, rfl⟩ h1
    have hnow : ({ s1 with endpoints := s1.endpoints.filter fun e => e.addr ≠ a } : EndpointTables A O P F).entries =
        s.endpoints.filter fun e => e.addr ≠ a := by
      unfold EndpointTables.entries
      rw [hadd, hidle, hend]
      exact append_nil _
    rw [hnow]
    exact hsound.same rfl rfl rfl rfl

theorem Sound.inproc_apart (h : Sound s l) (hi : i ∈ s.inprocs) : ∀ e ∈ l, e.pipe ≠ some i.2 := by
  intro e he hp
  obtain ⟨d, hd, hs, -⟩ := (h.entry e he).pipe _ hp
  obtain ⟨d', hd', hs', -⟩ := h.inprocs i hi
  cases hd.symm.trans hd'
  rw [hs] at hs'
  cases hs'

theorem Sound.termInproc [DecidableEq P] [DecidableEq A] {bound r : Bool} (h : Sound s l) (hx : s.termInproc more addr bound = .ok (r, s')) :
    Sound s' l ∧ s'.endpoints = s.endpoints ∧ s'.adding = s.adding := by
  unfold EndpointTables.termInproc at hx
  split_ifs at hx
  · cases hx
    exact ⟨h, rfl, rfl⟩
  · obtain ⟨s1, h1, h2⟩ := bind_ok hx
    cases h2
    obtain ⟨hsound, hend, hadd, hin⟩ := foldlM_keeps
      (fun s' : EndpointTables A O P F => Sound s' l ∧ s'.endpoints = s.endpoints ∧ s'.adding = s.adding ∧ s'.inprocs = s.inprocs)
      (fun s2 s3 i hi hs2 hx2 => by
        have hmem : i ∈ s2.inprocs := hs2.2.2.2 ▸ mem_of_mem_filter hi
        obtain ⟨hend, hadd, hin, -⟩ := onPipe_entries hx2
        exact ⟨hs2.1.terminatePipe (hs2.1.inproc_apart hmem) hx2, hend.trans hs2.2.1, hadd.trans hs2.2.2.1,
          hin.trans hs2.2.2.2⟩) ⟨h, rfl, rfl, rfl⟩ h1
    exact ⟨hsound.fewer (fun _ hc => hc) filter_sublist, hend, hadd⟩
  · cases hx
    exact ⟨h, rfl, rfl⟩

theorem step_sound [DecidableEq P] [DecidableEq O] [DecidableEq A] {op : Op A O P F} (h : Sound s s.entries) (hk : s.Keeps op) (hx : Step more s op s') :
    Sound s' s'.entries := by
  obtain ⟨hready, hrun⟩ := hx
  have hdone : ∀ {s'}, Sound s' s.entries ∧ s'.endpoints = s.endpoints ∧ s'.adding = s.adding → Sound s' s'.entries :=
    fun hs => hs.1.entries hs.2.1 hs.2.2
  have hidle : s.Idle → s.entries = s.endpoints := by
    intro hi
    unfold entries
    rw [isNone_iff_eq_none.mp hi.1]
    exact append_nil _
  cases op with
  | setsockopt options => exact ok.inj hrun ▸ hdone ⟨h.same rfl rfl rfl rfl, rfl, rfl⟩
  | connectInproc addr p => exact ok.inj hrun ▸ hdone ⟨h.connectInproc hready.2, rfl, rfl⟩
  | connect addr o p subscribeToAll =>
    cases hrun
    obtain ⟨hi, ho, hp⟩ := hready
    rw [hidle hi] at h
    unfold connect
    split_ifs with hsingle hpipe
    · rwa [hidle hi]
    · refine h.launchPiped ho hp ⟨rfl, rfl, rfl, rfl, rfl⟩ rfl (fun him => hpipe.resolve_left fun hf => ?_) rfl
      exact absurd (hf.symm.trans him) (by decide)
    · exact h.launch ho ⟨rfl, rfl, rfl, rfl, rfl⟩ nofun rfl
  | bindUdp addr o p =>
    cases hrun
    obtain ⟨hi, ho, hp⟩ := hready
    rw [hidle hi] at h
    exact h.launchPiped ho hp ⟨rfl, rfl, rfl, rfl, rfl⟩ rfl (fun _ => rfl) rfl
  | bind addr o =>
    cases hrun
    obtain ⟨hi, ho⟩ := hready
    rw [hidle hi] at h
    exact h.launch ho ⟨rfl, rfl, rfl, rfl, rfl⟩ nofun rfl
  | add =>
    cases hrun
    obtain ⟨e, he⟩ := isSome_iff_exists.mp hready
    have hentries : s.add.entries = s.entries := by
      unfold add entries
      rw [he]
      exact append_nil _
    rw [hentries]
    have hpost : Sound (s.post (.own e.own)) s.entries := h.post fun o ho => by cases ho
    unfold add
    rw [he]
    exact hpost.same rfl rfl rfl rfl
  | termEndpoint addr resolved =>
    obtain ⟨⟨r, s1⟩, h1, h2⟩ := bind_ok hrun
    exact ok.inj h2 ▸ h.termEndpoint (isNone_iff_eq_none.mp hready.1) h1
  | termInproc addr bound =>
    obtain ⟨⟨r, s1⟩, h1, h2⟩ := bind_ok hrun
    exact ok.inj h2 ▸ hdone (h.termInproc h1)
  | terminate p delay =>
    have hx : s.onPipe p (·.terminate more .first delay) = .ok s' := hrun
    obtain ⟨hend, hadd, -, -⟩ := onPipe_entries hx
    exact hdone ⟨h.terminatePipe (fun e he hp => hk ⟨e, he, hp⟩) hx, hend, hadd⟩
  | deliver => exact hdone (h.deliver hrun)
  | deliverPipe p => exact hdone (h.deliverPipe (fun him hd e he hp => hk him hd ⟨e, he, hp⟩) hrun)
  | call side p c =>
    have hx : s.onPipe p (·.call more side c) = .ok s' := hrun
    obtain ⟨hend, hadd, -, -⟩ := onPipe_entries hx
    exact hdone ⟨h.onPipe hx (fun _ _ _ _ hq hf => hq.call hf) fun _ _ _ _ hf => EndPair.method_ends hf .first, hend, hadd⟩
  | offer p conflate =>
    cases hrun
    have hcreate : Sound (s.createPipe p conflate none false) s.entries := h.createPipe hready
    exact hdone ⟨hcreate.post fun o ho => (by cases ho), rfl, rfl⟩
  | peerTerminate p delay =>
    have hx : s.onPipe p (·.terminate more .second delay) = .ok s' := hrun
    obtain ⟨hend, hadd, -, -⟩ := onPipe_entries hx
    obtain ⟨d, hd, hs⟩ := (any_eq_true _ _).mp hready
    have hno : ∀ e ∈ s.entries, e.pipe ≠ some p := by
      intro e he hp
      obtain ⟨d', hd', hs', -⟩ := (h.entry e he).pipe p hp
      cases hd.symm.trans hd'
      rw [hs'] at hs
      cases hs
    exact hdone ⟨h.terminatePipe hno hx, hend, hadd⟩
  | deliverPeer p =>
    refine hdone (h.deliverPeer (fun d o c hd hack hs hc hraw e he heq => ?_) hrun)
    have hno : (s.pipes p).any (fun d => (d.pair.inbox .second).head? = some .pipeTermAck ∧
      d.session.any fun o => (s.objects o).any (·.options.rawSocket) ∧ ∃ e ∈ s.entries, e.own = o) = false := hk
    rw [hd, any_some, hs, any_some, hc] at hno
    exact of_decide_eq_false hno ⟨hack, decide_eq_true ⟨hraw, e, he, heq⟩⟩
  | attach o p =>
    obtain ⟨c, hc, -⟩ := object_cases hready.1
    exact ok.inj (onObject_ok hc hrun) ▸ hdone (h.processAttach hc hready.2)
  | engineError o reason =>
    obtain ⟨c, hc, -⟩ := object_cases hready
    exact hdone (h.engineError hc (fun hr e he heq => hk hr ⟨e, he, heq⟩) (onObject_ok hc hrun))
  | processTerm o linger =>
    obtain ⟨c, hc, ht⟩ := object_cases hready
    exact hdone (h.processTerm hc (fun hr => absurd (hr.termed.symm.trans ht) (by decide)) (onObject_ok hc hrun))
  | timer o =>
    obtain ⟨c, hc, ht⟩ := object_cases hready
    exact hdone (h.timerEvent hc (fun hr => absurd (hr.timer.symm.trans ht) (by decide)) (onObject_ok hc hrun))
  | acknowledge o =>
    obtain ⟨c, hc, ht⟩ := object_cases hready
    have ho := h.stopped hc fun hr => absurd (hr.terminating.symm.trans ht) (by decide)
    have hset : Sound (s.setObject o { c with destroyed := true }) s.entries :=
      h.setObject (fun e he heq => absurd heq (ho e he)) fun q hq => h.held o c q hc hq
    exact ok.inj (onObject_ok hc hrun) ▸ hdone ⟨hset.post fun o' ho' => (by cases ho'), rfl, rfl⟩

theorem run_sound [DecidableEq P] [DecidableEq O] [DecidableEq A] {ops : List (Op A O P F)} (h : Run Start (Guarded Keeps (Step more)) ops s) : Sound s s.entries := by
  refine h.invariant (fun s => Sound s s.entries) ?_ fun _ _ _ hs hstep => step_sound hs hstep.1 hstep.2
  rintro s ⟨type, options, rfl⟩
  exact start_sound

/-! ## What the tables point to -/

theorem Sound.live (h : Sound s l) (he : e ∈ l) : s.LiveOwn e.own ∧ ∀ p, e.pipe = some p → s.LivePipe p := by
  obtain ⟨c, hc, hruns, -⟩ := (h.entry e he).own
  refine ⟨?_, fun p hp => ?_⟩
  · unfold LiveOwn
    rw [hc, any_some, hruns.destroyed]
    rfl
  · obtain ⟨d, hd, -, hq⟩ := (h.entry e he).pipe p hp
    obtain ⟨p1, hp1, -⟩ := hq.ends .first
    unfold LivePipe
    rw [hd, any_some, hp1]
    rfl

theorem live_terminate [DecidableEq P] (hx : s.onPipe p (·.terminate more .first delay) = .ok s') (hq : s.LivePipe q) : s'.LivePipe q := by
  obtain ⟨d, pair, hd, hf, rfl⟩ := onPipe_ok hx
  unfold LivePipe at hq ⊢
  rcases eq_or_ne q p with rfl | hne
  · rw [hd] at hq
    rw [show (s.setPipe q { d with pair := pair }).pipes q = some { d with pair := pair } from update_self _ _ _]
    exact (EndPair.method_ends hf .first).trans hq
  · rwa [show (s.setPipe p { d with pair := pair }).pipes q = s.pipes q from update_of_ne hne _ _]

theorem terminate_fails [DecidableEq P] (hp : s.LivePipe p)
    (hx : s.onPipe p (·.terminate more .first delay) = .error x) : x = .assertion := by
  obtain ⟨d, hd, hlive⟩ := (any_eq_true _ _).mp hp
  unfold onPipe at hx
  rw [hd] at hx
  cases ht : d.pair.terminate more .first delay with
  | error x' =>
    simp only [ht] at hx
    exact error.inj hx ▸ EndPair.terminate_error hlive ht
  | ok pair =>
    simp only [ht] at hx
    cases hx

theorem live_termOne [DecidableEq P] [DecidableEq O] (hx : s.termOne more e = .ok s') (hq : s.LivePipe q) : s'.LivePipe q := by
  have hreq : ∀ s : EndpointTables A O P F, s.LivePipe q → (s.processTermReq e.own).LivePipe q := by
    intro s hs
    unfold LivePipe
    rw [(processTermReq_entries s e.own).2.2.2]
    exact hs
  unfold termOne at hx
  split at hx
  · exact ok.inj hx ▸ hreq s hq
  · obtain ⟨s1, h1, h2⟩ := bind_ok hx
    exact ok.inj h2 ▸ hreq s1 (live_terminate h1 hq)

theorem termOne_fails [DecidableEq P] [DecidableEq O] (hp : ∀ p, e.pipe = some p → s.LivePipe p) (hx : s.termOne more e = .error x) : x = .assertion := by
  unfold termOne at hx
  split at hx
  · cases hx
  · rename_i p hpipe
    cases h1 : s.onPipe p (·.terminate more .first false) with
    | ok s1 =>
      rw [h1] at hx
      cases hx
    | error x' =>
      rw [h1] at hx
      exact error.inj hx ▸ terminate_fails (hp p hpipe) h1

theorem termEndpoint_fails [DecidableEq P] [DecidableEq O] [DecidableEq A]
    (h : ∀ e ∈ s.endpoints, ∀ p, e.pipe = some p → s.LivePipe p) (hx : s.termEndpoint more addr resolved = .error x) :
    x = .assertion := by
  unfold termEndpoint at hx
  split at hx
  · cases hx
  · rename_i a ha
    cases hf : (s.endpoints.filter fun e => e.addr = a).foldlM (termOne more) s with
    | ok s1 =>
      rw [hf] at hx
      cases hx
    | error x' =>
      rw [hf] at hx
      cases hx
      generalize hfew : (s.endpoints.filter fun e => e.addr = a) = few at hf
      have hlive : ∀ e ∈ few, ∀ p, e.pipe = some p → s.LivePipe p :=
        fun e he => h e (mem_of_mem_filter (hfew ▸ he))
      refine foldlM_fails (fun s' => ∀ e ∈ few, ∀ p, e.pipe = some p → s'.LivePipe p)
        (fun s1 s2 e he hs hx e' he' p hp => live_termOne hx (hs e' he' p hp)) (fun s1 e x he hs hx => ?_) hlive hf
      exact termOne_fails (hs e he) hx

theorem termInproc_fails [DecidableEq P] [DecidableEq A] {bound : Bool} (h : ∀ i ∈ s.inprocs, s.LivePipe i.2)
    (hx : s.termInproc more addr bound = .error x) : x = .assertion := by
  unfold termInproc at hx
  split_ifs at hx
  cases hf : (s.inprocs.filter fun e => e.1 = addr).foldlM (fun s e => s.onPipe e.2 (·.terminate more .first true)) s with
  | ok s1 =>
    rw [hf] at hx
    cases hx
  | error x' =>
    rw [hf] at hx
    cases hx
    generalize hfew : (s.inprocs.filter fun e => e.1 = addr) = few at hf
    have hlive : ∀ i ∈ few, s.LivePipe i.2 := fun i hi => h i (mem_of_mem_filter (hfew ▸ hi))
    refine foldlM_fails (fun s' => ∀ i ∈ few, s'.LivePipe i.2)
      (fun s1 s2 e he hs hx i hi => live_terminate hx (hs i hi)) (fun s1 i x hi hs hx => ?_) hlive hf
    exact terminate_fails (hs i hi) hx

/-- As long as nothing that `endpoints` points to ends on its own, the tables point to what is alive, and so does every pointer
that `term_endpoint` follows. -/
theorem endpoints_stay_alive [DecidableEq P] [DecidableEq O] [DecidableEq A] {ops : List (Op A O P F)} (h : Run Start (Guarded Keeps (Step more)) ops s) :
    (∀ e ∈ s.endpoints, s.LiveOwn e.own ∧ ∀ p, e.pipe = some p → s.LivePipe p) ∧ (∀ i ∈ s.inprocs, s.LivePipe i.2) ∧
      (∀ addr resolved, s.termEndpoint more addr resolved ≠ .error .useAfterFree) ∧
      ∀ addr bound, s.termInproc more addr bound ≠ .error .useAfterFree := by
  have hs := run_sound h
  have hend : ∀ e ∈ s.endpoints, s.LiveOwn e.own ∧ ∀ p, e.pipe = some p → s.LivePipe p :=
    fun e he => hs.live (mem_append_left _ he)
  have hin : ∀ i ∈ s.inprocs, s.LivePipe i.2 := by
    intro i hi
    obtain ⟨d, hd, -, hlive⟩ := hs.inprocs i hi
    unfold LivePipe
    rw [hd]
    exact hlive
  refine ⟨hend, hin, fun addr resolved hx => ?_, fun addr bound hx => ?_⟩
  · cases termEndpoint_fails (fun e he => (hend e he).2) hx
  · cases termInproc_fails hin hx

def reconnecting : List (Op ℕ ℕ ℕ Unit) :=
  [.connect 0 0 0 false, .add, .deliver, .attach 0 1, .engineError 0 .connectionError, .attach 0 1]

theorem endpoints_stay_alive_reconnecting : ∃ s : EndpointTables ℕ ℕ ℕ Unit, s.endpoints = [⟨0, 0, some 0⟩] ∧
    s.LiveOwn 0 ∧ s.LivePipe 0 := by
  have hstart : Start (new .dealer ⟨false, false, false⟩ : EndpointTables ℕ ℕ ℕ Unit) := ⟨_, _, rfl⟩
  obtain ⟨s, hrun, hs⟩ := run_of_play hstart
    (show (play Ready (run fun _ => false) Keeps (new .dealer ⟨false, false, false⟩) reconnecting).map (fun s => s.endpoints) =
      some [⟨0, 0, some 0⟩] by decide)
  obtain ⟨hlive, -⟩ := endpoints_stay_alive hrun
  obtain ⟨hown, hpipe⟩ := hlive ⟨0, 0, some 0⟩ (hs ▸ mem_cons_self)
  exact ⟨s, hs, hown, hpipe 0 rfl⟩

/-- A session that meets a protocol error terminates, with its pipe, and stays in the table. -/
def failing : List (Op ℕ ℕ ℕ Unit) :=
  [.connect 0 0 0 false, .add, .deliver, .attach 0 1, .engineError 0 .protocolError, .deliver, .processTerm 0 (-1),
    .deliverPipe 0, .call .first 0 .read, .deliverPeer 0, .deliverPipe 0, .acknowledge 0, .deliver]

def found (s : EndpointTables ℕ ℕ ℕ Unit) : List (EndpointEntry ℕ ℕ ℕ) × Bool × Bool × Option Fault :=
  (s.endpoints, decide (s.LiveOwn 0), decide (s.LivePipe 0),
    match s.termEndpoint (fun _ => false) 0 [] with
    | .error x => some x
    | .ok _ => none)

theorem endpoints_keep_the_dead : ∃ s : EndpointTables ℕ ℕ ℕ Unit, Run Start (Step fun _ => false) failing s ∧
    s.endpoints = [⟨0, 0, some 0⟩] ∧ ¬ s.LiveOwn 0 ∧ ¬ s.LivePipe 0 ∧
      s.termEndpoint (fun _ => false) 0 [] = .error .useAfterFree := by
  refine exists_run_free (P := fun s => found s = ([⟨0, 0, some 0⟩], false, false, some .useAfterFree)) ⟨_, _, rfl⟩
    (s := new .dealer ⟨false, false, false⟩) (by decide) fun s _ hs => ?_
  unfold found at hs
  obtain ⟨hend, hown, hpipe, hterm⟩ : s.endpoints = [⟨0, 0, some 0⟩] ∧ decide (s.LiveOwn 0) = false ∧
      decide (s.LivePipe 0) = false ∧ _ := by
    simpa only [Prod.mk.injEq] using hs
  refine ⟨hend, of_decide_eq_false hown, of_decide_eq_false hpipe, ?_⟩
  split at hterm
  · rename_i hx
    rw [hx, some.inj hterm]
  · cases hterm

end EndpointTables

end Zmq
