import LibZmq.Sockets.Framing
import LibZmq.Sockets.Xsub
import LibZmq.Trie.Counted

/-! `xsub_t` as it receives: of the messages that the fair queue returns the user gets those that match. -/

namespace Zmq

open List

/-- The state while messages are sifted: whether the one begun is kept, and the frames kept so far. -/
def sift (accepts : Msg → Bool) (st : Option Bool × List Msg) (m : Msg) : Option Bool × List Msg :=
  let keep := st.1.getD (accepts m)
  (if m.hasMore then some keep else none, if keep then st.2 ++ [m] else st.2)

/-- The messages whose first frames are accepted. -/
def sifted (accepts : Msg → Bool) (frames : List Msg) : List Msg := (frames.foldl (sift accepts) (none, [])).2

structure Filtering (P : Type) where
  socket : XsubT P
  inlets : P → Inlet
  delivered : P → List Msg
  handed : List Msg

namespace Filtering

open FairQueue (Unmixed)

variable {P : Type}

def queue (s : Filtering P) (got : List (P × Msg)) : FairQueue P := ⟨s.socket.fq, s.inlets, s.delivered, got⟩

/-- The frame that a poll has received. -/
def waiting (s : Filtering P) : List Msg := if s.socket.hasMessage then [s.socket.message] else []

inductive Op (P : Type) where
  /-- what happens to the pipes -/
  | around (op : FairQueue.Op P)
  /-- what is sent, and the pipes that come and go, change the list of outbound pipes -/
  | sending (dist : DistT P)
  | xrecv
  | xhasIn

/-- What `match` is asked for is what is accepted. -/
def Agrees (f : Msg → Bool) (x : XsubT P) (m : Msg) : Prop :=
  x.filter = false ∧ f m = true ∨ x.filter = true ∧ x.matchMsg m = .ok (f m)

variable [DecidableEq P]

/-- A pipe stays while a message is read from it. -/
def Ready (s : Filtering P) : Op P → Prop
  | .around .recvpipe | .around .hasIn => False
  | .around (.pipeTerminated p) => p ∈ s.socket.fq.pipes ∧ (s.queue []).Keeps (.pipeTerminated p) ∧
      (s.socket.fq.more = true → ¬ s.socket.fq.IsCurrent p)
  | .around op => (s.queue []).Ready op
  | .sending _ | .xrecv | .xhasIn => True

def run (s : Filtering P) : Op P → Except SubFault (Filtering P)
  | .around op => SubFault.ofSocket (((s.queue []).run op).map fun q => { s with
      socket := { s.socket with fq := q.fq }, inlets := q.inlets, delivered := q.delivered })
  | .sending dist => .ok { s with socket := { s.socket with dist := dist } }
  | .xrecv => (s.socket.xrecv s.inlets).map fun x => { s with
      socket := x.2.1, inlets := x.2.2, handed := s.handed ++ x.1.toList }
  | .xhasIn => (s.socket.xhasIn s.inlets).map fun x => { s with socket := x.2.1, inlets := x.2.2 }

abbrev Step : Filtering P → Op P → Filtering P → Prop := Does Ready run

def start (filter inverted : Bool) (t : TrieT) : Filtering P :=
  ⟨{ XsubT.new filter with subscriptions := t, invertMatching := inverted }, fun _ => ⟨false, []⟩, fun _ => [], []⟩

def accepts (filter inverted : Bool) (topics : Multiset (List UInt8)) (m : Msg) : Bool :=
  !filter || xor (decide (0 < topics.countP (· <+: m.data))) inverted

structure Stands (f : Msg → Bool) (fq : FqT P) (inlets : P → Inlet) (delivered : P → List Msg) (got : List (P × Msg)) (keep : Bool)
    (kept : List Msg) : Prop where
  sound : FairQueue.Sound ⟨fq, inlets, delivered, got⟩
  sifted : (got.map Prod.snd).foldl (sift f) (none, []) = (if fq.more then some keep else none, kept)

variable {f : Msg → Bool} {fq : FqT P} {w : P → Inlet} {d : P → List Msg} {got : List (P × Msg)} {keep : Bool}
  {kept : List Msg} {x : XsubT P} {s s' : Filtering P} {n : ℕ}

theorem Stands.recvpipe (h : Stands f fq w d got keep kept) : ∃ r fq' w',
    fq.recvpipe w = .ok (r, fq', w') ∧ fq'.held w' + r.toList.length ≤ fq.held w ∧
      match r with
      | none => fq.more = false ∧ fq'.more = false ∧ Stands f fq' w' d got keep kept
      | some y => fq'.more = y.2.hasMore ∧ Stands f fq' w' d (got ++ [y]) (if fq.more then keep else f y.2)
          (kept ++ if (if fq.more then keep else f y.2) then [y.2] else []) := by
  obtain ⟨s', hrun, hs⟩ := h.sound.recvpipe
  obtain ⟨⟨r, fq', w'⟩, hx, hret⟩ := bind_ok hrun
  cases hret
  obtain ⟨hdry, hheld⟩ := FqT.recvLoop_held rfl hx
  refine ⟨r, fq', w', hx, hheld, ?_⟩
  cases r with
  | none =>
    have hs : FairQueue.Sound ⟨fq', w', d, got⟩ := by simpa using hs
    have hmore : fq'.more = false := by
      by_contra hm
      obtain ⟨p, hp⟩ := Option.isSome_iff_exists.mp (hs.more.symm.trans (Bool.eq_true_of_not_eq_false hm))
      exact (hs.current p hp).active_pos.ne' (hdry rfl)
    have hsame : fq.more = false := h.sound.more.trans (hs.more.symm.trans hmore)
    exact ⟨hsame, hmore, hs, by rw [h.sifted, hsame, hmore]⟩
  | some y =>
    have hmore : fq'.more = y.2.hasMore := by
      refine hs.more.trans ?_
      simp only [FairQueue.reading, Option.toList_some, getLast?_concat, Option.bind_some]
      cases y.2.hasMore <;> rfl
    refine ⟨hmore, hs, ?_⟩
    rw [map_append, foldl_append, h.sifted, hmore]
    simp only [map_cons, map_nil, foldl_cons, foldl_nil, sift]
    cases fq.more <;> simp <;> split_ifs <;> simp

theorem Stands.popRest {m : Msg} (h : Stands f fq w d got false kept) (hm : fq.more = m.hasMore) (hn : fq.held w < n) :
    ∃ fq' w' got', XsubT.popRest n fq w m = .ok (fq', w') ∧ Stands f fq' w' d got' true kept ∧
      fq'.more = false ∧ fq'.held w' ≤ fq.held w := by
  induction n generalizing fq w got m with
  | zero => exact absurd hn (Nat.not_lt_zero _)
  | succ n ih =>
    unfold XsubT.popRest
    split_ifs with hmore
    · obtain ⟨r, fq1, w1, hx, hheld, hr⟩ := h.recvpipe
      rw [hx]
      cases r with
      | none => exact nomatch hmore.symm.trans (hm.symm.trans hr.1)
      | some y =>
        obtain ⟨hy, hs⟩ := hr
        simp only [hm, hmore, if_true, Bool.false_eq_true, if_false, append_nil] at hs
        have hle : fq1.held w1 + 1 ≤ fq.held w := hheld
        obtain ⟨fq2, w2, got', hx2, hs2, hm2, hle2⟩ := ih hs hy (by omega)
        exact ⟨fq2, w2, got', hx2, hs2, hm2, by omega⟩
    · have hfalse : fq.more = false := hm.trans (Bool.eq_false_of_not_eq_true hmore)
      exact ⟨fq, w, got, rfl, ⟨h.sound, by rw [h.sifted, hfalse]; rfl⟩, hfalse, Nat.le_refl _⟩

theorem Stands.recvMatching (hf : ∀ m, Agrees f x m) (h : Stands f fq w d got true kept) (hn : fq.held w < n) : ∃ r fq' w' got',
    x.recvMatching fq.more n fq w = .ok (r, fq', w') ∧ fq'.more = r.any (·.2.hasMore) ∧ (r = none → fq.more = false) ∧
      Stands f fq' w' d got' true (kept ++ (r.map Prod.snd).toList) := by
  induction n generalizing fq w got with
  | zero => exact absurd hn (Nat.not_lt_zero _)
  | succ n ih =>
    obtain ⟨r, fq1, w1, hx, hheld, hr⟩ := h.recvpipe
    unfold XsubT.recvMatching
    rw [hx]
    cases r with
    | none => exact ⟨none, fq1, w1, got, rfl, hr.2.1, fun _ => hr.1, by simpa using hr.2.2⟩
    | some y =>
      obtain ⟨hy, hs⟩ := hr
      have hle : fq1.held w1 + 1 ≤ fq.held w := hheld
      change ∃ r fq' w' got', (if (fq.more || !x.filter) = true then _ else _) = _ ∧ _
      cases hkeep : (if fq.more then true else f y.2) with
      | true =>
        rw [hkeep] at hs
        refine ⟨some y, fq1, w1, got ++ [y], ?_, hy, nofun, hs⟩
        split_ifs with hpass
        · rfl
        · simp only [Bool.or_eq_true, Bool.not_eq_true', not_or, Bool.not_eq_true, Bool.not_eq_false] at hpass
          simp only [hpass.1, Bool.false_eq_true, if_false] at hkeep
          rw [((hf y.2).resolve_left fun h => absurd (h.1.symm.trans hpass.2) Bool.false_ne_true).2, hkeep]
          rfl
      | false =>
        have hmore : fq.more = false := by
          by_contra hm
          simp [Bool.eq_true_of_not_eq_false hm] at hkeep
        simp only [hmore, Bool.false_eq_true, if_false] at hkeep
        simp only [hmore, hkeep, Bool.false_eq_true, if_false, append_nil] at hs
        obtain ⟨hfilter, hmatch⟩ := (hf y.2).resolve_left fun h => absurd (hkeep.symm.trans h.2) Bool.false_ne_true
        obtain ⟨fq2, w2, got2, hx2, hs2, hm2, hle2⟩ := hs.popRest (n := n + 1) hy (by omega)
        obtain ⟨r, fq3, w3, got3, hx3, hr3, -, hs3⟩ := ih hs2 (by omega)
        refine ⟨r, fq3, w3, got3, ?_, hr3, fun _ => hmore, hs3⟩
        rw [hmore, hfilter, if_neg (by simp), hmatch, hkeep]
        change (XsubT.popRest (n + 1) fq1 w1 y.2 >>= _) = _
        rw [hx2]
        rwa [hm2] at hx3

/-- The frames drawn from the queue so far, and where the socket stands between two calls. -/
structure Sound (f : Msg → Bool) (s : Filtering P) (got : List (P × Msg)) : Prop where
  stands : Stands f s.socket.fq s.inlets s.delivered got true (s.handed ++ s.waiting)
  polled : s.socket.hasMessage = true → s.socket.more = false ∧ s.socket.fq.more = s.socket.message.hasMore
  more : s.socket.hasMessage = false → s.socket.more = s.socket.fq.more
  agrees : ∀ m, Agrees f s.socket m

theorem Sound.recvMatching (h : Sound f s got) (hm : s.socket.hasMessage = false) : ∃ r fq' w' got',
    s.socket.recvMatching s.socket.more (s.socket.frames s.inlets + 1) s.socket.fq s.inlets = .ok (r, fq', w') ∧
      fq'.more = r.any (·.2.hasMore) ∧ (r = none → s.socket.more = false) ∧
      Stands f fq' w' s.delivered got' true (s.handed ++ (r.map Prod.snd).toList) := by
  have hs := h.stands
  rw [waiting, hm, if_neg Bool.false_ne_true, append_nil] at hs
  rw [h.more hm]
  exact hs.recvMatching h.agrees (Nat.lt_succ_self _)

theorem around_goes {op : FairQueue.Op P} (h : FairQueue.Sound (s.queue got)) (hr : s.Ready (.around op)) : ∃ q, (s.queue []).run op = .ok q ∧
    FairQueue.Sound ⟨q.fq, q.inlets, q.delivered, got⟩ ∧ q.fq.more = s.socket.fq.more := by
  cases op with
  | recvpipe | hasIn => exact hr.elim
  | attach p => exact ⟨_, rfl, h.attach hr.1 hr.2, rfl⟩
  | deliver p frames => exact ⟨_, rfl, h.deliver hr.2, rfl⟩
  | activated p =>
    obtain ⟨s', hrun, hs⟩ := h.activated hr.1 hr.2
    unfold FairQueue.run at hrun
    split_ifs at hrun with hlt
    cases hrun
    exact ⟨_, if_pos hlt, hs, rfl⟩
  | pipeTerminated p =>
    refine ⟨_, rfl, h.pipeTerminated hr.1 (fun hp => hr.2.2 ?_ (h.current p hp)) hr.2.1, rfl⟩
    exact h.more.trans (by rw [hp]; rfl)

theorem Sound.run {op : Op P} (h : Sound f s got) (hr : s.Ready op) : ∃ s' got', s.run op = .ok s' ∧ Sound f s' got' := by
  cases op with
  | sending dist => exact ⟨_, got, rfl, ⟨h.stands, h.polled, h.more, h.agrees⟩⟩
  | around op =>
    obtain ⟨q, hq, hs, hm⟩ := around_goes h.stands.sound hr
    refine ⟨_, got, congrArg (fun x => SubFault.ofSocket (Except.map _ x)) hq, ⟨hs, hm ▸ h.stands.sifted⟩,
      fun h1 => ⟨(h.polled h1).1, hm.trans (h.polled h1).2⟩, fun h1 => (h.more h1).trans hm.symm, h.agrees⟩
  | xrecv =>
    cases hm : s.socket.hasMessage with
    | true =>
      have hs := h.stands
      rw [waiting, hm, if_pos rfl] at hs
      exact ⟨_, got, congrArg (Except.map _) (if_pos hm), by simpa [waiting] using hs, nofun, fun _ => (h.polled hm).2.symm, h.agrees⟩
    | false =>
      obtain ⟨r, fq', w', got', hx, hmore, hnone, hs⟩ := h.recvMatching hm
      have hgot : s.socket.xrecv s.inlets = .ok (r.map Prod.snd, { s.socket with
          fq := fq', more := r.elim s.socket.more (·.2.hasMore) }, w') := by
        rw [XsubT.xrecv, if_neg (by simp [hm]), hx]
        cases r <;> rfl
      refine ⟨_, got', congrArg (Except.map _) hgot, by simpa [waiting, hm] using hs, fun h1 => (nomatch hm.symm.trans h1), fun _ => ?_, h.agrees⟩
      cases r with
      | none => exact (hnone rfl).trans hmore.symm
      | some y => exact hmore.symm
  | xhasIn =>
    by_cases hc : (s.socket.more || s.socket.hasMessage) = true
    · exact ⟨_, got, congrArg (Except.map _) (if_pos hc), h⟩
    · simp only [Bool.or_eq_true, not_or, Bool.not_eq_true] at hc
      obtain ⟨r, fq', w', got', hx, hmore, -, hs⟩ := h.recvMatching hc.2
      rw [hc.1] at hx
      change ∃ s' got', Except.map _ (s.socket.xhasIn s.inlets) = .ok s' ∧ Sound f s' got'
      rw [XsubT.xhasIn, if_neg (by simp [hc]), hx]
      cases r with
      | none => exact ⟨_, got', rfl, by simpa [waiting, hc.2] using hs, fun h1 => (nomatch hc.2.symm.trans h1), fun _ => hc.1.trans hmore.symm, h.agrees⟩
      | some y => exact ⟨_, got', rfl, by simpa [waiting] using hs, fun _ => ⟨hc.1, hmore⟩, nofun, h.agrees⟩

section

variable {filter inverted : Bool} {t : TrieT} {topics : Multiset (List UInt8)} {ops : List (Op P)}

theorem start_sound (ht : TrieT.Holds t topics) : Sound (accepts filter inverted topics) (start filter inverted t : Filtering P) [] := by
  refine ⟨⟨FairQueue.new_sound, rfl⟩, nofun, fun _ => rfl, fun m => ?_⟩
  cases filter with
  | false => exact .inl ⟨rfl, rfl⟩
  | true =>
    obtain ⟨b, hb, hiff⟩ := TrieT.check_spec m.data ht.1
    have hcount : b = decide (0 < topics.countP (· <+: m.data)) := by
      rw [Bool.eq_iff_iff, decide_eq_true_iff, hiff, Multiset.countP_pos]
      exact exists_congr fun p => by rw [TrieT.holds_mem ht, and_comm]
    refine .inr ⟨rfl, ?_⟩
    unfold XsubT.matchMsg accepts start
    rw [hb, hcount]
    rfl

/-- What the user has got, with what a poll has received for it, are the messages that match among those drawn from the pipes,
whole and in the order of each pipe. No assertion fails. -/
theorem messages_filtered (ht : TrieT.Holds t topics) (h : Run (· = start filter inverted t) Step ops s) :
    (∃ got, Unmixed (s.queue got) ∧ (∀ p ∈ s.socket.fq.pipes, (s.queue got).received p ++ (s.inlets p).pending = s.delivered p) ∧
      s.handed ++ s.waiting = sifted (accepts filter inverted topics) (got.map Prod.snd)) ∧
    ∀ op, s.Ready op → ∃ s', s.run op = .ok s' := by
  obtain ⟨got, hs⟩ := h.invariant (fun s => ∃ got, Sound (accepts filter inverted topics) s got)
    (fun _ h0 => ⟨[], h0 ▸ start_sound ht⟩) fun s op s' ⟨got, hs⟩ ⟨hr, hx⟩ => by
      obtain ⟨s1, got', hx1, hs1⟩ := hs.run hr
      cases hx1.symm.trans hx
      exact ⟨got', hs1⟩
  refine ⟨⟨got, ⟨hs.stands.sound.chain, hs.stands.sound.past⟩, hs.stands.sound.stream, ?_⟩, fun op hr => ?_⟩
  · rw [sifted, hs.stands.sifted]
  · obtain ⟨s', -, hx, -⟩ := hs.run hr
    exact ⟨s', hx⟩

/-- A message of two frames that matches, one that does not, and one that does, from two pipes. -/
theorem messages_filtered_two : ∃ s : Filtering ℕ, s.handed = [⟨.vsm, Msg.more, [97, 1]⟩, ⟨.vsm, 0, [98]⟩, ⟨.vsm, 0, [97]⟩] ∧
    (∃ got, Unmixed (s.queue got) ∧ (∀ p ∈ s.socket.fq.pipes, (s.queue got).received p ++ (s.inlets p).pending = s.delivered p) ∧
      s.handed ++ s.waiting = sifted (accepts true false {[97]}) (got.map Prod.snd)) ∧ ∀ op, s.Ready op → ∃ s', s.run op = .ok s' := by
  obtain ⟨t, hcall, ht⟩ := @TrieT.call_holds _ _ (.add [97]) TrieT.new_holds (by decide)
  cases hcall
  have h {t m} (_ : TrieT.Holds t m) : Run (· = start true false t) Step [] (start true false t : Filtering ℕ) := .nil rfl
  have h := ((h ht).snoc (e := Op.around (.attach 0)) ⟨⟨by decide, rfl⟩, rfl⟩).snoc (e := Op.around (.attach 1)) ⟨⟨by decide, rfl⟩, rfl⟩
  have h := h.snoc (e := Op.around (.deliver 0 [⟨.vsm, Msg.more, [97, 1]⟩, ⟨.vsm, 0, [98]⟩])) ⟨⟨by decide, by decide⟩, rfl⟩
  have h := h.snoc (e := Op.around (.deliver 1 [⟨.vsm, 0, [98]⟩, ⟨.vsm, 0, [97]⟩])) ⟨⟨by decide, by decide⟩, rfl⟩
  have h := ((h.snoc (e := Op.xhasIn) ⟨trivial, rfl⟩).snoc (e := Op.xrecv) ⟨trivial, rfl⟩).snoc (e := Op.xrecv) ⟨trivial, rfl⟩
  have h := h.snoc (e := Op.xrecv) ⟨trivial, rfl⟩
  exact ⟨_, rfl, messages_filtered ht h⟩

end

end Filtering

end Zmq
