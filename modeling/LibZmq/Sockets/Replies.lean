import LibZmq.Sockets.Intake
import LibZmq.Sockets.LoadBalancer
import LibZmq.Sockets.Req

/-! How REQ finds the reply among the messages that arrive. The frames that the user receives are compared with those
that have arrived at the pipe of the request. -/

namespace Zmq

open List Option Bool Except Prod Intake

def IsMessage (msg : List Msg) : Prop := ∃ init last, msg = init ++ [last] ∧ (∀ m ∈ init, m.hasMore = true) ∧ last.hasMore = false

theorem IsMessage.cons {m : Msg} {msg : List Msg} (hm : m.hasMore = true) (h : IsMessage msg) : IsMessage (m :: msg) := by
  obtain ⟨init, last, rfl, hinit, hlast⟩ := h
  refine ⟨m :: init, last, rfl, fun x hx => ?_, hlast⟩
  rcases mem_cons.mp hx with rfl | hx
  · exact hm
  · exact hinit x hx

namespace DealerT

variable {P : Type} [DecidableEq P] {d d' : DealerT P} {e e' : Ends P} {arrived : P → List Msg} {got : List (P × Msg)} {n : ℕ}

theorem sendpipe_intake {took : Option (Option P)} {m : Msg} (hx : d.sendpipe e m = .ok (took, d', e')) :
    d'.fq = d.fq ∧ e'.inlets = e.inlets := by
  unfold sendpipe at hx
  split_ifs at hx
  · cases hx
    exact ⟨rfl, rfl⟩
  · obtain ⟨⟨pipe, lb, outlets⟩, -, hx⟩ := bind_ok hx
    cases hx
    exact ⟨rfl, rfl⟩

theorem recvpipe_intake (h : Intake d.fq e.inlets arrived got) : ∃ res d' e', d.recvpipe e = .ok (res, d', e') ∧
    Intake d'.fq e'.inlets arrived (got ++ res.toList) ∧ (res = none → d'.fq.active = 0 ∧ reading got = none) ∧
    (∀ p, reading got = some p → ∃ m, res = some (p, m)) ∧ d'.waiting e' + res.toList.length ≤ d.waiting e := by
  obtain ⟨res, fq, inlets, hx, hin, -, hnone, hnext, hheld⟩ := h.recv
  refine ⟨res, { d with fq := fq }, { e with inlets := inlets }, ?_, hin, hnone, hnext, hheld⟩
  unfold recvpipe
  rw [hx]
  rfl

theorem drain_intake (h : Intake d.fq e.inlets arrived got) (hn : d.waiting e < n) (hx : drain n d e = .ok (d', e')) :
    ∃ got', Intake d'.fq e'.inlets arrived got' ∧ reading got' = none := by
  induction n generalizing d e got with
  | zero => exact absurd hn (Nat.not_lt_zero _)
  | succ n ih =>
    obtain ⟨res, d1, e1, hrecv, h1, hnone, -, hle⟩ := recvpipe_intake h
    unfold drain at hx
    simp only [hrecv, bind, bind] at hx
    cases res with
    | none =>
      cases hx
      exact ⟨got, by simpa using h1, (hnone rfl).2⟩
    | some x => exact ih h1 (Nat.lt_of_lt_of_le hle (Nat.lt_succ_iff.mp hn)) hx

end DealerT

namespace ReqT

variable {P : Type}

/-- The body of a message that is a reply; there is an id in front of it if requests have one. -/
def replyBody : Option UInt32 → List Msg → Option (List Msg)
  | none, b :: body => if goodBottom b then some body else none
  | some id, i :: b :: body => if goodId id i && goodBottom b then some body else none
  | _, _ => none

/-- The id that a reply is to have. -/
def expected (r : ReqT P) : Option UInt32 := if r.requestIdFramesEnabled then some r.requestId else none

def Stray (id : Option UInt32) (msg : List Msg) : Prop := IsMessage msg ∧ replyBody id msg = none

theorem goodId_more {id : UInt32} {m : Msg} (h : goodId id m = true) : m.hasMore = true := (and_eq_true_iff.mp h).1

theorem goodBottom_more {m : Msg} (h : goodBottom m = true) : m.hasMore = true := (and_eq_true_iff.mp h).1

variable [DecidableEq P] {r : ReqT P} {e : Ends P} {arrived : P → List Msg} {p : P} {read : List Msg} {mid : Bool} {n : ℕ}
    {id : Option UInt32} {r' : ReqT P} {e' : Ends P} {got : List (P × Msg)} {took : List (Option P)} {rc : ReqRc}
  {m : Msg}

def Parses (r : ReqT P) (e : Ends P) (arrived : P → List Msg) (p : P) (read : List Msg) (mid : Bool) : Prop :=
  r.replyPipe = some p ∧ ∃ got, Intake r.fq e.inlets arrived got ∧ Intake.received got p = read ∧
    Intake.reading got = if mid then some p else none

theorem recvReplyLoop_parses (h : Parses r e arrived p read mid) (hn : r.waiting e < n) :
    ∃ res d e', recvReplyLoop n r e = .ok (res, { r with toDealerT := d }, e') ∧
      (res = none ∧ mid = false ∧ Parses { r with toDealerT := d } e' arrived p read false ∧ d.fq.active = 0 ∧
          d.waiting e' ≤ r.waiting e ∨
        ∃ m, res = some (p, m) ∧ Parses { r with toDealerT := d } e' arrived p (read ++ [m]) m.hasMore ∧
          d.waiting e' < r.waiting e) := by
  obtain ⟨hp, got, hin, hread, hmid⟩ := h
  -- frames of other pipes may have been passed over
  suffices hloop : ∀ n (d : DealerT P) (e : Ends P) got, d.waiting e < n → Intake d.fq e.inlets arrived got →
      received got p = read → ∃ res d' e', recvReplyLoop n { r with toDealerT := d } e =
        .ok (res, { r with toDealerT := d' }, e') ∧
      (res = none ∧ reading got ≠ some p ∧ Parses { r with toDealerT := d' } e' arrived p read false ∧ d'.fq.active = 0 ∧
          d'.waiting e' ≤ d.waiting e ∨
        ∃ m, res = some (p, m) ∧ Parses { r with toDealerT := d' } e' arrived p (read ++ [m]) m.hasMore ∧
          d'.waiting e' < d.waiting e) by
    obtain ⟨res, d, e', hx, hcases⟩ := hloop n r.toDealerT e got hn hin hread
    refine ⟨res, d, e', hx, hcases.imp_left fun ⟨hres, hne, hrest⟩ => ⟨hres, ?_, hrest⟩⟩
    by_contra hm
    exact hne (by rw [hmid, Bool.eq_true_of_not_eq_false hm]; rfl)
  intro n
  induction n with
  | zero => intro d e got hn; exact absurd hn (Nat.not_lt_zero _)
  | succ n ih =>
    intro d e got hn hin hread
    obtain ⟨res, d1, e1, hrecv, hin', hnone, hnext, hheld⟩ := DealerT.recvpipe_intake hin
    unfold recvReplyLoop
    simp only [hrecv, bind, Except.bind]
    cases res with
    | none =>
      refine ⟨none, _, _, rfl, Or.inl ⟨rfl, fun hc => ?_, ⟨hp, got, by simpa using hin', hread, (hnone rfl).2⟩, (hnone rfl).1, hheld⟩⟩
      obtain ⟨m, hm⟩ := hnext p hc
      exact absurd hm.symm (Option.some_ne_none _)
    | some x =>
      obtain ⟨q, m⟩ := x
      have hlt : d1.waiting e1 < d.waiting e := hheld
      rcases eq_or_ne q p with rfl | hne
      · refine ⟨some (q, m), _, _, if_pos (Or.inr hp), Or.inr ⟨m, rfl, ⟨hp, _, hin', ?_, reading_snoc⟩, hlt⟩⟩
        rw [received_append, hread]
        exact congrArg _ received_self
      · have hq : received [(q, m)] p = [] := received_other fun x hx => by rwa [mem_singleton.mp hx]
        have hother : received (got ++ [(q, m)]) p = read := by
          rw [received_append, hq, append_nil, hread]
        obtain ⟨res, d', e', hy, hcases⟩ := ih d1 e1 _
          (Nat.lt_of_lt_of_le hlt (Nat.lt_succ_iff.mp hn)) hin' hother
        refine ⟨res, d', e', ?_, ?_⟩
        · dsimp only
          rw [if_neg (by rw [hp]; simpa using Ne.symm hne)]
          exact hy
        · rcases hcases with ⟨hres, -, hparses, hdry, hle⟩ | ⟨y, hres, hparses, hlt'⟩
          · refine Or.inl ⟨hres, fun hc => ?_, hparses, hdry, Nat.le_trans hle (Nat.le_of_lt hlt)⟩
            obtain ⟨y, hy⟩ := hnext p hc
            exact hne (Prod.mk.inj (Option.some.inj hy)).1
          · exact Or.inr ⟨y, hres, hparses, Nat.lt_trans hlt' hlt⟩

theorem recvReplyPipe_parses (h : Parses r e arrived p read mid) :
    ∃ res d e', r.recvReplyPipe e = .ok (res, { r with toDealerT := d }, e') ∧
      (res = none ∧ mid = false ∧ Parses { r with toDealerT := d } e' arrived p read false ∧ d.fq.active = 0 ∧
          d.waiting e' ≤ r.waiting e ∨
        ∃ m, res = some (p, m) ∧ Parses { r with toDealerT := d } e' arrived p (read ++ [m]) m.hasMore ∧
          d.waiting e' < r.waiting e) :=
  recvReplyLoop_parses h (Nat.lt_succ_self _)

theorem skipRest_parses (h : Parses r e arrived p read m.hasMore) (hn : r.waiting e < n) :
    ∃ rest d e', skipRest n r e m = .ok ({ r with toDealerT := d }, e') ∧ IsMessage (m :: rest) ∧
      Parses { r with toDealerT := d } e' arrived p (read ++ rest) false ∧ d.waiting e' ≤ r.waiting e := by
  suffices hloop : ∀ n m (d : DealerT P) e read, d.waiting e < n →
      Parses { r with toDealerT := d } e arrived p read m.hasMore → ∃ rest d' e', skipRest n { r with toDealerT := d } e m =
        .ok ({ r with toDealerT := d' }, e') ∧ IsMessage (m :: rest) ∧
      Parses { r with toDealerT := d' } e' arrived p (read ++ rest) false ∧ d'.waiting e' ≤ d.waiting e from
    hloop n m r.toDealerT e read hn h
  intro n
  induction n with
  | zero => intro m d e read hn; exact absurd hn (Nat.not_lt_zero _)
  | succ n ih =>
    intro m d e read hn h
    unfold skipRest
    cases hm : m.hasMore with
    | false =>
      refine ⟨[], d, e, rfl, ⟨[], m, rfl, nofun, hm⟩, ?_, Nat.le_refl _⟩
      rwa [append_nil, ← hm]
    | true =>
      rw [hm] at h
      obtain ⟨res, d', e', hx, hcases⟩ := recvReplyPipe_parses h
      obtain ⟨x, rfl, hparses, hlt⟩ := hcases.resolve_left fun hc => false_ne_true hc.2.1.symm
      obtain ⟨rest, d'', e'', hy, hmsg, hparses', hle⟩ := ih x d' e' _ (Nat.lt_of_lt_of_le hlt (Nat.lt_succ_iff.mp hn)) hparses
      refine ⟨x :: rest, d'', e'', ?_, hmsg.cons hm, ?_, Nat.le_trans hle (Nat.le_of_lt hlt)⟩
      · simp only [if_true, hx, bind, bind]
        exact hy
      · rwa [append_assoc] at hparses'

theorem expect_parses {good : Msg → Bool} (h : Parses r e arrived p read mid) :
    ∃ rc d e', r.expect e good = .ok (rc, { r with toDealerT := d }, e') ∧
      (rc = none ∧ mid = false ∧ Parses { r with toDealerT := d } e' arrived p read false ∧ d.fq.active = 0 ∨
        (∃ m, rc = some true ∧ good m = true ∧ Parses { r with toDealerT := d } e' arrived p (read ++ [m]) m.hasMore ∧
          d.waiting e' < r.waiting e) ∨
        ∃ m rest, rc = some false ∧ good m = false ∧ IsMessage (m :: rest) ∧
          Parses { r with toDealerT := d } e' arrived p (read ++ m :: rest) false ∧ d.waiting e' < r.waiting e) := by
  obtain ⟨res, d, e', hx, hcases⟩ := recvReplyPipe_parses h
  unfold expect
  simp only [hx, bind, Except.bind]
  rcases hcases with ⟨rfl, hmid, hparses, hdry, -⟩ | ⟨m, rfl, hparses, hlt⟩
  · exact ⟨none, d, e', rfl, Or.inl ⟨rfl, hmid, hparses, hdry⟩⟩
  cases hgood : good m with
  | true => exact ⟨some true, d, e', by simp [hgood]; rfl, Or.inr (Or.inl ⟨m, rfl, hgood, hparses, hlt⟩)⟩
  | false =>
    obtain ⟨rest, d', e'', hy, hmsg, hparses', hle⟩ := skipRest_parses hparses (Nat.lt_add_of_pos_right (Nat.succ_pos 1))
    refine ⟨some false, d', e'', ?_, Or.inr (Or.inr ⟨m, rest, rfl, hgood, hmsg, ?_, Nat.lt_of_le_of_lt hle hlt⟩)⟩
    · dsimp only
      rw [hgood, hy]
      rfl
    · rwa [append_assoc] at hparses'

def Searched (r : ReqT P) (e : Ends P) (arrived : P → List Msg) (p : P) (read : List Msg) (id : Option UInt32)
    (found : Bool) : Prop :=
  ∃ skipped : List (List Msg), (∀ msg ∈ skipped, Stray id msg) ∧
    (found = false ∧ Parses r e arrived p (read ++ skipped.flatten) false ∧ r.fq.active = 0 ∨
      found = true ∧ ∃ head, replyBody id head = some [] ∧ (∀ m ∈ head, m.hasMore = true) ∧
        Parses r e arrived p (read ++ skipped.flatten ++ head) true)

theorem Searched.after {found : Bool} {msg : List Msg} (hs : Stray id msg)
    (h : Searched r e arrived p (read ++ msg) id found) : Searched r e arrived p read id found := by
  obtain ⟨skipped, hskipped, hcases⟩ := h
  refine ⟨msg :: skipped, fun x hx => ?_, ?_⟩
  · rcases mem_cons.mp hx with rfl | hx
    · exact hs
    · exact hskipped x hx
  · rw [flatten_cons, ← append_assoc]
    exact hcases

theorem findRest_parses {head : List Msg}
    (hhead : ∀ b body, replyBody r.expected (head ++ b :: body) = if goodBottom b then some body else none)
    (hmore : ∀ m ∈ head, m.hasMore = true) (h : Parses r e arrived p (read ++ head) (!head.isEmpty)) :
    ∃ rc d e', r.expect e goodBottom = .ok (rc, { r with toDealerT := d }, e') ∧
      (rc = none ∧ Searched { r with toDealerT := d } e' arrived p read r.expected false ∨
        rc = some true ∧ Searched { r with toDealerT := d } e' arrived p read r.expected true ∨
        ∃ msg, rc = some false ∧ Stray r.expected msg ∧ Parses { r with toDealerT := d } e' arrived p (read ++ msg) false ∧
          d.waiting e' < r.waiting e) := by
  obtain ⟨rc, d, e', hx, hcases⟩ := expect_parses h
  refine ⟨rc, d, e', hx, ?_⟩
  rcases hcases with ⟨rfl, hmid, hparses, hdry⟩ | ⟨b, rfl, hgood, hparses, -⟩ | ⟨b, rest, rfl, hgood, hmsg, hparses, hlt⟩
  · obtain rfl : head = [] := by simpa using hmid
    refine .inl ⟨rfl, [], by simp, .inl ⟨rfl, ?_, hdry⟩⟩
    simpa using hparses
  · refine .inr (.inl ⟨rfl, [], by simp, .inr ⟨rfl, head ++ [b], ?_, ?_, ?_⟩⟩)
    · rw [hhead, if_pos hgood]
    · intro m hm
      rcases mem_append.mp hm with hm | hm
      · exact hmore m hm
      · rw [mem_singleton.mp hm]
        exact goodBottom_more hgood
    · rw [goodBottom_more hgood] at hparses
      simpa using hparses
  · refine .inr (.inr ⟨head ++ b :: rest, rfl, ⟨?_, ?_⟩, ?_, hlt⟩)
    · clear hhead h hparses
      induction head with
      | nil => exact hmsg
      | cons m head ih => exact (ih fun x hx => hmore x (mem_cons_of_mem m hx)).cons (hmore m mem_cons_self)
    · rw [hhead, if_neg (by simp [hgood])]
    · rwa [append_assoc] at hparses

theorem expectId_parses (h : Parses r e arrived p read false) :
    ∃ rc d e', r.expectId e = .ok (rc, { r with toDealerT := d }, e') ∧
      (rc = none ∧ Searched { r with toDealerT := d } e' arrived p read r.expected false ∨ (∃ head, rc = some true ∧
          (∀ b body, replyBody r.expected (head ++ b :: body) = if goodBottom b then some body else none) ∧
          (∀ m ∈ head, m.hasMore = true) ∧ Parses { r with toDealerT := d } e' arrived p (read ++ head) (!head.isEmpty) ∧
          d.waiting e' ≤ r.waiting e) ∨
        ∃ msg, rc = some false ∧ Stray r.expected msg ∧ Parses { r with toDealerT := d } e' arrived p (read ++ msg) false ∧
          d.waiting e' < r.waiting e) := by
  unfold expectId
  by_cases hid : r.requestIdFramesEnabled = true
  · have hexpected : r.expected = some r.requestId := if_pos hid
    rw [if_pos hid, hexpected]
    obtain ⟨rc, d, e', hx, hcases⟩ := @expect_parses _ _ _ _ _ _ _ _ (goodId r.requestId) h
    refine ⟨rc, d, e', hx, ?_⟩
    rcases hcases with ⟨rfl, -, hparses, hdry⟩ | ⟨x, rfl, hgood, hparses, hlt⟩ | ⟨x, rest, rfl, hgood, hmsg, hparses, hlt⟩
    · exact .inl ⟨rfl, [], by simp, .inl ⟨rfl, by simpa using hparses, hdry⟩⟩
    · rw [goodId_more hgood] at hparses
      refine .inr (.inl ⟨[x], rfl, fun b body => ?_, fun m hm => ?_, hparses, Nat.le_of_lt hlt⟩)
      · simp [replyBody, hgood]
      · rw [mem_singleton.mp hm]
        exact goodId_more hgood
    · refine .inr (.inr ⟨x :: rest, rfl, ⟨hmsg, ?_⟩, hparses, hlt⟩)
      cases rest with
      | nil => rfl
      | cons b body => simp [replyBody, hgood]
  · have hexpected : r.expected = none := if_neg hid
    rw [if_neg hid, hexpected]
    refine ⟨some true, r.toDealerT, e, rfl, .inr (.inl ⟨[], rfl, fun b body => rfl, by simp, ?_, Nat.le_refl _⟩)⟩
    rwa [append_nil]

theorem findReply_parses (h : Parses r e arrived p read false) (hn : r.waiting e < n) : ∃ found d e', findReply n r e =
        .ok (found, { r with toDealerT := d, messageBegins := if found then false else r.messageBegins }, e') ∧
      Searched { r with toDealerT := d } e' arrived p read r.expected found := by
  suffices hloop : ∀ n (d : DealerT P) e read, d.waiting e < n → Parses { r with toDealerT := d } e arrived p read false →
      ∃ found d' e', findReply n { r with toDealerT := d } e =
        .ok (found, { r with toDealerT := d', messageBegins := if found then false else r.messageBegins }, e') ∧
      Searched { r with toDealerT := d' } e' arrived p read r.expected found from hloop n r.toDealerT e read hn h
  intro n
  induction n with
  | zero => intro d e read hn; exact absurd hn (Nat.not_lt_zero _)
  | succ n ih =>
    intro d e read hn h
    have hagain : ∀ {d' : DealerT P} {e' : Ends P} {msg}, Stray r.expected msg → d'.waiting e' < d.waiting e →
        Parses { r with toDealerT := d' } e' arrived p (read ++ msg) false →
        ∃ found d'' e'', findReply n { r with toDealerT := d' } e' =
          .ok (found, { r with toDealerT := d'', messageBegins := if found then false else r.messageBegins }, e'') ∧
        Searched { r with toDealerT := d'' } e'' arrived p read r.expected found := fun hstray hlt hparses => by
      obtain ⟨found, d'', e'', hx, hs⟩ := ih _ _ _ (Nat.lt_of_lt_of_le hlt (Nat.lt_succ_iff.mp hn)) hparses
      exact ⟨found, d'', e'', hx, hs.after hstray⟩
    unfold findReply
    obtain ⟨rc, d1, e1, hx, hcases⟩ := expectId_parses h
    simp only [hx, bind, Except.bind]
    rcases hcases with ⟨rfl, hs⟩ | ⟨head, rfl, hhead, hmore, hparses, hle⟩ | ⟨msg, rfl, hstray, hparses, hlt⟩
    · exact ⟨false, d1, e1, rfl, hs⟩
    · obtain ⟨rc, d2, e2, hy, hcases⟩ := findRest_parses (r := { r with toDealerT := d1 }) hhead hmore hparses
      simp only [hy]
      rcases hcases with ⟨rfl, hs⟩ | ⟨rfl, hs⟩ | ⟨msg, rfl, hstray, hparses, hlt⟩
      · exact ⟨false, d2, e2, rfl, hs⟩
      · exact ⟨true, d2, e2, rfl, hs⟩
      · exact hagain hstray (Nat.lt_of_lt_of_le hlt hle) hparses
    · exact hagain hstray hlt hparses

theorem recvBody_parses (h : Parses r e arrived p read true) :
    ∃ m d e', r.recvBody e = .ok (.ok, some (p, m), if m.hasMore then { r with toDealerT := d } else
        { r with toDealerT := d, receivingReply := false, messageBegins := true }, e') ∧
      Parses { r with toDealerT := d } e' arrived p (read ++ [m]) m.hasMore := by
  obtain ⟨res, d, e', hx, hcases⟩ := recvReplyPipe_parses h
  obtain ⟨m, rfl, hparses, -⟩ := hcases.resolve_left fun hc => false_ne_true hc.2.1.symm
  refine ⟨m, d, e', ?_, hparses⟩
  unfold recvBody
  simp only [hx, bind, bind]
  rfl

theorem replyBody_snoc {frames body : List Msg} (h : replyBody id frames = some body) :
    replyBody id (frames ++ [m]) = some (body ++ [m]) := by
  unfold replyBody at h
  split at h
  · split_ifs at h with hb
    cases h
    simp [replyBody, hb]
  · split_ifs at h with hb
    cases h
    simp [replyBody, hb]
  · exact absurd h.symm (some_ne_none _)

/-! What sending does to the pipes that are read. -/

theorem sendFirst_intake {took : Option (Option P)} (hx : r.sendFirst e m = .ok (took, r', e')) :
    r'.fq = r.fq ∧ e'.inlets = e.inlets ∧ r'.receivingReply = r.receivingReply ∧ r'.messageBegins = r.messageBegins := by
  obtain ⟨⟨took1, d, e1⟩, hsend, hx⟩ := bind_ok hx
  have hkeeps := DealerT.sendpipe_intake hsend
  rcases took1 with _ | _ | pipe
  all_goals
    cases hx
    exact ⟨hkeeps.1, hkeeps.2, rfl, rfl⟩

theorem sendEnvelope_intake {took : Option (List (Option P))}
    (h : Intake r.fq e.inlets arrived got) (hr : r.receivingReply = false) (hb : r.messageBegins = true)
    (hx : r.sendEnvelope e = .ok (took, r', e')) : r'.receivingReply = false ∧ ∃ got', Intake r'.fq e'.inlets arrived got' ∧
      (took = none ∧ r'.messageBegins = true ∨
        took ≠ none ∧ r'.messageBegins = false ∧ r'.replyPipe ≠ none ∧ reading got' = none) := by
  obtain ⟨⟨id, r1, e1⟩, hid, hx⟩ := bind_ok hx
  have hid : r1.fq = r.fq ∧ e1.inlets = e.inlets ∧ r1.receivingReply = false ∧ r1.messageBegins = true := by
    unfold sendId at hid
    split_ifs at hid
    · obtain ⟨⟨first, r2, e2⟩, hfirst, hid⟩ := bind_ok hid
      cases hid
      obtain ⟨hfq, hin, hr', hb'⟩ := sendFirst_intake hfirst
      exact ⟨hfq, hin, hr'.trans hr, hb'.trans hb⟩
    · cases hid
      exact ⟨rfl, rfl, hr, hb⟩
  obtain ⟨hfq1, hin1, hr1, hb1⟩ := hid
  cases id with
  | none =>
    cases hx
    exact ⟨hr1, got, by rwa [hfq1, hin1], .inl ⟨rfl, hb1⟩⟩
  | some took1 =>
    obtain ⟨⟨bot, r2, e2⟩, hbot, hx⟩ := bind_ok hx
    obtain ⟨hfq2, hin2, hr2, hb2⟩ := sendFirst_intake hbot
    have h2 : Intake r2.fq e2.inlets arrived got := by rwa [hfq2, hin2, hfq1, hin1]
    cases bot with
    | none =>
      cases hx
      exact ⟨hr2.trans hr1, got, h2, .inl ⟨rfl, hb2.trans hb1⟩⟩
    | some pipe =>
      dsimp only at hx
      split_ifs at hx with hpipe
      obtain ⟨⟨d, e3⟩, hdrain, hx⟩ := bind_ok hx
      cases hx
      obtain ⟨got', h', hreading⟩ := DealerT.drain_intake (d := r2.toDealerT) h2 (Nat.lt_succ_self _) hdrain
      exact ⟨hr2.trans hr1, got', h', .inr ⟨by simp, rfl, hpipe, hreading⟩⟩

theorem sendBody_intake
    (hr : r.receivingReply = false) (hb : r.messageBegins = false) (hx : r.sendBody e m = .ok (rc, took, r', e')) :
    rc ≠ .efsm ∧ r'.fq = r.fq ∧ e'.inlets = e.inlets ∧ r'.replyPipe = r.replyPipe ∧
      (r'.receivingReply = false ∧ r'.messageBegins = false ∨ r'.receivingReply = true ∧ r'.messageBegins = true) := by
  obtain ⟨⟨pipe, d, e1⟩, hsend, hx⟩ := bind_ok hx
  have hkeeps := DealerT.sendpipe_intake hsend
  cases pipe with
  | none =>
    cases hx
    exact ⟨by simp, hkeeps.1, hkeeps.2, rfl, Or.inl ⟨hr, hb⟩⟩
  | some pipe =>
    cases hx
    refine ⟨by simp, ?_⟩
    split_ifs
    · exact ⟨hkeeps.1, hkeeps.2, rfl, Or.inl ⟨hr, hb⟩⟩
    · exact ⟨hkeeps.1, hkeeps.2, rfl, .inr ⟨rfl, rfl⟩⟩

theorem xsend_intake (h : Intake r.fq e.inlets arrived got)
    (hs : r.receivingReply = false → r.messageBegins = false → reading got = none ∧ r.replyPipe ≠ none)
    (hx : r.xsend e m = .ok (rc, took, r', e')) :
    (rc = .efsm ∧ r' = r ∧ e' = e) ∨ rc ≠ .efsm ∧ ∃ got', Intake r'.fq e'.inlets arrived got' ∧
      (r'.receivingReply = false ∧ r'.messageBegins = true ∨ (reading got' = none ∧ r'.replyPipe ≠ none) ∧
        (r'.receivingReply = false ∧ r'.messageBegins = false ∨ r'.receivingReply = true ∧ r'.messageBegins = true)) := by
  have hrequest : ∀ {r : ReqT P}, Intake r.fq e.inlets arrived got → r.receivingReply = false → r.messageBegins = true →
      r.sendRequest e m = .ok (rc, took, r', e') → rc ≠ .efsm ∧ ∃ got', Intake r'.fq e'.inlets arrived got' ∧
      (r'.receivingReply = false ∧ r'.messageBegins = true ∨ (reading got' = none ∧ r'.replyPipe ≠ none) ∧
        (r'.receivingReply = false ∧ r'.messageBegins = false ∨ r'.receivingReply = true ∧ r'.messageBegins = true)) := by
    intro r h hr hb hx
    obtain ⟨⟨env, r1, e1⟩, henv, hx⟩ := bind_ok hx
    obtain ⟨hr1, got', h1, hcases⟩ := sendEnvelope_intake h hr hb henv
    rcases hcases with ⟨rfl, hb1⟩ | ⟨hne, hb1, hpipe, hreading⟩
    · cases hx
      exact ⟨by simp, got', h1, Or.inl ⟨hr1, hb1⟩⟩
    · obtain ⟨env, rfl⟩ := ne_none_iff_exists'.mp hne
      obtain ⟨⟨rc2, took2, r2, e2⟩, hbody, hx⟩ := bind_ok hx
      cases hx
      obtain ⟨hrc, hfq, hin, hpipe', hflags⟩ := sendBody_intake hr1 hb1 hbody
      exact ⟨hrc, got', by rwa [hfq, hin], Or.inr ⟨⟨hreading, by rwa [hpipe']⟩, hflags⟩⟩
  unfold xsend at hx
  split_ifs at hx with hr hstrict hb
  · cases hx
    exact Or.inl ⟨rfl, rfl, rfl⟩
  · exact .inr (@hrequest { r with receivingReply := false, messageBegins := true } h rfl rfl hx)
  · exact .inr (hrequest h (eq_false_of_not_eq_true hr) hb hx)
  · have hr := eq_false_of_not_eq_true hr
    have hb := eq_false_of_not_eq_true hb
    obtain ⟨hreading, hpipe⟩ := hs hr hb
    obtain ⟨hrc, hfq, hin, hpipe', hflags⟩ := sendBody_intake hr hb hx
    exact .inr ⟨hrc, got, by rwa [hfq, hin], .inr ⟨⟨hreading, by rwa [hpipe']⟩, hflags⟩⟩

end ReqT

structure Replies (P : Type) where
  req : ReqT P
  ends : Ends P
  /-- the frames that were to be read from a pipe when the request was sent, and those that have arrived since -/
  arrived : P → List Msg
  /-- the id that the reply is to have -/
  expected : Option UInt32
  /-- the frames that `xrecv` has returned -/
  replies : List Msg

namespace Replies

variable {P : Type}

def new (requestId : UInt32) : Replies P where
  req := .new requestId
  ends := ⟨fun _ => ⟨false, []⟩, fun _ => LoadBalancer.unattached, fun _ => []⟩
  arrived _ := []
  expected := none
  replies := []

inductive Op (P : Type) where
  | attach (pipe : P) (self : PipeT)
  | deliver (pipe : P) (frames : List Msg)
  | readActivated (pipe : P)
  | writeActivated (pipe : P)
  | drift (pipe : P) (outlet : Outlet)
  | correlate (on : Bool)
  | relaxed (on : Bool)
  | xsend (msg : Msg)
  | xrecv
  | xhasIn
  | xhasOut

variable [DecidableEq P]

/-- What pipes keep to: a pipe is new when it is attached, it delivers whole messages, and it is activated when it was
inactive. -/
def Ready (s : Replies P) : Op P → Prop
  | .attach p _ => p ∉ s.req.fq.pipes
  | .deliver p frames => p ∈ s.req.fq.pipes ∧ Whole (frames.filter fun m => !m.isCredential)
  | .readActivated p => p ∈ s.req.fq.pipes ∧ (s.ends.inlets p).inActive = false
  | _ => True

instance (s : Replies P) (op : Op P) : Decidable (s.Ready op) := by
  cases op <;> unfold Ready <;> infer_instance

omit [DecidableEq P] in
/-- From here on a reply is looked for. -/
def restart (s : Replies P) : Replies P :=
  { s with arrived := fun p => (s.ends.inlets p).pending, expected := s.req.expected, replies := [] }

def run (s : Replies P) : Op P → Except SocketFault (Replies P)
  | .attach p self => .ok { s with
      -- `xattachPipe`, when `probe_router` is not set
      req := { s.req with fq := s.req.fq.attach p, lb := s.req.lb.attach p }
      ends := (s.ends.setInlet p ⟨true, []⟩).setOutlet p ⟨self, Staged.empty⟩ }
  | .deliver p frames => .ok { s with
      ends := s.ends.setInlet p { s.ends.inlets p with frames := (s.ends.inlets p).frames ++ frames }
      arrived := Function.update s.arrived p (s.arrived p ++ frames.filter fun m => !m.isCredential) }
  | .readActivated p =>
    -- the pipe is swapped with the first one that is not active
    if s.req.fq.active < s.req.fq.pipes.size then .ok { s with
      req := { s.req with fq := s.req.fq.activated p }
      ends := s.ends.setInlet p { s.ends.inlets p with inActive := true } }
    else .error .outOfBounds
  | .writeActivated p =>
    if s.req.lb.active < s.req.lb.pipes.size then .ok { s with req := { s.req with lb := s.req.lb.activated p } }
    else .error .outOfBounds
  | .drift p o => .ok { s with ends := s.ends.setOutlet p o }
  | .correlate on =>
    let t := { s with req := { s.req with requestIdFramesEnabled := on } }
    .ok (if s.req.receivingReply && s.req.messageBegins then t.restart else t)
  | .relaxed on => .ok { s with req := { s.req with strict := !on } }
  | .xsend m => do
    let (rc, _, req, ends) ← s.req.xsend s.ends m
    let t := { s with req := req, ends := ends }
    return if rc = .efsm then t else if req.receivingReply then t.restart else { t with replies := [] }
  | .xrecv => do
    let (_, got, req, ends) ← s.req.xrecv s.ends
    return { s with req := req, ends := ends, replies := s.replies ++ (got.map snd).toList }
  | .xhasIn => do
    let (_, req, ends) ← s.req.xhasIn s.ends
    return { s with req := req, ends := ends }
  | .xhasOut => do
    let (_, req, ends) ← s.req.xhasOut s.ends
    return { s with req := req, ends := ends }

def Start (s : Replies P) : Prop := ∃ requestId, s = new requestId

abbrev Step : Replies P → Op P → Replies P → Prop := Does Ready run

/-- What has been read from the pipe of the request, and what of it the user has received: messages that are no replies,
and the body of the first one that is, as far as it has been received. -/
inductive Progress (id : Option UInt32) : Bool → Bool → List Msg → List Msg → Prop
  | waiting {skipped : List (List Msg)} (hs : ∀ msg ∈ skipped, ReqT.Stray id msg) : Progress id true true [] skipped.flatten
  | within {skipped : List (List Msg)} {frames body : List Msg} (hs : ∀ msg ∈ skipped, ReqT.Stray id msg)
      (hm : ∀ m ∈ frames, m.hasMore = true) (hb : ReqT.replyBody id frames = some body) :
      Progress id true false body (skipped.flatten ++ frames)
  | done {skipped : List (List Msg)} {msg body : List Msg} (hs : ∀ msg ∈ skipped, ReqT.Stray id msg) (hm : IsMessage msg)
      (hb : ReqT.replyBody id msg = some body) : Progress id false true body (skipped.flatten ++ msg)

/-- While a reply is awaited, and after it has been received, the user has been given what the pipe of the request says,
and what has been read from other pipes is whole messages. -/
def Exact (s : Replies P) : Prop :=
  s.req.receivingReply = true ∨ s.replies ≠ [] → ∃ p, s.req.replyPipe = some p ∧
    (∃ read, s.arrived p = read ++ (s.ends.inlets p).pending ∧
      Progress s.expected s.req.receivingReply s.req.messageBegins s.replies read) ∧
    ∀ q, q ≠ p → ∃ read, s.arrived q = read ++ (s.ends.inlets q).pending ∧ Whole read

/-- What holds between two calls: a reply is being looked for or has been received, or no reply is awaited. -/
def Sound (s : Replies P) : Prop :=
  (∃ p read, s.req.Parses s.ends s.arrived p read (s.req.receivingReply && !s.req.messageBegins) ∧
      Progress s.expected s.req.receivingReply s.req.messageBegins s.replies read ∧
      (s.req.receivingReply = true → s.req.messageBegins = true → s.expected = s.req.expected)) ∨
    s.req.receivingReply = false ∧ s.replies = [] ∧ ∃ got, Intake s.req.fq s.ends.inlets s.arrived got ∧
      (s.req.messageBegins = false → Intake.reading got = none ∧ s.req.replyPipe ≠ none)

variable {s s' : Replies P} {p : P} {m : Msg} {arrived : P → List Msg} {e : Ends P} {skipped : List (List Msg)} {frames body : List Msg}
    {id : Option UInt32}

theorem Sound.exact (h : s.Sound) : s.Exact := by
  rintro hs
  rcases h with ⟨p, read, ⟨hp, got, hin, hread, hmid⟩, hprogress, -⟩ | ⟨hr, hnil, -⟩
  · refine ⟨p, hp, ⟨read, hread ▸ hin.arrived_eq p, hprogress⟩, fun q hne => ⟨_, hin.arrived_eq q, ?_⟩⟩
    refine whole_received hin.queue.chain fun hc => hne ?_
    rw [hmid] at hc
    split_ifs at hc
    exact (some.inj hc).symm
  · rw [hr] at hs
    exact absurd hnil (hs.resolve_left false_ne_true)

theorem Sound.moved {fq : FqT P} {lb : LbT P} (h : s.Sound)
    (hin : ∀ got, Intake s.req.fq s.ends.inlets s.arrived got → Intake fq e.inlets arrived got) :
    Sound { s with req := { s.req with fq := fq, lb := lb }, ends := e, arrived := arrived } := by
  rcases h with ⟨p, read, ⟨hp, got, hi, hread, hmid⟩, hrest⟩ | ⟨hr, hnil, got, hi, hrest⟩
  · exact .inl ⟨p, read, ⟨hp, got, hin got hi, hread, hmid⟩, hrest⟩
  · exact .inr ⟨hr, hnil, got, hin got hi, hrest⟩

theorem Sound.restart {got : List (P × Msg)} (h : Intake s.req.fq s.ends.inlets s.arrived got) (hg : reading got = none)
    (hp : s.req.replyPipe ≠ none) (hr : s.req.receivingReply = true) (hb : s.req.messageBegins = true) : s.restart.Sound := by
  obtain ⟨p, hp⟩ := ne_none_iff_exists'.mp hp
  refine .inl ⟨p, [], ⟨hp, [], h.restart hg, rfl, ?_⟩, ?_, fun _ _ => rfl⟩
  · change none = if (s.req.receivingReply && !s.req.messageBegins) = true then some p else none
    rw [hb, Bool.not_true, Bool.and_false]
    rfl
  · change Progress s.req.expected s.req.receivingReply s.req.messageBegins [] []
    rw [hr, hb]
    exact .waiting (fun _ h => (not_mem_nil h).elim)

theorem body_progress
    (hs : ∀ msg ∈ skipped, ReqT.Stray id msg) (hm : ∀ x ∈ frames, x.hasMore = true) (hb : ReqT.replyBody id frames = some body) :
    Progress id m.hasMore (!m.hasMore) (body ++ [m]) (skipped.flatten ++ frames ++ [m]) := by
  rw [append_assoc]
  cases hmore : m.hasMore with
  | true =>
    refine .within hs (fun x hx => ?_) (ReqT.replyBody_snoc hb)
    rcases mem_append.mp hx with hx | hx
    · exact hm x hx
    · rwa [mem_singleton.mp hx]
  | false => exact .done hs ⟨frames, m, rfl, hm, hmore⟩ (ReqT.replyBody_snoc hb)

theorem recvBody_sound {r : ReqT P} (hr : r.receivingReply = true) (hb : r.messageBegins = false)
    (h : r.Parses e arrived p (skipped.flatten ++ frames) true) (hs : ∀ msg ∈ skipped, ReqT.Stray id msg)
    (hm : ∀ x ∈ frames, x.hasMore = true) (hbody : ReqT.replyBody id frames = some body) :
    ∃ m r' e', r.recvBody e = .ok (.ok, some (p, m), r', e') ∧ Sound ⟨r', e', arrived, id, body ++ [m]⟩ := by
  obtain ⟨m, d, e', hx, hparses⟩ := ReqT.recvBody_parses h
  have hprogress := @body_progress m _ _ _ _ hs hm hbody
  refine ⟨m, _, e', hx, .inl ⟨p, skipped.flatten ++ frames ++ [m], ?_⟩⟩
  cases hmore : m.hasMore with
  | true =>
    rw [hmore] at hparses hprogress
    refine ⟨?_, ?_, fun _ hb' => ?_⟩
    · simpa [hr, hb] using hparses
    · simpa [hr, hb] using hprogress
    · exact nomatch hb.symm.trans hb'
  | false =>
    rw [hmore] at hparses hprogress
    exact ⟨hparses, hprogress, nofun⟩

theorem Sound.xrecv (h : s.Sound) : ∃ rc got r' e', s.req.xrecv s.ends = .ok (rc, got, r', e') ∧
    Sound { s with req := r', ends := e', replies := s.replies ++ (got.map snd).toList } ∧
    (rc = .eagain → r'.fq.active = 0) := by
  unfold ReqT.xrecv
  cases hr : s.req.receivingReply with
  | false => exact ⟨.efsm, none, s.req, s.ends, rfl, by simpa using h, fun hc => absurd hc (by simp)⟩
  | true =>
    obtain ⟨p, read, hparses, hprogress, hexpected⟩ := h.resolve_right fun hc => false_ne_true (hc.1.symm.trans hr)
    rw [hr] at hprogress
    rw [hr] at hparses
    cases hb : s.req.messageBegins with
    | false =>
      rw [hb] at hprogress hparses
      obtain ⟨skipped, frames, hread, hs, hm, hbody⟩ : ∃ (skipped : List (List Msg)) (frames : List Msg),
          read = skipped.flatten ++ frames ∧
          (∀ msg ∈ skipped, ReqT.Stray s.expected msg) ∧ (∀ m ∈ frames, m.hasMore = true) ∧
          ReqT.replyBody s.expected frames = some s.replies := by
        cases hprogress with
        | within hs hm hb => exact ⟨_, _, rfl, hs, hm, hb⟩
      subst hread
      obtain ⟨m, r', e', hx, hsound⟩ := recvBody_sound hr hb hparses hs hm hbody
      exact ⟨.ok, some (p, m), r', e', hx, hsound, fun hc => absurd hc (by simp)⟩
    | true =>
      rw [hb] at hprogress hparses
      have hid := hexpected hr hb
      obtain ⟨skipped, hread, hnil, hs⟩ : ∃ skipped : List (List Msg), read = skipped.flatten ∧ s.replies = [] ∧
          ∀ msg ∈ skipped, ReqT.Stray s.expected msg := by
        generalize hreplies : s.replies = replies at hprogress
        cases hprogress with
        | waiting hs => exact ⟨_, rfl, rfl, hs⟩
      subst hread
      obtain ⟨found, d, e', hx, skipped', hs', hcases⟩ := ReqT.findReply_parses hparses (Nat.lt_succ_self _)
      rw [← hid] at hs' hcases
      have hall : ∀ msg ∈ skipped ++ skipped', ReqT.Stray s.expected msg := fun msg hmsg =>
        (mem_append.mp hmsg).elim (hs msg) (hs' msg)
      simp only [if_true, hx, bind, bind]
      rw [← flatten_append] at hcases
      rcases hcases with ⟨rfl, hparses', hdry⟩ | ⟨rfl, head, hhead, hm, hparses'⟩
      · refine ⟨.eagain, none, _, e', rfl, .inl ⟨p, (skipped ++ skipped').flatten, ?_, ?_, fun _ _ => hid⟩, fun _ => hdry⟩
        · simpa [hb] using hparses'
        · simpa [hr, hb, hnil] using Progress.waiting hall
      · obtain ⟨m, r', e'', hy, hsound⟩ := recvBody_sound (r := { s.req with toDealerT := d, messageBegins := false }) hr rfl
          hparses' hall hm hhead
        refine ⟨.ok, some (p, m), r', e'', hy, ?_, fun hc => absurd hc (by simp)⟩
        rw [hnil]
        exact hsound

theorem Sound.xsend {rc : ReqRc} {took : List (Option P)} {r' : ReqT P} {e' : Ends P} (h : s.Sound)
    (hx : s.req.xsend s.ends m = .ok (rc, took, r', e')) : Sound (if rc = .efsm then { s with req := r', ends := e' }
      else if r'.receivingReply then Replies.restart { s with req := r', ends := e' }
      else { s with req := r', ends := e', replies := [] }) := by
  obtain ⟨got, hin, hs⟩ : ∃ got, Intake s.req.fq s.ends.inlets s.arrived got ∧
      (s.req.receivingReply = false → s.req.messageBegins = false → reading got = none ∧ s.req.replyPipe ≠ none) := by
    rcases h with ⟨p, read, ⟨-, got, hin, -⟩, hprogress, -⟩ | ⟨-, -, got, hin, hs⟩
    · refine ⟨got, hin, fun hr hb => ?_⟩
      rw [hr, hb] at hprogress
      cases hprogress
    · exact ⟨got, hin, fun _ => hs⟩
  rcases ReqT.xsend_intake hin hs hx with ⟨rfl, rfl, rfl⟩ | ⟨hrc, got', hin', hcases⟩
  · exact h
  · rw [if_neg hrc]
    rcases hcases with ⟨hr, hb⟩ | ⟨⟨hg, hp⟩, ⟨hr, hb⟩ | ⟨hr, hb⟩⟩
    · rw [if_neg (by rw [hr]; exact false_ne_true)]
      exact .inr ⟨hr, rfl, got', hin', fun hc => nomatch hc.symm.trans hb⟩
    · rw [if_neg (by rw [hr]; exact false_ne_true)]
      exact .inr ⟨hr, rfl, got', hin', fun _ => ⟨hg, hp⟩⟩
    · rw [if_pos hr]
      exact Sound.restart hin' hg hp hr hb

theorem Sound.correlate {on : Bool} (h : s.Sound) (hx : s.run (.correlate on) = .ok s') : s'.Sound := by
  cases hx
  cases hc : s.req.receivingReply && s.req.messageBegins with
  | true =>
    obtain ⟨hr, hb⟩ := and_eq_true_iff.mp hc
    obtain ⟨p, read, ⟨hp, got, hin, -, hmid⟩, -⟩ := h.resolve_right fun hc => false_ne_true (hc.1.symm.trans hr)
    refine Sound.restart hin ?_ ?_ hr hb
    · rw [hmid, hb]
      simp
    · simp [hp]
  | false =>
    rw [if_neg Bool.false_ne_true]
    rcases h with ⟨p, read, hparses, hprogress, -⟩ | hidle
    · refine .inl ⟨p, read, hparses, hprogress, fun hr hb => ?_⟩
      rw [hr, hb] at hc
      exact absurd hc.symm false_ne_true
    · exact .inr hidle

theorem Sound.run {op : Op P} (h : s.Sound) (hr : s.Ready op) (hx : s.run op = .ok s') : s'.Sound := by
  cases op with
  | attach p self =>
    cases hx
    exact h.moved fun got hin => hin.attach hr
  | deliver p frames =>
    cases hx
    exact h.moved fun got hin => hin.deliver hr.1 hr.2
  | readActivated p =>
    by_cases hlt : s.req.fq.active < s.req.fq.pipes.size
    · cases (if_pos hlt).symm.trans hx
      exact h.moved fun got hin => (hin.activated hr.1 hr.2).2
    · exact absurd ((if_neg hlt).symm.trans hx) (by simp)
  | writeActivated p =>
    by_cases hlt : s.req.lb.active < s.req.lb.pipes.size
    · cases (if_pos hlt).symm.trans hx
      exact h.moved fun got hin => hin
    · exact absurd ((if_neg hlt).symm.trans hx) (by simp)
  | drift p o =>
    cases hx
    exact h.moved fun got hin => hin
  | correlate on => exact h.correlate hx
  | relaxed on =>
    cases hx
    exact h
  | xsend m =>
    obtain ⟨⟨rc, took, r', e'⟩, hsend, hx⟩ := bind_ok hx
    cases hx
    exact h.xsend hsend
  | xrecv =>
    obtain ⟨rc, got, r', e', hrecv, hsound, -⟩ := h.xrecv
    unfold Replies.run at hx
    simp only [hrecv, bind, bind] at hx
    cases hx
    exact hsound
  | xhasIn =>
    obtain ⟨⟨rc, r', e'⟩, hin, hx⟩ := bind_ok hx
    cases hx
    unfold ReqT.xhasIn at hin
    split_ifs at hin
    · cases hin
      exact h
    · obtain ⟨⟨rc, d, e1⟩, hdealer, hret⟩ := bind_ok hin
      cases hret
      obtain ⟨⟨rc, fq, inlets⟩, hfq, hret⟩ := bind_ok hdealer
      cases hret
      exact h.moved fun got hi => hi.hasIn hfq
  | xhasOut =>
    obtain ⟨⟨rc, r', e'⟩, hout, hx⟩ := bind_ok hx
    cases hx
    unfold ReqT.xhasOut at hout
    split_ifs at hout
    · cases hout
      exact h
    · obtain ⟨⟨rc, d, e1⟩, hdealer, hret⟩ := bind_ok hout
      cases hret
      obtain ⟨⟨rc, lb, outlets⟩, -, hret⟩ := bind_ok hdealer
      cases hret
      exact h.moved fun got hi => hi

theorem new_sound {requestId : UInt32} : (new requestId : Replies P).Sound := by
  refine .inr ⟨rfl, rfl, [], ⟨FairQueue.new_sound, nofun, fun p _ => ⟨rfl, rfl⟩⟩, ?_⟩
  exact fun hc => absurd hc.symm false_ne_true

theorem run_sound {ops : List (Op P)} (h : Run Start Step ops s) : s.Sound := by
  refine h.invariant Sound (fun _ h0 => ?_) fun s op s' hI hs => hI.run hs.1 hs.2
  obtain ⟨requestId, rfl⟩ := h0
  exact new_sound

/-- In every run the user is given the body of the first reply that arrives from the pipe of the request; no assertion fails,
and a call that returns nothing has found all pipes dry. -/
theorem replies_exact {ops : List (Op P)} (h : Run Start Step ops s) :
    s.Exact ∧ ∃ rc got r' e', s.req.xrecv s.ends = .ok (rc, got, r', e') ∧
      (rc = .eagain → ∀ p ∈ r'.fq.pipes, (e'.inlets p).inActive = false) := by
  have hs := run_sound h
  refine ⟨hs.exact, ?_⟩
  obtain ⟨rc, got, r', e', hx, hsound, hdry⟩ := hs.xrecv
  refine ⟨rc, got, r', e', hx, fun hrc p hp => ?_⟩
  obtain ⟨g, hin⟩ : ∃ g, Intake r'.fq e'.inlets s.arrived g := by
    rcases hsound with ⟨-, -, ⟨-, g, hin, -⟩, -⟩ | ⟨-, -, g, hin, -⟩
    · exact ⟨g, hin⟩
    · exact ⟨g, hin⟩
  by_contra hc
  have hactive := (hin.listens p hp (by simpa using hc)).2
  rw [hdry hrc] at hactive
  exact Nat.not_lt_zero _ hactive

open LoadBalancer (frame frameMore endOf)

/-- A reply arrives from another pipe, a message without an id and then the reply from the pipe of the request. -/
def correlated : List (Op ℕ) :=
  [.attach 0 (endOf 0), .attach 1 (endOf 0), .correlate true, .xsend (frame 1), .readActivated 0, .readActivated 1,
    .deliver 1 [ReqT.idFrame 6, ReqT.bottom, frame 9], .deliver 0 [frame 7],
    .deliver 0 [ReqT.idFrame 6, ReqT.bottom, frameMore 2, frame 3], .xrecv, .xrecv]

theorem replies_exact_two : ∃ s : Replies ℕ, Run Start Step correlated s ∧ s.replies = [frameMore 2, frame 3] ∧ s.Exact :=
  exists_run_free (P := fun s => s.replies = [frameMore 2, frame 3]) (⟨5, rfl⟩ : Start (new 5)) (by decide +kernel)
    fun _ hs hr => ⟨hr, (replies_exact hs).1⟩

end Replies

end Zmq
