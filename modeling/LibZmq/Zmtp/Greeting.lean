import LibZmq.Zmtp.StreamEngine

/-! A stream engine and its peer. What comes of the greeting is a function of the bytes that the peer sends,
however they are split into reads and whatever is written meanwhile. -/

namespace Zmq

namespace Greeting

open StreamEngine List

/-- What some bytes of a peer say about it. -/
inductive Known where
  | nothing | unversioned | versioned
  | revision (r : UInt8)
deriving DecidableEq

def known (l : List UInt8) : Known :=
  match l[0]? with
  | none => .nothing
  | some first =>
    if first ≠ 0xff then .unversioned
    else match l[9]? with
      | none => .nothing
      | some flags =>
        if flags &&& 1 = 0 then .unversioned
        else match l[10]? with
          | none => .versioned
          | some r => .revision r

/-- The peer speaks ZMTP/1.0 or ZMTP/2.0. -/
def older (r : UInt8) : Prop := r = zmtp10 ∨ r = zmtp20

instance (r : UInt8) : Decidable (older r) := by unfold older; infer_instance

/-- The bytes of the own greeting that are sent to such a peer. -/
def sends (o : EngineOptions) : Known → List UInt8
  | .nothing | .unversioned => signature o
  | .versioned => signature o ++ [3]
  | .revision r => signature o ++ [3] ++ (if older r then [o.type]
      else 0 :: (mechanismName o.mechanism ++ List.replicate 32 0))

def size : Known → ℕ
  | .revision r => if older r then v2GreetingSize else v3GreetingSize
  | _ => v2GreetingSize

/-- `none` as long as the greeting is not complete. -/
inductive Verdict where
  | rejected
  | chosen (p : Protocol)

def unlessZap (o : EngineOptions) (p : Protocol) : Verdict := if zapEnabled o then .rejected else .chosen p

/-- What comes of a greeting with a revision and, in its later part, the name of a mechanism. -/
def speaks (o : EngineOptions) (r : UInt8) (name : List UInt8) : Verdict :=
  if r = zmtp10 then unlessZap o .zmtp1
  else if r = zmtp20 then unlessZap o .zmtp2
  else if built o ∧ name = mechanismName o.mechanism then .chosen (.zmtp3 o.mechanism)
  else .rejected

/-- What comes of the greeting that begins with these bytes. -/
def verdict (o : EngineOptions) (l : List UInt8) : Option Verdict :=
  match known l with
  | .nothing | .versioned => none
  | .unversioned => some (unlessZap o .unversioned)
  | .revision r =>
    if l.length < size (.revision r) then none
    else some (speaks o r ((l.drop 12).take 20))

/-- The length of the greeting that is not for the decoder. -/
def consumed : Protocol → ℕ
  | .unversioned => 0
  | .zmtp1 | .zmtp2 => v2GreetingSize
  | .zmtp3 _ => v3GreetingSize

variable {o : EngineOptions} {l l' : List UInt8} {r : UInt8}

@[simp] theorem signature_length : (signature o).length = 10 := rfl

@[simp] theorem mechanismName_length (m : Security) : (mechanismName m).length = 20 := by cases m <;> rfl

theorem sends_length (k : Known) : (sends o k).length = match k with
    | .nothing | .unversioned => 10
    | .versioned => 11
    | .revision r => if older r then 12 else 64 := by
  cases k with
  | revision r => by_cases h : older r <;> simp [sends, h]
  | _ => simp [sends]

inductive Tells (l : List UInt8) : Known → Prop
  | empty (h : l = []) : Tells l .nothing
  | short (h0 : l[0]? = some 0xff) (h : l.length < 10) : Tells l .nothing
  | first {first} (h0 : l[0]? = some first) (h : first ≠ 0xff) : Tells l .unversioned
  | flags {flags} (h0 : l[0]? = some 0xff) (h9 : l[9]? = some flags) (h : flags &&& 1 = 0) : Tells l .unversioned
  | versioned {flags} (h0 : l[0]? = some 0xff) (h9 : l[9]? = some flags) (h : flags &&& 1 ≠ 0) (hl : l.length = 10) :
    Tells l .versioned
  | revision {flags r} (h0 : l[0]? = some 0xff) (h9 : l[9]? = some flags) (h : flags &&& 1 ≠ 0) (h10 : l[10]? = some r) :
    Tells l (.revision r)

theorem tells (l : List UInt8) : Tells l (known l) := by
  unfold known
  cases h0 : l[0]? with
  | none => exact .empty (length_eq_zero_iff.mp (by simpa using h0))
  | some first =>
    dsimp only
    split_ifs with hf
    · exact .first h0 hf
    · rw [not_not] at hf
      subst hf
      cases h9 : l[9]? with
      | none => exact .short h0 (by have := getElem?_eq_none_iff.mp h9; omega)
      | some flags =>
        dsimp only
        split_ifs with hflags
        · exact .flags h0 h9 hflags
        · have hl := (List.getElem?_eq_some_iff.mp h9).1
          cases h10 : l[10]? with
          | none => exact .versioned h0 h9 hflags (by have := getElem?_eq_none_iff.mp h10; omega)
          | some r => exact .revision h0 h9 hflags h10

theorem Tells.known {k : Known} (h : Tells l k) : Greeting.known l = k := by
  unfold Greeting.known
  cases h with
  | empty h => simp [h]
  | short h0 h =>
    have h9 : l[9]? = none := getElem?_eq_none (by omega)
    simp [h0, h9]
  | first h0 h => simp [h0, h]
  | flags h0 h9 h => simp [h0, h9, h]
  | versioned h0 h9 h hl =>
    have h10 : l[10]? = none := getElem?_eq_none (by omega)
    simp [h0, h9, h, h10]
  | revision h0 h9 h h10 => simp [h0, h9, h, h10]

theorem getElem?_append_some {i : ℕ} {b : UInt8} (h : l[i]? = some b) : (l ++ l')[i]? = some b :=
  (List.getElem?_append_left (List.getElem?_eq_some_iff.mp h).1).trans h

theorem known_unversioned (h : known l = .unversioned) : known (l ++ l') = .unversioned := by
  have ht := h ▸ tells l
  cases ht with
  | first h0 h => exact (Tells.first (getElem?_append_some h0) h).known
  | flags h0 h9 h => exact (Tells.flags (getElem?_append_some h0) (getElem?_append_some h9) h).known

theorem known_revision (h : known l = .revision r) : known (l ++ l') = .revision r := by
  have ht := h ▸ tells l
  cases ht with
  | revision h0 h9 h h10 =>
    exact (Tells.revision (getElem?_append_some h0) (getElem?_append_some h9) h (getElem?_append_some h10)).known

theorem known_versioned (h : known l = .versioned) (hne : l' ≠ []) : ∃ r, known (l ++ l') = .revision r := by
  have ht := h ▸ tells l
  cases ht with
  | versioned h0 h9 h hl =>
    obtain ⟨b, rest, rfl⟩ := exists_cons_of_ne_nil hne
    have h10 : (l ++ b :: rest)[10]? = some b := by
      rw [getElem?_append_right (by omega), hl]
      rfl
    exact ⟨b, (Tells.revision (getElem?_append_some h0) (getElem?_append_some h9) h h10).known⟩

theorem verdict_append {v : Verdict} (h : verdict o l = some v) (l' : List UInt8) :
    verdict o (l ++ l') = some v ∧ known (l ++ l') = known l := by
  unfold verdict at *
  cases hk : known l with
  | nothing | versioned => simp [hk] at h
  | unversioned =>
    rw [hk] at h
    rw [known_unversioned hk]
    exact ⟨h, rfl⟩
  | revision r =>
    rw [hk] at h
    rw [known_revision hk]
    refine ⟨?_, rfl⟩
    dsimp only at h ⊢
    split_ifs at h with hlen
    have hlen' : ¬ (l ++ l').length < size (.revision r) := by
      rw [length_append]
      omega
    rw [if_neg hlen', ← h]
    by_cases hr : older r
    · rcases hr with rfl | rfl <;> simp [speaks]
    · -- the name of the mechanism has been received
      have hl : 64 ≤ l.length := by
        have : size (.revision r) = 64 := if_neg hr
        omega
      have hname : ((l ++ l').drop 12).take 20 = (l.drop 12).take 20 := by
        rw [drop_append_of_le_length (by omega), take_append_of_le_length (by rw [length_drop]; omega)]
      rw [hname]

theorem known_step (hl : known l ≠ .unversioned) (hne : l' ≠ []) : known l = .nothing ∨
    (known l = .versioned ∧ ∃ r, known (l ++ l') = .revision r) ∨ ∃ r, known l = .revision r ∧ known (l ++ l') = .revision r := by
  cases hk : known l with
  | nothing => exact Or.inl rfl
  | unversioned => exact absurd hk hl
  | versioned => exact Or.inr (Or.inl ⟨rfl, known_versioned hk hne⟩)
  | revision r => exact Or.inr (Or.inr ⟨r, rfl, known_revision hk⟩)

variable {s : StreamEngine} {offset i : ℕ} {b : UInt8}

theorem recv_eq (h : s.greetingRecv[i]? = some b) : s.recv i = .ok b := by simp only [recv, h]

theorem queue_eq {bytes : List UInt8} (hpos : s.outpos = .greeting offset) (h : offset + s.out.length + bytes.length ≤ 64) :
    s.queue bytes = .ok { s with out := s.out ++ bytes } := by
  simp only [queue, hpos, v3GreetingSize, if_pos h]

theorem sent_eq {n : ℕ} (hpos : s.outpos = .greeting offset) : s.sent n = (offset + s.out.length == n) := by
  simp only [sent, hpos]

theorem sendRest_spec {k : Known} (hpos : s.outpos = .greeting offset) (hk : k = .versioned ∨ known s.greetingRecv = k)
    (hlen : offset + s.out.length = (sends o k).length) (ho : s.options = o)
    (hv : known s.greetingRecv = .versioned ∨ ∃ r, known s.greetingRecv = .revision r) (hsize : s.greetingSize = size k) :
    ∃ more, s.sendRest = .ok { s with out := s.out ++ more, greetingSize := size (known s.greetingRecv) } ∧
      sends o (known s.greetingRecv) = sends o k ++ more := by
  have ht := tells s.greetingRecv
  unfold sendRest
  rw [sent_eq hpos, hlen]
  rcases hv with hv | ⟨r, hv⟩
  · -- nothing but the version is due
    rw [hv] at ht
    have hk : k = .versioned := by
      rcases hk with hk | hk
      · exact hk
      · rw [← hk, hv]
    cases ht with
    | versioned h0 h9 h hl =>
      refine ⟨[], ?_, by rw [hv, hk, append_nil]⟩
      rw [if_neg (by rw [hl]; exact fun hc => absurd hc.1 (by decide)), hv, append_nil]
      rw [hk] at hsize
      rw [← hsize]
  · rw [hv] at ht
    cases ht with
    | revision h0 h9 h h10 =>
      have hl : 10 < s.greetingRecv.length := (List.getElem?_eq_some_iff.mp h10).1
      rcases hk with hk | hk
      · rw [hk, sends_length] at hlen
        rw [hk, if_pos ⟨hl, rfl⟩, revisionPos, recv_eq h10, hv]
        dsimp only [bind, Except.bind]
        by_cases hr : r = zmtp10 ∨ r = zmtp20
        · have hold : older r := hr
          rw [if_pos hr, queue_eq hpos (by rw [hlen]; exact (by decide : 11 + 1 ≤ 64)), ho]
          refine ⟨[o.type], ?_, by simp [sends, hold]⟩
          rw [hk] at hsize
          simp only [size, if_pos hold, hsize]
        · have hold : ¬ older r := hr
          rw [if_neg hr, queue_eq hpos (by rw [hlen]; simp), ho]
          refine ⟨0 :: (mechanismName o.mechanism ++ replicate 32 0), ?_, by simp [sends, hold]⟩
          simp only [size, if_neg hold]
          rfl
      · rw [hv] at hk
        subst hk
        have hnot : ¬ (signatureSize < s.greetingRecv.length ∧
            ((sends o (.revision r)).length == signatureSize + 1) = true) := by
          rw [sends_length]
          dsimp only
          split_ifs <;> simp [signatureSize]
        refine ⟨[], ?_, by rw [hv, append_nil]⟩
        rw [if_neg hnot, hv, append_nil, ← hsize]

theorem sendVersion_spec (hrecv : s.greetingRecv = l ++ l') (hne : l' ≠ []) (hl : known l ≠ .unversioned)
    (hpos : s.outpos = .greeting offset) (hlen : offset + s.out.length = (sends o (known l)).length) :
    ∃ k more, s.sendVersion = .ok { s with out := s.out ++ more } ∧ sends o k = sends o (known l) ++ more ∧
      (k = .versioned ∨ known s.greetingRecv = k) ∧ size k = size (known l) := by
  unfold sendVersion
  rw [sent_eq hpos, hlen]
  rcases known_step hl hne with hk | ⟨hk, -⟩ | ⟨r, hk, hk'⟩
  · rw [hk] at hlen ⊢
    have hdue : ((sends o .nothing).length == signatureSize) = true := by simp [sends, signatureSize]
    rw [queue_eq hpos (by rw [hlen]; exact (by decide : 10 + 1 ≤ 64))]
    exact ⟨.versioned, [3], rfl, rfl, Or.inl rfl, rfl⟩
  · have hnot : ¬ ((sends o .versioned).length == signatureSize) = true := by simp [sends, signatureSize]
    rw [hk, if_neg hnot]
    exact ⟨.versioned, [], by rw [append_nil], by rw [append_nil], Or.inl rfl, rfl⟩
  · have hnot : ¬ ((sends o (.revision r)).length == signatureSize) = true := by
      rw [sends_length]
      dsimp only
      split_ifs <;> simp [signatureSize]
    rw [hk, if_neg hnot]
    exact ⟨.revision r, [], by rw [append_nil], by rw [append_nil], Or.inr (hrecv ▸ hk'), rfl⟩

theorem received_spec (hrecv : s.greetingRecv = l ++ l') (hne : l' ≠ []) (hl : known l ≠ .unversioned)
    (hpos : s.outpos = .greeting offset) (hlen : offset + s.out.length = (sends o (known l)).length) (ho : s.options = o)
    (hsize : s.greetingSize = size (known l)) : ∃ more, s.received = .ok (decide (known s.greetingRecv ≠ .unversioned),
        { s with out := s.out ++ more, greetingSize := size (known s.greetingRecv) }) ∧
      sends o (known s.greetingRecv) = sends o (known l) ++ more := by
  obtain ⟨k, hk⟩ : ∃ k, known s.greetingRecv = k := ⟨_, rfl⟩
  have ht := hk ▸ tells s.greetingRecv
  have hstep := known_step hl hne
  rw [← hrecv, hk] at hstep
  -- nothing was known, and nothing is to be sent
  have hquiet : k = .nothing ∨ k = .unversioned → s = { s with out := s.out ++ [], greetingSize := size k } ∧
      sends o k = sends o (known l) ++ [] := by
    intro hc
    have hnothing : known l = .nothing := by
      rcases hstep with h | ⟨-, r, h⟩ | ⟨r, -, h⟩
      · exact h
      all_goals rcases hc with hc | hc <;> exact absurd (hc.symm.trans h) (by simp)
    rw [hnothing] at hsize ⊢
    have hsame : s.greetingSize = size k := by
      rw [hsize]
      rcases hc with rfl | rfl <;> rfl
    rw [append_nil, ← hsame]
    exact ⟨rfl, by rcases hc with rfl | rfl <;> rfl⟩
  -- the peer has a version
  have hdue : (known s.greetingRecv = .versioned ∨ ∃ r, known s.greetingRecv = .revision r) →
      ∃ more, (s.sendVersion >>= fun s => s.sendRest) = .ok { s with out := s.out ++ more, greetingSize := size k } ∧
        sends o k = sends o (known l) ++ more := by
    intro hv
    obtain ⟨k1, more1, h1, hsends1, hk1, hsize1⟩ := sendVersion_spec (o := o) hrecv hne hl hpos hlen
    have hlen1 : offset + (s.out ++ more1).length = (sends o k1).length := by
      rw [hsends1, length_append, length_append]
      omega
    obtain ⟨more2, h2, hsends2⟩ := @sendRest_spec o { s with out := s.out ++ more1 } offset k1 hpos hk1 hlen1 ho hv
      (hsize.trans hsize1.symm)
    refine ⟨more1 ++ more2, ?_, ?_⟩
    · rw [h1]
      dsimp only [bind, Except.bind]
      rw [h2, ← append_assoc, ← hk]
    · rw [← append_assoc, ← hsends1, ← hk]
      exact hsends2
  rw [hk]
  unfold received
  cases ht with
  | empty h =>
    rw [hrecv] at h
    exact absurd (append_eq_nil_iff.mp h).2 hne
  | short h0 h =>
    obtain ⟨hs, hsends⟩ := hquiet (Or.inl rfl)
    refine ⟨[], ?_, hsends⟩
    rw [recv_eq h0]
    dsimp only [bind, Except.bind]
    rw [if_pos (show s.greetingRecv.length < signatureSize from h), ← hs]
    rfl
  | first h0 h =>
    obtain ⟨hs, hsends⟩ := hquiet (Or.inr rfl)
    refine ⟨[], ?_, hsends⟩
    rw [recv_eq h0]
    dsimp only [bind, Except.bind]
    rw [if_pos h, ← hs]
    rfl
  | flags h0 h9 h =>
    obtain ⟨hs, hsends⟩ := hquiet (Or.inr rfl)
    refine ⟨[], ?_, hsends⟩
    have hl9 := (List.getElem?_eq_some_iff.mp h9).1
    rw [recv_eq h0]
    dsimp only [bind, Except.bind]
    rw [if_neg (by simp), if_neg (by rw [signatureSize]; omega), recv_eq h9]
    dsimp only
    rw [if_pos h, ← hs]
    rfl
  | versioned h0 h9 h hl10 =>
    obtain ⟨more, hdone, hsends⟩ := hdue (Or.inl hk)
    obtain ⟨s1, h1, hdone⟩ := bind_ok hdone
    refine ⟨more, ?_, hsends⟩
    rw [recv_eq h0]
    dsimp only [bind, Except.bind]
    rw [if_neg (by simp), if_neg (by rw [signatureSize]; omega), recv_eq h9]
    dsimp only
    rw [if_neg h, h1]
    dsimp only
    rw [hdone]
    rfl
  | revision h0 h9 h h10 =>
    obtain ⟨more, hdone, hsends⟩ := hdue (Or.inr ⟨_, hk⟩)
    obtain ⟨s1, h1, hdone⟩ := bind_ok hdone
    have hl10 := (List.getElem?_eq_some_iff.mp h10).1
    refine ⟨more, ?_, hsends⟩
    rw [recv_eq h0]
    dsimp only [bind, Except.bind]
    rw [if_neg (by simp), if_neg (by rw [signatureSize]; omega), recv_eq h9]
    dsimp only
    rw [if_neg h, h1]
    dsimp only
    rw [hdone]
    rfl

theorem size_ge (k : Known) : 12 ≤ size k := by
  cases k with
  | revision r =>
    by_cases h : older r <;> simp [size, h, v2GreetingSize, v3GreetingSize]
  | _ => exact Nat.le_refl _

theorem size_mono (hl : known l ≠ .unversioned) (hne : l' ≠ []) : size (known l) ≤ size (known (l ++ l')) := by
  have hge := size_ge (known (l ++ l'))
  rcases known_step hl hne with h | ⟨h, -⟩ | ⟨r, h, h'⟩
  · rw [h]
    exact hge
  · rw [h]
    exact hge
  · exact Nat.le_of_eq (by rw [h, h'])

theorem verdict_unversioned (h : known l = .unversioned) : verdict o l = some (unlessZap o .unversioned) := by
  simp only [verdict, h]

theorem verdict_none_iff (h : known l ≠ .unversioned) : verdict o l = none ↔ l.length < size (known l) := by
  have ht := tells l
  unfold verdict
  cases hk : known l with
  | unversioned => exact absurd hk h
  | nothing =>
    rw [hk] at ht
    refine ⟨fun _ => ?_, fun _ => rfl⟩
    have : size .nothing = 12 := rfl
    cases ht with
    | empty h =>
      rw [h]
      exact (by decide : 0 < 12)
    | short h0 h => omega
  | versioned =>
    rw [hk] at ht
    refine ⟨fun _ => ?_, fun _ => rfl⟩
    have : size .versioned = 12 := rfl
    cases ht with
    | versioned h0 h9 h hl => omega
  | revision r =>
    dsimp only
    by_cases hl : l.length < size (.revision r)
    · rw [if_pos hl]
      exact ⟨fun _ => hl, fun _ => rfl⟩
    · rw [if_neg hl]
      exact ⟨fun hc => absurd hc (Option.some_ne_none _), fun hc => absurd hc hl⟩

structure Reads (o : EngineOptions) (accepted : List UInt8) (s : StreamEngine) : Prop where
  options : s.options = o
  outpos : s.outpos = .greeting accepted.length
  sent : accepted ++ s.out = sends o (known s.greetingRecv)
  size : s.greetingSize = size (known s.greetingRecv)
  encoder : s.encoder = none
  handshaking : s.handshaking = true
  inbuf : s.inbuf = []
  protocol : s.protocol = none
  failed : s.failed = false
  le : s.greetingRecv.length ≤ s.greetingSize

theorem receiveGreeting_spec {accepted wire : List UInt8} {reads : List ℕ} (h : Reads o accepted s)
    (hv : known s.greetingRecv ≠ .unversioned) :
    ∃ complete s' got wire', receiveGreeting reads s wire = .ok (complete, s', wire') ∧ wire = got ++ wire' ∧
      s'.greetingRecv = s.greetingRecv ++ got ∧ Reads o accepted s' ∧
      (complete = true ↔ verdict o s'.greetingRecv ≠ none) := by
  induction reads generalizing s wire with
  | nil =>
    refine ⟨_, s, [], wire, rfl, rfl, (append_nil _).symm, h, ?_⟩
    rw [ne_eq, verdict_none_iff hv, h.size]
    simp
  | cons n reads ih =>
    unfold receiveGreeting
    by_cases hlt : s.greetingRecv.length < s.greetingSize
    · rw [if_pos hlt]
      obtain ⟨room, hroom⟩ : ∃ room, room = min n (s.greetingSize - s.greetingRecv.length) := ⟨_, rfl⟩
      rw [← hroom]
      by_cases hempty : wire.take room = []
      · refine ⟨false, s, [], wire, if_pos hempty, rfl, (append_nil _).symm, h, ?_⟩
        rw [ne_eq, verdict_none_iff hv, ← h.size]
        simp [hlt]
      · have hlen : accepted.length + s.out.length = (sends o (known s.greetingRecv)).length := by
          rw [← h.sent, length_append]
        obtain ⟨more, hreceived, hsends⟩ := @received_spec o s.greetingRecv (wire.take room)
          { s with greetingRecv := s.greetingRecv ++ wire.take room } accepted.length rfl hempty hv h.outpos hlen h.options
          h.size
        have hreads : Reads o accepted { s with
            greetingRecv := s.greetingRecv ++ wire.take room
            out := s.out ++ more
            greetingSize := size (known (s.greetingRecv ++ wire.take room)) } := by
          refine ⟨h.options, h.outpos, ?_, rfl, h.encoder, h.handshaking, h.inbuf, h.protocol, h.failed,
            ?_⟩
          · rw [hsends, ← h.sent, append_assoc]
          · have hmono := size_mono hv hempty
            have htake : (wire.take room).length ≤ s.greetingSize - s.greetingRecv.length := by
              rw [length_take]
              omega
            have hsize := h.size
            dsimp only
            rw [length_append]
            omega
        rw [if_neg hempty, hreceived]
        dsimp only [bind, Except.bind]
        by_cases hv' : known (s.greetingRecv ++ wire.take room) = .unversioned
        · refine ⟨true, _, wire.take room, wire.drop room, ?_, (take_append_drop _ _).symm, rfl, hreads, ?_⟩
          · rw [decide_eq_false (not_not.mpr hv')]
            rfl
          · rw [verdict_unversioned hv']
            simp
        · obtain ⟨complete, s', got, wire', hloop, hwire, hrecv, hr, hc⟩ := @ih _ (wire.drop room) hreads hv'
          refine ⟨complete, s', wire.take room ++ got, wire', ?_, ?_, ?_, hr, hc⟩
          · rw [decide_eq_true hv']
            exact hloop
          · rw [append_assoc, ← hwire, take_append_drop]
          · rw [hrecv, append_assoc]
    · refine ⟨true, s, [], wire, if_neg hlt, rfl, (append_nil _).symm, h, ?_⟩
      rw [ne_eq, verdict_none_iff hv, ← h.size]
      simp [hlt]

def Verdict.protocol : Verdict → Option Protocol
  | .rejected => none
  | .chosen p => some p

theorem unlessZap_protocol (p : Protocol) : (unlessZap o p).protocol = if zapEnabled o then none else some p := by
  unfold unlessZap
  split_ifs <;> rfl

theorem speaks_protocol (name : List UInt8) : (speaks o r name).protocol =
    if r = zmtp10 then if zapEnabled o then none else some .zmtp1
    else if r = zmtp20 then if zapEnabled o then none else some .zmtp2
    else if built o ∧ name = mechanismName o.mechanism then some (.zmtp3 o.mechanism) else none := by
  unfold speaks
  rw [apply_ite Verdict.protocol, apply_ite Verdict.protocol, apply_ite Verdict.protocol, unlessZap_protocol, unlessZap_protocol]
  rfl

theorem select_spec {v : Verdict} (ho : s.options = o) (hv : verdict o s.greetingRecv = some v) : s.select = .ok v.protocol := by
  have ht := tells s.greetingRecv
  unfold verdict at hv
  cases hk : known s.greetingRecv with
  | nothing | versioned => simp [hk] at hv
  | unversioned =>
    rw [hk] at hv ht
    cases hv
    have hold : s.isUnversioned = .ok true := by
      unfold isUnversioned
      cases ht with
      | first h0 h =>
        rw [recv_eq h0]
        exact if_pos h
      | flags h0 h9 h =>
        rw [recv_eq h0]
        dsimp only [bind, Except.bind]
        rw [recv_eq h9]
        exact congrArg Except.ok (decide_eq_true h)
    unfold select
    rw [hold, unlessZap_protocol, ho]
    rfl
  | revision r =>
    rw [hk] at hv ht
    dsimp only at hv
    split at hv
    · exact absurd hv.symm (Option.some_ne_none v)
    · rename_i hlen
      cases hv
      cases ht with
      | revision h0 h9 h h10 =>
        have hnew : s.isUnversioned = .ok false := by
          unfold isUnversioned
          rw [recv_eq h0]
          dsimp only [bind, Except.bind]
          rw [recv_eq h9]
          exact congrArg Except.ok (decide_eq_false h)
        unfold select
        rw [hnew, speaks_protocol]
        dsimp only [bind, Except.bind]
        rw [if_neg Bool.false_ne_true, revisionPos, recv_eq h10, ho]
        dsimp only
        by_cases h1 : r = zmtp10
        · rw [if_pos h1, if_pos h1]
          rfl
        · rw [if_neg h1, if_neg h1]
          by_cases h2 : r = zmtp20
          · rw [if_pos h2, if_pos h2]
            rfl
          · have hsize : size (.revision r) = 64 := if_neg fun hc => hc.elim h1 h2
            rw [if_neg h2, if_neg h2, offers, if_neg (by omega)]
            simp only [decide_eq_true_eq]
            rfl

theorem encode_all {act : EncodeStep → Encoder → Msg → Encoder} {e : Encoder} (hp : e.inProgress ≠ none)
    (hw : e.writePos ≠ []) : e.encode act (some e.writePos.length) = .ok (e.writePos, { e with writePos := [] }) := by
  have hpos : 0 < e.writePos.length := length_pos_iff.mpr hw
  unfold Encoder.encode
  rw [if_neg hp]
  simp [Encoder.encodeLoop, Encoder.refill, hw, hpos, bind, Except.bind, pure, Except.pure]

theorem beginUnversioned_spec (s : StreamEngine) : ∃ e, s.beginUnversioned =
    .ok { s with encoder := some (.v1, e), inbuf := s.greetingRecv } ∧ Encoder.Owes e s.options.identity ∧
      e.bufsize = outBatchSize := by
  obtain ⟨m, hm⟩ : ∃ m, m = identityMsg s.options := ⟨_, rfl⟩
  have hdata : m.data = s.options.identity := by rw [hm]; rfl
  have hload : (Encoder.new outBatchSize).loadMsg (EncoderKind.act .v1) m =
      .ok ⟨V1Encoder.header m, .sizeReady, false, outBatchSize, some m⟩ := by
    rfl
  have hsize : (V1Encoder.header m).length = if 255 ≤ s.options.identity.length + 1 then 10 else 2 := by
    unfold V1Encoder.header
    rw [hdata]
    dsimp only
    split_ifs
    · omega
    · rfl
    · rfl
    · omega
  have hne : V1Encoder.header m ≠ [] := by
    rw [← length_pos_iff, hsize]
    split_ifs <;> decide
  have hencode := @encode_all (EncoderKind.act .v1) ⟨V1Encoder.header m, .sizeReady, false, outBatchSize, some m⟩
    (Option.some_ne_none m) hne
  rw [hsize] at hencode
  refine ⟨⟨[], .sizeReady, false, outBatchSize, some m⟩, ?_, ?_, rfl⟩
  · unfold beginUnversioned
    rw [← hm, hload]
    dsimp only [bind, Except.bind]
    rw [hencode]
    dsimp only
    rw [if_neg (not_not.mpr hsize)]
    rfl
  · rw [← hdata]
    exact @Encoder.Owes.header [] outBatchSize m

def kindOf : Protocol → EncoderKind
  | .unversioned | .zmtp1 => .v1
  | .zmtp2 | .zmtp3 _ => .v2

/-- What is sent between the greeting and the messages: an unversioned peer is given the identity, the header of
which it takes the greeting for. -/
def identityBody (o : EngineOptions) : Protocol → List UInt8
  | .unversioned => o.identity
  | _ => []

theorem begin_spec (s : StreamEngine) (p : Protocol) : ∃ e, s.begin p =
    .ok { s with encoder := some (kindOf p, e), inbuf := if p = .unversioned then s.greetingRecv else s.inbuf } ∧
      Encoder.Owes e (identityBody s.options p) ∧ e.bufsize = outBatchSize := by
  cases p with
  | unversioned => exact beginUnversioned_spec s
  | _ => exact ⟨.new outBatchSize, rfl, .idle, rfl⟩

end Greeting

end Zmq
