import LibZmq.Zmtp.Decoder

/-! What `decoder_base_t` does with the bytes it is given, for any derived class: it
parses them part by part, wherever they are cut. -/

namespace Zmq

open List

namespace Decoder

variable {τ : Type}

def wire (m : Msg) : UInt8 × List UInt8 := (m.flags, m.data)

variable {κ : Type} (act : Decoder τ → Ptr → Except CodecFault (Rc × Decoder τ))
  (out : κ → List UInt8 → Outcome κ (UInt8 × List UInt8) Errno)
  (Sim : Allocator → Decoder τ → κ → ℕ → List UInt8 → Prop) (Q : UInt64 → ℕ → κ → ℕ → Prop)
  (placed : Prop) (refuses : κ → ℕ → Prop)

def Begins (mem : Allocator) (d : Decoder τ) (label : κ) (need : ℕ) : Prop := 0 < need ∧ Sim mem d label need []

def Leads (mem : Allocator) (rc : Rc) (d : Decoder τ) : Outcome κ (UInt8 × List UInt8) Errno → Prop
  | .fail e => rc = .error e
  | .emit o label need => rc = .message ∧ wire d.message.1 = o ∧ Begins Sim mem d.message.2 label need
  | .go label need => (rc = .more ∧ Begins Sim mem d label need) ∨ (rc = .error .enomem ∧ refuses label need)

structure InPlace (mem : Allocator) (k : ℕ) (d : Decoder τ) (label : κ) (need : ℕ) : Prop where
  pos : 0 < need
  fits : k + need ≤ mem.received.length
  toRead : d.toRead = need
  readPos : d.readPos = .buf k
  done : ∀ readFrom, ∃ d' o label' need', runSteps act readFrom stepFuel (d.advance need) = .ok (.message, d') ∧
    out label ((mem.received.drop k).take need) = .emit o label' need' ∧ wire d'.message.1 = o ∧
    Begins Sim mem d'.message.2 label' need'

/-- How the state of a decoder stands for the part it reads, `Sim`, and what its state
machine does at the end of a part. `Q` is what has to hold when a part begins at a
position of the receive buffer; only if `placed` may the part be used in place. -/
structure Collects : Prop where
  alloc : ∀ {mem d l n g}, Sim mem d l n g → d.alloc = mem
  toRead : ∀ {mem d l n g}, Sim mem d l n g → g.length ≤ n ∧ d.toRead = n - g.length
  owns : ∀ {mem d l n g}, Sim mem d l n g → d.owns d.readPos d.toRead = true
  notBuf : ∀ {mem d l n g}, Sim mem d l n g → ∀ i, d.readPos ≠ .buf i
  realloc : ∀ {mem d l n g}, Sim mem d l n g → ∀ mem', mem'.maxSize = mem.maxSize → Sim mem' { d with alloc := mem' } l n g
  store : ∀ {mem d l n g}, Sim mem d l n g → ∀ bytes, g.length + bytes.length ≤ n →
    ∃ d', d.store bytes = .ok d' ∧ d'.readPos = d.readPos ∧ ∀ k ≤ bytes.length, Sim mem (d'.advance k) l n (g ++ bytes.take k)
  /-- a part that was read without the receive buffer -/
  direct : ∀ {mem d l n g}, Sim mem d l n g → g.length = n → mem.maxSize ≤ n → ∀ readFrom,
    ∃ rc d', runSteps act readFrom stepFuel d = .ok (rc, d') ∧ Leads Sim refuses mem rc d' (out l g)
  finish : ∀ {mem d l n g}, Sim mem d l n g → g.length = n → ∀ k ≤ mem.received.length, (placed → mem.Filled) →
    (placed → ∀ l' n', out l g = .go l' n' → Q mem.base k l' n') →
    ∃ rc d', runSteps act (.buf k) stepFuel d = .ok (rc, d') ∧
      (Leads Sim refuses mem rc d' (out l g) ∨ ∃ l' n', placed ∧ rc = .more ∧ out l g = .go l' n' ∧
        InPlace act out Sim mem k d' l' n')

variable {act out Sim Q placed refuses} {mem : Allocator} {d : Decoder τ} {l : κ} {n : ℕ} {g bytes : List UInt8} {as : List UInt8}
    {d' : Decoder τ} {rc : Rc}

inductive Decoded (out : κ → List UInt8 → Outcome κ (UInt8 × List UInt8) Errno)
    (Sim : Allocator → Decoder τ → κ → ℕ → List UInt8 → Prop) (refuses : κ → ℕ → Prop) (mem : Allocator) (p : Part κ UInt8)
    (bytes : List UInt8) : Rc → ℕ → Decoder τ → Prop
  | more {d p'} (hfeed : p.feed out bytes = ([], .ok p')) (hlt : p'.got.length < p'.need)
    (hsim : Sim mem d p'.label p'.need p'.got) : Decoded out Sim refuses mem p bytes .more bytes.length d
  | message {d used label need} (hused : 0 < used ∧ used ≤ bytes.length)
    (hfeed : p.feed out (bytes.take used) = ([wire d.message.1], .ok (.start label need)))
    (hsim : Begins Sim mem d.message.2 label need) : Decoded out Sim refuses mem p bytes .message used d
  | error {d used e} (hfeed : p.feed out bytes = ([], .error e)) :
    Decoded out Sim refuses mem p bytes (.error e) used d
  | refused {d used} (hmeets : p.Meets out refuses bytes) : Decoded out Sim refuses mem p bytes (.error .enomem) used d

theorem Decoded.after {p p' : Part κ UInt8} {used : ℕ}
    (hfeed : p.feed out as = ([], .ok p')) (h : Decoded out Sim refuses mem p' bytes rc used d') :
    Decoded out Sim refuses mem p (as ++ bytes) rc (as.length + used) d' := by
  have happend : ∀ cs, p.feed out (as ++ cs) = p'.feed out cs := by
    intro cs
    rw [Part.feed_append_ok (by rw [hfeed]), hfeed]
    rfl
  cases h with
  | more hfeed' hlt hsim =>
    rw [← length_append]
    exact .more (by rw [happend, hfeed']) hlt hsim
  | message hused hfeed' hsim =>
    refine .message ⟨by omega, by rw [length_append]; omega⟩ ?_ hsim
    rw [take_length_add_append, happend, hfeed']
  | error hfeed' => exact .error (by rw [happend, hfeed'])
  | refused hmeets => exact .refused (hmeets.after (by rw [hfeed]))

theorem leads_decoded (hlen : g.length + as.length = n) (has : as ≠ []) (h : Leads Sim refuses mem rc d' (out l (g ++ as))) :
    (rc = .more ∧ ∃ l' n', out l (g ++ as) = .go l' n' ∧ Begins Sim mem d' l' n') ∨
    (rc ≠ .more ∧ ∀ bs, Decoded out Sim refuses mem ⟨l, n, g⟩ (as ++ bs) rc as.length d') := by
  have hfull := Part.feed_full out (p := ⟨l, n, g⟩) hlen has
  cases hout : out l (g ++ as) with
  | fail e =>
    rw [hout] at h hfull
    obtain rfl : rc = .error e := h
    refine .inr ⟨Rc.noConfusion, fun bs => .error ?_⟩
    rw [Part.feed_append, hfull]
  | emit o label need =>
    rw [hout] at h hfull
    obtain ⟨rfl, rfl, hsim⟩ := h
    refine .inr ⟨Rc.noConfusion, fun bs => .message ⟨length_pos_iff.mpr has, by simp⟩ ?_ hsim⟩
    rw [take_left, hfull]
  | go label need =>
    rw [hout] at h
    rcases h with ⟨rfl, hsim⟩ | ⟨rfl, hrefuses⟩
    · exact .inl ⟨rfl, label, need, rfl, hsim⟩
    · exact .inr ⟨Rc.noConfusion, fun bs => .refused ((Part.meets_full hlen has hout hrefuses).left bs)⟩

variable (act) in
theorem runSteps_more (readFrom : Ptr) (h : d.toRead ≠ 0) : runSteps act readFrom stepFuel d = .ok (.more, d) := by
  rw [stepFuel, runSteps, if_pos h]

theorem runSteps_act {readFrom : Ptr} {d1 : Decoder τ} (fuel : ℕ) (hzero : d.toRead = 0)
    (hact : act d readFrom = .ok (rc, d1)) (hstop : rc ≠ .more ∨ d1.toRead ≠ 0) :
    runSteps act readFrom (fuel + 2) d = .ok (rc, d1) := by
  rw [runSteps, if_neg (not_not_intro hzero), hact]
  by_cases hrc : rc = .more
  · subst hrc
    rcases hstop with hx | hx
    · exact absurd rfl hx
    · change runSteps act readFrom (fuel + 1) d1 = _
      rw [runSteps, if_pos hx]
  · change (if rc ≠ .more then _ else _) = _
    rw [if_pos hrc]
    rfl

theorem loop_turn (h : Collects act out Sim Q placed refuses) (hsim : Sim mem d l n g) (hb : bytes ≠ [])
    (k0 fuel used : ℕ) : ∃ d1, Sim mem d1 l n (g ++ bytes.take (min d.toRead bytes.length)) ∧
      decodeLoop act (.buf k0) (fuel + 1) d used bytes =
        runSteps act (.buf (k0 + (used + min d.toRead bytes.length))) stepFuel d1 >>= fun x =>
          if x.1 ≠ .more then .ok (x.1, used + min d.toRead bytes.length, x.2)
          else decodeLoop act (.buf k0) fuel x.2 (used + min d.toRead bytes.length) (bytes.drop (min d.toRead bytes.length)) := by
  obtain ⟨hgn, htoRead⟩ := h.toRead hsim
  have hlen : (bytes.take (min d.toRead bytes.length)).length = min d.toRead bytes.length := by
    rw [length_take]
    omega
  obtain ⟨d1, hstore, -, hahead⟩ := h.store hsim (bytes.take (min d.toRead bytes.length)) (by omega)
  have hsim1 := hahead _ (Nat.le_refl _)
  rw [take_length, hlen] at hsim1
  refine ⟨_, hsim1, ?_⟩
  have hcopy : d.copyFrom ((Ptr.buf k0).add used) (bytes.take (min d.toRead bytes.length)) = .ok d1 := by
    rw [copyFrom, if_pos (show d.readPos ≠ (Ptr.buf k0).add used from h.notBuf hsim (k0 + used)), hstore]
  rw [decodeLoop, if_neg hb]
  simp only [hcopy]
  rfl

theorem loop_inPlace {k : ℕ} (h : InPlace act out Sim mem k d l n) (k0 fuel used : ℕ) (hk : k = k0 + used)
    (hbytes : bytes = mem.received.drop k) :
    ∃ d', decodeLoop act (.buf k0) (fuel + 1) d used bytes = .ok (.message, used + n, d') ∧
      Decoded out Sim refuses mem ⟨l, n, []⟩ bytes .message n d' := by
  obtain ⟨hpos, hfits, htoRead, hreadPos, hdone⟩ := h
  obtain ⟨d', o, l', n', hrun, hout, hwire, hbegin⟩ := hdone (.buf (k0 + (used + n)))
  have hlen : n ≤ bytes.length := by
    rw [hbytes, length_drop]
    omega
  have hb : bytes ≠ [] := by
    rintro rfl
    rw [length_nil] at hlen
    omega
  have hcopy : min n bytes.length = n := by omega
  have htake : (bytes.take n).length = n := by
    rw [length_take]
    omega
  refine ⟨d', ?_, .message ⟨hpos, hlen⟩ ?_ hbegin⟩
  · have hplace : d.copyFrom ((Ptr.buf k0).add used) (bytes.take n) = .ok d := by
      rw [copyFrom, if_neg]
      rw [hreadPos, hk]
      exact not_not_intro rfl
    rw [decodeLoop, if_neg hb, htoRead]
    simp only [hcopy, hplace, bind, Except.bind]
    rw [show (Ptr.buf k0).add (used + n) = .buf (k0 + (used + n)) from rfl, hrun]
    rfl
  · rw [Part.feed_full out (by simpa using htake) (by rintro hx; rw [hx] at htake; simp at htake; omega)]
    simp only [nil_append, hbytes]
    rw [hout, hwire]

theorem loop_spec (h : Collects act out Sim Q placed refuses) (hbuf : placed → mem.Filled) (k0 fuel : ℕ)
    {k : ℕ} (used : ℕ) (hk : k = k0 + used) (hsim : Sim mem d l n g) (hlt : g.length < n) (hfits : k + bytes.length ≤ mem.received.length)
    (hwhole : placed → bytes = mem.received.drop k) (hQ : placed → Part.Along out (Q mem.base) k ⟨l, n, g⟩ bytes)
    (hfuel : bytes.length < fuel) :
    ∃ rc u d', decodeLoop act (.buf k0) fuel d used bytes = .ok (rc, used + u, d') ∧
      Decoded out Sim refuses mem ⟨l, n, g⟩ bytes rc u d' := by
  induction fuel generalizing d l n g k used bytes with
  | zero => omega
  | succ fuel ih =>
    by_cases hb : bytes = []
    · subst hb
      exact ⟨.more, 0, d, by simp [decodeLoop], .more rfl hlt hsim⟩
    obtain ⟨d1, hsim1, hloop⟩ := loop_turn h hsim hb k0 fuel used
    obtain ⟨hgn, htoRead⟩ := h.toRead hsim
    have hbpos := length_pos_iff.mpr hb
    obtain ⟨c, hc⟩ : ∃ c, min d.toRead bytes.length = c := ⟨_, rfl⟩
    rw [hc] at hloop hsim1
    obtain ⟨as, bs, rfl, has⟩ : ∃ as bs, bytes = as ++ bs ∧ as.length = c :=
      ⟨bytes.take c, bytes.drop c, (take_append_drop c bytes).symm, by rw [length_take]; omega⟩
    have haspos : 0 < as.length := by omega
    have hne : as ≠ [] := length_pos_iff.mp haspos
    rw [← has] at hloop hsim1
    rw [take_left] at hsim1
    rw [drop_left] at hloop
    rw [length_append] at hc hfits hfuel
    have hwhole' : placed → bs = mem.received.drop (k + as.length) := by
      intro hp
      have := congrArg (drop as.length) (hwhole hp)
      rwa [drop_left, drop_drop] at this
    by_cases hshort : g.length + as.length < n
    · -- the part is not complete, so all bytes are used
      have hfeed : Part.feed out ⟨l, n, g⟩ as = ([], .ok ⟨l, n, g ++ as⟩) := Part.feed_short hshort
      obtain ⟨hgn1, htoRead1⟩ := h.toRead hsim1
      rw [length_append] at htoRead1
      obtain ⟨rc, u, d', hrest, hdec⟩ := ih (k := k + as.length) (used + as.length) (by omega) hsim1
        (by rw [length_append]; omega) (by omega) hwhole'
        (fun hp => ((Part.along_append (by rw [hfeed])).mp (hQ hp)).2) (by omega)
      refine ⟨rc, as.length + u, d', ?_, hdec.after hfeed⟩
      rw [hloop, runSteps_more _ _ (by omega)]
      change decodeLoop act (.buf k0) fuel d1 (used + as.length) bs = _
      rw [hrest, Nat.add_assoc]
    · have hfull : g.length + as.length = n := by omega
      have hfeed := Part.feed_full out (p := ⟨l, n, g⟩) hfull hne
      have hgo : placed → ∀ l' n', out l (g ++ as) = .go l' n' → Q mem.base (k + as.length) l' n' ∧
          Part.Along out (Q mem.base) (k + as.length) ⟨l', n', []⟩ bs := by
        intro hp l' n' hgo
        rw [hgo] at hfeed
        obtain ⟨h1, h2⟩ := (Part.along_append (by rw [hfeed])).mp (hQ hp)
        exact ⟨Part.along_go hfull hne hgo h1, h2⟩
      obtain ⟨rc, d2, hrun, hleads⟩ := h.finish hsim1 (by rw [length_append]; exact hfull)
        (k + as.length) (by omega) hbuf (fun hp l' n' hx => (hgo hp l' n' hx).1)
      have hloop' : decodeLoop act (.buf k0) (fuel + 1) d used (as ++ bs) =
          if rc ≠ .more then .ok (rc, used + as.length, d2)
          else decodeLoop act (.buf k0) fuel d2 (used + as.length) bs := by
        rw [hloop, show k0 + (used + as.length) = k + as.length by omega, hrun]
        rfl
      rw [hloop']
      rcases hleads with hleads | ⟨l', n', hplaced, rfl, hout, hin⟩
      · rcases leads_decoded hfull hne hleads with ⟨rfl, l', n', hout, hpos, hsim2⟩ | ⟨hrc, hdec⟩
        · rw [hout] at hfeed
          obtain ⟨rc, u, d', hrest, hdec⟩ := ih (k := k + as.length) (used + as.length) (by omega) hsim2
            (by simpa using hpos) (by omega) hwhole' (fun hp => (hgo hp l' n' hout).2) (by omega)
          refine ⟨rc, as.length + u, d', ?_, hdec.after hfeed⟩
          rw [if_neg (not_not_intro rfl), hrest, Nat.add_assoc]
        · exact ⟨rc, as.length, d2, by rw [if_pos hrc], hdec bs⟩
      · rw [hout] at hfeed
        obtain ⟨fuel, rfl⟩ : ∃ f, fuel = f + 1 := ⟨fuel - 1, by omega⟩
        obtain ⟨d', hrest, hdec⟩ := loop_inPlace hin k0 fuel (used + as.length) (by omega)
          (hwhole' hplaced)
        refine ⟨.message, as.length + n', d', ?_, hdec.after hfeed⟩
        rw [if_neg (not_not_intro rfl), hrest, Nat.add_assoc]

inductive AllDecoded (out : κ → List UInt8 → Outcome κ (UInt8 × List UInt8) Errno)
    (Sim : Allocator → Decoder τ → κ → ℕ → List UInt8 → Prop) (refuses : κ → ℕ → Prop) (mem : Allocator) (p : Part κ UInt8)
    (bytes : List UInt8) : List Msg → Option Errno → Decoder τ → Prop
  | ok {ms d p'} (hfeed : p.feed out bytes = (ms.map wire, .ok p')) (hlt : p'.got.length < p'.need)
    (hsim : Sim mem d p'.label p'.need p'.got) : AllDecoded out Sim refuses mem p bytes ms none d
  | error {ms d e} (hfeed : p.feed out bytes = (ms.map wire, .error e)) :
    AllDecoded out Sim refuses mem p bytes ms (some e) d
  | refused {ms d} (hmeets : p.Meets out refuses bytes) (hfeed : ms.map wire <+: (p.feed out bytes).1) :
    AllDecoded out Sim refuses mem p bytes ms (some .enomem) d

theorem AllDecoded.append {p p' : Part κ UInt8} {ms2 : List Msg} {e : Option Errno}
    (ms1 : List Msg) (hfeed : p.feed out as = (ms1.map wire, .ok p')) (h : AllDecoded out Sim refuses mem p' bytes ms2 e d') :
    AllDecoded out Sim refuses mem p (as ++ bytes) (ms1 ++ ms2) e d' := by
  have happend : p.feed out (as ++ bytes) = (ms1.map wire ++ (p'.feed out bytes).1, (p'.feed out bytes).2) := by
    rw [Part.feed_append_ok (by rw [hfeed]), hfeed]
  cases h with
  | ok hfeed' hlt hsim => exact .ok (by rw [happend, hfeed', map_append]) hlt hsim
  | error hfeed' => exact .error (by rw [happend, hfeed', map_append])
  | refused hmeets hfeed' =>
    refine .refused (hmeets.after (by rw [hfeed])) ?_
    rw [happend, map_append]
    exact (prefix_append_right_inj _).mpr hfeed'

theorem AllDecoded.stop {p : Part κ UInt8} {ms : List Msg} {e : Errno}
    (h : AllDecoded out Sim refuses mem p as ms (some e) d') (bs : List UInt8) :
    AllDecoded out Sim refuses mem p (as ++ bs) ms (some e) d' := by
  cases h with
  | error hfeed => exact .error (by rw [Part.feed_append, hfeed])
  | refused hmeets hfeed => exact .refused (hmeets.left bs) (hfeed.trans (Part.feed_prefix ..))

theorem decodeAll_more {p : Ptr} {u : ℕ} {d1 : Decoder τ} (fuel : ℕ) (hb : bytes ≠ [])
    (hdecode : d.decode act p bytes = .ok (.more, u, d1)) : decodeAll act (fuel + 1) d p bytes = .ok ([], none, d1) := by
  rw [decodeAll, if_neg hb, hdecode]
  rfl

theorem decodeAll_error {p : Ptr} {u : ℕ} {d1 : Decoder τ} {e : Errno} (fuel : ℕ) (hb : bytes ≠ [])
    (hdecode : d.decode act p bytes = .ok (.error e, u, d1)) : decodeAll act (fuel + 1) d p bytes = .ok ([], some e, d1) := by
  rw [decodeAll, if_neg hb, hdecode]
  rfl

theorem decodeAll_message {p : Ptr} {u : ℕ} {d1 : Decoder τ} {ms : List Msg} {e : Option Errno} (fuel : ℕ)
    (hb : bytes ≠ []) (hdecode : d.decode act p bytes = .ok (.message, u, d1))
    (hrest : decodeAll act fuel d1.message.2 (p.add u) (bytes.drop u) = .ok (ms, e, d')) :
    decodeAll act (fuel + 1) d p bytes = .ok (d1.message.1 :: ms, e, d') := by
  rw [decodeAll, if_neg hb, hdecode]
  change (decodeAll act fuel d1.message.2 (p.add u) (bytes.drop u) >>= _) = _
  rw [hrest]
  rfl

theorem decodeAll_spec (h : Collects act out Sim Q placed refuses) (hbuf : placed → mem.Filled) (fuel : ℕ)
    {k : ℕ} (hsim : Sim mem d l n g) (hlt : g.length < n)
    (hfits : k + bytes.length ≤ mem.received.length) (hwhole : placed → bytes = mem.received.drop k)
    (hQ : placed → Part.Along out (Q mem.base) k ⟨l, n, g⟩ bytes) (hfuel : bytes.length < fuel) :
    ∃ ms e d', decodeAll act fuel d (.buf k) bytes = .ok (ms, e, d') ∧
      AllDecoded out Sim refuses mem ⟨l, n, g⟩ bytes ms e d' := by
  induction fuel generalizing d l n g k bytes with
  | zero => omega
  | succ fuel ih =>
    by_cases hb : bytes = []
    · subst hb
      exact ⟨[], none, d, by simp [decodeAll], .ok rfl hlt hsim⟩
    obtain ⟨rc, u, d1, hloop, hdec⟩ := loop_spec h hbuf k (bytes.length + 1) 0 (Nat.add_zero k).symm hsim hlt
      hfits hwhole hQ (Nat.lt_succ_self _)
    have hdecode : d.decode act (.buf k) bytes = .ok (rc, u, d1) := by
      rw [decode, if_neg fun hx => h.notBuf hsim k hx.symm, hloop, Nat.zero_add]
    cases hdec with
    | more hfeed hlt1 hsim1 => exact ⟨[], none, d1, decodeAll_more fuel hb hdecode, .ok hfeed hlt1 hsim1⟩
    | error hfeed => exact ⟨[], _, d1, decodeAll_error fuel hb hdecode, .error hfeed⟩
    | refused hmeets => exact ⟨[], _, d1, decodeAll_error fuel hb hdecode, .refused hmeets nil_prefix⟩
    | @message _ _ label need hused hfeed hbegin =>
      have hsplit := take_append_drop u bytes
      have hlen : (bytes.take u).length = u := by
        rw [length_take]
        omega
      have hQ1 : placed → Part.Along out (Q mem.base) (k + u) ⟨label, need, []⟩ (bytes.drop u) := by
        intro hp
        have hQp := hQ hp
        rw [← hsplit] at hQp
        have := ((Part.along_append (by rw [hfeed])).mp hQp).2
        rwa [hlen] at this
      obtain ⟨ms, e, d', hrest, hdec'⟩ := ih (k := k + u) hbegin.2 (by simpa using hbegin.1)
        (by rw [length_drop]; omega)
        (fun hp => by
          rw [← drop_drop, ← hwhole hp])
        hQ1 (by rw [length_drop]; omega)
      refine ⟨d1.message.1 :: ms, e, d', decodeAll_message fuel hb hdecode hrest, ?_⟩
      rw [← hsplit]
      exact AllDecoded.append [d1.message.1] hfeed hdec'

variable (act) in
theorem decodePieces_nil (p : Ptr) (cuts : List ℕ) : decodePieces act d p (pieces [] cuts) = .ok ([], none, d) := by
  induction cuts generalizing p with
  | nil => rfl
  | cons k cuts ih =>
    rw [pieces, take_nil, drop_nil, decodePieces]
    simp only [length_nil, decodeAll, if_true, Ptr.add_zero, bind, Except.bind, ih]
    rfl

theorem decodePieces_ok {p : Ptr} {rest : List (List UInt8)} {ms ms' : List Msg}
    {e : Option Errno} {d1 : Decoder τ} (hall : decodeAll act (as.length + 1) d p as = .ok (ms, none, d1))
    (hrest : decodePieces act d1 (p.add as.length) rest = .ok (ms', e, d')) :
    decodePieces act d p (as :: rest) = .ok (ms ++ ms', e, d') := by
  rw [decodePieces, hall]
  change (decodePieces act d1 (p.add as.length) rest >>= _) = _
  rw [hrest]
  rfl

theorem decodePieces_error {p : Ptr} {rest : List (List UInt8)} {ms : List Msg} {e : Errno}
    {d1 : Decoder τ} (hall : decodeAll act (as.length + 1) d p as = .ok (ms, some e, d1)) :
    decodePieces act d p (as :: rest) = .ok (ms, some e, d1) := by
  rw [decodePieces, hall]
  rfl

theorem pieces_cons (bytes : List UInt8) (k : ℕ) (cuts : List ℕ) : ∃ as bs, bytes = as ++ bs ∧
    pieces bytes (k :: cuts) = as :: pieces bs cuts :=
  ⟨bytes.take k, bytes.drop k, (take_append_drop k bytes).symm, rfl⟩

theorem decodePieces_last {p : Ptr} {ms : List Msg} {e : Option Errno} {d1 : Decoder τ}
    (hall : decodeAll act (bytes.length + 1) d p bytes = .ok (ms, e, d1)) :
    decodePieces act d p (pieces bytes []) = .ok (ms, e, d1) := by
  cases e with
  | none =>
    have : decodePieces act d p [bytes] = .ok (ms ++ [], none, d1) := decodePieces_ok hall rfl
    rwa [append_nil] at this
  | some e => exact decodePieces_error hall

theorem pieces_spec (h : Collects act out Sim Q placed refuses) (hbuf : placed → mem.Filled) (cuts : List ℕ)
    {k : ℕ} (hsim : Sim mem d l n g) (hlt : g.length < n) (hfits : k + bytes.length ≤ mem.received.length)
    (hwhole : placed → cuts = [] ∧ bytes = mem.received.drop k) (hQ : placed → Part.Along out (Q mem.base) k ⟨l, n, g⟩ bytes) :
    ∃ ms e d', decodePieces act d (.buf k) (pieces bytes cuts) = .ok (ms, e, d') ∧
      AllDecoded out Sim refuses mem ⟨l, n, g⟩ bytes ms e d' := by
  induction cuts generalizing d l n g k bytes with
  | nil =>
    obtain ⟨ms, e, d', hall, hdec⟩ := decodeAll_spec h hbuf (bytes.length + 1) hsim hlt hfits
      (fun hp => (hwhole hp).2) hQ (Nat.lt_succ_self _)
    exact ⟨ms, e, d', decodePieces_last hall, hdec⟩
  | cons c cuts ih =>
    have hnot : ¬ placed := fun hp => cons_ne_nil c cuts (hwhole hp).1
    obtain ⟨as, bs, rfl, hpieces⟩ := pieces_cons bytes c cuts
    rw [length_append] at hfits
    obtain ⟨ms, e, d1, hall, hdec⟩ := decodeAll_spec h hbuf (as.length + 1) (k := k) hsim hlt
      (show k + as.length ≤ _ by omega)
      (fun hp => absurd hp hnot) (fun hp => absurd hp hnot) (Nat.lt_succ_self _)
    rw [hpieces]
    cases e with
    | some e => exact ⟨ms, some e, d1, decodePieces_error hall, hdec.stop bs⟩
    | none =>
      cases hdec with
      | @ok _ p' hfeed hlt1 hsim1 =>
        obtain ⟨ms', e, d', hrest, hdec'⟩ := ih (k := k + as.length) hsim1 hlt1
          (show k + as.length + bs.length ≤ _ by omega) (fun hp => absurd hp hnot) (fun hp => absurd hp hnot)
        exact ⟨ms ++ ms', e, d', decodePieces_ok hall hrest, hdec'.append _ hfeed⟩

theorem advance_advance (d : Decoder τ) (a b : ℕ) : (d.advance a).advance b = d.advance (a + b) := by
  simp only [advance, Ptr.add_add, Nat.sub_sub]

def InTmp (d : Decoder τ) (n : ℕ) (g : List UInt8) : Prop :=
  n ≤ d.tmpbuf.length ∧ d.readPos = .tmp g.length ∧ d.tmpbuf.take g.length = g

def InMsg (d : Decoder τ) (n : ℕ) (g : List UInt8) : Prop :=
  ∃ stored, d.body = .own n stored ∧ d.readPos = .msg g.length ∧ g.length ≤ stored.length ∧ stored.length ≤ n ∧
    stored.take g.length = g

theorem overwrite_take {t g : List UInt8} (h : t.take g.length = g) (bs : List UInt8) : ∀ k ≤ bs.length,
    (t.take g.length ++ bs ++ t.drop (g.length + bs.length)).take (g.length + k) = g ++ bs.take k := by
  intro k hk
  rw [h, append_assoc, take_length_add_append, take_append_of_le_length hk]

theorem overwrite_length {t g : List UInt8} (h : t.take g.length = g) (bs : List UInt8) :
    (t.take g.length ++ bs ++ t.drop (g.length + bs.length)).length = max t.length (g.length + bs.length) := by
  rw [h]
  simp only [length_append, length_drop]
  omega

theorem owns_rest (h : InTmp d n g ∨ InMsg d n g) {k : ℕ} (hk : g.length + k ≤ n) : d.owns d.readPos k = true := by
  rcases h with ⟨hn, hpos, -⟩ | ⟨stored, hbody, hpos, hle, -, -⟩
  · rw [hpos]
    exact decide_eq_true (Nat.le_trans hk hn)
  · rw [hpos, owns, hbody]
    simp [hle, hk]

theorem left_after (h : g.length ≤ n ∧ d.toRead = n - g.length) (hfit : g.length + bytes.length ≤ n) {k : ℕ}
    (hk : k ≤ bytes.length) : (g ++ bytes.take k).length ≤ n ∧ (d.advance k).toRead = n - (g ++ bytes.take k).length := by
  rw [length_append, length_take]
  change _ ∧ d.toRead - k = _
  omega

theorem not_buf (h : InTmp d n g ∨ InMsg d n g) (i : ℕ) : d.readPos ≠ .buf i := by
  rcases h with ⟨-, hpos, -⟩ | ⟨stored, -, hpos, -⟩ <;> rw [hpos] <;> exact Ptr.noConfusion

theorem InTmp.headD (h : InTmp d n g) (hfull : g.length = n) (hpos : 0 < n) : d.tmpbuf.headD 0 = g.headD 0 := by
  obtain ⟨-, -, htake⟩ := h
  rw [hfull] at htake
  obtain ⟨m, rfl⟩ : ∃ m, n = m + 1 := ⟨n - 1, by omega⟩
  rw [← htake]
  cases d.tmpbuf <;> rfl

theorem InTmp.store (h : InTmp d n g) (hfit : g.length + bytes.length ≤ n) :
    ∃ t, d.store bytes = .ok { d with tmpbuf := t } ∧ t.length = d.tmpbuf.length ∧
      ∀ k ≤ bytes.length, InTmp ({ d with tmpbuf := t }.advance k) n (g ++ bytes.take k) := by
  have howns := owns_rest (.inl h) hfit
  obtain ⟨hn, hpos, htake⟩ := h
  have hlen := overwrite_length htake bytes
  have hover := overwrite_take htake bytes
  have hstore : d.store bytes = .ok { d with
      tmpbuf := d.tmpbuf.take g.length ++ bytes ++ d.tmpbuf.drop (g.length + bytes.length) } := by
    rw [Decoder.store, if_pos howns, hpos]
  generalize d.tmpbuf.take g.length ++ bytes ++ d.tmpbuf.drop (g.length + bytes.length) = t at hlen hover hstore
  refine ⟨t, hstore, ?_, fun k hk => ⟨?_, ?_, ?_⟩⟩
  · omega
  · simp only [advance, hlen]
    omega
  · simp [advance, hpos, Ptr.add, hk]
  · have := hover k hk
    rwa [show g.length + k = (g ++ bytes.take k).length by simp [hk]] at this

theorem InMsg.store (h : InMsg d n g) (hfit : g.length + bytes.length ≤ n) :
    ∃ stored, d.store bytes = .ok { d with body := .own n stored } ∧
      ∀ k ≤ bytes.length, InMsg ({ d with body := .own n stored }.advance k) n (g ++ bytes.take k) := by
  have howns := owns_rest (.inr h) hfit
  obtain ⟨stored, hbody, hpos, hle, hn, htake⟩ := h
  have hlen := overwrite_length htake bytes
  have hover := overwrite_take htake bytes
  have hstore : d.store bytes = .ok { d with
      body := .own n (stored.take g.length ++ bytes ++ stored.drop (g.length + bytes.length)) } := by
    rw [Decoder.store, if_pos howns, hpos]
    simp only [hbody]
  generalize stored.take g.length ++ bytes ++ stored.drop (g.length + bytes.length) = t at hlen hover hstore
  refine ⟨t, hstore, fun k hk => ⟨t, rfl, ?_, ?_, ?_, ?_⟩⟩
  · simp [advance, hpos, Ptr.add, hk]
  · simp only [length_append, length_take]
    omega
  · omega
  · have := hover k hk
    rwa [show g.length + k = (g ++ bytes.take k).length by simp [hk]] at this

theorem InMsg.body_bytes (h : InMsg d n g) (hfull : g.length = n) : d.body.bytes = g := by
  obtain ⟨stored, hbody, -, hle, hn, htake⟩ := h
  rw [hbody, ← htake, take_of_length_le (by omega)]
  rfl

def Ahead (Sim : Allocator → Decoder τ → κ → ℕ → List UInt8 → Prop) (mem : Allocator) (d : Decoder τ) (l : κ)
    (n : ℕ) (g bytes : List UInt8) : Prop :=
  ∀ k ≤ bytes.length, Sim mem (d.advance k) l n (g ++ bytes.take k)

theorem direct_piece (h : Collects act out Sim Q placed refuses) (hmax : mem.maxSize ≤ n) {as bs : List UInt8}
    (hahead : Ahead Sim mem d l n g (as ++ bs)) (hlen : g.length + (as ++ bs).length ≤ n) (hlt : g.length < n) :
    ∃ ms e d', decodeAll act (as.length + 1) d d.readPos as = .ok (ms, e, d') ∧
      AllDecoded out Sim refuses mem ⟨l, n, g⟩ as ms e d' ∧
      (g.length + as.length < n → ms = [] ∧ e = none ∧ d'.readPos = d.readPos.add as.length ∧
        Ahead Sim mem d' l n (g ++ as) bs) := by
  rw [length_append] at hlen
  have hsim0 := hahead 0 (Nat.zero_le _)
  rw [take_zero, append_nil] at hsim0
  obtain ⟨-, htoRead⟩ := h.toRead hsim0
  have htoRead' : d.toRead = n - g.length := htoRead
  by_cases hb : as = []
  · subst hb
    refine ⟨[], none, d, by simp [decodeAll], .ok rfl hlt ?_, fun _ => ⟨rfl, rfl, by simp, ?_⟩⟩
    · simpa [advance] using hsim0
    · simpa using hahead
  have hsim1 := hahead as.length (by rw [length_append]; omega)
  rw [take_left] at hsim1
  have hdecode : ∀ rc d1, runSteps act (d.readPos.add as.length) stepFuel (d.advance as.length) = .ok (rc, d1) →
      d.decode act d.readPos as = .ok (rc, as.length, d1) := by
    intro rc d1 hrun
    rw [decode, if_pos rfl, if_neg (by omega), hrun]
    rfl
  by_cases hshort : g.length + as.length < n
  · have hdec := hdecode _ _ (runSteps_more act (d.readPos.add as.length) (d := d.advance as.length) (by
      change d.toRead - as.length ≠ 0
      omega))
    refine ⟨[], none, d.advance as.length, decodeAll_more _ hb hdec, .ok (Part.feed_short hshort) ?_ hsim1,
      fun _ => ⟨rfl, rfl, rfl, fun k hk => ?_⟩⟩
    · rw [length_append]
      exact hshort
    · have := hahead (as.length + k) (by rw [length_append]; omega)
      rwa [take_length_add_append, ← append_assoc, ← advance_advance] at this
  · have hfull : g.length + as.length = n := by omega
    obtain ⟨rc, d1, hrun, hleads⟩ := h.direct hsim1 (by rw [length_append]; exact hfull) hmax
      (d.readPos.add as.length)
    have hdec := hdecode _ _ hrun
    rcases leads_decoded hfull hb hleads with ⟨rfl, l', n', hout, hpos, hsim2⟩ | ⟨hrc, hdecoded⟩
    · have hfeed := Part.feed_full out (p := ⟨l, n, g⟩) hfull hb
      rw [hout] at hfeed
      exact ⟨[], none, d1, decodeAll_more _ hb hdec, .ok hfeed hpos hsim2, fun hx => absurd hx hshort⟩
    · have hx := hdecoded []
      rw [append_nil] at hx
      generalize hu : as.length = u at hx hdec
      cases hx with
      | more => exact absurd rfl hrc
      | error hfeed =>
        exact ⟨[], _, d1, hu ▸ decodeAll_error _ hb hdec, .error hfeed, fun hx => absurd (hu ▸ hx) hshort⟩
      | refused hmeets =>
        exact ⟨[], _, d1, hu ▸ decodeAll_error _ hb hdec, .refused hmeets nil_prefix, fun hx => absurd (hu ▸ hx) hshort⟩
      | message hused hfeed hbegin =>
        subst hu
        rw [take_length] at hfeed
        refine ⟨[d1.message.1], none, d1.message.2, decodeAll_message _ hb hdec ?_, .ok hfeed hbegin.1 hbegin.2,
          fun hx => absurd hx hshort⟩
        rw [drop_length]
        obtain ⟨f, hf⟩ : ∃ f, as.length = f + 1 := ⟨as.length - 1, by omega⟩
        rw [hf, decodeAll, if_pos rfl]

theorem direct_pieces (h : Collects act out Sim Q placed refuses) (hmax : mem.maxSize ≤ n) (cuts : List ℕ)
    (hahead : Ahead Sim mem d l n g bytes) (hlen : g.length + bytes.length ≤ n) (hlt : g.length < n) :
    ∃ ms e d', decodePieces act d d.readPos (pieces bytes cuts) = .ok (ms, e, d') ∧
      AllDecoded out Sim refuses mem ⟨l, n, g⟩ bytes ms e d' := by
  induction cuts generalizing d g bytes with
  | nil =>
    rw [← append_nil bytes] at hahead hlen
    obtain ⟨ms, e, d', hall, hdec, -⟩ := direct_piece h hmax hahead hlen hlt
    exact ⟨ms, e, d', decodePieces_last hall, hdec⟩
  | cons c cuts ih =>
    obtain ⟨as, bs, rfl, hpieces⟩ := pieces_cons bytes c cuts
    obtain ⟨ms, e, d1, hall, hdec, hnext⟩ := direct_piece h hmax hahead hlen hlt
    rw [length_append] at hlen
    rw [hpieces]
    by_cases hshort : g.length + as.length < n
    · obtain ⟨rfl, rfl, hpos, hahead1⟩ := hnext hshort
      obtain ⟨ms', e, d', hrest, hdec'⟩ := ih hahead1 (by rw [length_append]; omega)
        (by rw [length_append]; exact hshort)
      rw [hpos] at hrest
      exact ⟨ms', e, d', decodePieces_ok hall hrest, hdec'.append [] (Part.feed_short hshort)⟩
    · obtain rfl : bs = [] := length_eq_zero_iff.mp (by omega)
      rw [append_nil]
      cases e with
      | some e => exact ⟨ms, some e, d1, decodePieces_error hall, hdec⟩
      | none =>
        have := decodePieces_ok hall (decodePieces_nil act (d := d1) (d.readPos.add as.length) cuts)
        rw [append_nil] at this
        exact ⟨ms, none, d1, this, hdec⟩

structure Allocates (allocate : Allocator → UInt64 → Allocator) (resize : Allocator → ℕ → Allocator) (placed : Prop)
    (good : Allocator → Prop) : Prop where
  bufsize : ∀ {mem} addr, good mem → (allocate mem addr).bufsize = mem.maxSize
  allocSize : ∀ mem addr, (allocate mem addr).maxSize = mem.maxSize
  received : ∀ mem k, (resize mem k).received = mem.received
  resizeSize : ∀ mem k, (resize mem k).maxSize = mem.maxSize
  base : placed → ∀ mem addr k, (allocate mem addr).base = addr ∧ (resize mem k).base = mem.base
  told : placed → ∀ mem k, (resize mem k).bufsize = k
  good : ∀ {mem} addr received k, good mem → good (resize { allocate mem addr with received := received } k) ∧
    good (resize (allocate mem addr) k)

/-- How much `get_buffer` asks for. -/
def room (p : Part κ UInt8) (maxSize : ℕ) : ℕ :=
  if maxSize ≤ p.need - p.got.length then p.need - p.got.length else maxSize

variable {allocate : Allocator → UInt64 → Allocator} {resize : Allocator → ℕ → Allocator} {good : Allocator → Prop}
    {stream : List UInt8} {reads : List Read} {maxSize : ℕ}

theorem receive_eq {r : Read} {p : Ptr} {size : ℕ} {d1 d2 d' : Decoder τ} {ms : List Msg}
    {e : Option Errno} (hget : d.getBuffer allocate r.addr = .ok (p, size, d1))
    (hbytes : stream.take (min r.n size) = bytes) (hfill : d1.fill p bytes = .ok d2)
    (hdec : decodePieces act { d2 with alloc := resize d2.alloc bytes.length } p (pieces bytes r.cuts) = .ok (ms, e, d')) :
    d.receive act allocate resize r stream = .ok (ms, e, d', stream.drop (min r.n size)) := by
  subst hbytes
  rw [receive, hget]
  change ((d1.fill p (stream.take (min r.n size))) >>= _) = _
  rw [hfill]
  change (decodePieces act _ _ _ >>= _) = _
  rw [hdec]
  rfl

theorem receive_spec (h : Collects act out Sim Q placed refuses) (ha : Allocates allocate resize placed good)
    (hgood : good mem) (r : Read) (stream : List UInt8) (hsim : Sim mem d l n g) (hlt : g.length < n)
    (hcuts : placed → r.cuts = []) {bytes : List UInt8} (hbytes : stream.take (min r.n (room ⟨l, n, g⟩ mem.maxSize)) = bytes)
    (hQ : placed → Part.Along out (Q r.addr) 0 ⟨l, n, g⟩ bytes) : ∃ ms e d' mem', d.receive act allocate resize r stream =
        .ok (ms, e, d', stream.drop (min r.n (room ⟨l, n, g⟩ mem.maxSize))) ∧
      good mem' ∧ mem'.maxSize = mem.maxSize ∧ AllDecoded out Sim refuses mem' ⟨l, n, g⟩ bytes ms e d' := by
  have halloc := h.alloc hsim
  have hsim1 := h.realloc hsim (allocate mem r.addr) (ha.allocSize mem r.addr)
  obtain ⟨hgn, htoRead⟩ := h.toRead hsim
  have hsize := ha.bufsize r.addr hgood
  have hmax := ha.allocSize mem r.addr
  by_cases hdirect : mem.maxSize ≤ n - g.length
  · -- the bytes are received where they are to be stored
    have hroom : room ⟨l, n, g⟩ mem.maxSize = n - g.length := by rw [room, if_pos hdirect]
    rw [hroom] at hbytes ⊢
    have hlen : bytes.length ≤ n - g.length := by
      rw [← hbytes, length_take]
      omega
    obtain ⟨d2, hstore, hpos2, hahead⟩ := h.store hsim1 bytes (by omega)
    have halloc2 : (d2.advance 0).alloc = allocate mem r.addr := h.alloc (hahead 0 (Nat.zero_le _))
    change d2.alloc = _ at halloc2
    have hmax2 : (resize d2.alloc bytes.length).maxSize ≤ n := by
      rw [halloc2, ha.resizeSize]
      omega
    obtain ⟨ms, e, d', hpieces, hdec⟩ := direct_pieces h (d := { d2 with alloc := resize d2.alloc bytes.length })
      hmax2 r.cuts
      (fun k hk => h.realloc (hahead k hk) _ (by rw [ha.resizeSize, halloc2])) (by omega) hlt
    refine ⟨ms, e, d', _, ?_, ?_, ?_, hdec⟩
    · have hown := h.owns hsim1
      have hget : d.getBuffer allocate r.addr =
          .ok (d.readPos, n - g.length, { d with alloc := allocate mem r.addr }) := by
        unfold getBuffer
        rw [halloc]
        dsimp only
        rw [htoRead] at hown ⊢
        rw [if_pos (by omega), if_pos hown]
      have hfill : fill { d with alloc := allocate mem r.addr } d.readPos bytes = .ok d2 := by
        have hnot := h.notBuf hsim
        rw [fill]
        · exact hstore
        · exact fun i hx => hnot i hx
      refine receive_eq hget hbytes hfill ?_
      have hpos3 : d2.readPos = d.readPos := hpos2
      rwa [← hpos3]
    · rw [halloc2]
      exact (ha.good r.addr [] bytes.length hgood).2
    · rw [halloc2, ha.resizeSize, hmax]
  · have hroom : room ⟨l, n, g⟩ mem.maxSize = mem.maxSize := by rw [room, if_neg hdirect]
    rw [hroom] at hbytes ⊢
    obtain ⟨mem', hmem'⟩ : ∃ m, resize { allocate mem r.addr with received := bytes } bytes.length = m := ⟨_, rfl⟩
    have hreceived : mem'.received = bytes := by rw [← hmem', ha.received]
    have hmax' : mem'.maxSize = mem.maxSize := by rw [← hmem', ha.resizeSize, hmax]
    have hbase : placed → mem'.base = r.addr := by
      intro hp
      rw [← hmem', (ha.base hp _ r.addr _).2]
      exact (ha.base hp mem r.addr 0).1
    have hbuf : placed → mem'.Filled := by
      intro hp
      refine ⟨by rw [hreceived, ← hmem', ha.told hp], ?_⟩
      rw [hreceived, ← hbytes, length_take]
      omega
    obtain ⟨ms, e, d', hpieces, hdec⟩ := pieces_spec h hbuf r.cuts (k := 0) (h.realloc hsim mem' hmax') hlt
      (Nat.le_of_eq (by rw [hreceived, Nat.zero_add])) (fun hp => ⟨hcuts hp, by rw [hreceived, drop_zero]⟩)
      (fun hp => by rw [hbase hp]; exact hQ hp)
    refine ⟨ms, e, d', mem', ?_, ?_, hmax', hdec⟩
    · have hget : d.getBuffer allocate r.addr =
          .ok (.buf 0, mem.maxSize, { d with alloc := allocate mem r.addr }) := by
        unfold getBuffer
        rw [halloc]
        dsimp only
        rw [hsize, if_neg (by omega)]
        simp [owns, hmax]
      have hfill : fill { d with alloc := allocate mem r.addr } (.buf 0) bytes =
          .ok { d with alloc := { allocate mem r.addr with received := bytes } } := rfl
      exact receive_eq hget hbytes hfill (by rw [hmem']; exact hpieces)
    · rw [← hmem']
      exact (ha.good r.addr bytes bytes.length hgood).1

/-- The parts that begin in the receive buffer are as `Q` says, read after read. -/
def Fits (out : κ → List UInt8 → Outcome κ (UInt8 × List UInt8) Errno) (Q : UInt64 → ℕ → κ → ℕ → Prop)
    (maxSize : ℕ) : Part κ UInt8 → List Read → List UInt8 → Prop
  | _, [], _ => True
  | p, r :: reads, stream =>
    p.Along out (Q r.addr) 0 (stream.take (min r.n (room p maxSize))) ∧
      ∀ p', (p.feed out (stream.take (min r.n (room p maxSize)))).2 = .ok p' →
        Fits out Q maxSize p' reads (stream.drop (min r.n (room p maxSize)))

theorem Fits.mono {Q' : UInt64 → ℕ → κ → ℕ → Prop} {p : Part κ UInt8}
    (hQ : ∀ r ∈ reads, ∀ j l n, Q r.addr j l n → Q' r.addr j l n)
    (h : Fits out Q maxSize p reads stream) : Fits out Q' maxSize p reads stream := by
  induction reads generalizing p stream with
  | nil => trivial
  | cons r reads ih =>
    exact ⟨Part.along_mono (fun k => hQ r mem_cons_self _) h.1,
      fun p' hp' => ih (fun r' hr' => hQ r' (mem_cons_of_mem _ hr')) (h.2 p' hp')⟩

theorem fits_of_along {P : κ → ℕ → Prop} {p : Part κ UInt8} (h : p.Along out (fun _ => P) 0 stream) :
    Fits out (fun _ _ => P) maxSize p reads stream := by
  induction reads generalizing p stream with
  | nil => trivial
  | cons r reads ih =>
    rw [← take_append_drop (min r.n (room p maxSize)) stream] at h
    exact ⟨Part.along_left h, fun p' hp' =>
      ih (Part.along_mono (fun _ _ _ hk => hk) ((Part.along_append hp').mp h).2)⟩

theorem receiveAll_spec (h : Collects act out Sim Q placed refuses) (ha : Allocates allocate resize placed good)
    (hgood : good mem) (reads : List Read) (stream : List UInt8) (hsim : Sim mem d l n g) (hlt : g.length < n)
    (hcuts : placed → ∀ r ∈ reads, r.cuts = [])
    (hQ : placed → Fits out Q mem.maxSize ⟨l, n, g⟩ reads stream) :
    ∃ ms e d' mem' bytes rest, receiveAll act allocate resize d reads stream = .ok (ms, e, d', rest) ∧
      stream = bytes ++ rest ∧ AllDecoded out Sim refuses mem' ⟨l, n, g⟩ bytes ms e d' ∧
      (e = none → 0 < mem.maxSize → (∀ r ∈ reads, 0 < r.n) → rest.length ≤ stream.length - reads.length) := by
  induction reads generalizing d l n g mem stream with
  | nil =>
    exact ⟨[], none, d, mem, [], stream, rfl, rfl, .ok rfl hlt hsim, fun _ _ _ => by simp⟩
  | cons r reads ih =>
    obtain ⟨k, hk⟩ : ∃ k, min r.n (room ⟨l, n, g⟩ mem.maxSize) = k := ⟨_, rfl⟩
    obtain ⟨ms, e, d1, mem1, hrec, hgood1, hmax1, hdec⟩ := receive_spec h ha hgood r stream hsim hlt
      (fun hp => hcuts hp r mem_cons_self) rfl (fun hp => (hQ hp).1)
    rw [hk] at hrec hdec
    have hsplit := take_append_drop k stream
    cases e with
    | some e =>
      refine ⟨ms, some e, d1, mem1, stream.take k, stream.drop k, ?_, hsplit.symm, hdec, nofun⟩
      rw [receiveAll, hrec]
      rfl
    | none =>
      cases hdec with
      | @ok _ p' hfeed hlt1 hsim1 =>
        obtain ⟨ms', e, d', mem', bytes, rest, hall, hrest, hdec', hprogress⟩ := ih hgood1 (stream.drop k) hsim1 hlt1
          (fun hp r' hr' => hcuts hp r' (mem_cons_of_mem _ hr'))
          (fun hp => by
            have := (hQ hp).2 p' (by rw [hk, hfeed])
            rwa [hk, ← hmax1] at this)
        refine ⟨ms ++ ms', e, d', mem', stream.take k ++ bytes, rest, ?_, ?_, hdec'.append _ hfeed, ?_⟩
        · rw [receiveAll, hrec]
          change (receiveAll act allocate resize d1 reads (stream.drop k) >>= _) = _
          rw [hall]
          rfl
        · rw [append_assoc, ← hrest, hsplit]
        · intro he hpos hn
          have hle := hprogress he (by omega) fun r' hr' => hn r' (mem_cons_of_mem _ hr')
          have hkpos : 0 < k := by
            have := hn r mem_cons_self
            have : 0 < room ⟨l, n, g⟩ mem.maxSize := by
              unfold room
              split_ifs <;> omega
            omega
          rw [length_drop] at hle
          rw [length_cons]
          omega

end Decoder

end Zmq
