import LibZmq.Zmtp.Session
import LibZmq.Zmtp.V2Decoder

/-! The frames of `v2_encoder_t`, parsed by `v2_decoder_t`. -/

namespace Zmq

open List

namespace V2Decoder

open Decoder (tooLarge)
open V2Encoder (moreFlag largeFlag commandFlag header)

/-- What a message says to its receiver. -/
def content (m : Msg) : Bool × Bool × List UInt8 := (m.hasMore, m.flags &&& Msg.command != 0, m.data)

/-- The flags of a message that go over the wire. -/
def wireFlags (flags : UInt8) : UInt8 :=
  (if flags &&& Msg.more ≠ 0 then Msg.more else 0) ||| (if flags &&& Msg.command ≠ 0 then Msg.command else 0)

theorem wireFlags_content (m : Msg) : (wireFlags m.flags &&& Msg.more != 0) = m.hasMore ∧
      (wireFlags m.flags &&& Msg.command != 0) = (m.flags &&& Msg.command != 0) := by
  unfold wireFlags Msg.hasMore
  split_ifs with hmore hcommand hcommand
  · exact ⟨(bne_iff_ne.mpr hmore).symm, (bne_iff_ne.mpr hcommand).symm⟩
  · exact ⟨(bne_iff_ne.mpr hmore).symm, by rw [not_not.mp hcommand]; rfl⟩
  · exact ⟨by rw [not_not.mp hmore]; rfl, (bne_iff_ne.mpr hcommand).symm⟩
  · exact ⟨by rw [not_not.mp hmore]; rfl, by rw [not_not.mp hcommand]; rfl⟩

theorem header_parts (m : Msg) (hsize : m.data.length < 2 ^ 64) : ∃ b size, header m = b :: size ∧
    messageFlags b = wireFlags m.flags ∧ size.length = (if b &&& largeFlag ≠ 0 then 8 else 1) ∧
    (wireSize size).toNat = m.data.length := by
  by_cases hlarge : 255 < m.data.length
  · refine ⟨_, putUint64 (UInt64.ofNat m.data.length), if_pos hlarge, ?_, ?_, ?_⟩
    · rw [if_pos hlarge, wireFlags]
      split_ifs <;> rfl
    · rw [if_pos hlarge, if_pos (by split_ifs <;> decide)]
      rfl
    · rw [wireSize, if_neg (by simp [putUint64]), get_put_size hsize]
  · refine ⟨_, [UInt8.ofNat m.data.length], if_neg hlarge, ?_, ?_, ?_⟩
    · rw [if_neg hlarge, wireFlags]
      split_ifs <;> rfl
    · rw [if_neg hlarge, if_neg (by split_ifs <;> decide)]
      rfl
    · change (UInt8.ofNat m.data.length).toUInt64.toNat = _
      rw [UInt8.toNat_toUInt64, UInt8.toNat_ofNat']
      omega

variable {env : DecoderEnv} {m : Msg}

theorem feed_header (hsize : m.data.length < 2 ^ 64) (hlarge : ¬ tooLarge env m.data.length) :
    ∃ b size, header m = [b] ++ size ∧ size ≠ [] ∧ format env .flags [b] = .go (.size (wireFlags m.flags)) size.length ∧
      format env (.size (wireFlags m.flags)) size = if m.data.length = 0 then .emit (wireFlags m.flags, []) .flags 1
        else .go (.body (wireFlags m.flags)) m.data.length := by
  obtain ⟨b, size, hheader, hflags, hlen, hvalue⟩ := header_parts m hsize
  refine ⟨b, size, hheader, ?_, ?_, ?_⟩
  · rintro rfl
    split_ifs at hlen
  · rw [← hflags, hlen]
    rfl
  · simp only [format, hvalue, if_neg hlarge]

theorem feed_frame (hsize : m.data.length < 2 ^ 64) (hlarge : ¬ tooLarge env m.data.length) :
    (Part.start .flags 1).feed (format env) (header m ++ m.data) = ([(wireFlags m.flags, m.data)], .ok (.start .flags 1)) := by
  obtain ⟨b, size, hheader, hne, hflags, hbody⟩ := feed_header hsize hlarge
  have h1 := Part.feed_full (format env) (p := .start .flags 1) rfl (cons_ne_nil b [])
  have h2 := Part.feed_full (format env) (p := .start (.size (wireFlags m.flags)) size.length)
    (Nat.zero_add _) hne
  simp only [Part.start, nil_append, hflags, hbody] at h1 h2 ⊢
  rw [hheader, append_assoc, Part.feed_append_ok (by rw [h1]), h1]
  by_cases hempty : m.data = []
  · rw [hempty, length_nil, if_pos rfl] at h2
    rw [hempty, append_nil, h2]
    rfl
  · rw [if_neg fun hx => hempty (length_eq_zero_iff.mp hx)] at h2
    rw [Part.feed_append_ok (by rw [h2]), h2, Part.feed_full _ (Nat.zero_add _) hempty]
    rfl

theorem along_frame (hsize : m.data.length < 2 ^ 64) (hlarge : ¬ tooLarge env m.data.length) {P : Label → ℕ → Prop}
    (hflags : ∀ n, P .flags n) (hsizes : ∀ f n, P (.size f) n) (hbody : ∀ f, P (.body f) m.data.length) (j : ℕ) :
    (Part.start .flags 1).Along (format env) (fun _ => P) j (header m ++ m.data) := by
  obtain ⟨b, size, hheader, hne, hgo, hend⟩ := feed_header hsize hlarge
  have h1 := Part.feed_full (format env) (p := .start .flags 1) rfl (cons_ne_nil b [])
  have h2 := Part.feed_full (format env) (p := .start (.size (wireFlags m.flags)) size.length)
    (Nat.zero_add _) hne
  simp only [Part.start, nil_append, hgo, hend] at h1 h2 ⊢
  rw [hheader, append_assoc, Part.along_append (by rw [h1])]
  refine ⟨Part.along_full rfl fun l n hx => ?_, ?_⟩
  · simp only [nil_append, hgo] at hx
    rcases hx with hx | ⟨o, hx⟩
    · cases hx
      exact hsizes _ _
    · cases hx
  · have hmid : Part.Along (format env) (fun _ => P) (j + 1)
        (Part.start (.size (wireFlags m.flags)) size.length) size := by
      refine Part.along_full (Nat.zero_add _) fun l n hx => ?_
      simp only [Part.start, nil_append, hend] at hx
      split_ifs at hx
      · rcases hx with hx | ⟨o, hx⟩
        · cases hx
        · cases hx
          exact hflags 1
      · rcases hx with hx | ⟨o, hx⟩
        · cases hx
          exact hbody _
        · cases hx
    by_cases hempty : m.data = []
    · rwa [hempty, append_nil]
    · rw [if_neg fun hx => hempty (length_eq_zero_iff.mp hx)] at h2
      refine (Part.along_append (by rw [h2])).mpr ⟨hmid, Part.along_full (Nat.zero_add _) fun l n hx => ?_⟩
      rcases hx with hx | ⟨o, hx⟩
      · cases hx
      · cases hx
        exact hflags 1

/-- What the decoder relies on: objects, and the addresses where receive buffers end, are
within the range of `ptrdiff_t`, and there is memory for the messages. -/
structure Memory (env : DecoderEnv) (bufsize : ℕ) (reads : List (UInt64 × ℕ)) (ms : List Msg) : Prop where
  object : ∀ n, env.malloc n = true → n < 2 ^ 63
  buffer : ∀ r ∈ reads, r.1.toNat + bufsize ≤ 2 ^ 63
  enough : ∀ m ∈ ms, Decoder.initSizeOk env m.data.length = true

variable {bufsize : ℕ} {reads : List (UInt64 × ℕ)} {ms : List Msg}

theorem Memory.size_lt (h : Memory env bufsize reads ms) (hm : m ∈ ms) : m.data.length < 2 ^ 63 := by
  rcases Decoder.initSizeOk_cases (h.enough m hm) with hsmall | ⟨-, hmalloc⟩
  · omega
  · have := h.object _ hmalloc
    omega

theorem Memory.bounded (h : Memory env bufsize reads ms) {r : UInt64 × ℕ} (hr : r ∈ reads) (j : ℕ) (l : Label)
    (n : ℕ) (hl : ∀ f, l = .body f → ∃ m ∈ ms, n = m.data.length) : Bounded bufsize r.1 j l n := by
  cases l with
  | flags => trivial
  | size f => trivial
  | body f =>
    obtain ⟨m, hm, rfl⟩ := hl f rfl
    have := h.buffer r hr
    have := h.size_lt hm
    exact fun hj => by omega

theorem Memory.not_refuses (h : Memory env bufsize reads ms) (l : Label) (n : ℕ)
    (hl : ∀ f, l = .body f → ∃ m ∈ ms, n = m.data.length) : ¬ Refuses env l n := by
  cases l with
  | flags => exact id
  | size f => exact id
  | body f =>
    obtain ⟨m, hm, rfl⟩ := hl f rfl
    exact fun hx => Bool.false_ne_true (hx.symm.trans (h.enough m hm))

def read (x : UInt8 × List UInt8) : Bool × Bool × List UInt8 :=
  (x.1 &&& Msg.more != 0, x.1 &&& Msg.command != 0, x.2)

theorem read_wire (ms : List Msg) : (ms.map Decoder.wire).map read = ms.map content := map_map

theorem read_wireFlags (ms : List Msg) : (ms.map fun m => (wireFlags m.flags, m.data)).map read = ms.map content := by
  rw [map_map]
  refine map_congr_left fun m _ => ?_
  obtain ⟨hmore, hcommand⟩ := wireFlags_content m
  simp only [Function.comp, content, read, hmore, hcommand]

/-- Whatever the calls of the encoder and the reads of the decoder are, the messages come
out as they were loaded, and all of them do once the encoder is idle and all is read. By the contract
of `decoder.hpp` a read is handed to `decode` whole: one that is split fails an assertion. -/
theorem v2_round_trip {wbuf : ℕ} (hbuf : 8 < bufsize) {ops : List Encoder.Op} {outs : List (List UInt8)} {e : Encoder}
    (hrun : exec (Encoder.call V2Encoder.act) (Encoder.new wbuf) ops = .ok (outs, e))
    (hmax : ∀ m ∈ Encoder.loaded ops, ¬ tooLarge env m.data.length) (addr : UInt64) (reads : List (UInt64 × ℕ))
    (hmem : Memory env bufsize reads (Encoder.loaded ops)) :
    ∃ ms d rest, receiveAll env (new bufsize addr) reads outs.flatten = .ok (ms, none, d, rest) ∧
      ms.map content <+: (Encoder.loaded ops).map content ∧
      (e.inProgress = none → rest = [] → ms.map content = (Encoder.loaded ops).map content) ∧
      ((∀ r ∈ reads, 0 < r.2) → outs.flatten.length ≤ reads.length → rest = []) := by
  obtain ⟨owed, howes, hframes⟩ := Encoder.exec_frames Encoder.v2_writes .idle hrun
  rw [nil_append] at hframes
  have hframe : ∀ m ∈ Encoder.loaded ops, (Part.start .flags 1).feed (format env) (header m ++ m.data) =
      ([(wireFlags m.flags, m.data)], .ok (.start .flags 1)) :=
    fun m hm => feed_frame (Nat.lt_of_lt_of_le (hmem.size_lt hm) (by decide)) (hmax m hm)
  have halong : (Part.start .flags 1).Along (format env)
      (fun _ l n => ∀ f, l = .body f → ∃ m ∈ Encoder.loaded ops, n = m.data.length) 0 (outs.flatten ++ owed) := by
    rw [hframes]
    refine Part.along_frames hframe (fun m hm j => ?_) 0
    exact along_frame (Nat.lt_of_lt_of_le (hmem.size_lt hm) (by decide)) (hmax m hm) (fun _ _ hx => by cases hx)
      (fun _ _ _ hx => by cases hx) (fun f _ _ => ⟨m, hm, rfl⟩) j
  have hfits : Decoder.Fits (format env) (Bounded bufsize) bufsize (.start .flags 1)
      (reads.map whole) outs.flatten := by
    refine (Decoder.fits_of_along (Part.along_left halong)).mono fun r hr j l n hl => ?_
    obtain ⟨r', hr', rfl⟩ := mem_map.mp hr
    exact hmem.bounded hr' j l n hl
  have hmeets : ¬ (Part.start .flags 1).Meets (format env) (Refuses env) outs.flatten :=
    Part.not_meets (Part.along_mono (fun _ l n hl => hmem.not_refuses l n hl) (Part.along_left halong))
  obtain ⟨ms, d, rest, hall, hprefix, hdone, hprogress⟩ := Decoder.receiveAll_frames (collects hbuf) allocates
    trivial (new_sim bufsize addr) Nat.zero_lt_one (Part.feed_frames hframe) hframes (reads.map whole) hmeets
    (fun _ r hr => by obtain ⟨r', -, rfl⟩ := mem_map.mp hr; rfl) (fun _ => hfits)
  refine ⟨ms, d, rest, hall, ?_, fun hidle hrest => ?_, fun hn hlen => ?_⟩
  · rw [← read_wire, ← read_wireFlags]
    exact hprefix.map _
  · rw [← read_wire, ← read_wireFlags, hdone (howes.idle_nil hidle) hrest]
  · refine hprogress (Nat.lt_trans (by decide) hbuf) (fun r hr => ?_) (by rwa [length_map])
    obtain ⟨r', hr', rfl⟩ := mem_map.mp hr
    exact hn r' hr'

/-- A message of two parts, of which the first is written in two pieces and the second is
empty. -/
theorem v2_round_trip_two : ∃ ms d rest,
    receiveAll ⟨-1, fun n => n < 1000⟩ (new 16 0x1000) [(0x1000, 3), (0x2000, 16)] [1, 2, 7, 8, 0, 0] = .ok (ms, none, d, rest) ∧
    ms.map content <+: [(true, false, [7, 8]), (false, false, [])] := by
  have hrun : exec (Encoder.call V2Encoder.act) (Encoder.new 4)
      [.load ⟨.vsm, 1, [7, 8]⟩, .encode (some 1), .encode (some 8), .load ⟨.vsm, 0, []⟩, .encode none] =
        .ok ([[], [1], [2, 7, 8], [], [0, 0]], Encoder.new 4) := rfl
  have hmem : Memory ⟨-1, fun n => n < 1000⟩ 16 [(0x1000, 3), (0x2000, 16)] [⟨.vsm, 1, [7, 8]⟩, ⟨.vsm, 0, []⟩] :=
    ⟨fun n hn => Nat.lt_trans (of_decide_eq_true hn) (by decide), by decide, by decide⟩
  obtain ⟨ms, d, rest, hall, hprefix, -⟩ := v2_round_trip (by decide) hrun (by decide) 0x1000 _ hmem
  exact ⟨ms, d, rest, hall, hprefix⟩

end V2Decoder

end Zmq
