import LibZmq.Zmtp.V1Decoder

/-! The frames of `v1_encoder_t`, parsed by `v1_decoder_t`. -/

namespace Zmq

open List Zmq.Part

namespace V1Decoder

open Decoder (tooLarge)
open V1Encoder (header)

/-- What a message says to its receiver. -/
def content (m : Msg) : Bool × List UInt8 := (m.hasMore, m.data)

/-- The two forms of a length on the wire. -/
inductive Length : List UInt8 → ℕ → Prop
  | short {b} (h : b ≠ 0xff) : Length [b] b.toNat
  | long {bytes} (h : bytes.length = 8) : Length (0xff :: bytes) (getUint64 bytes).toNat

variable {env : DecoderEnv} {m : Msg} {bytes : List UInt8} {length : ℕ}

theorem header_parts (m : Msg) (hsize : m.data.length + 1 < 2 ^ 64) :
    ∃ bytes, header m = bytes ++ [m.flags &&& Msg.more] ∧ Length bytes (m.data.length + 1) := by
  by_cases hshort : m.data.length + 1 < 255
  · refine ⟨[UInt8.ofNat (m.data.length + 1)], if_pos hshort, ?_⟩
    have hvalue : (UInt8.ofNat (m.data.length + 1)).toNat = m.data.length + 1 := by
      rw [UInt8.toNat_ofNat']
      omega
    have := Length.short (b := UInt8.ofNat (m.data.length + 1)) fun hx => by
      rw [hx] at hvalue
      change 255 = _ at hvalue
      omega
    rwa [hvalue] at this
  · refine ⟨0xff :: putUint64 (UInt64.ofNat (m.data.length + 1)), if_neg hshort, ?_⟩
    have hlen : (putUint64 (UInt64.ofNat (m.data.length + 1))).length = 8 := rfl
    have := Length.long hlen
    rwa [get_put_size hsize] at this

theorem format_short {b : UInt8} (h : b ≠ 0xff) : format env .size [b] = lengthRead env b.toNat := by
  exact if_neg h

theorem format_long (h : bytes.length = 8) : format env .size bytes = lengthRead env (getUint64 bytes).toNat := by
  rw [format, if_neg (by omega)]

theorem feed_ff : (start .size 1).feed (format env) [0xff] = ([], .ok (.start .size 8)) := rfl

variable (env) in
theorem Length.feed (h : Length bytes length) : (start .size 1).feed (format env) bytes =
    match lengthRead env length with
    | .fail e => ([], .error e)
    | .emit o label need => ([o], .ok (.start label need))
    | .go label need => ([], .ok (.start label need)) := by
  cases h with
  | @short b h =>
    rw [feed_full _ rfl (cons_ne_nil b [])]
    simp only [start, nil_append, format_short h]
    cases lengthRead env b.toNat <;> rfl
  | @long bytes h =>
    have hlast := feed_full (format env) (p := .start .size 8) ((Nat.zero_add _).trans h)
      (ne_nil_of_length_eq_add_one h)
    rw [← singleton_append, feed_append_ok (by rw [feed_ff]), hlast]
    simp only [start, nil_append, format_long h]
    cases lengthRead env (getUint64 bytes).toNat <;> rfl

theorem Length.along (h : Length bytes length) {P : Label → ℕ → Prop} (hsize : P .size 8)
    (hgo : ∀ l n, lengthRead env length = .go l n → P l n) (j : ℕ) : (start .size 1).Along (format env) (fun _ => P) j bytes := by
  have hread : ∀ l n, (lengthRead env length = .go l n ∨ ∃ o, lengthRead env length = .emit o l n) → P l n := by
    rintro l n (hx | ⟨o, hx⟩)
    · exact hgo l n hx
    · unfold lengthRead at hx
      split_ifs at hx
  cases h with
  | @short b h =>
    refine along_full rfl fun l n hx => hread l n ?_
    simpa only [start, nil_append, format_short h] using hx
  | @long bytes h =>
    rw [← singleton_append, along_append (by rw [feed_ff])]
    refine ⟨⟨fun _ => hsize, trivial⟩, along_full (by simpa [start] using h) fun l n hx => hread l n ?_⟩
    simpa only [start, nil_append, format_long h] using hx

theorem lengthRead_size (hlarge : ¬ tooLarge env m.data.length) :
    lengthRead env (m.data.length + 1) = .go (.flags m.data.length) 1 := by
  rw [lengthRead, if_neg (Nat.succ_ne_zero _), Nat.add_sub_cancel, if_neg hlarge]

theorem and_more_and_more (b : UInt8) : b &&& Msg.more &&& Msg.more = b &&& Msg.more := by
  rw [UInt8.and_assoc]
  rfl

theorem feed_frame (hsize : m.data.length + 1 < 2 ^ 64) (hlarge : ¬ tooLarge env m.data.length) :
    (start .size 1).feed (format env) (header m ++ m.data) = ([(m.flags &&& Msg.more, m.data)], .ok (.start .size 1)) := by
  obtain ⟨bytes, hheader, hlength⟩ := header_parts m hsize
  have h1 := hlength.feed env
  rw [lengthRead_size hlarge] at h1
  have h2 := feed_full (format env) (p := .start (.flags m.data.length) 1) rfl
    (cons_ne_nil (m.flags &&& Msg.more) [])
  rw [hheader, append_assoc, feed_append_ok (by rw [h1]), h1]
  simp only [start, nil_append, format, headD_cons, and_more_and_more] at h2 ⊢
  by_cases hempty : m.data = []
  · rw [hempty, length_nil] at h2
    rw [hempty]
    exact h2
  · rw [if_neg fun hx => hempty (length_eq_zero_iff.mp hx)] at h2
    rw [feed_append_ok (by rw [h2]), h2, feed_full _ (Nat.zero_add _) hempty]
    rfl

theorem along_frame (hsize : m.data.length + 1 < 2 ^ 64) (hlarge : ¬ tooLarge env m.data.length)
    (henough : Decoder.initSizeOk env m.data.length = true) (j : ℕ) :
    (start .size 1).Along (format env) (fun _ l n => ¬ Refuses env l n) j (header m ++ m.data) := by
  obtain ⟨bytes, hheader, hlength⟩ := header_parts m hsize
  have h1 := hlength.feed env
  rw [lengthRead_size hlarge] at h1
  have h2 := feed_full (format env) (p := .start (.flags m.data.length) 1) rfl
    (cons_ne_nil (m.flags &&& Msg.more) [])
  rw [hheader, append_assoc, along_append (by rw [h1])]
  refine ⟨hlength.along id (fun l n hgo => ?_) j, ?_⟩
  · rw [lengthRead_size hlarge] at hgo
    cases hgo
    exact fun hx => Bool.false_ne_true (hx.symm.trans henough)
  · have hflags : ∀ j, Part.Along (format env) (fun _ l n => ¬ Refuses env l n) j
        (start (.flags m.data.length) 1) [m.flags &&& Msg.more] := by
      refine fun j => along_full rfl fun l n hx => ?_
      simp only [start, format] at hx
      split_ifs at hx
      · rcases hx with hx | ⟨o, hx⟩ <;> cases hx
        exact id
      · rcases hx with hx | ⟨o, hx⟩ <;> cases hx
        exact id
    by_cases hempty : m.data = []
    · have hone : [m.flags &&& Msg.more] ++ m.data = [m.flags &&& Msg.more] := by rw [hempty, append_nil]
      rw [hone]
      exact hflags _
    · simp only [start, nil_append, format] at h2
      rw [if_neg fun hx => hempty (length_eq_zero_iff.mp hx)] at h2
      refine (along_append (by rw [start, h2])).mpr
        ⟨hflags _, along_full (Nat.zero_add _) fun l n hx => ?_⟩
      rcases hx with hx | ⟨o, hx⟩ <;> cases hx
      exact id

/-- What a length is refused for. -/
def lengthError (env : DecoderEnv) (length : ℕ) : Option Errno :=
  if length = 0 then some .eproto else if tooLarge env (length - 1) then some .emsgsize else none

theorem lengthRead_error {e : Errno} (h : lengthError env length = some e) : lengthRead env length = .fail e := by
  unfold lengthError at h
  unfold lengthRead
  split_ifs at h ⊢ <;> cases h <;> rfl

def read (x : UInt8 × List UInt8) : Bool × List UInt8 := (x.1 &&& Msg.more != 0, x.2)

theorem read_wire (ms : List Msg) : (ms.map Decoder.wire).map read = ms.map content := map_map

theorem read_more (ms : List Msg) : (ms.map fun m => (m.flags &&& Msg.more, m.data)).map read = ms.map content := by
  rw [map_map]
  refine map_congr_left fun m _ => ?_
  simp only [Function.comp, read, content, and_more_and_more]
  rfl

/-- Messages that go through: within `maxmsgsize`, and there is memory for them. -/
def Accepts (env : DecoderEnv) (ms : List Msg) : Prop :=
  ∀ m ∈ ms, ¬ tooLarge env m.data.length ∧ Decoder.initSizeOk env m.data.length = true

theorem Accepts.frame {ms : List Msg} (h : Accepts env ms) : (∀ m ∈ ms,
      (start .size 1).feed (format env) (header m ++ m.data) =
        ([(m.flags &&& Msg.more, m.data)], .ok (.start .size 1))) ∧
    ∀ m ∈ ms, ∀ j, (start .size 1).Along (format env) (fun _ l n => ¬ Refuses env l n) j (header m ++ m.data) := by
  have hsize : ∀ m ∈ ms, m.data.length + 1 < 2 ^ 64 := by
    intro m hm
    have := Decoder.initSizeOk_cases (h m hm).2
    omega
  exact ⟨fun m hm => feed_frame (hsize m hm) (h m hm).1,
    fun m hm j => along_frame (hsize m hm) (h m hm).1 (h m hm).2 j⟩

/-- Whatever the calls of the encoder, the reads and the pieces that `decode` is given are,
the messages come out as they were loaded, and all of them do once the encoder is idle and
all is read. What has a length of 0, or one for a body above `maxmsgsize`, after them is an
error and no message, as soon as it is read. -/
theorem v1_round_trip (env : DecoderEnv) (bufsize : ℕ) (addr : UInt64) (reads : List Decoder.Read) :
    (∀ wbuf ops outs e, exec (Encoder.call V1Encoder.act) (Encoder.new wbuf) ops = .ok (outs, e) →
      Accepts env (Encoder.loaded ops) →
      ∃ ms d rest, receiveAll env (new bufsize addr) reads outs.flatten = .ok (ms, none, d, rest) ∧
        ms.map content <+: (Encoder.loaded ops).map content ∧
        (e.inProgress = none → rest = [] → ms.map content = (Encoder.loaded ops).map content) ∧
        (0 < bufsize → (∀ r ∈ reads, 0 < r.n) → outs.flatten.length ≤ reads.length → rest = [])) ∧
    (∀ sent bytes length err junk, Accepts env sent → Length bytes length → lengthError env length = some err →
      ∃ ms e d rest, receiveAll env (new bufsize addr) reads
          ((sent.flatMap fun m => header m ++ m.data) ++ bytes ++ junk) = .ok (ms, e, d, rest) ∧
        ms.map content <+: sent.map content ∧ (e = none ∨ e = some err ∧ ms.map content = sent.map content) ∧
        (0 < bufsize → (∀ r ∈ reads, 0 < r.n) →
          ((sent.flatMap fun m => header m ++ m.data) ++ bytes).length ≤ reads.length → e = some err)) := by
  constructor
  · intro wbuf ops outs e hrun haccepts
    obtain ⟨owed, howes, hframes⟩ := Encoder.exec_frames Encoder.v1_writes .idle hrun
    rw [nil_append] at hframes
    obtain ⟨hfeed, halong⟩ := haccepts.frame
    have hmeets : ¬ (Part.start .size 1).Meets (format env) (Refuses env) outs.flatten := by
      have := Part.along_frames hfeed halong 0
      rw [← hframes] at this
      exact Part.not_meets (Part.along_left this)
    obtain ⟨ms, d, rest, hall, hprefix, hdone, hprogress⟩ := Decoder.receiveAll_frames collects allocates rfl
      (new_sim bufsize addr) Nat.zero_lt_one (Part.feed_frames hfeed) hframes reads hmeets False.elim False.elim
    refine ⟨ms, d, rest, hall, ?_, fun hidle hrest => ?_, hprogress⟩
    · rw [← read_wire, ← read_more]
      exact hprefix.map _
    · rw [← read_wire, ← read_more, hdone (howes.idle_nil hidle) hrest]
  · intro sent bytes length err junk haccepts hlength herr
    obtain ⟨hfeed, halong⟩ := haccepts.frame
    have hfail := lengthRead_error herr
    have hbad := hlength.feed env
    rw [hfail] at hbad
    have hmeets : ¬ (Part.start .size 1).Meets (format env) (Refuses env)
        ((sent.flatMap fun m => header m ++ m.data) ++ bytes ++ junk) := by
      have hframes := Part.feed_frames hfeed
      refine Part.not_meets (Part.along_error (e := err) ?_ ?_)
      · rw [Part.feed_append_ok (by rw [hframes]), hbad]
      · rw [Part.along_append (by rw [hframes])]
        refine ⟨Part.along_frames hfeed halong 0, hlength.along id (fun l n hgo => ?_) _⟩
        rw [hfail] at hgo
        cases hgo
    obtain ⟨ms, e, d, rest, hall, hprefix, hstop, hprogress⟩ := Decoder.receiveAll_rejects collects allocates rfl
      (new_sim bufsize addr) Nat.zero_lt_one (Part.feed_frames hfeed) hbad junk reads hmeets False.elim False.elim
    refine ⟨ms, e, d, rest, hall, ?_, ?_, hprogress⟩
    · rw [← read_wire, ← read_more]
      exact hprefix.map _
    · rw [← read_wire, ← read_more]
      exact hstop.imp id fun hx => ⟨hx.1, by rw [hx.2]⟩

/-- A message of two parts, of which the second is empty, and then a length of 0. -/
theorem v1_round_trip_two : ∃ ms e d rest,
    receiveAll ⟨-1, fun _ => true⟩ (new 8192 0x10000) [⟨0, 3, [2]⟩, ⟨0, 8192, []⟩] [3, 1, 7, 8, 1, 0, 0] = .ok (ms, e, d, rest) ∧
    ms.map content <+: [(true, [7, 8]), (false, [])] := by
  obtain ⟨ms, e, d, rest, hall, hprefix, -⟩ := (v1_round_trip ⟨-1, fun _ => true⟩ 8192 0x10000
    [⟨0, 3, [2]⟩, ⟨0, 8192, []⟩]).2 [⟨.vsm, 1, [7, 8]⟩, ⟨.vsm, 0, []⟩] [0] 0 .eproto []
      (by simp [Accepts, tooLarge, Decoder.initSizeOk, maxVsmSize]) (.short (by decide)) rfl
  exact ⟨ms, e, d, rest, hall, hprefix⟩

end V1Decoder

end Zmq
