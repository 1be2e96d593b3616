import LibZmq.Zmtp.Decode

/-! `v2_decoder_t`, with its allocator `shared_message_memory_allocator`. -/

namespace Zmq

open Decoder

inductive V2Step where
  | flagsReady | oneByteSizeReady | eightByteSizeReady | messageReady

structure V2Own where
  next : V2Step
  msgFlags : UInt8

namespace V2Decoder

open Decoder (tooLarge)
open V2Encoder (moreFlag largeFlag commandFlag)

/-- The buffer is new, unless no message uses the old one any more. -/
def allocate (mem : Allocator) (addr : UInt64) : Allocator := ⟨addr, [], mem.maxSize, mem.maxSize⟩

def resize (mem : Allocator) (newSize : ℕ) : Allocator := { mem with bufsize := newSize }

def new (bufsize : ℕ) (addr : UInt64) : Decoder V2Own :=
  { own := ⟨.flagsReady, 0⟩
    readPos := .tmp 0
    toRead := 1
    tmpbuf := List.replicate 8 0
    flags := 0
    body := .own 0 []
    alloc := ⟨addr, [], bufsize, bufsize⟩ }

/-- The flags of a message, from those on the wire. -/
def messageFlags (b : UInt8) : UInt8 :=
  (if b &&& moreFlag ≠ 0 then Msg.more else 0) ||| (if b &&& commandFlag ≠ 0 then Msg.command else 0)

def flagsReady (d : Decoder V2Own) : Rc × Decoder V2Own :=
  let b := d.tmpbuf.headD 0
  let msgFlags := messageFlags b
  if b &&& largeFlag ≠ 0 then (.more, d.nextStep (.tmp 0) 8 ⟨.eightByteSizeReady, msgFlags⟩)
  else (.more, d.nextStep (.tmp 0) 1 ⟨.oneByteSizeReady, msgFlags⟩)

/-- `in_progress.init (read_pos, msg_size, ...)`: a message that uses the receive buffer,
of which it must not use what has not been received. Small messages are copied. -/
def initInPlace (d : Decoder V2Own) (off size : ℕ) : Except CodecFault (Decoder V2Own) :=
  if off + size ≤ d.alloc.received.length then
    let bytes := (d.alloc.received.drop off).take size
    .ok { d with flags := 0, body := if size < maxVsmSize then .own size bytes else .inPlace off bytes }
  else .error .outOfBounds

/-- The new message in progress, `none` if there is no memory for it. -/
def initMessage (env : DecoderEnv) (d : Decoder V2Own) (msgSize : UInt64) (off : ℕ) :
    Except CodecFault (Option (Decoder V2Own)) :=
  let readPos := d.alloc.base + UInt64.ofNat off
  -- the message can exceed the current buffer
  if readPos + msgSize > d.alloc.base + UInt64.ofNat d.alloc.bufsize then .ok (d.initSize env msgSize.toNat)
  else (initInPlace d off msgSize.toNat).map some

def sizeReady (env : DecoderEnv) (d : Decoder V2Own) (msgSize : UInt64) (readFrom : Ptr) :
    Except CodecFault (Rc × Decoder V2Own) :=
  if tooLarge env msgSize.toNat then .ok (.error .emsgsize, d)
  else match readFrom with
    | .buf off => do
      match ← initMessage env d msgSize off with
      | none => return (.error .enomem, { d with flags := 0, body := .own 0 [] })
      | some d =>
        let d := { d with flags := d.flags ||| d.own.msgFlags }
        return (.more, d.nextStep d.body.data d.body.size { d.own with next := .messageReady })
    | _ => .error .foreignPointer

def oneByteSizeReady (env : DecoderEnv) (d : Decoder V2Own) (readFrom : Ptr) :
    Except CodecFault (Rc × Decoder V2Own) :=
  sizeReady env d (d.tmpbuf.headD 0).toUInt64 readFrom

def eightByteSizeReady (env : DecoderEnv) (d : Decoder V2Own) (readFrom : Ptr) :
    Except CodecFault (Rc × Decoder V2Own) :=
  sizeReady env d (getUint64 d.tmpbuf) readFrom

def messageReady (d : Decoder V2Own) : Rc × Decoder V2Own :=
  (.message, d.nextStep (.tmp 0) 1 { d.own with next := .flagsReady })

def act (env : DecoderEnv) (d : Decoder V2Own) (readFrom : Ptr) : Except CodecFault (Rc × Decoder V2Own) :=
  match d.own.next with
  | .flagsReady => .ok (flagsReady d)
  | .oneByteSizeReady => oneByteSizeReady env d readFrom
  | .eightByteSizeReady => eightByteSizeReady env d readFrom
  | .messageReady => .ok (messageReady d)

/-- `size_` of `decode` is what was filled in, so all of it is handed over at once. -/
def whole (r : UInt64 × ℕ) : Decoder.Read := ⟨r.1, r.2, []⟩

def receiveAll (env : DecoderEnv) (d : Decoder V2Own) (reads : List (UInt64 × ℕ)) (stream : List UInt8) :
    Except CodecFault (List Msg × Option Errno × Decoder V2Own × List UInt8) :=
  Decoder.receiveAll (act env) allocate resize d (reads.map whole) stream

inductive Label where
  | flags
  | size (msgFlags : UInt8)
  | body (msgFlags : UInt8)

def wireSize (bytes : List UInt8) : UInt64 :=
  if bytes.length = 1 then (bytes.headD 0).toUInt64 else getUint64 bytes

/-- The format of the stream: what each part of a frame leads to. -/
def format (env : DecoderEnv) : Label → List UInt8 → Outcome Label (UInt8 × List UInt8) Errno
  | .flags, bytes =>
    let b := bytes.headD 0
    .go (.size (messageFlags b)) (if b &&& largeFlag ≠ 0 then 8 else 1)
  | .size msgFlags, bytes =>
    let size := (wireSize bytes).toNat
    if tooLarge env size then .fail .emsgsize
    else if size = 0 then .emit (msgFlags, []) .flags 1
    else .go (.body msgFlags) size
  | .body msgFlags, bytes => .emit (msgFlags, bytes) .flags 1

/-- A body that begins in the receive buffer is not so long that its end, if it were there
too, would be beyond the last address. -/
def Bounded (maxSize : ℕ) (addr : UInt64) (k : ℕ) : Label → ℕ → Prop
  | .body _, size => k ≤ maxSize → addr.toNat + k + size < 2 ^ 64
  | _, _ => True

def Refuses (env : DecoderEnv) : Label → ℕ → Prop
  | .body _, size => Decoder.initSizeOk env size = false
  | _, _ => False

def Reads (d : Decoder V2Own) (n : ℕ) (g : List UInt8) : Label → Prop
  | .flags => n = 1 ∧ d.own.next = .flagsReady ∧ d.InTmp n g
  | .size msgFlags =>
    (n = 1 ∧ d.own.next = .oneByteSizeReady ∨ n = 8 ∧ d.own.next = .eightByteSizeReady) ∧ d.own.msgFlags = msgFlags ∧ d.InTmp n g
  | .body msgFlags => d.own.next = .messageReady ∧ d.flags = msgFlags ∧ d.InMsg n g

structure Sim (bufsize : ℕ) (mem : Allocator) (d : Decoder V2Own) (l : Label) (n : ℕ) (g : List UInt8) : Prop where
  alloc : d.alloc = mem
  maxSize : mem.maxSize = bufsize
  toRead : g.length ≤ n ∧ d.toRead = n - g.length
  tmpbuf : d.tmpbuf.length = 8
  reads : Reads d n g l

variable {env : DecoderEnv} {bufsize : ℕ} {mem : Allocator} {d : Decoder V2Own} {l : Label} {n : ℕ} {k : ℕ} {size : UInt64}
  {g : List UInt8} {f : UInt8}

theorem inside {base size : UInt64} (hend : base.toNat + k + size.toNat < 2 ^ 64)
    (h : ¬ base + UInt64.ofNat k + size > base + UInt64.ofNat n) : k + size.toNat ≤ n := by
  rw [gt_iff_lt, UInt64.lt_iff_toNat_lt] at h
  simp only [UInt64.toNat_add, UInt64.toNat_ofNat'] at h
  omega

theorem initMessage_spec (hk : k ≤ d.alloc.received.length) (hbuf : d.alloc.Filled)
    (hbound : size.toNat ≠ 0 → Bounded d.alloc.maxSize d.alloc.base k (.body f) size.toNat) :
    (initMessage env d size k = .ok none ∧ size.toNat ≠ 0 ∧ Refuses env (.body f) size.toNat) ∨
    ∃ body, initMessage env d size k = .ok (some { d with flags := 0, body := body }) ∧
      ((∃ stored, body = .own size.toNat stored ∧ stored.length ≤ size.toNat) ∨
        (body = .inPlace k ((d.alloc.received.drop k).take size.toNat) ∧
          k + size.toNat ≤ d.alloc.received.length ∧ 0 < size.toNat)) := by
  unfold initMessage
  by_cases hout : d.alloc.base + UInt64.ofNat k + size > d.alloc.base + UInt64.ofNat d.alloc.bufsize
  · rw [if_pos hout, initSize]
    by_cases hok : initSizeOk env size.toNat = true
    · rw [if_pos hok]
      exact .inr ⟨_, rfl, .inl ⟨[], rfl, Nat.zero_le _⟩⟩
    · rw [if_neg hok]
      have hzero : size.toNat ≠ 0 := fun hx => hok (by rw [hx]; rfl)
      exact .inl ⟨rfl, hzero, eq_false_of_ne_true hok⟩
  · have hfits : k + size.toNat ≤ d.alloc.received.length := by
      by_cases hzero : size.toNat = 0
      · omega
      · rw [hbuf.told] at hout
        exact inside (hbound hzero (Nat.le_trans hk hbuf.fits)) hout
    rw [if_neg hout, initInPlace, if_pos hfits]
    refine .inr ⟨_, rfl, ?_⟩
    by_cases hsmall : size.toNat < maxVsmSize
    · rw [if_pos hsmall]
      exact .inl ⟨_, rfl, List.length_take_le _ _⟩
    · rw [if_neg hsmall]
      exact .inr ⟨rfl, hfits, by unfold maxVsmSize at hsmall; omega⟩

theorem sizeReady_spec (hk : k ≤ d.alloc.received.length) (hbuf : d.alloc.Filled) (hlarge : ¬ tooLarge env size.toNat)
    (hbound : size.toNat ≠ 0 → Bounded d.alloc.maxSize d.alloc.base k (.body f) size.toNat) :
    (∃ d', sizeReady env d size (.buf k) = .ok (.error .enomem, d') ∧ size.toNat ≠ 0 ∧ Refuses env (.body f) size.toNat) ∨
    ∃ d', sizeReady env d size (.buf k) = .ok (.more, d') ∧ d'.alloc = d.alloc ∧ d'.tmpbuf = d.tmpbuf ∧
      d'.toRead = size.toNat ∧ d'.own.next = .messageReady ∧ d'.flags = d.own.msgFlags ∧ (d'.InMsg size.toNat [] ∨
        (d'.body = .inPlace k ((d.alloc.received.drop k).take size.toNat) ∧ d'.readPos = .buf k ∧
          k + size.toNat ≤ d.alloc.received.length ∧ 0 < size.toNat)) := by
  have hsize : sizeReady env d size (.buf k) = initMessage env d size k >>= fun x => match x with
      | none => .ok (.error .enomem, { d with flags := 0, body := .own 0 [] })
      | some d =>
        let d := { d with flags := d.flags ||| d.own.msgFlags }
        .ok (.more, d.nextStep d.body.data d.body.size { d.own with next := .messageReady }) := by
    exact if_neg hlarge
  rw [hsize]
  rcases initMessage_spec hk hbuf hbound with ⟨hinit, hrefused⟩ | ⟨body, hinit, hbody⟩
  · rw [hinit]
    exact .inl ⟨_, rfl, hrefused⟩
  · rw [hinit]
    refine .inr ⟨_, rfl, rfl, rfl, ?_, rfl, UInt8.zero_or, ?_⟩
    · rcases hbody with ⟨stored, rfl, -⟩ | ⟨rfl, hfits, -⟩
      · rfl
      · change ((d.alloc.received.drop k).take size.toNat).length = _
        rw [List.length_take, List.length_drop]
        omega
    · rcases hbody with ⟨stored, rfl, hle⟩ | ⟨rfl, hfits, hpos⟩
      · exact .inl ⟨stored, rfl, rfl, Nat.zero_le _, hle, rfl⟩
      · exact .inr ⟨rfl, rfl, hfits, hpos⟩

variable (env) in
theorem act_size (h : Sim bufsize mem d (.size f) n g) (hfull : g.length = n) (readFrom : Ptr) :
    act env d readFrom = sizeReady env d (wireSize g) readFrom := by
  obtain ⟨hnext, -, htmp⟩ := h.reads
  rcases hnext with ⟨rfl, hnext⟩ | ⟨rfl, hnext⟩
  · rw [act, hnext]
    rw [oneByteSizeReady, htmp.headD hfull Nat.zero_lt_one, wireSize, if_pos hfull]
  · rw [act, hnext]
    have htake := htmp.2.2
    rw [hfull, List.take_of_length_le (Nat.le_of_eq h.tmpbuf)] at htake
    rw [eightByteSizeReady, htake, wireSize, if_neg (by omega)]

theorem message_begins (halloc : d.alloc = mem) (hmax : mem.maxSize = bufsize) (htmp : d.tmpbuf.length = 8) :
    Decoder.Begins (Sim bufsize) mem (messageReady d).2.message.2 .flags 1 :=
  ⟨Nat.zero_lt_one, halloc, hmax, ⟨Nat.zero_le _, rfl⟩, htmp, rfl, rfl, by simp [messageReady, message, nextStep, htmp], rfl, rfl⟩

theorem run_message (hnext : d.own.next = .messageReady) (hzero : d.toRead = 0) (readFrom : Ptr) (fuel : ℕ) :
    runSteps (act env) readFrom (fuel + 1) d = .ok (.message, (messageReady d).2) := by
  rw [runSteps, if_neg (not_not_intro hzero), act, hnext]
  rfl

theorem body_leads (h : Sim bufsize mem d (.body f) n g) (hfull : g.length = n) (readFrom : Ptr) :
    ∃ rc d', runSteps (act env) readFrom stepFuel d = .ok (rc, d') ∧
      Decoder.Leads (Sim bufsize) (Refuses env) mem rc d' (format env (.body f) g) := by
  obtain ⟨hnext, hflags, hmsg⟩ := h.reads
  refine ⟨_, _, run_message hnext (by rw [h.toRead.2]; omega) readFrom 2, rfl, ?_, message_begins h.alloc h.maxSize h.tmpbuf⟩
  change (d.flags, d.body.bytes) = _
  rw [hflags, hmsg.body_bytes hfull]

theorem header_leads (h : Sim bufsize mem d l n g) (hfull : g.length = n) (hk : k ≤ mem.received.length) (hbuf : mem.Filled)
    (hQ : ∀ l' n', format env l g = .go l' n' → Bounded bufsize mem.base k l' n') :
    ∃ rc d', runSteps (act env) (.buf k) stepFuel d = .ok (rc, d') ∧
      (Decoder.Leads (Sim bufsize) (Refuses env) mem rc d' (format env l g) ∨ ∃ l' n', True ∧ rc = .more ∧
        format env l g = .go l' n' ∧ Decoder.InPlace (act env) (format env) (Sim bufsize) mem k d' l' n') := by
  have hzero : d.toRead = 0 := by
    rw [h.toRead.2]
    omega
  have hrun : runSteps (act env) (.buf k) stepFuel d = act env d (.buf k) >>= fun x =>
      if x.1 ≠ .more then .ok x else runSteps (act env) (.buf k) 2 x.2 := by
    rw [stepFuel, runSteps, if_neg (not_not_intro hzero)]
    rfl
  cases l with
  | flags =>
    obtain ⟨rfl, hnext, htmp⟩ := h.reads
    have hact : act env d (.buf k) = .ok (flagsReady d) := by rw [act, hnext]
    have hb := htmp.headD hfull Nat.zero_lt_one
    have hlen := h.tmpbuf
    rw [hrun, hact, format, flagsReady, hb]
    by_cases hlarge : g.headD 0 &&& largeFlag ≠ 0
    · rw [if_pos hlarge, if_pos hlarge]
      exact ⟨_, _, rfl, .inl (.inl ⟨rfl, by decide, h.alloc, h.maxSize, ⟨by decide, rfl⟩, hlen,
        .inr ⟨rfl, rfl⟩, rfl, Nat.le_of_eq hlen.symm, rfl, rfl⟩)⟩
    · rw [if_neg hlarge, if_neg hlarge]
      exact ⟨_, _, rfl, .inl (.inl ⟨rfl, by decide, h.alloc, h.maxSize, ⟨by decide, rfl⟩, hlen,
        .inl ⟨rfl, rfl⟩, rfl, by change 1 ≤ d.tmpbuf.length; omega, rfl, rfl⟩)⟩
  | size f =>
    have hact := act_size env h hfull (.buf k)
    rw [hrun, hact]
    obtain ⟨-, hf, -⟩ := h.reads
    obtain ⟨size, hsize⟩ : ∃ size, wireSize g = size := ⟨_, rfl⟩
    simp only [format, hsize] at hQ ⊢
    by_cases hlarge : tooLarge env size.toNat
    · rw [if_pos hlarge]
      have hready : sizeReady env d size (.buf k) = .ok (.error .emsgsize, d) := if_pos hlarge
      rw [hready]
      exact ⟨_, _, rfl, .inl rfl⟩
    · rw [if_neg hlarge] at hQ ⊢
      obtain rfl := h.alloc
      have hbound : size.toNat ≠ 0 → Bounded d.alloc.maxSize d.alloc.base k (.body f) size.toNat := by
        intro hpos
        rw [h.maxSize]
        exact hQ _ _ (if_neg hpos)
      rcases sizeReady_spec hk hbuf hlarge hbound with ⟨d', hready, hrefused⟩ | ⟨d', hready, halloc, htmp, htoRead, hnext, hflags, hbody⟩
      · rw [hready, if_neg hrefused.1]
        exact ⟨_, _, rfl, .inl (.inr ⟨rfl, hrefused.2⟩)⟩
      rw [hready]
      have htmp8 : d'.tmpbuf.length = 8 := by rw [htmp, h.tmpbuf]
      by_cases hempty : size.toNat = 0
      · -- the state machine goes on at once to the end of the message
        rw [if_pos hempty]
        rw [hempty] at htoRead hbody
        rcases hbody with hmsg | ⟨-, -, -, hpos⟩
        · refine ⟨_, _, run_message hnext htoRead _ 1, .inl ⟨rfl, ?_, message_begins halloc h.maxSize htmp8⟩⟩
          change (d'.flags, d'.body.bytes) = _
          rw [hflags, hf, hmsg.body_bytes rfl]
        · exact absurd hpos (Nat.lt_irrefl 0)
      · rw [if_neg hempty]
        have hmore : runSteps (act env) (.buf k) 2 d' = .ok (.more, d') := by
          rw [runSteps, if_pos (by rwa [htoRead])]
        refine ⟨_, _, hmore, ?_⟩
        rcases hbody with hmsg | ⟨hbody, hpos, hfits, hsome⟩
        · exact .inl (.inl ⟨rfl, Nat.pos_of_ne_zero hempty, halloc, h.maxSize, ⟨Nat.zero_le _, htoRead⟩, htmp8,
            hnext, by rw [hflags, hf], hmsg⟩)
        · refine .inr ⟨_, _, trivial, rfl, rfl, hsome, hfits, htoRead, hpos, fun readFrom =>
            ⟨_, _, .flags, 1, run_message (d := d'.advance size.toNat) hnext ?_ readFrom 2, rfl, ?_,
              message_begins halloc h.maxSize htmp8⟩⟩
          · change d'.toRead - _ = 0
            rw [htoRead, Nat.sub_self]
          · change (d'.flags, d'.body.bytes) = _
            rw [hflags, hf, hbody]
            rfl
  | body f =>
    obtain ⟨rc, d', hrun', hleads⟩ := body_leads h hfull (.buf k)
    exact ⟨rc, d', hrun', .inl hleads⟩

theorem Sim.place (h : Sim bufsize mem d l n g) : d.InTmp n g ∨ d.InMsg n g := by
  cases l with
  | flags | size f => exact .inl h.reads.2.2
  | body f => exact .inr h.reads.2.2

theorem collects (hsize : 8 < bufsize) : Decoder.Collects (act env) (format env) (Sim bufsize)
    (Bounded bufsize) True (Refuses env) where
  alloc h := h.alloc
  toRead h := h.toRead
  owns h := owns_rest h.place (by rw [h.toRead.2]; exact Nat.le_of_eq (Nat.add_sub_of_le h.toRead.1))
  notBuf h := not_buf h.place
  realloc {mem d l n g} h mem' hmax := ⟨rfl, by rw [hmax, h.maxSize], h.toRead, h.tmpbuf, by
    have := h.reads
    cases l <;> exact this⟩
  store {mem d l n g} h bytes hfit := by
    cases l with
    | flags =>
      obtain ⟨hn, hnext, htmp⟩ := h.reads
      obtain ⟨t, hstore, hlen, hk⟩ := htmp.store hfit
      exact ⟨_, hstore, rfl, fun k hle =>
        ⟨h.alloc, h.maxSize, left_after h.toRead hfit hle, by rw [← h.tmpbuf, ← hlen]; rfl, hn, hnext, hk k hle⟩⟩
    | size f =>
      obtain ⟨hnext, hf, htmp⟩ := h.reads
      obtain ⟨t, hstore, hlen, hk⟩ := htmp.store hfit
      exact ⟨_, hstore, rfl, fun k hle =>
        ⟨h.alloc, h.maxSize, left_after h.toRead hfit hle, by rw [← h.tmpbuf, ← hlen]; rfl, hnext, hf, hk k hle⟩⟩
    | body f =>
      obtain ⟨hnext, hf, hmsg⟩ := h.reads
      obtain ⟨stored, hstore, hk⟩ := hmsg.store hfit
      exact ⟨_, hstore, rfl, fun k hle =>
        ⟨h.alloc, h.maxSize, left_after h.toRead hfit hle, h.tmpbuf, hnext, hf, hk k hle⟩⟩
  direct {mem d l n g} h hfull hmax readFrom := by
    have := h.maxSize
    cases l with
    | flags =>
      have := h.reads.1
      omega
    | size f =>
      rcases h.reads.1 with ⟨_, -⟩ | ⟨_, -⟩ <;> omega
    | body f => exact body_leads h hfull readFrom
  finish h hfull k hk hbuf hQ := header_leads h hfull hk (hbuf trivial) (hQ trivial)

theorem allocates : Decoder.Allocates allocate resize True fun _ => True where
  bufsize _ _ := rfl
  allocSize _ _ := rfl
  received _ _ := rfl
  resizeSize _ _ := rfl
  base _ _ _ _ := ⟨rfl, rfl⟩
  told _ _ _ := rfl
  good _ _ _ _ := ⟨trivial, trivial⟩

theorem new_sim (bufsize : ℕ) (addr : UInt64) : Sim bufsize (new bufsize addr).alloc (new bufsize addr) .flags 1 [] :=
  ⟨rfl, rfl, ⟨Nat.zero_le _, rfl⟩, rfl, rfl, rfl, Nat.le_of_ble_eq_true rfl, rfl, rfl⟩

end V2Decoder

end Zmq
