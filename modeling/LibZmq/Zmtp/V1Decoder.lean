import LibZmq.Zmtp.Session

/-! `v1_decoder_t`, whose receive buffer is that of `c_single_allocator`. -/

namespace Zmq

open Decoder

inductive V1Step where
  | oneByteSizeReady | eightByteSizeReady | flagsReady | messageReady

namespace V1Decoder

open Decoder (tooLarge)
open V1Encoder (header)

def allocate (mem : Allocator) (_ : UInt64) : Allocator := mem

def new (bufsize : ℕ) (addr : UInt64) : Decoder V1Step :=
  { own := .oneByteSizeReady
    readPos := .tmp 0
    toRead := 1
    tmpbuf := List.replicate 8 0
    flags := 0
    body := .own 0 []
    alloc := ⟨addr, [], bufsize, bufsize⟩ }

/-- What both actions do with a size that is not too large. -/
def initBody (env : DecoderEnv) (d : Decoder V1Step) (msgSize : ℕ) : Rc × Decoder V1Step :=
  match d.initSize env msgSize with
  | none => (.error .enomem, { d with flags := 0, body := .own 0 [] })
  | some d => (.more, d.nextStep (.tmp 0) 1 .flagsReady)

def oneByteSizeReady (env : DecoderEnv) (d : Decoder V1Step) : Rc × Decoder V1Step :=
  let b := d.tmpbuf.headD 0
  if b = 0xff then (.more, d.nextStep (.tmp 0) 8 .eightByteSizeReady)
  -- there has to be at least one byte, the flags
  else if b = 0 then (.error .eproto, d)
  else if tooLarge env (b.toNat - 1) then (.error .emsgsize, d)
  else initBody env d (b.toNat - 1)

def eightByteSizeReady (env : DecoderEnv) (d : Decoder V1Step) : Rc × Decoder V1Step :=
  let payloadLength := getUint64 d.tmpbuf
  if payloadLength = 0 then (.error .eproto, d)
  else if tooLarge env (payloadLength - 1).toNat then (.error .emsgsize, d)
  else initBody env d (payloadLength - 1).toNat

def flagsReady (d : Decoder V1Step) : Rc × Decoder V1Step :=
  let d := { d with flags := d.flags ||| (d.tmpbuf.headD 0 &&& Msg.more) }
  (.more, d.nextStep d.body.data d.body.size .messageReady)

def messageReady (d : Decoder V1Step) : Rc × Decoder V1Step :=
  (.message, d.nextStep (.tmp 0) 1 .oneByteSizeReady)

def act (env : DecoderEnv) (d : Decoder V1Step) (_ : Ptr) : Except CodecFault (Rc × Decoder V1Step) :=
  match d.own with
  | .oneByteSizeReady => .ok (oneByteSizeReady env d)
  | .eightByteSizeReady => .ok (eightByteSizeReady env d)
  | .flagsReady => .ok (flagsReady d)
  | .messageReady => .ok (messageReady d)

/-- The size of the buffer stays as it is between the reads. -/
def receiveAll (env : DecoderEnv) (d : Decoder V1Step) (reads : List Decoder.Read) (stream : List UInt8) :
    Except CodecFault (List Msg × Option Errno × Decoder V1Step × List UInt8) :=
  Decoder.receiveAll (act env) allocate (fun mem _ => mem) d reads stream

inductive Label where
  | size
  | flags (msgSize : ℕ)
  | body (msgFlags : UInt8)

def lengthRead (env : DecoderEnv) (length : ℕ) : Outcome Label (UInt8 × List UInt8) Errno :=
  if length = 0 then .fail .eproto
  else if tooLarge env (length - 1) then .fail .emsgsize
  else .go (.flags (length - 1)) 1

def format (env : DecoderEnv) : Label → List UInt8 → Outcome Label (UInt8 × List UInt8) Errno
  | .size, bytes =>
    if bytes.length = 1 then
      if bytes.headD 0 = 0xff then .go .size 8 else lengthRead env (bytes.headD 0).toNat
    else lengthRead env (getUint64 bytes).toNat
  | .flags msgSize, bytes =>
    let msgFlags := bytes.headD 0 &&& Msg.more
    if msgSize = 0 then .emit (msgFlags, []) .size 1 else .go (.body msgFlags) msgSize
  | .body msgFlags, bytes => .emit (msgFlags, bytes) .size 1

def Refuses (env : DecoderEnv) : Label → ℕ → Prop
  | .flags msgSize, _ => Decoder.initSizeOk env msgSize = false
  | _, _ => False

def Reads (d : Decoder V1Step) (n : ℕ) (g : List UInt8) : Label → Prop
  | .size => (n = 1 ∧ d.own = .oneByteSizeReady ∨ n = 8 ∧ d.own = .eightByteSizeReady) ∧ d.InTmp n g
  | .flags msgSize => n = 1 ∧ d.own = .flagsReady ∧ d.flags = 0 ∧ d.body = .own msgSize [] ∧ d.InTmp n g
  | .body msgFlags => d.own = .messageReady ∧ d.flags = msgFlags ∧ d.InMsg n g

structure Sim (mem : Allocator) (d : Decoder V1Step) (l : Label) (n : ℕ) (g : List UInt8) : Prop where
  alloc : d.alloc = mem
  toRead : g.length ≤ n ∧ d.toRead = n - g.length
  tmpbuf : d.tmpbuf.length = 8
  reads : Reads d n g l

variable {env : DecoderEnv} {mem : Allocator} {d : Decoder V1Step} {l : Label} {n : ℕ} {g : List UInt8}

theorem initBody_leads (halloc : d.alloc = mem) (htmp : d.tmpbuf.length = 8) (msgSize : ℕ) :
    ∃ rc d', initBody env d msgSize = (rc, d') ∧ (rc ≠ .more ∨ d'.toRead ≠ 0) ∧
      Decoder.Leads Sim (Refuses env) mem rc d' (.go (.flags msgSize) 1) := by
  unfold initBody initSize
  by_cases hok : initSizeOk env msgSize = true
  · rw [if_pos hok]
    exact ⟨_, _, rfl, .inr Nat.one_ne_zero, .inl ⟨rfl, Nat.zero_lt_one, halloc, ⟨Nat.zero_le _, rfl⟩, htmp, rfl,
      rfl, rfl, rfl, by change 1 ≤ d.tmpbuf.length; omega, rfl, rfl⟩⟩
  · rw [if_neg hok]
    exact ⟨_, _, rfl, .inl Rc.noConfusion, .inr ⟨rfl, eq_false_of_ne_true hok⟩⟩

def checkLength (env : DecoderEnv) (d : Decoder V1Step) (length : ℕ) : Rc × Decoder V1Step :=
  if length = 0 then (.error .eproto, d)
  else if tooLarge env (length - 1) then (.error .emsgsize, d)
  else initBody env d (length - 1)

variable (env) in
theorem checkLength_leads (halloc : d.alloc = mem) (htmp : d.tmpbuf.length = 8) (length : ℕ) :
    ∃ rc d', checkLength env d length = (rc, d') ∧ (rc ≠ .more ∨ d'.toRead ≠ 0) ∧
      Decoder.Leads Sim (Refuses env) mem rc d' (lengthRead env length) := by
  unfold checkLength lengthRead
  by_cases hzero : length = 0
  · rw [if_pos hzero, if_pos hzero]
    exact ⟨_, _, rfl, .inl Rc.noConfusion, rfl⟩
  rw [if_neg hzero, if_neg hzero]
  by_cases hlarge : tooLarge env (length - 1)
  · rw [if_pos hlarge, if_pos hlarge]
    exact ⟨_, _, rfl, .inl Rc.noConfusion, rfl⟩
  · rw [if_neg hlarge, if_neg hlarge]
    exact initBody_leads halloc htmp _

theorem oneByteSizeReady_eq (h : d.tmpbuf.headD 0 ≠ 0xff) :
    oneByteSizeReady env d = checkLength env d (d.tmpbuf.headD 0).toNat := by
  rw [oneByteSizeReady, if_neg h, checkLength]
  simp only [← UInt8.toNat_inj, UInt8.toNat_zero]

theorem eightByteSizeReady_eq : eightByteSizeReady env d = checkLength env d (getUint64 d.tmpbuf).toNat := by
  rw [eightByteSizeReady, checkLength]
  simp only [← UInt64.toNat_inj, UInt64.toNat_zero]
  by_cases hzero : (getUint64 d.tmpbuf).toNat = 0
  · rw [if_pos hzero, if_pos hzero]
  · have hle : (1 : UInt64) ≤ getUint64 d.tmpbuf :=
      UInt64.le_iff_toNat_le.mpr (Nat.one_le_iff_ne_zero.mpr hzero)
    rw [UInt64.toNat_sub_of_le _ _ hle]
    rfl

theorem message_begins (halloc : d.alloc = mem) (htmp : d.tmpbuf.length = 8) :
    Decoder.Begins Sim mem (messageReady d).2.message.2 .size 1 :=
  ⟨Nat.zero_lt_one, halloc, ⟨Nat.zero_le _, rfl⟩, htmp, .inl ⟨rfl, rfl⟩, by change 1 ≤ d.tmpbuf.length; omega, rfl, rfl⟩

theorem run_message (hnext : d.own = .messageReady) (hzero : d.toRead = 0) (readFrom : Ptr) (fuel : ℕ) :
    runSteps (act env) readFrom (fuel + 1) d = .ok (.message, (messageReady d).2) := by
  rw [runSteps, if_neg (not_not_intro hzero), act, hnext]
  rfl

variable (env) in
theorem size_leads (h : Sim mem d .size n g) (hfull : g.length = n) (readFrom : Ptr) :
    ∃ rc d', act env d readFrom = .ok (rc, d') ∧ (rc ≠ .more ∨ d'.toRead ≠ 0) ∧
      Decoder.Leads Sim (Refuses env) mem rc d' (format env .size g) := by
  obtain ⟨hnext, htmp⟩ := h.reads
  have hlen := h.tmpbuf
  rcases hnext with ⟨rfl, hnext⟩ | ⟨rfl, hnext⟩
  · have hb := htmp.headD hfull Nat.zero_lt_one
    have hact : act env d readFrom = .ok (oneByteSizeReady env d) := by rw [act, hnext]
    rw [hact, format, if_pos hfull]
    by_cases hff : g.headD 0 = 0xff
    · rw [oneByteSizeReady, hb, if_pos hff, if_pos hff]
      exact ⟨_, _, rfl, .inr (show (8 : ℕ) ≠ 0 by decide), .inl ⟨rfl, show 0 < 8 by decide, h.alloc,
        ⟨Nat.zero_le _, rfl⟩, hlen, .inr ⟨rfl, rfl⟩, Nat.le_of_eq hlen.symm, rfl, rfl⟩⟩
    · rw [if_neg hff, oneByteSizeReady_eq (by rwa [hb]), hb]
      obtain ⟨rc, d', hcheck, hleads⟩ := checkLength_leads env h.alloc hlen (g.headD 0).toNat
      exact ⟨rc, d', by rw [hcheck], hleads⟩
  · have htake := htmp.2.2
    rw [hfull, List.take_of_length_le (Nat.le_of_eq hlen)] at htake
    have hact : act env d readFrom = .ok (eightByteSizeReady env d) := by rw [act, hnext]
    rw [hact, format, if_neg (by rw [hfull]; decide), eightByteSizeReady_eq, htake]
    obtain ⟨rc, d', hcheck, hleads⟩ := checkLength_leads env h.alloc hlen (getUint64 g).toNat
    exact ⟨rc, d', by rw [hcheck], hleads⟩

theorem part_leads (h : Sim mem d l n g) (hfull : g.length = n) (readFrom : Ptr) :
    ∃ rc d', runSteps (act env) readFrom stepFuel d = .ok (rc, d') ∧
      Decoder.Leads Sim (Refuses env) mem rc d' (format env l g) := by
  have hzero : d.toRead = 0 := by
    rw [h.toRead.2]
    omega
  have hlen := h.tmpbuf
  cases l with
  | size =>
    obtain ⟨rc, d', hact, hstop, hleads⟩ := size_leads env h hfull readFrom
    exact ⟨rc, d', runSteps_act 1 hzero hact hstop, hleads⟩
  | flags msgSize =>
    obtain ⟨rfl, hnext, hflags, hbody, htmp⟩ := h.reads
    have hb := htmp.headD hfull Nat.zero_lt_one
    have hact : act env d readFrom = .ok (flagsReady d) := by rw [act, hnext]
    have hmsg : (flagsReady d).2.flags = g.headD 0 &&& Msg.more := by
      change d.flags ||| (d.tmpbuf.headD 0 &&& Msg.more) = _
      rw [hflags, hb, UInt8.zero_or]
    have hin : (flagsReady d).2.InMsg msgSize [] :=
      ⟨[], hbody, by change d.body.data = _; rw [hbody]; rfl, Nat.zero_le _, Nat.zero_le _, rfl⟩
    have htoRead : (flagsReady d).2.toRead = msgSize := by
      change d.body.size = _
      rw [hbody]
      rfl
    rw [format]
    by_cases hempty : msgSize = 0
    · -- the state machine goes on at once to the end of the message
      subst hempty
      refine ⟨.message, (messageReady (flagsReady d).2).2, ?_, rfl, ?_, message_begins h.alloc hlen⟩
      · rw [stepFuel, runSteps, if_neg (not_not_intro hzero), hact]
        exact run_message rfl htoRead readFrom 1
      · change ((flagsReady d).2.flags, (flagsReady d).2.body.bytes) = _
        rw [hmsg, hin.body_bytes rfl]
    · rw [if_neg hempty]
      refine ⟨_, _, runSteps_act 1 hzero hact (.inr
        (show (flagsReady d).2.toRead ≠ 0 by rwa [htoRead])), .inl ⟨rfl,
        Nat.pos_of_ne_zero hempty, h.alloc, ⟨Nat.zero_le _, htoRead⟩, hlen, rfl, hmsg, hin⟩⟩
  | body f =>
    obtain ⟨hnext, hflags, hmsg⟩ := h.reads
    refine ⟨_, _, run_message hnext hzero readFrom 2, rfl, ?_, message_begins h.alloc hlen⟩
    change (d.flags, d.body.bytes) = _
    rw [hflags, hmsg.body_bytes hfull]

theorem Sim.place (h : Sim mem d l n g) : d.InTmp n g ∨ d.InMsg n g := by
  cases l with
  | size => exact .inl h.reads.2
  | flags msgSize => exact .inl h.reads.2.2.2.2
  | body f => exact .inr h.reads.2.2

theorem collects : Decoder.Collects (act env) (format env) Sim (fun _ _ _ _ => True) False (Refuses env) where
  alloc h := h.alloc
  toRead h := h.toRead
  owns h := owns_rest h.place (by rw [h.toRead.2]; exact Nat.le_of_eq (Nat.add_sub_of_le h.toRead.1))
  notBuf h := not_buf h.place
  realloc {mem d l n g} h mem' _ := ⟨rfl, h.toRead, h.tmpbuf, by
    have := h.reads
    cases l <;> exact this⟩
  store {mem d l n g} h bytes hfit := by
    cases l with
    | size =>
      obtain ⟨hnext, htmp⟩ := h.reads
      obtain ⟨t, hstore, hlen, hk⟩ := htmp.store hfit
      exact ⟨_, hstore, rfl, fun k hle =>
        ⟨h.alloc, left_after h.toRead hfit hle, by rw [← h.tmpbuf, ← hlen]; rfl, hnext, hk k hle⟩⟩
    | flags msgSize =>
      obtain ⟨hn, hnext, hflags, hbody, htmp⟩ := h.reads
      obtain ⟨t, hstore, hlen, hk⟩ := htmp.store hfit
      exact ⟨_, hstore, rfl, fun k hle =>
        ⟨h.alloc, left_after h.toRead hfit hle, by rw [← h.tmpbuf, ← hlen]; rfl, hn, hnext, hflags, hbody, hk k hle⟩⟩
    | body f =>
      obtain ⟨hnext, hf, hmsg⟩ := h.reads
      obtain ⟨stored, hstore, hk⟩ := hmsg.store hfit
      exact ⟨_, hstore, rfl, fun k hle => ⟨h.alloc, left_after h.toRead hfit hle, h.tmpbuf, hnext, hf, hk k hle⟩⟩
  direct h hfull _ readFrom := part_leads h hfull readFrom
  finish h hfull k _ _ _ := by
    obtain ⟨rc, d', hrun, hleads⟩ := part_leads h hfull (.buf k)
    exact ⟨rc, d', hrun, .inl hleads⟩

theorem allocates : Decoder.Allocates allocate (fun mem _ => mem) False fun mem => mem.bufsize = mem.maxSize where
  bufsize _ h := h
  allocSize _ _ := rfl
  received _ _ := rfl
  resizeSize _ _ := rfl
  base h := h.elim
  told h := h.elim
  good _ _ _ h := ⟨h, h⟩

theorem new_sim (bufsize : ℕ) (addr : UInt64) : Sim (new bufsize addr).alloc (new bufsize addr) .size 1 [] :=
  ⟨rfl, ⟨Nat.zero_le _, rfl⟩, rfl, .inl ⟨rfl, rfl⟩, Nat.le_of_ble_eq_true rfl, rfl, rfl⟩

end V1Decoder

end Zmq
