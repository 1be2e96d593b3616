import LibZmq.Calls
import LibZmq.Run
import LibZmq.Zmtp.Wire

/-! `encoder_base_t` and the two encoders built on it. However the output is split into
calls of `encode`, it is the frames of the messages that were loaded. -/

namespace Zmq

open List Option Except

inductive CodecFault where
  | assertion
  | nullDereference
  /-- an access outside of the memory that is owned, or of what was received -/
  | outOfBounds
  /-- a pointer is compared to the receive buffer but does not point into it -/
  | foreignPointer
  | stuck
deriving DecidableEq

inductive EncodeStep where
  | messageReady | sizeReady

structure Encoder where
  /-- the `to_write` bytes from `write_pos` on -/
  writePos : List UInt8
  next : EncodeStep
  newMsgFlag : Bool
  bufsize : ℕ
  inProgress : Option Msg

namespace Encoder

def nextStep (e : Encoder) (writePos : List UInt8) (next : EncodeStep) (newMsgFlag : Bool) : Encoder :=
  { e with writePos := writePos, next := next, newMsgFlag := newMsgFlag }

def new (bufsize : ℕ) : Encoder := ⟨[], .messageReady, true, bufsize, none⟩

/-- `act` is the state machine of the derived class. -/
def runNext (act : EncodeStep → Encoder → Msg → Encoder) (e : Encoder) : Except CodecFault Encoder :=
  match e.inProgress with
  | none => .error .nullDereference
  | some m => .ok (act e.next e m)

/-- If there are no more data to return, run the state machine; `none` if the message is
over. -/
def refill (act : EncodeStep → Encoder → Msg → Encoder) (e : Encoder) :
    Except CodecFault (Option Encoder) :=
  if e.writePos ≠ [] then .ok (some e)
  else if e.newMsgFlag then .ok none
  else do
    let e ← e.runNext act
    return some e

def encodeLoop (act : EncodeStep → Encoder → Msg → Encoder) (own : Bool) (buffersize : ℕ) :
    ℕ → Encoder → List UInt8 → Except CodecFault (List UInt8 × Encoder)
  | 0, _, _ => .error .stuck
  | fuel + 1, e, out =>
    if out.length < buffersize then do
      match ← e.refill act with
      | none => return (out, { e with inProgress := none })
      | some e =>
        -- zero-copy: the caller is given the data where they are
        if out = [] ∧ own ∧ buffersize ≤ e.writePos.length then
          return (e.writePos, { e with writePos := [] })
        else
          let toCopy := min e.writePos.length (buffersize - out.length)
          encodeLoop act own buffersize fuel { e with writePos := e.writePos.drop toCopy }
            (out ++ e.writePos.take toCopy)
    else return (out, e)

/-- `data` is the size of the buffer that the caller supplies, if it does. -/
def encode (act : EncodeStep → Encoder → Msg → Encoder) (e : Encoder) (data : Option ℕ) :
    Except CodecFault (List UInt8 × Encoder) :=
  let buffersize := data.getD e.bufsize
  if e.inProgress = none then .ok ([], e)
  else encodeLoop act data.isNone buffersize (buffersize + 2) e []

def loadMsg (act : EncodeStep → Encoder → Msg → Encoder) (e : Encoder) (m : Msg) :
    Except CodecFault Encoder :=
  if e.inProgress ≠ none then .error .assertion
  else runNext act { e with inProgress := some m }

inductive Op where
  | load (m : Msg)
  | encode (data : Option ℕ)

def call (act : EncodeStep → Encoder → Msg → Encoder) (e : Encoder) : Op → Except CodecFault (List UInt8 × Encoder)
  | .load m => do
    let e ← e.loadMsg act m
    return ([], e)
  | .encode data => e.encode act data

def loaded : List Op → List Msg
  | [] => []
  | .load m :: ops => m :: loaded ops
  | .encode _ :: ops => loaded ops

end Encoder

namespace V2Encoder

def moreFlag : UInt8 := 1
def largeFlag : UInt8 := 2
def commandFlag : UInt8 := 4

/-- The contents of `tmpbuf` when a message is ready. -/
def header (m : Msg) : List UInt8 :=
  let size := m.data.length
  let protocolFlags := (if m.flags &&& Msg.more ≠ 0 then moreFlag else 0) |||
    (if 255 < size then largeFlag else 0) ||| (if m.flags &&& Msg.command ≠ 0 then commandFlag else 0)
  if 255 < size then protocolFlags :: putUint64 (UInt64.ofNat size)
  else [protocolFlags, UInt8.ofNat size]

def messageReady (e : Encoder) (m : Msg) : Encoder := e.nextStep (header m) .sizeReady false

def sizeReady (e : Encoder) (m : Msg) : Encoder := e.nextStep m.data .messageReady true

def act : EncodeStep → Encoder → Msg → Encoder
  | .messageReady => messageReady
  | .sizeReady => sizeReady

end V2Encoder

namespace V1Encoder

/-- The contents of `tmpbuf` when a message is ready; the size accounts for the flags. -/
def header (m : Msg) : List UInt8 :=
  let size := m.data.length + 1
  if size < 255 then [UInt8.ofNat size, m.flags &&& Msg.more]
  else 0xff :: putUint64 (UInt64.ofNat size) ++ [m.flags &&& Msg.more]

def messageReady (e : Encoder) (m : Msg) : Encoder := e.nextStep (header m) .sizeReady false

def sizeReady (e : Encoder) (m : Msg) : Encoder := e.nextStep m.data .messageReady true

def act : EncodeStep → Encoder → Msg → Encoder
  | .messageReady => messageReady
  | .sizeReady => sizeReady

end V1Encoder

namespace Encoder

structure Writes (act : EncodeStep → Encoder → Msg → Encoder) (header : Msg → List UInt8) : Prop where
  messageReady : ∀ e m, act .messageReady e m = e.nextStep (header m) .sizeReady false
  sizeReady : ∀ e m, act .sizeReady e m = e.nextStep m.data .messageReady true

inductive Owes : Encoder → List UInt8 → Prop
  | idle {bufsize} : Owes ⟨[], .messageReady, true, bufsize, none⟩ []
  | header {rest bufsize m} : Owes ⟨rest, .sizeReady, false, bufsize, some m⟩ (rest ++ m.data)
  | body {rest bufsize m} : Owes ⟨rest, .messageReady, true, bufsize, some m⟩ rest

variable {act : EncodeStep → Encoder → Msg → Encoder} {header : Msg → List UInt8} {e e' : Encoder}
  {bs : List UInt8} {own : Bool} {n : ℕ}

theorem v2_writes : Writes V2Encoder.act V2Encoder.header := ⟨fun _ _ => rfl, fun _ _ => rfl⟩

theorem v1_writes : Writes V1Encoder.act V1Encoder.header := ⟨fun _ _ => rfl, fun _ _ => rfl⟩

def stepsLeft (e : Encoder) : ℕ := if e.newMsgFlag then 0 else 1

theorem refill_spec (hw : Writes act header) (h : Owes e bs) (hp : e.inProgress ≠ none) :
    (e.refill act = .ok none ∧ bs = [] ∧ Owes { e with inProgress := none } []) ∨
    ∃ e1, e.refill act = .ok (some e1) ∧ Owes e1 bs ∧ e1.inProgress ≠ none ∧
      (e1.writePos = [] → e1.newMsgFlag = true ∧ e1.stepsLeft < e.stepsLeft) ∧ e1.stepsLeft ≤ e.stepsLeft := by
  cases h with
  | idle => exact absurd rfl hp
  | @header rest bufsize m =>
    right
    cases rest with
    | nil =>
      refine ⟨⟨m.data, .messageReady, true, bufsize, some m⟩, ?_, .body, some_ne_none m,
        fun _ => ⟨rfl, Nat.zero_lt_one⟩, Nat.zero_le _⟩
      simp only [refill, runNext, hw.sizeReady, nextStep]
      rfl
    | cons b rest =>
      exact ⟨_, by simp [refill], .header, some_ne_none m, fun hx => absurd hx (cons_ne_nil b rest), Nat.le_refl _⟩
  | @body _ bufsize m =>
    cases bs with
    | nil => exact .inl ⟨by simp [refill], rfl, .idle⟩
    | cons b rest =>
      right
      exact ⟨_, by simp [refill], .body, some_ne_none m, fun hx => absurd hx (cons_ne_nil b rest), Nat.le_refl _⟩

theorem owes_drop (h : Owes e bs) (hp : e.inProgress ≠ none) (hn : n ≤ e.writePos.length) :
    ∃ rest, Owes { e with writePos := e.writePos.drop n } rest ∧ e.writePos.take n ++ rest = bs := by
  cases h with
  | idle => exact absurd rfl hp
  | header => exact ⟨_, .header, by rw [← append_assoc, take_append_drop]⟩
  | body => exact ⟨_, .body, take_append_drop _ _⟩

variable (own) in
theorem encodeLoop_spec (hw : Writes act header) (fuel : ℕ) (out : List UInt8) (h : Owes e bs)
    (hp : e.inProgress ≠ none) (hfuel : n - out.length + e.stepsLeft < fuel) :
    ∃ o e' rest, encodeLoop act own n fuel e out = .ok (out ++ o, e') ∧ Owes e' rest ∧ o ++ rest = bs ∧
      (out.length + o.length < n → e'.inProgress = none) := by
  induction fuel generalizing e bs out with
  | zero => omega
  | succ fuel ih =>
    by_cases hlt : out.length < n
    · rcases refill_spec hw h hp with ⟨hr, rfl, hidle⟩ | ⟨e1, hr, h1, hp1, hempty, hsteps⟩
      · refine ⟨[], _, [], ?_, hidle, rfl, fun _ => rfl⟩
        simp only [encodeLoop, if_pos hlt, hr, bind, Except.bind, pure, Except.pure, append_nil]
      · by_cases hzero : out = [] ∧ own = true ∧ n ≤ e1.writePos.length
        · obtain ⟨rest, hrest, hbs⟩ := owes_drop h1 hp1 (Nat.le_refl _)
          rw [drop_length] at hrest
          rw [take_length] at hbs
          refine ⟨e1.writePos, _, rest, ?_, hrest, hbs, fun hx => by omega⟩
          simp only [encodeLoop, if_pos hlt, hr, bind, Except.bind, pure, Except.pure, if_pos hzero]
          rw [hzero.1, nil_append]
        · obtain ⟨k, hk⟩ : ∃ k, min e1.writePos.length (n - out.length) = k := ⟨_, rfl⟩
          obtain ⟨rest, hrest, hbs⟩ := owes_drop h1 hp1 (show k ≤ e1.writePos.length by omega)
          have hklen : (e1.writePos.take k).length = k := by
            rw [length_take]
            omega
          have hmeasure : n - (out ++ e1.writePos.take k).length + e1.stepsLeft < fuel := by
            rw [length_append]
            by_cases hw0 : e1.writePos = []
            · have := (hempty hw0).2
              omega
            · have := length_pos_iff.mpr hw0
              omega
          obtain ⟨o, e', rest', hloop, h', ho, hdone⟩ :=
            ih (out ++ e1.writePos.take k) hrest hp1 hmeasure
          refine ⟨e1.writePos.take k ++ o, e', rest', ?_, h', ?_, ?_⟩
          · simp only [encodeLoop, if_pos hlt, hr, bind, Except.bind, if_neg hzero, hk]
            rw [hloop, append_assoc]
          · rw [append_assoc, ho, hbs]
          · intro hx
            refine hdone ?_
            rw [length_append] at hx ⊢
            omega
    · refine ⟨[], e, bs, ?_, h, rfl, fun hx => by omega⟩
      simp only [encodeLoop, if_neg hlt, pure, Except.pure, append_nil]

theorem encode_spec (hw : Writes act header) (h : Owes e bs) (data : Option ℕ) :
    ∃ o e' rest, encode act e data = .ok (o, e') ∧ Owes e' rest ∧ o ++ rest = bs ∧
      (o.length < data.getD e.bufsize → e'.inProgress = none) := by
  by_cases hp : e.inProgress = none
  · exact ⟨[], e, bs, by simp [encode, hp], h, rfl, fun _ => hp⟩
  · have hsteps : e.stepsLeft ≤ 1 := by
      unfold stepsLeft
      split_ifs <;> omega
    obtain ⟨o, e', rest, hloop, h', ho, hdone⟩ := encodeLoop_spec data.isNone (n := data.getD e.bufsize) hw
      (data.getD e.bufsize + 2) [] h hp (by
        omega)
    rw [nil_append] at hloop
    exact ⟨o, e', rest, by rw [encode, if_neg hp, hloop], h', ho, fun hx => hdone (by simpa using hx)⟩

theorem loadMsg_spec (hw : Writes act header) (h : Owes e bs) (m : Msg) :
    (e.inProgress = none ∧ bs = [] ∧ ∃ e', loadMsg act e m = .ok e' ∧ Owes e' (header m ++ m.data)) ∨
    (e.inProgress ≠ none ∧ loadMsg act e m = .error .assertion) := by
  cases h with
  | @idle bufsize =>
    refine .inl ⟨rfl, rfl, ⟨header m, .sizeReady, false, bufsize, some m⟩, ?_, .header⟩
    simp only [loadMsg, runNext, hw.messageReady, nextStep]
    rfl
  | header | body => exact .inr ⟨some_ne_none _, by simp [loadMsg]⟩

theorem runNext_bufsize (hw : Writes act header) (hx : e.runNext act = .ok e') : e'.bufsize = e.bufsize := by
  unfold runNext at hx
  cases hm : e.inProgress with
  | none => simp [hm] at hx
  | some m =>
    rw [hm] at hx
    cases hx
    cases e.next with
    | messageReady => rw [hw.messageReady]; rfl
    | sizeReady => rw [hw.sizeReady]; rfl

theorem loadMsg_bufsize (hw : Writes act header) {m : Msg} (hx : e.loadMsg act m = .ok e') : e'.bufsize = e.bufsize := by
  unfold loadMsg at hx
  split at hx
  · cases hx
  · have hsize := runNext_bufsize hw hx
    exact hsize

theorem encodeLoop_bufsize (hw : Writes act header) {fuel : ℕ} {out o : List UInt8}
    (hx : encodeLoop act own n fuel e out = .ok (o, e')) : e'.bufsize = e.bufsize := by
  induction fuel generalizing e out with
  | zero => cases hx
  | succ fuel ih =>
    unfold encodeLoop at hx
    split at hx
    · obtain ⟨e1, h1, hx⟩ := bind_ok hx
      cases e1 with
      | none =>
        cases hx
        rfl
      | some e1 =>
        have hsize : e1.bufsize = e.bufsize := by
          unfold refill at h1
          split at h1
          · cases h1
            rfl
          · split at h1
            · cases h1
            · obtain ⟨e2, h2, h1⟩ := bind_ok h1
              cases h1
              exact runNext_bufsize hw h2
        rw [← hsize]
        dsimp only at hx
        split at hx
        · cases hx
          rfl
        · have hsize := ih hx
          exact hsize
    · cases hx
      rfl

theorem encode_bufsize (hw : Writes act header) {data : Option ℕ} {o : List UInt8}
    (hx : e.encode act data = .ok (o, e')) : e'.bufsize = e.bufsize := by
  unfold encode at hx
  split at hx
  · cases hx
    rfl
  · exact encodeLoop_bufsize hw hx

theorem exec_frames (hw : Writes act header) {ops : List Op} {outs : List (List UInt8)} (h : Owes e bs)
    (hx : exec (call act) e ops = .ok (outs, e')) :
    ∃ rest, Owes e' rest ∧ outs.flatten ++ rest = bs ++ (loaded ops).flatMap fun m => header m ++ m.data := by
  induction ops generalizing e bs outs with
  | nil =>
    cases hx
    exact ⟨bs, h, by simp [loaded]⟩
  | cons op ops ih =>
    obtain ⟨o, e1, outs', hcall, hx', rfl⟩ := exec_cons.mp hx
    cases op with
    | load m =>
      rcases loadMsg_spec hw h m with ⟨-, rfl, e2, hload, h2⟩ | ⟨-, hload⟩
      · simp only [call, hload, bind, bind, pure, pure] at hcall
        cases hcall
        obtain ⟨rest, hrest, heq⟩ := ih h2 hx'
        exact ⟨rest, hrest, by simpa [loaded] using heq⟩
      · simp only [call, hload, bind, bind] at hcall
        cases hcall
    | encode data =>
      obtain ⟨o', e2, rest2, henc, h2, hsplit, -⟩ := encode_spec hw h data
      rw [call, henc] at hcall
      cases hcall
      obtain ⟨rest, hrest, heq⟩ := ih h2 hx'
      refine ⟨rest, hrest, ?_⟩
      rw [flatten_cons, append_assoc, heq, ← hsplit, append_assoc]
      rfl

theorem Owes.idle_nil (h : Owes e bs) (hidle : e.inProgress = none) : bs = [] := by
  cases h with
  | idle => rfl
  | header | body => cases hidle

end Encoder

end Zmq
