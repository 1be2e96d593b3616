import LibZmq.Sessions.Session
import LibZmq.Zmtp.V2RoundTrip
import Mathlib.Data.List.TakeWhile

/-! `radio_session_t` and `dish_session_t`, which put the group of a message into a frame before it and a request to join
or leave a group into a command, and back. -/

namespace Zmq

open List GroupMsg

namespace GroupMsg

def maxLength : ℕ := 15

def initJoin : GroupMsg := ⟨⟨.join, 0, []⟩, []⟩

def initLeave : GroupMsg := ⟨⟨.leave, 0, []⟩, []⟩

def isJoin (m : GroupMsg) : Bool := m.type == .join

def isLeave (m : GroupMsg) : Bool := m.type == .leave

/-- `none` is -1 with EINVAL; `strncpy` stops at a zero. -/
def setGroup (m : GroupMsg) (group : List UInt8) : Option GroupMsg :=
  if maxLength < group.length then none else some { m with group := group.takeWhile (· ≠ 0) }

def ofData (data : List UInt8) (flags : UInt8) : GroupMsg := ofFrame ((Msg.ofData data).setFlags flags)

@[simp] theorem ofData_flags (data : List UInt8) (flags : UInt8) : (ofData data flags).flags = flags := UInt8.zero_or

@[simp] theorem ofData_data (data : List UInt8) (flags : UInt8) : (ofData data flags).data = data := rfl

theorem ofData_hasMore (data : List UInt8) (flags : UInt8) : (ofData data flags).hasMore = (flags &&& Msg.more != 0) := by
  unfold Msg.hasMore
  rw [ofData_flags]

theorem ofData_isCommand (data : List UInt8) (flags : UInt8) : (ofData data flags).isCommand = (flags &&& Msg.command != 0) := by
  unfold isCommand
  rw [ofData_flags]

end GroupMsg

def joinName : List UInt8 := 4 :: ascii ['J', 'O', 'I', 'N']

def leaveName : List UInt8 := 5 :: ascii ['L', 'E', 'A', 'V', 'E']

inductive GroupSessionState where
  | group | body
deriving DecidableEq

structure RadioSession extends SessionBase where
  state : GroupSessionState
  pendingMsg : GroupMsg
deriving DecidableEq

namespace RadioSession

def new (readable : List GroupMsg) : RadioSession := ⟨.new readable, .group, .init⟩

def forward (s : RadioSession) (m : GroupMsg) (room : Bool) : PushRc × GroupMsg × RadioSession :=
  let (rc, m, base) := s.toSessionBase.pushMsg m room
  (rc, m, { s with toSessionBase := base })

/-- The request to join or to leave that a command stands for. -/
def request (data : List UInt8) : Option (GroupMsg × List UInt8) :=
  if data.take 5 = joinName then some (.initJoin, data.drop 5)
  else if data.take 6 = leaveName then some (.initLeave, data.drop 6)
  else none

/-- The result of `set_group` is asserted. -/
def pushMsg (s : RadioSession) (m : GroupMsg) (room : Bool) : Except Crash (PushRc × GroupMsg × RadioSession) :=
  if m.isCommand then
    match request m.data with
    | none => .ok (s.forward m room)
    | some (msg, group) =>
      match msg.setGroup group with
      | none => .error .assertion
      | some msg => .ok (s.forward msg room)
  else .ok (s.forward m room)

def push : Push RadioSession := pushMsg

def pullMsg (s : RadioSession) : Option GroupMsg × RadioSession :=
  match s.state with
  | .group =>
    match s.toSessionBase.pullMsg with
    | (none, base) => (none, { s with toSessionBase := base })
    | (some m, base) =>
      (some (.ofData m.group Msg.more), { s with toSessionBase := base, pendingMsg := m, state := .body })
  | .body => (some s.pendingMsg, { s with state := .group })

end RadioSession

/-- `group_msg` is `none` when it is not a valid message. -/
structure DishSession extends SessionBase where
  state : GroupSessionState
  groupMsg : Option GroupMsg
deriving DecidableEq

namespace DishSession

def new (readable : List GroupMsg) : DishSession := ⟨.new readable, .group, none⟩

def forward (s : DishSession) (m : GroupMsg) (room : Bool) : PushRc × GroupMsg × DishSession :=
  let (rc, m, base) := s.toSessionBase.pushMsg m room
  (rc, m, { s with toSessionBase := base })

/-- The message is left for the caller to close when it is rejected. -/
def pushMsg (s : DishSession) (m : GroupMsg) (room : Bool) : Except Crash (PushRc × GroupMsg × DishSession) :=
  match s.state with
  | .group =>
    if ¬ m.hasMore then .ok (.error .efault, m, s)
    else if GroupMsg.maxLength < m.data.length then .ok (.error .efault, m, s)
    else .ok (.ok, .init, { s with groupMsg := some m, state := .body })
  | .body =>
    match s.groupMsg with
    -- `data ()` of a message that has been closed
    | none => .error .assertion
    | some groupMsg =>
      match m.setGroup groupMsg.data with
      | none => .error .assertion
      | some m =>
        let s := { s with groupMsg := none }
        if m.hasMore then .ok (.error .efault, m, s)
        else
          let (rc, m, s) := s.forward m room
          .ok (rc, m, if rc = .ok then { s with state := .group } else s)

def push : Push DishSession := pushMsg

def pullMsg (s : DishSession) : Option GroupMsg × DishSession :=
  match s.toSessionBase.pullMsg with
  | (none, base) => (none, { s with toSessionBase := base })
  | (some m, base) =>
    let s := { s with toSessionBase := base }
    if m.isJoin then (some (.ofData (joinName ++ m.group) Msg.command), s)
    else if m.isLeave then (some (.ofData (leaveName ++ m.group) Msg.command), s)
    else (some m, s)

def reset (s : DishSession) : DishSession := { s with state := .group }

end DishSession

/-- What the connection makes of a message. -/
def GroupMsg.wire (m : GroupMsg) : GroupMsg := .ofData m.data (V2Decoder.wireFlags m.flags)

/-- One session pulls what it can, at most so many frames, and the other one is handed each frame. -/
def relay {σ τ : Type} (pull : σ → Option GroupMsg × σ) (push : Push τ) : ℕ → σ → τ → Except Crash (PushRc × σ × τ)
  | 0, s, t => .ok (.ok, s, t)
  | n + 1, s, t =>
    match pull s with
    | (none, s) => .ok (.ok, s, t)
    | (some m, s) => do
      let (rc, t) ← push.offer 0 t m.wire
      if rc = .ok then relay pull push n s t else return (rc, s, t)

/-! What is put into frames and commands at one end is found at the other one. -/

namespace GroupMsg

def GroupOk (m : GroupMsg) : Prop := m.group.length ≤ maxLength ∧ 0 ∉ m.group

/-- A message as RADIO sends it. -/
structure Published (m : GroupMsg) : Prop where
  more : m.hasMore = false
  command : m.isCommand = false
  group : m.GroupOk

/-- A request as DISH sends it. -/
structure Requests (m : GroupMsg) : Prop where
  type : m.type = .join ∨ m.type = .leave
  group : m.GroupOk

variable {m : GroupMsg} {group data : List UInt8}

theorem takeWhile_ne_zero (h : 0 ∉ group) : group.takeWhile (· ≠ 0) = group :=
  takeWhile_eq_self_iff.mpr fun _ hb => decide_eq_true fun hz => h (hz ▸ hb)

theorem setGroup_eq (hlen : group.length ≤ maxLength) (h : 0 ∉ group) : m.setGroup group = some { m with group := group } := by
  unfold setGroup
  rw [if_neg (Nat.not_lt.mpr hlen), takeWhile_ne_zero h]

theorem wire_ofData {flags : UInt8} (h : flags = Msg.more ∨ flags = Msg.command) : (ofData data flags).wire = ofData data flags := by
  unfold wire
  rw [ofData_flags]
  rcases h with rfl | rfl <;> rfl

theorem Published.wire (h : m.Published) : m.wire = ofData m.data 0 := by
  have hmore : m.flags &&& Msg.more = 0 := by simpa [Msg.hasMore] using h.more
  have hcommand : m.flags &&& Msg.command = 0 := by simpa [isCommand] using h.command
  refine congrArg (ofData m.data) ?_
  unfold V2Decoder.wireFlags
  rw [if_neg (not_not_intro hmore), if_neg (not_not_intro hcommand)]
  rfl

end GroupMsg

section relay

variable {σ τ : Type} {pull : σ → Option GroupMsg × σ} {push : Push τ} {s s' : σ} {t t' : τ} {m : GroupMsg} {n : ℕ}

theorem relay_some (hpull : pull s = (some m, s')) (hpush : push.offer 0 t m.wire = .ok (.ok, t')) :
    relay pull push (n + 1) s t = relay pull push n s' t' := by
  rw [relay, hpull]
  dsimp only
  rw [hpush]
  rfl

theorem relay_none (hpull : pull s = (none, s)) (n : ℕ) : relay pull push n s t = .ok (.ok, s, t) := by
  cases n with
  | zero => rfl
  | succ n =>
    rw [relay, hpull]

end relay

namespace DishSession

variable {s : DishSession} {m g : GroupMsg}

theorem pushMsg_group (hs : s.state = .group) (hm : m.hasMore = true) (hlen : m.data.length ≤ maxLength)
    (room : Bool) : s.pushMsg m room = .ok (.ok, .init, { s with groupMsg := some m, state := .body }) := by
  unfold pushMsg
  rw [hs]
  exact (if_neg (not_not_intro hm)).trans (if_neg (Nat.not_lt.mpr hlen))

theorem pushMsg_body (hs : s.state = .body) (hg : s.groupMsg = some g) (hlen : g.data.length ≤ maxLength)
    (hm : m.hasMore = false) (room : Bool) : s.pushMsg m room =
      let (rc, m, s) := DishSession.forward { s with groupMsg := none } { m with group := g.data.takeWhile (· ≠ 0) } room
      .ok (rc, m, if rc = .ok then { s with state := .group } else s) := by
  have hgroup : m.setGroup g.data = some { m with group := g.data.takeWhile (· ≠ 0) } := if_neg (Nat.not_lt.mpr hlen)
  unfold pushMsg
  rw [hs, hg]
  dsimp only
  rw [hgroup]
  exact if_neg (by rw [hm]; exact Bool.false_ne_true)

theorem forward_room (h : m.isCommand = false) : s.forward m true = (.ok, .init, { s with written := s.written ++ [m] }) := by
  unfold forward
  rw [SessionBase.pushMsg_room h]

theorem pushMsg_room (hs : s.state = .body) (hg : s.groupMsg = some g) (hlen : g.data.length ≤ maxLength)
    (hm : m.hasMore = false) (hc : m.isCommand = false) :
    s.pushMsg m true = .ok (.ok, .init, { s with
      groupMsg := none
      state := .group
      written := s.written ++ [{ m with group := g.data.takeWhile (· ≠ 0) }] }) := by
  rw [pushMsg_body hs hg hlen hm, @forward_room { s with groupMsg := none } { m with group := g.data.takeWhile (· ≠ 0) } hc]
  rfl

end DishSession

namespace RadioSession

variable {s : RadioSession} {t : DishSession} {m : GroupMsg} {ms rest : List GroupMsg}

theorem relay_message (hs : s.state = .group) (hr : s.readable = m :: rest) (ht : t.state = .group) (hm : m.Published) (n : ℕ) :
    ∃ s' t', relay pullMsg DishSession.push (n + 2) s t = relay pullMsg DishSession.push n s' t' ∧
      s'.state = .group ∧ s'.readable = rest ∧ t'.state = .group ∧
      t'.written = t.written ++ [{ ofData m.data 0 with group := m.group }] := by
  obtain ⟨hlen, hzero⟩ := hm.group
  have hpull : s.pullMsg = (some (.ofData m.group Msg.more),
      { s with readable := rest, incompleteIn := m.hasMore, pendingMsg := m, state := .body }) := by
    unfold pullMsg SessionBase.pullMsg
    rw [hs, hr]
  have hpush : DishSession.push.offer 0 t (ofData m.group Msg.more).wire =
      .ok (.ok, { t with groupMsg := some (.ofData m.group Msg.more), state := .body }) := by
    rw [wire_ofData (Or.inl rfl)]
    exact Push.offer_zero (DishSession.pushMsg_group ht (ofData_hasMore m.group Msg.more) hlen true)
  have hpush' : DishSession.push.offer 0 { t with groupMsg := some (ofData m.group Msg.more), state := .body } m.wire =
      .ok (.ok, { t with
        groupMsg := none
        state := .group
        written := t.written ++ [{ ofData m.data 0 with group := m.group }] }) := by
    have hset := DishSession.pushMsg_room (s := { t with groupMsg := some (ofData m.group Msg.more), state := .body })
      rfl rfl hlen (ofData_hasMore m.data 0) (ofData_isCommand m.data 0)
    rw [ofData_data, takeWhile_ne_zero hzero] at hset
    rw [hm.wire]
    exact Push.offer_zero hset
  refine ⟨{ s with readable := rest, incompleteIn := m.hasMore, pendingMsg := m, state := .group },
    { t with groupMsg := none, state := .group, written := t.written ++ [{ ofData m.data 0 with group := m.group }] },
    ?_, rfl, rfl, rfl, rfl⟩
  rw [relay_some hpull hpush]
  exact relay_some rfl hpush'

theorem relay_messages (hs : s.state = .group) (hr : s.readable = ms) (ht : t.state = .group) (hm : ∀ m ∈ ms, m.Published)
    (k : ℕ) : ∃ s' t', relay pullMsg DishSession.push (2 * ms.length + k) s t = .ok (.ok, s', t') ∧
      t'.written = t.written ++ ms.map fun m => { ofData m.data 0 with group := m.group } := by
  induction ms generalizing s t with
  | nil =>
    obtain ⟨⟨readable, written, incompleteIn⟩, state, pendingMsg⟩ := s
    obtain rfl : state = .group := hs
    obtain rfl : readable = [] := hr
    exact ⟨_, t, relay_none (show pullMsg _ = (none, _) from rfl) _, (append_nil _).symm⟩
  | cons m ms ih =>
    obtain ⟨hfirst, hm⟩ := forall_mem_cons.mp hm
    obtain ⟨s1, t1, hrelay, hs1, hr1, ht1, hw1⟩ := relay_message hs hr ht hfirst (2 * ms.length + k)
    obtain ⟨s', t', hrelay', hw'⟩ := ih hs1 hr1 ht1 hm
    refine ⟨s', t', ?_, ?_⟩
    · rw [length_cons, show 2 * (ms.length + 1) + k = 2 * ms.length + k + 2 by omega, hrelay, hrelay']
    · rw [hw', hw1, append_assoc]
      rfl

end RadioSession

theorem RadioSession.pushMsg_request {s : RadioSession} {m msg : GroupMsg} {group : List UInt8} (hm : m.isCommand = true)
    (hreq : RadioSession.request m.data = some (msg, group)) (hmsg : msg.isCommand = false)
    (hlen : group.length ≤ maxLength) (hzero : 0 ∉ group) :
    s.pushMsg m true = .ok (.ok, .init, { s with written := s.written ++ [{ msg with group := group }] }) := by
  unfold RadioSession.pushMsg
  rw [if_pos hm, hreq]
  dsimp only
  rw [setGroup_eq hlen hzero]
  dsimp only
  unfold RadioSession.forward
  rw [@SessionBase.pushMsg_room s.toSessionBase { msg with group := group } hmsg]

namespace DishSession

variable {s : DishSession} {t : RadioSession} {m : GroupMsg} {ms rest : List GroupMsg}

theorem pullMsg_request (hr : s.readable = m :: rest) (hm : m.type = .join ∨ m.type = .leave) :
    ∃ name msg, s.pullMsg = (some (.ofData (name ++ m.group) Msg.command), { s with readable := rest, incompleteIn := m.hasMore }) ∧
      RadioSession.request (name ++ m.group) = some (msg, m.group) ∧ msg.isCommand = false ∧ msg.toMsg = ⟨m.type, 0, []⟩ := by
  obtain ⟨⟨readable, written, incompleteIn⟩, state, groupMsg⟩ := s
  obtain rfl : readable = m :: rest := hr
  obtain ⟨⟨type, flags, data⟩, group⟩ := m
  rcases hm with hm | hm
  · obtain rfl : type = .join := hm
    refine ⟨joinName, .initJoin, rfl, ?_, rfl, rfl⟩
    have htake : (joinName ++ group).take 5 = joinName := take_left' rfl
    have hdrop : (joinName ++ group).drop 5 = group := drop_left' rfl
    unfold RadioSession.request
    rw [if_pos htake, hdrop]
  · obtain rfl : type = .leave := hm
    refine ⟨leaveName, .initLeave, rfl, ?_, rfl, rfl⟩
    have hother : (leaveName ++ group).take 5 ≠ joinName := fun hc =>
      absurd (show (5 : UInt8) = 4 from (cons.inj hc).1) (by decide)
    have htake : (leaveName ++ group).take 6 = leaveName := take_left' rfl
    have hdrop : (leaveName ++ group).drop 6 = group := drop_left' rfl
    unfold RadioSession.request
    rw [if_neg hother, if_pos htake, hdrop]

theorem relay_request (hr : s.readable = m :: rest) (hm : m.Requests) (n : ℕ) :
    ∃ s' t', relay pullMsg RadioSession.push (n + 1) s t = relay pullMsg RadioSession.push n s' t' ∧
      s'.readable = rest ∧ t'.written = t.written ++ [⟨⟨m.type, 0, []⟩, m.group⟩] := by
  obtain ⟨hlen, hzero⟩ := hm.group
  obtain ⟨name, msg, hpull, hreq, hcommand, hmsg⟩ := pullMsg_request hr hm.type
  refine ⟨{ s with readable := rest, incompleteIn := m.hasMore }, { t with written := t.written ++ [⟨⟨m.type, 0, []⟩, m.group⟩] },
    relay_some hpull ?_, rfl, rfl⟩
  have hpush := RadioSession.pushMsg_request (s := t) (m := .ofData (name ++ m.group) Msg.command)
    (ofData_isCommand _ _) hreq hcommand hlen hzero
  rw [hmsg] at hpush
  rw [wire_ofData (Or.inr rfl)]
  exact Push.offer_zero hpush

theorem relay_requests (hr : s.readable = ms) (hm : ∀ m ∈ ms, m.Requests) (k : ℕ) :
    ∃ s' t', relay pullMsg RadioSession.push (ms.length + k) s t = .ok (.ok, s', t') ∧
      t'.written = t.written ++ ms.map fun m => ⟨⟨m.type, 0, []⟩, m.group⟩ := by
  induction ms generalizing s t with
  | nil =>
    obtain ⟨⟨readable, written, incompleteIn⟩, state, groupMsg⟩ := s
    obtain rfl : readable = [] := hr
    exact ⟨_, t, relay_none (show pullMsg _ = (none, _) from rfl) _, (append_nil _).symm⟩
  | cons m ms ih =>
    obtain ⟨hfirst, hm⟩ := forall_mem_cons.mp hm
    obtain ⟨s1, t1, hrelay, hr1, hw1⟩ := relay_request (t := t) hr hfirst (ms.length + k)
    obtain ⟨s', t', hrelay', hw'⟩ := ih (t := t1) hr1 hm
    refine ⟨s', t', ?_, ?_⟩
    · rw [length_cons, Nat.add_right_comm, hrelay, hrelay']
    · rw [hw', hw1, append_assoc]
      rfl

end DishSession

/-- The messages that a RADIO session pulls arrive at the DISH session with their groups, and the requests that a DISH
session pulls arrive at the RADIO session. -/
theorem groups_translated (radio : RadioSession) (dish : DishSession) (hradio : radio.state = .group) (hdish : dish.state = .group) :
    ((∀ m ∈ radio.readable, m.Published) → ∀ n, 2 * radio.readable.length ≤ n →
      ∃ radio' dish', relay RadioSession.pullMsg DishSession.push n radio dish = .ok (.ok, radio', dish') ∧
        ∃ new, dish'.written = dish.written ++ new ∧
          new.map (fun m => (m.data, m.group)) = radio.readable.map fun m => (m.data, m.group)) ∧
    ((∀ m ∈ dish.readable, m.Requests) → ∀ n, dish.readable.length ≤ n →
      ∃ dish' radio', relay DishSession.pullMsg RadioSession.push n dish radio = .ok (.ok, dish', radio') ∧
        ∃ new, radio'.written = radio.written ++ new ∧
          new.map (fun m => (m.type, m.group)) = dish.readable.map fun m => (m.type, m.group)) := by
  constructor
  · intro hm n hn
    obtain ⟨radio', dish', hrelay, hwritten⟩ := RadioSession.relay_messages hradio rfl hdish hm (n - 2 * radio.readable.length)
    rw [Nat.add_sub_cancel' hn] at hrelay
    refine ⟨radio', dish', hrelay, _, hwritten, ?_⟩
    rw [map_map]
    rfl
  · intro hm n hn
    obtain ⟨dish', radio', hrelay, hwritten⟩ := DishSession.relay_requests (t := radio) rfl hm (n - dish.readable.length)
    rw [Nat.add_sub_cancel' hn] at hrelay
    refine ⟨dish', radio', hrelay, _, hwritten, ?_⟩
    rw [map_map]
    rfl

/-- An empty body, and the empty group, in both directions. -/
theorem groups_translated_three :
    let messages : List GroupMsg := [{ GroupMsg.ofData [1, 2] 0 with group := [65] }, { GroupMsg.ofData [] 0 with group := [66] },
      { GroupMsg.ofData [3] 0 with group := [] }]
    let requests : List GroupMsg := [{ GroupMsg.initJoin with group := [65] }, { GroupMsg.initLeave with group := [] },
      { GroupMsg.initJoin with group := [66, 67] }]
    let radio := RadioSession.new messages
    let dish := DishSession.new requests
    (∃ radio' dish', relay RadioSession.pullMsg DishSession.push 6 radio dish = .ok (.ok, radio', dish') ∧ ∃ new,
      dish'.written = dish.written ++ new ∧ new.map (fun m => (m.data, m.group)) = [([1, 2], [65]), ([], [66]), ([3], [])]) ∧
    ∃ dish' radio', relay DishSession.pullMsg RadioSession.push 3 dish radio = .ok (.ok, dish', radio') ∧ ∃ new,
      radio'.written = radio.written ++ new ∧ new.map (fun m => (m.type, m.group)) = [(.join, [65]), (.leave, []), (.join, [66, 67])] := by
  intro messages requests radio dish
  have hall := groups_translated radio dish rfl rfl
  refine ⟨hall.1 (fun m hm => ?_) 6 (by decide), hall.2 (fun m hm => ?_) 3 (by decide)⟩
  · fin_cases hm <;> exact ⟨by decide, by decide, by decide, by decide⟩
  · fin_cases hm <;> exact ⟨by decide, by decide, by decide⟩

end Zmq
