import LibZmq.Sessions.Groups

/-! What an engine and a session do with the commands of a peer once the connection is ready. Every byte of a command,
and its size, are the choice of the peer. -/

namespace Zmq

def pingName : List UInt8 := 4 :: ascii ['P', 'I', 'N', 'G']

/-- A number in network byte order. -/
def getUint16 : List UInt8 → UInt16
  | b0 :: b1 :: _ => (b0.toUInt16 <<< 8) ||| b1.toUInt16
  | _ => 0

/-- `process_heartbeat_message` on a command with this data: for a PING, the interval for the TTL timer. -/
def processHeartbeatMessage (data : List UInt8) : Except Crash (Option UInt16) := do
  let name ← Block.read data 0 5
  if name = pingName then do
    let ttl ← Block.read data 5 2
    -- tenths of a second to milliseconds
    return some (getUint16 ttl * 100)
  else return none

/-- The part of `decode_and_push` that looks at a command. -/
def processCommand (data : List UInt8) : Except Crash (Option UInt16) := do
  let cmdId ← Block.read data 0 1
  if cmdId = [4] then processHeartbeatMessage data else return none

def SessionBase.push : Push SessionBase := fun s m room => .ok (s.pushMsg m room)

/-- What comes of a command frame: the interval of a timer that is armed, and what the session returns. -/
def commandFrame {σ : Type} (push : Push σ) (s : σ) (m : GroupMsg) (room : Bool) :
    Except Crash (Option UInt16 × PushRc × σ) := do
  let interval ← processCommand m.data
  let (rc, _, s) ← push s m room
  return (interval.filter (0 < ·), rc, s)

namespace Command

def CompletePing (data : List UInt8) : Prop := ∃ b0 b1 rest, data = pingName ++ b0 :: b1 :: rest

/-- A command that the engine reads within its bounds: it is not empty, a heartbeat has a name of five bytes, and a PING
has a TTL. -/
structure Framed (data : List UInt8) : Prop where
  nonempty : data ≠ []
  named : data.head? = some 4 → 5 ≤ data.length
  ping : pingName <+: data → 7 ≤ data.length

/-- Nobody joins or leaves a group with a name that is too long. -/
structure Fits (data : List UInt8) : Prop where
  join : joinName <+: data → data.length ≤ joinName.length + GroupMsg.maxLength
  leave : leaveName <+: data → data.length ≤ leaveName.length + GroupMsg.maxLength

instance (data : List UInt8) : Decidable (Framed data) :=
  decidable_of_iff (data ≠ [] ∧ (data.head? = some 4 → 5 ≤ data.length) ∧ (pingName <+: data → 7 ≤ data.length))
    ⟨fun h => ⟨h.1, h.2.1, h.2.2⟩, fun h => ⟨h.nonempty, h.named, h.ping⟩⟩

instance (data : List UInt8) : Decidable (Fits data) :=
  decidable_of_iff ((joinName <+: data → data.length ≤ joinName.length + GroupMsg.maxLength) ∧
      (leaveName <+: data → data.length ≤ leaveName.length + GroupMsg.maxLength))
    ⟨fun h => ⟨h.1, h.2⟩, fun h => ⟨h.join, h.leave⟩⟩

variable {data : List UInt8} {σ : Type} {push : Push σ} {s : σ} {m : GroupMsg} {room : Bool} {interval : UInt16} {group : List UInt8}
    {g : GroupMsg}

/-- The command is handled: nothing stops the program, and only a complete PING arms the timer. -/
def Handled (push : Push σ) (s : σ) (m : GroupMsg) (room : Bool) : Prop :=
  ∃ interval rc s', commandFrame push s m room = .ok (interval, rc, s') ∧ (interval ≠ none → CompletePing m.data)

theorem begins_iff {name : List UInt8} : data.take name.length = name ↔ name <+: data := by
  rw [List.prefix_iff_eq_take]
  exact eq_comm

theorem completePing_of_length (hname : pingName <+: data) (hlen : 7 ≤ data.length) : CompletePing data := by
  obtain ⟨rest, rfl⟩ := hname
  match rest with
  | [] => exact absurd hlen (by decide)
  | [b] => exact absurd hlen (show ¬ 7 ≤ 6 by decide)
  | b0 :: b1 :: rest => exact ⟨b0, b1, rest, rfl⟩

theorem heartbeat_ok_iff : (∃ interval, processHeartbeatMessage data = .ok interval) ↔
    5 ≤ data.length ∧ (pingName <+: data → 7 ≤ data.length) := by
  by_cases hlen : 5 ≤ data.length
  · have hread : Block.read data 0 5 = .ok (data.take 5) := Block.read_ok (by omega)
    have hname : data.take 5 = pingName ↔ pingName <+: data := @begins_iff _ pingName
    unfold processHeartbeatMessage
    rw [hread, Block.ok_bind]
    by_cases hping : pingName <+: data
    · rw [if_pos (hname.mpr hping)]
      by_cases httl : 7 ≤ data.length
      · rw [Block.read_ok (show 5 + 2 ≤ data.length by omega)]
        exact iff_of_true ⟨_, rfl⟩ ⟨hlen, fun _ => httl⟩
      · refine iff_of_false ?_ fun h => httl (h.2 hping)
        rw [show Block.read data 5 2 = .error .outOfBounds from if_neg (by omega)]
        exact fun ⟨_, h⟩ => nomatch h
    · rw [if_neg fun h => hping (hname.mp h)]
      exact iff_of_true ⟨none, rfl⟩ ⟨hlen, fun h => absurd h hping⟩
  · refine iff_of_false ?_ fun h => hlen h.1
    unfold processHeartbeatMessage
    rw [show Block.read data 0 5 = .error .outOfBounds from if_neg (by omega)]
    exact fun ⟨_, h⟩ => nomatch h

theorem heartbeat_interval (h : processHeartbeatMessage data = .ok (some interval)) : CompletePing data := by
  obtain ⟨hlen, hping⟩ := heartbeat_ok_iff.mp ⟨_, h⟩
  obtain ⟨name, hname, h⟩ := bind_ok h
  obtain ⟨-, rfl⟩ := Block.read_eq hname
  split_ifs at h with heq
  · have hprefix : pingName <+: data := (@begins_iff _ pingName).mp heq
    exact completePing_of_length hprefix (hping hprefix)
  · cases h

theorem processCommand_ok_iff : (∃ interval, processCommand data = .ok interval) ↔ Framed data := by
  cases data with
  | nil => exact iff_of_false (fun ⟨_, h⟩ => nomatch h) fun h => h.nonempty rfl
  | cons cmdId rest =>
    have hread : Block.read (cmdId :: rest) 0 1 = .ok [cmdId] := Block.read_ok (by rw [List.length_cons]; omega)
    unfold processCommand
    rw [hread, Block.ok_bind]
    by_cases hid : cmdId = 4
    · subst hid
      rw [if_pos rfl, heartbeat_ok_iff]
      exact ⟨fun h => ⟨List.cons_ne_nil _ _, fun _ => h.1, h.2⟩, fun h => ⟨h.named rfl, h.ping⟩⟩
    · rw [if_neg fun h => hid (List.cons.inj h).1]
      refine iff_of_true ⟨none, rfl⟩ ⟨List.cons_ne_nil _ _, fun h => absurd (Option.some.inj h) hid, fun h => ?_⟩
      exact absurd (List.cons_prefix_cons.mp h).1.symm hid

theorem processCommand_interval (h : processCommand data = .ok (some interval)) : CompletePing data := by
  obtain ⟨cmdId, -, h⟩ := bind_ok h
  split_ifs at h
  · exact heartbeat_interval h
  · cases h

theorem handled_iff : Handled push s m room ↔ Framed m.data ∧ ∃ r, push s m room = .ok r := by
  rw [← processCommand_ok_iff]
  constructor
  · rintro ⟨interval, rc, s', h, -⟩
    obtain ⟨i, hi, h⟩ := bind_ok h
    obtain ⟨r, hr, -⟩ := bind_ok h
    exact ⟨⟨i, hi⟩, r, hr⟩
  · rintro ⟨⟨i, hi⟩, ⟨rc, m', s'⟩, hr⟩
    refine ⟨i.filter (0 < ·), rc, s', ?_, fun harmed => ?_⟩
    · unfold commandFrame
      rw [hi, hr]
      rfl
    · cases i with
      | none => exact absurd rfl harmed
      | some interval => exact processCommand_interval hi

theorem setGroup_none : g.setGroup group = none ↔ GroupMsg.maxLength < group.length := by
  unfold GroupMsg.setGroup
  split_ifs with h
  · exact iff_of_true rfl h
  · exact iff_of_false (fun hc => nomatch hc) h

theorem fits_of_request_none (h : RadioSession.request data = none) : Fits data := by
  unfold RadioSession.request at h
  split_ifs at h with hj hl
  exact ⟨fun hp => absurd ((@begins_iff _ joinName).mpr hp) hj, fun hp => absurd ((@begins_iff _ leaveName).mpr hp) hl⟩

theorem fits_of_request (h : RadioSession.request data = some (g, group)) : Fits data ↔ group.length ≤ GroupMsg.maxLength := by
  unfold RadioSession.request at h
  have hother : ¬ (joinName <+: data ∧ leaveName <+: data) := by
    rintro ⟨⟨_, rfl⟩, hl⟩
    exact absurd (List.cons_prefix_cons.mp hl).1 (by decide)
  split_ifs at h with hj hl
  · cases h
    have hp := (@begins_iff _ joinName).mp hj
    rw [List.length_drop]
    refine ⟨fun hf => Nat.sub_le_iff_le_add'.mpr (hf.join hp), fun hle => ⟨fun _ => ?_, fun hl => absurd ⟨hp, hl⟩ hother⟩⟩
    exact Nat.sub_le_iff_le_add'.mp hle
  · cases h
    have hp := (@begins_iff _ leaveName).mp hl
    rw [List.length_drop]
    refine ⟨fun hf => Nat.sub_le_iff_le_add'.mpr (hf.leave hp), fun hle => ⟨fun hj => absurd ⟨hj, hp⟩ hother, fun _ => ?_⟩⟩
    exact Nat.sub_le_iff_le_add'.mp hle

theorem radio_push_ok_iff {s : RadioSession} (hc : m.isCommand = true) :
    (∃ r, RadioSession.push s m room = .ok r) ↔ Fits m.data := by
  unfold RadioSession.push RadioSession.pushMsg
  rw [if_pos hc]
  cases hr : RadioSession.request m.data with
  | none => exact iff_of_true ⟨_, rfl⟩ (fits_of_request_none hr)
  | some r =>
    obtain ⟨msg, group⟩ := r
    rw [fits_of_request hr]
    dsimp only
    cases hg : msg.setGroup group with
    | none => exact iff_of_false (fun h => nomatch h.choose_spec) (Nat.not_le.mpr (setGroup_none.mp hg))
    | some msg' =>
      refine iff_of_true ⟨_, rfl⟩ (Nat.not_lt.mp fun hlt => ?_)
      exact absurd (setGroup_none.mpr hlt) (by rw [hg]; exact Option.some_ne_none _)

/-- Whatever command a peer sends, it is read within its bounds, stops nothing and arms the timer only as a complete PING
if and only if it is framed and, on the way to a RADIO socket, no group is too long. -/
theorem commands_within_bounds (m : GroupMsg) (room : Bool) (base : SessionBase) (radio : RadioSession)
    (hc : m.isCommand = true) : (Handled SessionBase.push base m room ↔ Framed m.data) ∧
      (Handled RadioSession.push radio m room ↔ Framed m.data ∧ Fits m.data) := by
  refine ⟨?_, ?_⟩
  · rw [handled_iff]
    exact and_iff_left ⟨_, rfl⟩
  · rw [handled_iff, radio_push_ok_iff hc]

/-- A PING with a TTL of 0.1 s, and a PONG. -/
theorem commands_within_bounds_ping : let ping : GroupMsg := .ofData (pingName ++ [0, 1]) Msg.command
    commandFrame RadioSession.push (.new []) ping true = .ok (some 100, .ok, .new []) ∧
      (Handled RadioSession.push (.new []) ping true ↔ Framed ping.data ∧ Fits ping.data) ∧
      Framed ping.data ∧ Fits ping.data :=
  ⟨by decide +kernel, (commands_within_bounds (.ofData (pingName ++ [0, 1]) Msg.command) true (.new []) (.new []) rfl).2,
    by decide, by decide⟩

/-- A command without data, a heartbeat of one byte, a PING without a TTL, and a group of 16 bytes. -/
theorem commands_out_of_bounds : commandFrame SessionBase.push (.new []) (.ofData [] Msg.command) true = .error .outOfBounds ∧
      commandFrame SessionBase.push (.new []) (.ofData [4] Msg.command) true = .error .outOfBounds ∧
      commandFrame SessionBase.push (.new []) (.ofData pingName Msg.command) true = .error .outOfBounds ∧
      commandFrame RadioSession.push (.new []) (.ofData (joinName ++ List.replicate 16 65) Msg.command) true =
        .error .assertion := by
  decide +kernel

end Command

end Zmq
