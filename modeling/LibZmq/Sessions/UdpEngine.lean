import LibZmq.Sessions.DishSession

/-! `udp_engine_t` between the datagrams of a RADIO and a DISH socket and their sessions: the length of the group, the
group and the body share a buffer of a fixed size. -/

namespace Zmq

open List GroupMsg

def maxUdpMsg : ℕ := 8192

/-- A buffer of an engine. Nothing clears what an earlier datagram has left. -/
structure UdpBuffer where
  bytes : List UInt8
  size : bytes.length = maxUdpMsg

namespace UdpBuffer

def fill (b : UdpBuffer) (xs : List UInt8) : UdpBuffer where
  bytes := xs.take maxUdpMsg ++ b.bytes.drop (xs.take maxUdpMsg).length
  size := by
    have h := b.size
    simp only [length_append, length_drop, length_take]
    omega

end UdpBuffer

structure UdpEngine where
  outBuffer : UdpBuffer
  inBuffer : UdpBuffer
  pollin : Bool
  pollout : Bool

/-- A datagram, and whether the pipe has room at the first and at the second push. -/
structure UdpArrival where
  datagram : List UInt8
  groupRoom : Bool
  bodyRoom : Bool

namespace UdpEngine

/-- `recvfrom` with a buffer of `MAX_UDP_MSG` bytes: the rest of a longer datagram is discarded. -/
def recvfrom (e : UdpEngine) (datagram : List UInt8) : ℕ × UdpEngine :=
  ((datagram.take maxUdpMsg).length, { e with inBuffer := e.inBuffer.fill datagram })

/-- `in_event`, for a socket that is not raw. -/
def inEvent (e : UdpEngine) (s : DishSession) (a : UdpArrival) : Except Crash (UdpEngine × DishSession) := do
  let (nbytes, e) := e.recvfrom a.datagram
  let head ← Block.read e.inBuffer.bytes 0 1
  let groupSize := (head.headD 0).toNat
  let group ← Block.read e.inBuffer.bytes 1 groupSize
  -- this doesn't fit
  if (nbytes : ℤ) - 1 < groupSize then return (e, s)
  else do
    let (rc, _, s) ← s.pushMsg (.ofData group Msg.more) a.groupRoom
    Block.assert (rc = .ok ∨ rc = .error .eagain)
    if rc ≠ .ok then return ({ e with pollin := false }, s)
    else do
      let body ← Block.read e.inBuffer.bytes (1 + groupSize) (nbytes - 1 - groupSize)
      let (rc, _, s) ← s.pushMsg (.ofData body 0) a.bodyRoom
      Block.assert (rc = .ok)
      return (e, s)

/-- `out_event`, for a socket that is not raw: the datagram that is handed to `sendto`. -/
def outEvent (e : UdpEngine) (s : RadioSession) : Except Crash (Option (List UInt8) × UdpEngine × RadioSession) :=
  match s.pullMsg with
  | (none, s) => .ok (none, { e with pollout := false }, s)
  | (some group, s) =>
    match s.pullMsg with
    -- `size ()` of a message that has not been initialised
    | (none, _) => .error .assertion
    | (some body, s) => do
      let size := group.data.length + body.data.length + 1
      let out ← Block.append maxUdpMsg [UInt8.ofNat group.data.length] group.data
      let out ← Block.append maxUdpMsg out body.data
      let e := { e with outBuffer := e.outBuffer.fill out }
      let datagram ← Block.read e.outBuffer.bytes 0 size
      return (some datagram, e, s)

/-- The message that a datagram holds, if it is as long as its group says. -/
def message : List UInt8 → Option GroupMsg
  | [] => none
  | groupSize :: rest =>
    if rest.length < groupSize.toNat then none
    else some { GroupMsg.ofData (rest.drop groupSize.toNat) 0 with group := rest.take groupSize.toNat }

/-- The datagram is delivered as it is or dropped, and a group is expected next. -/
def Whole (s : DishSession) (a : UdpArrival) (s' : DishSession) : Prop :=
  s'.state = .group ∧ (s'.written = s.written ∨ ∃ m, message a.datagram = some m ∧ s'.written = s.written ++ [m])

/-- No assertion fails, and every datagram is delivered or dropped as a whole. -/
def ReceivesWhole : UdpEngine → DishSession → List UdpArrival → Prop
  | _, _, [] => True
  | e, s, a :: as => ∃ e' s', e.inEvent s a = .ok (e', s') ∧ Whole s a s' ∧ ReceivesWhole e' s' as

/-- A message with a valid group that fits in the buffer and in the pipe. -/
structure Deliverable (a : UdpArrival) (m : GroupMsg) : Prop where
  group : m.GroupOk
  datagram : a.datagram.length ≤ maxUdpMsg
  room : a.bodyRoom = true

/-- Whatever is long enough for its group can be delivered. -/
def Harmless (a : UdpArrival) : Prop := ∀ m, message a.datagram = some m → Deliverable a m

variable {e : UdpEngine} {s : DishSession} {a : UdpArrival} {m : GroupMsg} {g : UInt8} {rest ys : List UInt8}

def pushes (e : UdpEngine) (s : DishSession) (group body : List UInt8) (groupRoom bodyRoom : Bool) :
    Except Crash (UdpEngine × DishSession) := do
  let (rc, _, s) ← s.pushMsg (.ofData group Msg.more) groupRoom
  Block.assert (rc = .ok ∨ rc = .error .eagain)
  if rc ≠ .ok then return ({ e with pollin := false }, s)
  else do
    let (rc, _, s) ← s.pushMsg (.ofData body 0) bodyRoom
    Block.assert (rc = .ok)
    return (e, s)

theorem inEvent_eq (hbytes : (e.inBuffer.fill a.datagram).bytes = g :: ys) : e.inEvent s a =
      if ((a.datagram.take maxUdpMsg).length : ℤ) - 1 < g.toNat then .ok ((e.recvfrom a.datagram).2, s)
      else pushes (e.recvfrom a.datagram).2 s (ys.take g.toNat)
        ((ys.drop g.toNat).take ((a.datagram.take maxUdpMsg).length - 1 - g.toNat)) a.groupRoom a.bodyRoom := by
  have hsize := (e.inBuffer.fill a.datagram).size
  have hg := g.toNat_lt
  rw [hbytes, length_cons] at hsize
  have hhead : Block.read (g :: ys) 0 1 = .ok [g] := Block.read_ok (by simp)
  have hgroup : Block.read (g :: ys) 1 g.toNat = .ok (ys.take g.toNat) :=
    Block.read_ok (by rw [length_cons, hsize, maxUdpMsg]; omega)
  unfold inEvent
  dsimp only [recvfrom]
  rw [hbytes, hhead, Block.ok_bind]
  dsimp only [headD_cons]
  rw [hgroup]
  by_cases hshort : ((a.datagram.take maxUdpMsg).length : ℤ) - 1 < g.toNat
  · exact (if_pos hshort).trans (if_pos hshort).symm
  · have hbytes : (a.datagram.take maxUdpMsg).length ≤ maxUdpMsg := length_take_le _ _
    have hbody : Block.read (g :: ys) (1 + g.toNat) ((a.datagram.take maxUdpMsg).length - 1 - g.toNat) =
        .ok ((ys.drop g.toNat).take ((a.datagram.take maxUdpMsg).length - 1 - g.toNat)) := by
      rw [Block.read_ok (by rw [length_cons]; omega), Nat.add_comm 1, drop_succ_cons]
    refine (if_neg hshort).trans (Eq.trans ?_ (if_neg hshort).symm)
    rw [hbody]
    rfl

theorem fill_cons {b : UdpBuffer} (hd : a.datagram = g :: rest) :
    ∃ ys, (b.fill a.datagram).bytes = g :: (rest.take (maxUdpMsg - 1) ++ ys) := by
  rw [hd]
  exact ⟨_, rfl⟩

theorem message_cons (hd : a.datagram = g :: rest) (hlen : g.toNat ≤ rest.length) :
    message a.datagram = some { ofData (rest.drop g.toNat) 0 with group := rest.take g.toNat } := by
  rw [hd]
  exact if_neg (Nat.not_lt.mpr hlen)

theorem inEvent_short (hm : message a.datagram = none) : ∃ e', e.inEvent s a = .ok (e', s) := by
  refine ⟨(e.recvfrom a.datagram).2, ?_⟩
  cases hd : a.datagram with
  | nil =>
    have hsize := (e.inBuffer.fill a.datagram).size
    cases hbytes : (e.inBuffer.fill a.datagram).bytes with
    | nil =>
      rw [hbytes] at hsize
      cases hsize
    | cons g ys =>
      have hnone : (([] : List UInt8).take maxUdpMsg).length = 0 := rfl
      rw [inEvent_eq hbytes, hd, if_pos (by omega)]
  | cons g rest =>
    have hlen : rest.length < g.toNat := by
      by_contra hlen
      rw [message_cons hd (Nat.not_lt.mp hlen)] at hm
      cases hm
    obtain ⟨ys, hbytes⟩ := fill_cons (b := e.inBuffer) hd
    rw [inEvent_eq hbytes, hd, if_pos (by rw [length_take, length_cons]; omega)]

theorem inEvent_long (hm : message a.datagram = some m) :
    ∃ e', e.inEvent s a = pushes e' s m.group (m.data.take (maxUdpMsg - 1 - m.group.length)) a.groupRoom a.bodyRoom := by
  cases hd : a.datagram with
  | nil =>
    rw [hd] at hm
    cases hm
  | cons g rest =>
    have hlen : g.toNat ≤ rest.length := by
      by_contra hshort
      rw [hd] at hm
      exact absurd ((if_pos (Nat.not_le.mp hshort)).symm.trans hm) nofun
    obtain ⟨ys, hbytes⟩ := fill_cons (b := e.inBuffer) hd
    have hg := g.toNat_lt
    have hread : (a.datagram.take maxUdpMsg).length = 1 + (rest.take (maxUdpMsg - 1)).length := by
      rw [hd, maxUdpMsg, take_succ_cons, length_cons, Nat.add_comm]
    have hfits : g.toNat ≤ (rest.take (maxUdpMsg - 1)).length := by
      rw [length_take, maxUdpMsg]
      omega
    refine ⟨(e.recvfrom a.datagram).2, ?_⟩
    rw [message_cons hd hlen] at hm
    cases hm
    rw [inEvent_eq hbytes, if_neg (by omega)]
    congr 1
    · rw [take_append_of_le_length hfits, take_take, min_eq_left (by rw [maxUdpMsg]; omega)]
    · have hgroup : (rest.take g.toNat).length = g.toNat := by rw [length_take, min_eq_left hlen]
      have hbody : ((rest.take (maxUdpMsg - 1)).drop g.toNat).length = (rest.take (maxUdpMsg - 1)).length - g.toNat :=
        length_drop
      change _ = (rest.drop g.toNat).take (maxUdpMsg - 1 - (rest.take g.toNat).length)
      rw [hgroup, drop_append_of_le_length hfits, hread, Nat.add_sub_cancel_left, ← hbody, take_left, drop_take]

variable {group body : List UInt8} {groupRoom bodyRoom : Bool}

theorem pushes_long (hs : s.state = .group) (hlong : maxLength < group.length) :
    pushes e s group body groupRoom bodyRoom = .error .assertion := by
  have hpush : s.pushMsg (.ofData group Msg.more) groupRoom = .ok (.error .efault, .ofData group Msg.more, s) := by
    unfold DishSession.pushMsg
    rw [hs]
    exact (if_neg (not_not_intro (ofData_hasMore group Msg.more))).trans (if_pos hlong)
  unfold pushes
  rw [hpush]
  rfl

theorem pushes_short (hs : s.state = .group) (hlen : group.length ≤ maxLength) : pushes e s group body groupRoom bodyRoom = do
      let (rc, _, s) ← { s with groupMsg := some (.ofData group Msg.more), state := .body : DishSession }.pushMsg
        (.ofData body 0) bodyRoom
      Block.assert (rc = .ok)
      return (e, s) := by
  unfold pushes
  rw [DishSession.pushMsg_group hs (ofData_hasMore group Msg.more) hlen groupRoom]
  rfl

theorem pushes_full (hs : s.state = .group) (hlen : group.length ≤ maxLength) :
    pushes e s group body groupRoom false = .error .assertion := by
  have hfull : { ofData body 0 with group := group.takeWhile (· ≠ 0) }.isCommand = false :=
    ofData_isCommand body 0
  rw [pushes_short hs hlen, DishSession.pushMsg_body rfl rfl hlen (ofData_hasMore body 0)]
  dsimp only [DishSession.forward, ofData_data]
  rw [SessionBase.pushMsg_full hfull]
  rfl

theorem pushes_room (hs : s.state = .group) (hlen : group.length ≤ maxLength) :
    pushes e s group body groupRoom true = .ok (e, { s with
      groupMsg := none
      state := .group
      written := s.written ++ [{ ofData body 0 with group := group.takeWhile (· ≠ 0) }] }) := by
  rw [pushes_short hs hlen, DishSession.pushMsg_room rfl rfl hlen (ofData_hasMore body 0)
    (ofData_isCommand body 0)]
  rfl

theorem message_some (hm : message a.datagram = some m) :
    m = { ofData m.data 0 with group := m.group } ∧ a.datagram.length = 1 + m.group.length + m.data.length := by
  cases hd : a.datagram with
  | nil =>
    rw [hd] at hm
    cases hm
  | cons g rest =>
    rw [hd] at hm
    by_cases hlen : rest.length < g.toNat
    · exact absurd ((if_pos hlen).symm.trans hm) nofun
    · cases (if_neg hlen).symm.trans hm
      refine ⟨rfl, ?_⟩
      rw [ofData_data, length_cons, length_take, length_drop]
      omega

theorem delivered_iff (hm : message a.datagram = some m) (hshort : m.group.length ≤ maxLength) :
    ({ ofData (m.data.take (maxUdpMsg - 1 - m.group.length)) 0 with
      group := m.group.takeWhile (· ≠ 0) } : GroupMsg) = m ↔ a.datagram.length ≤ maxUdpMsg ∧ 0 ∉ m.group := by
  obtain ⟨hparts, hlen⟩ := message_some hm
  constructor
  · intro h
    have hdata : m.data.take (maxUdpMsg - 1 - m.group.length) = m.data := congrArg (fun m : GroupMsg => m.data) h
    have hgroup : m.group.takeWhile (· ≠ 0) = m.group := congrArg group h
    have hfits := congrArg length hdata
    rw [length_take] at hfits
    unfold maxLength at hshort
    refine ⟨by rw [maxUdpMsg] at *; omega, fun hzero => ?_⟩
    exact absurd rfl (of_decide_eq_true (takeWhile_eq_self_iff.mp hgroup 0 hzero))
  · rintro ⟨hfits, hzero⟩
    rw [takeWhile_ne_zero hzero, take_of_length_le (by omega)]
    exact hparts.symm

theorem whole_iff (hs : s.state = .group) (hm : message a.datagram = some m) :
    (∃ e' s', e.inEvent s a = .ok (e', s') ∧ Whole s a s') ↔ Deliverable a m := by
  obtain ⟨e1, hin⟩ := inEvent_long (e := e) (s := s) hm
  rw [hin]
  by_cases hlen : m.group.length ≤ maxLength
  · cases hroom : a.bodyRoom with
    | false =>
      rw [pushes_full hs hlen]
      exact iff_of_false (fun ⟨_, _, h, _⟩ => nomatch h) fun h => absurd (hroom.symm.trans h.room) nofun
    | true =>
      rw [pushes_room hs hlen]
      constructor
      · rintro ⟨e', s', h, -, hwritten⟩
        cases h
        obtain hnone | ⟨m', hm', hsome⟩ := hwritten
        · exact absurd (append_right_eq_self.mp hnone) (cons_ne_nil _ _)
        · cases hm.symm.trans hm'
          obtain ⟨hfits, hzero⟩ := (delivered_iff hm hlen).mp (singleton_inj.mp (append_cancel_left hsome))
          exact ⟨⟨hlen, hzero⟩, hfits, hroom⟩
      · intro h
        refine ⟨e1, _, rfl, rfl, .inr ⟨m, hm, ?_⟩⟩
        exact congrArg (s.written ++ [·]) ((delivered_iff hm hlen).mpr ⟨h.datagram, h.group.2⟩)
  · rw [pushes_long hs (Nat.lt_of_not_le hlen)]
    exact iff_of_false (fun ⟨_, _, h, _⟩ => nomatch h) fun h => hlen h.group.1

/-- In every sequence of datagrams each one is delivered or dropped as a whole if and only if every datagram that is as
long as its group says can be delivered: it fits in the buffer, its group is valid and the pipe has room for its body. -/
theorem receivesWhole_iff (e : UdpEngine) (readable : List GroupMsg) (as : List UdpArrival) :
    ReceivesWhole e (.new readable) as ↔ ∀ a ∈ as, Harmless a := by
  suffices h : ∀ s : DishSession, s.state = .group → ∀ e, ReceivesWhole e s as ↔ ∀ a ∈ as, Harmless a from h _ rfl e
  induction as with
  | nil => exact fun s _ e => iff_of_true trivial (fun a ha => nomatch ha)
  | cons a as ih =>
    intro s hs e
    rw [forall_mem_cons]
    constructor
    · rintro ⟨e', s', hin, hwhole, hrest⟩
      refine ⟨fun m hm => (whole_iff hs hm).mp ⟨e', s', hin, hwhole⟩, (ih s' hwhole.1 e').mp hrest⟩
    · rintro ⟨ha, hrest⟩
      cases hm : message a.datagram with
      | none =>
        obtain ⟨e', hin⟩ := inEvent_short (e := e) (s := s) hm
        exact ⟨e', s, hin, ⟨hs, .inl rfl⟩, (ih s hs e').mpr hrest⟩
      | some m =>
        obtain ⟨e', s', hin, hwhole⟩ := (whole_iff (e := e) hs hm).mpr (ha m hm)
        exact ⟨e', s', hin, hwhole, (ih s' hwhole.1 e').mpr hrest⟩

def idle : UdpEngine :=
  ⟨⟨replicate maxUdpMsg 0, length_replicate⟩, ⟨replicate maxUdpMsg 0, length_replicate⟩, true, true⟩

theorem not_receivesWhole (hm : message a.datagram = some m) (h : ¬ Deliverable a m) : ¬ ReceivesWhole e (.new []) [a] :=
  fun ⟨e', s', hin, hwhole, _⟩ => h ((whole_iff rfl hm).mp ⟨e', s', hin, hwhole⟩)

/-- A group of 16 bytes, and a pipe that is full when the body is pushed. -/
theorem aborts_on_datagrams : ¬ ReceivesWhole idle (.new []) [⟨16 :: replicate 16 65, true, true⟩] ∧
      ¬ ReceivesWhole idle (.new []) [⟨[1, 65, 66], true, false⟩] :=
  ⟨not_receivesWhole rfl fun h => absurd h.group.1 (by decide), not_receivesWhole rfl fun h => nomatch h.room⟩

/-! The way back: what `out_event` writes is what `in_event` reads. -/

/-- A socket with room in its pipe gets the group and the body of a message from a datagram. -/
def Recovers (datagram : List UInt8) (m : GroupMsg) : Prop :=
  ∀ (e : UdpEngine) (t : DishSession), t.state = .group → ∃ e', e.inEvent t ⟨datagram, true, true⟩ = .ok (e', { t with
    groupMsg := none
    state := .group
    written := t.written ++ [{ GroupMsg.ofData m.data 0 with group := m.group }] })

/-- Nothing is written outside the buffer, and what is sent, if anything, is recovered. -/
def SendsWhole (e : UdpEngine) (r : RadioSession) (m : GroupMsg) : Prop :=
  ∃ sent e' r', e.outEvent r = .ok (sent, e', r') ∧ ∀ datagram ∈ sent, datagram.length ≤ maxUdpMsg ∧ Recovers datagram m

variable {r : RadioSession} {msgs : List GroupMsg}

theorem fill_take {b : UdpBuffer} {xs : List UInt8} (h : xs.length ≤ maxUdpMsg) :
    Block.read (b.fill xs).bytes 0 xs.length = .ok xs := by
  have hsize := (b.fill xs).size
  rw [Block.read_ok (by omega)]
  unfold UdpBuffer.fill
  simp only [take_of_length_le h, drop_zero, take_left]

theorem outEvent_eq (hs : r.state = .group) (hr : r.readable = m :: msgs) (hgroup : m.GroupOk) : ∃ e' r', e.outEvent r =
      if m.group.length + m.data.length + 1 ≤ maxUdpMsg then
        .ok (some (UInt8.ofNat m.group.length :: (m.group ++ m.data)), e', r') else .error .outOfBounds := by
  have hpull : r.pullMsg = (some (.ofData m.group Msg.more),
      { r with readable := msgs, incompleteIn := m.hasMore, pendingMsg := m, state := .body }) := by
    unfold RadioSession.pullMsg SessionBase.pullMsg
    rw [hs, hr]
  have hlength : [UInt8.ofNat m.group.length].length = 1 := rfl
  have hlen := hgroup.1
  unfold maxLength at hlen
  have happend : Block.append maxUdpMsg [UInt8.ofNat m.group.length] m.group = .ok (UInt8.ofNat m.group.length :: m.group) :=
    Block.append_ok (by rw [maxUdpMsg]; omega)
  refine ⟨{ e with outBuffer := e.outBuffer.fill (UInt8.ofNat m.group.length :: (m.group ++ m.data)) },
    { r with readable := msgs, incompleteIn := m.hasMore, pendingMsg := m, state := .group }, ?_⟩
  unfold outEvent
  rw [hpull]
  dsimp only [RadioSession.pullMsg, ofData_data]
  rw [happend, Block.ok_bind]
  by_cases hfits : m.group.length + m.data.length + 1 ≤ maxUdpMsg
  · have hsize : (UInt8.ofNat m.group.length :: (m.group ++ m.data)).length = m.group.length + m.data.length + 1 := by
      rw [length_cons, length_append]
    have hread := fill_take (b := e.outBuffer) (hsize.trans_le hfits)
    rw [if_pos hfits, Block.append_ok (by rw [length_cons]; omega), Block.ok_bind, cons_append]
    rw [hsize] at hread
    rw [hread]
    rfl
  · rw [if_neg hfits, Block.append_error (by rw [length_cons]; omega)]
    rfl

theorem recovers (hgroup : m.GroupOk) (hlen : m.group.length + m.data.length + 1 ≤ maxUdpMsg) :
    Recovers (UInt8.ofNat m.group.length :: (m.group ++ m.data)) m := by
  intro e t ht
  obtain ⟨hshort, hzero⟩ := hgroup
  have hnat : (UInt8.ofNat m.group.length).toNat = m.group.length :=
    UInt8.toNat_ofNat_of_lt' (by unfold maxLength at hshort; show _ < 2 ^ 8; omega)
  have hmessage : message (UInt8.ofNat m.group.length :: (m.group ++ m.data)) =
      some { ofData m.data 0 with group := m.group } := by
    have h := message_cons (a := ⟨UInt8.ofNat m.group.length :: (m.group ++ m.data), true, true⟩) rfl
      (by rw [length_append]; omega)
    rwa [hnat, drop_left, take_left] at h
  obtain ⟨e', hin⟩ := inEvent_long (e := e) (s := t) (a := ⟨_, true, true⟩) hmessage
  refine ⟨e', hin.trans ((pushes_room ht hshort).trans ?_)⟩
  have hdata : m.data.take (maxUdpMsg - 1 - m.group.length) = m.data := take_of_length_le (by omega)
  rw [takeWhile_ne_zero hzero, ofData_data, hdata]

theorem setGroup_groupOk {m' : GroupMsg} {group : List UInt8} (hset : m'.setGroup group = some m) : m.GroupOk := by
  unfold setGroup at hset
  split_ifs at hset with hlen
  cases hset
  refine ⟨( takeWhile_prefix _).length_le.trans (Nat.le_of_not_lt hlen), fun hzero => ?_⟩
  have hne := mem_takeWhile_imp (show 0 ∈ group.takeWhile (· ≠ 0) from hzero)
  exact absurd rfl (of_decide_eq_true hne)

/-- A message whose group was set is sent within the buffer and recovered if and only if it fits with the length of its
group. -/
theorem sendsWhole_iff {m' : GroupMsg} {group : List UInt8} (hs : r.state = .group) (hr : r.readable = m :: msgs)
    (hset : m'.setGroup group = some m) : SendsWhole e r m ↔ m.group.length + m.data.length + 1 ≤ maxUdpMsg := by
  have hgroup := setGroup_groupOk hset
  obtain ⟨e', r', hout⟩ := outEvent_eq (e := e) hs hr hgroup
  unfold SendsWhole
  rw [hout]
  by_cases hfits : m.group.length + m.data.length + 1 ≤ maxUdpMsg
  · rw [if_pos hfits]
    refine iff_of_true ⟨_, e', r', rfl, fun datagram hd => ?_⟩ hfits
    cases hd
    rw [length_cons, length_append]
    exact ⟨hfits, recovers hgroup hfits⟩
  · rw [if_neg hfits]
    exact iff_of_false (fun ⟨_, _, _, h, _⟩ => nomatch h) hfits

/-- A body of the size that fills the buffer. -/
theorem sendsWhole_largest :
    ∃ m, (GroupMsg.ofData (replicate 8190 66) 0).setGroup [65] = some m ∧ SendsWhole idle (.new [m]) m := by
  have hset : (GroupMsg.ofData (replicate 8190 66) 0).setGroup [65] =
      some { GroupMsg.ofData (replicate 8190 66) 0 with group := [65] } := rfl
  refine ⟨_, hset, (sendsWhole_iff rfl rfl hset).mpr ?_⟩
  rw [GroupMsg.ofData_data, length_replicate]
  decide

/-- One byte more is written behind the buffer. -/
theorem overruns : ∃ m, (GroupMsg.ofData (replicate 8191 66) 0).setGroup [65] = some m ∧
      idle.outEvent (.new [m]) = .error .outOfBounds := by
  have hset : (GroupMsg.ofData (replicate 8191 66) 0).setGroup [65] =
      some { GroupMsg.ofData (replicate 8191 66) 0 with group := [65] } := rfl
  refine ⟨_, hset, ?_⟩
  obtain ⟨e', r', hout⟩ := outEvent_eq (e := idle) (r := .new [_]) rfl rfl (setGroup_groupOk hset)
  refine hout.trans (if_neg ?_)
  rw [GroupMsg.ofData_data, length_replicate]
  decide

end UdpEngine
end Zmq
