import LibZmq.Sockets.Ends

/-! A connection of a STREAM socket that notifies: the engine for raw sockets between the TCP socket and the session's end of
the pipe. The application has not closed the connection, so the pipe is there. -/

namespace Zmq

open List Bool Prod Outlet

/-- What `tcp_read` returns: bytes, -1 with EAGAIN, or 0 or -1 when the connection is lost. -/
inductive TcpRead where
  | bytes (data : List UInt8)
  | again
  | closed
deriving DecidableEq

/-- `raw_decoder_t::decode` uses all bytes there are. -/
def rawDecode (data : List UInt8) : Msg := ⟨if data.length < 33 then .vsm else .zclmsg, 0, data⟩

inductive RawFault where
  | assertion

/-- What of the engine matters when there is no handshake. `insize` is zero whenever the decoder has been called. -/
structure RawEngine where
  inputStopped : Bool
  ioError : Bool
  received : Msg
deriving DecidableEq

structure RawConnection where
  /-- the session's end of the pipe -/
  out : Outlet
  /-- `none` before it has been plugged in and when it has been deleted -/
  engine : Option RawEngine
  /-- the messages that the socket has read from the pipe -/
  taken : List Msg
  plugged : Bool
  /-- what had been written to the pipe before -/
  before : List Msg
  read : List UInt8

namespace RawConnection

variable (s : RawConnection)

/-- `push_raw_msg_to_session` and `session_base_t::push_msg` -/
def pushMsg (msg : Msg) : Bool × RawConnection :=
  if msg.flags &&& Msg.command ≠ 0 then (true, s)
  else ((s.out.write msg).1, { s with out := (s.out.write msg).2 })

def flush (s : RawConnection) : RawConnection := { s with out := s.out.flush }

/-- The message without content at either end of a connection. -/
def notification : Msg := .init

/-- `error` with `engine_error` and `clean_pipes`. What the push returns is not looked at. -/
def error : RawConnection :=
  let s := (s.pushMsg notification).2.flush
  { s with out := s.out.rollback.flush, engine := none }

def inEvent (e : RawEngine) (r : TcpRead) : Except RawFault RawConnection :=
  if e.ioError then .error .assertion
  else if e.inputStopped then .ok { s with engine := some { e with ioError := true } }
  else match r with
    | .closed => .ok s.error
    | .again => .ok { s with engine := some e }
    | .bytes data =>
      let (ok, s) := { s with read := s.read ++ data }.pushMsg (rawDecode data)
      .ok { s with engine := some { e with received := rawDecode data, inputStopped := !ok } }.flush

def restartInput (e : RawEngine) (r : TcpRead) : Except RawFault RawConnection :=
  if !e.inputStopped then .error .assertion
  else
    let (ok, s) := s.pushMsg e.received
    if !ok then .ok s.flush
    else if e.ioError then .ok s.error
    else s.flush.inEvent { e with inputStopped := false } r

/-- What the push returns is not looked at. -/
def plug (r : TcpRead) : Except RawFault RawConnection :=
  let s := (s.pushMsg notification).2.flush
  { s with plugged := true }.inEvent ⟨false, false, .init⟩ r

def credited (o : Outlet) (n : UInt64) : Outlet :=
  { o with self := { o.self with peersMsgsRead := n, outActive := o.self.outActive || o.self.state == .active } }

/-- `process_activate_write` and `write_activated` -/
def activateWrite (n : UInt64) (r : TcpRead) : Except RawFault RawConnection :=
  let t := { s with out := credited s.out n }
  if !s.out.self.outActive && s.out.self.state == .active then
    match s.engine with
    | none => .ok t
    | some e => t.restartInput e r
  else .ok t

def take : RawConnection :=
  let (msg, queue) := s.out.out.read
  { s with
    out := { s.out with out := queue }
    taken := s.taken ++ msg.toList.filter fun m => !m.isDelimiter }

inductive Op where
  | plug (r : TcpRead)
  | inEvent (r : TcpRead)
  | activateWrite (n : UInt64) (r : TcpRead)
  | take

/-- Bytes that are received are some bytes. -/
def TcpRead.Ok : TcpRead → Prop
  | .bytes data => data ≠ []
  | _ => True

instance (r : TcpRead) : Decidable (TcpRead.Ok r) := by
  cases r <;> unfold TcpRead.Ok <;> infer_instance

/-- An engine is plugged in once, and there are no events when the descriptor has been removed from the poller. -/
def Ready : Op → Prop
  | .plug r => s.plugged = false ∧ TcpRead.Ok r
  | .inEvent r => (s.engine.map RawEngine.ioError) = some false ∧ TcpRead.Ok r
  | .activateWrite _ r => TcpRead.Ok r
  | .take => True

instance (op : Op) : Decidable (s.Ready op) := by
  cases op <;> unfold Ready <;> infer_instance

def run : Op → Except RawFault RawConnection
  | .plug r => s.plug r
  | .inEvent r =>
    match s.engine with
    | none => .ok s
    | some e => s.inEvent e r
  | .activateWrite n r => s.activateWrite n r
  | .take => .ok s.take

/-- The pipe may have been used for an earlier connection of the session. -/
structure Start (s : RawConnection) : Prop where
  active : s.out.self.state = .active
  outpipe : s.out.self.outpipe ≠ none
  unfinished : s.out.out.unfinished = []
  engine : s.engine = none
  plugged : s.plugged = false
  before : s.taken ++ s.out.written = s.before
  read : s.read = []

abbrev Step : RawConnection → Op → RawConnection → Prop := Does Ready run

/-- The bytes that have been received and are still to be written to the pipe. -/
def held : List UInt8 :=
  match s.engine with
  | some e => if e.inputStopped then e.received.data else []
  | none => []

/-- What an application that goes on reading is given: one message without content, what has been received, in order and as
messages that have content, and one message without content when the connection has been lost. -/
def Announced : Prop :=
  ∃ chunks : List (List UInt8), (∀ data ∈ chunks, data ≠ []) ∧ chunks.flatten ++ s.held = s.read ∧
    s.taken ++ s.out.written = s.before ++ (notification :: chunks.map rawDecode) ++
      if s.engine = none then [notification] else []

/-- The messages can be written one after the other. -/
def Fits : Outlet → List Msg → Prop
  | _, [] => True
  | o, m :: ms => o.self.checkWrite.1 = true ∧ Fits (o.accept m) ms

instance : (o : Outlet) → (ms : List Msg) → Decidable (Fits o ms)
  | _, [] => .isTrue trivial
  | o, m :: ms => by
    have := instDecidableFits (o.accept m) ms
    unfold Fits
    infer_instance

/-- There is room for a notification when it is written. -/
def Room : Op → Prop
  | .plug r => Fits s.out (if r = .closed then [notification, notification] else [notification])
  | .inEvent r => r = .closed → s.engine.map RawEngine.inputStopped = some false → Fits s.out [notification]
  | .activateWrite n r =>
    ∀ e ∈ s.engine, s.out.self.outActive = false → (e.ioError = true ∨ r = .closed) → Fits (credited s.out n) [e.received] →
      Fits (credited s.out n) [e.received, notification]
  | .take => True

instance (op : Op) : Decidable (s.Room op) := by
  cases op <;> unfold Room <;> infer_instance

structure Linked (s : RawConnection) : Prop where
  active : s.out.self.state = .active
  outpipe : s.out.self.outpipe ≠ none
  part : s.out.part = []

structure Open (s : RawConnection) (chunks : List (List UInt8)) : Prop extends Linked s where
  plugged : s.plugged = true
  nonempty : ∀ data ∈ chunks, data ≠ []
  log : s.taken ++ s.out.written = s.before ++ (notification :: chunks.map rawDecode)

structure Sound (s : RawConnection) : Prop extends Linked s where
  /-- the engine expects to be told when there is room again, and has a message for that time -/
  stopped : ∀ e ∈ s.engine, (s.out.self.outActive = false ∨ e.ioError = true → e.inputStopped = true) ∧
    (e.inputStopped = true → ∃ data, data ≠ [] ∧ e.received = rawDecode data)
  idle : s.plugged = false → s.engine = none ∧ s.read = [] ∧ s.taken ++ s.out.written = s.before
  announced : s.plugged = true → s.Announced

variable {s s' : RawConnection} {m : Msg} {e : RawEngine} {r : TcpRead} {chunks : List (List UInt8)} {data : List UInt8}

structure Single (m : Msg) : Prop where
  more : m.hasMore = false
  delimiter : m.isDelimiter = false
  command : m.flags &&& Msg.command = 0

theorem notification_single : Single notification := ⟨rfl, rfl, rfl⟩

theorem rawDecode_single (data : List UInt8) : Single (rawDecode data) := by
  refine ⟨show ((0 : UInt8) &&& Msg.more != 0) = false by decide, ?_, show (0 : UInt8) &&& Msg.command = 0 by decide⟩
  unfold rawDecode Msg.isDelimiter
  split_ifs <;> rfl

theorem pushMsg_accepted (hm : Single m) (hw : s.out.self.checkWrite.1 = true) :
    s.pushMsg m = (true, { s with out := s.out.accept m }) := by
  unfold pushMsg
  rw [if_neg (not_not.mpr hm.command), write_done hw]

theorem pushMsg_refused (hm : Single m) (hw : s.out.self.checkWrite.1 = false) :
    s.pushMsg m = (false, { s with out := s.out.refuse }) := by
  unfold pushMsg
  rw [if_neg (not_not.mpr hm.command), write_refused hw]

theorem Linked.accept (h : s.Linked) (hm : Single m) : Linked { s with out := s.out.accept m } ∧
    (s.out.accept m).written = s.out.written ++ [m] := by
  have hnone : ∀ x ∈ s.out.part, x.isDelimiter = false := fun x hx => absurd (h.part ▸ hx) not_mem_nil
  obtain ⟨hpart, hwritten⟩ := accept_last hm.more hm.delimiter hnone h.outpipe
  rw [h.part, append_nil] at hwritten
  exact ⟨⟨h.active, h.outpipe, hpart⟩, hwritten⟩

theorem Linked.refuse (h : s.Linked) (hw : s.out.self.checkWrite.1 = false) : Linked { s with out := s.out.refuse } ∧
    s.out.refuse.self.outActive = false := by
  refine ⟨⟨refuse_state.trans h.active, ?_, refuse_part.trans h.part⟩, ?_⟩
  · rw [refuse_outpipe]
    exact h.outpipe
  · exact (refuse_refuses hw).resolve_right fun hs => hs (refuse_state.trans h.active)

theorem Linked.flush (h : s.Linked) : s.flush.Linked := by
  unfold RawConnection.flush
  refine ⟨?_, ?_, flush_part.trans h.part⟩
  · rw [flush_self]
    exact h.active
  · rw [flush_self]
    exact h.outpipe

theorem Open.flush (h : s.Open chunks) : s.flush.Open chunks where
  toLinked := h.toLinked.flush
  plugged := h.plugged
  nonempty := h.nonempty
  log := by
    unfold RawConnection.flush
    rw [flush_written]
    exact h.log

theorem Open.accept (h : s.Open chunks) (hd : data ≠ []) :
    Open { s with out := s.out.accept (rawDecode data) } (chunks ++ [data]) := by
  obtain ⟨hlinked, hwritten⟩ := h.toLinked.accept (rawDecode_single data)
  refine ⟨hlinked, h.plugged, fun d hmem => ?_, ?_⟩
  · rcases mem_append.mp hmem with hmem | hmem
    · exact h.nonempty d hmem
    · exact mem_singleton.mp hmem ▸ hd
  · rw [hwritten, ← append_assoc, h.log]
    simp

theorem accept_active (hw : s.out.self.checkWrite.1 = true) : (s.out.accept m).self.outActive = true :=
  (checkWrite_true hw).1

theorem Open.error (h : s.Open chunks) (hread : chunks.flatten = s.read) (hw : s.out.self.checkWrite.1 = true) :
    s.error.Sound := by
  have hpush := pushMsg_accepted notification_single hw
  obtain ⟨hlinked, hwritten⟩ := h.toLinked.accept notification_single
  have herror : s.error = { s with out := (s.out.accept notification).flush.rollback.flush, engine := none } := by
    unfold RawConnection.error
    rw [hpush]
    rfl
  rw [herror]
  refine ⟨⟨?_, ?_, ?_⟩, fun e he => (nomatch he), fun hp => (nomatch h.plugged.symm.trans hp), fun _ => ⟨chunks, h.nonempty, ?_, ?_⟩⟩
  · simp only [flush_self, rollback_self]
    exact hlinked.active
  · simp only [flush_self, rollback_self]
    exact hlinked.outpipe
  · simp only [flush_part, rollback_part]
  · exact (append_nil _).trans hread
  · simp only [flush_written, rollback_written, if_true]
    rw [hwritten, ← append_assoc, h.log]

theorem Open.running (h : s.Open chunks) (hread : chunks.flatten = s.read) (ha : s.out.self.outActive = true)
    (hi : e.inputStopped = false) (he : e.ioError = false) : Sound { s with engine := some e } := by
  refine ⟨⟨h.active, h.outpipe, h.part⟩, fun e' he' => ?_, fun hp => (nomatch h.plugged.symm.trans hp),
    fun _ => ⟨chunks, h.nonempty, ?_, ?_⟩⟩
  · cases he'
    refine ⟨fun hc => ?_, fun hc => (nomatch hi.symm.trans hc)⟩
    rcases hc with hc | hc
    · exact nomatch ha.symm.trans hc
    · exact nomatch he.symm.trans hc
  · unfold held
    simp only [hi, false_eq_true, if_false, append_nil]
    exact hread
  · simpa using h.log

theorem Open.stopping (h : s.Open chunks) (hd : data ≠ []) (hread : chunks.flatten ++ data = s.read)
    (hi : e.inputStopped = true) (hr : e.received = rawDecode data) : Sound { s with engine := some e } := by
  refine ⟨⟨h.active, h.outpipe, h.part⟩, fun e' he' => ?_, fun hp => (nomatch h.plugged.symm.trans hp),
    fun _ => ⟨chunks, h.nonempty, ?_, ?_⟩⟩
  · cases he'
    exact ⟨fun _ => hi, fun _ => ⟨data, hd, hr⟩⟩
  · unfold held
    simp only [hi, if_true, hr]
    exact hread
  · simpa using h.log

theorem Open.inEvent (h : s.Open chunks) (hread : chunks.flatten = s.read) (ha : s.out.self.outActive = true)
    (hi : e.inputStopped = false) (he : e.ioError = false) (hr : TcpRead.Ok r)
    (hroom : r = .closed → s.out.self.checkWrite.1 = true) : ∃ s', s.inEvent e r = .ok s' ∧ s'.Sound := by
  unfold RawConnection.inEvent
  rw [if_neg (by rw [he]; exact false_ne_true), if_neg (by rw [hi]; exact false_ne_true)]
  cases r with
  | closed => exact ⟨_, rfl, h.error hread (hroom rfl)⟩
  | again => exact ⟨_, rfl, h.running hread ha hi he⟩
  | bytes data =>
    have hnext : Open { s with read := s.read ++ data } chunks :=
      ⟨⟨h.active, h.outpipe, h.part⟩, h.plugged, h.nonempty, h.log⟩
    have hreads : chunks.flatten ++ data = s.read ++ data := by rw [hread]
    cases hw : s.out.self.checkWrite.1 with
    | true =>
      have hpush := pushMsg_accepted (s := { s with read := s.read ++ data }) (rawDecode_single data) hw
      dsimp only
      rw [hpush]
      refine ⟨_, rfl, Open.running (hnext.accept hr).flush ?_ ?_ rfl he⟩
      · rw [flatten_append, flatten_singleton]
        exact hreads
      · change (s.out.accept (rawDecode data)).flush.self.outActive = true
        rw [flush_self]
        exact accept_active hw
    | false =>
      have hpush := pushMsg_refused (s := { s with read := s.read ++ data }) (rawDecode_single data) hw
      obtain ⟨hlinked, -⟩ := h.toLinked.refuse hw
      have hrefused : Open { s with read := s.read ++ data, out := s.out.refuse } chunks :=
        ⟨⟨hlinked.active, hlinked.outpipe, hlinked.part⟩, h.plugged, h.nonempty, h.log⟩
      dsimp only
      rw [hpush]
      exact ⟨_, rfl, hrefused.flush.stopping hr hreads rfl rfl⟩

theorem Open.restartInput (h : s.Open chunks) (hd : data ≠ []) (hread : chunks.flatten ++ data = s.read)
    (hengine : s.engine = some e) (hi : e.inputStopped = true) (hkept : e.received = rawDecode data) (hr : TcpRead.Ok r)
    (hroom : (e.ioError = true ∨ r = .closed) → Fits s.out [e.received] → Fits s.out [e.received, notification]) :
    ∃ s', s.restartInput e r = .ok s' ∧ s'.Sound := by
  unfold RawConnection.restartInput
  rw [if_neg (by rw [hi]; exact false_ne_true), hkept]
  rw [hkept] at hroom
  cases hw : s.out.self.checkWrite.1 with
  | false =>
    obtain ⟨hlinked, -⟩ := h.toLinked.refuse hw
    have hrefused : Open { s with out := s.out.refuse } chunks := ⟨hlinked, h.plugged, h.nonempty, h.log⟩
    have hsame : RawConnection.flush { s with out := s.out.refuse } =
        { RawConnection.flush { s with out := s.out.refuse } with engine := some e } := by
      rw [← hengine]
      rfl
    rw [pushMsg_refused (rawDecode_single data) hw]
    refine ⟨_, rfl, ?_⟩
    rw [hsame]
    exact hrefused.flush.stopping hd hread hi hkept
  | true =>
    have hnext := h.accept hd
    have hreads : (chunks ++ [data]).flatten = s.read := by
      rw [flatten_append, flatten_singleton]
      exact hread
    have hagain : e.ioError = true ∨ r = .closed → (s.out.accept (rawDecode data)).self.checkWrite.1 = true := fun hc =>
      (hroom hc ⟨hw, trivial⟩).2.1
    rw [pushMsg_accepted (rawDecode_single data) hw]
    cases he : e.ioError with
    | true => exact ⟨_, rfl, hnext.error hreads (hagain (.inl he))⟩
    | false =>
      refine Open.inEvent (e := ⟨false, false, rawDecode data⟩) hnext.flush hreads ?_ rfl rfl hr fun hc => ?_
      · change (s.out.accept (rawDecode data)).flush.self.outActive = true
        rw [flush_self]
        exact accept_active hw
      · change (s.out.accept (rawDecode data)).flush.self.checkWrite.1 = true
        rw [flush_self]
        exact hagain (.inr hc)

theorem Sound.inEvent (h : s.Sound) (hready : s.Ready (.inEvent r)) (hroom : s.Room (.inEvent r)) :
    ∃ s', s.run (.inEvent r) = .ok s' ∧ s'.Sound := by
  obtain ⟨hsome, hr⟩ := hready
  obtain ⟨e, hengine, he⟩ := Option.map_eq_some_iff.mp hsome
  have hplugged : s.plugged = true := by
    by_contra hp
    exact nomatch (h.idle (eq_false_of_not_eq_true hp)).1.symm.trans hengine
  obtain ⟨chunks, hnonempty, hread, hlog⟩ := h.announced hplugged
  rw [hengine] at hlog
  have hopen : s.Open chunks := ⟨h.toLinked, hplugged, hnonempty, by simpa using hlog⟩
  obtain ⟨hstop, hkept⟩ := h.stopped e hengine
  unfold held at hread
  rw [hengine] at hread
  change ∃ s', (match s.engine with | none => _ | some e => s.inEvent e r) = Except.ok s' ∧ _
  rw [hengine]
  cases hi : e.inputStopped with
  | false =>
    simp only [hi, false_eq_true, if_false, append_nil] at hread
    have hactive : s.out.self.outActive = true := by
      by_contra ha
      exact nomatch hi.symm.trans (hstop (.inl (eq_false_of_not_eq_true ha)))
    refine hopen.inEvent hread hactive hi he hr fun hc => (hroom hc ?_).1
    rw [hengine]
    exact congrArg some hi
  | true =>
    obtain ⟨data, hd, hreceived⟩ := hkept hi
    simp only [hi, if_true, hreceived] at hread
    have hin : s.inEvent e r = .ok { s with engine := some { e with ioError := true } } := by
      unfold RawConnection.inEvent
      rw [if_neg (by rw [he]; exact false_ne_true), if_pos hi]
    exact ⟨_, hin, hopen.stopping hd hread hi hreceived⟩

theorem Sound.plug (h : s.Sound) (hready : s.Ready (.plug r)) (hroom : s.Room (.plug r)) :
    ∃ s', s.run (.plug r) = .ok s' ∧ s'.Sound := by
  obtain ⟨hplugged, hr⟩ := hready
  obtain ⟨-, hread, hlog⟩ := h.idle hplugged
  have hroom : Fits s.out (if r = .closed then [notification, notification] else [notification]) := hroom
  have hw : s.out.self.checkWrite.1 = true := by
    split_ifs at hroom <;> exact hroom.1
  obtain ⟨hlinked, hwritten⟩ := h.toLinked.accept notification_single
  have hopen : Open { s with out := s.out.accept notification, plugged := true } [] := by
    refine ⟨⟨hlinked.active, hlinked.outpipe, hlinked.part⟩, rfl, nofun, ?_⟩
    rw [hwritten, ← append_assoc, hlog]
    rfl
  change ∃ s', s.plug r = .ok s' ∧ _
  unfold RawConnection.plug
  rw [pushMsg_accepted notification_single hw]
  refine hopen.flush.inEvent hread.symm ?_ rfl rfl hr fun hc => ?_
  · change (s.out.accept notification).flush.self.outActive = true
    rw [flush_self]
    exact accept_active hw
  · change (s.out.accept notification).flush.self.checkWrite.1 = true
    rw [flush_self]
    rw [if_pos hc] at hroom
    exact hroom.2.1

theorem Sound.activateWrite {n : UInt64} (h : s.Sound) (hr : TcpRead.Ok r) (hroom : s.Room (.activateWrite n r)) :
    ∃ s', s.run (.activateWrite n r) = .ok s' ∧ s'.Sound := by
  obtain ⟨t, ht⟩ : ∃ t, t = { s with out := credited s.out n } := ⟨_, rfl⟩
  have hlinked : t.Linked := ht ▸ ⟨h.active, h.outpipe, h.part⟩
  have hsame : t.engine = s.engine ∧ t.plugged = s.plugged ∧ (t.Announced ↔ s.Announced) := by
    rw [ht]
    exact ⟨rfl, rfl, Iff.rfl⟩
  have hidle : t.plugged = false → t.engine = none ∧ t.read = [] ∧ t.taken ++ t.out.written = t.before := by
    rw [ht]
    exact h.idle
  have hannounced : t.plugged = true → t.Announced := by
    rw [hsame.2.1, hsame.2.2]
    exact h.announced
  have hrun : s.run (.activateWrite n r) = if !s.out.self.outActive && s.out.self.state == .active then
      match s.engine with
      | none => .ok t
      | some e => t.restartInput e r
    else .ok t := by
    rw [ht]
    rfl
  rw [hrun]
  cases ha : s.out.self.outActive with
  | true =>
    refine ⟨t, if_neg (by simp), hlinked, fun e he => ?_, hidle, hannounced⟩
    rw [hsame.1] at he
    have hstill : t.out.self.outActive = true := by
      rw [ht]
      unfold credited
      simp [ha]
    refine ⟨fun hc => ?_, (h.stopped e he).2⟩
    rcases hc with hc | hc
    · exact nomatch hstill.symm.trans hc
    · exact (h.stopped e he).1 (.inr hc)
  | false =>
    rw [if_pos (by simp [h.active])]
    cases hengine : s.engine with
    | none => exact ⟨t, rfl, hlinked, fun e he => (nomatch (hsame.1.trans hengine).symm.trans he), hidle, hannounced⟩
    | some e =>
      have htengine : t.engine = some e := hsame.1.trans hengine
      have hplugged : t.plugged = true := by
        by_contra hp
        exact nomatch (hidle (eq_false_of_not_eq_true hp)).1.symm.trans htengine
      obtain ⟨chunks, hnonempty, hread, hlog⟩ := hannounced hplugged
      obtain ⟨hstop, hkept⟩ := h.stopped e hengine
      have hi := hstop (.inl ha)
      obtain ⟨data, hd, hreceived⟩ := hkept hi
      unfold held at hread
      rw [htengine] at hread hlog
      simp only [hi, if_true, hreceived] at hread
      have hopen : t.Open chunks := ⟨hlinked, hplugged, hnonempty, by simpa using hlog⟩
      refine hopen.restartInput hd hread htengine hi hreceived hr ?_
      rw [ht]
      exact hroom e hengine ha

theorem Sound.take (h : s.Sound) : s.take.Sound := by
  obtain ⟨o, queue, hx⟩ : ∃ o queue, s.out.out.read = (o, queue) := ⟨_, _, rfl⟩
  have hqueue : queue.unfinished = s.out.out.unfinished ∧ s.out.written =
      (o.toList.filter fun m => !m.isDelimiter) ++ (queue.ready ++ queue.complete).filter fun m => !m.isDelimiter := by
    unfold written
    cases hready : s.out.out.ready with
    | nil =>
      rw [Staged.read_nil hready] at hx
      cases hx
      simp [hready]
    | cons m rest =>
      rw [Staged.read_cons hready] at hx
      cases hx
      cases hm : m.isDelimiter <;> simp [hm]
  have htake : s.take = { s with
      out := { s.out with out := queue }, taken := s.taken ++ o.toList.filter fun m => !m.isDelimiter } := by
    unfold RawConnection.take
    rw [hx]
  have hall : s.take.taken ++ s.take.out.written = s.taken ++ s.out.written := by
    rw [htake, hqueue.2, ← append_assoc]
    rfl
  have hpart : s.take.out.part = s.out.part := by
    rw [htake]
    unfold part
    rw [hqueue.1]
  have hself : s.take.out.self = s.out.self := by rw [htake]
  have hengine : s.take.engine = s.engine := by rw [htake]
  refine ⟨⟨hself ▸ h.active, hself ▸ h.outpipe, hpart.trans h.part⟩, fun e he => ?_, fun hp => ?_, fun hp => ?_⟩
  · exact h.stopped e (hengine ▸ he)
  · rw [hall]
    exact h.idle (by exact hp)
  · unfold Announced
    rw [hall]
    exact h.announced (by exact hp)

theorem Start.sound (h : s.Start) : s.Sound where
  active := h.active
  outpipe := h.outpipe
  part := by
    unfold part
    rw [if_neg h.outpipe, h.unfinished]
  stopped e he := nomatch h.engine.symm.trans he
  idle _ := ⟨h.engine, h.read, h.before⟩
  announced hp := nomatch h.plugged.symm.trans hp

theorem Sound.run {op : Op} (h : s.Sound) (hready : s.Ready op) (hroom : s.Room op) : ∃ s', s.run op = .ok s' ∧ s'.Sound := by
  cases op with
  | plug r => exact h.plug hready hroom
  | inEvent r => exact h.inEvent hready hroom
  | activateWrite n r => exact h.activateWrite hready hroom
  | take => exact ⟨_, rfl, h.take⟩

theorem run_sound {ops : List Op} (h : Run Start (Guarded Room Step) ops s) : s.Sound :=
  h.invariant Sound (fun _ h0 => h0.sound) fun _ _ _ hI hs => by
    obtain ⟨hroom, hready, hrun⟩ := hs
    obtain ⟨t, ht, hsound⟩ := hI.run hready hroom
    cases hrun.symm.trans ht
    exact hsound

/-- When there is room for the notifications, a connection is announced, its bytes arrive, and its end is announced,
wherever the pipe is full in between. -/
theorem announces_connection {ops : List Op} (h : Run Start (Guarded Room Step) ops s) :
    (s.plugged = true → s.Announced) ∧ ∀ op, s.Ready op → s.Room op → ∃ s', s.run op = .ok s' :=
  ⟨(run_sound h).announced, fun _ hready hroom => ((run_sound h).run hready hroom).imp fun _ hs => hs.1⟩

def fresh (hwm : Int32) (before : List Msg) : RawConnection where
  out := ⟨{ PipeT.new 0 1 0 hwm with msgsWritten := .ofNat before.length }, { Staged.empty with ready := before }⟩
  engine := none
  taken := []
  plugged := false
  before := before
  read := []

theorem fresh_start (hwm : Int32) (before : List Msg) (hd : ∀ m ∈ before, m.isDelimiter = false) : (fresh hwm before).Start where
  active := rfl
  outpipe := Option.some_ne_none 1
  unfinished := rfl
  engine := rfl
  plugged := rfl
  before := by
    change (before ++ []).filter (fun m => !m.isDelimiter) = before
    rw [append_nil]
    exact filter_eq_self.mpr fun m hm => by simp [hd m hm]
  read := rfl

/-- Two messages fill the pipe; the third one waits, and when the socket has read the others the connection is lost. -/
theorem announces_connection_full : ∃ s : RawConnection,
    Run Start (Guarded Room Step) [.plug .again, .inEvent (.bytes [1, 2]), .inEvent (.bytes [3]), .take, .take,
      .activateWrite 2 .closed, .take, .take] s ∧
    s.engine = none ∧ s.taken = [notification, rawDecode [1, 2], rawDecode [3], notification] ∧ s.Announced :=
  exists_run (P := fun s => s.engine = none ∧ s.plugged = true ∧
      s.taken = [notification, rawDecode [1, 2], rawDecode [3], notification])
    (fresh_start 2 [] fun m hm => absurd hm not_mem_nil) (by decide)
    fun _ hs ⟨hengine, hplugged, htaken⟩ => ⟨hengine, htaken, (announces_connection hs).1 hplugged⟩

/-- The first notification fills the pipe, and there is no room for the last one. -/
theorem loss_unannounced : ¬ ∀ (ops : List Op) (s : RawConnection), Run Start Step ops s → s.plugged = true → s.Announced := by
  intro hall
  obtain ⟨s, hs, hx⟩ : ∃ s : RawConnection, Run Start (Guarded free Step) [.plug .again, .inEvent .closed, .take] s ∧
      (s.engine, s.plugged, s.taken, s.out.written, s.before) = (none, true, [notification], [], []) := by
    refine run_of_play (fresh_start 1 [] fun m hm => absurd hm not_mem_nil) ?_
    decide
  obtain ⟨hengine, hx⟩ := Prod.mk.inj hx
  obtain ⟨hplugged, hx⟩ := Prod.mk.inj hx
  obtain ⟨htaken, hx⟩ := Prod.mk.inj hx
  obtain ⟨hwritten, hbefore⟩ := Prod.mk.inj hx
  obtain ⟨chunks, -, -, hlog⟩ := hall _ s hs.unguarded hplugged
  rw [hengine, htaken, hwritten, hbefore] at hlog
  have hlength := congrArg length hlog
  simp at hlength

end RawConnection

end Zmq
