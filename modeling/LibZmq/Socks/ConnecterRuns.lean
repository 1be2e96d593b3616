import LibZmq.Socks.SocksConnecter

/-! Runs of a `socks_connecter_t`: its owner plugs it in and terminates it, connects end in every way, and its poller reports events
in every order. -/

namespace Zmq

open Bool Except SocksResponseDecoderT

def SocksFault.Other : SocksFault → Prop
  | .assertion | .unregistered => False
  | .longHostname | .outOfBounds | .divisionByZero => True

structure SocksConnection (F : Type) where
  connecter : SocksConnecterT F
  plugged : Bool
  terminated : Bool

namespace SocksConnecterT

variable {F : Type}

def asks (c : SocksConnecterT F) : ℕ :=
  match c.status with
  | .waitingForChoice => 2 - c.choiceDecoder.buf.length
  | .waitingForResponse => c.responseDecoder.request.toOption.getD 0
  | _ => 0

def offers (c : SocksConnecterT F) : ℕ :=
  match c.status with
  | .sendingGreeting => c.greetingEncoder.buf.length - c.greetingEncoder.bytesWritten
  | .sendingRequest => c.requestEncoder.buf.length - c.requestEncoder.bytesWritten
  | _ => 0

end SocksConnecterT

namespace SocksConnection

variable {F : Type}

inductive Op (F : Type) where
  | processPlug (outcome : ConnectOutcome F) (random : UInt32)
  | processTerm
  | inEvent (data : Option (List UInt8)) (random : UInt32)
  | outEvent (connected : Bool) (rc : ℤ) (random : UInt32)
  | timerEvent (id : ℤ) (outcome : ConnectOutcome F) (random : UInt32)

/-- A poller reports a socket that is registered, also when it is not polled for input (an error), and for output only when it is
polled for that. -/
def Ready (s : SocksConnection F) : Op F → Prop
  | .processPlug _ _ => s.plugged = false
  | .processTerm => s.plugged = true ∧ s.terminated = false
  | .inEvent data _ => s.connecter.handle.isSome = true ∧ ∀ xs ∈ data, xs.length ≤ s.connecter.asks
  | .outEvent _ rc _ => (∃ entry ∈ s.connecter.handle, entry.pollout = true) ∧ -1 ≤ rc ∧ rc ≤ s.connecter.offers
  | .timerEvent id _ _ => ∃ timer ∈ s.connecter.timers, timer.2 = id

instance (s : SocksConnection F) (op : Op F) : Decidable (s.Ready op) := by
  cases op <;> unfold Ready <;> infer_instance

def run (getaddrinfo : List UInt8 → NumericHost) (s : SocksConnection F) : Op F → Except SocksFault (SocksConnection F)
  | .processPlug outcome random => (s.connecter.processPlug outcome random).map fun c => { s with connecter := c, plugged := true }
  | .processTerm => s.connecter.processTerm.map fun c => { s with connecter := c, terminated := true }
  | .inEvent data random => (s.connecter.inEvent getaddrinfo data random).map fun c => { s with connecter := c }
  | .outEvent connected rc random => (s.connecter.outEvent connected rc random).map fun c => { s with connecter := c }
  | .timerEvent id outcome random =>
    (SocksConnecterT.timerEvent { s.connecter with timers := s.connecter.timers.eraseP (·.2 = id) } id outcome random).map fun c =>
      { s with connecter := c }

def Start (s : SocksConnection F) : Prop :=
  ∃ address delayedStart reconnectIvl reconnectIvlMax, s = ⟨.new address delayedStart reconnectIvl reconnectIvlMax, false, false⟩

abbrev Step (getaddrinfo : List UInt8 → NumericHost) : SocksConnection F → Op F → SocksConnection F → Prop :=
  Does Ready (run getaddrinfo)

/-- What is promised of the states: there is something to send where something is being sent, the socket is registered in the five
connected states until the connecter is terminated, and no event fails because of the state it is in. -/
structure Steady (getaddrinfo : List UInt8 → NumericHost) (s : SocksConnection F) : Prop where
  greeting : s.connecter.status = .sendingGreeting → s.connecter.greetingEncoder.hasPendingData = true
  request : s.connecter.status = .sendingRequest → s.connecter.requestEncoder.hasPendingData = true
  registered : s.terminated = false → (s.connecter.handle.isSome = true ↔ s.connecter.status.Connected)
  socket : ∀ entry ∈ s.connecter.handle, s.connecter.s = some entry.fd
  events : ∀ op fault, s.Ready op → s.run getaddrinfo op = .error fault → fault.Other

/-- No connect succeeds at once. -/
def Keeps (s : SocksConnection F) : Op F → Prop
  | .processPlug (.connected _) _ => s.connecter.delayedStart = true
  | .timerEvent _ (.connected _) _ => False
  | _ => True

instance (s : SocksConnection F) (op : Op F) : Decidable (s.Keeps op) := by
  unfold Keeps
  split <;> infer_instance

end SocksConnection

/-! Each event leads from one stage to another, or to a fault that the stage has no part in. -/

namespace SocksConnecterT

open SocksResponseDecoderT (Rejects)

variable {F : Type}

structure Idle (c : SocksConnecterT F) : Prop where
  s : c.s = none
  handle : c.handle = none

structure Linked (c : SocksConnecterT F) (pollin pollout : Bool) : Prop where
  socket : ∃ fd, c.s = some fd ∧ c.handle = some ⟨fd, pollin, pollout⟩
  timers : c.timers = []

structure Reset (c : SocksConnecterT F) : Prop where
  greeting : c.greetingEncoder = .new
  choice : c.choiceDecoder = .new
  request : c.requestEncoder = .new
  response : c.responseDecoder = .new

inductive Stage (c : SocksConnecterT F) : Prop where
  | unplugged (hstatus : c.status = .unplugged) (hidle : c.Idle) (htimers : c.timers = [])
  | waitingForReconnectTime (hstatus : c.status = .waitingForReconnectTime) (hidle : c.Idle)
      (htimers : ∃ interval, c.timers = [(interval, reconnectTimerId)]) (hreset : c.Reset)
  | waitingForProxyConnection (hstatus : c.status = .waitingForProxyConnection) (hlinked : c.Linked false true) (hreset : c.Reset)
  | sendingGreeting (hstatus : c.status = .sendingGreeting) (hlinked : c.Linked false true)
      (hpending : c.greetingEncoder.hasPendingData = true) (hchoice : c.choiceDecoder = .new) (hresponse : c.responseDecoder = .new)
  | waitingForChoice (hstatus : c.status = .waitingForChoice) (hlinked : c.Linked true false)
      (hchoice : c.choiceDecoder.buf.length < 2) (hresponse : c.responseDecoder = .new)
  | sendingRequest (hstatus : c.status = .sendingRequest) (hlinked : c.Linked false true)
      (hpending : c.requestEncoder.hasPendingData = true) (hresponse : c.responseDecoder = .new)
  | waitingForResponse (hstatus : c.status = .waitingForResponse) (hlinked : c.Linked true false)
      (hresponse : ¬ Rejects c.responseDecoder.buf)

def Returns (P : SocksConnecterT F → Prop) : Except SocksFault (SocksConnecterT F) → Prop
  | .ok c => P c
  | .error fault => fault.Other

variable {P : SocksConnecterT F → Prop} {c : SocksConnecterT F} {x : Except SocksFault (SocksConnecterT F)} {d : SocksResponseDecoderT}
    {id : ℤ}
  {getaddrinfo : List UInt8 → NumericHost} {pollin pollout connected : Bool} {random : UInt32} {outcome : ConnectOutcome F}
  {data : Option (List UInt8)} {rc : ℤ} {fd : F}

theorem Linked.close (h : c.Linked pollin pollout) : c.rmFd.bind close = .ok { c with handle := none, s := none } := by
  obtain ⟨fd, hs, hhandle⟩ := h.socket
  unfold rmFd
  rw [hhandle]
  rw [hs]
  rfl

theorem Linked.poll (h : c.Linked pollin pollout) (pollin' pollout' : Bool) :
    ∃ c', c.poll pollin' pollout' = .ok c' ∧ c'.Linked pollin' pollout' ∧ c'.choiceDecoder = c.choiceDecoder ∧
      c'.requestEncoder = c.requestEncoder ∧ c'.responseDecoder = c.responseDecoder := by
  obtain ⟨fd, hs, hhandle⟩ := h.socket
  unfold SocksConnecterT.poll
  rw [hhandle]
  exact ⟨_, rfl, ⟨⟨fd, hs, rfl⟩, h.timers⟩, rfl, rfl, rfl⟩

theorem startTimer_returns (hidle : c.Idle) (htimers : c.timers = []) (hreset : c.Reset) : Returns Stage (c.startTimer random) := by
  unfold startTimer getNewReconnectIvl
  by_cases hzero : c.reconnectIvl = 0
  · rw [if_pos hzero]
    exact trivial
  · rw [if_neg hzero]
    refine .waitingForReconnectTime rfl ⟨hidle.s, hidle.handle⟩ ⟨(c.currentReconnectIvl.toUInt32 + random % c.reconnectIvl.toUInt32).toInt32, ?_⟩
      ⟨hreset.greeting, hreset.choice, hreset.request, hreset.response⟩
    rw [htimers]
    rfl

theorem error_returns (h : c.Linked pollin pollout) : Returns Stage (c.error random) := by
  have hclose := h.close
  unfold SocksConnecterT.error
  cases hrm : c.rmFd with
  | error fault =>
    rw [hrm] at hclose
    exact nomatch hclose
  | ok c1 =>
    rw [hrm] at hclose
    change c1.close = _ at hclose
    change Returns Stage (c1.close.bind _)
    rw [hclose]
    exact startTimer_returns ⟨rfl, rfl⟩ h.timers ⟨rfl, rfl, rfl, rfl⟩

theorem initiateConnect_returns (hidle : c.Idle) (htimers : c.timers = []) (hreset : c.Reset)
    (houtcome : ∀ fd, outcome ≠ .connected fd) : Returns Stage (c.initiateConnect outcome random) := by
  unfold initiateConnect connectToProxy
  rw [hidle.s]
  cases outcome with
  | connected fd => exact absurd rfl (houtcome fd)
  | inProgress fd => exact .waitingForProxyConnection rfl ⟨⟨fd, rfl, rfl⟩, htimers⟩ ⟨hreset.greeting, hreset.choice, hreset.request, hreset.response⟩
  | unopened =>
    change Returns Stage (bind (if c.s.isSome then _ else _) _)
    rw [hidle.s]
    exact startTimer_returns hidle htimers hreset
  | unbound fd | refused fd => exact startTimer_returns ⟨rfl, hidle.handle⟩ htimers ⟨hreset.greeting, hreset.choice, hreset.request, hreset.response⟩

theorem initiateConnect_connected (hidle : c.Idle) (hreset : c.Reset) (fd : F) (random : UInt32) :
    ∃ c', c.initiateConnect (.connected fd) random = .ok c' ∧ c'.status = .sendingGreeting ∧
      c'.greetingEncoder.hasPendingData = false := by
  unfold initiateConnect connectToProxy
  rw [hidle.s]
  refine ⟨_, rfl, rfl, ?_⟩
  rw [hreset.greeting]
  rfl

theorem chosen_returns (h : c.Linked true false) (hresponse : c.responseDecoder = .new) {choice : SocksChoiceT} :
    Returns Stage (c.chosen getaddrinfo choice random) := by
  unfold chosen
  split_ifs
  · exact error_returns h
  · split
    · exact error_returns h
    · rename_i hostname port _
      unfold socksRequestT
      split_ifs with hbounded
      · have hlinked : Linked { c with requestEncoder := SocksRequestT.encode getaddrinfo ⟨1, hostname, port, hbounded⟩ } true false :=
          ⟨h.socket, h.timers⟩
        obtain ⟨c', hpoll, hlinked', -, hrequest, hresponse'⟩ := hlinked.poll false true
        change Returns Stage (Except.map _ (SocksConnecterT.poll _ false true))
        rw [hpoll]
        refine .sendingRequest rfl ⟨hlinked'.socket, hlinked'.timers⟩ ?_ (hresponse'.trans hresponse)
        rw [hrequest]
        exact SocksRequestT.encode_pending _ _
      · exact trivial

theorem answered_returns (h : c.Linked true false) {response : SocksResponseT} : Returns Stage (c.answered response random) := by
  unfold answered
  split_ifs
  · exact error_returns h
  · obtain ⟨fd, hs, hhandle⟩ := h.socket
    unfold rmFd
    rw [hhandle]
    exact .unplugged rfl ⟨rfl, rfl⟩ h.timers

theorem choice_input {d : SocksChoiceDecoderT} (h : d.buf.length < 2) (hdata : ∀ xs ∈ data, xs.length ≤ 2 - d.buf.length) :
    ∃ rc d', d.input data = .ok (rc, d') ∧ d'.buf.length ≤ 2 := by
  unfold SocksChoiceDecoderT.input
  rw [if_neg (not_not.mpr h)]
  cases data with
  | none => exact ⟨_, _, rfl, Nat.le_of_lt h⟩
  | some xs =>
    cases xs with
    | nil => exact ⟨_, _, rfl, Nat.le_of_lt h⟩
    | cons x xs =>
      have hlength := hdata (x :: xs) rfl
      have hle : (d.buf ++ x :: xs).length ≤ 2 := by
        rw [List.length_append]
        omega
      dsimp only
      split_ifs
      · exact ⟨_, _, rfl, hle⟩
      · exact ⟨_, _, rfl, hle⟩

theorem response_input (h : ¬ Rejects d.buf) :
    d.input data = .error .outOfBounds ∨ ∃ rc d', d.input data = .ok (rc, d') ∧ (rc = 0 ∨ rc = -1 ∨ ¬ Rejects d'.buf) := by
  obtain ⟨n, hn⟩ := request_ok (headed_of_not_rejects h)
  have hrequest : d.request = .ok n := hn
  have hinput : ∀ x xs, d.input (some (x :: xs)) =
      if size < d.buf.length + (x :: xs).length then .error .outOfBounds
      else if Rejects (d.buf ++ x :: xs) then .ok (-1, ⟨d.buf ++ x :: xs⟩)
      else .ok ((x :: xs).length, ⟨d.buf ++ x :: xs⟩) := by
    intro x xs
    unfold input
    rw [hrequest]
    rfl
  cases data with
  | none =>
    unfold input
    rw [hrequest]
    exact .inr ⟨_, _, rfl, .inr (.inl rfl)⟩
  | some xs =>
    cases xs with
    | nil =>
      unfold input
      rw [hrequest]
      exact .inr ⟨_, _, rfl, .inl rfl⟩
    | cons x xs =>
      rw [hinput]
      split_ifs with hsize hrejects
      · exact .inl rfl
      · exact .inr ⟨_, _, rfl, .inr (.inl rfl)⟩
      · exact .inr ⟨_, _, rfl, .inr (.inr hrejects)⟩

theorem choiceRead_returns {d : SocksChoiceDecoderT} (hstatus : c.status = .waitingForChoice) (h : c.Linked true false)
    (hresponse : c.responseDecoder = .new) (hlength : d.buf.length ≤ 2) : Returns Stage (c.choiceRead getaddrinfo rc d random) := by
  have hlinked : Linked { c with choiceDecoder := d } true false := ⟨h.socket, h.timers⟩
  unfold choiceRead
  split_ifs with hrc hready
  · exact error_returns hlinked
  · unfold SocksChoiceDecoderT.decode
    rw [if_pos hready]
    exact chosen_returns hlinked hresponse
  · refine .waitingForChoice hstatus hlinked (Nat.lt_of_le_of_ne hlength fun htwo => hready ?_) hresponse
    exact decide_eq_true htwo

theorem responseRead_returns (hstatus : c.status = .waitingForResponse) (h : c.Linked true false)
    (hd : rc = 0 ∨ rc = -1 ∨ ¬ Rejects d.buf) : Returns Stage (c.responseRead rc d random) := by
  have hlinked : Linked { c with responseDecoder := d } true false := ⟨h.socket, h.timers⟩
  unfold responseRead
  split_ifs with hrc
  · exact error_returns hlinked
  · have hrejects : ¬ Rejects d.buf := (or_assoc.mpr hd).resolve_left hrc
    obtain ⟨ready, hready⟩ := messageReady_ok (headed_of_not_rejects hrejects)
    have hready' : d.messageReady = .ok ready := hready
    unfold decode
    rw [hready']
    cases ready with
    | true => exact answered_returns hlinked
    | false => exact .waitingForResponse hstatus hlinked hrejects

theorem inEvent_returns (h : c.Stage) (hhandle : c.handle.isSome = true) (hdata : ∀ xs ∈ data, xs.length ≤ c.asks) :
    Returns Stage (c.inEvent getaddrinfo data random) := by
  have hidle' : ¬ c.Idle := by
    intro hidle
    rw [hidle.handle] at hhandle
    exact nomatch hhandle
  unfold inEvent
  cases h with
  | unplugged hstatus hidle htimers | waitingForReconnectTime hstatus hidle htimers hreset => exact absurd hidle hidle'
  | waitingForProxyConnection hstatus hlinked hreset | sendingGreeting hstatus hlinked hpending hchoice hresponse | sendingRequest hstatus hlinked hpending hresponse =>
    rw [hstatus]
    exact error_returns hlinked
  | waitingForChoice hstatus hlinked hchoice hresponse =>
    unfold asks at hdata
    rw [hstatus] at hdata ⊢
    obtain ⟨rc, d, hinput, hlength⟩ := choice_input hchoice hdata
    rw [hinput]
    exact choiceRead_returns hstatus hlinked hresponse hlength
  | waitingForResponse hstatus hlinked hresponse =>
    rw [hstatus]
    rcases response_input hresponse with hinput | ⟨rc, d, hinput, hd⟩
    · rw [hinput]
      exact trivial
    · rw [hinput]
      exact responseRead_returns hstatus hlinked hd

theorem sent_returns {pending : Bool} {next : SocksStatus} (h : c.Linked false true) (hpending : pending = true → c.Stage)
    (hnext : ∀ c' : SocksConnecterT F, c'.Linked true false → c'.choiceDecoder = c.choiceDecoder →
      c'.responseDecoder = c.responseDecoder → c'.status = next → c'.Stage) : Returns Stage (c.sent rc pending next random) := by
  unfold sent
  split_ifs with hrc hp
  · exact error_returns h
  · exact hpending hp
  · obtain ⟨c', hpoll, hlinked, hchoice, -, hresponse⟩ := h.poll true false
    rw [hpoll]
    exact hnext _ ⟨hlinked.socket, hlinked.timers⟩ hchoice hresponse rfl

theorem outEvent_returns (h : c.Stage) (hhandle : ∃ entry ∈ c.handle, entry.pollout = true) :
    Returns Stage (c.outEvent connected rc random) := by
  have hidle' : ¬ c.Idle := by
    intro hidle
    obtain ⟨entry, hentry, -⟩ := hhandle
    rw [hidle.handle] at hentry
    exact nomatch hentry
  have hpollout : ¬ c.Linked true false := by
    intro hlinked
    obtain ⟨entry, hentry, hout⟩ := hhandle
    obtain ⟨fd, -, hfd⟩ := hlinked.socket
    rw [hfd] at hentry
    cases hentry
    exact nomatch hout
  unfold outEvent
  cases h with
  | unplugged hstatus hidle htimers | waitingForReconnectTime hstatus hidle htimers hreset => exact absurd hidle hidle'
  | waitingForChoice hstatus hlinked hchoice hresponse | waitingForResponse hstatus hlinked hresponse => exact absurd hlinked hpollout
  | waitingForProxyConnection hstatus hlinked hreset =>
    rw [hstatus]
    unfold proxyChecked
    split_ifs
    · exact .sendingGreeting rfl ⟨hlinked.socket, hlinked.timers⟩ (SocksGreetingT.encode_pending _) hreset.choice hreset.response
    · exact error_returns hlinked
  | sendingGreeting hstatus hlinked hpending hchoice hresponse =>
    rw [hstatus]
    unfold sendGreeting
    rw [hpending]
    refine sent_returns ⟨hlinked.socket, hlinked.timers⟩ (fun hp => ?_) fun c' hlinked' hchoice' hresponse' hnext => ?_
    · exact .sendingGreeting hstatus ⟨hlinked.socket, hlinked.timers⟩ hp hchoice hresponse
    · refine .waitingForChoice hnext hlinked' ?_ (hresponse'.trans hresponse)
      rw [hchoice'.trans hchoice]
      exact Nat.two_pos
  | sendingRequest hstatus hlinked hpending hresponse =>
    rw [hstatus]
    unfold sendRequest
    rw [hpending]
    refine sent_returns ⟨hlinked.socket, hlinked.timers⟩ (fun hp => ?_) fun c' hlinked' _ hresponse' hnext => ?_
    · exact .sendingRequest hstatus ⟨hlinked.socket, hlinked.timers⟩ hp hresponse
    · refine .waitingForResponse hnext hlinked' ?_
      rw [hresponse'.trans hresponse]
      decide

theorem Stage.timer (h : c.Stage) (htimer : ∃ timer ∈ c.timers, timer.2 = id) :
    c.status = .waitingForReconnectTime ∧ id = reconnectTimerId ∧ c.timers.eraseP (·.2 = id) = [] ∧ c.Idle ∧ c.Reset := by
  obtain ⟨timer, hmem, rfl⟩ := htimer
  have hlinked : ∀ {pollin pollout}, ¬ c.Linked pollin pollout := by
    intro pollin pollout hlinked
    rw [hlinked.timers] at hmem
    exact nomatch hmem
  cases h with
  | unplugged hstatus hidle htimers =>
    rw [htimers] at hmem
    exact nomatch hmem
  | waitingForReconnectTime hstatus hidle htimers hreset =>
    obtain ⟨interval, htimers⟩ := htimers
    rw [htimers] at hmem ⊢
    obtain rfl := List.mem_singleton.mp hmem
    exact ⟨hstatus, rfl, rfl, hidle, hreset⟩
  | waitingForProxyConnection hstatus h hreset | sendingGreeting hstatus h hpending hchoice hresponse | waitingForChoice hstatus h hchoice hresponse | sendingRequest hstatus h hpending hresponse | waitingForResponse hstatus h hresponse => exact absurd h hlinked

theorem timerEvent_eq (h : c.Stage) (htimer : ∃ timer ∈ c.timers, timer.2 = id) :
    timerEvent { c with timers := c.timers.eraseP (·.2 = id) } id outcome random =
      initiateConnect { c with timers := [] } outcome random := by
  obtain ⟨hstatus, hid, htimers, -, -⟩ := h.timer htimer
  unfold timerEvent
  rw [if_neg (not_not.mpr hstatus), if_neg (not_not.mpr hid), htimers]

theorem timerEvent_returns (h : c.Stage) (htimer : ∃ timer ∈ c.timers, timer.2 = id) (houtcome : ∀ fd, outcome ≠ .connected fd) :
    Returns Stage (timerEvent { c with timers := c.timers.eraseP (·.2 = id) } id outcome random) := by
  obtain ⟨-, -, -, hidle, hreset⟩ := h.timer htimer
  rw [timerEvent_eq h htimer]
  exact initiateConnect_returns ⟨hidle.s, hidle.handle⟩ rfl ⟨hreset.greeting, hreset.choice, hreset.request, hreset.response⟩ houtcome

structure Ended (c c' : SocksConnecterT F) : Prop where
  handle : c'.handle = none
  timers : c'.timers = []
  status : c'.status = c.status
  greeting : c'.greetingEncoder = c.greetingEncoder
  request : c'.requestEncoder = c.requestEncoder

theorem processTerm_ends (h : c.Stage) : ∃ c', c.processTerm = .ok c' ∧ Ended c c' := by
  have hlinked : ∀ {pollin pollout}, c.Linked pollin pollout →
      ∃ c', (c.rmFd.bind fun c => if c.s.isSome then c.close else .ok c) = .ok c' ∧ Ended c c' := by
    intro pollin pollout hlinked
    obtain ⟨fd, hs, hhandle⟩ := hlinked.socket
    unfold rmFd
    rw [hhandle]
    change ∃ c', (if c.s.isSome then close { c with handle := none } else _) = _ ∧ _
    unfold SocksConnecterT.close
    rw [hs]
    exact ⟨_, rfl, rfl, hlinked.timers, rfl, rfl, rfl⟩
  unfold processTerm
  cases h with
  | unplugged hstatus hidle htimers =>
    rw [hstatus]
    exact ⟨c, rfl, hidle.handle, htimers, rfl, rfl, rfl⟩
  | waitingForReconnectTime hstatus hidle htimers hreset =>
    obtain ⟨interval, htimers⟩ := htimers
    rw [hstatus]
    rw [htimers]
    exact ⟨_, rfl, hidle.handle, rfl, hstatus.symm, rfl, rfl⟩
  | waitingForProxyConnection hstatus h hreset | sendingGreeting hstatus h hpending hchoice hresponse | waitingForChoice hstatus h hchoice hresponse | sendingRequest hstatus h hpending hresponse | waitingForResponse hstatus h hresponse =>
    rw [hstatus]
    exact hlinked h

theorem Stage.greeting (h : c.Stage) (hs : c.status = .sendingGreeting) : c.greetingEncoder.hasPendingData = true := by
  cases h with
  | sendingGreeting hstatus hlinked hpending hchoice hresponse => exact hpending
  | unplugged hstatus | waitingForReconnectTime hstatus | waitingForProxyConnection hstatus | waitingForChoice hstatus | sendingRequest hstatus | waitingForResponse hstatus => exact nomatch hs.symm.trans hstatus

theorem Stage.request (h : c.Stage) (hs : c.status = .sendingRequest) : c.requestEncoder.hasPendingData = true := by
  cases h with
  | sendingRequest hstatus hlinked hpending hresponse => exact hpending
  | unplugged hstatus | waitingForReconnectTime hstatus | waitingForProxyConnection hstatus | sendingGreeting hstatus | waitingForChoice hstatus | waitingForResponse hstatus => exact nomatch hs.symm.trans hstatus

theorem Stage.idle_or_linked (h : c.Stage) : (¬ c.status.Connected ∧ c.Idle) ∨
    (c.status.Connected ∧ ∃ pollin pollout, c.Linked pollin pollout) := by
  cases h with
  | unplugged hstatus hidle | waitingForReconnectTime hstatus hidle => exact .inl ⟨by rw [hstatus]; exact id, hidle⟩
  | waitingForProxyConnection hstatus h | sendingGreeting hstatus h | waitingForChoice hstatus h | sendingRequest hstatus h | waitingForResponse hstatus h => exact .inr ⟨by rw [hstatus]; trivial, _, _, h⟩

theorem Stage.registered (h : c.Stage) : (c.handle.isSome = true ↔ c.status.Connected) ∧
    ∀ entry ∈ c.handle, c.s = some entry.fd := by
  rcases h.idle_or_linked with ⟨hstatus, hidle⟩ | ⟨hstatus, pollin, pollout, hlinked⟩
  · rw [hidle.handle]
    exact ⟨iff_of_false false_ne_true hstatus, fun entry hentry => nomatch hentry⟩
  · obtain ⟨fd, hs, hhandle⟩ := hlinked.socket
    rw [hhandle]
    refine ⟨iff_of_true rfl hstatus, fun entry hentry => ?_⟩
    cases hentry
    exact hs

end SocksConnecterT

namespace SocksConnection

open SocksConnecterT

variable {F : Type} {getaddrinfo : List UInt8 → NumericHost} {s s' : SocksConnection F} {c : SocksConnecterT F} {op : Op F}
  {ops : List (Op F)} {fault : SocksFault}

structure Sound (s : SocksConnection F) : Prop where
  live : s.terminated = false → s.connecter.Stage
  ended : s.terminated = true → s.plugged = true ∧ s.connecter.handle = none ∧ s.connecter.timers = []
  fresh : s.plugged = false → s.connecter.status = .unplugged ∧ s.connecter.Reset
  greeting : s.connecter.status = .sendingGreeting → s.connecter.greetingEncoder.hasPendingData = true
  request : s.connecter.status = .sendingRequest → s.connecter.requestEncoder.hasPendingData = true

theorem sound_of_stage (h : c.Stage) : Sound ⟨c, true, false⟩ :=
  ⟨fun _ => h, nofun, fun hp => absurd hp.symm false_ne_true, h.greeting, h.request⟩

theorem sound_of_ended (h : Sound s) (hc : Ended s.connecter c) : Sound ⟨c, true, true⟩ := by
  refine ⟨fun ht => absurd ht.symm false_ne_true, fun _ => ⟨rfl, hc.handle, hc.timers⟩,
    fun hp => absurd hp.symm false_ne_true, fun hs => ?_, fun hs => ?_⟩
  · rw [hc.greeting]
    exact h.greeting (hc.status.symm.trans hs)
  · rw [hc.request]
    exact h.request (hc.status.symm.trans hs)

theorem Sound.alive (h : Sound s) (hr : s.Ready op) :
    s.terminated = false ∧ ((∃ outcome random, op = .processPlug outcome random) ∨ s.plugged = true) := by
  have hheld : (∃ entry, s.connecter.handle = some entry) ∨ (∃ timer, timer ∈ s.connecter.timers) →
      s.terminated = false ∧ s.plugged = true := by
    intro hheld
    have hterminated : s.terminated = false := by
      cases ht : s.terminated with
      | false => rfl
      | true =>
        obtain ⟨-, hhandle, htimers⟩ := h.ended ht
        rw [hhandle, htimers] at hheld
        rcases hheld with ⟨entry, hentry⟩ | ⟨timer, htimer⟩
        · exact nomatch hentry
        · exact nomatch htimer
    refine ⟨hterminated, ?_⟩
    by_contra hplugged
    obtain ⟨hstatus, -⟩ := h.fresh (eq_false_iff.mpr hplugged)
    rcases hheld with ⟨entry, hentry⟩ | ⟨timer, htimer⟩
    · have hconnected := (h.live hterminated).registered.1.mp (by rw [hentry]; rfl)
      rw [hstatus] at hconnected
      exact hconnected
    · have htime := ((h.live hterminated).timer ⟨timer, htimer, rfl⟩).1
      exact nomatch hstatus.symm.trans htime
  cases op with
  | processPlug outcome random =>
    refine ⟨eq_false_iff.mpr fun ht => ?_, .inl ⟨_, _, rfl⟩⟩
    exact nomatch (h.ended ht).1.symm.trans hr
  | processTerm => exact ⟨hr.2, .inr hr.1⟩
  | inEvent data random =>
    obtain ⟨ht, hp⟩ := hheld (.inl (Option.isSome_iff_exists.mp hr.1))
    exact ⟨ht, .inr hp⟩
  | outEvent connected rc random =>
    obtain ⟨entry, hentry, -⟩ := hr.1
    obtain ⟨ht, hp⟩ := hheld (.inl ⟨entry, hentry⟩)
    exact ⟨ht, .inr hp⟩
  | timerEvent id outcome random =>
    obtain ⟨timer, htimer, -⟩ := hr
    obtain ⟨ht, hp⟩ := hheld (.inr ⟨timer, htimer⟩)
    exact ⟨ht, .inr hp⟩

theorem Sound.idle (h : Sound s) (ht : s.terminated = false) (hp : s.plugged = false) :
    s.connecter.Idle ∧ s.connecter.timers = [] ∧ s.connecter.Reset := by
  obtain ⟨hstatus, hreset⟩ := h.fresh hp
  have hstage := h.live ht
  cases hstage with
  | unplugged _ hidle htimers => exact ⟨hidle, htimers, hreset⟩
  | waitingForReconnectTime hs | waitingForProxyConnection hs | sendingGreeting hs | waitingForChoice hs | sendingRequest hs | waitingForResponse hs => exact nomatch hs.symm.trans hstatus

theorem Sound.event (h : Sound s) (hr : s.Ready op) (hk : s.Keeps op) (getaddrinfo : List UInt8 → NumericHost) :
    (∃ c, s.run getaddrinfo op = .ok ⟨c, true, true⟩ ∧ Ended s.connecter c) ∨
      ∃ x, Returns Stage x ∧ s.run getaddrinfo op = x.map fun c => ⟨c, true, false⟩ := by
  obtain ⟨ht, hplug⟩ := h.alive hr
  obtain ⟨connecter, plugged, terminated⟩ := s
  subst ht
  have hstage : connecter.Stage := h.live rfl
  cases op with
  | processPlug outcome random =>
    obtain rfl : plugged = false := hr
    obtain ⟨hidle, htimers, hreset⟩ := h.idle rfl rfl
    refine .inr ⟨_, ?_, rfl⟩
    unfold processPlug
    split_ifs with hdelayed
    · exact startTimer_returns hidle htimers hreset
    · refine initiateConnect_returns hidle htimers hreset fun fd hfd => hdelayed ?_
      rw [hfd] at hk
      exact hk
  | processTerm =>
    obtain rfl : plugged = true := hr.1
    obtain ⟨c, hc, hended⟩ := processTerm_ends hstage
    exact .inl ⟨c, congrArg (Except.map _) hc, hended⟩
  | inEvent data random =>
    obtain rfl : plugged = true := hplug.resolve_left (by rintro ⟨_, _, heq⟩; exact nomatch heq)
    exact .inr ⟨_, inEvent_returns hstage hr.1 hr.2, rfl⟩
  | outEvent connected rc random =>
    obtain rfl : plugged = true := hplug.resolve_left (by rintro ⟨_, _, heq⟩; exact nomatch heq)
    exact .inr ⟨_, outEvent_returns hstage hr.1, rfl⟩
  | timerEvent id outcome random =>
    obtain rfl : plugged = true := hplug.resolve_left (by rintro ⟨_, _, heq⟩; exact nomatch heq)
    refine .inr ⟨_, timerEvent_returns hstage hr fun fd hfd => ?_, rfl⟩
    rw [hfd] at hk
    exact hk

theorem Sound.immediate (h : Sound s) (hr : s.Ready op) (hk : ¬ s.Keeps op) (getaddrinfo : List UInt8 → NumericHost) :
    ∃ s', s.run getaddrinfo op = .ok s' ∧ s'.connecter.status = .sendingGreeting ∧
      s'.connecter.greetingEncoder.hasPendingData = false := by
  obtain ⟨ht, -⟩ := h.alive hr
  cases op with
  | processPlug outcome random =>
    cases outcome with
    | connected fd =>
      obtain ⟨hidle, -, hreset⟩ := h.idle ht hr
      obtain ⟨c, hc, hstatus, hpending⟩ := initiateConnect_connected hidle hreset fd random
      exact ⟨_, congrArg (Except.map _) ((if_neg hk).trans hc), hstatus, hpending⟩
    | _ => exact absurd trivial hk
  | timerEvent id outcome random =>
    cases outcome with
    | connected fd =>
      obtain ⟨-, -, -, hidle, hreset⟩ := (h.live ht).timer hr
      obtain ⟨c, hc, hstatus, hpending⟩ := initiateConnect_connected (c := { s.connecter with timers := [] })
        ⟨hidle.s, hidle.handle⟩ ⟨hreset.greeting, hreset.choice, hreset.request, hreset.response⟩ fd random
      exact ⟨_, congrArg (Except.map _) ((timerEvent_eq (h.live ht) hr).trans hc), hstatus, hpending⟩
    | _ => exact absurd trivial hk
  | processTerm | inEvent data random | outEvent connected rc random => exact absurd trivial hk

theorem Sound.step (h : Sound s) (hk : s.Keeps op) (hs : Step getaddrinfo s op s') : Sound s' := by
  rcases h.event hs.1 hk getaddrinfo with ⟨c, hc, hended⟩ | ⟨x, hx, hrun⟩
  · cases hs.2.symm.trans hc
    exact sound_of_ended h hended
  · obtain ⟨c, rfl, rfl⟩ := map_ok (hrun.symm.trans hs.2)
    exact sound_of_stage hx

theorem Sound.other (h : Sound s) (hr : s.Ready op) (hx : s.run getaddrinfo op = .error fault) : fault.Other := by
  by_cases hk : s.Keeps op
  · rcases h.event hr hk getaddrinfo with ⟨c, hc, -⟩ | ⟨x, hreturns, hrun⟩
    · exact nomatch hx.symm.trans hc
    · cases x with
      | ok c => exact nomatch hx.symm.trans hrun
      | error fault' =>
        cases hx.symm.trans hrun
        exact hreturns
  · obtain ⟨s', hs', -⟩ := h.immediate hr hk getaddrinfo
    exact nomatch hx.symm.trans hs'

theorem Sound.steady (h : Sound s) : Steady getaddrinfo s := by
  refine ⟨h.greeting, h.request, fun ht => (h.live ht).registered.1, fun entry hentry => ?_, fun op fault hr hx => h.other hr hx⟩
  cases ht : s.terminated with
  | false => exact (h.live ht).registered.2 entry hentry
  | true =>
    obtain ⟨-, hhandle, -⟩ := h.ended ht
    rw [hhandle] at hentry
    exact nomatch hentry

theorem run_sound (h : Run Start (Guarded Keeps (Step getaddrinfo)) ops s) : Sound s := by
  refine h.invariant Sound (fun s hs => ?_) fun _ _ _ hs hstep => hs.step hstep.1 hstep.2
  obtain ⟨address, delayedStart, reconnectIvl, reconnectIvlMax, rfl⟩ := hs
  refine ⟨fun _ => .unplugged rfl ⟨rfl, rfl⟩ rfl, nofun, fun _ => ⟨rfl, ⟨rfl, rfl, rfl, rfl⟩⟩, ?_, ?_⟩
  · exact nofun
  · exact nofun

/-- As long as no connect succeeds at once, whatever is being sent has been encoded, the socket is registered when it is to be, and no
event fails. A connect that succeeds at once leads to a state where nothing has been encoded. -/
theorem connecter_steady (h : Run Start (Guarded Keeps (Step getaddrinfo)) ops s) : Steady getaddrinfo s ∧
    ∀ op s', ¬ s.Keeps op → Step getaddrinfo s op s' → ¬ Steady getaddrinfo s' := by
  refine ⟨(run_sound h).steady, fun op s' hk hs hsteady => ?_⟩
  obtain ⟨s1, hs1, hstatus, hpending⟩ := (run_sound h).immediate hs.1 hk getaddrinfo
  cases hs.2.symm.trans hs1
  exact false_ne_true (hpending.symm.trans (hsteady.greeting hstatus))

def hostAddress : List UInt8 := [104, 111, 115, 116, 58, 56, 48]

def named (_ : List UInt8) : NumericHost := .other

/-- A proxy that refuses once, and then answers. -/
def proxyEvents : List (Op ℕ) :=
  [.processPlug (.refused 3) 0, .timerEvent 1 (.inProgress 4) 0, .outEvent true 0 0, .outEvent true 2 0, .outEvent true 1 0,
    .inEvent (some [5]) 0, .inEvent (some [0]) 0, .outEvent true 11 0, .inEvent (some [5, 0, 0, 1, 10]) 0,
    .inEvent (some [0, 0, 1, 31, 144]) 0]

theorem connecter_steady_proxy : ∃ s, Run Start (Guarded Keeps (Step named)) proxyEvents s ∧ s.connecter.engine = some 4 ∧
    Steady named s :=
  exists_run (P := fun s => s.connecter.engine = some 4) (s := ⟨.new hostAddress false 100 0, false, false⟩) ⟨_, _, _, _, rfl⟩
    (by decide) fun _ hs hengine => ⟨hengine, (connecter_steady hs).1⟩

/-- A connect that succeeds at once: the next event for output fails. -/
theorem connecter_can_fail : ∃ s : SocksConnection ℕ, Run Start (Step named) [.processPlug (.connected 3) 0] s ∧
    s.Ready (.outEvent true 0 0) ∧ s.run named (.outEvent true 0 0) = .error .assertion ∧ ¬ Steady named s := by
  refine exists_run_free (P := fun s => s.Ready (.outEvent true 0 0) ∧
    (s.run named (.outEvent true 0 0) matches .error .assertion) = true)
    (s := ⟨.new hostAddress false 100 0, false, false⟩) ⟨_, _, _, _, rfl⟩ (by decide) fun s _ ⟨hready, hfault⟩ => ?_
  have hfault' : s.run named (.outEvent true 0 0) = .error .assertion := by
    revert hfault
    split
    · rename_i heq
      exact fun _ => heq
    · exact nofun
  exact ⟨hready, hfault', fun h => h.events _ _ hready hfault'⟩

end SocksConnection

end Zmq
