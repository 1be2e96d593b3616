import LibZmq.Socks.Replies
import LibZmq.Tcp.TcpAddress

/-! `socks_connecter_t` with what its poller holds for it, and the events that come from the poller and from its owner, in every
order. What the system calls return comes with the events. -/

namespace Zmq

inductive SocksStatus where
  | unplugged
  | waitingForReconnectTime
  | waitingForProxyConnection
  | sendingGreeting
  | waitingForChoice
  | sendingRequest
  | waitingForResponse
deriving DecidableEq

def SocksStatus.Connected : SocksStatus → Prop
  | .unplugged | .waitingForReconnectTime => False
  | .waitingForProxyConnection | .sendingGreeting | .waitingForChoice | .sendingRequest | .waitingForResponse => True

instance (status : SocksStatus) : Decidable status.Connected := by
  cases status <;> unfold SocksStatus.Connected <;> infer_instance

structure PollEntry (F : Type) where
  fd : F
  pollin : Bool
  pollout : Bool

/-- `handle` and `timers` are what the poller holds, `engine` is the socket that has been handed over. -/
structure SocksConnecterT (F : Type) where
  address : List UInt8
  delayedStart : Bool
  reconnectIvl : Int32
  reconnectIvlMax : Int32
  greetingEncoder : SocksEncoderT
  choiceDecoder : SocksChoiceDecoderT
  requestEncoder : SocksEncoderT
  responseDecoder : SocksResponseDecoderT
  status : SocksStatus
  s : Option F
  currentReconnectIvl : Int32
  handle : Option (PollEntry F)
  timers : List (Int32 × ℤ)
  engine : Option F

inductive ConnectOutcome (F : Type) where
  | unopened
  | unbound (fd : F)
  | refused (fd : F)
  | inProgress (fd : F)
  | connected (fd : F)

inductive ConnectRc where
  | ok | einprogress
  | failed

namespace SocksConnecterT

variable {F : Type}

def reconnectTimerId : ℤ := 1

def new (address : List UInt8) (delayedStart : Bool) (reconnectIvl reconnectIvlMax : Int32) : SocksConnecterT F :=
  ⟨address, delayedStart, reconnectIvl, reconnectIvlMax, .new, .new, .new, .new, .unplugged, none, reconnectIvl, none, [], none⟩

/-- The hostname and the port behind the last colon; `none` is -1. -/
def parseAddress (address : List UInt8) : Option (List UInt8 × UInt16) :=
  (splitLast 58 address).bind fun (hostname, portStr) =>
    let port := UInt16.ofInt (atoi portStr)
    if port = 0 then none else some (stripBrackets hostname, port)

variable (c : SocksConnecterT F)

/-- `clock` and `rand` apart; the sum is unsigned. -/
def getNewReconnectIvl (random : UInt32) : Except SocksFault (Int32 × SocksConnecterT F) :=
  if c.reconnectIvl = 0 then .error .divisionByZero
  else .ok ((c.currentReconnectIvl.toUInt32 + random % c.reconnectIvl.toUInt32).toInt32,
    { c with
      currentReconnectIvl :=
        if 0 < c.reconnectIvlMax ∧ c.reconnectIvl < c.reconnectIvlMax then min (c.currentReconnectIvl * 2) c.reconnectIvlMax
        else c.currentReconnectIvl })

def startTimer (random : UInt32) : Except SocksFault (SocksConnecterT F) :=
  (c.getNewReconnectIvl random).map fun (interval, c) =>
    { c with timers := c.timers ++ [(interval, reconnectTimerId)], status := .waitingForReconnectTime }

def close : Except SocksFault (SocksConnecterT F) :=
  if c.s.isNone then .error .assertion else .ok { c with s := none }

def rmFd : Except SocksFault (SocksConnecterT F) :=
  if c.handle.isNone then .error .unregistered else .ok { c with handle := none }

def addFd (fd : F) : SocksConnecterT F := { c with handle := some ⟨fd, false, false⟩ }

def poll (pollin pollout : Bool) : Except SocksFault (SocksConnecterT F) :=
  match c.handle with
  | none => .error .unregistered
  | some entry => .ok { c with handle := some ⟨entry.fd, pollin, pollout⟩ }

def error (random : UInt32) : Except SocksFault (SocksConnecterT F) :=
  c.rmFd.bind fun c => c.close.bind fun c =>
    startTimer { c with greetingEncoder := .new, choiceDecoder := .new, requestEncoder := .new, responseDecoder := .new } random

def connectToProxy (outcome : ConnectOutcome F) : Except SocksFault (ConnectRc × SocksConnecterT F) :=
  if c.s.isSome then .error .assertion
  else
    match outcome with
    | .unopened => .ok (.failed, c)
    | .unbound fd => (close { c with s := some fd }).map fun c => (.failed, c)
    | .refused fd => .ok (.failed, { c with s := some fd })
    | .inProgress fd => .ok (.einprogress, { c with s := some fd })
    | .connected fd => .ok (.ok, { c with s := some fd })

def register (status : SocksStatus) : Except SocksFault (SocksConnecterT F) :=
  match c.s with
  | none => .error .unregistered
  | some fd => ((c.addFd fd).poll false true).map fun c => { c with status := status }

def initiateConnect (outcome : ConnectOutcome F) (random : UInt32) : Except SocksFault (SocksConnecterT F) :=
  (c.connectToProxy outcome).bind fun (rc, c) =>
    match rc with
    | .ok => c.register .sendingGreeting
    | .einprogress => c.register .waitingForProxyConnection
    | .failed => (if c.s.isSome then c.close else .ok c).bind fun c => c.startTimer random

def processPlug (outcome : ConnectOutcome F) (random : UInt32) : Except SocksFault (SocksConnecterT F) :=
  if c.delayedStart then c.startTimer random else c.initiateConnect outcome random

def processTerm : Except SocksFault (SocksConnecterT F) :=
  match c.status with
  | .unplugged => .ok c
  | .waitingForReconnectTime =>
    match c.timers.find? (·.2 = reconnectTimerId) with
    | none => .error .assertion
    | some _ => .ok { c with timers := c.timers.eraseP (·.2 = reconnectTimerId) }
  | _ => c.rmFd.bind fun c => if c.s.isSome then c.close else .ok c

/-- `process_server_response` for a choice, and what follows. -/
def chosen (getaddrinfo : List UInt8 → NumericHost) (c : SocksConnecterT F) (choice : SocksChoiceT) (random : UInt32) :
    Except SocksFault (SocksConnecterT F) :=
  if choice.method ≠ 0 then c.error random
  else
    match parseAddress c.address with
    | none => c.error random
    | some (hostname, port) =>
      (socksRequestT 1 hostname port).bind fun request =>
        (poll { c with requestEncoder := request.encode getaddrinfo } false true).map fun c => { c with status := .sendingRequest }

/-- `process_server_response` for a response, and what follows. -/
def answered (response : SocksResponseT) (random : UInt32) : Except SocksFault (SocksConnecterT F) :=
  if response.responseCode ≠ 0 then c.error random
  else c.rmFd.map fun c => { c with engine := c.s, s := none, status := .unplugged }

/-- What follows a read of the choice. -/
def choiceRead (getaddrinfo : List UInt8 → NumericHost) (c : SocksConnecterT F) (rc : ℤ) (decoder : SocksChoiceDecoderT)
    (random : UInt32) : Except SocksFault (SocksConnecterT F) :=
  let c := { c with choiceDecoder := decoder }
  if rc = 0 ∨ rc = -1 then c.error random
  else if decoder.messageReady then decoder.decode.bind fun choice => c.chosen getaddrinfo choice random
  else .ok c

def responseRead (rc : ℤ) (decoder : SocksResponseDecoderT) (random : UInt32) :
    Except SocksFault (SocksConnecterT F) :=
  let c := { c with responseDecoder := decoder }
  if rc = 0 ∨ rc = -1 then c.error random
  else decoder.messageReady.bind fun ready =>
    if ready then decoder.decode.bind fun response => c.answered response random
    else .ok c

def inEvent (getaddrinfo : List UInt8 → NumericHost) (c : SocksConnecterT F) (data : Option (List UInt8)) (random : UInt32) :
    Except SocksFault (SocksConnecterT F) :=
  match c.status with
  | .unplugged | .waitingForReconnectTime => .error .assertion
  | .waitingForChoice => (c.choiceDecoder.input data).bind fun x => c.choiceRead getaddrinfo x.1 x.2 random
  | .waitingForResponse => (c.responseDecoder.input data).bind fun x => c.responseRead x.1 x.2 random
  | .waitingForProxyConnection | .sendingGreeting | .sendingRequest => c.error random

def proxyChecked (connected : Bool) (random : UInt32) : Except SocksFault (SocksConnecterT F) :=
  if connected then .ok { c with greetingEncoder := SocksGreetingT.encode ⟨[0]⟩, status := .sendingGreeting }
  else c.error random

/-- The end of `out_event` in the two sending states: an error, or the next state once all has been sent. -/
def sent (rc : ℤ) (pending : Bool) (next : SocksStatus) (random : UInt32) :
    Except SocksFault (SocksConnecterT F) :=
  if rc = -1 ∨ rc = 0 then c.error random
  else if pending then .ok c
  else (c.poll true false).map fun c => { c with status := next }

def sendGreeting (rc : ℤ) (random : UInt32) : Except SocksFault (SocksConnecterT F) :=
  if !c.greetingEncoder.hasPendingData then .error .assertion
  else
    let encoder := c.greetingEncoder.output rc
    sent { c with greetingEncoder := encoder } rc encoder.hasPendingData .waitingForChoice random

def sendRequest (rc : ℤ) (random : UInt32) : Except SocksFault (SocksConnecterT F) :=
  if !c.requestEncoder.hasPendingData then .error .assertion
  else
    let encoder := c.requestEncoder.output rc
    sent { c with requestEncoder := encoder } rc encoder.hasPendingData .waitingForResponse random

/-- `connected` is whether `check_proxy_connection` has found no error, `rc` is what `tcp_write` returns. -/
def outEvent (connected : Bool) (rc : ℤ) (random : UInt32) : Except SocksFault (SocksConnecterT F) :=
  match c.status with
  | .waitingForProxyConnection => c.proxyChecked connected random
  | .sendingGreeting => c.sendGreeting rc random
  | .sendingRequest => c.sendRequest rc random
  | .unplugged | .waitingForReconnectTime | .waitingForChoice | .waitingForResponse => .error .assertion

def timerEvent (id : ℤ) (outcome : ConnectOutcome F) (random : UInt32) : Except SocksFault (SocksConnecterT F) :=
  if c.status ≠ .waitingForReconnectTime then .error .assertion
  else if id ≠ reconnectTimerId then .error .assertion
  else c.initiateConnect outcome random

end SocksConnecterT

end Zmq
