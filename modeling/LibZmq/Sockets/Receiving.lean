import LibZmq.Sockets.Framing

/-! Sockets that receive, with the pipes around them. Each frame in a pipe has the metadata of the connection it has
come from. -/

namespace Zmq

universe u v w x

/-- A call: something that happens around the receiver, or a receive after a number of polls. -/
inductive Call (ε : Type v) where
  | other (op : ε)
  | recv (polls : ℕ)

/-- A receiver that can be polled. -/
structure Receiver (σ : Type u) (ε : Type v) (β : Type w) (φ : Type x) where
  ready : σ → ε → Prop
  other : σ → ε → Except φ σ
  poll : σ → Except φ (Bool × σ)
  recv : σ → Except φ (Option β × σ)

def Receiver.polls {σ : Type u} {ε : Type v} {β : Type w} {φ : Type x} (c : Receiver σ ε β φ) : ℕ → σ → Except φ (List Bool × σ)
  | 0, s => .ok ([], s)
  | n + 1, s =>
    match c.poll s with
    | .error f => .error f
    | .ok (b, s) => (polls c n s).map fun x => (b :: x.1, x.2)

/-- The metadata of the frames that can be read from each pipe. -/
abbrev Marks (P M : Type) := P → List (Option M)

namespace Marks

variable {P M : Type}

/-- The metadata of the frame that has been read last from a pipe. -/
def last (marks : Marks P M) (before after : P → Inlet) (p : P) : Option M :=
  ((marks p)[(before p).frames.length - (after p).frames.length - 1]?).join

/-- Those of the frames that are left. -/
def rest (marks : Marks P M) (before after : P → Inlet) : Marks P M := fun p =>
  (marks p).drop ((before p).frames.length - (after p).frames.length)

end Marks

/-- The virtual functions of `socket_base_t` that are called for pipes and by the user, those that receive apart; `O` are
the options. -/
structure SocketBase (S P O φ : Type) where
  xattachPipe : S → Ends P → P → Except φ (S × Ends P)
  xreadActivated : S → Ends P → P → Except φ (S × Ends P)
  xwriteActivated : S → P → Except φ S
  xpipeTerminated : S → Ends P → P → Except φ S
  xsetsockopt : S → O → S
  xsend : S → Ends P → Msg → Except φ (S × Ends P)

/-- A socket and its pipes; `idMetadata` and `msgMetadata` are those of `prefetched_id` and `prefetched_msg`. -/
structure Served (S P M : Type) where
  socket : S
  ends : Ends P
  attached : Finset P
  marks : Marks P M
  idMetadata : Option M
  msgMetadata : Option M

namespace Served

open LoadBalancer (unattached)

variable {S P M O φ : Type}

def new (socket : S) : Served S P M :=
  ⟨socket, ⟨fun _ => ⟨false, []⟩, fun _ => unattached, fun _ => []⟩, ∅, fun _ => [], none, none⟩

inductive Op (P M O : Type) where
  | attach (pipe : P) (self : PipeT) (frames : List (Msg × Option M))
  | deliver (pipe : P) (frames : List (Msg × Option M))
  | drift (pipe : P) (outlet : Outlet)
  | readActivated (pipe : P)
  | writeActivated (pipe : P) (msgsRead : UInt64)
  | pipeTerminated (pipe : P)
  | xsetsockopt (option : O)
  | xsend (msg : Msg)

/-- What pipes keep to; `Contract` is about the frames that they deliver. -/
def Ready (Contract : List Msg → Prop) (s : Served S P M) : Op P M O → Prop
  | .attach p self frames => p ∉ s.attached ∧ self.checkWrite.1 = true ∧
      Contract ((frames.map Prod.fst).filter fun m => !m.isCredential)
  | .deliver p frames => p ∈ s.attached ∧ (s.ends.outlets p).self.readable = true ∧
      Contract ((frames.map Prod.fst).filter fun m => !m.isCredential)
  | .drift p o => o.self.readable = true → (s.ends.outlets p).self.readable = true
  | .readActivated p => p ∈ s.attached ∧ (s.ends.inlets p).inActive = false ∧ (s.ends.outlets p).self.readable = true
  | .writeActivated p _ => p ∈ s.attached ∧ (s.ends.outlets p).self.outActive = false ∧
      (s.ends.outlets p).self.state = .active
  | .pipeTerminated p => p ∈ s.attached
  | .xsetsockopt _ | .xsend _ => True

variable [DecidableEq P]

instance (Contract : List Msg → Prop) [DecidablePred Contract] (s : Served S P M) (op : Op P M O) :
    Decidable (s.Ready Contract op) := by
  cases op <;> unfold Ready <;> infer_instance

/-- The socket and the ends are those after a call, which may have read frames. -/
def after (s : Served S P M) (before : Ends P) (x : S × Ends P) : Served S P M :=
  { s with socket := x.1, ends := x.2, marks := s.marks.rest before.inlets x.2.inlets }

def run (base : SocketBase S P O φ) (s : Served S P M) : Op P M O → Except φ (Served S P M)
  | .attach p self frames =>
    let ends := ((s.ends.setInlet p ⟨true, frames.map Prod.fst⟩).setOutlet p ⟨self, Staged.empty⟩).setIdentity p []
    (base.xattachPipe s.socket ends p).map fun x =>
      after { s with attached := insert p s.attached, marks := Function.update s.marks p (frames.map Prod.snd) } ends x
  | .deliver p frames => .ok { s with
      ends := s.ends.setInlet p ⟨(s.ends.inlets p).inActive, (s.ends.inlets p).frames ++ frames.map Prod.fst⟩
      marks := Function.update s.marks p (s.marks p ++ frames.map Prod.snd) }
  | .drift p o => .ok { s with
      ends := (if o.self.readable then s.ends else s.ends.setInlet p ⟨false, []⟩).setOutlet p o }
  | .readActivated p =>
    let ends := s.ends.setInlet p ⟨true, (s.ends.inlets p).frames⟩
    (base.xreadActivated s.socket ends p).map fun x => s.after ends x
  | .writeActivated p n => (base.xwriteActivated s.socket p).map fun socket => { s with
      socket := socket
      ends := s.ends.setOutlet p { s.ends.outlets p with
        self := { (s.ends.outlets p).self with peersMsgsRead := n, outActive := true } } }
  | .pipeTerminated p => (base.xpipeTerminated s.socket s.ends p).map fun socket => { s with
      socket := socket, ends := s.ends.setOutlet p (s.ends.outlets p).closed, attached := s.attached.erase p }
  | .xsetsockopt option => .ok { s with socket := base.xsetsockopt s.socket option }
  | .xsend msg => (base.xsend s.socket s.ends msg).map fun x => s.after s.ends x

end Served

end Zmq
