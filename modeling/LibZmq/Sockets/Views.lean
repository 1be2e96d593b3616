import LibZmq.Pipe.Hiccup
import LibZmq.Sockets.Requester

/-! The pair of pipes as its two sockets see it: what a socket does to its end is what the
inlet and the outlet do, and the peer only adds frames to be read and takes frames written. -/

namespace Zmq

open List

namespace Outlet

def hiccup (o : Outlet) (pipe : ℕ) : Outlet :=
  if o.self.state = .active then { o with self := { o.self with inpipe := some pipe, inActive := true } } else o

/-- What `process_pipe_term` does; it asserts that there are no more states. -/
def pipeTerm (o : Outlet) : Outlet where
  self := match o.self.state with
    | .active =>
      if o.self.delay then { o.self with state := .waitingForDelimiter }
      else { o.self with outpipe := none, state := .termAckSent }
    | .delimiterReceived => { o.self with outpipe := none, state := .termAckSent }
    | .termReqSent1 => { o.self with outpipe := none, state := .termReqSent2 }
    | _ => o.self
  out := o.out

end Outlet

namespace Pair

open Link PipeT

def inlet (w : Pair) (s : Side) (p : PipeT) : Inlet := .of p (w.link.inq s)

def outlet (w : Pair) (s : Side) (p : PipeT) : Outlet := ⟨p, w.link.outq s⟩

section

variable (i : Inlet) (o : Outlet) (inbox : List Cmd)

/-- What the outlet is after a read that has kept the credential and found the frame. -/
inductive Reads : List UInt8 → Option Msg → Outlet → Prop
  | idle {c} (h : i.inActive = false) : Reads c none o
  | empty {c} (h : i.inActive = true) : Reads c none ⟨{ o.self with inActive := false, credential := c }, o.out⟩
  | delimiter {c} (h : i.inActive = true) : Reads c none (Outlet.mk { o.self with credential := c } o.out).delimited
  | frame {c m} (h : i.inActive = true) :
    Reads c (some m) ⟨{ o.self with credential := c, msgsRead := readCount o.self m }, o.out⟩

end

/-- Nothing is in a queue that its writer has not adopted yet. -/
def Blank (l : Link) : Prop := ∀ s, ∀ q ∈ (l.chan s).tail, q.items = []

variable {p p' : PipeT} {i o q : Staged Msg} {nx : ℕ} {op : Op} {r : Res} {c : Change} {sent : List Cmd} {l : Link} {s : Side}
    {evs : List Event}

theorem of_closed (hr : p.readable = false) : Inlet.of p i = ⟨false, []⟩ := by simp [Inlet.of, hr]

def twoMessages : Pair := (pipepair fun _ => 2).attach (fun _ => 0) fun _ => 0

def toRead (w : Pair) (s : Side) : Option (List Msg) := (w.ends s).map fun p => (w.outlet s p).written

end Pair

end Zmq
