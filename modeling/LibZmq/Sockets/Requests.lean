import LibZmq.Sockets.Manual

/-! A publisher in manual mode, with what its user is to receive: requests, each with the pipe it came
from, and other messages. The pipe of a request is kept in a queue of its own. -/

namespace Zmq

open List

namespace XpubT

open XpubFault MtrieT

variable {P : Type} {x x' : XpubT P} {pipe p : P}

/-- The pipe of a request, `none` for another message. -/
def origin (pipe : P) (m : Msg) : Option (Option P) :=
  match m.data with
  | [] => none
  | c :: _ => if c = 0 ∨ c = 1 then some (some pipe) else none

/-- The data that the user is to receive. -/
def waiting (x : XpubT P) : List (List UInt8) := x.pending.map Prod.fst

variable [DecidableEq P] {subs : List Msg} {w w' : P → Outlet} {rc : Bool}

theorem readOne_queue {sub : Msg} (hm : x.manual = true) (hx : x.readOne pipe sub = .ok x') :
    x'.manual = true ∧ x'.pub = x.pub ∧ x'.waiting = x.waiting ++ [sub.data] ∧
      x'.pendingPipes = x.pendingPipes ++ (origin pipe sub).toList := by
  unfold readOne at hx
  unfold origin
  cases hd : sub.data with
  | nil =>
    simp only [hd] at hx
    cases hx
    exact ⟨hm, rfl, by simp [waiting], by simp⟩
  | cons c topic =>
    simp only [hd] at hx
    dsimp only
    split_ifs at hx ⊢ with hc
    · obtain ⟨⟨b, t⟩, -, hx⟩ := bind_ok hx
      cases hx
      exact ⟨hm, rfl, by simp [waiting], rfl⟩
    · cases hx
      exact ⟨hm, rfl, by simp [waiting], by simp⟩

theorem xreadActivated_queue (hm : x.manual = true) (hx : x.xreadActivated pipe subs = .ok x') :
    x'.manual = true ∧ x'.pub = x.pub ∧ x'.waiting = x.waiting ++ subs.map Msg.data ∧
      x'.pendingPipes = x.pendingPipes ++ subs.filterMap (origin pipe) := by
  induction subs generalizing x with
  | nil =>
    cases hx
    exact ⟨hm, rfl, by simp, by simp⟩
  | cons sub subs ih =>
    obtain ⟨y, h1, hx⟩ := bind_ok hx
    obtain ⟨hm1, hpub1, hw1, hp1⟩ := readOne_queue hm h1
    obtain ⟨hm2, hpub2, hw2, hp2⟩ := ih hm1 hx
    refine ⟨hm2, hpub2.trans hpub1, ?_, ?_⟩
    · rw [hw2, hw1, append_assoc, map_cons, singleton_append]
    · rw [hp2, hp1]
      cases ho : origin pipe sub with
      | none | some o => simp [ho]

theorem xattachPipe_queue {all : Bool} (hm : x.manual = true) (hx : x.xattachPipe w pipe all subs = .ok (x', w')) :
    x'.manual = true ∧ x'.pub = x.pub ∧ x'.waiting = x.waiting ++ subs.map Msg.data ∧
      x'.pendingPipes = x.pendingPipes ++ subs.filterMap (origin pipe) := by
  obtain ⟨t, -, hx⟩ := bind_ok hx
  obtain ⟨y, hy, hx⟩ := bind_ok hx
  cases hx
  exact @xreadActivated_queue _ { x with dist := x.dist.attach pipe, subscriptions := t } _ _ _ _ hm hy

theorem xpipeTerminated_queue (hm : x.manual = true) (hpub : x.pub = false) (hx : x.xpipeTerminated pipe = .ok x') :
    x'.manual = true ∧ x'.pub = false ∧ ∃ data : List (List UInt8),
      x'.waiting = x.waiting ++ data ∧ x'.pendingPipes = x.pendingPipes ++ replicate data.length none := by
  obtain ⟨y, hy, hx⟩ := bind_ok hx
  cases hx
  unfold unsubscribe at hy
  rw [if_pos hm] at hy
  obtain ⟨⟨calls, t⟩, -, hy⟩ := bind_ok hy
  cases hy
  rw [foldl_sendUnsubscription_eq]
  dsimp only
  rw [hpub, if_pos hm]
  refine ⟨hm, rfl, calls.map fun topic => 0 :: topic, ?_, ?_⟩
  · simp [waiting, Function.comp_def]
  · simp

theorem xsetsockopt_queue {opt : XpubOption} (hopt : ∀ on, opt = .manual on → on = true)
    (hm : x.manual = true) (hx : x.xsetsockopt opt = .ok (rc, x')) :
    x'.manual = true ∧ x'.pub = x.pub ∧ x'.waiting = x.waiting ∧ x'.pendingPipes = x.pendingPipes := by
  unfold xsetsockopt at hx
  cases opt with
  | verbose on | verboser on | nodrop on | welcomeMsg data =>
    cases hx
    exact ⟨hm, rfl, rfl, rfl⟩
  | manual on =>
    cases hx
    exact ⟨hopt on rfl, rfl, rfl, rfl⟩
  | subscribe topic | unsubscribe topic =>
    dsimp only at hx
    rw [if_pos hm] at hx
    split at hx
    · cases hx
      exact ⟨hm, rfl, rfl, rfl⟩
    · obtain ⟨⟨b, t⟩, -, hx⟩ := bind_ok hx
      cases hx
      exact ⟨hm, rfl, rfl, rfl⟩

theorem xsend_queue {m : Msg} {calls : List P} (hx : x.xsend w m calls = .ok (rc, x', w')) :
    x'.manual = x.manual ∧ x'.pub = x.pub ∧ x'.waiting = x.waiting ∧ x'.pendingPipes = x.pendingPipes := by
  obtain ⟨d, -, hx⟩ := bind_ok hx
  dsimp only at hx
  split at hx
  · obtain ⟨⟨d', w1⟩, -, hx⟩ := bind_ok hx
    cases hx
    exact ⟨rfl, rfl, rfl, rfl⟩
  · cases hx
    exact ⟨rfl, rfl, rfl, rfl⟩

end XpubT

structure Requests (P : Type) where
  pub : Publisher P
  /-- what the user is to receive; a request has the pipe it came from, `some none` when it was made
  by a termination -/
  queue : List (List UInt8 × Option (Option P))

namespace Requests

open XpubT Publisher
open LoadBalancer (endOf)

variable {P : Type}

def new : Requests P := ⟨{ Publisher.new false with xpub := { XpubT.new false with manual := true } }, []⟩

variable [DecidableEq P]

/-- Manual mode is not left. -/
def Ready (s : Requests P) : Op P → Prop
  | .xsetsockopt (.manual on) => on = true
  | op => s.pub.Ready op

instance (s : Requests P) (op : Op P) : Decidable (s.Ready op) := by
  unfold Ready
  induction op using Op.casesOn with
  | xsetsockopt opt => induction opt using XpubOption.casesOn <;> infer_instance
  | _ => infer_instance

/-- The queue after a call; `before` and `after` are the publisher then. -/
def next (queue : List (List UInt8 × Option (Option P))) (before after : Publisher P) :
    Op P → List (List UInt8 × Option (Option P))
  | .attach p _ _ msgs => queue ++ msgs.map fun m => (m.data, origin p m)
  | .readActivated p msgs => queue ++ msgs.map fun m => (m.data, origin p m)
  | .pipeTerminated _ => queue ++ (after.xpub.waiting.drop before.xpub.waiting.length).map fun data => (data, some none)
  | .xrecv => queue.tail
  | _ => queue

def run (s : Requests P) (op : Op P) : Except XpubFault (Requests P) := do
  let pub ← s.pub.run op
  return ⟨pub, next s.queue s.pub pub op⟩

def Start (s : Requests P) : Prop := s = new

abbrev Step : Requests P → Op P → Requests P → Prop := Does Ready run

/-- After a request has been received `last_pipe` is the pipe it came from. -/
def Attributed (s : Requests P) : Prop := ∀ m x, s.pub.xpub.xrecv = (some m, x) →
  ∃ o rest, s.queue = (m.1, o) :: rest ∧ ∀ q, o = some q → x.lastPipe = q

/-- No other message is received while the pipe of a request waits. -/
def Keeps (s : Requests P) : Op P → Prop
  | .xrecv => ∀ x ∈ s.queue.head?, x.2 = none → s.pub.xpub.pendingPipes = []
  | _ => True

instance (s : Requests P) (op : Op P) : Decidable (s.Keeps op) := by
  induction op using Op.casesOn <;> unfold Keeps <;> infer_instance

structure Sound (s : Requests P) : Prop where
  manual : s.pub.xpub.manual = true
  pub : s.pub.xpub.pub = false
  data : s.queue.map Prod.fst = s.pub.xpub.waiting
  pipes : s.pub.xpub.pendingPipes = s.queue.filterMap Prod.snd

variable {s s' : Requests P} {p : P} {pub : Publisher P}

section

omit [DecidableEq P]

theorem filterMap_origin (msgs : List Msg) :
    (msgs.map fun m => (m.data, origin p m)).filterMap Prod.snd = msgs.filterMap (origin p) := by
  rw [filterMap_map]
  rfl

theorem filterMap_none (data : List (List UInt8)) :
    (data.map fun d => (d, some (none : Option P))).filterMap Prod.snd = replicate data.length none := by
  induction data with
  | nil => rfl
  | cons d data ih => rw [map_cons, filterMap_cons, ih, length_cons, replicate_succ]

theorem Sound.arrive {msgs : List Msg} (h : s.Sound) (hm : pub.xpub.manual = true)
    (hpub : pub.xpub.pub = s.pub.xpub.pub) (hw : pub.xpub.waiting = s.pub.xpub.waiting ++ msgs.map Msg.data)
    (hp : pub.xpub.pendingPipes = s.pub.xpub.pendingPipes ++ msgs.filterMap (origin p)) :
    Sound ⟨pub, s.queue ++ msgs.map fun m => (m.data, origin p m)⟩ := by
  refine ⟨hm, hpub.trans h.pub, ?_, ?_⟩
  · rw [hw, map_append, h.data, map_map]
    rfl
  · rw [hp, filterMap_append, h.pipes, filterMap_origin]

end

theorem Sound.pipeTerminated (h : s.Sound) {x : XpubT P} (hx : s.pub.xpub.xpipeTerminated p = .ok x) (he : pub.xpub = x) :
    Sound ⟨pub, next s.queue s.pub pub (.pipeTerminated p)⟩ := by
  obtain ⟨hm, hpub, data, hw, hp⟩ := xpipeTerminated_queue h.manual h.pub hx
  subst he
  have hdrop : pub.xpub.waiting.drop s.pub.xpub.waiting.length = data := by rw [hw, drop_left]
  refine ⟨hm, hpub, ?_, ?_⟩
  · simp only [next]
    rw [hw, map_append, h.data]
    simp [Function.comp_def]
  · simp only [next]
    rw [hdrop, hp, filterMap_append, h.pipes, filterMap_none]

omit [DecidableEq P] in
theorem Sound.xrecv (h : s.Sound) (hk : s.Keeps .xrecv) :
    Sound ⟨{ s.pub with xpub := s.pub.xpub.xrecv.2 }, s.queue.tail⟩ ∧ s.Attributed := by
  unfold Attributed XpubT.xrecv
  have hdata := h.data
  have hpipes := h.pipes
  unfold waiting at hdata
  cases hp : s.pub.xpub.pending with
  | nil =>
    have hq : s.queue = [] := by simpa [hp] using hdata
    refine ⟨⟨h.manual, h.pub, ?_, ?_⟩, fun m x hx => ?_⟩
    · simp [hq, waiting, hp]
    · rw [hpipes, hq]
      rfl
    · exact absurd (Prod.mk.inj hx).1.symm (Option.some_ne_none m)
  | cons m rest =>
    obtain ⟨⟨d, o⟩, queue, hq⟩ : ∃ y queue, s.queue = y :: queue := by
      cases hq : s.queue with
      | nil => simp [hq, hp] at hdata
      | cons y queue => exact ⟨y, queue, rfl⟩
    rw [hq, hp] at hdata
    obtain ⟨rfl, hrest⟩ := cons.inj hdata
    cases o with
    | none =>
      have hnil : s.pub.xpub.pendingPipes = [] := hk _ (by rw [hq]; rfl) rfl
      have hqueue : queue.filterMap Prod.snd = [] := by
        rw [hnil, hq] at hpipes
        exact hpipes.symm
      rw [hnil, h.manual, hq]
      refine ⟨⟨h.manual, h.pub, hrest, hnil.trans hqueue.symm⟩, fun m x hx => ?_⟩
      cases hx
      exact ⟨none, queue, rfl, fun q hc => absurd hc.symm (Option.some_ne_none q)⟩
    | some o =>
      have hcons : s.pub.xpub.pendingPipes = o :: queue.filterMap Prod.snd := by
        rw [hpipes, hq]
        rfl
      rw [hcons, h.manual, hq]
      refine ⟨⟨rfl, h.pub, hrest, rfl⟩, fun m x hx => ?_⟩
      cases hx
      exact ⟨some o, queue, rfl, fun q hc => Option.some.inj hc⟩

theorem Sound.run (h : s.Sound) {op : Op P} (hr : s.Ready op) (hk : s.Keeps op) (hs : s.run op = .ok s') : s'.Sound := by
  obtain ⟨pub, hrun, hs⟩ := bind_ok hs
  cases hs
  cases op with
  | attach p self all msgs =>
    obtain ⟨⟨xpub, outlets⟩, hx, hrun⟩ := bind_ok hrun
    cases hrun
    obtain ⟨hm, hpub, hw, hp⟩ := xattachPipe_queue h.manual hx
    exact h.arrive hm hpub hw hp
  | readActivated p msgs =>
    obtain ⟨xpub, hx, hrun⟩ := bind_ok hrun
    cases hrun
    obtain ⟨hm, hpub, hw, hp⟩ := xreadActivated_queue h.manual hx
    exact h.arrive hm hpub hw hp
  | pipeTerminated p =>
    obtain ⟨xpub, hx, hrun⟩ := bind_ok hrun
    cases hrun
    exact h.pipeTerminated hx rfl
  | xsetsockopt opt =>
    obtain ⟨⟨rc, xpub⟩, hx, hrun⟩ := bind_ok hrun
    cases hrun
    obtain ⟨hm, hpub, hw, hp⟩ := xsetsockopt_queue (fun on ho => by subst ho; exact hr) h.manual hx
    exact ⟨hm, hpub.trans h.pub, h.data.trans hw.symm, hp.trans h.pipes⟩
  | xsend m calls =>
    obtain ⟨⟨rc, xpub, outlets⟩, hx, hrun⟩ := bind_ok hrun
    cases hrun
    obtain ⟨hm, hpub, hw, hp⟩ := xsend_queue hx
    exact ⟨hm.trans h.manual, hpub.trans h.pub, h.data.trans hw.symm, hp.trans h.pipes⟩
  | xrecv =>
    cases hrun
    exact (h.xrecv hk).1
  | drift p o | writeActivated p n | invertMatching on =>
    cases hrun
    exact ⟨h.manual, h.pub, h.data, h.pipes⟩

theorem run_sound {ops : List (Op P)} (h : Run Start (Guarded Keeps Step) ops s) : s.Sound := by
  refine h.invariant Sound (fun _ h0 => ?_) fun s op s' hI hs => ?_
  · subst h0
    exact ⟨rfl, rfl, rfl, rfl⟩
  · obtain ⟨hk, hr, hrun⟩ := hs
    exact hI.run hr hk hrun

/-- In a run in which every call met the condition, the pipe of the next request that is received is the one
it came from, if that call meets the condition too. -/
theorem requests_attributed {ops : List (Op P)} (h : Run Start (Guarded Keeps Step) ops s) (hk : s.Keeps .xrecv) : s.Attributed :=
  ((run_sound h).xrecv hk).2

/-- A message that is no request. -/
def note : Msg := ⟨.vsm, 0, [7]⟩

/-- Pipe 1 sends a message behind the request of pipe 0, which terminates when both have been received. -/
theorem requests_attributed_two : ∃ s : Requests ℕ, Run Start (Guarded Keeps Step)
      [.attach 0 (endOf 0) false [subscription 1 [65]], .attach 1 (endOf 0) false [note], .xrecv, .xrecv, .pipeTerminated 0] s ∧
    s.queue = [([0, 65], some none)] ∧ s.Attributed :=
  exists_run (P := fun s => s.queue = [([0, 65], some none)] ∧ s.Keeps .xrecv) (rfl : Start new) (by decide +kernel)
    fun _ hs ⟨hq, hk⟩ => ⟨hq, requests_attributed hs hk⟩

/-- Pipe 0 sends a message, then two pipes ask for subscriptions. The message takes the pipe of the first
request, and the first request that of the second. -/
theorem message_shifts_requests : ∃ s : Requests ℕ, Run Start Step
      [.attach 0 (endOf 0) false [note, subscription 1 [65]], .attach 1 (endOf 0) false [subscription 1 [66]], .xrecv] s ∧
    s.queue = [([1, 65], some (some 0)), ([1, 66], some (some 1))] ∧ s.pub.xpub.xrecv.2.lastPipe = some 1 ∧ ¬ s.Attributed := by
  refine exists_run_free (P := fun s => s.queue = [([1, 65], some (some 0)), ([1, 66], some (some 1))] ∧
    s.pub.xpub.xrecv.1 = some ([1, 65], 0) ∧ s.pub.xpub.xrecv.2.lastPipe = some 1) (rfl : Start new) (by decide +kernel)
    fun s _ ⟨hq, hm, hlast⟩ => ⟨hq, hlast, fun h => ?_⟩
  obtain ⟨o, rest, hq', ho⟩ := h _ _ (Prod.ext hm rfl)
  rw [hq] at hq'
  obtain ⟨hhead, -⟩ := cons.inj hq'
  cases hhead
  exact absurd (hlast.symm.trans (ho _ rfl)) (by decide)

end Requests

end Zmq
