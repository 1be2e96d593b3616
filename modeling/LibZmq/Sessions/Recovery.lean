import LibZmq.Sessions.SessionPipe
import LibZmq.Sessions.ZapPipe

/-! What `session_base_t` does when it loses its engine: messages that have been read or written in part are taken out of the
pipe, so that the next engine starts with a message. -/

namespace Zmq

open List Except EndView Staged

structure FramePart where
  more : Bool
  -- what is said about a run
  first : Bool

structure RecoveryOptions where
  immediate : Bool
  conflate : Bool
  subscribes : Bool
  reconnects : Bool

structure PipedSession where
  options : RecoveryOptions
  active : Bool
  pipe : Option (SessionPipe FramePart)
  /-- the number of other pipes: `zap_pipe` and `terminating_pipes` -/
  others : ℕ
  incompleteIn : Bool
  engine : Bool
  connecting : Bool
  hasLingerTimer : Bool
  pending : Bool
  terminating : Bool
  -- what is said about a run
  /-- the socket has written a part of a message, and is to go on with it -/
  midway : Bool
  pulled : Bool

namespace PipedSession

def new (options : RecoveryOptions) (active : Bool) (pipe : Option (SessionPipe FramePart)) : PipedSession where
  options := options
  active := active
  pipe := pipe
  others := 0
  incompleteIn := false
  engine := false
  connecting := true
  hasLingerTimer := false
  pending := false
  terminating := false
  midway := false
  pulled := false

variable (s : PipedSession)

/-- -1 with EAGAIN is `none`. -/
def pullMsg : Except Fault (Option FramePart × PipedSession) :=
  match s.pipe with
  | none => .ok (none, s)
  | some l => do
    let (f, x) ← l.sessionView.read
    let s := { s with pipe := some (l.putSession x) }
    match f with
    | none => return (none, s)
    | some f => return (some f, { s with incompleteIn := f.more, pulled := true })

def pushMsg (f : FramePart) (room : Bool) : PipedSession :=
  match s.pipe with
  | none => s
  | some l => { s with pipe := some (l.putSession (l.sessionView.write FramePart.more f room).2) }

def flush (s : PipedSession) : PipedSession :=
  match s.pipe with
  | none => s
  | some l => { s with pipe := some (l.putSession l.sessionView.flush) }

def dropHalfRead : ℕ → PipedSession → Except Fault PipedSession
  | n, s =>
    if !s.incompleteIn then .ok s
    else
      match n with
      | 0 => .error .assertion
      | n + 1 => do
        match ← s.pullMsg with
        | (none, _) => .error .assertion
        | (some _, s) => dropHalfRead n s

/-- The session reads each frame at most once, and fails after that. -/
def cleanPipes : Except Fault PipedSession :=
  match s.pipe with
  | none => .error .assertion
  | some l => do
    let x ← l.sessionView.rollback FramePart.more
    let l := l.putSession x.flush
    dropHalfRead (l.inpipe.ready.length + 1) { s with pipe := some l }

def checkRead (s : PipedSession) : Except Fault PipedSession :=
  match s.pipe with
  | none => .ok s
  | some l => do return { s with pipe := some (l.putSession (← l.sessionView.checkRead)) }

/-- `reconnect`; a pipe that is detached goes on without the session. -/
def reconnect : PipedSession :=
  let s := if s.pipe.isSome ∧ s.options.immediate then { s with pipe := none, others := s.others + 1 } else s
  let s := { s with connecting := s.options.reconnects }
  if s.options.subscribes then { s with pipe := s.pipe.map SessionPipe.hiccup } else s

def engineError (reason : ErrorReason) : Except Fault PipedSession := do
  let s := { s with engine := false }
  let s ← if s.pipe.isSome then s.cleanPipes else pure s
  let s := match reason with
    | .timeoutError | .connectionError => if s.active then s.reconnect else s
    | .protocolError => s
  s.checkRead

def processAttach : PipedSession :=
  let s := { s with engine := true, connecting := false, pulled := false }
  if s.pipe.isNone ∧ s.terminating = false then { s with pipe := some (.new s.options.conflate), midway := false } else s

def processTerm (linger : ℤ) : Except Fault PipedSession :=
  match s.pipe with
  | none => .ok (if s.others = 0 then { s with terminating := true } else { s with pending := true })
  | some l => do
    let x ← l.sessionView.terminate FramePart.more (linger ≠ 0)
    let s := { s with pending := true, hasLingerTimer := s.hasLingerTimer || 0 < linger, pipe := some (l.putSession x) }
    if !s.engine then s.checkRead else return s

def timerEvent : Except Fault PipedSession :=
  match s.pipe with
  | none => .error .assertion
  | some l => do
    let x ← l.sessionView.terminate FramePart.more false
    return { s with hasLingerTimer := false, pipe := some (l.putSession x) }

def settle : PipedSession :=
  if s.pending ∧ s.pipe.isNone ∧ s.others = 0 then { s with pending := false, terminating := true } else s

/-- The session's end handles the oldest command; `hiccuped` of a session is an assertion that fails. -/
def deliver : Except Fault PipedSession :=
  match s.pipe with
  | none => .ok s
  | some l =>
    match l.toSession with
    | [] => .ok s
    | c :: rest =>
      let l := { l with toSession := rest }
      match c with
      | .activateRead => do
        let (told, x) := l.sessionView.processActivateRead
        let s := { s with pipe := some (l.putSession x) }
        -- an engine goes on with output, which is for other steps
        if told && !s.engine then s.checkRead else return s
      | .hiccup => .error .assertion
      | .pipeTerm => do return { s with pipe := some (l.putSession (← l.sessionView.processPipeTerm)) }
      | .pipeTermAck => do
        let _ ← l.sessionView.processPipeTermAck
        return settle { s with pipe := none, hasLingerTimer := false }

def atSocket (f : EndView FramePart → Except Fault (EndView FramePart)) : Except Fault PipedSession :=
  match s.pipe with
  | none => .ok s
  | some l =>
    match l.socket with
    | none => .ok s
    | some p => do return { s with pipe := some (l.putSocket (← f (l.socketView p))) }

/-- The socket goes on with a message, or begins one. -/
def writeSocket (more room : Bool) : PipedSession :=
  match s.pipe with
  | none => s
  | some l =>
    match l.socket with
    | none => s
    | some p =>
      let (taken, x) := (l.socketView p).write FramePart.more ⟨more, !s.midway⟩ room
      if taken then { s with pipe := some (l.putSocket x), midway := more } else s

inductive Op where
  | write (more room : Bool)
  | flushSocket | rollback | read
  | terminate (delay : Bool)
  | deliverSocket
  | deliver
  | pull
  | push (f : FramePart) (room : Bool)
  | flush
  | attach
  | engineError (reason : ErrorReason)
  | processTerm (linger : ℤ)
  | timer
  | opened | terminated

def Ready : Op → Prop
  | .write _ _ | .flushSocket | .rollback | .read | .terminate _ | .deliverSocket | .deliver => s.pipe.isSome = true
  | .pull | .push _ _ | .flush | .engineError _ => s.engine = true
  | .attach => s.connecting = true ∧ s.engine = false
  | .processTerm _ => s.pending = false ∧ s.terminating = false
  | .timer => s.hasLingerTimer = true
  | .opened => True
  | .terminated => 0 < s.others

def run : Op → Except Fault PipedSession
  | .write more room => .ok (s.writeSocket more room)
  | .flushSocket => s.atSocket fun x => .ok x.flush
  | .rollback => do return { ← s.atSocket (·.rollback FramePart.more) with midway := false }
  | .read => s.atSocket fun x => do return (← x.read).2
  | .terminate delay => do return { ← s.atSocket (·.terminate FramePart.more delay) with midway := false }
  | .deliverSocket =>
    match s.pipe with
    | none => .ok s
    | some l => do return { s with pipe := some (← l.deliverSocket) }
  | .deliver => s.deliver
  | .pull => do return (← s.pullMsg).2
  | .push f room => .ok (s.pushMsg f room)
  | .flush => .ok s.flush
  | .attach => .ok s.processAttach
  | .engineError reason => s.engineError reason
  | .processTerm linger => s.processTerm linger
  | .timer => s.timerEvent
  | .opened => .ok { s with others := s.others + 1 }
  | .terminated => .ok (settle { s with others := s.others - 1 })

def Start : Prop :=
  ∃ options active pipe, s = new options active pipe ∧ ∀ l, pipe = some l → l = SessionPipe.new options.conflate

abbrev Step : PipedSession → Op → PipedSession → Prop := Does Ready run

/-- The session's end of the pipe still reads. -/
def Reads : Prop := ∀ l, s.pipe = some l → l.session.readable = true

/-- Nothing waits in the pipe for the rest of a message, and what can be read begins with a message. -/
structure Whole (s : PipedSession) : Prop where
  incompleteIn : s.incompleteIn = false
  outpipe : ∀ l, s.pipe = some l → l.session.outpipe = true → l.outpipe.unfinished = []
  inpipe : ∀ l f rest, s.pipe = some l → l.inpipe.ready = some f :: rest → f.first = true

/-- A connection that is lost in the middle of a message leaves an end that reads, the session does not get a new pipe if the
old one has gone in the middle of a message, a socket that is to hear of a hiccup is not in the middle of a message, and a
message on a conflating pipe is of one part. -/
def Keeps : Op → Prop
  | .write more _ => ∀ l, s.pipe = some l → l.conflate = true → more = false
  | .engineError _ => s.incompleteIn = true → s.Reads
  | .attach => s.pipe = none → s.terminating = false → s.incompleteIn = false
  | .deliverSocket => ∀ l, s.pipe = some l → l.toSocket.head? = some .hiccup → s.midway = false
  | _ => True

instance (holds : SessionPipe FramePart → Prop) [DecidablePred holds] :
    Decidable (∀ l, s.pipe = some l → holds l) :=
  match h : s.pipe with
  | none => .isTrue fun _ hc => (by cases hc)
  | some l => decidable_of_iff (holds l) ⟨fun hl _ hc => Option.some.inj hc ▸ hl, fun hl => hl l rfl⟩

instance (op : Op) : Decidable (s.Ready op) := by
  cases op <;> unfold Ready <;> infer_instance

instance : Decidable s.Reads := by unfold Reads; infer_instance

instance (op : Op) : Decidable (s.Keeps op) := by
  cases op <;> unfold Keeps <;> infer_instance

end PipedSession

def walk : Bool → List (Option FramePart) → Option Bool
  | b, [] => some b
  | b, none :: parts => if b then walk true parts else none
  | b, some f :: parts => if f.first = b then walk (!f.more) parts else none

theorem walk_append (b : Bool) (parts parts' : List (Option FramePart)) :
    walk b (parts ++ parts') = (walk b parts).bind fun b => walk b parts' := by
  induction parts generalizing b with
  | nil => rfl
  | cons f parts ih =>
    cases f with
    | none =>
      simp only [cons_append, walk]
      split_ifs
      · exact ih true
      · rfl
    | some f =>
      simp only [cons_append, walk]
      split_ifs
      · exact ih _
      · rfl

theorem walk_single {b : Bool} {parts : List (Option FramePart)} (h : ∀ f, some f ∈ parts → f.more = false)
    (hw : walk true parts = some b) : b = true := by
  induction parts with
  | nil => exact (Option.some.inj hw).symm
  | cons f parts ih =>
    have hrest := ih fun g hg => h g (mem_cons_of_mem f hg)
    cases f with
    | none => exact hrest hw
    | some f =>
      rw [walk, h f mem_cons_self] at hw
      split_ifs at hw
      exact hrest hw

namespace EndView

variable {c b mid : Bool} {x x' : EndView FramePart} {q : Staged (Option FramePart)} {sent : List EndCmd} {self : EndT} {delay : Bool}
    {r : Option FramePart}

structure Feeds (c b mid : Bool) (x : EndView FramePart) : Prop where
  conflate : x.conflate = c
  ready : walk b x.outpipe.ready = some true
  complete : walk true x.outpipe.complete = some true
  unfinished : x.self.state = .active → walk true x.outpipe.unfinished = some (!mid)
  active : x.self.state = .active → x.self.outpipe = true
  single : c = true → b = true ∧ x.outpipe.unfinished = [] ∧ ∀ f, some f ∈ x.outpipe.ready → f.more = false

theorem Feeds.state (h : Feeds c b mid x)
    (hs : self.state = .active → x.self.state = .active) (ho : self.state = .active → self.outpipe = x.self.outpipe) :
    Feeds c b mid ⟨x.conflate, self, q, x.outpipe, sent⟩ :=
  ⟨h.conflate, h.ready, h.complete, fun hc => h.unfinished (hs hc), fun hc => (ho hc).trans (h.active (hs hc)), h.single⟩

theorem Feeds.past {mid' : Bool} (h : Feeds c b mid x)
    (hs : self.state ≠ .active) : Feeds c b mid' ⟨x.conflate, self, q, x.outpipe, sent⟩ :=
  ⟨h.conflate, h.ready, h.complete, fun hc => absurd hc hs, fun hc => absurd hc hs, h.single⟩

theorem Feeds.flush (h : Feeds c b mid x) : Feeds c b mid x.flush := by
  have hq : ∀ awake q, (if x.conflate then (false, x.outpipe) else x.outpipe.flush) = (awake, q) →
      Feeds c b mid { x with outpipe := q } := by
    intro awake q hq
    split_ifs at hq with hc
    · cases hq
      exact h
    · unfold Staged.flush at hq
      split_ifs at hq
      · cases hq
        exact h
      · cases hq
        refine ⟨h.conflate, ?_, rfl, h.unfinished, h.active, fun hc' => absurd (h.conflate.trans hc') hc⟩
        exact (walk_append b _ _).trans (by rw [h.ready]; exact h.complete)
  unfold EndView.flush
  by_cases hs : x.self.state = .termAckSent ∨ x.self.outpipe = false
  · rw [if_pos hs]
    exact h
  · cases hflush : (if x.conflate then (false, x.outpipe) else x.outpipe.flush : Bool × Staged (Option FramePart)) with
    | mk awake q =>
      have hfeeds := hq awake q hflush
      dsimp only
      split_ifs
      · exact hfeeds
      · exact ⟨hfeeds.conflate, hfeeds.ready, hfeeds.complete, hfeeds.unfinished, hfeeds.active, hfeeds.single⟩

theorem Feeds.write {more room : Bool} (h : Feeds c b mid x) (hm : c = true → more = false)
    (hx : x.write FramePart.more ⟨more, !mid⟩ room = (true, x')) : Feeds c b more x' := by
  unfold EndView.write at hx
  by_cases hs : x.self.state = .active ∧ room = true
  swap
  · rw [if_neg hs] at hx
    cases hx
  rw [if_pos hs] at hx
  cases hx
  have hu := h.unfinished hs.1
  unfold put
  by_cases hc : x.conflate = true
  · have hc' := h.conflate.symm.trans hc
    obtain ⟨rfl, hnone, -⟩ := h.single hc'
    obtain rfl := hm hc'
    rw [hnone] at hu
    rw [if_pos hc]
    refine ⟨h.conflate, ?_, h.complete, fun _ => congrArg (walk true) hnone, h.active, fun _ => ⟨rfl, hnone, fun f hf => ?_⟩⟩
    · exact if_pos (Option.some.inj hu).symm
    · exact Option.some.inj (mem_singleton.mp hf) ▸ rfl
  · rw [if_neg hc]
    have hwalk : walk true (x.outpipe.unfinished ++ [some ⟨more, !mid⟩]) = some !more := by
      rw [walk_append, hu]
      exact if_pos rfl
    cases more with
    | true => exact ⟨h.conflate, h.ready, h.complete, fun _ => hwalk, h.active, fun hc' => absurd (h.conflate.trans hc') hc⟩
    | false =>
      refine ⟨h.conflate, h.ready, ?_, fun _ => rfl, h.active, fun hc' => absurd (h.conflate.trans hc') hc⟩
      have hall : (x.outpipe.write (some ⟨false, !mid⟩) false).complete =
        x.outpipe.complete ++ (x.outpipe.unfinished ++ [some ⟨false, !mid⟩]) := append_assoc _ _ _
      exact (congrArg (walk true) hall).trans ((walk_append true _ _).trans (by rw [h.complete]; exact hwalk))

theorem Feeds.rollback (h : Feeds c b mid x) (hx : x.rollback FramePart.more = .ok x') : Feeds c b false x' ∧
    x'.self = x.self ∧ (x.self.outpipe = true → x'.outpipe.unfinished = []) := by
  unfold EndView.rollback at hx
  split_ifs at hx with ho
  · cases hx
    rw [Bool.not_eq_true'] at ho
    refine ⟨⟨h.conflate, h.ready, h.complete, fun hc => ?_, h.active, h.single⟩, rfl, fun hc => nomatch ho.symm.trans hc⟩
    exact nomatch ho.symm.trans (h.active hc)
  · cases hx
    refine ⟨⟨h.conflate, h.ready, h.complete, fun _ => rfl, h.active, fun hc => ?_⟩, rfl, fun _ => rfl⟩
    obtain ⟨hb, -, hready⟩ := h.single hc
    exact ⟨hb, rfl, hready⟩

theorem Feeds.delimit (h : Feeds c b false x) (hu : x.outpipe.unfinished = []) : Feeds c b false (x.put none false) := by
  unfold put
  by_cases hc : x.conflate = true
  · obtain ⟨rfl, -, -⟩ := h.single (h.conflate.symm.trans hc)
    rw [if_pos hc]
    refine ⟨h.conflate, rfl, h.complete, h.unfinished, h.active, fun _ => ⟨rfl, hu, fun f hf => ?_⟩⟩
    cases mem_singleton.mp hf
  · rw [if_neg hc]
    refine ⟨h.conflate, h.ready, ?_, fun _ => rfl, h.active, fun hc' => absurd (h.conflate.trans hc') hc⟩
    have hall : (x.outpipe.write none false).complete = x.outpipe.complete ++ [none] := by
      change x.outpipe.complete ++ x.outpipe.unfinished ++ [none] = _
      rw [hu, append_nil]
    exact (congrArg (walk true) hall).trans ((walk_append true _ _).trans (by rw [h.complete]; rfl))

theorem Feeds.stopOutbound (h : Feeds c b mid x) (hx : x.stopOutbound FramePart.more = .ok x') : Feeds c b false x' := by
  unfold EndView.stopOutbound at hx
  split_ifs at hx with ho
  · cases hx
    rw [Bool.not_eq_true'] at ho
    exact h.past fun hc => nomatch ho.symm.trans (h.active hc)
  · obtain ⟨x1, h1, h2⟩ := bind_ok hx
    obtain ⟨hfeeds, -, hnone⟩ := h.rollback h1
    cases h2
    exact (hfeeds.delimit (hnone (by simpa using ho))).flush

theorem Feeds.acknowledge {state : PipeState} (h : Feeds c b mid x) (hs : state ≠ .active) :
    Feeds c b mid (x.acknowledge state) := h.past hs

theorem Feeds.terminate (h : Feeds c b mid x) (hx : x.terminate FramePart.more delay = .ok x') : Feeds c b false x' := by
  unfold EndView.terminate at hx
  dsimp only at hx
  split at hx
  · rename_i hs
    cases hx
    exact h.past fun hc => (by cases hs.symm.trans hc)
  · rename_i hs
    cases hx
    exact h.past fun hc => (by cases hs.symm.trans hc)
  · rename_i hs
    cases hx
    exact h.past fun hc => (by cases hs.symm.trans hc)
  · exact @Feeds.stopOutbound c b false _ _ (h.past fun hc => (by cases hc)) hx
  · exact @Feeds.stopOutbound c b false _ _ (h.past fun hc => (by cases hc)) hx
  · rename_i hs
    split_ifs at hx
    · exact @Feeds.stopOutbound c b false _ _ (h.past fun hc => (by cases hc)) hx
    · exact @Feeds.stopOutbound c b false _ _ (h.past fun hc => (by cases hs.symm.trans hc)) hx

theorem Feeds.processDelimiter (h : Feeds c b mid x) (hx : x.processDelimiter = .ok x') : Feeds c b mid x' := by
  unfold EndView.processDelimiter at hx
  split_ifs at hx
  · cases hx
    exact h.past nofun
  · cases hx
    exact h.acknowledge nofun

theorem Feeds.read (h : Feeds c b mid x) (hx : x.read = .ok (r, x')) : Feeds c b mid x' := by
  unfold EndView.read at hx
  split_ifs at hx
  · cases hx
    exact h
  · split at hx
    · cases hx
      exact h.state id fun _ => rfl
    · obtain ⟨x1, h1, h2⟩ := bind_ok hx
      cases h2
      exact Feeds.processDelimiter (h.state id fun _ => rfl) h1
    · cases hx
      exact h.state id fun _ => rfl

theorem Feeds.processPipeTerm (h : Feeds c b mid x) (hx : x.processPipeTerm = .ok x') : Feeds c b mid x' := by
  unfold EndView.processPipeTerm at hx
  split at hx
  · split_ifs at hx
    · cases hx
      exact h.past nofun
    · cases hx
      exact h.acknowledge nofun
  · cases hx
    exact h.acknowledge nofun
  · cases hx
    exact h.acknowledge nofun
  · cases hx

theorem Feeds.processActivateRead (h : Feeds c b mid x) : Feeds c b mid x.processActivateRead.2 := by
  unfold EndView.processActivateRead
  split_ifs
  · exact h.state id fun _ => rfl
  · exact h

structure Draws (x x' : EndView FramePart) (parts : List (Option FramePart)) : Prop where
  ready : x.inpipe.ready = parts ++ x'.inpipe.ready
  complete : x'.inpipe.complete = x.inpipe.complete
  unfinished : x'.inpipe.unfinished = x.inpipe.unfinished
  outpipe : x'.outpipe = x.outpipe

def Sleeps (x x' : EndView FramePart) : Prop := x'.self.inActive = false → x.self.inActive = false ∨ x.inpipe.ready = []

theorem processDelimiter_same (hx : x.processDelimiter = .ok x') : x'.inpipe = x.inpipe ∧ x'.outpipe = x.outpipe ∧
    x'.self.inActive = x.self.inActive := by
  unfold processDelimiter at hx
  split_ifs at hx
  · cases hx
    exact ⟨rfl, rfl, rfl⟩
  · cases hx
    exact ⟨rfl, rfl, rfl⟩

theorem read_draws (hx : x.read = .ok (r, x')) :
    (∃ f, r = some f ∧ Draws x x' [some f] ∧ x.self.inActive = true ∧ x'.self = x.self) ∨
      r = none ∧ (Draws x x' [] ∨ Draws x x' [none]) ∧ Sleeps x x' := by
  unfold read at hx
  split_ifs at hx with hc
  · cases hx
    exact .inr ⟨rfl, .inl ⟨rfl, rfl, rfl, rfl⟩, .inl⟩
  · have hactive : x.self.inActive = true := by
      rw [Bool.or_eq_true, not_or, Bool.not_eq_true', Bool.not_eq_false] at hc
      exact hc.1
    cases hr : x.inpipe.ready with
    | nil =>
      rw [read_nil hr] at hx
      cases hx
      exact .inr ⟨rfl, .inl ⟨rfl, rfl, rfl, rfl⟩, fun _ => .inr hr⟩
    | cons f rest =>
      rw [read_cons hr] at hx
      cases f with
      | none =>
        obtain ⟨x1, h1, h2⟩ := bind_ok hx
        cases h2
        obtain ⟨hin, hout, hself⟩ := processDelimiter_same h1
        refine .inr ⟨rfl, .inr ⟨?_, by rw [hin], by rw [hin], hout⟩, fun hc => .inl (hself.symm.trans hc)⟩
        rw [hin]
        exact hr
      | some f =>
        cases hx
        exact .inl ⟨f, rfl, ⟨hr, rfl, rfl, rfl⟩, hactive, rfl⟩

theorem checkRead_draws (hx : x.checkRead = .ok x') : (Draws x x' [] ∨ Draws x x' [none]) ∧ Sleeps x x' := by
  unfold checkRead at hx
  split_ifs at hx with hc
  · cases hx
    exact ⟨.inl ⟨rfl, rfl, rfl, rfl⟩, .inl⟩
  · split at hx
    · rename_i hr
      cases hx
      refine ⟨.inl ?_, fun _ => .inr hr⟩
      rw [checkRead_nil hr]
      exact ⟨rfl, rfl, rfl, rfl⟩
    · rename_i rest hr
      obtain ⟨hin, hout, hself⟩ := processDelimiter_same hx
      refine ⟨.inr ⟨?_, ?_, ?_, hout⟩, fun hc => .inl (hself.symm.trans hc)⟩
      · rw [hin, read_cons hr]
        exact hr
      · rw [hin, read_cons hr]
      · rw [hin, read_cons hr]
    · cases hx
      exact ⟨.inl ⟨rfl, rfl, rfl, rfl⟩, .inl⟩

def Halfway (x : EndView FramePart) : Prop := ∀ f ∈ x.outpipe.unfinished, f.any FramePart.more = true

structure Leaves (x x' : EndView FramePart) : Prop where
  inpipe : x'.inpipe = x.inpipe
  inActive : x'.self.inActive = x.self.inActive
  halfway : Halfway x → Halfway x'

theorem Leaves.trans {x1 : EndView FramePart} (h : Leaves x x1) (h' : Leaves x1 x') : Leaves x x' :=
  ⟨h'.inpipe.trans h.inpipe, h'.inActive.trans h.inActive, h'.halfway ∘ h.halfway⟩

theorem halfway_put {f : Option FramePart} {incomplete : Bool} (h : Halfway x) (hf : incomplete = true → f.any FramePart.more = true) :
    Halfway (x.put f incomplete) := by
  intro g hg
  unfold put Staged.write at hg
  split_ifs at hg with hc hi
  · exact h g hg
  · rcases mem_append.mp hg with hg | hg
    · exact h g hg
    · exact mem_singleton.mp hg ▸ hf hi
  · exact nomatch hg

theorem leaves_write (f : FramePart) (room : Bool) : Leaves x (x.write FramePart.more f room).2 := by
  unfold write
  split_ifs
  · exact ⟨rfl, rfl, fun h => halfway_put h id⟩
  · exact ⟨rfl, rfl, id⟩

theorem rollback_ok (h : Halfway x) : ∃ x', x.rollback FramePart.more = .ok x' ∧ Leaves x x' ∧ x'.self = x.self ∧
    (x.self.outpipe = true → x'.outpipe.unfinished = []) := by
  unfold rollback
  split_ifs with ho hall
  · rw [Bool.not_eq_true'] at ho
    exact ⟨x, rfl, ⟨rfl, rfl, id⟩, rfl, fun hc => nomatch ho.symm.trans hc⟩
  · exact ⟨_, rfl, ⟨rfl, rfl, fun _ f hf => nomatch hf⟩, rfl, fun _ => rfl⟩
  · exact absurd (all_eq_true.mpr h) hall

theorem flush_leaves : Leaves x x.flush ∧ x.flush.self = x.self ∧ x.flush.outpipe.unfinished = x.outpipe.unfinished := by
  have hq : ∀ awake q, (if x.conflate then (false, x.outpipe) else x.outpipe.flush) = (awake, q) →
      q.unfinished = x.outpipe.unfinished := by
    intro awake q hq
    unfold Staged.flush at hq
    split_ifs at hq <;> exact (Prod.mk.inj hq).2 ▸ rfl
  unfold flush
  by_cases hs : x.self.state = .termAckSent ∨ x.self.outpipe = false
  · rw [if_pos hs]
    exact ⟨⟨rfl, rfl, id⟩, rfl, rfl⟩
  · cases hflush : (if x.conflate then (false, x.outpipe) else x.outpipe.flush : Bool × Staged (Option FramePart)) with
    | mk awake q =>
      have hsame := hq awake q hflush
      dsimp only
      split_ifs
      · exact ⟨⟨rfl, rfl, fun h f hf => h f (hsame ▸ hf)⟩, rfl, hsame⟩
      · exact ⟨⟨rfl, rfl, fun h f hf => h f (hsame ▸ hf)⟩, rfl, hsame⟩

theorem leaves_stopOutbound (hx : x.stopOutbound FramePart.more = .ok x') : Leaves x x' := by
  unfold stopOutbound at hx
  split_ifs at hx
  · cases hx
    exact ⟨rfl, rfl, id⟩
  · obtain ⟨x1, h1, h2⟩ := bind_ok hx
    cases h2
    have hroll : x1.inpipe = x.inpipe ∧ x1.self = x.self ∧ (Halfway x → Halfway x1) := by
      unfold rollback at h1
      split_ifs at h1
      cases h1
      exact ⟨rfl, rfl, fun _ f hf => nomatch hf⟩
    obtain ⟨hflush, hself, -⟩ := @flush_leaves (x1.put none false)
    refine ⟨hflush.inpipe.trans hroll.1, ?_, fun h => hflush.halfway (halfway_put (hroll.2.2 h) nofun)⟩
    rw [hself]
    exact congrArg EndT.inActive hroll.2.1

theorem leaves_terminate (hx : x.terminate FramePart.more delay = .ok x') : Leaves x x' := by
  unfold terminate at hx
  dsimp only at hx
  split at hx
  · cases hx
    exact ⟨rfl, rfl, id⟩
  · cases hx
    exact ⟨rfl, rfl, id⟩
  · cases hx
    exact ⟨rfl, rfl, id⟩
  · have h := leaves_stopOutbound hx
    exact ⟨h.inpipe, h.inActive, h.halfway⟩
  · have h := leaves_stopOutbound hx
    exact ⟨h.inpipe, h.inActive, h.halfway⟩
  · split_ifs at hx
    · have h := leaves_stopOutbound hx
      exact ⟨h.inpipe, h.inActive, h.halfway⟩
    · have h := leaves_stopOutbound hx
      exact ⟨h.inpipe, h.inActive, h.halfway⟩

theorem leaves_processPipeTerm (hx : x.processPipeTerm = .ok x') : Leaves x x' := by
  unfold processPipeTerm at hx
  split at hx
  · split_ifs at hx
    · cases hx
      exact ⟨rfl, rfl, id⟩
    · cases hx
      exact ⟨rfl, rfl, id⟩
  · cases hx
    exact ⟨rfl, rfl, id⟩
  · cases hx
    exact ⟨rfl, rfl, id⟩
  · cases hx

end EndView

structure Blank (q : Staged (Option FramePart)) : Prop where
  ready : q.ready = []
  complete : q.complete = []
  unfinished : q.unfinished = []

namespace SessionPipe

open EndView

variable {inc mid : Bool} {l : SessionPipe FramePart} {x : EndView FramePart} {l' : SessionPipe FramePart}

/-- The session is in the middle of a message if `inc` says so, and the socket if `mid` does. -/
structure Sound (inc mid : Bool) (l : SessionPipe FramePart) : Prop where
  reads : walk (!inc) l.inpipe.ready = some true
  halfway : Halfway l.sessionView
  awake : l.session.inActive = false → inc = false
  feeds : ∀ p, l.socket = some p → ∃ b, Feeds l.conflate b mid (l.socketView p) ∧ (l.dropped = [] → b = !inc)
  blank : ∀ old rest, l.dropped = old :: rest → (∀ q ∈ rest, Blank q) ∧ Blank l.inpipe

theorem new_sound (conflate : Bool) : Sound false false (SessionPipe.new conflate : SessionPipe FramePart) where
  reads := rfl
  halfway f hf := nomatch hf
  awake _ := rfl
  feeds p hp := by
    cases hp
    exact ⟨true, ⟨rfl, rfl, rfl, fun _ => rfl, fun _ => rfl, fun _ => ⟨rfl, rfl, nofun⟩⟩, fun _ => rfl⟩
  blank old rest hc := by cases hc

theorem Sound.leaves (h : Sound inc mid l) (hx : Leaves l.sessionView x) : Sound inc mid (l.putSession x) where
  reads := by
    change walk (!inc) x.inpipe.ready = some true
    rw [hx.inpipe]
    exact h.reads
  halfway := hx.halfway h.halfway
  awake hc := h.awake (hx.inActive.symm.trans hc)
  feeds p hp := by
    obtain ⟨b, hfeeds, hb⟩ := h.feeds p hp
    have hsame : ((l.putSession x).socketView p).outpipe = (l.socketView p).outpipe := congrArg l.dropped.headD hx.inpipe
    refine ⟨b, ⟨rfl, ?_, ?_, ?_, hfeeds.active, ?_⟩, hb⟩
    · rw [hsame]
      exact hfeeds.ready
    · rw [hsame]
      exact hfeeds.complete
    · rw [hsame]
      exact hfeeds.unfinished
    · rw [hsame]
      exact hfeeds.single
  blank old rest hd := by
    obtain ⟨hrest, hblank⟩ := h.blank old rest hd
    refine ⟨hrest, ?_⟩
    change Blank x.inpipe
    rw [hx.inpipe]
    exact hblank

theorem Sound.draws {inc' : Bool} {parts : List (Option FramePart)} (h : Sound inc mid l) (hx : Draws l.sessionView x parts)
    (hw : walk (!inc) parts = some (!inc')) (ha : x.self.inActive = false → inc' = false) : Sound inc' mid (l.putSession x) := by
  have hreads : walk (!inc') x.inpipe.ready = some true := by
    have hall := h.reads
    rw [show l.inpipe.ready = parts ++ x.inpipe.ready from hx.ready, walk_append, hw] at hall
    exact hall
  refine ⟨hreads, ?_, ha, fun p hp => ?_, fun old rest hd => ?_⟩
  · change ∀ f ∈ x.outpipe.unfinished, _
    rw [hx.outpipe]
    exact h.halfway
  · obtain ⟨b, hfeeds, hb⟩ := h.feeds p hp
    cases hd : l.dropped with
    | nil =>
      have hq : (l.socketView p).outpipe = l.inpipe := by
        change l.dropped.headD l.inpipe = _
        rw [hd]
        rfl
      have hq' : ((l.putSession x).socketView p).outpipe = x.inpipe := by
        change l.dropped.headD x.inpipe = _
        rw [hd]
        rfl
      refine ⟨!inc', ⟨rfl, ?_, ?_, fun hc => ?_, hfeeds.active, fun hc => ?_⟩, fun _ => rfl⟩
      · rw [hq']
        exact hreads
      · have hcomplete := hfeeds.complete
        rw [hq] at hcomplete
        rw [hq', hx.complete]
        exact hcomplete
      · have hunfinished := hfeeds.unfinished hc
        rw [hq] at hunfinished
        rw [hq', hx.unfinished]
        exact hunfinished
      · obtain ⟨hb', hnone, hsingle⟩ := hfeeds.single hc
        rw [hq] at hnone hsingle
        rw [show l.inpipe.ready = parts ++ x.inpipe.ready from hx.ready] at hsingle
        rw [hq', hx.unfinished]
        rw [← hb hd, hb'] at hw
        refine ⟨walk_single (fun f hf => hsingle f (mem_append_left _ hf)) hw, hnone, fun f hf => ?_⟩
        exact hsingle f (mem_append_right parts hf)
    | cons old rest =>
      have hq : ((l.putSession x).socketView p).outpipe = (l.socketView p).outpipe := by
        change l.dropped.headD x.inpipe = l.dropped.headD l.inpipe
        rw [hd]
        rfl
      refine ⟨b, ⟨rfl, ?_, ?_, fun hc => ?_, hfeeds.active, ?_⟩, fun hc => ?_⟩
      · rw [hq]
        exact hfeeds.ready
      · rw [hq]
        exact hfeeds.complete
      · rw [hq]
        exact hfeeds.unfinished hc
      · rw [hq]
        exact hfeeds.single
      · cases hd.symm.trans hc
  · obtain ⟨hrest, hblank⟩ := h.blank old rest hd
    refine ⟨hrest, ?_, hx.complete.trans hblank.complete, hx.unfinished.trans hblank.unfinished⟩
    have hnil : parts ++ x.inpipe.ready = [] := hx.ready.symm.trans hblank.ready
    exact (append_eq_nil_iff.mp hnil).2

theorem Sound.idles (h : Sound inc mid l) (hx : Draws l.sessionView x [] ∨ Draws l.sessionView x [none])
    (hs : Sleeps l.sessionView x) : Sound inc mid (l.putSession x) := by
  have hawake : x.self.inActive = false → inc = false := fun hc => by
    rcases hs hc with hc | hnil
    · exact h.awake hc
    · have hreads := h.reads
      rw [show l.inpipe.ready = [] from hnil] at hreads
      exact (Bool.not_eq_true' inc).mp (Option.some.inj hreads)
  rcases hx with hx | hx
  · exact h.draws hx rfl hawake
  · have hreads := h.reads
    rw [show l.inpipe.ready = [none] ++ x.inpipe.ready from hx.ready, singleton_append, walk] at hreads
    split_ifs at hreads with hinc
    refine h.draws hx ?_ hawake
    rw [hinc]
    rfl

theorem Sound.feed {mid' : Bool} {p : EndT} (h : Sound inc mid l) (hp : l.socket = some p)
    (hu : x.inpipe.unfinished = l.outpipe.unfinished) (hf : ∀ b, Feeds l.conflate b mid (l.socketView p) → Feeds l.conflate b mid' x) :
    Sound inc mid' (l.putSocket x) := by
  obtain ⟨b, hfeeds, hb⟩ := h.feeds p hp
  have hx := hf b hfeeds
  have hhalfway : ∀ f ∈ x.inpipe.unfinished, f.any FramePart.more = true := hu.symm ▸ h.halfway
  cases hd : l.dropped with
  | nil =>
    obtain rfl := hb hd
    have hput : l.putSocket x = ⟨l.conflate, l.session, some x.self, x.outpipe, [], x.inpipe, l.toSession ++ x.sent, l.toSocket⟩ := by
      unfold putSocket
      rw [hd]
    rw [hput]
    refine ⟨hx.ready, hhalfway, h.awake, fun p' hp' => ?_, fun old rest hc => (by cases hc)⟩
    cases hp'
    exact ⟨!inc, ⟨rfl, hx.ready, hx.complete, hx.unfinished, hx.active, hx.single⟩, fun _ => rfl⟩
  | cons old rest =>
    have hput : l.putSocket x =
        ⟨l.conflate, l.session, some x.self, l.inpipe, x.outpipe :: rest, x.inpipe, l.toSession ++ x.sent, l.toSocket⟩ := by
      unfold putSocket
      rw [hd]
    rw [hput]
    refine ⟨h.reads, hhalfway, h.awake, fun p' hp' => ?_, fun old' rest' hc => ?_⟩
    · cases hp'
      exact ⟨b, ⟨rfl, hx.ready, hx.complete, hx.unfinished, hx.active, hx.single⟩, nofun⟩
    · obtain ⟨-, rfl⟩ := cons.inj hc
      exact h.blank old rest hd

theorem Sound.hiccup (h : Sound false mid l) : Sound false mid l.hiccup := by
  unfold SessionPipe.hiccup
  split_ifs with hs
  · exact h
  refine ⟨rfl, h.halfway, fun _ => rfl, fun p hp => ?_, fun old rest hd => ?_⟩
  · obtain ⟨b, hfeeds, -⟩ := h.feeds p hp
    have hq : ∀ q : Staged (Option FramePart), (l.dropped ++ [l.inpipe]).headD q = l.dropped.headD l.inpipe := fun q => by
      cases l.dropped <;> rfl
    refine ⟨b, ⟨rfl, ?_, ?_, fun hc => ?_, hfeeds.active, fun hc => ?_⟩, fun hc => ?_⟩
    · exact (congrArg (fun q => walk b q.ready) (hq .empty)).trans hfeeds.ready
    · exact (congrArg (fun q => walk true q.complete) (hq .empty)).trans hfeeds.complete
    · exact (congrArg (fun q => walk true q.unfinished) (hq .empty)).trans (hfeeds.unfinished hc)
    · obtain ⟨hb, hnone, hsingle⟩ := hfeeds.single hc
      refine ⟨hb, (congrArg unfinished (hq .empty)).trans hnone, fun f hf => hsingle f ?_⟩
      exact (congrArg ready (hq .empty)) ▸ hf
    · cases (append_eq_nil_iff.mp hc).2
  · refine ⟨fun q hq => ?_, ⟨rfl, rfl, rfl⟩⟩
    cases hl : l.dropped with
    | nil =>
      rw [hl] at hd
      obtain ⟨-, rfl⟩ := cons.inj hd
      exact nomatch hq
    | cons old' rest' =>
      rw [hl] at hd
      obtain ⟨-, rfl⟩ := cons.inj hd
      obtain ⟨hrest, hblank⟩ := h.blank old' rest' hl
      rcases mem_append.mp hq with hq | hq
      · exact hrest q hq
      · exact mem_singleton.mp hq ▸ hblank

theorem Sound.processHiccup {p : EndT} (h : Sound inc mid l) (hp : l.socket = some p)
    (hmid : mid = false) (hx : l.processHiccup p = .ok l') : Sound inc mid l' := by
  unfold SessionPipe.processHiccup at hx
  split_ifs at hx with ho
  cases hd : l.dropped with
  | nil =>
    rw [hd] at hx
    cases hx
  | cons old rest =>
    rw [hd] at hx
    cases hx
    obtain ⟨b, hfeeds, -⟩ := h.feeds p hp
    obtain ⟨hrest, hblank⟩ := h.blank old rest hd
    have hnext : Blank (rest.headD l.inpipe) := by
      cases rest with
      | nil => exact hblank
      | cons q rest => exact hrest q mem_cons_self
    have hinc : rest = [] → true = !inc := fun _ => by
      have hreads := h.reads
      rw [hblank.ready] at hreads
      exact (Option.some.inj hreads).symm
    refine ⟨h.reads, h.halfway, h.awake, fun p' hp' => ?_, fun old' rest' hc => ?_⟩
    · cases hp.symm.trans hp'
      refine ⟨true, ⟨rfl, ?_, ?_, fun _ => ?_, hfeeds.active, fun _ => ⟨rfl, hnext.unfinished, fun f hf => ?_⟩⟩, hinc⟩
      · exact congrArg (walk true) hnext.ready
      · exact congrArg (walk true) hnext.complete
      · rw [hmid]
        exact congrArg (walk true) hnext.unfinished
      · rw [show (({ l with dropped := rest } : SessionPipe FramePart).socketView p).outpipe.ready = [] from hnext.ready] at hf
        exact nomatch hf
    · refine ⟨fun q hq => hrest q ?_, hblank⟩
      dsimp only at hc
      rw [hc]
      exact mem_cons_of_mem old' hq

theorem Sound.commands {toSession toSocket : List EndCmd} (h : Sound inc mid l) :
    Sound inc mid { l with toSession := toSession, toSocket := toSocket } :=
  ⟨h.reads, h.halfway, h.awake, h.feeds, h.blank⟩

theorem Sound.deliverSocket (h : Sound inc mid l)
    (hk : l.toSocket.head? = some .hiccup → mid = false) (hx : l.deliverSocket = .ok l') : Sound inc mid l' := by
  unfold SessionPipe.deliverSocket at hx
  split at hx
  · rename_i p c rest hp hc
    have hd : Sound inc mid { l with toSocket := rest } := h.commands
    cases c with
    | activateRead =>
      cases hx
      refine hd.feed hp ?_ fun b hf => hf.processActivateRead
      unfold processActivateRead
      split_ifs <;> rfl
    | hiccup => exact hd.processHiccup hp (hk (by rw [hc]; rfl)) hx
    | pipeTerm =>
      obtain ⟨x, h1, h2⟩ := bind_ok hx
      cases h2
      exact hd.feed hp (congrArg unfinished (leaves_processPipeTerm h1).inpipe) fun b hf => hf.processPipeTerm h1
    | pipeTermAck =>
      obtain ⟨x, h1, h2⟩ := bind_ok hx
      cases h2
      have hpast : x.self.state ≠ .active ∧ x.inpipe = l.outpipe ∧ x.conflate = l.conflate ∧
          x.outpipe = l.dropped.headD l.inpipe := by
        unfold processPipeTermAck at h1
        split at h1
        · cases h1
          exact ⟨nofun, rfl, rfl, rfl⟩
        · rename_i hs
          cases h1
          exact ⟨fun hc => (by cases hs.symm.trans hc), rfl, rfl, rfl⟩
        · rename_i hs
          cases h1
          exact ⟨fun hc => (by cases hs.symm.trans hc), rfl, rfl, rfl⟩
        · cases h1
      have hput : Sound inc mid (({ l with toSocket := rest } : SessionPipe FramePart).putSocket x) := by
        refine hd.feed hp (congrArg unfinished hpast.2.1) fun b hf => ?_
        obtain ⟨conflate, self, inpipe, outpipe, sent⟩ := x
        obtain ⟨hs, -, rfl, rfl⟩ := hpast
        exact hf.past hs
      exact ⟨hput.reads, hput.halfway, hput.awake, fun p hp => (by cases hp), hput.blank⟩
  · cases hx
    exact h

end SessionPipe

namespace PipedSession

open EndView

variable {s s' : PipedSession} {l : SessionPipe FramePart}

structure Sound (s : PipedSession) : Prop where
  pipe : ∀ l, s.pipe = some l → l.Sound s.incompleteIn s.midway
  fresh : s.engine = false ∨ s.pulled = false → s.pipe.isSome = true → s.incompleteIn = false

theorem pullMsg_spec {r : Option FramePart} (h : l.Sound s.incompleteIn s.midway) (hl : s.pipe = some l)
    (hx : s.pullMsg = .ok (r, s')) : ∃ l', s'.pipe = some l' ∧ l'.Sound s'.incompleteIn s'.midway ∧
      ((r = none ∧ s' = { s with pipe := some l' }) ∨ ∃ f, r = some f ∧ f.first = (!s.incompleteIn) ∧
        s' = { s with pipe := some l', incompleteIn := f.more, pulled := true } ∧
        l.inpipe.ready = some f :: l'.inpipe.ready ∧ l'.session = l.session ∧ l'.outpipe = l.outpipe) := by
  unfold pullMsg at hx
  rw [hl] at hx
  obtain ⟨⟨f, x⟩, h1, h2⟩ := bind_ok hx
  rcases read_draws h1 with ⟨f, rfl, hdraws, hactive, hself⟩ | ⟨rfl, hdraws, hsleeps⟩
  · cases h2
    have hwalk : walk (!s.incompleteIn) [some f] = some (!f.more) ∧ f.first = (!s.incompleteIn) := by
      have hreads := h.reads
      rw [show l.inpipe.ready = [some f] ++ x.inpipe.ready from hdraws.ready] at hreads
      by_cases hf : f.first = (!s.incompleteIn)
      · exact ⟨if_pos hf, hf⟩
      · rw [singleton_append, walk, if_neg hf] at hreads
        cases hreads
    refine ⟨_, rfl, h.draws hdraws hwalk.1 fun hc => ?_, .inr ⟨f, rfl, hwalk.2, rfl, hdraws.ready, hself, hdraws.outpipe⟩⟩
    rw [hself] at hc
    exact nomatch hactive.symm.trans hc
  · cases h2
    exact ⟨_, rfl, h.idles hdraws hsleeps, .inl ⟨rfl, rfl⟩⟩

theorem pullMsg_rest (h : l.Sound s.incompleteIn s.midway) (hl : s.pipe = some l) (hi : s.incompleteIn = true)
    (hr : l.session.readable = true) : ∃ f s', s.pullMsg = .ok (some f, s') := by
  have hactive : l.session.inActive = true := by
    by_contra hc
    exact nomatch hi.symm.trans (h.awake (Bool.eq_false_of_not_eq_true hc))
  have hreads := h.reads
  rw [hi] at hreads
  unfold pullMsg
  rw [hl]
  cases hready : l.inpipe.ready with
  | nil =>
    rw [hready] at hreads
    cases hreads
  | cons f rest =>
    rw [hready] at hreads
    cases f with
    | none => cases hreads
    | some f =>
      have hx : l.sessionView.read = .ok (some f, { l.sessionView with inpipe := { l.inpipe with ready := rest } }) := by
        unfold EndView.read
        rw [if_neg (by rw [show l.sessionView.self = l.session from rfl, hactive, hr]; decide)]
        rw [show l.sessionView.inpipe = l.inpipe from rfl, read_cons hready]
      dsimp only
      rw [hx]
      exact ⟨f, _, rfl⟩

theorem dropHalfRead_ok {n : ℕ} (h : l.Sound s.incompleteIn s.midway) (hl : s.pipe = some l)
    (hn : l.inpipe.ready.length < n) (hr : s.incompleteIn = true → l.session.readable = true) :
    ∃ l' s', s.dropHalfRead n = .ok s' ∧ l'.Sound false s.midway ∧ s' = { s with
      pipe := some l', incompleteIn := false, pulled := s'.pulled } ∧ l'.outpipe = l.outpipe ∧ l'.session = l.session := by
  induction n generalizing s l with
  | zero => exact absurd hn (Nat.not_lt_zero _)
  | succ n ih =>
    unfold dropHalfRead
    by_cases hi : s.incompleteIn = true
    · rw [hi]
      obtain ⟨f, s1, h1⟩ := pullMsg_rest h hl hi (hr hi)
      obtain ⟨l1, hl1, hsound, hcases⟩ := pullMsg_spec h hl h1
      rcases hcases with ⟨hc, -⟩ | ⟨g, -, -, rfl, hready, hself, hout⟩
      · cases hc
      have hlen : l1.inpipe.ready.length < n := by
        rw [hready] at hn
        exact Nat.lt_of_succ_lt_succ hn
      obtain ⟨l', s', hx, hs', heq, hout', hself'⟩ := ih hsound rfl hlen fun _ => hself ▸ hr hi
      refine ⟨l', s', ?_, hs', heq, hout'.trans hout, hself'.trans hself⟩
      rw [h1]
      exact hx
    · rw [if_pos (by rw [Bool.eq_false_of_not_eq_true hi]; rfl)]
      have hi := Bool.eq_false_of_not_eq_true hi
      refine ⟨l, s, rfl, hi ▸ h, ?_, rfl, rfl⟩
      rw [← hl, ← hi]

theorem cleanPipes_ok (h : l.Sound s.incompleteIn s.midway) (hl : s.pipe = some l)
    (hr : s.incompleteIn = true → l.session.readable = true) :
    ∃ l' s', s.cleanPipes = .ok s' ∧ l'.Sound false s.midway ∧ s'.Whole ∧
      s' = { s with pipe := some l', incompleteIn := false, pulled := s'.pulled } := by
  obtain ⟨x, hroll, hleaves, hself, hnone⟩ := rollback_ok h.halfway
  obtain ⟨hflush, hself', hsame⟩ := @flush_leaves x
  have hsound := h.leaves (hleaves.trans hflush)
  obtain ⟨l', s', hx, hs', heq, hout, hsess⟩ := @dropHalfRead_ok { s with pipe := some (l.putSession x.flush) }
    (l.putSession x.flush) _ hsound rfl (Nat.lt_succ_self _) fun hi => by
    change x.flush.self.readable = true
    rw [hself', hself]
    exact hr hi
  refine ⟨l', s', ?_, hs', ?_, heq⟩
  · unfold cleanPipes
    rw [hl]
    dsimp only
    rw [hroll]
    exact hx
  · rw [heq]
    refine ⟨rfl, fun l1 hl1 ho => ?_, fun l1 f rest hl1 hready => ?_⟩
    · cases hl1
      rw [hout]
      have ho' : l.session.outpipe = true := by
        rw [hsess] at ho
        rw [show l.session = x.flush.self from (hself'.trans hself).symm]
        exact ho
      exact hsame.trans (hnone ho')
    · cases hl1
      have hreads := hs'.reads
      rw [hready, walk] at hreads
      split_ifs at hreads with hf
      exact hf

theorem cleanPipes_stuck (h : l.Sound s.incompleteIn s.midway) (hl : s.pipe = some l) (hi : s.incompleteIn = true)
    (hr : l.session.readable = false) : s.cleanPipes = .error .assertion := by
  obtain ⟨x, hroll, -, hself, -⟩ := rollback_ok h.halfway
  obtain ⟨-, hself', -⟩ := @flush_leaves x
  unfold cleanPipes
  rw [hl]
  dsimp only
  rw [hroll]
  have hread : ((l.putSession x.flush).sessionView.read : Except Fault (Option FramePart × EndView FramePart)) =
      .ok (none, (l.putSession x.flush).sessionView) := by
    refine if_pos ?_
    rw [show (l.putSession x.flush).sessionView.self = l.session from hself'.trans hself, hr]
    exact Bool.or_true _
  change dropHalfRead (_ + 1) _ = _
  unfold dropHalfRead
  rw [hi]
  unfold pullMsg
  dsimp only
  rw [hread]
  rfl

theorem cleanPipes_iff (h : Sound s) (hp : s.pipe.isSome = true) :
    ((s.incompleteIn = true → s.Reads) ↔ ∃ s', s.cleanPipes = .ok s') ∧ ∀ s', s.cleanPipes = .ok s' → s'.Whole := by
  obtain ⟨l, hl⟩ := Option.isSome_iff_exists.mp hp
  have hreads : s.Reads ↔ l.session.readable = true := by
    refine ⟨fun hc => hc l hl, fun hc l' hl' => ?_⟩
    cases hl.symm.trans hl'
    exact hc
  by_cases hk : s.incompleteIn = true → l.session.readable = true
  · obtain ⟨l', s', hx, -, hwhole, -⟩ := cleanPipes_ok (h.pipe l hl) hl hk
    refine ⟨iff_of_true (fun hi => hreads.mpr (hk hi)) ⟨s', hx⟩, fun s1 h1 => ?_⟩
    cases hx.symm.trans h1
    exact hwhole
  · obtain ⟨hi, hr⟩ := Classical.not_imp.mp hk
    have hx := cleanPipes_stuck (h.pipe l hl) hl hi (Bool.eq_false_of_not_eq_true hr)
    refine ⟨iff_of_false (fun hc => hr (hreads.mp (hc hi))) ?_, fun s1 h1 => ?_⟩
    · rintro ⟨s1, h1⟩
      cases hx.symm.trans h1
    · cases hx.symm.trans h1

theorem Sound.put {l' : SessionPipe FramePart} {mid : Bool} (h : Sound s) (hl : s.pipe = some l)
    (hs : l'.Sound s.incompleteIn mid) : Sound { s with pipe := some l', midway := mid } where
  pipe l1 hl1 := by
    cases hl1
    exact hs
  fresh hc _ := h.fresh hc (by rw [hl]; rfl)

theorem Sound.aside {others : ℕ} {connecting hasLingerTimer pending terminating : Bool} (h : Sound s) :
    Sound { s with
      others := others, connecting := connecting, hasLingerTimer := hasLingerTimer, pending := pending,
      terminating := terminating } :=
  ⟨h.pipe, h.fresh⟩

theorem Sound.settle (h : Sound s) : Sound s.settle := by
  unfold PipedSession.settle
  split_ifs
  · exact h.aside
  · exact h

theorem exists_checkRead (x : EndView FramePart) : ∃ x', x.checkRead = .ok x' := by
  unfold EndView.checkRead
  split_ifs with hc
  · exact ⟨x, rfl⟩
  have hstate : x.self.state = .active ∨ x.self.state = .waitingForDelimiter := by
    rw [Bool.or_eq_true, not_or, Bool.not_eq_true', Bool.not_eq_false, Bool.not_eq_true', Bool.not_eq_false] at hc
    exact (Bool.or_eq_true _ _ ▸ hc.2).imp eq_of_beq eq_of_beq
  split
  · exact ⟨_, rfl⟩
  · rcases hstate with hs | hs
    · exact ⟨_, if_pos hs⟩
    · refine ⟨_, (if_neg ?_).trans (if_pos hs)⟩
      rw [hs]
      exact nofun
  · exact ⟨x, rfl⟩

theorem Sound.checkRead (h : Sound s) : ∃ s', s.checkRead = .ok s' ∧ Sound s' := by
  unfold PipedSession.checkRead
  cases hl : s.pipe with
  | none => exact ⟨s, rfl, h⟩
  | some l =>
    obtain ⟨x, hx⟩ := exists_checkRead l.sessionView
    obtain ⟨hdraws, hsleeps⟩ := checkRead_draws hx
    dsimp only
    rw [hx]
    exact ⟨_, rfl, h.put hl ((h.pipe l hl).idles hdraws hsleeps)⟩

theorem Sound.reconnect (h : Sound s) (he : s.engine = false) : Sound s.reconnect := by
  have hdrop : ∀ d : PipedSession, Sound d → d.engine = false →
      Sound (if d.options.subscribes then { d with pipe := d.pipe.map SessionPipe.hiccup } else d) := by
    intro d hd hengine
    split_ifs
    · refine ⟨fun l hl => ?_, fun hc hp => hd.fresh hc ?_⟩
      · obtain ⟨l0, hl0, rfl⟩ := Option.map_eq_some_iff.mp hl
        have hinc : d.incompleteIn = false := hd.fresh (.inl hengine) (by rw [hl0]; rfl)
        have hsound := hd.pipe l0 hl0
        rw [hinc] at hsound ⊢
        exact hsound.hiccup
      · rw [Option.isSome_map] at hp
        exact hp
    · exact hd
  unfold PipedSession.reconnect
  dsimp only
  split_ifs with hp hsub hsub
  · exact ⟨fun l hl => (by cases hl), fun _ hc => (by cases hc)⟩
  · exact ⟨fun l hl => (by cases hl), fun _ hc => (by cases hc)⟩
  · have hd := hdrop { s with connecting := s.options.reconnects } h.aside he
    rwa [if_pos hsub] at hd
  · exact h.aside

theorem Sound.lost (reason : ErrorReason) (h : Sound s) (he : s.engine = false) :
    ∃ s', (match reason with
      | .timeoutError | .connectionError => if s.active then s.reconnect else s
      | .protocolError => s).checkRead = .ok s' ∧ Sound s' := by
  cases reason with
  | protocolError => exact h.checkRead
  | connectionError | timeoutError =>
    split_ifs
    · exact (h.reconnect he).checkRead
    · exact h.checkRead

theorem Sound.engineError {reason : ErrorReason} (h : Sound s) :
    ((s.incompleteIn = true → s.Reads) ↔ ∃ s', s.engineError reason = .ok s') ∧
      ∀ s', s.engineError reason = .ok s' → Sound s' := by
  unfold PipedSession.engineError
  dsimp only
  cases hl : s.pipe with
  | none =>
    have hreads : s.Reads := fun l hc => (by cases hl.symm.trans hc)
    have hsound : Sound { s with engine := false } :=
      ⟨fun l hc => (by cases hl.symm.trans hc), fun _ hc => by rw [hl] at hc; cases hc⟩
    obtain ⟨s', hx, hs'⟩ := hsound.lost reason rfl
    rw [if_neg (by decide), ← hl]
    refine ⟨iff_of_true (fun _ => hreads) ⟨s', hx⟩, fun s1 h1 => ?_⟩
    cases hx.symm.trans h1
    exact hs'
  | some l =>
    have hd := h.pipe l hl
    have hreads : s.Reads ↔ l.session.readable = true := by
      refine ⟨fun hc => hc l hl, fun hc l' hl' => ?_⟩
      cases hl.symm.trans hl'
      exact hc
    rw [if_pos (show (some l).isSome = true from rfl), ← hl]
    by_cases hk : s.incompleteIn = true → l.session.readable = true
    · obtain ⟨l', d, hx, hs', -, heq⟩ := @cleanPipes_ok { s with engine := false } l hd hl hk
      have hsound : Sound d := by
        rw [heq]
        refine ⟨fun l1 hl1 => ?_, fun _ _ => rfl⟩
        cases hl1
        exact hs'
      obtain ⟨s', hx', hs1⟩ := hsound.lost reason (by rw [heq])
      rw [hx]
      refine ⟨iff_of_true (fun hi => hreads.mpr (hk hi)) ⟨s', hx'⟩, fun s2 h2 => ?_⟩
      cases hx'.symm.trans h2
      exact hs1
    · obtain ⟨hi, hr⟩ := Classical.not_imp.mp hk
      rw [@cleanPipes_stuck { s with engine := false } l hd hl hi (Bool.eq_false_of_not_eq_true hr)]
      refine ⟨iff_of_false (fun hc => hr (hreads.mp (hc hi))) ?_, fun s1 h1 => (by cases h1)⟩
      rintro ⟨s1, h1⟩
      cases h1

theorem Sound.atSocket (mid : Bool) {f : EndView FramePart → Except Fault (EndView FramePart)} (h : Sound s)
    (hf : ∀ x x', f x = .ok x' → x'.inpipe.unfinished = x.inpipe.unfinished ∧ ∀ c b, Feeds c b s.midway x → Feeds c b mid x')
    (hx : s.atSocket f = .ok s') : ∃ pipe, s' = { s with pipe := pipe } ∧ Sound { s with pipe := pipe, midway := mid } := by
  unfold PipedSession.atSocket at hx
  cases hl : s.pipe with
  | none =>
    rw [hl] at hx
    cases hx
    exact ⟨none, by rw [← hl], fun l hc => (by cases hc), fun _ hc => (by cases hc)⟩
  | some l =>
    rw [hl] at hx
    dsimp only at hx
    have hd := h.pipe l hl
    cases hp : l.socket with
    | none =>
      rw [hp] at hx
      cases hx
      exact ⟨some l, by rw [← hl], h.put hl ⟨hd.reads, hd.halfway, hd.awake, fun p hc => (by cases hp.symm.trans hc), hd.blank⟩⟩
    | some p =>
      rw [hp] at hx
      obtain ⟨x, h1, h2⟩ := bind_ok hx
      cases h2
      obtain ⟨hu, hfeeds⟩ := hf _ _ h1
      exact ⟨_, rfl, h.put hl (hd.feed hp hu (hfeeds _))⟩

theorem Sound.writeSocket {more room : Bool} (h : Sound s)
    (hm : ∀ l, s.pipe = some l → l.conflate = true → more = false) : Sound (s.writeSocket more room) := by
  unfold PipedSession.writeSocket
  cases hl : s.pipe with
  | none => exact h
  | some l =>
    dsimp only
    cases hp : l.socket with
    | none => exact h
    | some p =>
      dsimp only
      cases hx : (l.socketView p).write FramePart.more ⟨more, !s.midway⟩ room with
      | mk taken x =>
        dsimp only
        split_ifs with ht
        · rw [ht] at hx
          refine h.put hl ((h.pipe l hl).feed hp ?_ fun b hf => hf.write (hm l hl) hx)
          have hin := (leaves_write (x := l.socketView p) ⟨more, !s.midway⟩ room).inpipe
          rw [hx] at hin
          exact congrArg unfinished hin
        · exact h

theorem Sound.deliver (h : Sound s) (hx : s.deliver = .ok s') : Sound s' := by
  unfold PipedSession.deliver at hx
  cases hl : s.pipe with
  | none =>
    rw [hl] at hx
    exact ok.inj hx ▸ h
  | some l =>
    rw [hl] at hx
    dsimp only at hx
    have hd := h.pipe l hl
    split at hx
    · exact ok.inj hx ▸ h
    · rename_i c rest hc
      have hd : SessionPipe.Sound s.incompleteIn s.midway { l with toSession := rest } := hd.commands
      cases c with
      | activateRead =>
        have hwoken : SessionPipe.Sound s.incompleteIn s.midway (({ l with toSession := rest } : SessionPipe FramePart).putSession
            (({ l with toSession := rest } : SessionPipe FramePart).sessionView.processActivateRead).2) := by
          unfold processActivateRead
          split_ifs
          · exact ⟨hd.reads, hd.halfway, nofun, hd.feeds, hd.blank⟩
          · exact ⟨hd.reads, hd.halfway, hd.awake, hd.feeds, hd.blank⟩
        have hs := h.put hl hwoken
        split_ifs at hx
        · obtain ⟨s1, h1, hsound⟩ := hs.checkRead
          exact ok.inj (h1.symm.trans hx) ▸ hsound
        · exact ok.inj hx ▸ hs
      | hiccup => cases hx
      | pipeTerm =>
        obtain ⟨x, h1, h2⟩ := bind_ok hx
        exact ok.inj h2 ▸ h.put hl (hd.leaves (leaves_processPipeTerm h1))
      | pipeTermAck =>
        obtain ⟨x, -, h2⟩ := bind_ok hx
        cases h2
        exact Sound.settle ⟨fun l1 hl1 => (by cases hl1), fun _ hc => (by cases hc)⟩

theorem Sound.processTerm {linger : ℤ} (h : Sound s) (hx : s.processTerm linger = .ok s') : Sound s' := by
  unfold PipedSession.processTerm at hx
  cases hl : s.pipe with
  | none =>
    rw [hl] at hx
    cases hx
    rw [← hl]
    split_ifs <;> exact h.aside
  | some l =>
    rw [hl] at hx
    obtain ⟨x, h1, h2⟩ := bind_ok hx
    have hs : Sound { s with
        pending := true, hasLingerTimer := s.hasLingerTimer || 0 < linger, pipe := some (l.putSession x) } :=
      (h.put hl ((h.pipe l hl).leaves (leaves_terminate h1))).aside
    dsimp only at h2
    split_ifs at h2
    · obtain ⟨s1, hx1, hsound⟩ := hs.checkRead
      exact ok.inj (hx1.symm.trans h2) ▸ hsound
    · exact ok.inj h2 ▸ hs

theorem Sound.processAttach (h : Sound s) (he : s.engine = false)
    (hk : s.pipe = none → s.terminating = false → s.incompleteIn = false) : Sound s.processAttach := by
  unfold PipedSession.processAttach
  dsimp only
  split_ifs with hc
  · have hinc := hk (Option.isNone_iff_eq_none.mp hc.1) hc.2
    refine ⟨fun l hl => ?_, fun _ _ => hinc⟩
    cases hl
    rw [hinc]
    exact SessionPipe.new_sound _
  · exact ⟨h.pipe, fun _ => h.fresh (.inl he)⟩

theorem Sound.step {op : Op} (h : Sound s) (hr : s.Ready op) (hk : s.Keeps op) (hx : s.run op = .ok s') : Sound s' := by
  cases op with
  | write more room => exact ok.inj hx ▸ h.writeSocket hk
  | flushSocket =>
    have hf : ∀ x x' : EndView FramePart, (.ok x.flush : Except Fault _) = .ok x' → x'.inpipe.unfinished = x.inpipe.unfinished ∧
        ∀ c b, Feeds c b s.midway x → Feeds c b s.midway x' := fun x x' hf => by
      cases hf
      exact ⟨congrArg unfinished flush_leaves.1.inpipe, fun c b hfeeds => hfeeds.flush⟩
    obtain ⟨pipe, rfl, hs⟩ := h.atSocket s.midway hf hx
    exact hs
  | rollback =>
    obtain ⟨s1, h1, h2⟩ := bind_ok hx
    cases h2
    have hf : ∀ x x' : EndView FramePart, x.rollback FramePart.more = .ok x' → x'.inpipe.unfinished = x.inpipe.unfinished ∧
        ∀ c b, Feeds c b s.midway x → Feeds c b false x' := fun x x' hf => by
      refine ⟨?_, fun c b hfeeds => (hfeeds.rollback hf).1⟩
      unfold rollback at hf
      split_ifs at hf <;> exact ok.inj hf ▸ rfl
    obtain ⟨pipe, rfl, hs⟩ := h.atSocket false hf h1
    exact hs
  | read =>
    have hf : ∀ x x' : EndView FramePart, (do return (← x.read).2 : Except Fault _) = .ok x' →
        x'.inpipe.unfinished = x.inpipe.unfinished ∧ ∀ c b, Feeds c b s.midway x → Feeds c b s.midway x' := fun x x' hf => by
      obtain ⟨⟨r, x1⟩, h1, h2⟩ := bind_ok hf
      cases h2
      refine ⟨?_, fun c b hfeeds => hfeeds.read h1⟩
      rcases read_draws h1 with ⟨f, -, hdraws, -⟩ | ⟨-, hdraws | hdraws, -⟩
      · exact hdraws.unfinished
      · exact hdraws.unfinished
      · exact hdraws.unfinished
    obtain ⟨pipe, rfl, hs⟩ := h.atSocket s.midway hf hx
    exact hs
  | terminate delay =>
    obtain ⟨s1, h1, h2⟩ := bind_ok hx
    cases h2
    have hf : ∀ x x' : EndView FramePart, x.terminate FramePart.more delay = .ok x' → x'.inpipe.unfinished = x.inpipe.unfinished ∧
        ∀ c b, Feeds c b s.midway x → Feeds c b false x' := fun x x' hf =>
      ⟨congrArg unfinished (leaves_terminate hf).inpipe, fun c b hfeeds => hfeeds.terminate hf⟩
    obtain ⟨pipe, rfl, hs⟩ := h.atSocket false hf h1
    exact hs
  | deliverSocket =>
    unfold run at hx
    cases hl : s.pipe with
    | none => exact absurd hr (by rw [Ready, hl]; exact Bool.false_ne_true)
    | some l =>
      rw [hl] at hx
      obtain ⟨l', h1, h2⟩ := bind_ok hx
      exact ok.inj h2 ▸ h.put hl ((h.pipe l hl).deliverSocket (hk l hl) h1)
  | deliver => exact h.deliver hx
  | pull =>
    obtain ⟨⟨r, s1⟩, h1, h2⟩ := bind_ok hx
    cases h2
    cases hl : s.pipe with
    | none =>
      unfold pullMsg at h1
      rw [hl] at h1
      cases h1
      exact h
    | some l =>
      obtain ⟨l', hl', hs', hcases⟩ := pullMsg_spec (h.pipe l hl) hl h1
      rcases hcases with ⟨-, rfl⟩ | ⟨f, -, -, rfl, -⟩
      · exact h.put hl hs'
      · refine ⟨fun l1 hl1 => ?_, fun hc _ => ?_⟩
        · cases hl1
          exact hs'
        · rcases hc with hc | hc
          · exact nomatch hr.symm.trans hc
          · cases hc
  | push f room =>
    cases hx
    unfold pushMsg
    split
    · exact h
    · rename_i l hl
      exact h.put hl ((h.pipe l hl).leaves (leaves_write f room))
  | flush =>
    cases hx
    unfold PipedSession.flush
    split
    · exact h
    · rename_i l hl
      exact h.put hl ((h.pipe l hl).leaves flush_leaves.1)
  | attach => exact ok.inj hx ▸ h.processAttach hr.2 hk
  | engineError reason => exact h.engineError.2 s' hx
  | processTerm linger => exact h.processTerm hx
  | timer =>
    change s.timerEvent = .ok s' at hx
    unfold timerEvent at hx
    split at hx
    · cases hx
    · rename_i l hl
      obtain ⟨x, h1, h2⟩ := bind_ok hx
      exact ok.inj h2 ▸ (h.put hl ((h.pipe l hl).leaves (leaves_terminate h1))).aside
  | opened => exact ok.inj hx ▸ h.aside
  | terminated => exact ok.inj hx ▸ h.aside.settle

theorem run_sound {ops : List Op} (h : Run Start (Guarded Keeps Step) ops s) : Sound s := by
  refine h.invariant Sound (fun s hs => ?_) fun s op s' hi hs => hi.step hs.2.1 hs.1 hs.2.2
  obtain ⟨options, active, pipe, rfl, hpipe⟩ := hs
  refine ⟨fun l hl => ?_, fun _ _ => rfl⟩
  obtain rfl := hpipe l hl
  exact SessionPipe.new_sound _

/-- `clean_pipes` ends, and leaves whole messages in both directions, exactly as long as the end of a session that has read a
part of a message still reads; and an engine pulls the beginning of a message first. -/
theorem connection_loss_recovers {ops : List Op} (h : Run Start (Guarded Keeps Step) ops s) :
    (s.pipe.isSome = true → ((s.incompleteIn = true → s.Reads) ↔ ∃ s', s.cleanPipes = .ok s') ∧
      ∀ s', s.cleanPipes = .ok s' → s'.Whole) ∧
    (∀ reason, s.Keeps (.engineError reason) ↔ ∃ s', s.run (.engineError reason) = .ok s') ∧
    ∀ f s', s.engine = true → s.pulled = false → s.pullMsg = .ok (some f, s') → f.first = true := by
  have hs := run_sound h
  refine ⟨cleanPipes_iff hs, fun reason => hs.engineError.1, fun f s' _ hp hx => ?_⟩
  cases hl : s.pipe with
  | none =>
    unfold pullMsg at hx
    rw [hl] at hx
    cases (ok_pair hx).1
  | some l =>
    obtain ⟨l', -, -, hcases⟩ := pullMsg_spec (hs.pipe l hl) hl hx
    rcases hcases with ⟨hc, -⟩ | ⟨g, hg, hfirst, -⟩
    · cases hc
    · cases hg
      rw [hfirst, hs.fresh (.inr hp) (by rw [hl]; rfl)]
      rfl

/-- Two messages are written and the socket is closed; the connection is lost in the middle of the first of them. -/
def halfRead : List Op :=
  [.attach, .write true true, .write false true, .write true true, .write false true, .flushSocket, .pull, .terminate false,
    .deliver, .processTerm (-1), .engineError .connectionError, .attach]

theorem connection_loss_recovers_half : ∃ s, Run Start (Guarded Keeps Step) halfRead s ∧
    (s.incompleteIn, s.engine, s.pulled) = (false, true, false) ∧
    (s.pipe.isSome = true → ((s.incompleteIn = true → s.Reads) ↔ ∃ s', s.cleanPipes = .ok s') ∧
      ∀ s', s.cleanPipes = .ok s' → s'.Whole) ∧
    (∀ reason, s.Keeps (.engineError reason) ↔ ∃ s', s.run (.engineError reason) = .ok s') ∧
    ∀ f s', s.engine = true → s.pulled = false → s.pullMsg = .ok (some f, s') → f.first = true :=
  exists_run (P := fun s => (s.incompleteIn, s.engine, s.pulled) = (false, true, false))
    (s := new ⟨false, false, false, true⟩ true (some (.new false)))
    ⟨_, _, _, rfl, fun l hl => (Option.some.inj hl).symm⟩ (by decide +kernel)
    fun _ hrun hs => ⟨hs, connection_loss_recovers hrun⟩

/-- With a linger period of zero the pipe does not read any more when the connection is lost in the middle of a message. -/
theorem cleaning_can_fail : ∃ ops s, Run Start (Guarded free Step) ops s ∧ s.Ready (.engineError .connectionError) ∧
    s.incompleteIn = true ∧ s.pipe.isSome = true ∧ (∀ s', s.cleanPipes ≠ .ok s') := by
  refine ⟨[.attach, .write true true, .write false true, .flushSocket, .pull, .terminate false, .deliver, .processTerm 0],
    exists_run (P := fun s => s.engine = true ∧ s.incompleteIn = true ∧ s.pipe.isSome = true ∧
      s.cleanPipes.toOption.isSome = false) (s := new ⟨false, false, false, true⟩ true (some (.new false)))
      ⟨_, _, _, rfl, fun l hl => (Option.some.inj hl).symm⟩ (by decide +kernel)
      fun s _ ⟨hengine, hinc, hpipe, hfails⟩ => ?_⟩
  refine ⟨hengine, hinc, hpipe, fun s' hc => ?_⟩
  rw [hc] at hfails
  cases hfails

end PipedSession

end Zmq
