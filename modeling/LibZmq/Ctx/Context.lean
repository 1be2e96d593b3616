import LibZmq.Run

/-! `ctx_t`: the slots of its sockets, and how it is shut down and terminated together with the reaper, which closes the
sockets. -/

namespace Zmq

open List Bool

open Function (update update_of_ne update_self)

universe u v

/-- Whose mailbox is in a slot. -/
inductive SlotT (S : Type u) where
  | term | reaper | ioThread
  | socket (s : S)

inductive ReaperCmd (S : Type u) where
  | reap (s : S)
  | reaped
  | stop

inductive SocketPhase where
  | unborn | opened
  /-- `reap` is on its way to the reaper -/
  | closing
  | reaping
  /-- the reaper has destroyed the socket and is to send `reaped` -/
  | leaving
  | gone
deriving DecidableEq

/-- How far a call of `terminate` has come. -/
inductive TermPhase (S : Type u) (N : Type v) where
  /-- with the lock held; connections that are to be made up, and what `terminating` has been -/
  | connecting (left : List (N × S)) (saved : Bool)
  | waiting
deriving DecidableEq

structure Context (S : Type u) (N : Type v) where
  starting : Bool
  terminating : Bool
  maxSockets : ℕ
  ioThreadCount : ℕ
  /-- the size of `io_threads` -/
  ioThreads : ℕ
  slotCount : ℕ
  slots : ℕ → Option (SlotT S)
  /-- the back comes first -/
  emptySlots : List ℕ
  sockets : List S
  tid : S → ℕ
  phase : S → SocketPhase
  /-- the commands that have been counted for the socket and that it has not processed -/
  waits : S → ℕ
  endpoints : N → Option S
  pendingConnections : List (N × S)
  term : Option (TermPhase S N)
  /-- the mailbox of the reaper, and its `sockets` and `terminating` -/
  reaperMailbox : List (ReaperCmd S)
  reaped : ℤ
  reaperTerminating : Bool
  reaperDone : Bool
  /-- the socket that the reaper is destroying -/
  leaving : Option S
  /-- the `done` commands for the thread that terminates -/
  termMailbox : ℕ
  /-- the number of sockets each time that the reaper has been told to stop -/
  stops : List ℕ
  finished : Bool

inductive ContextFault where
  | assertion

namespace Context

variable {S : Type u} {N : Type v}

def new (maxSockets ioThreadCount : ℕ) : Context S N where
  starting := true
  terminating := false
  maxSockets := maxSockets
  ioThreadCount := ioThreadCount
  ioThreads := 0
  slotCount := 0
  slots _ := none
  emptySlots := []
  sockets := []
  tid _ := 0
  phase _ := .unborn
  waits _ := 0
  endpoints _ := none
  pendingConnections := []
  term := none
  reaperMailbox := []
  reaped := 0
  reaperTerminating := false
  reaperDone := false
  leaving := none
  termMailbox := 0
  stops := []
  finished := false

/-- `term_tid`, `reaper_tid` and those of the threads come first. -/
def start (c : Context S N) : Context S N :=
  if c.starting then { c with
    starting := false
    ioThreads := c.ioThreadCount
    slotCount := c.maxSockets + c.ioThreadCount + 2
    slots := fun n => if n = 0 then some .term else if n = 1 then some .reaper
      else if n < c.ioThreadCount + 2 then some .ioThread else none
    emptySlots := range' (c.ioThreadCount + 2) c.maxSockets }
  else c

/-- `reaper->stop ()` -/
def stopReaper (c : Context S N) : Context S N :=
  { c with reaperMailbox := c.reaperMailbox ++ [.stop], stops := c.stops ++ [c.sockets.length] }

variable [DecidableEq S] (c : Context S N)

/-- `ok` says whether the operating system has given the socket its mailbox. The result tells whether there is a socket. -/
def createSocket (s : S) (ok : Bool) : Bool × Context S N :=
  let c := c.start
  if c.terminating then (false, c)
  else match c.emptySlots with
    | [] => (false, c)
    | slot :: rest =>
      if !ok then (false, c)
      else (true, { c with
        emptySlots := rest
        sockets := c.sockets ++ [s]
        tid := update c.tid s slot
        slots := update c.slots slot (some (.socket s))
        phase := update c.phase s .opened })

def destroySocket (s : S) : Context S N :=
  let c := { c with
    emptySlots := c.tid s :: c.emptySlots
    slots := update c.slots (c.tid s) none
    sockets := c.sockets.erase s }
  if c.terminating && c.sockets.isEmpty then c.stopReaper else c

/-- `pend_connection`; a socket that has been bound in the meantime is counted a command. -/
def pendConnection (addr : N) (s : S) : Context S N :=
  match c.endpoints addr with
  | none => { c with
      waits := update c.waits s (c.waits s + 1), pendingConnections := c.pendingConnections ++ [(addr, s)] }
  | some peer => { c with waits := update c.waits peer (c.waits peer + 1) }

def connectPending [DecidableEq N] (c : Context S N) (addr : N) : Context S N :=
  { c with pendingConnections := c.pendingConnections.filter fun x => x.1 ≠ addr }

/-- `bind` of an inproc address -/
def bind [DecidableEq N] (c : Context S N) (addr : N) (s : S) : Context S N :=
  match c.endpoints addr with
  | none => connectPending { c with endpoints := update c.endpoints addr (some s) } addr
  | some _ => c

def unregisterEndpoints (s : S) : Context S N :=
  { c with endpoints := fun addr => if c.endpoints addr = some s then none else c.endpoints addr }

/-- The socket is handed over to the reaper. -/
def close (s : S) : Context S N :=
  { c with phase := update c.phase s .closing, reaperMailbox := c.reaperMailbox ++ [.reap s] }

section

omit [DecidableEq S]

def shutdown : Context S N :=
  if !c.starting && !c.terminating then
    let c := { c with terminating := true }
    if c.sockets.isEmpty then c.stopReaper else c
  else c

/-! `terminate`, in steps. -/

def terminate : Context S N :=
  { c with terminating := false, term := some (.connecting c.pendingConnections c.terminating) }

/-- A pending connection is made up by a socket that binds its address. -/
def connectUp [DecidableEq N] (c : Context S N) (s : S) (ok : Bool) : Except ContextFault (Context S N) :=
  match c.term with
  | some (.connecting ((addr, _) :: left) saved) =>
    let x := c.createSocket s ok
    if !x.1 then .error .assertion
    else .ok { (x.2.bind addr s).close s with term := some (.connecting left saved) }
  | _ => .ok c

def stopSockets : Context S N :=
  match c.term with
  | some (.connecting [] saved) =>
    let c := { c with terminating := saved }
    if c.starting then { c with term := none, finished := true }
    else
      let c := { c with terminating := true, term := some .waiting }
      if !saved && c.sockets.isEmpty then c.stopReaper else c
  | _ => c

def recvDone : Except ContextFault (Context S N) :=
  if !c.sockets.isEmpty then .error .assertion
  else .ok { c with termMailbox := c.termMailbox - 1, term := none, finished := true }

/-- `send_done` -/
def done : Context S N := { c with termMailbox := c.termMailbox + 1, reaperDone := true }

/-- `in_event` of the reaper, for one command -/
def reaper : Context S N :=
  match c.reaperMailbox with
  | [] => c
  | .reap s :: rest => { c with
      reaperMailbox := rest, reaped := c.reaped + 1, phase := update c.phase s .reaping }
  | .reaped :: rest =>
    let c := { c with reaperMailbox := rest, reaped := c.reaped - 1 }
    if c.reaped = 0 ∧ c.reaperTerminating then c.done else c
  | .stop :: rest =>
    let c := { c with reaperMailbox := rest, reaperTerminating := true }
    if c.reaped = 0 then c.done else c

inductive Op (S : Type u) (N : Type v) where
  | set (maxSockets ioThreadCount : ℕ)
  | createSocket (s : S) (ok : Bool)
  | pendConnection (addr : N) (s : S)
  | bind (addr : N) (s : S)
  | unregisterEndpoints (s : S)
  | incSeqnum (s : S)
  | processSeqnum (s : S)
  | close (s : S)
  | reaper
  /-- the reaper destroys a socket, and tells itself of it -/
  | destroySocket (s : S)
  | sendReaped
  | shutdown
  | terminate
  | connectUp (s : S) (ok : Bool)
  | stopSockets
  /-- the thread that terminates is interrupted; it may call `terminate` again -/
  | interrupt
  | recvDone

/-- A thread that terminates has the lock until it waits. -/
def Unlocked : Prop := c.term = none ∨ c.term = some .waiting

end

instance [DecidableEq N] (c : Context S N) : Decidable c.Unlocked := by unfold Unlocked; infer_instance

/-- What threads keep to: users call functions of sockets that are open, a connection that is pending has been counted, and
a socket is destroyed once nothing that has been counted for it is missing. -/
def Ready : Op S N → Prop
  | .set _ _ => c.finished = false
  | .createSocket s _ => c.finished = false ∧ c.Unlocked ∧ c.phase s = .unborn
  | .pendConnection _ s | .bind _ s | .close s => c.finished = false ∧ c.phase s = .opened
  | .unregisterEndpoints s | .incSeqnum s => c.finished = false ∧ s ∈ c.sockets
  | .processSeqnum s => c.finished = false ∧ (c.pendingConnections.countP fun x => x.2 = s) < c.waits s
  | .reaper => c.finished = false ∧ c.leaving = none ∧ c.reaperDone = false
  | .destroySocket s => c.finished = false ∧ c.Unlocked ∧ c.leaving = none ∧ c.phase s = .reaping ∧ c.waits s = 0
  | .sendReaped => c.finished = false ∧ c.leaving ≠ none
  | .shutdown => c.finished = false ∧ c.Unlocked
  | .terminate => c.finished = false ∧ c.term = none
  | .connectUp s _ => c.finished = false ∧ c.phase s = .unborn
  | .stopSockets => c.finished = false
  | .interrupt => c.finished = false ∧ c.term = some .waiting
  | .recvDone => c.finished = false ∧ c.term = some .waiting ∧ 0 < c.termMailbox

instance [DecidableEq N] (c : Context S N) (op : Op S N) : Decidable (c.Ready op) := by
  cases op <;> unfold Ready <;> infer_instance

def run [DecidableEq N] (c : Context S N) : Op S N → Except ContextFault (Context S N)
  | .set maxSockets ioThreadCount => .ok { c with maxSockets := maxSockets, ioThreadCount := ioThreadCount }
  | .createSocket s ok => .ok (c.createSocket s ok).2
  | .pendConnection addr s => .ok (c.pendConnection addr s)
  | .bind addr s => .ok (c.bind addr s)
  | .unregisterEndpoints s => .ok (c.unregisterEndpoints s)
  | .incSeqnum s => .ok { c with waits := update c.waits s (c.waits s + 1) }
  | .processSeqnum s => .ok { c with waits := update c.waits s (c.waits s - 1) }
  | .close s => .ok (c.close s)
  | .reaper => .ok c.reaper
  | .destroySocket s => .ok { c.destroySocket s with phase := update c.phase s .leaving, leaving := some s }
  | .sendReaped => .ok { c with reaperMailbox := c.reaperMailbox ++ [.reaped], leaving := none }
  | .shutdown => .ok c.shutdown
  | .terminate => .ok c.terminate
  | .connectUp s ok => c.connectUp s ok
  | .stopSockets => .ok c.stopSockets
  | .interrupt => .ok { c with term := none }
  | .recvDone => c.recvDone

def Start : Prop := ∃ maxSockets ioThreadCount, c = new maxSockets ioThreadCount

abbrev Step [DecidableEq N] : Context S N → Op S N → Context S N → Prop := Does Ready run

omit [DecidableEq S] in
/-- The slots of the sockets and the empty slots are those after the slots of threads, and the reaper is told to stop once,
when there is no socket. -/
structure Clean (c : Context S N) : Prop where
  slots : c.starting = false → (c.sockets.map c.tid ++ c.emptySlots).Perm
    (range' (c.ioThreads + 2) (c.slotCount - (c.ioThreads + 2)))
  mailboxes : ∀ s ∈ c.sockets, c.slots (c.tid s) = some (.socket s)
  empty : ∀ n ∈ c.emptySlots, c.slots n = none
  once : c.stops.length ≤ 1
  none : ∀ n ∈ c.stops, n = 0
  finished : c.finished = true → c.starting = true ∨ c.stops = [0]

/-- There is an empty slot for each connection that is pending when the context is terminated, and a socket gets its
mailbox. -/
def Keeps : Op S N → Prop
  | .terminate => c.pendingConnections.length ≤ c.emptySlots.length
  | .connectUp _ ok => ok = true
  | _ => True

instance (op : Op S N) : Decidable (c.Keeps op) := by
  cases op <;> unfold Keeps <;> infer_instance

section

omit [DecidableEq S]

def down : Bool :=
  c.terminating || match c.term with
    | some (.connecting _ saved) => saved
    | _ => false

structure Shared (c : Context S N) : Prop where
  slots : c.starting = false → (c.sockets.map c.tid ++ c.emptySlots).Perm
    (range' (c.ioThreads + 2) (c.slotCount - (c.ioThreads + 2)))
  mailboxes : ∀ s ∈ c.sockets, c.slots (c.tid s) = some (.socket s)
  empty : ∀ n ∈ c.emptySlots, c.slots n = none
  nodup : c.sockets.Nodup
  fresh : c.starting = true → c.sockets = [] ∧ c.emptySlots = []

def reaps (l : List (ReaperCmd S)) : List S := l.filterMap fun
  | .reap s => some s
  | _ => none

structure Lives (c : Context S N) : Prop where
  unborn : ∀ s ∈ c.sockets, c.phase s ≠ .unborn
  alive : ∀ s, c.phase s = .opened ∨ c.phase s = .closing ∨ c.phase s = .reaping → s ∈ c.sockets
  closing : ∀ s ∈ reaps c.reaperMailbox, c.phase s = .closing
  once : (reaps c.reaperMailbox).Nodup

structure Pends (c : Context S N) : Prop where
  pending : ∀ x ∈ c.pendingConnections, x.2 ∈ c.sockets
  counted : ∀ s, (c.pendingConnections.countP fun x => x.2 = s) ≤ c.waits s
  left : ∀ left saved, c.term = some (.connecting left saved) →
    c.terminating = false ∧ left.length ≤ c.emptySlots.length ∧ ∀ x ∈ left, x.2 ∈ c.sockets

structure Ends (c : Context S N) : Prop where
  starting : c.starting = true → c.down = false ∧ c.term ≠ some .waiting
  stops : c.stops = if c.down && !c.starting && c.sockets.isEmpty then [0] else []
  waiting : c.term = some .waiting → c.terminating = true
  told : ReaperCmd.stop ∈ c.reaperMailbox ∨ c.reaperTerminating = true ∨ 0 < c.termMailbox → c.stops ≠ []
  finished : c.finished = true → c.starting = true ∨ c.stops = [0]

end

structure Sound (c : Context S N) : Prop extends Shared c, Lives c, Pends c where
  ends : Ends c

variable {c c' : Context S N} {s : S} {addr : N} {ok : Bool} {rest : List ℕ} {slot : ℕ}

theorem Sound.clean (h : Sound c) : Clean c where
  slots := h.slots
  mailboxes := h.mailboxes
  empty := h.empty
  once := by
    rw [h.ends.stops]
    split_ifs
    · exact Nat.le_refl 1
    · exact Nat.zero_le 1
  none n hn := by
    rw [h.ends.stops] at hn
    split_ifs at hn
    · exact mem_singleton.mp hn
    · exact nomatch hn
  finished := h.ends.finished

omit [DecidableEq S] in
theorem Shared.distinct (h : Shared c) (hs : c.starting = false) : (c.sockets.map c.tid ++ c.emptySlots).Nodup :=
  (h.slots hs).nodup_iff.mpr nodup_range'

omit [DecidableEq S] in
theorem Shared.start (h : Shared c) : Shared c.start := by
  unfold Context.start
  split_ifs with hs
  · obtain ⟨hsockets, -⟩ := h.fresh hs
    refine ⟨fun _ => ?_, fun s hmem => ?_, fun n hn => ?_, h.nodup, nofun⟩
    · rw [hsockets, map_nil, nil_append, show c.maxSockets + c.ioThreadCount + 2 - (c.ioThreadCount + 2) = c.maxSockets by omega]
    · rw [hsockets] at hmem
      exact nomatch hmem
    · obtain ⟨hle, -⟩ := mem_range'_1.mp hn
      dsimp only
      rw [if_neg (by omega), if_neg (by omega), if_neg (by omega)]
  · exact h

theorem Sound.start (h : Sound c) (hf : c.finished = false) : Sound c.start := by
  have hshared := h.toShared.start
  unfold Context.start at hshared ⊢
  split_ifs at hshared ⊢ with hs
  · obtain ⟨hdown, hwait⟩ := h.ends.starting hs
    obtain ⟨hsockets, -⟩ := h.fresh hs
    refine ⟨hshared, ⟨h.unborn, h.alive, h.closing, h.once⟩, ⟨h.pending, h.counted, fun left saved ht => ?_⟩,
      ⟨nofun, ?_, h.ends.waiting, h.ends.told, fun hc => nomatch hf.symm.trans hc⟩⟩
    · obtain ⟨hterm, -, hleft⟩ := h.left left saved ht
      have hnil : left = [] := eq_nil_iff_forall_not_mem.mpr fun x hx => by
        have := hleft x hx
        rw [hsockets] at this
        exact absurd this not_mem_nil
      refine ⟨hterm, ?_, hleft⟩
      rw [hnil]
      exact Nat.zero_le _
    · have hstops := h.ends.stops
      rw [hdown] at hstops
      change c.stops = if c.down && !false && c.sockets.isEmpty then [0] else []
      rw [hdown]
      exact hstops
  · exact h

def occupy (c : Context S N) (s : S) (slot : ℕ) (rest : List ℕ) : Context S N :=
  { c with
    emptySlots := rest
    sockets := c.sockets ++ [s]
    tid := update c.tid s slot
    slots := update c.slots slot (some (.socket s))
    phase := update c.phase s .opened }

theorem createSocket_cases (c : Context S N) (s : S) (ok : Bool) : c.createSocket s ok = (false, c.start) ∨
    ∃ slot rest, c.start.terminating = false ∧ c.start.emptySlots = slot :: rest ∧
      c.createSocket s ok = (true, c.start.occupy s slot rest) := by
  unfold createSocket
  by_cases ht : c.start.terminating = true
  · rw [if_pos ht]
    exact .inl rfl
  · rw [if_neg ht]
    split
    · exact .inl rfl
    · rename_i slot rest he
      cases ok with
      | false => exact .inl rfl
      | true => exact .inr ⟨slot, rest, eq_false_of_not_eq_true ht, he, rfl⟩

theorem Shared.occupy (h : Shared c) (hs : c.starting = false) (he : c.emptySlots = slot :: rest)
    (hnew : s ∉ c.sockets) : Shared (c.occupy s slot rest) := by
  have hdistinct := h.distinct hs
  rw [he] at hdistinct
  have hslot : ∀ x ∈ c.sockets, c.tid x ≠ slot := fun x hx hc =>
    (nodup_append.mp hdistinct).2.2 _ (mem_map_of_mem hx) slot mem_cons_self hc
  have hrest : slot ∉ rest := (nodup_cons.mp (nodup_append.mp hdistinct).2.1).1
  have htid : ∀ x ∈ c.sockets, update c.tid s slot x = c.tid x := fun x hx =>
    update_of_ne (by rintro rfl; exact hnew hx) _ _
  refine ⟨fun _ => ?_, fun x hx => ?_, fun n hn => ?_, ?_, fun hc => nomatch hs.symm.trans hc⟩
  · change ((c.sockets ++ [s]).map (update c.tid s slot) ++ rest).Perm _
    rw [map_append, map_congr_left htid, map_singleton, update_self, append_assoc, singleton_append, ← he]
    exact h.slots hs
  · change update c.slots slot _ (update c.tid s slot x) = _
    rcases mem_append.mp hx with hx | hx
    · rw [htid x hx, update_of_ne (hslot x hx)]
      exact h.mailboxes x hx
    · rw [mem_singleton.mp hx, update_self, update_self]
  · change update c.slots slot _ n = _
    rw [update_of_ne (by rintro rfl; exact hrest hn)]
    exact h.empty n (by rw [he]; exact mem_cons_of_mem slot hn)
  · refine nodup_append.mpr ⟨h.nodup, pairwise_singleton _ s, fun x hx y hy => ?_⟩
    rw [mem_singleton.mp hy]
    rintro rfl
    exact hnew hx

theorem Lives.occupy (h : Lives c) (hnew : c.phase s = .unborn) : Lives (c.occupy s slot rest) := by
  refine ⟨fun x hx => ?_, fun x hx => ?_, fun x hx => ?_, h.once⟩
  · change update c.phase s .opened x ≠ _
    rcases eq_or_ne x s with rfl | hne
    · rw [update_self]
      exact SocketPhase.noConfusion
    · rw [update_of_ne hne]
      exact h.unborn x ((mem_append.mp hx).resolve_right fun hc => hne (mem_singleton.mp hc))
  · change update c.phase s .opened x = _ ∨ update c.phase s .opened x = _ ∨ update c.phase s .opened x = _ at hx
    rcases eq_or_ne x s with rfl | hne
    · exact mem_append_right _ (mem_singleton_self x)
    · rw [update_of_ne hne] at hx
      exact mem_append_left _ (h.alive x hx)
  · have hc := h.closing x hx
    change update c.phase s .opened x = _
    rw [update_of_ne]
    · exact hc
    · rintro rfl
      exact SocketPhase.noConfusion (hc.symm.trans hnew)

theorem Pends.occupy (h : Pends c) (hl : ∀ left saved, c.term = some (.connecting left saved) → left.length ≤ rest.length) :
    Pends (c.occupy s slot rest) := by
  refine ⟨fun x hx => mem_append_left _ (h.pending x hx), h.counted, fun left saved ht => ?_⟩
  obtain ⟨hterm, -, hleft⟩ := h.left left saved ht
  exact ⟨hterm, hl left saved ht, fun x hx => mem_append_left _ (hleft x hx)⟩

theorem Ends.occupy (h : Ends c) (hs : c.starting = false) (hf : c.finished = false)
    (hd : c.down = false ∨ c.sockets ≠ []) : Ends (c.occupy s slot rest) := by
  have hnone : c.stops = [] := by
    rw [h.stops]
    rcases hd with hd | hd
    · rw [hd]
      rfl
    · rw [isEmpty_eq_false_iff.mpr hd, Bool.and_false]
      rfl
  refine ⟨fun hc => (nomatch hs.symm.trans hc), ?_, h.waiting, h.told, fun hc => nomatch hf.symm.trans hc⟩
  change c.stops = if c.down && !c.starting && (c.sockets ++ [s]).isEmpty then [0] else []
  have hne : (c.sockets ++ [s]).isEmpty = false := isEmpty_eq_false_iff.mpr (by simp)
  rw [hnone, hne, Bool.and_false]
  rfl

theorem Shared.destroy (h : Shared c) (hmem : s ∈ c.sockets) : Shared { c with
    emptySlots := c.tid s :: c.emptySlots
    slots := update c.slots (c.tid s) none
    sockets := c.sockets.erase s } := by
  have hs : c.starting = false := by
    by_contra hc
    rw [(h.fresh (eq_true_of_not_eq_false hc)).1] at hmem
    exact nomatch hmem
  have hdistinct := h.distinct hs
  have hmap : (c.sockets.map c.tid).Perm (c.tid s :: (c.sockets.erase s).map c.tid) :=
    (perm_cons_erase hmem).map c.tid
  refine ⟨fun _ => ?_, fun x hx => ?_, fun n hn => ?_, h.nodup.erase s, fun hc => nomatch hs.symm.trans hc⟩
  · refine List.Perm.trans ?_ (h.slots hs)
    exact perm_middle.trans (hmap.symm.append_right c.emptySlots)
  · have hx' := mem_of_mem_erase hx
    have htid : c.tid x ≠ c.tid s := by
      intro he
      have hnodup := ((hmap.append_right c.emptySlots).nodup_iff.mp hdistinct)
      refine (nodup_cons.mp (nodup_append.mp hnodup).1).1 ?_
      rw [← he]
      exact mem_map_of_mem hx
    change update c.slots (c.tid s) none (c.tid x) = _
    rw [update_of_ne htid]
    exact h.mailboxes x hx'
  · change update c.slots (c.tid s) none n = none
    rcases eq_or_ne n (c.tid s) with rfl | hne
    · exact update_self _ _ _
    · rw [update_of_ne hne]
      exact h.empty n ((mem_cons.mp hn).resolve_left hne)

theorem countP_pos {l : List (N × S)} (h : (l.countP fun x => x.2 = s) ≤ 0) : ∀ x ∈ l, x.2 ≠ s := fun x hx hc =>
  absurd (countP_pos_iff.mpr ⟨x, hx, decide_eq_true hc⟩) (Nat.not_lt.mpr h)

theorem Sound.destroySocket (h : Sound c) (hr : c.Ready (.destroySocket s)) :
    Sound { c.destroySocket s with phase := update c.phase s .leaving, leaving := some s } := by
  obtain ⟨hf, hlock, hleaving, hphase, hwaits⟩ := hr
  have hmem := h.alive s (.inr (.inr hphase))
  have hs : c.starting = false := by
    by_contra hc
    rw [(h.fresh (eq_true_of_not_eq_false hc)).1] at hmem
    exact nomatch hmem
  have hterm : ∀ left saved, c.term ≠ some (.connecting left saved) := by
    intro left saved hc
    rcases hlock with ht | ht
    · rw [hc] at ht
      cases ht
    · rw [hc] at ht
      cases ht
  have hdown : c.down = c.terminating := by
    unfold down
    rcases hlock with ht | ht
    · rw [ht]
      exact or_false _
    · rw [ht]
      exact or_false _
  have hshared := h.toShared.destroy hmem
  have hnone : c.stops = [] := by
    rw [h.ends.stops, isEmpty_eq_false_iff.mpr (ne_nil_of_mem hmem), Bool.and_false]
    rfl
  have hlives : ∀ l, reaps l = reaps c.reaperMailbox → Lives { c with
      emptySlots := c.tid s :: c.emptySlots
      slots := update c.slots (c.tid s) none
      sockets := c.sockets.erase s
      reaperMailbox := l
      phase := update c.phase s .leaving } := by
    intro l hl
    have hne : ∀ x ∈ c.sockets.erase s, x ≠ s := by
      rintro x hx rfl
      exact h.nodup.not_mem_erase hx
    refine ⟨fun x hx => ?_, fun x hx => ?_, fun x hx => ?_, ?_⟩
    · dsimp only
      rw [update_of_ne (hne x hx)]
      exact h.unborn x (mem_of_mem_erase hx)
    · dsimp only at hx
      rcases eq_or_ne x s with rfl | hxs
      · rw [update_self] at hx
        rcases hx with hx | hx | hx <;> cases hx
      · rw [update_of_ne hxs] at hx
        exact (mem_erase_of_ne hxs).mpr (h.alive x hx)
    · dsimp only at hx ⊢
      rw [hl] at hx
      have hc := h.closing x hx
      rw [update_of_ne]
      · exact hc
      · rintro rfl
        cases hc.symm.trans hphase
    · rw [hl]
      exact h.once
  have hpend : ∀ x ∈ c.pendingConnections, x.2 ∈ c.sockets.erase s := by
    intro x hx
    have hcount := h.counted s
    rw [hwaits] at hcount
    exact (mem_erase_of_ne (countP_pos hcount x hx)).mpr (h.pending x hx)
  have hstop : reaps (c.reaperMailbox ++ [.stop]) = reaps c.reaperMailbox := by
    unfold reaps
    rw [filterMap_append]
    exact append_nil _
  unfold Context.destroySocket
  dsimp only
  split_ifs with hlast
  · rw [and_eq_true] at hlast
    refine ⟨⟨hshared.slots, hshared.mailboxes, hshared.empty, hshared.nodup, hshared.fresh⟩,
      ⟨(hlives _ hstop).unborn, (hlives _ hstop).alive, (hlives _ hstop).closing, (hlives _ hstop).once⟩,
      ⟨hpend, h.counted, fun left saved hc => absurd hc (hterm left saved)⟩,
      ⟨fun hc => (nomatch hs.symm.trans hc), ?_, h.ends.waiting, fun _ => ?_,
        fun hc => nomatch hf.symm.trans hc⟩⟩
    · change c.stops ++ [(c.sockets.erase s).length] = if c.down && !c.starting && (c.sockets.erase s).isEmpty then [0] else []
      rw [hnone, hdown, hlast.1, hs, isEmpty_iff.mp hlast.2]
      rfl
    · exact append_ne_nil_of_right_ne_nil _ (cons_ne_nil _ _)
  · refine ⟨⟨hshared.slots, hshared.mailboxes, hshared.empty, hshared.nodup, hshared.fresh⟩,
      ⟨(hlives _ rfl).unborn, (hlives _ rfl).alive, (hlives _ rfl).closing, (hlives _ rfl).once⟩,
      ⟨hpend, h.counted, fun left saved hc => absurd hc (hterm left saved)⟩,
      ⟨fun hc => (nomatch hs.symm.trans hc), ?_, h.ends.waiting, h.ends.told,
        fun hc => nomatch hf.symm.trans hc⟩⟩
    change c.stops = if c.down && !c.starting && (c.sockets.erase s).isEmpty then [0] else []
    rw [hnone, hdown, hs, Bool.not_false, Bool.and_true, if_neg hlast]

theorem Sound.occupy (h : Sound c) (hs : c.starting = false) (hf : c.finished = false)
    (he : c.emptySlots = slot :: rest) (hnew : c.phase s = .unborn) (hd : c.down = false ∨ c.sockets ≠ [])
    (hl : ∀ left saved, c.term = some (.connecting left saved) → left.length ≤ rest.length) : Sound (c.occupy s slot rest) :=
  ⟨h.toShared.occupy hs he fun hc => h.unborn s hc hnew, h.toLives.occupy hnew, h.toPends.occupy hl, h.ends.occupy hs hf hd⟩

omit [DecidableEq S] in
theorem start_same (c : Context S N) : c.start.starting = false ∧ c.start.terminating = c.terminating ∧
    c.start.term = c.term ∧ c.start.phase = c.phase ∧ c.start.sockets = c.sockets ∧ c.start.finished = c.finished ∧
    c.start.pendingConnections = c.pendingConnections ∧ c.start.endpoints = c.endpoints := by
  unfold start
  split_ifs with hs
  · exact ⟨rfl, rfl, rfl, rfl, rfl, rfl, rfl, rfl⟩
  · exact ⟨eq_false_of_not_eq_true hs, rfl, rfl, rfl, rfl, rfl, rfl, rfl⟩

theorem Sound.createSocket (h : Sound c) (hr : c.Ready (.createSocket s ok)) : Sound (c.createSocket s ok).2 := by
  obtain ⟨hf, hlock, hnew⟩ := hr
  obtain ⟨hs, hterm, hphase, hph, hsockets, hfin, -⟩ := start_same c
  have hstart := h.start hf
  rcases createSocket_cases c s ok with he | ⟨slot, rest, ht, he, hx⟩
  · rw [he]
    exact hstart
  · rw [hx]
    have hno : ∀ left saved, c.start.term ≠ some (.connecting left saved) := by
      intro left saved hc
      rw [hphase] at hc
      rcases hlock with hl | hl
      · cases hc.symm.trans hl
      · cases hc.symm.trans hl
    refine hstart.occupy hs (hfin.trans hf) he (hph ▸ hnew) (.inl ?_) fun left saved hc => absurd hc (hno left saved)
    unfold down
    rw [ht, hphase]
    rcases hlock with hl | hl
    · rw [hl]
      rfl
    · rw [hl]
      rfl

theorem Sound.pends {pending : List (N × S)} {waits : S → ℕ} {endpoints : N → Option S} (h : Sound c)
    (hp : ∀ x ∈ pending, x.2 ∈ c.sockets) (hw : ∀ s, (pending.countP fun x => x.2 = s) ≤ waits s) :
    Sound { c with pendingConnections := pending, waits := waits, endpoints := endpoints } :=
  ⟨⟨h.slots, h.mailboxes, h.empty, h.nodup, h.fresh⟩, ⟨h.unborn, h.alive, h.closing, h.once⟩, ⟨hp, hw, h.left⟩,
    ⟨h.ends.starting, h.ends.stops, h.ends.waiting, h.ends.told, h.ends.finished⟩⟩

theorem counted_inc (h : Sound c) (peer x : S) :
    (c.pendingConnections.countP fun y => y.2 = x) ≤ update c.waits peer (c.waits peer + 1) x := by
  rcases eq_or_ne x peer with rfl | hne
  · rw [update_self]
    exact Nat.le_succ_of_le (h.counted x)
  · rw [update_of_ne hne]
    exact h.counted x

theorem Sound.pendConnection (h : Sound c) (hr : c.Ready (.pendConnection addr s)) : Sound (c.pendConnection addr s) := by
  unfold Context.pendConnection
  split
  · refine h.pends (fun x hx => ?_) fun x => ?_
    · rcases mem_append.mp hx with hx | hx
      · exact h.pending x hx
      · rw [mem_singleton.mp hx]
        exact h.alive s (.inl hr.2)
    · have hcount := h.counted x
      rw [countP_append, countP_singleton]
      rcases eq_or_ne x s with rfl | hne
      · rw [update_self, if_pos (decide_eq_true rfl)]
        exact Nat.succ_le_succ hcount
      · rw [update_of_ne hne, if_neg (by simpa using hne.symm)]
        exact hcount
  · rename_i peer _
    exact h.pends h.pending (counted_inc h peer)

theorem Sound.bind [DecidableEq N] (h : Sound c) : Sound (c.bind addr s) := by
  unfold Context.bind
  split
  · refine h.pends (fun x hx => h.pending x (mem_of_mem_filter hx)) fun x => ?_
    exact Nat.le_trans (List.Sublist.countP_le filter_sublist) (h.counted x)
  · exact h

omit [DecidableEq S] in
theorem reaps_append (l l' : List (ReaperCmd S)) : reaps (l ++ l') = reaps l ++ reaps l' := filterMap_append ..

theorem Sound.close (h : Sound c) (hs : c.phase s = .opened) : Sound (c.close s) := by
  have hnot : s ∉ reaps c.reaperMailbox := fun hc => by cases (h.closing s hc).symm.trans hs
  have hreaps : reaps (c.reaperMailbox ++ [.reap s]) = reaps c.reaperMailbox ++ [s] := reaps_append _ _
  refine ⟨⟨h.slots, h.mailboxes, h.empty, h.nodup, h.fresh⟩, ⟨fun x hx => ?_, fun x hx => ?_, fun x hx => ?_, ?_⟩,
    ⟨h.pending, h.counted, h.left⟩, ⟨h.ends.starting, h.ends.stops, h.ends.waiting, fun ht => h.ends.told ?_, h.ends.finished⟩⟩
  · change update c.phase s .closing x ≠ _
    rcases eq_or_ne x s with rfl | hne
    · rw [update_self]
      exact SocketPhase.noConfusion
    · rw [update_of_ne hne]
      exact h.unborn x hx
  · change update c.phase s .closing x = _ ∨ update c.phase s .closing x = _ ∨ update c.phase s .closing x = _ at hx
    rcases eq_or_ne x s with rfl | hne
    · exact h.alive x (.inl hs)
    · rw [update_of_ne hne] at hx
      exact h.alive x hx
  · change x ∈ reaps (c.reaperMailbox ++ [.reap s]) at hx
    change update c.phase s .closing x = _
    rw [hreaps] at hx
    rcases mem_append.mp hx with hm | hm
    · rw [update_of_ne (by rintro rfl; exact hnot hm)]
      exact h.closing x hm
    · rw [mem_singleton.mp hm, update_self]
  · change (reaps (c.reaperMailbox ++ [.reap s])).Nodup
    rw [hreaps]
    refine nodup_append.mpr ⟨h.once, pairwise_singleton _ s, fun x hx y hy => ?_⟩
    rw [mem_singleton.mp hy]
    rintro rfl
    exact hnot hx
  · refine ht.imp_left fun hm => ?_
    rcases mem_append.mp hm with hm | hm
    · exact hm
    · cases mem_singleton.mp hm

theorem Sound.reaper (h : Sound c) : Sound c.reaper := by
  have hbox : ∀ {cmd rest}, c.reaperMailbox = cmd :: rest → ReaperCmd.stop ∈ rest → c.stops ≠ [] := fun hb hm =>
    h.ends.told (.inl (by rw [hb]; exact mem_cons_of_mem _ hm))
  unfold Context.reaper
  split
  · exact h
  · rename_i s rest hb
    have hreaps : reaps c.reaperMailbox = s :: reaps rest := by rw [hb]; rfl
    have honce := h.once
    rw [hreaps] at honce
    obtain ⟨hnot, hrest⟩ := nodup_cons.mp honce
    have hs := h.closing s (by rw [hreaps]; exact mem_cons_self)
    refine ⟨⟨h.slots, h.mailboxes, h.empty, h.nodup, h.fresh⟩, ⟨fun x hx => ?_, fun x hx => ?_, fun x hx => ?_, hrest⟩,
      ⟨h.pending, h.counted, h.left⟩, ⟨h.ends.starting, h.ends.stops, h.ends.waiting, fun ht => ?_, h.ends.finished⟩⟩
    · dsimp only
      rcases eq_or_ne x s with rfl | hne
      · rw [update_self]
        exact SocketPhase.noConfusion
      · rw [update_of_ne hne]
        exact h.unborn x hx
    · dsimp only at hx
      rcases eq_or_ne x s with rfl | hne
      · exact h.alive x (.inr (.inl hs))
      · rw [update_of_ne hne] at hx
        exact h.alive x hx
    · dsimp only
      rw [update_of_ne (by rintro rfl; exact hnot hx)]
      exact h.closing x (by rw [hreaps]; exact mem_cons_of_mem s hx)
    · rcases ht with hm | ht
      · exact hbox hb hm
      · exact h.ends.told (.inr ht)
  · rename_i rest hb
    have hreaps : reaps c.reaperMailbox = reaps rest := by rw [hb]; rfl
    have hclosing : ∀ x ∈ reaps rest, c.phase x = .closing := fun x hx => h.closing x (by rwa [hreaps])
    have honce : (reaps rest).Nodup := hreaps ▸ h.once
    dsimp only
    split_ifs with hd
    · exact ⟨⟨h.slots, h.mailboxes, h.empty, h.nodup, h.fresh⟩, ⟨h.unborn, h.alive, hclosing, honce⟩,
        ⟨h.pending, h.counted, h.left⟩,
        ⟨h.ends.starting, h.ends.stops, h.ends.waiting, fun _ => h.ends.told (.inr (.inl hd.2)), h.ends.finished⟩⟩
    · refine ⟨⟨h.slots, h.mailboxes, h.empty, h.nodup, h.fresh⟩, ⟨h.unborn, h.alive, hclosing, honce⟩,
        ⟨h.pending, h.counted, h.left⟩,
        ⟨h.ends.starting, h.ends.stops, h.ends.waiting, fun ht => ?_, h.ends.finished⟩⟩
      rcases ht with hm | ht
      · exact hbox hb hm
      · exact h.ends.told (.inr ht)
  · rename_i rest hb
    have hreaps : reaps c.reaperMailbox = reaps rest := by rw [hb]; rfl
    have hclosing : ∀ x ∈ reaps rest, c.phase x = .closing := fun x hx => h.closing x (by rwa [hreaps])
    have honce : (reaps rest).Nodup := hreaps ▸ h.once
    have hstop : c.stops ≠ [] := h.ends.told (.inl (by rw [hb]; exact mem_cons_self))
    dsimp only
    split_ifs with hd
    · exact ⟨⟨h.slots, h.mailboxes, h.empty, h.nodup, h.fresh⟩, ⟨h.unborn, h.alive, hclosing, honce⟩,
        ⟨h.pending, h.counted, h.left⟩, ⟨h.ends.starting, h.ends.stops, h.ends.waiting, fun _ => hstop, h.ends.finished⟩⟩
    · exact ⟨⟨h.slots, h.mailboxes, h.empty, h.nodup, h.fresh⟩, ⟨h.unborn, h.alive, hclosing, honce⟩,
        ⟨h.pending, h.counted, h.left⟩, ⟨h.ends.starting, h.ends.stops, h.ends.waiting, fun _ => hstop, h.ends.finished⟩⟩

omit [DecidableEq S] in
theorem stops_down (h : Ends c) (hs : c.starting = false) (hd : c.down = true) (he : c.sockets = []) : c.stops = [0] := by
  rw [h.stops, hd, hs, he]
  rfl

omit [DecidableEq S] in
theorem stops_up (h : Ends c) (hd : c.down = false) : c.stops = [] := by
  rw [h.stops, hd]
  rfl

theorem Sound.shuts {term : Option (TermPhase S N)} (h : Sound c) (hs : c.starting = false) (hf : c.finished = false)
    (hd : c.down = false) (ht : term = none ∨ term = some .waiting) :
    Sound (if c.sockets.isEmpty then stopReaper { c with terminating := true, term := term }
      else { c with terminating := true, term := term }) := by
  have hnone := stops_up h.ends hd
  have hno : ∀ left saved, term ≠ some (.connecting left saved) := by
    rintro left saved rfl
    rcases ht with ht | ht <;> cases ht
  have hstop : reaps (c.reaperMailbox ++ [.stop]) = reaps c.reaperMailbox := (reaps_append _ _).trans (append_nil _)
  split_ifs with he
  · refine ⟨⟨h.slots, h.mailboxes, h.empty, h.nodup, h.fresh⟩, ⟨h.unborn, h.alive, fun x hx => ?_, ?_⟩,
      ⟨h.pending, h.counted, fun left saved hc => absurd hc (hno left saved)⟩,
      ⟨fun hc => (nomatch hs.symm.trans hc), ?_, fun _ => rfl, fun _ => ?_, fun hc => nomatch hf.symm.trans hc⟩⟩
    · exact h.closing x (hstop ▸ hx)
    · exact hstop.symm ▸ h.once
    · change c.stops ++ [c.sockets.length] = if (true || _) && !c.starting && c.sockets.isEmpty then [0] else []
      rw [hnone, hs, isEmpty_iff.mp he]
      rfl
    · exact append_ne_nil_of_right_ne_nil _ (cons_ne_nil _ _)
  · refine ⟨⟨h.slots, h.mailboxes, h.empty, h.nodup, h.fresh⟩, ⟨h.unborn, h.alive, h.closing, h.once⟩,
      ⟨h.pending, h.counted, fun left saved hc => absurd hc (hno left saved)⟩,
      ⟨fun hc => (nomatch hs.symm.trans hc), ?_, fun _ => rfl, h.ends.told, fun hc => nomatch hf.symm.trans hc⟩⟩
    rw [hnone, Bool.eq_false_of_not_eq_true he, Bool.and_false]
    rfl

theorem Sound.shutdown (h : Sound c) (hf : c.finished = false) (hlock : c.Unlocked) : Sound c.shutdown := by
  unfold Context.shutdown
  split_ifs with hc
  · rw [and_eq_true, not_eq_true', not_eq_true'] at hc
    have hd : c.down = false := by
      unfold down
      rw [hc.2]
      rcases hlock with hl | hl
      · rw [hl]
        rfl
      · rw [hl]
        rfl
    exact h.shuts hc.1 hf hd hlock
  · exact h

theorem Sound.terminate (h : Sound c) (hr : c.Ready .terminate) (hk : c.Keeps .terminate) : Sound c.terminate := by
  obtain ⟨hf, hterm⟩ := hr
  have hdown : c.terminate.down = c.down := by
    unfold down Context.terminate
    rw [hterm]
    cases c.terminating <;> rfl
  refine ⟨⟨h.slots, h.mailboxes, h.empty, h.nodup, h.fresh⟩, ⟨h.unborn, h.alive, h.closing, h.once⟩,
    ⟨h.pending, h.counted, fun left saved hc => ?_⟩,
    ⟨fun hs => ⟨hdown.trans (h.ends.starting hs).1, nofun⟩, ?_, nofun, h.ends.told, fun hc => nomatch hf.symm.trans hc⟩⟩
  · cases hc
    exact ⟨rfl, hk, h.pending⟩
  · rw [hdown]
    exact h.ends.stops

theorem Sound.shorten {x : N × S} {left : List (N × S)} {saved : Bool} (h : Sound c)
    (hs : c.starting = false) (hf : c.finished = false) (hterm : c.term = some (.connecting (x :: left) saved))
    (he : c.emptySlots = slot :: rest) (hnew : c.phase s = .unborn) :
    Sound ({ c with term := some (.connecting left saved) }.occupy s slot rest) := by
  obtain ⟨ht, hlen, hleft⟩ := h.left _ _ hterm
  have hdown : down { c with term := some (.connecting left saved) } = c.down := by
    unfold down
    rw [hterm]
  have hmid : Sound { c with term := some (.connecting left saved) } := by
    refine ⟨⟨h.slots, h.mailboxes, h.empty, h.nodup, h.fresh⟩, ⟨h.unborn, h.alive, h.closing, h.once⟩,
      ⟨h.pending, h.counted, fun left' saved' hc => ?_⟩,
      ⟨fun hc => (nomatch hs.symm.trans hc), ?_, nofun, h.ends.told, h.ends.finished⟩⟩
    · cases hc
      exact ⟨ht, Nat.le_of_succ_le hlen, fun y hy => hleft y (mem_cons_of_mem x hy)⟩
    · rw [hdown]
      exact h.ends.stops
  refine hmid.occupy hs hf he hnew (.inr (ne_nil_of_mem (hleft x mem_cons_self))) fun left' saved' hc => ?_
  cases hc
  rw [he] at hlen
  exact Nat.le_of_succ_le_succ hlen

theorem bind_term [DecidableEq N] {t : Option (TermPhase S N)} :
    { (c.bind addr s).close s with term := t } = (bind { c with term := t } addr s).close s := by
  unfold bind
  cases c.endpoints addr <;> rfl

theorem Sound.connectUp [DecidableEq N] (h : Sound c) (hr : c.Ready (.connectUp s ok)) (hok : ok = true) :
    ∃ c', c.connectUp s ok = .ok c' ∧ Sound c' := by
  obtain ⟨hf, hnew⟩ := hr
  unfold Context.connectUp
  split
  · rename_i addr peer left saved hterm
    obtain ⟨hs, hterm', hphase, hph, -, hfin, -⟩ := start_same c
    have hstart := h.start hf
    obtain ⟨ht, hlen, -⟩ := hstart.left _ _ (hphase.trans hterm)
    obtain ⟨slot, rest, he⟩ : ∃ slot rest, c.start.emptySlots = slot :: rest := by
      cases he : c.start.emptySlots with
      | nil =>
        rw [he] at hlen
        exact absurd hlen (Nat.not_succ_le_zero _)
      | cons slot rest => exact ⟨slot, rest, rfl⟩
    have hx : c.createSocket s ok = (true, c.start.occupy s slot rest) := by
      unfold Context.createSocket
      rw [if_neg (by rw [ht]; exact false_ne_true), he, hok]
      rfl
    have hopen := hstart.shorten hs (hfin.trans hf) (hphase.trans hterm) he (hph ▸ hnew)
    have hopened : ∀ d : Context S N, ((d.occupy s slot rest).bind addr s).phase s = .opened := fun d => by
      unfold Context.bind
      split <;> exact update_self _ _ _
    refine ⟨_, by rw [hx]; rfl, ?_⟩
    rw [bind_term]
    exact hopen.bind.close (hopened _)
  · exact ⟨c, rfl, h⟩

theorem Sound.stopSockets (h : Sound c) (hf : c.finished = false) : Sound c.stopSockets := by
  unfold Context.stopSockets
  split
  · rename_i saved hterm
    obtain ⟨ht, -, -⟩ := h.left _ _ hterm
    have hdown : c.down = saved := by
      unfold down
      rw [hterm, ht]
      exact false_or saved
    by_cases hs : c.starting = true
    · rw [if_pos hs]
      have hsaved : saved = false := hdown.symm.trans (h.ends.starting hs).1
      rw [hsaved]
      refine ⟨⟨h.slots, h.mailboxes, h.empty, h.nodup, h.fresh⟩, ⟨h.unborn, h.alive, h.closing, h.once⟩,
        ⟨h.pending, h.counted, fun left' saved' hc => (by cases hc)⟩,
        ⟨fun _ => ⟨rfl, nofun⟩, ?_, nofun, h.ends.told, fun _ => .inl hs⟩⟩
      exact (stops_up h.ends (hdown.trans hsaved)).trans (by rfl)
    · rw [if_neg hs]
      have hs := eq_false_of_not_eq_true hs
      cases saved with
      | false => exact h.shuts hs hf hdown (.inr rfl)
      | true =>
        refine ⟨⟨h.slots, h.mailboxes, h.empty, h.nodup, h.fresh⟩, ⟨h.unborn, h.alive, h.closing, h.once⟩,
          ⟨h.pending, h.counted, fun left' saved' hc => (by cases hc)⟩,
          ⟨fun hc => (nomatch hs.symm.trans hc), ?_, fun _ => rfl, h.ends.told, fun hc => nomatch hf.symm.trans hc⟩⟩
        have hstops := h.ends.stops
        rw [hdown] at hstops
        exact hstops
  · exact h

theorem Sound.recvDone (h : Sound c) (hr : c.Ready .recvDone) : ∃ c', c.recvDone = .ok c' ∧ Sound c' := by
  obtain ⟨hf, hterm, hbox⟩ := hr
  have hstop := h.ends.told (.inr (.inr hbox))
  have hall : (c.down && !c.starting && c.sockets.isEmpty) = true := by
    by_contra hc
    rw [h.ends.stops, if_neg hc] at hstop
    exact hstop rfl
  rw [and_eq_true, and_eq_true, not_eq_true'] at hall
  obtain ⟨⟨hdown, hs⟩, hempty⟩ := hall
  have ht := h.ends.waiting hterm
  have hstops := stops_down h.ends hs hdown (isEmpty_iff.mp hempty)
  refine ⟨_, if_neg (by rw [hempty]; decide), ?_⟩
  refine ⟨⟨h.slots, h.mailboxes, h.empty, h.nodup, h.fresh⟩, ⟨h.unborn, h.alive, h.closing, h.once⟩,
    ⟨h.pending, h.counted, fun left' saved' hc => (by cases hc)⟩,
    ⟨fun hc => (nomatch hs.symm.trans hc), ?_, nofun, fun _ => hstop, fun _ => .inr hstops⟩⟩
  rw [hstops, ht, hs, hempty]
  rfl

theorem Sound.goes [DecidableEq N] {op : Op S N} (h : Sound c) (hr : c.Ready op) (hk : c.Keeps op) : ∃ c', c.run op = .ok c' ∧ Sound c' := by
  cases op with
  | set maxSockets ioThreadCount =>
    exact ⟨_, rfl, ⟨h.slots, h.mailboxes, h.empty, h.nodup, h.fresh⟩, ⟨h.unborn, h.alive, h.closing, h.once⟩,
      ⟨h.pending, h.counted, h.left⟩, ⟨h.ends.starting, h.ends.stops, h.ends.waiting, h.ends.told, h.ends.finished⟩⟩
  | createSocket s ok => exact ⟨_, rfl, h.createSocket hr⟩
  | pendConnection addr s => exact ⟨_, rfl, h.pendConnection hr⟩
  | bind addr s => exact ⟨_, rfl, h.bind⟩
  | unregisterEndpoints s => exact ⟨_, rfl, h.pends h.pending h.counted⟩
  | incSeqnum s => exact ⟨_, rfl, h.pends h.pending (counted_inc h s)⟩
  | processSeqnum s =>
    refine ⟨_, rfl, h.pends h.pending fun x => ?_⟩
    rcases eq_or_ne x s with rfl | hne
    · rw [update_self]
      exact Nat.le_sub_one_of_lt hr.2
    · rw [update_of_ne hne]
      exact h.counted x
  | close s => exact ⟨_, rfl, h.close hr.2⟩
  | reaper => exact ⟨_, rfl, h.reaper⟩
  | destroySocket s => exact ⟨_, rfl, h.destroySocket hr⟩
  | sendReaped =>
    have hreaps : reaps (c.reaperMailbox ++ [.reaped]) = reaps c.reaperMailbox := (reaps_append _ _).trans (append_nil _)
    refine ⟨_, rfl, ⟨h.slots, h.mailboxes, h.empty, h.nodup, h.fresh⟩, ⟨h.unborn, h.alive, fun x hx => ?_, ?_⟩,
      ⟨h.pending, h.counted, h.left⟩, ⟨h.ends.starting, h.ends.stops, h.ends.waiting, fun ht => h.ends.told ?_, h.ends.finished⟩⟩
    · exact h.closing x (hreaps ▸ hx)
    · exact hreaps.symm ▸ h.once
    · refine ht.imp_left fun hm => (mem_append.mp hm).resolve_right fun hc => ?_
      cases mem_singleton.mp hc
  | shutdown => exact ⟨_, rfl, h.shutdown hr.1 hr.2⟩
  | terminate => exact ⟨_, rfl, h.terminate hr hk⟩
  | connectUp s ok => exact h.connectUp hr hk
  | stopSockets => exact ⟨_, rfl, h.stopSockets hr⟩
  | interrupt =>
    obtain ⟨hf, hterm⟩ := hr
    have hdown : down { c with term := none } = c.down := by
      unfold down
      rw [hterm]
    refine ⟨_, rfl, ⟨h.slots, h.mailboxes, h.empty, h.nodup, h.fresh⟩, ⟨h.unborn, h.alive, h.closing, h.once⟩,
      ⟨h.pending, h.counted, fun left' saved' hc => (by cases hc)⟩,
      ⟨fun hs => ⟨hdown.trans (h.ends.starting hs).1, nofun⟩, ?_, nofun, h.ends.told, h.ends.finished⟩⟩
    rw [hdown]
    exact h.ends.stops
  | recvDone => exact h.recvDone hr

theorem new_sound (maxSockets ioThreadCount : ℕ) : Sound (new maxSockets ioThreadCount : Context S N) where
  slots hs := by cases hs
  mailboxes s hs := nomatch hs
  empty n hn := nomatch hn
  nodup := nodup_nil
  fresh _ := ⟨rfl, rfl⟩
  unborn s hs := nomatch hs
  alive s hs := by rcases hs with hs | hs | hs <;> cases hs
  closing s hs := nomatch hs
  once := nodup_nil
  pending x hx := nomatch hx
  counted s := Nat.le_refl 0
  left left saved hc := by cases hc
  ends := ⟨fun _ => ⟨rfl, nofun⟩, rfl, nofun,
    fun ht => (by rcases ht with ht | ht | ht <;> cases ht), nofun⟩

theorem run_sound [DecidableEq N] {ops : List (Op S N)} (h : Run Start (Guarded Keeps Step) ops c) : Sound c := by
  refine h.invariant Sound (fun c hc => ?_) fun c op c' hi hs => ?_
  · obtain ⟨maxSockets, ioThreadCount, rfl⟩ := hc
    exact new_sound maxSockets ioThreadCount
  · obtain ⟨c1, hx, h1⟩ := hi.goes hs.2.1 hs.1
    cases hx.symm.trans hs.2.2
    exact h1

/-- As long as each call of `terminate` finds an empty slot for each connection that is pending, no assertion fails. -/
theorem terminates_cleanly [DecidableEq N] {ops : List (Op S N)} (h : Run Start (Guarded Keeps Step) ops c) :
    Clean c ∧ ∀ op, c.Ready op → c.Keeps op → ∃ c', c.run op = .ok c' := by
  refine ⟨(run_sound h).clean, fun op hr hk => ?_⟩
  obtain ⟨c', hx, -⟩ := (run_sound h).goes hr hk
  exact ⟨c', hx⟩

/-- A socket that has connected to an address nobody binds is closed, and the thread that terminates is interrupted. -/
def interrupted : List (Op ℕ ℕ) :=
  [.createSocket 0 true, .pendConnection 7 0, .close 0, .terminate, .connectUp 1 true, .stopSockets, .interrupt, .terminate,
    .stopSockets, .reaper, .reaper, .processSeqnum 0, .destroySocket 0, .sendReaped, .destroySocket 1, .sendReaped, .reaper,
    .reaper, .reaper, .recvDone]

theorem terminates_cleanly_interrupted : ∃ c : Context ℕ ℕ, Run Start (Guarded Keeps Step) interrupted c ∧
    (c.finished = true ∧ c.stops = [0]) ∧ Clean c ∧ ∀ op, c.Ready op → c.Keeps op → ∃ c', c.run op = .ok c' :=
  exists_run (P := fun c => c.finished = true ∧ c.stops = [0]) ⟨2, 1, rfl⟩ (by decide +kernel)
    fun _ hrun hc => ⟨hc, terminates_cleanly hrun⟩

/-- With each socket open and one of them waiting for its peer, `terminate` finds no slot for the socket that it creates. -/
theorem terminate_can_abort : ∃ (ops : List (Op ℕ ℕ)) (c : Context ℕ ℕ), Run Start (Guarded free Step) ops c ∧
    c.Ready (.connectUp 1 true) ∧ c.run (.connectUp 1 true) = .error .assertion := by
  refine ⟨[.createSocket 0 true, .pendConnection 7 0, .terminate], exists_run (P := fun c =>
    c.Ready (.connectUp 1 true) ∧ (c.run (.connectUp 1 true)).toOption.isSome = false) ⟨1, 1, rfl⟩ (by decide +kernel)
    fun c _ ⟨hready, hfails⟩ => ⟨hready, ?_⟩⟩
  cases hx : c.run (.connectUp 1 true) with
  | error e => cases e; rfl
  | ok c' =>
    rw [hx] at hfails
    cases hfails

end Context

end Zmq
