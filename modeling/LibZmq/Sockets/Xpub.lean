import LibZmq.Mtrie.Match
import LibZmq.Sockets.Dist

/-! `xpub_t`, and `pub_t` as far as it differs. Subscriptions come from the pipes, or from the user
in manual mode, and choose the pipes that a message is sent to. -/

namespace Zmq

inductive XpubFault where
  | trie (fault : TrieFault)
  | socket (fault : SocketFault)
  /-- a pipe that has been deallocated is used -/
  | useAfterFree

namespace XpubFault

def ofTrie {α : Type} (x : Except TrieFault α) : Except XpubFault α := x.mapError .trie

def ofSocket {α : Type} (x : Except SocketFault α) : Except XpubFault α := x.mapError .socket

end XpubFault

/-- Metadata of pending messages is left out. -/
structure XpubT (P : Type) where
  subscriptions : MtrieT P
  manualSubscriptions : MtrieT P
  dist : DistT P
  verboseSubs : Bool
  verboseUnsubs : Bool
  more : Bool
  lossy : Bool
  manual : Bool
  lastPipe : Option P
  pendingPipes : List (Option P)
  /-- data and flags of what the user is to receive -/
  pending : List (List UInt8 × UInt8)
  welcomeMsg : List UInt8
  invertMatching : Bool
  /-- `options.type` is ZMQ_PUB -/
  pub : Bool

inductive XpubOption where
  | verbose (on : Bool)
  | verboser (on : Bool)
  | nodrop (on : Bool)
  | manual (on : Bool)
  | subscribe (topic : List UInt8)
  | unsubscribe (topic : List UInt8)
  | welcomeMsg (data : List UInt8)

namespace XpubT

open XpubFault

variable {P : Type}

def new (pub : Bool) : XpubT P :=
  ⟨.new, .new, .new, false, false, false, true, false, none, [], [], [], false, pub⟩

/-- What `send_unsubscription` does for a topic. -/
def sendUnsubscription (x : XpubT P) (topic : List UInt8) : XpubT P :=
  if x.pub then x
  else
    let x := { x with pending := x.pending ++ [(0 :: topic, 0)] }
    if x.manual then { x with lastPipe := none, pendingPipes := x.pendingPipes ++ [none] } else x

variable [DecidableEq P] (x : XpubT P)

/-- Whether a subscription or an unsubscription is passed to the user. -/
def passes (c : UInt8) (unique : Bool) : Bool :=
  !x.pub && (unique || c == 1 && x.verboseSubs || c == 0 && x.verboseUnsubs && x.verboseSubs)

/-- `add`, or `rm` when the message begins with 0. -/
def update (t : MtrieT P) (c : UInt8) (topic : List UInt8) (pipe : P) : Except XpubFault (Bool × MtrieT P) :=
  ofTrie (if c = 0 then t.rm topic pipe else t.add topic pipe)

def readOne (pipe : P) (sub : Msg) : Except XpubFault (XpubT P) :=
  match sub.data with
  | [] => .ok { x with pending := x.pending ++ [([], sub.flags)] }
  | c :: topic =>
    if c = 0 ∨ c = 1 then
      if x.manual then do
        -- kept for the user, who may subscribe the pipe instead
        let (_, t) ← update x.manualSubscriptions c topic pipe
        return { x with
          manualSubscriptions := t
          pendingPipes := x.pendingPipes ++ [some pipe]
          pending := x.pending ++ [(c :: topic, 0)] }
      else do
        let (unique, t) ← update x.subscriptions c topic pipe
        return { x with
          subscriptions := t
          pending := if x.passes c unique then x.pending ++ [(c :: topic, 0)] else x.pending }
    else .ok { x with pending := x.pending ++ [(c :: topic, sub.flags)] }

def xreadActivated (x : XpubT P) (pipe : P) : List Msg → Except XpubFault (XpubT P)
  | [] => .ok x
  | sub :: subs => do xreadActivated (← x.readOne pipe sub) pipe subs

def welcome (o : Outlet) : Outlet :=
  if x.welcomeMsg = [] then o else (o.write ⟨.vsm, 0, x.welcomeMsg⟩).2.flush

def subscribeToAll (t : MtrieT P) (pipe : P) (all : Bool) : Except XpubFault (MtrieT P) :=
  if all then (·.2) <$> ofTrie (t.add [] pipe) else .ok t

def xattachPipe (outlets : P → Outlet) (pipe : P) (all : Bool) (subs : List Msg) :
    Except XpubFault (XpubT P × (P → Outlet)) := do
  let t ← subscribeToAll x.subscriptions pipe all
  let x := { x with dist := x.dist.attach pipe, subscriptions := t }
  let outlets := Function.update outlets pipe (x.welcome (outlets pipe))
  return (← x.xreadActivated pipe subs, outlets)

def xwriteActivated (pipe : P) : XpubT P := { x with dist := x.dist.activated pipe }

/-- The part of `xpipe_terminated` that removes the pipe from a trie. -/
def unsubscribe (pipe : P) : Except XpubFault (XpubT P) :=
  if x.manual then do
    let (topics, t) ← ofTrie (x.manualSubscriptions.rmPipe pipe false)
    return topics.foldl sendUnsubscription { x with manualSubscriptions := t }
  else do
    let (topics, t) ← ofTrie (x.subscriptions.rmPipe pipe (!x.verboseUnsubs))
    return topics.foldl sendUnsubscription { x with subscriptions := t }

def xpipeTerminated (pipe : P) : Except XpubFault (XpubT P) := do
  let x ← x.unsubscribe pipe
  return { x with dist := x.dist.pipeTerminated pipe }

def xsetsockopt : XpubOption → Except XpubFault (Bool × XpubT P)
  | .verbose on => .ok (true, { x with verboseSubs := on, verboseUnsubs := false })
  | .verboser on => .ok (true, { x with verboseSubs := on, verboseUnsubs := on })
  | .nodrop on => .ok (true, { x with lossy := !on })
  | .manual on => .ok (true, { x with manual := on })
  | .subscribe topic =>
    if x.manual then match x.lastPipe with
      | none => .ok (true, x)
      | some pipe => do
        let (_, t) ← ofTrie (x.subscriptions.add topic pipe)
        return (true, { x with subscriptions := t })
    else .ok (false, x)
  | .unsubscribe topic =>
    if x.manual then match x.lastPipe with
      | none => .ok (true, x)
      | some pipe => do
        let (_, t) ← ofTrie (x.subscriptions.rm topic pipe)
        return (true, { x with subscriptions := t })
    else .ok (false, x)
  | .welcomeMsg data => .ok (true, { x with welcomeMsg := data })

omit [DecidableEq P] in
def xrecv : Option (List UInt8 × UInt8) × XpubT P :=
  match x.pending with
  | [] => (none, x)
  | m :: rest =>
    let x := match x.manual, x.pendingPipes with
      | true, pipe :: pipes => { x with lastPipe := pipe, pendingPipes := pipes }
      | _, _ => x
    (some m, { x with pending := rest })

/-- The pipes `mark_as_matching` is called for, in the order of the calls. -/
def markAsMatching (dist : DistT P) : List P → Except XpubFault (DistT P)
  | [] => .ok dist
  | pipe :: calls =>
    if pipe ∈ dist.pipes then markAsMatching (dist.matchPipe pipe) calls else .error .useAfterFree

/-- What the first frame of a message chooses. The sets of the trie are ordered by the addresses of
the pipes, so `calls` is any order of its matches. -/
def search (calls : List P) : Except XpubFault (DistT P) := do
  let dist ← markAsMatching x.dist calls
  return if x.invertMatching then dist.reverseMatch else dist

def choose (calls : List P) : Except XpubFault (DistT P) :=
  if x.more then .ok x.dist else x.search calls

def xsend (outlets : P → Outlet) (msg : Msg) (calls : List P) :
    Except XpubFault (Bool × XpubT P × (P → Outlet)) := do
  let dist ← x.choose calls
  let x := { x with dist := dist }
  if x.lossy || dist.checkHwm outlets then
    let (dist, outlets) ← ofSocket (dist.sendToMatching outlets msg)
    -- the end of a message makes all pipes non-matching
    let dist := if msg.hasMore then dist else dist.unmatch
    return (true, { x with dist := dist, more := msg.hasMore }, outlets)
  else return (false, x, outlets)

def heard (manual : Bool) (pipe : P) (r : Finset (List UInt8 × P)) (sub : Msg) : Finset (List UInt8 × P) :=
  match sub.data with
  | [] => r
  | c :: topic =>
    if manual then r
    else if c = 0 then r.erase (topic, pipe)
    else if c = 1 then insert (topic, pipe) r
    else r

def settled (r : Finset (List UInt8 × P)) : XpubOption → Finset (List UInt8 × P)
  | .subscribe topic => match x.manual, x.lastPipe with
    | true, some pipe => insert (topic, pipe) r
    | _, _ => r
  | .unsubscribe topic => match x.manual, x.lastPipe with
    | true, some pipe => r.erase (topic, pipe)
    | _, _ => r
  | _ => r

variable {x x' : XpubT P} {r : Finset (List UInt8 × P)} {pipe : P} {topic : List UInt8} {t t' : MtrieT P} {subs : List Msg}

theorem ofTrie_ok {α : Type} {e : Except TrieFault α} {a : α} (h : ofTrie e = .ok a) : e = .ok a := by
  cases e with
  | error e => exact absurd h nofun
  | ok b =>
    cases h
    rfl

theorem rm_represents {b : Bool} (h : MtrieT.Represents t r)
    (hx : t.rm topic pipe = .ok (b, t')) : MtrieT.Represents t' (r.erase (topic, pipe)) := by
  by_cases hr : MtrieT.Removable r (.rm topic pipe)
  · obtain ⟨t1, ht, h1⟩ := MtrieT.call_represents (.rm topic pipe) h hr
    cases ht.symm.trans hx
    exact h1
  · obtain ⟨hmem, hnode⟩ := not_or.mp hr
    rw [MtrieT.rm_other topic h.1 (h.at_iff.mpr hnode) fun pipes hv hp => ?_] at hx
    · split_ifs at hx
      cases hx
      rwa [Finset.erase_eq_of_notMem hmem]
    · rw [h.2] at hv
      split_ifs at hv
      cases hv
      exact hmem (MtrieT.mem_pipesOf.mp hp)

theorem add_represents {b : Bool} (h : MtrieT.Represents t r)
    (hx : t.add topic pipe = .ok (b, t')) : MtrieT.Represents t' (insert (topic, pipe) r) := by
  obtain ⟨t1, ht, h1⟩ := MtrieT.call_represents (.add topic pipe) h trivial
  cases ht.symm.trans hx
  exact h1

def Reads (x x' : XpubT P) : Prop := ∃ t mt pipes pending,
  x' = { x with subscriptions := t, manualSubscriptions := mt, pendingPipes := pipes, pending := pending }

omit [DecidableEq P] in
theorem Reads.refl (x : XpubT P) : Reads x x := ⟨_, _, _, _, rfl⟩

omit [DecidableEq P] in
theorem Reads.trans {x y z : XpubT P} (h : Reads x y) (h' : Reads y z) : Reads x z := by
  obtain ⟨_, _, _, _, rfl⟩ := h
  obtain ⟨_, _, _, _, rfl⟩ := h'
  exact ⟨_, _, _, _, rfl⟩

theorem readOne_spec {sub : Msg} (h : MtrieT.Represents x.subscriptions r) (hx : x.readOne pipe sub = .ok x') :
    Reads x x' ∧ MtrieT.Represents x'.subscriptions (heard x.manual pipe r sub) := by
  unfold readOne at hx
  unfold heard
  cases hd : sub.data with
  | nil =>
    simp only [hd] at hx
    cases hx
    exact ⟨⟨_, _, _, _, rfl⟩, h⟩
  | cons c topic =>
    simp only [hd] at hx
    dsimp only
    by_cases hc : c = 0 ∨ c = 1
    · rw [if_pos hc] at hx
      cases hm : x.manual with
      | true =>
        rw [if_pos hm] at hx
        obtain ⟨y, -, hx⟩ := bind_ok hx
        cases hx
        exact ⟨⟨_, _, _, _, rfl⟩, h⟩
      | false =>
        rw [if_neg (by rw [hm]; exact Bool.false_ne_true)] at hx
        obtain ⟨y, hu, hx⟩ := bind_ok hx
        cases hx
        refine ⟨⟨_, _, _, _, rfl⟩, ?_⟩
        have hu := ofTrie_ok hu
        by_cases h0 : c = 0
        · rw [if_pos h0] at hu ⊢
          exact rm_represents h hu
        · rw [if_neg h0] at hu ⊢
          rw [if_pos (hc.resolve_left h0)]
          exact add_represents h hu
    · rw [if_neg hc] at hx
      cases hx
      obtain ⟨h0, h1⟩ := not_or.mp hc
      rw [if_neg h0, if_neg h1, ite_self]
      exact ⟨⟨_, _, _, _, rfl⟩, h⟩

theorem xreadActivated_spec (h : MtrieT.Represents x.subscriptions r) (hx : x.xreadActivated pipe subs = .ok x') :
    Reads x x' ∧ MtrieT.Represents x'.subscriptions (subs.foldl (heard x.manual pipe) r) := by
  induction subs generalizing x r with
  | nil =>
    obtain rfl := Except.ok.inj hx
    exact ⟨.refl x, h⟩
  | cons sub subs ih =>
    obtain ⟨y, h1, hx⟩ := bind_ok hx
    obtain ⟨hr, hy⟩ := readOne_spec h h1
    obtain ⟨hr', hy'⟩ := ih hy hx
    refine ⟨hr.trans hr', ?_⟩
    obtain ⟨_, _, _, _, rfl⟩ := hr
    exact hy'

theorem xattachPipe_spec {w w' : P → Outlet} {all : Bool} (h : MtrieT.Represents x.subscriptions r)
    (hx : x.xattachPipe w pipe all subs = .ok (x', w')) :
    Reads { x with dist := x.dist.attach pipe } x' ∧ w' = Function.update w pipe (x.welcome (w pipe)) ∧
      MtrieT.Represents x'.subscriptions (subs.foldl (heard x.manual pipe) (if all then insert ([], pipe) r else r)) := by
  obtain ⟨t, ht, hx⟩ := bind_ok hx
  obtain ⟨y, hy, hx⟩ := bind_ok hx
  cases hx
  unfold subscribeToAll at ht
  have ht : MtrieT.Represents t (if all then insert ([], pipe) r else r) := by
    cases all with
    | false =>
      cases ht
      exact h
    | true =>
      cases ha : x.subscriptions.add [] pipe with
      | error e => simp [ha, ofTrie, Except.mapError, Functor.map, Except.map] at ht
      | ok z =>
        simp only [ha, ofTrie, Except.mapError, Functor.map, Except.map, if_true] at ht
        cases ht
        exact add_represents h ha
  obtain ⟨hr, hy⟩ := xreadActivated_spec ht hy
  exact ⟨Reads.trans ⟨_, _, _, _, rfl⟩ hr, rfl, hy⟩

def Unsubscribes (x x' : XpubT P) : Prop := ∃ t mt last pipes pending,
  x' = { x with subscriptions := t, manualSubscriptions := mt, lastPipe := last, pendingPipes := pipes, pending := pending }

omit [DecidableEq P] in
theorem foldl_sendUnsubscription (topics : List (List UInt8)) (x : XpubT P) : Unsubscribes x (topics.foldl sendUnsubscription x) ∧
      (topics.foldl sendUnsubscription x).subscriptions = x.subscriptions := by
  induction topics generalizing x with
  | nil => exact ⟨⟨_, _, _, _, _, rfl⟩, rfl⟩
  | cons topic topics ih =>
    obtain ⟨⟨t, mt, last, pipes, pending, he⟩, hsub⟩ := ih (x.sendUnsubscription topic)
    have hone : Unsubscribes x (x.sendUnsubscription topic) ∧
        (x.sendUnsubscription topic).subscriptions = x.subscriptions := by
      unfold sendUnsubscription
      dsimp only
      split_ifs <;> exact ⟨⟨_, _, _, _, _, rfl⟩, rfl⟩
    obtain ⟨⟨_, _, _, _, _, he'⟩, hsub'⟩ := hone
    refine ⟨?_, hsub.trans hsub'⟩
    rw [List.foldl_cons, he, he']
    exact ⟨_, _, _, _, _, rfl⟩

theorem xpipeTerminated_spec (h : MtrieT.Represents x.subscriptions r) (hm : x.manual = true → ∀ y ∈ r, y.2 ≠ pipe)
    (hx : x.xpipeTerminated pipe = .ok x') : Unsubscribes { x with dist := x.dist.pipeTerminated pipe } x' ∧
      MtrieT.Represents x'.subscriptions (r.filter (·.2 ≠ pipe)) := by
  obtain ⟨y, hy, hx⟩ := bind_ok hx
  cases hx
  unfold unsubscribe at hy
  by_cases hman : x.manual = true
  · rw [if_pos hman] at hy
    obtain ⟨z, -, hy⟩ := bind_ok hy
    cases hy
    obtain ⟨⟨_, _, _, _, _, he⟩, hsub⟩ := foldl_sendUnsubscription z.1 { x with manualSubscriptions := z.2 }
    refine ⟨?_, ?_⟩
    · rw [he]
      exact ⟨_, _, _, _, _, rfl⟩
    · rw [Finset.filter_true_of_mem (hm hman)]
      rw [hsub]
      exact h
  · rw [if_neg hman] at hy
    obtain ⟨⟨calls, t⟩, hz, hy⟩ := bind_ok hy
    cases hy
    obtain ⟨calls', t', hrm, ht, -⟩ := MtrieT.rmPipe_represents pipe (!x.verboseUnsubs) h
    obtain ⟨rfl, rfl⟩ := ok_pair (hrm.symm.trans (ofTrie_ok hz))
    obtain ⟨⟨_, _, _, _, _, he⟩, hsub⟩ := foldl_sendUnsubscription calls' { x with subscriptions := t' }
    refine ⟨?_, ?_⟩
    · rw [he]
      exact ⟨_, _, _, _, _, rfl⟩
    · rw [hsub]
      exact ht

theorem xsetsockopt_spec {opt : XpubOption} {rc : Bool} (h : MtrieT.Represents x.subscriptions r)
    (hx : x.xsetsockopt opt = .ok (rc, x')) :
    x'.dist = x.dist ∧ x'.more = x.more ∧ MtrieT.Represents x'.subscriptions (x.settled r opt) := by
  cases opt with
  | verbose on | verboser on | nodrop on | manual on | welcomeMsg data =>
    cases hx
    exact ⟨rfl, rfl, h⟩
  | subscribe topic | unsubscribe topic =>
    unfold xsetsockopt at hx
    unfold settled
    cases hm : x.manual with
    | false =>
      simp only [hm, Bool.false_eq_true, if_false] at hx
      cases hx
      exact ⟨rfl, rfl, h⟩
    | true =>
      cases hl : x.lastPipe with
      | none =>
        simp only [hm, hl, if_true] at hx
        cases hx
        exact ⟨rfl, rfl, h⟩
      | some pipe =>
        simp only [hm, hl, if_true] at hx
        obtain ⟨z, ha, hx⟩ := bind_ok hx
        cases hx
        first
        | exact ⟨rfl, rfl, add_represents h (ofTrie_ok ha)⟩
        | exact ⟨rfl, rfl, rm_represents h (ofTrie_ok ha)⟩

end XpubT

end Zmq
