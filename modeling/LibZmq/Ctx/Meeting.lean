import LibZmq.Ctx.Inproc

/-! Inproc connects and binds in any order. A connect whose name is bound meets one socket, to which its pipe is attached
once, and each socket has counted the commands that it is yet to process. -/

namespace Zmq

open List

open Function (update update_eq_self update_of_ne update_self)

universe u v w

namespace ConnectStage

variable {S : Type u}

def peer : ConnectStage S → Option S
  | .found b | .sent b | .attached b => some b
  | _ => none

def owners : ConnectStage S → List S
  | .attached b => [b]
  | _ => []

end ConnectStage

def SocketT.Balanced (o : SocketT) : Prop := o.termAcks = if o.terminating then (o.pipes : ℤ) else 0

namespace Inproc

variable {S : Type u} {N : Type v} {Q : Type w} {s s' : Inproc S N Q} {x y b c : S} {n : N} {q : Q}

def bindPipe (m : Packet S (InprocCmd Q)) : Option Q :=
  match m.cmd with
  | .bind q => some q
  | .inprocConnected => none

theorem mem_binds {l : List (Packet S (InprocCmd Q))} : q ∈ l.filterMap bindPipe ↔ ∃ d b, ⟨d, b, .bind q⟩ ∈ l := by
  refine ⟨fun hin => ?_, fun ⟨d, b, hin⟩ => mem_filterMap.mpr ⟨_, hin, rfl⟩⟩
  obtain ⟨⟨d, b, cmd⟩, hm, hcmd⟩ := mem_filterMap.mp hin
  cases cmd with
  | bind r =>
    cases hcmd
    exact ⟨d, b, hm⟩
  | inprocConnected => cases hcmd

structure Lives (s : Inproc S N Q) : Prop where
  destroyed : ∀ x, s.destroyed x = true → s.created x = true ∧ (s.sockets x).terminating = true
  tag : ∀ x, (s.sockets x).terminating = true → (s.sockets x).tag = false
  endpoints : ∀ n e, s.endpoints n = some e → s.Alive e.socket ∧ (s.sockets e.socket).terminating = false
  calls : ∀ x, s.calls x ≠ none → s.Open x

def meets (k : Option (InprocCall S N Q)) : Option (Q × S) :=
  match k with
  | some (.found q e) => some (q, e.socket)
  | _ => none

def connecting (k : Option (InprocCall S N Q)) : Option Q :=
  match k with
  | some (.lost _ q) | some (.found q _) => some q
  | _ => none

theorem meets_connecting {k : Option (InprocCall S N Q)} (h : meets k = some (q, b)) : connecting k = some q := by
  unfold meets at h
  split at h
  · cases h
    rfl
  · cases h

structure Connects (s : Inproc S N Q) : Prop where
  unused : ∀ q, s.stage q = .unused ↔ s.made q = none
  lost : ∀ q c n, s.made q = some (c, n) → (s.stage q = .lost ↔ s.calls c = some (.lost n q))
  found : ∀ q c n b, s.made q = some (c, n) → (s.stage q = .found b ↔ meets (s.calls c) = some (q, b))
  pending : ∀ q, s.stage q = .pending ↔ q ∈ s.pendingConnections.map (·.pipe)
  sent : ∀ q c n b, s.made q = some (c, n) → (s.stage q = .sent b ↔ ⟨c, b, .bind q⟩ ∈ s.flight)
  attached : ∀ q, s.attached q = (s.stage q).owners
  loser : ∀ c n q, s.calls c = some (.lost n q) → s.made q = some (c, n)
  finder : ∀ c q b, meets (s.calls c) = some (q, b) → (s.made q).map (·.1) = some c
  maker : ∀ p ∈ s.pendingConnections, s.made p.pipe = some (p.endpoint.socket, p.addr)
  sender : ∀ c b q, ⟨c, b, .bind q⟩ ∈ s.flight → (s.made q).map (·.1) = some c
  nodup : (s.pendingConnections.map (·.pipe)).Nodup
  once : (s.flight.filterMap bindPipe).Nodup
  carries : ∀ p ∈ s.pendingConnections, s.toBind p.pipe ≠ []

structure Bounds (s : Inproc S N Q) : Prop where
  pending : ∀ p ∈ s.pendingConnections, ∀ e, s.endpoints p.addr = some e → s.calls e.socket = some (.binding p.addr)
  binding : ∀ b n, s.calls b = some (.binding n) → (s.endpoints n).map (·.socket) = some b

variable [DecidableEq S] [DecidableEq Q] {o : SocketT} {g : S → SocketT} {st : ConnectStage S} {e : EndpointT S}
    {toBind toConnect : List (List UInt8)}

/-- How many commands the socket is yet to process, or will be sent. -/
def due (s : Inproc S N Q) (x : S) : ℕ :=
  s.flight.countP (fun m => m.dst = x) + s.pendingConnections.countP (fun p => p.endpoint.socket = x) + (s.finders x).card

structure Counts (s : Inproc S N Q) : Prop where
  finders : ∀ b c, c ∈ s.finders b ↔ (meets (s.calls c)).map (·.2) = some b
  incs : ∀ x, s.incs x = s.handled x + s.due x
  unborn : ∀ x, s.created x = false → s.incs x = 0
  gone : ∀ x, s.destroyed x = true → s.due x = 0
  counted : ∀ x, (s.sockets x).sentSeqnum.toNat = s.incs x
  processed : ∀ x, (s.sockets x).processedSeqnum.toNat = s.handled x
  acks : ∀ x, (s.sockets x).Balanced

structure Core (s : Inproc S N Q) : Prop extends Lives s, Connects s, Counts s where
  bounds : s.Bounds

omit [DecidableEq S] [DecidableEq Q] in
def Idle (s : Inproc S N Q) (x : S) : Prop :=
  (s.sockets x).processedSeqnum = (s.sockets x).sentSeqnum.toUInt64 ∧ (s.sockets x).termAcks = 0

structure Sound (s : Inproc S N Q) : Prop extends Core s where
  settled : ∀ x, s.destroyed x = false → (s.sockets x).terminating = true → ¬ s.Idle x

omit [DecidableEq Q] in
theorem Counts.alive (h : s.Counts) (hx : 0 < s.due x) : s.Alive x := by
  constructor
  · by_contra hc
    have := h.unborn x (by simpa using hc)
    have := h.incs x
    omega
  · by_contra hd
    have := h.gone x (by simpa using hd)
    omega

structure Moves (s s' : Inproc S N Q) (q : Q) (c : S) (n : N) (st : ConnectStage S) : Prop where
  before : s.made q = none ∨ s.made q = some (c, n)
  used : st ≠ .unused
  made : s'.made = update s.made q (some (c, n))
  stage : s'.stage = update s.stage q st
  others : ∀ d ≠ c, s'.calls d = s.calls d
  caller : s'.calls c = s.calls c ∨ (connecting (s.calls c)).getD q = q ∧ (connecting (s'.calls c)).getD q = q
  lost : st = .lost ↔ s'.calls c = some (.lost n q)
  addr : ∀ m, s'.calls c = some (.lost m q) → m = n
  found : ∀ b, st = .found b ↔ meets (s'.calls c) = some (q, b)
  pending : ∀ p : PendingConnectionT S N Q, p.pipe ≠ q → (p ∈ s'.pendingConnections ↔ p ∈ s.pendingConnections)
  pends : st = .pending ↔ q ∈ s'.pendingConnections.map (·.pipe)
  maker : ∀ p ∈ s'.pendingConnections, p.pipe = q → p.endpoint.socket = c ∧ p.addr = n
  nodup : (s'.pendingConnections.map (·.pipe)).Nodup
  flight : ∀ d b r, r ≠ q → (⟨d, b, .bind r⟩ ∈ s'.flight ↔ ⟨d, b, .bind r⟩ ∈ s.flight)
  sent : ∀ d b, ⟨d, b, .bind q⟩ ∈ s'.flight ↔ d = c ∧ st = .sent b
  once : (s'.flight.filterMap bindPipe).Nodup
  attached : s'.attached = update s.attached q st.owners
  carries : ∀ p ∈ s'.pendingConnections, s'.toBind p.pipe ≠ []

omit [DecidableEq S] in
theorem Connects.moves (h : s.Connects) (q : Q) (c : S) (n : N) (st : ConnectStage S) (hm : Moves s s' q c n st) :
    s'.Connects := by
  obtain ⟨hq, hst, hmade, hstage, hother, hself, hlost, hlost', hfound, hpending, hpend, hpend', hn, hflight, hsent, honce,
    hattached, hcarries⟩ := hm
  have hmem : ∀ r ≠ q, r ∈ s'.pendingConnections.map (·.pipe) ↔ r ∈ s.pendingConnections.map (·.pipe) := fun r hr => by
    simp only [mem_map]
    refine ⟨fun ⟨p, hp, he⟩ => ⟨p, (hpending p (he ▸ hr)).mp hp, he⟩, fun ⟨p, hp, he⟩ => ⟨p, (hpending p (he ▸ hr)).mpr hp, he⟩⟩
  -- calls about other pipes are as they were
  have hlost_ne : ∀ d m r, r ≠ q → (s'.calls d = some (.lost m r) ↔ s.calls d = some (.lost m r)) := fun d m r hr => by
    rcases eq_or_ne d c with rfl | hd
    · rcases hself with he | ⟨h1, h2⟩
      · rw [he]
      · constructor <;> intro hc <;> simp_all [connecting]
    · rw [hother d hd]
  have hfound_ne : ∀ d b r, r ≠ q → (meets (s'.calls d) = some (r, b) ↔ meets (s.calls d) = some (r, b)) :=
      fun d b r hr => by
    rcases eq_or_ne d c with rfl | hd
    · rcases hself with he | ⟨h1, h2⟩
      · rw [he]
      · constructor <;> intro hc <;> simp_all [meets_connecting hc]
    · rw [hother d hd]
  refine ⟨fun r => ?_, fun r d m hr => ?_, fun r d m b hr => ?_, fun r => ?_, fun r d m b hr => ?_, fun r => ?_,
    fun d m r hc => ?_, fun d r b hc => ?_, fun p hp => ?_, fun d b r hc => ?_, hn, honce, hcarries⟩
  · rw [hstage, hmade]
    rcases eq_or_ne r q with rfl | hrq
    · simp [hst]
    · rw [update_of_ne hrq, update_of_ne hrq]
      exact h.unused r
  · rw [hmade] at hr
    rw [hstage]
    rcases eq_or_ne r q with rfl | hrq
    · rw [update_self] at hr ⊢
      cases hr
      exact hlost
    · rw [update_of_ne hrq] at hr ⊢
      rw [hlost_ne d m r hrq]
      exact h.lost r d m hr
  · rw [hmade] at hr
    rw [hstage]
    rcases eq_or_ne r q with rfl | hrq
    · rw [update_self] at hr ⊢
      cases hr
      exact hfound b
    · rw [update_of_ne hrq] at hr ⊢
      rw [hfound_ne d b r hrq]
      exact h.found r d m b hr
  · rw [hstage]
    rcases eq_or_ne r q with rfl | hrq
    · rw [update_self]
      exact hpend
    · rw [update_of_ne hrq, hmem r hrq]
      exact h.pending r
  · rw [hmade] at hr
    rw [hstage]
    rcases eq_or_ne r q with rfl | hrq
    · rw [update_self] at hr ⊢
      cases hr
      rw [hsent]
      simp
    · rw [update_of_ne hrq] at hr ⊢
      rw [hflight d b r hrq]
      exact h.sent r d m b hr
  · rw [hstage, hattached]
    rcases eq_or_ne r q with rfl | hrq
    · rw [update_self, update_self]
    · rw [update_of_ne hrq, update_of_ne hrq]
      exact h.attached r
  · rw [hmade]
    rcases eq_or_ne r q with rfl | hrq
    · rw [update_self]
      rcases eq_or_ne d c with rfl | hd
      · rw [hlost' m hc]
      · rw [hother d hd] at hc
        have hd' := h.loser d m r hc
        rcases hq with hq | hq
        · rw [hq] at hd'
          cases hd'
        · rw [hq] at hd'
          exact hd'
    · rw [update_of_ne hrq]
      exact h.loser d m r ((hlost_ne d m r hrq).mp hc)
  · rw [hmade]
    rcases eq_or_ne r q with rfl | hrq
    · rw [update_self]
      rcases eq_or_ne d c with rfl | hd
      · rfl
      · rw [hother d hd] at hc
        have hd' := h.finder d r b hc
        rcases hq with hq | hq
        · rw [hq] at hd'
          cases hd'
        · rw [hq] at hd'
          exact hd'
    · rw [update_of_ne hrq]
      exact h.finder d r b ((hfound_ne d b r hrq).mp hc)
  · rw [hmade]
    rcases eq_or_ne p.pipe q with hpq | hpq
    · obtain ⟨rfl, rfl⟩ := hpend' p hp hpq
      rw [hpq, update_self]
    · rw [update_of_ne hpq]
      exact h.maker p ((hpending p hpq).mp hp)
  · rw [hmade]
    rcases eq_or_ne r q with rfl | hrq
    · rw [update_self, ((hsent d b).mp hc).1]
      rfl
    · rw [update_of_ne hrq]
      exact h.sender d b r ((hflight d b r hrq).mp hc)

omit [DecidableEq S] [DecidableEq Q] in
theorem Connects.same (h : s.Connects) (hmade : s'.made = s.made) (hstage : s'.stage = s.stage)
    (hcalls : ∀ d, s'.calls d = s.calls d ∨ connecting (s.calls d) = none ∧ connecting (s'.calls d) = none)
    (hpending : s'.pendingConnections = s.pendingConnections)
    (hflight : ∀ d b r, ⟨d, b, .bind r⟩ ∈ s'.flight ↔ ⟨d, b, .bind r⟩ ∈ s.flight)
    (honce : (s'.flight.filterMap bindPipe).Nodup) (hattached : s'.attached = s.attached)
    (hbind : s'.toBind = s.toBind) : s'.Connects := by
  have hlost : ∀ d m r, s'.calls d = some (.lost m r) ↔ s.calls d = some (.lost m r) := fun d m r => by
    rcases hcalls d with he | ⟨h1, h2⟩
    · rw [he]
    · constructor <;> intro hc <;> simp_all [connecting]
  have hfound : ∀ d r b, meets (s'.calls d) = some (r, b) ↔ meets (s.calls d) = some (r, b) := fun d r b => by
    rcases hcalls d with he | ⟨h1, h2⟩
    · rw [he]
    · constructor <;> intro hc <;> simp_all [meets_connecting hc]
  refine ⟨fun r => ?_, fun r d m => ?_, fun r d m b => ?_, fun r => ?_, fun r d m b => ?_, fun r => ?_,
    fun d m r => ?_, fun d r b => ?_, fun p hp => ?_, fun d b r => ?_, by rw [hpending]; exact h.nodup, honce,
    fun p hp => ?_⟩
  · rw [hstage, hmade]
    exact h.unused r
  · rw [hstage, hmade, hlost]
    exact h.lost r d m
  · rw [hstage, hmade, hfound]
    exact h.found r d m b
  · rw [hstage, hpending]
    exact h.pending r
  · rw [hstage, hmade, hflight]
    exact h.sent r d m b
  · rw [hstage, hattached]
    exact h.attached r
  · rw [hmade, hlost]
    exact h.loser d m r
  · rw [hmade, hfound]
    exact h.finder d r b
  · rw [hpending] at hp
    rw [hmade]
    exact h.maker p hp
  · rw [hmade, hflight]
    exact h.sender d b r
  · rw [hpending] at hp
    rw [hbind]
    exact h.carries p hp

theorem succ_count {k : UInt32} (h : k.toNat + 1 < 2 ^ 32) : (k + 1).toNat = k.toNat + 1 := by
  exact Nat.mod_eq_of_lt h

theorem socket_update {β : Type*} (f : SocketT → β) (h : f o = f (g x)) (y : S) : f (update g x o y) = f (g y) := by
  rcases eq_or_ne y x with rfl | hne
  · rw [update_self, h]
  · rw [update_of_ne hne]

/-- One command more does not bring the counter of the socket back to zero. -/
def CountsTo (s : Inproc S N Q) (x : S) (count : ℕ) : Prop := (s.sockets x).sentSeqnum.toNat + count < 2 ^ 32

omit [DecidableEq S] [DecidableEq Q] in
theorem Connects.new (h : s.Connects) (hq : s.made q = none) :
    q ∉ s.pendingConnections.map (·.pipe) ∧ (∀ d b, ⟨d, b, .bind q⟩ ∉ s.flight) ∧ s.attached q = [] := by
  have hst := (h.unused q).mpr hq
  refine ⟨fun hin => ?_, fun d b hin => ?_, ?_⟩
  · rw [(h.pending q).mpr hin] at hst
    cases hst
  · have := h.sender d b q hin
    rw [hq] at this
    cases this
  · rw [h.attached, hst]
    rfl

theorem Connects.begins {k : InprocCall S N Q} (h : s.Connects) (hq : s.made q = none)
    (hcall : s.calls x = none) (hk : k = .lost n q ∧ st = .lost ∨ ∃ e, k = .found q e ∧ st = .found e.socket)
    (hmade : s'.made = update s.made q (some (x, n))) (hstage : s'.stage = update s.stage q st)
    (hcalls : s'.calls = update s.calls x (some k)) (hpending : s'.pendingConnections = s.pendingConnections)
    (hflight : s'.flight = s.flight) (hattached : s'.attached = s.attached) (hbind : s'.toBind = s.toBind) : s'.Connects := by
  obtain ⟨hnew, hnone, howners⟩ := h.new hq
  have hne : ∀ p ∈ s.pendingConnections, p.pipe ≠ q := fun p hp hpq => hnew (mem_map.mpr ⟨p, hp, hpq⟩)
  have hself : s'.calls x = some k := by rw [hcalls, update_self]
  have hconnecting : connecting (some k) = some q := by
    rcases hk with ⟨rfl, -⟩ | ⟨e, rfl, -⟩ <;> rfl
  refine h.moves q x n st ⟨.inl hq, ?_, hmade, hstage, fun d hd => ?_, .inr ?_, ?_,
    fun m hm => ?_, fun b => ?_, fun _ _ => by rw [hpending], ?_, fun p hp hpq => ?_, by rw [hpending]; exact h.nodup,
    fun _ _ _ _ => by rw [hflight], fun d b => ?_, by rw [hflight]; exact h.once, ?_, fun p hp => ?_⟩
  · rcases hk with ⟨-, rfl⟩ | ⟨e, -, rfl⟩ <;> simp
  · rw [hcalls, update_of_ne hd]
  · rw [hcall, hself, hconnecting]
    exact ⟨rfl, rfl⟩
  · rw [hself]
    rcases hk with ⟨rfl, rfl⟩ | ⟨e, rfl, rfl⟩ <;> simp
  · rw [hself] at hm
    rcases hk with ⟨rfl, -⟩ | ⟨e, rfl, -⟩ <;> cases hm
    rfl
  · rw [hself]
    rcases hk with ⟨rfl, rfl⟩ | ⟨e, rfl, rfl⟩ <;> simp [meets]
  · rw [hpending]
    refine ⟨fun hc => ?_, fun hc => absurd hc hnew⟩
    rcases hk with ⟨-, rfl⟩ | ⟨e, -, rfl⟩ <;> cases hc
  · rw [hpending] at hp
    exact absurd hpq (hne p hp)
  · rw [hflight]
    refine ⟨fun hc => absurd hc (hnone d b), fun hc => ?_⟩
    rcases hk with ⟨-, rfl⟩ | ⟨e, -, rfl⟩ <;> cases hc.2
  · rw [hattached]
    have howned : st.owners = s.attached q := by
      rw [howners]
      rcases hk with ⟨-, rfl⟩ | ⟨e, -, rfl⟩ <;> rfl
    rw [howned, update_eq_self]
  · rw [hpending] at hp
    rw [hbind]
    exact h.carries p hp

omit [DecidableEq S] [DecidableEq Q] in
theorem Connects.early (h : s.Connects) (hq : s.made q = some (x, n)) (hst : s.stage q = .lost ∨ ∃ b, s.stage q = .found b) :
    q ∉ s.pendingConnections.map (·.pipe) ∧ (∀ d b, ⟨d, b, .bind q⟩ ∉ s.flight) ∧ s.attached q = [] := by
  refine ⟨fun hin => ?_, fun d b hin => ?_, ?_⟩
  · rw [(h.pending q).mpr hin] at hst
    rcases hst with hst | ⟨b, hst⟩ <;> cases hst
  · have hd := h.sender d b q hin
    rw [hq] at hd
    cases hd
    rw [(h.sent q x n b hq).mpr hin] at hst
    rcases hst with hst | ⟨b, hst⟩ <;> cases hst
  · rw [h.attached]
    rcases hst with hst | ⟨b, hst⟩ <;> rw [hst] <;> rfl

theorem Connects.ends {binds : List (Packet S (InprocCmd Q))}
    {pends : List (PendingConnectionT S N Q)} {o : InprocOptions} (h : s.Connects) (hq : s.made q = some (x, n))
    (hst : s.stage q = .lost ∨ ∃ b, s.stage q = .found b) (hcall : connecting (s.calls x) = some q)
    (hnew : st = .pending ∧ binds = [] ∧ pends = [⟨n, ⟨x, o⟩, q⟩] ∧ s'.toBind q ≠ [] ∨
      (∃ b, st = .sent b ∧ binds = [⟨x, b, .bind q⟩]) ∧ pends = [])
    (hmade : s'.made = s.made) (hstage : s'.stage = update s.stage q st)
    (hcalls : s'.calls = update s.calls x none) (hpending : s'.pendingConnections = s.pendingConnections ++ pends)
    (hflight : s'.flight = s.flight ++ binds) (hattached : s'.attached = s.attached)
    (hbind : ∀ r ≠ q, s'.toBind r = s.toBind r) : s'.Connects := by
  obtain ⟨hfresh, hnone, howners⟩ := h.early hq hst
  have hne : ∀ p ∈ s.pendingConnections, p.pipe ≠ q := fun p hp hpq => hfresh (mem_map.mpr ⟨p, hp, hpq⟩)
  have hself : s'.calls x = none := by rw [hcalls, update_self]
  refine h.moves q x n st ⟨.inr hq, ?_, ?_, hstage, fun d hd => ?_, .inr ?_, ?_,
    fun m hm => ?_, fun b => ?_, fun p hp => ?_, ?_, fun p hp hpq => ?_, ?_, fun d b r hr => ?_, fun d b => ?_, ?_, ?_,
    fun p hp => ?_⟩
  · rcases hnew with ⟨rfl, -⟩ | ⟨⟨b, rfl, -⟩, -⟩ <;> simp
  · rw [hmade, ← hq, update_eq_self]
  · rw [hcalls, update_of_ne hd]
  · rw [hself, hcall]
    exact ⟨rfl, rfl⟩
  · rw [hself]
    rcases hnew with ⟨rfl, -⟩ | ⟨⟨b, rfl, -⟩, -⟩ <;> simp
  · rw [hself] at hm
    cases hm
  · rw [hself]
    rcases hnew with ⟨rfl, -⟩ | ⟨⟨b, rfl, -⟩, -⟩ <;> simp [meets]
  · rw [hpending, mem_append]
    refine or_iff_left fun hin => ?_
    rcases hnew with ⟨-, -, rfl, -⟩ | ⟨-, rfl⟩
    · rw [mem_singleton.mp hin] at hp
      exact hp rfl
    · exact not_mem_nil hin
  · rw [hpending, map_append]
    rcases hnew with ⟨rfl, -, rfl, -⟩ | ⟨⟨b, rfl, -⟩, rfl⟩
    · simp
    · simpa using hfresh
  · rw [hpending] at hp
    rcases mem_append.mp hp with hp | hp
    · exact absurd hpq (hne p hp)
    · rcases hnew with ⟨-, -, rfl, -⟩ | ⟨-, rfl⟩
      · rw [mem_singleton.mp hp]
        exact ⟨rfl, rfl⟩
      · exact nomatch hp
  · rw [hpending, map_append]
    rcases hnew with ⟨-, -, rfl, -⟩ | ⟨-, rfl⟩
    · exact List.Nodup.append h.nodup (nodup_singleton _) fun r hr hr' => by
        rw [map_singleton, mem_singleton] at hr'
        rw [hr'] at hr
        exact hfresh hr
    · rw [map_nil, append_nil]
      exact h.nodup
  · rw [hflight, mem_append]
    refine or_iff_left fun hin => ?_
    rcases hnew with ⟨-, rfl, -⟩ | ⟨⟨b', -, rfl⟩, -⟩
    · exact not_mem_nil hin
    · have := mem_singleton.mp hin
      simp only [Packet.mk.injEq, InprocCmd.bind.injEq] at this
      exact hr this.2.2
  · rw [hflight, mem_append, or_iff_right (hnone d b)]
    rcases hnew with ⟨rfl, rfl, -⟩ | ⟨⟨b', rfl, rfl⟩, -⟩
    · simp
    · simp [eq_comm]
  · rw [hflight, filterMap_append]
    rcases hnew with ⟨-, rfl, -⟩ | ⟨⟨b', -, rfl⟩, -⟩
    · rw [filterMap_nil, append_nil]
      exact h.once
    · refine List.Nodup.append h.once (nodup_singleton _) fun r hr hr' => ?_
      obtain rfl : r = q := mem_singleton.mp hr'
      obtain ⟨d, b, hm⟩ := mem_binds.mp hr
      exact hnone d b hm
  · rw [hattached]
    have howned : st.owners = s.attached q := by
      rw [howners]
      rcases hnew with ⟨rfl, -⟩ | ⟨⟨b, rfl, -⟩, -⟩ <;> rfl
    rw [howned, update_eq_self]
  · rw [hpending] at hp
    rcases mem_append.mp hp with hp | hp
    · rw [hbind _ (hne p hp)]
      exact h.carries p hp
    · rcases hnew with ⟨-, -, rfl, hb⟩ | ⟨-, rfl⟩
      · rw [mem_singleton.mp hp]
        exact hb
      · exact nomatch hp

omit [DecidableEq S] [DecidableEq Q] in
theorem Lives.same (h : s.Lives) (hcreated : s'.created = s.created) (hdestroyed : s'.destroyed = s.destroyed)
    (hends : s'.endpoints = s.endpoints) (htag : ∀ y, (s'.sockets y).tag = (s.sockets y).tag)
    (hterm : ∀ y, (s'.sockets y).terminating = (s.sockets y).terminating)
    (hcalls : ∀ y, s'.calls y ≠ none → s.Open y) : s'.Lives := by
  refine ⟨fun y hy => ?_, fun y hy => ?_, fun m e he => ?_, fun y hy => ?_⟩
  · rw [hdestroyed] at hy
    rw [hcreated, hterm]
    exact h.destroyed y hy
  · rw [hterm] at hy
    rw [htag]
    exact h.tag y hy
  · rw [hends] at he
    rw [hterm]
    unfold Alive
    rw [hcreated, hdestroyed]
    exact h.endpoints m e he
  · unfold Open Alive
    rw [hcreated, hdestroyed, htag]
    exact hcalls y hy

omit [DecidableEq S] [DecidableEq Q] in
theorem Bounds.others (h : s.Bounds) (hcalls : ∀ d ≠ x, s'.calls d = s.calls d)
    (hx : ∀ m, s.calls x ≠ some (.binding m)) (hx' : ∀ m, s'.calls x ≠ some (.binding m)) (hends : s'.endpoints = s.endpoints)
    (hpending : ∀ p ∈ s'.pendingConnections, p ∈ s.pendingConnections ∨ s.endpoints p.addr = none) : s'.Bounds := by
  refine ⟨fun p hp e he => ?_, fun b m hb => ?_⟩
  · rw [hends] at he
    rcases hpending p hp with hp | hp
    · have hb := h.pending p hp e he
      rw [hcalls]
      · exact hb
      · rintro rfl
        exact hx _ hb
    · rw [hp] at he
      cases he
  · rw [hends]
    refine h.binding b m ?_
    rw [← hcalls]
    · exact hb
    · rintro rfl
      exact hx' m hb

def losing (s : Inproc S N Q) (x : S) (n : N) (q : Q) : Inproc S N Q :=
  { s with
    made := update s.made q (some (x, n))
    calls := update s.calls x (some (.lost n q))
    stage := update s.stage q .lost }

theorem Core.loses (h : s.Core) (hx : s.Open x) (hcall : s.calls x = none) (hq : s.made q = none) : (s.losing x n q).Core := by
  have hcalls : ∀ y ≠ x, (s.losing x n q).calls y = s.calls y := fun y hy => update_of_ne hy _ _
  have hcalls' : (s.losing x n q).calls x = some (.lost n q) := update_self _ _ _
  refine ⟨h.toLives.same rfl rfl rfl (fun _ => rfl) (fun _ => rfl) fun y hy => ?_,
    h.toConnects.begins hq hcall (.inl ⟨rfl, rfl⟩) rfl rfl rfl rfl rfl rfl rfl,
    ⟨fun b c => ?_, h.incs, h.unborn, h.gone, h.counted, h.processed, h.acks⟩,
    h.bounds.others (x := x) hcalls (fun m => by rw [hcall]; simp) (fun m => by rw [hcalls']; simp) rfl
      fun p hp => .inl hp⟩
  · rcases eq_or_ne y x with rfl | hyx
    · exact hx
    · rw [hcalls y hyx] at hy
      exact h.calls y hy
  · have hmeets : meets ((s.losing x n q).calls c) = meets (s.calls c) := by
      rcases eq_or_ne c x with rfl | hcx
      · rw [hcall, hcalls']
        rfl
      · rw [hcalls c hcx]
    rw [hmeets]
    exact h.finders b c

def finding (s : Inproc S N Q) (x : S) (n : N) (q : Q) (e : EndpointT S) : Inproc S N Q :=
  { s with
    sockets := update s.sockets e.socket
      { s.sockets e.socket with sentSeqnum := (s.sockets e.socket).sentSeqnum + 1 }
    incs := update s.incs e.socket (s.incs e.socket + 1)
    made := update s.made q (some (x, n))
    calls := update s.calls x (some (.found q e))
    stage := update s.stage q (.found e.socket)
    finders := update s.finders e.socket (insert x (s.finders e.socket)) }

theorem finding_calls : (s.finding x n q e).calls x = some (.found q e) := update_self _ _ _

theorem finding_calls_ne (h : y ≠ x) : (s.finding x n q e).calls y = s.calls y :=
  update_of_ne h _ _

theorem finding_socket : (s.finding x n q e).sockets e.socket =
    { s.sockets e.socket with sentSeqnum := (s.sockets e.socket).sentSeqnum + 1 } := update_self _ _ _

theorem finding_socket_ne (h : y ≠ e.socket) : (s.finding x n q e).sockets y = s.sockets y :=
  update_of_ne h _ _

theorem add_one_update {f : S → ℕ} (b y : S) : update f b (f b + 1) y = f y + if y = b then 1 else 0 := by
  rcases eq_or_ne y b with rfl | hne
  · rw [update_self, if_pos rfl]
  · rw [update_of_ne hne, if_neg hne, Nat.add_zero]

theorem balanced_update (h : ∀ y, (g y).Balanced) (ho : o.Balanced) (y : S) : (update g x o y).Balanced := by
  rcases eq_or_ne y x with rfl | hne
  · rwa [update_self]
  · rw [update_of_ne hne]
    exact h y

omit [DecidableEq Q] in
theorem Counts.moves (h : s.Counts) (a d : S → ℕ) (hcreated : s'.created = s.created) (hdestroyed : s'.destroyed = s.destroyed)
    (hfinders : ∀ b c, c ∈ s'.finders b ↔ (meets (s'.calls c)).map (·.2) = some b)
    (hincs : ∀ y, s'.incs y = s.incs y + a y) (hhandled : ∀ y, s'.handled y = s.handled y + d y)
    (hdue : ∀ y, s'.due y + d y = s.due y + a y) (halive : ∀ y, s.Alive y ∨ a y = 0 ∧ d y = 0)
    (hsent : ∀ y, (s'.sockets y).sentSeqnum.toNat = (s.sockets y).sentSeqnum.toNat + a y)
    (hprocessed : ∀ y, (s'.sockets y).processedSeqnum.toNat = (s.sockets y).processedSeqnum.toNat + d y)
    (hacks : ∀ y, (s'.sockets y).Balanced) : s'.Counts := by
  refine ⟨hfinders, fun y => ?_, fun y hy => ?_, fun y hy => ?_, fun y => ?_, fun y => ?_, hacks⟩
  · have hi := h.incs y
    have hd := hdue y
    rw [hincs, hhandled]
    omega
  · rw [hcreated] at hy
    have hu := h.unborn y hy
    rcases halive y with ha | ⟨ha, -⟩
    · exact absurd (hy.symm.trans ha.1) (by simp)
    · rw [hincs, hu, ha]
  · rw [hdestroyed] at hy
    have hg := h.gone y hy
    have hd := hdue y
    rcases halive y with ha | ⟨ha, -⟩
    · exact absurd (ha.2.symm.trans hy) (by simp)
    · omega
  · rw [hsent, hincs, h.counted]
  · rw [hprocessed, hhandled, h.processed]

omit [DecidableEq Q] in
theorem counted_inc (hk : s.CountsTo b 1) (y : S) :
    (update s.sockets b { s.sockets b with sentSeqnum := (s.sockets b).sentSeqnum + 1 } y).sentSeqnum.toNat =
      (s.sockets y).sentSeqnum.toNat + if y = b then 1 else 0 := by
  rcases eq_or_ne y b with rfl | hne
  · rw [update_self, succ_count hk, if_pos rfl]
  · rw [update_of_ne hne, if_neg hne, Nat.add_zero]

theorem Core.finds (h : s.Core) (hx : s.Open x) (hcall : s.calls x = none) (hq : s.made q = none)
    (he : s.endpoints n = some e) (hk : s.CountsTo e.socket 1) : (s.finding x n q e).Core := by
  have hcalls : ∀ y ≠ x, (s.finding x n q e).calls y = s.calls y := fun y hy => finding_calls_ne hy
  have hcalls' : (s.finding x n q e).calls x = some (.found q e) := finding_calls
  have hfield : ∀ {β : Type} (f : SocketT → β), (∀ o k, f { o with sentSeqnum := k } = f o) →
      ∀ y, f ((s.finding x n q e).sockets y) = f (s.sockets y) := fun f hf => socket_update f (hf _ _)
  have hstops := hfield (·.terminating) fun _ _ => rfl
  have htag := hfield (·.tag) fun _ _ => rfl
  have halive := (h.endpoints n e he).1
  have hfree : x ∉ s.finders e.socket := fun hin => by
    have := (h.finders e.socket x).mp hin
    rw [hcall] at this
    cases this
  have hdue : ∀ y, (s.finding x n q e).due y = s.due y + if y = e.socket then 1 else 0 := fun y => by
    unfold due finding
    dsimp only
    rcases eq_or_ne y e.socket with rfl | hne
    · rw [update_self, Finset.card_insert_of_notMem hfree, if_pos rfl]
      omega
    · rw [update_of_ne hne, if_neg hne]
      rfl
  refine ⟨h.toLives.same rfl rfl rfl htag hstops fun y hy => ?_,
    h.toConnects.begins hq hcall (.inr ⟨e, rfl, rfl⟩) rfl rfl rfl rfl rfl rfl rfl,
    h.toCounts.moves (fun y => if y = e.socket then 1 else 0) (fun _ => 0) rfl rfl (fun b c => ?_)
      (add_one_update e.socket) (fun _ => rfl) hdue (fun y => ?_) (counted_inc hk) (fun y => ?_) (fun y => ?_),
    h.bounds.others (x := x) hcalls (fun m => by rw [hcall]; simp) (fun m => by rw [hcalls']; simp) rfl
      fun p hp => .inl hp⟩
  · rcases eq_or_ne y x with rfl | hyx
    · exact hx
    · exact h.calls y (by rwa [hcalls y hyx] at hy)
  · rcases eq_or_ne c x with rfl | hcx
    · unfold finding
      dsimp only
      rcases eq_or_ne b e.socket with rfl | hb
      · simp [meets]
      · rw [update_of_ne hb, h.finders, hcall]
        simp [meets, hb.symm]
    · rw [hcalls c hcx, ← h.finders]
      unfold finding
      dsimp only
      rcases eq_or_ne b e.socket with rfl | hb
      · simp [hcx]
      · rw [update_of_ne hb]
  · rcases eq_or_ne y e.socket with rfl | hne
    · exact .inl halive
    · exact .inr ⟨if_neg hne, rfl⟩
  · rw [hfield (·.processedSeqnum) fun _ _ => rfl, Nat.add_zero]
  · exact balanced_update (o := { s.sockets e.socket with sentSeqnum := (s.sockets e.socket).sentSeqnum + 1 }) h.acks
      (h.acks e.socket) y

def piped (o : SocketT) : SocketT := { o with pipes := o.pipes + 1 }

theorem piped_balanced (h : o.Balanced) (ho : o.terminating = false) : (piped o).Balanced := by
  unfold SocketT.Balanced at h ⊢
  rw [if_neg (by simp [ho])] at h
  rw [if_neg (by simp [piped, ho])]
  exact h

omit [DecidableEq S] [DecidableEq Q] in
theorem Lives.running (h : s.Lives) (hx : s.calls x ≠ none) : (s.sockets x).terminating = false := by
  by_contra hterm
  have htag := h.tag x (by simpa using hterm)
  rw [(h.calls x hx).2] at htag
  cases htag

omit [DecidableEq Q] in
theorem Counts.lost_finders (h : s.Counts) (hcalls : ∀ y ≠ x, s'.calls y = s.calls y) (hx : meets (s.calls x) = none)
    (hx' : meets (s'.calls x) = none) (hf : s'.finders = s.finders) (b c : S) :
    c ∈ s'.finders b ↔ (meets (s'.calls c)).map (·.2) = some b := by
  rw [hf, h.finders]
  rcases eq_or_ne c x with rfl | hcx
  · rw [hx, hx']
  · rw [hcalls c hcx]

def pending (s : Inproc S N Q) (x : S) (p : PendingConnectionT S N Q) (toBind toConnect : List (List UInt8)) :
    Inproc S N Q :=
  { s with
    sockets := update s.sockets x (piped { s.sockets x with sentSeqnum := (s.sockets x).sentSeqnum + 1 })
    incs := update s.incs x (s.incs x + 1)
    toBind := update s.toBind p.pipe toBind
    toConnect := update s.toConnect p.pipe toConnect
    pendingConnections := s.pendingConnections ++ [p]
    stage := update s.stage p.pipe .pending
    calls := update s.calls x none }

theorem Core.pends {o : InprocOptions} (h : s.Core)
    (hcall : s.calls x = some (.lost n q)) (hn : s.endpoints n = none) (hb : toBind ≠ []) (hk : s.CountsTo x 1) :
    (s.pending x ⟨n, ⟨x, o⟩, q⟩ toBind toConnect).Core := by
  have hx := h.calls x (by rw [hcall]; simp)
  have hq := h.loser x n q hcall
  have hst : s.stage q = .lost := (h.lost q x n hq).mpr hcall
  have hcalls : ∀ y ≠ x, (s.pending x ⟨n, ⟨x, o⟩, q⟩ toBind toConnect).calls y = s.calls y := fun y hy =>
    update_of_ne hy _ _
  have hcalls' : (s.pending x ⟨n, ⟨x, o⟩, q⟩ toBind toConnect).calls x = none := update_self _ _ _
  have hfield : ∀ {β : Type} (f : SocketT → β), (∀ o k, f (piped { o with sentSeqnum := k }) = f o) →
      ∀ y, f ((s.pending x ⟨n, ⟨x, o⟩, q⟩ toBind toConnect).sockets y) = f (s.sockets y) := fun f hf =>
    socket_update f (hf _ _)
  have hopen := h.toLives.running (x := x) (by rw [hcall]; simp)
  refine ⟨h.toLives.same rfl rfl rfl (hfield _ fun _ _ => rfl) (hfield _ fun _ _ => rfl) fun y hy => ?_,
    h.toConnects.ends hq (.inl hst) (by rw [hcall]; rfl) (.inl ⟨rfl, rfl, rfl, ?_⟩) rfl rfl rfl
      rfl (append_nil _).symm rfl fun r hr => update_of_ne hr _ _,
    h.toCounts.moves (fun y => if y = x then 1 else 0) (fun _ => 0) rfl rfl
      (h.toCounts.lost_finders hcalls (by rw [hcall]; rfl) (by rw [hcalls']; rfl) rfl) (add_one_update x)
      (fun _ => rfl) (fun y => ?_) (fun y => ?_) (fun y => ?_) (fun y => ?_) (fun y => ?_),
    h.bounds.others (x := x) hcalls (fun m => by rw [hcall]; simp) (fun m => by rw [hcalls']; simp) rfl
      fun p hp => ?_⟩
  · refine h.calls y fun hnone => hy ?_
    rcases eq_or_ne y x with rfl | hyx
    · exact hcalls'
    · rw [hcalls y hyx, hnone]
  · unfold pending
    dsimp only
    rwa [update_self]
  · unfold due pending
    rw [countP_append]
    simp only [countP_singleton, decide_eq_true_eq]
    rcases eq_or_ne y x with rfl | hne
    · omega
    · rw [if_neg hne.symm, if_neg hne]
      omega
  · rcases eq_or_ne y x with rfl | hne
    · exact .inl hx.1
    · exact .inr ⟨if_neg hne, rfl⟩
  · have hinc := counted_inc hk y
    unfold pending
    dsimp only
    rcases eq_or_ne y x with rfl | hne
    · rw [update_self] at hinc ⊢
      exact hinc
    · rw [update_of_ne hne] at hinc ⊢
      exact hinc
  · rw [hfield (·.processedSeqnum) fun _ _ => rfl, Nat.add_zero]
  · exact balanced_update h.acks
      (piped_balanced (o := { s.sockets x with sentSeqnum := (s.sockets x).sentSeqnum + 1 }) (h.acks x) hopen) y
  · rcases mem_append.mp hp with hp | hp
    · exact .inl hp
    · rw [mem_singleton.mp hp]
      exact .inr hn

def catching (s : Inproc S N Q) (x : S) (q : Q) (b : S) (toBind toConnect : List (List UInt8)) : Inproc S N Q :=
  let sockets := update s.sockets b { s.sockets b with sentSeqnum := (s.sockets b).sentSeqnum + 1 }
  { s with
    sockets := update sockets x (piped (sockets x))
    incs := update s.incs b (s.incs b + 1)
    toBind := update s.toBind q toBind
    toConnect := update s.toConnect q toConnect
    flight := s.flight ++ [⟨x, b, .bind q⟩]
    stage := update s.stage q (.sent b)
    calls := update s.calls x none }

theorem Core.catches (h : s.Core) (hcall : s.calls x = some (.lost n q))
    (hb : s.Alive b) (hk : s.CountsTo b 1) : (s.catching x q b toBind toConnect).Core := by
  have hq := h.loser x n q hcall
  have hst : s.stage q = .lost := (h.lost q x n hq).mpr hcall
  have hcalls : ∀ y ≠ x, (s.catching x q b toBind toConnect).calls y = s.calls y := fun y hy =>
    update_of_ne hy _ _
  have hcalls' : (s.catching x q b toBind toConnect).calls x = none := update_self _ _ _
  have hfield : ∀ {β : Type} (f : SocketT → β), (∀ o k, f { o with sentSeqnum := k } = f o) → (∀ o, f (piped o) = f o) →
      ∀ y, f ((s.catching x q b toBind toConnect).sockets y) = f (s.sockets y) := fun f hf hf' y =>
    (socket_update f (hf' _) y).trans (socket_update f (hf _ _) y)
  have hopen := h.toLives.running (x := x) (by rw [hcall]; simp)
  refine ⟨h.toLives.same rfl rfl rfl (hfield _ (fun _ _ => rfl) fun _ => rfl) (hfield _ (fun _ _ => rfl) fun _ => rfl)
      fun y hy => ?_,
    h.toConnects.ends (o := ⟨false, []⟩) hq (.inl hst) (by rw [hcall]; rfl) (.inr ⟨⟨_, rfl, rfl⟩, rfl⟩) rfl rfl rfl
      (append_nil _).symm rfl rfl fun r hr => update_of_ne hr _ _,
    h.toCounts.moves (fun y => if y = b then 1 else 0) (fun _ => 0) rfl rfl
      (h.toCounts.lost_finders hcalls (by rw [hcall]; rfl) (by rw [hcalls']; rfl) rfl) (add_one_update b)
      (fun _ => rfl) (fun y => ?_) (fun y => ?_) (fun y => ?_) (fun y => ?_) (fun y => ?_),
    h.bounds.others (x := x) hcalls (fun m => by rw [hcall]; simp) (fun m => by rw [hcalls']; simp) rfl
      fun p hp => .inl hp⟩
  · refine h.calls y fun hnone => hy ?_
    rcases eq_or_ne y x with rfl | hyx
    · exact hcalls'
    · rw [hcalls y hyx, hnone]
  · unfold due catching
    rw [countP_append]
    simp only [countP_singleton, decide_eq_true_eq]
    rcases eq_or_ne y b with rfl | hne
    · omega
    · rw [if_neg hne.symm, if_neg hne]
      omega
  · rcases eq_or_ne y b with rfl | hne
    · exact .inl hb
    · exact .inr ⟨if_neg hne, rfl⟩
  · unfold catching
    rw [socket_update SocketT.sentSeqnum (by rfl)]
    exact counted_inc hk y
  · rw [hfield (·.processedSeqnum) (fun _ _ => rfl) fun _ => rfl, Nat.add_zero]
  · have hmid := balanced_update (x := b) (o := { s.sockets b with sentSeqnum := (s.sockets b).sentSeqnum + 1 }) h.acks
      (h.acks b)
    refine balanced_update hmid (piped_balanced (hmid x) ?_) y
    rw [socket_update SocketT.terminating (by rfl)]
    exact hopen

def sending (s : Inproc S N Q) (x : S) (q : Q) (b : S) (toBind toConnect : List (List UInt8)) : Inproc S N Q :=
  { s with
    sockets := update s.sockets x (piped (s.sockets x))
    toBind := update s.toBind q toBind
    toConnect := update s.toConnect q toConnect
    flight := s.flight ++ [⟨x, b, .bind q⟩]
    stage := update s.stage q (.sent b)
    calls := update s.calls x none
    finders := update s.finders b ((s.finders b).erase x) }

section

variable {toBind toConnect : List (List UInt8)}

theorem sending_socket : (s.sending x q b toBind toConnect).sockets x = piped (s.sockets x) := update_self _ _ _

theorem sending_socket_ne (h : y ≠ x) : (s.sending x q b toBind toConnect).sockets y = s.sockets y :=
  update_of_ne h _ _

theorem sending_calls : (s.sending x q b toBind toConnect).calls x = none := update_self _ _ _

theorem sending_calls_ne (h : y ≠ x) : (s.sending x q b toBind toConnect).calls y = s.calls y :=
  update_of_ne h _ _

end

variable {toBind toConnect : List (List UInt8)}

theorem Core.sends {e : EndpointT S} (h : s.Core)
    (hcall : s.calls x = some (.found q e)) : (s.sending x q e.socket toBind toConnect).Core := by
  have hmeets : meets (s.calls x) = some (q, e.socket) := by rw [hcall]; rfl
  obtain ⟨⟨x', n⟩, hq, hxn⟩ := Option.map_eq_some_iff.mp (h.finder x q e.socket hmeets)
  obtain rfl : x' = x := hxn
  have hst : s.stage q = .found e.socket := (h.found q x' n e.socket hq).mpr hmeets
  have hcalls : ∀ y ≠ x', (s.sending x' q e.socket toBind toConnect).calls y = s.calls y := fun y hy =>
    sending_calls_ne hy
  have hcalls' : (s.sending x' q e.socket toBind toConnect).calls x' = none := sending_calls
  have hfield : ∀ {β : Type} (f : SocketT → β), (∀ o, f (piped o) = f o) →
      ∀ y, f ((s.sending x' q e.socket toBind toConnect).sockets y) = f (s.sockets y) := fun f hf =>
    socket_update f (hf _)
  have hopen := h.toLives.running (x := x') (by rw [hcall]; simp)
  have hin : x' ∈ s.finders e.socket := (h.finders e.socket x').mpr (by rw [hmeets]; rfl)
  refine ⟨h.toLives.same rfl rfl rfl (hfield _ fun _ => rfl) (hfield _ fun _ => rfl) fun y hy => ?_,
    h.toConnects.ends (o := ⟨false, []⟩) hq (.inr ⟨_, hst⟩) (by rw [hcall]; rfl) (.inr ⟨⟨_, rfl, rfl⟩, rfl⟩) rfl rfl rfl
      (append_nil _).symm rfl rfl fun r hr => update_of_ne hr _ _,
    h.toCounts.moves (fun _ => 0) (fun _ => 0) rfl rfl (fun b c => ?_) (fun _ => rfl) (fun _ => rfl) (fun y => ?_)
      (fun _ => .inr ⟨rfl, rfl⟩) (fun y => ?_) (fun y => ?_) (balanced_update h.acks (piped_balanced (h.acks x') hopen)),
    h.bounds.others (x := x') hcalls (fun m => by rw [hcall]; simp) (fun m => by rw [hcalls']; simp) rfl
      fun p hp => .inl hp⟩
  · refine h.calls y fun hnone => hy ?_
    rcases eq_or_ne y x' with rfl | hyx
    · exact hcalls'
    · rw [hcalls y hyx, hnone]
  · rcases eq_or_ne c x' with rfl | hcx
    · unfold sending
      dsimp only
      rcases eq_or_ne b e.socket with rfl | hb
      · simp [meets]
      · rw [update_of_ne hb, h.finders, hmeets]
        simp [meets, hb.symm]
    · rw [hcalls c hcx, ← h.finders]
      unfold sending
      dsimp only
      rcases eq_or_ne b e.socket with rfl | hb
      · simp [hcx]
      · rw [update_of_ne hb]
  · unfold due sending
    dsimp only
    rw [countP_append]
    rcases eq_or_ne y e.socket with rfl | hne
    · have hpos := Finset.card_pos.mpr ⟨x', hin⟩
      rw [update_self, Finset.card_erase_of_mem hin]
      simp only [countP_singleton, decide_true, if_true]
      omega
    · rw [update_of_ne hne]
      simp [hne.symm]
  · rw [hfield (·.sentSeqnum) fun _ => rfl, Nat.add_zero]
  · rw [hfield (·.processedSeqnum) fun _ => rfl, Nat.add_zero]

def taking (s : Inproc S N Q) (b : S) (p : PendingConnectionT S N Q) (toBind toConnect : List (List UInt8)) :
    Inproc S N Q :=
  { s with
    sockets := update s.sockets b { piped (s.sockets b) with
      sentSeqnum := (s.sockets b).sentSeqnum + 1, processedSeqnum := (s.sockets b).processedSeqnum + 1 }
    incs := update s.incs b (s.incs b + 1)
    handled := update s.handled b (s.handled b + 1)
    toBind := update s.toBind p.pipe toBind
    toConnect := update s.toConnect p.pipe toConnect
    flight := s.flight ++ [⟨b, p.endpoint.socket, .inprocConnected⟩]
    attached := update s.attached p.pipe (s.attached p.pipe ++ [b])
    stage := update s.stage p.pipe (.attached b) }

theorem succ_handled {k : UInt64} (h : k.toNat < 2 ^ 32) : (k + 1).toNat = k.toNat + 1 := by
  rw [UInt64.toNat_add]
  exact Nat.mod_eq_of_lt (by have : (1 : UInt64).toNat = 1 := rfl; omega)

theorem Core.takes {p : PendingConnectionT S N Q} {l : List (PendingConnectionT S N Q)}
    (h : Core { s with pendingConnections := p :: l }) (hb : s.Alive b)
    (hrun : (s.sockets b).terminating = false) (hk : s.CountsTo b 1) :
    Core { s.taking b p toBind toConnect with pendingConnections := l } := by
  have hmade := h.maker p mem_cons_self
  have hst := (h.pending p.pipe).mpr (mem_map_of_mem mem_cons_self)
  have hnodup := h.nodup
  rw [map_cons, nodup_cons] at hnodup
  have hfield : ∀ {β : Type} (f : SocketT → β), (∀ o k k', f { piped o with sentSeqnum := k, processedSeqnum := k' } = f o) →
      ∀ y, f ((s.taking b p toBind toConnect).sockets y) = f (s.sockets y) := fun f hf => socket_update f (hf _ _ _)
  have hlost : ∀ d m, s.calls d ≠ some (.lost m p.pipe) := fun d m hc => by
    have hd := h.loser d m p.pipe hc
    have := (h.lost p.pipe d m hd).mpr hc
    rw [hst] at this
    cases this
  have hfound : ∀ d b, meets (s.calls d) ≠ some (p.pipe, b) := fun d b hc => by
    obtain ⟨⟨d', m⟩, hd, rfl⟩ := Option.map_eq_some_iff.mp (h.finder d p.pipe b hc)
    have := (h.found p.pipe d' m b hd).mpr hc
    rw [hst] at this
    cases this
  have hflight : ∀ d b, ⟨d, b, .bind p.pipe⟩ ∉ s.flight := fun d b hin => by
    obtain ⟨⟨d', m⟩, hd, rfl⟩ := Option.map_eq_some_iff.mp (h.sender d b p.pipe hin)
    have := (h.sent p.pipe d' m b hd).mpr hin
    rw [hst] at this
    cases this
  refine ⟨h.toLives.same rfl rfl rfl (hfield _ fun _ _ _ => rfl) (hfield _ fun _ _ _ => rfl) fun y hy => h.calls y hy,
    h.toConnects.moves p.pipe p.endpoint.socket p.addr (.attached b)
      ⟨.inr hmade, by simp, ?_, rfl, fun _ _ => rfl, .inl rfl, ?_, fun m hm => absurd hm (hlost _ m), fun b' => ?_,
        fun p' hp' => ?_, ?_, fun p' hp' hpq => ?_, hnodup.2, fun d b' r hr => ?_, fun d b' => ?_, ?_, ?_,
        fun p' hp' => ?_⟩,
    h.toCounts.moves (fun y => if y = b then 1 else 0) (fun y => if y = b then 1 else 0) rfl rfl h.finders
      (add_one_update b) (add_one_update b) (fun y => ?_) (fun y => ?_) (fun y => ?_) (fun y => ?_) (fun y => ?_),
    ⟨fun p' hp' => h.bounds.pending p' (mem_cons_of_mem _ hp'), h.bounds.binding⟩⟩
  · exact (hmade ▸ (update_eq_self p.pipe s.made).symm)
  · exact ⟨nofun, fun hc => absurd hc (hlost _ _)⟩
  · exact ⟨nofun, fun hc => absurd hc (hfound _ b')⟩
  · rw [mem_cons, or_iff_right]
    rintro rfl
    exact hp' rfl
  · exact ⟨nofun, fun hc => absurd hc hnodup.1⟩
  · exact absurd (mem_map.mpr ⟨p', hp', hpq⟩) hnodup.1
  · unfold taking
    simp
  · unfold taking
    simp [hflight]
  · unfold taking
    rw [filterMap_append]
    have hnone : [(⟨b, p.endpoint.socket, .inprocConnected⟩ : Packet S (InprocCmd Q))].filterMap bindPipe = [] := rfl
    rw [hnone, append_nil]
    exact h.once
  · have howners := h.attached p.pipe
    rw [hst] at howners
    unfold taking
    rw [howners]
    rfl
  · have hne : p'.pipe ≠ p.pipe := fun he => hnodup.1 (he ▸ mem_map_of_mem hp')
    unfold taking
    dsimp only
    rw [update_of_ne hne]
    exact h.carries p' (mem_cons_of_mem _ hp')
  · unfold due taking
    simp only [countP_append, countP_cons, countP_nil, decide_eq_true_eq]
    omega
  · rcases eq_or_ne y b with rfl | hne
    · exact .inl hb
    · exact .inr ⟨if_neg hne, if_neg hne⟩
  · have hinc := counted_inc hk y
    unfold taking
    dsimp only
    rcases eq_or_ne y b with rfl | hne
    · rw [update_self] at hinc ⊢
      exact hinc
    · rw [update_of_ne hne] at hinc ⊢
      exact hinc
  · unfold taking
    dsimp only
    rcases eq_or_ne y b with rfl | hne
    · have hle := (s.sockets y).sentSeqnum.toNat_lt
      have hincs := h.incs y
      have hs := h.counted y
      have hd := h.processed y
      dsimp only at hincs hs hd
      rw [update_self, if_pos rfl]
      exact succ_handled (by omega)
    · rw [update_of_ne hne, if_neg hne, Nat.add_zero]
  · exact balanced_update h.acks (o := { piped (s.sockets b) with
      sentSeqnum := (s.sockets b).sentSeqnum + 1, processedSeqnum := (s.sockets b).processedSeqnum + 1 })
      (piped_balanced (h.acks b) hrun) y

section

variable {older newer : List (Packet S (InprocCmd Q))} {m : Packet S (InprocCmd Q)}

section

omit [DecidableEq Q]

theorem Counts.arrives (h : s.Counts) (hf : s.flight = older ++ m :: newer) : s.Alive m.dst ∧
    (s.sockets m.dst).processedSeqnum.toNat < 2 ^ 32 ∧
    ∀ y, Inproc.due { s with flight := older ++ newer } y + (if y = m.dst then 1 else 0) = s.due y := by
  have hdue : ∀ y, Inproc.due { s with flight := older ++ newer } y + (if y = m.dst then 1 else 0) = s.due y :=
      fun y => by
    unfold due
    rw [hf]
    simp only [countP_append, countP_cons, decide_eq_true_eq, eq_comm (a := y)]
    omega
  have hpos : 0 < s.due m.dst := by
    have := hdue m.dst
    rw [if_pos rfl] at this
    omega
  have hlt := (s.sockets m.dst).sentSeqnum.toNat_lt
  have hincs := h.incs m.dst
  rw [← h.counted, ← h.processed] at hincs
  exact ⟨h.alive hpos, by omega, hdue⟩

theorem Counts.handles {o : SocketT} (h : s.Counts) (hf : s.flight = older ++ m :: newer)
    (ho : o.sentSeqnum = (s.sockets m.dst).sentSeqnum) (hbalanced : o.Balanced) (hf' : s'.flight = older ++ newer)
    (hcreated : s'.created = s.created) (hdestroyed : s'.destroyed = s.destroyed) (hcalls : s'.calls = s.calls)
    (hfinders : s'.finders = s.finders) (hpending : s'.pendingConnections = s.pendingConnections)
    (hincs : s'.incs = s.incs) (hhandled : s'.handled = update s.handled m.dst (s.handled m.dst + 1))
    (hsockets : s'.sockets = update s.sockets m.dst
      { o with processedSeqnum := (s.sockets m.dst).processedSeqnum + 1 }) : s'.Counts := by
  obtain ⟨halive, hlt, hdue⟩ := h.arrives hf
  refine h.moves (fun _ => 0) (fun y => if y = m.dst then 1 else 0) hcreated hdestroyed (fun b c => ?_)
    (fun y => by rw [hincs, Nat.add_zero]) (fun y => by rw [hhandled, add_one_update]) (fun y => ?_) (fun y => ?_) (fun y => ?_)
    (fun y => ?_) (fun y => ?_)
  · rw [hfinders, hcalls]
    exact h.finders b c
  · rw [Nat.add_zero, ← hdue y]
    unfold due
    rw [hf', hpending, hfinders]
  · rcases eq_or_ne y m.dst with rfl | hne
    · exact .inl halive
    · exact .inr ⟨rfl, if_neg hne⟩
  · rw [hsockets, socket_update SocketT.sentSeqnum (by exact ho), Nat.add_zero]
  · rw [hsockets]
    rcases eq_or_ne y m.dst with rfl | hne
    · rw [update_self, if_pos rfl]
      exact succ_handled hlt
    · rw [update_of_ne hne, if_neg hne, Nat.add_zero]
  · rw [hsockets]
    exact balanced_update h.acks (o := { o with processedSeqnum := (s.sockets m.dst).processedSeqnum + 1 }) hbalanced y

theorem Core.connected (h : s.Core) (hf : s.flight = older ++ m :: newer) (hm : m.cmd = .inprocConnected) :
    Core { s with
      flight := older ++ newer
      sockets := update s.sockets m.dst
        { s.sockets m.dst with processedSeqnum := (s.sockets m.dst).processedSeqnum + 1 }
      handled := update s.handled m.dst (s.handled m.dst + 1) } := by
  have hfield : ∀ {β : Type} (f : SocketT → β), (∀ o k, f { o with processedSeqnum := k } = f o) →
      ∀ y, f (update s.sockets m.dst
        { s.sockets m.dst with processedSeqnum := (s.sockets m.dst).processedSeqnum + 1 } y) = f (s.sockets y) :=
    fun f hf => socket_update f (hf _ _)
  have hsub : List.Sublist (older ++ newer) s.flight := by
    rw [hf]
    exact List.Sublist.append_left (sublist_cons_self m newer) older
  refine ⟨h.toLives.same rfl rfl rfl (hfield _ fun _ _ => rfl) (hfield _ fun _ _ => rfl) fun y hy => h.calls y hy,
    h.toConnects.same rfl rfl (fun _ => .inl rfl) rfl (fun d b r => ?_) ((hsub.filterMap _).nodup h.once) rfl rfl,
    h.toCounts.handles hf rfl (h.acks m.dst) rfl rfl rfl rfl rfl rfl rfl rfl rfl, ⟨h.bounds.pending, h.bounds.binding⟩⟩
  rw [hf, mem_append, mem_append, mem_cons, or_iff_right (a := _ = m)]
  rintro rfl
  cases hm

end

def attachedTo (o : SocketT) : SocketT :=
  { o with pipes := o.pipes + 1, termAcks := o.termAcks + if o.terminating then 1 else 0 }

theorem Core.attaches (h : s.Core) (hf : s.flight = older ++ ⟨c, b, .bind q⟩ :: newer) :
    Core { s with
      flight := older ++ newer
      sockets := update s.sockets b
        { attachedTo (s.sockets b) with processedSeqnum := (s.sockets b).processedSeqnum + 1 }
      handled := update s.handled b (s.handled b + 1)
      attached := update s.attached q (s.attached q ++ [b])
      stage := update s.stage q (.attached b) } := by
  have hfield : ∀ {β : Type} (f : SocketT → β), (∀ o k, f { attachedTo o with processedSeqnum := k } = f o) →
      ∀ y, f (update s.sockets b
        { attachedTo (s.sockets b) with processedSeqnum := (s.sockets b).processedSeqnum + 1 } y) = f (s.sockets y) :=
    fun f hf => socket_update f (hf _ _)
  have hin : ⟨c, b, .bind q⟩ ∈ s.flight := by rw [hf]; simp
  obtain ⟨⟨c', n⟩, hq, hc⟩ := Option.map_eq_some_iff.mp (h.sender c b q hin)
  obtain rfl : c' = c := hc
  have hst := (h.sent q c' n b hq).mpr hin
  have hsub : List.Sublist (older ++ newer) s.flight := by
    rw [hf]
    exact List.Sublist.append_left (sublist_cons_self _ newer) older
  have hlost : ∀ m, s.calls c' ≠ some (.lost m q) := fun m hcall => by
    rw [(h.lost q c' m (h.loser c' m q hcall)).mpr hcall] at hst
    cases hst
  have hgone : ∀ d b', ⟨d, b', .bind q⟩ ∉ older ++ newer := fun d b' hin' => by
    have honce := h.once
    rw [hf, filterMap_append] at honce
    refine (nodup_cons.mp (nodup_middle.mp honce)).1 ?_
    rw [← filterMap_append]
    exact mem_binds.mpr ⟨d, b', hin'⟩
  refine ⟨h.toLives.same rfl rfl rfl (hfield _ fun _ _ => rfl) (hfield _ fun _ _ => rfl) fun y hy => h.calls y hy,
    h.toConnects.moves q c' n (.attached b)
      ⟨.inr hq, by simp, ?_, rfl, fun _ _ => rfl, .inl rfl, ?_, fun m hm => absurd hm (hlost m), fun b' => ?_,
        fun _ _ => Iff.rfl, ?_, fun p hp hpq => ?_, h.nodup, fun d b' r hr => ?_, fun d b' => ?_,
        (hsub.filterMap _).nodup h.once, ?_, h.carries⟩,
    h.toCounts.handles (m := ⟨c', b, .bind q⟩) (o := attachedTo (s.sockets b)) hf rfl ?_ rfl rfl rfl rfl rfl rfl rfl rfl
      rfl,
    ⟨h.bounds.pending, h.bounds.binding⟩⟩
  · exact (hq ▸ (update_eq_self q s.made).symm)
  · exact ⟨nofun, fun hc => absurd hc (hlost n)⟩
  · refine ⟨nofun, fun hc => ?_⟩
    rw [(h.found q c' n b' hq).mpr hc] at hst
    cases hst
  · refine ⟨nofun, fun hc => ?_⟩
    rw [(h.pending q).mpr hc] at hst
    cases hst
  · rw [(h.pending q).mpr (mem_map.mpr ⟨p, hp, hpq⟩)] at hst
    cases hst
  · rw [hf, mem_append, mem_append, mem_cons, or_iff_right (a := _ = _)]
    intro he
    simp only [Packet.mk.injEq, InprocCmd.bind.injEq] at he
    exact hr he.2.2
  · exact ⟨fun hc => absurd hc (hgone d b'), fun hc => by cases hc.2⟩
  · have howners := h.attached q
    rw [hst] at howners
    rw [howners]
    rfl
  · have hacks := h.acks b
    unfold SocketT.Balanced attachedTo at *
    split_ifs at hacks ⊢
    · rw [hacks]
      push_cast
      rfl
    · rw [hacks]
      rfl

end

end Inproc

end Zmq
