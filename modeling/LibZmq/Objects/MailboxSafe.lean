import LibZmq.Run
import LibZmq.Ypipe.Refine

/-! `mailbox_safe_t`: any number of threads send and receive commands. They share a lock, which `recv` lets go of while it
waits. -/

namespace Zmq

open List

universe u v w

/-- `S` is the type of the threads and `G` that of the signalers. -/
structure MailboxSafe (S : Type v) (G : Type w) (T : Type u) where
  cpipe : YPipe T
  signalers : List G
  sync : Option S
  /-- the threads in `cond_var.wait`, and whether a broadcast has come since -/
  waiting : S → Option Bool
  sent : List T
  /-- what calls of `recv` have returned, and to whom -/
  received : List (S × T)
  /-- how often a signaler has been signalled since a read last found the pipe empty -/
  signals : G → ℕ
  /-- how many of the signalers were there at the last flush that found the reader end of the pipe asleep -/
  early : ℕ

namespace MailboxSafe

variable {S : Type v} {G : Type w} {T : Type u}

inductive Op (S : Type v) (G : Type w) (T : Type u) where
  | lock (t : S)
  | unlock (t : S)
  | send (t : S) (cmd : T)
  | recv (t : S)
  /-- `cond_var.wait` returns, -1 when it has timed out or has been interrupted -/
  | wake (t : S) (rc : ℤ)
  | addSignaler (t : S) (signaler : G)
  | removeSignaler (t : S) (signaler : G)
  | clearSignalers (t : S)

variable [Inhabited T]

def new : MailboxSafe S G T := ⟨YPipe.new.read.2, [], none, fun _ => none, [], [], fun _ => 0, 0⟩

/-- Whatever a thread does it does with the lock, and a thread that waits does nothing until it has the lock again. -/
def Ready (s : MailboxSafe S G T) : Op S G T → Prop
  | .lock t => s.sync = none ∧ s.waiting t = none
  | .wake t rc => s.sync = none ∧ s.waiting t ≠ none ∧ (rc = 0 ∨ rc = -1)
  | .unlock t | .send t _ | .recv t | .addSignaler t _ | .removeSignaler t _ | .clearSignalers t => s.sync = some t

instance [DecidableEq S] (s : MailboxSafe S G T) (op : Op S G T) : Decidable (s.Ready op) := by
  cases op <;> unfold Ready <;> infer_instance

/-- `cond_var.broadcast` and the loop over the signalers -/
def notify [DecidableEq G] (s : MailboxSafe S G T) : MailboxSafe S G T :=
  { s with
    waiting := fun t => (s.waiting t).map fun _ => true
    signals := fun g => s.signals g + s.signalers.count g
    early := s.signalers.length }

def send [DecidableEq G] (s : MailboxSafe S G T) (cmd : T) : MailboxSafe S G T :=
  let (ok, cpipe) := (s.cpipe.write cmd false).flush
  let s := { s with cpipe := cpipe, sent := s.sent ++ [cmd] }
  if ok then s else s.notify

def nothing (s : MailboxSafe S G T) (cpipe : YPipe T) : MailboxSafe S G T :=
  { s with cpipe := cpipe, signals := fun _ => 0 }

def got (s : MailboxSafe S G T) (cpipe : YPipe T) (t : S) (cmd : T) : MailboxSafe S G T :=
  { s with cpipe := cpipe, received := s.received ++ [(t, cmd)] }

/-- `recv` up to `cond_var.wait` -/
def recv [DecidableEq S] (s : MailboxSafe S G T) (t : S) : MailboxSafe S G T :=
  match s.cpipe.read with
  | (some cmd, cpipe) => s.got cpipe t cmd
  | (none, cpipe) => { s.nothing cpipe with sync := none, waiting := Function.update s.waiting t (some false) }

/-- The rest of `recv`: another thread may have fetched the command. -/
def wake [DecidableEq S] (s : MailboxSafe S G T) (t : S) (rc : ℤ) : MailboxSafe S G T :=
  let s := { s with sync := some t, waiting := Function.update s.waiting t none }
  if rc = -1 then s
  else
    match s.cpipe.read with
    | (some cmd, cpipe) => s.got cpipe t cmd
    | (none, cpipe) => s.nothing cpipe

def removeSignaler [DecidableEq G] (s : MailboxSafe S G T) (signaler : G) : MailboxSafe S G T :=
  { s with
    signalers := s.signalers.erase signaler
    early := if s.signalers.idxOf signaler < s.early then s.early - 1 else s.early }

def run [DecidableEq S] [DecidableEq G] (s : MailboxSafe S G T) : Op S G T → Except Empty (MailboxSafe S G T)
  | .lock t => .ok { s with sync := some t }
  | .unlock _ => .ok { s with sync := none }
  | .send _ cmd => .ok (s.send cmd)
  | .recv t => .ok (s.recv t)
  | .wake t rc => .ok (s.wake t rc)
  | .addSignaler _ signaler => .ok { s with signalers := s.signalers ++ [signaler] }
  | .removeSignaler _ signaler => .ok (s.removeSignaler signaler)
  | .clearSignalers _ => .ok { s with signalers := [], early := 0 }

def Start (s : MailboxSafe S G T) : Prop := s = new

abbrev Step [DecidableEq S] [DecidableEq G] : MailboxSafe S G T → Op S G T → MailboxSafe S G T → Prop := Does Ready run

omit [Inhabited T]

/-- The commands that have been flushed and not read. -/
def unread (s : MailboxSafe S G T) : List T := s.cpipe.view.ready

structure Sound (s : MailboxSafe S G T) : Prop where
  wf : s.cpipe.Wf
  flushed : s.cpipe.view.complete = [] ∧ s.cpipe.view.unfinished = []
  log : s.sent = s.received.map Prod.snd ++ s.unread
  early : s.early ≤ s.signalers.length
  /-- a thread that is awake has not gone to wait since -/
  awake : s.cpipe.view.asleep = false → (∀ t, s.waiting t ≠ some false) ∧ ∀ g ∈ s.signalers.take s.early, 0 < s.signals g

variable {s s' : MailboxSafe S G T} {t : S} {cmd : T} {g : G} {rest : List T} {cpipe : YPipe T}

/-! The pipe, as those see it who have the lock. -/

theorem Sound.published [Inhabited T] (h : s.Sound) (cmd : T) {ok : Bool} (hx : (s.cpipe.write cmd false).flush = (ok, cpipe)) :
    cpipe.Wf ∧ cpipe.view = ⟨s.unread ++ [cmd], [], [], false⟩ ∧ ok = !s.cpipe.view.asleep := by
  have hwf := YPipe.write_wf h.wf cmd false
  have hview := YPipe.flush_view hwf
  have hwritten : (s.cpipe.write cmd false).view = { s.cpipe.view with complete := [cmd], unfinished := [] } := by
    rw [YPipe.write_view h.wf, Staged.write, h.flushed.1, h.flushed.2]
    rfl
  rw [hwritten, hx] at hview
  obtain ⟨hok, hcpipe⟩ := Prod.mk.inj hview
  refine ⟨?_, hcpipe, hok⟩
  have hwf' := YPipe.flush_wf hwf
  rwa [hx] at hwf'

theorem Sound.fetched (h : s.Sound) [Inhabited T] (hx : s.cpipe.read = (some cmd, cpipe)) :
    cpipe.Wf ∧ s.unread = cmd :: cpipe.view.ready ∧ s.cpipe.view.asleep = cpipe.view.asleep ∧
      cpipe.view.complete = [] ∧ cpipe.view.unfinished = [] := by
  have hview := YPipe.read_view h.wf
  have hwf := YPipe.read_wf h.wf
  rw [hx] at hview hwf
  unfold unread
  cases hr : s.cpipe.view.ready with
  | nil =>
    rw [Staged.read_nil hr] at hview
    exact nomatch (Prod.mk.inj hview).1
  | cons v rest =>
    rw [Staged.read_cons hr] at hview
    obtain ⟨hv, hcpipe⟩ := Prod.mk.inj hview
    cases hv
    rw [hcpipe]
    exact ⟨hwf, rfl, rfl, h.flushed⟩

theorem Sound.none_left (h : s.Sound) [Inhabited T] (hx : s.cpipe.read = (none, cpipe)) :
    cpipe.Wf ∧ s.unread = [] ∧ cpipe.view = ⟨[], [], [], true⟩ := by
  have hview := YPipe.read_view h.wf
  have hwf := YPipe.read_wf h.wf
  rw [hx] at hview hwf
  unfold unread
  cases hr : s.cpipe.view.ready with
  | nil =>
    rw [Staged.read_nil hr] at hview
    have hcpipe : cpipe.view = ⟨s.cpipe.view.ready, s.cpipe.view.complete, s.cpipe.view.unfinished, true⟩ :=
      (Prod.mk.inj hview).2
    refine ⟨hwf, rfl, ?_⟩
    rw [hcpipe, hr, h.flushed.1, h.flushed.2]
  | cons v rest =>
    rw [Staged.read_cons hr] at hview
    exact nomatch (Prod.mk.inj hview).1

theorem Sound.same (h : s.Sound) (hp : s'.cpipe = s.cpipe) (hsent : s'.sent = s.sent) (hreceived : s'.received = s.received)
    (hearly : s'.early ≤ s'.signalers.length) (hsignals : s'.signals = s.signals)
    (hg : ∀ g ∈ s'.signalers.take s'.early, g ∈ s.signalers.take s.early)
    (hw : ∀ t, s'.waiting t = some false → s.waiting t = some false) : s'.Sound where
  wf := hp ▸ h.wf
  flushed := hp ▸ h.flushed
  log := by
    unfold unread
    rw [hp, hsent, hreceived]
    exact h.log
  early := hearly
  awake ha := by
    rw [hp] at ha
    obtain ⟨hwaiting, hsignalled⟩ := h.awake ha
    rw [hsignals]
    exact ⟨fun t ht => hwaiting t (hw t ht), fun g hg' => hsignalled g (hg g hg')⟩

section

variable [Inhabited T] {cpipe : YPipe T}

theorem Sound.send [DecidableEq G] (h : s.Sound) (cmd : T) : (s.send cmd).Sound := by
  obtain ⟨ok, cpipe, hx⟩ : ∃ ok cpipe, (s.cpipe.write cmd false).flush = (ok, cpipe) := ⟨_, _, rfl⟩
  obtain ⟨hwf, hview, hok⟩ := h.published cmd hx
  have hflushed : cpipe.view.complete = [] ∧ cpipe.view.unfinished = [] := by
    rw [hview]
    exact ⟨rfl, rfl⟩
  have hlog : s.sent ++ [cmd] = s.received.map Prod.snd ++ cpipe.view.ready := by
    rw [hview, h.log, append_assoc]
  unfold MailboxSafe.send
  rw [hx]
  cases ok with
  | true =>
    have hasleep : s.cpipe.view.asleep = false := by simpa using hok
    exact ⟨hwf, hflushed, hlog, h.early, fun _ => h.awake hasleep⟩
  | false =>
    refine ⟨hwf, hflushed, hlog, Nat.le_refl _, fun _ => ⟨fun t ht => ?_, fun g hg => ?_⟩⟩
    · obtain ⟨b, -, hb⟩ := Option.map_eq_some_iff.mp ht
      exact nomatch hb
    · have hcount := count_pos_iff.mpr (mem_of_mem_take hg)
      exact Nat.lt_of_lt_of_le hcount (Nat.le_add_left _ _)

theorem Sound.got (h : s.Sound) (hx : s.cpipe.read = (some cmd, cpipe)) (t : S) : (s.got cpipe t cmd).Sound := by
  obtain ⟨hwf, hunread, hasleep, hflushed⟩ := h.fetched hx
  refine ⟨hwf, hflushed, ?_, h.early, fun ha => h.awake (hasleep.trans ha)⟩
  change s.sent = (s.received ++ [(t, cmd)]).map Prod.snd ++ cpipe.view.ready
  rw [h.log, hunread, map_append, append_assoc]
  rfl

theorem Sound.nothing (h : s.Sound) (hx : s.cpipe.read = (none, cpipe)) (sync : Option S)
    (waiting : S → Option Bool) : Sound { s.nothing cpipe with sync := sync, waiting := waiting } := by
  obtain ⟨hwf, hunread, hview⟩ := h.none_left hx
  refine ⟨hwf, ?_, ?_, h.early, fun ha => ?_⟩
  · change cpipe.view.complete = [] ∧ cpipe.view.unfinished = []
    rw [hview]
    exact ⟨rfl, rfl⟩
  · change s.sent = s.received.map Prod.snd ++ cpipe.view.ready
    rw [hview, h.log, hunread]
  · have ha : cpipe.view.asleep = false := ha
    rw [hview] at ha
    exact nomatch ha

theorem Sound.recv [DecidableEq S] (h : s.Sound) (t : S) : (s.recv t).Sound := by
  unfold MailboxSafe.recv
  obtain ⟨o, cpipe, hx⟩ : ∃ o cpipe, s.cpipe.read = (o, cpipe) := ⟨_, _, rfl⟩
  rw [hx]
  cases o with
  | some cmd => exact h.got hx t
  | none => exact h.nothing hx none _

omit [Inhabited T] in
theorem Sound.woken [DecidableEq S] (h : s.Sound) (t : S) :
    Sound { s with sync := some t, waiting := Function.update s.waiting t none } := by
  refine h.same rfl rfl rfl h.early rfl (fun _ hg => hg) fun x hx => ?_
  by_cases hxt : x = t
  · rw [hxt] at hx
    exact nomatch (Function.update_self t none s.waiting).symm.trans hx
  · exact (Function.update_of_ne hxt none s.waiting).symm.trans hx

theorem Sound.wake [DecidableEq S] (h : s.Sound) (t : S) (rc : ℤ) : (s.wake t rc).Sound := by
  have hwoken := h.woken t
  unfold MailboxSafe.wake
  dsimp only
  split_ifs
  · exact hwoken
  · obtain ⟨o, cpipe, hx⟩ : ∃ o cpipe, s.cpipe.read = (o, cpipe) := ⟨_, _, rfl⟩
    rw [hx]
    cases o with
    | some cmd => exact hwoken.got hx t
    | none => exact hwoken.nothing hx _ _

theorem mem_take_erase [DecidableEq G] {l : List G} {n : ℕ} {x : G}
    (hx : x ∈ (l.erase g).take (if l.idxOf g < n then n - 1 else n)) : x ∈ l.take n := by
  induction l generalizing n with
  | nil => simp at hx
  | cons y l ih =>
    cases n with
    | zero => simp at hx
    | succ n =>
      by_cases hy : y = g
      · subst hy
        rw [erase_cons_head, idxOf_cons_self] at hx
        exact mem_cons_of_mem _ hx
      · have hne : (y == g) = false := beq_eq_false_iff_ne.mpr hy
        rw [erase_cons_tail (by simp [hne]), idxOf_cons_ne _ hy] at hx
        by_cases hlt : l.idxOf g < n
        · obtain ⟨k, rfl⟩ : ∃ k, n = k + 1 := ⟨n - 1, by omega⟩
          rw [if_pos (Nat.succ_lt_succ hlt), ] at hx
          rcases mem_cons.mp hx with rfl | hx
          · exact mem_cons_self
          · exact mem_cons_of_mem _ (ih (by rw [if_pos hlt]; exact hx))
        · rw [if_neg (fun hc => hlt (Nat.lt_of_succ_lt_succ hc))] at hx
          rcases mem_cons.mp hx with rfl | hx
          · exact mem_cons_self
          · exact mem_cons_of_mem _ (ih (by rw [if_neg hlt]; exact hx))

omit [Inhabited T] in
theorem Sound.removeSignaler [DecidableEq G] (h : s.Sound) (g : G) : (s.removeSignaler g).Sound := by
  refine h.same rfl rfl rfl ?_ rfl (fun x hx => mem_take_erase hx) fun _ hx => hx
  have hearly := h.early
  change (if s.signalers.idxOf g < s.early then s.early - 1 else s.early) ≤ (s.signalers.erase g).length
  by_cases hg : g ∈ s.signalers
  · have hlength := length_erase_add_one hg
    have hlt : s.signalers.idxOf g < s.signalers.length := idxOf_lt_length_iff.mpr hg
    split_ifs <;> omega
  · rw [erase_of_not_mem hg]
    split_ifs <;> omega

theorem Sound.run [DecidableEq S] [DecidableEq G] {op : Op S G T} (h : s.Sound) : ∃ s', s.run op = .ok s' ∧ s'.Sound := by
  cases op with
  | lock t | unlock t =>
    exact ⟨_, rfl, h.same rfl rfl rfl h.early rfl (fun _ hg => hg) fun _ ht => ht⟩
  | send t cmd => exact ⟨_, rfl, h.send cmd⟩
  | recv t => exact ⟨_, rfl, h.recv t⟩
  | wake t rc => exact ⟨_, rfl, h.wake t rc⟩
  | addSignaler t g =>
    have hearly := h.early
    refine ⟨_, rfl, h.same rfl rfl rfl ?_ rfl (fun x hx => ?_) fun _ ht => ht⟩
    · change s.early ≤ (s.signalers ++ [g]).length
      rw [length_append]
      omega
    · rwa [take_append_of_le_length hearly] at hx
  | removeSignaler t g => exact ⟨_, rfl, h.removeSignaler g⟩
  | clearSignalers t =>
    exact ⟨_, rfl, h.same rfl rfl rfl (Nat.le_refl 0) rfl (nofun) fun _ ht => ht⟩

theorem new_sound : (new : MailboxSafe S G T).Sound := by
  have hx : (YPipe.new : YPipe T).read.1 = none ∧ (YPipe.new : YPipe T).read.2.view = ⟨[], [], [], true⟩ := by
    have hview := YPipe.read_view (YPipe.new_wf : (YPipe.new : YPipe T).Wf)
    exact Prod.mk.inj hview
  refine ⟨YPipe.read_wf YPipe.new_wf, ?_, ?_, Nat.le_refl 0, fun ha => ?_⟩
  · change (YPipe.new : YPipe T).read.2.view.complete = [] ∧ (YPipe.new : YPipe T).read.2.view.unfinished = []
    rw [hx.2]
    exact ⟨rfl, rfl⟩
  · change [] = [] ++ (YPipe.new : YPipe T).read.2.view.ready
    rfl
  · have ha : (YPipe.new : YPipe T).read.2.view.asleep = false := ha
    exact nomatch ha

theorem run_sound [DecidableEq S] [DecidableEq G] {ops : List (Op S G T)} (h : Run Start Step ops s) : s.Sound :=
  h.invariant Sound (fun _ h0 => h0 ▸ new_sound) fun _ _ _ hs ⟨_, hx⟩ => by
    obtain ⟨s', hx', h'⟩ := hs.run
    cases hx.symm.trans hx'
    exact h'

omit [Inhabited T] in
theorem Sound.notified (h : s.Sound) (hu : s.unread ≠ []) : (∀ t, s.waiting t ≠ some false) ∧
    ∀ g ∈ s.signalers.take s.early, 0 < s.signals g := by
  refine h.awake ?_
  cases ha : s.cpipe.view.asleep with
  | false => rfl
  | true => exact absurd (YPipe.view_wf h.wf ha) hu

theorem Sound.returns [DecidableEq S] (h : s.Sound) (hu : s.unread = cmd :: rest) :
    (s.recv t).received = s.received ++ [(t, cmd)] ∧ (s.wake t 0).received = s.received ++ [(t, cmd)] := by
  obtain ⟨o, cpipe, hx⟩ : ∃ o cpipe, s.cpipe.read = (o, cpipe) := ⟨_, _, rfl⟩
  unfold MailboxSafe.recv MailboxSafe.wake
  cases o with
  | none => exact nomatch (h.none_left hx).2.1.symm.trans hu
  | some cmd' =>
    obtain ⟨rfl, -⟩ := cons.inj ((h.fetched hx).2.1.symm.trans hu)
    dsimp only
    rw [hx]
    exact ⟨rfl, rfl⟩

/-- Commands are received once and in the order in which they were sent. While there is one, every thread that waits has
been notified, and every signaler that was there when the pipe was asleep has been signalled. -/
theorem wakes_receivers [DecidableEq S] [DecidableEq G] {ops : List (Op S G T)} (h : Run Start Step ops s) :
    s.sent = s.received.map Prod.snd ++ s.unread ∧ (∀ t cmd rest, s.unread = cmd :: rest →
      (s.recv t).received = s.received ++ [(t, cmd)] ∧ (s.wake t 0).received = s.received ++ [(t, cmd)]) ∧
    (s.unread ≠ [] → (∀ t, s.waiting t ≠ some false) ∧ ∀ g ∈ s.signalers.take s.early, 0 < s.signals g) := by
  have hs := run_sound h
  exact ⟨hs.log, fun t cmd rest hu => hs.returns hu, hs.notified⟩

end

/-- Three threads wait and a fourth one sends two commands; one wait times out. -/
def threeWait : List (Op ℕ ℕ ℕ) :=
  [.lock 0, .recv 0, .lock 1, .recv 1, .lock 2, .recv 2, .lock 3, .addSignaler 3 7, .send 3 5, .send 3 6, .unlock 3, .wake 0 (-1),
    .addSignaler 0 8, .unlock 0, .wake 1 0, .unlock 1]

theorem wakes_receivers_three : ∃ s : MailboxSafe ℕ ℕ ℕ, Run Start Step threeWait s ∧ s.received = [(1, 5)] ∧
    s.waiting 2 = some true ∧ s.sent = [5] ++ s.unread ∧ s.unread ≠ [] ∧ 0 < s.signals 7 := by
  refine exists_run_free (P := fun s => s.received = [(1, 5)] ∧ s.sent = [5, 6] ∧ s.waiting 2 = some true ∧
    s.signalers = [7, 8] ∧ s.early = 1) (rfl : Start new) (by decide)
    fun s hs ⟨hreceived, hsent, hwaiting, hsignalers, hearly⟩ => ?_
  obtain ⟨hlog, -, hnotified⟩ := wakes_receivers hs
  rw [hreceived] at hlog
  have hunread : s.unread ≠ [] := fun hnil => by
    rw [hnil, hsent] at hlog
    exact absurd hlog (by decide)
  refine ⟨hreceived, hwaiting, hlog, hunread, (hnotified hunread).2 7 ?_⟩
  rw [hsignalers, hearly]
  exact mem_cons_self

/-- A signaler that is registered when a command has been flushed is not signalled. -/
theorem late_signaler : ¬ ∀ (ops : List (Op ℕ ℕ ℕ)) (s : MailboxSafe ℕ ℕ ℕ), Run Start Step ops s → s.unread ≠ [] →
    (∀ t, s.waiting t ≠ some false) ∧ ∀ g ∈ s.signalers, 0 < s.signals g := by
  intro hall
  obtain ⟨s, hs, hx⟩ : ∃ s : MailboxSafe ℕ ℕ ℕ, Run Start (Guarded free Step) [.lock 0, .send 0 5, .addSignaler 0 7] s ∧
      (s.unread, s.signalers, s.signals 7) = ([5], [7], 0) := by
    refine run_of_play (rfl : Start new) ?_
    decide
  obtain ⟨hunread, hx⟩ := Prod.mk.inj hx
  obtain ⟨hsignalers, hsignals⟩ := Prod.mk.inj hx
  have hpos := (hall _ s hs.unguarded (by rw [hunread]; exact cons_ne_nil _ _)).2 7 (by simp [hsignalers])
  rw [hsignals] at hpos
  exact Nat.lt_irrefl 0 hpos

end MailboxSafe

end Zmq
