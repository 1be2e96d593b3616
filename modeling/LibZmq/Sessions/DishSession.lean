import LibZmq.Sessions.Groups

/-! A DISH session while the pipe is full at times, and while commands arrive between the frames of messages. -/

namespace Zmq

open List

inductive DishPart where
  | group | body
deriving DecidableEq

structure DishFrames where
  group : GroupMsg
  body : GroupMsg
  group_valid : group.hasMore = true ∧ group.data.length ≤ GroupMsg.maxLength
  body_valid : body.hasMore = false ∧ body.isCommand = false

namespace DishFrames

def frames (f : DishFrames) : List (DishPart × GroupMsg) := [(.group, f.group), (.body, f.body)]

/-- The message: a group is a string, which ends before the first zero. -/
def message (f : DishFrames) : GroupMsg := { f.body with group := f.group.data.takeWhile (· ≠ 0) }

end DishFrames

namespace DishSession

/-- Messages, with commands in between. A command has no other flag. -/
structure Carries (arrivals : List (Arrival DishPart)) (pairs : List DishFrames) : Prop where
  parts : Arrival.parts arrivals = pairs.flatMap DishFrames.frames
  foreign : ∀ a ∈ arrivals, a.part = none → a.msg.flags = Msg.command

/-- No body has to be offered twice, and none comes after a command. -/
structure Smooth (arrivals : List (Arrival DishPart)) : Prop where
  room : ∀ a ∈ arrivals, a.part = some .body → a.refusals = 0
  order : arrivals.Pairwise fun a b => a.part = none → b.part ≠ some .body

/-- No assertion fails, and the pipe gets each message once. -/
def Delivers (s : DishSession) (arrivals : List (Arrival DishPart)) (messages : List GroupMsg) : Prop :=
  ∃ rc s', push.receive s (arrivals.map Arrival.frame) = .ok (rc, s') ∧ s'.written = s.written ++ messages

variable {s : DishSession} {a : Arrival DishPart} {arrivals : List (Arrival DishPart)} {m g : GroupMsg} {n : ℕ}
  {messages : List GroupMsg}

theorem command_flags (h : m.flags = Msg.command) : m.isCommand = true ∧ m.hasMore = false := by
  constructor
  · unfold GroupMsg.isCommand
    rw [h]
    rfl
  · unfold Msg.hasMore
    rw [h]
    rfl

theorem offer_stray (hs : s.state = .group) (hm : m.hasMore = false) (n : ℕ) : push.offer n s m = .ok (.error .efault, s) := by
  refine Push.offer_at_once m (fun room => ?_) (by decide) n
  unfold push pushMsg
  rw [hs]
  exact if_pos (by rw [hm]; exact Bool.false_ne_true)

theorem offer_group (hs : s.state = .group) (hm : m.hasMore = true) (hlen : m.data.length ≤ GroupMsg.maxLength) (n : ℕ) :
    push.offer n s m = .ok (.ok, { s with groupMsg := some m, state := .body }) :=
  Push.offer_at_once _ (fun room => pushMsg_group hs hm hlen room) (by decide) n

theorem offer_command (hs : s.state = .body) (hg : s.groupMsg = some g) (hlen : g.data.length ≤ GroupMsg.maxLength)
    (hm : m.flags = Msg.command) (n : ℕ) : push.offer n s m = .ok (.ok, { s with groupMsg := none, state := .group }) := by
  obtain ⟨hcommand, hmore⟩ := command_flags hm
  refine Push.offer_at_once { m with group := g.data.takeWhile (· ≠ 0) } (fun room => ?_) (by decide) n
  refine (pushMsg_body hs hg hlen hmore room).trans ?_
  unfold forward
  rw [@SessionBase.pushMsg_command s.toSessionBase { m with group := g.data.takeWhile (· ≠ 0) } _ hcommand]
  rfl

theorem offer_again_fails (hs : s.state = .body) (hg : s.groupMsg = some g) (hlen : g.data.length ≤ GroupMsg.maxLength)
    (hm : m.hasMore = false ∧ m.isCommand = false) (n : ℕ) : push.offer (n + 1) s m = .error .assertion := by
  have hno : push s m false = .ok (.error .eagain, { m with group := g.data.takeWhile (· ≠ 0) }, { s with groupMsg := none }) := by
    refine (pushMsg_body hs hg hlen hm.1 false).trans ?_
    unfold forward
    rw [@SessionBase.pushMsg_full s.toSessionBase { m with group := g.data.takeWhile (· ≠ 0) } hm.2]
    rfl
  have hclosed : ∀ m room, pushMsg { s with groupMsg := none } m room = .error .assertion := fun m room => by
    unfold pushMsg
    rw [hs]
  rw [Push.offer_refused hno]
  cases n <;>
  · rw [Push.offer, push, hclosed]
    rfl

inductive Awaits : DishSession → List (DishPart × GroupMsg) → List GroupMsg → Prop
  | group {s : DishSession} (hs : s.state = .group) (pairs : List DishFrames) :
    Awaits s (pairs.flatMap DishFrames.frames) (pairs.map DishFrames.message)
  | body {s : DishSession} (hs : s.state = .body) (f : DishFrames) (hg : s.groupMsg = some f.group) (pairs : List DishFrames) :
    Awaits s ((.body, f.body) :: pairs.flatMap DishFrames.frames) (f.message :: pairs.map DishFrames.message)

theorem smooth_of_no_parts (h : Arrival.parts arrivals = []) : Smooth arrivals := by
  have hnone : ∀ a ∈ arrivals, a.part ≠ some .body := fun a ha hp => by
    have := Arrival.mem_parts ha hp
    rw [h] at this
    exact not_mem_nil this
  exact ⟨fun a ha hp => absurd hp (hnone a ha), pairwise_of_forall_mem_list fun a _ b hb _ => hnone b hb⟩

theorem not_smooth_command (ha : a.part = none) (h : ∃ m, (DishPart.body, m) ∈ Arrival.parts arrivals) : ¬ Smooth (a :: arrivals) := by
  intro hs
  obtain ⟨m, hm⟩ := h
  obtain ⟨b, hb, hp⟩ := Arrival.exists_of_mem_parts hm
  exact (pairwise_cons.mp hs.order).1 b hb ha hp

theorem smooth_cons (ha : a.part ≠ none) (hr : a.part = some .body → a.refusals = 0) : Smooth (a :: arrivals) ↔ Smooth arrivals := by
  constructor
  · exact fun h => ⟨fun b hb => h.room b (mem_cons_of_mem _ hb), (pairwise_cons.mp h.order).2⟩
  · exact fun h => ⟨forall_mem_cons.mpr ⟨hr, h.room⟩, pairwise_cons.mpr ⟨fun b _ hn => absurd hn ha, h.order⟩⟩

theorem delivers_cons {s' : DishSession} {m : GroupMsg} (part : Option DishPart) (arrivals : List (Arrival DishPart))
    (new ms : List GroupMsg) (h : push.offer n s m = .ok (.ok, s')) (hw : s'.written = s.written ++ new) :
    s.Delivers (⟨part, m, n⟩ :: arrivals) (new ++ ms) ↔ s'.Delivers arrivals ms := by
  unfold Delivers
  rw [map_cons, Arrival.frame, Push.receive_ok h, hw, append_assoc]

theorem not_delivers {part : Option DishPart} (h : push.offer n s m = .ok (.error .efault, s)) (hm : messages ≠ []) :
    ¬ s.Delivers (⟨part, m, n⟩ :: arrivals) messages := by
  rintro ⟨rc, s', hs', hw⟩
  rw [map_cons, Arrival.frame, Push.receive_error h] at hs'
  cases hs'
  exact hm (append_cancel_left (hw.symm.trans (append_nil _).symm))

theorem not_delivers_out_of_step {f : DishFrames} {rest : List (DishPart × GroupMsg)} (hs : s.state = .group)
    (h : Arrival.parts arrivals = (.body, f.body) :: rest) (hforeign : ∀ a ∈ arrivals, a.part = none → a.msg.flags = Msg.command)
    (hm : messages ≠ []) : ¬ s.Delivers arrivals messages := by
  cases arrivals with
  | nil => cases h
  | cons a arrivals =>
    obtain ⟨part, m, n⟩ := a
    have hmore : m.hasMore = false := by
      cases part with
      | none => exact (command_flags (hforeign _ mem_cons_self rfl)).2
      | some part =>
        cases (cons.inj (show (part, m) :: _ = _ from h)).1
        exact f.body_valid.1
    exact not_delivers (offer_stray hs hmore n) hm

theorem delivers_iff (h : Awaits s (Arrival.parts arrivals) messages)
    (hforeign : ∀ a ∈ arrivals, a.part = none → a.msg.flags = Msg.command) : s.Delivers arrivals messages ↔ Smooth arrivals := by
  generalize hparts : Arrival.parts arrivals = rest at h
  induction arrivals generalizing s messages rest with
  | nil =>
    refine iff_of_true ⟨.ok, s, rfl, ?_⟩ (smooth_of_no_parts rfl)
    cases h with
    | group hs pairs =>
      cases pairs with
      | nil => exact (append_nil _).symm
      | cons f pairs => cases hparts
    | body => cases hparts
  | cons a arrivals ih =>
    obtain ⟨hfirst, hothers⟩ := forall_mem_cons.mp hforeign
    obtain ⟨part, m, n⟩ := a
    cases part with
    | none =>
      have hm := hfirst rfl
      have hrest : Arrival.parts arrivals = rest := hparts
      cases h with
      | group hs pairs =>
        have hstray := offer_stray hs (command_flags hm).2 n
        cases pairs with
        | nil =>
          refine iff_of_true ⟨.error .efault, s, ?_, (append_nil _).symm⟩ (smooth_of_no_parts hparts)
          rw [map_cons, Arrival.frame, Push.receive_error hstray]
        | cons f pairs =>
          refine iff_of_false (not_delivers hstray (cons_ne_nil _ _)) (not_smooth_command rfl ⟨f.body, ?_⟩)
          rw [hrest]
          exact mem_cons_of_mem _ mem_cons_self
      | body hs f hg pairs =>
        have hcommand := offer_command hs hg f.group_valid.2 hm n
        have hstep := delivers_cons none arrivals [] (f.message :: pairs.map DishFrames.message) hcommand
          (append_nil _).symm
        rw [nil_append] at hstep
        rw [hstep]
        refine iff_of_false (not_delivers_out_of_step rfl hrest hothers (cons_ne_nil _ _))
          (not_smooth_command rfl ⟨f.body, ?_⟩)
        rw [hrest]
        exact mem_cons_self
    | some part =>
      have hrest : (part, m) :: Arrival.parts arrivals = rest := hparts
      cases h with
      | group hs pairs =>
        cases pairs with
        | nil => cases hrest
        | cons f pairs =>
          obtain ⟨hhead, htail⟩ := cons.inj hrest
          cases hhead
          have hgroup := offer_group hs f.group_valid.1 f.group_valid.2 n
          have hstep := delivers_cons (some .group) arrivals [] (f.message :: pairs.map DishFrames.message) hgroup
            (append_nil _).symm
          rw [nil_append] at hstep
          refine hstep.trans ((ih hothers _ htail (.body rfl f rfl pairs)).trans (smooth_cons ?_ ?_).symm)
          · exact Option.some_ne_none _
          · exact fun hp => by cases hp
      | body hs f hg pairs =>
        obtain ⟨hhead, htail⟩ := cons.inj hrest
        cases hhead
        cases n with
        | zero =>
          have hbody := Push.offer_zero (pushMsg_room hs hg f.group_valid.2 f.body_valid.1 f.body_valid.2)
          have hstep := delivers_cons (some .body) arrivals [f.message] (pairs.map DishFrames.message) hbody rfl
          refine hstep.trans ((ih hothers _ htail (.group rfl pairs)).trans (smooth_cons ?_ ?_).symm)
          · exact Option.some_ne_none _
          · exact fun _ => rfl
        | succ n =>
          refine iff_of_false ?_ fun hsmooth => absurd (hsmooth.room _ mem_cons_self rfl) (Nat.succ_ne_zero n)
          rintro ⟨rc, s', hs', -⟩
          rw [map_cons, Arrival.frame, Push.receive_crash (offer_again_fails hs hg f.group_valid.2 f.body_valid n)] at hs'
          cases hs'

/-- A session, new or reset after anything, delivers every message once, with its group, and fails no assertion, if and
only if no body has to be offered twice and none comes after a command. -/
theorem messages_delivered (s : DishSession) {arrivals : List (Arrival DishPart)} {pairs : List DishFrames}
    (h : Carries arrivals pairs) : s.reset.Delivers arrivals (pairs.map DishFrames.message) ↔ Smooth arrivals :=
  delivers_iff (h.parts ▸ .group rfl pairs) h.foreign

def shortMessage : DishFrames where
  group := ⟨⟨.vsm, Msg.more, [65]⟩, []⟩
  body := ⟨⟨.vsm, 0, [7]⟩, []⟩
  group_valid := ⟨rfl, by decide⟩
  body_valid := ⟨rfl, rfl⟩

/-- A frame with more than fits into a group has been rejected before. -/
theorem messages_delivered_short : let s := new []
    let arrivals : List (Arrival DishPart) := [⟨some .group, shortMessage.group, 1⟩, ⟨some .body, shortMessage.body, 0⟩]
    push.offer 0 s ⟨⟨.vsm, Msg.more, replicate 16 65⟩, []⟩ = .ok (.error .efault, s) ∧
      (s.reset.Delivers arrivals [shortMessage.message] ↔ Smooth arrivals) ∧ Smooth arrivals :=
  ⟨by decide +kernel, messages_delivered (new []) (show Carries _ [shortMessage] from ⟨rfl, by decide⟩), by decide, by decide⟩

/-- A body that is offered twice fails an assertion, and one after a heartbeat is lost. -/
theorem message_lost : push.receive (new []) [(shortMessage.group, 0), (shortMessage.body, 1)] = .error .assertion ∧
      push.receive (new []) [(shortMessage.group, 0), (⟨⟨.vsm, Msg.command, 4 :: ascii ['P', 'O', 'N', 'G']⟩, []⟩, 0),
        (shortMessage.body, 0)] = .ok (.error .efault, new []) := by
  decide +kernel

end DishSession

end Zmq
