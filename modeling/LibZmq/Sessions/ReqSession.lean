import LibZmq.Sessions.Session

/-! `req_session_t`, which lets nothing but the frames of replies through. -/

namespace Zmq

open List Except

inductive ReqSessionState where
  | bottom | requestId | body
deriving DecidableEq

structure ReqSession extends SessionBase where
  state : ReqSessionState
deriving DecidableEq

namespace ReqSession

def new : ReqSession := ⟨.new [], .bottom⟩

def forward (s : ReqSession) (m : GroupMsg) (room : Bool) : PushRc × GroupMsg × ReqSession :=
  let (rc, m, base) := s.toSessionBase.pushMsg m room
  (rc, m, { s with toSessionBase := base })

/-- The whole byte of flags is compared, and the state changes before the message is written. -/
def pushMsg (s : ReqSession) (m : GroupMsg) (room : Bool) : PushRc × GroupMsg × ReqSession :=
  match s.state with
  | .bottom =>
    if m.flags = Msg.more ∧ m.data.length = 4 then forward { s with state := .requestId } m room
    else if m.flags = Msg.more ∧ m.data.length = 0 then forward { s with state := .body } m room
    else (.error .efault, m, s)
  | .requestId =>
    if m.flags = Msg.more ∧ m.data.length = 0 then forward { s with state := .body } m room
    else (.error .efault, m, s)
  | .body =>
    if m.flags = Msg.more then forward s m room
    else if m.flags = 0 then forward { s with state := .bottom } m room
    else (.error .efault, m, s)

def reset (s : ReqSession) : ReqSession := { s with state := .bottom }

def push : Push ReqSession := fun s m room => .ok (s.pushMsg m room)

end ReqSession

inductive ReplyPart where
  | requestId | delimiter | inner | last
deriving DecidableEq

/-- A reply to a request: the id is there if requests are correlated. -/
structure ReplyFrames where
  requestId : Option GroupMsg
  delimiter : GroupMsg
  inner : List GroupMsg
  last : GroupMsg
  requestId_valid : ∀ m ∈ requestId, m.flags = Msg.more ∧ m.data.length = 4
  delimiter_valid : delimiter.flags = Msg.more ∧ delimiter.data.length = 0
  inner_valid : ∀ m ∈ inner, m.flags = Msg.more
  last_valid : last.flags = 0

namespace ReplyFrames

/-- What follows the delimiter. -/
def bodies (inner : List GroupMsg) (last : GroupMsg) : List (ReplyPart × GroupMsg) :=
  inner.map (ReplyPart.inner, ·) ++ [(.last, last)]

def frames (r : ReplyFrames) : List (ReplyPart × GroupMsg) :=
  r.requestId.toList.map (ReplyPart.requestId, ·) ++ (.delimiter, r.delimiter) :: bodies r.inner r.last

end ReplyFrames

namespace Arrival

def isForeign (a : Arrival ReplyPart) : Prop := a.part = none → a.msg.isCommand = true ∨ a.msg.isCredential = true

/-- The frame is part of a reply, and there is room for it if it is the id of a request or the last frame. -/
def Smooth (a : Arrival ReplyPart) : Prop :=
  match a.part with
  | none => False
  | some .requestId | some .last => a.refusals = 0
  | some .delimiter | some .inner => True

/-- A stream of replies, with commands and credentials in between. -/
structure Carries (arrivals : List (Arrival ReplyPart)) (replies : List ReplyFrames) : Prop where
  parts : parts arrivals = replies.flatMap ReplyFrames.frames
  foreign : ∀ a ∈ arrivals, a.isForeign

end Arrival

namespace ReqSession

variable {s : ReqSession} {m : GroupMsg} {part : ReplyPart} {rest : List (ReplyPart × GroupMsg)} {n : ℕ} {st' : ReqSessionState}

def Awaits : ReqSessionState → List (ReplyPart × GroupMsg) → Prop
  | .bottom, rest => ∃ replies : List ReplyFrames, rest = replies.flatMap ReplyFrames.frames
  | .requestId, rest => ∃ (r : ReplyFrames) (replies : List ReplyFrames),
      rest = (.delimiter, r.delimiter) :: ReplyFrames.bodies r.inner r.last ++ replies.flatMap ReplyFrames.frames
  | .body, rest => ∃ (inner : List GroupMsg) (last : GroupMsg) (replies : List ReplyFrames),
      (∀ m ∈ inner, m.flags = Msg.more) ∧ last.flags = 0 ∧
      rest = ReplyFrames.bodies inner last ++ replies.flatMap ReplyFrames.frames

theorem not_command_of_more (h : m.flags = Msg.more) : m.isCommand = false := by
  unfold GroupMsg.isCommand
  rw [h]
  rfl

theorem not_command_of_zero (h : m.flags = 0) : m.isCommand = false := by
  unfold GroupMsg.isCommand
  rw [h]
  rfl

theorem foreign_flags (h : m.isCommand = true ∨ m.isCredential = true) : m.flags ≠ Msg.more ∧ m.flags ≠ 0 := by
  constructor <;> intro hf <;> unfold GroupMsg.isCommand Msg.isCredential at h <;> rw [hf] at h <;> revert h <;> decide

theorem offer_foreign (h : m.isCommand = true ∨ m.isCredential = true) (s : ReqSession) (n : ℕ) :
    push.offer n s m = .ok (.error .efault, s) := by
  obtain ⟨hmore, hzero⟩ := foreign_flags h
  refine Push.offer_at_once m (fun room => congrArg ok ?_) (by decide) n
  unfold pushMsg
  cases s.state <;> simp [hmore, hzero]

inductive Accepts (m : GroupMsg) : ReqSessionState → ReplyPart → ReqSessionState → Prop
  | requestId (hm : m.flags = Msg.more) (hlen : m.data.length = 4) : Accepts m .bottom .requestId .requestId
  | first (hm : m.flags = Msg.more) (hlen : m.data.length = 0) : Accepts m .bottom .delimiter .body
  | delimiter (hm : m.flags = Msg.more) (hlen : m.data.length = 0) : Accepts m .requestId .delimiter .body
  | inner (hm : m.flags = Msg.more) : Accepts m .body .inner .body
  | last (hm : m.flags = 0) : Accepts m .body .last .bottom

theorem awaits_cons {st : ReqSessionState} (h : Awaits st ((part, m) :: rest)) :
    ∃ st', Accepts m st part st' ∧ Awaits st' rest := by
  cases st with
  | bottom =>
    obtain ⟨replies, hrest⟩ := h
    cases replies with
    | nil => cases hrest
    | cons r replies =>
      rw [flatMap_cons, ReplyFrames.frames] at hrest
      cases hid : r.requestId with
      | none =>
        rw [hid] at hrest
        obtain ⟨hhead, rfl⟩ := cons.inj hrest
        cases hhead
        exact ⟨_, .first r.delimiter_valid.1 r.delimiter_valid.2, r.inner, r.last, replies, r.inner_valid, r.last_valid, rfl⟩
      | some id =>
        rw [hid] at hrest
        obtain ⟨hhead, rfl⟩ := cons.inj hrest
        cases hhead
        obtain ⟨hm, hlen⟩ := r.requestId_valid _ hid
        exact ⟨_, .requestId hm hlen, r, replies, rfl⟩
  | requestId =>
    obtain ⟨r, replies, hrest⟩ := h
    obtain ⟨hhead, rfl⟩ := cons.inj hrest
    cases hhead
    exact ⟨_, .delimiter r.delimiter_valid.1 r.delimiter_valid.2, r.inner, r.last, replies, r.inner_valid, r.last_valid, rfl⟩
  | body =>
    obtain ⟨inner, last, replies, hinner, hlast, hrest⟩ := h
    cases inner with
    | nil =>
      obtain ⟨hhead, rfl⟩ := cons.inj hrest
      cases hhead
      exact ⟨_, .last hlast, replies, rfl⟩
    | cons m' inner =>
      obtain ⟨hhead, rfl⟩ := cons.inj hrest
      cases hhead
      exact ⟨_, .inner (hinner _ mem_cons_self), inner, last, replies, fun m hm => hinner m (mem_cons_of_mem _ hm), hlast, rfl⟩

theorem pushMsg_accepts (h : Accepts m s.state part st') (room : Bool) :
    s.pushMsg m room = forward { s with state := st' } m room ∧ m.isCommand = false := by
  obtain ⟨base, state⟩ := s
  cases h with
  | requestId hm hlen => exact ⟨by simp [pushMsg, hm, hlen], not_command_of_more hm⟩
  | first hm hlen => exact ⟨by simp [pushMsg, hm, hlen], not_command_of_more hm⟩
  | delimiter hm hlen => exact ⟨by simp [pushMsg, hm, hlen], not_command_of_more hm⟩
  | inner hm => exact ⟨by simp [pushMsg, hm], not_command_of_more hm⟩
  | last hm => exact ⟨by simp [pushMsg, hm, Msg.more], not_command_of_zero hm⟩

theorem forward_room (h : m.isCommand = false) : s.forward m true = (.ok, .init, { s with written := s.written ++ [m] }) := by
  unfold forward
  rw [SessionBase.pushMsg_room h]

theorem forward_full (h : m.isCommand = false) : s.forward m false = (.error .eagain, m, s) := by
  unfold forward
  rw [SessionBase.pushMsg_full h]

theorem offer_body (hs : s.state = .body) (hm : m.flags = Msg.more) (n : ℕ) :
    push.offer n s m = .ok (.ok, { s with written := s.written ++ [m] }) := by
  obtain ⟨base, state⟩ := s
  obtain rfl : state = .body := hs
  have hpush := pushMsg_accepts (s := ⟨base, .body⟩) (.inner hm)
  refine Push.offer_again .init (congrArg ok ?_) (congrArg ok ?_) n
  · rw [(hpush false).1, forward_full (hpush false).2]
  · rw [(hpush true).1, forward_room (hpush true).2]

theorem offer_accepts (h : Accepts m s.state part st') (hn : n = 0 ∨ part = .delimiter ∨ part = .inner) :
    push.offer n s m = .ok (.ok, { s with state := st', written := s.written ++ [m] }) := by
  obtain ⟨hyes, hcommand⟩ := pushMsg_accepts h true
  obtain ⟨hno, -⟩ := pushMsg_accepts h false
  rw [forward_room hcommand] at hyes
  rw [forward_full hcommand] at hno
  obtain ⟨base, state⟩ := s
  cases n with
  | zero => exact Push.offer_zero (congrArg ok hyes)
  | succ n =>
    rw [Push.offer_refused (congrArg ok hno)]
    -- the frame is offered again in the state that it has led to
    cases h with
    | requestId hm => rcases hn with hn | hn | hn <;> cases hn
    | first hm => exact offer_body rfl hm n
    | delimiter hm => exact offer_body rfl hm n
    | inner hm => exact offer_body rfl hm n
    | last hm => rcases hn with hn | hn | hn <;> cases hn

theorem offer_again_fails (h : Accepts m s.state part st') (hp : part = .requestId ∨ part = .last)
    (n : ℕ) : push.offer (n + 1) s m = .ok (.error .efault, { s with state := st' }) := by
  obtain ⟨hno, hcommand⟩ := pushMsg_accepts h false
  rw [forward_full hcommand] at hno
  rw [Push.offer_refused (congrArg ok hno)]
  refine Push.offer_at_once m (fun room => congrArg ok ?_) (by decide) n
  obtain ⟨base, state⟩ := s
  cases h with
  | requestId hm hlen => simp [pushMsg, hlen]
  | first | delimiter | inner => rcases hp with hp | hp <;> cases hp
  | last hm => simp [pushMsg, hm, Msg.more]

/-- All frames go through, each once. -/
def Forwards (s : ReqSession) (arrivals : List (Arrival ReplyPart)) (rest : List (ReplyPart × GroupMsg)) : Prop :=
  ∃ s', push.receive s (arrivals.map Arrival.frame) = .ok (.ok, s') ∧ s'.written = s.written ++ rest.map Prod.snd

theorem forwards_iff {arrivals : List (Arrival ReplyPart)} (h : Awaits s.state (Arrival.parts arrivals))
    (hforeign : ∀ a ∈ arrivals, a.isForeign) : s.Forwards arrivals (Arrival.parts arrivals) ↔ ∀ a ∈ arrivals, a.Smooth := by
  induction arrivals generalizing s with
  | nil => exact iff_of_true ⟨s, rfl, (append_nil _).symm⟩ nofun
  | cons a arrivals ih =>
    obtain ⟨part, m, n⟩ := a
    obtain ⟨hfirst, hothers⟩ := forall_mem_cons.mp hforeign
    cases part with
    | none =>
      have hfail := offer_foreign (hfirst rfl) s n
      refine iff_of_false ?_ fun hall => hall _ mem_cons_self
      rintro ⟨s', hs', -⟩
      rw [map_cons, Arrival.frame, Push.receive_error hfail] at hs'
      cases hs'
    | some part =>
      obtain ⟨st', haccepts, hrest⟩ := awaits_cons (show Awaits s.state ((part, m) :: Arrival.parts arrivals) from h)
      by_cases hn : n = 0 ∨ part = .delimiter ∨ part = .inner
      · have hok := offer_accepts haccepts hn
        have hsmooth : Arrival.Smooth ⟨some part, m, n⟩ := by
          cases part <;> simp_all [Arrival.Smooth]
        have hstep : s.Forwards (⟨some part, m, n⟩ :: arrivals) (Arrival.parts (⟨some part, m, n⟩ :: arrivals)) ↔
            ReqSession.Forwards { s with state := st', written := s.written ++ [m] } arrivals (Arrival.parts arrivals) := by
          unfold Forwards
          rw [map_cons, Arrival.frame, Push.receive_ok hok]
          simp [Arrival.parts]
        rw [hstep, @ih { s with state := st', written := s.written ++ [m] } hrest hothers, forall_mem_cons]
        exact ⟨fun hall => ⟨hsmooth, hall⟩, fun hall => hall.2⟩
      · obtain ⟨hpos, hnot⟩ := not_or.mp hn
        obtain ⟨k, rfl⟩ := Nat.exists_eq_succ_of_ne_zero hpos
        have hp : part = .requestId ∨ part = .last := by
          cases part <;> simp_all
        refine iff_of_false ?_ fun hall => ?_
        · rintro ⟨s', hs', -⟩
          rw [map_cons, Arrival.frame, Push.receive_error (offer_again_fails haccepts hp k)] at hs'
          cases hs'
        · have hfirst := hall _ mem_cons_self
          rcases hp with rfl | rfl <;> exact absurd hfirst hpos

/-- A session, new or reset, forwards the frames of all replies, each once and in order, and rejects none, if and only if
there are no commands and no credentials among them and the pipe has room at once for every id of a request and every
last frame. -/
theorem replies_forwarded (s : ReqSession) {arrivals : List (Arrival ReplyPart)} {replies : List ReplyFrames}
    (h : Arrival.Carries arrivals replies) :
    s.reset.Forwards arrivals (replies.flatMap ReplyFrames.frames) ↔ ∀ a ∈ arrivals, a.Smooth := by
  rw [← h.parts]
  exact forwards_iff ⟨replies, h.parts⟩ h.foreign

def shortReply : ReplyFrames where
  requestId := none
  delimiter := ⟨⟨.vsm, Msg.more, []⟩, []⟩
  inner := []
  last := ⟨⟨.vsm, 0, [7]⟩, []⟩
  requestId_valid _ hm := nomatch hm
  delimiter_valid := ⟨rfl, rfl⟩
  inner_valid _ hm := nomatch hm
  last_valid := rfl

theorem replies_forwarded_short :
    let arrivals : List (Arrival ReplyPart) := [⟨some .delimiter, shortReply.delimiter, 2⟩, ⟨some .last, shortReply.last, 0⟩]
    (new.reset.Forwards arrivals ([shortReply].flatMap ReplyFrames.frames) ↔ ∀ a ∈ arrivals, a.Smooth) ∧
      ∀ a ∈ arrivals, a.Smooth :=
  ⟨replies_forwarded new ⟨rfl, fun a ha => by
    rcases mem_cons.mp ha with rfl | ha
    · exact nofun
    · rw [mem_singleton.mp ha]
      exact nofun⟩, fun a ha => by
    rcases mem_cons.mp ha with rfl | ha
    · trivial
    · rw [mem_singleton.mp ha]
      rfl⟩

/-- The last frame is rejected if the pipe has had no room for it once, and so is a heartbeat in the middle of a reply. -/
theorem reply_rejected : push.receive new [(shortReply.delimiter, 0), (shortReply.last, 1)] =
        .ok (.error .efault, { new with written := [shortReply.delimiter] }) ∧
      push.receive new [(shortReply.delimiter, 0), (⟨⟨.vsm, Msg.command, 4 :: ascii ['P', 'O', 'N', 'G']⟩, []⟩, 0), (shortReply.last, 0)] =
        .ok (.error .efault, { new with state := .body, written := [shortReply.delimiter] }) := by
  decide +kernel

end ReqSession
end Zmq
