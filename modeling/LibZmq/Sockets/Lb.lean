import LibZmq.Sockets.Ends
import LibZmq.Sockets.Rota

/-! `lb_t`, load balancing over outbound pipes. A write that fails takes its pipe from the
active ones, in the middle of a message it rolls the message back. -/

namespace Zmq

open Function (update update_eq_self)

universe u

structure LbT (P : Type u) extends Rota P where
  more : Bool
  dropping : Bool

namespace LbT

variable {P : Type u}

def new : LbT P := ⟨.empty, false, false⟩

/-- What `sendpipe` does to an active pipe that refuses the first frame of a message. -/
def retire (r : Rota P) : Rota P :=
  let active := r.active - 1
  if r.current < active then { active := active, pipes := r.pipes.swap r.current active, current := r.current }
  else { active := active, pipes := r.pipes, current := 0 }

def written (lb : LbT P) (msg : Msg) : LbT P :=
  if msg.hasMore then { lb with more := true } else { lb with toRota := lb.advance, more := false }

variable [DecidableEq P]

def attach (lb : LbT P) (pipe : P) : LbT P := { lb with toRota := lb.toRota.attach pipe }

def pipeTerminated (lb : LbT P) (pipe : P) : LbT P where
  toRota := lb.toRota.pipeTerminated pipe
  more := lb.more
  dropping := lb.dropping || (lb.pipes.index pipe == lb.current && lb.more)

def activated (lb : LbT P) (pipe : P) : LbT P := { lb with toRota := lb.toRota.activated pipe }

/-- The loop of `sendpipe` with what follows a write that succeeds; the pipe that has taken
the frame is returned. -/
def sendLoop (msg : Msg) : ℕ → LbT P → (P → Outlet) → Except SocketFault (Option P × LbT P × (P → Outlet))
  | 0, lb, outlets => .ok (none, lb, outlets)
  | n + 1, lb, outlets =>
    match lb.pipes.get lb.current with
    | none => .error .outOfBounds
    | some pipe =>
      let (rc, outlet) := (outlets pipe).write msg
      if rc then
        let outlet := if msg.hasMore then outlet else outlet.flush
        .ok (some pipe, lb.written msg, update outlets pipe outlet)
      else if lb.more then .ok (none, { lb with more := false }, update outlets pipe outlet.rollback)
      else sendLoop msg n { lb with toRota := retire lb.toRota } (update outlets pipe outlet)

def sendpipe (lb : LbT P) (outlets : P → Outlet) (msg : Msg) : Except SocketFault (Bool × LbT P × (P → Outlet)) :=
  if lb.dropping then .ok (true, { lb with more := msg.hasMore, dropping := msg.hasMore }, outlets)
  else do
    let (pipe, lb, outlets) ← sendLoop msg lb.active lb outlets
    return (pipe.isSome, lb, outlets)

def hasOut (lb : LbT P) (outlets : P → Outlet) : Except SocketFault (Bool × LbT P × (P → Outlet)) :=
  if lb.more then .ok (true, lb, outlets)
  else do
    let (rc, rota, outlets) ← Rota.find Outlet.checkWrite lb.active lb.toRota outlets
    return (rc, { lb with toRota := rota }, outlets)

variable {lb : LbT P} {outlets : P → Outlet} {p : P}

omit [DecidableEq P] in
theorem retire_eq {r : Rota P} (h : r.Wf) (ha : 0 < r.active) : retire r = r.deactivate := by
  have hc := h.current_lt
  unfold retire Rota.deactivate
  by_cases hlt : r.current < r.active - 1
  · rw [if_pos hlt, if_neg (by omega)]
  · have hcur : r.current = r.active - 1 := by omega
    rw [if_neg hlt, if_pos hcur, hcur, ArrayT.swap_self]

def Refuses (o o' : Outlet) : Prop := o.self.checkWrite.1 = false ∧ o' = o.refuse

theorem sendLoop_skips {m : Msg} {n : ℕ} (h : lb.Wf) (hn : lb.active = n) :
    ∃ r outlets', Rota.Skips Refuses lb.toRota outlets r outlets' ∧ (lb.more = true → r = lb.toRota ∧ outlets' = outlets) ∧
      (sendLoop m n lb outlets = .ok (none, { lb with toRota := r }, outlets') ∧ r.active = 0 ∨ ∃ p o, r.IsCurrent p ∧
          ((outlets' p).write m = (true, o) ∧ sendLoop m n lb outlets = .ok (some p, written { lb with toRota := r } m,
              update outlets' p (if m.hasMore then o else o.flush)) ∨
            lb.more = true ∧ (outlets' p).write m = (false, o) ∧ sendLoop m n lb outlets =
              .ok (none, { lb with toRota := r, more := false }, update outlets' p o.rollback))) := by
  induction n generalizing lb outlets with
  | zero => exact ⟨lb.toRota, outlets, .done, fun _ => ⟨rfl, rfl⟩, Or.inl ⟨rfl, hn⟩⟩
  | succ n ih =>
    obtain ⟨p, hget, hp⟩ := Rota.current_get h (by omega)
    simp only [sendLoop, hget]
    obtain ⟨b, o, hw⟩ : ∃ b o, (outlets p).write m = (b, o) := ⟨_, _, rfl⟩
    cases b with
    | true =>
      refine ⟨lb.toRota, outlets, .done, fun _ => ⟨rfl, rfl⟩, Or.inr ⟨p, o, hp, Or.inl ⟨hw, ?_⟩⟩⟩
      rw [hw]
      rfl
    | false =>
      by_cases hmore : lb.more = true
      · refine ⟨lb.toRota, outlets, .done, fun _ => ⟨rfl, rfl⟩, Or.inr ⟨p, o, hp, Or.inr ⟨hmore, hw, ?_⟩⟩⟩
        rw [hw, if_pos hmore]
        rfl
      · obtain ⟨r, outlets', hs, -, hx⟩ := @ih { lb with toRota := lb.deactivate }
          (update outlets p o) (Rota.deactivate_wf h hp)
          (by change lb.active - 1 = n; omega)
        refine ⟨r, outlets', .skip hp (Outlet.write_false hw) hs, fun hc => absurd hc hmore, ?_⟩
        simp only [hw, if_neg hmore, retire_eq h hp.active_pos, Bool.false_eq_true, if_false]
        exact hx

theorem hasOut_skips (h : lb.Wf) : ∃ b r outlets', lb.hasOut outlets = .ok (b, { lb with toRota := r }, outlets') ∧
      Rota.Skips Refuses lb.toRota outlets r outlets' ∧ (lb.more = true → r = lb.toRota ∧ outlets' = outlets) := by
  unfold hasOut
  by_cases hm : lb.more = true
  · exact ⟨true, lb.toRota, outlets, if_pos hm, .done, fun _ => ⟨rfl, rfl⟩⟩
  obtain ⟨b, r, outlets', hf, ends, hs, hx⟩ := @Rota.find_goes _ _ _ _ Outlet.checkWrite outlets _ h rfl
  have hs : Rota.Skips Refuses lb.toRota outlets r ends := hs.mono fun o o' ho => ⟨(Prod.mk.inj ho).1, (Prod.mk.inj ho).2.symm⟩
  have hends : outlets' = ends := by
    rcases hx with ⟨-, he⟩ | ⟨p, o, -, -, ho, he⟩
    · exact he
    · have hc := (Outlet.checkWrite_true (Prod.mk.inj ho).1).2.2
      rw [he, ← (Prod.mk.inj (hc.symm.trans ho)).2, update_eq_self]
  rw [if_neg hm, hf]
  exact ⟨b, r, outlets', rfl, hends ▸ hs, fun hc => absurd hc hm⟩

end LbT

end Zmq
