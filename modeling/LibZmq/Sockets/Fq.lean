import LibZmq.Sockets.Ends
import LibZmq.Sockets.Rota

/-! `fq_t`, fair queueing over inbound pipes. A read that fails takes its pipe from the
active ones; a read of a last frame goes on to the next pipe. -/

namespace Zmq

universe u

/-- Credentials and `last_in` are left out. -/
structure FqT (P : Type u) extends Rota P where
  more : Bool

namespace FqT

variable {P : Type u}

def new : FqT P := ⟨.empty, false⟩

def fetched (fq : FqT P) (msg : Msg) : FqT P :=
  if msg.hasMore then { fq with more := true } else { toRota := fq.advance, more := false }

variable [DecidableEq P]

def attach (fq : FqT P) (pipe : P) : FqT P :=
  let pipes := fq.pipes.pushBack pipe
  { fq with pipes := pipes.swap fq.active (pipes.size - 1), active := fq.active + 1 }

def pipeTerminated (fq : FqT P) (pipe : P) : FqT P := { fq with toRota := fq.toRota.pipeTerminated pipe }

def activated (fq : FqT P) (pipe : P) : FqT P := { fq with toRota := fq.toRota.activated pipe }

/-- The loop of `recvpipe`, each turn of which returns or leaves one active pipe less. -/
def recvLoop : ℕ → FqT P → (P → Inlet) → Except SocketFault (Option (P × Msg) × FqT P × (P → Inlet))
  | 0, fq, inlets => .ok (none, fq, inlets)
  | n + 1, fq, inlets =>
    match fq.pipes.get fq.current with
    | none => .error .outOfBounds
    | some pipe =>
      let (msg, inlet) := (inlets pipe).read
      let inlets := Function.update inlets pipe inlet
      match msg with
      | some msg => .ok (some (pipe, msg), fq.fetched msg, inlets)
      | none =>
        if fq.more then .error .assertion
        else recvLoop n { fq with toRota := fq.deactivate } inlets

def recvpipe (fq : FqT P) (inlets : P → Inlet) := recvLoop fq.active fq inlets

def hasIn (fq : FqT P) (inlets : P → Inlet) : Except SocketFault (Bool × FqT P × (P → Inlet)) :=
  if fq.more then .ok (true, fq, inlets)
  else do
    let (rc, rota, inlets) ← Rota.find Inlet.checkRead fq.active fq.toRota inlets
    return (rc, { fq with toRota := rota }, inlets)

variable {fq : FqT P} {inlets : P → Inlet}

theorem attach_toRota {p : P} (h : p ∉ fq.pipes) : (fq.attach p).toRota = fq.toRota.attach p := by
  have hp := ArrayT.index_pushBack h p
  rw [if_neg h, if_pos rfl] at hp
  simp only [attach, Rota.attach, Rota.activated, ArrayT.size_pushBack h, Nat.add_sub_cancel, hp, ArrayT.swap_comm _ fq.active]

def Kept (i i' : Inlet) : Prop := i'.pending = i.pending ∧ i'.inActive = false ∧ i'.frames.length ≤ i.frames.length

theorem recvLoop_goes {n : ℕ} (h : fq.Wf) (hn : fq.active = n)
    (hm : fq.more = true → ∃ p, fq.IsCurrent p ∧ ((inlets p).read.1).isSome = true) :
    ∃ r inlets', Rota.Skips Kept fq.toRota inlets r inlets' ∧ (fq.more = true → r = fq.toRota ∧ inlets' = inlets) ∧
      (recvLoop n fq inlets = .ok (none, { fq with toRota := r }, inlets') ∨
        ∃ p m i, r.IsCurrent p ∧ (inlets' p).read = (some m, i) ∧ recvLoop n fq inlets =
            .ok (some (p, m), fetched { fq with toRota := r } m, Function.update inlets' p i)) := by
  induction n generalizing fq inlets with
  | zero => exact ⟨fq.toRota, inlets, .done, fun _ => ⟨rfl, rfl⟩, Or.inl rfl⟩
  | succ n ih =>
    obtain ⟨p, hget, hp⟩ := Rota.current_get h (by omega)
    simp only [recvLoop, hget]
    obtain ⟨r, i, hr⟩ : ∃ r i, (inlets p).read = (r, i) := ⟨_, _, rfl⟩
    cases r with
    | some m =>
      refine ⟨fq.toRota, inlets, .done, fun _ => ⟨rfl, rfl⟩, Or.inr ⟨p, m, i, hp, hr, ?_⟩⟩
      rw [hr]
    | none =>
      have hmore : fq.more = false := by
        by_contra hc
        obtain ⟨q, hq, hs⟩ := hm (Bool.eq_true_of_not_eq_false hc)
        obtain rfl := hp.unique hq
        rw [hr] at hs
        exact Bool.false_ne_true hs
      obtain ⟨r, inlets', hs, -, hx⟩ := @ih { fq with toRota := fq.deactivate }
        (Function.update inlets p i) (Rota.deactivate_wf h hp)
        (by change fq.active - 1 = n; omega) (fun hc => absurd (hmore.symm.trans hc) (by simp))
      refine ⟨r, inlets', .skip hp ⟨Inlet.read_none hr, Inlet.read_none_inactive hr⟩ hs, fun hc => ?_, ?_⟩
      · exact absurd (hmore.symm.trans hc) (by simp)
      · simpa only [hr, hmore, Bool.false_eq_true, if_false] using hx

theorem hasIn_goes (h : fq.Wf) : ∃ b r inlets', fq.hasIn inlets = .ok (b, { fq with toRota := r }, inlets') ∧
      Rota.Skips Kept fq.toRota inlets r inlets' ∧ (fq.more = true → r = fq.toRota ∧ inlets' = inlets) := by
  unfold hasIn
  by_cases hm : fq.more = true
  · exact ⟨true, fq.toRota, inlets, if_pos hm, .done, fun _ => ⟨rfl, rfl⟩⟩
  obtain ⟨b, r, inlets', hf, ends, hs, hx⟩ := @Rota.find_goes _ _ _ _ Inlet.checkRead inlets _ h rfl
  have hs : Rota.Skips Kept fq.toRota inlets r ends := by
    refine hs.mono fun i i' hi => ?_
    rcases i.checkRead_cases with ⟨-, hc⟩ | hc
    · exact absurd (Prod.mk.inj (hc.symm.trans hi)).1 Bool.noConfusion
    · rw [← (Prod.mk.inj (hc.symm.trans hi)).2]
      exact ⟨rfl, rfl, Nat.le_refl _⟩
  have hends : inlets' = ends := by
    rcases hx with ⟨-, he⟩ | ⟨p, i, -, -, hi, he⟩
    · exact he
    · rcases (ends p).checkRead_cases with ⟨-, hc⟩ | hc
      · rw [he, ← (Prod.mk.inj (hc.symm.trans hi)).2, Function.update_eq_self]
      · exact absurd (Prod.mk.inj (hc.symm.trans hi)).1 Bool.noConfusion
  rw [if_neg hm, hf]
  exact ⟨b, r, inlets', rfl, hends ▸ hs, fun hc => absurd hc hm⟩

end FqT

end Zmq
