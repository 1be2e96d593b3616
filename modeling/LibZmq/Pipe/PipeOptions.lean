import LibZmq.Pipe.Marks

/-! The water marks of a socket's end of a pipe to a session, when the end is made and when they are changed later. -/

namespace Zmq

inductive HwmOption where
  | sndhwm | rcvhwm

/-- The water marks in the options of a socket. -/
structure Hwms where
  sndhwm : Int32
  rcvhwm : Int32

namespace Hwms

open Pair PipeT Zmq.Flow

/-- `options_t::setsockopt`: a negative mark is EINVAL and changes nothing. -/
def set (h : Hwms) (option : HwmOption) (isInt : Bool) (value : Int32) : Hwms :=
  if isInt = true ∧ 0 ≤ value then
    match option with
    | .sndhwm => { h with sndhwm := value }
    | .rcvhwm => { h with rcvhwm := value }
  else h

/-- `update_pipe_options` -/
def updatePipeOptions (h : Hwms) (pipes : List PipeT) : List PipeT := pipes.map (·.setHwms h.rcvhwm h.sndhwm)

/-- `socket_base_t::setsockopt`: the pipes are updated whether the value was good or not. -/
def setsockopt (h : Hwms) (pipes : List PipeT) (option : HwmOption) (isInt : Bool) (value : Int32) : Hwms × List PipeT :=
  let h := h.set option isInt value
  (h, h.updatePipeOptions pipes)

/-- A pipe to a session is made by the socket that connects, or by the session that accepts. -/
inductive Maker where
  | connect | processAttach

/-- The marks that are handed to `pipepair`. -/
def pair (h : Hwms) : Maker → Side → Int32
  | .connect, .first => h.sndhwm
  | .connect, .second => h.rcvhwm
  | .processAttach, .first => h.rcvhwm
  | .processAttach, .second => h.sndhwm

/-- The socket's end, the other one is the session's. -/
def Maker.side : Maker → Side
  | .connect => .first
  | .processAttach => .second

variable {h : Hwms} {maker : Maker} {p q : PipeT}

theorem made (hmade : (pipepair (h.pair maker)).ends maker.side = some q) : q.hwm = h.sndhwm ∧ q.lwm = computeLwm h.rcvhwm := by
  cases maker <;> cases hmade <;> exact ⟨rfl, rfl⟩

theorem set_unboosted (hin : p.inhwmboost = 0) (hout : p.outhwmboost = 0) (inhwm outhwm : Int32) :
    (p.setHwms inhwm outhwm).hwm = 0 ∧ (p.setHwms inhwm outhwm).lwm = 0 := by
  have hno : (0 : Int32) ≤ 0 := by decide
  unfold setHwms
  rw [hin, hout, if_pos (.inr hno), if_pos (.inr hno)]
  exact ⟨rfl, show computeLwm 0 = 0 by decide⟩

theorem computeLwm_toInt (n : Int32) :
    (computeLwm n).toInt = if n.toInt = 2147483647 then -1073741824 else (n.toInt + 1).tdiv 2 := by
  have hlow := n.le_toInt
  have hhigh := n.toInt_lt
  have hdiv : (computeLwm n).toInt = (n + 1).toInt.tdiv 2 := Int32.toInt_div_of_ne_right (n + 1) 2 (by decide)
  have hadd : (n + 1).toInt = (n.toInt + 1).bmod (2 ^ 32) := Int32.toInt_add n 1
  rw [hdiv, hadd]
  split_ifs with hmax
  · rw [hmax]
    decide
  · rw [Int.bmod_eq_of_le (by omega) (by omega)]

theorem computeLwm_eq_zero_iff {n : Int32} : computeLwm n = 0 ↔ -2 ≤ n ∧ n ≤ 0 := by
  have hhalf : (n.toInt + 1).tdiv 2 = (n.toInt + 1) / 2 + if 0 ≤ n.toInt + 1 ∨ 2 ∣ n.toInt + 1 then 0 else 1 :=
    Int.tdiv_eq_ediv
  have htwo : (-2 : Int32).toInt = -2 := rfl
  have hzero : (0 : Int32).toInt = 0 := rfl
  rw [← Int32.toInt_inj, Int32.le_iff_toInt_le, Int32.le_iff_toInt_le, computeLwm_toInt, ]
  by_cases hmax : n.toInt = 2147483647
  · omega
  · split_ifs at hhalf <;> omega

theorem mark_eq_zero_iff {n : Int32} : mark n = 0 ↔ n ≤ 0 := by
  have hzero : (0 : Int32).toInt = 0 := rfl
  rw [Int32.le_iff_toInt_le]
  exact Int.toNat_eq_zero

theorem mark_computeLwm_eq_zero_iff {n : Int32} : mark (computeLwm n) = 0 ↔ n ≤ 0 ∨ n = 2147483647 := by
  have hhalf : (n.toInt + 1).tdiv 2 = (n.toInt + 1) / 2 + if 0 ≤ n.toInt + 1 ∨ 2 ∣ n.toInt + 1 then 0 else 1 :=
    Int.tdiv_eq_ediv
  have hmax : (2147483647 : Int32).toInt = 2147483647 := rfl
  have hzero : (0 : Int32).toInt = 0 := rfl
  rw [mark_eq_zero_iff, ← Int32.toInt_inj, Int32.le_iff_toInt_le, Int32.le_iff_toInt_le, computeLwm_toInt, ]
  split_ifs at hhalf ⊢ <;> omega

/-- The marks of a pipe without a boost are set as they are made if and only if sending is unlimited from the start and
the low mark is rounded to none. They act in the same way if and only if both directions are unlimited. -/
theorem set_as_made_iff {pipes : List PipeT} {option : HwmOption} {isInt : Bool} {value : Int32}
    (hboosts : ∀ p ∈ pipes, p.inhwmboost = 0 ∧ p.outhwmboost = 0) (hp : p ∈ (h.setsockopt pipes option isInt value).2)
    (hq : (pipepair ((h.setsockopt pipes option isInt value).1.pair maker)).ends maker.side = some q) :
    let h' := (h.setsockopt pipes option isInt value).1
    (p.hwm = q.hwm ∧ p.lwm = q.lwm ↔ h'.sndhwm = 0 ∧ -2 ≤ h'.rcvhwm ∧ h'.rcvhwm ≤ 0) ∧
      (mark p.hwm = mark q.hwm ∧ mark p.lwm = mark q.lwm ↔
        h'.sndhwm ≤ 0 ∧ (h'.rcvhwm ≤ 0 ∨ h'.rcvhwm = 2147483647)) := by
  intro h'
  obtain ⟨p, hmem, rfl⟩ := List.mem_map.mp hp
  obtain ⟨hhwm, hlwm⟩ := set_unboosted (hboosts p hmem).1 (hboosts p hmem).2 h'.rcvhwm h'.sndhwm
  obtain ⟨hsnd, hrcv⟩ := made hq
  have hnone : mark 0 = 0 := by decide
  have hmark : ∀ n : Int32, mark 0 = mark n ↔ mark n = 0 := fun n => by rw [hnone, eq_comm]
  change ((p.setHwms h'.rcvhwm h'.sndhwm).hwm = q.hwm ∧ (p.setHwms h'.rcvhwm h'.sndhwm).lwm = q.lwm ↔ _) ∧
    (mark (p.setHwms h'.rcvhwm h'.sndhwm).hwm = mark q.hwm ∧ mark (p.setHwms h'.rcvhwm h'.sndhwm).lwm = mark q.lwm ↔ _)
  rw [hhwm, hlwm, hsnd, hrcv, hmark, hmark]
  refine ⟨and_congr eq_comm (eq_comm.trans computeLwm_eq_zero_iff), and_congr mark_eq_zero_iff ?_⟩
  exact mark_computeLwm_eq_zero_iff

/-- Marks of an end whose socket has been told of both options, after a default of 1000. -/
theorem set_as_made_unlimited : let p := PipeT.new 0 1 1000 0
    let q := PipeT.new 0 1 0 0
    let s := Hwms.setsockopt ⟨0, 1000⟩ [p] .rcvhwm true 0
    s.2 = [{ p with lwm := 0 }] ∧ (q.hwm = 0 ∧ q.lwm = 0) ∧ ∀ p' ∈ s.2, p'.hwm = q.hwm ∧ p'.lwm = q.lwm := by
  have hset : (Hwms.setsockopt ⟨0, 1000⟩ [PipeT.new 0 1 1000 0] .rcvhwm true 0).2 =
      [{ PipeT.new 0 1 1000 0 with lwm := 0 }] := by decide
  have hboosts : ∀ p ∈ [PipeT.new 0 1 1000 0], p.inhwmboost = 0 ∧ p.outhwmboost = 0 := by
    simp [PipeT.new]
  refine ⟨hset, ⟨rfl, by decide⟩, fun p' hp => ?_⟩
  have hq : (pipepair (Hwms.pair ⟨0, 0⟩ .connect)).ends Maker.connect.side = some (PipeT.new 0 1 0 0) := rfl
  exact (set_as_made_iff hboosts hp hq).1.mpr ⟨by decide, by decide, by decide⟩

/-- The marks of a socket are set to 1000 once more, and its end of a pipe is unlimited. -/
theorem set_unlimited : let p := PipeT.new 0 1 1000 1000
    let s := Hwms.setsockopt ⟨1000, 1000⟩ [p] .sndhwm true 1000
    (p.hwm = 1000 ∧ p.lwm = 500) ∧ (s.1.sndhwm = 1000 ∧ s.1.rcvhwm = 1000) ∧
      (pipepair (s.1.pair .connect)).ends Maker.connect.side = some p ∧
      s.2 = [{ p with hwm := 0, lwm := 0 }] ∧ mark 0 ≠ mark 1000 :=
  ⟨by decide, by decide, rfl, by decide, by decide⟩

end Hwms
end Zmq
