import LibZmq.Messages.Lifetimes
import LibZmq.Sockets.Dist

/-! `dist_t::distribute` with the `msg_t` objects that it copies. A normal pipe takes a bitwise copy into a new slot of its
queue, a conflating one moves the message into one of its two buffers. -/

namespace Zmq

open List

open Function (update update_of_ne)

universe u

inductive Place (P : Type) where
  | caller
  | slot (pipe : P) (n : ℕ)
  | buffer (pipe : P) (second : Bool)
deriving DecidableEq

/-- The end of a pipe that is written to. -/
structure FanEnd where
  self : PipeT
  conflate : Bool
  /-- the slots of the queue that have been filled -/
  filled : ℕ
  /-- the back buffer is the second one -/
  back : Bool
  hasMsg : Bool
  /-- the reader does not hold the lock of the buffers -/
  unlocked : Bool

structure Fan (P : Type) where
  dist : DistT P
  ends : P → FanEnd
  messages : Messages (Place P)

namespace FanEnd

variable {P : Type}

def place (e : FanEnd) (pipe : P) : Place P := if e.conflate then .buffer pipe e.back else .slot pipe e.filled

/-- The check that `pipe_t::write` begins with. -/
def writable (e : FanEnd) : Bool := e.self.checkWrite.1

/-- The end after a message has been put there. The buffers are exchanged if they are not locked. -/
def put (e : FanEnd) : FanEnd :=
  if e.conflate then { e with back := if e.unlocked then !e.back else e.back, hasMsg := e.hasMsg || e.unlocked }
  else { e with filled := e.filled + 1 }

/-- Messages, not frames, are counted. -/
def count (e : FanEnd) (m : MsgT) : FanEnd :=
  let more := m.flags &&& Msg.more != 0
  let isIdentity := m.flags &&& Msg.identity == Msg.identity
  { e with self := { e.self with
    msgsWritten := if !more && !isIdentity then e.self.msgsWritten + 1 else e.self.msgsWritten } }

def refuse (e : FanEnd) : FanEnd := { e with self := e.self.checkWrite.2 }

end FanEnd

namespace Fan

open Messages

variable {P : Type} [DecidableEq P] {writable : P → Bool} {l : List P} {p : P} {n : ℕ} {s : Messages (Place P)} {d : DistT P}

/-- `outpipe->write`. The queue's slot is overwritten, whatever was in it; `dbuffer_t` casts `const` away and moves the
message of the caller. -/
def putMessage (messages : Messages (Place P)) (e : FanEnd) (pipe : P) : Except Crash (Messages (Place P)) :=
  if e.conflate then do
    Block.assert ((messages.msgs .caller).type ≠ none)
    let (_, messages) ← messages.move (e.place pipe) .caller
    Block.assert ((messages.msgs (e.place pipe)).type ≠ none)
    return messages
  else return messages.setMsg (e.place pipe) (messages.msgs .caller)

/-- `write`, apart from the flush that follows the last frame. -/
def write (f : Fan P) (pipe : P) : Except Crash (Bool × Fan P) :=
  let e := f.ends pipe
  if !e.writable then
    .ok (false, { f with dist := f.dist.refused pipe, ends := update f.ends pipe e.refuse })
  else do
    let messages ← putMessage f.messages e pipe
    let e := (e.put).count (f.messages.msgs .caller)
    return (true, { f with ends := update f.ends pipe e, messages := messages })

/-- The loop over the matching pipes from `i` on. A pipe that refuses the message is swapped behind them. -/
def writeLoop : ℕ → ℕ → ℕ → Fan P → Except Crash (ℕ × Fan P)
  | 0, _, failed, f => .ok (failed, f)
  | n + 1, i, failed, f =>
    match f.dist.pipes.get i with
    | none => .error .outOfBounds
    | some pipe => do
      let (rc, f) ← f.write pipe
      if rc then writeLoop n (i + 1) failed f else writeLoop n i (failed + 1) f

def setMessages (f : Fan P) (messages : Messages (Place P)) : Fan P := { f with messages := messages }

/-- `close` and `init` of the message of the caller. -/
def closeInit (f : Fan P) : Except Crash (Fan P) := do
  let (rc, messages) ← f.messages.close .caller
  Block.assert (rc = true)
  return f.setMessages (messages.init .caller)

def distribute (f : Fan P) : Except Crash (Fan P) :=
  if f.dist.matching = 0 then f.closeInit
  else if (f.messages.msgs .caller).type = some .vsm then do
    let (_, f) ← writeLoop f.dist.matching 0 0 f
    f.closeInit
  else do
    let messages ← f.messages.addRefs .caller (f.dist.matching - 1)
    let (failed, f) ← writeLoop f.dist.matching 0 0 (f.setMessages messages)
    let messages ← if failed = 0 then pure f.messages else f.messages.rmRefs .caller failed
    return f.setMessages (messages.init .caller)

/-! The order in which pipes are written. -/

/-- The last one takes the place of the one before the first. -/
def lastFirst (l : List P) : List P := l.getLast?.toList ++ l.dropLast

/-- The pipes that are written, in order, when so many are tried. -/
def reached (writable : P → Bool) : ℕ → List P → List P
  | n + 1, p :: rest => if writable p then p :: reached writable n rest else reached writable n (lastFirst rest)
  | _, _ => []

def putAll (ends : P → FanEnd) : List P → Messages (Place P) → Except Crash (Messages (Place P))
  | [], messages => .ok messages
  | p :: rest, messages => do putAll ends rest (← putMessage messages (ends p) p)

section

omit [DecidableEq P]

theorem lastFirst_perm (l : List P) : (lastFirst l).Perm l := by
  rcases eq_nil_or_concat l with rfl | ⟨init, last, rfl⟩
  · exact List.Perm.refl _
  · unfold lastFirst
    simp only [concat_eq_append, getLast?_concat, dropLast_concat, Option.toList_some]
    exact perm_append_comm

theorem reached_subset (h : p ∈ reached writable n l) : p ∈ l ∧ writable p = true := by
  induction n generalizing l with
  | zero => cases l <;> cases h
  | succ n ih =>
    cases l with
    | nil => cases h
    | cons q rest =>
      unfold reached at h
      split_ifs at h with hq
      · rcases mem_cons.mp h with rfl | h
        · exact ⟨mem_cons_self, hq⟩
        · exact (ih h).imp_left (mem_cons_of_mem q)
      · exact (ih h).imp_left fun h => mem_cons_of_mem q ((lastFirst_perm rest).mem_iff.mp h)

theorem mem_reached (hn : n = l.length) (hp : p ∈ l) (hw : writable p = true) : p ∈ reached writable n l := by
  induction n generalizing l with
  | zero =>
    rw [eq_nil_of_length_eq_zero hn.symm] at hp
    cases hp
  | succ n ih =>
    cases l with
    | nil => cases hp
    | cons q rest =>
      have hlen : n = rest.length := Nat.succ.inj hn
      unfold reached
      split_ifs with hq
      · rcases mem_cons.mp hp with rfl | hp
        · exact mem_cons_self
        · exact mem_cons_of_mem q (ih hlen hp)
      · rcases mem_cons.mp hp with rfl | hp
        · exact absurd hw hq
        · exact ih (hlen.trans (lastFirst_perm rest).length_eq.symm) ((lastFirst_perm rest).mem_iff.mpr hp)

theorem reached_nodup (hl : l.Nodup) : (reached writable n l).Nodup := by
  induction n generalizing l with
  | zero => cases l <;> exact nodup_nil
  | succ n ih =>
    cases l with
    | nil => exact nodup_nil
    | cons q rest =>
      obtain ⟨hq, hrest⟩ := nodup_cons.mp hl
      unfold reached
      split_ifs
      · exact nodup_cons.mpr ⟨fun h => hq (reached_subset h).1, ih hrest⟩
      · exact ih ((lastFirst_perm rest).nodup_iff.mpr hrest)

theorem length_reached_le : (reached writable n l).length ≤ n := by
  induction n generalizing l with
  | zero => cases l <;> exact Nat.zero_le _
  | succ n ih =>
    cases l with
    | nil => exact Nat.zero_le _
    | cons q rest =>
      unfold reached
      split_ifs
      · exact Nat.succ_le_succ ih
      · exact Nat.le_succ_of_le ih

theorem reached_congr {w w' : P → Bool} (h : ∀ p ∈ l, w p = w' p) : reached w n l = reached w' n l := by
  induction n generalizing l with
  | zero => cases l <;> rfl
  | succ n ih =>
    cases l with
    | nil => rfl
    | cons q rest =>
      have hrest : ∀ p ∈ rest, w p = w' p := fun p hp => h p (mem_cons_of_mem q hp)
      unfold reached
      rw [h q mem_cons_self, ih hrest, ih fun p hp => hrest p ((lastFirst_perm rest).mem_iff.mp hp)]

end

theorem putAll_congr {e e' : P → FanEnd} (h : ∀ p ∈ l, e p = e' p) : putAll e l s = putAll e' l s := by
  induction l generalizing s with
  | nil => rfl
  | cons p rest ih =>
    unfold putAll
    rw [h p mem_cons_self]
    exact congrArg _ (funext fun s => ih fun q hq => h q (mem_cons_of_mem p hq))

theorem refused_rest {i n : ℕ} (h : d.Wf) (hn : i + (n + 1) = d.matching) (hget : d.pipes.get i = some p) :
    ((d.refused p).pipes.items.drop i).take n = lastFirst ((d.pipes.items.drop (i + 1)).take n) := by
  have h1 := h.matching_le
  have h2 := h.active_le
  have h3 := h.eligible_le
  have hindex : d.pipes.index p = i := (ArrayT.get_iff.mp hget).2
  have hindex' : (d.pipes.swap i (d.matching - 1)).index p = d.matching - 1 := by
    rw [ArrayT.index_swap (by omega) (by omega), if_pos hindex]
  have hat (j : ℕ) (hj : j < d.matching - 1) :
      (d.refused p).pipes.get j = if j = i then d.pipes.get (d.matching - 1) else d.pipes.get j := by
    unfold DistT.refused
    simp only [hindex, hindex']
    rw [ArrayT.get_swap (by simp only [ArrayT.size_swap]; omega) (by simp only [ArrayT.size_swap]; omega),
      if_neg (by omega), if_neg (by omega), ArrayT.get_swap (by rw [ArrayT.size_swap]; omega) (by rw [ArrayT.size_swap]; omega),
      if_neg (by omega), if_neg (by omega), ArrayT.get_swap (by omega) (by omega), if_neg (by omega)]
  have hlen : d.matching ≤ d.pipes.items.length := by
    change d.matching ≤ d.pipes.size
    omega
  cases n with
  | zero => rfl
  | succ n =>
    have hlast : ((d.pipes.items.drop (i + 1)).take (n + 1)).getLast? = d.pipes.get (d.matching - 1) := by
      rw [getLast?_eq_getElem?, length_take, length_drop, getElem?_take, getElem?_drop]
      rw [if_pos (by omega)]
      exact congrArg (fun j => d.pipes.items[j]?) (by omega)
    obtain ⟨last, hl⟩ := ArrayT.get_lt (a := d.pipes) (i := d.matching - 1) (by omega)
    refine ext_getElem? fun k => ?_
    unfold lastFirst
    rw [hlast, hl, Option.toList_some, getElem?_take, getElem?_drop]
    cases k with
    | zero =>
      have := hat i (by omega)
      rw [if_pos rfl, hl] at this
      exact this
    | succ k =>
      rw [singleton_append, getElem?_cons_succ, getElem?_dropLast, length_take, length_drop,
        getElem?_take, getElem?_drop]
      by_cases hk : k + 1 < n + 1
      · have := hat (i + (k + 1)) (by omega)
        rw [if_neg (by omega)] at this
        rw [if_pos hk, if_pos (by omega), if_pos (by omega)]
        exact this.trans (congrArg (fun j => d.pipes.items[j]?) (by omega))
      · rw [if_neg hk, if_neg (by omega)]

theorem refused_wf (h : d.Wf) (hp : d.Matches p) : (d.refused p).Wf := by
  rw [DistT.refused_eq h hp]
  exact (DistT.leave_left h hp.1).2

theorem write_ok {f : Fan P} (hw : (f.ends p).writable = true)
    (hs : putMessage f.messages (f.ends p) p = .ok s) : f.write p = .ok (true, { f with
      ends := update f.ends p ((f.ends p).put.count (f.messages.msgs .caller))
      messages := s }) := by
  unfold write
  simp only [hw, hs]
  rfl

theorem write_refused {f : Fan P} (hw : (f.ends p).writable = false) : f.write p = .ok (false, { f with
      dist := f.dist.refused p
      ends := update f.ends p (f.ends p).refuse }) := by
  unfold write
  simp only [hw]
  rfl

theorem writeLoop_ok {n i failed : ℕ} {f : Fan P} {s : Messages (Place P)} (h : f.dist.Wf) (hn : i + n = f.dist.matching)
    (hput : putAll f.ends (reached (fun p => (f.ends p).writable) n ((f.dist.pipes.items.drop i).take n)) f.messages = .ok s) :
    ∃ f' : Fan P, writeLoop n i failed f = .ok (failed + (n -
      (reached (fun p => (f.ends p).writable) n ((f.dist.pipes.items.drop i).take n)).length), f') ∧ f'.messages = s := by
  induction n generalizing i failed f with
  | zero => exact ⟨f, rfl, Except.ok.inj hput⟩
  | succ n ih =>
    have h1 := h.matching_le
    have h2 := h.active_le
    have h3 := h.eligible_le
    obtain ⟨p, hget⟩ := ArrayT.get_lt (a := f.dist.pipes) (i := i) (by omega)
    obtain ⟨hp, hindex⟩ := ArrayT.get_iff.mp hget
    have hrest : (f.dist.pipes.items.drop i).take (n + 1) = p :: (f.dist.pipes.items.drop (i + 1)).take n := by
      obtain ⟨hi, hx⟩ := List.getElem?_eq_some_iff.mp hget
      rw [drop_eq_getElem_cons hi, take_succ_cons, hx]
    have hnot : ∀ q ∈ (f.dist.pipes.items.drop (i + 1)).take n, q ≠ p := by
      have hnodup : ((f.dist.pipes.items.drop i).take (n + 1)).Nodup :=
        (take_sublist _ _).nodup ((drop_sublist _ _).nodup f.dist.pipes.nodup)
      rw [hrest] at hnodup
      exact fun q hq he => (nodup_cons.mp hnodup).1 (he ▸ hq)
    rw [hrest] at hput ⊢
    unfold reached at hput ⊢
    simp only [writeLoop, hget]
    have hother (e : FanEnd) (q : P) (hq : q ∈ (f.dist.pipes.items.drop (i + 1)).take n) : f.ends q = update f.ends p e q :=
      (update_of_ne (hnot q hq) _ _).symm
    cases hw : (f.ends p).writable with
    | true =>
      simp only [hw, if_true] at hput ⊢
      obtain ⟨s1, hs1, hput⟩ := bind_ok hput
      have hends := hother ((f.ends p).put.count (f.messages.msgs .caller))
      have hreached := reached_congr (n := n) fun q hq => congrArg FanEnd.writable (hends q hq)
      rw [putAll_congr fun q hq => hends q (reached_subset hq).1, hreached] at hput
      obtain ⟨f', hf', hs'⟩ := @ih _ failed { f with
        ends := update f.ends p ((f.ends p).put.count (f.messages.msgs .caller)), messages := s1 } h
        (show i + 1 + n = f.dist.matching by omega) hput
      refine ⟨f', ?_, hs'⟩
      rw [write_ok hw hs1, length_cons, Nat.add_sub_add_right, hreached]
      exact hf'
    | false =>
      simp only [hw, Bool.false_eq_true, if_false] at hput ⊢
      have hends := hother (f.ends p).refuse
      have hperm := lastFirst_perm ((f.dist.pipes.items.drop (i + 1)).take n)
      have hreached := reached_congr (n := n) (l := lastFirst ((f.dist.pipes.items.drop (i + 1)).take n)) fun q hq =>
        congrArg FanEnd.writable (hends q (hperm.mem_iff.mp hq))
      have hle : (reached (fun p => (f.ends p).writable) n (lastFirst ((f.dist.pipes.items.drop (i + 1)).take n))).length ≤ n :=
        length_reached_le
      rw [putAll_congr fun q hq => hends q (hperm.mem_iff.mp (reached_subset hq).1), hreached, ← refused_rest h hn hget] at hput
      obtain ⟨f', hf', hs'⟩ := @ih _ (failed + 1) { f with
        dist := f.dist.refused p, ends := update f.ends p (f.ends p).refuse }
        (refused_wf h ⟨hp, by omega⟩) (show i + n = f.dist.matching - 1 by omega) hput
      refine ⟨f', ?_, hs'⟩
      rw [write_refused hw]
      rw [hreached, ← refused_rest h hn hget] at hle ⊢
      refine hf'.trans (congrArg Except.ok (Prod.ext ?_ rfl))
      exact (Nat.add_assoc failed 1 _).trans (congrArg (failed + ·) ((Nat.add_comm 1 _).trans (Nat.succ_sub hle).symm))

end Fan
end Zmq
