import LibZmq.Pipe.Effect

/-! The pair without its heap: two ends, the commands on their way, and for each
direction the queues between the ends. A hiccup puts a second queue in front of
the reader while the writer still writes to the first. -/

namespace Zmq

open List Staged

open Function (update update_of_ne update_self)

structure Link where
  ends : Side → Option PipeT
  inbox : Side → List Cmd
  /-- from the queue the end writes to, to the one its peer reads from -/
  chan : Side → List (Staged Msg)

namespace Link

open Pair

def inq (l : Link) (s : Side) : Staged Msg := (l.chan s.peer).getLast?.getD Staged.empty

def outq (l : Link) (s : Side) : Staged Msg := (l.chan s).head?.getD Staged.empty

def shift (s : Side) (chan : Side → List (Staged Msg)) : Change → Side → List (Staged Msg)
  | .keep => chan
  | .inbound q => update chan s.peer ((chan s.peer).dropLast ++ [q])
  | .outbound q => update chan s (q :: (chan s).tail)
  | .fresh => update chan s.peer (chan s.peer ++ [Staged.empty])
  | .adopt => update chan s (chan s).tail
  | .release => update chan s.peer []

def after (l : Link) (s : Side) (inbox : List Cmd) (p : Option PipeT) (c : Change)
    (sent : List Cmd) : Link where
  ends := update l.ends s p
  inbox := update (update l.inbox s inbox) s.peer (l.inbox s.peer ++ sent)
  chan := shift s l.chan c

inductive Move (l : Link) : Event → Link → Prop
  | call {s op r p next p' c sent} (hp : l.ends s = some p)
    (hop : ∀ m, op = .write m → m.isDelimiter = false)
    (he : Effect p (l.inq s) (l.outq s) next op r p' c sent) :
    Move l ⟨s, op, r⟩ (l.after s (l.inbox s) (some p') c sent)
  | deliver {s p cmd rest p' c sent} (hp : l.ends s = some p) (hc : l.inbox s = cmd :: rest)
    (hh : Handled p (l.outq s) cmd p' c sent) :
    Move l ⟨s, .deliver, .unit⟩ (l.after s rest p' c sent)

section
variable (l : Link) (s : Side) (inbox : List Cmd) (p : Option PipeT) (c : Change) (sent : List Cmd)

@[simp] theorem after_ends : (l.after s inbox p c sent).ends s = p := by simp [after]

@[simp] theorem after_ends_peer : (l.after s inbox p c sent).ends s.peer = l.ends s.peer := by
  simp [after]

@[simp] theorem after_inbox : (l.after s inbox p c sent).inbox s = inbox := by simp [after]

@[simp] theorem after_inbox_peer : (l.after s inbox p c sent).inbox s.peer = l.inbox s.peer ++ sent := by simp [after]

end

/-- The frames in the queues of one direction. -/
def frames (c : List (Staged Msg)) : List Msg := c.flatMap Staged.items

variable {m : Msg} {s : Side} {chan : Side → List (Staged Msg)} {c : Change}

theorem mem_frames {c : List (Staged Msg)} : m ∈ frames c ↔ ∃ q ∈ c, m ∈ q.items :=
  mem_flatMap

theorem inq_mem {l : Link} (h : m ∈ (l.inq s).items) : m ∈ frames (l.chan s.peer) := by
  unfold inq at h
  cases hl : (l.chan s.peer).getLast? with
  | none => simp [hl, empty, items] at h
  | some q =>
    rw [hl] at h
    exact mem_frames.mpr ⟨q, mem_of_getLast? hl, h⟩

theorem outq_mem {l : Link} (h : m ∈ (l.outq s).items) : m ∈ frames (l.chan s) := by
  unfold outq at h
  cases hl : (l.chan s).head? with
  | none => simp [hl, empty, items] at h
  | some q =>
    rw [hl] at h
    exact mem_frames.mpr ⟨q, mem_of_head? hl, h⟩

theorem frames_shift_self (h : m ∈ frames (shift s chan c s)) : m ∈ frames (chan s) ∨ ∃ q, c = .outbound q ∧ m ∈ q.items := by
  cases c with
  | outbound q =>
    obtain ⟨q', hq, hm⟩ := mem_frames.mp h
    simp only [shift, update_self, mem_cons] at hq
    rcases hq with rfl | hq
    · exact .inr ⟨_, rfl, hm⟩
    · exact .inl (mem_frames.mpr ⟨q', mem_of_mem_tail hq, hm⟩)
  | adopt =>
    obtain ⟨q', hq, hm⟩ := mem_frames.mp h
    simp only [shift, update_self] at hq
    exact .inl (mem_frames.mpr ⟨q', mem_of_mem_tail hq, hm⟩)
  | _ => exact .inl (by simpa [shift] using h)

theorem frames_shift_peer (h : m ∈ frames (shift s chan c s.peer)) :
    m ∈ frames (chan s.peer) ∨ ∃ q, c = .inbound q ∧ m ∈ q.items := by
  cases c with
  | inbound q =>
    obtain ⟨q', hq, hm⟩ := mem_frames.mp h
    simp only [shift, update_self, mem_append, mem_singleton] at hq
    rcases hq with hq | rfl
    · exact .inl (mem_frames.mpr ⟨q', mem_of_mem_dropLast hq, hm⟩)
    · exact .inr ⟨_, rfl, hm⟩
  | fresh =>
    obtain ⟨q', hq, hm⟩ := mem_frames.mp h
    simp only [shift, update_self, mem_append, mem_singleton] at hq
    rcases hq with hq | rfl
    · exact .inl (mem_frames.mpr ⟨q', hq, hm⟩)
    · simp [items, empty] at hm
  | release => simp [shift, frames] at h
  | _ => exact .inl (by simpa [shift] using h)

variable {p p' : PipeT} {i o q : Staged Msg} {nx : ℕ} {op : Op} {r : Res} {c : Change}
  {sent : List Cmd}

theorem mem_write {m v : Msg} {b : Bool} : m ∈ (q.write v b).items ↔ m ∈ q.items ∨ m = v := by
  unfold write items
  cases b <;> simp <;> tauto

theorem mem_flush : m ∈ q.flush.2.items ↔ m ∈ q.items := by
  unfold flush publish items
  split_ifs <;> simp

theorem effect_inbound (he : Effect p i o nx op r p' (.inbound q) sent) (hm : m ∈ q.items) : m ∈ i.items := by
  have hsub : ∀ {v rest}, i.ready.dropWhile Msg.isCredential = v :: rest → ∀ x ∈ rest, x ∈ i.ready :=
    fun hr x hx => (dropWhile_suffix _).mem (hr ▸ mem_cons_of_mem _ hx)
  unfold items at hm ⊢
  cases he <;> simp_all <;> grind

theorem effect_outbound (he : Effect p i o nx op r p' (.outbound q) sent)
    (hm : m ∈ q.items) : m ∈ o.items ∨ op = .write m ∨ m = Msg.initDelimiter ∧
      ((p.state = .active ∨ p.state = .delimiterReceived) ∧ p'.state = .termReqSent1 ∨ p.state = .waitingForDelimiter) := by
  have hu : ∀ x ∈ ({ o with unfinished := [] } : Staged Msg).items, x ∈ o.items := by
    intro x hx
    simp only [items, append_nil] at hx ⊢
    exact mem_append_left _ hx
  cases he with
  | writeDone hw ho =>
    rcases mem_write.mp hm with h | rfl
    · exact .inl h
    · exact .inr (.inl rfl)
  | rollback ho => exact .inl (hu m hm)
  | flush hs ho => exact .inl (mem_flush.mp hm)
  | terminateRequest hs ho =>
    rcases mem_write.mp (mem_flush.mp hm) with h | rfl
    · exact .inl (hu m h)
    · exact .inr (.inr ⟨rfl, .inl ⟨hs, rfl⟩⟩)
  | terminateWait hs ho =>
    rcases mem_write.mp (mem_flush.mp hm) with h | rfl
    · exact .inl (hu m h)
    · exact .inr (.inr ⟨rfl, .inr hs⟩)

def Multipart (q : Staged Msg) : Prop := ∀ m ∈ q.unfinished, m.hasMore = true

theorem flush_unfinished : q.flush.2.unfinished = q.unfinished := by
  unfold flush
  split_ifs <;> rfl

theorem write_multipart (h : Multipart q) : Multipart (q.write m m.hasMore) := by
  unfold Multipart write
  cases hm : m.hasMore with
  | true =>
    intro x hx
    simp only [if_true, mem_append, mem_singleton] at hx
    rcases hx with hx | rfl
    · exact h x hx
    · exact hm
  | false => simp

theorem delimit_multipart : Multipart (delimit q).flush.2 := by
  intro x hx
  rw [flush_unfinished] at hx
  simp [delimit, write] at hx

theorem mem_shift {t : Side} (h : q ∈ shift s chan c t) : q ∈ chan t ∨ q = empty ∨ c = .inbound q ∨ c = .outbound q := by
  rcases s.eq_or_eq_peer t with rfl | rfl <;> cases c <;>
    simp only [shift, update_self, update_of_ne, ne_eq, Side.peer_ne,
      Side.ne_peer, not_false_eq_true, mem_cons, mem_append, not_mem_nil] at h
  all_goals grind [mem_of_mem_tail, mem_of_mem_dropLast]

theorem effect_multipart (he : Effect p i o nx op r p' c sent) (hi : Multipart i)
    (ho : Multipart o) (hc : c = .inbound q ∨ c = .outbound q) : Multipart q := by
  cases he with
  | writeDone =>
    obtain rfl : _ = q := by simpa using hc
    exact write_multipart ho
  | rollback =>
    obtain rfl : _ = q := by simpa using hc
    intro x hx
    cases hx
  | flush =>
    obtain rfl : _ = q := by simpa using hc
    exact fun x hx => ho x (flush_unfinished ▸ hx)
  | terminateRequest | terminateWait =>
    obtain rfl : _ = q := by simpa using hc
    exact delimit_multipart
  | checkReadEmpty | checkReadTrue | checkReadDelimiter | readEmpty | readDelimiter | readMessage =>
    obtain rfl : _ = q := by simpa using hc
    exact hi
  | _ => simp at hc

theorem empty_multipart : Multipart empty := fun m hm => by cases hm

theorem move_multipart {l l' : Link} {e : Event} (h : Move l e l')
    (hl : ∀ s, ∀ q ∈ l.chan s, Multipart q) : ∀ s, ∀ q ∈ l'.chan s, Multipart q := by
  have hin : ∀ s, Multipart (l.inq s) := by
    intro s
    unfold inq
    cases hq : (l.chan s.peer).getLast? with
    | none => exact empty_multipart
    | some q => exact hl _ q (mem_of_getLast? hq)
  have hout : ∀ s, Multipart (l.outq s) := by
    intro s
    unfold outq
    cases hq : (l.chan s).head? with
    | none => exact empty_multipart
    | some q => exact hl _ q (mem_of_head? hq)
  intro t q hq
  cases h with
  | call hp hop he =>
    rcases mem_shift hq with hq | rfl | hc
    · exact hl t q hq
    · exact empty_multipart
    · exact effect_multipart he (hin _) (hout _) hc
  | deliver hp hc hh =>
    rcases mem_shift hq with hq | rfl | hc
    · exact hl t q hq
    · exact empty_multipart
    · cases hh <;> simp at hc

end Link

end Zmq
