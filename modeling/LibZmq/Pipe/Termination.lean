import LibZmq.Pipe.Refine

/-! Termination of a pair of pipes: no call and no delivery ever fails, and once
nothing is in flight both ends run or both are gone. -/

namespace Zmq

open Option

namespace Pair

open Link

theorem quiet_states {l : Link} (H : Handshake l) (hq : ∀ s, l.inbox s = []) {s : Side} {p p' : PipeT}
    (hp : l.ends s = some p) (hp' : l.ends s.peer = some p')
    (hw : p.state ≠ .waitingForDelimiter) (hw' : p'.state ≠ .waitingForDelimiter) : p.state = .active := by
  have h1 := H.hears s
  have h2 := H.hears s.peer
  rw [hp, hp', hq] at h1
  rw [Side.peer_peer, hp, hp', hq] at h2
  simp only [Hears, Phase.walk_nil, some.injEq] at h1 h2
  cases hs : p.state with
  | active => rfl
  | delimiterReceived =>
    obtain ⟨p1, hp1, hs1⟩ := H.received s p hp hs
    cases hp'.symm.trans hp1
    rw [hs, hs1] at h1
    cases h1
  | waitingForDelimiter => exact absurd hs hw
  | termAckSent => cases hs' : p'.state <;> simp_all [heard, told]
  | termReqSent1 => cases hs' : p'.state <;> simp_all [heard, told]
  | termReqSent2 => cases hs' : p'.state <;> simp_all [heard, told]

theorem quiet_alone {l : Link} (H : Handshake l) (hq : ∀ s, l.inbox s = []) {s : Side} {p : PipeT}
    (hp : l.ends s = some p) : ∃ p', l.ends s.peer = some p' := by
  apply ne_none_iff_exists'.mp
  intro hn
  have h1 := H.hears s
  rw [hp, hn, hq] at h1
  obtain ⟨hf, hw⟩ := h1
  simp only [Phase.walk_nil, some.injEq] at hw
  rcases hf with hf | hf <;> rcases hw with hw | hw <;> rw [hf] at hw <;> cases hw

/-- No assertion fails, no deleted ypipe is used and no deallocated end is sent a
command, whatever the two threads do; and when nothing is in flight and no end
waits for a delimiter, both ends are active or both are deallocated. -/
theorem termination_safe {evs : List Event} {w : Pair} (h : Run Attached Step evs w) :
    (∀ s op, w.Enabled s op → ∃ r w', w.step s op = .ok (r, w')) ∧
    ((∀ s, w.inbox s = []) → (∀ s p, w.ends s = some p → p.state ≠ .waitingForDelimiter) →
      (∀ s, ∃ p, w.ends s = some p ∧ p.state = .active) ∨ ∀ s, w.ends s = none) := by
  have S := run_safe h
  constructor
  · intro s op hop
    obtain ⟨r, w', hs, -, -⟩ := step_goes S hop
    exact ⟨r, w', hs⟩
  · intro hq hw
    have H : Handshake w.link := S.handshake
    by_cases ha : ∃ s p, w.ends s = some p
    · left
      obtain ⟨s, p, hp⟩ := ha
      obtain ⟨p', hp'⟩ := quiet_alone H hq hp
      intro t
      rcases s.eq_or_eq_peer t with rfl | rfl
      · exact ⟨p, hp, quiet_states H hq hp hp' (hw _ p hp) (hw _ p' hp')⟩
      · exact ⟨p', hp', quiet_states H hq hp' (s.peer_peer.symm ▸ hp) (hw _ p' hp') (hw _ p hp)⟩
    · right
      intro s
      cases hp : w.ends s with
      | none => rfl
      | some p => exact absurd ⟨s, p, hp⟩ ha

def closing : List (Side × Op) :=
  [(.first, .write ⟨.vsm, 0, [1]⟩), (.first, .flush), (.first, .terminate true),
    (.second, .deliver), (.second, .read), (.second, .read), (.first, .deliver), (.first, .deliver),
    (.second, .deliver)]

def pairOfOne : Pair := (pipepair fun _ => 1).attach (fun _ => 0) (fun _ => 0)

theorem termination_safe_closing : ∃ evs w, Run Attached Step evs w ∧ evs.length = 9 ∧
    ((∀ s, ∃ p, w.ends s = some p ∧ p.state = .active) ∨ ∀ s, w.ends s = none) := by
  obtain ⟨⟨evs, w⟩, hx⟩ := isSome_iff_exists.mp
    (show (pairOfOne.play free closing).isSome = true by decide)
  have hrun : Run Attached Step ([] ++ evs) w := (play_run (.nil ⟨_, _, _, rfl⟩) hx).unguarded
  have hfacts : (pairOfOne.play free closing).map (fun x => (x.1.length, x.2.inbox .first,
      x.2.inbox .second, x.2.ends .first, x.2.ends .second)) = some (9, [], [], none, none) := by
    decide
  simp only [hx, map_some, some.injEq, Prod.mk.injEq] at hfacts
  obtain ⟨hlen, hi1, hi2, he1, he2⟩ := hfacts
  refine ⟨evs, w, hrun, hlen, (termination_safe hrun).2 ?_ ?_⟩
  · intro s
    cases s
    · exact hi1
    · exact hi2
  · intro s p hp
    cases s
    · rw [he1] at hp
      cases hp
    · rw [he2] at hp
      cases hp

end Pair

end Zmq
