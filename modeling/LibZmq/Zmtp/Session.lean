import LibZmq.Zmtp.Decode

/-! An encoder at one end and a decoder at the other: the messages that were loaded come
out, however the bytes are written and read. -/

namespace Zmq

namespace Decoder

variable {τ κ : Type} {act : Decoder τ → Ptr → Except CodecFault (Rc × Decoder τ)} {contents : List (UInt8 × List UInt8)}
  {out : κ → List UInt8 → Outcome κ (UInt8 × List UInt8) Errno}
  {Sim : Allocator → Decoder τ → κ → ℕ → List UInt8 → Prop} {Q : UInt64 → ℕ → κ → ℕ → Prop} {placed : Prop}
  {refuses : κ → ℕ → Prop}
  {allocate : Allocator → UInt64 → Allocator} {resize : Allocator → ℕ → Allocator} {good : Allocator → Prop}
  {mem : Allocator} {d : Decoder τ} {l : κ} {n : ℕ}

theorem receiveAll_frames (h : Collects act out Sim Q placed refuses) (ha : Allocates allocate resize placed good)
    (hgood : good mem) (hsim : Sim mem d l n []) (hpos : 0 < n) {frames : List UInt8}
    (hframes : (Part.start l n).feed out frames = (contents, .ok (.start l n)))
    {stream owed : List UInt8} (hstream : stream ++ owed = frames) (reads : List Read)
    (hmem : ¬ (Part.start l n).Meets out refuses stream) (hcuts : placed → ∀ r ∈ reads, r.cuts = [])
    (hQ : placed → Fits out Q mem.maxSize (.start l n) reads stream) :
    ∃ ms d' rest, receiveAll act allocate resize d reads stream = .ok (ms, none, d', rest) ∧
      ms.map wire <+: contents ∧ (owed = [] → rest = [] → ms.map wire = contents) ∧
      (0 < mem.maxSize → (∀ r ∈ reads, 0 < r.n) → stream.length ≤ reads.length → rest = []) := by
  obtain ⟨ms, e, d', mem', bytes, rest, hall, hsplit, hdec, hprogress⟩ :=
    receiveAll_spec h ha hgood reads stream hsim hpos hcuts hQ
  have hwhole : (Part.start l n).feed out (bytes ++ (rest ++ owed)) = (contents, .ok (.start l n)) := by
    rw [← List.append_assoc, ← hsplit, hstream, hframes]
  obtain ⟨p1, hp1, -⟩ := Part.feed_ok_of_append (by rw [hwhole])
  cases hdec with
  | refused hmeets => exact absurd (hsplit ▸ hmeets.left rest) hmem
  | error hfeed =>
    have hfeed' : (Part.start l n).feed out bytes = _ := hfeed
    rw [hfeed'] at hp1
    cases hp1
  | ok hfeed =>
    have hfeed' : (Part.start l n).feed out bytes = _ := hfeed
    refine ⟨ms, d', rest, hall, ?_, ?_, ?_⟩
    · have := Part.feed_prefix out (.start l n) bytes (rest ++ owed)
      rwa [hwhole, hfeed'] at this
    · rintro rfl rfl
      rw [List.append_nil, List.append_nil, hfeed'] at hwhole
      exact (Prod.mk.inj hwhole).1
    · intro hmax hn hlen
      have := hprogress rfl hmax hn
      exact List.length_eq_zero_iff.mp (by omega)

theorem receiveAll_rejects (h : Collects act out Sim Q placed refuses) (ha : Allocates allocate resize placed good)
    (hgood : good mem) (hsim : Sim mem d l n []) (hpos : 0 < n) {frames bad : List UInt8}
    (hframes : (Part.start l n).feed out frames = (contents, .ok (.start l n)))
    {e : Errno} (hbad : (Part.start l n).feed out bad = ([], .error e)) (junk : List UInt8) (reads : List Read)
    (hmem : ¬ (Part.start l n).Meets out refuses (frames ++ bad ++ junk)) (hcuts : placed → ∀ r ∈ reads, r.cuts = [])
    (hQ : placed → Fits out Q mem.maxSize (.start l n) reads (frames ++ bad ++ junk)) :
    ∃ ms e' d' rest, receiveAll act allocate resize d reads (frames ++ bad ++ junk) = .ok (ms, e', d', rest) ∧
      ms.map wire <+: contents ∧ (e' = none ∨ e' = some e ∧ ms.map wire = contents) ∧
      (0 < mem.maxSize → (∀ r ∈ reads, 0 < r.n) → (frames ++ bad).length ≤ reads.length → e' = some e) := by
  have herror : (Part.start l n).feed out (frames ++ bad) = (contents, .error e) := by
    rw [Part.feed_append_ok (by rw [hframes]), hframes, hbad, List.append_nil]
  have hwhole : (Part.start l n).feed out (frames ++ bad ++ junk) = (contents, .error e) := by
    rw [Part.feed_append, herror]
  obtain ⟨ms, e', d', mem', bytes, rest, hall, hsplit, hdec, hprogress⟩ :=
    receiveAll_spec h ha hgood reads (frames ++ bad ++ junk) hsim hpos hcuts hQ
  have hprefix := Part.feed_prefix out (.start l n) bytes rest
  rw [← hsplit, hwhole] at hprefix
  cases hdec with
  | refused hmeets => exact absurd (hsplit ▸ hmeets.left rest) hmem
  | @error _ e1 hfeed =>
    have hfeed' : (Part.start l n).feed out bytes = (ms.map wire, .error e1) := hfeed
    rw [hsplit, Part.feed_append, hfeed'] at hwhole
    obtain ⟨hms, he⟩ := Prod.mk.inj hwhole
    cases he
    exact ⟨ms, some e, d', rest, hall, hms ▸ List.prefix_refl _, Or.inr ⟨rfl, hms⟩, fun _ _ _ => rfl⟩
  | @ok _ p' hfeed =>
    have hfeed' : (Part.start l n).feed out bytes = (ms.map wire, .ok p') := hfeed
    rw [hfeed'] at hprefix
    refine ⟨ms, none, d', rest, hall, hprefix, Or.inl rfl, fun hmax hn hlen => ?_⟩
    -- the error is in what was read
    have hrest := hprogress rfl hmax hn
    have hbytes : frames ++ bad <+: bytes := by
      refine List.prefix_of_prefix_length_le (List.prefix_append _ junk) ⟨rest, hsplit.symm⟩ ?_
      have := congrArg List.length hsplit
      simp only [List.length_append] at this hrest hlen ⊢
      omega
    obtain ⟨cs, rfl⟩ := hbytes
    rw [Part.feed_append, herror] at hfeed'
    cases hfeed'

end Decoder

end Zmq
