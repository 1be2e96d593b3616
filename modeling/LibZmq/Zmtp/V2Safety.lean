import LibZmq.Zmtp.V2Decoder

/-! What keeps `v2_decoder_t` within the bytes that it received: the comparison in
`size_ready` is right as long as the end of the message is a valid address. -/

namespace Zmq

namespace V2Decoder

open Decoder (tooLarge)

variable {env : DecoderEnv} {bufsize : ℕ} {d : Decoder V2Own}

/-- No header that begins in a receive buffer states a size that goes beyond the last
address from where its body begins. -/
def NoWrap (env : DecoderEnv) (bufsize : ℕ) (reads : List (UInt64 × ℕ)) (stream : List UInt8) : Prop :=
  Decoder.Fits (format env) (Bounded bufsize) bufsize (.start .flags 1) (reads.map whole) stream

/-- Every message in place is within what was received, and every buffer that is handed
out and every copy within memory that is owned: no access of the run faults. -/
theorem receiveAll_inside (hbuf : 8 < bufsize) (addr : UInt64) {reads : List (UInt64 × ℕ)} {stream : List UInt8}
    (h : NoWrap env bufsize reads stream) : ∃ r, receiveAll env (new bufsize addr) reads stream = .ok r := by
  obtain ⟨ms, e, d, -, -, rest, hall, -⟩ := Decoder.receiveAll_spec (collects hbuf) allocates trivial
    (reads.map whole) stream (new_sim bufsize addr) Nat.zero_lt_one
    (fun _ r hr => by obtain ⟨r', -, rfl⟩ := List.mem_map.mp hr; rfl) (fun _ => h)
  exact ⟨_, hall⟩

/-- A message of seven bytes, of which four are received. -/
theorem receiveAll_inside_seven : ∃ r,
    receiveAll ⟨-1, fun _ => true⟩ (new 8192 0x10000) [(0x10000, 6)] [0, 7, 1, 2, 3, 4] = .ok r := by
  have hwrap : NoWrap ⟨-1, fun _ => true⟩ 8192 [(0x10000, 6)] [0, 7, 1, 2, 3, 4] :=
    ⟨⟨fun _ => trivial, fun _ _ => by decide, fun hx => absurd hx (List.cons_ne_nil _ _),
      fun hx => absurd hx (List.cons_ne_nil _ _), fun hx => absurd hx (List.cons_ne_nil _ _),
      fun hx => absurd hx (List.cons_ne_nil _ _), trivial⟩, fun _ _ => trivial⟩
  exact receiveAll_inside (by decide) 0x10000 hwrap

/-- The size 2^64 - 1 in a header makes the pointer wrap around. -/
theorem size_wraps_pointer : ¬ ∃ r,
    receiveAll ⟨-1, fun _ => true⟩ (new 8192 0x10000) [(0x10000, 8192)] [2, 255, 255, 255, 255, 255, 255, 255, 255] = .ok r := by
  rintro ⟨r, hr⟩
  have hrun : receiveAll ⟨-1, fun _ => true⟩ (new 8192 0x10000) [(0x10000, 8192)]
      [2, 255, 255, 255, 255, 255, 255, 255, 255] = .error .outOfBounds := rfl
  cases hr

end V2Decoder

end Zmq
