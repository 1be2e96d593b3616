import LibZmq.Zmtp.Curve

/-! What CURVE relies on: with the same nonce and the same key, what has been put into a box is found in it. -/

namespace Zmq

open List

open Curve

/-- A nonce is of 24 bytes. Neither the zero bytes of a message nor those of a box are sent. -/
structure Crypto.Lawful (crypto : Crypto) : Prop where
  box : ∀ m n pk sk, crypto.box m n pk sk = crypto.afternm m n (crypto.beforenm pk sk)
  boxOpen : ∀ c n pk sk, crypto.boxOpen c n pk sk = crypto.openAfternm c n (crypto.beforenm pk sk)
  afternm : ∀ x n k, n.length = 24 → ∃ c, crypto.afternm (zeros zeroBytes ++ x) n k = some (zeros boxZeroBytes ++ c) ∧
    c.length = 16 + x.length ∧ crypto.openAfternm (zeros boxZeroBytes ++ c) n k = some (zeros zeroBytes ++ x)
  secretbox : ∀ x n k, n.length = 24 → ∃ c, crypto.secretbox (zeros zeroBytes ++ x) n k = some (zeros boxZeroBytes ++ c) ∧
    c.length = 16 + x.length ∧ crypto.secretboxOpen (zeros boxZeroBytes ++ c) n k = some (zeros zeroBytes ++ x)

namespace Curve

@[simp] theorem zeros_length (n : ℕ) : (zeros n).length = n := length_replicate

theorem strip_zeros (c : List UInt8) : strip (zeros boxZeroBytes ++ c) = c := drop_left' (zeros_length _)

end Curve

namespace Crypto

theorem clear_seals (x n : List UInt8) (hn : n.length = 24) :
    ∃ c, clearBox (zeros zeroBytes ++ x) n = some (zeros boxZeroBytes ++ c) ∧ c.length = 16 + x.length ∧
      clearOpen (zeros boxZeroBytes ++ c) n = some (zeros zeroBytes ++ x) := by
  have htag : ((n.drop 8).take 16).length = 16 := by
    rw [length_take, length_drop]
    omega
  have hlen : ¬ (zeros zeroBytes ++ x).length < 32 := by
    rw [length_append, zeros_length, zeroBytes]
    omega
  have hdrop : (zeros zeroBytes ++ x).drop 32 = x := drop_left' (zeros_length 32)
  refine ⟨(n.drop 8).take 16 ++ x, ?_, by rw [length_append, htag], ?_⟩
  · unfold clearBox
    rw [if_neg hlen, hdrop, append_assoc]
    rfl
  · have hbox : (zeros boxZeroBytes ++ ((n.drop 8).take 16 ++ x)).drop 16 = (n.drop 8).take 16 ++ x :=
      drop_left' (zeros_length 16)
    have hrest : (zeros boxZeroBytes ++ ((n.drop 8).take 16 ++ x)).drop 32 = x := by
      rw [show 32 = 16 + 16 from rfl, ← drop_drop, hbox, drop_left' htag]
    unfold clearOpen
    rw [if_pos ⟨by simp only [length_append, zeros_length, htag, boxZeroBytes]; omega, by
      rw [hbox, take_left' htag]⟩, hrest]
    rfl

theorem clear_lawful : clear.Lawful where
  box _ _ _ _ := rfl
  boxOpen _ _ _ _ := rfl
  afternm x n _ := clear_seals x n
  secretbox x n _ := clear_seals x n

end Crypto

end Zmq
