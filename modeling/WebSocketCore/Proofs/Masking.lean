import WebSocketCore.Frame.Mask

/-! # Masking laws

Masking is a walk over the payload with a turning key, so it splits over concatenation: the
second part is masked with the key turned by the first part's length, and only that length
modulo four matters. Two consequences follow: masking is its own inverse, and unmasking a
payload piece by piece, turning the key after each piece as the frame reader does, gives the
same bytes as unmasking it whole, however the payload was cut.
-/

namespace WebSocketCore

namespace MaskKey

/-- Masking splits at any cut with the key turned, undoes itself, and agrees piece by piece. -/
theorem apply_splits_with_turn (m : MaskKey) (x y : List UInt8) :
    m.apply (x ++ y) = m.apply x ++ (m.turnBy (x.length % 4)).apply y ∧
    m.apply (m.apply x) = x ∧
    ∀ pieces : List (List UInt8), m.applyPieces pieces = m.apply pieces.flatten := by
  refine ⟨?_, apply_apply m x, applyPieces_eq_apply_flatten m⟩
  rw [turnBy_mod_four, apply_append]

end MaskKey

end WebSocketCore
