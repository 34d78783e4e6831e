/-! # Masking keys

A client masks every payload with a four-byte key: byte `i` of the payload is XORed with byte
`i % 4` of the key. Masking is written here as a walk that XORs each byte with the key's first
byte and then turns the key by one place, so that masking a piece and going on with the turned
key is the same as masking the whole.
-/

namespace WebSocketCore

/-- A four-byte masking key, first byte first. -/
structure MaskKey where
  k0 : UInt8
  k1 : UInt8
  k2 : UInt8
  k3 : UInt8
  deriving DecidableEq, Repr, Inhabited

namespace MaskKey

/-- The key's bytes in order. -/
def toList (m : MaskKey) : List UInt8 := [m.k0, m.k1, m.k2, m.k3]

/-- Reads a key from its first four bytes. -/
def ofList? : List UInt8 → Option MaskKey
  | [a, b, c, d] => some ⟨a, b, c, d⟩
  | _ => none

/-- The key turned left by one place: its second byte comes first. -/
def turn (m : MaskKey) : MaskKey := ⟨m.k1, m.k2, m.k3, m.k0⟩

/-- The key turned left by `n` places. -/
def turnBy (m : MaskKey) : Nat → MaskKey
  | 0 => m
  | n + 1 => (m.turn).turnBy n

/-- Masks bytes: each is XORed with the key's first byte, and the key turns by one. -/
def apply (m : MaskKey) : List UInt8 → List UInt8
  | [] => []
  | b :: bs => (b ^^^ m.k0) :: m.turn.apply bs

/-- Masks one piece of a payload. Answers the masked piece and the key for the byte after it:
the key turned by the piece's length, counted modulo the key's four bytes. -/
def applyPiece (m : MaskKey) (piece : List UInt8) : List UInt8 × MaskKey :=
  (m.apply piece, m.turnBy (piece.length % 4))

/-- Masks a payload handed over in pieces, each piece with the key the one before it left. -/
def applyPieces (m : MaskKey) : List (List UInt8) → List UInt8
  | [] => []
  | p :: ps => (m.applyPiece p).1 ++ (m.applyPiece p).2.applyPieces ps

@[simp] theorem apply_nil (m : MaskKey) : m.apply [] = [] := rfl

@[simp] theorem apply_cons (m : MaskKey) (b : UInt8) (bs : List UInt8) :
    m.apply (b :: bs) = (b ^^^ m.k0) :: m.turn.apply bs := rfl

@[simp] theorem length_apply (m : MaskKey) (bs : List UInt8) : (m.apply bs).length = bs.length := by
  induction bs generalizing m with
  | nil => rfl
  | cons b bs ih => simp [ih]

@[simp] theorem turnBy_zero (m : MaskKey) : m.turnBy 0 = m := rfl

theorem turnBy_succ (m : MaskKey) (n : Nat) : m.turnBy (n + 1) = m.turn.turnBy n := rfl

/-- Turning by `a + b` places is turning by `a`, then by `b`. -/
theorem turnBy_add (m : MaskKey) (a b : Nat) : m.turnBy (a + b) = (m.turnBy a).turnBy b := by
  induction a generalizing m with
  | zero => simp
  | succ a ih => rw [Nat.add_right_comm, turnBy_succ, turnBy_succ, ih]

/-- Four turns bring a key back. -/
@[simp] theorem turnBy_four (m : MaskKey) : m.turnBy 4 = m := rfl

theorem turnBy_four_mul (m : MaskKey) (q : Nat) : m.turnBy (4 * q) = m := by
  induction q with
  | zero => rfl
  | succ q ih => rw [Nat.mul_succ, turnBy_add, ih, turnBy_four]

/-- Only the number of turns modulo four matters. -/
theorem turnBy_mod_four (m : MaskKey) (n : Nat) : m.turnBy (n % 4) = m.turnBy n := by
  conv => rhs; rw [← Nat.mod_add_div n 4]
  rw [turnBy_add, turnBy_four_mul]

/-- Masking a concatenation masks the first part with the key and the second with the key
turned past the first. -/
theorem apply_append (m : MaskKey) (x y : List UInt8) :
    m.apply (x ++ y) = m.apply x ++ (m.turnBy x.length).apply y := by
  induction x generalizing m with
  | nil => rfl
  | cons b bs ih => simp [ih, turnBy_succ]

/-- Masking twice with one key gives the bytes back. -/
@[simp] theorem apply_apply (m : MaskKey) (x : List UInt8) : m.apply (m.apply x) = x := by
  induction x generalizing m with
  | nil => rfl
  | cons b bs ih => simp only [apply_cons, ih, UInt8.xor_assoc, UInt8.xor_self, UInt8.xor_zero]

/-- Masking piece by piece masks the whole. -/
theorem applyPieces_eq_apply_flatten (m : MaskKey) (ps : List (List UInt8)) :
    m.applyPieces ps = m.apply ps.flatten := by
  induction ps generalizing m with
  | nil => rfl
  | cons p ps ih => simp [applyPieces, applyPiece, ih, turnBy_mod_four, apply_append]

end MaskKey

end WebSocketCore
