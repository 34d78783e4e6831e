/-! # Base64

The standard base64 alphabet with `=` padding (RFC 4648 §4): every three bytes become four
characters of six bits each, and a last group of one or two bytes is padded to four characters.
-/

namespace WebSocketCore.Base64

/-- The sixty-four characters, in the order of the values they stand for. -/
def alphabet : List UInt8 :=
  "ABCDEFGHIJKLMNOPQRSTUVWXYZabcdefghijklmnopqrstuvwxyz0123456789+/".toUTF8.toList

/-- The character for a six-bit value. -/
def char (v : Nat) : UInt8 := alphabet.getD (v % 64) 0

/-- The padding character. -/
def padChar : UInt8 := 0x3D

/-- Encodes bytes, three at a time. -/
def encode : List UInt8 → List UInt8
  | [] => []
  | [a] => [char (a.toNat / 4), char (a.toNat % 4 * 16), padChar, padChar]
  | [a, b] =>
    [char (a.toNat / 4), char (a.toNat % 4 * 16 + b.toNat / 16), char (b.toNat % 16 * 4), padChar]
  | a :: b :: c :: rest =>
    [char (a.toNat / 4), char (a.toNat % 4 * 16 + b.toNat / 16),
      char (b.toNat % 16 * 4 + c.toNat / 64), char (c.toNat % 64)] ++ encode rest

end WebSocketCore.Base64
