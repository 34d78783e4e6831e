import WebSocketCore.Frame.Header

/-! # SHA-1

The SHA-1 digest of a byte string (FIPS 180-4): the message is padded with a one bit, zeros and
its 64-bit bit length to a whole number of 64-byte blocks, and each block is folded into five
32-bit words by eighty rounds. Only the opening handshake uses it, to prove that the server read
the client's key.
-/

namespace WebSocketCore.Sha1

/-- The five chaining words before the first block. -/
def initial : List UInt32 := [0x67452301, 0xEFCDAB89, 0x98BADCFE, 0x10325476, 0xC3D2E1F0]

/-- Rotates a word left by `n` places, `0 < n < 32`. -/
def rotl (x : UInt32) (n : UInt32) : UInt32 := (x <<< n) ||| (x >>> (32 - n))

/-- The message followed by its padding: a one bit, zeros up to 56 bytes modulo 64, and the
bit length as a 64-bit big-endian number. -/
def pad (msg : List UInt8) : List UInt8 :=
  let zeros := (119 - msg.length % 64) % 64
  msg ++ [0x80] ++ List.replicate zeros 0 ++ bigEndian 8 (8 * msg.length)

/-- The big-endian word at byte offset `i`. -/
def wordAt (bytes : Array UInt8) (i : Nat) : UInt32 :=
  (bytes[i]!.toUInt32 <<< 24) ||| (bytes[i + 1]!.toUInt32 <<< 16) |||
    (bytes[i + 2]!.toUInt32 <<< 8) ||| bytes[i + 3]!.toUInt32

/-- The eighty words of a block's schedule, from its sixteen words. -/
def schedule (block : Array UInt32) : Array UInt32 :=
  (List.range 64).foldl
    (fun w i => w.push (rotl (w[i + 13]! ^^^ w[i + 8]! ^^^ w[i + 2]! ^^^ w[i]!) 1)) block

/-- The round function and constant of round `t`. -/
def mix (t : Nat) (b c d : UInt32) : UInt32 × UInt32 :=
  if t < 20 then ((b &&& c) ||| (~~~b &&& d), 0x5A827999)
  else if t < 40 then (b ^^^ c ^^^ d, 0x6ED9EBA1)
  else if t < 60 then ((b &&& c) ||| (b &&& d) ||| (c &&& d), 0x8F1BBCDC)
  else (b ^^^ c ^^^ d, 0xCA62C1D6)

/-- One round on the working words `(a, b, c, d, e)`. -/
def round (w : Array UInt32) (s : UInt32 × UInt32 × UInt32 × UInt32 × UInt32) (t : Nat) :
    UInt32 × UInt32 × UInt32 × UInt32 × UInt32 :=
  let (a, b, c, d, e) := s
  let (f, k) := mix t b c d
  (rotl a 5 + f + e + k + w[t]!, a, rotl b 30, c, d)

/-- Folds the block at byte offset `off` into the chaining words. -/
def compress (bytes : Array UInt8) (h : List UInt32) (off : Nat) : List UInt32 :=
  let w := schedule ((List.range 16).toArray.map fun j => wordAt bytes (off + 4 * j))
  match h with
  | [h0, h1, h2, h3, h4] =>
    let (a, b, c, d, e) := (List.range 80).foldl (round w) (h0, h1, h2, h3, h4)
    [h0 + a, h1 + b, h2 + c, h3 + d, h4 + e]
  | _ => h

/-- The twenty-byte digest of a message. -/
def digest (msg : List UInt8) : List UInt8 :=
  let padded := (pad msg).toArray
  let words := (List.range (padded.size / 64)).foldl (fun h i => compress padded h (64 * i)) initial
  words.flatMap fun x => bigEndian 4 x.toNat

end WebSocketCore.Sha1
