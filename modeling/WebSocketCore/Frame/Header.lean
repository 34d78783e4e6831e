import WebSocketCore.Frame.Opcode
import WebSocketCore.Frame.Mask

/-! # Frame headers

A header is two bytes, then an extended length of 0, 2 or 8 bytes, then the masking key if
there is one. The first byte holds the final flag and the opcode's nibble; the second the mask
flag and a seven-bit length, where 126 and 127 announce a 16-bit or 64-bit big-endian length.
Headers are written in the shortest length form; reading accepts every form.
-/

namespace WebSocketCore

/-- The `w` low bytes of `n`, most significant first. -/
def bigEndian : Nat → Nat → List UInt8
  | 0, _ => []
  | w + 1, n => bigEndian w (n / 256) ++ [(n % 256).toUInt8]

/-- The number written by bytes, most significant first. -/
def ofBigEndian (bs : List UInt8) : Nat := bs.foldl (fun acc b => acc * 256 + b.toNat) 0

/-- How many extended length bytes follow a second header byte, whose mask flag is ignored. -/
def extendedLenBytes (b1 : UInt8) : Nat :=
  match (b1 &&& 0x7F).toNat with
  | 126 => 2
  | 127 => 8
  | _ => 0

/-- The header of one frame. -/
structure FrameHeader where
  fin : Bool
  opcode : Opcode
  mask : Option MaskKey
  payloadLen : UInt64
  deriving DecidableEq, Repr, Inhabited

namespace FrameHeader

/-- A server's header: final and unmasked. -/
def server (opcode : Opcode) (payloadLen : Nat) : FrameHeader :=
  ⟨true, opcode, none, payloadLen.toUInt64⟩

/-- The size of the extended length in the shortest form. -/
def extLen (len : Nat) : Nat :=
  if len ≤ 125 then 0 else if len ≤ 0xFFFF then 2 else 8

/-- How many bytes the header takes on the wire. -/
def encodedLen (h : FrameHeader) : Nat :=
  2 + extLen h.payloadLen.toNat + (if h.mask.isSome then 4 else 0)

/-- The header's bytes, in the shortest length form. -/
def encode (h : FrameHeader) : List UInt8 :=
  let b0 : UInt8 := (if h.fin then 0x80 else 0) ||| h.opcode.bits
  let maskBit : UInt8 := if h.mask.isSome then 0x80 else 0
  let len := h.payloadLen.toNat
  let lenBytes :=
    if len ≤ 125 then [maskBit ||| len.toUInt8]
    else if len ≤ 0xFFFF then (maskBit ||| 126) :: bigEndian 2 len
    else (maskBit ||| 127) :: bigEndian 8 len
  b0 :: lenBytes ++ (h.mask.map MaskKey.toList).getD []

/-- Writes the header into a buffer of `room` bytes: nothing if it does not fit. -/
def encodeInto? (h : FrameHeader) (room : Nat) : Option (List UInt8) :=
  if h.encodedLen ≤ room then some h.encode else none

/-- Reads a header from the front of `bytes`, with the number of bytes it took; nothing if the
bytes end before the header does. -/
def decode? (bytes : List UInt8) : Option (FrameHeader × Nat) :=
  match bytes with
  | b0 :: b1 :: rest =>
    let ext := extendedLenBytes b1
    if rest.length < ext then none
    else
      let len := if ext = 0 then (b1 &&& 0x7F).toNat else ofBigEndian (rest.take ext)
      let head := fun mask => (⟨b0 &&& 0x80 != 0, Opcode.ofBits b0, mask, len.toUInt64⟩ : FrameHeader)
      if b1 &&& 0x80 != 0 then
        match rest.drop ext with
        | k0 :: k1 :: k2 :: k3 :: _ => some (head (some ⟨k0, k1, k2, k3⟩), 2 + ext + 4)
        | _ => none
      else some (head none, 2 + ext)
  | _ => none

end FrameHeader

end WebSocketCore
