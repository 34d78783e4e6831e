import WebSocketCore.Io
import WebSocketCore.Frame.Header

/-! # Reading data frames

A frame reader streams the payloads of the client's data frames. When the current frame is
used up, reading goes on with the next frame header: ping, pong and reserved frames, and
continuations that belong to no message, are skipped whole; a close frame is skipped and ends
reading with `connectionClosed`. A continuation takes the opcode of the message it continues.
Payload bytes are unmasked as they are read, piece by piece, with the key turned after each
piece.
-/

namespace WebSocketCore

/-- The state of a reader between reads. -/
structure FrameReader where
  /-- Payload bytes of the current frame not yet read. -/
  remaining : Nat := 0
  /-- The key for the next payload byte. -/
  mask : MaskKey := ⟨0, 0, 0, 0⟩
  /-- The opcode of the message a continuation would continue. -/
  message : Option Opcode := none
  /-- The opcode of the current frame's message. -/
  opcode : Option Opcode := none
  /-- Whether the current frame ends its message. -/
  fin : Bool := false
  deriving DecidableEq, Repr, Inhabited

namespace FrameReader

variable {τ σ : Type} [Transport τ]

/-- Reads the next frame header as the reader parses it, byte by byte: the final flag, the
opcode, the payload length and the key, all zeros for an unmasked frame. -/
def readHeader : Io τ σ (Bool × Opcode × Nat × MaskKey) := do
  let base ← Io.readExact 2
  let b0 := base.getD 0 0
  let b1 := base.getD 1 0
  let ext ← Io.readExact (extendedLenBytes b1)
  let len := if ext.isEmpty then (b1 &&& 0x7F).toNat else ofBigEndian ext
  let mask ← if b1 &&& 0x80 != 0 then do
      let k ← Io.readExact 4
      pure ((MaskKey.ofList? k).getD ⟨0, 0, 0, 0⟩)
    else pure ⟨0, 0, 0, 0⟩
  return (b0 &&& 0x80 != 0, Opcode.ofBits b0, len, mask)

/-- Reads the next frame header. Answers the reader set to the frame's payload for a data frame
or a continuation of an open message, and `none` after skipping any other frame. -/
def nextFrame (rd : FrameReader) : Io τ σ (Option FrameReader) := do
  let (fin, opcode, len, mask) ← readHeader
  let effective ← match opcode with
    | .text | .binary => pure (some opcode)
    | .continuation => match rd.message with
      | some m => pure (some m)
      | none => do Io.skip len; pure none
    | .close => do
      Io.skip len
      throw .connectionClosed
    | _ => do Io.skip len; pure none
  return effective.map fun eff =>
    { message := if fin then none else some eff, opcode := some eff, fin, remaining := len, mask }

/-- One round of the frame loop: reads a frame header, and answers the reader set to a data
frame's payload, or asks for another round after the frame was skipped. -/
def frameRound (rd : FrameReader) (_ : Unit) : Io τ σ (Unit ⊕ FrameReader) := do
  match ← rd.nextFrame with
  | some rd => return .inr rd
  | none => return .inl ()

/-- Reads frame headers until a data frame's, skipping the frames before it. Answers the reader
set to the data frame's payload. -/
def nextData (rd : FrameReader) : Io τ σ FrameReader :=
  Io.loop rd.frameRound ()

/-- Reads up to `cap` bytes of the current frame's payload, unmasking them piece by piece with
the key turned after each piece; none when the frame is used up. Every round reads at least one
byte, so `want + 1` rounds do. -/
def readPayload (rd : FrameReader) (cap : Nat) : Io τ σ (List UInt8 × FrameReader) := do
  if rd.remaining = 0 then return ([], rd)
  let want := min cap rd.remaining
  let (data, mask) ← Io.loopFor (want + 1) (fun (acc, mask) => do
      if acc.length ≥ want then return .inr (acc, mask)
      let piece ← Io.readSome (want - acc.length)
      let (out, mask) := mask.applyPiece piece
      return .inl (acc ++ out, mask))
    (([] : List UInt8), rd.mask)
  return (data, { rd with remaining := rd.remaining - want, mask })

/-- Reads up to `cap` payload bytes of the current message, moving to the next data frame when
the current one is used up. Answers the unmasked bytes, none for an empty frame. -/
def read (rd : FrameReader) (cap : Nat) : Io τ σ (List UInt8 × FrameReader) := do
  if cap = 0 then return ([], rd)
  let rd ← if rd.remaining = 0 then rd.nextData else pure rd
  rd.readPayload cap

end FrameReader

end WebSocketCore
