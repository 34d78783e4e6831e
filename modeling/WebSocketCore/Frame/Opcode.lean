/-! # Frame opcodes and framings

The opcode is the low nibble of a frame's first byte. Six nibbles have names; the others are
reserved and keep the byte they were made from, so `reserved 200` is a value of its own whose
nibble is `200 % 16`. A framing says how outgoing bytes are wrapped: raw, or as frames of one
opcode.
-/

namespace WebSocketCore

/-- The kind of a WebSocket frame. -/
inductive Opcode where
  | continuation
  | text
  | binary
  | close
  | ping
  | pong
  /-- An opcode without a name; only its low nibble reaches the wire. -/
  | reserved (byte : UInt8)
  deriving DecidableEq, Repr, Inhabited

namespace Opcode

/-- Reads the opcode of a first byte from its low nibble. -/
def ofBits (b : UInt8) : Opcode :=
  match (b &&& 0x0F).toNat with
  | 0x0 => .continuation
  | 0x1 => .text
  | 0x2 => .binary
  | 0x8 => .close
  | 0x9 => .ping
  | 0xA => .pong
  | _ => .reserved (b &&& 0x0F)

/-- The nibble an opcode is written as. -/
def bits : Opcode → UInt8
  | .continuation => 0x0
  | .text => 0x1
  | .binary => 0x2
  | .close => 0x8
  | .ping => 0x9
  | .pong => 0xA
  | .reserved b => b &&& 0x0F

/-- Text and binary frames carry application data; the others do not. -/
def isData : Opcode → Bool
  | .text | .binary => true
  | _ => false

/-- The name of an opcode, with the byte of a reserved one in brackets. -/
def name : Opcode → String
  | .continuation => "Continuation"
  | .text => "Text"
  | .binary => "Binary"
  | .close => "Close"
  | .ping => "Ping"
  | .pong => "Pong"
  | .reserved b => "Reserved(" ++ toString b.toNat ++ ")"

/-- Reads a named opcode. -/
def ofName? : String → Option Opcode
  | "Continuation" => some .continuation
  | "Text" => some .text
  | "Binary" => some .binary
  | "Close" => some .close
  | "Ping" => some .ping
  | "Pong" => some .pong
  | _ => none

end Opcode

/-- How outgoing bytes are wrapped on their way to the transport. -/
inductive Framing where
  /-- Bytes go out as they are, as for an HTTP response. -/
  | raw
  /-- Bytes go out as the payload of final, unmasked frames of one opcode. -/
  | frame (opcode : Opcode)
  deriving DecidableEq, Repr, Inhabited

end WebSocketCore
