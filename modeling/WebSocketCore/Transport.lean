/-! # Transports

A transport takes whole regions of outgoing bytes, reports how much it can take now, hears how
many inbound bytes the application consumed, and can be closed. It may refuse a send, and
answers its state after every call, so that a caller never needs the state from before it.

A send lends the transport a slice of the sender's buffer rather than a copy: the bytes must stay
where they are until the transport acknowledges them.
-/

namespace WebSocketCore

/-- The bytes from `start` up to `stop` of a sender's buffer, as lent to a transport. -/
structure Slice where
  buf : Array UInt8
  start : Nat
  stop : Nat

/-- The bytes a slice lends. -/
def Slice.bytes (s : Slice) : List UInt8 := (s.buf.extract s.start s.stop).toList

/-- The operations a link needs from the network below it. -/
class Transport (τ : Type) where
  /-- How many bytes a send may carry now. -/
  sendCapacity : τ → Nat
  /-- Hands over a slice; `more` says that the message goes on. Answers whether it was taken. -/
  send : τ → Slice → Bool → τ × Bool
  /-- Reports that the application consumed this many inbound bytes. -/
  recved : τ → Nat → τ
  /-- Closes the transport; says whether closing succeeded. -/
  close : τ → τ × Bool

end WebSocketCore
