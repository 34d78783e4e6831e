import WebSocketCore.Transport

/-! # A recording transport

`Loopback` is a transport that keeps every region handed to it, with a send window of
`capacity` bytes less those not yet acknowledged. It counts the inbound bytes reported consumed
and the calls to close, and can be told to refuse sends or to fail on close. It is what a test
bench or a proof puts under a link to watch what the link does.
-/

namespace WebSocketCore

/-- The record of a recording transport. -/
structure Loopback where
  /-- The send window when nothing is unacknowledged. -/
  capacity : Nat
  /-- Bytes sent and not yet acknowledged by the peer. -/
  unacked : Nat := 0
  /-- Inbound bytes reported consumed. -/
  recved : Nat := 0
  /-- Reports of consumed inbound bytes. -/
  recvedCalls : Nat := 0
  /-- Calls to close. -/
  closed : Nat := 0
  /-- Refuse every send. -/
  failSend : Bool := false
  /-- Fail every close. -/
  failClose : Bool := false
  /-- Every accepted send, oldest first, with its `more` flag. -/
  sends : Array (List UInt8 × Bool) := #[]
  deriving Repr, Inhabited

namespace Loopback

/-- The peer acknowledges up to `len` unacknowledged bytes. -/
def acknowledge (t : Loopback) (len : Nat) : Loopback :=
  { t with unacked := t.unacked - min len t.unacked }

end Loopback

instance : Transport Loopback where
  sendCapacity t := t.capacity - t.unacked
  send t s more :=
    if t.failSend then (t, false)
    else ({ t with sends := t.sends.push (s.bytes, more), unacked := t.unacked + s.bytes.length }, true)
  recved t n := { t with recved := t.recved + n, recvedCalls := t.recvedCalls + 1 }
  close t := ({ t with closed := t.closed + 1 }, !t.failClose)

end WebSocketCore
