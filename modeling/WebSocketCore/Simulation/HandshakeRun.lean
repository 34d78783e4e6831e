import WebSocketCore.Http.Handshake
import WebSocketCore.Simulation.Peer

/-! # Reading a request head on a live connection

The handshake reader runs as the task of a connection over a `Loopback` transport, with the
default configuration, a 64-byte ring and an inbound queue of the given size. The head arrives
in chunks, each offered until it is taken; the peer may then close. The report shows each
chunk's takes, the outcome of the reading (none while it goes on), what the task waits for, the
bytes still queued and the bytes reported consumed.
-/

namespace WebSocketCore

/-- How a head reading ended: its request, or its error and the stage it failed at. -/
abbrev HeadOutcome := Except (NetError × HandshakeStage) Request

/-- What a reading of a head on a connection came to. -/
structure HeadReport where
  takes : List (List Nat)
  outcome : Option HeadOutcome
  waiting : WaitReason
  inbound : Nat
  recved : Nat

namespace HeadReport

/-- The task that reads a head and keeps its outcome. -/
def task : IoRoutine Loopback (Option HeadOutcome) Unit := do
  let r ← Handshake.parseReporting
  modify fun (w : Conn Loopback (Option HeadOutcome)) => { w with app := some r }

/-- Reads a head delivered in `chunks` on a connection with an inbound queue of `inboundCap`
bytes; the peer closes after the last chunk when `close` is set. -/
def run (inboundCap : Nat) (chunks : List (List UInt8)) (close : Bool) : Except NetError HeadReport := do
  let link ← Link.new ({ capacity := 4096 } : Loopback) {} 64 inboundCap
  let c : Connection Loopback (Option HeadOutcome) := { world := { link, app := none } }
  let (_, c) := c.start task
  let (c, takes) := chunks.foldl
    (fun (c, takes) chunk => let (c, ns) := Peer.offer c chunk; (c, takes.push ns)) (c, #[])
  let c := if close then c.onClosed else c
  return ⟨takes.toList, c.world.app, c.waiting, c.world.link.inbound.length, (Peer.wire c).recved⟩

end HeadReport

end WebSocketCore
