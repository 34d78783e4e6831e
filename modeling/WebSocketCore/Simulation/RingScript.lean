import WebSocketCore.Ring.Append
import WebSocketCore.Ring.Ack
import WebSocketCore.Simulation.Loopback

/-! # Scripted runs of a frame ring

A ring script is a list of commands played against a ring over a `Loopback` transport: ring
operations, acknowledgements that the peer gives (which shrink the transport's unacknowledged
count and credit the ring), and changes of the transport's window and failure mode. Each command
is reported with its answer, the ring's counters after it, and the sends it caused.
-/

namespace WebSocketCore

/-- One command of a ring script. -/
inductive RingCommand where
  | append (framing : Framing) (bytes : List UInt8)
  | finish
  /-- The peer acknowledges `len` bytes. -/
  | ack (len : Nat)
  /-- The peer acknowledges everything sent. -/
  | ackAll
  | rewind
  | clear
  | setCapacity (capacity : Nat)
  | setFailSend (fail : Bool)
  deriving DecidableEq, Repr, Inhabited

/-- What a command answered. -/
inductive RingReply where
  | appended (result : Except NetError Append)
  | finished (result : Except NetError (Option WaitReason))
  /-- Acknowledged bytes that no in-flight byte accounts for. -/
  | excess (n : Nat)
  | done

/-- A command's answer, the ring's counters after it, and the sends it caused. -/
structure RingReport where
  reply : RingReply
  head : Nat
  tail : Nat
  markers : Nat
  inFlight : Nat
  drained : Bool
  sends : List (List UInt8 × Bool)

namespace RingCommand

/-- The peer acknowledges `len` bytes: the transport's count drops, then the ring is credited. -/
def acknowledge (r : FrameRing) (t : Loopback) (len : Nat) : RingReply × FrameRing × Loopback :=
  let t := t.acknowledge len
  let (r, excess) := r.onAck len
  (.excess excess, r, t)

/-- Plays one command. -/
def run (r : FrameRing) (t : Loopback) : RingCommand → RingReply × FrameRing × Loopback
  | .append framing bytes =>
    let o := r.append t framing bytes
    (.appended o.result, o.ring, o.transport)
  | .finish =>
    let o := r.finish t
    (.finished o.result, o.ring, o.transport)
  | .ack len => acknowledge r t len
  | .ackAll => acknowledge r t t.unacked
  | .rewind => (.done, r.rewind, t)
  | .clear => (.done, r.clear, t)
  | .setCapacity c => (.done, r, { t with capacity := c })
  | .setFailSend b => (.done, r, { t with failSend := b })

end RingCommand

/-- Plays a script, reporting every command. -/
def RingCommand.replay (r : FrameRing) (t : Loopback) : List RingCommand → List RingReport
  | [] => []
  | c :: cs =>
    let (reply, r', t') := RingCommand.run r t c
    let report : RingReport :=
      ⟨reply, r'.head, r'.tail, r'.markers.length, r'.inFlight, r'.isDrained,
        (t'.sends.extract t.sends.size t'.sends.size).toList⟩
    report :: RingCommand.replay r' t' cs

end WebSocketCore
