import WebSocketCore.Connection
import WebSocketCore.Simulation.Loopback

/-! # A simulated peer

The peer drives a connection over a `Loopback` transport the way a network stack would: it
offers bytes (again and again while only part is taken), delivers a stream in chunks, and
acknowledges what was sent, which may let the task send more. Acknowledging everything repeats
until nothing is unacknowledged, for at most `Peer.roundLimit` rounds. A peer streaming an input
plays moves in any order (`Peer.play`): it offers the input's next bytes in pieces of any size,
acknowledges any number of sent bytes, lets poll ticks pass, closes or fails.
-/

namespace WebSocketCore

namespace Peer

/-- How many rounds a peer repeats an exchange that might not settle. -/
def roundLimit : Nat := 1000000

/-- Splits bytes into pieces of `k` bytes, the last one possibly shorter. Every piece holds at
least one byte, so a size of 0 splits into single bytes. -/
def chunksOf (k : Nat) : List UInt8 → List (List UInt8)
  | [] => []
  | b :: bs => (b :: bs.take (k - 1)) :: chunksOf k (bs.drop (k - 1))
termination_by bytes => bytes.length
decreasing_by simp only [List.length_drop, List.length_cons]; omega

variable {σ : Type}

/-- Offers bytes until all are taken or none is; answers each offer's take. -/
def offer (c : Connection Loopback σ) (bytes : List UInt8) : Connection Loopback σ × List Nat :=
  let (c, n) := c.onRecv bytes
  if _h : n = 0 ∨ (bytes.drop n).isEmpty then (c, [n])
  else
    let (c, ns) := offer c (bytes.drop n)
    (c, n :: ns)
termination_by bytes.length
decreasing_by
  simp only [not_or, List.isEmpty_iff, ← List.length_eq_zero_iff, List.length_drop] at _h
  simp only [List.length_drop]
  omega

/-- Offers each piece of a stream once; answers each take. -/
def recvChunks (c : Connection Loopback σ) (pieces : List (List UInt8)) :
    Connection Loopback σ × List Nat :=
  let (c, takes) := pieces.foldl (fun (c, takes) p => let (c, n) := c.onRecv p; (c, takes.push n)) (c, #[])
  (c, takes.toList)

/-- The transport's record. -/
def wire (c : Connection Loopback σ) : Loopback := c.world.link.transport

/-- Changes the transport's record. -/
def mapWire (c : Connection Loopback σ) (f : Loopback → Loopback) : Connection Loopback σ :=
  c.mapLink fun l => { l with transport := f l.transport }

/-- The peer acknowledges `len` bytes. -/
def acknowledge (c : Connection Loopback σ) (len : Nat) : Connection Loopback σ :=
  (mapWire c (·.acknowledge len)).onSent len

/-- Acknowledges everything unacknowledged, again while sending goes on, for at most `fuel`
rounds; answers the total acknowledged. -/
def ackAllFor : Nat → Connection Loopback σ → Connection Loopback σ × Nat
  | 0, c => (c, 0)
  | fuel + 1, c =>
    let u := (wire c).unacked
    if u = 0 then (c, 0)
    else
      let (c, total) := ackAllFor fuel (acknowledge c u)
      (c, u + total)

/-- Acknowledges everything, again while sending goes on; answers the total acknowledged. -/
def ackAll (c : Connection Loopback σ) : Connection Loopback σ × Nat := ackAllFor roundLimit c

/-- Delivers `data` in pieces of at most `chunk` bytes (at least one), acknowledging everything
after each piece, until all is taken or three rounds in a row take and acknowledge nothing; then
acknowledges once more. Answers how many bytes were not taken. -/
def pumpFor : Nat → Connection Loopback σ → List UInt8 → Nat → Nat → Connection Loopback σ × Nat
  | 0, c, data, _, _ => (c, data.length)
  | fuel + 1, c, data, chunk, idle =>
    if data.isEmpty || idle ≥ 3 then (c, data.length)
    else
      let (c, taken) := c.onRecv (data.take (max chunk 1))
      let (c, acked) := ackAll c
      let idle := if taken = 0 && acked = 0 then idle + 1 else 0
      pumpFor fuel c (data.drop taken) chunk idle

/-- Delivers `data` in pieces of at most `chunk` bytes (at least one) with acknowledgements
between them. -/
def pump (c : Connection Loopback σ) (data : List UInt8) (chunk : Nat) : Connection Loopback σ × Nat :=
  let (c, left) := pumpFor roundLimit c data chunk 0
  ((ackAll c).1, left)

/-- What the peer does next while it streams bytes to the connection: offers the next `n` of them,
acknowledges `len` sent bytes, lets a poll tick pass, closes the connection, or fails. -/
inductive Move where
  | send (n : Nat)
  | ack (len : Nat)
  | poll
  | close
  | fail (e : NetError)
  deriving DecidableEq, Repr

/-- Plays a move on a connection that has taken the first `taken` bytes of `input`; answers the
connection and how many bytes of the input it has taken then. -/
def move (input : List UInt8) (state : Connection Loopback σ × Nat) : Move → Connection Loopback σ × Nat
  | .send n =>
    let (c, k) := state.1.onRecv ((input.drop state.2).take n)
    (c, state.2 + k)
  | .ack len => (acknowledge state.1 len, state.2)
  | .poll => (state.1.onPoll, state.2)
  | .close => (state.1.onClosed, state.2)
  | .fail e => (state.1.onError e, state.2)

/-- Plays the moves in order on a connection that has taken none of `input`. -/
def play (input : List UInt8) (c : Connection Loopback σ) (moves : List Move) :
    Connection Loopback σ × Nat :=
  moves.foldl (move input) (c, 0)

end Peer

end WebSocketCore
