import WebSocketCore.Ring.Append
import WebSocketCore.Ring.Ack

/-! # Observed runs of a frame ring

A run plays ring operations one after another and keeps what an observer of the ring sees: the
slices the transport took, in order and with their `more` flags; whether it refused one; the
bytes each append took, tagged with the framing they were appended under; the total that
acknowledgements credited against the bytes in flight; and whether `finish` has answered that
nothing is left to send since the last append.

An append or a finish runs against a transport in whatever state the operation names, so a run
covers every behaviour of the transport below: its window may change between operations, and
whether it takes a slice is its own affair. The slices it takes are recorded by wrapping it.
-/

namespace WebSocketCore

/-- A transport wrapped so that every slice it takes is kept, oldest first, and a refused send
is remembered. -/
structure Recorded (τ : Type) where
  inner : τ
  lent : List (Slice × Bool)
  refused : Bool

instance {τ : Type} [Transport τ] : Transport (Recorded τ) where
  sendCapacity t := Transport.sendCapacity t.inner
  send t s more :=
    let (inner, ok) := Transport.send t.inner s more
    (⟨inner, if ok then t.lent ++ [(s, more)] else t.lent, t.refused || !ok⟩, ok)
  recved t n := { t with inner := Transport.recved t.inner n }
  close t := let (inner, ok) := Transport.close t.inner; ({ t with inner }, ok)

namespace Recorded

variable {τ : Type} [Transport τ]

@[simp] theorem sendCapacity_eq (t : Recorded τ) :
    Transport.sendCapacity t = Transport.sendCapacity t.inner := rfl

/-- A slice the inner transport takes is kept; one it refuses is not, and is remembered. -/
@[simp] theorem send_eq (t : Recorded τ) (s : Slice) (more : Bool) :
    Transport.send t s more =
      (⟨(Transport.send t.inner s more).1,
        if (Transport.send t.inner s more).2 then t.lent ++ [(s, more)] else t.lent,
        t.refused || !(Transport.send t.inner s more).2⟩,
        (Transport.send t.inner s more).2) := rfl

end Recorded

/-- One operation on a ring; appends and finishes name the transport they run against. -/
inductive RingOp (τ : Type) where
  | append (t : τ) (framing : Framing) (bytes : List UInt8)
  | finish (t : τ)
  /-- The transport acknowledges `len` bytes. -/
  | ack (len : Nat)
  | rewind

/-- The bytes an append took, each tagged with the framing it was appended under: the first `n`
when it answered `took n`, and none otherwise. -/
def Append.taken (result : Except NetError Append) (framing : Framing) (bytes : List UInt8) :
    List (Framing × UInt8) :=
  match result with
  | .ok (.took n) => (bytes.take n).map (framing, ·)
  | _ => []

/-- A ring together with what has been observed of it. -/
structure RingRun where
  ring : FrameRing
  /-- Every slice the transport took, oldest first, with its `more` flag. -/
  lent : List (Slice × Bool)
  /-- The transport refused a send. -/
  refused : Bool
  /-- The bytes appends took, oldest first, each with its framing. -/
  accepted : List (Framing × UInt8)
  /-- Acknowledged bytes credited against bytes in flight. -/
  credited : Nat
  /-- `finish` has answered that nothing is left to send, and nothing was appended since. -/
  flushed : Bool

namespace RingRun

variable {τ : Type} [Transport τ]

/-- A run that has observed nothing yet. -/
def start (r : FrameRing) : RingRun := ⟨r, [], false, [], 0, false⟩

/-- Plays one operation. -/
def step (s : RingRun) : RingOp τ → RingRun
  | .append t framing bytes =>
    let o := s.ring.append (⟨t, s.lent, false⟩ : Recorded τ) framing bytes
    { s with ring := o.ring, lent := o.transport.lent, refused := s.refused || o.transport.refused,
             accepted := s.accepted ++ Append.taken o.result framing bytes, flushed := false }
  | .finish t =>
    let o := s.ring.finish (⟨t, s.lent, false⟩ : Recorded τ)
    { s with ring := o.ring, lent := o.transport.lent, refused := s.refused || o.transport.refused,
             flushed := match o.result with | .ok none => true | _ => false }
  | .ack len =>
    { s with ring := (s.ring.onAck len).1, credited := s.credited + min len s.ring.inFlight }
  | .rewind => { s with ring := s.ring.rewind }

/-- Plays operations in order. -/
def run (s : RingRun) (ops : List (RingOp τ)) : RingRun := ops.foldl step s

end RingRun

end WebSocketCore
