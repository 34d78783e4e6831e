import WebSocketCore.Ring.Basic
import WebSocketCore.Transport
import WebSocketCore.Error

/-! # Appending to the ring and sending its regions

A sealed region is handed to the transport as soon as the transport's window can take all of
it; until then nothing else is appended. `append` copies what fits into the open region (opening
one first if needed), seals it when it is due, and tries to send it at once. `finish` seals the
open region and sends it, so that everything appended so far is on its way.

Every operation answers its result together with the ring and the transport after it: a failed
send is an error, but what happened before it stays done.
-/

namespace WebSocketCore

/-- What an operation on the ring answered, and the ring and the transport after it. -/
structure RingOutcome (τ α : Type) where
  result : Except NetError α
  ring : FrameRing
  transport : τ

namespace FrameRing

variable {τ : Type} [Transport τ]

/-- The pending region as a slice of the buffer. -/
def pendingSlice (r : FrameRing) (p : PendingRegion) : Slice := ⟨r.buf, p.start, p.stop⟩

/-- Hands the pending region to the transport. Answers whether nothing is pending any more
(`false` when the window is too small for the region), with the ring and the transport after
it; a refused send is a `writeError` and leaves the region pending. -/
def sendPending (r : FrameRing) (t : τ) : Except NetError Bool × FrameRing × τ :=
  match r.pending with
  | none => (.ok true, r, t)
  | some p =>
    let len := p.stop - p.start
    if Transport.sendCapacity t < len then (.ok false, r, t)
    else match Transport.send t (r.pendingSlice p) p.more with
      | (t, false) => (.error .writeError, r, t)
      | (t, true) => (.ok true, { r with pending := none, inFlight := r.inFlight + len }, t)

/-- Sends the pending region and goes on with `k`, or stops with `stalled` when the window is
too small. -/
def thenSend {α : Type} (r : FrameRing) (t : τ) (stalled : α)
    (k : FrameRing → τ → RingOutcome τ α) : RingOutcome τ α :=
  match r.sendPending t with
  | (.error e, r, t) => ⟨.error e, r, t⟩
  | (.ok false, r, t) => ⟨.ok stalled, r, t⟩
  | (.ok true, r, t) => k r t

/-- Copies bytes into the open region `o`, seals it when due, and sends it. -/
def fillOpen (r : FrameRing) (t : τ) (o : OpenRegion) (bytes : List UInt8) :
    RingOutcome τ Append :=
  let (r, take) := r.fill o bytes
  if r.dueToSeal o then
    let r := r.sealOpen (take < bytes.length)
    r.thenSend t (.took take) fun r t => ⟨.ok (.took take), r, t⟩
  else ⟨.ok (.took take), r, t⟩

/-- Copies bytes into the open region, or into a region opened for them after a drained ring
starts over at offset 0; waits for acknowledgements (`ack`) when no region can open. -/
def place (r : FrameRing) (t : τ) (framing : Framing) (bytes : List UInt8) :
    RingOutcome τ Append :=
  match r.openRegion with
  | some o => r.fillOpen t o bytes
  | none =>
    let r := r.rewind
    match r.openRegion? framing with
    | none => ⟨.ok (.blocked .ack), r, t⟩
    | some r =>
      match r.openRegion with
      | some o => r.fillOpen t o bytes
      | none => ⟨.ok (.blocked .ack), r, t⟩

/-- Appends bytes to be framed with `framing`. Takes none when the pending region cannot be
sent (`sendBuf`) or no region can open (`ack`), and otherwise at least one byte. -/
def append (r : FrameRing) (t : τ) (framing : Framing) (bytes : List UInt8) :
    RingOutcome τ Append :=
  if bytes.isEmpty then ⟨.ok (.took 0), r, t⟩
  else
    r.thenSend t (.blocked .sendBuf) fun r t =>
      (r.sealOther framing).thenSend t (.blocked .sendBuf) fun r t => r.place t framing bytes

/-- Seals the open region and sends it. Answers the reason to wait when the window is too small
for a pending region. -/
def finish (r : FrameRing) (t : τ) : RingOutcome τ (Option WaitReason) :=
  r.thenSend t (some .sendBuf) fun r t =>
    (r.sealOpen false).thenSend t (some .sendBuf) fun r t => ⟨.ok none, r, t⟩

end FrameRing

end WebSocketCore
