import WebSocketCore.Frame.Header
import WebSocketCore.WaitReason

/-! # The outgoing frame ring

Outgoing bytes are framed in place in a ring buffer of fixed size. A region is opened with four
bytes reserved in front of its payload; when it is sealed, the frame header is written
right-aligned into the reserve, and the region, header and payload, becomes one contiguous slice
that is handed to the transport in one send. A FIFO of markers, one per sealed region and one per
jump back to offset 0, tells acknowledgements how far the tail may move.

This module holds the state and the moves that need no transport: opening, filling and sealing
a region, and dropping jump markers.
-/

namespace WebSocketCore

/-- How many markers the ring can hold. -/
def markerSlots : Nat := 64

/-- Bytes reserved in front of every payload for its header. -/
def headerReserve : Nat := 4

/-- The smallest room in which a region may open: the reserve and one payload byte. -/
def minRegion : Nat := headerReserve + 1

/-- A marker records a sealed region, or the ring's jump back to offset 0. -/
structure Marker where
  /-- A jump back to offset 0. -/
  wrap : Bool
  /-- Unused reserve bytes in front of the region's header. -/
  scratch : Nat
  /-- Bytes of the region not yet acknowledged. -/
  len : Nat
  deriving DecidableEq, Repr, Inhabited

/-- The marker of a jump back to offset 0. -/
def Marker.jump : Marker := ⟨true, 0, 0⟩

/-- The region being filled: where its reserve begins, where its payload begins, and how its
bytes will be framed. -/
structure OpenRegion where
  start : Nat
  payloadStart : Nat
  framing : Framing
  deriving DecidableEq, Repr, Inhabited

/-- A sealed region not yet handed to the transport. -/
structure PendingRegion where
  start : Nat
  stop : Nat
  /-- The message goes on after this region. -/
  more : Bool
  deriving DecidableEq, Repr, Inhabited

/-- The answer of an append. -/
inductive Append where
  /-- This many bytes were taken. -/
  | took (n : Nat)
  /-- Nothing was taken; the caller must wait. -/
  | blocked (reason : WaitReason)
  deriving DecidableEq, Repr, Inhabited

/-- Writes bytes into an array from position `i` on; positions past the end are left out. -/
def writeAt (buf : Array UInt8) : Nat → List UInt8 → Array UInt8
  | _, [] => buf
  | i, b :: bs => writeAt (buf.setIfInBounds i b) (i + 1) bs

/-- A ring of `size` bytes holding outgoing frames. -/
structure FrameRing where
  size : Nat
  buf : Array UInt8
  /-- Where the next byte goes. -/
  head : Nat
  /-- The first byte not yet acknowledged. -/
  tail : Nat
  /-- Sealed regions and jumps, oldest first. -/
  markers : List Marker
  openRegion : Option OpenRegion
  pending : Option PendingRegion
  /-- Bytes sent and not yet acknowledged. -/
  inFlight : Nat
  maxPayload : Nat
  sendThreshold : Nat
  deriving Repr, Inhabited

namespace FrameRing

/-- An empty ring of `size` bytes. -/
def new (size maxPayload sendThreshold : Nat) : FrameRing :=
  ⟨size, Array.replicate size 0, 0, 0, [], none, none, 0, maxPayload, sendThreshold⟩

/-- Forgets every region and acknowledgement, keeping the buffer and the limits. -/
def clear (r : FrameRing) : FrameRing :=
  { r with head := 0, tail := 0, markers := [], openRegion := none, pending := none, inFlight := 0 }

/-- No region is open, pending or waiting for acknowledgement. -/
def isDrained (r : FrameRing) : Bool :=
  r.openRegion.isNone && r.pending.isNone && r.markers.isEmpty

/-- Drained, with head and tail together. -/
def isEmpty (r : FrameRing) : Bool := r.isDrained && r.head == r.tail

/-- Free bytes from the head on before the end of the buffer or the byte before the tail. -/
def contiguousRoom (r : FrameRing) : Nat :=
  if r.head ≥ r.tail then r.size - r.head else r.tail - r.head - 1

/-- Drops the jump markers at the front, each moving the tail to offset 0. -/
def dropJumps : List Marker → Nat → List Marker × Nat
  | m :: ms, tail => if m.wrap then dropJumps ms 0 else (m :: ms, tail)
  | [], tail => ([], tail)

/-- Drops the jump markers at the front; an empty ring then starts over at offset 0. -/
def skipWraps (r : FrameRing) : FrameRing :=
  let (markers, tail) := dropJumps r.markers r.tail
  let r := { r with markers, tail }
  if r.isEmpty then { r with head := 0, tail := 0 } else r

/-- A drained ring starts over at offset 0. -/
def rewind (r : FrameRing) : FrameRing :=
  if r.isDrained then { r with head := 0, tail := 0 } else r

/-- Opens a region at the head, with the reserve in front of its payload. -/
def beginAt (r : FrameRing) (framing : Framing) : FrameRing :=
  { r with
    openRegion := some ⟨r.head, r.head + headerReserve, framing⟩
    head := r.head + headerReserve }

/-- Opens a region if there is room for one: two marker slots (for the region and a possible
jump) and `minRegion` contiguous bytes, at the head or, after a jump, at offset 0. -/
def openRegion? (r : FrameRing) (framing : Framing) : Option FrameRing :=
  if r.markers.length + 2 > markerSlots then none
  else if r.head ≥ r.tail then
    if r.size - r.head < minRegion then
      if r.tail ≤ minRegion then none
      else some ({ r with markers := r.markers ++ [Marker.jump], head := 0 }.beginAt framing)
    else some (r.beginAt framing)
  else if r.tail - r.head - 1 < minRegion then none
  else some (r.beginAt framing)

/-- Payload bytes in the open region. -/
def filled (r : FrameRing) (o : OpenRegion) : Nat := r.head - o.payloadStart

/-- Copies as many bytes as fit into the open region `o`: no more than the contiguous room and
the payload limit allow. Answers the ring and how many bytes were taken. -/
def fill (r : FrameRing) (o : OpenRegion) (bytes : List UInt8) : FrameRing × Nat :=
  let take := min bytes.length (min r.contiguousRoom (r.maxPayload - r.filled o))
  ({ r with buf := writeAt r.buf r.head (bytes.take take), head := r.head + take }, take)

/-- An open region is sealed once its payload reaches the send threshold or the payload limit,
or when the room after it is too small for another region. -/
def dueToSeal (r : FrameRing) (o : OpenRegion) : Bool :=
  r.filled o ≥ r.sendThreshold || r.filled o ≥ r.maxPayload || r.contiguousRoom < minRegion

/-- The header written in front of a sealed payload of `len` bytes. -/
def headerFor (framing : Framing) (len : Nat) : List UInt8 :=
  match framing with
  | .raw => []
  | .frame op => (FrameHeader.server op len).encode

/-- Adds a marker at the back, if a slot is free. -/
def pushMarker (r : FrameRing) (m : Marker) : FrameRing :=
  if r.markers.length < markerSlots then { r with markers := r.markers ++ [m] } else r

/-- Seals the open region: an empty one is given back; otherwise its header is written into the
reserve and the region becomes pending, with a marker for it. `more` says that the message goes
on after it. -/
def sealOpen (r : FrameRing) (more : Bool) : FrameRing :=
  match r.openRegion with
  | none => r
  | some o =>
    let r := { r with openRegion := none }
    let len := r.head - o.payloadStart
    let header := headerFor o.framing len
    if len = 0 ∨ o.payloadStart - o.start < header.length then
      { r with head := o.start }.skipWraps
    else
      let start := o.payloadStart - header.length
      let r := { r with buf := writeAt r.buf start header }
      { r.pushMarker ⟨false, start - o.start, r.head - start⟩ with
        pending := some ⟨start, r.head, more⟩ }

/-- Seals the open region if it is framed otherwise than `framing`. -/
def sealOther (r : FrameRing) (framing : Framing) : FrameRing :=
  match r.openRegion with
  | some o => if o.framing = framing then r else r.sealOpen false
  | none => r

end FrameRing

end WebSocketCore
