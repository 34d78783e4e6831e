import WebSocketCore.Ring.Basic

/-! # Acknowledgements

An acknowledgement of `len` bytes credits at most the bytes in flight. The credit moves the
tail over the markers in order: over a region's unused reserve and then its bytes, over a jump
to offset 0, and a marker whose bytes are all credited is dropped. What the credit cannot cover,
and what exceeds the bytes in flight, is answered as excess.
-/

namespace WebSocketCore

namespace FrameRing

/-- Moves the tail over `left` credited bytes of the markers: answers the markers left, the new
tail and the credit not used. -/
def reclaim (tail left : Nat) : List Marker → List Marker × Nat × Nat
  | [] => ([], tail, left)
  | m :: ms =>
    if m.wrap then reclaim 0 left ms
    else if left = 0 then (m :: ms, tail, 0)
    else if left < m.len then ({ m with scratch := 0, len := m.len - left } :: ms, tail + m.scratch + left, 0)
    else reclaim (tail + m.scratch + m.len) (left - m.len) ms

/-- Credits an acknowledgement of `len` bytes; answers the ring and the excess. -/
def onAck (r : FrameRing) (len : Nat) : FrameRing × Nat :=
  let credited := min len r.inFlight
  let r := { r with inFlight := r.inFlight - credited }.skipWraps
  let (markers, tail, left) := reclaim r.tail credited r.markers
  ({ r with markers, tail }.skipWraps, len - credited + left)

end FrameRing

end WebSocketCore
