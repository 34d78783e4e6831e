import Mathlib
import WebSocketCore.Proofs.Ring.Progress

/-! # Sealing never fails

Sealing a region with payload has two ways to go wrong: the frame header may not fit the four
bytes reserved in front of the payload, and the marker queue may have no slot for the region's
marker. The first would drop the frame and the second would leave a region that acknowledgements
never reach.

Neither happens on a ring a program can reach, at any point inside an append or a finish on it,
as long as the payload limit is a 16-bit number. An open region's payload never exceeds the limit,
so its header takes at most four bytes; and a region opens only with two marker slots free, one
for a jump it may need and one for its own marker, while nothing but a seal adds a marker. So a
seal either gives back an empty region or makes the whole region, header and payload, pending,
with its marker last.
-/

namespace WebSocketCore

namespace RingRun

theorem Move.maxPayload_eq {s s' : RingRun} (move : Move s s') :
    s'.ring.maxPayload = s.ring.maxPayload := by
  cases move with
  | send => rfl
  | sealOpen more => exact FrameRing.sealOpen_maxPayload _ more
  | rewind => exact FrameRing.rewind_maxPayload _
  | openRegion _ _ opened => exact (FrameRing.openRegion?_held opened).2.2.2
  | fill => rfl

/-- The moves inside appends and finishes never change the payload limit. -/
theorem Moves.maxPayload_eq {s s' : RingRun} (moves : Moves s s') :
    s'.ring.maxPayload = s.ring.maxPayload := by
  induction moves with
  | refl => rfl
  | tail _ last ih => rw [last.maxPayload_eq, ih]

end RingRun

namespace FrameRing

/-- The header of an open region's payload fits the reserve right before the payload, when the
payload limit is a 16-bit number. -/
theorem Inv.header_fits_reserve {r : FrameRing} (inv : r.Inv) (short : r.maxPayload ≤ 0xFFFF)
    {o : OpenRegion} (opened : r.openRegion = some o) :
    o.payloadStart = o.start + headerReserve ∧
      (headerFor o.framing (r.filled o)).length ≤ headerReserve := by
  obtain ⟨reserve, -, limit⟩ := inv.open_ok o opened
  exact ⟨reserve, length_headerFor_le o.framing (r.filled o) (by simp only [filled]; omega)⟩

/-- Sealing an open region gives back an empty one, and makes one with payload pending whole:
from the first byte of its header, written right-aligned into the reserve, to the head, with its
marker last. -/
theorem Inv.sealOpen_empty_or_whole {r : FrameRing} (inv : r.Inv) (short : r.maxPayload ≤ 0xFFFF)
    {o : OpenRegion} (opened : r.openRegion = some o) (more : Bool) :
    (r.filled o = 0 ∧ r.sealOpen more = { r with openRegion := none, head := o.start }.skipWraps) ∨
      (0 < r.filled o ∧
        (r.sealOpen more).pending =
          some ⟨o.payloadStart - (headerFor o.framing (r.filled o)).length, r.head, more⟩ ∧
        (r.sealOpen more).markers = r.markers ++
          [⟨false, o.payloadStart - (headerFor o.framing (r.filled o)).length - o.start,
            r.head - (o.payloadStart - (headerFor o.framing (r.filled o)).length)⟩]) := by
  obtain ⟨reserve, fits⟩ := inv.header_fits_reserve short opened
  by_cases empty : r.filled o = 0
  · exact .inl ⟨empty, sealOpen_dropped opened more (.inl empty)⟩
  · right
    rw [sealOpen_sealed opened more (inv.marker_slot_free opened) empty
      (by unfold filled at fits; omega)]
    exact ⟨Nat.pos_of_ne_zero empty, rfl, rfl⟩

/-- On every ring a program reaches, a seal inside an append or a finish never fails. -/
theorem Reachable.seal_never_fails {r : FrameRing} (reach : r.Reachable) (short : r.maxPayload ≤ 0xFFFF)
    {s : RingRun} (inside : RingRun.Moves (RingRun.start r) s) {o : OpenRegion}
    (opened : s.ring.openRegion = some o) (more : Bool) :
    (o.payloadStart = o.start + headerReserve ∧
      (headerFor o.framing (s.ring.filled o)).length ≤ headerReserve) ∧
    s.ring.markers.length < markerSlots ∧
    ((s.ring.filled o = 0 ∧
        s.ring.sealOpen more = { s.ring with openRegion := none, head := o.start }.skipWraps) ∨
      (0 < s.ring.filled o ∧
        (s.ring.sealOpen more).pending =
          some ⟨o.payloadStart - (headerFor o.framing (s.ring.filled o)).length, s.ring.head, more⟩ ∧
        (s.ring.sealOpen more).markers = s.ring.markers ++
          [⟨false, o.payloadStart - (headerFor o.framing (s.ring.filled o)).length - o.start,
            s.ring.head - (o.payloadStart - (headerFor o.framing (s.ring.filled o)).length)⟩])) := by
  have inv : s.ring.Inv := inside.inv reach.inv
  have limit : s.ring.maxPayload ≤ 0xFFFF := by rw [inside.maxPayload_eq]; exact short
  exact ⟨inv.header_fits_reserve limit opened, inv.marker_slot_free opened,
    inv.sealOpen_empty_or_whole limit opened more⟩

/-- Three text bytes on a new ring wait open, and a seal makes them pending whole. -/
theorem three_text_bytes_seal_whole :
    ((FrameRing.new 32 1024 8).append ({ capacity := 64 } : Loopback) (.frame .text)
        [1, 2, 3]).ring.Reachable ∧
      ((FrameRing.new 32 1024 8).append ({ capacity := 64 } : Loopback) (.frame .text)
        [1, 2, 3]).ring.maxPayload ≤ 0xFFFF ∧
      ((FrameRing.new 32 1024 8).append ({ capacity := 64 } : Loopback) (.frame .text)
        [1, 2, 3]).ring.openRegion = some ⟨0, 4, .frame .text⟩ ∧
      (((FrameRing.new 32 1024 8).append ({ capacity := 64 } : Loopback) (.frame .text)
        [1, 2, 3]).ring.sealOpen false).pending = some ⟨2, 7, false⟩ ∧
      (((FrameRing.new 32 1024 8).append ({ capacity := 64 } : Loopback) (.frame .text)
        [1, 2, 3]).ring.sealOpen false).markers = [⟨false, 2, 5⟩] := by
  have reach : ((FrameRing.new 32 1024 8).append ({ capacity := 64 } : Loopback) (.frame .text)
      [1, 2, 3]).ring.Reachable := .append _ _ _ (.new 32 1024 8)
  have opened : ((FrameRing.new 32 1024 8).append ({ capacity := 64 } : Loopback) (.frame .text)
      [1, 2, 3]).ring.openRegion = some ⟨0, 4, .frame .text⟩ := rfl
  obtain ⟨-, -, ⟨empty, -⟩ | ⟨-, pending, markers⟩⟩ :=
    Reachable.seal_never_fails reach (by decide) .refl opened false
  · cases empty
  · exact ⟨reach, by decide, opened, pending, markers⟩

end FrameRing

end WebSocketCore
