import WebSocketCore.Proofs.Ring.Layout
import WebSocketCore.Proofs.Ring.Moves
import WebSocketCore.Simulation.Loopback

/-! # The frame ring's representation invariant

A ring's state is its two cursors, the marker queue, the open region, the pending region and the
count of bytes in flight. The invariant ties them together: laid out from the tail, the markers
end where the next region starts; a jump marker is never first, there is at most one, and there
is one exactly when the head is behind the tail; a pending region is the last marker's; the bytes
in flight are the unacknowledged bytes of the regions already sent; and the cursors meet only on
a drained ring, which sits at offset 0.

Every move inside an append or a finish keeps the invariant, and so does an acknowledgement, whose
walk over the markers then spends exactly the credited bytes: the excess it answers is what the
bytes in flight did not cover. So the invariant holds of every ring that starts cleared, whatever
operations follow and whatever the transport does.
-/

namespace WebSocketCore

namespace FrameRing

/-- Where the next region starts: the open region's start, or the head when none is open. -/
def frontier (r : FrameRing) : Nat :=
  match r.openRegion with
  | some o => o.start
  | none => r.head

@[simp] theorem frontier_of_open {r : FrameRing} {o : OpenRegion} (opened : r.openRegion = some o) :
    r.frontier = o.start := by
  simp [frontier, opened]

@[simp] theorem frontier_of_closed {r : FrameRing} (closed : r.openRegion = none) :
    r.frontier = r.head := by
  simp [frontier, closed]

/-- The markers of the regions the transport has taken: all but the pending region's. -/
def sentMarkers (r : FrameRing) : List Marker :=
  if r.pending.isSome then r.markers.dropLast else r.markers

/-- Everything the representation invariant says except that a drained ring sits at offset 0:
the shape a ring has between a move and the reset that may follow it. -/
structure Shape (r : FrameRing) : Prop where
  /-- Both cursors lie in the buffer. -/
  head_le : r.head ≤ r.size
  tail_le : r.tail ≤ r.size
  /-- Every place the layout passes lies in the buffer. -/
  points_le : ∀ k, layoutEnd r.tail (r.markers.take k) ≤ r.size
  /-- Laid out from the tail, the markers end where the next region starts. -/
  layout : layoutEnd r.tail r.markers = r.frontier
  /-- The front marker is never a jump. -/
  front : ∀ m, r.markers.head? = some m → m.wrap = false
  /-- There is at most one jump, and there is one exactly when the head is behind the tail. -/
  wraps_le_one : r.markers.countP (·.wrap) ≤ 1
  wrapped_iff : 0 < r.markers.countP (·.wrap) ↔ r.head < r.tail
  /-- A jump is the jump marker. -/
  jump_eq : ∀ m ∈ r.markers, m.wrap = true → m = Marker.jump
  /-- A region's marker has an unacknowledged byte and at most a header reserve of scratch. -/
  region_ok : ∀ m ∈ r.markers, m.wrap = false → 1 ≤ m.len ∧ m.scratch ≤ headerReserve
  /-- A pending region is the last marker's region. -/
  pending_last : ∀ p, r.pending = some p → ∃ ms m, r.markers = ms ++ [m] ∧ m.wrap = false ∧
    layoutEnd r.tail ms + m.scratch = p.start ∧ p.start + m.len = p.stop
  /-- The bytes in flight are the unacknowledged bytes of the regions already sent. -/
  inFlight_eq : r.inFlight = (r.sentMarkers.map (·.len)).sum
  /-- The cursors meet only on a drained ring. -/
  drained_of_eq : r.head = r.tail → r.isDrained = true
  /-- The open region's payload follows its reserve and stays within the payload limit. -/
  open_ok : ∀ o, r.openRegion = some o →
    o.payloadStart = o.start + headerReserve ∧ o.payloadStart ≤ r.head ∧
      r.head - o.payloadStart ≤ r.maxPayload
  /-- No region is open while one is pending. -/
  pending_closed : r.pending.isSome → r.openRegion = none
  /-- The markers, with a slot kept for the open region's, fit the marker slots. -/
  slots : r.markers.length + (if r.openRegion.isSome then 1 else 0) ≤ markerSlots

/-- The representation invariant of a frame ring. -/
structure Inv (r : FrameRing) : Prop extends r.Shape where
  /-- A drained ring has both cursors at offset 0. -/
  zero_of_drained : r.isDrained = true → r.head = 0 ∧ r.tail = 0

theorem isDrained_iff (r : FrameRing) :
    r.isDrained = true ↔ r.openRegion = none ∧ r.pending = none ∧ r.markers = [] := by
  simp [isDrained, Option.isNone_iff_eq_none, List.isEmpty_iff, and_assoc]

/-- A ring holding nothing, with both cursors at offset 0, keeps the invariant. -/
theorem inv_of_empty (r : FrameRing) (atStart : r.head = 0 ∧ r.tail = 0)
    (closed : r.openRegion = none) (idle : r.pending = none) (empty : r.markers = [])
    (quiet : r.inFlight = 0) : r.Inv where
  head_le := by omega
  tail_le := by omega
  points_le := by simp [empty, atStart.2]
  layout := by simp [empty, frontier, closed, atStart]
  front := by simp [empty]
  wraps_le_one := by simp [empty]
  wrapped_iff := by simp [empty, atStart]
  jump_eq := by simp [empty]
  region_ok := by simp [empty]
  pending_last := by simp [idle]
  inFlight_eq := by simp [sentMarkers, idle, empty, quiet]
  drained_of_eq := fun _ => (isDrained_iff r).mpr ⟨closed, idle, empty⟩
  open_ok := by simp [closed]
  pending_closed := fun _ => closed
  slots := by simp [empty, closed, markerSlots]
  zero_of_drained := fun _ => atStart

/-- A cleared ring keeps the invariant. -/
theorem clear_inv (r : FrameRing) : r.clear.Inv :=
  inv_of_empty r.clear ⟨rfl, rfl⟩ rfl rfl rfl rfl

/-- The next region starts at or before the head when an open region's payload starts after its
reserve and before the head. -/
theorem frontier_le_head_of_open {r : FrameRing}
    (open_ok : ∀ o, r.openRegion = some o → o.payloadStart = o.start + headerReserve ∧
      o.payloadStart ≤ r.head) : r.frontier ≤ r.head := by
  unfold frontier
  split
  · rename_i o opened
    have := open_ok o opened
    omega
  · exact Nat.le_refl _

/-- The next region starts at or before the head. -/
theorem frontier_le_head {r : FrameRing} (shape : r.Shape) : r.frontier ≤ r.head :=
  frontier_le_head_of_open fun o opened => ⟨(shape.open_ok o opened).1, (shape.open_ok o opened).2.1⟩

/-- Markers with a jump only when the head is behind the tail have none when it is not. -/
theorem plain_of_behind {ms : List Marker} {head tail : Nat}
    (wrapped : 0 < ms.countP (·.wrap) → head < tail) (behind : tail ≤ head) :
    ms.countP (·.wrap) = 0 :=
  Nat.eq_zero_of_not_pos fun jumped => absurd (wrapped jumped) (by omega)

theorem noJump_of_plain {ms : List Marker} (plain : ms.countP (·.wrap) = 0) :
    ∀ m ∈ ms, m.wrap = false := fun m member => by
  simpa using List.countP_eq_zero.mp plain m member

/-- Without a jump, the tail is at or before the next region's start. -/
theorem tail_le_frontier {r : FrameRing} (shape : r.Shape) (plain : r.markers.countP (·.wrap) = 0) :
    r.tail ≤ r.frontier := by
  rw [← shape.layout]
  exact le_layoutEnd _ _ (noJump_of_plain plain)

/-- Cursors that meet belong to a drained ring: a region's marker, an open region or a jump all
keep the head off the tail. -/
theorem drained_of_head_eq_tail (r : FrameRing)
    (layout : layoutEnd r.tail r.markers = r.frontier)
    (front : ∀ m, r.markers.head? = some m → m.wrap = false)
    (region_ok : ∀ m ∈ r.markers, m.wrap = false → 1 ≤ m.len ∧ m.scratch ≤ headerReserve)
    (wrapped : 0 < r.markers.countP (·.wrap) → r.head < r.tail)
    (open_ok : ∀ o, r.openRegion = some o → o.payloadStart = o.start + headerReserve ∧
      o.payloadStart ≤ r.head)
    (pending_held : r.pending.isSome → r.markers ≠ [])
    (meet : r.head = r.tail) : r.isDrained = true := by
  have noJump := noJump_of_plain (plain_of_behind wrapped (Nat.le_of_eq meet.symm))
  have headAtFrontier := frontier_le_head_of_open open_ok
  have empty : r.markers = [] := by
    cases held : r.markers with
    | nil => rfl
    | cons m ms =>
      rw [held] at layout noJump front
      have byte := (region_ok m (by simp [held]) (front m rfl)).1
      have past := lt_layoutEnd r.tail m ms noJump byte
      omega
  have closed : r.openRegion = none := by
    cases opened : r.openRegion with
    | none => rfl
    | some o =>
      have shape := open_ok o opened
      rw [frontier_of_open opened, empty, layoutEnd_nil] at layout
      simp only [headerReserve] at shape
      omega
  have idle : r.pending = none := by
    cases pending : r.pending with
    | none => rfl
    | some p => exact absurd empty (pending_held (by simp [pending]))
  exact (isDrained_iff r).mpr ⟨closed, idle, empty⟩

/-- With no jump in front, dropping jumps only moves an empty ring back to offset 0. -/
theorem skipWraps_of_front (r : FrameRing) (front : ∀ m, r.markers.head? = some m → m.wrap = false) :
    r.skipWraps = if r.isEmpty then { r with head := 0, tail := 0 } else r := by
  unfold skipWraps
  rw [dropJumps_of_front r.markers r.tail front]

/-- A ring whose front is no jump and that is drained only at offset 0 is unchanged by dropping
jumps. -/
theorem skipWraps_eq_self (r : FrameRing) (front : ∀ m, r.markers.head? = some m → m.wrap = false)
    (zero : r.isDrained = true → r.head = 0 ∧ r.tail = 0) : r.skipWraps = r := by
  rw [skipWraps_of_front r front]
  split
  · rename_i empty
    simp only [isEmpty, Bool.and_eq_true] at empty
    obtain ⟨head, tail⟩ := zero empty.1
    cases r
    simp_all
  · rfl

/-- Dropping jumps completes a shaped ring into one that keeps the invariant: a drained ring is
moved back to offset 0. -/
theorem Shape.skipWraps_inv {r : FrameRing} (shape : r.Shape) : r.skipWraps.Inv := by
  rw [skipWraps_of_front r shape.front]
  split
  · rename_i empty
    simp only [isEmpty, Bool.and_eq_true] at empty
    obtain ⟨closed, idle, noMarkers⟩ := (isDrained_iff r).mp empty.1
    have quiet : r.inFlight = 0 := by simpa [sentMarkers, idle, noMarkers] using shape.inFlight_eq
    exact inv_of_empty _ ⟨rfl, rfl⟩ closed idle noMarkers quiet
  · rename_i notEmpty
    refine { shape with zero_of_drained := fun drained => ?_ }
    obtain ⟨closed, _, noMarkers⟩ := (isDrained_iff r).mp drained
    have meet : r.tail = r.head := by simpa [noMarkers, frontier, closed] using shape.layout
    simp [isEmpty, drained, meet] at notEmpty

/-- A drained ring already sits at offset 0, so starting it over changes nothing. -/
theorem Inv.rewind_eq {r : FrameRing} (inv : r.Inv) : r.rewind = r := by
  unfold rewind
  split
  · rename_i drained
    obtain ⟨head, tail⟩ := inv.zero_of_drained drained
    cases r
    simp_all
  · rfl

/-- While a region is open, a marker slot is free for it. -/
theorem Inv.marker_slot_free {r : FrameRing} (inv : r.Inv) {o : OpenRegion}
    (opened : r.openRegion = some o) : r.markers.length < markerSlots := by
  have slots := inv.slots
  simp only [opened, Option.isSome_some, ↓reduceIte] at slots
  omega

/-! ## What each move does -/

/-- Sealing a region with no payload, or whose header does not fit its reserve, gives the region
back: the head returns to the region's start. -/
theorem sealOpen_dropped {r : FrameRing} {o : OpenRegion} (opened : r.openRegion = some o)
    (more : Bool) (dropped : r.head - o.payloadStart = 0 ∨
      o.payloadStart - o.start < (headerFor o.framing (r.head - o.payloadStart)).length) :
    r.sealOpen more = { r with openRegion := none, head := o.start }.skipWraps := by
  simp only [sealOpen, opened]
  rw [if_pos dropped]

/-- Sealing a region with payload writes its header right-aligned into the reserve and makes the
region pending, with its marker last. -/
theorem sealOpen_sealed {r : FrameRing} {o : OpenRegion} (opened : r.openRegion = some o)
    (more : Bool) (room : r.markers.length < markerSlots) (filled : r.head - o.payloadStart ≠ 0)
    (fits : (headerFor o.framing (r.head - o.payloadStart)).length ≤ o.payloadStart - o.start) :
    r.sealOpen more =
      { r with
        openRegion := none
        buf := writeAt r.buf (o.payloadStart - (headerFor o.framing (r.head - o.payloadStart)).length)
          (headerFor o.framing (r.head - o.payloadStart))
        markers := r.markers ++
          [⟨false, o.payloadStart - (headerFor o.framing (r.head - o.payloadStart)).length - o.start,
            r.head - (o.payloadStart - (headerFor o.framing (r.head - o.payloadStart)).length)⟩]
        pending := some ⟨o.payloadStart - (headerFor o.framing (r.head - o.payloadStart)).length,
          r.head, more⟩ } := by
  simp only [sealOpen, opened]
  rw [if_neg (by omega)]
  simp only [pushMarker, room, ↓reduceIte]

theorem fill_eq (r : FrameRing) (o : OpenRegion) (bytes : List UInt8) :
    (r.fill o bytes).1 = { r with buf := writeAt r.buf r.head (bytes.take (r.fill o bytes).2),
                                  head := r.head + (r.fill o bytes).2 } := rfl

@[simp] theorem fill_head (r : FrameRing) (o : OpenRegion) (bytes : List UInt8) :
    (r.fill o bytes).1.head = r.head + (r.fill o bytes).2 := rfl

@[simp] theorem fill_tail (r : FrameRing) (o : OpenRegion) (bytes : List UInt8) :
    (r.fill o bytes).1.tail = r.tail := rfl

@[simp] theorem fill_markers (r : FrameRing) (o : OpenRegion) (bytes : List UInt8) :
    (r.fill o bytes).1.markers = r.markers := rfl

@[simp] theorem fill_size (r : FrameRing) (o : OpenRegion) (bytes : List UInt8) :
    (r.fill o bytes).1.size = r.size := rfl

@[simp] theorem fill_maxPayload (r : FrameRing) (o : OpenRegion) (bytes : List UInt8) :
    (r.fill o bytes).1.maxPayload = r.maxPayload := rfl

@[simp] theorem beginAt_head (r : FrameRing) (framing : Framing) :
    (r.beginAt framing).head = r.head + headerReserve := rfl

@[simp] theorem beginAt_openRegion (r : FrameRing) (framing : Framing) :
    (r.beginAt framing).openRegion = some ⟨r.head, r.head + headerReserve, framing⟩ := rfl

@[simp] theorem beginAt_tail (r : FrameRing) (framing : Framing) :
    (r.beginAt framing).tail = r.tail := rfl

@[simp] theorem beginAt_markers (r : FrameRing) (framing : Framing) :
    (r.beginAt framing).markers = r.markers := rfl

@[simp] theorem beginAt_pending (r : FrameRing) (framing : Framing) :
    (r.beginAt framing).pending = r.pending := rfl

@[simp] theorem beginAt_inFlight (r : FrameRing) (framing : Framing) :
    (r.beginAt framing).inFlight = r.inFlight := rfl

@[simp] theorem beginAt_size (r : FrameRing) (framing : Framing) :
    (r.beginAt framing).size = r.size := rfl

@[simp] theorem beginAt_maxPayload (r : FrameRing) (framing : Framing) :
    (r.beginAt framing).maxPayload = r.maxPayload := rfl

/-- A copy takes no more than the bytes offered, the contiguous room and what the payload limit
leaves. -/
theorem fill_snd_le (r : FrameRing) (o : OpenRegion) (bytes : List UInt8) :
    (r.fill o bytes).2 ≤ bytes.length ∧ (r.fill o bytes).2 ≤ r.contiguousRoom ∧
      (r.fill o bytes).2 ≤ r.maxPayload - r.filled o := by
  simp only [fill]
  omega

theorem contiguousRoom_of_le {r : FrameRing} (behind : r.tail ≤ r.head) :
    r.contiguousRoom = r.size - r.head := by
  simp [contiguousRoom, behind]

theorem contiguousRoom_of_lt {r : FrameRing} (ahead : r.head < r.tail) :
    r.contiguousRoom = r.tail - r.head - 1 := by
  simp [contiguousRoom, show ¬r.tail ≤ r.head by omega]

/-- A region opens at the head when the contiguous room holds one, or at offset 0 behind a jump
when the end of the buffer is too short and the tail leaves room in front; either way two marker
slots are free. -/
theorem openRegion?_cases {r r' : FrameRing} {framing : Framing}
    (opened : r.openRegion? framing = some r') :
    r.markers.length + 2 ≤ markerSlots ∧
      ((minRegion ≤ r.contiguousRoom ∧ r' = r.beginAt framing) ∨
        (r.tail ≤ r.head ∧ r.size - r.head < minRegion ∧ minRegion < r.tail ∧
          r' = { r with markers := r.markers ++ [Marker.jump], head := 0 }.beginAt framing)) := by
  unfold openRegion? at opened
  split_ifs at opened with full behind short low roomless
  · cases opened
    exact ⟨by omega, .inr ⟨behind, short, by omega, rfl⟩⟩
  · cases opened
    exact ⟨by omega, .inl ⟨by rw [contiguousRoom_of_le behind]; omega, rfl⟩⟩
  · cases opened
    exact ⟨by omega, .inl ⟨by rw [contiguousRoom_of_lt (by omega)]; omega, rfl⟩⟩

/-! ## The moves keep the invariant -/

/-- Handing the pending region over keeps the invariant: its marker joins the sent ones. -/
theorem Inv.markSent {r : FrameRing} {p : PendingRegion} (inv : r.Inv) (pending : r.pending = some p) :
    ({ r with pending := none, inFlight := r.inFlight + (p.stop - p.start) } : FrameRing).Inv := by
  obtain ⟨ms, m, split, _, _, ends⟩ := inv.pending_last p pending
  have busy : r.isDrained = false := by simp [isDrained, pending]
  exact
    { inv with
      pending_last := by simp
      inFlight_eq := by
        have sent := inv.inFlight_eq
        simp only [sentMarkers, pending, Option.isSome_some, ↓reduceIte, split,
          List.dropLast_concat] at sent
        simp only [sentMarkers, Option.isSome_none, Bool.false_eq_true, ↓reduceIte, split,
          List.map_append, List.sum_append, List.map_cons, List.map_nil, List.sum_cons,
          List.sum_nil, Nat.add_zero]
        omega
      drained_of_eq := fun meet => absurd (inv.drained_of_eq meet) (by simp [busy])
      pending_closed := by simp
      zero_of_drained := fun drained => by simp [isDrained, split] at drained }

/-- Sealing keeps the invariant: a region given back returns the head to where it started, and a
sealed region becomes the pending one, with its marker ending at the head. -/
theorem Inv.sealOpen {r : FrameRing} (inv : r.Inv) (idle : r.pending = none) (more : Bool) :
    (r.sealOpen more).Inv := by
  cases opened : r.openRegion with
  | none =>
    have same : r.sealOpen more = r := by simp [FrameRing.sealOpen, opened]
    rw [same]
    exact inv
  | some o =>
    obtain ⟨reserve, started, limit⟩ := inv.open_ok o opened
    simp only [headerReserve] at reserve
    have atStart : layoutEnd r.tail r.markers = o.start := by rw [inv.layout, frontier_of_open opened]
    by_cases dropped : r.head - o.payloadStart = 0 ∨
        o.payloadStart - o.start < (headerFor o.framing (r.head - o.payloadStart)).length
    · rw [sealOpen_dropped opened more dropped]
      apply Shape.skipWraps_inv
      -- the region's start becomes the head; with a jump it stays behind the tail, without one
      -- it lies at or past the tail, where the markers end
      have wrapped : 0 < r.markers.countP (·.wrap) ↔ o.start < r.tail := by
        constructor
        · intro jumped
          have := inv.wrapped_iff.mp jumped
          omega
        · intro ahead
          rcases Nat.eq_zero_or_pos (r.markers.countP (·.wrap)) with plain | jumped
          · have := tail_le_frontier inv.toShape plain
            rw [frontier_of_open opened] at this
            omega
          · exact jumped
      exact
        { inv with
          head_le := by show o.start ≤ r.size; have := inv.head_le; omega
          layout := by rw [frontier_of_closed rfl]; exact atStart
          wrapped_iff := wrapped
          drained_of_eq := drained_of_head_eq_tail _ (by rw [frontier_of_closed rfl]; exact atStart)
            inv.front inv.region_ok wrapped.mp (by simp) (by simp [idle])
          open_ok := by simp
          pending_closed := by simp
          slots := by have := inv.marker_slot_free opened; simp; omega }
    · have fits : (headerFor o.framing (r.head - o.payloadStart)).length ≤ o.payloadStart - o.start := by
        omega
      rw [sealOpen_sealed opened more (inv.marker_slot_free opened) (by omega) fits]
      -- the new marker covers the unused reserve, the header and the payload, up to the head
      have ends : (⟨false, o.payloadStart - (headerFor o.framing (r.head - o.payloadStart)).length - o.start,
          r.head - (o.payloadStart - (headerFor o.framing (r.head - o.payloadStart)).length)⟩ :
            Marker).next o.start = r.head := by
        simp only [Marker.next, Bool.false_eq_true, ↓reduceIte]
        omega
      have busy : r.isDrained = false := by simp [isDrained, opened]
      exact
        { inv with
          points_le := points_le_append _ _ _ _ inv.points_le (by rw [atStart, ends]; exact inv.head_le)
          layout := by
            rw [frontier_of_closed rfl, layoutEnd_append, atStart]
            exact ends
          front := by
            intro m first
            cases held : r.markers with
            | nil => simp [held] at first; rw [← first]
            | cons n ns => exact inv.front m (by simpa [held] using first)
          wraps_le_one := by simpa using inv.wraps_le_one
          wrapped_iff := by simpa using inv.wrapped_iff
          jump_eq := by
            intro m member jump
            rcases List.mem_append.mp member with old | fresh
            · exact inv.jump_eq m old jump
            · simp at fresh; rw [fresh] at jump; simp at jump
          region_ok := by
            intro m member plain
            rcases List.mem_append.mp member with old | fresh
            · exact inv.region_ok m old plain
            · simp only [List.mem_singleton] at fresh
              subst fresh
              simp only [headerReserve]
              omega
          pending_last := by
            intro p pending
            simp only [Option.some.injEq] at pending
            subst pending
            refine ⟨r.markers, _, rfl, rfl, ?_, ?_⟩
            · rw [atStart]
              simp only
              omega
            · simp only
              omega
          inFlight_eq := by
            have sent := inv.inFlight_eq
            simp only [sentMarkers, idle, Option.isSome_none, Bool.false_eq_true, ↓reduceIte] at sent
            simpa [sentMarkers] using sent
          drained_of_eq := fun meet => absurd (inv.drained_of_eq meet) (by simp [busy])
          open_ok := by simp
          pending_closed := fun _ => rfl
          slots := by have := inv.marker_slot_free opened; simp; omega
          zero_of_drained := fun drained => by simp [isDrained] at drained }

/-- Copying into the open region keeps the invariant: the head moves within the contiguous room,
so it neither passes the end of the buffer nor reaches the tail from behind. -/
theorem Inv.fill {r : FrameRing} {o : OpenRegion} (inv : r.Inv) (opened : r.openRegion = some o)
    (bytes : List UInt8) : (r.fill o bytes).1.Inv := by
  obtain ⟨_, inRoom, inLimit⟩ := fill_snd_le r o bytes
  obtain ⟨reserve, started, limit⟩ := inv.open_ok o opened
  simp only [headerReserve] at reserve
  have atStart : layoutEnd r.tail r.markers = o.start := by rw [inv.layout, frontier_of_open opened]
  -- with a jump the head stays behind the tail; without one it stays past it
  have wrapped : 0 < r.markers.countP (·.wrap) ↔ r.head + (r.fill o bytes).2 < r.tail := by
    rcases Nat.lt_or_ge r.head r.tail with ahead | behind
    · rw [contiguousRoom_of_lt ahead] at inRoom
      exact ⟨fun _ => by omega, fun _ => inv.wrapped_iff.mpr ahead⟩
    · have plain := plain_of_behind inv.wrapped_iff.mp behind
      exact ⟨fun jumped => by omega, fun ahead => by omega⟩
  have apart : r.head + (r.fill o bytes).2 ≠ r.tail := by
    rcases Nat.lt_or_ge r.head r.tail with ahead | behind
    · rw [contiguousRoom_of_lt ahead] at inRoom
      omega
    · have := tail_le_frontier inv.toShape (plain_of_behind inv.wrapped_iff.mp behind)
      rw [frontier_of_open opened] at this
      omega
  exact
    { inv with
      head_le := by
        simp only [fill_head, fill_size]
        rcases Nat.lt_or_ge r.head r.tail with ahead | behind
        · rw [contiguousRoom_of_lt ahead] at inRoom
          have := inv.tail_le
          omega
        · rw [contiguousRoom_of_le behind] at inRoom
          have := inv.head_le
          omega
      layout := by
        rw [frontier_of_open (by simpa using opened)]
        exact atStart
      wrapped_iff := by simpa using wrapped
      drained_of_eq := fun meet => absurd (by simpa using meet) apart
      open_ok := by
        intro o' opened'
        rw [fill_openRegion, opened] at opened'
        cases opened'
        simp only [filled] at inLimit
        simp only [fill_head, fill_maxPayload]
        refine ⟨by simp only [headerReserve]; omega, by omega, by omega⟩
      zero_of_drained := fun drained => by simp [isDrained, opened] at drained }

/-- Opening a region at the head, where the contiguous room holds one, keeps the invariant. -/
theorem Inv.openAtHead {r : FrameRing} (inv : r.Inv) (closed : r.openRegion = none)
    (idle : r.pending = none) (slotsFree : r.markers.length + 2 ≤ markerSlots)
    (room : minRegion ≤ r.contiguousRoom) (framing : Framing) : (r.beginAt framing).Inv := by
  simp only [minRegion, headerReserve] at room
  -- the reserve fits before the end of the buffer, or before the byte in front of the tail
  have fits : r.head + headerReserve ≤ r.size ∧ (r.head < r.tail → r.head + headerReserve < r.tail) := by
    simp only [headerReserve]
    rcases Nat.lt_or_ge r.head r.tail with ahead | behind
    · rw [contiguousRoom_of_lt ahead] at room
      have := inv.tail_le
      omega
    · rw [contiguousRoom_of_le behind] at room
      omega
  have wrapped : 0 < r.markers.countP (·.wrap) ↔ r.head + headerReserve < r.tail := by
    constructor
    · intro jumped
      exact fits.2 (inv.wrapped_iff.mp jumped)
    · intro ahead
      exact inv.wrapped_iff.mpr (by omega)
  have apart : r.head + headerReserve ≠ r.tail := by
    rcases Nat.lt_or_ge r.head r.tail with ahead | behind
    · have := fits.2 ahead
      omega
    · simp only [headerReserve]
      omega
  exact
    { inv with
      head_le := by simpa using fits.1
      layout := by
        rw [frontier_of_open (beginAt_openRegion r framing), beginAt_tail, beginAt_markers,
          inv.layout, frontier_of_closed closed]
      wrapped_iff := by simpa using wrapped
      drained_of_eq := fun meet => absurd (by simpa using meet) apart
      open_ok := by
        intro o opened
        simp only [beginAt_openRegion, Option.some.injEq] at opened
        subst opened
        simp
      pending_closed := by simp [idle]
      slots := by simp; omega
      zero_of_drained := fun drained => by simp [isDrained] at drained }

/-- Opening a region at offset 0, behind a jump from the short end of the buffer, keeps the
invariant: the tail leaves room in front, and the jump is the only one. -/
theorem Inv.openAfterJump {r : FrameRing} (inv : r.Inv) (closed : r.openRegion = none)
    (idle : r.pending = none) (slotsFree : r.markers.length + 2 ≤ markerSlots)
    (behind : r.tail ≤ r.head) (clearAhead : minRegion < r.tail) (framing : Framing) :
    ({ r with markers := r.markers ++ [Marker.jump], head := 0 }.beginAt framing).Inv := by
  simp only [minRegion, headerReserve] at clearAhead
  have plain := plain_of_behind inv.wrapped_iff.mp behind
  -- a ring with nothing in it sits at offset 0, where no jump is needed: so there are markers
  have held : r.markers ≠ [] := by
    intro empty
    have := (inv.zero_of_drained ((isDrained_iff r).mpr ⟨closed, idle, empty⟩)).2
    omega
  have atHead : layoutEnd r.tail r.markers = r.head := by rw [inv.layout, frontier_of_closed closed]
  exact
    { head_le := by simp only [beginAt_head, beginAt_size, headerReserve]; have := inv.tail_le; omega
      tail_le := inv.tail_le
      points_le := points_le_append _ _ _ _ inv.points_le (by simp [Marker.next, Marker.jump])
      layout := by
        rw [frontier_of_open (beginAt_openRegion _ framing)]
        simp [Marker.next, Marker.jump]
      front := by
        intro m first
        obtain ⟨n, ns, split⟩ := List.exists_cons_of_ne_nil held
        simp only [beginAt_markers, split, List.cons_append, List.head?_cons, Option.some.injEq] at first
        subst first
        exact inv.front n (by simp [split])
      wraps_le_one := by simp [List.countP_append, plain, Marker.jump]
      wrapped_iff := by
        simp only [beginAt_markers, beginAt_head, beginAt_tail, List.countP_append, plain,
          headerReserve]
        simp [Marker.jump]
        omega
      jump_eq := by
        intro m member jump
        rcases List.mem_append.mp member with old | fresh
        · exact inv.jump_eq m old jump
        · simpa using fresh
      region_ok := by
        intro m member notJump
        rcases List.mem_append.mp member with old | fresh
        · exact inv.region_ok m old notJump
        · simp only [List.mem_singleton] at fresh
          subst fresh
          simp [Marker.jump] at notJump
      pending_last := by simp [idle]
      inFlight_eq := by
        have sent := inv.inFlight_eq
        simp only [sentMarkers, idle, Option.isSome_none, Bool.false_eq_true, ↓reduceIte] at sent
        simp [sentMarkers, idle, sent, Marker.jump]
      drained_of_eq := fun meet => by
        simp only [beginAt_head, beginAt_tail, headerReserve] at meet
        omega
      open_ok := by
        intro o opened
        simp only [beginAt_openRegion, Option.some.injEq] at opened
        subst opened
        simp
      pending_closed := by simp [idle]
      slots := by simp; omega
      zero_of_drained := fun drained => by simp [isDrained] at drained }

/-- Opening a region keeps the invariant. -/
theorem Inv.openRegion? {r r' : FrameRing} {framing : Framing} (inv : r.Inv)
    (closed : r.openRegion = none) (idle : r.pending = none)
    (opened : r.openRegion? framing = some r') : r'.Inv := by
  obtain ⟨slotsFree, ⟨room, rfl⟩ | ⟨behind, _, clearAhead, rfl⟩⟩ := openRegion?_cases opened
  · exact inv.openAtHead closed idle slotsFree room framing
  · exact inv.openAfterJump closed idle slotsFree behind clearAhead framing

/-! ## Acknowledgements -/

/-- The markers are those of the regions already sent, then at most the pending region's, which
is no jump and lies where the sent ones end. -/
theorem Inv.markers_split {r : FrameRing} (inv : r.Inv) :
    ∃ rest, r.markers = r.sentMarkers ++ rest ∧ (∀ m, rest.head? = some m → m.wrap = false) ∧
      (r.pending = none → rest = []) ∧
      ∀ p, r.pending = some p → ∃ m, rest = [m] ∧ m.wrap = false ∧
        layoutEnd r.tail r.sentMarkers + m.scratch = p.start ∧ p.start + m.len = p.stop := by
  cases pending : r.pending with
  | none => exact ⟨[], by simp [sentMarkers, pending], by simp, fun _ => rfl, by simp⟩
  | some p =>
    obtain ⟨ms, m, split, plain, placed, ends⟩ := inv.pending_last p pending
    have sent : r.sentMarkers = ms := by simp [sentMarkers, pending, split]
    refine ⟨[m], by rw [sent, split], by simpa using plain, by simp, ?_⟩
    intro p' same
    cases same
    exact ⟨m, rfl, plain, by rw [sent]; exact placed, ends⟩

/-- An acknowledgement, on a ring keeping the invariant, credits at most the bytes in flight and
walks the markers with that credit, once the cursors have been checked. -/
theorem Inv.onAck_eq {r : FrameRing} (inv : r.Inv) (len : Nat) :
    r.onAck len =
      ({ r with inFlight := r.inFlight - min len r.inFlight,
                markers := (reclaim r.tail (min len r.inFlight) r.markers).1,
                tail := (reclaim r.tail (min len r.inFlight) r.markers).2.1 }.skipWraps,
        len - min len r.inFlight + (reclaim r.tail (min len r.inFlight) r.markers).2.2) := by
  unfold onAck
  dsimp only
  rw [skipWraps_eq_self { r with inFlight := r.inFlight - min len r.inFlight } inv.front
    inv.zero_of_drained]

/-- The sent markers are the markers but the pending one, so their jumps hold no bytes. -/
theorem Inv.sent_jump_len {r : FrameRing} (inv : r.Inv) :
    ∀ m ∈ r.sentMarkers, m.wrap = true → m.len = 0 := by
  obtain ⟨rest, split, _⟩ := inv.markers_split
  intro m member jump
  have whole : m ∈ r.markers := by rw [split]; exact List.mem_append_left rest member
  rw [inv.jump_eq m whole jump]
  rfl

/-- The walk of an acknowledgement runs over the sent regions only, and spends all its credit
there. -/
theorem Inv.reclaim_eq {r : FrameRing} (inv : r.Inv) {rest : List Marker}
    (split : r.markers = r.sentMarkers ++ rest) (restFront : ∀ m, rest.head? = some m → m.wrap = false)
    (credited : Nat) (covered : credited ≤ r.inFlight) :
    reclaim r.tail credited r.markers =
      ((reclaim r.tail credited r.sentMarkers).1 ++ rest, (reclaim r.tail credited r.sentMarkers).2.1, 0) := by
  have within : credited ≤ (r.sentMarkers.map (·.len)).sum := by rw [← inv.inFlight_eq]; exact covered
  rw [split, reclaim_append _ _ _ _ inv.sent_jump_len within restFront,
    reclaim_left_eq_zero _ _ _ inv.sent_jump_len within]

/-- After the walk of an acknowledgement, the sent markers and the tail are what the walk over
the sent markers alone leaves. -/
theorem Inv.reclaim_sent {r : FrameRing} (inv : r.Inv) (credited : Nat)
    (covered : credited ≤ r.inFlight) :
    sentMarkers
      { r with inFlight := r.inFlight - credited,
               markers := (reclaim r.tail credited r.markers).1,
               tail := (reclaim r.tail credited r.markers).2.1 } =
        (reclaim r.tail credited r.sentMarkers).1 ∧
      (reclaim r.tail credited r.markers).2.1 = (reclaim r.tail credited r.sentMarkers).2.1 := by
  obtain ⟨rest, split, restFront, restIdle, restPending⟩ := inv.markers_split
  rw [inv.reclaim_eq split restFront credited covered]
  refine ⟨?_, rfl⟩
  cases pending : r.pending with
  | none => simp [sentMarkers, pending, restIdle pending]
  | some p =>
    obtain ⟨m, single, _⟩ := restPending p pending
    simp [sentMarkers, pending, single]

/-- After the walk of an acknowledgement the ring has its shape: the tail has moved over what the
credit covered, the layout still ends where the next region starts, and the bytes in flight are
what the sent regions still hold. -/
theorem Inv.reclaim_shape {r : FrameRing} (inv : r.Inv) (credited : Nat) (covered : credited ≤ r.inFlight) :
    ({ r with inFlight := r.inFlight - credited,
              markers := (reclaim r.tail credited r.markers).1,
              tail := (reclaim r.tail credited r.markers).2.1 } : FrameRing).Shape := by
  obtain ⟨rest, split, restFront, -, restPending⟩ := inv.markers_split
  have jumps := inv.sent_jump_len
  -- what the walk over all markers does, read off the walk over the sent ones
  have walk := inv.reclaim_eq split restFront credited covered
  have ends := reclaim_layoutEnd r.tail credited r.markers
  have points := reclaim_points_le r.tail credited r.size r.markers inv.points_le
  have fewer := reclaim_countP_wrap r.tail credited r.markers
  have firstOk := reclaim_front r.tail credited r.markers
  have members := mem_reclaim r.tail credited r.markers
  have further := le_reclaim_tail r.tail credited r.markers
  have shorter := reclaim_length_le r.tail credited r.markers
  have endsSent := reclaim_layoutEnd r.tail credited r.sentMarkers
  have spent := reclaim_len_sum r.tail credited r.sentMarkers jumps
  have sentNow := (inv.reclaim_sent credited covered).1
  rw [reclaim_left_eq_zero _ _ _ jumps (by rw [← inv.inFlight_eq]; exact covered)] at spent
  rw [walk] at ends points fewer firstOk members further shorter sentNow ⊢
  simp only at ends points fewer firstOk members further shorter sentNow ⊢
  generalize (reclaim r.tail credited r.sentMarkers).1 = sent' at *
  generalize (reclaim r.tail credited r.sentMarkers).2.1 = tail' at *
  have atFrontier : layoutEnd tail' (sent' ++ rest) = r.frontier := ends.trans inv.layout
  -- a jump left by the walk was never passed, so the tail only moved forward; with none left,
  -- the tail lies at or before where the layout ends
  have wrapped : 0 < (sent' ++ rest).countP (·.wrap) ↔ r.head < tail' := by
    constructor
    · intro jumped
      have same : (sent' ++ rest).countP (·.wrap) = r.markers.countP (·.wrap) := by
        have := inv.wraps_le_one
        omega
      have := further same
      have := inv.wrapped_iff.mp (by omega)
      omega
    · intro ahead
      rcases Nat.eq_zero_or_pos ((sent' ++ rest).countP (·.wrap)) with none | jumped
      · have := le_layoutEnd tail' (sent' ++ rest) (noJump_of_plain none)
        have := frontier_le_head inv.toShape
        omega
      · exact jumped
  have regions : ∀ m ∈ sent' ++ rest, m.wrap = false → 1 ≤ m.len ∧ m.scratch ≤ headerReserve := by
    intro m member plain
    rcases members m member with old | ⟨_, noScratch, held⟩
    · exact inv.region_ok m old plain
    · exact ⟨held, by simp [noScratch, headerReserve]⟩
  exact
    { head_le := inv.head_le
      tail_le := by simpa using points 0
      points_le := points
      layout := atFrontier
      front := firstOk
      wraps_le_one := Nat.le_trans fewer inv.wraps_le_one
      wrapped_iff := wrapped
      jump_eq := by
        intro m member jump
        rcases members m member with old | ⟨plain, _⟩
        · exact inv.jump_eq m old jump
        · rw [plain] at jump
          cases jump
      region_ok := regions
      pending_last := by
        intro p pending
        obtain ⟨m, single, plain, placed, stop⟩ := restPending p pending
        exact ⟨sent', m, by rw [single], plain, by rw [endsSent]; exact placed, stop⟩
      inFlight_eq := by
        rw [sentNow]
        have := inv.inFlight_eq
        simp only at this ⊢
        omega
      drained_of_eq := drained_of_head_eq_tail _ atFrontier firstOk regions wrapped.mp
        (fun o opened => ⟨(inv.open_ok o opened).1, (inv.open_ok o opened).2.1⟩)
        (by
          intro busy
          cases pending : r.pending with
          | none => simp [pending] at busy
          | some p =>
            obtain ⟨m, single, _⟩ := restPending p pending
            simp [single])
      open_ok := inv.open_ok
      pending_closed := inv.pending_closed
      slots := by have := inv.slots; simp only at this ⊢; omega }

/-- An acknowledgement keeps the invariant. -/
theorem Inv.onAck {r : FrameRing} (inv : r.Inv) (len : Nat) : (r.onAck len).1.Inv := by
  rw [inv.onAck_eq len]
  exact (inv.reclaim_shape (min len r.inFlight) (Nat.min_le_right _ _)).skipWraps_inv

/-- An acknowledgement answers as excess exactly what the bytes in flight did not cover: the walk
over the markers spends all the credit. -/
theorem Inv.onAck_excess {r : FrameRing} (inv : r.Inv) (len : Nat) :
    (r.onAck len).2 = len - min len r.inFlight := by
  obtain ⟨rest, split, restFront, _⟩ := inv.markers_split
  rw [inv.onAck_eq len]
  simp only
  rw [inv.reclaim_eq split restFront _ (Nat.min_le_right _ _)]
  simp

end FrameRing

namespace RingRun

/-- Every move keeps the ring's invariant. -/
theorem Move.inv {s s' : RingRun} (move : Move s s') (inv : s.ring.Inv) : s'.ring.Inv := by
  cases move with
  | send pending => exact inv.markSent pending
  | sealOpen more idle => exact inv.sealOpen idle more
  | rewind => rw [inv.rewind_eq]; exact inv
  | openRegion closed idle opened => exact inv.openRegion? closed idle opened
  | fill bytes opened _ => exact inv.fill opened bytes

/-- Every sequence of moves keeps the ring's invariant. -/
theorem Moves.inv {s s' : RingRun} (moves : Moves s s') (inv : s.ring.Inv) : s'.ring.Inv := by
  induction moves with
  | refl => exact inv
  | tail _ last ih => exact last.inv ih

end RingRun

namespace FrameRing

/-- The rings a program can reach: a new or cleared ring, and what appends, finishes,
acknowledgements and rewinds against any transport make of a reachable one. -/
inductive Reachable : FrameRing → Prop
  | new (size maxPayload sendThreshold : Nat) :
      Reachable (FrameRing.new size maxPayload sendThreshold)
  | clear (r : FrameRing) : Reachable r.clear
  | append {r : FrameRing} {τ : Type} [Transport τ] (t : τ) (framing : Framing)
      (bytes : List UInt8) : Reachable r → Reachable (r.append t framing bytes).ring
  | finish {r : FrameRing} {τ : Type} [Transport τ] (t : τ) :
      Reachable r → Reachable (r.finish t).ring
  | ack {r : FrameRing} (len : Nat) : Reachable r → Reachable (r.onAck len).1
  | rewind {r : FrameRing} : Reachable r → Reachable r.rewind

variable {τ : Type} [Transport τ]

/-- An append against any transport keeps the invariant: against the same transport recorded, it
is a sequence of moves. -/
theorem Inv.append {r : FrameRing} (inv : r.Inv) (t : τ) (framing : Framing)
    (bytes : List UInt8) : (r.append t framing bytes).ring.Inv := by
  obtain ⟨_, moves, _⟩ := RingRun.append_moves (RingRun.start r) ⟨t, [], false⟩ rfl framing bytes
  have same : (r.append t framing bytes).ring =
      (r.append (⟨t, [], false⟩ : Recorded τ) framing bytes).ring := by
    rw [← RingOutcome.unrecord_ring, append_recorded]
  rw [same]
  exact moves.inv inv

/-- A finish against any transport keeps the invariant. -/
theorem Inv.finish {r : FrameRing} (inv : r.Inv) (t : τ) : (r.finish t).ring.Inv := by
  have same : (r.finish t).ring = (r.finish (⟨t, [], false⟩ : Recorded τ)).ring := by
    rw [← RingOutcome.unrecord_ring, finish_recorded]
  rw [same]
  exact (RingRun.finish_moves (RingRun.start r) ⟨t, [], false⟩ rfl).inv inv

/-- Every reachable ring keeps the invariant. -/
theorem Reachable.inv {r : FrameRing} (reach : r.Reachable) : r.Inv := by
  induction reach with
  | new size maxPayload sendThreshold => exact clear_inv (FrameRing.new size maxPayload sendThreshold)
  | clear r => exact clear_inv r
  | append t framing bytes _ ih => exact ih.append t framing bytes
  | finish t _ ih => exact ih.finish t
  | ack len _ ih => exact ih.onAck len
  | rewind _ ih => rw [ih.rewind_eq]; exact ih

/-- In every ring a program can reach the representation invariant holds, and an acknowledgement
answers as excess exactly the part of its length that the bytes in flight do not cover. -/
theorem Reachable.inv_and_exact_excess {r : FrameRing} (reach : r.Reachable) :
    r.Inv ∧ ∀ len, (r.onAck len).2 = len - min len r.inFlight :=
  ⟨reach.inv, reach.inv.onAck_excess⟩

/-- A ring that took three bytes to frame as text and then heard two of them acknowledged. -/
theorem text_ring_after_ack_inv :
    (((FrameRing.new 32 8 4).append ({ capacity := 64 } : Loopback) (.frame .text)
        [1, 2, 3]).ring.onAck 2).1.Inv ∧
      ∀ len, ((((FrameRing.new 32 8 4).append ({ capacity := 64 } : Loopback) (.frame .text)
        [1, 2, 3]).ring.onAck 2).1.onAck len).2 =
        len - min len (((FrameRing.new 32 8 4).append ({ capacity := 64 } : Loopback)
          (.frame .text) [1, 2, 3]).ring.onAck 2).1.inFlight :=
  Reachable.inv_and_exact_excess (.ack 2 (.append _ _ _ (.new 32 8 4)))

end FrameRing

end WebSocketCore
