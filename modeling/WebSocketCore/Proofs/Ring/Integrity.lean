import Mathlib.Data.List.Basic
import WebSocketCore.Proofs.Ring.Invariant

/-! # Lent bytes stay in place until acknowledged

A send lends the transport a slice of the ring's buffer, and the transport may read it until it
is acknowledged. Laid out from the tail, the markers of the sent regions cover exactly the bytes
not yet acknowledged: each region's span starts behind its unused reserve and holds as many bytes
as its marker has left. The ring writes only into the open region and its reserve, which lie
where the layout ends and before the tail, so every write misses every span.

Main statement: along every run from a new ring, each byte lent to the transport and not yet
covered by the credited acknowledgements is still in the buffer, at the position it was lent
from.
-/

namespace WebSocketCore

/-! ## Writing into a buffer -/

@[simp] theorem size_writeAt (buf : Array UInt8) (i : Nat) (xs : List UInt8) :
    (writeAt buf i xs).size = buf.size := by
  induction xs generalizing buf i with
  | nil => rfl
  | cons x xs ih => simp [writeAt, ih]

/-- Writing leaves every position outside the written range as it was. -/
theorem getElem?_writeAt_of_outside (buf : Array UInt8) (i : Nat) (xs : List UInt8) (j : Nat)
    (outside : j < i ∨ i + xs.length ≤ j) : (writeAt buf i xs)[j]? = buf[j]? := by
  induction xs generalizing buf i with
  | nil => rfl
  | cons x xs ih =>
    simp only [List.length_cons] at outside
    simp only [writeAt]
    rw [ih _ _ (by omega)]
    exact Array.getElem?_setIfInBounds_ne (by omega)

/-- Inside the buffer, the written range holds the bytes written. -/
theorem getElem?_writeAt_of_inside (buf : Array UInt8) (i : Nat) (xs : List UInt8) (j : Nat)
    (lo : i ≤ j) (hi : j < i + xs.length) (fits : j < buf.size) :
    (writeAt buf i xs)[j]? = xs[j - i]? := by
  induction xs generalizing buf i with
  | nil => simp at hi; omega
  | cons x xs ih =>
    simp only [List.length_cons] at hi
    simp only [writeAt]
    by_cases first : j = i
    · subst first
      rw [getElem?_writeAt_of_outside _ _ _ _ (.inl (by omega))]
      simp [fits]
    · rw [ih _ _ (by omega) (by omega) (by simpa using fits)]
      have shifted : j - i = (j - (i + 1)) + 1 := by omega
      rw [shifted, List.getElem?_cons_succ]

namespace Slice

theorem getElem?_bytes (s : Slice) (k : Nat) :
    s.bytes[k]? = if s.start + k < min s.stop s.buf.size then s.buf[s.start + k]? else none := by
  simp only [bytes, Array.getElem?_toList, Array.getElem?_extract]
  split_ifs <;> first | rfl | omega

@[simp] theorem length_bytes (s : Slice) : s.bytes.length = min s.stop s.buf.size - s.start := by
  simp only [bytes, Array.length_toList, Array.size_extract]

@[simp] theorem bytes_self (buf : Array UInt8) (a : Nat) : (⟨buf, a, a⟩ : Slice).bytes = [] := by
  simp [bytes]

/-- A slice reads the same from two buffers of one size that agree on its range. -/
theorem bytes_congr {buf buf' : Array UInt8} {a b : Nat} (sizes : buf'.size = buf.size)
    (agree : ∀ j, a ≤ j → j < b → buf'[j]? = buf[j]?) :
    (⟨buf', a, b⟩ : Slice).bytes = (⟨buf, a, b⟩ : Slice).bytes := by
  apply List.ext_getElem?
  intro k
  simp only [getElem?_bytes, sizes]
  split_ifs with inside
  · exact agree _ (by omega) (by omega)
  · rfl

/-- A write that misses a slice's range leaves the slice as it was. -/
theorem bytes_writeAt_of_apart (buf : Array UInt8) (i : Nat) (xs : List UInt8) {a b : Nat}
    (apart : b ≤ i ∨ i + xs.length ≤ a) :
    (⟨writeAt buf i xs, a, b⟩ : Slice).bytes = (⟨buf, a, b⟩ : Slice).bytes :=
  bytes_congr (size_writeAt buf i xs) fun j lo hi =>
    getElem?_writeAt_of_outside buf i xs j (by omega)

/-- Within the buffer, the range just written reads back as the bytes written. -/
theorem bytes_writeAt_self (buf : Array UInt8) (i : Nat) (xs : List UInt8)
    (fits : i + xs.length ≤ buf.size) :
    (⟨writeAt buf i xs, i, i + xs.length⟩ : Slice).bytes = xs := by
  apply List.ext_getElem?
  intro k
  simp only [getElem?_bytes, size_writeAt]
  split_ifs with inside
  · rw [getElem?_writeAt_of_inside _ _ _ _ (by omega) (by omega) (by omega)]
    simp
  · rw [List.getElem?_eq_none]
    omega

theorem bytes_append (buf : Array UInt8) {a b c : Nat} (ab : a ≤ b) (bc : b ≤ c) :
    (⟨buf, a, c⟩ : Slice).bytes = (⟨buf, a, b⟩ : Slice).bytes ++ (⟨buf, b, c⟩ : Slice).bytes := by
  simp only [bytes, ← Array.toList_append, Array.extract_append_extract, Nat.min_eq_left ab,
    Nat.max_eq_right bc]

theorem bytes_drop (buf : Array UInt8) (a b k : Nat) :
    (⟨buf, a + k, b⟩ : Slice).bytes = (⟨buf, a, b⟩ : Slice).bytes.drop k := by
  apply List.ext_getElem?
  intro j
  simp only [getElem?_bytes, List.getElem?_drop, Nat.add_assoc]

/-- Each byte of a slice, with the position in the buffer it is lent from. -/
def cells (s : Slice) : List (UInt8 × Nat) := s.bytes.zipIdx s.start

@[simp] theorem length_cells (s : Slice) : s.cells.length = min s.stop s.buf.size - s.start := by
  simp [cells]

theorem cells_drop (buf : Array UInt8) (a b k : Nat) :
    (⟨buf, a + k, b⟩ : Slice).cells = (⟨buf, a, b⟩ : Slice).cells.drop k := by
  apply List.ext_getElem?
  intro j
  simp only [cells, List.getElem?_zipIdx, List.getElem?_drop, bytes_drop, Nat.add_assoc]

/-- Every cell of a slice is the byte at its position in the slice's buffer. -/
theorem getElem?_of_mem_cells {s : Slice} {x : UInt8 × Nat} (member : x ∈ s.cells) :
    s.buf[x.2]? = some x.1 := by
  obtain ⟨after, read⟩ := List.mem_zipIdx_iff_le_and_getElem?_sub.mp member
  rw [getElem?_bytes] at read
  split_ifs at read with inside
  rwa [Nat.add_sub_cancel' after] at read

end Slice

namespace FrameRing

/-! ## Where the unacknowledged bytes lie -/

/-- The span of bytes not yet acknowledged of each region, laid out from `pos`: behind the
region's unused reserve, up to where the next marker starts. A jump has none. -/
def spans (pos : Nat) : List Marker → List (Nat × Nat)
  | [] => []
  | m :: ms => (if m.wrap then [] else [(pos + m.scratch, m.next pos)]) ++ spans (m.next pos) ms

/-- The bytes of a buffer in a list of spans, each with its position. -/
def spanCells (buf : Array UInt8) (sps : List (Nat × Nat)) : List (UInt8 × Nat) :=
  sps.flatMap fun sp => (⟨buf, sp.1, sp.2⟩ : Slice).cells

@[simp] theorem spans_nil (pos : Nat) : spans pos [] = [] := rfl

theorem spans_append (pos : Nat) (ms ms' : List Marker) :
    spans pos (ms ++ ms') = spans pos ms ++ spans (layoutEnd pos ms) ms' := by
  induction ms generalizing pos with
  | nil => rfl
  | cons m ms ih => simp [spans, ih]

/-- Spans laid out within a bound stay within it. -/
theorem spans_le (pos bound : Nat) (ms : List Marker)
    (points : ∀ k, layoutEnd pos (ms.take k) ≤ bound) :
    ∀ sp ∈ spans pos ms, sp.1 ≤ sp.2 ∧ sp.2 ≤ bound := by
  induction ms generalizing pos with
  | nil => simp
  | cons m ms ih =>
    intro sp member
    simp only [spans, List.mem_append] at member
    rcases member with first | rest
    · split at first
      · simp at first
      · rename_i plain
        simp only [List.mem_singleton] at first
        subst first
        have := points 1
        simp only [List.take_succ_cons, List.take_zero, layoutEnd_cons, layoutEnd_nil] at this
        simp only [Marker.next, plain, Bool.false_eq_true, ↓reduceIte] at this ⊢
        omega
    · exact ih (m.next pos) (fun k => by simpa using points (k + 1)) sp rest

/-- Without a jump, spans lie between where the layout starts and where it ends. -/
theorem spans_plain (pos : Nat) (ms : List Marker) (plain : ∀ m ∈ ms, m.wrap = false) :
    ∀ sp ∈ spans pos ms, pos ≤ sp.1 ∧ sp.2 ≤ layoutEnd pos ms := by
  induction ms generalizing pos with
  | nil => simp
  | cons m ms ih =>
    have flat : m.wrap = false := plain m (by simp)
    have forward : m.next pos = pos + m.scratch + m.len := by simp [Marker.next, flat]
    intro sp member
    simp only [spans, flat, Bool.false_eq_true, ↓reduceIte, List.singleton_append,
      List.mem_cons] at member
    rcases member with first | rest
    · subst first
      have := le_layoutEnd (m.next pos) ms (fun n member => plain n (by simp [member]))
      simp only [layoutEnd_cons]
      omega
    · obtain ⟨after, before⟩ := ih (m.next pos) (fun n member => plain n (by simp [member])) sp rest
      simp only [layoutEnd_cons]
      omega

/-- Spans within the buffer hold as many bytes as their markers have left. -/
theorem length_spanCells (buf : Array UInt8) (pos : Nat) (ms : List Marker)
    (jumps : ∀ m ∈ ms, m.wrap = true → m.len = 0)
    (inside : ∀ sp ∈ spans pos ms, sp.2 ≤ buf.size) :
    (spanCells buf (spans pos ms)).length = (ms.map (·.len)).sum := by
  induction ms generalizing pos with
  | nil => rfl
  | cons m ms ih =>
    have restInside : ∀ sp ∈ spans (m.next pos) ms, sp.2 ≤ buf.size :=
      fun sp member => inside sp (by simp [spans, member])
    have rest := ih (m.next pos) (fun n member => jumps n (by simp [member])) restInside
    simp only [spanCells, spans, List.flatMap_append] at rest ⊢
    cases jump : m.wrap
    · have fits := inside (pos + m.scratch, m.next pos) (by simp [spans, jump])
      simp only [Marker.next, jump, Bool.false_eq_true, ↓reduceIte] at fits rest ⊢
      simp only [List.flatMap_cons, List.flatMap_nil, List.append_nil, List.length_append,
        Slice.length_cells, rest, List.map_cons, List.sum_cons]
      omega
    · simp only [Marker.next, jump, ↓reduceIte] at rest ⊢
      simp [rest, jumps m (by simp) jump]

/-- A write that misses every span leaves the bytes in the spans as they were. -/
theorem spanCells_writeAt (buf : Array UInt8) (i : Nat) (xs : List UInt8) (sps : List (Nat × Nat))
    (apart : ∀ sp ∈ sps, sp.2 ≤ i ∨ i + xs.length ≤ sp.1) :
    spanCells (writeAt buf i xs) sps = spanCells buf sps := by
  unfold spanCells
  apply List.flatMap_congr
  intro sp member
  simp only [Slice.cells]
  rw [Slice.bytes_writeAt_of_apart buf i xs (apart sp member)]

/-- Crediting an acknowledgement drops its bytes from the front of the spans. -/
theorem spanCells_reclaim (buf : Array UInt8) (tail left : Nat) (ms : List Marker)
    (jumps : ∀ m ∈ ms, m.wrap = true → m.len = 0) (enough : left ≤ (ms.map (·.len)).sum)
    (inside : ∀ sp ∈ spans tail ms, sp.2 ≤ buf.size) :
    spanCells buf (spans (reclaim tail left ms).2.1 (reclaim tail left ms).1) =
      (spanCells buf (spans tail ms)).drop left := by
  fun_induction reclaim tail left ms with
  | case1 tail left => simp_all
  | case2 tail left m ms jump ih =>
    have restInside : ∀ sp ∈ spans 0 ms, sp.2 ≤ buf.size :=
      fun sp member => inside sp (by simp [spans, jump, Marker.next, member])
    rw [ih (fun n member => jumps n (by simp [member])) (by simp [jumps m (by simp) jump] at enough; exact enough) restInside]
    simp [spans, jump, Marker.next]
  | case3 tail m ms plain => simp
  | case4 tail left m ms plain busy short =>
    -- the front region keeps its bytes past the credit, now with no reserve in front
    have flat : m.wrap = false := by simpa using plain
    have fits := inside (tail + m.scratch, m.next tail) (by simp [spans, flat])
    simp only [Marker.next, flat, Bool.false_eq_true, ↓reduceIte] at fits
    have next : tail + m.scratch + left + (m.len - left) = tail + m.scratch + m.len := by omega
    simp only [spans, Marker.next, flat, Bool.false_eq_true, ↓reduceIte, spanCells,
      List.flatMap_cons, List.singleton_append, Nat.add_zero, next]
    rw [List.drop_append_of_le_length (by simp; omega), ← Slice.cells_drop]
  | case5 tail left m ms plain busy covers ih =>
    -- the front region is covered: the rest of the credit goes to the markers behind it
    have flat : m.wrap = false := by simpa using plain
    have fits := inside (tail + m.scratch, m.next tail) (by simp [spans, flat])
    simp only [Marker.next, flat, Bool.false_eq_true, ↓reduceIte] at fits
    have restInside : ∀ sp ∈ spans (tail + m.scratch + m.len) ms, sp.2 ≤ buf.size :=
      fun sp member => inside sp (by simp [spans, flat, Marker.next, member])
    rw [ih (fun n member => jumps n (by simp [member])) (by simp at enough; omega) restInside]
    simp only [spans, Marker.next, flat, Bool.false_eq_true, ↓reduceIte, spanCells,
      List.flatMap_cons, List.singleton_append]
    have gone : (⟨buf, tail + m.scratch, tail + m.scratch + m.len⟩ : Slice).cells.drop left = [] :=
      List.drop_eq_nil_of_le (by simp; omega)
    rw [List.drop_append, gone, List.nil_append, Slice.length_cells]
    congr 1
    simp only
    omega

/-! ## The bytes the transport may still read -/

/-- The bytes of the sent regions not yet acknowledged, each with its position. -/
def sentCells (r : FrameRing) : List (UInt8 × Nat) := spanCells r.buf (spans r.tail r.sentMarkers)

/-- A marker list with exactly one jump splits around it. -/
private theorem split_at_jump (ms : List Marker) (one : ms.countP (·.wrap) = 1) :
    ∃ pre m post, ms = pre ++ m :: post ∧ m.wrap = true ∧ (∀ n ∈ pre, n.wrap = false) ∧
      ∀ n ∈ post, n.wrap = false := by
  induction ms with
  | nil => simp at one
  | cons m ms ih =>
    cases jump : m.wrap
    · obtain ⟨pre, j, post, split, isJump, prePlain, postPlain⟩ := ih (by simpa [jump] using one)
      refine ⟨m :: pre, j, post, by simp [split], isJump, ?_, postPlain⟩
      intro n member
      rcases List.mem_cons.mp member with rfl | later
      · exact jump
      · exact prePlain n later
    · have none : ms.countP (·.wrap) = 0 := by simpa [jump] using one
      exact ⟨[], m, ms, rfl, jump, by simp, noJump_of_plain none⟩

/-- A write that starts where the layout ends, and ends before the tail when the ring has
wrapped, misses every span. -/
theorem Inv.spans_apart {r : FrameRing} (inv : r.Inv) {w n : Nat} (past : r.frontier ≤ w)
    (before : r.head < r.tail → w + n ≤ r.tail) :
    ∀ sp ∈ spans r.tail r.markers, sp.2 ≤ w ∨ w + n ≤ sp.1 := by
  intro sp member
  rcases Nat.eq_zero_or_pos (r.markers.countP (·.wrap)) with plain | jumped
  · -- no jump: every span ends by the layout's end, the frontier
    have := (spans_plain r.tail r.markers (noJump_of_plain plain) sp member).2
    rw [inv.layout] at this
    exact .inl (by omega)
  · -- one jump: the spans before it start at the tail, those after it end by the frontier
    have wrapped := inv.wrapped_iff.mp jumped
    have one : r.markers.countP (·.wrap) = 1 := by have := inv.wraps_le_one; omega
    obtain ⟨pre, m, post, split, jump, prePlain, postPlain⟩ := split_at_jump r.markers one
    have ends : layoutEnd 0 post = r.frontier := by
      rw [← inv.layout, split, layoutEnd_append, layoutEnd_cons]
      simp [Marker.next, jump]
    rw [split, spans_append] at member
    simp only [spans, Marker.next, jump, ↓reduceIte, List.nil_append, List.mem_append] at member
    rcases member with early | late
    · have := (spans_plain r.tail pre prePlain sp early).1
      have := before wrapped
      exact .inr (by omega)
    · have := (spans_plain 0 post postPlain sp late).2
      exact .inl (by omega)

/-- Every span of the sent regions is a span of the markers. -/
theorem Inv.mem_spans_of_sent {r : FrameRing} (inv : r.Inv) :
    ∀ sp ∈ spans r.tail r.sentMarkers, sp ∈ spans r.tail r.markers := by
  obtain ⟨rest, split, _⟩ := inv.markers_split
  intro sp member
  rw [split, spans_append]
  exact List.mem_append_left _ member

/-- Within a buffer of the ring's size, the sent regions hold the bytes in flight. -/
theorem Inv.length_sentCells {r : FrameRing} (inv : r.Inv) (sized : r.buf.size = r.size) :
    r.sentCells.length = r.inFlight := by
  rw [inv.inFlight_eq, sentCells]
  exact length_spanCells r.buf r.tail r.sentMarkers inv.sent_jump_len fun sp member =>
    sized ▸ (spans_le r.tail r.size r.markers inv.points_le sp (inv.mem_spans_of_sent sp member)).2

/-- Handing over the pending region adds its bytes behind those already lent. -/
theorem Inv.sentCells_markSent {r : FrameRing} (inv : r.Inv) {p : PendingRegion}
    (pending : r.pending = some p) :
    sentCells { r with pending := none, inFlight := r.inFlight + (p.stop - p.start) } =
      r.sentCells ++ (r.pendingSlice p).cells := by
  obtain ⟨rest, split, _, _, restPending⟩ := inv.markers_split
  obtain ⟨m, single, plain, placed, stop⟩ := restPending p pending
  have sentAll : sentMarkers { r with pending := none, inFlight := r.inFlight + (p.stop - p.start) } =
      r.markers := by simp [sentMarkers]
  have next : m.next (layoutEnd r.tail r.sentMarkers) = p.stop := by
    simp only [Marker.next, plain, Bool.false_eq_true, ↓reduceIte]
    omega
  simp only [sentCells, sentAll]
  rw [split, single, spans_append]
  simp [spans, plain, placed, next, spanCells, pendingSlice]

/-- Sealing keeps the bytes lent: the header lands in the open region's reserve. -/
theorem Inv.sentCells_sealOpen {r : FrameRing} (inv : r.Inv) (idle : r.pending = none)
    (more : Bool) : (r.sealOpen more).buf.size = r.buf.size ∧ (r.sealOpen more).size = r.size ∧
      (r.sealOpen more).sentCells = r.sentCells := by
  cases opened : r.openRegion with
  | none => simp [FrameRing.sealOpen, opened]
  | some o =>
    obtain ⟨reserve, started, _⟩ := inv.open_ok o opened
    simp only [headerReserve] at reserve
    by_cases dropped : r.head - o.payloadStart = 0 ∨
        o.payloadStart - o.start < (headerFor o.framing (r.head - o.payloadStart)).length
    · rw [sealOpen_dropped opened more dropped,
        skipWraps_of_front { r with openRegion := none, head := o.start } inv.front]
      split
      · -- the ring was drained: it holds no marker before or after
        rename_i empty
        simp only [isEmpty, Bool.and_eq_true, isDrained_iff] at empty
        simp [sentCells, sentMarkers, empty.1.2.2]
      · exact ⟨rfl, rfl, rfl⟩
    · have fits : (headerFor o.framing (r.head - o.payloadStart)).length ≤ o.payloadStart - o.start := by
        omega
      rw [sealOpen_sealed opened more (inv.marker_slot_free opened) (by omega) fits]
      refine ⟨by simp, rfl, ?_⟩
      have sent : r.sentMarkers = r.markers := by simp [sentMarkers, idle]
      have apart := inv.spans_apart (w := o.payloadStart - (headerFor o.framing (r.head - o.payloadStart)).length)
        (n := (headerFor o.framing (r.head - o.payloadStart)).length)
        (by rw [frontier_of_open opened]; omega) (fun _ => by omega)
      simp only [sentCells, sentMarkers, Option.isSome_some, ↓reduceIte, List.dropLast_concat,
        idle, Option.isSome_none, Bool.false_eq_true]
      rw [spanCells_writeAt _ _ _ _ apart]

/-- A region that opens keeps the bytes lent: a jump it needs holds none. -/
theorem sentCells_openRegion? {r r' : FrameRing} {framing : Framing} (idle : r.pending = none)
    (opened : r.openRegion? framing = some r') :
    r'.buf = r.buf ∧ r'.size = r.size ∧ r'.sentCells = r.sentCells := by
  rcases (openRegion?_cases opened).2 with ⟨_, rfl⟩ | ⟨_, _, _, rfl⟩
  · exact ⟨rfl, rfl, rfl⟩
  · refine ⟨rfl, rfl, ?_⟩
    simp [sentCells, sentMarkers, beginAt, idle, spans_append, spans, Marker.jump]

/-- Copying into the open region keeps the bytes lent: the copy lands behind the head, within
the contiguous room. -/
theorem Inv.sentCells_fill {r : FrameRing} (inv : r.Inv) (o : OpenRegion)
    (idle : r.pending = none) (bytes : List UInt8) :
    (r.fill o bytes).1.buf.size = r.buf.size ∧ (r.fill o bytes).1.sentCells = r.sentCells := by
  obtain ⟨_, room, _⟩ := fill_snd_le r o bytes
  have sent : r.sentMarkers = r.markers := by simp [sentMarkers, idle]
  have apart := inv.spans_apart (w := r.head) (n := (bytes.take (r.fill o bytes).2).length)
    (frontier_le_head inv.toShape)
    (fun ahead => by rw [contiguousRoom_of_lt ahead] at room; simp; omega)
  rw [fill_eq]
  refine ⟨by simp, ?_⟩
  show spanCells (writeAt r.buf r.head (bytes.take (r.fill o bytes).2)) (spans r.tail r.sentMarkers) =
    r.sentCells
  rw [sentCells, sent, spanCells_writeAt _ _ _ _ apart]

/-- An acknowledgement drops what it credits from the front of the bytes lent. -/
theorem Inv.sentCells_onAck {r : FrameRing} (inv : r.Inv) (sized : r.buf.size = r.size)
    (len : Nat) : (r.onAck len).1.buf = r.buf ∧ (r.onAck len).1.size = r.size ∧
      (r.onAck len).1.sentCells = r.sentCells.drop (min len r.inFlight) := by
  have covered : min len r.inFlight ≤ r.inFlight := Nat.min_le_right _ _
  obtain ⟨sentNow, tailNow⟩ := inv.reclaim_sent (min len r.inFlight) covered
  have walked : sentCells
      { r with inFlight := r.inFlight - min len r.inFlight,
               markers := (reclaim r.tail (min len r.inFlight) r.markers).1,
               tail := (reclaim r.tail (min len r.inFlight) r.markers).2.1 } =
        r.sentCells.drop (min len r.inFlight) := by
    rw [sentCells, sentNow]
    dsimp only
    rw [tailNow]
    exact spanCells_reclaim r.buf r.tail (min len r.inFlight) r.sentMarkers inv.sent_jump_len
      (by rw [← inv.inFlight_eq]; exact covered) fun sp member =>
        sized ▸ (spans_le r.tail r.size r.markers inv.points_le sp (inv.mem_spans_of_sent sp member)).2
  rw [inv.onAck_eq len]
  simp only
  rw [skipWraps_of_front _ (reclaim_front _ _ _)]
  split
  · -- the walk left no marker: nothing is lent before or after starting over
    rename_i empty
    simp only [isEmpty, Bool.and_eq_true, isDrained_iff] at empty
    refine ⟨rfl, rfl, ?_⟩
    rw [← walked]
    simp [sentCells, sentMarkers, empty.1.2.2]
  · exact ⟨rfl, rfl, walked⟩

end FrameRing

namespace RingRun

/-- Every byte of the slices a run lent, oldest first, with the position it was lent from. -/
def lentCells (s : RingRun) : List (UInt8 × Nat) := s.lent.flatMap (·.1.cells)

/-- What a run lent and has not had credited is exactly what the sent regions of its ring still
hold. -/
structure Intact (s : RingRun) : Prop where
  inv : s.ring.Inv
  buf_size : s.ring.buf.size = s.ring.size
  credited_le : s.credited ≤ s.lentCells.length
  unacked : s.lentCells.drop s.credited = s.ring.sentCells

theorem Move.intact {s s' : RingRun} (move : Move s s') (intact : s.Intact) : s'.Intact := by
  have inv := move.inv intact.inv
  cases move with
  | @send p pending =>
    have grown : (s.lent ++ [(s.ring.pendingSlice p, p.more)]).flatMap (·.1.cells) =
        s.lentCells ++ (s.ring.pendingSlice p).cells := by
      simp [lentCells]
    refine ⟨inv, intact.buf_size, ?_, ?_⟩
    · show s.credited ≤ ((s.lent ++ [(s.ring.pendingSlice p, p.more)]).flatMap (·.1.cells)).length
      rw [grown, List.length_append]
      exact Nat.le_add_right_of_le intact.credited_le
    · show ((s.lent ++ [(s.ring.pendingSlice p, p.more)]).flatMap (·.1.cells)).drop s.credited = _
      rw [grown, List.drop_append_of_le_length intact.credited_le, intact.unacked,
        intact.inv.sentCells_markSent pending]
  | sealOpen more idle =>
    obtain ⟨sameBuf, sameSize, cells⟩ := intact.inv.sentCells_sealOpen idle more
    exact ⟨inv, by rw [sameBuf, sameSize]; exact intact.buf_size, intact.credited_le,
      intact.unacked.trans cells.symm⟩
  | rewind =>
    have same : s.ring.rewind = s.ring := intact.inv.rewind_eq
    exact ⟨inv, by simp only [same]; exact intact.buf_size, intact.credited_le,
      by simp only [same]; exact intact.unacked⟩
  | openRegion closed idle opened =>
    obtain ⟨sameBuf, sameSize, cells⟩ := FrameRing.sentCells_openRegion? idle opened
    exact ⟨inv, by rw [sameBuf, sameSize]; exact intact.buf_size, intact.credited_le,
      intact.unacked.trans cells.symm⟩
  | @fill o bytes _ idle =>
    obtain ⟨sameSize, cells⟩ := intact.inv.sentCells_fill o idle bytes
    exact ⟨inv, by rw [sameSize]; exact intact.buf_size, intact.credited_le,
      intact.unacked.trans cells.symm⟩

theorem Moves.intact {s s' : RingRun} (moves : Moves s s') (intact : s.Intact) : s'.Intact := by
  induction moves with
  | refl => exact intact
  | tail _ last ih => exact last.intact ih

variable {τ : Type} [Transport τ]

/-- Every operation keeps what was lent and not credited in place. -/
theorem Intact.step {s : RingRun} (intact : s.Intact) (op : RingOp τ) : (s.step op).Intact := by
  cases op with
  | append t framing bytes =>
    obtain ⟨_, moves, _⟩ := append_moves s ⟨t, s.lent, false⟩ rfl framing bytes
    have after := moves.intact intact
    exact ⟨after.inv, after.buf_size, after.credited_le, after.unacked⟩
  | finish t =>
    have after := (finish_moves s ⟨t, s.lent, false⟩ rfl).intact intact
    exact ⟨after.inv, after.buf_size, after.credited_le, after.unacked⟩
  | ack len =>
    obtain ⟨sameBuf, sameSize, cells⟩ := intact.inv.sentCells_onAck intact.buf_size len
    have inFlight := intact.inv.length_sentCells intact.buf_size
    have credited := intact.credited_le
    have held := congrArg List.length intact.unacked
    rw [List.length_drop] at held
    refine ⟨intact.inv.onAck len, ?_, ?_, ?_⟩
    · show (s.ring.onAck len).1.buf.size = (s.ring.onAck len).1.size
      rw [sameBuf, sameSize]
      exact intact.buf_size
    · show s.credited + min len s.ring.inFlight ≤ s.lentCells.length
      omega
    · show s.lentCells.drop (s.credited + min len s.ring.inFlight) = (s.ring.onAck len).1.sentCells
      rw [cells, ← intact.unacked, List.drop_drop]
  | rewind => exact Move.rewind.intact intact

theorem Intact.run {s : RingRun} (intact : s.Intact) (ops : List (RingOp τ)) :
    (s.run ops).Intact := by
  induction ops generalizing s with
  | nil => exact intact
  | cons op ops ih => exact ih (intact.step op)

/-- A new ring has lent nothing. -/
theorem start_intact (size maxPayload sendThreshold : Nat) :
    (start (FrameRing.new size maxPayload sendThreshold)).Intact where
  inv := FrameRing.clear_inv (FrameRing.new size maxPayload sendThreshold)
  buf_size := by simp [start, FrameRing.new]
  credited_le := Nat.zero_le _
  unacked := rfl

/-- Along every run from a new ring, each byte lent to the transport and not yet covered by the
credited acknowledgements is still in the buffer, unchanged, at the position it was lent from. -/
theorem lent_bytes_stay_until_acked (size maxPayload sendThreshold : Nat) (ops : List (RingOp τ)) :
    ∀ x ∈ ((start (FrameRing.new size maxPayload sendThreshold)).run ops).lentCells.drop
        ((start (FrameRing.new size maxPayload sendThreshold)).run ops).credited,
      ((start (FrameRing.new size maxPayload sendThreshold)).run ops).ring.buf[x.2]? = some x.1 := by
  intro x member
  have intact := (start_intact size maxPayload sendThreshold).run ops
  rw [intact.unacked, FrameRing.sentCells, FrameRing.spanCells] at member
  obtain ⟨sp, _, inSpan⟩ := List.mem_flatMap.mp member
  exact Slice.getElem?_of_mem_cells inSpan

/-- Three bytes appended as text to a ring with a send threshold of one go out at once, framed:
the first of them was lent from offset 4, behind the two header bytes, and is still there. -/
theorem text_payload_stays_lent :
    ((7 : UInt8), 4) ∈ ((start (FrameRing.new 16 8 1)).run
        [RingOp.append ({ capacity := 64 } : Loopback) (.frame .text) [7, 8, 9]]).lentCells.drop
        ((start (FrameRing.new 16 8 1)).run
          [RingOp.append ({ capacity := 64 } : Loopback) (.frame .text) [7, 8, 9]]).credited ∧
      ((start (FrameRing.new 16 8 1)).run
        [RingOp.append ({ capacity := 64 } : Loopback) (.frame .text) [7, 8, 9]]).ring.buf[4]? =
        some 7 :=
  ⟨by decide, lent_bytes_stay_until_acked 16 8 1
    [RingOp.append ({ capacity := 64 } : Loopback) (.frame .text) [7, 8, 9]] (7, 4) (by decide)⟩

end RingRun

end WebSocketCore
