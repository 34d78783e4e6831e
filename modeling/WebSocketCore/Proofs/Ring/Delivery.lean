import WebSocketCore.Proofs.Ring.Blocking
import WebSocketCore.Proofs.Ring.Integrity

/-! # What the transport receives from a ring

Each send of a ring hands the transport one sealed region: raw bytes as they are, or one whole
frame, final and unmasked, with its length in the shortest form. Sealing writes the header into
the four bytes reserved in front of the payload, which is room enough for every payload the ring
can hold. The regions go out in the order they were sealed, and only one is ever pending, so
their payloads, each byte tagged with its region's framing, are the bytes the appends accepted,
with the pending region and the open region still behind them.

Main statement: along every run from a new ring in which the transport took every slice, the
transport has received a list of such regions, each of one framing with one to `maxPayload`
payload bytes, carrying a prefix of the accepted bytes, and all of them once `finish` has
answered that nothing is left to send; acknowledging everything then drains the ring to offset 0.
-/

namespace WebSocketCore

/-- A region as the transport receives it: how it is framed, and its payload. -/
structure Region where
  framing : Framing
  payload : List UInt8

namespace Region

/-- The bytes a region goes out as: raw bytes as they are; a frame as a final, unmasked header
with the opcode's nibble and the payload's length in the shortest of the 7-bit and 16-bit forms,
then the payload. -/
def wire (x : Region) : List UInt8 :=
  match x.framing with
  | .raw => x.payload
  | .frame op =>
    (0x80 ||| op.bits) ::
      ((if x.payload.length ≤ 125 then [x.payload.length.toUInt8]
        else [126, (x.payload.length / 256).toUInt8, (x.payload.length % 256).toUInt8]) ++
        x.payload)

/-- The payload, each byte tagged with the region's framing. -/
def tagged (x : Region) : List (Framing × UInt8) := x.payload.map (x.framing, ·)

end Region

namespace FrameRing

/-- For a payload of at most 65535 bytes, the header the ring writes, then the payload, is the
region's wire form. -/
theorem headerFor_append (framing : Framing) (payload : List UInt8)
    (short : payload.length ≤ 0xFFFF) :
    headerFor framing payload.length ++ payload = (Region.mk framing payload).wire := by
  have fits : payload.length.toUInt64.toNat = payload.length := by simp; omega
  cases framing with
  | raw => rfl
  | frame op =>
    by_cases tiny : payload.length ≤ 125
    · simp [headerFor, FrameHeader.server, FrameHeader.encode, Region.wire, fits, tiny]
    · simp [headerFor, FrameHeader.server, FrameHeader.encode, Region.wire, fits, tiny, short,
        bigEndian]
      exact UInt8.ofNat_mod_size

/-- The header of a payload of at most 65535 bytes fits the reserve. -/
theorem length_headerFor_le (framing : Framing) (len : Nat) (short : len ≤ 0xFFFF) :
    (headerFor framing len).length ≤ headerReserve := by
  have fits : len.toUInt64.toNat = len := by simp; omega
  cases framing with
  | raw => simp [headerFor]
  | frame op =>
    simp only [headerFor, FrameHeader.server, FrameHeader.encode, fits, headerReserve]
    split_ifs <;> simp [bigEndian]

/-! ## Errors come only from refused sends -/

variable {τ : Type} [Transport τ]

theorem sendPending_refused (r : FrameRing) (t : Recorded τ) (e : NetError)
    (failed : (r.sendPending t).1 = .error e) : (r.sendPending t).2.2.refused = true := by
  unfold sendPending at failed ⊢
  cases pending : r.pending with
  | none => simp [pending] at failed
  | some p =>
    simp only [pending] at failed ⊢
    by_cases small : Transport.sendCapacity t.inner < p.stop - p.start
    · simp [small] at failed
    · rcases taken : Transport.send t.inner (r.pendingSlice p) p.more with ⟨t', ok⟩
      cases ok <;> simp [small, taken] at failed ⊢

/-- A send followed by a continuation that fails only on a refusal fails only on a refusal. -/
theorem thenSend_refused {α : Type} (r : FrameRing) (t : Recorded τ) (stalled : α)
    (k : FrameRing → Recorded τ → RingOutcome (Recorded τ) α)
    (honest : ∀ r t e, (k r t).result = .error e → (k r t).transport.refused = true)
    (e : NetError) (failed : (r.thenSend t stalled k).result = .error e) :
    (r.thenSend t stalled k).transport.refused = true := by
  have refusal := sendPending_refused r t
  unfold thenSend at failed ⊢
  revert failed refusal
  rcases r.sendPending t with ⟨result, r', t'⟩
  intro failed refusal
  rcases result with e' | (_ | _)
  · exact refusal e' rfl
  · cases failed
  · exact honest r' t' e failed

theorem fillOpen_refused (r : FrameRing) (t : Recorded τ) (o : OpenRegion) (bytes : List UInt8)
    (e : NetError) (failed : (r.fillOpen t o bytes).result = .error e) :
    (r.fillOpen t o bytes).transport.refused = true := by
  unfold fillOpen at failed ⊢
  dsimp only at failed ⊢
  split_ifs at failed ⊢
  exact thenSend_refused _ t _ _ (fun _ _ _ answered => by cases answered) e failed

theorem place_refused (r : FrameRing) (t : Recorded τ) (framing : Framing) (bytes : List UInt8)
    (e : NetError) (failed : (r.place t framing bytes).result = .error e) :
    (r.place t framing bytes).transport.refused = true := by
  unfold place at failed ⊢
  cases opened : r.openRegion with
  | some o =>
    simp only [opened] at failed ⊢
    exact fillOpen_refused r t o bytes e failed
  | none =>
    simp only [opened] at failed ⊢
    cases fresh : r.rewind.openRegion? framing with
    | none => simp [fresh] at failed
    | some r' =>
      simp only [fresh] at failed ⊢
      cases opened' : r'.openRegion with
      | none => simp [opened'] at failed
      | some o =>
        simp only [opened'] at failed ⊢
        exact fillOpen_refused r' t o bytes e failed

/-- An append answers an error only when the transport refused a send. -/
theorem append_refused (r : FrameRing) (t : Recorded τ) (framing : Framing) (bytes : List UInt8)
    (e : NetError) (failed : (r.append t framing bytes).result = .error e) :
    (r.append t framing bytes).transport.refused = true := by
  unfold append at failed ⊢
  split at failed
  · cases failed
  · rename_i nonempty
    simp only [nonempty, Bool.false_eq_true, ↓reduceIte] at failed ⊢
    exact thenSend_refused r t _ _ (fun r t e failed =>
      thenSend_refused _ t _ _ (fun r t e failed => place_refused r t framing bytes e failed)
        e failed) e failed

/-- A finish answers an error only when the transport refused a send. -/
theorem finish_refused (r : FrameRing) (t : Recorded τ) (e : NetError)
    (failed : (r.finish t).result = .error e) : (r.finish t).transport.refused = true := by
  unfold finish at failed ⊢
  exact thenSend_refused r t _ _ (fun r t e failed =>
    thenSend_refused _ t _ _ (fun _ _ _ answered => by cases answered) e failed) e failed

/-! ## What the ring holds -/

/-- The payload copied into the open region so far, each byte tagged with the region's framing. -/
def openTagged (r : FrameRing) : List (Framing × UInt8) :=
  match r.openRegion with
  | none => []
  | some o => (Region.mk o.framing (⟨r.buf, o.payloadStart, r.head⟩ : Slice).bytes).tagged

@[simp] theorem openTagged_of_closed {r : FrameRing} (closed : r.openRegion = none) :
    r.openTagged = [] := by
  simp [openTagged, closed]

@[simp] theorem skipWraps_maxPayload (r : FrameRing) : r.skipWraps.maxPayload = r.maxPayload := by
  unfold skipWraps
  dsimp only
  split_ifs <;> rfl

/-- Sealing turns the open region's payload into the pending region, as one whole region with
one to `maxPayload` bytes, header and payload together in the buffer. -/
theorem Inv.sealOpen_held {r : FrameRing} (inv : r.Inv) (sized : r.buf.size = r.size)
    (idle : r.pending = none) (small : r.maxPayload ≤ 0xFFFF) (more : Bool) :
    (r.sealOpen more).maxPayload = r.maxPayload ∧ (r.sealOpen more).openTagged = [] ∧
      ∃ held : List Region,
        (r.sealOpen more).pending.toList.map (fun p => ((r.sealOpen more).pendingSlice p).bytes) =
          held.map Region.wire ∧
        (∀ x ∈ held, 1 ≤ x.payload.length ∧ x.payload.length ≤ r.maxPayload) ∧
        held.flatMap Region.tagged = r.openTagged := by
  cases opened : r.openRegion with
  | none =>
    have same : r.sealOpen more = r := by simp [FrameRing.sealOpen, opened]
    rw [same]
    exact ⟨rfl, by simp [opened], [], by simp [idle], by simp, by simp [opened]⟩
  | some o =>
    obtain ⟨reserve, started, limit⟩ := inv.open_ok o opened
    have fits := length_headerFor_le o.framing (r.head - o.payloadStart) (by omega)
    simp only [headerReserve] at reserve fits
    have within := inv.head_le
    by_cases empty : r.head - o.payloadStart = 0
    · -- an empty region is given back; its payload was empty
      rw [sealOpen_dropped opened more (.inl empty)]
      have nothing : r.openTagged = [] := by
        have same : r.head = o.payloadStart := by omega
        simp [openTagged, opened, Region.tagged, same]
      exact ⟨by simp, by simp, [], by simp [idle], by simp, by simp [nothing]⟩
    · rw [sealOpen_sealed opened more (inv.marker_slot_free opened) empty (by omega)]
      refine ⟨rfl, by simp [openTagged],
        [⟨o.framing, (⟨r.buf, o.payloadStart, r.head⟩ : Slice).bytes⟩], ?_, ?_, ?_⟩
      · -- the header lands right before the payload, which stays as it was
        simp only [Option.toList_some, List.map_cons, List.map_nil, pendingSlice,
          List.cons.injEq, and_true]
        set payload := (⟨r.buf, o.payloadStart, r.head⟩ : Slice).bytes with payloadIs
        have payloadLength : payload.length = r.head - o.payloadStart := by
          simp only [payloadIs, Slice.length_bytes]
          omega
        set header := headerFor o.framing (r.head - o.payloadStart) with headerIs
        have split := Slice.bytes_append (writeAt r.buf (o.payloadStart - header.length) header)
          (a := o.payloadStart - header.length) (b := o.payloadStart - header.length + header.length)
          (c := r.head) (by omega) (by omega)
        have written := Slice.bytes_writeAt_self r.buf (o.payloadStart - header.length) header
          (by omega)
        have kept : (⟨writeAt r.buf (o.payloadStart - header.length) header,
            o.payloadStart - header.length + header.length, r.head⟩ : Slice).bytes = payload := by
          rw [Slice.bytes_writeAt_of_apart _ _ _ (.inr (Nat.le_refl _)), Nat.sub_add_cancel (by omega)]
        rw [split, written, kept, headerIs, ← payloadLength, headerFor_append _ _ (by omega)]
      · intro x member
        simp only [List.mem_singleton] at member
        subst member
        simp only [Slice.length_bytes]
        omega
      · simp [openTagged, opened]

/-- A region that opens holds no payload yet, and leaves the pending region and the buffer. -/
theorem openRegion?_held {r r' : FrameRing} {framing : Framing}
    (opened : r.openRegion? framing = some r') :
    r'.openTagged = [] ∧ r'.pending = r.pending ∧ r'.buf = r.buf ∧ r'.maxPayload = r.maxPayload := by
  rcases (openRegion?_cases opened).2 with ⟨_, rfl⟩ | ⟨_, _, _, rfl⟩ <;>
    simp [openTagged, beginAt, Region.tagged]

/-- Copying into the open region adds the bytes taken behind its payload. -/
theorem Inv.fill_openTagged {r : FrameRing} (inv : r.Inv) (sized : r.buf.size = r.size)
    {o : OpenRegion} (opened : r.openRegion = some o) (bytes : List UInt8) :
    (r.fill o bytes).1.openTagged =
      r.openTagged ++ (bytes.take (r.fill o bytes).2).map (o.framing, ·) := by
  obtain ⟨taken, _, _⟩ := fill_snd_le r o bytes
  have room : r.head + (r.fill o bytes).2 ≤ r.size := by
    simpa using (inv.fill opened bytes).head_le
  have started := (inv.open_ok o opened).2.1
  have length : (bytes.take (r.fill o bytes).2).length = (r.fill o bytes).2 := by
    simp only [List.length_take]
    omega
  have written := Slice.bytes_writeAt_self r.buf r.head (bytes.take (r.fill o bytes).2)
    (by rw [length]; omega)
  rw [length] at written
  rw [fill_eq]
  simp only [openTagged, opened, Region.tagged]
  rw [Slice.bytes_append _ started (Nat.le_add_right _ _),
    Slice.bytes_writeAt_of_apart _ _ _ (.inl (Nat.le_refl _)), written, List.map_append]

/-- An acknowledgement leaves the pending region, the open region's payload and the limit. -/
theorem Inv.onAck_held {r : FrameRing} (inv : r.Inv) (len : Nat) :
    (r.onAck len).1.pending = r.pending ∧ (r.onAck len).1.openRegion = r.openRegion ∧
      (r.onAck len).1.openTagged = r.openTagged ∧ (r.onAck len).1.maxPayload = r.maxPayload := by
  rw [inv.onAck_eq len]
  simp only
  rw [skipWraps_of_front _ (reclaim_front _ _ _)]
  split
  · -- starting over happens only to a drained ring, which has no open region
    rename_i empty
    simp only [isEmpty, Bool.and_eq_true, isDrained_iff] at empty
    simp [openTagged, empty.1.1]
  · exact ⟨rfl, rfl, rfl, rfl⟩

/-- A walk credited with all the bytes of its markers leaves none. -/
theorem reclaim_all (tail left : Nat) (ms : List Marker)
    (held : ∀ m ∈ ms, m.wrap = false → 1 ≤ m.len) (jumps : ∀ m ∈ ms, m.wrap = true → m.len = 0)
    (total : left = (ms.map (·.len)).sum) : (reclaim tail left ms).1 = [] := by
  fun_induction reclaim tail left ms with
  | case1 => rfl
  | case2 tail left m ms jump ih =>
    exact ih (fun n member => held n (by simp [member])) (fun n member => jumps n (by simp [member]))
      (by simp [jumps m (by simp) jump] at total; exact total)
  | case3 tail m ms plain =>
    have := held m (by simp) (by simpa using plain)
    simp at total
    omega
  | case4 tail left m ms plain busy short =>
    simp at total
    omega
  | case5 tail left m ms plain busy covers ih =>
    exact ih (fun n member => held n (by simp [member])) (fun n member => jumps n (by simp [member]))
      (by simp at total; omega)

/-- With nothing open or pending, acknowledging all the bytes in flight drains the ring. -/
theorem Inv.onAck_drains {r : FrameRing} (inv : r.Inv) (closed : r.openRegion = none)
    (idle : r.pending = none) : (r.onAck r.inFlight).1.isDrained = true := by
  have sent : r.sentMarkers = r.markers := by simp [sentMarkers, idle]
  have none : (reclaim r.tail r.inFlight r.markers).1 = [] :=
    reclaim_all _ _ _ (fun m member plain => (inv.region_ok m member plain).1)
      (fun m member jump => by rw [inv.jump_eq m member jump]; rfl)
      (by rw [inv.inFlight_eq, sent])
  rw [inv.onAck_eq, Nat.min_self, isDrained_iff]
  simp only [skipWraps_openRegion, skipWraps_pending, closed, idle, true_and]
  unfold skipWraps
  simp only [none, dropJumps]
  split_ifs <;> rfl

end FrameRing

namespace RingRun

/-- What a run has lent, what its ring holds pending and what its open region holds are framed
regions and a payload that carry, in order, the bytes the run accepted; no region has more than
`limit` payload bytes, the ring's limit, under which every header fits its reserve. -/
structure Delivered (s : RingRun) (limit : Nat) : Prop where
  small : limit ≤ 0xFFFF
  maxPayload_eq : s.ring.maxPayload = limit
  framed : ∃ sent held : List Region,
    s.lent.map (·.1.bytes) = sent.map Region.wire ∧
    s.ring.pending.toList.map (fun p => (s.ring.pendingSlice p).bytes) = held.map Region.wire ∧
    (∀ x ∈ sent ++ held, 1 ≤ x.payload.length ∧ x.payload.length ≤ limit) ∧
    s.accepted = (sent ++ held).flatMap Region.tagged ++ s.ring.openTagged

/-- A step that keeps the lent slices and the accepted bytes, and changes the ring without touching
the pending region's bytes, the open payload or the payload limit, keeps the delivery invariant. -/
theorem Delivered.of_held {s s' : RingRun} {limit : Nat} (delivered : s.Delivered limit)
    (sameLent : s'.lent = s.lent) (sameAccepted : s'.accepted = s.accepted)
    (samePending : s'.ring.pending.toList.map (fun p => (s'.ring.pendingSlice p).bytes) =
      s.ring.pending.toList.map (fun p => (s.ring.pendingSlice p).bytes))
    (sameTagged : s'.ring.openTagged = s.ring.openTagged)
    (sameMax : s'.ring.maxPayload = s.ring.maxPayload) : s'.Delivered limit := by
  obtain ⟨sent, held, lentEq, pendEq, bounds, acc⟩ := delivered.framed
  refine ⟨delivered.small, sameMax.trans delivered.maxPayload_eq, sent, held, ?_, ?_, bounds, ?_⟩
  · rw [sameLent]
    exact lentEq
  · rw [samePending]
    exact pendEq
  · rw [sameAccepted, sameTagged]
    exact acc

theorem Move.delivered {s s' : RingRun} {limit : Nat} (move : Move s s') (intact : s.Intact)
    (delivered : s.Delivered limit) : s'.Delivered limit := by
  obtain ⟨sent, held, lentEq, pendEq, bounds, acc⟩ := delivered.framed
  cases move with
  | @send p pending =>
    -- the pending region is lent: it joins the regions sent
    simp only [pending, Option.toList_some, List.map_cons, List.map_nil] at pendEq
    refine ⟨delivered.small, delivered.maxPayload_eq, sent ++ held, [], ?_, by simp,
      by simpa using bounds, ?_⟩
    · simp only [List.map_append, lentEq, pendEq, List.map_cons, List.map_nil]
    · show s.accepted = (sent ++ held ++ []).flatMap Region.tagged ++ s.ring.openTagged
      simpa using acc
  | sealOpen more idle =>
    -- nothing is pending; the open region's payload becomes the pending region
    have noHeld : held = [] := by simpa [idle] using pendEq.symm
    subst noHeld
    obtain ⟨sameMax, openNil, held', pendEq', bounds', tagEq⟩ := intact.inv.sealOpen_held
      intact.buf_size idle (delivered.maxPayload_eq ▸ delivered.small) more
    refine ⟨delivered.small, sameMax.trans delivered.maxPayload_eq, sent, held', lentEq, pendEq',
      ?_, ?_⟩
    · intro x member
      rcases List.mem_append.mp member with early | late
      · exact bounds x (by simpa using early)
      · rw [← delivered.maxPayload_eq]
        exact bounds' x late
    · show s.accepted = (sent ++ held').flatMap Region.tagged ++ (s.ring.sealOpen more).openTagged
      rw [acc, openNil, ← tagEq]
      simp
  | rewind =>
    have same : s.ring.rewind = s.ring := intact.inv.rewind_eq
    exact delivered.of_held rfl rfl (by simp only [same]) (by simp only [same]) (by simp only [same])
  | openRegion closed idle opened =>
    -- the new region is empty, as the closed ring's open payload was
    obtain ⟨openNil, samePending, sameBuf, sameMax⟩ := FrameRing.openRegion?_held opened
    exact delivered.of_held rfl rfl (by simp only [samePending, FrameRing.pendingSlice, sameBuf])
      (by rw [openNil, FrameRing.openTagged_of_closed closed]) sameMax
  | @fill o bytes opened idle =>
    refine ⟨delivered.small, delivered.maxPayload_eq, sent, held, lentEq, ?_, bounds, ?_⟩
    · show _ = _
      simp only [FrameRing.fill_pending, idle]
      simpa [idle] using pendEq
    · show s.accepted ++ _ = _ ++ (s.ring.fill o bytes).1.openTagged
      rw [intact.inv.fill_openTagged intact.buf_size opened bytes, acc, List.append_assoc]

theorem Moves.delivered {s s' : RingRun} {limit : Nat} (moves : Moves s s') (intact : s.Intact)
    (delivered : s.Delivered limit) : s'.Delivered limit := by
  induction moves with
  | refl => exact delivered
  | tail before last ih => exact last.delivered (Moves.intact before intact) ih

/-- Along a run in which the transport took every slice: what was lent stays in place, what was
lent and is held is framed and carries the bytes accepted, and a run that finished since its last
append holds nothing open or pending. -/
structure Delivering (s : RingRun) (limit : Nat) : Prop where
  intact : s.Intact
  delivered : s.Delivered limit
  flushed_closed : s.flushed = true → s.ring.openRegion = none ∧ s.ring.pending = none

variable {τ : Type} [Transport τ]

/-- Once a send was refused, the run says so for good. -/
theorem refused_run {s : RingRun} (refused : s.refused = true) (ops : List (RingOp τ)) :
    (s.run ops).refused = true := by
  induction ops generalizing s with
  | nil => exact refused
  | cons op ops ih =>
    apply ih
    cases op <;> simp [step, refused]

/-- An acknowledgement keeps a run delivered: it credits bytes in flight but leaves the slices
lent, the pending region and the open payload in place. -/
theorem Delivered.ack {s : RingRun} {limit : Nat} (intact : s.Intact) (delivered : s.Delivered limit)
    (len : Nat) : (s.step (.ack len : RingOp τ)).Delivered limit := by
  obtain ⟨sameBuf, _, _⟩ := intact.inv.sentCells_onAck intact.buf_size len
  obtain ⟨samePending, _, sameTagged, sameMax⟩ := intact.inv.onAck_held len
  exact delivered.of_held rfl rfl
    (by simp only [RingRun.step, samePending, FrameRing.pendingSlice, sameBuf]) sameTagged sameMax

theorem Delivering.step {s : RingRun} {limit : Nat} (d : s.Delivering limit) (op : RingOp τ)
    (kept : (s.step op).refused = false) : (s.step op).Delivering limit := by
  have intact := d.intact.step op
  cases op with
  | append t framing bytes =>
    -- no refusal, so the append answered without an error and its moves accepted what it took
    obtain ⟨acc, moves, answer⟩ := append_moves s ⟨t, s.lent, false⟩ rfl framing bytes
    have clean : (s.ring.append (⟨t, s.lent, false⟩ : Recorded τ) framing bytes).transport.refused =
        false := by
      simp only [RingRun.step, Bool.or_eq_false_iff] at kept
      exact kept.2
    have answered : ∃ a, (s.ring.append (⟨t, s.lent, false⟩ : Recorded τ) framing bytes).result =
        .ok a := by
      cases result : (s.ring.append (⟨t, s.lent, false⟩ : Recorded τ) framing bytes).result with
      | ok a => exact ⟨a, rfl⟩
      | error e => rw [FrameRing.append_refused _ _ _ _ e result] at clean; cases clean
    obtain ⟨a, result⟩ := answered
    rw [answer a result, ← result] at moves
    have after := moves.delivered d.intact d.delivered
    exact ⟨intact, ⟨after.small, after.maxPayload_eq, after.framed⟩, fun flushed => by cases flushed⟩
  | finish t =>
    have after := (finish_moves s ⟨t, s.lent, false⟩ rfl).delivered d.intact d.delivered
    refine ⟨intact, ⟨after.small, after.maxPayload_eq, after.framed⟩, fun flushed => ?_⟩
    -- the run is flushed only when the finish answered that nothing is left to send
    cases result : (s.ring.finish (⟨t, s.lent, false⟩ : Recorded τ)).result with
    | ok answer =>
      cases answer with
      | none => exact FrameRing.finish_settled _ _ result
      | some _ => simp [RingRun.step, result] at flushed
    | error e => simp [RingRun.step, result] at flushed
  | ack len =>
    obtain ⟨samePending, sameOpen, -, -⟩ := d.intact.inv.onAck_held len
    refine ⟨intact, d.delivered.ack d.intact len, ?_⟩
    show s.flushed = true → (s.ring.onAck len).1.openRegion = none ∧ (s.ring.onAck len).1.pending = none
    rw [sameOpen, samePending]
    exact d.flushed_closed
  | rewind =>
    have same : s.ring.rewind = s.ring := d.intact.inv.rewind_eq
    have after := Move.rewind.delivered d.intact d.delivered
    refine ⟨intact, ⟨after.small, after.maxPayload_eq, after.framed⟩, ?_⟩
    show s.flushed = true → s.ring.rewind.openRegion = none ∧ s.ring.rewind.pending = none
    rw [same]
    exact d.flushed_closed

theorem Delivering.run {s : RingRun} {limit : Nat} (d : s.Delivering limit) (ops : List (RingOp τ))
    (kept : (s.run ops).refused = false) : (s.run ops).Delivering limit := by
  induction ops generalizing s with
  | nil => exact d
  | cons op ops ih =>
    -- a refusal at this step would last to the end of the run
    have stepKept : (s.step op).refused = false := by
      cases stepped : (s.step op).refused with
      | false => rfl
      | true =>
        have := refused_run stepped ops
        rw [show (s.step op).run ops = s.run (op :: ops) from rfl, kept] at this
        cases this
    exact ih (d.step op stepKept) kept

/-- A new ring whose limit fits a 16-bit length has lent, held and accepted nothing. -/
theorem start_delivering (size maxPayload sendThreshold : Nat) (small : maxPayload ≤ 0xFFFF) :
    (start (FrameRing.new size maxPayload sendThreshold)).Delivering maxPayload where
  intact := start_intact size maxPayload sendThreshold
  delivered := ⟨small, rfl, [], [], rfl, rfl, by simp, rfl⟩
  flushed_closed := fun flushed => by cases flushed

/-- What the transport has observed of a run: every slice it took is the wire form of one region,
of one framing, with one to `maxPayload` payload bytes; the regions' payloads, each byte tagged
with its framing, begin the bytes the run accepted, and are all of them once `finish` has
answered that nothing is left to send since the last append; and then acknowledging every byte
not yet acknowledged leaves no excess and a drained ring at offset 0. -/
def FramesAccepted (s : RingRun) (maxPayload : Nat) : Prop :=
  ∃ regions : List Region,
    s.lent.map (·.1.bytes) = regions.map Region.wire ∧
    (∀ x ∈ regions, 1 ≤ x.payload.length ∧ x.payload.length ≤ maxPayload) ∧
    regions.flatMap Region.tagged <+: s.accepted ∧
    (s.flushed = true →
      regions.flatMap Region.tagged = s.accepted ∧
      (s.ring.onAck (s.lentCells.length - s.credited)).2 = 0 ∧
      (s.ring.onAck (s.lentCells.length - s.credited)).1.isDrained = true ∧
      (s.ring.onAck (s.lentCells.length - s.credited)).1.head = 0 ∧
      (s.ring.onAck (s.lentCells.length - s.credited)).1.tail = 0)

/-- Along every run from a new ring, the transport receives the accepted bytes as frames. -/
theorem frames_carry_accepted_bytes (size : Nat) (maxPayload sendThreshold : UInt16)
    (ops : List (RingOp τ))
    (taken : ((start (FrameRing.new size maxPayload.toNat sendThreshold.toNat)).run ops).refused =
      false) :
    ((start (FrameRing.new size maxPayload.toNat sendThreshold.toNat)).run ops).FramesAccepted
      maxPayload.toNat := by
  have d := (start_delivering size maxPayload.toNat sendThreshold.toNat
    (by have := maxPayload.toNat_lt; omega)).run ops taken
  generalize (start (FrameRing.new size maxPayload.toNat sendThreshold.toNat)).run ops = s at d
  obtain ⟨sent, held, lentEq, pendEq, bounds, acc⟩ := d.delivered.framed
  refine ⟨sent, lentEq, fun x member => bounds x (List.mem_append_left held member),
    ⟨held.flatMap Region.tagged ++ s.ring.openTagged, by rw [acc, List.flatMap_append, List.append_assoc]⟩,
    fun flushed => ?_⟩
  obtain ⟨closed, idle⟩ := d.flushed_closed flushed
  -- nothing is held, and everything not acknowledged is in flight
  have noHeld : held = [] := by simpa [idle] using pendEq.symm
  have inFlight : s.lentCells.length - s.credited = s.ring.inFlight := by
    rw [← List.length_drop, d.intact.unacked, d.intact.inv.length_sentCells d.intact.buf_size]
  have drained := d.intact.inv.onAck_drains closed idle
  have atZero := (d.intact.inv.onAck s.ring.inFlight).zero_of_drained drained
  rw [inFlight]
  refine ⟨by rw [acc, noHeld, FrameRing.openTagged_of_closed closed]; simp, ?_, drained, atZero⟩
  rw [d.intact.inv.onAck_excess, Nat.min_self, Nat.sub_self]

/-- Three bytes appended as text to a ring with a send threshold of one go out at once, as one
frame, to a transport that takes everything. -/
theorem text_append_frames_accepted :
    ((start (FrameRing.new 16 8 1)).run
        [RingOp.append ({ capacity := 64 } : Loopback) (.frame .text) [7, 8, 9]]).refused = false ∧
      ((start (FrameRing.new 16 8 1)).run
        [RingOp.append ({ capacity := 64 } : Loopback) (.frame .text) [7, 8, 9]]).FramesAccepted 8 :=
  ⟨by decide, frames_carry_accepted_bytes 16 8 1
    [RingOp.append ({ capacity := 64 } : Loopback) (.frame .text) [7, 8, 9]] (by decide)⟩

end RingRun

end WebSocketCore
