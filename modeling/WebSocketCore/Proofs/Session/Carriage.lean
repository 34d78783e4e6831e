import Mathlib
import WebSocketCore.Proofs.Ring.Delivery
import WebSocketCore.Proofs.Session.NeverStuck
import WebSocketCore.Proofs.Session.TaskMoves
import WebSocketCore.Simulation.Peer

/-! # A loopback link carries a run of its ring

Under a link over a `Loopback` transport, the ring goes through the operations of a ring run
(`RingRun`): appends and finishes against the transport, acknowledgements and rewinds. The link
carries such a run (`Link.Carries`) when the run's ring is the link's, the transport's own record
of sends is what the run lent, and the transport's unacknowledged bytes are the lent bytes not yet
credited. The run then keeps its delivery invariant, so the bytes the transport recorded are
whole regions carrying, in order, the bytes the appends accepted.

Every operation of the task on the link, every callback and every report of consumed bytes keeps
a carried run carried, by playing the matching ring operations; so does the peer's
acknowledgement of sent bytes, which lowers the transport's unacknowledged count as it credits
the ring. A carried link's unacknowledged bytes are its ring's bytes in flight, and a task told to
wait is owed unacknowledged bytes when the transport's window holds a whole region.
-/

namespace WebSocketCore

/-! ## Ring operations only send -/

namespace FrameRing

variable {τ : Type} [Transport τ] {P : τ → Prop}

section Keeps

variable (sent : ∀ t s more, P t → P (Transport.send t s more).1)
include sent

theorem sendPending_keeps (r : FrameRing) {t : τ} (held : P t) : P (r.sendPending t).2.2 := by
  unfold sendPending
  rcases r.pending with _ | p
  · exact held
  · dsimp only
    split_ifs
    · exact held
    · have taken := sent t (r.pendingSlice p) p.more held
      rcases answer : Transport.send t (r.pendingSlice p) p.more with ⟨t', ok⟩
      rw [answer] at taken
      cases ok <;> exact taken

theorem thenSend_keeps {α : Type} (r : FrameRing) {t : τ} (stalled : α)
    {k : FrameRing → τ → RingOutcome τ α} (next : ∀ r' t', P t' → P (k r' t').transport)
    (held : P t) : P (r.thenSend t stalled k).transport := by
  have kept := sendPending_keeps sent r held
  unfold thenSend
  rcases pending : r.sendPending t with ⟨result, r', t'⟩
  rw [pending] at kept
  rcases result with e | (_ | _)
  · exact kept
  · exact kept
  · exact next r' t' kept

theorem fillOpen_keeps (r : FrameRing) {t : τ} (o : OpenRegion) (bytes : List UInt8)
    (held : P t) : P (r.fillOpen t o bytes).transport := by
  unfold fillOpen
  dsimp only
  split_ifs
  · exact thenSend_keeps sent _ _ (fun _ _ kept => kept) held
  · exact held

theorem place_keeps (r : FrameRing) {t : τ} (framing : Framing) (bytes : List UInt8)
    (held : P t) : P (r.place t framing bytes).transport := by
  unfold place
  split
  · exact fillOpen_keeps sent r _ bytes held
  · dsimp only
    split
    · exact held
    · split
      · exact fillOpen_keeps sent _ _ bytes held
      · exact held

theorem append_keeps (r : FrameRing) {t : τ} (framing : Framing) (bytes : List UInt8)
    (held : P t) : P (r.append t framing bytes).transport := by
  unfold append
  split
  · exact held
  · exact thenSend_keeps sent r _ (fun _ _ kept => thenSend_keeps sent _ _
      (fun _ _ kept' => place_keeps sent _ _ _ kept') kept) held

theorem finish_keeps (r : FrameRing) {t : τ} (held : P t) : P (r.finish t).transport := by
  unfold finish
  exact thenSend_keeps sent r _ (fun _ _ kept => thenSend_keeps sent _ _ (fun _ _ kept' => kept')
    kept) held

end Keeps

end FrameRing

/-! ## A loopback in step with a recorded run -/

namespace Recorded

/-- A loopback wrapped in a record is in step with it when its own record of sends is the slices
the wrapper kept, its unacknowledged bytes are the kept bytes less `credited`, and it takes every
send. -/
structure Synced (credited : Nat) (t : Recorded Loopback) : Prop where
  sends_eq : t.inner.sends.toList = t.lent.map fun x => (x.1.bytes, x.2)
  unacked_eq : t.inner.unacked + credited = (t.lent.flatMap (·.1.cells)).length
  takes : t.inner.failSend = false
  kept : t.refused = false

theorem Synced.send {credited : Nat} {t : Recorded Loopback} (synced : t.Synced credited)
    (s : Slice) (more : Bool) : (Transport.send t s more).1.Synced credited := by
  obtain ⟨sends, unacked, takes, kept⟩ := synced
  -- the loopback takes the slice, and the wrapper keeps it
  have taken : (Transport.send t s more).1 =
      ⟨{ t.inner with sends := t.inner.sends.push (s.bytes, more),
                      unacked := t.inner.unacked + s.bytes.length },
        t.lent ++ [(s, more)], t.refused⟩ := by
    simp [Transport.send, takes]
  have cells : s.cells.length = s.bytes.length := by simp
  rw [taken]
  refine ⟨by simp [sends], ?_, takes, kept⟩
  simp only [List.flatMap_append, List.length_append, List.flatMap_cons, List.flatMap_nil,
    List.append_nil, cells]
  omega

end Recorded

/-! ## Pending regions fit a window of the payload limit and a header -/

/-- A region goes out as its payload behind a header of at most four bytes. -/
theorem Region.length_wire_le (x : Region) : x.wire.length ≤ x.payload.length + 4 := by
  unfold Region.wire
  split
  · omega
  · split <;> simp

/-- The pending region ends at the head. -/
theorem FrameRing.Inv.pending_stop {r : FrameRing} (inv : r.Inv) {p : PendingRegion}
    (pending : r.pending = some p) : p.stop = r.head := by
  obtain ⟨ms, m, split, plain, placed, ends⟩ := inv.pending_last p pending
  have closed := inv.pending_closed (by simp [pending])
  have laid := inv.layout
  rw [split, FrameRing.layoutEnd_append, FrameRing.layoutEnd_cons, FrameRing.layoutEnd_nil,
    FrameRing.frontier_of_closed closed] at laid
  simp only [Marker.next, plain, Bool.false_eq_true, if_false] at laid
  omega

/-- A pending region holds at most the payload limit and a header. -/
theorem RingRun.Delivering.pending_len_le {s : RingRun} {limit : Nat} (d : s.Delivering limit)
    {p : PendingRegion} (pending : s.ring.pending = some p) : p.stop - p.start ≤ limit + 4 := by
  obtain ⟨sent, held, -, pendEq, bounds, -⟩ := d.delivered.framed
  simp only [pending, Option.toList_some, List.map_cons, List.map_nil] at pendEq
  obtain ⟨x, rest, rfl, wire, -⟩ := List.map_eq_cons_iff.mp pendEq.symm
  -- the region's bytes lie in the buffer, up to the head
  have stop := d.intact.inv.pending_stop pending
  have inside : s.ring.head ≤ s.ring.buf.size := d.intact.buf_size ▸ d.intact.inv.head_le
  have length : (s.ring.pendingSlice p).bytes.length = p.stop - p.start := by
    simp only [FrameRing.pendingSlice, Slice.length_bytes]
    omega
  have small := (bounds x (by simp)).2
  have header := x.length_wire_le
  rw [wire, length] at header
  omega

/-! ## Links that carry a run -/

namespace Loopback

/-- Reports of consumed bytes leave the window alone. -/
@[simp] theorem foldl_recved_capacity (t : Loopback) (credits : List Nat) :
    (credits.foldl Transport.recved t).capacity = t.capacity := by
  induction credits generalizing t with
  | nil => rfl
  | cons n credits ih => exact ih _

@[simp] theorem foldl_recved_unacked (t : Loopback) (credits : List Nat) :
    (credits.foldl Transport.recved t).unacked = t.unacked := by
  induction credits generalizing t with
  | nil => rfl
  | cons n credits ih => exact ih _

end Loopback

namespace Link

/-- A link over a loopback carries a run of its ring, whose regions hold at most `limit` payload
bytes: the run keeps its delivery invariant and took every send, its ring is the link's and can
hold a region, the loopback's record of sends is what the run lent, the loopback's
unacknowledged bytes are the lent bytes not yet credited, and the loopback takes every send. -/
structure Carries (limit : Nat) (l : Link Loopback) (s : RingRun) : Prop where
  delivering : s.Delivering limit
  kept : s.refused = false
  ring_eq : s.ring = l.ring
  roomy : minRegion ≤ l.ring.size
  sends_eq : l.transport.sends.toList = s.lent.map fun x => (x.1.bytes, x.2)
  unacked_eq : l.transport.unacked + s.credited = s.lentCells.length
  takes : l.transport.failSend = false

namespace Carries

variable {limit : Nat} {l : Link Loopback} {s : RingRun}

/-- The loopback's unacknowledged bytes are the ring's bytes in flight. -/
theorem unacked (carries : l.Carries limit s) : l.transport.unacked = l.ring.inFlight := by
  have intact := carries.delivering.intact
  have inFlight := congrArg List.length intact.unacked
  rw [List.length_drop, intact.inv.length_sentCells intact.buf_size] at inFlight
  rw [← carries.ring_eq, ← inFlight]
  have := carries.unacked_eq
  omega

theorem sound (carries : l.Carries limit s) : l.Sound :=
  ⟨carries.ring_eq ▸ carries.delivering.intact.inv, carries.roomy⟩

/-- The loopback, wrapped with the run's record, is in step with the run. -/
theorem synced (carries : l.Carries limit s) :
    (⟨l.transport, s.lent, false⟩ : Recorded Loopback).Synced s.credited :=
  ⟨carries.sends_eq, carries.unacked_eq, carries.takes, rfl⟩

/-- A link with the same ring and the same record of sends, unacknowledged bytes and refusals
carries the same run. -/
theorem of_wire {l' : Link Loopback} (carries : l.Carries limit s) (ring : l'.ring = l.ring)
    (sends : l'.transport.sends = l.transport.sends)
    (unacked : l'.transport.unacked = l.transport.unacked)
    (takes : l'.transport.failSend = l.transport.failSend) : l'.Carries limit s :=
  ⟨carries.delivering, carries.kept, ring ▸ carries.ring_eq, ring ▸ carries.roomy,
    sends ▸ carries.sends_eq, unacked ▸ carries.unacked_eq, takes ▸ carries.takes⟩

/-- A link whose ring and loopback are those of a ring operation on the wrapped loopback carries
the run that played it. -/
theorem of_outcome {α : Type} {l' : Link Loopback} {s' : RingRun} (carries : l.Carries limit s)
    (d : s'.Delivering limit) (kept : s'.refused = false)
    {o : RingOutcome (Recorded Loopback) α} (synced : o.transport.Synced s.credited)
    (ring : s'.ring = o.ring) (lent : s'.lent = o.transport.lent) (credited : s'.credited = s.credited)
    (ringEq : l'.ring = o.ring) (transport : l'.transport = o.transport.inner)
    (size : o.ring.size = l.ring.size) : l'.Carries limit s' := by
  refine ⟨d, kept, ring.trans ringEq.symm, by rw [ringEq, size]; exact carries.roomy, ?_, ?_, ?_⟩
  · rw [transport, synced.sends_eq, lent]
  · rw [transport, credited, RingRun.lentCells, lent]
    exact synced.unacked_eq
  · rw [transport]
    exact synced.takes

end Carries

variable {τ : Type} [Transport τ]

/-- An append on a usable link answers the ring's append and takes its ring and transport. -/
theorem append_parts {l : Link τ} (usable : l.usable = .ok ()) (framing : Framing)
    (bytes : List UInt8) :
    (l.append framing bytes).1 = (l.ring.append l.transport framing bytes).result ∧
      (l.append framing bytes).2.ring = (l.ring.append l.transport framing bytes).ring ∧
      (l.append framing bytes).2.transport = (l.ring.append l.transport framing bytes).transport := by
  rw [append_eq usable]
  split <;> simp_all [arm]

/-- A push on a usable link answers the ring's finish and takes its ring and transport. -/
theorem push_parts {l : Link τ} (usable : l.usable = .ok ()) :
    l.push.1 = (l.ring.finish l.transport).result ∧
      l.push.2.ring = (l.ring.finish l.transport).ring ∧
      l.push.2.transport = (l.ring.finish l.transport).transport := by
  rw [push_eq usable]
  split <;> simp_all [arm]

namespace Carries

variable {limit : Nat} {l : Link Loopback} {s : RingRun}

/-- An append on a usable link plays the append in the run, which accepts what the link's append
took. -/
theorem append (carries : l.Carries limit s) (usable : l.usable = .ok ()) (framing : Framing)
    (bytes : List UInt8) :
    (l.append framing bytes).2.Carries limit (s.step (.append l.transport framing bytes)) ∧
      (s.step (.append l.transport framing bytes)).accepted =
        s.accepted ++ Append.taken (l.append framing bytes).1 framing bytes ∧
      ∃ a, (l.append framing bytes).1 = .ok a := by
  obtain ⟨result, ring, transport⟩ := append_parts usable framing bytes
  set o := s.ring.append (⟨l.transport, s.lent, false⟩ : Recorded Loopback) framing bytes with named
  have same : o.unrecord = l.ring.append l.transport framing bytes := by
    rw [named, FrameRing.append_recorded, carries.ring_eq]
  have synced : o.transport.Synced s.credited :=
    FrameRing.append_keeps (fun _ _ _ held => held.send _ _) s.ring framing bytes carries.synced
  have kept : (s.step (.append l.transport framing bytes)).refused = false := by
    simp [RingRun.step, carries.kept, ← named, synced.kept]
  have size : o.ring.size = l.ring.size := by
    rw [← RingOutcome.unrecord_ring, same, FrameRing.append_size]
  -- the loopback refused nothing, so the append answered without an error
  have answered : ∃ a, o.result = .ok a := by
    rcases answer : o.result with e | a
    · have refused := FrameRing.append_refused s.ring _ framing bytes e answer
      rw [← named, synced.kept] at refused
      cases refused
    · exact ⟨a, rfl⟩
  have sameResult : (l.append framing bytes).1 = o.result := by
    rw [result, ← same]
    rfl
  refine ⟨carries.of_outcome (carries.delivering.step _ kept) kept synced rfl rfl rfl ?_ ?_ size,
    by rw [sameResult]; rfl, sameResult ▸ answered⟩
  · rw [ring, ← same, RingOutcome.unrecord_ring]
  · rw [transport, ← same]
    rfl

/-- A push on a usable link plays a finish in the run, which accepts nothing more. -/
theorem push (carries : l.Carries limit s) (usable : l.usable = .ok ()) :
    l.push.2.Carries limit (s.step (.finish l.transport)) ∧
      (s.step (.finish l.transport)).accepted = s.accepted ∧ ∃ a, l.push.1 = .ok a := by
  obtain ⟨result, ring, transport⟩ := push_parts usable
  set o := s.ring.finish (⟨l.transport, s.lent, false⟩ : Recorded Loopback) with named
  have same : o.unrecord = l.ring.finish l.transport := by
    rw [named, FrameRing.finish_recorded, carries.ring_eq]
  have synced : o.transport.Synced s.credited :=
    FrameRing.finish_keeps (fun _ _ _ held => held.send _ _) s.ring carries.synced
  have kept : (s.step (.finish l.transport)).refused = false := by
    simp [RingRun.step, carries.kept, ← named, synced.kept]
  have size : o.ring.size = l.ring.size := by
    rw [← RingOutcome.unrecord_ring, same, FrameRing.finish_size]
  have answered : ∃ a, o.result = .ok a := by
    rcases answer : o.result with e | a
    · have refused := FrameRing.finish_refused s.ring _ e answer
      rw [← named, synced.kept] at refused
      cases refused
    · exact ⟨a, rfl⟩
  have sameResult : l.push.1 = o.result := by
    rw [result, ← same]
    rfl
  refine ⟨carries.of_outcome (carries.delivering.step _ kept) kept synced rfl rfl rfl ?_ ?_ size, rfl,
    sameResult ▸ answered⟩
  · rw [ring, ← same, RingOutcome.unrecord_ring]
  · rw [transport, ← same]
    rfl

/-- A rewind of the ring plays a rewind in the run. -/
theorem rewind (carries : l.Carries limit s) :
    ({ l with ring := l.ring.rewind } : Link Loopback).Carries limit (s.step (RingOp.rewind : RingOp Loopback)) := by
  have kept : (s.step (RingOp.rewind : RingOp Loopback)).refused = false := carries.kept
  refine ⟨carries.delivering.step _ kept, kept, by simp [RingRun.step, carries.ring_eq],
    by simpa using carries.roomy, carries.sends_eq, carries.unacked_eq, carries.takes⟩

/-- A flush on a usable link plays a finish and a rewind in the run. -/
theorem flush (carries : l.Carries limit s) (usable : l.usable = .ok ()) :
    (∃ s', l.flush.2.Carries limit s' ∧ s'.accepted = s.accepted) ∧ ∃ a, l.flush.1 = .ok a := by
  obtain ⟨pushed, accepted, answered⟩ := carries.push usable
  unfold Link.flush
  rcases answer : l.push with ⟨r, l'⟩
  rw [answer] at pushed answered
  rcases r with e | _ | y
  · obtain ⟨a, never⟩ := answered
    cases never
  · dsimp only
    split
    · exact ⟨⟨_, pushed.rewind, accepted⟩, _, rfl⟩
    · exact ⟨⟨_, pushed, accepted⟩, _, rfl⟩
  · exact ⟨⟨_, pushed, accepted⟩, _, rfl⟩

/-- The peer's acknowledgement of `len` bytes, lowering the loopback's unacknowledged count as it
credits the ring, plays an acknowledgement in the run. -/
theorem acknowledge (carries : l.Carries limit s) (len : Nat) :
    ({ l with transport := l.transport.acknowledge len }.onSent len).Carries limit
      (s.step (RingOp.ack len : RingOp Loopback)) := by
  have kept : (s.step (RingOp.ack len : RingOp Loopback)).refused = false := carries.kept
  have unacked := carries.unacked
  have total := carries.unacked_eq
  refine ⟨carries.delivering.step _ kept, kept, by simp [RingRun.step, onSent, carries.ring_eq],
    by simpa [onSent] using carries.roomy, carries.sends_eq, ?_, carries.takes⟩
  simp only [onSent, Loopback.acknowledge, RingRun.step, RingRun.lentCells, carries.ring_eq] at total ⊢
  omega

end Carries

/-- What a link a task parked on looks like: a wait for send room or an acknowledgement is owed
and armed, and a wait for the ring to drain has nothing open or pending on a ring that has not
drained. -/
def Awaits (l : Link τ) : WaitReason → Prop
  | .sendBuf => l.Owed .sendBuf ∧ l.armedAcks = l.acks
  | .ack => l.Owed .ack ∧ l.armedAcks = l.acks
  | .flush => l.ring.openRegion = none ∧ l.ring.pending = none ∧ l.ring.isDrained = false
  | .recv | .ended => False

/-- An append that tells the task to wait leaves the link awaiting the reason. -/
theorem append_awaits {l : Link τ} (sound : l.Sound) {framing : Framing} {bytes : List UInt8}
    {y : WaitReason} (blocked : (l.append framing bytes).1 = .ok (.blocked y)) :
    (l.append framing bytes).2.Awaits y := by
  have owed := append_owed sound blocked
  rcases usable_cases l with ⟨e, broken⟩ | usable
  · simp [Link.append, broken] at blocked
  · have armed : (l.append framing bytes).2.armedAcks = (l.append framing bytes).2.acks := by
      rw [append_eq usable] at blocked ⊢
      split <;> simp_all [arm]
    obtain ⟨result, -, -⟩ := append_parts usable framing bytes
    rcases FrameRing.append_blocked_reason (result.symm.trans blocked) with rfl | rfl
    · exact ⟨owed, armed⟩
    · exact ⟨owed, armed⟩

/-- A push that tells the task to wait leaves the link awaiting send room. -/
theorem push_awaits {l : Link τ} {y : WaitReason} (waits : l.push.1 = .ok (some y)) :
    l.push.2.Awaits y := by
  have owed := push_owed waits
  rcases usable_cases l with ⟨e, broken⟩ | usable
  · simp [Link.push, broken] at waits
  · have armed : l.push.2.armedAcks = l.push.2.acks := by
      rw [push_eq usable] at waits ⊢
      split <;> simp_all [arm]
    obtain ⟨result, -, -⟩ := push_parts usable
    rw [(FrameRing.finish_owes _ _ (result.symm.trans waits)).1] at owed ⊢
    exact ⟨owed, armed⟩

/-- A link with the ring, the transport and the acknowledgement counts of a link awaits what that
link awaits. -/
theorem Awaits.of_same {l l' : Link τ} {y : WaitReason} (awaits : l.Awaits y)
    (ring : l'.ring = l.ring) (transport : l'.transport = l.transport) (acks : l'.acks = l.acks)
    (armed : l'.armedAcks = l.armedAcks) : l'.Awaits y := by
  cases y with
  | sendBuf => exact ⟨awaits.1.of_same ring transport, by rw [acks, armed]; exact awaits.2⟩
  | ack => exact ⟨awaits.1.of_same ring transport, by rw [acks, armed]; exact awaits.2⟩
  | flush =>
    simp only [Awaits, ring] at awaits ⊢
    exact awaits
  | recv => exact awaits.elim
  | ended => exact awaits.elim

/-- Reporting consumed bytes keeps what the link awaits. -/
theorem Awaits.settle {l : Link τ} {y : WaitReason} (awaits : l.Awaits y) : l.settle.Awaits y := by
  have same : l.settle.ring = l.ring ∧ l.settle.acks = l.acks ∧ l.settle.armedAcks = l.armedAcks := by
    unfold Link.settle
    split_ifs <;> exact ⟨rfl, rfl, rfl⟩
  cases y with
  | sendBuf => exact ⟨awaits.1.settle, by rw [same.2.1, same.2.2]; exact awaits.2⟩
  | ack => exact ⟨awaits.1.settle, by rw [same.2.1, same.2.2]; exact awaits.2⟩
  | flush =>
    simp only [Awaits, same.1] at awaits ⊢
    exact awaits
  | recv => exact awaits.elim
  | ended => exact awaits.elim

namespace Carries

variable {limit : Nat} {l : Link Loopback} {s : RingRun}

/-- A task parked on a carried link whose loopback's window holds a whole region is owed
unacknowledged bytes. -/
theorem unacked_pos (carries : l.Carries limit s) (window : limit + 4 ≤ l.transport.capacity)
    {y : WaitReason} (awaits : l.Awaits y) : 0 < l.transport.unacked := by
  cases y with
  | sendBuf =>
    obtain ⟨⟨t, credits, eq, p, pending, small⟩, -⟩ := awaits
    have len := carries.delivering.pending_len_le (carries.ring_eq ▸ pending)
    change t.capacity - t.unacked < p.stop - p.start at small
    have capacity : t.capacity = l.transport.capacity := by rw [eq, Loopback.foldl_recved_capacity]
    have unacked : t.unacked = l.transport.unacked := by rw [eq, Loopback.foldl_recved_unacked]
    omega
  | ack =>
    obtain ⟨⟨t, credits, eq, owes⟩, -⟩ := awaits
    rw [carries.unacked]
    exact owes
  | flush =>
    obtain ⟨closed, idle, busy⟩ := awaits
    rw [carries.unacked]
    exact (carries.ring_eq ▸ carries.delivering.intact.inv).inFlight_pos_of_busy closed idle busy
  | recv => exact awaits.elim
  | ended => exact awaits.elim

end Carries

end Link

end WebSocketCore
