import Mathlib
import WebSocketCore.Proofs.Ring.Refusal
import WebSocketCore.Proofs.Session.Writing

/-! # An append always has a way out

On a reachable ring that holds a region and whose payload limit allows a byte, an append of a
nonempty offer takes between one byte and all of them, waits for send room only with a pending
region longer than the window, waits for acknowledgements only with bytes in flight, or fails at
a send the transport refused. It never answers that it took nothing.

The reason is that a region left open always has room for another region and a payload below the
limit (`FrameRing.Roomy`): a copy that leaves less seals the region, acknowledgements only give
room back, and every other operation leaves no region open. A region that opens starts with room
behind its reserve, so it takes a byte too.
-/

namespace WebSocketCore

namespace FrameRing

variable {τ : Type} [Transport τ]

@[simp] theorem sealOpen_maxPayload (r : FrameRing) (more : Bool) :
    (r.sealOpen more).maxPayload = r.maxPayload := by
  unfold sealOpen
  split
  · rfl
  · dsimp only
    split_ifs
    · simp
    · simp only [pushMarker]
      split_ifs <;> rfl

@[simp] theorem sealOther_maxPayload (r : FrameRing) (framing : Framing) :
    (r.sealOther framing).maxPayload = r.maxPayload := by
  unfold sealOther
  split
  · split_ifs
    · rfl
    · exact sealOpen_maxPayload r false
  · rfl

/-- A region left open has room for another region in front of it and a payload below the limit,
so that it takes a byte of every offer. -/
def Roomy (r : FrameRing) : Prop :=
  ∀ o, r.openRegion = some o → minRegion ≤ r.contiguousRoom ∧ r.filled o < r.maxPayload

theorem roomy_of_closed {r : FrameRing} (closed : r.openRegion = none) : r.Roomy := by
  intro o opened
  rw [closed] at opened
  cases opened

theorem Roomy.sendPending {r : FrameRing} (roomy : r.Roomy) (t : τ) : (r.sendPending t).2.1.Roomy := by
  rcases sendPending_cases r t with ⟨_, out⟩ | ⟨_, same, _⟩ | ⟨p, _, _, sent, _⟩
  · rw [out]
    exact roomy
  · rw [same]
    exact roomy
  · rw [sent]
    exact roomy

theorem Roomy.sealOther {r : FrameRing} (roomy : r.Roomy) (framing : Framing) :
    (r.sealOther framing).Roomy := by
  unfold FrameRing.sealOther
  split
  · split_ifs
    · exact roomy
    · exact roomy_of_closed (sealOpen_openRegion r false)
  · exact roomy

/-- Copying into the open region leaves it roomy, or seals it. -/
theorem fillOpen_roomy (r : FrameRing) (t : τ) {o : OpenRegion} (opened : r.openRegion = some o)
    (bytes : List UInt8) : (r.fillOpen t o bytes).ring.Roomy := by
  unfold fillOpen
  dsimp only
  split_ifs with due
  · apply roomy_of_closed
    rw [thenSend_answer_ring, sendPending_openRegion, sealOpen_openRegion]
  · -- the region stays open only when it is not due to be sealed
    intro o' opened'
    rw [fill_openRegion, opened, Option.some.injEq] at opened'
    subst opened'
    simp only [dueToSeal, Bool.or_eq_true, decide_eq_true_eq, not_or, not_le, not_lt] at due
    exact ⟨due.2, due.1.2⟩

/-- Placing bytes leaves the ring roomy, whatever it was. -/
theorem place_roomy (r : FrameRing) (t : τ) (framing : Framing) (bytes : List UInt8) :
    (r.place t framing bytes).ring.Roomy := by
  unfold place
  split
  · rename_i o opened
    exact fillOpen_roomy r t opened bytes
  · rename_i closed
    dsimp only
    split
    · exact roomy_of_closed (by rw [rewind_openRegion, closed])
    · rename_i r' _
      split
      · rename_i o isOpen
        exact fillOpen_roomy r' t isOpen bytes
      · rename_i shut
        exact roomy_of_closed shut

theorem Roomy.append {r : FrameRing} (roomy : r.Roomy) (t : τ) (framing : Framing)
    (bytes : List UInt8) : (r.append t framing bytes).ring.Roomy := by
  unfold FrameRing.append
  split
  · exact roomy
  by_cases ok₁ : (r.sendPending t).1 = .ok true
  · rw [thenSend_of_ok _ _ _ _ ok₁]
    have roomy₁ := (roomy.sendPending t).sealOther framing
    by_cases ok₂ : (((r.sendPending t).2.1.sealOther framing).sendPending (r.sendPending t).2.2).1 =
        .ok true
    · rw [thenSend_of_ok _ _ _ _ ok₂]
      exact place_roomy _ _ framing bytes
    · rw [(thenSend_of_ne _ _ _ _ ok₂).1]
      exact roomy₁.sendPending _
  · rw [(thenSend_of_ne _ _ _ _ ok₁).1]
    exact roomy.sendPending t

theorem Roomy.finish {r : FrameRing} (roomy : r.Roomy) (t : τ) : (r.finish t).ring.Roomy := by
  unfold FrameRing.finish
  by_cases ok₁ : (r.sendPending t).1 = .ok true
  · rw [thenSend_of_ok _ _ _ _ ok₁, thenSend_answer_ring]
    exact roomy_of_closed (by rw [sendPending_openRegion, sealOpen_openRegion])
  · rw [(thenSend_of_ne _ _ _ _ ok₁).1]
    exact roomy.sendPending t

theorem Roomy.rewind {r : FrameRing} (roomy : r.Roomy) : r.rewind.Roomy := by
  unfold FrameRing.rewind
  split
  · rename_i drained
    exact roomy_of_closed ((isDrained_iff r).mp drained).1
  · exact roomy

/-- With a region open, an acknowledgement only credits the bytes in flight and walks the markers
from the tail: the ring does not start over. -/
theorem Inv.onAck_of_open {r : FrameRing} (inv : r.Inv) (len : Nat) {o : OpenRegion}
    (opened : r.openRegion = some o) :
    (r.onAck len).1 =
      { r with inFlight := r.inFlight - min len r.inFlight,
               markers := (reclaim r.tail (min len r.inFlight) r.markers).1,
               tail := (reclaim r.tail (min len r.inFlight) r.markers).2.1 } := by
  rw [inv.onAck_eq len]
  simp only
  rw [skipWraps_of_front _ (reclaim_front _ _ _)]
  simp [isEmpty, isDrained, opened]

/-- An acknowledgement leaves an open region where it was and gives the ring's room back: the
tail moves forward, or past the jump to offset 0, and never in front of the head's side. -/
theorem Inv.contiguousRoom_le_onAck {r : FrameRing} (inv : r.Inv) (len : Nat) {o : OpenRegion}
    (opened : r.openRegion = some o) :
    (r.onAck len).1.head = r.head ∧ r.contiguousRoom ≤ (r.onAck len).1.contiguousRoom := by
  have same := inv.onAck_of_open len opened
  have head' : (r.onAck len).1.head = r.head := by rw [same]
  have tail' : (r.onAck len).1.tail = (reclaim r.tail (min len r.inFlight) r.markers).2.1 := by
    rw [same]
  have markers' : (r.onAck len).1.markers = (reclaim r.tail (min len r.inFlight) r.markers).1 := by
    rw [same]
  have wraps' := (inv.onAck len).wrapped_iff
  rw [markers', head', tail'] at wraps'
  have fewer := reclaim_countP_wrap r.tail (min len r.inFlight) r.markers
  have one := inv.wraps_le_one
  have wraps := inv.wrapped_iff
  have bound := inv.tail_le
  refine ⟨head', ?_⟩
  unfold contiguousRoom
  rw [head', tail', onAck_size]
  by_cases wrapped' : r.head < (reclaim r.tail (min len r.inFlight) r.markers).2.1
  · -- the jump is still there: the ring was wrapped, and its tail only moved forward
    have jumps := wraps'.mpr wrapped'
    have forward := le_reclaim_tail r.tail (min len r.inFlight) r.markers (by omega)
    have wrapped : r.head < r.tail := wraps.mp (by omega)
    split_ifs <;> omega
  · -- the head is not behind the tail: the room runs to the end of the buffer
    split_ifs <;> omega

theorem Roomy.onAck {r : FrameRing} (roomy : r.Roomy) (inv : r.Inv) (len : Nat) :
    (r.onAck len).1.Roomy := by
  intro o opened
  rw [onAck_openRegion] at opened
  obtain ⟨sameHead, roomier⟩ := inv.contiguousRoom_le_onAck len opened
  obtain ⟨room, below⟩ := roomy o opened
  have sameMax := (inv.onAck_held len).2.2.2
  refine ⟨Nat.le_trans room roomier, ?_⟩
  simp only [filled, sameHead, sameMax]
  exact below

/-- Every reachable ring is roomy. -/
theorem Reachable.roomy {r : FrameRing} (reach : r.Reachable) : r.Roomy := by
  induction reach with
  | new => exact roomy_of_closed rfl
  | clear => exact roomy_of_closed rfl
  | append t framing bytes _ ih => exact ih.append t framing bytes
  | finish t _ ih => exact ih.finish t
  | ack len reach ih => exact ih.onAck reach.inv len
  | rewind _ ih => exact ih.rewind

/-! ## What an append takes -/

/-- Placing bytes takes no more than offered. -/
theorem place_took_le {r : FrameRing} {t : τ} {framing : Framing} {bytes : List UInt8} {n : Nat}
    (took : (r.place t framing bytes).result = .ok (.took n)) : n ≤ bytes.length := by
  unfold place at took
  split at took
  · rw [Append.took.inj (fillOpen_took_eq took)]
    exact (fill_snd_le _ _ bytes).1
  · dsimp only at took
    split at took
    · cases took
    · split at took
      · rw [Append.took.inj (fillOpen_took_eq took)]
        exact (fill_snd_le _ _ bytes).1
      · cases took

/-- Placing bytes on a roomy ring takes between one of them and all. -/
theorem Roomy.place_took {r : FrameRing} (roomy : r.Roomy) {t : τ} {framing : Framing}
    {bytes : List UInt8} (offered : bytes ≠ []) (limit : 1 ≤ r.maxPayload) {n : Nat}
    (took : (r.place t framing bytes).result = .ok (.took n)) : 1 ≤ n ∧ n ≤ bytes.length := by
  refine ⟨?_, place_took_le took⟩
  cases opened : r.openRegion with
  | none => exact place_took_pos opened offered limit took
  | some o =>
    -- the open region has room and payload to spare
    have length : 0 < bytes.length := List.length_pos_iff.mpr offered
    obtain ⟨room, below⟩ := roomy o opened
    unfold place at took
    rw [opened] at took
    rw [Append.took.inj (fillOpen_took_eq took), fill_snd_eq]
    simp only [minRegion, headerReserve] at room
    omega

/-- An append on a roomy ring that takes bytes of a nonempty offer takes between one of them
and all. -/
theorem Roomy.append_took {r : FrameRing} (roomy : r.Roomy) {t : τ} {framing : Framing}
    {bytes : List UInt8} (offered : bytes ≠ []) (limit : 1 ≤ r.maxPayload) {n : Nat}
    (took : (r.append t framing bytes).result = .ok (.took n)) : 1 ≤ n ∧ n ≤ bytes.length := by
  unfold FrameRing.append at took
  rw [if_neg (by simpa using offered)] at took
  by_cases ok₁ : (r.sendPending t).1 = .ok true
  · rw [thenSend_of_ok _ _ _ _ ok₁] at took
    by_cases ok₂ : (((r.sendPending t).2.1.sealOther framing).sendPending (r.sendPending t).2.2).1 =
        .ok true
    · rw [thenSend_of_ok _ _ _ _ ok₂] at took
      exact (((roomy.sendPending t).sealOther framing).sendPending _).place_took offered
        (by simpa using limit) took
    · cases (thenSend_of_ne _ _ _ _ ok₂).2.2 _ took
  · cases (thenSend_of_ne _ _ _ _ ok₁).2.2 _ took

/-- On a reachable ring that holds a region and whose payload limit allows a byte, an append of a
nonempty offer takes between one byte and all of them, waits for send room with a pending region
longer than the window, waits for acknowledgements with bytes in flight, or stops at a send the
transport refused. -/
theorem Reachable.append_answers {r : FrameRing} (reach : r.Reachable) (room : minRegion ≤ r.size)
    (limit : 1 ≤ r.maxPayload) (t : τ) (framing : Framing) {bytes : List UInt8}
    (offered : bytes ≠ []) :
    (∃ n, (r.append t framing bytes).result = .ok (.took n) ∧ 1 ≤ n ∧ n ≤ bytes.length) ∨
      ((r.append t framing bytes).result = .ok (.blocked .sendBuf) ∧
        (r.append t framing bytes).ring.Owes (r.append t framing bytes).transport .sendBuf) ∨
      ((r.append t framing bytes).result = .ok (.blocked .ack) ∧
        0 < (r.append t framing bytes).ring.inFlight) ∨
      (r.append t framing bytes).Refused := by
  cases result : (r.append t framing bytes).result with
  | error e => exact .inr (.inr (.inr (append_error r t framing bytes e result)))
  | ok a =>
    cases a with
    | took n => exact .inl ⟨n, rfl, reach.roomy.append_took offered limit result⟩
    | blocked y =>
      have owes := append_owes reach.inv room t framing bytes result
      rcases append_blocked_reason result with rfl | rfl
      · exact .inr (.inl ⟨rfl, owes⟩)
      · exact .inr (.inr (.inl ⟨rfl, owes⟩))

/-! ## After the reason to wait is met -/

/-- An append that waits for acknowledgements leaves nothing open or pending. -/
theorem append_blocked_ack {r : FrameRing} {t : τ} {framing : Framing} {bytes : List UInt8}
    (blocked : (r.append t framing bytes).result = .ok (.blocked .ack)) :
    (r.append t framing bytes).ring.openRegion = none ∧
      (r.append t framing bytes).ring.pending = none := by
  unfold FrameRing.append at blocked ⊢
  split at blocked
  · cases blocked
  rename_i nonempty
  simp only [nonempty, Bool.false_eq_true, if_false] at blocked ⊢
  by_cases ok₁ : (r.sendPending t).1 = .ok true
  · rw [thenSend_of_ok _ _ _ _ ok₁] at blocked ⊢
    by_cases ok₂ : (((r.sendPending t).2.1.sealOther framing).sendPending (r.sendPending t).2.2).1 =
        .ok true
    · rw [thenSend_of_ok _ _ _ _ ok₂] at blocked ⊢
      -- only placing the bytes waits for acknowledgements, and both sends went through
      obtain ⟨-, closed, pending, -⟩ := place_blocked blocked
      exact ⟨closed, pending.trans (sendPending_pending_of_ok _ _ ok₂)⟩
    · cases (thenSend_of_ne _ _ _ _ ok₂).2.2 _ blocked
  · cases (thenSend_of_ne _ _ _ _ ok₁).2.2 _ blocked

/-- With nothing pending, a send has nothing to do. -/
theorem sendPending_of_idle {r : FrameRing} (idle : r.pending = none) (t : τ) :
    r.sendPending t = (.ok true, r, t) := by
  simp [sendPending, idle]

/-- Sealing a region of another framing leaves a ring with no region open as it is. -/
theorem sealOther_of_closed {r : FrameRing} (closed : r.openRegion = none) (framing : Framing) :
    r.sealOther framing = r := by
  simp [sealOther, closed]

/-- On a drained ring that holds a region, an append never waits: a region opens at offset 0. -/
theorem Inv.append_of_drained {r : FrameRing} (inv : r.Inv) (drained : r.isDrained = true)
    (room : minRegion ≤ r.size) (t : τ) (framing : Framing) (bytes : List UInt8) (y : WaitReason) :
    (r.append t framing bytes).result ≠ .ok (.blocked y) := by
  intro blocked
  obtain ⟨closed, idle, -⟩ := (isDrained_iff r).mp drained
  have sent := sendPending_of_idle idle t
  have sealed := sealOther_of_closed closed framing
  unfold FrameRing.append at blocked
  split at blocked
  · cases blocked
  rw [thenSend_of_ok _ _ _ _ (by rw [sent]), sent] at blocked
  dsimp only at blocked
  rw [sealed, thenSend_of_ok _ _ _ _ (by rw [sent]), sent] at blocked
  dsimp only at blocked
  -- placing the bytes opens a region, and copying into it never waits
  obtain ⟨r', opened⟩ := Option.isSome_iff_exists.mp (inv.openRegion?_of_drained drained room framing)
  obtain ⟨⟨o, isOpen, -⟩, -⟩ := openRegion?_spec _ _ _ opened
  unfold place at blocked
  simp only [closed, inv.rewind_eq, opened, isOpen] at blocked
  obtain ⟨n, never⟩ := fillOpen_took blocked
  cases never

/-- Once the window holds the pending region and the transport takes it, an append does not wait
for send room again: it sends the region first, then waits at most for acknowledgements. -/
theorem Inv.append_blocked_of_sendable {r : FrameRing} (inv : r.Inv) {t : τ} {p : PendingRegion}
    (pending : r.pending = some p) (window : p.stop - p.start ≤ Transport.sendCapacity t)
    (takes : (Transport.send t (r.pendingSlice p) p.more).2 = true) {framing : Framing}
    {bytes : List UInt8} {y : WaitReason}
    (blocked : (r.append t framing bytes).result = .ok (.blocked y)) : y = .ack := by
  have ok₁ : (r.sendPending t).1 = .ok true := by
    unfold sendPending
    rcases taken : Transport.send t (r.pendingSlice p) p.more with ⟨t', ok⟩
    rw [taken] at takes
    simp only at takes
    simp [pending, Nat.not_lt.mpr window, taken, takes]
  have closed : (r.sendPending t).2.1.openRegion = none := by
    rw [sendPending_openRegion]
    exact inv.pending_closed (by simp [pending])
  have sealed := sealOther_of_closed closed framing
  have ok₂ : ((r.sendPending t).2.1.sendPending (r.sendPending t).2.2).1 = .ok true := by
    rw [sendPending_of_idle (sendPending_pending_of_ok _ _ ok₁)]
  unfold FrameRing.append at blocked
  split at blocked
  · cases blocked
  rw [thenSend_of_ok _ _ _ _ ok₁, sealed, thenSend_of_ok _ _ _ _ ok₂] at blocked
  exact (place_blocked blocked).1

end FrameRing

end WebSocketCore
