import Mathlib
import WebSocketCore.Proofs.Ring.Invariant

/-! # Why the ring makes a writer wait

An append or a finish that takes nothing answers a reason to wait, and the ring answers it only
when the reason is owed an event that will come: `sendBuf` when a sealed region is pending and
longer than the window the transport offered, and `ack` when bytes are in flight, so that an
acknowledgement is on its way. A finish that answers no reason leaves nothing open or pending, so
a ring that is then not drained has bytes in flight. `ack` needs the representation invariant and
a buffer that holds one region: a drained ring starts over at offset 0, where a region always
opens.
-/

namespace WebSocketCore

namespace FrameRing

variable {τ : Type} [Transport τ]

/-- What a writer told to wait for `reason` is owed by the ring and a transport: bytes in flight
for an acknowledgement, a pending region longer than the transport's window for send room, and
nothing open or pending for a drain. -/
def Owes (r : FrameRing) (t : τ) : WaitReason → Prop
  | .ack => 0 < r.inFlight
  | .sendBuf => ∃ p, r.pending = some p ∧ Transport.sendCapacity t < p.stop - p.start
  | .flush => r.openRegion = none ∧ r.pending = none
  | .recv | .ended => True

/-! ## The buffer's size never changes -/

@[simp] theorem skipWraps_size (r : FrameRing) : r.skipWraps.size = r.size := by
  unfold skipWraps
  dsimp only
  split_ifs <;> rfl

@[simp] theorem rewind_size (r : FrameRing) : r.rewind.size = r.size := by
  unfold rewind
  split <;> rfl

@[simp] theorem sealOpen_size (r : FrameRing) (more : Bool) : (r.sealOpen more).size = r.size := by
  unfold sealOpen
  split
  · rfl
  · dsimp only
    split_ifs
    · simp
    · simp only [pushMarker]
      split_ifs <;> rfl

theorem openRegion?_size {r r' : FrameRing} {framing : Framing}
    (opened : r.openRegion? framing = some r') : r'.size = r.size := by
  rcases (openRegion?_cases opened).2 with ⟨-, rfl⟩ | ⟨-, -, -, rfl⟩ <;> rfl

@[simp] theorem onAck_size (r : FrameRing) (len : Nat) : (r.onAck len).1.size = r.size := by
  simp [onAck]

@[simp] theorem onAck_openRegion (r : FrameRing) (len : Nat) :
    (r.onAck len).1.openRegion = r.openRegion := by
  simp [onAck]

@[simp] theorem onAck_pending (r : FrameRing) (len : Nat) : (r.onAck len).1.pending = r.pending := by
  simp [onAck]

end FrameRing

namespace RingRun

theorem Move.size_eq {s s' : RingRun} (move : Move s s') : s'.ring.size = s.ring.size := by
  cases move with
  | send => rfl
  | sealOpen more => exact FrameRing.sealOpen_size _ more
  | rewind => exact FrameRing.rewind_size _
  | openRegion _ _ opened => exact FrameRing.openRegion?_size opened
  | fill => rfl

theorem Moves.size_eq {s s' : RingRun} (moves : Moves s s') : s'.ring.size = s.ring.size := by
  induction moves with
  | refl => rfl
  | tail _ last ih => rw [last.size_eq, ih]

end RingRun

namespace FrameRing

variable {τ : Type} [Transport τ]

@[simp] theorem append_size (r : FrameRing) (t : τ) (framing : Framing) (bytes : List UInt8) :
    (r.append t framing bytes).ring.size = r.size := by
  obtain ⟨_, moves, _⟩ := RingRun.append_moves (RingRun.start r) ⟨t, [], false⟩ rfl framing bytes
  have same : (r.append t framing bytes).ring =
      (r.append (⟨t, [], false⟩ : Recorded τ) framing bytes).ring := by
    rw [← RingOutcome.unrecord_ring, append_recorded]
  rw [same]
  exact moves.size_eq

@[simp] theorem finish_size (r : FrameRing) (t : τ) : (r.finish t).ring.size = r.size := by
  have same : (r.finish t).ring = (r.finish (⟨t, [], false⟩ : Recorded τ)).ring := by
    rw [← RingOutcome.unrecord_ring, finish_recorded]
  rw [same]
  exact (RingRun.finish_moves (RingRun.start r) ⟨t, [], false⟩ rfl).size_eq

/-! ## Bytes in flight -/

/-- With nothing pending, a marker in the queue is owed by bytes in flight: the front marker is a
region's, with an unacknowledged byte, and every marker's region has been sent. -/
theorem Inv.inFlight_pos {r : FrameRing} (inv : r.Inv) (idle : r.pending = none)
    (queued : r.markers ≠ []) : 0 < r.inFlight := by
  obtain ⟨m, ms, split⟩ := List.exists_cons_of_ne_nil queued
  have plain : m.wrap = false := inv.front m (by rw [split]; rfl)
  have owed : 1 ≤ m.len := (inv.region_ok m (by rw [split]; exact List.mem_cons_self) plain).1
  have sent : r.sentMarkers = m :: ms := by simp [sentMarkers, idle, split]
  rw [inv.inFlight_eq, sent, List.map_cons, List.sum_cons]
  omega

/-- A ring that is not drained but has nothing open or pending has bytes in flight. -/
theorem Inv.inFlight_pos_of_busy {r : FrameRing} (inv : r.Inv) (closed : r.openRegion = none)
    (idle : r.pending = none) (busy : r.isDrained = false) : 0 < r.inFlight := by
  refine inv.inFlight_pos idle fun empty => ?_
  have drained : r.isDrained = true := (isDrained_iff r).mpr ⟨closed, idle, empty⟩
  rw [drained] at busy
  cases busy

/-- A region opens on a drained ring that holds one. -/
theorem Inv.openRegion?_of_drained {r : FrameRing} (inv : r.Inv) (drained : r.isDrained = true)
    (roomy : minRegion ≤ r.size) (framing : Framing) : (r.openRegion? framing).isSome := by
  obtain ⟨-, -, empty⟩ := (isDrained_iff r).mp drained
  obtain ⟨head, tail⟩ := inv.zero_of_drained drained
  have free : ¬r.markers.length + 2 > markerSlots := by simp [empty, markerSlots]
  have fits : ¬r.size - r.head < minRegion := by omega
  unfold FrameRing.openRegion?
  rw [if_neg free, if_pos (by omega), if_neg fits]
  rfl

/-! ## The answers to wait -/

/-- A send that does not go through and answers no error was stalled by the window: the ring and
the transport are as they were, and the pending region is longer than the window. -/
theorem thenSend_stalled {α : Type} (r : FrameRing) (t : τ) (stalled : α)
    (k : FrameRing → τ → RingOutcome τ α) (stuck : (r.sendPending t).1 ≠ .ok true) {a : α}
    (answer : (r.thenSend t stalled k).result = .ok a) :
    a = stalled ∧ (r.thenSend t stalled k).ring = r ∧ (r.thenSend t stalled k).transport = t ∧
      r.Owes t .sendBuf := by
  unfold thenSend sendPending at *
  rcases pending : r.pending with _ | p
  · simp [pending] at stuck
  · simp only [pending] at stuck answer ⊢
    by_cases small : Transport.sendCapacity t < p.stop - p.start
    · simp only [small, if_true] at answer ⊢
      exact ⟨(Except.ok.inj answer).symm, trivial, trivial, p, pending, small⟩
    · rcases taken : Transport.send t (r.pendingSlice p) p.more with ⟨t', ok⟩
      cases ok <;> simp [small, taken] at stuck answer

/-- A send answers what stalled it, or what the operation after it answers. -/
theorem thenSend_answer {α : Type} (r : FrameRing) (t : τ) (stalled : α)
    (k : FrameRing → τ → RingOutcome τ α) {a : α} (answer : (r.thenSend t stalled k).result = .ok a) :
    a = stalled ∨ ∃ r' t', (k r' t').result = .ok a := by
  by_cases ok : (r.sendPending t).1 = .ok true
  · rw [thenSend_of_ok _ _ _ _ ok] at answer
    exact .inr ⟨_, _, answer⟩
  · exact .inl ((thenSend_of_ne _ _ _ _ ok).2.2 a answer)

/-- Copying into an open region answers the bytes taken, never a reason to wait. -/
theorem fillOpen_took {r : FrameRing} {t : τ} {o : OpenRegion} {bytes : List UInt8} {a : Append}
    (answer : (r.fillOpen t o bytes).result = .ok a) : ∃ n, a = .took n := by
  unfold fillOpen at answer
  dsimp only at answer
  split_ifs at answer
  · rcases thenSend_answer _ _ _ _ answer with stalled | ⟨_, _, sent⟩
    · exact ⟨_, stalled⟩
    · exact ⟨_, (Except.ok.inj sent).symm⟩
  · exact ⟨_, (Except.ok.inj answer).symm⟩

/-- Placing bytes waits only for acknowledgements, when no region can open: it then leaves
nothing open and the pending region as it was. -/
theorem place_blocked {r : FrameRing} {t : τ} {framing : Framing} {bytes : List UInt8}
    {y : WaitReason} (blocked : (r.place t framing bytes).result = .ok (.blocked y)) :
    y = .ack ∧ (r.place t framing bytes).ring.openRegion = none ∧
      (r.place t framing bytes).ring.pending = r.pending ∧
      (r.place t framing bytes).ring.openRegion? framing = none := by
  unfold place at blocked ⊢
  split at blocked
  · obtain ⟨n, never⟩ := fillOpen_took blocked
    cases never
  · rename_i closed
    dsimp only at blocked ⊢
    split at blocked
    · rename_i shut
      cases blocked
      exact ⟨rfl, by simp [closed], by simp, shut⟩
    · rename_i r' opened
      obtain ⟨⟨o, isOpen, -⟩, -⟩ := openRegion?_spec _ _ _ opened
      split at blocked
      · obtain ⟨n, never⟩ := fillOpen_took blocked
        cases never
      · rename_i shut
        rw [isOpen] at shut
        cases shut

/-- An append waits for send room only with a pending region longer than the window, and for
acknowledgements only with bytes in flight. -/
theorem append_owes {r : FrameRing} (inv : r.Inv) (roomy : minRegion ≤ r.size) (t : τ)
    (framing : Framing) (bytes : List UInt8) {y : WaitReason}
    (blocked : (r.append t framing bytes).result = .ok (.blocked y)) :
    (r.append t framing bytes).ring.Owes (r.append t framing bytes).transport y := by
  have kept := inv.append t framing bytes
  have size := append_size r t framing bytes
  unfold append at blocked kept size ⊢
  split at blocked
  · cases blocked
  rename_i nonempty
  simp only [nonempty, Bool.false_eq_true, if_false] at kept size ⊢
  by_cases ok₁ : (r.sendPending t).1 = .ok true
  · rw [thenSend_of_ok _ _ _ _ ok₁] at blocked kept size ⊢
    by_cases ok₂ : (((r.sendPending t).2.1.sealOther framing).sendPending (r.sendPending t).2.2).1 =
        .ok true
    · rw [thenSend_of_ok _ _ _ _ ok₂] at blocked kept size ⊢
      -- the ring after both sends has nothing pending, and no region opens on it
      obtain ⟨rfl, closed, pending, shut⟩ := place_blocked blocked
      rw [sendPending_pending_of_ok _ _ ok₂] at pending
      refine kept.inFlight_pos_of_busy closed pending (Bool.eq_false_iff.mpr fun drained => ?_)
      have opens := kept.openRegion?_of_drained drained (by rw [size]; exact roomy) framing
      rw [shut] at opens
      cases opens
    · obtain ⟨same, ring, transport, owes⟩ := thenSend_stalled _ _ _ _ ok₂ blocked
      cases same
      rw [ring, transport]
      exact owes
  · obtain ⟨same, ring, transport, owes⟩ := thenSend_stalled _ _ _ _ ok₁ blocked
    cases same
    rw [ring, transport]
    exact owes

/-- A finish waits only for send room, with a pending region longer than the window. -/
theorem finish_owes (r : FrameRing) (t : τ) {y : WaitReason}
    (waits : (r.finish t).result = .ok (some y)) :
    y = .sendBuf ∧ (r.finish t).ring.Owes (r.finish t).transport y := by
  unfold finish at waits ⊢
  by_cases ok₁ : (r.sendPending t).1 = .ok true
  · rw [thenSend_of_ok _ _ _ _ ok₁] at waits ⊢
    by_cases ok₂ : (((r.sendPending t).2.1.sealOpen false).sendPending (r.sendPending t).2.2).1 =
        .ok true
    · rw [thenSend_of_ok _ _ _ _ ok₂] at waits
      cases waits
    · obtain ⟨same, ring, transport, owes⟩ := thenSend_stalled _ _ _ _ ok₂ waits
      cases same
      rw [ring, transport]
      exact ⟨rfl, owes⟩
  · obtain ⟨same, ring, transport, owes⟩ := thenSend_stalled _ _ _ _ ok₁ waits
    cases same
    rw [ring, transport]
    exact ⟨rfl, owes⟩

/-- A finish that answers no reason to wait leaves nothing open or pending. -/
theorem finish_settled (r : FrameRing) (t : τ) (done : (r.finish t).result = .ok none) :
    (r.finish t).ring.openRegion = none ∧ (r.finish t).ring.pending = none := by
  unfold finish at done ⊢
  by_cases ok₁ : (r.sendPending t).1 = .ok true
  · rw [thenSend_of_ok _ _ _ _ ok₁] at done ⊢
    by_cases ok₂ : (((r.sendPending t).2.1.sealOpen false).sendPending (r.sendPending t).2.2).1 =
        .ok true
    · rw [thenSend_of_ok _ _ _ _ ok₂]
      exact ⟨by simp, sendPending_pending_of_ok _ _ ok₂⟩
    · cases (thenSend_of_ne _ _ _ _ ok₂).2.2 none done
  · cases (thenSend_of_ne _ _ _ _ ok₁).2.2 none done

end FrameRing

end WebSocketCore
