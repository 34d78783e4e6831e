import Mathlib
import WebSocketCore.Proofs.Ring.Delivery

/-! # Refused sends

A transport may refuse a send. The operation that made it then answers a write error and stops
with the ring as the refused send found it: the region stays pending, and the bytes in flight and
the markers are as they were. The region goes out whole on the next send the transport takes,
and no acknowledgement reaches it before.

Along a run, refusals do not set what the transport holds apart from what the ring was given: the
slices the transport took, then the pending region, then the open region's payload carry, in order
and each once, the bytes the appends copied into the ring (`RingRun.Framed`). An append that fails
may still have copied a first part of its bytes, into the region it sealed and could not send; its
caller is not told, and those bytes go out with that region (`RingRun.Copied`).
-/

namespace WebSocketCore

/-- The end of an operation at a refused send: the answer is a write error, and the ring and the
transport are what offering the ring's pending region to a transport that refuses it gives back,
the ring unchanged. -/
def RingOutcome.Refused {τ α : Type} [Transport τ] (o : RingOutcome τ α) : Prop :=
  o.result = .error .writeError ∧
    ∃ t₀ : τ, o.ring.sendPending t₀ = (.error .writeError, o.ring, o.transport)

/-- A refused send leaves a region pending. -/
theorem RingOutcome.Refused.pending {τ α : Type} [Transport τ] {o : RingOutcome τ α}
    (refused : o.Refused) : ∃ p, o.ring.pending = some p := by
  obtain ⟨_, t₀, failed⟩ := refused
  unfold FrameRing.sendPending at failed
  cases pending : o.ring.pending with
  | none => simp [pending] at failed
  | some p => exact ⟨p, rfl⟩

namespace FrameRing

variable {τ : Type} [Transport τ]

/-- A send fails only when the transport refuses the pending region, and then leaves the ring as
it was. -/
theorem sendPending_error (r : FrameRing) (t : τ) (e : NetError)
    (failed : (r.sendPending t).1 = .error e) :
    e = .writeError ∧ r.sendPending t = (.error .writeError, r, (r.sendPending t).2.2) := by
  unfold sendPending at failed ⊢
  rcases pending : r.pending with _ | p
  · simp [pending] at failed
  · simp only [pending] at failed ⊢
    by_cases small : Transport.sendCapacity t < p.stop - p.start
    · simp [small] at failed
    · rcases taken : Transport.send t (r.pendingSlice p) p.more with ⟨t', ok⟩
      cases ok <;> simp [small, taken] at failed ⊢
      exact failed.symm

/-- A send followed by a continuation that fails only at a refused send fails only at a refused
send. -/
theorem thenSend_error {α : Type} (r : FrameRing) (t : τ) (stalled : α)
    (k : FrameRing → τ → RingOutcome τ α)
    (honest : ∀ r t e, (k r t).result = .error e → (k r t).Refused)
    (e : NetError) (failed : (r.thenSend t stalled k).result = .error e) :
    (r.thenSend t stalled k).Refused := by
  unfold thenSend at failed ⊢
  rcases sent : r.sendPending t with ⟨result, r', t'⟩
  rw [sent] at failed
  rcases result with e' | (_ | _)
  · -- the send itself was refused: the ring it leaves is the ring it was given
    obtain ⟨rfl, same⟩ := sendPending_error r t e' (by rw [sent])
    rw [sent] at same
    obtain ⟨rfl, -⟩ := Prod.mk.inj (Prod.mk.inj same).2
    exact ⟨rfl, t, sent⟩
  · cases failed
  · exact honest r' t' e failed

theorem fillOpen_error (r : FrameRing) (t : τ) (o : OpenRegion) (bytes : List UInt8)
    (e : NetError) (failed : (r.fillOpen t o bytes).result = .error e) :
    (r.fillOpen t o bytes).Refused := by
  unfold fillOpen at failed ⊢
  dsimp only at failed ⊢
  split_ifs at failed ⊢
  exact thenSend_error _ t _ _ (fun _ _ _ answered => by cases answered) e failed

theorem place_error (r : FrameRing) (t : τ) (framing : Framing) (bytes : List UInt8)
    (e : NetError) (failed : (r.place t framing bytes).result = .error e) :
    (r.place t framing bytes).Refused := by
  unfold place at failed ⊢
  cases opened : r.openRegion with
  | some o =>
    simp only [opened] at failed ⊢
    exact fillOpen_error r t o bytes e failed
  | none =>
    simp only [opened] at failed ⊢
    cases fresh : r.rewind.openRegion? framing with
    | none => simp [fresh] at failed
    | some r' =>
      simp only [fresh] at failed ⊢
      cases opened' : r'.openRegion with
      | none => simp [opened'] at failed
      | some o =>
        simp only [opened'] at failed ⊢
        exact fillOpen_error r' t o bytes e failed

/-- An append fails only at a refused send, and stops there. -/
theorem append_error (r : FrameRing) (t : τ) (framing : Framing) (bytes : List UInt8)
    (e : NetError) (failed : (r.append t framing bytes).result = .error e) :
    (r.append t framing bytes).Refused := by
  unfold append at failed ⊢
  split at failed
  · cases failed
  · rename_i nonempty
    simp only [nonempty, Bool.false_eq_true, ↓reduceIte] at failed ⊢
    exact thenSend_error r t _ _ (fun r t e failed =>
      thenSend_error _ t _ _ (fun r t e failed => place_error r t framing bytes e failed)
        e failed) e failed

/-- A finish fails only at a refused send, and stops there. -/
theorem finish_error (r : FrameRing) (t : τ) (e : NetError)
    (failed : (r.finish t).result = .error e) : (r.finish t).Refused := by
  unfold finish at failed ⊢
  exact thenSend_error r t _ _ (fun r t e failed =>
    thenSend_error _ t _ _ (fun _ _ _ answered => by cases answered) e failed) e failed

/-- An acknowledgement leaves the pending region pending and whole: it is still the region of the
last marker, with all its bytes. -/
theorem Inv.onAck_keeps_pending {r : FrameRing} (inv : r.Inv) (len : Nat) {p : PendingRegion}
    (pending : r.pending = some p) :
    (r.onAck len).1.pending = some p ∧
      ∃ ms m, (r.onAck len).1.markers = ms ++ [m] ∧ m.wrap = false ∧ p.start + m.len = p.stop := by
  have kept : (r.onAck len).1.pending = some p := (inv.onAck_held len).1.trans pending
  obtain ⟨ms, m, split, plain, _, whole⟩ := (inv.onAck len).pending_last p kept
  exact ⟨kept, ms, m, split, plain, whole⟩

end FrameRing

namespace RingRun

variable {τ : Type} [Transport τ]

/-- A run whose lent slices, pending region and open payload carry `copied`: what is lent stays in
place until credited, and, with `copied` as the accepted bytes, the run is delivered. -/
structure Framed (s : RingRun) (copied : List (Framing × UInt8)) (limit : Nat) : Prop where
  intact : s.Intact
  delivered : ({ s with accepted := copied } : RingRun).Delivered limit

/-- What an operation copies into a ring: an append, a first part of its bytes under its framing,
the part it reports taken when it answers without an error; any other operation, nothing. -/
def Copied (r : FrameRing) : RingOp τ → List (Framing × UInt8) → Prop
  | .append t framing bytes, piece => ∃ k, piece = (bytes.take k).map (framing, ·) ∧
      ∀ a, (r.append t framing bytes).result = .ok a → piece = Append.taken (.ok a) framing bytes
  | _, piece => piece = []

/-- What the operations of a run copy into the ring, one after another. -/
def Copies (s : RingRun) : List (RingOp τ) → List (Framing × UInt8) → Prop
  | [], copied => copied = []
  | op :: ops, copied =>
    ∃ piece rest, Copied s.ring op piece ∧ (s.step op).Copies ops rest ∧ copied = piece ++ rest

/-- Delivery depends only on the ring, the lent slices and the accepted bytes. -/
theorem Delivered.of_eq {s s' : RingRun} {limit : Nat} (delivered : s.Delivered limit)
    (ring : s'.ring = s.ring) (lent : s'.lent = s.lent) (accepted : s'.accepted = s.accepted) :
    s'.Delivered limit :=
  delivered.of_held lent accepted (by rw [ring]) (by rw [ring]) (by rw [ring])

/-- Every operation keeps a run framed, with what it copies behind the bytes copied before. -/
theorem Framed.step {s : RingRun} {copied : List (Framing × UInt8)} {limit : Nat}
    (framed : s.Framed copied limit) (op : RingOp τ) :
    ∃ piece, Copied s.ring op piece ∧ (s.step op).Framed (copied ++ piece) limit := by
  have intact := framed.intact.step op
  -- the run with the copied bytes as its accepted ones makes the same moves
  have ghost : ({ s with accepted := copied } : RingRun).Intact :=
    ⟨framed.intact.inv, framed.intact.buf_size, framed.intact.credited_le, framed.intact.unacked⟩
  cases op with
  | append t framing bytes =>
    obtain ⟨k, moves, answer⟩ :=
      append_copies { s with accepted := copied } ⟨t, s.lent, false⟩ rfl framing bytes
    have sameResult : (s.ring.append (⟨t, s.lent, false⟩ : Recorded τ) framing bytes).result =
        (s.ring.append t framing bytes).result := by
      rw [← RingOutcome.unrecord_result, FrameRing.append_recorded]
    refine ⟨(bytes.take k).map (framing, ·),
      ⟨k, rfl, fun a result => answer a (sameResult.trans result)⟩, intact, ?_⟩
    exact (moves.delivered ghost framed.delivered).of_eq rfl rfl rfl
  | finish t =>
    refine ⟨[], rfl, intact, ?_⟩
    rw [List.append_nil]
    exact ((finish_moves { s with accepted := copied } ⟨t, s.lent, false⟩ rfl).delivered ghost
      framed.delivered).of_eq rfl rfl rfl
  | ack len =>
    refine ⟨[], rfl, intact, ?_⟩
    rw [List.append_nil]
    exact (Delivered.ack (τ := τ) ghost framed.delivered len).of_eq rfl rfl rfl
  | rewind =>
    refine ⟨[], rfl, intact, ?_⟩
    rw [List.append_nil]
    exact (Move.rewind.delivered ghost framed.delivered).of_eq rfl rfl rfl

/-- Every run keeps a run framed, with what its operations copy behind the bytes copied before. -/
theorem Framed.run {s : RingRun} {copied : List (Framing × UInt8)} {limit : Nat}
    (framed : s.Framed copied limit) (ops : List (RingOp τ)) :
    ∃ rest, s.Copies ops rest ∧ (s.run ops).Framed (copied ++ rest) limit := by
  induction ops generalizing s copied with
  | nil => exact ⟨[], rfl, by rw [List.append_nil]; exact framed⟩
  | cons op ops ih =>
    obtain ⟨piece, copiedNow, stepped⟩ := framed.step op
    obtain ⟨rest, copiedLater, after⟩ := ih stepped
    refine ⟨piece ++ rest, ⟨piece, rest, copiedNow, copiedLater, rfl⟩, ?_⟩
    rw [← List.append_assoc]
    exact after

/-- A new ring whose limit fits a 16-bit length has lent, held and been given nothing. -/
theorem start_framed (size maxPayload sendThreshold : Nat) (small : maxPayload ≤ 0xFFFF) :
    (start (FrameRing.new size maxPayload sendThreshold)).Framed [] maxPayload :=
  ⟨(start_delivering size maxPayload sendThreshold small).intact,
    (start_delivering size maxPayload sendThreshold small).delivered⟩

/-! ## What a failed append copied -/

/-- A send that is not taken leaves the record of taken slices as it was. -/
theorem sendPending_lent_of_ne (r : FrameRing) (t : Recorded τ)
    (stuck : (r.sendPending t).1 ≠ .ok true) : (r.sendPending t).2.2.lent = t.lent := by
  rcases FrameRing.sendPending_cases r t with
    ⟨_, out⟩ | ⟨_, _, untouched | ⟨p, _, refused⟩⟩ | ⟨p, _, ok, _⟩
  · rw [out]
  · rw [untouched]
  · simp only [Recorded.send_eq, Prod.mk.injEq] at refused
    rw [← refused.1]
    simp [refused.2]
  · exact absurd ok stuck

/-- A fill of the open region that fails has copied its bytes and sealed the region, and the
transport took nothing. -/
theorem fillOpen_error_sealed (r : FrameRing) (t : Recorded τ) (o : OpenRegion)
    (bytes : List UInt8) (e : NetError) (failed : (r.fillOpen t o bytes).result = .error e) :
    (r.fillOpen t o bytes).ring = (r.fill o bytes).1.sealOpen ((r.fill o bytes).2 < bytes.length) ∧
      (r.fillOpen t o bytes).transport.lent = t.lent := by
  unfold FrameRing.fillOpen at failed ⊢
  dsimp only at failed ⊢
  split_ifs at failed ⊢
  have stuck : (((r.fill o bytes).1.sealOpen ((r.fill o bytes).2 < bytes.length)).sendPending
      t).1 ≠ .ok true := by
    intro ok
    rw [FrameRing.thenSend_of_ok _ _ _ _ ok] at failed
    cases failed
  obtain ⟨ring, transport, _⟩ := FrameRing.thenSend_of_ne _ t _ _ stuck
  rw [ring, transport, FrameRing.sendPending_ring_of_ne _ _ stuck]
  exact ⟨rfl, sendPending_lent_of_ne _ t stuck⟩

/-- A placement that fails opened or found a region of its framing, with nothing pending, then
copied into it and sealed it, and the transport took nothing. -/
theorem place_error_sealed (s : RingRun) (t : Recorded τ) (framing : Framing) (bytes : List UInt8)
    (idle : s.ring.pending = none)
    (framed : ∀ o, s.ring.openRegion = some o → o.framing = framing)
    (e : NetError) (failed : (s.ring.place t framing bytes).result = .error e) :
    ∃ s₁ o, Moves s s₁ ∧ s₁.lent = s.lent ∧ s₁.accepted = s.accepted ∧ s₁.ring.pending = none ∧
      s₁.ring.openRegion = some o ∧ o.framing = framing ∧
      (s.ring.place t framing bytes).ring =
        (s₁.ring.fill o bytes).1.sealOpen ((s₁.ring.fill o bytes).2 < bytes.length) ∧
      (s.ring.place t framing bytes).transport.lent = t.lent := by
  unfold FrameRing.place at failed ⊢
  cases opened : s.ring.openRegion with
  | some o =>
    simp only [opened] at failed ⊢
    obtain ⟨ring, lent⟩ := fillOpen_error_sealed s.ring t o bytes e failed
    exact ⟨s, o, .refl, rfl, rfl, idle, opened, framed o opened, ring, lent⟩
  | none =>
    simp only [opened] at failed ⊢
    cases fresh : s.ring.rewind.openRegion? framing with
    | none => simp [fresh] at failed
    | some r =>
      simp only [fresh] at failed ⊢
      obtain ⟨⟨o, isOpen, sameFraming⟩, samePending⟩ := FrameRing.openRegion?_spec _ _ _ fresh
      simp only [isOpen] at failed ⊢
      obtain ⟨ring, lent⟩ := fillOpen_error_sealed r t o bytes e failed
      have rewound : Move s { s with ring := s.ring.rewind } := Move.rewind
      have opening : Move { s with ring := s.ring.rewind } { s with ring := r } :=
        Move.openRegion (by simpa using opened) (by simpa using idle) fresh
      exact ⟨{ s with ring := r }, o,
        Relation.ReflTransGen.head rewound (Relation.ReflTransGen.single opening), rfl, rfl,
        by simpa [samePending] using idle, isOpen, sameFraming, ring, lent⟩

/-- An append that fails either stopped before copying anything, its moves accepting nothing, or
copied into a region of its framing, sealed it, and had that region refused. -/
theorem append_error_sealed (s : RingRun) (t : Recorded τ) (synced : t.lent = s.lent)
    (framing : Framing) (bytes : List UInt8) (e : NetError)
    (failed : (s.ring.append t framing bytes).result = .error e) :
    Moves s { s with ring := (s.ring.append t framing bytes).ring,
                     lent := (s.ring.append t framing bytes).transport.lent } ∨
    ∃ s₁ o, Moves s s₁ ∧ s₁.accepted = s.accepted ∧ s₁.ring.pending = none ∧
      s₁.ring.openRegion = some o ∧ o.framing = framing ∧
      (s.ring.append t framing bytes).ring =
        (s₁.ring.fill o bytes).1.sealOpen ((s₁.ring.fill o bytes).2 < bytes.length) ∧
      (s.ring.append t framing bytes).transport.lent = s₁.lent := by
  unfold FrameRing.append at failed ⊢
  split at failed
  · cases failed
  rename_i nonempty
  simp only [nonempty, Bool.false_eq_true, ↓reduceIte] at failed ⊢
  by_cases ok₁ : (s.ring.sendPending t).1 = .ok true
  · rw [FrameRing.thenSend_of_ok _ _ _ _ ok₁] at failed ⊢
    -- after the first send: nothing is pending, and a region of another framing is sealed
    have idle₁ := FrameRing.sendPending_pending_of_ok _ _ ok₁
    have upto := (sendPending_moves s t synced).trans (sealOther_moves
      { s with
        ring := (s.ring.sendPending t).2.1
        lent := (s.ring.sendPending t).2.2.lent } framing idle₁)
    by_cases ok₂ : (((s.ring.sendPending t).2.1.sealOther framing).sendPending
        (s.ring.sendPending t).2.2).1 = .ok true
    · rw [FrameRing.thenSend_of_ok _ _ _ _ ok₂] at failed ⊢
      have sent := sendPending_moves
        { s with
          ring := (s.ring.sendPending t).2.1.sealOther framing
          lent := (s.ring.sendPending t).2.2.lent }
        (s.ring.sendPending t).2.2 rfl
      obtain ⟨s₁, o, reach, lent₁, accepted₁, idle', opened, sameFraming, ring, lent⟩ :=
        place_error_sealed
          { s with
            ring := (((s.ring.sendPending t).2.1.sealOther framing).sendPending
              (s.ring.sendPending t).2.2).2.1
            lent := (((s.ring.sendPending t).2.1.sealOther framing).sendPending
              (s.ring.sendPending t).2.2).2.2.lent }
          (((s.ring.sendPending t).2.1.sealOther framing).sendPending (s.ring.sendPending t).2.2).2.2
          framing bytes (FrameRing.sendPending_pending_of_ok _ _ ok₂)
          (by
            intro o opened
            rw [FrameRing.sendPending_openRegion] at opened
            exact FrameRing.sealOther_framing _ _ o opened) e failed
      exact .inr ⟨s₁, o, upto.trans (sent.trans reach), accepted₁, idle', opened, sameFraming,
        ring, lent.trans lent₁.symm⟩
    · exact .inl (upto.trans (thenSend_stuck_moves _ _ rfl (Append.blocked .sendBuf) _ ok₂).1)
  · exact .inl (thenSend_stuck_moves s t synced (Append.blocked .sendBuf) _ ok₁).1

/-- A failed append leaves what it copied at the end of the pending region. -/
theorem failed_append_leaves_copy_pending {s : RingRun} {copied : List (Framing × UInt8)}
    {limit : Nat} (framed : s.Framed copied limit) (t : τ) (framing : Framing)
    (bytes : List UInt8) (e : NetError) (failed : (s.ring.append t framing bytes).result = .error e) :
    ∃ k, (s.step (.append t framing bytes)).Framed (copied ++ (bytes.take k).map (framing, ·))
        limit ∧
      ∃ held : List Region,
        (s.step (.append t framing bytes)).ring.pending.toList.map
            (fun p => ((s.step (.append t framing bytes)).ring.pendingSlice p).bytes) =
          held.map Region.wire ∧
        (bytes.take k).map (framing, ·) <:+ held.flatMap Region.tagged := by
  have intact := framed.intact.step (.append t framing bytes)
  have ghost : ({ s with accepted := copied } : RingRun).Intact :=
    ⟨framed.intact.inv, framed.intact.buf_size, framed.intact.credited_le, framed.intact.unacked⟩
  have failed' : (s.ring.append (⟨t, s.lent, false⟩ : Recorded τ) framing bytes).result =
      .error e := by
    rw [← RingOutcome.unrecord_result, FrameRing.append_recorded]
    exact failed
  rcases append_error_sealed { s with accepted := copied } ⟨t, s.lent, false⟩ rfl framing bytes e
      failed' with moves | ⟨s₁, o, reach, accepted₁, idle, opened, sameFraming, ring, lent⟩
  · -- the refused send came before the copy: nothing was copied
    have after := moves.delivered ghost framed.delivered
    obtain ⟨_, held, _, pendEq, _, _⟩ := after.framed
    refine ⟨0, ⟨intact, ?_⟩, held, pendEq, by simp⟩
    rw [List.take_zero, List.map_nil, List.append_nil]
    exact after.of_eq rfl rfl rfl
  · -- the region the append filled was sealed and refused: its copy ends that region
    have intact₁ := reach.intact ghost
    have delivered₁ := reach.delivered ghost framed.delivered
    have filled := Move.fill bytes opened idle
    have intact₂ := filled.intact intact₁
    have sealed := Move.sealOpen ((s₁.ring.fill o bytes).2 < bytes.length)
      (s := { s₁ with
        ring := (s₁.ring.fill o bytes).1
        accepted := s₁.accepted ++ (bytes.take (s₁.ring.fill o bytes).2).map (o.framing, ·) })
      (by simpa using idle)
    have moves : Moves _ _ := (reach.tail filled).tail sealed
    have after := moves.delivered ghost framed.delivered
    obtain ⟨_, _, held, pendEq, _, tagEq⟩ := intact₂.inv.sealOpen_held intact₂.buf_size
      (by simpa using idle) (delivered₁.maxPayload_eq ▸ delivered₁.small)
      ((s₁.ring.fill o bytes).2 < bytes.length)
    have tagged := intact₁.inv.fill_openTagged intact₁.buf_size opened bytes
    rw [sameFraming] at tagged after
    refine ⟨(s₁.ring.fill o bytes).2, ⟨intact, after.of_eq ring lent ?_⟩, held, ?_, ?_⟩
    · show copied ++ _ = s₁.accepted ++ _
      rw [accepted₁]
    · show (s.ring.append (⟨t, s.lent, false⟩ : Recorded τ) framing bytes).ring.pending.toList.map
        (fun p => ((s.ring.append (⟨t, s.lent, false⟩ : Recorded τ) framing bytes).ring.pendingSlice
          p).bytes) = _
      rw [ring]
      exact pendEq
    · rw [tagEq, tagged]
      exact List.suffix_append _ _

/-- A transport that refuses every send makes an append of four text bytes to a new ring with a
send threshold of four fail after copying all four: they are the whole pending region. -/
theorem refusing_transport_keeps_copy_pending :
    (start (FrameRing.new 64 1024 4)).Framed [] 1024 ∧
      ((start (FrameRing.new 64 1024 4)).ring.append
        ({ capacity := 1048576, failSend := true } : Loopback) (.frame .text)
        [97, 98, 99, 100]).result = .error .writeError ∧
      ∃ k, ((start (FrameRing.new 64 1024 4)).step (.append
          ({ capacity := 1048576, failSend := true } : Loopback) (.frame .text)
          [97, 98, 99, 100])).Framed
          ([] ++ (([97, 98, 99, 100] : List UInt8).take k).map (Framing.frame .text, ·)) 1024 ∧
        ∃ held : List Region,
          ((start (FrameRing.new 64 1024 4)).step (.append
              ({ capacity := 1048576, failSend := true } : Loopback) (.frame .text)
              [97, 98, 99, 100])).ring.pending.toList.map
            (fun p => (((start (FrameRing.new 64 1024 4)).step (.append
              ({ capacity := 1048576, failSend := true } : Loopback) (.frame .text)
              [97, 98, 99, 100])).ring.pendingSlice p).bytes) = held.map Region.wire ∧
          (([97, 98, 99, 100] : List UInt8).take k).map (Framing.frame .text, ·) <:+
            held.flatMap Region.tagged :=
  ⟨start_framed 64 1024 4 (by decide), by decide,
    failed_append_leaves_copy_pending (start_framed 64 1024 4 (by decide)) _ _ _ .writeError
      (by decide)⟩

/-- Bytes copied by a failed append go out as one frame on the next finish. -/
theorem failed_append_goes_out_on_finish :
    ((FrameRing.new 64 1024 4).append ({ capacity := 1048576, failSend := true } : Loopback)
        (.frame .text) [97, 98, 99, 100]).result = .error .writeError ∧
      (((FrameRing.new 64 1024 4).append ({ capacity := 1048576, failSend := true } : Loopback)
          (.frame .text) [97, 98, 99, 100]).ring.finish
        ({ capacity := 1048576 } : Loopback)).transport.sends =
        #[([0x81, 4, 97, 98, 99, 100], false)] ∧
      ((FrameRing.new 64 1024 4).finish ({ capacity := 1048576 } : Loopback)).transport.sends = #[] :=
  ⟨by decide, by decide, by decide⟩

/-- A refused send loses and duplicates nothing. -/
theorem refused_send_loses_nothing :
    (∀ (r : FrameRing) (t : τ) (framing : Framing) (bytes : List UInt8) (e : NetError),
      r.Reachable → (r.append t framing bytes).result = .error e →
        (r.append t framing bytes).Refused ∧ (r.append t framing bytes).ring.Inv ∧
          (r.append t framing bytes).ring.pending.isSome) ∧
    (∀ (r : FrameRing) (t : τ) (e : NetError), r.Reachable → (r.finish t).result = .error e →
      (r.finish t).Refused ∧ (r.finish t).ring.Inv ∧ (r.finish t).ring.pending.isSome) ∧
    (∀ (size : Nat) (maxPayload sendThreshold : UInt16) (ops : List (RingOp τ)),
      ∃ copied, (start (FrameRing.new size maxPayload.toNat sendThreshold.toNat)).Copies ops copied ∧
        ((start (FrameRing.new size maxPayload.toNat sendThreshold.toNat)).run ops).Framed copied
          maxPayload.toNat) ∧
    (∀ (r : FrameRing) (len : Nat) (p : PendingRegion), r.Reachable → r.pending = some p →
      (r.onAck len).1.pending = some p ∧
        ∃ ms m, (r.onAck len).1.markers = ms ++ [m] ∧ m.wrap = false ∧ p.start + m.len = p.stop) := by
  refine ⟨fun r t framing bytes e reach failed => ?_, fun r t e reach failed => ?_,
    fun size maxPayload sendThreshold ops => ?_,
    fun r len p reach pending => reach.inv.onAck_keeps_pending len pending⟩
  · have refused := FrameRing.append_error r t framing bytes e failed
    exact ⟨refused, (reach.append t framing bytes).inv, Option.isSome_iff_exists.mpr refused.pending⟩
  · have refused := FrameRing.finish_error r t e failed
    exact ⟨refused, (reach.finish t).inv, Option.isSome_iff_exists.mpr refused.pending⟩
  · have small : maxPayload.toNat ≤ 0xFFFF := by have := maxPayload.toNat_lt; omega
    exact (start_framed size maxPayload.toNat sendThreshold.toNat small).run ops

/-- A transport that refuses every send makes an append of four bytes to a new ring with a send
threshold of four fail. -/
theorem refusing_transport_fails_append :
    (FrameRing.new 64 1024 4).Reachable ∧
      ((FrameRing.new 64 1024 4).append ({ capacity := 1048576, failSend := true } : Loopback)
        (.frame .text) [97, 98, 99, 100]).result = .error .writeError ∧
      ((FrameRing.new 64 1024 4).append ({ capacity := 1048576, failSend := true } : Loopback)
        (.frame .text) [97, 98, 99, 100]).Refused :=
  ⟨.new 64 1024 4, by decide,
    (refused_send_loses_nothing.1 _ _ _ _ .writeError (.new 64 1024 4) (by decide)).1⟩

end RingRun

end WebSocketCore
