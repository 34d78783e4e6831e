import Mathlib.Logic.Relation
import Mathlib.Tactic.SplitIfs
import Mathlib.Tactic.Set
import WebSocketCore.Ring.Run

/-! # What an append or a finish is made of

Appending and finishing are made of five moves: the transport takes the pending region, the open
region is sealed, a drained ring starts over at offset 0, a region opens, and bytes are copied
into the open region. `RingRun.Move` says what each move does and under which conditions the
operations make it: a region is only sealed, opened or filled while nothing is pending. Every
append and every finish is a sequence of moves, so whatever the moves keep, the operations keep.

An append that fails to hand a sealed region over has still copied its bytes; only an append
that answers without an error has its observed bytes match the moves' record.
-/

namespace WebSocketCore

/-- An outcome against a recorded transport, with the record dropped. -/
def RingOutcome.unrecord {τ α : Type} (o : RingOutcome (Recorded τ) α) : RingOutcome τ α :=
  ⟨o.result, o.ring, o.transport.inner⟩

@[simp] theorem RingOutcome.unrecord_ring {τ α : Type} (o : RingOutcome (Recorded τ) α) :
    o.unrecord.ring = o.ring := rfl

@[simp] theorem RingOutcome.unrecord_result {τ α : Type} (o : RingOutcome (Recorded τ) α) :
    o.unrecord.result = o.result := rfl

namespace FrameRing

variable {τ : Type} [Transport τ]

/-- Handing over the pending region has three outcomes: nothing was pending; the window was too
small or the transport refused, and the ring is as it was; or the transport took the region,
which is now in flight. -/
theorem sendPending_cases (r : FrameRing) (t : τ) :
    (r.pending = none ∧ r.sendPending t = (.ok true, r, t)) ∨
    ((r.sendPending t).1 ≠ .ok true ∧ (r.sendPending t).2.1 = r ∧
      ((r.sendPending t).2.2 = t ∨ ∃ p, r.pending = some p ∧
        Transport.send t (r.pendingSlice p) p.more = ((r.sendPending t).2.2, false))) ∨
    (∃ p, r.pending = some p ∧ (r.sendPending t).1 = .ok true ∧
      (r.sendPending t).2.1 =
        { r with pending := none, inFlight := r.inFlight + (p.stop - p.start) } ∧
      (Transport.send t (r.pendingSlice p) p.more).2 = true ∧
      (r.sendPending t).2.2 = (Transport.send t (r.pendingSlice p) p.more).1) := by
  unfold sendPending
  rcases pending : r.pending with _ | p
  · simp
  · by_cases small : Transport.sendCapacity t < p.stop - p.start
    · simp [small]
    · rcases taken : Transport.send t (r.pendingSlice p) p.more with ⟨t', ok⟩
      cases ok <;> simp [small, taken]

@[simp] theorem sendPending_openRegion (r : FrameRing) (t : τ) :
    (r.sendPending t).2.1.openRegion = r.openRegion := by
  rcases sendPending_cases r t with ⟨_, out⟩ | ⟨_, same, _⟩ | ⟨p, _, _, sent, _⟩
  · rw [out]
  · rw [same]
  · rw [sent]

/-- When the pending region is not handed over, the ring is as it was. -/
theorem sendPending_ring_of_ne (r : FrameRing) (t : τ) (stuck : (r.sendPending t).1 ≠ .ok true) :
    (r.sendPending t).2.1 = r := by
  rcases sendPending_cases r t with ⟨_, out⟩ | ⟨_, same, _⟩ | ⟨p, _, ok, _⟩
  · rw [out]
  · exact same
  · exact absurd ok stuck

/-- Once the transport has what was pending, nothing is pending. -/
theorem sendPending_pending_of_ok (r : FrameRing) (t : τ) (ok : (r.sendPending t).1 = .ok true) :
    (r.sendPending t).2.1.pending = none := by
  rcases sendPending_cases r t with ⟨idle, out⟩ | ⟨stuck, _, _⟩ | ⟨p, _, _, sent, _⟩
  · rw [out]
    exact idle
  · exact absurd ok stuck
  · rw [sent]

/-- A send that stalls or fails ends the operation with the stalled answer or the error. -/
theorem thenSend_of_ne {α : Type} (r : FrameRing) (t : τ) (stalled : α)
    (k : FrameRing → τ → RingOutcome τ α) (stuck : (r.sendPending t).1 ≠ .ok true) :
    (r.thenSend t stalled k).ring = (r.sendPending t).2.1 ∧
      (r.thenSend t stalled k).transport = (r.sendPending t).2.2 ∧
      ∀ a, (r.thenSend t stalled k).result = .ok a → a = stalled := by
  unfold thenSend
  rcases out : r.sendPending t with ⟨result, r', t'⟩
  rw [out] at stuck
  rcases result with e | ok
  · simp
  · cases ok with
    | false => simp
    | true => exact absurd rfl stuck

theorem thenSend_of_ok {α : Type} (r : FrameRing) (t : τ) (stalled : α)
    (k : FrameRing → τ → RingOutcome τ α) (ok : (r.sendPending t).1 = .ok true) :
    r.thenSend t stalled k = k (r.sendPending t).2.1 (r.sendPending t).2.2 := by
  unfold thenSend
  rcases out : r.sendPending t with ⟨result, r', t'⟩
  rw [out] at ok
  subst ok
  rfl

@[simp] theorem rewind_openRegion (r : FrameRing) : r.rewind.openRegion = r.openRegion := by
  unfold rewind
  split <;> rfl

@[simp] theorem rewind_pending (r : FrameRing) : r.rewind.pending = r.pending := by
  unfold rewind
  split <;> rfl

@[simp] theorem fill_openRegion (r : FrameRing) (o : OpenRegion) (bytes : List UInt8) :
    (r.fill o bytes).1.openRegion = r.openRegion := rfl

@[simp] theorem fill_pending (r : FrameRing) (o : OpenRegion) (bytes : List UInt8) :
    (r.fill o bytes).1.pending = r.pending := rfl

@[simp] theorem skipWraps_openRegion (r : FrameRing) : r.skipWraps.openRegion = r.openRegion := by
  unfold skipWraps
  dsimp only
  split_ifs <;> rfl

@[simp] theorem skipWraps_pending (r : FrameRing) : r.skipWraps.pending = r.pending := by
  unfold skipWraps
  dsimp only
  split_ifs <;> rfl

/-- Sealing leaves no region open. -/
@[simp] theorem sealOpen_openRegion (r : FrameRing) (more : Bool) :
    (r.sealOpen more).openRegion = none := by
  unfold sealOpen
  split
  · assumption
  · dsimp only
    split_ifs
    · simp
    · simp only [pushMarker]
      split_ifs <;> rfl

/-- After sealing a region of another framing, a region still open has the framing asked for. -/
theorem sealOther_framing (r : FrameRing) (framing : Framing) (o : OpenRegion)
    (opened : (r.sealOther framing).openRegion = some o) : o.framing = framing := by
  unfold sealOther at opened
  split at opened
  · split at opened
    · simp_all
    · simp at opened
  · simp_all

/-- A region that opens is open, with the framing asked for, and nothing becomes pending. -/
theorem openRegion?_spec (r r' : FrameRing) (framing : Framing)
    (opened : r.openRegion? framing = some r') :
    (∃ o, r'.openRegion = some o ∧ o.framing = framing) ∧ r'.pending = r.pending := by
  unfold openRegion? at opened
  split_ifs at opened <;> cases opened <;> simp [beginAt]

/-! ## Recording the transport changes nothing the ring does -/

theorem sendPending_recorded (r : FrameRing) (t : Recorded τ) :
    ((r.sendPending t).1, (r.sendPending t).2.1, (r.sendPending t).2.2.inner) =
      r.sendPending t.inner := by
  unfold sendPending
  rcases r.pending with _ | p
  · rfl
  · by_cases small : Transport.sendCapacity t.inner < p.stop - p.start
    · simp [small]
    · rcases taken : Transport.send t.inner (r.pendingSlice p) p.more with ⟨t', ok⟩
      cases ok <;> simp [small, taken]

/-- A send followed by a continuation that ignores the record ignores it too. -/
theorem thenSend_recorded {α : Type} (r : FrameRing) (t : Recorded τ) (stalled : α)
    (k : FrameRing → Recorded τ → RingOutcome (Recorded τ) α)
    (k' : FrameRing → τ → RingOutcome τ α) (same : ∀ r t, (k r t).unrecord = k' r t.inner) :
    (r.thenSend t stalled k).unrecord = r.thenSend t.inner stalled k' := by
  have unrecorded := sendPending_recorded r t
  unfold thenSend
  rw [← unrecorded]
  rcases r.sendPending t with ⟨result, r', t'⟩
  rcases result with e | (_ | _)
  · rfl
  · rfl
  · exact same r' t'

theorem fillOpen_recorded (r : FrameRing) (t : Recorded τ) (o : OpenRegion)
    (bytes : List UInt8) : (r.fillOpen t o bytes).unrecord = r.fillOpen t.inner o bytes := by
  unfold fillOpen
  dsimp only
  split_ifs
  · exact thenSend_recorded _ t _ _ _ fun _ _ => rfl
  · rfl

theorem place_recorded (r : FrameRing) (t : Recorded τ) (framing : Framing)
    (bytes : List UInt8) :
    (r.place t framing bytes).unrecord = r.place t.inner framing bytes := by
  unfold place
  split
  · exact fillOpen_recorded r t _ bytes
  · dsimp only
    split
    · rfl
    · split
      · exact fillOpen_recorded _ t _ bytes
      · rfl

/-- The ring and the answer of an append are those against the transport itself. -/
theorem append_recorded (r : FrameRing) (t : Recorded τ) (framing : Framing)
    (bytes : List UInt8) :
    (r.append t framing bytes).unrecord = r.append t.inner framing bytes := by
  unfold append
  split
  · rfl
  · exact thenSend_recorded r t _ _ _ fun r t =>
      thenSend_recorded _ t _ _ _ fun r t => place_recorded r t framing bytes

/-- The ring and the answer of a finish are those against the transport itself. -/
theorem finish_recorded (r : FrameRing) (t : Recorded τ) :
    (r.finish t).unrecord = r.finish t.inner := by
  unfold finish
  exact thenSend_recorded r t _ _ _ fun r t => thenSend_recorded _ t _ _ _ fun _ _ => rfl

end FrameRing

namespace RingRun

/-- The moves inside appends and finishes, with what an observer sees of each. -/
inductive Move : RingRun → RingRun → Prop
  /-- The transport takes the pending region, which is now in flight. -/
  | send {s : RingRun} {p : PendingRegion} : s.ring.pending = some p →
      Move s { s with
        ring := { s.ring with pending := none, inFlight := s.ring.inFlight + (p.stop - p.start) },
        lent := s.lent ++ [(s.ring.pendingSlice p, p.more)] }
  /-- The open region, if any, is sealed while nothing is pending. -/
  | sealOpen {s : RingRun} (more : Bool) : s.ring.pending = none →
      Move s { s with ring := s.ring.sealOpen more }
  /-- A drained ring starts over at offset 0. -/
  | rewind {s : RingRun} : Move s { s with ring := s.ring.rewind }
  /-- A region opens where none is open and nothing is pending. -/
  | openRegion {s : RingRun} {r : FrameRing} {framing : Framing} : s.ring.openRegion = none →
      s.ring.pending = none → s.ring.openRegion? framing = some r → Move s { s with ring := r }
  /-- Bytes are copied into the open region while nothing is pending, and the bytes taken are
  accepted under the region's framing. -/
  | fill {s : RingRun} {o : OpenRegion} (bytes : List UInt8) : s.ring.openRegion = some o →
      s.ring.pending = none →
      Move s { s with
        ring := (s.ring.fill o bytes).1,
        accepted := s.accepted ++ (bytes.take (s.ring.fill o bytes).2).map (o.framing, ·) }

/-- Sequences of moves. -/
abbrev Moves : RingRun → RingRun → Prop := Relation.ReflTransGen Move

variable {τ : Type} [Transport τ]

/-! The lemmas below run an operation against a recorded transport whose record of taken slices
is the run's own, so that what the transport records next is what the moves record. -/

/-- Handing over the pending region, if the transport takes it, is a move; otherwise nothing
changes but the transport. -/
theorem sendPending_moves (s : RingRun) (t : Recorded τ) (synced : t.lent = s.lent) :
    Moves s { s with ring := (s.ring.sendPending t).2.1,
                     lent := (s.ring.sendPending t).2.2.lent } := by
  rcases FrameRing.sendPending_cases s.ring t with
    ⟨_, out⟩ | ⟨_, same, untouched | ⟨p, _, refused⟩⟩ | ⟨p, pending, _, sent, taken, transport⟩
  · rw [out, synced]
  · rw [same, untouched, synced]
  · have kept : (s.ring.sendPending t).2.2.lent = s.lent := by
      simp only [Recorded.send_eq, Prod.mk.injEq] at refused
      rw [← refused.1]
      simp [refused.2, synced]
    rw [same, kept]
  · simp only [Recorded.send_eq] at taken transport
    rw [sent, transport]
    simp only [taken, ↓reduceIte, synced]
    exact Relation.ReflTransGen.single (Move.send pending)

/-- An operation that ends at a send that stalls or is refused has made the moves up to it, and
answers the stalled value or an error. -/
theorem thenSend_stuck_moves {α : Type} (s : RingRun) (t : Recorded τ) (synced : t.lent = s.lent)
    (stalled : α) (k : FrameRing → Recorded τ → RingOutcome (Recorded τ) α)
    (stuck : (s.ring.sendPending t).1 ≠ .ok true) :
    Moves s { s with ring := (s.ring.thenSend t stalled k).ring,
                     lent := (s.ring.thenSend t stalled k).transport.lent } ∧
      ∀ a, (s.ring.thenSend t stalled k).result = .ok a → a = stalled := by
  obtain ⟨ring, transport, answer⟩ := FrameRing.thenSend_of_ne s.ring _ stalled k stuck
  rw [ring, transport]
  exact ⟨sendPending_moves s t synced, answer⟩

/-- Sealing the open region and handing it over is a sequence of moves; the operation answers
the stalled value or the value it goes on with. -/
theorem sealThenSend_moves {α : Type} (s : RingRun) (t : Recorded τ) (synced : t.lent = s.lent)
    (more : Bool) (stalled done : α) (idle : s.ring.pending = none) :
    Moves s { s with
      ring := ((s.ring.sealOpen more).thenSend t stalled fun r t => ⟨.ok done, r, t⟩).ring,
      lent := ((s.ring.sealOpen more).thenSend t stalled fun r t => ⟨.ok done, r, t⟩).transport.lent } ∧
    ∀ a, ((s.ring.sealOpen more).thenSend t stalled fun r t => ⟨.ok done, r, t⟩).result = .ok a →
      a = stalled ∨ a = done := by
  have sealed : Move s { s with ring := s.ring.sealOpen more } := Move.sealOpen more idle
  by_cases ok : ((s.ring.sealOpen more).sendPending t).1 = .ok true
  · rw [FrameRing.thenSend_of_ok _ _ _ _ ok]
    refine ⟨Relation.ReflTransGen.head sealed
      (sendPending_moves { s with ring := s.ring.sealOpen more } t synced), ?_⟩
    rintro a ⟨⟩
    exact .inr rfl
  · obtain ⟨rest, answer⟩ :=
      thenSend_stuck_moves { s with ring := s.ring.sealOpen more } t synced stalled _ ok
    exact ⟨Relation.ReflTransGen.head sealed rest, fun a result => .inl (answer a result)⟩

/-- Copying into the open region, sealing it when due and handing it over is a sequence of
moves that accepts the bytes the copy took, whatever the transport does with the region; an
answer without an error reports them. -/
theorem fillOpen_copies (s : RingRun) (t : Recorded τ) (synced : t.lent = s.lent) (o : OpenRegion)
    (bytes : List UInt8) (opened : s.ring.openRegion = some o) (idle : s.ring.pending = none) :
    Moves s { s with
      ring := (s.ring.fillOpen t o bytes).ring,
      lent := (s.ring.fillOpen t o bytes).transport.lent,
      accepted := s.accepted ++ (bytes.take (s.ring.fill o bytes).2).map (o.framing, ·) } ∧
      ∀ a, (s.ring.fillOpen t o bytes).result = .ok a → a = .took (s.ring.fill o bytes).2 := by
  have filled := Move.fill bytes opened idle
  unfold FrameRing.fillOpen
  dsimp only
  split
  · -- the region is due: it is sealed, then handed over if the transport takes it
    obtain ⟨rest, answer⟩ := sealThenSend_moves
      { s with
        ring := (s.ring.fill o bytes).1
        accepted := s.accepted ++ (bytes.take (s.ring.fill o bytes).2).map (o.framing, ·) } t synced
      ((s.ring.fill o bytes).2 < bytes.length) (Append.took (s.ring.fill o bytes).2)
      (Append.took (s.ring.fill o bytes).2) (by simpa using idle)
    refine ⟨Relation.ReflTransGen.head filled rest, fun a result => ?_⟩
    rcases answer a result with same | same <;> exact same
  · refine ⟨?_, ?_⟩
    · dsimp only
      rw [synced]
      exact Relation.ReflTransGen.single filled
    · rintro a ⟨⟩
      rfl

/-- Sealing a region of another framing is a move, or nothing. -/
theorem sealOther_moves (s : RingRun) (framing : Framing) (idle : s.ring.pending = none) :
    Moves s { s with ring := s.ring.sealOther framing } := by
  unfold FrameRing.sealOther
  split
  · split
    · exact Relation.ReflTransGen.refl
    · exact Relation.ReflTransGen.single (Move.sealOpen false idle)
  · exact Relation.ReflTransGen.refl

/-- Placing bytes is a sequence of moves that accepts a first part of them under the framing asked
for, whatever the transport does; an answer without an error reports that part. -/
theorem place_copies (s : RingRun) (t : Recorded τ) (synced : t.lent = s.lent) (framing : Framing)
    (bytes : List UInt8) (idle : s.ring.pending = none)
    (framed : ∀ o, s.ring.openRegion = some o → o.framing = framing) :
    ∃ k, Moves s { s with ring := (s.ring.place t framing bytes).ring,
                          lent := (s.ring.place t framing bytes).transport.lent,
                          accepted := s.accepted ++ (bytes.take k).map (framing, ·) } ∧
      ∀ a, (s.ring.place t framing bytes).result = .ok a →
        (bytes.take k).map (framing, ·) = Append.taken (.ok a) framing bytes := by
  unfold FrameRing.place
  split
  · rename_i o opened
    obtain ⟨reach, answer⟩ := fillOpen_copies s t synced o bytes opened idle
    rw [framed o opened] at reach
    refine ⟨(s.ring.fill o bytes).2, reach, fun a result => ?_⟩
    rw [answer a result]
    rfl
  · rename_i closed
    have rewound : Move s { s with ring := s.ring.rewind } := Move.rewind
    dsimp only
    split
    · refine ⟨0, ?_, ?_⟩
      · rw [List.take_zero, List.map_nil, List.append_nil, synced]
        exact Relation.ReflTransGen.single rewound
      · rintro a ⟨⟩
        rfl
    · rename_i r opened
      have opening : Move { s with ring := s.ring.rewind } { s with ring := r } :=
        Move.openRegion (by simpa using closed) (by simpa using idle) opened
      obtain ⟨⟨o, isOpen, sameFraming⟩, samePending⟩ := FrameRing.openRegion?_spec _ _ _ opened
      have upto : Moves s { s with ring := r } :=
        Relation.ReflTransGen.head rewound (Relation.ReflTransGen.single opening)
      split
      · rename_i o' opened'
        obtain ⟨reach, answer⟩ := fillOpen_copies { s with ring := r } t synced o' bytes opened'
          (by simpa [samePending] using idle)
        have framing' : o'.framing = framing := by
          rw [Option.some.inj (opened'.symm.trans isOpen), sameFraming]
        rw [framing'] at reach
        refine ⟨(r.fill o' bytes).2, upto.trans reach, fun a result => ?_⟩
        rw [answer a result]
        rfl
      · rename_i closed'
        rw [closed'] at isOpen
        cases isOpen

/-- Every append is a sequence of moves that accepts a first part of its bytes under its framing,
whatever the transport does; when it answers without an error, that part is what it reports
taken. -/
theorem append_copies (s : RingRun) (t : Recorded τ) (synced : t.lent = s.lent) (framing : Framing)
    (bytes : List UInt8) :
    ∃ k, Moves s { s with ring := (s.ring.append t framing bytes).ring,
                          lent := (s.ring.append t framing bytes).transport.lent,
                          accepted := s.accepted ++ (bytes.take k).map (framing, ·) } ∧
      ∀ a, (s.ring.append t framing bytes).result = .ok a →
        (bytes.take k).map (framing, ·) = Append.taken (.ok a) framing bytes := by
  have nothing : s.accepted ++ (bytes.take 0).map (framing, ·) = s.accepted := by simp
  unfold FrameRing.append
  split
  · refine ⟨0, by rw [nothing, synced], ?_⟩
    rintro a ⟨⟩
    simp [Append.taken]
  by_cases ok₁ : (s.ring.sendPending t).1 = .ok true
  · rw [FrameRing.thenSend_of_ok _ _ _ _ ok₁]
    -- after the first send: nothing is pending, and a region of another framing is sealed
    have idle₁ := FrameRing.sendPending_pending_of_ok _ _ ok₁
    have sealed := sealOther_moves
      { s with
        ring := (s.ring.sendPending t).2.1
        lent := (s.ring.sendPending t).2.2.lent } framing idle₁
    have upto := (sendPending_moves s t synced).trans sealed
    by_cases ok₂ : (((s.ring.sendPending t).2.1.sealOther framing).sendPending
        (s.ring.sendPending t).2.2).1 = .ok true
    · rw [FrameRing.thenSend_of_ok _ _ _ _ ok₂]
      have sent := sendPending_moves
        { s with
          ring := (s.ring.sendPending t).2.1.sealOther framing
          lent := (s.ring.sendPending t).2.2.lent }
        (s.ring.sendPending t).2.2 rfl
      obtain ⟨k, reach, answer⟩ := place_copies
        { s with
          ring := (((s.ring.sendPending t).2.1.sealOther framing).sendPending
            (s.ring.sendPending t).2.2).2.1
          lent := (((s.ring.sendPending t).2.1.sealOther framing).sendPending
            (s.ring.sendPending t).2.2).2.2.lent }
        (((s.ring.sendPending t).2.1.sealOther framing).sendPending (s.ring.sendPending t).2.2).2.2
        rfl framing bytes (FrameRing.sendPending_pending_of_ok _ _ ok₂)
        (by
          intro o opened
          rw [FrameRing.sendPending_openRegion] at opened
          exact FrameRing.sealOther_framing _ _ o opened)
      exact ⟨k, upto.trans (sent.trans reach), answer⟩
    · obtain ⟨reach, answer⟩ := thenSend_stuck_moves
        { s with
          ring := (s.ring.sendPending t).2.1.sealOther framing
          lent := (s.ring.sendPending t).2.2.lent }
        (s.ring.sendPending t).2.2 rfl (Append.blocked .sendBuf) _ ok₂
      refine ⟨0, by rw [nothing]; exact upto.trans reach, fun a result => ?_⟩
      rw [answer a result]
      simp [Append.taken]
  · obtain ⟨reach, answer⟩ := thenSend_stuck_moves s t synced (Append.blocked .sendBuf) _ ok₁
    refine ⟨0, by rw [nothing]; exact reach, fun a result => ?_⟩
    rw [answer a result]
    simp [Append.taken]

/-- Every append is a sequence of moves; when it answers without an error, the moves accepted
exactly the bytes it reports taken, under its framing. -/
theorem append_moves (s : RingRun) (t : Recorded τ) (synced : t.lent = s.lent) (framing : Framing)
    (bytes : List UInt8) :
    ∃ acc, Moves s { s with ring := (s.ring.append t framing bytes).ring,
                            lent := (s.ring.append t framing bytes).transport.lent,
                            accepted := acc } ∧
      ∀ a, (s.ring.append t framing bytes).result = .ok a →
        acc = s.accepted ++ Append.taken (.ok a) framing bytes := by
  obtain ⟨k, reach, answer⟩ := append_copies s t synced framing bytes
  exact ⟨_, reach, fun a result => by rw [answer a result]⟩

/-- Every finish is a sequence of moves. -/
theorem finish_moves (s : RingRun) (t : Recorded τ) (synced : t.lent = s.lent) :
    Moves s { s with ring := (s.ring.finish t).ring, lent := (s.ring.finish t).transport.lent } := by
  unfold FrameRing.finish
  by_cases ok : (s.ring.sendPending t).1 = .ok true
  · rw [FrameRing.thenSend_of_ok _ _ _ _ ok]
    exact (sendPending_moves s t synced).trans (sealThenSend_moves
      { s with
        ring := (s.ring.sendPending t).2.1
        lent := (s.ring.sendPending t).2.2.lent }
      (s.ring.sendPending t).2.2 rfl false (some WaitReason.sendBuf) none
      (FrameRing.sendPending_pending_of_ok _ _ ok)).1
  · exact (thenSend_stuck_moves s t synced _ _ ok).1

end RingRun

end WebSocketCore
