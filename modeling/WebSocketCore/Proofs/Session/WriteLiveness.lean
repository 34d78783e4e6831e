import Mathlib
import WebSocketCore.Proofs.Ring.Progress

/-! # A write finishes once acknowledgements come

A writer waits only for send room or for acknowledgements. Suppose the peer acknowledges every
byte in flight before the writer is resumed, and the loopback's window holds a whole region once
nothing is unacknowledged. After a wait for acknowledgements the ring has drained, and the
writer's next round takes a byte. After a wait for send room, the next round sends the pending
region first, then takes a byte or waits once more for acknowledgements.

So a write suspends at most twice for each byte it takes, and every branch of its run reaches the
end of the write with success (`Progress.Reaches`). A task's loops give up after
`Routine.loopBudget` rounds; a write of `n` bytes needs at most `3 * n + 1` of them.

The induction is stated once, in `Progress.Ends`, the Hoare-style judgement for a task whose waits
are answered by its environment: every branch of the run, each suspension resumed on a world the
environment relates to the world it suspended on, meets an invariant wherever it suspends, a
predicate wherever it stalls, and a postcondition where it finishes. For a write the invariant and
the postcondition track what the link's run accepted (`Link.Writing`): a first part of the bytes
at every wait, all of them at the end.
-/

namespace WebSocketCore

namespace Progress

/-- Every branch of a run reaches `.done a`, with each suspension resumed with `r` on a world that
`serves` relates to the world it suspended on: the run finishes after finitely many suspensions. -/
inductive Reaches {ω Y R α : Type} (r : R) (serves : Y → ω → ω → Prop) (a : α) :
    Progress ω Y R α → Prop
  | done (w : ω) : Reaches r serves a (.done a w)
  | suspend (y : Y) (w : ω) (k : R → ω → Progress ω Y R α) :
      (∀ v, serves y w v → Reaches r serves a (k r v)) → Reaches r serves a (.suspend y w k)

variable {ω Y R α β : Type}

/-- Every branch of a run, with each suspension resumed with `r` on a world that `serves` relates
to the world it suspended on, meets `I` wherever it suspends, `S` wherever it stalls and `Q`
where it finishes. -/
inductive Ends (r : R) (serves : Y → ω → ω → Prop) (I S : ω → Prop) (Q : α → ω → Prop) :
    Progress ω Y R α → Prop
  | done {a : α} {w : ω} : Q a w → Ends r serves I S Q (.done a w)
  | stall {w : ω} : S w → Ends r serves I S Q (.stall w)
  | suspend {y : Y} {w : ω} {k : R → ω → Progress ω Y R α} : I w →
      (∀ v, serves y w v → Ends r serves I S Q (k r v)) → Ends r serves I S Q (.suspend y w k)

namespace Ends

variable {r : R} {serves : Y → ω → ω → Prop} {I I' S S' : ω → Prop} {Q Q' : α → ω → Prop}
  {p : Progress ω Y R α}

theorem mono (ends : p.Ends r serves I S Q) (inv : ∀ w, I w → I' w) (stalls : ∀ w, S w → S' w)
    (post : ∀ a w, Q a w → Q' a w) : p.Ends r serves I' S' Q' := by
  induction ends with
  | done holds => exact .done (post _ _ holds)
  | stall holds => exact .stall (stalls _ holds)
  | suspend holds _ ih => exact .suspend (inv _ holds) ih

theorem bind {f : α → ω → Progress ω Y R β} {T : β → ω → Prop} (first : p.Ends r serves I S Q)
    (next : ∀ a w, Q a w → (f a w).Ends r serves I S T) : (p.bind f).Ends r serves I S T := by
  induction first with
  | done holds => exact next _ _ holds
  | stall holds => exact .stall holds
  | suspend holds _ ih => exact .suspend holds ih

/-- Two judgements on one run hold together. -/
theorem and (first : p.Ends r serves I S Q) (second : p.Ends r serves I' S' Q') :
    p.Ends r serves (fun w => I w ∧ I' w) (fun w => S w ∧ S' w) fun a w => Q a w ∧ Q' a w := by
  induction first with
  | done holds =>
    cases second with
    | done holds' => exact .done ⟨holds, holds'⟩
  | stall holds =>
    cases second with
    | stall holds' => exact .stall ⟨holds, holds'⟩
  | suspend holds _ ih =>
    cases second with
    | suspend holds' rest' =>
      exact .suspend ⟨holds, holds'⟩ fun v served => ih v served (rest' v served)

/-- A run that never stalls and finishes with `a` reaches `a`. -/
theorem reaches {a : α} (ends : p.Ends r serves I (fun _ => False) fun b _ => b = a) :
    p.Reaches r serves a := by
  induction ends with
  | done holds => exact holds ▸ .done _
  | stall holds => exact holds.elim
  | suspend _ _ ih => exact .suspend _ _ _ ih

end Ends

end Progress

namespace Io

variable {τ σ α β : Type} {r : Wake} {serves : WaitReason → Conn τ σ → Conn τ σ → Prop}
  {I S : Conn τ σ → Prop}

/-- A program that ends with success where `P` holds, followed by one that ends as `Q` asks from
every such world, ends as `Q` asks. -/
theorem ends_bind {x : Io τ σ α} {f : α → Io τ σ β} {w : Conn τ σ} {P : α → Conn τ σ → Prop}
    {Q : Except NetError β → Conn τ σ → Prop}
    (first : (x.run w).Ends r serves I S fun res w' => ∃ a, res = .ok a ∧ P a w')
    (next : ∀ a w', P a w' → ((f a).run w').Ends r serves I S Q) :
    ((x >>= f).run w).Ends r serves I S Q := by
  rw [run_bind_apply]
  refine first.bind fun res w' post => ?_
  obtain ⟨a, rfl, holds⟩ := post
  exact next a w' holds

end Io

namespace Loopback

@[simp] theorem send_capacity (t : Loopback) (s : Slice) (more : Bool) :
    (Transport.send t s more).1.capacity = t.capacity := by
  simp only [Transport.send]
  split <;> rfl

/-- A loopback that takes sends takes every slice. -/
theorem send_takes {t : Loopback} (takes : t.failSend = false) (s : Slice) (more : Bool) :
    (Transport.send t s more).2 = true := by
  simp [Transport.send, takes]

end Loopback

namespace Link

/-- The peer acknowledges every byte the loopback holds unacknowledged. -/
def ackAll (l : Link Loopback) : Link Loopback :=
  { l with transport := l.transport.acknowledge l.transport.unacked }.onSent l.transport.unacked

/-- A link a writer can go on with: it carries a run of its ring and is usable, its open region
has room, the payload limit allows a byte, and the loopback's window holds a whole region once
nothing is unacknowledged. -/
structure Writable (limit : Nat) (l : Link Loopback) : Prop where
  carries : ∃ s, l.Carries limit s
  usable : l.usable = .ok ()
  roomy : l.ring.Roomy
  payload : 1 ≤ limit
  window : limit + headerReserve ≤ l.transport.capacity

namespace Writable

variable {limit : Nat} {l : Link Loopback}

theorem inv (writable : l.Writable limit) : l.ring.Inv := by
  obtain ⟨s, carries⟩ := writable.carries
  exact carries.ring_eq ▸ carries.delivering.intact.inv

theorem maxPayload_pos (writable : l.Writable limit) : 1 ≤ l.ring.maxPayload := by
  obtain ⟨s, carries⟩ := writable.carries
  rw [← carries.ring_eq, carries.delivering.delivered.maxPayload_eq]
  exact writable.payload

theorem append (writable : l.Writable limit) (framing : Framing) (bytes : List UInt8) :
    (l.append framing bytes).2.Writable limit := by
  obtain ⟨s, carries⟩ := writable.carries
  obtain ⟨-, ring, transport⟩ := append_parts writable.usable framing bytes
  have capacity : (l.append framing bytes).2.transport.capacity = l.transport.capacity := by
    rw [transport]
    exact FrameRing.append_keeps (P := fun t : Loopback => t.capacity = l.transport.capacity)
      (fun t s more held => (Loopback.send_capacity t s more).trans held) l.ring framing bytes rfl
  refine ⟨⟨_, (carries.append writable.usable framing bytes).1⟩,
    (append_rewrites writable.usable framing bytes).usable.trans writable.usable, ?_,
    writable.payload, by rw [capacity]; exact writable.window⟩
  rw [ring]
  exact writable.roomy.append _ framing bytes

theorem ackAll (writable : l.Writable limit) : l.ackAll.Writable limit := by
  obtain ⟨s, carries⟩ := writable.carries
  exact ⟨⟨_, carries.acknowledge l.transport.unacked⟩, writable.usable,
    writable.roomy.onAck writable.inv _, writable.payload, writable.window⟩

end Writable

variable {limit : Nat} {l : Link Loopback}

/-- Once every byte is acknowledged, nothing is unacknowledged and the ring keeps its pending
region. -/
theorem ackAll_eq (l : Link Loopback) :
    l.ackAll.transport.unacked = 0 ∧ l.ackAll.transport.capacity = l.transport.capacity ∧
      l.ackAll.ring = (l.ring.onAck l.transport.unacked).1 := by
  simp [ackAll, onSent, Loopback.acknowledge]

/-- After a wait for acknowledgements, once every byte is acknowledged, the next append takes a
byte: the ring has drained, and a region opens at offset 0. -/
theorem Writable.took_after_ack (writable : l.Writable limit) {framing : Framing}
    {bytes : List UInt8} (offered : bytes ≠ [])
    (blocked : (l.append framing bytes).1 = .ok (.blocked .ack)) :
    ∃ n, ((l.append framing bytes).2.ackAll.append framing bytes).1 = .ok (.took n) ∧ 1 ≤ n := by
  obtain ⟨result, ring, -⟩ := append_parts writable.usable framing bytes
  obtain ⟨closed, idle⟩ := FrameRing.append_blocked_ack (result.symm.trans blocked)
  rw [← ring] at closed idle
  have appended := writable.append framing bytes
  obtain ⟨s₁, carries₁⟩ := appended.carries
  -- acknowledging everything in flight drains a ring with nothing open or pending
  have drained : (l.append framing bytes).2.ackAll.ring.isDrained = true := by
    rw [(ackAll_eq _).2.2, carries₁.unacked]
    exact appended.inv.onAck_drains closed idle
  have acked := appended.ackAll
  obtain ⟨s₂, carries₂⟩ := acked.carries
  obtain ⟨-, -, a, answered⟩ := carries₂.append acked.usable framing bytes
  obtain ⟨result₂, -, -⟩ := append_parts acked.usable framing bytes
  cases a with
  | took n =>
    exact ⟨n, answered, (acked.roomy.append_took offered acked.maxPayload_pos
      (result₂.symm.trans answered)).1⟩
  | blocked y =>
    exact absurd (result₂.symm.trans answered)
      (acked.inv.append_of_drained drained carries₂.roomy _ framing bytes y)

/-- After a wait for send room, once every byte is acknowledged, the next append sends the pending
region and then takes a byte or waits for acknowledgements. -/
theorem Writable.after_sendBuf (writable : l.Writable limit) {framing : Framing}
    {bytes : List UInt8} (offered : bytes ≠ [])
    (blocked : (l.append framing bytes).1 = .ok (.blocked .sendBuf)) :
    (∃ n, ((l.append framing bytes).2.ackAll.append framing bytes).1 = .ok (.took n) ∧ 1 ≤ n) ∨
      ((l.append framing bytes).2.ackAll.append framing bytes).1 = .ok (.blocked .ack) := by
  obtain ⟨result, ring, -⟩ := append_parts writable.usable framing bytes
  obtain ⟨p, pending, -⟩ :=
    FrameRing.append_owes writable.inv (writable.carries.elim fun _ c => c.roomy) _ _ _
      (result.symm.trans blocked)
  rw [← ring] at pending
  have appended := writable.append framing bytes
  obtain ⟨s₁, carries₁⟩ := appended.carries
  have short := carries₁.delivering.pending_len_le (carries₁.ring_eq ▸ pending)
  have acked := appended.ackAll
  obtain ⟨s₂, carries₂⟩ := acked.carries
  obtain ⟨unacked, capacity, acks⟩ := ackAll_eq (l.append framing bytes).2
  -- the region is still pending, and the window now holds it
  have pending₂ : (l.append framing bytes).2.ackAll.ring.pending = some p := by
    rw [acks, FrameRing.onAck_pending]
    exact pending
  have window : p.stop - p.start ≤
      Transport.sendCapacity (l.append framing bytes).2.ackAll.transport := by
    have := appended.window
    change _ ≤ _ - _
    simp only [headerReserve] at this
    omega
  obtain ⟨-, -, a, answered⟩ := carries₂.append acked.usable framing bytes
  obtain ⟨result₂, -, -⟩ := append_parts acked.usable framing bytes
  cases a with
  | took n =>
    exact .inl ⟨n, answered, (acked.roomy.append_took offered acked.maxPayload_pos
      (result₂.symm.trans answered)).1⟩
  | blocked y =>
    have reason := acked.inv.append_blocked_of_sendable pending₂ window
      (Loopback.send_takes carries₂.takes _ _) (result₂.symm.trans answered)
    rw [reason] at answered
    exact .inr answered

/-- A link a writer goes on with, carrying a run that accepted `acc`: the bytes the appends took,
in order, each tagged with its framing. -/
structure Writing (limit : Nat) (acc : List (Framing × UInt8)) (l : Link Loopback) : Prop where
  writable : l.Writable limit
  accepted : ∃ s, l.Carries limit s ∧ s.accepted = acc

namespace Writing

variable {acc : List (Framing × UInt8)}

theorem append (writing : l.Writing limit acc) (framing : Framing) (bytes : List UInt8) :
    (l.append framing bytes).2.Writing limit
      (acc ++ Append.taken (l.append framing bytes).1 framing bytes) := by
  obtain ⟨s, carries, rfl⟩ := writing.accepted
  obtain ⟨carries', accepted, -⟩ := carries.append writing.writable.usable framing bytes
  exact ⟨writing.writable.append framing bytes, _, carries', accepted⟩

theorem ackAll (writing : l.Writing limit acc) : l.ackAll.Writing limit acc := by
  obtain ⟨s, carries, rfl⟩ := writing.accepted
  exact ⟨writing.writable.ackAll, _, carries.acknowledge l.transport.unacked, rfl⟩

end Writing

end Link

namespace Conn

/-- The world a task resumes on after a wait, once the peer has acknowledged every byte in flight:
its link is the link it waited on with everything acknowledged. -/
def AckedAll {σ : Type} (_ : WaitReason) (w v : Conn Loopback σ) : Prop := v.link = w.link.ackAll

end Conn

namespace FrameWriter

open Io

variable {σ : Type} {limit : Nat}

/-- A write loop with `3 * n + 1` rounds for the `n` bytes left ends with all of them accepted,
when every wait is resumed once every byte in flight is acknowledged. -/
theorem write_rounds_end (framing : Framing) :
    ∀ (n : Nat) (rest : List UInt8), rest.length ≤ n → ∀ (rounds : Nat)
      (acc : List (Framing × UInt8)) (w : Conn Loopback σ), w.link.Writing limit acc →
      3 * rest.length + 1 ≤ rounds →
      ((loopFor rounds (writeRound framing) rest).run w).Ends (.ok ()) Conn.AckedAll
        (fun v => ∃ pre, pre <+: rest ∧ v.link.Writing limit (acc ++ pre.map (framing, ·)))
        (fun _ => False)
        (fun a v => a = .ok () ∧ v.link.Writing limit (acc ++ rest.map (framing, ·))) := by
  intro n
  induction n with
  | zero =>
    intro rest short rounds acc w writing spared
    obtain ⟨rounds, rfl⟩ : ∃ k, rounds = k + 1 := ⟨rounds - 1, by omega⟩
    rw [List.eq_nil_of_length_eq_zero (Nat.le_zero.mp short), run_write_nil]
    exact .done ⟨rfl, by simpa using writing⟩
  | succ n ih =>
    intro rest short rounds acc w writing spared
    obtain ⟨rounds, rfl⟩ : ∃ k, rounds = k + 1 := ⟨rounds - 1, by omega⟩
    rcases eq_or_ne rest [] with rfl | offered
    · rw [run_write_nil]
      exact .done ⟨rfl, by simpa using writing⟩
    have length : 1 ≤ rest.length := List.length_pos_iff.mpr offered
    -- a round that takes `k` bytes leaves a loop the induction covers, on the bytes after them
    have next : ∀ (k rounds' : Nat) (v : Conn Loopback σ), v.link.Writing limit acc → 1 ≤ k →
        3 * rest.length ≤ rounds' + 2 → (v.link.append framing rest).1 = .ok (.took k) →
        ((loopFor (rounds' + 1) (writeRound framing) rest).run v).Ends (.ok ()) Conn.AckedAll
          (fun v => ∃ pre, pre <+: rest ∧ v.link.Writing limit (acc ++ pre.map (framing, ·)))
          (fun _ => False)
          (fun a v => a = .ok () ∧ v.link.Writing limit (acc ++ rest.map (framing, ·))) := by
      intro k rounds' v writing' taken spared' took
      have appended := writing'.append framing rest
      rw [took] at appended
      rw [run_write_took offered took]
      refine (ih (rest.drop k) (by rw [List.length_drop]; omega) rounds' _ _ appended
        (by rw [List.length_drop]; omega)).mono (fun u waiting => ?_) (fun _ stalled => stalled)
        fun a u finished => ⟨finished.1, ?_⟩
      · obtain ⟨pre, within, holds⟩ := waiting
        have whole : rest.take k ++ pre <+: rest.take k ++ rest.drop k :=
          (List.prefix_append_right_inj _).mpr within
        rw [List.take_append_drop] at whole
        exact ⟨rest.take k ++ pre, whole, by simpa [Append.taken] using holds⟩
      · simpa [Append.taken, ← List.map_append] using finished.2
    obtain ⟨s, carries, -⟩ := writing.accepted
    obtain ⟨-, -, a, answered⟩ := carries.append writing.writable.usable framing rest
    obtain ⟨result, -, -⟩ := Link.append_parts writing.writable.usable framing rest
    cases a with
    | took k =>
      have taken := (writing.writable.roomy.append_took offered writing.writable.maxPayload_pos
        (result.symm.trans answered)).1
      exact next k rounds w writing taken (by omega) answered
    | blocked y =>
      -- the round waits having taken nothing, and is resumed once everything is acknowledged
      have kept := writing.append framing rest
      rw [answered] at kept
      simp only [Append.taken, List.append_nil] at kept
      obtain ⟨K, waits, resumes⟩ := run_write_blocked offered answered rounds
      rw [waits]
      refine .suspend ⟨[], List.nil_prefix, by simpa using kept⟩ fun v served => ?_
      rw [resumes v]
      obtain ⟨rounds, rfl⟩ : ∃ k, rounds = k + 1 := ⟨rounds - 1, by omega⟩
      have writing' : v.link.Writing limit acc := served ▸ kept.ackAll
      rcases FrameRing.append_blocked_reason (result.symm.trans answered) with rfl | rfl
      · -- send room: the pending region goes first, then a byte, or one more wait
        rcases writing.writable.after_sendBuf offered answered with ⟨k, took, taken⟩ | blocked'
        · exact next k rounds v writing' taken (by omega) (served ▸ took)
        · have blocked'' : (v.link.append framing rest).1 = .ok (.blocked .ack) := served ▸ blocked'
          have kept' := writing'.append framing rest
          rw [blocked''] at kept'
          simp only [Append.taken, List.append_nil] at kept'
          obtain ⟨K', waits', resumes'⟩ := run_write_blocked offered blocked'' rounds
          rw [waits']
          refine .suspend ⟨[], List.nil_prefix, by simpa using kept'⟩ fun v' served' => ?_
          rw [resumes' v']
          obtain ⟨rounds, rfl⟩ : ∃ k, rounds = k + 1 := ⟨rounds - 1, by omega⟩
          obtain ⟨k, took, taken⟩ := writing'.writable.took_after_ack offered blocked''
          exact next k rounds v' (served' ▸ kept'.ackAll) taken (by omega) (served' ▸ took)
      · -- acknowledgements: the ring has drained, and the next round takes a byte
        obtain ⟨k, took, taken⟩ := writing.writable.took_after_ack offered answered
        exact next k rounds v writing' taken (by omega) (served ▸ took)

/-- A write of `n` bytes, with `3 * n + 1` rounds within the loop budget, from a link a writer goes
on with whose run accepted `acc`, ends with success on a link whose run accepted the bytes after
`acc`, waiting only on links whose run accepted a first part of them. -/
theorem write_ends (framing : Framing) {acc : List (Framing × UInt8)} {w : Conn Loopback σ}
    (writing : w.link.Writing limit acc) (bytes : List UInt8)
    (fits : 3 * bytes.length + 1 ≤ Routine.loopBudget) :
    ((write framing bytes).run w).Ends (.ok ()) Conn.AckedAll
      (fun v => ∃ pre, pre <+: bytes ∧ v.link.Writing limit (acc ++ pre.map (framing, ·)))
      (fun _ => False)
      (fun a v => a = .ok () ∧ v.link.Writing limit (acc ++ bytes.map (framing, ·))) := by
  rw [write_eq]
  exact write_rounds_end framing bytes.length bytes le_rfl _ acc w writing fits

/-- A write of `n` bytes, with `3 * n + 1` rounds within the loop budget, from a link a writer can
go on with, finishes with success after finitely many waits, each resumed once the peer has
acknowledged every byte in flight. -/
theorem write_reaches_end (framing : Framing) {w : Conn Loopback σ} (writable : w.link.Writable limit)
    (bytes : List UInt8) (fits : 3 * bytes.length + 1 ≤ Routine.loopBudget) :
    ((write framing bytes).run w).Reaches (.ok ()) Conn.AckedAll (.ok ()) := by
  -- whatever run the link carries, the write never stalls and ends with success
  obtain ⟨s, carries⟩ := writable.carries
  have ends := write_ends framing ⟨writable, s, carries, rfl⟩ bytes fits
  exact (ends.mono (fun _ _ => trivial) (fun _ stalled => stalled) fun _ _ done => done.1).reaches

/-- The ring never blocks without a way out, and so a write finishes when every wait is resumed
once the peer acknowledged everything. -/
theorem ring_has_way_out_when_acked {τ : Type} [Transport τ] :
    (∀ (r : FrameRing) (t : τ) (framing : Framing) (bytes : List UInt8),
      r.Reachable → minRegion ≤ r.size → 1 ≤ r.maxPayload → bytes ≠ [] →
        (∃ n, (r.append t framing bytes).result = .ok (.took n) ∧ 1 ≤ n ∧ n ≤ bytes.length) ∨
        ((r.append t framing bytes).result = .ok (.blocked .sendBuf) ∧
          (r.append t framing bytes).ring.Owes (r.append t framing bytes).transport .sendBuf) ∨
        ((r.append t framing bytes).result = .ok (.blocked .ack) ∧
          0 < (r.append t framing bytes).ring.inFlight) ∨
        (r.append t framing bytes).Refused) ∧
    (∀ (r : FrameRing) (t : τ) (y : WaitReason), (r.finish t).result = .ok (some y) →
      y = .sendBuf ∧ (r.finish t).ring.Owes (r.finish t).transport .sendBuf) ∧
    (∀ (framing : Framing) (limit : Nat) (w : Conn Loopback σ) (bytes : List UInt8),
      w.link.Writable limit → 3 * bytes.length + 1 ≤ Routine.loopBudget →
        ((write framing bytes).run w).Reaches (.ok ()) Conn.AckedAll (.ok ())) := by
  refine ⟨fun r t framing bytes reach room limit offered => ?_, fun r t y waits => ?_,
    fun framing limit w bytes writable fits => write_reaches_end framing writable bytes fits⟩
  · exact reach.append_answers room limit t framing offered
  · obtain ⟨rfl, owes⟩ := FrameRing.finish_owes r t waits
    exact ⟨rfl, owes⟩

end FrameWriter

end WebSocketCore
