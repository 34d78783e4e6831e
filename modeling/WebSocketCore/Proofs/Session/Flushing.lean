import Mathlib
import WebSocketCore.Proofs.Session.WriteLiveness

/-! # Pushes and flushes that end, and what the loopback has then received

Over a loopback whose window holds a whole region, with every wait resumed once the peer has
acknowledged every byte in flight, a push or a flush ends (`Progress.Ends`) as a write does: each
wait lowers the link's backlog (`Link.backlog`), a weighted count of the region left open, the
region left pending, bytes in flight and a ring that has not drained. A carried link whose run
accepted raw bytes has handed the loopback a prefix of them, all of them once nothing is open or
pending.
-/

namespace WebSocketCore

namespace Loopback

/-- Every byte handed to the loopback, in the order it was sent. -/
def sentBytes (t : Loopback) : List UInt8 := t.sends.toList.flatMap Prod.fst

/-- A send only adds bytes after those the loopback received. -/
theorem sentBytes_send (t : Loopback) (s : Slice) (more : Bool) :
    t.sentBytes <+: (Transport.send t s more).1.sentBytes := by
  simp only [Transport.send]
  split
  · exact List.prefix_refl _
  · simp [sentBytes]

@[simp] theorem acknowledge_sentBytes (t : Loopback) (len : Nat) :
    (t.acknowledge len).sentBytes = t.sentBytes := rfl

end Loopback

namespace FrameRing

variable {τ : Type} [Transport τ]

theorem sealOpen_of_closed {r : FrameRing} (closed : r.openRegion = none) (more : Bool) :
    r.sealOpen more = r := by
  simp [sealOpen, closed]

@[simp] theorem rewind_isDrained (r : FrameRing) : r.rewind.isDrained = r.isDrained := by
  unfold rewind
  split <;> rfl

/-- A ring that has drained has nothing in flight. -/
theorem Inv.inFlight_of_drained {r : FrameRing} (inv : r.Inv) (drained : r.isDrained = true) :
    r.inFlight = 0 := by
  obtain ⟨-, idle, empty⟩ := (isDrained_iff r).mp drained
  rw [inv.inFlight_eq]
  simp [sentMarkers, idle, empty]

/-- A finish on a ring with nothing open or pending sends nothing and answers that nothing is
left. -/
theorem finish_of_settled {r : FrameRing} (closed : r.openRegion = none)
    (idle : r.pending = none) (t : τ) : r.finish t = ⟨.ok none, r, t⟩ := by
  simp [finish, thenSend, sendPending_of_idle idle, sealOpen_of_closed closed]

/-- A finish that tells the task to wait found the pending region too long for the window and left
ring and transport as they were, or sealed the region left open and found that one too long. -/
theorem finish_waits {r : FrameRing} {t : τ} {y : WaitReason}
    (waits : (r.finish t).result = .ok (some y)) :
    ((r.finish t).ring = r ∧ (r.finish t).transport = t) ∨
      ((r.finish t).ring.openRegion = none ∧ r.openRegion.isSome) := by
  unfold finish at waits ⊢
  by_cases ok₁ : (r.sendPending t).1 = .ok true
  · rw [thenSend_of_ok _ _ _ _ ok₁] at waits ⊢
    refine .inr ⟨by simp [thenSend_answer_ring], ?_⟩
    -- with no region open, the first send left nothing to seal or send
    rcases opened : r.openRegion with _ | o
    · have closed : (r.sendPending t).2.1.openRegion = none := by
        rw [sendPending_openRegion, opened]
      rw [sealOpen_of_closed closed, thenSend_of_ok _ _ _ _
        (by rw [sendPending_of_idle (sendPending_pending_of_ok r t ok₁)])] at waits
      cases waits
    · rfl
  · refine .inl ?_
    rcases pending : r.pending with _ | p
    · exact absurd (by rw [sendPending_of_idle pending]) ok₁
    · by_cases short : Transport.sendCapacity t < p.stop - p.start
      · have stalled : r.sendPending t = (.ok false, r, t) := by simp [sendPending, pending, short]
        simp [thenSend, stalled]
      · rcases sent : Transport.send t (r.pendingSlice p) p.more with ⟨t', _ | _⟩
        · have refused : r.sendPending t = (.error .writeError, r, t') := by
            simp [sendPending, pending, short, sent]
          simp [thenSend, refused] at waits
        · have taken : (r.sendPending t).1 = .ok true := by simp [sendPending, pending, short, sent]
          exact absurd taken ok₁

end FrameRing

namespace Link

variable {limit : Nat} {acc : List (Framing × UInt8)} {l : Link Loopback}

/-- A link with the ring rewound carries the run rewound, and a writer goes on with it. -/
theorem Writable.rewind (writable : l.Writable limit) :
    ({ l with ring := l.ring.rewind } : Link Loopback).Writable limit := by
  obtain ⟨s, carries⟩ := writable.carries
  exact ⟨⟨_, carries.rewind⟩, writable.usable, writable.roomy.rewind, writable.payload,
    writable.window⟩

theorem Writable.push (writable : l.Writable limit) : l.push.2.Writable limit := by
  obtain ⟨s, carries⟩ := writable.carries
  obtain ⟨-, ring, transport⟩ := push_parts writable.usable
  have capacity : l.push.2.transport.capacity = l.transport.capacity := by
    rw [transport]
    exact FrameRing.finish_keeps (P := fun t : Loopback => t.capacity = l.transport.capacity)
      (fun t s more held => (Loopback.send_capacity t s more).trans held) l.ring rfl
  refine ⟨⟨_, (carries.push writable.usable).1⟩,
    (push_rewrites writable.usable).usable.trans writable.usable, ?_, writable.payload,
    by rw [capacity]; exact writable.window⟩
  rw [ring]
  exact writable.roomy.finish _

/-- A flush is a push, followed by a rewind once the ring has drained. -/
theorem flush_cases {τ : Type} [Transport τ] (l : Link τ) :
    l.flush.2 = l.push.2 ∨ l.flush.2 = { l.push.2 with ring := l.push.2.ring.rewind } := by
  unfold flush
  rcases l.push with ⟨r, l'⟩
  rcases r with e | _ | y
  · exact .inl rfl
  · dsimp only
    split
    · exact .inr rfl
    · exact .inl rfl
  · exact .inl rfl

theorem Writable.flush (writable : l.Writable limit) : l.flush.2.Writable limit := by
  rcases flush_cases l with same | rewound
  · exact same ▸ writable.push
  · exact rewound ▸ writable.push.rewind

namespace Writing

theorem push (writing : l.Writing limit acc) : l.push.2.Writing limit acc := by
  obtain ⟨s, carries, rfl⟩ := writing.accepted
  obtain ⟨carries', accepted, -⟩ := carries.push writing.writable.usable
  exact ⟨writing.writable.push, _, carries', accepted⟩

theorem flush (writing : l.Writing limit acc) : l.flush.2.Writing limit acc := by
  obtain ⟨s, carries, rfl⟩ := writing.accepted
  obtain ⟨⟨s', carries', accepted⟩, -⟩ := carries.flush writing.writable.usable
  exact ⟨writing.writable.flush, s', carries', accepted⟩

/-- Reading changes only the inbound queue and the count of consumed bytes. -/
theorem inbound (writing : l.Writing limit acc) (q : List UInt8) (credit : Nat) :
    ({ l with inbound := q, credit } : Link Loopback).Writing limit acc := by
  obtain ⟨s, carries, rfl⟩ := writing.accepted
  have carries' : ({ l with inbound := q, credit } : Link Loopback).Carries limit s :=
    carries.of_wire rfl rfl rfl rfl
  obtain ⟨_, usable, roomy, payload, window⟩ := writing.writable
  exact ⟨⟨⟨s, carries'⟩, usable, roomy, payload, window⟩, s, carries', rfl⟩

end Writing

/-! ## The backlog of a flush -/

/-- What a flush still has to do on a link: seal the region left open (worth four), send the
region left pending (two), see the bytes in flight acknowledged (one) and see the ring drained
(one). -/
def backlog (l : Link Loopback) : Nat :=
  (if l.ring.openRegion.isSome then 4 else 0) + (if l.ring.pending.isSome then 2 else 0) +
    (if l.transport.unacked = 0 then 0 else 1) + (if l.ring.isDrained then 0 else 1)

theorem backlog_le (l : Link Loopback) : l.backlog ≤ 8 := by
  unfold backlog
  split_ifs <;> omega

/-- A wait of a push, once every byte in flight is acknowledged, lowers the backlog: the region
too long for the window is still pending but no byte is in flight, or the region left open was
sealed. -/
theorem Writing.push_backlog (writing : l.Writing limit acc) {y : WaitReason}
    (waits : l.push.1 = .ok (some y)) : l.push.2.ackAll.backlog < l.backlog := by
  obtain ⟨s, carries, -⟩ := writing.accepted
  obtain ⟨result, ring, transport⟩ := push_parts writing.writable.usable
  rw [result] at waits
  obtain ⟨rfl, p, pending, short⟩ := FrameRing.finish_owes _ _ waits
  obtain ⟨unacked, -, acks⟩ := ackAll_eq l.push.2
  have pending' : l.push.2.ackAll.ring.pending = some p := by
    rw [acks, FrameRing.onAck_pending, ring, pending]
  have busy : l.push.2.ackAll.ring.isDrained = false := by simp [FrameRing.isDrained, pending']
  unfold backlog
  rw [pending', busy, unacked]
  rcases FrameRing.finish_waits waits with ⟨same, sameT⟩ | ⟨closed, wasOpen⟩
  · -- the pending region was too long for the window, so bytes were in flight
    have held : l.ring.pending = some p := by rw [← same, pending]
    have len := carries.delivering.pending_len_le (carries.ring_eq ▸ held)
    have window := writing.writable.window
    rw [sameT] at short
    change l.transport.capacity - l.transport.unacked < _ at short
    have open' : l.push.2.ackAll.ring.openRegion = l.ring.openRegion := by
      rw [acks, FrameRing.onAck_openRegion, ring, same]
    have inFlight : l.transport.unacked ≠ 0 := by simp only [headerReserve] at window; omega
    have lBusy : l.ring.isDrained = false := by simp [FrameRing.isDrained, held]
    rw [open', held, lBusy, if_neg inFlight]
    simp
  · -- the region left open was sealed, and is pending now
    have open' : l.push.2.ackAll.ring.openRegion = none := by
      rw [acks, FrameRing.onAck_openRegion, ring, closed]
    have lBusy : l.ring.isDrained = false := by
      simp [FrameRing.isDrained, Option.isSome_iff_ne_none.mp wasOpen]
    rw [open', wasOpen, lBusy]
    simp only [Option.isSome_none, Bool.false_eq_true, if_false, Option.isSome_some, if_true]
    split_ifs <;> omega

/-- A flush whose push answered that nothing is left answers by whether the ring has drained. -/
theorem flush_of_pushed {l : Link Loopback} (done : l.push.1 = .ok none) :
    l.flush = if l.push.2.ring.isDrained then (.ok none, { l.push.2 with ring := l.push.2.ring.rewind })
      else (.ok (some .flush), l.push.2) := by
  unfold flush
  rcases answer : l.push with ⟨r, l'⟩
  rw [answer] at done
  subst done
  rfl

/-- A flush whose push tells the task to wait is that push. -/
theorem flush_of_push_waits {l : Link Loopback} {y : WaitReason} (waits : l.push.1 = .ok (some y)) :
    l.flush = l.push := by
  unfold flush
  rcases answer : l.push with ⟨r, l'⟩
  rw [answer] at waits
  subst waits
  rfl

/-- A flush that tells the task to wait leaves the link awaiting the reason: a wait of its push,
or a wait for the drain with nothing open or pending on a ring that has not drained. -/
theorem flush_awaits {l : Link Loopback} {y : WaitReason} (waits : l.flush.1 = .ok (some y)) :
    l.flush.2.Awaits y := by
  rcases answer : l.push.1 with e | a
  · -- a failed push is the flush's answer, which does not wait
    have same : l.flush = l.push := by
      unfold flush
      rcases pushed : l.push with ⟨r, l'⟩
      rw [pushed] at answer
      subst answer
      rfl
    rw [same, answer] at waits
    cases waits
  · cases a with
    | none =>
      rw [flush_of_pushed answer] at waits ⊢
      split_ifs at waits ⊢ with drained
      · cases waits
      · cases waits
        obtain ⟨closed, idle⟩ := push_settled answer
        exact ⟨closed, idle, by simpa using drained⟩
    | some y' =>
      rw [flush_of_push_waits answer] at waits ⊢
      exact push_awaits waits

/-- A wait of a flush, once every byte in flight is acknowledged, lowers the backlog: a wait of its
push does, and a wait for the drain leaves nothing open or pending on a ring that the
acknowledgement drains. -/
theorem Writing.flush_backlog (writing : l.Writing limit acc) {y : WaitReason}
    (waits : l.flush.1 = .ok (some y)) : l.flush.2.ackAll.backlog < l.backlog := by
  obtain ⟨s, carries, -⟩ := writing.accepted
  obtain ⟨-, -, a, answered⟩ := carries.push writing.writable.usable
  cases a with
  | some y' =>
    rw [flush_of_push_waits answered]
    exact writing.push_backlog answered
  | none =>
    rw [flush_of_pushed answered] at waits ⊢
    split_ifs at waits ⊢ with drained
    · cases waits
    obtain ⟨closed, idle⟩ := push_settled answered
    obtain ⟨s', carries'⟩ := writing.push.writable.carries
    obtain ⟨unacked, -, acks⟩ := ackAll_eq l.push.2
    have drains : l.push.2.ackAll.ring.isDrained = true := by
      rw [acks, carries'.unacked]
      exact writing.push.writable.inv.onAck_drains closed idle
    -- a push leaves a drained ring as it is, so the ring had not drained
    have busy : l.ring.isDrained = false := by
      refine Bool.eq_false_iff.mpr fun lDrained => drained ?_
      obtain ⟨lClosed, lIdle, -⟩ := (FrameRing.isDrained_iff _).mp lDrained
      obtain ⟨-, ring, -⟩ := push_parts writing.writable.usable
      rw [ring, FrameRing.finish_of_settled lClosed lIdle]
      exact lDrained
    obtain ⟨closed', idle', -⟩ := (FrameRing.isDrained_iff _).mp drains
    unfold backlog
    rw [closed', idle', drains, unacked, busy]
    simp only [Option.isSome_none, Bool.false_eq_true, if_false, if_true]
    split_ifs <;> omega

/-- A flush that answers that nothing is left leaves a drained ring and nothing unacknowledged. -/
theorem Writing.flush_done (writing : l.Writing limit acc) (done : l.flush.1 = .ok none) :
    l.flush.2.ring.isDrained = true ∧ l.flush.2.transport.unacked = 0 := by
  obtain ⟨s, carries, -⟩ := writing.accepted
  obtain ⟨-, -, a, answered⟩ := carries.push writing.writable.usable
  cases a with
  | some y =>
    rw [flush_of_push_waits answered, answered] at done
    cases done
  | none =>
    rw [flush_of_pushed answered] at done ⊢
    split_ifs at done ⊢ with drained
    · obtain ⟨s', carries'⟩ := writing.push.writable.carries
      refine ⟨by simpa using drained, ?_⟩
      rw [carries'.unacked]
      exact writing.push.writable.inv.inFlight_of_drained drained
    · cases done

/-- A region whose payload is among raw bytes is raw, and goes out as its payload. -/
theorem Region.wire_of_raw {x : Region} {bs : List UInt8} (filled : x.payload ≠ [])
    (among : x.tagged ⊆ bs.map (Framing.raw, ·)) : x.wire = x.payload := by
  obtain ⟨b, rest, payload⟩ := List.exists_cons_of_ne_nil filled
  have first : (x.framing, b) ∈ bs.map (Framing.raw, ·) :=
    among (by simp [Region.tagged, payload])
  obtain ⟨_, _, tagged⟩ := List.mem_map.mp first
  have raw : x.framing = .raw := (Prod.mk.inj tagged).1.symm
  simp [Region.wire, raw]

/-- A carried link whose run accepted the raw bytes `bs` has handed the loopback a prefix of them,
and all of them once nothing is open or pending. -/
theorem Carries.sentBytes_raw {s : RingRun} (carries : l.Carries limit s) {bs : List UInt8}
    (raw : s.accepted = bs.map (Framing.raw, ·)) :
    l.transport.sentBytes <+: bs ∧
      (l.ring.openRegion = none → l.ring.pending = none → l.transport.sentBytes = bs) := by
  obtain ⟨sent, held, lentEq, pendEq, bounds, accepted⟩ := carries.delivering.delivered.framed
  -- every sealed region holds accepted bytes, so it is raw and goes out as its payload
  have payloads : sent.map Region.wire = sent.map Region.payload := by
    refine List.map_congr_left fun x mem =>
      Region.wire_of_raw ?_ (fun y held' => ?_ : x.tagged ⊆ bs.map (Framing.raw, ·))
    · exact List.ne_nil_of_length_pos (bounds x (List.mem_append_left _ mem)).1
    · rw [← raw, accepted]
      exact List.mem_append_left _ (List.mem_flatMap.mpr ⟨x, List.mem_append_left _ mem, held'⟩)
  have sentEq : l.transport.sentBytes = sent.flatMap Region.payload := by
    have bytes := congrArg (List.map Prod.fst) carries.sends_eq
    rw [Loopback.sentBytes, List.flatMap_def, bytes, List.map_map]
    simp only [Function.comp_def]
    rw [lentEq, payloads, List.flatMap_def]
  have whole : bs = sent.flatMap Region.payload ++
      (held.flatMap Region.tagged ++ l.ring.openTagged).map Prod.snd := by
    have untagged := congrArg (List.map Prod.snd) raw
    rw [accepted, List.map_map] at untagged
    simp only [Function.comp_def, List.map_id', List.flatMap_append, List.map_append,
      List.append_assoc] at untagged
    rw [← untagged, carries.ring_eq]
    simp [List.map_flatMap, Region.tagged, Function.comp_def]
  refine ⟨sentEq ▸ whole ▸ List.prefix_append _ _, fun closed idle => ?_⟩
  have none : held = [] := by
    rw [carries.ring_eq, idle] at pendEq
    exact List.map_eq_nil_iff.mp pendEq.symm
  rw [sentEq, whole, none, FrameRing.openTagged_of_closed closed]
  simp

theorem Writing.sentBytes_raw {bs : List UInt8} (writing : l.Writing limit (bs.map (Framing.raw, ·))) :
    l.transport.sentBytes <+: bs ∧
      (l.ring.openRegion = none → l.ring.pending = none → l.transport.sentBytes = bs) := by
  obtain ⟨s, carries, accepted⟩ := writing.accepted
  exact carries.sentBytes_raw accepted

end Link

namespace FrameWriter

open Io

variable {σ : Type} {limit : Nat}

/-- A loop that repeats a link operation, when the operation keeps a link a writer goes on with and
each of its waits lowers the backlog once everything is acknowledged, ends with more rounds than
the backlog: with success, where the operation answered that nothing is left. -/
theorem until_rounds_end {op : Link Loopback → Except NetError (Option WaitReason) × Link Loopback}
    {acc : List (Framing × UInt8)} (Halt : Link Loopback → Prop)
    (answers : ∀ l : Link Loopback, l.Writing limit acc → (op l).2.Writing limit acc ∧
      (((op l).1 = .ok none ∧ Halt (op l).2) ∨
        ∃ y, (op l).1 = .ok (some y) ∧ (op l).2.ackAll.backlog < l.backlog)) :
    ∀ (rounds : Nat) (w : Conn Loopback σ), w.link.Writing limit acc → w.link.backlog < rounds →
      ((loopFor rounds (untilRound op) ()).run w).Ends (.ok ()) Conn.AckedAll
        (fun v => v.link.Writing limit acc) (fun _ => False)
        (fun a v => a = .ok () ∧ v.link.Writing limit acc ∧ Halt v.link) := by
  intro rounds
  induction rounds with
  | zero => intro w _ spare; omega
  | succ rounds ih =>
    intro w writing spare
    obtain ⟨kept, done | ⟨y, waits, lower⟩⟩ := answers w.link writing
    · rw [run_until_done done.1 rounds]
      exact .done ⟨rfl, kept, done.2⟩
    · obtain ⟨K, suspends, resumes⟩ := run_until_waits waits rounds
      rw [suspends]
      refine .suspend kept fun v served => ?_
      rw [resumes v]
      exact ih v (served ▸ kept.ackAll) (by rw [served]; dsimp only; omega)

/-- A push from a link a writer goes on with ends with success, leaving nothing open or pending,
on every branch on which each wait is resumed once everything is acknowledged. -/
theorem push_ends {acc : List (Framing × UInt8)} {w : Conn Loopback σ}
    (writing : w.link.Writing limit acc) :
    ((push : Io Loopback σ Unit).run w).Ends (.ok ()) Conn.AckedAll
      (fun v => v.link.Writing limit acc) (fun _ => False)
      (fun a v => a = .ok () ∧ v.link.Writing limit acc ∧
        v.link.ring.openRegion = none ∧ v.link.ring.pending = none) := by
  refine until_rounds_end (fun l => l.ring.openRegion = none ∧ l.ring.pending = none)
    (fun l writing' => ⟨writing'.push, ?_⟩) _ w writing
    (lt_of_le_of_lt w.link.backlog_le (by decide))
  obtain ⟨s, carries, -⟩ := writing'.accepted
  obtain ⟨-, -, a, answered⟩ := carries.push writing'.writable.usable
  cases a with
  | none => exact .inl ⟨answered, Link.push_settled answered⟩
  | some y => exact .inr ⟨y, answered, writing'.push_backlog answered⟩

/-- A flush from a link a writer goes on with ends with success, leaving a drained ring and
nothing unacknowledged, on every branch on which each wait is resumed once everything is
acknowledged. -/
theorem flush_ends {acc : List (Framing × UInt8)} {w : Conn Loopback σ}
    (writing : w.link.Writing limit acc) :
    ((flush : Io Loopback σ Unit).run w).Ends (.ok ()) Conn.AckedAll
      (fun v => v.link.Writing limit acc) (fun _ => False)
      (fun a v => a = .ok () ∧ v.link.Writing limit acc ∧
        v.link.ring.isDrained = true ∧ v.link.transport.unacked = 0) := by
  refine until_rounds_end (fun l => l.ring.isDrained = true ∧ l.transport.unacked = 0)
    (fun l writing' => ⟨writing'.flush, ?_⟩) _ w writing
    (lt_of_le_of_lt w.link.backlog_le (by decide))
  obtain ⟨s, carries, -⟩ := writing'.accepted
  obtain ⟨-, a, answered⟩ := carries.flush writing'.writable.usable
  cases a with
  | none => exact .inl ⟨answered, writing'.flush_done answered⟩
  | some y => exact .inr ⟨y, answered, writing'.flush_backlog answered⟩

end FrameWriter

end WebSocketCore
