import Mathlib
import WebSocketCore.Proofs.Session.Listening

/-! # Writing while the peer acts

A writer served by the peer is resumed on a link whose window the peer's acknowledgements may have
opened by any amount, or not at all. Round by round, a write appends a first part of what is left
or waits on a reason its link awaits, and a push finishes the open region or waits for send room.
The peer's steps keep a link a writer goes on with, with the bytes its run accepted, and keep the
open region, so the rounds a write may still take only fall: each round takes bytes, or spends one
of the resumptions the guarantee counts. Hence a write of `n` bytes keeps its guarantee over `m`
resumptions within `2 * n + 1 + m` rounds, and a push within `m + 1`
(`FrameWriter.write_guards`, `FrameWriter.push_guards`).

Writers read nothing: the count of consumed bytes stays, and the queue still goes on with the
input (`Conn.Unread`).
-/

namespace WebSocketCore

variable {σ : Type}

/-! ## Writers leave the consumed count alone -/

namespace Loopback

@[simp] theorem send_recved (t : Loopback) (s : Slice) (more : Bool) :
    (Transport.send t s more).1.recved = t.recved := by
  simp only [Transport.send]
  split <;> rfl

end Loopback

namespace Link

section Queue

variable {τ : Type}

/-- The inbound queue and the count of consumed bytes: what the client's side of a link is. -/
def queue (l : Link τ) : List UInt8 × Nat := (l.inbound, l.credit)

theorem Rewrites.queue {l l' : Link τ} (rewrites : l.Rewrites l') : l'.queue = l.queue := by
  obtain ⟨r, t, a, rfl⟩ := rewrites
  rfl

variable [Transport τ]

theorem queue_append (l : Link τ) (framing : Framing) (bytes : List UInt8) :
    (l.append framing bytes).2.queue = l.queue := by
  rcases usable_cases l with ⟨e, broken⟩ | usable
  · simp only [append, broken]
  · exact (append_rewrites usable framing bytes).queue

theorem queue_push (l : Link τ) : l.push.2.queue = l.queue := by
  rcases usable_cases l with ⟨e, broken⟩ | usable
  · simp only [push, broken]
  · exact (push_rewrites usable).queue

theorem flush_queue (l : Link τ) : l.flush.2.queue = l.queue := by
  rcases usable_cases l with ⟨e, broken⟩ | usable
  · simp only [flush, push, broken]
  · exact (flush_rewrites usable).queue

end Queue

theorem append_recved (l : Link Loopback) (framing : Framing) (bytes : List UInt8) :
    (l.append framing bytes).2.transport.recved = l.transport.recved := by
  rcases usable_cases l with ⟨e, broken⟩ | usable
  · simp only [append, broken]
  · rw [(append_parts usable framing bytes).2.2]
    exact FrameRing.append_keeps (P := fun t : Loopback => t.recved = l.transport.recved)
      (fun t s more held => (Loopback.send_recved t s more).trans held) _ _ _ rfl

theorem push_recved (l : Link Loopback) : l.push.2.transport.recved = l.transport.recved := by
  rcases usable_cases l with ⟨e, broken⟩ | usable
  · simp only [push, broken]
  · rw [(push_parts usable).2.2]
    exact FrameRing.finish_keeps (P := fun t : Loopback => t.recved = l.transport.recved)
      (fun t s more held => (Loopback.send_recved t s more).trans held) _ rfl

theorem flush_recved (l : Link Loopback) : l.flush.2.transport.recved = l.transport.recved := by
  rw [← push_recved l]
  unfold Link.flush
  rcases l.push with ⟨r, l'⟩
  rcases r with e | _ | y
  · rfl
  · dsimp only
    split <;> rfl
  · rfl

/-- The task's own operations report nothing: they keep what the transport was told. -/
theorem TaskStep.recved {l l' : Link Loopback} (step : TaskStep l l') :
    l'.transport.recved = l.transport.recved := by
  cases step with
  | consume => rfl
  | append framing bytes => exact append_recved _ framing bytes
  | push => exact push_recved _
  | flush => exact flush_recved _

/-- The task's own operations count what they consume: the bytes received, consumed or queued,
stay as many. -/
theorem TaskStep.tally {l l' : Link Loopback} (step : TaskStep l l') :
    l'.transport.recved + l'.credit + l'.inbound.length =
      l.transport.recved + l.credit + l.inbound.length := by
  have unreported := step.frame.unreported
  have recved := step.recved
  omega

/-- The task's own operations keep a queue that goes on with the input where the consumed bytes
end: consuming moves bytes from the queue to the count, and sending touches neither. -/
theorem TaskStep.within {input : List UInt8} {l l' : Link Loopback} (step : TaskStep l l')
    (within : l.inbound <+: input.drop (l.transport.recved + l.credit)) :
    l'.inbound <+: input.drop (l'.transport.recved + l'.credit) := by
  have recved := step.recved
  cases step with
  | consume j =>
    obtain ⟨rest, split⟩ := within
    refine ⟨rest, ?_⟩
    show l.inbound.drop j ++ rest =
      input.drop (l.transport.recved + (l.credit + (l.inbound.take j).length))
    rw [drop_queue split j, List.drop_drop, Nat.add_assoc]
  | append framing bytes =>
    have queue := queue_append l framing bytes
    simp only [Link.queue, Prod.mk.injEq] at queue
    rw [queue.1, queue.2, recved]
    exact within
  | push =>
    have queue := queue_push l
    simp only [Link.queue, Prod.mk.injEq] at queue
    rw [queue.1, queue.2, recved]
    exact within
  | flush =>
    have queue := flush_queue l
    simp only [Link.queue, Prod.mk.injEq] at queue
    rw [queue.1, queue.2, recved]
    exact within

theorem TaskSteps.within {input : List UInt8} {l l' : Link Loopback} (steps : TaskSteps l l')
    (within : l.inbound <+: input.drop (l.transport.recved + l.credit)) :
    l'.inbound <+: input.drop (l'.transport.recved + l'.credit) := by
  induction steps with
  | refl => exact within
  | tail _ step ih => exact step.within ih

theorem TaskSteps.tally {l l' : Link Loopback} (steps : TaskSteps l l') :
    l'.transport.recved + l'.credit + l'.inbound.length =
      l.transport.recved + l.credit + l.inbound.length := by
  induction steps with
  | refl => rfl
  | tail _ step ih => exact step.tally.trans ih

theorem Drifts.writing {limit : Nat} {acc : List (Framing × UInt8)} {l l' : Link Loopback}
    (drifts : Drifts l l') (writing : l.Writing limit acc) : l'.Writing limit acc :=
  drifts.keeps (fun _ _ step holds => step.writing holds) writing

theorem Drifts.wired {pre : List UInt8} {closes : Nat} {l l' : Link Loopback} (drifts : Drifts l l')
    (wired : l.Wired pre closes) : l'.Wired pre closes :=
  drifts.keeps (fun _ _ step holds => step.wired holds) wired

/-- The peer's steps leave the open region alone. -/
theorem Drifts.openRegion {l l' : Link Loopback} (drifts : Drifts l l') :
    l'.ring.openRegion = l.ring.openRegion := by
  induction drifts with
  | refl => rfl
  | tail _ step ih => exact step.ring.1.trans ih

end Link

namespace Conn

/-- Nothing more of the input was read since `w`: the consumed count is `w`'s, and the queue goes
on with the input from there. -/
def Unread (input : List UInt8) (w u : Conn Loopback σ) : Prop :=
  u.consumedCount = w.consumedCount ∧ u.Within input

theorem Unread.refl {input : List UInt8} {w : Conn Loopback σ} (within : w.Within input) :
    w.Unread input w :=
  ⟨rfl, within⟩

/-- A change of the ring, the transport and the armed count that keeps the count of reports keeps
a world unread. -/
theorem Unread.rewrites {input : List UInt8} {w u : Conn Loopback σ} {l : Link Loopback}
    (unread : w.Unread input u) (rewrites : u.link.Rewrites l)
    (recved : l.transport.recved = u.link.transport.recved) :
    w.Unread input { u with link := l } := by
  obtain ⟨r, t, a, rfl⟩ := rewrites
  obtain ⟨count, within⟩ := unread
  refine ⟨?_, ?_⟩
  · rw [← count]
    simp only [consumedCount] at recved ⊢
    rw [recved]
  · unfold Within consumedCount at within ⊢
    simp only at recved ⊢
    rw [recved]
    exact within

/-- A world the peer served from an unread one, on a transport the link holds, is unread. -/
theorem Unread.served {input : List UInt8} {w u v : Conn Loopback σ} {y : WaitReason}
    (unread : w.Unread input u) (held : u.link.attached = true) (serves : Serves input y u v) :
    w.Unread input v := by
  obtain ⟨drifts, -, within⟩ := serves
  obtain ⟨-, -, count, -⟩ := drifts.frame held
  exact ⟨(show v.consumedCount = u.consumedCount from count).trans unread.1, within⟩

end Conn

/-! ## A round at a time -/

namespace FrameWriter

open Io Progress

theorem run_writeRound_nil (framing : Framing) (w : Conn Loopback σ) :
    (writeRound framing []).run w = .done (.ok (.inr ())) w := rfl

theorem run_writeRound_took {framing : Framing} {rest : List UInt8} (offered : rest ≠ [])
    {w : Conn Loopback σ} {n : Nat} (took : (w.link.append framing rest).1 = .ok (.took n)) :
    (writeRound framing rest).run w =
      .done (.ok (.inl (rest.drop n))) { w with link := (w.link.append framing rest).2 } := by
  have full : rest.isEmpty = false := by simpa using offered
  simp [writeRound, full, run_bind_apply, run_withLink, run_ofExcept, took]
  rfl

theorem run_writeRound_blocked {framing : Framing} {rest : List UInt8} (offered : rest ≠ [])
    {w : Conn Loopback σ} {y : WaitReason} (blocked : (w.link.append framing rest).1 = .ok (.blocked y)) :
    ∃ k, (writeRound framing rest).run w = .suspend y { w with link := (w.link.append framing rest).2 } k ∧
      ∀ v, k (.ok ()) v = .done (.ok (.inl rest)) v := by
  have full : rest.isEmpty = false := by simpa using offered
  simp [writeRound, full, run_bind_apply, run_withLink, run_ofExcept, run_suspend, blocked]
  intro v
  rfl

theorem run_untilRound_done {op : Link Loopback → Except NetError (Option WaitReason) × Link Loopback}
    {w : Conn Loopback σ} (done : (op w.link).1 = .ok none) :
    (untilRound op ()).run w = .done (.ok (.inr ())) { w with link := (op w.link).2 } := by
  simp [untilRound, run_bind_apply, run_withLink, run_ofExcept, done]
  rfl

theorem run_untilRound_waits {op : Link Loopback → Except NetError (Option WaitReason) × Link Loopback}
    {w : Conn Loopback σ} {y : WaitReason} (waits : (op w.link).1 = .ok (some y)) :
    ∃ k, (untilRound op ()).run w = .suspend y { w with link := (op w.link).2 } k ∧
      ∀ v, k (.ok ()) v = .done (.ok (.inl ())) v := by
  simp [untilRound, run_bind_apply, run_withLink, run_ofExcept, run_suspend, waits]
  intro v
  rfl

/-! ## Writes and pushes served by the peer -/

section Served

variable {limit : Nat} {pre : List UInt8} {closes : Nat} {input : List UInt8}

/-- A wait of a write of `bytes` after `acc`: on a reason the link awaits, with a first part of
the bytes accepted after `acc`, the loopback still beginning with `pre`. -/
def WriteWait (limit : Nat) (framing : Framing) (acc : List (Framing × UInt8)) (bytes pre : List UInt8)
    (closes : Nat) (y : WaitReason) (u : Conn Loopback σ) : Prop :=
  u.link.Awaits y ∧ u.link.Wired pre closes ∧
    ∃ part, part <+: bytes ∧ u.link.Writing limit (acc ++ part.map (framing, ·))

/-- Where a write loop on `rest` stands: the bytes before `rest` accepted after `acc`, the loopback
still beginning with `pre`, nothing more read since `w`. -/
def WriteState (input : List UInt8) (w : Conn Loopback σ) (limit : Nat) (framing : Framing)
    (acc : List (Framing × UInt8)) (bytes pre : List UInt8) (closes : Nat) (rest : List UInt8)
    (_ : Nat) (u : Conn Loopback σ) : Prop :=
  (∃ part, part ++ rest = bytes ∧ u.link.Writing limit (acc ++ part.map (framing, ·))) ∧
    u.link.Wired pre closes ∧ w.Unread input u

/-- A write round from where the loop stands ends the loop with all the bytes accepted, goes on
with fewer rounds to take, or waits on a reason the link awaits and goes on, once served, with
one resumption less. -/
theorem writeRound_guards (input : List UInt8) (w : Conn Loopback σ) (framing : Framing)
    (payload : 1 ≤ limit) (acc : List (Framing × UInt8)) (bytes : List UInt8) (rest : List UInt8)
    (n : Nat) (u : Conn Loopback σ) (holds : WriteState input w limit framing acc bytes pre closes rest n u) :
    ((writeRound framing rest).run u).Guards (.ok ()) (Conn.Serves input)
      (WriteWait limit framing acc bytes pre closes) (fun res m u' =>
        match res with
        | .ok (.inl rest') => WriteState input w limit framing acc bytes pre closes rest' m u' ∧
            roundsFor u'.link rest' + m < roundsFor u.link rest + n
        | .ok (.inr ()) => u'.link.Writing limit (acc ++ bytes.map (framing, ·)) ∧
            u'.link.Wired pre closes ∧ w.Unread input u'
        | .error _ => False) n := by
  obtain ⟨⟨part, split, writing⟩, wired, unread⟩ := holds
  rcases eq_or_ne rest [] with rfl | offered
  · rw [run_writeRound_nil]
    rw [List.append_nil] at split
    exact .done ⟨split ▸ writing, wired, unread⟩
  obtain ⟨s, carries, accepted⟩ := writing.accepted
  obtain ⟨-, -, a, answered⟩ := carries.append writing.writable.usable framing rest
  have appended := writing.append framing rest
  have wired' := wired.taskSteps (.single (.append _ framing rest))
  have unread' := unread.rewrites (Link.append_rewrites writing.writable.usable framing rest)
    (Link.append_recved _ framing rest)
  have limit' : 1 ≤ u.link.ring.maxPayload := by
    rw [← carries.ring_eq, carries.delivering.delivered.maxPayload_eq]
    exact payload
  rw [answered] at appended
  cases a with
  | took k =>
    -- the round took `k` bytes; the loop goes on with the rest, with fewer rounds to take
    rw [run_writeRound_took offered answered]
    refine .done ⟨⟨⟨part ++ rest.take k, ?_, ?_⟩, wired', unread'⟩, ?_⟩
    · rw [List.append_assoc, List.take_append_drop, split]
    · simpa [Append.taken, List.map_append, List.append_assoc] using appended
    · have fewer := roundsFor_took writing.writable.usable offered limit' answered
      dsimp only
      omega
  | blocked y =>
    -- the round waits on a reason the link awaits; served, it asks for the same round again
    obtain ⟨K, waits, resumes⟩ := run_writeRound_blocked offered answered
    have kept : (u.link.append framing rest).2.Writing limit (acc ++ part.map (framing, ·)) := by
      simpa [Append.taken] using appended
    have awaiting : WriteWait limit framing acc bytes pre closes y
        { u with link := (u.link.append framing rest).2 } :=
      ⟨Link.append_awaits carries.sound answered, wired', part, ⟨rest, split⟩, kept⟩
    rw [waits]
    cases n with
    | zero => exact .last awaiting
    | succ n =>
      refine .wait awaiting fun v serves => ?_
      rw [resumes v]
      have drifts := serves.1
      have spare := roundsFor_blocked writing.writable.usable answered
      have same : roundsFor v.link rest = roundsFor (u.link.append framing rest).2 rest := by
        unfold roundsFor
        rw [drifts.openRegion]
      refine .done ⟨⟨⟨part, split, drifts.writing kept⟩, drifts.wired wired',
        unread'.served wired'.attached serves⟩, ?_⟩
      omega

/-- A write of `bytes` from a link a writer goes on with whose run accepted `acc`, served by the
peer over `n` resumptions with `2 * |bytes| + 1 + n` rounds within the loop budget: it waits only
on reasons its link awaits, with a first part of the bytes accepted, and ends with success with
all of them accepted, the loopback still beginning with `pre` and nothing more read. -/
theorem write_guards (input : List UInt8) (framing : Framing) (payload : 1 ≤ limit)
    {acc : List (Framing × UInt8)} (bytes : List UInt8) {w : Conn Loopback σ}
    (writing : w.link.Writing limit acc) (wired : w.link.Wired pre closes) (within : w.Within input)
    {n : Nat} (fits : 2 * bytes.length + 1 + n < Routine.loopBudget) :
    ((write framing bytes).run w).Guards (.ok ()) (Conn.Serves input)
      (WriteWait limit framing acc bytes pre closes) (fun res _ u => res = .ok () ∧
        u.link.Writing limit (acc ++ bytes.map (framing, ·)) ∧ u.link.Wired pre closes ∧
        w.Unread input u) n := by
  rw [write_eq]
  -- the rounds left to take, and the resumptions left, fall at every round
  refine guards_loopFor (WriteState input w limit framing acc bytes pre closes)
    (fun rest n u => roundsFor u.link rest + n)
    (fun rest n u holds => (writeRound_guards input w framing payload acc bytes rest n u holds).mono
      (fun _ _ waits => waits) fun res m u' post => ?_) _ bytes n w
    ⟨⟨[], rfl, by simpa using writing⟩, wired, .refl within⟩ ?_
  · rcases res with e | rest' | ⟨⟩
    · exact post.elim
    · exact post
    · exact ⟨rfl, post⟩
  · have open' : roundsFor w.link bytes ≤ 2 * bytes.length + 1 := by
      unfold roundsFor
      split_ifs <;> omega
    omega

/-- A wait of a push or a flush: on a reason the link awaits, on a link whose run accepted `acc`. -/
def PushWait (limit : Nat) (acc : List (Framing × UInt8)) (pre : List UInt8) (closes : Nat)
    (y : WaitReason) (u : Conn Loopback σ) : Prop :=
  u.link.Awaits y ∧ u.link.Wired pre closes ∧ u.link.Writing limit acc

/-- A loop of the task's link operation `op` until it answers that nothing is left, from a link a
writer goes on with whose run accepted `acc`, served by the peer over `n` resumptions with `n + 1`
rounds within the loop budget, when every round finishes with the link `Done` or waits on a
reason the link awaits: the loop waits only there, and ends with success on a `Done` link, the
loopback still beginning with `pre` and nothing more read. -/
theorem untilDone_guards (input : List UInt8)
    (op : Link Loopback → Except NetError (Option WaitReason) × Link Loopback) (Done : Link Loopback → Prop)
    (step : ∀ l, Link.TaskStep l (op l).2) (rewrites : ∀ l : Link Loopback, l.usable = .ok () → l.Rewrites (op l).2)
    {acc : List (Framing × UInt8)} (writes : ∀ l : Link Loopback, l.Writing limit acc → (op l).2.Writing limit acc)
    (answers : ∀ l : Link Loopback, l.Writing limit acc →
      ((op l).1 = .ok none ∧ Done (op l).2) ∨ ∃ y, (op l).1 = .ok (some y) ∧ (op l).2.Awaits y)
    {w : Conn Loopback σ} (writing : w.link.Writing limit acc) (wired : w.link.Wired pre closes)
    (within : w.Within input) {n : Nat} (fits : n + 1 < Routine.loopBudget) :
    ((untilDone op : Io Loopback σ Unit).run w).Guards (.ok ()) (Conn.Serves input)
      (PushWait limit acc pre closes) (fun res _ u => res = .ok () ∧ u.link.Writing limit acc ∧
        Done u.link ∧ u.link.Wired pre closes ∧ w.Unread input u) n := by
  rw [untilDone_eq]
  -- every round ends the loop or spends a resumption
  refine guards_loopFor (fun _ _ u => u.link.Writing limit acc ∧ u.link.Wired pre closes ∧ w.Unread input u)
    (fun _ n _ => n) (fun _ n u holds => ?_) _ () n w ⟨writing, wired, .refl within⟩ (by omega)
  obtain ⟨writing', wired', unread⟩ := holds
  have written := writes _ writing'
  have wired'' := wired'.taskSteps (.single (step _))
  have unread' := unread.rewrites (rewrites _ writing'.writable.usable) (step _).recved
  rcases answers _ writing' with ⟨done, finished⟩ | ⟨y, waits, awaits⟩
  · rw [run_untilRound_done done]
    exact .done ⟨rfl, written, finished, wired'', unread'⟩
  · obtain ⟨K, waiting, resumes⟩ := run_untilRound_waits waits
    rw [waiting]
    cases n with
    | zero => exact .last ⟨awaits, wired'', written⟩
    | succ n =>
      refine .wait ⟨awaits, wired'', written⟩ fun v serves => ?_
      rw [resumes v]
      exact .done ⟨⟨serves.1.writing written, serves.1.wired wired'', unread'.served wired''.attached serves⟩,
        by omega⟩

/-- A push from a link a writer goes on with whose run accepted `acc`, served by the peer over `n`
resumptions with `n + 1` rounds within the loop budget: it waits only for send room the link
awaits, and ends with success with nothing left open or pending, the loopback still beginning
with `pre` and nothing more read. -/
theorem push_guards (input : List UInt8) {acc : List (Framing × UInt8)} {w : Conn Loopback σ}
    (writing : w.link.Writing limit acc) (wired : w.link.Wired pre closes) (within : w.Within input)
    {n : Nat} (fits : n + 1 < Routine.loopBudget) :
    ((push : Io Loopback σ Unit).run w).Guards (.ok ()) (Conn.Serves input)
      (PushWait limit acc pre closes) (fun res _ u => res = .ok () ∧ u.link.Writing limit acc ∧
        u.link.ring.openRegion = none ∧ u.link.ring.pending = none ∧ u.link.Wired pre closes ∧
        w.Unread input u) n := by
  unfold push
  refine (untilDone_guards input Link.push (fun l => l.ring.openRegion = none ∧ l.ring.pending = none)
    .push (fun _ usable => Link.push_rewrites usable) (fun _ writing' => writing'.push)
    (fun l writing' => ?_) writing wired within fits).mono (fun _ _ waits => waits)
    fun _ _ _ post => ⟨post.1, post.2.1, post.2.2.1.1, post.2.2.1.2, post.2.2.2⟩
  obtain ⟨s, carries, -⟩ := writing'.accepted
  obtain ⟨-, -, a, answered⟩ := carries.push writing'.writable.usable
  cases a with
  | none => exact .inl ⟨answered, Link.push_settled answered⟩
  | some y => exact .inr ⟨y, answered, Link.push_awaits answered⟩

/-- A flush from a link a writer goes on with whose run accepted `acc`, served by the peer over
`n` resumptions with `n + 1` rounds within the loop budget: it waits only for send room or the
drain, which the link awaits, and ends with success with the ring drained and nothing
unacknowledged, the loopback still beginning with `pre` and nothing more read. -/
theorem flush_guards (input : List UInt8) {acc : List (Framing × UInt8)} {w : Conn Loopback σ}
    (writing : w.link.Writing limit acc) (wired : w.link.Wired pre closes) (within : w.Within input)
    {n : Nat} (fits : n + 1 < Routine.loopBudget) :
    ((flush : Io Loopback σ Unit).run w).Guards (.ok ()) (Conn.Serves input)
      (PushWait limit acc pre closes) (fun res _ u => res = .ok () ∧ u.link.Writing limit acc ∧
        (u.link.ring.isDrained = true ∧ u.link.transport.unacked = 0) ∧ u.link.Wired pre closes ∧
        w.Unread input u) n := by
  unfold flush
  refine untilDone_guards input Link.flush (fun l => l.ring.isDrained = true ∧ l.transport.unacked = 0) .flush (fun _ usable => Link.flush_rewrites usable)
    (fun _ writing' => writing'.flush) (fun l writing' => ?_) writing wired within fits
  obtain ⟨s, carries, -⟩ := writing'.accepted
  obtain ⟨-, a, answered⟩ := carries.flush writing'.writable.usable
  cases a with
  | none => exact .inl ⟨answered, writing'.flush_done answered⟩
  | some y => exact .inr ⟨y, answered, Link.flush_awaits answered⟩

end Served

end FrameWriter

end WebSocketCore
