import Mathlib
import WebSocketCore.Proofs.Session.NeverStuck
import WebSocketCore.Proofs.Session.TaskMoves

/-! # Driving a task that moves by its own operations

A drive of a task whose stretches are its own link operations (`Progress.Moves fin`) ends in one
of three ways (`IoLock.Drove`): the task is parked on a link its operations reached, with no error
recorded and a rest that moves so again; it completed, with `fin` applied last; or it stalled,
and the lock answers `foreignPending`. A drive also keeps what the task does on errors: a rest
it parks that ended at once on errors still does.

A connection is steady when its lock is idle and its task has finished or is parked so. A wake
walk leaves a steady connection steady (`Connection.Woke`): a finished task is left alone, and a
live one is still live with its operations applied, or has finished by completing or by a stall
the lock answered with `foreignPending`. The walk's answers are those of its notifications, in
order (`Connection.wakeAnswers`).
-/

namespace WebSocketCore

namespace IoLock

open LockWorld

variable {τ σ : Type} [Transport τ]

/-- How a drive of a task that moves by its own link operations from `w₀` ends: parked on a link
its operations reached, with no error recorded, the lock idle and a rest that moves so again; or
completed, with `fin` applied to a link its operations reached; or stalled, with the lock
answering `foreignPending`. A task that completes or stalls is retired. -/
inductive Drove (fin : Link τ → Link τ) (w₀ : Conn τ σ) :
    Except TaskError Unit × IoLock (Conn τ σ) × Conn τ σ → Prop
  | parked {k : Wake → Conn τ σ → Progress (Conn τ σ) WaitReason Wake Unit} {w : Conn τ σ} :
      Link.TaskSteps w₀.link w.link → w.lock.finished = w₀.lock.finished → w.lock.error = none →
      w.lock.phase = .idle → (∀ r w', (k r w').Moves fin w') → Drove fin w₀ (.ok (), ⟨some k⟩, w)
  | completed {l : Link τ} {w : Conn τ σ} : Link.TaskSteps w₀.link l → w.link = fin l →
      w.lock.finished = true → w.lock.phase = .idle → Drove fin w₀ (.ok (), {}, w)
  | stalled {w : Conn τ σ} : Link.TaskSteps w₀.link w.link → w.lock.finished = true →
      w.lock.phase = .idle → Drove fin w₀ (.error .foreignPending, {}, w)

/-- Operations of the task's own before a drive are operations of the same drive. -/
theorem Drove.of_steps {fin : Link τ → Link τ} {w₀ w₁ : Conn τ σ}
    {out : Except TaskError Unit × IoLock (Conn τ σ) × Conn τ σ} (drove : Drove fin w₁ out)
    (steps : Link.TaskSteps w₀.link w₁.link) (finished : w₁.lock.finished = w₀.lock.finished) :
    Drove fin w₀ out := by
  cases drove with
  | parked more same quiet idle rest => exact .parked (steps.trans more) (same.trans finished) quiet idle rest
  | completed more last retired idle => exact .completed (steps.trans more) last retired idle
  | stalled more retired idle => exact .stalled (steps.trans more) retired idle

theorem drive_drove {fin : Link τ → Link τ} {w₀ : Conn τ σ}
    {p : Progress (Conn τ σ) WaitReason Wake Unit} (moves : p.Moves fin w₀) :
    Drove fin w₀ (drive p) := by
  induction moves with
  | done steps last same => exact .completed steps last rfl rfl
  | stall steps same => exact .stalled steps rfl rfl
  | @suspend w₀ w y k steps same real rest ih =>
    have finished : w.lock.finished = w₀.lock.finished := congrArg LockState.finished same
    rcases drive_suspend y w k with ⟨ended, step⟩ | ⟨-, -, step⟩ | ⟨-, calm, step⟩ <;> rw [step]
    · exact absurd ended real
    · -- resumed at once, in the world it suspended in with the lock handed over
      exact (ih _ _).of_steps steps finished
    · simp only [Conn.lockState_eq, Bool.or_eq_false_iff, Option.isSome_eq_false_iff,
        Option.isNone_iff_eq_none] at calm
      exact .parked steps finished calm.1 rfl rest

/-- The lock, driving a task, keeps what it does on errors: every resumption the lock makes is
with success or with an error it ends at once on. -/
theorem Drives.endsOnError {ω : Type} [LockWorld ω] {P : ω → Unit → ω → Prop}
    {p q : Progress ω WaitReason Wake Unit} (drives : Drives p q) (ends : p.EndsOnError P) :
    q.EndsOnError P := by
  induction drives with
  | refl => exact ends
  | @resume y w k q _ _ _ ih =>
    cases ends with
    | suspend errs rest =>
      apply ih
      rcases (lockState w).wake with e | u
      · obtain ⟨a, w'', resumed, -⟩ := errs e (setLockState w (lockState w).handOver)
        rw [resumed]
        exact .done
      · exact rest _

/-- A task the lock parks ends at once on errors, if the task it drove did. -/
theorem drive_parked_endsOnError {ω : Type} [LockWorld ω] {P : ω → Unit → ω → Prop}
    {p : Progress ω WaitReason Wake Unit} (ends : p.EndsOnError P) {k}
    (held : (drive p).2.1.parked = some k) :
    Progress.EndsAtError P k ∧ ∀ w', (k (.ok ()) w').EndsOnError P := by
  obtain ⟨y, w, drives, -⟩ := drive_parksFrom p k held
  cases drives.endsOnError ends with
  | suspend errs rest => exact ⟨errs, rest⟩

end IoLock

namespace Connection

variable {τ σ : Type} [Transport τ]

/-- The lock is idle, and its task has finished or is parked with no error recorded for it and a
rest that moves by its own operations, `fin` last. -/
structure Steady (fin : Link τ → Link τ) (c : Connection τ σ) : Prop where
  idle : c.phase = .idle
  parked : c.isFinished = false → ∃ k, c.lock.parked = some k ∧ c.world.lock.error = none ∧
    ∀ r w', (k r w').Moves fin w'

/-- What a drive leaves is steady. -/
theorem Steady.of_drove {fin : Link τ → Link τ} {w₀ : Conn τ σ}
    {out : Except TaskError Unit × IoLock (Conn τ σ) × Conn τ σ} (drove : IoLock.Drove fin w₀ out) :
    (⟨out.2.1, out.2.2⟩ : Connection τ σ).Steady fin := by
  cases drove with
  | parked _ _ quiet idle rest => exact ⟨idle, fun _ => ⟨_, rfl, quiet, rest⟩⟩
  | completed _ _ retired idle =>
    exact ⟨idle, fun live => absurd (live.symm.trans retired) Bool.false_ne_true⟩
  | stalled _ retired idle =>
    exact ⟨idle, fun live => absurd (live.symm.trans retired) Bool.false_ne_true⟩

/-- The lock's answers to the notifications of a wake walk, in order. -/
def wakeAnswers (c : Connection τ σ) (error : Option NetError) :
    List WaitReason → List (Except TaskError Bool)
  | [] => []
  | r :: rs =>
    if error.isNone && !c.world.link.isReady r then c.wakeAnswers none rs
    else
      let (answer, lock, world) := c.lock.notify r error c.world
      answer :: (⟨lock, world⟩ : Connection τ σ).wakeAnswers none rs

theorem wakeAnswers_cons_of_notified {c : Connection τ σ} {e : Option NetError} {r : WaitReason}
    (rs : List WaitReason) (notified : (e.isNone && !c.world.link.isReady r) = false) :
    c.wakeAnswers e (r :: rs) = (c.lock.notify r e c.world).1 ::
      (⟨(c.lock.notify r e c.world).2.1, (c.lock.notify r e c.world).2.2⟩ : Connection τ σ).wakeAnswers
        none rs := by
  rw [wakeAnswers, if_neg (by rw [notified]; exact Bool.false_ne_true)]

/-- A walk leaves a connection whose task has finished as it was. -/
theorem wakeFrom_of_finished {c : Connection τ σ} (retired : c.isFinished = true) :
    ∀ (e : Option NetError) (rs : List WaitReason), c.wakeFrom e rs = c := by
  intro e rs
  induction rs generalizing e with
  | nil => rfl
  | cons r rs ih =>
    rw [wakeFrom]
    split
    · exact ih none
    · rw [notify_of_finished retired]
      exact ih none

/-- How a wake walk with answers `answers` leaves a steady connection `c`: a task that had
finished is left alone; a live one is still live, its own operations applied to the link, or
has finished, by completing with `fin` last, or by a stall the lock answered with
`foreignPending`. -/
inductive Woke (fin : Link τ → Link τ) (c : Connection τ σ) (answers : List (Except TaskError Bool)) :
    Connection τ σ → Prop
  | ended : c.isFinished = true → Woke fin c answers c
  | live {c' : Connection τ σ} : c.isFinished = false → c'.isFinished = false →
      Link.TaskSteps c.world.link c'.world.link → Woke fin c answers c'
  | completed {c' : Connection τ σ} {l : Link τ} : c.isFinished = false → c'.isFinished = true →
      Link.TaskSteps c.world.link l → c'.world.link = fin l → Woke fin c answers c'
  | stalled {c' : Connection τ σ} : c.isFinished = false → c'.isFinished = true →
      Link.TaskSteps c.world.link c'.world.link → .error .foreignPending ∈ answers →
      Woke fin c answers c'

/-- One walk after another: once the task has finished, the second leaves it alone. -/
theorem Woke.trans {fin : Link τ → Link τ} {c c₁ c₂ : Connection τ σ}
    {answers₁ answers₂ : List (Except TaskError Bool)} (first : Woke fin c answers₁ c₁)
    (second : Woke fin c₁ answers₂ c₂) : Woke fin c (answers₁ ++ answers₂) c₂ := by
  cases first with
  | ended retired =>
    cases second with
    | ended _ => exact .ended retired
    | live live => exact absurd (live.symm.trans retired) Bool.false_ne_true
    | completed live => exact absurd (live.symm.trans retired) Bool.false_ne_true
    | stalled live => exact absurd (live.symm.trans retired) Bool.false_ne_true
  | live live still steps =>
    cases second with
    | ended _ => exact .live live still steps
    | live _ still' more => exact .live live still' (steps.trans more)
    | completed _ retired more last => exact .completed live retired (steps.trans more) last
    | stalled _ retired more stuck =>
      exact .stalled live retired (steps.trans more) (List.mem_append_right _ stuck)
  | completed live retired steps last =>
    cases second with
    | ended _ => exact .completed live retired steps last
    | live live' => exact absurd (live'.symm.trans retired) Bool.false_ne_true
    | completed live' => exact absurd (live'.symm.trans retired) Bool.false_ne_true
    | stalled live' => exact absurd (live'.symm.trans retired) Bool.false_ne_true
  | stalled live retired steps stuck =>
    cases second with
    | ended _ => exact .stalled live retired steps (List.mem_append_left _ stuck)
    | live live' => exact absurd (live'.symm.trans retired) Bool.false_ne_true
    | completed live' => exact absurd (live'.symm.trans retired) Bool.false_ne_true
    | stalled live' => exact absurd (live'.symm.trans retired) Bool.false_ne_true

/-- What a drive of a resumption leaves, seen from the connection it resumed. -/
theorem Woke.of_drove {fin : Link τ → Link τ} {c : Connection τ σ} {w₀ : Conn τ σ}
    {out : Except TaskError Unit × IoLock (Conn τ σ) × Conn τ σ} (drove : IoLock.Drove fin w₀ out)
    (live : c.isFinished = false) (link : w₀.link = c.world.link)
    (still : w₀.lock.finished = false) :
    Woke fin c [out.1.map fun _ => true] ⟨out.2.1, out.2.2⟩ := by
  cases drove with
  | parked steps same _ _ _ => exact .live live (same.trans still) (link ▸ steps)
  | completed steps last retired _ => exact .completed live retired (link ▸ steps) last
  | stalled steps retired _ => exact .stalled live retired (link ▸ steps) (List.mem_singleton.mpr rfl)

/-- A notification leaves a steady connection steady, and woke as its answer says. -/
theorem Steady.notify {fin : Link τ → Link τ} {c : Connection τ σ} (steady : c.Steady fin)
    (r : WaitReason) (e : Option NetError) :
    let out := c.lock.notify r e c.world
    (⟨out.2.1, out.2.2⟩ : Connection τ σ).Steady fin ∧
      Woke fin c [out.1] ⟨out.2.1, out.2.2⟩ := by
  intro out
  cases live : c.isFinished
  · obtain ⟨k, held, quiet, rest⟩ := steady.parked live
    have notified := IoLock.notify_of_held held steady.idle live r e
    simp only [Conn.lockState_eq, quiet] at notified
    split_ifs at notified with resumes
    · -- the task is resumed in the world it waits in, with the lock handed over
      have drove := IoLock.drive_drove (rest (Option.elim (none <|> e) (.ok ()) .error)
        (LockWorld.setLockState c.world c.world.lock.handOver))
      simp only [out, notified, Prod.map_fst, Prod.map_snd, id_eq]
      exact ⟨.of_drove drove, .of_drove drove live rfl live⟩
    · simp only [out, notified]
      refine ⟨⟨steady.idle, fun _ => ⟨k, held, ?_, rest⟩⟩, .live live live .refl⟩
      simp only [not_or] at resumes
      have silent : e = none := by simpa [quiet] using resumes.2
      exact silent
  · simp only [out, notify_of_finished live]
    exact ⟨steady, .ended live⟩

/-- A wake walk leaves a steady connection steady, woke as its answers say. -/
theorem Steady.wakeFrom {fin : Link τ → Link τ} (rs : List WaitReason) :
    ∀ {c : Connection τ σ} (e : Option NetError), c.Steady fin →
      (c.wakeFrom e rs).Steady fin ∧ Woke fin c (c.wakeAnswers e rs) (c.wakeFrom e rs) := by
  induction rs with
  | nil =>
    intro c e steady
    refine ⟨steady, ?_⟩
    cases live : c.isFinished
    · exact .live live live .refl
    · exact .ended live
  | cons r rs ih =>
    intro c e steady
    cases skipped : (e.isNone && !c.world.link.isReady r)
    · rw [wakeFrom_cons_of_notified rs skipped, wakeAnswers_cons_of_notified rs skipped]
      obtain ⟨steady', woke⟩ := steady.notify r e
      obtain ⟨steady'', woke'⟩ := ih none steady'
      exact ⟨steady'', woke.trans woke'⟩
    · rw [Connection.wakeFrom, wakeAnswers, if_pos skipped, if_pos skipped]
      exact ih none steady

/-- A property of the parked rest that every drive of a resumption keeps is kept by a walk over
a steady connection. -/
theorem Steady.wakeFrom_keeps {fin : Link τ → Link τ}
    {Good : (Wake → Conn τ σ → Progress (Conn τ σ) WaitReason Wake Unit) → Prop}
    (stable : ∀ k v w, Good k → ∀ k', (IoLock.drive (k v w)).2.1.parked = some k' → Good k')
    (rs : List WaitReason) : ∀ {c : Connection τ σ} (e : Option NetError), c.Steady fin →
      (∀ k, c.lock.parked = some k → Good k) →
      ∀ k, (c.wakeFrom e rs).lock.parked = some k → Good k := by
  induction rs with
  | nil => exact fun _ _ good => good
  | cons r rs ih =>
    intro c e steady good
    cases skipped : (e.isNone && !c.world.link.isReady r)
    · rw [wakeFrom_cons_of_notified rs skipped]
      refine ih none (steady.notify r e).1 fun k' held' => ?_
      cases live : c.isFinished
      · -- the lock keeps the task, or drives a resumption of it and keeps what that leaves
        obtain ⟨k, held, quiet, -⟩ := steady.parked live
        have notified := IoLock.notify_of_held held steady.idle live r e
        simp only [Conn.lockState_eq, quiet] at notified
        rw [notified] at held'
        split_ifs at held'
        · exact stable k _ _ (good k held) k' held'
        · exact good k' held'
      · rw [notify_of_finished live] at held'
        exact good k' held'
    · rw [Connection.wakeFrom, if_pos skipped]
      exact ih none steady good

/-- A change of the link alone keeps a connection steady. -/
theorem Steady.mapLink {fin : Link τ → Link τ} {c : Connection τ σ} (steady : c.Steady fin)
    (f : Link τ → Link τ) : (c.mapLink f).Steady fin :=
  ⟨steady.idle, steady.parked⟩

end Connection

namespace Callback

variable {τ : Type}

/-- The change a callback makes to the link before it wakes the task. -/
def change : Callback → Link τ → Link τ
  | .recv bytes => fun l => (l.onRecv bytes).1
  | .sent len => fun l => l.onSent len
  | .poll => fun l => l.onPoll.1
  | .closed => Link.onClosed
  | .error e => fun l => l.onError e

/-- The error a callback wakes the task with. -/
def brings : Callback → Link τ → Option NetError
  | .poll => fun l => l.onPoll.2
  | .closed => fun _ => some .connectionClosed
  | .error e => fun _ => some e
  | _ => fun _ => none

@[simp] theorem change_transport (callback : Callback) (l : Link τ) :
    (callback.change l).transport = l.transport := by
  cases callback <;> simp [change, Link.onRecv, Link.onSent, Link.onClosed, Link.onError, Link.noteError]

@[simp] theorem change_credit (callback : Callback) (l : Link τ) :
    (callback.change l).credit = l.credit := by
  cases callback <;> simp [change, Link.onRecv, Link.onSent, Link.onClosed, Link.onError, Link.noteError]

@[simp] theorem change_idleLimit (callback : Callback) (l : Link τ) :
    (callback.change l).idleLimit = l.idleLimit := by
  cases callback <;> simp [change, Link.onRecv, Link.onSent, Link.onClosed, Link.onError, Link.noteError]

/-- Only a transport error lets the transport go. -/
theorem change_attached (callback : Callback) (l : Link τ) (noError : ∀ e, callback ≠ .error e) :
    (callback.change l).attached = l.attached := by
  cases callback with
  | error e => exact absurd rfl (noError e)
  | _ => simp [change, Link.onRecv, Link.onSent, Link.onClosed, Link.noteError]

theorem change_detached (callback : Callback) {l : Link τ} (free : l.attached = false) :
    (callback.change l).attached = false := by
  cases callback with
  | error e => rfl
  | _ => rw [change_attached _ _ (fun _ => by simp)]; exact free

end Callback

namespace Connection

variable {τ σ : Type} [Transport τ]

/-- A callback changes the link, then wakes the task with the error it brings. -/
theorem handle_eq (c : Connection τ σ) (callback : Callback) :
    c.handle callback = (c.mapLink callback.change).wake (callback.brings c.world.link) := by
  cases callback <;> rfl

theorem start_fst (c : Connection τ σ) (body : IoRoutine τ σ Unit) :
    (c.start body).1 = (c.lock.run body c.world).1 := rfl

/-- A task that moves by its own operations, started on a fresh connection, is driven from its
first step: the start is a walk from the fresh connection, answered as the start answers, then
the report of what the task consumed. -/
theorem start_woke {fin : Link τ → Link τ} {link : Link τ} (app : σ) {task : IoRoutine τ σ Unit}
    (moves : ∀ w, (task w).Moves fin w) :
    ∃ c₂ : Connection τ σ,
      (({ world := { link, app } } : Connection τ σ).start task).2 = c₂.mapLink Link.settle ∧
      c₂.Steady fin ∧
      Woke fin { world := { link, app } }
        [(({ world := { link, app } } : Connection τ σ).start task).1.map fun _ => true] c₂ ∧
      c₂.lock = (IoLock.drive (task (LockWorld.setLockState ({ link, app } : Conn τ σ)
        { phase := .running }))).2.1 := by
  -- a fresh lock is free, so the start drives the task from its first step
  have free : ({} : IoLock (Conn τ σ)).isLive ({ link, app } : Conn τ σ) = false := rfl
  have drove := IoLock.drive_drove
    (moves (LockWorld.setLockState ({ link, app } : Conn τ σ) { phase := .running }))
  refine ⟨_, by rw [start_eq, IoLock.run_of_free _ free], Steady.of_drove drove, ?_, rfl⟩
  rw [start_fst, IoLock.run_of_free _ free]
  exact Woke.of_drove (c := ({ world := { link, app } } : Connection τ σ)) drove rfl rfl rfl

end Connection

end WebSocketCore
