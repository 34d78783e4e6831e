import Mathlib
import WebSocketCore.Proofs.Task.LockDiscipline

/-! # Errors reach the task once

A notification may bring an error. While the lock holds a live task it keeps the first error that
arrives since the task was last started or resumed, and hands it over as the wake of the task's
next resumption: at once when the task is parked, and at the task's next suspension when the error
arrives while the task runs. Handing it over clears it, so no error reaches the task twice, and an
error is dropped only when the task ends before it suspends again. A lock whose task has ended
waits on nothing, says so, and ignores every notification together with its error, until a start
re-arms it with no error pending.

`LockState.Supplies` names the errors that the notifications of one stretch of running bring. Main
statement (`IoLock.Reachable.errors_reach_task_once`): whatever starts of polite tasks,
notifications and changes of readiness came before, the lock keeps these promises.
-/

namespace WebSocketCore

open LockWorld

namespace LockState

/-- The first error among those that some notifications brought. -/
def firstError (es : List (Option NetError)) : Option NetError := (es.filterMap id).head?

@[simp] theorem firstError_nil : firstError [] = none := rfl

@[simp] theorem firstError_append_singleton (es : List (Option NetError)) (e : Option NetError) :
    firstError (es ++ [e]) = (firstError es <|> e) := by
  simp [firstError, List.filterMap_append]

/-- The notifications a running task makes, one after another, with the errors they bring. -/
inductive Supplies : LockState → List (Option NetError) → LockState → Prop
  | nil (ls : LockState) : Supplies ls [] ls
  | snoc {ls ls' : LockState} {es : List (Option NetError)} (r : WaitReason) (e : Option NetError) :
      Supplies ls es ls' → Supplies ls (es ++ [e]) (ls'.offer r e false).1

/-- Whatever notifications a task made, they brought some list of errors. -/
theorem Notified.supplies {ls ls' : LockState} (notified : ls.Notified ls') :
    ∃ es, ls.Supplies es ls' := by
  induction notified with
  | refl => exact ⟨[], .nil ls⟩
  | tail _ step ih =>
    obtain ⟨es, supplied⟩ := ih
    obtain ⟨r, e, rfl⟩ := step
    exact ⟨es ++ [e], .snoc r e supplied⟩

theorem Supplies.finished_eq {ls ls' : LockState} {es : List (Option NetError)}
    (supplied : ls.Supplies es ls') : ls'.finished = ls.finished := by
  induction supplied with
  | nil => rfl
  | snoc r e _ ih => rw [offer_finished, ih]

/-- A notification to a task that has not ended, made while nobody else holds it, records its
error behind any error already there. -/
theorem offer_error (ls : LockState) (live : ls.finished = false) (r : WaitReason)
    (e : Option NetError) : (ls.offer r e false).1.error = (ls.error <|> e) := by
  rcases ls with ⟨waiting, error, phase, finished⟩
  simp only at live
  subst live
  cases phase <;> simp [offer]

/-- Along the notifications of a task that has not ended, the lock keeps the first error. -/
theorem Supplies.error_eq {ls ls' : LockState} {es : List (Option NetError)}
    (supplied : ls.Supplies es ls') (live : ls.finished = false) :
    ls'.error = (ls.error <|> firstError es) := by
  induction supplied with
  | nil => simp
  | snoc r e earlier ih =>
    rw [offer_error _ (earlier.finished_eq.trans live), ih, firstError_append_singleton]
    simp [Option.or_assoc]

/-- An offer to a task that has ended changes nothing and resumes nothing. -/
theorem offer_of_ended {ls : LockState} (ended : ls.finished = true) (r : WaitReason)
    (e : Option NetError) (parked : Bool) : ls.offer r e parked = (ls, none) := by
  simp [offer, ended]

end LockState

namespace IoLock

variable {ω : Type} [LockWorld ω] [LawfulLockWorld ω]

/-- A drive that lets go of its task leaves the bookkeeping of a retired task. -/
theorem drive_retired_of_free (p : Progress ω WaitReason Wake Unit)
    (free : (drive p).2.1.parked = none) : ∃ ls : LockState, lockState (drive p).2.2 = ls.retired := by
  induction p with
  | done a w => exact ⟨lockState w, by simp [drive_done, mapLock]⟩
  | stall w => exact ⟨lockState w, by simp [drive_stall, mapLock]⟩
  | suspend y w k ih =>
    rcases drive_suspend y w k with ⟨-, step⟩ | ⟨-, -, step⟩ | ⟨-, -, step⟩ <;> rw [step] at free ⊢
    · exact ⟨lockState w, by simp [mapLock]⟩
    · exact ih _ _ free
    · cases free

/-- Every stretch that a drive of a polite task runs began with no error recorded: the drive
starts the task with none and hands it over with none at each resumption. -/
theorem Drives.stretch {p q : Progress ω WaitReason Wake Unit} (drives : Drives p q) :
    ∀ {ls₀ : LockState}, Progress.Polite ls₀ p → ls₀.error = none → ls₀.finished = false →
      ∀ y w k, q = .suspend y w k →
        ∃ ls : LockState, ls.error = none ∧ ls.finished = false ∧ ls.Notified (lockState w) := by
  induction drives with
  | refl p =>
    intro ls₀ polite quiet live y w k same
    subst same
    cases polite with
    | suspend notified _ => exact ⟨ls₀, quiet, live, notified⟩
  | @resume y' w' k' q _ _ _ ih =>
    intro ls₀ polite quiet live y w k same
    cases polite with
    | suspend notified rest =>
      -- the task is handed over driven, with the error it gets cleared from the bookkeeping
      have live' := notified.finished_eq.trans live
      have handed : (lockState (setLockState w' (lockState w').handOver)).Driving := by
        simp [LockState.Driving, LockState.handOver, live']
      exact ih (rest _ _ handed) (by simp [LockState.handOver]) (by simp [LockState.handOver, live'])
        y w k same

/-- What a drive of the task from `p` promises about errors. -/
structure ErrorsReach (p : Progress ω WaitReason Wake Unit) : Prop where
  /-- Every suspension the drive comes to ends a stretch of notifications that began with no
  error recorded, for a task that had not ended, and the error recorded there is the first one
  those notifications brought: the lock resumes the task at once with it, or parks the task with
  no error pending. -/
  first : ∀ y w k, Drives p (.suspend y w k) → ∃ ls : LockState, ls.error = none ∧
    ls.finished = false ∧ ls.Notified (lockState w) ∧
    ∀ es, ls.Supplies es (lockState w) → (lockState w).error = LockState.firstError es
  /-- A drive that lets go of the task has ended it: it waits on nothing and its error is
  dropped. -/
  ends : (drive p).2.1.parked = none → (lockState (drive p).2.2).waiting = .ended ∧
    (lockState (drive p).2.2).finished = true ∧ (lockState (drive p).2.2).error = none

/-- A polite task started or handed over with no error recorded keeps the promise. -/
theorem errorsReach_of_polite {p : Progress ω WaitReason Wake Unit} {ls₀ : LockState}
    (polite : Progress.Polite ls₀ p) (quiet : ls₀.error = none) (live : ls₀.finished = false) :
    ErrorsReach p := by
  refine ⟨fun y w k drives => ?_, fun free => ?_⟩
  · obtain ⟨ls, quiet', live', notified⟩ := drives.stretch polite quiet live y w k rfl
    refine ⟨ls, quiet', live', notified, fun es supplied => ?_⟩
    rw [supplied.error_eq live', quiet']
    simp
  · obtain ⟨ls, retired⟩ := drive_retired_of_free p free
    simp [retired, LockState.retired]

/-- A drive of a polite task that has not ended leaves it parked and not ended, or ended with the
bookkeeping of a retired task. -/
theorem drive_ended {p : Progress ω WaitReason Wake Unit} {ls₀ : LockState}
    (polite : Progress.Polite ls₀ p) (quiet : ls₀.error = none) (live : ls₀.finished = false)
    (ended : (lockState (drive p).2.2).finished = true) :
    (lockState (drive p).2.2).waiting = .ended ∧ (lockState (drive p).2.2).error = none := by
  cases held : (drive p).2.1.parked with
  | none =>
    obtain ⟨waits, -, cleared⟩ := (errorsReach_of_polite polite quiet live).ends held
    exact ⟨waits, cleared⟩
  | some k =>
    have still := (drive_held p polite live k held).1
    rw [still] at ended
    cases ended

/-- Between top-level calls, a lock whose task has ended waits on nothing and has no error. -/
theorem Reachable.ended {l : IoLock ω} {w : ω} (reach : Reachable l w)
    (ended : (lockState w).finished = true) :
    (lockState w).waiting = .ended ∧ (lockState w).error = none := by
  induction reach with
  | fresh start => simp [start] at ended
  | @run l w body _ polite ih =>
    cases live : l.isLive w
    · rw [run_of_free body live] at ended ⊢
      exact drive_ended (polite _) (by simp) (by simp) ended
    · rw [run_of_live body live] at ended ⊢
      exact ih ended
  | @notify l w r e reach ih =>
    have rest := reach.resting
    cases held : l.parked with
    | none =>
      rw [notify_of_empty held] at ended ⊢
      simp only [LawfulLockWorld.lockState_setLockState, LockState.offer_finished] at ended ⊢
      rw [LockState.offer_of_ended ended]
      exact ih ended
    | some k =>
      obtain ⟨live, -, -, polite⟩ := rest.held k held
      rw [notify_of_held held rest.idle live] at ended ⊢
      split_ifs at ended ⊢
      · have handed : (lockState (setLockState w (lockState w).handOver)).Driving := by
          simp [LockState.Driving, LockState.handOver, live]
        exact drive_ended (polite _ _ handed) (by simp [LockState.handOver])
          (by simp [LockState.handOver, live]) ended
      · simp [live] at ended
  | ready _ same ih => exact same ▸ ih (same ▸ ended)

/-- Errors reach the task once, and a lock whose task has ended is quiet until a start re-arms
it. -/
structure ErrorsOnce (l : IoLock ω) (w : ω) : Prop where
  /-- A held task has no error waiting for it: every error so far reached it or was dropped. -/
  held_quiet : ∀ k, l.parked = some k → (lockState w).error = none
  /-- A notification that brings an error to the held task resumes it at once with that error,
  handing it over with none recorded. -/
  notify_delivers : ∀ k, l.parked = some k → ∀ r e, l.notify r (some e) w =
    Prod.map (Except.map fun _ => true) id
      (drive (k (.error e) (setLockState w (lockState w).handOver)))
  /-- A start of a polite task keeps the promise about errors in the drive it makes, -/
  started : ∀ body : Routine ω WaitReason Wake Unit, body.Polite →
    (l.run body w).1 ≠ .error .busy → ErrorsReach (body (setLockState w { phase := .running }))
  /-- and so does every resumption of the held task. -/
  resumed : ∀ k, l.parked = some k → ∀ v,
    ErrorsReach (k v (setLockState w (lockState w).handOver))
  /-- A lock whose task has ended waits on nothing, has no error, and ignores every
  notification, its error included, -/
  ended : (lockState w).finished = true → (lockState w).waiting = .ended ∧
    (lockState w).error = none ∧ ∀ r e, l.notify r e w = (.ok false, l, setLockState w (lockState w))
  /-- until a start re-arms it, with no error pending. -/
  rearmed : (lockState w).finished = true →
    ∀ body, l.run body w = drive (body (setLockState w { phase := .running }))

/-- Whatever top-level calls came before, errors reach the task once. -/
theorem Reachable.errors_reach_task_once {l : IoLock ω} {w : ω} (reach : Reachable l w) :
    ErrorsOnce l w := by
  have rest := reach.resting
  refine ⟨fun k held => (rest.held k held).2.2.1, fun k held r e => ?_,
    fun body polite free => ?_, fun k held v => ?_, fun ended => ?_, fun ended body => ?_⟩
  · obtain ⟨live, -, quiet, -⟩ := rest.held k held
    rw [notify_of_held held rest.idle live, if_pos (.inr (by simp))]
    simp [quiet]
  · exact errorsReach_of_polite (polite _) (by simp) (by simp)
  · obtain ⟨live, -, -, polite⟩ := rest.held k held
    have handed : (lockState (setLockState w (lockState w).handOver)).Driving := by
      simp [LockState.Driving, LockState.handOver, live]
    exact errorsReach_of_polite (polite _ _ handed) (by simp [LockState.handOver])
      (by simp [LockState.handOver, live])
  · obtain ⟨waits, quiet⟩ := reach.ended ended
    refine ⟨waits, quiet, fun r e => ?_⟩
    simp [IoLock.notify, LockState.offer_of_ended ended]
  · have free : l.isLive w = false := by simp [isLive, rest.idle, ended]
    exact run_of_free body free

end IoLock

/-- A task that notifies the lock of a timeout, then suspends on a drain, is resumed at once with
the timeout; it then suspends on `recv` and is parked with no error pending. -/
theorem gate_timeout_reaches_task_once :
    let task := LockScriptStep.routine 0
      [.notify .recv (some .timeout), .suspend .flush, .suspend .recv]
    let out := ({} : IoLock Gate).run task { ready := [] }
    IoLock.Reachable out.2.1 out.2.2 ∧ IoLock.ErrorsOnce out.2.1 out.2.2 :=
  have reach := IoLock.Reachable.run (.fresh rfl) (LockScriptStep.routine_polite 0 _)
  ⟨reach, reach.errors_reach_task_once⟩

end WebSocketCore
