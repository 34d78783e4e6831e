import Mathlib.Logic.Relation
import Mathlib.Tactic.SplitIfs
import WebSocketCore.Simulation.LockScript

/-! # The lock's discipline

The lock keeps its bookkeeping in the world its task runs on, so a task could change it at will.
The tasks of this library change it only by notifying the lock (`Polite`), and a world gives the
bookkeeping back as it was stored, with a readiness that does not read it (`LawfulLockWorld`).
For such tasks and worlds this module shows what the lock promises to every caller, whatever
starts, notifications and changes of readiness come in whatever order (`Reachable`):

* only one caller drives the task at a time: every top-level call returns with the lock idle, a
  start is refused, changing nothing, exactly while a task is driven or a started task has not
  ended, and a notification made while the task is driven resumes nothing;
* no wake-up is lost: the lock parks a task only on the reason it has just suspended with, with no
  error recorded and that reason not ready, and a later notification resumes it exactly when it
  names that reason or brings an error, with the first error as the wake.
-/

namespace WebSocketCore

open LockWorld

/-- A world that gives the lock's bookkeeping back as it was stored, and whose readiness does not
read the bookkeeping. -/
class LawfulLockWorld (ω : Type) [LockWorld ω] : Prop where
  lockState_setLockState (w : ω) (ls : LockState) : lockState (setLockState w ls) = ls
  isReady_setLockState (w : ω) (ls : LockState) (r : WaitReason) :
    isReady (setLockState w ls) r = isReady w r

attribute [simp] LawfulLockWorld.lockState_setLockState LawfulLockWorld.isReady_setLockState

instance : LawfulLockWorld Gate where
  lockState_setLockState _ _ := rfl
  isReady_setLockState _ _ _ := rfl

namespace LockState

/-- The lock drives a task that has not ended. -/
def Driving (ls : LockState) : Prop := ls.phase ≠ .idle ∧ ls.finished = false

/-- The bookkeeping with which the lock hands its task over to run: driven, with the recorded
error gone to the task as its wake. -/
def handOver (ls : LockState) : LockState := { ls with phase := .running, error := none }

/-- A notification made by the running task, which the lock does not hold while it runs. -/
def Notifies (ls ls' : LockState) : Prop := ∃ r e, ls' = (ls.offer r e false).1

/-- The notifications the running task makes, one after another. -/
abbrev Notified : LockState → LockState → Prop := Relation.ReflTransGen Notifies

@[simp] theorem offer_finished (ls : LockState) (r : WaitReason) (e : Option NetError)
    (parked : Bool) : (ls.offer r e parked).1.finished = ls.finished := by
  rcases ls with ⟨waiting, error, phase, finished⟩
  cases finished <;> cases phase <;> simp only [offer] <;> split_ifs <;> rfl

/-- While the lock drives a task that has not ended, a notification records its error and asks
for a re-check, and resumes nothing. -/
theorem offer_of_driving {ls : LockState} (driving : ls.Driving) (r : WaitReason)
    (e : Option NetError) (parked : Bool) :
    ls.offer r e parked = ({ ls with error := ls.error <|> e, phase := .pendingRecheck }, none) := by
  obtain ⟨busy, live⟩ := driving
  cases phase : ls.phase with
  | idle => exact absurd phase busy
  | running => simp [offer, live, phase]
  | pendingRecheck => simp [offer, live, phase]

/-- Nobody drives a held task that has not ended: a notification resumes it exactly when it
names the reason the task waits for or an error is supplied or recorded, with the first error. -/
theorem offer_of_idle {ls : LockState} (idle : ls.phase = .idle) (live : ls.finished = false)
    (r : WaitReason) (e : Option NetError) :
    ls.offer r e true =
      if ls.waiting = r ∨ (ls.error <|> e).isSome then
        (ls.handOver, some ((ls.error <|> e).elim (.ok ()) .error))
      else ({ ls with error := ls.error <|> e }, none) := by
  rcases ls with ⟨waiting, error, phase, finished⟩
  simp only at idle live
  subst idle live
  cases error <;> cases e <;> by_cases same : waiting = r <;> simp [offer, handOver, wake, same]

theorem Notifies.finished_eq {ls ls' : LockState} (step : Notifies ls ls') :
    ls'.finished = ls.finished := by
  obtain ⟨r, e, rfl⟩ := step
  exact offer_finished ls r e false

theorem Notified.finished_eq {ls ls' : LockState} (notified : Notified ls ls') :
    ls'.finished = ls.finished := by
  induction notified with
  | refl => rfl
  | tail _ step ih => rw [step.finished_eq, ih]

/-- Notifications made while the task is driven leave it driven. -/
theorem Notified.driving {ls ls' : LockState} (notified : Notified ls ls') (driving : ls.Driving) :
    ls'.Driving := by
  induction notified with
  | refl => exact driving
  | tail _ step ih =>
    obtain ⟨r, e, rfl⟩ := step
    rw [offer_of_driving ih]
    exact ⟨by simp, ih.2⟩

end LockState

/-! ## Polite tasks -/

namespace Progress

variable {ω : Type} [LockWorld ω] {α β : Type}

/-- A task's progress that changes the lock's bookkeeping only by notifying: from the bookkeeping
`ls` its stretch of running began with to where the stretch stops, and again in every stretch
after the lock resumes it, which the lock does only while it drives the task. -/
inductive Polite : LockState → Progress ω WaitReason Wake α → Prop
  | done {ls : LockState} {a : α} {w : ω} : ls.Notified (lockState w) → Polite ls (.done a w)
  | stall {ls : LockState} {w : ω} : ls.Notified (lockState w) → Polite ls (.stall w)
  | suspend {ls : LockState} {y : WaitReason} {w : ω}
      {k : Wake → ω → Progress ω WaitReason Wake α} :
      ls.Notified (lockState w) →
      (∀ v w', (lockState w').Driving → Polite (lockState w') (k v w')) →
      Polite ls (.suspend y w k)

theorem Polite.of_notified {ls ls' : LockState} {p : Progress ω WaitReason Wake α}
    (before : ls.Notified ls') (polite : Polite ls' p) : Polite ls p := by
  cases polite with
  | done after => exact .done (before.trans after)
  | stall after => exact .stall (before.trans after)
  | suspend after rest => exact .suspend (before.trans after) rest

theorem Polite.bind {ls : LockState} {p : Progress ω WaitReason Wake α}
    {f : α → ω → Progress ω WaitReason Wake β} (polite : Polite ls p)
    (next : ∀ a w, Polite (lockState w) (f a w)) : Polite ls (p.bind f) := by
  induction polite with
  | done notified => exact (next _ _).of_notified notified
  | stall notified => exact .stall notified
  | suspend notified _ ih => exact .suspend notified ih

end Progress

namespace Routine

variable {ω : Type} [LockWorld ω] {α β : Type}

/-- A routine that changes the lock's bookkeeping only by notifying, wherever it runs. -/
def Polite (body : Routine ω WaitReason Wake α) : Prop :=
  ∀ w, Progress.Polite (lockState w) (body w)

theorem Polite.bind {p : Routine ω WaitReason Wake α} {f : α → Routine ω WaitReason Wake β}
    (first : p.Polite) (next : ∀ a, (f a).Polite) : (p >>= f).Polite :=
  fun w => (first w).bind fun a w' => next a w'

/-- A change of the world that leaves the bookkeeping alone is polite. -/
theorem polite_modify (g : ω → ω) (keeps : ∀ w, lockState (g w) = lockState w) :
    (modify g : Routine ω WaitReason Wake Unit).Polite :=
  fun w => .done (by rw [keeps])

/-- A change of the world that makes one notification is polite. -/
theorem polite_modify_notify (g : ω → ω) (notifies : ∀ w, (lockState w).Notifies (lockState (g w))) :
    (modify g : Routine ω WaitReason Wake Unit).Polite :=
  fun w => .done (.single (notifies w))

theorem polite_suspend (r : WaitReason) : (suspend r : Routine ω WaitReason Wake Wake).Polite :=
  fun _ => .suspend .refl fun _ _ _ => .done .refl

theorem polite_stall : (stall : Routine ω WaitReason Wake α).Polite :=
  fun _ => .stall .refl

end Routine

/-- The scripted tasks of the lock's tests are polite: they notify the lock, change the ready set
and take notes, and touch the bookkeeping only by notifying. -/
theorem LockScriptStep.routine_polite (body : Nat) (steps : List LockScriptStep) :
    (LockScriptStep.routine body steps).Polite := by
  induction steps with
  | nil => exact Routine.polite_modify _ fun _ => rfl
  | cons step rest ih =>
    cases step with
    | suspend r =>
      simp only [LockScriptStep.routine]
      refine (Routine.polite_suspend r).bind fun wake => ?_
      refine (Routine.polite_modify _ fun _ => ?_).bind fun _ => ih
      rfl
    | notify r e =>
      simp only [LockScriptStep.routine]
      exact (Routine.polite_modify_notify _ fun _ => ⟨r, e, rfl⟩).bind fun _ => ih
    | setReady rs =>
      simp only [LockScriptStep.routine]
      refine (Routine.polite_modify _ fun _ => ?_).bind fun _ => ih
      rfl
    | notePhase =>
      simp only [LockScriptStep.routine]
      refine (Routine.polite_modify _ fun _ => ?_).bind fun _ => ih
      rfl
    | stall => exact Routine.polite_stall

/-! ## Driving -/

namespace LockState

theorem offer_phase_of_idle {ls : LockState} (idle : ls.phase = .idle) (r : WaitReason)
    (e : Option NetError) : (ls.offer r e false).1.phase = .idle := by
  rcases ls with ⟨waiting, error, phase, finished⟩
  simp only at idle
  subst idle
  cases finished <;> simp [offer]

end LockState

namespace IoLock

variable {ω : Type} [LockWorld ω]

/-- The lock, driving its task from `p`, comes to `q`: every suspension on the way had its reason
ready or an error recorded, and was resumed at once, with the recorded error as the wake. -/
inductive Drives : Progress ω WaitReason Wake Unit → Progress ω WaitReason Wake Unit → Prop
  | refl (p : Progress ω WaitReason Wake Unit) : Drives p p
  | resume {y : WaitReason} {w : ω} {k : Wake → ω → Progress ω WaitReason Wake Unit}
      {q : Progress ω WaitReason Wake Unit} : y ≠ .ended →
      ((lockState w).error.isSome || isReady w y) = true →
      Drives (k (lockState w).wake (setLockState w (lockState w).handOver)) q →
      Drives (.suspend y w k) q

/-- How the lock leaves a task it drove from `p`: if it holds the task, the task suspended on the
way with the reason it now waits for, no error was recorded, and that reason was not ready. -/
def ParksFrom (p : Progress ω WaitReason Wake Unit) (out : IoLock ω × ω) : Prop :=
  ∀ k, out.1.parked = some k → ∃ y w, Drives p (.suspend y w k) ∧
    out.2 = setLockState w { lockState w with waiting := y, phase := .idle } ∧
    y ≠ .ended ∧ (lockState w).error = none ∧ isReady w y = false

theorem drive_done (a : Unit) (w : ω) :
    drive (.done a w) = (.ok (), {}, mapLock w LockState.retired) := rfl

theorem drive_stall (w : ω) :
    drive (.stall w) = (.error .foreignPending, {}, mapLock w LockState.retired) := rfl

/-- What the lock does with a suspension: it retires a task that suspends with `ended`, resumes at
once a task whose reason is ready or that has an error recorded, and parks any other. -/
theorem drive_suspend (y : WaitReason) (w : ω) (k : Wake → ω → Progress ω WaitReason Wake Unit) :
    (y = .ended ∧ drive (.suspend y w k) = (.ok (), {}, mapLock w LockState.retired)) ∨
    (y ≠ .ended ∧ ((lockState w).error.isSome || isReady w y) = true ∧
      drive (.suspend y w k) = drive (k (lockState w).wake (setLockState w (lockState w).handOver))) ∨
    (y ≠ .ended ∧ ((lockState w).error.isSome || isReady w y) = false ∧
      drive (.suspend y w k) =
        (.ok (), ⟨some k⟩, setLockState w { lockState w with waiting := y, phase := .idle })) := by
  by_cases ended : y = .ended
  · subst ended
    exact .inl ⟨rfl, rfl⟩
  · cases ready : ((lockState w).error.isSome || isReady w y)
    · refine .inr (.inr ⟨ended, rfl, ?_⟩)
      simp [drive, ended, ready]
    · refine .inr (.inl ⟨ended, rfl, ?_⟩)
      simp only [drive, ended, ready, if_false, if_true]
      rfl

/-- The drive ends with the task ended or stalled, which it retires, or parked. -/
theorem drive_result (p : Progress ω WaitReason Wake Unit) :
    (drive p).1 = .ok () ∨ (drive p).1 = .error .foreignPending := by
  induction p with
  | done a w => exact .inl rfl
  | stall w => exact .inr rfl
  | suspend y w k ih =>
    rcases drive_suspend y w k with ⟨-, step⟩ | ⟨-, -, step⟩ | ⟨-, -, step⟩ <;> rw [step]
    · exact .inl rfl
    · exact ih _ _
    · exact .inl rfl

/-- The lock parks a task only on the reason it has just suspended with, with no error recorded
and that reason not ready. -/
theorem drive_parksFrom (p : Progress ω WaitReason Wake Unit) : ParksFrom p (drive p).2 := by
  induction p with
  | done a w => simp [ParksFrom, drive_done]
  | stall w => simp [ParksFrom, drive_stall]
  | suspend y w k ih =>
    intro k' held
    rcases drive_suspend y w k with ⟨-, step⟩ | ⟨live, ready, step⟩ | ⟨live, quiet, step⟩ <;>
      rw [step] at held ⊢
    · simp at held
    · obtain ⟨y', w', drives, rest⟩ := ih _ _ k' held
      exact ⟨y', w', .resume live ready drives, rest⟩
    · simp only [Option.some.injEq] at held
      subst held
      simp only [Bool.or_eq_false_iff, Option.isSome_eq_false_iff, Option.isNone_iff_eq_none] at quiet
      exact ⟨y, w, .refl _, rfl, live, quiet.1, quiet.2⟩

/-! ## Top-level calls -/

theorem isLive_iff (l : IoLock ω) (w : ω) : l.isLive w = true ↔
    (lockState w).phase ≠ .idle ∨ (l.parked.isSome ∧ (lockState w).finished = false) := by
  simp [isLive]

theorem run_of_live {l : IoLock ω} {w : ω} (body : Routine ω WaitReason Wake Unit)
    (live : l.isLive w = true) : l.run body w = (.error .busy, l, w) := by
  simp [run, live]

theorem run_of_free {l : IoLock ω} {w : ω} (body : Routine ω WaitReason Wake Unit)
    (free : l.isLive w = false) : l.run body w = drive (body (setLockState w { phase := .running })) := by
  simp [run, free]

/-- A start is refused exactly while the lock is live: a drive never answers `busy`. -/
theorem run_busy_iff (l : IoLock ω) (w : ω) (body : Routine ω WaitReason Wake Unit) :
    (l.run body w).1 = .error .busy ↔ l.isLive w = true := by
  cases live : l.isLive w
  · rw [run_of_free body live]
    rcases drive_result (body (setLockState w { phase := .running })) with answer | answer <;>
      simp [answer]
  · simp [run_of_live body live]

theorem notify_of_driving (l : IoLock ω) (r : WaitReason) (e : Option NetError) {w : ω}
    (driving : (lockState w).Driving) :
    l.notify r e w = (.ok false, l, setLockState w
      { lockState w with error := (lockState w).error <|> e, phase := .pendingRecheck }) := by
  simp [notify, LockState.offer_of_driving driving]

theorem notify_of_empty {l : IoLock ω} (empty : l.parked = none) (r : WaitReason)
    (e : Option NetError) (w : ω) :
    l.notify r e w = (.ok false, l, setLockState w ((lockState w).offer r e false).1) := by
  simp [notify, empty]

/-- A notification to an idle lock that holds a task which has not ended. -/
theorem notify_of_held {l : IoLock ω} {k : Wake → ω → Progress ω WaitReason Wake Unit}
    (held : l.parked = some k) {w : ω} (idle : (lockState w).phase = .idle)
    (live : (lockState w).finished = false) (r : WaitReason) (e : Option NetError) :
    l.notify r e w =
      if (lockState w).waiting = r ∨ ((lockState w).error <|> e).isSome then
        Prod.map (Except.map fun _ => true) id
          (drive (k (((lockState w).error <|> e).elim (.ok ()) .error)
            (setLockState w (lockState w).handOver)))
      else (.ok false, l, setLockState w { lockState w with error := (lockState w).error <|> e }) := by
  simp only [notify, held, Option.isSome_some, LockState.offer_of_idle idle live]
  split_ifs <;> rfl

/-! ## Between top-level calls -/

variable [LawfulLockWorld ω]

/-- Whatever happens while it drives, the lock lets go of its task idle. -/
theorem drive_idle (p : Progress ω WaitReason Wake Unit) : (lockState (drive p).2.2).phase = .idle := by
  induction p with
  | done a w => simp [drive_done, mapLock, LockState.retired]
  | stall w => simp [drive_stall, mapLock, LockState.retired]
  | suspend y w k ih =>
    rcases drive_suspend y w k with ⟨-, step⟩ | ⟨-, -, step⟩ | ⟨-, -, step⟩ <;> rw [step]
    · simp [mapLock, LockState.retired]
    · exact ih _ _
    · simp

/-- A polite task the lock parks has not ended, and stays polite. -/
theorem drive_held (p : Progress ω WaitReason Wake Unit) :
    ∀ {ls₀ : LockState}, Progress.Polite ls₀ p → ls₀.finished = false →
      ∀ k, (drive p).2.1.parked = some k → (lockState (drive p).2.2).finished = false ∧
        ∀ v w', (lockState w').Driving → Progress.Polite (lockState w') (k v w') := by
  induction p with
  | done a w => simp [drive_done]
  | stall w => simp [drive_stall]
  | suspend y w k ih =>
    intro ls₀ polite fresh k' held
    cases polite with
    | suspend notified rest =>
      -- the task has not ended where it suspended: notifications keep the end flag
      have live : (lockState w).finished = false := by rw [notified.finished_eq, fresh]
      rcases drive_suspend y w k with ⟨-, step⟩ | ⟨-, -, step⟩ | ⟨-, -, step⟩ <;>
        rw [step] at held ⊢
      · simp at held
      · have handed : (lockState (setLockState w (lockState w).handOver)).Driving := by
          simp [LockState.Driving, LockState.handOver, live]
        exact ih _ _ (rest _ _ handed) (by simp [LockState.handOver, live]) k' held
      · simp only [Option.some.injEq] at held
        subst held
        exact ⟨by simp [live], rest⟩

/-- The lock between top-level calls: idle, and a task it holds has suspended on a reason, has not
ended, has no error waiting for it, and stays polite. -/
structure Resting (l : IoLock ω) (w : ω) : Prop where
  idle : (lockState w).phase = .idle
  held : ∀ k, l.parked = some k → (lockState w).finished = false ∧
    (lockState w).waiting ≠ .ended ∧ (lockState w).error = none ∧
    ∀ v w', (lockState w').Driving → Progress.Polite (lockState w') (k v w')

/-- A drive of a polite task that has not ended leaves the lock resting. -/
theorem drive_resting {p : Progress ω WaitReason Wake Unit} {ls₀ : LockState}
    (polite : Progress.Polite ls₀ p) (fresh : ls₀.finished = false) :
    Resting (drive p).2.1 (drive p).2.2 := by
  refine ⟨drive_idle p, fun k held => ?_⟩
  obtain ⟨live, rest⟩ := drive_held p polite fresh k held
  obtain ⟨y, w, -, atPark, ended, quiet, -⟩ := drive_parksFrom p k held
  rw [atPark] at live ⊢
  simp only [LawfulLockWorld.lockState_setLockState] at live ⊢
  exact ⟨live, ended, quiet, rest⟩

theorem Resting.run {l : IoLock ω} {w : ω} (rest : Resting l w)
    {body : Routine ω WaitReason Wake Unit} (polite : body.Polite) :
    Resting (l.run body w).2.1 (l.run body w).2.2 := by
  cases live : l.isLive w
  · rw [run_of_free body live]
    exact drive_resting (polite _) (by simp)
  · rw [run_of_live body live]
    exact rest

theorem Resting.notify {l : IoLock ω} {w : ω} (rest : Resting l w) (r : WaitReason)
    (e : Option NetError) : Resting (l.notify r e w).2.1 (l.notify r e w).2.2 := by
  cases held : l.parked with
  | none =>
    rw [notify_of_empty held]
    exact ⟨by simp [LockState.offer_phase_of_idle rest.idle], by simp [held]⟩
  | some k =>
    obtain ⟨live, waits, quiet, polite⟩ := rest.held k held
    rw [notify_of_held held rest.idle live]
    split_ifs with resumes
    · -- the task is handed over driven and not ended, so it stays polite
      have handed : (lockState (setLockState w (lockState w).handOver)).Driving := by
        simp [LockState.Driving, LockState.handOver, live]
      exact drive_resting (polite _ _ handed) (by simp [LockState.handOver, live])
    · -- no reason matched and no error came: nothing changes
      have silent : e = none := by simp_all
      refine ⟨by simpa using rest.idle, fun k' held' => ?_⟩
      simp only [held, Option.some.injEq] at held'
      subst held'
      exact ⟨by simpa using live, by simpa using waits, by simp [quiet, silent], polite⟩

/-- The locks and worlds a fresh lock comes to by top-level calls, in any order: starts of polite
tasks, notifications with any reason and error, and changes of the world that leave the
bookkeeping alone, such as changes of readiness. -/
inductive Reachable : IoLock ω → ω → Prop
  | fresh {w : ω} : lockState w = {} → Reachable {} w
  | run {l : IoLock ω} {w : ω} {body : Routine ω WaitReason Wake Unit} :
      Reachable l w → body.Polite → Reachable (l.run body w).2.1 (l.run body w).2.2
  | notify {l : IoLock ω} {w : ω} (r : WaitReason) (e : Option NetError) :
      Reachable l w → Reachable (l.notify r e w).2.1 (l.notify r e w).2.2
  | ready {l : IoLock ω} {w w' : ω} : Reachable l w → lockState w' = lockState w → Reachable l w'

theorem Reachable.resting {l : IoLock ω} {w : ω} (reach : Reachable l w) : Resting l w := by
  induction reach with
  | fresh start => exact ⟨by simp [start], by simp⟩
  | run _ polite ih => exact ih.run polite
  | notify r e _ ih => exact ih.notify r e
  | ready _ same ih => exact ⟨same ▸ ih.idle, fun k held => same ▸ ih.held k held⟩

/-! ## What the callers and the task can count on -/

/-- Only one caller drives the task at a time. -/
structure SingleDriver (l : IoLock ω) (w : ω) : Prop where
  /-- Between top-level calls nobody drives the task. -/
  idle : (lockState w).phase = .idle
  /-- A start is refused exactly when the lock holds a started task that has not ended, -/
  busy_iff : ∀ body : Routine ω WaitReason Wake Unit,
    (l.run body w).1 = .error .busy ↔ l.parked.isSome ∧ (lockState w).finished = false
  /-- and a refused start changes nothing. -/
  busy_keeps : ∀ body : Routine ω WaitReason Wake Unit,
    (l.run body w).1 = .error .busy → (l.run body w).2 = (l, w)
  /-- A notification resumes only the task the lock holds, which has not ended, and drives it
  itself once it has handed it over. -/
  resumes_held : ∀ r e, (l.notify r e w).1 ≠ .ok false → ∃ k v, l.parked = some k ∧
    (lockState w).finished = false ∧
    l.notify r e w = Prod.map (Except.map fun _ => true) id
      (drive (k v (setLockState w (lockState w).handOver)))
  /-- While the task is driven, whichever lock is asked, a start is refused and changes nothing,
  and a notification resumes nothing: it records its error and asks for a re-check. -/
  inert_while_driven : ∀ (l' : IoLock ω) (w' : ω) (body : Routine ω WaitReason Wake Unit)
    (r : WaitReason) (e : Option NetError), (lockState w').Driving →
    l'.run body w' = (.error .busy, l', w') ∧
      l'.notify r e w' = (.ok false, l', setLockState w'
        { lockState w' with error := (lockState w').error <|> e, phase := .pendingRecheck })

/-- No wake-up is lost. -/
structure WakeupsKept (l : IoLock ω) (w : ω) : Prop where
  /-- A held task waits for a reason, has not ended, has no error waiting for it, and nobody
  drives it. -/
  held : ∀ k, l.parked = some k → (lockState w).waiting ≠ .ended ∧ (lockState w).error = none ∧
    (lockState w).finished = false ∧ (lockState w).phase = .idle
  /-- A start parks the task only on the reason it has just suspended with, with no error
  recorded and that reason not ready. -/
  start_parks : ∀ body : Routine ω WaitReason Wake Unit, (l.run body w).1 ≠ .error .busy →
    ParksFrom (body (setLockState w { phase := .running })) (l.run body w).2
  /-- A notification resumes the held task exactly when it names the reason the task waits for,
  or an error is supplied or recorded, -/
  resumes_iff : ∀ k, l.parked = some k → ∀ r e, (l.notify r e w).1 ≠ .ok false ↔
    (lockState w).waiting = r ∨ e.isSome ∨ (lockState w).error.isSome
  /-- with the first error as the wake, and parks it again only on the reason it has just
  suspended with, with no error recorded and that reason not ready. -/
  resume_parks : ∀ k, l.parked = some k → ∀ r e, (l.notify r e w).1 ≠ .ok false →
    l.notify r e w = Prod.map (Except.map fun _ => true) id
        (drive (k (((lockState w).error <|> e).elim (.ok ()) .error)
          (setLockState w (lockState w).handOver))) ∧
      ParksFrom (k (((lockState w).error <|> e).elim (.ok ()) .error)
        (setLockState w (lockState w).handOver)) (l.notify r e w).2

/-- Whatever top-level calls came before, only one caller drives the task at a time. -/
theorem Reachable.single_driver {l : IoLock ω} {w : ω} (reach : Reachable l w) :
    SingleDriver l w := by
  have rest := reach.resting
  -- between top-level calls the lock is live exactly when it holds a task
  have live_iff : l.isLive w = true ↔ l.parked.isSome ∧ (lockState w).finished = false := by
    simp [isLive_iff, rest.idle]
  refine ⟨rest.idle, fun body => (run_busy_iff l w body).trans live_iff, fun body busy => ?_,
    fun r e resumed => ?_, fun l' w' body r e driving => ⟨?_, notify_of_driving l' r e driving⟩⟩
  · rw [run_of_live body ((run_busy_iff l w body).1 busy)]
  · cases held : l.parked with
    | none => simp [notify_of_empty held] at resumed
    | some k =>
      have live := (rest.held k held).1
      rw [notify_of_held held rest.idle live] at resumed ⊢
      split_ifs at resumed ⊢ with resumes
      · exact ⟨k, _, rfl, live, rfl⟩
      · simp at resumed
  · exact run_of_live body ((isLive_iff l' w').2 (.inl driving.1))

/-- Whatever top-level calls came before, no wake-up is lost. -/
theorem Reachable.no_lost_wakeup {l : IoLock ω} {w : ω} (reach : Reachable l w) :
    WakeupsKept l w := by
  have rest := reach.resting
  refine ⟨fun k held => ?_, fun body free => ?_, fun k held r e => ?_, fun k held r e resumed => ?_⟩
  · obtain ⟨live, waits, quiet, -⟩ := rest.held k held
    exact ⟨waits, quiet, live, rest.idle⟩
  · cases live : l.isLive w
    · rw [run_of_free body live]
      exact drive_parksFrom _
    · exact absurd ((run_busy_iff l w body).2 live) free
  · have live := (rest.held k held).1
    rw [notify_of_held held rest.idle live]
    -- the first error is there exactly when one was recorded or one is supplied
    have first : ((lockState w).error <|> e).isSome = (e.isSome || (lockState w).error.isSome) := by
      cases (lockState w).error <;> cases e <;> rfl
    simp only [first, Bool.or_eq_true] at ⊢
    split_ifs with resumes
    · have answered := drive_result (k (((lockState w).error <|> e).elim (.ok ()) .error)
        (setLockState w (lockState w).handOver))
      refine iff_of_true ?_ resumes
      rcases answered with answer | answer <;> rw [Prod.map_fst, answer] <;> simp [Except.map]
    · simp [resumes]
  · have live := (rest.held k held).1
    rw [notify_of_held held rest.idle live] at resumed ⊢
    split_ifs at resumed ⊢ with resumes
    · exact ⟨rfl, drive_parksFrom _⟩
    · simp at resumed

end IoLock

/-- A task that announces `recv` itself, makes it ready and suspends on it, is resumed at once by
the re-check; it then clears the ready set and suspends on `recv` again, and is parked. -/
theorem gate_recheck_single_driver :
    let task := LockScriptStep.routine 0
      [.notify .recv none, .setReady [.recv], .suspend .recv, .setReady [], .suspend .recv]
    let out := ({} : IoLock Gate).run task { ready := [] }
    IoLock.Reachable out.2.1 out.2.2 ∧ IoLock.SingleDriver out.2.1 out.2.2 :=
  have reach := IoLock.Reachable.run (.fresh rfl) (LockScriptStep.routine_polite 0 _)
  ⟨reach, reach.single_driver⟩

/-- The same task, parked on `recv` after the re-check served its first suspension. -/
theorem gate_recheck_no_lost_wakeup :
    let task := LockScriptStep.routine 0
      [.notify .recv none, .setReady [.recv], .suspend .recv, .setReady [], .suspend .recv]
    let out := ({} : IoLock Gate).run task { ready := [] }
    IoLock.Reachable out.2.1 out.2.2 ∧ IoLock.WakeupsKept out.2.1 out.2.2 :=
  have reach := IoLock.Reachable.run (.fresh rfl) (LockScriptStep.routine_polite 0 _)
  ⟨reach, reach.no_lost_wakeup⟩

end WebSocketCore
