import WebSocketCore.Error
import WebSocketCore.WaitReason
import WebSocketCore.Task.Routine

/-! # The I/O lock

The lock drives one task whose routine suspends with a `WaitReason` and is resumed with a
`Wake`: success, or the error it should see. It parks the task when its reason is not ready and
resumes it when a notification for that reason, or an error, arrives. A notification that
arrives while the task runs only records itself (`pendingRecheck`) and the error it carries: the
task is then checked again when it next suspends, so that no wake-up is lost and no resumption
is ever nested in another. The first error since the last resumption is the one delivered.

The lock's bookkeeping lives in the world the task runs on, so that the running task can notify
and look at the phase; the parked rest of the routine is held by the lock itself.
-/

namespace WebSocketCore

/-- What a suspended task is resumed with. -/
abbrev Wake := Except NetError Unit

/-- Whether the lock is driving its task. -/
inductive Phase where
  /-- Nobody is driving the task. -/
  | idle
  /-- The task is being driven. -/
  | running
  /-- The task is being driven and a notification came meanwhile. -/
  | pendingRecheck
  deriving DecidableEq, Repr, Inhabited

/-- The name of a phase. -/
def Phase.name : Phase → String
  | .idle => "Idle"
  | .running => "Running"
  | .pendingRecheck => "PendingRecheck"

/-- The lock's bookkeeping. -/
structure LockState where
  /-- The reason the parked task waits for; `ended` when none. -/
  waiting : WaitReason := .ended
  /-- The first error since the last resumption. -/
  error : Option NetError := none
  phase : Phase := .idle
  /-- The task has ended. -/
  finished : Bool := false
  deriving DecidableEq, Repr, Inhabited

/-- A world that holds a lock's bookkeeping and can tell whether a wait reason is ready. -/
class LockWorld (ω : Type) where
  lockState : ω → LockState
  setLockState : ω → LockState → ω
  /-- Whether a task waiting for this reason should be resumed now. -/
  isReady : ω → WaitReason → Bool

namespace LockState

/-- The wake that delivers the recorded error, if there is one. -/
def wake (ls : LockState) : Wake :=
  match ls.error with
  | some e => .error e
  | none => .ok ()

/-- Records a notification. Answers the bookkeeping after it and the wake to resume the parked
task with, if it is to be resumed: only when nobody drives the task, a task is parked
(`parked`), and the reason is the one it waits for or an error is recorded. -/
def offer (ls : LockState) (reason : WaitReason) (error : Option NetError) (parked : Bool) :
    LockState × Option Wake :=
  if ls.finished then (ls, none)
  else
    let ls := { ls with error := ls.error <|> error }
    match ls.phase with
    | .running | .pendingRecheck => ({ ls with phase := .pendingRecheck }, none)
    | .idle =>
      if ls.waiting ≠ reason ∧ ls.error.isNone then (ls, none)
      else if !parked then (ls, none)
      else ({ ls with phase := .running, error := none }, some ls.wake)

/-- The bookkeeping of a task that has ended. -/
def retired (ls : LockState) : LockState :=
  { ls with waiting := .ended, phase := .idle, finished := true, error := none }

end LockState

/-- A lock and the parked rest of its task's routine. -/
structure IoLock (ω : Type) where
  parked : Option (Wake → ω → Progress ω WaitReason Wake Unit) := none

namespace IoLock

variable {ω : Type} [LockWorld ω]

/-- Updates the bookkeeping in the world. -/
def mapLock (w : ω) (f : LockState → LockState) : ω :=
  LockWorld.setLockState w (f (LockWorld.lockState w))

/-- Drives the task from its progress: an end, a stall or a suspension with `ended` retires
it; a suspension whose reason is ready, or with an error recorded, resumes it at once; any
other suspension parks it on its reason. -/
def drive : Progress ω WaitReason Wake Unit → Except TaskError Unit × IoLock ω × ω
  | .done () w => (.ok (), {}, mapLock w LockState.retired)
  | .stall w => (.error .foreignPending, {}, mapLock w LockState.retired)
  | .suspend y w k =>
    if y = .ended then (.ok (), {}, mapLock w LockState.retired)
    else
      let ls := LockWorld.lockState w
      if ls.error.isSome || LockWorld.isReady w y then
        drive (k ls.wake (LockWorld.setLockState w { ls with phase := .running, error := none }))
      else (.ok (), ⟨some k⟩, LockWorld.setLockState w { ls with waiting := y, phase := .idle })

/-- Whether the lock still drives or holds a task that has not ended. -/
def isLive (l : IoLock ω) (w : ω) : Bool :=
  let ls := LockWorld.lockState w
  ls.phase != .idle || (l.parked.isSome && !ls.finished)

/-- Starts a new task on the routine `body`, unless the lock is live. -/
def run (l : IoLock ω) (body : Routine ω WaitReason Wake Unit) (w : ω) :
    Except TaskError Unit × IoLock ω × ω :=
  if l.isLive w then (.error .busy, l, w)
  else drive (body (LockWorld.setLockState w { phase := .running }))

/-- Notifies the lock that `reason` may be ready, or that `error` happened. Answers whether the
parked task was resumed. -/
def notify (l : IoLock ω) (reason : WaitReason) (error : Option NetError) (w : ω) :
    Except TaskError Bool × IoLock ω × ω :=
  let (ls, wake) := (LockWorld.lockState w).offer reason error l.parked.isSome
  let w := LockWorld.setLockState w ls
  match wake, l.parked with
  | some wake, some k =>
    let (result, l, w) := drive (k wake w)
    (result.map fun () => true, l, w)
  | _, _ => (.ok false, l, w)

/-- A notification made by the running task itself: it is only recorded. -/
def notifyWithin (reason : WaitReason) (error : Option NetError) (w : ω) : Bool × ω :=
  let (ls, _) := (LockWorld.lockState w).offer reason error false
  (false, LockWorld.setLockState w ls)

end IoLock

end WebSocketCore
