import WebSocketCore.Error

/-! # Sub-tasks

A sub-task drives one task body, a future, each time up to the body's next suspension or its end.
Body and driver meet in a channel: one slot for the code the body suspends with, one for the value
it is resumed with, and a flag that is up while a driver polls the body. A suspension posts its
code on its first poll and is pending; polled again, it completes with the resume value if one was
posted, and is pending otherwise. Polled while no driver is polling, it is pending and posts
nothing.

`run` clears the channel and starts a body on an idle task; `resume` posts a value for a
suspended body. Each then polls the body once with the flag up: a body that completes finishes
the task; one that is pending with a code posted suspends it; one that is pending with no code
posted waited on something else, and finishes the task with `foreignPending`. A finished task
drops its body. A call that is not allowed in the current state fails with a `TaskError` and
changes nothing. `reset` drops the body, clears the channel and makes the task idle again.
-/

namespace WebSocketCore

/-- Where a sub-task is in its life. -/
inductive TaskState where
  | idle
  /-- The body is being polled. -/
  | running
  | suspended
  | finished
  deriving DecidableEq, Repr, Inhabited

/-- The name of a task state. -/
def TaskState.name : TaskState → String
  | .idle => "Idle"
  | .running => "Running"
  | .suspended => "Suspended"
  | .finished => "Finished"

/-- What a run or a resumption of a sub-task ended with. -/
inductive TaskStep (Y : Type) where
  /-- The body suspended with this code. -/
  | yielded (code : Y)
  /-- The body completed. -/
  | finished
  deriving DecidableEq, Repr

/-- Where a body and its driver meet. -/
structure Channel (Y R : Type) where
  /-- The code the body suspended with, not yet taken by the driver. -/
  yielded : Option Y := none
  /-- The value the body is resumed with, not yet taken by the body. -/
  resumed : Option R := none
  /-- A driver is polling the body. -/
  driving : Bool := false
  deriving DecidableEq, Repr

/-- Whether a polled future completed, with its value. -/
inductive Poll (α : Type) where
  | ready (a : α)
  | pending
  deriving DecidableEq, Repr

/-- The future a suspension awaits: it holds its code until it has posted it. -/
structure Suspend (Y : Type) where
  code : Option Y
  deriving DecidableEq, Repr

/-- Polls a suspension: only under a driver, it posts its code on its first poll, and later
completes with the posted resume value, which it takes. -/
def Suspend.poll {Y R : Type} (s : Suspend Y) (ch : Channel Y R) : Poll R × Suspend Y × Channel Y R :=
  if !ch.driving then (.pending, s, ch)
  else match s.code with
    | some code => (.pending, ⟨none⟩, { ch with yielded := some code })
    | none => match ch.resumed with
      | some arg => (.ready arg, s, { ch with resumed := none })
      | none => (.pending, s, ch)

/-- A type of task bodies: futures that, polled with the channel, act on a world `ω` and answer
whether they completed. -/
class Future (β : Type) (Y R ω : outParam Type) where
  poll : β → Channel Y R → ω → Poll Unit × β × Channel Y R × ω

/-- A task that drives one body of type `β` through its channel. -/
structure SubTask (β Y R : Type) where
  channel : Channel Y R := {}
  body : Option β := none
  state : TaskState := .idle

namespace SubTask

variable {β Y R ω : Type} [Future β Y R ω]

/-- An idle task bound to a channel. -/
def new (channel : Channel Y R) : SubTask β Y R := { channel }

/-- Drops the body: the body completed or was abandoned. -/
def finish (t : SubTask β Y R) : SubTask β Y R := { t with body := none, state := .finished }

/-- Polls the held body once with the driving flag up, then settles: a completed body finishes
the task, a pending one with a posted code suspends it, and a pending one without finishes it
with `foreignPending`. -/
def drive (t : SubTask β Y R) (w : ω) : Except TaskError (TaskStep Y) × SubTask β Y R × ω :=
  match t.body with
  | none => (.error .notSuspended, t, w)
  | some body =>
    let t := { t with state := .running, channel := { t.channel with driving := true } }
    let (poll, body, channel, w) := Future.poll body t.channel w
    let t := { t with body := some body, channel := { channel with driving := false } }
    match poll with
    | .ready () => (.ok .finished, t.finish, w)
    | .pending =>
      match t.channel.yielded with
      | some code =>
        (.ok (.yielded code), { t with channel := { t.channel with yielded := none }, state := .suspended }, w)
      | none => (.error .foreignPending, t.finish, w)

/-- Starts a body on an idle task, with the channel cleared. -/
def run (t : SubTask β Y R) (body : β) (w : ω) : Except TaskError (TaskStep Y) × SubTask β Y R × ω :=
  if t.state ≠ .idle then (.error .alreadyStarted, t, w)
  else drive { t with channel := {}, body := some body } w

/-- Resumes a suspended body: the value is posted for its pending suspension. -/
def resume (t : SubTask β Y R) (arg : R) (w : ω) : Except TaskError (TaskStep Y) × SubTask β Y R × ω :=
  match t.state with
  | .suspended => drive { t with channel := { t.channel with resumed := some arg } } w
  | .finished => (.error .finished, t, w)
  | _ => (.error .notSuspended, t, w)

/-- Drops the body, clears the channel and makes the task idle again. -/
def reset (t : SubTask β Y R) : SubTask β Y R := { t with body := none, state := .idle, channel := {} }

end SubTask

end WebSocketCore
