import Mathlib
import WebSocketCore.Simulation.TaskScript

/-! # Scripted sub-tasks are coroutines

A scripted body suspends with codes, notes each value it is resumed with, and may stop on a
foreign wait. Read as a coroutine, it is in one of three places: idle, suspended in script `k`
with the rest of the script still to run, or finished. A call on the coroutine is allowed by its
place alone: `run` starts a script from idle, `resume` delivers its value to the script that is
suspended, which notes it and runs on to its next step, and `reset` forgets the script without
running any of it. A call that is not allowed answers its error and changes nothing.

A sub-task reaches the same places through its channel. Between calls the channel is clear: the
driver took the code the body posted, and the body took the value it was resumed with, so no
stale code or value is left for a later suspension or a later body. A suspended body awaits the
suspension that posted its code, and a resumption posts the value that this suspension takes on
the next poll.

Main statement (`subTask_refines_coroutine`): a sub-task is this coroutine. Each coroutine place
is a sub-task (`realize`), every command on it answers and moves as the coroutine does, with the
same notes, and so every run of commands from a new sub-task, on any channel, reports what the
coroutine reports.
-/

namespace WebSocketCore

/-- Where a scripted coroutine is. -/
inductive Coroutine where
  | idle
  /-- Script `body` is suspended with `rest` still to run. -/
  | suspended (body : Nat) (rest : List TaskScriptStep)
  | finished
  deriving DecidableEq, Repr

namespace Coroutine

/-- The sub-task state of each place. -/
def state : Coroutine → TaskState
  | idle => .idle
  | suspended _ _ => .suspended
  | finished => .finished

/-- Runs script `k` from one of its steps up to its next suspension, its end (which it notes) or
a foreign wait. -/
def advance (k : Nat) :
    List TaskScriptStep → List TaskNote → Except TaskError (TaskStep Nat) × Coroutine × List TaskNote
  | [], log => (.ok .finished, finished, log ++ [.done k])
  | .yield c :: rest, log => (.ok (.yielded c), suspended k rest, log)
  | .stall :: _, log => (.error .foreignPending, finished, log)

/-- One call on the coroutine with the numbered scripts `bodies`. -/
def exec (bodies : List (List TaskScriptStep)) :
    Coroutine → List TaskNote → TaskCommand →
      Option (Except TaskError (TaskStep Nat)) × Coroutine × List TaskNote
  | idle, log, .run k => Prod.map some id (advance k (bodies.getD k []) log)
  | suspended k rest, log, .run _ => (some (.error .alreadyStarted), suspended k rest, log)
  | finished, log, .run _ => (some (.error .alreadyStarted), finished, log)
  | suspended k rest, log, .resume arg => Prod.map some id (advance k rest (log ++ [.got k arg]))
  | finished, log, .resume _ => (some (.error .finished), finished, log)
  | idle, log, .resume _ => (some (.error .notSuspended), idle, log)
  | _, log, .reset => (none, idle, log)

/-- Plays the commands on the coroutine, reporting as `TaskCommand.replay` does. -/
def replay (bodies : List (List TaskScriptStep)) :
    Coroutine → List TaskNote → List TaskCommand → List TaskReport
  | _, _, [] => []
  | a, log, c :: cs =>
    let (reply, a', log') := a.exec bodies log c
    ⟨reply, a'.state, log'.drop log.length⟩ :: replay bodies a' log' cs

/-- The sub-task at each place: a suspended script awaits the suspension that posted its code,
and the channel is clear. -/
def realize : Coroutine → SubTask ScriptBody Nat Nat
  | idle => {}
  | suspended k rest => { body := some ⟨k, some ⟨none⟩, rest⟩, state := .suspended }
  | finished => { state := .finished }

@[simp]
theorem state_realize (a : Coroutine) : (realize a).state = a.state := by
  cases a <;> rfl

end Coroutine

namespace ScriptBody

open Coroutine

@[simp] theorem future_poll (b : ScriptBody) (ch : Channel Nat Nat) (log : List TaskNote) :
    Future.poll b ch log = b.poll ch log := rfl

/-- A started body runs its script from the first step. -/
theorem poll_start (k : Nat) (script : List TaskScriptStep) (log : List TaskNote) :
    (⟨k, none, script⟩ : ScriptBody).poll { driving := true } log =
      steps k script { driving := true } log := rfl

/-- A body awaiting the suspension that posted its code takes the posted value, notes it and runs
the steps after it. -/
theorem poll_resumed (k arg : Nat) (rest : List TaskScriptStep) (log : List TaskNote) :
    (⟨k, some ⟨none⟩, rest⟩ : ScriptBody).poll { resumed := some arg, driving := true } log =
      steps k rest { driving := true } (log ++ [.got k arg]) := rfl

/-- Polled under a driver, a body whose poll runs a script's steps on a clear channel settles
where the coroutine's next step takes it: the code a suspension posts is taken by the driver,
and nothing else is left in the channel. -/
theorem drive_steps {t : SubTask ScriptBody Nat Nat} {b : ScriptBody} (held : t.body = some b)
    (log : List TaskNote) {k : Nat} {script : List TaskScriptStep} {log' : List TaskNote}
    (polled : b.poll { t.channel with driving := true } log = steps k script { driving := true } log') :
    t.drive log = Prod.map id (Prod.map realize id) (advance k script log') := by
  simp only [SubTask.drive, held, future_poll, polled]
  -- one case per kind of first step: the end, a suspension, a foreign wait
  cases script with
  | nil => rfl
  | cons step rest => cases step <;> rfl

end ScriptBody

namespace SubTask

/-- Running a body on a new task clears the channel it was bound to. -/
theorem run_new (ch : Channel Nat Nat) (body : ScriptBody) (log : List TaskNote) :
    (SubTask.new ch : SubTask ScriptBody Nat Nat).run body log =
      ({} : SubTask ScriptBody Nat Nat).run body log := rfl

end SubTask

namespace TaskCommand

open Coroutine

/-- One command on the sub-task of a place answers and moves as the coroutine does. -/
theorem play_realize (bodies : List (List TaskScriptStep)) (a : Coroutine) (log : List TaskNote)
    (c : TaskCommand) :
    play bodies (realize a) log c = Prod.map id (Prod.map realize id) (a.exec bodies log c) := by
  cases c with
  | run k =>
    cases a with
    | idle =>
      -- the run clears the channel and polls the script from its first step
      have settled := ScriptBody.drive_steps (t := { body := some ⟨k, none, bodies.getD k []⟩ })
        rfl log (ScriptBody.poll_start k (bodies.getD k []) log)
      have started : (realize .idle).run ⟨k, none, bodies.getD k []⟩ log =
          ({ body := some ⟨k, none, bodies.getD k []⟩ } : SubTask ScriptBody Nat Nat).drive log := rfl
      simp only [play, exec, started, settled]
      rfl
    | suspended j rest => rfl
    | finished => rfl
  | resume arg =>
    cases a with
    | idle => rfl
    | suspended j rest =>
      -- the value is posted, and the awaited suspension takes it on the poll
      have settled := ScriptBody.drive_steps
        (t := { body := some ⟨j, some ⟨none⟩, rest⟩, state := .suspended,
                channel := { resumed := some arg } })
        rfl log (ScriptBody.poll_resumed j arg rest log)
      have resumed : (realize (.suspended j rest)).resume arg log =
          ({ body := some ⟨j, some ⟨none⟩, rest⟩, state := .suspended,
             channel := { resumed := some arg } } : SubTask ScriptBody Nat Nat).drive log := rfl
      simp only [play, exec, resumed, settled]
      rfl
    | finished => rfl
  | reset => cases a <;> rfl

/-- A run of commands on the sub-task of a place reports what the coroutine reports. -/
theorem replay_realize (bodies : List (List TaskScriptStep)) (a : Coroutine) (log : List TaskNote)
    (cmds : List TaskCommand) : replay bodies (realize a) log cmds = Coroutine.replay bodies a log cmds := by
  -- induction on the commands; each one is a step of `play_realize`
  induction cmds generalizing a log with
  | nil => rfl
  | cons c cs ih =>
    simp only [replay, Coroutine.replay, play_realize, Prod.map, id, state_realize, ih]

/-- A new task on any channel plays as a new task on a clear one: a refused resumption keeps it,
and a run or a reset clears the channel. The induction is on the commands. -/
theorem replay_new (bodies : List (List TaskScriptStep)) (ch : Channel Nat Nat) (log : List TaskNote)
    (cmds : List TaskCommand) : replay bodies (SubTask.new ch) log cmds = replay bodies {} log cmds := by
  induction cmds generalizing log with
  | nil => rfl
  | cons c cs ih =>
    cases c with
    | run k => simp only [replay, play, SubTask.run_new]
    | resume arg =>
      have refused : (SubTask.new ch : SubTask ScriptBody Nat Nat).resume arg log =
          (.error .notSuspended, SubTask.new ch, log) := rfl
      simp only [replay, play, refused]
      rw [ih]
      rfl
    | reset => rfl

end TaskCommand

/-- A sub-task driving scripted bodies through its channel is the scripted coroutine. -/
theorem subTask_refines_coroutine (bodies : List (List TaskScriptStep)) :
    (∀ (a : Coroutine) (log : List TaskNote) (c : TaskCommand),
      TaskCommand.play bodies (Coroutine.realize a) log c =
        Prod.map id (Prod.map Coroutine.realize id) (a.exec bodies log c)) ∧
    (∀ (ch : Channel Nat Nat) (log : List TaskNote) (cmds : List TaskCommand),
      TaskCommand.replay bodies (SubTask.new ch) log cmds = Coroutine.replay bodies .idle log cmds) :=
  ⟨TaskCommand.play_realize bodies, fun ch log cmds =>
    (TaskCommand.replay_new bodies ch log cmds).trans (TaskCommand.replay_realize bodies .idle log cmds)⟩

example :
    (TaskCommand.replay [[.yield 1, .stall], [.yield 2]] {} []
      [.run 0, .reset, .resume 7, .run 1, .resume 5]).map TaskReport.notes =
      [[], [], [], [], [.got 1 5, .done 1]] := by
  decide

end WebSocketCore
