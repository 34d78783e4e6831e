import WebSocketCore.Task.SubTask

/-! # Scripted sub-tasks

A task script is a list of steps: await a suspension with a code and note the value it completes
with, or wait on something that is no suspension of the task (a foreign wait). A script notes
when it ends. As a future, a script is polled step after step within one poll, until a step is
pending or the script ends. Several numbered scripts are played through one sub-task by a list of
commands (run a script, resume, reset); each command is reported with its answer, the task's
state after it and the notes it added.
-/

namespace WebSocketCore

/-- One step of a task script. -/
inductive TaskScriptStep where
  /-- Await a suspension with this code. -/
  | yield (code : Nat)
  /-- Wait on something that is no suspension of the task. -/
  | stall
  deriving DecidableEq, Repr, Inhabited

/-- What a scripted task notes. -/
inductive TaskNote where
  /-- Script `body` was resumed with `arg`. -/
  | got (body arg : Nat)
  /-- Script `body` ended. -/
  | done (body : Nat)
  deriving DecidableEq, Repr, Inhabited

/-- Script number `script` as a future: the suspension it awaits, if it is at one, and the steps
after it. -/
structure ScriptBody where
  script : Nat
  awaiting : Option (Suspend Nat) := none
  rest : List TaskScriptStep
  deriving DecidableEq, Repr

namespace ScriptBody

/-- Runs the steps of script `k` within one poll: a suspension is created and polled, a foreign
wait is pending, and the end is noted and completes the body. -/
def steps (k : Nat) : List TaskScriptStep → Channel Nat Nat → List TaskNote →
    Poll Unit × ScriptBody × Channel Nat Nat × List TaskNote
  | [], ch, log => (.ready (), ⟨k, none, []⟩, ch, log ++ [.done k])
  | .yield c :: rest, ch, log =>
    match (Suspend.mk (some c)).poll ch with
    | (.ready arg, _, ch) => steps k rest ch (log ++ [.got k arg])
    | (.pending, s, ch) => (.pending, ⟨k, some s, rest⟩, ch, log)
  | .stall :: rest, ch, log => (.pending, ⟨k, none, .stall :: rest⟩, ch, log)

/-- Polls the body: the awaited suspension first, then the steps after it. -/
def poll (b : ScriptBody) (ch : Channel Nat Nat) (log : List TaskNote) :
    Poll Unit × ScriptBody × Channel Nat Nat × List TaskNote :=
  match b.awaiting with
  | none => steps b.script b.rest ch log
  | some s =>
    match s.poll ch with
    | (.ready arg, _, ch) => steps b.script b.rest ch (log ++ [.got b.script arg])
    | (.pending, s, ch) => (.pending, { b with awaiting := some s }, ch, log)

instance : Future ScriptBody Nat Nat (List TaskNote) where
  poll := poll

end ScriptBody

/-- A command to the sub-task. -/
inductive TaskCommand where
  | run (body : Nat)
  | resume (arg : Nat)
  | reset
  deriving DecidableEq, Repr, Inhabited

/-- A command's answer, the task's state after it, and the notes it added. -/
structure TaskReport where
  reply : Option (Except TaskError (TaskStep Nat))
  state : TaskState
  notes : List TaskNote

/-- Plays one command against the sub-task with the numbered scripts `bodies`: its answer (none
for a reset), the task after it and the notes after it. -/
def TaskCommand.play (bodies : List (List TaskScriptStep)) (t : SubTask ScriptBody Nat Nat)
    (log : List TaskNote) : TaskCommand →
    Option (Except TaskError (TaskStep Nat)) × SubTask ScriptBody Nat Nat × List TaskNote
  | .run k => let (r, t, l) := t.run ⟨k, none, bodies.getD k []⟩ log; (some r, t, l)
  | .resume arg => let (r, t, l) := t.resume arg log; (some r, t, l)
  | .reset => (none, t.reset, log)

/-- Plays the commands against one sub-task with the numbered scripts `bodies`. -/
def TaskCommand.replay (bodies : List (List TaskScriptStep)) :
    SubTask ScriptBody Nat Nat → List TaskNote → List TaskCommand → List TaskReport
  | _, _, [] => []
  | t, log, c :: cs =>
    let (reply, t', log') := TaskCommand.play bodies t log c
    ⟨reply, t'.state, log'.drop log.length⟩ :: TaskCommand.replay bodies t' log' cs

end WebSocketCore
