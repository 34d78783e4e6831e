import WebSocketCore.Task.Lock

/-! # Scripted lock runs

A gate is the simplest world for a lock: a set of ready reasons, the lock's bookkeeping and a
list of notes. Task scripts suspend on reasons, notify the lock from inside, change the ready
set, note the lock's phase, or stall. A list of commands (run a script, notify, change the
ready set) is played against the lock; each is reported with its answer, the lock's waiting
reason, phase and end flag after it, and the notes it added.
-/

namespace WebSocketCore

/-- What a scripted lock task notes. -/
inductive LockNote where
  /-- Script `body` was woken with `wake`. -/
  | woke (body : Nat) (wake : Wake)
  /-- Script `body` notified the lock, which answered `resumed`, leaving the phase `phase`. -/
  | notified (body : Nat) (resumed : Bool) (phase : Phase)
  /-- Script `body` saw the lock in `phase`, waiting for `waiting`. -/
  | sawPhase (body : Nat) (phase : Phase) (waiting : WaitReason)
  /-- Script `body` ended. -/
  | done (body : Nat)
  deriving Inhabited

/-- A world of ready reasons for a lock. -/
structure Gate where
  lock : LockState := {}
  ready : List WaitReason
  notes : List LockNote := []
  deriving Inhabited

/-- A reason is ready when it is in the set; `ended` never is. -/
instance : LockWorld Gate where
  lockState g := g.lock
  setLockState g ls := { g with lock := ls }
  isReady g r := r != .ended && g.ready.contains r

/-- One step of a lock task script. -/
inductive LockScriptStep where
  | suspend (reason : WaitReason)
  | notify (reason : WaitReason) (error : Option NetError)
  | setReady (reasons : List WaitReason)
  | notePhase
  | stall
  deriving DecidableEq, Repr, Inhabited

/-- Adds a note to the gate. -/
def Gate.note (g : Gate) (n : LockNote) : Gate := { g with notes := g.notes ++ [n] }

/-- The routine of script number `k`. -/
def LockScriptStep.routine (k : Nat) : List LockScriptStep → Routine Gate WaitReason Wake Unit
  | [] => modify (·.note (.done k))
  | .suspend r :: rest => do
    let wake ← Routine.suspend r
    modify (·.note (.woke k wake))
    LockScriptStep.routine k rest
  | .notify r e :: rest => do
    modify fun g =>
      let (resumed, g) := IoLock.notifyWithin r e g
      g.note (.notified k resumed g.lock.phase)
    LockScriptStep.routine k rest
  | .setReady rs :: rest => do
    modify fun g => { g with ready := rs }
    LockScriptStep.routine k rest
  | .notePhase :: rest => do
    modify fun g => g.note (.sawPhase k g.lock.phase g.lock.waiting)
    LockScriptStep.routine k rest
  | .stall :: _ => Routine.stall

/-- A command to the lock. -/
inductive LockCommand where
  | run (body : Nat)
  | notify (reason : WaitReason) (error : Option NetError)
  | setReady (reasons : List WaitReason)
  deriving DecidableEq, Repr, Inhabited

/-- What a lock command answered. -/
inductive LockReply where
  | started (result : Except TaskError Unit)
  | notified (result : Except TaskError Bool)
  | done

/-- A command's answer, the lock's waiting reason, phase and end flag after it, and the notes it
added. -/
structure LockReport where
  reply : LockReply
  waiting : WaitReason
  phase : Phase
  finished : Bool
  notes : List LockNote

/-- Plays the commands against a lock with the numbered scripts `bodies`. -/
def LockCommand.replay (bodies : List (List LockScriptStep)) :
    IoLock Gate → Gate → List LockCommand → List LockReport
  | _, _, [] => []
  | l, g, c :: cs =>
    let (reply, l', g') := match c with
      | .run k =>
        let (r, l, g) := l.run (LockScriptStep.routine k (bodies.getD k [])) g
        (LockReply.started r, l, g)
      | .notify r e =>
        let (res, l, g) := l.notify r e g
        (.notified res, l, g)
      | .setReady rs => (.done, l, { g with ready := rs })
    ⟨reply, g'.lock.waiting, g'.lock.phase, g'.lock.finished, g'.notes.drop g.notes.length⟩ ::
      LockCommand.replay bodies l' g' cs

end WebSocketCore
