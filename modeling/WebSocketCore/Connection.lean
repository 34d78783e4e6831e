import WebSocketCore.Io

/-! # Connections

A connection drives one task on a link through an I/O lock. Each transport callback changes the
link and then wakes the task: it notifies the lock of the callback's error, if any, for the first
reason in priority order (`recv`, `flush`, `sendBuf`, `ack`), and of every reason that is ready,
in that order. Consumed inbound bytes are reported to the transport once, after the task has run.
-/

namespace WebSocketCore

/-- A task on a link, driven through a lock. -/
structure Connection (τ σ : Type) where
  lock : IoLock (Conn τ σ) := {}
  world : Conn τ σ

namespace Connection

variable {τ σ : Type} [Transport τ]

/-- Applies `f` to the link. -/
def mapLink (c : Connection τ σ) (f : Link τ → Link τ) : Connection τ σ :=
  match c with
  | ⟨lock, ⟨link, ls, app⟩⟩ => ⟨lock, ⟨f link, ls, app⟩⟩

/-- Starts the task on `body`, then reports the consumed bytes. -/
def start (c : Connection τ σ) (body : IoRoutine τ σ Unit) : Except TaskError Unit × Connection τ σ :=
  let (r, lock, world) := c.lock.run body c.world
  (r, (⟨lock, world⟩ : Connection τ σ).mapLink Link.settle)

/-- Notifies the lock, from `reasons` on: of `error` for the first reason, and of every reason
whose readiness holds when its turn comes. -/
def wakeFrom (c : Connection τ σ) (error : Option NetError) : List WaitReason → Connection τ σ
  | [] => c
  | r :: rs =>
    if error.isNone && !c.world.link.isReady r then c.wakeFrom none rs
    else
      let (_, lock, world) := c.lock.notify r error c.world
      (⟨lock, world⟩ : Connection τ σ).wakeFrom none rs

/-- Wakes the task after a callback, then reports the consumed bytes. -/
def wake (c : Connection τ σ) (error : Option NetError) : Connection τ σ :=
  (c.wakeFrom error WaitReason.priority).mapLink Link.settle

/-- Bytes arrived; answers how many the inbound queue took. -/
def onRecv (c : Connection τ σ) (bytes : List UInt8) : Connection τ σ × Nat :=
  let (link, taken) := c.world.link.onRecv bytes
  ((c.mapLink fun _ => link).wake none, taken)

/-- The peer closed the connection. -/
def onClosed (c : Connection τ σ) : Connection τ σ :=
  (c.mapLink Link.onClosed).wake (some .connectionClosed)

/-- The peer acknowledged `len` bytes. -/
def onSent (c : Connection τ σ) (len : Nat) : Connection τ σ :=
  (c.mapLink (·.onSent len)).wake none

/-- A poll tick, which may time the connection out. -/
def onPoll (c : Connection τ σ) : Connection τ σ :=
  let (link, timeout) := c.world.link.onPoll
  (c.mapLink fun _ => link).wake timeout

/-- The transport failed. -/
def onError (c : Connection τ σ) (e : NetError) : Connection τ σ :=
  (c.mapLink (·.onError e)).wake (some e)

/-- The reason the parked task waits for. -/
def waiting (c : Connection τ σ) : WaitReason := c.world.lock.waiting

/-- Whether the lock is driving the task. -/
def phase (c : Connection τ σ) : Phase := c.world.lock.phase

/-- Whether the task has ended. -/
def isFinished (c : Connection τ σ) : Bool := c.world.lock.finished

end Connection

end WebSocketCore
