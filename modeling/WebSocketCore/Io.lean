import WebSocketCore.Link
import WebSocketCore.Task.Lock

/-! # The task's view of a connection

A connection's task runs on a `Conn` world: the link, the lock's bookkeeping, and the task's own
state. `Io` is the task's monad: a routine on that world that may fail with a `NetError`.
Reading waits (suspends with `recv`) while the inbound queue is empty, and fails with the link's
error once the queue is empty and an error is recorded; a resumption with an error fails too.
-/

namespace WebSocketCore

/-- The world of a connection's task: the link, the lock's bookkeeping and the task's state. -/
structure Conn (τ σ : Type) where
  link : Link τ
  lock : LockState := {}
  app : σ

/-- A task on a connection waits until the link says its reason is ready. -/
instance {τ σ : Type} [Transport τ] : LockWorld (Conn τ σ) where
  lockState c := c.lock
  setLockState c ls := { c with lock := ls }
  isReady c r := c.link.isReady r

/-- A routine of a connection's task. -/
abbrev IoRoutine (τ σ : Type) := Routine (Conn τ σ) WaitReason Wake

/-- A connection's task step that may fail with a network error. -/
abbrev Io (τ σ : Type) := ExceptT NetError (IoRoutine τ σ)

namespace Io

variable {τ σ α β ρ : Type} [Transport τ]

/-- Fails with the error of a result. -/
def ofExcept (r : Except NetError α) : Io τ σ α := ExceptT.mk (pure r)

/-- Applies `f` to the link and answers its value. -/
def withLink (f : Link τ → α × Link τ) : Io τ σ α :=
  ExceptT.lift fun ⟨link, lock, app⟩ => let (a, link) := f link; .done a ⟨link, lock, app⟩

/-- Applies `f` to the task's own state and answers its value. -/
def withApp (f : σ → α × σ) : Io τ σ α :=
  ExceptT.lift fun ⟨link, lock, app⟩ => let (a, app) := f app; .done a ⟨link, lock, app⟩

/-- Suspends with `reason`; fails if resumed with an error. -/
def suspend (reason : WaitReason) : Io τ σ Unit := ExceptT.mk (Routine.suspend reason)

/-- Arms the link's acknowledgement count, then suspends. -/
def wait (reason : WaitReason) : Io τ σ Unit := do
  withLink fun l => ((), l.arm)
  suspend reason

/-- Runs `body` from `s` again and again while it answers `.inl`, for at most `rounds` rounds;
an error ends the loop. A loop whose every round but the last consumes a byte of a known count
takes that count plus one as its bound, which it never reaches. -/
def loopFor (rounds : Nat) (body : ρ → Io τ σ (ρ ⊕ α)) (s : ρ) : Io τ σ α :=
  ExceptT.mk <| Routine.iterate rounds (fun s => do
    match ← (body s).run with
    | .ok (.inl s') => pure (.inl s')
    | .ok (.inr a) => pure (.inr (.ok a))
    | .error e => pure (.inr (.error e))) s

/-- Runs `body` from `s` again and again while it answers `.inl`; an error ends the loop. -/
def loop (body : ρ → Io τ σ (ρ ⊕ α)) (s : ρ) : Io τ σ α :=
  loopFor Routine.loopBudget body s

/-- One round of `peekWith`: offers the queued bytes to `f` and consumes what it asks for, or
waits for bytes and asks for another round while the queue is empty. -/
def peekRound (f : List UInt8 → Nat × β) (_ : Unit) : Io τ σ (Unit ⊕ (Nat × β)) := do
  let got ← withLink fun l =>
    match l.inboundChunk with
    | .error e => (.error e, l)
    | .ok [] => (.ok none, l)
    | .ok chunk =>
      let (used, out) := f chunk
      let used := (chunk.take used).length
      (.ok (some (used, out)), l.consume used)
  match ← ofExcept got with
  | some r => return .inr r
  | none => do
    suspend .recv
    return .inl ()

/-- Offers the queued bytes to `f`, which answers how many it consumed and a value; waits for
bytes while the queue is empty. Answers the bytes consumed, at most the queued ones, and `f`'s
value. -/
def peekWith (f : List UInt8 → Nat × β) : Io τ σ (Nat × β) :=
  loop (peekRound f) ()

/-- Reads at least one and at most `cap` bytes, waiting for them; none when `cap` is 0. -/
def readSome (cap : Nat) : Io τ σ (List UInt8) := do
  if cap = 0 then return []
  let (_, bytes) ← peekWith fun chunk => let bytes := chunk.take cap; (bytes.length, bytes)
  return bytes

/-- Reads exactly `n` bytes. Every round reads at least one byte, so `n + 1` rounds do. -/
def readExact (n : Nat) : Io τ σ (List UInt8) :=
  loopFor (n + 1) (fun acc => do
    if acc.length ≥ n then return .inr acc
    let more ← readSome (n - acc.length)
    return .inl (acc ++ more)) []

/-- Consumes and drops `n` bytes. Every round consumes at least one byte, so `n + 1` rounds
do. -/
def skip (n : Nat) : Io τ σ Unit :=
  loopFor (n + 1) (fun left => do
    if left = 0 then return .inr ()
    let (used, ()) ← peekWith fun chunk => ((chunk.take left).length, ())
    return .inl (left - used)) n

end Io

end WebSocketCore
