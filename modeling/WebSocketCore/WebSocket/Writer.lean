import WebSocketCore.Io

/-! # Writing through the ring

Writing appends bytes to the ring, suspending whenever the ring blocks, until all are taken.
Pushing seals what was appended and sends it; flushing also waits until every sent byte is
acknowledged.
-/

namespace WebSocketCore

namespace FrameWriter

variable {τ σ : Type} [Transport τ]

/-- Appends all of `bytes`, framed with `framing`, suspending while the ring blocks. -/
def write (framing : Framing) (bytes : List UInt8) : Io τ σ Unit :=
  Io.loop (fun rest => do
    if rest.isEmpty then return .inr ()
    match ← Io.ofExcept (← Io.withLink (·.append framing rest)) with
    | .took n => return .inl (rest.drop n)
    | .blocked reason => do
      Io.suspend reason
      return .inl rest) bytes

/-- Repeats a link operation, suspending on each reason it answers, until it answers none. -/
def untilDone (op : Link τ → Except NetError (Option WaitReason) × Link τ) : Io τ σ Unit :=
  Io.loop (fun () => do
    match ← Io.ofExcept (← Io.withLink op) with
    | some reason => do
      Io.suspend reason
      return .inl ()
    | none => return .inr ()) ()

/-- Seals and sends what was appended. -/
def push : Io τ σ Unit := untilDone Link.push

/-- Seals and sends what was appended and waits until all of it is acknowledged. -/
def flush : Io τ σ Unit := untilDone Link.flush

end FrameWriter

end WebSocketCore
