import WebSocketCore.WebSocket.Service

/-! # Services for simulated sessions

Besides echo, a simulated session can run a service that answers each message with its length
in decimal, one that writes a burst of bytes and flushes, or a scripted service. A script reads,
writes, pushes, flushes, echoes for ever, or fails, and notes what it did in the task's state;
a failing operation is noted before its error ends the service.
-/

namespace WebSocketCore

/-- The operations a scripted service notes failures of. -/
inductive ServiceOp where
  | read
  | write
  | push
  | flush
  deriving DecidableEq, Repr, Inhabited

/-- What a scripted service notes. -/
inductive ServiceNote where
  /-- A read of `n` bytes `data`, with the reader's opcode, final flag and remaining count
  after it, and whether the message ended. -/
  | read (n : Nat) (data : List UInt8) (opcode : Option Opcode) (fin : Bool) (remaining : Nat)
      (messageEnd : Bool)
  | wrote (n : Nat)
  | pushed
  | flushed
  | failed (op : ServiceOp) (e : NetError)
  | serviceDone
  deriving DecidableEq, Repr, Inhabited

/-- One step of a scripted service. -/
inductive ServiceStep where
  | read (cap : Nat)
  | write (bytes : List UInt8)
  | push
  | flush
  /-- Echo for ever, reading `cap` bytes at a time. -/
  | echo (cap : Nat)
  | fail (e : NetError)
  deriving DecidableEq, Repr, Inhabited

/-- The services a simulated session can run. -/
inductive ServiceSpec where
  | echo
  | lengths
  | burst (bytes : List UInt8)
  | script (steps : List ServiceStep)
  deriving DecidableEq, Repr, Inhabited

namespace ServiceSpec

variable {τ : Type} [Transport τ]

/-- Notes in the task's state. -/
def note (n : ServiceNote) : Io τ (Array ServiceNote) Unit :=
  Io.withApp fun notes => ((), notes.push n)

/-- Runs an operation, noting its failure before passing the failure on. -/
def noting {α : Type} (op : ServiceOp) (act : Io τ (Array ServiceNote) α) : Io τ (Array ServiceNote) α :=
  tryCatch act fun e => do
    note (.failed op e)
    throw e

/-- Reads up to `cap` bytes and notes the read. -/
def readNoted (ws : WebSocket) (cap : Nat) : Io τ (Array ServiceNote) (List UInt8 × WebSocket) := do
  let (data, ws) ← noting .read (ws.read cap)
  note (.read data.length data ws.reader.opcode ws.reader.fin ws.reader.remaining ws.isMessageEnd)
  return (data, ws)

/-- The scripted service, from its remaining steps. -/
def scripted : List ServiceStep → Service τ (Array ServiceNote)
  | [], _ => note .serviceDone
  | .read cap :: rest, ws => do
    let (_, ws) ← readNoted ws cap
    scripted rest ws
  | .write bytes :: rest, ws => do
    noting .write (ws.write bytes)
    note (.wrote bytes.length)
    scripted rest ws
  | .push :: rest, ws => do
    noting .push ws.push
    note .pushed
    scripted rest ws
  | .flush :: rest, ws => do
    noting .flush ws.flush
    note .flushed
    scripted rest ws
  | .echo cap :: _, ws =>
    Io.loop (fun ws => do
      let (data, ws) ← readNoted ws cap
      noting .write (ws.write data)
      if ws.isMessageEnd then noting .push ws.push
      return .inl ws) ws
  | .fail e :: _, _ => throw e

/-- Answers each message with its length in decimal, reading 16 bytes at a time. -/
def messageLengths : Service τ (Array ServiceNote) := fun ws =>
  Io.loop (fun (ws, total) => do
    let (data, ws) ← ws.read 16
    let total := total + data.length
    if ws.isMessageEnd then
      ws.write (toString total).toUTF8.toList
      ws.push
      return .inl (ws, 0)
    else return .inl (ws, total)) (ws, 0)

/-- The service a specification names. -/
def service : ServiceSpec → Service τ (Array ServiceNote)
  | .echo => Service.echo
  | .lengths => messageLengths
  | .burst bytes => fun ws => do
    ws.write bytes
    ws.flush
  | .script steps => scripted steps

end ServiceSpec

end WebSocketCore
