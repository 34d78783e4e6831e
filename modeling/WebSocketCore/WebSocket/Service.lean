import WebSocketCore.WebSocket.Reader
import WebSocketCore.WebSocket.Writer
import WebSocketCore.Config

/-! # WebSockets and services

After the upgrade, a service talks to the client through a `WebSocket`: it reads message
payloads, writes bytes that go out as frames of the configured opcode, and pushes or flushes
them. The echo service sends every message back as it reads it.
-/

namespace WebSocketCore

/-- An upgraded connection as a service sees it: the reader's state and the outgoing framing. -/
structure WebSocket where
  reader : FrameReader := {}
  framing : Framing
  deriving DecidableEq, Repr, Inhabited

namespace WebSocket

variable {τ σ : Type} [Transport τ]

/-- A fresh socket for a configuration. -/
def ofConfig (config : Config) : WebSocket := { framing := config.framing }

/-- Reads up to `cap` payload bytes. -/
def read (ws : WebSocket) (cap : Nat) : Io τ σ (List UInt8 × WebSocket) := do
  let (data, reader) ← ws.reader.read cap
  return (data, { ws with reader })

/-- Writes bytes as payload. -/
def write (ws : WebSocket) (bytes : List UInt8) : Io τ σ Unit := FrameWriter.write ws.framing bytes

/-- Sends what was written. -/
def push (_ : WebSocket) : Io τ σ Unit := FrameWriter.push

/-- Sends what was written and waits for its acknowledgement. -/
def flush (_ : WebSocket) : Io τ σ Unit := FrameWriter.flush

/-- The current message has been read to its end. -/
def isMessageEnd (ws : WebSocket) : Bool := ws.reader.remaining = 0 && ws.reader.fin

end WebSocket

/-- A service serves an upgraded connection until it returns or fails. -/
abbrev Service (τ σ : Type) := WebSocket → Io τ σ Unit

/-- How many bytes the echo service reads at a time. -/
def echoChunk : Nat := 128

/-- Sends each message back as it arrives, a read at a time, pushing at each message's end. -/
def Service.echo {τ σ : Type} [Transport τ] : Service τ σ :=
  Io.loop fun ws => do
    let (data, ws) ← ws.read echoChunk
    ws.write data
    if ws.isMessageEnd then ws.push
    return .inl ws

end WebSocketCore
