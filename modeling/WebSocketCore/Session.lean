import WebSocketCore.Connection
import WebSocketCore.Http.Handshake
import WebSocketCore.Http.Response
import WebSocketCore.WebSocket.Service

/-! # Sessions

A session reads the request head. A request that asks for an upgrade with a key is answered
with the `101` head and handed to the service; any other request is answered with the page and
its `200` head. Either way the session then closes the link.

The `101` head carries the key's accept value, base64 of the SHA-1 digest of the key and
`Response.websocketGuid`, which two libraries compute; a session takes that computation as its
parameter `accept` (`Response.acceptKey` is one).
-/

namespace WebSocketCore

namespace Session

variable {τ σ : Type} [Transport τ]

/-- Answers a request head: the page, or the upgrade and the service. -/
def answer (accept : List UInt8 → List UInt8) (config : Config) (page : List UInt8)
    (service : Service τ σ) (request : Request) : Io τ σ Unit :=
  match request.websocketKey with
  | none => do
    let head ← Io.ofExcept (Response.pageHead page.length)
    FrameWriter.write .raw head
    FrameWriter.write .raw page
    FrameWriter.flush
  | some key => do
    let head ← Io.ofExcept (Response.switchingProtocols (accept key) config.protocol)
    FrameWriter.write .raw head
    FrameWriter.push
    let ws := WebSocket.ofConfig config
    service ws
    ws.flush

/-- Reads one request head and answers it. -/
def serve (accept : List UInt8 → List UInt8) (config : Config) (page : List UInt8)
    (service : Service τ σ) : Io τ σ Unit := do
  answer accept config page service (← Handshake.parse)

/-- Serves one request, then closes the link. -/
def run (accept : List UInt8 → List UInt8) (config : Config) (page : List UInt8)
    (service : Service τ σ) : IoRoutine τ σ Unit := do
  let _ ← (serve accept config page service).run
  modify fun (w : Conn τ σ) => { w with link := w.link.close.2 }

end Session

end WebSocketCore
