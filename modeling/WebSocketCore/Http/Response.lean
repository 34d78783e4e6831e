import WebSocketCore.Error
import WebSocketCore.Digest.Sha1
import WebSocketCore.Digest.Base64

/-! # Response heads

The server answers an upgrade request with a `101 Switching Protocols` head that carries the
accept value of the client's key, and any other request with a `200 OK` head for an HTML page.
Heads are built in a buffer of 256 bytes: a head that would not fit is refused with
`bufferFull`.
-/

namespace WebSocketCore.Response

/-- The largest head a response may have. -/
def maxHeadLen : Nat := 256

/-- The fixed string that the opening handshake appends to the client's key. -/
def websocketGuid : List UInt8 := "258EAFA5-E914-47DA-95CA-C5AB0DC85B11".toUTF8.toList

/-- The bytes of an ASCII text. -/
def ascii (s : String) : List UInt8 := s.toUTF8.toList

/-- The accept value of a key: base64 of the SHA-1 digest of the key and the fixed string. -/
def acceptKey (key : List UInt8) : List UInt8 :=
  Base64.encode (Sha1.digest (key ++ websocketGuid))

/-- Keeps a head that fits in the head buffer. -/
def fitHead (head : List UInt8) : Except NetError (List UInt8) :=
  if head.length ≤ maxHeadLen then .ok head else .error .bufferFull

/-- The `101` head that accepts an upgrade, naming the subprotocol if there is one. -/
def switchingProtocols (accept : List UInt8) (protocol : Option String) : Except NetError (List UInt8) :=
  fitHead <|
    ascii "HTTP/1.1 101 Switching Protocols\r\n" ++ ascii "Upgrade: websocket\r\n" ++
    ascii "Connection: Upgrade\r\n" ++ ascii "Sec-WebSocket-Accept: " ++ accept ++ ascii "\r\n" ++
    (match protocol with
      | some p => ascii "Sec-WebSocket-Protocol: " ++ ascii p ++ ascii "\r\n"
      | none => []) ++
    ascii "\r\n"

/-- The `200` head of an HTML page of `len` bytes, after which the server closes. -/
def pageHead (len : Nat) : Except NetError (List UInt8) :=
  fitHead <|
    ascii "HTTP/1.1 200 OK\r\nContent-Type: text/html\r\nContent-Length: " ++ ascii (toString len) ++
    ascii "\r\nConnection: close\r\n\r\n"

end WebSocketCore.Response
