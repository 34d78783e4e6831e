import WebSocketCore.Io
import WebSocketCore.Http.Selector

/-! # Reading the opening handshake

The request head is read as it streams in, without buffering it. The request line is skipped;
then each header line is matched, ASCII-case-insensitively, against `Sec-WebSocket-Key:` and
`Upgrade:`. After `Sec-WebSocket-Key:` and blanks, the next 24 bytes are the key, taken raw; after
`Upgrade:` and blanks, a value that starts with `websocket` asks for an upgrade. The rest of every
line is skipped. The head ends at the second line feed of a run of line ends (carriage returns
between them are ignored).

A failure reports the stage at which the head was being read.
-/

namespace WebSocketCore

/-- Where the reader of a request head is. -/
inductive HandshakeStage where
  | requestLine
  | separators
  | headerName
  | upgradeValue
  | keyValue
  | done
  deriving DecidableEq, Repr, Inhabited

/-- The name of a stage. -/
def HandshakeStage.name : HandshakeStage → String
  | .requestLine => "RequestLine"
  | .separators => "Separators"
  | .headerName => "HeaderName"
  | .upgradeValue => "UpgradeValue"
  | .keyValue => "KeyValue"
  | .done => "Done"

/-- What a request head asked for. -/
structure Request where
  upgrade : Bool := false
  /-- The raw key bytes, if a key header was seen. -/
  key : Option (List UInt8) := none
  deriving DecidableEq, Repr, Inhabited

/-- The key, when the request asks for an upgrade. -/
def Request.websocketKey (r : Request) : Option (List UInt8) :=
  if r.upgrade then r.key else none

namespace Handshake

/-- The bytes of an ASCII text. -/
def ascii (s : String) : List UInt8 := s.toUTF8.toList

/-- The header names the reader looks for. -/
def fieldNames : List (List UInt8) := [ascii "Sec-WebSocket-Key:", ascii "Upgrade:"]

/-- The upgrade value the reader looks for. -/
def upgradeToken : List (List UInt8) := [ascii "websocket"]

/-- The length of a key. -/
def keyLen : Nat := 24

/-- Whether a byte ends a line. -/
def isLineEnd (b : UInt8) : Bool := b == 13 || b == 10

/-- Whether a byte is a blank inside a line. -/
def isBlank (b : UInt8) : Bool := b == 32 || b == 9

/-- Scans line ends: answers the bytes consumed, the line feeds counted (starting from
`feeds`), and whether another byte follows. Scanning stops after the second line feed or before
a byte that is no line end. -/
def scanSeparators (feeds : Nat) : List UInt8 → Nat × Nat × Bool
  | [] => (0, feeds, false)
  | b :: rest =>
    if b == 10 then
      if feeds + 1 = 2 then (1, 2, false)
      else let (n, f, more) := scanSeparators (feeds + 1) rest; (n + 1, f, more)
    else if b == 13 then let (n, f, more) := scanSeparators feeds rest; (n + 1, f, more)
    else (0, feeds, true)

variable {τ σ : Type} [Transport τ]

/-- Consumes bytes up to, and not including, the next byte that `stop` holds of. -/
def skipUntil (stop : UInt8 → Bool) : Io τ σ Unit :=
  Io.loop (fun () => do
    let (_, found) ← Io.peekWith fun chunk =>
      match chunk.findIdx? stop with
      | some i => (i, true)
      | none => (chunk.length, false)
    return if found then .inr () else .inl ()) ()

/-- Consumes bytes up to, and not including, the next line end. -/
def drainLine : Io τ σ Unit := skipUntil isLineEnd

/-- Consumes blanks. -/
def skipBlanks : Io τ σ Unit := skipUntil fun b => !isBlank b

/-- Consumes a run of line ends: true if it holds a second line feed, which ends the head;
false if a header line follows. -/
def eatSeparators : Io τ σ Bool :=
  Io.loop (fun feeds => do
    let (_, feeds, more) ← Io.peekWith fun chunk =>
      let (n, f, more) := scanSeparators feeds chunk
      (n, f, more)
    if feeds = 2 then return .inr true
    else if more then return .inr false
    else return .inl feeds) 0

/-- Feeds the stream to a fresh case-folding selector over `candidates` until it decides. -/
def select (candidates : List (List UInt8)) : Io τ σ Selection :=
  Io.loop (fun sel => do
    let (_, outcome, sel) ← Io.peekWith fun chunk =>
      let (outcome, used, sel) := sel.feed chunk
      (used, outcome, sel)
    return if outcome = .pending then .inl sel else .inr outcome)
    ({ candidates, foldCase := true } : Selector)

/-- Reads the part of the head that belongs to a stage; answers the next stage. -/
def step (stage : HandshakeStage) (req : Request) : Io τ σ (HandshakeStage × Request) :=
  match stage with
  | .requestLine => do
    drainLine
    return (.separators, req)
  | .separators => do
    return (if ← eatSeparators then .done else .headerName, req)
  | .headerName => do
    match ← select fieldNames with
    | .matched 0 => return (.keyValue, req)
    | .matched 1 => return (.upgradeValue, req)
    | _ => do
      drainLine
      return (.separators, req)
  | .upgradeValue => do
    skipBlanks
    let found ← select upgradeToken
    let req := if found = .matched 0 then { req with upgrade := true } else req
    drainLine
    return (.separators, req)
  | .keyValue => do
    skipBlanks
    let key ← Io.readExact keyLen
    let req := { req with key := some key }
    drainLine
    return (.separators, req)
  | .done => return (.done, req)

/-- Reads a request head; a failure comes with the stage at which it happened. -/
def parseReporting : IoRoutine τ σ (Except (NetError × HandshakeStage) Request) :=
  Routine.loop (fun (stage, req) =>
    if stage = .done then pure (.inr (.ok req))
    else do
      match ← (step stage req).run with
      | .ok next => pure (.inl next)
      | .error e => pure (.inr (.error (e, stage))))
    ((.requestLine, {}) : HandshakeStage × Request)

/-- Reads a request head. -/
def parse : Io τ σ Request :=
  ExceptT.mk ((fun r => r.mapError Prod.fst) <$> parseReporting)

end Handshake

end WebSocketCore
