import WebSocketCore.Config

/-! # Configuration documents

A configuration is read from a small JSON object whose keys name its fields. The reader is
strict in the way of a borrowing, allocation-free JSON reader:

* blanks are space, tab, line feed and carriage return;
* numbers are plain decimal 16-bit naturals: no sign, fraction, exponent or leading zero;
* strings are taken raw, escapes included, up to the first quote not escaped by an odd run of
  backslashes, and must be UTF-8;
* a key may appear once; unknown keys are skipped with their values, where a value that is no
  string, array or object is skipped up to the next `,`, `}` or `]`;
* nothing but blanks may follow the object.

Every refusal, of the text or of the values (`Config.validate`), is `invalidConfig`.
-/

namespace WebSocketCore.Config

/-- The blank bytes between tokens. -/
def isBlank (b : UInt8) : Bool := b == 0x20 || b == 0x09 || b == 0x0A || b == 0x0D

/-- A reader consumes bytes from the front of a document and may refuse. -/
abbrev Reader := StateT (List UInt8) Option

/-- Drops leading blanks. -/
def skipBlanks : Reader Unit := modify (·.dropWhile isBlank)

/-- The next byte after blanks, left in place. -/
def peekToken : Reader (Option UInt8) := do
  skipBlanks
  return (← get).head?

/-- Takes the next byte. -/
def takeByte : Reader UInt8 := fun
  | b :: rest => some (b, rest)
  | [] => none

/-- Takes the given bytes, in order, or refuses. -/
def expectBytes : List UInt8 → Reader Unit
  | [] => pure ()
  | c :: cs => do
    let b ← takeByte
    if b == c then expectBytes cs else failure

/-- Reads the remaining digits of a number begun with value `acc`, refusing past 65535. -/
def digitsFrom (acc : Nat) : List UInt8 → Option (Nat × List UInt8)
  | b :: rest =>
    if 0x30 ≤ b && b ≤ 0x39 then
      let v := acc * 10 + (b - 0x30).toNat
      if v > 65535 then none else digitsFrom v rest
    else some (acc, b :: rest)
  | [] => some (acc, [])

/-- A 16-bit natural: `0` alone, or a digit 1 to 9 and more digits. -/
def readU16 : Reader UInt16 := do
  skipBlanks
  let b ← takeByte
  if b == 0x30 then return 0
  else if 0x31 ≤ b && b ≤ 0x39 then
    let v ← fun s => digitsFrom (b - 0x30).toNat s
    return v.toUInt16
  else failure

/-- `true` or `false`. -/
def readBool : Reader Bool := do
  skipBlanks
  let b ← takeByte
  if b == 0x74 then do expectBytes [0x72, 0x75, 0x65]; return true
  else if b == 0x66 then do expectBytes [0x61, 0x6C, 0x73, 0x65]; return false
  else failure

/-- The body of a string up to its closing quote, which is consumed. A quote closes the string
unless an odd run of backslashes stands right before it; `odd` says whether the bytes just
read end in such a run. -/
def stringBody (odd : Bool) : List UInt8 → Option (List UInt8 × List UInt8)
  | [] => none
  | b :: rest =>
    if b == 0x22 && !odd then some ([], rest)
    else (stringBody (b == 0x5C && !odd) rest).map fun (s, r) => (b :: s, r)

/-- A string, taken raw: its escapes are kept as written. -/
def readString : Reader String := do
  skipBlanks
  let b ← takeByte
  if b != 0x22 then failure
  let body ← fun s => stringBody false s
  match String.fromUTF8? (ByteArray.mk body.toArray) with
  | some s => return s
  | none => failure

/-- `null`, or a value read by `inner`. -/
def readOption {α : Type} (inner : Reader α) : Reader (Option α) := do
  if (← peekToken) == some 0x6E then do
    discard takeByte
    expectBytes [0x75, 0x6C, 0x6C]
    return none
  else some <$> inner

/-- Skips bytes up to, and not including, the next `,`, `}` or `]`; the document may not end
first. -/
def skipBare : List UInt8 → Option (Unit × List UInt8)
  | [] => none
  | b :: rest =>
    if b == 0x2C || b == 0x7D || b == 0x5D then some ((), b :: rest) else skipBare rest

/-- A colon after blanks. -/
def expectColon : Reader Unit := do
  skipBlanks
  expectBytes [0x3A]

mutual

/-- Skips one value of any kind; `fuel` bounds the nesting and the number of items. -/
def skipValue : Nat → Reader Unit
  | 0 => failure
  | fuel + 1 => do
    match ← peekToken with
    | some 0x22 => discard readString
    | some 0x5B => do discard takeByte; skipItems fuel true; skipBlanks; expectBytes [0x5D]
    | some 0x7B => do discard takeByte; skipEntries fuel true; skipBlanks; expectBytes [0x7D]
    | some 0x2C | some 0x7D | some 0x5D | none => failure
    | some _ => fun s => skipBare s

/-- Skips the items of an array, up to its closing bracket, which is left in place. -/
def skipItems : Nat → Bool → Reader Unit
  | 0, _ => failure
  | fuel + 1, first => do
    match ← peekToken with
    | some 0x5D => pure ()
    | some 0x2C => do
      discard takeByte
      let next ← peekToken
      if next == some 0x5D || next == none then failure
      skipValue fuel
      skipItems fuel first
    | some _ => if first then do skipValue fuel; skipItems fuel false else failure
    | none => failure

/-- Skips the entries of an object, up to its closing brace, which is left in place. -/
def skipEntries : Nat → Bool → Reader Unit
  | 0, _ => failure
  | fuel + 1, first => do
    match ← peekToken with
    | some 0x7D => pure ()
    | some 0x2C =>
      if first then failure
      else do
        discard takeByte
        if (← peekToken) != some 0x22 then failure
        discard readString
        expectColon
        skipValue fuel
        skipEntries fuel false
    | some 0x22 =>
      if first then do
        discard readString
        expectColon
        skipValue fuel
        skipEntries fuel false
      else failure
    | _ => failure

end

/-- The fields met so far in a document, each at most once. -/
structure Draft where
  maxPayload : Option UInt16 := none
  sendThreshold : Option UInt16 := none
  binary : Option Bool := none
  idleTimeoutPolls : Option (Option UInt16) := none
  protocol : Option (Option String) := none

/-- Fields that a document leaves out take their defaults. -/
def Draft.toConfig (d : Draft) : Config :=
  let base : Config := {}
  { maxPayload := d.maxPayload.getD base.maxPayload
    sendThreshold := d.sendThreshold.getD base.sendThreshold
    binary := d.binary.getD base.binary
    idleTimeoutPolls := d.idleTimeoutPolls.getD base.idleTimeoutPolls
    protocol := d.protocol.getD base.protocol }

/-- Reads a field's value, refusing a field seen before. -/
def readOnce {α : Type} (seen : Option α) (inner : Reader α) : Reader α :=
  if seen.isSome then failure else inner

/-- Reads the value of the key `key` into the draft. -/
def readField (fuel : Nat) (d : Draft) (key : String) : Reader Draft :=
  match key with
  | "max_payload" => do return { d with maxPayload := some (← readOnce d.maxPayload readU16) }
  | "send_threshold" => do
    return { d with sendThreshold := some (← readOnce d.sendThreshold readU16) }
  | "binary" => do return { d with binary := some (← readOnce d.binary readBool) }
  | "idle_timeout_polls" => do
    return { d with idleTimeoutPolls := some (← readOnce d.idleTimeoutPolls (readOption readU16)) }
  | "protocol" => do
    return { d with protocol := some (← readOnce d.protocol (readOption readString)) }
  | _ => do skipValue fuel; return d

/-- Reads the entries of the configuration object, up to its closing brace. -/
def readEntries : Nat → Bool → Draft → Reader Draft
  | 0, _, _ => failure
  | fuel + 1, first, d => do
    match ← peekToken with
    | some 0x7D => return d
    | some 0x2C =>
      if first then failure
      else do
        discard takeByte
        if (← peekToken) != some 0x22 then failure
        let key ← readString
        expectColon
        readEntries fuel false (← readField fuel d key)
    | some 0x22 =>
      if first then do
        let key ← readString
        expectColon
        readEntries fuel false (← readField fuel d key)
      else failure
    | _ => failure

/-- Reads a whole configuration document, without checking the values. -/
def parseDocument? (doc : List UInt8) : Option Config :=
  let fuel := 2 * doc.length + 2
  let read : Reader Draft := do
    if (← peekToken) != some 0x7B then failure
    discard takeByte
    let d ← readEntries fuel true {}
    skipBlanks
    expectBytes [0x7D]
    skipBlanks
    if !(← get).isEmpty then failure
    return d
  (read.run' doc).map Draft.toConfig

/-- Reads and validates a configuration document. -/
def ofJson (doc : List UInt8) : Except NetError Config :=
  match parseDocument? doc with
  | none => .error .invalidConfig
  | some c => c.validate.map fun _ => c

end WebSocketCore.Config
