import WebSocketCore.Config
import WebSocketCore.Ring.Append
import WebSocketCore.Ring.Ack

/-! # Links

A link joins a transport to one task. Inbound bytes wait in a bounded queue until the task
consumes them; consumed bytes are reported to the transport in batches (`settle`). Outgoing bytes
go through the frame ring. The first error (from the peer, the transport, a timeout or a close)
is sticky: the task sees it on every later operation, once the queue is empty for reads.

The transport callbacks (`onRecv`, `onSent`, `onClosed`, `onError`, `onPoll`) change the link
and never run the task; `isReady` says whether a task waiting for a reason may go on.
-/

namespace WebSocketCore

/-- A link between a transport of type `τ` and one task. -/
structure Link (τ : Type) where
  /-- The transport below the link. -/
  transport : τ
  /-- The link still holds the transport. -/
  attached : Bool := true
  /-- Bytes received and not yet consumed, oldest first. -/
  inbound : List UInt8 := []
  /-- How many bytes the inbound queue holds at most. -/
  inboundCap : Nat
  ring : FrameRing
  /-- Bytes consumed and not yet reported to the transport. -/
  credit : Nat := 0
  /-- The first error, which stays. -/
  error : Option NetError := none
  /-- Acknowledgements seen, counted modulo 2^32. -/
  acks : UInt32 := 0
  /-- The acknowledgement count when the task last armed a wait. -/
  armedAcks : UInt32 := 0
  /-- Polls since the last traffic, stopping at the largest value. -/
  idlePolls : UInt16 := 0
  idleLimit : Option UInt16 := none

namespace Link

variable {τ : Type} [Transport τ]

/-- The smallest ring a link accepts: room for two regions. -/
def minRingSize : Nat := 2 * minRegion

/-- A link over a transport, with a ring of `ringSize` bytes and an inbound queue of
`inboundCap` bytes, for a valid configuration. -/
def new (transport : τ) (config : Config) (ringSize inboundCap : Nat) : Except NetError (Link τ) := do
  config.validate
  if ringSize < minRingSize || inboundCap = 0 then throw .invalidConfig
  return { transport, inboundCap,
           ring := FrameRing.new ringSize config.maxPayload.toNat config.sendThreshold.toNat,
           idleLimit := config.idleTimeoutPolls }

/-- Records an error unless one is recorded already. -/
def noteError (l : Link τ) (e : NetError) : Link τ := { l with error := l.error <|> some e }

/-! ## Transport callbacks -/

/-- Queues as many received bytes as fit; answers how many were taken. -/
def onRecv (l : Link τ) (bytes : List UInt8) : Link τ × Nat :=
  let accepted := bytes.take (l.inboundCap - l.inbound.length)
  ({ l with idlePolls := 0, inbound := l.inbound ++ accepted }, accepted.length)

/-- The peer closed the connection. -/
def onClosed (l : Link τ) : Link τ := l.noteError .connectionClosed

/-- The transport reports `len` bytes acknowledged by the peer. -/
def onSent (l : Link τ) (len : Nat) : Link τ :=
  { l with idlePolls := 0, acks := l.acks + 1, ring := (l.ring.onAck len).1 }

/-- The transport failed: the error is recorded and the transport dropped. -/
def onError (l : Link τ) (e : NetError) : Link τ := { l.noteError e with attached := false }

/-- A poll tick. Once `idleLimit` ticks pass without traffic the link times out: answers the
link's error then. -/
def onPoll (l : Link τ) : Link τ × Option NetError :=
  match l.idleLimit with
  | none => (l, none)
  | some limit =>
    let idle := if l.idlePolls = 65535 then 65535 else l.idlePolls + 1
    let l := { l with idlePolls := idle }
    if idle < limit then (l, none)
    else
      let l := l.noteError .timeout
      (l, l.error)

/-- Reports the consumed bytes to the transport, if the link holds one. -/
def settle (l : Link τ) : Link τ :=
  if l.credit = 0 then l
  else if l.attached then { l with transport := Transport.recved l.transport l.credit, credit := 0 }
  else { l with credit := 0 }

/-- Settles, records `notOpen`, and closes the transport if the link holds it. -/
def close (l : Link τ) : Except NetError Unit × Link τ :=
  let l := (l.settle).noteError .notOpen
  if l.attached then
    let (t, ok) := Transport.close l.transport
    (if ok then .ok () else .error .writeError, { l with transport := t, attached := false })
  else (.ok (), l)

/-- Gives the link a transport again and forgets all traffic and errors. -/
def reset (l : Link τ) (transport : τ) : Link τ :=
  { l with transport, attached := true, inbound := [], ring := l.ring.clear, credit := 0,
           error := none, acks := 0, armedAcks := 0, idlePolls := 0 }

/-! ## Readiness -/

/-- Whether a task waiting for `reason` can go on: any reason but `ended` once an error is
recorded; otherwise bytes for `recv`, a drained ring for `flush`, and an acknowledgement since
the wait was armed for `sendBuf` and `ack`. -/
def isReady (l : Link τ) (reason : WaitReason) : Bool :=
  if l.error.isSome then reason != .ended
  else match reason with
    | .recv => !l.inbound.isEmpty
    | .flush => l.ring.isDrained
    | .sendBuf | .ack => l.acks != l.armedAcks
    | .ended => false

/-! ## The task's side -/

/-- The queued bytes; the recorded error once the queue is empty. -/
def inboundChunk (l : Link τ) : Except NetError (List UInt8) :=
  match l.inbound, l.error with
  | [], some e => .error e
  | chunk, _ => .ok chunk

/-- Drops `n` queued bytes, counting them for the next report. -/
def consume (l : Link τ) (n : Nat) : Link τ :=
  { l with inbound := l.inbound.drop n, credit := l.credit + (l.inbound.take n).length }

/-- Remembers the acknowledgement count, so that a later acknowledgement makes `sendBuf` and
`ack` ready. -/
def arm (l : Link τ) : Link τ := { l with armedAcks := l.acks }

/-- Fails with the recorded error, or with `notOpen` when the transport is gone. -/
def usable (l : Link τ) : Except NetError Unit :=
  match l.error with
  | some e => .error e
  | none => if l.attached then .ok () else .error .notOpen

/-- Runs a ring operation with the link's transport. -/
def withRing {α : Type} (l : Link τ) (op : FrameRing → τ → RingOutcome τ α) : Except NetError α × Link τ :=
  match l with
  | ⟨transport, attached, inbound, inboundCap, ring, credit, error, acks, armedAcks, idlePolls,
      idleLimit⟩ =>
    let o := op ring transport
    (o.result, ⟨o.transport, attached, inbound, inboundCap, o.ring, credit, error, acks, armedAcks,
      idlePolls, idleLimit⟩)

/-- Appends outgoing bytes through the ring; a blocked append arms the wait. -/
def append (l : Link τ) (framing : Framing) (bytes : List UInt8) : Except NetError Append × Link τ :=
  match l.usable with
  | .error e => (.error e, l)
  | .ok () =>
    match l.withRing fun r t => r.append t framing bytes with
    | (.ok (.blocked r), l) => (.ok (.blocked r), l.arm)
    | other => other

/-- Seals and sends what was appended; answers the reason to wait, arming it. -/
def push (l : Link τ) : Except NetError (Option WaitReason) × Link τ :=
  match l.usable with
  | .error e => (.error e, l)
  | .ok () =>
    match l.withRing fun r t => r.finish t with
    | (.ok (some r), l) => (.ok (some r), l.arm)
    | other => other

/-- Pushes, then waits for the ring to drain; a drained ring starts over at offset 0. -/
def flush (l : Link τ) : Except NetError (Option WaitReason) × Link τ :=
  match l.push with
  | (.ok none, l) =>
    if l.ring.isDrained then (.ok none, { l with ring := l.ring.rewind }) else (.ok (some .flush), l)
  | other => other

end Link

end WebSocketCore
