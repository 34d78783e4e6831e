/-! # Errors of the network layer

Every failure of a link, a frame ring, a handshake or a session is one of the causes below.
A failure is sticky on a link: once recorded, later operations report the same cause. The
name of a cause is the word used on the wire of the test protocol and in logs.
-/

namespace WebSocketCore

/-- Why a network operation could not be carried out. -/
inductive NetError where
  /-- The link holds no transport. -/
  | notOpen
  /-- The transport refused bytes handed to it. -/
  | writeError
  /-- The transport failed while reading. -/
  | readError
  /-- The peer closed the connection, or sent a close frame. -/
  | connectionClosed
  /-- The peer reset the connection. -/
  | connectionReset
  /-- Too many polls passed without traffic. -/
  | timeout
  /-- The peer broke the protocol. -/
  | protocolError
  /-- A fixed-size buffer could not hold a response. -/
  | bufferFull
  /-- A configuration was rejected. -/
  | invalidConfig
  deriving DecidableEq, Repr, Inhabited

/-- The name of a cause, as logs and answers spell it. -/
def NetError.name : NetError → String
  | .notOpen => "NotOpen"
  | .writeError => "WriteError"
  | .readError => "ReadError"
  | .connectionClosed => "ConnectionClosed"
  | .connectionReset => "ConnectionReset"
  | .timeout => "Timeout"
  | .protocolError => "ProtocolError"
  | .bufferFull => "BufferFull"
  | .invalidConfig => "InvalidConfig"

/-- Reads a cause back from its name. -/
def NetError.ofName? : String → Option NetError
  | "NotOpen" => some .notOpen
  | "WriteError" => some .writeError
  | "ReadError" => some .readError
  | "ConnectionClosed" => some .connectionClosed
  | "ConnectionReset" => some .connectionReset
  | "Timeout" => some .timeout
  | "ProtocolError" => some .protocolError
  | "BufferFull" => some .bufferFull
  | "InvalidConfig" => some .invalidConfig
  | _ => none

theorem NetError.ofName?_name (e : NetError) : NetError.ofName? e.name = some e := by
  cases e <;> rfl

/-- Why a task could not be started or resumed. -/
inductive TaskError where
  /-- A task can be started only once from idle. -/
  | alreadyStarted
  /-- Only a suspended task can be resumed. -/
  | notSuspended
  /-- The task has already finished. -/
  | finished
  /-- The body waited on something that is not a suspension of this task. -/
  | foreignPending
  /-- The lock still holds a live task. -/
  | busy
  deriving DecidableEq, Repr, Inhabited

/-- The name of a task error, as logs and answers spell it. -/
def TaskError.name : TaskError → String
  | .alreadyStarted => "AlreadyStarted"
  | .notSuspended => "NotSuspended"
  | .finished => "Finished"
  | .foreignPending => "ForeignPending"
  | .busy => "Busy"

end WebSocketCore
