/-! # Wait reasons

A task that cannot go on says why it waits: for bytes to arrive, for the outgoing ring to drain,
for send room, or for an acknowledgement. `ended` is the code of a task that waits for nothing
more.
-/

namespace WebSocketCore

/-- Why a task suspended. -/
inductive WaitReason where
  /-- The task waits for nothing more. -/
  | ended
  /-- Bytes must arrive in the inbound queue. -/
  | recv
  /-- The outgoing ring must drain. -/
  | flush
  /-- The transport must open room for a pending region. -/
  | sendBuf
  /-- Sent bytes must be acknowledged. -/
  | ack
  deriving DecidableEq, Repr, Inhabited

namespace WaitReason

/-- The name of a reason, as logs and answers spell it. -/
def name : WaitReason → String
  | .ended => "End"
  | .recv => "Recv"
  | .flush => "Flush"
  | .sendBuf => "SendBuf"
  | .ack => "Ack"

/-- Reads a reason back from its name. -/
def ofName? : String → Option WaitReason
  | "End" => some .ended
  | "Recv" => some .recv
  | "Flush" => some .flush
  | "SendBuf" => some .sendBuf
  | "Ack" => some .ack
  | _ => none

/-- The order in which a connection offers wake-ups to its task. -/
def priority : List WaitReason := [.recv, .flush, .sendBuf, .ack]

end WaitReason

end WebSocketCore
