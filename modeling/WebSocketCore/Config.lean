import WebSocketCore.Error
import WebSocketCore.Frame.Opcode

/-! # Server configuration

A configuration bounds outgoing frames (`maxPayload`), says when an open frame is handed to the
transport (`sendThreshold`), picks text or binary frames, and may set an idle timeout in polls
and a subprotocol to announce. `Config.validate` accepts exactly the configurations whose
limits are positive and ordered and whose subprotocol is a non-empty token of visible ASCII
without `,` or `;`.
-/

namespace WebSocketCore

/-- Settings shared by every connection of a server. -/
structure Config where
  /-- Upper bound on the payload of one outgoing frame. -/
  maxPayload : UInt16 := 1024
  /-- Payload size at which an open frame is sealed and sent. -/
  sendThreshold : UInt16 := 512
  /-- Send binary frames instead of text frames. -/
  binary : Bool := false
  /-- Polls without traffic before the connection times out. -/
  idleTimeoutPolls : Option UInt16 := none
  /-- Subprotocol announced in the upgrade response. -/
  protocol : Option String := none
  deriving DecidableEq, Repr, Inhabited

namespace Config

/-- A subprotocol is a non-empty run of visible ASCII characters other than `,` and `;`. -/
def isToken (s : String) : Bool :=
  !s.isEmpty && s.toList.all fun c => 0x21 ≤ c.toNat && c.toNat ≤ 0x7E && c != ',' && c != ';'

/-- Checks that the limits are positive and ordered, the timeout is not zero and the
subprotocol is a token. -/
def validate (c : Config) : Except NetError Unit :=
  if c.maxPayload = 0 || c.sendThreshold = 0 then .error .invalidConfig
  else if c.sendThreshold > c.maxPayload then .error .invalidConfig
  else if c.idleTimeoutPolls = some 0 then .error .invalidConfig
  else match c.protocol with
    | some p => if isToken p then .ok () else .error .invalidConfig
    | none => .ok ()

/-- Outgoing data goes out as binary frames when `binary` is set, as text frames otherwise. -/
def framing (c : Config) : Framing :=
  if c.binary then .frame .binary else .frame .text

end Config

end WebSocketCore
