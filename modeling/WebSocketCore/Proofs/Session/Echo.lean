import Mathlib
import WebSocketCore.Proofs.Session.Answering
import WebSocketCore.Proofs.Session.SentRegions
import WebSocketCore.Proofs.WebSocket.DataStream

/-! # The echo service a round at a time

The echo service loops over rounds (`Service.echoRound`): a read of up to `echoChunk` bytes,
written back, and a push once the read ends a message. Between rounds it keeps `Echoing`: the
reader stands in the frames (`FrameReader.Reading`), the ring accepted the raw `101` head and then
what was read, the loopback received the head whole, and outside a message everything written was
pushed. Where the service stops for good (`Echoed`), `Writing.sent_after_head` reads the
loopback's bytes off the ring: the head, then complete frames carrying a first part of the data
stream of the frames (`FrameReader.dataStream`), all of it when the frames have no close frame and
end outside any message (`Echoed.regions`).
-/

namespace WebSocketCore

namespace Config

/-- Service bytes go out as frames. -/
theorem framing_ne_raw (c : Config) : c.framing ≠ .raw := by
  unfold framing
  split <;> simp

end Config

namespace Link

theorem error_of_usable {τ : Type} {l : Link τ} (usable : l.usable = .ok ()) : l.error = none := by
  unfold Link.usable at usable
  cases broken : l.error with
  | none => rfl
  | some e =>
    rw [broken] at usable
    cases usable

end Link

namespace Response

/-- For a 28-byte accept value, the `101` head is built when the subprotocol, if there is one, has
at most 101 bytes. -/
theorem switchingProtocols_ok_of_short {accept : List UInt8} (full : accept.length = 28)
    {protocol : Option String} (short : ∀ p, protocol = some p → p.utf8ByteSize ≤ 101) :
    ∃ head, switchingProtocols accept protocol = .ok head := by
  rcases fitHead_ok_or_bufferFull _ with built | refused
  · exact ⟨_, built⟩
  · obtain ⟨p, announced, long⟩ := (switchingProtocols_eq_error_iff full protocol).1 refused
    have := short p announced
    omega

end Response

/-! ## The echo service a round at a time -/

namespace Service

/-- One round of the echo service: a read of up to `echoChunk` bytes, written back, and a push
once the read ends a message. -/
def echoRound {τ σ : Type} [Transport τ] (ws : WebSocket) : Io τ σ (WebSocket ⊕ Unit) :=
  ws.read echoChunk >>= fun r => r.2.write r.1 >>= fun _ =>
    (if r.2.isMessageEnd then r.2.push else pure ()) >>= fun _ => pure (.inl r.2)

/-- The echo service loops over `echoRound`; its own body goes on from the push or from the
branch without it, where the round binds the branch's answer. -/
theorem echo_eq {τ σ : Type} [Transport τ] (ws : WebSocket) :
    Service.echo (τ := τ) (σ := σ) ws = Io.loop echoRound ws := by
  unfold Service.echo echoRound
  congr 1
  funext ws
  congr 1
  funext r
  funext u
  by_cases atEnd : r.2.isMessageEnd = true
  · simp only [atEnd, if_true]
  · simp only [atEnd]
    rfl

end Service

open FrameReader

section Echo

variable {σ : Type} {limit : Nat} {framing : Framing} {head : List UInt8} {frames : List WireFrame}

/-- The echo service between rounds, serving the frames `frames` after the raw `head`: its reader
stands in the frames having delivered `got`, with `unread` to read; the link's run accepted the
head, then `got` in the socket's framing; the loopback received the head whole and was never
closed; and at a boundary outside any message everything written was pushed. -/
structure Echoing (limit : Nat) (framing : Framing) (head : List UInt8) (frames : List WireFrame)
    (ws : WebSocket) (got unread : List UInt8) (l : Link Loopback) : Prop where
  reading : Reading frames ws.reader got unread
  framing_eq : ws.framing = framing
  writing : l.Writing limit (head.map (Framing.raw, ·) ++ got.map (framing, ·))
  wired : l.Wired head 0
  settled : ws.reader.remaining = 0 → ws.reader.message = none →
    l.ring.openRegion = none ∧ l.ring.pending = none

/-- Where the echo service stops, having delivered `got`: the link's run accepted the head, then
`got`, a first part of the data stream; the loopback received the head whole and was never closed;
and when the frames have no close frame and end outside any message, `got` is the whole stream
and everything written was pushed. -/
structure Echoed (limit : Nat) (framing : Framing) (head : List UInt8) (frames : List WireFrame)
    (got : List UInt8) (l : Link Loopback) : Prop where
  writing : l.Writing limit (head.map (Framing.raw, ·) ++ got.map (framing, ·))
  wired : l.Wired head 0
  within : got <+: dataStream none frames
  whole : (∀ f ∈ frames, f.header.opcode ≠ .close) → messageAfter none frames = none →
    got = dataStream none frames ∧ l.ring.openRegion = none ∧ l.ring.pending = none

/-- Where the service stops, the loopback has received the head, then complete frames of the
framing with between one byte and `limit` of payload, carrying a first part of the data stream,
and the whole of it when the frames have no close frame and end outside any message. -/
theorem Echoed.regions {got : List UInt8} {l : Link Loopback}
    (echoed : Echoed limit framing head frames got l) (notRaw : framing ≠ .raw) :
    ∃ regions : List Region, l.transport.sentBytes = head ++ regions.flatMap Region.wire ∧
      (∀ x ∈ regions, x.framing = framing ∧ 1 ≤ x.payload.length ∧ x.payload.length ≤ limit) ∧
      regions.flatMap Region.payload <+: dataStream none frames ∧
      ((∀ f ∈ frames, f.header.opcode ≠ .close) → messageAfter none frames = none →
        regions.flatMap Region.payload = dataStream none frames) := by
  obtain ⟨regions, sent, framed, inGot, allGot⟩ :=
    echoed.writing.sent_after_head notRaw echoed.wired.leads
  refine ⟨regions, sent, framed, inGot.trans echoed.within, fun unclosed ended => ?_⟩
  obtain ⟨all, closed, idle⟩ := echoed.whole unclosed ended
  rw [allGot closed idle, all]

end Echo

end WebSocketCore
