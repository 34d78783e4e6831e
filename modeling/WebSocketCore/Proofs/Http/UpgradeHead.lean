import Mathlib
import WebSocketCore.Session
import WebSocketCore.Simulation.Loopback
import WebSocketCore.Simulation.Services

/-! # The upgrade head and its buffer

The accept value of every key has 28 bytes: SHA-1 keeps five chaining words through every block,
so a digest has twenty bytes, and base64 writes four characters for every three bytes. The `101`
head holds 155 bytes besides the subprotocol, and the head buffer holds 256, so the head is built
exactly when the subprotocol has at most 101 bytes. Validation bounds the subprotocol's characters
and not its length: with a valid configuration whose subprotocol is longer, a session answers
every upgrade request by failing with `bufferFull` before it writes a byte.
-/

namespace WebSocketCore

@[simp] theorem length_bigEndian (w n : Nat) : (bigEndian w n).length = w := by
  induction w generalizing n with
  | zero => rfl
  | succ w ih => simp [bigEndian, ih]

namespace Sha1

theorem length_compress (bytes : Array UInt8) {h : List UInt32} (five : h.length = 5)
    (off : Nat) : (compress bytes h off).length = 5 := by
  match h, five with
  | [_, _, _, _, _], _ => rfl

theorem length_foldl_compress (bytes : Array UInt8) (offsets : List Nat) {h : List UInt32}
    (five : h.length = 5) :
    (offsets.foldl (fun h i => compress bytes h (64 * i)) h).length = 5 := by
  induction offsets generalizing h with
  | nil => exact five
  | cons i offsets ih => exact ih (length_compress bytes five _)

/-- A digest is the five chaining words, four bytes each. -/
theorem length_digest (msg : List UInt8) : (digest msg).length = 20 := by
  have words := length_foldl_compress (pad msg).toArray (List.range ((pad msg).toArray.size / 64))
    (h := initial) rfl
  simp only [digest, List.length_flatMap, length_bigEndian, List.map_const', List.sum_replicate,
    words, smul_eq_mul]

end Sha1

namespace Base64

/-- Every three bytes, and a last group of one or two, become four characters. -/
theorem length_encode (bytes : List UInt8) : (encode bytes).length = 4 * ((bytes.length + 2) / 3) := by
  fun_induction encode bytes with
  | case1 => rfl
  | case2 => simp
  | case3 => simp
  | case4 a b c rest ih =>
    simp only [List.length_append, List.length_cons, List.length_nil, ih]
    omega

end Base64

namespace Response

private theorem length_toList_loop (bs : ByteArray) (i : Nat) (r : List UInt8) :
    (ByteArray.toList.loop bs i r).length = r.length + (bs.size - i) := by
  fun_induction ByteArray.toList.loop bs i r with
  | case1 i r _ ih =>
    simp only [ih, List.length_cons]
    omega
  | case2 i r _ =>
    simp only [List.length_reverse]
    omega

@[simp] theorem length_ascii (s : String) : (ascii s).length = s.utf8ByteSize := by
  show (ByteArray.toList.loop s.toByteArray 0 []).length = s.toByteArray.size
  rw [length_toList_loop]
  simp only [List.length_nil, Nat.sub_zero, Nat.zero_add]

theorem length_acceptKey (key : List UInt8) : (acceptKey key).length = 28 := by
  simp [acceptKey, Base64.length_encode, Sha1.length_digest]

/-- The `101` head for a 28-byte accept value fails to fit exactly when it announces a subprotocol
of more than 101 bytes. -/
theorem switchingProtocols_eq_error_iff {accept : List UInt8} (full : accept.length = 28)
    (protocol : Option String) :
    switchingProtocols accept protocol = .error .bufferFull ↔
      ∃ p, protocol = some p ∧ 101 < p.utf8ByteSize := by
  have fixed : "HTTP/1.1 101 Switching Protocols\r\n".utf8ByteSize +
      "Upgrade: websocket\r\n".utf8ByteSize + "Connection: Upgrade\r\n".utf8ByteSize +
      "Sec-WebSocket-Accept: ".utf8ByteSize + "\r\n".utf8ByteSize + "\r\n".utf8ByteSize = 101 := by
    decide
  have announced : "Sec-WebSocket-Protocol: ".utf8ByteSize + "\r\n".utf8ByteSize = 26 := by
    decide
  cases protocol with
  | none =>
    simp only [switchingProtocols, fitHead, maxHeadLen, List.length_append, List.append_nil,
      length_ascii, full]
    rw [if_pos (by omega)]
    simp
  | some p =>
    simp only [switchingProtocols, fitHead, maxHeadLen, List.length_append, length_ascii, full]
    split_ifs with fits
    · simp only [Option.some.injEq, exists_eq_left', false_iff, not_lt]
      omega
    · simp only [Option.some.injEq, exists_eq_left', true_iff]
      omega

/-- A head is kept whole or refused with `bufferFull`; it is never cut. -/
theorem fitHead_ok_or_bufferFull (head : List UInt8) :
    fitHead head = .ok head ∨ fitHead head = .error .bufferFull := by
  unfold fitHead
  split_ifs
  · exact .inl rfl
  · exact .inr rfl

/-- The `101` head fits exactly when the subprotocol has at most 101 bytes. -/
theorem upgradeHead_fits_iff (c : Config) {accept : List UInt8} (full : accept.length = 28) :
    (∃ head, switchingProtocols accept c.protocol = .ok head) ↔
      ∀ p, c.protocol = some p → p.utf8ByteSize ≤ 101 := by
  have overflow := switchingProtocols_eq_error_iff full c.protocol
  constructor
  · rintro ⟨head, built⟩ p announced
    by_contra long
    have refused := overflow.2 ⟨p, announced, by omega⟩
    rw [built] at refused
    cases refused
  · intro short
    rcases fitHead_ok_or_bufferFull _ with built | refused
    · exact ⟨_, built⟩
    · obtain ⟨p, announced, long⟩ := overflow.1 refused
      have := short p announced
      omega

/-- The sample accept value of the opening handshake has 28 bytes, and the `101` head announcing
the subprotocol `chat` fits. -/
theorem chat_protocol_head_fits :
    (ascii "s3pPLMBiTxaQ9kYGzzhZRbK+xOo=").length = 28 ∧
      ∃ head, switchingProtocols (ascii "s3pPLMBiTxaQ9kYGzzhZRbK+xOo=")
        ({ protocol := some "chat" } : Config).protocol = .ok head := by
  have full : (ascii "s3pPLMBiTxaQ9kYGzzhZRbK+xOo=").length = 28 := by
    rw [length_ascii]
    decide
  refine ⟨full, (upgradeHead_fits_iff { protocol := some "chat" } full).2 fun p announced => ?_⟩
  cases announced
  decide

/-- A subprotocol of 102 bytes passes validation, yet the `101` head for the sample accept value
of the opening handshake overflows the head buffer. -/
theorem long_token_overflows_head :
    ({ protocol := some "pppppppppppppppppppppppppppppppppppppppppppppppppppppppppppppppppppppppppppppppppppppppppppppppppppppp" } : Config).validate = .ok () ∧
      (ascii "s3pPLMBiTxaQ9kYGzzhZRbK+xOo=").length = 28 ∧
      switchingProtocols (ascii "s3pPLMBiTxaQ9kYGzzhZRbK+xOo=")
        ({ protocol := some "pppppppppppppppppppppppppppppppppppppppppppppppppppppppppppppppppppppppppppppppppppppppppppppppppppppp" } : Config).protocol =
        .error .bufferFull := by
  have full : (ascii "s3pPLMBiTxaQ9kYGzzhZRbK+xOo=").length = 28 := by
    rw [length_ascii]
    decide
  exact ⟨rfl, full, (switchingProtocols_eq_error_iff full _).2 ⟨_, rfl, by decide⟩⟩

end Response

namespace Session

variable {τ σ : Type} [Transport τ]

/-- With a subprotocol of more than 101 bytes, the answer to an upgrade request fails with
`bufferFull` at once: it writes no head and never starts the service. -/
theorem answer_upgrade_fails {accept : List UInt8 → List UInt8}
    (full : ∀ key, (accept key).length = 28) {config : Config} {p : String}
    (announces : config.protocol = some p) (long : 101 < p.utf8ByteSize) (page : List UInt8)
    (service : Service τ σ) {request : Request} {key : List UInt8}
    (asks : request.websocketKey = some key) :
    answer accept config page service request = throw .bufferFull := by
  have overflow : Response.switchingProtocols (accept key) config.protocol = .error .bufferFull :=
    (Response.switchingProtocols_eq_error_iff (full key) _).2 ⟨p, announces, long⟩
  simp only [answer, asks, overflow]
  rfl

/-- A subprotocol of 102 bytes passes validation, yet an upgrade request with the sample key of
the opening handshake is answered by `bufferFull`, with nothing written. -/
theorem long_protocol_fails_upgrade :
    let protocol := "pppppppppppppppppppppppppppppppppppppppppppppppppppppppppppppppppppppppppppppppppppppppppppppppppppppp"
    let config : Config := { protocol := some protocol }
    config.validate = .ok () ∧
      answer (τ := Loopback) (σ := Array ServiceNote) Response.acceptKey config
        (Handshake.ascii "<html><body><h1>picows</h1></body></html>") ServiceSpec.echo.service
        { upgrade := true, key := some (Handshake.ascii "dGhlIHNhbXBsZSBub25jZQ==") } =
        throw .bufferFull :=
  ⟨rfl, answer_upgrade_fails Response.length_acceptKey rfl (by decide) _ _ rfl⟩

end Session

end WebSocketCore
