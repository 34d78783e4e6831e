import Mathlib
import WebSocketCore.Proofs.Http.UpgradeHead
import WebSocketCore.Proofs.WebSocket.PayloadStream

/-! # The frame header codec

A header's bytes are a first byte (final flag and opcode nibble), a second byte (mask flag and a
seven-bit length or one of the two markers 126 and 127), the extended length the marker announces,
and the key when the mask flag is set. `decode?_parts` reads a header off such parts, whatever
follows them, and `decode?_eq_some` says that every header `decode?` reads is read off such parts.

Main statement (`encode_decode_agree`): writing a header fails exactly when the buffer is smaller
than `encodedLen`; the written bytes announce their extended length in the second byte, read back
as the header whatever follows them, and no proper prefix of them reads as a header. Conversely,
the bytes of every header `decode?` reads are where it says they end, and writing that header
gives them back exactly when their reserved bits are clear and their length is in the shortest
form.
-/

namespace WebSocketCore

/-- A big-endian number read back from its bytes, reduced to the width they hold. -/
theorem ofBigEndian_bigEndian (w n : Nat) : ofBigEndian (bigEndian w n) = n % 256 ^ w := by
  induction w generalizing n with
  | zero => simp [bigEndian, ofBigEndian, Nat.mod_one]
  | succ w ih =>
    have byte : ((n % 256).toUInt8).toNat = n % 256 := by simp
    have step : ofBigEndian (bigEndian w (n / 256) ++ [(n % 256).toUInt8]) =
        ofBigEndian (bigEndian w (n / 256)) * 256 + n % 256 := by
      simp only [ofBigEndian, List.foldl_append, List.foldl_cons, List.foldl_nil, byte]
    rw [bigEndian, step, ih, Nat.pow_succ, Nat.mul_comm (256 ^ w) 256, Nat.mod_mul]
    omega

/-- Bytes written back from the number they spell are the same bytes. -/
theorem bigEndian_ofBigEndian (bytes : List UInt8) :
    bigEndian bytes.length (ofBigEndian bytes) = bytes := by
  induction bytes using List.reverseRecOn with
  | nil => rfl
  | append_singleton init b ih =>
    have spelled : ofBigEndian (init ++ [b]) = ofBigEndian init * 256 + b.toNat := by
      simp [ofBigEndian, List.foldl_append]
    have low : (ofBigEndian init * 256 + b.toNat) % 256 = b.toNat := by
      have := b.toNat_lt
      omega
    have high : (ofBigEndian init * 256 + b.toNat) / 256 = ofBigEndian init := by
      have := b.toNat_lt
      omega
    rw [List.length_append, List.length_singleton, bigEndian, spelled, low, high, ih]
    simp

namespace Opcode

/-- Only a nibble reaches the wire. -/
theorem bits_lt (op : Opcode) : op.bits < 16 := by
  have low : ∀ b : UInt8, b &&& 0x0F < 16 := by decide +kernel
  cases op <;> first | decide | exact low _

/-- The opcode read from a byte writes back as that byte's nibble. -/
theorem bits_ofBits (b : UInt8) : (ofBits b).bits = b &&& 0x0F := by
  revert b
  decide +kernel

/-- Reading an opcode looks at the nibble only. -/
theorem ofBits_and_low (b : UInt8) : ofBits (b &&& 0x0F) = ofBits b := by
  revert b
  decide +kernel

end Opcode

namespace FrameHeader

/-! ## The bytes of a header -/

/-- The first byte: the final flag over the opcode's nibble. -/
def firstByte (fin : Bool) (op : Opcode) : UInt8 := (if fin then 0x80 else 0) ||| op.bits

/-- The seven-bit field of the second byte: the length itself, or the marker of its extended
form. -/
def lenField (len : Nat) : UInt8 := if len ≤ 125 then len.toUInt8 else if len ≤ 0xFFFF then 126 else 127

/-- The extended length in the shortest form. -/
def extBytes (len : Nat) : List UInt8 :=
  if len ≤ 125 then [] else if len ≤ 0xFFFF then bigEndian 2 len else bigEndian 8 len

/-- The flag bit of a first or second byte. -/
def flagBit (flag : Bool) : UInt8 := if flag then 0x80 else 0

theorem encode_eq (h : FrameHeader) :
    h.encode = firstByte h.fin h.opcode ::
      (flagBit h.mask.isSome ||| lenField h.payloadLen.toNat) ::
        (extBytes h.payloadLen.toNat ++ (h.mask.map MaskKey.toList).getD []) := by
  unfold encode firstByte lenField extBytes flagBit
  by_cases tiny : h.payloadLen.toNat ≤ 125 <;> by_cases mid : h.payloadLen.toNat ≤ 0xFFFF <;>
    simp [tiny, mid]

theorem length_extBytes (len : Nat) : (extBytes len).length = extLen len := by
  unfold extBytes extLen
  split_ifs <;> simp

theorem lenField_lt (len : Nat) : lenField len < 128 := by
  unfold lenField
  split_ifs with tiny
  · have : len.toUInt8.toNat < 128 := by simp; omega
    exact this
  · decide
  · decide

/-- A flag over a seven-bit field: the field and the flag read back apart. -/
theorem flagBit_or_field (flag : Bool) {v : UInt8} (small : v < 128) :
    (flagBit flag ||| v) &&& 0x7F = v ∧ ((flagBit flag ||| v) &&& 0x80 != 0) = flag := by
  revert flag v
  unfold flagBit
  decide +kernel

/-- A flag over a nibble: the nibble and the flag read back apart. -/
theorem flagBit_or_nibble (flag : Bool) {v : UInt8} (small : v < 16) :
    (flagBit flag ||| v) &&& 0x0F = v ∧ ((flagBit flag ||| v) &&& 0x80 != 0) = flag := by
  revert flag v
  unfold flagBit
  decide +kernel

theorem extendedLenBytes_lenField (flag : Bool) (len : Nat) :
    extendedLenBytes (flagBit flag ||| lenField len) = extLen len := by
  have field := (flagBit_or_field flag (lenField_lt len)).1
  unfold extendedLenBytes
  rw [field]
  unfold lenField extLen
  split_ifs with tiny mid
  · have : len.toUInt8.toNat = len := by simp; omega
    rw [this]
    split <;> omega
  · rfl
  · rfl

/-- The length a header's parts spell is the length written, below `2 ^ 64`. -/
theorem spelled_length (flag : Bool) {len : Nat} (fits : len < 2 ^ 64) :
    (if (extBytes len).isEmpty then ((flagBit flag ||| lenField len) &&& 0x7F).toNat
      else ofBigEndian (extBytes len)) = len := by
  rw [(flagBit_or_field flag (lenField_lt len)).1]
  unfold extBytes lenField
  by_cases tiny : len ≤ 125
  · simp only [tiny, if_true, List.isEmpty_nil]
    simp
    omega
  · have long : ∀ w, (bigEndian (w + 1) len).isEmpty = false := fun w => by
      simp [← List.length_eq_zero_iff]
    by_cases mid : len ≤ 0xFFFF
    · simp only [tiny, mid, if_false, if_true, long, Bool.false_eq_true, ofBigEndian_bigEndian]
      exact Nat.mod_eq_of_lt (by norm_num; omega)
    · simp only [tiny, mid, if_false, long, Bool.false_eq_true, ofBigEndian_bigEndian]
      exact Nat.mod_eq_of_lt (by norm_num; omega)

/-! ## Reading a header off its parts -/

/-- The length that a second byte and an extended length spell. -/
def spelled (b1 : UInt8) (ext : List UInt8) : Nat :=
  if ext.isEmpty then (b1 &&& 0x7F).toNat else ofBigEndian ext

/-- `decode?` reads a header off its parts: the two fixed bytes, the extended length the second
announces and the key if its mask flag is set, whatever follows them. -/
theorem decode?_parts (b0 b1 : UInt8) {ext key : List UInt8} (tail : List UInt8)
    (extSize : ext.length = extendedLenBytes b1)
    (keySize : key.length = if b1 &&& 0x80 != 0 then 4 else 0) :
    decode? (b0 :: b1 :: (ext ++ key ++ tail)) =
      some (⟨b0 &&& 0x80 != 0, Opcode.ofBits b0, MaskKey.ofList? key, (spelled b1 ext).toUInt64⟩,
        2 + ext.length + key.length) := by
  have front : (ext ++ key ++ tail).take (extendedLenBytes b1) = ext := by
    rw [← extSize, List.append_assoc, List.take_left]
  have back : (ext ++ key ++ tail).drop (extendedLenBytes b1) = key ++ tail := by
    rw [← extSize, List.append_assoc, List.drop_left]
  have empty : ext.isEmpty = decide (extendedLenBytes b1 = 0) := by
    rw [← extSize]
    cases ext <;> simp
  simp only [decode?, spelled, List.length_append, front, back, empty, decide_eq_true_eq]
  rw [if_neg (by omega)]
  by_cases masked : (b1 &&& 0x80 != 0) = true
  · rw [if_pos masked] at keySize ⊢
    obtain ⟨k0, k1, k2, k3, rfl⟩ := List.length_eq_four.mp keySize
    simp [MaskKey.ofList?, extSize]
  · rw [if_neg masked] at keySize ⊢
    rw [List.length_eq_zero_iff.mp keySize]
    simp [MaskKey.ofList?, extSize]

/-- Every header `decode?` reads is read off its parts, and the count it answers is their
length. -/
theorem decode?_eq_some {x : List UInt8} {h : FrameHeader} {n : Nat} (dec : decode? x = some (h, n)) :
    ∃ b0 b1 ext key tail, x = b0 :: b1 :: (ext ++ key ++ tail) ∧
      ext.length = extendedLenBytes b1 ∧ key.length = (if b1 &&& 0x80 != 0 then 4 else 0) ∧
      h = ⟨b0 &&& 0x80 != 0, Opcode.ofBits b0, MaskKey.ofList? key, (spelled b1 ext).toUInt64⟩ ∧
      n = 2 + ext.length + key.length := by
  rcases x with _ | ⟨b0, _ | ⟨b1, rest⟩⟩
  · cases dec
  · cases dec
  · have enough : extendedLenBytes b1 ≤ rest.length := by
      by_contra short
      simp only [decode?] at dec
      rw [if_pos (by omega)] at dec
      cases dec
    -- the key is the four bytes after the extended length when the mask flag is set
    obtain ⟨key, tail, split, keySize⟩ : ∃ key tail, rest.drop (extendedLenBytes b1) = key ++ tail ∧
        key.length = if b1 &&& 0x80 != 0 then 4 else 0 := by
      by_cases masked : (b1 &&& 0x80 != 0) = true
      · simp only [decode?, if_neg (show ¬rest.length < extendedLenBytes b1 by omega),
          if_pos masked] at dec
        generalize rest.drop (extendedLenBytes b1) = after at dec
        obtain ⟨k0, k1, k2, k3, tail, rfl⟩ : ∃ k0 k1 k2 k3 tail, after = k0 :: k1 :: k2 :: k3 :: tail := by
          rcases after with _ | ⟨k0, _ | ⟨k1, _ | ⟨k2, _ | ⟨k3, tail⟩⟩⟩⟩ <;> simp_all
        exact ⟨[k0, k1, k2, k3], tail, rfl, by simp [masked]⟩
      · exact ⟨[], rest.drop (extendedLenBytes b1), rfl, by simp [masked]⟩
    have extSize : (rest.take (extendedLenBytes b1)).length = extendedLenBytes b1 := by
      simp only [List.length_take]
      omega
    have parts : rest = rest.take (extendedLenBytes b1) ++ key ++ tail := by
      rw [List.append_assoc, ← split, List.take_append_drop]
    rw [parts, decode?_parts b0 b1 tail extSize keySize] at dec
    obtain ⟨rfl, rfl⟩ := Prod.mk.inj (Option.some.inj dec)
    exact ⟨b0, b1, _, key, tail, by rw [← parts], extSize, keySize, rfl, rfl⟩

/-! ## Writing a header -/

/-- The key's bytes as a header writes them. -/
def keyBytes (mask : Option MaskKey) : List UInt8 := (mask.map MaskKey.toList).getD []

theorem length_keyBytes (mask : Option MaskKey) :
    (keyBytes mask).length = if mask.isSome then 4 else 0 := by
  cases mask <;> simp [keyBytes, MaskKey.toList]

theorem ofList?_keyBytes (mask : Option MaskKey) : MaskKey.ofList? (keyBytes mask) = mask := by
  cases mask <;> simp [keyBytes, MaskKey.toList, MaskKey.ofList?]

theorem length_encode (h : FrameHeader) : h.encode.length = h.encodedLen := by
  rw [encode_eq, ← keyBytes]
  simp only [List.length_cons, List.length_append, length_extBytes, length_keyBytes, encodedLen]
  omega

/-- The second byte a header is written with announces its extended length. -/
theorem extendedLenBytes_encode (h : FrameHeader) :
    extendedLenBytes (h.encode.getD 1 0) = h.encodedLen - 2 - (if h.mask.isSome then 4 else 0) := by
  rw [encode_eq]
  simp only [List.getD_cons_succ, List.getD_cons_zero, extendedLenBytes_lenField, encodedLen]
  omega

/-- A header whose opcode is its own nibble is read back from its bytes, whatever follows
them. -/
theorem decode?_encode_append (h : FrameHeader) (named : Opcode.ofBits h.opcode.bits = h.opcode)
    (tail : List UInt8) : decode? (h.encode ++ tail) = some (h, h.encodedLen) := by
  have second := flagBit_or_field h.mask.isSome (lenField_lt h.payloadLen.toNat)
  have first := flagBit_or_nibble h.fin (Opcode.bits_lt h.opcode)
  have keySize : (keyBytes h.mask).length =
      if (flagBit h.mask.isSome ||| lenField h.payloadLen.toNat) &&& 0x80 != 0 then 4 else 0 := by
    rw [second.2, length_keyBytes]
  have extSize := (length_extBytes h.payloadLen.toNat).trans
    (extendedLenBytes_lenField h.mask.isSome h.payloadLen.toNat).symm
  rw [encode_eq, ← keyBytes, List.cons_append, List.cons_append,
    decode?_parts _ _ tail extSize keySize]
  have opcode : Opcode.ofBits (firstByte h.fin h.opcode) = h.opcode := by
    rw [← Opcode.ofBits_and_low, firstByte, ← flagBit, first.1, named]
  have length : (spelled (flagBit h.mask.isSome ||| lenField h.payloadLen.toNat)
      (extBytes h.payloadLen.toNat)).toUInt64 = h.payloadLen := by
    rw [spelled, spelled_length _ h.payloadLen.toNat_lt]
    simp
  rw [opcode, length, ofList?_keyBytes, firstByte, ← flagBit, first.2, length_keyBytes,
    length_extBytes]
  rfl

/-- No proper prefix of a header's bytes reads as a header. -/
theorem decode?_take_encode (h : FrameHeader) {k : Nat} (short : k < h.encodedLen) :
    decode? (h.encode.take k) = none := by
  cases dec : decode? (h.encode.take k) with
  | none => rfl
  | some r =>
    exfalso
    obtain ⟨h', n⟩ := r
    obtain ⟨b0, b1, ext, key, tail, parts, extSize, keySize, -, -⟩ := decode?_eq_some dec
    have prefixLength : (h.encode.take k).length = k := by
      rw [List.length_take, length_encode]
      omega
    have read : (h.encode.take k).getD 1 0 = h.encode.getD 1 0 := by
      rw [List.getD_eq_getElem?_getD, List.getD_eq_getElem?_getD, List.getElem?_take_of_lt]
      rw [parts] at prefixLength
      simp at prefixLength
      omega
    -- the second byte read is the one written, so the parts are as long as the whole header
    have written := extendedLenBytes_encode h
    have flag : (b1 &&& 0x80 != 0) = h.mask.isSome := by
      rw [parts] at read
      rw [encode_eq] at read
      simp only [List.getD_cons_succ, List.getD_cons_zero] at read
      rw [read]
      exact (flagBit_or_field _ (lenField_lt _)).2
    rw [← read, parts] at written
    simp only [List.getD_cons_succ, List.getD_cons_zero] at written
    rw [parts] at prefixLength
    simp only [List.length_cons, List.length_append, extSize, keySize, flag] at prefixLength
    split_ifs at written prefixLength <;> omega

/-! ## Writing back what was read -/

/-- A first byte is written back from its flag and nibble exactly when its reserved bits are
clear. -/
theorem firstByte_read_iff (b0 : UInt8) :
    firstByte (b0 &&& 0x80 != 0) (Opcode.ofBits b0) = b0 ↔ b0 &&& 0x70 = 0 := by
  rw [firstByte, Opcode.bits_ofBits]
  revert b0
  decide +kernel

/-- A second byte is its flag over its seven-bit field. -/
theorem flagBit_or_field_read (b1 : UInt8) : flagBit (b1 &&& 0x80 != 0) ||| (b1 &&& 0x7F) = b1 := by
  revert b1
  unfold flagBit
  decide +kernel

/-- Parts whose extended length is the shortest for the length they spell are that length's
field and extended bytes. -/
theorem shortest_parts {b1 : UInt8} {ext : List UInt8} (extSize : ext.length = extendedLenBytes b1)
    (shortest : extendedLenBytes b1 = extLen (spelled b1 ext)) :
    lenField (spelled b1 ext) = b1 &&& 0x7F ∧ extBytes (spelled b1 ext) = ext := by
  have field : (b1 &&& 0x7F).toNat ≤ 127 := by
    rw [UInt8.toNat_and]
    exact Nat.and_le_right
  -- the second byte's field is a 16-bit marker, a 64-bit marker, or the length itself
  have forms : ((b1 &&& 0x7F).toNat = 126 ∧ extendedLenBytes b1 = 2) ∨
      ((b1 &&& 0x7F).toNat = 127 ∧ extendedLenBytes b1 = 8) ∨
      ((b1 &&& 0x7F).toNat ≤ 125 ∧ extendedLenBytes b1 = 0) := by
    by_cases m126 : (b1 &&& 0x7F).toNat = 126
    · exact .inl ⟨m126, by simp [extendedLenBytes, m126]⟩
    by_cases m127 : (b1 &&& 0x7F).toNat = 127
    · exact .inr (.inl ⟨m127, by simp [extendedLenBytes, m127]⟩)
    refine .inr (.inr ⟨by omega, ?_⟩)
    unfold extendedLenBytes
    split
    · contradiction
    · contradiction
    · rfl
  have marked : ∀ w, ext.length = w + 1 → spelled b1 ext = ofBigEndian ext := fun w size => by
    have : ext.isEmpty = false := by simp [← List.length_eq_zero_iff, size]
    simp [spelled, this]
  unfold extLen at shortest
  unfold lenField extBytes
  rcases forms with ⟨marker, two⟩ | ⟨marker, eight⟩ | ⟨tiny, zero⟩
  · rw [two] at shortest extSize
    have range : 125 < spelled b1 ext ∧ spelled b1 ext ≤ 65535 := by
      split_ifs at shortest <;> omega
    rw [if_neg (by omega), if_pos range.2, if_neg (by omega), if_pos range.2, marked 1 extSize,
      ← extSize, bigEndian_ofBigEndian]
    exact ⟨UInt8.toNat_inj.mp (by rw [marker]; rfl), rfl⟩
  · rw [eight] at shortest extSize
    have range : 65535 < spelled b1 ext := by
      split_ifs at shortest <;> omega
    rw [if_neg (by omega), if_neg (by omega), if_neg (by omega), if_neg (by omega), marked 7 extSize,
      ← extSize, bigEndian_ofBigEndian]
    exact ⟨UInt8.toNat_inj.mp (by rw [marker]; rfl), rfl⟩
  · rw [zero] at extSize
    rw [List.length_eq_zero_iff.mp extSize]
    have value : spelled b1 [] = (b1 &&& 0x7F).toNat := by simp [spelled]
    rw [value, if_pos tiny, if_pos tiny]
    exact ⟨UInt8.toNat_inj.mp (by simp), rfl⟩

/-- The bytes of every header `decode?` reads are where it says they end, and writing the header
gives them back exactly when the reserved bits of the first byte are clear and the extended length
is the shortest for the length read. -/
theorem encode_eq_take_iff {x : List UInt8} {h : FrameHeader} {n : Nat}
    (dec : decode? x = some (h, n)) :
    n ≤ x.length ∧ (h.encode = x.take n ↔
      x.getD 0 0 &&& 0x70 = 0 ∧ extendedLenBytes (x.getD 1 0) = extLen h.payloadLen.toNat) := by
  obtain ⟨b0, b1, ext, key, tail, rfl, extSize, keySize, rfl, rfl⟩ := decode?_eq_some dec
  refine ⟨by simp; omega, ?_⟩
  have length : (spelled b1 ext).toUInt64.toNat = spelled b1 ext :=
    UInt64.toNat_ofNat_of_lt' (FrameReader.announced_lt extSize)
  have masked : (MaskKey.ofList? key).isSome = (b1 &&& 0x80 != 0) := by
    by_cases flag : (b1 &&& 0x80 != 0) = true
    · rw [if_pos flag] at keySize
      obtain ⟨k0, k1, k2, k3, rfl⟩ := List.length_eq_four.mp keySize
      simp [MaskKey.ofList?, flag]
    · rw [if_neg flag] at keySize
      rw [List.length_eq_zero_iff.mp keySize]
      simp [MaskKey.ofList?, flag]
  have keys : keyBytes (MaskKey.ofList? key) = key := by
    by_cases flag : (b1 &&& 0x80 != 0) = true
    · rw [if_pos flag] at keySize
      obtain ⟨k0, k1, k2, k3, rfl⟩ := List.length_eq_four.mp keySize
      rfl
    · rw [if_neg flag] at keySize
      rw [List.length_eq_zero_iff.mp keySize]
      rfl
  have front : (b0 :: b1 :: (ext ++ key ++ tail)).take (2 + ext.length + key.length) =
      b0 :: b1 :: (ext ++ key) := by
    rw [show 2 + ext.length + key.length = (ext ++ key).length + 1 + 1 by simp; omega,
      List.take_succ_cons, List.take_succ_cons, List.take_left' rfl]
  rw [front, encode_eq, ← keyBytes]
  simp only [length, masked, keys, List.getD_cons_zero, List.getD_cons_succ,
    List.cons.injEq, List.append_cancel_right_eq]
  constructor
  · rintro ⟨first, -, rest⟩
    have sizes := congrArg List.length rest
    rw [length_extBytes] at sizes
    exact ⟨(firstByte_read_iff b0).mp first, extSize.symm.trans sizes.symm⟩
  · rintro ⟨reserved, shortest⟩
    obtain ⟨field, extended⟩ := shortest_parts extSize shortest
    exact ⟨(firstByte_read_iff b0).mpr reserved, by rw [field, flagBit_or_field_read], extended⟩

/-! ## The codec -/

/-- Writing and reading a header agree, both ways. -/
theorem encode_decode_agree :
    (∀ (h : FrameHeader) (room : Nat), Opcode.ofBits h.opcode.bits = h.opcode →
      (h.encodeInto? room = none ↔ room < h.encodedLen) ∧
      (h.encodedLen ≤ room → h.encodeInto? room = some h.encode) ∧
      h.encode.length = h.encodedLen ∧
      extendedLenBytes (h.encode.getD 1 0) = h.encodedLen - 2 - (if h.mask.isSome then 4 else 0) ∧
      (∀ tail, decode? (h.encode ++ tail) = some (h, h.encodedLen)) ∧
      (∀ k < h.encodedLen, decode? (h.encode.take k) = none)) ∧
    (∀ (x : List UInt8) (h : FrameHeader) (n : Nat), decode? x = some (h, n) →
      n ≤ x.length ∧ (h.encode = x.take n ↔
        x.getD 0 0 &&& 0x70 = 0 ∧ extendedLenBytes (x.getD 1 0) = extLen h.payloadLen.toNat)) := by
  refine ⟨fun h room named => ?_, fun x h n dec => encode_eq_take_iff dec⟩
  have refused : h.encodeInto? room = none ↔ room < h.encodedLen := by
    unfold encodeInto?
    split_ifs <;> simp <;> omega
  exact ⟨refused, fun fits => if_pos fits, length_encode h, extendedLenBytes_encode h,
    decode?_encode_append h named, fun _ short => decode?_take_encode h short⟩

example :
    let h : FrameHeader := { fin := false, opcode := .continuation, mask := some ⟨1, 2, 3, 4⟩,
                             payloadLen := 300 }
    decode? (h.encode ++ [9]) = some (h, 8) := by
  decide

end FrameHeader

end WebSocketCore
