import Mathlib
import WebSocketCore.WebSocket.Reader
import WebSocketCore.Proofs.Io.Stream

/-! # The frame reader streams the data payloads

A client's frames reach the reader as one byte stream, cut into chunks anyhow. `WireFrame` is a
frame as the client sends it: header bytes that `FrameHeader.decode?` reads whole, in any of the
length forms, and the payload as it is on the wire. At a frame boundary a read owes what
`owedFrames` says: the frames before the next data frame are consumed whole and dropped, a close
frame is consumed and ends reading with `connectionClosed`, and a data frame gives the first
`min cap len` bytes of its payload, unmasked with its key from the first payload byte on. Inside
a data frame a read gives the next bytes of the unmasked payload.

The reader parses headers itself; `nextFrame_reads` is where the two parsers meet: on the bytes
of any header that `decode?` reads whole, the reader takes the same final flag, opcode, length
and key, and consumes exactly the header.

The frame loop gives up after `Routine.loopBudget` rounds, so a read that must skip that many
frames first is out of its reach: the boundary case asks for at most that many frames ahead.
-/

namespace WebSocketCore

/-- A big-endian number of `k` bytes is below `256 ^ k`. -/
theorem ofBigEndian_lt (bs : List UInt8) : ofBigEndian bs < 256 ^ bs.length := by
  suffices below : ∀ acc, bs.foldl (fun acc b => acc * 256 + b.toNat) acc <
      (acc + 1) * 256 ^ bs.length by
    simpa [ofBigEndian] using below 0
  induction bs with
  | nil => intro acc; simp
  | cons b bs ih =>
    intro acc
    have byte : b.toNat < 256 := b.toNat_lt
    calc (b :: bs).foldl (fun acc b => acc * 256 + b.toNat) acc
        < (acc * 256 + b.toNat + 1) * 256 ^ bs.length := ih _
      _ ≤ ((acc + 1) * 256) * 256 ^ bs.length := Nat.mul_le_mul_right _ (by omega)
      _ = (acc + 1) * 256 ^ (b :: bs).length := by
        rw [List.length_cons, Nat.pow_succ, Nat.mul_comm (256 ^ _), Nat.mul_assoc]

namespace MaskKey

/-- Unmasking the first `n` bytes gives the first `n` unmasked bytes. -/
theorem apply_take (m : MaskKey) (l : List UInt8) (n : Nat) :
    (m.apply l).take n = m.apply (l.take n) := by
  induction l generalizing m n with
  | nil => simp
  | cons b bs ih =>
    cases n with
    | zero => simp
    | succ n => simp [ih]

/-- Past the first `n` bytes, the unmasked bytes are the rest unmasked with the key turned by
`n`. -/
theorem apply_drop (m : MaskKey) (l : List UInt8) (n : Nat) :
    (m.apply l).drop n = (m.turnBy n).apply (l.drop n) := by
  induction l generalizing m n with
  | nil => simp
  | cons b bs ih =>
    cases n with
    | zero => simp
    | succ n => simp [ih, turnBy_succ]

end MaskKey

namespace FrameHeader

/-- The bytes of a header that `decode?` reads whole: the two fixed bytes, the extended length
that the second byte announces, and the key if the mask flag is set. -/
theorem decode?_whole {head : List UInt8} {h : FrameHeader}
    (dec : decode? head = some (h, head.length)) :
    ∃ b0 b1 ext key, head = b0 :: b1 :: (ext ++ key) ∧ ext.length = extendedLenBytes b1 ∧
      key.length = (if b1 &&& 0x80 != 0 then 4 else 0) ∧
      h = ⟨b0 &&& 0x80 != 0, Opcode.ofBits b0, MaskKey.ofList? key,
        (if ext.isEmpty then (b1 &&& 0x7F).toNat else ofBigEndian ext).toUInt64⟩ := by
  match head, dec with
  | b0 :: b1 :: rest, dec =>
    simp only [decode?] at dec
    by_cases short : rest.length < extendedLenBytes b1
    · rw [if_pos short] at dec
      cases dec
    rw [if_neg short] at dec
    -- `decode?` asks whether the extended length is empty by its size, the reader by its bytes
    have empty : (rest.take (extendedLenBytes b1)).isEmpty = true ↔ extendedLenBytes b1 = 0 := by
      rw [List.isEmpty_iff, ← List.length_eq_zero_iff, List.length_take]
      omega
    by_cases masked : (b1 &&& 0x80 != 0) = true
    · rw [if_pos masked] at dec
      split at dec
      · rename_i k0 k1 k2 k3 more keyed
        obtain ⟨rfl, whole⟩ := Prod.mk.inj (Option.some.inj dec)
        have sizes : more = [] := by
          have := congrArg List.length keyed
          simp only [List.length_drop, List.length_cons] at this whole
          exact List.eq_nil_of_length_eq_zero (by omega)
        subst more
        refine ⟨b0, b1, rest.take (extendedLenBytes b1), [k0, k1, k2, k3], ?_, ?_, by simp [masked],
          by simp only [empty, MaskKey.ofList?]⟩
        · rw [← keyed, List.take_append_drop]
        · simp only [List.length_take]
          omega
      · cases dec
    · rw [if_neg masked] at dec
      obtain ⟨rfl, whole⟩ := Prod.mk.inj (Option.some.inj dec)
      have whole : rest.take (extendedLenBytes b1) = rest := by
        simp only [List.length_cons] at whole
        exact List.take_of_length_le (by omega)
      refine ⟨b0, b1, rest, [], by simp, ?_, by simp [masked], ?_⟩
      · rw [← whole, List.length_take]
        omega
      · have emptyRest : rest.isEmpty = true ↔ extendedLenBytes b1 = 0 := by
          rw [← whole]
          exact empty
        simp only [emptyRest, whole, MaskKey.ofList?]

end FrameHeader

/-- A frame as a client sends it: header bytes that `FrameHeader.decode?` reads whole, in any of
the length forms, and the payload as it is on the wire. -/
structure WireFrame where
  /-- The header's bytes. -/
  head : List UInt8
  /-- The header they encode. -/
  header : FrameHeader
  /-- The payload as it is on the wire, masked if the header holds a key. -/
  payload : List UInt8
  decodes : FrameHeader.decode? head = some (header, head.length)
  sized : payload.length = header.payloadLen.toNat

namespace WireFrame

/-- The frame's bytes on the wire. -/
def bytes (f : WireFrame) : List UInt8 := f.head ++ f.payload

/-- The key the payload is masked with; the key of zeros of an unmasked frame changes nothing. -/
def key (f : WireFrame) : MaskKey := f.header.mask.getD ⟨0, 0, 0, 0⟩

end WireFrame

namespace FrameReader

/-- What a reader makes of a frame. -/
inductive Treat where
  /-- Its payload is data of a message with this opcode. -/
  | data (message : Opcode)
  /-- It ends reading. -/
  | close
  /-- It is dropped whole. -/
  | skip
  deriving DecidableEq

/-- How a reader treats a frame with opcode `opcode` while `message` is the opcode of the message
a continuation would continue: text and binary frames are data of their own opcode, a
continuation is data of the open message and is dropped when none is open, a close frame ends
reading, and ping, pong and reserved frames are dropped. -/
def treat (message : Option Opcode) : Opcode → Treat
  | .text => .data .text
  | .binary => .data .binary
  | .continuation => match message with
    | some m => .data m
    | none => .skip
  | .close => .close
  | _ => .skip

/-- The reader at the start of the payload of a data frame with header `h`, read as part of a
message of opcode `eff`. -/
def atFrame (h : FrameHeader) (eff : Opcode) : FrameReader :=
  { remaining := h.payloadLen.toNat, mask := h.mask.getD ⟨0, 0, 0, 0⟩,
    message := if h.fin then none else some eff, opcode := some eff, fin := h.fin }

/-- Reading `n` payload bytes whose wire form starts `wire`: the bytes unmasked with the reader's
key, and the reader with `n` fewer bytes to read and its key turned past them. -/
def advance (rd : FrameReader) (n : Nat) (wire : List UInt8) : List UInt8 × FrameReader :=
  (rd.mask.apply (wire.take n), { rd with remaining := rd.remaining - n, mask := rd.mask.turnBy n })

/-- Where a read at a frame boundary stops, with the frames `fs` ahead: past the frames it drops,
at a data frame, read as part of a message of the opcode it answers, or at a close frame, which
fails the read with `connectionClosed`. With the bytes consumed: up to the data frame's payload,
or through the close frame. Nothing if the frames end first. -/
def stopAt (message : Option Opcode) : List WireFrame →
    Option (Except NetError (WireFrame × Opcode) × Nat)
  | [] => none
  | f :: fs => match treat message f.header.opcode with
    | .data eff => some (.ok (f, eff), f.head.length)
    | .close => some (.error .connectionClosed, f.bytes.length)
    | .skip => (stopAt message fs).map fun (r, n) => (r, f.bytes.length + n)

/-- What a read of up to `cap` bytes owes at a frame boundary with the frames `fs` ahead, and the
bytes it consumes: it stops where `stopAt` says, and at a data frame reads the first
`min cap len` bytes of the payload, unmasked with the frame's key from its first payload byte
on. -/
def owedFrames (message : Option Opcode) (cap : Nat) (fs : List WireFrame) :
    Option (Except NetError (List UInt8 × FrameReader) × Nat) :=
  (stopAt message fs).map fun
    | (.error e, n) => (.error e, n)
    | (.ok (f, eff), n) =>
      let k := min cap f.payload.length
      (.ok ((atFrame f.header eff).advance k f.payload), n + k)

/-- The length a header announces fits the 64-bit length field. -/
theorem announced_lt {b1 : UInt8} {ext : List UInt8} (extSize : ext.length = extendedLenBytes b1) :
    (if ext.isEmpty then (b1 &&& 0x7F).toNat else ofBigEndian ext) < 2 ^ 64 := by
  split
  · have := (b1 &&& 0x7F).toNat_lt
    omega
  · have within : ext.length ≤ 8 := by
      rw [extSize, extendedLenBytes]
      split <;> omega
    calc ofBigEndian ext < 256 ^ ext.length := ofBigEndian_lt ext
      _ ≤ 256 ^ 8 := Nat.pow_le_pow_right (by omega) within
      _ = 2 ^ 64 := rfl

open Routine.Reads in
/-- The reader parses a header as `FrameHeader.decode?` does: on the bytes of any frame it reads
the final flag, the opcode, the payload length and the key of the frame's header, and consumes
exactly the header. -/
theorem readHeader_reads {τ σ : Type} (f : WireFrame) (more : List UInt8) :
    Routine.Reads (readHeader (τ := τ) (σ := σ)).run (f.bytes ++ more) fun r n =>
      r = .ok (f.header.fin, f.header.opcode, f.header.payloadLen.toNat, f.key) ∧
        n = f.head.length := by
  obtain ⟨b0, b1, ext, key, head, extSize, keySize, header⟩ := FrameHeader.decode?_whole f.decodes
  have stream : f.bytes ++ more = b0 :: b1 :: (ext ++ (key ++ (f.payload ++ more))) := by
    simp [WireFrame.bytes, head]
  have fits := announced_lt extSize
  rw [stream, readHeader]
  refine io_bind (readExact (n := 2) (by simp)) (fun base n₁ ⟨got, count⟩ => ?_)
    fun e _ ⟨got, _⟩ => by cases got
  cases got
  subst count
  simp only [List.take_succ_cons, List.take_zero, List.getD_cons_succ, List.getD_cons_zero,
    List.drop_succ_cons, List.drop_zero]
  refine io_bind (readExact (n := extendedLenBytes b1) (by simp [extSize]))
    (fun ext' n₂ ⟨got, count⟩ => ?_) fun e _ ⟨got, _⟩ => by cases got
  cases got
  subst count
  rw [List.take_left' extSize, List.drop_left' extSize]
  -- the answer, once the key is read: the header's fields, its length read back from 64 bits
  have answer : (Except.ok (b0 &&& 0x80 != 0, Opcode.ofBits b0,
      if ext.isEmpty then (b1 &&& 0x7F).toNat else ofBigEndian ext, f.key) : Except NetError _) =
      .ok (f.header.fin, f.header.opcode, f.header.payloadLen.toNat, f.key) := by
    rw [header]
    generalize (if ext.isEmpty then (b1 &&& 0x7F).toNat else ofBigEndian ext) = len at fits ⊢
    rw [Nat.toUInt64_eq, UInt64.toNat_ofNat_of_lt' fits]
  have size : f.head.length = 2 + (extendedLenBytes b1 + key.length) := by
    simp only [head, List.length_cons, List.length_append, extSize]
    omega
  -- the key: four bytes if the mask flag is set, none otherwise
  split
  · rename_i masked
    have four : key.length = 4 := by simp [keySize, masked]
    refine io_bind (readExact (n := 4) (by simp [four])) (fun k n₃ ⟨got, count⟩ => ?_)
      fun e _ ⟨got, _⟩ => by cases got
    cases got
    subst count
    rw [← four, List.take_left]
    refine io_bind (io_pure (Q := fun r n => r = .ok f.key ∧ n = 0)
      ⟨by simp [WireFrame.key, header], rfl⟩) (fun mask n₄ ⟨got, count⟩ => ?_)
      fun e _ ⟨got, _⟩ => by cases got
    cases got
    subst count
    exact io_pure ⟨answer, by omega⟩
  · rename_i masked
    have none : key = [] := List.eq_nil_of_length_eq_zero (by simp [keySize, masked])
    subst none
    refine io_bind (io_pure (Q := fun r n => r = .ok f.key ∧ n = 0)
      ⟨by simp [WireFrame.key, header, MaskKey.ofList?], rfl⟩) (fun mask n₄ ⟨got, count⟩ => ?_)
      fun e _ ⟨got, _⟩ => by cases got
    cases got
    subst count
    exact io_pure ⟨answer, by simp only [List.length_nil] at size; omega⟩

open Routine.Reads in
/-- On the bytes of any frame, `nextFrame` reads the header as `FrameHeader.decode?` does, then
drops the whole frame if it is one to skip, consumes a close frame whole and fails, and for a data
frame answers the reader set to its payload. -/
theorem nextFrame_reads {τ σ : Type} (rd : FrameReader) (f : WireFrame) (more : List UInt8) :
    Routine.Reads (rd.nextFrame (τ := τ) (σ := σ)).run (f.bytes ++ more) fun r n =>
      match treat rd.message f.header.opcode with
      | .data eff => r = .ok (some (atFrame f.header eff)) ∧ n = f.head.length
      | .close => r = .error .connectionClosed ∧ n = f.bytes.length
      | .skip => r = .ok none ∧ n = f.bytes.length := by
  rw [nextFrame]
  refine io_bind (readHeader_reads f more) (fun header n₁ post => ?_) fun e _ post => by cases post.1
  obtain ⟨got, rfl⟩ := post
  cases got
  have rest : (f.bytes ++ more).drop f.head.length = f.payload ++ more := by
    simp [WireFrame.bytes]
  rw [rest]
  have enough : f.header.payloadLen.toNat ≤ (f.payload ++ more).length := by
    simp [← f.sized]
  have whole : f.head.length + (f.header.payloadLen.toNat + 0) = f.bytes.length := by
    simp [WireFrame.bytes, ← f.sized]
  cases op : f.header.opcode
  all_goals dsimp only
  all_goals simp only [treat]
  -- a frame to skip: its payload is dropped whole and nothing is answered
  case continuation =>
    cases rd.message with
    | some m => exact io_pure_bind (io_pure ⟨rfl, rfl⟩)
    | none =>
      exact io_bind (skip enough) (fun _ n post => by
          obtain ⟨-, rfl⟩ := post
          exact io_pure_bind (io_pure ⟨rfl, whole⟩))
        fun e _ post => by cases post.1
  case text | binary => exact io_pure_bind (io_pure ⟨rfl, rfl⟩)
  case close =>
    exact io_bind (skip enough) (fun _ n post => by
        obtain ⟨-, rfl⟩ := post
        exact io_throw_bind ⟨rfl, whole⟩)
      fun e _ post => by cases post.1
  all_goals
    exact io_bind (skip enough) (fun _ n post => by
        obtain ⟨-, rfl⟩ := post
        exact io_pure_bind (io_pure ⟨rfl, whole⟩))
      fun e _ post => by cases post.1

@[simp] theorem advance_zero (rd : FrameReader) (wire : List UInt8) : rd.advance 0 wire = ([], rd) :=
  rfl

/-- Reading needs only the bytes it reads. -/
theorem advance_append (rd : FrameReader) {n : Nat} {wire : List UInt8} (within : n ≤ wire.length)
    (more : List UInt8) : rd.advance n (wire ++ more) = rd.advance n wire := by
  simp only [advance, List.take_append_of_le_length within]

open Routine.Reads in
/-- The frame loop, with at least as many rounds as frames ahead, stops where `stopAt` says: at a
data frame with the reader set to its payload, or failing at a close frame. -/
theorem frameLoop_reads {τ σ : Type} (rd : FrameReader) (tail : List UInt8) :
    ∀ (fs : List WireFrame) (rounds : Nat) {stop : Except NetError (WireFrame × Opcode)} {n : Nat},
      stopAt rd.message fs = some (stop, n) → fs.length ≤ rounds →
      Routine.Reads (Io.loopFor (τ := τ) (σ := σ) rounds rd.frameRound ()).run
        (fs.flatMap WireFrame.bytes ++ tail)
        fun r n' => r = stop.map (fun (f, eff) => atFrame f.header eff) ∧ n' = n := by
  intro fs
  induction fs with
  | nil => intro rounds stop n stops; cases stops
  | cons f fs ih =>
    intro rounds stop n stops few
    obtain ⟨rounds, rfl⟩ : ∃ r, rounds = r + 1 := ⟨rounds - 1, by simp at few; omega⟩
    have stream : (f :: fs).flatMap WireFrame.bytes ++ tail =
        f.bytes ++ (fs.flatMap WireFrame.bytes ++ tail) := by
      simp
    rw [stream]
    simp only [stopAt] at stops
    refine loopFor_succ (io_bind (nextFrame_reads rd f _) (fun x n₁ post => ?_)
      fun e n₁ post => ?_)
    -- the frame was read: the loop ends at a data frame and goes on past a dropped one
    · cases treats : treat rd.message f.header.opcode with
      | data eff =>
        rw [treats] at stops post
        obtain ⟨got, rfl⟩ := post
        cases got
        cases stops
        exact io_pure ⟨rfl, rfl⟩
      | close =>
        rw [treats] at post
        cases post.1
      | skip =>
        rw [treats] at stops post
        obtain ⟨got, rfl⟩ := post
        cases got
        obtain ⟨⟨stop', n'⟩, stops', found⟩ := Option.map_eq_some_iff.mp stops
        cases found
        refine io_pure ?_
        have rest := ih rounds stops' (by simp at few; omega)
        rw [Nat.add_zero, List.drop_left]
        exact rest.mono fun r m answers => ⟨answers.1, by rw [answers.2]⟩
    -- the read failed: only a close frame fails it
    · cases treats : treat rd.message f.header.opcode with
      | data eff =>
        rw [treats] at post
        cases post.1
      | close =>
        rw [treats] at stops post
        obtain ⟨got, rfl⟩ := post
        cases got
        cases stops
        exact ⟨rfl, rfl⟩
      | skip =>
        rw [treats] at post
        cases post.1

/-- Where a read stops at a data frame, the stream goes on with that frame's payload. -/
theorem stopAt_payload {message : Option Opcode} {fs : List WireFrame} {f : WireFrame}
    {eff : Opcode} {n : Nat} (stops : stopAt message fs = some (.ok (f, eff), n))
    (tail : List UInt8) :
    ∃ rest, (fs.flatMap WireFrame.bytes ++ tail).drop n = f.payload ++ rest := by
  induction fs generalizing n with
  | nil => cases stops
  | cons g fs ih =>
    simp only [stopAt] at stops
    cases treats : treat message g.header.opcode with
    | data eff' =>
      rw [treats] at stops
      cases stops
      exact ⟨fs.flatMap WireFrame.bytes ++ tail, by simp [WireFrame.bytes]⟩
    | close =>
      rw [treats] at stops
      cases stops
    | skip =>
      rw [treats] at stops
      obtain ⟨⟨stop', n'⟩, stops', found⟩ := Option.map_eq_some_iff.mp stops
      cases found
      obtain ⟨rest, drops⟩ := ih stops'
      refine ⟨rest, ?_⟩
      rw [← List.drop_drop, List.flatMap_cons, List.append_assoc, List.drop_left, drops]

open Routine.Reads in
/-- `readPayload` reads `min cap remaining` bytes off the stream, unmasked piece by piece with the
key turned after each piece, which is unmasking them at once with the reader's key. -/
theorem readPayload_reads {τ σ : Type} (rd : FrameReader) (cap : Nat) {s : List UInt8}
    (enough : min cap rd.remaining ≤ s.length) :
    Routine.Reads (rd.readPayload (τ := τ) (σ := σ) cap).run s fun r n =>
      r = .ok (rd.advance (min cap rd.remaining) s) ∧ n = min cap rd.remaining := by
  rw [readPayload]
  by_cases used : rd.remaining = 0
  · rw [if_pos used]
    exact io_pure ⟨by simp [used], by simp [used]⟩
  rw [if_neg used]
  generalize wants : min cap rd.remaining = want at enough ⊢
  -- what was read is the first `k` bytes unmasked, the key is turned past them, and `want - k`
  -- bounds the rounds still needed
  refine io_bind (loopFor_variant (k := 0)
    (fun x k => x.1 = rd.mask.apply (s.take k) ∧ x.2 = rd.mask.turnBy k ∧ k ≤ want)
    (fun _ k => want - k)
    (Q := fun r n => r = .ok (rd.mask.apply (s.take want), rd.mask.turnBy want) ∧ n = want)
    (fun x k inv => ?_) ⟨rfl, rfl, Nat.zero_le _⟩ (by omega))
    (fun x n post => ?_) fun e n post => by cases post.1
  · obtain ⟨acc, mask⟩ := x
    obtain ⟨built, turned, within⟩ := inv
    dsimp only at built turned
    subst built turned
    have length : (rd.mask.apply (s.take k)).length = k := by
      simp only [MaskKey.length_apply, List.length_take]
      omega
    dsimp only
    rw [length]
    by_cases full : want ≤ k
    · rw [if_pos full]
      exact io_pure ⟨by rw [show k = want by omega], by omega⟩
    · rw [if_neg full]
      have ready : s.drop k ≠ [] := by
        simp only [ne_eq, List.drop_eq_nil_iff]
        omega
      refine io_bind (readSome (by omega) ready) (fun piece p post => ?_)
        fun e m post => by cases post.2.2
      obtain ⟨pos, atMost, got⟩ := post
      cases got
      have taken : ((s.drop k).take p).length = p := by
        simp only [List.length_take, List.length_drop]
        omega
      refine io_pure ⟨⟨?_, ?_, by omega⟩, by omega⟩
      · have front : (s.take k).length = k := by
          simp only [List.length_take]
          omega
        simp only [MaskKey.applyPiece, Nat.add_zero]
        rw [List.take_add, MaskKey.apply_append, front]
      · simp only [MaskKey.applyPiece, Nat.add_zero, taken, MaskKey.turnBy_mod_four,
          MaskKey.turnBy_add]
  · obtain ⟨got, rfl⟩ := post
    cases got
    exact io_pure ⟨rfl, by omega⟩

open Routine.Reads in
/-- The frame loop of a read stops where `stopAt` says, for at most `loopBudget` frames ahead. -/
theorem nextData_reads {τ σ : Type} (rd : FrameReader) {fs : List WireFrame}
    {stop : Except NetError (WireFrame × Opcode)} {n : Nat} (stops : stopAt rd.message fs = some (stop, n))
    (few : fs.length ≤ Routine.loopBudget) (tail : List UInt8) :
    Routine.Reads (rd.nextData (τ := τ) (σ := σ)).run (fs.flatMap WireFrame.bytes ++ tail)
      fun r n' => r = stop.map (fun (f, eff) => atFrame f.header eff) ∧ n' = n := by
  rw [nextData, Io.loop]
  exact frameLoop_reads rd tail fs _ stops few

open Routine.Reads in
/-- At a frame boundary, with at most `loopBudget` frames ahead, a read answers what
`owedFrames` says. -/
theorem read_at_boundary {τ σ : Type} {rd : FrameReader} {cap : Nat} (pos : 0 < cap)
    (boundary : rd.remaining = 0) {fs : List WireFrame} (few : fs.length ≤ Routine.loopBudget)
    {r : Except NetError (List UInt8 × FrameReader)} {n : Nat}
    (owes : owedFrames rd.message cap fs = some (r, n)) (tail : List UInt8) :
    Routine.Reads (rd.read (τ := τ) (σ := σ) cap).run (fs.flatMap WireFrame.bytes ++ tail)
      fun r' n' => r' = r ∧ n' = n := by
  obtain ⟨⟨stop, m⟩, stops, answer⟩ := Option.map_eq_some_iff.mp owes
  rw [read, if_neg (Nat.pos_iff_ne_zero.mp pos), if_pos boundary]
  refine io_bind (nextData_reads rd stops few tail) (fun rd' n₁ ⟨got, count⟩ => ?_)
    fun e n₁ ⟨got, count⟩ => ?_
  -- stopped at a data frame: its payload follows
  · subst count
    rcases stop with e | ⟨f, eff⟩
    · cases got
    cases got
    cases answer
    obtain ⟨rest, drops⟩ := stopAt_payload stops tail
    rw [drops]
    have len : (atFrame f.header eff).remaining = f.payload.length := f.sized.symm
    have within : min cap f.payload.length ≤ f.payload.length := Nat.min_le_right _ _
    refine (readPayload_reads (atFrame f.header eff) cap (by rw [len, List.length_append]; omega)).mono
      fun r' n' ⟨got, count⟩ => ⟨?_, by simp only [count, len]⟩
    rw [got, len, advance_append _ within rest]
  -- stopped at a close frame
  · rcases stop with e' | ⟨f, eff⟩
    · cases got
      cases answer
      exact ⟨rfl, count⟩
    · cases got

open Routine.Reads in
/-- Inside a data frame, `o` bytes into its payload, a read answers the payload's next
`min cap r` bytes unmasked with the frame's key from its first payload byte on, `r` being what is
left of the payload, and leaves the reader that many bytes further in. -/
theorem read_inside {τ σ : Type} {cap : Nat} (pos : 0 < cap) (f : WireFrame) (eff : Opcode)
    {o : Nat} (inside : o < f.payload.length) (more : List UInt8) :
    Routine.Reads (((atFrame f.header eff).advance o f.payload).2.read (τ := τ) (σ := σ) cap).run
      (f.payload.drop o ++ more) fun r n =>
        r = .ok (((f.key.apply f.payload).drop o).take n,
          ((atFrame f.header eff).advance (o + n) f.payload).2) ∧
        n = min cap (f.payload.length - o) := by
  have left : ((atFrame f.header eff).advance o f.payload).2.remaining = f.payload.length - o := by
    simp [advance, atFrame, f.sized]
  rw [read, if_neg (Nat.pos_iff_ne_zero.mp pos), if_neg (by omega)]
  have within : min cap (f.payload.length - o) ≤ (f.payload.drop o).length := by
    simp only [List.length_drop]
    omega
  refine io_pure_bind ((readPayload_reads _ cap (by simp only [left, List.length_append]; omega)).mono
    fun r n ⟨got, count⟩ => ⟨?_, by rw [count, left]⟩)
  rw [got, count, left, advance_append _ within more]
  simp only [advance, atFrame, WireFrame.key, MaskKey.apply_drop, MaskKey.apply_take,
    MaskKey.turnBy_add, Nat.sub_sub]

/-- The frame reader streams exactly the data payloads of the frames, however cut. -/
theorem read_streams_payloads {τ σ : Type} {cap : Nat} (pos : 0 < cap) :
    (∀ (rd : FrameReader) (fs : List WireFrame) (tail : List UInt8)
        (r : Except NetError (List UInt8 × FrameReader)) (n : Nat),
      rd.remaining = 0 → fs.length ≤ Routine.loopBudget → owedFrames rd.message cap fs = some (r, n) →
      Routine.Reads (rd.read (τ := τ) (σ := σ) cap).run (fs.flatMap WireFrame.bytes ++ tail)
        fun r' n' => r' = r ∧ n' = n) ∧
    (∀ (f : WireFrame) (eff : Opcode) (o : Nat) (more : List UInt8), o < f.payload.length →
      Routine.Reads (((atFrame f.header eff).advance o f.payload).2.read (τ := τ) (σ := σ) cap).run
        (f.payload.drop o ++ more) fun r n =>
          r = .ok (((f.key.apply f.payload).drop o).take n,
            ((atFrame f.header eff).advance (o + n) f.payload).2) ∧
          n = min cap (f.payload.length - o)) :=
  ⟨fun _ _ tail _ _ boundary few owes => read_at_boundary pos boundary few owes tail,
    fun f eff _ more inside => read_inside pos f eff inside more⟩

/-- A read drops a masked ping whole, then unmasks the next text frame's first bytes. -/
theorem read_drops_ping_then_unmasks_text :
    let key : MaskKey := ⟨0x37, 0xFA, 0x21, 0x3D⟩
    let ping : WireFrame := ⟨[0x89, 0x82, 0x37, 0xFA, 0x21, 0x3D], ⟨true, .ping, some key, 2⟩,
      key.apply [0x68, 0x69], by decide, by decide⟩
    let text : WireFrame := ⟨[0x81, 0xFE, 0x00, 0x03, 0x37, 0xFA, 0x21, 0x3D],
      ⟨true, .text, some key, 3⟩, key.apply [0x48, 0x65, 0x79], by decide, by decide⟩
    let after : FrameReader :=
      { remaining := 1, mask := key.turnBy 2, message := none, opcode := some .text, fin := true }
    0 < 2 ∧ ({} : FrameReader).remaining = 0 ∧ [ping, text].length ≤ Routine.loopBudget ∧
      owedFrames none 2 [ping, text] = some (.ok ([0x48, 0x65], after), 18) ∧
      Routine.Reads (({} : FrameReader).read (τ := Unit) (σ := Unit) 2).run
        ([ping, text].flatMap WireFrame.bytes ++ []) fun r n => r = .ok ([0x48, 0x65], after) ∧ n = 18 :=
  ⟨by decide, rfl, by decide, rfl,
    (read_streams_payloads (by decide)).1 _ _ [] _ _ rfl (by decide) rfl⟩

end FrameReader

end WebSocketCore
