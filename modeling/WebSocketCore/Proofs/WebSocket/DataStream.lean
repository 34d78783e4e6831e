import Mathlib
import WebSocketCore.Proofs.WebSocket.PayloadStream
import WebSocketCore.WebSocket.Service

/-! # The data a reader delivers

`read_streams_payloads` says what one read answers. Over a run of reads, a reader delivers the
data stream of the client's frames (`FrameReader.dataStream`): the unmasked payloads of the text
and binary frames and of the continuations inside an open message, in order, up to the first close
frame.

`Reading` says where a reader stands in the frames: at a frame boundary, or inside the payload of
a data frame; what it has delivered; and the bytes still to read. A read moves it on
(`Reading.read_cases`): it answers the next bytes of the stream and stands further on, or it fails
at a close frame, or only frames to drop are left, and then the read drops them and waits for
bytes (`read_feed_waits`).
-/

namespace WebSocketCore

namespace Progress

variable {τ σ α β : Type}

/-- A task fed to a wait goes on to the same wait with what is bound after it. -/
theorem feed_bind_suspend {p : Progress (Conn τ σ) WaitReason Wake α} {cs cs' : List (List UInt8)}
    {y : WaitReason} {w : Conn τ σ} {k : Wake → Conn τ σ → Progress (Conn τ σ) WaitReason Wake α}
    (fed : p.feed cs = (.suspend y w k, cs'))
    (f : α → Conn τ σ → Progress (Conn τ σ) WaitReason Wake β) :
    (p.bind f).feed cs = (.suspend y w fun r w' => (k r w').bind f, cs') := by
  induction cs generalizing p with
  | nil =>
    rw [feed_nil] at fed
    cases fed
    rw [suspend_bind, feed_nil]
  | cons c cs ih =>
    cases p with
    | done a w₀ =>
      rw [feed_done] at fed
      cases fed
    | stall w₀ => cases fed
    | suspend y₀ w₀ k₀ =>
      cases y₀ with
      | recv => exact ih fed
      | _ => cases fed; rfl

end Progress

/-! ## Waiting for bytes at once -/

namespace Io

variable {τ σ α β ρ : Type}

/-- Started in `w`, the program waits for bytes at once, in `w`. -/
def WaitsAt (m : Io τ σ α) (w : Conn τ σ) : Prop := ∃ k, m.run w = .suspend .recv w k

namespace WaitsAt

variable {w : Conn τ σ}

theorem bind {m : Io τ σ α} {f : α → Io τ σ β} (waits : m.WaitsAt w) : (m >>= f).WaitsAt w := by
  obtain ⟨k, suspends⟩ := waits
  rw [WaitsAt, run_bind_apply, suspends, Progress.suspend_bind]
  exact ⟨_, rfl⟩

theorem loopFor {body : ρ → Io τ σ (ρ ⊕ α)} {s : ρ} (waits : (body s).WaitsAt w) {rounds : Nat}
    (pos : 0 < rounds) : (Io.loopFor rounds body s).WaitsAt w := by
  obtain ⟨rounds, rfl⟩ : ∃ r, rounds = r + 1 := ⟨rounds - 1, by omega⟩
  obtain ⟨k, suspends⟩ := waits
  rw [WaitsAt, run_loopFor_succ_apply, suspends, Progress.suspend_bind]
  exact ⟨_, rfl⟩

end WaitsAt

theorem loopBudget_pos : 0 < Routine.loopBudget := Nat.two_pow_pos 32

section Empty

variable {w : Conn τ σ} (clean : w.link.error = none) (empty : w.link.inbound = [])
include clean empty

theorem peekWith_waits (f : List UInt8 → Nat × β) : (peekWith f).WaitsAt w := by
  obtain ⟨k, waits, -⟩ := run_peekRound_of_empty f clean empty
  exact WaitsAt.loopFor ⟨k, waits⟩ loopBudget_pos

theorem readSome_waits {cap : Nat} (pos : 0 < cap) : (readSome cap).WaitsAt w := by
  unfold readSome
  rw [if_neg (by omega)]
  exact (peekWith_waits clean empty _).bind

theorem readExact_waits {n : Nat} (pos : 0 < n) : (readExact n).WaitsAt w := by
  unfold readExact
  refine WaitsAt.loopFor ?_ (by omega)
  rw [if_neg (by simp only [List.length_nil]; omega)]
  exact (readSome_waits clean empty (by omega)).bind

end Empty

end Io

/-! ## The data stream of a list of frames -/

namespace FrameReader

/-- The opcode of the message a continuation would continue once the frame `f` is read. -/
def messageNext (message : Option Opcode) (f : WireFrame) : Option Opcode :=
  match treat message f.header.opcode with
  | .data eff => if f.header.fin then none else some eff
  | _ => message

/-- The opcode of the message a continuation would continue once the frames `fs` are read. -/
def messageAfter (message : Option Opcode) (fs : List WireFrame) : Option Opcode :=
  fs.foldl messageNext message

/-- The data a reader delivers from the frames `fs`, while `message` is the opcode of the message
a continuation would continue: the unmasked payloads of the data frames, in order, up to the first
close frame. -/
def dataStream (message : Option Opcode) : List WireFrame → List UInt8
  | [] => []
  | f :: fs => match treat message f.header.opcode with
    | .data _ => f.key.apply f.payload ++ dataStream (messageNext message f) fs
    | .close => []
    | .skip => dataStream message fs

/-- Only a close frame ends reading. -/
theorem treat_eq_close_iff {message : Option Opcode} {op : Opcode} :
    treat message op = .close ↔ op = .close := by
  cases op <;> cases message <;> simp [treat]

theorem messageNext_of_skip {message : Option Opcode} {f : WireFrame}
    (skip : treat message f.header.opcode = .skip) : messageNext message f = message := by
  simp only [messageNext, skip]

theorem messageNext_of_data {message : Option Opcode} {f : WireFrame} {eff : Opcode}
    (data : treat message f.header.opcode = .data eff) :
    messageNext message f = if f.header.fin then none else some eff := by
  simp only [messageNext, data]

@[simp] theorem messageAfter_nil (message : Option Opcode) : messageAfter message [] = message := rfl

theorem messageAfter_append (message : Option Opcode) (fs gs : List WireFrame) :
    messageAfter message (fs ++ gs) = messageAfter (messageAfter message fs) gs :=
  List.foldl_append

variable {message : Option Opcode}

/-- Frames to drop leave the message as it was. -/
theorem messageAfter_skips {fs : List WireFrame}
    (skips : ∀ f ∈ fs, treat message f.header.opcode = .skip) : messageAfter message fs = message := by
  induction fs with
  | nil => rfl
  | cons f fs ih =>
    have first := skips f List.mem_cons_self
    show messageAfter (messageNext message f) fs = message
    rw [messageNext_of_skip first]
    exact ih fun g mem => skips g (List.mem_cons_of_mem _ mem)

/-- Frames to drop deliver nothing. -/
theorem dataStream_skips {fs : List WireFrame}
    (skips : ∀ f ∈ fs, treat message f.header.opcode = .skip) (gs : List WireFrame) :
    dataStream message (fs ++ gs) = dataStream message gs := by
  induction fs with
  | nil => rfl
  | cons f fs ih =>
    rw [List.cons_append, dataStream, skips f List.mem_cons_self]
    exact ih fun g mem => skips g (List.mem_cons_of_mem _ mem)

theorem dataStream_of_skips {fs : List WireFrame}
    (skips : ∀ f ∈ fs, treat message f.header.opcode = .skip) : dataStream message fs = [] := by
  have none := dataStream_skips skips []
  rw [List.append_nil] at none
  exact none

/-- Past frames with no close frame among them, the stream goes on with what follows them. -/
theorem dataStream_append {fs : List WireFrame} (unclosed : ∀ f ∈ fs, f.header.opcode ≠ .close)
    (gs : List WireFrame) :
    dataStream message (fs ++ gs) = dataStream message fs ++ dataStream (messageAfter message fs) gs := by
  induction fs generalizing message with
  | nil => rfl
  | cons f fs ih =>
    have rest := @ih (messageNext message f) fun g mem => unclosed g (List.mem_cons_of_mem _ mem)
    have notClose : treat message f.header.opcode ≠ .close :=
      fun closes => unclosed f List.mem_cons_self (treat_eq_close_iff.mp closes)
    rw [List.cons_append, dataStream, dataStream]
    cases treats : treat message f.header.opcode with
    | data eff =>
      rw [rest, List.append_assoc]
      rfl
    | close => exact absurd treats notClose
    | skip =>
      have next := messageNext_of_skip treats
      have after : messageAfter message (f :: fs) = messageAfter message fs := by
        show messageAfter (messageNext message f) fs = _
        rw [next]
      rw [next] at rest
      rw [after]
      exact rest

/-- More frames only lengthen the stream. -/
theorem dataStream_prefix (fs gs : List WireFrame) :
    dataStream message fs <+: dataStream message (fs ++ gs) := by
  induction fs generalizing message with
  | nil => exact List.nil_prefix
  | cons f fs ih =>
    rw [List.cons_append, dataStream, dataStream]
    cases treat message f.header.opcode with
    | data eff => exact (List.prefix_append_right_inj _).mpr ih
    | close => exact List.prefix_refl _
    | skip => exact ih

/-- A data frame delivers its payload, unmasked. -/
theorem dataStream_single {f : WireFrame} {eff : Opcode}
    (data : treat message f.header.opcode = .data eff) :
    dataStream message [f] = f.key.apply f.payload := by
  rw [dataStream, data, dataStream, List.append_nil]

/-- Frames to drop past frames with no close frame among them are no close frames either, and leave
the message and the stream where those frames left them. -/
theorem past_skips {fs skips : List WireFrame} (unclosed : ∀ f ∈ fs, f.header.opcode ≠ .close)
    (skipped : ∀ g ∈ skips, treat (messageAfter message fs) g.header.opcode = .skip) :
    (∀ g ∈ fs ++ skips, g.header.opcode ≠ .close) ∧
      messageAfter message (fs ++ skips) = messageAfter message fs ∧
      dataStream message (fs ++ skips) = dataStream message fs := by
  refine ⟨fun g mem closes => ?_, by rw [messageAfter_append, messageAfter_skips skipped],
    by rw [dataStream_append unclosed, dataStream_of_skips skipped, List.append_nil]⟩
  rcases List.mem_append.mp mem with mem | mem
  · exact unclosed g mem closes
  · have dropped := skipped g mem
    rw [treat_eq_close_iff.mpr closes] at dropped
    cases dropped

/-! ## Where a read stops -/

/-- A read that stops at a data frame has dropped the frames before it. -/
theorem stopAt_ok {fs : List WireFrame} {f : WireFrame} {eff : Opcode} {n : Nat}
    (stops : stopAt message fs = some (.ok (f, eff), n)) :
    ∃ skips rest, fs = skips ++ f :: rest ∧ (∀ g ∈ skips, treat message g.header.opcode = .skip) ∧
      treat message f.header.opcode = .data eff ∧
      n = (skips.flatMap WireFrame.bytes).length + f.head.length := by
  induction fs generalizing n with
  | nil => cases stops
  | cons g fs ih =>
    simp only [stopAt] at stops
    cases treats : treat message g.header.opcode with
    | data eff' =>
      rw [treats] at stops
      cases stops
      exact ⟨[], fs, rfl, by simp, treats, by simp⟩
    | close =>
      rw [treats] at stops
      cases stops
    | skip =>
      rw [treats] at stops
      obtain ⟨⟨stop', n'⟩, stops', found⟩ := Option.map_eq_some_iff.mp stops
      cases found
      obtain ⟨skips, rest, split, dropped, data, count⟩ := ih stops'
      refine ⟨g :: skips, rest, by rw [split, List.cons_append], ?_, data, ?_⟩
      · intro h mem
        rcases List.mem_cons.mp mem with rfl | mem
        · exact treats
        · exact dropped h mem
      · simp only [List.flatMap_cons, List.length_append, count]
        omega

/-- A read fails only at a close frame. -/
theorem stopAt_error {fs : List WireFrame} {e : NetError} {n : Nat}
    (stops : stopAt message fs = some (.error e, n)) :
    e = .connectionClosed ∧ ∃ f ∈ fs, f.header.opcode = .close := by
  induction fs generalizing n with
  | nil => cases stops
  | cons g fs ih =>
    simp only [stopAt] at stops
    cases treats : treat message g.header.opcode with
    | data eff =>
      rw [treats] at stops
      cases stops
    | close =>
      rw [treats] at stops
      cases stops
      exact ⟨rfl, g, List.mem_cons_self, treat_eq_close_iff.mp treats⟩
    | skip =>
      rw [treats] at stops
      obtain ⟨⟨stop', n'⟩, stops', found⟩ := Option.map_eq_some_iff.mp stops
      cases found
      obtain ⟨closed, f, mem, closes⟩ := ih stops'
      exact ⟨closed, f, List.mem_cons_of_mem _ mem, closes⟩

/-- A read finds no frame to stop at only among frames to drop. -/
theorem stopAt_none {fs : List WireFrame} (stops : stopAt message fs = none) :
    ∀ f ∈ fs, treat message f.header.opcode = .skip := by
  induction fs with
  | nil => simp
  | cons g fs ih =>
    simp only [stopAt] at stops
    intro f mem
    cases treats : treat message g.header.opcode with
    | data eff =>
      rw [treats] at stops
      cases stops
    | close =>
      rw [treats] at stops
      cases stops
    | skip =>
      rw [treats, Option.map_eq_none_iff] at stops
      rcases List.mem_cons.mp mem with rfl | mem
      · exact treats
      · exact ih stops f mem

end FrameReader

namespace WireFrame

/-- A frame's header has at least its two fixed bytes. -/
theorem two_le_head (f : WireFrame) : 2 ≤ f.head.length := by
  obtain ⟨b0, b1, ext, key, head, -⟩ := FrameHeader.decode?_whole f.decodes
  rw [head]
  simp

/-- There are no more frames than bytes. -/
theorem length_le_bytes (fs : List WireFrame) : fs.length ≤ (fs.flatMap bytes).length := by
  induction fs with
  | nil => simp
  | cons f fs ih =>
    have := f.two_le_head
    simp only [List.length_cons, List.flatMap_cons, List.length_append, bytes]
    omega

end WireFrame

/-! ## A reader in the frames -/

namespace FrameReader

/-- Where a reader stands in the frames `frames`, having delivered `got`, with the bytes `unread`
still to read: at a frame boundary past the frames `pre`, or `o` bytes into the payload of a data
frame `f` that follows them; no close frame is among the frames passed. -/
inductive Reading (frames : List WireFrame) : FrameReader → List UInt8 → List UInt8 → Prop
  | boundary {pre rest : List WireFrame} {rd : FrameReader} {got unread : List UInt8} :
      frames = pre ++ rest → (∀ g ∈ pre, g.header.opcode ≠ .close) → rd.remaining = 0 →
      rd.message = messageAfter none pre → got = dataStream none pre →
      unread = rest.flatMap WireFrame.bytes → Reading frames rd got unread
  | inside {pre rest : List WireFrame} {f : WireFrame} {eff : Opcode} {o : Nat}
      {got unread : List UInt8} :
      frames = pre ++ f :: rest → (∀ g ∈ pre, g.header.opcode ≠ .close) →
      treat (messageAfter none pre) f.header.opcode = .data eff → 0 < o → o < f.payload.length →
      got = dataStream none pre ++ (f.key.apply f.payload).take o →
      unread = f.payload.drop o ++ rest.flatMap WireFrame.bytes →
      Reading frames ((atFrame f.header eff).advance o f.payload).2 got unread

namespace Reading

variable {frames : List WireFrame}

/-- A fresh reader stands before all the frames. -/
theorem start : Reading frames {} [] (frames.flatMap WireFrame.bytes) :=
  .boundary (List.nil_append frames).symm (by simp) rfl rfl rfl rfl

/-- What a reader has delivered is a first part of the data stream. -/
theorem got_prefix {rd : FrameReader} {got unread : List UInt8} (reading : Reading frames rd got unread) :
    got <+: dataStream none frames := by
  cases reading with
  | boundary split _ _ _ delivered _ =>
    rw [delivered, split]
    exact dataStream_prefix _ _
  | inside split unclosed data _ _ delivered _ =>
    rw [delivered, split, dataStream_append unclosed, dataStream, data]
    exact (List.prefix_append_right_inj _).mpr
      ((List.take_prefix _ _).trans (List.prefix_append _ _))

/-- `k` bytes into the payload of a data frame, a reader stands inside it, or at the boundary
after it once it has read the whole payload. -/
theorem advance {pre rest : List WireFrame} {f : WireFrame} {eff : Opcode}
    (split : frames = pre ++ f :: rest) (unclosed : ∀ g ∈ pre, g.header.opcode ≠ .close)
    (data : treat (messageAfter none pre) f.header.opcode = .data eff) {k : Nat}
    (within : k ≤ f.payload.length) (moved : 0 < k ∨ k = f.payload.length) :
    Reading frames ((atFrame f.header eff).advance k f.payload).2
      (dataStream none pre ++ (f.key.apply f.payload).take k)
      (f.payload.drop k ++ rest.flatMap WireFrame.bytes) := by
  by_cases whole : k = f.payload.length
  · -- the payload is read: the reader stands past the frame
    have notClose : f.header.opcode ≠ .close :=
      fun closes => by rw [treat_eq_close_iff.mpr closes] at data; cases data
    refine .boundary (show frames = (pre ++ [f]) ++ rest by rw [split, List.append_assoc]; rfl)
      ?_ ?_ ?_ ?_ ?_
    · intro g mem
      rcases List.mem_append.mp mem with mem | mem
      · exact unclosed g mem
      · rw [List.mem_singleton.mp mem]
        exact notClose
    · simp [FrameReader.advance, atFrame, f.sized, whole]
    · have next : messageAfter none (pre ++ [f]) = if f.header.fin then none else some eff := by
        rw [messageAfter_append, ← messageNext_of_data data]
        rfl
      rw [next]
      simp [FrameReader.advance, atFrame]
    · rw [dataStream_append unclosed, dataStream_single data, whole, ← MaskKey.length_apply f.key,
        List.take_length]
    · rw [whole, List.drop_length, List.nil_append]
  · exact .inside split unclosed data (moved.resolve_right whole) (by omega) rfl rfl

end Reading

/-! ## A read moves the reader on -/

section Reads

variable {τ σ : Type}

open Routine.Reads

/-- A round of the frame loop drops a frame to drop and asks for another round. -/
theorem frameRound_reads (rd : FrameReader) {f : WireFrame}
    (skip : treat rd.message f.header.opcode = .skip) (more : List UInt8) :
    Routine.Reads (rd.frameRound (τ := τ) (σ := σ) ()).run (f.bytes ++ more)
      fun r n => r = .ok (.inl ()) ∧ n = f.bytes.length := by
  unfold frameRound
  refine io_bind (nextFrame_reads rd f more) (fun x n post => ?_) fun e n post => ?_
  · rw [skip] at post
    obtain ⟨got, rfl⟩ := post
    cases got
    exact io_pure ⟨rfl, rfl⟩
  · rw [skip] at post
    cases post.1

/-- A read moves a reader on through the frames, with at most `loopBudget` of them. It answers
the next bytes of the data stream, at least one byte consumed, and the reader stands further on,
at a boundary that ends a message only after a final frame. Or it fails at a close frame. Or the
reader stands at a boundary with only frames to drop left, having delivered the whole stream. -/
theorem Reading.read_cases {frames : List WireFrame} {rd : FrameReader} {got unread : List UInt8}
    (reading : Reading frames rd got unread) {cap : Nat} (pos : 0 < cap)
    (few : frames.length ≤ Routine.loopBudget) :
    Routine.Reads (rd.read (τ := τ) (σ := σ) cap).run unread (fun r n => ∃ data rd',
        r = .ok (data, rd') ∧ 0 < n ∧ n ≤ unread.length ∧ data.length ≤ cap ∧
        Reading frames rd' (got ++ data) (unread.drop n) ∧
        (rd'.remaining = 0 → rd'.message = none → rd'.fin = true)) ∨
    (Routine.Reads (rd.read (τ := τ) (σ := σ) cap).run unread (fun r _ => r = .error .connectionClosed) ∧
      ∃ f ∈ frames, f.header.opcode = .close) ∨
    (rd.remaining = 0 ∧ (∀ f ∈ frames, f.header.opcode ≠ .close) ∧ got = dataStream none frames ∧
      rd.message = messageAfter none frames ∧ ∃ fs : List WireFrame, (∀ f ∈ fs, treat rd.message f.header.opcode = .skip) ∧
        unread = fs.flatMap WireFrame.bytes ∧ fs.length ≤ frames.length) := by
  cases reading with
  | inside split unclosed data inside short delivered left =>
    rename_i pre rest f eff o
    subst delivered left
    -- inside a data frame: the read takes the payload's next bytes
    refine .inl ((read_inside pos f eff short (rest.flatMap WireFrame.bytes)).mono
      fun r n answers => ?_)
    obtain ⟨answer, count⟩ := answers
    refine ⟨_, _, answer, by omega, ?_, ?_, ?_, ?_⟩
    · rw [List.length_append, List.length_drop]
      omega
    · simp only [List.length_take, List.length_drop, MaskKey.length_apply]
      omega
    · have moved := Reading.advance split unclosed data (k := o + n) (by omega) (.inl (by omega))
      rwa [List.append_assoc, ← List.take_add, List.drop_append_of_le_length
        (by simp only [List.length_drop]; omega), List.drop_drop]
    · simp [FrameReader.advance, atFrame]
  | boundary split unclosed boundary message delivered left =>
    rename_i pre rest
    have lengths : rest.length ≤ Routine.loopBudget := by
      have := congrArg List.length split
      simp only [List.length_append] at this
      omega
    cases stops : stopAt rd.message rest with
    | none =>
      -- only frames to drop are left: the reader has delivered the whole stream
      have skips := stopAt_none stops
      have skips' : ∀ g ∈ rest, treat (messageAfter none pre) g.header.opcode = .skip :=
        message ▸ skips
      obtain ⟨closeFree, after, stream⟩ := past_skips unclosed skips'
      refine .inr (.inr ⟨boundary, by rw [split]; exact closeFree, by rw [delivered, split, stream],
        by rw [message, split, after], rest, skips, left, ?_⟩)
      rw [split, List.length_append]
      omega
    | some stop =>
      obtain ⟨r, n⟩ := stop
      rcases r with e | ⟨f, eff⟩
      · -- a close frame ahead: the read fails
        obtain ⟨rfl, f, mem, closes⟩ := stopAt_error stops
        have owes : owedFrames rd.message cap rest = some (.error .connectionClosed, n) := by
          simp [owedFrames, stops]
        refine .inr (.inl ⟨?_, f, by rw [split]; exact List.mem_append_right _ mem, closes⟩)
        have reads := read_at_boundary (τ := τ) (σ := σ) pos boundary lengths owes []
        rw [List.append_nil, ← left] at reads
        exact reads.mono fun r n' answers => answers.1
      · -- a data frame ahead: the read drops the frames before it and takes its first bytes
        obtain ⟨skips, after, rfl, dropped, data, count⟩ := stopAt_ok stops
        have owes : owedFrames rd.message cap (skips ++ f :: after) =
            some (.ok ((atFrame f.header eff).advance (min cap f.payload.length) f.payload),
              n + min cap f.payload.length) := by
          simp [owedFrames, stops]
        have reads := read_at_boundary (τ := τ) (σ := σ) pos boundary lengths owes []
        rw [List.append_nil, ← left] at reads
        have head := f.two_le_head
        have dropped' : ∀ g ∈ skips, treat (messageAfter none pre) g.header.opcode = .skip :=
          message ▸ dropped
        obtain ⟨passed, after', stream⟩ := past_skips unclosed dropped'
        refine .inl (reads.mono fun r n' answers => ?_)
        obtain ⟨answer, consumed⟩ := answers
        refine ⟨_, _, answer, by omega, ?_, by simp, ?_, ?_⟩
        · rw [consumed, count, left]
          simp only [List.flatMap_append, List.flatMap_cons, List.length_append, WireFrame.bytes]
          omega
        · have moved := Reading.advance (split.trans (List.append_assoc pre skips (f :: after)).symm)
            passed (by rw [after', ← message]; exact data) (k := min cap f.payload.length)
            (Nat.min_le_right _ _) (by omega)
          rw [stream, ← delivered, FrameReader.advance, MaskKey.apply_take] at moved
          rw [consumed, count, left]
          have drops : (List.flatMap WireFrame.bytes (skips ++ f :: after)).drop
              ((skips.flatMap WireFrame.bytes).length + f.head.length + min cap f.payload.length) =
              f.payload.drop (min cap f.payload.length) ++ after.flatMap WireFrame.bytes := by
            rw [← List.drop_drop, ← List.drop_drop]
            simp [WireFrame.bytes, List.drop_append_of_le_length (Nat.min_le_right cap _)]
          rw [drops]
          simpa [FrameReader.advance, atFrame, WireFrame.key] using moved
        · simp [atFrame]

theorem frameRound_waits (rd : FrameReader) {w : Conn τ σ} (clean : w.link.error = none)
    (empty : w.link.inbound = []) : (rd.frameRound ()).WaitsAt w := by
  unfold frameRound nextFrame readHeader
  exact (Io.readExact_waits clean empty (by decide)).bind.bind.bind

/-- Among frames to drop only, with more rounds than frames, the frame loop drops them all as
they arrive and then waits for bytes, having taken every chunk. The induction is on the frames. -/
theorem frameLoop_feed_skips (rd : FrameReader) :
    ∀ (fs : List WireFrame) (rounds : Nat) (w : Conn τ σ) (cs : List (List UInt8)),
      (∀ f ∈ fs, treat rd.message f.header.opcode = .skip) → fs.length < rounds →
      w.link.error = none → (∀ c ∈ cs, c ≠ []) →
      w.link.inbound ++ cs.flatten = fs.flatMap WireFrame.bytes →
      ∃ k, ((Io.loopFor rounds rd.frameRound ()).run w).feed cs =
        (.suspend .recv (w.consumed [] (fs.flatMap WireFrame.bytes).length) k, []) := by
  intro fs
  induction fs with
  | nil =>
    intro rounds w cs _ spare clean chunks arrives
    -- nothing is queued and no chunk is left: the loop waits where it started
    obtain ⟨empty, flat⟩ := List.append_eq_nil_iff.mp arrives
    have none : cs = [] := by
      rcases cs with _ | ⟨c, more⟩
      · rfl
      · simp only [List.flatten_cons, List.append_eq_nil_iff] at flat
        exact absurd flat.1 (chunks c List.mem_cons_self)
    subst none
    obtain ⟨k, waits⟩ := (frameRound_waits rd clean empty).loopFor spare
    have same : w.consumed [] 0 = w := by
      rw [← empty]
      exact Conn.consumed_inbound_zero w
    exact ⟨k, by rw [waits, Progress.feed_nil, List.flatMap_nil, List.length_nil, same]⟩
  | cons f fs ih =>
    intro rounds w cs skips spare clean chunks arrives
    obtain ⟨rounds, rfl⟩ : ∃ r, rounds = r + 1 := ⟨rounds - 1, by simp at spare; omega⟩
    have stream : (f :: fs).flatMap WireFrame.bytes = f.bytes ++ fs.flatMap WireFrame.bytes :=
      List.flatMap_cons
    obtain ⟨a, n, q, cs', ⟨rfl, rfl⟩, fed, rest⟩ :=
      frameRound_reads rd (skips f List.mem_cons_self) (fs.flatMap WireFrame.bytes) w cs clean
        chunks (arrives.trans stream)
    have taken : cs' <:+ cs := by
      simpa only [fed] using Progress.feed_suffix ((rd.frameRound ()).run w) cs
    rw [List.drop_left] at rest
    obtain ⟨k, fed'⟩ := ih rounds (w.consumed q f.bytes.length) cs'
      (fun g mem => skips g (List.mem_cons_of_mem _ mem)) (by simp at spare; omega) clean
      (fun c mem => chunks c (taken.subset mem)) rest
    refine ⟨k, ?_⟩
    rw [Io.run_loopFor_succ_apply, Progress.feed_bind fed]
    refine fed'.trans ?_
    rw [Conn.consumed_consumed, stream, List.length_append]

/-- At a frame boundary, among frames to drop only and fewer of them than the loop budget, a read
drops them all as they arrive and then waits for bytes, having taken every chunk. -/
theorem read_feed_waits {rd : FrameReader} {cap : Nat} (pos : 0 < cap) (boundary : rd.remaining = 0)
    {fs : List WireFrame} (skips : ∀ f ∈ fs, treat rd.message f.header.opcode = .skip)
    (few : fs.length < Routine.loopBudget) {w : Conn τ σ} {cs : List (List UInt8)}
    (clean : w.link.error = none) (chunks : ∀ c ∈ cs, c ≠ [])
    (arrives : w.link.inbound ++ cs.flatten = fs.flatMap WireFrame.bytes) :
    ∃ k, ((rd.read (τ := τ) (σ := σ) cap).run w).feed cs =
      (.suspend .recv (w.consumed [] (fs.flatMap WireFrame.bytes).length) k, []) := by
  obtain ⟨k, fed⟩ := frameLoop_feed_skips rd fs _ w cs skips few clean chunks arrives
  rw [read, if_neg (Nat.pos_iff_ne_zero.mp pos), if_pos boundary, nextData, Io.loop,
    Io.run_bind_apply, Progress.feed_bind_suspend fed]
  exact ⟨_, rfl⟩

end Reads

end FrameReader

namespace WebSocket

variable {τ σ : Type}

open Routine.Reads

/-- A socket's read is its reader's. -/
theorem read_reads (ws : WebSocket) (cap : Nat) {s : List UInt8}
    {P : Except NetError (List UInt8 × FrameReader) → Nat → Prop}
    (reads : Routine.Reads (ws.reader.read (τ := τ) (σ := σ) cap).run s P) :
    Routine.Reads (ws.read (τ := τ) (σ := σ) cap).run s fun r n =>
      ∃ r', P r' n ∧ r = r'.map fun x => (x.1, { ws with reader := x.2 }) := by
  unfold WebSocket.read
  refine io_bind reads (fun x n post => ?_) fun e n post => ⟨_, post, rfl⟩
  obtain ⟨data, reader⟩ := x
  exact io_pure ⟨_, post, rfl⟩

/-- A socket's read waits where its reader's does. -/
theorem read_feed_waits {ws : WebSocket} {cap : Nat} {w w' : Conn τ σ} {cs : List (List UInt8)}
    {k : Wake → Conn τ σ → Progress (Conn τ σ) WaitReason Wake (Except NetError (List UInt8 × FrameReader))}
    (fed : ((ws.reader.read (τ := τ) (σ := σ) cap).run w).feed cs = (.suspend .recv w' k, [])) :
    ∃ k', ((ws.read (τ := τ) (σ := σ) cap).run w).feed cs = (.suspend .recv w' k', []) := by
  unfold WebSocket.read
  rw [Io.run_bind_apply, Progress.feed_bind_suspend fed]
  exact ⟨_, rfl⟩

end WebSocket

end WebSocketCore
