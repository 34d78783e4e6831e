import Mathlib
import WebSocketCore.Proofs.Io.Stream
import WebSocketCore.Session

/-! # Reading tasks see only the queue

A task that only reads sees two things of its world: the inbound queue and the link's error. Run
in two worlds that agree on these (`Conn.Alike`), it takes the same steps: it consumes the same
bytes, and finishes with the same value, stalls, or waits for bytes with the queue emptied; and
resumed with success in two alike worlds it goes on the same way (`Progress.Mirrors`). The
reading programs (`Io.Reader`: answers, errors and rounds of `peekWith`, joined by `bind` and
bounded loops) all do, and the library's readers of request heads and frames are reading
programs.

This is what lets a reading task be followed in a world that others change while it waits: its
run there mirrors its run in a world where bytes only arrive, the run `Routine.Reads` describes.
-/

namespace WebSocketCore

variable {τ σ α β ρ : Type}

namespace Conn

/-- Two worlds a reading task cannot tell apart: the same queue and the same error. -/
def Alike (w v : Conn τ σ) : Prop := w.link.inbound = v.link.inbound ∧ w.link.error = v.link.error

/-- The world once the task has consumed `j` queued bytes. -/
def eat (w : Conn τ σ) (j : Nat) : Conn τ σ := { w with link := w.link.consume j }

@[simp] theorem inbound_eat (w : Conn τ σ) (j : Nat) :
    (w.eat j).link.inbound = w.link.inbound.drop j := rfl

@[simp] theorem error_eat (w : Conn τ σ) (j : Nat) : (w.eat j).link.error = w.link.error := rfl

@[simp] theorem eat_zero (w : Conn τ σ) : w.eat 0 = w := rfl

theorem eat_eat (w : Conn τ σ) (j j' : Nat) : (w.eat j).eat j' = w.eat (j + j') := by
  simp only [eat, Link.consume, List.drop_drop, List.length_take, List.length_drop,
    Nat.add_assoc]
  congr 3
  omega

theorem Alike.refl (w : Conn τ σ) : w.Alike w := ⟨rfl, rfl⟩

theorem Alike.eat {w v : Conn τ σ} (alike : w.Alike v) (j : Nat) : (w.eat j).Alike (v.eat j) := by
  simp only [Alike, inbound_eat, error_eat, alike.1, alike.2, and_self]

theorem Alike.inboundChunk {w v : Conn τ σ} (alike : w.Alike v) :
    w.link.inboundChunk = v.link.inboundChunk := by
  simp only [Link.inboundChunk, alike.1, alike.2]

end Conn

namespace Progress

open Conn

/-- `p`, run from `w`, and `q`, run from `v`, take the same steps: they finish with the same value
or stall, or wait for bytes with the queue emptied, each in its own world with the same bytes
consumed; and resumed with success in two alike worlds, they go on the same way. -/
inductive Mirrors : Conn τ σ → Conn τ σ → Progress (Conn τ σ) WaitReason Wake α →
    Progress (Conn τ σ) WaitReason Wake α → Prop
  | done {w v : Conn τ σ} {a : α} (j : Nat) : Mirrors w v (.done a (w.eat j)) (.done a (v.eat j))
  | stall {w v : Conn τ σ} (j : Nat) : Mirrors w v (.stall (w.eat j)) (.stall (v.eat j))
  | wait {w v : Conn τ σ} {j : Nat}
      {k k' : Wake → Conn τ σ → Progress (Conn τ σ) WaitReason Wake α} :
      w.link.inbound.drop j = [] →
      (∀ w' v', w'.Alike v' → Mirrors w' v' (k (.ok ()) w') (k' (.ok ()) v')) →
      Mirrors w v (.suspend .recv (w.eat j) k) (.suspend .recv (v.eat j) k')

namespace Mirrors

variable {w v : Conn τ σ}

theorem here (a : α) : Mirrors w v (.done a w) (.done a v) := by
  simpa using Mirrors.done (w := w) (v := v) (a := a) 0

theorem stall_here : Mirrors w v (.stall w : Progress (Conn τ σ) WaitReason Wake α) (.stall v) := by
  simpa using Mirrors.stall (α := α) (w := w) (v := v) 0

/-- Steps taken after consuming the same bytes are steps taken from where the consuming began. -/
theorem rebase {j : Nat} {p q : Progress (Conn τ σ) WaitReason Wake α}
    (mirrors : Mirrors (w.eat j) (v.eat j) p q) : Mirrors w v p q := by
  cases mirrors with
  | done j' => rw [eat_eat, eat_eat]; exact .done _
  | stall j' => rw [eat_eat, eat_eat]; exact .stall _
  | wait emptied rest =>
    rw [eat_eat, eat_eat]
    refine .wait ?_ rest
    simpa [List.drop_drop] using emptied

/-- What is bound after two mirrored progresses, when it goes on the same way from alike worlds,
mirrors again. -/
theorem bind {p q : Progress (Conn τ σ) WaitReason Wake α}
    {f : α → Conn τ σ → Progress (Conn τ σ) WaitReason Wake β}
    (mirrors : Mirrors w v p q) (alike : w.Alike v)
    (next : ∀ a w' v', w'.Alike v' → Mirrors w' v' (f a w') (f a v')) :
    Mirrors w v (p.bind f) (q.bind f) := by
  induction mirrors with
  | done j => exact (next _ _ _ (alike.eat j)).rebase
  | stall j => exact .stall j
  | wait emptied _ ih => exact .wait emptied fun w' v' alike' => ih w' v' alike' alike'

/-- A routine loop whose every round mirrors mirrors. -/
theorem iterate {body : ρ → IoRoutine τ σ (ρ ⊕ α)}
    (round : ∀ s w v, w.Alike v → Mirrors w v (body s w) (body s v)) :
    ∀ (rounds : Nat) (s : ρ) (w v : Conn τ σ), w.Alike v →
      Mirrors w v (Routine.iterate rounds body s w) (Routine.iterate rounds body s v) := by
  intro rounds
  induction rounds with
  | zero => exact fun _ _ _ _ => stall_here
  | succ rounds ih =>
    intro s w v alike
    refine (round s w v alike).bind alike fun x w' v' alike' => ?_
    cases x with
    | inl s' => exact ih s' w' v' alike'
    | inr a => exact here a

end Mirrors

end Progress

namespace Io

open Progress

/-- The reading programs: answers, errors and rounds of `peekWith`, joined by `bind` and bounded
loops. -/
inductive Reader : {α : Type} → Io τ σ α → Prop
  | pure {α : Type} (a : α) : Reader (Pure.pure a)
  | throw {α : Type} (e : NetError) : Reader (MonadExcept.throw e : Io τ σ α)
  | bind {α β : Type} {m : Io τ σ α} {f : α → Io τ σ β} :
      Reader m → (∀ a, Reader (f a)) → Reader (m >>= f)
  | loopFor {ρ α : Type} (rounds : Nat) {body : ρ → Io τ σ (ρ ⊕ α)} (s : ρ) :
      (∀ s, Reader (body s)) → Reader (Io.loopFor rounds body s)
  | peekRound {β : Type} (f : List UInt8 → Nat × β) : Reader (Io.peekRound f ())

/-- A round of `peekWith` takes the same step in alike worlds: it fails with the same error,
waits with the queue empty, or consumes the same bytes. -/
theorem peekRound_mirrors (f : List UInt8 → Nat × β) {w v : Conn τ σ} (alike : w.Alike v) :
    Mirrors w v ((peekRound f ()).run w) ((peekRound f ()).run v) := by
  have chunk := alike.inboundChunk
  have empty : ∀ u : Conn τ σ, u.link.inboundChunk = .ok [] → u.link.inbound = [] := by
    intro u answered
    unfold Link.inboundChunk at answered
    split at answered <;> simp_all
  simp only [peekRound, run_bind_apply, run_withLink, Progress.done_bind, run_ofExcept]
  rcases answered : w.link.inboundChunk with e | _ | ⟨b, bs⟩
  · rw [← chunk, answered]
    exact Mirrors.here _
  · -- nothing queued: both wait, and resumed, ask for another round
    rw [← chunk, answered]
    refine .wait (j := 0) (by simp [empty w answered]) fun w' v' _ => ?_
    exact Mirrors.here _
  · rw [← chunk, answered]
    exact .done _

theorem Reader.mirrors {m : Io τ σ α} (reader : Reader m) :
    ∀ w v : Conn τ σ, w.Alike v → Mirrors w v (m.run w) (m.run v) := by
  induction reader with
  | pure a => exact fun _ _ _ => Mirrors.here _
  | throw e => exact fun _ _ _ => Mirrors.here _
  | bind _ _ first next =>
    intro w v alike
    rw [run_bind_apply, run_bind_apply]
    refine (first w v alike).bind alike fun r w' v' alike' => ?_
    cases r with
    | ok a => exact next a w' v' alike'
    | error e => exact Mirrors.here _
  | loopFor rounds s _ round =>
    refine Mirrors.iterate (fun s w v alike => ?_) rounds s
    refine (round s w v alike).bind alike fun r w' v' _ => ?_
    rcases r with e | s' | a <;> exact Mirrors.here _
  | peekRound f => exact fun _ _ alike => peekRound_mirrors f alike

theorem peekWith_reader (f : List UInt8 → Nat × β) : Reader (peekWith (τ := τ) (σ := σ) f) :=
  .loopFor _ _ fun _ => .peekRound f

theorem readSome_reader (cap : Nat) : Reader (readSome (τ := τ) (σ := σ) cap) := by
  unfold readSome
  split
  · exact .pure _
  · exact .bind (peekWith_reader _) fun _ => .pure _

theorem readExact_reader (n : Nat) : Reader (readExact (τ := τ) (σ := σ) n) := by
  unfold readExact
  refine .loopFor _ _ fun acc => ?_
  split
  · exact .pure _
  · exact .bind (readSome_reader _) fun _ => .pure _

theorem skip_reader (n : Nat) : Reader (skip (τ := τ) (σ := σ) n) := by
  unfold skip
  refine .loopFor _ _ fun left => ?_
  split
  · exact .pure _
  · exact .bind (peekWith_reader _) fun _ => .pure _

end Io

namespace Handshake

open Io Progress

theorem skipUntil_reader (stop : UInt8 → Bool) : Reader (skipUntil (τ := τ) (σ := σ) stop) := by
  unfold skipUntil Io.loop
  refine .loopFor _ _ fun u => .bind (peekWith_reader _) fun x => ?_
  obtain ⟨_, found⟩ := x
  exact .pure _

theorem eatSeparators_reader : Reader (eatSeparators (τ := τ) (σ := σ)) := by
  unfold eatSeparators Io.loop
  refine .loopFor _ _ fun feeds => .bind (peekWith_reader _) fun x => ?_
  obtain ⟨_, feeds, more⟩ := x
  dsimp only
  split_ifs <;> exact .pure _

theorem select_reader (candidates : List (List UInt8)) :
    Reader (select (τ := τ) (σ := σ) candidates) := by
  unfold select Io.loop
  refine .loopFor _ _ fun sel => .bind (peekWith_reader _) fun x => ?_
  obtain ⟨_, outcome, sel⟩ := x
  exact .pure _

theorem step_reader (stage : HandshakeStage) (req : Request) :
    Reader (step (τ := τ) (σ := σ) stage req) := by
  have drain : Reader (drainLine (τ := τ) (σ := σ)) := skipUntil_reader _
  have blanks : Reader (skipBlanks (τ := τ) (σ := σ)) := skipUntil_reader _
  cases stage with
  | requestLine => exact .bind drain fun _ => .pure _
  | separators => exact .bind eatSeparators_reader fun _ => .pure _
  | headerName =>
    refine .bind (select_reader _) fun sel => ?_
    split
    · exact .pure _
    · exact .pure _
    · exact .bind drain fun _ => .pure _
  | upgradeValue =>
    exact .bind blanks fun _ => .bind (select_reader _) fun _ => .bind drain fun _ => .pure _
  | keyValue =>
    exact .bind blanks fun _ => .bind (readExact_reader _) fun _ => .bind drain fun _ => .pure _
  | done => exact .pure _

/-- The handshake's parse reads only: run in alike worlds, it takes the same steps. -/
theorem parse_mirrors {w v : Conn τ σ} (alike : w.Alike v) :
    Mirrors w v ((parse (τ := τ) (σ := σ)).run w) ((parse (τ := τ) (σ := σ)).run v) := by
  show Mirrors w v ((parseReporting w).bind _) ((parseReporting v).bind _)
  refine Mirrors.bind ?_ alike fun r w' v' _ => Mirrors.here _
  unfold parseReporting Routine.loop
  refine Mirrors.iterate (fun s w v alike => ?_) _ _ w v alike
  obtain ⟨stage, req⟩ := s
  dsimp only
  split
  · exact Mirrors.here _
  · refine ((step_reader stage req).mirrors w v alike).bind alike fun r w' v' _ => ?_
    cases r <;> exact Mirrors.here _

end Handshake

namespace FrameReader

open Io

theorem readHeader_reader : Reader (readHeader (τ := τ) (σ := σ)) := by
  unfold readHeader
  refine .bind (readExact_reader 2) fun base => ?_
  refine .bind (readExact_reader _) fun ext => ?_
  dsimp only
  split
  · exact .bind (readExact_reader 4) fun _ => .bind (.pure _) fun _ => .pure _
  · exact .bind (.pure _) fun _ => .pure _

theorem nextFrame_reader (rd : FrameReader) : Reader (rd.nextFrame (τ := τ) (σ := σ)) := by
  unfold nextFrame
  refine .bind readHeader_reader fun header => ?_
  obtain ⟨fin, opcode, len, mask⟩ := header
  dsimp only
  -- data frames go on; every other frame is skipped whole, a close frame then fails
  cases opcode
  case text | binary => exact .bind (.pure _) fun _ => .pure _
  case continuation =>
    cases rd.message with
    | some m => exact .bind (.pure _) fun _ => .pure _
    | none => exact .bind (skip_reader _) fun _ => .bind (.pure _) fun _ => .pure _
  case close => exact .bind (skip_reader _) fun _ => .bind (.throw _) fun _ => .pure _
  all_goals exact .bind (skip_reader _) fun _ => .bind (.pure _) fun _ => .pure _

theorem frameRound_reader (rd : FrameReader) : Reader (rd.frameRound (τ := τ) (σ := σ) ()) := by
  unfold frameRound
  refine .bind (nextFrame_reader rd) fun next => ?_
  cases next <;> exact .pure _

theorem nextData_reader (rd : FrameReader) : Reader (rd.nextData (τ := τ) (σ := σ)) :=
  .loopFor _ _ fun _ => frameRound_reader rd

theorem readPayload_reader (rd : FrameReader) (cap : Nat) :
    Reader (rd.readPayload (τ := τ) (σ := σ) cap) := by
  unfold readPayload
  split
  · exact .pure _
  · refine .bind (.loopFor _ _ fun x => ?_) fun x => ?_
    · obtain ⟨acc, mask⟩ := x
      dsimp only
      split
      · exact .pure _
      · exact .bind (readSome_reader _) fun _ => .pure _
    · obtain ⟨data, mask⟩ := x
      exact .pure _

theorem read_reader (rd : FrameReader) (cap : Nat) : Reader (rd.read (τ := τ) (σ := σ) cap) := by
  unfold read
  split
  · exact .pure _
  · dsimp only
    split
    · exact .bind (nextData_reader rd) fun rd' => readPayload_reader rd' cap
    · exact .bind (.pure _) fun rd' => readPayload_reader rd' cap

end FrameReader

theorem WebSocket.read_reader (ws : WebSocket) (cap : Nat) :
    Io.Reader (ws.read (τ := τ) (σ := σ) cap) := by
  unfold WebSocket.read
  refine .bind (FrameReader.read_reader _ _) fun x => ?_
  obtain ⟨data, reader⟩ := x
  exact .pure _

end WebSocketCore
