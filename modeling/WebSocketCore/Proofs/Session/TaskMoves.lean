import Mathlib
import WebSocketCore.Proofs.Link.Calls

/-! # What a task does to its link

A task runs in stretches: from the world it is started or resumed in to where it waits, stalls
or finishes. A progress `Moves fin` when every stretch is made of the task's own link operations
(`Link.TaskStep`), leaves the lock's bookkeeping alone and waits for a reason other than `ended`;
a stretch that finishes may end with one more change of the link, `fin`. A progress
`EndsOnError P` when every suspension, resumed with an error, is done at once, with `P` relating
the world it was resumed in to its answer and the world it ends in.

The library's programs are `Plain`: answers, errors, the task's own state, link operations with
their answers raised and waits for real reasons, joined by `bind` and bounded loops. Plain
programs move by their own operations and fail at once, leaving the link alone, when resumed
with an error. Every program a service is made of moves so too (a handler may catch an error, so
it need not fail at once); a session moves so and closes the link as its last change, and when
its service fails at once on errors, the session, resumed with an error, is done at once with the
link closed.
-/

namespace WebSocketCore

/-! ## The reasons the link's operations wait for -/

namespace FrameRing

variable {τ : Type} [Transport τ]

/-- An append waits only for send room or acknowledgements. -/
theorem append_blocked_reason {r : FrameRing} {t : τ} {framing : Framing} {bytes : List UInt8}
    {y : WaitReason} (blocked : (r.append t framing bytes).result = .ok (.blocked y)) :
    y = .sendBuf ∨ y = .ack := by
  unfold append at blocked
  split at blocked
  · cases blocked
  · rcases thenSend_answer _ _ _ _ blocked with stalled | ⟨r₁, t₁, sent₁⟩
    · exact .inl (Append.blocked.inj stalled)
    · rcases thenSend_answer _ _ _ _ sent₁ with stalled | ⟨r₂, t₂, placed⟩
      · exact .inl (Append.blocked.inj stalled)
      · exact .inr (place_blocked placed).1

end FrameRing

namespace Link

variable {τ : Type} [Transport τ]

/-- An append that tells the task to wait names a reason other than `ended`. -/
theorem append_waits_real {l : Link τ} {framing : Framing} {bytes : List UInt8} {y : WaitReason}
    (blocked : (l.append framing bytes).1 = .ok (.blocked y)) : y ≠ .ended := by
  rcases usable_cases l with ⟨e, broken⟩ | usable
  · simp [append, broken] at blocked
  · rw [append_eq usable] at blocked
    rcases answer : (l.ring.append l.transport framing bytes).result with e | a
    · simp [answer] at blocked
    · cases a with
      | took n => simp [answer] at blocked
      | blocked r =>
        simp only [answer, Except.ok.injEq, Append.blocked.injEq] at blocked
        subst blocked
        rcases FrameRing.append_blocked_reason answer with rfl | rfl <;> decide

/-- A push that tells the task to wait names a reason other than `ended`. -/
theorem push_waits_real {l : Link τ} {y : WaitReason} (waits : l.push.1 = .ok (some y)) :
    y ≠ .ended := by
  rcases usable_cases l with ⟨e, broken⟩ | usable
  · simp [push, broken] at waits
  · rw [push_eq usable] at waits
    rcases answer : (l.ring.finish l.transport).result with e | a
    · simp [answer] at waits
    · cases a with
      | none => simp [answer] at waits
      | some r =>
        simp only [answer, Except.ok.injEq, Option.some.injEq] at waits
        subst waits
        rw [(FrameRing.finish_owes _ _ answer).1]
        decide

/-- A flush that tells the task to wait names a reason other than `ended`. -/
theorem flush_waits_real {l : Link τ} {y : WaitReason} (waits : l.flush.1 = .ok (some y)) :
    y ≠ .ended := by
  rcases answer : l.push with ⟨r, l'⟩
  rcases r with e | _ | y'
  · simp [flush, answer] at waits
  · simp only [flush, answer] at waits
    split at waits
    · cases waits
    · simp only [Except.ok.injEq, Option.some.injEq] at waits
      subst waits
      decide
  · simp only [flush, answer, Except.ok.injEq, Option.some.injEq] at waits
    subst waits
    exact push_waits_real (l := l) (by rw [answer])

end Link

/-! ## Stretches of the task's own operations -/

namespace Progress

section Moves

variable {τ σ α β ρ : Type} [Transport τ]

/-- Every stretch of the progress, from the world it was started or resumed in to where it
stops, is made of the task's own link operations and leaves the lock's bookkeeping alone; it
waits only for reasons other than `ended`, and a stretch that finishes applies `fin` to the link
as its last change. -/
inductive Moves (fin : Link τ → Link τ) : Conn τ σ → Progress (Conn τ σ) WaitReason Wake α → Prop
  | done {w₀ w : Conn τ σ} {a : α} {l : Link τ} : Link.TaskSteps w₀.link l → w.link = fin l →
      w.lock = w₀.lock → Moves fin w₀ (.done a w)
  | stall {w₀ w : Conn τ σ} : Link.TaskSteps w₀.link w.link → w.lock = w₀.lock →
      Moves fin w₀ (.stall w)
  | suspend {w₀ w : Conn τ σ} {y : WaitReason}
      {k : Wake → Conn τ σ → Progress (Conn τ σ) WaitReason Wake α} :
      Link.TaskSteps w₀.link w.link → w.lock = w₀.lock → y ≠ .ended →
      (∀ r w', Moves fin w' (k r w')) → Moves fin w₀ (.suspend y w k)

/-- Finishing where the task started, with the link as it was, moves by no operation. -/
theorem Moves.done_here {w : Conn τ σ} (a : α) : (Progress.done a w).Moves id w :=
  .done .refl rfl rfl

/-- A stretch of the task's own operations before a progress that moves so, moves so too. -/
theorem Moves.of_steps {fin : Link τ → Link τ} {w₀ w₁ : Conn τ σ}
    {p : Progress (Conn τ σ) WaitReason Wake α} (moves : p.Moves fin w₁)
    (steps : Link.TaskSteps w₀.link w₁.link) (lock : w₁.lock = w₀.lock) : p.Moves fin w₀ := by
  cases moves with
  | done more last same => exact .done (steps.trans more) last (same.trans lock)
  | stall more same => exact .stall (steps.trans more) (same.trans lock)
  | suspend more same real rest => exact .suspend (steps.trans more) (same.trans lock) real rest

theorem Moves.bind {fin : Link τ → Link τ} {w₀ : Conn τ σ}
    {p : Progress (Conn τ σ) WaitReason Wake α}
    {f : α → Conn τ σ → Progress (Conn τ σ) WaitReason Wake β} (first : p.Moves id w₀)
    (next : ∀ a w, (f a w).Moves fin w) : (p.bind f).Moves fin w₀ := by
  induction first with
  | done steps last same => exact (next _ _).of_steps (by rw [last]; exact steps) same
  | stall steps same => exact .stall steps same
  | suspend steps same real _ ih => exact .suspend steps same real ih

/-- A loop moves so when every round does; running out of rounds stalls where it started. -/
theorem Moves.iterate {body : ρ → Routine (Conn τ σ) WaitReason Wake (ρ ⊕ α)}
    (round : ∀ s w, (body s w).Moves id w) :
    ∀ (fuel : Nat) (s : ρ) (w : Conn τ σ), (Routine.iterate fuel body s w).Moves id w := by
  intro fuel
  induction fuel with
  | zero => exact fun _ _ => .stall .refl rfl
  | succ fuel ih =>
    intro s w
    refine (round s w).bind fun r w' => ?_
    cases r with
    | inl s' => exact ih s' w'
    | inr a => exact .done_here a

end Moves

section EndsOnError

variable {ω α β ρ : Type}

/-- The rest `k` of a suspension, resumed with an error in any world `w'`, is done at once, and
`P` relates `w'`, the answer and the world it ends in. -/
def EndsAtError (P : ω → α → ω → Prop) (k : Wake → ω → Progress ω WaitReason Wake α) : Prop :=
  ∀ e w', ∃ a w'', k (.error e) w' = .done a w'' ∧ P w' a w''

/-- Every suspension of the progress ends at once when resumed with an error, and does so again
after every resumption with success. -/
inductive EndsOnError (P : ω → α → ω → Prop) : Progress ω WaitReason Wake α → Prop
  | done {a : α} {w : ω} : EndsOnError P (.done a w)
  | stall {w : ω} : EndsOnError P (.stall w)
  | suspend {y : WaitReason} {w : ω} {k : Wake → ω → Progress ω WaitReason Wake α} :
      EndsAtError P k → (∀ w', EndsOnError P (k (.ok ()) w')) → EndsOnError P (.suspend y w k)

/-- What follows a progress that ends on errors ends on errors when it is done at once after
every answer the progress ends an error with. -/
theorem EndsOnError.bind {P : ω → α → ω → Prop} {Q : ω → β → ω → Prop}
    {p : Progress ω WaitReason Wake α} {f : α → ω → Progress ω WaitReason Wake β}
    (first : p.EndsOnError P) (next : ∀ a w, (f a w).EndsOnError Q)
    (stops : ∀ w' a w'', P w' a w'' → ∃ b w''', f a w'' = .done b w''' ∧ Q w' b w''') :
    (p.bind f).EndsOnError Q := by
  induction first with
  | done => exact next _ _
  | stall => exact .stall
  | suspend ends _ ih =>
    refine .suspend (fun e w' => ?_) ih
    obtain ⟨a, w'', resumed, related⟩ := ends e w'
    obtain ⟨b, w''', stopped, holds⟩ := stops w' a w'' related
    refine ⟨b, w''', ?_, holds⟩
    simp only [resumed]
    exact stopped

/-- A loop ends on errors when every round does, leaving the loop with its answer. -/
theorem EndsOnError.iterate {P : ω → α → ω → Prop}
    {body : ρ → Routine ω WaitReason Wake (ρ ⊕ α)}
    (round : ∀ s w, (body s w).EndsOnError fun w' r w'' => ∃ a, r = .inr a ∧ P w' a w'') :
    ∀ (fuel : Nat) (s : ρ) (w : ω), (Routine.iterate fuel body s w).EndsOnError P := by
  intro fuel
  induction fuel with
  | zero => exact fun _ _ => .stall
  | succ fuel ih =>
    intro s w
    refine (round s w).bind (fun r w' => ?_) fun w' r w'' ended => ?_
    · cases r with
      | inl s' => exact ih s' w'
      | inr a => exact .done
    · obtain ⟨a, rfl, holds⟩ := ended
      exact ⟨a, w'', rfl, holds⟩

end EndsOnError

end Progress

namespace Routine

variable {ω Y R α β : Type}

/-- Mapping a routine maps the value it finishes with. -/
theorem map_apply (f : α → β) (m : Routine ω Y R α) (w : ω) :
    (f <$> m) w = (m w).bind fun a w' => .done (f a) w' := rfl

/-- A routine, then a change of the world, finishes with the change applied. -/
theorem bind_modify_apply (m : Routine ω Y R α) (f : ω → ω) (w : ω) :
    (do let _ ← m; modify f : Routine ω Y R Unit) w = (m w).bind fun _ w' => .done () (f w') := rfl

end Routine

/-! ## Programs -/

namespace Io

variable {τ σ α β γ ρ : Type}

/-- The program answers an error, with the link as it was when the task was resumed. -/
def Fails (w' : Conn τ σ) (r : Except NetError α) (w'' : Conn τ σ) : Prop :=
  (∃ e, r = .error e) ∧ w''.link = w'.link

/-- Resumed with an error, the program fails at once and leaves the link alone. -/
def PassesErrors (m : Io τ σ α) : Prop := ∀ w, (m.run w).EndsOnError Fails

namespace PassesErrors

theorem pure (a : α) : PassesErrors (Pure.pure a : Io τ σ α) := fun _ => .done

theorem throw (e : NetError) : PassesErrors (MonadExcept.throw e : Io τ σ α) := fun _ => .done

theorem ofExcept (r : Except NetError α) : PassesErrors (Io.ofExcept r : Io τ σ α) :=
  fun _ => .done

theorem withApp (g : σ → α × σ) : PassesErrors (Io.withApp g : Io τ σ α) := fun _ => .done

/-- A program that fails at once after a failure of the first, whatever follows it. -/
theorem fails_then {f : α → Io τ σ β} {w' w'' : Conn τ σ} {r : Except NetError α}
    (failed : Fails w' r w'') :
    ∃ b w''', (match r with
      | .ok a => (f a).run w''
      | .error e => .done (.error e) w'') = .done b w''' ∧ Fails w' b w''' := by
  obtain ⟨⟨e, rfl⟩, link⟩ := failed
  exact ⟨.error e, w'', rfl, ⟨e, rfl⟩, link⟩

theorem bind {m : Io τ σ α} {f : α → Io τ σ β} (first : PassesErrors m)
    (next : ∀ a, PassesErrors (f a)) : PassesErrors (m >>= f) := by
  intro w
  rw [run_bind_apply]
  refine (first w).bind (fun r w' => ?_) fun w' r w'' failed => fails_then failed
  cases r with
  | ok a => exact next a w'
  | error e => exact .done

theorem loopFor {body : ρ → Io τ σ (ρ ⊕ α)} (round : ∀ s, PassesErrors (body s)) (rounds : Nat)
    (s : ρ) : PassesErrors (Io.loopFor rounds body s) := by
  refine Progress.EndsOnError.iterate (fun s w => (round s w).bind (fun r w' => ?_) ?_) rounds s
  · rcases r with e | s' | a <;> exact .done
  · rintro w' r w'' ⟨⟨e, rfl⟩, link⟩
    exact ⟨.inr (.error e), w'', rfl, .error e, rfl, ⟨e, rfl⟩, link⟩

theorem linkThen {op : Link τ → Except NetError γ × Link τ} {k : γ → Io τ σ β}
    (next : ∀ l c, (op l).1 = .ok c → PassesErrors (k c)) :
    PassesErrors (Io.withLink op >>= fun r => Io.ofExcept r >>= k) := by
  intro w
  rw [run_bind_apply, run_withLink]
  dsimp only [Progress.bind]
  rw [run_bind_apply, run_ofExcept]
  dsimp only [Progress.bind]
  rcases answer : (op w.link).1 with e | c
  · exact .done
  · exact next w.link c answer _

theorem suspend (y : WaitReason) : PassesErrors (Io.suspend y : Io τ σ Unit) := by
  intro w
  rw [run_suspend]
  exact .suspend (fun e w' => ⟨.error e, w', rfl, ⟨e, rfl⟩, rfl⟩) fun _ => .done

end PassesErrors

variable [Transport τ]

/-- Every stretch of the program is made of the task's own link operations. -/
def Moves (m : Io τ σ α) : Prop := ∀ w, (m.run w).Moves id w

namespace Moves

theorem pure (a : α) : Moves (Pure.pure a : Io τ σ α) := fun _ => .done_here _

theorem throw (e : NetError) : Moves (MonadExcept.throw e : Io τ σ α) := fun _ => .done_here _

theorem ofExcept (r : Except NetError α) : Moves (Io.ofExcept r : Io τ σ α) :=
  fun _ => .done_here _

theorem withApp (g : σ → α × σ) : Moves (Io.withApp g : Io τ σ α) := fun _ => .done .refl rfl rfl

theorem bind {m : Io τ σ α} {f : α → Io τ σ β} (first : Moves m) (next : ∀ a, Moves (f a)) :
    Moves (m >>= f) := by
  intro w
  rw [run_bind_apply]
  refine (first w).bind fun r w' => ?_
  cases r with
  | ok a => exact next a w'
  | error e => exact .done_here _

theorem tryCatch {m : Io τ σ α} {h : NetError → Io τ σ α} (first : Moves m)
    (handler : ∀ e, Moves (h e)) : Moves (MonadExcept.tryCatch m h) := by
  intro w
  refine (first w).bind fun r w' => ?_
  cases r with
  | ok a => exact .done_here _
  | error e => exact handler e w'

theorem loopFor {body : ρ → Io τ σ (ρ ⊕ α)} (round : ∀ s, Moves (body s)) (rounds : Nat)
    (s : ρ) : Moves (Io.loopFor rounds body s) :=
  Progress.Moves.iterate (fun s w => (round s w).bind fun r w' => by
    rcases r with e | s' | a <;> exact .done_here _) rounds s

/-- A link operation of the task's own whose answer is raised, then `k` for every answer it
gives. -/
theorem linkThen {op : Link τ → Except NetError γ × Link τ} {k : γ → Io τ σ β}
    (steps : ∀ l, Link.TaskSteps l (op l).2) (next : ∀ l c, (op l).1 = .ok c → Moves (k c)) :
    Moves (Io.withLink op >>= fun r => Io.ofExcept r >>= k) := by
  intro w
  rw [run_bind_apply, run_withLink]
  dsimp only [Progress.bind]
  rw [run_bind_apply, run_ofExcept]
  dsimp only [Progress.bind]
  rcases answer : (op w.link).1 with e | c
  · exact .done (steps w.link) rfl rfl
  · dsimp only
    exact (next w.link c answer _).of_steps (steps w.link) rfl

theorem suspend {y : WaitReason} (real : y ≠ .ended) : Moves (Io.suspend y : Io τ σ Unit) := by
  intro w
  rw [run_suspend]
  exact .suspend .refl rfl real fun r w' => .done_here _

end Moves

/-- The programs the library is made of: answers, errors, the task's own state, link operations
of the task's own with their answers raised, and waits for reasons other than `ended`, joined by
`bind` and bounded loops. -/
inductive Plain : {α : Type} → Io τ σ α → Prop
  | pure {α : Type} (a : α) : Plain (Pure.pure a)
  | throw {α : Type} (e : NetError) : Plain (MonadExcept.throw e : Io τ σ α)
  | ofExcept {α : Type} (r : Except NetError α) : Plain (Io.ofExcept r)
  | bind {α β : Type} {m : Io τ σ α} {f : α → Io τ σ β} :
      Plain m → (∀ a, Plain (f a)) → Plain (m >>= f)
  | loopFor {ρ α : Type} (rounds : Nat) {body : ρ → Io τ σ (ρ ⊕ α)} (s : ρ) :
      (∀ s, Plain (body s)) → Plain (Io.loopFor rounds body s)
  | withApp {α : Type} (g : σ → α × σ) : Plain (Io.withApp g)
  | linkThen {γ β : Type} {op : Link τ → Except NetError γ × Link τ} {k : γ → Io τ σ β} :
      (∀ l, Link.TaskSteps l (op l).2) → (∀ l c, (op l).1 = .ok c → Plain (k c)) →
      Plain (Io.withLink op >>= fun r => Io.ofExcept r >>= k)
  | suspend {y : WaitReason} : y ≠ .ended → Plain (Io.suspend y)

theorem Plain.moves {m : Io τ σ α} (plain : Plain m) : Moves m := by
  induction plain with
  | pure a => exact .pure a
  | throw e => exact .throw e
  | ofExcept r => exact .ofExcept r
  | bind _ _ first next => exact first.bind next
  | loopFor rounds s _ round => exact .loopFor round rounds s
  | withApp g => exact .withApp g
  | linkThen steps _ next => exact .linkThen steps next
  | suspend real => exact .suspend real

theorem Plain.passesErrors {m : Io τ σ α} (plain : Plain m) : PassesErrors m := by
  induction plain with
  | pure a => exact .pure a
  | throw e => exact .throw e
  | ofExcept r => exact .ofExcept r
  | bind _ _ first next => exact first.bind next
  | loopFor rounds s _ round => exact .loopFor round rounds s
  | withApp g => exact .withApp g
  | linkThen _ _ next => exact .linkThen next
  | suspend _ => exact .suspend _

/-! ## The library is plain -/

theorem peekRound_plain (f : List UInt8 → Nat × β) : Plain (peekRound (τ := τ) (σ := σ) f ()) := by
  unfold peekRound
  refine .linkThen (fun l => ?_) fun l c _ => ?_
  -- the queue's bytes are consumed, or the link is left as it was
  · split
    · exact .refl
    · exact .refl
    · exact .single (.consume _ _)
  · cases c with
    | some r => exact .pure _
    | none => exact .bind (.suspend (by decide)) fun _ => .pure _

theorem peekWith_plain (f : List UInt8 → Nat × β) : Plain (peekWith (τ := τ) (σ := σ) f) :=
  .loopFor _ _ fun _ => peekRound_plain f

theorem readSome_plain (cap : Nat) : Plain (readSome (τ := τ) (σ := σ) cap) := by
  unfold readSome
  split
  · exact .pure _
  · exact .bind (peekWith_plain _) fun _ => .pure _

theorem readExact_plain (n : Nat) : Plain (readExact (τ := τ) (σ := σ) n) := by
  unfold readExact
  refine .loopFor _ _ fun acc => ?_
  split
  · exact .pure _
  · exact .bind (readSome_plain _) fun _ => .pure _

theorem skip_plain (n : Nat) : Plain (skip (τ := τ) (σ := σ) n) := by
  unfold skip
  refine .loopFor _ _ fun left => ?_
  split
  · exact .pure _
  · exact .bind (peekWith_plain _) fun _ => .pure _

end Io

namespace FrameWriter

open Io

variable {τ σ : Type} [Transport τ]

theorem write_plain (framing : Framing) (bytes : List UInt8) :
    Plain (write (τ := τ) (σ := σ) framing bytes) := by
  unfold write Io.loop
  refine .loopFor _ _ fun rest => ?_
  split
  · exact .pure _
  · refine .linkThen (fun l => .single (.append _ _ _)) fun l c answered => ?_
    cases c with
    | took n => exact .pure _
    | blocked reason => exact .bind (.suspend (Link.append_waits_real answered)) fun _ => .pure _

/-- Repeating a link operation of the task's own until it answers no reason is plain when every
reason it answers is real. -/
theorem untilDone_plain {op : Link τ → Except NetError (Option WaitReason) × Link τ}
    (steps : ∀ l, Link.TaskSteps l (op l).2)
    (real : ∀ l y, (op l).1 = .ok (some y) → y ≠ .ended) :
    Plain (untilDone (τ := τ) (σ := σ) op) := by
  unfold untilDone Io.loop
  refine .loopFor _ _ fun u => .linkThen steps fun l c answered => ?_
  cases c with
  | some y => exact .bind (.suspend (real l y answered)) fun _ => .pure _
  | none => exact .pure _

theorem push_plain : Plain (push (τ := τ) (σ := σ)) :=
  untilDone_plain (fun l => .single (.push l)) fun _ _ => Link.push_waits_real

theorem flush_plain : Plain (flush (τ := τ) (σ := σ)) :=
  untilDone_plain (fun l => .single (.flush l)) fun _ _ => Link.flush_waits_real

end FrameWriter

namespace Handshake

open Io

variable {τ σ : Type}

/-- The handshake reports the stage of a failure, which reading a head forgets. -/
theorem parse_run (w : Conn τ σ) : (parse (τ := τ) (σ := σ)).run w =
    (parseReporting w).bind fun r w' => .done (r.mapError Prod.fst) w' :=
  Routine.map_apply _ parseReporting w

variable [Transport τ]

theorem skipUntil_plain (stop : UInt8 → Bool) : Plain (skipUntil (τ := τ) (σ := σ) stop) := by
  unfold skipUntil Io.loop
  refine .loopFor _ _ fun u => .bind (peekWith_plain _) fun x => ?_
  obtain ⟨_, found⟩ := x
  exact .pure _

theorem eatSeparators_plain : Plain (eatSeparators (τ := τ) (σ := σ)) := by
  unfold eatSeparators Io.loop
  refine .loopFor _ _ fun feeds => .bind (peekWith_plain _) fun x => ?_
  obtain ⟨_, feeds, more⟩ := x
  dsimp only
  split_ifs <;> exact .pure _

theorem select_plain (candidates : List (List UInt8)) :
    Plain (select (τ := τ) (σ := σ) candidates) := by
  unfold select Io.loop
  refine .loopFor _ _ fun sel => .bind (peekWith_plain _) fun x => ?_
  obtain ⟨_, outcome, sel⟩ := x
  exact .pure _

theorem step_plain (stage : HandshakeStage) (req : Request) :
    Plain (step (τ := τ) (σ := σ) stage req) := by
  have drain : Plain (drainLine (τ := τ) (σ := σ)) := skipUntil_plain _
  have blanks : Plain (skipBlanks (τ := τ) (σ := σ)) := skipUntil_plain _
  cases stage with
  | requestLine => exact .bind drain fun _ => .pure _
  | separators => exact .bind eatSeparators_plain fun _ => .pure _
  | headerName =>
    refine .bind (select_plain _) fun sel => ?_
    split
    · exact .pure _
    · exact .pure _
    · exact .bind drain fun _ => .pure _
  | upgradeValue =>
    exact .bind blanks fun _ => .bind (select_plain _) fun _ => .bind drain fun _ => .pure _
  | keyValue =>
    exact .bind blanks fun _ => .bind (readExact_plain _) fun _ => .bind drain fun _ => .pure _
  | done => exact .pure _

theorem parseReporting_moves (w : Conn τ σ) : (parseReporting (τ := τ) (σ := σ) w).Moves id w := by
  unfold parseReporting Routine.loop
  refine Progress.Moves.iterate (fun s w => ?_) _ _ _
  obtain ⟨stage, req⟩ := s
  dsimp only
  split
  · exact .done_here _
  · refine ((step_plain stage req).moves w).bind fun r w' => ?_
    cases r <;> exact .done_here _

theorem parse_moves : Moves (parse (τ := τ) (σ := σ)) := by
  intro w
  rw [parse_run]
  exact (parseReporting_moves w).bind fun _ _ => .done_here _

/-- Resumed with an error, the handshake fails at once, reporting the stage it failed in. -/
theorem parseReporting_endsOnError (w : Conn τ σ) :
    (parseReporting (τ := τ) (σ := σ) w).EndsOnError fun w' r w'' =>
      (∃ e, r.mapError Prod.fst = .error e) ∧ w''.link = w'.link := by
  unfold parseReporting Routine.loop
  refine Progress.EndsOnError.iterate (fun s w => ?_) _ _ _
  obtain ⟨stage, req⟩ := s
  dsimp only
  split
  · exact .done
  · refine ((step_plain stage req).passesErrors w).bind (fun r w' => ?_) ?_
    · cases r <;> exact .done
    · rintro w' r w'' ⟨⟨e, rfl⟩, link⟩
      exact ⟨.inr (.error (e, stage)), w'', rfl, .error (e, stage), rfl, ⟨e, rfl⟩, link⟩

theorem parse_passesErrors : PassesErrors (parse (τ := τ) (σ := σ)) := by
  intro w
  rw [parse_run]
  exact (parseReporting_endsOnError w).bind (fun _ _ => .done) fun _ r w'' failed =>
    ⟨r.mapError Prod.fst, w'', rfl, failed⟩

end Handshake

namespace FrameReader

open Io

variable {τ σ : Type} [Transport τ]

theorem readHeader_plain : Plain (readHeader (τ := τ) (σ := σ)) := by
  unfold readHeader
  refine .bind (readExact_plain 2) fun base => ?_
  refine .bind (readExact_plain _) fun ext => ?_
  dsimp only
  split
  · exact .bind (readExact_plain 4) fun _ => .bind (.pure _) fun _ => .pure _
  · exact .bind (.pure _) fun _ => .pure _

theorem nextFrame_plain (rd : FrameReader) : Plain (rd.nextFrame (τ := τ) (σ := σ)) := by
  unfold nextFrame
  refine .bind readHeader_plain fun header => ?_
  obtain ⟨fin, opcode, len, mask⟩ := header
  dsimp only
  -- data frames go on; every other frame is skipped whole, a close frame then fails
  cases opcode
  case text | binary => exact .bind (.pure _) fun _ => .pure _
  case continuation =>
    cases rd.message with
    | some m => exact .bind (.pure _) fun _ => .pure _
    | none => exact .bind (skip_plain _) fun _ => .bind (.pure _) fun _ => .pure _
  case close => exact .bind (skip_plain _) fun _ => .bind (.throw _) fun _ => .pure _
  all_goals exact .bind (skip_plain _) fun _ => .bind (.pure _) fun _ => .pure _

theorem nextData_plain (rd : FrameReader) : Plain (rd.nextData (τ := τ) (σ := σ)) := by
  unfold nextData Io.loop
  refine .loopFor _ _ fun u => ?_
  unfold frameRound
  refine .bind (nextFrame_plain rd) fun next => ?_
  cases next <;> exact .pure _

theorem readPayload_plain (rd : FrameReader) (cap : Nat) :
    Plain (rd.readPayload (τ := τ) (σ := σ) cap) := by
  unfold readPayload
  split
  · exact .pure _
  · refine .bind (.loopFor _ _ fun x => ?_) fun x => ?_
    · obtain ⟨acc, mask⟩ := x
      dsimp only
      split
      · exact .pure _
      · exact .bind (readSome_plain _) fun _ => .pure _
    · obtain ⟨data, mask⟩ := x
      exact .pure _

theorem read_plain (rd : FrameReader) (cap : Nat) : Plain (rd.read (τ := τ) (σ := σ) cap) := by
  unfold read
  split
  · exact .pure _
  · dsimp only
    split
    · exact .bind (nextData_plain rd) fun rd' => readPayload_plain rd' cap
    · exact .bind (.pure _) fun rd' => readPayload_plain rd' cap

end FrameReader

/-! ## Services and the session -/

namespace Io

variable {τ σ : Type} [Transport τ]

theorem WebSocket.read_plain (ws : WebSocket) (cap : Nat) : Plain (ws.read (τ := τ) (σ := σ) cap) := by
  unfold WebSocket.read
  refine .bind (FrameReader.read_plain _ _) fun x => ?_
  obtain ⟨data, reader⟩ := x
  exact .pure _

/-- Every program made of the socket's operations moves by the task's own link operations. -/
theorem SocketProgram.moves {α : Type} {m : Io τ σ α} (built : SocketProgram m) : Moves m := by
  induction built with
  | pure a => exact .pure a
  | throw e => exact .throw e
  | bind _ _ first next => exact first.bind next
  | tryCatch _ _ first handler => exact first.tryCatch handler
  | loopFor rounds s _ round => exact .loopFor round rounds s
  | withApp g => exact .withApp g
  | read ws cap => exact (WebSocket.read_plain ws cap).moves
  | write ws bytes => exact (FrameWriter.write_plain _ bytes).moves
  | push ws => exact FrameWriter.push_plain.moves
  | flush ws => exact FrameWriter.flush_plain.moves

end Io

namespace Session

open Io

variable {τ σ : Type} [Transport τ]

/-- Answering a request is plain but for the service. -/
theorem answer_cases (accept : List UInt8 → List UInt8) (config : Config)
    (page : List UInt8) (service : Service τ σ)
    (request : Request) {Good : Io τ σ Unit → Prop} (plain : ∀ {m : Io τ σ Unit}, Plain m → Good m)
    (bind : ∀ {α : Type} {m : Io τ σ α} {f : α → Io τ σ Unit}, Plain m → (∀ a, Good (f a)) →
      Good (m >>= f))
    (serves : ∀ ws, Good (service ws >>= fun _ => ws.flush)) :
    Good (answer accept config page service request) := by
  unfold answer
  split
  · exact plain (.bind (.ofExcept _) fun _ => .bind (FrameWriter.write_plain _ _) fun _ =>
      .bind (FrameWriter.write_plain _ _) fun _ => FrameWriter.flush_plain)
  · exact bind (.ofExcept _) fun _ => bind (FrameWriter.write_plain _ _) fun _ =>
      bind FrameWriter.push_plain fun _ => serves _

theorem answer_moves (accept : List UInt8 → List UInt8) (config : Config)
    (page : List UInt8) {service : Service τ σ}
    (onSocket : ∀ ws, SocketProgram (service ws)) (request : Request) :
    Moves (answer accept config page service request) :=
  answer_cases accept config page service request Plain.moves
    (fun first next => first.moves.bind next)
    fun ws => (onSocket ws).moves.bind fun _ => FrameWriter.flush_plain.moves

theorem answer_passesErrors (accept : List UInt8 → List UInt8) (config : Config)
    (page : List UInt8) {service : Service τ σ}
    (propagates : ∀ ws, PassesErrors (service ws)) (request : Request) :
    PassesErrors (answer accept config page service request) :=
  answer_cases accept config page service request Plain.passesErrors
    (fun first next => first.passesErrors.bind next)
    fun ws => (propagates ws).bind fun _ => FrameWriter.flush_plain.passesErrors

/-- The session reads a head and answers it, then closes the link. -/
theorem run_eq (accept : List UInt8 → List UInt8) (config : Config)
    (page : List UInt8) (service : Service τ σ) (w : Conn τ σ) :
    run accept config page service w =
      ((Handshake.parse >>= answer accept config page service).run w).bind
      fun _ w' => .done () { w' with link := w'.link.close.2 } :=
  Routine.bind_modify_apply _ _ w

/-- The session moves by the task's own link operations, and closes the link as its last
change. -/
theorem run_moves (accept : List UInt8 → List UInt8) (config : Config)
    (page : List UInt8) {service : Service τ σ}
    (onSocket : ∀ ws, SocketProgram (service ws)) (w : Conn τ σ) :
    (run accept config page service w).Moves (fun l => l.close.2) w := by
  rw [run_eq]
  exact (Handshake.parse_moves.bind (answer_moves accept config page onSocket) w).bind
    fun _ _ => .done .refl rfl rfl

/-- When the service fails at once on errors, the session, resumed with an error, is done at once
with the link it was resumed with closed. -/
theorem run_endsOnError (accept : List UInt8 → List UInt8) (config : Config)
    (page : List UInt8) {service : Service τ σ}
    (propagates : ∀ ws, PassesErrors (service ws)) (w : Conn τ σ) :
    (run accept config page service w).EndsOnError fun w' _ w'' => w''.link = w'.link.close.2 := by
  rw [run_eq]
  exact (Handshake.parse_passesErrors.bind (answer_passesErrors accept config page propagates) w).bind
    (fun _ _ => .done) fun _ _ _ failed => ⟨(), _, rfl, by rw [← failed.2]⟩

end Session

end WebSocketCore
