import Mathlib
import WebSocketCore.Proofs.Task.LockDiscipline

/-! # Tasks that keep an invariant across their waits

A task runs in stretches between suspensions, and while it waits others change the world. A
progress `Keeps I G Q` when the world satisfies `I` wherever it suspends, the code it suspends
with is owed `G` there, every resumption into a world that satisfies `I` keeps all this again,
and `Q` holds of the value and the world where it finishes. `Routine.Keeps I G P m Q` is the
triple over it: from every world satisfying `P`, `m` keeps `I` and `G` and finishes in `Q`. Its
rules cover `pure`, `bind`, changes of the world, suspension, stalls and bounded loops.

A lock that drives such a task, over a world whose invariant and debts do not read the lock's
bookkeeping, lets go of it either retired or parked on a reason that is owed, in a world that
keeps the invariant, with a rest that keeps it again.
-/

namespace WebSocketCore

namespace Progress

variable {ω Y R α β : Type} {I : ω → Prop} {G : Y → ω → Prop}

/-- A progress keeps `I` at every suspension, where its code is owed `G`, is kept again by every
resumption into a world that keeps `I`, and finishes where `Q` holds. -/
inductive Keeps (I : ω → Prop) (G : Y → ω → Prop) (Q : α → ω → Prop) : Progress ω Y R α → Prop
  | done {a : α} {w : ω} : Q a w → Keeps I G Q (.done a w)
  | stall {w : ω} : Keeps I G Q (.stall w)
  | suspend {y : Y} {w : ω} {k : R → ω → Progress ω Y R α} : I w → G y w →
      (∀ r w', I w' → Keeps I G Q (k r w')) → Keeps I G Q (.suspend y w k)

theorem Keeps.mono {Q Q' : α → ω → Prop} {p : Progress ω Y R α} (kept : p.Keeps I G Q)
    (weaker : ∀ a w, Q a w → Q' a w) : p.Keeps I G Q' := by
  induction kept with
  | done holds => exact .done (weaker _ _ holds)
  | stall => exact .stall
  | suspend inv owed _ ih => exact .suspend inv owed ih

theorem Keeps.bind {Q : α → ω → Prop} {S : β → ω → Prop} {p : Progress ω Y R α}
    {f : α → ω → Progress ω Y R β} (kept : p.Keeps I G Q) (next : ∀ a w, Q a w → (f a w).Keeps I G S) :
    (p.bind f).Keeps I G S := by
  induction kept with
  | done holds => exact next _ _ holds
  | stall => exact .stall
  | suspend inv owed _ ih => exact .suspend inv owed ih

end Progress

namespace Routine

variable {ω Y R α β σ : Type} {I : ω → Prop} {G : Y → ω → Prop}

/-- From every world satisfying `P`, the routine keeps `I` and `G` and finishes in `Q`. -/
def Keeps (I : ω → Prop) (G : Y → ω → Prop) (P : ω → Prop) (m : Routine ω Y R α)
    (Q : α → ω → Prop) : Prop :=
  ∀ w, P w → (m w).Keeps I G Q

namespace Keeps

theorem pure {P : ω → Prop} {Q : α → ω → Prop} {a : α} (holds : ∀ w, P w → Q a w) :
    Keeps I G P (Pure.pure a : Routine ω Y R α) Q :=
  fun w before => .done (holds w before)

theorem bind {P : ω → Prop} {Q : α → ω → Prop} {S : β → ω → Prop} {m : Routine ω Y R α}
    {f : α → Routine ω Y R β} (first : Keeps I G P m Q) (next : ∀ a, Keeps I G (Q a) (f a) S) :
    Keeps I G P (m >>= f) S :=
  fun w before => (first w before).bind fun a w' after => next a w' after

/-- A change of the world keeps the triple when it takes `P` into `Q`. -/
theorem modify {P : ω → Prop} {Q : Unit → ω → Prop} {g : ω → ω} (holds : ∀ w, P w → Q () (g w)) :
    Keeps I G P (modify g : Routine ω Y R Unit) Q :=
  fun w before => .done (holds w before)

/-- A suspension keeps the triple when it happens where `I` holds and its code is owed, and every
world that keeps `I` satisfies `Q`. -/
theorem suspend {P : ω → Prop} {Q : R → ω → Prop} {y : Y} (owed : ∀ w, P w → I w ∧ G y w)
    (resumed : ∀ r w, I w → Q r w) : Keeps I G P (Routine.suspend y : Routine ω Y R R) Q :=
  fun w before => .suspend (owed w before).1 (owed w before).2 fun r w' kept => .done (resumed r w' kept)

theorem stall {P : ω → Prop} {Q : α → ω → Prop} : Keeps I G P (stall : Routine ω Y R α) Q :=
  fun _ _ => .stall

/-- A loop keeps the triple when its body takes the loop's invariant `J` into itself for another
round, or into `Q` with the loop's answer; running out of rounds stalls. -/
theorem iterate {J : σ → ω → Prop} {Q : α → ω → Prop} {body : σ → Routine ω Y R (σ ⊕ α)}
    (round : ∀ s, Keeps I G (J s) (body s) (Sum.elim J Q)) :
    ∀ (fuel : Nat) (s : σ), Keeps I G (J s) (iterate fuel body s) Q := by
  intro fuel
  induction fuel with
  | zero => exact fun _ => stall
  | succ fuel ih =>
    intro s w before
    refine (round s w before).bind fun r w' after => ?_
    cases r with
    | inl s' => exact ih s' w' after
    | inr a => exact .done after

end Keeps

end Routine

namespace IoLock

open LockWorld

variable {ω : Type} [LockWorld ω] {I : ω → Prop} {G : WaitReason → ω → Prop}
  {Q : Unit → ω → Prop}

/-- The rest of a task that keeps `I` and `G` keeps them after every resumption the lock makes
while driving it, when `I` does not read the bookkeeping. -/
theorem Drives.keeps (blind : ∀ w ls, I w → I (setLockState w ls))
    {p q : Progress ω WaitReason Wake Unit} (drives : Drives p q) (kept : p.Keeps I G Q) :
    q.Keeps I G Q := by
  induction drives with
  | refl => exact kept
  | resume _ _ _ ih =>
    cases kept with
    | suspend inv _ rest => exact ih (rest _ _ (blind _ _ inv))

/-- A drive that lets go of its task without holding it has retired it. -/
theorem drive_finished_of_free [LawfulLockWorld ω] (p : Progress ω WaitReason Wake Unit)
    (free : (drive p).2.1.parked = none) : (lockState (drive p).2.2).finished = true := by
  induction p with
  | done a w => simp [drive_done, mapLock, LockState.retired]
  | stall w => simp [drive_stall, mapLock, LockState.retired]
  | suspend y w k ih =>
    rcases drive_suspend y w k with ⟨-, step⟩ | ⟨-, -, step⟩ | ⟨-, -, step⟩ <;> rw [step] at free ⊢
    · simp [mapLock, LockState.retired]
    · exact ih _ _ free
    · cases free

/-- Driving a task that keeps `I` and `G` retires it, or parks it on a reason it has just
suspended with: that reason is not ended and not ready, no error is recorded, the world where it
suspended keeps `I` and owes the reason `G`, and the rest keeps them after any resumption. -/
theorem drive_keeps (blind : ∀ w ls, I w → I (setLockState w ls))
    {p : Progress ω WaitReason Wake Unit} (kept : p.Keeps I G Q) :
    (drive p).2.1.parked = none ∨
      ∃ k y w, (drive p).2.1.parked = some k ∧
        (drive p).2.2 = setLockState w { lockState w with waiting := y, phase := .idle } ∧
        y ≠ .ended ∧ (lockState w).error = none ∧ isReady w y = false ∧ I w ∧ G y w ∧
        ∀ v w', I w' → (k v w').Keeps I G Q := by
  cases held : (drive p).2.1.parked with
  | none => exact .inl rfl
  | some k =>
    obtain ⟨y, w, drives, atPark, ended, quiet, idle⟩ := drive_parksFrom p k held
    cases drives.keeps blind kept with
    | suspend inv owed rest => exact .inr ⟨k, y, w, rfl, atPark, ended, quiet, idle, inv, owed, rest⟩

end IoLock

end WebSocketCore
