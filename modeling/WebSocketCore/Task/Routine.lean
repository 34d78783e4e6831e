/-! # Routines: bodies that suspend and are resumed

A routine runs on a world `ω`, which it may read and change. It can finish with a value,
suspend with a code `Y` and wait to be resumed with a value `R`, or stall: wait on something
that is no suspension of its own, after which nobody can resume it. `Progress` is how far a
routine got: the value of a run up to its first suspension, with the rest of the routine held
as a function of the resume value. Whoever drives a task holds the progress and decides when to
resume it; nothing else can, so a routine is never resumed from inside itself.

Loops that may run for ever, such as a service that answers message after message, are written
with `Routine.loop`, which gives up after `loopBudget` rounds by stalling.
-/

namespace WebSocketCore

/-- How far a routine got on a world. -/
inductive Progress (ω Y R α : Type) : Type where
  /-- It finished with a value. -/
  | done (a : α) (w : ω)
  /-- It suspended with a code; `resume` runs the rest from a resume value. -/
  | suspend (code : Y) (w : ω) (resume : R → ω → Progress ω Y R α)
  /-- It waits on something that will not resume it. -/
  | stall (w : ω)

namespace Progress

variable {ω Y R α β : Type}

/-- Goes on with `f` once the progress has finished. -/
def bind : Progress ω Y R α → (α → ω → Progress ω Y R β) → Progress ω Y R β
  | .done a w, f => f a w
  | .suspend y w k, f => .suspend y w fun r w' => (k r w').bind f
  | .stall w, _ => .stall w

/-- The world where the progress stopped. -/
def world : Progress ω Y R α → ω
  | .done _ w => w
  | .suspend _ w _ => w
  | .stall w => w

end Progress

/-- A body that runs on a world, suspending with codes `Y` and resumed with values `R`. -/
def Routine (ω Y R α : Type) : Type := ω → Progress ω Y R α

namespace Routine

variable {ω Y R α β σ : Type}

instance : Monad (Routine ω Y R) where
  pure a := fun w => .done a w
  bind p f := fun w => (p w).bind f

instance : MonadStateOf ω (Routine ω Y R) where
  get := fun w => .done w w
  set w := fun _ => .done () w
  modifyGet f := fun w => let (a, w) := f w; .done a w

/-- Suspends with a code and answers the value it is resumed with. -/
def suspend (code : Y) : Routine ω Y R R := fun w => .suspend code w fun r w' => .done r w'

/-- Waits on something that is no suspension of this routine. -/
def stall : Routine ω Y R α := fun w => .stall w

/-- Runs `body` from `s` again and again while it answers `.inl` with a new state, for at most
`fuel` rounds; stalls when the rounds run out. -/
def iterate : Nat → (σ → Routine ω Y R (σ ⊕ α)) → σ → Routine ω Y R α
  | 0, _, _ => stall
  | fuel + 1, body, s => fun w => (body s w).bind fun r w' =>
    match r with
    | .inl s' => iterate fuel body s' w'
    | .inr a => .done a w'

/-- How many rounds a loop may run: 2^32. -/
def loopBudget : Nat := 4294967296

/-- Runs `body` from `s` again and again while it answers `.inl` with a new state. -/
def loop (body : σ → Routine ω Y R (σ ⊕ α)) (s : σ) : Routine ω Y R α :=
  iterate loopBudget body s

end Routine

end WebSocketCore
