import Mathlib
import WebSocketCore.Proofs.Io.Stream

/-! # Tasks that keep a guarantee while others act

A task runs in stretches, and between them others change its world. `p.Guards r serves I Q n`
says how a progress behaves against the others' rely `serves`, over its next `n` resumptions with
`r`: every wait happens where `I` holds of its code and world; each resumption into a world that
the wait `serves` goes on the same way with one resumption less; and where the progress finishes,
`Q` holds of its value, the resumptions left and its world. The wait that uses up the count is owed
`I` only.

The rely relates the world a task waits in to the one it is resumed in, so the task may count on
what it left there. Counting resumptions lets a loop that waits take a measure that counts them
too: the rules cover `bind` and loops whose every round lowers a measure, for routines and for
`Io` programs.
-/

namespace WebSocketCore

namespace Progress

variable {ω Y R α β ρ : Type}

/-- Over its next `n` resumptions with `r` into worlds its waits are served in, the progress waits
only where `I` holds and finishes where `Q` holds of the value, the resumptions left and the
world. -/
inductive Guards (r : R) (serves : Y → ω → ω → Prop) (I : Y → ω → Prop) (Q : α → Nat → ω → Prop) :
    Nat → Progress ω Y R α → Prop
  | done {n : Nat} {a : α} {w : ω} : Q a n w → Guards r serves I Q n (.done a w)
  | wait {n : Nat} {y : Y} {w : ω} {k : R → ω → Progress ω Y R α} : I y w →
      (∀ v, serves y w v → Guards r serves I Q n (k r v)) → Guards r serves I Q (n + 1) (.suspend y w k)
  | last {y : Y} {w : ω} {k : R → ω → Progress ω Y R α} : I y w →
      Guards r serves I Q 0 (.suspend y w k)

namespace Guards

variable {r : R} {serves : Y → ω → ω → Prop} {I : Y → ω → Prop} {Q : α → Nat → ω → Prop}
  {p : Progress ω Y R α} {n : Nat}

theorem mono {I' : Y → ω → Prop} {Q' : α → Nat → ω → Prop} (guards : p.Guards r serves I Q n)
    (inv : ∀ y w, I y w → I' y w) (post : ∀ a m w, Q a m w → Q' a m w) :
    p.Guards r serves I' Q' n := by
  induction guards with
  | done holds => exact .done (post _ _ _ holds)
  | wait holds _ ih => exact .wait (inv _ _ holds) ih
  | last holds => exact .last (inv _ _ holds)

/-- A progress finishes with no more resumptions left than it started with. -/
theorem fewer (guards : p.Guards r serves I Q n) : p.Guards r serves I (fun a m w => Q a m w ∧ m ≤ n) n := by
  induction guards with
  | done holds => exact .done ⟨holds, le_rfl⟩
  | wait holds _ ih =>
    exact .wait holds fun v serves => (ih v serves).mono (fun _ _ waits => waits)
      fun _ _ _ post => ⟨post.1, Nat.le_succ_of_le post.2⟩
  | last holds => exact .last holds

/-- What is bound after a progress goes on from where it finished, with the resumptions left. -/
theorem bind {S : β → Nat → ω → Prop} {f : α → ω → Progress ω Y R β}
    (first : p.Guards r serves I Q n) (next : ∀ a m w, Q a m w → (f a w).Guards r serves I S m) :
    (p.bind f).Guards r serves I S n := by
  induction first with
  | done holds => exact next _ _ _ holds
  | wait holds _ ih => exact .wait holds ih
  | last holds => exact .last holds

/-- The loop rule: when every round, from a state `J` admits with `n` resumptions left, finishes
the loop as `Q` asks or goes on to a state `J` admits with a lower measure `μ`, a loop with more
rounds than the measure keeps the guarantee. The measure counts the resumptions left, so a round
may wait instead of making progress of its own. -/
theorem iterate {body : ρ → Routine ω Y R (ρ ⊕ α)} (J : ρ → Nat → ω → Prop)
    (μ : ρ → Nat → ω → Nat)
    (round : ∀ s n w, J s n w → (body s w).Guards r serves I
      (Sum.elim (fun s' m w' => J s' m w' ∧ μ s' m w' < μ s n w) Q) n) :
    ∀ (rounds : Nat) (s : ρ) (n : Nat) (w : ω), J s n w → μ s n w < rounds →
      (Routine.iterate rounds body s w).Guards r serves I Q n := by
  intro rounds
  induction rounds with
  | zero => intro _ _ _ _ spare; omega
  | succ rounds ih =>
    intro s n w holds spare
    refine (round s n w holds).bind fun x m w' post => ?_
    cases x with
    | inl s' =>
      obtain ⟨holds', lower⟩ := post
      exact ih s' m w' holds' (by omega)
    | inr a => exact .done post

end Guards

end Progress

namespace Io

variable {τ σ α β ρ : Type} {serves : WaitReason → Conn τ σ → Conn τ σ → Prop}
  {I : WaitReason → Conn τ σ → Prop}

/-- A program, then what is bound after it: the second part goes on from every success of the
first, and a failure of the first ends the whole. -/
theorem guards_bind {x : Io τ σ α} {f : α → Io τ σ β} {w : Conn τ σ} {n : Nat}
    {P : Except NetError α → Nat → Conn τ σ → Prop} {Q : Except NetError β → Nat → Conn τ σ → Prop}
    (first : (x.run w).Guards (.ok ()) serves I P n)
    (next : ∀ a m w', P (.ok a) m w' → ((f a).run w').Guards (.ok ()) serves I Q m)
    (fails : ∀ e m w', P (.error e) m w' → Q (.error e) m w') :
    ((x >>= f).run w).Guards (.ok ()) serves I Q n := by
  rw [run_bind_apply]
  refine first.bind fun res m w' post => ?_
  cases res with
  | ok a => exact next a m w' post
  | error e => exact .done (fails e m w' post)

/-- The loop rule for `Io` loops: every round, from a state `J` admits, fails as `Q` asks,
finishes as `Q` asks, or goes on to a state `J` admits with a lower measure. -/
theorem guards_loopFor {body : ρ → Io τ σ (ρ ⊕ α)} (J : ρ → Nat → Conn τ σ → Prop)
    (μ : ρ → Nat → Conn τ σ → Nat) {Q : Except NetError α → Nat → Conn τ σ → Prop}
    (round : ∀ s n w, J s n w → ((body s).run w).Guards (.ok ()) serves I (fun res m w' =>
      match res with
      | .ok (.inl s') => J s' m w' ∧ μ s' m w' < μ s n w
      | .ok (.inr a) => Q (.ok a) m w'
      | .error e => Q (.error e) m w') n) :
    ∀ (rounds : Nat) (s : ρ) (n : Nat) (w : Conn τ σ), J s n w → μ s n w < rounds →
      ((loopFor rounds body s).run w).Guards (.ok ()) serves I Q n := by
  intro rounds
  induction rounds with
  | zero => intro _ _ _ _ spare; omega
  | succ rounds ih =>
    intro s n w holds spare
    rw [run_loopFor_succ_apply]
    refine (round s n w holds).bind fun res m w' post => ?_
    rcases res with e | s' | a
    · exact .done post
    · obtain ⟨holds', lower⟩ := post
      exact ih s' m w' holds' (by omega)
    · exact .done post

end Io

end WebSocketCore
