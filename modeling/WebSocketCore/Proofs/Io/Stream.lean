import WebSocketCore.Io

/-! # Reading a byte stream

A task reads what the peer sends through the link's inbound queue. The peer's bytes arrive in
chunks, and a task that finds the queue empty suspends with `recv` until the next chunk is
queued; `Progress.feed` plays a task against one such delivery. `Routine.Reads m s P` says that
`m` reads its answer off the stream `s`: whatever prefix of `s` is queued when it starts and
however the rest is cut into chunks, it finishes with an answer and a count of consumed bytes
that satisfy `P`, and leaves the rest of `s` to whatever reads next. Such facts compose along
`bind` and along loops whose rounds lower a variant, and the reading primitives meet them:
`peekWith` and `readSome` take a nonempty prefix of what is queued, `readExact n` reads the next
`n` bytes and `skip n` drops them, however the stream is cut.
-/

namespace WebSocketCore

variable {τ σ α β ρ : Type}

namespace Conn

/-- Queues bytes the peer sent. -/
def deliver (w : Conn τ σ) (chunk : List UInt8) : Conn τ σ :=
  { w with link := { w.link with inbound := w.link.inbound ++ chunk } }

/-- The world once the task has consumed `n` more bytes and left `q` queued: only the queue and
the count of consumed bytes not yet reported change. -/
def consumed (w : Conn τ σ) (q : List UInt8) (n : Nat) : Conn τ σ :=
  { w with link := { w.link with inbound := q, credit := w.link.credit + n } }

@[simp] theorem inbound_deliver (w : Conn τ σ) (c : List UInt8) :
    (w.deliver c).link.inbound = w.link.inbound ++ c := rfl

@[simp] theorem error_deliver (w : Conn τ σ) (c : List UInt8) :
    (w.deliver c).link.error = w.link.error := rfl

@[simp] theorem inbound_consumed (w : Conn τ σ) (q : List UInt8) (n : Nat) :
    (w.consumed q n).link.inbound = q := rfl

@[simp] theorem error_consumed (w : Conn τ σ) (q : List UInt8) (n : Nat) :
    (w.consumed q n).link.error = w.link.error := rfl

@[simp] theorem consumed_inbound_zero (w : Conn τ σ) : w.consumed w.link.inbound 0 = w := rfl

@[simp] theorem consumed_consumed (w : Conn τ σ) (q q' : List UInt8) (n n' : Nat) :
    (w.consumed q n).consumed q' n' = w.consumed q' (n + n') := by
  simp only [consumed, Nat.add_assoc]

@[simp] theorem consumed_deliver (w : Conn τ σ) (c q : List UInt8) (n : Nat) :
    (w.deliver c).consumed q n = w.consumed q n := rfl

end Conn

namespace Progress

@[simp] theorem done_bind {ω Y R : Type} (a : α) (w : ω) (f : α → ω → Progress ω Y R β) :
    (done a w).bind f = f a w := rfl

@[simp] theorem suspend_bind {ω Y R : Type} (y : Y) (w : ω) (k : R → ω → Progress ω Y R α)
    (f : α → ω → Progress ω Y R β) :
    (suspend y w k).bind f = .suspend y w fun r w' => (k r w').bind f := rfl

theorem bind_assoc {ω Y R γ : Type} (p : Progress ω Y R α) (f : α → ω → Progress ω Y R β)
    (g : β → ω → Progress ω Y R γ) :
    (p.bind f).bind g = p.bind fun a w => (f a w).bind g := by
  induction p with
  | done a w => rfl
  | suspend y w k ih => simp only [suspend_bind, ih]
  | stall w => rfl

/-- Plays a task against bytes that arrive in chunks: whenever it waits for bytes, the next
chunk is queued and the task resumed. Answers where it stopped and the chunks it did not take. -/
def feed : Progress (Conn τ σ) WaitReason Wake α → List (List UInt8) →
    Progress (Conn τ σ) WaitReason Wake α × List (List UInt8)
  | .suspend .recv w k, c :: cs => feed (k (.ok ()) (w.deliver c)) cs
  | p, cs => (p, cs)

@[simp] theorem feed_nil (p : Progress (Conn τ σ) WaitReason Wake α) : p.feed [] = (p, []) := by
  cases p with
  | suspend y w k => cases y <;> rfl
  | _ => rfl

@[simp] theorem feed_done (a : α) (w : Conn τ σ) (cs : List (List UInt8)) :
    (done a w : Progress (Conn τ σ) WaitReason Wake α).feed cs = (.done a w, cs) := by
  cases cs <;> rfl

theorem feed_recv (w : Conn τ σ) (k : Wake → Conn τ σ → Progress (Conn τ σ) WaitReason Wake α)
    (c : List UInt8) (cs : List (List UInt8)) :
    (suspend .recv w k).feed (c :: cs) = (k (.ok ()) (w.deliver c)).feed cs := rfl

/-- Feeding takes chunks from the front. -/
theorem feed_suffix (p : Progress (Conn τ σ) WaitReason Wake α) (cs : List (List UInt8)) :
    (p.feed cs).2 <:+ cs := by
  induction cs generalizing p with
  | nil => simp
  | cons c cs ih =>
    cases p with
    | done a w => exact List.suffix_refl _
    | stall w => exact List.suffix_refl _
    | suspend y w k =>
      cases y with
      | recv => exact (ih _).trans (List.suffix_cons c cs)
      | _ => exact List.suffix_refl _

/-- Once fed to its end, a task goes on with the chunks it did not take. -/
theorem feed_bind {p : Progress (Conn τ σ) WaitReason Wake α} {cs cs' : List (List UInt8)}
    {a : α} {w : Conn τ σ} (fed : p.feed cs = (.done a w, cs'))
    (f : α → Conn τ σ → Progress (Conn τ σ) WaitReason Wake β) :
    (p.bind f).feed cs = (f a w).feed cs' := by
  induction cs generalizing p with
  | nil =>
    rw [feed_nil] at fed
    cases fed
    rfl
  | cons c cs ih =>
    cases p with
    | done a₀ w₀ => cases fed; rfl
    | stall w₀ => cases fed
    | suspend y w₀ k =>
      cases y with
      | recv => exact ih fed
      | _ => cases fed

/-- A task that finished on some chunks finishes the same way when more chunks follow them. -/
theorem feed_append {p : Progress (Conn τ σ) WaitReason Wake α} {cs cs' : List (List UInt8)}
    {a : α} {w : Conn τ σ} (fed : p.feed cs = (.done a w, cs')) (ds : List (List UInt8)) :
    p.feed (cs ++ ds) = (.done a w, cs' ++ ds) := by
  induction cs generalizing p with
  | nil =>
    rw [feed_nil] at fed
    cases fed
    exact feed_done a w ds
  | cons c cs ih =>
    cases p with
    | done a₀ w₀ =>
      rw [feed_done] at fed
      cases fed
      exact feed_done a w _
    | stall w₀ => cases fed
    | suspend y w₀ k =>
      cases y with
      | recv => exact ih fed
      | _ => cases fed

end Progress

namespace Routine

/-- `m` reads its answer off the stream `s`: started on a world whose link records no error and
queues a prefix of `s`, with the rest of `s` arriving in nonempty chunks whenever it waits for
bytes, it finishes with an answer `a` after consuming the first `n` bytes of `s`, for some `a`
and `n` with `P a n`. Only the queue and the count of consumed bytes change, and what it left of
`s` is still queued or yet to arrive. -/
def Reads (m : IoRoutine τ σ α) (s : List UInt8) (P : α → Nat → Prop) : Prop :=
  ∀ (w : Conn τ σ) (cs : List (List UInt8)), w.link.error = none → (∀ c ∈ cs, c ≠ []) →
    w.link.inbound ++ cs.flatten = s →
    ∃ a n q cs', P a n ∧ (m w).feed cs = (.done a (w.consumed q n), cs') ∧
      q ++ cs'.flatten = s.drop n

namespace Reads

variable {s : List UInt8}

theorem pure {a : α} {P : α → Nat → Prop} (answers : P a 0) :
    Reads (Pure.pure a : IoRoutine τ σ α) s P := by
  intro w cs _ _ arrives
  exact ⟨a, 0, w.link.inbound, cs, answers, by simp [Pure.pure], arrives⟩

theorem mono {m : IoRoutine τ σ α} {P Q : α → Nat → Prop} (reads : Reads m s P)
    (weaker : ∀ a n, P a n → Q a n) : Reads m s Q := by
  intro w cs clean chunks arrives
  obtain ⟨a, n, q, cs', answers, fed, rest⟩ := reads w cs clean chunks arrives
  exact ⟨a, n, q, cs', weaker a n answers, fed, rest⟩

theorem bind {m : IoRoutine τ σ α} {f : α → IoRoutine τ σ β} {P : α → Nat → Prop}
    {Q : β → Nat → Prop} (first : Reads m s P)
    (next : ∀ a n, P a n → Reads (f a) (s.drop n) fun b n' => Q b (n + n')) :
    Reads (m >>= f) s Q := by
  intro w cs clean chunks arrives
  obtain ⟨a, n, q, cs₁, answers, fed, rest⟩ := first w cs clean chunks arrives
  have taken : cs₁ <:+ cs := by simpa only [fed] using Progress.feed_suffix (m w) cs
  obtain ⟨b, n', q', cs₂, answers', fed', rest'⟩ :=
    next a n answers (w.consumed q n) cs₁ clean (fun c mem => chunks c (taken.subset mem)) rest
  refine ⟨b, n + n', q', cs₂, answers', ?_, by rw [rest', List.drop_drop]⟩
  have resumed := Progress.feed_bind fed f
  rw [fed', Conn.consumed_consumed] at resumed
  exact resumed

/-- Reading through an `Io` step: an error ends the reading where the step ended. -/
theorem io_bind {x : Io τ σ α} {f : α → Io τ σ β} {P Q : Except NetError _ → Nat → Prop}
    (first : Reads x.run s P)
    (next : ∀ a n, P (.ok a) n → Reads (f a).run (s.drop n) fun r n' => Q r (n + n'))
    (fails : ∀ e n, P (.error e) n → Q (.error e) n) :
    Reads (x >>= f).run s Q := by
  rw [ExceptT.run_bind]
  refine first.bind fun r n answers => ?_
  cases r with
  | ok a => exact next a n answers
  | error e => exact pure (fails e n answers)

theorem io_pure {a : α} {Q : Except NetError α → Nat → Prop} (answers : Q (.ok a) 0) :
    Reads (Pure.pure a : Io τ σ α).run s Q := by
  rw [ExceptT.run_pure]
  exact pure answers

/-- Binding an answer goes on at once. -/
theorem io_pure_bind {a : α} {f : α → Io τ σ β} {Q : Except NetError β → Nat → Prop}
    (next : Reads (f a).run s Q) : Reads (Pure.pure a >>= f : Io τ σ β).run s Q :=
  next

/-- A failure ends what follows it. -/
theorem io_throw_bind {e : NetError} {f : α → Io τ σ β} {Q : Except NetError β → Nat → Prop}
    (answers : Q (.error e) 0) : Reads (throw e >>= f : Io τ σ β).run s Q :=
  pure answers

end Reads

end Routine

/-! ## The reading primitives -/

namespace Io

theorem run_bind_apply (x : Io τ σ α) (f : α → Io τ σ β) (w : Conn τ σ) :
    (x >>= f).run w = (x.run w).bind fun r w' => match r with
      | .ok a => (f a).run w'
      | .error e => .done (.error e) w' := by
  show (x.run w).bind _ = _
  congr
  funext r w'
  cases r <;> rfl

theorem run_withLink (g : Link τ → α × Link τ) (w : Conn τ σ) :
    (withLink g).run w = .done (.ok (g w.link).1) { w with link := (g w.link).2 } := rfl

theorem run_ofExcept (r : Except NetError α) (w : Conn τ σ) : (ofExcept r).run w = .done r w :=
  rfl

theorem run_pure_apply (a : α) (w : Conn τ σ) : (Pure.pure a : Io τ σ α).run w = .done (.ok a) w :=
  rfl

theorem run_suspend (y : WaitReason) (w : Conn τ σ) :
    (suspend y).run w = .suspend y w fun r w' => .done r w' := rfl

/-- A loop with rounds left runs one round, then the rest. -/
theorem run_loopFor_succ_apply (rounds : Nat) (body : ρ → Io τ σ (ρ ⊕ α)) (x : ρ) (w : Conn τ σ) :
    (loopFor (rounds + 1) body x).run w = ((body x).run w).bind fun r w' => match r with
      | .ok (.inl x') => (loopFor rounds body x').run w'
      | .ok (.inr a) => .done (.ok a) w'
      | .error e => .done (.error e) w' := by
  refine (Progress.bind_assoc ((body x).run w) _ _).trans ?_
  congr
  funext r w'
  rcases r with e | x' | a <;> rfl

theorem run_loopFor_succ (rounds : Nat) (body : ρ → Io τ σ (ρ ⊕ α)) (x : ρ) :
    (loopFor (rounds + 1) body x).run = (body x).run >>= fun r => match r with
      | .ok (.inl x') => (loopFor rounds body x').run
      | .ok (.inr a) => Pure.pure (.ok a)
      | .error e => Pure.pure (.error e) := by
  funext w
  rw [run_loopFor_succ_apply]
  show _ = ((body x).run w).bind _
  congr
  funext r w'
  rcases r with e | x' | a <;> rfl

/-- With bytes queued, a round of `peekWith` offers them all to `f` and consumes what it asks
for. -/
theorem run_peekRound_of_queued (f : List UInt8 → Nat × β) {w : Conn τ σ}
    (queued : w.link.inbound ≠ []) :
    (peekRound f ()).run w =
      .done (.ok (.inr ((w.link.inbound.take (f w.link.inbound).1).length, (f w.link.inbound).2)))
        (w.consumed (w.link.inbound.drop (w.link.inbound.take (f w.link.inbound).1).length)
          (w.link.inbound.take (f w.link.inbound).1).length) := by
  obtain ⟨b, bs, queue⟩ := List.exists_cons_of_ne_nil queued
  have chunk : w.link.inboundChunk = .ok (b :: bs) := by simp [Link.inboundChunk, queue]
  simp only [peekRound, run_bind_apply, run_withLink, Progress.done_bind, chunk, run_ofExcept,
    run_pure_apply, queue]
  simp [Link.consume, Conn.consumed, queue]

/-- With the queue empty, a round of `peekWith` waits for bytes and, resumed, asks for another
round. -/
theorem run_peekRound_of_empty (f : List UInt8 → Nat × β) {w : Conn τ σ}
    (clean : w.link.error = none) (empty : w.link.inbound = []) :
    ∃ k, (peekRound f ()).run w = .suspend .recv w k ∧
      ∀ w', k (.ok ()) w' = .done (.ok (.inl ())) w' := by
  have chunk : w.link.inboundChunk = .ok [] := by simp [Link.inboundChunk, empty, clean]
  simp only [peekRound, run_bind_apply, run_withLink, Progress.done_bind, chunk, run_ofExcept,
    run_pure_apply, run_suspend, Progress.suspend_bind]
  exact ⟨_, rfl, fun w' => rfl⟩

/-- Two rounds of a loop and the rest of its budget. -/
theorem loopBudget_eq : Routine.loopBudget = Routine.loopBudget - 2 + 1 + 1 := rfl

/-- With bytes queued, `peekWith` offers them all to `f` and consumes what it asks for, at once. -/
theorem run_peekWith_of_queued (f : List UInt8 → Nat × β) {w : Conn τ σ}
    (queued : w.link.inbound ≠ []) :
    (peekWith f).run w =
      .done (.ok ((w.link.inbound.take (f w.link.inbound).1).length, (f w.link.inbound).2))
        (w.consumed (w.link.inbound.drop (w.link.inbound.take (f w.link.inbound).1).length)
          (w.link.inbound.take (f w.link.inbound).1).length) := by
  rw [peekWith, loop, loopBudget_eq, run_loopFor_succ_apply, run_peekRound_of_queued f queued]
  rfl

/-- With the queue empty, `peekWith` waits, and offers the first chunk that arrives to `f`. -/
theorem feed_peekWith_of_empty (f : List UInt8 → Nat × β) {w : Conn τ σ}
    (clean : w.link.error = none) (empty : w.link.inbound = []) {c : List UInt8} (arrived : c ≠ [])
    (cs : List (List UInt8)) :
    ((peekWith f).run w).feed (c :: cs) =
      (.done (.ok ((c.take (f c).1).length, (f c).2))
        (w.consumed (c.drop (c.take (f c).1).length) (c.take (f c).1).length), cs) := by
  obtain ⟨k, waits, resumed⟩ := run_peekRound_of_empty f clean empty
  have queued : (w.deliver c).link.inbound ≠ [] := by simpa [empty] using arrived
  rw [peekWith, loop, loopBudget_eq, run_loopFor_succ_apply, waits, Progress.suspend_bind,
    Progress.feed_recv, resumed, Progress.done_bind]
  dsimp only
  rw [run_loopFor_succ_apply, run_peekRound_of_queued f queued]
  simp [empty]

end Io

namespace Routine.Reads

variable {s : List UInt8}

/-- One round of a loop, then the rest of it. -/
theorem loopFor_succ {body : ρ → Io τ σ (ρ ⊕ α)} {rounds : Nat} {x : ρ}
    {Q : Except NetError α → Nat → Prop}
    (round : Reads (body x).run s fun r n => match r with
      | .ok (.inl x') => Reads (Io.loopFor rounds body x').run (s.drop n) fun b n' => Q b (n + n')
      | .ok (.inr a) => Q (.ok a) n
      | .error e => Q (.error e) n) :
    Reads (Io.loopFor (rounds + 1) body x).run s Q := by
  rw [Io.run_loopFor_succ]
  refine round.bind fun r n post => ?_
  rcases r with e | x' | a
  · exact pure post
  · exact post
  · exact pure post

/-- The loop rule: if every round, from a state `x` that `Inv` admits after `k` bytes of `s`,
either finishes as `Q` asks or goes on to a state that `Inv` admits with a lower variant, then a
loop with more rounds than the variant finishes as `Q` asks. -/
theorem loopFor_variant {body : ρ → Io τ σ (ρ ⊕ α)} (Inv : ρ → Nat → Prop) (μ : ρ → Nat → Nat)
    {Q : Except NetError α → Nat → Prop}
    (round : ∀ x k, Inv x k → Reads (body x).run (s.drop k) fun r n => match r with
      | .ok (.inl x') => Inv x' (k + n) ∧ μ x' (k + n) < μ x k
      | .ok (.inr a) => Q (.ok a) (k + n)
      | .error e => Q (.error e) (k + n))
    {rounds : Nat} {x : ρ} {k : Nat} (holds : Inv x k) (spare : μ x k < rounds) :
    Reads (Io.loopFor rounds body x).run (s.drop k) fun r n => Q r (k + n) := by
  induction rounds generalizing x k with
  | zero => omega
  | succ rounds ih =>
    refine loopFor_succ ((round x k holds).mono fun r n post => ?_)
    rcases r with e | x' | a
    · exact post
    · obtain ⟨holds', lower⟩ := post
      have rest := ih holds' (by omega)
      rw [← List.drop_drop] at rest
      exact rest.mono fun b n' answers => by rwa [Nat.add_assoc] at answers
    · exact post

theorem iterate_succ_eq {body : ρ → IoRoutine τ σ (ρ ⊕ α)} (rounds : Nat) (x : ρ) :
    Routine.iterate (rounds + 1) body x =
      body x >>= fun r => Sum.elim (Routine.iterate rounds body) Pure.pure r := by
  funext w
  show ((body x) w).bind _ = ((body x) w).bind _
  congr
  funext r w'
  cases r <;> rfl

/-- The loop rule for routine loops, as `loopFor_variant` for `Io` loops: every round, from a
state that `Inv` admits after `k` bytes of `s`, either finishes as `Q` asks or goes on to a state
that `Inv` admits with a lower variant. -/
theorem iterate_variant {body : ρ → IoRoutine τ σ (ρ ⊕ α)} (Inv : ρ → Nat → Prop)
    (μ : ρ → Nat → Nat) {Q : α → Nat → Prop}
    (round : ∀ x k, Inv x k → Reads (body x) (s.drop k) fun r n =>
      Sum.elim (fun x' => Inv x' (k + n) ∧ μ x' (k + n) < μ x k) (fun a => Q a (k + n)) r)
    {rounds : Nat} {x : ρ} {k : Nat} (holds : Inv x k) (spare : μ x k < rounds) :
    Reads (Routine.iterate rounds body x) (s.drop k) fun a n => Q a (k + n) := by
  induction rounds generalizing x k with
  | zero => omega
  | succ rounds ih =>
    rw [iterate_succ_eq]
    refine (round x k holds).bind fun r n post => ?_
    rcases r with x' | a
    · obtain ⟨holds', lower⟩ := post
      have rest := ih holds' (by omega)
      rw [← List.drop_drop] at rest
      exact rest.mono fun b n' answers => by rwa [Nat.add_assoc] at answers
    · exact pure post

/-- `peekWith` offers `f` a nonempty prefix of the stream, as much of it as is queued, and
consumes what `f` asks for, at most that prefix. -/
theorem peekWith {f : List UInt8 → Nat × β} (ready : s ≠ []) :
    Reads (Io.peekWith (τ := τ) (σ := σ) f).run s fun r n =>
      ∃ c, c ≠ [] ∧ c <+: s ∧ n = (c.take (f c).1).length ∧ r = .ok (n, (f c).2) := by
  intro w cs clean chunks arrives
  by_cases empty : w.link.inbound = []
  · obtain ⟨c, cs, rfl⟩ : ∃ c cs', cs = c :: cs' := by
      cases cs with
      | nil => exact (ready (by simpa [empty] using arrives.symm)).elim
      | cons c cs => exact ⟨c, cs, rfl⟩
    have arrived : c ≠ [] := chunks c (List.mem_cons_self ..)
    have stream : s = c ++ cs.flatten := by simpa [empty] using arrives.symm
    have fits : (c.take (f c).1).length ≤ c.length := List.length_take_le' _ _
    refine ⟨_, _, _, cs, ⟨c, arrived, ⟨cs.flatten, stream.symm⟩, rfl, rfl⟩,
      Io.feed_peekWith_of_empty f clean empty arrived cs, ?_⟩
    rw [stream, List.drop_append_of_le_length fits]
  · have fits : (w.link.inbound.take (f w.link.inbound).1).length ≤ w.link.inbound.length :=
      List.length_take_le' _ _
    refine ⟨_, _, _, cs, ⟨w.link.inbound, empty, ⟨cs.flatten, arrives⟩, rfl, rfl⟩,
      by rw [Io.run_peekWith_of_queued f empty, Progress.feed_done], ?_⟩
    rw [← arrives, List.drop_append_of_le_length fits]

/-- What follows `peekWith` starts where `f` stopped in the nonempty prefix it was offered;
`peekWith` itself never fails on a clean link. -/
theorem peekWith_bind {γ : Type} {f : List UInt8 → Nat × β} {g : Nat × β → Io τ σ γ}
    {Q : Except NetError γ → Nat → Prop} (ready : s ≠ [])
    (next : ∀ c r, c ≠ [] → c ++ r = s →
      Reads (g ((c.take (f c).1).length, (f c).2)).run (s.drop (c.take (f c).1).length)
        fun res n => Q res ((c.take (f c).1).length + n)) :
    Reads (Io.peekWith f >>= g).run s Q := by
  refine io_bind (peekWith ready) (fun x n post => ?_) fun e n post => ?_
  · obtain ⟨c, nonempty, ⟨r, split⟩, count, answer⟩ := post
    cases answer
    subst count
    exact next c r nonempty split
  · obtain ⟨c, -, -, -, answer⟩ := post
    cases answer

/-- `readSome` reads between one and `cap` bytes off the front of the stream. -/
theorem readSome {cap : Nat} (pos : 0 < cap) (ready : s ≠ []) :
    Reads (Io.readSome (τ := τ) (σ := σ) cap).run s fun r n =>
      0 < n ∧ n ≤ cap ∧ r = .ok (s.take n) := by
  rw [Io.readSome, if_neg (Nat.pos_iff_ne_zero.mp pos)]
  refine peekWith_bind ready fun c t arrived stream => ?_
  have within : (c.take cap).length ≤ c.length := List.length_take_le' _ _
  have short : (c.take (c.take cap).length).length = (c.take cap).length := by
    simp only [List.length_take]
    omega
  have front : s.take (c.take cap).length = c.take cap := by
    rw [← stream, List.take_append_of_le_length within, List.take_eq_take_iff, List.length_take]
    omega
  rw [short]
  refine io_pure ⟨?_, ?_, ?_⟩
  · have : 0 < c.length := List.length_pos_iff.mpr arrived
    simp only [List.length_take, Nat.add_zero]
    omega
  · simp only [List.length_take, Nat.add_zero]
    omega
  · rw [Nat.add_zero, front]

/-- `readExact n` reads the next `n` bytes of the stream, however they arrive. -/
theorem readExact {n : Nat} (enough : n ≤ s.length) :
    Reads (Io.readExact (τ := τ) (σ := σ) n).run s fun r k => r = .ok (s.take n) ∧ k = n := by
  rw [Io.readExact]
  -- what was read is the stream's first `k` bytes, and `n - k` bounds the rounds still needed
  refine (loopFor_variant (k := 0) (fun acc k => acc = s.take k ∧ k ≤ n) (fun _ k => n - k)
    (fun acc k ⟨built, within⟩ => ?_) ⟨rfl, Nat.zero_le n⟩ (by omega)).mono
    fun r k answers => by simpa using answers
  subst built
  have length : (s.take k).length = k := by
    simp only [List.length_take]
    omega
  rw [length]
  by_cases full : n ≤ k
  · rw [if_pos full]
    exact io_pure ⟨by rw [show k = n by omega], by omega⟩
  · rw [if_neg full]
    have ready : s.drop k ≠ [] := by
      simp only [ne_eq, List.drop_eq_nil_iff]
      omega
    refine io_bind (readSome (by omega) ready) (fun more m ⟨pos, atMost, got⟩ => ?_)
      fun e m ⟨_, _, got⟩ => by cases got
    cases got
    refine io_pure ⟨⟨by rw [Nat.add_zero, List.take_add], by omega⟩, by omega⟩

/-- `skip n` drops the next `n` bytes of the stream, however they arrive. -/
theorem skip {n : Nat} (enough : n ≤ s.length) :
    Reads (Io.skip (τ := τ) (σ := σ) n).run s fun r k => r = .ok () ∧ k = n := by
  rw [Io.skip]
  -- `left` bytes are still to drop after `k` were dropped, and bound the rounds still needed
  refine (loopFor_variant (k := 0) (fun left k => left + k = n) (fun left _ => left)
    (fun left k counted => ?_) rfl (by omega)).mono fun r k answers => by simpa using answers
  by_cases finished : left = 0
  · rw [if_pos finished]
    exact io_pure ⟨rfl, by omega⟩
  · rw [if_neg finished]
    have ready : s.drop k ≠ [] := by
      simp only [ne_eq, List.drop_eq_nil_iff]
      omega
    refine peekWith_bind ready fun c t arrived stream => ?_
    have nonempty : 0 < c.length := List.length_pos_iff.mpr arrived
    simp only [List.length_take]
    exact io_pure ⟨by omega, by omega⟩

end Routine.Reads

end WebSocketCore
