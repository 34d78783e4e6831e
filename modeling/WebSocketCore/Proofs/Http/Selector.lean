import WebSocketCore.Http.Selector
import Mathlib

/-! # Selecting across chunks

A selector keeps its place between chunks. A feed still pending at the end of its input goes on
with more input from where it stopped, and a feed that has decided answers the same whatever
follows (`feed_append_of_pending`, `feed_append_of_decides`). So feeding an input cut into chunks,
one after another, gives the decision, the total count and the selector that feeding it whole
gives (`feedAll_agrees_with_feed`); once decided, a selector whose candidates hold a zero byte only
as their last byte keeps its decision and consumes nothing more.

What a selector has read is `Follows`: the bytes it consumed fold, byte by byte, like the start of
the candidate it follows, and each of them folds like a byte of some candidate. A match has then
read its candidate exactly (`matched_reads_candidate`), a pending feed has read a proper prefix of
one (`pending_reads_prefix`), and a feed that follows a candidate to its end matches it
(`feed_follows_to_end`).
-/

namespace WebSocketCore
namespace Selector

/-! ## Comparing bytes -/

/-- The byte a comparison sees: its lower case when case is folded. -/
def fold (foldCase : Bool) (b : UInt8) : UInt8 := if foldCase then asciiLower b else b

theorem same_iff {fc : Bool} {a b : UInt8} : same fc a b = true ↔ fold fc a = fold fc b := by
  cases fc <;> simp [same, fold]

theorem agree_iff {fc : Bool} {xs ys : List UInt8} :
    agree fc xs ys = true ↔ xs.map (fold fc) = ys.map (fold fc) := by
  induction xs generalizing ys with
  | nil => cases ys <;> simp [agree]
  | cons a as ih => cases ys <;> simp [agree, same_iff, ih]

/-- Only the zero byte folds to zero. -/
theorem eq_zero_of_fold {fc : Bool} {a : UInt8} (h : fold fc a = fold fc 0) : a = 0 := by
  have lower : ∀ a : UInt8, asciiLower a = 0 → a = 0 := by decide +kernel
  cases fc with
  | false => exact h
  | true => exact lower a h

/-! ## One byte at a time -/

/-- The decision a selector has reached before it reads another byte; none while it waits for
one. -/
def decided (s : Selector) : Option Selection :=
  match s.candidates[s.index]? with
  | none => some .noMatch
  | some cand => if s.cursor = cand.length then some (.matched s.index) else none

/-- One byte offered to an undecided selector that follows `cand`: the decision it leads to
(`pending` while the feed reads on), how many bytes it consumed, and the selector after it. -/
def byteStep (s : Selector) (cand : List UInt8) (b : UInt8) : Selection × Nat × Selector :=
  match s.offer cand b with
  | .takes j =>
    (if b = 0 then .matched j else .pending, 1, { s with index := j, cursor := s.cursor + 1 })
  | .complete j => (.matched j, 0, { s with index := j })
  | .exhausted => (.noMatch, 0, { s with index := s.candidates.length })

theorem decided_ne_pending (s : Selector) : s.decided ≠ some .pending := by
  unfold decided
  split
  · simp
  · split_ifs <;> simp

theorem decided_eq_none {s : Selector} :
    s.decided = none ↔ ∃ cand, s.candidates[s.index]? = some cand ∧ s.cursor ≠ cand.length := by
  unfold decided
  split
  · next none => simp [none]
  · next cand followed => split_ifs <;> simp_all

@[simp] theorem candidates_byteStep (s : Selector) (cand : List UInt8) (b : UInt8) :
    (s.byteStep cand b).2.2.candidates = s.candidates := by
  unfold byteStep
  split <;> rfl

@[simp] theorem foldCase_byteStep (s : Selector) (cand : List UInt8) (b : UInt8) :
    (s.byteStep cand b).2.2.foldCase = s.foldCase := by
  unfold byteStep
  split <;> rfl

theorem byteStep_count_of_pending {s : Selector} {cand : List UInt8} {b : UInt8}
    (pending : (s.byteStep cand b).1 = .pending) : (s.byteStep cand b).2.1 = 1 := by
  unfold byteStep at pending ⊢
  split at pending
  · rfl
  all_goals cases pending

theorem byteStep_count_le (s : Selector) (cand : List UInt8) (b : UInt8) :
    (s.byteStep cand b).2.1 ≤ 1 := by
  unfold byteStep
  split <;> simp

theorem feedFrom_of_decided {s : Selector} {d : Selection} (h : s.decided = some d)
    (input : List UInt8) (used : Nat) : s.feedFrom input used = (d, used, s) := by
  unfold decided at h
  unfold feedFrom
  split at h
  · next none =>
    cases h
    simp [none]
  · next cand followed =>
    split_ifs at h with ends
    cases h
    simp [followed, ends]

theorem feedFrom_nil {s : Selector} (h : s.decided = none) (used : Nat) :
    s.feedFrom [] used = (.pending, used, s) := by
  obtain ⟨cand, followed, ends⟩ := decided_eq_none.mp h
  rw [feedFrom]
  simp [followed, ends]

/-- An undecided selector offers the next byte to the candidate it follows and reads on only
while that keeps it pending. -/
theorem feedFrom_cons {s : Selector} {cand : List UInt8}
    (followed : s.candidates[s.index]? = some cand) (ends : s.cursor ≠ cand.length)
    (b : UInt8) (rest : List UInt8) (used : Nat) :
    s.feedFrom (b :: rest) used =
      if (s.byteStep cand b).1 = .pending then (s.byteStep cand b).2.2.feedFrom rest (used + 1)
      else ((s.byteStep cand b).1, used + (s.byteStep cand b).2.1, (s.byteStep cand b).2.2) := by
  rw [feedFrom]
  cases offered : s.offer cand b with
  | takes j =>
    by_cases zero : b = 0
    · subst zero
      simp [followed, ends, byteStep, offered]
    · simp [followed, ends, byteStep, offered, zero]
  | complete j => simp [followed, ends, byteStep, offered]
  | exhausted => simp [followed, ends, byteStep, offered]

/-! ## Where an offer goes -/

theorem offerLater_takes {fc : Bool} {matched : List UInt8} {b : UInt8} {j i : Nat}
    {cs : List (List UInt8)} (h : offerLater fc matched b j cs = .takes i) :
    ∃ c, j ≤ i ∧ cs[i - j]? = some c ∧ matched.length < c.length ∧
      fold fc (c.getD matched.length 0) = fold fc b ∧
      (c.take matched.length).map (fold fc) = matched.map (fold fc) := by
  fun_induction offerLater fc matched b j cs with
  | case1 => cases h
  | case2 => cases h
  | case3 j c cs fits ends takes =>
    cases h
    simp only [Bool.and_eq_true, decide_eq_true_eq, agree_iff] at fits
    exact ⟨c, le_rfl, by simp, by simp at ends; omega, same_iff.mp takes, fits.2⟩
  | case4 j _ _ _ _ _ ih | case5 j _ _ _ ih =>
    obtain ⟨c', later, found, longer, hit, agrees⟩ := ih h
    refine ⟨c', by omega, ?_, longer, hit, agrees⟩
    rw [show i - j = (i - (j + 1)) + 1 by omega]
    simpa using found

theorem offerLater_complete {fc : Bool} {matched : List UInt8} {b : UInt8} {j i : Nat}
    {cs : List (List UInt8)} (h : offerLater fc matched b j cs = .complete i) :
    ∃ c, j ≤ i ∧ cs[i - j]? = some c ∧ c.map (fold fc) = matched.map (fold fc) := by
  fun_induction offerLater fc matched b j cs with
  | case1 => cases h
  | case2 j c cs fits ends =>
    cases h
    simp only [Bool.and_eq_true, decide_eq_true_eq, agree_iff] at fits
    have whole : c.take matched.length = c := List.take_of_length_le (by simp at ends; omega)
    exact ⟨c, le_rfl, by simp, whole ▸ fits.2⟩
  | case3 => cases h
  | case4 j _ _ _ _ _ ih | case5 j _ _ _ ih =>
    obtain ⟨c', later, found, agrees⟩ := ih h
    refine ⟨c', by omega, ?_, agrees⟩
    rw [show i - j = (i - (j + 1)) + 1 by omega]
    simpa using found

/-- An offer taken by some candidate: that candidate goes on past the cursor with a byte folding
like the offered one, and starts like the candidate followed so far. -/
theorem offer_takes {s : Selector} {cand : List UInt8} {b : UInt8} {j : Nat}
    (followed : s.candidates[s.index]? = some cand) (inside : s.cursor < cand.length)
    (h : s.offer cand b = .takes j) :
    ∃ word, s.candidates[j]? = some word ∧ ∃ inside' : s.cursor < word.length,
      fold s.foldCase word[s.cursor] = fold s.foldCase b ∧
      (word.take s.cursor).map (fold s.foldCase) = (cand.take s.cursor).map (fold s.foldCase) := by
  unfold offer at h
  split_ifs at h with hit
  · cases h
    refine ⟨cand, followed, inside, ?_, rfl⟩
    simpa [List.getD_eq_getElem?_getD, List.getElem?_eq_getElem inside] using same_iff.mp hit
  · obtain ⟨c, later, found, longer, hit', agrees⟩ := offerLater_takes h
    have matched : (cand.take s.cursor).length = s.cursor := by simp; omega
    rw [List.getElem?_drop, show s.index + 1 + (j - (s.index + 1)) = j by omega] at found
    rw [matched] at longer hit' agrees
    refine ⟨c, found, longer, ?_, agrees⟩
    simpa [List.getD_eq_getElem?_getD, List.getElem?_eq_getElem longer] using hit'

/-- An offer that finds a candidate ending at the cursor: that candidate is the followed one's
start, up to the folding. -/
theorem offer_complete {s : Selector} {cand : List UInt8} {b : UInt8} {j : Nat}
    (within : s.cursor ≤ cand.length) (h : s.offer cand b = .complete j) :
    ∃ c, s.candidates[j]? = some c ∧ c.length = s.cursor ∧
      c.map (fold s.foldCase) = (cand.take s.cursor).map (fold s.foldCase) := by
  unfold offer at h
  split_ifs at h with hit
  obtain ⟨c, later, found, agrees⟩ := offerLater_complete h
  rw [List.getElem?_drop, show s.index + 1 + (j - (s.index + 1)) = j by omega] at found
  have length := congrArg List.length agrees
  simp only [List.length_map, List.length_take] at length
  exact ⟨c, found, by omega, agrees⟩

/-- An offer the followed candidate takes stays with it. -/
theorem offer_of_same {s : Selector} {cand : List UInt8} {b : UInt8}
    (hit : fold s.foldCase (cand.getD s.cursor 0) = fold s.foldCase b) :
    s.offer cand b = .takes s.index := by
  unfold offer
  rw [if_pos (same_iff.mpr hit)]

/-! ## Invariants of a step -/

/-- The selector follows a candidate no further than its end. -/
def Wf (s : Selector) : Prop :=
  ∀ cand, s.candidates[s.index]? = some cand → s.cursor ≤ cand.length

/-- No candidate holds a zero byte before its last byte. -/
def ZeroOnlyLast (candidates : List (List UInt8)) : Prop := ∀ c ∈ candidates, 0 ∉ c.dropLast

/-- A zero byte of such a candidate is its last. -/
theorem last_of_zero {candidates : List (List UInt8)} (zeros : ZeroOnlyLast candidates)
    {word : List UInt8} (mem : word ∈ candidates) {i : Nat} (inside : i < word.length)
    (zero : word[i] = 0) : i + 1 = word.length := by
  by_contra inner
  have before : i < word.dropLast.length := by simp; omega
  apply zeros word mem
  rw [← zero, ← List.getElem_dropLast before]
  exact List.getElem_mem before

theorem Wf.byteStep {s : Selector} {cand : List UInt8} {b : UInt8} (wf : s.Wf)
    (followed : s.candidates[s.index]? = some cand) (ends : s.cursor ≠ cand.length)
    (pending : (s.byteStep cand b).1 = .pending) : (s.byteStep cand b).2.2.Wf := by
  cases offered : s.offer cand b with
  | takes j =>
    simp only [Selector.byteStep, offered] at pending ⊢
    intro word' found'
    obtain ⟨word, found, inside, -⟩ :=
      offer_takes followed (by have := wf cand followed; omega) offered
    simp only [found, Option.some.injEq] at found'
    subst found'
    simp only
    omega
  | complete j => simp [Selector.byteStep, offered] at pending
  | exhausted => simp [Selector.byteStep, offered] at pending

/-- A step that decides leaves the selector in its decision. -/
theorem decided_byteStep {s : Selector} {cand : List UInt8} {b : UInt8} (wf : s.Wf)
    (zeros : ZeroOnlyLast s.candidates) (followed : s.candidates[s.index]? = some cand)
    (ends : s.cursor ≠ cand.length) (decides : (s.byteStep cand b).1 ≠ .pending) :
    (s.byteStep cand b).2.2.decided = some (s.byteStep cand b).1 := by
  cases offered : s.offer cand b with
  | takes j =>
    by_cases zero : b = 0
    · subst zero
      obtain ⟨word, found, inside, hit, -⟩ :=
        offer_takes followed (by have := wf cand followed; omega) offered
      have last := last_of_zero zeros (List.mem_of_getElem? found) inside (eq_zero_of_fold hit)
      simp [Selector.byteStep, offered, decided, found, last]
    · simp [Selector.byteStep, offered, zero] at decides
  | complete j =>
    obtain ⟨word, found, ends', -⟩ := offer_complete (wf cand followed) offered
    simp [Selector.byteStep, offered, decided, found, ends']
  | exhausted => simp [Selector.byteStep, offered, decided]

/-- What a selector has read: it consumed `p`, the candidate it follows starts with `p` up to the
folding, and every byte of `p` folds like a byte of some candidate. -/
structure Follows (s : Selector) (p : List UInt8) : Prop where
  cursor_eq : s.cursor = p.length
  agrees : ∀ c, s.candidates[s.index]? = some c →
    p.length ≤ c.length ∧ (c.take p.length).map (fold s.foldCase) = p.map (fold s.foldCase)
  drawn : ∀ b ∈ p, ∃ c ∈ s.candidates, ∃ a ∈ c, fold s.foldCase a = fold s.foldCase b

theorem Follows.wf {s : Selector} {p : List UInt8} (follows : s.Follows p) : s.Wf :=
  fun c found => follows.cursor_eq ▸ (follows.agrees c found).1

/-- A selector started over has read nothing. -/
theorem follows_reset (s : Selector) (candidates : List (List UInt8)) :
    (s.reset candidates).Follows [] :=
  ⟨rfl, fun _ _ => ⟨Nat.zero_le _, rfl⟩, fun _ none => absurd none List.not_mem_nil⟩

theorem Follows.byteStep {s : Selector} {p : List UInt8} {cand : List UInt8} (follows : s.Follows p)
    (followed : s.candidates[s.index]? = some cand) (ends : s.cursor ≠ cand.length) (b : UInt8) :
    (s.byteStep cand b).2.2.Follows (p ++ [b].take (s.byteStep cand b).2.1) := by
  obtain ⟨within, start⟩ := follows.agrees cand followed
  have read := follows.cursor_eq
  rw [← read] at within start
  have inside : s.cursor < cand.length := by omega
  cases offered : s.offer cand b with
  | takes j =>
    obtain ⟨word, found, inside', hit, agrees⟩ := offer_takes followed inside offered
    simp only [Selector.byteStep, offered, List.take_succ_cons, List.take_zero]
    refine ⟨by simp [read], fun c found' => ?_, fun b' mem => ?_⟩
    · simp only [found, Option.some.injEq] at found'
      subst found'
      rw [List.length_append, List.length_singleton, ← read]
      refine ⟨by omega, ?_⟩
      rw [List.take_add_one, List.getElem?_eq_getElem inside']
      simp only [Option.toList_some, List.map_append, List.map_cons, List.map_nil, agrees, start,
        hit]
    · rcases List.mem_append.mp mem with old | new
      · exact follows.drawn b' old
      · rw [List.mem_singleton.mp new]
        exact ⟨word, List.mem_of_getElem? found, word[s.cursor], List.getElem_mem inside', hit⟩
  | complete j =>
    obtain ⟨word, found, ends', agrees⟩ := offer_complete within offered
    simp only [Selector.byteStep, offered, List.take_zero, List.append_nil]
    refine ⟨read, fun c found' => ?_, follows.drawn⟩
    simp only [found, Option.some.injEq] at found'
    subst found'
    rw [← read, ← ends', List.take_length]
    exact ⟨le_rfl, ends' ▸ agrees.trans start⟩
  | exhausted =>
    simp only [Selector.byteStep, offered, List.take_zero, List.append_nil]
    exact ⟨read, fun c found' => by simp at found', follows.drawn⟩

/-! ## Feeding a chunk -/

/-- The count a feed starts from only shifts the count it answers. -/
theorem feedFrom_shift (s : Selector) (input : List UInt8) (used : Nat) :
    s.feedFrom input used = ((s.feed input).1, used + (s.feed input).2.1, (s.feed input).2.2) := by
  unfold feed
  induction input generalizing s used with
  | nil =>
    cases h : s.decided with
    | none => simp [feedFrom_nil h]
    | some d => simp [feedFrom_of_decided h]
  | cons b rest ih =>
    cases h : s.decided with
    | some d => simp [feedFrom_of_decided h]
    | none =>
      obtain ⟨cand, followed, ends⟩ := decided_eq_none.mp h
      rw [feedFrom_cons followed ends, feedFrom_cons followed ends]
      split
      · rw [ih _ (used + 1), ih _ (0 + 1)]
        simp only [Nat.zero_add, Nat.add_assoc, Nat.add_comm 1]
      · simp

theorem feed_of_decided {s : Selector} {d : Selection} (h : s.decided = some d)
    (input : List UInt8) : s.feed input = (d, 0, s) :=
  feedFrom_of_decided h input 0

/-- A feed reads byte after byte while each keeps it pending. -/
theorem feed_cons {s : Selector} {cand : List UInt8}
    (followed : s.candidates[s.index]? = some cand) (ends : s.cursor ≠ cand.length)
    (b : UInt8) (rest : List UInt8) :
    s.feed (b :: rest) =
      if (s.byteStep cand b).1 = .pending then
        (((s.byteStep cand b).2.2.feed rest).1, 1 + ((s.byteStep cand b).2.2.feed rest).2.1,
          ((s.byteStep cand b).2.2.feed rest).2.2)
      else s.byteStep cand b := by
  rw [feed, feedFrom_cons followed ends]
  split
  · rw [feedFrom_shift]
  · simp

@[simp] theorem candidates_feed (s : Selector) (input : List UInt8) :
    (s.feed input).2.2.candidates = s.candidates := by
  induction input generalizing s with
  | nil =>
    cases h : s.decided with
    | none => simp [feed, feedFrom_nil h]
    | some d => simp [feed_of_decided h]
  | cons b rest ih =>
    cases h : s.decided with
    | some d => simp [feed_of_decided h]
    | none =>
      obtain ⟨cand, followed, ends⟩ := decided_eq_none.mp h
      rw [feed_cons followed ends]
      split
      · simp [ih]
      · simp

@[simp] theorem foldCase_feed (s : Selector) (input : List UInt8) :
    (s.feed input).2.2.foldCase = s.foldCase := by
  induction input generalizing s with
  | nil =>
    cases h : s.decided with
    | none => simp [feed, feedFrom_nil h]
    | some d => simp [feed_of_decided h]
  | cons b rest ih =>
    cases h : s.decided with
    | some d => simp [feed_of_decided h]
    | none =>
      obtain ⟨cand, followed, ends⟩ := decided_eq_none.mp h
      rw [feed_cons followed ends]
      split
      · simp [ih]
      · simp

/-- A feed consumes no more than its input. -/
theorem feed_count_le (s : Selector) (input : List UInt8) : (s.feed input).2.1 ≤ input.length := by
  induction input generalizing s with
  | nil =>
    cases h : s.decided with
    | none => simp [feed, feedFrom_nil h]
    | some d => simp [feed_of_decided h]
  | cons b rest ih =>
    cases h : s.decided with
    | some d => simp [feed_of_decided h]
    | none =>
      obtain ⟨cand, followed, ends⟩ := decided_eq_none.mp h
      rw [feed_cons followed ends]
      split
      · have := ih (s.byteStep cand b).2.2
        simp only [List.length_cons]
        omega
      · have := byteStep_count_le s cand b
        simp only [List.length_cons]
        omega

/-- A feed still pending at the end of its input has consumed all of it and waits for more. -/
theorem feed_of_pending {s : Selector} {input : List UInt8} (pending : (s.feed input).1 = .pending) :
    (s.feed input).2.1 = input.length ∧ (s.feed input).2.2.decided = none := by
  induction input generalizing s with
  | nil =>
    cases h : s.decided with
    | none => simp [feed, feedFrom_nil h, h]
    | some d =>
      rw [feed_of_decided h] at pending
      exact absurd (pending ▸ h) (decided_ne_pending s)
  | cons b rest ih =>
    cases h : s.decided with
    | some d =>
      rw [feed_of_decided h] at pending
      exact absurd (pending ▸ h) (decided_ne_pending s)
    | none =>
      obtain ⟨cand, followed, ends⟩ := decided_eq_none.mp h
      rw [feed_cons followed ends] at pending ⊢
      split at pending
      · next step =>
        simp only [step, if_true] at pending ⊢
        obtain ⟨count, waits⟩ := ih pending
        exact ⟨by simp [count]; omega, waits⟩
      · next step => exact absurd pending step

/-- A feed that decides on the first part of its input answers the same on the whole input. -/
theorem feed_append_of_decides {s : Selector} {xs : List UInt8}
    (decides : (s.feed xs).1 ≠ .pending) (ys : List UInt8) : s.feed (xs ++ ys) = s.feed xs := by
  induction xs generalizing s with
  | nil =>
    cases h : s.decided with
    | none => simp [feed, feedFrom_nil h] at decides
    | some d => simp [feed_of_decided h]
  | cons b xs ih =>
    cases h : s.decided with
    | some d => simp [feed_of_decided h]
    | none =>
      obtain ⟨cand, followed, ends⟩ := decided_eq_none.mp h
      rw [List.cons_append, feed_cons followed ends, feed_cons followed ends]
      rw [feed_cons followed ends] at decides
      split
      · next step =>
        simp only [step, if_true] at decides
        rw [ih decides]
      · rfl

/-- A feed still pending at the end of its input goes on with more input from where it
stopped. -/
theorem feed_append_of_pending {s : Selector} {xs : List UInt8}
    (pending : (s.feed xs).1 = .pending) (ys : List UInt8) :
    s.feed (xs ++ ys) = (((s.feed xs).2.2.feed ys).1, xs.length + ((s.feed xs).2.2.feed ys).2.1,
      ((s.feed xs).2.2.feed ys).2.2) := by
  induction xs generalizing s with
  | nil =>
    cases h : s.decided with
    | none => simp [feed, feedFrom_nil h]
    | some d =>
      rw [feed_of_decided h] at pending
      exact absurd (pending ▸ h) (decided_ne_pending s)
  | cons b xs ih =>
    cases h : s.decided with
    | some d =>
      rw [feed_of_decided h] at pending
      exact absurd (pending ▸ h) (decided_ne_pending s)
    | none =>
      obtain ⟨cand, followed, ends⟩ := decided_eq_none.mp h
      rw [feed_cons followed ends] at pending
      rw [List.cons_append, feed_cons followed ends, feed_cons followed ends]
      split at pending
      · next step =>
        simp only [step, if_true] at pending ⊢
        rw [ih pending]
        simp only [List.length_cons, Prod.mk.injEq, true_and, and_true]
        omega
      · next step => exact absurd pending step

theorem Wf.feed {s : Selector} (wf : s.Wf) {input : List UInt8}
    (pending : (s.feed input).1 = .pending) : (s.feed input).2.2.Wf := by
  induction input generalizing s with
  | nil =>
    cases h : s.decided with
    | none => simpa [Selector.feed, feedFrom_nil h] using wf
    | some d => simpa [feed_of_decided h] using wf
  | cons b rest ih =>
    cases h : s.decided with
    | some d => simpa [feed_of_decided h] using wf
    | none =>
      obtain ⟨cand, followed, ends⟩ := decided_eq_none.mp h
      rw [feed_cons followed ends] at pending ⊢
      split at pending
      · next step =>
        simp only [step, if_true] at pending ⊢
        exact ih (wf.byteStep followed ends step) pending
      · next step => exact absurd pending step

/-- Once a feed decides, a selector that follows no candidate past its end and whose candidates
hold a zero byte only last is left in that decision. -/
theorem decided_feed {s : Selector} (wf : s.Wf) (zeros : ZeroOnlyLast s.candidates)
    {input : List UInt8} (decides : (s.feed input).1 ≠ .pending) :
    (s.feed input).2.2.decided = some (s.feed input).1 := by
  induction input generalizing s with
  | nil =>
    cases h : s.decided with
    | none => simp [feed, feedFrom_nil h] at decides
    | some d => simp [feed_of_decided h, h]
  | cons b rest ih =>
    cases h : s.decided with
    | some d => simp [feed_of_decided h, h]
    | none =>
      obtain ⟨cand, followed, ends⟩ := decided_eq_none.mp h
      rw [feed_cons followed ends] at decides ⊢
      split
      · next step =>
        simp only [step, if_true] at decides
        exact ih (wf.byteStep followed ends step) (by simpa using zeros) decides
      · next step => exact decided_byteStep wf zeros followed ends step

/-! ## Chunk after chunk -/

/-- A selector fed chunk after chunk: each chunk's decision and count, and the selector after the
last chunk. -/
def feedAll (s : Selector) : List (List UInt8) → List (Selection × Nat) × Selector
  | [] => ([], s)
  | c :: cs =>
    let r := s.feed c
    let t := r.2.2.feedAll cs
    ((r.1, r.2.1) :: t.1, t.2)

/-- A decided selector answers its decision to every chunk and consumes nothing. -/
theorem feedAll_of_decided {s : Selector} {d : Selection} (h : s.decided = some d)
    (cs : List (List UInt8)) : s.feedAll cs = (cs.map fun _ => (d, 0), s) := by
  induction cs with
  | nil => rfl
  | cons c cs ih => simp [feedAll, feed_of_decided h, ih]

/-- Chunking never changes a selection. -/
theorem feedAll_agrees_with_feed (s : Selector) (first : List UInt8) (rest : List (List UInt8)) :
    let whole := s.feed (first :: rest).flatten
    (whole.1 = .pending →
      s.feedAll (first :: rest) = ((first :: rest).map fun c => (.pending, c.length), whole.2.2)) ∧
    (whole.1 ≠ .pending → ∃ pre c post, first :: rest = pre ++ c :: post ∧
      (s.feedAll pre).1 = pre.map (fun c => (.pending, c.length)) ∧
      pre.flatten.length ≤ whole.2.1 ∧
      (s.feedAll pre).2.feed c = (whole.1, whole.2.1 - pre.flatten.length, whole.2.2) ∧
      (s.Wf → ZeroOnlyLast s.candidates →
        whole.2.2.feedAll post = (post.map fun _ => (whole.1, 0), whole.2.2))) := by
  -- induction over the chunks after the first; the selector after a pending first chunk carries on
  induction rest generalizing s first with
  | nil =>
    simp only [List.flatten_cons, List.flatten_nil, List.append_nil]
    refine ⟨fun pending => ?_, fun _ => ⟨[], first, [], rfl, rfl, by simp, by simp [feedAll],
      fun _ _ => rfl⟩⟩
    simp [feedAll, pending, (feed_of_pending pending).1]
  | cons second rest ih =>
    intro whole
    by_cases pending : (s.feed first).1 = .pending
    · have split : whole = (((s.feed first).2.2.feed (second :: rest).flatten).1,
          first.length + ((s.feed first).2.2.feed (second :: rest).flatten).2.1,
          ((s.feed first).2.2.feed (second :: rest).flatten).2.2) :=
        feed_append_of_pending pending _
      obtain ⟨ih_pending, ih_decides⟩ := ih (s.feed first).2.2 second
      have head : s.feedAll (first :: second :: rest) =
          ((.pending, first.length) :: ((s.feed first).2.2.feedAll (second :: rest)).1,
            ((s.feed first).2.2.feedAll (second :: rest)).2) := by
        simp [feedAll, pending, (feed_of_pending pending).1]
      refine ⟨fun still => ?_, fun decides => ?_⟩
      · rw [split] at still
        rw [head, ih_pending still, split]
        rfl
      · rw [split] at decides
        obtain ⟨pre, c, post, chunks, pendings, within, decision, after⟩ := ih_decides decides
        have prefix_length : (first :: pre).flatten.length = first.length + pre.flatten.length := by
          simp
        refine ⟨first :: pre, c, post, by rw [chunks]; rfl, ?_, ?_, ?_, ?_⟩
        · simp [feedAll, pending, (feed_of_pending pending).1, pendings]
        · simp only [prefix_length, split]
          omega
        · have rest_of : (s.feedAll (first :: pre)).2 = ((s.feed first).2.2.feedAll pre).2 := rfl
          rw [rest_of, decision, split, prefix_length]
          simp only [Prod.mk.injEq, true_and, and_true]
          omega
        · intro wf zeros
          rw [split]
          exact after (wf.feed pending) (by simpa using zeros)
    · have same : whole = s.feed first := feed_append_of_decides pending _
      refine ⟨fun still => absurd (same ▸ still) pending, fun _ => ⟨[], first, second :: rest, rfl,
        rfl, by simp, by simp [feedAll, same], fun wf zeros => ?_⟩⟩
      rw [same]
      exact feedAll_of_decided (decided_feed wf zeros pending) _

/-- The second candidate decided in the third chunk, the empty chunk pending on its own. -/
example : (({ candidates := [[1, 2], [1, 3]] } : Selector).feedAll [[1], [], [3, 9]]).1 =
    [(.pending, 1), (.pending, 0), (.matched 1, 1)] := by
  decide

/-! ## What a feed has read -/

theorem Follows.feed {s : Selector} {p : List UInt8} (follows : s.Follows p) (input : List UInt8) :
    (s.feed input).2.2.Follows (p ++ input.take (s.feed input).2.1) := by
  induction input generalizing s p with
  | nil =>
    cases h : s.decided with
    | none => simpa [Selector.feed, feedFrom_nil h] using follows
    | some d => simpa [feed_of_decided h] using follows
  | cons b rest ih =>
    cases h : s.decided with
    | some d => simpa [feed_of_decided h] using follows
    | none =>
      obtain ⟨cand, followed, ends⟩ := decided_eq_none.mp h
      have stepped := follows.byteStep followed ends b
      rw [feed_cons followed ends]
      split
      · next step =>
        rw [byteStep_count_of_pending step] at stepped
        have read := ih stepped
        rwa [List.take_one, List.head?_cons, Option.toList_some, List.append_assoc,
          List.singleton_append, ← List.take_succ_cons, Nat.add_comm] at read
      · have short := byteStep_count_le s cand b
        have same : [b].take (s.byteStep cand b).2.1 = (b :: rest).take (s.byteStep cand b).2.1 := by
          interval_cases (s.byteStep cand b).2.1 <;> simp
        rwa [same] at stepped

/-- A match has read its candidate exactly, up to the folding. -/
theorem matched_reads_candidate {s : Selector} {p : List UInt8} (follows : s.Follows p)
    (zeros : ZeroOnlyLast s.candidates) {input : List UInt8} {i : Nat}
    (matched : (s.feed input).1 = .matched i) :
    ∃ word, s.candidates[i]? = some word ∧ word.length = p.length + (s.feed input).2.1 ∧
      word.map (fold s.foldCase) = (p ++ input.take (s.feed input).2.1).map (fold s.foldCase) := by
  have stays := decided_feed follows.wf zeros (by rw [matched]; simp)
  have read := follows.feed input
  have within := feed_count_le s input
  rw [matched] at stays
  unfold decided at stays
  split at stays
  · cases stays
  next word found =>
  split_ifs at stays with ends
  cases stays
  obtain ⟨long, agrees⟩ := read.agrees word found
  have count : (p ++ input.take (s.feed input).2.1).length = p.length + (s.feed input).2.1 := by
    simp; omega
  have whole : (p ++ input.take (s.feed input).2.1).length = word.length := by
    rw [← ends, read.cursor_eq]
  rw [whole, List.take_length] at agrees
  exact ⟨word, by simpa using found, by rw [← whole, count], by simpa using agrees⟩

/-- A pending feed has read all of its input, and that input continues its start to a proper
prefix of a candidate, up to the folding. -/
theorem pending_reads_prefix {s : Selector} {p : List UInt8} (follows : s.Follows p)
    {input : List UInt8} (pending : (s.feed input).1 = .pending) :
    ∃ word ∈ s.candidates, p.length + input.length < word.length ∧
      (word.take (p.length + input.length)).map (fold s.foldCase) =
        (p ++ input).map (fold s.foldCase) := by
  obtain ⟨count, waits⟩ := feed_of_pending pending
  have read := follows.feed input
  rw [count, List.take_length] at read
  obtain ⟨word, found, ends⟩ := decided_eq_none.mp waits
  obtain ⟨long, agrees⟩ := read.agrees word found
  have cursor := read.cursor_eq
  simp only [List.length_append] at long agrees cursor
  refine ⟨word, by simpa using List.mem_of_getElem? found, by omega, by simpa using agrees⟩

/-- A feed whose input continues the followed candidate to its end, up to the folding, matches
it. -/
theorem feed_follows_to_end {s : Selector} {p : List UInt8} (follows : s.Follows p)
    (zeros : ZeroOnlyLast s.candidates) {word : List UInt8}
    (followed : s.candidates[s.index]? = some word) {input : List UInt8}
    (enough : word.length - p.length ≤ input.length)
    (continues : (input.take (word.length - p.length)).map (fold s.foldCase) =
      (word.drop p.length).map (fold s.foldCase)) :
    (s.feed input).1 = .matched s.index ∧ (s.feed input).2.1 = word.length - p.length := by
  induction input generalizing s p with
  | nil =>
    have none_left : word.length - p.length = 0 := by simpa using enough
    have ends : s.cursor = word.length := by
      have := (follows.agrees word followed).1
      have := follows.cursor_eq
      omega
    have h : s.decided = some (.matched s.index) := by simp [decided, followed, ends]
    simp [feed_of_decided h]
    omega
  | cons b rest ih =>
    obtain ⟨long, start⟩ := follows.agrees word followed
    have read := follows.cursor_eq
    by_cases done : p.length = word.length
    · have h : s.decided = some (.matched s.index) := by simp [decided, followed, read, done]
      simp [feed_of_decided h, done]
    have ends : s.cursor ≠ word.length := by omega
    -- the next byte folds like the candidate's next byte, and the rest continues the candidate
    have next : word.length - p.length = (word.length - (p.length + 1)) + 1 := by omega
    rw [next, List.take_succ_cons, List.drop_eq_getElem_cons (by omega), List.map_cons,
      List.map_cons, List.cons.injEq] at continues
    obtain ⟨hit, continues⟩ := continues
    have offered : s.offer word b = .takes s.index := by
      apply offer_of_same
      rw [List.getD_eq_getElem?_getD, read, List.getElem?_eq_getElem (by omega), Option.getD_some,
        hit]
    rw [feed_cons followed ends]
    by_cases zero : b = 0
    · subst zero
      have last := last_of_zero zeros (List.mem_of_getElem? followed) (by omega : p.length < word.length)
        (eq_zero_of_fold hit.symm)
      simp [Selector.byteStep, offered]
      omega
    · have step : s.byteStep word b = (.pending, 1, { s with cursor := s.cursor + 1 }) := by
        simp [Selector.byteStep, offered, zero]
      have stepped := follows.byteStep followed ends b
      rw [step] at stepped ⊢
      have further := ih (p := p ++ [b]) stepped (by simpa using zeros) (by simpa using followed)
        (by simp only [List.length_cons] at enough; simp; omega)
        (by simpa [Nat.sub_sub] using continues)
      simp only [if_true]
      simp only [List.length_append, List.length_singleton] at further
      refine ⟨further.1, ?_⟩
      rw [further.2]
      omega

end Selector
end WebSocketCore
