import WebSocketCore.Proofs.Http.Selector
import Mathlib

/-! # Which candidate a selector picks

A selector only moves forward through its candidates, in whatever order they come, and still
misses none: it leaves a candidate behind only when a byte rules it out. Two byte strings are
`Apart` when neither starts the other, up to the folding. Every candidate a selector has moved
past is apart from what it read and the byte after that (`Passed.feed`), and a selector that runs
out of candidates was following one up to the point where it stopped (`noMatch_reads_prefix`).

Main statement: over candidates that are pairwise apart and hold a zero byte only as their last,
sorted or not, a fresh selector fed any input matches candidate `i`, having read exactly its bytes,
exactly when that candidate starts the input; it is pending, having read the whole input, exactly
when the input is a proper start of a candidate; and otherwise it finds no match, having read the
longest start of the input that starts some candidate (`feed_picks_prefix`).
-/

namespace WebSocketCore
namespace Selector

/-! ## Byte strings apart -/

/-- Neither byte string starts the other, up to the folding. -/
def Apart (fc : Bool) (a b : List UInt8) : Prop :=
  ¬a.map (fold fc) <+: b.map (fold fc) ∧ ¬b.map (fold fc) <+: a.map (fold fc)

instance (fc : Bool) (a b : List UInt8) : Decidable (Apart fc a b) :=
  inferInstanceAs (Decidable (¬_ ∧ ¬_))

theorem Apart.symm {fc : Bool} {a b : List UInt8} (apart : Apart fc a b) : Apart fc b a :=
  ⟨apart.2, apart.1⟩

/-- Two byte strings that both start a third are not apart. -/
theorem Apart.not_common {fc : Bool} {a b : List UInt8} (apart : Apart fc a b) {l : List UInt8}
    (ha : a.map (fold fc) <+: l) (hb : b.map (fold fc) <+: l) : False := by
  rcases List.prefix_or_prefix_of_prefix ha hb with ab | ba
  · exact apart.1 ab
  · exact apart.2 ba

/-- Whatever continues a byte string apart from `c` is apart from `c` too. -/
theorem Apart.append {fc : Bool} {q c : List UInt8} (apart : Apart fc q c) (rest : List UInt8) :
    Apart fc (q ++ rest) c := by
  have start : q.map (fold fc) <+: (q ++ rest).map (fold fc) := by
    rw [List.map_append]
    exact List.prefix_append _ _
  exact ⟨fun longer => apart.1 (start.trans longer), fun shorter => apart.not_common start shorter⟩

theorem apart_congr {fc : Bool} {a a' c : List UInt8} (same : a.map (fold fc) = a'.map (fold fc)) :
    Apart fc a c ↔ Apart fc a' c := by
  simp only [Apart, same]

/-- Of candidates that are pairwise apart, two at different positions are apart. -/
theorem apart_of_ne {fc : Bool} {cands : List (List UInt8)} (free : cands.Pairwise (Apart fc))
    {i j : Nat} {a b : List UInt8} (ha : cands[i]? = some a) (hb : cands[j]? = some b)
    (ne : i ≠ j) : Apart fc a b := by
  obtain ⟨hi, rfl⟩ := List.getElem?_eq_some_iff.mp ha
  obtain ⟨hj, rfl⟩ := List.getElem?_eq_some_iff.mp hb
  rcases Nat.lt_or_gt_of_ne ne with lt | gt
  · exact List.pairwise_iff_getElem.mp free i j hi hj lt
  · exact (List.pairwise_iff_getElem.mp free j i hj hi gt).symm

/-- Of candidates that are pairwise apart, two that both start one byte string are one. -/
theorem eq_of_common {fc : Bool} {cands : List (List UInt8)} (free : cands.Pairwise (Apart fc))
    {i j : Nat} {a b : List UInt8} (ha : cands[i]? = some a) (hb : cands[j]? = some b)
    {l : List UInt8} (pa : a.map (fold fc) <+: l) (pb : b.map (fold fc) <+: l) : i = j :=
  Classical.byContradiction fun ne => (apart_of_ne free ha hb ne).not_common pa pb

/-- A byte string starts another, up to the folding, when it is no longer and agrees with the
other's start. -/
theorem prefix_iff_agree {fc : Bool} {m c : List UInt8} :
    m.map (fold fc) <+: c.map (fold fc) ↔
      m.length ≤ c.length ∧ agree fc (c.take m.length) m = true := by
  rw [agree_iff, List.prefix_iff_eq_take, List.length_map, ← List.map_take]
  constructor
  · intro start
    have length := congrArg List.length start
    simp only [List.length_map, List.length_take] at length
    exact ⟨by omega, start.symm⟩
  · exact fun start => start.2.symm

/-! ## The candidates an offer passes over -/

/-- Candidate `c` ends where the selector has matched `m`, or goes on with a byte folding like
`b`: the candidates an offer of `b` stops at. -/
def Fits (fc : Bool) (m : List UInt8) (b : UInt8) (c : List UInt8) : Prop :=
  c.map (fold fc) = m.map (fold fc) ∨ (m ++ [b]).map (fold fc) <+: c.map (fold fc)

/-- Where an offer leaves the selector: at the candidate that takes the byte or ends there, or
past the last of `count` candidates when none is left. -/
def Offer.target (count : Nat) : Offer → Nat
  | .takes j => j
  | .complete j => j
  | .exhausted => count

theorem index_byteStep (s : Selector) (cand : List UInt8) (b : UInt8) :
    (s.byteStep cand b).2.2.index = (s.offer cand b).target s.candidates.length := by
  cases offered : s.offer cand b <;> simp [byteStep, offered, Offer.target]

/-- A candidate that goes on past `m` with a byte not folding like `b` does not fit. -/
theorem not_fits_of_miss {fc : Bool} {m word : List UInt8} {b : UInt8}
    (longer : m.length < word.length)
    (miss : same fc (word.getD m.length 0) b = false) : ¬Fits fc m b word := by
  rintro (whole | goesOn)
  · have length := congrArg List.length whole
    simp only [List.length_map] at length
    omega
  · have next : fold fc b = fold fc word[m.length] := by
      simpa using goesOn.getElem (i := m.length) (by simp)
    rw [List.getD_eq_getElem _ _ longer, ← Bool.not_eq_true, same_iff, next] at miss
    exact miss rfl

/-- Every candidate a search of the later candidates passes over does not fit. -/
theorem offerLater_passes {fc : Bool} {m : List UInt8} {b : UInt8} {j : Nat}
    {cs : List (List UInt8)} {t : Nat} {c : List UInt8} (found : cs[t]? = some c)
    (before : j + t < (offerLater fc m b j cs).target (j + cs.length)) : ¬Fits fc m b c := by
  fun_induction offerLater fc m b j cs generalizing t with
  | case1 => simp at found
  | case2 => simp [Offer.target] at before
  | case3 => simp [Offer.target] at before
  | case4 j c' cs fits ends miss ih =>
    cases t with
    | zero =>
      simp only [List.getElem?_cons_zero, Option.some.injEq] at found
      subst found
      simp only [Bool.and_eq_true, decide_eq_true_eq] at fits
      have longer : m.length < c'.length := by simp at ends; omega
      exact not_fits_of_miss longer (by simpa using miss)
    | succ t =>
      simp only [List.getElem?_cons_succ] at found
      rw [List.length_cons, show j + (cs.length + 1) = j + 1 + cs.length by omega] at before
      exact ih found (by omega)
  | case5 j c' cs misfit ih =>
    cases t with
    | zero =>
      simp only [List.getElem?_cons_zero, Option.some.injEq] at found
      subst found
      -- both ways of fitting would make `c'` go on from `m`
      have apart : ¬m.map (fold fc) <+: c'.map (fold fc) := fun start => by
        simp [prefix_iff_agree.mp start] at misfit
      rintro (whole | goesOn)
      · exact apart (whole ▸ List.prefix_refl _)
      · rw [List.map_append] at goesOn
        exact apart ((List.prefix_append _ _).trans goesOn)
    | succ t =>
      simp only [List.getElem?_cons_succ] at found
      rw [List.length_cons, show j + (cs.length + 1) = j + 1 + cs.length by omega] at before
      exact ih found (by omega)

/-- Every candidate from the one followed up to where an offer leaves the selector does not fit
the bytes matched and the byte offered. -/
theorem offer_passes {s : Selector} {cand : List UInt8} {b : UInt8}
    (followed : s.candidates[s.index]? = some cand) (inside : s.cursor < cand.length)
    {t : Nat} {c : List UInt8} (found : s.candidates[t]? = some c) (after : s.index ≤ t)
    (before : t < (s.offer cand b).target s.candidates.length) :
    ¬Fits s.foldCase (cand.take s.cursor) b c := by
  have start : (cand.take s.cursor).map (fold s.foldCase) <+: cand.map (fold s.foldCase) :=
    (List.take_prefix _ _).map _
  have matched : (cand.take s.cursor).length = s.cursor := by simp; omega
  unfold offer at before
  split_ifs at before with hit
  · exact absurd before (by simp [Offer.target]; omega)
  rcases Nat.eq_or_lt_of_le after with here | later
  · -- the candidate followed misses the byte
    subst here
    rw [followed, Option.some.injEq] at found
    subst found
    exact not_fits_of_miss (by omega) (by simpa [matched] using hit)
  · -- a later candidate, passed over by the search
    have index := (List.getElem?_eq_some_iff.mp followed).1
    have later' : (s.candidates.drop (s.index + 1))[t - (s.index + 1)]? = some c := by
      rw [List.getElem?_drop, show s.index + 1 + (t - (s.index + 1)) = t by omega]
      exact found
    refine offerLater_passes (j := s.index + 1) later' ?_
    rw [List.length_drop, show s.index + 1 + (s.candidates.length - (s.index + 1)) =
      s.candidates.length by omega]
    omega

/-- A candidate that does not fit, and does not end inside `m` either, is apart from `m` followed
by `b`. -/
theorem apart_of_not_fits {fc : Bool} {m c : List UInt8} {b : UInt8} (passes : ¬Fits fc m b c)
    (notInside : ¬c.map (fold fc) <+: m.map (fold fc)) : Apart fc (m ++ [b]) c := by
  refine ⟨fun goesOn => passes (.inr goesOn), fun shorter => ?_⟩
  rw [List.map_append, List.map_singleton, List.prefix_concat_iff] at shorter
  rcases shorter with whole | inside
  · exact passes (.inr (by rw [List.map_append, List.map_singleton, ← whole]))
  · exact notInside inside

/-! ## Candidates left behind -/

/-- Every candidate the selector has moved past is apart from `q`. -/
def Passed (s : Selector) (q : List UInt8) : Prop :=
  ∀ t c, s.candidates[t]? = some c → t < s.index → Apart s.foldCase q c

theorem Passed.append {s : Selector} {q : List UInt8} (passed : s.Passed q) (rest : List UInt8) :
    s.Passed (q ++ rest) :=
  fun t c found before => (passed t c found before).append rest

/-- One byte keeps the candidates left behind apart from what was read and that byte: the
candidates it passes over miss it, or end inside what was read, where candidates pairwise apart
cannot end. -/
theorem Passed.byteStep {s : Selector} {p cand : List UInt8} {b : UInt8} (follows : s.Follows p)
    (free : s.candidates.Pairwise (Apart s.foldCase))
    (followed : s.candidates[s.index]? = some cand) (ends : s.cursor ≠ cand.length)
    (passed : s.Passed (p ++ [b])) : (s.byteStep cand b).2.2.Passed (p ++ [b]) := by
  intro t c found before
  rw [candidates_byteStep] at found
  rw [foldCase_byteStep]
  by_cases old : t < s.index
  · exact passed t c found old
  obtain ⟨within, start⟩ := follows.agrees cand followed
  rw [← follows.cursor_eq] at within start
  have inside : s.cursor < cand.length := by omega
  rw [index_byteStep] at before
  have passes := offer_passes followed inside found (by omega) before
  have prefixOf : (cand.take s.cursor).map (fold s.foldCase) <+: cand.map (fold s.foldCase) :=
    (List.take_prefix _ _).map _
  -- no candidate ends inside what the followed one has matched
  have notInside : ¬c.map (fold s.foldCase) <+: (cand.take s.cursor).map (fold s.foldCase) := by
    intro shorter
    by_cases here : t = s.index
    · subst here
      rw [followed, Option.some.injEq] at found
      subst found
      have := shorter.length_le
      simp at this
      omega
    · exact (apart_of_ne free found followed here).not_common (shorter.trans prefixOf)
        (List.prefix_refl _)
  have same : (cand.take s.cursor ++ [b]).map (fold s.foldCase) =
      (p ++ [b]).map (fold s.foldCase) := by
    simp only [List.map_append, start]
  exact (apart_congr same).mp (apart_of_not_fits passes notInside)

/-- Feeding keeps every candidate left behind apart from what the selector read and the byte
after it. -/
theorem Passed.feed {s : Selector} {p : List UInt8} (follows : s.Follows p)
    (free : s.candidates.Pairwise (Apart s.foldCase)) {input : List UInt8}
    (passed : s.Passed (p ++ input.take 1)) :
    (s.feed input).2.2.Passed (p ++ input.take ((s.feed input).2.1 + 1)) := by
  induction input generalizing s p with
  | nil =>
    cases h : s.decided with
    | none => simpa [Selector.feed, feedFrom_nil h] using passed
    | some d => simpa [feed_of_decided h] using passed
  | cons b rest ih =>
    cases h : s.decided with
    | some d => simpa [feed_of_decided h] using passed
    | none =>
      obtain ⟨cand, followed, ends⟩ := decided_eq_none.mp h
      have stepped := passed.byteStep follows free followed ends
      rw [feed_cons followed ends]
      split
      · next step =>
        -- the byte is read, and the feed goes on from the selector after it
        have follows' := follows.byteStep followed ends b
        rw [byteStep_count_of_pending step, List.take_one, List.head?_cons,
          Option.toList_some] at follows'
        have further := ih follows' (by simpa using free) (stepped.append (rest.take 1))
        rw [Nat.add_comm 1, List.take_succ_cons]
        simpa only [List.append_assoc, List.singleton_append] using further
      · -- the feed decides at this byte, having read at most it
        rw [List.take_succ_cons, ← List.singleton_append, ← List.append_assoc]
        exact stepped.append _

/-! ## A selector that runs out of candidates -/

theorem decided_ne_noMatch {s : Selector} {cand : List UInt8}
    (followed : s.candidates[s.index]? = some cand) : s.decided ≠ some .noMatch := by
  simp only [decided, followed]
  split_ifs <;> simp

theorem decided_eq_noMatch {s : Selector} (h : s.decided = some .noMatch) :
    s.candidates[s.index]? = none := by
  cases followed : s.candidates[s.index]? with
  | none => rfl
  | some cand => exact absurd h (decided_ne_noMatch followed)

/-- A step that reads a byte leaves the selector following a candidate. -/
theorem byteStep_followed {s : Selector} {cand : List UInt8} {b : UInt8}
    (followed : s.candidates[s.index]? = some cand) (inside : s.cursor < cand.length)
    (pending : (s.byteStep cand b).1 = .pending) :
    ∃ word, (s.byteStep cand b).2.2.candidates[(s.byteStep cand b).2.2.index]? = some word := by
  cases offered : s.offer cand b with
  | takes j =>
    obtain ⟨word, found, -⟩ := offer_takes followed inside offered
    exact ⟨word, by simpa [Selector.byteStep, offered] using found⟩
  | complete j => simp [Selector.byteStep, offered] at pending
  | exhausted => simp [Selector.byteStep, offered] at pending

/-- A step that finds no candidate left reads nothing. -/
theorem byteStep_count_of_noMatch {s : Selector} {cand : List UInt8} {b : UInt8}
    (none_left : (s.byteStep cand b).1 = .noMatch) : (s.byteStep cand b).2.1 = 0 := by
  cases offered : s.offer cand b with
  | takes j =>
    simp only [Selector.byteStep, offered] at none_left
    split_ifs at none_left
  | complete j => simp [Selector.byteStep, offered] at none_left
  | exhausted => simp [Selector.byteStep, offered]

/-- A feed that finds no match, from a selector following a candidate, has read a start of some
candidate. -/
theorem noMatch_reads_prefix {s : Selector} {p cand : List UInt8} (follows : s.Follows p)
    (followed : s.candidates[s.index]? = some cand) {input : List UInt8}
    (none_left : (s.feed input).1 = .noMatch) :
    ∃ c ∈ s.candidates,
      (p ++ input.take (s.feed input).2.1).map (fold s.foldCase) <+: c.map (fold s.foldCase) := by
  induction input generalizing s p cand with
  | nil =>
    cases h : s.decided with
    | none => simp [Selector.feed, feedFrom_nil h] at none_left
    | some d =>
      rw [feed_of_decided h] at none_left
      exact absurd (none_left ▸ h) (decided_ne_noMatch followed)
  | cons b rest ih =>
    cases h : s.decided with
    | some d =>
      rw [feed_of_decided h] at none_left
      exact absurd (none_left ▸ h) (decided_ne_noMatch followed)
    | none =>
      obtain ⟨cand', followed', ends⟩ := decided_eq_none.mp h
      rw [followed, Option.some.injEq] at followed'
      subst followed'
      obtain ⟨within, start⟩ := follows.agrees cand followed
      rw [feed_cons followed ends] at none_left ⊢
      split at none_left
      · next step =>
        simp only [step, if_true] at none_left ⊢
        have follows' := follows.byteStep followed ends b
        rw [byteStep_count_of_pending step, List.take_one, List.head?_cons,
          Option.toList_some] at follows'
        obtain ⟨word, found⟩ := byteStep_followed followed
          (by have := follows.cursor_eq; omega) step
        obtain ⟨c, member, read⟩ := ih follows' found none_left
        refine ⟨c, by simpa using member, ?_⟩
        rw [Nat.add_comm 1, List.take_succ_cons]
        simpa only [List.append_assoc, List.singleton_append, foldCase_byteStep] using read
      · next step =>
        simp only [step, if_false]
        rw [byteStep_count_of_noMatch none_left, List.take_zero, List.append_nil]
        refine ⟨cand, List.mem_of_getElem? followed, prefix_iff_agree.mpr ⟨within, ?_⟩⟩
        rw [agree_iff]
        exact start

/-! ## A fresh selector -/

instance (cands : List (List UInt8)) : Decidable (ZeroOnlyLast cands) :=
  inferInstanceAs (Decidable (∀ c ∈ cands, 0 ∉ c.dropLast))

section Fresh

variable {s : Selector} {input : List UInt8}

/-- A selector at the start of its candidates has read nothing. -/
theorem follows_fresh (zero : s.cursor = 0) : s.Follows [] :=
  ⟨zero, fun _ _ => ⟨Nat.zero_le _, rfl⟩, fun _ none => absurd none List.not_mem_nil⟩

/-- A selector at the start of its candidates has left none behind. -/
theorem passed_fresh (start : s.index = 0) (q : List UInt8) : s.Passed q :=
  fun t _ _ before => absurd (start ▸ before) (Nat.not_lt_zero t)

/-- A fresh selector that matches has read the whole candidate, which starts the input. -/
theorem fresh_matched (zeros : ZeroOnlyLast s.candidates) (zero : s.cursor = 0) {i : Nat}
    (matched : (s.feed input).1 = .matched i) :
    ∃ word, s.candidates[i]? = some word ∧ (s.feed input).2.1 = word.length ∧
      word.map (fold s.foldCase) <+: input.map (fold s.foldCase) := by
  obtain ⟨word, found, length, read⟩ := matched_reads_candidate (follows_fresh zero) zeros matched
  rw [List.nil_append] at read
  exact ⟨word, found, by simpa using length.symm, read ▸ (List.take_prefix _ _).map _⟩

/-- A fresh selector that is pending has read the whole input, which is a proper start of a
candidate. -/
theorem fresh_pending (zero : s.cursor = 0) (pending : (s.feed input).1 = .pending) :
    (s.feed input).2.1 = input.length ∧ ∃ word ∈ s.candidates, input.length < word.length ∧
      input.map (fold s.foldCase) <+: word.map (fold s.foldCase) := by
  obtain ⟨word, member, longer, read⟩ := pending_reads_prefix (follows_fresh zero) pending
  simp only [List.length_nil, Nat.zero_add, List.nil_append] at longer read
  refine ⟨(feed_of_pending pending).1, word, member, longer, ?_⟩
  rw [← read, List.map_take]
  exact List.take_prefix _ _

/-- A fresh selector that finds no match has read a start of the input that, with the input's
next byte, is apart from every candidate; a nonempty one starts some candidate. -/
theorem fresh_noMatch (free : s.candidates.Pairwise (Apart s.foldCase))
    (zeros : ZeroOnlyLast s.candidates) (start : s.index = 0) (zero : s.cursor = 0)
    (none_left : (s.feed input).1 = .noMatch) :
    (∀ c ∈ s.candidates, Apart s.foldCase (input.take ((s.feed input).2.1 + 1)) c) ∧
      ((s.feed input).2.1 ≠ 0 →
        ∃ c ∈ s.candidates, (input.take (s.feed input).2.1).map (fold s.foldCase) <+:
          c.map (fold s.foldCase)) := by
  constructor
  · -- every candidate lies behind the selector once it has run out of them
    have passed := @Passed.feed _ _ (follows_fresh zero) free input (passed_fresh start _)
    have stays := decided_feed (follows_fresh zero).wf zeros (by rw [none_left]; simp)
    rw [none_left] at stays
    have beyond := List.getElem?_eq_none_iff.mp (decided_eq_noMatch stays)
    intro c member
    obtain ⟨t, found⟩ := List.mem_iff_getElem?.mp member
    have inside := (List.getElem?_eq_some_iff.mp found).1
    have apart := passed t c (by simpa using found) (by simp only [candidates_feed] at beyond; omega)
    simpa using apart
  · intro read
    cases followed : s.candidates[s.index]? with
    | none =>
      have decided : s.decided = some .noMatch := by simp [decided, followed]
      rw [feed_of_decided decided] at read
      exact absurd rfl read
    | some cand => simpa using noMatch_reads_prefix (follows_fresh zero) followed none_left

/-- A candidate starts the input exactly when a fresh selector matches it, having read exactly its
bytes. -/
theorem feed_matched_iff (free : s.candidates.Pairwise (Apart s.foldCase))
    (zeros : ZeroOnlyLast s.candidates) (start : s.index = 0) (zero : s.cursor = 0) (i : Nat) :
    ((s.feed input).1 = .matched i ∧ ∃ c, s.candidates[i]? = some c ∧ (s.feed input).2.1 = c.length) ↔
      ∃ c, s.candidates[i]? = some c ∧ c.map (fold s.foldCase) <+: input.map (fold s.foldCase) := by
  constructor
  · rintro ⟨matched, -⟩
    obtain ⟨word, found, -, starts⟩ := fresh_matched zeros zero matched
    exact ⟨word, found, starts⟩
  · rintro ⟨c, found, starts⟩
    rcases outcome : (s.feed input).1 with j | _ | _
    · -- the candidate matched starts the input too, so it is this one
      obtain ⟨word, found', count, starts'⟩ := fresh_matched zeros zero outcome
      obtain rfl := eq_of_common free found found' starts starts'
      rw [found, Option.some.injEq] at found'
      subst found'
      exact ⟨rfl, c, found, count⟩
    · -- the start read with its next byte is apart from `c`, yet both start the input
      obtain ⟨apart, -⟩ := fresh_noMatch free zeros start zero outcome
      exact ((apart c (List.mem_of_getElem? found)).not_common ((List.take_prefix _ _).map _)
        starts).elim
    · -- a candidate the input properly starts would go on from `c`
      obtain ⟨-, word, member, longer, continues⟩ := fresh_pending zero outcome
      obtain ⟨k, found'⟩ := List.mem_iff_getElem?.mp member
      obtain rfl := eq_of_common free found found' (starts.trans continues) (List.prefix_refl _)
      rw [found, Option.some.injEq] at found'
      subst found'
      have := starts.length_le
      simp only [List.length_map] at this
      omega

/-- The input is a proper start of a candidate exactly when a fresh selector is pending, having
read the whole input. -/
theorem feed_pending_iff (free : s.candidates.Pairwise (Apart s.foldCase))
    (zeros : ZeroOnlyLast s.candidates) (start : s.index = 0) (zero : s.cursor = 0) :
    ((s.feed input).1 = .pending ∧ (s.feed input).2.1 = input.length) ↔
      ∃ c ∈ s.candidates, input.length < c.length ∧
        input.map (fold s.foldCase) <+: c.map (fold s.foldCase) := by
  constructor
  · rintro ⟨pending, -⟩
    exact (fresh_pending zero pending).2
  · rintro ⟨c, member, longer, continues⟩
    obtain ⟨k, found⟩ := List.mem_iff_getElem?.mp member
    rcases outcome : (s.feed input).1 with j | _ | _
    · -- the candidate matched starts the input, so it would start `c` as well
      obtain ⟨word, found', -, starts⟩ := fresh_matched zeros zero outcome
      obtain rfl := eq_of_common free found' found (starts.trans continues) (List.prefix_refl _)
      rw [found, Option.some.injEq] at found'
      subst found'
      have := starts.length_le
      simp only [List.length_map] at this
      omega
    · obtain ⟨apart, -⟩ := fresh_noMatch free zeros start zero outcome
      exact ((apart c member).1 (((List.take_prefix _ _).map _).trans continues)).elim
    · exact ⟨rfl, (fresh_pending zero outcome).1⟩

/-- When no candidate starts the input and the input properly starts none, a fresh selector finds
no match, having read the longest start of the input that starts some candidate. -/
theorem feed_noMatch_of (free : s.candidates.Pairwise (Apart s.foldCase))
    (zeros : ZeroOnlyLast s.candidates) (start : s.index = 0) (zero : s.cursor = 0)
    (noStart : ∀ c ∈ s.candidates, ¬c.map (fold s.foldCase) <+: input.map (fold s.foldCase))
    (noExtension : ∀ c ∈ s.candidates, input.length < c.length →
      ¬input.map (fold s.foldCase) <+: c.map (fold s.foldCase)) :
    (s.feed input).1 = .noMatch ∧ (s.feed input).2.1 = Nat.findGreatest
      (fun n => ∃ c ∈ s.candidates, (input.take n).map (fold s.foldCase) <+: c.map (fold s.foldCase))
      input.length := by
  rcases outcome : (s.feed input).1 with j | _ | _
  · obtain ⟨word, found, -, starts⟩ := fresh_matched zeros zero outcome
    exact (noStart word (List.mem_of_getElem? found) starts).elim
  · obtain ⟨apart, read⟩ := fresh_noMatch free zeros start zero outcome
    refine ⟨rfl, (Nat.findGreatest_eq_iff.mpr ⟨feed_count_le s input, read, ?_⟩).symm⟩
    -- a longer start of the input would carry the byte that set every candidate apart
    rintro n longer - ⟨c, member, starts⟩
    have shorter : (input.take ((s.feed input).2.1 + 1)).map (fold s.foldCase) <+:
        (input.take n).map (fold s.foldCase) := by
      have within : input.take ((s.feed input).2.1 + 1) =
          (input.take n).take ((s.feed input).2.1 + 1) := by
        rw [List.take_take, Nat.min_eq_left longer]
      rw [within]
      exact (List.take_prefix _ _).map _
    exact (apart c member).1 (shorter.trans starts)
  · obtain ⟨-, word, member, longer, continues⟩ := fresh_pending zero outcome
    exact (noExtension word member longer continues).elim

end Fresh

/-- A fresh selector over candidates apart picks the candidate that starts the input. -/
theorem feed_picks_prefix (cands : List (List UInt8)) (fc : Bool) (input : List UInt8)
    (free : cands.Pairwise (Apart fc)) (zeros : ZeroOnlyLast cands) :
    let r := ({ candidates := cands, foldCase := fc } : Selector).feed input
    (∀ i, (r.1 = .matched i ∧ ∃ c, cands[i]? = some c ∧ r.2.1 = c.length) ↔
        ∃ c, cands[i]? = some c ∧ c.map (fold fc) <+: input.map (fold fc)) ∧
      ((r.1 = .pending ∧ r.2.1 = input.length) ↔
        ∃ c ∈ cands, input.length < c.length ∧ input.map (fold fc) <+: c.map (fold fc)) ∧
      ((∀ c ∈ cands, ¬c.map (fold fc) <+: input.map (fold fc)) →
        (∀ c ∈ cands, input.length < c.length → ¬input.map (fold fc) <+: c.map (fold fc)) →
        r.1 = .noMatch ∧ r.2.1 = Nat.findGreatest
          (fun n => ∃ c ∈ cands, (input.take n).map (fold fc) <+: c.map (fold fc)) input.length) :=
  ⟨feed_matched_iff free zeros rfl rfl, feed_pending_iff free zeros rfl rfl,
    fun noStart noExtension => feed_noMatch_of free zeros rfl rfl noStart noExtension⟩

/-- Three candidates out of order, the last of which starts the input. -/
theorem unordered_candidates_pick_prefix :
    let cands : List (List UInt8) := [[1, 9], [7], [1, 2]]
    let input : List UInt8 := [1, 2, 5]
    cands.Pairwise (Apart false) ∧ ZeroOnlyLast cands ∧
      let r := ({ candidates := cands, foldCase := false } : Selector).feed input
      (∀ i, (r.1 = .matched i ∧ ∃ c, cands[i]? = some c ∧ r.2.1 = c.length) ↔
          ∃ c, cands[i]? = some c ∧ c.map (fold false) <+: input.map (fold false)) ∧
        ((r.1 = .pending ∧ r.2.1 = input.length) ↔
          ∃ c ∈ cands, input.length < c.length ∧ input.map (fold false) <+: c.map (fold false)) ∧
        ((∀ c ∈ cands, ¬c.map (fold false) <+: input.map (fold false)) →
          (∀ c ∈ cands, input.length < c.length → ¬input.map (fold false) <+: c.map (fold false)) →
          r.1 = .noMatch ∧ r.2.1 = Nat.findGreatest
            (fun n => ∃ c ∈ cands, (input.take n).map (fold false) <+: c.map (fold false))
            input.length) :=
  ⟨by decide, by decide, feed_picks_prefix _ _ _ (by decide) (by decide)⟩

/-- Candidates out of order: the selector passes over the first two and matches the third. -/
example : (({ candidates := [[1, 9], [7], [1, 2]] } : Selector).feed [1, 2, 5]) =
    (.matched 2, 2, { candidates := [[1, 9], [7], [1, 2]], index := 2, cursor := 2 }) := by
  decide

end Selector
end WebSocketCore
