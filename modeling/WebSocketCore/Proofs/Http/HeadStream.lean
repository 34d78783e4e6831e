import Mathlib
import WebSocketCore.Proofs.Http.HeadReading
import WebSocketCore.Proofs.Http.Selector
import WebSocketCore.Proofs.Io.Stream

/-! # Reading a request head off a stream

The handshake reader sees the head only chunk by chunk, as the peer's bytes are queued, and keeps
its place in a stage and in the small loops of each stage: the line end it skips to, the line
feeds of a run it has counted, the selector it feeds. Each such loop reads, over any cutting of
the stream, what the whole-string reading reads: `skipUntil_reads`, `eatSeparators_reads` and
`select_reads`, with the rules that carry a reading on past them (`drainLine_bind`,
`skipBlanks_bind`, `select_bind`). A stage of the reader is then a point of the reference reading (`fromStage`):
each step of the reader moves to a later point of it, consuming the bytes the reference reading
passes over.

Main statement (`parse_reads_head`): however the head is queued and cut into chunks, the reader
answers the request that `readHead` reads exactly when the stream holds a complete head, and it
has then consumed the head's bytes and nothing after them.
-/

namespace WebSocketCore

namespace Handshake

open HeadReading Selector

variable {τ σ : Type}

/-! ## Skipping up to a byte -/

theorem dropWhile_append_of_findIdx?_some {p : UInt8 → Bool} {c r : List UInt8} {i : Nat}
    (found : c.findIdx? p = some i) : (c ++ r).dropWhile (fun b => !p b) = (c ++ r).drop i := by
  induction c generalizing i with
  | nil => simp at found
  | cons b c ih =>
    rw [List.findIdx?_cons] at found
    by_cases stops : p b
    · simp only [stops, if_true, Option.some.injEq] at found
      subst found
      simp [stops]
    · simp only [stops, Bool.false_eq_true, if_false, Option.map_eq_some_iff] at found
      obtain ⟨j, found, rfl⟩ := found
      simp [stops, ih found]

theorem dropWhile_append_of_findIdx?_none {p : UInt8 → Bool} {c r : List UInt8}
    (missing : c.findIdx? p = none) :
    (c ++ r).dropWhile (fun b => !p b) = r.dropWhile (fun b => !p b) := by
  rw [List.dropWhile_append_of_pos]
  intro b mem
  simpa using List.findIdx?_eq_none_iff.mp missing b mem

theorem skipUntil_reads {stop : UInt8 → Bool} {t : List UInt8}
    (found : t.dropWhile (fun b => !stop b) ≠ [])
    (bounded : t.length - (t.dropWhile fun b => !stop b).length < Routine.loopBudget) :
    Routine.Reads (skipUntil (τ := τ) (σ := σ) stop).run t fun r n =>
      r = .ok () ∧ t.drop n = t.dropWhile fun b => !stop b := by
  unfold skipUntil Io.loop
  refine (Routine.Reads.loopFor_variant (k := 0)
    (fun _ k => (t.drop k).dropWhile (fun b => !stop b) = t.dropWhile fun b => !stop b)
    (fun _ k => (t.drop k).length - (t.dropWhile fun b => !stop b).length)
    (fun u k same => ?_) (by simp) (by simpa using bounded)).mono fun r n answers => by simpa using answers
  have ready : t.drop k ≠ [] := fun empty => found (by rw [← same, empty]; rfl)
  refine Routine.Reads.peekWith_bind ready fun c r nonempty split => ?_
  cases finds : c.findIdx? stop with
  | some i =>
    -- the byte is in the chunk: the loop stops in front of it
    have within : i < c.length := (List.findIdx?_eq_some_iff_findIdx_eq.mp finds).1
    simp only [List.length_take, if_true]
    refine Routine.Reads.io_pure ⟨trivial, ?_⟩
    rw [← same, ← split, dropWhile_append_of_findIdx?_some finds, ← List.drop_drop, ← split]
    congr 1
    omega
  | none =>
    -- the whole chunk is skipped and the loop goes on
    simp only [List.take_length, Bool.false_eq_true, if_false]
    have left : t.drop (k + c.length) = r := by
      rw [← List.drop_drop, ← split, List.drop_left]
    have shorter : (r.dropWhile fun b => !stop b).length ≤ r.length :=
      (List.dropWhile_suffix _).length_le
    have pos : 0 < c.length := List.length_pos_iff.mpr nonempty
    refine Routine.Reads.io_pure ⟨?_, ?_⟩
    · rw [Nat.add_zero, left, ← same, ← split, dropWhile_append_of_findIdx?_none finds]
    · rw [Nat.add_zero, left, ← split, ← same, ← split, dropWhile_append_of_findIdx?_none finds,
        List.length_append]
      omega

theorem drainLine_reads {t : List UInt8} (found : skipLine t ≠ [])
    (bounded : t.length < Routine.loopBudget) :
    Routine.Reads (drainLine (τ := τ) (σ := σ)).run t fun r n => r = .ok () ∧ t.drop n = skipLine t :=
  skipUntil_reads found (by omega)

theorem skipBlanks_reads {t : List UInt8} (found : t.dropWhile isBlank ≠ [])
    (bounded : t.length < Routine.loopBudget) :
    Routine.Reads (skipBlanks (τ := τ) (σ := σ)).run t fun r n =>
      r = .ok () ∧ t.drop n = t.dropWhile isBlank := by
  have blanks : (t.dropWhile fun b => !!isBlank b) = t.dropWhile isBlank := by simp
  exact (skipUntil_reads (by rwa [blanks]) (by omega)).mono fun r n post =>
    ⟨post.1, post.2.trans blanks⟩

/-- What follows `drainLine` reads on from the line end. -/
theorem drainLine_bind {β : Type} {t : List UInt8} {k : Unit → Io τ σ β}
    {Q : Except NetError β → Nat → Prop} (found : skipLine t ≠ []) (bounded : t.length < Routine.loopBudget)
    (next : ∀ n, t.drop n = skipLine t → Routine.Reads (k ()).run (t.drop n) fun res m => Q res (n + m)) :
    Routine.Reads (drainLine >>= k).run t Q :=
  Routine.Reads.io_bind (drainLine_reads found bounded) (fun _ n post => next n post.2)
    fun _ _ post => by cases post.1

/-- What follows `skipBlanks` reads on from the first byte that is no blank. -/
theorem skipBlanks_bind {β : Type} {t : List UInt8} {k : Unit → Io τ σ β}
    {Q : Except NetError β → Nat → Prop} (found : t.dropWhile isBlank ≠ [])
    (bounded : t.length < Routine.loopBudget)
    (next : ∀ n, t.drop n = t.dropWhile isBlank →
      Routine.Reads (k ()).run (t.drop n) fun res m => Q res (n + m)) :
    Routine.Reads (skipBlanks >>= k).run t Q :=
  Routine.Reads.io_bind (skipBlanks_reads found bounded) (fun _ n post => next n post.2)
    fun _ _ post => by cases post.1

/-! ## A run of line ends -/

theorem scanSeparators_cons (feeds : Nat) (b : UInt8) (rest : List UInt8) :
    scanSeparators feeds (b :: rest) =
      if b = 10 then
        if feeds = 1 then (1, 2, false)
        else ((scanSeparators (feeds + 1) rest).1 + 1, (scanSeparators (feeds + 1) rest).2)
      else if b = 13 then ((scanSeparators feeds rest).1 + 1, (scanSeparators feeds rest).2)
      else (0, feeds, true) := by
  simp only [scanSeparators, beq_iff_eq, Nat.reduceEqDiff]

theorem scanSeparators_fst_le (feeds : Nat) (c : List UInt8) :
    (scanSeparators feeds c).1 ≤ c.length := by
  induction c generalizing feeds with
  | nil => simp [scanSeparators]
  | cons b c ih =>
    have next := ih (feeds + 1)
    have same := ih feeds
    rw [scanSeparators_cons]
    split_ifs <;> simp <;> omega

/-- A scan that neither ends the run nor sees a header line start read the whole chunk and
counted at most one line feed. -/
theorem scanSeparators_of_open {feeds : Nat} (few : feeds ≤ 1) {c : List UInt8}
    (open_ : (scanSeparators feeds c).2.1 ≠ 2) (more : (scanSeparators feeds c).2.2 = false) :
    (scanSeparators feeds c).1 = c.length ∧ (scanSeparators feeds c).2.1 ≤ 1 := by
  induction c generalizing feeds with
  | nil => simpa [scanSeparators] using few
  | cons b c ih =>
    rw [scanSeparators_cons] at open_ more ⊢
    split_ifs at open_ more ⊢ with feed second cr
    · simp at open_
    · have := ih (by omega) open_ more
      simp only [List.length_cons]
      omega
    · have := ih few open_ more
      simp only [List.length_cons]
      omega

/-- A scan of a chunk of the stream reads the run of line ends as `readRun` does: it ends the
head, finds a header line, or leaves the rest of the run to the bytes after the chunk. -/
theorem readRun_scanSeparators {feeds : Nat} (few : feeds ≤ 1) (c r : List UInt8) :
    readRun (feeds = 1) (c ++ r) =
      if (scanSeparators feeds c).2.1 = 2 then some (true, (c ++ r).drop (scanSeparators feeds c).1)
      else if (scanSeparators feeds c).2.2 then
        some (false, (c ++ r).drop (scanSeparators feeds c).1)
      else readRun ((scanSeparators feeds c).2.1 = 1) r := by
  induction c generalizing feeds with
  | nil =>
    have : feeds ≠ 2 := by omega
    simp only [scanSeparators, this, if_false, Bool.false_eq_true, List.nil_append]
    rfl
  | cons b c ih =>
    rw [scanSeparators_cons]
    by_cases feed : b = 10
    · subst feed
      by_cases second : feeds = 1
      · subst second
        simp [readRun]
      · have first : feeds = 0 := by omega
        subst first
        simpa [readRun] using ih (show 1 ≤ 1 from le_rfl)
    · by_cases cr : b = 13
      · subst cr
        simpa [readRun] using ih few
      · have : feeds ≠ 2 := by omega
        simp [readRun, feed, cr, this]

theorem eatSeparators_reads {t rest : List UInt8} {ends : Bool}
    (run : readRun false t = some (ends, rest)) (bounded : t.length < Routine.loopBudget) :
    Routine.Reads (eatSeparators (τ := τ) (σ := σ)).run t fun r n =>
      r = .ok ends ∧ t.drop n = rest := by
  unfold eatSeparators Io.loop
  -- after `k` bytes, `feeds` line feeds of the run are read, and the run read on from there
  -- ends as the run of `t` does
  refine (Routine.Reads.loopFor_variant (k := 0)
    (fun feeds k => feeds ≤ 1 ∧ readRun (feeds = 1) (t.drop k) = some (ends, rest))
    (fun _ k => (t.drop k).length - rest.length)
    (fun feeds k inv => ?_) ⟨Nat.zero_le 1, by simpa using run⟩ (by simp; omega)).mono
    fun r n answers => by simpa using answers
  obtain ⟨few, reads⟩ := inv
  have ready : t.drop k ≠ [] := by
    intro empty
    rw [empty] at reads
    cases reads
  refine Routine.Reads.peekWith_bind ready fun c r nonempty split => ?_
  have scan := readRun_scanSeparators few c r
  have within := scanSeparators_fst_le feeds c
  have whole := scanSeparators_of_open few (c := c)
  rw [split, reads] at scan
  rcases hs : scanSeparators feeds c with ⟨n, f, more⟩
  simp only [hs] at scan within whole ⊢
  simp only [List.length_take, Nat.min_eq_left within]
  split_ifs at scan ⊢ with two found
  · -- the second line feed ends the head
    obtain ⟨rfl, rfl⟩ := Prod.mk.inj (Option.some.inj scan)
    exact Routine.Reads.io_pure ⟨rfl, by rw [Nat.add_zero, List.drop_drop, Nat.add_comm]⟩
  · -- a header line starts
    obtain ⟨rfl, rfl⟩ := Prod.mk.inj (Option.some.inj scan)
    exact Routine.Reads.io_pure ⟨rfl, by rw [Nat.add_zero, List.drop_drop, Nat.add_comm]⟩
  · -- the chunk ended inside the run
    obtain ⟨all, few'⟩ := whole two (by simpa using found)
    have left : t.drop (k + n) = r := by
      rw [← List.drop_drop, ← split, all, List.drop_left]
    have shorter := (readRun_suffix scan.symm).length_le
    have pos : 0 < c.length := List.length_pos_iff.mpr nonempty
    refine Routine.Reads.io_pure ⟨⟨few', ?_⟩, ?_⟩
    · rw [Nat.add_zero, left, scan]
    · rw [Nat.add_zero, left, ← split, List.length_append]
      omega

/-! ## Selecting a name -/

theorem select_reads {candidates : List (List UInt8)} {t : List UInt8}
    (fresh : ({ candidates, foldCase := true } : Selector).decided = none)
    (decides : (({ candidates, foldCase := true } : Selector).feed t).1 ≠ .pending)
    (bounded : t.length < Routine.loopBudget) :
    Routine.Reads (select (τ := τ) (σ := σ) candidates).run t fun r n =>
      r = .ok (({ candidates, foldCase := true } : Selector).feed t).1 ∧
        n = (({ candidates, foldCase := true } : Selector).feed t).2.1 := by
  unfold select Io.loop
  generalize start : ({ candidates, foldCase := true } : Selector) = s at fresh decides ⊢
  have within := Selector.feed_count_le s t
  -- after `k` bytes the selector still waits, and fed the rest of the stream it decides as `s`
  -- fed the whole stream does, with the same count in all
  refine (Routine.Reads.loopFor_variant (k := 0)
    (fun sel k => sel.decided = none ∧ (sel.feed (t.drop k)).1 = (s.feed t).1 ∧
      k + (sel.feed (t.drop k)).2.1 = (s.feed t).2.1)
    (fun _ k => (s.feed t).2.1 - k)
    (fun sel k inv => ?_) ⟨fresh, by simp, by simp⟩ (by omega)).mono
    fun r n answers => by simpa using answers
  obtain ⟨waits, same, count⟩ := inv
  have ready : t.drop k ≠ [] := by
    intro empty
    rw [empty, Selector.feed, Selector.feedFrom_nil waits] at same
    exact decides same.symm
  refine Routine.Reads.peekWith_bind ready fun c r nonempty split => ?_
  have fed := Selector.feed_count_le sel c
  rcases hf : sel.feed c with ⟨outcome, n, sel'⟩
  simp only [hf] at fed ⊢
  simp only [List.length_take, Nat.min_eq_left fed]
  rw [← split] at same count
  by_cases pending : outcome = .pending
  · -- the chunk keeps the selector waiting: it read all of it
    have pending' : (sel.feed c).1 = .pending := by rw [hf]; exact pending
    have whole := Selector.feed_append_of_pending pending' r
    obtain ⟨all, waits'⟩ := Selector.feed_of_pending pending'
    rw [hf] at whole all waits'
    simp only at all waits'
    subst all
    rw [whole] at same count
    simp only at same count
    have left : t.drop (k + c.length) = r := by rw [← List.drop_drop, ← split, List.drop_left]
    have pos : 0 < c.length := List.length_pos_iff.mpr nonempty
    rw [if_pos pending]
    refine Routine.Reads.io_pure ⟨⟨waits', ?_, ?_⟩, ?_⟩
    · rw [Nat.add_zero, left]
      exact same
    · rw [Nat.add_zero, left]
      omega
    · omega
  · -- the selector decides inside the chunk, as on the whole stream
    have decides' : (sel.feed c).1 ≠ .pending := by rw [hf]; exact pending
    have whole := Selector.feed_append_of_decides decides' r
    rw [whole, hf] at same count
    rw [if_neg pending]
    exact Routine.Reads.io_pure ⟨by rw [← same], by simp only at count; omega⟩

/-- What follows a selection starts after the bytes the selector consumes of the whole stream,
with the decision it reaches there. -/
theorem select_bind {β : Type} {candidates : List (List UInt8)} {t : List UInt8}
    {k : Selection → Io τ σ β} {Q : Except NetError β → Nat → Prop}
    (fresh : ({ candidates, foldCase := true } : Selector).decided = none)
    (decides : (({ candidates, foldCase := true } : Selector).feed t).1 ≠ .pending)
    (bounded : t.length < Routine.loopBudget)
    (next : Routine.Reads (k (({ candidates, foldCase := true } : Selector).feed t).1).run
      (t.drop (({ candidates, foldCase := true } : Selector).feed t).2.1) fun res n =>
        Q res ((({ candidates, foldCase := true } : Selector).feed t).2.1 + n)) :
    Routine.Reads (select candidates >>= k).run t Q := by
  refine Routine.Reads.io_bind (select_reads fresh decides bounded) (fun d n post => ?_)
    fun _ _ post => by cases post.1
  obtain ⟨answer, rfl⟩ := post
  cases answer
  exact next

/-- Folding case is taking the ASCII lower case. -/
@[simp] theorem fold_true : fold true = asciiLower := rfl

/-- Line ends fold to themselves. -/
theorem fold_of_lineEnd {b : UInt8} (fc : Bool) (ends : isLineEnd b = true) : fold fc b = b := by
  rcases eq_of_isLineEnd ends with rfl | rfl <;> cases fc <;> rfl

/-- A selector whose candidates hold no byte that folds to a line end consumes no line end. -/
theorem feed_no_lineEnd {s : Selector} (follows : s.Follows [])
    (clean : ∀ c ∈ s.candidates, ∀ a ∈ c, isLineEnd (fold s.foldCase a) = false) (input : List UInt8) :
    ∀ b ∈ input.take (s.feed input).2.1, isLineEnd b = false := by
  intro b mem
  obtain ⟨c, mem_c, a, mem_a, same⟩ := (follows.feed input).drawn b (by simpa using mem)
  rw [candidates_feed] at mem_c
  rw [foldCase_feed] at same
  cases ends : isLineEnd b with
  | false => rfl
  | true =>
    have := clean c mem_c a mem_a
    rw [same, fold_of_lineEnd _ ends, ends] at this
    cases this

/-- Such a selector decides before a line end. -/
theorem feed_decides_of_lineEnd {s : Selector} (follows : s.Follows [])
    (clean : ∀ c ∈ s.candidates, ∀ a ∈ c, isLineEnd (fold s.foldCase a) = false)
    {input : List UInt8} {b : UInt8} (mem : b ∈ input) (ends : isLineEnd b = true) :
    (s.feed input).1 ≠ .pending := by
  intro pending
  have all := (feed_of_pending pending).1
  have := feed_no_lineEnd follows clean input b (by rw [all, List.take_length]; exact mem)
  rw [ends] at this
  cases this

/-- A fresh case-folding selector has read nothing. -/
theorem follows_fresh (candidates : List (List UInt8)) :
    ({ candidates, foldCase := true } : Selector).Follows [] :=
  follows_reset { candidates := [], foldCase := true } candidates

/-- A case-folding selector that matches has read its candidate, case aside. -/
theorem startsFolded_of_matched {candidates : List (List UInt8)} (zeros : ZeroOnlyLast candidates)
    {u : List UInt8} {i : Nat}
    (matched : (({ candidates, foldCase := true } : Selector).feed u).1 = .matched i) :
    ∃ word, candidates[i]? = some word ∧ startsFolded word u = true ∧
      (({ candidates, foldCase := true } : Selector).feed u).2.1 = word.length := by
  obtain ⟨word, found, count, same⟩ :=
    matched_reads_candidate (follows_fresh candidates) zeros matched
  simp only [List.length_nil, Nat.zero_add, List.nil_append] at count same
  refine ⟨word, found, ?_, count.symm⟩
  rw [startsFolded, count]
  exact beq_iff_eq.mpr same.symm

/-- A case-folding selector that starts following a candidate the input starts with matches it. -/
theorem feed_of_startsFolded {candidates : List (List UInt8)} (zeros : ZeroOnlyLast candidates)
    {word : List UInt8} (first : candidates[0]? = some word) {u : List UInt8}
    (starts : startsFolded word u = true) :
    (({ candidates, foldCase := true } : Selector).feed u).1 = .matched 0 ∧
      (({ candidates, foldCase := true } : Selector).feed u).2.1 = word.length := by
  have long := length_le_of_startsFolded starts
  simpa using feed_follows_to_end (follows_fresh candidates) zeros first
    (show word.length - ([] : List UInt8).length ≤ u.length by simpa using long)
    (by simpa [Selector.reset, startsFolded] using starts)

/-! ## The names and the value the reader selects -/

theorem fieldNames_eq : fieldNames = [keyName, upgradeName] := rfl

theorem upgradeToken_eq : upgradeToken = [websocket] := rfl

theorem first_fieldName : fieldNames[0]? = some keyName := rfl

theorem second_fieldName : fieldNames[1]? = some upgradeName := rfl

theorem first_upgradeToken : upgradeToken[0]? = some websocket := rfl

/-- A byte away from both line ends ends no line. -/
theorem isLineEnd_of_toNat {c : UInt8} (h13 : c.toNat ≠ 13) (h10 : c.toNat ≠ 10) :
    isLineEnd c = false := by
  have ne13 : c ≠ 13 := fun h => h13 (by rw [h]; rfl)
  have ne10 : c ≠ 10 := fun h => h10 (by rw [h]; rfl)
  simp [isLineEnd, ne13, ne10]

/-- Folding case moves no byte onto or off a line end. -/
theorem isLineEnd_asciiLower (a : UInt8) : isLineEnd (asciiLower a) = isLineEnd a := by
  unfold asciiLower
  split_ifs with upper
  · -- an upper-case letter and its lower case are both far from the line ends
    have range : 65 ≤ a.toNat ∧ a.toNat ≤ 90 := by simpa [UInt8.le_iff_toNat_le] using upper
    have shifted : (a + 32).toNat = a.toNat + 32 := by
      rw [UInt8.toNat_add]
      simp only [UInt8.reduceToNat]
      omega
    rw [isLineEnd_of_toNat (by omega) (by omega), isLineEnd_of_toNat (by omega) (by omega)]
  · rfl

/-- A string without either line end byte holds no byte that ends a line. -/
theorem isLineEnd_of_mem {c : List UInt8} (no13 : 13 ∉ c) (no10 : 10 ∉ c) {a : UInt8}
    (mem : a ∈ c) : isLineEnd a = false := by
  cases ends : isLineEnd a with
  | false => rfl
  | true =>
    rcases eq_of_isLineEnd ends with rfl | rfl
    · exact absurd mem no13
    · exact absurd mem no10

theorem zeroOnlyLast_fieldNames : ZeroOnlyLast fieldNames := by
  simp [ZeroOnlyLast, fieldNames_eq, keyName_eq, upgradeName_eq]

theorem zeroOnlyLast_upgradeToken : ZeroOnlyLast upgradeToken := by
  simp [ZeroOnlyLast, upgradeToken_eq, websocket_eq]

theorem fieldNames_no_lineEnd : ∀ c ∈ fieldNames, ∀ a ∈ c, isLineEnd (fold true a) = false := by
  intro c mem a mem_a
  rw [fold_true, isLineEnd_asciiLower]
  rw [fieldNames_eq, List.mem_pair] at mem
  rcases mem with rfl | rfl
  · exact isLineEnd_of_mem (by simp [keyName_eq]) (by simp [keyName_eq]) mem_a
  · exact isLineEnd_of_mem (by simp [upgradeName_eq]) (by simp [upgradeName_eq]) mem_a

theorem upgradeToken_no_lineEnd : ∀ c ∈ upgradeToken, ∀ a ∈ c, isLineEnd (fold true a) = false := by
  intro c mem a mem_a
  rw [fold_true, isLineEnd_asciiLower]
  rw [upgradeToken_eq, List.mem_singleton] at mem
  subst mem
  exact isLineEnd_of_mem (by simp [websocket_eq]) (by simp [websocket_eq]) mem_a

theorem fresh_fieldNames : ({ candidates := fieldNames, foldCase := true } : Selector).decided = none :=
  decided_eq_none.mpr ⟨keyName, first_fieldName, by simp⟩

theorem fresh_upgradeToken :
    ({ candidates := upgradeToken, foldCase := true } : Selector).decided = none :=
  decided_eq_none.mpr ⟨websocket, first_upgradeToken, by simp⟩

/-- A line that starts with the upgrade name is selected as the second name: its first byte
turns the selector from the key name to it, and the rest of the name is matched. -/
theorem feed_fieldNames_of_upgrade {u : List UInt8} (upgrade : startsFolded upgradeName u = true) :
    (({ candidates := fieldNames, foldCase := true } : Selector).feed u).1 = .matched 1 ∧
      (({ candidates := fieldNames, foldCase := true } : Selector).feed u).2.1 = upgradeName.length := by
  have long := length_le_of_startsFolded upgrade
  obtain ⟨b, u, rfl⟩ : ∃ b u', u = b :: u' := List.exists_cons_of_ne_nil (by rintro rfl; simp at long)
  have spelled : upgradeName = 85 :: upgradeName.drop 1 := by rw [upgradeName_eq]; rfl
  rw [startsFolded, spelled] at upgrade
  simp only [List.length_cons, List.take_succ_cons, List.map_cons, beq_iff_eq, List.cons.injEq] at upgrade
  obtain ⟨first, rest⟩ := upgrade
  -- the first byte folds to `u`: the key name refuses it and the upgrade name takes it
  have lowerU : asciiLower 85 = 117 := by simp [asciiLower]
  have lowerS : asciiLower 83 = 115 := by simp [asciiLower]
  rw [lowerU] at first
  have refused : Selector.same true 83 b = false := by
    simp [Selector.same, lowerS, first]
  have taken : Selector.same true 85 b = true := by
    simp [Selector.same, lowerU, first]
  have nonzero : b ≠ 0 := by
    rintro rfl
    simp [asciiLower] at first
  have turn : ({ candidates := fieldNames, foldCase := true } : Selector).byteStep keyName b =
      (.pending, 1, { candidates := fieldNames, index := 1, cursor := 1, foldCase := true }) := by
    simp [Selector.byteStep, Selector.offer, Selector.offerLater, fieldNames_eq, keyName_eq,
      upgradeName_eq, refused, taken, Selector.agree, nonzero]
  have ends : ({ candidates := fieldNames, foldCase := true } : Selector).cursor ≠ keyName.length := by
    simp
  have follows := (follows_fresh fieldNames).byteStep first_fieldName ends b
  rw [turn] at follows
  obtain ⟨matched, count⟩ := feed_follows_to_end follows zeroOnlyLast_fieldNames second_fieldName
    (show upgradeName.length - [b].length ≤ u.length by simp at long ⊢; omega) (by simpa using rest)
  rw [feed_cons rfl ends, turn]
  simp only [if_true, matched, count]
  simp

/-- A line that starts with neither name is not selected. -/
theorem feed_fieldNames_of_other {u : List UInt8} {i : Nat} (notKey : startsFolded keyName u = false)
    (notUpgrade : startsFolded upgradeName u = false) :
    (({ candidates := fieldNames, foldCase := true } : Selector).feed u).1 ≠ .matched i := by
  intro matched
  obtain ⟨word, found, starts, -⟩ := startsFolded_of_matched zeroOnlyLast_fieldNames matched
  rcases i with _ | _ | i
  · cases found
    change startsFolded keyName u = true at starts
    rw [notKey] at starts
    cases starts
  · cases found
    change startsFolded upgradeName u = true at starts
    rw [notUpgrade] at starts
    cases starts
  · simp [fieldNames] at found

/-! ## Stages as points of the reference reading -/

/-- What the reference reading makes of the rest `u` of the stream at a stage of the reader, with
`req` read so far: the request and the bytes after the head. A header name is read only in front
of a byte that ends no line. -/
def fromStage (stage : HandshakeStage) (req : Request) (u : List UInt8) :
    Option (Request × List UInt8) :=
  match stage with
  | .requestLine => fromRun req (skipLine u)
  | .separators => fromRun req u
  | .headerName =>
    match u with
    | b :: _ => if isLineEnd b then none else (headerLine req u).bind fun read => fromRun read.1 read.2
    | [] => none
  | .upgradeValue => fromRun (upgradeLine req u).1 (upgradeLine req u).2
  | .keyValue => (keyLine req u).bind fun read => fromRun read.1 read.2
  | .done => some (req, u)

/-- How far a stage is from its successor when it consumes nothing: a step either consumes a
byte or moves to a stage of lower rank. -/
def rank : HandshakeStage → Nat
  | .requestLine => 2
  | .separators => 1
  | .headerName => 0
  | .upgradeValue => 2
  | .keyValue => 0
  | .done => 0

/-- A step of the reader from `stage` over the stream `u` answered the next stage, from which the
reference reading reads the same head off what is left, and it went forward: four times the bytes
left plus the rank fell. -/
def Advances (r : Request) (rest : List UInt8) (stage : HandshakeStage) (u : List UInt8)
    (res : Except NetError (HandshakeStage × Request)) (n : Nat) : Prop :=
  ∃ next : HandshakeStage × Request, res = .ok next ∧
    fromStage next.1 next.2 (u.drop n) = some (r, rest) ∧
    4 * (u.drop n).length + rank next.1 < 4 * u.length + rank stage

theorem fromRun_nil (req : Request) : fromRun req [] = none := fromRun_of_none rfl

/-- A head is read only off bytes. -/
theorem ne_nil_of_fromRun {req r : Request} {v rest : List UInt8} (h : fromRun req v = some (r, rest)) :
    v ≠ [] := by
  rintro rfl
  rw [fromRun_nil] at h
  cases h

/-- The head's rest lies in the rest of the stream at every stage. -/
theorem fromStage_suffix {stage : HandshakeStage} {req r : Request} {u rest : List UInt8}
    (h : fromStage stage req u = some (r, rest)) : rest <:+ u := by
  cases stage with
  | requestLine => exact (fromRun_shorter h).1.trans (suffix_skipLine u)
  | separators => exact (fromRun_shorter h).1
  | headerName =>
    rcases u with _ | ⟨b, u⟩
    · cases h
    · simp only [fromStage] at h
      split_ifs at h
      obtain ⟨read, line, after⟩ := Option.bind_eq_some_iff.mp h
      exact (fromRun_shorter after).1.trans (headerLine_suffix' line)
  | upgradeValue => exact (fromRun_shorter h).1.trans (upgradeLine_suffix req u)
  | keyValue =>
    obtain ⟨read, line, after⟩ := Option.bind_eq_some_iff.mp h
    exact (fromRun_shorter after).1.trans (keyLine_suffix line)
  | done =>
    cases h
    exact List.suffix_refl u

/-- A string whose skipped line leaves bytes holds a line end. -/
theorem lineEnd_of_skipLine {v : List UInt8} (h : skipLine v ≠ []) : ∃ b ∈ v, isLineEnd b = true :=
  ⟨(skipLine v).head h, (suffix_skipLine v).subset (List.head_mem h),
    by simpa [skipLine] using List.head_dropWhile_not (fun b => !isLineEnd b) (l := v) h⟩

/-- Bytes that end no line do not move the next line end. -/
theorem skipLine_drop {v : List UInt8} {n : Nat} (inside : ∀ b ∈ v.take n, isLineEnd b = false) :
    skipLine (v.drop n) = skipLine v := by
  conv => rhs; rw [← List.take_append_drop n v]
  unfold skipLine
  rw [List.dropWhile_append_of_pos]
  simpa using inside

/-! ## One step of the reader -/

section Steps

variable {r : Request} {rest : List UInt8}

theorem requestLine_reads {req : Request} {u : List UInt8}
    (reads : fromStage .requestLine req u = some (r, rest)) (bounded : u.length < Routine.loopBudget) :
    Routine.Reads (step (τ := τ) (σ := σ) .requestLine req).run u (Advances r rest .requestLine u) := by
  rw [step]
  refine drainLine_bind (ne_nil_of_fromRun reads) bounded fun n left => ?_
  have shorter := (List.drop_suffix n u).length_le
  refine Routine.Reads.io_pure ⟨(.separators, req), rfl, ?_, ?_⟩
  · rw [Nat.add_zero, left]
    exact reads
  · simp only [Nat.add_zero, rank]
    omega

theorem separators_reads {req : Request} {u : List UInt8}
    (reads : fromStage .separators req u = some (r, rest)) (bounded : u.length < Routine.loopBudget) :
    Routine.Reads (step (τ := τ) (σ := σ) .separators req).run u (Advances r rest .separators u) := by
  rw [step]
  rcases run : readRun false u with _ | ⟨ends, after⟩
  · rw [fromStage, fromRun_of_none run] at reads
    cases reads
  refine Routine.Reads.io_bind (eatSeparators_reads run bounded) (fun x n post => ?_)
    fun e n post => by cases post.1
  obtain ⟨answer, left⟩ := post
  cases answer
  have shorter := (List.drop_suffix n u).length_le
  cases ends with
  | true =>
    -- the run ends the head: nothing more is read
    rw [fromStage, fromRun_of_ends run] at reads
    cases reads
    refine Routine.Reads.io_pure ⟨(.done, r), rfl, ?_, ?_⟩
    · rw [Nat.add_zero, left]
      rfl
    · simp only [Nat.add_zero, rank]
      omega
  | false =>
    -- a header line starts in front of a byte that ends no line
    obtain ⟨b, t, rfl, lineStart⟩ := readRun_line run
    rw [fromStage, fromRun_of_line run] at reads
    refine Routine.Reads.io_pure ⟨(.headerName, req), rfl, ?_, ?_⟩
    · rw [Nat.add_zero, left]
      simpa [fromStage, lineStart] using reads
    · simp only [Nat.add_zero, rank]
      omega

theorem headerName_reads {req : Request} {u : List UInt8}
    (reads : fromStage .headerName req u = some (r, rest)) (bounded : u.length < Routine.loopBudget) :
    Routine.Reads (step (τ := τ) (σ := σ) .headerName req).run u (Advances r rest .headerName u) := by
  rcases u with _ | ⟨b, v⟩
  · cases reads
  simp only [fromStage] at reads
  split_ifs at reads with lineStart
  rw [step]
  by_cases key : startsFolded keyName (b :: v)
  · -- the key name: 18 bytes selected, the value follows
    obtain ⟨matched, count⟩ := feed_of_startsFolded zeroOnlyLast_fieldNames first_fieldName key
    refine select_bind fresh_fieldNames (by rw [matched]; simp) bounded ?_
    have long := length_le_of_startsFolded key
    rw [matched, count]
    refine Routine.Reads.io_pure ⟨(.keyValue, req), rfl, ?_, ?_⟩
    · simpa [headerLine, key, fromStage] using reads
    · simp only [Nat.add_zero, rank, List.length_drop, List.length_cons, length_keyName] at long ⊢
      omega
  by_cases upgrade : startsFolded upgradeName (b :: v)
  · -- the upgrade name: 8 bytes selected, the value follows
    obtain ⟨matched, count⟩ := feed_fieldNames_of_upgrade upgrade
    refine select_bind fresh_fieldNames (by rw [matched]; simp) bounded ?_
    have long := length_le_of_startsFolded upgrade
    rw [matched, count]
    refine Routine.Reads.io_pure ⟨(.upgradeValue, req), rfl, ?_, ?_⟩
    · simpa [headerLine, key, upgrade, fromStage] using reads
    · simp only [Nat.add_zero, rank, List.length_drop, List.length_cons, length_upgradeName]
        at long ⊢
      omega
  -- another header: the selector stops inside the line, and the rest of the line is skipped
  have line : headerLine req (b :: v) = some (req, skipLine (b :: v)) := by
    simp [headerLine, key, upgrade]
  rw [line, Option.bind_some] at reads
  have found : skipLine (b :: v) ≠ [] := ne_nil_of_fromRun reads
  obtain ⟨c, mem, ends⟩ := lineEnd_of_skipLine found
  have decides := feed_decides_of_lineEnd (follows_fresh fieldNames) fieldNames_no_lineEnd mem ends
  refine select_bind fresh_fieldNames decides bounded ?_
  have same := skipLine_drop (feed_no_lineEnd (follows_fresh fieldNames) fieldNames_no_lineEnd (b :: v))
  have notKey := feed_fieldNames_of_other (i := 0) (by simpa using key) (by simpa using upgrade)
  have notUpgrade := feed_fieldNames_of_other (i := 1) (by simpa using key) (by simpa using upgrade)
  split
  · next matched => exact absurd matched notKey
  · next matched => exact absurd matched notUpgrade
  have within := (List.drop_suffix (({ candidates := fieldNames, foldCase := true } : Selector).feed
    (b :: v)).2.1 (b :: v)).length_le
  refine drainLine_bind (same ▸ found) (by omega) fun m left => ?_
  rw [same, List.drop_drop] at left
  have shorter : (skipLine (b :: v)).length < (b :: v).length := by
    have skips : skipLine (b :: v) = skipLine v := by simp [skipLine, lineStart]
    rw [skips]
    exact Nat.lt_succ_of_le (suffix_skipLine v).length_le
  refine Routine.Reads.io_pure ⟨(.separators, req), rfl, ?_, ?_⟩
  · rw [Nat.add_zero, left]
    exact reads
  · rw [Nat.add_zero, left]
    simp only [rank]
    omega

theorem keyValue_reads {req : Request} {u : List UInt8}
    (reads : fromStage .keyValue req u = some (r, rest)) (bounded : u.length < Routine.loopBudget) :
    Routine.Reads (step (τ := τ) (σ := σ) .keyValue req).run u (Advances r rest .keyValue u) := by
  obtain ⟨read, line, after⟩ := Option.bind_eq_some_iff.mp reads
  dsimp only [keyLine] at line
  split_ifs at line with short
  cases line
  generalize value_eq : u.dropWhile isBlank = value at short after
  have nonempty : value ≠ [] := by
    rintro rfl
    simp [keyLen] at short
  have within : value.length ≤ u.length := value_eq ▸ (List.dropWhile_suffix _).length_le
  rw [step]
  refine skipBlanks_bind (by rwa [value_eq]) bounded fun n₀ left₀ => ?_
  rw [value_eq] at left₀
  rw [left₀]
  -- the key is the next 24 bytes, taken whole
  refine Routine.Reads.io_bind (Routine.Reads.readExact (by omega : keyLen ≤ value.length))
    (fun key n₁ post => ?_) fun e n₁ post => by cases post.1
  obtain ⟨answer, count⟩ := post
  cases answer
  subst count
  simp only at after ⊢
  have found : skipLine (value.drop keyLen) ≠ [] := ne_nil_of_fromRun after
  have shorter := (suffix_skipLine (value.drop keyLen)).length_le
  refine drainLine_bind found (by simp; omega) fun n₂ left₂ => ?_
  refine Routine.Reads.io_pure ⟨(.separators, { req with key := some (value.take keyLen) }), rfl, ?_, ?_⟩
  · rw [Nat.add_zero, ← List.drop_drop, ← List.drop_drop, left₀, left₂]
    exact after
  · rw [Nat.add_zero, ← List.drop_drop, ← List.drop_drop, left₀, left₂]
    simp only [List.length_drop, rank] at shorter ⊢
    simp only [keyLen] at short shorter ⊢
    omega

/-- The upgrade flag as the reader sets it from its selection is the flag the reference reading
sets: the selector matches the upgrade value exactly when the value starts with it. -/
theorem upgrade_of_selection (req : Request) (value : List UInt8) :
    (if (({ candidates := upgradeToken, foldCase := true } : Selector).feed value).1 = .matched 0
      then { req with upgrade := true } else req) =
      { req with upgrade := req.upgrade || startsFolded websocket value } := by
  by_cases starts : startsFolded websocket value
  · rw [if_pos (feed_of_startsFolded zeroOnlyLast_upgradeToken first_upgradeToken starts).1,
      starts, Bool.or_true]
  · have other : (({ candidates := upgradeToken, foldCase := true } : Selector).feed value).1 ≠
        .matched 0 := by
      intro matched
      obtain ⟨word, found, starts', -⟩ := startsFolded_of_matched zeroOnlyLast_upgradeToken matched
      cases found
      exact starts starts'
    rw [if_neg other]
    simp [starts]

theorem upgradeValue_reads {req : Request} {u : List UInt8}
    (reads : fromStage .upgradeValue req u = some (r, rest)) (bounded : u.length < Routine.loopBudget) :
    Routine.Reads (step (τ := τ) (σ := σ) .upgradeValue req).run u
      (Advances r rest .upgradeValue u) := by
  simp only [fromStage, upgradeLine] at reads
  generalize value_eq : u.dropWhile isBlank = value at reads
  have within : value.length ≤ u.length := value_eq ▸ (List.dropWhile_suffix _).length_le
  have found : skipLine value ≠ [] := ne_nil_of_fromRun reads
  have nonempty : value ≠ [] := by
    rintro rfl
    exact found rfl
  -- the value holds a line end, in front of which the selector decides
  obtain ⟨c, mem, ends⟩ := lineEnd_of_skipLine found
  have decides := feed_decides_of_lineEnd (follows_fresh upgradeToken) upgradeToken_no_lineEnd mem ends
  rw [step]
  refine skipBlanks_bind (by rwa [value_eq]) bounded fun n₀ left₀ => ?_
  rw [value_eq] at left₀
  rw [left₀]
  refine select_bind fresh_upgradeToken decides (by omega) ?_
  have same := skipLine_drop (feed_no_lineEnd (follows_fresh upgradeToken) upgradeToken_no_lineEnd value)
  have shorter := (suffix_skipLine value).length_le
  refine drainLine_bind (same ▸ found) (by simp; omega) fun n₂ left₂ => ?_
  rw [same] at left₂
  refine Routine.Reads.io_pure ⟨(.separators, _), rfl, ?_, ?_⟩
  · rw [Nat.add_zero, ← List.drop_drop, ← List.drop_drop, left₀, left₂]
    simp only [fromStage]
    rw [upgrade_of_selection]
    exact reads
  · rw [Nat.add_zero, ← List.drop_drop, ← List.drop_drop, left₀, left₂]
    simp only [rank]
    omega

theorem step_reads {stage : HandshakeStage} (going : stage ≠ .done) {req : Request} {u : List UInt8}
    (reads : fromStage stage req u = some (r, rest)) (bounded : u.length < Routine.loopBudget) :
    Routine.Reads (step (τ := τ) (σ := σ) stage req).run u (Advances r rest stage u) := by
  cases stage with
  | requestLine => exact requestLine_reads reads bounded
  | separators => exact separators_reads reads bounded
  | headerName => exact headerName_reads reads bounded
  | upgradeValue => exact upgradeValue_reads reads bounded
  | keyValue => exact keyValue_reads reads bounded
  | done => exact absurd rfl going

end Steps

/-! ## The whole head -/

/-- The reader goes from stage to stage along the reference reading; four times the bytes left to
the head's end plus the rank bounds the stages still to come. -/
theorem parseReporting_reads {t rest : List UInt8} {r : Request} (reads : readHead t = some (r, rest))
    (bounded : 4 * t.length + 2 < Routine.loopBudget) :
    Routine.Reads (parseReporting (τ := τ) (σ := σ)) t fun res n => res = .ok r ∧ t.drop n = rest := by
  unfold parseReporting Routine.loop
  refine (Routine.Reads.iterate_variant (k := 0)
    (fun (x : HandshakeStage × Request) k => fromStage x.1 x.2 (t.drop k) = some (r, rest))
    (fun (x : HandshakeStage × Request) k => 4 * ((t.drop k).length - rest.length) + rank x.1)
    (fun x k inv => ?_) (x := (.requestLine, {})) reads (by simp only [rank, List.drop_zero]; omega)).mono
    fun res n answers => by simpa using answers
  obtain ⟨stage, req⟩ := x
  dsimp only at inv ⊢
  have within := (fromStage_suffix inv).length_le
  by_cases finished : stage = .done
  · subst finished
    cases inv
    exact Routine.Reads.pure ⟨rfl, by simp⟩
  · rw [if_neg finished]
    have shorter := (List.drop_suffix k t).length_le
    refine (step_reads finished inv (by omega)).bind fun res n post => ?_
    obtain ⟨next, rfl, reads', lower⟩ := post
    have within' := (fromStage_suffix reads').length_le
    rw [List.drop_drop] at reads' lower within'
    refine Routine.Reads.pure ?_
    rw [Nat.add_zero]
    exact ⟨reads', by omega⟩

theorem parse_reads {t rest : List UInt8} {r : Request} (reads : readHead t = some (r, rest))
    (bounded : 4 * t.length + 2 < Routine.loopBudget) :
    Routine.Reads (parse (τ := τ) (σ := σ)).run t fun res n => res = .ok r ∧ t.drop n = rest := by
  show Routine.Reads (parseReporting >>= fun res => pure (res.mapError Prod.fst)) t _
  refine (parseReporting_reads reads bounded).bind fun res n post => Routine.Reads.pure ?_
  obtain ⟨rfl, left⟩ := post
  exact ⟨rfl, by rw [Nat.add_zero]; exact left⟩

/-- A reader that answers a request has read a complete head: the bytes it was offered, followed
by `completion`, hold a head that it reads the same way, and that head ends inside them. -/
theorem readHead_of_parse {s : List UInt8}
    (bounded : 4 * (s.length + completion.length) + 2 < Routine.loopBudget)
    {w w' : Conn τ σ} {cs cs' : List (List UInt8)} {a : Request} (clean : w.link.error = none)
    (chunks : ∀ c ∈ cs, c ≠ []) (arrives : w.link.inbound ++ cs.flatten = s)
    (fed : ((parse (τ := τ) (σ := σ)).run w).feed cs = (.done (.ok a) w', cs')) :
    ∃ rest, readHead s = some (a, rest) := by
  obtain ⟨r, rest, complete⟩ := readHead_append_completion s
  have completed : completion ≠ [] := by simp [completion]
  have chunks' : ∀ c ∈ cs ++ [completion], c ≠ [] := by
    intro c mem
    rcases List.mem_append.mp mem with old | new
    · exact chunks c old
    · rw [List.mem_singleton.mp new]
      exact completed
  obtain ⟨res, n, q, cs'', ⟨answer, left⟩, fed', remains⟩ :=
    parse_reads complete (by simpa using bounded) w (cs ++ [completion]) clean chunks'
      (by simp [← arrives])
  -- offered the completion after the chunks, the reader still stops where it stopped
  rw [Progress.feed_append fed] at fed'
  simp only [Prod.mk.injEq, Progress.done.injEq] at fed'
  obtain ⟨⟨rfl, -⟩, rfl⟩ := fed'
  cases answer
  refine ⟨q ++ cs'.flatten, readHead_of_append (t := completion) ?_⟩
  rw [complete, ← left, ← remains]
  simp

/-- However a request head is cut into chunks, the reader answers the reference reading. -/
theorem parse_reads_head (s : List UInt8) (bounded : s.length < 2 ^ 29) :
    (∀ r rest, readHead s = some (r, rest) →
      Routine.Reads (parse (τ := τ) (σ := σ)).run s fun res n => res = .ok r ∧ s.drop n = rest) ∧
    (∀ (w w' : Conn τ σ) (cs cs' : List (List UInt8)) (a : Request), w.link.error = none →
      (∀ c ∈ cs, c ≠ []) → w.link.inbound ++ cs.flatten = s →
      ((parse (τ := τ) (σ := σ)).run w).feed cs = (.done (.ok a) w', cs') →
      ∃ rest, readHead s = some (a, rest)) := by
  have room : 4 * (s.length + completion.length) + 2 < Routine.loopBudget := by
    simp only [completion, keyLen, List.length_append, List.length_replicate, List.length_cons,
      List.length_nil, Routine.loopBudget]
    omega
  exact ⟨fun r rest reads => parse_reads reads (by omega),
    fun w w' cs cs' a clean chunks arrives fed => readHead_of_parse room clean chunks arrives fed⟩

/-- Upgrade headers in mixed case are read, and the frame byte after the head is left. -/
theorem parse_reads_upgrade_request :
    Routine.Reads (parse (τ := Unit) (σ := Unit)).run
      (ascii "GET / HTTP/1.1\r\nupgrade:  WebSocket\r\nHost: h\r\nSEC-WEBSOCKET-KEY: dGhlIHNhbXBsZSBub25jZQ==\r\n\r\n" ++ [0x81])
      fun res n => res = .ok { upgrade := true, key := some (ascii "dGhlIHNhbXBsZSBub25jZQ==") } ∧
        (ascii "GET / HTTP/1.1\r\nupgrade:  WebSocket\r\nHost: h\r\nSEC-WEBSOCKET-KEY: dGhlIHNhbXBsZSBub25jZQ==\r\n\r\n" ++ [0x81]).drop n = [0x81] :=
  (parse_reads_head _ (by decide +kernel)).1 _ _ (by decide +kernel)

end Handshake

end WebSocketCore
