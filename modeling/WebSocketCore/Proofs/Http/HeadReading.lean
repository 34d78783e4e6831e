import Mathlib
import WebSocketCore.Http.Handshake

/-! # A request head, read whole

The reference reading of a request head, on the whole byte string at once. The request line is
skipped up to its first line end. Then runs of line ends and header lines alternate: a run ends
the head at its second line feed, and otherwise a header line follows it. A line that starts,
ASCII-case-insensitively, with `Sec-WebSocket-Key:` gives the key, the 24 bytes after the blanks
that follow the name, taken raw; a later key replaces an earlier one. A line that starts with
`Upgrade:` asks for an upgrade when its value, after blanks, starts with `websocket`. The rest of
every line is skipped up to the next line end.

`readHead` answers the request and the bytes after the head, or nothing when the string ends
before the head does. Only the bytes of the head decide it: a head read off a string followed by
more bytes is read off the string alone (`readHead_of_append`), and every string is the start of a
complete head, since `completion` completes it (`readHead_append_completion`).
-/

namespace WebSocketCore

namespace HeadReading

open Handshake

/-- Whether `s` starts with `word`, ASCII letters compared without case. -/
def startsFolded (word s : List UInt8) : Bool :=
  (s.take word.length).map asciiLower == word.map asciiLower

/-- The name of the key header. -/
def keyName : List UInt8 := ascii "Sec-WebSocket-Key:"

/-- The name of the upgrade header. -/
def upgradeName : List UInt8 := ascii "Upgrade:"

/-- The upgrade value a handshake asks for. -/
def websocket : List UInt8 := ascii "websocket"

/-- The bytes of the names and of the upgrade value. -/
theorem spelled_names :
    keyName = [83, 101, 99, 45, 87, 101, 98, 83, 111, 99, 107, 101, 116, 45, 75, 101, 121, 58] ∧
      upgradeName = [85, 112, 103, 114, 97, 100, 101, 58] ∧
      websocket = [119, 101, 98, 115, 111, 99, 107, 101, 116] := by
  decide +kernel

theorem keyName_eq :
    keyName = [83, 101, 99, 45, 87, 101, 98, 83, 111, 99, 107, 101, 116, 45, 75, 101, 121, 58] :=
  spelled_names.1

theorem upgradeName_eq : upgradeName = [85, 112, 103, 114, 97, 100, 101, 58] := spelled_names.2.1

theorem websocket_eq : websocket = [119, 101, 98, 115, 111, 99, 107, 101, 116] := spelled_names.2.2

@[simp] theorem length_keyName : keyName.length = 18 := by rw [keyName_eq]; rfl

@[simp] theorem length_upgradeName : upgradeName.length = 8 := by rw [upgradeName_eq]; rfl

@[simp] theorem length_websocket : websocket.length = 9 := by rw [websocket_eq]; rfl

/-- The bytes from the next line end on. -/
def skipLine (s : List UInt8) : List UInt8 := s.dropWhile fun b => !isLineEnd b

/-- Reads a run of line ends, `fed` once a line feed of it is read: after its second line feed
the head ends (`true` and the bytes after it); in front of a byte that ends no line a header line
starts (`false` and the bytes from that byte on); nothing if the string ends inside the run. -/
def readRun (fed : Bool) : List UInt8 → Option (Bool × List UInt8)
  | [] => none
  | b :: s =>
    if b = 10 then if fed then some (true, s) else readRun true s
    else if b = 13 then readRun fed s
    else some (false, b :: s)

/-- The key line after its name: past the blanks, the next 24 bytes, taken raw, are the key. -/
def keyLine (req : Request) (s : List UInt8) : Option (Request × List UInt8) :=
  let value := s.dropWhile isBlank
  if value.length < keyLen then none
  else some ({ req with key := some (value.take keyLen) }, skipLine (value.drop keyLen))

/-- The upgrade line after its name: past the blanks, a value that starts with `websocket` asks
for an upgrade. -/
def upgradeLine (req : Request) (s : List UInt8) : Request × List UInt8 :=
  let value := s.dropWhile isBlank
  ({ req with upgrade := req.upgrade || startsFolded websocket value }, skipLine value)

/-- Reads one header line: the request after it and the bytes from the line end that closes it;
nothing if the string ends inside a key. -/
def headerLine (req : Request) (line : List UInt8) : Option (Request × List UInt8) :=
  if startsFolded keyName line then keyLine req (line.drop keyName.length)
  else if startsFolded upgradeName line then some (upgradeLine req (line.drop upgradeName.length))
  else some (req, skipLine line)

/-! ## Each part reads a suffix -/

theorem length_le_of_startsFolded {word s : List UInt8} (starts : startsFolded word s = true) :
    word.length ≤ s.length := by
  have same := congrArg List.length (beq_iff_eq.mp starts)
  simp only [List.length_map, List.length_take] at same
  omega

theorem suffix_skipLine (s : List UInt8) : skipLine s <:+ s := List.dropWhile_suffix _

theorem readRun_suffix {fed : Bool} {s rest : List UInt8} {ends : Bool}
    (h : readRun fed s = some (ends, rest)) : rest <:+ s := by
  induction s generalizing fed with
  | nil => cases h
  | cons b s ih =>
    unfold readRun at h
    split_ifs at h
    · simp only [Option.some.injEq, Prod.mk.injEq] at h
      rw [← h.2]
      exact List.suffix_cons b s
    · exact (ih h).trans (List.suffix_cons b s)
    · exact (ih h).trans (List.suffix_cons b s)
    · simp only [Option.some.injEq, Prod.mk.injEq] at h
      rw [← h.2]

/-- A header line starts in front of a byte that ends no line. -/
theorem readRun_line {fed : Bool} {s line : List UInt8} (h : readRun fed s = some (false, line)) :
    ∃ b t, line = b :: t ∧ isLineEnd b = false := by
  induction s generalizing fed with
  | nil => cases h
  | cons b s ih =>
    unfold readRun at h
    split_ifs at h with feed fed cr
    · simp at h
    · exact ih h
    · exact ih h
    · simp only [Option.some.injEq, Prod.mk.injEq, true_and] at h
      exact ⟨b, s, h.symm, by simp [isLineEnd, feed, cr]⟩

/-- A header line read from its first byte, which ends no line, leaves part of what follows that
byte. -/
theorem headerLine_suffix {req req' : Request} {b : UInt8} {t after : List UInt8}
    (lineStart : isLineEnd b = false) (h : headerLine req (b :: t) = some (req', after)) :
    after <:+ t := by
  unfold headerLine at h
  split_ifs at h with key upgrade
  · dsimp only [keyLine] at h
    split_ifs at h
    simp only [Option.some.injEq, Prod.mk.injEq] at h
    rw [← h.2, length_keyName, List.drop_succ_cons]
    exact ((suffix_skipLine _).trans (List.drop_suffix _ _)).trans
      (((List.dropWhile_suffix _).trans (List.drop_suffix _ _)))
  · simp only [Option.some.injEq, upgradeLine, Prod.mk.injEq] at h
    rw [← h.2, length_upgradeName, List.drop_succ_cons]
    exact ((suffix_skipLine _).trans (List.dropWhile_suffix _)).trans (List.drop_suffix _ _)
  · simp only [Option.some.injEq, Prod.mk.injEq] at h
    rw [← h.2]
    have skips : skipLine (b :: t) = skipLine t := by
      simp [skipLine, lineStart]
    rw [skips]
    exact suffix_skipLine t

/-! ## The head -/

set_option linter.unusedVariables false in
/-- The head read on from a run of line ends, with `req` read so far: the request and the bytes
after the head, or nothing if the string ends first. -/
def fromRun (req : Request) (s : List UInt8) : Option (Request × List UInt8) :=
  match reads : readRun false s with
  | none => none
  | some (true, rest) => some (req, rest)
  | some (false, line) =>
    match read : headerLine req line with
    | none => none
    | some (req', after) => fromRun req' after
termination_by s.length
decreasing_by
  obtain ⟨b, t, rfl, lineStart⟩ := readRun_line reads
  have shorter := (headerLine_suffix lineStart read).length_le
  have within := (readRun_suffix reads).length_le
  simp only [List.length_cons] at within
  omega

/-- The reference reading of a request head: the request line is skipped up to its first line
end, then runs of line ends and header lines are read. -/
def readHead (s : List UInt8) : Option (Request × List UInt8) := fromRun {} (skipLine s)

theorem fromRun_of_none {req : Request} {s : List UInt8} (h : readRun false s = none) :
    fromRun req s = none := by
  rw [fromRun]
  split <;> simp_all

theorem fromRun_of_ends {req : Request} {s rest : List UInt8} (h : readRun false s = some (true, rest)) :
    fromRun req s = some (req, rest) := by
  rw [fromRun]
  split <;> simp_all

theorem fromRun_of_line {req : Request} {s line : List UInt8}
    (h : readRun false s = some (false, line)) :
    fromRun req s = (headerLine req line).bind fun read => fromRun read.1 read.2 := by
  rw [fromRun]
  split
  · simp_all
  · simp_all
  · next line' reads =>
    obtain rfl : line' = line := by simp_all
    split <;> simp_all

/-- A run that ends the head ends after a line feed of it. -/
theorem readRun_ends_shorter {fed : Bool} {s rest : List UInt8}
    (h : readRun fed s = some (true, rest)) : rest.length < s.length := by
  induction s generalizing fed with
  | nil => cases h
  | cons b s ih =>
    unfold readRun at h
    split_ifs at h
    · simp only [Option.some.injEq, Prod.mk.injEq, true_and] at h
      simp [← h]
    · have := ih h
      simp only [List.length_cons]
      omega
    · have := ih h
      simp only [List.length_cons]
      omega
    · simp at h

/-- What follows a head is a proper suffix of what it was read from. -/
theorem fromRun_shorter {req r : Request} {s rest : List UInt8} (h : fromRun req s = some (r, rest)) :
    rest <:+ s ∧ rest.length < s.length := by
  -- induction along the reading: each header line leaves a proper suffix of its line
  fun_induction fromRun req s with
  | case1 => cases h
  | case2 _ s rest reads =>
    cases h
    exact ⟨readRun_suffix reads, readRun_ends_shorter reads⟩
  | case3 => cases h
  | case4 req s line reads req' after read ih =>
    obtain ⟨inside, shorter⟩ := ih h
    obtain ⟨b, t, rfl, lineStart⟩ := readRun_line reads
    have inLine := headerLine_suffix lineStart read
    have inRun := readRun_suffix reads
    refine ⟨inside.trans (inLine.trans ((List.suffix_cons b t).trans inRun)), ?_⟩
    have := inLine.length_le
    have := inRun.length_le
    simp only [List.length_cons] at *
    omega

/-! ## Only the head decides

Every part of the reading takes a suffix of its input. When what it leaves still holds the bytes
that were appended, the part never looked at them, so it reads the same without them. -/

/-- A suffix at least as long as the appended part holds all of it. -/
theorem eq_append_of_suffix {rest u t : List UInt8} (suffix : rest <:+ u ++ t)
    (long : t.length ≤ rest.length) : ∃ x, rest = x ++ t ∧ x <:+ u := by
  have within := suffix.length_le
  simp only [List.length_append] at within
  refine ⟨u.drop (u.length + t.length - rest.length), ?_, List.drop_suffix _ _⟩
  calc rest = (u ++ t).drop (u.length + t.length - rest.length) := by
        simpa using List.suffix_iff_eq_drop.mp suffix
    _ = _ := List.drop_append_of_le_length (by omega)

theorem dropWhile_of_append {p : UInt8 → Bool} {u t x : List UInt8}
    (h : (u ++ t).dropWhile p = x ++ t) : u.dropWhile p = x := by
  rw [List.dropWhile_append] at h
  split at h
  · next skipped =>
    have short := (List.dropWhile_suffix p : t.dropWhile p <:+ t).length_le
    rw [h, List.length_append] at short
    rw [List.isEmpty_iff.mp skipped, List.length_eq_zero_iff.mp (by omega : x.length = 0)]
  · exact List.append_cancel_right h

theorem skipLine_of_append {u t x : List UInt8} (h : skipLine (u ++ t) = x ++ t) : skipLine u = x :=
  dropWhile_of_append h

theorem readRun_of_append {fed : Bool} {u t x : List UInt8} {ends : Bool}
    (h : readRun fed (u ++ t) = some (ends, x ++ t)) (read : ends = true ∨ x ≠ []) :
    readRun fed u = some (ends, x) := by
  induction u generalizing fed with
  | nil =>
    have short := (readRun_suffix h).length_le
    simp only [List.nil_append, List.length_append] at h short
    obtain rfl : x = [] := List.length_eq_zero_iff.mp (by omega)
    obtain rfl : ends = true := by simpa using read
    have := readRun_ends_shorter h
    simp at this
  | cons b u ih =>
    rw [List.cons_append] at h
    unfold readRun at h ⊢
    split_ifs at h ⊢
    · simp only [Option.some.injEq, Prod.mk.injEq] at h ⊢
      exact ⟨h.1, List.append_cancel_right h.2.symm |>.symm⟩
    · exact ih h
    · exact ih h
    · simp only [Option.some.injEq, Prod.mk.injEq, ← List.cons_append] at h ⊢
      exact ⟨h.1, List.append_cancel_right h.2.symm |>.symm⟩

/-- A name read off a line followed by more bytes lies inside the line, when what the line
leaves holds all the bytes that follow it. -/
theorem startsFolded_of_append {word u t : List UInt8} (long : word.length ≤ u.length) :
    startsFolded word (u ++ t) = startsFolded word u := by
  simp only [startsFolded, List.take_append_of_le_length long]

/-- Only carriage return and line feed end a line. -/
theorem eq_of_isLineEnd {b : UInt8} (h : isLineEnd b = true) : b = 13 ∨ b = 10 := by
  simpa [isLineEnd] using h

theorem startsFolded_cons_of_ne {w b : UInt8} {ws t : List UInt8}
    (differ : asciiLower b ≠ asciiLower w) : startsFolded (w :: ws) (b :: t) = false := by
  simp [startsFolded, differ]

/-- A string that ends here, or goes on with a line end, does not start with the upgrade
value. -/
theorem startsFolded_websocket_of_lineEnd {s : List UInt8}
    (ends : s = [] ∨ ∃ b t, s = b :: t ∧ isLineEnd b = true) :
    startsFolded websocket s = false := by
  rw [websocket_eq]
  rcases ends with rfl | ⟨b, t, rfl, lineEnd⟩
  · simp [startsFolded]
  · apply startsFolded_cons_of_ne
    rcases eq_of_isLineEnd lineEnd with rfl | rfl <;> decide

theorem startsFolded_of_short {word s : List UInt8} (short : s.length < word.length) :
    startsFolded word s = false := by
  cases starts : startsFolded word s
  · rfl
  · have := length_le_of_startsFolded starts
    omega

/-- No byte that ends a line folds like a letter of the upgrade value. -/
theorem lineEnd_not_websocket : ∀ b : UInt8, isLineEnd b = true →
    asciiLower b ∉ websocket.map asciiLower := by
  intro b lineEnd
  rcases eq_of_isLineEnd lineEnd with rfl | rfl <;> rw [websocket_eq] <;> decide

/-- A string that starts with the upgrade value holds no line end in its first nine bytes. -/
theorem takeWhile_of_startsFolded_websocket {s : List UInt8} (starts : startsFolded websocket s = true) :
    websocket.length ≤ (s.takeWhile fun b => !isLineEnd b).length := by
  have long := length_le_of_startsFolded starts
  have folded : (s.take websocket.length).map asciiLower = websocket.map asciiLower :=
    beq_iff_eq.mp starts
  have inLine : ∀ b ∈ s.take websocket.length, (!isLineEnd b) = true := by
    intro b mem
    cases lineEnd : isLineEnd b
    · rfl
    · exact absurd (folded ▸ List.mem_map_of_mem mem) (lineEnd_not_websocket b lineEnd)
  have split := List.take_append_drop websocket.length s
  rw [← split, List.takeWhile_append, if_pos]
  · simp only [List.length_append, List.length_take]
    omega
  · rw [List.takeWhile_eq_self_iff.mpr inLine]

theorem keyLine_suffix {req r : Request} {s after : List UInt8} (h : keyLine req s = some (r, after)) :
    after <:+ s := by
  dsimp only [keyLine] at h
  split_ifs at h
  simp only [Option.some.injEq, Prod.mk.injEq] at h
  rw [← h.2]
  exact ((suffix_skipLine _).trans (List.drop_suffix _ _)).trans (List.dropWhile_suffix _)

theorem upgradeLine_suffix (req : Request) (s : List UInt8) : (upgradeLine req s).2 <:+ s :=
  (suffix_skipLine _).trans (List.dropWhile_suffix _)

theorem keyLine_of_append {req r : Request} {u t x : List UInt8}
    (h : keyLine req (u ++ t) = some (r, x ++ t)) : keyLine req u = some (r, x) := by
  have inside := (keyLine_suffix h).length_le
  dsimp only [keyLine] at h ⊢
  rw [List.dropWhile_append] at h
  split at h
  · -- the value starts in the appended bytes, so what the line leaves is shorter than them
    have blanks := (List.dropWhile_suffix isBlank : t.dropWhile isBlank <:+ t).length_le
    split_ifs at h with short
    simp only [Option.some.injEq, Prod.mk.injEq] at h
    have leaves := (suffix_skipLine ((t.dropWhile isBlank).drop keyLen)).length_le
    rw [h.2, List.length_append, List.length_drop] at leaves
    simp only [keyLen] at short leaves
    omega
  · next kept =>
    set v := u.dropWhile isBlank
    split_ifs at h with short
    simp only [Option.some.injEq, Prod.mk.injEq] at h
    by_cases long : keyLen ≤ v.length
    · rw [List.drop_append_of_le_length long] at h
      rw [List.take_append_of_le_length long] at h
      rw [if_neg (by omega), skipLine_of_append h.2, ← h.1]
    · -- the key would reach into the appended bytes, and the line would leave less than them
      have leaves := (suffix_skipLine ((v ++ t).drop keyLen)).length_le
      rw [h.2] at leaves
      simp only [List.length_append, List.length_drop, keyLen] at leaves short long
      omega

/-- The upgrade line reads the same off a line followed by more bytes, when what it leaves holds
them all. -/
theorem upgradeLine_of_append {req r : Request} {u t x : List UInt8}
    (h : upgradeLine req (u ++ t) = (r, x ++ t)) : upgradeLine req u = (r, x) := by
  dsimp only [upgradeLine] at h ⊢
  simp only [Prod.mk.injEq] at h ⊢
  obtain ⟨asked, leaves⟩ := h
  rw [List.dropWhile_append] at asked leaves
  split at asked
  · next blank =>
    simp only [blank, if_true] at leaves
    rw [List.isEmpty_iff.mp blank]
    -- the value is the appended bytes, and the line leaves them all: they start with a line end
    have wShort := (List.dropWhile_suffix isBlank : t.dropWhile isBlank <:+ t).length_le
    generalize t.dropWhile isBlank = w at asked leaves wShort
    have skipShort := (suffix_skipLine w).length_le
    rw [leaves, List.length_append] at skipShort
    obtain rfl : x = [] := List.length_eq_zero_iff.mp (by omega)
    have whole : skipLine w = w :=
      (suffix_skipLine w).eq_of_length (by rw [leaves]; simp only [List.nil_append]; omega)
    have ends : w = [] ∨ ∃ b t, w = b :: t ∧ isLineEnd b = true := by
      rcases w with _ | ⟨b, t'⟩
      · exact .inl rfl
      · refine .inr ⟨b, t', rfl, ?_⟩
        cases lineEnd : isLineEnd b
        · have skips : skipLine (b :: t') = skipLine t' := by simp [skipLine, lineEnd]
          have := (suffix_skipLine t').length_le
          rw [← skips, whole] at this
          simp at this
        · rfl
    rw [startsFolded_websocket_of_lineEnd ends] at asked
    rw [startsFolded_websocket_of_lineEnd (.inl rfl)]
    exact ⟨asked, rfl⟩
  · next kept =>
    simp only [kept, Bool.false_eq_true, if_false] at leaves
    refine ⟨?_, skipLine_of_append leaves⟩
    rw [← asked]
    generalize u.dropWhile isBlank = v at leaves ⊢
    congr 2
    by_cases long : websocket.length ≤ v.length
    · exact (startsFolded_of_append long).symm
    · -- a value shorter than `websocket` whose line ends inside it starts with it neither way
      rw [startsFolded_of_short (by omega)]
      cases starts : startsFolded websocket (v ++ t)
      · rfl
      · have inLine := takeWhile_of_startsFolded_websocket starts
        have lengths := congrArg List.length
          (List.takeWhile_append_dropWhile (p := fun b => !isLineEnd b) (l := v ++ t))
        have leavesLength := congrArg List.length leaves
        simp only [skipLine, List.length_append] at lengths leavesLength
        omega

theorem headerLine_suffix' {req r : Request} {line after : List UInt8}
    (h : headerLine req line = some (r, after)) : after <:+ line := by
  unfold headerLine at h
  split_ifs at h
  · exact (keyLine_suffix h).trans (List.drop_suffix _ _)
  · simp only [Option.some.injEq] at h
    have leaves := upgradeLine_suffix req (line.drop upgradeName.length)
    rw [h] at leaves
    exact leaves.trans (List.drop_suffix _ _)
  · simp only [Option.some.injEq, Prod.mk.injEq] at h
    rw [← h.2]
    exact suffix_skipLine line

/-- A header line reads the same off a line followed by more bytes, when what it leaves holds
them all. -/
theorem headerLine_of_append {req r : Request} {u t x : List UInt8}
    (h : headerLine req (u ++ t) = some (r, x ++ t)) : headerLine req u = some (r, x) := by
  -- a name read off the longer line lies inside `u`, since the rest of the line holds all of `t`
  have named : ∀ {word : List UInt8}, startsFolded word (u ++ t) = true →
      (x ++ t).length ≤ ((u ++ t).drop word.length).length → word.length ≤ u.length := by
    intro word starts leaves
    have := length_le_of_startsFolded starts
    simp only [List.length_append, List.length_drop] at leaves this
    omega
  have absent : ∀ {word : List UInt8}, startsFolded word (u ++ t) = false →
      startsFolded word u = false := by
    intro word starts
    by_cases long : word.length ≤ u.length
    · rwa [← startsFolded_of_append long]
    · exact startsFolded_of_short (by omega)
  unfold headerLine at h ⊢
  by_cases key : startsFolded keyName (u ++ t) = true
  · rw [if_pos key] at h
    have long := named key (keyLine_suffix h).length_le
    rw [startsFolded_of_append long] at key
    rw [if_pos key]
    rw [List.drop_append_of_le_length long] at h
    exact keyLine_of_append h
  · rw [if_neg key] at h
    rw [if_neg (by simp [absent (Bool.eq_false_iff.mpr key)])]
    by_cases upgrade : startsFolded upgradeName (u ++ t) = true
    · rw [if_pos upgrade] at h
      simp only [Option.some.injEq] at h
      have leaves := upgradeLine_suffix req ((u ++ t).drop upgradeName.length)
      rw [h] at leaves
      have long := named upgrade leaves.length_le
      rw [startsFolded_of_append long] at upgrade
      rw [if_pos upgrade]
      rw [List.drop_append_of_le_length long] at h
      exact congrArg some (upgradeLine_of_append h)
    · rw [if_neg upgrade] at h
      rw [if_neg (by simp [absent (Bool.eq_false_iff.mpr upgrade)])]
      simp only [Option.some.injEq, Prod.mk.injEq] at h ⊢
      exact ⟨h.1, skipLine_of_append h.2⟩

/-- A head read off a string followed by more bytes, where what follows the head holds all of
them, is read off the string alone. -/
theorem fromRun_of_append {req r : Request} {u t x : List UInt8}
    (h : fromRun req (u ++ t) = some (r, x ++ t)) : fromRun req u = some (r, x) := by
  cases reads : readRun false (u ++ t) with
  | none =>
    rw [fromRun_of_none reads] at h
    cases h
  | some read =>
    obtain ⟨ends, rest⟩ := read
    cases ends with
    | true =>
      rw [fromRun_of_ends reads] at h
      simp only [Option.some.injEq, Prod.mk.injEq] at h
      obtain ⟨rfl, rfl⟩ := h
      exact fromRun_of_ends (readRun_of_append reads (.inl rfl))
    | false =>
      rw [fromRun_of_line reads] at h
      obtain ⟨⟨req', after⟩, read, continues⟩ := Option.bind_eq_some_iff.mp h
      obtain ⟨inAfter, shorter⟩ := fromRun_shorter continues
      have inLine := headerLine_suffix' read
      have inRun := readRun_suffix reads
      have lengths := inLine.length_le
      simp only [List.length_append] at shorter
      -- the line and what it leaves both hold all of `t`
      obtain ⟨line, rfl, lineIn⟩ := eq_append_of_suffix inRun (by omega)
      obtain ⟨after₀, rfl, -⟩ := eq_append_of_suffix (inLine.trans inRun) (by omega)
      have started : line ≠ [] := by
        obtain ⟨b, t', lineEq, lineStart⟩ := readRun_line reads
        have := (headerLine_suffix lineStart (lineEq ▸ read)).length_le
        intro empty
        simp only [empty, List.nil_append] at lineEq
        simp only [lineEq, List.length_cons, List.length_append] at this
        omega
      rw [fromRun_of_line (readRun_of_append reads (.inr started)),
        headerLine_of_append read, Option.bind_some]
      exact fromRun_of_append continues
termination_by u.length
decreasing_by
  have := lineIn.length_le
  obtain ⟨b, t', lineEq, lineStart⟩ := readRun_line reads
  have := (headerLine_suffix lineStart (lineEq ▸ read)).length_le
  have := congrArg List.length lineEq
  simp only [List.length_append, List.length_cons] at *
  omega

/-- A head read off a string followed by more bytes, where what follows the head holds all of
them, is the head of the string alone. -/
theorem readHead_of_append {r : Request} {s t x : List UInt8}
    (h : readHead (s ++ t) = some (r, x ++ t)) : readHead s = some (r, x) := by
  unfold readHead skipLine at h ⊢
  rw [List.dropWhile_append] at h
  split at h
  · -- with no line end in `s` the head would be read off `t` alone, and leave less than `t`
    have shorter := (fromRun_shorter h).2
    have := (List.dropWhile_suffix (fun b => !isLineEnd b) : t.dropWhile _ <:+ t).length_le
    simp only [List.length_append] at shorter
    omega
  · exact fromRun_of_append h

/-! ## Every string starts a head -/

/-- Bytes that complete every unfinished head: a key's worth of `x`, then an empty line. -/
def completion : List UInt8 := List.replicate keyLen 120 ++ [10, 10]

theorem fromRun_emptyLine (req : Request) : fromRun req [10, 10] = some (req, []) :=
  fromRun_of_ends rfl

/-- Past any part of the `x`s, the rest of the line is the empty line. -/
theorem skipLine_drop_completion : ∀ j, j ≤ keyLen → skipLine (completion.drop j) = [10, 10] := by
  intro j within
  have short : j ≤ (List.replicate keyLen (120 : UInt8)).length := by simpa using within
  rw [completion, List.drop_append_of_le_length short, List.drop_replicate, skipLine,
    List.dropWhile_append_of_pos]
  · rfl
  · intro b mem
    rw [List.eq_of_mem_replicate mem]
    rfl

theorem skipLine_append_completion (a : List UInt8) :
    skipLine (a ++ completion) = [10, 10] ∨ skipLine (a ++ completion) = skipLine a ++ completion := by
  unfold skipLine
  rw [List.dropWhile_append]
  split
  · exact .inl (skipLine_drop_completion 0 (by decide))
  · exact .inr rfl

theorem dropWhile_blank_append_completion (a : List UInt8) :
    ∃ v, (a ++ completion).dropWhile isBlank = v ++ completion ∧ v <:+ a := by
  rw [List.dropWhile_append]
  split
  · have unblank : completion.dropWhile isBlank = completion := by
      rw [completion, keyLen, List.replicate_succ, List.cons_append,
        List.dropWhile_cons_of_neg (by decide)]
    exact ⟨[], by rw [unblank, List.nil_append], List.nil_suffix⟩
  · exact ⟨_, rfl, List.dropWhile_suffix _⟩

/-- A name that starts a line followed by `completion` lies inside the line, since no letter of
it folds like `x`. -/
theorem length_le_of_startsFolded_completion {word a : List UInt8}
    (noX : 120 ∉ word.map asciiLower) (starts : startsFolded word (a ++ completion) = true) : word.length ≤ a.length := by
  by_contra short
  have folded : ((a ++ completion).take word.length).map asciiLower = word.map asciiLower :=
    beq_iff_eq.mp starts
  have reaches : 120 ∈ (a ++ completion).take word.length := by
    rw [List.take_append, List.take_of_length_le (by omega)]
    apply List.mem_append_right
    obtain ⟨k, hk⟩ : ∃ k, word.length - a.length = k + 1 := ⟨word.length - a.length - 1, by omega⟩
    rw [hk]
    simp [completion, keyLen, List.replicate_succ]
  have lower : asciiLower 120 = 120 := by decide
  exact noX (folded ▸ lower ▸ List.mem_map_of_mem reaches)

theorem readRun_append_completion (fed : Bool) (u : List UInt8) :
    (∃ rest, readRun fed (u ++ completion) = some (true, rest)) ∨
      ∃ line, line <:+ u ∧ readRun fed (u ++ completion) = some (false, line ++ completion) := by
  induction u generalizing fed with
  | nil =>
    refine .inr ⟨[], List.nil_suffix, ?_⟩
    cases fed <;> simp [readRun, completion, keyLen, List.replicate_succ]
  | cons b u ih =>
    rw [List.cons_append]
    unfold readRun
    split_ifs
    · exact .inl ⟨_, rfl⟩
    · exact (ih true).imp_right fun ⟨line, inside, reads⟩ =>
        ⟨line, inside.trans (List.suffix_cons b u), reads⟩
    · exact (ih fed).imp_right fun ⟨line, inside, reads⟩ =>
        ⟨line, inside.trans (List.suffix_cons b u), reads⟩
    · exact .inr ⟨b :: u, List.suffix_refl _, rfl⟩

/-- A header line followed by `completion` is read whole, and leaves either the empty line or
less of itself before `completion`. -/
theorem headerLine_append_completion (req : Request) {line : List UInt8}
    (lineStart : ∀ b ∈ line.head?, isLineEnd b = false) :
    ∃ r after, headerLine req (line ++ completion) = some (r, after) ∧
      (after = [10, 10] ∨ ∃ a, after = a ++ completion ∧ a.length < line.length) := by
  -- what the rest of a line leaves: the empty line, or less than the line before `completion`
  have rest : ∀ v : List UInt8, v.length < line.length →
      skipLine (v ++ completion) = [10, 10] ∨
        ∃ a, skipLine (v ++ completion) = a ++ completion ∧ a.length < line.length := by
    intro v short
    rcases skipLine_append_completion v with ends | goes
    · exact .inl ends
    · exact .inr ⟨skipLine v, goes, lt_of_le_of_lt (suffix_skipLine v).length_le short⟩
  unfold headerLine
  by_cases key : startsFolded keyName (line ++ completion) = true
  · have long := length_le_of_startsFolded_completion (by rw [keyName_eq]; decide) key
    rw [if_pos key, List.drop_append_of_le_length long]
    obtain ⟨v, value, inside⟩ := dropWhile_blank_append_completion (line.drop keyName.length)
    have vShort := inside.length_le
    simp only [List.length_drop, length_keyName] at vShort long
    dsimp only [keyLine]
    rw [value, if_neg (by simp [completion, keyLen])]
    refine ⟨_, _, rfl, ?_⟩
    by_cases keyInside : keyLen ≤ v.length
    · rw [List.drop_append_of_le_length keyInside]
      exact rest _ (by simp only [List.length_drop, keyLen] at keyInside ⊢; omega)
    · rw [List.drop_append, List.drop_eq_nil_of_le (by omega), List.nil_append]
      exact .inl (skipLine_drop_completion _ (by omega))
  · rw [if_neg key]
    by_cases upgrade : startsFolded upgradeName (line ++ completion) = true
    · have long := length_le_of_startsFolded_completion (by rw [upgradeName_eq]; decide) upgrade
      rw [if_pos upgrade, List.drop_append_of_le_length long]
      obtain ⟨v, value, inside⟩ := dropWhile_blank_append_completion (line.drop upgradeName.length)
      have vShort := inside.length_le
      simp only [List.length_drop, length_upgradeName] at vShort long
      refine ⟨_, _, rfl, ?_⟩
      rw [value]
      exact rest v (by omega)
    · rw [if_neg upgrade]
      refine ⟨_, _, rfl, ?_⟩
      rcases line with _ | ⟨b, t⟩
      · exact .inl (skipLine_drop_completion 0 (by decide))
      · have skips : skipLine (b :: t ++ completion) = skipLine (t ++ completion) := by
          simp [skipLine, lineStart b rfl]
        rw [skips]
        exact rest t (by simp)

/-- A run of line ends followed by `completion` starts a complete head. -/
theorem fromRun_append_completion (req : Request) (u : List UInt8) :
    ∃ r rest, fromRun req (u ++ completion) = some (r, rest) := by
  rcases readRun_append_completion false u with ⟨rest, ends⟩ | ⟨line, inside, reads⟩
  · exact ⟨req, rest, fromRun_of_ends ends⟩
  · have lineStart : ∀ b ∈ line.head?, isLineEnd b = false := by
      intro b first
      obtain ⟨b', t, lineEq, start⟩ := readRun_line reads
      obtain ⟨t', rfl⟩ := List.head?_eq_some_iff.mp first
      simp only [List.cons_append, List.cons.injEq] at lineEq
      rw [lineEq.1]
      exact start
    obtain ⟨req', after, read, next⟩ := headerLine_append_completion req lineStart
    rw [fromRun_of_line reads, read, Option.bind_some]
    rcases next with rfl | ⟨a, rfl, shorter⟩
    · exact ⟨req', [], fromRun_emptyLine req'⟩
    · exact fromRun_append_completion req' a
termination_by u.length
decreasing_by
  have := inside.length_le
  omega

/-- Every string is the start of a complete head: `completion` completes it. -/
theorem readHead_append_completion (s : List UInt8) :
    ∃ r rest, readHead (s ++ completion) = some (r, rest) := by
  unfold readHead
  rcases skipLine_append_completion s with ends | goes
  · exact ⟨{}, [], by rw [ends]; exact fromRun_emptyLine {}⟩
  · rw [goes]
    exact fromRun_append_completion {} (skipLine s)

end HeadReading

end WebSocketCore
