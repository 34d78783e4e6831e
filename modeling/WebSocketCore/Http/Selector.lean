/-! # Selecting a candidate by its prefix

A selector reads a stream, chunk by chunk, and decides which of a list of byte strings the
stream starts with. It keeps the candidate it is following and how many of its bytes it has
matched; a byte that does not fit moves it to the next candidate that agrees with the bytes
matched so far. Bytes are compared exactly, or ASCII-case-insensitively when `foldCase` is set.
A zero byte that matches ends the selection at once.
-/

namespace WebSocketCore

/-- The decision after a chunk. -/
inductive Selection where
  /-- The candidate at this position is a prefix of the stream. -/
  | matched (index : Nat)
  /-- No candidate is a prefix of the stream. -/
  | noMatch
  /-- The stream so far is a proper prefix of the candidate followed. -/
  | pending
  deriving DecidableEq, Repr, Inhabited

/-- ASCII upper-case letters to lower case; other bytes stay. -/
def asciiLower (b : UInt8) : UInt8 := if 0x41 ≤ b && b ≤ 0x5A then b + 32 else b

/-- A selector in the middle of a stream. -/
structure Selector where
  candidates : List (List UInt8)
  /-- The candidate followed; `candidates.length` once none is left. -/
  index : Nat := 0
  /-- How many bytes of it have been matched. -/
  cursor : Nat := 0
  foldCase : Bool := false
  deriving DecidableEq, Repr, Inhabited

namespace Selector

/-- Two bytes are the same, up to ASCII case when case is folded. -/
def same (foldCase : Bool) (a b : UInt8) : Bool :=
  if foldCase then asciiLower a == asciiLower b else a == b

/-- Two byte strings of one length agree byte by byte. -/
def agree (foldCase : Bool) : List UInt8 → List UInt8 → Bool
  | [], [] => true
  | a :: as, b :: bs => same foldCase a b && agree foldCase as bs
  | _, _ => false

/-- What offering one byte to the selector leads to. -/
inductive Offer where
  /-- The candidate at this position takes the byte. -/
  | takes (index : Nat)
  /-- The candidate at this position ends where the byte would go. -/
  | complete (index : Nat)
  /-- No candidate is left. -/
  | exhausted

/-- Looks through the later candidates, from position `j`, for the first that agrees with the
bytes `matched` so far and either ends there or takes byte `b` next. -/
def offerLater (foldCase : Bool) (matched : List UInt8) (b : UInt8) :
    Nat → List (List UInt8) → Offer
  | _, [] => .exhausted
  | j, c :: cs =>
    if matched.length ≤ c.length && agree foldCase (c.take matched.length) matched then
      if c.length == matched.length then .complete j
      else if same foldCase (c.getD matched.length 0) b then .takes j
      else offerLater foldCase matched b (j + 1) cs
    else offerLater foldCase matched b (j + 1) cs

/-- Offers byte `b` to candidate `cand`, followed at position `index` with `cursor` bytes
matched, and on a mismatch to the later candidates. -/
def offer (s : Selector) (cand : List UInt8) (b : UInt8) : Offer :=
  if same s.foldCase (cand.getD s.cursor 0) b then .takes s.index
  else offerLater s.foldCase (cand.take s.cursor) b (s.index + 1) (s.candidates.drop (s.index + 1))

/-- Feeds a chunk; `used` counts the bytes consumed before it. Answers the decision, the
number of bytes consumed in all, and the selector after them. -/
def feedFrom (s : Selector) : List UInt8 → Nat → Selection × Nat × Selector
  | input, used =>
    match s.candidates[s.index]? with
    | none => (.noMatch, used, s)
    | some cand =>
      if s.cursor == cand.length then (.matched s.index, used, s)
      else match input with
        | [] => (.pending, used, s)
        | b :: rest =>
          match s.offer cand b with
          | .takes j =>
            let s' := { s with index := j, cursor := s.cursor + 1 }
            if b == 0 then (.matched j, used + 1, s') else s'.feedFrom rest (used + 1)
          | .complete j => (.matched j, used, { s with index := j })
          | .exhausted => (.noMatch, used, { s with index := s.candidates.length })

/-- Feeds a chunk: the decision, how many of its bytes were consumed, and the selector after. -/
def feed (s : Selector) (chunk : List UInt8) : Selection × Nat × Selector :=
  s.feedFrom chunk 0

/-- Starts over on a new list of candidates, keeping the case mode. -/
def reset (s : Selector) (candidates : List (List UInt8)) : Selector :=
  { s with candidates, index := 0, cursor := 0 }

end Selector

end WebSocketCore
