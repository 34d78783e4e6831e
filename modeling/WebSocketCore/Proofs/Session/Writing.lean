import Mathlib
import WebSocketCore.Proofs.Session.Carriage

/-! # Rounds of a writer

A writer appends its bytes round after round, and waits whenever the ring blocks. This module
gives the ring's appends that take nothing or something, the equations of one round of a write,
push or flush loop, and what such rounds change on a link (`Link.Rewrites`: only the ring, the
transport and the count of armed acknowledgements).

Rounds are counted: a round either takes a byte, or takes nothing and seals the open region, or
waits. A round that takes nothing leaves no region open, and with no region open a round takes a
byte or waits, so twice the bytes left, and one for an open region, bound the rounds of a write
(`FrameWriter.roundsFor`).
-/

namespace WebSocketCore

/-! ## Appends that take nothing -/

namespace FrameRing

variable {τ : Type} [Transport τ]

@[simp] theorem sendPending_maxPayload (r : FrameRing) (t : τ) :
    (r.sendPending t).2.1.maxPayload = r.maxPayload := by
  rcases sendPending_cases r t with ⟨_, out⟩ | ⟨_, same, _⟩ | ⟨p, _, _, sent, _⟩
  · rw [out]
  · rw [same]
  · rw [sent]

@[simp] theorem rewind_maxPayload (r : FrameRing) : r.rewind.maxPayload = r.maxPayload := by
  unfold rewind
  split <;> rfl

/-- A send followed by an answer leaves the ring the send left. -/
theorem thenSend_answer_ring {α : Type} (r : FrameRing) (t : τ) (stalled : α)
    (x : Except NetError α) :
    (r.thenSend t stalled fun r t => ⟨x, r, t⟩).ring = (r.sendPending t).2.1 := by
  unfold thenSend
  rcases r.sendPending t with ⟨result, r', t'⟩
  rcases result with e | (_ | _) <;> rfl

/-- Copying into an open region answers the bytes the copy took. -/
theorem fillOpen_took_eq {r : FrameRing} {t : τ} {o : OpenRegion} {bytes : List UInt8}
    {a : Append} (answer : (r.fillOpen t o bytes).result = .ok a) :
    a = .took (r.fill o bytes).2 := by
  unfold fillOpen at answer
  dsimp only at answer
  split_ifs at answer
  · rcases thenSend_answer _ _ _ _ answer with stalled | ⟨_, _, sent⟩
    · exact stalled
    · exact (Except.ok.inj sent).symm
  · exact (Except.ok.inj answer).symm

theorem fill_snd_eq (r : FrameRing) (o : OpenRegion) (bytes : List UInt8) :
    (r.fill o bytes).2 = min bytes.length (min r.contiguousRoom (r.maxPayload - r.filled o)) :=
  rfl

@[simp] theorem fill_sendThreshold (r : FrameRing) (o : OpenRegion) (bytes : List UInt8) :
    (r.fill o bytes).1.sendThreshold = r.sendThreshold := rfl

/-- A copy that takes none of a nonempty offer found no room or a full payload, so the region is
sealed. -/
theorem fillOpen_closes {r : FrameRing} {t : τ} {o : OpenRegion} {bytes : List UInt8}
    (offered : bytes ≠ []) (nothing : (r.fill o bytes).2 = 0) :
    (r.fillOpen t o bytes).ring.openRegion = none := by
  have length : 0 < bytes.length := List.length_pos_iff.mpr offered
  have spent : r.contiguousRoom = 0 ∨ r.maxPayload ≤ r.filled o := by
    rw [fill_snd_eq] at nothing
    omega
  have due : (r.fill o bytes).1.dueToSeal o = true := by
    have filled : (r.fill o bytes).1.filled o = r.filled o := by simp [filled, nothing]
    have room : (r.fill o bytes).1.contiguousRoom = r.contiguousRoom := by
      simp [contiguousRoom, nothing]
    simp only [dueToSeal, filled, room, fill_maxPayload, fill_sendThreshold, Bool.or_eq_true,
      decide_eq_true_eq, minRegion, headerReserve]
    omega
  unfold fillOpen
  dsimp only
  rw [if_pos due, thenSend_answer_ring, sendPending_openRegion, sealOpen_openRegion]

/-- A region opened where there is room for one has room for a payload byte behind its
reserve. -/
theorem beginAt_contiguousRoom_pos {r : FrameRing} (room : minRegion ≤ r.contiguousRoom)
    (framing : Framing) : 1 ≤ (r.beginAt framing).contiguousRoom := by
  simp only [minRegion, headerReserve] at room
  rcases Nat.lt_or_ge r.head r.tail with ahead | behind
  · rw [contiguousRoom_of_lt ahead] at room
    rw [contiguousRoom_of_lt (by simp only [beginAt_head, beginAt_tail, headerReserve]; omega)]
    simp only [beginAt_head, beginAt_tail, headerReserve]
    omega
  · rw [contiguousRoom_of_le behind] at room
    rw [contiguousRoom_of_le (by simp only [beginAt_head, beginAt_tail]; omega)]
    simp only [beginAt_head, beginAt_size, headerReserve]
    omega

/-- A region just opened takes a byte of every nonempty offer when the payload limit allows one. -/
theorem fill_beginAt_pos {r : FrameRing} (room : minRegion ≤ r.contiguousRoom) (framing : Framing)
    {bytes : List UInt8} (offered : bytes ≠ []) (limit : 1 ≤ r.maxPayload) :
    1 ≤ ((r.beginAt framing).fill ⟨r.head, r.head + headerReserve, framing⟩ bytes).2 := by
  have length : 0 < bytes.length := List.length_pos_iff.mpr offered
  have roomy := beginAt_contiguousRoom_pos room framing
  have empty : (r.beginAt framing).filled ⟨r.head, r.head + headerReserve, framing⟩ = 0 := by
    simp [filled]
  rw [fill_snd_eq, empty, beginAt_maxPayload]
  omega

/-- A region that just opened takes a byte of every nonempty offer when the payload limit allows
one: it starts with room behind its reserve, at the head or after a jump to offset 0. -/
theorem fill_pos_of_opened {r r' : FrameRing} {framing : Framing}
    (opened : r.openRegion? framing = some r') {o : OpenRegion} (isOpen : r'.openRegion = some o)
    {bytes : List UInt8} (offered : bytes ≠ []) (limit : 1 ≤ r.maxPayload) :
    1 ≤ (r'.fill o bytes).2 := by
  rcases (openRegion?_cases opened).2 with ⟨room, rfl⟩ | ⟨-, -, low, rfl⟩
  · rw [beginAt_openRegion, Option.some.injEq] at isOpen
    subst isOpen
    exact fill_beginAt_pos room framing offered limit
  · rw [beginAt_openRegion, Option.some.injEq] at isOpen
    subst isOpen
    have room : minRegion ≤
        ({ r with markers := r.markers ++ [Marker.jump], head := 0 } : FrameRing).contiguousRoom := by
      rw [contiguousRoom_of_lt (show 0 < r.tail by unfold minRegion at low; omega)]
      dsimp only
      unfold minRegion at low ⊢
      omega
    exact fill_beginAt_pos room framing offered limit

/-- Placing bytes with no region open takes a byte, or waits. -/
theorem place_took_pos {r : FrameRing} {t : τ} {framing : Framing} {bytes : List UInt8}
    (closed : r.openRegion = none) (offered : bytes ≠ []) (limit : 1 ≤ r.maxPayload) {n : Nat}
    (took : (r.place t framing bytes).result = .ok (.took n)) : 1 ≤ n := by
  unfold place at took
  rw [closed] at took
  dsimp only at took
  split at took
  · cases took
  · rename_i r' opened
    obtain ⟨⟨o, isOpen, -⟩, -⟩ := openRegion?_spec _ _ _ opened
    simp only [isOpen] at took
    rw [Append.took.inj (fillOpen_took_eq took)]
    exact fill_pos_of_opened opened isOpen offered (by simpa using limit)

/-- An append with no region open takes a byte of a nonempty offer, or waits. -/
theorem append_took_pos {r : FrameRing} {t : τ} {framing : Framing} {bytes : List UInt8}
    (closed : r.openRegion = none) (offered : bytes ≠ []) (limit : 1 ≤ r.maxPayload) {n : Nat}
    (took : (r.append t framing bytes).result = .ok (.took n)) : 1 ≤ n := by
  unfold append at took
  rw [if_neg (by simpa using offered)] at took
  by_cases ok₁ : (r.sendPending t).1 = .ok true
  · rw [thenSend_of_ok _ _ _ _ ok₁] at took
    have sealed : (r.sendPending t).2.1.sealOther framing = (r.sendPending t).2.1 := by
      simp [sealOther, closed]
    rw [sealed] at took
    by_cases ok₂ : ((r.sendPending t).2.1.sendPending (r.sendPending t).2.2).1 = .ok true
    · rw [thenSend_of_ok _ _ _ _ ok₂] at took
      exact place_took_pos (by simp [closed]) offered (by simpa using limit) took
    · cases (thenSend_of_ne _ _ _ _ ok₂).2.2 _ took
  · cases (thenSend_of_ne _ _ _ _ ok₁).2.2 _ took

/-- Placing that takes nothing leaves no region open. -/
theorem place_took_zero {r : FrameRing} {t : τ} {framing : Framing} {bytes : List UInt8}
    (offered : bytes ≠ []) (took : (r.place t framing bytes).result = .ok (.took 0)) :
    (r.place t framing bytes).ring.openRegion = none := by
  unfold place at took ⊢
  split at took
  · rename_i o _
    exact fillOpen_closes offered (Append.took.inj (fillOpen_took_eq took)).symm
  · dsimp only at took ⊢
    split at took
    · cases took
    · rename_i r' opened
      obtain ⟨⟨o, isOpen, -⟩, -⟩ := openRegion?_spec _ _ _ opened
      simp only [isOpen] at took ⊢
      exact fillOpen_closes offered (Append.took.inj (fillOpen_took_eq took)).symm

/-- An append that takes none of a nonempty offer leaves no region open. -/
theorem append_took_zero {r : FrameRing} {t : τ} {framing : Framing} {bytes : List UInt8}
    (offered : bytes ≠ []) (took : (r.append t framing bytes).result = .ok (.took 0)) :
    (r.append t framing bytes).ring.openRegion = none := by
  unfold append at took ⊢
  rw [if_neg (by simpa using offered)] at took ⊢
  by_cases ok₁ : (r.sendPending t).1 = .ok true
  · rw [thenSend_of_ok _ _ _ _ ok₁] at took ⊢
    by_cases ok₂ : (((r.sendPending t).2.1.sealOther framing).sendPending (r.sendPending t).2.2).1 =
        .ok true
    · rw [thenSend_of_ok _ _ _ _ ok₂] at took ⊢
      exact place_took_zero offered took
    · cases (thenSend_of_ne _ _ _ _ ok₂).2.2 _ took
  · cases (thenSend_of_ne _ _ _ _ ok₁).2.2 _ took

/-- Sealing a region of another framing closes it, or leaves the open region alone. -/
theorem sealOther_openRegion (r : FrameRing) (framing : Framing) :
    (r.sealOther framing).openRegion = none ∨ (r.sealOther framing).openRegion = r.openRegion := by
  unfold sealOther
  split
  · split_ifs
    · exact .inr rfl
    · exact .inl (sealOpen_openRegion _ _)
  · exact .inr rfl

/-- An append that waits opens no region. -/
theorem append_blocked_open {r : FrameRing} {t : τ} {framing : Framing} {bytes : List UInt8}
    {y : WaitReason} (blocked : (r.append t framing bytes).result = .ok (.blocked y)) :
    (r.append t framing bytes).ring.openRegion = none ∨
      (r.append t framing bytes).ring.openRegion = r.openRegion := by
  unfold append at blocked ⊢
  split at blocked
  · cases blocked
  rename_i nonempty
  simp only [nonempty, Bool.false_eq_true, if_false]
  by_cases ok₁ : (r.sendPending t).1 = .ok true
  · rw [thenSend_of_ok _ _ _ _ ok₁] at blocked ⊢
    by_cases ok₂ : (((r.sendPending t).2.1.sealOther framing).sendPending (r.sendPending t).2.2).1 =
        .ok true
    · rw [thenSend_of_ok _ _ _ _ ok₂] at blocked ⊢
      exact .inl (place_blocked blocked).2.1
    · rw [(thenSend_of_ne _ _ _ _ ok₂).1, sendPending_openRegion]
      rcases sealOther_openRegion (r.sendPending t).2.1 framing with shut | same
      · exact .inl shut
      · exact .inr (by rw [same, sendPending_openRegion])
  · rw [(thenSend_of_ne _ _ _ _ ok₁).1, sendPending_openRegion]
    exact .inr rfl

end FrameRing

/-! ## Rounds of a writer -/

namespace FrameWriter

open Io

variable {τ σ : Type} [Transport τ]

/-- One round of a write: appends what is left and goes on with the rest, or waits when the ring
blocks. -/
def writeRound (framing : Framing) (rest : List UInt8) : Io τ σ (List UInt8 ⊕ Unit) := do
  if rest.isEmpty then return .inr ()
  match ← Io.ofExcept (← Io.withLink (·.append framing rest)) with
  | .took n => return .inl (rest.drop n)
  | .blocked reason => do
    Io.suspend reason
    return .inl rest

theorem write_eq (framing : Framing) (bytes : List UInt8) :
    write (τ := τ) (σ := σ) framing bytes =
      loopFor Routine.loopBudget (writeRound framing) bytes := rfl

/-- One round of a loop that repeats a link operation until it answers no reason to wait. -/
def untilRound (op : Link τ → Except NetError (Option WaitReason) × Link τ) (_ : Unit) :
    Io τ σ (Unit ⊕ Unit) := do
  match ← Io.ofExcept (← Io.withLink op) with
  | some reason => do
    Io.suspend reason
    return .inl ()
  | none => return .inr ()

omit [Transport τ] in
theorem untilDone_eq (op : Link τ → Except NetError (Option WaitReason) × Link τ) :
    untilDone (τ := τ) (σ := σ) op = loopFor Routine.loopBudget (untilRound op) () := rfl

theorem run_write_nil (framing : Framing) (rounds : Nat) (w : Conn τ σ) :
    (loopFor (rounds + 1) (writeRound framing) []).run w = .done (.ok ()) w := rfl

theorem run_write_took {framing : Framing} {rest : List UInt8} (offered : rest ≠ [])
    {w : Conn τ σ} {n : Nat} (took : (w.link.append framing rest).1 = .ok (.took n))
    (rounds : Nat) :
    (loopFor (rounds + 1) (writeRound framing) rest).run w =
      (loopFor rounds (writeRound framing) (rest.drop n)).run
        { w with link := (w.link.append framing rest).2 } := by
  have full : rest.isEmpty = false := by simpa using offered
  rw [run_loopFor_succ_apply]
  simp [writeRound, full, run_bind_apply, run_withLink, run_ofExcept, took]
  rfl

theorem run_write_blocked {framing : Framing} {rest : List UInt8} (offered : rest ≠ [])
    {w : Conn τ σ} {y : WaitReason} (blocked : (w.link.append framing rest).1 = .ok (.blocked y))
    (rounds : Nat) :
    ∃ k, (loopFor (rounds + 1) (writeRound framing) rest).run w =
        .suspend y { w with link := (w.link.append framing rest).2 } k ∧
      ∀ v, k (.ok ()) v = (loopFor rounds (writeRound framing) rest).run v := by
  have full : rest.isEmpty = false := by simpa using offered
  rw [run_loopFor_succ_apply]
  simp [writeRound, full, run_bind_apply, run_withLink, run_ofExcept, run_suspend, blocked]
  intro v
  rfl

omit [Transport τ] in
theorem run_until_done {op : Link τ → Except NetError (Option WaitReason) × Link τ}
    {w : Conn τ σ} (done : (op w.link).1 = .ok none) (rounds : Nat) :
    (loopFor (rounds + 1) (untilRound op) ()).run w = .done (.ok ()) { w with link := (op w.link).2 } := by
  rw [run_loopFor_succ_apply]
  simp [untilRound, run_bind_apply, run_withLink, run_ofExcept, done]
  rfl

omit [Transport τ] in
theorem run_until_waits {op : Link τ → Except NetError (Option WaitReason) × Link τ}
    {w : Conn τ σ} {y : WaitReason} (waits : (op w.link).1 = .ok (some y)) (rounds : Nat) :
    ∃ k, (loopFor (rounds + 1) (untilRound op) ()).run w =
        .suspend y { w with link := (op w.link).2 } k ∧
      ∀ v, k (.ok ()) v = (loopFor rounds (untilRound op) ()).run v := by
  rw [run_loopFor_succ_apply]
  simp [untilRound, run_bind_apply, run_withLink, run_ofExcept, run_suspend, waits]
  intro v
  rfl

end FrameWriter

/-! ## What writing changes on a link -/

namespace Link

variable {τ : Type}

/-- `l'` is `l` with another ring, transport and armed count: all that writing changes. -/
def Rewrites (l l' : Link τ) : Prop :=
  ∃ ring transport armedAcks, l' = { l with ring, transport, armedAcks }

theorem Rewrites.refl (l : Link τ) : l.Rewrites l := ⟨l.ring, l.transport, l.armedAcks, rfl⟩

theorem Rewrites.trans {l₁ l₂ l₃ : Link τ} (first : l₁.Rewrites l₂) (second : l₂.Rewrites l₃) :
    l₁.Rewrites l₃ := by
  obtain ⟨r, t, a, rfl⟩ := first
  obtain ⟨r', t', a', rfl⟩ := second
  exact ⟨r', t', a', rfl⟩

theorem Rewrites.usable {l l' : Link τ} (rewrites : l.Rewrites l') : l'.usable = l.usable := by
  obtain ⟨r, t, a, rfl⟩ := rewrites
  rfl

variable [Transport τ]

theorem append_rewrites {l : Link τ} (usable : l.usable = .ok ()) (framing : Framing)
    (bytes : List UInt8) : l.Rewrites (l.append framing bytes).2 := by
  rw [append_eq usable]
  split <;> exact ⟨_, _, _, rfl⟩

theorem push_rewrites {l : Link τ} (usable : l.usable = .ok ()) : l.Rewrites l.push.2 := by
  rw [push_eq usable]
  split <;> exact ⟨_, _, _, rfl⟩

theorem flush_rewrites {l : Link τ} (usable : l.usable = .ok ()) : l.Rewrites l.flush.2 := by
  have pushed := push_rewrites usable
  unfold flush
  rcases answer : l.push with ⟨r, l'⟩
  rw [answer] at pushed
  rcases r with e | _ | y
  · exact pushed
  · dsimp only
    split
    · exact pushed.trans ⟨_, _, _, rfl⟩
    · exact pushed
  · exact pushed

/-- An append on a usable link that takes nothing of a nonempty offer leaves no region open. -/
theorem append_took_zero {l : Link τ} (usable : l.usable = .ok ()) {framing : Framing}
    {bytes : List UInt8} (offered : bytes ≠ []) (took : (l.append framing bytes).1 = .ok (.took 0)) :
    (l.append framing bytes).2.ring.openRegion = none := by
  obtain ⟨result, ring, -⟩ := append_parts usable framing bytes
  rw [ring]
  exact FrameRing.append_took_zero offered (result ▸ took)

/-- An append on a usable link with no region open takes a byte of a nonempty offer, or waits. -/
theorem append_took_pos {l : Link τ} (usable : l.usable = .ok ()) {framing : Framing}
    {bytes : List UInt8} (closed : l.ring.openRegion = none) (offered : bytes ≠ [])
    (limit : 1 ≤ l.ring.maxPayload) {n : Nat} (took : (l.append framing bytes).1 = .ok (.took n)) :
    1 ≤ n := by
  obtain ⟨result, -, -⟩ := append_parts usable framing bytes
  exact FrameRing.append_took_pos closed offered limit (result ▸ took)

/-- An append on a usable link that waits opens no region. -/
theorem append_blocked_open {l : Link τ} (usable : l.usable = .ok ()) {framing : Framing}
    {bytes : List UInt8} {y : WaitReason} (blocked : (l.append framing bytes).1 = .ok (.blocked y)) :
    (l.append framing bytes).2.ring.openRegion = none ∨
      (l.append framing bytes).2.ring.openRegion = l.ring.openRegion := by
  obtain ⟨result, ring, -⟩ := append_parts usable framing bytes
  rw [ring]
  exact FrameRing.append_blocked_open (result ▸ blocked)

end Link

/-! ## The rounds a write loop may still take -/

namespace FrameWriter

variable {τ : Type} [Transport τ]

/-- The rounds a write loop on `rest` may still take on a link: two for each byte, and one to seal
a region left open. -/
def roundsFor (l : Link τ) (rest : List UInt8) : Nat :=
  2 * rest.length + if l.ring.openRegion.isSome then 1 else 0

/-- A round that takes bytes leaves fewer rounds to take: a round that takes nothing sealed the
region left open, and with none open a round takes a byte. -/
theorem roundsFor_took {l : Link τ} (usable : l.usable = .ok ()) {framing : Framing}
    {rest : List UInt8} (offered : rest ≠ []) (limit : 1 ≤ l.ring.maxPayload) {n : Nat}
    (took : (l.append framing rest).1 = .ok (.took n)) :
    roundsFor (l.append framing rest).2 (rest.drop n) < roundsFor l rest := by
  have length : 1 ≤ rest.length := List.length_pos_iff.mpr offered
  unfold roundsFor
  rcases Nat.eq_zero_or_pos n with rfl | taken
  · have closed := Link.append_took_zero usable offered took
    have wasOpen : l.ring.openRegion.isSome = true := by
      rcases opened : l.ring.openRegion with _ | o
      · exact absurd (Link.append_took_pos usable opened offered limit took) (by omega)
      · rfl
    simp only [closed, Option.isSome_none, Bool.false_eq_true, if_false, wasOpen, if_true,
      List.drop_zero]
    omega
  · rw [List.length_drop]
    split_ifs <;> omega

/-- A round that waits leaves no more rounds to take. -/
theorem roundsFor_blocked {l : Link τ} (usable : l.usable = .ok ()) {framing : Framing}
    {rest : List UInt8} {y : WaitReason} (blocked : (l.append framing rest).1 = .ok (.blocked y)) :
    roundsFor (l.append framing rest).2 rest ≤ roundsFor l rest := by
  unfold roundsFor
  rcases Link.append_blocked_open usable blocked with closed | same
  · simp only [closed, Option.isSome_none, Bool.false_eq_true, if_false]
    omega
  · rw [same]

end FrameWriter

end WebSocketCore
