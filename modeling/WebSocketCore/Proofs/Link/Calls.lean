import Mathlib
import WebSocketCore.Proofs.Session.Waits

/-! # The calls a link makes on its transport

A transport wrapped in `Traced` logs every call made on it: sends, reports of consumed bytes and
closes. The ring only ever sends, so an append or a finish on a traced transport adds sends to
the log and nothing else.

The task changes its link only through its own operations (`Link.TaskStep`): consuming queued
bytes, appending, pushing and flushing. They leave alone what the callbacks own (whether the link
holds the transport, the error, the idle count) and the count of bytes received and not yet
reported, queued or consumed; they add only sends to the log, and only while the link is usable.
Reporting consumed bytes adds one report when there are any and the link holds the transport;
closing does that and then closes a transport the link holds, which it holds no more.
-/

namespace WebSocketCore

/-- A call a link makes on its transport. -/
inductive TransportCall where
  /-- Bytes handed over; `more` says that the message goes on. -/
  | send (bytes : List UInt8) (more : Bool)
  /-- A report that the application consumed `len` inbound bytes. -/
  | recved (len : Nat)
  | close

namespace TransportCall

/-- The call hands bytes over. -/
def isSend : TransportCall → Bool
  | .send _ _ => true
  | _ => false

/-- The amount a report of consumed bytes carries. -/
def reported : TransportCall → Option Nat
  | .recved len => some len
  | _ => none

/-- The call closes the transport. -/
def isClose : TransportCall → Bool
  | .close => true
  | _ => false

/-- Sends carry no report. -/
theorem filterMap_reported_of_sends {more : List TransportCall}
    (only : ∀ c ∈ more, c.isSend = true) : more.filterMap reported = [] := by
  refine List.filterMap_eq_nil_iff.mpr fun c mem => ?_
  have send := only c mem
  cases c <;> simp_all [isSend, reported]

/-- Sends close nothing. -/
theorem countP_isClose_of_sends {more : List TransportCall} (only : ∀ c ∈ more, c.isSend = true) :
    more.countP isClose = 0 := by
  refine List.countP_eq_zero.mpr fun c mem => ?_
  have send := only c mem
  cases c <;> simp_all [isSend, isClose]

end TransportCall

/-- A transport that logs every call made on it, oldest first. -/
structure Traced (τ : Type) where
  inner : τ
  calls : List TransportCall := []

namespace Traced

variable {τ : Type}

/-- The amounts reported as consumed, oldest first. -/
def reports (t : Traced τ) : List Nat := t.calls.filterMap TransportCall.reported

/-- How many times the transport was closed. -/
def closes (t : Traced τ) : Nat := t.calls.countP TransportCall.isClose

/-- The sends made on the transport, oldest first. -/
def sends (t : Traced τ) : List TransportCall := t.calls.filter TransportCall.isSend

/-- `t'` is `t` after some sends: its log is `t`'s followed by sends only. -/
def AddsSends (t t' : Traced τ) : Prop :=
  ∃ more, t'.calls = t.calls ++ more ∧ ∀ c ∈ more, c.isSend = true

@[refl] theorem AddsSends.refl (t : Traced τ) : t.AddsSends t := ⟨[], by simp, by simp⟩

@[trans] theorem AddsSends.trans {t₁ t₂ t₃ : Traced τ} (first : t₁.AddsSends t₂)
    (second : t₂.AddsSends t₃) : t₁.AddsSends t₃ := by
  obtain ⟨more₁, log₁, sends₁⟩ := first
  obtain ⟨more₂, log₂, sends₂⟩ := second
  refine ⟨more₁ ++ more₂, by rw [log₂, log₁, List.append_assoc], fun c mem => ?_⟩
  rcases List.mem_append.mp mem with early | late
  · exact sends₁ c early
  · exact sends₂ c late

/-- The reports of a log grown by `more`. -/
theorem reports_eq_of_calls {t t' : Traced τ} {more : List TransportCall}
    (log : t'.calls = t.calls ++ more) :
    t'.reports = t.reports ++ more.filterMap TransportCall.reported := by
  simp [reports, log, List.filterMap_append]

/-- Sends leave the reports and the closes as they were. -/
theorem AddsSends.reports_eq {t t' : Traced τ} (sent : t.AddsSends t') : t'.reports = t.reports := by
  obtain ⟨more, log, only⟩ := sent
  simp [reports, log, List.filterMap_append, TransportCall.filterMap_reported_of_sends only]

theorem AddsSends.closes_eq {t t' : Traced τ} (sent : t.AddsSends t') : t'.closes = t.closes := by
  obtain ⟨more, log, only⟩ := sent
  simp [closes, log, List.countP_append, TransportCall.countP_isClose_of_sends only]

variable [Transport τ]

instance : Transport (Traced τ) where
  sendCapacity t := Transport.sendCapacity t.inner
  send t s more :=
    let (inner, ok) := Transport.send t.inner s more
    (⟨inner, t.calls ++ [.send s.bytes more]⟩, ok)
  recved t len := ⟨Transport.recved t.inner len, t.calls ++ [.recved len]⟩
  close t := let (inner, ok) := Transport.close t.inner; (⟨inner, t.calls ++ [.close]⟩, ok)

@[simp] theorem send_calls (t : Traced τ) (s : Slice) (more : Bool) :
    (Transport.send t s more).1.calls = t.calls ++ [.send s.bytes more] := rfl

@[simp] theorem recved_calls (t : Traced τ) (len : Nat) :
    (Transport.recved t len).calls = t.calls ++ [.recved len] := rfl

@[simp] theorem close_calls (t : Traced τ) : (Transport.close t).1.calls = t.calls ++ [.close] :=
  rfl

end Traced

/-! ## The ring only sends -/

namespace FrameRing

variable {τ : Type} [Transport τ]

theorem sendPending_addsSends (r : FrameRing) (t : Traced τ) : t.AddsSends (r.sendPending t).2.2 := by
  unfold sendPending
  rcases r.pending with _ | p
  · rfl
  · dsimp only
    split_ifs
    · rfl
    · -- the one call is the send of the pending region
      have sent : t.AddsSends (Transport.send t (r.pendingSlice p) p.more).1 :=
        ⟨[_], Traced.send_calls _ _ _, by simp [TransportCall.isSend]⟩
      rcases taken : Transport.send t (r.pendingSlice p) p.more with ⟨t', ok⟩
      rw [taken] at sent
      cases ok <;> exact sent

/-- A send followed by a continuation that only sends only sends. -/
theorem thenSend_addsSends {α : Type} (r : FrameRing) (t : Traced τ) (stalled : α)
    {k : FrameRing → Traced τ → RingOutcome (Traced τ) α}
    (next : ∀ r' t', t.AddsSends t' → t.AddsSends (k r' t').transport) :
    t.AddsSends (r.thenSend t stalled k).transport := by
  have sent := sendPending_addsSends r t
  unfold thenSend
  rcases pending : r.sendPending t with ⟨result, r', t'⟩
  rw [pending] at sent
  rcases result with e | (_ | _)
  · exact sent
  · exact sent
  · exact next r' t' sent

theorem fillOpen_addsSends (r : FrameRing) (t : Traced τ) (o : OpenRegion) (bytes : List UInt8) :
    t.AddsSends (r.fillOpen t o bytes).transport := by
  unfold fillOpen
  dsimp only
  split_ifs
  · exact thenSend_addsSends _ t _ fun _ _ sent => sent
  · rfl

theorem place_addsSends (r : FrameRing) (t : Traced τ) (framing : Framing) (bytes : List UInt8) :
    t.AddsSends (r.place t framing bytes).transport := by
  unfold place
  split
  · exact fillOpen_addsSends r t _ bytes
  · dsimp only
    split
    · rfl
    · split
      · exact fillOpen_addsSends _ t _ bytes
      · rfl

theorem append_addsSends (r : FrameRing) (t : Traced τ) (framing : Framing) (bytes : List UInt8) :
    t.AddsSends (r.append t framing bytes).transport := by
  unfold append
  split
  · rfl
  · exact thenSend_addsSends r t _ fun _ t₁ sent₁ => sent₁.trans
      (thenSend_addsSends _ t₁ _ fun _ t₂ sent₂ => sent₂.trans (place_addsSends _ t₂ _ _))

theorem finish_addsSends (r : FrameRing) (t : Traced τ) : t.AddsSends (r.finish t).transport := by
  unfold finish
  exact thenSend_addsSends r t _ fun _ t₁ sent₁ => sent₁.trans
    (thenSend_addsSends _ t₁ _ fun _ _ sent₂ => sent₂)

end FrameRing

/-! ## The task's own operations -/

namespace Link

variable {τ : Type}

/-- What the task's operations leave alone: whether the link holds the transport, the error, the
idle count and limit, and how many bytes were received and not yet reported. -/
structure Frame (l l' : Link τ) : Prop where
  attached : l'.attached = l.attached
  error : l'.error = l.error
  idlePolls : l'.idlePolls = l.idlePolls
  idleLimit : l'.idleLimit = l.idleLimit
  unreported : l'.credit + l'.inbound.length = l.credit + l.inbound.length

@[refl] theorem Frame.refl (l : Link τ) : Frame l l := ⟨rfl, rfl, rfl, rfl, rfl⟩

@[trans] theorem Frame.trans {l₁ l₂ l₃ : Link τ} (first : Frame l₁ l₂) (second : Frame l₂ l₃) :
    Frame l₁ l₃ :=
  ⟨second.attached.trans first.attached, second.error.trans first.error,
    second.idlePolls.trans first.idlePolls, second.idleLimit.trans first.idleLimit,
    second.unreported.trans first.unreported⟩

theorem frame_consume (l : Link τ) (n : Nat) : Frame l (l.consume n) := by
  refine ⟨rfl, rfl, rfl, rfl, ?_⟩
  simp only [consume, List.length_drop, List.length_take]
  omega

/-- A link made for a valid configuration holds the transport it was made with, has taken
nothing in, consumed nothing, seen no error and no poll, and times out after the configuration's
idle polls. -/
theorem new_fresh {t : τ} {config : Config} {ringSize inboundCap : Nat} {l : Link τ}
    (made : Link.new t config ringSize inboundCap = .ok l) :
    l.transport = t ∧ l.attached = true ∧ l.credit = 0 ∧ l.inbound = [] ∧ l.error = none ∧
      l.idlePolls = 0 ∧ l.idleLimit = config.idleTimeoutPolls := by
  unfold Link.new at made
  rcases valid : config.validate with e | u
  · rw [valid] at made
    cases made
  · rw [valid] at made
    by_cases small : ringSize < minRingSize ∨ inboundCap = 0
    · simp [small] at made
      cases made
    · simp [small] at made
      subst made
      exact ⟨rfl, rfl, rfl, rfl, rfl, rfl, rfl⟩

/-- Whether the link is usable is its error and whether it holds the transport. -/
theorem usable_eq_ok_iff (l : Link τ) : l.usable = .ok () ↔ l.error = none ∧ l.attached = true := by
  unfold usable
  rcases l.error with _ | e
  · cases l.attached <;> simp
  · simp

/-- Links that agree on the frame are usable alike. -/
theorem Frame.usable_iff {l l' : Link τ} (frame : Frame l l') :
    l'.usable = .ok () ↔ l.usable = .ok () := by
  rw [usable_eq_ok_iff, usable_eq_ok_iff, frame.error, frame.attached]

variable [Transport τ]

@[simp] theorem settle_credit (l : Link τ) : l.settle.credit = 0 := by
  unfold settle
  split_ifs with none <;> simp [none]

@[simp] theorem settle_attached (l : Link τ) : l.settle.attached = l.attached := by
  unfold settle
  split_ifs <;> rfl

@[simp] theorem settle_error (l : Link τ) : l.settle.error = l.error := by
  unfold settle
  split_ifs <;> rfl

@[simp] theorem settle_inbound (l : Link τ) : l.settle.inbound = l.inbound := by
  unfold settle
  split_ifs <;> rfl

@[simp] theorem settle_idlePolls (l : Link τ) : l.settle.idlePolls = l.idlePolls := by
  unfold settle
  split_ifs <;> rfl

@[simp] theorem settle_idleLimit (l : Link τ) : l.settle.idleLimit = l.idleLimit := by
  unfold settle
  split_ifs <;> rfl

/-- The task's own operations on its link: consuming queued bytes, appending, pushing and
flushing. -/
inductive TaskStep : Link τ → Link τ → Prop
  | consume (l : Link τ) (n : Nat) : TaskStep l (l.consume n)
  | append (l : Link τ) (framing : Framing) (bytes : List UInt8) : TaskStep l (l.append framing bytes).2
  | push (l : Link τ) : TaskStep l l.push.2
  | flush (l : Link τ) : TaskStep l l.flush.2

/-- The task's own operations, one after another. -/
abbrev TaskSteps : Link τ → Link τ → Prop := Relation.ReflTransGen TaskStep

theorem frame_append (l : Link τ) (framing : Framing) (bytes : List UInt8) :
    Frame l (l.append framing bytes).2 := by
  rcases usable_cases l with ⟨e, broken⟩ | usable
  · simp only [append, broken]
    rfl
  · rw [append_eq usable]
    split
    · exact ⟨rfl, rfl, rfl, rfl, rfl⟩
    · exact ⟨rfl, rfl, rfl, rfl, rfl⟩

theorem frame_push (l : Link τ) : Frame l l.push.2 := by
  rcases usable_cases l with ⟨e, broken⟩ | usable
  · simp only [push, broken]
    rfl
  · rw [push_eq usable]
    split
    · exact ⟨rfl, rfl, rfl, rfl, rfl⟩
    · exact ⟨rfl, rfl, rfl, rfl, rfl⟩

theorem frame_flush (l : Link τ) : Frame l l.flush.2 := by
  have pushed := frame_push l
  unfold flush
  rcases answer : l.push with ⟨r, l'⟩
  rw [answer] at pushed
  rcases r with e | _ | y
  · exact pushed
  · dsimp only
    split
    · exact pushed.trans ⟨rfl, rfl, rfl, rfl, rfl⟩
    · exact pushed
  · exact pushed

theorem TaskStep.frame {l l' : Link τ} (step : TaskStep l l') : Frame l l' := by
  cases step with
  | consume n => exact frame_consume _ n
  | append framing bytes => exact frame_append _ framing bytes
  | push => exact frame_push _
  | flush => exact frame_flush _

theorem TaskSteps.frame {l l' : Link τ} (steps : TaskSteps l l') : Frame l l' := by
  induction steps with
  | refl => rfl
  | tail _ step ih => exact ih.trans step.frame

/-! ## What the task's operations and the link's own changes log -/

theorem append_addsSends (l : Link (Traced τ)) (framing : Framing) (bytes : List UInt8) :
    l.transport.AddsSends (l.append framing bytes).2.transport ∧
      (l.usable ≠ .ok () → (l.append framing bytes).2.transport = l.transport) := by
  rcases usable_cases l with ⟨e, broken⟩ | usable
  · have unchanged : (l.append framing bytes).2 = l := by simp only [append, broken]
    rw [unchanged]
    exact ⟨.refl _, fun _ => rfl⟩
  · refine ⟨?_, fun unusable => absurd usable unusable⟩
    have sent := FrameRing.append_addsSends l.ring l.transport framing bytes
    rw [append_eq usable]
    split
    · exact sent
    · exact sent

theorem push_addsSends (l : Link (Traced τ)) :
    l.transport.AddsSends l.push.2.transport ∧ (l.usable ≠ .ok () → l.push.2.transport = l.transport) := by
  rcases usable_cases l with ⟨e, broken⟩ | usable
  · have unchanged : l.push.2 = l := by simp only [push, broken]
    rw [unchanged]
    exact ⟨.refl _, fun _ => rfl⟩
  · refine ⟨?_, fun unusable => absurd usable unusable⟩
    have sent := FrameRing.finish_addsSends l.ring l.transport
    rw [push_eq usable]
    split
    · exact sent
    · exact sent

theorem flush_addsSends (l : Link (Traced τ)) :
    l.transport.AddsSends l.flush.2.transport ∧ (l.usable ≠ .ok () → l.flush.2.transport = l.transport) := by
  have pushed := push_addsSends l
  unfold flush
  rcases answer : l.push with ⟨r, l'⟩
  rw [answer] at pushed
  rcases r with e | _ | y
  · exact pushed
  · dsimp only
    split
    · exact pushed
    · exact pushed
  · exact pushed

/-- The task's operations add only sends to the log, and none while the link is not usable. -/
theorem TaskStep.addsSends {l l' : Link (Traced τ)} (step : TaskStep l l') :
    l.transport.AddsSends l'.transport ∧ (l.usable ≠ .ok () → l'.transport = l.transport) := by
  cases step with
  | consume n => exact ⟨.refl _, fun _ => rfl⟩
  | append framing bytes => exact append_addsSends _ framing bytes
  | push => exact push_addsSends _
  | flush => exact flush_addsSends _

theorem TaskSteps.addsSends {l l' : Link (Traced τ)} (steps : TaskSteps l l') :
    l.transport.AddsSends l'.transport ∧ (l.usable ≠ .ok () → l'.transport = l.transport) := by
  induction steps with
  | refl => exact ⟨.refl _, fun _ => rfl⟩
  | @tail l₁ l₂ steps step ih =>
    -- the link stays unusable along the way, since the frame keeps its error and transport
    obtain ⟨sent, kept⟩ := step.addsSends
    refine ⟨ih.1.trans sent, fun unusable => ?_⟩
    have still : l₁.usable ≠ .ok () := fun usable => unusable ((TaskSteps.frame steps).usable_iff.mp usable)
    exact (kept still).trans (ih.2 unusable)

/-- Reporting consumed bytes logs one report of them, when there are any and the link holds the
transport, and forgets them. -/
theorem settle_calls (l : Link (Traced τ)) :
    l.settle.transport.calls =
      l.transport.calls ++ (if l.credit ≠ 0 ∧ l.attached = true then [.recved l.credit] else []) := by
  unfold settle
  by_cases none : l.credit = 0
  · simp [none]
  · cases attached : l.attached <;> simp [none]

/-- Closing reports the consumed bytes, then closes the transport if the link holds it; the link
holds it no more, and records `notOpen` unless an error is recorded. -/
theorem close_calls (l : Link (Traced τ)) :
    l.close.2.transport.calls = l.settle.transport.calls ++ (if l.attached then [.close] else []) := by
  cases held : l.attached <;> simp [close, noteError, held]

@[simp] theorem close_attached (l : Link τ) : l.close.2.attached = false := by
  cases held : l.attached <;> simp [close, noteError, held]

@[simp] theorem close_error (l : Link τ) : l.close.2.error = (l.error <|> some .notOpen) := by
  cases held : l.attached <;> simp [close, noteError, held]

@[simp] theorem close_credit (l : Link τ) : l.close.2.credit = 0 := by
  cases held : l.attached <;> simp [close, noteError, held]

@[simp] theorem close_inbound (l : Link τ) : l.close.2.inbound = l.inbound := by
  cases held : l.attached <;> simp [close, noteError, held]

@[simp] theorem close_idlePolls (l : Link τ) : l.close.2.idlePolls = l.idlePolls := by
  cases held : l.attached <;> simp [close, noteError, held]

@[simp] theorem close_idleLimit (l : Link τ) : l.close.2.idleLimit = l.idleLimit := by
  cases held : l.attached <;> simp [close, noteError, held]

end Link

end WebSocketCore
