import Mathlib
import WebSocketCore.Proofs.Session.ReceiveCredit

/-! # Teardown is prompt and closes the transport once

A session, resumed with an error at any of its waits, closes the link at once, when its service
passes errors on (`Session.run_endsOnError`); so does every rest the lock parks
(`Session.ClosesOnError`). A callback that brings an error (the peer's close, a transport error,
or a poll that finds the link idle for its limit) resumes a live task with that error at its first
notification, and the task has finished when the callback returns, the link's first error being
the one the callback brought unless one was recorded before.

Between callbacks the connection is orderly (`Connection.Orderly`): nothing consumed is left
unreported, a live task's link holds a transport nobody closed, and the transport was closed at
most once, as its last call, after which the link let it go (`Link.ClosedLast`). A transport
error lets the transport go with no call, and a finished task is never resumed again: its
callbacks only change the link's bookkeeping. So over a whole run the transport is closed at
most once and never after a transport error that came while the task lived, and exactly once
when the task finished otherwise, unless the lock reported that it stalled:
`Connection.session_teardown`.
-/

namespace WebSocketCore

namespace Link

variable {τ : Type}

/-- With an idle limit, a poll counts one more poll without traffic, stopping at the largest
count. -/
theorem onPoll_idlePolls {l : Link τ} {limit : UInt16} (set : l.idleLimit = some limit) :
    l.onPoll.1.idlePolls = if l.idlePolls = 65535 then 65535 else l.idlePolls + 1 := by
  unfold onPoll
  rw [set]
  dsimp only
  split_ifs <;> rfl

/-- A poll that finds the link idle for its limit records the timeout, unless an error was
recorded before, and answers the link's error. -/
theorem onPoll_of_due {l : Link τ} {limit : UInt16} (set : l.idleLimit = some limit)
    (due : limit.toNat ≤ l.idlePolls.toNat + 1) :
    l.onPoll.1.error = (l.error <|> some NetError.timeout) ∧ l.onPoll.2 = (l.error <|> some NetError.timeout) := by
  have reached : ¬(if l.idlePolls = 65535 then 65535 else l.idlePolls + 1) < limit := by
    rw [UInt16.lt_iff_toNat_lt]
    split_ifs with full
    · exact Nat.not_lt.mpr (Nat.le_of_lt_succ limit.toNat_lt)
    · have room : l.idlePolls.toNat ≠ 65535 := fun e => full (UInt16.toNat_inj.mp (by simpa using e))
      have bound := l.idlePolls.toNat_lt
      rw [UInt16.toNat_add]
      simp only [UInt16.reduceToNat, Nat.reducePow]
      omega
  unfold onPoll
  rw [set]
  dsimp only
  rw [if_neg reached]
  exact ⟨rfl, rfl⟩

/-- The idle count after a poll, as a number: one more, up to the largest count. -/
theorem onPoll_idlePolls_toNat {l : Link τ} {limit : UInt16} (set : l.idleLimit = some limit)
    {quiet : Nat} (counts : l.idlePolls.toNat = min quiet 65535) :
    l.onPoll.1.idlePolls.toNat = min (quiet + 1) 65535 := by
  rw [onPoll_idlePolls set]
  split_ifs with full
  · rw [full] at counts
    simp only [UInt16.reduceToNat] at counts ⊢
    omega
  · have room : l.idlePolls.toNat ≠ 65535 := fun e => full (UInt16.toNat_inj.mp (by simpa using e))
    have bound := l.idlePolls.toNat_lt
    rw [UInt16.toNat_add]
    simp only [UInt16.reduceToNat, Nat.reducePow]
    omega

/-- The transport was never closed, or closed once as its last call, after which the link let it
go. -/
def ClosedLast (l : Link (Traced τ)) : Prop :=
  l.transport.closes = 0 ∨ l.attached = false ∧
    ∃ before, l.transport.calls = before ++ [TransportCall.close] ∧ before.countP TransportCall.isClose = 0

theorem ClosedLast.closes_le_one {l : Link (Traced τ)} (closed : l.ClosedLast) : l.transport.closes ≤ 1 := by
  rcases closed with never | ⟨-, before, calls, none⟩
  · omega
  · simp [Traced.closes, calls, List.countP_append, none, TransportCall.isClose]

/-- Nothing is called after a close. -/
theorem ClosedLast.last {l : Link (Traced τ)} (closed : l.ClosedLast) {before after : List TransportCall}
    (calls : l.transport.calls = before ++ TransportCall.close :: after) : after = [] := by
  rcases closed with never | ⟨-, first, calls', none⟩
  · simp [Traced.closes, calls, List.countP_append, TransportCall.isClose] at never
  · -- a later call would be the last one, a close, and then there would be two
    by_contra more
    obtain ⟨rest, last, rfl⟩ := List.eq_nil_or_concat after |>.resolve_left more
    have shapes : first ++ [.close] = (before ++ .close :: rest) ++ [last] := by
      rw [← calls', calls]
      simp
    obtain ⟨front, -⟩ := List.append_inj' shapes rfl
    rw [front] at none
    simp [List.countP_append, TransportCall.isClose] at none

variable [Transport τ]

theorem settle_eq_self {l : Link τ} (settled : l.credit = 0) : l.settle = l := by
  simp [settle, settled]

/-- Closing keeps an error recorded before. -/
theorem close_error_of_isSome {l : Link τ} (noted : l.error.isSome = true) : l.close.2.error = l.error := by
  obtain ⟨e, recorded⟩ := Option.isSome_iff_exists.mp noted
  simp [recorded]

/-- A link that has let the transport go makes no call on it when it reports. -/
theorem settle_of_detached {l : Link τ} (free : l.attached = false) : l.settle.transport = l.transport := by
  unfold settle
  split_ifs <;> simp_all

/-- A link that has let the transport go makes no call on it when it closes. -/
theorem close_of_detached {l : Link τ} (free : l.attached = false) : l.close.2.transport = l.transport := by
  simp [close, noteError, free, settle_of_detached free]

theorem TaskSteps.closes_eq {l l' : Link (Traced τ)} (steps : TaskSteps l l') :
    l'.transport.closes = l.transport.closes :=
  steps.addsSends.1.closes_eq

theorem settle_closes (l : Link (Traced τ)) : l.settle.transport.closes = l.transport.closes := by
  simp only [Traced.closes, settle_calls, List.countP_append]
  split_ifs <;> simp [TransportCall.isClose]

/-- Closing calls close once if the link holds the transport, and never otherwise. -/
theorem close_closes (l : Link (Traced τ)) :
    l.close.2.transport.closes = l.transport.closes + if l.attached then 1 else 0 := by
  have settled := settle_closes l
  simp only [Traced.closes] at settled ⊢
  rw [close_calls, List.countP_append, settled]
  split_ifs <;> simp [TransportCall.isClose]

theorem ClosedLast.settle {l : Link (Traced τ)} (closed : l.ClosedLast) : l.settle.ClosedLast := by
  rcases closed with never | ⟨free, once⟩
  · exact .inl ((settle_closes l).trans never)
  · exact .inr ⟨by simp [free], by rw [settle_of_detached free]; exact once⟩

/-- Closing a transport nobody closed closes it last. -/
theorem closedLast_close {l : Link (Traced τ)} (never : l.transport.closes = 0) : l.close.2.ClosedLast := by
  cases held : l.attached
  · refine .inl ?_
    rw [close_closes, never, held]
    rfl
  · refine .inr ⟨close_attached l, l.settle.transport.calls, by simp [close_calls, held], ?_⟩
    rw [← Traced.closes, settle_closes, never]

end Link

namespace Callback

variable {τ : Type}

/-- The polls without traffic after a callback, from `quiet` before it: received bytes and
acknowledgements start the count again, a poll adds one, and the peer's close and a transport
error leave it as it was. -/
def quietAfter (quiet : Nat) : Callback → Nat
  | .recv _ | .sent _ => 0
  | .poll => quiet + 1
  | .closed | .error _ => quiet

/-- The polls since the last traffic, over callbacks handled from the start. -/
def quietPolls (callbacks : List Callback) : Nat := callbacks.foldl quietAfter 0

theorem quietPolls_append_poll (callbacks : List Callback) :
    quietPolls (callbacks ++ [Callback.poll]) = quietPolls callbacks + 1 := by
  simp [quietPolls, quietAfter]

theorem change_closedLast (callback : Callback) {l : Link (Traced τ)} (closed : l.ClosedLast) :
    (callback.change l).ClosedLast := by
  rcases closed with never | ⟨free, once⟩
  · exact .inl (by rw [change_transport]; exact never)
  · exact .inr ⟨change_detached callback free, by rw [change_transport]; exact once⟩

/-- With an idle limit, the idle count after a callback is the polls without traffic after it,
up to the largest count. -/
theorem change_idlePolls (callback : Callback) {l : Link τ} {limit : UInt16}
    (set : l.idleLimit = some limit) {quiet : Nat} (counts : l.idlePolls.toNat = min quiet 65535) :
    (callback.change l).idlePolls.toNat = min (callback.quietAfter quiet) 65535 := by
  cases callback with
  | recv bytes => rfl
  | sent len => rfl
  | poll => exact Link.onPoll_idlePolls_toNat set counts
  | closed => exact counts
  | error e => exact counts

end Callback

namespace Session

variable {τ σ : Type} [Transport τ]

/-- A rest of a session that, resumed with an error, is done at once with the link it was
resumed on closed, and is so again after every resumption with success. -/
def ClosesOnError (k : Wake → Conn τ σ → Progress (Conn τ σ) WaitReason Wake Unit) : Prop :=
  Progress.EndsAtError (fun w' _ w'' => w''.link = w'.link.close.2) k ∧
    ∀ w, (k (.ok ()) w).EndsOnError fun w' _ w'' => w''.link = w'.link.close.2

/-- What the lock parks of a session whose service passes errors on closes on errors. -/
theorem run_parked_closesOnError (accept : List UInt8 → List UInt8) (config : Config)
    (page : List UInt8) {service : Service τ σ}
    (propagates : ∀ ws, Io.PassesErrors (service ws)) (w : Conn τ σ)
    {k : Wake → Conn τ σ → Progress (Conn τ σ) WaitReason Wake Unit}
    (held : (IoLock.drive (run accept config page service w)).2.1.parked = some k) : ClosesOnError k :=
  IoLock.drive_parked_endsOnError (run_endsOnError accept config page propagates w) held

/-- A drive of a resumption of a rest that closes on errors parks, if anything, a rest that
closes on errors: resumed with an error, the rest is done and nothing is parked. -/
theorem ClosesOnError.drive {k : Wake → Conn τ σ → Progress (Conn τ σ) WaitReason Wake Unit}
    (closes : ClosesOnError k) (v : Wake) (w : Conn τ σ)
    {k' : Wake → Conn τ σ → Progress (Conn τ σ) WaitReason Wake Unit}
    (held : (IoLock.drive (k v w)).2.1.parked = some k') : ClosesOnError k' := by
  cases v with
  | error e =>
    obtain ⟨a, w'', done, -⟩ := closes.1 e w
    rw [done, IoLock.drive_done] at held
    cases held
  | ok u => exact IoLock.drive_parked_endsOnError (closes.2 w) held

end Session

namespace Connection

variable {τ σ : Type}

@[simp] theorem mapLink_isFinished (c : Connection τ σ) (f : Link τ → Link τ) :
    (c.mapLink f).isFinished = c.isFinished := rfl

variable [Transport τ]

/-- A walk that brings an error to a live, steady connection whose parked task closes on errors
resumes the task with it at the first notification: the task closes the link and has finished,
and the rest of the walk leaves it alone. -/
theorem Steady.wakeFrom_error {fin : Link τ → Link τ} {c : Connection τ σ} (steady : c.Steady fin)
    (rest : ∀ k, c.lock.parked = some k → Session.ClosesOnError k) (live : c.isFinished = false)
    (e : NetError) (r : WaitReason) (rs : List WaitReason) :
    (c.wakeFrom (some e) (r :: rs)).isFinished = true ∧
      (c.wakeFrom (some e) (r :: rs)).world.link = c.world.link.close.2 := by
  obtain ⟨k, held, quiet, -⟩ := steady.parked live
  have notified := IoLock.notify_of_held held steady.idle live r (some e)
  simp only [Conn.lockState_eq, quiet] at notified
  have resumes : c.world.lock.waiting = r ∨ (none <|> some e).isSome = true := .inr rfl
  rw [if_pos resumes] at notified
  obtain ⟨a, w'', resumed, closed⟩ :=
    (rest k held).1 e (LockWorld.setLockState c.world c.world.lock.handOver)
  have resumed' : k ((none <|> some e).elim (.ok ()) .error)
      (LockWorld.setLockState c.world c.world.lock.handOver) = .done a w'' := resumed
  have retired : (⟨{}, IoLock.mapLock w'' LockState.retired⟩ : Connection τ σ).isFinished = true := rfl
  rw [wakeFrom_cons_of_notified rs rfl, notified, resumed', IoLock.drive_done]
  simp only [Prod.map_snd, id_eq]
  rw [wakeFrom_of_finished retired]
  exact ⟨rfl, closed⟩

/-- A walk of a session leaves the idle count and limit as they were. -/
theorem Woke.idle {c c' : Connection τ σ} {answers : List (Except TaskError Bool)}
    (woke : Woke (fun l => l.close.2) c answers c') :
    c'.world.link.idlePolls = c.world.link.idlePolls ∧ c'.world.link.idleLimit = c.world.link.idleLimit := by
  cases woke with
  | ended _ => exact ⟨rfl, rfl⟩
  | live _ _ steps => exact ⟨(Link.TaskSteps.frame steps).idlePolls, (Link.TaskSteps.frame steps).idleLimit⟩
  | completed _ _ steps last =>
    rw [last, Link.close_idlePolls, Link.close_idleLimit]
    exact ⟨(Link.TaskSteps.frame steps).idlePolls, (Link.TaskSteps.frame steps).idleLimit⟩
  | stalled _ _ steps _ => exact ⟨(Link.TaskSteps.frame steps).idlePolls, (Link.TaskSteps.frame steps).idleLimit⟩

theorem Woke.live_of_live {fin : Link τ → Link τ} {c c' : Connection τ σ}
    {answers : List (Except TaskError Bool)} (woke : Woke fin c answers c') (still : c'.isFinished = false) :
    c.isFinished = false := by
  cases woke with
  | ended _ => exact still
  | live live _ _ => exact live
  | completed _ retired => exact absurd (still.symm.trans retired) Bool.false_ne_true
  | stalled _ retired => exact absurd (still.symm.trans retired) Bool.false_ne_true

/-- A walk that finishes a live task whose link holds a transport nobody closed has closed it
once, unless the lock answered that the task stalled. -/
theorem Woke.closedOnce {c c' : Connection (Traced τ) σ} {answers : List (Except TaskError Bool)}
    (woke : Woke (fun l => l.close.2) c answers c') (live : c.isFinished = false)
    (held : c.world.link.attached = true) (never : c.world.link.transport.closes = 0)
    (finished : c'.isFinished = true) :
    c'.world.link.transport.closes = 1 ∨ .error .foreignPending ∈ answers := by
  cases woke with
  | ended retired => exact absurd (live.symm.trans retired) Bool.false_ne_true
  | live _ still _ => exact absurd (still.symm.trans finished) Bool.false_ne_true
  | completed _ _ steps last =>
    left
    rw [last, Link.close_closes, steps.closes_eq, never, (Link.TaskSteps.frame steps).attached, held]
    rfl
  | stalled _ _ _ stuck => exact .inr stuck

theorem mapLink_settle_of_settled {c : Connection τ σ} (settled : c.world.link.credit = 0) :
    c.mapLink Link.settle = c := by
  have same : c.world.link.settle = c.world.link := Link.settle_eq_self settled
  obtain ⟨lock, ⟨link, ls, app⟩⟩ := c
  exact congrArg (fun l => (⟨lock, ⟨l, ls, app⟩⟩ : Connection τ σ)) same

/-- Between the callbacks of a session's run, on a link with idle limit `limit`, after `quiet`
polls with no traffic: the connection is steady with the session's close as the task's last
change, and a parked rest closes on errors; nothing consumed is left unreported; a live task's
link holds the transport, which nobody closed; the transport was closed at most once, last; and
with a limit, the idle count is the quiet polls, up to the largest count. -/
structure Orderly (c : Connection (Traced τ) σ) (limit : Option UInt16) (quiet : Nat) : Prop where
  steady : c.Steady fun l => l.close.2
  rest : ∀ k, c.lock.parked = some k → Session.ClosesOnError k
  settled : c.world.link.credit = 0
  live : c.isFinished = false → c.world.link.attached = true ∧ c.world.link.transport.closes = 0
  closed : c.world.link.ClosedLast
  idleLimit : c.world.link.idleLimit = limit
  idle : limit = none ∨ c.world.link.idlePolls.toNat = min quiet 65535

/-- A walk of a session, then the report of what the task consumed, leaves the connection
orderly: from a link closed at most once and last, whose transport nobody closed while the task
lived, and which holds the transport if the task still lives after the walk. -/
theorem Orderly.of_woke {c₁ c₂ : Connection (Traced τ) σ} {answers : List (Except TaskError Bool)}
    {limit : Option UInt16} {quiet : Nat} (woke : Woke (fun l => l.close.2) c₁ answers c₂)
    (steady : c₂.Steady fun l => l.close.2) (rest : ∀ k, c₂.lock.parked = some k → Session.ClosesOnError k)
    (fresh : c₁.isFinished = false → c₁.world.link.transport.closes = 0)
    (held : c₂.isFinished = false → c₁.world.link.attached = true) (closed : c₁.world.link.ClosedLast)
    (set : c₁.world.link.idleLimit = limit)
    (idle : limit = none ∨ c₁.world.link.idlePolls.toNat = min quiet 65535) :
    (c₂.mapLink Link.settle).Orderly limit quiet := by
  obtain ⟨polls, same⟩ := woke.idle
  refine ⟨steady.mapLink _, rest, Link.settle_credit _, fun live => ?_, ?_, by simp [same, set],
    by simpa [polls] using idle⟩
  · -- a task still live has only made its own operations, which keep the transport and call no close
    simp only [mapLink_isFinished] at live
    have live₁ := woke.live_of_live live
    cases woke with
    | ended retired => exact absurd (live.symm.trans retired) Bool.false_ne_true
    | live _ _ steps =>
      refine ⟨by simpa [(Link.TaskSteps.frame steps).attached] using held live, ?_⟩
      rw [mapLink_world_link, Link.settle_closes, steps.closes_eq]
      exact fresh live₁
    | completed _ retired => exact absurd (live.symm.trans retired) Bool.false_ne_true
    | stalled _ retired => exact absurd (live.symm.trans retired) Bool.false_ne_true
  · refine Link.ClosedLast.settle ?_
    cases woke with
    | ended _ => exact closed
    | live live₁ _ steps => exact .inl (steps.closes_eq.trans (fresh live₁))
    | completed live₁ _ steps last =>
      rw [last]
      exact Link.closedLast_close (steps.closes_eq.trans (fresh live₁))
    | stalled live₁ _ steps _ => exact .inl (steps.closes_eq.trans (fresh live₁))

/-- Every callback keeps a session's connection orderly, counting its polls without traffic. -/
theorem Orderly.handle {c : Connection (Traced τ) σ} {limit : Option UInt16} {quiet : Nat}
    (orderly : c.Orderly limit quiet) (callback : Callback) :
    (c.handle callback).Orderly limit (callback.quietAfter quiet) := by
  have steady := orderly.steady.mapLink callback.change
  obtain ⟨steady', woke⟩ := steady.wakeFrom WaitReason.priority (callback.brings c.world.link)
  have rest := steady.wakeFrom_keeps (fun k v w closes _ held => closes.drive v w held)
    WaitReason.priority (callback.brings c.world.link) orderly.rest
  rw [handle_eq, Connection.wake]
  refine Orderly.of_woke woke steady' rest
    (fun live => by simpa using (orderly.live live).2) (fun still => ?_)
    (callback.change_closedLast orderly.closed) (by simpa using orderly.idleLimit) ?_
  · -- a task still live after the walk was live before it, and no transport error came
    have live := woke.live_of_live still
    by_cases failed : ∃ e, callback = .error e
    · obtain ⟨e, rfl⟩ := failed
      have finished := (steady.wakeFrom_error orderly.rest live e .recv [.flush, .sendBuf, .ack]).1
      exact absurd (still.symm.trans finished) Bool.false_ne_true
    · simp only [not_exists] at failed
      rw [mapLink_world_link, callback.change_attached _ failed]
      exact (orderly.live live).1
  · rcases orderly.idle with none | counts
    · exact .inl none
    · cases limit with
      | none => exact .inl rfl
      | some k => exact .inr (callback.change_idlePolls orderly.idleLimit counts)

theorem Orderly.handleAll {limit : Option UInt16} :
    ∀ (callbacks : List Callback) {c : Connection (Traced τ) σ} {quiet : Nat}, c.Orderly limit quiet →
      (callbacks.foldl Connection.handle c).Orderly limit (callbacks.foldl Callback.quietAfter quiet) := by
  intro callbacks
  induction callbacks with
  | nil => exact fun orderly => orderly
  | cons callback rest ih => exact fun orderly => ih (orderly.handle callback)

/-- A finished task is never resumed: a callback only changes the link's bookkeeping, and
nothing is left to report. -/
theorem Orderly.handle_of_finished {c : Connection (Traced τ) σ} {limit : Option UInt16} {quiet : Nat}
    (orderly : c.Orderly limit quiet) (finished : c.isFinished = true) (callback : Callback) :
    c.handle callback = c.mapLink callback.change := by
  rw [handle_eq, Connection.wake, wakeFrom_of_finished (by simpa using finished)]
  exact mapLink_settle_of_settled (by simpa using orderly.settled)

/-- A callback that brings an error to a live task finishes it: the task closes the link as the
callback changed it. -/
theorem Orderly.handle_of_brings {c : Connection (Traced τ) σ} {limit : Option UInt16} {quiet : Nat}
    (orderly : c.Orderly limit quiet) (live : c.isFinished = false) (callback : Callback)
    (brings : (callback.brings c.world.link).isSome = true) :
    (c.handle callback).isFinished = true ∧
      (c.handle callback).world.link = (callback.change c.world.link).close.2 := by
  obtain ⟨e, error⟩ := Option.isSome_iff_exists.mp brings
  obtain ⟨finished, closed⟩ := (orderly.steady.mapLink callback.change).wakeFrom_error orderly.rest live e
    .recv [.flush, .sendBuf, .ack]
  rw [handle_eq, Connection.wake, error]
  exact ⟨finished, (congrArg Link.settle closed).trans (Link.settle_eq_self (Link.close_credit _))⟩

/-- A callback other than a transport error that finishes a live task has closed the transport
once, unless the lock answered that the task stalled. -/
theorem Orderly.handle_closedOnce {c : Connection (Traced τ) σ} {limit : Option UInt16} {quiet : Nat}
    (orderly : c.Orderly limit quiet) (live : c.isFinished = false) (callback : Callback)
    (noError : ∀ e, callback ≠ .error e) (finished : (c.handle callback).isFinished = true) :
    (c.handle callback).world.link.transport.closes = 1 ∨
      .error .foreignPending ∈ (c.mapLink callback.change).wakeAnswers (callback.brings c.world.link)
        WaitReason.priority := by
  obtain ⟨-, woke⟩ := (orderly.steady.mapLink callback.change).wakeFrom WaitReason.priority
    (callback.brings c.world.link)
  rw [handle_eq, Connection.wake] at finished ⊢
  rw [mapLink_world_link, Link.settle_closes]
  refine woke.closedOnce live ?_ (by simpa using (orderly.live live).2) (by simpa using finished)
  rw [mapLink_world_link, callback.change_attached _ noError]
  exact (orderly.live live).1

/-- A transport error finishes the task and makes no call on the transport, which the link has
let go. -/
theorem Orderly.handle_error {c : Connection (Traced τ) σ} {limit : Option UInt16} {quiet : Nat}
    (orderly : c.Orderly limit quiet) (e : NetError) :
    (c.handle (.error e)).isFinished = true ∧
      (c.handle (.error e)).world.link.transport = c.world.link.transport := by
  cases live : c.isFinished
  · obtain ⟨finished, closed⟩ := orderly.handle_of_brings live (.error e) rfl
    rw [closed, Link.close_of_detached rfl]
    exact ⟨finished, rfl⟩
  · rw [orderly.handle_of_finished live]
    exact ⟨live, rfl⟩

/-- Once the task has finished, callbacks leave it finished and make no call on the transport. -/
theorem Orderly.handleAll_of_finished {limit : Option UInt16} :
    ∀ (callbacks : List Callback) {c : Connection (Traced τ) σ} {quiet : Nat}, c.Orderly limit quiet →
      c.isFinished = true → (callbacks.foldl Connection.handle c).isFinished = true ∧
        (callbacks.foldl Connection.handle c).world.link.transport = c.world.link.transport := by
  intro callbacks
  induction callbacks with
  | nil => exact fun _ finished => ⟨finished, rfl⟩
  | cons callback rest ih =>
    intro c quiet orderly finished
    have same := orderly.handle_of_finished finished callback
    obtain ⟨still, kept⟩ := ih (orderly.handle callback) (by rw [same]; exact finished)
    refine ⟨still, kept.trans ?_⟩
    rw [same]
    simp

/-- The lock's answers to the notifications of the walks of callbacks handled from `c`, in order;
the connection logs the errors among them as failures of the task. -/
def answersAll (c : Connection τ σ) : List Callback → List (Except TaskError Bool)
  | [] => []
  | callback :: rest => (c.mapLink callback.change).wakeAnswers (callback.brings c.world.link)
      WaitReason.priority ++ (c.handle callback).answersAll rest

theorem answersAll_append (c : Connection τ σ) (callbacks more : List Callback) :
    c.answersAll (callbacks ++ more) =
      c.answersAll callbacks ++ (callbacks.foldl Connection.handle c).answersAll more := by
  induction callbacks generalizing c with
  | nil => rfl
  | cons callback rest ih => simp [answersAll, ih]

theorem foldl_handle_append_singleton (c : Connection τ σ) (callbacks : List Callback)
    (callback : Callback) :
    (callbacks ++ [callback]).foldl Connection.handle c = (callbacks.foldl Connection.handle c).handle callback := by
  rw [List.foldl_append, List.foldl_cons, List.foldl_nil]

/-- From an orderly connection whose task, if it has finished, closed the transport once: after
callbacks, a finished task has closed it once, when no transport error came while it lived and
the lock never answered that it stalled. -/
theorem Orderly.closedOnce_of_finished {c : Connection (Traced τ) σ} {limit : Option UInt16}
    {quiet : Nat} (orderly : c.Orderly limit quiet)
    (started : c.isFinished = true → c.world.link.transport.closes = 1) :
    ∀ callbacks, (callbacks.foldl Connection.handle c).isFinished = true →
      (∀ before e after, callbacks = before ++ .error e :: after →
        (before.foldl Connection.handle c).isFinished = true) →
      .error .foreignPending ∉ c.answersAll callbacks →
      (callbacks.foldl Connection.handle c).world.link.transport.closes = 1 := by
  intro callbacks
  -- on the last callback: either the task had finished before it, or it finished the task
  induction callbacks using List.reverseRecOn with
  | nil => exact fun finished _ _ => started finished
  | append_singleton callbacks callback ih =>
    intro finished errorsLate quiet
    have orderly' := orderly.handleAll callbacks
    rw [foldl_handle_append_singleton] at finished ⊢
    rw [answersAll_append] at quiet
    cases live : (callbacks.foldl Connection.handle c).isFinished
    · have noError : ∀ e, callback ≠ .error e := by
        rintro e rfl
        have late := errorsLate callbacks e [] rfl
        rw [live] at late
        exact Bool.false_ne_true late
      rcases orderly'.handle_closedOnce live callback noError finished with once | stalled
      · exact once
      · exact absurd (List.mem_append_right _ (by simp [answersAll, stalled])) quiet
    · have before := ih live
        (fun b e a split => errorsLate b e (a ++ [callback]) (by rw [split]; simp))
        (fun stalled => quiet (List.mem_append_left _ stalled))
      rw [orderly'.handle_of_finished live callback]
      simpa using before

end Connection

/-- Teardown over the runs `run callbacks` of a session, whose lock answered the start with
`started` and the walks of the callbacks with `answers callbacks`, on a link with idle limit `limit`. -/
structure Teardown {τ σ : Type} [Transport τ] (run : List Callback → Connection (Traced τ) σ)
    (started : Except TaskError Unit) (answers : List Callback → List (Except TaskError Bool))
    (limit : Option UInt16) : Prop where
  /-- A peer's close finishes a live task, the link's error being the first one. -/
  closed : ∀ callbacks : List Callback, (run callbacks).isFinished = false →
    (run (callbacks ++ [Callback.closed])).isFinished = true ∧
      (run (callbacks ++ [Callback.closed])).world.link.error =
        ((run callbacks).world.link.error <|> some NetError.connectionClosed)
  /-- So does a transport error. -/
  failed : ∀ (callbacks : List Callback) (e : NetError), (run callbacks).isFinished = false →
    (run (callbacks ++ [Callback.error e])).isFinished = true ∧
      (run (callbacks ++ [Callback.error e])).world.link.error = ((run callbacks).world.link.error <|> some e)
  /-- So does a poll that makes at least `limit` polls without traffic. -/
  timedOut : ∀ (callbacks : List Callback) (k : UInt16), limit = some k → k.toNat ≤ Callback.quietPolls (callbacks ++ [Callback.poll]) →
    (run callbacks).isFinished = false →
    (run (callbacks ++ [Callback.poll])).isFinished = true ∧
      (run (callbacks ++ [Callback.poll])).world.link.error =
        ((run callbacks).world.link.error <|> some NetError.timeout)
  /-- The transport is closed at most once, -/
  closesAtMostOnce : ∀ callbacks : List Callback, (run callbacks).world.link.transport.closes ≤ 1
  /-- as its last call. -/
  closeIsLast : ∀ (callbacks : List Callback) (before after : List TransportCall),
    (run callbacks).world.link.transport.calls = before ++ TransportCall.close :: after → after = []
  /-- A transport error and every callback after it make no call on the transport, -/
  silentAfterError : ∀ (callbacks : List Callback) (e : NetError) (rest : List Callback),
    (run (callbacks ++ Callback.error e :: rest)).world.link.transport = (run callbacks).world.link.transport
  /-- so it is never closed when a transport error came while the task lived. -/
  neverClosedAfterError : ∀ (callbacks : List Callback) (e : NetError) (rest : List Callback),
    (run callbacks).isFinished = false →
    (run (callbacks ++ Callback.error e :: rest)).world.link.transport.closes = 0
  /-- It is closed exactly once when the task finished with no transport error while it lived
  and the lock never answered that it stalled. -/
  closedOnceFinished : ∀ callbacks : List Callback, (run callbacks).isFinished = true →
    (∀ before e after, callbacks = before ++ Callback.error e :: after → (run before).isFinished = true) →
    started = .ok () → Except.error TaskError.foreignPending ∉ answers callbacks →
    (run callbacks).world.link.transport.closes = 1
  /-- Once the task has finished, a callback only changes the link's bookkeeping. -/
  finishedIdle : ∀ (callbacks : List Callback) (callback : Callback), (run callbacks).isFinished = true →
    run (callbacks ++ [callback]) = (run callbacks).mapLink callback.change ∧
      (run (callbacks ++ [callback])).world.link.transport = (run callbacks).world.link.transport

namespace Connection

variable {τ σ : Type} [Transport τ]

/-- Teardown holds over the runs from an orderly connection with no quiet polls, whose start
answered `started` and closed the transport once if it finished the task with success. -/
theorem teardown_of_orderly {c : Connection (Traced τ) σ} {limit : Option UInt16}
    {started : Except TaskError Unit} (orderly : c.Orderly limit 0)
    (closedOnce : started = .ok () → c.isFinished = true → c.world.link.transport.closes = 1) :
    Teardown (fun callbacks => callbacks.foldl Connection.handle c) started c.answersAll limit := by
  have along := fun callbacks => orderly.handleAll callbacks
  -- after a transport error the task has finished and the transport is left as it was
  have silent : ∀ callbacks e rest, ((callbacks ++ .error e :: rest).foldl Connection.handle c).world.link.transport =
      (callbacks.foldl Connection.handle c).world.link.transport := by
    intro callbacks e rest
    obtain ⟨finished, kept⟩ := (along callbacks).handle_error e
    rw [List.foldl_append, List.foldl_cons]
    exact ((((along callbacks).handle (.error e)).handleAll_of_finished rest finished).2).trans kept
  refine ⟨fun callbacks live => ?_, fun callbacks e live => ?_, fun callbacks k set due live => ?_,
    fun callbacks => (along callbacks).closed.closes_le_one,
    fun callbacks _ _ calls => (along callbacks).closed.last calls, silent,
    fun callbacks e rest live => ?_,
    fun callbacks finished errorsLate ok quiet =>
      orderly.closedOnce_of_finished (closedOnce ok) callbacks finished errorsLate quiet,
    fun callbacks callback finished => ?_⟩
  · obtain ⟨finished, closed⟩ := (along callbacks).handle_of_brings live .closed rfl
    rw [foldl_handle_append_singleton, closed, Link.close_error_of_isSome (by simp [Callback.change,
      Link.onClosed, Link.noteError])]
    exact ⟨finished, rfl⟩
  · obtain ⟨finished, closed⟩ := (along callbacks).handle_of_brings live (.error e) rfl
    rw [foldl_handle_append_singleton, closed, Link.close_error_of_isSome (by simp [Callback.change,
      Link.onError, Link.noteError])]
    exact ⟨finished, rfl⟩
  · -- the idle count is the quiet polls so far, so this poll reaches the limit
    have limited := (along callbacks).idleLimit
    rw [set] at limited
    have counts := (along callbacks).idle.resolve_left (by simp [set])
    rw [Callback.quietPolls_append_poll] at due
    have reached : k.toNat ≤ (callbacks.foldl Connection.handle c).world.link.idlePolls.toNat + 1 := by
      have bound := k.toNat_lt
      simp only [Callback.quietPolls] at due
      omega
    obtain ⟨error, brings⟩ := Link.onPoll_of_due limited reached
    obtain ⟨finished, closed⟩ := (along callbacks).handle_of_brings live .poll (by simp [Callback.brings, brings])
    rw [foldl_handle_append_singleton, closed, Link.close_error_of_isSome (by simp [Callback.change, error])]
    exact ⟨finished, error⟩
  · rw [silent]
    exact ((along callbacks).live live).2
  · rw [foldl_handle_append_singleton, (along callbacks).handle_of_finished finished]
    exact ⟨rfl, by simp⟩

/-- A task that moves by its own operations with a close last, and whose parked rests close on
errors, started on a fresh connection over a link that holds a transport that has logged nothing
and has counted no poll, leaves it orderly; and if the start finished the task and the lock
answered it with success, the transport was closed once. -/
theorem Orderly.start {link : Link (Traced τ)} (app : σ) {task : IoRoutine (Traced τ) σ Unit}
    (moves : ∀ w, (task w).Moves (fun l => l.close.2) w)
    (closes : ∀ w k, (IoLock.drive (task w)).2.1.parked = some k → Session.ClosesOnError k)
    (held : link.attached = true) (log : link.transport.calls = []) (polls : link.idlePolls = 0) :
    (({ world := { link, app } } : Connection (Traced τ) σ).start task).2.Orderly link.idleLimit 0 ∧
      ((({ world := { link, app } } : Connection (Traced τ) σ).start task).1 = .ok () →
        (({ world := { link, app } } : Connection (Traced τ) σ).start task).2.isFinished = true →
        (({ world := { link, app } } : Connection (Traced τ) σ).start task).2.world.link.transport.closes = 1) := by
  obtain ⟨c₂, started, steady, woke, lock⟩ := start_woke app moves
  have never : link.transport.closes = 0 := by simp [Traced.closes, log]
  rw [started]
  refine ⟨Orderly.of_woke woke steady (fun k parked => closes _ k (lock ▸ parked)) (fun _ => never)
    (fun _ => held) (.inl never) rfl (.inr (by simp [polls])), fun ok finished => ?_⟩
  rw [mapLink_world_link, Link.settle_closes]
  refine (woke.closedOnce rfl held never finished).resolve_right ?_
  simp [ok, Except.map]

/-- Teardown is prompt and closes the transport once, for the socket's sessions. -/
theorem session_teardown {transport : τ} {config : Config} {ringSize inboundCap : Nat}
    {link : Link (Traced τ)} (made : Link.new ⟨transport, []⟩ config ringSize inboundCap = .ok link)
    (app : σ) (accept : List UInt8 → List UInt8) (page : List UInt8) {service : Service (Traced τ) σ}
    (onSocket : ∀ ws, Io.SocketProgram (service ws)) (propagates : ∀ ws, Io.PassesErrors (service ws)) :
    Teardown (session link app accept config page service)
      (({ world := { link, app } } : Connection (Traced τ) σ).start
        (Session.run accept config page service)).1
      (({ world := { link, app } } : Connection (Traced τ) σ).start
        (Session.run accept config page service)).2.answersAll
      config.idleTimeoutPolls := by
  obtain ⟨transport, held, -, -, -, polls, limit⟩ := Link.new_fresh made
  have log : link.transport.calls = [] := by rw [transport]
  obtain ⟨orderly, closedOnce⟩ := Orderly.start app (Session.run_moves accept config page onSocket)
    (fun w _ parked => Session.run_parked_closesOnError accept config page propagates w parked)
    held log polls
  rw [limit] at orderly
  exact teardown_of_orderly orderly closedOnce

/-- The echo service is made of the socket's plain operations. -/
theorem echo_plain (ws : WebSocket) : Io.Plain (Service.echo (τ := τ) (σ := σ) ws) := by
  unfold Service.echo Io.loop
  refine .loopFor _ _ fun ws => .bind (Io.WebSocket.read_plain _ _) fun got => ?_
  obtain ⟨data, ws⟩ := got
  refine .bind (FrameWriter.write_plain _ _) fun _ => ?_
  split
  · exact .bind FrameWriter.push_plain fun _ => .pure _
  · exact .pure _

end Connection

/-- The echo service on a loopback bench that times out after three idle polls, over a link with
a 64-byte ring and a 64-byte queue. -/
theorem loopback_echo_teardown :
    let config : Config := { idleTimeoutPolls := some 3 }
    let link : Link (Traced Loopback) :=
      { transport := ⟨{ capacity := 64 }, []⟩, inboundCap := 64, ring := FrameRing.new 64 1024 512,
        idleLimit := some 3 }
    Link.new ⟨{ capacity := 64 }, []⟩ config 64 64 = .ok link ∧
      Teardown (Connection.session link () Response.acceptKey config [] Service.echo)
        (({ world := { link, app := () } } : Connection (Traced Loopback) Unit).start
          (Session.run Response.acceptKey config [] Service.echo)).1
        (({ world := { link, app := () } } : Connection (Traced Loopback) Unit).start
          (Session.run Response.acceptKey config [] Service.echo)).2.answersAll
        config.idleTimeoutPolls := by
  intro config link
  have made : Link.new ⟨{ capacity := 64 }, []⟩ config 64 64 = .ok link := rfl
  exact ⟨made, Connection.session_teardown made () Response.acceptKey [] Connection.echo_socketProgram
    fun ws => (Connection.echo_plain ws).passesErrors⟩

end WebSocketCore
