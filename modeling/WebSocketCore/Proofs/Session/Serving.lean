import Mathlib
import WebSocketCore.Proofs.Session.Sending
import WebSocketCore.Proofs.Session.Teardown

/-! # A connection served move by move

A peer streaming `input` to a connection over a loopback plays moves in any order: it offers the
input's next bytes, acknowledges any number of sent bytes, lets poll ticks pass, closes or fails
(`Peer.play`). The connection's task keeps a guarantee against the peer
(`Progress.Guards` with rely `Conn.Serves input`): it waits only where `I` holds and ends where `Q`
holds. This module carries that guarantee through the lock and the callbacks.

Between moves the connection is served (`Connection.Serving`): the lock is idle; the loopback's
bytes satisfy `Safe`; a task that has ended left an error on the link; and a parked task waits on
a reason that is not ready, in a world its link drifted to by the peer's steps from the world it
parked in, with the count of bytes taken and a queue that goes on with the input. A move changes
the link by a peer step, or brings an error; the wake walk then resumes the task at most once per
reason, and every resumption is one the rely allows, so each move costs at most four of the
resumptions the guarantee counts (`Connection.Serving.move`). An error ends the task at once,
closing the link, which sends nothing.

Main statements: a run of moves keeps the connection served (`Connection.Serving.play`), and a
served connection that has taken the whole input, has nothing unacknowledged and no error
recorded is parked on a wait for bytes that `I` admits with the whole input consumed
(`Connection.Serving.drained`).
-/

namespace WebSocketCore

variable {σ : Type}

/-! ## Links the peer moved -/

namespace Link

/-- Closing sends nothing. -/
theorem close_sentBytes (l : Link Loopback) : l.close.2.transport.sentBytes = l.transport.sentBytes := by
  cases held : l.attached
  · unfold close settle
    split_ifs <;> simp_all [noteError]
  · exact (close_loopback held).1

theorem Drifts.attached {l l' : Link Loopback} (drifts : Drifts l l') : l'.attached = l.attached := by
  induction drifts with
  | refl => rfl
  | tail _ step ih => exact step.frame.2.1.trans ih

theorem PeerStep.sentBytes {l l' : Link Loopback} (step : PeerStep l l') :
    l'.transport.sentBytes = l.transport.sentBytes := by
  rw [Loopback.sentBytes, step.frame.2.2.1, ← Loopback.sentBytes]

theorem Drifts.sentBytes {l l' : Link Loopback} (drifts : Drifts l l') :
    l'.transport.sentBytes = l.transport.sentBytes := by
  induction drifts with
  | refl => rfl
  | tail _ step ih => exact step.sentBytes.trans ih

theorem Drifts.carries {limit : Nat} {l l' : Link Loopback} (drifts : Drifts l l')
    (carries : ∃ s, l.Carries limit s) : ∃ s, l'.Carries limit s := by
  induction drifts with
  | refl => exact carries
  | tail _ step ih =>
    obtain ⟨s, holds⟩ := ih
    obtain ⟨s', kept, -⟩ := step.carries holds
    exact ⟨s', kept⟩

theorem Drifts.capacity {l l' : Link Loopback} (drifts : Drifts l l') :
    l'.transport.capacity = l.transport.capacity := by
  induction drifts with
  | refl => rfl
  | tail _ step ih => exact step.frame.2.2.2.2.2.1.trans ih

/-- A reason the link awaits stays awaited through a peer step after which it is not ready: an
acknowledgement makes a wait for send room or acknowledgements ready, and keeps a wait for the
drain awaited while the ring has not drained. -/
theorem PeerStep.awaits {l l' : Link Loopback} {y : WaitReason} (step : PeerStep l l')
    (awaits : l.Awaits y) (calm : l'.isReady y = false) : l'.Awaits y := by
  cases step with
  | recv bytes => exact awaits.of_same rfl rfl rfl rfl
  | ack len =>
    cases y with
    | sendBuf | ack =>
      obtain ⟨-, armed⟩ := awaits
      simp only [isReady, onSent, armed] at calm
      split at calm <;> simp_all
    | flush =>
      obtain ⟨closed, idle, -⟩ := awaits
      have ring := (PeerStep.ack l len).ring
      refine ⟨ring.1.trans closed, ring.2.trans idle, ?_⟩
      simp only [isReady] at calm
      split at calm
      · simp at calm
      · exact calm
    | recv | ended => exact awaits.elim
  | poll calm' =>
    obtain ⟨idle, error, polled⟩ := Link.onPoll_eq l
    exact awaits.of_same (onPoll_ring l) (onPoll_transport l) (by rw [polled]) (by rw [polled])
  | settle => exact awaits.settle

/-- A reason the link awaits is not ready while no error is recorded. -/
theorem Awaits.not_ready {l : Link Loopback} {y : WaitReason} (clean : l.error = none)
    (awaits : l.Awaits y) : l.isReady y = false := by
  cases y <;> simp_all [Awaits, isReady, FrameRing.isDrained]

/-- A poll tick that times the link out leaves the timeout recorded. -/
theorem onPoll_error_of_timeout {l : Link Loopback} {e : NetError} (timeout : l.onPoll.2 = some e) :
    l.onPoll.1.error.isSome = true := by
  unfold onPoll at timeout ⊢
  split at timeout
  · cases timeout
  · dsimp only at timeout ⊢
    split_ifs at timeout ⊢ <;> simp_all [noteError]

/-- The queue, once bytes of the input past the `taken` bytes received arrive, still goes on with
the input where the consumed bytes end. -/
theorem within_append {input q extra : List UInt8} {consumed taken : Nat}
    (within : q <+: input.drop consumed) (tally : consumed + q.length = taken)
    (fresh : extra <+: input.drop taken) : q ++ extra <+: input.drop consumed := by
  obtain ⟨rest, split⟩ := within
  have after : input.drop taken = rest := by
    rw [← tally, ← List.drop_drop, ← split, List.drop_left]
  rw [← split]
  exact (List.prefix_append_right_inj q).mpr (after ▸ fresh)

end Link

@[simp] theorem Conn.setLockState_lock (w : Conn Loopback σ) (ls : LockState) :
    (LockWorld.setLockState w ls).lock = ls := rfl

@[simp] theorem Conn.setLockState_link (w : Conn Loopback σ) (ls : LockState) :
    (LockWorld.setLockState w ls).link = w.link := rfl

namespace LockState

theorem with_error_none {ls : LockState} (quiet : ls.error = none) : { ls with error := none } = ls := by
  cases ls
  simp_all

end LockState

namespace Peer

theorem move_send (input : List UInt8) (c : Connection Loopback σ) (taken k : Nat) :
    move input (c, taken) (.send k) =
      ((c.mapLink fun _ => (c.world.link.onRecv ((input.drop taken).take k)).1).wake none,
        taken + (c.world.link.onRecv ((input.drop taken).take k)).2) := rfl

theorem move_ack (input : List UInt8) (c : Connection Loopback σ) (taken len : Nat) :
    move input (c, taken) (.ack len) = (acknowledge c len, taken) := rfl

theorem move_poll (input : List UInt8) (c : Connection Loopback σ) (taken : Nat) :
    move input (c, taken) .poll = (c.onPoll, taken) := rfl

/-- An acknowledgement is one change of the link, then a wake. -/
theorem acknowledge_eq (c : Connection Loopback σ) (len : Nat) :
    acknowledge c len =
      (c.mapLink fun l => { l with transport := l.transport.acknowledge len }.onSent len).wake none := by
  obtain ⟨lock, ⟨link, ls, app⟩⟩ := c
  rfl

/-- A move that brings no error of its own: bytes offered, an acknowledgement, or a poll tick. -/
def Move.Quiet : Move → Prop
  | .send _ | .ack _ | .poll => True
  | .close | .fail _ => False

end Peer

/-! ## Steady sessions keep their idle limit -/

namespace Connection

/-- A wake keeps a session's connection steady, and its link's idle limit. -/
theorem Steady.wake_idleLimit {c : Connection Loopback σ} (steady : c.Steady fun l => l.close.2)
    (e : Option NetError) :
    (c.wake e).Steady (fun l => l.close.2) ∧ (c.wake e).world.link.idleLimit = c.world.link.idleLimit := by
  obtain ⟨steady', woke⟩ := Steady.wakeFrom WaitReason.priority e steady
  refine ⟨steady'.mapLink _, ?_⟩
  rw [Connection.wake, mapLink_world_link, Link.settle_idleLimit]
  exact woke.idle.2

/-- Every move of the peer keeps a session's connection steady, and its link's idle limit: a move
changes the link, keeping the limit, then wakes the task. -/
theorem Steady.move (input : List UInt8) {state : Connection Loopback σ × Nat}
    (steady : state.1.Steady fun l => l.close.2) (mv : Peer.Move) :
    (Peer.move input state mv).1.Steady (fun l => l.close.2) ∧
      (Peer.move input state mv).1.world.link.idleLimit = state.1.world.link.idleLimit := by
  obtain ⟨c, taken⟩ := state
  have woken : ∀ (f : Link Loopback → Link Loopback) (e : Option NetError),
      (f c.world.link).idleLimit = c.world.link.idleLimit →
      ((c.mapLink f).wake e).Steady (fun l => l.close.2) ∧
        ((c.mapLink f).wake e).world.link.idleLimit = c.world.link.idleLimit := by
    intro f e kept
    obtain ⟨steady', limit⟩ := (steady.mapLink f).wake_idleLimit e
    exact ⟨steady', limit.trans kept⟩
  cases mv with
  | send k => exact woken _ none rfl
  | ack len =>
    rw [Peer.move_ack, Peer.acknowledge_eq]
    exact woken _ none rfl
  | poll =>
    rw [Peer.move_poll, onPoll_eq]
    exact woken _ _ (Link.onPoll_idleLimit _)
  | close => exact woken Link.onClosed (some .connectionClosed) rfl
  | fail e => exact woken (·.onError e) (some e) rfl

/-- A session started on a fresh connection leaves it steady, with the idle limit of its link. -/
theorem start_steady {link : Link Loopback} (app : σ) {task : IoRoutine Loopback σ Unit}
    (moves : ∀ w, (task w).Moves (fun l => l.close.2) w) :
    (({ world := { link, app } } : Connection Loopback σ).start task).2.Steady (fun l => l.close.2) ∧
      (({ world := { link, app } } : Connection Loopback σ).start task).2.world.link.idleLimit =
        link.idleLimit := by
  obtain ⟨c₂, started, steady, woke, -⟩ := start_woke app moves
  rw [started, mapLink_world_link, Link.settle_idleLimit]
  exact ⟨steady.mapLink _, woke.idle.2⟩

/-! ## Served connections -/

open Progress

section Serving

variable (input : List UInt8) (I : WaitReason → Conn Loopback σ → Prop)
  (Q : Unit → Nat → Conn Loopback σ → Prop) (Safe Free : Link Loopback → Prop)

/-- The task's end at an error: done at once, with the link it was resumed with closed. -/
abbrev Closes (w' : Conn Loopback σ) (_ : Unit) (w'' : Conn Loopback σ) : Prop :=
  w''.link = w'.link.close.2

/-- Over its next `n` resumptions in worlds the peer serves, the progress waits only where `I`
holds and ends where `Q` holds, as `Progress.Guards` says, until it hands over to a free rest:
one that moves by the task's own operations, closing the link last, from a world whose link is
`Free`, and then waits and ends as it goes. -/
inductive Guided : Nat → Progress (Conn Loopback σ) WaitReason Wake Unit → Prop
  | done {n : Nat} {a : Unit} {w : Conn Loopback σ} : Q a n w → Guided n (.done a w)
  | wait {n : Nat} {y : WaitReason} {w : Conn Loopback σ}
      {k : Wake → Conn Loopback σ → Progress (Conn Loopback σ) WaitReason Wake Unit} : I y w →
      (∀ v, Conn.Serves input y w v → Guided n (k (.ok ()) v)) → Guided (n + 1) (.suspend y w k)
  | last {y : WaitReason} {w : Conn Loopback σ}
      {k : Wake → Conn Loopback σ → Progress (Conn Loopback σ) WaitReason Wake Unit} :
      I y w → Guided 0 (.suspend y w k)
  | free {n : Nat} {w₀ : Conn Loopback σ} {p : Progress (Conn Loopback σ) WaitReason Wake Unit} :
      Free w₀.link → p.Moves (fun l => l.close.2) w₀ → Guided n p

/-- The lock holds the task parked in `w` on the connection's reason with the rest `k`: the rest
is guided over `n` more resumptions or more, moves by the task's own operations and closes the
link last, and closes it at once on errors; the link drifted from `w`'s by the peer's steps,
records no error and holds its transport, has received `taken` bytes, and its queue goes on with
the input; a reason that is not ready is awaited, unless it is a wait for bytes or the rest runs
free. -/
structure Parks (n : Nat) (c : Connection Loopback σ) (taken : Nat) (w : Conn Loopback σ)
    (k : Wake → Conn Loopback σ → Progress (Conn Loopback σ) WaitReason Wake Unit) : Prop where
  idle : c.phase = .idle
  held : c.lock.parked = some k
  quiet : c.world.lock.error = none
  real : c.waiting ≠ .ended
  guided : ∃ m, n ≤ m ∧ Guided input I Q Free m (Progress.suspend c.waiting w k)
  moves : ∀ r v, (k r v).Moves (fun l => l.close.2) v
  errors : Session.ClosesOnError k
  drifts : Link.Drifts w.link c.world.link
  clean : c.world.link.error = none
  attached : c.world.link.attached = true
  tally : c.world.link.transport.recved + c.world.link.credit + c.world.link.inbound.length = taken
  within : c.world.Within input
  owed : c.world.link.isReady c.waiting = false → c.waiting ≠ .recv →
    c.world.link.Awaits c.waiting ∨ Free c.world.link

/-- A connection served by the peer, with `n` resumptions to spare, having taken `taken` bytes of
the input: its link is safe; a task that has ended closed the link after an error, or ran free;
and a live task is parked. -/
structure Serving (n : Nat) (c : Connection Loopback σ) (taken : Nat) : Prop where
  safe : Safe c.world.link
  ended : c.isFinished = true →
    (c.world.link.error.isSome = true ∧ c.world.link.attached = false) ∨ Free c.world.link
  parked : c.isFinished = false → ∃ w k, c.Parks input I Q Free n taken w k

/-- No reason a live task waits on is ready: how a wake leaves the connection. -/
def Calm (c : Connection Loopback σ) : Prop :=
  c.isFinished = false → c.world.link.isReady c.waiting = false

/-- What the task's guarantee must give for the connection to stay served: every wait is on a
safe link, for bytes with the queue empty or on a reason its link awaits; every end is on a safe
link; a free link is safe, and stays free through the task's own operations, its close and the
peer's steps; and the peer's steps keep a link safe. -/
structure Discipline : Prop where
  waitSafe : ∀ y u, I y u → Safe u.link
  waitCalm : ∀ y u, I y u → (y = .recv ∧ u.link.inbound = []) ∨ u.link.Awaits y
  endSafe : ∀ a m u, Q a m u → Safe u.link
  freeSafe : ∀ l, Free l → Safe l
  peerSafe : ∀ l l', Link.PeerStep l l' → Safe l → Safe l'
  stepFree : ∀ l l', Link.TaskStep l l' → Free l → Free l'
  closeFree : ∀ l, Free l → Free l.close.2
  peerFree : ∀ l l', Link.PeerStep l l' → Free l → Free l'

/-- A property of links that the loopback's bytes alone decide. -/
def SentOnly (P : Link Loopback → Prop) : Prop :=
  ∀ l l' : Link Loopback, l'.transport.sentBytes = l.transport.sentBytes → P l → P l'

variable {input I Q Safe Free}

theorem Discipline.free_of_steps (discipline : Discipline I Q Safe Free) {l l' : Link Loopback}
    (steps : Link.TaskSteps l l') (free : Free l) : Free l' := by
  induction steps with
  | refl => exact free
  | tail _ step ih => exact discipline.stepFree _ _ step ih

theorem Discipline.free_of_drifts (discipline : Discipline I Q Safe Free) {l l' : Link Loopback}
    (drifts : Link.Drifts l l') (free : Free l) : Free l' := by
  induction drifts with
  | refl => exact free
  | tail _ step ih => exact discipline.peerFree _ _ step ih

/-- A guarantee is guided, and never hands over. -/
theorem Guided.of_guards {p : Progress (Conn Loopback σ) WaitReason Wake Unit} {n : Nat}
    (guards : p.Guards (.ok ()) (Conn.Serves input) I Q n) : Guided input I Q Free n p := by
  induction guards with
  | done holds => exact .done holds
  | wait holds _ ih => exact .wait holds ih
  | last holds => exact .last holds

/-- A guarantee kept up to an end after which the rest is guided is guided. -/
theorem Guided.bind {α : Type} {Q₀ : α → Nat → Conn Loopback σ → Prop}
    {p : Progress (Conn Loopback σ) WaitReason Wake α}
    {f : α → Conn Loopback σ → Progress (Conn Loopback σ) WaitReason Wake Unit} {n : Nat}
    (guards : p.Guards (.ok ()) (Conn.Serves input) I Q₀ n)
    (next : ∀ a m u, Q₀ a m u → Guided input I Q Free m (f a u)) :
    Guided input I Q Free n (p.bind f) := by
  induction guards with
  | done holds => exact next _ _ _ holds
  | wait holds _ ih => exact .wait holds ih
  | last holds => exact .last holds

/-- A program kept up to an end, followed by its rest and then by `g`, is guided when, after each
success of the program, the rest followed by `g` is; a failure of the program goes on to `g`. -/
theorem Guided.run_bind {α β : Type} {x : Io Loopback σ α} {f : α → Io Loopback σ β}
    {g : Except NetError β → Conn Loopback σ → Progress (Conn Loopback σ) WaitReason Wake Unit}
    {P : Except NetError α → Nat → Conn Loopback σ → Prop} {w : Conn Loopback σ} {n : Nat}
    (first : (x.run w).Guards (.ok ()) (Conn.Serves input) I P n)
    (next : ∀ a m u, P (.ok a) m u → Guided input I Q Free m (((f a).run u).bind g))
    (fails : ∀ e m u, P (.error e) m u → Guided input I Q Free m (g (.error e) u)) :
    Guided input I Q Free n (((x >>= f).run w).bind g) := by
  rw [Io.run_bind_apply, Progress.bind_assoc]
  refine Guided.bind first fun res m u post => ?_
  cases res with
  | ok a => exact next a m u post
  | error e => exact fails e m u post

theorem Parks.mono {n n' : Nat} {c : Connection Loopback σ} {taken : Nat} {w : Conn Loopback σ}
    {k : Wake → Conn Loopback σ → Progress (Conn Loopback σ) WaitReason Wake Unit}
    (parks : c.Parks input I Q Free n' taken w k) (fewer : n ≤ n') : c.Parks input I Q Free n taken w k := by
  obtain ⟨m, more, guided⟩ := parks.guided
  exact { parks with guided := ⟨m, by omega, guided⟩ }

theorem Serving.mono {n n' : Nat} {c : Connection Loopback σ} {taken : Nat}
    (serving : c.Serving input I Q Safe Free n' taken) (fewer : n ≤ n') :
    c.Serving input I Q Safe Free n taken := by
  refine { serving with parked := fun live => ?_ }
  obtain ⟨w, k, parks⟩ := serving.parked live
  exact ⟨w, k, parks.mono fewer⟩

/-- A finished task is served as long as its link is safe and was closed after an error, or is
free. -/
theorem Serving.of_finished {n taken : Nat} {c : Connection Loopback σ} (retired : c.isFinished = true)
    (safe : Safe c.world.link)
    (ended : (c.world.link.error.isSome = true ∧ c.world.link.attached = false) ∨ Free c.world.link) :
    c.Serving input I Q Safe Free n taken :=
  ⟨safe, fun _ => ended, fun live => absurd (live.symm.trans retired) Bool.false_ne_true⟩

/-- A link closed last is closed after an error. -/
theorem closed_ended {l l' : Link Loopback} (last : l' = l.close.2) :
    l'.error.isSome = true ∧ l'.attached = false := by
  subst last
  simp

/-- The task suspended in `u` on a safe link, on a reason that is not ready, resumed from `v` by
its own operations with the lock handed over: the lock parks it, and the connection is served and
calm. -/
theorem park_serving {v u : Conn Loopback σ} {y : WaitReason}
    {k : Wake → Conn Loopback σ → Progress (Conn Loopback σ) WaitReason Wake Unit} {m taken : Nat}
    (guided : Guided input I Q Free m (Progress.suspend y u k))
    (moves : (Progress.suspend y u k).Moves (fun l => l.close.2) v)
    (errors : (Progress.suspend y u k).EndsOnError Closes) (safe : Safe u.link)
    (calm : u.link.isReady y = false) (owed : y ≠ .recv → u.link.Awaits y ∨ Free u.link)
    (quiet : v.lock.error = none) (live : v.lock.finished = false) (clean : v.link.error = none)
    (attached : v.link.attached = true)
    (tally : v.link.transport.recved + v.link.credit + v.link.inbound.length = taken)
    (within : v.Within input) :
    (⟨(IoLock.drive (.suspend y u k)).2.1, (IoLock.drive (.suspend y u k)).2.2⟩ : Connection Loopback σ).Serving
        input I Q Safe Free m taken ∧
      Calm (⟨(IoLock.drive (.suspend y u k)).2.1, (IoLock.drive (.suspend y u k)).2.2⟩ : Connection Loopback σ) := by
  cases moves with
  | suspend steps lock real rest =>
  have frame := steps.frame
  have closes : Session.ClosesOnError k := by
    cases errors with
    | suspend atError after => exact ⟨atError, after⟩
  -- the reason is not ready, and no error is recorded: the lock parks the task
  rcases IoLock.drive_suspend y u k with ⟨ended, -⟩ | ⟨-, ready, -⟩ | ⟨-, -, parks⟩
  · exact absurd ended real
  · have calm' : LockWorld.isReady u y = false := calm
    simp only [Conn.lockState_eq, lock, quiet, Option.isSome_none, Bool.false_or, calm'] at ready
    cases ready
  rw [parks]
  refine ⟨⟨safe, fun finished => ?_, fun _ => ⟨u, k, ?_⟩⟩, fun _ => calm⟩
  · simp only [isFinished, Conn.lockState_eq] at finished
    change (u.lock.finished) = true at finished
    rw [lock, live] at finished
    cases finished
  · exact ⟨rfl, rfl, by simp [lock, quiet], real, ⟨m, le_rfl, guided⟩, rest, closes, .refl,
      frame.error.trans clean, frame.attached.trans attached, steps.tally.trans tally, steps.within within,
      fun _ other => owed other⟩

/-- The task suspended in `u` on a reason its guarantee admits, resumed from `v` by its own
operations with the lock handed over: the reason is not ready, and the lock parks it. -/
theorem park_admitted (discipline : Discipline I Q Safe Free) {v u : Conn Loopback σ} {y : WaitReason}
    {k : Wake → Conn Loopback σ → Progress (Conn Loopback σ) WaitReason Wake Unit} {m taken : Nat}
    (guided : Guided input I Q Free m (Progress.suspend y u k)) (holds : I y u)
    (moves : (Progress.suspend y u k).Moves (fun l => l.close.2) v)
    (errors : (Progress.suspend y u k).EndsOnError Closes)
    (quiet : v.lock.error = none) (live : v.lock.finished = false) (clean : v.link.error = none)
    (attached : v.link.attached = true)
    (tally : v.link.transport.recved + v.link.credit + v.link.inbound.length = taken)
    (within : v.Within input) :
    (⟨(IoLock.drive (.suspend y u k)).2.1, (IoLock.drive (.suspend y u k)).2.2⟩ : Connection Loopback σ).Serving
        input I Q Safe Free m taken ∧
      Calm (⟨(IoLock.drive (.suspend y u k)).2.1, (IoLock.drive (.suspend y u k)).2.2⟩ : Connection Loopback σ) := by
  have clean' : u.link.error = none := by
    cases moves with
    | suspend steps _ _ _ => exact steps.frame.error.trans clean
  have calm : u.link.isReady y = false := by
    rcases discipline.waitCalm y u holds with ⟨rfl, empty⟩ | awaits
    · simp [Link.isReady, clean', empty]
    · exact awaits.not_ready clean'
  exact park_serving guided moves errors (discipline.waitSafe _ _ holds) calm
    (fun other => .inl ((discipline.waitCalm y u holds).resolve_left fun recv => other recv.1))
    quiet live clean attached tally within

/-- Driving the task from a world it was started or resumed in, whose lock is handed over and
whose link records no error, with a guided rest: the connection is served and calm. The task
ends, the lock parks it where it first suspends on a reason that is not ready, or, while it runs
free, resumes it at once; the induction is on its stretches. -/
theorem drive_serving (discipline : Discipline I Q Safe Free) {v : Conn Loopback σ}
    {p : Progress (Conn Loopback σ) WaitReason Wake Unit} (moves : p.Moves (fun l => l.close.2) v)
    {m taken : Nat} (guided : Guided input I Q Free m p) (errors : p.EndsOnError Closes)
    (quiet : v.lock.error = none) (live : v.lock.finished = false)
    (clean : v.link.error = none) (attached : v.link.attached = true)
    (tally : v.link.transport.recved + v.link.credit + v.link.inbound.length = taken)
    (within : v.Within input) :
    (⟨(IoLock.drive p).2.1, (IoLock.drive p).2.2⟩ : Connection Loopback σ).Serving input I Q Safe Free m taken ∧
      Calm (⟨(IoLock.drive p).2.1, (IoLock.drive p).2.2⟩ : Connection Loopback σ) := by
  induction moves with
  | @done v u a l steps last same =>
    -- the task ended: the lock retires it, on the link it closed
    have safe : Safe u.link := by
      cases guided with
      | done ends => exact discipline.endSafe _ _ _ ends
      | free free moves' =>
        cases moves' with
        | done steps' last' _ =>
          rw [last']
          exact discipline.freeSafe _ (discipline.closeFree _ (discipline.free_of_steps steps' free))
    exact ⟨.of_finished rfl safe (.inl (closed_ended last)),
      fun live' => absurd live' (by simp [isFinished, IoLock.drive_done, IoLock.mapLock, LockState.retired])⟩
  | @stall v u steps same =>
    -- only a free rest stalls: the lock retires it, on the link it reached
    cases guided with
    | free free moves' =>
      cases moves' with
      | stall steps' _ =>
      have free' := discipline.free_of_steps steps' free
      exact ⟨.of_finished rfl (discipline.freeSafe _ free') (.inr free'),
        fun live' => absurd live' (by simp [isFinished, IoLock.drive_stall, IoLock.mapLock, LockState.retired])⟩
  | @suspend v u y k steps lock real rest ih =>
    have frame := steps.frame
    cases guided with
    | wait holds next =>
      exact park_admitted discipline (.wait holds next) holds (.suspend steps lock real rest) errors quiet
        live clean attached tally within
    | last holds =>
      exact park_admitted discipline (.last holds) holds (.suspend steps lock real rest) errors quiet
        live clean attached tally within
    | free free moves' =>
      have free' : Free u.link := by
        cases moves' with
        | suspend steps' _ _ _ => exact discipline.free_of_steps steps' free
      cases ready : u.link.isReady y
      · exact park_serving (.free free moves') (.suspend steps lock real rest) errors
          (discipline.freeSafe _ free') ready (fun _ => .inr free') quiet live clean attached tally within
      · -- a free rest on a ready reason is resumed at once, with success
        rcases IoLock.drive_suspend y u k with ⟨ended, -⟩ | ⟨-, -, resumed⟩ | ⟨-, calm, -⟩
        · exact absurd ended real
        · have wake : (LockWorld.lockState u).wake = .ok () := by
            simp [Conn.lockState_eq, LockState.wake, lock, quiet]
          rw [resumed, wake]
          have after : (k (.ok ()) (LockWorld.setLockState u (LockWorld.lockState u).handOver)).EndsOnError
              Closes := by
            cases errors with
            | suspend _ after => exact after _
          have resumedFree : Free (LockWorld.setLockState u (LockWorld.lockState u).handOver).link := free'
          exact ih (.ok ()) _ (.free resumedFree (rest _ _)) after (by simp [LockState.handOver])
            (by simp [Conn.lockState_eq, LockState.handOver, lock, live]) (frame.error.trans clean)
            (frame.attached.trans attached) (steps.tally.trans tally) (steps.within within)
        · have calm' : LockWorld.isReady u y = true := ready
          simp [Conn.lockState_eq, lock, quiet, calm'] at calm

/-! ## The wake walk -/

section Walk

variable {n taken : Nat} {c : Connection Loopback σ} {w : Conn Loopback σ}
  {k : Wake → Conn Loopback σ → Progress (Conn Loopback σ) WaitReason Wake Unit}

/-- A notification of a reason ready in the parked task's world that the task waits on resumes it
in a world the rely serves: the connection is served again, with one resumption fewer, and calm. -/
theorem Parks.resume (discipline : Discipline I Q Safe Free) (parks : c.Parks input I Q Free (n + 1) taken w k)
    (live : c.isFinished = false) (ready : c.world.link.isReady c.waiting = true) :
    (⟨(c.lock.notify c.waiting none c.world).2.1, (c.lock.notify c.waiting none c.world).2.2⟩ :
        Connection Loopback σ).Serving input I Q Safe Free n taken ∧
      Calm (⟨(c.lock.notify c.waiting none c.world).2.1, (c.lock.notify c.waiting none c.world).2.2⟩ :
        Connection Loopback σ) := by
  obtain ⟨m, more, guided⟩ := parks.guided
  have notified := IoLock.notify_of_held parks.held parks.idle live c.waiting none
  simp only [Conn.lockState_eq, parks.quiet] at notified
  rw [if_pos (.inl rfl)] at notified
  rw [notified]
  -- the task resumes in the connection's world with the lock handed over, which the rely serves
  have serves : Conn.Serves input c.waiting w (LockWorld.setLockState c.world c.world.lock.handOver) :=
    ⟨parks.drifts, ready, parks.within⟩
  have next : ∃ m', n ≤ m' ∧
      Guided input I Q Free m' (k (.ok ()) (LockWorld.setLockState c.world c.world.lock.handOver)) := by
    cases guided with
    | wait _ next => exact ⟨_, by omega, next _ serves⟩
    | last _ => omega
    | free free moves =>
      cases moves with
      | suspend steps _ _ _ =>
        have resumedFree : Free (LockWorld.setLockState c.world c.world.lock.handOver).link :=
          discipline.free_of_drifts parks.drifts (discipline.free_of_steps steps free)
        exact ⟨m, by omega, .free resumedFree (parks.moves _ _)⟩
  obtain ⟨m', fewer, next⟩ := next
  obtain ⟨driven, calm⟩ := drive_serving discipline (parks.moves _ _) next (parks.errors.2 _)
    rfl live parks.clean parks.attached parks.tally parks.within
  exact ⟨driven.mono fewer, calm⟩

/-- A notification of a ready reason the parked task does not wait on changes nothing. -/
theorem Parks.notify_other (parks : c.Parks input I Q Free n taken w k) (live : c.isFinished = false)
    {r : WaitReason} (other : c.waiting ≠ r) : c.lock.notify r none c.world = (.ok false, c.lock, c.world) := by
  have notified := IoLock.notify_of_held parks.held parks.idle live r none
  simp only [Conn.lockState_eq, parks.quiet] at notified
  have other' : ¬(c.world.lock.waiting = r ∨ ((none : Option NetError) <|> none).isSome = true) := by
    rintro (same | noted)
    · exact other same
    · cases noted
  rw [notified, if_neg other']
  show (_, _, LockWorld.setLockState c.world { c.world.lock with error := none }) = _
  rw [LockState.with_error_none parks.quiet]
  rfl

/-- The walk over `rs` keeps the connection served, at one resumption per reason visited, and
leaves it calm when the task has finished, waits on a reason still to be visited, or waits on one
that is not ready. -/
theorem Serving.walk (discipline : Discipline I Q Safe Free) (rs : List WaitReason) :
    ∀ (n : Nat) (c : Connection Loopback σ), c.Serving input I Q Safe Free (n + rs.length) taken →
      (c.isFinished = true ∨ c.waiting ∈ rs ∨ c.world.link.isReady c.waiting = false) →
      (c.wakeFrom none rs).Serving input I Q Safe Free n taken ∧ Calm (c.wakeFrom none rs) := by
  induction rs with
  | nil =>
    intro n c serving due
    refine ⟨serving, fun live => ?_⟩
    rcases due with retired | absent | calm
    · exact absurd (live.symm.trans retired) Bool.false_ne_true
    · cases absent
    · exact calm
  | cons r rs ih =>
    intro n c serving due
    have fewer : n + rs.length ≤ n + (r :: rs).length := by simp
    cases ready : c.world.link.isReady r
    · -- `r` is not ready: nothing is notified
      rw [wakeFrom, if_pos (by simp [ready])]
      refine ih n c (serving.mono fewer) ?_
      rcases due with retired | visited | calm
      · exact .inl retired
      · rcases List.mem_cons.mp visited with same | later
        · exact .inr (.inr (same ▸ ready))
        · exact .inr (.inl later)
      · exact .inr (.inr calm)
    · rw [wakeFrom_cons_of_notified rs (by simp [ready])]
      cases live : c.isFinished
      · obtain ⟨w, k, parks⟩ := serving.parked live
        by_cases same : c.waiting = r
        · -- the task waits on `r`, which is ready: it resumes
          subst same
          obtain ⟨served, calm⟩ := Parks.resume (n := n + rs.length) discipline parks live ready
          refine ih n _ served ?_
          cases still : (⟨(c.lock.notify c.waiting none c.world).2.1,
              (c.lock.notify c.waiting none c.world).2.2⟩ : Connection Loopback σ).isFinished
          · exact .inr (.inr (calm still))
          · exact .inl rfl
        · -- the task waits on another reason: nothing changes
          rw [parks.notify_other live same]
          refine ih n c (serving.mono fewer) ?_
          rcases due with retired | visited | calm
          · exact absurd (live.symm.trans retired) Bool.false_ne_true
          · rcases List.mem_cons.mp visited with same' | later
            · exact absurd same' same
            · exact .inr (.inl later)
          · exact .inr (.inr calm)
      · rw [notify_of_finished live]
        exact ih n c (serving.mono fewer) (.inl live)

/-! ## Callbacks -/

/-- A peer step on the link keeps a calm connection served, for the count of bytes taken the
step leaves: a finished task keeps how it ended, and a parked task's link drifts one step further,
awaiting what it awaited while its reason stays not ready. -/
theorem Serving.drift (discipline : Discipline I Q Safe Free) (serving : c.Serving input I Q Safe Free n taken)
    (calm : Calm c) {f : Link Loopback → Link Loopback} (step : Link.PeerStep c.world.link (f c.world.link))
    {taken' : Nat}
    (tally : c.isFinished = false →
      (f c.world.link).transport.recved + (f c.world.link).credit + (f c.world.link).inbound.length = taken')
    (within : c.isFinished = false → (c.mapLink f).world.Within input) :
    (c.mapLink f).Serving input I Q Safe Free n taken' := by
  obtain ⟨error, attached, -⟩ := step.frame
  refine ⟨discipline.peerSafe _ _ step serving.safe, fun retired => ?_, fun live => ?_⟩
  · rw [mapLink_world_link, error, attached]
    exact (serving.ended retired).imp id (discipline.peerFree _ _ step)
  · obtain ⟨w, k, parks⟩ := serving.parked live
    exact ⟨w, k, { parks with
      drifts := parks.drifts.tail step
      clean := error.trans parks.clean
      attached := attached.trans parks.attached
      tally := tally live
      within := within live
      owed := fun still other => (parks.owed (calm live) other).imp (step.awaits · still)
        (discipline.peerFree _ _ step) }⟩

/-- A peer step that leaves the queue alone keeps the count of bytes taken. -/
theorem Serving.drift_queue (discipline : Discipline I Q Safe Free)
    (serving : c.Serving input I Q Safe Free n taken) (calm : Calm c)
    {f : Link Loopback → Link Loopback} (step : Link.PeerStep c.world.link (f c.world.link))
    (queue : (f c.world.link).inbound = c.world.link.inbound) :
    (c.mapLink f).Serving input I Q Safe Free n taken := by
  refine serving.drift discipline calm step (fun live => ?_) (fun live => ?_) <;>
    obtain ⟨w, k, parks⟩ := serving.parked live <;>
    have count := step.count parks.attached
  · rw [count, queue]
    exact parks.tally
  · have within := parks.within
    simp only [Conn.Within, Conn.consumedCount, mapLink_world_link] at within ⊢
    rw [count, queue]
    exact within

/-- Reporting the consumed bytes keeps a calm connection served and calm. -/
theorem Serving.settle (discipline : Discipline I Q Safe Free) (serving : c.Serving input I Q Safe Free n taken)
    (calm : Calm c) :
    (c.mapLink Link.settle).Serving input I Q Safe Free n taken ∧ Calm (c.mapLink Link.settle) := by
  refine ⟨serving.drift_queue discipline calm (.settle _) (Link.settle_inbound _), fun live => ?_⟩
  simp only [waiting, mapLink_world_lock, mapLink_world_link, Link.isReady_settle]
  exact calm live

/-- A wake without an error keeps a served connection served, at four resumptions, and leaves it
calm: the walk visits every reason a parked task can wait on. -/
theorem Serving.wake (discipline : Discipline I Q Safe Free)
    (serving : c.Serving input I Q Safe Free (n + 4) taken) :
    (c.wake none).Serving input I Q Safe Free n taken ∧ Calm (c.wake none) := by
  have due : c.isFinished = true ∨ c.waiting ∈ WaitReason.priority ∨
      c.world.link.isReady c.waiting = false := by
    cases live : c.isFinished
    · obtain ⟨w, k, parks⟩ := serving.parked live
      have real := parks.real
      refine .inr (.inl ?_)
      cases waiting : c.waiting <;> simp_all [WaitReason.priority]
    · exact .inl rfl
  obtain ⟨walked, calm⟩ := Serving.walk discipline WaitReason.priority n c serving due
  exact walked.settle discipline calm

/-- A callback that records an error, sends nothing and keeps a dropped transport dropped ends
the task, when the link's bytes alone decide whether it is safe or free: a parked task is resumed
with the error at the first notification and closes the link, which sends nothing either. The
connection stays served, whatever is left to spare. -/
theorem Serving.wake_error (safeSent : SentOnly Safe) (freeSent : SentOnly Free)
    (serving : c.Serving input I Q Safe Free n taken) {f : Link Loopback → Link Loopback}
    (sends : (f c.world.link).transport.sends = c.world.link.transport.sends)
    (noted : (f c.world.link).error.isSome = true)
    (detaches : c.world.link.attached = false → (f c.world.link).attached = false)
    (e : NetError) (n' taken' : Nat) :
    ((c.mapLink f).wake (some e)).Serving input I Q Safe Free n' taken' ∧
      Calm ((c.mapLink f).wake (some e)) := by
  have sent : (f c.world.link).transport.sentBytes = c.world.link.transport.sentBytes := by
    rw [Loopback.sentBytes, sends]
    rfl
  have settled (l : Link Loopback) : l.settle.transport.sentBytes = l.transport.sentBytes := by
    unfold Loopback.sentBytes
    rw [(Link.PeerStep.settle l).frame.2.2.1]
  have settleKeeps (l : Link Loopback) : l.settle.error = l.error ∧ l.settle.attached = l.attached :=
    ⟨(Link.PeerStep.settle l).frame.1, (Link.PeerStep.settle l).frame.2.1⟩
  cases live : c.isFinished
  · obtain ⟨w, k, parks⟩ := serving.parked live
    have steady : (c.mapLink f).Steady (fun l => l.close.2) :=
      ⟨parks.idle, fun _ => ⟨k, parks.held, parks.quiet, parks.moves⟩⟩
    have rest : ∀ k', (c.mapLink f).lock.parked = some k' → Session.ClosesOnError k' := by
      intro k' held
      rw [mapLink_lock, parks.held, Option.some.injEq] at held
      exact held ▸ parks.errors
    obtain ⟨retired, closed⟩ : ((c.mapLink f).wakeFrom (some e) WaitReason.priority).isFinished = true ∧
        ((c.mapLink f).wakeFrom (some e) WaitReason.priority).world.link = (f c.world.link).close.2 :=
      steady.wakeFrom_error rest live e .recv [.flush, .sendBuf, .ack]
    refine ⟨.of_finished retired ?_ ?_, fun live' => absurd (live'.symm.trans retired) Bool.false_ne_true⟩
    · rw [Connection.wake, mapLink_world_link, closed]
      refine safeSent _ _ ?_ serving.safe
      rw [settled, Link.close_sentBytes, sent]
    · rw [Connection.wake, mapLink_world_link, closed, (settleKeeps _).1, (settleKeeps _).2]
      exact .inl (closed_ended rfl)
  · -- a finished task is left alone; only the link changes
    have retired : (c.mapLink f).isFinished = true := live
    rw [Connection.wake, wakeFrom_of_finished retired]
    refine ⟨.of_finished retired ?_ ?_, fun live' => absurd (live'.symm.trans retired) Bool.false_ne_true⟩
    · refine safeSent _ _ ?_ serving.safe
      rw [mapLink_world_link, settled, mapLink_world_link, sent]
    · rw [mapLink_world_link, mapLink_world_link, (settleKeeps _).1, (settleKeeps _).2]
      rcases serving.ended live with ⟨-, detached⟩ | free
      · exact .inl ⟨noted, detaches detached⟩
      · exact .inr (freeSent _ _ (by rw [settled, sent]) free)

/-- A quiet move keeps a served, calm connection served and calm, at four resumptions, when a poll
tick does not time the link out: bytes offered are queued as far as the queue has room and
counted as taken, and an acknowledgement and a poll tick are steps of the peer. -/
theorem Serving.move_quiet (discipline : Discipline I Q Safe Free) {state : Connection Loopback σ × Nat}
    (serving : state.1.Serving input I Q Safe Free (n + 4) state.2) (calm : Calm state.1) (mv : Peer.Move)
    (quiet : mv.Quiet) (untimed : mv = .poll → state.1.world.link.onPoll.2 = none) :
    (Peer.move input state mv).1.Serving input I Q Safe Free n (Peer.move input state mv).2 ∧
      Calm (Peer.move input state mv).1 := by
  obtain ⟨c, taken⟩ := state
  dsimp only at serving calm untimed
  cases mv with
  | send k =>
    rw [Peer.move_send]
    -- the queue takes what fits of the input's next `k` bytes
    let accepted := ((input.drop taken).take k).take (c.world.link.inboundCap - c.world.link.inbound.length)
    have fresh : accepted <+: input.drop taken := (List.take_prefix _ _).trans (List.take_prefix _ _)
    refine Serving.wake discipline (serving.drift discipline calm (.recv _ _) (fun live => ?_) (fun live => ?_)) <;>
      obtain ⟨w, k, parks⟩ := serving.parked live
    · show c.world.link.transport.recved + c.world.link.credit + (c.world.link.inbound ++ accepted).length =
        taken + accepted.length
      rw [List.length_append, ← parks.tally]
      omega
    · exact Link.within_append parks.within parks.tally fresh
  | ack len =>
    rw [Peer.move_ack, Peer.acknowledge_eq]
    exact Serving.wake discipline (serving.drift_queue discipline calm (.ack _ len) rfl)
  | poll =>
    rw [Peer.move_poll, onPoll_eq]
    have timeout := untimed rfl
    obtain ⟨idle, error, polled⟩ := Link.onPoll_eq c.world.link
    rw [timeout]
    exact Serving.wake discipline (serving.drift_queue discipline calm (.poll _ timeout) (by rw [polled]))
  | close => exact quiet.elim
  | fail e => exact quiet.elim

/-- Every move of the peer keeps a served, calm connection served and calm, at four resumptions,
when the link's bytes alone decide whether it is safe or free: a quiet move as `move_quiet` says,
and a timeout, the peer's close and a transport failure end the task. -/
theorem Serving.move (discipline : Discipline I Q Safe Free) (safeSent : SentOnly Safe)
    (freeSent : SentOnly Free) {state : Connection Loopback σ × Nat}
    (serving : state.1.Serving input I Q Safe Free (n + 4) state.2) (calm : Calm state.1) (mv : Peer.Move) :
    (Peer.move input state mv).1.Serving input I Q Safe Free n (Peer.move input state mv).2 ∧
      Calm (Peer.move input state mv).1 := by
  obtain ⟨c, taken⟩ := state
  dsimp only at serving calm
  cases mv with
  | send k => exact serving.move_quiet discipline calm _ trivial (fun other => by cases other)
  | ack len => exact serving.move_quiet discipline calm _ trivial (fun other => by cases other)
  | poll =>
    cases timeout : c.world.link.onPoll.2 with
    | none => exact serving.move_quiet discipline calm _ trivial fun _ => timeout
    | some e =>
      rw [Peer.move_poll, onPoll_eq, timeout]
      obtain ⟨idle, error, polled⟩ := Link.onPoll_eq c.world.link
      exact serving.wake_error safeSent freeSent (f := fun _ => c.world.link.onPoll.1) (by simp)
        (Link.onPoll_error_of_timeout timeout) (fun detached => by rw [polled]; exact detached) e n taken
  | close =>
    exact serving.wake_error safeSent freeSent (f := Link.onClosed) rfl
      (by simp [Link.onClosed, Link.noteError]) id _ n taken
  | fail e =>
    exact serving.wake_error safeSent freeSent (f := (·.onError e)) rfl
      (by simp [Link.onError, Link.noteError]) (fun _ => rfl) e n taken

/-- A run of moves keeps a served, calm connection served and calm, at four resumptions a move. -/
theorem Serving.play (discipline : Discipline I Q Safe Free) (safeSent : SentOnly Safe)
    (freeSent : SentOnly Free) (moves : List Peer.Move) :
    ∀ (n : Nat) (state : Connection Loopback σ × Nat),
      state.1.Serving input I Q Safe Free (n + 4 * moves.length) state.2 → Calm state.1 →
      (moves.foldl (Peer.move input) state).1.Serving input I Q Safe Free n
          (moves.foldl (Peer.move input) state).2 ∧
        Calm (moves.foldl (Peer.move input) state).1 := by
  induction moves with
  | nil =>
    intro n state serving calm
    exact ⟨serving, calm⟩
  | cons mv moves ih =>
    intro n state serving calm
    obtain ⟨served, calm'⟩ := Serving.move (n := n + 4 * moves.length) discipline safeSent freeSent
      (serving.mono (by simp only [List.length_cons]; omega)) calm mv
    exact ih n _ served calm'

/-- A run of quiet moves keeps a served, calm and steady connection whose link never times out
served and calm, at four resumptions a move: the moves keep the connection steady and the link's
idle limit, so no poll tick times it out. -/
theorem Serving.play_quiet (discipline : Discipline I Q Safe Free) (moves : List Peer.Move)
    (quiet : ∀ mv ∈ moves, mv.Quiet) :
    ∀ (n : Nat) (state : Connection Loopback σ × Nat),
      state.1.Serving input I Q Safe Free (n + 4 * moves.length) state.2 → Calm state.1 →
      state.1.Steady (fun l => l.close.2) → state.1.world.link.idleLimit = none →
      (moves.foldl (Peer.move input) state).1.Serving input I Q Safe Free n
          (moves.foldl (Peer.move input) state).2 ∧
        Calm (moves.foldl (Peer.move input) state).1 := by
  induction moves with
  | nil =>
    intro n state serving calm _ _
    exact ⟨serving, calm⟩
  | cons mv moves ih =>
    intro n state serving calm steady untimed
    have never : state.1.world.link.onPoll.2 = none := by
      simp [Link.onPoll, untimed]
    obtain ⟨served, calm'⟩ := Serving.move_quiet (n := n + 4 * moves.length) discipline
      (serving.mono (by simp only [List.length_cons]; omega)) calm mv (quiet mv List.mem_cons_self)
      fun _ => never
    obtain ⟨steady', limit⟩ := steady.move input mv
    exact ih (fun mv' later => quiet mv' (List.mem_cons_of_mem _ later)) n _ served calm' steady'
      (limit.trans untimed)

/-- A peer's play from a served, calm connection that has taken nothing, with four resumptions to
spare a move, leaves it served and calm. -/
theorem Serving.played (discipline : Discipline I Q Safe Free) (safeSent : SentOnly Safe)
    (freeSent : SentOnly Free) {c : Connection Loopback σ} (moves : List Peer.Move)
    (serving : c.Serving input I Q Safe Free (4 * moves.length) 0) (calm : Calm c) :
    (Peer.play input c moves).1.Serving input I Q Safe Free 0 (Peer.play input c moves).2 ∧
      Calm (Peer.play input c moves).1 := by
  unfold Peer.play
  exact Serving.play discipline safeSent freeSent moves 0 (c, 0) (serving.mono (by omega)) calm

/-- A peer's play of quiet moves from a served, calm and steady connection that has taken nothing
and whose link never times out, with four resumptions to spare a move, leaves it served and calm. -/
theorem Serving.played_quiet (discipline : Discipline I Q Safe Free) {c : Connection Loopback σ}
    (moves : List Peer.Move) (quiet : ∀ mv ∈ moves, mv.Quiet)
    (serving : c.Serving input I Q Safe Free (4 * moves.length) 0) (calm : Calm c)
    (steady : c.Steady fun l => l.close.2) (untimed : c.world.link.idleLimit = none) :
    (Peer.play input c moves).1.Serving input I Q Safe Free 0 (Peer.play input c moves).2 ∧
      Calm (Peer.play input c moves).1 := by
  unfold Peer.play
  exact Serving.play_quiet discipline moves quiet 0 (c, 0) (serving.mono (by omega)) calm steady untimed

/-- Starting the task on a fresh connection whose link records no error, holds its transport and
has received nothing, with a rest guided over `m` resumptions from the world the lock starts it
in: the connection is served, having taken nothing, and calm. -/
theorem Serving.start (discipline : Discipline I Q Safe Free) (w : Conn Loopback σ)
    (body : IoRoutine Loopback σ Unit) {m : Nat} (fresh : w.lock = {}) (clean : w.link.error = none)
    (attached : w.link.attached = true) (empty : w.link.inbound = [])
    (unreported : w.link.transport.recved + w.link.credit = 0)
    (guided : Guided input I Q Free m (body (LockWorld.setLockState w { phase := .running })))
    (moves : (body (LockWorld.setLockState w { phase := .running })).Moves (fun l => l.close.2)
      (LockWorld.setLockState w { phase := .running }))
    (errors : (body (LockWorld.setLockState w { phase := .running })).EndsOnError Closes) :
    ((⟨{}, w⟩ : Connection Loopback σ).start body).2.Serving input I Q Safe Free m 0 ∧
      Calm ((⟨{}, w⟩ : Connection Loopback σ).start body).2 := by
  have free : ({} : IoLock (Conn Loopback σ)).isLive w = false := by
    simp [IoLock.isLive, fresh]
  have started := IoLock.run_of_free body free
  unfold Connection.start
  rw [started]
  obtain ⟨driven, calm⟩ := drive_serving discipline moves guided errors rfl rfl clean attached
    (by simp only [Conn.setLockState_link, empty, List.length_nil]; omega)
    (by simp [Conn.Within, Conn.consumedCount, empty])
  exact driven.settle discipline calm

/-- A parked task waits where its guarantee admits, or its rest runs free. -/
theorem Parks.admits (discipline : Discipline I Q Safe Free) (parks : c.Parks input I Q Free n taken w k) :
    I c.waiting w ∨ Free c.world.link := by
  obtain ⟨m, -, guided⟩ := parks.guided
  cases guided with
  | wait holds _ => exact .inl holds
  | last holds => exact .inl holds
  | free free moves =>
    cases moves with
    | suspend steps _ _ _ =>
      exact .inr (discipline.free_of_drifts parks.drifts (discipline.free_of_steps steps free))

/-- A task parked on a calm connection that has taken the whole input and has every sent byte
acknowledged waits for bytes, in a world the guarantee admits with the whole input consumed and
the bytes sent so far, or runs free: a wait on anything else is a wait the link awaits, which
leaves bytes unacknowledged on a loopback whose window holds a region. -/
theorem Parks.drained (discipline : Discipline I Q Safe Free) (parks : c.Parks input I Q Free n taken w k)
    (calm : c.world.link.isReady c.waiting = false) (all : taken = input.length)
    (acked : c.world.link.transport.unacked = 0)
    (window : ∀ y u, I y u → y ≠ .recv →
      ∃ limit s, u.link.Carries limit s ∧ limit + 4 ≤ u.link.transport.capacity) :
    (∃ u, I .recv u ∧ u.consumedCount = input.length ∧
      u.link.transport.sentBytes = c.world.link.transport.sentBytes) ∨ Free c.world.link := by
  rcases parks.admits discipline with holds | free
  · by_cases recv : c.waiting = .recv
    · -- a wait for bytes that is not ready has the queue empty: everything taken is consumed
      have empty : c.world.link.inbound = [] := by
        rw [recv] at calm
        simpa [Link.isReady, parks.clean] using calm
      have held : w.link.attached = true := parks.drifts.attached ▸ parks.attached
      obtain ⟨-, -, count, -⟩ := parks.drifts.frame held
      refine .inl ⟨w, recv ▸ holds, ?_, parks.drifts.sentBytes.symm⟩
      have tally := parks.tally
      rw [empty, List.length_nil, Nat.add_zero, count] at tally
      rw [Conn.consumedCount, tally, all]
    · rcases parks.owed calm recv with awaits | free
      · obtain ⟨limit, s, carries, roomy⟩ := window _ _ holds recv
        obtain ⟨s', carries'⟩ := parks.drifts.carries ⟨s, carries⟩
        have owed := carries'.unacked_pos (parks.drifts.capacity ▸ roomy) awaits
        omega
      · exact .inr free
  · exact .inr free

/-- A served, calm connection that has taken the whole input, has every sent byte acknowledged
and no error recorded holds its task parked as `Parks.drained` says, or is free: a task that
ended with an error recorded one. -/
theorem Serving.drained (discipline : Discipline I Q Safe Free)
    (serving : c.Serving input I Q Safe Free n taken) (calm : Calm c)
    (all : taken = input.length) (acked : c.world.link.transport.unacked = 0)
    (clean : c.world.link.error = none)
    (window : ∀ y u, I y u → y ≠ .recv →
      ∃ limit s, u.link.Carries limit s ∧ limit + 4 ≤ u.link.transport.capacity) :
    (∃ u, I .recv u ∧ u.consumedCount = input.length ∧
      u.link.transport.sentBytes = c.world.link.transport.sentBytes) ∨ Free c.world.link := by
  cases live : c.isFinished
  · obtain ⟨w, k, parks⟩ := serving.parked live
    exact parks.drained discipline (calm live) all acked window
  · rcases serving.ended live with ⟨noted, -⟩ | free
    · rw [clean] at noted
      cases noted
    · exact .inr free

end Walk

end Serving

end Connection

end WebSocketCore
