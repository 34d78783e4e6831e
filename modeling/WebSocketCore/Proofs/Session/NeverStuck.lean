import Mathlib
import WebSocketCore.Proofs.Session.Waits
import WebSocketCore.Simulation.Loopback

/-! # No connection is left stuck

A connection's task is the session. It is started once, and from then on it runs only inside
transport callbacks, each of which changes the link and then wakes the task: the lock is notified
of the callback's error, if any, for the first reason, and of every reason that is ready, in
priority order. Whenever a start or a callback returns, the task has finished, or the lock is idle
and holds the task parked on a reason that is not ready, with no error on the link; a drain or
an acknowledgement it waits for is owed by bytes in flight, and send room by a pending region longer
than the window the transport offered when the wait was armed. So every wait is owed an event
that will resume it.

The argument: the session is honest (`Session.run_keeps`), so whenever the lock parks it, it
parks it on an owed reason that was not ready, in a sound world. A callback changes the link
only in ways that keep it sound and keep every debt of a reason that stays not ready; the wake
that follows visits the parked reason, and resumes the task if that reason has become ready, so
after the walk the reason the task waits on is again not ready.
-/

namespace WebSocketCore

/-- The events a transport reports to a connection. -/
inductive Callback where
  /-- Bytes arrived. -/
  | recv (bytes : List UInt8)
  /-- The peer acknowledged `len` bytes. -/
  | sent (len : Nat)
  /-- A poll tick. -/
  | poll
  /-- The peer closed the connection. -/
  | closed
  /-- The transport failed. -/
  | error (e : NetError)
  deriving DecidableEq, Repr

instance {τ σ : Type} [Transport τ] : LawfulLockWorld (Conn τ σ) where
  lockState_setLockState _ _ := rfl
  isReady_setLockState _ _ _ := rfl

@[simp] theorem Conn.lockState_eq {τ σ : Type} [Transport τ] (w : Conn τ σ) :
    LockWorld.lockState w = w.lock := rfl

namespace Link

variable {τ : Type}

/-- A poll changes the idle count and the error, and nothing else. -/
theorem onPoll_eq (l : Link τ) :
    ∃ idle error, l.onPoll.1 = { l with idlePolls := idle, error := error } := by
  unfold onPoll
  split
  · exact ⟨l.idlePolls, l.error, rfl⟩
  · dsimp only
    split_ifs <;> exact ⟨_, _, rfl⟩

@[simp] theorem onPoll_ring (l : Link τ) : l.onPoll.1.ring = l.ring := by
  obtain ⟨idle, error, polled⟩ := l.onPoll_eq
  rw [polled]

@[simp] theorem onPoll_transport (l : Link τ) : l.onPoll.1.transport = l.transport := by
  obtain ⟨idle, error, polled⟩ := l.onPoll_eq
  rw [polled]

@[simp] theorem onPoll_credit (l : Link τ) : l.onPoll.1.credit = l.credit := by
  obtain ⟨idle, error, polled⟩ := l.onPoll_eq
  rw [polled]

@[simp] theorem onPoll_attached (l : Link τ) : l.onPoll.1.attached = l.attached := by
  obtain ⟨idle, error, polled⟩ := l.onPoll_eq
  rw [polled]

@[simp] theorem onPoll_inbound (l : Link τ) : l.onPoll.1.inbound = l.inbound := by
  obtain ⟨idle, error, polled⟩ := l.onPoll_eq
  rw [polled]

@[simp] theorem onPoll_idleLimit (l : Link τ) : l.onPoll.1.idleLimit = l.idleLimit := by
  obtain ⟨idle, error, polled⟩ := l.onPoll_eq
  rw [polled]

/-- A link with an error has every reason but `ended` ready. -/
theorem error_eq_none_of_not_ready {l : Link τ} {y : WaitReason} (waits : y ≠ .ended)
    (calm : l.isReady y = false) : l.error = none := by
  cases error : l.error with
  | none => rfl
  | some e =>
    simp [isReady, error] at calm
    exact absurd calm waits

variable [Transport τ]

/-- A link that keeps a link's ring and transport owes what that link owed. -/
theorem Owed.of_same {l l' : Link τ} {y : WaitReason} (owed : l.Owed y) (ring : l'.ring = l.ring)
    (transport : l'.transport = l.transport) : l'.Owed y := by
  obtain ⟨t, credits, before, owes⟩ := owed
  exact ⟨t, credits, transport.trans before, ring ▸ owes⟩

theorem isReady_settle (l : Link τ) (y : WaitReason) : l.settle.isReady y = l.isReady y := by
  unfold settle
  split_ifs <;> rfl

theorem settle_sound {l : Link τ} (sound : l.Sound) : l.settle.Sound := by
  unfold settle
  split_ifs <;> exact sound

/-- Reporting consumed bytes keeps every debt: the transport before the report still owes it. -/
theorem Owed.settle {l : Link τ} {y : WaitReason} (owed : l.Owed y) : l.settle.Owed y := by
  obtain ⟨t, credits, before, owes⟩ := owed
  unfold Link.settle
  split_ifs
  · exact ⟨t, credits, before, owes⟩
  · refine ⟨t, credits ++ [l.credit], ?_, owes⟩
    rw [List.foldl_append, ← before]
    rfl
  · exact ⟨t, credits, before, owes⟩

/-- A reason other than send room or an acknowledgement that is not ready after an
acknowledgement keeps its debt: the acknowledgement leaves nothing open or pending. Send room and
acknowledgements that were not ready become ready. -/
theorem Owed.onSent {l : Link τ} {y : WaitReason} (calm : l.isReady y = false) (owed : l.Owed y)
    (len : Nat) (still : (l.onSent len).isReady y = false) : (l.onSent len).Owed y := by
  obtain ⟨t, credits, before, owes⟩ := owed
  cases y with
  | ended => exact ⟨t, credits, before, trivial⟩
  | recv => exact ⟨t, credits, before, trivial⟩
  | flush =>
    exact ⟨t, credits, before, by simpa [FrameRing.Owes, Link.onSent] using owes⟩
  | sendBuf | ack =>
    -- the wait was armed at the count of acknowledgements, and one more came
    have quiet := error_eq_none_of_not_ready (by decide) calm
    simp only [isReady, Link.onSent, quiet, Option.isSome_none, Bool.false_eq_true, if_false,
      bne_eq_false_iff_eq] at calm still
    rw [← calm] at still
    exact absurd still (by simp)

end Link

namespace Connection

variable {τ σ : Type}

@[simp] theorem mapLink_lock (c : Connection τ σ) (f : Link τ → Link τ) :
    (c.mapLink f).lock = c.lock := rfl

@[simp] theorem mapLink_world_lock (c : Connection τ σ) (f : Link τ → Link τ) :
    (c.mapLink f).world.lock = c.world.lock := rfl

@[simp] theorem mapLink_world_link (c : Connection τ σ) (f : Link τ → Link τ) :
    (c.mapLink f).world.link = f c.world.link := rfl

variable [Transport τ]

/-- Handles one callback. -/
def handle (c : Connection τ σ) : Callback → Connection τ σ
  | .recv bytes => (c.onRecv bytes).1
  | .sent len => c.onSent len
  | .poll => c.onPoll
  | .closed => c.onClosed
  | .error e => c.onError e

/-- The connection after the session is started on a fresh connection over `link` and the
callbacks are handled in order. -/
def session (link : Link τ) (app : σ) (accept : List UInt8 → List UInt8) (config : Config)
    (page : List UInt8) (service : Service τ σ) (callbacks : List Callback) : Connection τ σ :=
  callbacks.foldl handle (({ world := { link, app } } : Connection τ σ).start
    (Session.run accept config page service)).2

/-- The lock holds the task parked, with no error recorded for it, on a reason other than
`ended` that the sound link owes unless it is ready; every resumption of the task into a sound
world keeps the session's discipline. -/
structure Parked (c : Connection τ σ)
    (k : Wake → Conn τ σ → Progress (Conn τ σ) WaitReason Wake Unit) : Prop where
  held : c.lock.parked = some k
  live : c.isFinished = false
  waits : c.waiting ≠ .ended
  quiet : c.world.lock.error = none
  sound : c.world.Sound
  owed : c.world.link.isReady c.waiting = false → c.world.Owed c.waiting
  rest : ∀ v w', Conn.Sound w' → (k v w').Keeps Conn.Sound Conn.Owed fun _ => Conn.Sound

/-- The lock is idle, and its task has finished or is parked keeping the discipline. -/
def Held (c : Connection τ σ) : Prop := c.phase = .idle ∧ (c.isFinished = true ∨ ∃ k, c.Parked k)

/-- Held, with a parked task's reason not ready: how every start and callback leaves it. -/
def Settled (c : Connection τ σ) : Prop :=
  c.Held ∧ (c.isFinished = false → c.world.link.isReady c.waiting = false)

/-! ## Driving and notifying -/

/-- An idle connection whose task has finished is settled. -/
theorem settled_of_finished {c : Connection τ σ} (idle : c.phase = .idle)
    (retired : c.isFinished = true) : c.Settled :=
  ⟨⟨idle, .inl retired⟩, fun live => absurd (live.symm.trans retired) Bool.false_ne_true⟩

/-- Driving an honest task leaves the connection settled: the task is retired, or parked on an
owed reason that was not ready where it suspended. -/
theorem drive_settled {p : Progress (Conn τ σ) WaitReason Wake Unit}
    (kept : p.Keeps Conn.Sound Conn.Owed fun _ => Conn.Sound) :
    (⟨(IoLock.drive p).2.1, (IoLock.drive p).2.2⟩ : Connection τ σ).Settled := by
  have idle := IoLock.drive_idle p
  rcases IoLock.drive_keeps (fun _ _ sound => sound) kept with
    free | ⟨k, y, w, held, atPark, ended, quiet, calm, sound, owed, rest⟩
  · have retired := IoLock.drive_finished_of_free p free
    exact settled_of_finished idle retired
  · -- the task suspended in `w` and was parked there on `y`
    rw [atPark] at idle ⊢
    cases live : w.lock.finished
    · exact ⟨⟨idle, .inr ⟨k, held, live, ended, quiet, sound, fun _ => owed, rest⟩⟩, fun _ => calm⟩
    · exact settled_of_finished idle live

theorem notify_of_finished {c : Connection τ σ} (retired : c.isFinished = true) (r : WaitReason)
    (e : Option NetError) : c.lock.notify r e c.world = (.ok false, c.lock, c.world) := by
  have retired' : (LockWorld.lockState c.world).finished = true := retired
  simp only [IoLock.notify, LockState.offer, retired', if_true]
  rfl

/-- A notification to a parked task resumes it, leaving the connection settled, exactly when it
names the reason the task waits for or brings an error; otherwise nothing changes but the
recorded error, which stays none. -/
theorem notify_of_parked {c : Connection τ σ} {k : Wake → Conn τ σ → Progress (Conn τ σ) WaitReason Wake Unit}
    (idle : c.phase = .idle) (parked : c.Parked k) (r : WaitReason) (e : Option NetError) :
    let c' : Connection τ σ := ⟨(c.lock.notify r e c.world).2.1, (c.lock.notify r e c.world).2.2⟩
    (c.waiting = r ∨ e.isSome → c'.Settled) ∧
      (¬(c.waiting = r ∨ e.isSome) → c'.phase = .idle ∧ c'.Parked k ∧ c'.waiting = c.waiting ∧
        c'.world.link = c.world.link) := by
  intro c'
  have notified := IoLock.notify_of_held parked.held idle parked.live r e
  simp only [Conn.lockState_eq, parked.quiet] at notified
  refine ⟨fun resumes => ?_, fun calm => ?_⟩ <;> split_ifs at notified with named
  · simp only [c', notified, Prod.map_snd, id_eq]
    exact drive_settled (parked.rest _ _ (by exact parked.sound))
  · exact absurd resumes named
  · exact absurd named calm
  · have silent : e = none := Option.not_isSome_iff_eq_none.mp (not_or.mp calm).2
    subst silent
    simp only [c', notified]
    exact ⟨idle, ⟨parked.held, parked.live, parked.waits, rfl, parked.sound, parked.owed,
      parked.rest⟩, rfl, rfl⟩

/-! ## The wake walk -/

theorem Settled.held {c : Connection τ σ} (settled : c.Settled) : c.Held := settled.1

/-- A settled connection is due to no walk: its task has finished or its reason is not ready. -/
theorem Settled.due {c : Connection τ σ} (settled : c.Settled) (rs : List WaitReason) :
    c.isFinished = true ∨ c.waiting ∈ rs ∨ c.world.link.isReady c.waiting = false := by
  cases live : c.isFinished
  · exact .inr (.inr (settled.2 live))
  · exact .inl rfl

/-- The walk's step at a reason it notifies: with the callback's error, or because it is ready. -/
theorem wakeFrom_cons_of_notified {c : Connection τ σ} {e : Option NetError} {r : WaitReason}
    (rs : List WaitReason) (notified : (e.isNone && !c.world.link.isReady r) = false) :
    c.wakeFrom e (r :: rs) =
      (⟨(c.lock.notify r e c.world).2.1, (c.lock.notify r e c.world).2.2⟩ : Connection τ σ).wakeFrom
        none rs := by
  rw [wakeFrom, if_neg (by rw [notified]; exact Bool.false_ne_true)]

/-- The walk over `rs` leaves the connection settled when the task has finished, waits on a
reason still to be visited, or waits on one that is not ready. -/
theorem wakeFrom_settled (rs : List WaitReason) : ∀ (c : Connection τ σ) (e : Option NetError),
    c.Held → (c.isFinished = true ∨ c.waiting ∈ rs ∨ c.world.link.isReady c.waiting = false) →
    (c.wakeFrom e rs).Settled := by
  induction rs with
  | nil =>
    intro c e held due
    rw [wakeFrom]
    refine ⟨held, fun live => ?_⟩
    rcases due with retired | absent | calm
    · rw [live] at retired
      cases retired
    · cases absent
    · exact calm
  | cons r rs ih =>
    intro c e held due
    cases skipped : (e.isNone && !c.world.link.isReady r)
    · rw [wakeFrom_cons_of_notified rs skipped]
      obtain ⟨idle, retired | ⟨k, parked⟩⟩ := held
      · rw [notify_of_finished retired]
        exact ih c none ⟨idle, .inl retired⟩ (.inl retired)
      · by_cases resumes : c.waiting = r ∨ e.isSome
        · have settled := (notify_of_parked idle parked r e).1 resumes
          exact ih _ none settled.held (settled.due rs)
        · -- the task waits on another reason than `r`, which is ready: it waits as before
          obtain ⟨idle', parked', waiting', link'⟩ := (notify_of_parked idle parked r e).2 resumes
          refine ih _ none ⟨idle', .inr ⟨k, parked'⟩⟩ ?_
          rw [waiting', link']
          rcases due with retired | visited | calm
          · rw [parked.live] at retired
            cases retired
          · rcases List.mem_cons.mp visited with same | later
            · exact absurd (.inl same) resumes
            · exact .inr (.inl later)
          · exact .inr (.inr calm)
    · -- no error came and `r` is not ready: nothing is notified
      rw [wakeFrom, if_pos skipped]
      simp only [Bool.and_eq_true, Option.isNone_iff_eq_none, Bool.not_eq_eq_eq_not,
        Bool.not_true] at skipped
      refine ih c none held ?_
      rcases due with retired | visited | calm
      · exact .inl retired
      · rcases List.mem_cons.mp visited with same | later
        · exact .inr (.inr (same ▸ skipped.2))
        · exact .inr (.inl later)
      · exact .inr (.inr calm)

/-- Reporting consumed bytes keeps the connection settled. -/
theorem Settled.settle {c : Connection τ σ} (settled : c.Settled) :
    (c.mapLink Link.settle).Settled := by
  obtain ⟨⟨idle, retired | ⟨k, parked⟩⟩, calm⟩ := settled
  · exact settled_of_finished idle retired
  · refine ⟨⟨idle, .inr ⟨k, parked.held, parked.live, parked.waits, parked.quiet,
      Link.settle_sound parked.sound, fun still => ?_, parked.rest⟩⟩, fun live => ?_⟩
    · simp only [mapLink_world_link, Link.isReady_settle] at still
      exact (parked.owed still).settle
    · simp only [waiting, mapLink_world_lock, mapLink_world_link, Link.isReady_settle]
      exact calm live

/-- Waking a held task leaves the connection settled: the walk visits every reason a task can
wait on. -/
theorem Held.wake {c : Connection τ σ} (held : c.Held) (e : Option NetError) :
    (c.wake e).Settled := by
  refine (wakeFrom_settled WaitReason.priority c e held ?_).settle
  rcases held with ⟨-, retired | ⟨k, parked⟩⟩
  · exact .inl retired
  · refine .inr (.inl ?_)
    have waits := parked.waits
    cases waiting : c.waiting <;> simp_all [WaitReason.priority]

/-- A change of the link that keeps it sound and keeps the debt of the parked reason while that
reason stays not ready leaves a settled connection held. -/
theorem Settled.mapLink {c : Connection τ σ} (settled : c.Settled) {f : Link τ → Link τ}
    (sound : c.world.link.Sound → (f c.world.link).Sound)
    (owed : c.world.link.isReady c.waiting = false → c.world.link.Owed c.waiting →
      (f c.world.link).isReady c.waiting = false → (f c.world.link).Owed c.waiting) :
    (c.mapLink f).Held := by
  obtain ⟨⟨idle, retired | ⟨k, parked⟩⟩, calm⟩ := settled
  · exact ⟨idle, .inl retired⟩
  · have was := calm parked.live
    exact ⟨idle, .inr ⟨k, parked.held, parked.live, parked.waits, parked.quiet,
      sound parked.sound, owed was (parked.owed was), parked.rest⟩⟩

/-- A callback that leaves the ring and the transport alone keeps every debt. -/
theorem Settled.mapLink_same {c : Connection τ σ} (settled : c.Settled) {f : Link τ → Link τ}
    (ring : (f c.world.link).ring = c.world.link.ring)
    (transport : (f c.world.link).transport = c.world.link.transport) :
    (c.mapLink f).Held :=
  settled.mapLink (fun sound => sound.of_ring (ring ▸ sound.1) (by rw [ring]))
    fun _ owed _ => owed.of_same ring transport

theorem onPoll_eq (c : Connection τ σ) :
    c.onPoll = (c.mapLink fun _ => c.world.link.onPoll.1).wake c.world.link.onPoll.2 := rfl

/-- Every callback leaves a settled connection settled. -/
theorem Settled.handle {c : Connection τ σ} (settled : c.Settled) (callback : Callback) :
    (c.handle callback).Settled := by
  cases callback with
  | recv bytes => exact (settled.mapLink_same (f := fun _ => (c.world.link.onRecv bytes).1) rfl rfl).wake _
  | sent len =>
    refine (settled.mapLink (f := (·.onSent len)) (fun sound => ?_) fun calm owed still => ?_).wake _
    · exact sound.of_ring (sound.1.onAck len) (FrameRing.onAck_size _ _)
    · exact owed.onSent calm len still
  | poll =>
    rw [Connection.handle, onPoll_eq]
    exact (settled.mapLink_same (f := fun _ => c.world.link.onPoll.1) (Link.onPoll_ring _)
      (Link.onPoll_transport _)).wake _
  | closed => exact (settled.mapLink_same (f := Link.onClosed) rfl rfl).wake _
  | error e => exact (settled.mapLink_same (f := (·.onError e)) rfl rfl).wake _

/-- Callbacks handled one after another leave a settled connection settled. -/
theorem Settled.handleAll {c : Connection τ σ} (settled : c.Settled) (callbacks : List Callback) :
    (callbacks.foldl Connection.handle c).Settled := by
  induction callbacks generalizing c with
  | nil => exact settled
  | cons callback rest ih => exact ih (settled.handle callback)

theorem start_eq (c : Connection τ σ) (body : IoRoutine τ σ Unit) :
    (c.start body).2 =
      (⟨(c.lock.run body c.world).2.1, (c.lock.run body c.world).2.2⟩ : Connection τ σ).mapLink
        Link.settle := rfl

/-- A session started on a fresh connection over a sound link leaves it settled. -/
theorem start_settled {link : Link τ} (sound : link.Sound) (app : σ)
    (accept : List UInt8 → List UInt8) (config : Config) (page : List UInt8) {service : Service τ σ}
    (onSocket : ∀ ws, Io.SocketProgram (service ws)) :
    (({ world := { link, app } } : Connection τ σ).start
      (Session.run accept config page service)).2.Settled := by
  -- a fresh lock is free, so the start drives the session from its first step
  have free : ({} : IoLock (Conn τ σ)).isLive ({ link, app } : Conn τ σ) = false := rfl
  have started := drive_settled (Session.run_keeps accept config page onSocket
    (LockWorld.setLockState ({ link, app } : Conn τ σ) { phase := .running }) sound)
  rw [start_eq, IoLock.run_of_free _ free]
  exact started.settle

/-- The connection's task has finished, or the lock is idle and holds it parked on a reason
among `recv`, `flush`, `sendBuf` and `ack` that is not ready, on a link with no error, and the
reason is owed an event: bytes in flight for a drain or an acknowledgement, and for send room a
pending region longer than the window the transport offered before the consumed bytes reported
since. -/
def NotStuck (c : Connection τ σ) : Prop :=
  c.isFinished = true ∨
    (c.phase = .idle ∧ c.lock.parked.isSome ∧ c.world.link.error = none ∧
      c.waiting ∈ WaitReason.priority ∧ c.world.link.isReady c.waiting = false ∧
      (c.waiting = .flush ∨ c.waiting = .ack → 0 < c.world.link.ring.inFlight) ∧
      (c.waiting = .sendBuf → ∃ p, c.world.link.ring.pending = some p ∧
        ∃ (t : τ) (credits : List Nat), c.world.link.transport = credits.foldl Transport.recved t ∧
          Transport.sendCapacity t < p.stop - p.start))

theorem Settled.not_stuck {c : Connection τ σ} (settled : c.Settled) : c.NotStuck := by
  obtain ⟨⟨idle, retired | ⟨k, parked⟩⟩, calm⟩ := settled
  · exact .inl retired
  have still := calm parked.live
  obtain ⟨t, credits, before, owes⟩ := parked.owed still
  have quiet := Link.error_eq_none_of_not_ready parked.waits still
  refine .inr ⟨idle, by simp [parked.held], quiet, ?_, still, ?_, ?_⟩
  · have waits := parked.waits
    cases waiting : c.waiting <;> simp_all [WaitReason.priority]
  · rintro (drain | acked)
    · rw [drain] at owes still
      simp only [Link.isReady, quiet, Option.isSome_none, Bool.false_eq_true, if_false] at still
      exact parked.sound.1.inFlight_pos_of_busy owes.1 owes.2 still
    · rw [acked] at owes
      exact owes
  · intro room
    rw [room] at owes
    obtain ⟨p, pending, small⟩ := owes
    exact ⟨p, pending, t, credits, before, small⟩

/-- The echo service is made of the socket's operations. -/
theorem echo_socketProgram (ws : WebSocket) : Io.SocketProgram (Service.echo (τ := τ) (σ := σ) ws) := by
  unfold Service.echo Io.loop
  refine .loopFor _ _ fun ws => .bind (.read _ _) fun got => ?_
  obtain ⟨data, ws⟩ := got
  refine .bind (.write _ _) fun _ => ?_
  split
  · exact .bind (.push _) fun _ => .pure _
  · exact .pure _

/-- No connection is left stuck, whatever callbacks follow the session's start. -/
theorem session_never_stuck {transport : τ} {config : Config} {ringSize inboundCap : Nat}
    {link : Link τ} (made : Link.new transport config ringSize inboundCap = .ok link) (app : σ)
    (accept : List UInt8 → List UInt8) (page : List UInt8) {service : Service τ σ}
    (onSocket : ∀ ws, Io.SocketProgram (service ws)) (callbacks : List Callback) :
    (session link app accept config page service callbacks).NotStuck :=
  -- the start leaves the connection settled, and so does every callback after it
  ((start_settled (Link.new_sound made) app accept config page onSocket).handleAll callbacks).not_stuck

theorem echo_session_never_stuck :
    let link : Link Loopback :=
      { transport := { capacity := 64 }, inboundCap := 64,
        ring := FrameRing.new 64 (1024 : UInt16).toNat (512 : UInt16).toNat }
    Link.new { capacity := 64 } {} 64 64 = .ok link ∧
      (session link () Response.acceptKey {} [] Service.echo
        [.recv [0x81, 0x00], .poll, .sent 2, .closed]).NotStuck := by
  intro link
  have made : Link.new { capacity := 64 } {} 64 64 = .ok link := rfl
  exact ⟨made, session_never_stuck made () Response.acceptKey [] echo_socketProgram _⟩

end Connection

end WebSocketCore
