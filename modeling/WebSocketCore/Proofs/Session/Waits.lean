import Mathlib
import WebSocketCore.Session
import WebSocketCore.Proofs.Ring.Blocking
import WebSocketCore.Proofs.Task.Keeps
import WebSocketCore.Proofs.Io.Stream

/-! # A session waits only for what it is owed

A link is sound when its ring keeps the representation invariant and can hold a region, and a
link owes a task waiting on a reason what its ring owes that reason, against the transport as it
was before the consumed bytes reported since. A task is honest when, from every sound world, it
keeps the link sound, suspends only on reasons the link owes, and is honest again after every
resumption into a sound world (`Progress.Keeps`).

The link's operations keep it sound, and those that tell the task to wait are owed: an append
blocked on send room or acknowledgements, a push blocked on send room, a flush that waits for
the ring to drain with nothing left open or pending. So reading and writing are honest, and so
are the handshake, the frame reader and the session, for every service made of the socket's
operations.
-/

namespace WebSocketCore

namespace Link

variable {τ : Type}

/-- The ring keeps its representation invariant and can hold a region. -/
def Sound (l : Link τ) : Prop := l.ring.Inv ∧ minRegion ≤ l.ring.size

/-- A link whose ring keeps the invariant and the size of a sound link's ring is sound. -/
theorem Sound.of_ring {l l' : Link τ} (sound : l.Sound) (inv : l'.ring.Inv)
    (size : l'.ring.size = l.ring.size) : l'.Sound :=
  ⟨inv, size ▸ sound.2⟩

theorem withRing_eq {α : Type} (l : Link τ) (op : FrameRing → τ → RingOutcome τ α) :
    l.withRing op = ((op l.ring l.transport).result,
      { l with ring := (op l.ring l.transport).ring, transport := (op l.ring l.transport).transport }) := by
  cases l
  rfl

/-- A link that is usable runs the ring operation; one that is not answers its error. -/
theorem usable_cases (l : Link τ) : (∃ e, l.usable = .error e) ∨ l.usable = .ok () := by
  rcases l.usable with e | u
  · exact .inl ⟨e, rfl⟩
  · exact .inr rfl

/-- A link made for a valid configuration is sound: its ring is empty and holds two regions. -/
theorem new_sound {transport : τ} {config : Config} {ringSize inboundCap : Nat} {l : Link τ}
    (made : Link.new transport config ringSize inboundCap = .ok l) : l.Sound := by
  unfold Link.new at made
  rcases valid : config.validate with e | u
  · rw [valid] at made
    cases made
  · rw [valid] at made
    by_cases small : ringSize < minRingSize ∨ inboundCap = 0
    · simp [small] at made
      cases made
    · simp [small] at made
      subst made
      have large : minRegion ≤ ringSize := by
        simp only [not_or, not_lt, minRingSize, minRegion] at small ⊢
        omega
      exact ⟨(FrameRing.Reachable.new _ _ _).inv, large⟩

variable [Transport τ]

/-- What the link owes a task waiting on `reason`: what the ring owes it against the transport
as it was before some consumed bytes were reported to it. -/
def Owed (l : Link τ) (reason : WaitReason) : Prop :=
  ∃ (t : τ) (credits : List Nat), l.transport = credits.foldl Transport.recved t ∧
    l.ring.Owes t reason

theorem owed_of_owes {l : Link τ} {reason : WaitReason} (owes : l.ring.Owes l.transport reason) :
    l.Owed reason :=
  ⟨l.transport, [], rfl, owes⟩

theorem owed_recv (l : Link τ) : l.Owed .recv := owed_of_owes trivial

theorem append_eq {l : Link τ} (usable : l.usable = .ok ()) (framing : Framing)
    (bytes : List UInt8) :
    l.append framing bytes =
      match (l.ring.append l.transport framing bytes).result with
      | .ok (.blocked r) => (.ok (.blocked r),
          { l with ring := (l.ring.append l.transport framing bytes).ring,
                   transport := (l.ring.append l.transport framing bytes).transport }.arm)
      | other => (other,
          { l with ring := (l.ring.append l.transport framing bytes).ring,
                   transport := (l.ring.append l.transport framing bytes).transport }) := by
  simp only [append, usable, withRing_eq]
  split <;> simp_all

theorem push_eq {l : Link τ} (usable : l.usable = .ok ()) :
    l.push =
      match (l.ring.finish l.transport).result with
      | .ok (some r) => (.ok (some r),
          { l with ring := (l.ring.finish l.transport).ring,
                   transport := (l.ring.finish l.transport).transport }.arm)
      | other => (other,
          { l with ring := (l.ring.finish l.transport).ring,
                   transport := (l.ring.finish l.transport).transport }) := by
  simp only [push, usable, withRing_eq]
  split <;> simp_all

theorem append_sound {l : Link τ} (sound : l.Sound) (framing : Framing) (bytes : List UInt8) :
    (l.append framing bytes).2.Sound := by
  rcases usable_cases l with ⟨e, broken⟩ | usable
  · simp only [append, broken]
    exact sound
  · rw [append_eq usable]
    split <;> exact sound.of_ring (sound.1.append _ _ _) (FrameRing.append_size _ _ _ _)

/-- An append that tells the task to wait is owed the reason. -/
theorem append_owed {l : Link τ} (sound : l.Sound) {framing : Framing} {bytes : List UInt8}
    {y : WaitReason} (blocked : (l.append framing bytes).1 = .ok (.blocked y)) :
    (l.append framing bytes).2.Owed y := by
  rcases usable_cases l with ⟨e, broken⟩ | usable
  · simp [append, broken] at blocked
  · rw [append_eq usable] at blocked ⊢
    rcases answer : (l.ring.append l.transport framing bytes).result with e | a
    · simp [answer] at blocked
    · cases a with
      | took n => simp [answer] at blocked
      | blocked r =>
        simp only [answer, Except.ok.injEq, Append.blocked.injEq] at blocked ⊢
        subst blocked
        exact owed_of_owes (FrameRing.append_owes sound.1 sound.2 _ _ _ answer)

theorem push_sound {l : Link τ} (sound : l.Sound) : l.push.2.Sound := by
  rcases usable_cases l with ⟨e, broken⟩ | usable
  · simp only [push, broken]
    exact sound
  · rw [push_eq usable]
    split <;> exact sound.of_ring (sound.1.finish _) (FrameRing.finish_size _ _)

/-- A push that tells the task to wait is owed the reason. -/
theorem push_owed {l : Link τ} {y : WaitReason} (waits : l.push.1 = .ok (some y)) :
    l.push.2.Owed y := by
  rcases usable_cases l with ⟨e, broken⟩ | usable
  · simp [push, broken] at waits
  · rw [push_eq usable] at waits ⊢
    rcases answer : (l.ring.finish l.transport).result with e | a
    · simp [answer] at waits
    · cases a with
      | none => simp [answer] at waits
      | some r =>
        simp only [answer, Except.ok.injEq, Option.some.injEq] at waits ⊢
        subst waits
        exact owed_of_owes (FrameRing.finish_owes _ _ answer).2

/-- A push that does not tell the task to wait leaves nothing open or pending. -/
theorem push_settled {l : Link τ} (done : l.push.1 = .ok none) :
    l.push.2.ring.openRegion = none ∧ l.push.2.ring.pending = none := by
  rcases usable_cases l with ⟨e, broken⟩ | usable
  · simp [push, broken] at done
  · rw [push_eq usable] at done ⊢
    rcases answer : (l.ring.finish l.transport).result with e | a
    · simp [answer] at done
    · cases a with
      | none => exact FrameRing.finish_settled _ _ answer
      | some r => simp [answer] at done

theorem flush_sound {l : Link τ} (sound : l.Sound) : l.flush.2.Sound := by
  have pushed := push_sound sound
  rcases answer : l.push with ⟨r, l'⟩
  rw [answer] at pushed
  rcases r with e | _ | y
  · simpa [flush, answer] using pushed
  · simp only [flush, answer]
    split
    · exact pushed.of_ring (by rw [pushed.1.rewind_eq]; exact pushed.1) (FrameRing.rewind_size _)
    · exact pushed
  · simpa [flush, answer] using pushed

/-- A flush that tells the task to wait is owed the reason: a push's, or a drain with nothing
left open or pending. -/
theorem flush_owed {l : Link τ} {y : WaitReason} (waits : l.flush.1 = .ok (some y)) :
    l.flush.2.Owed y := by
  rcases answer : l.push with ⟨r, l'⟩
  rcases r with e | _ | y'
  · simp [flush, answer] at waits
  · -- the push sent everything: the flush waits for the ring to drain
    have settled := push_settled (by rw [answer])
    rw [answer] at settled
    simp only [flush, answer] at waits ⊢
    split at waits
    · cases waits
    · rename_i busy
      simp only [Except.ok.injEq, Option.some.injEq] at waits
      subst waits
      rw [if_neg busy]
      exact owed_of_owes settled
  · have owed := push_owed (y := y') (by rw [answer])
    rw [answer] at owed
    simp only [flush, answer, Except.ok.injEq, Option.some.injEq] at waits ⊢
    subst waits
    exact owed

/-- Closing leaves the ring alone. -/
@[simp] theorem close_ring (l : Link τ) : l.close.2.ring = l.ring := by
  unfold close settle
  dsimp only
  split_ifs <;> rfl

end Link

namespace Conn

variable {τ σ : Type} [Transport τ]

/-- The world's link is sound. -/
def Sound (w : Conn τ σ) : Prop := w.link.Sound

/-- The world's link owes a task waiting on `reason`. -/
def Owed (reason : WaitReason) (w : Conn τ σ) : Prop := w.link.Owed reason

end Conn

namespace Io

variable {τ σ α β γ ρ : Type} [Transport τ]

/-- From every world satisfying `P`, the task keeps the link sound, waits only on what the link
owes, and finishes with the link sound. -/
def Keeps (P : Conn τ σ → Prop) (m : Io τ σ α) : Prop :=
  Routine.Keeps Conn.Sound Conn.Owed P m.run fun _ => Conn.Sound

/-- The task keeps its discipline from every sound world. -/
def Honest (m : Io τ σ α) : Prop := Keeps Conn.Sound m

namespace Keeps

theorem pure {P : Conn τ σ → Prop} (sound : ∀ w, P w → w.Sound) (a : α) :
    Keeps P (Pure.pure a : Io τ σ α) :=
  fun w before => .done (sound w before)

/-- Waiting on a reason the link owes, then answering, keeps the discipline. -/
theorem suspend_then {P : Conn τ σ → Prop} {y : WaitReason}
    (owed : ∀ w, P w → w.Sound ∧ w.Owed y) (a : α) :
    Keeps P (suspend y >>= fun _ => (Pure.pure a : Io τ σ α)) := by
  intro w before
  rw [run_bind_apply, run_suspend]
  refine .suspend (owed w before).1 (owed w before).2 fun r w' sound => ?_
  cases r <;> exact .done sound

end Keeps

namespace Honest

theorem pure (a : α) : Honest (Pure.pure a : Io τ σ α) := Keeps.pure (fun _ sound => sound) a

theorem throw (e : NetError) : Honest (MonadExcept.throw e : Io τ σ α) :=
  fun _ sound => .done sound

theorem ofExcept (r : Except NetError α) : Honest (Io.ofExcept r : Io τ σ α) :=
  fun _ sound => .done sound

theorem bind {m : Io τ σ α} {f : α → Io τ σ β} (first : Honest m) (next : ∀ a, Honest (f a)) :
    Honest (m >>= f) := by
  intro w sound
  rw [run_bind_apply]
  refine (first w sound).bind fun r w' after => ?_
  cases r with
  | ok a => exact next a w' after
  | error e => exact .done after

theorem withLink {g : Link τ → α × Link τ} (keeps : ∀ l, l.Sound → (g l).2.Sound) :
    Honest (Io.withLink g : Io τ σ α) :=
  fun w sound => by
    rw [run_withLink]
    exact .done (keeps w.link sound)

theorem withApp (g : σ → α × σ) : Honest (Io.withApp g : Io τ σ α) :=
  fun _ sound => .done sound

/-- A link operation whose answer is raised, then `k`: honest when the operation keeps the link
sound and `k` keeps the discipline from the link the operation leaves, for every answer. -/
theorem linkThen {op : Link τ → Except NetError γ × Link τ} {k : γ → Io τ σ β}
    (keeps : ∀ l, l.Sound → (op l).2.Sound)
    (next : ∀ l c, l.Sound → (op l).1 = .ok c →
      Keeps (fun w => w.link = (op l).2 ∧ w.Sound) (k c)) :
    Honest (Io.withLink op >>= fun r => Io.ofExcept r >>= k) := by
  intro w sound
  rw [run_bind_apply, run_withLink]
  dsimp only [Progress.bind]
  rw [run_bind_apply, run_ofExcept]
  dsimp only [Progress.bind]
  rcases answer : (op w.link).1 with e | c
  · exact .done (keeps w.link sound)
  · exact next w.link c sound answer _ ⟨rfl, keeps w.link sound⟩

theorem loopFor {body : ρ → Io τ σ (ρ ⊕ α)} (round : ∀ s, Honest (body s)) (rounds : Nat)
    (s : ρ) : Honest (Io.loopFor rounds body s) :=
  Routine.Keeps.iterate (J := fun _ => Conn.Sound) (fun s => Routine.Keeps.bind (round s)
    fun r => by rcases r with e | s' | a <;> exact Routine.Keeps.pure fun _ sound => sound) rounds s

theorem loop {body : ρ → Io τ σ (ρ ⊕ α)} (round : ∀ s, Honest (body s)) (s : ρ) :
    Honest (Io.loop body s) :=
  loopFor round _ s

theorem tryCatch {m : Io τ σ α} {h : NetError → Io τ σ α} (first : Honest m)
    (handler : ∀ e, Honest (h e)) : Honest (MonadExcept.tryCatch m h) := by
  intro w sound
  refine (first w sound).bind fun r w' after => ?_
  cases r with
  | ok a => exact .done after
  | error e => exact handler e w' after

end Honest

/-! ## Reading -/

theorem peekRound_honest (f : List UInt8 → Nat × β) :
    Honest (peekRound (τ := τ) (σ := σ) f ()) := by
  unfold peekRound
  refine Honest.linkThen (fun l sound => ?_) fun l c sound _ => ?_
  -- the queue's bytes are consumed and the ring is left alone
  · split <;> exact sound
  · cases c with
    | some r => exact Keeps.pure (fun _ after => after.2) _
    | none => exact Keeps.suspend_then (fun w after => ⟨after.2, Link.owed_recv _⟩) _

theorem peekWith_honest (f : List UInt8 → Nat × β) : Honest (peekWith (τ := τ) (σ := σ) f) :=
  Honest.loop (fun _ => peekRound_honest f) ()

theorem readSome_honest (cap : Nat) : Honest (readSome (τ := τ) (σ := σ) cap) := by
  unfold readSome
  split
  · exact Honest.pure _
  · exact Honest.bind (peekWith_honest _) fun _ => Honest.pure _

theorem readExact_honest (n : Nat) : Honest (readExact (τ := τ) (σ := σ) n) := by
  unfold readExact
  refine Honest.loopFor (fun acc => ?_) _ _
  split
  · exact Honest.pure _
  · exact Honest.bind (readSome_honest _) fun _ => Honest.pure _

theorem skip_honest (n : Nat) : Honest (skip (τ := τ) (σ := σ) n) := by
  unfold skip
  refine Honest.loopFor (fun left => ?_) _ _
  split
  · exact Honest.pure _
  · exact Honest.bind (peekWith_honest _) fun _ => Honest.pure _

end Io

/-! ## Writing -/

namespace FrameWriter

open Io

variable {τ σ : Type} [Transport τ]

theorem write_honest (framing : Framing) (bytes : List UInt8) :
    Honest (write (τ := τ) (σ := σ) framing bytes) := by
  unfold write
  refine Honest.loop (fun rest => ?_) _
  split
  · exact Honest.pure _
  · refine Honest.linkThen (fun l sound => l.append_sound sound framing rest)
      fun l c sound answered => ?_
    cases c with
    | took n => exact Keeps.pure (fun _ after => after.2) _
    | blocked reason =>
      -- the append armed the wait and is owed its reason
      exact Keeps.suspend_then (fun w after => ⟨after.2, by
        rw [Conn.Owed, after.1]
        exact Link.append_owed sound answered⟩) _

/-- Repeating a link operation until it answers no reason is honest when the operation keeps the
link sound and the link owes every reason it answers. -/
theorem untilDone_honest {op : Link τ → Except NetError (Option WaitReason) × Link τ}
    (keeps : ∀ l, l.Sound → (op l).2.Sound)
    (owed : ∀ l y, l.Sound → (op l).1 = .ok (some y) → (op l).2.Owed y) :
    Honest (untilDone (τ := τ) (σ := σ) op) := by
  unfold untilDone
  refine Honest.loop (fun u => ?_) _
  refine Honest.linkThen keeps fun l c sound answered => ?_
  cases c with
  | some y => exact Keeps.suspend_then (fun w after => ⟨after.2, by
      rw [Conn.Owed, after.1]
      exact owed l y sound answered⟩) _
  | none => exact Keeps.pure (fun _ after => after.2) _

theorem push_honest : Honest (push (τ := τ) (σ := σ)) :=
  untilDone_honest (fun _ => Link.push_sound) fun _ _ _ => Link.push_owed

theorem flush_honest : Honest (flush (τ := τ) (σ := σ)) :=
  untilDone_honest (fun _ => Link.flush_sound) fun _ _ _ => Link.flush_owed

end FrameWriter

/-! ## The handshake -/

namespace Handshake

open Io

variable {τ σ : Type} [Transport τ]

theorem skipUntil_honest (stop : UInt8 → Bool) : Honest (skipUntil (τ := τ) (σ := σ) stop) := by
  unfold skipUntil
  refine Honest.loop (fun u => Honest.bind (peekWith_honest _) fun x => ?_) _
  obtain ⟨_, found⟩ := x
  exact Honest.pure _

theorem drainLine_honest : Honest (drainLine (τ := τ) (σ := σ)) := skipUntil_honest _

theorem skipBlanks_honest : Honest (skipBlanks (τ := τ) (σ := σ)) := skipUntil_honest _

theorem eatSeparators_honest : Honest (eatSeparators (τ := τ) (σ := σ)) := by
  unfold eatSeparators
  refine Honest.loop (fun feeds => Honest.bind (peekWith_honest _) fun x => ?_) _
  obtain ⟨_, feeds, more⟩ := x
  dsimp only
  split_ifs <;> exact Honest.pure _

theorem select_honest (candidates : List (List UInt8)) :
    Honest (select (τ := τ) (σ := σ) candidates) := by
  unfold select
  refine Honest.loop (fun sel => Honest.bind (peekWith_honest _) fun x => ?_) _
  obtain ⟨_, outcome, sel⟩ := x
  exact Honest.pure _

theorem step_honest (stage : HandshakeStage) (req : Request) :
    Honest (step (τ := τ) (σ := σ) stage req) := by
  cases stage with
  | requestLine => exact Honest.bind drainLine_honest fun _ => Honest.pure _
  | separators => exact Honest.bind eatSeparators_honest fun _ => Honest.pure _
  | headerName =>
    refine Honest.bind (select_honest _) fun sel => ?_
    split
    · exact Honest.pure _
    · exact Honest.pure _
    · exact Honest.bind drainLine_honest fun _ => Honest.pure _
  | upgradeValue =>
    exact Honest.bind skipBlanks_honest fun _ => Honest.bind (select_honest _) fun _ =>
      Honest.bind drainLine_honest fun _ => Honest.pure _
  | keyValue =>
    exact Honest.bind skipBlanks_honest fun _ => Honest.bind (readExact_honest _) fun _ =>
      Honest.bind drainLine_honest fun _ => Honest.pure _
  | done => exact Honest.pure _

theorem parseReporting_keeps :
    Routine.Keeps Conn.Sound Conn.Owed Conn.Sound (parseReporting (τ := τ) (σ := σ))
      fun _ => Conn.Sound := by
  unfold parseReporting
  refine Routine.Keeps.iterate (J := fun _ => Conn.Sound) (fun s => ?_) _ _
  obtain ⟨stage, req⟩ := s
  dsimp only
  split
  · exact Routine.Keeps.pure fun _ sound => sound
  · refine Routine.Keeps.bind (step_honest stage req) fun r => ?_
    cases r <;> exact Routine.Keeps.pure fun _ sound => sound

theorem parse_honest : Honest (parse (τ := τ) (σ := σ)) :=
  fun w sound => (parseReporting_keeps w sound).bind fun _ _ after => .done after

end Handshake

/-! ## The frame reader -/

namespace FrameReader

open Io

variable {τ σ : Type} [Transport τ]

theorem readHeader_honest : Honest (readHeader (τ := τ) (σ := σ)) := by
  unfold readHeader
  refine Honest.bind (readExact_honest 2) fun base => ?_
  refine Honest.bind (readExact_honest _) fun ext => ?_
  dsimp only
  split
  · exact Honest.bind (readExact_honest 4) fun _ => Honest.bind (Honest.pure _) fun _ => Honest.pure _
  · exact Honest.bind (Honest.pure _) fun _ => Honest.pure _

theorem nextFrame_honest (rd : FrameReader) : Honest (rd.nextFrame (τ := τ) (σ := σ)) := by
  unfold nextFrame
  refine Honest.bind readHeader_honest fun header => ?_
  obtain ⟨fin, opcode, len, mask⟩ := header
  dsimp only
  -- data frames go on; every other frame is skipped whole, a close frame then fails
  cases opcode
  case text | binary => exact Honest.bind (Honest.pure _) fun _ => Honest.pure _
  case continuation =>
    cases rd.message with
    | some m => exact Honest.bind (Honest.pure _) fun _ => Honest.pure _
    | none => exact Honest.bind (skip_honest _) fun _ => Honest.bind (Honest.pure _) fun _ => Honest.pure _
  case close => exact Honest.bind (skip_honest _) fun _ => Honest.bind (Honest.throw _) fun _ => Honest.pure _
  all_goals exact Honest.bind (skip_honest _) fun _ => Honest.bind (Honest.pure _) fun _ => Honest.pure _

theorem frameRound_honest (rd : FrameReader) (u : Unit) :
    Honest (rd.frameRound (τ := τ) (σ := σ) u) := by
  unfold frameRound
  refine Honest.bind (nextFrame_honest rd) fun next => ?_
  cases next <;> exact Honest.pure _

theorem nextData_honest (rd : FrameReader) : Honest (rd.nextData (τ := τ) (σ := σ)) :=
  Honest.loop (frameRound_honest rd) ()

theorem readPayload_honest (rd : FrameReader) (cap : Nat) :
    Honest (rd.readPayload (τ := τ) (σ := σ) cap) := by
  unfold readPayload
  split
  · exact Honest.pure _
  · refine Honest.bind ?_ fun x => ?_
    · refine Honest.loopFor (fun x => ?_) _ _
      obtain ⟨acc, mask⟩ := x
      dsimp only
      split
      · exact Honest.pure _
      · exact Honest.bind (readSome_honest _) fun _ => Honest.pure _
    · obtain ⟨data, mask⟩ := x
      exact Honest.pure _

theorem read_honest (rd : FrameReader) (cap : Nat) : Honest (rd.read (τ := τ) (σ := σ) cap) := by
  unfold read
  split
  · exact Honest.pure _
  · dsimp only
    split
    · exact Honest.bind (nextData_honest rd) fun rd' => readPayload_honest rd' cap
    · exact Honest.bind (Honest.pure _) fun rd' => readPayload_honest rd' cap

end FrameReader

/-! ## Services and the session -/

namespace Io

variable {τ σ : Type} [Transport τ]

/-- The programs a service is made of: the socket's operations and the service's own state,
joined by answers, errors, `bind`, handlers and loops. -/
inductive SocketProgram : {α : Type} → Io τ σ α → Prop
  | pure {α : Type} (a : α) : SocketProgram (Pure.pure a)
  | throw {α : Type} (e : NetError) : SocketProgram (MonadExcept.throw e : Io τ σ α)
  | bind {α β : Type} {m : Io τ σ α} {f : α → Io τ σ β} :
      SocketProgram m → (∀ a, SocketProgram (f a)) → SocketProgram (m >>= f)
  | tryCatch {α : Type} {m : Io τ σ α} {h : NetError → Io τ σ α} :
      SocketProgram m → (∀ e, SocketProgram (h e)) → SocketProgram (MonadExcept.tryCatch m h)
  | loopFor {ρ α : Type} (rounds : Nat) {body : ρ → Io τ σ (ρ ⊕ α)} (s : ρ) :
      (∀ s, SocketProgram (body s)) → SocketProgram (Io.loopFor rounds body s)
  | withApp {α : Type} (g : σ → α × σ) : SocketProgram (Io.withApp g)
  | read (ws : WebSocket) (cap : Nat) : SocketProgram (ws.read cap)
  | write (ws : WebSocket) (bytes : List UInt8) : SocketProgram (ws.write bytes)
  | push (ws : WebSocket) : SocketProgram ws.push
  | flush (ws : WebSocket) : SocketProgram ws.flush

theorem WebSocket.read_honest (ws : WebSocket) (cap : Nat) :
    Honest (ws.read (τ := τ) (σ := σ) cap) := by
  unfold WebSocket.read
  refine Honest.bind (FrameReader.read_honest _ _) fun x => ?_
  obtain ⟨data, reader⟩ := x
  exact Honest.pure _

/-- Every program made of the socket's operations is honest. -/
theorem SocketProgram.honest {α : Type} {m : Io τ σ α} (built : SocketProgram m) : Honest m := by
  induction built with
  | pure a => exact Honest.pure a
  | throw e => exact Honest.throw e
  | bind _ _ first next => exact Honest.bind first next
  | tryCatch _ _ first handler => exact Honest.tryCatch first handler
  | loopFor rounds s _ round => exact Honest.loopFor round rounds s
  | withApp g => exact Honest.withApp g
  | read ws cap => exact WebSocket.read_honest ws cap
  | write ws bytes => exact FrameWriter.write_honest _ bytes
  | push ws => exact FrameWriter.push_honest
  | flush ws => exact FrameWriter.flush_honest

end Io

namespace Session

open Io

variable {τ σ : Type} [Transport τ]

theorem answer_honest (accept : List UInt8 → List UInt8) (config : Config)
    (page : List UInt8) {service : Service τ σ}
    (onSocket : ∀ ws, SocketProgram (service ws)) (request : Request) :
    Honest (answer accept config page service request) := by
  unfold answer
  split
  · exact Honest.bind (Honest.ofExcept _) fun _ => Honest.bind (FrameWriter.write_honest _ _)
      fun _ => Honest.bind (FrameWriter.write_honest _ _) fun _ => FrameWriter.flush_honest
  · exact Honest.bind (Honest.ofExcept _) fun _ => Honest.bind (FrameWriter.write_honest _ _)
      fun _ => Honest.bind FrameWriter.push_honest fun _ =>
        Honest.bind (onSocket _).honest fun _ => FrameWriter.flush_honest

/-- The session keeps the link sound and waits only on what the link owes, for every service made
of the socket's operations. -/
theorem run_keeps (accept : List UInt8 → List UInt8) (config : Config)
    (page : List UInt8) {service : Service τ σ}
    (onSocket : ∀ ws, SocketProgram (service ws)) :
    Routine.Keeps Conn.Sound Conn.Owed Conn.Sound (run accept config page service) fun _ => Conn.Sound :=
  Routine.Keeps.bind (Honest.bind Handshake.parse_honest (answer_honest accept config page onSocket))
    fun _ => Routine.Keeps.modify fun w sound => by
      show (w.link.close.2).Sound
      exact sound.of_ring (by rw [Link.close_ring]; exact sound.1) (by rw [Link.close_ring])

end Session

end WebSocketCore
