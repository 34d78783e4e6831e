import Mathlib
import WebSocketCore.Proofs.Session.Echo
import WebSocketCore.Proofs.Io.Mirror

/-! # What the peer does while a task waits

While a connection's task waits, the peer and the connection change its link: bytes arrive in the
queue, the peer acknowledges sent bytes (freeing the loopback's window and crediting the ring), a
poll tick passes without timing out, and consumed bytes are reported (`Link.PeerStep`). None of
these sends, closes, records an error or changes what the ring accepted, so a link a writer goes
on with stays one. A reading task also consumes queued bytes; its link moves by both
(`Link.Listens`).

A task over a loopback streaming `input` is resumed (`Conn.Serves input`) in a world its link
drifted to by the peer's steps from where it waited, with its reason ready and a queue that goes
on with the input where the consumed bytes end (`Conn.Within`). The lock's bookkeeping is the
connection's concern, not the task's.
-/

namespace WebSocketCore

variable {σ : Type}

namespace Conn

/-- The inbound bytes the task has consumed: reported to the loopback, or counted for the next
report. -/
def consumedCount (w : Conn Loopback σ) : Nat := w.link.transport.recved + w.link.credit

/-- The queue goes on with `input` where the consumed bytes end. -/
def Within (input : List UInt8) (w : Conn Loopback σ) : Prop :=
  w.link.inbound <+: input.drop w.consumedCount

@[simp] theorem consumedCount_eat (w : Conn Loopback σ) (j : Nat) :
    (w.eat j).consumedCount = w.consumedCount + (w.link.inbound.take j).length := by
  simp only [consumedCount, eat, Link.consume, Nat.add_assoc]

end Conn

namespace Link

variable {limit : Nat} {acc : List (Framing × UInt8)} {pre : List UInt8} {closes : Nat}

/-- A change the peer or the connection makes to a loopback link while its task waits: bytes
queued, `len` bytes acknowledged by the peer and reported, a poll tick that does not time out, or
the report of consumed bytes. -/
inductive PeerStep : Link Loopback → Link Loopback → Prop
  | recv (l : Link Loopback) (bytes : List UInt8) : PeerStep l (l.onRecv bytes).1
  | ack (l : Link Loopback) (len : Nat) :
      PeerStep l ({ l with transport := l.transport.acknowledge len }.onSent len)
  | poll (l : Link Loopback) : l.onPoll.2 = none → PeerStep l l.onPoll.1
  | settle (l : Link Loopback) : PeerStep l l.settle

/-- The peer's changes, any number of them. -/
abbrev Drifts : Link Loopback → Link Loopback → Prop := Relation.ReflTransGen PeerStep

/-- A change to a reading task's link: the peer's, or consuming queued bytes. -/
inductive ListenStep : Link Loopback → Link Loopback → Prop
  | peer {l l' : Link Loopback} : PeerStep l l' → ListenStep l l'
  | consume (l : Link Loopback) (j : Nat) : ListenStep l (l.consume j)

/-- The changes a reading task and the peer make, any number of them. -/
abbrev Listens : Link Loopback → Link Loopback → Prop := Relation.ReflTransGen ListenStep

/-- A poll tick that does not time out leaves the error alone. -/
theorem onPoll_error_of_calm {τ : Type} {l : Link τ} (calm : l.onPoll.2 = none) :
    l.onPoll.1.error = l.error := by
  unfold onPoll at calm ⊢
  split at calm
  · rfl
  · dsimp only at calm ⊢
    split_ifs at calm ⊢ <;> cases noted : l.error <;> simp_all [noteError]

namespace PeerStep

variable {l l' : Link Loopback}

/-- What every peer step leaves alone: the error, the transport's hold, the loopback's record of
sends and closes and its window, and the armed count. -/
theorem frame (step : PeerStep l l') :
    l'.error = l.error ∧ l'.attached = l.attached ∧ l'.transport.sends = l.transport.sends ∧
      l'.transport.closed = l.transport.closed ∧ l'.transport.failSend = l.transport.failSend ∧
      l'.transport.capacity = l.transport.capacity ∧ l'.armedAcks = l.armedAcks := by
  cases step with
  | recv => simp [onRecv]
  | ack => simp [onSent, Loopback.acknowledge]
  | poll calm =>
    obtain ⟨idle, error, polled⟩ := Link.onPoll_eq l
    have same := onPoll_error_of_calm calm
    rw [polled] at same ⊢
    simp only at same
    simp [same]
  | settle =>
    unfold Link.settle
    split_ifs <;> simp [Transport.recved]

/-- The queue only grows. -/
theorem inbound_prefix (step : PeerStep l l') : l.inbound <+: l'.inbound := by
  cases step with
  | recv => exact List.prefix_append _ _
  | ack => exact List.prefix_rfl
  | poll => simp
  | settle => unfold Link.settle; split_ifs <;> exact List.prefix_rfl

/-- Reporting consumed bytes to a transport the link holds keeps the count of consumed bytes. -/
theorem count (step : PeerStep l l') (held : l.attached = true) :
    l'.transport.recved + l'.credit = l.transport.recved + l.credit := by
  cases step with
  | recv => rfl
  | ack => simp [onSent, Loopback.acknowledge]
  | poll => simp
  | settle =>
    unfold Link.settle
    split_ifs
    · rfl
    · simp [Transport.recved]

/-- Only an acknowledgement changes the ring, and it keeps what is open and pending. -/
theorem ring (step : PeerStep l l') :
    l'.ring.openRegion = l.ring.openRegion ∧ l'.ring.pending = l.ring.pending := by
  cases step with
  | recv => exact ⟨rfl, rfl⟩
  | ack => simp [onSent]
  | poll => simp
  | settle => unfold Link.settle; split_ifs <;> exact ⟨rfl, rfl⟩

/-- A peer step keeps a carried run, or plays an acknowledgement in it; either way the run
accepted what it had. -/
theorem carries {s : RingRun} (step : PeerStep l l') (carries : l.Carries limit s) :
    ∃ s', l'.Carries limit s' ∧ s'.accepted = s.accepted := by
  have kept := step.frame
  cases step with
  | ack len => exact ⟨_, carries.acknowledge len, rfl⟩
  | recv bytes => exact ⟨s, carries.of_wire rfl kept.2.2.1 rfl kept.2.2.2.2.1, rfl⟩
  | poll calm =>
    exact ⟨s, carries.of_wire (onPoll_ring l) kept.2.2.1 (by simp) kept.2.2.2.2.1, rfl⟩
  | settle =>
    refine ⟨s, carries.of_wire (by unfold Link.settle; split_ifs <;> rfl) kept.2.2.1 ?_
      kept.2.2.2.2.1, rfl⟩
    unfold Link.settle
    split_ifs <;> rfl

/-- A link a writer goes on with stays one, with the same bytes accepted. -/
theorem writing (step : PeerStep l l') (writing : l.Writing limit acc) : l'.Writing limit acc := by
  obtain ⟨⟨-, usable, roomy, payload, window⟩, s, carried, rfl⟩ := writing
  obtain ⟨s', carried', accepted⟩ := step.carries carried
  obtain ⟨error, attached, -, -, -, capacity, -⟩ := step.frame
  have usable' : l'.usable = .ok () := by
    unfold Link.usable at usable ⊢
    rw [error, attached]
    exact usable
  have roomy' : l'.ring.Roomy := by
    cases step with
    | ack len => exact roomy.onAck (carried.ring_eq ▸ carried.delivering.intact.inv) len
    | recv => exact roomy
    | poll calm => simpa using roomy
    | settle => unfold Link.settle; split_ifs <;> exact roomy
  exact ⟨⟨⟨s', carried'⟩, usable', roomy', payload, capacity ▸ window⟩, s', carried', accepted⟩

theorem wired (step : PeerStep l l') (wired : l.Wired pre closes) : l'.Wired pre closes := by
  obtain ⟨-, attached, sends, closed, -⟩ := step.frame
  refine ⟨attached.trans wired.attached, ?_, closed.trans wired.closed⟩
  rw [Loopback.sentBytes, sends]
  exact wired.leads

end PeerStep

theorem ListenStep.frame {l l' : Link Loopback} (step : ListenStep l l') :
    l'.error = l.error ∧ l'.attached = l.attached ∧ l'.transport.sends = l.transport.sends ∧
      l'.transport.closed = l.transport.closed := by
  cases step with
  | peer step => exact ⟨step.frame.1, step.frame.2.1, step.frame.2.2.1, step.frame.2.2.2.1⟩
  | consume => exact ⟨rfl, rfl, rfl, rfl⟩

theorem ListenStep.writing {l l' : Link Loopback} (step : ListenStep l l')
    (writing : l.Writing limit acc) : l'.Writing limit acc := by
  cases step with
  | peer step => exact step.writing writing
  | consume j => exact writing.inbound _ _

theorem ListenStep.wired {l l' : Link Loopback} (step : ListenStep l l')
    (wired : l.Wired pre closes) : l'.Wired pre closes := by
  cases step with
  | peer step => exact step.wired wired
  | consume => exact ⟨wired.attached, wired.leads, wired.closed⟩

/-- What every step keeps, every run of steps keeps. -/
theorem Drifts.keeps {P : Link Loopback → Prop} (keeps : ∀ l l', PeerStep l l' → P l → P l')
    {l l' : Link Loopback} (drifts : Drifts l l') (holds : P l) : P l' := by
  induction drifts with
  | refl => exact holds
  | tail _ step ih => exact keeps _ _ step ih

theorem Listens.keeps {P : Link Loopback → Prop} (keeps : ∀ l l', ListenStep l l' → P l → P l')
    {l l' : Link Loopback} (listens : Listens l l') (holds : P l) : P l' := by
  induction listens with
  | refl => exact holds
  | tail _ step ih => exact keeps _ _ step ih

theorem Drifts.listens {l l' : Link Loopback} (drifts : Drifts l l') : Listens l l' := by
  induction drifts with
  | refl => exact .refl
  | tail _ step ih => exact ih.tail (.peer step)

/-- The peer's steps keep the error and the transport's hold, and, on a held transport, the count
of consumed bytes; the queue only grows. -/
theorem Drifts.frame {l l' : Link Loopback} (drifts : Drifts l l') (held : l.attached = true) :
    l'.error = l.error ∧ l'.attached = true ∧
      l'.transport.recved + l'.credit = l.transport.recved + l.credit ∧ l.inbound <+: l'.inbound := by
  induction drifts with
  | refl => exact ⟨rfl, held, rfl, List.prefix_rfl⟩
  | tail _ step ih =>
    obtain ⟨error, attached, count, queued⟩ := ih
    exact ⟨step.frame.1.trans error, step.frame.2.1.trans attached,
      (step.count attached).trans count, queued.trans step.inbound_prefix⟩

end Link

namespace Conn

/-- A task over a loopback streaming `input`, waiting on `y` in `w`, is resumed in `v`: its link
drifted there by the peer's steps, `y` is ready, and the queue goes on with the input. -/
def Serves (input : List UInt8) (y : WaitReason) (w v : Conn Loopback σ) : Prop :=
  Link.Drifts w.link v.link ∧ v.link.isReady y = true ∧ v.Within input

end Conn

end WebSocketCore
