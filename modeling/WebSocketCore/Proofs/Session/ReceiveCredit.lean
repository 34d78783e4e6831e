import Mathlib
import WebSocketCore.Proofs.Session.Driving
import WebSocketCore.Simulation.HandshakeRun

/-! # Receive credit is exact and batched

Every byte the inbound queue takes is, at any time, still queued, consumed by the task and not
yet reported, or reported to the transport (`Link.accounted`). The task's own operations move
bytes from the queue to the consumed count; reporting moves the consumed count into one report,
while the link holds the transport. The task's last change, nothing for the handshake and a
close for a session, reports at most once and leaves the link holding the transport or nothing
to report (`Connection.ReportsLast`).

So over a run with no transport error, between callbacks, nothing consumed is left unreported,
the reports and the queue account for every byte taken (`Connection.Ledger`), and each start
and callback adds at most one report, never of nothing: `Connection.receive_credit_exact`.
-/

namespace WebSocketCore

namespace Handshake

variable {τ σ : Type} [Transport τ]

/-- The handshake as a connection's whole task: reads a request head and keeps what the reading
came to in the task's state with `keep`. -/
def task (keep : Except (NetError × HandshakeStage) Request → σ → σ) : IoRoutine τ σ Unit := do
  let r ← parseReporting
  modify fun (w : Conn τ σ) => { w with app := keep r w.app }

theorem task_moves (keep : Except (NetError × HandshakeStage) Request → σ → σ) (w : Conn τ σ) :
    (task keep w).Moves id w :=
  (parseReporting_moves w).bind fun _ _ => .done .refl rfl rfl

end Handshake

namespace Link

variable {τ : Type}

/-- The bytes a link has taken in: reported to the transport, consumed and not yet reported, or
still queued. -/
def accounted (l : Link (Traced τ)) : Nat := l.transport.reports.sum + l.credit + l.inbound.length

/-- `l'` follows `l` with the log grown by calls among which at most one report, of some bytes,
after which none are left to report; every byte taken in stays accounted. -/
structure ReportsOnce (l l' : Link (Traced τ)) : Prop where
  accounted : l'.accounted = l.accounted
  log : ∃ more, l'.transport.calls = l.transport.calls ++ more ∧
    (more.filterMap TransportCall.reported = [] ∨
      ∃ n, more.filterMap TransportCall.reported = [n] ∧ n ≠ 0 ∧ l'.credit = 0)

theorem ReportsOnce.refl (l : Link (Traced τ)) : l.ReportsOnce l :=
  ⟨rfl, [], by simp, .inl rfl⟩

variable [Transport τ]

/-- Reporting the consumed bytes to a transport the link holds keeps every byte accounted. -/
theorem settle_accounted {l : Link (Traced τ)} (held : l.attached = true) :
    l.settle.accounted = l.accounted := by
  by_cases nothing : l.credit = 0
  · simp [Link.settle, nothing]
  · have calls := settle_calls l
    rw [if_pos ⟨nothing, held⟩] at calls
    simp only [accounted, Traced.reports_eq_of_calls calls, settle_credit, settle_inbound,
      List.filterMap_cons, List.filterMap_nil, TransportCall.reported, List.sum_append,
      List.sum_cons, List.sum_nil]
    omega

/-- The task's own operations report nothing and keep every byte accounted. -/
theorem TaskSteps.reportsOnce {l l' : Link (Traced τ)} (steps : TaskSteps l l') : l.ReportsOnce l' := by
  obtain ⟨sent, -⟩ := steps.addsSends
  have frame := TaskSteps.frame steps
  obtain ⟨sends, log, only⟩ := sent
  refine ⟨?_, sends, log, .inl (TransportCall.filterMap_reported_of_sends only)⟩
  have reports := (show l.transport.AddsSends l'.transport from ⟨sends, log, only⟩).reports_eq
  have held := frame.unreported
  simp only [accounted, reports]
  omega

/-- Operations of the task's own before a change that reports once report nothing more. -/
theorem ReportsOnce.of_steps {l l₁ l₂ : Link (Traced τ)} (steps : TaskSteps l l₁)
    (once : l₁.ReportsOnce l₂) : l.ReportsOnce l₂ := by
  obtain ⟨⟨sends, log₁, only⟩, -⟩ := steps.addsSends
  obtain ⟨kept', more, log₂, reported⟩ := once
  refine ⟨kept'.trans steps.reportsOnce.accounted, sends ++ more,
    by rw [log₂, log₁, List.append_assoc], ?_⟩
  simpa [List.filterMap_append, TransportCall.filterMap_reported_of_sends only] using reported

/-- Reporting after a change that reports once still reports once, when the link holds the
transport or nothing is left to report. -/
theorem ReportsOnce.settle {l l' : Link (Traced τ)} (once : l.ReportsOnce l')
    (holds : l'.attached = true ∨ l'.credit = 0) : l.ReportsOnce l'.settle := by
  by_cases nothing : l'.credit = 0
  · have same : l'.settle = l' := by simp [Link.settle, nothing]
    rw [same]
    exact once
  · have held : l'.attached = true := holds.resolve_right nothing
    obtain ⟨kept, more, log, reported⟩ := once
    have calls := settle_calls l'
    rw [if_pos ⟨nothing, held⟩] at calls
    -- nothing was reported yet, since bytes are left to report: the settle reports them
    rcases reported with none | ⟨n, _, _, spent⟩
    · refine ⟨?_, more ++ [.recved l'.credit], by rw [calls, log, List.append_assoc], .inr
        ⟨l'.credit, by simp [List.filterMap_append, none, TransportCall.reported], nothing,
          settle_credit _⟩⟩
      exact (settle_accounted held).trans kept
    · exact absurd spent nothing

/-- Closing a link that holds the transport reports the consumed bytes once, then closes. -/
theorem close_reportsOnce {l : Link (Traced τ)} (held : l.attached = true) : l.ReportsOnce l.close.2 := by
  obtain ⟨kept, more, log, reported⟩ := (ReportsOnce.refl l).settle (.inl held)
  have calls := close_calls l
  simp only [held, if_true] at calls
  refine ⟨?_, more ++ [.close], by rw [calls, log, List.append_assoc], ?_⟩
  · rw [← kept]
    simp [accounted, Traced.reports_eq_of_calls calls, List.filterMap_cons, TransportCall.reported]
  · rcases reported with none | ⟨n, one, positive, -⟩
    · exact .inl (by simp [List.filterMap_append, List.filterMap_cons, none, TransportCall.reported])
    · exact .inr ⟨n, by simp [List.filterMap_append, List.filterMap_cons, one,
        TransportCall.reported], positive, close_credit _⟩

end Link

/-! ## What callbacks take -/

namespace Callback

variable {τ : Type}

/-- The bytes a callback's queue takes: what `on_recv` answers; other callbacks bring none. -/
def taken (callback : Callback) (l : Link τ) : Nat :=
  match callback with
  | .recv bytes => (l.onRecv bytes).2
  | _ => 0

/-- A callback's queue takes the bytes on_recv answers, and every byte it takes is accounted. -/
theorem change_accounted (callback : Callback) (l : Link (Traced τ)) :
    (callback.change l).accounted = l.accounted + callback.taken l := by
  cases callback with
  | recv bytes =>
    simp only [change, taken, Link.onRecv, Link.accounted, List.length_append]
    omega
  | poll => simp [change, taken, Link.accounted]
  | _ => rfl

end Callback

namespace Connection

variable {τ σ : Type}

/-- A task's last change that reports at most once and leaves the link holding the transport or
nothing to report. -/
def ReportsLast (fin : Link (Traced τ) → Link (Traced τ)) : Prop :=
  ∀ l, l.attached = true → l.ReportsOnce (fin l) ∧ ((fin l).attached = true ∨ (fin l).credit = 0)

theorem reportsLast_id : ReportsLast (τ := τ) id :=
  fun l held => ⟨.refl l, .inl held⟩

variable [Transport τ]

/-- The bytes the inbound queue takes from each callback handled from `c`, in order. -/
def takenAll (c : Connection τ σ) : List Callback → List Nat
  | [] => []
  | callback :: rest => callback.taken c.world.link :: (c.handle callback).takenAll rest

theorem reportsLast_close : ReportsLast (τ := τ) fun l => l.close.2 :=
  fun _ held => ⟨Link.close_reportsOnce held, .inr (Link.close_credit _)⟩

/-- Between callbacks of a run with no transport error, in which the queue took `accepted`
bytes: the connection is steady, nothing consumed is left unreported, a live task's link holds
the transport, every byte taken is accounted and no report is of nothing. -/
structure Ledger (fin : Link (Traced τ) → Link (Traced τ)) (c : Connection (Traced τ) σ)
    (accepted : Nat) : Prop where
  steady : c.Steady fin
  settled : c.world.link.credit = 0
  attached : c.isFinished = false → c.world.link.attached = true
  exact : c.world.link.accounted = accepted
  positive : 0 ∉ c.world.link.transport.reports

/-- A walk from a link with nothing left to report, holding the transport while the task lives,
reports at most once, and leaves the link holding the transport or nothing to report, and
holding it while the task lives. -/
theorem Woke.reportsOnce {fin : Link (Traced τ) → Link (Traced τ)} (last : ReportsLast fin)
    {c c' : Connection (Traced τ) σ} {answers : List (Except TaskError Bool)}
    (woke : Woke fin c answers c') (settled : c.world.link.credit = 0)
    (attached : c.isFinished = false → c.world.link.attached = true) :
    c.world.link.ReportsOnce c'.world.link ∧
      (c'.world.link.attached = true ∨ c'.world.link.credit = 0) ∧
      (c'.isFinished = false → c'.world.link.attached = true) := by
  cases woke with
  | ended retired =>
    exact ⟨.refl _, .inr settled, fun live => absurd (live.symm.trans retired) Bool.false_ne_true⟩
  | live live still steps =>
    have held := (Link.TaskSteps.frame steps).attached.trans (attached live)
    exact ⟨steps.reportsOnce, .inl held, fun _ => held⟩
  | completed live retired steps closed =>
    have held := (Link.TaskSteps.frame steps).attached.trans (attached live)
    rw [closed]
    exact ⟨(last _ held).1.of_steps steps, (last _ held).2,
      fun live' => absurd (live'.symm.trans retired) Bool.false_ne_true⟩
  | stalled live retired steps _ =>
    have held := (Link.TaskSteps.frame steps).attached.trans (attached live)
    exact ⟨steps.reportsOnce, .inl held, fun _ => held⟩

/-- A walk from a balanced link, then the report of what the task consumed, balances the ledger
again, adding at most one report to the log. -/
theorem Ledger.of_woke {fin : Link (Traced τ) → Link (Traced τ)} (last : ReportsLast fin)
    {c c' : Connection (Traced τ) σ} {answers : List (Except TaskError Bool)} {accepted : Nat}
    (woke : Woke fin c answers c') (steady : c'.Steady fin) (settled : c.world.link.credit = 0)
    (attached : c.isFinished = false → c.world.link.attached = true)
    (exact : c.world.link.accounted = accepted) (positive : 0 ∉ c.world.link.transport.reports) :
    Ledger fin (c'.mapLink Link.settle) accepted ∧
      ∃ more, (c'.mapLink Link.settle).world.link.transport.calls =
        c.world.link.transport.calls ++ more ∧ (more.filterMap TransportCall.reported).length ≤ 1 := by
  obtain ⟨once, holds, held⟩ := woke.reportsOnce last settled attached
  obtain ⟨kept, more, log, reported⟩ := once.settle holds
  have reports := Traced.reports_eq_of_calls log
  refine ⟨⟨steady.mapLink _, Link.settle_credit _, fun live => ?_, kept.trans exact, ?_⟩, more, log, ?_⟩
  · simpa using held live
  · rw [mapLink_world_link, reports]
    rcases reported with none | ⟨n, one, positive', -⟩
    · simpa [none] using positive
    · simpa [one, Ne.symm positive'] using positive
  · rcases reported with none | ⟨n, one, -, -⟩
    · simp [none]
    · simp [one]

/-- A callback other than a transport error keeps the ledger balanced, with the bytes its queue
takes, and adds at most one report to the log. -/
theorem Ledger.handle {fin : Link (Traced τ) → Link (Traced τ)} (last : ReportsLast fin)
    {c : Connection (Traced τ) σ} {accepted : Nat} (ledger : Ledger fin c accepted)
    (callback : Callback) (noError : ∀ e, callback ≠ .error e) :
    Ledger fin (c.handle callback) (accepted + callback.taken c.world.link) ∧
      ∃ more, (c.handle callback).world.link.transport.calls =
        c.world.link.transport.calls ++ more ∧ (more.filterMap TransportCall.reported).length ≤ 1 := by
  have held := callback.change_attached c.world.link noError
  obtain ⟨steady, woke⟩ := (ledger.steady.mapLink callback.change).wakeFrom WaitReason.priority
    (callback.brings c.world.link)
  rw [handle_eq, Connection.wake]
  have balanced := Ledger.of_woke last woke steady (by simpa using ledger.settled)
    (fun live => by simpa [held] using ledger.attached live)
    (by rw [mapLink_world_link, callback.change_accounted, ledger.exact])
    (by simpa using ledger.positive)
  simpa using balanced

/-- Callbacks with no transport error among them keep the ledger balanced, with the bytes their
queues take. -/
theorem Ledger.handleAll {fin : Link (Traced τ) → Link (Traced τ)} (last : ReportsLast fin) :
    ∀ (callbacks : List Callback) {c : Connection (Traced τ) σ} {accepted : Nat},
      Ledger fin c accepted → (∀ e, .error e ∉ callbacks) →
      Ledger fin (callbacks.foldl Connection.handle c) (accepted + (c.takenAll callbacks).sum) := by
  intro callbacks
  induction callbacks with
  | nil => exact fun ledger _ => by simpa [takenAll] using ledger
  | cons callback rest ih =>
    intro c accepted ledger noError
    have step := (ledger.handle last callback fun e same => noError e (same ▸ List.mem_cons_self)).1
    have more := ih step fun e mem => noError e (List.mem_cons_of_mem _ mem)
    simpa [takenAll, Nat.add_assoc] using more

/-- A task that moves by its own operations, started on a fresh connection over a link that has
taken nothing in and logged nothing, balances the ledger at nothing, and the start reports at
most once. -/
theorem Ledger.start {fin : Link (Traced τ) → Link (Traced τ)} (last : ReportsLast fin)
    {link : Link (Traced τ)} (app : σ) {task : IoRoutine (Traced τ) σ Unit}
    (moves : ∀ w, (task w).Moves fin w) (credit : link.credit = 0) (held : link.attached = true)
    (inbound : link.inbound = []) (log : link.transport.calls = []) :
    Ledger fin (({ world := { link, app } } : Connection (Traced τ) σ).start task).2 0 ∧
      (({ world := { link, app } } : Connection (Traced τ) σ).start task).2.world.link.transport.reports.length ≤ 1 := by
  obtain ⟨c₂, started, steady, woke, -⟩ := start_woke app moves
  have nothing : link.transport.reports = [] := by simp [Traced.reports, log]
  rw [started]
  obtain ⟨ledger, more, calls, once⟩ := Ledger.of_woke last woke steady credit (fun _ => held)
    (show link.accounted = 0 by simp [Link.accounted, nothing, credit, inbound]) (by simp [nothing])
  refine ⟨ledger, ?_⟩
  rw [Traced.reports_eq_of_calls calls, nothing]
  simpa using once

end Connection

/-- Receive credit is exact and batched over the runs `run callbacks` of a connection, whose inbound
queue took `accepted callbacks` bytes: with no transport error among the callbacks, the bytes
reported consumed and the bytes still queued add up to the bytes taken; the start reports at most
once, and every callback adds at most one report to the log; no report is of nothing. -/
structure CreditExact {τ σ : Type} (run : List Callback → Connection (Traced τ) σ)
    (accepted : List Callback → Nat) : Prop where
  exact : ∀ callbacks, (∀ e, .error e ∉ callbacks) →
    (run callbacks).world.link.transport.reports.sum + (run callbacks).world.link.inbound.length =
      accepted callbacks
  start : (run []).world.link.transport.reports.length ≤ 1
  batched : ∀ callbacks callback, (∀ e, .error e ∉ callbacks ++ [callback]) → ∃ more,
    (run (callbacks ++ [callback])).world.link.transport.calls =
      (run callbacks).world.link.transport.calls ++ more ∧
      (more.filterMap TransportCall.reported).length ≤ 1
  nonzero : ∀ callbacks, (∀ e, .error e ∉ callbacks) → 0 ∉ (run callbacks).world.link.transport.reports

namespace Connection

variable {τ σ : Type} [Transport τ]

/-- Receive credit is exact and batched for every task that moves by its own operations and
reports at most once as its last change, started on a link that has taken nothing in. -/
theorem creditExact_of_moves {fin : Link (Traced τ) → Link (Traced τ)} (last : ReportsLast fin)
    {link : Link (Traced τ)} (app : σ) {task : IoRoutine (Traced τ) σ Unit}
    (moves : ∀ w, (task w).Moves fin w) (credit : link.credit = 0) (held : link.attached = true)
    (inbound : link.inbound = []) (log : link.transport.calls = []) :
    CreditExact (fun callbacks => callbacks.foldl handle
        (({ world := { link, app } } : Connection (Traced τ) σ).start task).2)
      fun callbacks => ((({ world := { link, app } } : Connection (Traced τ) σ).start task).2.takenAll
        callbacks).sum := by
  obtain ⟨ledger, once⟩ := Ledger.start last app moves credit held inbound log
  have balanced : ∀ callbacks, (∀ e, .error e ∉ callbacks) → Ledger fin
      (callbacks.foldl handle (({ world := { link, app } } : Connection (Traced τ) σ).start task).2)
      ((({ world := { link, app } } : Connection (Traced τ) σ).start task).2.takenAll callbacks).sum :=
    fun callbacks noError => by simpa using ledger.handleAll last callbacks noError
  refine ⟨fun callbacks noError => ?_, once, fun callbacks callback noError => ?_,
    fun callbacks noError => (balanced callbacks noError).positive⟩
  · -- nothing consumed is left unreported between callbacks
    have ledger' := balanced callbacks noError
    have exact := ledger'.exact
    simp only [Link.accounted, ledger'.settled] at exact
    simpa using exact
  · have before := balanced callbacks fun e mem => noError e (List.mem_append_left _ mem)
    rw [List.foldl_append, List.foldl_cons, List.foldl_nil]
    exact (before.handle last callback fun e same =>
      noError e (List.mem_append_right _ (by simp [same]))).2

/-- Receive credit is exact and batched, for the socket's sessions and the handshake. -/
theorem receive_credit_exact {transport : τ} {config : Config} {ringSize inboundCap : Nat}
    {link : Link (Traced τ)} (made : Link.new ⟨transport, []⟩ config ringSize inboundCap = .ok link)
    (app : σ) {task : IoRoutine (Traced τ) σ Unit}
    (kind : (∃ accept page service, (∀ ws, Io.SocketProgram (service ws)) ∧
        task = Session.run accept config page service) ∨ ∃ keep, task = Handshake.task keep) :
    CreditExact (fun callbacks => callbacks.foldl handle
        (({ world := { link, app } } : Connection (Traced τ) σ).start task).2)
      fun callbacks => ((({ world := { link, app } } : Connection (Traced τ) σ).start task).2.takenAll
        callbacks).sum := by
  obtain ⟨transport, held, credit, inbound, -⟩ := Link.new_fresh made
  have log : link.transport.calls = [] := by rw [transport]
  rcases kind with ⟨accept, page, service, onSocket, rfl⟩ | ⟨keep, rfl⟩
  · exact creditExact_of_moves reportsLast_close app
      (Session.run_moves accept config page onSocket) credit held inbound log
  · exact creditExact_of_moves reportsLast_id app (Handshake.task_moves keep) credit held inbound log

end Connection

/-- The handshake task on a loopback bench, over a link with a 64-byte ring and a 16-byte queue. -/
theorem loopback_handshake_credit_exact :
    let link : Link (Traced Loopback) :=
      { transport := ⟨{ capacity := 4096 }, []⟩, inboundCap := 16, ring := FrameRing.new 64 1024 512 }
    let start := (({ world := { link, app := none } } : Connection (Traced Loopback)
      (Option HeadOutcome)).start (Handshake.task fun r _ => some r)).2
    CreditExact (fun callbacks => callbacks.foldl Connection.handle start)
      fun callbacks => (start.takenAll callbacks).sum :=
  @Connection.receive_credit_exact Loopback (Option HeadOutcome) _ { capacity := 4096 } {} 64 16 _ rfl
    none _ (.inr ⟨_, rfl⟩)

end WebSocketCore
