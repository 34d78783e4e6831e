import Mathlib
import WebSocketCore.Proofs.Session.Flushing
import WebSocketCore.Proofs.Http.HeadStream
import WebSocketCore.Proofs.Http.UpgradeHead

/-! # A session answers the head it reads

A session reads one request head and answers it over the link. Here the link runs over a fresh
loopback whose window holds a whole region, the head arrives cut into chunks of any sizes, and
every wait for send room, acknowledgements or a drain is resumed once the peer has acknowledged
every byte in flight.

A plain request is answered with the page under its `200` head. The session never stalls: it ends
having handed the loopback exactly the head and the page, each of them all acknowledged, and
closes the loopback once, after every wait and after everything was acknowledged. An upgrade
request with a key whose `101` head fits is answered with that head, pushed out whole before the
service runs: whatever a service made of the socket's operations then does, the bytes the loopback
received begin with the head, and no other byte ever comes before its last one.

The reading is the reference one (`readHead`) through `Handshake.parse_reads`; the writes
and the flush are the judgements of `Flushing`; what the service and the close do to the loopback
follows from the task moving only by its own operations (`Session.answer_moves`).
-/

namespace WebSocketCore

namespace Loopback

@[simp] theorem send_closed (t : Loopback) (s : Slice) (more : Bool) :
    (Transport.send t s more).1.closed = t.closed := by
  simp only [Transport.send]
  split <;> rfl

end Loopback

namespace Link

/-- The task's own operations keep every property of the transport that sends keep. -/
theorem TaskStep.keeps {τ : Type} [Transport τ] {P : τ → Prop}
    (sent : ∀ t s more, P t → P (Transport.send t s more).1) {l l' : Link τ}
    (step : TaskStep l l') (held : P l.transport) : P l'.transport := by
  have pushed : ∀ l : Link τ, P l.transport → P l.push.2.transport := by
    intro l held
    rcases usable_cases l with ⟨e, broken⟩ | usable
    · have unchanged : l.push.2 = l := by simp only [Link.push, broken]
      rw [unchanged]
      exact held
    · rw [(push_parts usable).2.2]
      exact FrameRing.finish_keeps sent l.ring held
  cases step with
  | consume n => exact held
  | append framing bytes =>
    rcases usable_cases l with ⟨e, broken⟩ | usable
    · have unchanged : (l.append framing bytes).2 = l := by simp only [Link.append, broken]
      rw [unchanged]
      exact held
    · rw [(append_parts usable framing bytes).2.2]
      exact FrameRing.append_keeps sent l.ring framing bytes held
  | push => exact pushed l held
  | flush =>
    rcases flush_cases l with same | rewound
    · exact same ▸ pushed l held
    · exact rewound ▸ pushed l held

theorem TaskSteps.keeps {τ : Type} [Transport τ] {P : τ → Prop}
    (sent : ∀ t s more, P t → P (Transport.send t s more).1) {l l' : Link τ}
    (steps : TaskSteps l l') (held : P l.transport) : P l'.transport := by
  induction steps with
  | refl => exact held
  | tail _ step ih => exact step.keeps sent ih

/-- A link that still holds its loopback, which received `pre` before any other byte and was
closed `closes` times. -/
structure Wired (pre : List UInt8) (closes : Nat) (l : Link Loopback) : Prop where
  attached : l.attached = true
  leads : pre <+: l.transport.sentBytes
  closed : l.transport.closed = closes

namespace Wired

variable {pre : List UInt8} {closes : Nat} {l l' : Link Loopback}

/-- The task's own operations only send. -/
theorem taskSteps (wired : l.Wired pre closes) (steps : TaskSteps l l') : l'.Wired pre closes := by
  have kept := steps.keeps (P := fun t : Loopback => pre <+: t.sentBytes ∧ t.closed = closes)
    (fun t s more held => ⟨held.1.trans (t.sentBytes_send s more), by simpa using held.2⟩)
    ⟨wired.leads, wired.closed⟩
  exact ⟨steps.frame.attached.trans wired.attached, kept.1, kept.2⟩

/-- An acknowledgement neither sends nor closes. -/
theorem ackAll (wired : l.Wired pre closes) : l.ackAll.Wired pre closes :=
  ⟨wired.attached, wired.leads, wired.closed⟩

end Wired

/-- Closing a link that holds its loopback closes the loopback once more and leaves what it
received and what is unacknowledged as they were. -/
theorem close_loopback {l : Link Loopback} (held : l.attached = true) :
    l.close.2.transport.sentBytes = l.transport.sentBytes ∧
      l.close.2.transport.unacked = l.transport.unacked ∧
      l.close.2.transport.closed = l.transport.closed + 1 := by
  unfold close settle
  split_ifs <;> simp_all [noteError, Transport.close, Transport.recved, Loopback.sentBytes]

end Link

namespace Progress

variable {σ α : Type}

/-- A run that moves only by the task's own operations keeps a link that holds its loopback
holding it, with the loopback's first bytes and its closes as they were, whatever the
acknowledgements. The induction is on the stretches of the run. -/
theorem Moves.wired {w₀ : Conn Loopback σ} {p : Progress (Conn Loopback σ) WaitReason Wake α}
    (moves : p.Moves id w₀) {pre : List UInt8} {closes : Nat} (wired : w₀.link.Wired pre closes)
    (r : Wake) :
    p.Ends r Conn.AckedAll (fun w => w.link.Wired pre closes) (fun w => w.link.Wired pre closes)
      (fun _ w => w.link.Wired pre closes) := by
  induction moves with
  | done steps last _ => exact .done (last ▸ wired.taskSteps steps)
  | stall steps _ => exact .stall (wired.taskSteps steps)
  | suspend steps _ _ _ ih =>
    exact .suspend (wired.taskSteps steps) fun v served =>
      ih r v (served ▸ (wired.taskSteps steps).ackAll)

end Progress

/-! ## Fresh links and response heads -/

namespace Config

/-- A valid configuration allows a payload byte. -/
theorem maxPayload_pos {c : Config} (valid : c.validate = .ok ()) : 1 ≤ c.maxPayload.toNat := by
  unfold validate at valid
  by_contra none
  have zero : c.maxPayload = 0 := UInt16.toNat_inj.mp (by simp only [UInt16.toNat_zero]; omega)
  simp [zero] at valid

end Config

namespace Link

/-- A link made over a fresh loopback whose window holds a whole region is one a writer goes on
with, whose run accepted nothing, holding a loopback that received nothing and was never closed,
with no error and nothing queued. -/
theorem new_writing {capacity ringSize inboundCap : Nat} {config : Config} {l : Link Loopback}
    (made : Link.new ({ capacity } : Loopback) config ringSize inboundCap = .ok l)
    (window : config.maxPayload.toNat + headerReserve ≤ capacity) :
    l.Writing config.maxPayload.toNat [] ∧ l.Wired [] 0 ∧ l.error = none ∧ l.inbound = [] := by
  unfold Link.new at made
  rcases valid : config.validate with e | u
  · rw [valid] at made
    cases made
  · rw [valid] at made
    by_cases small : ringSize < minRingSize ∨ inboundCap = 0
    · simp [small] at made
      cases made
    · simp [small] at made
      subst made
      have large : minRegion ≤ ringSize := by
        simp only [not_or, not_lt, minRingSize, minRegion] at small ⊢
        omega
      have short : config.maxPayload.toNat ≤ 0xFFFF := by
        have := config.maxPayload.toNat_lt
        omega
      have carries : Carries config.maxPayload.toNat
          { transport := { capacity }, inboundCap,
            ring := FrameRing.new ringSize config.maxPayload.toNat config.sendThreshold.toNat,
            idleLimit := config.idleTimeoutPolls }
          (RingRun.start (FrameRing.new ringSize config.maxPayload.toNat
            config.sendThreshold.toNat)) :=
        ⟨RingRun.start_delivering _ _ _ short, rfl, rfl, large, rfl, rfl, rfl⟩
      exact ⟨⟨⟨⟨_, carries⟩, rfl, FrameRing.roomy_of_closed rfl, Config.maxPayload_pos valid,
        window⟩, _, carries, rfl⟩, ⟨rfl, List.nil_prefix, rfl⟩, rfl, rfl⟩

end Link

namespace Response

/-- A head that fits is kept whole, and is at most the head buffer long. -/
theorem fitHead_ok {h h' : List UInt8} (fits : fitHead h = .ok h') :
    h' = h ∧ h'.length ≤ maxHeadLen := by
  unfold fitHead at fits
  split_ifs at fits with short
  · cases fits
    exact ⟨rfl, short⟩

/-- A head that fits is written within the loop budget, at three rounds a byte and one more. -/
theorem fitHead_rounds {h h' : List UInt8} (fits : fitHead h = .ok h') :
    3 * h'.length + 1 ≤ Routine.loopBudget := by
  have := (fitHead_ok fits).2
  simp only [maxHeadLen, Routine.loopBudget] at this ⊢
  omega

private theorem utf8Len_le_four_mul (cs : List Char) : String.utf8Len cs ≤ 4 * cs.length := by
  induction cs with
  | nil => simp
  | cons c cs ih =>
    rw [String.utf8Len_cons, List.length_cons]
    have := Char.utf8Size_le_four c
    omega

/-- The head of a page of fewer than 2^32 bytes fits the head buffer: its length has at most ten
digits. -/
theorem pageHead_ok {len : Nat} (short : len < 2 ^ 32) : ∃ head, pageHead len = .ok head := by
  have fixed : "HTTP/1.1 200 OK\r\nContent-Type: text/html\r\nContent-Length: ".utf8ByteSize +
      "\r\nConnection: close\r\n\r\n".utf8ByteSize = 81 := by
    decide
  have digits : (toString len).utf8ByteSize ≤ 40 := by
    show (Nat.repr len).utf8ByteSize ≤ 40
    rw [Nat.repr, String.utf8ByteSize_ofList]
    have few := Nat.toDigits_length 10 len 10 (by decide) (by omega)
    have := utf8Len_le_four_mul (Nat.toDigits 10 len)
    omega
  refine ⟨_, if_pos ?_⟩
  simp only [List.length_append, length_ascii, maxHeadLen]
  omega

end Response

/-! ## The session after the head -/

namespace Session

/-- The request asks for an upgrade with a key exactly when it has both. -/
theorem websocketKey_eq_some_iff {r : Request} {key : List UInt8} :
    r.websocketKey = some key ↔ r.upgrade = true ∧ r.key = some key := by
  unfold Request.websocketKey
  cases r.upgrade <;> simp

/-- The request has no key to answer exactly when it asks for no upgrade or has no key. -/
theorem websocketKey_eq_none_iff {r : Request} :
    r.websocketKey = none ↔ r.upgrade = false ∨ r.key = none := by
  unfold Request.websocketKey
  cases r.upgrade <;> simp

/-- Fed a head that the reference reading reads whole, a session on a link with no error and
nothing queued reads it, taking every chunk, and goes on answering it where the reading stopped;
then it closes the link. -/
theorem run_feed_head {τ σ : Type} [Transport τ] (accept : List UInt8 → List UInt8) (config : Config)
    (page : List UInt8) (service : Service τ σ) {s : List UInt8} {r : Request}
    (reads : HeadReading.readHead s = some (r, []))
    (bounded : s.length < 2 ^ 29) {w : Conn τ σ} (clean : w.link.error = none)
    (empty : w.link.inbound = []) {cs : List (List UInt8)} (chunks : ∀ c ∈ cs, c ≠ [])
    (whole : cs.flatten = s) :
    ∃ n, ((run accept config page service) w).feed cs =
      (((answer accept config page service r).run (w.consumed [] n)).bind
        fun _ w' => .done () { w' with link := w'.link.close.2 }, []) := by
  obtain ⟨a, n, q, cs', ⟨rfl, rest⟩, fed, left⟩ :=
    Handshake.parse_reads reads (by simp only [Routine.loopBudget]; omega) w cs clean chunks
      (by rw [empty, whole]; rfl)
  -- nothing of the head is left over, so no chunk is either
  rw [rest] at left
  obtain ⟨rfl, flat⟩ := List.append_eq_nil_iff.mp left
  have taken : cs' = [] := by
    have suffix : cs' <:+ cs := by
      simpa only [fed] using Progress.feed_suffix ((Handshake.parse (τ := τ) (σ := σ)).run w) cs
    rcases cs' with _ | ⟨c, more⟩
    · rfl
    · have filled := chunks c (suffix.subset List.mem_cons_self)
      simp only [List.flatten_cons, List.append_eq_nil_iff] at flat
      exact absurd flat.1 filled
  subst taken
  refine ⟨n, ?_⟩
  rw [run_eq, Io.run_bind_apply, Progress.bind_assoc, Progress.feed_bind fed, Progress.feed_nil]

section Answers

variable {σ : Type} {limit : Nat}

open Io

/-- The answer to a plain request, from a link a writer goes on with whose run accepted nothing,
ends with success on every branch on which each wait is resumed once everything is acknowledged:
having accepted the page's head and the page as raw bytes, with the ring drained and nothing
unacknowledged, and waiting only where it had accepted a first part of them. -/
theorem answer_page_ends (accept : List UInt8 → List UInt8) (config : Config) (page : List UInt8)
    (service : Service Loopback σ) {r : Request} (plain : r.websocketKey = none) {head : List UInt8}
    (made : Response.pageHead page.length = .ok head) (fits : 3 * page.length + 1 ≤ Routine.loopBudget)
    {w : Conn Loopback σ} (writing : w.link.Writing limit []) :
    ((answer accept config page service r).run w).Ends (.ok ()) Conn.AckedAll
      (fun v => ∃ bs, bs <+: head ++ page ∧ v.link.Writing limit (bs.map (Framing.raw, ·)))
      (fun _ => False)
      (fun a v => a = .ok () ∧ v.link.Writing limit ((head ++ page).map (Framing.raw, ·)) ∧
        v.link.ring.isDrained = true ∧ v.link.transport.unacked = 0) := by
  have short := Response.fitHead_rounds made
  rw [answer, plain]
  refine ends_bind (P := fun h v => h = head ∧ v.link.Writing limit [])
    (by rw [run_ofExcept]; exact .done ⟨head, made, rfl, writing⟩) fun h v made' => ?_
  obtain ⟨same, writing₀⟩ := made'
  subst same
  -- the head, then the page, then the flush; every wait has accepted a first part of both
  refine ends_bind (P := fun _ v => v.link.Writing limit (h.map (Framing.raw, ·)))
    ((FrameWriter.write_ends .raw writing₀ h short).mono (fun u waiting => ?_) (fun _ s => s)
      fun a u done => ⟨(), done.1, by simpa using done.2⟩) fun _ v writing₁ => ?_
  · obtain ⟨pre, within, holds⟩ := waiting
    exact ⟨pre, within.trans (List.prefix_append _ _), by simpa using holds⟩
  refine ends_bind (P := fun _ v => v.link.Writing limit ((h ++ page).map (Framing.raw, ·)))
    ((FrameWriter.write_ends .raw writing₁ page fits).mono (fun u waiting => ?_) (fun _ s => s)
      fun a u done => ⟨(), done.1, by simpa using done.2⟩) fun _ v writing₂ => ?_
  · obtain ⟨pre, within, holds⟩ := waiting
    exact ⟨h ++ pre, (List.prefix_append_right_inj h).mpr within, by simpa using holds⟩
  exact (FrameWriter.flush_ends writing₂).mono (fun u holds => ⟨h ++ page, List.prefix_rfl, holds⟩)
    (fun _ s => s) fun _ _ done => done

/-- The answer to an upgrade whose `101` head fits pushes the head out whole before the service
runs, and the loopback's bytes begin with it from then on, when every wait is acknowledged. -/
theorem answer_upgrade_ends (accept : List UInt8 → List UInt8) (config : Config) (page : List UInt8)
    {service : Service Loopback σ} (onSocket : ∀ ws, SocketProgram (service ws)) {r : Request}
    {key : List UInt8} (keyed : r.websocketKey = some key) {head : List UInt8}
    (made : Response.switchingProtocols (accept key) config.protocol = .ok head)
    {w : Conn Loopback σ} (writing : w.link.Writing limit []) (wired : w.link.Wired [] 0) :
    ((answer accept config page service r).run w).Ends (.ok ()) Conn.AckedAll
      (fun v => v.link.transport.sentBytes <+: head ∨ v.link.Wired head 0)
      (fun v => v.link.Wired head 0) (fun _ v => v.link.Wired head 0) := by
  have short := Response.fitHead_rounds made
  rw [answer, keyed]
  refine ends_bind (P := fun h v => h = head ∧ v.link.Writing limit [] ∧ v.link.Wired [] 0)
    (by rw [run_ofExcept]; exact .done ⟨head, made, rfl, writing, wired⟩)
    fun h v made' => ?_
  obtain ⟨same, writing₀, wired₀⟩ := made'
  subst same
  -- while the head goes out, the loopback has received a first part of it
  have written := (FrameWriter.write_ends .raw writing₀ h short).and
    ((FrameWriter.write_plain .raw h).moves v |>.wired wired₀ (.ok ()))
  refine ends_bind (P := fun _ u => u.link.Writing limit (h.map (Framing.raw, ·)) ∧ u.link.Wired [] 0)
    (written.mono (fun u waiting => ?_) (fun _ s => s.1.elim)
      fun a u done => ⟨(), done.1.1, by simpa using done.1.2, done.2⟩) fun _ u written' => ?_
  · obtain ⟨⟨pre, within, holds⟩, -⟩ := waiting
    exact .inl ((Link.Writing.sentBytes_raw (by simpa using holds)).1.trans within)
  obtain ⟨writing₁, wired₁⟩ := written'
  -- the push leaves nothing open or pending: the loopback has received the head whole
  have pushed := (FrameWriter.push_ends writing₁).and
    (FrameWriter.push_plain.moves u |>.wired wired₁ (.ok ()))
  refine ends_bind (P := fun _ x => x.link.Wired h 0)
    (pushed.mono (fun x waiting => .inl (waiting.1.sentBytes_raw).1) (fun _ s => s.1.elim)
      fun a x done => ⟨(), done.1.1, ?_⟩) fun _ x wired₂ => ?_
  · obtain ⟨⟨-, holds, closed, idle⟩, wired'⟩ := done
    exact ⟨wired'.attached, ((holds.sentBytes_raw).2 closed idle).symm ▸ List.prefix_rfl,
      wired'.closed⟩
  -- the service and its flush move only by the task's own operations, which only send
  exact ((((onSocket _).moves.bind fun _ => FrameWriter.flush_plain.moves) x).wired wired₂
    (.ok ())).mono (fun _ holds => .inr holds) (fun _ s => s) fun _ _ done => done

end Answers

/-- Fed a request head in chunks, with every wait for the peer resumed once it acknowledged
everything, the session answers it with the page, or with the `101` head first. -/
theorem answers_head_when_fed {σ : Type} (accept : List UInt8 → List UInt8) (config : Config)
    (page : List UInt8) {service : Service Loopback σ} (onSocket : ∀ ws, Io.SocketProgram (service ws))
    {capacity ringSize inboundCap : Nat} {link : Link Loopback}
    (made : Link.new ({ capacity } : Loopback) config ringSize inboundCap = .ok link)
    (window : config.maxPayload.toNat + headerReserve ≤ capacity) (app : σ)
    {s : List UInt8} {r : Request} (reads : HeadReading.readHead s = some (r, []))
    (bounded : s.length < 2 ^ 29) (cs : List (List UInt8)) (chunks : ∀ c ∈ cs, c ≠ [])
    (whole : cs.flatten = s) (fits : 3 * page.length + 1 ≤ Routine.loopBudget) :
    ((run accept config page service { link, app }).feed cs).2 = [] ∧
    ((r.upgrade = false ∨ r.key = none) → ∃ head, Response.pageHead page.length = .ok head ∧
      ((run accept config page service { link, app }).feed cs).1.Ends (.ok ()) Conn.AckedAll
        (fun w => w.link.transport.sentBytes <+: head ++ page ∧ w.link.transport.closed = 0)
        (fun _ => False)
        (fun _ w => w.link.transport.sentBytes = head ++ page ∧ w.link.transport.closed = 1 ∧
          w.link.transport.unacked = 0)) ∧
    (∀ key head, r.upgrade = true → r.key = some key →
      Response.switchingProtocols (accept key) config.protocol = .ok head →
      ((run accept config page service { link, app }).feed cs).1.Ends (.ok ()) Conn.AckedAll
        (fun w => w.link.transport.sentBytes <+: head ∨ head <+: w.link.transport.sentBytes)
        (fun w => head <+: w.link.transport.sentBytes)
        (fun _ w => head <+: w.link.transport.sentBytes)) := by
  obtain ⟨writing, wired, clean, empty⟩ := Link.new_writing made window
  obtain ⟨n, fed⟩ := run_feed_head accept config page service reads bounded (w := { link, app })
    clean empty chunks whole
  -- the reading changed only the queue and the count of consumed bytes
  have writing₁ := writing.inbound [] (link.credit + n)
  have wired₁ : ({ link with inbound := [], credit := link.credit + n } : Link Loopback).Wired [] 0 :=
    ⟨wired.attached, wired.leads, wired.closed⟩
  rw [fed]
  refine ⟨rfl, fun plain => ?_, fun key head upgrade keyed fitting => ?_⟩
  · have none : r.websocketKey = none := websocketKey_eq_none_iff.mpr plain
    obtain ⟨head, made'⟩ := @Response.pageHead_ok page.length
      (by simp only [Routine.loopBudget] at fits; omega)
    refine ⟨head, made', ?_⟩
    have answered := (answer_page_ends accept config page service none made' fits writing₁).and
      ((answer_moves accept config page onSocket r
        (({ link, app } : Conn Loopback σ).consumed [] n)).wired wired₁ (.ok ()))
    refine (answered.mono (fun v waiting => ?_) (fun _ s => s.1.elim) fun a v done => done).bind
      fun _ v done => .done ?_
    · obtain ⟨⟨bs, within, holds⟩, wired'⟩ := waiting
      exact ⟨(Link.Writing.sentBytes_raw holds).1.trans within, wired'.closed⟩
    · -- the flush left the ring drained with every byte acknowledged; then the link is closed
      obtain ⟨⟨-, holds, drained, unacked⟩, wired'⟩ := done
      obtain ⟨sent, unacked', closed⟩ := Link.close_loopback wired'.attached
      obtain ⟨closed₀, idle, -⟩ := (FrameRing.isDrained_iff _).mp drained
      exact ⟨sent.trans ((Link.Writing.sentBytes_raw holds).2 closed₀ idle),
        closed.trans (by rw [wired'.closed]), unacked'.trans unacked⟩
  · have keyedAll : r.websocketKey = some key := websocketKey_eq_some_iff.mpr ⟨upgrade, keyed⟩
    refine ((answer_upgrade_ends accept config page onSocket keyedAll fitting writing₁ wired₁).mono
      (fun v waiting => waiting.imp id (·.leads)) (fun v holds => holds.leads)
      fun _ v holds => holds).bind fun _ v wired' => .done ?_
    exact (Link.close_loopback wired'.attached).1 ▸ wired'.leads

end Session

end WebSocketCore
