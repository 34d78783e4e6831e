import Mathlib
import WebSocketCore.Proofs.Session.EchoPlay

/-! # A session answers the head it reads, whatever the peer plays

A peer streams a request head `s` to a session over a fresh loopback and plays moves in any order
(`Peer.play`): it offers the head's next bytes in pieces of any size, acknowledges any number of
sent bytes, lets poll ticks pass, closes or fails. The session waits only where `AnswerWait`
holds: for bytes with the queue empty before the head's end, or on a reason its link awaits, with
the loopback holding a first part of the answer.

A plain request is answered with the page under its `200` head: whatever the peer plays, the
loopback has received a first part of the head and the page. In a quiet play, of offers,
acknowledgements and poll ticks on a link that never times out, the loopback is closed at most
once, and only when it holds the head and the page with nothing unacknowledged; once the peer has
offered the whole head and acknowledged everything, it is closed.

An upgrade request with a key whose `101` head fits is answered with that head, pushed out whole
before the service runs: whatever the peer plays, the loopback's bytes are a first part of the
head or begin with it, and in a quiet play they begin with it once the peer has offered the whole
head and acknowledged everything. From the push on, the service runs free (`Connection.Guided`):
whatever it does, it only sends after the head.
-/

namespace WebSocketCore

namespace Link

/-- The peer's steps never add to what is unacknowledged. -/
theorem PeerStep.unacked_le {l l' : Link Loopback} (step : PeerStep l l') :
    l'.transport.unacked ≤ l.transport.unacked := by
  cases step with
  | recv => exact le_rfl
  | ack len => exact Nat.sub_le _ _
  | poll calm =>
    obtain ⟨idle, error, polled⟩ := Link.onPoll_eq l
    rw [polled]
  | settle =>
    unfold Link.settle
    split_ifs <;> simp [Transport.recved]

/-- The task's own operations only send: bytes the loopback began with stay first. -/
theorem TaskStep.leads {l l' : Link Loopback} (step : TaskStep l l') {pre : List UInt8}
    (leads : pre <+: l.transport.sentBytes) : pre <+: l'.transport.sentBytes :=
  step.keeps (P := fun t : Loopback => pre <+: t.sentBytes)
    (fun t s more held => held.trans (t.sentBytes_send s more)) leads

/-- Closing a link sends nothing: bytes the loopback began with stay first. -/
theorem close_leads {l : Link Loopback} {pre : List UInt8} (leads : pre <+: l.transport.sentBytes) :
    pre <+: l.close.2.transport.sentBytes := by
  rw [close_sentBytes]
  exact leads

/-- Closing a link that holds a loopback never closed, with nothing unacknowledged, lets the
loopback go closed once, with the bytes it was sent and nothing unacknowledged. -/
theorem close_settles {l : Link Loopback} {pre : List UInt8} (wired : l.Wired pre 0)
    {P : List UInt8 → Prop} (sent : P l.transport.sentBytes) (acked : l.transport.unacked = 0) :
    P l.close.2.transport.sentBytes ∧ l.close.2.transport.closed = 1 ∧
      l.close.2.transport.unacked = 0 ∧ l.close.2.attached = false := by
  obtain ⟨sent', unacked', closed⟩ := close_loopback wired.attached
  exact ⟨sent' ▸ sent, closed.trans (by rw [wired.closed]), unacked'.trans acked, close_attached _⟩

end Link

namespace Session

variable {σ : Type}

/-! ## Where the answer waits -/

section Waits

variable {limit : Nat} {Sent : List UInt8 → Prop} {bytes s : List UInt8} {y : WaitReason}
  {u : Conn Loopback σ}

/-- Where a session answers, served by a peer streaming the request head `s`: its link holds a
loopback that was never closed and whose bytes are as `Sent` says, and a writer goes on with it;
the wait is for bytes with the queue empty before the head's end, or on a reason the link
awaits. -/
def AnswerWait (limit : Nat) (Sent : List UInt8 → Prop) (s : List UInt8) (y : WaitReason)
    (u : Conn Loopback σ) : Prop :=
  u.link.Wired [] 0 ∧ Sent u.link.transport.sentBytes ∧ (∃ acc, u.link.Writing limit acc) ∧
    ((y = .recv ∧ u.link.inbound = [] ∧ u.consumedCount < s.length) ∨ u.link.Awaits y)

namespace AnswerWait

/-- A wait of the reading of the head, from a world that consumed nothing. -/
theorem of_listening {w₀ : Conn Loopback σ} {acc : List (Framing × UInt8)}
    (listening : Io.Listening w₀ (· < w₀.consumedCount + s.length) y u)
    (writing : w₀.link.Writing limit acc) (wired : w₀.link.Wired [] 0)
    (sent : Sent w₀.link.transport.sentBytes) (fresh : w₀.consumedCount = 0) :
    AnswerWait limit Sent s y u := by
  obtain ⟨rfl, empty, listens, early⟩ := listening
  rw [fresh, Nat.zero_add] at early
  exact ⟨listens.wired wired, listens.sentBytes ▸ sent, ⟨acc, listens.writing writing⟩, .inl ⟨rfl, empty, early⟩⟩

/-- A wait on a reason the link awaits, on a link whose run accepted a first part of `bytes`, as
raw bytes. -/
theorem of_raw {bs : List UInt8} (awaits : u.link.Awaits y) (wired : u.link.Wired [] 0)
    (writing : u.link.Writing limit (bs.map (Framing.raw, ·))) (within : bs <+: bytes) :
    AnswerWait limit (· <+: bytes) s y u :=
  ⟨wired, (Link.Writing.sentBytes_raw writing).1.trans within, ⟨_, writing⟩, .inr awaits⟩

/-- A wait of a raw write of `part` after `bs`, which with it begin `bytes`. -/
theorem of_writeWait {bs part : List UInt8}
    (waits : FrameWriter.WriteWait limit .raw (bs.map (Framing.raw, ·)) part [] 0 y u)
    (within : bs ++ part <+: bytes) : AnswerWait limit (· <+: bytes) s y u := by
  obtain ⟨awaits, wired, got, written, writing⟩ := waits
  rw [← List.map_append] at writing
  exact of_raw awaits wired writing (((List.prefix_append_right_inj bs).mpr written).trans within)

/-- A wait of a push or a flush after the raw bytes `bs`, a first part of `bytes`. -/
theorem of_pushWait {bs : List UInt8}
    (waits : FrameWriter.PushWait limit (bs.map (Framing.raw, ·)) [] 0 y u) (within : bs <+: bytes) :
    AnswerWait limit (· <+: bytes) s y u :=
  of_raw waits.1 waits.2.1 waits.2.2 within

theorem calm (waits : AnswerWait limit Sent s y u) :
    (y = .recv ∧ u.link.inbound = []) ∨ u.link.Awaits y :=
  waits.2.2.2.imp (fun recv => ⟨recv.1, recv.2.1⟩) id

/-- The link a wait is on carries a run, on a loopback whose window holds a region. -/
theorem window (waits : AnswerWait limit Sent s y u) :
    ∃ limit' t, u.link.Carries limit' t ∧ limit' + 4 ≤ u.link.transport.capacity := by
  obtain ⟨acc, writing⟩ := waits.2.2.1
  obtain ⟨t, carries⟩ := writing.writable.carries
  exact ⟨_, t, carries, writing.writable.window⟩

/-- No wait is for bytes once the whole head is consumed. -/
theorem early_of_recv (waits : AnswerWait limit Sent s .recv u) : u.consumedCount < s.length := by
  rcases waits.2.2.2 with ⟨-, -, early⟩ | awaits
  · exact early
  · exact awaits.elim

end AnswerWait

end Waits

/-! ## The session served by the peer -/

open Io Connection

section Guided

variable {limit : Nat} {s : List UInt8}

/-- The session closes its link last. -/
abbrev closing (_ : Except NetError Unit) (w : Conn Loopback σ) :
    Progress (Conn Loopback σ) WaitReason Wake Unit :=
  .done () { w with link := w.link.close.2 }

/-- A session from a world whose link a writer goes on with, whose run accepted nothing and whose
loopback received nothing, with nothing consumed or queued, served by a peer streaming a request
head `s` that the reference reading reads whole: the reading waits for bytes only before the
head's end, and the session is guided as its answer to the request, then the close, is from every
world the reading leaves. -/
theorem run_guided (accept : List UInt8 → List UInt8) (config : Config) (page : List UInt8)
    (service : Service Loopback σ) (Sent : List UInt8 → Prop) (nothing : Sent []) {r : Request}
    (reads : HeadReading.readHead s = some (r, [])) (bounded : 4 * s.length + 2 < Routine.loopBudget)
    {w : Conn Loopback σ} (writing : w.link.Writing limit []) (wired : w.link.Wired [] 0)
    (empty : w.link.inbound = []) (fresh : w.consumedCount = 0)
    {Q : Unit → Nat → Conn Loopback σ → Prop} {Free : Link Loopback → Prop} {n : Nat}
    (answers : ∀ m ≤ n, ∀ u : Conn Loopback σ, u.link.Writing limit [] → u.link.Wired [] 0 → u.Within s →
      Guided s (AnswerWait limit Sent s) Q Free m (((answer accept config page service r).run u).bind closing)) :
    Guided s (AnswerWait limit Sent s) Q Free n (run accept config page service w) := by
  have clean : w.link.error = none := Link.error_of_usable writing.writable.usable
  have writing₀ : w.link.Writing limit (([] : List UInt8).map (Framing.raw, ·)) := writing
  have sent : Sent w.link.transport.sentBytes :=
    List.prefix_nil.mp (Link.Writing.sentBytes_raw writing₀).1 ▸ nothing
  rw [run_eq]
  refine Guided.run_bind ((guards_of_reads (Handshake.parse_mirrors (Conn.Alike.refl w))
    (Handshake.parse_reads reads bounded) (by rw [fresh]; rfl) clean wired.attached
    (by rw [empty]; exact List.nil_prefix) n).fewer.mono
      (fun _ _ listening => AnswerWait.of_listening listening writing wired sent fresh)
      fun _ _ _ heard => heard) (fun _ m u heard => ?_) fun _ _ _ heard => ?_
  · -- the request head was read: the answer goes on where the reading stopped
    obtain ⟨⟨listens, k, ⟨same, -⟩, -, count, queued⟩, spent⟩ := heard
    cases same
    rw [fresh, Nat.zero_add] at count
    exact answers m spent u (listens.writing writing) (listens.wired wired)
      (by rw [Conn.Within, count]; exact queued)
  · -- reading the head does not fail
    obtain ⟨⟨-, k, ⟨same, -⟩, -⟩, -⟩ := heard
    cases same

/-- The answer to a plain request, from a link a writer goes on with whose run accepted nothing,
served by the peer over `n` resumptions: the page's head, then the page, written raw, then the
flush; it waits only where the loopback holds a first part of them, and ends with the loopback
holding them all, acknowledged. -/
theorem answer_page_guards (accept : List UInt8 → List UInt8) (config : Config) (page : List UInt8)
    (service : Service Loopback σ) {r : Request} (plain : r.websocketKey = none) {head : List UInt8}
    (made : Response.pageHead page.length = .ok head) {u : Conn Loopback σ} {n : Nat}
    (writing : u.link.Writing limit []) (wired : u.link.Wired [] 0) (within : u.Within s)
    (payload : 1 ≤ limit) (fits : 2 * page.length + 2 * Response.maxHeadLen + n + 1 < Routine.loopBudget) :
    ((answer accept config page service r).run u).Guards (.ok ()) (Conn.Serves s)
      (AnswerWait limit (· <+: head ++ page) s) (fun res _ v => res = .ok () ∧
        v.link.transport.sentBytes = head ++ page ∧ v.link.transport.unacked = 0 ∧ v.link.Wired [] 0) n := by
  have headLen := (Response.fitHead_ok made).2
  have writing₀ : u.link.Writing limit (([] : List UInt8).map (Framing.raw, ·)) := writing
  rw [answer, plain]
  dsimp only
  rw [made, run_bind_apply, run_ofExcept, Progress.done_bind]
  dsimp only
  -- the head, then the page: every wait has accepted a first part of both
  refine guards_bind ((FrameWriter.write_guards s .raw payload head writing₀ wired within (by omega)).fewer.mono
    (fun _ _ waits => AnswerWait.of_writeWait waits (by simp)) fun _ _ _ post => post)
    (fun _ m u₂ wrote => ?_) fun _ _ _ wrote => by cases wrote.1.1
  obtain ⟨⟨-, writing₂, wired₂, unread₂⟩, spent₂⟩ := wrote
  rw [← List.map_append, List.nil_append] at writing₂
  refine guards_bind ((FrameWriter.write_guards s .raw payload page writing₂ wired₂ unread₂.2
    (by omega)).fewer.mono (fun _ _ waits => AnswerWait.of_writeWait waits List.prefix_rfl)
      fun _ _ _ post => post) (fun _ m' u₃ wrote' => ?_) fun _ _ _ wrote' => by cases wrote'.1.1
  obtain ⟨⟨-, writing₃, wired₃, unread₃⟩, spent₃⟩ := wrote'
  rw [← List.map_append] at writing₃
  -- the flush drains the ring: the loopback has received the head and the page, all acknowledged
  refine (FrameWriter.flush_guards s writing₃ wired₃ unread₃.2 (by omega)).mono
    (fun _ _ waits => AnswerWait.of_pushWait waits List.prefix_rfl) fun _ _ v flushed => ?_
  obtain ⟨ok, writing₄, ⟨drained, unacked⟩, wired₄, -⟩ := flushed
  obtain ⟨closed, idle, -⟩ := (FrameRing.isDrained_iff _).mp drained
  exact ⟨ok, (Link.Writing.sentBytes_raw writing₄).2 closed idle, unacked, wired₄⟩

/-- The answer to an upgrade request whose `101` head fits, from a link a writer goes on with whose
run accepted nothing, then the close, served by the peer over `n` resumptions: it writes the head
raw and pushes it, waiting only where the loopback holds a first part of it, and then, with the
loopback holding the head whole, hands over to the service, its flush and the close. -/
theorem answer_upgrade_guided (accept : List UInt8 → List UInt8) (config : Config) (page : List UInt8)
    {service : Service Loopback σ} (onSocket : ∀ ws, SocketProgram (service ws)) {r : Request}
    {key : List UInt8} (keyed : r.websocketKey = some key) {head : List UInt8}
    (built : Response.switchingProtocols (accept key) config.protocol = .ok head)
    {u : Conn Loopback σ} {n : Nat} (writing : u.link.Writing limit []) (wired : u.link.Wired [] 0)
    (within : u.Within s) (payload : 1 ≤ limit) (fits : n + 2 * Response.maxHeadLen + 1 < Routine.loopBudget) :
    Guided s (AnswerWait limit (· <+: head) s) (fun _ _ _ => False) (fun l => head <+: l.transport.sentBytes) n
      (((answer accept config page service r).run u).bind closing) := by
  have headLen := (Response.fitHead_ok built).2
  have writing₀ : u.link.Writing limit (([] : List UInt8).map (Framing.raw, ·)) := writing
  rw [answer, keyed]
  dsimp only
  rw [built, run_bind_apply, run_ofExcept, Progress.done_bind]
  dsimp only
  -- the head is written whole, then pushed
  refine Guided.run_bind ((FrameWriter.write_guards s .raw payload head writing₀ wired within
    (by omega)).fewer.mono (fun _ _ waits => AnswerWait.of_writeWait waits (by simp))
      fun _ _ _ post => post) (fun _ m u₂ wrote => ?_) fun _ _ _ wrote => by cases wrote.1.1
  obtain ⟨⟨-, writing₂, wired₂, unread₂⟩, spent₂⟩ := wrote
  rw [← List.map_append, List.nil_append] at writing₂
  refine Guided.run_bind ((FrameWriter.push_guards s writing₂ wired₂ unread₂.2 (by omega)).fewer.mono
    (fun _ _ waits => AnswerWait.of_pushWait waits List.prefix_rfl) fun _ _ _ post => post)
    (fun _ m' u₃ pushed => ?_) fun _ _ _ pushed => by cases pushed.1.1
  obtain ⟨⟨-, writing₃, closed, idle, -⟩, -⟩ := pushed
  -- nothing open or pending: the loopback holds the head whole, and the service runs free
  have sent : u₃.link.transport.sentBytes = head := (Link.Writing.sentBytes_raw writing₃).2 closed idle
  exact .free (sent ▸ List.prefix_rfl : head <+: u₃.link.transport.sentBytes)
    (Progress.Moves.bind (((onSocket _).moves.bind fun _ => FrameWriter.flush_plain.moves) u₃)
      fun _ _ => .done .refl rfl rfl)

/-- How the session ends on a plain request answered with `bytes`: the loopback holds them with
nothing unacknowledged and was closed once, and the link let it go. -/
def PageEnd (bytes : List UInt8) (_ : Unit) (_ : Nat) (v : Conn Loopback σ) : Prop :=
  v.link.transport.sentBytes = bytes ∧ v.link.transport.closed = 1 ∧ v.link.transport.unacked = 0 ∧
    v.link.attached = false

/-- A session answering a plain request, from a fresh world, served by a peer streaming the head:
it waits only where the loopback holds a first part of the page's head and the page, and ends as
`PageEnd` says, never handing over. -/
theorem run_page_guided (accept : List UInt8 → List UInt8) (config : Config) (page : List UInt8)
    (service : Service Loopback σ) {r : Request} (plain : r.websocketKey = none)
    (reads : HeadReading.readHead s = some (r, [])) (bounded : 4 * s.length + 2 < Routine.loopBudget)
    {head : List UInt8} (made : Response.pageHead page.length = .ok head) {w : Conn Loopback σ}
    (writing : w.link.Writing limit []) (wired : w.link.Wired [] 0) (empty : w.link.inbound = [])
    (fresh : w.consumedCount = 0) (payload : 1 ≤ limit) {n : Nat}
    (fits : 2 * page.length + 2 * Response.maxHeadLen + n + 1 < Routine.loopBudget) :
    Guided s (AnswerWait limit (· <+: head ++ page) s) (PageEnd (head ++ page)) (fun _ => False) n
      (run accept config page service w) := by
  refine run_guided accept config page service (· <+: head ++ page) List.nil_prefix reads bounded writing
    wired empty fresh
    fun m fewer u writing' wired' within => .of_guards ?_
  refine (answer_page_guards accept config page service plain made writing' wired' within payload
    (by omega)).bind fun _ _ v answered => .done ?_
  -- the close comes after everything was acknowledged
  obtain ⟨-, sent, unacked, wired''⟩ := answered
  exact Link.close_settles (P := (· = head ++ page)) wired'' sent unacked

/-- A session answering an upgrade request whose `101` head fits, from a fresh world, served by a
peer streaming the head: it waits only where the loopback holds a first part of the head, and
hands over to the service once the loopback holds it whole. -/
theorem run_upgrade_guided (accept : List UInt8 → List UInt8) (config : Config) (page : List UInt8)
    {service : Service Loopback σ} (onSocket : ∀ ws, SocketProgram (service ws)) {r : Request}
    {key : List UInt8} (keyed : r.websocketKey = some key) (reads : HeadReading.readHead s = some (r, []))
    (bounded : 4 * s.length + 2 < Routine.loopBudget) {head : List UInt8}
    (built : Response.switchingProtocols (accept key) config.protocol = .ok head) {w : Conn Loopback σ}
    (writing : w.link.Writing limit []) (wired : w.link.Wired [] 0) (empty : w.link.inbound = [])
    (fresh : w.consumedCount = 0) (payload : 1 ≤ limit) {n : Nat}
    (fits : n + 2 * Response.maxHeadLen + 1 < Routine.loopBudget) :
    Guided s (AnswerWait limit (· <+: head) s) (fun _ _ _ => False) (fun l => head <+: l.transport.sentBytes) n
      (run accept config page service w) :=
  run_guided accept config page service (· <+: head) List.nil_prefix reads bounded writing wired empty fresh
    fun _ fewer _ writing' wired' within =>
      answer_upgrade_guided accept config page onSocket keyed built writing' wired' within payload (by omega)

end Guided

/-! ## The answer over any play -/

section Play

variable {limit : Nat} {head page s : List UInt8}

/-- What a quiet play keeps of a loopback whose bytes are as `Sent` says: it was never closed
while the link holds it; and once the link let it go, its bytes are as `Done` says, it was closed
once and has nothing unacknowledged. -/
structure ClosedAfter (Sent Done : List UInt8 → Prop) (l : Link Loopback) : Prop where
  leads : Sent l.transport.sentBytes
  held : l.attached = true → l.transport.closed = 0
  released : l.attached = false →
    Done l.transport.sentBytes ∧ l.transport.closed = 1 ∧ l.transport.unacked = 0

/-- A peer step keeps the transport held, what it was sent and how often it was closed, and only
acknowledges: it keeps what a quiet play keeps. -/
theorem ClosedAfter.peerStep {Sent Done : List UInt8 → Prop} {l l' : Link Loopback}
    (step : Link.PeerStep l l') (kept : ClosedAfter Sent Done l) : ClosedAfter Sent Done l' := by
  obtain ⟨-, attached, -, closed, -⟩ := step.frame
  have sent := step.sentBytes
  have unacked := step.unacked_le
  refine ⟨sent ▸ kept.leads, fun held => ?_, fun released => ?_⟩
  · rw [closed]
    exact kept.held (attached ▸ held)
  · obtain ⟨done, closed', unacked'⟩ := kept.released (attached ▸ released)
    exact ⟨sent ▸ done, closed.trans closed', by omega⟩

/-- The loopback's bytes are a first part of `head` or begin with it. -/
def HeadFirst (head : List UInt8) (l : Link Loopback) : Prop :=
  l.transport.sentBytes <+: head ∨ head <+: l.transport.sentBytes

/-- Whatever depends on the loopback's bytes alone depends on them alone. -/
theorem sentOnly_sent (Sent : List UInt8 → Prop) : SentOnly fun l => Sent l.transport.sentBytes :=
  fun _ l' same sent => show Sent l'.transport.sentBytes from same ▸ sent

theorem sentOnly_headFirst (head : List UInt8) : SentOnly (HeadFirst head) :=
  sentOnly_sent fun b => b <+: head ∨ head <+: b

/-- A session whose waits and ends keep the loopback's bytes as `Sent` says, and which never runs
free, has its guarantee carried over any play: the peer's steps send nothing. -/
theorem sent_discipline {Sent : List UInt8 → Prop} {Q : Unit → Nat → Conn Loopback σ → Prop}
    (ends : ∀ a m v, Q a m v → Sent v.link.transport.sentBytes) :
    Discipline (AnswerWait limit Sent s) Q (fun l => Sent l.transport.sentBytes) fun _ => False :=
  ⟨fun _ _ waits => waits.2.1, fun _ _ waits => waits.calm, ends, fun _ => False.elim,
    fun _ _ step sent => step.sentBytes ▸ sent, fun _ _ _ => id, fun _ => id, fun _ _ _ => id⟩

/-- A session whose waits keep the loopback's bytes as `Sent` says, and whose ends let the
loopback go holding what `Done` says, closed once with nothing unacknowledged, has its guarantee
carried over a quiet play: the peer's steps keep the transport held and never add to what is
unacknowledged. -/
theorem closedAfter_discipline {Sent Done : List UInt8 → Prop} {Q : Unit → Nat → Conn Loopback σ → Prop}
    (ends : ∀ a m v, Q a m v → Done v.link.transport.sentBytes ∧ v.link.transport.closed = 1 ∧
      v.link.transport.unacked = 0 ∧ v.link.attached = false)
    (done : ∀ b, Done b → Sent b) :
    Discipline (AnswerWait limit Sent s) Q (ClosedAfter Sent Done) fun _ => False := by
  refine ⟨fun _ _ waits => ⟨waits.2.1, fun _ => waits.1.closed, fun released => ?_⟩,
    fun _ _ waits => waits.calm, fun a m v ended => ?_, fun _ => False.elim,
    fun _ _ step kept => kept.peerStep step, fun _ _ _ => id, fun _ => id, fun _ _ _ => id⟩
  · -- a wait is on a link that holds its transport
    rw [waits.1.attached] at released
    cases released
  · obtain ⟨all, closed, unacked, released⟩ := ends a m v ended
    refine ⟨done _ all, fun held => ?_, fun _ => ⟨all, closed, unacked⟩⟩
    rw [released] at held
    cases held

/-- The plain answer's guarantee is one the connection carries over any play: every wait and end
is on a loopback that received a first part of the head and the page. -/
theorem page_discipline : Discipline (σ := σ) (AnswerWait limit (· <+: head ++ page) s) (PageEnd (head ++ page))
    (fun l => l.transport.sentBytes <+: head ++ page) fun _ => False :=
  sent_discipline fun _ _ v ended => show v.link.transport.sentBytes <+: head ++ page from
    ended.1 ▸ List.prefix_rfl

/-- The plain answer's guarantee is one the connection carries over a quiet play. -/
theorem page_quiet_discipline : Discipline (σ := σ) (AnswerWait limit (· <+: head ++ page) s)
    (PageEnd (head ++ page)) (ClosedAfter (· <+: head ++ page) (· = head ++ page)) fun _ => False :=
  closedAfter_discipline (fun _ _ _ ended => ended) fun b done =>
    show b <+: head ++ page from done ▸ List.prefix_rfl

/-- The upgrade answer's guarantee is one the connection carries over any play: every wait is on a
loopback that received a first part of the head, and the service runs free once it holds the
head whole, which its own operations, its close and the peer's steps keep. -/
theorem upgrade_discipline : Discipline (σ := σ) (AnswerWait limit (· <+: head) s) (fun _ _ _ => False)
    (HeadFirst head) fun l => head <+: l.transport.sentBytes :=
  ⟨fun _ _ waits => .inl waits.2.1, fun _ _ waits => waits.calm, fun _ _ _ => False.elim,
    fun _ leads => .inr leads, fun _ l' step first => sentOnly_headFirst head _ l' step.sentBytes first,
    fun _ _ step leads => step.leads leads,
    fun _ leads => Link.close_leads leads,
    fun _ l' step leads => sentOnly_sent (head <+: ·) _ l' step.sentBytes leads⟩

/-- The upgrade answer's guarantee is one the connection carries over a quiet play, with the head
whole once the link let the loopback go. -/
theorem upgrade_quiet_discipline : Discipline (σ := σ) (AnswerWait limit (· <+: head) s) (fun _ _ _ => False)
    (fun l => HeadFirst head l ∧ (l.attached = false → head <+: l.transport.sentBytes))
    fun l => head <+: l.transport.sentBytes := by
  refine ⟨fun _ _ waits => ⟨.inl waits.2.1, fun released => ?_⟩, fun _ _ waits => waits.calm,
    fun _ _ _ => False.elim, fun _ leads => ⟨.inr leads, fun _ => leads⟩, fun _ l' step kept => ?_,
    fun _ _ step leads => step.leads leads,
    fun _ leads => Link.close_leads leads,
    fun _ l' step leads => sentOnly_sent (head <+: ·) _ l' step.sentBytes leads⟩
  · rw [waits.1.attached] at released
    cases released
  · obtain ⟨-, attached, -⟩ := step.frame
    exact ⟨sentOnly_headFirst head _ l' step.sentBytes kept.1, fun released =>
      sentOnly_sent (head <+: ·) _ l' step.sentBytes (kept.2 (attached ▸ released))⟩

/-- Once the peer has offered the whole head and acknowledged everything, a served session
answering it has ended, its link noting an error and letting the loopback go, or its link is free:
a live session would wait for bytes of the head. -/
theorem served_settles {Q : Unit → Nat → Conn Loopback σ → Prop} {Safe Free : Link Loopback → Prop}
    {Sent : List UInt8 → Prop} (discipline : Discipline (AnswerWait limit Sent s) Q Safe Free)
    {c : Connection Loopback σ} {n taken : Nat}
    (serving : c.Serving s (AnswerWait limit Sent s) Q Safe Free n taken) (calm : Calm c)
    (all : taken = s.length) (acked : c.world.link.transport.unacked = 0) :
    (c.world.link.error.isSome = true ∧ c.world.link.attached = false) ∨ Free c.world.link := by
  cases live : c.isFinished
  · obtain ⟨w, k, parks⟩ := serving.parked live
    rcases parks.drained discipline (calm live) all acked (fun _ _ waits _ => waits.window) with
      ⟨u, waits, consumed, -⟩ | free
    · have early := waits.early_of_recv
      omega
    · exact .inr free
  · exact serving.ended live

/-- A loopback that was closed was let go: it holds what `Done` says, closed once, with nothing
unacknowledged. -/
theorem ClosedAfter.of_closed {Sent Done : List UInt8 → Prop} {l : Link Loopback}
    (kept : ClosedAfter Sent Done l) (closed : l.transport.closed ≠ 0) :
    Done l.transport.sentBytes ∧ l.transport.closed = 1 ∧ l.transport.unacked = 0 := by
  -- a link that still holds the loopback never closed it
  cases held : l.attached
  · exact kept.released held
  · exact absurd (kept.held held) closed

/-- Once the peer has offered the whole head and acknowledged everything, a session served over a
quiet play has let its loopback go, holding what `Done` says, closed once. -/
theorem served_closes {Sent Done : List UInt8 → Prop} {Q : Unit → Nat → Conn Loopback σ → Prop}
    (discipline : Discipline (AnswerWait limit Sent s) Q (ClosedAfter Sent Done) fun _ => False)
    {c : Connection Loopback σ} {n taken : Nat}
    (serving : c.Serving s (AnswerWait limit Sent s) Q (ClosedAfter Sent Done) (fun _ => False) n taken)
    (calm : Calm c) (all : taken = s.length) (acked : c.world.link.transport.unacked = 0) :
    Done c.world.link.transport.sentBytes ∧ c.world.link.transport.closed = 1 := by
  rcases served_settles discipline serving calm all acked with ⟨-, released⟩ | never
  · obtain ⟨done, closed, -⟩ := serving.safe.released released
    exact ⟨done, closed⟩
  · exact never.elim

/-- A live served connection whose task does not wait for bytes waits on a reason its link
awaits, or its link is free. -/
theorem served_awaits {I : WaitReason → Conn Loopback σ → Prop} {Q : Unit → Nat → Conn Loopback σ → Prop}
    {Safe Free : Link Loopback → Prop} {c : Connection Loopback σ} {n taken : Nat}
    (serving : c.Serving s I Q Safe Free n taken) (calm : Calm c) (live : c.isFinished = false)
    (other : c.waiting ≠ .recv) : c.world.link.Awaits c.waiting ∨ Free c.world.link := by
  obtain ⟨w, k, parks⟩ := serving.parked live
  exact parks.owed (calm live) other

end Play

/-! ## Any play on a fresh link -/

section Runs

variable (accept : List UInt8 → List UInt8) (config : Config) (page : List UInt8)
  {service : Service Loopback σ} {capacity ringSize inboundCap : Nat} {link : Link Loopback}
  {s : List UInt8}

/-- Over any play a plain request is answered with a first part of its head and page; over a quiet
play the loopback is closed once, holding them all, and is closed when all is offered and acked. -/
theorem answers_page_over_play (onSocket : ∀ ws, SocketProgram (service ws))
    (propagates : ∀ ws, PassesErrors (service ws))
    (made : Link.new ({ capacity } : Loopback) config ringSize inboundCap = .ok link) (app : σ)
    (window : config.maxPayload.toNat + headerReserve ≤ capacity)
    {r : Request} (reads : HeadReading.readHead s = some (r, [])) (plain : r.websocketKey = none)
    (moves : List Peer.Move) (bounded : s.length + page.length + moves.length < 2 ^ 29) :
    ∃ head, Response.pageHead page.length = .ok head ∧
      let played := Peer.play s ((⟨{}, { link, app }⟩ : Connection Loopback σ).start
        (run accept config page service)).2 moves
      played.1.world.link.transport.sentBytes <+: head ++ page ∧
      (config.idleTimeoutPolls = none → (∀ mv ∈ moves, mv.Quiet) →
        (played.1.world.link.transport.closed ≠ 0 →
          played.1.world.link.transport.sentBytes = head ++ page ∧
            played.1.world.link.transport.closed = 1 ∧ played.1.world.link.transport.unacked = 0) ∧
        (played.2 = s.length → played.1.world.link.transport.unacked = 0 →
          played.1.world.link.transport.closed = 1)) := by
  obtain ⟨writing, wired, -, empty⟩ := Link.new_writing made window
  obtain ⟨head, made'⟩ := Response.pageHead_ok (show page.length < 2 ^ 32 by omega)
  refine ⟨head, made', ?_⟩
  intro played
  -- one guided session serves every play and every quiet one, four resumptions a move
  have guided := run_page_guided (n := 4 * moves.length) accept config page service plain reads
    (by simp only [Routine.loopBudget]; omega) made'
    (w := LockWorld.setLockState { link, app } { phase := .running }) writing wired empty
    (Link.new_unreported made) writing.writable.payload
    (by simp only [Response.maxHeadLen, Routine.loopBudget]; omega)
  refine ⟨(run_played accept config page onSocket propagates made app page_discipline
    (sentOnly_sent (· <+: head ++ page)) (fun _ _ _ => id) moves guided).1.safe,
    fun untimed quiet => ?_⟩
  obtain ⟨serving, calm⟩ := run_played_quiet accept config page onSocket propagates made app
    page_quiet_discipline moves quiet untimed guided
  exact ⟨serving.safe.of_closed, fun all acked =>
    (served_closes page_quiet_discipline serving calm all acked).2⟩

/-- Over any play the loopback's bytes are a first part of the `101` head or begin with it; over a
quiet play they begin with it once all is offered and acked. -/
theorem answers_upgrade_over_play (onSocket : ∀ ws, SocketProgram (service ws))
    (propagates : ∀ ws, PassesErrors (service ws))
    (made : Link.new ({ capacity } : Loopback) config ringSize inboundCap = .ok link) (app : σ)
    (window : config.maxPayload.toNat + headerReserve ≤ capacity)
    {r : Request} (reads : HeadReading.readHead s = some (r, [])) {key head : List UInt8}
    (keyed : r.websocketKey = some key)
    (built : Response.switchingProtocols (accept key) config.protocol = .ok head)
    (moves : List Peer.Move) (bounded : s.length + moves.length < 2 ^ 29) :
    let played := Peer.play s ((⟨{}, { link, app }⟩ : Connection Loopback σ).start
      (run accept config page service)).2 moves
    (played.1.world.link.transport.sentBytes <+: head ∨ head <+: played.1.world.link.transport.sentBytes) ∧
      (config.idleTimeoutPolls = none → (∀ mv ∈ moves, mv.Quiet) → played.2 = s.length →
        played.1.world.link.transport.unacked = 0 → head <+: played.1.world.link.transport.sentBytes) := by
  intro played
  obtain ⟨writing, wired, -, empty⟩ := Link.new_writing made window
  have guided := run_upgrade_guided (n := 4 * moves.length) accept config page onSocket keyed reads
    (by simp only [Routine.loopBudget]; omega) built
    (w := LockWorld.setLockState { link, app } { phase := .running }) writing wired empty
    (Link.new_unreported made) writing.writable.payload
    (by simp only [Response.maxHeadLen, Routine.loopBudget]; omega)
  refine ⟨(run_played accept config page onSocket propagates made app upgrade_discipline
    (sentOnly_headFirst head) (sentOnly_sent (head <+: ·)) moves guided).1.safe,
    fun untimed quiet all acked => ?_⟩
  obtain ⟨serving, calm⟩ := run_played_quiet accept config page onSocket propagates made app
    upgrade_quiet_discipline moves quiet untimed guided
  rcases served_settles upgrade_quiet_discipline serving calm all acked with ⟨-, released⟩ | handed
  · exact serving.safe.2 released
  · exact handed

end Runs

/-- The session answers each request head with the page, or with the `101` head first, fed in
chunks or over any play of the peer. -/
theorem answers_request_head {σ : Type} (accept : List UInt8 → List UInt8) (config : Config)
    (page : List UInt8) {service : Service Loopback σ} (onSocket : ∀ ws, Io.SocketProgram (service ws))
    {capacity ringSize inboundCap : Nat} {link : Link Loopback}
    (made : Link.new ({ capacity } : Loopback) config ringSize inboundCap = .ok link)
    (window : config.maxPayload.toNat + headerReserve ≤ capacity) (app : σ)
    {s : List UInt8} {r : Request} (reads : HeadReading.readHead s = some (r, []))
    (bounded : s.length < 2 ^ 29) (cs : List (List UInt8)) (chunks : ∀ c ∈ cs, c ≠ [])
    (whole : cs.flatten = s) (fits : 3 * page.length + 1 ≤ Routine.loopBudget) :
    (((run accept config page service { link, app }).feed cs).2 = [] ∧
    ((r.upgrade = false ∨ r.key = none) → ∃ head, Response.pageHead page.length = .ok head ∧
      ((run accept config page service { link, app }).feed cs).1.Ends (.ok ()) Conn.AckedAll
        (fun w => w.link.transport.sentBytes <+: head ++ page ∧ w.link.transport.closed = 0)
        (fun _ => False)
        (fun _ w => w.link.transport.sentBytes = head ++ page ∧ w.link.transport.closed = 1 ∧
          w.link.transport.unacked = 0)) ∧
    (∀ key head, r.upgrade = true → r.key = some key →
      Response.switchingProtocols (accept key) config.protocol = .ok head →
      ((run accept config page service { link, app }).feed cs).1.Ends (.ok ()) Conn.AckedAll
        (fun w => w.link.transport.sentBytes <+: head ∨ head <+: w.link.transport.sentBytes)
        (fun w => head <+: w.link.transport.sentBytes)
        (fun _ w => head <+: w.link.transport.sentBytes))) ∧
    ((∀ ws, Io.PassesErrors (service ws)) → ∀ moves : List Peer.Move,
      s.length + page.length + moves.length < 2 ^ 29 →
      let played := Peer.play s ((⟨{}, { link, app }⟩ : Connection Loopback σ).start
        (run accept config page service)).2 moves
      ((r.upgrade = false ∨ r.key = none) → ∃ head, Response.pageHead page.length = .ok head ∧
        played.1.world.link.transport.sentBytes <+: head ++ page ∧
        (config.idleTimeoutPolls = none → (∀ mv ∈ moves, mv.Quiet) →
          (played.1.world.link.transport.closed ≠ 0 →
            played.1.world.link.transport.sentBytes = head ++ page ∧
              played.1.world.link.transport.closed = 1 ∧ played.1.world.link.transport.unacked = 0) ∧
          (played.2 = s.length → played.1.world.link.transport.unacked = 0 →
            played.1.world.link.transport.closed = 1))) ∧
      (∀ key head, r.upgrade = true → r.key = some key →
        Response.switchingProtocols (accept key) config.protocol = .ok head →
        (played.1.world.link.transport.sentBytes <+: head ∨
          head <+: played.1.world.link.transport.sentBytes) ∧
        (config.idleTimeoutPolls = none → (∀ mv ∈ moves, mv.Quiet) → played.2 = s.length →
          played.1.world.link.transport.unacked = 0 → head <+: played.1.world.link.transport.sentBytes))) := by
  refine ⟨answers_head_when_fed accept config page onSocket made window app reads bounded cs chunks
    whole fits, fun propagates moves bounded' => ⟨fun plain => ?_, fun key head upgrade keyed built => ?_⟩⟩
  · exact answers_page_over_play accept config page onSocket propagates made app window reads
      (websocketKey_eq_none_iff.mpr plain) moves bounded'
  · exact answers_upgrade_over_play accept config page onSocket propagates made app window reads
      (websocketKey_eq_some_iff.mpr ⟨upgrade, keyed⟩) built moves (by omega)

/-- A plain `GET` head on a ring of 64 bytes and a loopback window of 2048 gets a two-byte page. -/
theorem plain_get_gets_page :
    let link : Link Loopback :=
      { transport := { capacity := 2048 }, inboundCap := 64,
        ring := FrameRing.new 64 (1024 : UInt16).toNat (512 : UInt16).toNat }
    let get : List UInt8 := [71, 69, 84, 32, 47, 32, 72, 84, 84, 80, 47, 49, 46, 49, 13, 10, 13, 10]
    let cs : List (List UInt8) := [get.take 5, get.drop 5]
    let page : List UInt8 := [104, 105]
    (∀ ws, Io.SocketProgram (Service.echo (τ := Loopback) (σ := Unit) ws)) ∧
    (∀ ws, Io.PassesErrors (Service.echo (τ := Loopback) (σ := Unit) ws)) ∧
    Link.new ({ capacity := 2048 } : Loopback) {} 64 64 = .ok link ∧
    ({} : Config).maxPayload.toNat + headerReserve ≤ 2048 ∧
    HeadReading.readHead get = some ({}, []) ∧ get.length < 2 ^ 29 ∧ (∀ c ∈ cs, c ≠ []) ∧
    cs.flatten = get ∧ 3 * page.length + 1 ≤ Routine.loopBudget ∧
    ((run Response.acceptKey {} page Service.echo { link, app := () }).feed cs).2 = [] ∧
    ((({} : Request).upgrade = false ∨ ({} : Request).key = none) →
      ∃ head, Response.pageHead page.length = .ok head ∧
        ((run Response.acceptKey {} page Service.echo { link, app := () }).feed cs).1.Ends (.ok ()) Conn.AckedAll
          (fun w => w.link.transport.sentBytes <+: head ++ page ∧ w.link.transport.closed = 0)
          (fun _ => False)
          (fun _ w => w.link.transport.sentBytes = head ++ page ∧ w.link.transport.closed = 1 ∧
            w.link.transport.unacked = 0)) ∧
    (∀ key head, ({} : Request).upgrade = true → ({} : Request).key = some key →
      Response.switchingProtocols (Response.acceptKey key) ({} : Config).protocol = .ok head →
      ((run Response.acceptKey {} page Service.echo { link, app := () }).feed cs).1.Ends (.ok ()) Conn.AckedAll
        (fun w => w.link.transport.sentBytes <+: head ∨ head <+: w.link.transport.sentBytes)
        (fun w => head <+: w.link.transport.sentBytes)
        (fun _ w => head <+: w.link.transport.sentBytes)) ∧
    ∀ moves : List Peer.Move, get.length + page.length + moves.length < 2 ^ 29 →
      let played := Peer.play get ((⟨{}, { link, app := () }⟩ : Connection Loopback Unit).start
        (run Response.acceptKey {} page Service.echo)).2 moves
      ((({} : Request).upgrade = false ∨ ({} : Request).key = none) →
        ∃ head, Response.pageHead page.length = .ok head ∧
          played.1.world.link.transport.sentBytes <+: head ++ page ∧
          (({} : Config).idleTimeoutPolls = none → (∀ mv ∈ moves, mv.Quiet) →
            (played.1.world.link.transport.closed ≠ 0 →
              played.1.world.link.transport.sentBytes = head ++ page ∧
                played.1.world.link.transport.closed = 1 ∧ played.1.world.link.transport.unacked = 0) ∧
            (played.2 = get.length → played.1.world.link.transport.unacked = 0 →
              played.1.world.link.transport.closed = 1))) ∧
      (∀ key head, ({} : Request).upgrade = true → ({} : Request).key = some key →
        Response.switchingProtocols (Response.acceptKey key) ({} : Config).protocol = .ok head →
        (played.1.world.link.transport.sentBytes <+: head ∨
          head <+: played.1.world.link.transport.sentBytes) ∧
        (({} : Config).idleTimeoutPolls = none → (∀ mv ∈ moves, mv.Quiet) → played.2 = get.length →
          played.1.world.link.transport.unacked = 0 → head <+: played.1.world.link.transport.sentBytes)) := by
  intro link get cs page
  have made : Link.new ({ capacity := 2048 } : Loopback) {} 64 64 = .ok link := rfl
  have window : ({} : Config).maxPayload.toNat + headerReserve ≤ 2048 := by decide
  have reads : HeadReading.readHead get = some ({}, []) := by decide +kernel
  have chunks : ∀ c ∈ cs, c ≠ [] := by decide
  have fits : 3 * page.length + 1 ≤ Routine.loopBudget := by decide
  have propagates : ∀ ws, Io.PassesErrors (Service.echo (τ := Loopback) (σ := Unit) ws) :=
    fun ws => (Connection.echo_plain ws).passesErrors
  obtain ⟨⟨taken, plain, upgrade⟩, played⟩ := answers_request_head Response.acceptKey {} page
    Connection.echo_socketProgram made window () reads (by decide) cs chunks rfl fits
  exact ⟨Connection.echo_socketProgram, propagates, made, window, reads, by decide, chunks, rfl, fits,
    taken, plain, upgrade, played propagates⟩

end Session

end WebSocketCore
