import Mathlib
import WebSocketCore.Proofs.Session.AnswerPlay

/-! # A service's write finishes whatever the peer plays

A session answers an upgrade request with a key by pushing its `101` head, then hands the socket
to a service that writes `bytes` (`WebSocket.write`, a `FrameWriter.write` in the socket's
framing); the session flushes and closes. A peer streams the request head and plays moves in any
order (`Peer.play`): it offers the head's bytes in pieces of any size, acknowledges any number of
sent bytes, lets poll ticks pass, closes or fails.

Whatever the peer plays, the loopback has received a first part of the head followed by complete
frames of the configured framing carrying a first part of `bytes` (`Sends`), and a live session
that does not wait for bytes of the head waits on a reason its link awaits: bytes in flight to be
acknowledged, or send room for a pending region. In a quiet play on a link that never times out,
the loopback is closed only once it holds the head and frames carrying all of `bytes`
(`SendsAll`), with nothing unacknowledged; and once the peer has offered the whole head and
acknowledged everything, the write has finished and the loopback is closed.
-/

namespace WebSocketCore

variable {σ : Type}

namespace Session

/-! ## What the loopback receives -/

section Sends

variable (limit : Nat) (framing : Framing) (head bytes : List UInt8)

/-- The loopback's bytes begin a written message: a first part of the raw `head` followed by
complete frames of the framing, each with between one byte and `limit` of payload, whose payloads
are a first part of `bytes`. -/
def Sends (sent : List UInt8) : Prop :=
  ∃ regions : List Region,
    (∀ x ∈ regions, x.framing = framing ∧ 1 ≤ x.payload.length ∧ x.payload.length ≤ limit) ∧
    regions.flatMap Region.payload <+: bytes ∧ sent <+: head ++ regions.flatMap Region.wire

/-- The loopback's bytes are a whole written message: the raw `head`, then complete frames of the
framing, each with between one byte and `limit` of payload, whose payloads are all of `bytes`. -/
def SendsAll (sent : List UInt8) : Prop :=
  ∃ regions : List Region, sent = head ++ regions.flatMap Region.wire ∧
    (∀ x ∈ regions, x.framing = framing ∧ 1 ≤ x.payload.length ∧ x.payload.length ≤ limit) ∧
    regions.flatMap Region.payload = bytes

/-- How the writing session ends: the loopback holds the whole message with nothing
unacknowledged and was closed once, and the link let it go. -/
def WriteEnd (_ : Unit) (_ : Nat) (v : Conn Loopback σ) : Prop :=
  SendsAll limit framing head bytes v.link.transport.sentBytes ∧ v.link.transport.closed = 1 ∧
    v.link.transport.unacked = 0 ∧ v.link.attached = false

variable {limit framing head bytes}

theorem SendsAll.sends {sent : List UInt8} (all : SendsAll limit framing head bytes sent) :
    Sends limit framing head bytes sent := by
  obtain ⟨regions, rfl, framed, payloads⟩ := all
  exact ⟨regions, framed, payloads ▸ List.prefix_rfl, List.prefix_rfl⟩

variable {l : Link Loopback}

/-- A link whose run accepted a first part of the raw `head` has handed its loopback a first part
of it. -/
theorem sends_of_head {part : List UInt8} (writing : l.Writing limit (part.map (Framing.raw, ·)))
    (within : part <+: head) : Sends limit framing head bytes l.transport.sentBytes :=
  ⟨[], by simp, List.nil_prefix, by simpa using writing.sentBytes_raw.1.trans within⟩

/-- A link whose run accepted the raw `head`, then a first part of `bytes` in a framing other
than `raw`, has handed its loopback the beginning of the message. -/
theorem sends_of_writing (notRaw : framing ≠ .raw) {got : List UInt8}
    (writing : l.Writing limit (head.map (Framing.raw, ·) ++ got.map (framing, ·)))
    (within : got <+: bytes) : Sends limit framing head bytes l.transport.sentBytes := by
  obtain ⟨regions, framed, inGot, sent⟩ := writing.sent_prefix notRaw
  exact ⟨regions, framed, inGot.trans within, sent⟩

/-- A link whose run accepted the raw `head`, then `bytes` in a framing other than `raw`, whose
loopback received the head whole and whose ring holds nothing open or pending, has handed its
loopback the whole message. -/
theorem sendsAll_of_writing (notRaw : framing ≠ .raw)
    (writing : l.Writing limit (head.map (Framing.raw, ·) ++ bytes.map (framing, ·)))
    (leads : head <+: l.transport.sentBytes) (closed : l.ring.openRegion = none)
    (idle : l.ring.pending = none) : SendsAll limit framing head bytes l.transport.sentBytes := by
  obtain ⟨regions, sent, framed, -, all⟩ := writing.sent_after_head notRaw leads
  exact ⟨regions, sent, framed, all closed idle⟩

end Sends

/-! ## Where the writing session waits -/

namespace AnswerWait

variable {limit : Nat} {framing : Framing} {head bytes s : List UInt8} {y : WaitReason}
  {u : Conn Loopback σ}

/-- A wait of the write of the head. -/
theorem of_headWrite (waits : FrameWriter.WriteWait limit .raw [] head [] 0 y u) :
    AnswerWait limit (Sends limit framing head bytes) s y u := by
  obtain ⟨awaits, wired, part, written, writing⟩ := waits
  rw [List.nil_append] at writing
  exact ⟨wired, sends_of_head writing written, ⟨_, writing⟩, .inr awaits⟩

/-- A wait of the push of the head. -/
theorem of_headPush (waits : FrameWriter.PushWait limit (head.map (Framing.raw, ·)) [] 0 y u) :
    AnswerWait limit (Sends limit framing head bytes) s y u :=
  ⟨waits.2.1, sends_of_head waits.2.2 List.prefix_rfl, ⟨_, waits.2.2⟩, .inr waits.1⟩

/-- A wait of the service's write, after the head went out whole. -/
theorem of_write (notRaw : framing ≠ .raw)
    (waits : FrameWriter.WriteWait limit framing (head.map (Framing.raw, ·)) bytes head 0 y u) :
    AnswerWait limit (Sends limit framing head bytes) s y u := by
  obtain ⟨awaits, wired, part, written, writing⟩ := waits
  exact ⟨⟨wired.attached, List.nil_prefix, wired.closed⟩, sends_of_writing notRaw writing written,
    ⟨_, writing⟩, .inr awaits⟩

/-- A wait of the flush after the service's write. -/
theorem of_flush (notRaw : framing ≠ .raw)
    (waits : FrameWriter.PushWait limit (head.map (Framing.raw, ·) ++ bytes.map (framing, ·)) head 0 y u) :
    AnswerWait limit (Sends limit framing head bytes) s y u :=
  ⟨⟨waits.2.1.attached, List.nil_prefix, waits.2.1.closed⟩,
    sends_of_writing notRaw waits.2.2 List.prefix_rfl, ⟨_, waits.2.2⟩, .inr waits.1⟩

end AnswerWait

/-! ## The writing session served by the peer -/

open Io Connection

section Guided

variable {s : List UInt8}

/-- The answer to an upgrade request whose `101` head fits, with a service writing `bytes`, from a
link a writer goes on with whose run accepted nothing, served by the peer over `n` resumptions:
the head is written raw and pushed, the service writes, and the session flushes. It waits only
where the loopback's bytes begin the message, and ends with the loopback holding all of it,
acknowledged. -/
theorem answer_write_guards (accept : List UInt8 → List UInt8) (config : Config) (page : List UInt8)
    {r : Request} {key : List UInt8} (keyed : r.websocketKey = some key) {head : List UInt8}
    (built : Response.switchingProtocols (accept key) config.protocol = .ok head) (bytes : List UInt8)
    {u : Conn Loopback σ} {n : Nat} (writing : u.link.Writing config.maxPayload.toNat [])
    (wired : u.link.Wired [] 0) (within : u.Within s)
    (fits : n + 2 * Response.maxHeadLen + 2 * bytes.length + 1 < Routine.loopBudget) :
    ((answer accept config page (fun ws => ws.write bytes) r).run u).Guards (.ok ()) (Conn.Serves s)
      (AnswerWait config.maxPayload.toNat (Sends config.maxPayload.toNat config.framing head bytes) s)
      (fun res _ v => res = .ok () ∧
        SendsAll config.maxPayload.toNat config.framing head bytes v.link.transport.sentBytes ∧
        v.link.transport.unacked = 0 ∧ v.link.Wired head 0) n := by
  have payload := writing.writable.payload
  have headLen := (Response.fitHead_ok built).2
  have notRaw := Config.framing_ne_raw config
  rw [answer, keyed]
  dsimp only
  rw [built, run_bind_apply, run_ofExcept, Progress.done_bind]
  dsimp only
  -- the head is written whole, then pushed
  refine guards_bind ((FrameWriter.write_guards s .raw payload head writing wired within
    (by omega)).fewer.mono (fun _ _ waits => AnswerWait.of_headWrite waits) fun _ _ _ post => post)
    (fun _ m u₂ wrote => ?_) fun _ _ _ wrote => by cases wrote.1.1
  obtain ⟨⟨-, writing₂, wired₂, unread₂⟩, spent₂⟩ := wrote
  rw [List.nil_append] at writing₂
  refine guards_bind ((FrameWriter.push_guards s writing₂ wired₂ unread₂.2 (by omega)).fewer.mono
    (fun _ _ waits => AnswerWait.of_headPush waits) fun _ _ _ post => post)
    (fun _ m' u₃ pushed => ?_) fun _ _ _ pushed => by cases pushed.1.1
  obtain ⟨⟨-, writing₃, closed, idle, wired₃, unread₃⟩, spent₃⟩ := pushed
  -- nothing open or pending: the loopback holds the head whole, and the service writes after it
  have sent : u₃.link.transport.sentBytes = head := (Link.Writing.sentBytes_raw writing₃).2 closed idle
  have wired₃' : u₃.link.Wired head 0 := ⟨wired₃.attached, sent ▸ List.prefix_rfl, wired₃.closed⟩
  refine guards_bind ((FrameWriter.write_guards s config.framing payload bytes writing₃ wired₃'
    unread₃.2 (by omega)).fewer.mono (fun _ _ waits => AnswerWait.of_write notRaw waits)
      fun _ _ _ post => post) (fun _ m'' u₄ wrote => ?_) fun _ _ _ wrote => by cases wrote.1.1
  obtain ⟨⟨-, writing₄, wired₄, unread₄⟩, spent₄⟩ := wrote
  -- the flush drains the ring: every written byte went out in frames, all acknowledged
  refine (FrameWriter.flush_guards s writing₄ wired₄ unread₄.2 (by omega)).mono
    (fun _ _ waits => AnswerWait.of_flush notRaw waits) fun _ _ v flushed => ?_
  obtain ⟨ok, writing₅, ⟨drained, unacked⟩, wired₅, -⟩ := flushed
  obtain ⟨closed₅, idle₅, -⟩ := (FrameRing.isDrained_iff _).mp drained
  exact ⟨ok, sendsAll_of_writing notRaw writing₅ wired₅.leads closed₅ idle₅, unacked, wired₅⟩

/-- A session answering an upgrade request whose `101` head fits, with a service writing `bytes`,
from a fresh world, served by a peer streaming the head: it waits only where the loopback's bytes
begin the message, and ends as `WriteEnd` says, never handing over. -/
theorem run_write_guided (accept : List UInt8 → List UInt8) (config : Config) (page : List UInt8)
    {r : Request} {key : List UInt8} (keyed : r.websocketKey = some key)
    (reads : HeadReading.readHead s = some (r, [])) (bounded : 4 * s.length + 2 < Routine.loopBudget)
    {head : List UInt8} (built : Response.switchingProtocols (accept key) config.protocol = .ok head)
    (bytes : List UInt8) {w : Conn Loopback σ} (writing : w.link.Writing config.maxPayload.toNat [])
    (wired : w.link.Wired [] 0) (empty : w.link.inbound = []) (fresh : w.consumedCount = 0) {n : Nat}
    (fits : n + 2 * Response.maxHeadLen + 2 * bytes.length + 1 < Routine.loopBudget) :
    Guided s (AnswerWait config.maxPayload.toNat (Sends config.maxPayload.toNat config.framing head bytes) s)
      (WriteEnd config.maxPayload.toNat config.framing head bytes) (fun _ => False) n
      (run accept config page (fun ws => ws.write bytes) w) := by
  refine run_guided accept config page _ (Sends config.maxPayload.toNat config.framing head bytes)
    ⟨[], by simp, List.nil_prefix, List.nil_prefix⟩ reads bounded writing wired empty fresh
    fun m fewer u writing' wired' within => .of_guards ?_
  refine (answer_write_guards accept config page keyed built bytes writing' wired' within
    (by omega)).bind fun _ _ v answered => .done ?_
  -- the close comes after everything was acknowledged
  obtain ⟨-, all, unacked, wired''⟩ := answered
  exact Link.close_settles (P := SendsAll config.maxPayload.toNat config.framing head bytes) wired''
    all unacked

end Guided

/-! ## The write over any play -/

section Play

variable {limit : Nat} {framing : Framing} {head bytes s : List UInt8}

/-- The writing session's guarantee is one the connection carries over any play. -/
theorem write_discipline : Discipline (σ := σ) (AnswerWait limit (Sends limit framing head bytes) s)
    (WriteEnd limit framing head bytes) (fun l => Sends limit framing head bytes l.transport.sentBytes)
    fun _ => False :=
  sent_discipline fun _ _ _ ended => ended.1.sends

/-- The writing session's guarantee is one the connection carries over a quiet play. -/
theorem write_quiet_discipline : Discipline (σ := σ) (AnswerWait limit (Sends limit framing head bytes) s)
    (WriteEnd limit framing head bytes)
    (ClosedAfter (Sends limit framing head bytes) (SendsAll limit framing head bytes)) fun _ => False :=
  closedAfter_discipline (fun _ _ _ ended => ended) fun _ all => all.sends

end Play

/-- Over any play a service's write goes out as frames after the `101` head, waiting only on what
its link awaits; over a quiet play it finishes once all is offered and acked. -/
theorem writes_over_play (accept : List UInt8 → List UInt8) (config : Config) (page bytes : List UInt8)
    {capacity ringSize inboundCap : Nat} {link : Link Loopback}
    (made : Link.new ({ capacity } : Loopback) config ringSize inboundCap = .ok link)
    (window : config.maxPayload.toNat + headerReserve ≤ capacity) (app : σ)
    {s : List UInt8} {r : Request} (reads : HeadReading.readHead s = some (r, []))
    {key head : List UInt8} (keyed : r.websocketKey = some key)
    (built : Response.switchingProtocols (accept key) config.protocol = .ok head)
    (moves : List Peer.Move) (bounded : s.length + bytes.length + moves.length < 2 ^ 29) :
    let played := Peer.play s ((⟨{}, { link, app }⟩ : Connection Loopback σ).start
      (run accept config page fun ws => ws.write bytes)).2 moves
    Sends config.maxPayload.toNat config.framing head bytes played.1.world.link.transport.sentBytes ∧
      (played.1.isFinished = false → played.1.waiting ≠ .recv →
        played.1.world.link.Awaits played.1.waiting) ∧
      (config.idleTimeoutPolls = none → (∀ mv ∈ moves, mv.Quiet) →
        (played.1.world.link.transport.closed ≠ 0 →
          SendsAll config.maxPayload.toNat config.framing head bytes
            played.1.world.link.transport.sentBytes ∧
          played.1.world.link.transport.closed = 1 ∧ played.1.world.link.transport.unacked = 0) ∧
        (played.2 = s.length → played.1.world.link.transport.unacked = 0 →
          SendsAll config.maxPayload.toNat config.framing head bytes
            played.1.world.link.transport.sentBytes ∧
          played.1.world.link.transport.closed = 1)) := by
  intro played
  obtain ⟨writing, wired, -, empty⟩ := Link.new_writing made window
  have onSocket : ∀ ws : WebSocket, SocketProgram (WebSocket.write (τ := Loopback) (σ := σ) ws bytes) :=
    fun ws => .write ws bytes
  have propagates : ∀ ws : WebSocket, PassesErrors (WebSocket.write (τ := Loopback) (σ := σ) ws bytes) :=
    fun ws => (FrameWriter.write_plain ws.framing bytes).passesErrors
  -- one guided session serves every play and every quiet one, four resumptions a move
  have guided := run_write_guided (n := 4 * moves.length) accept config page keyed reads
    (by simp only [Routine.loopBudget]; omega) built bytes
    (w := LockWorld.setLockState { link, app } { phase := .running }) writing wired empty
    (Link.new_unreported made) (by simp only [Response.maxHeadLen, Routine.loopBudget]; omega)
  obtain ⟨serving, calm⟩ := run_played accept config page onSocket propagates made app
    write_discipline (sentOnly_sent (Sends config.maxPayload.toNat config.framing head bytes))
    (fun _ _ _ => id) moves guided
  refine ⟨serving.safe, fun live other => ?_, fun untimed quiet => ?_⟩
  · rcases served_awaits serving calm live other with awaits | never
    · exact awaits
    · exact never.elim
  obtain ⟨served, calm'⟩ := run_played_quiet accept config page onSocket propagates made app
    write_quiet_discipline moves quiet untimed guided
  exact ⟨served.safe.of_closed, served_closes write_quiet_discipline served calm'⟩

end Session

namespace FrameWriter

/-- The ring never blocks without a way out, so a write finishes: with acked waits, and in a session
over any play of the peer. -/
theorem ring_always_has_way_out {τ : Type} [Transport τ] :
    (∀ (r : FrameRing) (t : τ) (framing : Framing) (bytes : List UInt8),
      r.Reachable → minRegion ≤ r.size → 1 ≤ r.maxPayload → bytes ≠ [] →
        (∃ n, (r.append t framing bytes).result = .ok (.took n) ∧ 1 ≤ n ∧ n ≤ bytes.length) ∨
        ((r.append t framing bytes).result = .ok (.blocked .sendBuf) ∧
          (r.append t framing bytes).ring.Owes (r.append t framing bytes).transport .sendBuf) ∨
        ((r.append t framing bytes).result = .ok (.blocked .ack) ∧
          0 < (r.append t framing bytes).ring.inFlight) ∨
        (r.append t framing bytes).Refused) ∧
    (∀ (r : FrameRing) (t : τ) (y : WaitReason), (r.finish t).result = .ok (some y) →
      y = .sendBuf ∧ (r.finish t).ring.Owes (r.finish t).transport .sendBuf) ∧
    (∀ (framing : Framing) (limit : Nat) (w : Conn Loopback σ) (bytes : List UInt8),
      w.link.Writable limit → 3 * bytes.length + 1 ≤ Routine.loopBudget →
        ((write framing bytes).run w).Reaches (.ok ()) Conn.AckedAll (.ok ())) ∧
    (∀ (accept : List UInt8 → List UInt8) (config : Config) (page bytes : List UInt8)
      (capacity ringSize inboundCap : Nat) (link : Link Loopback),
      Link.new ({ capacity } : Loopback) config ringSize inboundCap = .ok link →
      config.maxPayload.toNat + headerReserve ≤ capacity → ∀ (app : σ) (s : List UInt8) (r : Request),
      HeadReading.readHead s = some (r, []) → ∀ key head : List UInt8, r.upgrade = true →
      r.key = some key → Response.switchingProtocols (accept key) config.protocol = .ok head →
      ∀ moves : List Peer.Move, s.length + bytes.length + moves.length < 2 ^ 29 →
      let played := Peer.play s ((⟨{}, { link, app }⟩ : Connection Loopback σ).start
        (Session.run accept config page fun ws => ws.write bytes)).2 moves
      Session.Sends config.maxPayload.toNat config.framing head bytes
          played.1.world.link.transport.sentBytes ∧
        (played.1.isFinished = false → played.1.waiting ≠ .recv →
          played.1.world.link.Awaits played.1.waiting) ∧
        (config.idleTimeoutPolls = none → (∀ mv ∈ moves, mv.Quiet) →
          (played.1.world.link.transport.closed ≠ 0 →
            Session.SendsAll config.maxPayload.toNat config.framing head bytes
              played.1.world.link.transport.sentBytes ∧
            played.1.world.link.transport.closed = 1 ∧ played.1.world.link.transport.unacked = 0) ∧
          (played.2 = s.length → played.1.world.link.transport.unacked = 0 →
            Session.SendsAll config.maxPayload.toNat config.framing head bytes
              played.1.world.link.transport.sentBytes ∧
            played.1.world.link.transport.closed = 1))) := by
  obtain ⟨appends, finishes, writes⟩ := ring_has_way_out_when_acked (τ := τ) (σ := σ)
  refine ⟨appends, finishes, writes, fun accept config page bytes _ _ _ _ made window app s r reads
    key head upgrade keyed built moves bounded => ?_⟩
  exact Session.writes_over_play accept config page bytes made window app reads
    (Session.websocketKey_eq_some_iff.mpr ⟨upgrade, keyed⟩) built moves bounded

/-- Three text bytes find a way out, on a new ring and written by a service after an upgrade. -/
theorem text_write_has_way_out :
    ((FrameRing.new 16 8 1).Reachable ∧ minRegion ≤ (FrameRing.new 16 8 1).size ∧
      1 ≤ (FrameRing.new 16 8 1).maxPayload ∧ ([7, 8, 9] : List UInt8) ≠ [] ∧
      ((∃ n, ((FrameRing.new 16 8 1).append ({ capacity := 64 } : Loopback) (.frame .text)
            [7, 8, 9]).result = .ok (.took n) ∧ 1 ≤ n ∧ n ≤ ([7, 8, 9] : List UInt8).length) ∨
        (((FrameRing.new 16 8 1).append ({ capacity := 64 } : Loopback) (.frame .text)
            [7, 8, 9]).result = .ok (.blocked .sendBuf) ∧
          ((FrameRing.new 16 8 1).append ({ capacity := 64 } : Loopback) (.frame .text)
            [7, 8, 9]).ring.Owes ((FrameRing.new 16 8 1).append ({ capacity := 64 } : Loopback)
            (.frame .text) [7, 8, 9]).transport .sendBuf) ∨
        (((FrameRing.new 16 8 1).append ({ capacity := 64 } : Loopback) (.frame .text)
            [7, 8, 9]).result = .ok (.blocked .ack) ∧
          0 < ((FrameRing.new 16 8 1).append ({ capacity := 64 } : Loopback) (.frame .text)
            [7, 8, 9]).ring.inFlight) ∨
        ((FrameRing.new 16 8 1).append ({ capacity := 64 } : Loopback) (.frame .text)
            [7, 8, 9]).Refused) ∧
      ({ transport := { capacity := 64 }, inboundCap := 1, ring := FrameRing.new 16 8 1 } :
          Link Loopback).Writable 8 ∧
      3 * ([7, 8, 9] : List UInt8).length + 1 ≤ Routine.loopBudget ∧
      ((write (.frame .text) [7, 8, 9]).run
          ({ link := { transport := { capacity := 64 }, inboundCap := 1,
                       ring := FrameRing.new 16 8 1 },
             app := () } : Conn Loopback Unit)).Reaches (.ok ()) Conn.AckedAll (.ok ())) ∧
    let link : Link Loopback :=
      { transport := { capacity := 2048 }, inboundCap := 64,
        ring := FrameRing.new 64 (1024 : UInt16).toNat (512 : UInt16).toNat }
    let get := Handshake.ascii
      "GET / HTTP/1.1\r\nUpgrade: websocket\r\nSec-WebSocket-Key: dGhlIHNhbXBsZSBub25jZQ==\r\n\r\n"
    let key := Handshake.ascii "dGhlIHNhbXBsZSBub25jZQ=="
    Link.new ({ capacity := 2048 } : Loopback) {} 64 64 = .ok link ∧
    ({} : Config).maxPayload.toNat + headerReserve ≤ 2048 ∧
    HeadReading.readHead get = some ({ upgrade := true, key := some key }, []) ∧
    ∃ head, Response.switchingProtocols (Response.acceptKey key) ({} : Config).protocol = .ok head ∧
      ∀ moves : List Peer.Move, get.length + ([7, 8, 9] : List UInt8).length + moves.length < 2 ^ 29 →
        let played := Peer.play get ((⟨{}, { link, app := () }⟩ : Connection Loopback Unit).start
          (Session.run Response.acceptKey {} [] fun ws => ws.write [7, 8, 9])).2 moves
        Session.Sends ({} : Config).maxPayload.toNat ({} : Config).framing head [7, 8, 9]
            played.1.world.link.transport.sentBytes ∧
          (played.1.isFinished = false → played.1.waiting ≠ .recv →
            played.1.world.link.Awaits played.1.waiting) ∧
          (({} : Config).idleTimeoutPolls = none → (∀ mv ∈ moves, mv.Quiet) →
            (played.1.world.link.transport.closed ≠ 0 →
              Session.SendsAll ({} : Config).maxPayload.toNat ({} : Config).framing head [7, 8, 9]
                played.1.world.link.transport.sentBytes ∧
              played.1.world.link.transport.closed = 1 ∧ played.1.world.link.transport.unacked = 0) ∧
            (played.2 = get.length → played.1.world.link.transport.unacked = 0 →
              Session.SendsAll ({} : Config).maxPayload.toNat ({} : Config).framing head [7, 8, 9]
                played.1.world.link.transport.sentBytes ∧
              played.1.world.link.transport.closed = 1)) := by
  have writable :
      ({ transport := { capacity := 64 }, inboundCap := 1, ring := FrameRing.new 16 8 1 } :
        Link Loopback).Writable 8 :=
    ⟨⟨RingRun.start (FrameRing.new 16 8 1),
        ⟨RingRun.start_delivering 16 8 1 (by decide), rfl, rfl, by decide, rfl, rfl, rfl⟩⟩,
      rfl, FrameRing.roomy_of_closed rfl, by decide, by decide⟩
  have fits : 3 * ([7, 8, 9] : List UInt8).length + 1 ≤ Routine.loopBudget := by decide
  obtain ⟨appends, -, writes, served⟩ := ring_always_has_way_out (τ := Loopback) (σ := Unit)
  refine ⟨⟨.new 16 8 1, by decide, by decide, by decide,
    appends _ _ _ _ (.new 16 8 1) (by decide) (by decide) (by decide), writable, fits,
    writes _ _ _ _ writable fits⟩, ?_⟩
  intro link get key
  have made : Link.new ({ capacity := 2048 } : Loopback) {} 64 64 = .ok link := rfl
  have window : ({} : Config).maxPayload.toNat + headerReserve ≤ 2048 := by decide
  have reads : HeadReading.readHead get = some ({ upgrade := true, key := some key }, []) := by
    decide +kernel
  have short : ∀ p, ({} : Config).protocol = some p → p.utf8ByteSize ≤ 101 :=
    fun p announced => by cases announced
  obtain ⟨head, built⟩ := Response.switchingProtocols_ok_of_short (Response.length_acceptKey key) short
  exact ⟨made, window, reads, head, built, fun moves bounded =>
    served Response.acceptKey {} [] [7, 8, 9] 2048 64 64 link made window () get _ reads key head rfl rfl
      built moves bounded⟩

end FrameWriter

end WebSocketCore
