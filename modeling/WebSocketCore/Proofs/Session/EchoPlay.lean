import Mathlib
import WebSocketCore.Proofs.Session.Serving

/-! # The echo session under any play of the peer

A peer streams `input` to a connection that runs a session with the echo service over a loopback:
an upgrade request head, then client frames of any kinds, masks and length forms. It plays moves
in any order: it offers the input's next bytes in pieces of any size, acknowledges any number of
sent bytes, lets poll ticks pass, closes or fails (`Peer.play`). Whatever it plays, the loopback
has received a first part of the `101` head followed by complete frames of the configured opcode
whose payloads are a first part of the frames' data stream (`Echoes`). Once the peer has offered
the whole input and acknowledged every sent byte, with no error recorded, the loopback holds the
head and such frames, carrying all of the stream when the frames have no close frame and end
outside any message (`EchoesAll`).

The session keeps a guarantee against the peer (`Progress.Guards`): it waits only where
`EchoWait` holds, for bytes with the queue empty and the echo finished once the whole input is
consumed, or on a reason its link awaits; and it ends having echoed a first part. The echo loop
runs round after round (`echoRound_guards`), each consuming a byte of the input, which bounds it.
The connection carries the guarantee through the lock and the callbacks (`Connection.Serving`).
-/

namespace WebSocketCore

variable {σ : Type}

namespace Link

variable {l l' : Link Loopback}

theorem Listens.sentBytes (listens : Listens l l') : l'.transport.sentBytes = l.transport.sentBytes := by
  induction listens with
  | refl => rfl
  | tail _ step ih => rw [Loopback.sentBytes, step.frame.2.2.1, ← Loopback.sentBytes, ih]

theorem Listens.writing {limit : Nat} {acc : List (Framing × UInt8)} (listens : Listens l l')
    (writing : l.Writing limit acc) : l'.Writing limit acc :=
  listens.keeps (fun _ _ step holds => step.writing holds) writing

theorem Listens.wired {pre : List UInt8} {closes : Nat} (listens : Listens l l')
    (wired : l.Wired pre closes) : l'.Wired pre closes :=
  listens.keeps (fun _ _ step holds => step.wired holds) wired

/-- What a run accepted, raw bytes `A` and then bytes `B` of another framing, has reached the
loopback as a first part of `A` followed by complete regions of that framing carrying a first
part of `B`. -/
theorem Writing.sent_prefix {limit : Nat} {fr : Framing} (notRaw : fr ≠ .raw) {A B : List UInt8}
    (writing : l.Writing limit (A.map (Framing.raw, ·) ++ B.map (fr, ·))) :
    ∃ regions : List Region,
      (∀ x ∈ regions, x.framing = fr ∧ 1 ≤ x.payload.length ∧ x.payload.length ≤ limit) ∧
      regions.flatMap Region.payload <+: B ∧
      l.transport.sentBytes <+: A ++ regions.flatMap Region.wire := by
  obtain ⟨s, carries, accepted⟩ := writing.accepted
  obtain ⟨sent, held, sentEq, bounds, acceptedEq, -⟩ := carries.sent_regions
  have within : sent.flatMap Region.tagged <+: A.map (Framing.raw, ·) ++ B.map (fr, ·) := by
    rw [← accepted, acceptedEq, List.flatMap_append, List.append_assoc]
    exact List.prefix_append _ _
  obtain ⟨ys, zs, rfl, raws, framed, inA, whole, inB⟩ := Region.split_tagged notRaw sent A B
    (fun x mem => List.ne_nil_of_length_pos (bounds x (List.mem_append_left _ mem)).1) within
  refine ⟨zs, fun z mem => ⟨framed z mem, bounds z (by simp [mem])⟩, inB, ?_⟩
  rw [sentEq, List.flatMap_append, Region.flatMap_wire_of_raw raws]
  -- the raw regions carry a first part of `A`, all of it once a region of the framing follows
  by_cases none : zs = []
  · subst none
    simpa using inA
  · rw [whole none]

end Link

/-! ## What the loopback receives -/

open FrameReader

section Echo

variable (limit : Nat) (framing : Framing) (head : List UInt8) (frames : List WireFrame)

/-- The loopback's bytes begin an echo: a first part of the raw `head` followed by complete frames
of the framing, each with between one byte and `limit` of payload, whose payloads are a first
part of the data stream. -/
def Echoes (bytes : List UInt8) : Prop :=
  ∃ regions : List Region,
    (∀ x ∈ regions, x.framing = framing ∧ 1 ≤ x.payload.length ∧ x.payload.length ≤ limit) ∧
    regions.flatMap Region.payload <+: dataStream none frames ∧
    bytes <+: head ++ regions.flatMap Region.wire

/-- The loopback's bytes are a finished echo: the raw `head`, then complete frames of the framing
whose payloads are a first part of the data stream, all of it when the frames have no close frame
and end outside any message. -/
def EchoesAll (bytes : List UInt8) : Prop :=
  ∃ regions : List Region, bytes = head ++ regions.flatMap Region.wire ∧
    (∀ x ∈ regions, x.framing = framing ∧ 1 ≤ x.payload.length ∧ x.payload.length ≤ limit) ∧
    regions.flatMap Region.payload <+: dataStream none frames ∧
    ((∀ f ∈ frames, f.header.opcode ≠ .close) → messageAfter none frames = none →
      regions.flatMap Region.payload = dataStream none frames)

/-- Where the echo session waits, served by a peer streaming `input`: the loopback's bytes begin an
echo on a link a writer goes on with, and the wait is for bytes with the queue empty, the echo
finished once the whole input is consumed, or on a reason the link awaits. -/
def EchoWait (input : List UInt8) (y : WaitReason) (u : Conn Loopback σ) : Prop :=
  Echoes limit framing head frames u.link.transport.sentBytes ∧ (∃ acc, u.link.Writing limit acc) ∧
    ((y = .recv ∧ u.link.inbound = [] ∧
        (u.consumedCount = input.length → EchoesAll limit framing head frames u.link.transport.sentBytes)) ∨
      u.link.Awaits y)

/-- Where the echo loop stands between rounds, served by a peer streaming `input`: the service
stands in the frames with the rest of the input still to read, no more than the input consumed. -/
def EchoState (input : List UInt8) (ws : WebSocket) (_ : Nat) (u : Conn Loopback σ) : Prop :=
  (∃ got, Echoing limit framing head frames ws got (input.drop u.consumedCount) u.link) ∧
    u.Within input ∧ u.consumedCount ≤ input.length

variable {limit framing head frames}

/-- A link whose run accepted the raw `head`, then a first part of the data stream in a framing
other than `raw`, has handed its loopback the beginning of an echo. -/
theorem Link.Writing.echoes (notRaw : framing ≠ .raw) {l : Link Loopback} {got : List UInt8}
    (writing : l.Writing limit (head.map (Framing.raw, ·) ++ got.map (framing, ·)))
    (within : got <+: dataStream none frames) : Echoes limit framing head frames l.transport.sentBytes := by
  obtain ⟨regions, framed, inGot, sent⟩ := writing.sent_prefix notRaw
  exact ⟨regions, framed, inGot.trans within, sent⟩

/-- A link whose run accepted a first part of the raw `head` has handed its loopback a first part
of it. -/
theorem Link.Writing.echoes_head {l : Link Loopback} {part : List UInt8}
    (writing : l.Writing limit (part.map (Framing.raw, ·))) (within : part <+: head) :
    Echoes limit framing head frames l.transport.sentBytes :=
  ⟨[], by simp, List.nil_prefix, by simpa using writing.sentBytes_raw.1.trans within⟩

theorem Echoing.echoes (notRaw : framing ≠ .raw) {ws : WebSocket} {got unread : List UInt8}
    {l : Link Loopback} (echoing : Echoing limit framing head frames ws got unread l) :
    Echoes limit framing head frames l.transport.sentBytes :=
  echoing.writing.echoes notRaw echoing.reading.got_prefix

namespace EchoWait

variable {input : List UInt8} {y : WaitReason} {u : Conn Loopback σ}

/-- A wait of a read from `w₀`, where the loopback's bytes began an echo: the read moved the link
without sending, so they still do; an echo finished at `w₀` is finished at the wait. -/
theorem of_listening {w₀ : Conn Loopback σ} {R : Nat → Prop} {acc : List (Framing × UInt8)}
    (listening : Io.Listening w₀ R y u) (writing : w₀.link.Writing limit acc)
    (echoes : Echoes limit framing head frames w₀.link.transport.sentBytes)
    (finished : R u.consumedCount → u.consumedCount = input.length →
      EchoesAll limit framing head frames w₀.link.transport.sentBytes) :
    EchoWait limit framing head frames input y u := by
  obtain ⟨rfl, empty, listens, admitted⟩ := listening
  have sent := listens.sentBytes
  refine ⟨by rw [sent]; exact echoes, ⟨acc, listens.writing writing⟩, .inl ⟨rfl, empty, fun all => ?_⟩⟩
  rw [sent]
  exact finished admitted all

/-- A wait of a write, after the head and `got`, of bytes that with `got` begin the data stream. -/
theorem of_write (notRaw : framing ≠ .raw) {got data pre : List UInt8} {closes : Nat}
    (waits : FrameWriter.WriteWait limit framing (head.map (Framing.raw, ·) ++ got.map (framing, ·))
      data pre closes y u)
    (within : got ++ data <+: dataStream none frames) : EchoWait limit framing head frames input y u := by
  obtain ⟨awaits, -, part, written, writing⟩ := waits
  rw [List.append_assoc, ← List.map_append] at writing
  exact ⟨writing.echoes notRaw (((List.prefix_append_right_inj got).mpr written).trans within),
    ⟨_, writing⟩, .inr awaits⟩

/-- A wait of the write of the head. -/
theorem of_headWrite {pre : List UInt8} {closes : Nat}
    (waits : FrameWriter.WriteWait limit .raw [] head pre closes y u) :
    EchoWait limit framing head frames input y u := by
  obtain ⟨awaits, -, part, written, writing⟩ := waits
  rw [List.nil_append] at writing
  exact ⟨writing.echoes_head written, ⟨_, writing⟩, .inr awaits⟩

/-- A wait of a push after the head and `got`, a first part of the data stream. -/
theorem of_push (notRaw : framing ≠ .raw) {got pre : List UInt8} {closes : Nat}
    (waits : FrameWriter.PushWait limit (head.map (Framing.raw, ·) ++ got.map (framing, ·)) pre closes y u)
    (within : got <+: dataStream none frames) : EchoWait limit framing head frames input y u :=
  ⟨waits.2.2.echoes notRaw within, ⟨_, waits.2.2⟩, .inr waits.1⟩

/-- A wait of the push of the head. -/
theorem of_headPush {pre : List UInt8} {closes : Nat}
    (waits : FrameWriter.PushWait limit (head.map (Framing.raw, ·)) pre closes y u) :
    EchoWait limit framing head frames input y u :=
  ⟨waits.2.2.echoes_head List.prefix_rfl, ⟨_, waits.2.2⟩, .inr waits.1⟩

end EchoWait

/-! ## The echo loop served by the peer -/

open Io

variable {input : List UInt8}

/-- The rest of an echo round once the read answered `data` and the socket `ws`: the bytes are
written back, and pushed at a message's end. Served by the peer, it waits only where `EchoWait`
holds, and the loop goes on from `ws` with nothing more consumed. -/
theorem echoTail_guards (notRaw : framing ≠ .raw) (payload : 1 ≤ limit) {ws : WebSocket}
    {got data : List UInt8} {u : Conn Loopback σ} {n : Nat}
    (reading : Reading frames ws.reader (got ++ data) (input.drop u.consumedCount))
    (framed : ws.framing = framing)
    (writing : u.link.Writing limit (head.map (Framing.raw, ·) ++ got.map (framing, ·)))
    (wired : u.link.Wired head 0) (within : u.Within input) (bounded : u.consumedCount ≤ input.length)
    (ends : ws.reader.remaining = 0 → ws.reader.message = none → ws.reader.fin = true)
    (short : data.length ≤ echoChunk) (fits : n + 2 * echoChunk + 1 < Routine.loopBudget) :
    ((ws.write data >>= fun _ => (if ws.isMessageEnd then ws.push else pure ()) >>= fun _ =>
        (pure (.inl ws) : Io Loopback σ (WebSocket ⊕ Unit))).run u).Guards (.ok ()) (Conn.Serves input)
      (EchoWait limit framing head frames input) (fun res m u' => res = .ok (.inl ws) ∧
        EchoState limit framing head frames input ws m u' ∧ u'.consumedCount = u.consumedCount) n := by
  have streamed := reading.got_prefix
  unfold WebSocket.write
  rw [framed]
  refine guards_bind ((FrameWriter.write_guards input framing payload data writing wired within
    (by omega)).fewer.mono (fun _ _ waits => EchoWait.of_write notRaw waits streamed) fun _ _ _ post => post)
    (fun _ m u₂ wrote => ?_) fun _ _ _ wrote => by cases wrote.1.1
  obtain ⟨⟨-, writing₂, wired₂, count₂, within₂⟩, spent⟩ := wrote
  rw [List.append_assoc, ← List.map_append] at writing₂
  cases atEnd : ws.isMessageEnd
  · -- outside a message's end nothing is pushed
    rw [if_neg (by simp), run_bind_apply, run_pure_apply, Progress.done_bind]
    dsimp only
    rw [run_pure_apply]
    refine .done ⟨rfl, ⟨⟨got ++ data, ⟨count₂ ▸ reading, framed, writing₂, wired₂, fun rem ended => ?_⟩⟩,
      within₂, count₂ ▸ bounded⟩, count₂⟩
    simp [WebSocket.isMessageEnd, rem, ends rem ended] at atEnd
  · -- at a message's end the written bytes are pushed
    rw [if_pos rfl]
    refine guards_bind ((FrameWriter.push_guards input writing₂ wired₂ within₂ (by omega)).mono
      (fun _ _ waits => EchoWait.of_push notRaw waits streamed) fun _ _ _ post => post)
      (fun _ m u₃ pushed => ?_) fun _ _ _ pushed => by cases pushed.1
    obtain ⟨-, writing₃, closed, idle, wired₃, count₃, within₃⟩ := pushed
    rw [run_pure_apply]
    have count : u₃.consumedCount = u.consumedCount := count₃.trans count₂
    exact .done ⟨rfl, ⟨⟨got ++ data, ⟨count ▸ reading, framed, writing₃, wired₃,
      fun _ _ => ⟨closed, idle⟩⟩⟩, within₃, count ▸ bounded⟩, count⟩

/-- One round of the echo service from where the loop stands, served by the peer: it waits only
where `EchoWait` holds; it goes on having consumed at least one more byte of the input, or fails at
a close frame having echoed a first part, or, with only frames to drop left, waits for bytes for
good with the echo finished once the whole input is consumed. -/
theorem echoRound_guards (notRaw : framing ≠ .raw) (payload : 1 ≤ limit)
    (few : frames.length < Routine.loopBudget) {ws : WebSocket} {n : Nat} {w : Conn Loopback σ}
    (holds : EchoState limit framing head frames input ws n w)
    (fits : n + 2 * echoChunk + 1 < Routine.loopBudget) :
    ((Service.echoRound ws).run w).Guards (.ok ()) (Conn.Serves input) (EchoWait limit framing head frames input)
      (fun res m u => match res with
        | .ok (.inl ws') => EchoState limit framing head frames input ws' m u ∧
            input.length - u.consumedCount < input.length - w.consumedCount
        | .ok (.inr _) => False
        | .error _ => Echoes limit framing head frames u.link.transport.sentBytes) n := by
  obtain ⟨⟨got, echoing⟩, within, bounded⟩ := holds
  have echoes := echoing.echoes notRaw
  obtain ⟨reading, framed, writing, wired, settled⟩ := echoing
  have clean : w.link.error = none := Link.error_of_usable writing.writable.usable
  have mirrors := (WebSocket.read_reader ws echoChunk).mirrors w w (Conn.Alike.refl w)
  -- a wait of the read before the stream's end is not one with the whole input consumed
  have early : ∀ k, k < w.consumedCount + (input.drop w.consumedCount).length → k ≠ input.length := by
    simp only [List.length_drop]
    omega
  unfold Service.echoRound
  rcases reading.read_cases (τ := Loopback) (σ := σ) (show 0 < echoChunk by decide) few.le with
    reads | ⟨reads, -⟩ | ⟨boundary, unclosed, whole, message, fs, skips, left, fewer⟩
  · -- the read answers bytes: they are written back, pushed at a message's end, and the loop goes on
    refine guards_bind ((guards_of_reads mirrors (WebSocket.read_reads ws echoChunk reads) rfl clean
      wired.attached within n).fewer.mono (fun _ _ listening => EchoWait.of_listening listening writing
        echoes fun short all => absurd all (early _ short)) fun _ _ _ heard => heard)
      (fun r m u heard => ?_) fun _ _ _ heard => ?_
    · obtain ⟨data, ws'⟩ := r
      obtain ⟨⟨listens, k, ⟨r', ⟨data', rd', rfl, pos, atMost, short, reading', ends⟩, same⟩, -, count,
        queued⟩, spent⟩ := heard
      simp only [Except.map, Except.ok.injEq, Prod.mk.injEq] at same
      obtain ⟨rfl, rfl⟩ := same
      have stream : input.drop u.consumedCount = (input.drop w.consumedCount).drop k := by
        rw [count, List.drop_drop]
      have consumed : u.consumedCount ≤ input.length := by
        rw [List.length_drop] at atMost
        omega
      have within' : u.Within input := by
        rw [Conn.Within, stream]
        exact queued
      have framed' : ({ ws with reader := rd' } : WebSocket).framing = framing := framed
      refine (echoTail_guards notRaw payload (stream ▸ reading') framed' (listens.writing writing)
        (listens.wired wired) within' consumed ends short (by omega)).mono (fun _ _ waits => waits)
        fun res m u' post => ?_
      obtain ⟨rfl, state, same⟩ := post
      rw [List.length_drop] at atMost
      exact ⟨state, by omega⟩
    · -- a read that answers bytes does not fail
      obtain ⟨⟨-, k, ⟨r', ⟨data', rd', rfl, -⟩, same⟩, -⟩, -⟩ := heard
      cases same
  · -- the read fails at a close frame, having echoed a first part
    refine guards_bind ((guards_of_reads mirrors (WebSocket.read_reads ws echoChunk reads) rfl clean
      wired.attached within n).mono (fun _ _ listening => EchoWait.of_listening listening writing echoes
        fun short all => absurd all (early _ short)) fun _ _ _ heard => heard)
      (fun _ _ _ heard => ?_) fun _ _ u heard => ?_
    · obtain ⟨-, k, ⟨r', rfl, same⟩, -⟩ := heard
      cases same
    · dsimp only
      rw [heard.1.sentBytes]
      exact echoes
  · -- only frames to drop are left: the read waits for bytes for good
    have echoed : Echoed limit framing head frames got w.link :=
      ⟨writing, wired, reading.got_prefix, fun _ ended => ⟨whole, settled boundary (message.trans ended)⟩⟩
    refine guards_bind ((guards_of_waits mirrors rfl clean wired.attached within
      (fun cs chunks arrives => ?_) n).mono (fun _ _ listening => EchoWait.of_listening listening writing
        echoes fun _ _ => echoed.regions notRaw) fun _ _ _ never => never)
      (fun _ _ _ never => never.elim) fun _ _ _ never => never.elim
    obtain ⟨k, fed⟩ := FrameReader.read_feed_waits (show 0 < echoChunk by decide) boundary skips
      (by omega) clean chunks (arrives.trans left)
    rw [left]
    exact WebSocket.read_feed_waits fed

/-- The echo service from where its loop stands, served by the peer over `n` resumptions: it
waits only where `EchoWait` holds and, should it end, fails at a close frame having echoed a first
part. The loop's measure is the input left to consume, of which every round consumes a byte. -/
theorem echo_guards (notRaw : framing ≠ .raw) (payload : 1 ≤ limit)
    (few : frames.length < Routine.loopBudget) (spare : input.length < Routine.loopBudget)
    {ws : WebSocket} {n : Nat} {w : Conn Loopback σ} (holds : EchoState limit framing head frames input ws n w)
    (fits : n + 2 * echoChunk + 1 < Routine.loopBudget) :
    ((Service.echo ws).run w).Guards (.ok ()) (Conn.Serves input) (EchoWait limit framing head frames input)
      (fun res _ u => res ≠ .ok () ∧ Echoes limit framing head frames u.link.transport.sentBytes) n := by
  rw [Service.echo_eq]
  -- the resumptions left only fall, so every round keeps within the budget
  refine guards_loopFor (fun ws m u => EchoState limit framing head frames input ws m u ∧ m ≤ n)
    (fun _ _ u => input.length - u.consumedCount) (fun ws m u holds => ?_) _ ws n w ⟨holds, le_rfl⟩
    (by omega)
  obtain ⟨state, fewer⟩ := holds
  refine (echoRound_guards notRaw payload few state (by omega)).fewer.mono (fun _ _ waits => waits)
    fun res m' u' post => ?_
  obtain ⟨post, spent⟩ := post
  rcases res with e | ws' | ⟨⟩
  · exact ⟨by simp, post⟩
  · exact ⟨⟨post.1, by omega⟩, post.2⟩
  · exact post.elim

/-! ## The session served by the peer -/

/-- The answer to an upgrade request with a key, served by the peer from where the request head was
read, with the frames the rest of the input: the `101` head is written and pushed, then the echo
service runs. The answer waits only where `EchoWait` holds and ends having echoed a first part. -/
theorem answer_echo_guards (accept : List UInt8 → List UInt8) (config : Config)
    (page : List UInt8) {request : Request} {key : List UInt8}
    (keyed : request.websocketKey = some key)
    (built : Response.switchingProtocols (accept key) config.protocol = .ok head)
    (few : frames.length < Routine.loopBudget) (spare : input.length < Routine.loopBudget)
    {u : Conn Loopback σ} {n : Nat} (writing : u.link.Writing config.maxPayload.toNat [])
    (wired : u.link.Wired [] 0) (within : u.Within input) (bounded : u.consumedCount ≤ input.length)
    (rest : input.drop u.consumedCount = frames.flatMap WireFrame.bytes)
    (fits : n + 2 * Response.maxHeadLen + 2 * echoChunk + 1 < Routine.loopBudget) :
    ((Session.answer accept config page Service.echo request).run u).Guards (.ok ()) (Conn.Serves input)
      (EchoWait config.maxPayload.toNat config.framing head frames input)
      (fun _ _ u' => Echoes config.maxPayload.toNat config.framing head frames u'.link.transport.sentBytes) n := by
  have payload := writing.writable.payload
  have headLen := (Response.fitHead_ok built).2
  rw [Session.answer, keyed]
  dsimp only
  rw [built, run_bind_apply, run_ofExcept, Progress.done_bind]
  dsimp only
  -- the head is written whole, then pushed
  refine guards_bind ((FrameWriter.write_guards input .raw payload head writing wired within
    (by omega)).fewer.mono (fun _ _ waits => EchoWait.of_headWrite waits) fun _ _ _ post => post)
    (fun _ m u₂ wrote => ?_) fun _ _ _ wrote => by cases wrote.1.1
  obtain ⟨⟨-, writing₂, wired₂, count₂, within₂⟩, spent₂⟩ := wrote
  rw [List.nil_append] at writing₂
  refine guards_bind ((FrameWriter.push_guards input writing₂ wired₂ within₂ (by omega)).fewer.mono
    (fun _ _ waits => EchoWait.of_headPush waits) fun _ _ _ post => post)
    (fun _ m' u₃ pushed => ?_) fun _ _ _ pushed => by cases pushed.1.1
  obtain ⟨⟨-, writing₃, closed, idle, wired₃, count₃, within₃⟩, spent₃⟩ := pushed
  -- nothing open or pending: the loopback has received the head whole, and the echo loop starts
  have sent : u₃.link.transport.sentBytes = head := writing₃.sentBytes_raw.2 closed idle
  have count : u₃.consumedCount = u.consumedCount := count₃.trans count₂
  have state : EchoState config.maxPayload.toNat config.framing head frames input
      (WebSocket.ofConfig config) m' u₃ :=
    ⟨⟨[], ⟨by rw [count, rest]; exact Reading.start, rfl, by simpa using writing₃,
      ⟨wired₃.attached, by rw [sent], wired₃.closed⟩, fun _ _ => ⟨closed, idle⟩⟩⟩, within₃,
      count ▸ bounded⟩
  exact guards_bind (echo_guards (Config.framing_ne_raw config) payload few spare state (by omega))
    (fun _ _ _ post => absurd rfl post.1) fun _ _ _ post => post.2

/-- The echo session from a world whose link a writer goes on with, whose run accepted nothing,
whose loopback received nothing and which has consumed nothing, served by the peer streaming an
upgrade request head with a key and then the frames: it waits only where `EchoWait` holds and ends
having echoed a first part. -/
theorem run_echo_guards (accept : List UInt8 → List UInt8) (config : Config)
    (page : List UInt8) {request : Request} {key : List UInt8}
    (reads : HeadReading.readHead input = some (request, frames.flatMap WireFrame.bytes))
    (keyed : request.websocketKey = some key)
    (built : Response.switchingProtocols (accept key) config.protocol = .ok head)
    (bounded : 4 * input.length + 2 < Routine.loopBudget) (few : frames.length < Routine.loopBudget)
    {w : Conn Loopback σ} {n : Nat}
    (writing : w.link.Writing config.maxPayload.toNat []) (wired : w.link.Wired [] 0)
    (empty : w.link.inbound = []) (fresh : w.consumedCount = 0)
    (fits : n + 2 * Response.maxHeadLen + 2 * echoChunk + 1 < Routine.loopBudget) :
    (Session.run accept config page Service.echo w).Guards (.ok ()) (Conn.Serves input)
      (EchoWait config.maxPayload.toNat config.framing head frames input)
      (fun _ _ u => Echoes config.maxPayload.toNat config.framing head frames u.link.transport.sentBytes) n := by
  have clean : w.link.error = none := Link.error_of_usable writing.writable.usable
  have writing₀ : w.link.Writing config.maxPayload.toNat (([] : List UInt8).map (Framing.raw, ·)) :=
    by simpa using writing
  have echoes : Echoes config.maxPayload.toNat config.framing head frames w.link.transport.sentBytes :=
    writing₀.echoes_head List.nil_prefix
  have answered : ((Handshake.parse >>= Session.answer accept config page Service.echo).run w).Guards (.ok ())
      (Conn.Serves input) (EchoWait config.maxPayload.toNat config.framing head frames input)
      (fun _ _ u => Echoes config.maxPayload.toNat config.framing head frames u.link.transport.sentBytes) n := by
    refine guards_bind ((guards_of_reads (Handshake.parse_mirrors (Conn.Alike.refl w))
      (Handshake.parse_reads reads bounded) (by rw [fresh]; rfl) clean wired.attached
      (by rw [empty]; exact List.nil_prefix) n).fewer.mono
        (fun _ _ listening => EchoWait.of_listening listening writing echoes fun early all => by omega)
        fun _ _ _ heard => heard) (fun _ m u heard => ?_) fun _ _ _ heard => ?_
    · -- the request head was read: the answer goes on with the frames
      obtain ⟨⟨listens, k, ⟨same, rest⟩, atMost, count, queued⟩, spent⟩ := heard
      cases same
      rw [fresh, Nat.zero_add] at count
      exact answer_echo_guards accept config page keyed built few (by omega) (listens.writing writing)
        (listens.wired wired) (by rw [Conn.Within, count]; exact queued) (by omega)
        (by rw [count]; exact rest) (by omega)
    · -- reading the head does not fail
      obtain ⟨⟨-, k, ⟨same, -⟩, -⟩, -⟩ := heard
      cases same
  -- the session closes the link last, which sends nothing
  rw [Session.run_eq]
  exact answered.bind fun _ _ u ended => .done (by rw [Link.close_sentBytes]; exact ended)

/-- The echo session's guarantee is one the connection can carry: its waits and ends are on
loopbacks whose bytes begin an echo, which the peer's steps keep, and each wait is for bytes with
the queue empty or on a reason the link awaits; the session never runs free. -/
theorem echoWait_discipline :
    Connection.Discipline (σ := σ) (EchoWait limit framing head frames input)
      (fun _ _ u => Echoes limit framing head frames u.link.transport.sentBytes)
      (fun l => Echoes limit framing head frames l.transport.sentBytes) fun _ => False :=
  ⟨fun _ _ waits => waits.1, fun _ _ waits => waits.2.2.imp (fun recv => ⟨recv.1, recv.2.1⟩) id,
    fun _ _ _ ended => ended, fun _ => False.elim,
    fun _ _ step echoes => step.sentBytes ▸ echoes, fun _ _ _ => id, fun _ => id,
    fun _ _ _ => id⟩

/-- Whether the loopback's bytes begin an echo depends on them alone. -/
theorem echoes_sentOnly :
    Connection.SentOnly fun l => Echoes limit framing head frames l.transport.sentBytes :=
  fun _ l' same echoes => show Echoes limit framing head frames l'.transport.sentBytes from same ▸ echoes

end Echo

namespace Link

/-- A new link has received nothing and counted nothing. -/
theorem new_unreported {capacity ringSize inboundCap : Nat} {config : Config} {l : Link Loopback}
    (made : Link.new ({ capacity } : Loopback) config ringSize inboundCap = .ok l) :
    l.transport.recved + l.credit = 0 := by
  unfold Link.new at made
  rcases valid : config.validate with e | u
  · rw [valid] at made
    cases made
  · rw [valid] at made
    by_cases small : ringSize < minRingSize ∨ inboundCap = 0
    · simp [small] at made
      cases made
    · simp [small] at made
      subst made
      rfl

end Link

namespace Session

/-! ## Any play on a fresh link -/

section Runs

open Io Connection

variable (accept : List UInt8 → List UInt8) (config : Config) (page : List UInt8)
  {service : Service Loopback σ} {capacity ringSize inboundCap : Nat} {link : Link Loopback}
  {s : List UInt8} {I : WaitReason → Conn Loopback σ → Prop}
  {Q : Unit → Nat → Conn Loopback σ → Prop} {Safe Free : Link Loopback → Prop}

/-- A session started on a fresh link, guided over four resumptions a move under a discipline
whose safe and free links depend only on the loopback's bytes, is served after any play. -/
theorem run_played (onSocket : ∀ ws, SocketProgram (service ws))
    (propagates : ∀ ws, PassesErrors (service ws))
    (made : Link.new ({ capacity } : Loopback) config ringSize inboundCap = .ok link) (app : σ)
    (discipline : Discipline I Q Safe Free) (safeSent : SentOnly Safe)
    (freeSent : SentOnly Free) (moves : List Peer.Move)
    (guided : Guided s I Q Free (4 * moves.length)
      (run accept config page service (LockWorld.setLockState { link, app } { phase := .running }))) :
    let played := Peer.play s ((⟨{}, { link, app }⟩ : Connection Loopback σ).start
      (run accept config page service)).2 moves
    played.1.Serving s I Q Safe Free 0 played.2 ∧ Calm played.1 := by
  obtain ⟨-, attached, -, empty, clean, -, -⟩ := Link.new_fresh made
  obtain ⟨started, calm⟩ := Serving.start discipline { link, app } (run accept config page service)
    rfl clean attached empty (Link.new_unreported made) guided
    (run_moves accept config page onSocket _) (run_endsOnError accept config page propagates _)
  exact Serving.played discipline safeSent freeSent moves started calm

/-- A session started on a fresh link that never times out, guided over four resumptions a move
under a discipline, is served after any quiet play. -/
theorem run_played_quiet (onSocket : ∀ ws, SocketProgram (service ws))
    (propagates : ∀ ws, PassesErrors (service ws))
    (made : Link.new ({ capacity } : Loopback) config ringSize inboundCap = .ok link) (app : σ)
    (discipline : Discipline I Q Safe Free) (moves : List Peer.Move)
    (quiet : ∀ mv ∈ moves, mv.Quiet) (untimed : config.idleTimeoutPolls = none)
    (guided : Guided s I Q Free (4 * moves.length)
      (run accept config page service (LockWorld.setLockState { link, app } { phase := .running }))) :
    let played := Peer.play s ((⟨{}, { link, app }⟩ : Connection Loopback σ).start
      (run accept config page service)).2 moves
    played.1.Serving s I Q Safe Free 0 played.2 ∧ Calm played.1 := by
  obtain ⟨-, attached, -, empty, clean, -, idle⟩ := Link.new_fresh made
  obtain ⟨started, calm⟩ := Serving.start discipline { link, app } (run accept config page service)
    rfl clean attached empty (Link.new_unreported made) guided
    (run_moves accept config page onSocket _) (run_endsOnError accept config page propagates _)
  obtain ⟨steady, limit⟩ := start_steady app (run_moves accept config page onSocket)
  exact Serving.played_quiet discipline moves quiet started calm steady (limit.trans (idle.trans untimed))

end Runs

/-- The echo session sends the client's data back as frames after the `101` head, whatever the
peer plays. -/
theorem echoes_data_stream {σ : Type} (accept : List UInt8 → List UInt8)
    (full : ∀ key, (accept key).length = 28) (config : Config) (page : List UInt8)
    {capacity ringSize inboundCap : Nat} {link : Link Loopback}
    (made : Link.new ({ capacity } : Loopback) config ringSize inboundCap = .ok link)
    (window : config.maxPayload.toNat + headerReserve ≤ capacity) (app : σ)
    (short : ∀ p, config.protocol = some p → p.utf8ByteSize ≤ 101)
    {s : List UInt8} {r : Request} {key : List UInt8} (frames : List WireFrame)
    (reads : HeadReading.readHead (s ++ frames.flatMap WireFrame.bytes) =
      some (r, frames.flatMap WireFrame.bytes))
    (upgrade : r.upgrade = true) (keyed : r.key = some key) (moves : List Peer.Move)
    (bounded : (s ++ frames.flatMap WireFrame.bytes).length + moves.length < 2 ^ 29) :
    ∃ head, Response.switchingProtocols (accept key) config.protocol = .ok head ∧
      let played := Peer.play (s ++ frames.flatMap WireFrame.bytes)
        ((⟨{}, { link, app }⟩ : Connection Loopback σ).start
          (run accept config page Service.echo)).2 moves
      (∃ regions : List Region,
        (∀ x ∈ regions, x.framing = config.framing ∧ 1 ≤ x.payload.length ∧
          x.payload.length ≤ config.maxPayload.toNat) ∧
        regions.flatMap Region.payload <+: dataStream none frames ∧
        played.1.world.link.transport.sentBytes <+: head ++ regions.flatMap Region.wire) ∧
      (played.2 = (s ++ frames.flatMap WireFrame.bytes).length →
        played.1.world.link.transport.unacked = 0 → played.1.world.link.error = none →
        ∃ regions : List Region, played.1.world.link.transport.sentBytes = head ++ regions.flatMap Region.wire ∧
          (∀ x ∈ regions, x.framing = config.framing ∧ 1 ≤ x.payload.length ∧
            x.payload.length ≤ config.maxPayload.toNat) ∧
          regions.flatMap Region.payload <+: dataStream none frames ∧
          ((∀ f ∈ frames, f.header.opcode ≠ .close) → messageAfter none frames = none →
            regions.flatMap Region.payload = dataStream none frames)) := by
  obtain ⟨head, built⟩ :=
    Response.switchingProtocols_ok_of_short (full key) short
  refine ⟨head, built, ?_⟩
  intro played
  obtain ⟨writing, wired, -, empty⟩ := Link.new_writing made window
  have keyed' : r.websocketKey = some key := websocketKey_eq_some_iff.mpr ⟨upgrade, keyed⟩
  have few : frames.length < Routine.loopBudget := by
    have := WireFrame.length_le_bytes frames
    simp only [List.length_append, Routine.loopBudget] at bounded ⊢
    omega
  -- the session keeps its guarantee over four resumptions a move
  have guards := run_echo_guards (n := 4 * moves.length) accept config page reads keyed' built
    (by simp only [Routine.loopBudget]; omega) few
    (w := LockWorld.setLockState { link, app } { phase := .running })
    writing wired empty (Link.new_unreported made)
    (by simp only [Response.maxHeadLen, echoChunk, Routine.loopBudget]; omega)
  obtain ⟨serving, calm'⟩ := run_played accept config page Connection.echo_socketProgram
    (fun ws => (Connection.echo_plain ws).passesErrors) made app echoWait_discipline echoes_sentOnly
    (fun _ _ _ => id) moves (.of_guards guards)
  refine ⟨serving.safe, fun all acked noted => ?_⟩
  -- a peer that offered everything and acknowledged everything finds the session waiting for bytes
  obtain ⟨w, waits, consumed, sent⟩ | never := serving.drained echoWait_discipline calm' all acked noted
    fun y u waits other => by
      obtain ⟨acc, writing⟩ := waits.2.1
      obtain ⟨s, carries⟩ := writing.writable.carries
      exact ⟨_, s, carries, writing.writable.window⟩
  · obtain ⟨-, -, ⟨-, -, finished⟩ | awaits⟩ := waits
    · rw [← sent]
      exact finished consumed
    · exact awaits.elim
  · exact never.elim

/-- A masked `Hi` text frame after an upgrade head, sent in two pieces, is echoed back. -/
theorem echoes_hi_text :
    let mask : MaskKey := ⟨0x37, 0xFA, 0x21, 0x3D⟩
    let hi : WireFrame := ⟨[0x81, 0x82, 0x37, 0xFA, 0x21, 0x3D], ⟨true, .text, some mask, 2⟩,
      mask.apply [0x48, 0x69], by decide, by decide⟩
    let link : Link Loopback :=
      { transport := { capacity := 2048 }, inboundCap := 64,
        ring := FrameRing.new 64 (1024 : UInt16).toNat (512 : UInt16).toNat }
    let get := Handshake.ascii
      "GET / HTTP/1.1\r\nUpgrade: websocket\r\nSec-WebSocket-Key: dGhlIHNhbXBsZSBub25jZQ==\r\n\r\n"
    let key := Handshake.ascii "dGhlIHNhbXBsZSBub25jZQ=="
    let moves : List Peer.Move := [.send 64, .send 64, .ack 2048, .poll]
    (∀ key, (Response.acceptKey key).length = 28) ∧
    Link.new ({ capacity := 2048 } : Loopback) {} 64 64 = .ok link ∧
    ({} : Config).maxPayload.toNat + headerReserve ≤ 2048 ∧
    (∀ p, ({} : Config).protocol = some p → p.utf8ByteSize ≤ 101) ∧
    HeadReading.readHead (get ++ [hi].flatMap WireFrame.bytes) =
      some ({ upgrade := true, key := some key }, [hi].flatMap WireFrame.bytes) ∧
    (get ++ [hi].flatMap WireFrame.bytes).length + moves.length < 2 ^ 29 ∧
    ∃ head, Response.switchingProtocols (Response.acceptKey key) ({} : Config).protocol = .ok head ∧
      let played := Peer.play (get ++ [hi].flatMap WireFrame.bytes)
        ((⟨{}, { link, app := () }⟩ : Connection Loopback Unit).start
          (run Response.acceptKey {} [] Service.echo)).2 moves
      (played.2 = (get ++ [hi].flatMap WireFrame.bytes).length →
        played.1.world.link.transport.unacked = 0 → played.1.world.link.error = none →
        ∃ regions : List Region,
          played.1.world.link.transport.sentBytes = head ++ regions.flatMap Region.wire ∧
          (∀ x ∈ regions, x.framing = .frame .text) ∧ regions.flatMap Region.payload = [0x48, 0x69]) := by
  intro mask hi link get key moves
  have made : Link.new ({ capacity := 2048 } : Loopback) {} 64 64 = .ok link := rfl
  have window : ({} : Config).maxPayload.toNat + headerReserve ≤ 2048 := by decide
  have short : ∀ p, ({} : Config).protocol = some p → p.utf8ByteSize ≤ 101 :=
    fun p announced => by cases announced
  have reads : HeadReading.readHead (get ++ [hi].flatMap WireFrame.bytes) =
      some ({ upgrade := true, key := some key }, [hi].flatMap WireFrame.bytes) := by
    decide +kernel
  have bounded : (get ++ [hi].flatMap WireFrame.bytes).length + moves.length < 2 ^ 29 := by
    rw [List.length_append, show get.length = _ from Response.length_ascii _]
    decide
  obtain ⟨head, built, -, live⟩ :=
    echoes_data_stream Response.acceptKey Response.length_acceptKey {} [] made window () short [hi]
      reads rfl rfl moves bounded
  refine ⟨Response.length_acceptKey, made, window, short, reads, bounded, head, built,
    fun all acked noted => ?_⟩
  obtain ⟨regions, sent, framed, -, whole⟩ := live all acked noted
  refine ⟨regions, sent, fun x mem => (framed x mem).1, ?_⟩
  rw [whole (by decide) rfl]
  decide

end Session

end WebSocketCore
