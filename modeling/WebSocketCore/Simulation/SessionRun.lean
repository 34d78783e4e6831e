import WebSocketCore.Session
import WebSocketCore.Simulation.Peer
import WebSocketCore.Simulation.Services

/-! # Simulated sessions

A session runs as the task of a connection over a `Loopback` transport. A list of commands plays
the peer (deliveries, acknowledgements, closes, errors, polls), the application (closing or
settling the link, restarting the session) and the network (the send window and failure modes).
After the start and after each command the run is reported: the command's answer, the lock's
state, the link's state, what the transport saw since the last report, and the service's notes
since then.
-/

namespace WebSocketCore

/-- The task's state in a simulated session: the service's notes. -/
abbrev SessionConn := Connection Loopback (Array ServiceNote)

/-- One command of a session run. -/
inductive SessionCommand where
  | recv (bytes : List UInt8)
  | recvChunks (bytes : List UInt8) (chunk : Nat)
  | pump (bytes : List UInt8) (chunk : Nat)
  /-- The peer acknowledges `len` bytes. -/
  | sent (len : Nat)
  | ackAll
  | closed
  | poll (times : Nat)
  | error (e : NetError)
  | settle
  | close
  | setCapacity (capacity : Nat)
  | setFailSend (fail : Bool)
  | setFailClose (fail : Bool)
  /-- Starts a fresh session, on a fresh transport over the same record when `reset` is set. -/
  | restart (reset : Bool)
  deriving DecidableEq, Repr, Inhabited

/-- What a command answered. -/
inductive SessionReply where
  | started (result : Except TaskError Unit)
  | taken (n : Nat)
  | takes (ns : List Nat)
  | left (n : Nat)
  | acked (n : Nat)
  | closed (result : Except NetError Unit)
  | done

/-- The state of a run after a command. -/
structure SessionReport where
  reply : SessionReply
  waiting : WaitReason
  phase : Phase
  finished : Bool
  attached : Bool
  linkError : Option NetError
  /-- Sends since the last report. -/
  sends : List (List UInt8 × Bool)
  wire : Loopback
  inbound : Nat
  ring : FrameRing
  /-- Notes since the last report. -/
  notes : List ServiceNote

/-- What a session run is set up with. -/
structure SessionSetup where
  ringSize : Nat
  inboundCap : Nat
  capacity : Nat
  config : Config
  page : List UInt8
  service : ServiceSpec

namespace SessionSetup

/-- The session task. -/
def task (s : SessionSetup) : IoRoutine Loopback (Array ServiceNote) Unit :=
  Session.run Response.acceptKey s.config s.page s.service.service

/-- Plays one command. -/
def step (s : SessionSetup) (c : SessionConn) : SessionCommand → SessionReply × SessionConn
  | .recv bytes => let (c, n) := c.onRecv bytes; (.taken n, c)
  | .recvChunks bytes chunk =>
    let (c, ns) := Peer.recvChunks c (Peer.chunksOf chunk bytes)
    (.takes ns, c)
  | .pump bytes chunk => let (c, left) := Peer.pump c bytes chunk; (.left left, c)
  | .sent len => (.done, Peer.acknowledge c len)
  | .ackAll => let (c, n) := Peer.ackAll c; (.acked n, c)
  | .closed => (.done, c.onClosed)
  | .poll times => (.done, (List.range times).foldl (fun c _ => c.onPoll) c)
  | .error e => (.done, c.onError e)
  | .settle => (.done, c.mapLink Link.settle)
  | .close =>
    let (r, link) := c.world.link.close
    (.closed r, c.mapLink fun _ => link)
  | .setCapacity n => (.done, Peer.mapWire c fun t => { t with capacity := n })
  | .setFailSend b => (.done, Peer.mapWire c fun t => { t with failSend := b })
  | .setFailClose b => (.done, Peer.mapWire c fun t => { t with failClose := b })
  | .restart reset =>
    let c := if reset then c.mapLink fun l => l.reset l.transport else c
    let (r, c) := c.start s.task
    (.started r, c)

/-- Reports the run after a command, against the transport's sends and the notes before it. -/
def report (reply : SessionReply) (before : SessionConn) (c : SessionConn) : SessionReport :=
  let link := c.world.link
  ⟨reply, c.waiting, c.phase, c.isFinished, link.attached, link.error,
    ((Peer.wire c).sends.extract (Peer.wire before).sends.size (Peer.wire c).sends.size).toList, Peer.wire c, link.inbound.length,
    link.ring, (c.world.app.extract before.world.app.size c.world.app.size).toList⟩

/-- Plays the commands, reporting after each. -/
def replay (s : SessionSetup) : SessionConn → List SessionCommand → List SessionReport
  | _, [] => []
  | c, cmd :: cmds =>
    let (reply, c') := s.step c cmd
    report reply c c' :: s.replay c' cmds

/-- Starts a session and plays the commands: the report after the start and after each
command, or the error that kept the link from being made. -/
def run (s : SessionSetup) (cmds : List SessionCommand) :
    Except NetError (SessionReport × List SessionReport) := do
  let link ← Link.new ({ capacity := s.capacity } : Loopback) s.config s.ringSize s.inboundCap
  let c : SessionConn := { world := { link, app := #[] } }
  let (r, c') := c.start s.task
  return (report (.started r) c c', s.replay c' cmds)

end SessionSetup

end WebSocketCore
