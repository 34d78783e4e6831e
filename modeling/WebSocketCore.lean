import WebSocketCore.Config
import WebSocketCore.Config.Json
import WebSocketCore.Connection
import WebSocketCore.Digest.Base64
import WebSocketCore.Digest.Sha1
import WebSocketCore.Error
import WebSocketCore.Frame.Header
import WebSocketCore.Frame.Mask
import WebSocketCore.Frame.Opcode
import WebSocketCore.Http.Handshake
import WebSocketCore.Http.Response
import WebSocketCore.Http.Selector
import WebSocketCore.Io
import WebSocketCore.Link
import WebSocketCore.Proofs.Frame.Codec
import WebSocketCore.Proofs.Http.HeadReading
import WebSocketCore.Proofs.Http.HeadStream
import WebSocketCore.Proofs.Http.Selection
import WebSocketCore.Proofs.Http.Selector
import WebSocketCore.Proofs.Http.UpgradeHead
import WebSocketCore.Proofs.Io.Mirror
import WebSocketCore.Proofs.Io.Stream
import WebSocketCore.Proofs.Link.Calls
import WebSocketCore.Proofs.Masking
import WebSocketCore.Proofs.Ring.Blocking
import WebSocketCore.Proofs.Ring.Delivery
import WebSocketCore.Proofs.Ring.Integrity
import WebSocketCore.Proofs.Ring.Invariant
import WebSocketCore.Proofs.Ring.Layout
import WebSocketCore.Proofs.Ring.Moves
import WebSocketCore.Proofs.Ring.Progress
import WebSocketCore.Proofs.Ring.Refusal
import WebSocketCore.Proofs.Ring.Sealing
import WebSocketCore.Proofs.Session.AnswerPlay
import WebSocketCore.Proofs.Session.Answering
import WebSocketCore.Proofs.Session.Carriage
import WebSocketCore.Proofs.Session.Driving
import WebSocketCore.Proofs.Session.Echo
import WebSocketCore.Proofs.Session.EchoPlay
import WebSocketCore.Proofs.Session.Flushing
import WebSocketCore.Proofs.Session.Listening
import WebSocketCore.Proofs.Session.NeverStuck
import WebSocketCore.Proofs.Session.PeerSteps
import WebSocketCore.Proofs.Session.ReceiveCredit
import WebSocketCore.Proofs.Session.Sending
import WebSocketCore.Proofs.Session.SentRegions
import WebSocketCore.Proofs.Session.Serving
import WebSocketCore.Proofs.Session.TaskMoves
import WebSocketCore.Proofs.Session.Teardown
import WebSocketCore.Proofs.Session.Waits
import WebSocketCore.Proofs.Session.WriteLiveness
import WebSocketCore.Proofs.Session.WritePlay
import WebSocketCore.Proofs.Session.Writing
import WebSocketCore.Proofs.Task.Coroutine
import WebSocketCore.Proofs.Task.ErrorDelivery
import WebSocketCore.Proofs.Task.Guards
import WebSocketCore.Proofs.Task.Keeps
import WebSocketCore.Proofs.Task.LockDiscipline
import WebSocketCore.Proofs.WebSocket.DataStream
import WebSocketCore.Proofs.WebSocket.PayloadStream
import WebSocketCore.Ring.Ack
import WebSocketCore.Ring.Append
import WebSocketCore.Ring.Basic
import WebSocketCore.Ring.Run
import WebSocketCore.Session
import WebSocketCore.Simulation.HandshakeRun
import WebSocketCore.Simulation.LockScript
import WebSocketCore.Simulation.Loopback
import WebSocketCore.Simulation.Peer
import WebSocketCore.Simulation.RingScript
import WebSocketCore.Simulation.Services
import WebSocketCore.Simulation.SessionRun
import WebSocketCore.Simulation.TaskScript
import WebSocketCore.Task.Lock
import WebSocketCore.Task.Routine
import WebSocketCore.Task.SubTask
import WebSocketCore.Transport
import WebSocketCore.WaitReason
import WebSocketCore.WebSocket.Reader
import WebSocketCore.WebSocket.Service
import WebSocketCore.WebSocket.Writer
