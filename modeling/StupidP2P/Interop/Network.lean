import StupidP2P.Client.RecvData
import StupidP2P.Client.SendPath
import StupidP2P.Client.Stream
import StupidP2P.PythonClient.RecvThread
import StupidP2P.PythonClient.Send
import StupidP2P.Server.BufferedCodec
import StupidP2P.Server.Traffic

/-!
# Server, clients and the network between them

The whole system: the server, one client at the other end of each connection, and the
bytes under way in both directions.  A client uses the C API or the Python API.  Callers
queue commands, send threads transmit them, the server reads any number of the bytes that
wait, its codec cuts them into messages and the server handles them, and what it writes
is read by the clients in pieces of any size.  These steps, the timer and the life of the
connections are interleaved in any order.

The parts are the models of the code from the modules above.  Added here is the network:
TCP delivers what was written, in order; muduo writes to a connection only while it is
connected.  An application at a C client takes its messages by calls of
`stupid_p2p_recv_data`, one at a time, a round of its loop being a step.

A connection has one client, from its start on, and nothing goes wrong on the clients' side
of it: `recv` returns bytes, never 0 or -1, and `send` takes all that a C client gives it.  A
heart beat is a call like any other, and the threads that send it never restart the connection:
`need_to_restart_flag` is not set, and a client does not notice that its connection is closed.
What happens otherwise is in `Client.RecvOutcomes`, `Interop.ShortWrites`, `Interop.Uplink`,
`Client.Reconnect` and `PythonClient.Restart`.

Calls are made within the limits of the clients: for the C API 256 bytes and a ring with an
unused slot, as a push to a used one frees a buffer for the second time; for the Python API a
frame of 2048 bytes and a `sock.send` that takes all or fails.  A push and a pop of the C
client's ring do not overlap: each is part of one step here, though `send_command_fifo_pop` does
not take the lock.
-/

namespace StupidP2P
namespace Interop

open Foundation
open Foundation.Framing
open Server (P2PServer Conn Message CodecSend ProtocolCode Buffer LengthHeaderCodec.send)
open Client (Calloc Receiver RecvData SendPath needToSend sendRound recvRound Admission Inbox
  ClientNode HandleTable)
open PythonClient (StupidP2PClient CallEnv Taken runRound)

/-! ## Clients -/

/-- The application at a C client: what its call of `stupid_p2p_recv_data` has stored in
`data_buf`, if one is under way, and what its calls have returned. -/
structure Reader where
  dataBuf : Option (List RecvData)
  returned : List RecvData

/-- The client at the other end of a connection: for the C API what its receive thread
works on, the array of its send thread, and its application. -/
inductive Peer
  | c (receiver : Receiver) (buf : Nat → UInt8) (reader : Reader)
  | python (client : StupidP2PClient)

/-- The table of handles in a process with this one client, whose handle is 1. -/
def tableOf (node : ClientNode) : HandleTable ClientNode :=
  ((HandleTable.initial ClientNode.fresh).stupidP2PInit node).1

/-- What `stupid_p2p_recv_data` works on; `added` is a record of what it has to conserve. -/
def inboxOf (receiver : Receiver) (reader : Reader) : Inbox where
  table := tableOf receiver.node
  dataBuf := reader.dataBuf
  callocs := receiver.callocs
  added := reader.returned ++ reader.dataBuf.getD [] ++ receiver.node.recvDataList
  returned := reader.returned

namespace Peer

/-- The payloads a client has stored for its application, whether it has taken them or not:
what calls of `stupid_p2p_recv_data` have returned, what the call under way has in its array
and what is in the list, or everything that was put into the Python queue. -/
def stored : Peer → List (List UInt8)
  | c receiver _ reader =>
      (reader.returned ++ reader.dataBuf.getD [] ++ receiver.node.recvDataList).map RecvData.data
  | python client => client.recvThread.recvDataQueue

/-- The most bytes one call of `recv` asks for. -/
def recvLimit : Peer → Nat
  | c _ _ _ => 4096
  | python _ => 1024

/-- The buffer an admitted call has queued. -/
def queuedMessage : Admission → List Message
  | .refused _ => []
  | .queued _ sendData _ => [sendData]

/-- A call of the C API; returns the message it has queued. -/
def call (malloc : Bool) (fd : Int) (command : UInt8) (data : List UInt8) :
    Peer → Option (Peer × List Message)
  | c receiver buf reader =>
      (needToSend (some receiver.node) (fun _ => malloc) fd command data data.length).map
        fun admission =>
          (c { receiver with node := (SendPath.afterCall ⟨receiver.node, buf⟩ admission).node }
            buf reader, queuedMessage admission)
  | python _ => none

/-- A round of the send thread of the C client; returns the bytes it transmits. -/
def transmit : Peer → Option (Peer × List UInt8)
  | c receiver buf reader =>
      (sendRound receiver.node buf).map fun (node, buf, bytes) =>
        (c { receiver with node := node } buf reader, bytes)
  | python _ => none

/-- `__sendCommand` of the Python client, up to its polling loop; returns the bytes that
`sock.send` has taken. -/
def sendCommand (code : ProtocolCode) (data : List UInt8) (env : CallEnv) :
    Peer → Option (Peer × List UInt8)
  | c _ _ _ => none
  | python client =>
      let outcome := client.sendCommand code data env
      let bytes :=
        match env.sock with
        | .sent count => (outcome.offered.getD []).take count
        | .error => []
      some (python outcome.client, bytes)

/-- A round of the receive thread that reads these bytes. -/
def recv (calloc : Calloc) (consumed : Taken) (bytes : List UInt8) : Peer → Option Peer
  | c receiver buf reader =>
      (recvRound calloc receiver (.chunk bytes)).map fun receiver => c receiver buf reader
  | python client =>
      (runRound consumed client.recvThread (.data bytes)).map fun thread =>
        python { client with recvThread := thread }

/-- The C client after a step of `stupid_p2p_recv_data`. -/
def ofInbox (receiver : Receiver) (buf : Nat → UInt8) (inbox : Inbox) : Peer :=
  c { receiver with
      callocs := inbox.callocs
      node := { receiver.node with recvDataList := inbox.queue 1 } }
    buf ⟨inbox.dataBuf, inbox.returned⟩

/-- `stupid_p2p_recv_data` up to its loop. -/
def recvDataCall (calloc : Calloc) : Peer → Option Peer
  | c receiver buf reader =>
      some (ofInbox receiver buf ((inboxOf receiver reader).call calloc 1))
  | python _ => none

/-- One round of the loop of `stupid_p2p_recv_data`, and what follows if it is the last.
`data_buf` has 1024 entries. -/
def recvDataRound (calloc : Calloc) : Peer → Option Peer
  | c receiver buf reader =>
      reader.dataBuf.bind fun dataBuf =>
        let (inbox, indices) := (inboxOf receiver reader).round calloc 1 dataBuf
        if indices.all (fun i => decide (i < 1024)) then some (ofInbox receiver buf inbox)
        else none
  | python _ => none

end Peer

/-! ## The server and its sockets -/

/-- The server while it handles the messages of one read, and the bytes under way to each
client.  `none` stands for a state after undefined behaviour. -/
structure Serving where
  server : P2PServer
  toClient : Conn → List UInt8

/-- What muduo writes to a connection for these calls of `LengthHeaderCodec::send`. -/
def writtenBytes (σ : P2PServer) (sends : List CodecSend) (conn : Conn) : List UInt8 :=
  if σ.connected conn then
    (sends.filter fun send => decide (send.conn = conn)).flatMap
      fun send => LengthHeaderCodec.send send.message
  else []

/-- The callback of the codec: `p2pServer::onMessage`. -/
def handle (conn : Conn) (time : Int) (s : Option Serving) (message : Message) :
    Option Serving :=
  s.bind fun s =>
    (s.server.onMessage conn message time).map fun (server, sends) =>
      ⟨server, fun c => s.toClient c ++ writtenBytes server sends c⟩

/-- `conn->shutdown()`, called by the codec. -/
def shutdown (conn : Conn) (s : Option Serving) : Option Serving :=
  s.map fun s => { s with server := s.server.shutdown conn }

/-! ## The system -/

/-- What is fixed in a run: the idle limit, which clients use the Python API, how `calloc`
answers each C client, and how the Python applications empty their queues. -/
structure Setting where
  idleSeconds : Int
  usesPython : Conn → Bool
  calloc : Conn → Calloc
  consumed : Conn → Taken

/-- The system, with a record of the messages each client was asked to send and of the
bytes each client has read. -/
structure World where
  server : P2PServer
  inputBuffer : Conn → Buffer
  toServer : Conn → List UInt8
  toClient : Conn → List UInt8
  peer : Conn → Peer
  accepted : Conn → List Message
  arrived : Conn → List UInt8

namespace World

def initial (setting : Setting) : World where
  server := P2PServer.initial
  inputBuffer := fun _ => Buffer.ofSize Server.kInitialSize
  toServer := fun _ => []
  toClient := fun _ => []
  peer := fun conn =>
    if setting.usesPython conn then .python .connected
    else .c .fresh (fun _ => 0) ⟨none, []⟩
  accepted := fun _ => []
  arrived := fun _ => []

end World

inductive WorldEvent
  /-- The server's side of the connection comes up. -/
  | up (conn : Conn) (now : Int)
  /-- The server finds the connection closed. -/
  | down (conn : Conn)
  | timer (now : Int) (lock : Conn → Bool)
  /-- The server reads so many of the bytes that wait. -/
  | read (conn : Conn) (count : Nat) (time : Int)
  /-- A call of the C API, with the answer of `malloc`. -/
  | call (conn : Conn) (malloc : Bool) (fd : Int) (command : UInt8) (data : List UInt8)
  /-- The send thread of a C client takes a round. -/
  | transmit (conn : Conn)
  /-- A call of the Python API. -/
  | command (conn : Conn) (code : ProtocolCode) (data : List UInt8) (env : CallEnv)
  /-- A client reads so many of the bytes that wait. -/
  | recv (conn : Conn) (count : Nat)
  /-- The application at a C client calls `stupid_p2p_recv_data`. -/
  | recvDataCall (conn : Conn)
  /-- That call takes a round of its loop. -/
  | recvDataRound (conn : Conn)

namespace World

/-- A step of the server alone; only messages make it write. -/
def serverStep (setting : Setting) (w : World) (event : Server.Event) : Option World :=
  (Server.exec setting.idleSeconds w.server event).map fun (server, _) =>
    { w with server := server }

/-- The server reads from a connection and handles the messages that are complete. -/
def serverRead (w : World) (conn : Conn) (count : Nat) (time : Int) : Option World :=
  (Server.BufferedCodec.read (handle conn time) (shutdown conn)
    (w.inputBuffer conn, some ⟨w.server, w.toClient⟩) ((w.toServer conn).take count)).bind
      fun (buffer, served) => served.map fun served =>
        { w with
          server := served.server
          inputBuffer := Function.update w.inputBuffer conn buffer
          toServer := Function.update w.toServer conn ((w.toServer conn).drop count)
          toClient := served.toClient }

def setPeer (w : World) (conn : Conn) (peer : Peer) : World :=
  { w with peer := Function.update w.peer conn peer }

/-- The client accepts messages for the server. -/
def accept (w : World) (conn : Conn) (messages : List Message) : World :=
  { w with accepted := Function.update w.accepted conn (w.accepted conn ++ messages) }

/-- The client puts bytes on their way. -/
def write (w : World) (conn : Conn) (bytes : List UInt8) : World :=
  { w with toServer := Function.update w.toServer conn (w.toServer conn ++ bytes) }

/-- The client takes so many of the bytes under way to it. -/
def deliver (w : World) (conn : Conn) (count : Nat) : World :=
  { w with
    toClient := Function.update w.toClient conn ((w.toClient conn).drop count)
    arrived := Function.update w.arrived conn
      (w.arrived conn ++ (w.toClient conn).take count) }

/-- One event handled to its end. -/
def exec (setting : Setting) (w : World) : WorldEvent → Option World
  | .up conn now => w.serverStep setting (.up conn now)
  | .down conn => w.serverStep setting (.down conn)
  | .timer now lock => w.serverStep setting (.timer now lock)
  | .read conn count time => w.serverRead conn count time
  | .call conn malloc fd command data =>
      ((w.peer conn).call malloc fd command data).map fun (peer, messages) =>
        (w.setPeer conn peer).accept conn messages
  | .transmit conn =>
      (w.peer conn).transmit.map fun (peer, bytes) => (w.setPeer conn peer).write conn bytes
  | .command conn code data env =>
      ((w.peer conn).sendCommand code data env).map fun (peer, bytes) =>
        ((w.setPeer conn peer).write conn bytes).accept conn
          (if bytes = [] then [] else [code.toByte :: data])
  | .recv conn count =>
      ((w.peer conn).recv (setting.calloc conn) (setting.consumed conn)
        ((w.toClient conn).take count)).map fun peer =>
          (w.deliver conn count).setPeer conn peer
  | .recvDataCall conn =>
      ((w.peer conn).recvDataCall (setting.calloc conn)).map (w.setPeer conn)
  | .recvDataRound conn =>
      ((w.peer conn).recvDataRound (setting.calloc conn)).map (w.setPeer conn)

end World

/-- What the surroundings see to: muduo's order of events, reads of what is there, and calls
within the limits of the clients. -/
def networkEnabled (w : World) : WorldEvent → Prop
  | .up conn now => Server.enabled w.server (.up conn now)
  | .down conn => Server.enabled w.server (.down conn)
  | .timer now lock => Server.enabled w.server (.timer now lock)
  | .read conn count _ =>
      w.server.live conn = true ∧ 1 ≤ count ∧ count ≤ (w.toServer conn).length
  | .call conn _ fd command data =>
      (∃ receiver buf reader, w.peer conn = .c receiver buf reader ∧
        receiver.node.sendFifo.HasUnusedSlot) ∧
        0 < fd ∧ (Client.commandCode command).isSome = true ∧ data.length ≤ 256
  | .transmit conn => ∃ receiver buf reader, w.peer conn = .c receiver buf reader
  | .command conn _ data env =>
      (∃ client, w.peer conn = .python client) ∧ data.length < 2048 ∧
        (env.sock = .error ∨ env.sock = .sent (data.length + 5))
  | .recv conn count =>
      1 ≤ count ∧ count ≤ (w.toClient conn).length ∧ count ≤ (w.peer conn).recvLimit
  | .recvDataCall conn =>
      ∃ receiver buf reader, w.peer conn = .c receiver buf reader ∧ reader.dataBuf = none
  | .recvDataRound conn =>
      ∃ receiver buf reader, w.peer conn = .c receiver buf reader ∧ reader.dataBuf ≠ none

/-- The system in a given setting. -/
def network (setting : Setting) : Machine World WorldEvent Unit where
  init := World.initial setting
  enabled := networkEnabled
  exec w event := (w.exec setting event).map fun w => (w, ())

end Interop
end StupidP2P
