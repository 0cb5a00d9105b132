import StupidP2P.Foundation.Framing
import StupidP2P.Foundation.Ring

/-!
# The records of the C client

A shallow embedding of the data structures of `netWork.h` and of the functions on
them, under the names they have there:

* `RecvDataFifo`, the ring of received bytes that are not parsed yet;
* `SendCommandFifo`, the ring of commands waiting for the send thread;
* the list of received messages, oldest first;
* `RealtimeCommandStatus`, the result of the last answer to each command;
* `ClientNode`, one client with all of these.

The two rings keep pointers into their arrays, which are positions here, and count
what they hold in an `int32_t`.  Buffers on the heap are values of a type of their
own, and an operation that frees some returns them.
-/

namespace StupidP2P
namespace Client

open Foundation

/-- The result codes of the API. -/
inductive StupidP2PResult
  | noError
  | errorCommond
  | badParam
  | memoryError
  | restarting
  | netError
deriving DecidableEq, Repr

/-- `NET_READ_DATA_LENGTH`. -/
abbrev netReadDataLength : Nat := 8192

/-- `NET_SEND_COMMAND_NUM`. -/
abbrev netSendCommandNum : Nat := 8192

/-! ## Received bytes -/

/-- `net_work_recv_data_fifo_t`. -/
structure RecvDataFifo where
  ring : Ring netReadDataLength UInt8
  length : Int

/-- `recv_data_fifo_init`: the positions and the count are reset, the bytes stay. -/
def recvDataFifoInit (data : Nat → UInt8) : RecvDataFifo where
  ring := Ring.start data (by decide)
  length := 0

def recvDataFifoPush (fifo : RecvDataFifo) (data : List UInt8) (length : Int) :
    RecvDataFifo where
  ring := (data.take length.toNat).foldl Ring.write fifo.ring
  length := wrap32 (fifo.length + length)

def recvDataFifoPop (fifo : RecvDataFifo) (length : Int) : RecvDataFifo where
  ring := Ring.skip^[length.toNat] fifo.ring
  length := wrap32 (fifo.length - length)

def recvDataFifoTop (fifo : RecvDataFifo) : UInt8 :=
  fifo.ring.front

/-- One round of the loop of `recv_data_fifo_top_int`, on the sum and the pointer. -/
def topIntRound (fifo : RecvDataFifo) (state : Int × Nat) (i : Nat) : Int × Nat :=
  (wrap32 (state.1 + (fifo.ring.cells state.2).toNat * 2 ^ (i * 8)),
    Ring.advance netReadDataLength state.2)

def recvDataFifoTopInt (fifo : RecvDataFifo) : Int :=
  ([3, 2, 1, 0].foldl (topIntRound fifo) (0, fifo.ring.r)).1

/-! ## Commands to send -/

/-- `net_work_command_t`; `data` is `none` for a null pointer. -/
structure NetWorkCommand (β : Type) where
  data : Option β
  size : Int

/-- A zeroed slot. -/
def NetWorkCommand.zero {β : Type} : NetWorkCommand β := ⟨none, 0⟩

/-- `net_work_send_command_fifo_t`. -/
structure SendCommandFifo (β : Type) where
  ring : Ring netSendCommandNum (NetWorkCommand β)
  num : Int

section

variable {β : Type}

/-- `send_command_fifo_init` on a zeroed record. -/
def sendCommandFifoInit : SendCommandFifo β where
  ring := Ring.start (fun _ => .zero) (by decide)
  num := 0

/-- Returns the buffers it frees: the one left in the slot, if there is one. -/
def sendCommandFifoPush (fifo : SendCommandFifo β) (data : β) (size : Int) :
    SendCommandFifo β × List β :=
  (⟨fifo.ring.write ⟨some data, size⟩, wrap32 (fifo.num + 1)⟩,
    fifo.ring.behind.data.toList)

def sendCommandFifoEmpty (fifo : SendCommandFifo β) : Bool :=
  decide (fifo.num = 0)

def sendCommandFifoTop (fifo : SendCommandFifo β) : NetWorkCommand β :=
  fifo.ring.front

/-- Frees the buffer of the slot and leaves the pointer in it. -/
def sendCommandFifoPop (fifo : SendCommandFifo β) : SendCommandFifo β × List β :=
  (⟨fifo.ring.skip, wrap32 (fifo.num - 1)⟩, fifo.ring.front.data.toList)

/-- The loop of `send_command_fifo_deinit`; every round takes one command, so
`num` rounds are enough. -/
def sendCommandFifoDeinitLoop : Nat → SendCommandFifo β → SendCommandFifo β × List β
  | 0, fifo => (fifo, [])
  | fuel + 1, fifo =>
      if sendCommandFifoEmpty fifo then (fifo, [])
      else
        let (popped, freed) := sendCommandFifoPop fifo
        let (rest, later) := sendCommandFifoDeinitLoop fuel popped
        (rest, freed ++ later)

def sendCommandFifoDeinit (fifo : SendCommandFifo β) : SendCommandFifo β × List β :=
  sendCommandFifoDeinitLoop fifo.num.toNat fifo

end

/-! ## Received messages -/

/-- `recv_data_t`. -/
structure RecvData where
  length : Int
  data : List UInt8
deriving DecidableEq

/-- `recv_data_list_add`. -/
def recvDataListAdd {α : Type} (list : List α) (node : α) : List α :=
  list ++ [node]

/-- `recv_data_list_return_data`: the message, or a null pointer, and the list. -/
def recvDataListReturnData {α : Type} : List α → Option α × List α
  | [] => (none, [])
  | data :: list => (some data, list)

/-! ## One client -/

/-- `realtime_command_status_t`. -/
structure RealtimeCommandStatus where
  registerFlag : UInt8
  subscribeFlag : UInt8
  sendDataFlag : UInt8
  unregisterFlag : UInt8
  unsubscribeFlag : UInt8
  checkAliveFlag : UInt8
  heartBeatFlag : UInt8
  heartBeatNotReceiveNum : UInt8
deriving DecidableEq

def RealtimeCommandStatus.zero : RealtimeCommandStatus := ⟨0, 0, 0, 0, 0, 0, 0, 0⟩

/-- `struct stupid_p2p_client_node`, without the socket and the threads; its `fd` and
`next` belong to the table of handles. -/
structure ClientNode where
  recvFifo : RecvDataFifo
  sendFifo : SendCommandFifo (List UInt8)
  recvDataList : List RecvData
  needToRestartFlag : Bool
  commandStatus : RealtimeCommandStatus

/-- A node as `stupid_p2p_init` makes it: zeroed, with its three containers
initialised. -/
def ClientNode.fresh : ClientNode where
  recvFifo := recvDataFifoInit fun _ => 0
  sendFifo := sendCommandFifoInit
  recvDataList := []
  needToRestartFlag := false
  commandStatus := .zero

end Client
end StupidP2P
