import StupidP2P.Foundation.Deque
import StupidP2P.Server.Model

/-!
# The receive thread of the Python client

A shallow embedding of `clientRecvThread.run`, under the names of the source.  The
thread feeds `_recvDeque` on the left with what `recv` returns and takes bytes from
the right.  An `IndexError` from `pop` on an empty deque is `none`.

`recvDataQueue` is emptied by other threads.  The model keeps every message that was
ever put and asks a parameter how many of them were taken before the `k`-th call of
`full()`.
-/

namespace StupidP2P
namespace PythonClient

open Foundation
open Server (ProtocolCode)

/-- How many messages other threads have taken before the `k`-th call of `full()`. -/
abbrev Taken := Nat → Nat

/-- `__commandHeaderLength`. -/
def commandHeaderLength : Nat := 4

/-- The `maxsize` of `recvDataQueue`. -/
def recvDataQueueMax : Nat := 4096

/-- `__notReceiveResponse`. -/
def notReceiveResponse : UInt8 := 0xff

/-- The command a response answers, as `run` compares them. -/
def responseCode (command : UInt8) : Option ProtocolCode :=
  if command = 0x81 then some .registerDevice
  else if command = 0x82 then some .subscribeDevice
  else if command = 0x83 then some .sendData
  else if command = 0x84 then some .unregisterDevice
  else if command = 0x85 then some .unsubscribeDevice
  else if command = 0x86 then some .checkDeviceAlive
  else if command = 0x87 then some .heartBeat
  else none

/-- `int.from_bytes(headerBytes, "big")`. -/
def fromBytesBig (headerBytes : List UInt8) : Nat :=
  headerBytes.foldl (fun value byte => value * 256 + byte.toNat) 0

/-- `value.to_bytes(4, 'little')`. -/
def toBytesLittle (value : Nat) : List UInt8 :=
  [UInt8.ofNat value, UInt8.ofNat (value / 256), UInt8.ofNat (value / 65536),
    UInt8.ofNat (value / 16777216)]

/-- The fields of `clientRecvThread` that `run` works on. -/
structure ClientRecvThread where
  recvDeque : Deque UInt8
  /-- The entries of `commandResponse` at the indices of the commands. -/
  commandResponse : ProtocolCode → UInt8
  /-- All messages put into the queue so far, also those taken out since. -/
  recvDataQueue : List (List UInt8)
  fullCalls : Nat

namespace ClientRecvThread

/-- `__init__`. -/
def initial : ClientRecvThread where
  recvDeque := Deque.empty
  commandResponse := fun _ => notReceiveResponse
  recvDataQueue := []
  fullCalls := 0

def setDeque (t : ClientRecvThread) (deque : Deque UInt8) : ClientRecvThread :=
  { t with recvDeque := deque }

/-- Store the byte `__getCommandResponse` pops. -/
def getCommandResponse (t : ClientRecvThread) (code : ProtocolCode) :
    Option ClientRecvThread :=
  match t.recvDeque.pop with
  | none => none
  | some (response, deque) =>
      some { t with
        recvDeque := deque
        commandResponse := Function.update t.commandResponse code response }

/-- `recvDataQueue.full()`. -/
def full (taken : Taken) (t : ClientRecvThread) : Bool :=
  decide (recvDataQueueMax ≤ t.recvDataQueue.length - taken t.fullCalls)

/-- Put the message into the queue unless it is full. -/
def putData (taken : Taken) (t : ClientRecvThread) (data : List UInt8) : ClientRecvThread :=
  if t.full taken then { t with fullCalls := t.fullCalls + 1 }
  else
    { t with
      recvDataQueue := t.recvDataQueue ++ [data]
      fullCalls := t.fullCalls + 1 }

/-- The chain of comparisons on `command`: the new `popLength` and the thread. -/
def execCommand (taken : Taken) (headerLength : Nat) (command : UInt8)
    (t : ClientRecvThread) : Option (Nat × ClientRecvThread) :=
  match responseCode command with
  | some code => (t.getCommandResponse code).map fun t => (2, t)
  | none =>
      if command = 0x03 then
        match t.recvDeque.popN (headerLength - 1) with
        | none => none
        | some (data, deque) => some (headerLength, (t.setDeque deque).putData taken data)
      else
        -- "TODO: unknown command"
        some (1, t)

/-- Take a frame whose body is there, and drop what its command did not pop. -/
def takeFrame (taken : Taken) (headerLength : Nat) (t : ClientRecvThread) :
    Option ClientRecvThread :=
  match t.recvDeque.pop with
  | none => none
  | some (command, deque) =>
      match execCommand taken headerLength command (t.setDeque deque) with
      | none => none
      | some (popLength, t) =>
          (t.recvDeque.popN (headerLength - popLength)).map fun (_, deque) => t.setDeque deque

/-- The inner loop of `run`, for at most `fuel` rounds. -/
def parseLoop (taken : Taken) : Nat → ClientRecvThread → Option ClientRecvThread
  | 0, _ => none
  | fuel + 1, t =>
      if t.recvDeque.length > commandHeaderLength then
        match t.recvDeque.popN commandHeaderLength with
        | none => none
        | some (headerBytes, deque) =>
            let headerLength := fromBytesBig headerBytes
            if deque.length ≥ headerLength then
              match takeFrame taken headerLength (t.setDeque deque) with
              | none => none
              | some t => parseLoop taken fuel t
            else
              -- The header goes back in the opposite byte order.
              some (t.setDeque (deque.extend (toBytesLittle headerLength)))
      else some t

/-- Every round takes at least five bytes, so this is fuel enough. -/
def parse (taken : Taken) (t : ClientRecvThread) : Option ClientRecvThread :=
  parseLoop taken (t.recvDeque.length + 1) t

end ClientRecvThread

/-- What `sock.recv(1024)` comes to. -/
inductive RecvOutcome
  | data (recvData : List UInt8)
  | timeout
  | error

open ClientRecvThread in
/-- One round of the outer loop of `run`. -/
def runRound (taken : Taken) (t : ClientRecvThread) : RecvOutcome → Option ClientRecvThread
  | .data recvData =>
      if recvData.length ≠ 0 then parse taken (t.setDeque (t.recvDeque.extendleft recvData))
      else parse taken t
  | .timeout => some t
  | .error => some t

/-- `run` over a sequence of outcomes of `recv`. -/
def run (taken : Taken) (t : ClientRecvThread) (outcomes : List RecvOutcome) :
    Option ClientRecvThread :=
  outcomes.foldlM (runRound taken) t

end PythonClient
end StupidP2P
