import StupidP2P.Client.SendCommand
import StupidP2P.Foundation.Machine

/-!
# Callers, connection and server

A call of the API stores "not received" in the flag of its command, queues its frame,
and polls the flag.  Answers carry the code of the command only, and the receive thread
stores them in the same flag.  Callers, send thread, server and receive thread take their
steps in any order, each access to the flag being a step of its own, and messages stay on
the way for as long as they like.

Each frame carries the number of its call.  Nothing the code does depends on it.
-/

namespace StupidP2P
namespace Client

open Foundation
open Server (ProtocolCode CallBackStatus)

/-! ## The parties -/

/-- `CALL_BACK_SUCCESS`. -/
def callBackSuccess : UInt8 := 0x01

/-- The number of polls after which `waitting_flag_and_return` gives up. -/
def waiting3s : Nat := 300

/-- Where a call of `need_to_send` stands. -/
inductive CallPhase
  | idle
  /-- The flag is stored, the buffer is not pushed yet. -/
  | flagged (code : ProtocolCode) (data : List UInt8)
  /-- In the loop of `waitting_flag_and_return`. -/
  | waiting (code : ProtocolCode) (repeats : Nat)
  /-- Behind the loop, before the comparison with `CALL_BACK_SUCCESS`. -/
  | leaving (code : ProtocolCode)
  /-- Before the comparison with `CALL_BACK_NOT_RECEIVE`. -/
  | asking (code : ProtocolCode)
  | returned (code : ProtocolCode) (result : StupidP2PResult)
deriving DecidableEq

/-- A buffer of the send fifo, with the call it belongs to. -/
structure Request where
  call : Nat
  code : ProtocolCode
  data : List UInt8
deriving DecidableEq

def Request.message (request : Request) : List UInt8 :=
  request.code.toByte :: request.data

/-- The server's callback to a request. -/
structure Reply where
  call : Nat
  code : ProtocolCode
  result : CallBackStatus
deriving DecidableEq

/-- The frame `callbackFunc` sends. -/
def Reply.frame (reply : Reply) : List UInt8 :=
  [reply.code.toByte ||| Server.callBackMask, reply.result.toByte]

/-- The flags and the send fifo of a client, what is on the way, the calls, and a record
of what the server answered to each. -/
structure Exchange where
  status : RealtimeCommandStatus
  sendFifo : SendCommandFifo Request
  toServer : List Request
  toClient : List Reply
  phase : Nat → CallPhase
  answer : Nat → Option CallBackStatus

inductive ExchangeEvent
  | enter (call : Nat) (code : ProtocolCode) (data : List UInt8)
  | push (call : Nat)
  | poll (call : Nat)
  | compareSuccess (call : Nat)
  | compareNotReceive (call : Nat)
  /-- The send thread transmits the oldest command. -/
  | transmit
  /-- The server answers the oldest request. -/
  | serve (result : CallBackStatus)
  /-- The receive thread executes the oldest callback. -/
  | receive
deriving DecidableEq

namespace Exchange

def start : Exchange where
  status := .zero
  sendFifo := sendCommandFifoInit
  toServer := []
  toClient := []
  phase := fun _ => .idle
  answer := fun _ => none

def setPhase (s : Exchange) (call : Nat) (phase : CallPhase) : Exchange :=
  { s with phase := Function.update s.phase call phase }

/-- A callback, as the parser executes it. -/
def execCallBack (status : RealtimeCommandStatus) (frame : List UInt8) :
    RealtimeCommandStatus :=
  match callBackCode (frame.headD 0) with
  | some code => status.setFlag code (callBackFlag (frame.getD 1 0))
  | none => status

/-- Reset the flag of the command. -/
def enterCall (s : Exchange) (call : Nat) (code : ProtocolCode) (data : List UInt8) :
    Exchange :=
  { s with status := s.status.setFlag code callBackNotReceive }.setPhase call
    (.flagged code data)

/-- Push the buffer and start to wait. -/
def pushRequest (s : Exchange) (request : Request) : Exchange :=
  { s with
    sendFifo := (sendCommandFifoPush s.sendFifo request request.message.length).1 }.setPhase
      request.call (.waiting request.code 0)

def transmitRequest (s : Exchange) (request : Request) : Exchange :=
  { s with
    sendFifo := (sendCommandFifoPop s.sendFifo).1
    toServer := s.toServer ++ [request] }

/-- The server answers `request`, and `rest` is left. -/
def serveRequest (s : Exchange) (request : Request) (rest : List Request)
    (result : CallBackStatus) : Exchange :=
  { s with
    toServer := rest
    toClient := s.toClient ++ [⟨request.call, request.code, result⟩]
    answer := Function.update s.answer request.call (some result) }

/-- The receive thread executes `reply`, and `rest` is left. -/
def receiveReply (s : Exchange) (reply : Reply) (rest : List Reply) : Exchange :=
  { s with
    status := execCallBack s.status reply.frame
    toClient := rest }

/-- One step; `none` if the party is not at that point. -/
def exec (s : Exchange) : ExchangeEvent → Option Exchange
  | .enter call code data =>
      match s.phase call with
      | .idle => some (s.enterCall call code data)
      | _ => none
  | .push call =>
      match s.phase call with
      | .flagged code data => some (s.pushRequest ⟨call, code, data⟩)
      | _ => none
  | .poll call =>
      match s.phase call with
      | .waiting code repeats =>
          -- The condition under which the loop breaks; otherwise it sleeps 10 ms.
          if s.status.flag code ≠ callBackNotReceive ∨ repeats ≥ waiting3s then
            some (s.setPhase call (.leaving code))
          else some (s.setPhase call (.waiting code (repeats + 1)))
      | _ => none
  | .compareSuccess call =>
      match s.phase call with
      | .leaving code =>
          -- The flag is read again: it may have changed since the loop.
          if s.status.flag code = callBackSuccess then
            some (s.setPhase call (.returned code .noError))
          else some (s.setPhase call (.asking code))
      | _ => none
  | .compareNotReceive call =>
      match s.phase call with
      | .asking code =>
          -- And a third time.
          if s.status.flag code = callBackNotReceive then
            some (s.setPhase call (.returned code .netError))
          else some (s.setPhase call (.returned code .errorCommond))
      | _ => none
  | .transmit =>
      if sendCommandFifoEmpty s.sendFifo then none
      else
        match (sendCommandFifoTop s.sendFifo).data with
        | none => none
        | some request => some (s.transmitRequest request)
  | .serve result =>
      match s.toServer with
      | [] => none
      | request :: rest => some (s.serveRequest request rest result)
  | .receive =>
      match s.toClient with
      | [] => none
      | reply :: rest => some (s.receiveReply reply rest)

end Exchange

def exchangeMachine : Machine Exchange ExchangeEvent Unit where
  init := .start
  enabled s event := (s.exec event).isSome = true
  exec s event := (s.exec event).map fun next => (next, ())

/-- A call that reports success was answered with `EXEC_SUCCESS`, and one that reports an
error with `EXEC_FAIL`. -/
def AnswersItsCall (s : Exchange) : Prop :=
  ∀ call code,
    (s.phase call = .returned code .noError → s.answer call = some .execSuccess) ∧
      (s.phase call = .returned code .errorCommond → s.answer call = some .execFail)

/-! ## One call at a time -/

/-- The command of a call that has pushed its buffer and not returned yet. -/
def CallPhase.pushed? : CallPhase → Option ProtocolCode
  | waiting code _ => some code
  | leaving code => some code
  | asking code => some code
  | _ => none

/-- The command of a call in progress. -/
def CallPhase.active? : CallPhase → Option ProtocolCode
  | flagged code _ => some code
  | phase => phase.pushed?

/-- The command of a call that has pushed its buffer, also if it has returned since. -/
def CallPhase.sent? : CallPhase → Option ProtocolCode
  | returned code _ => some code
  | phase => phase.pushed?

def Request.tag (request : Request) : Nat × ProtocolCode := (request.call, request.code)

def Reply.tag (reply : Reply) : Nat × ProtocolCode := (reply.call, reply.code)

namespace Exchange

/-- The requests waiting for the send thread. -/
def pending (s : Exchange) : List Request :=
  s.sendFifo.pending.filterMap NetWorkCommand.data

/-- Everything on the way when `queue` waits in the fifo, the oldest first. -/
def onTheWay (s : Exchange) (queue : List Request) : List (Nat × ProtocolCode) :=
  s.toClient.map Reply.tag ++ (s.toServer ++ queue).map Request.tag

/-- No call of the command is in progress, and nothing of it is on the way. -/
def Free (s : Exchange) (code : ProtocolCode) : Prop :=
  (∀ call, (s.phase call).active? ≠ some code) ∧
    code ∉ (s.onTheWay s.pending).map Prod.snd

end Exchange

/-- A call starts only when its command is free, and a success is not received while a
call of the command is between its last two looks at the flag. -/
def OneCallAtATime (s : Exchange) : ExchangeEvent → Prop
  | .enter _ code _ => s.Free code
  | .receive =>
      ∀ reply ∈ s.toClient.head?, reply.result = .execSuccess →
        ∀ call, s.phase call ≠ .asking reply.code
  | _ => True

end Client
end StupidP2P
