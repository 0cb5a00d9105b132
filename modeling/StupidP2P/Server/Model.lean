import StupidP2P.Foundation.Machine
import StupidP2P.Foundation.NodeList
import Mathlib.Logic.Function.Basic

/-!
# The relay server

A shallow embedding of `p2pServer`.  The server keeps three kinds of state:

* `connections` (`_connections`), from device ids to the connection that
  registered them;
* `connectionList` (`_connectionList`), the connections that are up, least
  recently heard of first;
* a `ConnInfo` in the context of each connection, with the id it registered, the
  ids it subscribed to and the connections its data is forwarded to.

The functions below carry the names of the member functions they embed.  They
return `none` where the code would follow an iterator to an erased list node or
fail an assertion; everything else is total.  The messages handed to
`LengthHeaderCodec::send` are returned in the order in which they are sent.

The steps are serial: the server runs one I/O thread, and `onTimer` is taken as
atomic.  Of muduo the model uses that a connection comes up once, is then read
until it goes down once, and that `shutdown` only marks it as disconnecting.
-/

namespace StupidP2P
namespace Server

open Foundation

/-- The identity of a `TcpConnection` object. -/
abbrev Conn := Nat

/-- A `muduo::string` naming a device. -/
abbrev DeviceId := List UInt8

/-- A message as the codec delivers it: the command byte and what follows. -/
abbrev Message := List UInt8

/-- The device id `"delete"`, which marks a connection as not registered. -/
def deleteId : DeviceId := [100, 101, 108, 101, 116, 101]

inductive ProtocolCode
  | registerDevice
  | subscribeDevice
  | sendData
  | unregisterDevice
  | unsubscribeDevice
  | checkDeviceAlive
  | heartBeat
deriving DecidableEq, Repr

namespace ProtocolCode

def toByte : ProtocolCode → UInt8
  | registerDevice => 0x01
  | subscribeDevice => 0x02
  | sendData => 0x03
  | unregisterDevice => 0x04
  | unsubscribeDevice => 0x05
  | checkDeviceAlive => 0x06
  | heartBeat => 0x07

/-- The case of the `switch` in `onMessage` a first byte selects. -/
def ofByte (byte : UInt8) : Option ProtocolCode :=
  if byte = 0x01 then some registerDevice
  else if byte = 0x02 then some subscribeDevice
  else if byte = 0x03 then some sendData
  else if byte = 0x04 then some unregisterDevice
  else if byte = 0x05 then some unsubscribeDevice
  else if byte = 0x06 then some checkDeviceAlive
  else if byte = 0x07 then some heartBeat
  else none

end ProtocolCode

/-- `CALL_BACK_MASK`. -/
def callBackMask : UInt8 := 0x80

inductive CallBackStatus
  | execFail
  | execSuccess
deriving DecidableEq, Repr

def CallBackStatus.toByte : CallBackStatus → UInt8
  | execFail => 0x00
  | execSuccess => 0x01

/-- `TcpConnection::StateE`. -/
inductive TcpState
  | kConnecting
  | kConnected
  | kDisconnecting
  | kDisconnected
deriving DecidableEq, Repr

/-- The context of a connection.  Times are microseconds; `position` is the node
of `connectionList` that holds the connection. -/
structure ConnInfo where
  deviceId : DeviceId
  lastReceiveTime : Int
  position : Nat
  subscribeIdList : List DeviceId
  sendToList : NodeList Conn

namespace ConnInfo

/-- Stands in for the empty context of a connection that is not up yet. -/
def blank : ConnInfo where
  deviceId := deleteId
  lastReceiveTime := 0
  position := 0
  subscribeIdList := []
  sendToList := NodeList.empty

def subscribeIdListAdd (info : ConnInfo) (id : DeviceId) : ConnInfo :=
  if id ∈ info.subscribeIdList then info
  else { info with subscribeIdList := info.subscribeIdList ++ [id] }

def sendToListAdd (info : ConnInfo) (conn : Conn) : ConnInfo :=
  if conn ∈ info.sendToList.values then info
  else { info with sendToList := info.sendToList.pushBack conn }

def sendToListRemove (info : ConnInfo) (conn : Conn) : ConnInfo :=
  { info with sendToList := info.sendToList.remove conn }

def sendToListClear (info : ConnInfo) : ConnInfo :=
  { info with sendToList := info.sendToList.clear }

end ConnInfo

/-- The state of the server and of the connections it knows. -/
structure P2PServer where
  connections : DeviceId → Option Conn
  connectionList : NodeList Conn
  context : Conn → ConnInfo
  state : Conn → TcpState

/-- One call of `LengthHeaderCodec::send`. -/
structure CodecSend where
  conn : Conn
  message : Message
deriving DecidableEq, Repr

namespace P2PServer

/-- A server no connection has reached yet. -/
def initial : P2PServer where
  connections := fun _ => none
  connectionList := NodeList.empty
  context := fun _ => ConnInfo.blank
  state := fun _ => .kConnecting

/-- `TcpConnection::connected()`. -/
def connected (σ : P2PServer) (conn : Conn) : Bool :=
  decide (σ.state conn = .kConnected)

/-- Up and not yet down; a connection that was shut down is still read. -/
def live (σ : P2PServer) (conn : Conn) : Bool :=
  decide (σ.state conn = .kConnected ∨ σ.state conn = .kDisconnecting)

/-- Write through the pointer `getConnInfo(conn)`. -/
def modifyInfo (σ : P2PServer) (conn : Conn) (f : ConnInfo → ConnInfo) : P2PServer :=
  { σ with context := Function.update σ.context conn (f (σ.context conn)) }

/-- Make `conn` the value of `_connections` at `deviceId`. -/
def assignConnection (σ : P2PServer) (deviceId : DeviceId) (conn : Conn) : P2PServer :=
  { σ with connections := Function.update σ.connections deviceId (some conn) }

/-- `_connections.erase(deviceId)`. -/
def eraseConnection (σ : P2PServer) (deviceId : DeviceId) : P2PServer :=
  { σ with connections := Function.update σ.connections deviceId none }

def setState (σ : P2PServer) (conn : Conn) (state : TcpState) : P2PServer :=
  { σ with state := Function.update σ.state conn state }

/-- `TcpConnection::shutdown()`: no more is written, reading goes on. -/
def shutdown (σ : P2PServer) (conn : Conn) : P2PServer :=
  if σ.connected conn then σ.setState conn .kDisconnecting else σ

def registerDeviceFunc (σ : P2PServer) (conn : Conn) (deviceId : DeviceId) : P2PServer :=
  let σ := σ.modifyInfo conn fun info => { info with deviceId := deviceId }
  match σ.connections deviceId with
  | some oldConn =>
      -- "register again?"
      if oldConn = conn then σ
      else
        let σ := σ.modifyInfo oldConn fun info => { info with deviceId := deleteId }
        let σ := σ.shutdown oldConn
        σ.assignConnection deviceId conn
  | none => σ.assignConnection deviceId conn

def subscribeDeviceFunc (σ : P2PServer) (conn : Conn) (deviceId : DeviceId) :
    P2PServer × CallBackStatus :=
  match σ.connections deviceId with
  | none => (σ, .execFail)
  | some subscribeConn =>
      if deviceId = (σ.context conn).deviceId then (σ, .execFail)
      else
        let σ := σ.modifyInfo conn fun info => info.subscribeIdListAdd deviceId
        let σ := σ.modifyInfo subscribeConn fun info => info.sendToListAdd conn
        (σ, .execSuccess)

def unsubscribeDeviceFunc (σ : P2PServer) (conn : Conn) (deviceId : DeviceId) : P2PServer :=
  if deviceId ∈ (σ.context conn).subscribeIdList then
    let σ := match σ.connections deviceId with
      | some unsubscribeConn =>
          σ.modifyInfo unsubscribeConn fun info => info.sendToListRemove conn
      | none => σ
    σ.modifyInfo conn fun info =>
      { info with subscribeIdList := info.subscribeIdList.erase deviceId }
  else σ

/-- The `while` loop of `unregisterDeviceFunc`, for at most `fuel` rounds. -/
def unsubscribeAll (conn : Conn) : Nat → P2PServer → P2PServer
  | 0, σ => σ
  | fuel + 1, σ =>
      match (σ.context conn).subscribeIdList with
      | [] => σ
      | deviceId :: _ => unsubscribeAll conn fuel (σ.unsubscribeDeviceFunc conn deviceId)

def unregisterDeviceFunc (σ : P2PServer) (conn : Conn) : P2PServer :=
  let σ := unsubscribeAll conn (σ.context conn).subscribeIdList.length σ
  let σ := σ.modifyInfo conn ConnInfo.sendToListClear
  if (σ.context conn).deviceId = deleteId then σ
  else
    let σ := σ.eraseConnection (σ.context conn).deviceId
    σ.modifyInfo conn fun info => { info with deviceId := deleteId }

def checkDeviceAliveFunc (σ : P2PServer) (deviceId : DeviceId) : CallBackStatus :=
  match σ.connections deviceId with
  | some conn => if σ.connected conn then .execSuccess else .execFail
  | none => .execFail

def heartBeatFunc (σ : P2PServer) (conn : Conn) (time : Int) : Option P2PServer :=
  let σ := σ.modifyInfo conn fun info => { info with lastReceiveTime := time }
  let position := (σ.context conn).position
  match σ.connectionList.spliceToEnd position with
  | none => none
  | some list =>
      -- assert(info->position == --_connectionList.end())
      if list.keys.getLast? = some position then
        some { σ with connectionList := list }
      else none

/-- The loop of `sendDataFunc` over `sendToList`, from an iterator on.  An
iterator is advanced only past a connected receiver; after `erase` it is used
again as it stands. -/
def sendDataLoop (σ : P2PServer) (message : Message) :
    Nat → NodeList Conn → Cursor → Option (NodeList Conn × List CodecSend)
  | 0, _, _ => none
  | _ + 1, list, .finish => some (list, [])
  | fuel + 1, list, .node key =>
      match list.deref key with
      | none => none
      | some receiver =>
          if σ.connected receiver then
            match list.next key with
            | none => none
            | some cursor =>
                (sendDataLoop σ message fuel list cursor).map fun (list, sends) =>
                  (list, ⟨receiver, message⟩ :: sends)
          else
            match list.erase key with
            | none => none
            | some (list, _) => sendDataLoop σ message fuel list (.node key)

def sendDataFunc (σ : P2PServer) (conn : Conn) (message : Message) :
    Option (P2PServer × List CodecSend) :=
  let list := (σ.context conn).sendToList
  (sendDataLoop σ message (list.nodes.length + 1) list list.start).map
    fun (list, sends) => (σ.modifyInfo conn fun info => { info with sendToList := list }, sends)

def callbackFunc (conn : Conn) (command : ProtocolCode) (result : CallBackStatus) :
    CodecSend :=
  ⟨conn, [command.toByte ||| callBackMask, result.toByte]⟩

/-- `message[0]` of an empty `std::string` is the terminating zero. -/
def onMessage (σ : P2PServer) (conn : Conn) (message : Message) (time : Int) :
    Option (P2PServer × List CodecSend) :=
  let deviceId := message.drop 1
  match ProtocolCode.ofByte (message.headD 0) with
  | some .registerDevice =>
      some (σ.registerDeviceFunc conn deviceId,
        [callbackFunc conn .registerDevice .execSuccess])
  | some .subscribeDevice =>
      let (σ, result) := σ.subscribeDeviceFunc conn deviceId
      some (σ, [callbackFunc conn .subscribeDevice result])
  | some .sendData =>
      (σ.sendDataFunc conn message).map fun (σ, sends) =>
        (σ, sends ++ [callbackFunc conn .sendData .execSuccess])
  | some .unregisterDevice =>
      some (σ.unregisterDeviceFunc conn,
        [callbackFunc conn .unregisterDevice .execSuccess])
  | some .unsubscribeDevice =>
      some (σ.unsubscribeDeviceFunc conn deviceId,
        [callbackFunc conn .unsubscribeDevice .execSuccess])
  | some .checkDeviceAlive =>
      some (σ, [callbackFunc conn .checkDeviceAlive (σ.checkDeviceAliveFunc deviceId)])
  | some .heartBeat =>
      (σ.heartBeatFunc conn time).map fun σ =>
        (σ, [callbackFunc conn .heartBeat .execSuccess])
  | none => some (σ, [])

/-- `onConnection`, called after muduo has set the state of the connection. -/
def onConnection (σ : P2PServer) (conn : Conn) (now : Int) : Option P2PServer :=
  if σ.connected conn then
    let position := σ.connectionList.supply
    let σ := { σ with connectionList := σ.connectionList.pushBack conn }
    some (σ.modifyInfo conn fun _ =>
      { ConnInfo.blank with lastReceiveTime := now, position := position })
  else
    (σ.connectionList.erase (σ.context conn).position).map fun (list, _) =>
      unregisterDeviceFunc { σ with connectionList := list } conn

/-- The loop of `onTimer`, from an iterator on.  `lock` says which weak pointers
still have their connection. -/
def onTimerLoop (idleSeconds now : Int) (lock : Conn → Bool) :
    Nat → P2PServer → Cursor → Option P2PServer
  | 0, _, _ => none
  | _ + 1, σ, .finish => some σ
  | fuel + 1, σ, .node key =>
      match σ.connectionList.deref key with
      | none => none
      | some conn =>
          if lock conn then
            let age := now - (σ.context conn).lastReceiveTime
            if age > idleSeconds * 1000000 then
              let σ := σ.shutdown conn
              match σ.connectionList.next key with
              | none => none
              | some cursor => onTimerLoop idleSeconds now lock fuel σ cursor
            else if age < 0 then
              let σ := σ.modifyInfo conn fun info => { info with lastReceiveTime := now }
              match σ.connectionList.next key with
              | none => none
              | some cursor => onTimerLoop idleSeconds now lock fuel σ cursor
            else some σ
          else
            -- "conn has expired": the loop's `it++` follows the assignment `it = erase(it)`
            match σ.connectionList.erase key with
            | none => none
            | some (_, .finish) => none
            | some (list, .node behind) =>
                match list.next behind with
                | none => none
                | some cursor =>
                    onTimerLoop idleSeconds now lock fuel
                      { σ with connectionList := list } cursor

def onTimer (idleSeconds now : Int) (lock : Conn → Bool) (σ : P2PServer) : Option P2PServer :=
  onTimerLoop idleSeconds now lock (σ.connectionList.nodes.length + 1) σ
    σ.connectionList.start

end P2PServer

/-- What can happen to the server next. -/
inductive Event
  /-- muduo reports a new connection; `now` is the clock. -/
  | up (conn : Conn) (now : Int)
  /-- muduo reports that a connection is closed. -/
  | down (conn : Conn)
  /-- The codec delivers one message. -/
  | message (conn : Conn) (message : Message) (time : Int)
  /-- The codec meets a length outside its range and shuts the connection down. -/
  | invalidLength (conn : Conn)
  /-- The timer fires. -/
  | timer (now : Int) (lock : Conn → Bool)

/-- What muduo guarantees about the order of events.  TcpServer keeps a
connection alive until it is down, so its weak pointers can be locked. -/
def enabled (σ : P2PServer) : Event → Prop
  | .up conn _ => σ.state conn = .kConnecting
  | .down conn => σ.live conn = true
  | .message conn _ _ => σ.live conn = true
  | .invalidLength conn => σ.live conn = true
  | .timer _ lock => ∀ conn, σ.live conn = true → lock conn = true

/-- One event handled to its end. -/
def exec (idleSeconds : Int) (σ : P2PServer) : Event → Option (P2PServer × List CodecSend)
  | .up conn now => ((σ.setState conn .kConnected).onConnection conn now).map (·, [])
  | .down conn => ((σ.setState conn .kDisconnected).onConnection conn 0).map (·, [])
  | .message conn message time => σ.onMessage conn message time
  | .invalidLength conn => some (σ.shutdown conn, [])
  | .timer now lock => (P2PServer.onTimer idleSeconds now lock σ).map (·, [])

/-- The server with a given idle limit, driven by the network and the clock. -/
def machine (idleSeconds : Int) : Machine P2PServer Event (List CodecSend) where
  init := P2PServer.initial
  enabled := enabled
  exec := exec idleSeconds

end Server
end StupidP2P
