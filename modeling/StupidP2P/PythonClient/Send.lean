import StupidP2P.PythonClient.Model
import StupidP2P.Foundation.Framing
import Mathlib.Data.List.Induction

/-!
# The calls of the Python client

A shallow embedding of `__send`, `__sendCommand` and the methods of `stupidP2PClient` that
send a command, under the names of the source.  A string is encoded as UTF-8, the command
byte goes in front of it, and `__send` puts the length in front of that.

A call can raise an exception: `bytes(…, encoding="UTF-8")` for a surrogate, `to_bytes(4, 'big')`
for a length of more than four bytes.  What `sock.send` comes to, and what the polling loop
reads from `commandResponse` while the receive thread works, are parameters.
-/

namespace StupidP2P
namespace PythonClient

open Foundation
open Foundation.Framing
open Server (ProtocolCode)

/-! ## Strings -/

/-- A character of a Python string: any code point, also a surrogate. -/
abbrev CodePoint := Fin 1114112

/-- A Python `str`. -/
abbrev PyString := List CodePoint

inductive PyError
  | unicodeEncodeError
  | overflowError
deriving DecidableEq

/-- The character of a code point that is not a surrogate. -/
def toChar (c : CodePoint) : Option Char :=
  if h : c.val.isValidChar then some (Char.ofNatAux c.val h) else none

/-- `bytes(string, encoding="UTF-8")`. -/
def encodeUtf8 : PyString → Except PyError (List UInt8)
  | [] => .ok []
  | c :: string =>
      match toChar c with
      | none => .error .unicodeEncodeError
      | some char =>
          match encodeUtf8 string with
          | .error e => .error e
          | .ok bytes => .ok (String.utf8EncodeChar char ++ bytes)

/-- `value.to_bytes(4, 'big')`. -/
def toBytesBig (value : Nat) : Except PyError (List UInt8) :=
  if value < 4294967296 then .ok (bigEndian value) else .error .overflowError

theorem toChar_eq_some {c : CodePoint} {char : Char} (h : toChar c = some char) :
    char.toNat = c.val := by
  unfold toChar at h
  by_cases hvalid : c.val.isValidChar
  · rw [dif_pos hvalid, Option.some.injEq] at h
    rw [← h]
    rfl
  · rw [dif_neg hvalid] at h
    exact absurd h (by simp)

/-- The encoding of a string is that of its characters. -/
theorem encodeUtf8_eq_ok {string : PyString} {bytes : List UInt8}
    (h : encodeUtf8 string = .ok bytes) :
    ∃ chars : List Char, chars.map Char.toNat = string.map Fin.val ∧
      chars.flatMap String.utf8EncodeChar = bytes := by
  induction string generalizing bytes with
  | nil =>
      rw [encodeUtf8, Except.ok.injEq] at h
      exact ⟨[], rfl, h⟩
  | cons c string ih =>
      rw [encodeUtf8] at h
      cases hchar : toChar c with
      | none => simp [hchar] at h
      | some char =>
          rw [hchar] at h
          cases htail : encodeUtf8 string with
          | error e => simp [htail] at h
          | ok tail =>
              rw [htail] at h
              obtain ⟨chars, hchars, hbytes⟩ := ih htail
              rw [Except.ok.injEq] at h
              refine ⟨char :: chars, ?_, ?_⟩
              · rw [List.map_cons, List.map_cons, hchars, toChar_eq_some hchar]
              · rw [List.flatMap_cons, hbytes, h]

/-- **Different strings have different bytes.** -/
theorem encodeUtf8_injective {a b : PyString} {bytes : List UInt8}
    (ha : encodeUtf8 a = .ok bytes) (hb : encodeUtf8 b = .ok bytes) : a = b := by
  obtain ⟨as, hcodes, hbytes⟩ := encodeUtf8_eq_ok ha
  obtain ⟨bs, hcodes', hbytes'⟩ := encodeUtf8_eq_ok hb
  have hsame : as.utf8Encode = bs.utf8Encode := by
    rw [List.utf8Encode, List.utf8Encode, hbytes, hbytes']
  have hchars : as = bs := by
    have hdecode := congrArg ByteArray.utf8Decode? hsame
    rw [List.utf8Decode?_utf8Encode, List.utf8Decode?_utf8Encode, Option.some.injEq] at hdecode
    simpa using hdecode
  have hvals : a.map Fin.val = b.map Fin.val := by
    rw [← hcodes, ← hcodes', hchars]
  exact List.map_injective_iff.mpr (fun _ _ => Fin.ext) hvals

/-- An ASCII string is its own encoding. -/
theorem encodeUtf8_replicate_a (n : Nat) :
    encodeUtf8 (List.replicate n 97) = .ok (List.replicate n 97) := by
  induction n with
  | zero => rfl
  | succ n ih =>
      have hchar : toChar 97 = some 'a' := by decide
      rw [List.replicate_succ, encodeUtf8, hchar, ih, List.replicate_succ]
      rfl

/-! ## The client -/

/-- `__failResponse`. -/
def failResponse : UInt8 := 0x0

/-- The fields of `stupidP2PClient` that the calls work on.  `deviceId` is `none` before the
first `registerDevice`. -/
structure StupidP2PClient where
  runningFlag : Bool
  needToRestartFlag : Bool
  deviceId : Option PyString
  recvThread : ClientRecvThread

/-- What `sock.send` comes to: the number of bytes it has taken, or a `socket.error`. -/
inductive SockSend
  | sent (count : Nat)
  | error
deriving DecidableEq

/-- What the surroundings of a call do: the outcome of `sock.send`, and the successive values
of `commandResponse[command]` that the polling loop reads. -/
structure CallEnv where
  sock : SockSend
  responses : Nat → UInt8

/-- What a call comes to: the client, the bytes handed to `sock.send`, and the value
returned or the exception raised. -/
structure CallOutcome where
  client : StupidP2PClient
  offered : Option (List UInt8)
  result : Except PyError UInt8

/-- The polling loop with `rounds` rounds to go, from the `k`-th read on. -/
def awaitResponse (responses : Nat → UInt8) : Nat → Nat → UInt8
  | 0, k => responses k
  | rounds + 1, k =>
      if responses k = notReceiveResponse then awaitResponse responses rounds (k + 1)
      else responses (k + 1)

namespace StupidP2PClient

/-- A client as `initClient` leaves it when the connection is up. -/
def connected : StupidP2PClient := ⟨true, false, none, .initial⟩

/-- `commandResponse[command] = __notReceiveResponse`. -/
def resetResponse (client : StupidP2PClient) (command : ProtocolCode) : StupidP2PClient :=
  { client with
    recvThread :=
      { client.recvThread with
        commandResponse :=
          Function.update client.recvThread.commandResponse command notReceiveResponse } }

/-- `__send`: the client, and the bytes handed to `sock.send`. -/
def send (client : StupidP2PClient) (command : List UInt8) (sock : SockSend) :
    Except PyError (StupidP2PClient × Option (List UInt8)) :=
  match toBytesBig command.length with
  | .error e => .error e
  | .ok commandLength =>
      let commandSendBytes := commandLength ++ command
      if client.runningFlag = true ∧ client.needToRestartFlag = false then
        match sock with
        | .sent _ => .ok (client, some commandSendBytes)
        | .error => .ok ({ client with needToRestartFlag := true }, some commandSendBytes)
      else .ok (client, none)

/-- `__sendCommand`.  The loop is left after its 302nd round at the latest. -/
def sendCommand (client : StupidP2PClient) (command : ProtocolCode) (data : List UInt8)
    (env : CallEnv) : CallOutcome :=
  if client.runningFlag = false ∨ client.needToRestartFlag = true then
    ⟨client, none, .ok failResponse⟩
  else
    let client := client.resetResponse command
    match client.send (command.toByte :: data) env.sock with
    | .error e => ⟨client, none, .error e⟩
    | .ok (client, offered) => ⟨client, offered, .ok (awaitResponse env.responses 302 0)⟩

/-- A method with a string argument. -/
def sendString (client : StupidP2PClient) (command : ProtocolCode) (string : PyString)
    (env : CallEnv) : CallOutcome :=
  match encodeUtf8 string with
  | .error e => ⟨client, none, .error e⟩
  | .ok data => client.sendCommand command data env

def registerDevice (client : StupidP2PClient) (deviceId : PyString) (env : CallEnv) :
    CallOutcome :=
  sendString { client with deviceId := some deviceId } .registerDevice deviceId env

def subscribeDevice (client : StupidP2PClient) (subscribeDeviceId : PyString)
    (env : CallEnv) : CallOutcome :=
  client.sendString .subscribeDevice subscribeDeviceId env

def sendData (client : StupidP2PClient) (data : PyString) (env : CallEnv) : CallOutcome :=
  if data.length = 0 then ⟨client, none, .ok failResponse⟩
  else client.sendString .sendData data env

def unregisterDevice (client : StupidP2PClient) (env : CallEnv) : CallOutcome :=
  client.sendCommand .unregisterDevice [] env

def unscribeDevice (client : StupidP2PClient) (unscribeDeviceId : PyString) (env : CallEnv) :
    CallOutcome :=
  client.sendString .unsubscribeDevice unscribeDeviceId env

def checkDeviceAlive (client : StupidP2PClient) (checkDeviceId : PyString) (env : CallEnv) :
    CallOutcome :=
  client.sendString .checkDeviceAlive checkDeviceId env

end StupidP2PClient

/-- A call of one of the methods that send a command. -/
inductive ApiCall
  | registerDevice (deviceId : PyString)
  | subscribeDevice (subscribeDeviceId : PyString)
  | sendData (data : PyString)
  | unregisterDevice
  | unscribeDevice (unscribeDeviceId : PyString)
  | checkDeviceAlive (checkDeviceId : PyString)

namespace ApiCall

def run (client : StupidP2PClient) (env : CallEnv) : ApiCall → CallOutcome
  | .registerDevice deviceId => client.registerDevice deviceId env
  | .subscribeDevice subscribeDeviceId => client.subscribeDevice subscribeDeviceId env
  | .sendData data => client.sendData data env
  | .unregisterDevice => client.unregisterDevice env
  | .unscribeDevice unscribeDeviceId => client.unscribeDevice unscribeDeviceId env
  | .checkDeviceAlive checkDeviceId => client.checkDeviceAlive checkDeviceId env

def code : ApiCall → ProtocolCode
  | .registerDevice _ => .registerDevice
  | .subscribeDevice _ => .subscribeDevice
  | .sendData _ => .sendData
  | .unregisterDevice => .unregisterDevice
  | .unscribeDevice _ => .unsubscribeDevice
  | .checkDeviceAlive _ => .checkDeviceAlive

def argument : ApiCall → PyString
  | .registerDevice deviceId => deviceId
  | .subscribeDevice subscribeDeviceId => subscribeDeviceId
  | .sendData data => data
  | .unregisterDevice => []
  | .unscribeDevice unscribeDeviceId => unscribeDeviceId
  | .checkDeviceAlive checkDeviceId => checkDeviceId

end ApiCall

/-! ## What a call transmits -/

namespace StupidP2PClient

variable {client : StupidP2PClient} {code : ProtocolCode} {env : CallEnv}
variable {data frame : List UInt8}

theorem send_eq {command : List UInt8} (sock : SockSend)
    (hrunning : client.runningFlag = true) (hrestart : client.needToRestartFlag = false)
    (hlength : command.length < 4294967296) :
    client.send command sock = .ok ({ client with needToRestartFlag := sock == .error },
      some (encodeFrame command)) := by
  rw [send, toBytesBig, if_pos hlength]
  dsimp only
  rw [if_pos ⟨hrunning, hrestart⟩]
  cases sock with
  | sent count =>
      obtain ⟨running, restart, deviceId, recvThread⟩ := client
      obtain rfl : restart = false := hrestart
      rfl
  | error => rfl

/-- `__send` hands over the frame of the command, or nothing. -/
theorem send_some {client' : StupidP2PClient} {command bytes : List UInt8}
    {sock : SockSend} (h : client.send command sock = .ok (client', some bytes)) :
    bytes = encodeFrame command ∧ command.length < 4294967296 := by
  unfold send toBytesBig at h
  by_cases hlength : command.length < 4294967296
  · rw [if_pos hlength] at h
    dsimp only at h
    split at h
    · cases sock with
      | sent count =>
          rw [Except.ok.injEq, Prod.mk.injEq, Option.some.injEq] at h
          exact ⟨h.2.symm, hlength⟩
      | error =>
          rw [Except.ok.injEq, Prod.mk.injEq, Option.some.injEq] at h
          exact ⟨h.2.symm, hlength⟩
    · simp at h
  · simp [hlength] at h

/-- **`__sendCommand`** hands over one frame, or nothing: nothing while the client is not
running or is to be restarted, or if the length does not fit into four bytes. -/
theorem offered_sendCommand_iff :
    (client.sendCommand code data env).offered = some frame ↔
      client.runningFlag = true ∧ client.needToRestartFlag = false ∧
        data.length + 1 < 4294967296 ∧ frame = encodeFrame (code.toByte :: data) := by
  rw [sendCommand]
  by_cases hready : client.runningFlag = false ∨ client.needToRestartFlag = true
  · rw [if_pos hready]
    refine iff_of_false (by simp) ?_
    rintro ⟨hrunning, hrestart, -⟩
    rcases hready with hfalse | htrue
    · rw [hrunning] at hfalse
      exact Bool.noConfusion hfalse
    · rw [hrestart] at htrue
      exact Bool.noConfusion htrue
  · rw [if_neg hready]
    rw [not_or, Bool.not_eq_false, Bool.not_eq_true] at hready
    obtain ⟨hrunning, hrestart⟩ := hready
    dsimp only
    by_cases hlength : data.length + 1 < 4294967296
    · rw [@send_eq (client.resetResponse code) (code.toByte :: data) _ hrunning hrestart hlength]
      simp only [hrunning, hrestart, hlength, Option.some.injEq, true_and]
      exact eq_comm
    · have hraises : (client.resetResponse code).send (code.toByte :: data) env.sock =
          .error .overflowError := by
        rw [send, toBytesBig, List.length_cons, if_neg hlength]
      rw [hraises]
      refine iff_of_false (by simp) ?_
      rintro ⟨-, -, hfits, -⟩
      exact hlength hfits

/-- A method with a string argument sends the encoded string. -/
theorem offered_sendString_iff {string : PyString} :
    (client.sendString code string env).offered = some frame ↔
      client.runningFlag = true ∧ client.needToRestartFlag = false ∧
        ∃ data, encodeUtf8 string = .ok data ∧ data.length + 1 < 4294967296 ∧
          frame = encodeFrame (code.toByte :: data) := by
  rw [sendString]
  cases encodeUtf8 string with
  | error e => simp
  | ok data => simp [offered_sendCommand_iff]

end StupidP2PClient

/-- **The calls**: each hands over at most the frame of its command and its argument. -/
theorem ApiCall.offered_run {client : StupidP2PClient} {env : CallEnv} {call : ApiCall}
    {frame : List UInt8} (h : (call.run client env).offered = some frame) :
    client.runningFlag = true ∧ client.needToRestartFlag = false ∧
      ∃ data, encodeUtf8 call.argument = .ok data ∧ data.length + 1 < 4294967296 ∧
        frame = encodeFrame (call.code.toByte :: data) := by
  cases call with
  | registerDevice deviceId =>
      have hsent : (StupidP2PClient.sendString { client with deviceId := some deviceId }
          .registerDevice deviceId env).offered = some frame := h
      rw [StupidP2PClient.offered_sendString_iff] at hsent
      exact hsent
  | subscribeDevice subscribeDeviceId => exact StupidP2PClient.offered_sendString_iff.mp h
  | unscribeDevice unscribeDeviceId => exact StupidP2PClient.offered_sendString_iff.mp h
  | checkDeviceAlive checkDeviceId => exact StupidP2PClient.offered_sendString_iff.mp h
  | sendData data =>
      rw [run, StupidP2PClient.sendData] at h
      split at h
      · simp at h
      · exact StupidP2PClient.offered_sendString_iff.mp h
  | unregisterDevice =>
      obtain ⟨hrunning, hrestart, hlength, hframe⟩ :=
        StupidP2PClient.offered_sendCommand_iff.mp h
      exact ⟨hrunning, hrestart, [], rfl, hlength, hframe⟩

end PythonClient
end StupidP2P
