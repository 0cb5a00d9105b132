import StupidP2P.Client.SendCommand

/-!
# The calls of the C client

The functions of the API that send a command.  They all go through `need_to_send`.  A device
id comes as a pointer to a string that ends with a zero byte, and `strnlen` stops after 256
bytes: `need_to_send`, which refuses more than 256 bytes, never sees a longer length, and of a
longer id the first 256 bytes are sent.
-/

namespace StupidP2P
namespace Client

open Server (ProtocolCode)

/-- `strnlen` on the bytes that may be read at the pointer. -/
def strnlen : List UInt8 → Nat → Nat
  | _, 0 => 0
  | [], _ + 1 => 0
  | byte :: bytes, limit + 1 => if byte = 0 then 0 else strnlen bytes limit + 1

theorem strnlen_le (bytes : List UInt8) (limit : Nat) : strnlen bytes limit ≤ limit := by
  induction bytes generalizing limit with
  | nil => cases limit <;> exact Nat.zero_le _
  | cons byte bytes ih =>
      cases limit with
      | zero => exact Nat.le_refl 0
      | succ limit =>
          have hrest := ih limit
          rw [strnlen]
          split <;> omega

/-- Up to the limit it is the number of bytes before the zero. -/
theorem strnlen_eq {id : List UInt8} (hnul : 0 ∉ id) (rest : List UInt8) (limit : Nat) :
    strnlen (id ++ 0 :: rest) limit = min id.length limit := by
  induction id generalizing limit with
  | nil =>
      cases limit with
      | zero => rfl
      | succ limit =>
          rw [List.nil_append, strnlen, if_pos rfl, List.length_nil, Nat.zero_min]
  | cons byte id ih =>
      rw [List.mem_cons, not_or] at hnul
      cases limit with
      | zero =>
          rw [Nat.min_zero]
          rfl
      | succ limit =>
          rw [List.cons_append, strnlen, if_neg (Ne.symm hnul.1), ih hnul.2, List.length_cons]
          omega

section

variable (found : Option ClientNode) (malloc : Nat → Bool) (fd : Int)

/-- A call with a device id. -/
def sendDeviceId (command : ProtocolCode) (deviceId : List UInt8) : Option Admission :=
  needToSend found malloc fd command.toByte deviceId (strnlen deviceId 256)

def stupidP2PRegisterDevice (deviceId : List UInt8) : Option Admission :=
  sendDeviceId found malloc fd .registerDevice deviceId

def stupidP2PSubscribeDevice (deviceId : List UInt8) : Option Admission :=
  sendDeviceId found malloc fd .subscribeDevice deviceId

def stupidP2PUnsubscribeDevice (deviceId : List UInt8) : Option Admission :=
  sendDeviceId found malloc fd .unsubscribeDevice deviceId

def stupidP2PCheckDeviceAlive (deviceId : List UInt8) : Option Admission :=
  sendDeviceId found malloc fd .checkDeviceAlive deviceId

/-- The length is the caller's, and is handed on as it is. -/
def stupidP2PSendData (buf : List UInt8) (length : Int) : Option Admission :=
  needToSend found malloc fd ProtocolCode.sendData.toByte buf length

end

/-- The calls that name a device. -/
inductive DeviceCall
  | registerDevice
  | subscribeDevice
  | unsubscribeDevice
  | checkDeviceAlive
deriving DecidableEq

namespace DeviceCall

def code : DeviceCall → ProtocolCode
  | .registerDevice => .registerDevice
  | .subscribeDevice => .subscribeDevice
  | .unsubscribeDevice => .unsubscribeDevice
  | .checkDeviceAlive => .checkDeviceAlive

def run (found : Option ClientNode) (malloc : Nat → Bool) (fd : Int) (deviceId : List UInt8) :
    DeviceCall → Option Admission
  | .registerDevice => stupidP2PRegisterDevice found malloc fd deviceId
  | .subscribeDevice => stupidP2PSubscribeDevice found malloc fd deviceId
  | .unsubscribeDevice => stupidP2PUnsubscribeDevice found malloc fd deviceId
  | .checkDeviceAlive => stupidP2PCheckDeviceAlive found malloc fd deviceId

variable {found : Option ClientNode} {malloc : Nat → Bool} {fd : Int} {deviceId : List UInt8}

theorem run_eq (call : DeviceCall) :
    call.run found malloc fd deviceId = sendDeviceId found malloc fd call.code deviceId := by
  cases call <;> rfl

end DeviceCall

/-- The `switch` of `need_to_send` knows every command. -/
theorem commandCode_toByte (code : ProtocolCode) : commandCode code.toByte = some code := by
  cases code <;> rfl

/-- `need_to_send` reads no more than the bytes it copies. -/
theorem needToSend_take {found : Option ClientNode} {malloc : Nat → Bool} {fd : Int}
    {command : UInt8} {data : List UInt8} {n : Nat} (hn : n ≤ data.length) (hlimit : n ≤ 256) :
    needToSend found malloc fd command data n =
      needToSend found malloc fd command (data.take n) n := by
  have hcopied : ((n : Int) % 18446744073709551616).toNat = n := by
    omega
  unfold needToSend
  simp only [hcopied, List.length_take_of_le hn, List.take_take, min_self, hn, Nat.le_refl]

/-- **A call with a device id** on a handle in use: the id is cut after 256 bytes and queued
if the memory can be had. -/
theorem sendDeviceId_eq {node : ClientNode} (hflag : node.needToRestartFlag = false)
    {malloc : Nat → Bool} {fd : Int} (hfd : 0 < fd) (code : ProtocolCode) {id : List UInt8}
    (hnul : 0 ∉ id) (rest : List UInt8) :
    sendDeviceId (some node) malloc fd code (id ++ 0 :: rest) =
      if malloc ((id.take 256).length + 1) then
        some (.queued code (code.toByte :: id.take 256) ((id.take 256).length + 1))
      else some (.refused .memoryError) := by
  have hlength : strnlen (id ++ 0 :: rest) 256 = (id.take 256).length := by
    rw [strnlen_eq hnul, List.length_take, Nat.min_comm]
  have hlimit : (id.take 256).length ≤ 256 := List.length_take_le 256 id
  have hread : (id.take 256).length ≤ (id ++ 0 :: rest).length := by
    rw [List.length_append, List.length_take]
    omega
  have hbytes : (id ++ 0 :: rest).take (id.take 256).length = id.take 256 := by
    rw [List.take_append_of_le_length (List.length_take_le' 256 id), List.length_take,
      List.take_eq_take_iff]
    omega
  rw [sendDeviceId, hlength, needToSend_take hread hlimit, hbytes,
    needToSend_eq hflag hfd (commandCode_toByte code) hlimit]

/-- Any other call is refused, with a result of its own for each reason. -/
theorem sendDeviceId_refused {found : Option ClientNode} {malloc : Nat → Bool} {fd : Int}
    {code : ProtocolCode} {deviceId : List UInt8}
    (h : fd ≤ 0 ∨ ∀ node, found = some node → node.needToRestartFlag = true) :
    sendDeviceId found malloc fd code deviceId = some (.refused
      (if fd ≤ 0 then .badParam else if found.isNone then .errorCommond else .restarting)) := by
  have hlimit := strnlen_le deviceId 256
  unfold sendDeviceId needToSend
  by_cases hfd : fd ≤ 0
  · rw [if_pos (.inr hfd), if_pos hfd]
  · rw [if_neg (by omega), if_neg hfd]
    have hrestart := h.resolve_left hfd
    cases found with
    | none => rfl
    | some node => simp [hrestart node rfl]

end Client
end StupidP2P
