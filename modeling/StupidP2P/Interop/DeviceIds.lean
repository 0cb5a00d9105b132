import Mathlib.Data.List.TakeDrop
import StupidP2P.Client.Api
import StupidP2P.Interop.Acceptance

/-!
# Device ids from the clients to the server

A C client names a device by a string that ends with a zero byte, a Python client by a Python
string; the server takes what follows the command byte of a message.  Between a client and
the server stand the limit of `strnlen`, the frame, and the codec.

An id of up to 256 bytes arrives as it is.  A longer one is not refused by the C client:
its first 256 bytes are sent, so two such ids can name one device, and the Python client,
which sends all of it, names another.
-/

namespace StupidP2P
namespace Interop

open Foundation
open Foundation.Framing
open Server (DeviceId P2PServer ProtocolCode)
open Server.LengthHeaderCodec (receive)
open Client (Admission ClientNode DeviceCall NetWorkCommand sendDeviceId sendRound)
open PythonClient (ApiCall CallEnv PyString StupidP2PClient encodeUtf8)

/-! ## What the server understands -/

/-- What the server does for a command with a device id. -/
def handled (σ : P2PServer) (conn : Server.Conn) (id : DeviceId) :
    DeviceCall → P2PServer × List Server.CodecSend
  | .registerDevice =>
      (σ.registerDeviceFunc conn id,
        [P2PServer.callbackFunc conn .registerDevice .execSuccess])
  | .subscribeDevice =>
      ((σ.subscribeDeviceFunc conn id).1,
        [P2PServer.callbackFunc conn .subscribeDevice (σ.subscribeDeviceFunc conn id).2])
  | .unsubscribeDevice =>
      (σ.unsubscribeDeviceFunc conn id,
        [P2PServer.callbackFunc conn .unsubscribeDevice .execSuccess])
  | .checkDeviceAlive =>
      (σ, [P2PServer.callbackFunc conn .checkDeviceAlive (σ.checkDeviceAliveFunc id)])

/-- The server takes the frame as this command for this device: the codec hands on one
message, and `onMessage` extracts the id from it. -/
structure Understood (frame : List UInt8) (call : DeviceCall) (id : DeviceId) : Prop where
  decodes : DecodesTo frame (call.code.toByte :: id)
  handles : ∀ (σ : P2PServer) conn time,
    σ.onMessage conn (call.code.toByte :: id) time = some (handled σ conn id call)

theorem onMessage_handled (σ : P2PServer) (conn : Server.Conn) (call : DeviceCall)
    (id : DeviceId) (time : Int) :
    σ.onMessage conn (call.code.toByte :: id) time = some (handled σ conn id call) := by
  cases call <;> rfl

/-- **The id of a frame** is what follows the command byte, if the codec takes the frame. -/
theorem understood_iff {call : DeviceCall} {body id : List UInt8}
    (hsmall : body.length + 1 < 4294967296) :
    Understood (encodeFrame (call.code.toByte :: body)) call id ↔
      id = body ∧ body.length ≤ 65535 := by
  have hframe : (call.code.toByte :: body).length < 4294967296 := by
    rwa [List.length_cons]
  have hlimit := decodesTo_encodeFrame_iff hframe
  rw [List.length_cons, Nat.succ_le_succ_iff] at hlimit
  constructor
  · rintro ⟨hdecodes, -⟩
    have hone := hdecodes [_] List.flatten_singleton
    by_cases hle : body.length ≤ 65535
    · rw [hlimit.mpr hle [_] List.flatten_singleton] at hone
      simp only [Prod.mk.injEq, Server.LengthHeaderCodec.Handed.mk.injEq, List.cons.injEq,
        and_true, true_and] at hone
      exact ⟨hone.symm, hle⟩
    · rw [receive_of_too_long (by rw [List.length_cons]; omega) hframe] at hone
      simp at hone
  · rintro ⟨rfl, hle⟩
    exact ⟨hlimit.mpr hle, fun σ conn time => onMessage_handled σ conn call id time⟩

/-- Both frames name one device. -/
def SameDevice (call : DeviceCall) (frame frame' : List UInt8) : Prop :=
  ∃ named, Understood frame call named ∧ Understood frame' call named

theorem sameDevice_iff {call : DeviceCall} {body body' : List UInt8}
    (hsmall : body.length + 1 < 4294967296) (hsmall' : body'.length + 1 < 4294967296) :
    SameDevice call (encodeFrame (call.code.toByte :: body))
        (encodeFrame (call.code.toByte :: body')) ↔
      body = body' ∧ body.length ≤ 65535 := by
  constructor
  · rintro ⟨named, hfirst, hsecond⟩
    obtain ⟨rfl, hle⟩ := (understood_iff hsmall).mp hfirst
    exact ⟨((understood_iff hsmall').mp hsecond).1, hle⟩
  · rintro ⟨rfl, hle⟩
    exact ⟨body, (understood_iff hsmall).mpr ⟨rfl, hle⟩, (understood_iff hsmall).mpr ⟨rfl, hle⟩⟩

/-! ## The C client -/

/-- What the send thread transmits for a queued buffer. -/
def Transmits (sendData : List UInt8) (size : Int) (frame : List UInt8) : Prop :=
  ∀ (node : ClientNode) (buf : Nat → UInt8) (commands : List (NetWorkCommand (List UInt8))),
    node.sendFifo.Holds (⟨some sendData, size⟩ :: commands) →
    node.needToRestartFlag = false →
      ∃ node' buf', sendRound node buf = some (node', buf', frame)

theorem transmits_iff {sendData frame : List UInt8} (hsmall : sendData.length ≤ 257) :
    Transmits sendData sendData.length frame ↔ frame = encodeFrame sendData := by
  constructor
  · intro htransmits
    have hfifo : (ClientNode.fresh.pushCommand sendData sendData.length).sendFifo.Holds
        [⟨some sendData, sendData.length⟩] :=
      Client.SendCommandFifo.holds_init.push (by decide) sendData sendData.length
    obtain ⟨node', buf', hround⟩ := htransmits _ (fun _ => 0) [] hfifo rfl
    rw [Client.sendRound_eq hfifo rfl (by omega), Option.some.injEq, Prod.mk.injEq,
      Prod.mk.injEq] at hround
    exact hround.2.2.symm
  · rintro rfl node buf commands hfifo hflag
    exact ⟨_, _, Client.sendRound_eq hfifo hflag (by omega)⟩

/-- The call queues a buffer, and this is the frame transmitted for it. -/
def Sends (found : Option ClientNode) (malloc : Nat → Bool) (fd : Int) (call : DeviceCall)
    (deviceId frame : List UInt8) : Prop :=
  ∃ code sendData size,
    call.run found malloc fd deviceId = some (.queued code sendData size) ∧
      Transmits sendData size frame

/-- A handle that `need_to_send` finds and that is not being restarted. -/
def Usable (found : Option ClientNode) : Prop :=
  ∃ node, found = some node ∧ node.needToRestartFlag = false

section

variable {found : Option ClientNode} {malloc : Nat → Bool} {fd : Int} {call : DeviceCall}
variable {id : List UInt8}

theorem refused_of_not_usable (h : ¬ (0 < fd ∧ Usable found)) :
    fd ≤ 0 ∨ ∀ node, found = some node → node.needToRestartFlag = true := by
  by_contra hneither
  rw [not_or, not_forall] at hneither
  obtain ⟨hfd, node, hnode⟩ := hneither
  rw [Classical.not_imp, Bool.not_eq_true] at hnode
  exact h ⟨by omega, node, hnode⟩

/-- A valid handle is never refused as a bad parameter: no id is too long for the call. -/
theorem run_ne_badParam (hfd : 0 < fd) (hnul : 0 ∉ id) (rest : List UInt8) :
    call.run found malloc fd (id ++ 0 :: rest) ≠ some (.refused .badParam) := by
  rw [call.run_eq]
  by_cases husable : 0 < fd ∧ Usable found
  · obtain ⟨-, node, rfl, hflag⟩ := husable
    rw [Client.sendDeviceId_eq hflag hfd call.code hnul rest]
    split <;> simp
  · rw [Client.sendDeviceId_refused (refused_of_not_usable husable), if_neg (by omega)]
    split <;> simp

/-- **What is sent for an id**: its first 256 bytes. -/
theorem sends_iff (hnul : 0 ∉ id) (rest : List UInt8) {frame : List UInt8} :
    Sends found malloc fd call (id ++ 0 :: rest) frame ↔
      0 < fd ∧ Usable found ∧ malloc ((id.take 256).length + 1) = true ∧
        frame = encodeFrame (call.code.toByte :: id.take 256) := by
  unfold Sends
  rw [call.run_eq]
  by_cases husable : 0 < fd ∧ Usable found
  · obtain ⟨hfd, node, rfl, hflag⟩ := husable
    have hlimit : (call.code.toByte :: id.take 256).length ≤ 257 := by
      rw [List.length_cons]
      exact Nat.succ_le_succ (List.length_take_le 256 id)
    rw [Client.sendDeviceId_eq hflag hfd call.code hnul rest]
    cases hmalloc : malloc ((id.take 256).length + 1) with
    | false => simp
    | true =>
        rw [if_pos rfl]
        constructor
        · rintro ⟨code, sendData, size, hqueued, htransmits⟩
          rw [Option.some.injEq, Admission.queued.injEq] at hqueued
          obtain ⟨-, rfl, rfl⟩ := hqueued
          exact ⟨hfd, ⟨node, rfl, hflag⟩, rfl, (transmits_iff hlimit).mp htransmits⟩
        · rintro ⟨-, -, -, hframe⟩
          exact ⟨_, _, _, rfl, (transmits_iff hlimit).mpr hframe⟩
  · rw [Client.sendDeviceId_refused (refused_of_not_usable husable)]
    refine iff_of_false (by simp) ?_
    rintro ⟨hfd, hfound, -⟩
    exact husable ⟨hfd, hfound⟩

/-- The call returns `STUPID_P2P_BAD_PARAM` and queues nothing, or the server extracts the id
from the frame it queues. -/
def Faithful (found : Option ClientNode) (malloc : Nat → Bool) (fd : Int) (call : DeviceCall)
    (id rest : List UInt8) : Prop :=
  call.run found malloc fd (id ++ 0 :: rest) = some (.refused .badParam) ∨
    ∃ frame, Sends found malloc fd call (id ++ 0 :: rest) frame ∧ Understood frame call id

theorem faithful_iff (hnul : 0 ∉ id) (rest : List UInt8) :
    Faithful found malloc fd call id rest ↔
      fd ≤ 0 ∨ Usable found ∧ malloc (id.length + 1) = true ∧ id.length ≤ 256 := by
  have hsmall : (id.take 256).length ≤ 256 := List.length_take_le 256 id
  have htake : id = id.take 256 ↔ id.length ≤ 256 := by
    rw [eq_comm, List.take_eq_self_iff]
  unfold Faithful
  by_cases hfd : fd ≤ 0
  · refine iff_of_true (.inl ?_) (.inl hfd)
    rw [call.run_eq, Client.sendDeviceId_refused (.inl hfd), if_pos hfd]
  · rw [or_iff_right (run_ne_badParam (by omega) hnul rest), or_iff_right hfd]
    constructor
    · rintro ⟨frame, hsends, hunderstood⟩
      obtain ⟨-, husable, hmalloc, rfl⟩ := (sends_iff hnul rest).mp hsends
      obtain ⟨hid, -⟩ := (understood_iff (by omega)).mp hunderstood
      rw [← hid] at hmalloc
      exact ⟨husable, hmalloc, htake.mp hid⟩
    · rintro ⟨husable, hmalloc, hle⟩
      have hid := htake.mpr hle
      refine ⟨_, (sends_iff hnul rest).mpr ⟨by omega, husable, ?_, rfl⟩, ?_⟩
      · rwa [← hid]
      · exact (understood_iff (by omega)).mpr ⟨hid, by omega⟩

end

/-! ## Both clients -/

/-- The call of the Python client for the same command. -/
def pythonCall (string : PyString) : DeviceCall → ApiCall
  | .registerDevice => .registerDevice string
  | .subscribeDevice => .subscribeDevice string
  | .unsubscribeDevice => .unscribeDevice string
  | .checkDeviceAlive => .checkDeviceAlive string

theorem code_pythonCall (string : PyString) (call : DeviceCall) :
    (pythonCall string call).code = call.code := by
  cases call <;> rfl

theorem argument_pythonCall (string : PyString) (call : DeviceCall) :
    (pythonCall string call).argument = string := by
  cases call <;> rfl

/-- **Device ids.**  A call of the C client with an id that ends with a zero byte is faithful
exactly if the handle is not positive, or it can be used, the memory can be had and the id
has at most 256 bytes.  Two ids that are sent name one device exactly if their first 256
bytes are the same, and a Python client with the same string names the same device exactly
if the id has at most 256 bytes. -/
theorem device_ids_faithful_iff {found : Option ClientNode} {malloc : Nat → Bool} {fd : Int}
    {call : DeviceCall} {id rest : List UInt8} (hnul : 0 ∉ id) :
    (Faithful found malloc fd call id rest ↔
        fd ≤ 0 ∨ Usable found ∧ malloc (id.length + 1) = true ∧ id.length ≤ 256) ∧
      ∀ frame, Sends found malloc fd call (id ++ 0 :: rest) frame →
        (∀ found' malloc' fd' id' rest' frame', 0 ∉ id' →
          Sends found' malloc' fd' call (id' ++ 0 :: rest') frame' →
            (SameDevice call frame frame' ↔ id.take 256 = id'.take 256)) ∧
        ∀ string client env pythonFrame, encodeUtf8 string = .ok id →
          ((pythonCall string call).run client env).offered = some pythonFrame →
            (SameDevice call frame pythonFrame ↔ id.length ≤ 256) := by
  have hsmall : (id.take 256).length ≤ 256 := List.length_take_le 256 id
  refine ⟨faithful_iff hnul rest, ?_⟩
  intro frame hsends
  obtain ⟨-, -, -, rfl⟩ := (sends_iff hnul rest).mp hsends
  constructor
  · intro found' malloc' fd' id' rest' frame' hnul' hsends'
    obtain ⟨-, -, -, rfl⟩ := (sends_iff hnul' rest').mp hsends'
    have hsmall' : (id'.take 256).length ≤ 256 := List.length_take_le 256 id'
    rw [sameDevice_iff (by omega) (by omega)]
    exact and_iff_left (by omega)
  · intro string client env pythonFrame hstring hoffered
    obtain ⟨-, -, data, hdata, hlength, rfl⟩ := ApiCall.offered_run hoffered
    rw [argument_pythonCall] at hdata
    obtain rfl : data = id := Except.ok.inj (hdata.symm.trans hstring)
    rw [code_pythonCall, sameDevice_iff (by omega) hlength, and_iff_left (by omega),
      List.take_eq_self_iff]

/-- Two ids of 257 bytes that differ in the last one: the calls succeed, and both register
the device named by the 256 bytes they have in common. -/
theorem long_ids_conflated :
    ∃ frame,
      Sends (some .fresh) (fun _ => true) 1 .registerDevice
        ((List.replicate 256 97 ++ [98]) ++ [0]) frame ∧
      Sends (some .fresh) (fun _ => true) 1 .registerDevice
        ((List.replicate 256 97 ++ [99]) ++ [0]) frame ∧
      Understood frame .registerDevice (List.replicate 256 97) ∧
      ¬ Faithful (some .fresh) (fun _ => true) 1 .registerDevice
        (List.replicate 256 97 ++ [98]) [] := by
  have hnul : ∀ last : UInt8, last ≠ 0 → (0 : UInt8) ∉ List.replicate 256 97 ++ [last] := by
    intro last hlast hmem
    rcases List.mem_append.mp hmem with hfirst | hsecond
    · exact absurd (List.eq_of_mem_replicate hfirst) (by decide)
    · exact hlast (List.mem_singleton.mp hsecond).symm
  have htake : ∀ last : UInt8, (List.replicate 256 97 ++ [last]).take 256 =
      List.replicate 256 97 := by
    intro last
    exact List.take_left' List.length_replicate
  have husable : Usable (some ClientNode.fresh) := ⟨_, rfl, rfl⟩
  refine ⟨encodeFrame (0x01 :: List.replicate 256 97), ?_, ?_, ?_, ?_⟩
  · rw [sends_iff (hnul 98 (by decide)), htake]
    exact ⟨by decide, husable, rfl, rfl⟩
  · rw [sends_iff (hnul 99 (by decide)), htake]
    exact ⟨by decide, husable, rfl, rfl⟩
  · have hlength : (List.replicate 256 97 : List UInt8).length = 256 := List.length_replicate
    exact (@understood_iff .registerDevice _ _ (by omega)).mpr ⟨rfl, by omega⟩
  · rw [faithful_iff (hnul 98 (by decide)), List.length_append, List.length_replicate]
    rintro (hfd | ⟨-, -, hle⟩)
    · exact absurd hfd (by decide)
    · exact absurd hle (by decide)

/-- The id `"a"`. -/
theorem device_ids_faithful_a :
    Faithful (some .fresh) (fun _ => true) 1 .registerDevice [97] [] ∧
      ∃ frame pythonFrame,
        Sends (some .fresh) (fun _ => true) 1 .registerDevice ([97] ++ [0]) frame ∧
        (ApiCall.run .connected ⟨.sent 6, fun _ => 0x1⟩ (.registerDevice [97])).offered =
          some pythonFrame ∧
        SameDevice .registerDevice frame pythonFrame := by
  have hnul : (0 : UInt8) ∉ [97] := by decide
  have husable : Usable (some ClientNode.fresh) := ⟨_, rfl, rfl⟩
  have hsends : Sends (some .fresh) (fun _ => true) 1 .registerDevice ([97] ++ [0])
      [0, 0, 0, 2, 0x01, 97] := (sends_iff hnul []).mpr ⟨by decide, husable, rfl, rfl⟩
  have hoffered : (ApiCall.run .connected ⟨.sent 6, fun _ => 0x1⟩
      (.registerDevice [97])).offered = some [0, 0, 0, 2, 0x01, 97] := by decide
  have htheorem := @device_ids_faithful_iff (some .fresh) (fun _ => true) 1 .registerDevice
    [97] [] hnul
  refine ⟨htheorem.1.mpr (.inr ⟨husable, rfl, by decide⟩), _, _, hsends, hoffered, ?_⟩
  exact ((htheorem.2 _ hsends).2 [97] _ _ _ (PythonClient.encodeUtf8_replicate_a 1)
    hoffered).mpr (by decide)

end Interop
end StupidP2P
