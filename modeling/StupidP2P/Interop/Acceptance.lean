import StupidP2P.Client.SendCommand
import StupidP2P.PythonClient.Send
import StupidP2P.Server.Codec

/-!
# Frames of the clients at the server

The limits of the three programs side by side.  `need_to_send` of the C client queues at most
257 bytes.  The server's codec takes frames of up to 65536 bytes and shuts the connection
down at a longer one.  The Python client has no limit but that of the four bytes of the
header: what it sends is taken exactly if the encoded argument has at most 65535 bytes.
-/

namespace StupidP2P
namespace Interop

open Foundation
open Foundation.Framing
open Server (ProtocolCode)
open Server.LengthHeaderCodec (accepts receive receive_eq decode_send)
open Client (ClientNode NetWorkCommand needToSend sendRound)
open PythonClient (ApiCall CallEnv StupidP2PClient encodeUtf8)

/-- The codec hands on this message and nothing else, in whatever pieces the frame arrives,
and the connection stays up. -/
def DecodesTo (frame message : List UInt8) : Prop :=
  ∀ reads, reads.flatten = frame → receive reads = ([], ⟨[message], false⟩)

theorem accepts_wrap32 {n : Nat} (hn : n < 4294967296) :
    accepts (wrap32 n) = true ↔ n ≤ 65536 := by
  rw [accepts, decide_eq_true_iff]
  constructor
  · rintro ⟨hlow, hhigh⟩
    rw [wrap32_of_nonneg (by omega) (by omega) hlow] at hhigh
    omega
  · intro hle
    rw [wrap32_of_range (by omega) (by omega)]
    omega

/-- A frame that is too long: the connection is shut down at its header. -/
theorem receive_of_too_long {message : List UInt8} (hlong : 65536 < message.length)
    (hsmall : message.length < 4294967296) :
    receive [encodeFrame message] = (encodeFrame message, ⟨[], true⟩) := by
  have hrefused : accepts (wrap32 message.length) = false := by
    rw [← Bool.not_eq_true, accepts_wrap32 hsmall]
    omega
  have hhead := head_encodeFrame_bad hrefused hsmall []
  rw [List.append_nil] at hhead
  rw [receive_eq, List.flatten_singleton, decode_of_bad hhead]

/-- **The limit of the codec.** -/
theorem decodesTo_encodeFrame_iff {message : List UInt8} (hsmall : message.length < 4294967296) :
    DecodesTo (encodeFrame message) message ↔ message.length ≤ 65536 := by
  constructor
  · intro hdecodes
    by_contra hlong
    have hone := hdecodes [encodeFrame message] List.flatten_singleton
    rw [receive_of_too_long (by omega) hsmall] at hone
    simp at hone
  · intro hle reads hreads
    have hdecode : decode accepts (encodeFrame message) = ⟨[message], [], false⟩ := by
      have hsend := @decode_send [message] (by simpa using hle)
      rwa [List.flatMap_singleton] at hsend
    rw [receive_eq, hreads, hdecode]

/-! ## The C client -/

/-- The send thread makes a frame of it that the codec takes. -/
theorem decodesTo_sendRound {node : ClientNode} {buf : Nat → UInt8} {message : List UInt8}
    {commands : List (NetWorkCommand (List UInt8))}
    (hfifo : node.sendFifo.Holds (⟨some message, message.length⟩ :: commands))
    (hflag : node.needToRestartFlag = false) (hsmall : message.length ≤ 257) :
    ∃ node' buf' frame, sendRound node buf = some (node', buf', frame) ∧
      DecodesTo frame message :=
  ⟨_, _, _, Client.sendRound_eq hfifo hflag (by omega),
    (decodesTo_encodeFrame_iff (by omega)).mpr (by omega)⟩

/-! ## Both clients -/

/-- **The frames of the clients.**  A frame that a call of the Python client transmits is
decoded to the command and the encoded argument exactly if that has at most 65535 bytes; a
longer one costs the connection.  Every frame that `need_to_send` queues is decoded to the
command and the data. -/
theorem emitted_frames_decoded_iff (client : StupidP2PClient) (env : CallEnv) (call : ApiCall) :
    (∀ frame, (call.run client env).offered = some frame →
      ∃ data, encodeUtf8 call.argument = .ok data ∧
        (DecodesTo frame (call.code.toByte :: data) ↔ data.length ≤ 65535)) ∧
    ∀ (found : Option ClientNode) (malloc : Nat → Bool) (fd : Int) (command : UInt8)
      (data : List UInt8) (length : Int) (code : ProtocolCode) (sendData : List UInt8)
      (size : Int) (node : ClientNode) (buf : Nat → UInt8)
      (commands : List (NetWorkCommand (List UInt8))),
      -2147483648 ≤ length → (∀ n, malloc n = true → n < 9223372036854775808) →
      needToSend found malloc fd command data length = some (.queued code sendData size) →
      node.sendFifo.Holds (⟨some sendData, size⟩ :: commands) →
      node.needToRestartFlag = false →
        ∃ node' buf' frame, sendRound node buf = some (node', buf', frame) ∧
          DecodesTo frame (command :: data.take length.toNat) := by
  constructor
  · intro frame hoffered
    obtain ⟨-, -, data, hdata, hlength, rfl⟩ := ApiCall.offered_run hoffered
    refine ⟨data, hdata, ?_⟩
    rw [decodesTo_encodeFrame_iff (by rwa [List.length_cons]), List.length_cons]
    omega
  · intro found malloc fd command data length code sendData size node buf commands hint hmalloc
      hqueued hfifo hflag
    obtain ⟨hlow, hhigh, hdata, hsend, rfl⟩ := Client.needToSend_queued hint hmalloc hqueued
    rw [← hsend]
    refine decodesTo_sendRound hfifo hflag ?_
    rw [hsend, List.length_cons, List.length_take_of_le hdata]
    omega

/-- A message of 65536 times the letter `a` makes a frame of 65537 bytes: the server reports
an invalid length and shuts the connection down. -/
theorem long_message_shuts_down :
    ∃ frame,
      (ApiCall.run .connected ⟨.sent 65541, fun _ => 0xff⟩
        (.sendData (List.replicate 65536 97))).offered = some frame ∧
      receive [frame] = (frame, ⟨[], true⟩) ∧
      ¬ DecodesTo frame (0x03 :: List.replicate 65536 97) := by
  have hlength : (0x03 :: List.replicate 65536 97 : List UInt8).length = 65537 := by
    rw [List.length_cons, List.length_replicate]
  refine ⟨encodeFrame (0x03 :: List.replicate 65536 97), ?_, ?_, ?_⟩
  · rw [ApiCall.run, StupidP2PClient.sendData, List.length_replicate, if_neg (by decide),
      StupidP2PClient.offered_sendString_iff]
    refine ⟨rfl, rfl, List.replicate 65536 97, PythonClient.encodeUtf8_replicate_a _, ?_, rfl⟩
    rw [List.length_replicate]
    decide
  · exact receive_of_too_long (by rw [hlength]; decide) (by rw [hlength]; decide)
  · rw [decodesTo_encodeFrame_iff (by rw [hlength]; decide), hlength]
    decide

/-- `registerDevice("a")`. -/
theorem emitted_frames_decoded_register :
    (ApiCall.run .connected ⟨.sent 6, fun _ => 0x1⟩ (.registerDevice [97])).offered =
        some [0, 0, 0, 2, 0x01, 97] ∧
      DecodesTo [0, 0, 0, 2, 0x01, 97] [0x01, 97] := by
  have hoffered : (ApiCall.run .connected ⟨.sent 6, fun _ => 0x1⟩
      (.registerDevice [97])).offered = some [0, 0, 0, 2, 0x01, 97] := by decide
  refine ⟨hoffered, ?_⟩
  obtain ⟨data, hdata, hiff⟩ := (emitted_frames_decoded_iff _ _ _).1 _ hoffered
  have hbytes : encodeUtf8 [97] = .ok [97] := PythonClient.encodeUtf8_replicate_a 1
  obtain rfl : data = [97] := Except.ok.inj (hdata.symm.trans hbytes)
  exact hiff.mpr (by decide)

end Interop
end StupidP2P
