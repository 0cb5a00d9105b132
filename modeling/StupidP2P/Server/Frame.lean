import StupidP2P.Server.Relay
import StupidP2P.Foundation.Framing

/-!
# Frames

The two kinds of frame both client APIs are written for: a callback of two bytes, and
`SEND_DATA` with a payload.  The server sends no others (`framesTo_eq_map_body`).  What
a client should make of a sequence of frames is stated here once: the payloads in order,
and for each command the result of its last callback.
-/

namespace StupidP2P
namespace Server

open Foundation

inductive Frame
  | callback (code : ProtocolCode) (result : UInt8)
  | data (payload : List UInt8)
deriving DecidableEq

namespace Frame

def body : Frame → Message
  | callback code result => [code.toByte ||| callBackMask, result]
  | data payload => ProtocolCode.sendData.toByte :: payload

def payload? : Frame → Option (List UInt8)
  | callback _ _ => none
  | data payload => some payload

/-- The result the frame brings for a command. -/
def result? (code : ProtocolCode) : Frame → Option UInt8
  | callback c result => if c = code then some result else none
  | data _ => none

/-- The payloads of the data frames, in order. -/
def payloads (frames : List Frame) : List (List UInt8) :=
  frames.filterMap payload?

/-- The result of the last callback of a command. -/
def lastResult (code : ProtocolCode) (frames : List Frame) : Option UInt8 :=
  (frames.filterMap (result? code)).getLast?

theorem payloads_cons (frame : Frame) (frames : List Frame) :
    payloads (frame :: frames) = frame.payload?.toList ++ payloads frames := by
  simp only [payloads, List.filterMap_eq_flatMap_toList, List.flatMap_cons]

theorem lastResult_cons (code : ProtocolCode) (frame : Frame) (frames : List Frame) :
    lastResult code (frame :: frames) =
      (lastResult code frames).or (result? code frame) := by
  unfold lastResult
  rw [List.filterMap_cons]
  cases hresult : result? code frame with
  | none => simp
  | some result =>
      rw [List.getLast?_cons]
      cases (frames.filterMap (result? code)).getLast? <;> rfl

theorem body_length_pos (frame : Frame) : 1 ≤ frame.body.length := by
  cases frame <;> simp [body]

end Frame

/-- Whatever the server sends to a connection is a sequence of frames. -/
theorem framesTo_eq_map_body {idleSeconds : Int} {σ : P2PServer}
    {trace : List (Transition P2PServer Event (List CodecSend))}
    (hrun : (machine idleSeconds).Run trace σ) (conn : Conn) :
    ∃ frames : List Frame, framesTo conn trace = frames.map Frame.body := by
  have hframe : ∀ message ∈ framesTo conn trace, ∃ frame : Frame, frame.body = message := by
    intro message hmem
    obtain ⟨t, ht, hmem⟩ := List.mem_flatMap.mp hmem
    rcases data_of_step (hrun.step_of_mem t ht).1 hmem with
      ⟨code, result, rfl⟩ | ⟨p, time, -, hcode⟩
    · exact ⟨.callback code result.toByte, rfl⟩
    · obtain ⟨payload, rfl⟩ := ProtocolCode.sendData_message hcode
      exact ⟨.data payload, rfl⟩
  generalize framesTo conn trace = messages at hframe
  induction messages with
  | nil => exact ⟨[], rfl⟩
  | cons message messages ih =>
      rw [List.forall_mem_cons] at hframe
      obtain ⟨frame, rfl⟩ := hframe.1
      obtain ⟨frames, rfl⟩ := ih hframe.2
      exact ⟨frame :: frames, rfl⟩

end Server
end StupidP2P
