import StupidP2P.PythonClient.Model
import StupidP2P.Server.Frame

/-!
# What the Python client makes of a stream

The receive thread pops the header of a frame and, when the body is not complete yet,
pushes it back in the opposite byte order on a deque that is used backwards.  Seen from
the right of the deque this restores the four bytes exactly (`header_restored`), so a
round that finds no complete frame changes nothing.  The rest of the argument is that of
the reference decoding: between two reads the deque holds what decoding leaves over,
and every complete frame is executed once.
-/

namespace StupidP2P
namespace PythonClient

open Foundation
open Foundation.Framing
open Server (ProtocolCode Frame)

/-! ## Headers -/

/-- Pushed back as little endian on the right, the header is there again. -/
theorem header_restored (a b c d : UInt8) :
    (toBytesLittle (fromBytesBig [a, b, c, d])).reverse = [a, b, c, d] := by
  have hbytes : bigEndian (fromBytesBig [a, b, c, d]) = [a, b, c, d] := by
    apply bigEndian_of_digits
    simp only [fromBytesBig, List.foldl_cons, List.foldl_nil]
    omega
  exact hbytes

/-- A header of four bytes is read back. -/
theorem fromBytesBig_bigEndian {n : Nat} (hn : n < 4294967296) :
    fromBytesBig (bigEndian n) = n := by
  simp only [bigEndian, fromBytesBig, List.foldl_cons, List.foldl_nil, UInt8.toNat_ofNat']
  omega

/-- The lengths of the frames a server can send. -/
def delivers (len : Int) : Bool := decide (1 ≤ len ∧ len ≤ 65536)

/-- For these lengths the unsigned header is the signed one. -/
theorem fromBytesBig_eq {a b c d : UInt8} (h : delivers (headerValue a b c d) = true) :
    fromBytesBig [a, b, c, d] = (headerValue a b c d).toNat := by
  have ha := a.toNat_lt
  have hb := b.toNat_lt
  have hc := c.toNat_lt
  have hd := d.toNat_lt
  rw [delivers, decide_eq_true_iff] at h
  unfold headerValue at h ⊢
  rw [wrap32_of_nonneg (by omega) (by omega) (by omega)]
  simp only [fromBytesBig, List.foldl_cons, List.foldl_nil]
  omega

/-! ## One frame -/

namespace ClientRecvThread

variable {taken : Taken} {t : ClientRecvThread}

/-- What a frame is to do. -/
def receive (taken : Taken) (t : ClientRecvThread) : Frame → ClientRecvThread
  | .callback code result =>
      { t with commandResponse := Function.update t.commandResponse code result }
  | .data payload => t.putData taken payload

theorem putData_setDeque (deque : Deque UInt8) (data : List UInt8) :
    (t.setDeque deque).putData taken data = (t.putData taken data).setDeque deque := by
  unfold putData full setDeque
  split <;> rfl

theorem receive_setDeque (deque : Deque UInt8) (frame : Frame) :
    (t.setDeque deque).receive taken frame = (t.receive taken frame).setDeque deque := by
  cases frame with
  | callback code result => rfl
  | data payload => exact putData_setDeque deque payload

theorem foldl_receive_setDeque (deque : Deque UInt8) (frames : List Frame) :
    frames.foldl (receive taken) (t.setDeque deque) =
      (frames.foldl (receive taken) t).setDeque deque := by
  induction frames generalizing t with
  | nil => rfl
  | cons frame frames ih =>
      rw [List.foldl_cons, List.foldl_cons, receive_setDeque, ih]

theorem responseCode_toByte (code : ProtocolCode) :
    responseCode (code.toByte ||| Server.callBackMask) = some code := by
  cases code <;> rfl

/-- A frame in front of the deque is executed and removed. -/
theorem takeFrame_eq {frame : Frame} {rest : List UInt8}
    (h : t.recvDeque.fromRight = frame.body ++ rest) :
    takeFrame taken frame.body.length t =
      some ((t.receive taken frame).setDeque (.ofRight rest)) := by
  cases frame with
  | callback code result =>
      have hpop : t.recvDeque.pop = some (code.toByte ||| Server.callBackMask,
          .ofRight (result :: rest)) := Deque.pop_eq h
      have hresult : (Deque.ofRight (result :: rest)).pop = some (result, .ofRight rest) :=
        Deque.pop_eq (Deque.fromRight_ofRight _)
      simp only [takeFrame, hpop, execCommand, responseCode_toByte, getCommandResponse,
        setDeque, hresult]
      rfl
  | data payload =>
      have hpop : t.recvDeque.pop = some (0x03, .ofRight (payload ++ rest)) := Deque.pop_eq h
      have hdata : (Deque.ofRight (payload ++ rest)).popN payload.length =
          some (payload, .ofRight rest) := Deque.popN_eq (Deque.fromRight_ofRight _)
      have hlength : (Frame.data payload).body.length - 1 = payload.length := by
        simp [Frame.body]
      have hnone : responseCode 0x03 = none := by decide
      -- The payload is popped whole, so nothing is left to drop.
      simp only [takeFrame, hpop, execCommand, hnone, if_true, hlength, setDeque, hdata,
        Nat.sub_self]
      show some _ = some _
      exact congrArg some (putData_setDeque (.ofRight rest) payload)

/-! ## The loop -/

/-- While the frame in front is incomplete, a round leaves the deque as it was. -/
theorem parseLoop_of_short {fuel : Nat} (h : head delivers t.recvDeque.fromRight = .short) :
    parseLoop taken (fuel + 1) t = some t := by
  rw [parseLoop]
  by_cases hlong : t.recvDeque.length > commandHeaderLength
  · rw [if_pos hlong]
    have hfour : commandHeaderLength = 4 := rfl
    rcases head_short_iff.mp h with hlt | ⟨a, b, c, d, tail, hbytes, hadmits, hshort⟩
    · rw [Deque.length_fromRight] at hlt
      omega
    · -- The header is popped and pushed back.
      have hpop : t.recvDeque.popN commandHeaderLength = some ([a, b, c, d], .ofRight tail) :=
        @Deque.popN_eq _ t.recvDeque [a, b, c, d] tail hbytes
      have hheader := fromBytesBig_eq hadmits
      have hincomplete : ¬ (Deque.ofRight tail).length ≥ fromBytesBig [a, b, c, d] := by
        rw [Deque.length_ofRight, hheader]
        omega
      have hback : (Deque.ofRight tail).extend (toBytesLittle (fromBytesBig [a, b, c, d])) =
          t.recvDeque := by
        rw [← Deque.ofRight_fromRight t.recvDeque, hbytes,
          ← Deque.ofRight_fromRight (Deque.extend _ _), Deque.fromRight_extend,
          header_restored, Deque.fromRight_ofRight]
        rfl
      simp only [hpop, if_neg hincomplete, hback]
      rfl
  · rw [if_neg hlong]

/-- A complete frame is executed, and the loop goes on behind it. -/
theorem parseLoop_of_frame {fuel : Nat} {frame : Frame} {rest : List UInt8}
    (h : head delivers t.recvDeque.fromRight = .frame frame.body rest) :
    parseLoop taken (fuel + 1) t =
      parseLoop taken fuel ((t.receive taken frame).setDeque (.ofRight rest)) := by
  obtain ⟨a, b, c, d, hbytes, hadmits, hlength⟩ := head_frame_iff.mp h
  have hpos := frame.body_length_pos
  have hlong : t.recvDeque.length > commandHeaderLength := by
    have hfour : commandHeaderLength = 4 := rfl
    have htotal := congrArg List.length hbytes
    simp only [Deque.length_fromRight, List.length_cons, List.length_append] at htotal
    omega
  have hpop : t.recvDeque.popN commandHeaderLength =
      some ([a, b, c, d], .ofRight (frame.body ++ rest)) :=
    @Deque.popN_eq _ t.recvDeque [a, b, c, d] (frame.body ++ rest) hbytes
  have hheader : fromBytesBig [a, b, c, d] = frame.body.length :=
    (fromBytesBig_eq hadmits).trans hlength
  have hcomplete : (Deque.ofRight (frame.body ++ rest)).length ≥ frame.body.length := by
    rw [Deque.length_ofRight, List.length_append]
    omega
  rw [parseLoop, if_pos hlong]
  simp only [hpop, hheader, if_pos hcomplete]
  rw [takeFrame_eq (t := t.setDeque (.ofRight (frame.body ++ rest)))
    (Deque.fromRight_ofRight _), receive_setDeque]
  rfl

/-- **The inner loop** executes the complete frames of the reference decoding in order
and leaves the rest in the deque. -/
theorem parseLoop_eq {frames : List Frame} {rest : List UInt8} {fuel : Nat}
    (hdecode : decode delivers t.recvDeque.fromRight = ⟨frames.map Frame.body, rest, false⟩)
    (hfuel : t.recvDeque.length < fuel) :
    parseLoop taken fuel t =
      some ((frames.foldl (receive taken) t).setDeque (.ofRight rest)) := by
  induction frames generalizing t fuel with
  | nil =>
      obtain ⟨fuel, rfl⟩ : ∃ n, fuel = n + 1 := ⟨fuel - 1, by omega⟩
      cases hhead : head delivers t.recvDeque.fromRight with
      | frame body rest => simp [decode_of_frame hhead] at hdecode
      | short =>
          rw [decode_of_short hhead, Decoding.mk.injEq] at hdecode
          rw [parseLoop_of_short hhead, ← hdecode.2.1, Deque.ofRight_fromRight]
          rfl
      | bad => simp [decode_of_bad hhead] at hdecode
  | cons frame frames ih =>
      obtain ⟨fuel, rfl⟩ : ∃ n, fuel = n + 1 := ⟨fuel - 1, by omega⟩
      cases hhead : head delivers t.recvDeque.fromRight with
      | frame body behind =>
          rw [decode_of_frame hhead, Decoding.mk.injEq, List.map_cons, List.cons.injEq]
            at hdecode
          obtain ⟨⟨rfl, hframes⟩, hrest, hstopped⟩ := hdecode
          have hlength := head_frame_length hhead
          rw [Deque.length_fromRight] at hlength
          have hbehind : decode delivers (Deque.ofRight behind).fromRight =
              ⟨frames.map Frame.body, rest, false⟩ := by
            rw [Deque.fromRight_ofRight, ← hframes, ← hrest, ← hstopped]
          rw [parseLoop_of_frame hhead,
            ih (t := (t.receive taken frame).setDeque (.ofRight behind)) hbehind ?_]
          · rw [List.foldl_cons, foldl_receive_setDeque]
            rfl
          · show (Deque.ofRight behind).length < fuel
            rw [Deque.length_ofRight]
            omega
      | short => simp [decode_of_short hhead] at hdecode
      | bad => simp [decode_of_bad hhead] at hdecode

end ClientRecvThread

/-! ## Reads -/

open ClientRecvThread

theorem runRound_data {taken : Taken} (t : ClientRecvThread) (bytes : List UInt8) :
    runRound taken t (.data bytes) =
      parse taken (t.setDeque (t.recvDeque.extendleft bytes)) := by
  unfold runRound
  dsimp only
  split
  · rfl
  · rename_i hzero
    rw [ne_eq, not_not, List.length_eq_zero_iff] at hzero
    subst hzero
    rfl

/-- **Any splitting.**  Between two reads the deque holds what the decoding of the bytes
so far leaves over; the frames are executed in order. -/
theorem run_eq {taken : Taken} {t : ClientRecvThread} {frames : List Frame}
    {rest : List UInt8} {chunks : List (List UInt8)}
    (hdeque : decode delivers t.recvDeque.fromRight = ⟨[], t.recvDeque.fromRight, false⟩)
    (hdecode : decode delivers (t.recvDeque.fromRight ++ chunks.flatten) =
      ⟨frames.map Frame.body, rest, false⟩) :
    run taken t (chunks.map .data) =
      some ((frames.foldl (receive taken) t).setDeque (.ofRight rest)) := by
  induction chunks generalizing t frames with
  | nil =>
      rw [List.flatten_nil, List.append_nil, hdeque, Decoding.mk.injEq] at hdecode
      obtain rfl : frames = [] := List.map_eq_nil_iff.mp hdecode.1.symm
      rw [← hdecode.2.1, Deque.ofRight_fromRight]
      rfl
  | cons bytes chunks ih =>
      rw [List.flatten_cons, ← List.append_assoc, decode_append, Decoding.mk.injEq] at hdecode
      obtain ⟨hframes, hrest, hstopped⟩ := hdecode
      obtain ⟨first, later, rfl, hfirst, hlater⟩ := List.map_eq_append_iff.mp hframes.symm
      have hgoes := stopped_of_append hstopped
      have hleft := @decode_rest delivers (t.recvDeque.fromRight ++ bytes)
      rw [hgoes] at hleft
      generalize hresidue : (decode delivers (t.recvDeque.fromRight ++ bytes)).rest = residue
        at hlater hrest hstopped hleft
      -- This read executes `first` and leaves `residue` for the later ones.
      have hround : runRound taken t (.data bytes) =
          some ((first.foldl (receive taken) t).setDeque (.ofRight residue)) := by
        rw [runRound_data, parse, @parseLoop_eq taken _ first residue _ ?_
          (Nat.lt_succ_self _), foldl_receive_setDeque]
        · rfl
        · show decode delivers (t.recvDeque.extendleft bytes).fromRight = _
          rw [Deque.fromRight_extendleft, hfirst, ← hresidue, ← hgoes]
      have hlast := @ih ((first.foldl (receive taken) t).setDeque (.ofRight residue)) later
        (by
          show decode delivers (Deque.ofRight residue).fromRight =
            ⟨[], (Deque.ofRight residue).fromRight, false⟩
          rw [Deque.fromRight_ofRight, hleft])
        (by
          show decode delivers ((Deque.ofRight residue).fromRight ++ chunks.flatten) = _
          rw [Deque.fromRight_ofRight, hlater, ← hrest, ← hstopped])
      rw [List.map_cons, run, List.foldlM_cons, hround]
      show run taken _ (chunks.map .data) = _
      rw [hlast, foldl_receive_setDeque, List.foldl_append]
      rfl

/-- The last result of a command, when a callback stands in front. -/
theorem getD_lastResult_callback (response : ProtocolCode → UInt8) (code other : ProtocolCode)
    (result : UInt8) (frames : List Frame) :
    (Frame.lastResult other (.callback code result :: frames)).getD (response other) =
      (Frame.lastResult other frames).getD (Function.update response code result other) := by
  rw [Frame.lastResult_cons]
  cases Frame.lastResult other frames with
  | some last => rfl
  | none =>
      by_cases hother : other = code
      · simp [Frame.result?, hother]
      · simp [Frame.result?, hother, Ne.symm hother]

theorem receive_data_of_room {taken : Taken} {t : ClientRecvThread} (payload : List UInt8)
    (hroom : t.recvDataQueue.length - taken t.fullCalls < recvDataQueueMax) :
    t.receive taken (.data payload) =
      { t with
        recvDataQueue := t.recvDataQueue ++ [payload]
        fullCalls := t.fullCalls + 1 } := by
  have hfull : t.full taken = false := by
    simpa [full] using hroom
  show t.putData taken payload = _
  rw [putData, hfull, if_neg Bool.false_ne_true]

/-- What a sequence of frames does as long as the queue has room for every message. -/
theorem foldl_receive {taken : Taken} {t : ClientRecvThread} {frames : List Frame}
    (hroom : ∀ k < (Frame.payloads frames).length,
      t.recvDataQueue.length + k - taken (t.fullCalls + k) < recvDataQueueMax) :
    frames.foldl (receive taken) t =
      { recvDeque := t.recvDeque
        commandResponse := fun code =>
          (Frame.lastResult code frames).getD (t.commandResponse code)
        recvDataQueue := t.recvDataQueue ++ Frame.payloads frames
        fullCalls := t.fullCalls + (Frame.payloads frames).length } := by
  induction frames generalizing t with
  | nil => simp [Frame.payloads, Frame.lastResult]
  | cons frame frames ih =>
      cases frame with
      | callback code result =>
          have hpayloads : Frame.payloads (.callback code result :: frames) =
              Frame.payloads frames := rfl
          rw [hpayloads] at hroom ⊢
          rw [List.foldl_cons, ih (t := t.receive taken (.callback code result)) hroom]
          simp only [getD_lastResult_callback]
          rfl
      | data payload =>
          have hpayloads : Frame.payloads (.data payload :: frames) =
              payload :: Frame.payloads frames := rfl
          rw [hpayloads, List.length_cons] at hroom
          have hfirst := hroom 0 (Nat.succ_pos _)
          rw [Nat.add_zero, Nat.add_zero] at hfirst
          rw [List.foldl_cons, receive_data_of_room payload hfirst, ih, hpayloads]
          · simp only [Frame.lastResult_cons, Frame.result?, Option.or_none,
              List.append_assoc, List.length_cons, List.singleton_append]
            congr 1
            omega
          · -- The consumer is asked once more for every message put before.
            intro k hk
            have hnext := hroom (k + 1) (by omega)
            simp only [List.length_append, List.length_singleton]
            rw [show t.recvDataQueue.length + 1 + k = t.recvDataQueue.length + (k + 1) by omega,
              show t.fullCalls + 1 + k = t.fullCalls + (k + 1) by omega]
            exact hnext

/-- **The Python client decodes every stream the server can send.**  However the encoded
frames are split into reads, no `pop` meets an empty deque; the payloads are put into the
queue in order, `commandResponse` holds the last result of each command, and the deque
is empty in the end.  The state reached does not depend on the splitting. -/
theorem python_stream_received {taken : Taken} {t : ClientRecvThread} {frames : List Frame}
    {chunks : List (List UInt8)} (hempty : t.recvDeque = Deque.empty)
    (hsmall : ∀ frame ∈ frames, frame.body.length ≤ 65536)
    (hroom : ∀ k < (Frame.payloads frames).length,
      t.recvDataQueue.length + k - taken (t.fullCalls + k) < recvDataQueueMax)
    (hstream : chunks.flatten = encodeAll (frames.map Frame.body)) :
    run taken t (chunks.map .data) =
      some
        { recvDeque := Deque.empty
          commandResponse := fun code =>
            (Frame.lastResult code frames).getD (t.commandResponse code)
          recvDataQueue := t.recvDataQueue ++ Frame.payloads frames
          fullCalls := t.fullCalls + (Frame.payloads frames).length } := by
  have hnothing : t.recvDeque.fromRight = [] := by
    rw [hempty]
    rfl
  have hdecode : decode delivers (encodeAll (frames.map Frame.body)) =
      ⟨frames.map Frame.body, [], false⟩ := by
    refine decode_encodeAll ?_
    intro body hbody
    obtain ⟨frame, hframe, rfl⟩ := List.mem_map.mp hbody
    have hpos := frame.body_length_pos
    have hlimit := hsmall frame hframe
    rw [delivers, decide_eq_true_iff]
    omega
  rw [@run_eq taken t frames [] chunks, foldl_receive hroom]
  · rfl
  · rw [hnothing]
    exact decode_of_short rfl
  · rw [hnothing, List.nil_append, hstream, hdecode]

/-- A callback and a message, split inside the second header and inside the payload. -/
theorem python_stream_received_two_frames :
    run (fun _ => 0) .initial
        [.data [0, 0, 0, 2, 0x81, 1, 0, 0], .data [0, 3, 3, 104], .data [105]] =
      some
        { recvDeque := Deque.empty
          commandResponse := fun code =>
            (Frame.lastResult code [.callback .registerDevice 1, .data [104, 105]]).getD 0xff
          recvDataQueue := [[104, 105]]
          fullCalls := 1 } :=
  @python_stream_received (fun _ => 0) .initial
    [.callback .registerDevice 1, .data [104, 105]]
    [[0, 0, 0, 2, 0x81, 1, 0, 0], [0, 3, 3, 104], [105]] rfl (by decide) (by decide) (by decide)

end PythonClient
end StupidP2P
