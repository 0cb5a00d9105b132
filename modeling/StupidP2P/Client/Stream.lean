import StupidP2P.Client.Limits
import StupidP2P.Server.Frame

/-!
# What the C client makes of a stream

The receive loop executes a stream of frames of at most 2048 bytes completely, whatever
the sizes of the reads (`recvAll_eq`).  Here the frames are those of the server, and
the effect is read off: the payloads arrive in the list of received messages in order,
each flag holds the result of the last callback of its command, and nothing is left in
the ring.
-/

namespace StupidP2P
namespace Client

open Foundation
open Foundation.Framing
open Server (ProtocolCode Frame)

theorem toByte_ne_sendData (code : ProtocolCode) :
    code.toByte ||| Server.callBackMask ≠ 0x03 := by
  cases code <;> decide

theorem selfContained_frame {frame : Frame} (hfits : frame.body.length ≤ 2048) :
    SelfContained frame.body := by
  cases frame with
  | callback code result => exact ⟨by simp [Frame.body], hfits, fun _ => le_rfl⟩
  | data payload => exact selfContained_data hfits

/-- What one frame does to the received messages and to the flags, when all
allocations succeed. -/
structure Receives (frame : Frame) (r r' : Receiver) : Prop where
  list_eq : r'.node.recvDataList =
    r.node.recvDataList ++ (frame.payload?.toList.map fun payload => ⟨payload.length, payload⟩)
  flag_eq : ∀ code, r'.node.commandStatus.flag code =
    ((frame.result? code).map callBackFlag).getD (r.node.commandStatus.flag code)

theorem execFrame_receives {calloc : Calloc} (hcalloc : ∀ k size, calloc k size = true)
    {frame : Frame} (hfits : frame.body.length ≤ 2048) {r r' : Receiver}
    (h : execFrame calloc r frame.body = some r') : Receives frame r r' := by
  have hself := selfContained_frame hfits
  rw [execFrame, execCommand, store_zero hself.nonempty] at h
  cases frame with
  | callback code result =>
      have hresult : store 0 [code.toByte ||| Server.callBackMask, result] (fun _ => 0) 1 =
          result := store_getElem (k := 1) rfl 0 _
      simp only [Frame.body, List.headD_cons, if_neg (toByte_ne_sendData code),
        callBackCode_toByte, hresult, Option.some.injEq] at h
      rw [← h]
      constructor
      · simp [Receiver.setFlag, Receiver.log, Frame.payload?]
      · intro other
        show (r.node.commandStatus.setFlag code (callBackFlag result)).flag other = _
        rw [RealtimeCommandStatus.flag_setFlag]
        by_cases hother : code = other
        · simp [Frame.result?, hother]
        · simp [Frame.result?, hother]
  | data payload =>
      rw [show (Frame.data payload).body.headD 0 = 0x03 from rfl, if_pos rfl,
        execSendData_frame hself] at h
      simp only [hcalloc, if_true, Option.some.injEq] at h
      rw [← h]
      constructor
      · simp [Receiver.addData, Receiver.spend, Receiver.log, recvDataListAdd, Frame.payload?,
          Frame.body]
      · intro other
        rfl

/-- What a sequence of frames does, by induction on the frames. -/
theorem foldlM_execFrame_receives {calloc : Calloc}
    (hcalloc : ∀ k size, calloc k size = true) {frames : List Frame}
    (hfits : ∀ frame ∈ frames, frame.body.length ≤ 2048) {r r' : Receiver}
    (h : (frames.map Frame.body).foldlM (execFrame calloc) r = some r') :
    r'.node.recvDataList =
        r.node.recvDataList ++
          ((Frame.payloads frames).map fun payload => ⟨payload.length, payload⟩) ∧
      ∀ code, r'.node.commandStatus.flag code =
        ((Frame.lastResult code frames).map callBackFlag).getD
          (r.node.commandStatus.flag code) := by
  induction frames generalizing r with
  | nil =>
      obtain rfl := Option.some.inj h
      exact ⟨by simp [Frame.payloads], fun _ => rfl⟩
  | cons frame frames ih =>
      rw [List.forall_mem_cons] at hfits
      rw [List.map_cons, List.foldlM_cons] at h
      cases hnext : execFrame calloc r frame.body with
      | none => simp [hnext] at h
      | some next =>
          rw [hnext] at h
          have hone := execFrame_receives hcalloc hfits.1 hnext
          obtain ⟨hlist, hflag⟩ := ih hfits.2 h
          constructor
          · rw [hlist, hone.list_eq, List.append_assoc, ← List.map_append,
              Frame.payloads_cons]
          · intro code
            rw [hflag, hone.flag_eq, Frame.lastResult_cons]
            cases Frame.lastResult code frames <;> rfl

/-- **The C client decodes every stream within its limits.**  However the encoded frames
are split into reads of 1 to 4096 bytes, the loop has no index out of bounds and drops
no byte; afterwards the payloads were appended in order, each flag tells the result of
the last callback of its command, and the ring is empty. -/
theorem stream_received {calloc : Calloc} (hcalloc : ∀ k size, calloc k size = true)
    {r : Receiver} {data : Nat → UInt8} {frames : List Frame} {chunks : List (List UInt8)}
    (hflag : r.node.needToRestartFlag = false)
    (hfifo : r.node.recvFifo = recvDataFifoInit data)
    (hfits : ∀ frame ∈ frames, frame.body.length ≤ 2048)
    (hchunks : ∀ bytes ∈ chunks, 1 ≤ bytes.length ∧ bytes.length ≤ 4096)
    (hstream : chunks.flatten = encodeAll (frames.map Frame.body)) :
    ∃ r', recvAll calloc r chunks = some r' ∧ r'.dropped = r.dropped ∧
      r'.node.recvDataList =
        r.node.recvDataList ++
          ((Frame.payloads frames).map fun payload => ⟨payload.length, payload⟩) ∧
      (∀ code, r'.node.commandStatus.flag code =
        ((Frame.lastResult code frames).map callBackFlag).getD
          (r.node.commandStatus.flag code)) ∧
      r'.node.recvFifo.length = 0 ∧ r'.node.recvFifo.Holds [] := by
  have hself : ∀ body ∈ frames.map Frame.body, SelfContained body := by
    intro body hbody
    obtain ⟨frame, hframe, rfl⟩ := List.mem_map.mp hbody
    exact selfContained_frame (hfits frame hframe)
  have hdecode : decode fits ([] ++ chunks.flatten) =
      ⟨frames.map Frame.body, [], false⟩ := by
    rw [List.nil_append, hstream]
    refine decode_encodeAll ?_
    intro body hbody
    have hlimit := (hself body hbody).fits
    simp only [fits, decide_eq_true_eq]
    omega
  have hempty : r.node.recvFifo.Holds [] := by
    rw [hfifo]
    exact RecvDataFifo.holds_init data
  obtain ⟨last, fifo, hrun, hleft, hall⟩ := @recvAll_eq calloc r [] chunks hflag hempty
    (decode_of_short rfl) hchunks (by rw [hdecode]) (by rw [hdecode]; exact hself)
  rw [hdecode] at hrun hleft
  obtain ⟨hlist, hflags⟩ := foldlM_execFrame_receives hcalloc hfits hrun
  exact ⟨last.setFifo fifo, hall, (foldlM_execFrame_same hself hrun).2.1, hlist, hflags,
    hleft.length_eq, hleft⟩

/-- Two callbacks of one command around a message without payload, the second frame
being split in its header. -/
theorem stream_received_three_frames :
    ∃ r', recvAll (fun _ _ => true) .fresh
        [[0, 0, 0, 2, 0x81, 1, 0, 0], [0, 1, 3, 0, 0], [0, 2, 0x81, 0]] = some r' ∧
      r'.node.recvDataList = [⟨0, []⟩] ∧ r'.node.commandStatus.registerFlag = 0 := by
  obtain ⟨r', hall, -, hlist, hflags, -⟩ :=
    @stream_received (fun _ _ => true) (fun _ _ => rfl) .fresh (fun _ => 0)
      [.callback .registerDevice 1, .data [], .callback .registerDevice 0]
      [[0, 0, 0, 2, 0x81, 1, 0, 0], [0, 1, 3, 0, 0], [0, 2, 0x81, 0]]
      rfl rfl (by decide) (by decide) (by decide)
  exact ⟨r', hall, hlist, hflags .registerDevice⟩

end Client
end StupidP2P
