import StupidP2P.Client.RecvLoop
import StupidP2P.Server.Codec
import StupidP2P.Server.Agreement

/-!
# Size limits of server and client

The server accepts and forwards data messages of up to 65536 bytes.  The client reads
4096 bytes at a time into a ring of 8192 bytes and copies each frame into an array of
2048 bytes.  Only the last of these limits decides what can be received, and nothing
checks it: a forwarded message of more than 2048 bytes either runs over the array, or,
if it does not fit into the ring, is never complete.
-/

namespace StupidP2P
namespace Client

open Foundation
open Foundation.Framing
open Server (P2PServer Conn CodecSend)

/-- The loop takes in the chunks without an index out of bounds and without dropping a
byte, and the payload is appended to the received messages. -/
def Delivers (calloc : Calloc) (r : Receiver) (chunks : List (List UInt8))
    (payload : List UInt8) : Prop :=
  ∃ r', recvAll calloc r chunks = some r' ∧ r'.dropped = r.dropped ∧
    r'.node.recvDataList = r.node.recvDataList ++ [⟨payload.length, payload⟩]

/-- The three allocations for a message of so many bytes succeed. -/
def Allocates (calloc : Calloc) (callocs size : Nat) : Prop :=
  calloc callocs size = true ∧ calloc (callocs + 1) sizeofRecvData = true ∧
    calloc (callocs + 2) sizeofRecvDataListNode = true

section

variable {calloc : Calloc} {r : Receiver} {chunks : List (List UInt8)}

/-! ## Messages that fit -/

theorem selfContained_data {payload : List UInt8} (hfits : payload.length + 1 ≤ 2048) :
    SelfContained (0x03 :: payload) where
  nonempty := by simp
  fits := by
    rw [List.length_cons]
    exact hfits
  callBack := by
    intro hcode
    have hnone : callBackCode 0x03 = none := by decide
    exact absurd hnone hcode

/-- Executing a data frame adds its payload if the memory can be had, and no message
otherwise. -/
theorem execFrame_data {payload : List UInt8} {r' : Receiver}
    (hfits : payload.length + 1 ≤ 2048)
    (h : execFrame calloc r (0x03 :: payload) = some r') :
    r'.node.recvDataList = r.node.recvDataList ++ [⟨payload.length, payload⟩] ↔
      Allocates calloc r.callocs payload.length := by
  have hself := selfContained_data hfits
  rw [execFrame, execCommand, store_zero hself.nonempty, List.headD_cons, if_pos rfl,
    execSendData_frame hself] at h
  have hunchanged : ∀ frame calls, (r.log frame).spend calls = r' →
      ¬ r'.node.recvDataList = r.node.recvDataList ++ [⟨payload.length, payload⟩] := by
    rintro frame calls rfl heq
    exact absurd (congrArg List.length heq) (by simp [Receiver.spend, Receiver.log])
  have hsize : (0x03 :: payload).length - 1 = payload.length := by simp
  rw [hsize] at h
  change (if calloc r.callocs _ then if calloc (r.callocs + 1) _ then
    if calloc (r.callocs + 2) _ then _ else _ else _ else _) = _ at h
  split at h
  · rename_i hdata
    split at h
    · rename_i hrecv
      split at h
      · rename_i hnode
        obtain rfl := Option.some.inj h
        refine iff_of_true ?_ ⟨hdata, hrecv, hnode⟩
        simp [Receiver.addData, Receiver.spend, Receiver.log, recvDataListAdd]
      · rename_i hnode
        refine iff_of_false (hunchanged _ _ (Option.some.inj h)) ?_
        rintro ⟨-, -, htrue⟩
        exact hnode htrue
    · rename_i hrecv
      refine iff_of_false (hunchanged _ _ (Option.some.inj h)) ?_
      rintro ⟨-, htrue, -⟩
      exact hrecv htrue
  · rename_i hdata
    refine iff_of_false (hunchanged _ _ (Option.some.inj h)) ?_
    rintro ⟨htrue, -, -⟩
    exact hdata htrue

theorem delivers_iff_of_fits {payload : List UInt8} (hflag : r.node.needToRestartFlag = false)
    (hfifo : r.node.recvFifo.Holds [])
    (hchunks : ∀ bytes ∈ chunks, 1 ≤ bytes.length ∧ bytes.length ≤ 4096)
    (hstream : chunks.flatten = encodeFrame (0x03 :: payload))
    (hfits : payload.length + 1 ≤ 2048) :
    Delivers calloc r chunks payload ↔ Allocates calloc r.callocs payload.length := by
  have hdecode : decode fits ([] ++ chunks.flatten) = ⟨[0x03 :: payload], [], false⟩ := by
    have hall := @decode_encodeAll fits [0x03 :: payload] (by
      intro body hbody
      rw [List.mem_singleton] at hbody
      subst hbody
      simp only [fits, decide_eq_true_eq, List.length_cons]
      omega)
    rw [encodeAll_cons, encodeAll_nil, List.append_nil] at hall
    rw [List.nil_append, hstream, hall]
  obtain ⟨r', fifo, hrun, -, hall⟩ := @recvAll_eq calloc r [] chunks hflag hfifo
    (decode_of_short rfl) hchunks (by rw [hdecode]) (by
      rw [hdecode]
      intro body hbody
      rw [List.mem_singleton] at hbody
      subst hbody
      exact selfContained_data hfits)
  rw [hdecode] at hrun
  obtain ⟨next, hnext, hsame⟩ := @execFrame_some calloc r _ (selfContained_data hfits)
  rw [List.foldlM_cons, hnext] at hrun
  obtain rfl := Option.some.inj hrun
  rw [← execFrame_data hfits hnext]
  constructor
  · rintro ⟨last, hlast, -, hlist⟩
    rw [hall] at hlast
    obtain rfl := Option.some.inj hlast
    exact hlist
  · intro hlist
    exact ⟨_, hall, hsame.dropped_eq, hlist⟩

/-! ## Messages that do not -/

theorem parseRecvNetCommand_of_round {round : Round}
    (hround : parseRound calloc (fun _ => 0) r = round) :
    (round = .stop → parseRecvNetCommand calloc r = some r) ∧
      (round = .fault → parseRecvNetCommand calloc r = none) := by
  unfold parseRecvNetCommand
  rw [parseLoop, hround]
  constructor
  · rintro rfl
    rfl
  · rintro rfl
    rfl

/-- As long as a frame is incomplete the parser leaves everything as it is. -/
theorem parseRecvNetCommand_of_prefix {queue rest body : List UInt8}
    (hfifo : r.node.recvFifo.Holds queue) (hsmall : body.length ≤ 65536)
    (hsplit : queue ++ rest = encodeFrame body) (hrest : rest ≠ []) :
    parseRecvNetCommand calloc r = some r := by
  refine (parseRecvNetCommand_of_round rfl).1 ?_
  by_cases hshort : queue.length < 4
  · exact parseRound_of_lt hfifo hshort
  · obtain ⟨a, b, c, d, tail, rfl⟩ := exists_header_of_length (Nat.le_of_not_lt hshort)
    have hvalue := @headerValue_bigEndian body.length (by omega)
    simp only [encodeFrame, bigEndian, List.cons_append, List.nil_append,
      List.cons.injEq] at hsplit
    obtain ⟨rfl, rfl, rfl, rfl, htail⟩ := hsplit
    have hlength := congrArg List.length htail
    rw [List.length_append] at hlength
    have hpositive := List.length_pos_of_ne_nil hrest
    refine parseRound_of_incomplete hfifo ?_ ?_
    · rw [hvalue]
      omega
    · rw [hvalue, Int.toNat_natCast]
      omega

/-- Once it is complete, a frame that does not fit is copied past the end of the
array. -/
theorem parseRecvNetCommand_of_oversize {body : List UInt8}
    (hfifo : r.node.recvFifo.Holds (encodeFrame body)) (hover : 2048 < body.length) :
    parseRecvNetCommand calloc r = none := by
  have hle := hfifo.length_le
  rw [length_encodeFrame] at hle
  have hvalue := @headerValue_bigEndian body.length (by omega)
  refine (parseRecvNetCommand_of_round rfl).2 (parseRound_of_oversize hfifo ?_ ?_)
  · rw [hvalue]
    omega
  · rw [hvalue, Int.toNat_natCast]
    exact le_rfl

/-- A frame that does not fit is never taken in: if no index is out of bounds, then
bytes of it were dropped. -/
theorem recvAll_of_oversize {queue body : List UInt8} {r' : Receiver}
    (hflag : r.node.needToRestartFlag = false) (hfifo : r.node.recvFifo.Holds queue)
    (hchunks : ∀ bytes ∈ chunks, 1 ≤ bytes.length ∧ bytes.length ≤ 4096)
    (hsplit : queue ++ chunks.flatten = encodeFrame body)
    (hincomplete : chunks.flatten ≠ []) (hover : 2048 < body.length)
    (hsmall : body.length ≤ 65536) (hall : recvAll calloc r chunks = some r') :
    r.dropped < r'.dropped := by
  induction chunks generalizing r queue with
  | nil => exact absurd rfl hincomplete
  | cons bytes chunks ih =>
      obtain ⟨hbytes, hrest⟩ := List.forall_mem_cons.mp hchunks
      rw [recvAll, List.foldlM_cons] at hall
      rw [List.flatten_cons, ← List.append_assoc] at hsplit
      by_cases hroom : queue.length + bytes.length ≤ netReadDataLength
      · obtain ⟨fifo, hpushed, hround⟩ :=
          @recvRound_of_room calloc r queue bytes hflag hfifo hbytes.1 hroom
        by_cases hlast : chunks.flatten = []
        · -- The frame is complete.
          rw [hlast, List.append_nil] at hsplit
          rw [hsplit] at hpushed
          rw [hround, parseRecvNetCommand_of_oversize (r := r.setFifo fifo) hpushed hover]
            at hall
          simp at hall
        · -- Still incomplete: the parser waits.
          rw [hround, parseRecvNetCommand_of_prefix (r := r.setFifo fifo) hpushed hsmall
            hsplit hlast] at hall
          exact ih (r := r.setFifo fifo) hflag hpushed hrest hsplit hlast hall
      · -- The bytes are dropped, and what happens afterwards cannot undo that.
        rw [recvRound_of_full hflag hfifo hbytes.1 hbytes.2 (Nat.lt_of_not_le hroom)] at hall
        cases hparse : parseRecvNetCommand calloc (r.discard bytes.length) with
        | none => simp [hparse] at hall
        | some next =>
            rw [hparse] at hall
            have hdropped : next.dropped = r.dropped + bytes.length := (parseLoop_same hparse).1
            have hmore := recvAll_dropped hall
            omega

end

/-- **Size limits.**  A data message that the server accepts is forwarded unchanged.
Whatever the sizes of the reads, a client with an empty ring takes the forwarded frame
in, without an index out of bounds and without dropping a byte, and appends exactly its
payload, if and only if the message has at most 2048 bytes and the memory for it can be
had. -/
theorem forwarded_data_received_iff {σ σ' : P2PServer} {p : Conn} {payload : List UInt8}
    {sends : List CodecSend} {forwarded : CodecSend} {calloc : Calloc} {r : Receiver}
    {chunks : List (List UInt8)}
    (haccepts : Server.LengthHeaderCodec.accepts (0x03 :: payload).length = true)
    (hsends : σ.sendDataFunc p (0x03 :: payload) = some (σ', sends))
    (hforwarded : forwarded ∈ sends)
    (hflag : r.node.needToRestartFlag = false) (hfifo : r.node.recvFifo.Holds [])
    (hchunks : ∀ bytes ∈ chunks, 1 ≤ bytes.length ∧ bytes.length ≤ 4096)
    (hstream : chunks.flatten = Server.LengthHeaderCodec.send forwarded.message) :
    Delivers calloc r chunks payload ↔
      (0x03 :: payload).length ≤ 2048 ∧ Allocates calloc r.callocs payload.length := by
  rw [(P2PServer.sendDataFunc_eq_some hsends).2] at hforwarded
  obtain ⟨receiver, -, rfl⟩ := List.mem_map.mp hforwarded
  have hstream : chunks.flatten = encodeFrame (0x03 :: payload) := hstream
  have hsmall : (0x03 :: payload).length ≤ 65536 := by
    simp only [Server.LengthHeaderCodec.accepts, decide_eq_true_eq] at haccepts
    omega
  by_cases hfits : (0x03 :: payload).length ≤ 2048
  · rw [delivers_iff_of_fits hflag hfifo hchunks hstream (by simpa using hfits)]
    exact (and_iff_right hfits).symm
  · refine iff_of_false ?_ (fun h => hfits h.1)
    rintro ⟨r', hall, hdropped, -⟩
    have hincomplete : chunks.flatten ≠ [] := by
      rw [hstream]
      simp [encodeFrame, bigEndian]
    have hmore := recvAll_of_oversize hflag hfifo hchunks (by rw [List.nil_append, hstream])
      hincomplete (Nat.lt_of_not_le hfits) hsmall hall
    omega

/-- Connection 1 subscribed to the id of connection 0. -/
def served : P2PServer :=
  Server.after [.up 0 0, .up 1 0, .message 0 [1, 97] 0, .message 1 [2, 97] 0]

theorem served_sends (message : List UInt8) :
    ∃ σ', served.sendDataFunc 0 message = some (σ', [⟨1, message⟩]) :=
  ⟨_, rfl⟩

/-- A message of 2049 bytes, read in one piece, is copied past the end of the array. -/
theorem forwarded_data_overruns_array :
    ¬ ∀ (payload : List UInt8) (σ' : P2PServer) (chunks : List (List UInt8)),
      Server.LengthHeaderCodec.accepts (0x03 :: payload).length = true →
      served.sendDataFunc 0 (0x03 :: payload) = some (σ', [⟨1, 0x03 :: payload⟩]) →
      (∀ bytes ∈ chunks, 1 ≤ bytes.length ∧ bytes.length ≤ 4096) →
      chunks.flatten = Server.LengthHeaderCodec.send (0x03 :: payload) →
      Delivers (fun _ _ => true) .fresh chunks payload := by
  intro h
  obtain ⟨σ', hsends⟩ := served_sends (0x03 :: List.replicate 2048 0)
  have hlength : (encodeFrame (0x03 :: List.replicate 2048 0)).length = 2053 := by
    rw [length_encodeFrame, List.length_cons, List.length_replicate]
  obtain ⟨r', hall, -⟩ := h (List.replicate 2048 0) σ'
    [encodeFrame (0x03 :: List.replicate 2048 0)]
    (by
      rw [List.length_cons, List.length_replicate]
      decide)
    hsends
    (by
      intro bytes hbytes
      rw [List.mem_singleton] at hbytes
      subst hbytes
      omega)
    (by rw [List.flatten_singleton]; rfl)
  have hempty : Receiver.fresh.node.recvFifo.Holds [] := RecvDataFifo.holds_init _
  obtain ⟨fifo, hpushed, hround⟩ := @recvRound_of_room (fun _ _ => true) .fresh []
    (encodeFrame (0x03 :: List.replicate 2048 0)) rfl hempty (by omega)
    (by
      rw [hlength]
      decide)
  rw [List.nil_append] at hpushed
  have hover : 2048 < (0x03 :: List.replicate 2048 (0 : UInt8)).length := by
    rw [List.length_cons, List.length_replicate]
    omega
  rw [recvAll, List.foldlM_cons, hround, parseRecvNetCommand_of_oversize
    (r := Receiver.fresh.setFifo fifo) hpushed hover] at hall
  simp at hall

/-- A message of two bytes, with the header and the body read separately. -/
theorem forwarded_data_received_two_bytes :
    Delivers (fun _ _ => true) .fresh [[0, 0, 0], [2, 3], [120]] [120] := by
  obtain ⟨σ', hsends⟩ := served_sends [0x03, 120]
  refine (forwarded_data_received_iff (by decide) hsends (List.mem_singleton.mpr rfl) rfl
    (RecvDataFifo.holds_init _) (by decide) (by decide)).mpr ?_
  exact ⟨by decide, rfl, rfl, rfl⟩

end Client
end StupidP2P
