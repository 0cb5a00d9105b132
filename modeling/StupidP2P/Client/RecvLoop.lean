import StupidP2P.Client.Parser

/-!
# The receive loop

`_stupid_p2p_recv_func` reads at most 4096 bytes at a time, pushes them into the receive
ring if there is room and calls the parser.

A frame is self-contained if executing it does not look at bytes left in the parser's
array by an earlier frame.  A stream of self-contained frames of at most 2048 bytes is
executed completely and in order, whatever the sizes of the reads (`recvAll_eq`): the
parser leaves less than one frame behind, so there is always room for the next read.
-/

namespace StupidP2P
namespace Client

open Foundation
open Foundation.Framing

/-- What a call of `recv` gives: its result, the bytes it wrote to the buffer, and
whether `errno` is `EINTR`. -/
structure Receipt where
  ret : Int
  bytes : List UInt8
  interrupted : Bool

/-- A `recv` that returns some bytes. -/
def Receipt.chunk (bytes : List UInt8) : Receipt := ⟨bytes.length, bytes, false⟩

namespace Receiver

def askRestart (r : Receiver) : Receiver :=
  { r with node := { r.node with needToRestartFlag := true } }

/-- The branch "receive fifo is full": the bytes are not stored. -/
def discard (r : Receiver) (ret : Int) : Receiver :=
  { r with dropped := r.dropped + ret.toNat }

end Receiver

/-- What a round of the loop of `_stupid_p2p_recv_func` does once `recv` has returned. -/
def afterRecv (calloc : Calloc) (r : Receiver) (receipt : Receipt) : Option Receiver :=
  if receipt.ret ≤ 0 ∧ receipt.interrupted = false then some r.askRestart
  else if wrap32 (receipt.ret + r.node.recvFifo.length) > netReadDataLength then
    parseRecvNetCommand calloc (r.discard receipt.ret)
  else
    parseRecvNetCommand calloc
      (r.setFifo (recvDataFifoPush r.node.recvFifo receipt.bytes receipt.ret))

/-- One round of the loop of `_stupid_p2p_recv_func`. -/
def recvRound (calloc : Calloc) (r : Receiver) (receipt : Receipt) : Option Receiver :=
  if r.node.needToRestartFlag then some r
  else afterRecv calloc r receipt

/-- The loop run over a list of reads. -/
def recvAll (calloc : Calloc) (r : Receiver) (chunks : List (List UInt8)) :
    Option Receiver :=
  chunks.foldlM (fun r bytes => recvRound calloc r (.chunk bytes)) r

/-! ## Self-contained frames -/

/-- Executing the frame reads only bytes of the frame. -/
structure SelfContained (body : List UInt8) : Prop where
  nonempty : 1 ≤ body.length
  fits : body.length ≤ 2048
  callBack : callBackCode (body.headD 0) ≠ none → 2 ≤ body.length

/-- Execute one frame on a cleared array. -/
def execFrame (calloc : Calloc) (r : Receiver) (body : List UInt8) : Option Receiver :=
  execCommand calloc (store 0 body fun _ => 0) body.length (r.log ⟨body.length, body⟩)

section

variable {calloc : Calloc} {r : Receiver} {body : List UInt8}

theorem store_zero (hne : 1 ≤ body.length) (command : Nat → UInt8) :
    store 0 body command 0 = body.headD 0 := by
  rw [store_headD]
  cases body with
  | nil => simp at hne
  | cons b body => rfl

/-- A data frame whose allocations succeed is appended to the received messages. -/
theorem execSendData_frame (hself : SelfContained body) (command : Nat → UInt8) :
    execSendData calloc (store 0 body command) body.length r =
      if calloc r.callocs (body.length - 1) then
        if calloc (r.callocs + 1) sizeofRecvData then
          if calloc (r.callocs + 2) sizeofRecvDataListNode then
            some ((r.spend 3).addData ⟨(body.length : Int) - 1, body.drop 1⟩)
          else some (r.spend 3)
        else some (r.spend 2)
      else some (r.spend 1) := by
  have hne := hself.nonempty
  have hfits := hself.fits
  have hwrap : wrap32 ((body.length : Int) - 1) = (body.length : Int) - 1 :=
    wrap32_of_range (by omega) (by omega)
  have hsize : (((body.length : Int) - 1) % 18446744073709551616).toNat = body.length - 1 := by
    omega
  have hlimit : 1 + (body.length - 1) ≤ commandLimit := by
    have : commandLimit = 2048 := rfl
    omega
  unfold execSendData
  rw [hwrap, hsize]
  simp only [if_pos hlimit, map_store_range body command 1]

/-- What is left in the array by earlier frames does not matter. -/
theorem execCommand_store (hself : SelfContained body) (command : Nat → UInt8) :
    execCommand calloc (store 0 body command) body.length r =
      execCommand calloc (store 0 body fun _ => 0) body.length r := by
  unfold execCommand
  rw [store_zero hself.nonempty, store_zero hself.nonempty, execSendData_frame hself,
    execSendData_frame hself]
  cases hcode : callBackCode (body.headD 0) with
  | none => rfl
  | some code =>
      have htwo := hself.callBack (by rw [hcode]; exact Option.some_ne_none code)
      have hone : body[1]? = some body[1] := List.getElem?_eq_getElem (by omega)
      have hflag : ∀ command, store 0 body command 1 = body[1] := by
        intro command
        exact store_getElem (k := 1) hone 0 command
      rw [hflag, hflag]

theorem execFrame_some (hself : SelfContained body) :
    ∃ r', execFrame calloc r body = some r' ∧
      (r.log ⟨body.length, body⟩).SameThread r' := by
  suffices hsome : ∃ r', execFrame calloc r body = some r' by
    obtain ⟨r', hr'⟩ := hsome
    exact ⟨r', hr', execCommand_same hr'⟩
  unfold execFrame execCommand
  rw [execSendData_frame hself]
  split
  · split
    · split
      · split <;> exact ⟨_, rfl⟩
      · exact ⟨_, rfl⟩
    · exact ⟨_, rfl⟩
  · split <;> exact ⟨_, rfl⟩

end

/-- Executing self-contained frames one after another. -/
theorem runFrames_eq_foldlM {calloc : Calloc} {frames : List (List UInt8)}
    (hself : ∀ body ∈ frames, SelfContained body) (command : Nat → UInt8) (r : Receiver) :
    runFrames calloc command frames r = frames.foldlM (execFrame calloc) r := by
  induction frames generalizing command r with
  | nil => rfl
  | cons body frames ih =>
      obtain ⟨hbody, hframes⟩ := List.forall_mem_cons.mp hself
      rw [runFrames, execCommand_store hbody, List.foldlM_cons]
      cases hexec : execFrame calloc r body with
      | none =>
          rw [execFrame] at hexec
          rw [hexec]
          rfl
      | some next =>
          rw [execFrame] at hexec
          rw [hexec]
          exact ih hframes _ next

theorem foldlM_execFrame_some {calloc : Calloc} {frames : List (List UInt8)}
    (hself : ∀ body ∈ frames, SelfContained body) (r : Receiver) :
    ∃ r', frames.foldlM (execFrame calloc) r = some r' ∧
      r'.executed = r.executed ++ frames.map (fun body => ⟨body.length, body⟩) ∧
      r'.dropped = r.dropped ∧ r'.node.needToRestartFlag = r.node.needToRestartFlag := by
  induction frames generalizing r with
  | nil => exact ⟨r, rfl, by simp, rfl, rfl⟩
  | cons body frames ih =>
      obtain ⟨hbody, hframes⟩ := List.forall_mem_cons.mp hself
      obtain ⟨next, hnext, hsame⟩ := @execFrame_some calloc r body hbody
      obtain ⟨r', hr', hexecuted, hdropped, hflag⟩ := ih hframes next
      refine ⟨r', ?_, ?_, hdropped.trans hsame.dropped_eq,
        hflag.trans hsame.needToRestartFlag_eq⟩
      · rw [List.foldlM_cons, hnext]
        exact hr'
      · rw [hexecuted, hsame.executed_eq]
        simp [Receiver.log]

theorem foldlM_execFrame_same {calloc : Calloc} {frames : List (List UInt8)}
    (hself : ∀ body ∈ frames, SelfContained body) {r r' : Receiver}
    (h : frames.foldlM (execFrame calloc) r = some r') :
    r'.executed = r.executed ++ frames.map (fun body => ⟨body.length, body⟩) ∧
      r'.dropped = r.dropped ∧ r'.node.needToRestartFlag = r.node.needToRestartFlag := by
  obtain ⟨last, hlast, hsame⟩ := @foldlM_execFrame_some calloc frames hself r
  obtain rfl := Option.some.inj (h.symm.trans hlast)
  exact hsame

theorem foldlM_execFrame_setFifo {calloc : Calloc} {frames : List (List UInt8)}
    (hself : ∀ body ∈ frames, SelfContained body) {r r' : Receiver} (fifo : RecvDataFifo)
    (h : frames.foldlM (execFrame calloc) r = some r') :
    frames.foldlM (execFrame calloc) (r.setFifo fifo) = some (r'.setFifo fifo) := by
  rw [← runFrames_eq_foldlM hself fun _ => 0] at h ⊢
  exact runFrames_setFifo fifo h

/-! ## Reads -/

section

variable {calloc : Calloc} {r : Receiver} {queue bytes : List UInt8} {receipt : Receipt}

theorem recvRound_of_flag (hflag : r.node.needToRestartFlag = false) :
    recvRound calloc r receipt = afterRecv calloc r receipt := by
  rw [recvRound, hflag, if_neg Bool.false_ne_true]

theorem afterRecv_of_room (hfifo : r.node.recvFifo.Holds queue)
    (hret : receipt.ret = receipt.bytes.length)
    (hgoes : 1 ≤ receipt.bytes.length ∨ receipt.interrupted = true)
    (hroom : queue.length + receipt.bytes.length ≤ netReadDataLength) :
    ∃ fifo, fifo.Holds (queue ++ receipt.bytes) ∧
      afterRecv calloc r receipt = parseRecvNetCommand calloc (r.setFifo fifo) := by
  have hlength := hfifo.length_eq
  have hcapacity : netReadDataLength = 8192 := rfl
  have hnot : ¬ (receipt.ret ≤ 0 ∧ receipt.interrupted = false) := by
    rintro ⟨hle, hfalse⟩
    rcases hgoes with hbytes | htrue
    · omega
    · rw [htrue] at hfalse
      exact absurd hfalse (by decide)
  refine ⟨_, hfifo.push receipt.bytes hroom, ?_⟩
  rw [afterRecv, if_neg hnot, hret, wrap32_of_range (by omega) (by omega), if_neg (by omega)]

theorem recvRound_of_room (hflag : r.node.needToRestartFlag = false)
    (hfifo : r.node.recvFifo.Holds queue) (hne : 1 ≤ bytes.length)
    (hroom : queue.length + bytes.length ≤ netReadDataLength) :
    ∃ fifo, fifo.Holds (queue ++ bytes) ∧
      recvRound calloc r (.chunk bytes) = parseRecvNetCommand calloc (r.setFifo fifo) := by
  rw [recvRound_of_flag hflag]
  exact @afterRecv_of_room calloc r queue (.chunk bytes) hfifo rfl (Or.inl hne) hroom

theorem recvRound_of_full (hflag : r.node.needToRestartFlag = false)
    (hfifo : r.node.recvFifo.Holds queue) (hne : 1 ≤ bytes.length)
    (hsmall : bytes.length ≤ 4096) (hfull : netReadDataLength < queue.length + bytes.length) :
    recvRound calloc r (.chunk bytes) = parseRecvNetCommand calloc (r.discard bytes.length) := by
  have hlength := hfifo.length_eq
  have hle := hfifo.length_le
  have hcapacity : netReadDataLength = 8192 := rfl
  have hret : (Receipt.chunk bytes).ret = bytes.length := rfl
  rw [recvRound_of_flag hflag, afterRecv, if_neg (by omega),
    wrap32_of_range (by omega) (by omega), if_pos (by omega)]
  rfl

theorem recvRound_dropped {r' : Receiver} (h : recvRound calloc r receipt = some r') :
    r.dropped ≤ r'.dropped := by
  unfold recvRound afterRecv at h
  split at h
  · obtain rfl := Option.some.inj h
    exact le_rfl
  · split at h
    · obtain rfl := Option.some.inj h
      exact le_rfl
    · split at h
      · rw [(parseLoop_same h).1]
        exact Nat.le_add_right _ _
      · rw [(parseLoop_same h).1]
        exact le_rfl

/-- One read executes the frames it completes and leaves less than one frame in the
ring, so that the next read finds room. -/
theorem afterRecv_eq (hfifo : r.node.recvFifo.Holds queue)
    (hqueue : decode fits queue = ⟨[], queue, false⟩)
    (hret : receipt.ret = receipt.bytes.length) (hsmall : receipt.bytes.length ≤ 4096)
    (hgoes : 1 ≤ receipt.bytes.length ∨ receipt.interrupted = true)
    (hfits : (decode fits (queue ++ receipt.bytes)).stopped = false)
    (hself : ∀ body ∈ (decode fits (queue ++ receipt.bytes)).frames, SelfContained body) :
    ∃ r' fifo,
      (decode fits (queue ++ receipt.bytes)).frames.foldlM (execFrame calloc) r = some r' ∧
      fifo.Holds (decode fits (queue ++ receipt.bytes)).rest ∧
      afterRecv calloc r receipt = some (r'.setFifo fifo) := by
  have hresidue := length_lt_of_fits hqueue
  have hcapacity : netReadDataLength = 8192 := rfl
  obtain ⟨pushed, hpushed, hafter⟩ :=
    @afterRecv_of_room calloc r queue receipt hfifo hret hgoes (by omega)
  obtain ⟨r', hframes, -⟩ := @foldlM_execFrame_some calloc _ hself r
  have hrun := foldlM_execFrame_setFifo hself pushed hframes
  rw [← runFrames_eq_foldlM hself fun _ => 0] at hrun
  obtain ⟨fifo, hleft, hparse⟩ := parseRecvNetCommand_eq hpushed hfits hrun
  exact ⟨r', fifo, hframes, hleft, hafter.trans hparse⟩

end

theorem recvAll_dropped {calloc : Calloc} {r r' : Receiver} {chunks : List (List UInt8)}
    (h : recvAll calloc r chunks = some r') : r.dropped ≤ r'.dropped := by
  induction chunks generalizing r with
  | nil =>
      obtain rfl := Option.some.inj h
      exact le_rfl
  | cons bytes chunks ih =>
      rw [recvAll, List.foldlM_cons] at h
      cases hround : recvRound calloc r (.chunk bytes) with
      | none => simp [hround] at h
      | some next =>
          rw [hround] at h
          exact (recvRound_dropped hround).trans (ih h)

/-- **A stream of self-contained frames is executed completely**, from any position of
the ring and for any sizes of the reads.  The invariant is that the ring holds what the
decoding of the bytes so far leaves over, which is less than one frame. -/
theorem recvAll_eq {calloc : Calloc} {r : Receiver} {queue : List UInt8}
    {chunks : List (List UInt8)} (hflag : r.node.needToRestartFlag = false)
    (hfifo : r.node.recvFifo.Holds queue) (hqueue : decode fits queue = ⟨[], queue, false⟩)
    (hchunks : ∀ bytes ∈ chunks, 1 ≤ bytes.length ∧ bytes.length ≤ 4096)
    (hfits : (decode fits (queue ++ chunks.flatten)).stopped = false)
    (hself : ∀ body ∈ (decode fits (queue ++ chunks.flatten)).frames, SelfContained body) :
    ∃ r' fifo,
      (decode fits (queue ++ chunks.flatten)).frames.foldlM (execFrame calloc) r = some r' ∧
      fifo.Holds (decode fits (queue ++ chunks.flatten)).rest ∧
      recvAll calloc r chunks = some (r'.setFifo fifo) := by
  induction chunks generalizing r queue with
  | nil =>
      rw [List.flatten_nil, List.append_nil, hqueue]
      exact ⟨r, r.node.recvFifo, rfl, hfifo, rfl⟩
  | cons bytes chunks ih =>
      obtain ⟨hbytes, hrest⟩ := List.forall_mem_cons.mp hchunks
      rw [List.flatten_cons, ← List.append_assoc, decode_append (queue ++ bytes)]
        at hfits hself ⊢
      have hfits₁ : (decode fits (queue ++ bytes)).stopped = false := stopped_of_append hfits
      obtain ⟨hself₁, hself₂⟩ := List.forall_mem_append.mp hself
      obtain ⟨r₁, fifo₁, hrun₁, hleft, hround⟩ :=
        @afterRecv_eq calloc r queue (.chunk bytes) hfifo hqueue rfl hbytes.2
          (Or.inl hbytes.1) hfits₁ hself₁
      change (decode fits (queue ++ bytes)).frames.foldlM (execFrame calloc) r = some r₁
        at hrun₁
      change fifo₁.Holds (decode fits (queue ++ bytes)).rest at hleft
      obtain ⟨-, -, hflag₁⟩ := foldlM_execFrame_same hself₁ hrun₁
      -- The later reads start from what this one leaves in the ring.
      have hempty := @decode_rest fits (queue ++ bytes)
      rw [hfits₁] at hempty
      obtain ⟨r', fifo₂, hrun₂, hlast, hlater⟩ :=
        ih (r := r₁.setFifo fifo₁) (hflag₁.trans hflag) hleft hempty hrest hfits hself₂
      obtain ⟨r₂, hr₂, -⟩ := @foldlM_execFrame_some calloc _ hself₂ r₁
      rw [foldlM_execFrame_setFifo hself₂ fifo₁ hr₂] at hrun₂
      obtain rfl := Option.some.inj hrun₂
      refine ⟨r₂, fifo₂, ?_, hlast, ?_⟩
      · rw [List.foldlM_append, hrun₁]
        exact hr₂
      · rw [recvAll, List.foldlM_cons, recvRound_of_flag hflag, hround]
        exact hlater

end Client
end StupidP2P
