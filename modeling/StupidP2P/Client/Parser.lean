import StupidP2P.Client.RecvFifo
import StupidP2P.Server.Model

/-!
# `parse_recv_net_command`

The parser takes complete frames from the receive ring, copies each into a local array
of 2048 bytes and executes the command it finds there.  The array is cleared once per
call and not between frames, so a short frame is executed on top of the bytes of the
frame before it.

An index outside the array ends the model's run with `none`.  Arithmetic on `int` that
leaves its range is read as two's complement.  Calls of `calloc` are answered by a
parameter, which sees how many calls were made before and the size asked for; everything
that is printed is left out.

The main result, `parseRecvNetCommand_eq`, says what one call does with any bytes in
the ring whose frames fit into the array: it executes the complete frames of the
reference decoding in order and leaves the rest.
-/

namespace StupidP2P
namespace Client

open Foundation
open Foundation.Framing
open Server (ProtocolCode)

/-- Whether the `k`-th call of `calloc`, for so many bytes, succeeds. -/
abbrev Calloc := Nat → Nat → Bool

/-- `sizeof(recv_data_t)`. -/
def sizeofRecvData : Nat := 16

/-- `sizeof(recv_data_list_node_t)`. -/
def sizeofRecvDataListNode : Nat := 24

/-- A frame that was executed: its header and the bytes copied for it. -/
structure NetFrame where
  header : Int
  body : List UInt8
deriving DecidableEq

/-- A client as its receive thread sees it, with a record of what the thread did: the
calls of `calloc`, the frames executed, and the bytes dropped. -/
structure Receiver where
  node : ClientNode
  callocs : Nat
  executed : List NetFrame
  dropped : Nat

namespace Receiver

/-- A receive thread that has just started. -/
def fresh : Receiver := ⟨.fresh, 0, [], 0⟩

def setFifo (r : Receiver) (fifo : RecvDataFifo) : Receiver :=
  { r with node := { r.node with recvFifo := fifo } }

def log (r : Receiver) (frame : NetFrame) : Receiver :=
  { r with executed := r.executed ++ [frame] }

/-- So many calls of `calloc` were made. -/
def spend (r : Receiver) (calls : Nat) : Receiver :=
  { r with callocs := r.callocs + calls }

def addData (r : Receiver) (recvData : RecvData) : Receiver :=
  { r with node := { r.node with
      recvDataList := recvDataListAdd r.node.recvDataList recvData } }

def setFlag (r : Receiver) (status : RealtimeCommandStatus) : Receiver :=
  { r with node := { r.node with commandStatus := status } }

end Receiver

/-- The length of the array `command`. -/
def commandLimit : Nat := 2048

/-- The loop that copies the bytes of a frame into `command`. -/
def copyCommand : Nat → Nat → (Nat → UInt8) → RecvDataFifo →
    Option ((Nat → UInt8) × RecvDataFifo)
  | 0, _, command, fifo => some (command, fifo)
  | count + 1, i, command, fifo =>
      if i < commandLimit then
        copyCommand count (i + 1) (Function.update command i (recvDataFifoTop fifo))
          (recvDataFifoPop fifo 1)
      else none

/-- The case `SEND_DATA`.  `command_length - 1` is an `int`, and becomes a `size_t` in the
product with `sizeof(uint8_t)`: it is huge for an empty frame. -/
def execSendData (calloc : Calloc) (command : Nat → UInt8) (commandLength : Int)
    (r : Receiver) : Option Receiver :=
  let size := (wrap32 (commandLength - 1) % 18446744073709551616).toNat
  if calloc r.callocs size then
    if 1 + size ≤ commandLimit then
      let data := (List.range size).map fun i => command (i + 1)
      if calloc (r.callocs + 1) sizeofRecvData then
        if calloc (r.callocs + 2) sizeofRecvDataListNode then
          some ((r.spend 3).addData ⟨wrap32 (commandLength - 1), data⟩)
        else some (r.spend 3)
      else some (r.spend 2)
    else none
  else some (r.spend 1)

/-- The command a callback byte answers, as the `case` labels have them. -/
def callBackCode (byte : UInt8) : Option ProtocolCode :=
  if byte = 0x81 then some .registerDevice
  else if byte = 0x82 then some .subscribeDevice
  else if byte = 0x83 then some .sendData
  else if byte = 0x84 then some .unregisterDevice
  else if byte = 0x85 then some .unsubscribeDevice
  else if byte = 0x86 then some .checkDeviceAlive
  else if byte = 0x87 then some .heartBeat
  else none

/-- `EXEC_SUCCESS` if the byte is that, else `EXEC_FAIL`. -/
def callBackFlag (byte : UInt8) : UInt8 :=
  if byte = 0x01 then 0x01 else 0x00

theorem callBackCode_toByte (code : ProtocolCode) :
    callBackCode (code.toByte ||| Server.callBackMask) = some code := by
  cases code <;> rfl

/-- Store the result of a command in its flag. -/
def RealtimeCommandStatus.setFlag (status : RealtimeCommandStatus) (code : ProtocolCode)
    (flag : UInt8) : RealtimeCommandStatus :=
  match code with
  | .registerDevice => { status with registerFlag := flag }
  | .subscribeDevice => { status with subscribeFlag := flag }
  | .sendData => { status with sendDataFlag := flag }
  | .unregisterDevice => { status with unregisterFlag := flag }
  | .unsubscribeDevice => { status with unsubscribeFlag := flag }
  | .checkDeviceAlive => { status with checkAliveFlag := flag }
  | .heartBeat => { status with heartBeatFlag := flag }

/-- The flag of a command. -/
def RealtimeCommandStatus.flag (status : RealtimeCommandStatus) : ProtocolCode → UInt8
  | .registerDevice => status.registerFlag
  | .subscribeDevice => status.subscribeFlag
  | .sendData => status.sendDataFlag
  | .unregisterDevice => status.unregisterFlag
  | .unsubscribeDevice => status.unsubscribeFlag
  | .checkDeviceAlive => status.checkAliveFlag
  | .heartBeat => status.heartBeatFlag

theorem RealtimeCommandStatus.flag_setFlag (status : RealtimeCommandStatus)
    (code other : ProtocolCode) (value : UInt8) :
    (status.setFlag code value).flag other =
      if code = other then value else status.flag other := by
  cases code <;> cases other <;> rfl

/-- The `switch` on `command[0]`. -/
def execCommand (calloc : Calloc) (command : Nat → UInt8) (commandLength : Int)
    (r : Receiver) : Option Receiver :=
  if command 0 = 0x03 then execSendData calloc command commandLength r
  else
    match callBackCode (command 0) with
    | some code =>
        some (r.setFlag (r.node.commandStatus.setFlag code (callBackFlag (command 1))))
    | none => some r

/-- What one round of the parser's loop comes to. -/
inductive Round
  | fault
  | stop
  | next (command : Nat → UInt8) (r : Receiver)

/-- Execute the frame behind a header, if all of it is there. -/
def parseFrame (calloc : Calloc) (command : Nat → UInt8) (r : Receiver)
    (commandLength : Int) : Round :=
  if wrap32 (commandLength + 4) ≤ r.node.recvFifo.length then
    match copyCommand commandLength.toNat 0 command (recvDataFifoPop r.node.recvFifo 4) with
    | none => .fault
    | some (command, fifo) =>
        match execCommand calloc command commandLength
            ((r.setFifo fifo).log
              ⟨commandLength, (List.range commandLength.toNat).map command⟩) with
        | none => .fault
        | some r => .next command r
  else .stop

def parseRound (calloc : Calloc) (command : Nat → UInt8) (r : Receiver) : Round :=
  if 4 ≤ r.node.recvFifo.length then
    parseFrame calloc command r (recvDataFifoTopInt r.node.recvFifo)
  else .stop

/-- Every round that goes on takes a header from the ring, so `fuel` beyond the number
of bytes in it is never used up. -/
def parseLoop (calloc : Calloc) : Nat → (Nat → UInt8) → Receiver → Option Receiver
  | 0, _, r => some r
  | fuel + 1, command, r =>
      match parseRound calloc command r with
      | .fault => none
      | .stop => some r
      | .next command r => parseLoop calloc fuel command r

def parseRecvNetCommand (calloc : Calloc) (r : Receiver) : Option Receiver :=
  parseLoop calloc (r.node.recvFifo.length.toNat + 1) (fun _ => 0) r

/-! ## Copying -/

/-- Bytes written one after another from index `i` on. -/
def store : Nat → List UInt8 → (Nat → UInt8) → Nat → UInt8
  | _, [], command => command
  | i, b :: body, command => store (i + 1) body (Function.update command i b)

theorem store_of_lt (body : List UInt8) {i j : Nat} (hj : j < i) (command : Nat → UInt8) :
    store i body command j = command j := by
  induction body generalizing i command with
  | nil => rfl
  | cons b body ih =>
      rw [store, ih (by omega), Function.update_of_ne (by omega)]

theorem store_getElem {body : List UInt8} {k : Nat} {b : UInt8} (hb : body[k]? = some b)
    (i : Nat) (command : Nat → UInt8) : store i body command (i + k) = b := by
  induction body generalizing i k command with
  | nil => simp at hb
  | cons c body ih =>
      cases k with
      | zero =>
          rw [Nat.add_zero, store, store_of_lt body (by omega), Function.update_self]
          exact Option.some.inj hb
      | succ k =>
          rw [List.getElem?_cons_succ] at hb
          rw [store, ← ih hb (i + 1)]
          congr 1
          omega

/-- A frame of no bytes leaves the first byte of the one before it. -/
theorem store_headD (body : List UInt8) (command : Nat → UInt8) :
    store 0 body command 0 = body.headD (command 0) := by
  cases body with
  | nil => rfl
  | cons b body => exact store_getElem (k := 0) rfl 0 command

/-- The part of the array a frame was copied to holds the frame. -/
theorem map_store_range (body : List UInt8) (command : Nat → UInt8) (m : Nat) :
    (List.range (body.length - m)).map (fun i => store 0 body command (i + m)) =
      body.drop m := by
  apply List.ext_getElem
  · simp
  · intro k hk hk'
    rw [List.length_drop] at hk'
    rw [List.getElem_map, List.getElem_range, List.getElem_drop]
    have hget : body[m + k]? = some body[m + k] := List.getElem?_eq_getElem (by omega)
    have hstore := store_getElem hget 0 command
    rwa [Nat.zero_add, show store 0 body command (m + k) = store 0 body command (k + m) by
      rw [Nat.add_comm]] at hstore

theorem copyCommand_eq {fifo : RecvDataFifo} {body rest : List UInt8} {i : Nat}
    (hfifo : fifo.Holds (body ++ rest)) (hfits : i + body.length ≤ commandLimit)
    (command : Nat → UInt8) :
    ∃ fifo', fifo'.Holds rest ∧
      copyCommand body.length i command fifo = some (store i body command, fifo') := by
  induction body generalizing i fifo command with
  | nil => exact ⟨fifo, hfifo, rfl⟩
  | cons b body ih =>
      rw [List.length_cons] at hfits ⊢
      have hpop : (recvDataFifoPop fifo 1).Holds (body ++ rest) := hfifo.pop [b]
      obtain ⟨fifo', hrest, hcopy⟩ :=
        ih hpop (i := i + 1) (by omega) (Function.update command i b)
      refine ⟨fifo', hrest, ?_⟩
      rw [copyCommand, if_pos (by omega), hfifo.top_eq, hcopy]
      rfl

/-- A frame that does not fit runs over the end of the array. -/
theorem copyCommand_eq_none {count i : Nat} (hi : i ≤ commandLimit)
    (hover : commandLimit < i + count) (command : Nat → UInt8) (fifo : RecvDataFifo) :
    copyCommand count i command fifo = none := by
  induction count generalizing i command fifo with
  | zero => omega
  | succ count ih =>
      rw [copyCommand]
      split
      · exact ih (by omega) (by omega) _ _
      · rfl

/-! ## Executing -/

section

variable {calloc : Calloc} {command : Nat → UInt8} {commandLength : Int} {r : Receiver}

/-- Executing a command neither reads nor changes the ring. -/
theorem execSendData_setFifo (fifo : RecvDataFifo) :
    execSendData calloc command commandLength (r.setFifo fifo) =
      (execSendData calloc command commandLength r).map (·.setFifo fifo) := by
  simp only [execSendData, apply_ite (Option.map _), Option.map_some, Option.map_none]
  rfl

theorem execCommand_setFifo (fifo : RecvDataFifo) :
    execCommand calloc command commandLength (r.setFifo fifo) =
      (execCommand calloc command commandLength r).map (·.setFifo fifo) := by
  unfold execCommand
  split
  · exact execSendData_setFifo fifo
  · split <;> rfl

/-- What executing a command leaves alone. -/
structure Receiver.SameThread (r r' : Receiver) : Prop where
  executed_eq : r'.executed = r.executed
  dropped_eq : r'.dropped = r.dropped
  needToRestartFlag_eq : r'.node.needToRestartFlag = r.node.needToRestartFlag

theorem execSendData_same {r' : Receiver}
    (h : execSendData calloc command commandLength r = some r') : r.SameThread r' := by
  unfold execSendData at h
  dsimp only at h
  split at h
  · split at h
    · split at h
      · split at h
        · obtain rfl := Option.some.inj h
          exact ⟨rfl, rfl, rfl⟩
        · obtain rfl := Option.some.inj h
          exact ⟨rfl, rfl, rfl⟩
      · obtain rfl := Option.some.inj h
        exact ⟨rfl, rfl, rfl⟩
    · simp at h
  · obtain rfl := Option.some.inj h
    exact ⟨rfl, rfl, rfl⟩

theorem execCommand_same {r' : Receiver}
    (h : execCommand calloc command commandLength r = some r') : r.SameThread r' := by
  unfold execCommand at h
  split at h
  · exact execSendData_same h
  · split at h
    · obtain rfl := Option.some.inj h
      exact ⟨rfl, rfl, rfl⟩
    · obtain rfl := Option.some.inj h
      exact ⟨rfl, rfl, rfl⟩

end

/-- Execute a list of frames, each copied over the one before it. -/
def runFrames (calloc : Calloc) :
    (Nat → UInt8) → List (List UInt8) → Receiver → Option Receiver
  | _, [], r => some r
  | command, body :: frames, r =>
      match execCommand calloc (store 0 body command) body.length
          (r.log ⟨body.length, body⟩) with
      | none => none
      | some r => runFrames calloc (store 0 body command) frames r

theorem runFrames_setFifo {calloc : Calloc} {command : Nat → UInt8}
    {frames : List (List UInt8)} {r r' : Receiver} (fifo : RecvDataFifo)
    (h : runFrames calloc command frames r = some r') :
    runFrames calloc command frames (r.setFifo fifo) = some (r'.setFifo fifo) := by
  induction frames generalizing command r with
  | nil =>
      obtain rfl := Option.some.inj h
      rfl
  | cons body frames ih =>
      have hexec := @execCommand_setFifo calloc (store 0 body command) body.length
        (r.log ⟨body.length, body⟩) fifo
      change execCommand calloc _ _ ((r.setFifo fifo).log _) = _ at hexec
      rw [runFrames] at h ⊢
      rw [hexec]
      cases hresult : execCommand calloc (store 0 body command) body.length
          (r.log ⟨body.length, body⟩) with
      | none => simp [hresult] at h
      | some next =>
          rw [hresult] at h
          exact ih h

/-! ## The loop -/

/-- The lengths of frames that fit into `command`. -/
def fits (len : Int) : Bool := decide (0 ≤ len ∧ len ≤ 2048)

/-- What a decoding leaves over is less than one frame. -/
theorem length_lt_of_fits {queue : List UInt8} (hqueue : decode fits queue = ⟨[], queue, false⟩) :
    queue.length < 4 + 2048 := by
  have hlt := @length_rest_lt fits queue 2048 (by
    intro len hlen
    simp only [fits, decide_eq_true_eq] at hlen
    exact hlen.2)
  rw [hqueue] at hlt
  exact hlt rfl

section

variable {calloc : Calloc} {command : Nat → UInt8} {r : Receiver} {queue : List UInt8}

theorem parseRound_of_lt (hfifo : r.node.recvFifo.Holds queue) (hshort : queue.length < 4) :
    parseRound calloc command r = .stop := by
  have hlength := hfifo.length_eq
  rw [parseRound, if_neg (by omega)]

/-- The loop waits for the rest of a frame. -/
theorem parseRound_of_incomplete {a b c d : UInt8} {tail : List UInt8}
    (hfifo : r.node.recvFifo.Holds (a :: b :: c :: d :: tail))
    (hsmall : headerValue a b c d < 2147483644)
    (hshort : tail.length < (headerValue a b c d).toNat) :
    parseRound calloc command r = .stop := by
  have hlength := hfifo.length_eq
  simp only [List.length_cons] at hlength
  rw [parseRound, if_pos (by omega), hfifo.topInt_eq]
  generalize headerValue a b c d = len at hsmall hshort
  rw [parseFrame, wrap32_of_range (by omega) (by omega), if_neg (by omega)]

/-- A complete frame that does not fit is copied past the end of the array. -/
theorem parseRound_of_oversize {a b c d : UInt8} {tail : List UInt8}
    (hfifo : r.node.recvFifo.Holds (a :: b :: c :: d :: tail))
    (hover : 2048 < headerValue a b c d)
    (hcomplete : (headerValue a b c d).toNat ≤ tail.length) :
    parseRound calloc command r = .fault := by
  have hlength := hfifo.length_eq
  have hle := hfifo.length_le
  simp only [List.length_cons] at hlength hle
  rw [parseRound, if_pos (by omega), hfifo.topInt_eq]
  generalize headerValue a b c d = len at hover hcomplete
  have hlimit : commandLimit = 2048 := rfl
  rw [parseFrame, wrap32_of_range (by omega) (by omega), if_pos (by omega),
    copyCommand_eq_none (by omega) (by omega)]

/-- A complete frame that fits is taken from the ring and executed. -/
theorem parseRound_of_frame {body rest : List UInt8} (hfifo : r.node.recvFifo.Holds queue)
    (hhead : head fits queue = .frame body rest) :
    ∃ fifo, fifo.Holds rest ∧
      parseRound calloc command r =
        match execCommand calloc (store 0 body command) body.length
            ((r.setFifo fifo).log ⟨body.length, body⟩) with
        | none => .fault
        | some r => .next (store 0 body command) r := by
  obtain ⟨a, b, c, d, rfl, hfits, hbody⟩ := head_frame_iff.mp hhead
  have hlength := hfifo.length_eq
  have hle := hfifo.length_le
  simp only [List.length_cons, List.length_append] at hlength hle
  -- The header is popped at once, the body byte by byte.
  have hpop : (recvDataFifoPop r.node.recvFifo 4).Holds (body ++ rest) :=
    hfifo.pop [a, b, c, d]
  simp only [fits, decide_eq_true_eq] at hfits
  have hvalue : headerValue a b c d = body.length := by omega
  have hlimit : commandLimit = 2048 := rfl
  obtain ⟨fifo, hrest, hcopy⟩ := copyCommand_eq hpop (i := 0) (by omega) command
  refine ⟨fifo, hrest, ?_⟩
  have hframe := map_store_range body command 0
  simp only [Nat.sub_zero, Nat.add_zero, List.drop_zero] at hframe
  rw [parseRound, if_pos (by omega), hfifo.topInt_eq, hvalue, parseFrame,
    wrap32_of_range (by omega) (by omega), if_pos (by omega), Int.toNat_natCast, hcopy]
  dsimp only
  rw [hframe]

end

theorem parseRound_same {calloc : Calloc} {command command' : Nat → UInt8} {r r' : Receiver}
    (h : parseRound calloc command r = .next command' r') :
    r'.dropped = r.dropped ∧ r'.node.needToRestartFlag = r.node.needToRestartFlag := by
  unfold parseRound parseFrame at h
  split at h
  · split at h
    · split at h
      · simp at h
      · split at h
        · simp at h
        · rename_i hexec
          rw [Round.next.injEq] at h
          obtain ⟨-, rfl⟩ := h
          have hsame := execCommand_same hexec
          exact ⟨hsame.dropped_eq, hsame.needToRestartFlag_eq⟩
    · simp at h
  · simp at h

/-- The loop executes the complete frames in the ring. -/
theorem parseLoop_eq {calloc : Calloc} {fuel : Nat} {command : Nat → UInt8} {r r' : Receiver}
    {queue : List UInt8} (hfuel : queue.length < fuel)
    (hfifo : r.node.recvFifo.Holds queue) (hfits : (decode fits queue).stopped = false)
    (hrun : runFrames calloc command (decode fits queue).frames r = some r') :
    ∃ fifo, fifo.Holds (decode fits queue).rest ∧
      parseLoop calloc fuel command r = some (r'.setFifo fifo) := by
  induction fuel generalizing queue command r r' with
  | zero => omega
  | succ fuel ih =>
      rw [parseLoop]
      cases hhead : head fits queue with
      | frame body rest =>
          obtain ⟨fifo, hrest, hround⟩ :=
            @parseRound_of_frame calloc command r queue _ _ hfifo hhead
          have hlength := head_frame_length hhead
          rw [decode_of_frame hhead] at hfits hrun ⊢
          rw [runFrames] at hrun
          cases hexec : execCommand calloc (store 0 body command) body.length
              (r.log ⟨body.length, body⟩) with
          | none => simp [hexec] at hrun
          | some next =>
              rw [hexec] at hrun
              have hset : execCommand calloc (store 0 body command) body.length
                  ((r.setFifo fifo).log ⟨body.length, body⟩) = some (next.setFifo fifo) := by
                change execCommand calloc _ _ ((r.log ⟨body.length, body⟩).setFifo fifo) = _
                rw [execCommand_setFifo, hexec]
                rfl
              rw [hround, hset]
              -- The rest of the loop sees the ring without this frame.
              have hloop := ih (r := next.setFifo fifo) (by omega) hrest hfits
                (runFrames_setFifo fifo hrun)
              exact hloop
      | short =>
          rw [decode_of_short hhead] at hrun ⊢
          obtain rfl := Option.some.inj hrun
          refine ⟨r.node.recvFifo, hfifo, ?_⟩
          rcases head_short_iff.mp hhead with hlt | ⟨a, b, c, d, tail, rfl, hheader, hlt⟩
          · rw [parseRound_of_lt hfifo hlt]
            rfl
          · simp only [fits, decide_eq_true_eq] at hheader
            rw [parseRound_of_incomplete hfifo (by omega) hlt]
            rfl
      | bad =>
          -- A length that does not fit is excluded here; it runs over the array.
          rw [decode_of_bad hhead] at hfits
          simp at hfits

/-- **One call of the parser.**  If all frames in the ring fit, the complete ones are
executed in order and the bytes of the last, incomplete one stay in the ring. -/
theorem parseRecvNetCommand_eq {calloc : Calloc} {r r' : Receiver} {queue : List UInt8}
    (hfifo : r.node.recvFifo.Holds queue) (hfits : (decode fits queue).stopped = false)
    (hrun : runFrames calloc (fun _ => 0) (decode fits queue).frames r = some r') :
    ∃ fifo, fifo.Holds (decode fits queue).rest ∧
      parseRecvNetCommand calloc r = some (r'.setFifo fifo) := by
  have hlength := hfifo.length_eq
  exact parseLoop_eq (by omega) hfifo hfits hrun

/-- A call of the parser neither drops bytes nor asks for a restart. -/
theorem parseLoop_same {calloc : Calloc} {fuel : Nat} {command : Nat → UInt8} {r r' : Receiver}
    (h : parseLoop calloc fuel command r = some r') :
    r'.dropped = r.dropped ∧ r'.node.needToRestartFlag = r.node.needToRestartFlag := by
  induction fuel generalizing command r with
  | zero =>
      obtain rfl := Option.some.inj h
      exact ⟨rfl, rfl⟩
  | succ fuel ih =>
      rw [parseLoop] at h
      split at h
      · simp at h
      · obtain rfl := Option.some.inj h
        exact ⟨rfl, rfl⟩
      · rename_i next r₁ hround
        obtain ⟨hdropped, hflag⟩ := ih h
        have hsame := parseRound_same hround
        exact ⟨hdropped.trans hsame.1, hflag.trans hsame.2⟩

end Client
end StupidP2P
