import StupidP2P.Client.Parser

/-!
# Queueing and sending commands

A call of the API builds a buffer with the command byte and the data, resets the flag of
the command and pushes the buffer (`need_to_send`).  The send thread takes one buffer
after another, puts the length in front of it in an array that it keeps for all of them
(`prepend_length_to_buf_s`), and hands the array to `send`.

A read or write outside an object is `none`.  The ring of commands is described by the
commands waiting in it; `prependLengthToBufS_eq` says that whatever earlier frames left
in the array, the bytes handed to `send` are the frame of the buffer.
-/

namespace StupidP2P
namespace Client

open Foundation
open Foundation.Framing
open Server (ProtocolCode)

/-! ## `need_to_send` -/

/-- `CALL_BACK_NOT_RECEIVE`. -/
def callBackNotReceive : UInt8 := 0xff

/-- The command whose flag the `switch` of `need_to_send` selects. -/
def commandCode (command : UInt8) : Option ProtocolCode :=
  if command = 0x01 then some .registerDevice
  else if command = 0x02 then some .subscribeDevice
  else if command = 0x03 then some .sendData
  else if command = 0x04 then some .unregisterDevice
  else if command = 0x05 then some .unsubscribeDevice
  else if command = 0x06 then some .checkDeviceAlive
  else if command = 0x07 then some .heartBeat
  else none

/-- What `need_to_send` comes to before it stores the flag. -/
inductive Admission
  | refused (result : StupidP2PResult)
  | queued (code : ProtocolCode) (sendData : List UInt8) (size : Int)
deriving DecidableEq

/-- `need_to_send` up to the `switch`.  `found` is what `find_stupid_p2p` returns, and
`data` are the bytes that may be read at the pointer.  A negative `length` is a huge
`size_t` for `memcpy`. -/
def needToSend (found : Option ClientNode) (malloc : Nat → Bool) (fd : Int) (command : UInt8)
    (data : List UInt8) (length : Int) : Option Admission :=
  if length > 256 ∨ fd ≤ 0 then some (.refused .badParam)
  else
    match found with
    | none => some (.refused .errorCommond)
    | some node =>
        if node.needToRestartFlag then some (.refused .restarting)
        else
          let allocated := ((length + 1) % 18446744073709551616).toNat
          let copied := (length % 18446744073709551616).toNat
          if malloc allocated then
            -- `memcpy` comes before the `switch`, and has to stay within both buffers.
            if 1 + copied ≤ allocated ∧ copied ≤ data.length then
              match commandCode command with
              | some code => some (.queued code (command :: data.take copied) (length + 1))
              | none => some (.refused .badParam)
            else none
          else some (.refused .memoryError)

/-- Reset the flag of the command. -/
def ClientNode.awaitFlag (node : ClientNode) (code : ProtocolCode) : ClientNode :=
  { node with commandStatus := node.commandStatus.setFlag code callBackNotReceive }

/-- Push the buffer for the send thread. -/
def ClientNode.pushCommand (node : ClientNode) (sendData : List UInt8) (size : Int) :
    ClientNode :=
  { node with sendFifo := (sendCommandFifoPush node.sendFifo sendData size).1 }

/-- A call with as many bytes of data as it says is queued when the memory can be had. -/
theorem needToSend_eq {node : ClientNode} (hflag : node.needToRestartFlag = false)
    {malloc : Nat → Bool} {fd : Int} (hfd : 0 < fd) {command : UInt8} {code : ProtocolCode}
    (hcode : commandCode command = some code) {data : List UInt8} (hlength : data.length ≤ 256) :
    needToSend (some node) malloc fd command data data.length =
      if malloc (data.length + 1) then
        some (.queued code (command :: data) (data.length + 1))
      else some (.refused .memoryError) := by
  have hallocated : (((data.length : Int) + 1) % 18446744073709551616).toNat =
      data.length + 1 := by
    omega
  have hcopied : ((data.length : Int) % 18446744073709551616).toNat = data.length := by
    omega
  have hinside : 1 + data.length ≤ data.length + 1 ∧ data.length ≤ data.length := by
    omega
  have hadmitted : ¬ ((data.length : Int) > 256 ∨ fd ≤ 0) := by
    omega
  rw [needToSend, if_neg hadmitted]
  dsimp only
  rw [hflag, if_neg Bool.false_ne_true, hallocated, hcopied, if_pos hinside, hcode,
    List.take_length]

/-- What `need_to_send` queues: the command byte and all of the data, with its length.  No
allocation of more than `PTRDIFF_MAX` bytes succeeds. -/
theorem needToSend_queued {found : Option ClientNode} {malloc : Nat → Bool} {fd length size : Int}
    {command : UInt8} {data sendData : List UInt8} {code : ProtocolCode}
    (hint : -2147483648 ≤ length) (hmalloc : ∀ n, malloc n = true → n < 9223372036854775808)
    (h : needToSend found malloc fd command data length = some (.queued code sendData size)) :
    0 ≤ length ∧ length ≤ 256 ∧ length.toNat ≤ data.length ∧
      sendData = command :: data.take length.toNat ∧ size = sendData.length := by
  unfold needToSend at h
  split at h
  · simp at h
  · rename_i hadmitted
    split at h
    · simp at h
    · split at h
      · simp at h
      · dsimp only at h
        split at h
        · rename_i hallocated
          have hbound := hmalloc _ hallocated
          split at h
          · rename_i hinside
            split at h
            · rw [Option.some.injEq, Admission.queued.injEq] at h
              obtain ⟨-, rfl, rfl⟩ := h
              -- A negative length would ask for almost 2^64 bytes.
              have hcopied : (length % 18446744073709551616).toNat = length.toNat := by
                omega
              rw [hcopied] at hinside ⊢
              refine ⟨by omega, by omega, hinside.2, rfl, ?_⟩
              rw [List.length_cons, List.length_take_of_le hinside.2]
              omega
            · simp at h
          · simp at h
        · simp at h

/-! ## The commands waiting in the ring -/

namespace SendCommandFifo

variable {β : Type}

/-- The commands from the read position on, as many as `num` says. -/
def pending (fifo : SendCommandFifo β) : List (NetWorkCommand β) :=
  (List.range fifo.num.toNat).map fun k =>
    fifo.ring.cells ((fifo.ring.r + k) % netSendCommandNum)

/-- The ring holds these commands, and `num` counts them. -/
structure Holds (fifo : SendCommandFifo β) (commands : List (NetWorkCommand β)) : Prop where
  ring : fifo.ring.Holds commands
  num_eq : fifo.num = commands.length

theorem holds_init : (sendCommandFifoInit : SendCommandFifo β).Holds [] :=
  ⟨Ring.holds_start _ _, rfl⟩

namespace Holds

variable {fifo : SendCommandFifo β} {commands : List (NetWorkCommand β)}

theorem push (h : fifo.Holds commands) (hroom : commands.length < netSendCommandNum)
    (data : β) (size : Int) :
    (sendCommandFifoPush fifo data size).1.Holds (commands ++ [⟨some data, size⟩]) where
  ring := h.ring.write hroom _
  num_eq := by
    show wrap32 (fifo.num + 1) = _
    have hcapacity : netSendCommandNum = 8192 := rfl
    rw [h.num_eq, wrap32_of_range (by omega) (by omega), List.length_append,
      List.length_singleton]
    rfl

theorem pop {command : NetWorkCommand β} (h : fifo.Holds (command :: commands)) :
    (sendCommandFifoPop fifo).1.Holds commands where
  ring := h.ring.skip
  num_eq := by
    show wrap32 (fifo.num - 1) = _
    have hle := h.ring.length_le
    have hcapacity : netSendCommandNum = 8192 := rfl
    have hnum := h.num_eq
    rw [List.length_cons] at hle hnum
    rw [wrap32_of_range (by omega) (by omega)]
    omega

theorem top_eq {command : NetWorkCommand β} (h : fifo.Holds (command :: commands)) :
    sendCommandFifoTop fifo = command :=
  h.ring.front_eq

theorem pending_eq (h : fifo.Holds commands) : fifo.pending = commands := by
  have hnum : fifo.num.toNat = commands.length := by
    rw [h.num_eq, Int.toNat_natCast]
  unfold pending
  rw [hnum]
  exact h.ring.map_cells_eq

theorem empty_iff (h : fifo.Holds commands) :
    sendCommandFifoEmpty fifo = true ↔ commands = [] := by
  rw [sendCommandFifoEmpty, decide_eq_true_iff, h.num_eq, Int.natCast_eq_zero,
    List.length_eq_zero_iff]

end Holds

/-- There is room for a command, and its slot was never used: a slot keeps the pointer that
`send_command_fifo_pop` has freed, and the next push to it frees that pointer again. -/
def HasUnusedSlot (fifo : SendCommandFifo β) : Prop :=
  fifo.num < netSendCommandNum ∧ fifo.ring.behind.data = none

instance (fifo : SendCommandFifo β) : Decidable fifo.HasUnusedSlot :=
  inferInstanceAs (Decidable (_ ∧ _))

end SendCommandFifo

/-! ## The send thread -/

/-- The length of the array `buf` of the send thread. -/
def sendBufLength : Int := 2048

/-- `prepend_length_to_buf_s`: the header is written byte by byte, then the buffer is
copied behind it.  What the array held further on stays. -/
def prependLengthToBufS (dst : Nat → UInt8) (dstLength : Int) (src : List UInt8)
    (srcLength : Int) : Option (Nat → UInt8) :=
  let srcLength := if srcLength > dstLength - 4 then dstLength - 4 else srcLength
  let header := (List.range 4).map fun i => UInt8.ofInt (srcLength >>> (8 * (3 - i) : Nat))
  if 0 ≤ srcLength ∧ srcLength.toNat ≤ src.length then
    some (store 4 (src.take srcLength.toNat) (store 0 header dst))
  else none

/-- One round of the inner loop of `_stupid_p2p_send_func`: the record, the array, and the
bytes handed to `send`. -/
def sendRound (node : ClientNode) (buf : Nat → UInt8) :
    Option (ClientNode × (Nat → UInt8) × List UInt8) :=
  if sendCommandFifoEmpty node.sendFifo then some (node, buf, [])
  else if node.needToRestartFlag then
    -- The thread sleeps and leaves the inner loop; the command stays in the fifo.
    some (node, buf, [])
  else
    let command := sendCommandFifoTop node.sendFifo
    match command.data with
    | none => none
    | some data =>
        match prependLengthToBufS buf sendBufLength data command.size with
        | none => none
        | some buf =>
            -- `send` reads `size + 4` bytes, also where the copy was cut short.
            if 0 ≤ command.size + 4 ∧ command.size + 4 ≤ sendBufLength then
              some ({ node with sendFifo := (sendCommandFifoPop node.sendFifo).1 }, buf,
                (List.range (command.size + 4).toNat).map buf)
            else none

theorem store_append (i : Nat) (first second : List UInt8) (command : Nat → UInt8) :
    store i (first ++ second) command =
      store (i + first.length) second (store i first command) := by
  induction first generalizing i command with
  | nil => rfl
  | cons b first ih =>
      rw [List.cons_append, store, ih, List.length_cons, store]
      congr 1
      omega

/-- The shifts give the bytes of the length, most significant first. -/
theorem shifted_header {n : Nat} :
    ((List.range 4).map fun i => UInt8.ofInt ((n : Int) >>> (8 * (3 - i) : Nat))) =
      bigEndian n := by
  have hbyte : ∀ k : Nat, UInt8.ofInt ((n : Int) >>> k) = UInt8.ofNat (n / 2 ^ k) := by
    intro k
    rw [Int.shiftRight_eq_div_pow, ← UInt8.toNat_inj]
    simp only [UInt8.ofInt, UInt8.toNat_ofNat']
    omega
  show [UInt8.ofInt ((n : Int) >>> (24 : Nat)), UInt8.ofInt ((n : Int) >>> (16 : Nat)),
    UInt8.ofInt ((n : Int) >>> (8 : Nat)), UInt8.ofInt ((n : Int) >>> (0 : Nat))] = bigEndian n
  rw [hbyte, hbyte, hbyte, hbyte, Nat.pow_zero, Nat.div_one]
  rfl

/-- **The frame in the array** is the frame of the buffer, whatever the array held. -/
theorem prependLengthToBufS_eq {src : List UInt8} (hfits : src.length ≤ 2044)
    (dst : Nat → UInt8) :
    prependLengthToBufS dst sendBufLength src src.length =
      some (store 0 (encodeFrame src) dst) := by
  have hsize : sendBufLength = 2048 := rfl
  have hclamp : ¬ (src.length : Int) > sendBufLength - 4 := by omega
  have hinside : 0 ≤ (src.length : Int) ∧ src.length ≤ src.length := by omega
  rw [prependLengthToBufS]
  simp only [if_neg hclamp, shifted_header, Int.toNat_natCast, List.take_length,
    if_pos hinside]
  rw [encodeFrame, store_append, length_bigEndian]

/-- The send thread hands the frame of the oldest command to `send` and drops the
command. -/
theorem sendRound_eq {node : ClientNode} {buf : Nat → UInt8} {data : List UInt8}
    {commands : List (NetWorkCommand (List UInt8))}
    (hfifo : node.sendFifo.Holds (⟨some data, data.length⟩ :: commands))
    (hflag : node.needToRestartFlag = false) (hfits : data.length ≤ 2044) :
    sendRound node buf =
      some ({ node with sendFifo := (sendCommandFifoPop node.sendFifo).1 },
        store 0 (encodeFrame data) buf, encodeFrame data) := by
  have hempty : ¬ sendCommandFifoEmpty node.sendFifo = true := by
    rw [hfifo.empty_iff]
    exact List.cons_ne_nil _ _
  have hsize : sendBufLength = 2048 := rfl
  have hinside : 0 ≤ (data.length : Int) + 4 ∧ (data.length : Int) + 4 ≤ sendBufLength := by
    omega
  have hcount : ((data.length : Int) + 4).toNat = (encodeFrame data).length := by
    rw [length_encodeFrame]
    omega
  have hbytes : (List.range (encodeFrame data).length).map (store 0 (encodeFrame data) buf) =
      encodeFrame data := map_store_range (encodeFrame data) buf 0
  rw [sendRound, if_neg hempty, hflag, if_neg Bool.false_ne_true, hfifo.top_eq]
  simp only [prependLengthToBufS_eq hfits, if_pos hinside, hcount, hbytes]

end Client
end StupidP2P
