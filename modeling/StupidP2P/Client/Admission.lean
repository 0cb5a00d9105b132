import StupidP2P.Client.Api

/-!
# Lengths from the caller

`need_to_send` refuses lengths above 256, but nothing below 0.  A negative `int32_t` becomes a
`size_t` of almost 2^64 bytes: `malloc` cannot give that much, so the call ends with
`STUPID_P2P_MEMORY_ERROR`.  The exception is -1.  Then `malloc` is asked for 0 bytes, which it
may grant, the command byte is written behind the end of that buffer, and `memcpy` is asked for
2^64 - 1 bytes.

For every other length the bounds hold from the test to the array of the send thread: a command
that is queued has at most 256 bytes of data, its buffer one byte more, and its frame 261 bytes.
-/

namespace StupidP2P
namespace Client

open Foundation
open Foundation.Framing
open Server (ProtocolCode)

/-- What a call has done to the record it found when it returns an error or begins to wait. -/
def ClientNode.afterAdmission (node : ClientNode) : Admission → ClientNode
  | .refused _ => node
  | .queued code sendData size => (node.awaitFlag code).pushCommand sendData size

/-- The buffer and its size are those of a length between 0 and 256, and the frame the send
thread makes of them fits its array. -/
structure FitsBuffers (malloc : Nat → Bool) (command : UInt8) (data : List UInt8) (length : Int)
    (sendData : List UInt8) (size : Int) : Prop where
  nonneg : 0 ≤ length
  le : length ≤ 256
  allocated : malloc (length.toNat + 1) = true
  size_eq : size = length + 1
  /-- Exactly `length` bytes are copied behind the command byte. -/
  copied : ∃ bytes, bytes <+: data ∧ bytes.length = length.toNat ∧ sendData = command :: bytes
  /-- When the command has come to the front of the fifo, its frame is written to the array,
  and `send` is given as many bytes of the array as the frame has. -/
  staged : ∀ (node : ClientNode) (buf : Nat → UInt8)
    (commands : List (NetWorkCommand (List UInt8))),
    node.sendFifo.Holds (⟨some sendData, size⟩ :: commands) → node.needToRestartFlag = false →
    sendRound node buf =
      some ({ node with sendFifo := (sendCommandFifoPop node.sendFifo).1 },
        store 0 (encodeFrame sendData) buf, encodeFrame sendData)
  frame_length : (encodeFrame sendData).length = size + 4
  frame_le : size + 4 ≤ sendBufLength

/-- The call returns an error and leaves the fifo and the flags as they were, or it queues a
command that fits all the buffers it goes through. -/
def AdmitsSafely (found : Option ClientNode) (malloc : Nat → Bool) (fd : Int) (command : UInt8)
    (data : List UInt8) (length : Int) : Prop :=
  ∃ admission, needToSend found malloc fd command data length = some admission ∧
    ((∃ result, admission = .refused result ∧ result ≠ .noError ∧
        ∀ node ∈ found, (node.afterAdmission admission).sendFifo = node.sendFifo ∧
          (node.afterAdmission admission).commandStatus = node.commandStatus) ∨
      ∃ code sendData size, admission = .queued code sendData size ∧
        FitsBuffers malloc command data length sendData size)

/-- The call gets as far as the allocation. -/
def ReachesMalloc (found : Option ClientNode) (fd length : Int) : Prop :=
  length ≤ 256 ∧ 0 < fd ∧ ∃ node, found = some node ∧ node.needToRestartFlag = false

/-- A length of -1 is not granted its 0 bytes, and a length beyond the caller's buffer not its
memory. -/
def LengthInBounds (found : Option ClientNode) (malloc : Nat → Bool) (fd : Int)
    (data : List UInt8) (length : Int) : Prop :=
  ReachesMalloc found fd length →
    (length = -1 → malloc 0 = false) ∧
      (data.length < length → malloc (length.toNat + 1) = false)

variable {found : Option ClientNode} {malloc : Nat → Bool} {fd length : Int} {command : UInt8}
variable {data : List UInt8}

/-! ## Refusals -/

theorem admitsSafely_of_refused {result : StupidP2PResult}
    (h : needToSend found malloc fd command data length = some (.refused result))
    (hresult : result ≠ .noError) : AdmitsSafely found malloc fd command data length :=
  ⟨.refused result, h, Or.inl ⟨result, rfl, hresult, fun _ _ => ⟨rfl, rfl⟩⟩⟩

/-- Before the allocation the call can only be refused. -/
theorem needToSend_of_not_reachesMalloc (h : ¬ ReachesMalloc found fd length) :
    ∃ result, needToSend found malloc fd command data length = some (.refused result) ∧
      result ≠ .noError := by
  unfold needToSend
  by_cases hparam : length > 256 ∨ fd ≤ 0
  · rw [if_pos hparam]
    exact ⟨.badParam, rfl, by simp⟩
  · rw [if_neg hparam]
    cases found with
    | none => exact ⟨.errorCommond, rfl, by simp⟩
    | some node =>
        cases hflag : node.needToRestartFlag with
        | true =>
            refine ⟨.restarting, ?_, by simp⟩
            dsimp only
            rw [hflag, if_pos rfl]
        | false => exact absurd ⟨by omega, by omega, node, rfl, hflag⟩ h

/-! ## After the allocation -/

/-- The rest of the call, with the two sizes as `size_t`. -/
theorem needToSend_of_reachesMalloc (h : ReachesMalloc found fd length) :
    needToSend found malloc fd command data length =
      if malloc ((length + 1) % 18446744073709551616).toNat then
        if 1 + (length % 18446744073709551616).toNat ≤
              ((length + 1) % 18446744073709551616).toNat ∧
            (length % 18446744073709551616).toNat ≤ data.length then
          some ((commandCode command).elim (.refused .badParam) fun code =>
            .queued code (command :: data.take (length % 18446744073709551616).toNat)
              (length + 1))
        else none
      else some (.refused .memoryError) := by
  obtain ⟨hle, hfd, node, rfl, hflag⟩ := h
  have hparam : ¬ (length > 256 ∨ fd ≤ 0) := by omega
  rw [needToSend, if_neg hparam]
  dsimp only
  rw [hflag, if_neg Bool.false_ne_true]
  cases commandCode command with
  | none => rfl
  | some code => rfl

theorem fitsBuffers_of_queued {code : ProtocolCode} {sendData : List UInt8} {size : Int}
    (hint : -2147483648 ≤ length) (hmalloc : ∀ n, malloc n = true → n < 9223372036854775808)
    (hallocated : malloc (length.toNat + 1) = true)
    (h : needToSend found malloc fd command data length = some (.queued code sendData size)) :
    FitsBuffers malloc command data length sendData size := by
  obtain ⟨hnonneg, hle, hread, hsendData, hsize⟩ := needToSend_queued hint hmalloc h
  have htaken : (data.take length.toNat).length = length.toNat := List.length_take_of_le hread
  have hlength : (sendData.length : Int) = length + 1 := by
    rw [hsendData, List.length_cons, htaken]
    omega
  refine ⟨hnonneg, hle, hallocated, hsize.trans hlength,
    ⟨_, List.take_prefix _ _, htaken, hsendData⟩, ?_, ?_, ?_⟩
  · intro node buf commands hfifo hflag
    rw [hsize] at hfifo
    exact sendRound_eq hfifo hflag (by omega)
  · rw [length_encodeFrame, hsize]
    omega
  · have hbuf : sendBufLength = 2048 := rfl
    omega

/-- The size that is asked for a length from 0 on. -/
theorem allocated_of_nonneg (hnonneg : 0 ≤ length) (hle : length ≤ 256) :
    ((length + 1) % 18446744073709551616).toNat = length.toNat + 1 := by
  omega

/-- A length from 0 on, with as many bytes to read. -/
theorem admitsSafely_of_reachesMalloc (hint : -2147483648 ≤ length)
    (hmalloc : ∀ n, malloc n = true → n < 9223372036854775808)
    (hreach : ReachesMalloc found fd length) (hallocated : malloc (length.toNat + 1) = true)
    (hnonneg : 0 ≤ length) (hread : length ≤ data.length) :
    AdmitsSafely found malloc fd command data length := by
  have hcopied : (length % 18446744073709551616).toNat = length.toNat := by
    have hle := hreach.1
    omega
  have hcall := @needToSend_of_reachesMalloc found malloc fd length command data hreach
  rw [allocated_of_nonneg hnonneg hreach.1, hcopied, if_pos hallocated,
    if_pos (by omega)] at hcall
  cases hcode : commandCode command with
  | none =>
      rw [hcode] at hcall
      exact admitsSafely_of_refused hcall (by simp)
  | some code =>
      rw [hcode] at hcall
      exact ⟨_, hcall, Or.inr ⟨code, _, _, rfl,
        fitsBuffers_of_queued hint hmalloc hallocated hcall⟩⟩

/-- Memory for a length of which the bytes cannot be copied. -/
theorem not_lengthInBounds (hint : -2147483648 ≤ length)
    (hmalloc : ∀ n, malloc n = true → n < 9223372036854775808)
    (hreach : ReachesMalloc found fd length)
    (hgranted : malloc ((length + 1) % 18446744073709551616).toNat = true)
    (houtside : ¬ (0 ≤ length ∧ length ≤ data.length)) :
    ¬ LengthInBounds found malloc fd data length := by
  intro hbounds
  obtain ⟨hminus, hbeyond⟩ := hbounds hreach
  by_cases hnonneg : 0 ≤ length
  · rw [allocated_of_nonneg hnonneg hreach.1, hbeyond (by omega)] at hgranted
    exact Bool.noConfusion hgranted
  · -- Below -1 the size is beyond `PTRDIFF_MAX`.
    have hbound := hmalloc _ hgranted
    have hone : length = -1 := by omega
    have hzero : ((length + 1) % 18446744073709551616).toNat = 0 := by omega
    rw [hzero, hminus hone] at hgranted
    exact Bool.noConfusion hgranted

theorem lengthInBounds_of_refused
    (hrefused : malloc ((length + 1) % 18446744073709551616).toNat = false) :
    LengthInBounds found malloc fd data length := by
  intro hreach
  constructor
  · intro hone
    rwa [hone] at hrefused
  · intro hbeyond
    rwa [allocated_of_nonneg (by omega) hreach.1] at hrefused

/-- **Every length is admitted safely or refused**, exactly if a call that gets as far as the
allocation with a length of -1 or beyond the caller's buffer is not granted the memory.  No
allocation of more than `PTRDIFF_MAX` bytes succeeds. -/
theorem admits_safely_iff (hint : -2147483648 ≤ length ∧ length < 2147483648)
    (hmalloc : ∀ n, malloc n = true → n < 9223372036854775808) :
    AdmitsSafely found malloc fd command data length ↔
      LengthInBounds found malloc fd data length := by
  by_cases hreach : ReachesMalloc found fd length
  · have hcall := @needToSend_of_reachesMalloc found malloc fd length command data hreach
    cases hgranted : malloc ((length + 1) % 18446744073709551616).toNat with
    | true =>
        by_cases hinside : 0 ≤ length ∧ length ≤ data.length
        · rw [allocated_of_nonneg hinside.1 hreach.1] at hgranted
          refine iff_of_true (admitsSafely_of_reachesMalloc hint.1 hmalloc hreach hgranted
            hinside.1 hinside.2) ?_
          intro _
          omega
        · -- `memcpy` leaves one of the two buffers.
          have hbound := hmalloc _ hgranted
          have hle := hreach.1
          rw [if_pos hgranted, if_neg (by omega)] at hcall
          refine iff_of_false ?_ (not_lengthInBounds hint.1 hmalloc hreach hgranted hinside)
          rintro ⟨admission, hsome, -⟩
          rw [hcall] at hsome
          exact absurd hsome (by simp)
    | false =>
        rw [hgranted, if_neg Bool.false_ne_true] at hcall
        exact iff_of_true (admitsSafely_of_refused hcall (by simp))
          (lengthInBounds_of_refused hgranted)
  · obtain ⟨result, hcall, hresult⟩ :=
      @needToSend_of_not_reachesMalloc found malloc fd length command data hreach
    exact iff_of_true (admitsSafely_of_refused hcall hresult) fun h => absurd h hreach

/-- A `malloc` that grants every size up to `PTRDIFF_MAX`, also 0. -/
def grantsPtrdiffMax (n : Nat) : Bool := decide (n < 9223372036854775808)

/-- `stupid_p2p_send_data` with a length of -1, where `malloc(0)` gives a buffer. -/
theorem minus_one_leaves_buffer :
    (∀ n, grantsPtrdiffMax n = true → n < 9223372036854775808) ∧
      stupidP2PSendData (some .fresh) grantsPtrdiffMax 1 [0x68, 0x69] (-1) = none ∧
      ¬ AdmitsSafely (some .fresh) grantsPtrdiffMax 1 ProtocolCode.sendData.toByte
        [0x68, 0x69] (-1) := by
  have hnone : needToSend (some .fresh) grantsPtrdiffMax 1 ProtocolCode.sendData.toByte
      [0x68, 0x69] (-1) = none := by
    decide
  refine ⟨fun n hn => of_decide_eq_true hn, hnone, ?_⟩
  rintro ⟨admission, hsome, -⟩
  rw [hnone] at hsome
  exact absurd hsome (by simp)

theorem admits_safely_hi :
    AdmitsSafely (some .fresh) grantsPtrdiffMax 1 ProtocolCode.sendData.toByte [0x68, 0x69] 2 ∧
      stupidP2PSendData (some .fresh) grantsPtrdiffMax 1 [0x68, 0x69] 2 =
        some (.queued .sendData [0x03, 0x68, 0x69] 3) := by
  refine ⟨(admits_safely_iff ⟨by decide, by decide⟩ fun n hn => of_decide_eq_true hn).mpr ?_,
    by decide⟩
  intro _
  exact ⟨fun h => absurd h (by decide), fun h => absurd h (by decide)⟩

end Client
end StupidP2P
