import StupidP2P.Client.Parser

/-!
# Byte accounting of the parser

The header is a signed integer from the network, and the parser compares `length + 4`
with the count of the ring without looking at its sign or its size.  So there are four
kinds of header:

* a length whose frame is complete is executed, and copied past the end of the array if
  it has more than 2048 bytes;
* a length whose frame is incomplete ends the call;
* a negative length passes the comparison: its header is popped and a frame of no bytes
  is executed;
* a length of 2147483644 or more becomes negative when 4 is added, passes the comparison
  too and is copied past the end of the array.

A frame of no bytes is executed on top of the frame before it in the same call.  If that
was a data frame, a length of 0 or less asks for more than `PTRDIFF_MAX` bytes, and such an
allocation is taken to fail; except for the least of all lengths, the header 80 00 00 00,
which becomes 2147483647 when 1 is subtracted.  Where so much is available, that many bytes
are copied from the array.

`parseLoop_of_survivable` follows the call where none of this goes wrong, and
`parseLoop_of_not_survivable` says that it has no defined result otherwise.  The bytes of
a call are accounted for exactly when only the first two kinds occur.
-/

namespace StupidP2P
namespace Client

open Foundation
open Foundation.Framing

/-- No allocation of more than `PTRDIFF_MAX` bytes succeeds. -/
def RefusesHuge (calloc : Calloc) : Prop :=
  ∀ k size, 9223372036854775807 < size → calloc k size = false

/-- All allocations up to `PTRDIFF_MAX` bytes succeed. -/
def grantsAll : Calloc := fun _ size => decide (size ≤ 9223372036854775807)

/-- The lengths to which 4 can be added. -/
def below (len : Int) : Bool := decide (len ≤ 2147483643)

/-- The lengths that wait until their frame is complete. -/
def waits (len : Int) : Bool := decide (0 ≤ len ∧ len ≤ 2147483643)

/-- The parser has a defined result on these bytes, when `top` is what `command[0]` holds:
complete frames fit, no length wraps, and the header 80 00 00 00 does not come after a data
frame. -/
inductive Survivable : UInt8 → List UInt8 → Prop
  | short {top : UInt8} {queue : List UInt8} (hhead : head below queue = .short) :
      Survivable top queue
  | frame {top : UInt8} {queue body rest : List UInt8}
      (hhead : head below queue = .frame body rest) (hfits : body.length ≤ 2048)
      (hleast : top = 0x03 → ¬ [0x80, 0, 0, 0] <+: queue)
      (hrest : Survivable (body.headD top) rest) : Survivable top queue

/-- Every header the parser meets is a length that waits, and the complete frames fit. -/
def WellHeaded (queue : List UInt8) : Prop :=
  (decode waits queue).stopped = false ∧ ∀ body ∈ (decode waits queue).frames, body.length ≤ 2048

/-- A client that has just received some bytes. -/
def Receiver.holding (bytes : List UInt8) : Receiver :=
  Receiver.fresh.setFifo (recvDataFifoPush Receiver.fresh.node.recvFifo bytes bytes.length)

/-- The bytes popped for some executed frames. -/
def poppedFor (frames : List NetFrame) : Nat :=
  (frames.map fun frame => 4 + frame.header.toNat).sum

theorem poppedFor_concat (frames : List NetFrame) (frame : NetFrame) :
    poppedFor (frames ++ [frame]) = poppedFor frames + (4 + frame.header.toNat) := by
  simp [poppedFor]

/-! ## One round -/

section

variable {calloc : Calloc} {command : Nat → UInt8} {r : Receiver} {queue body rest : List UInt8}

/-- What a header can ask `calloc` for, apart from the least: the bytes of a frame that
fits, or too much to get. -/
theorem size_of_header {commandLength : Int} (hlow : -2147483648 < commandLength)
    (hhigh : commandLength ≤ 2048) :
    1 + (wrap32 (commandLength - 1) % 18446744073709551616).toNat ≤ commandLimit ∨
      9223372036854775807 < (wrap32 (commandLength - 1) % 18446744073709551616).toNat := by
  have hlimit : commandLimit = 2048 := rfl
  rw [wrap32_of_range (by omega) (by omega)]
  omega

/-- Executing a command has a defined result for every length up to that of the array; the
least one must not be taken for that of a data frame. -/
theorem execCommand_defined (hhuge : RefusesHuge calloc) {commandLength : Int}
    (hlow : -2147483648 ≤ commandLength) (hhigh : commandLength ≤ 2048)
    (hleast : command 0 = 0x03 → commandLength ≠ -2147483648) :
    ∃ r', execCommand calloc command commandLength r = some r' := by
  unfold execCommand
  split
  · rename_i hdata
    have hne := hleast hdata
    unfold execSendData
    dsimp only
    rcases size_of_header (by omega) hhigh with hfits | hsize
    · rw [if_pos hfits]
      split
      · split
        · split <;> exact ⟨_, rfl⟩
        · exact ⟨_, rfl⟩
      · exact ⟨_, rfl⟩
    · rw [hhuge _ _ hsize]
      exact ⟨_, rfl⟩
  · split <;> exact ⟨_, rfl⟩

/-- The largest `int`, which is what the least header asks for, is available. -/
def GrantsLargestInt (calloc : Calloc) : Prop :=
  ∀ k, calloc k 2147483647 = true

/-- A data frame of the least length is copied from behind the end of the array. -/
theorem execCommand_least (hgrants : GrantsLargestInt calloc) (hdata : command 0 = 0x03) :
    execCommand calloc command (-2147483648) r = none := by
  have hsize : (wrap32 (-2147483648 - 1) % 18446744073709551616).toNat = 2147483647 := rfl
  unfold execCommand execSendData
  dsimp only
  rw [if_pos hdata, hsize, if_pos (hgrants _), if_neg (by decide)]

/-- The least length has one header. -/
theorem headerValue_least_iff {a b c d : UInt8} (tail : List UInt8) :
    headerValue a b c d = -2147483648 ↔ [0x80, 0, 0, 0] <+: a :: b :: c :: d :: tail := by
  have ha := a.toNat_lt
  have hb := b.toNat_lt
  have hc := c.toNat_lt
  have hd := d.toNat_lt
  simp only [List.cons_prefix_cons, List.nil_prefix, and_true, ← UInt8.toNat_inj]
  unfold headerValue wrap32
  rw [Int.bmod_def]
  change _ ↔ 128 = a.toNat ∧ 0 = b.toNat ∧ 0 = c.toNat ∧ 0 = d.toNat
  split <;> omega

theorem execCommand_recvFifo {commandLength : Int} {r' : Receiver}
    (h : execCommand calloc command commandLength r = some r') :
    r'.node.recvFifo = r.node.recvFifo := by
  have hset := @execCommand_setFifo calloc command commandLength r r.node.recvFifo
  rw [show r.setFifo r.node.recvFifo = r from rfl, h, Option.map_some] at hset
  have hsame : r' = r'.setFifo r.node.recvFifo := Option.some.inj hset
  rw [hsame]
  rfl

/-- A complete frame of a length to which 4 can be added, negative lengths included, is
popped and executed. -/
theorem parseRound_of_taken (hhuge : RefusesHuge calloc) (hfifo : r.node.recvFifo.Holds queue)
    (hhead : head below queue = .frame body rest) (hbody : body.length ≤ 2048)
    (hleast : command 0 = 0x03 → ¬ [0x80, 0, 0, 0] <+: queue) :
    ∃ r', parseRound calloc command r = .next (store 0 body command) r' ∧
      (recvDataFifoTopInt r.node.recvFifo).toNat = body.length ∧
      r'.node.recvFifo.Holds rest ∧
      r'.executed = r.executed ++ [⟨recvDataFifoTopInt r.node.recvFifo, body⟩] := by
  obtain ⟨a, b, c, d, rfl, hbelow, hvalue⟩ := head_frame_iff.mp hhead
  have hlength := hfifo.length_eq
  simp only [List.length_cons, List.length_append] at hlength
  simp only [below, decide_eq_true_eq] at hbelow
  have hlow := (headerValue_bounds a b c d).1
  have htop := hfifo.topInt_eq
  have hlimit : commandLimit = 2048 := rfl
  have hpop : (recvDataFifoPop r.node.recvFifo 4).Holds (body ++ rest) :=
    hfifo.pop [a, b, c, d]
  obtain ⟨fifo, hrest, hcopy⟩ := copyCommand_eq hpop (i := 0) (by omega) command
  have hframe := map_store_range body command 0
  simp only [Nat.sub_zero, Nat.add_zero, List.drop_zero] at hframe
  rw [← headerValue_least_iff] at hleast
  rw [htop]
  generalize headerValue a b c d = header at htop hbelow hvalue hlow hleast
  have hdata : store 0 body command 0 = 0x03 → header ≠ -2147483648 := by
    rintro hstore rfl
    -- The frame is empty, so the array holds what it held.
    obtain rfl := List.length_eq_zero_iff.mp hvalue.symm
    exact hleast hstore rfl
  obtain ⟨r', hexec⟩ := @execCommand_defined calloc (store 0 body command)
    ((r.setFifo fifo).log ⟨header, body⟩) hhuge header hlow (by omega) hdata
  refine ⟨r', ?_, hvalue, ?_, (execCommand_same hexec).executed_eq⟩
  · rw [parseRound, if_pos (by omega), htop, parseFrame, wrap32_of_range (by omega) (by omega),
      if_pos (by omega), hvalue, hcopy]
    dsimp only
    rw [hframe, hexec]
  · rw [execCommand_recvFifo hexec]
    exact hrest

/-- A complete frame that is too long, and a length that wraps, are copied past the end of
the array. -/
theorem parseRound_of_overrun (hfifo : r.node.recvFifo.Holds queue)
    (hhead : head below queue = .bad ∨
      head below queue = .frame body rest ∧ 2048 < body.length) :
    parseRound calloc command r = .fault := by
  rcases hhead with hbad | ⟨hframe, hlong⟩
  · obtain ⟨a, b, c, d, tail, rfl, hbelow⟩ := head_bad_iff.mp hbad
    have hlength := hfifo.length_eq
    simp only [List.length_cons] at hlength
    simp only [below, decide_eq_false_iff_not] at hbelow
    have hlimit : commandLimit = 2048 := rfl
    have hhigh := (headerValue_bounds a b c d).2
    have htop := hfifo.topInt_eq
    generalize headerValue a b c d = header at htop hbelow hhigh
    -- The sum is at least 2 ^ 31, so its signed value is negative.
    have hwrap : wrap32 (header + 4) ≤ 0 := by
      unfold wrap32
      rw [Int.bmod_def]
      split <;> omega
    rw [parseRound, if_pos (by omega), htop, parseFrame, if_pos (by omega),
      copyCommand_eq_none (by omega) (by omega)]
  · obtain ⟨a, b, c, d, rfl, -, hvalue⟩ := head_frame_iff.mp hframe
    exact parseRound_of_oversize hfifo (by omega) (by rw [List.length_append]; omega)

/-- The loop does not wait for a frame that is complete. -/
theorem parseRound_ne_stop (hfifo : r.node.recvFifo.Holds queue)
    (hhead : head below queue = .frame body rest) : parseRound calloc command r ≠ .stop := by
  obtain ⟨a, b, c, d, rfl, hbelow, hvalue⟩ := head_frame_iff.mp hhead
  have hlength := hfifo.length_eq
  simp only [List.length_cons, List.length_append] at hlength
  simp only [below, decide_eq_true_eq] at hbelow
  have hlow := (headerValue_bounds a b c d).1
  rw [parseRound, if_pos (by omega), hfifo.topInt_eq, parseFrame,
    wrap32_of_range (by omega) (by omega), if_pos (by omega)]
  split
  · simp
  · split <;> simp

/-- The least header after a data frame. -/
theorem parseRound_of_least (hgrants : GrantsLargestInt calloc)
    (hfifo : r.node.recvFifo.Holds queue) (hdata : command 0 = 0x03)
    (hleast : [0x80, 0, 0, 0] <+: queue) : parseRound calloc command r = .fault := by
  obtain ⟨tail, rfl⟩ := hleast
  have htop : recvDataFifoTopInt r.node.recvFifo = -2147483648 :=
    hfifo.topInt_eq.trans ((headerValue_least_iff tail).mpr (List.prefix_append _ tail))
  have hlength := hfifo.length_eq
  simp only [List.length_append, List.length_cons] at hlength
  rw [parseRound, if_pos (by omega), htop, parseFrame, wrap32_of_range (by decide) (by decide),
    if_pos (by omega), show (-2147483648 : Int).toNat = 0 from rfl, copyCommand]
  dsimp only
  rw [execCommand_least hgrants hdata]

theorem parseRound_of_short (hfifo : r.node.recvFifo.Holds queue)
    (hhead : head below queue = .short) : parseRound calloc command r = .stop := by
  rcases head_short_iff.mp hhead with hlt | ⟨a, b, c, d, tail, rfl, hbelow, hlt⟩
  · exact parseRound_of_lt hfifo hlt
  · simp only [below, decide_eq_true_eq] at hbelow
    exact parseRound_of_incomplete hfifo (by omega) hlt

end

/-! ## The whole call -/

theorem survivable_of_frame {top : UInt8} {queue body rest : List UInt8}
    (hhead : head below queue = .frame body rest) :
    Survivable top queue ↔ body.length ≤ 2048 ∧
      (top = 0x03 → ¬ [0x80, 0, 0, 0] <+: queue) ∧ Survivable (body.headD top) rest := by
  constructor
  · intro h
    cases h with
    | short hshort =>
        rw [hhead] at hshort
        cases hshort
    | frame hframe hfits hleast hrest =>
        rw [hhead] at hframe
        obtain ⟨rfl, rfl⟩ := Head.frame.inj hframe
        exact ⟨hfits, hleast, hrest⟩
  · rintro ⟨hfits, hleast, hrest⟩
    exact .frame hhead hfits hleast hrest

theorem not_survivable_of_bad {top : UInt8} {queue : List UInt8}
    (hhead : head below queue = .bad) : ¬ Survivable top queue := by
  intro h
  cases h with
  | short hshort =>
      rw [hhead] at hshort
      cases hshort
  | frame hframe _ _ _ =>
      rw [hhead] at hframe
      cases hframe

/-- **A call that is defined.**  The parser pops the frames of the decoding one by one and
stops in front of the first incomplete one; more rounds than there are bytes change
nothing. -/
theorem parseLoop_of_survivable {calloc : Calloc} (hhuge : RefusesHuge calloc)
    {queue : List UInt8} (command : Nat → UInt8) (hsurv : Survivable (command 0) queue)
    (r : Receiver) (hfifo : r.node.recvFifo.Holds queue) :
    ∃ r', (∀ fuel, queue.length < fuel → parseLoop calloc fuel command r = some r') ∧
      r'.node.recvFifo.Holds (decode below queue).rest ∧
      poppedFor r'.executed + (decode below queue).rest.length =
        poppedFor r.executed + queue.length := by
  induction queue using frames_induction below generalizing command r with
  | frame queue body rest hhead ih =>
      obtain ⟨hbody, hleast, hrest⟩ := (survivable_of_frame hhead).mp hsurv
      rw [← store_headD] at hrest
      obtain ⟨next, hround, hvalue, hnext, hexecuted⟩ :=
        @parseRound_of_taken calloc command r queue body rest hhuge hfifo hhead hbody hleast
      obtain ⟨r', hloop, hleft, hpopped⟩ := ih (store 0 body command) hrest next hnext
      have hlength := head_frame_length hhead
      rw [decode_of_frame hhead]
      refine ⟨r', ?_, hleft, ?_⟩
      · intro fuel hfuel
        cases fuel with
        | zero => omega
        | succ fuel =>
            rw [parseLoop, hround]
            exact hloop fuel (by omega)
      · rw [hexecuted, poppedFor_concat] at hpopped
        dsimp only at hpopped ⊢
        omega
  | short queue hhead =>
      rw [decode_of_short hhead]
      refine ⟨r, ?_, hfifo, rfl⟩
      intro fuel hfuel
      cases fuel with
      | zero => omega
      | succ fuel => rw [parseLoop, parseRound_of_short hfifo hhead]
  | bad queue hhead => exact absurd hsurv (not_survivable_of_bad hhead)

/-- A call on other bytes is not defined, if `calloc` gives what the least header asks
for. -/
theorem parseLoop_of_not_survivable {calloc : Calloc} (hhuge : RefusesHuge calloc)
    (hgrants : GrantsLargestInt calloc) {queue : List UInt8} (command : Nat → UInt8)
    (hsurv : ¬ Survivable (command 0) queue) (r : Receiver)
    (hfifo : r.node.recvFifo.Holds queue) (fuel : Nat) (hfuel : queue.length < fuel) :
    parseLoop calloc fuel command r = none := by
  obtain ⟨fuel, rfl⟩ := Nat.exists_eq_succ_of_ne_zero (Nat.ne_of_gt (Nat.zero_lt_of_lt hfuel))
  induction queue using frames_induction below generalizing command r fuel with
  | frame queue body rest hhead ih =>
      have hlength := head_frame_length hhead
      by_cases hbody : body.length ≤ 2048
      · by_cases hleast : command 0 = 0x03 → ¬ [0x80, 0, 0, 0] <+: queue
        · obtain ⟨next, hround, -, hnext, -⟩ :=
            @parseRound_of_taken calloc command r queue body rest hhuge hfifo hhead hbody hleast
          rw [parseLoop, hround]
          cases fuel with
          | zero => omega
          | succ fuel =>
              refine ih (store 0 body command) ?_ next hnext fuel (by omega)
              intro hrest
              rw [store_headD] at hrest
              exact hsurv ((survivable_of_frame hhead).mpr ⟨hbody, hleast, hrest⟩)
        · simp only [Classical.not_imp, not_not] at hleast
          rw [parseLoop, parseRound_of_least hgrants hfifo hleast.1 hleast.2]
      · have hfault := @parseRound_of_overrun calloc command r queue body rest hfifo
          (Or.inr ⟨hhead, by omega⟩)
        rw [parseLoop, hfault]
  | short queue hhead => exact absurd (.short hhead) hsurv
  | bad queue hhead =>
      have hfault := @parseRound_of_overrun calloc command r queue [] [] hfifo (Or.inl hhead)
      rw [parseLoop, hfault]

-- A data frame of no payload, and the header 80 00 00 00.
example : (parseRecvNetCommand grantsAll
    (.holding [0, 0, 0, 1, 0x03, 0x80, 0, 0, 0])).isNone = true := by
  decide +kernel

/-! ## Accounting -/

/-- The rounds of the loop that execute a frame: the client before and after each. -/
def parseRounds (calloc : Calloc) :
    Nat → (Nat → UInt8) → Receiver → List (Receiver × Receiver)
  | 0, _, _ => []
  | fuel + 1, command, r =>
      match parseRound calloc command r with
      | .next command' r' => (r, r') :: parseRounds calloc fuel command' r'
      | _ => []

/-- A round executes a frame whose header is not negative and whose bytes are all in the
ring, and takes exactly the header and these bytes from it. -/
structure RoundExact (r r' : Receiver) : Prop where
  header_nonneg : 0 ≤ recvDataFifoTopInt r.node.recvFifo
  complete : recvDataFifoTopInt r.node.recvFifo + 4 ≤ r.node.recvFifo.length
  consumed : ∃ queue, r.node.recvFifo.Holds queue ∧
    r'.node.recvFifo.Holds (queue.drop (4 + (recvDataFifoTopInt r.node.recvFifo).toNat))
  length_eq : r'.node.recvFifo.length =
    r.node.recvFifo.length - (recvDataFifoTopInt r.node.recvFifo + 4)
  length_nonneg : 0 ≤ r'.node.recvFifo.length
  logged : ∃ body : List UInt8, body.length = recvDataFifoTopInt r.node.recvFifo ∧
    r'.executed = r.executed ++ [⟨recvDataFifoTopInt r.node.recvFifo, body⟩]

/-- The parser ends, with a defined result, and all its rounds are exact. -/
structure AccountsBytes (calloc : Calloc) (r : Receiver) : Prop where
  terminates : ∃ r', parseRecvNetCommand calloc r = some r' ∧ 0 ≤ r'.node.recvFifo.length ∧
    ∀ fuel : Nat, r.node.recvFifo.length < fuel → parseLoop calloc fuel (fun _ => 0) r = some r'
  rounds : ∀ fuel : Nat, r.node.recvFifo.length < fuel →
    ∀ round ∈ parseRounds calloc fuel (fun _ => 0) r, RoundExact round.1 round.2

section

variable {calloc : Calloc} {command : Nat → UInt8} {r r' : Receiver}
  {queue body rest : List UInt8}

/-- A frame is popped exactly as its header says, unless the header is negative. -/
theorem roundExact_iff (hfifo : r.node.recvFifo.Holds queue)
    (hhead : head below queue = .frame body rest)
    (hvalue : (recvDataFifoTopInt r.node.recvFifo).toNat = body.length)
    (hrest : r'.node.recvFifo.Holds rest)
    (hexecuted : r'.executed = r.executed ++ [⟨recvDataFifoTopInt r.node.recvFifo, body⟩]) :
    RoundExact r r' ↔ 0 ≤ recvDataFifoTopInt r.node.recvFifo := by
  refine ⟨RoundExact.header_nonneg, ?_⟩
  intro hnonneg
  have hlength := hfifo.length_eq
  have hleft := hrest.length_eq
  have hsum := head_frame_length hhead
  constructor
  case header_nonneg => exact hnonneg
  case complete => omega
  case consumed =>
    obtain ⟨a, b, c, d, rfl, -, -⟩ := head_frame_iff.mp hhead
    refine ⟨_, hfifo, ?_⟩
    rw [hvalue, Nat.add_comm]
    simpa using hrest
  case length_eq => omega
  case length_nonneg => omega
  case logged => exact ⟨body, by omega, hexecuted⟩

/-- A frame whose header is not negative stands in front for `waits` as well. -/
theorem head_waits_iff (hfifo : r.node.recvFifo.Holds queue)
    (hhead : head below queue = .frame body rest) :
    0 ≤ recvDataFifoTopInt r.node.recvFifo ↔ head waits queue = .frame body rest := by
  obtain ⟨a, b, c, d, rfl, hbelow, hvalue⟩ := head_frame_iff.mp hhead
  rw [hfifo.topInt_eq]
  simp only [below, decide_eq_true_eq] at hbelow
  constructor
  · intro hnonneg
    exact head_frame_iff.mpr ⟨a, b, c, d, rfl, by simp [waits, hnonneg, hbelow], hvalue⟩
  · intro hframe
    by_contra hneg
    have hbad : head waits (a :: b :: c :: d :: (body ++ rest)) = .bad :=
      head_bad_iff.mpr ⟨a, b, c, d, _, rfl, by simp [waits, hneg]⟩
    rw [hbad] at hframe
    simp at hframe

end

theorem WellHeaded.of_frame {queue body rest : List UInt8}
    (hhead : head waits queue = .frame body rest) :
    WellHeaded queue ↔ body.length ≤ 2048 ∧ WellHeaded rest := by
  unfold WellHeaded
  rw [decode_of_frame hhead]
  simp only [List.forall_mem_cons]
  tauto

/-- The wider test sees what the narrower one does. -/
theorem head_below_of_waits {queue body rest : List UInt8}
    (hhead : head waits queue = .frame body rest) :
    head below queue = .frame body rest ∧ ¬ [0x80, 0, 0, 0] <+: queue := by
  obtain ⟨a, b, c, d, rfl, hwaits, hvalue⟩ := head_frame_iff.mp hhead
  simp only [waits, decide_eq_true_eq] at hwaits
  refine ⟨head_frame_iff.mpr ⟨a, b, c, d, rfl, decide_eq_true hwaits.2, hvalue⟩, ?_⟩
  rw [← headerValue_least_iff]
  omega

theorem head_below_of_waits_short {queue : List UInt8} (hhead : head waits queue = .short) :
    head below queue = .short := by
  rcases head_short_iff.mp hhead with hlt | ⟨a, b, c, d, tail, rfl, hwaits, hlt⟩
  · exact head_of_length_lt hlt
  · simp only [waits, decide_eq_true_eq] at hwaits
    exact head_short_iff.mpr (Or.inr ⟨a, b, c, d, tail, rfl, decide_eq_true hwaits.2, hlt⟩)

theorem WellHeaded.survivable {queue : List UInt8} (h : WellHeaded queue) (top : UInt8) :
    Survivable top queue := by
  induction queue using frames_induction waits generalizing top with
  | frame queue body rest hhead ih =>
      obtain ⟨hfits, hrest⟩ := (WellHeaded.of_frame hhead).mp h
      obtain ⟨hbelow, hleast⟩ := head_below_of_waits hhead
      exact .frame hbelow hfits (fun _ => hleast) (ih hrest _)
  | short queue hhead => exact .short (head_below_of_waits_short hhead)
  | bad queue hhead =>
      have hstopped := h.1
      rw [decode_of_bad hhead] at hstopped
      simp at hstopped

/-- What is too short for the wider test waits for more bytes. -/
theorem head_waits_of_short {queue : List UInt8} (hhead : head below queue = .short) :
    head waits queue = .short := by
  rcases head_short_iff.mp hhead with hlt | ⟨a, b, c, d, tail, rfl, hbelow, hlt⟩
  · exact head_of_length_lt hlt
  · simp only [below, decide_eq_true_eq] at hbelow
    refine head_short_iff.mpr (Or.inr ⟨a, b, c, d, tail, rfl, ?_, hlt⟩)
    simp only [waits, decide_eq_true_eq]
    omega

/-- A negative header is not one that waits. -/
theorem not_wellHeaded_of_negative {r : Receiver} {queue body rest : List UInt8}
    (hfifo : r.node.recvFifo.Holds queue) (hhead : head below queue = .frame body rest)
    (hneg : ¬ 0 ≤ recvDataFifoTopInt r.node.recvFifo) : ¬ WellHeaded queue := by
  obtain ⟨a, b, c, d, rfl, -, -⟩ := head_frame_iff.mp hhead
  rw [hfifo.topInt_eq] at hneg
  have hbad : head waits (a :: b :: c :: d :: (body ++ rest)) = .bad :=
    head_bad_iff.mpr ⟨a, b, c, d, _, rfl, by simp [waits, hneg]⟩
  rintro ⟨hstopped, -⟩
  rw [decode_of_bad hbad] at hstopped
  simp at hstopped

/-- **The loop.**  It has a result and all its rounds are exact if and only if every header
it meets waits and every complete frame fits. -/
theorem parseLoop_exact_iff {calloc : Calloc} (hhuge : RefusesHuge calloc)
    {queue : List UInt8} (command : Nat → UInt8) (r : Receiver)
    (hfifo : r.node.recvFifo.Holds queue) (fuel : Nat) (hfuel : queue.length < fuel) :
    (parseLoop calloc fuel command r ≠ none ∧
        ∀ round ∈ parseRounds calloc fuel command r, RoundExact round.1 round.2) ↔
      WellHeaded queue := by
  induction queue using frames_induction below generalizing command r fuel with
  | frame queue body rest hhead ih =>
      have hlength := head_frame_length hhead
      cases fuel with
      | zero => omega
      | succ fuel =>
          by_cases hnonneg : 0 ≤ recvDataFifoTopInt r.node.recvFifo
          · have hwaits := (head_waits_iff hfifo hhead).mp hnonneg
            rw [WellHeaded.of_frame hwaits]
            by_cases hbody : body.length ≤ 2048
            · obtain ⟨next, hround, hvalue, hnext, hexecuted⟩ :=
                @parseRound_of_taken calloc command r queue body rest hhuge hfifo hhead hbody
                  fun _ => (head_below_of_waits hwaits).2
              have hexact := roundExact_iff hfifo hhead hvalue hnext hexecuted
              rw [parseLoop, parseRounds, hround]
              dsimp only
              rw [List.forall_mem_cons, hexact,
                ← ih (store 0 body command) next hnext fuel (by omega)]
              constructor
              · rintro ⟨hloop, -, hrounds⟩
                exact ⟨hbody, hloop, hrounds⟩
              · rintro ⟨-, hloop, hrounds⟩
                exact ⟨hloop, hnonneg, hrounds⟩
            · have hfault := @parseRound_of_overrun calloc command r queue body rest hfifo
                (Or.inr ⟨hhead, by omega⟩)
              rw [parseLoop, hfault]
              exact iff_of_false (by simp) fun hwell => hbody hwell.1
          · -- The header passes the comparison, so a round that is defined executes it.
            refine iff_of_false ?_ (not_wellHeaded_of_negative hfifo hhead hnonneg)
            rintro ⟨hloop, hrounds⟩
            rw [parseLoop] at hloop
            rw [parseRounds] at hrounds
            cases hround : parseRound calloc command r with
            | fault =>
                rw [hround] at hloop
                exact hloop rfl
            | stop => exact parseRound_ne_stop hfifo hhead hround
            | next command' next =>
                rw [hround] at hrounds
                exact hnonneg (hrounds (r, next) List.mem_cons_self).header_nonneg
  | short queue hhead =>
      cases fuel with
      | zero => omega
      | succ fuel =>
          rw [parseLoop, parseRounds, parseRound_of_short hfifo hhead]
          refine iff_of_true ⟨by simp, by simp⟩ ?_
          unfold WellHeaded
          rw [decode_of_short (head_waits_of_short hhead)]
          simp
  | bad queue hhead =>
      cases fuel with
      | zero => omega
      | succ fuel =>
          have hfault := @parseRound_of_overrun calloc command r queue [] [] hfifo (Or.inl hhead)
          rw [parseLoop, hfault]
          refine iff_of_false (by simp) ?_
          intro hwell
          exact not_survivable_of_bad hhead (hwell.survivable 0)

/-- **Byte accounting.**  On any bytes in the ring, at any position of it, the parser ends
and accounts for every byte if and only if every header it meets is a length that waits
for its frame and every complete frame fits into the array. -/
theorem byte_accounting_iff {calloc : Calloc} (hhuge : RefusesHuge calloc) {r : Receiver}
    {queue : List UInt8} (hfifo : r.node.recvFifo.Holds queue) :
    AccountsBytes calloc r ↔ WellHeaded queue := by
  have hlength := hfifo.length_eq
  constructor
  · rintro ⟨⟨r', -, -, hloop⟩, hrounds⟩
    have hfuel : r.node.recvFifo.length < (queue.length + 1 : Nat) := by omega
    refine (parseLoop_exact_iff hhuge (fun _ => 0) r hfifo _ (Nat.lt_succ_self _)).mp ⟨?_, ?_⟩
    · rw [hloop _ hfuel]
      simp
    · exact hrounds _ hfuel
  · intro hwell
    obtain ⟨r', hloop, hleft, -⟩ :=
      parseLoop_of_survivable hhuge (fun _ => 0) (hwell.survivable 0) r hfifo
    constructor
    case terminates =>
      refine ⟨r', hloop _ (by omega), ?_, ?_⟩
      · rw [hleft.length_eq]
        omega
      · intro fuel hfuel
        exact hloop fuel (by omega)
    case rounds =>
      intro fuel hfuel
      exact ((parseLoop_exact_iff hhuge (fun _ => 0) r hfifo fuel (by omega)).mpr hwell).2

theorem refusesHuge_grantsAll : RefusesHuge grantsAll := by
  intro k size hsize
  simp only [grantsAll, decide_eq_false_iff_not]
  omega

theorem Receiver.holds_holding {bytes : List UInt8} (hroom : bytes.length ≤ 8192) :
    (Receiver.holding bytes).node.recvFifo.Holds bytes := by
  have hpush := (RecvDataFifo.holds_init fun _ => 0).push bytes (by simpa using hroom)
  exact hpush

/-- The header of four bytes FF is the length -1: it is popped, and a frame of that length
is executed. -/
theorem negative_header_is_executed :
    (Receiver.holding [255, 255, 255, 255]).node.recvFifo.Holds [255, 255, 255, 255] ∧
      ((parseRecvNetCommand grantsAll (.holding [255, 255, 255, 255])).map
        fun r => (r.executed, r.node.recvFifo.length)) = some ([⟨-1, []⟩], 0) ∧
      ¬ AccountsBytes grantsAll (.holding [255, 255, 255, 255]) := by
  have hfifo := @Receiver.holds_holding [255, 255, 255, 255] (by decide)
  refine ⟨hfifo, by decide +kernel, ?_⟩
  intro haccounts
  have hround : (Receiver.holding [255, 255, 255, 255]).node.recvFifo.length < (5 : Nat) := by
    decide +kernel
  have hexact := haccounts.rounds 5 hround
  have hnonneg := (hexact _ (List.mem_cons_self)).header_nonneg
  rw [hfifo.topInt_eq] at hnonneg
  exact absurd hnonneg (by decide +kernel)

/-- An answer and an empty frame. -/
theorem byte_accounting_two_frames :
    (Receiver.holding (encodeAll [[0x81, 1], []])).node.recvFifo.length = 10 ∧
      AccountsBytes grantsAll (.holding (encodeAll [[0x81, 1], []])) := by
  refine ⟨by decide +kernel, (byte_accounting_iff refusesHuge_grantsAll
    (Receiver.holds_holding (by decide))).mpr ?_⟩
  unfold WellHeaded
  rw [decode_encodeAll (by decide)]
  simp

end Client
end StupidP2P
