import StupidP2P.Client.Model
import StupidP2P.Foundation.Machine

/-!
# The receive ring is a queue of bytes

`Holds queue` says which bytes are in a receive ring, and that its count is right.  As
long as no more is pushed than there is room for, and no more popped than there is, the
operations of the ring are those of the queue, at every position of the pointers.

`recvFifoMachine` makes calls of these operations in any order.  Beside the ring it keeps
all bytes ever pushed and the number of bytes popped, so that the queue the ring should be
is known without looking at the ring.
-/

namespace StupidP2P
namespace Client

open Foundation
open Foundation.Framing

/-- The bytes received and not popped yet, oldest first. -/
structure RecvDataFifo.Holds (fifo : RecvDataFifo) (queue : List UInt8) : Prop where
  ring : fifo.ring.Holds queue
  length_eq : fifo.length = queue.length

namespace RecvDataFifo

theorem holds_init (data : Nat → UInt8) : (recvDataFifoInit data).Holds [] :=
  ⟨Ring.holds_start data _, rfl⟩

namespace Holds

variable {fifo : RecvDataFifo} {queue : List UInt8}

theorem length_le (h : fifo.Holds queue) : queue.length ≤ 8192 := h.ring.length_le

theorem foldl_write {ring : Ring netReadDataLength UInt8} (h : ring.Holds queue)
    (data : List UInt8) (hroom : queue.length + data.length ≤ netReadDataLength) :
    (data.foldl Ring.write ring).Holds (queue ++ data) := by
  induction data generalizing ring queue with
  | nil => simpa using h
  | cons b data ih =>
      rw [List.length_cons] at hroom
      have hwrite := h.write (show queue.length < netReadDataLength by omega) b
      have hrest := ih hwrite (by rw [List.length_append, List.length_singleton]; omega)
      rwa [List.append_assoc] at hrest

theorem push (h : fifo.Holds queue) (data : List UInt8)
    (hroom : queue.length + data.length ≤ netReadDataLength) :
    (recvDataFifoPush fifo data data.length).Holds (queue ++ data) where
  ring := by
    change (((data.take (data.length : Int).toNat)).foldl Ring.write fifo.ring).Holds _
    rw [Int.toNat_natCast, List.take_length]
    exact foldl_write h.ring data hroom
  length_eq := by
    change wrap32 (fifo.length + data.length) = _
    have hcapacity : netReadDataLength = 8192 := rfl
    rw [h.length_eq, wrap32_of_range (by omega) (by omega), List.length_append]
    omega

theorem iterate_skip {ring : Ring netReadDataLength UInt8} (popped : List UInt8)
    (h : ring.Holds (popped ++ queue)) : (Ring.skip^[popped.length] ring).Holds queue := by
  induction popped generalizing ring with
  | nil => exact h
  | cons b popped ih =>
      rw [List.length_cons, Function.iterate_succ_apply]
      exact ih h.skip

theorem pop (popped : List UInt8) (h : fifo.Holds (popped ++ queue)) :
    (recvDataFifoPop fifo popped.length).Holds queue where
  ring := by
    change (Ring.skip^[(popped.length : Int).toNat] fifo.ring).Holds queue
    rw [Int.toNat_natCast]
    exact iterate_skip popped h.ring
  length_eq := by
    change wrap32 (fifo.length - popped.length) = _
    have hle := h.length_le
    have hlength := h.length_eq
    rw [List.length_append] at hle hlength
    rw [wrap32_of_range] <;> omega

theorem top_eq {b : UInt8} (h : fifo.Holds (b :: queue)) : recvDataFifoTop fifo = b :=
  h.ring.front_eq

/-- The loop of `top_int` reads the first four bytes, also across the end of the
array. -/
theorem topInt_eq {a b c d : UInt8} (h : fifo.Holds (a :: b :: c :: d :: queue)) :
    recvDataFifoTopInt fifo = headerValue a b c d := by
  have hr : fifo.ring.r = fifo.ring.r % netReadDataLength :=
    (Nat.mod_eq_of_lt fifo.ring.r_lt).symm
  have ha : fifo.ring.cells (fifo.ring.r % netReadDataLength) = a := h.ring.cell 0 a rfl
  have hb := h.ring.cell 1 b rfl
  have hc := h.ring.cell 2 c rfl
  have hd := h.ring.cell 3 d rfl
  simp only [recvDataFifoTopInt, List.foldl_cons, List.foldl_nil, topIntRound]
  rw [hr]
  simp only [Ring.advance_mod (show 0 < netReadDataLength by decide), ha, hb, hc, hd,
    wrap32_add_wrap32]
  unfold headerValue
  congr 1
  omega

end Holds

/-- The bytes from `r_ptr` on, with wrap-around, as many as `length` says. -/
def contents (fifo : RecvDataFifo) : List UInt8 :=
  (List.range fifo.length.toNat).map fun k =>
    fifo.ring.cells ((fifo.ring.r + k) % netReadDataLength)

theorem Holds.contents_eq {fifo : RecvDataFifo} {queue : List UInt8} (h : fifo.Holds queue) :
    fifo.contents = queue := by
  unfold contents
  rw [h.length_eq, Int.toNat_natCast]
  exact h.ring.map_cells_eq

end RecvDataFifo

/-! ## Sequences of calls -/

/-- The ring, all bytes ever pushed, and how many were popped. -/
structure RecvFifoLog where
  fifo : RecvDataFifo
  pushed : List UInt8
  popped : Nat

namespace RecvFifoLog

def initial (data : Nat → UInt8) : RecvFifoLog := ⟨recvDataFifoInit data, [], 0⟩

def push (s : RecvFifoLog) (data : List UInt8) (length : Int) : RecvFifoLog where
  fifo := recvDataFifoPush s.fifo data length
  pushed := s.pushed ++ data.take length.toNat
  popped := s.popped

def pop (s : RecvFifoLog) (length : Int) : RecvFifoLog where
  fifo := recvDataFifoPop s.fifo length
  pushed := s.pushed
  popped := s.popped + length.toNat

theorem fifo_length_push (s : RecvFifoLog) (data : List UInt8) (length : Int) :
    (s.push data length).fifo.length = wrap32 (s.fifo.length + length) := rfl

theorem fifo_length_pop (s : RecvFifoLog) (length : Int) :
    (s.pop length).fifo.length = wrap32 (s.fifo.length - length) := rfl

/-- The bytes pushed and not popped yet. -/
def queue (s : RecvFifoLog) : List UInt8 := s.pushed.drop s.popped

end RecvFifoLog

inductive RecvFifoEvent
  | push (data : List UInt8) (length : Int)
  | pop (length : Int)
  | top
  | topInt

/-- What a call returns; `top` returns a pointer, and the byte is what it points to. -/
inductive RecvFifoAnswer
  | nothing
  | byte (value : UInt8)
  | int (value : Int)
deriving DecidableEq

/-- Calls on a ring whose array holds `data` at first.  `length` bytes are pushed from the
front of a buffer, as long as there is room for them, and popped, as long as they are
there. -/
def recvFifoMachine (data : Nat → UInt8) :
    Machine RecvFifoLog RecvFifoEvent RecvFifoAnswer where
  init := .initial data
  enabled s event :=
    match event with
    | .push data length =>
        0 ≤ length ∧ length ≤ netReadDataLength - s.fifo.length ∧ length ≤ data.length
    | .pop length => 0 ≤ length ∧ length ≤ s.fifo.length
    | .top => True
    | .topInt => True
  exec s event :=
    match event with
    | .push data length => some (s.push data length, .nothing)
    | .pop length => some (s.pop length, .nothing)
    | .top => some (s, .byte (recvDataFifoTop s.fifo))
    | .topInt => some (s, .int (recvDataFifoTopInt s.fifo))

namespace RecvFifoLog

variable {s : RecvFifoLog}

/-- The ring is the queue: its pointers are in the array, its count and its contents are
those of the queue, and so is what `top` and `top_int` return. -/
structure IsQueue (s : RecvFifoLog) : Prop where
  r_lt : s.fifo.ring.r < netReadDataLength
  w_lt : s.fifo.ring.w < netReadDataLength
  length_eq : s.fifo.length = s.queue.length
  length_le : s.queue.length ≤ netReadDataLength
  contents_eq : s.fifo.contents = s.queue
  top_eq : ∀ b rest, s.queue = b :: rest → recvDataFifoTop s.fifo = b
  topInt_eq : ∀ a b c d rest, s.queue = a :: b :: c :: d :: rest →
    recvDataFifoTopInt s.fifo = headerValue a b c d

/-- What the steps keep. -/
structure Inv (s : RecvFifoLog) : Prop where
  holds : s.fifo.Holds s.queue
  popped_le : s.popped ≤ s.pushed.length

theorem Inv.isQueue (h : s.Inv) : s.IsQueue where
  r_lt := s.fifo.ring.r_lt
  w_lt := s.fifo.ring.w_lt
  length_eq := h.holds.length_eq
  length_le := h.holds.length_le
  contents_eq := h.holds.contents_eq
  top_eq := by
    intro b rest hqueue
    have hholds := h.holds
    rw [hqueue] at hholds
    exact hholds.top_eq
  topInt_eq := by
    intro a b c d rest hqueue
    have hholds := h.holds
    rw [hqueue] at hholds
    exact hholds.topInt_eq

theorem inv_initial (data : Nat → UInt8) : (initial data).Inv :=
  ⟨RecvDataFifo.holds_init data, Nat.le_refl 0⟩

/-- `push` reads no more of the buffer than it is told to. -/
theorem recvDataFifoPush_take (fifo : RecvDataFifo) {data : List UInt8} {length : Int}
    (hnonneg : 0 ≤ length) (hle : length ≤ data.length) :
    recvDataFifoPush fifo data length =
      recvDataFifoPush fifo (data.take length.toNat) (data.take length.toNat).length := by
  have hlength : (data.take length.toNat).length = length.toNat :=
    List.length_take_of_le (by omega)
  unfold recvDataFifoPush
  rw [Int.toNat_natCast, List.take_length, hlength, Int.toNat_of_nonneg hnonneg]

theorem Inv.push (h : s.Inv) {data : List UInt8} {length : Int} (hnonneg : 0 ≤ length)
    (hroom : length ≤ netReadDataLength - s.fifo.length) (hle : length ≤ data.length) :
    (s.push data length).Inv where
  holds := by
    have htaken : (data.take length.toNat).length = length.toNat :=
      List.length_take_of_le (by omega)
    have hcount := h.holds.length_eq
    change (recvDataFifoPush s.fifo data length).Holds
      ((s.pushed ++ data.take length.toNat).drop s.popped)
    rw [recvDataFifoPush_take s.fifo hnonneg hle, List.drop_append_of_le_length h.popped_le]
    exact h.holds.push _ (by rw [htaken]; omega)
  popped_le := by
    change s.popped ≤ (s.pushed ++ data.take length.toNat).length
    rw [List.length_append]
    exact Nat.le_add_right_of_le h.popped_le

theorem Inv.pop (h : s.Inv) {length : Int} (hnonneg : 0 ≤ length)
    (hle : length ≤ s.fifo.length) : (s.pop length).Inv where
  holds := by
    have hcount := h.holds.length_eq
    have htaken : (s.queue.take length.toNat).length = length.toNat :=
      List.length_take_of_le (by omega)
    have hsplit := h.holds
    rw [← List.take_append_drop length.toNat s.queue] at hsplit
    have hpop := RecvDataFifo.Holds.pop _ hsplit
    rw [htaken, Int.toNat_of_nonneg hnonneg, queue, List.drop_drop] at hpop
    exact hpop
  popped_le := by
    have hcount := h.holds.length_eq
    rw [queue, List.length_drop] at hcount
    change s.popped + length.toNat ≤ s.pushed.length
    have := h.popped_le
    omega

theorem Inv.step {data : Nat → UInt8} {t : Transition RecvFifoLog RecvFifoEvent RecvFifoAnswer}
    (hstep : (recvFifoMachine data).Step t) (hpre : t.pre.Inv) : t.post.Inv := by
  obtain ⟨pre, event, output, post⟩ := t
  obtain ⟨henabled, hexec⟩ := hstep
  dsimp only at hpre henabled hexec ⊢
  cases event with
  | push data length =>
      obtain ⟨rfl, -⟩ := Prod.mk.inj (Option.some.inj hexec)
      obtain ⟨hnonneg, hroom, hle⟩ := henabled
      exact hpre.push hnonneg hroom hle
  | pop length =>
      obtain ⟨rfl, -⟩ := Prod.mk.inj (Option.some.inj hexec)
      obtain ⟨hnonneg, hle⟩ := henabled
      exact hpre.pop hnonneg hle
  | top =>
      obtain ⟨rfl, -⟩ := Prod.mk.inj (Option.some.inj hexec)
      exact hpre
  | topInt =>
      obtain ⟨rfl, -⟩ := Prod.mk.inj (Option.some.inj hexec)
      exact hpre

end RecvFifoLog

/-- **The receive ring refines a queue of bytes.**  In every state of a sequence of calls that
pushes no more than there is room for and pops no more than there is, the ring is the queue
of the bytes pushed and not popped yet. -/
theorem recv_fifo_refines_queue {data : Nat → UInt8}
    {trace : List (Transition RecvFifoLog RecvFifoEvent RecvFifoAnswer)} {s : RecvFifoLog}
    (hrun : (recvFifoMachine data).Run trace s) :
    ∀ σ ∈ (recvFifoMachine data).visited trace, σ.IsQueue := by
  intro σ hσ
  obtain ⟨trace', hrun'⟩ := hrun.reachable_of_visited σ hσ
  exact (hrun'.invariant RecvFifoLog.Inv (RecvFifoLog.inv_initial data)
    (fun _ => RecvFifoLog.Inv.step)).isQueue

/-- Any bytes can be in the ring at any position: `n` others are pushed and popped before. -/
theorem reachable_shifted (cells : Nat → UInt8) {n : Nat} (hn : n ≤ netReadDataLength)
    {bytes : List UInt8} (hbytes : bytes.length ≤ netReadDataLength) :
    ∃ s, (recvFifoMachine cells).Reachable s ∧ s.popped = n ∧ s.queue = bytes := by
  have hcapacity : netReadDataLength = 8192 := rfl
  obtain ⟨others, hothers⟩ : ∃ others : List UInt8, others.length = n :=
    ⟨List.replicate n 0, List.length_replicate⟩
  have hempty : (RecvFifoLog.initial cells).fifo.length = 0 := rfl
  have hfilled : (recvFifoMachine cells).Reachable
      ((RecvFifoLog.initial cells).push others n) := by
    have hstart : (recvFifoMachine cells).Reachable (.initial cells) := ⟨[], .start⟩
    exact hstart.exec (.push others n) ⟨by omega, by rw [hempty]; omega, by omega⟩ rfl
  have hcount : ((RecvFifoLog.initial cells).push others n).fifo.length = n := by
    rw [RecvFifoLog.fifo_length_push, hempty, wrap32_of_range] <;> omega
  have hemptied := hfilled.exec (.pop n) ⟨by omega, hcount.ge⟩ rfl
  have hzero : (((RecvFifoLog.initial cells).push others n).pop n).fifo.length = 0 := by
    rw [RecvFifoLog.fifo_length_pop, hcount, Int.sub_self]
    rfl
  have hwritten := hemptied.exec (.push bytes bytes.length)
    ⟨by omega, by rw [hzero]; omega, Int.le_refl _⟩ rfl
  refine ⟨_, hwritten, ?_, ?_⟩
  · change 0 + (n : Int).toNat = n
    rw [Int.toNat_natCast, Nat.zero_add]
  · change (([] ++ others.take (n : Int).toNat) ++ bytes.take (bytes.length : Int).toNat).drop
      (0 + (n : Int).toNat) = bytes
    rw [Int.toNat_natCast, Int.toNat_natCast, List.nil_append, List.take_length, Nat.zero_add,
      List.take_of_length_le hothers.le]
    exact List.drop_left' hothers

/-- Four bytes of which the last two are at the front of the array. -/
theorem recv_fifo_refines_queue_wrapped :
    ∃ trace s, (recvFifoMachine fun _ => 0).Run trace s ∧ s.popped = 8190 ∧
      s.fifo.contents = [1, 2, 3, 4] ∧ recvDataFifoTop s.fifo = 1 ∧
      recvDataFifoTopInt s.fifo = 0x01020304 := by
  obtain ⟨s, ⟨trace, hrun⟩, hpopped, hqueue⟩ := reachable_shifted (fun _ => 0)
    (show 8190 ≤ netReadDataLength by decide)
    (show [1, 2, 3, 4].length ≤ netReadDataLength by decide)
  have hisQueue := recv_fifo_refines_queue hrun s hrun.mem_visited
  refine ⟨trace, s, hrun, hpopped, ?_, hisQueue.top_eq _ _ hqueue, ?_⟩
  · rw [hisQueue.contents_eq, hqueue]
  · rw [hisQueue.topInt_eq _ _ _ _ _ hqueue]
    decide

end Client
end StupidP2P
