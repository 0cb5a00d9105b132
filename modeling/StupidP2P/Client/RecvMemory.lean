import Mathlib.Data.Multiset.Bind
import Mathlib.Tactic.Abel
import StupidP2P.Client.RecvData
import StupidP2P.Client.RecvDataList
import StupidP2P.Foundation.Blocks

/-!
# The memory of received messages

A received message lives in four kinds of blocks.  The parser allocates its bytes, a
`recv_data_t` and a list node; `stupid_p2p_recv_data` allocates a `recv_data_buf_t` and an
array of pointers, into which it puts the messages it takes off the list; the application
gives the `recv_data_buf_t` back to `stupid_p2p_free_recv_data_buf`.  Any call of `calloc`
can fail, calls of `stupid_p2p_recv_data` can be under way in several threads, and messages
arrive meanwhile.  A step is what is done between two points at which other threads can get
in; the list is locked for each node.

Blocks of each type have addresses of their own.  Using or freeing a block that is not
allocated is `none`, and so is the write behind `data_buf`.

The invariant is an account of the blocks, `Accounted`: who has which message, and which
blocks nobody can free any more.
-/

namespace StupidP2P
namespace Client

open Foundation

/-! ## The functions -/

/-- A `recv_data_buf_t`; `recvData` is `none` for a null pointer. -/
structure RecvDataBuf where
  num : Nat
  recvData : Option Nat
deriving DecidableEq

/-- The case `SEND_DATA` of the parser, for the bytes behind the code.  `data`, `recvData` and
`node` are what `calloc` returns, `none` for a null pointer. -/
def RecvDataMemory.execSendData (memory : RecvDataMemory) (payload : List UInt8)
    (data recvData node : Option Nat) : Option RecvDataMemory :=
  match data with
  | none => some memory
  | some data =>
      let memory :=
        { memory with buffers := Function.update memory.buffers data (some payload) }
      match recvData with
      | none => memory.freeBuffer data
      | some recvData =>
          let memory :=
            { memory with
              messages := Function.update memory.messages recvData
                (some ⟨payload.length, some data⟩) }
          match node with
          | none => (memory.freeBuffer data).bind fun memory => memory.freeMessage recvData
          | some node =>
              RecvDataMemory.recvDataListAdd
                { memory with list := memory.list.alloc node (some recvData) } node

/-- `free`, which does nothing for a null pointer. -/
def RecvDataMemory.freeData (memory : RecvDataMemory) : Option Nat → Option RecvDataMemory
  | none => some memory
  | some buffer => memory.freeBuffer buffer

/-- What is allocated, and the calls of `stupid_p2p_recv_data` under way: each is known by the
`recv_data_buf_t` it has allocated, and has so many pointers in its `data_buf`. -/
structure RecvMemory where
  memory : RecvDataMemory
  arrays : Nat → Option (List Nat)
  bufs : Nat → Option RecvDataBuf
  calls : Nat → Option (List Nat)
  /-- The data frames so far; the list is not longer. -/
  frames : Nat
  /-- Whether the client was taken down. -/
  closed : Bool

namespace RecvMemory

def initial : RecvMemory where
  memory := .initialized
  arrays := fun _ => none
  bufs := fun _ => none
  calls := fun _ => none
  frames := 0
  closed := false

variable (s : RecvMemory)

/-- `stupid_p2p_recv_data` up to its loop. -/
def call (buf : Option Nat) : RecvMemory :=
  match buf with
  | none => s
  | some buf =>
      { s with
        bufs := Function.update s.bufs buf (some ⟨0, none⟩)
        calls := Function.update s.calls buf (some []) }

def freeBuf (buf : Nat) : Option RecvMemory :=
  (s.bufs buf).map fun _ => { s with bufs := Function.update s.bufs buf none }

/-- What follows the loop; `array` is what `calloc` returns. -/
def finish (buf : Nat) (dataBuf : List Nat) (array : Option Nat) : Option RecvMemory :=
  let s := { s with calls := Function.update s.calls buf none }
  match array with
  | none =>
      (s.freeBuf buf).bind fun s =>
        (dataBuf.foldlM RecvDataMemory.freeMessage s.memory).map fun memory =>
          { s with memory := memory }
  | some array =>
      (s.bufs buf).map fun _ =>
        { s with
          arrays := Function.update s.arrays array (some dataBuf)
          bufs := Function.update s.bufs buf (some ⟨dataBuf.length, some array⟩) }

/-- One round of the loop, and what follows if it is the last. -/
def round (buf : Nat) (array : Option Nat) : Option RecvMemory :=
  (s.calls buf).bind fun dataBuf =>
    s.memory.recvDataListReturnData.bind fun (recvData, memory) =>
      let s := { s with memory := memory }
      match recvData with
      | none => s.finish buf dataBuf array
      | some recvData =>
          if dataBuf.length > maxNum then s.finish buf dataBuf array
          else if dataBuf.length < 1024 then
            some { s with calls := Function.update s.calls buf (some (dataBuf ++ [recvData])) }
          else none

/-- `recv_data_buf->recv_data[i]`. -/
def entry (object : RecvDataBuf) (i : Nat) : Option Nat :=
  (object.recvData.bind s.arrays).bind fun entries => entries[i]?

/-- The body of the loop in `stupid_p2p_free_recv_data_buf`. -/
def freeEntry (memory : RecvDataMemory) (message : Nat) : Option RecvDataMemory :=
  (memory.messages message).bind fun object =>
    (memory.freeData object.data).bind fun memory => memory.freeMessage message

/-- `stupid_p2p_free_recv_data_buf`. -/
def freeRecvDataBuf (buf : Nat) : Option RecvMemory :=
  (s.bufs buf).bind fun object =>
    ((List.range object.num).foldlM
      (fun memory i => (s.entry object i).bind (freeEntry memory)) s.memory).bind
        fun memory => freeBuf { s with memory := memory } buf

/-- What the application finds in a buffer. -/
def readBuf (buf : Nat) : Option (List RecvData) :=
  (s.bufs buf).bind fun object =>
    (List.range object.num).mapM fun i =>
      (s.entry object i).bind fun message =>
        (s.memory.messages message).bind fun object =>
          (object.data.bind s.memory.buffers).map fun bytes => ⟨object.length, bytes⟩

end RecvMemory

inductive RecvMemoryEvent
  /-- A data frame is parsed. -/
  | frame (payload : List UInt8) (data recvData node : Option Nat)
  /-- A call of `stupid_p2p_recv_data`. -/
  | call (buf : Option Nat)
  /-- A round of the loop of the call that has this buffer. -/
  | round (buf : Nat) (array : Option Nat)
  /-- A call of `stupid_p2p_free_recv_data_buf`. -/
  | free (buf : Nat)
  /-- `recv_data_list_deinit`. -/
  | deinit

namespace RecvMemory

def exec (s : RecvMemory) : RecvMemoryEvent → Option RecvMemory
  | .frame payload data recvData node =>
      (s.memory.execSendData payload data recvData node).map fun memory =>
        { s with memory := memory, frames := s.frames + 1 }
  | .call buf => some (s.call buf)
  | .round buf array => s.round buf array
  | .free buf => s.freeRecvDataBuf buf
  | .deinit =>
      (RecvDataMemory.recvDataListDeinitLoop (s.frames + 1) s.memory).map fun (memory, _) =>
        { s with memory := memory, closed := true }

end RecvMemory

/-- `calloc` returns what is not allocated.  An application frees only buffers it was handed,
and each once; it takes a client down when no call is under way, and makes no call then. -/
def recvMemoryEnabled (s : RecvMemory) : RecvMemoryEvent → Prop
  | .frame _ data recvData node =>
      s.closed = false ∧ (∀ a ∈ data, s.memory.buffers a = none) ∧
        (∀ a ∈ recvData, s.memory.messages a = none) ∧
        ∀ a ∈ node, ¬ s.memory.list.Live (.node a)
  | .call buf => s.closed = false ∧ ∀ a ∈ buf, s.bufs a = none
  | .round buf array => s.calls buf ≠ none ∧ ∀ a ∈ array, s.arrays a = none
  | .free buf => s.bufs buf ≠ none ∧ s.calls buf = none
  | .deinit => s.closed = false ∧ ∀ buf, s.calls buf = none

def recvMemory : Machine RecvMemory RecvMemoryEvent Unit where
  init := .initial
  enabled := recvMemoryEnabled
  exec s event := (s.exec event).map fun s => (s, ())

/-! ## The account -/

/-- A message: the address of its `recv_data_t` and of its bytes, and these. -/
structure Received where
  address : Nat
  buffer : Nat
  bytes : List UInt8

namespace Received

def object (m : Received) : Nat × RecvDataObject :=
  (m.address, ⟨m.bytes.length, some m.buffer⟩)

def block (m : Received) : Nat × List UInt8 := (m.buffer, m.bytes)

/-- As the application sees it. -/
def recvData (m : Received) : RecvData := ⟨m.bytes.length, m.bytes⟩

end Received

/-- A call under way. -/
structure Filling where
  buf : Nat
  messages : List Received

/-- A buffer the application has. -/
structure Handed where
  buf : Nat
  array : Nat
  messages : List Received

namespace Filling

def object (c : Filling) : Nat × RecvDataBuf := (c.buf, ⟨0, none⟩)

def dataBuf (c : Filling) : Nat × List Nat := (c.buf, c.messages.map Received.address)

end Filling

namespace Handed

def object (c : Handed) : Nat × RecvDataBuf := (c.buf, ⟨c.messages.length, some c.array⟩)

def entries (c : Handed) : Nat × List Nat := (c.array, c.messages.map Received.address)

end Handed

/-- Who has what: the messages in the list with their nodes, the calls under way and the
buffers handed out with theirs, and the blocks nobody can free any more. -/
structure Account where
  payloads : List (List UInt8)
  queue : List (Nat × Received)
  filling : Multiset Filling
  handed : Multiset Handed
  lostArrays : Multiset (Nat × List Nat)
  lostData : Multiset (Nat × List UInt8)

/-- All messages there are. -/
def Account.messages (a : Account) : Multiset Received :=
  (a.queue.map Prod.snd : List Received) +
    (a.filling.bind (fun c => (c.messages : Multiset Received)) +
      a.handed.bind fun c => (c.messages : Multiset Received))

/-- The blocks allocated are those of the account. -/
structure RecvMemory.Accounted (s : RecvMemory) (a : Account) : Prop where
  nodes : s.memory.Holds (a.queue.map fun entry => (entry.1, entry.2.address))
  messages : Exactly s.memory.messages (a.messages.map Received.object)
  buffers : Exactly s.memory.buffers (a.messages.map Received.block + a.lostData)
  arrays : Exactly s.arrays (a.handed.map Handed.entries + a.lostArrays)
  bufs : Exactly s.bufs (a.handed.map Handed.object + a.filling.map Filling.object)
  calls : Exactly s.calls (a.filling.map Filling.dataBuf)
  bounded : a.queue.length ≤ s.frames
  room : ∀ c ∈ a.filling, c.messages.length ≤ 1024
  closed : s.closed = true → a.queue = [] ∧ a.filling = 0
  /-- Messages are taken in the order in which they came. -/
  order : (a.queue.map (Received.bytes ∘ Prod.snd)).Sublist a.payloads ∧
    (∀ c ∈ a.filling, (c.messages.map Received.bytes ++
      a.queue.map (Received.bytes ∘ Prod.snd)).Sublist a.payloads) ∧
    ∀ c ∈ a.handed, (c.messages.map Received.bytes).Sublist a.payloads

namespace Account

variable {a : Account} {entry : Nat × Received} {rest : List (Nat × Received)}

theorem messages_cons_queue (hqueue : a.queue = entry :: rest) :
    a.messages = entry.2 ::ₘ Account.messages { a with queue := rest } := by
  rw [messages, hqueue, List.map_cons, ← Multiset.cons_coe, Multiset.cons_add]
  rfl

theorem messages_concat_queue (a : Account) (entry : Nat × Received) :
    Account.messages { a with queue := a.queue ++ [entry] } = entry.2 ::ₘ a.messages := by
  rw [messages, List.map_append, ← Multiset.coe_add, List.map_singleton, Multiset.coe_singleton,
    Multiset.add_comm _ {entry.2}, Multiset.add_assoc, Multiset.singleton_add]
  rfl

theorem messages_cons_filling {c : Filling} {others : Multiset Filling}
    (hfilling : a.filling = c ::ₘ others) :
    a.messages = ↑c.messages + Account.messages { a with filling := others } := by
  rw [messages, hfilling, Multiset.cons_bind, messages]
  dsimp only
  abel

theorem messages_cons_handed {c : Handed} {others : Multiset Handed}
    (hhanded : a.handed = c ::ₘ others) :
    a.messages = ↑c.messages + Account.messages { a with handed := others } := by
  rw [messages, hhanded, Multiset.cons_bind, messages]
  dsimp only
  abel

end Account

/-! ## Freeing messages -/

section

variable {memory : RecvDataMemory} {objects : Multiset (Nat × RecvDataObject)}
variable {blocks : Multiset (Nat × List UInt8)}

/-- `free(recv_data)` for each of these messages; their bytes stay. -/
theorem exists_freeMessages (messages : List Received)
    (hobjects : Exactly memory.messages
      ((messages : Multiset Received).map Received.object + objects)) :
    ∃ memory', (messages.map Received.address).foldlM RecvDataMemory.freeMessage memory =
        some memory' ∧
      memory'.list = memory.list ∧ memory'.buffers = memory.buffers ∧
      Exactly memory'.messages objects := by
  induction messages generalizing memory with
  | nil =>
      rw [Multiset.coe_nil, Multiset.map_zero, Multiset.zero_add] at hobjects
      exact ⟨memory, rfl, rfl, rfl, hobjects⟩
  | cons m messages ih =>
      rw [← Multiset.cons_coe, Multiset.map_cons, Multiset.cons_add] at hobjects
      have hfree : memory.freeMessage m.address =
          some { memory with messages := Function.update memory.messages m.address none } := by
        rw [RecvDataMemory.freeMessage, hobjects.get_first]
        rfl
      obtain ⟨memory', hrest, hlist, hbuffers, hleft⟩ := @ih
        { memory with messages := Function.update memory.messages m.address none } hobjects.free
      refine ⟨memory', ?_, hlist, hbuffers, hleft⟩
      rw [List.map_cons, List.foldlM_cons, hfree]
      exact hrest

/-- The body of the loop of `stupid_p2p_free_recv_data_buf` for each of these messages. -/
theorem exists_freeEntries (messages : List Received)
    (hobjects : Exactly memory.messages
      ((messages : Multiset Received).map Received.object + objects))
    (hblocks : Exactly memory.buffers
      ((messages : Multiset Received).map Received.block + blocks)) :
    ∃ memory', (messages.map Received.address).foldlM RecvMemory.freeEntry memory =
        some memory' ∧
      memory'.list = memory.list ∧ Exactly memory'.messages objects ∧
      Exactly memory'.buffers blocks := by
  induction messages generalizing memory with
  | nil =>
      rw [Multiset.coe_nil, Multiset.map_zero, Multiset.zero_add] at hobjects hblocks
      exact ⟨memory, rfl, rfl, hobjects, hblocks⟩
  | cons m messages ih =>
      rw [← Multiset.cons_coe, Multiset.map_cons, Multiset.cons_add] at hobjects hblocks
      have hfree : RecvMemory.freeEntry memory m.address =
          some { memory with
            messages := Function.update memory.messages m.address none
            buffers := Function.update memory.buffers m.buffer none } := by
        rw [RecvMemory.freeEntry, hobjects.get_first, Option.bind_some, RecvDataMemory.freeData,
          RecvDataMemory.freeBuffer, hblocks.get_first, Option.map_some, Option.bind_some,
          RecvDataMemory.freeMessage, hobjects.get_first]
        rfl
      obtain ⟨memory', hrest, hlist, hleft, hkept⟩ := @ih
        { memory with
          messages := Function.update memory.messages m.address none
          buffers := Function.update memory.buffers m.buffer none } hobjects.free hblocks.free
      refine ⟨memory', ?_, hlist, hleft, hkept⟩
      rw [List.map_cons, List.foldlM_cons, hfree]
      exact hrest

end

end Client
end StupidP2P
