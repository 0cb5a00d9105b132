import StupidP2P.Client.Model
import StupidP2P.Foundation.CircularList
import StupidP2P.Foundation.Machine

/-!
# The list of received messages on the heap

Elsewhere `recv_data_list` is the sequence of the messages in it.  Here it is what the code
has: a circular doubly linked list whose sentinel is a field of the client record, with nodes
that are allocated for each message and freed when the message is handed out.  A node points
to a `recv_data_t`, and that to a buffer.  Using a pointer to something that is not allocated
is `none`, and so is freeing it; in particular nothing can be freed twice.

After `recv_data_list_init` the machine calls `recv_data_list_add` with fresh nodes,
`recv_data_list_return_data`, and at the end `recv_data_list_deinit`.  The main result is that
the list is a queue: each call does to the list on the heap what `recvDataListAdd` and
`recvDataListReturnData` do to a sequence.
-/

namespace StupidP2P
namespace Client

open Foundation

/-- A `recv_data_t` on the heap; `data` is `none` for a null pointer. -/
structure RecvDataObject where
  length : Int
  data : Option Nat

/-- The list, the `recv_data_t` objects and their buffers.  The payload of a list node is its
`recv_data`, which is null in the sentinel. -/
structure RecvDataMemory where
  list : LinkedHeap (Option Nat)
  messages : Nat → Option RecvDataObject
  buffers : Nat → Option (List UInt8)

namespace RecvDataMemory

/-! ## The functions -/

/-- The list of a zeroed record. -/
def zeroedList : LinkedHeap (Option Nat) where
  cells
    | .sentinel => some ⟨none, .null, .null⟩
    | _ => none

/-- `recv_data_list_init`. -/
def recvDataListInit (list : LinkedHeap (Option Nat)) : Option (LinkedHeap (Option Nat)) := do
  let list ← list.setNext .sentinel .sentinel
  list.setPrev .sentinel .sentinel

/-- The memory of a client whose zeroed record has been through `recv_data_list_init`. -/
def initialized : RecvDataMemory where
  list := (recvDataListInit zeroedList).get rfl
  messages := fun _ => none
  buffers := fun _ => none

/-- `recv_data_list_add`: the stores of `insertLast`, in this order. -/
def recvDataListAdd (memory : RecvDataMemory) (node : Nat) : Option RecvDataMemory :=
  (memory.list.insertLast (.node node)).map fun list => { memory with list := list }

/-- Unlink a node and free it. -/
def removeNode (memory : RecvDataMemory) (node : Link) : Option RecvDataMemory := do
  let list ← memory.list.unlink node
  let list ← list.free node
  some { memory with list := list }

/-- `recv_data_list_return_data`: the message, or a null pointer. -/
def recvDataListReturnData (memory : RecvDataMemory) :
    Option (Option Nat × RecvDataMemory) := do
  let node ← memory.list.next .sentinel
  if node = .sentinel then some (none, memory)
  else
    let data ← memory.list.payload node
    let memory ← memory.removeNode node
    some (data, memory)

def freeBuffer (memory : RecvDataMemory) (buffer : Nat) : Option RecvDataMemory :=
  (memory.buffers buffer).map fun _ =>
    { memory with buffers := Function.update memory.buffers buffer none }

def freeMessage (memory : RecvDataMemory) (message : Nat) : Option RecvDataMemory :=
  (memory.messages message).map fun _ =>
    { memory with messages := Function.update memory.messages message none }

/-- `free_recv_data_t`. -/
def freeRecvDataT (memory : RecvDataMemory) (recvData : Option Nat) :
    Option RecvDataMemory := do
  let message ← recvData
  let object ← memory.messages message
  match object.data with
  | none => memory.freeMessage message
  | some buffer =>
      let memory ← memory.freeBuffer buffer
      memory.freeMessage message

/-- The loop of `recv_data_list_deinit` for at most `fuel` tests of its condition: the memory
and the messages released, in order. -/
def recvDataListDeinitLoop : Nat → RecvDataMemory → Option (RecvDataMemory × List Nat)
  | 0, _ => none
  | fuel + 1, memory => do
      let node ← memory.list.next .sentinel
      if node = .sentinel then some (memory, [])
      else
        let recvData ← memory.list.payload node
        let memory ← memory.freeRecvDataT recvData
        let memory ← memory.removeNode node
        let (memory, released) ← recvDataListDeinitLoop fuel memory
        some (memory, recvData.toList ++ released)

/-! ## The messages -/

/-- Every message has its buffer, and no buffer belongs to two messages. -/
structure Owned (memory : RecvDataMemory) : Prop where
  buffer : ∀ message object buffer, memory.messages message = some object →
    object.data = some buffer → (memory.buffers buffer).isSome = true
  unshared : ∀ message message' object object' buffer,
    memory.messages message = some object → memory.messages message' = some object' →
    object.data = some buffer → object'.data = some buffer → message = message'

/-- From `memory` to `memory'` exactly these messages were released, with their buffers. -/
structure Released (memory memory' : RecvDataMemory) (messages : List Nat) : Prop where
  message_gone : ∀ message ∈ messages, memory'.messages message = none
  message_kept : ∀ message, message ∉ messages →
    memory'.messages message = memory.messages message
  buffer_gone : ∀ message ∈ messages, ∀ object buffer, memory.messages message = some object →
    object.data = some buffer → memory'.buffers buffer = none
  buffer_kept : ∀ buffer, (∀ message ∈ messages, ∀ object,
    memory.messages message = some object → object.data ≠ some buffer) →
    memory'.buffers buffer = memory.buffers buffer

variable {memory memory' memory'' : RecvDataMemory} {message : Nat} {object : RecvDataObject}

theorem Released.refl (memory : RecvDataMemory) : Released memory memory [] where
  message_gone := by simp
  message_kept := fun _ _ => rfl
  buffer_gone := by simp
  buffer_kept := fun _ _ => rfl

/-- One message after the other. -/
theorem Released.cons {messages : List Nat} (h : Released memory memory' [message])
    (h' : Released memory' memory'' messages) (hmessage : message ∉ messages) :
    Released memory memory'' (message :: messages) where
  message_gone := by
    intro other hother
    rcases List.mem_cons.mp hother with rfl | hlater
    · rw [h'.message_kept other hmessage]
      exact h.message_gone other List.mem_cons_self
    · exact h'.message_gone other hlater
  message_kept := by
    intro other hother
    rw [List.mem_cons, not_or] at hother
    rw [h'.message_kept other hother.2, h.message_kept other (by simpa using hother.1)]
  buffer_gone := by
    intro other hother object buffer hobject hbuffer
    rcases List.mem_cons.mp hother with rfl | hlater
    · -- It is gone already, and later releases do not bring it back.
      by_cases hkept : ∀ message ∈ messages, ∀ object,
          memory'.messages message = some object → object.data ≠ some buffer
      · rw [h'.buffer_kept buffer hkept]
        exact h.buffer_gone other List.mem_cons_self object buffer hobject hbuffer
      · simp only [not_forall, not_not] at hkept
        obtain ⟨message', hmessage', object', hobject', hbuffer'⟩ := hkept
        exact h'.buffer_gone message' hmessage' object' buffer hobject' hbuffer'
    · have hne : other ≠ message := by
        rintro rfl
        exact hmessage hlater
      refine h'.buffer_gone other hlater object buffer ?_ hbuffer
      rw [h.message_kept other (by simpa using hne)]
      exact hobject
  buffer_kept := by
    intro buffer hbuffer
    rw [h'.buffer_kept buffer, h.buffer_kept buffer]
    · intro other hother object hobject
      obtain rfl := List.mem_singleton.mp hother
      exact hbuffer other List.mem_cons_self object hobject
    · intro other hother object hobject
      have hne : other ≠ message := by
        rintro rfl
        exact hmessage hother
      rw [h.message_kept other (by simpa using hne)] at hobject
      exact hbuffer other (List.mem_cons_of_mem _ hother) object hobject

/-- What is left has its buffers. -/
theorem Released.owned {messages : List Nat} (h : Released memory memory' messages)
    (howned : memory.Owned) : memory'.Owned := by
  have hbefore : ∀ message object, memory'.messages message = some object →
      memory.messages message = some object ∧ message ∉ messages := by
    intro message object hobject
    have hmessage : message ∉ messages := by
      intro hmem
      rw [h.message_gone message hmem] at hobject
      exact absurd hobject (by simp)
    rw [h.message_kept message hmessage] at hobject
    exact ⟨hobject, hmessage⟩
  constructor
  · intro message object buffer hobject hbuffer
    obtain ⟨hobject, hmessage⟩ := hbefore message object hobject
    rw [h.buffer_kept buffer]
    · exact howned.buffer message object buffer hobject hbuffer
    · -- A released message with this buffer would be the same message.
      intro other hother object' hobject' hbuffer'
      obtain rfl := howned.unshared other message object' object buffer hobject' hobject
        hbuffer' hbuffer
      exact hmessage hother
  · intro message message' object object' buffer hobject hobject'
    exact howned.unshared message message' object object' buffer (hbefore _ _ hobject).1
      (hbefore _ _ hobject').1

theorem released_of_object (hobject : memory.messages message = some object)
    {buffers : Nat → Option (List UInt8)}
    (hgone : ∀ buffer, object.data = some buffer → buffers buffer = none)
    (hkept : ∀ buffer, object.data ≠ some buffer → buffers buffer = memory.buffers buffer) :
    Released memory
      { memory with
        messages := Function.update memory.messages message none
        buffers := buffers } [message] where
  message_gone := by
    intro other hother
    rw [List.mem_singleton.mp hother]
    exact Function.update_self _ _ _
  message_kept := by
    intro other hother
    rw [List.mem_singleton] at hother
    exact Function.update_of_ne hother _ _
  buffer_gone := by
    intro other hother object' buffer hobject' hbuffer
    rw [List.mem_singleton.mp hother, hobject] at hobject'
    obtain rfl := Option.some.inj hobject'
    exact hgone buffer hbuffer
  buffer_kept := by
    intro buffer hbuffer
    exact hkept buffer (hbuffer message List.mem_cons_self object hobject)

/-- **`free_recv_data_t`** releases a message that is allocated, and leaves the list alone. -/
theorem exists_freeRecvDataT (howned : memory.Owned)
    (hobject : memory.messages message = some object) :
    ∃ memory', memory.freeRecvDataT (some message) = some memory' ∧
      memory'.list = memory.list ∧ Released memory memory' [message] := by
  cases hdata : object.data with
  | none =>
      refine ⟨{ memory with messages := Function.update memory.messages message none }, ?_, rfl,
        released_of_object hobject ?_ fun _ _ => rfl⟩
      · simp only [freeRecvDataT, hobject, hdata, freeMessage, Option.bind_eq_bind,
          Option.bind_some, Option.map_some]
      · intro buffer hbuffer
        rw [hdata] at hbuffer
        exact absurd hbuffer (by simp)
  | some buffer =>
      obtain ⟨bytes, hbytes⟩ := Option.isSome_iff_exists.mp
        (howned.buffer message object buffer hobject hdata)
      refine ⟨{ memory with
        messages := Function.update memory.messages message none
        buffers := Function.update memory.buffers buffer none }, ?_, rfl,
        released_of_object hobject ?_ ?_⟩
      · simp only [freeRecvDataT, hobject, hdata, freeMessage, freeBuffer, hbytes,
          Option.bind_eq_bind, Option.bind_some, Option.map_some]
      · intro other hother
        rw [hdata] at hother
        rw [Option.some.inj hother, Function.update_self]
      · intro other hother
        rw [hdata] at hother
        exact Function.update_of_ne (fun hsame => hother (congrArg some hsame.symm)) _ _

/-! ## The list -/

/-- The list holds these nodes with these messages. -/
def Holds (memory : RecvDataMemory) (queue : List (Nat × Nat)) : Prop :=
  memory.list.Represents (queue.map fun entry => (entry.1, some entry.2))

variable {queue : List (Nat × Nat)} {node : Nat}

/-- `recv_data_list_init` makes the list empty. -/
theorem recvDataListInit_zeroed : recvDataListInit zeroedList = some (.empty none) := by
  show some _ = some _
  congr 1
  ext p : 2
  cases p with
  | null => rfl
  | sentinel => rfl
  | node address => rfl

theorem holds_initialized : initialized.Holds [] := by
  have hlist : initialized.list = .empty none := Option.get_of_eq_some rfl recvDataListInit_zeroed
  rw [Holds, hlist]
  exact LinkedHeap.represents_empty none

theorem next_sentinel_nil (h : memory.Holds []) : memory.list.next .sentinel = some .sentinel :=
  (List.isChain_pair.mp h.chain).1

theorem next_sentinel_cons (h : memory.Holds ((node, message) :: queue)) :
    memory.list.next .sentinel = some (.node node) := h.linked_first.1

theorem payload_first (h : memory.Holds ((node, message) :: queue)) :
    memory.list.payload (.node node) = some (some message) :=
  h.payload_eq (node, some message) List.mem_cons_self

/-- Unlinking and freeing the first node leaves the rest. -/
theorem exists_removeNode (h : memory.Holds ((node, message) :: queue)) :
    ∃ list, memory.removeNode (.node node) = some { memory with list := list } ∧
      list.Represents (queue.map fun entry => (entry.1, some entry.2)) := by
  obtain ⟨list₁, list, hunlink, hfree, hlist⟩ := h.unlink_free
  refine ⟨list, ?_, hlist⟩
  simp only [removeNode, hunlink, hfree, Option.bind_eq_bind, Option.bind_some]

theorem recvDataListReturnData_nil (h : memory.Holds []) :
    memory.recvDataListReturnData = some (none, memory) := by
  simp only [recvDataListReturnData, next_sentinel_nil h, Option.bind_eq_bind, Option.bind_some,
    if_true]

theorem exists_recvDataListReturnData (h : memory.Holds ((node, message) :: queue)) :
    ∃ list, memory.recvDataListReturnData = some (some message, { memory with list := list }) ∧
      list.Represents (queue.map fun entry => (entry.1, some entry.2)) := by
  obtain ⟨list, hremove, hlist⟩ := exists_removeNode h
  refine ⟨list, ?_, hlist⟩
  simp only [recvDataListReturnData, next_sentinel_cons h, payload_first h, hremove,
    Option.bind_eq_bind, Option.bind_some, reduceCtorEq, if_false]

/-- **The loop of `recv_data_list_deinit`** ends, and releases every message that is left. -/
theorem exists_recvDataListDeinitLoop (h : memory.Holds queue) (howned : memory.Owned)
    (hmessages : ∀ entry ∈ queue, ∃ object, memory.messages entry.2 = some object)
    (hnodup : (queue.map Prod.snd).Nodup) :
    ∃ memory', (∀ fuel, queue.length < fuel →
        recvDataListDeinitLoop fuel memory = some (memory', queue.map Prod.snd)) ∧
      memory'.Holds [] ∧ Released memory memory' (queue.map Prod.snd) := by
  induction queue generalizing memory with
  | nil =>
      refine ⟨memory, ?_, h, .refl memory⟩
      intro fuel hfuel
      obtain ⟨fuel, rfl⟩ := Nat.exists_eq_succ_of_ne_zero (Nat.ne_of_gt hfuel)
      simp only [recvDataListDeinitLoop, next_sentinel_nil h, Option.bind_eq_bind,
        Option.bind_some, if_true, List.map_nil]
  | cons entry queue ih =>
      obtain ⟨node, message⟩ := entry
      obtain ⟨object, hobject⟩ := hmessages _ List.mem_cons_self
      obtain ⟨freed, hfree, hlist, hreleased⟩ := exists_freeRecvDataT howned hobject
      have hholds : freed.Holds ((node, message) :: queue) := by
        rw [Holds, hlist]
        exact h
      obtain ⟨list, hremove, hrest⟩ := exists_removeNode hholds
      obtain ⟨hmessage, hnodup'⟩ := List.nodup_cons.mp hnodup
      have hreleased' : Released memory { freed with list := list } [message] :=
        ⟨hreleased.message_gone, hreleased.message_kept, hreleased.buffer_gone,
          hreleased.buffer_kept⟩
      have hleft : ∀ entry ∈ queue, ∃ object, freed.messages entry.2 = some object := by
        intro entry hentry
        obtain ⟨object', hobject'⟩ := hmessages entry (List.mem_cons_of_mem _ hentry)
        refine ⟨object', ?_⟩
        rw [hreleased.message_kept]
        · exact hobject'
        · rw [List.mem_singleton]
          rintro rfl
          exact hmessage (List.mem_map.mpr ⟨entry, hentry, rfl⟩)
      obtain ⟨memory', hloop, hempty, hlater⟩ :=
        @ih { freed with list := list } hrest (hreleased'.owned howned) hleft hnodup'
      refine ⟨memory', ?_, hempty, hreleased'.cons hlater hmessage⟩
      intro fuel hfuel
      obtain ⟨fuel, rfl⟩ := Nat.exists_eq_succ_of_ne_zero (Nat.ne_of_gt (Nat.zero_lt_of_lt hfuel))
      have hfuel' : queue.length < fuel := Nat.lt_of_succ_lt_succ hfuel
      simp only [recvDataListDeinitLoop, next_sentinel_cons h, payload_first h, hfree, hremove,
        hloop fuel hfuel', Option.bind_eq_bind, Option.bind_some, reduceCtorEq, if_false,
        Option.toList_some, List.map_cons, List.singleton_append]

end RecvDataMemory

/-! ## Sequences of calls -/

/-- The memory, the nodes added so far with their messages, the messages returned and those
released by `recv_data_list_deinit`, and whether that was called. -/
structure RecvListLog where
  memory : RecvDataMemory
  added : List (Nat × Nat)
  returned : List Nat
  released : List Nat
  closed : Bool

/-- A call.  `add` comes with what was allocated for it: the node, and a message with a
buffer or without. -/
inductive RecvListEvent
  | add (node message : Nat) (length : Int) (data : Option (Nat × List UInt8))
  | returnData
  | deinit

namespace RecvListLog

/-- After `recv_data_list_init`. -/
def initial : RecvListLog where
  memory := .initialized
  added := []
  returned := []
  released := []
  closed := false

/-- The nodes whose message was neither returned nor released. -/
def queue (s : RecvListLog) : List (Nat × Nat) :=
  s.added.drop (s.returned.length + s.released.length)

/-- The memory after the allocations for a call of `add`. -/
def allocate (memory : RecvDataMemory) (node message : Nat) (length : Int)
    (data : Option (Nat × List UInt8)) : RecvDataMemory where
  list := memory.list.alloc node (some message)
  messages := Function.update memory.messages message (some ⟨length, data.map Prod.fst⟩)
  buffers :=
    match data with
    | none => memory.buffers
    | some (buffer, bytes) => Function.update memory.buffers buffer (some bytes)

theorem list_allocate (memory : RecvDataMemory) (node message : Nat) (length : Int)
    (data : Option (Nat × List UInt8)) :
    (allocate memory node message length data).list =
      memory.list.alloc node (some message) := rfl

theorem messages_allocate (memory : RecvDataMemory) (node message : Nat) (length : Int)
    (data : Option (Nat × List UInt8)) :
    (allocate memory node message length data).messages =
      Function.update memory.messages message (some ⟨length, data.map Prod.fst⟩) := rfl

def exec (s : RecvListLog) : RecvListEvent → Option (RecvListLog × Option Nat)
  | .add node message length data =>
      ((allocate s.memory node message length data).recvDataListAdd node).map fun memory =>
        ({ s with memory := memory, added := s.added ++ [(node, message)] }, none)
  | .returnData =>
      s.memory.recvDataListReturnData.map fun (data, memory) =>
        ({ s with memory := memory, returned := s.returned ++ data.toList }, data)
  | .deinit =>
      (RecvDataMemory.recvDataListDeinitLoop (s.added.length + 1) s.memory).map
        fun (memory, released) =>
          ({ s with memory := memory, released := released, closed := true }, none)

end RecvListLog

/-- Calls of `add` with a fresh node, message and buffer, and of `return_data`; `deinit` comes
last.  The output is the pointer returned. -/
def recvListMachine : Machine RecvListLog RecvListEvent (Option Nat) where
  init := .initial
  enabled s event :=
    s.closed = false ∧
      match event with
      | .add node message _ data =>
          ¬ s.memory.list.Live (.node node) ∧ s.memory.messages message = none ∧
            ∀ entry ∈ data, s.memory.buffers entry.1 = none
      | _ => True
  exec := RecvListLog.exec

instance (s : RecvListLog) : (event : RecvListEvent) →
    Decidable (recvListMachine.enabled s event)
  | .add _ message _ data =>
      have : ∀ {α : Type} (x : Option α), Decidable (x = none) := fun x =>
        decidable_of_iff (x.isNone = true) Option.isNone_iff_eq_none
      inferInstanceAs (Decidable (_ = false ∧ ¬ _ = true ∧ s.memory.messages message = none ∧
        ∀ entry ∈ data, s.memory.buffers entry.1 = none))
  | .returnData => inferInstanceAs (Decidable (_ = false ∧ True))
  | .deinit => inferInstanceAs (Decidable (_ = false ∧ True))

namespace RecvListLog

/-- The list on the heap is the queue. -/
structure IsQueue (s : RecvListLog) : Prop where
  /-- Following `next` from the head visits the nodes in the order they were added, and
  returns to the head. -/
  walk_next : LinkedHeap.walk s.memory.list.next (s.queue.length + 1) .sentinel =
    some ((s.queue.map fun entry => .node entry.1) ++ [.sentinel])
  prev_iff : ∀ p q, s.memory.list.prev q = some p ↔ s.memory.list.next p = some q
  /-- Nothing that was freed is in the list, and nothing else is allocated. -/
  live_iff : ∀ p, s.memory.list.Live p ↔
    p = .sentinel ∨ ∃ entry ∈ s.queue, p = .node entry.1
  payload_eq : ∀ entry ∈ s.queue, s.memory.list.payload (.node entry.1) = some (some entry.2)
  /-- Every message was returned, was released, or is in the list, in order. -/
  conserved : s.returned ++ s.released ++ s.queue.map Prod.snd = s.added.map Prod.snd

/-- No call uses or frees what is not allocated, and `deinit` ends after a round for each
node. -/
structure Safe (s : RecvListLog) : Prop where
  defined : ∀ event, recvListMachine.enabled s event → (s.exec event).isSome = true
  terminates : s.closed = false → ∃ result, ∀ fuel, s.queue.length < fuel →
    RecvDataMemory.recvDataListDeinitLoop fuel s.memory = some result

end RecvListLog

/-- What a call does to the queue: `add` and `return_data` do what they do to a sequence, and
`deinit` releases each message that is left once, in order. -/
def QueueStep (t : Transition RecvListLog RecvListEvent (Option Nat)) : Prop :=
  match t.event with
  | .add node message _ _ => t.post.queue = recvDataListAdd t.pre.queue (node, message)
  | .returnData =>
      (t.output, t.post.queue.map Prod.snd) =
        recvDataListReturnData (t.pre.queue.map Prod.snd)
  | .deinit =>
      t.post.queue = [] ∧ t.post.released = t.pre.queue.map Prod.snd ∧
        (t.pre.queue.map Prod.snd).Nodup ∧
        t.pre.memory.Released t.post.memory (t.pre.queue.map Prod.snd)

namespace RecvListLog

/-- What the calls keep. -/
structure Inv (s : RecvListLog) : Prop where
  holds : s.memory.Holds s.queue
  owned : s.memory.Owned
  messages : ∀ entry ∈ s.queue, ∃ object, s.memory.messages entry.2 = some object
  nodup : (s.queue.map Prod.snd).Nodup
  conserved : s.returned ++ s.released ++ s.queue.map Prod.snd = s.added.map Prod.snd
  released_eq : s.closed = false → s.released = []

variable {s : RecvListLog}

theorem inv_initial : initial.Inv where
  holds := RecvDataMemory.holds_initialized
  owned := ⟨by simp [initial, RecvDataMemory.initialized],
    by simp [initial, RecvDataMemory.initialized]⟩
  messages := by simp [initial, queue]
  nodup := List.nodup_nil
  conserved := rfl
  released_eq := fun _ => rfl

theorem Inv.isQueue (h : s.Inv) : s.IsQueue where
  walk_next := by
    have hwalk := h.holds.walk_next
    rw [List.length_map, List.map_map] at hwalk
    exact hwalk
  prev_iff := fun p q => h.holds.next_iff_prev.symm
  live_iff := by
    intro p
    rw [h.holds.live_iff_mem]
    simp
  payload_eq := by
    intro entry hentry
    exact h.holds.payload_eq (entry.1, some entry.2) (List.mem_map.mpr ⟨entry, hentry, rfl⟩)
  conserved := h.conserved

theorem Inv.length_eq (h : s.Inv) :
    s.returned.length + s.released.length + s.queue.length = s.added.length := by
  have hlength := congrArg List.length h.conserved
  rw [List.length_append, List.length_append, List.length_map, List.length_map] at hlength
  exact hlength

section Add

variable {node message : Nat} {length : Int} {data : Option (Nat × List UInt8)}

theorem isSome_buffers_allocate {buffer : Nat} (h : (s.memory.buffers buffer).isSome = true) :
    ((allocate s.memory node message length data).buffers buffer).isSome = true := by
  cases data with
  | none => exact h
  | some entry =>
      show (Function.update s.memory.buffers entry.1 (some entry.2) buffer).isSome = true
      by_cases hsame : buffer = entry.1
      · rw [hsame, Function.update_self]
        rfl
      · rw [Function.update_of_ne hsame]
        exact h

/-- A fresh message with a fresh buffer shares it with nobody. -/
theorem owned_allocate (howned : s.memory.Owned)
    (hdata : ∀ entry ∈ data, s.memory.buffers entry.1 = none) :
    (allocate s.memory node message length data).Owned := by
  have hold : ∀ other object, (allocate s.memory node message length data).messages other =
      some object → other ≠ message → s.memory.messages other = some object := by
    intro other object hobject hne
    rwa [messages_allocate, Function.update_of_ne hne] at hobject
  have hnew : ∀ object, (allocate s.memory node message length data).messages message =
      some object → object.data = data.map Prod.fst := by
    intro object hobject
    rw [messages_allocate, Function.update_self] at hobject
    rw [← Option.some.inj hobject]
  -- The buffer of an older message was allocated before, so it is not the fresh one.
  have hapart : ∀ other object buffer, s.memory.messages other = some object →
      object.data = some buffer → data.map Prod.fst ≠ some buffer := by
    intro other object buffer hobject hbuffer hsame
    obtain ⟨entry, hentry, rfl⟩ := Option.map_eq_some_iff.mp hsame
    have hlive := howned.buffer other object entry.1 hobject hbuffer
    rw [hdata entry hentry] at hlive
    exact Bool.noConfusion hlive
  constructor
  · intro other object buffer hobject hbuffer
    by_cases hsame : other = message
    · subst hsame
      rw [hnew object hobject] at hbuffer
      obtain ⟨entry, rfl, rfl⟩ := Option.map_eq_some_iff.mp hbuffer
      show (Function.update s.memory.buffers entry.1 (some entry.2) entry.1).isSome = true
      rw [Function.update_self]
      rfl
    · exact isSome_buffers_allocate
        (howned.buffer other object buffer (hold other object hobject hsame) hbuffer)
  · intro other other' object object' buffer hobject hobject' hbuffer hbuffer'
    by_cases hsame : other = message
    · by_cases hsame' : other' = message
      · rw [hsame, hsame']
      · subst hsame
        rw [hnew object hobject] at hbuffer
        exact absurd hbuffer
          (hapart other' object' buffer (hold other' object' hobject' hsame') hbuffer')
    · by_cases hsame' : other' = message
      · subst hsame'
        rw [hnew object' hobject'] at hbuffer'
        exact absurd hbuffer'
          (hapart other object buffer (hold other object hobject hsame) hbuffer)
      · exact howned.unshared other other' object object' buffer
          (hold other object hobject hsame) (hold other' object' hobject' hsame') hbuffer hbuffer'

/-- **`recv_data_list_add`** with a fresh node. -/
theorem Inv.add (h : s.Inv) (hnode : ¬ s.memory.list.Live (.node node))
    (hmessage : s.memory.messages message = none)
    (hdata : ∀ entry ∈ data, s.memory.buffers entry.1 = none) :
    ∃ post, s.exec (.add node message length data) = some (post, none) ∧ post.Inv ∧
      post.queue = recvDataListAdd s.queue (node, message) := by
  obtain ⟨list, hinsert, hlist⟩ := h.holds.alloc_insertLast hnode (some message)
  have hcount := h.length_eq
  have hqueue : (s.added ++ [(node, message)]).drop
      (s.returned.length + s.released.length) = s.queue ++ [(node, message)] :=
    List.drop_append_of_le_length (by omega)
  refine ⟨{ s with
    memory := { allocate s.memory node message length data with list := list }
    added := s.added ++ [(node, message)] }, ?_, ?_, hqueue⟩
  · rw [exec, RecvDataMemory.recvDataListAdd, list_allocate, hinsert]
    rfl
  · have howned : (allocate s.memory node message length data).Owned :=
      owned_allocate h.owned hdata
    have hnotMem : message ∉ s.queue.map Prod.snd := by
      intro hmem
      obtain ⟨entry, hentry, rfl⟩ := List.mem_map.mp hmem
      obtain ⟨object, hobject⟩ := h.messages entry hentry
      rw [hmessage] at hobject
      exact absurd hobject (by simp)
    refine ⟨?_, ⟨howned.buffer, howned.unshared⟩, ?_, ?_, ?_, h.released_eq⟩
    · rw [queue, hqueue, RecvDataMemory.Holds, List.map_append]
      exact hlist
    · intro entry hentry
      rw [queue, hqueue] at hentry
      rcases List.mem_append.mp hentry with hold | hlast
      · obtain ⟨object, hobject⟩ := h.messages entry hold
        have hne : entry.2 ≠ message := by
          rintro rfl
          exact hnotMem (List.mem_map.mpr ⟨entry, hold, rfl⟩)
        exact ⟨object, (Function.update_of_ne hne _ _).trans hobject⟩
      · obtain rfl := List.mem_singleton.mp hlast
        exact ⟨_, Function.update_self _ _ _⟩
    · rw [queue, hqueue, List.map_append]
      exact h.nodup.append (List.nodup_singleton _) (List.disjoint_singleton.mpr hnotMem)
    · show s.returned ++ s.released ++ ((s.added ++ [(node, message)]).drop _).map Prod.snd =
        (s.added ++ [(node, message)]).map Prod.snd
      rw [hqueue, List.map_append, List.map_append, ← h.conserved, List.append_assoc,
        List.append_assoc, List.append_assoc]

end Add

/-- **`recv_data_list_return_data`**. -/
theorem Inv.returnData (h : s.Inv) (hopen : s.closed = false) :
    ∃ post output, s.exec .returnData = some (post, output) ∧ post.Inv ∧
      (output, post.queue.map Prod.snd) = recvDataListReturnData (s.queue.map Prod.snd) := by
  cases hqueue : s.queue with
  | nil =>
      have hholds := h.holds
      rw [hqueue] at hholds
      refine ⟨{ s with returned := s.returned ++ [] }, none, ?_, ?_, ?_⟩
      · rw [exec, RecvDataMemory.recvDataListReturnData_nil hholds]
        rfl
      · rw [List.append_nil]
        exact h
      · rw [List.append_nil]
        show (none, s.queue.map Prod.snd) = _
        rw [hqueue]
        rfl
  | cons entry rest =>
      obtain ⟨node, message⟩ := entry
      have hholds := h.holds
      rw [hqueue] at hholds
      obtain ⟨list, hreturn, hlist⟩ := RecvDataMemory.exists_recvDataListReturnData hholds
      have hrest : s.added.drop ((s.returned ++ [message]).length + s.released.length) = rest := by
        have htail := congrArg List.tail hqueue
        rw [queue, List.tail_drop, List.tail_cons] at htail
        rw [List.length_append, List.length_singleton, ← htail]
        congr 1
        omega
      refine ⟨{ s with
        memory := { s.memory with list := list }
        returned := s.returned ++ [message] }, some message, ?_, ?_, ?_⟩
      · rw [exec, hreturn]
        rfl
      · have hmessages := h.messages
        have hnodup := h.nodup
        have hconserved := h.conserved
        rw [hqueue] at hmessages hnodup hconserved
        refine ⟨?_, ⟨h.owned.buffer, h.owned.unshared⟩, ?_, ?_, ?_, h.released_eq⟩
        · rw [queue, hrest]
          exact hlist
        · intro entry hentry
          rw [queue, hrest] at hentry
          exact hmessages entry (List.mem_cons_of_mem _ hentry)
        · rw [queue, hrest]
          exact (List.nodup_cons.mp hnodup).2
        · show s.returned ++ [message] ++ s.released ++ (s.added.drop _).map Prod.snd = _
          rw [h.released_eq hopen, List.append_nil, List.map_cons] at hconserved
          rw [hrest, h.released_eq hopen, List.append_nil, List.append_assoc]
          exact hconserved
      · show (some message, (s.added.drop _).map Prod.snd) = _
        rw [hrest]
        rfl

/-- **`recv_data_list_deinit`**. -/
theorem Inv.deinit (h : s.Inv) (hopen : s.closed = false) :
    ∃ post, s.exec .deinit = some (post, none) ∧ post.Inv ∧ post.queue = [] ∧
      post.released = s.queue.map Prod.snd ∧
      s.memory.Released post.memory (s.queue.map Prod.snd) := by
  obtain ⟨memory, hloop, hempty, hreleased⟩ := RecvDataMemory.exists_recvDataListDeinitLoop
    h.holds h.owned h.messages h.nodup
  have hcount := h.length_eq
  have hnothing : s.released = [] := h.released_eq hopen
  have hdrop : s.added.drop (s.returned.length + (s.queue.map Prod.snd).length) = [] := by
    rw [hnothing, List.length_nil] at hcount
    rw [List.length_map]
    exact List.drop_eq_nil_of_le (by omega)
  have hqueue : RecvListLog.queue
      { s with memory := memory, released := s.queue.map Prod.snd, closed := true } = [] := hdrop
  refine ⟨_, ?_, ?_, hqueue, rfl, hreleased⟩
  · rw [exec, hloop (s.added.length + 1) (by omega)]
    rfl
  · refine ⟨?_, hreleased.owned h.owned, ?_, ?_, ?_, ?_⟩
    · rw [hqueue]
      exact hempty
    · intro entry hentry
      rw [hqueue] at hentry
      exact absurd hentry List.not_mem_nil
    · rw [hqueue]
      exact List.nodup_nil
    · have hconserved := h.conserved
      rw [hnothing, List.append_nil] at hconserved
      rw [hqueue, List.map_nil, List.append_nil]
      exact hconserved
    · intro hclosed
      exact Bool.noConfusion hclosed

theorem Inv.safe (h : s.Inv) : s.Safe where
  defined := by
    rintro event ⟨hopen, hfresh⟩
    cases event with
    | add node message length data =>
        obtain ⟨post, hexec, -⟩ := h.add hfresh.1 hfresh.2.1 hfresh.2.2
        rw [hexec]
        rfl
    | returnData =>
        obtain ⟨post, output, hexec, -⟩ := h.returnData hopen
        rw [hexec]
        rfl
    | deinit =>
        obtain ⟨post, hexec, -⟩ := h.deinit hopen
        rw [hexec]
        rfl
  terminates := by
    intro _
    obtain ⟨memory, hloop, -⟩ := RecvDataMemory.exists_recvDataListDeinitLoop
      h.holds h.owned h.messages h.nodup
    exact ⟨_, hloop⟩

/-- **One call.** -/
theorem Inv.step {t : Transition RecvListLog RecvListEvent (Option Nat)}
    (hstep : recvListMachine.Step t) (h : t.pre.Inv) : t.post.Inv ∧ QueueStep t := by
  obtain ⟨pre, event, output, post⟩ := t
  obtain ⟨⟨hopen, hfresh⟩, hexec⟩ := hstep
  dsimp only at h hopen hfresh hexec ⊢
  cases event with
  | add node message length data =>
      obtain ⟨post', hexec', hinv, hqueue⟩ := h.add hfresh.1 hfresh.2.1 hfresh.2.2
      obtain ⟨rfl, -⟩ := Prod.mk.inj (Option.some.inj (hexec'.symm.trans hexec))
      exact ⟨hinv, hqueue⟩
  | returnData =>
      obtain ⟨post', output', hexec', hinv, hqueue⟩ := h.returnData hopen
      obtain ⟨rfl, rfl⟩ := Prod.mk.inj (Option.some.inj (hexec'.symm.trans hexec))
      exact ⟨hinv, hqueue⟩
  | deinit =>
      obtain ⟨post', hexec', hinv, hqueue, hreleased, hmemory⟩ := h.deinit hopen
      obtain ⟨rfl, -⟩ := Prod.mk.inj (Option.some.inj (hexec'.symm.trans hexec))
      exact ⟨hinv, hqueue, hreleased, h.nodup, hmemory⟩

end RecvListLog

/-- **The list of received messages refines a queue.**  In every state of a sequence of calls
the list on the heap is the queue of the messages added and not returned yet, no call uses
anything that is not allocated, and every call does to the list what it does to the queue. -/
theorem recv_data_list_refines_queue
    {trace : List (Transition RecvListLog RecvListEvent (Option Nat))} {s : RecvListLog}
    (hrun : recvListMachine.Run trace s) :
    (∀ σ ∈ recvListMachine.visited trace, σ.IsQueue ∧ σ.Safe) ∧ ∀ t ∈ trace, QueueStep t := by
  have hinv : ∀ σ, recvListMachine.Reachable σ → σ.Inv := by
    intro σ hreach
    exact hreach.invariant RecvListLog.Inv RecvListLog.inv_initial
      (fun _ hstep hpre => (RecvListLog.Inv.step hstep hpre).1)
  constructor
  · intro σ hσ
    have h := hinv σ (hrun.reachable_of_visited σ hσ)
    exact ⟨h.isQueue, h.safe⟩
  · intro t ht
    obtain ⟨hstep, hreach⟩ := hrun.step_of_mem t ht
    exact (RecvListLog.Inv.step hstep (hinv t.pre hreach)).2

/-- Two messages, of which one is returned; its node is used again for a third. -/
theorem recv_data_list_refines_queue_three :
    ∃ trace s, recvListMachine.Run trace s ∧
      trace.map Transition.event =
        [.add 7 1 2 (some (1, [0x68, 0x69])), .add 8 2 0 none, .returnData,
          .add 7 3 1 (some (2, [0x61])), .deinit] ∧
      s.returned = [1] ∧ s.released = [2, 3] ∧
      (∀ σ ∈ recvListMachine.visited trace, σ.IsQueue ∧ σ.Safe) ∧
      ∀ t ∈ trace, QueueStep t := by
  have hreplay : ∃ s, recvListMachine.replay
      (fun s event => decide (recvListMachine.enabled s event))
      [.add 7 1 2 (some (1, [0x68, 0x69])), .add 8 2 0 none, .returnData,
        .add 7 3 1 (some (2, [0x61])), .deinit] .initial = some s ∧
      s.returned = [1] ∧ s.released = [2, 3] := ⟨_, rfl, rfl, rfl⟩
  obtain ⟨s, hs, hreturned, hreleased⟩ := hreplay
  obtain ⟨trace, hrun, hevents, -⟩ :=
    Machine.Run.replay (fun _ _ => of_decide_eq_true) .start hs
  exact ⟨trace, s, hrun, hevents, hreturned, hreleased, recv_data_list_refines_queue hrun⟩

end Client
end StupidP2P
