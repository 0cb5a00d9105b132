import StupidP2P.Client.RecvMemory

/-!
# Keeping account of the memory of received messages

Every step keeps the account of `RecvMemory`: a message that is stored joins the list, a
round moves it to a call, the last round of a call hands the messages to the application or
drops them, and the application gives them back.  `Booked` says how the account goes on, in
particular which blocks are left without an owner; `Accounted.exec` is the step lemma.
-/

namespace StupidP2P
namespace Client

open Foundation

/-! ## One step -/

/-- The payload a step brings. -/
def RecvMemoryEvent.payloads : RecvMemoryEvent → List (List UInt8)
  | .frame payload _ _ _ => [payload]
  | _ => []

/-- The pointer array that a step leaves without an owner. -/
def RecvMemory.lostArrays (s : RecvMemory) : RecvMemoryEvent → List Nat
  | .free buf => ((s.bufs buf).bind RecvDataBuf.recvData).toList
  | _ => []

/-- The bytes of messages that a step leaves without an owner: the call ends, and there is
no memory for its array. -/
def RecvMemory.lostData (s : RecvMemory) : RecvMemoryEvent → List Nat
  | .round buf none =>
      if s.memory.list.next .sentinel = some .sentinel then
        ((s.calls buf).getD []).filterMap fun message =>
          (s.memory.messages message).bind RecvDataObject.data
      else []
  | _ => []

/-- How the account goes on in a step. -/
structure Booked (s : RecvMemory) (event : RecvMemoryEvent) (a a' : Account) : Prop where
  payloads : a'.payloads = a.payloads ++ event.payloads
  arrays : a'.lostArrays.map Prod.fst = a.lostArrays.map Prod.fst + (s.lostArrays event : List Nat)
  data : a'.lostData.map Prod.fst = a.lostData.map Prod.fst + (s.lostData event : List Nat)
  handed : ∀ c ∈ a.handed, event ≠ .free c.buf → c ∈ a'.handed

/-- The call has taken 1024 messages, and there is one more. -/
def RecvMemory.Overruns (s : RecvMemory) : RecvMemoryEvent → Prop
  | .round buf _ => ∃ dataBuf, s.calls buf = some dataBuf ∧ dataBuf.length = 1024 ∧
      s.memory.list.next .sentinel ≠ some .sentinel
  | _ => False

namespace RecvMemory

variable {s : RecvMemory} {a : Account}

theorem accounted_initial : initial.Accounted ⟨[], [], 0, 0, 0, 0⟩ where
  nodes := RecvDataMemory.holds_initialized
  messages := .empty
  buffers := .empty
  arrays := .empty
  bufs := .empty
  calls := .empty
  bounded := Nat.le_refl 0
  room := by simp
  closed := fun _ => ⟨rfl, rfl⟩
  order := ⟨List.Sublist.refl _, by simp, by simp⟩

/-- An allocation that is freed again. -/
theorem update_update_none {α : Type} {heap : Nat → Option α} {address : Nat}
    (hfresh : heap address = none) (x : α) :
    Function.update (Function.update heap address (some x)) address none = heap := by
  rw [Function.update_idem, ← hfresh, Function.update_eq_self]

/-- A message for which there is no memory leaves the blocks as they were. -/
theorem Accounted.ignored (h : s.Accounted a) (payload : List UInt8) :
    Accounted { s with frames := s.frames + 1 }
      { a with payloads := a.payloads ++ [payload] } where
  nodes := h.nodes
  messages := h.messages
  buffers := h.buffers
  arrays := h.arrays
  bufs := h.bufs
  calls := h.calls
  bounded := Nat.le_succ_of_le h.bounded
  room := h.room
  closed := h.closed
  order := by
    obtain ⟨hqueue, hfilling, hhanded⟩ := h.order
    have hmore : a.payloads.Sublist (a.payloads ++ [payload]) := List.sublist_append_left _ _
    exact ⟨hqueue.trans hmore, fun c hc => (hfilling c hc).trans hmore,
      fun c hc => (hhanded c hc).trans hmore⟩

theorem execSendData_ignored {memory : RecvDataMemory} {payload : List UInt8}
    {data recvData node : Option Nat} (hdata : ∀ b ∈ data, memory.buffers b = none)
    (hrecvData : ∀ b ∈ recvData, memory.messages b = none)
    (hfails : data = none ∨ recvData = none ∨ node = none) :
    memory.execSendData payload data recvData node = some memory := by
  cases data with
  | none => rfl
  | some data =>
      have hbuffers := update_update_none (hdata data rfl) payload
      cases recvData with
      | none =>
          simp only [RecvDataMemory.execSendData, RecvDataMemory.freeBuffer,
            Function.update_self, Option.map_some, hbuffers]
      | some recvData =>
          obtain rfl : node = none := by simpa using hfails
          have hmessages := update_update_none (hrecvData recvData rfl)
            (⟨payload.length, some data⟩ : RecvDataObject)
          simp only [RecvDataMemory.execSendData, RecvDataMemory.freeBuffer,
            RecvDataMemory.freeMessage, Function.update_self, Option.map_some, Option.bind_some,
            hbuffers, hmessages]

/-- A message that is stored goes to the end of the list. -/
theorem Accounted.stored (h : s.Accounted a) {payload : List UInt8} {data recvData node : Nat}
    (hopen : s.closed = false) (hdata : s.memory.buffers data = none)
    (hrecvData : s.memory.messages recvData = none)
    (hnode : ¬ s.memory.list.Live (.node node)) :
    ∃ s', s.exec (.frame payload (some data) (some recvData) (some node)) = some s' ∧
      s'.Accounted { a with
        payloads := a.payloads ++ [payload]
        queue := a.queue ++ [(node, ⟨recvData, data, payload⟩)] } := by
  obtain ⟨list, hinsert, hlist⟩ := h.nodes.alloc_insertLast hnode (some recvData)
  have hexec : s.exec (.frame payload (some data) (some recvData) (some node)) =
      some { s with
        memory :=
          { list := list
            messages := Function.update s.memory.messages recvData
              (some ⟨payload.length, some data⟩)
            buffers := Function.update s.memory.buffers data (some payload) }
        frames := s.frames + 1 } := by
    rw [exec, RecvDataMemory.execSendData]
    dsimp only
    rw [RecvDataMemory.recvDataListAdd, hinsert]
    rfl
  refine ⟨_, hexec, ?_⟩
  obtain ⟨hqueue, hfilling, hhanded⟩ := h.order
  have hmessages := a.messages_concat_queue (node, ⟨recvData, data, payload⟩)
  have hbytes : (a.queue ++ [(node, (⟨recvData, data, payload⟩ : Received))]).map
      (Received.bytes ∘ Prod.snd) = a.queue.map (Received.bytes ∘ Prod.snd) ++ [payload] := by
    rw [List.map_append]
    rfl
  constructor
  · rw [RecvDataMemory.Holds, List.map_append, List.map_append]
    exact hlist
  · show Exactly _ (Multiset.map Received.object
      (Account.messages { a with queue := a.queue ++ [(node, ⟨recvData, data, payload⟩)] }))
    rw [hmessages, Multiset.map_cons]
    exact h.messages.alloc hrecvData _
  · show Exactly _ (Multiset.map Received.block
      (Account.messages { a with queue := a.queue ++ [(node, ⟨recvData, data, payload⟩)] }) + _)
    rw [hmessages, Multiset.map_cons, Multiset.cons_add]
    exact h.buffers.alloc hdata payload
  · exact h.arrays
  · exact h.bufs
  · exact h.calls
  · rw [List.length_append, List.length_singleton]
    exact Nat.succ_le_succ h.bounded
  · exact h.room
  · intro hclosed
    exact absurd (hclosed.symm.trans hopen) Bool.noConfusion
  · dsimp only
    rw [hbytes]
    refine ⟨hqueue.append (List.Sublist.refl _), ?_, ?_⟩
    · intro c hc
      rw [← List.append_assoc]
      exact (hfilling c hc).append (List.Sublist.refl _)
    · intro c hc
      exact (hhanded c hc).trans (List.sublist_append_left _ _)

/-- **A data frame.** -/
theorem Accounted.frame (h : s.Accounted a) {payload : List UInt8}
    {data recvData node : Option Nat}
    (henabled : recvMemoryEnabled s (.frame payload data recvData node)) :
    ∃ s' a', s.exec (.frame payload data recvData node) = some s' ∧ s'.Accounted a' ∧
      Booked s (.frame payload data recvData node) a a' := by
  obtain ⟨hopen, hdata, hrecvData, hnode⟩ := henabled
  by_cases hfails : data = none ∨ recvData = none ∨ node = none
  · refine ⟨{ s with frames := s.frames + 1 }, { a with payloads := a.payloads ++ [payload] }, ?_,
      h.ignored payload, rfl, ?_, ?_, fun c hc _ => hc⟩
    · rw [exec, execSendData_ignored hdata hrecvData hfails]
      rfl
    · exact (Multiset.add_zero _).symm
    · exact (Multiset.add_zero _).symm
  · rw [not_or, not_or, ← ne_eq, ← ne_eq, ← ne_eq, Option.ne_none_iff_exists',
      Option.ne_none_iff_exists', Option.ne_none_iff_exists'] at hfails
    obtain ⟨⟨data, rfl⟩, ⟨recvData, rfl⟩, ⟨node, rfl⟩⟩ := hfails
    obtain ⟨s', hexec, haccounted⟩ := @Accounted.stored s a h payload data recvData node hopen
      (hdata data rfl) (hrecvData recvData rfl) (hnode node rfl)
    refine ⟨s', _, hexec, haccounted, rfl, ?_, ?_, fun c hc _ => hc⟩
    · exact (Multiset.add_zero _).symm
    · exact (Multiset.add_zero _).symm

theorem Accounted.calls_none (h : s.Accounted a) {buf : Nat} (hbuf : s.bufs buf = none) :
    s.calls buf = none := by
  rw [h.calls.eq_none_iff]
  intro hmem
  apply h.bufs.eq_none_iff.mp hbuf
  rw [Multiset.map_map] at hmem
  rw [Multiset.map_add, Multiset.mem_add, Multiset.map_map Prod.fst Filling.object]
  exact Or.inr hmem

/-- **A call** of `stupid_p2p_recv_data`. -/
theorem Accounted.call (h : s.Accounted a) {buf : Option Nat}
    (henabled : recvMemoryEnabled s (.call buf)) :
    ∃ s' a', s.exec (.call buf) = some s' ∧ s'.Accounted a' ∧ Booked s (.call buf) a a' := by
  obtain ⟨hopen, hfresh⟩ := henabled
  cases buf with
  | none =>
      refine ⟨s, a, rfl, h, ?_, ?_, ?_, fun c hc _ => hc⟩
      · exact (List.append_nil _).symm
      · exact (Multiset.add_zero _).symm
      · exact (Multiset.add_zero _).symm
  | some buf =>
      have hnone : s.bufs buf = none := hfresh buf rfl
      have hmessages : Account.messages { a with filling := ⟨buf, []⟩ ::ₘ a.filling } =
          a.messages := by
        rw [Account.messages_cons_filling rfl]
        exact Multiset.zero_add _
      obtain ⟨hqueue, hfilling, hhanded⟩ := h.order
      refine ⟨s.call (some buf), { a with filling := ⟨buf, []⟩ ::ₘ a.filling }, rfl, ?_, ?_⟩
      · constructor
        · exact h.nodes
        · rw [hmessages]
          exact h.messages
        · rw [hmessages]
          exact h.buffers
        · exact h.arrays
        · rw [Multiset.map_cons, Multiset.add_cons]
          exact h.bufs.alloc hnone _
        · rw [Multiset.map_cons]
          exact h.calls.alloc (h.calls_none hnone) _
        · exact h.bounded
        · intro c hc
          rcases Multiset.mem_cons.mp hc with rfl | hold
          · exact Nat.zero_le _
          · exact h.room c hold
        · intro hclosed
          exact absurd (hclosed.symm.trans hopen) Bool.noConfusion
        · refine ⟨hqueue, ?_, hhanded⟩
          intro c hc
          rcases Multiset.mem_cons.mp hc with rfl | hold
          · exact hqueue
          · exact hfilling c hold
      · refine ⟨?_, ?_, ?_, fun c hc _ => hc⟩
        · exact (List.append_nil _).symm
        · exact (Multiset.add_zero _).symm
        · exact (Multiset.add_zero _).symm

section Round

variable {buf : Nat} {messages : List Received} {others : Multiset Filling}

/-- The call under way that has a buffer. -/
theorem Accounted.exists_filling (h : s.Accounted a) {dataBuf : List Nat}
    (hcall : s.calls buf = some dataBuf) :
    ∃ messages others, a.filling = ⟨buf, messages⟩ ::ₘ others ∧
      dataBuf = messages.map Received.address := by
  obtain ⟨c, hc, heq⟩ := Multiset.mem_map.mp ((h.calls.get_iff buf dataBuf).mp hcall)
  obtain ⟨others, hothers⟩ := Multiset.exists_cons_of_mem hc
  obtain ⟨rfl, rfl⟩ := Prod.mk.inj heq
  exact ⟨c.messages, others, hothers, rfl⟩

/-- A round that takes a message: it changes hands, and no block changes. -/
theorem Accounted.takes (h : s.Accounted a) {node : Nat} {m : Received}
    {rest : List (Nat × Received)} (hfilling : a.filling = ⟨buf, messages⟩ ::ₘ others)
    (hqueue : a.queue = (node, m) :: rest) (hroom : messages.length < 1024)
    (array : Option Nat) :
    ∃ s', s.exec (.round buf array) = some s' ∧
      s'.Accounted { a with
        queue := rest
        filling := ⟨buf, messages ++ [m]⟩ ::ₘ others } := by
  have hnodes := h.nodes
  have hcalls := h.calls
  rw [hqueue] at hnodes
  rw [hfilling, Multiset.map_cons] at hcalls
  obtain ⟨list, hreturn, hlist⟩ := RecvDataMemory.exists_recvDataListReturnData hnodes
  have hexec : s.exec (.round buf array) = some { s with
      memory := { s.memory with list := list }
      calls := Function.update s.calls buf
        (some (messages.map Received.address ++ [m.address])) } := by
    rw [exec, round, hcalls.get_first, Option.bind_some, hreturn, Option.bind_some]
    dsimp only
    rw [if_neg (by rw [List.length_map, maxNum]; omega), if_pos (by rwa [List.length_map])]
  refine ⟨_, hexec, ?_⟩
  have hsame : Account.messages { a with
      queue := rest
      filling := ⟨buf, messages ++ [m]⟩ ::ₘ others } = a.messages := by
    rw [Account.messages_cons_filling rfl, Account.messages_cons_queue hqueue,
      @Account.messages_cons_filling { a with queue := rest } ⟨buf, messages⟩ others hfilling,
      ← Multiset.coe_add, Multiset.coe_singleton, Multiset.add_assoc, Multiset.singleton_add,
      Multiset.add_cons]
  obtain ⟨horder, hcallOrder, hhanded⟩ := h.order
  rw [hqueue] at horder hcallOrder
  constructor
  · exact hlist
  · rw [hsame]
    exact h.messages
  · rw [hsame]
    exact h.buffers
  · exact h.arrays
  · have hbufs := h.bufs
    rw [hfilling, Multiset.map_cons] at hbufs
    rw [Multiset.map_cons]
    exact hbufs
  · rw [Multiset.map_cons, Filling.dataBuf, List.map_append]
    exact hcalls.store _
  · have hbounded := h.bounded
    rw [hqueue, List.length_cons] at hbounded
    exact Nat.le_of_succ_le hbounded
  · intro c hc
    rcases Multiset.mem_cons.mp hc with rfl | hold
    · rw [List.length_append]
      exact hroom
    · exact h.room c (by rw [hfilling]; exact Multiset.mem_cons_of_mem hold)
  · intro hclosed
    obtain ⟨hnil, -⟩ := h.closed hclosed
    rw [hqueue] at hnil
    exact absurd hnil (List.cons_ne_nil _ _)
  · refine ⟨(List.sublist_cons_self _ _).trans horder, ?_, hhanded⟩
    intro c hc
    rcases Multiset.mem_cons.mp hc with rfl | hold
    · rw [List.map_append, List.append_assoc]
      exact hcallOrder ⟨buf, messages⟩ (by rw [hfilling]; exact Multiset.mem_cons_self _ _)
    · refine List.Sublist.trans ?_ (hcallOrder c (by
        rw [hfilling]
        exact Multiset.mem_cons_of_mem hold))
      exact (List.Sublist.refl _).append (List.sublist_cons_self _ _)

/-- The last round of a call with an array for the messages. -/
theorem Accounted.hands (h : s.Accounted a) {array : Nat}
    (hfilling : a.filling = ⟨buf, messages⟩ ::ₘ others) (hqueue : a.queue = [])
    (hfresh : s.arrays array = none) :
    ∃ s', s.exec (.round buf (some array)) = some s' ∧
      s'.Accounted { a with
        filling := others
        handed := ⟨buf, array, messages⟩ ::ₘ a.handed } := by
  have hnodes := h.nodes
  have hcalls := h.calls
  have hbufs := h.bufs
  rw [hqueue] at hnodes
  rw [hfilling, Multiset.map_cons] at hcalls
  rw [hfilling, Multiset.map_cons, Multiset.add_cons] at hbufs
  have hexec : s.exec (.round buf (some array)) = some { s with
      arrays := Function.update s.arrays array (some (messages.map Received.address))
      bufs := Function.update s.bufs buf (some ⟨messages.length, some array⟩)
      calls := Function.update s.calls buf none } := by
    rw [exec, round, hcalls.get_first, Option.bind_some,
      RecvDataMemory.recvDataListReturnData_nil hnodes, Option.bind_some]
    dsimp only
    rw [finish]
    dsimp only
    rw [hbufs.get_first, Option.map_some, List.length_map]
  refine ⟨_, hexec, ?_⟩
  have hsame : Account.messages { a with
      filling := others
      handed := ⟨buf, array, messages⟩ ::ₘ a.handed } = a.messages := by
    rw [Account.messages_cons_handed rfl, Account.messages_cons_filling hfilling]
  obtain ⟨horder, hcallOrder, hhanded⟩ := h.order
  constructor
  · exact h.nodes
  · rw [hsame]
    exact h.messages
  · rw [hsame]
    exact h.buffers
  · rw [Multiset.map_cons, Multiset.cons_add]
    exact h.arrays.alloc hfresh _
  · rw [Multiset.map_cons, Multiset.cons_add]
    exact hbufs.store _
  · exact hcalls.free
  · exact h.bounded
  · intro c hc
    exact h.room c (by rw [hfilling]; exact Multiset.mem_cons_of_mem hc)
  · intro hclosed
    obtain ⟨-, hnone⟩ := h.closed hclosed
    rw [hfilling] at hnone
    exact absurd hnone (Multiset.cons_ne_zero)
  · refine ⟨horder, ?_, ?_⟩
    · intro c hc
      exact hcallOrder c (by rw [hfilling]; exact Multiset.mem_cons_of_mem hc)
    · intro c hc
      rcases Multiset.mem_cons.mp hc with rfl | hold
      · have hcall := hcallOrder ⟨buf, messages⟩ (by
          rw [hfilling]
          exact Multiset.mem_cons_self _ _)
        exact (List.sublist_append_left _ _).trans hcall
      · exact hhanded c hold

/-- The last round of a call that gets no array: the messages are freed, their bytes are not. -/
theorem Accounted.drops (h : s.Accounted a)
    (hfilling : a.filling = ⟨buf, messages⟩ ::ₘ others) (hqueue : a.queue = []) :
    ∃ s', s.exec (.round buf none) = some s' ∧
      s'.Accounted { a with
        filling := others
        lostData := a.lostData + (messages : Multiset Received).map Received.block } := by
  have hnodes := h.nodes
  have hcalls := h.calls
  have hbufs := h.bufs
  have hobjects := h.messages
  have hblocks := h.buffers
  rw [hqueue] at hnodes
  rw [hfilling, Multiset.map_cons] at hcalls
  rw [hfilling, Multiset.map_cons, Multiset.add_cons] at hbufs
  rw [Account.messages_cons_filling hfilling, Multiset.map_add] at hobjects hblocks
  obtain ⟨memory, hfree, hlist, hbuffers, hleft⟩ := exists_freeMessages messages hobjects
  have hexec : s.exec (.round buf none) = some { s with
      memory := memory
      bufs := Function.update s.bufs buf none
      calls := Function.update s.calls buf none } := by
    rw [exec, round, hcalls.get_first, Option.bind_some,
      RecvDataMemory.recvDataListReturnData_nil hnodes, Option.bind_some]
    dsimp only
    rw [finish]
    dsimp only
    rw [freeBuf, hbufs.get_first, Option.map_some, Option.bind_some, hfree]
    rfl
  refine ⟨_, hexec, ?_⟩
  obtain ⟨horder, hcallOrder, hhanded⟩ := h.order
  constructor
  · rw [RecvDataMemory.Holds, hlist]
    exact h.nodes
  · exact hleft
  · have hsum : Multiset.map Received.block (Account.messages { a with filling := others }) +
        (a.lostData + Multiset.map Received.block ↑messages) =
        Multiset.map Received.block ↑messages +
          Multiset.map Received.block (Account.messages { a with filling := others }) +
          a.lostData := by
      abel
    show Exactly memory.buffers
      (Multiset.map Received.block (Account.messages { a with filling := others }) +
        (a.lostData + Multiset.map Received.block ↑messages))
    rw [hbuffers, hsum]
    exact hblocks
  · exact h.arrays
  · exact hbufs.free
  · exact hcalls.free
  · exact h.bounded
  · intro c hc
    exact h.room c (by rw [hfilling]; exact Multiset.mem_cons_of_mem hc)
  · intro hclosed
    obtain ⟨-, hnone⟩ := h.closed hclosed
    rw [hfilling] at hnone
    exact absurd hnone (Multiset.cons_ne_zero)
  · refine ⟨horder, ?_, hhanded⟩
    intro c hc
    exact hcallOrder c (by rw [hfilling]; exact Multiset.mem_cons_of_mem hc)

theorem Accounted.next_sentinel_iff (h : s.Accounted a) :
    s.memory.list.next .sentinel = some .sentinel ↔ a.queue = [] := by
  have hnodes := h.nodes
  cases hqueue : a.queue with
  | nil =>
      rw [hqueue] at hnodes
      exact iff_of_true (RecvDataMemory.next_sentinel_nil hnodes) rfl
  | cons entry rest =>
      rw [hqueue] at hnodes
      rw [RecvDataMemory.next_sentinel_cons hnodes]
      exact iff_of_false (by simp) (List.cons_ne_nil _ _)

theorem Accounted.lostData_eq (h : s.Accounted a)
    (hfilling : a.filling = ⟨buf, messages⟩ ::ₘ others) (hqueue : a.queue = []) :
    s.lostData (.round buf none) = messages.map Received.buffer := by
  have hcalls := h.calls
  rw [hfilling, Multiset.map_cons] at hcalls
  have hdata : ∀ m ∈ messages,
      (s.memory.messages m.address).bind RecvDataObject.data = some m.buffer := by
    intro m hm
    have hmem : m ∈ a.messages := by
      rw [Account.messages_cons_filling hfilling]
      exact Multiset.mem_add.mpr (Or.inl hm)
    rw [h.messages.get (Multiset.mem_map_of_mem Received.object hmem)]
    rfl
  rw [lostData, if_pos (h.next_sentinel_iff.mpr hqueue), hcalls.get_first, Option.getD_some,
    List.filterMap_map, ← List.filterMap_eq_map]
  exact List.filterMap_congr hdata

/-- **A round** of `stupid_p2p_recv_data`, if it does not write behind its array. -/
theorem Accounted.round (h : s.Accounted a) {array : Option Nat}
    (henabled : recvMemoryEnabled s (.round buf array))
    (hfits : ¬ s.Overruns (.round buf array)) :
    ∃ s' a', s.exec (.round buf array) = some s' ∧ s'.Accounted a' ∧
      Booked s (.round buf array) a a' := by
  obtain ⟨hbusy, hfresh⟩ := henabled
  obtain ⟨dataBuf, hcall⟩ := Option.ne_none_iff_exists'.mp hbusy
  obtain ⟨messages, others, hfilling, rfl⟩ := h.exists_filling hcall
  cases hqueue : a.queue with
  | nil =>
      cases array with
      | none =>
          obtain ⟨s', hexec, haccounted⟩ := h.drops hfilling hqueue
          refine ⟨s', _, hexec, haccounted, (List.append_nil _).symm, ?_, ?_, fun c hc _ => hc⟩
          · exact (Multiset.add_zero _).symm
          · rw [h.lostData_eq hfilling hqueue, Multiset.map_add, Multiset.map_map,
              Multiset.map_coe]
            rfl
      | some array =>
          obtain ⟨s', hexec, haccounted⟩ := h.hands hfilling hqueue (hfresh array rfl)
          refine ⟨s', _, hexec, haccounted, (List.append_nil _).symm, ?_, ?_, ?_⟩
          · exact (Multiset.add_zero _).symm
          · exact (Multiset.add_zero _).symm
          · intro c hc _
            exact Multiset.mem_cons_of_mem hc
  | cons entry rest =>
      have hne : s.memory.list.next .sentinel ≠ some .sentinel := by
        rw [Ne, h.next_sentinel_iff, hqueue]
        exact List.cons_ne_nil _ _
      have hroom : messages.length < 1024 := by
        have hle := h.room ⟨buf, messages⟩ (by rw [hfilling]; exact Multiset.mem_cons_self _ _)
        apply Nat.lt_of_le_of_ne hle
        intro hfull
        exact hfits ⟨_, hcall, by rw [List.length_map]; exact hfull, hne⟩
      obtain ⟨s', hexec, haccounted⟩ := h.takes hfilling hqueue hroom array
      refine ⟨s', _, hexec, haccounted, (List.append_nil _).symm, ?_, ?_, fun c hc _ => hc⟩
      · exact (Multiset.add_zero _).symm
      · have hnothing : s.lostData (.round buf array) = [] := by
          cases array with
          | none => exact if_neg hne
          | some array => rfl
        rw [hnothing]
        exact (Multiset.add_zero _).symm

/-- The write behind the array. -/
theorem Accounted.overruns (h : s.Accounted a) {event : RecvMemoryEvent}
    (hover : s.Overruns event) : s.exec event = none := by
  cases event with
  | round buf array =>
      obtain ⟨dataBuf, hcall, hfull, hne⟩ := hover
      have hnodes := h.nodes
      cases hqueue : a.queue with
      | nil => exact absurd (h.next_sentinel_iff.mpr hqueue) hne
      | cons entry rest =>
          rw [hqueue] at hnodes
          obtain ⟨list, hreturn, -⟩ := RecvDataMemory.exists_recvDataListReturnData hnodes
          rw [exec, RecvMemory.round, hcall, Option.bind_some, hreturn, Option.bind_some]
          dsimp only
          rw [if_neg (by rw [maxNum]; omega), if_neg (by omega)]
  | frame | call | free | deinit => exact hover.elim

end Round

/-- The buffer an application has. -/
theorem Accounted.exists_handed (h : s.Accounted a) {buf : Nat} (hbuf : s.bufs buf ≠ none)
    (hidle : s.calls buf = none) :
    ∃ array messages others, a.handed = ⟨buf, array, messages⟩ ::ₘ others := by
  obtain ⟨object, hobject⟩ := Option.ne_none_iff_exists'.mp hbuf
  have hmem := (h.bufs.get_iff buf object).mp hobject
  rcases Multiset.mem_add.mp hmem with hhanded | hfilling
  · obtain ⟨c, hc, heq⟩ := Multiset.mem_map.mp hhanded
    obtain ⟨others, hothers⟩ := Multiset.exists_cons_of_mem hc
    obtain ⟨rfl, -⟩ := Prod.mk.inj heq
    exact ⟨c.array, c.messages, others, hothers⟩
  · obtain ⟨c, hc, heq⟩ := Multiset.mem_map.mp hfilling
    obtain ⟨rfl, -⟩ := Prod.mk.inj heq
    have hcall := h.calls.get (Multiset.mem_map_of_mem Filling.dataBuf hc)
    rw [hidle] at hcall
    exact absurd hcall (by simp)

section Handed

variable {buf array : Nat} {messages : List Received} {others : Multiset Handed}

/-- What the fields of a buffer lead to. -/
theorem Accounted.entry_eq (h : s.Accounted a)
    (hhanded : a.handed = ⟨buf, array, messages⟩ ::ₘ others) :
    s.bufs buf = some ⟨messages.length, some array⟩ ∧
      ∀ i, s.entry ⟨messages.length, some array⟩ i = (messages.map Received.address)[i]? := by
  have hbufs := h.bufs
  have harrays := h.arrays
  rw [hhanded, Multiset.map_cons, Multiset.cons_add] at hbufs harrays
  refine ⟨hbufs.get_first, ?_⟩
  intro i
  rw [entry, Option.bind_some, harrays.get_first, Option.bind_some]

/-- **`stupid_p2p_free_recv_data_buf`** frees the messages and the buffer, and leaves the
array. -/
theorem Accounted.freed (h : s.Accounted a)
    (hhanded : a.handed = ⟨buf, array, messages⟩ ::ₘ others) :
    ∃ s', s.exec (.free buf) = some s' ∧
      s'.Accounted { a with
        handed := others
        lostArrays := (array, messages.map Received.address) ::ₘ a.lostArrays } := by
  obtain ⟨hobject, hentry⟩ := h.entry_eq hhanded
  have hbufs := h.bufs
  have harrays := h.arrays
  have hobjects := h.messages
  have hblocks := h.buffers
  rw [hhanded, Multiset.map_cons, Multiset.cons_add] at hbufs harrays
  rw [Account.messages_cons_handed hhanded, Multiset.map_add] at hobjects hblocks
  rw [Multiset.add_assoc] at hblocks
  obtain ⟨memory, hfree, hlist, hleft, hkept⟩ := exists_freeEntries messages hobjects hblocks
  have hloop : (List.range messages.length).foldlM
      (fun memory i => (s.entry ⟨messages.length, some array⟩ i).bind (freeEntry memory))
      s.memory = some memory := by
    have hrange := foldlM_range_getElem (messages.map Received.address) freeEntry s.memory
    rw [List.length_map, hfree] at hrange
    simp only [hentry]
    exact hrange
  have hexec : s.exec (.free buf) =
      some { s with memory := memory, bufs := Function.update s.bufs buf none } := by
    rw [exec, freeRecvDataBuf, hobject, Option.bind_some, hloop, Option.bind_some, freeBuf]
    dsimp only
    rw [hobject, Option.map_some]
  refine ⟨_, hexec, ?_⟩
  obtain ⟨horder, hcallOrder, hhandedOrder⟩ := h.order
  constructor
  · rw [RecvDataMemory.Holds, hlist]
    exact h.nodes
  · exact hleft
  · exact hkept
  · rw [Multiset.add_cons]
    exact harrays
  · exact hbufs.free
  · exact h.calls
  · exact h.bounded
  · exact h.room
  · exact h.closed
  · refine ⟨horder, hcallOrder, ?_⟩
    intro c hc
    exact hhandedOrder c (by rw [hhanded]; exact Multiset.mem_cons_of_mem hc)

theorem Accounted.free (h : s.Accounted a) (henabled : recvMemoryEnabled s (.free buf)) :
    ∃ s' a', s.exec (.free buf) = some s' ∧ s'.Accounted a' ∧ Booked s (.free buf) a a' := by
  obtain ⟨array, messages, others, hhanded⟩ := h.exists_handed henabled.1 henabled.2
  obtain ⟨s', hexec, haccounted⟩ := h.freed hhanded
  refine ⟨s', _, hexec, haccounted, (List.append_nil _).symm, ?_, ?_, ?_⟩
  · rw [lostArrays, (h.entry_eq hhanded).1, Multiset.map_cons, ← Multiset.singleton_add,
      Multiset.add_comm]
    rfl
  · exact (Multiset.add_zero _).symm
  · intro c hc hother
    rw [hhanded] at hc
    rcases Multiset.mem_cons.mp hc with rfl | hold
    · exact absurd rfl hother
    · exact hold

end Handed

/-! ## The end of the client -/

theorem Accounted.object_of_get (h : s.Accounted a) {address : Nat} {object : RecvDataObject}
    (hget : s.memory.messages address = some object) :
    ∃ m ∈ a.messages, m.address = address ∧ object = ⟨m.bytes.length, some m.buffer⟩ := by
  obtain ⟨m, hm, heq⟩ := Multiset.mem_map.mp ((h.messages.get_iff address object).mp hget)
  obtain ⟨haddress, hobject⟩ := Prod.mk.inj heq
  exact ⟨m, hm, haddress, hobject.symm⟩

theorem Accounted.owned (h : s.Accounted a) : s.memory.Owned := by
  constructor
  · intro address object buffer hget hdata
    obtain ⟨m, hm, -, rfl⟩ := h.object_of_get hget
    obtain rfl := Option.some.inj hdata
    rw [h.buffers.get (Multiset.mem_add.mpr (Or.inl (Multiset.mem_map_of_mem Received.block hm)))]
    rfl
  · intro address address' object object' buffer hget hget' hdata hdata'
    obtain ⟨m, hm, rfl, rfl⟩ := h.object_of_get hget
    obtain ⟨m', hm', rfl, rfl⟩ := h.object_of_get hget'
    have hnodup := h.buffers.nodup
    rw [Multiset.map_add, Multiset.nodup_add, Multiset.map_map] at hnodup
    have hsame : m.buffer = m'.buffer :=
      Option.some.inj (hdata.trans hdata'.symm)
    rw [Multiset.inj_on_of_nodup_map hnodup.1 m hm m' hm' hsame]

/-- **`recv_data_list_deinit`** releases the messages in the list. -/
theorem Accounted.deinit (h : s.Accounted a) (henabled : recvMemoryEnabled s .deinit) :
    ∃ s' a', s.exec .deinit = some s' ∧ s'.Accounted a' ∧ Booked s .deinit a a' := by
  obtain ⟨hopen, hidle⟩ := henabled
  have hfilling : a.filling = 0 := by
    have hnone := h.calls.eq_zero_of_none hidle
    exact Multiset.map_eq_zero.mp hnone
  have hqueued : ∀ entry ∈ a.queue, entry.2 ∈ a.messages := by
    intro entry hentry
    exact Multiset.mem_add.mpr (Or.inl (List.mem_map_of_mem hentry))
  have hobjects : ∀ entry ∈ a.queue.map (fun entry => (entry.1, entry.2.address)),
      ∃ object, s.memory.messages entry.2 = some object := by
    intro entry hentry
    obtain ⟨queued, hmem, rfl⟩ := List.mem_map.mp hentry
    exact ⟨_, h.messages.get (Multiset.mem_map_of_mem Received.object (hqueued queued hmem))⟩
  have hsplit : a.messages = ↑(a.queue.map Prod.snd) + Account.messages { a with queue := [] } := by
    rw [Account.messages, Account.messages]
    exact congrArg _ (Multiset.zero_add _).symm
  have hmessages := h.messages
  have hbuffers := h.buffers
  rw [hsplit, Multiset.map_add] at hmessages hbuffers
  rw [Multiset.add_assoc] at hbuffers
  have haddresses : (a.queue.map (fun entry => (entry.1, entry.2.address))).map Prod.snd =
      (a.queue.map Prod.snd).map Received.address := by
    rw [List.map_map, List.map_map]
    rfl
  have hnodup : ((a.queue.map (fun entry => (entry.1, entry.2.address))).map Prod.snd).Nodup := by
    have hall := hmessages.nodup
    rw [Multiset.map_add, Multiset.nodup_add, Multiset.map_map, Multiset.map_coe,
      Multiset.coe_nodup] at hall
    rw [haddresses]
    exact hall.1
  obtain ⟨memory, hloop, hempty, hreleased⟩ :=
    RecvDataMemory.exists_recvDataListDeinitLoop h.nodes h.owned hobjects hnodup
  have hexec : s.exec .deinit = some { s with memory := memory, closed := true } := by
    rw [exec, hloop (s.frames + 1) (by rw [List.length_map]; exact Nat.lt_succ_of_le h.bounded)]
    rfl
  rw [haddresses] at hreleased
  obtain ⟨-, -, hhanded⟩ := h.order
  refine ⟨_, { a with queue := [] }, hexec, ?_, (List.append_nil _).symm,
    (Multiset.add_zero _).symm, (Multiset.add_zero _).symm, fun c hc _ => hc⟩
  constructor
  · exact hempty
  · apply hmessages.release
    · intro block hblock
      obtain ⟨m, hm, rfl⟩ := Multiset.mem_map.mp hblock
      exact hreleased.message_gone m.address (List.mem_map_of_mem hm)
    · intro address haddress
      apply hreleased.message_kept
      rw [Multiset.map_map, Multiset.map_coe] at haddress
      exact haddress
  · apply hbuffers.release
    · intro block hblock
      obtain ⟨m, hm, rfl⟩ := Multiset.mem_map.mp hblock
      exact hreleased.buffer_gone m.address (List.mem_map_of_mem hm) ⟨m.bytes.length, some m.buffer⟩
        m.buffer (hmessages.get (Multiset.mem_add.mpr
          (Or.inl (Multiset.mem_map_of_mem Received.object hm)))) rfl
    · intro address haddress
      apply hreleased.buffer_kept
      intro message hmessage object hobject hdata
      apply haddress
      obtain ⟨m, hm, rfl⟩ := List.mem_map.mp hmessage
      have hget := hmessages.get (Multiset.mem_add.mpr
        (Or.inl (Multiset.mem_map_of_mem Received.object (Multiset.mem_coe.mpr hm))))
      obtain rfl := Option.some.inj (hget.symm.trans hobject)
      obtain rfl := Option.some.inj hdata
      rw [Multiset.map_map]
      exact Multiset.mem_map_of_mem _ (Multiset.mem_coe.mpr hm)
  · exact h.arrays
  · exact h.bufs
  · exact h.calls
  · exact Nat.zero_le _
  · exact h.room
  · exact fun _ => ⟨rfl, hfilling⟩
  · refine ⟨List.nil_sublist _, ?_, hhanded⟩
    intro c hc
    rw [hfilling] at hc
    exact absurd hc (Multiset.notMem_zero c)

/-! ## Runs -/

/-- **Every step** that does not write behind the array is defined and keeps the account. -/
theorem Accounted.exec (h : s.Accounted a) {event : RecvMemoryEvent}
    (henabled : recvMemoryEnabled s event) (hfits : ¬ s.Overruns event) :
    ∃ s' a', s.exec event = some s' ∧ s'.Accounted a' ∧ Booked s event a a' := by
  cases event with
  | frame payload data recvData node => exact h.frame henabled
  | call buf => exact h.call henabled
  | round buf array => exact h.round henabled hfits
  | free buf => exact h.free henabled
  | deinit => exact h.deinit henabled

theorem Accounted.step (h : s.Accounted a) {event : RecvMemoryEvent} {s' : RecvMemory}
    (henabled : recvMemoryEnabled s event) (hexec : s.exec event = some s') :
    ∃ a', s'.Accounted a' ∧ Booked s event a a' := by
  have hfits : ¬ s.Overruns event := by
    intro hover
    rw [h.overruns hover] at hexec
    exact absurd hexec (by simp)
  obtain ⟨τ, a', hτ, haccounted, hbooked⟩ := h.exec henabled hfits
  obtain rfl := Option.some.inj (hτ.symm.trans hexec)
  exact ⟨a', haccounted, hbooked⟩

end RecvMemory

end Client
end StupidP2P
