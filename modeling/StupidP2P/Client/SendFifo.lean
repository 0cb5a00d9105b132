import StupidP2P.Client.Model
import StupidP2P.Foundation.Machine

/-!
# Who frees a command buffer

`need_to_send` allocates a buffer and hands it to `send_command_fifo_push`; the send
thread transmits it and calls `send_command_fifo_pop`.  `pop` frees the buffer of the
slot it leaves and does not clear the slot's pointer.  `push` frees whatever pointer it
finds in the slot it fills.

A `Ledger` is the fifo together with the buffers handed in, the ones still pending, and
a record of every call of `free`.  In the first round through the ring the slots are
null, and every buffer is freed once.  From the second round on `push` frees a buffer
that `pop` has freed already.
-/

namespace StupidP2P
namespace Client

open Foundation

variable {β : Type}

/-- The fifo and its bookkeeping.  An entry of `freed` is a buffer and the buffers
pending once the operation that freed it is done. -/
structure Ledger (β : Type) where
  fifo : SendCommandFifo β
  pushed : List β
  pending : List β
  freed : List (β × List β)

namespace Ledger

def initial : Ledger β := ⟨sendCommandFifoInit, [], [], []⟩

def push (s : Ledger β) (data : β) (size : Int) : Ledger β where
  fifo := (sendCommandFifoPush s.fifo data size).1
  pushed := s.pushed ++ [data]
  pending := s.pending ++ [data]
  freed := s.freed ++
    (sendCommandFifoPush s.fifo data size).2.map (·, s.pending ++ [data])

def pop (s : Ledger β) : Ledger β where
  fifo := (sendCommandFifoPop s.fifo).1
  pushed := s.pushed
  pending := s.pending.tail
  freed := s.freed ++ (sendCommandFifoPop s.fifo).2.map (·, s.pending.tail)

/-- The buffers a series of `pop`s frees, each with what that `pop` leaves pending. -/
def popEntries : List β → List β → List (β × List β)
  | [], _ => []
  | b :: freed, pending => (b, pending.tail) :: popEntries freed pending.tail

def deinit (s : Ledger β) : Ledger β where
  fifo := (sendCommandFifoDeinit s.fifo).1
  pushed := s.pushed
  pending := []
  freed := s.freed ++ popEntries (sendCommandFifoDeinit s.fifo).2 s.pending

/-- The buffers freed, in order and with repetitions. -/
def released (s : Ledger β) : List β := s.freed.map Prod.fst

/-- Every buffer was freed exactly once, and none while it was still pending. -/
def Owned [DecidableEq β] (s : Ledger β) : Prop :=
  (∀ b ∈ s.pushed, s.released.count b = 1) ∧ ∀ entry ∈ s.freed, entry.1 ∉ entry.2

end Ledger

inductive SendEvent (β : Type)
  | push (data : β) (size : Int)
  | pop

/-- Calls of `push` with a fresh buffer, as long as fewer than 8192 commands are
pending, and of `pop`, as long as there is one. -/
def sendFifoMachine (β : Type) : Machine (Ledger β) (SendEvent β) Unit where
  init := .initial
  enabled s event :=
    match event with
    | .push data _ => data ∉ s.pushed ∧ s.pending.length < netSendCommandNum
    | .pop => sendCommandFifoEmpty s.fifo = false
  exec s event :=
    match event with
    | .push data size => some (s.push data size, ())
    | .pop => some (s.pop, ())

namespace Ledger

theorem map_fst_popEntries (freed pending : List β) :
    (popEntries freed pending).map Prod.fst = freed := by
  induction freed generalizing pending with
  | nil => rfl
  | cons b freed ih => simp [popEntries, ih]

/-- Popping a duplicate-free queue frees nothing that is still pending. -/
theorem popEntries_settled {pending : List β} (hnodup : pending.Nodup) :
    ∀ entry ∈ popEntries pending pending, entry.1 ∉ entry.2 := by
  induction pending with
  | nil => simp [popEntries]
  | cons b pending ih =>
      rw [List.nodup_cons] at hnodup
      intro entry hentry
      rcases List.mem_cons.mp hentry with rfl | hlater
      · exact hnodup.1
      · exact ih hnodup.2 entry hlater

theorem released_push (s : Ledger β) (data : β) (size : Int) :
    (s.push data size).released = s.released ++ (sendCommandFifoPush s.fifo data size).2 := by
  simp [released, push, Function.comp_def]

theorem released_pop (s : Ledger β) :
    s.pop.released = s.released ++ (sendCommandFifoPop s.fifo).2 := by
  simp [released, pop, Function.comp_def]

theorem released_deinit (s : Ledger β) :
    s.deinit.released = s.released ++ (sendCommandFifoDeinit s.fifo).2 := by
  simp [released, deinit, map_fst_popEntries]

/-- What holds after `written` was pushed and `taken` commands were popped. -/
structure Inv [DecidableEq β] (s : Ledger β) (written : List (NetWorkCommand β))
    (taken : Nat) : Prop where
  history : Ring.History (fun _ => NetWorkCommand.zero) s.fifo.ring written taken
  data_eq : written.map NetWorkCommand.data = s.pushed.map some
  num_eq : s.fifo.num = (s.pushed.length : Int) - taken
  taken_le : taken ≤ s.pushed.length
  room : s.pushed.length ≤ taken + netSendCommandNum
  pending_eq : s.pending = s.pushed.drop taken
  nodup : s.pushed.Nodup
  settled : ∀ entry ∈ s.freed, entry.1 ∉ entry.2
  released_mem : ∀ b ∈ s.released, b ∈ s.pushed
  /-- Popped buffers were freed by `pop`; those a round behind, again by `push`. -/
  released_count : ∀ k b, s.pushed[k]? = some b →
    s.released.count b =
      (if k < taken then 1 else 0) + if k + netSendCommandNum < s.pushed.length then 1 else 0

variable [DecidableEq β] {s : Ledger β} {written : List (NetWorkCommand β)} {taken : Nat}

theorem inv_initial : Inv (initial : Ledger β) [] 0 where
  history := Ring.history_start _ _
  data_eq := rfl
  num_eq := rfl
  taken_le := le_rfl
  room := Nat.zero_le _
  pending_eq := rfl
  nodup := List.nodup_nil
  settled := by
    intro entry hentry
    simp [initial] at hentry
  released_mem := by
    intro b hb
    simp [released, initial] at hb
  released_count := by
    intro k b hb
    simp [initial] at hb

namespace Inv

theorem length_written (h : Inv s written taken) : written.length = s.pushed.length := by
  have hlength := congrArg List.length h.data_eq
  simpa using hlength

/-- The command written for the `k`-th buffer. -/
theorem written_of_pushed (h : Inv s written taken) {k : Nat} {b : β}
    (hb : s.pushed[k]? = some b) : ∃ size, written[k]? = some ⟨some b, size⟩ := by
  have hdata := congrArg (·[k]?) h.data_eq
  simp only [List.getElem?_map, hb, Option.map_some] at hdata
  cases hcommand : written[k]? with
  | none => simp [hcommand] at hdata
  | some command =>
      rw [hcommand, Option.map_some, Option.some.injEq] at hdata
      exact ⟨command.size, by rw [← hdata]⟩

/-- A buffer stands at one position only. -/
theorem eq_index (h : Inv s written taken) {j k : Nat} {b : β} (hj : s.pushed[j]? = some b)
    (hk : s.pushed[k]? = some b) : j = k := by
  have hlt := (List.getElem?_eq_some_iff.mp hj).1
  exact (List.getElem?_inj hlt h.nodup).mp (hj.trans hk.symm)

theorem mem_drop_iff (h : Inv s written taken) {k : Nat} {b : β}
    (hk : s.pushed[k]? = some b) (n : Nat) : b ∈ s.pushed.drop n ↔ n ≤ k := by
  rw [List.mem_iff_getElem?]
  constructor
  · rintro ⟨i, hi⟩
    rw [List.getElem?_drop] at hi
    have := h.eq_index hi hk
    omega
  · intro hle
    refine ⟨k - n, ?_⟩
    rw [List.getElem?_drop, ← hk]
    congr 1
    omega

/-- In the first round `push` finds a null pointer, later the buffer pushed one round
before. -/
theorem push_frees (h : Inv s written taken) (data : β) (size : Int) :
    (sendCommandFifoPush s.fifo data size).2 =
      if netSendCommandNum ≤ s.pushed.length then
        (s.pushed[s.pushed.length - netSendCommandNum]?).toList
      else [] := by
  change s.fifo.ring.behind.data.toList = _
  split
  · rename_i hround
    have hlt : s.pushed.length - netSendCommandNum < s.pushed.length := by
      have : 0 < netSendCommandNum := by decide
      omega
    have hget := List.getElem?_eq_getElem hlt
    obtain ⟨old, hold⟩ := h.written_of_pushed hget
    rw [h.history.behind_of_le (by rw [h.length_written]; omega) hold, hget]
  · rename_i hround
    rw [h.history.behind_of_lt (by rw [h.length_written]; omega)]
    rfl

theorem count_push_frees (h : Inv s written taken) (data : β) (size : Int) {k : Nat} {b : β}
    (hk : s.pushed[k]? = some b) :
    (sendCommandFifoPush s.fifo data size).2.count b =
      if k + netSendCommandNum = s.pushed.length then 1 else 0 := by
  have hlt := (List.getElem?_eq_some_iff.mp hk).1
  rw [h.push_frees]
  by_cases hsame : k + netSendCommandNum = s.pushed.length
  · have hindex : s.pushed.length - netSendCommandNum = k := by omega
    rw [if_pos hsame, if_pos (by omega), hindex, hk]
    simp
  · rw [if_neg hsame, List.count_eq_zero]
    intro hmem
    split at hmem
    · rw [Option.mem_toList] at hmem
      have := h.eq_index hmem hk
      omega
    · simp at hmem

/-- `pop` frees the oldest pending buffer. -/
theorem pop_frees (h : Inv s written taken) {b : β} (hb : s.pushed[taken]? = some b) :
    (sendCommandFifoPop s.fifo).2 = [b] := by
  obtain ⟨size, hsize⟩ := h.written_of_pushed hb
  change s.fifo.ring.front.data.toList = [b]
  rw [h.history.front_eq hsize (by rw [h.length_written]; exact h.room)]
  rfl

/-- What `push` frees was popped before. -/
theorem popped_of_push_frees (h : Inv s written taken)
    (hroom : s.pushed.length < taken + netSendCommandNum) {data : β} {size : Int} {b : β}
    (hb : b ∈ (sendCommandFifoPush s.fifo data size).2) : b ∈ s.pushed ∧ b ∉ s.pending := by
  rw [h.push_frees] at hb
  split at hb
  · rename_i hround
    rw [Option.mem_toList] at hb
    refine ⟨List.mem_of_getElem? hb, ?_⟩
    rw [h.pending_eq, h.mem_drop_iff hb]
    omega
  · simp at hb

theorem released_count_push (h : Inv s written taken)
    (hroom : s.pushed.length < taken + netSendCommandNum) {data : β} (hfresh : data ∉ s.pushed)
    (size : Int) {k : Nat} {b : β} (hb : (s.pushed ++ [data])[k]? = some b) :
    (s.push data size).released.count b =
      (if k < taken then 1 else 0) +
        if k + netSendCommandNum < s.pushed.length + 1 then 1 else 0 := by
  rw [released_push, List.count_append]
  by_cases hk : k < s.pushed.length
  · rw [List.getElem?_append_left hk] at hb
    rw [h.released_count k b hb, h.count_push_frees data size hb]
    split <;> split <;> split <;> split <;> omega
  · -- The new buffer has not been freed, and no later one has been pushed.
    obtain rfl : k = s.pushed.length := by
      have hlt := (List.getElem?_eq_some_iff.mp hb).1
      rw [List.length_append, List.length_singleton] at hlt
      omega
    rw [List.getElem?_concat_length] at hb
    obtain rfl := Option.some.inj hb
    have hbefore : s.released.count data = 0 := by
      rw [List.count_eq_zero]
      exact fun hmem => hfresh (h.released_mem data hmem)
    have hnow : (sendCommandFifoPush s.fifo data size).2.count data = 0 := by
      rw [List.count_eq_zero]
      exact fun hmem => hfresh (h.popped_of_push_frees hroom hmem).1
    have hle := h.taken_le
    have hcapacity : netSendCommandNum = 8192 := rfl
    rw [hbefore, hnow, if_neg (by omega), if_neg (by omega)]

theorem push (h : Inv s written taken) {data : β} (hfresh : data ∉ s.pushed)
    (hroom : s.pushed.length < taken + netSendCommandNum) (size : Int) :
    Inv (s.push data size) (written ++ [⟨some data, size⟩]) taken := by
  have hlength : (s.push data size).pushed.length = s.pushed.length + 1 := by
    simp [Ledger.push]
  have hle := h.taken_le
  refine
    { history := h.history.write _
      data_eq := by simp [Ledger.push, h.data_eq]
      num_eq := ?_
      taken_le := by omega
      room := by omega
      pending_eq := ?_
      nodup := ?_
      settled := ?_
      released_mem := ?_
      released_count := ?_ }
  · change wrap32 (s.fifo.num + 1) = _
    have hnum := h.num_eq
    have hcapacity : netSendCommandNum = 8192 := rfl
    rw [hlength, wrap32_of_range] <;> omega
  · change s.pending ++ [data] = (s.pushed ++ [data]).drop taken
    rw [List.drop_append_of_le_length hle, h.pending_eq]
  · exact List.nodup_append.mpr ⟨h.nodup, by simp, by
      intro b hb c hc heq
      rw [List.mem_singleton] at hc
      subst hc
      exact hfresh (heq ▸ hb)⟩
  · intro entry hentry
    rcases List.mem_append.mp hentry with hbefore | hnow
    · exact h.settled entry hbefore
    · obtain ⟨b, hb, rfl⟩ := List.mem_map.mp hnow
      obtain ⟨hpushed, hpending⟩ := h.popped_of_push_frees hroom hb
      intro hmem
      rcases List.mem_append.mp hmem with hin | hin
      · exact hpending hin
      · rw [List.mem_singleton] at hin
        exact hfresh (hin ▸ hpushed)
  · intro b hb
    rw [released_push] at hb
    rcases List.mem_append.mp hb with hbefore | hnow
    · exact List.mem_append_left _ (h.released_mem b hbefore)
    · exact List.mem_append_left _ (h.popped_of_push_frees hroom hnow).1
  · intro k b hb
    rw [hlength]
    exact h.released_count_push hroom hfresh size hb

theorem released_count_pop (h : Inv s written taken) (hlt : taken < s.pushed.length)
    {k : Nat} {b : β} (hb : s.pushed[k]? = some b) :
    s.pop.released.count b =
      (if k < taken + 1 then 1 else 0) +
        if k + netSendCommandNum < s.pushed.length then 1 else 0 := by
  have hget := List.getElem?_eq_getElem hlt
  have hsame : (s.pushed[taken] == b) = true ↔ k = taken := by
    rw [beq_iff_eq]
    constructor
    · intro heq
      exact h.eq_index hb (heq ▸ hget)
    · rintro rfl
      rw [hget] at hb
      exact Option.some.inj hb
  rw [released_pop, List.count_append, h.released_count k b hb, h.pop_frees hget,
    List.count_singleton]
  simp only [hsame]
  split <;> split <;> split <;> split <;> omega

theorem pop (h : Inv s written taken) (hlt : taken < s.pushed.length) :
    Inv s.pop written (taken + 1) := by
  have hget := List.getElem?_eq_getElem hlt
  have hfrees := h.pop_frees hget
  have htail : s.pending.tail = s.pushed.drop (taken + 1) := by
    rw [h.pending_eq, List.tail_drop]
  have hroom := h.room
  refine
    { history := h.history.skip
      data_eq := h.data_eq
      num_eq := ?_
      taken_le := hlt
      room := by
        change s.pushed.length ≤ _
        omega
      pending_eq := htail
      nodup := h.nodup
      settled := ?_
      released_mem := ?_
      released_count := fun _ _ hb => h.released_count_pop hlt hb }
  · change wrap32 (s.fifo.num - 1) = (s.pushed.length : Int) - (taken + 1 : Nat)
    have hnum := h.num_eq
    have hcapacity : netSendCommandNum = 8192 := rfl
    rw [wrap32_of_range] <;> omega
  · intro entry hentry
    rcases List.mem_append.mp hentry with hbefore | hnow
    · exact h.settled entry hbefore
    · rw [hfrees, List.map_singleton, List.mem_singleton] at hnow
      subst hnow
      change s.pushed[taken] ∉ s.pending.tail
      rw [htail, h.mem_drop_iff hget]
      omega
  · intro b hb
    rw [released_pop, hfrees] at hb
    rcases List.mem_append.mp hb with hbefore | hnow
    · exact h.released_mem b hbefore
    · rw [List.mem_singleton] at hnow
      subst hnow
      exact List.getElem_mem hlt

/-- The loop of `deinit` empties the fifo and frees what is pending, in order. -/
theorem deinitLoop (h : Inv s written taken) {fuel : Nat}
    (hfuel : fuel = s.pushed.length - taken) :
    (sendCommandFifoDeinitLoop fuel s.fifo).1.num = 0 ∧
      (sendCommandFifoDeinitLoop fuel s.fifo).2 = s.pushed.drop taken := by
  have hnum := h.num_eq
  have hle := h.taken_le
  induction fuel generalizing s taken with
  | zero =>
      refine ⟨?_, ?_⟩
      · change s.fifo.num = 0
        omega
      · rw [List.drop_eq_nil_of_le (by omega)]
        rfl
  | succ fuel ih =>
      have hlt : taken < s.pushed.length := by omega
      have hbusy : sendCommandFifoEmpty s.fifo = false := by
        simp only [sendCommandFifoEmpty, decide_eq_false_iff_not]
        omega
      have hpop := h.pop hlt
      obtain ⟨hempty, hlater⟩ := ih hpop (by change _ = s.pushed.length - _; omega)
        hpop.num_eq hpop.taken_le
      rw [sendCommandFifoDeinitLoop, if_neg (by rw [hbusy]; simp)]
      refine ⟨hempty, ?_⟩
      rw [List.drop_eq_getElem_cons hlt]
      change (sendCommandFifoPop s.fifo).2 ++
        (sendCommandFifoDeinitLoop fuel s.pop.fifo).2 = _
      rw [h.pop_frees (List.getElem?_eq_getElem hlt), hlater]
      rfl

theorem deinit_frees (h : Inv s written taken) :
    sendCommandFifoEmpty s.deinit.fifo = true ∧
      (sendCommandFifoDeinit s.fifo).2 = s.pending := by
  have hnum := h.num_eq
  have hle := h.taken_le
  obtain ⟨hempty, hfreed⟩ :=
    h.deinitLoop (show s.fifo.num.toNat = s.pushed.length - taken by omega)
  rw [h.pending_eq]
  exact ⟨decide_eq_true hempty, hfreed⟩

/-- Every buffer is freed by `pop`, and those more than a round behind the last one
were freed by `push` as well. -/
theorem count_released_deinit (h : Inv s written taken) {k : Nat} {b : β}
    (hk : s.pushed[k]? = some b) :
    s.deinit.released.count b =
      1 + if k + netSendCommandNum < s.pushed.length then 1 else 0 := by
  have hpending : s.pending.count b = if taken ≤ k then 1 else 0 := by
    rw [h.pending_eq, (h.nodup.sublist (List.drop_sublist _ _)).count]
    simp only [h.mem_drop_iff hk]
  rw [released_deinit, h.deinit_frees.2, List.count_append, hpending, h.released_count k b hk]
  split <;> split <;> split <;> omega

theorem owned_deinit_iff (h : Inv s written taken) :
    s.deinit.Owned ↔ s.pushed.length ≤ netSendCommandNum := by
  constructor
  · rintro ⟨honce, -⟩
    by_contra hmany
    have hfirst : 0 < s.pushed.length := by omega
    have hget := List.getElem?_eq_getElem hfirst
    have hcount := h.count_released_deinit hget
    rw [honce _ (List.getElem_mem hfirst), if_pos (by omega)] at hcount
    omega
  · intro hround
    constructor
    · intro b hb
      obtain ⟨k, hk⟩ := List.mem_iff_getElem?.mp hb
      rw [h.count_released_deinit hk, if_neg (by omega)]
    · intro entry hentry
      rcases List.mem_append.mp hentry with hbefore | hnow
      · exact h.settled entry hbefore
      · rw [h.deinit_frees.2] at hnow
        have hnodup : s.pending.Nodup := by
          rw [h.pending_eq]
          exact h.nodup.sublist (List.drop_sublist _ _)
        exact popEntries_settled hnodup entry hnow

end Inv
end Ledger

theorem sendFifo_inv [DecidableEq β] {s : Ledger β} (hreach : (sendFifoMachine β).Reachable s) :
    ∃ written taken, s.Inv written taken := by
  refine hreach.invariant (fun s : Ledger β => ∃ written taken, s.Inv written taken)
    ⟨[], 0, Ledger.inv_initial⟩ ?_
  rintro ⟨pre, event, output, post⟩ ⟨henabled, hexec⟩ ⟨written, taken, h⟩
  dsimp only at h henabled hexec ⊢
  have hnum := h.num_eq
  cases event with
  | push data size =>
      obtain ⟨hfresh, hroom⟩ := henabled
      rw [h.pending_eq, List.length_drop] at hroom
      have hpost : pre.push data size = post := (Prod.mk.inj (Option.some.inj hexec)).1
      rw [← hpost]
      exact ⟨_, taken, h.push hfresh (by omega) size⟩
  | pop =>
      have hpost : pre.pop = post := (Prod.mk.inj (Option.some.inj hexec)).1
      have hbusy : pre.fifo.num ≠ 0 := by
        simpa [sendFifoMachine, sendCommandFifoEmpty] using henabled
      have hle := h.taken_le
      rw [← hpost]
      exact ⟨written, taken + 1, h.pop (by omega)⟩

/-- **Ownership of the send buffers.**  After any calls of `push` and `pop`, `deinit`
empties the fifo, and then every buffer was freed exactly once and none while pending
if and only if the ring was gone through at most once. -/
theorem send_buffers_owned_iff [DecidableEq β] {s : Ledger β}
    (hreach : (sendFifoMachine β).Reachable s) :
    sendCommandFifoEmpty s.deinit.fifo = true ∧
      (s.deinit.Owned ↔ s.pushed.length ≤ netSendCommandNum) := by
  obtain ⟨written, taken, h⟩ := sendFifo_inv hreach
  exact ⟨h.deinit_frees.1, h.owned_deinit_iff⟩

/-- A client that sends `n` commands, each transmitted before the next is queued. -/
theorem reachable_oneByOne (n : Nat) :
    ∃ s, (sendFifoMachine Nat).Reachable s ∧ s.pushed = List.range n ∧ s.pending = [] ∧
      s.fifo.num = 0 := by
  induction n with
  | zero => exact ⟨.initial, ⟨[], .start⟩, rfl, rfl, rfl⟩
  | succ n ih =>
      obtain ⟨s, hreach, hpushed, hpending, hnum⟩ := ih
      have hpush : (sendFifoMachine Nat).Step ⟨s, .push n 1, (), s.push n 1⟩ := by
        refine ⟨⟨?_, ?_⟩, rfl⟩
        · rw [hpushed]
          simp
        · rw [hpending]
          decide
      have hbusy : (s.push n 1).fifo.num = 1 := by
        change wrap32 (s.fifo.num + 1) = 1
        rw [hnum]
        rfl
      have hpop : (sendFifoMachine Nat).Step ⟨s.push n 1, .pop, (), (s.push n 1).pop⟩ := by
        refine ⟨?_, rfl⟩
        change decide ((s.push n 1).fifo.num = 0) = false
        rw [hbusy]
        rfl
      refine ⟨_, (hreach.step hpush).step hpop, ?_, ?_, ?_⟩
      · change s.pushed ++ [n] = _
        rw [hpushed, List.range_succ]
      · change (s.pending ++ [n]).tail = []
        rw [hpending]
        rfl
      · change wrap32 ((s.push n 1).fifo.num - 1) = 0
        rw [hbusy]
        rfl

/-- With 8193 commands sent one by one the last `push` frees the first buffer again. -/
theorem send_buffers_freed_twice :
    ∃ s, (sendFifoMachine Nat).Reachable s ∧ s.pushed = List.range 8193 ∧
      ¬ s.deinit.Owned := by
  obtain ⟨s, hreach, hpushed, -, -⟩ := reachable_oneByOne 8193
  obtain ⟨written, taken, h⟩ := sendFifo_inv hreach
  refine ⟨s, hreach, hpushed, ?_⟩
  rw [h.owned_deinit_iff, hpushed, List.length_range]
  decide

theorem send_buffers_owned_two :
    ∃ s, (sendFifoMachine Nat).Reachable s ∧ s.pushed = [0, 1] ∧ s.deinit.Owned := by
  obtain ⟨s, hreach, hpushed, -, -⟩ := reachable_oneByOne 2
  refine ⟨s, hreach, hpushed, (send_buffers_owned_iff hreach).2.mpr ?_⟩
  rw [hpushed]
  decide

end Client
end StupidP2P
