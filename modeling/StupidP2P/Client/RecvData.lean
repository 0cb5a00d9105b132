import StupidP2P.Client.HandleTable
import StupidP2P.Client.Parser
import StupidP2P.Foundation.Since

/-!
# Handing received messages to the application

The receive thread appends a message to `recv_data_list` for every data frame, and
`stupid_p2p_recv_data` empties the list into an array of 1024 pointers and returns a copy
of what it took.  The list is locked for each message taken, not for the whole call, so
messages can arrive while a call is under way; the steps of the machine below are single
rounds of the loop.

The loop takes a message off the list before it tests whether the array is full, and the
test lets the index 1024 pass.  Messages are conserved, and the array is written in its
bounds, as long as no round finds a message after 1024 were taken.  The next one is
written behind the array, and the one after that is lost.  Seen from outside, at most 1024
messages may wait when a call starts or arrive before it returns.

Calls on a handle do not overlap here.
-/

namespace StupidP2P
namespace Client

open Foundation

/-- `max_num`, and the length of the array `data_buf`. -/
def maxNum : Nat := 1024

/-- `sizeof(recv_data_buf_t)`. -/
def sizeofRecvDataBuf : Nat := 16

namespace HandleTable

/-- Apply a function to the client with a given handle. -/
def modifyClient {α : Type} (table : HandleTable α) (fd : Int) (f : α → α) : HandleTable α :=
  let modify := fun p : Entry α => if p.fd = fd then { p with client := f p.client } else p
  { table with head := modify table.head, nodes := table.nodes.map modify }

theorem findLoop_map {α : Type} (fd : Int) (f : α → α) (nodes : List (Entry α)) :
    findLoop fd (nodes.map fun p => if p.fd = fd then { p with client := f p.client } else p) =
      (findLoop fd nodes).map fun p => { p with client := f p.client } := by
  induction nodes with
  | nil => rfl
  | cons p nodes ih =>
      rw [List.map_cons, findLoop, findLoop]
      by_cases hfd : p.fd = fd
      · simp [hfd]
      · simp [hfd, ih]

theorem find_modifyClient {α : Type} (table : HandleTable α) (fd : Int) (f : α → α) :
    (table.modifyClient fd f).findStupidP2P fd =
      (table.findStupidP2P fd).map fun p => { p with client := f p.client } :=
  findLoop_map fd f (table.head :: table.nodes)

end HandleTable

/-- The table of handles, the call of `stupid_p2p_recv_data` under way, given by what it
has stored in `data_buf`, and a record of the messages added and of those returned. -/
structure Inbox where
  table : HandleTable ClientNode
  dataBuf : Option (List RecvData)
  callocs : Nat
  added : List RecvData
  returned : List RecvData

namespace Inbox

variable (s : Inbox) (calloc : Calloc) (fd : Int)

/-- The `recv_data_list` of the client with the handle. -/
def queue : List RecvData :=
  match s.table.findStupidP2P fd with
  | none => []
  | some p => p.client.recvDataList

def setQueue (list : List RecvData) : Inbox :=
  { s with table := s.table.modifyClient fd fun node => { node with recvDataList := list } }

/-- `recv_data_list_add`, called for a data frame. -/
def add (recvData : RecvData) : Inbox :=
  { s.setQueue fd (recvDataListAdd (s.queue fd) recvData) with added := s.added ++ [recvData] }

/-- `stupid_p2p_recv_data` up to its loop. -/
def call : Inbox :=
  match s.table.findStupidP2P fd with
  | none => s
  | some _ =>
      if calloc s.callocs sizeofRecvDataBuf then
        { s with callocs := s.callocs + 1, dataBuf := some [] }
      else { s with callocs := s.callocs + 1 }

/-- What follows the loop: a copy of the array is returned, or, if there is no memory for
it, the messages are freed and nothing is returned. -/
def finish (dataBuf : List RecvData) : Inbox :=
  { s with
    callocs := s.callocs + 1
    dataBuf := none
    returned :=
      if calloc s.callocs (8 * dataBuf.length) then s.returned ++ dataBuf else s.returned }

/-- One round of the loop, and the indices it writes; `dataBuf.length` is
`recv_data_num`.  A write behind the array is let through here. -/
def round (dataBuf : List RecvData) : Inbox × List Nat :=
  match recvDataListReturnData (s.queue fd) with
  | (none, list) => ((s.setQueue fd list).finish calloc dataBuf, [])
  | (some recvData, list) =>
      if dataBuf.length > maxNum then ((s.setQueue fd list).finish calloc dataBuf, [])
      else
        ({ s.setQueue fd list with dataBuf := some (dataBuf ++ [recvData]) },
          [dataBuf.length])

/-- Nothing is lost, duplicated or reordered.  Between calls `dataBuf` is `none`. -/
def Conserved : Prop :=
  s.returned ++ s.dataBuf.getD [] ++ s.queue fd = s.added

end Inbox

inductive InboxEvent
  | add (recvData : RecvData)
  | call
  | round

/-- Messages arriving for a handle, and calls of `stupid_p2p_recv_data` one after another.
The output of a step is the list of the indices it writes. -/
def inboxMachine (calloc : Calloc) (fd : Int) (table : HandleTable ClientNode) :
    Machine Inbox InboxEvent (List Nat) where
  init := ⟨table, none, 0, (Inbox.mk table none 0 [] []).queue fd, []⟩
  enabled s event :=
    match event with
    | .add _ => True
    | .call => s.dataBuf = none
    | .round => s.dataBuf ≠ none
  exec s event :=
    match event, s.dataBuf with
    | .add recvData, _ => some (s.add fd recvData, [])
    | .call, _ => some (s.call calloc fd, [])
    | .round, some dataBuf => some (s.round calloc fd dataBuf)
    | .round, none => none

/-- A round that finds a message comes before 1024 messages were taken in its call. -/
def TakesAtMost1024 (fd : Int) (s : Inbox) : InboxEvent → Prop
  | .round => s.queue fd ≠ [] → ∀ dataBuf, s.dataBuf = some dataBuf → dataBuf.length < 1024
  | _ => True

/-- The count of what the last call can find, after one more step. -/
def countOffered (fd : Int) (n : Nat) (t : Transition Inbox InboxEvent (List Nat)) : Nat :=
  match t.event with
  | .call => (t.pre.queue fd).length
  | .add _ => n + 1
  | .round => n

/-- The messages waiting when the last call started, and those that have arrived since. -/
def offered (fd : Int) (trace : List (Transition Inbox InboxEvent (List Nat))) : Nat :=
  trace.foldl (countOffered fd) 0

/-- Up to each round of a call so many messages were waiting for it or have arrived. -/
def OffersAtMost (limit : Nat) (fd : Int)
    (trace : List (Transition Inbox InboxEvent (List Nat))) : Prop :=
  ∀ before t after, trace = before ++ t :: after → t.event = .round → offered fd before ≤ limit

/-! ## One step -/

namespace Inbox

variable {s : Inbox} {calloc : Calloc} {fd : Int}

/-- The handle leads to a client. -/
def Live (s : Inbox) (fd : Int) : Prop :=
  ∃ p, s.table.findStupidP2P fd = some p

theorem live_setQueue (hlive : s.Live fd) (list : List RecvData) :
    (s.setQueue fd list).Live fd := by
  obtain ⟨p, hp⟩ := hlive
  refine ⟨{ p with client := { p.client with recvDataList := list } }, ?_⟩
  rw [setQueue, HandleTable.find_modifyClient, hp]
  rfl

theorem queue_setQueue (hlive : s.Live fd) (list : List RecvData) :
    (s.setQueue fd list).queue fd = list := by
  obtain ⟨p, hp⟩ := hlive
  rw [queue, setQueue, HandleTable.find_modifyClient, hp]
  rfl

theorem live_finish (hlive : s.Live fd) (dataBuf : List RecvData) :
    (s.finish calloc dataBuf).Live fd := hlive

theorem live_call (hlive : s.Live fd) : (s.call calloc fd).Live fd := by
  obtain ⟨p, hp⟩ := hlive
  unfold call
  rw [hp]
  dsimp only
  split
  · exact ⟨p, hp⟩
  · exact ⟨p, hp⟩

theorem live_round (hlive : s.Live fd) (dataBuf : List RecvData) :
    (s.round calloc fd dataBuf).1.Live fd := by
  unfold round
  split
  · exact live_finish (live_setQueue hlive _) dataBuf
  · split
    · exact live_finish (live_setQueue hlive _) dataBuf
    · exact live_setQueue hlive _

theorem conserved_add (hlive : s.Live fd) (hconserved : s.Conserved fd) (recvData : RecvData) :
    (s.add fd recvData).Conserved fd := by
  have hqueue : (s.add fd recvData).queue fd = s.queue fd ++ [recvData] :=
    queue_setQueue hlive _
  rw [Conserved, hqueue, ← List.append_assoc]
  exact congrArg (· ++ [recvData]) hconserved

theorem conserved_call (hconserved : s.Conserved fd) (hidle : s.dataBuf = none) :
    (s.call calloc fd).Conserved fd := by
  rw [Conserved, hidle] at hconserved
  unfold call
  split
  · rw [Conserved, hidle]
    exact hconserved
  · split
    · exact hconserved
    · rw [Conserved]
      change s.returned ++ s.dataBuf.getD [] ++ s.queue fd = s.added
      rw [hidle]
      exact hconserved

section

variable {dataBuf list : List RecvData} {recvData : RecvData}

theorem round_of_nil (hqueue : s.queue fd = []) :
    s.round calloc fd dataBuf = ((s.setQueue fd []).finish calloc dataBuf, []) := by
  rw [round, hqueue]
  rfl

theorem round_of_room (hqueue : s.queue fd = recvData :: list)
    (hroom : dataBuf.length ≤ maxNum) :
    s.round calloc fd dataBuf =
      ({ s.setQueue fd list with dataBuf := some (dataBuf ++ [recvData]) },
        [dataBuf.length]) := by
  rw [round, hqueue]
  exact if_neg (Nat.not_lt.mpr hroom)

/-- The message is off the list and stored nowhere. -/
theorem round_of_full (hqueue : s.queue fd = recvData :: list)
    (hfull : maxNum < dataBuf.length) :
    s.round calloc fd dataBuf = ((s.setQueue fd list).finish calloc dataBuf, []) := by
  rw [round, hqueue]
  exact if_pos hfull

/-- A call starts with an empty array. -/
theorem of_call_busy (hidle : s.dataBuf = none)
    (hbusy : (s.call calloc fd).dataBuf = some dataBuf) :
    dataBuf = [] ∧ (s.call calloc fd).queue fd = s.queue fd := by
  unfold call at hbusy ⊢
  split at hbusy
  · rw [hidle] at hbusy
    cases hbusy
  · split at hbusy
    · rename_i hmemory
      rw [if_pos hmemory]
      exact ⟨(Option.some.inj hbusy).symm, rfl⟩
    · rw [hidle] at hbusy
      cases hbusy

/-- A round after which the call goes on has moved a message from the list to the array. -/
theorem of_round_busy (hlive : s.Live fd) {taken : List RecvData}
    (hbusy : (s.round calloc fd taken).1.dataBuf = some dataBuf) :
    ∃ recvData, s.queue fd = recvData :: (s.round calloc fd taken).1.queue fd ∧
      dataBuf = taken ++ [recvData] := by
  cases hqueue : s.queue fd with
  | nil =>
      rw [round_of_nil hqueue] at hbusy
      cases hbusy
  | cons recvData list =>
      by_cases hfull : maxNum < taken.length
      · rw [round_of_full hqueue hfull] at hbusy
        cases hbusy
      · rw [round_of_room hqueue (Nat.not_lt.mp hfull)] at hbusy ⊢
        refine ⟨recvData, ?_, (Option.some.inj hbusy).symm⟩
        exact congrArg (recvData :: ·) (queue_setQueue hlive list).symm

/-- A round that ends the call while there is room has found the list empty. -/
theorem of_round_idle {taken : List RecvData} (hroom : taken.length ≤ maxNum)
    (hidle : (s.round calloc fd taken).1.dataBuf = none) : s.queue fd = [] := by
  cases hqueue : s.queue fd with
  | nil => rfl
  | cons recvData list =>
      rw [round_of_room hqueue hroom] at hidle
      cases hidle

/-- With memory to be had, a call that ends returns what it took. -/
theorem conserved_finish_iff (hcalloc : ∀ k size, calloc k size = true) (hlive : s.Live fd) :
    ((s.setQueue fd list).finish calloc dataBuf).Conserved fd ↔
      s.returned ++ dataBuf ++ list = s.added := by
  change (if calloc s.callocs (8 * dataBuf.length) then s.returned ++ dataBuf
    else s.returned) ++ [] ++ (s.setQueue fd list).queue fd = s.added ↔ _
  rw [if_pos (hcalloc _ _), queue_setQueue hlive, List.append_nil]

/-- A round keeps messages and bounds exactly if it finds no message or fewer than 1024
were taken before it. -/
theorem round_iff (hcalloc : ∀ k size, calloc k size = true) (hlive : s.Live fd)
    (hconserved : s.Conserved fd) (hbusy : s.dataBuf = some dataBuf) :
    ((s.round calloc fd dataBuf).1.Conserved fd ∧
        ∀ i ∈ (s.round calloc fd dataBuf).2, i < 1024) ↔
      (s.queue fd ≠ [] → dataBuf.length < 1024) := by
  have hmax : maxNum = 1024 := rfl
  rw [Conserved, hbusy, Option.getD_some] at hconserved
  cases hqueue : s.queue fd with
  | nil =>
      rw [hqueue] at hconserved
      rw [round_of_nil hqueue, conserved_finish_iff hcalloc hlive]
      exact iff_of_true ⟨hconserved, by simp⟩ (fun hne => absurd rfl hne)
  | cons recvData list =>
      rw [hqueue] at hconserved
      by_cases hfull : maxNum < dataBuf.length
      · rw [round_of_full hqueue hfull, conserved_finish_iff hcalloc hlive, ← hconserved]
        refine iff_of_false ?_ (fun hroom => ?_)
        · rintro ⟨hlost, -⟩
          have hlength := congrArg List.length hlost
          simp only [List.length_append, List.length_cons] at hlength
          omega
        · have := hroom (List.cons_ne_nil _ _)
          omega
      · rw [round_of_room hqueue (Nat.not_lt.mp hfull)]
        have hstored : Conserved
            { s.setQueue fd list with dataBuf := some (dataBuf ++ [recvData]) } fd := by
          change s.returned ++ (dataBuf ++ [recvData]) ++ (s.setQueue fd list).queue fd =
            s.added
          rw [queue_setQueue hlive, ← hconserved]
          simp
        -- Nothing is lost here, but at 1024 the index is behind the array.
        rw [and_iff_right hstored]
        simp

end

end Inbox

/-! ## Runs -/

section

variable {calloc : Calloc} {fd : Int} {table : HandleTable ClientNode} {s : Inbox}

/-- The handle stays live. -/
theorem inbox_live (hlive : ∃ p, table.findStupidP2P fd = some p)
    (hreach : (inboxMachine calloc fd table).Reachable s) : s.Live fd := by
  have hinit : (inboxMachine calloc fd table).init.Live fd := hlive
  refine hreach.invariant (Inbox.Live · fd) hinit ?_
  rintro ⟨pre, event, output, post⟩ ⟨-, hexec⟩ hpre
  dsimp only at hpre hexec ⊢
  cases event with
  | add recvData =>
      have hpost : pre.add fd recvData = post := (Prod.mk.inj (Option.some.inj hexec)).1
      rw [← hpost]
      exact Inbox.live_setQueue hpre _
  | call =>
      have hpost : pre.call calloc fd = post := (Prod.mk.inj (Option.some.inj hexec)).1
      rw [← hpost]
      exact Inbox.live_call hpre
  | round =>
      cases hbusy : pre.dataBuf with
      | none => simp [inboxMachine, hbusy] at hexec
      | some dataBuf =>
          simp only [inboxMachine, hbusy, Option.some.injEq] at hexec
          rw [show post = (pre.round calloc fd dataBuf).1 by rw [hexec]]
          exact Inbox.live_round hpre dataBuf

theorem offered_concat (fd : Int) (trace : List (Transition Inbox InboxEvent (List Nat)))
    (t : Transition Inbox InboxEvent (List Nat)) :
    offered fd (trace ++ [t]) = countOffered fd (offered fd trace) t := by
  simp only [offered, List.foldl_append, List.foldl_cons, List.foldl_nil]

theorem offersAtMost_concat {limit : Nat} {trace : List (Transition Inbox InboxEvent (List Nat))}
    {t : Transition Inbox InboxEvent (List Nat)} :
    OffersAtMost limit fd (trace ++ [t]) ↔
      OffersAtMost limit fd trace ∧ (t.event = .round → offered fd trace ≤ limit) := by
  constructor
  · intro h
    refine ⟨?_, h trace t [] rfl⟩
    rintro before t' after rfl
    exact h before t' (after ++ [t]) (by simp)
  · rintro ⟨hearlier, hlast⟩ before t' after hsplit
    rcases split_concat hsplit with ⟨-, rfl, rfl⟩ | ⟨init, -, htrace⟩
    · exact hlast
    · exact hearlier before t' init htrace

theorem OffersAtMost.mono {limit limit' : Nat}
    {trace : List (Transition Inbox InboxEvent (List Nat))}
    (h : OffersAtMost limit fd trace) (hle : limit ≤ limit') : OffersAtMost limit' fd trace :=
  fun before t after hsplit hround => (h before t after hsplit hround).trans hle

/-- What a call has taken and what is in the list is what it was offered. -/
theorem taken_add_waiting {trace : List (Transition Inbox InboxEvent (List Nat))}
    (hlive : ∃ p, table.findStupidP2P fd = some p)
    (hrun : (inboxMachine calloc fd table).Run trace s) {dataBuf : List RecvData}
    (hbusy : s.dataBuf = some dataBuf) :
    dataBuf.length + (s.queue fd).length = offered fd trace := by
  induction hrun generalizing dataBuf with
  | start => cases hbusy
  | @step trace t hrun hstep ih =>
      obtain ⟨pre, event, output, post⟩ := t
      obtain ⟨henabled, hexec⟩ := hstep
      have hpre := inbox_live hlive ⟨trace, hrun⟩
      dsimp only at hrun ih henabled hexec hpre hbusy ⊢
      rw [offered_concat]
      cases event with
      | add recvData =>
          obtain rfl := (Prod.mk.inj (Option.some.inj hexec)).1
          have hqueue : (pre.add fd recvData).queue fd = pre.queue fd ++ [recvData] :=
            Inbox.queue_setQueue hpre _
          have hold := @ih dataBuf hbusy
          rw [hqueue, List.length_append, List.length_singleton]
          dsimp only [countOffered]
          omega
      | call =>
          have hidle : pre.dataBuf = none := henabled
          obtain rfl := (Prod.mk.inj (Option.some.inj hexec)).1
          obtain ⟨hnil, hqueue⟩ := Inbox.of_call_busy hidle hbusy
          rw [hnil, hqueue, List.length_nil, Nat.zero_add]
          rfl
      | round =>
          cases hcall : pre.dataBuf with
          | none => exact absurd hcall henabled
          | some taken =>
              simp only [inboxMachine, hcall, Option.some.injEq] at hexec
              have hold := @ih taken hcall
              obtain ⟨recvData, hqueue, htaken⟩ :=
                Inbox.of_round_busy hpre (show (pre.round calloc fd taken).1.dataBuf = _ by
                  rw [hexec]; exact hbusy)
              rw [hexec] at hqueue
              rw [hqueue, List.length_cons] at hold
              rw [htaken, List.length_append, List.length_singleton]
              dsimp only [countOffered] at hold ⊢
              omega

/-- A call that is offered at most 1024 messages takes at most 1024. -/
theorem OffersAtMost.takes {trace : List (Transition Inbox InboxEvent (List Nat))}
    (hlive : ∃ p, table.findStupidP2P fd = some p)
    (hrun : (inboxMachine calloc fd table).Run trace s) (h : OffersAtMost 1024 fd trace) :
    ∀ t ∈ trace, TakesAtMost1024 fd t.pre t.event := by
  intro t ht
  obtain ⟨before, after, rfl⟩ := List.append_of_mem ht
  have hbefore := hrun.to_step.1
  cases hevent : t.event with
  | add recvData => trivial
  | call => trivial
  | round =>
      intro hwaiting dataBuf hbusy
      have hsum := taken_add_waiting hlive hbefore hbusy
      have hlimit := h before t after rfl hevent
      have hpos := List.length_pos_iff.mpr hwaiting
      omega

/-- Calls that take at most 1024 messages, and have returned, were offered no more. -/
theorem offersAtMost_of_takes {trace : List (Transition Inbox InboxEvent (List Nat))}
    (hlive : ∃ p, table.findStupidP2P fd = some p)
    (hrun : (inboxMachine calloc fd table).Run trace s)
    (htakes : ∀ t ∈ trace, TakesAtMost1024 fd t.pre t.event) :
    (s.dataBuf = none → OffersAtMost 1024 fd trace) ∧
      ∀ dataBuf, s.dataBuf = some dataBuf → dataBuf.length ≤ 1024 ∧
        OffersAtMost (max 1024 (offered fd trace)) fd trace := by
  induction hrun with
  | start =>
      refine ⟨fun _ before t after hsplit => ?_, fun dataBuf hbusy => by cases hbusy⟩
      exact absurd hsplit (by simp)
  | @step trace t hrun hstep ih =>
      have hsum := fun dataBuf hbusy => @taken_add_waiting _ _ _ _ _ hlive hrun dataBuf hbusy
      have hpre := inbox_live hlive ⟨trace, hrun⟩
      obtain ⟨hidle, hbusy⟩ := ih fun t' ht' => htakes t' (List.mem_append_left _ ht')
      have htake := htakes t (by simp)
      obtain ⟨pre, event, output, post⟩ := t
      obtain ⟨henabled, hexec⟩ := hstep
      dsimp only at hrun hsum hpre hidle hbusy henabled hexec htake ⊢
      rw [offersAtMost_concat, offersAtMost_concat, offered_concat]
      cases event with
      | add recvData =>
          obtain rfl := (Prod.mk.inj (Option.some.inj hexec)).1
          refine ⟨fun hnone => ⟨hidle hnone, by simp⟩, fun dataBuf hsome => ?_⟩
          obtain ⟨hlength, hoffers⟩ := hbusy dataBuf hsome
          exact ⟨hlength, hoffers.mono (by dsimp only [countOffered]; omega), by simp⟩
      | call =>
          obtain rfl := (Prod.mk.inj (Option.some.inj hexec)).1
          have hearlier := hidle henabled
          refine ⟨fun _ => ⟨hearlier, by simp⟩, fun dataBuf hsome => ?_⟩
          rw [(Inbox.of_call_busy henabled hsome).1]
          exact ⟨Nat.zero_le _, hearlier.mono (Nat.le_max_left _ _), by simp⟩
      | round =>
          cases hcall : pre.dataBuf with
          | none => exact absurd hcall henabled
          | some taken =>
              simp only [inboxMachine, hcall, Option.some.injEq] at hexec
              obtain ⟨hlength, hoffers⟩ := hbusy taken hcall
              have hsum := hsum taken hcall
              have hpost : post = (pre.round calloc fd taken).1 := by rw [hexec]
              rw [hpost]
              refine ⟨fun hended => ?_, fun dataBuf hsome => ?_⟩
              · -- The call returns, and has taken all it was offered.
                rw [Inbox.of_round_idle hlength hended, List.length_nil] at hsum
                rw [show max 1024 (offered fd trace) = 1024 by omega] at hoffers
                exact ⟨hoffers, fun _ => by omega⟩
              · obtain ⟨recvData, hqueue, rfl⟩ := Inbox.of_round_busy hpre hsome
                have hroom := htake (by rw [hqueue]; simp) taken hcall
                rw [List.length_append, List.length_singleton]
                exact ⟨hroom, hoffers, fun _ => Nat.le_max_right _ _⟩

/-- A round keeps messages and bounds exactly if it takes at most 1024. -/
theorem inbox_exact {trace : List (Transition Inbox InboxEvent (List Nat))}
    (hcalloc : ∀ k size, calloc k size = true)
    (hlive : ∃ p, table.findStupidP2P fd = some p)
    (hrun : (inboxMachine calloc fd table).Run trace s) :
    ((∀ τ ∈ (inboxMachine calloc fd table).visited trace, τ.Conserved fd) ∧
        ∀ t ∈ trace, ∀ i ∈ t.output, i < 1024) ↔
      ∀ t ∈ trace, TakesAtMost1024 fd t.pre t.event := by
  refine hrun.exact_visited_and (Inbox.Conserved · fd) (fun t => ∀ i ∈ t.output, i < 1024)
    (TakesAtMost1024 fd) rfl ?_
  rintro ⟨pre, event, output, post⟩ ⟨henabled, hexec⟩ hreach hconserved
  have hpre := inbox_live hlive hreach
  dsimp only at hpre henabled hexec hconserved ⊢
  cases event with
  | add recvData =>
      obtain ⟨hpost, houtput⟩ := Prod.mk.inj (Option.some.inj hexec)
      rw [← hpost, ← houtput]
      exact iff_of_true ⟨Inbox.conserved_add hpre hconserved recvData, by simp⟩ trivial
  | call =>
      obtain ⟨hpost, houtput⟩ := Prod.mk.inj (Option.some.inj hexec)
      rw [← hpost, ← houtput]
      exact iff_of_true ⟨Inbox.conserved_call hconserved henabled, by simp⟩ trivial
  | round =>
      cases hbusy : pre.dataBuf with
      | none => exact absurd hbusy henabled
      | some dataBuf =>
          simp only [inboxMachine, hbusy, Option.some.injEq] at hexec
          have hround := Inbox.round_iff hcalloc hpre hconserved hbusy
          rw [hexec] at hround
          rw [hround]
          simp only [TakesAtMost1024, hbusy, Option.some.injEq, forall_eq']

/-- **Received messages.**  In a run with memory to be had, the arrays returned so far and
the array being filled, followed by the messages still in the list, are the messages added,
in every state, and `data_buf` is written in its bounds, exactly when no round of
`stupid_p2p_recv_data` finds a message after 1024 were taken in the same call.  It suffices
that no call is offered more than 1024 messages, and when all calls have returned that is
necessary too. -/
theorem recv_data_conserved_iff {trace : List (Transition Inbox InboxEvent (List Nat))}
    (hcalloc : ∀ k size, calloc k size = true)
    (hlive : ∃ p, table.findStupidP2P fd = some p)
    (hrun : (inboxMachine calloc fd table).Run trace s) :
    (((∀ τ ∈ (inboxMachine calloc fd table).visited trace, τ.Conserved fd) ∧
        ∀ t ∈ trace, ∀ i ∈ t.output, i < 1024) ↔
      ∀ t ∈ trace, TakesAtMost1024 fd t.pre t.event) ∧
    (OffersAtMost 1024 fd trace → ∀ t ∈ trace, TakesAtMost1024 fd t.pre t.event) ∧
    (s.dataBuf = none → (∀ t ∈ trace, TakesAtMost1024 fd t.pre t.event) →
      OffersAtMost 1024 fd trace) :=
  ⟨inbox_exact hcalloc hlive hrun, OffersAtMost.takes hlive hrun,
    fun hidle htakes => (offersAtMost_of_takes hlive hrun htakes).1 hidle⟩

end

/-- A table with one client, whose handle is 1. -/
def oneClient : HandleTable ClientNode :=
  ((HandleTable.initial ClientNode.fresh).stupidP2PInit ClientNode.fresh).1

theorem oneClient_live : ∃ p, oneClient.findStupidP2P 1 = some p := ⟨_, rfl⟩

/-- The machine of that client, with memory to be had. -/
def oneInbox : Machine Inbox InboxEvent (List Nat) :=
  inboxMachine (fun _ _ => true) 1 oneClient

/-- Any number of messages can wait in the list. -/
theorem reachable_waiting (n : Nat) :
    ∃ s, oneInbox.Reachable s ∧ s.dataBuf = none ∧ (s.queue 1).length = n := by
  induction n with
  | zero => exact ⟨_, ⟨[], .start⟩, rfl, rfl⟩
  | succ n ih =>
      obtain ⟨s, hreach, hidle, hlength⟩ := ih
      have hstep : oneInbox.Step ⟨s, .add ⟨0, []⟩, [], s.add 1 ⟨0, []⟩⟩ := ⟨trivial, rfl⟩
      refine ⟨_, hreach.step hstep, hidle, ?_⟩
      change ((s.setQueue 1 (s.queue 1 ++ [_])).queue 1).length = n + 1
      rw [Inbox.queue_setQueue (inbox_live oneClient_live hreach), List.length_append, hlength]
      rfl

/-- A round of the loop in which a message is taken. -/
theorem oneInbox_takes {s : Inbox} {dataBuf list : List RecvData} {x : RecvData}
    (hbusy : s.dataBuf = some dataBuf) (hqueue : s.queue 1 = x :: list)
    (hroom : dataBuf.length ≤ maxNum) :
    oneInbox.Step ⟨s, .round, [dataBuf.length],
      { s.setQueue 1 list with dataBuf := some (dataBuf ++ [x]) }⟩ := by
  constructor
  · change s.dataBuf ≠ none
    rw [hbusy]
    exact Option.some_ne_none dataBuf
  · simp only [oneInbox, inboxMachine, hbusy]
    rw [Inbox.round_of_room hqueue hroom]

/-- A call takes up to 1024 of them. -/
theorem reachable_taking {n k : Nat} (hk : k ≤ maxNum) (hn : k ≤ n) :
    ∃ s dataBuf, oneInbox.Reachable s ∧ s.dataBuf = some dataBuf ∧ dataBuf.length = k ∧
      (s.queue 1).length = n - k := by
  induction k with
  | zero =>
      obtain ⟨s, hreach, hidle, hlength⟩ := reachable_waiting n
      obtain ⟨p, hp⟩ := inbox_live oneClient_live hreach
      have hcall : s.call (fun _ _ => true) 1 =
          { s with callocs := s.callocs + 1, dataBuf := some [] } := by
        rw [Inbox.call, hp]
        rfl
      have hstep : oneInbox.Step ⟨s, .call, [], s.call (fun _ _ => true) 1⟩ := ⟨hidle, rfl⟩
      refine ⟨_, [], hreach.step hstep, ?_, rfl, ?_⟩
      · rw [hcall]
      · rw [hcall]
        exact hlength
  | succ k ih =>
      obtain ⟨s, dataBuf, hreach, hbusy, hbuf, hlength⟩ := ih (by omega) (by omega)
      obtain ⟨x, list, hqueue⟩ := List.exists_cons_of_length_pos
        (show 0 < (s.queue 1).length by omega)
      rw [hqueue, List.length_cons] at hlength
      have hstep := oneInbox_takes hbusy hqueue (by omega)
      refine ⟨_, dataBuf ++ [x], hreach.step hstep, rfl, ?_, ?_⟩
      · rw [List.length_append, hbuf]
        rfl
      · change ((s.setQueue 1 list).queue 1).length = _
        rw [Inbox.queue_setQueue (inbox_live oneClient_live hreach)]
        omega

/-- With 1025 messages waiting a call writes behind the array. -/
theorem recv_data_overruns_buffer :
    ¬ ∀ trace s, oneInbox.Run trace s →
      (∀ τ ∈ oneInbox.visited trace, τ.Conserved 1) ∧
        ∀ t ∈ trace, ∀ i ∈ t.output, i < 1024 := by
  intro h
  have hmax : maxNum = 1024 := rfl
  obtain ⟨s, dataBuf, ⟨trace, hrun⟩, hbusy, hbuf, hlength⟩ :=
    @reachable_taking 1025 1024 (by omega) (by omega)
  obtain ⟨x, list, hqueue⟩ := List.exists_cons_of_length_pos
    (show 0 < (s.queue 1).length by omega)
  have hstep := oneInbox_takes hbusy hqueue (by omega)
  have hbounds := (h _ _ (.step hrun hstep)).2 _ (List.mem_append_right _
    (List.mem_singleton.mpr rfl)) dataBuf.length (List.mem_singleton.mpr rfl)
  omega

/-- One message arrives and is taken by a call. -/
def arrives : Transition Inbox InboxEvent (List Nat) :=
  ⟨oneInbox.init, .add ⟨1, [120]⟩, [], oneInbox.init.add 1 ⟨1, [120]⟩⟩

def called : Transition Inbox InboxEvent (List Nat) :=
  ⟨arrives.post, .call, [], arrives.post.call (fun _ _ => true) 1⟩

def taken : Transition Inbox InboxEvent (List Nat) :=
  ⟨called.post, .round, [0], (called.post.round (fun _ _ => true) 1 []).1⟩

theorem recv_data_conserved_taken :
    (∀ τ ∈ oneInbox.visited [arrives, called, taken], τ.Conserved 1) ∧
      ∀ t ∈ [arrives, called, taken], ∀ i ∈ t.output, i < 1024 := by
  have harrives : oneInbox.Step arrives := ⟨trivial, rfl⟩
  have hcalled : oneInbox.Step called := ⟨rfl, rfl⟩
  have htaken : oneInbox.Step taken := ⟨Option.some_ne_none [], rfl⟩
  have hrun : oneInbox.Run [arrives, called, taken] taken.post :=
    .step (.step (.step .start harrives) hcalled) htaken
  apply (recv_data_conserved_iff (fun _ _ => rfl) oneClient_live hrun).1.mpr
  intro t ht
  simp only [List.mem_cons, List.not_mem_nil, or_false] at ht
  rcases ht with rfl | rfl | rfl
  · trivial
  · trivial
  · intro _ dataBuf hbusy
    obtain rfl : ([] : List RecvData) = dataBuf := Option.some.inj hbusy
    decide

end Client
end StupidP2P
