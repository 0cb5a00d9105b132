import StupidP2P.PythonClient.Send
import StupidP2P.Foundation.Machine

/-!
# Restarting the Python client

`restartClient` closes the connection and calls `initClient` until it succeeds.  `initClient`
makes a new `clientRecvThread`, and the queue of received messages belongs to that object.
`recvData` takes messages from the queue of whichever object `self.recvThread` is at the moment.

The second half of the module lets receive threads, a caller of `recvData` and `restartClient`
run side by side.  `recvData` looks up `self.recvThread.recvDataQueue` once for `empty()` and
once for `get()`, and a restart can come between any two of these steps.  A stopped receive
thread is not waited for, so it may still put messages into its own queue.
-/

namespace StupidP2P
namespace PythonClient

open Foundation

/-! ## The calls -/

namespace StupidP2PClient

/-- `initClient`, where `sock.connect` succeeds or raises an exception. -/
def initClient (client : StupidP2PClient) (connected : Bool) : StupidP2PClient × Bool :=
  if connected then ({ client with recvThread := .initial, runningFlag := true }, true)
  else (client, false)

def deinitClient (client : StupidP2PClient) : StupidP2PClient :=
  if client.runningFlag then { client with runningFlag := false } else client

/-- `restartClient`, where `initClient` succeeds after so many failures. -/
def restartClient (client : StupidP2PClient) : Nat → StupidP2PClient
  | 0 => { (client.deinitClient.initClient true).1 with needToRestartFlag := false }
  | tryNum + 1 => (client.deinitClient.initClient false).1.restartClient tryNum

end StupidP2PClient

/-! ## One queue -/

/-- A receive thread, with the number of messages that `recvData` has taken from its queue. -/
structure RecvQueue where
  thread : ClientRecvThread
  taken : Nat
  taken_le : taken ≤ thread.recvDataQueue.length

theorem ClientRecvThread.recvDataQueue_putData (taken : Taken) (t : ClientRecvThread)
    (data : List UInt8) :
    (t.putData taken data).recvDataQueue =
      if t.full taken then t.recvDataQueue else t.recvDataQueue ++ [data] := by
  rw [putData]
  split <;> rfl

namespace RecvQueue

def initial : RecvQueue := ⟨.initial, 0, Nat.zero_le _⟩

/-- The messages in the queue. -/
def contents (q : RecvQueue) : List (List UInt8) := q.thread.recvDataQueue.drop q.taken

def full (q : RecvQueue) : Bool := q.thread.full fun _ => q.taken

/-- The receive thread has a message. -/
def putData (q : RecvQueue) (data : List UInt8) : RecvQueue where
  thread := q.thread.putData (fun _ => q.taken) data
  taken := q.taken
  taken_le := by
    have hle := q.taken_le
    rw [ClientRecvThread.recvDataQueue_putData]
    split
    · exact hle
    · rw [List.length_append]
      omega

/-- `recvDataQueue.get()`; it waits while the queue is empty. -/
def get (q : RecvQueue) : Option (List UInt8 × RecvQueue) :=
  if h : q.taken < q.thread.recvDataQueue.length then
    some (q.thread.recvDataQueue.get ⟨q.taken, h⟩, { q with taken := q.taken + 1, taken_le := h })
  else none

theorem contents_putData (q : RecvQueue) (data : List UInt8) :
    (q.putData data).contents = if q.full then q.contents else q.contents ++ [data] := by
  have hqueue : (q.putData data).thread.recvDataQueue =
      if q.full then q.thread.recvDataQueue else q.thread.recvDataQueue ++ [data] :=
    ClientRecvThread.recvDataQueue_putData _ _ _
  show (q.putData data).thread.recvDataQueue.drop q.taken = _
  rw [hqueue]
  by_cases hfull : q.full = true
  · rw [if_pos hfull, if_pos hfull]
    rfl
  · rw [if_neg hfull, if_neg hfull, List.drop_append_of_le_length q.taken_le]
    rfl

theorem contents_get {q q' : RecvQueue} {data : List UInt8} (h : q.get = some (data, q')) :
    q.contents = data :: q'.contents := by
  unfold get at h
  by_cases hlt : q.taken < q.thread.recvDataQueue.length
  · rw [dif_pos hlt] at h
    obtain ⟨rfl, rfl⟩ := Prod.mk.inj (Option.some.inj h)
    exact List.drop_eq_getElem_cons hlt
  · rw [dif_neg hlt] at h
    exact absurd h (by simp)

end RecvQueue

/-! ## The client and its threads -/

/-- Where `restartClient` is.  At `newRecvThread` the connection has been made. -/
inductive RestartPoint
  | idle
  | deinitClient
  | connect
  | newRecvThread
  | setRunning
  | clearRestart
deriving DecidableEq

/-- Where `recvData` is, with its `dataList`.  At `empty` and `get` it has looked up the
queue of a receive thread. -/
inductive RecvDataPoint
  | idle
  | testRunning
  | lookupEmpty (dataList : List (List UInt8))
  | empty (queue : Nat) (dataList : List (List UInt8))
  | lookupGet (dataList : List (List UInt8))
  | get (queue : Nat) (dataList : List (List UInt8))

/-- A client with all receive threads it has made, numbered in order; `current` is the one
in `self.recvThread`.  `returned` are the messages `recvData` has returned, and `put` all
messages that were put into a queue. -/
structure ReceivingClient where
  runningFlag : Bool
  needToRestartFlag : Bool
  queues : Nat → RecvQueue
  current : Nat
  restart : RestartPoint
  call : RecvDataPoint
  returned : List (List UInt8)
  put : List (List UInt8)

/-- A receive thread has a message, `__send` fails, or `recvData` or `restartClient` comes to
its next step, which is a new call if there is none.  `connected` is what `sock.connect`
comes to, if that is the next step. -/
inductive ReceivingEvent
  | putData (queue : Nat) (data : List UInt8)
  | sendError
  | recvData
  | restartClient (connected : Bool)

namespace ReceivingClient

/-- After the first `initClient`. -/
def start : ReceivingClient where
  runningFlag := true
  needToRestartFlag := false
  queues := fun _ => .initial
  current := 0
  restart := .idle
  call := .idle
  returned := []
  put := []

/-- The next step of `restartClient`. -/
def execRestart (s : ReceivingClient) (connected : Bool) : ReceivingClient :=
  match s.restart with
  | .idle => { s with restart := .deinitClient }
  | .deinitClient => { s with runningFlag := false, restart := .connect }
  | .connect => { s with restart := if connected then .newRecvThread else .deinitClient }
  | .newRecvThread =>
      -- Nothing refers to the earlier object any more, but for a lookup made before.
      { s with
        queues := Function.update s.queues (s.current + 1) .initial
        current := s.current + 1
        restart := .setRunning }
  | .setRunning => { s with runningFlag := true, restart := .clearRestart }
  | .clearRestart => { s with needToRestartFlag := false, restart := .idle }

/-- The next step of `recvData`. -/
def execRecvData (s : ReceivingClient) : Option ReceivingClient :=
  match s.call with
  | .idle =>
      if s.needToRestartFlag = false then some { s with call := .lookupEmpty [] }
      else some { s with call := .testRunning }
  | .testRunning =>
      if s.runningFlag = true then some { s with call := .lookupEmpty [] }
      else some { s with call := .idle }
  | .lookupEmpty dataList => some { s with call := .empty s.current dataList }
  | .empty queue dataList =>
      if (s.queues queue).contents = [] then
        -- The loop is left and `dataList` is returned.
        some { s with call := .idle, returned := s.returned ++ dataList }
      else some { s with call := .lookupGet dataList }
  | .lookupGet dataList => some { s with call := .get s.current dataList }
  | .get queue dataList =>
      match (s.queues queue).get with
      | none => none -- `get()` waits
      | some (data, rest) =>
          some { s with
            queues := Function.update s.queues queue rest
            call := .lookupEmpty (dataList ++ [data]) }

def exec (s : ReceivingClient) : ReceivingEvent → Option ReceivingClient
  | .putData queue data =>
      some { s with
        queues := Function.update s.queues queue ((s.queues queue).putData data)
        put := if (s.queues queue).full then s.put else s.put ++ [data] }
  | .sendError => some { s with needToRestartFlag := true }
  | .recvData => s.execRecvData
  | .restartClient connected => some (s.execRestart connected)

end ReceivingClient

/-- Messages are put by receive threads that exist; the rest may come at any time. -/
def receivingMachine : Machine ReceivingClient ReceivingEvent Unit where
  init := .start
  enabled s event :=
    match event with
    | .putData queue _ => queue ≤ s.current
    | .sendError => True
    | .recvData => True
    | .restartClient _ => True
  exec s event := (s.exec event).map fun next => (next, ())

instance (s : ReceivingClient) :
    (event : ReceivingEvent) → Decidable (receivingMachine.enabled s event)
  | .putData queue _ => inferInstanceAs (Decidable (queue ≤ s.current))
  | .sendError => isTrue trivial
  | .recvData => isTrue trivial
  | .restartClient _ => isTrue trivial

/-! ## The steps of `restartClient` together -/

namespace ReceivingClient

/-- The client as the calls see it. -/
def client (s : ReceivingClient) (deviceId : Option PyString) : StupidP2PClient :=
  ⟨s.runningFlag, s.needToRestartFlag, deviceId, (s.queues s.current).thread⟩

/-- The steps of `restartClient` after so many failures of `initClient`. -/
def restartSteps (tryNum : Nat) : List Bool :=
  (List.replicate tryNum [true, false]).flatten ++ [true, true, true, true, true]

theorem client_execRestart_failed {s : ReceivingClient} {deviceId : Option PyString}
    (hpoint : s.restart = .deinitClient) :
    ((s.execRestart true).execRestart false).restart = .deinitClient ∧
      ((s.execRestart true).execRestart false).client deviceId =
        ((s.client deviceId).deinitClient.initClient false).1 := by
  obtain ⟨running, restart, queues, current, point, call, returned, put⟩ := s
  obtain rfl : point = .deinitClient := hpoint
  cases running <;> exact ⟨rfl, rfl⟩

/-- Without other threads in between they come to what `restartClient` does. -/
theorem client_restartSteps (tryNum : Nat) {s : ReceivingClient} {deviceId : Option PyString}
    (hpoint : s.restart = .deinitClient) :
    ((restartSteps tryNum).foldl execRestart s).restart = .idle ∧
      ((restartSteps tryNum).foldl execRestart s).client deviceId =
        (s.client deviceId).restartClient tryNum := by
  induction tryNum generalizing s with
  | zero =>
      -- Five steps, from `deinitClient` to the store of `needToRestartFlag`.
      obtain ⟨running, restart, queues, current, point, call, returned, put⟩ := s
      obtain rfl : point = .deinitClient := hpoint
      have hthread : (Function.update queues (current + 1) RecvQueue.initial
          (current + 1)).thread = .initial := by
        rw [Function.update_self]
        rfl
      refine ⟨rfl, ?_⟩
      cases running with
      | true => exact congrArg (StupidP2PClient.mk true false deviceId) hthread
      | false => exact congrArg (StupidP2PClient.mk true false deviceId) hthread
  | succ tryNum ih =>
      obtain ⟨hagain, hclient⟩ := @client_execRestart_failed s deviceId hpoint
      have hsteps := ih hagain
      rw [hclient] at hsteps
      exact hsteps

end ReceivingClient

/-! ## What can still be returned -/

namespace RecvDataPoint

def dataList : RecvDataPoint → List (List UInt8)
  | .idle => []
  | .testRunning => []
  | .lookupEmpty dataList => dataList
  | .empty _ dataList => dataList
  | .lookupGet dataList => dataList
  | .get _ dataList => dataList

/-- The queue that `get()` is to be called on. -/
def getting : RecvDataPoint → Option Nat
  | .get queue _ => some queue
  | _ => none

/-- The message that `get()` will still take from a queue that is not the present one. -/
def pending (call : RecvDataPoint) (current : Nat) (contents : Nat → List (List UInt8)) :
    List (List UInt8) :=
  match call.getting with
  | none => []
  | some queue => if queue = current then [] else (contents queue).take 1

end RecvDataPoint

namespace ReceivingClient

def contents (s : ReceivingClient) (queue : Nat) : List (List UInt8) := (s.queues queue).contents

/-- What the client can still return: the messages `recvData` has in hand, the one it is
about to get from an earlier queue, and those in the present queue. -/
def canReturn (s : ReceivingClient) : List (List UInt8) :=
  s.call.dataList ++ (s.call.pending s.current s.contents ++ s.contents s.current)

/-- **No message is lost**: those returned and those that can still be returned are all that
were put, in order. -/
def Conserved (s : ReceivingClient) : Prop := s.returned ++ s.canReturn = s.put

/-- Messages are put into the present queue, and a new receive thread is made only when that
queue is empty, apart from a message `recvData` is about to get.  A message may be put into an
earlier queue if `recvData` is waiting there and all those in the present queue are the same. -/
def KeepsMessages (s : ReceivingClient) : ReceivingEvent → Prop
  | .putData queue data =>
      (s.queues queue).full = true ∨ queue = s.current ∨
        (s.call.getting = some queue ∧ s.contents queue = [] ∧
          ∀ message ∈ s.contents s.current, message = data)
  | .sendError => True
  | .recvData => True
  | .restartClient _ =>
      s.restart = .newRecvThread →
        (s.contents s.current).length ≤ if s.call.getting = some s.current then 1 else 0

instance (s : ReceivingClient) : (event : ReceivingEvent) → Decidable (s.KeepsMessages event)
  | .putData _ _ => inferInstanceAs (Decidable (_ ∨ _ ∨ _ ∧ _ ∧ _))
  | .sendError => isTrue trivial
  | .recvData => isTrue trivial
  | .restartClient _ => inferInstanceAs (Decidable (_ → _))

end ReceivingClient

/-! ## One step -/

theorem cons_eq_concat_iff {α : Type} {x : α} {l : List α} :
    x :: l = l ++ [x] ↔ ∀ y ∈ l, y = x := by
  induction l with
  | nil => simp
  | cons y l ih =>
      rw [List.cons_append, List.cons.injEq, List.forall_mem_cons, ← ih]
      constructor
      · rintro ⟨rfl, htail⟩
        exact ⟨rfl, htail⟩
      · rintro ⟨rfl, htail⟩
        exact ⟨rfl, htail⟩

namespace RecvDataPoint

variable {call : RecvDataPoint} {current queue : Nat} {contents : Nat → List (List UInt8)}
variable {data : List UInt8}

theorem pending_of_ne (messages : List (List UInt8)) (hne : call.getting ≠ some queue) :
    call.pending current (Function.update contents queue messages) =
      call.pending current contents := by
  unfold pending
  cases hgetting : call.getting with
  | none => rfl
  | some k =>
      have hk : k ≠ queue := by
        rintro rfl
        exact hne hgetting
      dsimp only
      rw [Function.update_of_ne hk]

theorem pending_current (messages : List (List UInt8)) :
    call.pending current (Function.update contents current messages) =
      call.pending current contents := by
  by_cases hgetting : call.getting = some current
  · rw [pending, pending, hgetting]
    dsimp only
    rw [if_pos rfl, if_pos rfl]
  · exact pending_of_ne messages hgetting

/-- A new message in a queue is the last one that can be returned. -/
theorem pending_put_iff :
    call.pending current (Function.update contents queue (contents queue ++ [data])) ++
        Function.update contents queue (contents queue ++ [data]) current =
      call.pending current contents ++ contents current ++ [data] ↔
      queue = current ∨ (call.getting = some queue ∧ contents queue = [] ∧
        ∀ message ∈ contents current, message = data) := by
  by_cases hqueue : queue = current
  · -- The usual case.
    subst hqueue
    rw [pending_current, Function.update_self, List.append_assoc]
    exact iff_of_true rfl (Or.inl rfl)
  rw [or_iff_right hqueue, Function.update_of_ne (Ne.symm hqueue)]
  by_cases hgetting : call.getting = some queue
  · rw [and_iff_right hgetting, pending, pending, hgetting]
    dsimp only
    rw [if_neg hqueue, if_neg hqueue, Function.update_self]
    cases contents queue with
    | nil =>
        -- `get()` takes the new message before those of the present queue.
        rw [and_iff_right rfl, ← cons_eq_concat_iff]
        exact Iff.rfl
    | cons message messages =>
        -- The message waited for is another one.
        refine iff_of_false ?_ (by simp)
        intro h
        have hlength := congrArg List.length h
        simp at hlength
  · -- Nobody reads that queue any more.
    rw [pending_of_ne _ hgetting]
    refine iff_of_false ?_ (fun h => hgetting h.1)
    intro h
    have hlength := congrArg List.length h
    simp at hlength

end RecvDataPoint

namespace ReceivingClient

variable {s : ReceivingClient}

theorem contents_update (queue : Nat) (q : RecvQueue) :
    (fun j => (Function.update s.queues queue q j).contents) =
      Function.update s.contents queue q.contents :=
  Function.comp_update RecvQueue.contents s.queues queue q

/-- `get()` is called on a queue that was the present one. -/
def LookedUp (s : ReceivingClient) : Prop := ∀ queue ∈ s.call.getting, queue ≤ s.current

theorem conserved_putData_iff {queue : Nat} {data : List UInt8} {s' : ReceivingClient}
    (h : s.Conserved) (hexec : s.exec (.putData queue data) = some s') :
    s'.Conserved ↔ s.KeepsMessages (.putData queue data) := by
  obtain rfl := Option.some.inj hexec
  show s.returned ++ (s.call.dataList ++ (s.call.pending s.current
      (fun j => (Function.update s.queues queue _ j).contents) ++
        (fun j => (Function.update s.queues queue _ j).contents) s.current)) =
    (if _ then s.put else s.put ++ [data]) ↔ _ ∨ _
  rw [contents_update, RecvQueue.contents_putData]
  by_cases hfull : (s.queues queue).full = true
  · rw [if_pos hfull, if_pos hfull]
    have hsame : Function.update s.contents queue (s.queues queue).contents = s.contents :=
      Function.update_eq_self queue s.contents
    rw [hsame]
    exact iff_of_true h (Or.inl hfull)
  · rw [if_neg hfull, if_neg hfull, or_iff_right hfull, ← h, canReturn]
    simp only [List.append_assoc, List.append_cancel_left_eq]
    rw [← List.append_assoc]
    exact RecvDataPoint.pending_put_iff

/-- `get()` takes the first message that can still be returned after those in hand. -/
theorem conserved_get {queue : Nat} {dataList : List (List UInt8)} {data : List UInt8}
    {rest : RecvQueue} (h : s.Conserved) (hcall : s.call = .get queue dataList)
    (hget : (s.queues queue).get = some (data, rest)) :
    Conserved { s with
      queues := Function.update s.queues queue rest
      call := .lookupEmpty (dataList ++ [data]) } := by
  have hcontents : s.contents queue = data :: rest.contents := RecvQueue.contents_get hget
  rw [Conserved, canReturn, hcall] at h
  show s.returned ++ (dataList ++ [data] ++
    ([] ++ (fun j => (Function.update s.queues queue rest j).contents) s.current)) = s.put
  rw [contents_update, ← h, List.nil_append, List.append_assoc dataList [data]]
  show s.returned ++ (dataList ++ (data :: Function.update s.contents queue _ s.current)) =
    s.returned ++ (dataList ++
      ((if queue = s.current then [] else (s.contents queue).take 1) ++ s.contents s.current))
  by_cases hqueue : queue = s.current
  · rw [if_pos hqueue, ← hqueue, Function.update_self, hcontents, List.nil_append]
  · -- An earlier queue: the message was the pending one.
    rw [if_neg hqueue, Function.update_of_ne (Ne.symm hqueue), hcontents]
    rfl

/-- `recvData` loses nothing. -/
theorem conserved_execRecvData {s' : ReceivingClient} (h : s.Conserved)
    (hexec : s.execRecvData = some s') : s'.Conserved := by
  obtain ⟨running, needToRestart, queues, current, restart, call, returned, put⟩ := s
  cases call with
  | idle =>
      dsimp only [execRecvData] at hexec
      split at hexec <;> obtain rfl := Option.some.inj hexec <;> exact h
  | testRunning =>
      dsimp only [execRecvData] at hexec
      split at hexec <;> obtain rfl := Option.some.inj hexec <;> exact h
  | lookupEmpty dataList =>
      obtain rfl := Option.some.inj hexec
      exact h
  | empty queue dataList =>
      dsimp only [execRecvData] at hexec
      split at hexec
      · -- The messages in hand are returned.
        obtain rfl := Option.some.inj hexec
        have hreturned : returned ++ (dataList ++ (queues current).contents) = put := h
        rw [← List.append_assoc] at hreturned
        exact hreturned
      · obtain rfl := Option.some.inj hexec
        exact h
  | lookupGet dataList =>
      obtain rfl := Option.some.inj hexec
      show returned ++ (dataList ++
        ((if current = current then [] else (queues current).contents.take 1) ++
          (queues current).contents)) = put
      rw [if_pos rfl]
      exact h
  | get queue dataList =>
      dsimp only [execRecvData] at hexec
      cases hget : (queues queue).get with
      | none =>
          rw [hget] at hexec
          exact absurd hexec (by simp)
      | some result =>
          obtain ⟨data, rest⟩ := result
          rw [hget] at hexec
          obtain rfl := Option.some.inj hexec
          exact conserved_get h rfl hget

/-- A new receive thread has an empty queue, so what was in the present one is lost. -/
theorem conserved_newRecvThread_iff (h : s.Conserved) (hlooked : s.LookedUp) :
    Conserved { s with
        queues := Function.update s.queues (s.current + 1) .initial
        current := s.current + 1
        restart := .setRunning } ↔
      (s.contents s.current).length ≤ if s.call.getting = some s.current then 1 else 0 := by
  have hnot : s.call.getting ≠ some (s.current + 1) := by
    intro hgetting
    have hle := hlooked _ hgetting
    omega
  have hempty : RecvQueue.initial.contents = [] := rfl
  show s.returned ++ (s.call.dataList ++ (s.call.pending (s.current + 1)
      (fun j => (Function.update s.queues (s.current + 1) RecvQueue.initial j).contents) ++
        (fun j => (Function.update s.queues (s.current + 1) RecvQueue.initial j).contents)
          (s.current + 1))) = s.put ↔ _
  rw [contents_update, hempty, RecvDataPoint.pending_of_ne _ hnot, Function.update_self,
    List.append_nil, ← h, canReturn, List.append_cancel_left_eq, List.append_cancel_left_eq]
  unfold RecvDataPoint.pending
  cases hgetting : s.call.getting with
  | none =>
      -- No `get()` is under way, so nothing of the present queue is kept.
      rw [if_neg (by simp), Nat.le_zero, List.length_eq_zero_iff]
      exact eq_comm
  | some queue =>
      have hle : queue ≤ s.current := hlooked queue hgetting
      have hne : queue ≠ s.current + 1 := by omega
      dsimp only
      rw [if_neg hne]
      by_cases hqueue : queue = s.current
      · -- One message of the queue is still taken.
        rw [hqueue, if_pos rfl, if_pos rfl, List.nil_append]
        constructor
        · intro htake
          rw [← htake]
          exact List.length_take_le 1 _
        · exact List.take_of_length_le
      · rw [if_neg hqueue, if_neg (by simpa using hqueue), Nat.le_zero, List.length_eq_zero_iff]
        constructor
        · intro htake
          exact List.self_eq_append_right.mp htake
        · intro hnil
          rw [hnil, List.append_nil]

theorem conserved_execRestart_iff (connected : Bool) (h : s.Conserved) (hlooked : s.LookedUp) :
    (s.execRestart connected).Conserved ↔ s.KeepsMessages (.restartClient connected) := by
  rw [execRestart, KeepsMessages]
  cases hpoint : s.restart with
  | idle => exact iff_of_true h (by simp)
  | deinitClient => exact iff_of_true h (by simp)
  | connect => exact iff_of_true h (by simp)
  | newRecvThread =>
      rw [forall_prop_of_true rfl]
      exact conserved_newRecvThread_iff h hlooked
  | setRunning => exact iff_of_true h (by simp)
  | clearRestart => exact iff_of_true h (by simp)

theorem lookedUp_of_none (hnone : s.call.getting = none) : s.LookedUp := by
  intro queue hqueue
  rw [hnone] at hqueue
  exact absurd hqueue (by simp)

theorem LookedUp.execRecvData {s' : ReceivingClient} (hexec : s.execRecvData = some s') :
    s'.LookedUp := by
  obtain ⟨running, needToRestart, queues, current, restart, call, returned, put⟩ := s
  cases call with
  | idle =>
      dsimp only [ReceivingClient.execRecvData] at hexec
      split at hexec <;> obtain rfl := Option.some.inj hexec <;> exact lookedUp_of_none rfl
  | testRunning =>
      dsimp only [ReceivingClient.execRecvData] at hexec
      split at hexec <;> obtain rfl := Option.some.inj hexec <;> exact lookedUp_of_none rfl
  | lookupEmpty dataList =>
      obtain rfl := Option.some.inj hexec
      exact lookedUp_of_none rfl
  | empty queue dataList =>
      dsimp only [ReceivingClient.execRecvData] at hexec
      split at hexec <;> obtain rfl := Option.some.inj hexec <;> exact lookedUp_of_none rfl
  | lookupGet dataList =>
      obtain rfl := Option.some.inj hexec
      intro queue hqueue
      obtain rfl : current = queue := Option.some.inj hqueue
      exact Nat.le_refl current
  | get queue dataList =>
      dsimp only [ReceivingClient.execRecvData] at hexec
      split at hexec
      · exact absurd hexec (by simp)
      · obtain rfl := Option.some.inj hexec
        exact lookedUp_of_none rfl

theorem LookedUp.execRestart (connected : Bool) (h : s.LookedUp) :
    (s.execRestart connected).LookedUp := by
  rw [ReceivingClient.execRestart]
  cases s.restart with
  | newRecvThread =>
      intro queue hqueue
      exact Nat.le_succ_of_le (h queue hqueue)
  | idle => exact h
  | deinitClient => exact h
  | connect => exact h
  | setRunning => exact h
  | clearRestart => exact h

theorem lookedUp_of_reachable (hreach : receivingMachine.Reachable s) : s.LookedUp := by
  refine hreach.invariant LookedUp (lookedUp_of_none rfl) ?_
  intro t hstep h
  have hnext := hstep.of_map fun _ _ => rfl
  obtain ⟨pre, event, output, post⟩ := t
  dsimp only at h hnext ⊢
  cases event with
  | putData queue data =>
      obtain rfl := Option.some.inj hnext
      exact h
  | sendError =>
      obtain rfl := Option.some.inj hnext
      exact h
  | recvData => exact LookedUp.execRecvData hnext
  | restartClient connected =>
      obtain rfl := Option.some.inj hnext
      exact h.execRestart connected

/-- **One step.**  The condition decides whether a step loses a message. -/
theorem conserved_step_iff {t : Transition ReceivingClient ReceivingEvent Unit}
    (hstep : receivingMachine.Step t) (hreach : receivingMachine.Reachable t.pre)
    (h : t.pre.Conserved) : t.post.Conserved ↔ t.pre.KeepsMessages t.event := by
  have hlooked := lookedUp_of_reachable hreach
  have hnext := hstep.of_map fun _ _ => rfl
  obtain ⟨pre, event, output, post⟩ := t
  dsimp only at h hlooked hnext ⊢
  cases event with
  | putData queue data => exact conserved_putData_iff h hnext
  | sendError =>
      obtain rfl := Option.some.inj hnext
      exact iff_of_true h trivial
  | recvData => exact iff_of_true (conserved_execRecvData h hnext) trivial
  | restartClient connected =>
      obtain rfl := Option.some.inj hnext
      exact conserved_execRestart_iff connected h hlooked

end ReceivingClient

/-! ## Runs -/

/-- **Messages across restarts.**  In every state of a run the messages returned and those
that can still be returned are all that were put, in order, exactly when every step meets the
condition. -/
theorem messages_conserved_iff {trace : List (Transition ReceivingClient ReceivingEvent Unit)}
    {s : ReceivingClient} (hrun : receivingMachine.Run trace s) :
    (∀ σ ∈ receivingMachine.visited trace, σ.Conserved) ↔
      ∀ t ∈ trace, t.pre.KeepsMessages t.event :=
  hrun.exact_visited ReceivingClient.Conserved ReceivingClient.KeepsMessages rfl
    fun _ hstep hreach h => ReceivingClient.conserved_step_iff hstep hreach h

/-- `restartClient`, with a connection at the first attempt. -/
def restartOnce : List ReceivingEvent := List.replicate 6 (.restartClient true)

/-- A call of `recvData` that finds one message. -/
def recvDataOne : List ReceivingEvent := List.replicate 7 .recvData

/-- A message is returned before the restart and another one after it. -/
theorem messages_conserved_read_before_restart :
    ∃ trace s, receivingMachine.Run trace s ∧
      trace.map Transition.event = .putData 0 [104] :: recvDataOne ++ restartOnce ++
        .putData 1 [105] :: recvDataOne ∧
      s.returned = [[104], [105]] ∧
      ∀ σ ∈ receivingMachine.visited trace, σ.Conserved := by
  have hreplay : ∃ s, receivingMachine.replay
      (fun s event => decide (receivingMachine.enabled s event ∧ s.KeepsMessages event))
      (.putData 0 [104] :: recvDataOne ++ restartOnce ++ .putData 1 [105] :: recvDataOne)
      .start = some s ∧ s.returned = [[104], [105]] := ⟨_, rfl, rfl⟩
  obtain ⟨s, hs, hreturned⟩ := hreplay
  obtain ⟨trace, hrun, hevents, hguards⟩ :=
    Machine.Run.replay (fun _ _ hready => (of_decide_eq_true hready).1) .start hs
  refine ⟨trace, s, hrun, hevents, hreturned, ?_⟩
  exact (messages_conserved_iff hrun).mpr fun t ht => (of_decide_eq_true (hguards t ht)).2

/-- A message that is not read before the restart can no longer be returned. -/
theorem message_lost_in_restart :
    ∃ s, receivingMachine.Reachable s ∧ s.restart = .idle ∧ s.call = .idle ∧
      s.put = [[104]] ∧ s.returned = [] ∧ s.canReturn = [] ∧ ¬ s.Conserved := by
  have hreplay : ∃ s, receivingMachine.replay
      (fun s event => decide (receivingMachine.enabled s event))
      (.putData 0 [104] :: restartOnce) .start = some s ∧ s.restart = .idle ∧
      s.call = .idle ∧ s.put = [[104]] ∧ s.returned = [] ∧ s.canReturn = [] :=
    ⟨_, rfl, rfl, rfl, rfl, rfl, rfl⟩
  obtain ⟨s, hs, hrestart, hcall, hput, hreturned, hcan⟩ := hreplay
  refine ⟨s, Machine.Reachable.replay (fun _ _ => of_decide_eq_true) ⟨[], .start⟩ hs, hrestart,
    hcall, hput, hreturned, hcan, ?_⟩
  rw [ReceivingClient.Conserved, hreturned, hcan, hput]
  decide

end PythonClient
end StupidP2P
