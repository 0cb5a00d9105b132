import StupidP2P.Client.SendFifo
import StupidP2P.Foundation.Mutex

/-!
# The lock of the send queue

`send_command_fifo_push` locks the mutex of the queue, fills the slot, moves `w_ptr` on,
counts and unlocks.  `send_command_fifo_pop` begins with `pthread_mutex_unlock`, where a
lock is meant: it never owns the mutex, and if a push is under way it releases the mutex of
that push.

Here every thread may stop after each of these steps.  `num++` and `num--` are a read and a
write.  POSIX does not say what it means to unlock a mutex one does not own; the mutex is
taken to be free afterwards, as with the default mutex of Linux.

Exclusion, ownership and the count all hold until the first `pop` (`send_queue_lock_iff`,
first part).  Exclusion and the count alone need less: that no `pop` begins during a `push`
and no `push` during a `pop` (second part).  As long as that is so, the queue is what the
calls make of it one after the other (`serial_of_apart`).
-/

namespace StupidP2P
namespace Client

open Foundation

/-- Any number of threads that push, and the send thread. -/
inductive SendThread (ι : Type)
  | pusher (i : ι)
  | popper
deriving DecidableEq

/-- How far a call has come since its first call on the mutex. -/
inductive Stage
  | entered
  /-- The slot is filled, or its buffer freed. -/
  | slot
  /-- The pointer has moved on. -/
  | pointer
  /-- `num` was read. -/
  | loaded (num : Int)
  /-- `num` was written. -/
  | counted

/-- The queue and the buffers freed so far. -/
structure SendMemory (β : Type) where
  fifo : SendCommandFifo β
  freed : List β

namespace SendMemory

variable {β : Type}

def initial : SendMemory β := ⟨sendCommandFifoInit, []⟩

def setRing (m : SendMemory β) (ring : Ring netSendCommandNum (NetWorkCommand β)) :
    SendMemory β :=
  { m with fifo := { m.fifo with ring := ring } }

def setNum (m : SendMemory β) (num : Int) : SendMemory β :=
  { m with fifo := { m.fifo with num := num } }

def free (m : SendMemory β) (data : Option β) : SendMemory β :=
  { m with freed := m.freed ++ data.toList }

/-- A whole call, as the other modules have it. -/
def call (m : SendMemory β) : SendEvent β → SendMemory β
  | .push data size =>
      ⟨(sendCommandFifoPush m.fifo data size).1,
        m.freed ++ (sendCommandFifoPush m.fifo data size).2⟩
  | .pop => ⟨(sendCommandFifoPop m.fifo).1, m.freed ++ (sendCommandFifoPop m.fifo).2⟩

/-- What `num++` or `num--` makes of the value read. -/
def counted : SendEvent β → Int → Int
  | .push _ _, num => num + 1
  | .pop, num => num - 1

/-- The next step of a call. -/
def step (m : SendMemory β) : SendEvent β → Stage → SendMemory β
  | .push data size, .entered =>
      (m.free m.fifo.ring.behind.data).setRing (m.fifo.ring.store ⟨some data, size⟩)
  | .pop, .entered => m.free m.fifo.ring.front.data
  | .push _ _, .slot => m.setRing m.fifo.ring.moveOn
  | .pop, .slot => m.setRing m.fifo.ring.skip
  | _, .pointer => m
  | call, .loaded num => m.setNum (wrap32 (counted call num))
  | _, .counted => m

end SendMemory

/-- Where the step leads; behind the last one is the way out. -/
def Stage.next (num : Int) : Stage → Option Stage
  | .entered => some .slot
  | .slot => some .pointer
  | .pointer => some (.loaded num)
  | .loaded _ => some .counted
  | .counted => none

/-- The queue, its mutex and the threads.  The last three fields are records: the calls in
the order in which they began, and how many of them have counted. -/
structure SendQueue (ι β : Type) where
  memory : SendMemory β
  sections : Sections (SendThread ι) (SendEvent β × Stage)
  log : List (SendEvent β)
  pushes : Nat
  pops : Nat

inductive LockEvent (ι β : Type)
  /-- `pthread_mutex_lock` of `send_command_fifo_push`. -/
  | push (i : ι) (data : β) (size : Int)
  /-- The first `pthread_mutex_unlock` of `send_command_fifo_pop`. -/
  | pop
  /-- A thread goes on with its call. -/
  | go (who : SendThread ι)

namespace SendQueue

variable {ι β : Type}

def initial : SendQueue ι β := ⟨.initial, .idle, [], 0, 0⟩

def num (s : SendQueue ι β) : Int := s.memory.fifo.num

/-- A call of `push` that counts. -/
def countsPush : SendEvent β → Stage → Nat
  | .push _ _, .loaded _ => 1
  | _, _ => 0

def countsPop : SendEvent β → Stage → Nat
  | .pop, .loaded _ => 1
  | _, _ => 0

variable [DecidableEq ι]

/-- `pthread_mutex_lock` in `send_command_fifo_push`. -/
def beginPush (s : SendQueue ι β) (i : ι) (data : β) (size : Int) : SendQueue ι β :=
  { s with
    sections := (s.sections.move (.pusher i) (some (.push data size, .entered))).setOwner
      (some (.pusher i))
    log := s.log ++ [.push data size] }

/-- The first `pthread_mutex_unlock` in `send_command_fifo_pop`. -/
def beginPop (s : SendQueue ι β) : SendQueue ι β :=
  { s with
    sections := (s.sections.move .popper (some (.pop, .entered))).setOwner none
    log := s.log ++ [.pop] }

/-- The section after a step; the last step of both calls is `pthread_mutex_unlock`. -/
def goOn (sections : Sections (SendThread ι) (SendEvent β × Stage)) (who : SendThread ι)
    (call : SendEvent β) : Option Stage → Sections (SendThread ι) (SendEvent β × Stage)
  | some stage => sections.move who (some (call, stage))
  | none => (sections.move who none).setOwner none

/-- The thread takes the next step of its call. -/
def go (s : SendQueue ι β) (who : SendThread ι) (call : SendEvent β) (stage : Stage) :
    SendQueue ι β where
  memory := s.memory.step call stage
  sections := goOn s.sections who call (stage.next s.num)
  log := s.log
  pushes := s.pushes + countsPush call stage
  pops := s.pops + countsPop call stage

def exec (s : SendQueue ι β) : LockEvent ι β → Option (SendQueue ι β)
  | .push i data size => some (s.beginPush i data size)
  | .pop => some s.beginPop
  | .go who =>
      match s.sections.place who with
      | none => none
      | some (call, stage) => some (s.go who call stage)

/-- A push waits until the mutex is free; a pop does not wait for it. -/
def Enabled (s : SendQueue ι β) : LockEvent ι β → Prop
  | .push i _ _ => s.sections.owner = none ∧ s.sections.place (.pusher i) = none
  | .pop => s.sections.place .popper = none
  | .go who => s.sections.place who ≠ none

end SendQueue

open SendQueue

/-- Threads that push and the one that pops, step by step. -/
def sendLockMachine (ι β : Type) [DecidableEq ι] :
    Machine (SendQueue ι β) (LockEvent ι β) Unit where
  init := .initial
  enabled := Enabled
  exec s event := (s.exec event).map (·, ())

/-- The guard of the machine, decided. -/
def SendQueue.ready {ι β : Type} [DecidableEq ι] (s : SendQueue ι β) : LockEvent ι β → Bool
  | .push i _ _ => s.sections.owner.isNone && (s.sections.place (.pusher i)).isNone
  | .pop => (s.sections.place .popper).isNone
  | .go who => (s.sections.place who).isSome

theorem enabled_of_ready {ι β : Type} [DecidableEq ι] (s : SendQueue ι β)
    (event : LockEvent ι β) (h : s.ready event = true) : s.Enabled event := by
  cases event with
  | push i data size =>
      rw [SendQueue.ready, Bool.and_eq_true, Option.isNone_iff_eq_none,
        Option.isNone_iff_eq_none] at h
      exact h
  | pop => exact Option.isNone_iff_eq_none.mp h
  | go who => exact Option.isSome_iff_ne_none.mp h

/-! ## What is to hold -/

section

variable {ι β : Type}

/-- `num` is the number of pushes that have counted without the pops that have. -/
def SendQueue.CountRight (s : SendQueue ι β) : Prop := s.num = s.pushes - s.pops

/-- At most one thread is between the entry and the exit of its update section, that thread
owns the mutex, and the count is right. -/
structure SendQueue.LockKept (s : SendQueue ι β) : Prop where
  exclusive : s.sections.Exclusive
  owned : s.sections.Owned
  count : s.CountRight

/-- The thread releases the mutex in this step. -/
def SendQueue.Releases (s : SendQueue ι β) : LockEvent ι β → SendThread ι → Prop
  | .push _ _ _, _ => False
  | .pop, who => who = .popper
  | .go who', who => who = who' ∧ ∃ call, s.sections.place who = some (call, .counted)

/-- Only the owner does. -/
def OwnerReleases (t : Transition (SendQueue ι β) (LockEvent ι β) Unit) : Prop :=
  ∀ who, t.pre.Releases t.event who → t.pre.sections.owner = some who

/-- The new value of `num` is one an `int32_t` can hold. -/
def CountFits (s : SendQueue ι β) (event : LockEvent ι β) : Prop :=
  ∀ who call num, event = .go who → s.sections.place who = some (call, .loaded num) →
    -2147483648 ≤ SendMemory.counted call num ∧ SendMemory.counted call num < 2147483648

/-- No pop begins during a push, and no push during a pop. -/
def SectionsApart (s : SendQueue ι β) : LockEvent ι β → Prop
  | .push _ _ _ => ¬ s.sections.Inside .popper
  | .pop => ∀ i, ¬ s.sections.Inside (.pusher i)
  | .go _ => True

/-- The part of the invariant that the mutex is about. -/
structure SendQueue.Locked (s : SendQueue ι β) : Prop where
  exclusive : s.sections.Exclusive
  pushers : ∀ i, s.sections.Inside (.pusher i) → s.sections.owner = some (.pusher i)
  popper : s.sections.owner ≠ some .popper

/-- A free mutex means that no push is under way. -/
theorem SendQueue.Locked.not_inside_of_free {s : SendQueue ι β} (h : s.Locked)
    (hfree : s.sections.owner = none) (i : ι) : ¬ s.sections.Inside (.pusher i) := by
  intro hinside
  have howner := h.pushers i hinside
  rw [hfree] at howner
  exact absurd howner (by simp)

theorem locked_initial : (SendQueue.initial : SendQueue ι β).Locked where
  exclusive := fun who _ hinside _ => absurd hinside (Sections.not_inside_idle who)
  pushers := fun i hinside => absurd hinside (Sections.not_inside_idle (SendThread.pusher i))
  popper := by simp [SendQueue.initial, Sections.idle]

/-! ## One step -/

variable [DecidableEq ι] {s : SendQueue ι β} {t : Transition (SendQueue ι β) (LockEvent ι β) Unit}

/-- The three kinds of step. -/
theorem sendLock_cases (hstep : (sendLockMachine ι β).Step t) :
    (∃ i data size, t.event = .push i data size ∧ t.pre.Enabled t.event ∧
        t.post = t.pre.beginPush i data size) ∨
      (t.event = .pop ∧ t.pre.Enabled t.event ∧ t.post = t.pre.beginPop) ∨
      ∃ who call stage, t.event = .go who ∧ t.pre.sections.place who = some (call, stage) ∧
        t.post = t.pre.go who call stage := by
  obtain ⟨henabled, hexec⟩ := hstep
  obtain ⟨pre, event, output, post⟩ := t
  simp only [sendLockMachine, Option.map_eq_some_iff, Prod.mk.injEq] at henabled hexec
  obtain ⟨next, hnext, rfl, -⟩ := hexec
  cases event with
  | push i data size =>
      exact .inl ⟨i, data, size, rfl, henabled, (Option.some.inj hnext).symm⟩
  | pop => exact .inr (.inl ⟨rfl, henabled, (Option.some.inj hnext).symm⟩)
  | go who =>
      cases hplace : pre.sections.place who with
      | none => exact absurd hplace henabled
      | some place =>
          obtain ⟨call, stage⟩ := place
          simp only [SendQueue.exec, hplace, Option.some.injEq] at hnext
          exact .inr (.inr ⟨who, call, stage, rfl, hplace, hnext.symm⟩)

omit [DecidableEq ι] in
/-- **The entries.**  A push that takes the mutex is alone unless a pop is under way. -/
theorem alone_push_iff {i : ι} {data : β} {size : Int} (h : s.Locked)
    (henabled : s.Enabled (.push i data size)) :
    (∀ who, ¬ s.sections.Inside who) ↔ ¬ s.sections.Inside .popper := by
  constructor
  · intro hnone
    exact hnone .popper
  · intro hpopper who
    cases who with
    | pusher j => exact h.not_inside_of_free henabled.1 j
    | popper => exact hpopper

omit [DecidableEq ι] in
theorem alone_pop_iff (henabled : s.Enabled .pop) :
    (∀ who, ¬ s.sections.Inside who) ↔ ∀ i, ¬ s.sections.Inside (.pusher i) := by
  constructor
  · intro hnone i
    exact hnone (.pusher i)
  · intro hpushers who
    cases who with
    | pusher i => exact hpushers i
    | popper => exact fun hinside => hinside henabled

theorem exclusive_beginPush_iff {i : ι} {data : β} {size : Int} (h : s.Locked)
    (henabled : s.Enabled (.push i data size)) :
    (s.beginPush i data size).sections.Exclusive ↔ ¬ s.sections.Inside .popper := by
  rw [beginPush, Sections.exclusive_setOwner,
    Sections.exclusive_enter_iff (fun hinside => hinside henabled.2), alone_push_iff h henabled]

theorem exclusive_beginPop_iff (henabled : s.Enabled .pop) :
    s.beginPop.sections.Exclusive ↔ ∀ i, ¬ s.sections.Inside (.pusher i) := by
  rw [beginPop, Sections.exclusive_setOwner,
    Sections.exclusive_enter_iff (fun hinside => hinside henabled), alone_pop_iff henabled]

theorem locked_beginPush {i : ι} {data : β} {size : Int} (h : s.Locked)
    (henabled : s.Enabled (.push i data size)) (hpopper : ¬ s.sections.Inside .popper) :
    (s.beginPush i data size).Locked where
  exclusive := (exclusive_beginPush_iff h henabled).mpr hpopper
  pushers := by
    intro j hinside
    have hexclusive : (s.beginPush i data size).sections.Exclusive :=
      (exclusive_beginPush_iff h henabled).mpr hpopper
    have hself : (s.beginPush i data size).sections.Inside (.pusher i) :=
      Sections.inside_of_place Sections.place_move_self
    rw [hexclusive _ _ hinside hself]
    rfl
  popper := by simp [beginPush, Sections.setOwner]

theorem locked_beginPop (henabled : s.Enabled .pop)
    (hpushers : ∀ i, ¬ s.sections.Inside (.pusher i)) : s.beginPop.Locked where
  exclusive := (exclusive_beginPop_iff henabled).mpr hpushers
  pushers := by
    intro i hinside
    rw [beginPop, Sections.inside_setOwner, Sections.inside_move_of_ne (by simp)] at hinside
    exact absurd hinside (hpushers i)
  popper := by simp [beginPop, Sections.setOwner]

/-- Going on keeps exclusion whatever comes. -/
theorem locked_go {who : SendThread ι} {call : SendEvent β} {stage : Stage} (h : s.Locked)
    (hplace : s.sections.place who = some (call, stage)) : (s.go who call stage).Locked := by
  have hinside := Sections.inside_of_place hplace
  unfold go goOn
  cases stage.next s.num with
  | some next =>
      exact ⟨h.exclusive.move hinside _,
        fun i hi => h.pushers i (Sections.inside_of_move hinside hi), h.popper⟩
  | none =>
      exact ⟨h.exclusive.move hinside _,
        fun i hi => absurd hi (h.exclusive.not_inside_leave hinside _), by
          simp [Sections.setOwner]⟩

/-- **What a step does to the mutex**: it keeps exclusion exactly if it does not begin a call
during one of the other kind. -/
theorem locked_step (hstep : (sendLockMachine ι β).Step t) (h : t.pre.Locked) :
    (t.post.sections.Exclusive ↔ SectionsApart t.pre t.event) ∧
      (SectionsApart t.pre t.event → t.post.Locked) := by
  rcases sendLock_cases hstep with ⟨i, data, size, hevent, henabled, hpost⟩ |
    ⟨hevent, henabled, hpost⟩ | ⟨who, call, stage, hevent, hplace, hpost⟩
  · rw [hevent] at henabled ⊢
    rw [hpost]
    exact ⟨exclusive_beginPush_iff h henabled, locked_beginPush h henabled⟩
  · rw [hevent] at henabled ⊢
    rw [hpost]
    exact ⟨exclusive_beginPop_iff henabled, locked_beginPop henabled⟩
  · rw [hevent, hpost]
    have hlocked := locked_go h hplace
    exact ⟨iff_of_true hlocked.exclusive trivial, fun _ => hlocked⟩

/-! ## The count -/

/-- What is kept while no call begins during one of the other kind and `num` has room: a
value that was read is still the value. -/
structure SendQueue.Inv (s : SendQueue ι β) : Prop extends s.Locked where
  loaded : ∀ who call num, s.sections.place who = some (call, .loaded num) → num = s.num
  count : s.CountRight

omit [DecidableEq ι] in
theorem inv_initial : (SendQueue.initial : SendQueue ι β).Inv where
  toLocked := locked_initial
  loaded := fun who _ _ hplace =>
    absurd (Sections.inside_of_place hplace) (Sections.not_inside_idle who)
  count := rfl

/-- Only the step that writes `num` changes it, or the numbers of calls. -/
theorem step_of_not_loaded {m : SendMemory β} {call : SendEvent β} {stage : Stage}
    (h : ∀ num, stage ≠ .loaded num) :
    (m.step call stage).fifo.num = m.fifo.num ∧ countsPush call stage = 0 ∧
      countsPop call stage = 0 := by
  cases stage with
  | loaded num => exact absurd rfl (h num)
  | entered => cases call <;> exact ⟨rfl, rfl, rfl⟩
  | slot => cases call <;> exact ⟨rfl, rfl, rfl⟩
  | pointer => cases call <;> exact ⟨rfl, rfl, rfl⟩
  | counted => cases call <;> exact ⟨rfl, rfl, rfl⟩

/-- **Counting** is right exactly if the new value fits. -/
theorem countRight_go_iff {who : SendThread ι} {call : SendEvent β} {stage : Stage}
    (hloaded : ∀ num, stage = .loaded num → num = s.num) (hcount : s.CountRight) :
    (s.go who call stage).CountRight ↔ ∀ num, stage = .loaded num →
      -2147483648 ≤ SendMemory.counted call num ∧ SendMemory.counted call num < 2147483648 := by
  unfold CountRight at hcount ⊢
  by_cases hstage : ∃ num, stage = .loaded num
  · obtain ⟨num, rfl⟩ := hstage
    have hpost : ((s.go who call (.loaded num)).pushes : Int) -
        (s.go who call (.loaded num)).pops = SendMemory.counted call num := by
      rw [hloaded num rfl, hcount]
      cases call with
      | push data size =>
          simp only [go, countsPush, countsPop, SendMemory.counted]
          omega
      | pop =>
          simp only [go, countsPush, countsPop, SendMemory.counted]
          omega
    have hwrap : (s.go who call (.loaded num)).num = wrap32 (SendMemory.counted call num) := by
      cases call <;> rfl
    rw [hpost, hwrap, wrap32_eq_iff]
    simp
  · have hnone : ∀ num, stage ≠ .loaded num := fun num heq => hstage ⟨num, heq⟩
    obtain ⟨hnum, hpush, hpop⟩ := @step_of_not_loaded _ s.memory call stage hnone
    refine iff_of_true ?_ (fun num heq => absurd heq (hnone num))
    simp only [go, hpush, hpop, Nat.add_zero]
    exact hnum.trans hcount

/-- The value a thread has read stays right, since no other thread is there to change it. -/
theorem loaded_go {who : SendThread ι} {call : SendEvent β} {stage : Stage} (h : s.Locked)
    (hplace : s.sections.place who = some (call, stage)) :
    ∀ other call' num, (s.go who call stage).sections.place other = some (call', .loaded num) →
      num = (s.go who call stage).num := by
  intro other call' num hother
  have hinside := Sections.inside_of_place hplace
  have hsame : other = who := by
    by_contra hne
    have hbefore : s.sections.place other = some (call', .loaded num) := by
      rw [← hother]
      unfold go goOn
      cases stage.next s.num with
      | some next => exact (Sections.place_move_of_ne hne).symm
      | none => exact (Sections.place_move_of_ne hne).symm
    exact hne (h.exclusive other who (Sections.inside_of_place hbefore) hinside)
  subst hsame
  cases stage with
  | pointer =>
      have hnext : (s.go other call .pointer).sections.place other =
          some (call, .loaded s.num) := Sections.place_move_self
      rw [hnext] at hother
      simp only [Option.some.injEq, Prod.mk.injEq, Stage.loaded.injEq] at hother
      rw [← hother.2]
      cases call <;> rfl
  | entered =>
      have hnext : (s.go other call .entered).sections.place other = some (call, .slot) :=
        Sections.place_move_self
      simp [hnext] at hother
  | slot =>
      have hnext : (s.go other call .slot).sections.place other = some (call, .pointer) :=
        Sections.place_move_self
      simp [hnext] at hother
  | loaded read =>
      have hnext : (s.go other call (.loaded read)).sections.place other =
          some (call, .counted) := Sections.place_move_self
      simp [hnext] at hother
  | counted =>
      have hnext : (s.go other call .counted).sections.place other = none :=
        Sections.place_move_self
      simp [hnext] at hother

/-- Beginning a call leaves the others where they are, and the new one has read nothing. -/
theorem loaded_enter {sections : Sections (SendThread ι) (SendEvent β × Stage)}
    {who other : SendThread ι} {owner : Option (SendThread ι)} {call call' : SendEvent β}
    {num : Int}
    (h : ((sections.move who (some (call, .entered))).setOwner owner).place other =
      some (call', .loaded num)) : sections.place other = some (call', .loaded num) := by
  rw [Sections.place_setOwner] at h
  by_cases hwho : other = who
  · rw [hwho, Sections.place_move_self] at h
    simp at h
  · rwa [Sections.place_move_of_ne hwho] at h

/-- A call that begins changes neither `num` nor the numbers of calls. -/
theorem SendQueue.Inv.enter (h : s.Inv) (who : SendThread ι) (call : SendEvent β)
    (owner : Option (SendThread ι))
    (hlocked : SendQueue.Locked { s with
      sections := (s.sections.move who (some (call, .entered))).setOwner owner
      log := s.log ++ [call] }) :
    SendQueue.Inv { s with
      sections := (s.sections.move who (some (call, .entered))).setOwner owner
      log := s.log ++ [call] } where
  toLocked := hlocked
  loaded := fun other call' num hplace => h.loaded other call' num (loaded_enter hplace)
  count := h.count

omit [DecidableEq ι] in
theorem countFits_of_ne_go {event : LockEvent ι β} (h : ∀ who, event ≠ .go who) :
    CountFits s event :=
  fun who _ _ hgo => absurd hgo (h who)

/-- **What a step does to the count.** -/
theorem inv_step (hstep : (sendLockMachine ι β).Step t) (h : t.pre.Inv) :
    (t.post.CountRight ↔ CountFits t.pre t.event) ∧
      (SectionsApart t.pre t.event → CountFits t.pre t.event → t.post.Inv) := by
  have hlocked := (locked_step hstep h.toLocked).2
  rcases sendLock_cases hstep with ⟨i, data, size, hevent, -, hpost⟩ | ⟨hevent, -, hpost⟩ |
    ⟨who, call, stage, hevent, hplace, hpost⟩
  · have hfits : CountFits t.pre t.event := countFits_of_ne_go (by simp [hevent])
    have hentered := h.enter (.pusher i) (.push data size) (some (.pusher i))
    rw [hpost] at hlocked ⊢
    exact ⟨iff_of_true h.count hfits, fun hapart _ => hentered (hlocked hapart)⟩
  · have hfits : CountFits t.pre t.event := countFits_of_ne_go (by simp [hevent])
    have hentered := h.enter .popper .pop none
    rw [hpost] at hlocked ⊢
    exact ⟨iff_of_true h.count hfits, fun hapart _ => hentered (hlocked hapart)⟩
  · have hcount : t.post.CountRight ↔ CountFits t.pre t.event := by
      rw [hpost, countRight_go_iff (fun num hnum => h.loaded who call num (hnum ▸ hplace)) h.count]
      constructor
      · intro hfits who' call' num hgo hloaded
        rw [hevent, LockEvent.go.injEq] at hgo
        rw [← hgo, hplace, Option.some.injEq, Prod.mk.injEq] at hloaded
        exact hloaded.1 ▸ hfits num hloaded.2
      · intro hfits num hnum
        exact hfits who call num hevent (hnum ▸ hplace)
    refine ⟨hcount, fun hapart hfits => ⟨hlocked hapart, ?_, hcount.mpr hfits⟩⟩
    rw [hpost]
    exact loaded_go h.toLocked hplace

/-! ## One call after the other -/

/-- What a call makes of the memory from this stage on if no other thread comes between. -/
def SendMemory.finish (m : SendMemory β) (call : SendEvent β) : Stage → SendMemory β
  | .entered =>
      let m := (m.step call .entered).step call .slot
      m.step call (.loaded m.fifo.num)
  | .slot =>
      let m := m.step call .slot
      m.step call (.loaded m.fifo.num)
  | .pointer => m.step call (.loaded m.fifo.num)
  | .loaded num => m.step call (.loaded num)
  | .counted => m

/-- From the beginning it is the whole call. -/
theorem finish_entered (m : SendMemory β) (call : SendEvent β) :
    m.finish call .entered = m.call call := by
  cases call <;> rfl

theorem finish_next {m : SendMemory β} {call : SendEvent β} {stage next : Stage}
    (h : stage.next m.fifo.num = some next) :
    (m.step call stage).finish call next = m.finish call stage := by
  cases stage with
  | entered => cases h; rfl
  | slot => cases h; rfl
  | pointer => cases h; cases call <;> rfl
  | loaded num => cases h; rfl
  | counted => cases h

/-- The memory is what the calls make of it one after the other, in the order in which they
began; the last one may have to be finished. -/
structure SendQueue.Serial (s : SendQueue ι β) : Prop where
  idle : (∀ who, ¬ s.sections.Inside who) → s.memory = s.log.foldl SendMemory.call .initial
  busy : ∀ who call stage, s.sections.place who = some (call, stage) →
    s.memory.finish call stage = s.log.foldl SendMemory.call .initial

/-- A call that begins while no other is under way. -/
theorem SendQueue.Serial.enter (h : s.Serial) (hnone : ∀ who, ¬ s.sections.Inside who)
    (who : SendThread ι) (call : SendEvent β) (owner : Option (SendThread ι)) :
    SendQueue.Serial { s with
      sections := (s.sections.move who (some (call, .entered))).setOwner owner
      log := s.log ++ [call] } where
  idle := by
    intro hidle
    exact absurd (Sections.inside_of_place Sections.place_move_self) (hidle who)
  busy := by
    intro other call' stage hplace
    rw [Sections.place_setOwner] at hplace
    have hsame : other = who := by
      by_contra hne
      rw [Sections.place_move_of_ne hne] at hplace
      exact hnone other (Sections.inside_of_place hplace)
    rw [hsame, Sections.place_move_self, Option.some.injEq, Prod.mk.injEq] at hplace
    obtain ⟨rfl, rfl⟩ := hplace
    rw [finish_entered, h.idle hnone, List.foldl_append]
    rfl

/-- A call that goes on. -/
theorem SendQueue.Serial.go {who : SendThread ι} {call : SendEvent β} {stage : Stage}
    (h : s.Serial) (hexclusive : s.sections.Exclusive)
    (hplace : s.sections.place who = some (call, stage)) : (s.go who call stage).Serial := by
  have hinside := Sections.inside_of_place hplace
  have hbusy := h.busy who call stage hplace
  unfold SendQueue.go goOn
  cases hnext : stage.next s.num with
  | some next =>
      constructor
      · intro hidle
        exact absurd (Sections.inside_of_place Sections.place_move_self) (hidle who)
      · intro other call' stage' hother
        dsimp only at hother
        have hsame := hexclusive.move hinside (some (call, next)) other who
          (Sections.inside_of_place hother) (Sections.inside_of_place Sections.place_move_self)
        rw [hsame, Sections.place_move_self, Option.some.injEq, Prod.mk.injEq] at hother
        obtain ⟨rfl, rfl⟩ := hother
        exact (finish_next hnext).trans hbusy
  | none =>
      obtain rfl : stage = .counted := by
        cases stage <;> simp [Stage.next] at hnext
        rfl
      constructor
      · intro _
        cases call <;> exact hbusy
      · intro other call' stage' hother
        exact absurd (Sections.inside_of_place hother)
          (hexclusive.not_inside_leave hinside other)

/-- **Serial calls.**  As long as no call begins during one of the other kind, the queue is at
every moment what whole calls of `send_command_fifo_push` and `send_command_fifo_pop` make of
it, up to what the call under way has still to do. -/
theorem serial_of_apart {trace : List (Transition (SendQueue ι β) (LockEvent ι β) Unit)}
    (hrun : (sendLockMachine ι β).Run trace s)
    (hapart : ∀ t ∈ trace, SectionsApart t.pre t.event) :
    ∀ τ ∈ (sendLockMachine ι β).visited trace, τ.Serial := by
  have hboth := hrun.conditional_visited (fun s => s.Locked ∧ s.Serial) SectionsApart
    ⟨locked_initial, fun _ => rfl, fun who _ _ hplace =>
      absurd (Sections.inside_of_place hplace) (Sections.not_inside_idle who)⟩ ?_ hapart
  · exact fun τ hτ => (hboth τ hτ).2
  · rintro t hstep - ⟨hlocked, hserial⟩ hcond
    refine ⟨(locked_step hstep hlocked).2 hcond, ?_⟩
    rcases sendLock_cases hstep with ⟨i, data, size, hevent, henabled, hpost⟩ |
      ⟨hevent, henabled, hpost⟩ | ⟨who, call, stage, hevent, hplace, hpost⟩
    · rw [hevent] at henabled hcond
      rw [hpost]
      exact hserial.enter ((alone_push_iff hlocked henabled).mpr hcond) _ _ _
    · rw [hevent] at henabled hcond
      rw [hpost]
      exact hserial.enter ((alone_pop_iff henabled).mpr hcond) _ _ _
    · rw [hpost]
      exact hserial.go hlocked.exclusive hplace

/-! ## Runs without a pop -/

omit [DecidableEq ι] in
/-- While the send thread has not called `pop`, every thread in its section owns the mutex. -/
theorem SendQueue.Inv.lockKept (h : s.Inv) (hpopper : ¬ s.sections.Inside .popper) :
    s.LockKept where
  exclusive := h.exclusive
  owned := by
    intro who hinside
    cases who with
    | pusher i => exact h.pushers i hinside
    | popper => exact absurd hinside hpopper
  count := h.count

/-- Without a pop the popper stays outside, pushes need not wait for it, and what is
released is released by its owner. -/
theorem step_of_ne_pop (hstep : (sendLockMachine ι β).Step t) (h : t.pre.Inv)
    (hpopper : ¬ t.pre.sections.Inside .popper) (hevent : t.event ≠ .pop) :
    SectionsApart t.pre t.event ∧ ¬ t.post.sections.Inside .popper ∧ OwnerReleases t := by
  rcases sendLock_cases hstep with ⟨i, data, size, hpush, -, hpost⟩ | ⟨hpop, -⟩ |
    ⟨who, call, stage, hgo, hplace, hpost⟩
  · rw [OwnerReleases, hpush, hpost]
    refine ⟨hpopper, ?_, fun who hreleases => hreleases.elim⟩
    rwa [beginPush, Sections.inside_setOwner, Sections.inside_move_of_ne (by simp)]
  · exact absurd hpop hevent
  · have hinside := Sections.inside_of_place hplace
    rw [OwnerReleases, hgo, hpost]
    refine ⟨trivial, ?_, ?_⟩
    · unfold go goOn
      cases stage.next t.pre.num with
      | some next => exact fun hpost => hpopper (Sections.inside_of_move hinside hpost)
      | none => exact fun hpost => hpopper (Sections.inside_of_move hinside hpost)
    · rintro releaser ⟨rfl, -⟩
      exact (h.lockKept hpopper).owned releaser hinside

omit [DecidableEq ι] in
/-- The first statement of `pop` releases a mutex the send thread does not own. -/
theorem not_ownerReleases_pop (h : t.pre.Inv) (hevent : t.event = .pop) : ¬ OwnerReleases t := by
  intro hreleases
  exact h.popper (hreleases .popper (by rw [hevent]; rfl))

/-- **The lock of the send queue.**  In a run at most one thread is in its update section,
that thread owns the mutex, only the owner releases it and the count is right, all this in
every state and step, exactly if the run has no call of `pop` and `num` does not overflow.
One thread at a time and the right count alone are kept exactly if no `pop` begins during a
`push` and no `push` during a `pop`. -/
theorem send_queue_lock_iff {trace : List (Transition (SendQueue ι β) (LockEvent ι β) Unit)}
    (hrun : (sendLockMachine ι β).Run trace s) :
    (((∀ τ ∈ (sendLockMachine ι β).visited trace, τ.LockKept) ∧ ∀ t ∈ trace, OwnerReleases t) ↔
        ∀ t ∈ trace, t.event ≠ .pop ∧ CountFits t.pre t.event) ∧
      ((∀ τ ∈ (sendLockMachine ι β).visited trace, τ.sections.Exclusive ∧ τ.CountRight) ↔
        ∀ t ∈ trace, SectionsApart t.pre t.event ∧ CountFits t.pre t.event) := by
  have hinit : (SendQueue.initial : SendQueue ι β).Inv := inv_initial
  have houtside : ¬ (SendQueue.initial : SendQueue ι β).sections.Inside .popper :=
    Sections.not_inside_idle SendThread.popper
  constructor
  · refine hrun.exact_visited_inv
      (fun s => s.Inv ∧ ¬ s.sections.Inside .popper) LockKept OwnerReleases
      (fun s event => event ≠ .pop ∧ CountFits s event)
      ⟨⟨hinit, houtside⟩, hinit.lockKept houtside⟩ ?_ ?_
    · rintro t hstep - ⟨hinv, hpopper⟩
      obtain ⟨hcount, hkeep⟩ := inv_step hstep hinv
      constructor
      · rintro ⟨hkept, hreleases⟩
        exact ⟨fun hpop => not_ownerReleases_pop hinv hpop hreleases, hcount.mp hkept.count⟩
      · rintro ⟨hevent, hfits⟩
        obtain ⟨hapart, hstays, hreleases⟩ := step_of_ne_pop hstep hinv hpopper hevent
        exact ⟨(hkeep hapart hfits).lockKept hstays, hreleases⟩
    · rintro t hstep ⟨hinv, hpopper⟩ hkept hreleases
      obtain ⟨hcount, hkeep⟩ := inv_step hstep hinv
      have hevent : t.event ≠ .pop := fun hpop => not_ownerReleases_pop hinv hpop hreleases
      obtain ⟨hapart, hstays, -⟩ := step_of_ne_pop hstep hinv hpopper hevent
      exact ⟨hkeep hapart (hcount.mp hkept.count), hstays⟩
  · have hexact := hrun.exact_visited_inv SendQueue.Inv
      (fun s => s.sections.Exclusive ∧ s.CountRight) (fun _ => True)
      (fun s event => SectionsApart s event ∧ CountFits s event)
      ⟨hinit, hinit.exclusive, hinit.count⟩ ?_ ?_
    · simpa using hexact
    · intro t hstep _ hinv
      rw [(locked_step hstep hinv.toLocked).1, (inv_step hstep hinv).1, and_true]
    · rintro t hstep hinv ⟨hexclusive, hcount⟩ -
      exact (inv_step hstep hinv).2 ((locked_step hstep hinv.toLocked).1.mp hexclusive)
        ((inv_step hstep hinv).1.mp hcount)

end

/-- A command is in the queue and a second one is being pushed: its thread has read `num`.
The send thread calls `pop`, which releases the mutex of that push, so that a third thread
enters its section as well; it counts down, and the push counts up from what it had read.
Three threads are in their sections, and `num` is 2 where one command is left. -/
theorem pop_lets_push_in :
    ∃ s : SendQueue Nat Nat, (sendLockMachine Nat Nat).Reachable s ∧
      s.sections.Inside (.pusher 1) ∧ s.sections.Inside (.pusher 2) ∧
      s.sections.Inside .popper ∧ ¬ s.sections.Exclusive ∧
      s.num = 2 ∧ s.pushes = 2 ∧ s.pops = 1 := by
  have hreplay : ∃ s, (sendLockMachine Nat Nat).replay SendQueue.ready
      [.push 0 10 6, .go (.pusher 0), .go (.pusher 0), .go (.pusher 0), .go (.pusher 0),
        .go (.pusher 0), .push 1 11 6, .go (.pusher 1), .go (.pusher 1), .go (.pusher 1),
        .pop, .go .popper, .go .popper, .go .popper, .go .popper, .push 2 12 6,
        .go (.pusher 1)] SendQueue.initial = some s ∧
      (s.sections.place (.pusher 1)).isSome = true ∧
      (s.sections.place (.pusher 2)).isSome = true ∧
      (s.sections.place .popper).isSome = true ∧ s.num = 2 ∧ s.pushes = 2 ∧ s.pops = 1 :=
    ⟨_, rfl, by decide +kernel⟩
  obtain ⟨s, hs, hone, htwo, hpopper, hcounts⟩ := hreplay
  have hreach : (sendLockMachine Nat Nat).Reachable s :=
    Machine.Reachable.replay enabled_of_ready ⟨[], .start⟩ hs
  have hone : s.sections.Inside (.pusher 1) := Option.isSome_iff_ne_none.mp hone
  have htwo : s.sections.Inside (.pusher 2) := Option.isSome_iff_ne_none.mp htwo
  refine ⟨s, hreach, hone, htwo, Option.isSome_iff_ne_none.mp hpopper, ?_, hcounts⟩
  intro hexclusive
  exact absurd (hexclusive _ _ hone htwo) (by decide)

/-- A thread has locked the mutex and filled the slot. -/
theorem send_queue_lock_first_push :
    ∃ trace s, (sendLockMachine Nat Nat).Run trace s ∧
      trace.map Transition.event = [.push 0 10 6, .go (.pusher 0)] ∧
      (∀ τ ∈ (sendLockMachine Nat Nat).visited trace, τ.LockKept) ∧
      ∀ t ∈ trace, OwnerReleases t := by
  have hfirst : (sendLockMachine Nat Nat).Step
      ⟨.initial, .push 0 10 6, (), SendQueue.initial.beginPush 0 10 6⟩ := ⟨⟨rfl, rfl⟩, rfl⟩
  have hplace : (SendQueue.initial.beginPush 0 10 6 : SendQueue Nat Nat).sections.place
      (.pusher 0) = some (.push 10 6, .entered) := rfl
  have hsecond : (sendLockMachine Nat Nat).Step
      ⟨SendQueue.initial.beginPush 0 10 6, .go (.pusher 0), (),
        (SendQueue.initial.beginPush 0 10 6).go (.pusher 0) (.push 10 6) .entered⟩ :=
    ⟨Sections.inside_of_place hplace, rfl⟩
  have hrun := Machine.Run.step (.step .start hfirst) hsecond
  refine ⟨_, _, hrun, rfl, (send_queue_lock_iff hrun).1.mpr ?_⟩
  simp only [List.nil_append, List.forall_mem_append, List.forall_mem_singleton, ne_eq,
    reduceCtorEq, not_false_eq_true, true_and]
  constructor
  · intro who call num hgo
    simp at hgo
  · intro who call num hgo hloaded
    rw [LockEvent.go.injEq] at hgo
    rw [← hgo, hplace] at hloaded
    simp at hloaded

end Client
end StupidP2P
