import StupidP2P.Foundation.Machine
import StupidP2P.Client.Accounting
import StupidP2P.Client.RecvLoop

/-!
# What `recv` may return

`_stupid_p2p_recv_func` keeps the result of `recv` in one signed variable and looks at
`errno` as soon as it is not positive, although `errno` is only set by a call that fails
and keeps its value otherwise.  With `EINTR` in it, a result of -1 is pushed as a number
of bytes and takes one off the count of the ring, and the end of the stream is taken for
an interrupted call.

The loop is run round by round.  `pushed` records the bytes that were written into the
ring, and the frames executed say how many were popped.  A round whose behaviour is not
defined ends in `none`, so that nothing can be said about the states after it.
-/

namespace StupidP2P
namespace Client

open Foundation
open Foundation.Framing

/-- The results `recv` can have: some bytes, the end of the stream or an error.  Nothing is
known about `errno`. -/
def Outcome (receipt : Receipt) : Prop :=
  (1 ≤ receipt.bytes.length ∧ receipt.bytes.length ≤ 4096 ∧
      receipt.ret = receipt.bytes.length) ∨
    receipt.bytes = [] ∧ (receipt.ret = 0 ∨ receipt.ret = -1)

/-- The bytes a round writes into the ring. -/
def stored (r : Receiver) (receipt : Receipt) : List UInt8 :=
  if receipt.ret ≤ 0 ∧ receipt.interrupted = false then []
  else if wrap32 (receipt.ret + r.node.recvFifo.length) > netReadDataLength then []
  else receipt.bytes.take receipt.ret.toNat

/-- The receive thread and the bytes it wrote into its ring. -/
structure Listener where
  receiver : Receiver
  pushed : List UInt8

inductive ListenerEvent
  /-- One round of the loop, with what `recv` returns. -/
  | recv (receipt : Receipt)
  /-- The check thread has connected again and cleared the flag. -/
  | restarted

namespace Listener

def fresh : Listener := ⟨.fresh, []⟩

/-- The bytes pushed and not popped yet. -/
def unread (l : Listener) : List UInt8 :=
  l.pushed.drop (poppedFor l.receiver.executed)

def clearFlag (l : Listener) : Listener :=
  { l with receiver := { l.receiver with node :=
      { l.receiver.node with needToRestartFlag := false } } }

def step (calloc : Calloc) (l : Listener) : ListenerEvent → Option Listener
  | .recv receipt =>
      (recvRound calloc l.receiver receipt).map fun r =>
        ⟨r, l.pushed ++ stored l.receiver receipt⟩
  | .restarted => some l.clearFlag

/-- While the flag is set the thread sleeps, and `recv` is not called. -/
def ready (l : Listener) : ListenerEvent → Prop
  | .recv receipt => l.receiver.node.needToRestartFlag = false ∧ Outcome receipt
  | .restarted => l.receiver.node.needToRestartFlag = true

/-- The receive thread over any sequence of results. -/
def machine (calloc : Calloc) : Machine (Option Listener) ListenerEvent Unit where
  init := some fresh
  enabled := fun s event => ∃ l, s = some l ∧ l.ready event
  exec := fun s event => some (s.bind fun l => l.step calloc event, ())

/-- The count of the ring is the number of bytes pushed and not popped, and these are in
the ring. -/
structure Counted (l : Listener) : Prop where
  popped_le : poppedFor l.receiver.executed ≤ l.pushed.length
  ring : l.receiver.node.recvFifo.ring.Holds l.unread
  length_eq : l.receiver.node.recvFifo.length =
    (l.pushed.length : Int) - poppedFor l.receiver.executed
  range : 0 ≤ l.receiver.node.recvFifo.length ∧ l.receiver.node.recvFifo.length ≤ 8192

/-- An error changes nothing in the ring, and the end of the stream asks for a restart. -/
structure Handles (receipt : Receipt) (l l' : Listener) : Prop where
  error : receipt.ret = -1 → l'.receiver.node.recvFifo = l.receiver.node.recvFifo
  endOfStream : receipt.ret = 0 → l'.receiver.node.needToRestartFlag = true

/-- `errno` is not `EINTR` when `recv` returns no bytes, and the bytes in the ring have a
defined effect on the parser, which starts with a cleared array. -/
def Tolerates (l : Listener) : ListenerEvent → Prop
  | .recv receipt =>
      (receipt.ret ≤ 0 → receipt.interrupted = false) ∧
        (0 < receipt.ret → Survivable 0 (l.unread ++ stored l.receiver receipt))
  | .restarted => True

/-! ## The count of the ring in a call of the parser -/

end Listener

theorem copyCommand_length {count i : Nat} {command command' : Nat → UInt8}
    {fifo fifo' : RecvDataFifo} (hlow : (count : Int) - 2147483648 ≤ fifo.length)
    (hhigh : fifo.length < 2147483648)
    (h : copyCommand count i command fifo = some (command', fifo')) :
    fifo'.length = fifo.length - count := by
  induction count generalizing i command fifo with
  | zero =>
      rw [copyCommand, Option.some.injEq, Prod.mk.injEq] at h
      rw [← h.2]
      omega
  | succ count ih =>
      rw [copyCommand] at h
      split at h
      · have hpop : (recvDataFifoPop fifo 1).length = fifo.length - 1 :=
          wrap32_of_range (by omega) (by omega)
        have hrest := ih (by omega) (by omega) h
        omega
      · simp at h

/-- A round of the parser takes bytes from the count, whatever the ring holds. -/
theorem parseRound_length {calloc : Calloc} {command command' : Nat → UInt8} {r r' : Receiver}
    (hhigh : r.node.recvFifo.length ≤ 8192)
    (h : parseRound calloc command r = .next command' r') :
    r'.node.recvFifo.length ≤ r.node.recvFifo.length := by
  unfold parseRound parseFrame at h
  split at h
  · rename_i hfour
    split at h
    · split at h
      · simp at h
      · rename_i copied fifo hcopy
        split at h
        · simp at h
        · rename_i next hexec
          rw [Round.next.injEq] at h
          obtain ⟨-, rfl⟩ := h
          have hlimit : commandLimit = 2048 := rfl
          have hcount : (recvDataFifoTopInt r.node.recvFifo).toNat ≤ commandLimit := by
            by_contra hover
            rw [copyCommand_eq_none (by omega) (by omega)] at hcopy
            simp at hcopy
          have hpop : (recvDataFifoPop r.node.recvFifo 4).length = r.node.recvFifo.length - 4 :=
            wrap32_of_range (by omega) (by omega)
          have hlength := copyCommand_length (by omega) (by omega) hcopy
          rw [execCommand_recvFifo hexec]
          change fifo.length ≤ _
          omega
    · simp at h
  · simp at h

theorem parseLoop_length {calloc : Calloc} {fuel : Nat} {command : Nat → UInt8}
    {r r' : Receiver} (hhigh : r.node.recvFifo.length ≤ 8192)
    (h : parseLoop calloc fuel command r = some r') :
    r'.node.recvFifo.length ≤ r.node.recvFifo.length := by
  induction fuel generalizing command r with
  | zero =>
      obtain rfl := Option.some.inj h
      omega
  | succ fuel ih =>
      rw [parseLoop] at h
      split at h
      · simp at h
      · obtain rfl := Option.some.inj h
        omega
      · rename_i next hround
        have hnext := parseRound_length hhigh hround
        have hrest := ih (by omega) h
        omega

/-! ## One round -/

namespace Listener

variable {calloc : Calloc} {l : Listener} {receipt : Receipt}

theorem Counted.holds (h : l.Counted) : l.receiver.node.recvFifo.Holds l.unread := by
  refine ⟨h.ring, ?_⟩
  have hle := h.popped_le
  rw [h.length_eq, unread, List.length_drop]
  omega

/-- With its bytes in the ring, the count follows. -/
theorem counted_of_holds (hle : poppedFor l.receiver.executed ≤ l.pushed.length)
    (h : l.receiver.node.recvFifo.Holds l.unread) : l.Counted := by
  have hlength := h.length_eq
  have hcapacity := h.length_le
  rw [unread, List.length_drop] at hlength hcapacity
  constructor
  case popped_le => exact hle
  case ring => exact h.ring
  case length_eq => omega
  case range => omega

/-- A `recv` that returns bytes is followed by a call of the parser, on what the ring held
and what the round stored. -/
theorem afterRecv_bytes (h : l.Counted) (houtcome : Outcome receipt) (hpos : 0 < receipt.ret) :
    ∃ r, r.node.recvFifo.Holds (l.unread ++ stored l.receiver receipt) ∧
      r.executed = l.receiver.executed ∧
      afterRecv calloc l.receiver receipt = parseRecvNetCommand calloc r := by
  have hfifo := h.holds
  have hlength := hfifo.length_eq
  have hle := hfifo.length_le
  have hcapacity : netReadDataLength = 8192 := rfl
  rcases houtcome with ⟨hone, hsmall, hret⟩ | ⟨-, hzero⟩
  · by_cases hroom : l.unread.length + receipt.bytes.length ≤ netReadDataLength
    · obtain ⟨fifo, hpushed, hafter⟩ :=
        @afterRecv_of_room calloc l.receiver l.unread receipt hfifo hret (Or.inl hone) hroom
      have hstored : stored l.receiver receipt = receipt.bytes := by
        rw [stored, if_neg (by omega), hret, wrap32_of_range (by omega) (by omega),
          if_neg (by omega), Int.toNat_natCast, List.take_length]
      rw [hstored]
      exact ⟨l.receiver.setFifo fifo, hpushed, rfl, hafter⟩
    · have hstored : stored l.receiver receipt = [] := by
        rw [stored, if_neg (by omega), hret, wrap32_of_range (by omega) (by omega),
          if_pos (by omega)]
      rw [hstored, List.append_nil]
      refine ⟨l.receiver.discard receipt.ret, hfifo, rfl, ?_⟩
      rw [afterRecv, if_neg (by omega), wrap32_of_range (by omega) (by omega), if_pos (by omega)]
  · omega

/-- The bytes unread after a call of the parser are those the decoding leaves over. -/
theorem counted_after_parse {r : Receiver} {more : List UInt8} (h : l.Counted)
    (hleft : r.node.recvFifo.Holds (decode below (l.unread ++ more)).rest)
    (hpopped : poppedFor r.executed + (decode below (l.unread ++ more)).rest.length =
      poppedFor l.receiver.executed + (l.unread ++ more).length) :
    Counted ⟨r, l.pushed ++ more⟩ := by
  have hle := h.popped_le
  have hsuffix := @rest_suffix below (l.unread ++ more)
  have hlength := hsuffix.length_le
  have hunread : l.unread ++ more = (l.pushed ++ more).drop (poppedFor l.receiver.executed) :=
    (List.drop_append_of_le_length hle).symm
  have hall : (l.unread ++ more).length =
      (l.pushed ++ more).length - poppedFor l.receiver.executed := by
    rw [hunread, List.length_drop]
  have hmore : poppedFor l.receiver.executed ≤ (l.pushed ++ more).length := by
    rw [List.length_append]
    omega
  refine counted_of_holds ?_ ?_
  · change poppedFor r.executed ≤ (l.pushed ++ more).length
    omega
  · have hrest : (decode below (l.unread ++ more)).rest =
        (l.pushed ++ more).drop (poppedFor r.executed) := by
      rw [List.suffix_iff_eq_drop.mp hsuffix, hunread, List.drop_drop, ← hunread]
      congr 1
      omega
    rw [hrest] at hleft
    exact hleft

/-- A round that returns bytes keeps the count right if the parser survives them. -/
theorem step_bytes (hhuge : RefusesHuge calloc) (h : l.Counted)
    (hready : l.ready (.recv receipt)) (hpos : 0 < receipt.ret)
    (hsurv : Survivable 0 (l.unread ++ stored l.receiver receipt)) :
    ∃ l', l.step calloc (.recv receipt) = some l' ∧ l'.Counted := by
  obtain ⟨hflag, houtcome⟩ := hready
  obtain ⟨r, hfifo, hexecuted, hafter⟩ := @afterRecv_bytes calloc l receipt h houtcome hpos
  have hlength := hfifo.length_eq
  obtain ⟨r', hloop, hleft, hpopped⟩ := parseLoop_of_survivable hhuge (fun _ => 0) hsurv r hfifo
  rw [hexecuted] at hpopped
  refine ⟨_, ?_, counted_after_parse h hleft hpopped⟩
  simp only [step]
  rw [recvRound_of_flag hflag, hafter, parseRecvNetCommand, hloop _ (by omega), Option.map_some]

/-- A round on other bytes is not defined. -/
theorem step_bytes_eq_none (hhuge : RefusesHuge calloc) (hgrants : GrantsLargestInt calloc)
    (h : l.Counted) (hready : l.ready (.recv receipt)) (hpos : 0 < receipt.ret)
    (hsurv : ¬ Survivable 0 (l.unread ++ stored l.receiver receipt)) :
    l.step calloc (.recv receipt) = none := by
  obtain ⟨hflag, houtcome⟩ := hready
  obtain ⟨r, hfifo, -, hafter⟩ := @afterRecv_bytes calloc l receipt h houtcome hpos
  have hlength := hfifo.length_eq
  simp only [step]
  rw [recvRound_of_flag hflag, hafter, parseRecvNetCommand,
    parseLoop_of_not_survivable hhuge hgrants (fun _ => 0) hsurv r hfifo _ (by omega),
    Option.map_none]

/-- Without `EINTR` the result asks for a restart, and nothing else happens. -/
theorem step_nothing (hready : l.ready (.recv receipt)) (hret : receipt.ret ≤ 0)
    (herrno : receipt.interrupted = false) :
    l.step calloc (.recv receipt) = some ⟨l.receiver.askRestart, l.pushed⟩ := by
  have hstored : stored l.receiver receipt = [] := by
    rw [stored, if_pos ⟨hret, herrno⟩]
  simp only [step]
  rw [recvRound_of_flag hready.1, afterRecv, if_pos ⟨hret, herrno⟩, hstored, List.append_nil]
  rfl

/-- With `EINTR`, a result of 0 or -1 is handled as a number of bytes. -/
theorem not_handles_of_interrupted {l' : Listener} (h : l.Counted)
    (hready : l.ready (.recv receipt)) (hret : receipt.ret ≤ 0)
    (herrno : receipt.interrupted = true) (hstep : l.step calloc (.recv receipt) = some l') :
    ¬ Handles receipt l l' := by
  obtain ⟨hflag, houtcome⟩ := hready
  have hrange := h.range
  have hcapacity : netReadDataLength = 8192 := rfl
  have hbytes : receipt.bytes = [] ∧ (receipt.ret = 0 ∨ receipt.ret = -1) := by
    rcases houtcome with ⟨hone, -, hbytes⟩ | hnone
    · omega
    · exact hnone
  -- The branch that pushes is taken, and the parser is called.
  have hafter : afterRecv calloc l.receiver receipt = parseRecvNetCommand calloc
      (l.receiver.setFifo (recvDataFifoPush l.receiver.node.recvFifo [] receipt.ret)) := by
    rw [afterRecv, if_neg (by simp [herrno]), wrap32_of_range (by omega) (by omega),
      if_neg (by omega), hbytes.1]
  have hlength : (recvDataFifoPush l.receiver.node.recvFifo [] receipt.ret).length =
      l.receiver.node.recvFifo.length + receipt.ret :=
    wrap32_of_range (by omega) (by omega)
  simp only [step] at hstep
  rw [recvRound_of_flag hflag, hafter, Option.map_eq_some_iff] at hstep
  obtain ⟨r', hparse, rfl⟩ := hstep
  intro hhandles
  rcases hbytes.2 with hzero | hminus
  · have hkept := (parseLoop_same hparse).2
    have hset := hhandles.endOfStream hzero
    change r'.node.needToRestartFlag = l.receiver.node.needToRestartFlag at hkept
    rw [hset, hflag] at hkept
    exact absurd hkept (by decide)
  · have hle := parseLoop_length (show (recvDataFifoPush l.receiver.node.recvFifo []
      receipt.ret).length ≤ 8192 by omega) hparse
    have hsame : r'.node.recvFifo = l.receiver.node.recvFifo := hhandles.error hminus
    rw [hsame] at hle
    change l.receiver.node.recvFifo.length ≤
      (recvDataFifoPush l.receiver.node.recvFifo [] receipt.ret).length at hle
    omega

/-! ## Runs -/

/-- Every state is defined, with a right count. -/
def SoundState (s : Option Listener) : Prop :=
  ∃ l, s = some l ∧ l.Counted

/-- A round handles what `recv` returned. -/
def HandlesReceipt (t : Transition (Option Listener) ListenerEvent Unit) : Prop :=
  ∀ receipt l l', t.event = .recv receipt → t.pre = some l → t.post = some l' →
    Handles receipt l l'

/-- The condition on a step, in the state before it. -/
def ToleratedBy (s : Option Listener) (event : ListenerEvent) : Prop :=
  ∀ l, s = some l → l.Tolerates event

theorem counted_fresh : fresh.Counted :=
  counted_of_holds (Nat.le_refl _) (RecvDataFifo.holds_init _)

theorem Counted.clearFlag (h : l.Counted) : l.clearFlag.Counted :=
  ⟨h.popped_le, h.ring, h.length_eq, h.range⟩

theorem toleratedBy_some {event : ListenerEvent} :
    ToleratedBy (some l) event ↔ l.Tolerates event := by
  simp [ToleratedBy]

/-- **One step.**  A step that meets the condition keeps the count right and handles what
`recv` returned. -/
theorem step_sound (hhuge : RefusesHuge calloc)
    {t : Transition (Option Listener) ListenerEvent Unit} (hstep : (machine calloc).Step t)
    (hpre : SoundState t.pre) (hcond : ToleratedBy t.pre t.event) :
    SoundState t.post ∧ HandlesReceipt t := by
  obtain ⟨pre, event, output, post⟩ := t
  obtain ⟨l, rfl, hcounted⟩ := hpre
  obtain ⟨⟨l₀, hl₀, hready⟩, hexec⟩ := hstep
  obtain rfl := Option.some.inj hl₀
  have hpost : l.step calloc event = post := (Prod.mk.inj (Option.some.inj hexec)).1
  rw [toleratedBy_some] at hcond
  cases event with
  | restarted =>
      obtain rfl := hpost
      refine ⟨⟨l.clearFlag, rfl, hcounted.clearFlag⟩, ?_⟩
      intro receipt l' l'' hevent
      cases hevent
  | recv receipt =>
      by_cases hpos : 0 < receipt.ret
      · obtain ⟨l', hl', hcounted'⟩ := step_bytes hhuge hcounted hready hpos (hcond.2 hpos)
        refine ⟨⟨l', hpost.symm.trans hl', hcounted'⟩, ?_⟩
        rintro receipt' _ _ hevent - -
        obtain rfl := ListenerEvent.recv.inj hevent
        constructor <;> omega
      · rw [step_nothing hready (by omega) (hcond.1 (by omega))] at hpost
        obtain rfl := hpost
        refine ⟨⟨_, rfl, hcounted.popped_le, hcounted.ring, hcounted.length_eq,
          hcounted.range⟩, ?_⟩
        rintro _ _ _ - hl hl'
        obtain rfl := Option.some.inj hl
        obtain rfl := Option.some.inj hl'
        exact ⟨fun _ => rfl, fun _ => rfl⟩

/-- A step that does not meet it fails in one of these. -/
theorem toleratedBy_of_sound (hhuge : RefusesHuge calloc) (hgrants : GrantsLargestInt calloc)
    {t : Transition (Option Listener) ListenerEvent Unit} (hstep : (machine calloc).Step t)
    (hpre : SoundState t.pre) (hpost : SoundState t.post) (hhandles : HandlesReceipt t) :
    ToleratedBy t.pre t.event := by
  obtain ⟨pre, event, output, post⟩ := t
  obtain ⟨l, rfl, hcounted⟩ := hpre
  obtain ⟨l', rfl, -⟩ := hpost
  obtain ⟨⟨l₀, hl₀, hready⟩, hexec⟩ := hstep
  obtain rfl := Option.some.inj hl₀
  have hnext : l.step calloc event = some l' := (Prod.mk.inj (Option.some.inj hexec)).1
  rw [toleratedBy_some]
  cases event with
  | restarted => trivial
  | recv receipt =>
      constructor
      · intro hret
        by_contra herrno
        exact not_handles_of_interrupted hcounted hready hret (by simpa using herrno) hnext
          (hhandles receipt l l' rfl rfl rfl)
      · intro hpos
        by_contra hsurv
        rw [step_bytes_eq_none hhuge hgrants hcounted hready hpos hsurv] at hnext
        cases hnext

/-- **Every outcome of `recv`.**  In a run of the receive thread all rounds are defined, all
counts are right and all outcomes are handled if no round that gets no bytes finds `EINTR`
in `errno`, and the parser survives the bytes of the others.  Where `calloc` gives 2147483647
bytes, only if. -/
theorem recv_outcomes_iff (hhuge : RefusesHuge calloc) {s : Option Listener}
    {trace : List (Transition (Option Listener) ListenerEvent Unit)}
    (hrun : (machine calloc).Run trace s) :
    ((∀ t ∈ trace, ToleratedBy t.pre t.event) →
        (∀ τ ∈ (machine calloc).visited trace, SoundState τ) ∧ ∀ t ∈ trace, HandlesReceipt t) ∧
      (GrantsLargestInt calloc →
        ((∀ τ ∈ (machine calloc).visited trace, SoundState τ) ∧
            ∀ t ∈ trace, HandlesReceipt t) →
          ∀ t ∈ trace, ToleratedBy t.pre t.event) := by
  have hinit : SoundState (machine calloc).init := ⟨fresh, rfl, counted_fresh⟩
  constructor
  · intro hcond
    have hsound := (hrun.conditional SoundState ToleratedBy hinit
      (fun _ hstep _ hpre hmeets => (step_sound hhuge hstep hpre hmeets).1) hcond).2
    simp only [Machine.visited, List.forall_mem_cons, List.forall_mem_map]
    refine ⟨⟨hinit, fun t ht => (hsound t ht).2⟩, ?_⟩
    intro t ht
    exact (step_sound hhuge (hrun.step_of_mem t ht).1 (hsound t ht).1 (hcond t ht)).2
  · intro hgrants
    refine (hrun.exact_visited_and SoundState HandlesReceipt ToleratedBy hinit ?_).mp
    intro t hstep _ hpre
    exact ⟨fun hsound => toleratedBy_of_sound hhuge hgrants hstep hpre hsound.1 hsound.2,
      step_sound hhuge hstep hpre⟩

/-- The first step of a receive thread. -/
def firstStep (event : ListenerEvent) : Transition (Option Listener) ListenerEvent Unit :=
  ⟨some fresh, event, (), fresh.step grantsAll event⟩

theorem run_firstStep {event : ListenerEvent} (hready : fresh.ready event) :
    (machine grantsAll).Run [firstStep event] (firstStep event).post := by
  have hstep : (machine grantsAll).Step (firstStep event) := ⟨⟨fresh, rfl, hready⟩, rfl⟩
  exact .step .start hstep

/-- An interrupted `recv` takes one off the count of an empty ring; and the end of the stream
asks for no restart if `errno` still holds `EINTR`. -/
theorem interrupted_recv_lowers_count :
    ((recvRound grantsAll .fresh ⟨-1, [], true⟩).map fun r => r.node.recvFifo.length) =
        some (-1) ∧
      ((recvRound grantsAll .fresh ⟨0, [], true⟩).map fun r => r.node.needToRestartFlag) =
        some false ∧
      ¬ ∀ trace s, (machine grantsAll).Run trace s →
        (∀ τ ∈ (machine grantsAll).visited trace, SoundState τ) ∧
          ∀ t ∈ trace, HandlesReceipt t := by
  refine ⟨by decide +kernel, by decide +kernel, ?_⟩
  intro h
  have hready : fresh.ready (.recv ⟨-1, [], true⟩) := ⟨rfl, Or.inr ⟨rfl, Or.inr rfl⟩⟩
  obtain ⟨hsound, hhandles⟩ := h _ _ (run_firstStep hready)
  obtain ⟨l', hl', -⟩ := hsound (firstStep (.recv ⟨-1, [], true⟩)).post (by simp [Machine.visited])
  exact @not_handles_of_interrupted grantsAll fresh _ l' counted_fresh hready (by decide) rfl
    hl' (hhandles _ (List.mem_singleton.mpr rfl) _ _ _ rfl rfl hl')

/-- One read brings an answer. -/
def answerRead : ListenerEvent :=
  .recv (.chunk (encodeAll [[0x81, 1]]))

theorem recv_outcomes_answer :
    (machine grantsAll).Run [firstStep answerRead] (firstStep answerRead).post ∧
      (∀ τ ∈ (machine grantsAll).visited [firstStep answerRead], SoundState τ) ∧
      ∀ t ∈ [firstStep answerRead], HandlesReceipt t := by
  have hready : fresh.ready answerRead := by
    refine ⟨rfl, Or.inl ?_⟩
    decide
  refine ⟨run_firstStep hready,
    (recv_outcomes_iff refusesHuge_grantsAll (run_firstStep hready)).1 ?_⟩
  intro t ht l hl
  rw [List.mem_singleton] at ht
  subst ht
  obtain rfl := Option.some.inj hl
  refine ⟨fun _ => rfl, ?_⟩
  intro _
  have hbytes : fresh.unread ++ stored fresh.receiver (.chunk (encodeAll [[0x81, 1]])) =
      encodeAll [[0x81, 1]] := by
    decide +kernel
  change Survivable 0 (fresh.unread ++ stored fresh.receiver (.chunk (encodeAll [[0x81, 1]])))
  rw [hbytes]
  refine WellHeaded.survivable ?_ 0
  unfold WellHeaded
  rw [decode_encodeAll (by decide)]
  simp

end Listener

end Client
end StupidP2P
