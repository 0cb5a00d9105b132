import StupidP2P.Client.RecvAccount
import StupidP2P.Foundation.Since

/-!
# Who owns the memory of received messages

Three results about the runs of `recvMemory`.  A step is undefined only if a call of
`stupid_p2p_recv_data` writes behind its array (`recv_memory_defined_iff`).  A buffer is the
application's own until it gives it back: reading it always gives the same messages
(`handed_until_freed`).  When everything was given back, what is left allocated is exactly
the pointer array of each buffer freed, and the bytes of the messages of each call that got
no array (`recv_memory_leaks`).
-/

namespace StupidP2P
namespace Client

open Foundation

/-- The payloads of the data frames of a run. -/
def payloadsOf (trace : List (Transition RecvMemory RecvMemoryEvent Unit)) : List (List UInt8) :=
  trace.flatMap fun t => t.event.payloads

/-- The pointer arrays that a run leaves without an owner. -/
def lostArraysOf (trace : List (Transition RecvMemory RecvMemoryEvent Unit)) : List Nat :=
  trace.flatMap fun t => t.pre.lostArrays t.event

/-- The bytes of messages that a run leaves without an owner. -/
def lostDataOf (trace : List (Transition RecvMemory RecvMemoryEvent Unit)) : List Nat :=
  trace.flatMap fun t => t.pre.lostData t.event

section

variable {s : RecvMemory} {trace : List (Transition RecvMemory RecvMemoryEvent Unit)}

/-- **The account of a run.** -/
theorem run_accounted (hrun : recvMemory.Run trace s) :
    ∃ a, s.Accounted a ∧ a.payloads = payloadsOf trace ∧
      a.lostArrays.map Prod.fst = lostArraysOf trace ∧
      a.lostData.map Prod.fst = lostDataOf trace := by
  induction hrun with
  | start => exact ⟨_, RecvMemory.accounted_initial, rfl, rfl, rfl⟩
  | @step trace t _ hstep ih =>
      obtain ⟨a, haccounted, hpayloads, harrays, hdata⟩ := ih
      have hexec := Machine.Step.of_map (fun _ _ => rfl) hstep
      obtain ⟨a', haccounted', hbooked⟩ := haccounted.step hstep.1 hexec
      refine ⟨a', haccounted', ?_, ?_, ?_⟩
      · rw [hbooked.payloads, hpayloads, payloadsOf, payloadsOf, List.flatMap_append,
          List.flatMap_singleton]
      · rw [hbooked.arrays, harrays, lostArraysOf, lostArraysOf, List.flatMap_append,
          List.flatMap_singleton, Multiset.coe_add]
      · rw [hbooked.data, hdata, lostDataOf, lostDataOf, List.flatMap_append,
          List.flatMap_singleton, Multiset.coe_add]

theorem reachable_accounted (hreach : recvMemory.Reachable s) : ∃ a, s.Accounted a := by
  obtain ⟨trace, hrun⟩ := hreach
  obtain ⟨a, haccounted, -⟩ := run_accounted hrun
  exact ⟨a, haccounted⟩

/-! ## No step but one is undefined -/

/-- **Memory safety of the receive API.**  Whichever allocations fail and however the
parser, the calls of `stupid_p2p_recv_data`, the calls of `stupid_p2p_free_recv_data_buf` and
the end of the client are interleaved, a step uses and frees only what is allocated, except
a round that takes a message when its call has taken 1024: it writes behind `data_buf`. -/
theorem recv_memory_defined_iff (hreach : recvMemory.Reachable s) {event : RecvMemoryEvent}
    (henabled : recvMemoryEnabled s event) :
    (s.exec event).isSome = true ↔ ¬ s.Overruns event := by
  obtain ⟨a, haccounted⟩ := reachable_accounted hreach
  constructor
  · intro hsome hover
    rw [haccounted.overruns hover] at hsome
    exact Bool.noConfusion hsome
  · intro hfits
    obtain ⟨s', a', hexec, -⟩ := haccounted.exec henabled hfits
    rw [hexec]
    rfl

/-- The guard of the machine, for the events of the run below. -/
def recvMemoryReady (s : RecvMemory) : RecvMemoryEvent → Bool
  | .frame _ (some data) (some recvData) (some node) =>
      !s.closed && ((s.memory.buffers data).isNone && ((s.memory.messages recvData).isNone &&
        (s.memory.list.payload (.node node)).isNone))
  | .call (some buf) => !s.closed && (s.bufs buf).isNone
  | .round buf array =>
      (s.calls buf).isSome && (array.all fun a => (s.arrays a).isNone)
  | .free buf => (s.bufs buf).isSome && (s.calls buf).isNone
  | _ => false

theorem enabled_of_recvMemoryReady {event : RecvMemoryEvent}
    (h : recvMemoryReady s event = true) : recvMemoryEnabled s event := by
  cases event with
  | frame payload data recvData node =>
      cases data with
      | none => exact absurd h Bool.false_ne_true
      | some data =>
          cases recvData with
          | none => exact absurd h Bool.false_ne_true
          | some recvData =>
              cases node with
              | none => exact absurd h Bool.false_ne_true
              | some node =>
                  simp only [recvMemoryReady, Bool.and_eq_true, Bool.not_eq_true',
                    Option.isNone_iff_eq_none] at h
                  simp [recvMemoryEnabled, LinkedHeap.Live, h]
  | call buf =>
      cases buf with
      | none => exact absurd h Bool.false_ne_true
      | some buf =>
          simp only [recvMemoryReady, Bool.and_eq_true, Bool.not_eq_true',
            Option.isNone_iff_eq_none] at h
          simp [recvMemoryEnabled, h]
  | round buf array =>
      simp only [recvMemoryReady, Bool.and_eq_true, Option.all_eq_true,
        Option.isNone_iff_eq_none] at h
      exact ⟨Option.isSome_iff_ne_none.mp h.1, h.2⟩
  | free buf =>
      simp only [recvMemoryReady, Bool.and_eq_true, Option.isNone_iff_eq_none] at h
      exact ⟨Option.isSome_iff_ne_none.mp h.1, h.2⟩
  | deinit => exact absurd h Bool.false_ne_true

/-- One message is received, taken by a call and handed to the application. -/
def handsOver : List RecvMemoryEvent :=
  [.frame [120] (some 1) (some 2) (some 3), .call (some 5), .round 5 none, .round 5 (some 7)]

/-- The buffer can then be given back. -/
theorem recv_memory_defined_iff_handsOver :
    ∃ s, recvMemory.Reachable s ∧ (s.exec (.free 5)).isSome = true := by
  have hreplay : (recvMemory.replay recvMemoryReady handsOver .initial).any
      (fun s => recvMemoryReady s (.free 5)) = true := by
    decide +kernel
  obtain ⟨s, hrun, -, hfree⟩ := Machine.Run.of_replay
    (fun _ _ h => enabled_of_recvMemoryReady h) .start hreplay
  exact ⟨s, ⟨_, hrun⟩,
    (recv_memory_defined_iff ⟨_, hrun⟩ (enabled_of_recvMemoryReady hfree)).mpr id⟩

/-! ## Buffers belong to the application -/

/-- What the application reads is what the account says. -/
theorem RecvMemory.Accounted.readBuf_eq {a : Account} (h : s.Accounted a) {c : Handed}
    (hc : c ∈ a.handed) : s.readBuf c.buf = some (c.messages.map Received.recvData) := by
  obtain ⟨others, hhanded⟩ := Multiset.exists_cons_of_mem hc
  obtain ⟨hobject, hentry⟩ := h.entry_eq hhanded
  have hread : ∀ m ∈ c.messages, (s.memory.messages m.address).bind (fun object =>
      (object.data.bind s.memory.buffers).map fun bytes => (⟨object.length, bytes⟩ : RecvData)) =
        some m.recvData := by
    intro m hm
    have hmem : m ∈ a.messages := by
      rw [Account.messages_cons_handed hhanded]
      exact Multiset.mem_add.mpr (Or.inl hm)
    rw [h.messages.get (Multiset.mem_map_of_mem Received.object hmem), Option.bind_some,
      Option.bind_some, h.buffers.get (Multiset.mem_add.mpr
        (Or.inl (Multiset.mem_map_of_mem Received.block hmem)))]
    rfl
  have hrange := mapM_range_getElem (c.messages.map Received.address) fun message =>
    (s.memory.messages message).bind fun object =>
      (object.data.bind s.memory.buffers).map fun bytes => (⟨object.length, bytes⟩ : RecvData)
  rw [List.length_map, List.mapM_map] at hrange
  rw [RecvMemory.readBuf, hobject, Option.bind_some]
  simp only [hentry]
  rw [hrange]
  exact mapM_eq_some_of_forall hread

/-- **A buffer is the application's own.**  From the moment `stupid_p2p_recv_data` has
returned it, and as long as the application does not give it back, it can be read, and holds
the same messages, whatever the receive thread and other calls do meanwhile.  They are
payloads received before, each unaltered and with its length, in the order in which they
came. -/
theorem handed_until_freed {before during : List (Transition RecvMemory RecvMemoryEvent Unit)}
    {s₁ : RecvMemory} {buf : Nat} (hbefore : recvMemory.Run before s₁)
    (hrun : recvMemory.Run (before ++ during) s) (hbuf : s₁.bufs buf ≠ none)
    (hreturned : s₁.calls buf = none) (hkeeps : ∀ t ∈ during, t.event ≠ .free buf) :
    ∃ messages, s₁.readBuf buf = some messages ∧ s.readBuf buf = some messages ∧
      (messages.map RecvData.data).Sublist (payloadsOf before) ∧
      ∀ m ∈ messages, m.length = m.data.length := by
  obtain ⟨a, haccounted, hpayloads, -⟩ := run_accounted hbefore
  obtain ⟨array, messages, others, hhanded⟩ := haccounted.exists_handed hbuf hreturned
  have hc : (⟨buf, array, messages⟩ : Handed) ∈ a.handed := by
    rw [hhanded]
    exact Multiset.mem_cons_self _ _
  -- The entry of the account stays where it is, step by step.
  have hstays := Machine.Run.between
    (fun s s' : RecvMemory => (∃ a, s.Accounted a ∧ ⟨buf, array, messages⟩ ∈ a.handed) →
      ∃ a, s'.Accounted a ∧ ⟨buf, array, messages⟩ ∈ a.handed)
    (fun _ h => h) (fun _ _ _ hfirst hsecond h => hsecond (hfirst h))
    (by
      intro t ht hstep _ ⟨a, haccounted, hc⟩
      have hexec := Machine.Step.of_map (fun _ _ => rfl) hstep
      obtain ⟨a', haccounted', hbooked⟩ := haccounted.step hstep.1 hexec
      exact ⟨a', haccounted', hbooked.handed _ hc (hkeeps t ht)⟩) hbefore hrun
  obtain ⟨a', haccounted', hc'⟩ := hstays ⟨a, haccounted, hc⟩
  refine ⟨messages.map Received.recvData, haccounted.readBuf_eq hc, haccounted'.readBuf_eq hc',
    ?_, ?_⟩
  · rw [List.map_map, ← hpayloads]
    exact haccounted.order.2.2 _ hc
  · intro m hm
    obtain ⟨m, -, rfl⟩ := List.mem_map.mp hm
    rfl

/-- The next message is received and taken by another call. -/
def receivesMore : List RecvMemoryEvent :=
  [.frame [121] (some 8) (some 9) (some 10), .call (some 6), .round 6 none]

/-- The buffer handed out before still holds its message. -/
theorem handed_until_freed_receivesMore :
    ∃ s, recvMemory.Reachable s ∧ s.calls 6 = some [9] ∧ s.readBuf 5 = some [⟨1, [120]⟩] := by
  have hreplay : (recvMemory.replay recvMemoryReady handsOver .initial).any (fun s₁ =>
      (recvMemory.replay recvMemoryReady receivesMore s₁).any fun s =>
        recvMemoryReady s₁ (.free 5) && (decide (s₁.readBuf 5 = some [⟨1, [120]⟩]) &&
          decide (s.calls 6 = some [9]))) = true := by
    decide +kernel
  have hready : ∀ s event, recvMemoryReady s event = true → recvMemory.enabled s event :=
    fun _ _ h => enabled_of_recvMemoryReady h
  obtain ⟨s₁, hbefore, -, hlater⟩ := Machine.Run.of_replay hready .start hreplay
  obtain ⟨s, hrun, hevents, htests⟩ := hbefore.of_replay hready hlater
  simp only [Bool.and_eq_true, decide_eq_true_iff] at htests
  obtain ⟨hfree, hread, hcall⟩ := htests
  obtain ⟨hbuf, hreturned⟩ := enabled_of_recvMemoryReady hfree
  have hkeeps : ∀ t ∈ recvMemory.record receivesMore s₁, t.event ≠ .free 5 := by
    intro t ht hevent
    have hmem : t.event ∈ (recvMemory.record receivesMore s₁).map Transition.event :=
      List.mem_map_of_mem ht
    rw [hevents, hevent] at hmem
    simp [receivesMore] at hmem
  obtain ⟨messages, hfirst, hlast, -⟩ := handed_until_freed hbefore hrun hbuf hreturned hkeeps
  obtain rfl := Option.some.inj (hread.symm.trans hfirst)
  exact ⟨s, ⟨_, hrun⟩, hcall, hlast⟩

/-! ## What is never freed -/

/-- The application has this buffer: it is allocated, and no call is filling it. -/
def RecvMemory.Held (s : RecvMemory) (buf : Nat) : Prop :=
  s.bufs buf ≠ none ∧ s.calls buf = none

/-- The call that has filled the buffer returns it. -/
def ReturnsBuf (buf : Nat) (t : Transition RecvMemory RecvMemoryEvent Unit) : Prop :=
  t.pre.calls buf ≠ none ∧ t.post.Held buf

/-- The application gives the buffer back. -/
def GivesBack (buf : Nat) (t : Transition RecvMemory RecvMemoryEvent Unit) : Prop :=
  t.event = .free buf

/-- The end of a call concerns its own buffer only. -/
theorem RecvMemory.finish_frame {s s' : RecvMemory} {buf : Nat} {dataBuf : List Nat}
    {array : Option Nat} (h : s.finish buf dataBuf array = some s') :
    s'.calls = Function.update s.calls buf none ∧
      ∃ object, s'.bufs = Function.update s.bufs buf object := by
  cases array with
  | none =>
      simp only [finish, freeBuf, Option.bind_eq_some_iff, Option.map_eq_some_iff] at h
      obtain ⟨_, ⟨_, -, rfl⟩, _, -, rfl⟩ := h
      exact ⟨rfl, none, rfl⟩
  | some array =>
      simp only [finish, Option.map_eq_some_iff] at h
      obtain ⟨_, -, rfl⟩ := h
      exact ⟨rfl, _, rfl⟩

/-- A round goes on filling its buffer, or ends the call. -/
theorem RecvMemory.round_frame {s s' : RecvMemory} {buf : Nat} {array : Option Nat}
    (h : s.round buf array = some s') :
    (∃ dataBuf, s'.calls = Function.update s.calls buf (some dataBuf) ∧ s'.bufs = s.bufs) ∨
      s'.calls = Function.update s.calls buf none ∧
        ∃ object, s'.bufs = Function.update s.bufs buf object := by
  obtain ⟨dataBuf, -, h⟩ := Option.bind_eq_some_iff.mp h
  obtain ⟨⟨recvData, memory⟩, -, h⟩ := Option.bind_eq_some_iff.mp h
  cases recvData with
  | none =>
      have hended := finish_frame h
      exact Or.inr hended
  | some recvData =>
      dsimp only at h
      split at h
      · have hended := finish_frame h
        exact Or.inr hended
      · split at h
        · obtain rfl := Option.some.inj h
          exact Or.inl ⟨_, rfl, rfl⟩
        · cases h

section

variable {t : Transition RecvMemory RecvMemoryEvent Unit} {buf : Nat}

/-- A step that does not concern the buffer. -/
theorem held_step_of_same (hbufs : t.post.bufs buf = t.pre.bufs buf)
    (hcalls : t.post.calls buf = t.pre.calls buf) (hkeeps : ¬ GivesBack buf t) :
    t.post.Held buf ↔ ReturnsBuf buf t ∨ t.pre.Held buf ∧ ¬ GivesBack buf t := by
  rw [ReturnsBuf, RecvMemory.Held, RecvMemory.Held, hbufs, hcalls]
  tauto

/-- A step that is about a call that was, or is now, under way. -/
theorem held_step_of_call (hbefore : ¬ t.pre.Held buf)
    (hreturns : t.post.Held buf → t.pre.calls buf ≠ none) :
    t.post.Held buf ↔ ReturnsBuf buf t ∨ t.pre.Held buf ∧ ¬ GivesBack buf t := by
  rw [ReturnsBuf]
  tauto

/-- **One step.**  The application has a buffer after it if a call returns it, or it had the
buffer and does not give it back. -/
theorem held_step (hstep : recvMemory.Step t) :
    t.post.Held buf ↔ ReturnsBuf buf t ∨ t.pre.Held buf ∧ ¬ GivesBack buf t := by
  obtain ⟨pre, event, output, post⟩ := t
  have henabled : recvMemoryEnabled pre event := hstep.1
  have hexec : pre.exec event = some post := Machine.Step.of_map (fun _ _ => rfl) hstep
  cases event with
  | frame payload data recvData node =>
      obtain ⟨memory, -, rfl⟩ := Option.map_eq_some_iff.mp hexec
      exact held_step_of_same rfl rfl (by simp [GivesBack])
  | deinit =>
      obtain ⟨_, -, rfl⟩ := Option.map_eq_some_iff.mp hexec
      exact held_step_of_same rfl rfl (by simp [GivesBack])
  | call address =>
      obtain rfl := Option.some.inj hexec
      cases address with
      | none => exact held_step_of_same rfl rfl (by simp [GivesBack])
      | some address =>
          by_cases hsame : buf = address
          · subst hsame
            refine held_step_of_call (fun hheld => hheld.1 (henabled.2 buf rfl)) ?_
            intro hheld
            have hcalls : Function.update pre.calls buf (some []) buf = none := hheld.2
            rw [Function.update_self] at hcalls
            cases hcalls
          · exact held_step_of_same (Function.update_of_ne hsame _ _)
              (Function.update_of_ne hsame _ _) (by simp [GivesBack])
  | round address array =>
      by_cases hsame : buf = address
      · subst hsame
        exact held_step_of_call (fun hheld => henabled.1 hheld.2) fun _ => henabled.1
      · rcases RecvMemory.round_frame hexec with
          ⟨dataBuf, hcalls, hbufs⟩ | ⟨hcalls, object, hbufs⟩
        · refine held_step_of_same (by rw [hbufs]) ?_ (by simp [GivesBack])
          rw [hcalls, Function.update_of_ne hsame]
        · refine held_step_of_same ?_ ?_ (by simp [GivesBack])
          · rw [hbufs, Function.update_of_ne hsame]
          · rw [hcalls, Function.update_of_ne hsame]
  | free address =>
      obtain ⟨object, -, hexec⟩ := Option.bind_eq_some_iff.mp hexec
      obtain ⟨memory, -, hexec⟩ := Option.bind_eq_some_iff.mp hexec
      obtain ⟨_, -, hpost⟩ := Option.map_eq_some_iff.mp hexec
      have hbufs : post.bufs = Function.update pre.bufs address none := by rw [← hpost]
      have hcalls : post.calls = pre.calls := by rw [← hpost]
      by_cases hsame : buf = address
      · subst hsame
        -- It was the application's, and is not allocated any more.
        have hgone : ¬ post.Held buf := by
          rw [RecvMemory.Held, hbufs, Function.update_self]
          exact fun hheld => hheld.1 rfl
        refine iff_of_false hgone ?_
        rintro (hreturns | ⟨-, hkept⟩)
        · exact hgone hreturns.2
        · exact hkept rfl
      · refine held_step_of_same ?_ (by rw [hcalls]) ?_
        · rw [hbufs, Function.update_of_ne hsame]
        · intro heq
          exact hsame (RecvMemoryEvent.free.inj heq).symm

end

/-- The buffers the application has are those returned to it and not given back since. -/
theorem run_held (hrun : recvMemory.Run trace s) (buf : Nat) :
    s.Held buf ↔ Since (ReturnsBuf buf) (GivesBack buf) trace :=
  hrun.since_iff (RecvMemory.Held · buf) (fun hheld => hheld.1 rfl)
    fun _ hstep _ => held_step hstep

/-- **The leak, exactly.**  When the client is taken down and the application has given back
every buffer that was returned to it, no node, no `recv_data_t` and no `recv_data_buf_t` is
allocated.  What is allocated are the pointer arrays of the buffers given back, one for each,
and the bytes of the messages of the calls that got no array. -/
theorem recv_memory_leaks (hrun : recvMemory.Run trace s) (hclosed : s.closed = true)
    (hback : ∀ buf, ¬ Since (ReturnsBuf buf) (GivesBack buf) trace) :
    (∀ node, ¬ s.memory.list.Live (.node node)) ∧ (∀ message, s.memory.messages message = none) ∧
      (∀ buf, s.bufs buf = none) ∧
      (∀ array, (s.arrays array).isSome = true ↔ array ∈ lostArraysOf trace) ∧
      (lostArraysOf trace).Nodup ∧
      (∀ buffer, (s.memory.buffers buffer).isSome = true ↔ buffer ∈ lostDataOf trace) ∧
      (lostDataOf trace).Nodup := by
  obtain ⟨a, haccounted, -, harrays, hdata⟩ := run_accounted hrun
  obtain ⟨hqueue, hfilling⟩ := haccounted.closed hclosed
  have hbufs : ∀ buf, s.bufs buf = none := by
    intro buf
    by_contra hbuf
    have hcalls : s.calls buf = none :=
      haccounted.calls.eq_none_iff.mpr (by simp [hfilling])
    exact hback buf ((run_held hrun buf).mp ⟨hbuf, hcalls⟩)
  have hhanded : a.handed = 0 := by
    have hnone := haccounted.bufs.eq_zero_of_none hbufs
    have hzero : a.handed.map Handed.object ≤ 0 := by
      rw [← hnone]
      exact Multiset.le_add_right _ _
    exact Multiset.map_eq_zero.mp (Multiset.le_zero.mp hzero)
  have hmessages : a.messages = 0 := by
    rw [Account.messages, hqueue, hfilling, hhanded]
    rfl
  have hnodes := haccounted.nodes
  have hobjects := haccounted.messages
  have hbuffers := haccounted.buffers
  have hentries := haccounted.arrays
  rw [hqueue] at hnodes
  rw [hmessages, Multiset.map_zero] at hobjects hbuffers
  rw [hhanded, Multiset.map_zero] at hentries
  rw [Multiset.zero_add] at hbuffers hentries
  refine ⟨?_, ?_, hbufs, ?_, ?_, ?_, ?_⟩
  · intro node hlive
    rcases hnodes.live _ hlive with hsentinel | ⟨address, hmem, -⟩
    · exact absurd hsentinel (by simp)
    · exact absurd hmem (by simp)
  · intro message
    exact hobjects.eq_none_iff.mpr (by simp)
  · intro array
    rw [hentries.isSome_iff, harrays, Multiset.mem_coe]
  · have hnodup := hentries.nodup
    rw [harrays] at hnodup
    exact hnodup
  · intro buffer
    rw [hbuffers.isSome_iff, hdata, Multiset.mem_coe]
  · have hnodup := hbuffers.nodup
    rw [hdata] at hnodup
    exact hnodup

/-- The message is handed out and given back, and the client is taken down. -/
theorem recv_memory_leaks_handsOver :
    ∃ s, recvMemory.Reachable s ∧ s.closed = true ∧ (∀ buf, s.bufs buf = none) ∧
      ∀ array, (s.arrays array).isSome = true ↔ array = 7 := by
  have hready : ∀ s event, recvMemoryReady s event = true → recvMemory.enabled s event :=
    fun _ _ h => enabled_of_recvMemoryReady h
  have hstart : recvMemory.Run [] .initial := .start
  obtain ⟨s, hs, hopen, hcalls, hbufs, hlost⟩ : ∃ s,
      recvMemory.replay recvMemoryReady (handsOver ++ [.free 5]) .initial = some s ∧
      s.closed = false ∧ (∀ buf, s.calls buf = none) ∧ (∀ buf, s.bufs buf = none) ∧
      lostArraysOf (recvMemory.record (handsOver ++ [.free 5]) .initial) = [7] := by
    refine ⟨_, rfl, rfl, ?_, ?_, rfl⟩
    · intro buf
      show Function.update (Function.update (Function.update
        (fun _ => none : Nat → Option (List Nat)) 5 (some [])) 5 (some [2])) 5 none buf = none
      rw [Function.update_idem, Function.update_idem]
      exact congrFun (Function.update_eq_self 5 (fun _ => none : Nat → Option (List Nat))) buf
    · intro buf
      show Function.update (Function.update (Function.update
        (fun _ => none : Nat → Option RecvDataBuf) 5 (some ⟨0, none⟩)) 5
        (some ⟨1, some 7⟩)) 5 none buf = none
      rw [Function.update_idem, Function.update_idem]
      exact congrFun (Function.update_eq_self 5 (fun _ => none : Nat → Option RecvDataBuf)) buf
  have hrun := (hstart.replay_record hready hs).1
  have henabled : recvMemoryEnabled s .deinit := ⟨hopen, hcalls⟩
  obtain ⟨a, haccounted⟩ := reachable_accounted ⟨_, hrun⟩
  obtain ⟨s', -, hexec, -⟩ := haccounted.deinit henabled
  have hstep : recvMemory.Step ⟨s, .deinit, (), s'⟩ := by
    refine ⟨henabled, ?_⟩
    show (s.exec .deinit).map (fun s => (s, ())) = _
    rw [hexec]
    rfl
  rw [RecvMemory.exec, Option.map_eq_some_iff] at hexec
  obtain ⟨⟨memory, released⟩, -, rfl⟩ := hexec
  have hback : ∀ buf, ¬ Since (ReturnsBuf buf) (GivesBack buf) _ :=
    fun buf hsince => ((run_held (.step hrun hstep) buf).mpr hsince).1 (hbufs buf)
  obtain ⟨-, -, -, harrays, -⟩ := recv_memory_leaks (.step hrun hstep) rfl hback
  refine ⟨_, ⟨_, .step hrun hstep⟩, rfl, hbufs, ?_⟩
  intro array
  rw [harrays, lostArraysOf, List.flatMap_append, List.mem_append, ← lostArraysOf, List.nil_append,
    hlost]
  simp [RecvMemory.lostArrays]

end

end Client
end StupidP2P
