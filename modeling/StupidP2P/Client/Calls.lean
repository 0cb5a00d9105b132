import StupidP2P.Client.Exchange
import Mathlib.Data.List.Perm.Subperm

/-!
# Calls and their answers

A result need not belong to the call that returns it: an answer that comes late, or one
to another call of the same command, is taken for the answer to the present call.  And an
answer that arrives between the last two looks at the flag turns a success into
`STUPID_P2P_ERROR_COMMOND`.  If no command is called again before the answer to its
previous call has arrived, and no success arrives at that moment, every result is right.
-/

namespace StupidP2P
namespace Client

open Foundation
open Server (ProtocolCode CallBackStatus)

namespace CallPhase

theorem active?_of_pushed? {phase : CallPhase} {code : ProtocolCode}
    (h : phase.pushed? = some code) : phase.active? = some code := by
  cases phase with
  | flagged _ _ => cases h
  | _ => exact h

theorem sent?_of_pushed? {phase : CallPhase} {code : ProtocolCode}
    (h : phase.pushed? = some code) : phase.sent? = some code := by
  cases phase with
  | returned _ _ => cases h
  | _ => exact h

theorem eq_of_sent?_of_active? {phase : CallPhase} {code other : ProtocolCode}
    (hsent : phase.sent? = some code) (hactive : phase.active? = some other) :
    other = code := by
  cases phase with
  | idle => cases hsent
  | flagged _ _ => cases hsent
  | returned _ _ => cases hactive
  | _ => exact Option.some.inj (hactive.symm.trans hsent)

end CallPhase

/-- All commands. -/
def allCodes : List ProtocolCode :=
  [.registerDevice, .subscribeDevice, .sendData, .unregisterDevice, .unsubscribeDevice,
    .checkDeviceAlive, .heartBeat]

/-- The command the send fifo holds for a request. -/
def Request.command (request : Request) : NetWorkCommand Request :=
  ⟨some request, request.message.length⟩

namespace Exchange

variable {s : Exchange} {queue : List Request}

/-- What holds of the new phase of a call and of the phases of the others. -/
theorem forall_setPhase {P : Nat → CallPhase → Prop} {call : Nat} {phase : CallPhase}
    (hcall : P call phase) (hothers : ∀ i, i ≠ call → P i (s.phase i)) (i : Nat) :
    P i ((s.setPhase call phase).phase i) :=
  (Function.forall_update_iff s.phase P).mpr ⟨hcall, hothers⟩ i

/-- If a call is no more active than before, neither is anybody. -/
theorem active?_of_setPhase {call : Nat} {phase : CallPhase}
    (hbefore : ∀ code, phase.active? = some code → (s.phase call).active? = some code) :
    ∀ i code, ((s.setPhase call phase).phase i).active? = some code →
      (s.phase i).active? = some code :=
  forall_setPhase (P := fun i next => ∀ code, next.active? = some code →
    (s.phase i).active? = some code) hbefore fun _ _ _ hi => hi

theorem execCallBack_frame (status : RealtimeCommandStatus) (reply : Reply) :
    execCallBack status reply.frame = status.setFlag reply.code reply.result.toByte := by
  have hflag : callBackFlag reply.result.toByte = reply.result.toByte := by
    cases reply.result <;> rfl
  unfold execCallBack Reply.frame
  rw [List.headD_cons, callBackCode_toByte]
  show status.setFlag reply.code (callBackFlag reply.result.toByte) = _
  rw [hflag]

/-- The codes of everything on the way. -/
def codes (s : Exchange) (queue : List Request) : List ProtocolCode :=
  (s.onTheWay queue).map Prod.snd

/-- The message of a call is on the way and the flag untouched, or the message is back and
the flag holds the answer to it. -/
def Awaits (s : Exchange) (queue : List Request) (call : Nat) (code : ProtocolCode) : Prop :=
  ((call, code) ∈ s.onTheWay queue ∧ s.status.flag code = callBackNotReceive) ∨
    (code ∉ s.codes queue ∧
      ∃ result, s.answer call = some result ∧ s.status.flag code = result.toByte)

/-- What is known of a call in each phase. -/
def CallSound (s : Exchange) (queue : List Request) (call : Nat) : CallPhase → Prop
  | .idle => s.answer call = none
  | .flagged code _ =>
      s.answer call = none ∧ s.status.flag code = callBackNotReceive ∧ code ∉ s.codes queue
  | .waiting code _ => s.Awaits queue call code
  | .leaving code => s.Awaits queue call code
  | .asking code => s.Awaits queue call code ∧ s.status.flag code ≠ callBackSuccess
  | .returned _ result =>
      (result = .noError → s.answer call = some .execSuccess) ∧
        (result = .errorCommond → s.answer call = some .execFail)

theorem CallSound.awaits {call : Nat} {phase : CallPhase} {code : ProtocolCode}
    (h : s.CallSound queue call phase) (hpushed : phase.pushed? = some code) :
    s.Awaits queue call code := by
  cases phase with
  | waiting _ _ =>
      cases hpushed
      exact h
  | leaving _ =>
      cases hpushed
      exact h
  | asking _ =>
      cases hpushed
      exact h.1
  | _ => cases hpushed

/-- A step of somebody else, as a call sees it: no answer is lost or comes too early, and
the flag and the messages of its command are as before. -/
structure Undisturbed (s : Exchange) (queue : List Request) (next : Exchange)
    (left : List Request) (call : Nat) (phase : CallPhase) : Prop where
  kept : ∀ result, s.answer call = some result → next.answer call = some result
  early : phase.sent? = none → s.answer call = none → next.answer call = none
  flag : ∀ code, phase.active? = some code → next.status.flag code = s.status.flag code
  way : ∀ code, phase.active? = some code → (call, code) ∈ s.onTheWay queue →
    (call, code) ∈ next.onTheWay left
  absent : ∀ code, phase.active? = some code → code ∉ s.codes queue → code ∉ next.codes left

namespace Undisturbed

variable {next : Exchange} {left : List Request} {call : Nat} {phase : CallPhase}

/-- If everything stays on the way, the flag and the answers decide. -/
theorem of_onTheWay_eq (hkept : ∀ result, s.answer call = some result →
      next.answer call = some result)
    (hearly : phase.sent? = none → s.answer call = none → next.answer call = none)
    (hflag : ∀ code, phase.active? = some code →
      next.status.flag code = s.status.flag code)
    (hway : next.onTheWay left = s.onTheWay queue) :
    s.Undisturbed queue next left call phase := by
  have hcodes : next.codes left = s.codes queue := congrArg (List.map Prod.snd) hway
  refine ⟨hkept, hearly, hflag, ?_, ?_⟩
  · intro code _ hmem
    rwa [hway]
  · intro code _ hnot
    rwa [hcodes]

theorem awaits (hstep : s.Undisturbed queue next left call phase) {code : ProtocolCode}
    (hactive : phase.active? = some code) (h : s.Awaits queue call code) :
    next.Awaits left call code := by
  unfold Awaits
  rw [hstep.flag code hactive]
  rcases h with ⟨hmem, hflag⟩ | ⟨hnot, result, hanswer, hflag⟩
  · exact Or.inl ⟨hstep.way code hactive hmem, hflag⟩
  · exact Or.inr ⟨hstep.absent code hactive hnot, result, hstep.kept result hanswer, hflag⟩

theorem callSound (hstep : s.Undisturbed queue next left call phase)
    (h : s.CallSound queue call phase) : next.CallSound left call phase := by
  cases phase with
  | idle => exact hstep.early rfl h
  | flagged code data =>
      obtain ⟨hanswer, hflag, hnot⟩ := h
      exact ⟨hstep.early rfl hanswer, (hstep.flag code rfl).trans hflag,
        hstep.absent code rfl hnot⟩
  | waiting code repeats => exact hstep.awaits rfl h
  | leaving code => exact hstep.awaits rfl h
  | asking code =>
      obtain ⟨hawaits, hflag⟩ := h
      refine ⟨hstep.awaits rfl hawaits, ?_⟩
      rwa [hstep.flag code rfl]
  | returned code result =>
      exact ⟨fun hresult => hstep.kept _ (h.1 hresult),
        fun hresult => hstep.kept _ (h.2 hresult)⟩

end Undisturbed

/-- What holds between steps if `queue` waits in the fifo.  Calls and messages are matched
by the command: at most one message of a command is on the way, and at most one call of it
in progress. -/
structure Sound (s : Exchange) (queue : List Request) : Prop where
  fifo : s.sendFifo.Holds (queue.map Request.command)
  nodup : (s.codes queue).Nodup
  lone : ∀ i j code, (s.phase i).active? = some code → (s.phase j).active? = some code → i = j
  calls : ∀ i, s.CallSound queue i (s.phase i)
  sent : ∀ tag ∈ s.onTheWay queue, (s.phase tag.1).sent? = some tag.2
  unanswered : ∀ request ∈ s.toServer ++ queue, s.answer request.call = none
  answered : ∀ reply ∈ s.toClient, s.answer reply.call = some reply.result

theorem sound_start : start.Sound [] where
  fifo := SendCommandFifo.holds_init
  nodup := List.nodup_nil
  lone := fun _ _ _ h => by cases h
  calls := fun _ => rfl
  sent := fun _ h => by cases h
  unanswered := fun _ h => by cases h
  answered := fun _ h => by cases h

namespace Sound

theorem pending_eq (h : s.Sound queue) : s.pending = queue := by
  unfold pending
  rw [h.fifo.pending_eq, List.filterMap_map]
  exact List.filterMap_some

/-- There are seven commands, so the fifo is never full. -/
theorem room (h : s.Sound queue) : (queue.map Request.command).length < netSendCommandNum := by
  have hsub : (s.codes queue).length ≤ allCodes.length := by
    refine (List.subperm_of_subset h.nodup ?_).length_le
    intro code _
    cases code <;> decide
  have hseven : allCodes.length < netSendCommandNum := by decide
  simp only [codes, onTheWay, List.length_map, List.length_append] at hsub ⊢
  omega

/-- Nothing is on the way for a call that has not pushed its buffer. -/
theorem ne_of_unsent (h : s.Sound queue) {call : Nat} (hunsent : (s.phase call).sent? = none)
    {tag : Nat × ProtocolCode} (htag : tag ∈ s.onTheWay queue) : tag.1 ≠ call := by
  rintro rfl
  have hsent := h.sent tag htag
  rw [hunsent] at hsent
  cases hsent

theorem answersItsCall (h : s.Sound queue) : AnswersItsCall s := by
  intro call code
  have hcall := h.calls call
  constructor
  · intro hphase
    rw [hphase] at hcall
    exact hcall.1 rfl
  · intro hphase
    rw [hphase] at hcall
    exact hcall.2 rfl

/-- A call that waits, looks, or returns: only its own phase changes. -/
theorem rephase (h : s.Sound queue) {call : Nat} {code : ProtocolCode} {phase : CallPhase}
    (hpushed : (s.phase call).pushed? = some code) (hsent : phase.sent? = some code)
    (hcall : s.CallSound queue call phase) : (s.setPhase call phase).Sound queue := by
  have hstill : ∀ i other, ((s.setPhase call phase).phase i).active? = some other →
      (s.phase i).active? = some other := by
    refine active?_of_setPhase ?_
    intro other hi
    rw [CallPhase.eq_of_sent?_of_active? hsent hi]
    exact CallPhase.active?_of_pushed? hpushed
  have hstill' : ∀ i other, (s.phase i).sent? = some other →
      ((s.setPhase call phase).phase i).sent? = some other := by
    refine forall_setPhase (P := fun i next => ∀ other, (s.phase i).sent? = some other →
      next.sent? = some other) ?_ fun i _ other hi => hi
    intro other hi
    rw [hsent, ← hi, CallPhase.sent?_of_pushed? hpushed]
  refine ⟨h.fifo, h.nodup, ?_, ?_, ?_, h.unanswered, h.answered⟩
  · intro i j other hi hj
    exact h.lone i j other (hstill i other hi) (hstill j other hj)
  · exact forall_setPhase (P := s.CallSound queue) hcall fun i _ => h.calls i
  · intro tag htag
    exact hstill' tag.1 tag.2 (h.sent tag htag)

theorem enter (h : s.Sound queue) {call : Nat} {code : ProtocolCode} (data : List UInt8)
    (hidle : s.phase call = .idle) (hfree : s.Free code) :
    (s.enterCall call code data).Sound queue := by
  obtain ⟨hnone, hway⟩ := hfree
  rw [h.pending_eq] at hway
  have hself : (s.enterCall call code data).phase call = .flagged code data :=
    Function.update_self ..
  have hkeep : ∀ i, i ≠ call → (s.enterCall call code data).phase i = s.phase i :=
    fun _ hi => Function.update_of_ne hi ..
  have hflag : ∀ other, (s.enterCall call code data).status.flag other =
      if code = other then callBackNotReceive else s.status.flag other :=
    fun other => RealtimeCommandStatus.flag_setFlag s.status code other callBackNotReceive
  have hfresh : s.answer call = none := by
    have hcall := h.calls call
    rwa [hidle] at hcall
  -- Every other call in progress has another command, whose flag is left alone.
  have hothers : ∀ i, s.Undisturbed queue (s.enterCall call code data) queue i (s.phase i) := by
    intro i
    refine .of_onTheWay_eq (fun _ h => h) (fun _ h => h) ?_ rfl
    intro other hi
    rw [hflag, if_neg]
    rintro rfl
    exact hnone i hi
  refine ⟨h.fifo, h.nodup, ?_, ?_, ?_, h.unanswered, h.answered⟩
  · -- The new call is the only one of its command.
    intro i j other hi hj
    by_cases hicall : i = call <;> by_cases hjcall : j = call
    · rw [hicall, hjcall]
    · rw [hicall, hself] at hi
      rw [hkeep j hjcall] at hj
      cases hi
      exact absurd hj (hnone j)
    · rw [hkeep i hicall] at hi
      rw [hjcall, hself] at hj
      cases hj
      exact absurd hi (hnone i)
    · rw [hkeep i hicall] at hi
      rw [hkeep j hjcall] at hj
      exact h.lone i j other hi hj
  · refine forall_setPhase (P := (s.enterCall call code data).CallSound queue) ?_
      fun i _ => (hothers i).callSound (h.calls i)
    refine ⟨hfresh, ?_, hway⟩
    rw [hflag, if_pos rfl]
  · intro tag htag
    have hcall : tag.1 ≠ call := by
      refine h.ne_of_unsent ?_ htag
      rw [hidle]
      rfl
    rw [hkeep tag.1 hcall]
    exact h.sent tag htag

theorem onTheWay_pushRequest (s : Exchange) (queue : List Request) (request : Request) :
    (s.pushRequest request).onTheWay (queue ++ [request]) =
      s.onTheWay queue ++ [request.tag] := by
  simp [onTheWay, pushRequest, setPhase]

theorem codes_pushRequest (s : Exchange) (queue : List Request) (request : Request) :
    (s.pushRequest request).codes (queue ++ [request]) = s.codes queue ++ [request.code] := by
  unfold codes
  rw [onTheWay_pushRequest, List.map_append]
  rfl

/-- No other call in progress has the command, so their messages are where they were. -/
theorem undisturbed_push (h : s.Sound queue) {request : Request}
    (hactive : (s.phase request.call).active? = some request.code) {i : Nat}
    (hi : i ≠ request.call) :
    s.Undisturbed queue (s.pushRequest request) (queue ++ [request]) i (s.phase i) := by
  refine ⟨fun _ h => h, fun _ h => h, fun _ _ => rfl, ?_, ?_⟩
  · intro code _ hmem
    rw [onTheWay_pushRequest]
    exact List.mem_append_left _ hmem
  · intro code hother hbefore hafter
    rw [codes_pushRequest, List.mem_append, List.mem_singleton] at hafter
    rcases hafter with hold | rfl
    · exact hbefore hold
    · exact hi (h.lone i request.call _ hother hactive)

theorem push (h : s.Sound queue) {request : Request}
    (hphase : s.phase request.call = .flagged request.code request.data) :
    (s.pushRequest request).Sound (queue ++ [request]) := by
  have hcall := h.calls request.call
  rw [hphase] at hcall
  obtain ⟨hanswer, hflag, hnot⟩ := hcall
  have hactive : (s.phase request.call).active? = some request.code := by
    rw [hphase]
    rfl
  have hself : (s.pushRequest request).phase request.call = .waiting request.code 0 :=
    Function.update_self ..
  have hkeep : ∀ i, i ≠ request.call → (s.pushRequest request).phase i = s.phase i :=
    fun _ hi => Function.update_of_ne hi ..
  have hstill : ∀ i code, ((s.pushRequest request).phase i).active? = some code →
      (s.phase i).active? = some code :=
    active?_of_setPhase fun _ hi => hactive.trans hi
  refine ⟨?_, ?_, ?_, ?_, ?_, ?_, h.answered⟩
  · rw [List.map_append]
    exact h.fifo.push h.room _ _
  · rw [codes_pushRequest]
    refine List.nodup_append.mpr ⟨h.nodup, List.nodup_singleton _, ?_⟩
    rintro code hmem _ hcode rfl
    rw [List.mem_singleton.mp hcode] at hmem
    exact hnot hmem
  · intro i j code hi hj
    exact h.lone i j code (hstill i code hi) (hstill j code hj)
  · refine forall_setPhase (P := (s.pushRequest request).CallSound (queue ++ [request])) ?_
      fun i hi => (h.undisturbed_push hactive hi).callSound (h.calls i)
    refine Or.inl ⟨?_, hflag⟩
    rw [onTheWay_pushRequest]
    exact List.mem_append_right _ (List.mem_singleton_self _)
  · intro tag htag
    rw [onTheWay_pushRequest] at htag
    rcases List.mem_append.mp htag with hold | hnew
    · have hcall : tag.1 ≠ request.call := by
        refine h.ne_of_unsent ?_ hold
        rw [hphase]
        rfl
      rw [hkeep tag.1 hcall]
      exact h.sent tag hold
    · rw [List.mem_singleton.mp hnew]
      exact congrArg CallPhase.sent? hself
  · intro other hmem
    rw [← List.append_assoc] at hmem
    rcases List.mem_append.mp hmem with hold | hnew
    · exact h.unanswered other hold
    · rw [List.mem_singleton.mp hnew]
      exact hanswer

theorem transmit {request : Request} (h : s.Sound (request :: queue)) :
    (s.transmitRequest request).Sound queue := by
  have hway : (s.transmitRequest request).onTheWay queue = s.onTheWay (request :: queue) := by
    simp [onTheWay, transmitRequest]
  have hcodes : (s.transmitRequest request).codes queue = s.codes (request :: queue) :=
    congrArg (List.map Prod.snd) hway
  have hcalls : ∀ i, s.Undisturbed (request :: queue) (s.transmitRequest request) queue i
      (s.phase i) :=
    fun _ => .of_onTheWay_eq (fun _ h => h) (fun _ h => h) (fun _ _ => rfl) hway
  refine ⟨h.fifo.pop, ?_, h.lone, fun i => (hcalls i).callSound (h.calls i), ?_, ?_,
    h.answered⟩
  · rw [hcodes]
    exact h.nodup
  · rw [hway]
    exact h.sent
  · intro other hother
    refine h.unanswered other ?_
    rw [List.append_cons]
    exact hother

/-- Two requests of one call would have the same command. -/
theorem call_ne_of_behind (h : s.Sound queue) {request : Request} {rest : List Request}
    (hserver : s.toServer = request :: rest) {other : Request} (hother : other ∈ rest ++ queue) :
    other.call ≠ request.call := by
  intro hcall
  have hway : s.onTheWay queue =
      s.toClient.map Reply.tag ++ request.tag :: (rest ++ queue).map Request.tag := by
    rw [onTheWay, hserver]
    rfl
  have hbehind : other.tag ∈ request.tag :: (rest ++ queue).map Request.tag :=
    List.mem_cons_of_mem _ (List.mem_map_of_mem hother)
  have hsent := h.sent request.tag (hway ▸ List.mem_append_right _ List.mem_cons_self)
  have hsame := h.sent other.tag (hway ▸ List.mem_append_right _ hbehind)
  rw [show other.tag.1 = request.tag.1 from hcall, hsent] at hsame
  have hcode : request.tag.2 = other.tag.2 := Option.some.inj hsame
  have hnodup := h.nodup
  rw [codes, hway, List.map_append, List.map_cons, hcode] at hnodup
  have hfirst := (List.nodup_cons.mp (List.nodup_append.mp hnodup).2.1).1
  exact hfirst (List.mem_map_of_mem (List.mem_map_of_mem hother))

theorem serve (h : s.Sound queue) {request : Request} {rest : List Request}
    (hserver : s.toServer = request :: rest) (result : CallBackStatus) :
    (s.serveRequest request rest result).Sound queue := by
  have hway : (s.serveRequest request rest result).onTheWay queue = s.onTheWay queue := by
    simp [onTheWay, serveRequest, hserver, Reply.tag, Request.tag]
  have hcodes : (s.serveRequest request rest result).codes queue = s.codes queue :=
    congrArg (List.map Prod.snd) hway
  have hhead : request ∈ s.toServer ++ queue := by
    rw [hserver]
    exact List.mem_cons_self
  have hnone : s.answer request.call = none := h.unanswered request hhead
  -- Calls that have an answer, or no request at all, are others than this one.
  have hkeep : ∀ i answer, s.answer i = some answer →
      (s.serveRequest request rest result).answer i = some answer := by
    intro i answer hi
    refine (Function.update_of_ne ?_ _ _).trans hi
    rintro rfl
    rw [hnone] at hi
    cases hi
  have hunsent : ∀ i, (s.phase i).sent? = none → s.answer i = none →
      (s.serveRequest request rest result).answer i = none := by
    intro i hi hanswer
    refine (Function.update_of_ne ?_ _ _).trans hanswer
    have htag : request.tag ∈ s.onTheWay queue :=
      List.mem_append_right _ (List.mem_map_of_mem hhead)
    exact (h.ne_of_unsent hi htag).symm
  have hcalls : ∀ i, s.Undisturbed queue (s.serveRequest request rest result) queue i
      (s.phase i) :=
    fun i => .of_onTheWay_eq (hkeep i) (hunsent i) (fun _ _ => rfl) hway
  refine ⟨h.fifo, ?_, h.lone, fun i => (hcalls i).callSound (h.calls i), ?_, ?_, ?_⟩
  · rw [hcodes]
    exact h.nodup
  · rw [hway]
    exact h.sent
  · intro other hother
    have hmem : other ∈ s.toServer ++ queue := by
      rw [hserver]
      exact List.mem_cons_of_mem _ hother
    refine (Function.update_of_ne ?_ _ _).trans (h.unanswered other hmem)
    exact h.call_ne_of_behind hserver hother
  · intro reply hreply
    rcases List.mem_append.mp hreply with hold | hnew
    · exact hkeep _ _ (h.answered reply hold)
    · rw [List.mem_singleton.mp hnew]
      exact Function.update_self ..

section Receive

variable {reply : Reply} {rest : List Reply}

theorem onTheWay_receiveReply (hclient : s.toClient = reply :: rest) :
    s.onTheWay queue = reply.tag :: (s.receiveReply reply rest).onTheWay queue := by
  simp [onTheWay, receiveReply, hclient]

theorem codes_receiveReply (hclient : s.toClient = reply :: rest) :
    s.codes queue = reply.code :: (s.receiveReply reply rest).codes queue :=
  congrArg (List.map Prod.snd) (onTheWay_receiveReply hclient)

theorem flag_receiveReply (s : Exchange) (reply : Reply) (rest : List Reply)
    (code : ProtocolCode) :
    (s.receiveReply reply rest).status.flag code =
      if reply.code = code then reply.result.toByte else s.status.flag code := by
  show (execCallBack s.status reply.frame).flag code = _
  rw [execCallBack_frame, RealtimeCommandStatus.flag_setFlag]

/-- A call in progress with the command has been waiting for this very answer. -/
theorem awaits_receive (h : s.Sound queue) (hclient : s.toClient = reply :: rest) {i : Nat}
    (hi : (s.phase i).pushed? = some reply.code) :
    (s.receiveReply reply rest).Awaits queue i reply.code := by
  have hnodup := h.nodup
  rw [codes_receiveReply hclient] at hnodup
  have hfirst := (List.nodup_cons.mp hnodup).1
  rcases (h.calls i).awaits hi with ⟨hmem, -⟩ | ⟨hnot, -⟩
  · rw [onTheWay_receiveReply hclient] at hmem
    rcases List.mem_cons.mp hmem with hhead | hlater
    · obtain ⟨rfl, -⟩ := Prod.mk.inj hhead
      refine Or.inr ⟨hfirst, reply.result, ?_, ?_⟩
      · refine h.answered reply ?_
        rw [hclient]
        exact List.mem_cons_self
      · rw [flag_receiveReply, if_pos rfl]
    · exact absurd (List.mem_map.mpr ⟨_, hlater, rfl⟩) hfirst
  · rw [codes_receiveReply hclient] at hnot
    exact absurd List.mem_cons_self hnot

theorem undisturbed_receive (hclient : s.toClient = reply :: rest) {i : Nat}
    (hother : (s.phase i).active? ≠ some reply.code) :
    s.Undisturbed queue (s.receiveReply reply rest) queue i (s.phase i) := by
  refine ⟨fun _ h => h, fun _ h => h, ?_, ?_, ?_⟩
  · intro code hi
    rw [flag_receiveReply, if_neg]
    rintro rfl
    exact hother hi
  · intro code hi hmem
    rw [onTheWay_receiveReply hclient] at hmem
    refine (List.mem_cons.mp hmem).resolve_left ?_
    intro hhead
    obtain ⟨-, rfl⟩ := Prod.mk.inj hhead
    exact hother hi
  · intro code _ hnot hmem
    rw [codes_receiveReply hclient] at hnot
    exact hnot (List.mem_cons_of_mem _ hmem)

/-- The calls after an answer, whether it is theirs or not. -/
theorem calls_receive (h : s.Sound queue) (hclient : s.toClient = reply :: rest)
    (hquiet : reply.result = .execSuccess → ∀ call, s.phase call ≠ .asking reply.code)
    (i : Nat) : (s.receiveReply reply rest).CallSound queue i (s.phase i) := by
  by_cases hactive : (s.phase i).active? = some reply.code
  · have hcall := h.calls i
    have hawaits := fun hi => h.awaits_receive hclient (i := i) hi
    have hasking := fun hresult => hquiet hresult i
    generalize s.phase i = phase at hactive hcall hawaits hasking ⊢
    cases phase with
    | idle => cases hactive
    | flagged _ _ =>
        -- A request that is not pushed yet cannot be answered.
        cases hactive
        rw [CallSound, codes_receiveReply hclient] at hcall
        exact absurd List.mem_cons_self hcall.2.2
    | waiting _ _ =>
        cases hactive
        exact hawaits rfl
    | leaving _ =>
        cases hactive
        exact hawaits rfl
    | asking _ =>
        cases hactive
        refine ⟨hawaits rfl, ?_⟩
        rw [flag_receiveReply, if_pos rfl]
        cases hresult : reply.result with
        | execFail => decide
        | execSuccess => exact absurd rfl (hasking hresult)
    | returned _ _ => cases hactive
  · exact (undisturbed_receive hclient hactive).callSound (h.calls i)

theorem receive (h : s.Sound queue) (hclient : s.toClient = reply :: rest)
    (hquiet : reply.result = .execSuccess → ∀ call, s.phase call ≠ .asking reply.code) :
    (s.receiveReply reply rest).Sound queue := by
  refine ⟨h.fifo, ?_, h.lone, h.calls_receive hclient hquiet, ?_, h.unanswered, ?_⟩
  · have hnodup := h.nodup
    rw [codes_receiveReply hclient] at hnodup
    exact (List.nodup_cons.mp hnodup).2
  · intro tag htag
    refine h.sent tag ?_
    rw [onTheWay_receiveReply hclient]
    exact List.mem_cons_of_mem _ htag
  · intro other hother
    refine h.answered other ?_
    rw [hclient]
    exact List.mem_cons_of_mem _ hother

end Receive

/-- The comparison with `CALL_BACK_SUCCESS`. -/
theorem compareSuccess (h : s.Sound queue) {call : Nat} {code : ProtocolCode}
    (hphase : s.phase call = .leaving code) :
    (s.status.flag code = callBackSuccess →
        (s.setPhase call (.returned code .noError)).Sound queue) ∧
      (s.status.flag code ≠ callBackSuccess →
        (s.setPhase call (.asking code)).Sound queue) := by
  have hpushed : (s.phase call).pushed? = some code := by
    rw [hphase]
    rfl
  have hawaits := (h.calls call).awaits hpushed
  constructor
  · intro hflag
    refine h.rephase hpushed rfl ⟨fun _ => ?_, fun hresult => by cases hresult⟩
    -- The flag is not 0xff any more, so the message is back.
    rcases hawaits with ⟨-, hwaits⟩ | ⟨-, result, hanswer, hresult⟩
    · rw [hwaits] at hflag
      exact absurd hflag (by decide)
    · rw [hanswer]
      rw [hresult] at hflag
      cases result with
      | execFail => exact absurd hflag (by decide)
      | execSuccess => rfl
  · intro hflag
    exact h.rephase hpushed rfl ⟨hawaits, hflag⟩

/-- The comparison with `CALL_BACK_NOT_RECEIVE`. -/
theorem compareNotReceive (h : s.Sound queue) {call : Nat} {code : ProtocolCode}
    (hphase : s.phase call = .asking code) :
    (s.setPhase call (.returned code .netError)).Sound queue ∧
      (s.status.flag code ≠ callBackNotReceive →
        (s.setPhase call (.returned code .errorCommond)).Sound queue) := by
  have hpushed : (s.phase call).pushed? = some code := by
    rw [hphase]
    rfl
  have hcall := h.calls call
  rw [hphase] at hcall
  obtain ⟨hawaits, hfail⟩ := hcall
  constructor
  · refine h.rephase hpushed rfl ⟨?_, ?_⟩
    · intro hresult
      cases hresult
    · intro hresult
      cases hresult
  · intro hflag
    refine h.rephase hpushed rfl ⟨(fun hresult => by cases hresult), fun _ => ?_⟩
    rcases hawaits with ⟨-, hwaits⟩ | ⟨-, result, hanswer, hresult⟩
    · exact absurd hwaits hflag
    · rw [hanswer]
      rw [hresult] at hfail
      cases result with
      | execFail => rfl
      | execSuccess => exact absurd rfl hfail

/-- **Every step that meets the condition keeps what is known of the calls.** -/
theorem step (h : s.Sound queue) {event : ExchangeEvent} {next : Exchange}
    (hcond : OneCallAtATime s event) (hexec : s.exec event = some next) :
    ∃ left, next.Sound left := by
  cases event with
  | enter call code data =>
      cases hphase : s.phase call with
      | idle =>
          simp only [exec, hphase, Option.some.injEq] at hexec
          exact ⟨queue, hexec ▸ h.enter data hphase hcond⟩
      | _ => simp [exec, hphase] at hexec
  | push call =>
      cases hphase : s.phase call with
      | flagged code data =>
          simp only [exec, hphase, Option.some.injEq] at hexec
          have hrequest : s.phase (⟨call, code, data⟩ : Request).call = .flagged code data := hphase
          exact ⟨_, hexec ▸ h.push hrequest⟩
      | _ => simp [exec, hphase] at hexec
  | poll call =>
      cases hphase : s.phase call with
      | waiting code repeats =>
          have hpushed : (s.phase call).pushed? = some code := by
            rw [hphase]
            rfl
          have hawaits := (h.calls call).awaits hpushed
          simp only [exec, hphase] at hexec
          split at hexec
          · exact ⟨queue, Option.some.inj hexec ▸ h.rephase hpushed rfl hawaits⟩
          · exact ⟨queue, Option.some.inj hexec ▸ h.rephase hpushed rfl hawaits⟩
      | _ => simp [exec, hphase] at hexec
  | compareSuccess call =>
      cases hphase : s.phase call with
      | leaving code =>
          obtain ⟨hyes, hno⟩ := h.compareSuccess hphase
          simp only [exec, hphase] at hexec
          split at hexec
          · rename_i hflag
            exact ⟨queue, Option.some.inj hexec ▸ hyes hflag⟩
          · rename_i hflag
            exact ⟨queue, Option.some.inj hexec ▸ hno hflag⟩
      | _ => simp [exec, hphase] at hexec
  | compareNotReceive call =>
      cases hphase : s.phase call with
      | asking code =>
          obtain ⟨hyes, hno⟩ := h.compareNotReceive hphase
          simp only [exec, hphase] at hexec
          split at hexec
          · exact ⟨queue, Option.some.inj hexec ▸ hyes⟩
          · rename_i hflag
            exact ⟨queue, Option.some.inj hexec ▸ hno hflag⟩
      | _ => simp [exec, hphase] at hexec
  | transmit =>
      cases queue with
      | nil =>
          have hempty := h.fifo.empty_iff.mpr rfl
          simp [exec, hempty] at hexec
      | cons request rest =>
          have hempty : sendCommandFifoEmpty s.sendFifo = false := by
            rw [Bool.eq_false_iff]
            intro hempty
            cases h.fifo.empty_iff.mp hempty
          have htop : (sendCommandFifoTop s.sendFifo).data = some request :=
            congrArg NetWorkCommand.data h.fifo.top_eq
          simp only [exec, hempty, Bool.false_eq_true, if_false, htop,
            Option.some.injEq] at hexec
          exact ⟨rest, hexec ▸ h.transmit⟩
  | serve result =>
      cases hserver : s.toServer with
      | nil => simp [exec, hserver] at hexec
      | cons request rest =>
          simp only [exec, hserver, Option.some.injEq] at hexec
          exact ⟨queue, hexec ▸ h.serve hserver result⟩
  | receive =>
      cases hclient : s.toClient with
      | nil => simp [exec, hclient] at hexec
      | cons reply rest =>
          simp only [exec, hclient, Option.some.injEq] at hexec
          have hquiet := hcond reply (by rw [hclient]; rfl)
          exact ⟨queue, hexec ▸ h.receive hclient hquiet⟩

end Sound

end Exchange

/-! ## Whole runs -/

/-- **If no command is called before the answer to its previous call has arrived, and no
success arrives between the last two looks at a flag, every call returns the answer to
itself.** -/
theorem call_result_is_its_answer {trace : List (Transition Exchange ExchangeEvent Unit)}
    {s : Exchange} (hrun : exchangeMachine.Run trace s)
    (hcond : ∀ t ∈ trace, OneCallAtATime t.pre t.event) :
    ∀ reached ∈ exchangeMachine.visited trace, AnswersItsCall reached := by
  have hsound := hrun.conditional_visited (fun reached => ∃ queue, reached.Sound queue)
    OneCallAtATime ?_ ?_ hcond
  · intro reached hreached
    obtain ⟨queue, hqueue⟩ := hsound reached hreached
    exact hqueue.answersItsCall
  · exact ⟨[], Exchange.sound_start⟩
  · rintro t hstep - ⟨queue, hqueue⟩ hmeets
    exact hqueue.step hmeets (hstep.of_map fun _ _ => rfl)

/-- Reached by steps that meet the condition. -/
def Exchange.Orderly (s : Exchange) : Prop :=
  ∃ trace, exchangeMachine.Run trace s ∧ ∀ t ∈ trace, OneCallAtATime t.pre t.event

theorem Exchange.Orderly.step {s next : Exchange} (h : s.Orderly) (event : ExchangeEvent)
    (hexec : s.exec event = some next) (hcond : OneCallAtATime s event) : next.Orderly := by
  obtain ⟨trace, hrun, hall⟩ := h
  have hstep : exchangeMachine.Step ⟨s, event, (), next⟩ :=
    ⟨Option.isSome_of_eq_some hexec, congrArg (Option.map (·, ())) hexec⟩
  refine ⟨trace ++ [⟨s, event, (), next⟩], .step hrun hstep, ?_⟩
  intro t ht
  rcases List.mem_append.mp ht with hold | hlast
  · exact hall t hold
  · rw [List.mem_singleton.mp hlast]
    exact hcond

/-- A call that registers a name and is answered in time. -/
theorem call_result_is_its_answer_register :
    ∃ trace s, exchangeMachine.Run trace s ∧
      (∀ t ∈ trace, OneCallAtATime t.pre t.event) ∧
      s.phase 0 = .returned .registerDevice .noError ∧
      ∀ reached ∈ exchangeMachine.visited trace, AnswersItsCall reached := by
  have hstart : Exchange.start.Orderly := ⟨[], .start, fun _ ht => by cases ht⟩
  have hentered := hstart.step (.enter 0 .registerDevice [97]) rfl
    ⟨(fun _ hactive => by cases hactive), by decide⟩
  have hserved := ((hentered.step (.push 0) rfl trivial).step .transmit rfl trivial).step
    (.serve .execSuccess) rfl trivial
  have hreceived := hserved.step .receive rfl ?_
  · have hreturned := (hreceived.step (.poll 0) rfl trivial).step (.compareSuccess 0) rfl trivial
    obtain ⟨trace, hrun, hcond⟩ := hreturned
    exact ⟨trace, _, hrun, hcond, rfl, call_result_is_its_answer hrun hcond⟩
  · rintro reply - - call hasking
    have hwaits : Function.update (Function.update (fun _ => CallPhase.idle) 0
        (.flagged .registerDevice [97])) 0 (.waiting .registerDevice 0) call =
          .asking reply.code := hasking
    by_cases hcall : call = 0
    · rw [hcall, Function.update_self] at hwaits
      cases hwaits
    · rw [Function.update_of_ne hcall, Function.update_of_ne hcall] at hwaits
      cases hwaits

/-- A call subscribes to a registered device and gives up after three seconds.  A second
call subscribes to a device nobody registered.  Then the answer to the first request
arrives, and the server refuses the second. -/
def lateAnswer : List ExchangeEvent :=
  [.enter 0 .subscribeDevice [97], .push 0] ++ List.replicate 301 (.poll 0) ++
    [.compareSuccess 0, .compareNotReceive 0, .enter 1 .subscribeDevice [98], .push 1,
      .transmit, .serve .execSuccess, .receive, .poll 1, .compareSuccess 1,
      .transmit, .serve .execFail]

/-- **The second call returns the answer to the first.**  It reports success, and its own
request fails. -/
theorem call_returns_late_answer :
    ¬ ∀ s, exchangeMachine.Reachable s → AnswersItsCall s := by
  intro hall
  have hend : (exchangeMachine.replay (fun s event => (s.exec event).isSome) lateAnswer
      exchangeMachine.init).map (fun s => (s.phase 1, s.answer 1)) =
        some (.returned .subscribeDevice .noError, some .execFail) := by
    decide +kernel
  obtain ⟨s, hreplay, hs⟩ := Option.map_eq_some_iff.mp hend
  obtain ⟨hphase, hanswer⟩ := Prod.mk.inj hs
  have hreach := Machine.Reachable.replay (fun _ _ h => h) ⟨[], .start⟩ hreplay
  have hsuccess := (hall s hreach 1 .subscribeDevice).1 hphase
  rw [hanswer] at hsuccess
  cases hsuccess

-- The server's answers to the two requests, when another client has registered the first.
example :
    (do
      let (σ, _) ← Server.exec 300 Server.P2PServer.initial (.up 0 0)
      let (σ, _) ← Server.exec 300 σ (.up 1 0)
      let (σ, _) ← Server.exec 300 σ (.message 1 [0x01, 97] 0)
      let (σ, first) ←
        Server.exec 300 σ (.message 0 (Request.message ⟨0, .subscribeDevice, [97]⟩) 0)
      let (_, second) ←
        Server.exec 300 σ (.message 0 (Request.message ⟨1, .subscribeDevice, [98]⟩) 0)
      return (first, second)) =
      some ([⟨0, Reply.frame ⟨0, .subscribeDevice, .execSuccess⟩⟩],
        [⟨0, Reply.frame ⟨1, .subscribeDevice, .execFail⟩⟩]) := by
  decide +kernel

end Client
end StupidP2P
