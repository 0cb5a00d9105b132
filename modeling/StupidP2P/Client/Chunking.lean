import StupidP2P.Foundation.Reads
import StupidP2P.Client.Accounting
import StupidP2P.Client.RecvLoop
import Mathlib.Data.List.Induction

/-!
# Effects that depend on the sizes of the reads

The array `command` is cleared once per call of the parser, and a call executes all frames
its read completes.  A frame of less than two bytes is therefore executed on top of bytes
of the frames completed by the same read.

* A frame of no bytes repeats the command before it.  That changes nothing: a flag is set
  to the value it has, and the data of length -1 cannot be allocated.
* A callback of one byte takes its result from the latest frame of two bytes or more, if
  that was completed by the same read, and is a failure otherwise.

So the data received never depends on the sizes of the reads, and a flag does exactly when
its last callback has one byte and can take a success from an earlier frame (`Borrows`).

The answer of `calloc` is taken to depend on the size only: a repeated data command makes
one call more.
-/

namespace StupidP2P
namespace Client

open Foundation
open Foundation.Framing
open Server (ProtocolCode)

/-- Whether an allocation succeeds depends on its size only. -/
def SizeOnly (calloc : Calloc) : Prop :=
  ∀ k size, calloc k size = calloc 0 size

/-! ## What a frame does -/

/-- The command a frame is the callback of. -/
def answers (body : List UInt8) : Option ProtocolCode :=
  body.head?.bind callBackCode

/-- The byte at index 1 of the array after a frame, if it was `stale` before. -/
def resultByte (stale : UInt8) (body : List UInt8) : UInt8 :=
  body.getD 1 stale

def staleAfter (stale : UInt8) (frames : List (List UInt8)) : UInt8 :=
  frames.foldl resultByte stale

/-- A flag after some frames that are executed by one call. -/
def flagAfter (code : ProtocolCode) : UInt8 → List (List UInt8) → UInt8 → UInt8
  | _, [], flag => flag
  | stale, body :: frames, flag =>
      flagAfter code (resultByte stale body) frames
        (if answers body = some code then callBackFlag (resultByte stale body) else flag)

/-- A flag after several calls. -/
def flagOver (code : ProtocolCode) (groups : List (List (List UInt8))) (flag : UInt8) : UInt8 :=
  groups.foldl (fun flag frames => flagAfter code 0 frames flag) flag

/-- The message a frame is stored as. -/
def dataOf (calloc : Calloc) (body : List UInt8) : Option RecvData :=
  if body.head? = some 0x03 ∧ calloc 0 (body.length - 1) = true ∧
      calloc 0 sizeofRecvData = true ∧ calloc 0 sizeofRecvDataListNode = true then
    some ⟨(body.length : Int) - 1, body.drop 1⟩
  else none

/-- The effect of some frames executed by one call on a client. -/
structure Effect (calloc : Calloc) (stale : UInt8) (frames : List (List UInt8))
    (r r' : Receiver) : Prop where
  data : r'.node.recvDataList = r.node.recvDataList ++ frames.filterMap (dataOf calloc)
  flag : ∀ code, r'.node.commandStatus.flag code =
    flagAfter code stale frames (r.node.commandStatus.flag code)
  notReceiveNum : r'.node.commandStatus.heartBeatNotReceiveNum =
    r.node.commandStatus.heartBeatNotReceiveNum
  restart : r'.node.needToRestartFlag = r.node.needToRestartFlag

/-- If the array holds a callback, its result is in the flag. -/
def Settled (command : Nat → UInt8) (r : Receiver) : Prop :=
  ∀ code, callBackCode (command 0) = some code →
    r.node.commandStatus.flag code = callBackFlag (command 1)

theorem store_one (body : List UInt8) (command : Nat → UInt8) :
    store 0 body command 1 = resultByte (command 1) body := by
  unfold resultByte
  match body with
  | [] => rfl
  | [b] => rfl
  | b :: c :: body =>
      rw [show (b :: c :: body).getD 1 (command 1) = c from rfl]
      exact store_getElem (k := 1) rfl 0 command

theorem heartBeatNotReceiveNum_setFlag (status : RealtimeCommandStatus) (code : ProtocolCode)
    (flag : UInt8) :
    (status.setFlag code flag).heartBeatNotReceiveNum = status.heartBeatNotReceiveNum := by
  cases code <;> rfl

section

variable {calloc : Calloc} {command : Nat → UInt8} {r : Receiver} {body : List UInt8}

/-- A frame of no bytes repeats the command in the array, to no effect. -/
theorem execCommand_empty (hhuge : RefusesHuge calloc) (hsettled : Settled command r) :
    ∃ r', execCommand calloc command 0 r = some r' ∧ Effect calloc (command 1) [[]] r r' ∧
      Settled command r' := by
  have hsame : ∀ r', r'.node.recvDataList = r.node.recvDataList →
      (∀ code, r'.node.commandStatus.flag code = r.node.commandStatus.flag code) →
      r'.node.commandStatus.heartBeatNotReceiveNum =
        r.node.commandStatus.heartBeatNotReceiveNum →
      r'.node.needToRestartFlag = r.node.needToRestartFlag →
      Effect calloc (command 1) [[]] r r' ∧ Settled command r' := by
    intro r' hdata hflag hnum hrestart
    refine ⟨⟨?_, hflag, hnum, hrestart⟩, ?_⟩
    · rw [hdata]
      exact (List.append_nil _).symm
    · intro code hcode
      rw [hflag]
      exact hsettled code hcode
  unfold execCommand
  split
  · have hnone : calloc r.callocs (wrap32 (0 - 1) % 18446744073709551616).toNat = false :=
      hhuge _ _ (by decide)
    refine ⟨r.spend 1, ?_, hsame _ rfl (fun _ => rfl) rfl rfl⟩
    unfold execSendData
    dsimp only
    rw [hnone]
    rfl
  · cases hcode : callBackCode (command 0) with
    | none => exact ⟨r, rfl, hsame r rfl (fun _ => rfl) rfl rfl⟩
    | some code =>
        refine ⟨_, rfl, hsame _ rfl ?_ ?_ rfl⟩
        · intro other
          change (r.node.commandStatus.setFlag code _).flag other = _
          rw [RealtimeCommandStatus.flag_setFlag]
          split
          · rename_i heq
            rw [← heq, hsettled code hcode]
          · rfl
        · exact heartBeatNotReceiveNum_setFlag _ _ _

/-- A data frame touches the list of messages only: its payload is appended if the three
allocations succeed. -/
theorem execSendData_effect (hsize : SizeOnly calloc) (hself : SelfContained body)
    (hthree : body.head? = some 0x03) :
    ∃ r', execSendData calloc (store 0 body command) body.length r = some r' ∧
      r'.node.recvDataList = r.node.recvDataList ++ (dataOf calloc body).toList ∧
      r'.node.commandStatus = r.node.commandStatus ∧
      r'.node.needToRestartFlag = r.node.needToRestartFlag := by
  rw [execSendData_frame hself, hsize (r.callocs + 1), hsize (r.callocs + 2), hsize r.callocs]
  by_cases h₁ : calloc 0 (body.length - 1) = true
  · by_cases h₂ : calloc 0 sizeofRecvData = true
    · by_cases h₃ : calloc 0 sizeofRecvDataListNode = true
      · rw [if_pos h₁, if_pos h₂, if_pos h₃]
        refine ⟨_, rfl, ?_, rfl, rfl⟩
        rw [dataOf, if_pos ⟨hthree, h₁, h₂, h₃⟩]
        rfl
      · rw [if_pos h₁, if_pos h₂, if_neg h₃]
        refine ⟨_, rfl, ?_, rfl, rfl⟩
        rw [dataOf, if_neg (fun h => h₃ h.2.2.2)]
        exact (List.append_nil _).symm
    · rw [if_pos h₁, if_neg h₂]
      refine ⟨_, rfl, ?_, rfl, rfl⟩
      rw [dataOf, if_neg (fun h => h₂ h.2.2.1)]
      exact (List.append_nil _).symm
  · rw [if_neg h₁]
    refine ⟨_, rfl, ?_, rfl, rfl⟩
    rw [dataOf, if_neg (fun h => h₁ h.2.1)]
    exact (List.append_nil _).symm

/-- A frame of one byte or more replaces the command in the array. -/
theorem execCommand_nonempty (hsize : SizeOnly calloc) (hne : 1 ≤ body.length)
    (hfits : body.length ≤ 2048) :
    ∃ r', execCommand calloc (store 0 body command) body.length r = some r' ∧
      Effect calloc (command 1) [body] r r' ∧ Settled (store 0 body command) r' := by
  have hhead : body.head? = some (body.headD 0) := by
    cases body with
    | nil => simp at hne
    | cons b body => rfl
  have hanswers : answers body = callBackCode (body.headD 0) := by
    rw [answers, hhead]
    rfl
  unfold execCommand
  unfold Settled
  rw [store_zero hne]
  by_cases hdata : body.headD 0 = 0x03
  · have hcode : callBackCode (body.headD 0) = none := by
      rw [hdata]
      rfl
    have hself : SelfContained body := ⟨hne, hfits, fun h => absurd hcode h⟩
    obtain ⟨r', hexec, hlist, hstatus, hrestart⟩ :=
      @execSendData_effect calloc command r body hsize hself (by rw [hhead, hdata])
    rw [if_pos hdata]
    refine ⟨r', hexec, ⟨?_, ?_, by rw [hstatus], hrestart⟩, ?_⟩
    · rw [hlist, List.filterMap_eq_flatMap_toList, List.flatMap_singleton]
    · intro code
      rw [hstatus, flagAfter, hanswers, hcode, if_neg (by simp), flagAfter]
    · intro code hsome
      rw [hcode] at hsome
      simp at hsome
  · have hno : dataOf calloc body = none := by
      rw [dataOf, if_neg]
      rintro ⟨hthree, -⟩
      rw [hhead] at hthree
      exact hdata (Option.some.inj hthree)
    have hlist : ∀ list : List RecvData, list = list ++ [body].filterMap (dataOf calloc) := by
      intro list
      rw [List.filterMap_cons_none hno, List.filterMap_nil, List.append_nil]
    rw [if_neg hdata]
    cases hcode : callBackCode (body.headD 0) with
    | none =>
        refine ⟨r, rfl, ⟨hlist _, ?_, rfl, rfl⟩, by simp⟩
        intro code
        rw [flagAfter, hanswers, hcode, if_neg (by simp), flagAfter]
    | some code =>
        refine ⟨_, rfl, ⟨hlist _, ?_, heartBeatNotReceiveNum_setFlag _ _ _, rfl⟩, ?_⟩
        · intro other
          change (r.node.commandStatus.setFlag code _).flag other = _
          rw [RealtimeCommandStatus.flag_setFlag, flagAfter, hanswers, hcode, flagAfter,
            store_one]
          simp only [Option.some.injEq]
        · intro other hother
          rw [← Option.some.inj hother]
          change (r.node.commandStatus.setFlag code _).flag code = _
          rw [RealtimeCommandStatus.flag_setFlag, if_pos rfl]

end

/-! ## One call, and all of them -/

/-- **One call of the parser.** -/
theorem runFrames_effect {calloc : Calloc} (hhuge : RefusesHuge calloc) (hsize : SizeOnly calloc)
    {frames : List (List UInt8)} (hfits : ∀ body ∈ frames, body.length ≤ 2048)
    {command : Nat → UInt8} {r : Receiver} (hsettled : Settled command r) :
    ∃ r', runFrames calloc command frames r = some r' ∧
      Effect calloc (command 1) frames r r' := by
  induction frames generalizing command r with
  | nil => exact ⟨r, rfl, (List.append_nil _).symm, fun _ => rfl, rfl, rfl⟩
  | cons body frames ih =>
      obtain ⟨hbody, hframes⟩ := List.forall_mem_cons.mp hfits
      have hlogged : Settled command (r.log ⟨body.length, body⟩) := hsettled
      have hexec : ∃ next, execCommand calloc (store 0 body command) body.length
          (r.log ⟨body.length, body⟩) = some next ∧
            Effect calloc (command 1) [body] (r.log ⟨body.length, body⟩) next ∧
            Settled (store 0 body command) next := by
        cases body with
        | nil => exact execCommand_empty hhuge hlogged
        | cons b body => exact execCommand_nonempty hsize (by simp) hbody
      obtain ⟨next, hnext, heffect, hsettled'⟩ := hexec
      obtain ⟨r', hr', hlater⟩ := ih hframes hsettled'
      rw [store_one] at hlater
      rw [runFrames, hnext]
      refine ⟨r', hr', ?_⟩
      constructor
      case data =>
        rw [hlater.data, heffect.data, List.append_assoc, ← List.filterMap_append]
        rfl
      case flag =>
        intro code
        rw [hlater.flag, heffect.flag]
        rfl
      case notReceiveNum => exact hlater.notReceiveNum.trans heffect.notReceiveNum
      case restart => exact hlater.restart.trans heffect.restart

theorem length_le_of_mem_frames {bytes : List UInt8} :
    ∀ body ∈ (decode fits bytes).frames, body.length ≤ 2048 := by
  intro body hbody
  obtain ⟨len, hlen, hlength⟩ := admitted_of_mem_frames bytes body hbody
  simp only [fits, decide_eq_true_eq] at hlen
  omega

/-- The effect of a whole stream, read by read. -/
structure StreamEffect (calloc : Calloc) (queue : List UInt8) (chunks : List (List UInt8))
    (r r' : Receiver) : Prop where
  data : r'.node.recvDataList = r.node.recvDataList ++
    (decode fits (queue ++ chunks.flatten)).frames.filterMap (dataOf calloc)
  flag : ∀ code, r'.node.commandStatus.flag code =
    flagOver code (completedBy fits queue chunks) (r.node.commandStatus.flag code)
  notReceiveNum : r'.node.commandStatus.heartBeatNotReceiveNum =
    r.node.commandStatus.heartBeatNotReceiveNum

section

variable {calloc : Calloc} {r : Receiver} {queue : List UInt8}

/-- One read. -/
theorem recvRound_effect (hhuge : RefusesHuge calloc) (hsize : SizeOnly calloc)
    (hflag : r.node.needToRestartFlag = false) (hfifo : r.node.recvFifo.Holds queue)
    (hqueue : decode fits queue = ⟨[], queue, false⟩) {bytes : List UInt8}
    (hbytes : 1 ≤ bytes.length ∧ bytes.length ≤ 4096)
    (hfits : (decode fits (queue ++ bytes)).stopped = false) :
    ∃ r', recvRound calloc r (.chunk bytes) = some r' ∧
      r'.node.recvFifo.Holds (decode fits (queue ++ bytes)).rest ∧
      Effect calloc 0 (decode fits (queue ++ bytes)).frames r r' := by
  have hresidue := length_lt_of_fits hqueue
  have hcapacity : netReadDataLength = 8192 := rfl
  obtain ⟨pushed, hpushed, hround⟩ :=
    @recvRound_of_room calloc r queue bytes hflag hfifo hbytes.1 (by omega)
  have hsettled : Settled (fun _ => 0) (r.setFifo pushed) := by
    intro code hcode
    simp [callBackCode] at hcode
  obtain ⟨r', hrun, heffect⟩ :=
    runFrames_effect hhuge hsize (@length_le_of_mem_frames (queue ++ bytes)) hsettled
  obtain ⟨fifo, hleft, hparse⟩ := parseRecvNetCommand_eq hpushed hfits hrun
  exact ⟨r'.setFifo fifo, hround.trans hparse, hleft,
    heffect.data, heffect.flag, heffect.notReceiveNum, heffect.restart⟩

/-- **All reads.**  The invariant is that the ring holds what is left over. -/
theorem recvAll_effect (hhuge : RefusesHuge calloc) (hsize : SizeOnly calloc)
    (hflag : r.node.needToRestartFlag = false) (hfifo : r.node.recvFifo.Holds queue)
    (hqueue : decode fits queue = ⟨[], queue, false⟩) {chunks : List (List UInt8)}
    (hchunks : ∀ bytes ∈ chunks, 1 ≤ bytes.length ∧ bytes.length ≤ 4096)
    (hfits : (decode fits (queue ++ chunks.flatten)).stopped = false) :
    ∃ r', recvAll calloc r chunks = some r' ∧ StreamEffect calloc queue chunks r r' := by
  induction chunks generalizing r queue with
  | nil =>
      refine ⟨r, rfl, ?_, fun _ => rfl, rfl⟩
      rw [List.flatten_nil, List.append_nil, hqueue]
      exact (List.append_nil _).symm
  | cons bytes chunks ih =>
      obtain ⟨hbytes, hrest⟩ := List.forall_mem_cons.mp hchunks
      have happend := @decode_append fits (queue ++ bytes) chunks.flatten
      rw [List.flatten_cons, ← List.append_assoc, happend] at hfits
      have hfirst := stopped_of_append hfits
      obtain ⟨next, hround, hleft, heffect⟩ :=
        recvRound_effect hhuge hsize hflag hfifo hqueue hbytes hfirst
      have hempty := @decode_rest fits (queue ++ bytes)
      rw [hfirst] at hempty
      obtain ⟨r', hall, hlater⟩ := ih (heffect.restart.trans hflag) hleft hempty hrest hfits
      refine ⟨r', ?_, ?_⟩
      · rw [recvAll, List.foldlM_cons, hround]
        exact hall
      · constructor
        case data =>
          rw [hlater.data, heffect.data, List.flatten_cons, ← List.append_assoc queue, happend,
            List.filterMap_append, List.append_assoc]
        case flag =>
          intro code
          rw [hlater.flag, heffect.flag]
          rfl
        case notReceiveNum => exact hlater.notReceiveNum.trans heffect.notReceiveNum

end

/-! ## The last callback decides -/

section

variable {code : ProtocolCode}

theorem flagAfter_append (xs ys : List (List UInt8)) (stale flag : UInt8) :
    flagAfter code stale (xs ++ ys) flag =
      flagAfter code (staleAfter stale xs) ys (flagAfter code stale xs flag) := by
  induction xs generalizing stale flag with
  | nil => rfl
  | cons body xs ih =>
      rw [List.cons_append, flagAfter, ih]
      rfl

theorem flagAfter_of_no_answer {frames : List (List UInt8)}
    (hnone : ∀ body ∈ frames, answers body ≠ some code) (stale flag : UInt8) :
    flagAfter code stale frames flag = flag := by
  induction frames generalizing stale with
  | nil => rfl
  | cons body frames ih =>
      obtain ⟨hbody, hframes⟩ := List.forall_mem_cons.mp hnone
      rw [flagAfter, if_neg hbody, ih hframes]

theorem flagOver_of_no_answer {groups : List (List (List UInt8))}
    (hnone : ∀ body ∈ groups.flatten, answers body ≠ some code) (flag : UInt8) :
    flagOver code groups flag = flag := by
  induction groups generalizing flag with
  | nil => rfl
  | cons frames groups ih =>
      rw [List.flatten_cons] at hnone
      obtain ⟨hframes, hgroups⟩ := List.forall_mem_append.mp hnone
      rw [flagOver, List.foldl_cons, flagAfter_of_no_answer hframes]
      exact ih hgroups flag

/-- The flag after all groups is the result of the last callback, executed in its group. -/
theorem flagOver_eq {earlier later : List (List (List UInt8))} {before after : List (List UInt8)}
    {body : List UInt8} (hanswers : answers body = some code)
    (hafter : ∀ other ∈ after ++ later.flatten, answers other ≠ some code) (flag : UInt8) :
    flagOver code (earlier ++ (before ++ body :: after) :: later) flag =
      callBackFlag (resultByte (staleAfter 0 before) body) := by
  obtain ⟨hgroup, hlater⟩ := List.forall_mem_append.mp hafter
  rw [flagOver, List.foldl_append, List.foldl_cons]
  refine (flagOver_of_no_answer hlater _).trans ?_
  rw [flagAfter_append, flagAfter, if_pos hanswers, flagAfter_of_no_answer hgroup]

/-- A frame of the stream is in one of the groups. -/
theorem exists_group {groups : List (List (List UInt8))} {before after : List (List UInt8)}
    {body : List UInt8} (hflatten : groups.flatten = before ++ body :: after) :
    ∃ earlier front back later, groups = earlier ++ (front ++ body :: back) :: later ∧
      before = earlier.flatten ++ front ∧ after = back ++ later.flatten := by
  induction groups generalizing before with
  | nil => simp at hflatten
  | cons group groups ih =>
      rw [List.flatten_cons, List.append_eq_append_iff] at hflatten
      rcases hflatten with ⟨front, rfl, hrest⟩ | ⟨back, rfl, hrest⟩
      · obtain ⟨earlier, front', back', later, rfl, rfl, rfl⟩ := ih hrest
        exact ⟨group :: earlier, front', back', later, rfl, by simp, rfl⟩
      · cases back with
        | nil =>
            -- The group ends in front of the frame.
            obtain ⟨earlier, front', back', later, rfl, hfront, rfl⟩ :=
              @ih [] (by simpa using hrest.symm)
            refine ⟨(before ++ []) :: earlier, front', back', later, rfl, ?_, rfl⟩
            rw [List.flatten_cons, List.append_assoc, ← hfront]
            simp
        | cons first back =>
            rw [List.cons_append, List.cons.injEq] at hrest
            obtain ⟨rfl, rfl⟩ := hrest
            exact ⟨[], before, back, groups, rfl, rfl, rfl⟩

/-- Either no frame is a callback of the command, or there is a last one. -/
theorem last_answer (code : ProtocolCode) (frames : List (List UInt8)) :
    (∀ body ∈ frames, answers body ≠ some code) ∨
      ∃ before body after, frames = before ++ body :: after ∧ answers body = some code ∧
        ∀ other ∈ after, answers other ≠ some code := by
  induction frames with
  | nil => exact Or.inl (by simp)
  | cons first frames ih =>
      rcases ih with hnone | ⟨before, body, after, rfl, hbody, hafter⟩
      · by_cases hfirst : answers first = some code
        · exact Or.inr ⟨[], first, frames, rfl, hfirst, hnone⟩
        · exact Or.inl (List.forall_mem_cons.mpr ⟨hfirst, hnone⟩)
      · exact Or.inr ⟨first :: before, body, after, rfl, hbody, hafter⟩

/-- A success left in the array comes from the latest frame of two bytes or more. -/
theorem staleAfter_eq_one {frames : List (List UInt8)} (hone : staleAfter 0 frames = 1) :
    ∃ before lender between, frames = before ++ lender :: between ∧ lender[1]? = some 1 ∧
      ∀ body ∈ between, body.length ≤ 1 := by
  induction frames using List.reverseRecOn with
  | nil => exact absurd hone (by decide)
  | append_singleton frames last ih =>
      rw [staleAfter, List.foldl_append, List.foldl_cons, List.foldl_nil, resultByte,
        List.getD_eq_getElem?_getD] at hone
      cases hlast : last[1]? with
      | some value =>
          rw [hlast, Option.getD_some] at hone
          subst hone
          exact ⟨frames, last, [], rfl, hlast, by simp⟩
      | none =>
          rw [hlast, Option.getD_none] at hone
          obtain ⟨before, lender, between, rfl, hlender, hbetween⟩ := ih hone
          refine ⟨before, lender, between ++ [last], by simp, hlender, ?_⟩
          rw [List.getElem?_eq_none_iff] at hlast
          exact List.forall_mem_append.mpr ⟨hbetween, by simpa using hlast⟩

/-- Its frame is found again: frames of less than two bytes leave index 1 alone. -/
theorem staleAfter_of_short {frames : List (List UInt8)}
    (hshort : ∀ body ∈ frames, body.length ≤ 1) (stale : UInt8) :
    staleAfter stale frames = stale := by
  induction frames generalizing stale with
  | nil => rfl
  | cons body frames ih =>
      obtain ⟨hbody, hframes⟩ := List.forall_mem_cons.mp hshort
      have hkept : resultByte stale body = stale := by
        rw [resultByte, List.getD_eq_getElem?_getD, List.getElem?_eq_none (by omega)]
        rfl
      rw [staleAfter, List.foldl_cons, hkept]
      exact ih hframes stale

end

/-! ## Borrowed results -/

/-- The last callback of a command has one byte, `b`; the latest frame of two bytes or more
before it, `lender`, has the byte of a success at index 1; and one read can complete both. -/
structure Borrows (frames before : List (List UInt8)) (lender : List UInt8)
    (between : List (List UInt8)) (b : UInt8) (after : List (List UInt8))
    (code : ProtocolCode) : Prop where
  split : frames = before ++ lender :: (between ++ [b] :: after)
  callBack : callBackCode b = some code
  last : ∀ other ∈ after, answers other ≠ some code
  success : lender[1]? = some 1
  short : ∀ body ∈ between, body.length ≤ 1
  near : frameBytes (between ++ [[b]]) ≤ 4095

/-- Some flag takes the result of another frame, or not, as the reads have it. -/
def BorrowsResult (frames : List (List UInt8)) : Prop :=
  ∃ before lender between b after code, Borrows frames before lender between b after code

theorem callBackFlag_of_ne {byte : UInt8} (hne : byte ≠ 1) : callBackFlag byte = 0 :=
  if_neg hne

/-- **Nothing is borrowed.**  Then the last callback has the result it has on a cleared
array, whatever frames were completed together. -/
theorem flagOver_of_not_borrows {code : ProtocolCode} {groups : List (List (List UInt8))}
    {before after : List (List UInt8)} {body : List UInt8}
    (hflatten : groups.flatten = before ++ body :: after)
    (hreads : ∀ group ∈ groups, ∀ first others, group = first :: others →
      frameBytes others < 4096)
    (hnot : ¬ BorrowsResult groups.flatten) (hanswers : answers body = some code)
    (hafter : ∀ other ∈ after, answers other ≠ some code) (flag : UInt8) :
    flagOver code groups flag = callBackFlag (resultByte 0 body) := by
  obtain ⟨earlier, front, back, later, rfl, rfl, rfl⟩ := exists_group hflatten
  rw [flagOver_eq hanswers hafter]
  match body, hanswers with
  | b :: c :: body, _ => rfl
  | [b], hanswers =>
      change callBackFlag (staleAfter 0 front) = callBackFlag 0
      by_cases hone : staleAfter 0 front = 1
      · exfalso
        obtain ⟨start, lender, between, rfl, hlender, hbetween⟩ := staleAfter_eq_one hone
        apply hnot
        refine ⟨earlier.flatten ++ start, lender, between, b, back ++ later.flatten, code, ?_⟩
        constructor
        case split =>
          rw [hflatten]
          simp
        case callBack => exact hanswers
        case last => exact hafter
        case success => exact hlender
        case short => exact hbetween
        case near =>
          -- The lender was completed by the read, or frames before it were.
          have hgroup := hreads _ (List.mem_append_right _ List.mem_cons_self)
          cases start with
          | nil =>
              have hlt := hgroup lender (between ++ [b] :: back) (by simp)
              simp only [frameBytes_append, frameBytes_cons, frameBytes_nil] at hlt ⊢
              omega
          | cons first start =>
              have hlt := hgroup first (start ++ lender :: (between ++ [b] :: back)) (by simp)
              simp only [frameBytes_append, frameBytes_cons, frameBytes_nil] at hlt ⊢
              omega
      · rw [callBackFlag_of_ne hone]
        rfl

/-! ## Two splittings of one stream -/

/-- The stream, cut into reads. -/
structure Splits (stream : List UInt8) (chunks : List (List UInt8)) : Prop where
  flatten_eq : chunks.flatten = stream
  sizes : ∀ bytes ∈ chunks, 1 ≤ bytes.length ∧ bytes.length ≤ 4096

/-- Every byte in a read of its own. -/
def singles (bytes : List UInt8) : List (List UInt8) :=
  bytes.map fun byte => [byte]

theorem flatten_singles (bytes : List UInt8) : (singles bytes).flatten = bytes := by
  induction bytes with
  | nil => rfl
  | cons byte bytes ih => exact congrArg (byte :: ·) ih

theorem length_of_mem_singles {bytes : List UInt8} :
    ∀ chunk ∈ singles bytes, chunk.length = 1 := by
  intro chunk hchunk
  obtain ⟨byte, -, rfl⟩ := List.mem_map.mp hchunk
  rfl

theorem splits_singles (stream : List UInt8) : Splits stream (singles stream) := by
  refine ⟨flatten_singles stream, ?_⟩
  intro bytes hbytes
  rw [length_of_mem_singles bytes hbytes]
  omega

theorem frames_nil : (decode fits []).frames = [] := by
  rw [decode_of_short rfl]

/-- Byte by byte, no two frames are completed together. -/
theorem flagOver_singles {code : ProtocolCode} {stream : List UInt8}
    {before after : List (List UInt8)} {b : UInt8}
    (hframes : (decode fits stream).frames = before ++ [b] :: after)
    (hcallBack : callBackCode b = some code)
    (hafter : ∀ other ∈ after, answers other ≠ some code) (flag : UInt8) :
    flagOver code (completedBy fits [] (singles stream)) flag = 0 := by
  have hflatten := @flatten_completedBy fits [] (singles stream) frames_nil
  rw [List.nil_append, flatten_singles, hframes] at hflatten
  obtain ⟨earlier, front, back, later, hgroups, rfl, rfl⟩ := exists_group hflatten
  have hreads := @frameBytes_lt_of_mem_completedBy fits [] (singles stream) 1 frames_nil
    (fun chunk hchunk => Nat.le_of_eq (length_of_mem_singles chunk hchunk))
  rw [hgroups] at hreads ⊢
  cases front with
  | nil =>
      rw [flagOver_eq (show answers [b] = some code from hcallBack) hafter]
      rfl
  | cons first front =>
      have hlt := hreads _ (List.mem_append_right _ List.mem_cons_self) first
        (front ++ [b] :: back) rfl
      rw [frameBytes_append, frameBytes_cons] at hlt
      omega

theorem fits_of_length_le {bodies : List (List UInt8)}
    (hle : ∀ body ∈ bodies, body.length ≤ 2048) :
    ∀ body ∈ bodies, fits body.length = true ∧ body.length < 2147483648 := by
  intro body hbody
  have hlength := hle body hbody
  refine ⟨?_, by omega⟩
  simp only [fits, decide_eq_true_eq]
  omega

/-- All of a frame but its last byte. -/
def opening (body : List UInt8) : List UInt8 := bigEndian body.length ++ body.dropLast

theorem opening_append {body : List UInt8} (hne : body ≠ []) (bytes : List UInt8) :
    opening body ++ body.getLast hne :: bytes = encodeFrame body ++ bytes := by
  have hbody : body.dropLast ++ body.getLast hne :: bytes = body ++ bytes := by
    rw [List.append_cons, List.dropLast_concat_getLast hne]
  rw [opening, encodeFrame, List.append_assoc, List.append_assoc, hbody]

/-- It waits for that byte. -/
theorem decode_opening {before : List (List UInt8)} {body : List UInt8} (hne : body ≠ [])
    (hbefore : ∀ other ∈ before, other.length ≤ 2048) (hbody : body.length ≤ 2048) :
    decode fits (encodeAll before ++ opening body) = ⟨before, opening body, false⟩ := by
  have hpos := List.length_pos_of_ne_nil hne
  have hshort : head fits (opening body) = .short := by
    have hvalue := @headerValue_bigEndian body.length (by omega)
    refine head_short_iff.mpr (Or.inr ⟨_, _, _, _, body.dropLast, rfl, ?_, ?_⟩)
    · rw [hvalue]
      exact (fits_of_length_le (List.forall_mem_singleton.mpr hbody) body (by simp)).1
    · rw [hvalue, Int.toNat_natCast, List.length_dropLast]
      omega
  rw [decode_append, decode_encodeAll (fits_of_length_le hbefore), List.nil_append,
    decode_of_short hshort, List.append_nil]

section Borrowing

variable {stream : List UInt8} {before between after : List (List UInt8)}
variable {lender : List UInt8} {b : UInt8} {code : ProtocolCode}

theorem Borrows.lengths_le
    (h : Borrows (decode fits stream).frames before lender between b after code) :
    (∀ body ∈ before, body.length ≤ 2048) ∧
      (∀ body ∈ lender :: (between ++ [[b]]), body.length ≤ 2048) ∧
      ∀ body ∈ after, body.length ≤ 2048 := by
  have hlengths := @length_le_of_mem_frames stream
  rw [h.split] at hlengths
  obtain ⟨hbefore, hlengths⟩ := List.forall_mem_append.mp hlengths
  obtain ⟨hlender, hlengths⟩ := List.forall_mem_cons.mp hlengths
  obtain ⟨hbetween, hlengths⟩ := List.forall_mem_append.mp hlengths
  obtain ⟨hborrower, hafter⟩ := List.forall_mem_cons.mp hlengths
  refine ⟨hbefore, List.forall_mem_cons.mpr ⟨hlender, ?_⟩, hafter⟩
  exact List.forall_mem_append.mpr ⟨hbetween, List.forall_mem_singleton.mpr hborrower⟩

theorem Borrows.lender_ne_nil
    (h : Borrows (decode fits stream).frames before lender between b after code) :
    lender ≠ [] := by
  rintro rfl
  exact absurd h.success (by simp)

/-- From the last byte of the lender to the borrower. -/
def lending (lender : List UInt8) (hne : lender ≠ []) (between : List (List UInt8))
    (b : UInt8) : List UInt8 :=
  lender.getLast hne :: encodeAll (between ++ [[b]])

/-- The stream, cut before and after that. -/
theorem Borrows.stream_eq
    (h : Borrows (decode fits stream).frames before lender between b after code) :
    stream = (encodeAll before ++ opening lender) ++
      (lending lender h.lender_ne_nil between b ++
        (encodeAll after ++ (decode fits stream).rest)) := by
  have hall := @encodeAll_frames fits (by
    intro len hlen
    simp only [fits, decide_eq_true_eq] at hlen
    exact hlen.1) stream
  rw [h.split, encodeAll_append, encodeAll_cons, List.append_cons between [b],
    encodeAll_append (between ++ [[b]])] at hall
  calc stream
      = encodeAll before ++ (encodeFrame lender ++ (encodeAll (between ++ [[b]]) ++
          (encodeAll after ++ (decode fits stream).rest))) := by
        simp only [List.append_assoc] at hall
        exact hall.symm
    _ = encodeAll before ++ (opening lender ++ (lending lender h.lender_ne_nil between b ++
          (encodeAll after ++ (decode fits stream).rest))) := by
        rw [← opening_append h.lender_ne_nil, lending, List.cons_append]
    _ = _ := (List.append_assoc _ _ _).symm

/-- The frames it completes when it is read in one piece. -/
theorem Borrows.decode_lending
    (h : Borrows (decode fits stream).frames before lender between b after code) :
    decode fits (opening lender ++ lending lender h.lender_ne_nil between b) =
      ⟨lender :: (between ++ [[b]]), [], false⟩ := by
  rw [lending, opening_append h.lender_ne_nil, ← encodeAll_cons]
  exact decode_encodeAll (fits_of_length_le h.lengths_le.2.1)

/-- One read from the last byte of the lender to the borrower makes the callback a
success. -/
theorem exists_splits_success
    (h : Borrows (decode fits stream).frames before lender between b after code) :
    ∃ chunks, Splits stream chunks ∧
      ∀ flag, flagOver code (completedBy fits [] chunks) flag = 1 := by
  obtain ⟨hbefore, hlent, hafter⟩ := h.lengths_le
  let middle := lending lender h.lender_ne_nil between b
  let closing := encodeAll after ++ (decode fits stream).rest
  have hopening := decode_opening h.lender_ne_nil hbefore (List.forall_mem_cons.mp hlent).1
  have hclosing : (decode fits closing).frames = after := by
    rw [decode_append, decode_encodeAll (fits_of_length_le hafter), List.nil_append,
      frames_rest, List.append_nil]
  refine ⟨singles (encodeAll before ++ opening lender) ++ middle :: singles closing,
    ⟨?_, ?_⟩, ?_⟩
  · rw [List.flatten_append, List.flatten_cons, flatten_singles, flatten_singles]
    exact h.stream_eq.symm
  · have hnear := h.near
    have hlength : middle.length = 1 + frameBytes (between ++ [[b]]) := by
      rw [← length_encodeAll]
      simp only [middle, lending, List.length_cons]
      omega
    refine List.forall_mem_append.mpr ⟨(splits_singles _).sizes, ?_⟩
    exact List.forall_mem_cons.mpr ⟨by omega, (splits_singles _).sizes⟩
  · intro flag
    have hgroups : completedBy fits []
        (singles (encodeAll before ++ opening lender) ++ middle :: singles closing) =
          completedBy fits [] (singles (encodeAll before ++ opening lender)) ++
            ((lender :: between) ++ [b] :: []) :: completedBy fits [] (singles closing) := by
      rw [completedBy_append frames_nil, List.nil_append, flatten_singles, hopening, completedBy,
        h.decode_lending]
      rfl
    have hlater : ∀ other ∈ [] ++ (completedBy fits [] (singles closing)).flatten,
        answers other ≠ some code := by
      rw [flatten_completedBy frames_nil, List.nil_append, List.nil_append, flatten_singles,
        hclosing]
      exact h.last
    have hstale : staleAfter 0 (lender :: between) = 1 := by
      refine (staleAfter_of_short h.short _).trans ?_
      rw [resultByte, List.getD_eq_getElem?_getD, h.success]
      rfl
    rw [hgroups, flagOver_eq (show answers [b] = some code from h.callBack) hlater, hstale]
    rfl

end Borrowing

theorem Splits.flatten_completedBy {stream : List UInt8} {chunks : List (List UInt8)}
    (h : Splits stream chunks) :
    (completedBy fits [] chunks).flatten = (decode fits stream).frames := by
  rw [Framing.flatten_completedBy frames_nil, List.nil_append, h.flatten_eq]

/-- Without a borrowed result, every splitting gives a flag the same value. -/
theorem flagOver_agree {stream : List UInt8} {chunks chunks' : List (List UInt8)}
    (h : Splits stream chunks) (h' : Splits stream chunks')
    (hnot : ¬ BorrowsResult (decode fits stream).frames) (code : ProtocolCode) (flag : UInt8) :
    flagOver code (completedBy fits [] chunks) flag =
      flagOver code (completedBy fits [] chunks') flag := by
  rcases last_answer code (decode fits stream).frames with
    hnone | ⟨before, body, after, hframes, hanswers, hafter⟩
  · rw [flagOver_of_no_answer (by rwa [h.flatten_completedBy]),
      flagOver_of_no_answer (by rwa [h'.flatten_completedBy])]
  · have hvalue : ∀ chunks, Splits stream chunks →
        flagOver code (completedBy fits [] chunks) flag = callBackFlag (resultByte 0 body) := by
      intro chunks hsplits
      have hreads := @frameBytes_lt_of_mem_completedBy fits [] chunks 4096 frames_nil
        (fun bytes hbytes => (hsplits.sizes bytes hbytes).2)
      exact flagOver_of_not_borrows (hsplits.flatten_completedBy.trans hframes) hreads
        (by rwa [hsplits.flatten_completedBy]) hanswers hafter flag
    rw [hvalue chunks h, hvalue chunks' h']

/-- The two ways of reading leave the same messages and the same flags. -/
def SameEffects (calloc : Calloc) (r : Receiver) (chunks chunks' : List (List UInt8)) : Prop :=
  ∃ r₁ r₂, recvAll calloc r chunks = some r₁ ∧ recvAll calloc r chunks' = some r₂ ∧
    r₁.node.recvDataList = r₂.node.recvDataList ∧
    r₁.node.commandStatus = r₂.node.commandStatus

theorem RealtimeCommandStatus.eq_of_flags {status status' : RealtimeCommandStatus}
    (hflag : ∀ code, status.flag code = status'.flag code)
    (hnum : status.heartBeatNotReceiveNum = status'.heartBeatNotReceiveNum) :
    status = status' := by
  cases status
  cases status'
  rw [RealtimeCommandStatus.mk.injEq]
  exact ⟨hflag .registerDevice, hflag .subscribeDevice, hflag .sendData,
    hflag .unregisterDevice, hflag .unsubscribeDevice, hflag .checkDeviceAlive,
    hflag .heartBeat, hnum⟩

/-- **Chunking.**  For a stream whose headers are all in 0..2048, read from any position of
the ring, any two splittings into reads have the same effects if and only if no flag's last
callback can borrow its result. -/
theorem chunking_irrelevant_iff {calloc : Calloc} (hhuge : RefusesHuge calloc)
    (hsize : SizeOnly calloc) {r : Receiver} (hflag : r.node.needToRestartFlag = false)
    (hfifo : r.node.recvFifo.Holds []) {stream : List UInt8}
    (hheaders : (decode fits stream).stopped = false) :
    (∀ chunks chunks', Splits stream chunks → Splits stream chunks' →
        SameEffects calloc r chunks chunks') ↔
      ¬ BorrowsResult (decode fits stream).frames := by
  have hrun : ∀ chunks, Splits stream chunks →
      ∃ r', recvAll calloc r chunks = some r' ∧ StreamEffect calloc [] chunks r r' := by
    intro chunks hsplits
    refine recvAll_effect hhuge hsize hflag hfifo (decode_of_short rfl) hsplits.sizes ?_
    rw [List.nil_append, hsplits.flatten_eq]
    exact hheaders
  constructor
  · -- The lender and the borrower in one read, against every byte in a read of its own.
    rintro hsame ⟨before, lender, between, b, after, code, hborrows⟩
    obtain ⟨chunks, hsplits, hone⟩ := exists_splits_success hborrows
    obtain ⟨r₁, r₂, hr₁, hr₂, -, hstatus⟩ := hsame chunks _ hsplits (splits_singles stream)
    obtain ⟨_, hr, heffect₁⟩ := hrun chunks hsplits
    obtain rfl := Option.some.inj (hr₁.symm.trans hr)
    obtain ⟨_, hr, heffect₂⟩ := hrun _ (splits_singles stream)
    obtain rfl := Option.some.inj (hr₂.symm.trans hr)
    have hframes : (decode fits stream).frames = (before ++ lender :: between) ++ [b] :: after := by
      rw [hborrows.split]
      simp
    have hflags := heffect₁.flag code
    rw [hone, hstatus, heffect₂.flag code,
      flagOver_singles hframes hborrows.callBack hborrows.last] at hflags
    exact absurd hflags (by decide)
  · intro hnot chunks chunks' hsplits hsplits'
    obtain ⟨r₁, hr₁, heffect₁⟩ := hrun chunks hsplits
    obtain ⟨r₂, hr₂, heffect₂⟩ := hrun chunks' hsplits'
    refine ⟨r₁, r₂, hr₁, hr₂, ?_, ?_⟩
    · rw [heffect₁.data, heffect₂.data, hsplits.flatten_eq, hsplits'.flatten_eq]
    · apply RealtimeCommandStatus.eq_of_flags
      · intro code
        rw [heffect₁.flag, heffect₂.flag, flagOver_agree hsplits hsplits' hnot]
      · exact heffect₁.notReceiveNum.trans heffect₂.notReceiveNum.symm

/-- A callback 82 of one byte behind the callback 81 01: read together with it the
subscription is a success, read after it a failure. -/
theorem one_byte_callback_depends_on_reads :
    ((recvAll grantsAll .fresh [encodeAll [[0x81, 1], [0x82]]]).map
        fun r => r.node.commandStatus.subscribeFlag) = some 1 ∧
      ((recvAll grantsAll .fresh [encodeAll [[0x81, 1]], encodeAll [[0x82]]]).map
        fun r => r.node.commandStatus.subscribeFlag) = some 0 ∧
      ¬ SameEffects grantsAll .fresh [encodeAll [[0x81, 1], [0x82]]]
        [encodeAll [[0x81, 1]], encodeAll [[0x82]]] := by
  have htogether : ((recvAll grantsAll .fresh [encodeAll [[0x81, 1], [0x82]]]).map
      fun r => r.node.commandStatus.subscribeFlag) = some 1 := by
    decide +kernel
  have hapart : ((recvAll grantsAll .fresh [encodeAll [[0x81, 1]], encodeAll [[0x82]]]).map
      fun r => r.node.commandStatus.subscribeFlag) = some 0 := by
    decide +kernel
  refine ⟨htogether, hapart, ?_⟩
  rintro ⟨r₁, r₂, hr₁, hr₂, -, hstatus⟩
  rw [hr₁, Option.map_some, hstatus] at htogether
  rw [hr₂, Option.map_some, htogether] at hapart
  exact absurd hapart (by decide)

theorem sizeOnly_grantsAll : SizeOnly grantsAll :=
  fun _ _ => rfl

/-- Callbacks of two bytes, read together or apart. -/
theorem chunking_irrelevant_two_callbacks :
    SameEffects grantsAll .fresh [encodeAll [[0x81, 1], [0x82, 0]]]
      [encodeAll [[0x81, 1]], encodeAll [[0x82, 0]]] := by
  have hdecode : decode fits (encodeAll [[0x81, 1], [0x82, 0]]) =
      ⟨[[0x81, 1], [0x82, 0]], [], false⟩ :=
    decode_encodeAll (by decide)
  refine (@chunking_irrelevant_iff grantsAll refusesHuge_grantsAll sizeOnly_grantsAll .fresh rfl
    (RecvDataFifo.holds_init _) (encodeAll [[0x81, 1], [0x82, 0]]) ?_).mpr ?_ _ _ ?_ ?_
  · rw [hdecode]
  · rw [hdecode]
    rintro ⟨before, lender, between, b, after, code, hborrows⟩
    have hsplit : ([[0x81, 1], [0x82, 0]] : List (List UInt8)) =
        before ++ lender :: (between ++ [b] :: after) := hborrows.split
    have hmem : [b] ∈ ([[0x81, 1], [0x82, 0]] : List (List UInt8)) := by
      rw [hsplit]
      simp
    simp at hmem
  · exact ⟨rfl, by decide⟩
  · exact ⟨rfl, by decide⟩

end Client
end StupidP2P
