import StupidP2P.Foundation.Reads
import StupidP2P.PythonClient.RecvThread

/-!
# Staying aligned with the frames

A round of the inner loop of `clientRecvThread.run` pops a header, one byte for the command,
one more for the result if the command is a response, and then as many as are missing up to
the length in the header.  That is right as long as the frame has the bytes which are popped
without looking at the length:

* a frame of no bytes has no command: the first byte of the next frame is popped for it; and
  while it is the last thing in the deque it is not taken at all, since the loop waits for
  more than four bytes;
* a response of one byte has no result: that is popped from the next frame, or from an
  empty deque.

The property is stated round by round, since a thread that is out of step may end with the
right number of bytes by chance.
-/

namespace StupidP2P
namespace PythonClient

open Foundation
open Foundation.Framing

namespace ClientRecvThread

/-- What one round of the inner loop comes to. -/
inductive Round
  /-- The loop ends: there are not more than four bytes. -/
  | stop
  /-- The body is incomplete: the header is put back. -/
  | wait (t : ClientRecvThread)
  /-- A frame of the length in the header was taken. -/
  | took (headerLength : Nat) (t : ClientRecvThread)
  /-- A byte was popped from an empty deque. -/
  | fault

/-- One round of the inner loop. -/
def parseRound (taken : Taken) (t : ClientRecvThread) : Round :=
  if t.recvDeque.length > commandHeaderLength then
    match t.recvDeque.popN commandHeaderLength with
    | none => .fault
    | some (headerBytes, deque) =>
        if deque.length ≥ fromBytesBig headerBytes then
          match takeFrame taken (fromBytesBig headerBytes) (t.setDeque deque) with
          | none => .fault
          | some t => .took (fromBytesBig headerBytes) t
        else .wait (t.setDeque (deque.extend (toBytesLittle (fromBytesBig headerBytes))))
  else .stop

/-- The rounds of the inner loop: the thread before each, and what it comes to. -/
def parseRounds (taken : Taken) : Nat → ClientRecvThread → List (ClientRecvThread × Round)
  | 0, _ => []
  | fuel + 1, t =>
      (t, parseRound taken t) ::
        match parseRound taken t with
        | .took _ t' => parseRounds taken fuel t'
        | _ => []

/-- The inner loop goes from round to round. -/
theorem parseLoop_succ (taken : Taken) (fuel : Nat) (t : ClientRecvThread) :
    parseLoop taken (fuel + 1) t =
      match parseRound taken t with
      | .stop => some t
      | .wait t' => some t'
      | .took _ t' => parseLoop taken fuel t'
      | .fault => none := by
  rw [parseLoop, parseRound]
  by_cases hlong : t.recvDeque.length > commandHeaderLength
  · rw [if_pos hlong, if_pos hlong]
    cases hpop : t.recvDeque.popN commandHeaderLength with
    | none => rfl
    | some popped =>
        obtain ⟨headerBytes, deque⟩ := popped
        dsimp only
        by_cases hcomplete : deque.length ≥ fromBytesBig headerBytes
        · rw [if_pos hcomplete, if_pos hcomplete]
          cases htake : takeFrame taken (fromBytesBig headerBytes) (t.setDeque deque) with
          | none => rfl
          | some next => rfl
        · rw [if_neg hcomplete, if_neg hcomplete]
  · rw [if_neg hlong, if_neg hlong]

end ClientRecvThread

open ClientRecvThread

/-- The length of the frame in front, if all of it is there. -/
def frontLength (bytes : List UInt8) : Option Nat :=
  if 4 ≤ bytes.length ∧ 4 + fromBytesBig (bytes.take 4) ≤ bytes.length then
    some (fromBytesBig (bytes.take 4))
  else none

/-- A round takes the frame in front, header and body and nothing else, if it is complete,
and otherwise nothing. -/
def RoundAligned (t : ClientRecvThread) (round : Round) : Prop :=
  match frontLength t.recvDeque.fromRight with
  | some headerLength => ∃ t', round = .took headerLength t' ∧
      t'.recvDeque.fromRight = t.recvDeque.fromRight.drop (4 + headerLength)
  | none => round = .stop ∨ ∃ t', round = .wait t' ∧
      t'.recvDeque.fromRight = t.recvDeque.fromRight

/-- The frame has every byte that is popped for it without looking at its length. -/
structure SelfSufficient (body : List UInt8) : Prop where
  command : body ≠ []
  response : responseCode (body.headD 0) ≠ none → 2 ≤ body.length

/-! ## Taking a frame -/

section

variable {taken : Taken} {t : ClientRecvThread} {body rest : List UInt8}

theorem recvDeque_putData (data : List UInt8) :
    (t.putData taken data).recvDeque = t.recvDeque := by
  unfold putData
  split <;> rfl

/-- A frame that has all its bytes is taken exactly. -/
theorem takeFrame_of_selfSufficient (hself : SelfSufficient body)
    (h : t.recvDeque.fromRight = body ++ rest) :
    ∃ t', takeFrame taken body.length t = some t' ∧ t'.recvDeque.fromRight = rest := by
  cases body with
  | nil => exact absurd rfl hself.command
  | cons command tail =>
      have hpop : t.recvDeque.pop = some (command, .ofRight (tail ++ rest)) := Deque.pop_eq h
      have hskip : ∀ data rest : List UInt8, (Deque.ofRight (data ++ rest)).popN data.length =
          some (data, .ofRight rest) :=
        fun data rest => Deque.popN_eq (Deque.fromRight_ofRight _)
      rw [takeFrame, hpop]
      dsimp only
      rw [execCommand]
      cases hcode : responseCode command with
      | some code =>
          have htwo := hself.response (by simp [hcode])
          cases tail with
          | nil => simp at htwo
          | cons result tail =>
              have hresult : (Deque.ofRight (result :: tail ++ rest)).pop =
                  some (result, .ofRight (tail ++ rest)) :=
                Deque.pop_eq (Deque.fromRight_ofRight _)
              simp only [getCommandResponse, setDeque, hresult, Option.map_some,
                List.length_cons]
              rw [show tail.length + 1 + 1 - 2 = tail.length by omega, hskip]
              exact ⟨_, rfl, Deque.fromRight_ofRight rest⟩
      | none =>
          by_cases hdata : command = 0x03
          · simp only [if_pos hdata, setDeque, List.length_cons, Nat.add_sub_cancel, hskip,
              Nat.sub_self, Deque.popN, Option.map_some]
            refine ⟨_, rfl, ?_⟩
            change (ClientRecvThread.putData taken _ tail).recvDeque.fromRight = rest
            rw [recvDeque_putData]
            exact Deque.fromRight_ofRight rest
          · simp only [if_neg hdata, setDeque, List.length_cons, Nat.add_sub_cancel, hskip,
              Option.map_some]
            exact ⟨_, rfl, Deque.fromRight_ofRight rest⟩

/-- The result of a response is popped whatever the header says. -/
theorem execCommand_length {headerLength popLength : Nat} {command : UInt8}
    {t' : ClientRecvThread}
    (h : execCommand taken headerLength command t = some (popLength, t')) :
    t'.recvDeque.length ≤ t.recvDeque.length ∧
      (responseCode command ≠ none → t'.recvDeque.length + 1 = t.recvDeque.length) := by
  rw [execCommand] at h
  cases hcode : responseCode command with
  | some code =>
      rw [hcode] at h
      simp only [getCommandResponse, Option.map_eq_some_iff, Prod.mk.injEq] at h
      obtain ⟨next, hnext, -, rfl⟩ := h
      split at hnext
      · simp at hnext
      · rename_i response deque hpop
        obtain rfl := Option.some.inj hnext
        have hlength := Deque.length_of_pop hpop
        change deque.length ≤ _ ∧ (_ → deque.length + 1 = _)
        omega
  | none =>
      refine ⟨?_, fun hne => absurd rfl hne⟩
      rw [hcode] at h
      dsimp only at h
      split at h
      · split at h
        · simp at h
        · rename_i data deque hpop
          rw [Option.some.injEq, Prod.mk.injEq] at h
          have hlength := Deque.length_of_popN hpop
          rw [← h.2, recvDeque_putData]
          change deque.length ≤ _
          omega
      · rw [Option.some.injEq, Prod.mk.injEq] at h
        exact h.2 ▸ Nat.le_refl _

/-- A frame that lacks such a byte is not: more is popped than it has. -/
theorem takeFrame_of_not_selfSufficient {t' : ClientRecvThread}
    (hself : ¬ SelfSufficient body) (h : t.recvDeque.fromRight = body ++ rest)
    (htake : takeFrame taken body.length t = some t') :
    t'.recvDeque.length + body.length < t.recvDeque.length := by
  rw [takeFrame] at htake
  cases hpop : t.recvDeque.pop with
  | none => simp [hpop] at htake
  | some popped =>
      obtain ⟨command, deque⟩ := popped
      have hfirst := Deque.length_of_pop hpop
      rw [hpop] at htake
      dsimp only at htake
      cases hexec : execCommand taken body.length command (t.setDeque deque) with
      | none => simp [hexec] at htake
      | some result =>
          obtain ⟨popLength, next⟩ := result
          rw [hexec, Option.map_eq_some_iff] at htake
          obtain ⟨⟨skipped, last⟩, hskip, rfl⟩ := htake
          have hrest := Deque.length_of_popN hskip
          obtain ⟨hle, hresponse⟩ := execCommand_length hexec
          change next.recvDeque.length ≤ deque.length at hle
          change last.length + body.length < _
          cases body with
          | nil =>
              -- The command is a byte of the next frame.
              rw [List.length_nil]
              omega
          | cons first tail =>
              cases tail with
              | nil =>
                  -- The result is.
                  have hcode : responseCode first ≠ none := by
                    intro hnone
                    exact hself ⟨by simp, fun hsome => absurd hnone hsome⟩
                  rw [Deque.pop_eq h, Option.some.injEq, Prod.mk.injEq] at hpop
                  have hone := hresponse (hpop.1 ▸ hcode)
                  change next.recvDeque.length + 1 = deque.length at hone
                  rw [List.length_singleton]
                  omega
              | cons second tail =>
                  exact absurd ⟨by simp, fun _ => by simp⟩ hself

/-! ## One round -/

/-- The header of a complete frame in front is its length. -/
theorem frontLength_of_complete (hsmall : body.length < 4294967296) (rest : List UInt8) :
    frontLength (encodeFrame body ++ rest) = some body.length := by
  rw [frontLength, take_four_encodeFrame, fromBytesBig_bigEndian hsmall, if_pos]
  rw [List.length_append, length_encodeFrame]
  omega

/-- A complete frame is tried if there are more bytes than those of its header. -/
theorem parseRound_of_header (hsmall : body.length < 4294967296)
    (h : t.recvDeque.fromRight = encodeFrame body ++ rest)
    (hlong : t.recvDeque.length > commandHeaderLength) :
    (takeFrame taken body.length (t.setDeque (.ofRight (body ++ rest))) = none →
        parseRound taken t = .fault) ∧
      ∀ t', takeFrame taken body.length (t.setDeque (.ofRight (body ++ rest))) = some t' →
        parseRound taken t = .took body.length t' := by
  have hpop : t.recvDeque.popN commandHeaderLength =
      some (bigEndian body.length, .ofRight (body ++ rest)) :=
    @Deque.popN_eq _ t.recvDeque (bigEndian body.length) (body ++ rest) (by
      rw [h, encodeFrame, List.append_assoc])
  have hcomplete : (Deque.ofRight (body ++ rest)).length ≥ body.length := by
    rw [Deque.length_ofRight, List.length_append]
    omega
  rw [parseRound, if_pos hlong, hpop]
  dsimp only
  rw [fromBytesBig_bigEndian hsmall, if_pos hcomplete]
  constructor
  · intro hnone
    rw [hnone]
  · intro t' hsome
    rw [hsome]

/-- **A complete frame** is taken exactly if and only if it has all its bytes. -/
theorem parseRound_of_complete (hsmall : body.length < 4294967296)
    (h : t.recvDeque.fromRight = encodeFrame body ++ rest) :
    (RoundAligned t (parseRound taken t) ↔ SelfSufficient body) ∧
      (SelfSufficient body → ∃ t', parseRound taken t = .took body.length t' ∧
        t'.recvDeque.fromRight = rest) := by
  have hlength := congrArg List.length h
  rw [Deque.length_fromRight, List.length_append, length_encodeFrame] at hlength
  have hfour : commandHeaderLength = 4 := rfl
  have hbody : (t.setDeque (.ofRight (body ++ rest))).recvDeque.fromRight = body ++ rest :=
    Deque.fromRight_ofRight _
  have hdrop : t.recvDeque.fromRight.drop (4 + body.length) = rest := by
    rw [h, ← length_encodeFrame]
    exact List.drop_left
  have haligned : RoundAligned t (parseRound taken t) ↔
      ∃ t', parseRound taken t = .took body.length t' ∧ t'.recvDeque.fromRight = rest := by
    rw [RoundAligned, h, frontLength_of_complete hsmall, ← h]
    dsimp only
    rw [hdrop]
  rw [haligned]
  by_cases hlong : t.recvDeque.length > commandHeaderLength
  · obtain ⟨hfault, htook⟩ := @parseRound_of_header taken t body rest hsmall h hlong
    have hgood : SelfSufficient body → ∃ t', parseRound taken t = .took body.length t' ∧
        t'.recvDeque.fromRight = rest := by
      intro hself
      obtain ⟨t', htake, hrest⟩ := @takeFrame_of_selfSufficient taken _ body rest hself hbody
      exact ⟨t', htook t' htake, hrest⟩
    refine ⟨⟨?_, hgood⟩, hgood⟩
    rintro ⟨t', hround, hrest⟩
    by_contra hself
    cases htake : takeFrame taken body.length (t.setDeque (.ofRight (body ++ rest))) with
    | none =>
        rw [hfault htake] at hround
        simp at hround
    | some next =>
        rw [htook next htake, Round.took.injEq] at hround
        obtain ⟨-, rfl⟩ := hround
        have hlt := takeFrame_of_not_selfSufficient hself hbody htake
        have hleft := congrArg List.length hrest
        rw [Deque.length_fromRight] at hleft
        change next.recvDeque.length + body.length < (Deque.ofRight (body ++ rest)).length at hlt
        rw [Deque.length_ofRight, List.length_append] at hlt
        omega
  · -- Only a frame of no bytes is complete with its header.
    have hnil : body = [] := List.length_eq_zero_iff.mp (by omega)
    have hstop : parseRound taken t = .stop := by
      rw [parseRound, if_neg hlong]
    have hself : ¬ SelfSufficient body := fun hself => hself.command hnil
    refine ⟨iff_of_false ?_ hself, fun h => absurd h hself⟩
    rintro ⟨t', htook, -⟩
    rw [hstop] at htook
    simp at htook

/-- **An incomplete frame** is left alone. -/
theorem parseRound_of_incomplete {bytes more : List UInt8} (hsmall : body.length < 4294967296)
    (h : t.recvDeque.fromRight = bytes) (hbegins : bytes <+: encodeFrame body ++ more)
    (hshort : bytes.length < 4 + body.length) :
    RoundAligned t (parseRound taken t) ∧
      (parseRound taken t = .stop ∨ ∃ t', parseRound taken t = .wait t' ∧
        t'.recvDeque.fromRight = bytes) := by
  have hlength := congrArg List.length h
  rw [Deque.length_fromRight] at hlength
  have hfour : commandHeaderLength = 4 := rfl
  have hheader : 4 ≤ bytes.length → bytes.take 4 = bigEndian body.length := by
    intro hle
    rw [← take_four_encodeFrame body more]
    obtain ⟨late, hlate⟩ := hbegins
    rw [← hlate, List.take_append_of_le_length hle]
  have hfront : frontLength bytes = none := by
    rw [frontLength, if_neg]
    rintro ⟨hle, hcomplete⟩
    rw [hheader hle, fromBytesBig_bigEndian hsmall] at hcomplete
    omega
  suffices hround : parseRound taken t = .stop ∨ ∃ t', parseRound taken t = .wait t' ∧
      t'.recvDeque.fromRight = bytes by
    refine ⟨?_, hround⟩
    rw [RoundAligned, h, hfront]
    exact hround
  by_cases hlong : t.recvDeque.length > commandHeaderLength
  · right
    have hsplit : bytes = bigEndian body.length ++ bytes.drop 4 := by
      rw [← hheader (by omega), List.take_append_drop]
    have hpop : t.recvDeque.popN commandHeaderLength =
        some (bigEndian body.length, .ofRight (bytes.drop 4)) :=
      @Deque.popN_eq _ t.recvDeque (bigEndian body.length) (bytes.drop 4) (by rw [h, ← hsplit])
    refine ⟨t.setDeque ((Deque.ofRight (bytes.drop 4)).extend
      (toBytesLittle (fromBytesBig (bigEndian body.length)))), ?_, ?_⟩
    · rw [parseRound, if_pos hlong, hpop]
      dsimp only
      rw [if_neg]
      rw [fromBytesBig_bigEndian hsmall, Deque.length_ofRight, List.length_drop]
      omega
    · change (Deque.extend _ _).fromRight = bytes
      rw [Deque.fromRight_extend, Deque.fromRight_ofRight, bigEndian, header_restored]
      exact hsplit.symm
  · left
    rw [parseRound, if_neg hlong]

/-! ## The inner loop -/

theorem parseRounds_of_took {fuel headerLength : Nat} {t' : ClientRecvThread}
    (hround : parseRound taken t = .took headerLength t') :
    parseRounds taken (fuel + 1) t =
      (t, parseRound taken t) :: parseRounds taken fuel t' := by
  rw [parseRounds, hround]

/-- **The loop** over the bytes that are there of a sequence of frames.  It stays in step
exactly if every complete frame has all its bytes, and then leaves what is behind them. -/
theorem parseRounds_aligned {bodies : List (List UInt8)} {fuel : Nat}
    (hsmall : ∀ body ∈ bodies, body.length < 4294967296)
    (hbegins : t.recvDeque.fromRight <+: encodeAll bodies) (hfuel : t.recvDeque.length < fuel) :
    ((∀ round ∈ parseRounds taken fuel t, RoundAligned round.1 round.2) ↔
        ∀ body ∈ arrivedFrames bodies t.recvDeque.length, SelfSufficient body) ∧
      ((∀ body ∈ arrivedFrames bodies t.recvDeque.length, SelfSufficient body) →
        ∃ t', parseLoop taken fuel t = some t' ∧ t'.recvDeque.fromRight =
          t.recvDeque.fromRight.drop (frameBytes (arrivedFrames bodies t.recvDeque.length))) := by
  induction bodies generalizing t fuel with
  | nil =>
      obtain ⟨fuel, rfl⟩ : ∃ n, fuel = n + 1 := ⟨fuel - 1, by omega⟩
      have hnone : t.recvDeque.fromRight = [] := List.prefix_nil.mp hbegins
      have hlength := congrArg List.length hnone
      rw [Deque.length_fromRight, List.length_nil] at hlength
      have hstop : parseRound taken t = .stop := by
        rw [parseRound, if_neg]
        rw [hlength]
        exact Nat.not_lt_zero _
      have hfront : RoundAligned t .stop := by
        rw [RoundAligned, hnone]
        exact .inl rfl
      refine ⟨iff_of_true ?_ (by simp [arrivedFrames]), fun _ => ⟨t, ?_, ?_⟩⟩
      · simpa [parseRounds, hstop] using hfront
      · rw [parseLoop_succ, hstop]
      · rw [hnone, List.drop_nil]
  | cons body bodies ih =>
      obtain ⟨fuel, rfl⟩ : ∃ n, fuel = n + 1 := ⟨fuel - 1, by omega⟩
      obtain ⟨hbody, hbodies⟩ := List.forall_mem_cons.mp hsmall
      by_cases hcomplete : 4 + body.length ≤ t.recvDeque.length
      · rw [arrivedFrames_of_le hcomplete, List.forall_mem_cons]
        obtain ⟨rest, hbytes, hrest⟩ :=
          exists_rest_of_complete hbegins (by rwa [Deque.length_fromRight])
        have hlength := congrArg List.length hbytes
        rw [Deque.length_fromRight, List.length_append, length_encodeFrame] at hlength
        obtain ⟨hiff, hgood⟩ := @parseRound_of_complete taken t body rest hbody hbytes
        by_cases hself : SelfSufficient body
        · obtain ⟨t', hround, hdeque⟩ := hgood hself
          have hleft := congrArg List.length hdeque
          rw [Deque.length_fromRight] at hleft
          have harrived : t.recvDeque.length - (4 + body.length) = t'.recvDeque.length := by
            omega
          obtain ⟨hrounds, hloop⟩ := @ih t' fuel hbodies (hdeque ▸ hrest) (by omega)
          rw [parseRounds_of_took hround, List.forall_mem_cons, hiff, hrounds, harrived]
          refine ⟨Iff.rfl, ?_⟩
          rintro ⟨-, hothers⟩
          obtain ⟨last, hlast, hbehind⟩ := hloop hothers
          refine ⟨last, ?_, ?_⟩
          · rw [parseLoop_succ, hround]
            exact hlast
          · rw [hbehind, hdeque, hbytes, frameBytes_cons, ← List.drop_drop,
              ← length_encodeFrame, List.drop_left]
        · refine ⟨iff_of_false ?_ (fun h => hself h.1), fun h => absurd h.1 hself⟩
          intro haligned
          exact hself (hiff.mp (haligned (t, parseRound taken t) (by simp [parseRounds])))
      · rw [arrivedFrames_of_lt (by omega)]
        obtain ⟨haligned, hround⟩ := @parseRound_of_incomplete taken t body _ _ hbody rfl hbegins
          (by
            rw [Deque.length_fromRight]
            omega)
        refine ⟨iff_of_true ?_ (by simp), fun _ => ?_⟩
        · rcases hround with hround | ⟨t', hround, -⟩
          · simpa [parseRounds, hround] using haligned
          · simpa [parseRounds, hround] using haligned
        · rcases hround with hround | ⟨t', hround, hdeque⟩
          · exact ⟨t, by rw [parseLoop_succ, hround], rfl⟩
          · exact ⟨t', by rw [parseLoop_succ, hround], hdeque⟩

/-! ## The run -/

/-- The bytes that arrive over a sequence of outcomes of `recv`. -/
def received : List RecvOutcome → List UInt8
  | [] => []
  | .data recvData :: outcomes => recvData ++ received outcomes
  | .timeout :: outcomes => received outcomes
  | .error :: outcomes => received outcomes

/-- The thread when `recv` has returned these bytes. -/
def feed (t : ClientRecvThread) (recvData : List UInt8) : ClientRecvThread :=
  t.setDeque (t.recvDeque.extendleft recvData)

theorem fromRight_feed (recvData : List UInt8) :
    (feed t recvData).recvDeque.fromRight = t.recvDeque.fromRight ++ recvData :=
  Deque.fromRight_extendleft _ _

theorem length_feed (recvData : List UInt8) :
    (feed t recvData).recvDeque.length = t.recvDeque.length + recvData.length := by
  rw [← Deque.length_fromRight, fromRight_feed, List.length_append, Deque.length_fromRight]

/-- The rounds of the inner loop that one outcome of `recv` leads to. -/
def roundsOf (taken : Taken) (t : ClientRecvThread) :
    RecvOutcome → List (ClientRecvThread × Round)
  | .data recvData =>
      parseRounds taken ((feed t recvData).recvDeque.length + 1) (feed t recvData)
  | .timeout => []
  | .error => []

/-- All rounds of the inner loop during `run`. -/
def runRounds (taken : Taken) :
    ClientRecvThread → List RecvOutcome → List (ClientRecvThread × Round)
  | _, [] => []
  | t, outcome :: outcomes =>
      roundsOf taken t outcome ++
        match runRound taken t outcome with
        | some t' => runRounds taken t' outcomes
        | none => []

/-- The thread keeps in step with the frames: each round takes the frame in front or
nothing, no byte is popped from an empty deque, and in the end exactly the bytes behind the
complete frames are left. -/
structure StaysAligned (taken : Taken) (t : ClientRecvThread) (outcomes : List RecvOutcome)
    (bodies : List (List UInt8)) : Prop where
  rounds : ∀ round ∈ runRounds taken t outcomes, RoundAligned round.1 round.2
  leaves : ∃ t', run taken t outcomes = some t' ∧ t'.recvDeque.fromRight =
    (t.recvDeque.fromRight ++ received outcomes).drop
      (frameBytes (arrivedFrames bodies (t.recvDeque.length + (received outcomes).length)))

theorem run_cons {outcome : RecvOutcome} {t' : ClientRecvThread}
    (h : runRound taken t outcome = some t') (outcomes : List RecvOutcome) :
    run taken t (outcome :: outcomes) = run taken t' outcomes := by
  rw [run, List.foldlM_cons, h]
  rfl

theorem runRounds_cons {outcome : RecvOutcome} {t' : ClientRecvThread}
    (h : runRound taken t outcome = some t') (outcomes : List RecvOutcome) :
    runRounds taken t (outcome :: outcomes) =
      roundsOf taken t outcome ++ runRounds taken t' outcomes := by
  rw [runRounds, h]

/-- An outcome without bytes makes no difference. -/
theorem staysAligned_of_silent {outcome : RecvOutcome} {outcomes : List RecvOutcome}
    {bodies : List (List UInt8)} (hround : runRound taken t outcome = some t)
    (hrounds : roundsOf taken t outcome = [])
    (hreceived : received (outcome :: outcomes) = received outcomes) :
    StaysAligned taken t (outcome :: outcomes) bodies ↔ StaysAligned taken t outcomes bodies := by
  have hall : runRounds taken t (outcome :: outcomes) = runRounds taken t outcomes := by
    rw [runRounds_cons hround, hrounds, List.nil_append]
  constructor
  · rintro ⟨haligned, hleaves⟩
    rw [run_cons hround, hreceived] at hleaves
    exact ⟨hall ▸ haligned, hleaves⟩
  · rintro ⟨haligned, hleaves⟩
    rw [← run_cons hround, ← hreceived] at hleaves
    exact ⟨hall.symm ▸ haligned, hleaves⟩

/-- A read that is taken in step: the later reads go on behind its frames. -/
theorem staysAligned_of_read {recvData : List UInt8} {t' : ClientRecvThread}
    {outcomes : List RecvOutcome} {bodies : List (List UInt8)}
    (hround : runRound taken t (.data recvData) = some t')
    (hrounds : ∀ round ∈ roundsOf taken t (.data recvData), RoundAligned round.1 round.2)
    (hleft : t'.recvDeque.fromRight = (feed t recvData).recvDeque.fromRight.drop
      (frameBytes (arrivedFrames bodies (feed t recvData).recvDeque.length))) :
    StaysAligned taken t (.data recvData :: outcomes) bodies ↔
      StaysAligned taken t' outcomes
        (bodies.drop (arrivedFrames bodies (feed t recvData).recvDeque.length).length) := by
  have hlength := congrArg List.length hleft
  rw [List.length_drop, Deque.length_fromRight, Deque.length_fromRight] at hlength
  have hsame : (t.recvDeque.fromRight ++ received (.data recvData :: outcomes)).drop
      (frameBytes (arrivedFrames bodies
        (t.recvDeque.length + (received (.data recvData :: outcomes)).length))) =
      (t'.recvDeque.fromRight ++ received outcomes).drop (frameBytes (arrivedFrames
        (bodies.drop (arrivedFrames bodies (feed t recvData).recvDeque.length).length)
        (t'.recvDeque.length + (received outcomes).length))) := by
    have hall := drop_arrivedFrames_append bodies (feed t recvData).recvDeque.fromRight
      (received outcomes)
    rw [Deque.length_fromRight, ← hleft, ← hlength] at hall
    rw [← hall, received, ← List.append_assoc, ← fromRight_feed, List.length_append,
      ← Nat.add_assoc, ← length_feed]
  constructor
  · rintro ⟨haligned, hleaves⟩
    rw [runRounds_cons hround, List.forall_mem_append] at haligned
    rw [run_cons hround, hsame] at hleaves
    exact ⟨haligned.2, hleaves⟩
  · rintro ⟨haligned, hleaves⟩
    rw [← run_cons hround, ← hsame] at hleaves
    refine ⟨?_, hleaves⟩
    rw [runRounds_cons hround, List.forall_mem_append]
    exact ⟨hrounds, haligned⟩

/-- **Over a whole run**, from a deque without a complete frame. -/
theorem staysAligned_iff {outcomes : List RecvOutcome} {bodies : List (List UInt8)}
    (hsmall : ∀ body ∈ bodies, body.length < 4294967296)
    (hnone : arrivedFrames bodies t.recvDeque.length = [])
    (hstream : t.recvDeque.fromRight ++ received outcomes <+: encodeAll bodies) :
    StaysAligned taken t outcomes bodies ↔
      ∀ body ∈ arrivedFrames bodies (t.recvDeque.length + (received outcomes).length),
        SelfSufficient body := by
  induction outcomes generalizing t bodies with
  | nil =>
      have hleaves : arrivedFrames bodies (t.recvDeque.length + 0) = [] := hnone
      refine iff_of_true ⟨by simp [runRounds], t, rfl, ?_⟩ ?_
      · rw [received, List.length_nil, hleaves, List.append_nil]
        rfl
      · rw [received, List.length_nil, hleaves]
        simp
  | cons outcome outcomes ih =>
      cases outcome with
      | timeout =>
          rw [staysAligned_of_silent rfl rfl rfl]
          exact ih hsmall hnone hstream
      | error =>
          rw [staysAligned_of_silent rfl rfl rfl]
          exact ih hsmall hnone hstream
      | data recvData =>
          rw [received, ← List.append_assoc, ← fromRight_feed] at hstream
          rw [received, List.length_append, ← Nat.add_assoc, ← length_feed, arrivedFrames_add,
            List.forall_mem_append]
          obtain ⟨hiff, hloop⟩ := @parseRounds_aligned taken (feed t recvData) bodies _ hsmall
            ((List.prefix_append _ _).trans hstream) (Nat.lt_succ_self _)
          by_cases hgood : ∀ body ∈ arrivedFrames bodies (feed t recvData).recvDeque.length,
              SelfSufficient body
          · obtain ⟨t', hparse, hleft⟩ := hloop hgood
            have hround : runRound taken t (.data recvData) = some t' := by
              rw [runRound_data]
              exact hparse
            have hbound := frameBytes_arrivedFrames bodies (feed t recvData).recvDeque.length
            have hlength := congrArg List.length hleft
            rw [List.length_drop, Deque.length_fromRight, Deque.length_fromRight] at hlength
            have hnext := drop_prefix_behind (feed t recvData).recvDeque.length hstream
            rw [List.drop_append_of_le_length (by rwa [Deque.length_fromRight]), ← hleft] at hnext
            rw [staysAligned_of_read hround (hiff.mpr hgood) hleft, ← hlength,
              ih (fun body hbody => hsmall body (List.mem_of_mem_drop hbody))
                (hlength ▸ arrivedFrames_behind bodies _) hnext, and_iff_right hgood]
          · refine iff_of_false ?_ (fun h => hgood h.1)
            intro haligned
            refine hgood (hiff.mp fun round hround => haligned.rounds round ?_)
            exact List.mem_append_left _ hround

end

/-- **Alignment of the Python parser.**  Over any reads of a sequence of length-prefixed
frames, with any bodies and cut anywhere, the thread keeps in step with the frames exactly
if each frame that arrives completely has a command and, if that is a response, a result. -/
theorem python_parser_aligned_iff {taken : Taken} {t : ClientRecvThread}
    {outcomes : List RecvOutcome} {bodies : List (List UInt8)}
    (hempty : t.recvDeque = Deque.empty)
    (hsmall : ∀ body ∈ bodies, body.length < 4294967296)
    (hstream : received outcomes <+: encodeAll bodies) :
    StaysAligned taken t outcomes bodies ↔
      ∀ body ∈ arrivedFrames bodies (received outcomes).length, SelfSufficient body := by
  have hnothing : t.recvDeque.fromRight = [] := by
    rw [hempty]
    rfl
  have hzero : t.recvDeque.length = 0 := by
    rw [hempty]
    rfl
  have hnone : arrivedFrames bodies t.recvDeque.length = [] := by
    rw [hzero]
    cases bodies with
    | nil => rfl
    | cons body bodies => exact arrivedFrames_of_lt (by omega) bodies
  rw [staysAligned_iff hsmall hnone (by rwa [hnothing, List.nil_append]), hzero, Nat.zero_add]

/-- An empty frame before a message: the first byte of the next header is popped as its
command, the message never comes out, and what is left begins inside that header.  A
response without a result ends the thread. -/
theorem empty_frame_loses_step :
    received [.data [0, 0, 0, 0, 0, 0], .data [0, 2, 3, 104]] = encodeAll [[], [3, 104]] ∧
      ¬ StaysAligned (fun _ => 0) .initial [.data [0, 0, 0, 0, 0, 0], .data [0, 2, 3, 104]]
        [[], [3, 104]] ∧
      (run (fun _ => 0) .initial [.data [0, 0, 0, 0, 0, 0], .data [0, 2, 3, 104]]).map
        (fun t => (t.recvDeque.fromRight, t.recvDataQueue)) = some ([0, 0, 2, 3, 104], []) ∧
      (run (fun _ => 0) .initial [.data [0, 0, 0, 1, 0x81]]).isNone = true := by
  refine ⟨by decide, ?_, by decide, by decide⟩
  rw [staysAligned_iff (by decide) (by decide) (by decide)]
  intro hself
  exact (hself [] (by decide)).command rfl

/-- An unknown command and a response with more than a result, cut inside a header and
followed by half a frame. -/
theorem python_parser_aligned_unknown_command :
    StaysAligned (fun _ => 0) .initial
      [.data [0, 0, 0, 1, 0x55, 0, 0], .timeout, .data [0, 3, 0x81, 1, 9, 0, 0, 0, 2, 3]]
      [[0x55], [0x81, 1, 9], [3, 104]] := by
  refine (python_parser_aligned_iff rfl (by decide) (by decide)).mpr ?_
  have harrived : arrivedFrames [[0x55], [0x81, 1, 9], [3, 104]] 17 = [[0x55], [0x81, 1, 9]] := by
    decide
  intro body hbody
  rcases List.mem_pair.mp (harrived ▸ hbody) with rfl | rfl
  · exact ⟨by decide, by decide⟩
  · exact ⟨by decide, by decide⟩

end PythonClient
end StupidP2P
