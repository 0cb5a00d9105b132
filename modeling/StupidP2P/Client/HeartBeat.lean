import StupidP2P.Client.Reconnect
import StupidP2P.Client.SendCommand
import StupidP2P.Foundation.Streak

/-!
# The heart beats of a client

`_stupid_p2p_check_net_func` sends a heart beat in every round of its loop, counts those that
failed in `heart_beat_not_receive_num` and asks for a new connection when three did.  The
receive thread may ask for one at any point in between, so each access to the two shared
fields is a step of its own here.

`need_to_send` has six results.  The condition that is to pick out the timeouts is the
assignment `ret = STUPID_P2P_NET_ERROR`, and so the counter holds the number of heart beats in
a row with any result but `STUPID_P2P_NO_ERROR`.
-/

namespace StupidP2P
namespace Client

open Foundation
open Server (ProtocolCode)

/-! ## The thread -/

/-- The statement the check thread comes to next. -/
inductive CheckNetPoint
  | loop
  | startConnection
  | clearFlag
  | clearNum
  | needToSend
  | compare
deriving DecidableEq

/-- `needToSend` carries the result of the heart beat, and `connectionLost` is a step of the
receive thread. -/
inductive CheckNetEvent
  | loop
  | startConnection (connected : Bool)
  | clearFlag
  | clearNum
  | needToSend (ret : StupidP2PResult)
  | compare
  | connectionLost
deriving DecidableEq

def CheckNetEvent.point : CheckNetEvent → Option CheckNetPoint
  | .loop => some .loop
  | .startConnection _ => some .startConnection
  | .clearFlag => some .clearFlag
  | .clearNum => some .clearNum
  | .needToSend _ => some .needToSend
  | .compare => some .compare
  | .connectionLost => none

namespace ClientNode

def setNeedToRestartFlag (node : ClientNode) (flag : Bool) : ClientNode :=
  { node with needToRestartFlag := flag }

def clearNotReceiveNum (node : ClientNode) : ClientNode :=
  { node with commandStatus := { node.commandStatus with heartBeatNotReceiveNum := 0 } }

/-- The counter after a heart beat; the second condition is an assignment. -/
def countHeartBeat (node : ClientNode) (ret : StupidP2PResult) : ClientNode :=
  match ret with
  | .noError => node.clearNotReceiveNum
  | _ =>
      { node with
        commandStatus :=
          { node.commandStatus with
            heartBeatNotReceiveNum := node.commandStatus.heartBeatNotReceiveNum + 1 } }

/-- `heart_beat_not_receive_num >= heart_beat_max`. -/
def missedTooMany (node : ClientNode) : Bool :=
  decide (heartBeatMax ≤ node.commandStatus.heartBeatNotReceiveNum.toNat)

end ClientNode

/-- The check thread over its node, with the results of the heart beats since the last
connection was made. -/
structure CheckNet where
  node : ClientNode
  point : CheckNetPoint
  results : List StupidP2PResult

/-- One step; the output says whether the check thread itself stores 1 in the flag. -/
def CheckNet.exec (s : CheckNet) : CheckNetEvent → CheckNet × Bool
  | .loop =>
      if s.node.needToRestartFlag then ({ s with point := .startConnection }, false)
      else ({ s with point := .needToSend }, false)
  | .startConnection true => ({ s with point := .clearFlag, results := [] }, false)
  | .startConnection false => ({ s with point := .loop }, false)
  | .clearFlag =>
      ({ s with node := s.node.setNeedToRestartFlag false, point := .clearNum }, false)
  | .clearNum => ({ s with node := s.node.clearNotReceiveNum, point := .needToSend }, false)
  | .needToSend ret =>
      ({ node := s.node.countHeartBeat ret, point := .compare, results := s.results ++ [ret] },
        false)
  | .compare =>
      if s.node.missedTooMany then
        ({ s with node := s.node.setNeedToRestartFlag true, point := .loop }, true)
      else ({ s with point := .loop }, false)
  | .connectionLost => ({ s with node := s.node.setNeedToRestartFlag true }, false)

/-- The thread takes its statements in order; the connection may be lost at any time. -/
def checkNetMachine : Machine CheckNet CheckNetEvent Bool where
  init := ⟨.fresh, .loop, []⟩
  enabled s event := ∀ point ∈ event.point, s.point = point
  exec s event := some (s.exec event)

instance (s : CheckNet) (event : CheckNetEvent) :
    Decidable (checkNetMachine.enabled s event) :=
  inferInstanceAs (Decidable (∀ point ∈ event.point, s.point = point))

/-! ## What the counter holds -/

namespace StupidP2PResult

def failed (ret : StupidP2PResult) : Bool := decide (ret ≠ .noError)

def timedOut (ret : StupidP2PResult) : Bool := decide (ret = .netError)

end StupidP2PResult

open StupidP2PResult (failed timedOut)

namespace ClientNode

theorem toNat_countHeartBeat {node : ClientNode} (ret : StupidP2PResult)
    (hle : node.commandStatus.heartBeatNotReceiveNum.toNat ≤ 2) :
    (node.countHeartBeat ret).commandStatus.heartBeatNotReceiveNum.toNat =
      if failed ret then node.commandStatus.heartBeatNotReceiveNum.toNat + 1 else 0 := by
  have hadd : (node.commandStatus.heartBeatNotReceiveNum + 1).toNat =
      node.commandStatus.heartBeatNotReceiveNum.toNat + 1 := by
    rw [UInt8.toNat_add]
    show (node.commandStatus.heartBeatNotReceiveNum.toNat + 1) % 256 = _
    omega
  cases ret with
  | noError => rfl
  | errorCommond => exact hadd
  | badParam => exact hadd
  | memoryError => exact hadd
  | restarting => exact hadd
  | netError => exact hadd

end ClientNode

namespace CheckNet

/-- The counter holds the number of failed heart beats in a row, at most `bound`. -/
def Counts (s : CheckNet) (bound : Nat) : Prop :=
  s.node.commandStatus.heartBeatNotReceiveNum.toNat = streak failed s.results ∧
    streak failed s.results ≤ bound

/-- What holds at each statement.  At the head of the loop the flag is set if three heart
beats have failed, so that the counter is reset before the next one. -/
def Inv (s : CheckNet) : Prop :=
  match s.point with
  | .loop => s.Counts 3 ∧ (streak failed s.results = 3 → s.node.needToRestartFlag = true)
  | .startConnection => s.Counts 3 ∧ s.node.needToRestartFlag = true
  | .clearFlag => s.results = []
  | .clearNum => s.results = []
  | .needToSend => s.Counts 2
  | .compare => s.Counts 3

theorem Counts.missedTooMany_iff {s : CheckNet} (h : s.Counts 3) :
    s.node.missedTooMany = true ↔ AllRecent 3 failed s.results := by
  rw [← le_streak_iff, ← h.1]
  exact decide_eq_true_iff

/-- One more heart beat. -/
theorem Counts.needToSend {s : CheckNet} (h : s.Counts 2) (ret : StupidP2PResult) :
    (s.exec (.needToSend ret)).1.Counts 3 := by
  obtain ⟨hnum, hle⟩ := h
  have hcount := ClientNode.toNat_countHeartBeat ret (hnum.trans_le hle)
  have hstreak := streak_concat failed s.results ret
  show (s.node.countHeartBeat ret).commandStatus.heartBeatNotReceiveNum.toNat =
      streak failed (s.results ++ [ret]) ∧ streak failed (s.results ++ [ret]) ≤ 3
  rw [hcount, hstreak, hnum]
  refine ⟨rfl, ?_⟩
  split <;> omega

/-- **One step.** -/
theorem Inv.exec {s : CheckNet} {event : CheckNetEvent} (h : s.Inv)
    (henabled : checkNetMachine.enabled s event) : (s.exec event).1.Inv := by
  obtain ⟨node, point, results⟩ := s
  cases event with
  | loop =>
      obtain rfl : point = .loop := henabled _ rfl
      obtain ⟨hcounts, hthree⟩ := h
      rw [CheckNet.exec]
      by_cases hflag : node.needToRestartFlag = true
      · rw [if_pos hflag]
        exact ⟨hcounts, hflag⟩
      · rw [if_neg hflag]
        -- Without the flag there were not three failures.
        have hne : streak failed results ≠ 3 := fun heq => hflag (hthree heq)
        have hle : streak failed results ≤ 3 := hcounts.2
        have htwo : streak failed results ≤ 2 := by omega
        exact ⟨hcounts.1, htwo⟩
  | startConnection connected =>
      obtain rfl : point = .startConnection := henabled _ rfl
      cases connected with
      -- The history starts anew.
      | true => exact (rfl : ([] : List StupidP2PResult) = [])
      | false => exact ⟨h.1, fun _ => h.2⟩
  | clearFlag =>
      obtain rfl : point = .clearFlag := henabled _ rfl
      exact h
  | clearNum =>
      obtain rfl : point = .clearNum := henabled _ rfl
      -- No heart beat has been sent on the new connection.
      obtain rfl : results = [] := h
      exact ⟨rfl, Nat.zero_le 2⟩
  | needToSend ret =>
      obtain rfl : point = .needToSend := henabled _ rfl
      exact Counts.needToSend h ret
  | compare =>
      obtain rfl : point = .compare := henabled _ rfl
      rw [CheckNet.exec]
      by_cases hmissed : node.missedTooMany = true
      · rw [if_pos hmissed]
        exact ⟨h, fun _ => rfl⟩
      · rw [if_neg hmissed]
        refine ⟨h, fun hthree => ?_⟩
        -- Three failures would have been seen by the comparison.
        have hrecent := le_streak_iff.mp (Nat.le_of_eq hthree.symm)
        exact absurd ((Counts.missedTooMany_iff h).mpr hrecent) hmissed
  | connectionLost =>
      -- The flag is set, and nothing else.
      cases point with
      | loop => exact ⟨h.1, fun _ => rfl⟩
      | startConnection => exact ⟨h.1, rfl⟩
      | clearFlag => exact h
      | clearNum => exact h
      | needToSend => exact h
      | compare => exact h

/-- The thread asks for a new connection exactly when it finds that the last three heart
beats have failed. -/
theorem Inv.output_iff {s : CheckNet} {event : CheckNetEvent} (h : s.Inv)
    (henabled : checkNetMachine.enabled s event) :
    (s.exec event).2 = true ↔ event = .compare ∧ AllRecent 3 failed s.results := by
  obtain ⟨node, point, results⟩ := s
  cases event with
  | loop =>
      refine iff_of_false ?_ (by simp)
      rw [CheckNet.exec]
      split <;> exact Bool.false_ne_true
  | startConnection connected =>
      cases connected <;> exact iff_of_false Bool.false_ne_true (by simp)
  | clearFlag => exact iff_of_false Bool.false_ne_true (by simp)
  | clearNum => exact iff_of_false Bool.false_ne_true (by simp)
  | needToSend ret => exact iff_of_false Bool.false_ne_true (by simp)
  | compare =>
      obtain rfl : point = .compare := henabled _ rfl
      rw [and_iff_right rfl, ← Counts.missedTooMany_iff h, CheckNet.exec]
      by_cases hmissed : node.missedTooMany = true
      · rw [if_pos hmissed]
        exact iff_of_true rfl hmissed
      · rw [if_neg hmissed]
        exact iff_of_false Bool.false_ne_true hmissed
  | connectionLost => exact iff_of_false Bool.false_ne_true (by simp)

theorem inv_of_reachable {s : CheckNet} (hreach : checkNetMachine.Reachable s) : s.Inv := by
  have hinit : checkNetMachine.init.Inv :=
    ⟨⟨rfl, Nat.zero_le 3⟩, fun h => absurd h (by decide)⟩
  refine hreach.invariant Inv hinit ?_
  intro t hstep h
  rw [← (hstep.of_total fun _ _ => rfl).1]
  exact h.exec hstep.1

end CheckNet

/-! ## Runs -/

/-- Where the thread compares and the last three heart beats have failed, they have all timed
out. -/
def FailsByTimeout (s : CheckNet) (event : CheckNetEvent) : Prop :=
  event = .compare → AllRecent 3 failed s.results → AllRecent 3 timedOut s.results

instance (s : CheckNet) (event : CheckNetEvent) : Decidable (FailsByTimeout s event) :=
  inferInstanceAs (Decidable (_ → _ → _))

/-- **When three timeouts are the only cause.**  In a run the check thread asks for a new
connection only after three timeouts in a row since the last one was made exactly when, at
every comparison, three failed heart beats in a row have all timed out. -/
theorem restart_after_timeouts_iff {trace : List (Transition CheckNet CheckNetEvent Bool)}
    {s : CheckNet} (hrun : checkNetMachine.Run trace s) :
    (∀ t ∈ trace, t.output = true → AllRecent 3 timedOut t.pre.results) ↔
      ∀ t ∈ trace, FailsByTimeout t.pre t.event := by
  refine forall₂_congr fun t ht => ?_
  obtain ⟨hstep, hreach⟩ := hrun.step_of_mem t ht
  rw [← (hstep.of_total fun _ _ => rfl).2,
    (CheckNet.inv_of_reachable hreach).output_iff hstep.1, and_imp]
  exact Iff.rfl

/-- A client whose heart beats end with these results, each in a round of its own. -/
def heartBeats (results : List StupidP2PResult) : List CheckNetEvent :=
  results.flatMap fun ret => [.loop, .needToSend ret, .compare]

theorem restart_after_three_timeouts :
    ∃ trace s, checkNetMachine.Run trace s ∧
      trace.map Transition.event = heartBeats [.netError, .netError, .netError] ∧
      s.node.needToRestartFlag = true ∧
      ∀ t ∈ trace, t.output = true → AllRecent 3 timedOut t.pre.results := by
  have hreplay : ∃ s, checkNetMachine.replay
      (fun s event => decide (checkNetMachine.enabled s event ∧ FailsByTimeout s event))
      (heartBeats [.netError, .netError, .netError]) checkNetMachine.init = some s ∧
      s.node.needToRestartFlag = true := ⟨_, rfl, rfl⟩
  obtain ⟨s, hs, hflag⟩ := hreplay
  obtain ⟨trace, hrun, hevents, hguards⟩ :=
    Machine.Run.replay (fun _ _ hready => (of_decide_eq_true hready).1) .start hs
  refine ⟨trace, s, hrun, hevents, hflag, ?_⟩
  exact (restart_after_timeouts_iff hrun).mpr
    fun t ht => (of_decide_eq_true (hguards t ht)).2

/-- The first heart beat is sent while `fd` is still 0, before `stupid_p2p_init` has stored the
handle.  `need_to_send` refuses it, and two timeouts later the thread asks for a new
connection. -/
theorem restart_after_two_timeouts :
    (∀ found malloc, needToSend found malloc 0 ProtocolCode.heartBeat.toByte [] 0 =
      some (.refused .badParam)) ∧
    ∃ trace t, checkNetMachine.Run (trace ++ [t]) t.post ∧
      (trace ++ [t]).map Transition.event = heartBeats [.badParam, .netError, .netError] ∧
      t.pre.node.needToRestartFlag = false ∧ t.output = true ∧
      t.pre.results = [.badParam, .netError, .netError] ∧
      ¬ AllRecent 3 timedOut t.pre.results := by
  refine ⟨fun _ _ => rfl, ?_⟩
  have hreplay : ∃ s post, checkNetMachine.replay
      (fun s event => decide (checkNetMachine.enabled s event))
      (heartBeats [.badParam, .netError] ++ [.loop, .needToSend .netError])
      checkNetMachine.init = some s ∧
      s.node.needToRestartFlag = false ∧ s.results = [.badParam, .netError, .netError] ∧
      checkNetMachine.enabled s .compare ∧
      checkNetMachine.exec s .compare = some (post, true) :=
    ⟨_, _, rfl, rfl, rfl, fun _ hpoint => Option.some.inj hpoint, rfl⟩
  obtain ⟨s, post, hs, hflag, hresults, henabled, hexec⟩ := hreplay
  obtain ⟨trace, hrun, hevents, -⟩ :=
    Machine.Run.replay (fun _ _ => of_decide_eq_true) .start hs
  refine ⟨trace, ⟨s, .compare, true, post⟩, .step hrun ⟨henabled, hexec⟩, ?_, hflag, rfl,
    hresults, ?_⟩
  · rw [List.map_append, hevents]
    rfl
  · show ¬ AllRecent 3 timedOut s.results
    rw [hresults]
    decide

end Client
end StupidP2P
