import StupidP2P.PythonClient.Restart
import StupidP2P.Foundation.Streak

/-!
# The heart beats of the Python client

`__heartBeat` counts in `notReceiveNum` the heart beats that were not answered and restarts the
client at the third.  An answer does not reset the counter, only a restart does.

Between two heart beats other calls and the receive thread may change everything but
`notReceiveNum`.  The runs here are those in which `needToRestartFlag` stays 0.
-/

namespace StupidP2P
namespace PythonClient

open Foundation

/-- A `stupidP2PClient` with the counter of its check thread. -/
structure HeartBeatClient extends StupidP2PClient where
  notReceiveNum : Nat

/-- What `__heartBeat` comes to, up to its call of `restartClient` if there is one. -/
structure HeartBeatOutcome where
  client : HeartBeatClient
  restarts : Bool
  result : Except PyError UInt8

namespace HeartBeatClient

/-- The second half of `__heartBeat`. -/
def restartIfLost (client : HeartBeatClient) (ret : UInt8) : HeartBeatOutcome :=
  if client.notReceiveNum > 2 ∨ client.needToRestartFlag = true then
    ⟨{ client with notReceiveNum := 0 }, true, .ok ret⟩
  else ⟨client, false, .ok ret⟩

/-- `__heartBeat`. -/
def heartBeat (client : HeartBeatClient) (env : CallEnv) : HeartBeatOutcome :=
  let outcome := client.toStupidP2PClient.sendCommand .heartBeat [] env
  match outcome.result with
  | .error e => ⟨⟨outcome.client, client.notReceiveNum⟩, false, .error e⟩
  | .ok ret =>
      if ret = notReceiveResponse then
        restartIfLost ⟨outcome.client, client.notReceiveNum + 1⟩ ret
      else restartIfLost ⟨outcome.client, client.notReceiveNum⟩ ret

end HeartBeatClient

/-- No answer was received. -/
def missed : Except PyError UInt8 → Bool
  | .ok ret => decide (ret = notReceiveResponse)
  | .error _ => false

/-- A client with the results of its heart beats since the last restart.  `restarting` is set
while `restartClient` has been called and has not returned. -/
structure HeartBeatLog where
  client : HeartBeatClient
  restarting : Bool
  results : List (Except PyError UInt8)

/-- `others` is what other threads make of the client. -/
inductive HeartBeatEvent
  | others (client : StupidP2PClient)
  | heartBeat (env : CallEnv)
  | restartClient (tryNum : Nat)

def HeartBeatEvent.isHeartBeat : HeartBeatEvent → Bool
  | .heartBeat _ => true
  | _ => false

namespace HeartBeatLog

/-- One step; the output says whether `restartClient` is called. -/
def exec (s : HeartBeatLog) : HeartBeatEvent → HeartBeatLog × Bool
  | .others client => ({ s with client := ⟨client, s.client.notReceiveNum⟩ }, false)
  | .heartBeat env =>
      let outcome := s.client.heartBeat env
      (⟨outcome.client, outcome.restarts, s.results ++ [outcome.result]⟩, outcome.restarts)
  | .restartClient tryNum =>
      let client := s.client.toStupidP2PClient.restartClient tryNum
      (⟨⟨client, s.client.notReceiveNum⟩, false, []⟩, false)

end HeartBeatLog

/-- `needToRestartFlag` stays 0. -/
def heartBeatMachine : Machine HeartBeatLog HeartBeatEvent Bool where
  init := ⟨⟨.connected, 0⟩, false, []⟩
  enabled s event :=
    match event with
    | .others client => client.needToRestartFlag = false
    | .heartBeat env =>
        s.restarting = false ∧
          (s.client.toStupidP2PClient.sendCommand .heartBeat [] env).client.needToRestartFlag =
            false
    | .restartClient _ => s.restarting = true
  exec s event := some (s.exec event)

instance (s : HeartBeatLog) :
    (event : HeartBeatEvent) → Decidable (heartBeatMachine.enabled s event)
  | .others client => inferInstanceAs (Decidable (client.needToRestartFlag = false))
  | .heartBeat _ => inferInstanceAs (Decidable (_ ∧ _))
  | .restartClient _ => inferInstanceAs (Decidable (s.restarting = true))

/-! ## What the counter holds -/

namespace HeartBeatClient

variable {client : HeartBeatClient} {env : CallEnv}

theorem restartIfLost_spec (ret : UInt8) (hflag : client.needToRestartFlag = false) :
    (client.restartIfLost ret).result = .ok ret ∧
      ((client.restartIfLost ret).restarts = true ↔ 2 < client.notReceiveNum) ∧
      (client.restartIfLost ret).client.notReceiveNum =
        if 2 < client.notReceiveNum then 0 else client.notReceiveNum := by
  have hcond : (client.notReceiveNum > 2 ∨ client.needToRestartFlag = true) ↔
      2 < client.notReceiveNum := by
    rw [hflag]
    exact or_iff_left Bool.false_ne_true
  rw [restartIfLost]
  by_cases hmany : 2 < client.notReceiveNum
  · rw [if_pos (hcond.mpr hmany), if_pos hmany]
    exact ⟨rfl, iff_of_true rfl hmany, rfl⟩
  · rw [if_neg (fun h => hmany (hcond.mp h)), if_neg hmany]
    exact ⟨rfl, iff_of_false Bool.false_ne_true hmany, rfl⟩

/-- The counter after a heart beat with this result. -/
def countMissed (num : Nat) (result : Except PyError UInt8) : Nat :=
  if missed result then num + 1 else num

theorem heartBeat_of_ok {ret : UInt8}
    (hcall : (client.toStupidP2PClient.sendCommand .heartBeat [] env).result = .ok ret) :
    client.heartBeat env =
      restartIfLost ⟨(client.toStupidP2PClient.sendCommand .heartBeat [] env).client,
        countMissed client.notReceiveNum (.ok ret)⟩ ret := by
  rw [heartBeat, hcall, countMissed]
  dsimp only
  by_cases hret : ret = notReceiveResponse
  · have hmissed : missed (.ok ret) = true := decide_eq_true hret
    rw [if_pos hret, if_pos hmissed]
  · have hanswer : ¬ missed (.ok ret) = true := fun h => hret (of_decide_eq_true h)
    rw [if_neg hret, if_neg hanswer]

/-- A heart beat that was not answered counts, and the third one restarts the client. -/
theorem heartBeat_spec (hle : client.notReceiveNum ≤ 2)
    (hflag : (client.toStupidP2PClient.sendCommand .heartBeat [] env).client.needToRestartFlag =
      false) :
    ((client.heartBeat env).restarts = true ↔
        2 < countMissed client.notReceiveNum (client.heartBeat env).result) ∧
      (client.heartBeat env).client.notReceiveNum =
        if 2 < countMissed client.notReceiveNum (client.heartBeat env).result then 0
        else countMissed client.notReceiveNum (client.heartBeat env).result := by
  cases hcall : (client.toStupidP2PClient.sendCommand .heartBeat [] env).result with
  | error e =>
      -- An exception leaves `__heartBeat` before the counter is looked at.
      have heq : client.heartBeat env =
          ⟨⟨(client.toStupidP2PClient.sendCommand .heartBeat [] env).client,
            client.notReceiveNum⟩, false, .error e⟩ := by
        rw [heartBeat, hcall]
      have hnot : ¬ 2 < countMissed client.notReceiveNum (.error e) := by
        show ¬ 2 < client.notReceiveNum
        omega
      rw [heq, if_neg hnot]
      exact ⟨iff_of_false Bool.false_ne_true hnot, rfl⟩
  | ok ret =>
      obtain ⟨hresult, hspec⟩ := @restartIfLost_spec
        ⟨_, countMissed client.notReceiveNum (.ok ret)⟩ ret hflag
      rw [heartBeat_of_ok hcall, hresult]
      exact hspec

end HeartBeatClient

namespace HeartBeatLog

variable {s : HeartBeatLog}

/-- The counter holds the number of all heart beats since the last restart that were not
answered. -/
def Inv (s : HeartBeatLog) : Prop :=
  (s.restarting = false → s.client.notReceiveNum = s.results.countP missed) ∧
    (s.restarting = true → s.client.notReceiveNum = 0) ∧ s.client.notReceiveNum ≤ 2

/-- The results with that of the present heart beat. -/
def resultsAfter (s : HeartBeatLog) (env : CallEnv) : List (Except PyError UInt8) :=
  s.results ++ [(s.client.heartBeat env).result]

theorem Inv.countMissed_eq (h : s.Inv) (hgoes : s.restarting = false) (env : CallEnv) :
    HeartBeatClient.countMissed s.client.notReceiveNum (s.client.heartBeat env).result =
      (s.resultsAfter env).countP missed := by
  rw [HeartBeatClient.countMissed, resultsAfter, List.countP_append, List.countP_singleton,
    h.1 hgoes]
  split <;> rfl

/-- **One step.** -/
theorem Inv.exec {event : HeartBeatEvent} (h : s.Inv)
    (henabled : heartBeatMachine.enabled s event) : (s.exec event).1.Inv := by
  cases event with
  | others client => exact h
  | heartBeat env =>
      obtain ⟨hgoes, hflag⟩ := henabled
      obtain ⟨hrestarts, hnum⟩ := HeartBeatClient.heartBeat_spec h.2.2 hflag
      rw [h.countMissed_eq hgoes env] at hrestarts hnum
      refine ⟨?_, ?_, ?_⟩
      · intro (hstays : (s.client.heartBeat env).restarts = false)
        have hfew : ¬ 2 < (s.resultsAfter env).countP missed := by
          rw [← hrestarts, hstays]
          exact Bool.false_ne_true
        show (s.client.heartBeat env).client.notReceiveNum = (s.resultsAfter env).countP missed
        rw [hnum, if_neg hfew]
      · intro (hcalls : (s.client.heartBeat env).restarts = true)
        show (s.client.heartBeat env).client.notReceiveNum = 0
        rw [hnum, if_pos (hrestarts.mp hcalls)]
      · show (s.client.heartBeat env).client.notReceiveNum ≤ 2
        rw [hnum]
        split <;> omega
  | restartClient tryNum =>
      -- The counter was set to 0 before the call.
      have hzero : s.client.notReceiveNum = 0 := h.2.1 henabled
      exact ⟨fun _ => hzero, fun _ => hzero, h.2.2⟩

/-- `restartClient` is called exactly at the third heart beat since the last restart that is
not answered. -/
theorem Inv.output_iff {event : HeartBeatEvent} (h : s.Inv)
    (henabled : heartBeatMachine.enabled s event) :
    (s.exec event).2 = true ↔
      event.isHeartBeat = true ∧ 3 ≤ (s.exec event).1.results.countP missed := by
  cases event with
  | others client => exact iff_of_false Bool.false_ne_true (fun h => Bool.false_ne_true h.1)
  | heartBeat env =>
      obtain ⟨hgoes, hflag⟩ := henabled
      obtain ⟨hrestarts, -⟩ := HeartBeatClient.heartBeat_spec h.2.2 hflag
      rw [h.countMissed_eq hgoes env] at hrestarts
      show (s.client.heartBeat env).restarts = true ↔
        true = true ∧ 3 ≤ (s.resultsAfter env).countP missed
      rw [hrestarts, and_iff_right rfl]
      exact Iff.rfl
  | restartClient tryNum =>
      exact iff_of_false Bool.false_ne_true (fun h => Bool.false_ne_true h.1)

theorem inv_of_reachable (hreach : heartBeatMachine.Reachable s) : s.Inv := by
  have hinit : heartBeatMachine.init.Inv := ⟨fun _ => rfl, fun _ => rfl, Nat.zero_le 2⟩
  refine hreach.invariant Inv hinit ?_
  intro t hstep h
  rw [← (hstep.of_total fun _ _ => rfl).1]
  exact h.exec hstep.1

end HeartBeatLog

/-! ## Runs -/

/-- If three heart beats since the last restart were not answered, they are the last three. -/
def MissesInARow (s : HeartBeatLog) : HeartBeatEvent → Prop
  | .heartBeat env =>
      3 ≤ (s.resultsAfter env).countP missed → AllRecent 3 missed (s.resultsAfter env)
  | _ => True

instance (s : HeartBeatLog) : (event : HeartBeatEvent) → Decidable (MissesInARow s event)
  | .others _ => isTrue trivial
  | .heartBeat _ => inferInstanceAs (Decidable (_ → _))
  | .restartClient _ => isTrue trivial

theorem missesInARow_iff {s : HeartBeatLog} {event : HeartBeatEvent} :
    (event.isHeartBeat = true → 3 ≤ (s.exec event).1.results.countP missed →
      AllRecent 3 missed (s.exec event).1.results) ↔ MissesInARow s event := by
  cases event with
  | others client => exact iff_of_true (fun h => Bool.noConfusion h) trivial
  | heartBeat env => exact ⟨fun h => h rfl, fun h _ => h⟩
  | restartClient tryNum => exact iff_of_true (fun h => Bool.noConfusion h) trivial

/-- **When three misses in a row are the only cause.**  In a run without `needToRestartFlag`
three heart beats in a row that are not answered always restart the client.  They are the only
cause of a restart exactly when every third miss directly follows the two before it. -/
theorem restart_after_misses_iff
    {trace : List (Transition HeartBeatLog HeartBeatEvent Bool)} {s : HeartBeatLog}
    (hrun : heartBeatMachine.Run trace s) :
    (∀ t ∈ trace, t.event.isHeartBeat = true → AllRecent 3 missed t.post.results →
      t.output = true) ∧
    ((∀ t ∈ trace, t.output = true → AllRecent 3 missed t.post.results) ↔
      ∀ t ∈ trace, MissesInARow t.pre t.event) := by
  have hdecision : ∀ t ∈ trace, t.post = (t.pre.exec t.event).1 ∧ (t.output = true ↔
      t.event.isHeartBeat = true ∧ 3 ≤ t.post.results.countP missed) := by
    intro t ht
    obtain ⟨hstep, hreach⟩ := hrun.step_of_mem t ht
    obtain ⟨hpost, houtput⟩ := hstep.of_total fun _ _ => rfl
    rw [← hpost, ← houtput]
    exact ⟨rfl, (HeartBeatLog.inv_of_reachable hreach).output_iff hstep.1⟩
  constructor
  · -- The last three are among all that were missed.
    intro t ht hbeat hrecent
    exact (hdecision t ht).2.mpr ⟨hbeat, hrecent.le_countP⟩
  · refine forall₂_congr fun t ht => ?_
    obtain ⟨hpost, houtput⟩ := hdecision t ht
    rw [houtput, and_imp, hpost]
    exact missesInARow_iff

/-- A heart beat that reads the same value all the time. -/
def steadily (response : UInt8) : HeartBeatEvent := .heartBeat ⟨.sent 5, fun _ => response⟩

theorem restart_after_three_misses :
    ∃ trace s, heartBeatMachine.Run trace s ∧
      trace.map Transition.event = [steadily 0xff, steadily 0xff, steadily 0xff] ∧
      s.restarting = true ∧
      ∀ t ∈ trace, t.output = true → AllRecent 3 missed t.post.results := by
  have hreplay : (heartBeatMachine.replay
      (fun s event => decide (heartBeatMachine.enabled s event ∧ MissesInARow s event))
      [steadily 0xff, steadily 0xff, steadily 0xff] heartBeatMachine.init).map
        (fun s => s.restarting) = some true := by
    decide +kernel
  obtain ⟨s, hs, hrestarting⟩ := Option.map_eq_some_iff.mp hreplay
  obtain ⟨trace, hrun, hevents, hguards⟩ :=
    Machine.Run.replay (fun _ _ hready => (of_decide_eq_true hready).1) .start hs
  refine ⟨trace, s, hrun, hevents, hrestarting, ?_⟩
  exact (restart_after_misses_iff hrun).2.mpr fun t ht => (of_decide_eq_true (hguards t ht)).2

/-- Every second heart beat is answered, and still the third miss restarts the client. -/
theorem restart_after_separate_misses :
    ∃ trace t, heartBeatMachine.Run (trace ++ [t]) t.post ∧
      (trace ++ [t]).map Transition.event =
        [steadily 0xff, steadily 0x01, steadily 0xff, steadily 0x01, steadily 0xff] ∧
      t.output = true ∧ t.post.results.map missed = [true, false, true, false, true] ∧
      ¬ AllRecent 3 missed t.post.results := by
  have hreplay : (heartBeatMachine.replay
      (fun s event => decide (heartBeatMachine.enabled s event))
      [steadily 0xff, steadily 0x01, steadily 0xff, steadily 0x01] heartBeatMachine.init).map
        (fun s => (decide (heartBeatMachine.enabled s (steadily 0xff)),
          (s.exec (steadily 0xff)).2, (s.exec (steadily 0xff)).1.results.map missed,
          decide (AllRecent 3 missed (s.exec (steadily 0xff)).1.results))) =
      some (true, true, [true, false, true, false, true], false) := by
    decide +kernel
  obtain ⟨s, hs, hlast⟩ := Option.map_eq_some_iff.mp hreplay
  simp only [Prod.mk.injEq, decide_eq_true_eq, decide_eq_false_iff_not] at hlast
  obtain ⟨henabled, houtput, hresults, hrecent⟩ := hlast
  obtain ⟨trace, hrun, hevents, -⟩ :=
    Machine.Run.replay (fun _ _ => of_decide_eq_true) .start hs
  refine ⟨trace, ⟨s, steadily 0xff, true, (s.exec (steadily 0xff)).1⟩,
    .step hrun ⟨henabled, ?_⟩, ?_, rfl, hresults, hrecent⟩
  · rw [← houtput]
    rfl
  · rw [List.map_append, hevents]
    rfl

end PythonClient
end StupidP2P
