import StupidP2P.Foundation.Since
import StupidP2P.Server.IdleSweep
import StupidP2P.Server.SendData
import Mathlib.Data.List.Pairwise

/-!
# What keeps a connection alive

`idle_sweep_exact` speaks about `lastReceiveTime`; this module replaces it by the history of the
connection.  As long as the clock is not set back, the timer finds a connection idle exactly if
the connection came up, and sent each of its heart beats, more than the limit ago
(`shut_down_iff_silent`).  No other message counts: a connection that keeps sending data and no
heart beat is shut down.
-/

namespace StupidP2P
namespace Server

open Foundation P2PServer

/-! ## The sweep, when no time lies in the future -/

/-- The connections that are up and were not heard of for longer than the limit. -/
def P2PServer.idle (σ : P2PServer) (idleSeconds now : Int) : List Conn :=
  σ.connectionList.values.filter fun conn =>
    decide (now - (σ.context conn).lastReceiveTime > idleSeconds * 1000000)

theorem onTimer_past {idleSeconds now : Int} {lock : Conn → Bool} {σ : P2PServer}
    (hplaced : σ.Placed) (henabled : enabled σ (.timer now lock)) (hsorted : σ.toRoster.Sorted)
    (hpast : ∀ conn, σ.live conn = true → (σ.context conn).lastReceiveTime ≤ now) :
    onTimer idleSeconds now lock σ =
      some (σ.swept (σ.idle idleSeconds now, σ.toRoster.time)) := by
  have hexpired : (Roster.sweep (idleSeconds * 1000000) now σ.toRoster.order
      σ.toRoster.time).1 = σ.idle idleSeconds now :=
    Roster.sweep_expired hplaced.values_nodup hsorted
  have htime : (Roster.sweep (idleSeconds * 1000000) now σ.toRoster.order
      σ.toRoster.time).2 = σ.toRoster.time := by
    funext conn
    by_cases hmem : conn ∈ σ.toRoster.order
    · rcases @Roster.sweep_time Conn _ (idleSeconds * 1000000) now σ.toRoster.order
        σ.toRoster.time conn with hkept | ⟨hfuture, -⟩
      · exact hkept
      · have hle : σ.toRoster.time conn ≤ now := hpast conn ((hplaced.mem_values conn).mp hmem)
        omega
    · exact Roster.sweep_time_of_notMem hmem _
  rw [onTimer_eq (hplaced.lock_of_enabled henabled)]
  exact congrArg (fun result => some (σ.swept result)) (Prod.ext hexpired htime)

theorem mem_idle {σ : P2PServer} (hplaced : σ.Placed) {idleSeconds now : Int} {conn : Conn} :
    conn ∈ σ.idle idleSeconds now ↔ σ.live conn = true ∧
      now - (σ.context conn).lastReceiveTime > idleSeconds * 1000000 := by
  rw [P2PServer.idle, List.mem_filter, decide_eq_true_iff, hplaced.mem_values]

/-! ## The clock -/

/-- The time an event takes from the clock. -/
def clockTime : Event → Option Int
  | .timer now _ => some now
  | event => recordedTime event

def clockTimes (events : List Event) : List Int :=
  events.filterMap clockTime

/-- The clock is not set back. -/
def ClockForward (events : List Event) : Prop :=
  (clockTimes events).Pairwise (· ≤ ·)

theorem clockTimes_concat (events : List Event) (event : Event) :
    clockTimes (events ++ [event]) = clockTimes events ++ (clockTime event).toList := by
  simp only [clockTimes, List.filterMap_eq_flatMap_toList, List.flatMap_append,
    List.flatMap_singleton]

theorem clockForward_concat {events : List Event} {event : Event} :
    ClockForward (events ++ [event]) ↔ ClockForward events ∧
      ∀ time ∈ clockTimes events, ∀ now ∈ clockTime event, time ≤ now := by
  unfold ClockForward
  rw [clockTimes_concat, List.pairwise_append]
  constructor
  · rintro ⟨hevents, -, hlate⟩
    exact ⟨hevents, fun time htime now hnow => hlate time htime now (Option.mem_toList.mpr hnow)⟩
  · rintro ⟨hevents, hlate⟩
    refine ⟨hevents, ?_, fun time htime now hnow =>
      hlate time htime now (Option.mem_toList.mp hnow)⟩
    cases clockTime event with
    | none => exact List.Pairwise.nil
    | some now => exact List.pairwise_singleton _ _

theorem ClockForward.recordedTimes {events : List Event} (h : ClockForward events) :
    (recordedTimes events).Pairwise (· ≤ ·) := by
  refine List.Pairwise.sublist (filterMap_sublist_filterMap ?_ events) h
  intro event time htime
  cases event with
  | timer now lock => exact absurd htime (by simp [recordedTime])
  | up | down | message | invalidLength => exact htime

/-! ## When a connection was heard of -/

/-- The time at which an event shows `conn` to be alive: it comes up, or sends a heart beat. -/
def heardTime (conn : Conn) : Event → Option Int
  | .up c now => if c = conn then some now else none
  | .message c message time =>
      if c = conn ∧ ProtocolCode.ofByte (message.headD 0) = some .heartBeat then some time
      else none
  | _ => none

def heardTimes (conn : Conn) (events : List Event) : List Int :=
  events.filterMap (heardTime conn)

theorem heardTimes_concat (conn : Conn) (events : List Event) (event : Event) :
    heardTimes conn (events ++ [event]) =
      heardTimes conn events ++ (heardTime conn event).toList := by
  simp only [heardTimes, List.filterMap_eq_flatMap_toList, List.flatMap_append,
    List.flatMap_singleton]

theorem clockTime_of_heardTime {conn : Conn} {event : Event} {time : Int}
    (h : heardTime conn event = some time) : clockTime event = some time := by
  cases event with
  | up c now =>
      simp only [heardTime] at h
      split at h
      · exact h
      · exact absurd h (by simp)
  | message c message received =>
      simp only [heardTime] at h
      split at h
      · rename_i hbeat
        exact (if_pos hbeat.2).trans h
      · exact absurd h (by simp)
  | down c | invalidLength c | timer now lock => exact absurd h (by simp [heardTime])

theorem heardTimes_sublist (conn : Conn) (events : List Event) :
    (heardTimes conn events).Sublist (clockTimes events) :=
  filterMap_sublist_filterMap (fun _ _ => clockTime_of_heardTime) events

/-- No time in the context of a live connection lies in the future, if the timer fires now. -/
def NotAhead (σ : P2PServer) : Event → Prop
  | .timer now _ => ∀ conn, σ.live conn = true → (σ.context conn).lastReceiveTime ≤ now
  | _ => True

/-- **One event.**  The time in a context changes only when the connection is heard of. -/
theorem lastReceiveTime_exec {idleSeconds : Int} {σ σ' : P2PServer} {event : Event}
    {sends : List CodecSend} (hplaced : σ.Placed) (hsorted : σ.toRoster.Sorted)
    (henabled : enabled σ event) (hpast : NotAhead σ event)
    (hexec : exec idleSeconds σ event = some (σ', sends)) (conn : Conn) :
    (σ'.context conn).lastReceiveTime =
      (heardTime conn event).getD (σ.context conn).lastReceiveTime := by
  cases event with
  | up c now =>
      simp only [exec, Option.map_eq_some_iff, Prod.mk.injEq] at hexec
      obtain ⟨τ, hup, rfl, -⟩ := hexec
      have htime : (τ.context conn).lastReceiveTime =
          Function.update σ.toRoster.time c now conn :=
        congrFun (congrArg Roster.time (toRoster_up hup)) conn
      rw [htime, heardTime]
      by_cases hc : c = conn
      · rw [if_pos hc, hc, Function.update_self, Option.getD_some]
      · rw [if_neg hc, Function.update_of_ne (Ne.symm hc)]
        rfl
  | down c =>
      simp only [exec, Option.map_eq_some_iff, Prod.mk.injEq] at hexec
      obtain ⟨τ, hdown, rfl, -⟩ := hexec
      exact congrFun (congrArg Roster.time (toRoster_down hplaced henabled hdown)) conn
  | message c message time =>
      rw [heardTime]
      by_cases hbeat : ProtocolCode.ofByte (message.headD 0) = some .heartBeat
      · simp only [exec, P2PServer.onMessage, hbeat, Option.map_eq_some_iff] at hexec
        obtain ⟨τ, hfunc, hout⟩ := hexec
        obtain rfl := (Prod.mk.inj hout).1
        have htime : (τ.context conn).lastReceiveTime =
            Function.update σ.toRoster.time c time conn :=
          congrFun (congrArg Roster.time (toRoster_heartBeatFunc hplaced henabled hfunc)) conn
        rw [htime]
        by_cases hc : c = conn
        · rw [if_pos ⟨hc, hbeat⟩, hc, Function.update_self, Option.getD_some]
        · rw [if_neg fun h => hc h.1, Function.update_of_ne (Ne.symm hc)]
          rfl
      · rw [if_neg fun h => hbeat h.2]
        exact congrFun (congrArg Listing.time (listing_onMessage hexec hbeat)) conn
  | invalidLength c =>
      simp only [exec, Option.some.injEq, Prod.mk.injEq] at hexec
      obtain rfl := hexec.1
      exact congrFun (congrArg Listing.time (listing_shutdown σ c)) conn
  | timer now lock =>
      simp only [exec, Option.map_eq_some_iff, Prod.mk.injEq] at hexec
      obtain ⟨τ, htimer, rfl, -⟩ := hexec
      rw [onTimer_past hplaced henabled hsorted hpast, Option.some.injEq] at htimer
      rw [← htimer]
      rfl

/-- The context of every live connection has the time it was last heard of. -/
def Heard (events : List Event) (σ : P2PServer) : Prop :=
  ∀ conn, σ.live conn = true →
    (heardTimes conn events).getLast? = some (σ.context conn).lastReceiveTime

/-- While the clock is not set back, no time lies in the future. -/
theorem Heard.notAhead {events : List Event} {event : Event} {σ : P2PServer}
    (hheard : Heard events σ)
    (hlate : ∀ time ∈ clockTimes events, ∀ now ∈ clockTime event, time ≤ now) :
    NotAhead σ event := by
  cases event with
  | timer now lock =>
      intro conn hlive
      have hmem := List.mem_of_getLast? (hheard conn hlive)
      exact hlate _ ((heardTimes_sublist conn events).subset hmem) now rfl
  | up | down | message | invalidLength => trivial

/-- A connection that comes to life with an event is heard of by it. -/
theorem live_of_heardTime_none {idleSeconds : Int} {σ σ' : P2PServer} {event : Event}
    {sends : List CodecSend} (hexec : exec idleSeconds σ event = some (σ', sends)) {conn : Conn}
    (hnone : heardTime conn event = none) (hlive : σ'.live conn = true) :
    σ.live conn = true := by
  rw [← phase_live_iff, exec_toRegistry hexec] at hlive
  rw [← phase_live_iff]
  cases event with
  | up c now =>
      have hc : conn ≠ c := by
        rintro rfl
        rw [heardTime, if_pos rfl] at hnone
        exact absurd hnone (by simp)
      change Function.update σ.toRegistry.phase c .live conn = .live at hlive
      rwa [Function.update_of_ne hc] at hlive
  | down c =>
      change Function.update σ.toRegistry.phase c .gone conn = .live at hlive
      by_cases hc : conn = c
      · rw [hc, Function.update_self] at hlive
        exact absurd hlive (by decide)
      · rwa [Function.update_of_ne hc] at hlive
  | message c message time =>
      rwa [Registry.phase_apply _ _ (fun d => (opOf_message c d message time).1)
        fun d => (opOf_message c d message time).2] at hlive
  | invalidLength c | timer now lock => exact hlive

/-- **A whole run**, by induction on its steps. -/
theorem run_heard {idleSeconds : Int} (hidle : 0 ≤ idleSeconds) {σ : P2PServer}
    {trace : List (Transition P2PServer Event (List CodecSend))}
    (hrun : (machine idleSeconds).Run trace σ)
    (hclock : ClockForward (trace.map Transition.event)) :
    Heard (trace.map Transition.event) σ := by
  induction hrun with
  | start =>
      intro conn hlive
      exact absurd hlive (by simp [machine, initial, P2PServer.live])
  | @step trace t hrun hstep ih =>
      rw [List.map_append, List.map_singleton] at hclock ⊢
      obtain ⟨hbefore, hlate⟩ := clockForward_concat.mp hclock
      have hheard := ih hbefore
      have htime := lastReceiveTime_exec (reachable_placed ⟨trace, hrun⟩)
        (run_dated hidle hrun hbefore.recordedTimes).1 hstep.1 (hheard.notAhead hlate) hstep.2
      intro conn hlive
      rw [heardTimes_concat, htime conn]
      cases hevent : heardTime conn t.event with
      | some time => rw [Option.toList_some, List.getLast?_concat, Option.getD_some]
      | none =>
          rw [Option.toList_none, List.append_nil, Option.getD_none]
          exact hheard conn (live_of_heardTime_none hstep.2 hevent hlive)

/-! ## What the timer finds -/

theorem live_of_connected {σ : P2PServer} {conn : Conn} (h : σ.connected conn = true) :
    σ.live conn = true := by
  rw [connected_eq_true_iff] at h
  rw [P2PServer.live, decide_eq_true_iff]
  exact Or.inl h

/-- **What keeps a connection alive.**  While the clock is not set back, the timer shuts a
connected connection down exactly if the connection came up, and sent each of its heart beats,
longer ago than the limit. -/
theorem shut_down_iff_silent {idleSeconds : Int} (hidle : 0 ≤ idleSeconds) {σ : P2PServer}
    {before after : List (Transition P2PServer Event (List CodecSend))}
    {t : Transition P2PServer Event (List CodecSend)}
    (hrun : (machine idleSeconds).Run (before ++ t :: after) σ)
    (hclock : ClockForward ((before ++ [t]).map Transition.event))
    {now : Int} {lock : Conn → Bool} (htimer : t.event = .timer now lock)
    {conn : Conn} (hconnected : t.pre.connected conn = true) :
    t.post.connected conn = false ↔
      ∀ time ∈ heardTimes conn (before.map Transition.event),
        now - time > idleSeconds * 1000000 := by
  obtain ⟨hbefore, henabled, hexec⟩ := hrun.to_step
  rw [List.map_append, List.map_singleton] at hclock
  obtain ⟨hforward, hlate⟩ := clockForward_concat.mp hclock
  have hplaced := reachable_placed ⟨before, hbefore⟩
  have hsorted := (run_dated hidle hbefore hforward.recordedTimes).1
  have hheard := run_heard hidle hbefore hforward
  rw [htimer] at henabled hexec hlate
  have hpast : NotAhead t.pre (.timer now lock) := hheard.notAhead hlate
  have hlive : t.pre.live conn = true := live_of_connected hconnected
  obtain ⟨τ, honTimer, hout⟩ := Option.map_eq_some_iff.mp hexec
  rw [onTimer_past hplaced henabled hsorted hpast, Option.some.injEq] at honTimer
  have hpost : t.post.connected conn = false ↔
      now - (t.pre.context conn).lastReceiveTime > idleSeconds * 1000000 := by
    rw [← (Prod.mk.inj hout).1, ← honTimer, ← Bool.not_eq_true, connected_swept, not_and,
      not_not, mem_idle hplaced]
    exact ⟨fun h => (h hconnected).2, fun h _ => ⟨hlive, h⟩⟩
  rw [hpost]
  -- The time in the context is the last of those at which the connection was heard of.
  have hlast := hheard conn hlive
  constructor
  · intro hold time htime
    have hle := (hforward.sublist (heardTimes_sublist conn _)).rel_getLast htime
    rw [List.getLast?_eq_some_getLast (List.ne_nil_of_mem htime), Option.some.injEq] at hlast
    omega
  · intro hall
    exact hall _ (List.mem_of_getLast? hlast)

/-- Connection 0 comes up, sends a heart beat after 100 seconds and data after 350 seconds;
connection 1 comes up and sends a heart beat after 350 seconds. -/
def sendsNoBeat : List Event :=
  [.up 0 0, .up 1 0, .message 0 [7] 100000000, .message 1 [7] 350000000,
    .message 0 [3, 120] 350000000]

/-- The timer fires after 401 seconds. -/
def firesAfter : Transition P2PServer Event (List CodecSend) :=
  ⟨after sendsNoBeat, .timer 401000000 fun _ => true, [],
    (onTimer 300 401000000 (fun _ => true) (after sendsNoBeat)).getD initial⟩

/-- Connection 0 is shut down, although it sent data 51 seconds before; connection 1 is not. -/
theorem shut_down_iff_silent_firesAfter :
    ∃ before, (machine 300).Run (before ++ firesAfter :: []) firesAfter.post ∧
      before.map Transition.event = sendsNoBeat ∧
      firesAfter.post.connected 0 = false ∧ firesAfter.post.connected 1 = true := by
  have hreplay : (machine 300).replay ready sendsNoBeat initial = some (after sendsNoBeat) := rfl
  have hstart : (machine 300).Run [] initial := .start
  obtain ⟨before, hrun, hevents, -⟩ := hstart.replay enabled_of_ready hreplay
  rw [List.nil_append] at hrun
  have hstep : (machine 300).Step firesAfter := ⟨fun _ _ => rfl, rfl⟩
  have hfires : (machine 300).Run (before ++ firesAfter :: []) firesAfter.post := .step hrun hstep
  have hclock : ClockForward ((before ++ [firesAfter]).map Transition.event) := by
    rw [List.map_append, hevents]
    show List.Pairwise (· ≤ ·) [0, 0, 100000000, 350000000, 401000000]
    decide
  refine ⟨before, hfires, hevents, ?_, ?_⟩
  · rw [shut_down_iff_silent (by decide) hfires hclock rfl rfl, hevents]
    decide
  · rw [← Bool.not_eq_false, shut_down_iff_silent (by decide) hfires hclock rfl rfl, hevents]
    decide

end Server
end StupidP2P
