import StupidP2P.Server.ConnectionList

/-!
# The idle sweep

`onTimer` walks `_connectionList` from the front and stops at the first connection
that is neither expired nor dated in the future.  The list is a roster: a
connection that comes up or sends a heart beat goes to the end with its new time.
As long as the recorded times do not decrease the list is sorted by
`lastReceiveTime`, whatever the clock says when the timer fires, and the sweep
shuts down exactly the expired connections.
-/

namespace StupidP2P
namespace Server

open Foundation

/-! ## The server's list is a roster -/

namespace P2PServer

theorem toRoster_congr {σ σ' : P2PServer} (hlisting : σ'.listing = σ.listing) :
    σ'.toRoster = σ.toRoster :=
  congrArg (fun l : Listing => Roster.mk l.list.values l.time) hlisting

theorem toRoster_up {σ σ' : P2PServer} {conn : Conn} {now : Int}
    (h : (σ.setState conn .kConnected).onConnection conn now = some σ') :
    σ'.toRoster = σ.toRoster.connect conn now := by
  have hroster := congrArg (fun l : Listing => Roster.mk l.list.values l.time) (up_listing h)
  rw [NodeList.values_pushBack] at hroster
  exact hroster

theorem values_of_nodes_filter {l l' : NodeList Conn} {conn : Conn}
    (hnodes : l'.nodes = l.nodes.filter fun node => decide (node.2 ≠ conn)) :
    l'.values = l.values.filter fun d => decide (d ≠ conn) := by
  unfold NodeList.values
  rw [hnodes, List.filter_map]
  rfl

theorem toRoster_down {σ σ' : P2PServer} {conn : Conn} {now : Int} (hplaced : σ.Placed)
    (hlive : σ.live conn = true)
    (h : (σ.setState conn .kDisconnected).onConnection conn now = some σ') :
    σ'.toRoster = σ.toRoster.disconnect conn := by
  have hnodes := (hplaced.down hlive h).2
  obtain ⟨τ, hdown, hlisting⟩ := @down_listing σ conn conn now (hplaced.mem_nodes hlive)
  obtain rfl := Option.some.inj (h.symm.trans hdown)
  have htime : σ'.toRoster.time = σ.toRoster.time := congrArg Listing.time hlisting
  show Roster.mk σ'.connectionList.values σ'.toRoster.time = _
  rw [values_of_nodes_filter hnodes, htime]
  rfl

theorem toRoster_heartBeatFunc {σ σ' : P2PServer} {conn : Conn} {time : Int}
    (hplaced : σ.Placed) (hlive : σ.live conn = true)
    (h : σ.heartBeatFunc conn time = some σ') :
    σ'.toRoster = σ.toRoster.beat conn time := by
  obtain ⟨τ, hbeat, hnodes, -, htime⟩ := hplaced.heartBeatFunc_eq hlive time
  obtain rfl := Option.some.inj (h.symm.trans hbeat)
  have hvalues : σ'.connectionList.values =
      (σ.connectionList.values.filter fun d => decide (d ≠ conn)) ++ [conn] := by
    unfold NodeList.values
    rw [hnodes, List.map_append, List.filter_map]
    rfl
  show Roster.mk σ'.connectionList.values σ'.listing.time = _
  rw [hvalues, htime]
  rfl

end P2PServer

open P2PServer

/-! ## Sorted as long as the recorded times do not decrease -/

/-- The time an event writes into a context: the clock when a connection comes up,
the time of reception of a heart beat. -/
def recordedTime : Event → Option Int
  | .up _ now => some now
  | .message _ message time =>
      if ProtocolCode.ofByte (message.headD 0) = some .heartBeat then some time else none
  | _ => none

/-- The times a sequence of events writes, in order. -/
def recordedTimes (events : List Event) : List Int :=
  events.filterMap recordedTime

/-- A sorted roster whose times were all recorded, or lowered since. -/
def Dated (times : List Int) (r : Roster Conn) : Prop :=
  r.Sorted ∧ ∀ conn ∈ r.order, ∃ time ∈ times, r.time conn ≤ time

theorem Dated.mono {times more : List Int} {r : Roster Conn} (h : Dated times r) :
    Dated (times ++ more) r := by
  refine ⟨h.1, ?_⟩
  intro conn hmem
  obtain ⟨time, htime, hle⟩ := h.2 conn hmem
  exact ⟨time, List.mem_append_left _ htime, hle⟩

theorem Dated.connect {times : List Int} {r : Roster Conn} {conn : Conn} {now : Int}
    (h : Dated times r) (hfresh : conn ∉ r.order) (hlate : ∀ time ∈ times, time ≤ now) :
    Dated (times ++ [now]) (r.connect conn now) := by
  constructor
  · refine Roster.sorted_connect h.1 hfresh ?_
    intro d hd
    obtain ⟨time, htime, hle⟩ := h.2 d hd
    exact Int.le_trans hle (hlate time htime)
  · intro d hd
    by_cases heq : d = conn
    · subst heq
      exact ⟨now, by simp, by simp [Roster.connect]⟩
    · have hold : d ∈ r.order := by simpa [Roster.connect, heq] using hd
      obtain ⟨time, htime, hle⟩ := h.2 d hold
      refine ⟨time, List.mem_append_left _ htime, ?_⟩
      show Function.update r.time conn now d ≤ time
      rwa [Function.update_of_ne heq]

theorem Dated.disconnect {times : List Int} {r : Roster Conn} (h : Dated times r)
    (conn : Conn) : Dated times (r.disconnect conn) := by
  refine ⟨Roster.sorted_disconnect conn h.1, ?_⟩
  intro d hd
  exact h.2 d (Roster.mem_disconnect.mp hd).1

theorem Dated.beat {times : List Int} {r : Roster Conn} {conn : Conn} {now : Int}
    (h : Dated times r) (hlate : ∀ time ∈ times, time ≤ now) :
    Dated (times ++ [now]) (r.beat conn now) := by
  refine (h.disconnect conn).connect ?_ hlate
  intro hmem
  exact (Roster.mem_disconnect.mp hmem).2 rfl

/-- A sweep lowers times only. -/
theorem Dated.sweep {times : List Int} {r : Roster Conn} {limit now : Int}
    (h : Dated times r) (hlimit : 0 ≤ limit) (hnodup : r.order.Nodup) :
    Dated times ⟨r.order, (Roster.sweep limit now r.order r.time).2⟩ := by
  refine ⟨Roster.sorted_sweep hlimit hnodup h.1, ?_⟩
  intro conn hmem
  obtain ⟨time, htime, hle⟩ := h.2 conn hmem
  refine ⟨time, htime, ?_⟩
  rcases @Roster.sweep_time Conn _ limit now r.order r.time conn with hkept | ⟨hlt, hreset⟩
  · show (Roster.sweep limit now r.order r.time).2 conn ≤ time
    omega
  · show (Roster.sweep limit now r.order r.time).2 conn ≤ time
    omega

/-- One event, with the time it records. -/
theorem dated_exec {idleSeconds : Int} (hidle : 0 ≤ idleSeconds) {σ σ' : P2PServer}
    {event : Event} {sends : List CodecSend} {times : List Int} (hplaced : σ.Placed)
    (henabled : enabled σ event) (h : exec idleSeconds σ event = some (σ', sends))
    (hdated : Dated times σ.toRoster)
    (hlate : ∀ time ∈ times, ∀ now ∈ recordedTime event, time ≤ now) :
    Dated (times ++ (recordedTime event).toList) σ'.toRoster := by
  cases event with
  | up conn now =>
      simp only [exec, Option.map_eq_some_iff, Prod.mk.injEq] at h
      obtain ⟨τ, hup, rfl, -⟩ := h
      rw [toRoster_up hup]
      refine hdated.connect ?_ fun time htime => hlate time htime now rfl
      -- A connection that comes up was not in the list.
      intro hmem
      have hlive := (hplaced.mem_values conn).mp hmem
      simp [P2PServer.live, show σ.state conn = .kConnecting from henabled] at hlive
  | down conn =>
      simp only [exec, Option.map_eq_some_iff, Prod.mk.injEq] at h
      obtain ⟨τ, hdown, rfl, -⟩ := h
      rw [toRoster_down hplaced henabled hdown]
      exact (hdated.disconnect conn).mono
  | message conn message time =>
      by_cases hcode : ProtocolCode.ofByte (message.headD 0) = some .heartBeat
      · have hrecorded : recordedTime (.message conn message time) = some time := if_pos hcode
        rw [hrecorded] at hlate ⊢
        simp only [exec, P2PServer.onMessage, hcode, Option.map_eq_some_iff] at h
        obtain ⟨τ, hbeat, hout⟩ := h
        rw [← (Prod.mk.inj hout).1, toRoster_heartBeatFunc hplaced henabled hbeat]
        exact hdated.beat fun old hold => hlate old hold time rfl
      · -- Only a heart beat writes a time.
        rw [toRoster_congr (listing_onMessage h hcode)]
        exact hdated.mono
  | invalidLength conn =>
      simp only [exec, Option.some.injEq, Prod.mk.injEq] at h
      rw [← h.1, toRoster_congr (listing_shutdown σ conn)]
      exact hdated.mono
  | timer now lock =>
      simp only [exec, Option.map_eq_some_iff, Prod.mk.injEq] at h
      obtain ⟨τ, htimer, rfl, -⟩ := h
      rw [onTimer_eq (hplaced.lock_of_enabled henabled), Option.some.injEq] at htimer
      -- The timer records no time, but may lower some.
      have hlimit : 0 ≤ idleSeconds * 1000000 := by omega
      rw [← htimer]
      exact (hdated.sweep hlimit hplaced.values_nodup).mono

/-- A whole run, by induction on its steps. -/
theorem run_dated {idleSeconds : Int} (hidle : 0 ≤ idleSeconds) {σ : P2PServer}
    {trace : List (Transition P2PServer Event (List CodecSend))}
    (hrun : (machine idleSeconds).Run trace σ)
    (hclock : (recordedTimes (trace.map Transition.event)).Pairwise (· ≤ ·)) :
    Dated (recordedTimes (trace.map Transition.event)) σ.toRoster := by
  induction hrun with
  | start =>
      refine ⟨List.Pairwise.nil, ?_⟩
      intro conn hmem
      simp [toRoster, machine, initial, NodeList.values, NodeList.empty] at hmem
  | @step trace t hrun hstep ih =>
      have htimes : recordedTimes ((trace ++ [t]).map Transition.event) =
          recordedTimes (trace.map Transition.event) ++ (recordedTime t.event).toList := by
        simp only [recordedTimes, List.map_append, List.map_singleton,
          List.filterMap_eq_flatMap_toList, List.flatMap_append, List.flatMap_singleton]
      rw [htimes] at hclock ⊢
      rw [List.pairwise_append] at hclock
      refine dated_exec hidle (reachable_placed ⟨trace, hrun⟩) hstep.1 hstep.2
        (ih hclock.1) ?_
      intro time htime now hnow
      exact hclock.2.2 time htime now (Option.mem_toList.mpr hnow)

/-- **The idle sweep is exact.**  In a run whose recorded times do not decrease, the
connection list is sorted by `lastReceiveTime`, and the timer, at whatever time it
fires, shuts down exactly the connected connections that have been idle for longer
than the limit.  The only times it changes lie in the future; it sets them to `now`. -/
theorem idle_sweep_exact {idleSeconds : Int} (hidle : 0 ≤ idleSeconds) {σ : P2PServer}
    {trace : List (Transition P2PServer Event (List CodecSend))}
    (hrun : (machine idleSeconds).Run trace σ)
    (hclock : (recordedTimes (trace.map Transition.event)).Pairwise (· ≤ ·)) :
    (σ.connectionList.values.Pairwise fun c d =>
        (σ.context c).lastReceiveTime ≤ (σ.context d).lastReceiveTime) ∧
      ∀ now lock, enabled σ (.timer now lock) →
        ∃ σ', exec idleSeconds σ (.timer now lock) = some (σ', []) ∧
          (∀ conn, σ'.state conn =
            if σ.connected conn = true ∧
                now - (σ.context conn).lastReceiveTime > idleSeconds * 1000000 then
              .kDisconnecting
            else σ.state conn) ∧
          ∀ conn, (σ'.context conn).lastReceiveTime ≠ (σ.context conn).lastReceiveTime →
            now < (σ.context conn).lastReceiveTime ∧
              (σ'.context conn).lastReceiveTime = now := by
  have hplaced := reachable_placed ⟨trace, hrun⟩
  have hsorted := (run_dated hidle hrun hclock).1
  refine ⟨hsorted, ?_⟩
  intro now lock henabled
  have htimer := @onTimer_eq idleSeconds now lock σ (hplaced.lock_of_enabled henabled)
  refine ⟨_, congrArg (Option.map fun τ => (τ, [])) htimer, ?_, ?_⟩
  · intro conn
    show ite _ _ _ = _
    have hfound : (Roster.sweep (idleSeconds * 1000000) now σ.toRoster.order
        σ.toRoster.time).1 = σ.toRoster.order.filter fun c =>
          decide (now - σ.toRoster.time c > idleSeconds * 1000000) :=
      Roster.sweep_expired hplaced.values_nodup hsorted
    have hexpired : conn ∈ (Roster.sweep (idleSeconds * 1000000) now σ.toRoster.order
        σ.toRoster.time).1 ↔ σ.live conn = true ∧
          now - (σ.context conn).lastReceiveTime > idleSeconds * 1000000 := by
      rw [hfound, List.mem_filter, decide_eq_true_iff]
      exact and_congr_left fun _ => hplaced.mem_values conn
    -- `shutdown` of a connection that is shut down already does nothing.
    by_cases hconn : σ.state conn = .kConnected
    · simp [hexpired, hconn, P2PServer.live, P2PServer.connected]
    · simp [hconn, P2PServer.connected]
  · intro conn hne
    rcases @Roster.sweep_time Conn _ (idleSeconds * 1000000) now σ.toRoster.order
      σ.toRoster.time conn with hkept | hreset
    · exact absurd hkept hne
    · exact hreset

/-- Connection 1 came up 200 seconds after connection 0. -/
def upTwice : List Event :=
  [.up 0 0, .up 1 200000000]

/-- After 301 seconds connection 0 is shut down and connection 1 is not. -/
theorem idle_sweep_exact_upTwice :
    ∃ trace, (machine 300).Run trace (after upTwice) ∧
      ∃ σ', exec 300 (after upTwice) (.timer 301000000 fun _ => true) = some (σ', []) ∧
        σ'.state 0 = .kDisconnecting ∧ σ'.state 1 = .kConnected := by
  have hreplay : (machine 300).replay ready upTwice initial = some (after upTwice) := rfl
  have hstart : (machine 300).Run [] initial := .start
  obtain ⟨trace, hrun, hevents, -⟩ := hstart.replay enabled_of_ready hreplay
  rw [List.nil_append] at hrun
  have hclock : (recordedTimes (trace.map Transition.event)).Pairwise (· ≤ ·) := by
    rw [hevents]
    decide
  obtain ⟨σ', hexec, hstate, -⟩ :=
    (idle_sweep_exact (by decide) hrun hclock).2 301000000 (fun _ => true) fun _ _ => rfl
  refine ⟨trace, hrun, σ', hexec, ?_, ?_⟩
  · rw [hstate]
    decide +kernel
  · rw [hstate]
    decide +kernel

end Server
end StupidP2P
