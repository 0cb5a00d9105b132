import StupidP2P.Foundation.Since
import StupidP2P.Server.Threads

/-!
# What the interleaving of the two threads adds

The relation of the threads to the serial server of `StupidP2P.Server.Model` is:

* `threads_linearize`: whatever the two threads have done is a run of the serial server, in which
  each connection the sweep shut down is shut down in one step of its own;
* `threads_realize`: a run of the serial server is one of the threads, in which the sweeps are
  left alone;
* `threads_defined_iff`: what the threads add is undefined behaviour of the sweep, if a connection
  has gone down while the iterator stood on its node, or if it visits a connection that is just
  coming up.
-/

namespace StupidP2P
namespace Server

open Foundation P2PServer

section

variable {idleSeconds : Int} {s : Threads}
variable {t : Transition Threads ThreadEvent (List CodecSend)}
variable {trace : List (Transition Threads ThreadEvent (List CodecSend))}

/-! ## Linearization -/

/-- What a step amounts to is never the timer. -/
theorem serialOf_ne_timer (hstep : (threads idleSeconds).Step t) {event : Event}
    (hserial : serialOf idleSeconds t = [event]) (now : Int) (lock : Conn → Bool) :
    event ≠ .timer now lock := by
  rintro rfl
  unfold serialOf at hserial
  obtain ⟨pre, event, output, post⟩ := t
  cases event with
  | push conn now => exact absurd hserial (by simp)
  | io event =>
      have hwhole := hstep.1.2.1
      rw [List.singleton_inj.mp hserial] at hwhole
      exact absurd hwhole (by simp [Event.isWhole])
  | body lock' =>
      dsimp only at hserial
      cases hexpired : Threads.expired idleSeconds pre <;> simp [hexpired] at hserial
  | resume =>
      dsimp only at hserial
      split at hserial <;> simp at hserial
  | beat | fire | next => exact absurd hserial (by simp)

/-- **The threads linearize.**  Whatever the two threads have done, the serial server does it
too: it comes up, goes down and handles messages in the same order, shuts down the connections
the sweep shut down at the moments at which it did, and sends the same.  Its stores and its
connections are then in the same state. -/
theorem threads_linearize (hrun : (threads idleSeconds).Run trace s) :
    ∃ trace' σ, (machine idleSeconds).Run trace' σ ∧
      trace'.map Transition.event = trace.flatMap (serialOf idleSeconds) ∧
      trace'.flatMap Transition.output = trace.flatMap Transition.output ∧
      SameServer s.settled σ := by
  induction hrun with
  | start => exact ⟨[], P2PServer.initial, .start, rfl, rfl, rfl, rfl⟩
  | @step trace t hrun hstep ih =>
      obtain ⟨trace', σ, hrun', hevents, houtputs, hsame⟩ := ih
      have hsound := threads_sound ⟨trace, hrun⟩
      obtain ⟨-, ⟨event, σ', hserial, henabled, hexec, hpost⟩ | ⟨hserial, hnil, hpost⟩⟩ :=
        settled_step hsound hstep
      · have henabled' := hsame.enabled henabled
        have hdefined : (Server.exec idleSeconds σ event).isSome = true := by
          rw [Server.exec_isSome_iff ⟨trace', hrun'⟩ henabled']
          have hiff :=
            @Placed.exec_isSome_iff idleSeconds t.pre.settled hsound.placed event henabled
          rw [hexec] at hiff
          exact fun hmeets => hiff.mp rfl (hsame.meets hmeets)
        obtain ⟨⟨σ₁, sends⟩, hexec'⟩ := Option.isSome_iff_exists.mp hdefined
        obtain ⟨hsame₁, hsends⟩ := hsame.exec (serialOf_ne_timer hstep hserial) hexec hexec'
        refine ⟨trace' ++ [⟨σ, event, sends, σ₁⟩], σ₁, ?_, ?_, ?_, hpost.symm.trans hsame₁⟩
        · exact .step hrun' ⟨henabled', hexec'⟩
        · rw [List.map_append, List.flatMap_append, hevents]
          simp [hserial]
        · rw [List.flatMap_append, List.flatMap_append, houtputs]
          simp [hsends]
      · refine ⟨trace', σ, hrun', ?_, ?_, hpost.symm.trans hsame⟩
        · rw [List.flatMap_append, hevents]
          simp [hserial]
        · rw [List.flatMap_append, houtputs]
          simp [hnil]

/-- Where some events lead, if nothing is sent. -/
def threadsAfter (events : List ThreadEvent) : Threads :=
  events.foldl (fun s event => ((s.exec 300 event).getD (s, [])).1) .initial

def threadsStep (events : List ThreadEvent) (event : ThreadEvent) :
    Transition Threads ThreadEvent (List CodecSend) :=
  ⟨threadsAfter events, event, [], threadsAfter (events ++ [event])⟩

/-- Connection 0 comes up, and 301 seconds later the sweep shuts it down. -/
def sweeps : List ThreadEvent :=
  [.push 0 0, .resume, .fire 301000000, .body fun _ => true]

/-- It goes down before the sweep goes on. -/
def overlap : List (Transition Threads ThreadEvent (List CodecSend)) :=
  [threadsStep [] (.push 0 0), threadsStep (sweeps.take 1) .resume,
    threadsStep (sweeps.take 2) (.fire 301000000),
    threadsStep (sweeps.take 3) (.body fun _ => true), threadsStep sweeps (.io (.down 0))]

theorem run_overlap : (threads 300).Run overlap (threadsAfter (sweeps ++ [.io (.down 0)])) := by
  have hpush : (threads 300).Step (threadsStep [] (.push 0 0)) := ⟨⟨rfl, rfl⟩, rfl⟩
  have hresume : (threads 300).Step (threadsStep (sweeps.take 1) .resume) := ⟨rfl, rfl⟩
  have hfire : (threads 300).Step (threadsStep (sweeps.take 2) (.fire 301000000)) := ⟨rfl, rfl⟩
  have hbody : (threads 300).Step (threadsStep (sweeps.take 3) (.body fun _ => true)) :=
    ⟨⟨⟨_, _, rfl⟩, fun _ _ => rfl⟩, rfl⟩
  have hdown : (threads 300).Step (threadsStep sweeps (.io (.down 0))) := ⟨⟨rfl, rfl, rfl⟩, rfl⟩
  exact Machine.Run.step (Machine.Run.step (Machine.Run.step (Machine.Run.step
    (Machine.Run.step .start hpush) hresume) hfire) hbody) hdown

theorem threads_linearize_overlap :
    ∃ serial σ, (machine 300).Run serial σ ∧
      serial.map Transition.event = [.up 0 0, .invalidLength 0, .down 0] := by
  obtain ⟨serial, σ, hserial, hevents, -, -⟩ := threads_linearize run_overlap
  exact ⟨serial, σ, hserial, hevents⟩

/-! ## Undefined behaviour -/

/-- A connection goes down while the iterator of the sweep stands on its node. -/
def HitsIterator (t : Transition Threads ThreadEvent (List CodecSend)) : Prop :=
  ∃ key, t.pre.sweep.key = some key ∧ Erases t key

/-- The iterator of the sweep stands on the node of a connection that has no context yet. -/
def Threads.AtOpening (s : Threads) : Prop :=
  ∃ conn info, s.pending = some (.context conn info) ∧ s.sweep.key = some info.position

theorem dangling_step (hsound : t.pre.Sound) (hstep : (threads idleSeconds).Step t) :
    t.post.Dangling ↔ HitsIterator t ∨ t.pre.Dangling := by
  rcases list_step hsound hstep with ⟨hsweep, -, hkeys⟩ | ⟨-, herases, hpre, hpost, -⟩
  · constructor
    · rintro ⟨key, hkey, hout⟩
      rw [hsweep] at hkey
      rw [hkeys key (hsound.designates key hkey), not_and_or, not_not] at hout
      rcases hout with hold | herased
      · exact Or.inr ⟨key, hkey, hold⟩
      · exact Or.inl ⟨key, hkey, herased⟩
    · intro h
      obtain ⟨key, hkey, hout⟩ : ∃ key, t.pre.sweep.key = some key ∧
          ¬ (key ∈ t.pre.server.connectionList.keys ∧ ¬ Erases t key) := by
        rcases h with ⟨key, hkey, herased⟩ | ⟨key, hkey, hold⟩
        · exact ⟨key, hkey, fun hin => hin.2 herased⟩
        · exact ⟨key, hkey, fun hin => hold hin.1⟩
      refine ⟨key, hsweep ▸ hkey, ?_⟩
      rw [hkeys key (hsound.designates key hkey)]
      exact hout
  · refine iff_of_false hpost ?_
    rintro (⟨key, -, herased⟩ | hdangling)
    · exact herases key herased
    · exact hpre hdangling

/-- Nothing brings an erased node back, and the sweep does not get past it. -/
theorem dangling_iff (hrun : (threads idleSeconds).Run trace s) :
    s.Dangling ↔ ∃ t ∈ trace, HitsIterator t := by
  rw [← since_never]
  refine hrun.since_iff Threads.Dangling ?_ ?_
  · rw [Threads.not_dangling_iff]
    simp [threads, Threads.initial, Sweep.key]
  · intro t hstep hreach
    simpa using dangling_step (threads_sound hreach) hstep

/-- The connection of the node is the one that is coming up exactly if the iterator stands there. -/
theorem isOpening_iff_atOpening (hsound : s.Sound) {now : Int} {key : Nat} {conn : Conn}
    (hsweep : s.sweep = .test now (.node key))
    (hderef : s.server.connectionList.deref key = some conn) :
    s.isOpening conn = true ↔ s.AtOpening := by
  have hnode := NodeList.deref_eq_some_iff.mp hderef
  rw [← Threads.connectionList_settled] at hnode
  obtain ⟨server, sweep, pending⟩ := s
  obtain rfl : sweep = _ := hsweep
  cases pending with
  | none => simp [Threads.isOpening, Threads.AtOpening]
  | some pending =>
      cases pending with
      | splice c message time => simp [Threads.isOpening, Threads.AtOpening]
      | context opened info =>
          have hat : Threads.AtOpening
              ⟨server, .test now (.node key), some (.context opened info)⟩ ↔
                key = info.position := by
            constructor
            · rintro ⟨c, i, hpending, hkey⟩
              obtain ⟨-, rfl⟩ := Pending.context.inj (Option.some.inj hpending)
              exact Option.some.inj hkey
            · rintro rfl
              exact ⟨opened, info, rfl, rfl⟩
          have hopened : (info.position, opened) ∈
              (Threads.settled ⟨server, .test now (.node key),
                some (.context opened info)⟩).connectionList.nodes := by
            refine (hsound.placed _ _).mpr ⟨?_, ?_⟩
            · rw [Threads.live_settled]
              exact hsound.live _ rfl
            · simp [Threads.settled, modifyInfo]
          rw [hat]
          show decide (opened = conn) = true ↔ _
          rw [decide_eq_true_iff]
          constructor
          · rintro rfl
            have hkey := ((hsound.placed _ _).mp hnode).2
            have hposition := ((hsound.placed _ _).mp hopened).2
            exact hkey.symm.trans hposition
          · rintro rfl
            exact NodeList.eq_of_mem_nodes hopened hnode

theorem body_isSome_iff (hsound : s.Sound) {lock : Conn → Bool}
    (henabled : threadsEnabled s (.body lock)) :
    (s.body idleSeconds lock).isSome = true ↔ ¬ s.Dangling ∧ ¬ s.AtOpening := by
  obtain ⟨⟨now, it, hsweep⟩, hlock⟩ := henabled
  cases it with
  | finish =>
      refine iff_of_true ?_ ⟨?_, ?_⟩
      · simp [Threads.body, hsweep]
      · simp [Threads.Dangling, hsweep, Sweep.key]
      · simp [Threads.AtOpening, hsweep, Sweep.key]
  | node key =>
      have hdangling : s.Dangling ↔ key ∉ s.server.connectionList.keys := by
        simp [Threads.Dangling, hsweep, Sweep.key]
      rw [hdangling, not_not, ← NodeList.deref_isSome_iff]
      cases hderef : s.server.connectionList.deref key with
      | none => simp [Threads.body, hsweep, hderef]
      | some conn =>
          have hnode := NodeList.deref_eq_some_iff.mp hderef
          rw [← Threads.connectionList_settled] at hnode
          obtain ⟨hlive, hposition⟩ := (hsound.placed key conn).mp hnode
          rw [Threads.live_settled] at hlive
          -- The connection of the node is the one underway exactly if the node is.
          have hopening := isOpening_iff_atOpening hsound hsweep hderef
          rw [← hopening]
          simp only [Threads.body, hsweep, hderef, hlock conn hlive, if_true, Option.isSome_some,
            true_and, Bool.not_eq_true]
          cases s.isOpening conn with
          | true => simp
          | false =>
              refine iff_of_true ?_ rfl
              simp only [Bool.false_eq_true, if_false]
              split
              · rfl
              · split <;> rfl

/-- When the next step is undefined.  `trace` is what the threads have done. -/
def ThreadEvent.Undefined (trace : List (Transition Threads ThreadEvent (List CodecSend)))
    (s : Threads) : ThreadEvent → Prop
  | .io event => MeetsClosedReceiver s.server event
  | .body _ => (∃ t ∈ trace, HitsIterator t) ∨ s.AtOpening
  | .next => ∃ t ∈ trace, HitsIterator t
  | _ => False

/-- **When the two threads run into undefined behaviour**, data races left aside: each operation
on the list and each access to a time is a step that is not interrupted.  The I/O thread does so
only as it does without the sweep, in `sendDataFunc`.  The sweep does so if a connection has gone
down while its iterator stood on the node, and if it visits a connection whose context is not set
yet. -/
theorem threads_defined_iff (hrun : (threads idleSeconds).Run trace s) {event : ThreadEvent}
    (henabled : threadsEnabled s event) :
    (s.exec idleSeconds event).isSome = true ↔ ¬ event.Undefined trace s := by
  have hsound := threads_sound ⟨trace, hrun⟩
  cases event with
  | push conn now => exact iff_of_true rfl id
  | beat conn message time => exact iff_of_true rfl id
  | resume =>
      refine iff_of_true ?_ id
      obtain ⟨pending, hpending⟩ := Option.isSome_iff_exists.mp henabled
      obtain ⟨server, sweep, _⟩ := s
      obtain rfl : _ = some pending := hpending
      cases pending with
      | context conn info => rfl
      | splice conn message time =>
          show ((server.moveBehind conn).map _).isSome = true
          rw [Option.isSome_map]
          exact Placed.moveBehind_isSome hsound.placed (hsound.live _ rfl)
  | io event =>
      obtain ⟨hnone, -, hio⟩ := henabled
      have hplaced := hsound.placed
      rw [Threads.settled_of_none hnone] at hplaced
      show ((Server.exec idleSeconds s.server event).map _).isSome = true ↔ _
      rw [Option.isSome_map]
      exact hplaced.exec_isSome_iff hio
  | fire now => exact iff_of_true rfl id
  | body lock =>
      show ((s.body idleSeconds lock).map _).isSome = true ↔ ¬ (_ ∨ _)
      rw [Option.isSome_map, body_isSome_iff hsound henabled, dangling_iff hrun, not_or]
  | next =>
      obtain ⟨now, it, hsweep⟩ := henabled
      show (s.next.map _).isSome = true ↔ ¬ ∃ t ∈ trace, HitsIterator t
      rw [Option.isSome_map, ← dangling_iff hrun, Threads.not_dangling_iff]
      cases it with
      | finish => exact absurd hsweep (hsound.inside now)
      | node key =>
          rw [hsweep]
          simp only [Threads.next, hsweep, Option.isSome_map, NodeList.next_isSome_iff, Sweep.key,
            Option.some.injEq, forall_eq']

/-- Then `it++` reads a node that has been freed. -/
theorem threads_defined_iff_overlap :
    (∃ t ∈ overlap, HitsIterator t) ∧
      (Threads.exec 300 (threadsAfter (sweeps ++ [.io (.down 0)])) .next).isSome = false := by
  have hhits : ∃ t ∈ overlap, HitsIterator t :=
    ⟨threadsStep sweeps (.io (.down 0)), by simp [overlap], 0, rfl, 0, rfl, rfl⟩
  have hnext : threadsEnabled (threadsAfter (sweeps ++ [.io (.down 0)])) .next :=
    ⟨301000000, .node 0, rfl⟩
  refine ⟨hhits, ?_⟩
  rw [← Bool.not_eq_true, threads_defined_iff run_overlap hnext, not_not]
  exact hhits

/-! ## The serial server among the threads -/

/-- The threads can get to `s`, with these sends on the way. -/
def Attains (idleSeconds : Int) (s : Threads) (sends : List CodecSend) : Prop :=
  ∃ trace, (threads idleSeconds).Run trace s ∧ trace.flatMap Transition.output = sends

theorem Attains.exec {s' : Threads} {sends output : List CodecSend}
    (h : Attains idleSeconds s sends) (event : ThreadEvent) (henabled : threadsEnabled s event)
    (hexec : s.exec idleSeconds event = some (s', output)) :
    Attains idleSeconds s' (sends ++ output) := by
  obtain ⟨trace, hrun, rfl⟩ := h
  refine ⟨_, Machine.Run.step (t := ⟨s, event, output, s'⟩) hrun ⟨henabled, hexec⟩, ?_⟩
  simp

theorem Attains.sound {sends : List CodecSend} (h : Attains idleSeconds s sends) : s.Sound := by
  obtain ⟨trace, hrun, -⟩ := h
  exact threads_sound ⟨trace, hrun⟩

/-- The loop of `onTimer`, if the other thread stays still meanwhile. -/
theorem Attains.onTimerLoop {now : Int} {lock : Conn → Bool} {fuel : Nat} {σ σ' : P2PServer}
    {it : Cursor} {sends : List CodecSend}
    (h : Attains idleSeconds ⟨σ, .test now it, none⟩ sends)
    (hlock : ∀ conn, σ.live conn = true → lock conn = true)
    (hloop : P2PServer.onTimerLoop idleSeconds now lock fuel σ it = some σ') :
    Attains idleSeconds ⟨σ', .rest, none⟩ sends := by
  induction fuel generalizing σ it with
  | zero => exact absurd hloop (by simp [P2PServer.onTimerLoop])
  | succ fuel ih =>
      have hplaced := h.sound.placed
      -- One step of the thread: the body of the loop.
      have hbody : ∀ s', Threads.body idleSeconds lock ⟨σ, .test now it, none⟩ = some s' →
          Attains idleSeconds s' sends := by
        intro s' hsome
        rw [← List.append_nil sends]
        exact h.exec (.body lock) ⟨⟨now, it, rfl⟩, hlock⟩ (congrArg (Option.map (·, [])) hsome)
      -- Another one: `it++`, and the rest of the loop.
      have hround : ∀ (τ : P2PServer) (key : Nat) (behind : Cursor),
          Attains idleSeconds ⟨τ, .advance now (.node key), none⟩ sends →
          (∀ conn, τ.live conn = σ.live conn) → τ.connectionList.next key = some behind →
          P2PServer.onTimerLoop idleSeconds now lock fuel τ behind = some σ' →
          Attains idleSeconds ⟨σ', .rest, none⟩ sends := by
        intro τ key behind hadvance hlive hnext hrest
        have htest : Attains idleSeconds ⟨τ, .test now behind, none⟩ (sends ++ []) := by
          refine hadvance.exec .next ⟨now, .node key, rfl⟩ ?_
          simp only [Threads.exec, Threads.next, hnext, Option.map_some]
        rw [List.append_nil] at htest
        exact ih htest (fun conn hconn => hlock conn ((hlive conn).symm.trans hconn)) hrest
      cases it with
      | finish =>
          rw [← Option.some.inj hloop]
          exact hbody _ rfl
      | node key =>
          simp only [P2PServer.onTimerLoop] at hloop
          cases hderef : σ.connectionList.deref key with
          | none => exact absurd hloop (by simp [hderef])
          | some conn =>
              have hnode := NodeList.deref_eq_some_iff.mp hderef
              have hlocked := hlock conn ((hplaced key conn).mp hnode).1
              simp only [hderef, hlocked, if_true] at hloop
              simp only [Threads.body, hderef, hlocked, if_true, Threads.isOpening,
                Bool.false_eq_true, if_false] at hbody
              by_cases hage : now - (σ.context conn).lastReceiveTime > idleSeconds * 1000000
              · rw [if_pos hage] at hbody hloop
                split at hloop
                · exact absurd hloop (by simp)
                · rename_i behind hnext
                  exact hround _ key behind (hbody _ rfl) (live_shutdown σ conn) hnext hloop
              · rw [if_neg hage] at hbody hloop
                by_cases hfuture : now - (σ.context conn).lastReceiveTime < 0
                · rw [if_pos hfuture] at hbody hloop
                  split at hloop
                  · exact absurd hloop (by simp)
                  · rename_i behind hnext
                    exact hround _ key behind (hbody _ rfl) (fun _ => rfl) hnext hloop
                · rw [if_neg hfuture] at hbody hloop
                  rw [← Option.some.inj hloop]
                  exact hbody _ rfl

/-- **The serial server is one of the threads' runs.**  Whatever it does, the two threads can do,
with the same sends, if each handler and each sweep is left alone until it is done. -/
theorem threads_realize {σ : P2PServer}
    {serial : List (Transition P2PServer Event (List CodecSend))}
    (hserial : (machine idleSeconds).Run serial σ) :
    Attains idleSeconds ⟨σ, .rest, none⟩ (serial.flatMap Transition.output) := by
  induction hserial with
  | start => exact ⟨[], .start, rfl⟩
  | @step serial t hserial hstep ih =>
      obtain ⟨pre, event, output, post⟩ := t
      obtain ⟨henabled, hexec⟩ := hstep
      dsimp only at ih henabled hexec ⊢
      rw [List.flatMap_append, List.flatMap_singleton]
      have hwhole (h : event.isWhole = true) :
          Attains idleSeconds ⟨post, .rest, none⟩
            (serial.flatMap Transition.output ++ output) := by
        refine ih.exec (.io event) ⟨rfl, h, henabled⟩ ?_
        exact Option.map_eq_some_iff.mpr ⟨(post, output), hexec, rfl⟩
      cases event with
      | down conn => exact hwhole rfl
      | invalidLength conn => exact hwhole rfl
      | up conn now =>
          have hpush := ih.exec (.push conn now) ⟨rfl, henabled⟩ rfl
          have hresume := hpush.exec .resume rfl rfl
          rw [List.append_nil] at hresume
          have hboth : some (post, output) = some (_, []) :=
            hexec.symm.trans (@Threads.settled_push ⟨pre, .rest, none⟩ rfl idleSeconds conn now)
          obtain ⟨rfl, rfl⟩ := Prod.mk.inj (Option.some.inj hboth)
          exact hresume
      | message conn message time =>
          by_cases hbeat : isHeartBeat message = true
          · have hcode := of_decide_eq_true hbeat
            have hmessage : onMessage pre conn message time = some (post, output) := hexec
            simp only [onMessage, hcode] at hmessage
            have hstart := ih.exec (.beat conn message time) ⟨rfl, hbeat, henabled⟩ rfl
            rw [List.append_nil] at hstart
            refine hstart.exec .resume rfl ?_
            obtain ⟨τ, hmoved, hpost⟩ := Option.map_eq_some_iff.mp hmessage
            obtain ⟨rfl, rfl⟩ := Prod.mk.inj hpost
            exact Option.map_eq_some_iff.mpr ⟨τ, hmoved, rfl⟩
          · exact hwhole (by simp [Event.isWhole, hbeat])
      | timer now lock =>
          obtain ⟨τ, htimer, hpost⟩ := Option.map_eq_some_iff.mp hexec
          obtain ⟨rfl, rfl⟩ := Prod.mk.inj hpost
          have hfire := ih.exec (.fire now) rfl rfl
          exact hfire.onTimerLoop henabled htimer

/-- Connection 0 comes up and sends a heart beat, which is answered. -/
theorem threads_realize_beats :
    Attains 300 ⟨after [.up 0 0, .message 0 [7] 5], .rest, none⟩ [⟨0, [135, 1]⟩] := by
  have hup : (machine 300).Step comesUp := ⟨rfl, rfl⟩
  have hbeat : (machine 300).Step
      (stepAfter [.up 0 0] (.message 0 [7] 5) [⟨0, [135, 1]⟩]) := ⟨rfl, rfl⟩
  exact threads_realize (.step (.step .start hup) hbeat)

end

end Server
end StupidP2P
