import StupidP2P.Server.CleanUp
import StupidP2P.Server.Relay
import StupidP2P.Server.SendToList

/-!
# Forwarding to receivers that are not connected

`sendDataFunc` walks `sendToList`, sends to the receivers that are connected and erases
the others.  The iterator it erased is the one it goes on with, where `onTimer` takes the
iterator that `erase` returns.  So the walk is defined exactly when nothing has to be
erased: when every receiver in the list is connected.

A receiver stops being connected before it goes down when its id is taken over, when the
idle sweep finds it expired or when it sends a bad length; it joins a list unconnected
when it subscribes after one of these; and it stays in a list behind its DOWN when its
clean-up does not find that list.  `KeepsReceiversConnected` rules these out, step by
step, and decides in which runs forwarding is always safe.
-/

namespace StupidP2P
namespace Server

open Foundation

/-- The receivers of `conn` that are connected, in list order. -/
def P2PServer.connectedReceivers (σ : P2PServer) (conn : Conn) : List Conn :=
  (σ.context conn).sendToList.values.filter σ.connected

/-- `sendDataFunc` ends without following an erased iterator, whatever number of rounds
beyond the length of the list it is given; it sends the message once to each connected
receiver, in list order, and to nobody else; and it leaves the connected receivers in the
list, with nothing else changed. -/
structure ForwardsSafely (σ : P2PServer) (conn : Conn) (message : Message)
    (list : NodeList Conn) (sends : List CodecSend) : Prop where
  loop : ∀ fuel, (σ.context conn).sendToList.nodes.length < fuel →
    P2PServer.sendDataLoop σ message fuel (σ.context conn).sendToList
      (σ.context conn).sendToList.start = some (list, sends)
  result : σ.sendDataFunc conn message =
    some (σ.modifyInfo conn fun info => { info with sendToList := list }, sends)
  sends_eq : sends = (σ.connectedReceivers conn).map fun receiver => ⟨receiver, message⟩
  once : ∀ receiver, (sends.filter fun send => decide (send.conn = receiver)).length =
    if receiver ∈ σ.connectedReceivers conn then 1 else 0
  list_eq : list.values = σ.connectedReceivers conn

/-- There is a safe result of forwarding. -/
def SafeToForward (σ : P2PServer) (conn : Conn) (message : Message) : Prop :=
  ∃ list sends, ForwardsSafely σ conn message list sends

namespace P2PServer

/-- The whole walk, for any number of rounds beyond the length of the list. -/
theorem sendDataLoop_start (σ : P2PServer) (conn : Conn) (message : Message) (fuel : Nat)
    (hfuel : (σ.context conn).sendToList.nodes.length < fuel) :
    sendDataLoop σ message fuel (σ.context conn).sendToList (σ.context conn).sendToList.start =
      if ∀ receiver ∈ (σ.context conn).sendToList.values, σ.connected receiver = true then
        some ((σ.context conn).sendToList,
          (σ.context conn).sendToList.values.map fun receiver => ⟨receiver, message⟩)
      else none := by
  have hloop := sendDataLoop_eq σ message (σ.context conn).sendToList []
    (σ.context conn).sendToList.nodes fuel hfuel rfl
  simp only [NodeList.values, List.forall_mem_map, List.map_map]
  exact hloop

end P2PServer

/-- Without duplicates, a message goes to each member of a list once. -/
theorem length_filter_sends {receivers : List Conn} (hnodup : receivers.Nodup)
    (message : Message) (receiver : Conn) :
    ((receivers.map fun d => CodecSend.mk d message).filter
        fun send => decide (send.conn = receiver)).length =
      if receiver ∈ receivers then 1 else 0 := by
  rw [List.filter_map, List.length_map, ← hnodup.count, List.count, List.countP_eq_length_filter]
  congr 1

/-- **One call.**  With no receiver twice in the list, forwarding is safe exactly when
every receiver in it is connected. -/
theorem safeToForward_iff {σ : P2PServer} {conn : Conn}
    (hnodup : (σ.context conn).sendToList.values.Nodup) (message : Message) :
    SafeToForward σ conn message ↔
      ∀ receiver ∈ (σ.context conn).sendToList.values, σ.connected receiver = true := by
  constructor
  · rintro ⟨list, sends, hsafe⟩
    have hloop := hsafe.loop _ (Nat.lt_succ_self _)
    rw [P2PServer.sendDataLoop_start _ _ _ _ (Nat.lt_succ_self _)] at hloop
    by_contra hnot
    rw [if_neg hnot] at hloop
    exact absurd hloop (by simp)
  · intro hall
    have hreceivers : σ.connectedReceivers conn = (σ.context conn).sendToList.values :=
      List.filter_eq_self.mpr hall
    have hloop : ∀ fuel, (σ.context conn).sendToList.nodes.length < fuel →
        P2PServer.sendDataLoop σ message fuel (σ.context conn).sendToList
          (σ.context conn).sendToList.start =
            some ((σ.context conn).sendToList,
              (σ.context conn).sendToList.values.map fun receiver => ⟨receiver, message⟩) := by
      intro fuel hfuel
      rw [P2PServer.sendDataLoop_start _ _ _ _ hfuel, if_pos hall]
    refine ⟨(σ.context conn).sendToList,
      (σ.context conn).sendToList.values.map fun receiver => ⟨receiver, message⟩, ?_⟩
    constructor
    case loop => exact hloop
    case result =>
      unfold P2PServer.sendDataFunc
      dsimp only
      rw [hloop _ (Nat.lt_succ_self _)]
      rfl
    case sends_eq => rw [hreceivers]
    case once =>
      intro receiver
      rw [hreceivers]
      exact length_filter_sends hnodup message receiver
    case list_eq => exact hreceivers.symm

/-! ## Who is connected after a step -/

/-- Every receiver in every list is connected. -/
def ReceiversConnected (σ : P2PServer) : Prop :=
  ∀ p, ∀ receiver ∈ (σ.context p).sendToList.values, σ.connected receiver = true

/-- No list has one of these connections. -/
def NotReceivers (σ : P2PServer) (conns : List Conn) : Prop :=
  ∀ conn ∈ conns, ∀ p, conn ∉ (σ.context p).sendToList.values

/-- Nobody who is in a list is taken over from, swept or shut down for a bad length; only a
connected connection subscribes; and whoever goes down is found by its clean-up. -/
def KeepsReceiversConnected (idleSeconds : Int) (σ : P2PServer) : Event → Prop
  | .up _ _ => True
  | .down conn => FoundByCleanUp σ (.down conn)
  | .message conn message _ =>
      match ProtocolCode.ofByte (message.headD 0) with
      | some .registerDevice =>
          NotReceivers σ ((σ.connections (message.drop 1)).toList.filter
            fun oldConn => decide (oldConn ≠ conn))
      | some .subscribeDevice =>
          (σ.toRegistry.accepts conn (message.drop 1)).isSome → σ.connected conn = true
      | _ => True
  | .invalidLength conn => NotReceivers σ [conn]
  | .timer now _ =>
      NotReceivers σ (Roster.sweep (idleSeconds * 1000000) now σ.toRoster.order
        σ.toRoster.time).1

namespace P2PServer

theorem connected_eq_true_iff {σ : P2PServer} {conn : Conn} :
    σ.connected conn = true ↔ σ.state conn = .kConnected := by
  simp [connected]

theorem connected_shutdown (σ : P2PServer) (conn other : Conn) :
    (σ.shutdown conn).connected other = true ↔
      σ.connected other = true ∧ other ≠ conn := by
  unfold shutdown
  by_cases hconn : σ.connected conn = true
  · rw [if_pos hconn, connected_eq_true_iff, connected_eq_true_iff]
    by_cases hother : other = conn
    · simp [setState, hother]
    · simp [setState, hother]
  · rw [if_neg hconn]
    constructor
    · intro h
      refine ⟨h, ?_⟩
      rintro rfl
      exact hconn h
    · exact And.left

/-- A REGISTER disconnects the connection it takes the id from. -/
theorem connected_registerDeviceFunc (σ : P2PServer) (conn : Conn) (id : DeviceId)
    (other : Conn) :
    (σ.registerDeviceFunc conn id).connected other = true ↔
      σ.connected other = true ∧
        other ∉ (σ.connections id).toList.filter fun oldConn => decide (oldConn ≠ conn) := by
  unfold registerDeviceFunc
  dsimp only
  rw [connections_modifyInfo]
  cases hold : σ.connections id with
  | none =>
      simp only [Option.toList_none, List.filter_nil, List.not_mem_nil, not_false_eq_true,
        and_true]
      rfl
  | some oldConn =>
      dsimp only
      by_cases hsame : oldConn = conn
      · rw [if_pos hsame]
        simp only [Option.toList_some, List.mem_filter, List.mem_singleton, decide_eq_true_iff]
        constructor
        · intro h
          refine ⟨h, ?_⟩
          rintro ⟨rfl, hne⟩
          exact hne hsame
        · exact And.left
      · rw [if_neg hsame]
        simp only [Option.toList_some, List.mem_filter, List.mem_singleton, decide_eq_true_iff]
        refine (connected_shutdown _ oldConn other).trans (and_congr Iff.rfl (not_congr ?_))
        constructor
        · rintro rfl
          exact ⟨rfl, hsame⟩
        · exact And.left

theorem connected_swept (σ : P2PServer) (result : List Conn × (Conn → Int)) (conn : Conn) :
    (σ.swept result).connected conn = true ↔ σ.connected conn = true ∧ conn ∉ result.1 := by
  rw [connected_eq_true_iff, connected_eq_true_iff]
  unfold swept
  dsimp only
  by_cases hconn : σ.state conn = .kConnected
  · by_cases hmem : conn ∈ result.1
    · simp [hconn, hmem]
    · simp [hconn, hmem]
  · simp [hconn]

theorem state_subscribeDeviceFunc (σ : P2PServer) (conn : Conn) (id : DeviceId) :
    (σ.subscribeDeviceFunc conn id).1.state = σ.state := by
  unfold subscribeDeviceFunc
  split
  · rfl
  · split <;> rfl

theorem state_heartBeatFunc {σ σ' : P2PServer} {conn : Conn} {time : Int}
    (h : σ.heartBeatFunc conn time = some σ') : σ'.state = σ.state := by
  unfold heartBeatFunc at h
  dsimp only at h
  split at h
  · exact absurd h (by simp)
  · split at h
    · obtain rfl := Option.some.inj h
      rfl
    · exact absurd h (by simp)

theorem state_sendDataFunc {σ σ' : P2PServer} {conn : Conn} {message : Message}
    {sends : List CodecSend} (h : σ.sendDataFunc conn message = some (σ', sends)) :
    σ'.state = σ.state := by
  unfold sendDataFunc at h
  rw [Option.map_eq_some_iff] at h
  obtain ⟨result, -, hout⟩ := h
  rw [← (Prod.mk.inj hout).1]
  rfl

end P2PServer

open P2PServer

/-! ## One step -/

/-- A step that only takes the connections of a list off the connected ones. -/
theorem receiversConnected_iff_of_lost {σ σ' : P2PServer} {lost : List Conn}
    (hpre : ReceiversConnected σ) (hsend : σ'.toRegistry.sendTo = σ.toRegistry.sendTo)
    (hconn : ∀ conn, σ'.connected conn = true ↔ σ.connected conn = true ∧ conn ∉ lost) :
    ReceiversConnected σ' ↔ NotReceivers σ lost := by
  have hlist : ∀ p, (σ'.context p).sendToList.values = (σ.context p).sendToList.values :=
    fun p => congrFun hsend p
  constructor
  · intro hpost conn hlost p hmem
    rw [← hlist p] at hmem
    exact ((hconn conn).mp (hpost p conn hmem)).2 hlost
  · intro hnone p receiver hmem
    rw [hlist p] at hmem
    refine (hconn receiver).mpr ⟨hpre p receiver hmem, ?_⟩
    intro hlost
    exact hnone receiver hlost p hmem

/-- A step that adds nobody to a list and disconnects nobody. -/
theorem receiversConnected_of_subset {σ σ' : P2PServer} (hpre : ReceiversConnected σ)
    (hsend : ∀ p, ∀ receiver ∈ σ'.toRegistry.sendTo p, receiver ∈ σ.toRegistry.sendTo p)
    (hstate : σ'.state = σ.state) : ReceiversConnected σ' := by
  intro p receiver hmem
  have hold := hpre p receiver (hsend p receiver hmem)
  rw [connected_eq_true_iff] at hold ⊢
  rw [hstate]
  exact hold

theorem receiversConnected_up {σ σ' : P2PServer} {conn : Conn} {now : Int}
    (hpre : ReceiversConnected σ)
    (h : (σ.setState conn .kConnected).onConnection conn now = some σ') :
    ReceiversConnected σ' := by
  have hreg := up_toRegistry h
  have hconn : (σ.setState conn .kConnected).connected conn = true := by
    simp [connected, setState]
  have hstate : σ'.state = (σ.setState conn .kConnected).state := by
    unfold onConnection at h
    rw [if_pos hconn] at h
    obtain rfl := Option.some.inj h
    rfl
  intro p receiver hmem
  rw [connected_eq_true_iff, hstate]
  have hmem' : receiver ∈ (σ.toRegistry.connect deleteId conn).sendTo p := by
    rw [← hreg]
    exact hmem
  by_cases hp : p = conn
  · -- The new connection forwards to nobody.
    subst hp
    simp [Registry.connect] at hmem'
  · simp only [Registry.connect, Function.update_of_ne hp] at hmem'
    by_cases hr : receiver = conn
    · simp [setState, hr]
    · simp only [setState, Function.update_of_ne hr]
      exact connected_eq_true_iff.mp (hpre p receiver hmem')

theorem receiversConnected_down_iff {σ σ' : P2PServer} {conn : Conn} {now : Int}
    (hpre : ReceiversConnected σ)
    (h : (σ.setState conn .kDisconnected).onConnection conn now = some σ') :
    ReceiversConnected σ' ↔ FoundByCleanUp σ (.down conn) := by
  have hreg := down_toRegistry h
  have hstate : σ'.state = Function.update σ.state conn .kDisconnected := by
    have hconn : ¬ (σ.setState conn .kDisconnected).connected conn = true := by
      simp [connected, setState]
    unfold onConnection at h
    rw [if_neg hconn, Option.map_eq_some_iff] at h
    obtain ⟨⟨list, behind⟩, -, rfl⟩ := h
    exact state_unregisterDeviceFunc _ conn
  have hmem : ∀ p receiver, receiver ∈ (σ'.context p).sendToList.values ↔
      p ≠ conn ∧ receiver ∈ (σ.context p).sendToList.values ∧
        (receiver = conn →
          ∀ id ∈ (σ.context conn).subscribeIdList, σ.connections id ≠ some p) := by
    intro p receiver
    change receiver ∈ σ'.toRegistry.sendTo p ↔ _
    rw [hreg]
    exact @Registry.mem_sendTo_unregister _ _ _ _ deleteId σ.toRegistry conn p receiver
  constructor
  · -- Whoever still has `conn` in its list has somebody who is not connected.
    intro hpost p hp hold
    by_contra hnone
    push Not at hnone
    have hbad := hpost p conn ((hmem p conn).mpr ⟨hp, hold, fun _ => hnone⟩)
    rw [connected_eq_true_iff, hstate] at hbad
    simp at hbad
  · intro hfound p receiver hin
    obtain ⟨hp, hold, hclean⟩ := (hmem p receiver).mp hin
    have hne : receiver ≠ conn := by
      rintro rfl
      obtain ⟨id, hid, howner⟩ := hfound p hp hold
      exact hclean rfl id hid howner
    rw [connected_eq_true_iff, hstate, Function.update_of_ne hne]
    exact connected_eq_true_iff.mp (hpre p receiver hold)

theorem receiversConnected_subscribe_iff {σ : P2PServer} (hpre : ReceiversConnected σ)
    (conn : Conn) (id : DeviceId) :
    ReceiversConnected (σ.subscribeDeviceFunc conn id).1 ↔
      ((σ.toRegistry.accepts conn id).isSome → σ.connected conn = true) := by
  have hreg := toRegistry_subscribeDeviceFunc σ conn id
  have hstate := state_subscribeDeviceFunc σ conn id
  unfold Registry.subscribe at hreg
  cases haccept : σ.toRegistry.accepts conn id with
  | none =>
      rw [haccept] at hreg
      refine iff_of_true (receiversConnected_of_subset hpre ?_ hstate) (by simp)
      intro p receiver hmem
      rwa [hreg] at hmem
  | some owner =>
      rw [haccept] at hreg
      have hmem : ∀ p receiver,
          receiver ∈ (((σ.subscribeDeviceFunc conn id).1).context p).sendToList.values ↔
            receiver ∈ (σ.context p).sendToList.values ∨ p = owner ∧ receiver = conn := by
        intro p receiver
        change receiver ∈ (σ.subscribeDeviceFunc conn id).1.toRegistry.sendTo p ↔ _
        rw [hreg]
        by_cases hp : p = owner
        · subst hp
          simp [P2PServer.toRegistry]
        · simp [hp, P2PServer.toRegistry]
      constructor
      · intro hpost _
        have hin := hpost owner conn ((hmem owner conn).mpr (Or.inr ⟨rfl, rfl⟩))
        rw [connected_eq_true_iff, hstate] at hin
        exact connected_eq_true_iff.mpr hin
      · intro hconn p receiver hin
        rw [connected_eq_true_iff, hstate, ← connected_eq_true_iff]
        rcases (hmem p receiver).mp hin with hold | ⟨-, rfl⟩
        · exact hpre p receiver hold
        · exact hconn rfl

theorem receiversConnected_message_iff {idleSeconds : Int} {σ σ' : P2PServer} {conn : Conn}
    {message : Message} {time : Int} {sends : List CodecSend} (hpre : ReceiversConnected σ)
    (h : σ.onMessage conn message time = some (σ', sends)) :
    ReceiversConnected σ' ↔
      KeepsReceiversConnected idleSeconds σ (.message conn message time) := by
  have hreg := onMessage_toRegistry h
  have hkeep : (∀ id, opOf (.message conn message time) ≠ .subscribe conn id) →
      σ'.state = σ.state → ReceiversConnected σ' := by
    intro hop hstate
    refine receiversConnected_of_subset hpre ?_ hstate
    intro p receiver hmem
    rw [hreg] at hmem
    rcases Registry.mem_sendTo_apply hmem with hold | ⟨id, hsub, -⟩
    · exact hold
    · -- A subscription in a message is one of its sender.
      exfalso
      simp only [opOf] at hsub hop
      split at hsub <;> cases hsub
      rename_i hcode
      rw [hcode] at hop
      exact hop _ rfl
  unfold onMessage at h
  simp only [KeepsReceiversConnected]
  simp only [opOf] at hkeep
  cases hcode : ProtocolCode.ofByte (message.headD 0) with
  | none =>
      simp only [hcode, Option.some.injEq, Prod.mk.injEq] at h hkeep
      exact iff_of_true (hkeep (by simp) (by rw [← h.1])) trivial
  | some code =>
      cases code with
      | registerDevice =>
          simp only [hcode, Option.some.injEq, Prod.mk.injEq] at h
          rw [← h.1]
          refine receiversConnected_iff_of_lost hpre ?_ (connected_registerDeviceFunc σ conn _)
          rw [toRegistry_registerDeviceFunc]
          rfl
      | subscribeDevice =>
          simp only [hcode, Option.some.injEq, Prod.mk.injEq] at h
          rw [← h.1]
          exact receiversConnected_subscribe_iff hpre conn _
      | sendData =>
          simp only [hcode, Option.map_eq_some_iff] at h hkeep
          obtain ⟨⟨τ, sent⟩, hsend, hout⟩ := h
          refine iff_of_true (hkeep (by simp) ?_) trivial
          rw [← (Prod.mk.inj hout).1]
          exact state_sendDataFunc hsend
      | unregisterDevice =>
          simp only [hcode, Option.some.injEq, Prod.mk.injEq] at h hkeep
          refine iff_of_true (hkeep (by simp) ?_) trivial
          rw [← h.1]
          exact state_unregisterDeviceFunc σ conn
      | unsubscribeDevice =>
          simp only [hcode, Option.some.injEq, Prod.mk.injEq] at h hkeep
          refine iff_of_true (hkeep (by simp) ?_) trivial
          rw [← h.1]
          exact state_unsubscribeDeviceFunc σ conn _
      | checkDeviceAlive =>
          simp only [hcode, Option.some.injEq, Prod.mk.injEq] at h hkeep
          exact iff_of_true (hkeep (by simp) (by rw [← h.1])) trivial
      | heartBeat =>
          simp only [hcode, Option.map_eq_some_iff] at h hkeep
          obtain ⟨τ, hbeat, hout⟩ := h
          refine iff_of_true (hkeep (by simp) ?_) trivial
          rw [← (Prod.mk.inj hout).1]
          exact state_heartBeatFunc hbeat

/-- **One step.**  It leaves every receiver connected exactly when it meets the condition. -/
theorem receiversConnected_step_iff {idleSeconds : Int}
    {t : Transition P2PServer Event (List CodecSend)} (hstep : (machine idleSeconds).Step t)
    (hreach : (machine idleSeconds).Reachable t.pre) (hpre : ReceiversConnected t.pre) :
    ReceiversConnected t.post ↔ KeepsReceiversConnected idleSeconds t.pre t.event := by
  obtain ⟨pre, event, output, post⟩ := t
  obtain ⟨henabled, hexec⟩ := hstep
  dsimp only at henabled hexec hreach hpre ⊢
  cases event with
  | up conn now =>
      simp only [machine, exec, Option.map_eq_some_iff, Prod.mk.injEq] at hexec
      obtain ⟨τ, hup, rfl, -⟩ := hexec
      exact iff_of_true (receiversConnected_up hpre hup) trivial
  | down conn =>
      simp only [machine, exec, Option.map_eq_some_iff, Prod.mk.injEq] at hexec
      obtain ⟨τ, hdown, rfl, -⟩ := hexec
      exact receiversConnected_down_iff hpre hdown
  | message conn message time => exact receiversConnected_message_iff hpre hexec
  | invalidLength conn =>
      simp only [machine, exec, Option.some.injEq, Prod.mk.injEq] at hexec
      rw [← hexec.1]
      refine receiversConnected_iff_of_lost hpre (by rw [toRegistry_shutdown]) ?_
      intro other
      rw [connected_shutdown, List.mem_singleton]
  | timer now lock =>
      simp only [machine, exec, Option.map_eq_some_iff, Prod.mk.injEq] at hexec
      obtain ⟨τ, htimer, rfl, -⟩ := hexec
      have hplaced := reachable_placed hreach
      have hregistry := onTimerLoop_toRegistry htimer
      rw [onTimer_eq (@Placed.lock_of_enabled pre hplaced now lock henabled),
        Option.some.injEq] at htimer
      refine receiversConnected_iff_of_lost hpre (by rw [hregistry]) ?_
      intro conn
      rw [← htimer]
      exact connected_swept pre _ conn

/-! ## Runs -/

/-- **Forwarding.**  In every state the server reaches, a call of `sendDataFunc` is safe
exactly when every receiver in the list of the sender is connected.  In a run, all calls
are safe in all states exactly when every step keeps the receivers connected. -/
theorem sendDataFunc_safe_iff (idleSeconds : Int) :
    (∀ σ, (machine idleSeconds).Reachable σ → ∀ conn message,
        SafeToForward σ conn message ↔
          ∀ receiver ∈ (σ.context conn).sendToList.values, σ.connected receiver = true) ∧
      ∀ trace σ, (machine idleSeconds).Run trace σ →
        ((∀ τ ∈ (machine idleSeconds).visited trace, ∀ conn message,
            SafeToForward τ conn message) ↔
          ∀ t ∈ trace, KeepsReceiversConnected idleSeconds t.pre t.event) := by
  have hcall : ∀ σ, (machine idleSeconds).Reachable σ → ∀ conn message,
      SafeToForward σ conn message ↔
        ∀ receiver ∈ (σ.context conn).sendToList.values, σ.connected receiver = true :=
    fun σ hreach conn message =>
      safeToForward_iff (reachable_lists_nodup hreach conn).1 message
  refine ⟨hcall, ?_⟩
  intro trace σ hrun
  have hinit : ReceiversConnected P2PServer.initial := by
    intro p receiver hmem
    change receiver ∈ [] at hmem
    simp at hmem
  rw [← hrun.exact_visited ReceiversConnected (KeepsReceiversConnected idleSeconds) hinit
    fun t hstep hreach hpre => receiversConnected_step_iff hstep hreach hpre]
  refine forall₂_congr fun τ hτ => ?_
  have hreach : (machine idleSeconds).Reachable τ := hrun.reachable_of_visited τ hτ
  constructor
  · intro hsafe p
    exact (hcall τ hreach p []).mp (hsafe p [])
  · intro hall p message
    exact (hcall τ hreach p message).mpr (hall p)

/-- Connection 1 registers `"b"` and subscribes to `"a"`; connection 2 takes `"b"` over, so
that connection 1 is shut down and not yet down. -/
def receiverTakenOver : List Event :=
  [.up 0 0, .message 0 [1, 97] 0, .up 1 0, .message 1 [1, 98] 0, .message 1 [2, 97] 0,
    .up 2 0, .message 2 [1, 98] 0]

/-- The next data of connection 0 makes the server use the iterator it erased. -/
theorem sendDataFunc_follows_erased_iterator :
    (machine 300).Reachable (after receiverTakenOver) ∧
      enabled (after receiverTakenOver) (.message 0 [3, 120] 0) ∧
      (after receiverTakenOver).sendDataFunc 0 [3, 120] = none ∧
      ¬ ∀ σ, (machine 300).Reachable σ → ∀ conn message, SafeToForward σ conn message := by
  have hnone : (after receiverTakenOver).sendDataFunc 0 [3, 120] = none := by rfl
  refine ⟨reachable_after _, enabled_of_ready _ _ (by decide +kernel), hnone, ?_⟩
  intro h
  obtain ⟨list, sends, hsafe⟩ := h _ (reachable_after receiverTakenOver) 0 [3, 120]
  have hresult := hsafe.result
  rw [hnone] at hresult
  exact absurd hresult (by simp)

/-- Connection 0 forwards to connection 1, its only receiver, and every earlier state of
the run is safe as well. -/
theorem sendDataFunc_safe_subscribesA :
    (subscribesA.post.context 0).sendToList.values = [1] ∧
      SafeToForward subscribesA.post 0 [3, 120] ∧
      ∀ τ ∈ (machine 300).visited [comesUp, registersA, secondUp, subscribesA],
        ∀ conn message, SafeToForward τ conn message := by
  have hsafe := sendDataFunc_safe_iff 300
  refine ⟨by decide +kernel, ?_, (hsafe.2 _ _ run_subscribesA).mpr ?_⟩
  · exact (hsafe.1 _ ⟨_, run_subscribesA⟩ 0 [3, 120]).mpr (by decide +kernel)
  · intro t ht
    simp only [List.mem_cons, List.not_mem_nil, or_false] at ht
    rcases ht with rfl | rfl | rfl | rfl
    · trivial
    · -- Nobody owned `"a"` before.
      intro old hold
      change old ∈ ([] : List Conn) at hold
      simp at hold
    · trivial
    · intro _
      decide +kernel

end Server
end StupidP2P
