import StupidP2P.Server.Agreement
import StupidP2P.Server.Roster

/-!
# The list of connections and the iterators into it

`_connectionList` holds the connections that are up, and each `ConnInfo` holds an
iterator into it, `position`.  The list is spliced by heart beats and erased from
when a connection goes down; no other request touches the list, an iterator or a
time.  `Placed` says that the nodes of the list are exactly the pairs of an
iterator and its live connection.  It is kept by every step, and with it the
iterators are always usable and the branch of `onTimer` for expired weak pointers
is dead.
-/

namespace StupidP2P
namespace Server

open Foundation

/-- The list, the iterators into it, and the times. -/
@[ext]
structure Listing where
  list : NodeList Conn
  position : Conn → Nat
  time : Conn → Int

namespace P2PServer

def listing (σ : P2PServer) : Listing where
  list := σ.connectionList
  position := fun conn => (σ.context conn).position
  time := fun conn => (σ.context conn).lastReceiveTime

/-- What the idle timer works on. -/
def toRoster (σ : P2PServer) : Roster Conn where
  order := σ.connectionList.values
  time := fun conn => (σ.context conn).lastReceiveTime

/-- The nodes of the list are the live connections, each at its own iterator. -/
def Placed (σ : P2PServer) : Prop :=
  ∀ key conn, (key, conn) ∈ σ.connectionList.nodes ↔
    σ.live conn = true ∧ (σ.context conn).position = key

/-! ## Requests that leave the list alone -/

/-- A write to a context, as the list sees it. -/
theorem listing_write (σ : P2PServer) (conn : Conn) (f : ConnInfo → ConnInfo) :
    (σ.modifyInfo conn f).listing =
      { σ.listing with
        position := Function.update σ.listing.position conn (f (σ.context conn)).position
        time := Function.update σ.listing.time conn
          (f (σ.context conn)).lastReceiveTime } := by
  ext1
  · rfl
  · funext d
    simp only [listing, modifyInfo, Function.update_apply]
    split <;> rfl
  · funext d
    simp only [listing, modifyInfo, Function.update_apply]
    split <;> rfl

theorem listing_modifyInfo {σ : P2PServer} {conn : Conn} {f : ConnInfo → ConnInfo}
    (hkeep : ∀ info, (f info).position = info.position ∧
      (f info).lastReceiveTime = info.lastReceiveTime) :
    (σ.modifyInfo conn f).listing = σ.listing := by
  obtain ⟨hposition, htime⟩ := hkeep (σ.context conn)
  have hpositions := Function.update_eq_self conn σ.listing.position
  have htimes := Function.update_eq_self conn σ.listing.time
  rw [listing_write, hposition, htime]
  ext1
  · rfl
  · exact hpositions
  · exact htimes

theorem listing_setReceiveTime (σ : P2PServer) (conn : Conn) (now : Int) :
    (σ.modifyInfo conn fun info => { info with lastReceiveTime := now }).listing =
      { σ.listing with time := Function.update σ.listing.time conn now } := by
  have hpositions := Function.update_eq_self conn σ.listing.position
  rw [listing_write]
  ext1
  · rfl
  · exact hpositions
  · rfl

theorem listing_shutdown (σ : P2PServer) (conn : Conn) :
    (σ.shutdown conn).listing = σ.listing := by
  unfold shutdown
  split <;> rfl

theorem listing_registerDeviceFunc (σ : P2PServer) (conn : Conn) (deviceId : DeviceId) :
    (σ.registerDeviceFunc conn deviceId).listing = σ.listing := by
  have hset : ∀ (σ : P2PServer) (conn : Conn) (deviceId : DeviceId),
      (σ.modifyInfo conn fun info => { info with deviceId := deviceId }).listing =
        σ.listing :=
    fun _ _ _ => listing_modifyInfo fun _ => ⟨rfl, rfl⟩
  unfold registerDeviceFunc
  dsimp only
  split
  · split
    · exact hset σ conn deviceId
    · exact (listing_shutdown _ _).trans ((hset _ _ deleteId).trans (hset σ conn deviceId))
  · exact hset σ conn deviceId

theorem listing_subscribeDeviceFunc (σ : P2PServer) (conn : Conn) (deviceId : DeviceId) :
    (σ.subscribeDeviceFunc conn deviceId).1.listing = σ.listing := by
  unfold subscribeDeviceFunc
  split
  · rfl
  · split
    · rfl
    · refine (listing_modifyInfo ?_).trans (listing_modifyInfo ?_)
      · intro info
        unfold ConnInfo.sendToListAdd
        split <;> exact ⟨rfl, rfl⟩
      · intro info
        unfold ConnInfo.subscribeIdListAdd
        split <;> exact ⟨rfl, rfl⟩

theorem listing_unsubscribeDeviceFunc (σ : P2PServer) (conn : Conn) (deviceId : DeviceId) :
    (σ.unsubscribeDeviceFunc conn deviceId).listing = σ.listing := by
  unfold unsubscribeDeviceFunc
  dsimp only
  split
  · refine (listing_modifyInfo ?_).trans ?_
    · exact fun _ => ⟨rfl, rfl⟩
    · split
      · refine listing_modifyInfo ?_
        exact fun _ => ⟨rfl, rfl⟩
      · rfl
  · rfl

theorem listing_unsubscribeAll (conn : Conn) (fuel : Nat) (σ : P2PServer) :
    (unsubscribeAll conn fuel σ).listing = σ.listing := by
  induction fuel generalizing σ with
  | zero => rfl
  | succ fuel ih =>
      unfold unsubscribeAll
      split
      · rfl
      · exact (ih _).trans (listing_unsubscribeDeviceFunc σ conn _)

theorem listing_unregisterDeviceFunc (σ : P2PServer) (conn : Conn) :
    (σ.unregisterDeviceFunc conn).listing = σ.listing := by
  have hcleared : ((unsubscribeAll conn (σ.context conn).subscribeIdList.length σ).modifyInfo
      conn ConnInfo.sendToListClear).listing = σ.listing := by
    refine (listing_modifyInfo ?_).trans (listing_unsubscribeAll _ _ _)
    exact fun _ => ⟨rfl, rfl⟩
  unfold unregisterDeviceFunc
  dsimp only
  split
  · exact hcleared
  · refine (listing_modifyInfo ?_).trans hcleared
    exact fun _ => ⟨rfl, rfl⟩

theorem listing_sendDataFunc {σ σ' : P2PServer} {conn : Conn} {message : Message}
    {sends : List CodecSend} (h : σ.sendDataFunc conn message = some (σ', sends)) :
    σ'.listing = σ.listing := by
  unfold sendDataFunc at h
  rw [Option.map_eq_some_iff] at h
  obtain ⟨⟨list, sent⟩, -, hout⟩ := h
  rw [← (Prod.mk.inj hout).1]
  exact listing_modifyInfo fun _ => ⟨rfl, rfl⟩

/-- Every message but a heart beat leaves the list, the iterators and the times alone. -/
theorem listing_onMessage {σ σ' : P2PServer} {conn : Conn} {message : Message} {time : Int}
    {sends : List CodecSend} (h : σ.onMessage conn message time = some (σ', sends))
    (hcode : ProtocolCode.ofByte (message.headD 0) ≠ some .heartBeat) :
    σ'.listing = σ.listing := by
  unfold onMessage at h
  cases hbyte : ProtocolCode.ofByte (message.headD 0) with
  | none =>
      simp only [hbyte, Option.some.injEq, Prod.mk.injEq] at h
      rw [← h.1]
  | some code =>
      cases code with
      | registerDevice =>
          simp only [hbyte, Option.some.injEq, Prod.mk.injEq] at h
          rw [← h.1]
          exact listing_registerDeviceFunc σ conn _
      | subscribeDevice =>
          simp only [hbyte, Option.some.injEq, Prod.mk.injEq] at h
          rw [← h.1]
          exact listing_subscribeDeviceFunc σ conn _
      | sendData =>
          simp only [hbyte, Option.map_eq_some_iff] at h
          obtain ⟨⟨τ, sent⟩, hsend, hout⟩ := h
          rw [← (Prod.mk.inj hout).1]
          exact listing_sendDataFunc hsend
      | unregisterDevice =>
          simp only [hbyte, Option.some.injEq, Prod.mk.injEq] at h
          rw [← h.1]
          exact listing_unregisterDeviceFunc σ conn
      | unsubscribeDevice =>
          simp only [hbyte, Option.some.injEq, Prod.mk.injEq] at h
          rw [← h.1]
          exact listing_unsubscribeDeviceFunc σ conn _
      | checkDeviceAlive =>
          simp only [hbyte, Option.some.injEq, Prod.mk.injEq] at h
          rw [← h.1]
      | heartBeat => exact absurd hbyte hcode

/-! ## Coming up, going down and heart beats -/

theorem up_listing {σ σ' : P2PServer} {conn : Conn} {now : Int}
    (h : (σ.setState conn .kConnected).onConnection conn now = some σ') :
    σ'.listing =
      { list := σ.connectionList.pushBack conn
        position := Function.update σ.listing.position conn σ.connectionList.supply
        time := Function.update σ.listing.time conn now } := by
  have hconn : (σ.setState conn .kConnected).connected conn = true := by
    simp [connected, setState]
  unfold onConnection at h
  rw [if_pos hconn] at h
  obtain rfl := Option.some.inj h
  exact listing_write _ conn _

/-- Going down erases the node at the connection's iterator. -/
theorem down_listing {σ : P2PServer} {conn : Conn} {other : Conn} {now : Int}
    (hmem : ((σ.context conn).position, other) ∈ σ.connectionList.nodes) :
    ∃ σ', (σ.setState conn .kDisconnected).onConnection conn now = some σ' ∧
      σ'.listing =
        { σ.listing with
          list := σ.connectionList.keep fun node =>
            decide (node.1 ≠ (σ.context conn).position) } := by
  have hconn : ¬ (σ.setState conn .kDisconnected).connected conn = true := by
    simp [connected, setState]
  obtain ⟨behind, herase⟩ := NodeList.erase_of_mem hmem
  let erased : P2PServer :=
    { σ.setState conn .kDisconnected with
      connectionList := σ.connectionList.keep fun node =>
        decide (node.1 ≠ (σ.context conn).position) }
  refine ⟨erased.unregisterDeviceFunc conn, ?_, listing_unregisterDeviceFunc erased conn⟩
  unfold onConnection
  rw [if_neg hconn]
  show Option.map _ (σ.connectionList.erase (σ.context conn).position) = _
  rw [herase]
  rfl

/-- A heart beat moves the node at the connection's iterator to the end, where the
assertion finds it. -/
theorem heartBeatFunc_listing {σ : P2PServer} {conn other : Conn} {time : Int}
    (hmem : ((σ.context conn).position, other) ∈ σ.connectionList.nodes) :
    ∃ σ', σ.heartBeatFunc conn time = some σ' ∧
      σ'.connectionList.nodes =
        σ.connectionList.nodes.filter
          (fun node => decide (node.1 ≠ (σ.context conn).position)) ++
            [((σ.context conn).position, other)] ∧
      σ'.listing.position = σ.listing.position ∧
      σ'.listing.time = Function.update σ.listing.time conn time := by
  obtain ⟨list, hsplice, hnodes⟩ := NodeList.spliceToEnd_of_mem hmem
  have hlisting := listing_setReceiveTime σ conn time
  have hpositions := congrArg Listing.position hlisting
  have htimes := congrArg Listing.time hlisting
  have hlast : list.keys.getLast? = some (σ.context conn).position := by
    simp [NodeList.keys, hnodes]
  have hposition : ((σ.modifyInfo conn fun info =>
      { info with lastReceiveTime := time }).context conn).position =
        (σ.context conn).position := by
    simp [modifyInfo]
  refine ⟨{ σ.modifyInfo conn fun info => { info with lastReceiveTime := time } with
    connectionList := list }, ?_, hnodes, hpositions, htimes⟩
  have hsame : (σ.modifyInfo conn fun info =>
      { info with lastReceiveTime := time }).connectionList = σ.connectionList := rfl
  unfold heartBeatFunc
  dsimp only
  rw [hposition, hsame, hsplice]
  exact if_pos hlast

/-! ## The timer -/

/-- The server after a sweep that found some connections expired and left the given
times. -/
def swept (σ : P2PServer) (result : List Conn × (Conn → Int)) : P2PServer :=
  { σ with
    context := fun conn => { σ.context conn with lastReceiveTime := result.2 conn }
    state := fun conn =>
      if conn ∈ result.1 ∧ σ.state conn = .kConnected then .kDisconnecting
      else σ.state conn }

theorem swept_shutdown (σ : P2PServer) (conn : Conn) (expired : List Conn)
    (time : Conn → Int) :
    (σ.shutdown conn).swept (expired, time) = σ.swept (conn :: expired, time) := by
  have hstate : ∀ d, (σ.shutdown conn).state d =
      if d = conn ∧ σ.state d = .kConnected then .kDisconnecting else σ.state d := by
    intro d
    unfold shutdown connected
    by_cases hconn : σ.state conn = .kConnected
    · by_cases hd : d = conn
      · simp [setState, hd, hconn]
      · simp [setState, hd, hconn]
    · by_cases hd : d = conn
      · simp [hd, hconn]
      · simp [hd, hconn]
  have hcontext : (σ.shutdown conn).context = σ.context := by
    unfold shutdown
    split <;> rfl
  have hconnections : (σ.shutdown conn).connections = σ.connections := by
    unfold shutdown
    split <;> rfl
  have hlist : (σ.shutdown conn).connectionList = σ.connectionList :=
    congrArg Listing.list (listing_shutdown σ conn)
  unfold swept
  rw [P2PServer.mk.injEq]
  refine ⟨hconnections, hlist, ?_, ?_⟩
  · rw [hcontext]
  · funext d
    simp only [hstate, List.mem_cons]
    by_cases hd : d = conn
    · by_cases hconn : σ.state d = .kConnected
      · simp [← hd, hconn]
      · simp [hconn]
    · simp [hd]

theorem swept_setReceiveTime (σ : P2PServer) (conn : Conn) (now : Int)
    (result : List Conn × (Conn → Int)) :
    (σ.modifyInfo conn fun info => { info with lastReceiveTime := now }).swept result =
      σ.swept result := by
  unfold swept
  rw [P2PServer.mk.injEq]
  refine ⟨rfl, rfl, ?_, rfl⟩
  funext d
  simp only [modifyInfo, Function.update_apply]
  split
  · rename_i hd
    rw [hd]
  · rfl

theorem swept_nothing (σ : P2PServer) : σ.swept ([], σ.toRoster.time) = σ := by
  simp [swept, toRoster]

/-- **The loop of `onTimer`.**  While the weak pointers in the list can be locked, the
loop from the cursor in front of `rest` on is the sweep over `rest`. -/
theorem onTimerLoop_eq {idleSeconds now : Int} {lock : Conn → Bool} {σ : P2PServer}
    {before rest : List (Nat × Conn)} {fuel : Nat} (hfuel : rest.length < fuel)
    (hnodes : σ.connectionList.nodes = before ++ rest)
    (hlock : ∀ node ∈ rest, lock node.2 = true) :
    onTimerLoop idleSeconds now lock fuel σ (NodeList.front rest) =
      some (σ.swept (Roster.sweep (idleSeconds * 1000000) now (rest.map Prod.snd)
        σ.toRoster.time)) := by
  induction rest generalizing σ before fuel with
  | nil =>
      cases fuel with
      | zero => simp at hfuel
      | succ fuel =>
          show some σ = some (σ.swept ([], σ.toRoster.time))
          rw [swept_nothing]
  | cons node rest ih =>
      obtain ⟨key, conn⟩ := node
      cases fuel with
      | zero => simp at hfuel
      | succ fuel =>
          have hrest : rest.length < fuel := by
            rw [List.length_cons] at hfuel
            omega
          have hnodes' : σ.connectionList.nodes = (before ++ [(key, conn)]) ++ rest := by
            rw [hnodes, List.append_assoc]
            rfl
          have hlock' : ∀ node ∈ rest, lock node.2 = true :=
            fun node hnode => hlock node (List.mem_cons_of_mem _ hnode)
          have htime : σ.toRoster.time conn = (σ.context conn).lastReceiveTime := rfl
          simp only [NodeList.front, onTimerLoop, NodeList.deref_split hnodes,
            hlock (key, conn) List.mem_cons_self, if_true, List.map_cons, Roster.sweep, htime]
          by_cases hexpired : now - (σ.context conn).lastReceiveTime > idleSeconds * 1000000
          · -- Expired: shut down, but the node stays until DOWN is processed.
            have hlist : (σ.shutdown conn).connectionList = σ.connectionList :=
              congrArg Listing.list (listing_shutdown σ conn)
            have htimes : (σ.shutdown conn).toRoster.time = σ.toRoster.time :=
              congrArg Listing.time (listing_shutdown σ conn)
            rw [if_pos hexpired, if_pos hexpired, hlist, NodeList.next_split hnodes]
            dsimp only
            rw [ih hrest (hlist ▸ hnodes') hlock', htimes]
            exact congrArg some (swept_shutdown σ conn _ _)
          · rw [if_neg hexpired, if_neg hexpired]
            by_cases hfuture : now - (σ.context conn).lastReceiveTime < 0
            · -- Dated in the future: the clock was set back.
              have htimes : (σ.modifyInfo conn fun info =>
                  { info with lastReceiveTime := now }).toRoster.time =
                    Function.update σ.toRoster.time conn now :=
                congrArg Listing.time (listing_setReceiveTime σ conn now)
              have hlist : (σ.modifyInfo conn fun info =>
                  { info with lastReceiveTime := now }).connectionList =
                    σ.connectionList := rfl
              rw [if_pos hfuture, if_pos hfuture, hlist, NodeList.next_split hnodes]
              dsimp only
              rw [ih hrest (hlist ▸ hnodes') hlock', htimes, swept_setReceiveTime]
            · rw [if_neg hfuture, if_neg hfuture, swept_nothing]

theorem onTimer_eq {idleSeconds now : Int} {lock : Conn → Bool} {σ : P2PServer}
    (hlock : ∀ conn ∈ σ.connectionList.values, lock conn = true) :
    onTimer idleSeconds now lock σ =
      some (σ.swept (Roster.sweep (idleSeconds * 1000000) now σ.toRoster.order
        σ.toRoster.time)) := by
  refine onTimerLoop_eq (Nat.lt_succ_self _) (List.nil_append _).symm ?_
  intro node hnode
  exact hlock node.2 (List.mem_map_of_mem hnode)

/-! ## The invariant -/

theorem Placed.mem_values {σ : P2PServer} (hplaced : σ.Placed) (conn : Conn) :
    conn ∈ σ.connectionList.values ↔ σ.live conn = true := by
  constructor
  · intro hmem
    obtain ⟨⟨key, _⟩, hnode, rfl⟩ := List.mem_map.mp hmem
    exact ((hplaced key _).mp hnode).1
  · intro hlive
    exact List.mem_map.mpr ⟨_, (hplaced _ conn).mpr ⟨hlive, rfl⟩, rfl⟩

theorem Placed.mem_nodes {σ : P2PServer} (hplaced : σ.Placed) {conn : Conn}
    (hlive : σ.live conn = true) :
    ((σ.context conn).position, conn) ∈ σ.connectionList.nodes :=
  (hplaced _ conn).mpr ⟨hlive, rfl⟩

/-- No connection has two nodes, since both would be at its iterator. -/
theorem Placed.values_nodup {σ : P2PServer} (hplaced : σ.Placed) :
    σ.connectionList.values.Nodup := by
  refine List.Nodup.map_on ?_ (List.Nodup.of_map _ σ.connectionList.keys_nodup)
  intro node hnode other hother heq
  have hkey := ((hplaced node.1 node.2).mp hnode).2
  have hkey' := ((hplaced other.1 other.2).mp hother).2
  rw [heq] at hkey
  exact Prod.ext (hkey.symm.trans hkey') heq

/-- The node at the iterator of a connection is the only one that holds it. -/
theorem Placed.key_ne_iff {σ : P2PServer} (hplaced : σ.Placed) {conn : Conn}
    (hlive : σ.live conn = true) {node : Nat × Conn} (hnode : node ∈ σ.connectionList.nodes) :
    node.1 ≠ (σ.context conn).position ↔ node.2 ≠ conn := by
  refine not_congr ⟨?_, ?_⟩
  · intro hkey
    refine NodeList.eq_of_mem_nodes ?_ (hplaced.mem_nodes hlive)
    rw [← hkey]
    exact hnode
  · intro hconn
    rw [← hconn]
    exact ((hplaced node.1 node.2).mp hnode).2.symm

end P2PServer

theorem live_congr {σ σ' : P2PServer} {conn : Conn}
    (hphase : σ'.toRegistry.phase conn = σ.toRegistry.phase conn) :
    σ'.live conn = σ.live conn := by
  rw [Bool.eq_iff_iff, ← phase_live_iff, ← phase_live_iff, hphase]

theorem opOf_message (conn other : Conn) (message : Message) (time : Int) :
    opOf (.message conn message time) ≠ .connect other ∧
      opOf (.message conn message time) ≠ .disconnect other := by
  simp only [opOf]
  cases hcode : ProtocolCode.ofByte (message.headD 0) with
  | none => simp
  | some code => cases code <;> simp

theorem live_onMessage {σ σ' : P2PServer} {conn : Conn} {message : Message} {time : Int}
    {sends : List CodecSend} (h : σ.onMessage conn message time = some (σ', sends))
    (other : Conn) : σ'.live other = σ.live other := by
  refine live_congr ?_
  rw [onMessage_toRegistry h]
  exact congrFun (Registry.phase_apply _ _ (fun c => (opOf_message conn c message time).1)
    fun c => (opOf_message conn c message time).2) other

theorem live_up {σ σ' : P2PServer} {conn : Conn} {now : Int}
    (h : (σ.setState conn .kConnected).onConnection conn now = some σ') (other : Conn) :
    σ'.live other = true ↔ other = conn ∨ σ.live other = true := by
  rw [← phase_live_iff, P2PServer.up_toRegistry h, ← phase_live_iff]
  simp only [Registry.connect, Function.update_apply]
  split <;> simp_all

theorem live_down {σ σ' : P2PServer} {conn : Conn} {now : Int}
    (h : (σ.setState conn .kDisconnected).onConnection conn now = some σ') (other : Conn) :
    σ'.live other = true ↔ other ≠ conn ∧ σ.live other = true := by
  rw [← phase_live_iff, P2PServer.down_toRegistry h, ← phase_live_iff]
  simp only [Registry.disconnect, Function.update_apply]
  split <;> simp_all

namespace P2PServer

/-- The same nodes, iterators and live connections. -/
theorem Placed.congr {σ σ' : P2PServer} (hplaced : σ.Placed)
    (hnodes : ∀ node, node ∈ σ'.connectionList.nodes ↔ node ∈ σ.connectionList.nodes)
    (hposition : σ'.listing.position = σ.listing.position)
    (hlive : ∀ conn, σ'.live conn = σ.live conn) : σ'.Placed := by
  intro key conn
  have hpos : (σ'.context conn).position = (σ.context conn).position :=
    congrFun hposition conn
  rw [hnodes, hlive, hpos]
  exact hplaced key conn

theorem Placed.up {σ σ' : P2PServer} {conn : Conn} {now : Int} (hplaced : σ.Placed)
    (hfresh : σ.state conn = .kConnecting)
    (h : (σ.setState conn .kConnected).onConnection conn now = some σ') : σ'.Placed := by
  have hlisting := up_listing h
  have hnodes : σ'.connectionList.nodes =
      σ.connectionList.nodes ++ [(σ.connectionList.supply, conn)] :=
    congrArg (fun l : Listing => l.list.nodes) hlisting
  have hposition : ∀ d, (σ'.context d).position =
      Function.update σ.listing.position conn σ.connectionList.supply d :=
    fun d => congrFun (congrArg Listing.position hlisting) d
  have hdead : ¬ σ.live conn = true := by simp [live, hfresh]
  intro key d
  rw [live_up h, hposition, hnodes, List.mem_append, List.mem_singleton, Prod.mk.injEq]
  by_cases hd : d = conn
  · -- The new node; there was none for this connection before.
    subst hd
    have hold : (key, d) ∉ σ.connectionList.nodes :=
      fun hmem => hdead ((hplaced key d).mp hmem).1
    rw [Function.update_self]
    constructor
    · rintro (hmem | ⟨hkey, -⟩)
      · exact absurd hmem hold
      · exact ⟨Or.inl rfl, hkey.symm⟩
    · intro hnew
      exact Or.inr ⟨hnew.2.symm, rfl⟩
  · rw [Function.update_of_ne hd, hplaced key d]
    simp [hd, listing]

theorem Placed.down {σ σ' : P2PServer} {conn : Conn} {now : Int} (hplaced : σ.Placed)
    (hlive : σ.live conn = true)
    (h : (σ.setState conn .kDisconnected).onConnection conn now = some σ') :
    σ'.Placed ∧ σ'.connectionList.nodes =
      σ.connectionList.nodes.filter fun node => decide (node.2 ≠ conn) := by
  obtain ⟨τ, hdown, hlisting⟩ := @down_listing σ conn conn now (hplaced.mem_nodes hlive)
  obtain rfl := Option.some.inj (h.symm.trans hdown)
  have hnodes : σ'.connectionList.nodes =
      σ.connectionList.nodes.filter fun node => decide (node.2 ≠ conn) := by
    rw [show σ'.connectionList.nodes = _ from
      congrArg (fun l : Listing => l.list.nodes) hlisting]
    refine List.filter_congr ?_
    intro node hnode
    exact decide_eq_decide.mpr (hplaced.key_ne_iff hlive hnode)
  refine ⟨?_, hnodes⟩
  intro key d
  have hposition : (σ'.context d).position = (σ.context d).position :=
    congrFun (congrArg Listing.position hlisting) d
  rw [hnodes, live_down h, hposition, List.mem_filter, decide_eq_true_iff, hplaced key d]
  tauto

/-- A heart beat is always defined: its assertion finds the connection at the end. -/
theorem Placed.heartBeatFunc_eq {σ : P2PServer} (hplaced : σ.Placed) {conn : Conn}
    (hlive : σ.live conn = true) (time : Int) :
    ∃ σ', σ.heartBeatFunc conn time = some σ' ∧
      σ'.connectionList.nodes =
        σ.connectionList.nodes.filter (fun node => decide (node.2 ≠ conn)) ++
          [((σ.context conn).position, conn)] ∧
      σ'.listing.position = σ.listing.position ∧
      σ'.listing.time = Function.update σ.listing.time conn time := by
  obtain ⟨σ', hbeat, hnodes, hrest⟩ :=
    @heartBeatFunc_listing σ conn conn time (hplaced.mem_nodes hlive)
  refine ⟨σ', hbeat, ?_, hrest⟩
  rw [hnodes]
  congr 1
  refine List.filter_congr ?_
  intro node hnode
  exact decide_eq_decide.mpr (hplaced.key_ne_iff hlive hnode)

theorem Placed.heartBeatFunc {σ σ' : P2PServer} {conn : Conn} {time : Int}
    (hplaced : σ.Placed) (hlive : σ.live conn = true)
    (h : σ.heartBeatFunc conn time = some σ') : σ'.Placed := by
  obtain ⟨τ, hbeat, hnodes, hposition, -⟩ := hplaced.heartBeatFunc_eq hlive time
  obtain rfl := Option.some.inj (h.symm.trans hbeat)
  refine hplaced.congr ?_ hposition ?_
  · -- The moved node is the one that was there already.
    intro node
    rw [hnodes, List.mem_append, List.mem_filter, List.mem_singleton, decide_eq_true_iff]
    constructor
    · rintro (⟨hnode, -⟩ | rfl)
      · exact hnode
      · exact hplaced.mem_nodes hlive
    · intro hnode
      by_cases hconn : node.2 = conn
      · have hkey := ((hplaced node.1 node.2).mp hnode).2
        rw [hconn] at hkey
        exact Or.inr (Prod.ext hkey.symm hconn)
      · exact Or.inl ⟨hnode, hconn⟩
  · intro d
    exact live_congr (by rw [heartBeatFunc_toRegistry h])

theorem placed_initial : initial.Placed := by
  intro key conn
  simp [initial, NodeList.empty, live]

theorem Placed.onMessage {σ σ' : P2PServer} {conn : Conn} {message : Message} {time : Int}
    {sends : List CodecSend} (hplaced : σ.Placed) (hlive : σ.live conn = true)
    (h : σ.onMessage conn message time = some (σ', sends)) : σ'.Placed := by
  by_cases hcode : ProtocolCode.ofByte (message.headD 0) = some .heartBeat
  · unfold P2PServer.onMessage at h
    simp only [hcode, Option.map_eq_some_iff] at h
    obtain ⟨τ, hbeat, hout⟩ := h
    rw [← (Prod.mk.inj hout).1]
    exact hplaced.heartBeatFunc hlive hbeat
  · have hlisting := listing_onMessage h hcode
    have hlist : σ'.connectionList = σ.connectionList := congrArg Listing.list hlisting
    refine hplaced.congr ?_ (congrArg Listing.position hlisting) (live_onMessage h)
    intro node
    rw [hlist]

theorem Placed.lock_of_enabled {σ : P2PServer} (hplaced : σ.Placed) {now : Int}
    {lock : Conn → Bool} (henabled : enabled σ (.timer now lock)) :
    ∀ conn ∈ σ.connectionList.values, lock conn = true := by
  intro conn hmem
  exact henabled conn ((hplaced.mem_values conn).mp hmem)

end P2PServer

open P2PServer

/-- Every event keeps the list and its iterators exact. -/
theorem placed_exec {idleSeconds : Int} {σ σ' : P2PServer} {event : Event}
    {sends : List CodecSend} (hplaced : σ.Placed) (henabled : enabled σ event)
    (h : exec idleSeconds σ event = some (σ', sends)) : σ'.Placed := by
  cases event with
  | up conn now =>
      simp only [exec, Option.map_eq_some_iff, Prod.mk.injEq] at h
      obtain ⟨τ, hup, rfl, -⟩ := h
      exact hplaced.up henabled hup
  | down conn =>
      simp only [exec, Option.map_eq_some_iff, Prod.mk.injEq] at h
      obtain ⟨τ, hdown, rfl, -⟩ := h
      exact (hplaced.down henabled hdown).1
  | message conn message time => exact hplaced.onMessage henabled h
  | invalidLength conn =>
      simp only [exec, Option.some.injEq, Prod.mk.injEq] at h
      rw [← h.1]
      have hlisting := listing_shutdown σ conn
      have hlist : (σ.shutdown conn).connectionList = σ.connectionList :=
        congrArg Listing.list hlisting
      refine hplaced.congr ?_ (congrArg Listing.position hlisting) ?_
      · intro node
        rw [hlist]
      · intro d
        exact live_congr (by rw [toRegistry_shutdown])
  | timer now lock =>
      simp only [exec, Option.map_eq_some_iff, Prod.mk.injEq] at h
      obtain ⟨τ, htimer, rfl, -⟩ := h
      have hregistry := onTimerLoop_toRegistry htimer
      rw [onTimer_eq (hplaced.lock_of_enabled henabled), Option.some.injEq] at htimer
      refine hplaced.congr ?_ ?_ ?_
      · intro node
        rw [← htimer]
        rfl
      · rw [← htimer]
        rfl
      · intro d
        exact live_congr (by rw [hregistry])

theorem reachable_placed {idleSeconds : Int} {σ : P2PServer}
    (hreach : (machine idleSeconds).Reachable σ) : σ.Placed := by
  refine hreach.invariant P2PServer.Placed placed_initial ?_
  intro t hstep hplaced
  exact placed_exec hplaced hstep.1 hstep.2

/-- **The connection list is exact.**  In every state the server reaches, the list
holds each connection that is up once and nothing else, and `position` is the node
of its connection.  So going down erases the node of that connection only, the
assertion of `heartBeatFunc` holds, and the timer meets no expired weak pointer: it
would do the same if every pointer could be locked, and keeps the list. -/
theorem connection_list_exact {idleSeconds : Int} {σ : P2PServer}
    (hreach : (machine idleSeconds).Reachable σ) :
    σ.connectionList.values.Nodup ∧
      (∀ conn, conn ∈ σ.connectionList.values ↔ σ.live conn = true) ∧
      (∀ conn, σ.live conn = true →
        σ.connectionList.deref (σ.context conn).position = some conn) ∧
      (∀ conn, enabled σ (.down conn) →
        ∃ σ', exec idleSeconds σ (.down conn) = some (σ', []) ∧
          σ'.connectionList.nodes =
            σ.connectionList.nodes.filter fun node => decide (node.2 ≠ conn)) ∧
      (∀ conn message time, enabled σ (.message conn message time) →
        ∃ list, σ.connectionList.spliceToEnd (σ.context conn).position = some list ∧
          list.keys.getLast? = some (σ.context conn).position ∧
          (σ.heartBeatFunc conn time).isSome) ∧
      ∀ now lock, enabled σ (.timer now lock) →
        (∀ conn ∈ σ.connectionList.values, lock conn = true) ∧
          ∃ σ', onTimer idleSeconds now lock σ = some σ' ∧
            onTimer idleSeconds now (fun _ => true) σ = some σ' ∧
            σ'.connectionList = σ.connectionList := by
  have hplaced := reachable_placed hreach
  refine ⟨hplaced.values_nodup, hplaced.mem_values, ?_, ?_, ?_, ?_⟩
  · intro conn hlive
    exact NodeList.deref_eq_some_iff.mpr (hplaced.mem_nodes hlive)
  · intro conn hlive
    obtain ⟨σ', hdown, -⟩ := @down_listing σ conn conn 0 (hplaced.mem_nodes hlive)
    refine ⟨σ', ?_, (hplaced.down hlive hdown).2⟩
    show Option.map _ _ = _
    rw [hdown]
    rfl
  · intro conn message time hlive
    obtain ⟨list, hsplice, hnodes⟩ := NodeList.spliceToEnd_of_mem (hplaced.mem_nodes hlive)
    obtain ⟨σ', hbeat, -⟩ := hplaced.heartBeatFunc_eq hlive time
    refine ⟨list, hsplice, ?_, ?_⟩
    · simp [NodeList.keys, hnodes]
    · rw [hbeat]
      rfl
  · intro now lock henabled
    have hlock := hplaced.lock_of_enabled henabled
    exact ⟨hlock, _, onTimer_eq hlock, onTimer_eq fun _ _ => rfl, rfl⟩

/-- Two connections up, one of which sent a heart beat. -/
def beatsOnce : List Event :=
  [.up 0 0, .up 1 5, .message 0 [7] 9]

/-- The heart beat moved connection 0 behind connection 1, and its node is still the
one it got first. -/
theorem connection_list_exact_beatsOnce :
    (after beatsOnce).connectionList.nodes = [(1, 1), (0, 0)] ∧
      (after beatsOnce).connectionList.deref ((after beatsOnce).context 0).position =
        some 0 := by
  refine ⟨by decide +kernel, ?_⟩
  exact (connection_list_exact (reachable_after beatsOnce)).2.2.1 0 (by decide +kernel)

end Server
end StupidP2P
