import StupidP2P.Server.Model
import StupidP2P.Server.Relations

/-!
# The server refines the registry

`toRegistry` forgets times, list nodes and outputs.  Every defined step of the
server is then one operation of the registry, the one named by `opOf`: the
requests act on the stores as in `StupidP2P.Server.Registry`, and sending data,
heart beats, the timer and a bad length leave them alone.  The facts about runs of
the registry therefore hold of the server.
-/

namespace StupidP2P
namespace Server

open Foundation

/-- Both states in which a connection is read count as live. -/
def TcpState.phase : TcpState → Phase
  | kConnecting => .fresh
  | kConnected => .live
  | kDisconnecting => .live
  | kDisconnected => .gone

/-- The registry operation an event amounts to. -/
def opOf : Event → Op Conn DeviceId
  | .up conn _ => .connect conn
  | .down conn => .disconnect conn
  | .message conn message _ =>
      match ProtocolCode.ofByte (message.headD 0) with
      | some .registerDevice => .register conn (message.drop 1)
      | some .subscribeDevice => .subscribe conn (message.drop 1)
      | some .unregisterDevice => .unregister conn
      | some .unsubscribeDevice => .unsubscribe conn (message.drop 1)
      | _ => .idle
  | .invalidLength _ => .idle
  | .timer _ _ => .idle

namespace P2PServer

/-- The two stores and the life of the connections. -/
def toRegistry (σ : P2PServer) : Registry Conn DeviceId where
  owner := σ.connections
  name := fun conn => (σ.context conn).deviceId
  subs := fun conn => (σ.context conn).subscribeIdList
  sendTo := fun conn => (σ.context conn).sendToList.values
  phase := fun conn => (σ.state conn).phase

/-- A write to a context, field by field. -/
theorem toRegistry_modifyInfo (σ : P2PServer) (conn : Conn) (f : ConnInfo → ConnInfo) :
    (σ.modifyInfo conn f).toRegistry =
      { σ.toRegistry with
        name := Function.update σ.toRegistry.name conn (f (σ.context conn)).deviceId
        subs := Function.update σ.toRegistry.subs conn (f (σ.context conn)).subscribeIdList
        sendTo := Function.update σ.toRegistry.sendTo conn
          (f (σ.context conn)).sendToList.values } := by
  ext1
  · rfl
  · funext d
    simp only [toRegistry, modifyInfo, Function.update_apply]
    split <;> rfl
  · funext d
    simp only [toRegistry, modifyInfo, Function.update_apply]
    split <;> rfl
  · funext d
    simp only [toRegistry, modifyInfo, Function.update_apply]
    split <;> rfl
  · rfl

theorem update_name_self (σ : P2PServer) (conn : Conn) :
    Function.update σ.toRegistry.name conn (σ.context conn).deviceId = σ.toRegistry.name :=
  Function.update_eq_self conn σ.toRegistry.name

theorem update_subs_self (σ : P2PServer) (conn : Conn) :
    Function.update σ.toRegistry.subs conn (σ.context conn).subscribeIdList =
      σ.toRegistry.subs :=
  Function.update_eq_self conn σ.toRegistry.subs

theorem update_sendTo_self (σ : P2PServer) (conn : Conn) :
    Function.update σ.toRegistry.sendTo conn (σ.context conn).sendToList.values =
      σ.toRegistry.sendTo :=
  Function.update_eq_self conn σ.toRegistry.sendTo

theorem toRegistry_setDeviceId (σ : P2PServer) (conn : Conn) (id : DeviceId) :
    (σ.modifyInfo conn fun info => { info with deviceId := id }).toRegistry =
      { σ.toRegistry with name := Function.update σ.toRegistry.name conn id } := by
  rw [toRegistry_modifyInfo, update_subs_self, update_sendTo_self]

theorem toRegistry_setReceiveTime (σ : P2PServer) (conn : Conn) (time : Int) :
    (σ.modifyInfo conn fun info => { info with lastReceiveTime := time }).toRegistry =
      σ.toRegistry := by
  rw [toRegistry_modifyInfo, update_name_self, update_subs_self, update_sendTo_self]

theorem toRegistry_assignConnection (σ : P2PServer) (id : DeviceId) (conn : Conn) :
    (σ.assignConnection id conn).toRegistry =
      { σ.toRegistry with owner := Function.update σ.toRegistry.owner id (some conn) } := rfl

theorem toRegistry_eraseConnection (σ : P2PServer) (id : DeviceId) :
    (σ.eraseConnection id).toRegistry =
      { σ.toRegistry with owner := Function.update σ.toRegistry.owner id none } := rfl

theorem toRegistry_setState (σ : P2PServer) (conn : Conn) (state : TcpState) :
    (σ.setState conn state).toRegistry =
      { σ.toRegistry with phase := Function.update σ.toRegistry.phase conn state.phase } := by
  have hphase : (fun d => (Function.update σ.state conn state d).phase) =
      Function.update (fun d => (σ.state d).phase) conn state.phase := by
    funext d
    simp only [Function.update_apply]
    split <;> rfl
  simp only [toRegistry, setState, hphase]

/-- A connection that is shut down is still live: it can receive. -/
@[simp] theorem toRegistry_shutdown (σ : P2PServer) (conn : Conn) :
    (σ.shutdown conn).toRegistry = σ.toRegistry := by
  unfold shutdown
  by_cases hc : σ.connected conn = true
  · have hstate : σ.state conn = .kConnected := by simpa [connected] using hc
    have hphase : TcpState.kDisconnecting.phase = σ.toRegistry.phase conn := by
      show _ = (σ.state conn).phase
      rw [hstate]
      rfl
    rw [if_pos hc, toRegistry_setState, hphase, Function.update_eq_self]
  · rw [if_neg hc]

/-! ## Requests -/

theorem connections_modifyInfo (σ : P2PServer) (conn : Conn) (f : ConnInfo → ConnInfo) :
    (σ.modifyInfo conn f).connections = σ.connections := rfl

theorem toRegistry_registerDeviceFunc (σ : P2PServer) (conn : Conn) (id : DeviceId) :
    (σ.registerDeviceFunc conn id).toRegistry = σ.toRegistry.register deleteId conn id := by
  have hset := toRegistry_setDeviceId σ conn id
  have hname : (σ.toRegistry.register deleteId conn id).name =
      fun d => if d = conn then id
        else if σ.connections id = some d then deleteId else σ.toRegistry.name d := rfl
  unfold registerDeviceFunc
  dsimp only
  rw [connections_modifyInfo]
  cases hold : σ.connections id with
  | none =>
      dsimp only
      rw [toRegistry_assignConnection, hset]
      ext1
      · rfl
      · rw [hname, hold]
        funext d
        simp [Function.update_apply]
      · rfl
      · rfl
      · rfl
  | some oldConn =>
      dsimp only
      by_cases hsame : oldConn = conn
      · -- Registered again by its owner: the entry is written as it was.
        subst hsame
        rw [if_pos rfl, hset]
        ext1
        · exact (Function.update_eq_self_iff.mpr hold.symm).symm
        · rw [hname, hold]
          funext d
          by_cases hd : d = oldConn
          · simp [hd]
          · simp [hd, Ne.symm hd]
        · rfl
        · rfl
        · rfl
      · -- Taken over: the old owner loses its name, and being shut down it stays live.
        rw [if_neg hsame]
        rw [toRegistry_assignConnection, toRegistry_shutdown, toRegistry_setDeviceId, hset]
        ext1
        · rfl
        · rw [hname, hold]
          funext d
          by_cases hd : d = conn
          · subst hd
            simp [Ne.symm hsame]
          · simp [Function.update_apply, hd, eq_comm]
        · rfl
        · rfl
        · rfl

theorem toRegistry_subscribeIdListAdd (σ : P2PServer) (conn : Conn) (id : DeviceId) :
    (σ.modifyInfo conn fun info => info.subscribeIdListAdd id).toRegistry =
      { σ.toRegistry with
        subs := Function.update σ.toRegistry.subs conn
          (addNew id (σ.toRegistry.subs conn)) } := by
  have hfields : ∀ info : ConnInfo,
      (info.subscribeIdListAdd id).deviceId = info.deviceId ∧
        (info.subscribeIdListAdd id).subscribeIdList = addNew id info.subscribeIdList ∧
        (info.subscribeIdListAdd id).sendToList = info.sendToList := by
    intro info
    unfold ConnInfo.subscribeIdListAdd addNew
    split <;> exact ⟨rfl, rfl, rfl⟩
  obtain ⟨hname, hsubs, hsend⟩ := hfields (σ.context conn)
  rw [toRegistry_modifyInfo, hname, hsubs, hsend, update_name_self, update_sendTo_self]
  rfl

theorem toRegistry_sendToListAdd (σ : P2PServer) (conn receiver : Conn) :
    (σ.modifyInfo conn fun info => info.sendToListAdd receiver).toRegistry =
      { σ.toRegistry with
        sendTo := Function.update σ.toRegistry.sendTo conn
          (addNew receiver (σ.toRegistry.sendTo conn)) } := by
  have hfields : ∀ info : ConnInfo,
      (info.sendToListAdd receiver).deviceId = info.deviceId ∧
        (info.sendToListAdd receiver).subscribeIdList = info.subscribeIdList ∧
        (info.sendToListAdd receiver).sendToList.values =
          addNew receiver info.sendToList.values := by
    intro info
    unfold ConnInfo.sendToListAdd addNew
    split
    · exact ⟨rfl, rfl, rfl⟩
    · exact ⟨rfl, rfl, NodeList.values_pushBack _ _⟩
  obtain ⟨hname, hsubs, hsend⟩ := hfields (σ.context conn)
  rw [toRegistry_modifyInfo, hname, hsubs, hsend, update_name_self, update_subs_self]
  rfl

theorem toRegistry_sendToListRemove (σ : P2PServer) (conn receiver : Conn) :
    (σ.modifyInfo conn fun info => info.sendToListRemove receiver).toRegistry =
      { σ.toRegistry with
        sendTo := Function.update σ.toRegistry.sendTo conn
          ((σ.toRegistry.sendTo conn).filter fun d => decide (d ≠ receiver)) } := by
  rw [toRegistry_modifyInfo]
  simp only [ConnInfo.sendToListRemove, NodeList.values_remove]
  rw [update_name_self, update_subs_self]
  rfl

theorem toRegistry_subscribeIdListErase (σ : P2PServer) (conn : Conn) (id : DeviceId) :
    (σ.modifyInfo conn fun info =>
        { info with subscribeIdList := info.subscribeIdList.erase id }).toRegistry =
      { σ.toRegistry with
        subs := Function.update σ.toRegistry.subs conn
          (@List.erase _ instBEqOfDecidableEq (σ.toRegistry.subs conn) id) } := by
  -- The registry compares ids by their decidable equality, the server as lists.
  have hbeq : (inferInstance : BEq DeviceId) = instBEqOfDecidableEq :=
    lawful_beq_subsingleton _ _
  rw [toRegistry_modifyInfo, update_name_self, update_sendTo_self, ← hbeq]
  rfl

theorem toRegistry_sendToListClear (σ : P2PServer) (conn : Conn) :
    (σ.modifyInfo conn ConnInfo.sendToListClear).toRegistry =
      { σ.toRegistry with sendTo := Function.update σ.toRegistry.sendTo conn [] } := by
  rw [toRegistry_modifyInfo]
  simp only [ConnInfo.sendToListClear, NodeList.values_clear]
  rw [update_name_self, update_subs_self]

theorem toRegistry_subscribeDeviceFunc (σ : P2PServer) (conn : Conn) (id : DeviceId) :
    (σ.subscribeDeviceFunc conn id).1.toRegistry = σ.toRegistry.subscribe conn id := by
  unfold subscribeDeviceFunc Registry.subscribe Registry.accepts
  rw [show σ.toRegistry.owner id = σ.connections id from rfl,
    show σ.toRegistry.name conn = (σ.context conn).deviceId from rfl]
  cases howner : σ.connections id with
  | none => simp
  | some p =>
      dsimp only
      by_cases hown : id = (σ.context conn).deviceId
      · simp [hown]
      · rw [if_neg hown, if_neg hown]
        dsimp only
        rw [toRegistry_sendToListAdd, toRegistry_subscribeIdListAdd]

theorem toRegistry_unsubscribeDeviceFunc (σ : P2PServer) (conn : Conn) (id : DeviceId) :
    (σ.unsubscribeDeviceFunc conn id).toRegistry = σ.toRegistry.unsubscribe conn id := by
  unfold unsubscribeDeviceFunc Registry.unsubscribe
  rw [show σ.toRegistry.subs conn = (σ.context conn).subscribeIdList from rfl]
  by_cases hmem : id ∈ (σ.context conn).subscribeIdList
  · rw [if_pos hmem, if_pos hmem]
    dsimp only
    rw [toRegistry_subscribeIdListErase]
    cases howner : σ.connections id with
    | none =>
        -- Nobody owns the id, so no list of receivers changes.
        have hsend : σ.toRegistry.sendTo = fun p =>
            if σ.toRegistry.owner id = some p then
              (σ.toRegistry.sendTo p).filter (fun d => decide (d ≠ conn))
            else σ.toRegistry.sendTo p := by
          funext p
          rw [show σ.toRegistry.owner id = none from howner]
          simp
        ext1
        · rfl
        · rfl
        · rfl
        · exact hsend
        · rfl
    | some q =>
        dsimp only
        rw [toRegistry_sendToListRemove]
        ext1
        · rfl
        · rfl
        · rfl
        · funext p
          rw [show σ.toRegistry.owner id = some q from howner]
          dsimp only
          rw [Function.update_apply]
          by_cases hp : p = q
          · subst hp
            simp
          · rw [if_neg hp, if_neg (fun h => hp (Option.some.inj h).symm)]
        · rfl
  · rw [if_neg hmem, if_neg hmem]

/-- One round of the loop in `unregisterDeviceFunc`. -/
theorem toRegistry_unsubscribe_first {σ : P2PServer} {conn : Conn} {id : DeviceId}
    {rest : List DeviceId} (hsubs : σ.toRegistry.subs conn = id :: rest) :
    (σ.unsubscribeDeviceFunc conn id).toRegistry =
      { σ.toRegistry with
        subs := Function.update σ.toRegistry.subs conn rest
        sendTo := fun p =>
          if σ.toRegistry.owner id = some p then
            (σ.toRegistry.sendTo p).filter (fun d => decide (d ≠ conn))
          else σ.toRegistry.sendTo p } := by
  rw [toRegistry_unsubscribeDeviceFunc, Registry.unsubscribe, hsubs]
  simp

/-- The whole loop: the induction is on the number of ids still subscribed. -/
theorem toRegistry_unsubscribeAll (conn : Conn) (fuel : Nat) (σ : P2PServer)
    (hfuel : (σ.context conn).subscribeIdList.length = fuel) :
    (unsubscribeAll conn fuel σ).toRegistry =
      { σ.toRegistry with
        subs := Function.update σ.toRegistry.subs conn []
        sendTo := fun p =>
          if ∃ id ∈ σ.toRegistry.subs conn, σ.toRegistry.owner id = some p then
            (σ.toRegistry.sendTo p).filter (fun d => decide (d ≠ conn))
          else σ.toRegistry.sendTo p } := by
  induction fuel generalizing σ with
  | zero =>
      have hnil : (σ.context conn).subscribeIdList = [] := List.length_eq_zero_iff.mp hfuel
      have hsubs : σ.toRegistry.subs conn = [] := hnil
      ext1
      · rfl
      · rfl
      · exact (Function.update_eq_self_iff.mpr hsubs.symm).symm
      · funext p
        rw [hsubs]
        simp [unsubscribeAll]
      · rfl
  | succ fuel ih =>
      cases hlist : (σ.context conn).subscribeIdList with
      | nil => simp [hlist] at hfuel
      | cons id rest =>
          have hsubs : σ.toRegistry.subs conn = id :: rest := hlist
          have hstep := toRegistry_unsubscribe_first hsubs
          have hrest : (σ.unsubscribeDeviceFunc conn id).toRegistry.subs conn = rest := by
            rw [hstep]
            simp
          have hlen : ((σ.unsubscribeDeviceFunc conn id).context conn).subscribeIdList.length =
              fuel := by
            rw [hlist] at hfuel
            change ((σ.unsubscribeDeviceFunc conn id).toRegistry.subs conn).length = fuel
            rw [hrest]
            simpa using hfuel
          simp only [unsubscribeAll, hlist]
          rw [ih _ hlen, hrest, hstep, hsubs]
          ext1
          · rfl
          · rfl
          · simp
          · -- Removing `conn` a second time from the same list changes nothing.
            funext p
            by_cases hid : σ.toRegistry.owner id = some p
            · by_cases hex : ∃ id' ∈ rest, σ.toRegistry.owner id' = some p
              · simp [hid, hex, List.filter_filter]
              · simp [hid, hex]
            · simp [hid]
          · rfl

theorem toRegistry_unregisterDeviceFunc (σ : P2PServer) (conn : Conn) :
    (σ.unregisterDeviceFunc conn).toRegistry = σ.toRegistry.unregister deleteId conn := by
  have hall := toRegistry_unsubscribeAll conn _ σ rfl
  unfold unregisterDeviceFunc
  dsimp only
  generalize hτ : (unsubscribeAll conn (σ.context conn).subscribeIdList.length σ).modifyInfo conn
    ConnInfo.sendToListClear = τ
  have hreg : τ.toRegistry =
      { σ.toRegistry with
        subs := Function.update σ.toRegistry.subs conn []
        sendTo := (σ.toRegistry.unregister deleteId conn).sendTo } := by
    rw [← hτ, toRegistry_sendToListClear, hall]
    ext1
    · rfl
    · rfl
    · rfl
    · funext p
      simp only [Registry.unregister, Function.update_apply]
    · rfl
  have hname : (τ.context conn).deviceId = σ.toRegistry.name conn := by
    change τ.toRegistry.name conn = _
    rw [hreg]
  by_cases hdel : (τ.context conn).deviceId = deleteId
  · -- Not registered, or registered as "delete": no entry is erased.
    rw [if_pos hdel, hreg]
    rw [hname] at hdel
    ext1
    · funext id
      simp [Registry.unregister, hdel]
    · exact (Function.update_eq_self_iff.mpr hdel.symm).symm
    · rfl
    · rfl
    · rfl
  · rw [if_neg hdel, toRegistry_setDeviceId, toRegistry_eraseConnection, hname, hreg]
    rw [hname] at hdel
    ext1
    · funext id
      simp [Registry.unregister, Function.update_apply, hdel]
    · rfl
    · rfl
    · rfl
    · rfl

/-! ## Sending data -/

/-- **The loop of `sendDataFunc`.**  From the cursor in front of `rest` it sends to
all of `rest` if they are all connected, and is undefined otherwise: the erased
iterator is read in the next round. -/
theorem sendDataLoop_eq (σ : P2PServer) (message : Message) (list : NodeList Conn)
    (before rest : List (Nat × Conn)) (fuel : Nat) (hfuel : rest.length < fuel)
    (hnodes : list.nodes = before ++ rest) :
    sendDataLoop σ message fuel list (NodeList.front rest) =
      if ∀ node ∈ rest, σ.connected node.2 = true then
        some (list, rest.map fun node => ⟨node.2, message⟩)
      else none := by
  induction rest generalizing before fuel with
  | nil =>
      cases fuel with
      | zero => simp at hfuel
      | succ fuel => simp [NodeList.front, sendDataLoop]
  | cons node rest ih =>
      obtain ⟨key, receiver⟩ := node
      cases fuel with
      | zero => simp at hfuel
      | succ fuel =>
          simp only [List.length_cons] at hfuel
          have hderef : list.deref key = some receiver := NodeList.deref_split hnodes
          have hnext : list.next key = some (NodeList.front rest) := NodeList.next_split hnodes
          simp only [NodeList.front, sendDataLoop, hderef]
          by_cases hconn : σ.connected receiver = true
          · rw [if_pos hconn]
            simp only [hnext]
            rw [ih (before ++ [(key, receiver)]) fuel (by omega) (by simp [hnodes])]
            by_cases hrest : ∀ node ∈ rest, σ.connected node.2 = true
            · rw [if_pos hrest, if_pos]
              · simp
              · intro node hnode
                rcases List.mem_cons.mp hnode with rfl | hmem
                · exact hconn
                · exact hrest node hmem
            · rw [if_neg hrest, if_neg]
              · rfl
              · intro hall
                exact hrest fun node hmem => hall node (List.mem_cons_of_mem _ hmem)
          · rw [if_neg hconn, if_neg]
            · simp only [NodeList.erase, hnext, Option.map_some]
              cases fuel with
              | zero => rfl
              | succ fuel => simp only [sendDataLoop, NodeList.deref_keep_ne]
            · intro hall
              exact hconn (hall (key, receiver) (by simp))

theorem sendDataFunc_eq_some {σ σ' : P2PServer} {conn : Conn} {message : Message}
    {sends : List CodecSend} (h : σ.sendDataFunc conn message = some (σ', sends)) :
    σ'.toRegistry = σ.toRegistry ∧
      sends = (σ.toRegistry.sendTo conn).map fun receiver => ⟨receiver, message⟩ := by
  unfold sendDataFunc at h
  have hloop := sendDataLoop_eq σ message (σ.context conn).sendToList []
    (σ.context conn).sendToList.nodes ((σ.context conn).sendToList.nodes.length + 1)
    (by omega) rfl
  simp only [NodeList.start, hloop] at h
  by_cases hall : ∀ node ∈ (σ.context conn).sendToList.nodes, σ.connected node.2 = true
  · rw [if_pos hall, Option.map_some, Option.some.injEq, Prod.mk.injEq] at h
    obtain ⟨rfl, rfl⟩ := h
    constructor
    · rw [toRegistry_modifyInfo, update_name_self, update_subs_self, update_sendTo_self]
    · simp [toRegistry, NodeList.values]
  · rw [if_neg hall] at h
    simp at h

/-! ## Heart beats, the timer and the life of a connection -/

theorem heartBeatFunc_toRegistry {σ σ' : P2PServer} {conn : Conn} {time : Int}
    (h : σ.heartBeatFunc conn time = some σ') : σ'.toRegistry = σ.toRegistry := by
  unfold heartBeatFunc at h
  dsimp only at h
  split at h
  · exact absurd h (by simp)
  · split at h
    · obtain rfl := Option.some.inj h
      exact toRegistry_setReceiveTime σ conn time
    · exact absurd h (by simp)

theorem onTimerLoop_toRegistry {idleSeconds now : Int} {lock : Conn → Bool} {fuel : Nat}
    {σ σ' : P2PServer} {cursor : Cursor}
    (h : onTimerLoop idleSeconds now lock fuel σ cursor = some σ') :
    σ'.toRegistry = σ.toRegistry := by
  induction fuel generalizing σ cursor with
  | zero => simp [onTimerLoop] at h
  | succ fuel ih =>
      cases cursor with
      | finish =>
          obtain rfl := Option.some.inj h
          rfl
      | node key =>
          simp only [onTimerLoop] at h
          cases hderef : σ.connectionList.deref key with
          | none => simp [hderef] at h
          | some conn =>
              simp only [hderef] at h
              split at h
              · split at h
                · cases hnext : (σ.shutdown conn).connectionList.next key with
                  | none => simp [hnext] at h
                  | some cursor =>
                      simp only [hnext] at h
                      exact (ih h).trans (toRegistry_shutdown σ conn)
                · split at h
                  · split at h
                    · exact absurd h (by simp)
                    · exact (ih h).trans (toRegistry_setReceiveTime σ conn now)
                  · obtain rfl := Option.some.inj h
                    rfl
              · cases herase : σ.connectionList.erase key with
                | none => simp [herase] at h
                | some erased =>
                    obtain ⟨list, behind⟩ := erased
                    cases behind with
                    | finish => simp [herase] at h
                    | node behind =>
                        simp only [herase] at h
                        cases hnext : list.next behind with
                        | none => simp [hnext] at h
                        | some cursor =>
                            simp only [hnext] at h
                            exact (ih h).trans rfl

theorem up_toRegistry {σ σ' : P2PServer} {conn : Conn} {now : Int}
    (h : (σ.setState conn .kConnected).onConnection conn now = some σ') :
    σ'.toRegistry = σ.toRegistry.connect deleteId conn := by
  have hconn : (σ.setState conn .kConnected).connected conn = true := by
    simp [connected, setState]
  unfold onConnection at h
  rw [if_pos hconn] at h
  obtain rfl := Option.some.inj h
  rw [toRegistry_modifyInfo]
  ext1
  · rfl
  · rfl
  · rfl
  · rfl
  · show (σ.setState conn .kConnected).toRegistry.phase = _
    rw [toRegistry_setState]
    rfl

theorem down_toRegistry {σ σ' : P2PServer} {conn : Conn} {now : Int}
    (h : (σ.setState conn .kDisconnected).onConnection conn now = some σ') :
    σ'.toRegistry = σ.toRegistry.disconnect deleteId conn := by
  have hconn : ¬ (σ.setState conn .kDisconnected).connected conn = true := by
    simp [connected, setState]
  unfold onConnection at h
  rw [if_neg hconn, Option.map_eq_some_iff] at h
  obtain ⟨⟨list, behind⟩, -, rfl⟩ := h
  rw [toRegistry_unregisterDeviceFunc]
  show (σ.setState conn .kDisconnected).toRegistry.unregister deleteId conn = _
  rw [toRegistry_setState]
  rfl

end P2PServer

/-! ## Steps and runs -/

theorem onMessage_toRegistry {σ σ' : P2PServer} {conn : Conn} {message : Message} {time : Int}
    {sends : List CodecSend} (h : σ.onMessage conn message time = some (σ', sends)) :
    σ'.toRegistry = σ.toRegistry.apply deleteId (opOf (.message conn message time)) := by
  unfold P2PServer.onMessage at h
  simp only [opOf]
  cases hcode : ProtocolCode.ofByte (message.headD 0) with
  | none =>
      simp only [hcode, Option.some.injEq, Prod.mk.injEq] at h
      rw [← h.1]
      rfl
  | some code =>
      cases code with
      | registerDevice =>
          simp only [hcode, Option.some.injEq, Prod.mk.injEq] at h
          rw [← h.1]
          exact P2PServer.toRegistry_registerDeviceFunc σ conn _
      | subscribeDevice =>
          simp only [hcode, Option.some.injEq, Prod.mk.injEq] at h
          rw [← h.1]
          exact P2PServer.toRegistry_subscribeDeviceFunc σ conn _
      | sendData =>
          simp only [hcode, Option.map_eq_some_iff] at h
          obtain ⟨⟨τ, sent⟩, hsend, hout⟩ := h
          simp only [Prod.mk.injEq] at hout
          rw [← hout.1]
          exact (P2PServer.sendDataFunc_eq_some hsend).1
      | unregisterDevice =>
          simp only [hcode, Option.some.injEq, Prod.mk.injEq] at h
          rw [← h.1]
          exact P2PServer.toRegistry_unregisterDeviceFunc σ conn
      | unsubscribeDevice =>
          simp only [hcode, Option.some.injEq, Prod.mk.injEq] at h
          rw [← h.1]
          exact P2PServer.toRegistry_unsubscribeDeviceFunc σ conn _
      | checkDeviceAlive =>
          simp only [hcode, Option.some.injEq, Prod.mk.injEq] at h
          rw [← h.1]
          rfl
      | heartBeat =>
          simp only [hcode, Option.map_eq_some_iff] at h
          obtain ⟨τ, hbeat, hout⟩ := h
          simp only [Prod.mk.injEq] at hout
          rw [← hout.1]
          exact P2PServer.heartBeatFunc_toRegistry hbeat

/-- **The simulation.**  A defined step of the server is one operation of the
registry. -/
theorem exec_toRegistry {idleSeconds : Int} {σ σ' : P2PServer} {event : Event}
    {sends : List CodecSend} (h : exec idleSeconds σ event = some (σ', sends)) :
    σ'.toRegistry = σ.toRegistry.apply deleteId (opOf event) := by
  cases event with
  | up conn now =>
      simp only [exec, Option.map_eq_some_iff, Prod.mk.injEq] at h
      obtain ⟨τ, hup, rfl, -⟩ := h
      exact P2PServer.up_toRegistry hup
  | down conn =>
      simp only [exec, Option.map_eq_some_iff, Prod.mk.injEq] at h
      obtain ⟨τ, hdown, rfl, -⟩ := h
      exact P2PServer.down_toRegistry hdown
  | message conn message time => exact onMessage_toRegistry h
  | invalidLength conn =>
      simp only [exec, Option.some.injEq, Prod.mk.injEq] at h
      rw [← h.1]
      exact P2PServer.toRegistry_shutdown σ conn
  | timer now lock =>
      simp only [exec, Option.map_eq_some_iff, Prod.mk.injEq] at h
      obtain ⟨τ, htimer, rfl, -⟩ := h
      exact P2PServer.onTimerLoop_toRegistry htimer

theorem phase_live_iff {σ : P2PServer} {conn : Conn} :
    σ.toRegistry.phase conn = .live ↔ σ.live conn = true := by
  unfold P2PServer.live P2PServer.toRegistry
  cases hstate : σ.state conn <;> simp [TcpState.phase, hstate]

/-- What muduo lets happen is allowed in the registry. -/
theorem allowed_opOf {σ : P2PServer} {event : Event} (h : enabled σ event) :
    σ.toRegistry.Allowed (opOf event) := by
  cases event with
  | up conn now =>
      change (σ.state conn).phase = .fresh
      rw [show σ.state conn = .kConnecting from h]
      rfl
  | down conn => exact phase_live_iff.mpr h
  | message conn message time =>
      have hlive := phase_live_iff.mpr h
      unfold opOf
      dsimp only
      split <;> first | exact hlive | trivial
  | invalidLength conn => trivial
  | timer now lock => trivial

/-- The unconditional invariant of the registry holds in every state the server
reaches. -/
theorem reachable_inv {idleSeconds : Int} {σ : P2PServer}
    (h : (machine idleSeconds).Reachable σ) : σ.toRegistry.Inv deleteId := by
  refine Machine.Reachable.invariant (fun σ => σ.toRegistry.Inv deleteId) ?_ ?_ h
  · exact Registry.inv_initial
  · intro t hstep hinv
    rw [exec_toRegistry hstep.2]
    exact Registry.inv_apply hinv (allowed_opOf hstep.1)

/-! ## What is sent -/

theorem ProtocolCode.ofByte_eq_some {byte : UInt8} {code : ProtocolCode}
    (h : ofByte byte = some code) : byte = code.toByte := by
  unfold ofByte at h
  split_ifs at h <;> cases h <;> assumption

/-- Where a request of `conn` is forwarded to. -/
def P2PServer.receivers (σ : P2PServer) (conn : Conn) (code : ProtocolCode) : List Conn :=
  if code = .sendData then (σ.context conn).sendToList.values else []

/-- A request is answered by one callback, sent after the data it forwards; only
`SEND_DATA` forwards any. -/
theorem onMessage_sends {σ σ' : P2PServer} {conn : Conn} {message : Message} {time : Int}
    {sends : List CodecSend} (h : σ.onMessage conn message time = some (σ', sends)) :
    match ProtocolCode.ofByte (message.headD 0) with
    | none => sends = []
    | some code =>
        ∃ result, sends = (σ.receivers conn code).map (fun receiver => ⟨receiver, message⟩) ++
          [P2PServer.callbackFunc conn code result] := by
  unfold P2PServer.onMessage at h
  cases hcode : ProtocolCode.ofByte (message.headD 0) with
  | none =>
      simp only [hcode, Option.some.injEq, Prod.mk.injEq] at h
      exact h.2.symm
  | some code =>
      cases code with
      | sendData =>
          simp only [hcode, Option.map_eq_some_iff] at h
          obtain ⟨⟨τ, sent⟩, hsend, hout⟩ := h
          simp only [Prod.mk.injEq] at hout
          have hsent := (P2PServer.sendDataFunc_eq_some hsend).2
          refine ⟨.execSuccess, ?_⟩
          rw [← hout.2, hsent]
          rfl
      | heartBeat =>
          simp only [hcode, Option.map_eq_some_iff] at h
          obtain ⟨τ, -, hout⟩ := h
          simp only [Prod.mk.injEq] at hout
          exact ⟨_, hout.2.symm⟩
      | registerDevice | subscribeDevice | unregisterDevice | unsubscribeDevice
      | checkDeviceAlive =>
          simp only [hcode, Option.some.injEq, Prod.mk.injEq] at h
          exact ⟨_, h.2.symm⟩

/-- Only `SEND_DATA` is forwarded. -/
theorem P2PServer.sendData_of_mem_receivers {σ : P2PServer} {conn receiver : Conn}
    {code : ProtocolCode} (h : receiver ∈ σ.receivers conn code) : code = .sendData := by
  unfold receivers at h
  split at h
  · assumption
  · simp at h

/-- A `SEND_DATA` message starts with the byte of its code. -/
theorem ProtocolCode.sendData_message {message : Message}
    (h : ofByte (message.headD 0) = some .sendData) : ∃ payload, message = 0x03 :: payload := by
  have hfirst := ofByte_eq_some h
  cases message with
  | nil => exact absurd hfirst (by decide)
  | cons first payload => exact ⟨payload, congrArg (· :: payload) hfirst⟩

/-- A message the server hands to `LengthHeaderCodec::send` in some state. -/
def Sent (body : Message) : Prop :=
  ∃ σ σ' : P2PServer, ∃ conn message time sends receiver,
    σ.onMessage conn message time = some (σ', sends) ∧ CodecSend.mk receiver body ∈ sends

/-- What is sent is a callback of two bytes or a data message. -/
theorem Sent.callback_or_data {body : Message} (h : Sent body) :
    (∃ code result, body = [code, result]) ∨ ∃ payload, body = 0x03 :: payload := by
  obtain ⟨σ, σ', conn, message, time, sends, receiver, hmessage, hmem⟩ := h
  have hsends := onMessage_sends hmessage
  cases hcode : ProtocolCode.ofByte (message.headD 0) with
  | none =>
      rw [hcode] at hsends
      simp [show sends = [] from hsends] at hmem
  | some code =>
      rw [hcode] at hsends
      obtain ⟨result, rfl⟩ := hsends
      rcases List.mem_append.mp hmem with hdata | hcallback
      · right
        obtain ⟨_, hreceiver, hsend⟩ := List.mem_map.mp hdata
        obtain rfl := P2PServer.sendData_of_mem_receivers hreceiver
        rw [CodecSend.mk.injEq] at hsend
        rw [← hsend.2]
        exact ProtocolCode.sendData_message hcode
      · left
        rw [List.mem_singleton, P2PServer.callbackFunc, CodecSend.mk.injEq] at hcallback
        exact ⟨_, _, hcallback.2⟩

end Server
end StupidP2P
