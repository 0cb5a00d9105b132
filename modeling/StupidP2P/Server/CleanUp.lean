import StupidP2P.Server.ConnectionList

/-!
# The effect of unregistering

`unregisterDeviceFunc` unsubscribes from the first id of `subscribeIdList` while there
is one, clears `sendToList`, and gives the device id back.  `CleanedUp` says what is
different afterwards and what is not, for every context, every entry of `_connections`,
the list of connections and the states.

The loop comes to its end because each call of `unsubscribeDeviceFunc` erases the id it
was given, also when that call changes the list of the connection itself.
-/

namespace StupidP2P
namespace Server

open Foundation

namespace P2PServer

/-! ## What the calls leave alone -/

theorem state_unsubscribeDeviceFunc (σ : P2PServer) (conn : Conn) (deviceId : DeviceId) :
    (σ.unsubscribeDeviceFunc conn deviceId).state = σ.state := by
  unfold unsubscribeDeviceFunc
  dsimp only
  split
  · split <;> rfl
  · rfl

theorem state_unsubscribeAll (conn : Conn) (fuel : Nat) (σ : P2PServer) :
    (unsubscribeAll conn fuel σ).state = σ.state := by
  induction fuel generalizing σ with
  | zero => rfl
  | succ fuel ih =>
      unfold unsubscribeAll
      split
      · rfl
      · exact (ih _).trans (state_unsubscribeDeviceFunc σ conn _)

theorem state_unregisterDeviceFunc (σ : P2PServer) (conn : Conn) :
    (σ.unregisterDeviceFunc conn).state = σ.state := by
  have hloop := state_unsubscribeAll conn (σ.context conn).subscribeIdList.length σ
  unfold unregisterDeviceFunc
  dsimp only
  split
  · exact hloop
  · exact hloop

/-! ## The loop -/

/-- One round takes the first id, whatever happens to the lists of receivers. -/
theorem subscribeIdList_unsubscribe_first {σ : P2PServer} {conn : Conn} {id : DeviceId}
    {rest : List DeviceId} (hlist : (σ.context conn).subscribeIdList = id :: rest) :
    ((σ.unsubscribeDeviceFunc conn id).context conn).subscribeIdList = rest := by
  change (σ.unsubscribeDeviceFunc conn id).toRegistry.subs conn = rest
  rw [toRegistry_unsubscribe_first hlist]
  simp

/-- **The loop ends.**  As many rounds as there are ids empty the list, and further
rounds change nothing. -/
theorem unsubscribeAll_of_le (conn : Conn) (fuel : Nat) (σ : P2PServer)
    (hfuel : (σ.context conn).subscribeIdList.length ≤ fuel) :
    unsubscribeAll conn fuel σ =
        unsubscribeAll conn (σ.context conn).subscribeIdList.length σ ∧
      ((unsubscribeAll conn fuel σ).context conn).subscribeIdList = [] := by
  induction fuel generalizing σ with
  | zero =>
      have hnil : (σ.context conn).subscribeIdList = [] :=
        List.length_eq_zero_iff.mp (Nat.le_zero.mp hfuel)
      rw [hnil]
      exact ⟨rfl, hnil⟩
  | succ fuel ih =>
      cases hlist : (σ.context conn).subscribeIdList with
      | nil =>
          have hstop : unsubscribeAll conn (fuel + 1) σ = σ := by
            simp only [unsubscribeAll, hlist]
          rw [hstop]
          exact ⟨rfl, hlist⟩
      | cons id rest =>
          have hrest := subscribeIdList_unsubscribe_first hlist
          rw [hlist, List.length_cons] at hfuel
          have hround := ih (σ.unsubscribeDeviceFunc conn id) (by rw [hrest]; omega)
          rw [hrest] at hround
          simpa only [unsubscribeAll, hlist, List.length_cons] using hround

/-! ## The whole call -/

/-- `σ'` is `σ` after `conn` was unregistered, and differs in nothing else. -/
structure CleanedUp (σ : P2PServer) (conn : Conn) (σ' : P2PServer) : Prop where
  subscribeIdList_nil : (σ'.context conn).subscribeIdList = []
  sendToList_nil : (σ'.context conn).sendToList.values = []
  /-- The owner of an id that was subscribed to no longer forwards to `conn`. -/
  not_receiver : ∀ id ∈ (σ.context conn).subscribeIdList, ∀ q,
    σ.connections id = some q → conn ∉ (σ'.context q).sendToList.values
  /-- The connections that own no such id keep their list, the others lose `conn`. -/
  sendToList_other : ∀ q, q ≠ conn → (σ'.context q).sendToList.values =
    if ∃ id ∈ (σ.context conn).subscribeIdList, σ.connections id = some q then
      (σ.context q).sendToList.values.filter fun d => decide (d ≠ conn)
    else (σ.context q).sendToList.values
  sendToList_order : ∀ q, q ≠ conn →
    (σ'.context q).sendToList.values.filter (fun d => decide (d ≠ conn)) =
      (σ.context q).sendToList.values.filter fun d => decide (d ≠ conn)
  entry_erased : (σ.context conn).deviceId ≠ deleteId →
    σ'.connections (σ.context conn).deviceId = none
  deviceId_delete : (σ'.context conn).deviceId = deleteId
  entry_other : ∀ id, (σ.context conn).deviceId = deleteId ∨ id ≠ (σ.context conn).deviceId →
    σ'.connections id = σ.connections id
  deviceId_other : ∀ q, q ≠ conn → (σ'.context q).deviceId = (σ.context q).deviceId
  subscribeIdList_other : ∀ q, q ≠ conn →
    (σ'.context q).subscribeIdList = (σ.context q).subscribeIdList
  listing : σ'.listing = σ.listing
  state : σ'.state = σ.state

/-- **Unregistering.**  The loop of `unregisterDeviceFunc` ends, and the call does what
`CleanedUp` says, in every state of the server. -/
theorem unregisterDeviceFunc_cleanedUp (σ : P2PServer) (conn : Conn) :
    (∀ fuel, (σ.context conn).subscribeIdList.length ≤ fuel →
        unsubscribeAll conn fuel σ =
            unsubscribeAll conn (σ.context conn).subscribeIdList.length σ ∧
          ((unsubscribeAll conn fuel σ).context conn).subscribeIdList = []) ∧
      CleanedUp σ conn (σ.unregisterDeviceFunc conn) := by
  have hreg := toRegistry_unregisterDeviceFunc σ conn
  have howner := congrArg Registry.owner hreg
  have hname := congrArg Registry.name hreg
  have hsubs := congrArg Registry.subs hreg
  have hsend := congrArg Registry.sendTo hreg
  have hother : ∀ q, q ≠ conn →
      ((σ.unregisterDeviceFunc conn).context q).sendToList.values =
        if ∃ id ∈ (σ.context conn).subscribeIdList, σ.connections id = some q then
          (σ.context q).sendToList.values.filter fun d => decide (d ≠ conn)
        else (σ.context q).sendToList.values := by
    intro q hq
    exact (congrFun hsend q).trans (if_neg hq)
  refine ⟨fun fuel hfuel => unsubscribeAll_of_le conn fuel σ hfuel, ?_⟩
  constructor
  case subscribeIdList_nil =>
    exact (congrFun hsubs conn).trans (Function.update_self conn _ _)
  case sendToList_nil => exact (congrFun hsend conn).trans (if_pos rfl)
  case not_receiver =>
    intro id hid q hq hmem
    have hmem' : conn ∈ (σ.toRegistry.unregister deleteId conn).sendTo q := by
      rw [← hreg]
      exact hmem
    exact (Registry.mem_sendTo_unregister.mp hmem').2.2 rfl id hid hq
  case sendToList_other => exact hother
  case sendToList_order =>
    intro q hq
    rw [hother q hq]
    split
    · simp [List.filter_filter]
    · rfl
  case entry_erased =>
    intro hdevice
    exact (congrFun howner _).trans (if_pos ⟨hdevice, rfl⟩)
  case deviceId_delete => exact (congrFun hname conn).trans (Function.update_self conn _ _)
  case entry_other =>
    intro id hid
    refine (congrFun howner id).trans (if_neg ?_)
    rintro ⟨hdevice, heq⟩
    rcases hid with hdelete | hne
    · exact hdevice hdelete
    · exact hne heq
  case deviceId_other =>
    intro q hq
    exact (congrFun hname q).trans (Function.update_of_ne hq _ _)
  case subscribeIdList_other =>
    intro q hq
    exact (congrFun hsubs q).trans (Function.update_of_ne hq _ _)
  case listing => exact listing_unregisterDeviceFunc σ conn
  case state => exact state_unregisterDeviceFunc σ conn

end P2PServer

end Server
end StupidP2P
