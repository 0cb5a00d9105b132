import StupidP2P.Server.Traffic

/-!
# The timer thread and the I/O thread

`StupidP2P.Server.Model` takes `onTimer` as one step.  In the program it is not: `start` gives the
`TcpServer` an I/O thread of its own, in which `onConnection` and `onMessage` run, while `onTimer`
runs in the thread of the base loop, and nothing guards `_connectionList` and the times in the
contexts, which both use.  Here the two threads take turns.  `onTimer` stops in front of each
round of its loop and in front of each `it++`.  `onConnection` stops between `push_back` and
`setContext`, where the connection is in the list and has no `ConnInfo` yet, and `heartBeatFunc`
stops between the write of the time and `splice`.  What the other handlers do to the list they do
at once, so they stay whole.

That a read and a write of the same word may overlap is not modelled: the steps are taken one
after the other.

The module says what one step of either thread does, to the serial server (`settled_step`) and to
the list and the iterator of the sweep (`list_step`), and what therefore holds at every moment
(`threads_sound`).
-/

namespace StupidP2P
namespace Server

open Foundation P2PServer

/-! ## The halves of `heartBeatFunc` -/

namespace P2PServer

def setReceiveTime (σ : P2PServer) (conn : Conn) (time : Int) : P2PServer :=
  σ.modifyInfo conn fun info => { info with lastReceiveTime := time }

/-- What `heartBeatFunc` does once it has written the time. -/
def moveBehind (σ : P2PServer) (conn : Conn) : Option P2PServer :=
  let position := (σ.context conn).position
  match σ.connectionList.spliceToEnd position with
  | none => none
  | some list =>
      -- assert(info->position == --_connectionList.end())
      if list.keys.getLast? = some position then
        some { σ with connectionList := list }
      else none

theorem moveBehind_setReceiveTime (σ : P2PServer) (conn : Conn) (time : Int) :
    (σ.setReceiveTime conn time).moveBehind conn = σ.heartBeatFunc conn time :=
  rfl

/-- Moving the node is a heart beat that leaves the time as it is. -/
theorem moveBehind_eq (σ : P2PServer) (conn : Conn) :
    σ.moveBehind conn = σ.heartBeatFunc conn (σ.context conn).lastReceiveTime := by
  have hsame : σ.setReceiveTime conn (σ.context conn).lastReceiveTime = σ := by
    show { σ with context := Function.update σ.context conn (σ.context conn) } = σ
    rw [Function.update_eq_self]
  rw [← moveBehind_setReceiveTime, hsame]

theorem Placed.setReceiveTime {σ : P2PServer} (hplaced : σ.Placed) (conn : Conn) (time : Int) :
    (σ.setReceiveTime conn time).Placed := by
  have hposition := congrArg Listing.position (listing_setReceiveTime σ conn time)
  exact hplaced.congr (fun _ => Iff.rfl) hposition fun _ => rfl

theorem Placed.moveBehind {σ σ' : P2PServer} {conn : Conn} (hplaced : σ.Placed)
    (hlive : σ.live conn = true) (h : σ.moveBehind conn = some σ') : σ'.Placed := by
  rw [moveBehind_eq] at h
  exact hplaced.heartBeatFunc hlive h

theorem Placed.moveBehind_isSome {σ : P2PServer} {conn : Conn} (hplaced : σ.Placed)
    (hlive : σ.live conn = true) : (σ.moveBehind conn).isSome = true := by
  obtain ⟨σ', hbeat, -⟩ := hplaced.heartBeatFunc_eq hlive (σ.context conn).lastReceiveTime
  rw [moveBehind_eq, hbeat]
  rfl

end P2PServer

/-! ## The threads -/

/-- Where the thread of the base loop stands in `onTimer`. -/
inductive Sweep
  /-- Outside. -/
  | rest
  /-- In front of `it != _connectionList.end()`. -/
  | test (now : Int) (it : Cursor)
  /-- In front of `it++`. -/
  | advance (now : Int) (it : Cursor)
deriving DecidableEq, Repr

/-- The node the iterator designates. -/
def Sweep.key : Sweep → Option Nat
  | .test _ (.node key) => some key
  | .advance _ (.node key) => some key
  | _ => none

/-- A handler of the I/O thread that is underway. -/
inductive Pending
  /-- `onConnection` has put `conn` into the list, and not yet set its context to `info`. -/
  | context (conn : Conn) (info : ConnInfo)
  /-- `heartBeatFunc`, called for `message`, has written the time, and not yet moved the node. -/
  | splice (conn : Conn) (message : Message) (time : Int)

def Pending.conn : Pending → Conn
  | .context conn _ => conn
  | .splice conn _ _ => conn

/-- The server and its two threads. -/
structure Threads where
  server : P2PServer
  sweep : Sweep
  pending : Option Pending

inductive ThreadEvent
  /-- `onConnection` of a new connection, up to `push_back`. -/
  | push (conn : Conn) (now : Int)
  /-- `onMessage` for a heart beat, up to the write of the time. -/
  | beat (conn : Conn) (message : Message) (time : Int)
  /-- The rest of the handler that is underway. -/
  | resume
  /-- The I/O thread handles another event. -/
  | io (event : Event)
  /-- The timer fires: `onTimer` is entered. -/
  | fire (now : Int)
  /-- The test of the loop, and its body. -/
  | body (lock : Conn → Bool)
  /-- `it++`. -/
  | next

namespace Threads

def initial : Threads where
  server := P2PServer.initial
  sweep := .rest
  pending := none

def push (s : Threads) (conn : Conn) (now : Int) : Threads :=
  { s with
    server :=
      { s.server.setState conn .kConnected with
        connectionList := s.server.connectionList.pushBack conn }
    pending := some (.context conn
      { ConnInfo.blank with
        lastReceiveTime := now
        position := s.server.connectionList.supply }) }

def beat (s : Threads) (conn : Conn) (message : Message) (time : Int) : Threads :=
  { s with
    server := s.server.setReceiveTime conn time
    pending := some (.splice conn message time) }

def resume (s : Threads) : Option (Threads × List CodecSend) :=
  match s.pending with
  | none => none
  | some (.context conn info) =>
      some ({ s with server := s.server.modifyInfo conn fun _ => info, pending := none }, [])
  | some (.splice conn _ _) =>
      (s.server.moveBehind conn).map fun server =>
        ({ s with server := server, pending := none },
          [callbackFunc conn .heartBeat .execSuccess])

/-- The context of the connection is still empty. -/
def isOpening (s : Threads) (conn : Conn) : Bool :=
  match s.pending with
  | some (.context opened _) => decide (opened = conn)
  | _ => false

/-- One round of the loop of `onTimer`, without `it++`.  For an empty context `any_cast` gives a
null pointer, which is followed. -/
def body (idleSeconds : Int) (lock : Conn → Bool) (s : Threads) : Option Threads :=
  match s.sweep with
  | .test _ .finish => some { s with sweep := .rest }
  | .test now (.node key) =>
      match s.server.connectionList.deref key with
      | none => none
      | some conn =>
          if lock conn then
            if s.isOpening conn then none
            else
              let age := now - (s.server.context conn).lastReceiveTime
              if age > idleSeconds * 1000000 then
                some { s with
                  server := s.server.shutdown conn
                  sweep := .advance now (.node key) }
              else if age < 0 then
                some { s with
                  server := s.server.setReceiveTime conn now
                  sweep := .advance now (.node key) }
              else some { s with sweep := .rest }
          else
            (s.server.connectionList.erase key).map fun (list, behind) =>
              { s with
                server := { s.server with connectionList := list }
                sweep := .advance now behind }
  | _ => none

def next (s : Threads) : Option Threads :=
  match s.sweep with
  | .advance now (.node key) =>
      (s.server.connectionList.next key).map fun it => { s with sweep := .test now it }
  | _ => none

def exec (idleSeconds : Int) (s : Threads) : ThreadEvent → Option (Threads × List CodecSend)
  | .push conn now => some (s.push conn now, [])
  | .beat conn message time => some (s.beat conn message time, [])
  | .resume => s.resume
  | .io event =>
      (Server.exec idleSeconds s.server event).map fun (server, sends) =>
        ({ s with server := server }, sends)
  | .fire now => some ({ s with sweep := .test now s.server.connectionList.start }, [])
  | .body lock => (s.body idleSeconds lock).map (·, [])
  | .next => s.next.map (·, [])

end Threads

def isHeartBeat (message : Message) : Bool :=
  decide (ProtocolCode.ofByte (message.headD 0) = some .heartBeat)

/-- The events the I/O thread handles as a whole. -/
def Event.isWhole : Event → Bool
  | .up _ _ => false
  | .message _ request _ => !isHeartBeat request
  | .timer _ _ => false
  | _ => true

/-- Each thread does one thing after the other. -/
def threadsEnabled (s : Threads) : ThreadEvent → Prop
  | .push conn now => s.pending = none ∧ enabled s.server (.up conn now)
  | .beat conn message time =>
      s.pending = none ∧ isHeartBeat message = true ∧
        enabled s.server (.message conn message time)
  | .resume => s.pending.isSome = true
  | .io event => s.pending = none ∧ event.isWhole = true ∧ enabled s.server event
  | .fire _ => s.sweep = .rest
  | .body lock =>
      (∃ now it, s.sweep = .test now it) ∧ ∀ conn, s.server.live conn = true → lock conn = true
  | .next => ∃ now it, s.sweep = .advance now it

def threads (idleSeconds : Int) : Machine Threads ThreadEvent (List CodecSend) where
  init := Threads.initial
  enabled := threadsEnabled
  exec := Threads.exec idleSeconds

/-! ## The server once the context is set -/

namespace Threads

/-- The server as it is when `onConnection` has run to its end. -/
def settled (s : Threads) : P2PServer :=
  match s.pending with
  | some (.context conn info) => s.server.modifyInfo conn fun _ => info
  | _ => s.server

theorem settled_of_none {s : Threads} (h : s.pending = none) : s.settled = s.server := by
  rw [settled, h]

/-- A context that is missing is all that the two differ in. -/
theorem settled_cases (s : Threads) :
    (s.settled = s.server ∧ ∀ conn, s.isOpening conn = false) ∨
      ∃ opened info, s.pending = some (.context opened info) ∧
        s.settled = s.server.modifyInfo opened fun _ => info := by
  unfold settled isOpening
  cases s.pending with
  | none => exact Or.inl ⟨rfl, fun _ => rfl⟩
  | some pending =>
      cases pending with
      | context opened info => exact Or.inr ⟨opened, info, rfl, rfl⟩
      | splice conn message time => exact Or.inl ⟨rfl, fun _ => rfl⟩

@[simp] theorem connectionList_settled (s : Threads) :
    s.settled.connectionList = s.server.connectionList := by
  rcases s.settled_cases with ⟨h, -⟩ | ⟨opened, info, -, h⟩ <;> rw [h]
  rfl

@[simp] theorem state_settled (s : Threads) : s.settled.state = s.server.state := by
  rcases s.settled_cases with ⟨h, -⟩ | ⟨opened, info, -, h⟩ <;> rw [h]
  rfl

theorem live_settled (s : Threads) (conn : Conn) : s.settled.live conn = s.server.live conn := by
  rw [P2PServer.live, P2PServer.live, state_settled]

/-- The two halves of `onConnection` are the whole of it. -/
theorem settled_push {s : Threads} (h : s.pending = none) (idleSeconds : Int) (conn : Conn)
    (now : Int) :
    Server.exec idleSeconds s.settled (.up conn now) = some ((s.push conn now).settled, []) := by
  have hconnected : (s.server.setState conn .kConnected).connected conn = true := by
    simp [connected, setState]
  rw [settled_of_none h, Server.exec, onConnection, if_pos hconnected]
  rfl

theorem modifyInfo_shutdown (σ : P2PServer) (conn other : Conn) (f : ConnInfo → ConnInfo) :
    (σ.shutdown other).modifyInfo conn f = (σ.modifyInfo conn f).shutdown other := by
  unfold shutdown
  by_cases hconnected : σ.connected other = true
  · rw [if_pos hconnected, if_pos (show (σ.modifyInfo conn f).connected other = true from
      hconnected)]
    rfl
  · rw [if_neg hconnected, if_neg (show ¬ (σ.modifyInfo conn f).connected other = true from
      hconnected)]

theorem modifyInfo_comm (σ : P2PServer) {conn other : Conn} (hne : conn ≠ other)
    (f g : ConnInfo → ConnInfo) :
    (σ.modifyInfo conn f).modifyInfo other g = (σ.modifyInfo other g).modifyInfo conn f := by
  unfold modifyInfo
  dsimp only
  rw [Function.update_of_ne hne.symm, Function.update_of_ne hne, Function.update_comm hne]

theorem settled_shutdown (s : Threads) (conn : Conn) (sweep : Sweep) :
    settled { s with server := s.server.shutdown conn, sweep := sweep } =
      s.settled.shutdown conn := by
  unfold settled
  cases s.pending with
  | none => rfl
  | some pending =>
      cases pending with
      | context opened info => exact modifyInfo_shutdown s.server opened conn fun _ => info
      | splice => rfl

theorem settled_setReceiveTime {s : Threads} {conn : Conn} (h : s.isOpening conn = false)
    (now : Int) (sweep : Sweep) :
    settled { s with server := s.server.setReceiveTime conn now, sweep := sweep } =
      s.settled.setReceiveTime conn now := by
  unfold settled
  unfold isOpening at h
  cases hpending : s.pending with
  | none => rfl
  | some pending =>
      cases pending with
      | context opened info =>
          rw [hpending] at h
          exact modifyInfo_comm s.server (Ne.symm (of_decide_eq_false h)) _ fun _ => info
      | splice => rfl

/-- The connection the body of the loop finds idle for too long. -/
def expired (idleSeconds : Int) (s : Threads) : Option Conn :=
  match s.sweep with
  | .test now (.node key) =>
      (s.server.connectionList.deref key).filter fun conn =>
        decide (now - (s.server.context conn).lastReceiveTime > idleSeconds * 1000000)
  | _ => none

/-- **The body of the loop**, as long as the nodes of the list are live connections: it leaves,
shuts one connection down or dates one anew. -/
theorem body_cases {idleSeconds : Int} {lock : Conn → Bool} {s s' : Threads}
    (hplaced : s.settled.Placed) (hlock : ∀ conn, s.server.live conn = true → lock conn = true)
    (hbody : s.body idleSeconds lock = some s') :
    (s' = { s with sweep := .rest } ∧ s.expired idleSeconds = none ∧
        ∀ key, s.sweep.key = some key → key ∈ s.server.connectionList.keys) ∨
      ∃ now key conn, s.sweep = .test now (.node key) ∧
        s.server.connectionList.deref key = some conn ∧ s.isOpening conn = false ∧
        ((s.expired idleSeconds = some conn ∧
            s' = { s with server := s.server.shutdown conn, sweep := .advance now (.node key) }) ∨
          s.expired idleSeconds = none ∧
            s' = { s with
              server := s.server.setReceiveTime conn now
              sweep := .advance now (.node key) }) := by
  obtain ⟨server, sweep, pending⟩ := s
  cases sweep with
  | rest => exact absurd hbody (by simp [body])
  | advance now it => exact absurd hbody (by simp [body])
  | test now it =>
      cases it with
      | finish =>
          left
          refine ⟨(Option.some.inj hbody).symm, rfl, ?_⟩
          intro key hkey
          exact absurd hkey (by simp [Sweep.key])
      | node key =>
          simp only [body] at hbody
          cases hderef : server.connectionList.deref key with
          | none =>
              rw [hderef] at hbody
              exact absurd hbody (by simp)
          | some conn =>
              rw [hderef] at hbody
              -- The node is in the list, so its connection is live and can be locked.
              have hnode := NodeList.deref_eq_some_iff.mp hderef
              have hlive : server.live conn = true := by
                rw [← live_settled ⟨server, .test now (.node key), pending⟩]
                rw [← connectionList_settled ⟨server, .test now (.node key), pending⟩] at hnode
                exact ((hplaced key conn).mp hnode).1
              dsimp only at hbody
              rw [if_pos (hlock conn hlive)] at hbody
              cases hopening : isOpening ⟨server, .test now (.node key), pending⟩ conn with
              | true =>
                  rw [hopening] at hbody
                  exact absurd hbody (by simp)
              | false =>
                  rw [hopening, if_neg Bool.false_ne_true] at hbody
                  have hexpired : expired idleSeconds ⟨server, .test now (.node key), pending⟩ =
                      (some conn).filter fun c => decide
                        (now - (server.context c).lastReceiveTime > idleSeconds * 1000000) := by
                    rw [← hderef]
                    rfl
                  by_cases hage : now - (server.context conn).lastReceiveTime >
                      idleSeconds * 1000000
                  · rw [if_pos hage, Option.some.injEq] at hbody
                    right
                    refine ⟨now, key, conn, rfl, hderef, hopening, Or.inl ⟨?_, hbody.symm⟩⟩
                    rw [hexpired, Option.filter_some, if_pos (by simpa using hage)]
                  · have hnone : expired idleSeconds ⟨server, .test now (.node key), pending⟩ =
                        none := by
                      rw [hexpired, Option.filter_some, if_neg (by simpa using hage)]
                    rw [if_neg hage] at hbody
                    by_cases hfuture : now - (server.context conn).lastReceiveTime < 0
                    · rw [if_pos hfuture, Option.some.injEq] at hbody
                      right
                      exact ⟨now, key, conn, rfl, hderef, hopening, Or.inr ⟨hnone, hbody.symm⟩⟩
                    · rw [if_neg hfuture, Option.some.injEq] at hbody
                      refine Or.inl ⟨hbody.symm, hnone, ?_⟩
                      intro k hk
                      obtain rfl : key = k := Option.some.inj hk
                      exact List.mem_map_of_mem hnode

end Threads

/-! ## Serial runs -/

/-- What a step amounts to for the serial server.  A connection that the sweep shuts down is shut
down as if by the codec. -/
def serialOf (idleSeconds : Int) (t : Transition Threads ThreadEvent (List CodecSend)) :
    List Event :=
  match t.event with
  | .push conn now => [.up conn now]
  | .resume =>
      match t.pre.pending with
      | some (.splice conn message time) => [.message conn message time]
      | _ => []
  | .io event => [event]
  | .body _ => (t.pre.expired idleSeconds).toList.map .invalidLength
  | _ => []

section

variable {idleSeconds : Int} {s : Threads}
variable {t : Transition Threads ThreadEvent (List CodecSend)}
variable {trace : List (Transition Threads ThreadEvent (List CodecSend))}

/-- Two servers with the same stores, and the same connections open. -/
def SameServer (σ σ' : P2PServer) : Prop :=
  σ'.toRegistry = σ.toRegistry ∧ σ'.state = σ.state

theorem state_ext {σ σ' : P2PServer} (hphase : σ'.toRegistry.phase = σ.toRegistry.phase)
    (hconnected : ∀ conn, σ'.connected conn = true ↔ σ.connected conn = true) :
    σ'.state = σ.state := by
  funext conn
  have hone : (σ'.state conn).phase = (σ.state conn).phase := congrFun hphase conn
  have htwo := hconnected conn
  rw [connected_eq_true_iff, connected_eq_true_iff] at htwo
  cases hleft : σ'.state conn <;> cases hright : σ.state conn <;>
    simp_all [TcpState.phase]

/-- An event that the I/O thread handles does the same to both, and sends the same. -/
theorem SameServer.exec {σ σ' σ₁ σ₁' : P2PServer} {event : Event} {sends sends' : List CodecSend}
    (h : SameServer σ σ') (hevent : ∀ now lock, event ≠ .timer now lock)
    (hexec : Server.exec idleSeconds σ event = some (σ₁, sends))
    (hexec' : Server.exec idleSeconds σ' event = some (σ₁', sends')) :
    SameServer σ₁ σ₁' ∧ sends' = sends := by
  obtain ⟨hregistry, hstate⟩ := h
  have hregistry₁ : σ₁'.toRegistry = σ₁.toRegistry := by
    rw [exec_toRegistry hexec', exec_toRegistry hexec, hregistry]
  have hconnected : ∀ conn, σ'.connected conn = σ.connected conn := by
    intro conn
    rw [connected, connected, hstate]
  have howner : σ'.connections = σ.connections := congrArg Registry.owner hregistry
  cases event with
  | up conn now =>
      simp only [Server.exec, Option.map_eq_some_iff, Prod.mk.injEq] at hexec hexec'
      obtain ⟨τ, hup, rfl, rfl⟩ := hexec
      obtain ⟨τ', hup', rfl, rfl⟩ := hexec'
      refine ⟨⟨hregistry₁, ?_⟩, rfl⟩
      rw [state_up hup', state_up hup, hstate]
  | down conn =>
      simp only [Server.exec, Option.map_eq_some_iff, Prod.mk.injEq] at hexec hexec'
      obtain ⟨τ, hdown, rfl, rfl⟩ := hexec
      obtain ⟨τ', hdown', rfl, rfl⟩ := hexec'
      refine ⟨⟨hregistry₁, ?_⟩, rfl⟩
      rw [state_down hdown', state_down hdown, hstate]
  | message conn message time =>
      refine ⟨⟨hregistry₁, ?_⟩, ?_⟩
      · by_cases hcode : ProtocolCode.ofByte (message.headD 0) = some .registerDevice
        · refine state_ext (congrArg Registry.phase hregistry₁) ?_
          simp only [Server.exec, onMessage, hcode, Option.some.injEq, Prod.mk.injEq]
            at hexec hexec'
          intro other
          rw [← hexec'.1, ← hexec.1, connected_registerDeviceFunc, connected_registerDeviceFunc,
            hconnected, howner]
        · rw [state_onMessage hexec' hcode, state_onMessage hexec hcode, hstate]
      · refine onMessage_sends_congr hexec hexec'
          (congrFun (congrArg Registry.sendTo hregistry) conn) ?_
        intro code _
        cases code with
        | subscribeDevice => simp only [answer, hregistry]
        | checkDeviceAlive => simp only [answer, checkDeviceAliveFunc, howner, hconnected]
        | registerDevice | sendData | unregisterDevice | unsubscribeDevice | heartBeat => rfl
  | invalidLength conn =>
      simp only [Server.exec, Option.some.injEq, Prod.mk.injEq] at hexec hexec'
      refine ⟨⟨hregistry₁, ?_⟩, hexec'.2.symm.trans hexec.2⟩
      refine state_ext (congrArg Registry.phase hregistry₁) ?_
      intro other
      rw [← hexec'.1, ← hexec.1, connected_shutdown, connected_shutdown, hconnected]
  | timer now lock => exact absurd rfl (hevent now lock)

theorem SameServer.enabled {σ σ' : P2PServer} {event : Event} (h : SameServer σ σ')
    (henabled : Server.enabled σ event) : Server.enabled σ' event := by
  have hlive : ∀ conn, σ'.live conn = σ.live conn := by
    intro conn
    rw [P2PServer.live, P2PServer.live, h.2]
  cases event with
  | up conn now =>
      show σ'.state conn = .kConnecting
      rw [h.2]
      exact henabled
  | down conn => exact (hlive conn).trans henabled
  | message conn message time => exact (hlive conn).trans henabled
  | invalidLength conn => exact (hlive conn).trans henabled
  | timer now lock =>
      intro conn hconn
      exact henabled conn ((hlive conn).symm.trans hconn)

theorem SameServer.meets {σ σ' : P2PServer} {event : Event} (h : SameServer σ σ')
    (hmeets : MeetsClosedReceiver σ' event) : MeetsClosedReceiver σ event := by
  cases event with
  | message conn message time =>
      obtain ⟨hcode, receiver, hmem, hclosed⟩ := hmeets
      have hlists : (σ'.context conn).sendToList.values =
          (σ.context conn).sendToList.values := congrFun (congrArg Registry.sendTo h.1) conn
      refine ⟨hcode, receiver, ?_, ?_⟩
      · rw [← hlists]
        exact hmem
      · rw [← hclosed, connected, connected, h.2]
  | up | down | invalidLength | timer => exact hmeets

theorem SameServer.refl (σ : P2PServer) : SameServer σ σ :=
  ⟨rfl, rfl⟩

theorem SameServer.trans {σ σ' σ'' : P2PServer} (h : SameServer σ σ') (h' : SameServer σ' σ'') :
    SameServer σ σ'' :=
  ⟨h'.1.trans h.1, h'.2.trans h.2⟩

theorem SameServer.symm {σ σ' : P2PServer} (h : SameServer σ σ') : SameServer σ' σ :=
  ⟨h.1.symm, h.2.symm⟩

theorem sameServer_setReceiveTime (σ : P2PServer) (conn : Conn) (time : Int) :
    SameServer σ (σ.setReceiveTime conn time) :=
  ⟨toRegistry_setReceiveTime σ conn time, rfl⟩

theorem sameServer_heartBeatFunc {σ σ' : P2PServer} {conn : Conn} {time : Int}
    (h : σ.heartBeatFunc conn time = some σ') : SameServer σ σ' :=
  ⟨heartBeatFunc_toRegistry h, state_heartBeatFunc h⟩

/-- What holds at every moment, whatever the threads do. -/
structure Threads.Sound (s : Threads) : Prop where
  /-- The list and the iterators in the contexts agree. -/
  placed : s.settled.Placed
  /-- The connection of a handler that is underway does not go away. -/
  live : ∀ pending, s.pending = some pending → s.server.live pending.conn = true
  heartBeat : ∀ conn message time, s.pending = some (.splice conn message time) →
    isHeartBeat message = true
  /-- The iterator of the sweep designates a node the list has had. -/
  designates : ∀ key, s.sweep.key = some key → key < s.server.connectionList.supply
  /-- In front of `it++` it is not at the end. -/
  inside : ∀ now, s.sweep ≠ .advance now .finish

/-- **One step** of the threads is a step of the serial server, or changes nothing but a time and
the order of the list. -/
theorem settled_step (hsound : t.pre.Sound) (hstep : (threads idleSeconds).Step t) :
    t.post.settled.Placed ∧
      ((∃ event σ, serialOf idleSeconds t = [event] ∧ enabled t.pre.settled event ∧
          Server.exec idleSeconds t.pre.settled event = some (σ, t.output) ∧
          SameServer σ t.post.settled) ∨
        serialOf idleSeconds t = [] ∧ t.output = [] ∧
          SameServer t.pre.settled t.post.settled) := by
  obtain ⟨pre, event, output, post⟩ := t
  obtain ⟨henabled, hexec⟩ := hstep
  have hplaced := hsound.placed
  dsimp only at hsound henabled hexec hplaced ⊢
  cases event with
  | push conn now =>
      obtain ⟨hnone, hup⟩ := henabled
      obtain ⟨rfl, rfl⟩ := Prod.mk.inj (Option.some.inj hexec)
      have hserial := Threads.settled_push hnone idleSeconds conn now
      rw [← Threads.settled_of_none hnone] at hup
      refine ⟨placed_exec hplaced hup hserial, Or.inl ⟨.up conn now, _, rfl, hup, hserial, ?_⟩⟩
      exact SameServer.refl _
  | beat conn message time =>
      obtain ⟨rfl, rfl⟩ := Prod.mk.inj (Option.some.inj hexec)
      have hnone := Threads.settled_of_none henabled.1
      rw [hnone] at hplaced ⊢
      exact ⟨hplaced.setReceiveTime conn time, Or.inr
        ⟨rfl, rfl, sameServer_setReceiveTime pre.server conn time⟩⟩
  | resume =>
      obtain ⟨server, sweep, pending⟩ := pre
      cases pending with
      | none => exact absurd henabled (by simp [threads, threadsEnabled])
      | some pending =>
          cases pending with
          | context conn info =>
              obtain ⟨rfl, rfl⟩ := Prod.mk.inj (Option.some.inj hexec)
              exact ⟨hplaced, Or.inr ⟨rfl, rfl, SameServer.refl _⟩⟩
          | splice conn message time =>
              have hlive : server.live conn = true := hsound.live _ rfl
              have hcode := of_decide_eq_true (hsound.heartBeat conn message time rfl)
              obtain ⟨σ, hmoved, hpost⟩ := Option.map_eq_some_iff.mp hexec
              obtain ⟨rfl, rfl⟩ := Prod.mk.inj hpost
              obtain ⟨σ', hbeat, -⟩ := Placed.heartBeatFunc_eq hplaced hlive time
              refine ⟨Placed.moveBehind hplaced hlive hmoved, Or.inl
                ⟨.message conn message time, σ', rfl, hlive, ?_, ?_⟩⟩
              · show onMessage server conn message time = _
                simp only [onMessage, hcode]
                rw [show server.heartBeatFunc conn time = some σ' from hbeat]
                rfl
              · rw [moveBehind_eq] at hmoved
                exact (sameServer_heartBeatFunc hbeat).symm.trans
                  (sameServer_heartBeatFunc hmoved)
  | io event =>
      obtain ⟨hnone, -, hio⟩ := henabled
      obtain ⟨⟨server, sends⟩, hserver, hpost⟩ := Option.map_eq_some_iff.mp hexec
      obtain ⟨rfl, rfl⟩ := Prod.mk.inj hpost
      have hpost' : Threads.settled { pre with server := server } = server :=
        Threads.settled_of_none hnone
      rw [hpost', Threads.settled_of_none hnone] at *
      exact ⟨placed_exec hplaced hio hserver, Or.inl
        ⟨event, server, rfl, hio, hserver, SameServer.refl _⟩⟩
  | fire now =>
      obtain ⟨rfl, rfl⟩ := Prod.mk.inj (Option.some.inj hexec)
      exact ⟨hplaced, Or.inr ⟨rfl, rfl, SameServer.refl _⟩⟩
  | body lock =>
      obtain ⟨post', hbody, hpost⟩ := Option.map_eq_some_iff.mp hexec
      obtain ⟨rfl, rfl⟩ := Prod.mk.inj hpost
      rcases Threads.body_cases hplaced henabled.2 hbody with
        ⟨rfl, hnone, -⟩ |
          ⟨now, key, conn, hsweep, hderef, hopening, ⟨hsome, rfl⟩ | ⟨hnone, rfl⟩⟩
      · refine ⟨hplaced, Or.inr ⟨?_, rfl, SameServer.refl _⟩⟩
        simp only [serialOf, hnone, Option.toList_none, List.map_nil]
      · have hnode := NodeList.deref_eq_some_iff.mp hderef
        rw [← Threads.connectionList_settled] at hnode
        have hlive : enabled pre.settled (.invalidLength conn) := ((hplaced key conn).mp hnode).1
        have hserial : Server.exec idleSeconds pre.settled (.invalidLength conn) =
            some (pre.settled.shutdown conn, []) := rfl
        rw [Threads.settled_shutdown]
        refine ⟨placed_exec hplaced hlive hserial, Or.inl
          ⟨.invalidLength conn, _, ?_, hlive, hserial, SameServer.refl _⟩⟩
        simp only [serialOf, hsome, Option.toList_some, List.map_cons, List.map_nil]
      · rw [Threads.settled_setReceiveTime hopening]
        refine ⟨hplaced.setReceiveTime conn now, Or.inr
          ⟨?_, rfl, sameServer_setReceiveTime pre.settled conn now⟩⟩
        simp only [serialOf, hnone, Option.toList_none, List.map_nil]
  | next =>
      obtain ⟨post', hnext, hpost⟩ := Option.map_eq_some_iff.mp hexec
      obtain ⟨rfl, rfl⟩ := Prod.mk.inj hpost
      unfold Threads.next at hnext
      split at hnext
      · obtain ⟨it, -, rfl⟩ := Option.map_eq_some_iff.mp hnext
        exact ⟨hplaced, Or.inr ⟨rfl, rfl, SameServer.refl _⟩⟩
      · exact absurd hnext (by simp)

/-! ## The list and the iterator -/

theorem P2PServer.Placed.mem_keys {σ : P2PServer} (hplaced : σ.Placed) {key : Nat} :
    key ∈ σ.connectionList.keys ↔
      ∃ conn, σ.live conn = true ∧ (σ.context conn).position = key := by
  constructor
  · intro hmem
    obtain ⟨⟨_, conn⟩, hnode, rfl⟩ := List.mem_map.mp hmem
    exact ⟨conn, (hplaced _ conn).mp hnode⟩
  · rintro ⟨conn, hlive, hposition⟩
    exact List.mem_map.mpr ⟨(key, conn), (hplaced key conn).mpr ⟨hlive, hposition⟩, rfl⟩

/-- A node holds one connection. -/
theorem P2PServer.Placed.eq_of_position {σ : P2PServer} (hplaced : σ.Placed) {conn other : Conn}
    (hconn : σ.live conn = true) (hother : σ.live other = true)
    (hposition : (σ.context other).position = (σ.context conn).position) : other = conn := by
  refine NodeList.eq_of_mem_nodes (hplaced.mem_nodes hother) ?_
  rw [hposition]
  exact hplaced.mem_nodes hconn

theorem live_shutdown (σ : P2PServer) (conn other : Conn) :
    (σ.shutdown conn).live other = σ.live other :=
  live_congr (congrFun (congrArg Registry.phase (toRegistry_shutdown σ conn)) other)

/-- An event handled as a whole takes the node of a connection that goes down out of the list,
and leaves the others there. -/
theorem mem_keys_exec {σ σ' : P2PServer} {event : Event} {sends : List CodecSend}
    (hplaced : σ.Placed) (hwhole : event.isWhole = true) (henabled : enabled σ event)
    (hexec : exec idleSeconds σ event = some (σ', sends)) {key : Nat} :
    key ∈ σ'.connectionList.keys ↔ key ∈ σ.connectionList.keys ∧
      ∀ conn, event = .down conn → (σ.context conn).position ≠ key := by
  have hplaced' := placed_exec hplaced henabled hexec
  rw [hplaced'.mem_keys, hplaced.mem_keys]
  cases event with
  | up conn now => exact absurd hwhole (by simp [Event.isWhole])
  | timer now lock => exact absurd hwhole (by simp [Event.isWhole])
  | down conn =>
      simp only [exec, Option.map_eq_some_iff, Prod.mk.injEq] at hexec
      obtain ⟨τ, hdown, rfl, -⟩ := hexec
      obtain ⟨τ', hdown', hlisting⟩ := @down_listing σ conn conn 0 (hplaced.mem_nodes henabled)
      obtain rfl := Option.some.inj (hdown.symm.trans hdown')
      have hposition : ∀ c, (τ.context c).position = (σ.context c).position :=
        fun c => congrFun (congrArg Listing.position hlisting) c
      constructor
      · rintro ⟨c, hlive, hkey⟩
        rw [live_down hdown] at hlive
        rw [hposition] at hkey
        refine ⟨⟨c, hlive.2, hkey⟩, ?_⟩
        intro d hd
        obtain rfl := Event.down.inj hd
        intro hsame
        exact hlive.1 (hplaced.eq_of_position henabled hlive.2 (hkey.trans hsame.symm))
      · rintro ⟨⟨c, hlive, hkey⟩, hnot⟩
        refine ⟨c, (live_down hdown c).mpr ⟨?_, hlive⟩, (hposition c).trans hkey⟩
        rintro rfl
        exact hnot c rfl hkey
  | message conn message time =>
      have hcode := of_decide_eq_false ((Bool.not_eq_true' _).mp hwhole)
      have hposition : ∀ c, (σ'.context c).position = (σ.context c).position :=
        fun c => congrFun (congrArg Listing.position (listing_onMessage hexec hcode)) c
      have hlive : ∀ c, σ'.live c = σ.live c := live_onMessage hexec
      simp [hposition, hlive]
  | invalidLength conn =>
      simp only [exec, Option.some.injEq, Prod.mk.injEq] at hexec
      obtain rfl := hexec.1
      have hposition : ∀ c, ((σ.shutdown conn).context c).position = (σ.context c).position :=
        fun c => congrFun (congrArg Listing.position (listing_shutdown σ conn)) c
      simp [hposition, live_shutdown]

theorem key_of_front {nodes : List (Nat × Conn)} {now : Int} {key : Nat}
    (h : (Sweep.test now (NodeList.front nodes)).key = some key) :
    key ∈ nodes.map Prod.fst := by
  cases nodes with
  | nil => exact absurd h (by simp [NodeList.front, Sweep.key])
  | cons node nodes =>
      obtain ⟨k, conn⟩ := node
      have hkey : k = key := Option.some.inj h
      simp [hkey]

theorem supply_exec {σ σ' : P2PServer} {event : Event} {sends : List CodecSend}
    (hplaced : σ.Placed) (hwhole : event.isWhole = true) (henabled : enabled σ event)
    (hexec : exec idleSeconds σ event = some (σ', sends)) :
    σ'.connectionList.supply = σ.connectionList.supply := by
  cases event with
  | up conn now => exact absurd hwhole (by simp [Event.isWhole])
  | timer now lock => exact absurd hwhole (by simp [Event.isWhole])
  | down conn =>
      simp only [exec, Option.map_eq_some_iff, Prod.mk.injEq] at hexec
      obtain ⟨τ, hdown, rfl, -⟩ := hexec
      obtain ⟨τ', hdown', hlisting⟩ := @down_listing σ conn conn 0 (hplaced.mem_nodes henabled)
      obtain rfl := Option.some.inj (hdown.symm.trans hdown')
      exact congrArg (fun l : Listing => l.list.supply) hlisting
  | message conn message time =>
      have hcode := of_decide_eq_false ((Bool.not_eq_true' _).mp hwhole)
      exact congrArg (fun l : Listing => l.list.supply) (listing_onMessage hexec hcode)
  | invalidLength conn =>
      simp only [exec, Option.some.injEq, Prod.mk.injEq] at hexec
      obtain rfl := hexec.1
      exact congrArg (fun l : Listing => l.list.supply) (listing_shutdown σ conn)

/-- A step of the timer thread leaves the list as it is.  If it gets as far as to leave the
iterator on a node, the node is in the list, and it was there before. -/
theorem timer_step {s' : Threads} {lock : Conn → Bool} (hplaced : s.settled.Placed)
    (hlock : ∀ conn, s.server.live conn = true → lock conn = true)
    (h : s.body idleSeconds lock = some s' ∨ s.next = some s') :
    s'.server.connectionList = s.server.connectionList ∧
      (∀ key, s.sweep.key = some key → key ∈ s.server.connectionList.keys) ∧
      (∀ key, s'.sweep.key = some key → key ∈ s.server.connectionList.keys) ∧
      ∀ now, s'.sweep ≠ .advance now .finish := by
  rcases h with hbody | hnext
  · rcases Threads.body_cases hplaced hlock hbody with
      ⟨rfl, -, hpre⟩ | ⟨now, key, conn, hsweep, hderef, -, hmoved⟩
    · exact ⟨rfl, hpre, fun key hkey => absurd hkey (by simp [Sweep.key]), fun now => by simp⟩
    · have hpre : ∀ k, s.sweep.key = some k → k ∈ s.server.connectionList.keys := by
        intro k hk
        rw [hsweep] at hk
        obtain rfl : key = k := Option.some.inj hk
        rw [← NodeList.deref_isSome_iff, hderef]
        rfl
      -- In both cases the iterator stays where it is.
      rw [hsweep] at hpre
      rcases hmoved with ⟨-, rfl⟩ | ⟨-, rfl⟩
      · refine ⟨congrArg Listing.list (listing_shutdown s.server conn), ?_, hpre, fun _ => by simp⟩
        rw [hsweep]
        exact hpre
      · refine ⟨rfl, ?_, hpre, fun _ => by simp⟩
        rw [hsweep]
        exact hpre
  · unfold Threads.next at hnext
    split at hnext
    · rename_i now key hsweep
      obtain ⟨it, hit, rfl⟩ := Option.map_eq_some_iff.mp hnext
      obtain ⟨before, conn, rest, hnodes, rfl⟩ := NodeList.split_of_next hit
      refine ⟨rfl, ?_, ?_, fun _ => by simp⟩
      · intro k hk
        rw [hsweep] at hk
        obtain rfl : key = k := Option.some.inj hk
        rw [← NodeList.next_isSome_iff, hit]
        rfl
      · intro k hk
        have hmem := key_of_front hk
        rw [NodeList.keys, hnodes, List.map_append, List.map_cons]
        exact List.mem_append_right _ (List.mem_cons_of_mem _ hmem)
    · exact absurd hnext (by simp)

/-- The step takes the node of a connection that goes down out of the list. -/
def Erases (t : Transition Threads ThreadEvent (List CodecSend)) (key : Nat) : Prop :=
  ∃ conn, t.event = .io (.down conn) ∧ (t.pre.server.context conn).position = key

/-- The iterator of the sweep designates a node that has been erased. -/
def Threads.Dangling (s : Threads) : Prop :=
  ∃ key, s.sweep.key = some key ∧ key ∉ s.server.connectionList.keys

theorem Threads.not_dangling_iff :
    ¬ s.Dangling ↔ ∀ key, s.sweep.key = some key → key ∈ s.server.connectionList.keys := by
  simp [Dangling]

theorem P2PServer.Placed.keys_moveBehind {σ σ' : P2PServer} {conn : Conn} (hplaced : σ.Placed)
    (hlive : σ.live conn = true) (h : σ.moveBehind conn = some σ') :
    (∀ key, key ∈ σ'.connectionList.keys ↔ key ∈ σ.connectionList.keys) ∧
      σ'.connectionList.supply = σ.connectionList.supply := by
  have hplaced' := hplaced.moveBehind hlive h
  unfold P2PServer.moveBehind at h
  dsimp only at h
  split at h
  · exact absurd h (by simp)
  · rename_i list hsplice
    split at h
    · obtain rfl := Option.some.inj h
      refine ⟨?_, NodeList.supply_spliceToEnd hsplice⟩
      intro key
      rw [hplaced'.mem_keys, hplaced.mem_keys]
      exact Iff.rfl
    · exact absurd h (by simp)

/-- **What one step does to the list and the iterator.**  A step of the I/O thread leaves the
iterator, and of the nodes there were it takes out at most the one of a connection that goes down.
A step of the timer thread leaves the list, and goes from a node of it to a node of it. -/
theorem list_step (hsound : t.pre.Sound) (hstep : (threads idleSeconds).Step t) :
    (t.post.sweep = t.pre.sweep ∧
        t.pre.server.connectionList.supply ≤ t.post.server.connectionList.supply ∧
        ∀ key < t.pre.server.connectionList.supply,
          (key ∈ t.post.server.connectionList.keys ↔
            key ∈ t.pre.server.connectionList.keys ∧ ¬ Erases t key)) ∨
      t.post.server.connectionList = t.pre.server.connectionList ∧ (∀ key, ¬ Erases t key) ∧
        ¬ t.pre.Dangling ∧ ¬ t.post.Dangling ∧ ∀ now, t.post.sweep ≠ .advance now .finish := by
  obtain ⟨pre, event, output, post⟩ := t
  obtain ⟨henabled, hexec⟩ := hstep
  dsimp only at hsound henabled hexec ⊢
  cases event with
  | push conn now =>
      obtain ⟨rfl, -⟩ := Prod.mk.inj (Option.some.inj hexec)
      refine Or.inl ⟨rfl, Nat.le_succ _, ?_⟩
      intro key hkey
      have hmem : key ∈ (pre.push conn now).server.connectionList.keys ↔
          key ∈ pre.server.connectionList.keys ∨ key = pre.server.connectionList.supply := by
        simp [Threads.push, NodeList.keys, NodeList.pushBack]
      rw [hmem]
      simp [Erases, Nat.ne_of_lt hkey]
  | beat conn message time =>
      obtain ⟨rfl, -⟩ := Prod.mk.inj (Option.some.inj hexec)
      refine Or.inl ⟨rfl, Nat.le_refl _, ?_⟩
      intro key hkey
      simp [Erases, Threads.beat, setReceiveTime, modifyInfo]
  | resume =>
      obtain ⟨server, sweep, pending⟩ := pre
      cases pending with
      | none => exact absurd henabled (by simp [threads, threadsEnabled])
      | some pending =>
          cases pending with
          | context conn info =>
              obtain ⟨rfl, -⟩ := Prod.mk.inj (Option.some.inj hexec)
              refine Or.inl ⟨rfl, Nat.le_refl _, ?_⟩
              intro key hkey
              simp [Erases, modifyInfo]
          | splice conn message time =>
              obtain ⟨σ, hmoved, hpost⟩ := Option.map_eq_some_iff.mp hexec
              obtain ⟨rfl, -⟩ := Prod.mk.inj hpost
              obtain ⟨hkeys, hsupply⟩ :=
                Placed.keys_moveBehind hsound.placed (hsound.live _ rfl) hmoved
              refine Or.inl ⟨rfl, Nat.le_of_eq hsupply.symm, ?_⟩
              intro key hkey
              have hsame : key ∈ σ.connectionList.keys ↔ key ∈ server.connectionList.keys :=
                hkeys key
              simp [Erases, hsame]
  | io event =>
      obtain ⟨hnone, hwhole, hio⟩ := henabled
      obtain ⟨⟨server, sends⟩, hserver, hpost⟩ := Option.map_eq_some_iff.mp hexec
      obtain ⟨rfl, -⟩ := Prod.mk.inj hpost
      have hplaced := hsound.placed
      rw [Threads.settled_of_none hnone] at hplaced
      have hsupply := supply_exec hplaced hwhole hio hserver
      refine Or.inl ⟨rfl, Nat.le_of_eq hsupply.symm, ?_⟩
      intro key hkey
      rw [mem_keys_exec hplaced hwhole hio hserver]
      simp [Erases]
  | fire now =>
      have hrest : pre.sweep = .rest := henabled
      obtain ⟨rfl, -⟩ := Prod.mk.inj (Option.some.inj hexec)
      refine Or.inr ⟨rfl, by simp [Erases], ?_, ?_, by simp⟩
      · rw [Threads.not_dangling_iff, hrest]
        simp [Sweep.key]
      · rw [Threads.not_dangling_iff]
        intro key hkey
        exact key_of_front hkey
  | body lock =>
      obtain ⟨post', hbody, hpost⟩ := Option.map_eq_some_iff.mp hexec
      obtain ⟨rfl, -⟩ := Prod.mk.inj hpost
      obtain ⟨hlist, hpre, hpost, hfinish⟩ :=
        timer_step hsound.placed henabled.2 (Or.inl hbody)
      refine Or.inr ⟨hlist, by simp [Erases], ?_, ?_, hfinish⟩
      · exact Threads.not_dangling_iff.mpr hpre
      · rw [Threads.not_dangling_iff, hlist]
        exact hpost
  | next =>
      obtain ⟨post', hnext, hpost⟩ := Option.map_eq_some_iff.mp hexec
      obtain ⟨rfl, -⟩ := Prod.mk.inj hpost
      obtain ⟨hlist, hpre, hpost, hfinish⟩ :=
        @timer_step idleSeconds pre post' (fun _ => true) hsound.placed (fun _ _ => rfl)
          (Or.inr hnext)
      refine Or.inr ⟨hlist, by simp [Erases], ?_, ?_, hfinish⟩
      · exact Threads.not_dangling_iff.mpr hpre
      · rw [Threads.not_dangling_iff, hlist]
        exact hpost

/-- What is underway after a step concerns a live connection. -/
theorem pending_step (hsound : t.pre.Sound) (hstep : (threads idleSeconds).Step t) :
    (∀ pending, t.post.pending = some pending → t.post.server.live pending.conn = true) ∧
      ∀ conn message time, t.post.pending = some (.splice conn message time) →
        isHeartBeat message = true := by
  obtain ⟨pre, event, output, post⟩ := t
  obtain ⟨henabled, hexec⟩ := hstep
  dsimp only at hsound henabled hexec ⊢
  -- The timer thread leaves both the handler and the connections alone.
  have hkeep : post.pending = pre.pending → (∀ c, post.server.live c = pre.server.live c) →
      (∀ pending, post.pending = some pending → post.server.live pending.conn = true) ∧
        ∀ conn message time, post.pending = some (.splice conn message time) →
          isHeartBeat message = true := by
    intro hpending hlive
    rw [hpending]
    refine ⟨?_, hsound.heartBeat⟩
    intro pending hunderway
    rw [hlive]
    exact hsound.live pending hunderway
  cases event with
  | push conn now =>
      obtain ⟨rfl, -⟩ := Prod.mk.inj (Option.some.inj hexec)
      refine ⟨?_, by simp [Threads.push]⟩
      intro pending hpending
      rw [← Option.some.inj hpending]
      simp [Threads.push, Pending.conn, P2PServer.live, setState]
  | beat conn message time =>
      obtain ⟨rfl, -⟩ := Prod.mk.inj (Option.some.inj hexec)
      obtain ⟨-, hbeat, hlive⟩ := henabled
      constructor
      · intro pending hpending
        rw [← Option.some.inj hpending]
        exact hlive
      · intro c m n hpending
        obtain ⟨-, rfl, -⟩ := Pending.splice.inj (Option.some.inj hpending)
        exact hbeat
  | resume =>
      obtain ⟨server, sweep, pending⟩ := pre
      have hnone : post.pending = none := by
        cases pending with
        | none => exact absurd henabled (by simp [threads, threadsEnabled])
        | some pending =>
            cases pending with
            | context conn info =>
                obtain ⟨rfl, -⟩ := Prod.mk.inj (Option.some.inj hexec)
                rfl
            | splice conn message time =>
                obtain ⟨σ, -, hpost⟩ := Option.map_eq_some_iff.mp hexec
                obtain ⟨rfl, -⟩ := Prod.mk.inj hpost
                rfl
      simp [hnone]
  | io event =>
      obtain ⟨⟨server, sends⟩, -, hpost⟩ := Option.map_eq_some_iff.mp hexec
      obtain ⟨rfl, -⟩ := Prod.mk.inj hpost
      simp [henabled.1]
  | fire now =>
      obtain ⟨rfl, -⟩ := Prod.mk.inj (Option.some.inj hexec)
      exact hkeep rfl fun _ => rfl
  | body lock =>
      obtain ⟨post', hbody, hpost⟩ := Option.map_eq_some_iff.mp hexec
      obtain ⟨rfl, -⟩ := Prod.mk.inj hpost
      rcases Threads.body_cases hsound.placed henabled.2 hbody with
        ⟨rfl, -⟩ | ⟨now, key, conn, -, -, -, ⟨-, rfl⟩ | ⟨-, rfl⟩⟩
      · exact hkeep rfl fun _ => rfl
      · exact hkeep rfl (live_shutdown pre.server conn)
      · exact hkeep rfl fun _ => rfl
  | next =>
      obtain ⟨post', hnext, hpost⟩ := Option.map_eq_some_iff.mp hexec
      obtain ⟨rfl, -⟩ := Prod.mk.inj hpost
      unfold Threads.next at hnext
      split at hnext
      · obtain ⟨it, -, rfl⟩ := Option.map_eq_some_iff.mp hnext
        exact hkeep rfl fun _ => rfl
      · exact absurd hnext (by simp)

theorem sound_step (hsound : t.pre.Sound) (hstep : (threads idleSeconds).Step t) :
    t.post.Sound := by
  obtain ⟨hlive, hbeat⟩ := pending_step hsound hstep
  refine ⟨(settled_step hsound hstep).1, hlive, hbeat, ?_, ?_⟩
  · rcases list_step hsound hstep with ⟨hsweep, hsupply, -⟩ | ⟨-, -, -, hpost, -⟩
    · rw [hsweep]
      intro key hkey
      exact Nat.lt_of_lt_of_le (hsound.designates key hkey) hsupply
    · intro key hkey
      exact t.post.server.connectionList.keys_lt key (Threads.not_dangling_iff.mp hpost key hkey)
  · rcases list_step hsound hstep with ⟨hsweep, -⟩ | ⟨-, -, -, -, hfinish⟩
    · rw [hsweep]
      exact hsound.inside
    · exact hfinish

theorem threads_sound (hreach : (threads idleSeconds).Reachable s) : s.Sound := by
  refine hreach.invariant Threads.Sound ?_ fun t hstep hsound => sound_step hsound hstep
  refine ⟨placed_initial, ?_, ?_, ?_, ?_⟩ <;> simp [threads, Threads.initial, Sweep.key]

end

end Server
end StupidP2P
