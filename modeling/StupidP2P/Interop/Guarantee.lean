import Mathlib.Logic.Relation
import StupidP2P.Interop.EndToEnd
import StupidP2P.Server.Delivery

/-!
# What a subscriber can rely on

`StupidP2P.Interop.EndToEnd` says that nothing is stored for an application that was not sent
to it.  Here is the other direction.  Once a subscriber is in the list of a publisher, and as
long as neither of them ends it, every payload that the publisher's API accepts is stored for
the subscriber's application as soon as nothing is under way any more, and has been returned to
it once it has taken all there is (`published_stored`).  That nothing is under way can be reached
from every state (`system_drains`), unless the server runs into the undefined behaviour of
`sendDataFunc`.
-/

namespace StupidP2P
namespace Interop

open Foundation
open Foundation.Framing
open Server (P2PServer Conn Message CodecSend dataPayloads isData messagesOf writtenTo framesTo
  Parts LengthHeaderCodec.accepts)

section

variable {setting : Setting} {w w₁ : World} {p s : Conn}

/-! ## What the steps of the system keep -/

/-- Between two states, what a client has accepted is not taken back, and it does not change
its API. -/
structure Kept (c : Conn) (w w' : World) : Prop where
  accepted : w.accepted c <+: w'.accepted c
  isC : (w'.peer c).isC = (w.peer c).isC

namespace Kept

variable {w' w'' : World} {c d : Conn}

theorem of_eq (haccepted : w'.accepted = w.accepted) (hpeer : w'.peer = w.peer) :
    Kept c w w' := by
  refine ⟨⟨[], ?_⟩, by rw [hpeer]⟩
  rw [List.append_nil, haccepted]

theorem trans (h : Kept c w w') (h' : Kept c w' w'') : Kept c w w'' :=
  ⟨h.accepted.trans h'.accepted, h'.isC.trans h.isC⟩

theorem setPeer {peer : Peer} (hsame : peer.isC = (w.peer d).isC) :
    Kept c w (w.setPeer d peer) := by
  refine ⟨List.prefix_rfl, ?_⟩
  show (Function.update w.peer d peer c).isC = _
  by_cases hc : c = d
  · rw [hc, Function.update_self]
    exact hsame
  · rw [Function.update_of_ne hc]

theorem accept (messages : List Message) : Kept c w (w.accept d messages) := by
  refine ⟨?_, rfl⟩
  show w.accepted c <+: Function.update w.accepted d (w.accepted d ++ messages) c
  by_cases hc : c = d
  · rw [hc, Function.update_self]
    exact List.prefix_append _ _
  · refine ⟨[], ?_⟩
    rw [List.append_nil, Function.update_of_ne hc]

theorem write (bytes : List UInt8) : Kept c w (w.write d bytes) :=
  .of_eq rfl rfl

theorem deliver (count : Nat) : Kept c w (w.deliver d count) :=
  .of_eq rfl rfl

end Kept

/-- **What a step does to a connection**: it keeps the API of the client there and what the
client has accepted. -/
theorem kept_exec {w' : World} {event : WorldEvent} (hexec : w.exec setting event = some w')
    (c : Conn) : Kept c w w' := by
  cases event with
  | up d now | down d | timer now lock =>
      obtain ⟨result, -, rfl⟩ := Option.map_eq_some_iff.mp hexec
      exact .of_eq rfl rfl
  | read d count time =>
      simp only [World.exec, World.serverRead, Option.bind_eq_some_iff, Option.map_eq_some_iff]
        at hexec
      obtain ⟨result, -, served, -, rfl⟩ := hexec
      exact .of_eq rfl rfl
  | call d malloc fd command data =>
      obtain ⟨⟨peer, messages⟩, hcall, rfl⟩ := Option.map_eq_some_iff.mp hexec
      exact (Kept.setPeer (Peer.isC_call hcall)).trans (.accept messages)
  | transmit d =>
      obtain ⟨⟨peer, bytes⟩, hsend, rfl⟩ := Option.map_eq_some_iff.mp hexec
      exact (Kept.setPeer (Peer.isC_transmit hsend)).trans (.write bytes)
  | command d code data env =>
      obtain ⟨⟨peer, bytes⟩, hsend, rfl⟩ := Option.map_eq_some_iff.mp hexec
      exact ((Kept.setPeer (Peer.isC_sendCommand hsend)).trans (.write bytes)).trans (.accept _)
  | recv d count =>
      obtain ⟨peer, hrecv, rfl⟩ := Option.map_eq_some_iff.mp hexec
      exact (Kept.deliver count).trans (.setPeer (Peer.isC_recv hrecv))
  | recvDataCall d =>
      obtain ⟨peer, hcall, rfl⟩ := Option.map_eq_some_iff.mp hexec
      exact Kept.setPeer (Peer.isC_recvDataCall hcall)
  | recvDataRound d =>
      obtain ⟨peer, hround, rfl⟩ := Option.map_eq_some_iff.mp hexec
      exact Kept.setPeer (Peer.isC_recvDataRound hround)

/-- What is kept between two states of a run. -/
theorem kept_run {before during : List (Transition World WorldEvent Unit)}
    (hbefore : (network setting).Run before w₁)
    (hrun : (network setting).Run (before ++ during) w) (c : Conn) : Kept c w₁ w := by
  refine Machine.Run.between (Kept c) (fun _ => .of_eq rfl rfl) (fun _ _ _ => .trans) ?_
    hbefore hrun
  intro t _ hstep _
  exact kept_exec (Machine.Step.of_map (fun _ _ => rfl) hstep) c

/-! ## Delivery -/

/-- The run of the server goes on from the one of an earlier state. -/
theorem wired_between {before during : List (Transition World WorldEvent Unit)}
    (hbefore : (network setting).Run before w₁)
    (hrun : (network setting).Run (before ++ during) w) :
    ∃ first more, (Server.machine setting.idleSeconds).Run first w₁.server ∧
      (Server.machine setting.idleSeconds).Run (first ++ more) w.server ∧
      more.map Transition.event = serverEventsOf during ∧
      (∀ c, Wired setting w₁ first c) ∧ ∀ c, Wired setting w (first ++ more) c := by
  obtain ⟨first, hfirst, hevents₁, hwired₁⟩ := run_refines hbefore
  obtain ⟨trace, htrace, hevents, hwired⟩ := run_refines hrun
  rw [serverEventsOf, List.flatMap_append] at hevents
  obtain ⟨first', more, rfl, hfirst', hmore⟩ := List.map_eq_append_iff.mp hevents
  obtain ⟨σ₁, hσ₁⟩ := htrace.first
  obtain ⟨rfl, -⟩ := hσ₁.unique hfirst (hfirst'.trans hevents₁.symm)
  exact ⟨first', more, hfirst, htrace, hmore, hwired₁, hwired⟩

/-- What calls of `stupid_p2p_recv_data` have returned. -/
def Peer.returned : Peer → List (List UInt8)
  | .c _ _ reader => reader.returned.map Client.RecvData.data
  | .python _ => []

/-- The application at a C client has taken all there is: no call is under way, and the list is
empty. -/
def Peer.allTaken : Peer → Bool
  | .c receiver _ reader => reader.dataBuf.isNone && receiver.node.recvDataList.isEmpty
  | .python _ => false

theorem Peer.returned_of_allTaken {peer : Peer} (h : peer.allTaken = true) :
    peer.returned = peer.stored := by
  cases peer with
  | c receiver buf reader =>
      rw [allTaken, Bool.and_eq_true, Option.isNone_iff_eq_none, List.isEmpty_iff] at h
      rw [returned, stored, h.1, h.2, Option.getD_none, List.append_nil, List.append_nil]
  | python client => exact absurd h Bool.false_ne_true

/-- **Everything published is stored, and returned.**  Let `s` be in the list of `p`, and let
neither end that afterwards.  When nothing of `p`'s is on its way to the server any more, nothing
is on its way to `s`, and `s` is still connected, then `s` has stored for its application all
payloads that `p`'s API accepted in the meantime, in order, behind those it had before; and if
the application has taken all there is, calls of `stupid_p2p_recv_data` have returned them.  `s`
uses the C API and gets the memory it asks for. -/
theorem published_stored {before during : List (Transition World WorldEvent Unit)}
    (hbefore : (network setting).Run before w₁)
    (hrun : (network setting).Run (before ++ during) w)
    (hlinked : s ∈ (w₁.server.context p).sendToList.values)
    (hstay : ∀ event ∈ serverEventsOf during, ¬ Parts p s event)
    (hopen : w.server.connected s = true)
    (hup : (w.peer p).waiting = 0 ∧ w.toServer p = []) (hdown : w.toClient s = [])
    (hC : (w.peer s).isC = true) (hcalloc : ∀ k size, setting.calloc s k size = true) :
    ∃ published old fresh, w.accepted p = w₁.accepted p ++ published ∧
      (w.peer s).stored = old ++ fresh ∧ (w₁.peer s).stored <+: old ∧
      (dataPayloads published).Sublist fresh ∧
      ((w.peer s).allTaken = true → (w.peer s).returned = old ++ fresh) := by
  obtain ⟨first, more, hfirst, hmore, hevents, hwired₁, hwired⟩ := wired_between hbefore hrun
  obtain ⟨published, hpublished⟩ := (kept_run hbefore hrun p).accepted
  have hC₁ : (w₁.peer s).isC = true := (kept_run hbefore hrun s).isC ▸ hC
  obtain ⟨receiver, buf, reader, hpeer⟩ := Peer.isC_iff.mp hC
  obtain ⟨receiver₁, buf₁, reader₁, hpeer₁⟩ := Peer.isC_iff.mp hC₁
  -- All that was sent to `s` was written, has arrived, and was stored.
  have hstored : (w.peer s).stored =
      dataPayloads (framesTo s first) ++ dataPayloads (framesTo s more) := by
    have hwritten := (Server.writtenTo_first hmore s).2
      (Or.inr (Server.P2PServer.connected_eq_true_iff.mp hopen))
    rw [(hwired s).stored_all hcalloc hpeer,
      (hwired s).arrived_all (relayed_of_wired hmore hwired s) hdown, hwritten,
      Server.framesTo_append, Server.dataPayloads_append]
  refine ⟨published, dataPayloads (framesTo s first), dataPayloads (framesTo s more),
    hpublished.symm, hstored, ?_, ?_, ?_⟩
  · rw [(hwired₁ s).stored_all hcalloc hpeer₁]
    have harrived := (hwired₁ s).arrived_first (relayed_of_wired hfirst hwired₁ s)
    exact ((harrived.trans (Server.writtenTo_first hfirst s).1).filter isData).map _
  · -- The server has taken what `p` accepted since, and forwarded the data in it.
    have htaken := ((hwired p).messagesOf_all hup.1 hup.2).1
    obtain ⟨rest, hrest⟩ := (hwired₁ p).messagesOf_first.1
    rw [Server.messagesOf_append, ← hpublished, ← hrest, List.append_assoc] at htaken
    have hpublic : messagesOf p more = rest ++ published := List.append_cancel_left htaken
    have hforwarded := Server.data_sublist_framesTo hmore hfirst hlinked (by
      intro u hu
      refine hstay u.event ?_
      rw [← hevents]
      exact List.mem_map_of_mem hu)
    have hsub : (published.filter isData).Sublist ((messagesOf p more).filter isData) := by
      rw [hpublic, List.filter_append]
      exact List.sublist_append_right _ _
    exact (hsub.trans hforwarded).map _
  · intro htaken
    exact (Peer.returned_of_allTaken htaken).trans hstored

instance (p s : Conn) : DecidablePred (Parts p s) := by
  intro event
  cases event <;> unfold Parts <;> infer_instance

/-- A C client at connection 2 subscribes to `"a"`, under which the one at 0 is registered. -/
def linksUp : List WorldEvent :=
  [.up 0 0, .up 2 0, .call 0 true 1 0x01 [97], .transmit 0, .read 0 6 0,
    .call 2 true 1 0x02 [97], .transmit 2, .read 2 6 0]

/-- Then the one at 0 sends `"x"`, and the application at 2 calls `stupid_p2p_recv_data`, whose
second round finds the list empty. -/
def publishesX : List WorldEvent :=
  [.call 0 true 1 0x03 [120], .transmit 0, .read 0 6 0, .recv 2 12,
    .recvDataCall 2, .recvDataRound 2, .recvDataRound 2]

/-- The run is made, and the states after the two parts are these. -/
theorem publishesX_reached :
    ∃ before during w₁ w, (network mixed).Run before w₁ ∧
      (network mixed).Run (before ++ during) w ∧
      2 ∈ (w₁.server.context 0).sendToList.values ∧
      (∀ event ∈ serverEventsOf during, ¬ Parts 0 2 event) ∧ w.server.connected 2 = true ∧
      ((w.peer 0).waiting = 0 ∧ w.toServer 0 = []) ∧ w.toClient 2 = [] ∧
      (w.peer 2).isC = true ∧ w.accepted 0 = w₁.accepted 0 ++ [[0x03, 120]] ∧
      (w.peer 2).allTaken = true := by
  have hreplay : ((network mixed).replay worldReady linksUp (World.initial mixed)).any
      (fun w₁ => ((network mixed).replay worldReady publishesX w₁).any fun w =>
        decide (2 ∈ (w₁.server.context 0).sendToList.values) &&
        (decide (∀ event ∈ serverEventsOf ((network mixed).record publishesX w₁),
          ¬ Parts 0 2 event) && (w.server.connected 2 &&
        (decide ((w.peer 0).waiting = 0 ∧ w.toServer 0 = []) && (decide (w.toClient 2 = []) &&
        ((w.peer 2).isC && (decide (w.accepted 0 = w₁.accepted 0 ++ [[0x03, 120]]) &&
        (w.peer 2).allTaken))))))) = true := by
    decide +kernel
  have hready : ∀ w event, worldReady w event = true → (network mixed).enabled w event :=
    fun _ _ h => enabled_of_worldReady h
  obtain ⟨w₁, hbefore, -, hnext⟩ := Machine.Run.of_replay hready .start hreplay
  obtain ⟨w, hrun, -, hend⟩ := Machine.Run.of_replay hready hbefore hnext
  simp only [Bool.and_eq_true, decide_eq_true_iff] at hend
  exact ⟨_, _, w₁, w, hbefore, hrun, hend⟩

/-- `"x"` has been returned to the application at 2. -/
theorem published_stored_publishesX :
    ∃ w, (network mixed).Reachable w ∧ [[120]].Sublist (w.peer 2).returned := by
  obtain ⟨before, during, w₁, w, hbefore, hrun, hlinked, hstay, hopen, hup, hdown, hC, haccepted,
    htaken⟩ := publishesX_reached
  obtain ⟨published, old, fresh, hpublished, -, -, hsub, hreturned⟩ :=
    published_stored hbefore hrun hlinked hstay hopen hup hdown hC fun _ _ => rfl
  obtain rfl : published = [[0x03, 120]] :=
    List.append_cancel_left (hpublished.symm.trans haccepted)
  refine ⟨w, ⟨_, hrun⟩, ?_⟩
  rw [hreturned htaken]
  exact hsub.trans (List.sublist_append_right _ _)

/-! ## Nothing stays under way -/

/-- The steps that carry bytes: of the send thread, of the server's reads and of the clients'. -/
def WorldEvent.isTransport : WorldEvent → Bool
  | .transmit _ => true
  | .read _ _ _ => true
  | .recv _ _ => true
  | _ => false

/-- One such step. -/
def Transport (setting : Setting) (w w' : World) : Prop :=
  ∃ event : WorldEvent, event.isTransport = true ∧ networkEnabled w event ∧
    w.exec setting event = some w'

/-- The next read of the server is undefined. -/
def Stuck (w : World) : Prop :=
  ∃ event : WorldEvent, event.isTransport = true ∧ networkEnabled w event ∧
    ReadsUndefined w event

/-- Nothing of the client at `c` is on its way to the server. -/
def World.AllSent (w : World) (c : Conn) : Prop :=
  (w.peer c).waiting = 0 ∧ w.toServer c = []

theorem Transport.reachable {w' : World} (h : Relation.ReflTransGen (Transport setting) w w')
    (hreach : (network setting).Reachable w) : (network setting).Reachable w' := by
  induction h with
  | refl => exact hreach
  | tail _ hstep ih =>
      obtain ⟨event, -, henabled, hexec⟩ := hstep
      have hone : (network setting).exec _ event = some (_, ()) :=
        Option.map_eq_some_iff.mpr ⟨_, hexec, rfl⟩
      exact ih.exec event henabled hone

/-- A round of the send thread leaves one command less. -/
theorem transmit_one (hreach : (network setting).Reachable w) (c : Conn)
    (hwaiting : (w.peer c).waiting ≠ 0) :
    ∃ w', Transport setting w w' ∧ (w'.peer c).waiting + 1 = (w.peer c).waiting ∧
      w'.server = w.server ∧ ∀ d, d ≠ c → w'.peer d = w.peer d ∧ w'.toServer d = w.toServer d := by
  obtain ⟨trace, hrun, hwired⟩ := reachable_refines hreach
  obtain ⟨sent, pending, read, -, hcarries, -⟩ := (hwired c).way_up
  have hreads := (hwired c).reads
  have hcount := hcarries.waiting_eq
  cases hpeer : w.peer c with
  | python client =>
      rw [hpeer] at hwaiting
      exact absurd rfl hwaiting
  | c receiver buf reader =>
      rw [hpeer] at hcarries hreads hcount
      obtain ⟨peer, more, htransmit, hnext, -⟩ := transmit_c hcarries hreads
      refine ⟨(w.setPeer c peer).write c more, ⟨.transmit c, rfl, ⟨_, _, _, hpeer⟩, ?_⟩, ?_, rfl,
        ?_⟩
      · simp only [World.exec, hpeer, htransmit, Option.map_some]
      · have hpeer' : ((w.setPeer c peer).write c more).peer c = peer :=
          Function.update_self _ _ _
        rw [hpeer', hnext.waiting_eq, hcount, List.length_tail]
        rw [hpeer] at hwaiting
        omega
      · intro d hd
        exact ⟨Function.update_of_ne hd _ _, Function.update_of_ne hd _ _⟩

/-- The send thread empties its ring. -/
theorem transmit_all (hreach : (network setting).Reachable w) (c : Conn) :
    ∃ w', Relation.ReflTransGen (Transport setting) w w' ∧ (w'.peer c).waiting = 0 ∧
      w'.server = w.server ∧ ∀ d, d ≠ c → w'.peer d = w.peer d ∧ w'.toServer d = w.toServer d := by
  generalize hn : (w.peer c).waiting = n
  induction n generalizing w with
  | zero => exact ⟨w, .refl, hn, rfl, fun _ _ => ⟨rfl, rfl⟩⟩
  | succ n ih =>
      obtain ⟨w₁, hone, hless, hserver, hothers⟩ := transmit_one hreach c (by omega)
      obtain ⟨w', hmore, hzero, hserver', hothers'⟩ :=
        ih (Transport.reachable (.single hone) hreach) (by omega)
      refine ⟨w', .head hone hmore, hzero, hserver'.trans hserver, ?_⟩
      intro d hd
      exact ⟨(hothers' d hd).1.trans (hothers d hd).1, (hothers' d hd).2.trans (hothers d hd).2⟩

/-- The server reads all there is. -/
theorem read_all (hreach : (network setting).Reachable w) {c : Conn}
    (hlive : w.server.live c = true) :
    Stuck w ∨ ∃ w', Relation.ReflTransGen (Transport setting) w w' ∧ w'.toServer c = [] ∧
      w'.peer = w.peer ∧ (∀ d, w'.server.live d = w.server.live d) ∧
      ∀ d, d ≠ c → w'.toServer d = w.toServer d := by
  by_cases hempty : w.toServer c = []
  · exact Or.inr ⟨w, .refl, hempty, rfl, fun _ => rfl, fun _ _ => rfl⟩
  · have hlength : 1 ≤ (w.toServer c).length := List.length_pos_iff.mpr hempty
    have henabled : networkEnabled w (.read c (w.toServer c).length 0) :=
      ⟨hlive, hlength, Nat.le_refl _⟩
    rcases @serverRead_eq_some setting w c hreach (w.toServer c).length 0 hlive with
      ⟨hundefined, -⟩ | ⟨-, w', hread, hpeer, hstays, hserver⟩
    · exact Or.inl ⟨_, rfl, henabled, hundefined⟩
    · refine Or.inr ⟨w', .single ⟨_, rfl, henabled, hread⟩, ?_, hpeer, hstays, ?_⟩
      · rw [hserver, Function.update_self, List.drop_length]
      · intro d hd
        rw [hserver, Function.update_of_ne hd]

/-- The way up from one client is cleared, and stays clear from the others. -/
theorem send_all (hreach : (network setting).Reachable w) {c : Conn}
    (hlive : w.server.live c = true) :
    ∃ w', Relation.ReflTransGen (Transport setting) w w' ∧
      (Stuck w' ∨ w'.AllSent c ∧ (∀ d, w.AllSent d → w'.AllSent d) ∧
        ∀ d, w'.server.live d = w.server.live d) := by
  obtain ⟨w₁, htransmit, hzero, hserver, hothers⟩ := transmit_all hreach c
  have hreach₁ := Transport.reachable htransmit hreach
  rw [← hserver] at hlive
  rcases read_all hreach₁ hlive with hstuck | ⟨w', hread, hempty, hpeer, hstays, hserver'⟩
  · exact ⟨w₁, htransmit, Or.inl hstuck⟩
  · have hsent : w'.AllSent c := ⟨(congrFun hpeer c).symm ▸ hzero, hempty⟩
    refine ⟨w', htransmit.trans hread, Or.inr ⟨hsent, ?_, ?_⟩⟩
    · intro d hd
      by_cases hc : d = c
      · rw [hc]
        exact hsent
      · rw [World.AllSent, hpeer, (hothers d hc).1, hserver' d hc, (hothers d hc).2]
        exact hd
    · intro d
      rw [hstays, hserver]

/-- A client reads some of what is under way to it. -/
theorem recv_one (hreach : (network setting).Reachable w) {s : Conn} (hsome : w.toClient s ≠ []) :
    ∃ w', Transport setting w w' ∧ (w'.toClient s).length < (w.toClient s).length ∧
      (∀ d, w.AllSent d → w'.AllSent d) ∧ ∀ d, d ≠ s → w'.toClient d = w.toClient d := by
  obtain ⟨trace, hrun, hwired⟩ := reachable_refines hreach
  have hpos : 1 ≤ (w.toClient s).length := List.length_pos_iff.mpr hsome
  have hlimit : 1 ≤ (w.peer s).recvLimit := by
    cases w.peer s <;> simp [Peer.recvLimit]
  -- One byte will do.
  obtain ⟨count, hcount, hthere, hmost⟩ : ∃ count, 1 ≤ count ∧ count ≤ (w.toClient s).length ∧
      count ≤ (w.peer s).recvLimit := ⟨1, Nat.le_refl 1, hpos, hlimit⟩
  have hlength : ((w.toClient s).take count).length = count := by
    rw [List.length_take]
    omega
  have hsplit : w.arrived s ++ (w.toClient s).take count ++ (w.toClient s).drop count =
      encodeAll (writtenTo s trace) := by
    rw [List.append_assoc, List.take_append_drop]
    exact (hwired s).way_down
  obtain ⟨peer, hrecv, -, hsame⟩ :=
    @Peer.Decodes.recv _ (setting.consumed s) _ _ ((w.toClient s).take count) _
      (hwired s).reads (relayed_of_wired hrun hwired s) ⟨_, hsplit⟩ (by omega)
  refine ⟨(w.deliver s count).setPeer s peer, ⟨.recv s count, rfl, ⟨hcount, hthere, hmost⟩, ?_⟩,
    ?_, ?_, ?_⟩
  · simp only [World.exec, hrecv, Option.map_some]
  · show (Function.update w.toClient s ((w.toClient s).drop count) s).length < _
    rw [Function.update_self, List.length_drop]
    omega
  · intro d hd
    refine ⟨?_, hd.2⟩
    show (Function.update w.peer s peer d).waiting = 0
    by_cases hc : d = s
    · rw [hc, Function.update_self, hsame.waiting_eq, ← hc]
      exact hd.1
    · rw [Function.update_of_ne hc]
      exact hd.1
  · intro d hd
    exact Function.update_of_ne hd _ _

/-- The way down to one client is cleared. -/
theorem recv_all (hreach : (network setting).Reachable w) (s : Conn) :
    ∃ w', Relation.ReflTransGen (Transport setting) w w' ∧ w'.toClient s = [] ∧
      (∀ d, w.AllSent d → w'.AllSent d) ∧ ∀ d, w.toClient d = [] → w'.toClient d = [] := by
  generalize hn : (w.toClient s).length = n
  induction n using Nat.strong_induction_on generalizing w with
  | _ n ih =>
      by_cases hempty : w.toClient s = []
      · exact ⟨w, .refl, hempty, fun _ h => h, fun _ h => h⟩
      · obtain ⟨w₁, hone, hless, hsent, hothers⟩ := recv_one hreach hempty
        obtain ⟨w', hmore, hzero, hsent', hothers'⟩ :=
          ih _ (hn ▸ hless) (Transport.reachable (.single hone) hreach) rfl
        refine ⟨w', .head hone hmore, hzero, fun d hd => hsent' d (hsent d hd), ?_⟩
        intro d hd
        by_cases hc : d = s
        · rw [hc]
          exact hzero
        · exact hothers' d ((hothers d hc).trans hd)

/-- The ways up from several clients are cleared. -/
theorem send_each (hreach : (network setting).Reachable w) (conns : List Conn)
    (hlive : ∀ c ∈ conns, w.server.live c = true) :
    ∃ w', Relation.ReflTransGen (Transport setting) w w' ∧
      (Stuck w' ∨ (∀ c ∈ conns, w'.AllSent c) ∧ ∀ d, w.AllSent d → w'.AllSent d) := by
  induction conns generalizing w with
  | nil => exact ⟨w, .refl, Or.inr ⟨by simp, fun _ h => h⟩⟩
  | cons c conns ih =>
      obtain ⟨w₁, hone, hstuck | ⟨hsent, hkept, hstays⟩⟩ := send_all hreach (hlive c (by simp))
      · exact ⟨w₁, hone, Or.inl hstuck⟩
      · have hlive₁ : ∀ d ∈ conns, w₁.server.live d = true := by
          intro d hd
          rw [hstays]
          exact hlive d (List.mem_cons_of_mem _ hd)
        obtain ⟨w', hmore, hstuck | ⟨hall, hkept'⟩⟩ := ih (Transport.reachable hone hreach) hlive₁
        · exact ⟨w', hone.trans hmore, Or.inl hstuck⟩
        · refine ⟨w', hone.trans hmore, Or.inr ⟨?_, fun d hd => hkept' d (hkept d hd)⟩⟩
          exact List.forall_mem_cons.mpr ⟨hkept' c hsent, hall⟩

/-- The ways down to several clients are cleared. -/
theorem recv_each (hreach : (network setting).Reachable w) (conns : List Conn) :
    ∃ w', Relation.ReflTransGen (Transport setting) w w' ∧ (∀ c ∈ conns, w'.toClient c = []) ∧
      (∀ d, w.AllSent d → w'.AllSent d) ∧ ∀ d, w.toClient d = [] → w'.toClient d = [] := by
  induction conns generalizing w with
  | nil => exact ⟨w, .refl, by simp, fun _ h => h, fun _ h => h⟩
  | cons c conns ih =>
      obtain ⟨w₁, hone, hempty, hsent, hkept⟩ := recv_all hreach c
      obtain ⟨w', hmore, hall, hsent', hkept'⟩ := ih (Transport.reachable hone hreach)
      refine ⟨w', hone.trans hmore, ?_, fun d hd => hsent' d (hsent d hd),
        fun d hd => hkept' d (hkept d hd)⟩
      exact List.forall_mem_cons.mpr ⟨hkept' c hempty, hall⟩

/-- **The system drains.**  From every state it reaches, steps that carry bytes lead to one in
which nothing is under way from or to given live connections, unless the server comes to a
message for which `sendDataFunc` is undefined. -/
theorem system_drains (hreach : (network setting).Reachable w) (conns : List Conn)
    (hlive : ∀ c ∈ conns, w.server.live c = true) :
    ∃ w', Relation.ReflTransGen (Transport setting) w w' ∧
      (Stuck w' ∨ ∀ c ∈ conns, w'.AllSent c ∧ w'.toClient c = []) := by
  -- First all ways up, since the server's answers to them go down.
  obtain ⟨w₁, hup, hstuck | ⟨hsent, -⟩⟩ := send_each hreach conns hlive
  · exact ⟨w₁, hup, Or.inl hstuck⟩
  · obtain ⟨w', hdown, hempty, hkept, -⟩ := recv_each (Transport.reachable hup hreach) conns
    refine ⟨w', hup.trans hdown, Or.inr ?_⟩
    intro c hc
    exact ⟨hkept c (hsent c hc), hempty c hc⟩

/-- A command that waits in the client at 0 gets to the server, and its answer back. -/
theorem system_drains_linksUp :
    ∃ w w', (network mixed).Reachable w ∧ (w.peer 0).waiting = 1 ∧
      Relation.ReflTransGen (Transport mixed) w w' ∧
      (Stuck w' ∨ ∀ c ∈ [0, 2], w'.AllSent c ∧ w'.toClient c = []) := by
  have hreplay : ((network mixed).replay worldReady (linksUp ++ publishesX.take 1)
      (World.initial mixed)).any (fun w => decide ((w.peer 0).waiting = 1) &&
        [0, 2].all w.server.live) = true := by
    decide +kernel
  obtain ⟨w, hrun, -, hend⟩ := Machine.Run.of_replay
    (fun _ _ hready => enabled_of_worldReady hready) .start hreplay
  rw [Bool.and_eq_true, decide_eq_true_iff, List.all_eq_true] at hend
  obtain ⟨w', hsteps, hclear⟩ := system_drains ⟨_, hrun⟩ [0, 2] hend.2
  exact ⟨w, w', ⟨_, hrun⟩, hend.1, hsteps, hclear⟩

end

end Interop
end StupidP2P
