import StupidP2P.Interop.Peers

/-!
# How the system is wired to a run of the server

The system refines the server: in every state it reaches, the server has made a run of its
own machine.  Its events are those that the steps of the system hand to it, one after
another (`World.serverEvents`); the messages taken from each connection are the first messages
that its client accepted, and the frames written to each connection are those the client
reads.  The invariant is `Wired`, for each connection; `run_refines` is the result.
-/

namespace StupidP2P
namespace Interop

open Foundation
open Foundation.Framing
open Server (P2PServer Conn Message CodecSend ProtocolCode Frame dataPayloads isData
  isCallback Answers messagesOf writtenTo messageOf writtenBy deliveries
  LengthHeaderCodec.accepts)

/-! ## Handling the messages of a read -/

section

variable {idleSeconds : Int} {conn : Conn} {time : Int}

/-- What the codec writes for the sends of one step. -/
theorem writtenBytes_eq (t : Transition P2PServer Server.Event (List CodecSend)) (c : Conn) :
    writtenBytes t.post t.output c = encodeAll (writtenBy c t) := by
  unfold writtenBytes writtenBy
  split
  · rw [Server.stepFramesTo, encodeAll, List.flatMap_map]
    rfl
  · rfl

/-- Only a message makes the server write. -/
theorem quiet_step {t : Transition P2PServer Server.Event (List CodecSend)}
    (hstep : (Server.machine idleSeconds).Step t)
    (hquiet : ∀ c message time, t.event ≠ .message c message time)
    (trace : List (Transition P2PServer Server.Event (List CodecSend))) (c : Conn) :
    messagesOf c (trace ++ [t]) = messagesOf c trace ∧
      writtenTo c (trace ++ [t]) = writtenTo c trace := by
  have hnone : ∀ c, messageOf c t = none := by
    obtain ⟨pre, event, sends, post⟩ := t
    intro c
    cases event with
    | message d message time => exact absurd rfl (hquiet d message time)
    | up | down | invalidLength | timer => rfl
  constructor
  · rw [Server.messagesOf_append, messagesOf, messagesOf, List.filterMap_cons, hnone c]
    exact List.append_nil _
  · rw [Server.writtenTo_append, writtenTo, writtenTo, List.flatMap_singleton,
      Server.writtenBy_of_messageOf hstep hnone]
    exact List.append_nil _

theorem foldl_handle_none (frames : List Message) :
    frames.foldl (handle conn time) none = none := by
  induction frames with
  | nil => rfl
  | cons message frames ih => exact ih

/-- **The messages of a read** are steps of the server, one after another; what they write
is appended to what is under way. -/
theorem foldl_handle_run {frames : List Message}
    {trace : List (Transition P2PServer Server.Event (List CodecSend))} {s s' : Serving}
    (hrun : (Server.machine idleSeconds).Run trace s.server)
    (hlive : s.server.live conn = true)
    (h : frames.foldl (handle conn time) (some s) = some s') :
    ∃ more, (Server.machine idleSeconds).Run (trace ++ more) s'.server ∧
      (∀ c, s'.server.live c = s.server.live c) ∧
      more.map Transition.event = frames.map (.message conn · time) ∧
      (∀ c, messagesOf c more = if c = conn then frames else []) ∧
      ∀ c, s'.toClient c = s.toClient c ++ encodeAll (writtenTo c more) := by
  induction frames generalizing trace s with
  | nil =>
      obtain rfl := Option.some.inj h
      refine ⟨[], ?_, fun _ => rfl, rfl, ?_, ?_⟩
      · rw [List.append_nil]
        exact hrun
      · intro c
        rw [ite_self]
        rfl
      · intro c
        exact (List.append_nil _).symm
  | cons message frames ih =>
      rw [List.foldl_cons] at h
      cases hmessage : s.server.onMessage conn message time with
      | none =>
          have hnone : handle conn time (some s) message = none := by
            rw [handle, Option.bind_some, hmessage, Option.map_none]
          rw [hnone, foldl_handle_none] at h
          exact absurd h (by simp)
      | some result =>
          obtain ⟨server, sends⟩ := result
          have hnext : handle conn time (some s) message =
              some ⟨server, fun c => s.toClient c ++ writtenBytes server sends c⟩ := by
            rw [handle, Option.bind_some, hmessage, Option.map_some]
          rw [hnext] at h
          have hstep : (Server.machine idleSeconds).Step
              ⟨s.server, .message conn message time, sends, server⟩ := ⟨hlive, hmessage⟩
          have hlive' : server.live conn = true := by
            rw [Server.live_onMessage hmessage]
            exact hlive
          obtain ⟨more, hmore, hstays, hevents, hmessages, hwritten⟩ := @ih _
            ⟨server, fun c => s.toClient c ++ writtenBytes server sends c⟩
            (.step hrun hstep) hlive' h
          refine ⟨⟨s.server, .message conn message time, sends, server⟩ :: more, ?_,
            fun c => (hstays c).trans (Server.live_onMessage hmessage c), ?_, ?_, ?_⟩
          · rw [List.append_cons]
            exact hmore
          · rw [List.map_cons, List.map_cons, hevents]
          · intro c
            have hcons : messagesOf c (⟨s.server, .message conn message time, sends, server⟩ ::
                more) = (if conn = c then [message] else []) ++ messagesOf c more := by
              rw [messagesOf, List.filterMap_cons]
              by_cases hc : conn = c
              · simp [messageOf, hc, messagesOf]
              · simp [messageOf, hc, messagesOf]
            rw [hcons, hmessages]
            by_cases hc : c = conn
            · simp [hc]
            · simp [hc, Ne.symm hc]
          · intro c
            have hbytes := writtenBytes_eq ⟨s.server, .message conn message time, sends, server⟩ c
            rw [hwritten]
            dsimp only at hbytes ⊢
            rw [hbytes, List.append_assoc, ← encodeAll_append]
            rfl

/-- One of the messages of a read is SEND_DATA, and when it is handled, after those before
it, the server finds a receiver that is not connected. -/
def MeetsClosedReceiverIn (conn : Conn) (time : Int) (s : Serving) (frames : List Message) :
    Prop :=
  ∃ before message after served, frames = before ++ message :: after ∧
    before.foldl (handle conn time) (some s) = some served ∧
    Server.MeetsClosedReceiver served.server (.message conn message time)

/-- The messages of a read are handled to the end, unless the server finds a receiver that
is not connected. -/
theorem foldl_handle_eq_none_iff {frames : List Message}
    {trace : List (Transition P2PServer Server.Event (List CodecSend))} {s : Serving}
    (hrun : (Server.machine idleSeconds).Run trace s.server)
    (hlive : s.server.live conn = true) :
    frames.foldl (handle conn time) (some s) = none ↔ MeetsClosedReceiverIn conn time s frames := by
  constructor
  · intro hnone
    induction frames generalizing trace s with
    | nil => exact absurd hnone (by simp)
    | cons message frames ih =>
        rw [List.foldl_cons] at hnone
        cases hmessage : s.server.onMessage conn message time with
        | none =>
            refine ⟨[], message, frames, s, rfl, rfl, ?_⟩
            have hiff := @Server.exec_isSome_iff idleSeconds s.server ⟨trace, hrun⟩
              (.message conn message time) hlive
            by_contra hnot
            have hsome := hiff.mpr hnot
            rw [Server.exec, hmessage] at hsome
            exact absurd hsome (by simp)
        | some result =>
            obtain ⟨server, sends⟩ := result
            have hnext : handle conn time (some s) message =
                some ⟨server, fun c => s.toClient c ++ writtenBytes server sends c⟩ := by
              rw [handle, Option.bind_some, hmessage, Option.map_some]
            rw [hnext] at hnone
            have hstep : (Server.machine idleSeconds).Step
                ⟨s.server, .message conn message time, sends, server⟩ := ⟨hlive, hmessage⟩
            have hlive' : server.live conn = true := by
              rw [Server.live_onMessage hmessage]
              exact hlive
            obtain ⟨before, bad, after, served, rfl, hserved, hmeets⟩ := @ih _
              ⟨server, fun c => s.toClient c ++ writtenBytes server sends c⟩
              (.step hrun hstep) hlive' hnone
            refine ⟨message :: before, bad, after, served, rfl, ?_, hmeets⟩
            rw [List.foldl_cons, hnext]
            exact hserved
  · rintro ⟨before, message, after, served, rfl, hserved, hmeets⟩
    rw [List.foldl_append, hserved, List.foldl_cons]
    obtain ⟨more, hmore, hlive', -⟩ := foldl_handle_run hrun hlive hserved
    have hundefined : served.server.onMessage conn message time = none := by
      have hiff := @Server.exec_isSome_iff idleSeconds served.server ⟨_, hmore⟩
        (.message conn message time) ((hlive' conn).trans hlive)
      rw [← Option.not_isSome_iff_eq_none]
      intro hsome
      exact hiff.mp hsome hmeets
    have hnone : handle conn time (some served) message = none := by
      rw [handle, Option.bind_some, hundefined, Option.map_none]
    rw [hnone, foldl_handle_none]

end

/-! ## The invariant -/

/-- One connection of the system and the run its server has made. -/
structure Wired (setting : Setting) (w : World)
    (trace : List (Transition P2PServer Server.Event (List CodecSend))) (conn : Conn) :
    Prop where
  /-- The server has taken the first of the messages transmitted; the others are under way,
  or in its input buffer. -/
  way_up : ∃ sent pending read, w.accepted conn = sent ++ pending ∧
    (w.peer conn).Carries sent pending (read ++ w.toServer conn) ∧
    decode LengthHeaderCodec.accepts read =
      ⟨messagesOf conn trace, (w.inputBuffer conn).contents, false⟩
  /-- What the server wrote was read by the client or is under way. -/
  way_down : w.arrived conn ++ w.toClient conn = encodeAll (writtenTo conn trace)
  reads : (w.peer conn).Decodes (setting.calloc conn) (w.arrived conn)
  known : ∀ message ∈ w.accepted conn,
    (ProtocolCode.ofByte (message.headD 0)).isSome = true

section

variable {setting : Setting} {w w' : World} {conn : Conn} {events : List Server.Event}
variable {trace : List (Transition P2PServer Server.Event (List CodecSend))}

/-- The messages the server has taken are the first that were accepted, and short. -/
theorem Wired.messagesOf_first (h : Wired setting w trace conn) :
    messagesOf conn trace <+: w.accepted conn ∧
      ∀ message ∈ messagesOf conn trace, message.length ≤ 2048 := by
  obtain ⟨sent, pending, read, haccepted, hcarries, hdecode⟩ := h.way_up
  have hread : read <+: encodeAll sent := ⟨_, hcarries.bytes_eq⟩
  have hfirst := (@decode_arrived LengthHeaderCodec.accepts read sent (by
    intro message hmem
    have hsmall := hcarries.small message hmem
    rw [LengthHeaderCodec.accepts, decide_eq_true_iff]
    omega) hread).2
  rw [hdecode] at hfirst
  refine ⟨?_, ?_⟩
  · rw [haccepted]
    exact hfirst.trans (List.prefix_append _ _)
  · intro message hmem
    exact hcarries.small message (hfirst.subset hmem)

/-- The frames written to a connection are such as both clients take. -/
theorem relayed_of_wired {σ : P2PServer}
    (hrun : (Server.machine setting.idleSeconds).Run trace σ)
    (h : ∀ p, Wired setting w trace p) (s : Conn) :
    ∀ message ∈ writtenTo s trace, Relayed message := by
  intro message hmem
  obtain ⟨t, ht, hwritten⟩ := List.mem_flatMap.mp hmem
  have hframe : message ∈ Server.stepFramesTo s t := by
    unfold writtenBy at hwritten
    split at hwritten
    · exact hwritten
    · simp at hwritten
  rcases Server.data_of_step (hrun.step_of_mem t ht).1 hframe with
    ⟨code, result, rfl⟩ | ⟨p, time, hevent, hcode⟩
  · exact ⟨.callback code result.toByte, rfl, by simp⟩
  · have hsent : message ∈ messagesOf p trace := by
      refine List.mem_filterMap.mpr ⟨t, ht, ?_⟩
      rw [messageOf, hevent]
      exact if_pos rfl
    obtain ⟨payload, rfl⟩ := ProtocolCode.sendData_message hcode
    exact ⟨.data payload, rfl, (h p).messagesOf_first.2 _ hsent⟩

/-- A step at another connection. -/
theorem Wired.congr (h : Wired setting w trace conn)
    (haccepted : w'.accepted conn = w.accepted conn) (hpeer : w'.peer conn = w.peer conn)
    (hbuffer : w'.inputBuffer conn = w.inputBuffer conn)
    (hserver : w'.toServer conn = w.toServer conn)
    (hclient : w'.toClient conn = w.toClient conn)
    (harrived : w'.arrived conn = w.arrived conn) : Wired setting w' trace conn := by
  obtain ⟨hup, hdown, hreads, hknown⟩ := h
  constructor
  · rw [haccepted, hpeer, hserver, hbuffer]
    exact hup
  · rw [harrived, hclient]
    exact hdown
  · rw [hpeer, harrived]
    exact hreads
  · rw [haccepted]
    exact hknown

/-- The server has made a run with these events, and every connection is wired to it. -/
def Refines (setting : Setting) (w : World) (events : List Server.Event) : Prop :=
  ∃ trace, (Server.machine setting.idleSeconds).Run trace w.server ∧
    trace.map Transition.event = events ∧ ∀ conn, Wired setting w trace conn

theorem refines_initial (setting : Setting) : Refines setting (World.initial setting) [] := by
  refine ⟨[], .start, rfl, ?_⟩
  intro conn
  have hempty : decode LengthHeaderCodec.accepts [] = ⟨[], [], false⟩ := decode_of_short rfl
  constructor
  · refine ⟨[], [], [], rfl, ?_, ?_⟩
    · show (if setting.usesPython conn then _ else _ : Peer).Carries [] [] []
      split
      · exact ⟨rfl, rfl, by simp⟩
      · exact ⟨Client.SendCommandFifo.holds_init, rfl, rfl, by simp⟩
    · show _ = Decoding.mk [] (Server.Buffer.ofSize Server.kInitialSize).contents false
      rw [Server.Buffer.contents_ofSize]
      exact hempty
  · rfl
  · show (if setting.usesPython conn then _ else _ : Peer).Decodes _ []
    split
    · refine ⟨?_, ?_⟩
      · rw [hempty]
        rfl
      · rw [hempty]
        exact List.Sublist.refl _
    · refine ⟨rfl, ?_, ?_, ?_, by rintro _ ⟨⟩⟩
      · rw [hempty]
        exact Client.RecvDataFifo.holds_init _
      · rw [hempty]
        exact List.Sublist.refl _
      · intro _
        rw [hempty]
        rfl
  · intro message hmem
    exact absurd hmem (by simp [World.initial])

/-! ## Steps of the server -/

/-- The server alone: nothing passes over any connection. -/
theorem refines_serverStep {event : Server.Event} (h : Refines setting w events)
    (henabled : Server.enabled w.server event)
    (hquiet : ∀ c message time, event ≠ .message c message time)
    (hexec : w.serverStep setting event = some w') :
    Refines setting w' (events ++ [event]) := by
  obtain ⟨trace, hrun, rfl, hwired⟩ := h
  rw [World.serverStep, Option.map_eq_some_iff] at hexec
  obtain ⟨⟨server, sends⟩, hserver, rfl⟩ := hexec
  have hstep : (Server.machine setting.idleSeconds).Step ⟨w.server, event, sends, server⟩ :=
    ⟨henabled, hserver⟩
  refine ⟨_, .step hrun hstep, by simp, ?_⟩
  intro conn
  obtain ⟨hup, hdown, hreads, hknown⟩ := hwired conn
  obtain ⟨hmessages, hwritten⟩ := quiet_step hstep hquiet trace conn
  constructor
  · rw [hmessages]
    exact hup
  · rw [hwritten]
    exact hdown
  · exact hreads
  · exact hknown

/-- The messages that are complete once the server has read so many bytes more. -/
def World.complete (w : World) (conn : Conn) (count : Nat) : List Message :=
  (decode LengthHeaderCodec.accepts
    ((w.inputBuffer conn).contents ++ (w.toServer conn).take count)).frames

/-- What the server makes of a read, in a system that refines it: the codec hands on the
messages that are complete, and never finds a length out of range. -/
theorem serverRead_eq {count : Nat} {time : Int} (h : Wired setting w trace conn) :
    ∃ frames buffer, frames = w.complete conn count ∧ w.serverRead conn count time =
        (frames.foldl (handle conn time) (some ⟨w.server, w.toClient⟩)).map (fun served =>
          { w with
            server := served.server
            inputBuffer := Function.update w.inputBuffer conn buffer
            toServer := Function.update w.toServer conn ((w.toServer conn).drop count)
            toClient := served.toClient }) ∧
      ∃ sent pending read, w.accepted conn = sent ++ pending ∧
        (w.peer conn).Carries sent pending (read ++ (w.toServer conn).drop count) ∧
        decode LengthHeaderCodec.accepts read =
          ⟨messagesOf conn trace ++ frames, buffer.contents, false⟩ := by
  obtain ⟨sent, pending, read, haccepted, hcarries, hdecode⟩ := h.way_up
  generalize hbytes : (w.toServer conn).take count = bytes
  have hsplit : bytes ++ (w.toServer conn).drop count = w.toServer conn := by
    rw [← hbytes, List.take_append_drop]
  rw [← hsplit, ← List.append_assoc] at hcarries
  have hgoes := (@decode_arrived LengthHeaderCodec.accepts (read ++ bytes) sent (by
    intro message hmem
    have hsmall := hcarries.small message hmem
    rw [LengthHeaderCodec.accepts, decide_eq_true_iff]
    omega) ⟨_, hcarries.bytes_eq⟩).1
  rw [decode_append, hdecode] at hgoes
  dsimp only at hgoes
  obtain ⟨buffer, hread, hcontents, -⟩ := @Server.BufferedCodec.read_eq (Option Serving)
    (handle conn time) (shutdown conn) (w.inputBuffer conn) (some ⟨w.server, w.toClient⟩) bytes
  rw [Server.LengthHeaderCodec.read, Server.LengthHeaderCodec.onMessage_eq,
    Server.LengthHeaderCodec.deliver, hgoes, if_neg Bool.false_ne_true] at hread
  rw [Server.LengthHeaderCodec.read, Server.LengthHeaderCodec.onMessage_eq] at hcontents
  refine ⟨(decode LengthHeaderCodec.accepts ((w.inputBuffer conn).contents ++ bytes)).frames,
    buffer, ?_, ?_, sent, pending, read ++ bytes, haccepted, hcarries, ?_⟩
  · rw [World.complete, hbytes]
  · rw [World.serverRead, hbytes, hread, Option.bind_some]
  · rw [decode_append, hdecode, hcontents]
    dsimp only
    rw [hgoes]

/-- **The server reads.**  Its run goes on with the messages that are complete now. -/
theorem refines_serverRead {count : Nat} {time : Int} (h : Refines setting w events)
    (hlive : w.server.live conn = true) (hexec : w.serverRead conn count time = some w') :
    Refines setting w' (events ++ (w.complete conn count).map (.message conn · time)) := by
  obtain ⟨trace, hrun, rfl, hwired⟩ := h
  obtain ⟨frames, buffer, rfl, hread, sent, pending, read, haccepted, hcarries, hdecode⟩ :=
    @serverRead_eq setting w conn trace count time (hwired conn)
  rw [hread, Option.map_eq_some_iff] at hexec
  obtain ⟨served, hserved, rfl⟩ := hexec
  obtain ⟨more, hmore, -, hevents, hmessages, hwritten⟩ := foldl_handle_run hrun hlive hserved
  refine ⟨trace ++ more, hmore, ?_, ?_⟩
  · rw [List.map_append, hevents]
  intro c
  obtain ⟨hup, hdown, hreads, hknown⟩ := hwired c
  refine ⟨?_, ?_, hreads, hknown⟩
  · rw [Server.messagesOf_append, hmessages]
    by_cases hc : c = conn
    · subst hc
      refine ⟨sent, pending, read, haccepted, ?_, ?_⟩
      · dsimp only
        rw [Function.update_self]
        exact hcarries
      · dsimp only
        rw [Function.update_self, if_pos rfl]
        exact hdecode
    · dsimp only
      rw [Function.update_of_ne hc, Function.update_of_ne hc, if_neg hc, List.append_nil]
      exact hup
  · dsimp only
    rw [Server.writtenTo_append, encodeAll_append, hwritten, ← List.append_assoc, hdown]

/-! ## Steps of the clients -/

/-- A call of the C API. -/
theorem refines_call {malloc : Bool} {fd : Int} {command : UInt8} {data : List UInt8}
    (h : Refines setting w events)
    (henabled : networkEnabled w (.call conn malloc fd command data)) :
    ∃ w', w.exec setting (.call conn malloc fd command data) = some w' ∧
      Refines setting w' events := by
  obtain ⟨⟨receiver, buf, reader, hpeer, hroom⟩, hfd, hcode, hlength⟩ := henabled
  obtain ⟨trace, hrun, hevents, hwired⟩ := h
  obtain ⟨sent, pending, read, haccepted, hcarries, hdecode⟩ := (hwired conn).way_up
  have hreads := (hwired conn).reads
  rw [hpeer] at hcarries hreads
  obtain ⟨peer, messages, hcall, hcarries', hreads', hmessages⟩ :=
    @call_c _ _ _ _ _ receiver buf reader malloc fd command data hcarries hreads hfd hcode
      hlength hroom.1
  refine ⟨(w.setPeer conn peer).accept conn messages, ?_, ?_⟩
  · simp only [World.exec, hpeer, hcall, Option.map_some]
  · refine ⟨trace, hrun, hevents, ?_⟩
    intro c
    by_cases hc : c = conn
    · subst hc
      have haccepted' : ((w.setPeer c peer).accept c messages).accepted c =
          w.accepted c ++ messages := Function.update_self _ _ _
      have hpeer' : ((w.setPeer c peer).accept c messages).peer c = peer :=
        Function.update_self _ _ _
      constructor
      · refine ⟨sent, pending ++ messages, read, ?_, ?_, hdecode⟩
        · rw [haccepted', haccepted, List.append_assoc]
        · rw [hpeer']
          exact hcarries'
      · exact (hwired c).way_down
      · rw [hpeer']
        exact hreads'
      · rw [haccepted']
        intro message hmem
        rcases List.mem_append.mp hmem with hold | hnew
        · exact (hwired c).known message hold
        · rw [hmessages message hnew]
          exact hcode
    · exact (hwired c).congr (Function.update_of_ne hc _ _) (Function.update_of_ne hc _ _)
        rfl rfl rfl rfl

/-- A round of the send thread. -/
theorem refines_transmit (h : Refines setting w events)
    (henabled : networkEnabled w (.transmit conn)) :
    ∃ w', w.exec setting (.transmit conn) = some w' ∧
      Refines setting w' events := by
  obtain ⟨receiver, buf, reader, hpeer⟩ := henabled
  obtain ⟨trace, hrun, hevents, hwired⟩ := h
  obtain ⟨sent, pending, read, haccepted, hcarries, hdecode⟩ := (hwired conn).way_up
  have hreads := (hwired conn).reads
  rw [hpeer] at hcarries hreads
  obtain ⟨peer, more, htransmit, hcarries', hreads'⟩ := transmit_c hcarries hreads
  refine ⟨(w.setPeer conn peer).write conn more, ?_, ?_⟩
  · simp only [World.exec, hpeer, htransmit, Option.map_some]
  · refine ⟨trace, hrun, hevents, ?_⟩
    intro c
    by_cases hc : c = conn
    · subst hc
      have hpeer' : ((w.setPeer c peer).write c more).peer c = peer :=
        Function.update_self _ _ _
      have hserver' : ((w.setPeer c peer).write c more).toServer c = w.toServer c ++ more :=
        Function.update_self _ _ _
      constructor
      · refine ⟨sent ++ pending.take 1, pending.tail, read, ?_, ?_, hdecode⟩
        · have hsplit : pending.take 1 ++ pending.tail = pending := by
            rw [← List.drop_one, List.take_append_drop]
          rw [List.append_assoc, hsplit]
          exact haccepted
        · rw [hpeer', hserver', ← List.append_assoc]
          exact hcarries'
      · exact (hwired c).way_down
      · rw [hpeer']
        exact hreads'
      · exact (hwired c).known
    · exact (hwired c).congr rfl (Function.update_of_ne hc _ _) rfl
        (Function.update_of_ne hc _ _) rfl rfl

/-- A call of the Python API. -/
theorem refines_command {code : ProtocolCode} {data : List UInt8}
    {env : PythonClient.CallEnv} (h : Refines setting w events)
    (henabled : networkEnabled w (.command conn code data env)) :
    ∃ w', w.exec setting (.command conn code data env) = some w' ∧
      Refines setting w' events := by
  obtain ⟨⟨client, hpeer⟩, hlength, hsock⟩ := henabled
  obtain ⟨trace, hrun, hevents, hwired⟩ := h
  obtain ⟨sent, pending, read, haccepted, hcarries, hdecode⟩ := (hwired conn).way_up
  have hreads := (hwired conn).reads
  rw [hpeer] at hcarries hreads
  have hnothing : pending = [] := hcarries.1
  obtain ⟨peer, more, hsend, hcarries', hreads'⟩ :=
    @sendCommand_python _ _ _ _ _ client code data env hcarries hreads hlength hsock
  generalize hmessages : (if more = [] then [] else [code.toByte :: data]) = messages
    at hcarries'
  refine ⟨((w.setPeer conn peer).write conn more).accept conn messages, ?_, ?_⟩
  · simp only [World.exec, hpeer, hsend, Option.map_some, hmessages]
  · refine ⟨trace, hrun, hevents, ?_⟩
    intro c
    by_cases hc : c = conn
    · subst hc
      have haccepted' : (((w.setPeer c peer).write c more).accept c messages).accepted c =
          w.accepted c ++ messages := Function.update_self _ _ _
      have hpeer' : (((w.setPeer c peer).write c more).accept c messages).peer c = peer :=
        Function.update_self _ _ _
      have hserver' : (((w.setPeer c peer).write c more).accept c messages).toServer c =
          w.toServer c ++ more := Function.update_self _ _ _
      constructor
      · refine ⟨sent ++ messages, pending, read, ?_, ?_, hdecode⟩
        · rw [haccepted', haccepted, hnothing, List.append_nil, List.append_nil]
        · rw [hpeer', hserver', ← List.append_assoc]
          exact hcarries'
      · exact (hwired c).way_down
      · rw [hpeer']
        exact hreads'
      · rw [haccepted']
        intro message hmem
        rcases List.mem_append.mp hmem with hold | hnew
        · exact (hwired c).known message hold
        · rw [← hmessages] at hnew
          split at hnew
          · simp at hnew
          · rw [List.mem_singleton.mp hnew]
            cases code <;> rfl
    · exact (hwired c).congr (Function.update_of_ne hc _ _) (Function.update_of_ne hc _ _) rfl
        (Function.update_of_ne hc _ _) rfl rfl

/-- A client reads. -/
theorem refines_recv {count : Nat} (h : Refines setting w events)
    (henabled : networkEnabled w (.recv conn count)) :
    ∃ w', w.exec setting (.recv conn count) = some w' ∧
      Refines setting w' events := by
  obtain ⟨hpos, hthere, hlimit⟩ := henabled
  obtain ⟨trace, hrun, hevents, hwired⟩ := h
  have hframes := relayed_of_wired hrun hwired conn
  have hlength : ((w.toClient conn).take count).length = count := by
    rw [List.length_take]
    omega
  have hsplit : w.arrived conn ++ (w.toClient conn).take count ++ (w.toClient conn).drop count =
      encodeAll (writtenTo conn trace) := by
    rw [List.append_assoc, List.take_append_drop]
    exact (hwired conn).way_down
  obtain ⟨peer, hrecv, hreads', hsame⟩ :=
    @Peer.Decodes.recv _ (setting.consumed conn) _ _ ((w.toClient conn).take count) _
      (hwired conn).reads hframes ⟨_, hsplit⟩ (by omega)
  refine ⟨(w.deliver conn count).setPeer conn peer, ?_, trace, hrun, hevents, ?_⟩
  · simp only [World.exec, hrecv, Option.map_some]
  · intro c
    by_cases hc : c = conn
    · subst hc
      obtain ⟨sent, pending, read, haccepted, hcarries, hdecode⟩ := (hwired c).way_up
      have hpeer' : ((w.deliver c count).setPeer c peer).peer c = peer :=
        Function.update_self _ _ _
      have harrived' : ((w.deliver c count).setPeer c peer).arrived c =
          w.arrived c ++ (w.toClient c).take count := Function.update_self _ _ _
      have hclient' : ((w.deliver c count).setPeer c peer).toClient c =
          (w.toClient c).drop count := Function.update_self _ _ _
      constructor
      · refine ⟨sent, pending, read, haccepted, ?_, hdecode⟩
        rw [hpeer']
        exact hcarries.same hsame
      · rw [harrived', hclient']
        exact hsplit
      · rw [hpeer', harrived']
        exact hreads'
      · exact (hwired c).known
    · exact (hwired c).congr rfl (Function.update_of_ne hc _ _) rfl rfl
        (Function.update_of_ne hc _ _) (Function.update_of_ne hc _ _)

theorem Refines.reads (h : Refines setting w events) (conn : Conn) :
    (w.peer conn).Decodes (setting.calloc conn) (w.arrived conn) := by
  obtain ⟨trace, -, -, hwired⟩ := h
  exact (hwired conn).reads

/-- A step of an application, which is nothing to the send thread. -/
theorem refines_setPeer {peer : Peer} (h : Refines setting w events)
    (hsame : (w.peer conn).SameCommands peer)
    (hreads : peer.Decodes (setting.calloc conn) (w.arrived conn)) :
    Refines setting (w.setPeer conn peer) events := by
  obtain ⟨trace, hrun, hevents, hwired⟩ := h
  refine ⟨trace, hrun, hevents, ?_⟩
  intro c
  by_cases hc : c = conn
  · subst hc
    obtain ⟨sent, pending, read, haccepted, hcarries, hdecode⟩ := (hwired c).way_up
    have hpeer : (w.setPeer c peer).peer c = peer := Function.update_self _ _ _
    constructor
    · refine ⟨sent, pending, read, haccepted, ?_, hdecode⟩
      rw [hpeer]
      exact hcarries.same hsame
    · exact (hwired c).way_down
    · rw [hpeer]
      exact hreads
    · exact (hwired c).known
  · exact (hwired c).congr rfl (Function.update_of_ne hc _ _) rfl rfl rfl rfl

/-- An application calls `stupid_p2p_recv_data`. -/
theorem refines_recvDataCall (h : Refines setting w events)
    (henabled : networkEnabled w (.recvDataCall conn)) :
    ∃ w', w.exec setting (.recvDataCall conn) = some w' ∧ Refines setting w' events := by
  obtain ⟨receiver, buf, reader, hpeer, hidle⟩ := henabled
  have hreads := h.reads conn
  rw [hpeer] at hreads
  obtain ⟨peer, hcall, hsame, hreads'⟩ := recvDataCall_c hidle hreads
  refine ⟨w.setPeer conn peer, ?_, refines_setPeer h (by rw [hpeer]; exact hsame) hreads'⟩
  simp only [World.exec, hpeer, hcall, Option.map_some]

/-- A call of `stupid_p2p_recv_data` writes behind its array. -/
def Overruns (w : World) : WorldEvent → Prop
  | .recvDataRound conn => (w.peer conn).Overruns
  | _ => False

/-- A round of `stupid_p2p_recv_data`. -/
theorem refines_recvDataRound (h : Refines setting w events)
    (henabled : networkEnabled w (.recvDataRound conn)) :
    (Overruns w (.recvDataRound conn) ∧ w.exec setting (.recvDataRound conn) = none) ∨
      ¬ Overruns w (.recvDataRound conn) ∧
        ∃ w', w.exec setting (.recvDataRound conn) = some w' ∧ Refines setting w' events := by
  obtain ⟨receiver, buf, reader, hpeer, hbusy⟩ := henabled
  have hreads := h.reads conn
  rw [hpeer] at hreads
  rcases recvDataRound_c hbusy hreads with ⟨hover, hnone⟩ | ⟨hfits, peer, hround, hsame, hreads'⟩
  · refine Or.inl ⟨by rw [Overruns, hpeer]; exact hover, ?_⟩
    simp only [World.exec, hpeer, hnone, Option.map_none]
  · refine Or.inr ⟨by rw [Overruns, hpeer]; exact hfits, w.setPeer conn peer, ?_,
      refines_setPeer h (by rw [hpeer]; exact hsame) hreads'⟩
    simp only [World.exec, hpeer, hround, Option.map_some]

/-- What a step of the system hands to the server. -/
def World.serverEvents (w : World) : WorldEvent → List Server.Event
  | .up conn now => [.up conn now]
  | .down conn => [.down conn]
  | .timer now lock => [.timer now lock]
  | .read conn count time => (w.complete conn count).map (.message conn · time)
  | _ => []

/-- **Every step keeps the refinement.** -/
theorem refines_exec {event : WorldEvent} (h : Refines setting w events)
    (henabled : networkEnabled w event) (hexec : w.exec setting event = some w') :
    Refines setting w' (events ++ w.serverEvents event) := by
  have hclient : (∃ τ, w.exec setting event = some τ ∧ Refines setting τ events) →
      Refines setting w' (events ++ []) := by
    rintro ⟨τ, hτ, hrefines⟩
    rw [List.append_nil, Option.some.inj (hexec.symm.trans hτ)]
    exact hrefines
  cases event with
  | up c now => exact refines_serverStep h henabled (by simp) hexec
  | down c => exact refines_serverStep h henabled (by simp) hexec
  | timer now lock => exact refines_serverStep h henabled (by simp) hexec
  | read c count time => exact refines_serverRead h henabled.1 hexec
  | call c malloc fd command data => exact hclient (refines_call h henabled)
  | transmit c => exact hclient (refines_transmit h henabled)
  | command c code data env => exact hclient (refines_command h henabled)
  | recv c count => exact hclient (refines_recv h henabled)
  | recvDataCall c => exact hclient (refines_recvDataCall h henabled)
  | recvDataRound c =>
      rcases refines_recvDataRound h henabled with ⟨-, hnone⟩ | ⟨-, hsome⟩
      · rw [hexec] at hnone
        cases hnone
      · exact hclient hsome

/-- The events a run of the system has handed to the server. -/
def serverEventsOf (run : List (Transition World WorldEvent Unit)) : List Server.Event :=
  run.flatMap fun t => t.pre.serverEvents t.event

theorem run_refines {run : List (Transition World WorldEvent Unit)}
    (hrun : (network setting).Run run w) : Refines setting w (serverEventsOf run) := by
  induction hrun with
  | start => exact refines_initial setting
  | @step run t _ hstep ih =>
      have hexec := Machine.Step.of_map (fun _ _ => rfl) hstep
      have hone : serverEventsOf (run ++ [t]) =
          serverEventsOf run ++ t.pre.serverEvents t.event := by
        simp [serverEventsOf]
      rw [hone]
      exact refines_exec ih hstep.1 hexec

theorem reachable_refines (hreach : (network setting).Reachable w) :
    ∃ trace, (Server.machine setting.idleSeconds).Run trace w.server ∧
      ∀ conn, Wired setting w trace conn := by
  obtain ⟨run, hrun⟩ := hreach
  obtain ⟨trace, hserver, -, hwired⟩ := run_refines hrun
  exact ⟨trace, hserver, hwired⟩

end

end Interop
end StupidP2P
