import StupidP2P.Interop.Wiring

/-!
# The server on any bytes

`Wiring` is about the clients of this repository.  Nothing on the network makes a client be
one of them, so here the server is alone with its connections: any bytes arrive on any of
them, cut into reads of any size and interleaved in any order with the timer and the life of
the connections.

It comes to the same as handling, one at a time, the messages that the framing finds in the
stream of each connection (`streams_served`).  A stream ends for the server at the first
length out of range; what is written to a connection is whole frames, whatever the others
send; and no bytes make a read undefined, apart from a SEND_DATA that finds a receiver which
is not connected (`streams_defined_iff`).
-/

namespace StupidP2P
namespace Interop

open Foundation
open Foundation.Framing
open Server (P2PServer Conn Message CodecSend Buffer messagesOf writtenTo messageOf writtenBy
  LengthHeaderCodec.accepts)

/-- The server, the input buffers of its connections, and what it has written to each. -/
structure Endpoint where
  server : P2PServer
  inputBuffer : Conn → Buffer
  written : Conn → List UInt8

inductive EndpointEvent
  | up (conn : Conn) (now : Int)
  | down (conn : Conn)
  | timer (now : Int) (lock : Conn → Bool)
  /-- One read from a connection brings these bytes. -/
  | bytes (conn : Conn) (chunk : List UInt8) (time : Int)

namespace Endpoint

def initial : Endpoint where
  server := P2PServer.initial
  inputBuffer := fun _ => Buffer.ofSize Server.kInitialSize
  written := fun _ => []

/-- A step of the server alone. -/
def serverStep (idleSeconds : Int) (e : Endpoint) (event : Server.Event) : Option Endpoint :=
  (Server.exec idleSeconds e.server event).map fun (server, _) => { e with server := server }

/-- The bytes are appended to the input buffer, and the codec hands on what is complete. -/
def read (e : Endpoint) (conn : Conn) (chunk : List UInt8) (time : Int) : Option Endpoint :=
  (Server.BufferedCodec.read (handle conn time) (shutdown conn)
    (e.inputBuffer conn, some ⟨e.server, e.written⟩) chunk).bind fun (buffer, served) =>
      served.map fun served =>
        { server := served.server
          inputBuffer := Function.update e.inputBuffer conn buffer
          written := served.toClient }

def exec (idleSeconds : Int) (e : Endpoint) : EndpointEvent → Option Endpoint
  | .up conn now => e.serverStep idleSeconds (.up conn now)
  | .down conn => e.serverStep idleSeconds (.down conn)
  | .timer now lock => e.serverStep idleSeconds (.timer now lock)
  | .bytes conn chunk time => e.read conn chunk time

end Endpoint

/-- muduo's order of events; nothing is said about the bytes. -/
def endpointEnabled (e : Endpoint) : EndpointEvent → Prop
  | .up conn now => Server.enabled e.server (.up conn now)
  | .down conn => Server.enabled e.server (.down conn)
  | .timer now lock => Server.enabled e.server (.timer now lock)
  | .bytes conn _ _ => e.server.live conn = true

/-- The server on the network. -/
def endpoint (idleSeconds : Int) : Machine Endpoint EndpointEvent Unit where
  init := Endpoint.initial
  enabled := endpointEnabled
  exec e event := (e.exec idleSeconds event).map fun e => (e, ())

/-! ## What a step hands to the server -/

/-- What the framing finds once these bytes have arrived too. -/
def Endpoint.found (e : Endpoint) (conn : Conn) (chunk : List UInt8) : Decoding :=
  decode LengthHeaderCodec.accepts ((e.inputBuffer conn).contents ++ chunk)

/-- The events of a decoding: its messages, and the end of the connection at a length that
is out of range. -/
def eventsFound (conn : Conn) (time : Int) (d : Decoding) : List Server.Event :=
  d.frames.map (.message conn · time) ++ if d.stopped then [.invalidLength conn] else []

/-- What a step hands to the server. -/
def Endpoint.serverEvents (e : Endpoint) : EndpointEvent → List Server.Event
  | .up conn now => [.up conn now]
  | .down conn => [.down conn]
  | .timer now lock => [.timer now lock]
  | .bytes conn chunk time => eventsFound conn time (e.found conn chunk)

/-- The bytes a step brings on a connection. -/
def bytesFrom (conn : Conn) : EndpointEvent → List UInt8
  | .bytes c chunk _ => if c = conn then chunk else []
  | _ => []

/-- The stream of a connection: all bytes that have arrived on it. -/
def streamFrom (conn : Conn) (run : List (Transition Endpoint EndpointEvent Unit)) :
    List UInt8 :=
  run.flatMap fun t => bytesFrom conn t.event

/-- A read is defined if the messages found can be handled. -/
theorem read_eq (e : Endpoint) (conn : Conn) (chunk : List UInt8) (time : Int) :
    ∃ buffer, buffer.contents = (e.found conn chunk).rest ∧ e.read conn chunk time =
      ((e.found conn chunk).frames.foldl (handle conn time) (some ⟨e.server, e.written⟩)).map
        fun served =>
          { server := if (e.found conn chunk).stopped then served.server.shutdown conn
              else served.server
            inputBuffer := Function.update e.inputBuffer conn buffer
            written := served.toClient } := by
  obtain ⟨buffer, hread, hcontents, -⟩ := @Server.BufferedCodec.read_eq (Option Serving)
    (handle conn time) (shutdown conn) (e.inputBuffer conn) (some ⟨e.server, e.written⟩) chunk
  rw [Server.LengthHeaderCodec.read, Server.LengthHeaderCodec.onMessage_eq] at hread hcontents
  refine ⟨buffer, hcontents, ?_⟩
  rw [Endpoint.read, hread, Option.bind_some, Server.LengthHeaderCodec.deliver,
    ← Endpoint.found]
  cases (e.found conn chunk).stopped with
  | false => rfl
  | true =>
      dsimp only
      rw [if_pos rfl, shutdown, Option.map_map]
      rfl

/-! ## The invariant -/

/-- One connection, the stream that has arrived on it and the run of the server. -/
structure Cut (e : Endpoint)
    (trace : List (Transition P2PServer Server.Event (List CodecSend))) (conn : Conn)
    (stream : List UInt8) : Prop where
  messages : messagesOf conn trace = (decode LengthHeaderCodec.accepts stream).frames
  buffer : (e.inputBuffer conn).contents = (decode LengthHeaderCodec.accepts stream).rest
  closed : (decode LengthHeaderCodec.accepts stream).stopped = true → ¬ e.server.isOpen conn
  written : e.written conn = encodeAll (writtenTo conn trace)

/-- The server has made a run with these events, and the streams are cut along it. -/
def Serves (idleSeconds : Int) (e : Endpoint) (events : List Server.Event)
    (stream : Conn → List UInt8) : Prop :=
  ∃ trace, (Server.machine idleSeconds).Run trace e.server ∧
    trace.map Transition.event = events ∧ ∀ conn, Cut e trace conn (stream conn)

section

variable {idleSeconds : Int} {e e' : Endpoint} {events : List Server.Event}
variable {stream : Conn → List UInt8} {conn : Conn}

theorem serves_initial : Serves idleSeconds Endpoint.initial [] (fun _ => []) := by
  have hempty : decode LengthHeaderCodec.accepts [] = ⟨[], [], false⟩ := decode_of_short rfl
  refine ⟨[], .start, rfl, ?_⟩
  intro conn
  constructor
  · rw [hempty]
    rfl
  · rw [hempty]
    exact Buffer.contents_ofSize _
  · rw [hempty]
    exact fun h => absurd h Bool.false_ne_true
  · rfl

/-- A connection closed during a run of the server stays closed. -/
theorem not_isOpen_between
    {trace more : List (Transition P2PServer Server.Event (List CodecSend))} {σ σ' : P2PServer}
    (hbefore : (Server.machine idleSeconds).Run trace σ)
    (hrun : (Server.machine idleSeconds).Run (trace ++ more) σ') (hclosed : ¬ σ.isOpen conn) :
    ¬ σ'.isOpen conn := by
  have hkeeps := Machine.Run.between (fun σ σ' : P2PServer => σ'.isOpen conn → σ.isOpen conn)
    (fun _ h => h) (fun _ _ _ hfirst hsecond h => hfirst (hsecond h))
    (fun t _ hstep hreach => Server.isOpen_of_step hstep hreach) hbefore hrun
  exact fun hopen => hclosed (hkeeps hopen)

/-- The server alone: nothing passes over any connection. -/
theorem serves_serverStep {event : Server.Event} (h : Serves idleSeconds e events stream)
    (henabled : Server.enabled e.server event)
    (hquiet : ∀ c message time, event ≠ .message c message time)
    (hexec : e.serverStep idleSeconds event = some e') :
    Serves idleSeconds e' (events ++ [event]) stream := by
  obtain ⟨trace, hrun, rfl, hcut⟩ := h
  rw [Endpoint.serverStep, Option.map_eq_some_iff] at hexec
  obtain ⟨⟨server, sends⟩, hserver, rfl⟩ := hexec
  have hstep : (Server.machine idleSeconds).Step ⟨e.server, event, sends, server⟩ :=
    ⟨henabled, hserver⟩
  refine ⟨_, .step hrun hstep, by simp, ?_⟩
  intro conn
  obtain ⟨hmessages, hbuffer, hclosed, hwritten⟩ := hcut conn
  obtain ⟨hquietly, hnothing⟩ := quiet_step hstep hquiet trace conn
  constructor
  · rw [hquietly]
    exact hmessages
  · exact hbuffer
  · intro hstopped
    exact not_isOpen_between hrun (.step hrun hstep) (hclosed hstopped)
  · rw [hnothing]
    exact hwritten

theorem not_isOpen_shutdown {σ : P2PServer} (hlive : σ.live conn = true) :
    ¬ (σ.shutdown conn).isOpen conn := by
  intro hopen
  rcases hopen with hconnecting | hconnected
  · rw [Server.connecting_iff_phase, Server.P2PServer.toRegistry_shutdown,
      ← Server.connecting_iff_phase] at hconnecting
    rw [P2PServer.live, hconnecting] at hlive
    exact absurd hlive (by decide)
  · rw [← Server.P2PServer.connected_eq_true_iff, Server.P2PServer.connected_shutdown] at hconnected
    exact hconnected.2 rfl

/-- The messages found in a read, and the shutdown behind them, are steps of the server. -/
theorem found_run {time : Int} {d : Decoding} {served : Serving}
    {trace : List (Transition P2PServer Server.Event (List CodecSend))} {s : Serving}
    (hrun : (Server.machine idleSeconds).Run trace s.server)
    (hlive : s.server.live conn = true)
    (hserved : d.frames.foldl (handle conn time) (some s) = some served) :
    ∃ more, (Server.machine idleSeconds).Run (trace ++ more)
        (if d.stopped then served.server.shutdown conn else served.server) ∧
      more.map Transition.event = eventsFound conn time d ∧
      (∀ c, messagesOf c more = if c = conn then d.frames else []) ∧
      ∀ c, served.toClient c = s.toClient c ++ encodeAll (writtenTo c more) := by
  obtain ⟨more, hmore, hstays, hevents, hmessages, hwritten⟩ :=
    foldl_handle_run hrun hlive hserved
  cases hstopped : d.stopped with
  | false =>
      refine ⟨more, hmore, ?_, hmessages, hwritten⟩
      rw [eventsFound, hstopped, hevents]
      exact (List.append_nil _).symm
  | true =>
      have hstep : (Server.machine idleSeconds).Step
          ⟨served.server, .invalidLength conn, [], served.server.shutdown conn⟩ :=
        ⟨(hstays conn).trans hlive, rfl⟩
      refine ⟨more ++ [⟨served.server, .invalidLength conn, [], served.server.shutdown conn⟩],
        ?_, ?_, ?_, ?_⟩
      · rw [← List.append_assoc]
        exact .step hmore hstep
      · rw [List.map_append, hevents, eventsFound, hstopped]
        rfl
      · intro c
        rw [(quiet_step hstep (by simp) more c).1]
        exact hmessages c
      · intro c
        rw [(quiet_step hstep (by simp) more c).2]
        exact hwritten c

/-- **A read.**  The stream of the connection is cut on where the last read left it. -/
theorem serves_read {chunk : List UInt8} {time : Int} (h : Serves idleSeconds e events stream)
    (hlive : e.server.live conn = true) (hexec : e.read conn chunk time = some e') :
    Serves idleSeconds e' (events ++ eventsFound conn time (e.found conn chunk))
      (fun c => stream c ++ if conn = c then chunk else []) := by
  obtain ⟨trace, hrun, rfl, hcut⟩ := h
  obtain ⟨buffer, hcontents, hread⟩ := read_eq e conn chunk time
  rw [hread, Option.map_eq_some_iff] at hexec
  obtain ⟨served, hserved, rfl⟩ := hexec
  obtain ⟨more, hmore, hevents, hmessages, hwritten⟩ := @found_run idleSeconds conn time
    (e.found conn chunk) served trace ⟨e.server, e.written⟩ hrun hlive hserved
  have hfound : e.found conn chunk = decode LengthHeaderCodec.accepts
      ((decode LengthHeaderCodec.accepts (stream conn)).rest ++ chunk) := by
    rw [Endpoint.found, (hcut conn).buffer]
  refine ⟨trace ++ more, hmore, by rw [List.map_append, hevents], ?_⟩
  intro c
  obtain ⟨hbefore, hbuffer, hclosed, hold⟩ := hcut c
  dsimp only
  by_cases hc : conn = c
  · subst hc
    constructor
    · rw [Server.messagesOf_append, hmessages, if_pos rfl, if_pos rfl, decode_append, hbefore,
        ← hfound]
    · rw [if_pos rfl, decode_append, ← hfound, ← hcontents]
      exact congrArg Buffer.contents (Function.update_self _ _ _)
    · rw [if_pos rfl, decode_append, ← hfound]
      intro hstopped
      -- The shutdown is the last step of the read.
      dsimp only at hstopped ⊢
      rw [if_pos hstopped]
      apply not_isOpen_shutdown
      obtain ⟨-, -, hstays, -⟩ := @foldl_handle_run idleSeconds conn time _ trace
        ⟨e.server, e.written⟩ served hrun hlive hserved
      exact (hstays conn).trans hlive
    · rw [Server.writtenTo_append, encodeAll_append, ← hold]
      exact hwritten conn
  · constructor
    · rw [Server.messagesOf_append, hmessages, if_neg (Ne.symm hc), if_neg hc, List.append_nil,
        List.append_nil]
      exact hbefore
    · rw [if_neg hc, List.append_nil, ← hbuffer]
      exact congrArg Buffer.contents (Function.update_of_ne (Ne.symm hc) _ _)
    · rw [if_neg hc, List.append_nil]
      intro hstopped
      exact not_isOpen_between hrun hmore (hclosed hstopped)
    · rw [Server.writtenTo_append, encodeAll_append, ← hold]
      exact hwritten c

/-- **Every step keeps the streams cut along a run of the server.** -/
theorem serves_exec {event : EndpointEvent} (h : Serves idleSeconds e events stream)
    (henabled : endpointEnabled e event) (hexec : e.exec idleSeconds event = some e') :
    Serves idleSeconds e' (events ++ e.serverEvents event)
      (fun c => stream c ++ bytesFrom c event) := by
  have hquiet : ∀ {event : Server.Event}, Serves idleSeconds e' (events ++ [event]) stream →
      Serves idleSeconds e' (events ++ [event]) (fun c => stream c ++ []) := by
    intro event hserves
    simpa only [List.append_nil] using hserves
  cases event with
  | up c now => exact hquiet (serves_serverStep h henabled (by simp) hexec)
  | down c => exact hquiet (serves_serverStep h henabled (by simp) hexec)
  | timer now lock => exact hquiet (serves_serverStep h henabled (by simp) hexec)
  | bytes c chunk time => exact serves_read h henabled hexec

theorem run_serves {run : List (Transition Endpoint EndpointEvent Unit)}
    (hrun : (endpoint idleSeconds).Run run e) :
    Serves idleSeconds e (run.flatMap fun t => t.pre.serverEvents t.event)
      (fun c => streamFrom c run) := by
  induction hrun with
  | start => exact serves_initial
  | @step run t _ hstep ih =>
      have hexec := Machine.Step.of_map (fun _ _ => rfl) hstep
      have hnext := serves_exec ih hstep.1 hexec
      have hstream : ∀ c, streamFrom c (run ++ [t]) = streamFrom c run ++ bytesFrom c t.event := by
        intro c
        simp [streamFrom]
      simp only [hstream, List.flatMap_append, List.flatMap_singleton]
      exact hnext

/-- The frames written to a connection are answers, or messages found in some stream. -/
theorem length_writtenTo
    {trace : List (Transition P2PServer Server.Event (List CodecSend))} {σ : P2PServer}
    (hrun : (Server.machine idleSeconds).Run trace σ)
    (hmessages : ∀ p, messagesOf p trace = (decode LengthHeaderCodec.accepts (stream p)).frames)
    (conn : Conn) : ∀ message ∈ writtenTo conn trace, message.length ≤ 65536 := by
  intro message hmem
  obtain ⟨t, ht, hwritten⟩ := List.mem_flatMap.mp hmem
  have hframe : message ∈ Server.stepFramesTo conn t := by
    unfold writtenBy at hwritten
    split at hwritten
    · exact hwritten
    · simp at hwritten
  rcases Server.data_of_step (hrun.step_of_mem t ht).1 hframe with
    ⟨code, result, rfl⟩ | ⟨p, time, hevent, -⟩
  · exact Nat.le_of_lt (by decide : 2 < 65536)
  · have hsent : message ∈ messagesOf p trace := by
      refine List.mem_filterMap.mpr ⟨t, ht, ?_⟩
      rw [messageOf, hevent]
      exact if_pos rfl
    rw [hmessages p] at hsent
    obtain ⟨len, haccepts, hlength⟩ := admitted_of_mem_frames _ message hsent
    rw [LengthHeaderCodec.accepts, decide_eq_true_iff] at haccepts
    omega

/-! ## Results -/

/-- **The server on any bytes.**  Whatever bytes arrive on the connections, in whatever
reads and in whatever order with the other events, the server does what it does on the
messages that the framing finds in the streams, handed to it one at a time in the order in
which the reads complete them.  The messages taken from a connection are the frames of its
stream, and what waits in its input buffer is what is left over, less than a frame of the
greatest length.  After a length out of range the server takes no message from the
connection and writes nothing to it.  What it has written to a connection are whole frames,
those that the run of the server sends. -/
theorem streams_served {run : List (Transition Endpoint EndpointEvent Unit)}
    (hrun : (endpoint idleSeconds).Run run e) :
    ∃ trace, (Server.machine idleSeconds).Run trace e.server ∧
      trace.map Transition.event = run.flatMap (fun t => t.pre.serverEvents t.event) ∧
      ∀ conn,
        messagesOf conn trace = (decode LengthHeaderCodec.accepts (streamFrom conn run)).frames ∧
        (e.inputBuffer conn).contents =
          (decode LengthHeaderCodec.accepts (streamFrom conn run)).rest ∧
        ((decode LengthHeaderCodec.accepts (streamFrom conn run)).stopped = false →
          (e.inputBuffer conn).contents.length < 65540) ∧
        ((decode LengthHeaderCodec.accepts (streamFrom conn run)).stopped = true →
          e.server.connected conn = false ∧ ∀ more,
            (decode LengthHeaderCodec.accepts (streamFrom conn run ++ more)).frames =
              messagesOf conn trace) ∧
        decode LengthHeaderCodec.accepts (e.written conn) = ⟨writtenTo conn trace, [], false⟩ := by
  obtain ⟨trace, hserver, hevents, hcut⟩ := run_serves hrun
  refine ⟨trace, hserver, hevents, ?_⟩
  intro conn
  obtain ⟨hmessages, hbuffer, hclosed, hwritten⟩ := hcut conn
  refine ⟨hmessages, hbuffer, ?_, ?_, ?_⟩
  · intro hgoes
    rw [hbuffer]
    exact @length_rest_lt _ _ 65536 (by simp [LengthHeaderCodec.accepts]) hgoes
  · intro hstopped
    constructor
    · have hnot : ¬ e.server.connected conn = true :=
        fun h => hclosed hstopped (Or.inr (Server.P2PServer.connected_eq_true_iff.mp h))
      simpa using hnot
    · intro more
      rw [decode_append, decode_append_stopped hstopped, hmessages]
      exact List.append_nil _
  · have hsmall := length_writtenTo hserver (fun p => (hcut p).messages) conn
    rw [hwritten]
    apply decode_encodeAll
    intro message hmem
    have hlength := hsmall message hmem
    rw [LengthHeaderCodec.accepts, decide_eq_true_iff]
    omega

/-- The guard of the server on the network, for the events of the run below. -/
def endpointReady (e : Endpoint) : EndpointEvent → Bool
  | .up conn _ => decide (e.server.state conn = .kConnecting)
  | .bytes conn _ _ => e.server.live conn
  | _ => false

theorem enabled_of_endpointReady {event : EndpointEvent} (h : endpointReady e event = true) :
    endpointEnabled e event := by
  cases event with
  | up c now =>
      rw [endpointReady, decide_eq_true_iff] at h
      exact h
  | bytes c chunk time => exact h
  | down c => exact absurd h Bool.false_ne_true
  | timer now lock => exact absurd h Bool.false_ne_true

/-- Connection 0 registers as `"a"` in two pieces; connection 1 subscribes to it and goes on
with a length of -1. -/
def garbage : List EndpointEvent :=
  [.up 0 0, .up 1 0, .bytes 0 [0, 0, 0, 2, 1] 0, .bytes 0 [97] 0,
    .bytes 1 [0, 0, 0, 2, 2, 97, 255, 255, 255, 255] 0]

/-- The run is made, and its end is this. -/
theorem garbage_run :
    ∃ run e, (endpoint 300).Run run e ∧ run.map Transition.event = garbage ∧
      (e.inputBuffer 0).contents = [] ∧ e.server.live 0 = true ∧
      1 ∈ (e.server.context 0).sendToList.values ∧ e.server.connected 1 = false := by
  have hreplay : ((endpoint 300).replay endpointReady garbage Endpoint.initial).any
      (fun e => decide ((e.inputBuffer 0).contents = []) && (e.server.live 0 &&
        (decide (1 ∈ (e.server.context 0).sendToList.values) &&
        decide (e.server.connected 1 = false)))) = true := by
    decide +kernel
  obtain ⟨e, hrun, hevents, hend⟩ := Machine.Run.of_replay
    (fun _ _ hready => enabled_of_endpointReady hready) .start hreplay
  simp only [Bool.and_eq_true, decide_eq_true_iff] at hend
  exact ⟨_, e, hrun, hevents, hend⟩

/-- Both requests are handled, and nothing more from connection 1 ever is. -/
theorem streams_served_garbage :
    ∃ e trace, (endpoint 300).Reachable e ∧ (Server.machine 300).Run trace e.server ∧
      messagesOf 0 trace = [[1, 97]] ∧ messagesOf 1 trace = [[2, 97]] ∧
      e.server.connected 1 = false := by
  obtain ⟨run, e, hrun, hevents, -⟩ := garbage_run
  have hstream : ∀ conn, streamFrom conn run = garbage.flatMap (bytesFrom conn) := by
    intro conn
    rw [← hevents, List.flatMap_map]
    rfl
  have hframe : ∀ code, decode LengthHeaderCodec.accepts [0, 0, 0, 2, code, 97] =
      ⟨[[code, 97]], [], false⟩ := by
    intro code
    have hencode : encodeAll [[code, 97]] = [0, 0, 0, 2, code, 97] := by
      simp [encodeAll, encodeFrame, bigEndian]
    rw [← hencode]
    exact decode_encodeAll (by simp [LengthHeaderCodec.accepts])
  have hzero : decode LengthHeaderCodec.accepts (streamFrom 0 run) = ⟨[[1, 97]], [], false⟩ := by
    rw [hstream]
    exact hframe 1
  have hone : decode LengthHeaderCodec.accepts (streamFrom 1 run) =
      ⟨[[2, 97]], [255, 255, 255, 255], true⟩ := by
    have hbad : decode LengthHeaderCodec.accepts [255, 255, 255, 255] =
        ⟨[], [255, 255, 255, 255], true⟩ :=
      decode_of_bad (head_bad_iff.mpr ⟨255, 255, 255, 255, [], rfl, by decide⟩)
    have hsplit : streamFrom 1 run = [0, 0, 0, 2, 2, 97] ++ [255, 255, 255, 255] := by
      rw [hstream]
      rfl
    rw [hsplit, decode_append, hframe 2, List.nil_append, hbad]
    rfl
  obtain ⟨trace, hserver, -, hserves⟩ := streams_served hrun
  obtain ⟨hfirst, -⟩ := hserves 0
  obtain ⟨hsecond, -, -, hclosed, -⟩ := hserves 1
  rw [hzero] at hfirst
  rw [hone] at hsecond hclosed
  exact ⟨e, trace, ⟨run, hrun⟩, hserver, hfirst, hsecond, (hclosed rfl).1⟩

/-- Bytes complete a SEND_DATA that meets a receiver which is not connected. -/
def MeetsClosedReceiverOn (e : Endpoint) : EndpointEvent → Prop
  | .bytes conn chunk time =>
      MeetsClosedReceiverIn conn time ⟨e.server, e.written⟩ (e.found conn chunk).frames
  | _ => False

/-- **No bytes make the server fail.**  Whatever has arrived on the connections before, and
whatever arrives next, the assertions of the buffers and the one of `heartBeatFunc` hold and no
pointer leaves its vector, unless a message that is complete now is a SEND_DATA and the server,
when it comes to it, finds one of the receivers not connected.  Events are handled one at a time;
`getConnInfo`'s assertion that there is a context is not modelled, as every connection has one
from `up` on. -/
theorem streams_defined_iff (hreach : (endpoint idleSeconds).Reachable e) {event : EndpointEvent}
    (henabled : endpointEnabled e event) :
    (e.exec idleSeconds event).isSome = true ↔ ¬ MeetsClosedReceiverOn e event := by
  obtain ⟨run, hrun⟩ := hreach
  obtain ⟨trace, hserver, -, -⟩ := run_serves hrun
  have halone : ∀ serverEvent : Server.Event, Server.enabled e.server serverEvent →
      (∀ c message time, serverEvent ≠ .message c message time) →
      (e.serverStep idleSeconds serverEvent).isSome = true := by
    intro serverEvent hserverEnabled hquiet
    rw [Endpoint.serverStep, Option.isSome_map,
      Server.exec_isSome_iff ⟨trace, hserver⟩ hserverEnabled]
    cases serverEvent with
    | message c message time => exact absurd rfl (hquiet c message time)
    | up | down | invalidLength | timer => exact fun h => h
  cases event with
  | up c now => exact iff_of_true (halone _ henabled (by simp)) id
  | down c => exact iff_of_true (halone _ henabled (by simp)) id
  | timer now lock => exact iff_of_true (halone _ henabled (by simp)) id
  | bytes c chunk time =>
      obtain ⟨buffer, -, hread⟩ := read_eq e c chunk time
      have hnone := @foldl_handle_eq_none_iff idleSeconds c time (e.found c chunk).frames trace
        ⟨e.server, e.written⟩ hserver henabled
      show (e.read c chunk time).isSome = true ↔ ¬ MeetsClosedReceiverIn c time _ _
      rw [hread, Option.isSome_map, ← hnone, Option.isSome_iff_ne_none]

/-- After the run above a SEND_DATA of connection 0 is undefined, and any first part of it
is not. -/
theorem streams_defined_iff_garbage :
    ∃ e, (endpoint 300).Reachable e ∧ e.exec 300 (.bytes 0 [0, 0, 0, 2, 3, 120] 0) = none ∧
      (e.exec 300 (.bytes 0 [0, 0, 0, 2, 3] 0)).isSome = true := by
  obtain ⟨run, e, hrun, -, hempty, hlive, hmem, hclosed⟩ := garbage_run
  refine ⟨e, ⟨run, hrun⟩, ?_, ?_⟩
  · have hframes : (e.found 0 [0, 0, 0, 2, 3, 120]).frames = [[3, 120]] := by
      rw [Endpoint.found, hempty]
      exact congrArg Decoding.frames
        (@decode_encodeAll LengthHeaderCodec.accepts [[3, 120]] (by decide))
    have hmeets : MeetsClosedReceiverOn e (.bytes 0 [0, 0, 0, 2, 3, 120] 0) := by
      rw [MeetsClosedReceiverOn, hframes]
      exact ⟨[], [3, 120], [], _, rfl, rfl, rfl, 1, hmem, hclosed⟩
    rw [← Option.not_isSome_iff_eq_none,
      streams_defined_iff ⟨run, hrun⟩ (show endpointEnabled e (.bytes 0 _ 0) from hlive)]
    exact fun hnot => hnot hmeets
  · rw [streams_defined_iff ⟨run, hrun⟩ (show endpointEnabled e (.bytes 0 _ 0) from hlive)]
    have hframes : (e.found 0 [0, 0, 0, 2, 3]).frames = [] := by
      rw [Endpoint.found, hempty]
      exact congrArg Decoding.frames (decode_of_short
        (head_short_iff.mpr (Or.inr ⟨0, 0, 0, 2, [3], rfl, by decide, by decide⟩)))
    rw [MeetsClosedReceiverOn, hframes]
    rintro ⟨before, message, after, served, hsplit, -⟩
    exact absurd hsplit (by simp)

end

end Interop
end StupidP2P
