import StupidP2P.Interop.Network

/-!
# The two ends of a connection

What a client has to do with the two byte streams of its connection, for both APIs.
`Carries` says that the bytes it has transmitted are the frames of the first messages it
accepted, and `Decodes` that it has executed the complete frames among the bytes it has
read and keeps the rest.  Each step of a client keeps both.
-/

namespace StupidP2P
namespace Interop

open Foundation
open Foundation.Framing
open Server (P2PServer Conn Message ProtocolCode Frame dataPayloads isData
  LengthHeaderCodec.accepts)
open Client (Calloc Receiver RecvData SendPath SelfContained execFrame fits Inbox)
open PythonClient (StupidP2PClient CallEnv Taken ClientRecvThread delivers)

/-! ## The frames under way to a client -/

/-- A frame of the server that the C client can take. -/
def Relayed (message : Message) : Prop :=
  ∃ frame : Frame, frame.body = message ∧ message.length ≤ 2048

theorem Relayed.length_pos {message : Message} (h : Relayed message) : 1 ≤ message.length := by
  obtain ⟨frame, rfl, -⟩ := h
  exact frame.body_length_pos

/-- **What has arrived of such frames**: the decoders of both clients agree with that of the
server on it, and find the first of the frames. -/
theorem decode_relayed {frames : List Message} (hframes : ∀ message ∈ frames, Relayed message)
    {bytes : List UInt8} (harrived : bytes <+: encodeAll frames) :
    decode fits bytes = decode LengthHeaderCodec.accepts bytes ∧
      decode delivers bytes = decode LengthHeaderCodec.accepts bytes ∧
      (decode LengthHeaderCodec.accepts bytes).stopped = false ∧
      (decode LengthHeaderCodec.accepts bytes).frames <+: frames := by
  have hbounds : ∀ message ∈ frames, 1 ≤ message.length ∧ message.length ≤ 2048 := by
    intro message hmem
    obtain ⟨frame, hframe, hlimit⟩ := hframes message hmem
    exact ⟨Relayed.length_pos ⟨frame, hframe, hlimit⟩, hlimit⟩
  have hfits : (decode fits bytes).stopped = false := by
    refine (decode_arrived ?_ harrived).1
    intro message hmem
    have hlength := hbounds message hmem
    rw [fits, decide_eq_true_iff]
    omega
  have hdelivers : (decode delivers bytes).stopped = false := by
    refine (decode_arrived ?_ harrived).1
    intro message hmem
    have hlength := hbounds message hmem
    rw [delivers, decide_eq_true_iff]
    omega
  have haccepts := @decode_arrived LengthHeaderCodec.accepts bytes frames (by
    intro message hmem
    have hlength := hbounds message hmem
    rw [LengthHeaderCodec.accepts, decide_eq_true_iff]
    omega) harrived
  refine ⟨(decode_wider ?_ hfits).symm, (decode_wider ?_ hdelivers).symm, haccepts⟩
  · intro len hlen
    rw [fits, decide_eq_true_iff] at hlen
    rw [LengthHeaderCodec.accepts, decide_eq_true_iff]
    omega
  · intro len hlen
    rw [delivers, decide_eq_true_iff] at hlen
    rw [LengthHeaderCodec.accepts, decide_eq_true_iff]
    omega

theorem selfContained_relayed {message : Message} (h : Relayed message) :
    SelfContained message := by
  obtain ⟨frame, rfl, hlimit⟩ := h
  exact Client.selfContained_frame hlimit

/-! ## Executing frames, with or without memory -/

section

variable {calloc : Calloc} {r r' : Receiver}

/-- What executing frames does to the list of messages: each payload is appended, unless
there is no memory for it. -/
structure Appends (calloc : Calloc) (frames : List Message) (r r' : Receiver) : Prop where
  sendFifo_eq : r'.node.sendFifo = r.node.sendFifo
  list_eq : ∃ more, r'.node.recvDataList = r.node.recvDataList ++ more ∧
    (more.map RecvData.data).Sublist (dataPayloads frames) ∧
    ((∀ k size, calloc k size = true) → more.map RecvData.data = dataPayloads frames)

theorem Appends.nothing {frames : List Message} (hfifo : r'.node.sendFifo = r.node.sendFifo)
    (hlist : r'.node.recvDataList = r.node.recvDataList) (hnone : dataPayloads frames = []) :
    Appends calloc frames r r' := by
  refine ⟨hfifo, [], by rw [hlist, List.append_nil], List.nil_sublist _, ?_⟩
  intro _
  rw [hnone]
  rfl

/-- A data frame for which an allocation failed. -/
theorem Appends.dropped {frames : List Message} (hfifo : r'.node.sendFifo = r.node.sendFifo)
    (hlist : r'.node.recvDataList = r.node.recvDataList) {k size : Nat}
    (hfailed : ¬ calloc k size = true) : Appends calloc frames r r' := by
  refine ⟨hfifo, [], by rw [hlist, List.append_nil], List.nil_sublist _, ?_⟩
  intro hcalloc
  exact absurd (hcalloc k size) hfailed

theorem execFrame_appends {body : Message} (hself : SelfContained body)
    (h : execFrame calloc r body = some r') : Appends calloc [body] r r' := by
  rw [execFrame, Client.execCommand, Client.store_zero hself.nonempty] at h
  by_cases hdata : body.headD 0 = 0x03
  · have hpayload : dataPayloads [body] = [body.drop 1] := by
      have hisData : isData body = true := decide_eq_true hdata
      rw [dataPayloads, List.filter_cons_of_pos hisData]
      rfl
    rw [if_pos hdata, Client.execSendData_frame hself] at h
    split at h
    · split at h
      · split at h
        · obtain rfl := Option.some.inj h
          refine ⟨rfl, [⟨(body.length : Int) - 1, body.drop 1⟩], rfl, ?_, ?_⟩
          · rw [hpayload]
            exact List.Sublist.refl _
          · intro _
            rw [hpayload]
            rfl
        · rename_i hfailed
          obtain rfl := Option.some.inj h
          exact Appends.dropped rfl rfl hfailed
      · rename_i hfailed
        obtain rfl := Option.some.inj h
        exact Appends.dropped rfl rfl hfailed
    · rename_i hfailed
      obtain rfl := Option.some.inj h
      exact Appends.dropped rfl rfl hfailed
  · have hnone : dataPayloads [body] = [] := by
      have hisData : ¬ isData body = true := by
        rw [isData, decide_eq_true_iff]
        exact hdata
      rw [dataPayloads, List.filter_cons_of_neg hisData]
      rfl
    rw [if_neg hdata] at h
    split at h
    · obtain rfl := Option.some.inj h
      exact Appends.nothing rfl rfl hnone
    · obtain rfl := Option.some.inj h
      exact Appends.nothing rfl rfl hnone

/-- A sequence of frames, by induction on the frames. -/
theorem foldlM_execFrame_appends {frames : List Message}
    (hself : ∀ body ∈ frames, SelfContained body)
    (h : frames.foldlM (execFrame calloc) r = some r') : Appends calloc frames r r' := by
  induction frames generalizing r with
  | nil =>
      obtain rfl := Option.some.inj h
      exact Appends.nothing rfl rfl rfl
  | cons body frames ih =>
      obtain ⟨hbody, hframes⟩ := List.forall_mem_cons.mp hself
      rw [List.foldlM_cons] at h
      cases hnext : execFrame calloc r body with
      | none => simp [hnext] at h
      | some next =>
          rw [hnext] at h
          obtain ⟨hfifo, more, hlist, hsub, hall⟩ := execFrame_appends hbody hnext
          obtain ⟨hfifo', more', hlist', hsub', hall'⟩ := ih hframes h
          have hsplit : dataPayloads (body :: frames) =
              dataPayloads [body] ++ dataPayloads frames :=
            Server.dataPayloads_append [body] frames
          refine ⟨hfifo'.trans hfifo, more ++ more', ?_, ?_, ?_⟩
          · rw [hlist', hlist, List.append_assoc]
          · rw [List.map_append, hsplit]
            exact hsub.append hsub'
          · intro hcalloc
            rw [List.map_append, hsplit, hall hcalloc, hall' hcalloc]

end

/-! ## Reading -/

/-- The client has executed the complete frames among these bytes and keeps the rest. -/
def Peer.Decodes (calloc : Calloc) (bytes : List UInt8) : Peer → Prop
  | .c receiver buf reader =>
      receiver.node.needToRestartFlag = false ∧
        receiver.node.recvFifo.Holds (decode LengthHeaderCodec.accepts bytes).rest ∧
        ((Peer.c receiver buf reader).stored.Sublist
          (dataPayloads (decode LengthHeaderCodec.accepts bytes).frames)) ∧
        ((∀ k size, calloc k size = true) → (Peer.c receiver buf reader).stored =
          dataPayloads (decode LengthHeaderCodec.accepts bytes).frames) ∧
        ∀ dataBuf ∈ reader.dataBuf, dataBuf.length ≤ 1024
  | .python client =>
      client.recvThread.recvDeque.fromRight = (decode LengthHeaderCodec.accepts bytes).rest ∧
        client.recvThread.recvDataQueue.Sublist
          (dataPayloads (decode LengthHeaderCodec.accepts bytes).frames)

/-- The send threads of two states of a client have the same before them. -/
def Peer.SameCommands : Peer → Peer → Prop
  | .c receiver buf _, .c receiver' buf' _ =>
      receiver'.node.sendFifo = receiver.node.sendFifo ∧ buf' = buf ∧
        receiver'.node.needToRestartFlag = receiver.node.needToRestartFlag
  | .python client, .python client' => client'.runningFlag = client.runningFlag
  | _, _ => False

section

variable {calloc : Calloc} {consumed : Taken} {frames : List Message}
variable {before bytes : List UInt8}

/-- The C client reads. -/
theorem recv_c {receiver : Receiver} {buf : Nat → UInt8} {reader : Reader}
    (hframes : ∀ message ∈ frames, Relayed message)
    (harrived : before ++ bytes <+: encodeAll frames)
    (hbytes : 1 ≤ bytes.length ∧ bytes.length ≤ 4096)
    (h : (Peer.c receiver buf reader).Decodes calloc before) :
    ∃ peer, (Peer.c receiver buf reader).recv calloc consumed bytes = some peer ∧
      peer.Decodes calloc (before ++ bytes) ∧
      (Peer.c receiver buf reader).SameCommands peer := by
  obtain ⟨hflag, hfifo, hsub, hall, hroom⟩ := h
  obtain ⟨hfits, -, -, -⟩ := decode_relayed hframes
    ((List.prefix_append before bytes).trans harrived)
  obtain ⟨hfits', -, hgoes, hfirst⟩ := decode_relayed hframes harrived
  rw [← hfits] at hfifo hsub hall
  rw [← hfits'] at hgoes hfirst
  have hresume := @decode_append fits before bytes
  generalize hqueue : (decode fits before).rest = queue at hfifo hresume
  have hempty : decode fits queue = ⟨[], queue, false⟩ := by
    have hrest := @decode_rest fits before
    have hbefore : (decode fits before).stopped = false := by
      rw [hresume] at hgoes
      exact stopped_of_append (hqueue ▸ hgoes)
    rw [hqueue, hbefore] at hrest
    exact hrest
  rw [hresume] at hgoes hfirst
  have hself : ∀ body ∈ (decode fits (queue ++ bytes)).frames, SelfContained body := by
    intro body hmem
    exact selfContained_relayed (hframes body (hfirst.subset (List.mem_append_right _ hmem)))
  obtain ⟨r', fifo, hrun, hleft, hafter⟩ := @Client.afterRecv_eq calloc receiver queue
    (.chunk bytes) hfifo hempty rfl hbytes.2 (Or.inl hbytes.1) hgoes hself
  obtain ⟨hsend, more, hlist, hmore, hmem⟩ := foldlM_execFrame_appends hself hrun
  obtain ⟨-, -, hflag'⟩ := Client.foldlM_execFrame_same hself hrun
  have hstored : (Peer.c (r'.setFifo fifo) buf reader).stored =
      (Peer.c receiver buf reader).stored ++ more.map RecvData.data := by
    show (reader.returned ++ reader.dataBuf.getD [] ++ r'.node.recvDataList).map _ = _
    rw [hlist, ← List.append_assoc, List.map_append]
    rfl
  have hdata : dataPayloads (decode fits (before ++ bytes)).frames =
      dataPayloads (decode fits before).frames ++
        dataPayloads (decode fits (queue ++ bytes)).frames := by
    rw [hresume, Server.dataPayloads_append]
  refine ⟨.c (r'.setFifo fifo) buf reader, ?_, ⟨hflag'.trans hflag, ?_, ?_, ?_, hroom⟩,
    hsend, rfl, hflag'⟩
  · rw [Peer.recv, Client.recvRound_of_flag hflag, hafter]
    rfl
  · rw [← hfits', hresume]
    exact hleft
  · rw [← hfits', hdata, hstored]
    exact hsub.append hmore
  · intro hcalloc
    rw [← hfits', hdata, hstored, hall hcalloc, hmem hcalloc]

/-- The payloads of frames, read off their bodies. -/
theorem dataPayloads_map_body (frames : List Frame) :
    dataPayloads (frames.map Frame.body) = Frame.payloads frames := by
  induction frames with
  | nil => rfl
  | cons frame frames ih =>
      have hsplit : dataPayloads ((frame :: frames).map Frame.body) =
          dataPayloads [frame.body] ++ dataPayloads (frames.map Frame.body) :=
        Server.dataPayloads_append [frame.body] (frames.map Frame.body)
      rw [hsplit, ih, Frame.payloads_cons]
      congr 1
      cases frame with
      | callback code result => cases code <;> rfl
      | data payload => rfl

/-- Frames put into the queue of the Python client: in order, except for those that find it
full. -/
theorem foldl_receive_queue (consumed : Taken) (frames : List Frame) (t : ClientRecvThread) :
    ∃ more, (frames.foldl (ClientRecvThread.receive consumed) t).recvDataQueue =
        t.recvDataQueue ++ more ∧ more.Sublist (Frame.payloads frames) := by
  induction frames generalizing t with
  | nil => exact ⟨[], (List.append_nil _).symm, List.nil_sublist _⟩
  | cons frame frames ih =>
      obtain ⟨more, hqueue, hsub⟩ := ih (t.receive consumed frame)
      rw [List.foldl_cons, hqueue, Frame.payloads_cons]
      cases frame with
      | callback code result => exact ⟨more, rfl, hsub⟩
      | data payload =>
          show ∃ more', (t.putData consumed payload).recvDataQueue ++ more = _ ∧ _
          unfold ClientRecvThread.putData
          split
          · exact ⟨more, rfl, hsub.trans (List.sublist_append_right _ _)⟩
          · exact ⟨payload :: more, List.append_assoc _ _ _, hsub.cons_cons payload⟩

/-- The Python client reads. -/
theorem recv_python {client : StupidP2PClient}
    (hframes : ∀ message ∈ frames, Relayed message)
    (harrived : before ++ bytes <+: encodeAll frames)
    (h : (Peer.python client).Decodes calloc before) :
    ∃ peer, (Peer.python client).recv calloc consumed bytes = some peer ∧
      peer.Decodes calloc (before ++ bytes) ∧ (Peer.python client).SameCommands peer := by
  obtain ⟨hdeque, hsub⟩ := h
  obtain ⟨-, hdelivers, -, -⟩ := decode_relayed hframes
    ((List.prefix_append before bytes).trans harrived)
  obtain ⟨-, hdelivers', hgoes, hfirst⟩ := decode_relayed hframes harrived
  rw [← hdelivers] at hdeque hsub
  rw [← hdelivers'] at hgoes hfirst
  have hresume := @decode_append delivers before bytes
  have hbefore : (decode delivers before).stopped = false := by
    rw [hresume] at hgoes
    exact stopped_of_append hgoes
  rw [← hdeque] at hresume
  have hempty : decode delivers client.recvThread.recvDeque.fromRight =
      ⟨[], client.recvThread.recvDeque.fromRight, false⟩ := by
    have hrest := @decode_rest delivers before
    rw [hbefore, ← hdeque] at hrest
    exact hrest
  -- The bodies decoded from this read are those of frames.
  have hbodies : ∃ parsed : List Frame,
      (decode delivers (client.recvThread.recvDeque.fromRight ++ bytes)).frames =
        parsed.map Frame.body := by
    have hall : ∀ body ∈
        (decode delivers (client.recvThread.recvDeque.fromRight ++ bytes)).frames,
        ∃ frame : Frame, frame.body = body := by
      intro body hmem
      rw [hresume] at hfirst
      obtain ⟨frame, hframe, -⟩ := hframes body
        (hfirst.subset (List.mem_append_right _ hmem))
      exact ⟨frame, hframe⟩
    generalize (decode delivers (client.recvThread.recvDeque.fromRight ++ bytes)).frames =
      bodies at hall
    induction bodies with
    | nil => exact ⟨[], rfl⟩
    | cons body bodies ih =>
        obtain ⟨⟨frame, rfl⟩, hrest⟩ := List.forall_mem_cons.mp hall
        obtain ⟨parsed, rfl⟩ := ih hrest
        exact ⟨frame :: parsed, rfl⟩
  obtain ⟨parsed, hparsed⟩ := hbodies
  have hround := @PythonClient.run_eq consumed client.recvThread parsed
    (decode delivers (client.recvThread.recvDeque.fromRight ++ bytes)).rest [bytes] hempty (by
      rw [List.flatten_singleton, ← hparsed]
      rw [hresume] at hgoes
      rw [← hgoes])
  obtain ⟨more, hqueue, hmore⟩ := foldl_receive_queue consumed parsed client.recvThread
  have hrecv : PythonClient.runRound consumed client.recvThread (.data bytes) =
      some ((parsed.foldl (ClientRecvThread.receive consumed) client.recvThread).setDeque
        (.ofRight (decode delivers (client.recvThread.recvDeque.fromRight ++ bytes)).rest)) := by
    rw [← hround, PythonClient.run, List.map_singleton, List.foldlM_cons]
    cases PythonClient.runRound consumed client.recvThread (.data bytes) <;> rfl
  generalize hthread : (parsed.foldl (ClientRecvThread.receive consumed)
    client.recvThread).setDeque _ = thread at hrecv
  refine ⟨.python { client with recvThread := thread }, ?_, ⟨?_, ?_⟩, rfl⟩
  · rw [Peer.recv, hrecv, Option.map_some]
  · rw [← hdelivers', hresume, ← hthread]
    exact Deque.fromRight_ofRight _
  · rw [← hdelivers', hresume, Server.dataPayloads_append, hparsed, dataPayloads_map_body,
      ← hthread]
    change ClientRecvThread.recvDataQueue (List.foldl _ _ _) |>.Sublist _
    rw [hqueue]
    exact hsub.append hmore

end

/-- **A client reads.**  It executes the frames that are complete now. -/
theorem Peer.Decodes.recv {calloc : Calloc} {consumed : Taken} {frames : List Message}
    {before bytes : List UInt8} {peer : Peer} (h : peer.Decodes calloc before)
    (hframes : ∀ message ∈ frames, Relayed message)
    (harrived : before ++ bytes <+: encodeAll frames)
    (hbytes : 1 ≤ bytes.length ∧ bytes.length ≤ peer.recvLimit) :
    ∃ peer', peer.recv calloc consumed bytes = some peer' ∧
      peer'.Decodes calloc (before ++ bytes) ∧ peer.SameCommands peer' := by
  cases peer with
  | c receiver buf reader => exact recv_c hframes harrived hbytes h
  | python client => exact recv_python hframes harrived h

/-! ## Sending -/

/-- The bytes are the frames of `sent`, and `pending` waits for the send thread. -/
def Peer.Carries (sent pending : List Message) (bytes : List UInt8) : Peer → Prop
  | .c receiver buf _ => SendPath.Carries ⟨receiver.node, buf⟩ sent pending bytes
  | .python _ => pending = [] ∧ bytes = encodeAll sent ∧ ∀ message ∈ sent, message.length ≤ 2048

/-- How many commands wait for the send thread. -/
def Peer.waiting : Peer → Nat
  | .c receiver _ _ => receiver.node.sendFifo.num.toNat
  | .python _ => 0

theorem Peer.SameCommands.waiting_eq {peer peer' : Peer} (h : peer.SameCommands peer') :
    peer'.waiting = peer.waiting := by
  cases peer with
  | c receiver buf reader =>
      cases peer' with
      | c receiver' buf' reader' =>
          show receiver'.node.sendFifo.num.toNat = _
          rw [h.1]
          rfl
      | python client => exact h.elim
  | python client =>
      cases peer' with
      | c receiver buf reader => exact h.elim
      | python client' => rfl

namespace Peer.Carries

variable {peer peer' : Peer} {sent pending : List Message} {bytes : List UInt8}

theorem bytes_eq (h : peer.Carries sent pending bytes) : bytes = encodeAll sent := by
  cases peer with
  | c receiver buf reader => exact SendPath.Carries.bytes_eq h
  | python client => exact h.2.1

theorem small (h : peer.Carries sent pending bytes) :
    ∀ message ∈ sent, message.length ≤ 2048 := by
  intro message hmem
  cases peer with
  | c receiver buf reader =>
      have hsmall := SendPath.Carries.small h message (List.mem_append_left _ hmem)
      omega
  | python client => exact h.2.2 message hmem

theorem waiting_eq (h : peer.Carries sent pending bytes) : peer.waiting = pending.length := by
  cases peer with
  | c receiver buf reader =>
      have hnum := (SendPath.Carries.ring h).num_eq
      rw [List.length_map] at hnum
      show receiver.node.sendFifo.num.toNat = pending.length
      change receiver.node.sendFifo.num = _ at hnum
      omega
  | python client =>
      rw [h.1]
      rfl

/-- What the receive thread and the application do is nothing to the send thread. -/
theorem same (h : peer.Carries sent pending bytes) (hsame : peer.SameCommands peer') :
    peer'.Carries sent pending bytes := by
  cases peer with
  | c receiver buf reader =>
      cases peer' with
      | c receiver' buf' reader' =>
          obtain ⟨hfifo, rfl, hflag⟩ := hsame
          obtain ⟨hring, hbytes, hgoes, hsmall⟩ := h
          refine ⟨?_, hbytes, hflag.trans hgoes, hsmall⟩
          show receiver'.node.sendFifo.Holds _
          rw [hfifo]
          exact hring
      | python client => exact hsame.elim
  | python client =>
      cases peer' with
      | c receiver buf reader => exact hsame.elim
      | python client' => exact h

end Peer.Carries

/-- The reading side of a client is as it was. -/
theorem Peer.Decodes.same_c {calloc : Calloc} {bytes : List UInt8} {receiver : Receiver}
    {buf buf' : Nat → UInt8} {reader : Reader}
    (h : (Peer.c receiver buf reader).Decodes calloc bytes) {node : Client.ClientNode}
    (hfifo : node.recvFifo = receiver.node.recvFifo)
    (hlist : node.recvDataList = receiver.node.recvDataList)
    (hflag : node.needToRestartFlag = receiver.node.needToRestartFlag) :
    (Peer.c { receiver with node := node } buf' reader).Decodes calloc bytes := by
  obtain ⟨hgoes, hholds, hsub, hall, hroom⟩ := h
  have hstored : (Peer.c { receiver with node := node } buf' reader).stored =
      (Peer.c receiver buf reader).stored := by
    show (reader.returned ++ reader.dataBuf.getD [] ++ node.recvDataList).map _ = _
    rw [hlist]
    rfl
  refine ⟨hflag.trans hgoes, ?_, ?_, ?_, hroom⟩
  · show node.recvFifo.Holds _
    rw [hfifo]
    exact hholds
  · rw [hstored]
    exact hsub
  · rw [hstored]
    exact hall

/-- The send thread changes its own ring only. -/
theorem sendRound_same {node node' : Client.ClientNode} {buf buf' : Nat → UInt8}
    {more : List UInt8} (h : Client.sendRound node buf = some (node', buf', more)) :
    node'.recvFifo = node.recvFifo ∧ node'.recvDataList = node.recvDataList ∧
      node'.needToRestartFlag = node.needToRestartFlag := by
  unfold Client.sendRound at h
  split at h
  · obtain ⟨rfl, -⟩ := Prod.mk.inj (Option.some.inj h)
    exact ⟨rfl, rfl, rfl⟩
  · split at h
    · obtain ⟨rfl, -⟩ := Prod.mk.inj (Option.some.inj h)
      exact ⟨rfl, rfl, rfl⟩
    · dsimp only at h
      split at h
      · simp at h
      · split at h
        · simp at h
        · split at h
          · obtain ⟨rfl, -⟩ := Prod.mk.inj (Option.some.inj h)
            exact ⟨rfl, rfl, rfl⟩
          · simp at h

/-- A call of the Python API leaves what the receive thread has put together. -/
theorem sendCommand_same (client : StupidP2PClient) (code : ProtocolCode)
    (data : List UInt8) (env : CallEnv) :
    (client.sendCommand code data env).client.recvThread.recvDeque =
        client.recvThread.recvDeque ∧
      (client.sendCommand code data env).client.recvThread.recvDataQueue =
        client.recvThread.recvDataQueue := by
  unfold StupidP2PClient.sendCommand
  split
  · exact ⟨rfl, rfl⟩
  · dsimp only
    split
    · exact ⟨rfl, rfl⟩
    · rename_i sender offered hsend
      unfold StupidP2PClient.send at hsend
      split at hsend
      · simp at hsend
      · dsimp only at hsend
        split at hsend
        · split at hsend
          · obtain ⟨rfl, -⟩ := Prod.mk.inj (Except.ok.inj hsend)
            exact ⟨rfl, rfl⟩
          · obtain ⟨rfl, -⟩ := Prod.mk.inj (Except.ok.inj hsend)
            exact ⟨rfl, rfl⟩
        · obtain ⟨rfl, -⟩ := Prod.mk.inj (Except.ok.inj hsend)
          exact ⟨rfl, rfl⟩

section

variable {calloc : Calloc} {sent pending : List Message} {bytes arrived : List UInt8}

/-- **A call of the C API** queues its message, or nothing for want of memory. -/
theorem call_c {receiver : Receiver} {buf : Nat → UInt8} {reader : Reader}
    {malloc : Bool} {fd : Int} {command : UInt8} {data : List UInt8}
    (hcarries : (Peer.c receiver buf reader).Carries sent pending bytes)
    (hdecodes : (Peer.c receiver buf reader).Decodes calloc arrived) (hfd : 0 < fd)
    (hcode : (Client.commandCode command).isSome = true) (hlength : data.length ≤ 256)
    (hroom : receiver.node.sendFifo.num < Client.netSendCommandNum) :
    ∃ peer messages, (Peer.c receiver buf reader).call malloc fd command data =
        some (peer, messages) ∧
      peer.Carries sent (pending ++ messages) bytes ∧ peer.Decodes calloc arrived ∧
      ∀ message ∈ messages, message = command :: data := by
  obtain ⟨code, hcode'⟩ := Option.isSome_iff_exists.mp hcode
  obtain ⟨admission, hcall, hnext, -⟩ := @SendPath.Carries.call ⟨receiver.node, buf⟩
    sent pending bytes malloc fd command data hcarries hfd hcode hlength hroom
  have heq := @Client.needToSend_eq receiver.node (SendPath.Carries.goes hcarries)
    (fun _ => malloc) fd hfd command code hcode' data hlength
  have hadmission := Option.some.inj (hcall.symm.trans (heq.trans (apply_ite some _ _ _).symm))
  have hpeer : (Peer.c receiver buf reader).call malloc fd command data =
      some (.c { receiver with node := (SendPath.afterCall ⟨receiver.node, buf⟩ admission).node }
        buf reader, Peer.queuedMessage admission) := by
    rw [Peer.call, hcall, Option.map_some]
  refine ⟨_, _, hpeer, ?_⟩
  cases malloc with
  | false =>
      rw [if_neg Bool.false_ne_true] at hadmission hnext
      subst hadmission
      exact ⟨hnext, hdecodes, by simp [Peer.queuedMessage]⟩
  | true =>
      rw [if_pos rfl] at hadmission hnext
      subst hadmission
      exact ⟨hnext, hdecodes.same_c rfl rfl rfl, by simp [Peer.queuedMessage]⟩

/-- **A round of the send thread** transmits the oldest message, if there is one. -/
theorem transmit_c {receiver : Receiver} {buf : Nat → UInt8} {reader : Reader}
    (hcarries : (Peer.c receiver buf reader).Carries sent pending bytes)
    (hdecodes : (Peer.c receiver buf reader).Decodes calloc arrived) :
    ∃ peer more, (Peer.c receiver buf reader).transmit = some (peer, more) ∧
      peer.Carries (sent ++ pending.take 1) pending.tail (bytes ++ more) ∧
      peer.Decodes calloc arrived := by
  obtain ⟨node, buf', more, hsend, hnext⟩ := SendPath.Carries.send hcarries
  have hpeer : (Peer.c receiver buf reader).transmit =
      some (.c { receiver with node := node } buf' reader, more) := by
    rw [Peer.transmit, hsend, Option.map_some]
  refine ⟨_, _, hpeer, hnext, ?_⟩
  obtain ⟨hfifo, hlist, hflag⟩ := sendRound_same hsend
  exact hdecodes.same_c hfifo hlist hflag

/-- **A call of the Python API** transmits its frame, or nothing. -/
theorem sendCommand_python {client : StupidP2PClient} {code : ProtocolCode}
    {data : List UInt8} {env : CallEnv}
    (hcarries : (Peer.python client).Carries sent pending bytes)
    (hdecodes : (Peer.python client).Decodes calloc arrived) (hlength : data.length < 2048)
    (hsock : env.sock = .error ∨ env.sock = .sent (data.length + 5)) :
    ∃ peer more, (Peer.python client).sendCommand code data env = some (peer, more) ∧
      peer.Carries (sent ++ if more = [] then [] else [code.toByte :: data]) pending
        (bytes ++ more) ∧ peer.Decodes calloc arrived := by
  obtain ⟨rfl, hbytes, hsmall⟩ := hcarries
  obtain ⟨hdeque, hqueue⟩ := sendCommand_same client code data env
  have hreads : (Peer.python (client.sendCommand code data env).client).Decodes calloc arrived := by
    refine ⟨?_, ?_⟩
    · rw [hdeque]
      exact hdecodes.1
    · rw [hqueue]
      exact hdecodes.2
  -- Either nothing is transmitted or the whole frame.
  have hwhole : ∃ more, (Peer.python client).sendCommand code data env =
      some (.python (client.sendCommand code data env).client, more) ∧
        (more = [] ∨ more = encodeFrame (code.toByte :: data)) := by
    rcases hsock with herror | hsent
    · refine ⟨[], ?_, Or.inl rfl⟩
      simp only [Peer.sendCommand, herror]
    · cases hoffered : (client.sendCommand code data env).offered with
      | none =>
          refine ⟨[], ?_, Or.inl rfl⟩
          simp only [Peer.sendCommand, hsent, hoffered, Option.getD_none, List.take_nil]
      | some frame =>
          obtain ⟨-, -, -, rfl⟩ := StupidP2PClient.offered_sendCommand_iff.mp hoffered
          have hcount : (encodeFrame (code.toByte :: data)).length ≤ data.length + 5 := by
            rw [length_encodeFrame, List.length_cons]
            omega
          refine ⟨encodeFrame (code.toByte :: data), ?_, Or.inr rfl⟩
          simp only [Peer.sendCommand, hsent, hoffered, Option.getD_some,
            List.take_of_length_le hcount]
  obtain ⟨more, hpeer, hmore⟩ := hwhole
  refine ⟨_, more, hpeer, ⟨rfl, ?_, ?_⟩, hreads⟩
  · rcases hmore with rfl | rfl
    · rw [if_pos rfl, List.append_nil, List.append_nil]
      exact hbytes
    · have hne : ¬ encodeFrame (code.toByte :: data) = [] := by
        simp [encodeFrame, bigEndian]
      rw [if_neg hne, encodeAll_append, hbytes]
      simp
  · intro message hmem
    rcases List.mem_append.mp hmem with hold | hnew
    · exact hsmall message hold
    · split at hnew
      · simp at hnew
      · rw [List.mem_singleton.mp hnew, List.length_cons]
        omega

end

/-! ## Taking messages -/

section

variable {calloc : Calloc} {arrived : List UInt8}
variable {receiver : Receiver} {buf : Nat → UInt8} {reader : Reader}

/-- The table leads to the client. -/
theorem live_inboxOf (receiver : Receiver) (reader : Reader) : (inboxOf receiver reader).Live 1 :=
  ⟨⟨1, receiver.node⟩, rfl⟩

/-- `stupid_p2p_recv_data` is nothing to the send thread. -/
theorem sameCommands_ofInbox (inbox : Inbox) :
    (Peer.c receiver buf reader).SameCommands (Peer.ofInbox receiver buf inbox) :=
  ⟨rfl, rfl, rfl⟩

/-- The bytes a client has read are the same after a step that conserves the messages, or
loses some for want of memory. -/
theorem decodes_ofInbox {inbox : Inbox}
    (h : (Peer.c receiver buf reader).Decodes calloc arrived)
    (hsub : (inbox.returned ++ inbox.dataBuf.getD [] ++ inbox.queue 1).Sublist
      (inboxOf receiver reader).added)
    (hall : (∀ k size, calloc k size = true) →
      inbox.returned ++ inbox.dataBuf.getD [] ++ inbox.queue 1 = (inboxOf receiver reader).added)
    (hroom : ∀ dataBuf ∈ inbox.dataBuf, dataBuf.length ≤ 1024) :
    (Peer.ofInbox receiver buf inbox).Decodes calloc arrived := by
  obtain ⟨hgoes, hholds, hsub', hall', -⟩ := h
  refine ⟨hgoes, hholds, (hsub.map RecvData.data).trans hsub', ?_, hroom⟩
  intro hcalloc
  rw [← hall' hcalloc]
  exact congrArg (List.map RecvData.data) (hall hcalloc)

/-- **A call of `stupid_p2p_recv_data`** starts with an empty array, or returns a null pointer
for want of memory. -/
theorem recvDataCall_c (hidle : reader.dataBuf = none)
    (h : (Peer.c receiver buf reader).Decodes calloc arrived) :
    ∃ peer, (Peer.c receiver buf reader).recvDataCall calloc = some peer ∧
      (Peer.c receiver buf reader).SameCommands peer ∧ peer.Decodes calloc arrived := by
  refine ⟨_, rfl, sameCommands_ofInbox _, ?_⟩
  have hconserved : ((inboxOf receiver reader).call calloc 1).Conserved 1 :=
    Inbox.conserved_call rfl hidle
  have hadded : ((inboxOf receiver reader).call calloc 1).added =
      (inboxOf receiver reader).added := by
    unfold Inbox.call
    split
    · rfl
    · split <;> rfl
  rw [Inbox.Conserved, hadded] at hconserved
  refine decodes_ofInbox h (hconserved ▸ List.Sublist.refl _) (fun _ => hconserved) ?_
  intro dataBuf hbusy
  rw [(Inbox.of_call_busy hidle hbusy).1]
  exact Nat.zero_le _

/-- The call has 1024 messages in its array, and there is one more. -/
def Peer.Overruns : Peer → Prop
  | .c receiver _ reader =>
      (∃ dataBuf ∈ reader.dataBuf, dataBuf.length = 1024) ∧ receiver.node.recvDataList ≠ []
  | .python _ => False

section

variable {dataBuf list : List RecvData} {recvData : RecvData}

/-- The list is empty: the call returns its array, if it gets the memory. -/
theorem recvDataRound_nil (hbusy : reader.dataBuf = some dataBuf)
    (hlist : receiver.node.recvDataList = [])
    (h : (Peer.c receiver buf reader).Decodes calloc arrived) :
    ∃ peer, (Peer.c receiver buf reader).recvDataRound calloc = some peer ∧
      (Peer.c receiver buf reader).SameCommands peer ∧ peer.Decodes calloc arrived := by
  generalize hended : ((inboxOf receiver reader).setQueue 1 []).finish calloc dataBuf = ended
  have hround := @Inbox.round_of_nil (inboxOf receiver reader) calloc 1 dataBuf hlist
  have hempty : ended.queue 1 = [] := by
    rw [← hended]
    exact Inbox.queue_setQueue (live_inboxOf receiver reader) []
  have hadded : (inboxOf receiver reader).added = reader.returned ++ dataBuf := by
    rw [inboxOf, hbusy, hlist, List.append_nil]
    rfl
  have hreturned : ended.returned = if calloc receiver.callocs (8 * dataBuf.length) then
      reader.returned ++ dataBuf else reader.returned := by
    rw [← hended]
    rfl
  have hnone : ended.dataBuf = none := by rw [← hended]; rfl
  refine ⟨Peer.ofInbox receiver buf ended, ?_, sameCommands_ofInbox ended, ?_⟩
  · rw [Peer.recvDataRound, hbusy, Option.bind_some, hround, hended]
    rfl
  · refine decodes_ofInbox h ?_ ?_ ?_
    · rw [hempty, hnone, hadded, hreturned, List.append_nil]
      split
      · simp
      · simp
    · intro hcalloc
      rw [hempty, hnone, hadded, hreturned, if_pos (hcalloc _ _), List.append_nil]
      exact List.append_nil _
    · rw [hnone]
      rintro _ ⟨⟩

/-- There is a message and room for it: it is moved to the array. -/
theorem recvDataRound_cons (hbusy : reader.dataBuf = some dataBuf)
    (hlist : receiver.node.recvDataList = recvData :: list) (hroom : dataBuf.length < 1024)
    (h : (Peer.c receiver buf reader).Decodes calloc arrived) :
    ∃ peer, (Peer.c receiver buf reader).recvDataRound calloc = some peer ∧
      (Peer.c receiver buf reader).SameCommands peer ∧ peer.Decodes calloc arrived := by
  have hmax : Client.maxNum = 1024 := rfl
  have hround := @Inbox.round_of_room (inboxOf receiver reader) calloc 1 dataBuf list recvData
    hlist (by omega)
  have hkept : reader.returned ++ (dataBuf ++ [recvData]) ++
      ((inboxOf receiver reader).setQueue 1 list).queue 1 =
        (inboxOf receiver reader).added := by
    rw [Inbox.queue_setQueue (live_inboxOf receiver reader), inboxOf, hbusy, hlist]
    simp
  refine ⟨_, ?_, sameCommands_ofInbox { (inboxOf receiver reader).setQueue 1 list with
    dataBuf := some (dataBuf ++ [recvData]) }, ?_⟩
  · rw [Peer.recvDataRound, hbusy, Option.bind_some, hround]
    simp only [List.all_cons, List.all_nil, Bool.and_true, decide_eq_true_eq]
    rw [if_pos hroom]
  · refine decodes_ofInbox h (hkept ▸ List.Sublist.refl _) (fun _ => hkept) ?_
    intro other hother
    obtain rfl := Option.some.inj hother
    rw [List.length_append, List.length_singleton]
    omega

/-- There is a message and no room: it is written behind the array. -/
theorem recvDataRound_full (hbusy : reader.dataBuf = some dataBuf)
    (hlist : receiver.node.recvDataList = recvData :: list) (hfull : dataBuf.length = 1024) :
    (Peer.c receiver buf reader).recvDataRound calloc = none := by
  have hround := @Inbox.round_of_room (inboxOf receiver reader) calloc 1 dataBuf list recvData
    hlist hfull.le
  rw [Peer.recvDataRound, hbusy, Option.bind_some, hround]
  simp [hfull]

end

/-- **A round of `stupid_p2p_recv_data`** takes a message, or ends the call; except that with
1024 messages in the array it must not find another. -/
theorem recvDataRound_c (hbusy : reader.dataBuf ≠ none)
    (h : (Peer.c receiver buf reader).Decodes calloc arrived) :
    ((Peer.c receiver buf reader).Overruns ∧
        (Peer.c receiver buf reader).recvDataRound calloc = none) ∨
      ¬ (Peer.c receiver buf reader).Overruns ∧
        ∃ peer, (Peer.c receiver buf reader).recvDataRound calloc = some peer ∧
          (Peer.c receiver buf reader).SameCommands peer ∧ peer.Decodes calloc arrived := by
  obtain ⟨dataBuf, hdataBuf⟩ := Option.ne_none_iff_exists'.mp hbusy
  have hlimit := h.2.2.2.2 dataBuf hdataBuf
  cases hlist : receiver.node.recvDataList with
  | nil => exact Or.inr ⟨fun hover => hover.2 hlist, recvDataRound_nil hdataBuf hlist h⟩
  | cons recvData list =>
      by_cases hfull : dataBuf.length = 1024
      · refine Or.inl ⟨⟨⟨dataBuf, hdataBuf, hfull⟩, ?_⟩, recvDataRound_full hdataBuf hlist hfull⟩
        rw [hlist]
        exact List.cons_ne_nil _ _
      · refine Or.inr ⟨?_, recvDataRound_cons hdataBuf hlist (by omega) h⟩
        rintro ⟨⟨other, hother, hlength⟩, -⟩
        obtain rfl := Option.some.inj (hdataBuf.symm.trans hother)
        exact hfull hlength

end

/-! ## The API of a client -/

namespace Peer

/-- The client uses the C API. -/
def isC : Peer → Bool
  | c _ _ _ => true
  | python _ => false

variable {peer peer' : Peer}

theorem isC_iff : peer.isC = true ↔ ∃ receiver buf reader, peer = .c receiver buf reader := by
  cases peer with
  | c receiver buf reader => simp [isC]
  | python client => simp [isC]

theorem isC_call {malloc : Bool} {fd : Int} {command : UInt8} {data : List UInt8}
    {messages : List Message} (h : peer.call malloc fd command data = some (peer', messages)) :
    peer'.isC = peer.isC := by
  cases peer with
  | c receiver buf reader =>
      obtain ⟨admission, -, hout⟩ := Option.map_eq_some_iff.mp h
      rw [← (Prod.mk.inj hout).1]
      rfl
  | python client => exact absurd h (by simp [call])

theorem isC_transmit {bytes : List UInt8} (h : peer.transmit = some (peer', bytes)) :
    peer'.isC = peer.isC := by
  cases peer with
  | c receiver buf reader =>
      obtain ⟨round, -, hout⟩ := Option.map_eq_some_iff.mp h
      rw [← (Prod.mk.inj hout).1]
      rfl
  | python client => exact absurd h (by simp [transmit])

theorem isC_sendCommand {code : ProtocolCode} {data bytes : List UInt8} {env : CallEnv}
    (h : peer.sendCommand code data env = some (peer', bytes)) : peer'.isC = peer.isC := by
  cases peer with
  | c receiver buf reader => exact absurd h (by simp [sendCommand])
  | python client =>
      rw [← (Prod.mk.inj (Option.some.inj h)).1]
      rfl

theorem isC_recv {calloc : Calloc} {consumed : Taken} {bytes : List UInt8}
    (h : peer.recv calloc consumed bytes = some peer') : peer'.isC = peer.isC := by
  cases peer with
  | c receiver buf reader =>
      obtain ⟨receiver', -, rfl⟩ := Option.map_eq_some_iff.mp h
      rfl
  | python client =>
      obtain ⟨thread, -, rfl⟩ := Option.map_eq_some_iff.mp h
      rfl

theorem isC_recvDataCall {calloc : Calloc} (h : peer.recvDataCall calloc = some peer') :
    peer'.isC = peer.isC := by
  cases peer with
  | c receiver buf reader =>
      rw [← Option.some.inj h]
      rfl
  | python client => exact absurd h (by simp [recvDataCall])

theorem isC_recvDataRound {calloc : Calloc} (h : peer.recvDataRound calloc = some peer') :
    peer'.isC = peer.isC := by
  cases peer with
  | c receiver buf reader =>
      obtain ⟨dataBuf, -, hround⟩ := Option.bind_eq_some_iff.mp h
      obtain ⟨-, hinbox⟩ := Option.ite_none_right_eq_some.mp hround
      rw [← Option.some.inj hinbox]
      rfl
  | python client => exact absurd h (by simp [recvDataRound])

end Peer

end Interop
end StupidP2P
