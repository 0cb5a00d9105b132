import StupidP2P.Client.SendPath
import StupidP2P.Foundation.Writes
import StupidP2P.PythonClient.Send

/-!
# Short writes

Both clients call `send` once for each frame and never look at how much of it was taken: the
C send thread logs the difference, the Python client drops the result.  When a frame is cut
short and a later one gets through, the server reads on inside the first.

What holds in general about such writes is in `Foundation.Writes`; here it is applied to the
runs of the two clients, and the frames that arrive are compared with what the server's codec
makes of them.
-/

namespace StupidP2P
namespace Interop

open Foundation
open Foundation.Framing
open Server.LengthHeaderCodec (accepts receive)
open Client (SendPath SendPathEvent accepted handed sendPathMachine)
open PythonClient (SockSend StupidP2PClient)

/-! ## Frames on the connection -/

/-- The bytes begin a sequence of complete frames of some of the commands, and the codec
hands on none but these. -/
def CarriesFrames (bytes : List UInt8) (commands : List (List UInt8)) : Prop :=
  ∃ kept, kept.Sublist commands ∧ bytes <+: encodeAll kept ∧
    (decode accepts bytes).frames <+: kept

/-- At all times every byte on the connection stands where it would stand among complete
frames, and what arrives are frames of the commands. -/
def FramingKept (writes : List (Write UInt8)) (commands : List (List UInt8)) : Prop :=
  ∀ k, InFrames (writes.take k) ∧ CarriesFrames (wire (writes.take k)) commands

theorem carriesFrames_of_quiet {writes : List (Write UInt8)} {sent commands : List (List UInt8)}
    (hoffered : writes.map Write.offered = sent.map encodeFrame)
    (hsmall : ∀ message ∈ sent, message.length < 4294967296) (hsent : sent.Sublist commands)
    (hquiet : QuietAfterShort writes) : CarriesFrames (wire writes) commands := by
  obtain ⟨frames, hframes, hwire⟩ := wire_prefix hquiet
  rw [hoffered] at hframes
  obtain ⟨kept, hkept, rfl⟩ := List.sublist_map_iff.mp hframes
  have hnonneg : ∀ len, accepts len = true → 0 ≤ len := by
    intro len hlen
    rw [accepts, decide_eq_true_iff] at hlen
    exact hlen.1
  refine ⟨kept, hkept.trans hsent, hwire, frames_arrived hnonneg ?_ hwire⟩
  exact fun message hmem => hsmall message (hkept.subset hmem)

/-- **One frame for each write**: framing is kept exactly if nothing is written after a write
that was cut short. -/
theorem framingKept_iff {writes : List (Write UInt8)} {sent commands : List (List UInt8)}
    (hoffered : writes.map Write.offered = sent.map encodeFrame)
    (hsmall : ∀ message ∈ sent, message.length < 4294967296) (hsent : sent.Sublist commands) :
    FramingKept writes commands ↔ QuietAfterShort writes := by
  constructor
  · intro hkept
    exact inFrames_always_iff.mp fun k => (hkept k).1
  · intro hquiet k
    refine ⟨inFrames_always_iff.mpr hquiet k, ?_⟩
    have htake : (writes.take k).map Write.offered = (sent.take k).map encodeFrame := by
      rw [List.map_take, hoffered, List.map_take]
    have hfirst := List.take_sublist k sent
    exact carriesFrames_of_quiet htake
      (fun message hmem => hsmall message (hfirst.subset hmem)) (hfirst.trans hsent)
      (hquiet.take k)

/-! ## The Python client -/

/-- What gets through of the bytes handed to `sock.send`, which takes no more than it is
offered. -/
def sockWrite (bytes : List UInt8) : SockSend → Write UInt8
  | .sent count => ⟨bytes, min count bytes.length, Nat.min_le_right _ _⟩
  | .error => ⟨bytes, 0, Nat.zero_le _⟩

/-- The calls of `__send` on one connection, from whatever thread, with what `sock.send` comes
to in each: the writes. -/
def sendAll : StupidP2PClient → List (List UInt8 × SockSend) → List (Write UInt8)
  | _, [] => []
  | client, (command, sock) :: calls =>
      match client.send command sock with
      | .error _ => sendAll client calls
      | .ok (client, none) => sendAll client calls
      | .ok (client, some bytes) => sockWrite bytes sock :: sendAll client calls

/-- The writes of the Python client are frames of some of the commands. -/
theorem sendAll_offered (client : StupidP2PClient) (calls : List (List UInt8 × SockSend)) :
    ∃ sent : List (List UInt8), sent.Sublist (calls.map Prod.fst) ∧
      (sendAll client calls).map Write.offered = sent.map encodeFrame ∧
      ∀ message ∈ sent, message.length < 4294967296 := by
  induction calls generalizing client with
  | nil => exact ⟨[], .slnil, rfl, by simp⟩
  | cons call calls ih =>
      obtain ⟨command, sock⟩ := call
      rw [sendAll, List.map_cons]
      cases hsend : client.send command sock with
      | error e =>
          obtain ⟨sent, hsent, hoffered, hsmall⟩ := ih client
          exact ⟨sent, hsent.cons _, hoffered, hsmall⟩
      | ok result =>
          obtain ⟨client', offered⟩ := result
          obtain ⟨sent, hsent, hoffered, hsmall⟩ := ih client'
          cases offered with
          | none => exact ⟨sent, hsent.cons _, hoffered, hsmall⟩
          | some bytes =>
              obtain ⟨rfl, hlength⟩ := StupidP2PClient.send_some hsend
              refine ⟨command :: sent, hsent.cons_cons _, ?_, ?_⟩
              · rw [List.map_cons, List.map_cons, hoffered]
                cases sock <;> rfl
              · exact List.forall_mem_cons.mpr ⟨hlength, hsmall⟩

/-! ## Both clients -/

/-- **Short writes.**  In every run of the callers and the send thread of the C client, and
over all calls of `__send` of the Python client, whatever part of each frame gets through,
framing is kept exactly if nothing gets through after a frame that was cut short. -/
theorem short_writes_framing_iff (client : StupidP2PClient)
    (calls : List (List UInt8 × SockSend)) :
    (∀ trace s writes, sendPathMachine.Run trace s → writes.map Write.offered = handed trace →
      (FramingKept writes (accepted trace) ↔ QuietAfterShort writes)) ∧
    (FramingKept (sendAll client calls) (calls.map Prod.fst) ↔
      QuietAfterShort (sendAll client calls)) := by
  constructor
  · intro trace s writes hrun hwrites
    obtain ⟨sent, pending, haccepted, hhanded, hcarries⟩ := Client.sendPath_handed hrun
    rw [hhanded] at hwrites
    refine framingKept_iff hwrites ?_ ?_
    · intro message hmem
      have hlength := hcarries.small message (List.mem_append_left _ hmem)
      omega
    · rw [haccepted]
      exact List.sublist_append_left sent pending
  · obtain ⟨sent, hsent, hoffered, hsmall⟩ := sendAll_offered client calls
    exact framingKept_iff hoffered hsmall hsent

/-- After the REGISTER of `registerSent` a caller queues a heartbeat. -/
def heartBeatQueued : Transition SendPath SendPathEvent (List UInt8) :=
  ⟨Client.registerSent.post, .call true 1 0x07 [], [],
    Client.registerSent.post.afterCall (.queued .heartBeat [0x07] 1)⟩

/-- The send thread hands it to `send`. -/
def heartBeatSent : Transition SendPath SendPathEvent (List UInt8) :=
  ⟨heartBeatQueued.post, .send, [0, 0, 0, 1, 0x07],
    { node :=
        { heartBeatQueued.post.node with
          sendFifo := (Client.sendCommandFifoPop heartBeatQueued.post.node.sendFifo).1 }
      buf := Client.store 0 [0, 0, 0, 1, 0x07] heartBeatQueued.post.buf }⟩

theorem heartBeatSent_run :
    sendPathMachine.Run
      [Client.registerQueued, Client.registerSent, heartBeatQueued, heartBeatSent]
      heartBeatSent.post := by
  have hregister : sendPathMachine.Step Client.registerQueued :=
    ⟨⟨by decide, by decide, by decide, by decide⟩, rfl⟩
  have hregisterSent : sendPathMachine.Step Client.registerSent := ⟨trivial, rfl⟩
  have hheartBeat : sendPathMachine.Step heartBeatQueued :=
    ⟨⟨by decide, by decide, by decide, by decide⟩, rfl⟩
  have hheartBeatSent : sendPathMachine.Step heartBeatSent := ⟨trivial, rfl⟩
  exact .step (.step (.step (.step .start hregister) hregisterSent) hheartBeat) hheartBeatSent

/-- The first three bytes of a REGISTER and all of a heartbeat. -/
def cutRegister : List (Write UInt8) :=
  [⟨[0, 0, 0, 2, 0x01, 97], 3, by decide⟩, ⟨[0, 0, 0, 1, 0x07], 5, by decide⟩]

theorem not_quiet_cutRegister : ¬ QuietAfterShort cutRegister := by
  intro hquiet
  have hnone := (quietAfterShort_cons.mp hquiet).1 ⟨by decide, by decide⟩
  exact absurd hnone (by decide)

/-- **A REGISTER cut short and a heartbeat.**  Both clients can put these bytes on the
connection.  The codec hands on an empty message that nobody has sent and takes the rest for
the header of a frame of 263 bytes. -/
theorem short_write_shifts_header :
    (sendPathMachine.Run
        [Client.registerQueued, Client.registerSent, heartBeatQueued, heartBeatSent]
        heartBeatSent.post ∧
      cutRegister.map Write.offered =
        handed [Client.registerQueued, Client.registerSent, heartBeatQueued, heartBeatSent]) ∧
    sendAll .connected [([0x01, 97], .sent 3), ([0x07], .sent 5)] = cutRegister ∧
    wire cutRegister = [0, 0, 0, 0, 0, 0, 1, 0x07] ∧
    receive [wire cutRegister] = ([0, 0, 1, 0x07], ⟨[[]], false⟩) ∧
    ¬ FramingKept cutRegister [[0x01, 97], [0x07]] := by
  refine ⟨⟨heartBeatSent_run, rfl⟩, rfl, by decide, by decide +kernel, ?_⟩
  rw [@framingKept_iff cutRegister [[0x01, 97], [0x07]] _ rfl (by decide) (List.Sublist.refl _)]
  exact not_quiet_cutRegister

/-- Two frames in full and the beginning of a third. -/
theorem short_writes_framing_last :
    FramingKept
      (sendAll .connected [([0x01, 97], .sent 6), ([0x07], .sent 5), ([0x07], .sent 2)])
      [[0x01, 97], [0x07], [0x07]] := by
  refine (short_writes_framing_iff .connected
    [([0x01, 97], .sent 6), ([0x07], .sent 5), ([0x07], .sent 2)]).2.mpr ?_
  have hwrites : sendAll .connected
      [([0x01, 97], .sent 6), ([0x07], .sent 5), ([0x07], .sent 2)] =
        [⟨[0, 0, 0, 2, 0x01, 97], 6, by decide⟩, ⟨[0, 0, 0, 1, 0x07], 5, by decide⟩,
          ⟨[0, 0, 0, 1, 0x07], 2, by decide⟩] := rfl
  rw [hwrites, quietAfterShort_cons, quietAfterShort_cons, quietAfterShort_cons]
  refine ⟨fun hshort => ?_, fun hshort => ?_, fun _ => rfl, List.Pairwise.nil⟩
  · exact absurd hshort.2 (by decide)
  · exact absurd hshort.2 (by decide)

end Interop
end StupidP2P
