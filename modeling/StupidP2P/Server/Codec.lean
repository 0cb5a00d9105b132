import StupidP2P.Foundation.Framing
import StupidP2P.Server.Model
import Mathlib.Data.List.Induction

/-!
# The server's codec

`LengthHeaderCodec` cuts the bytes of a connection into messages.  `onMessage` is
called after every read, with whatever the earlier calls left in the buffer, so a
frame may be spread over many reads and one read may hold many frames.

The buffer of muduo is a queue of bytes here.  What the codec does with a message
is left open: `messageCallback` and `shutdown` act on any type of state.
-/

namespace StupidP2P
namespace Server
namespace LengthHeaderCodec

open Foundation
open Foundation.Framing

def kHeaderLen : Nat := 4

/-- The first four bytes in network order, as an `int32_t`. -/
def peekInt32 : List UInt8 → Int
  | a :: b :: c :: d :: _ => headerValue a b c d
  | _ => 0

/-- The bytes `send` writes to the connection. -/
def send (message : Message) : List UInt8 :=
  bigEndian message.length ++ message

section

variable {σ : Type} (messageCallback : σ → Message → σ) (shutdown : σ → σ)

/-- The loop of `onMessage`.  Every round that goes on takes a header from the
buffer, so `fuel` beyond the length of the buffer is never used up. -/
def onMessageLoop : Nat → List UInt8 → σ → List UInt8 × σ
  | 0, buf, s => (buf, s)
  | fuel + 1, buf, s =>
      if kHeaderLen ≤ buf.length then
        let len := peekInt32 buf
        if len > 65536 ∨ len < 0 then (buf, shutdown s)
        else if len.toNat + kHeaderLen ≤ buf.length then
          let buf := buf.drop kHeaderLen
          let s := messageCallback s (buf.take len.toNat)
          onMessageLoop fuel (buf.drop len.toNat) s
        else (buf, s)
      else (buf, s)

def onMessage (buf : List UInt8) (s : σ) : List UInt8 × σ :=
  onMessageLoop messageCallback shutdown (buf.length + 1) buf s

/-- One read: muduo appends the bytes to the input buffer and calls `onMessage`. -/
def read (state : List UInt8 × σ) (bytes : List UInt8) : List UInt8 × σ :=
  onMessage messageCallback shutdown (state.1 ++ bytes) state.2

end

/-- The lengths the codec lets pass. -/
def accepts (len : Int) : Bool := decide (0 ≤ len ∧ len ≤ 65536)

/-- What a decoding does to the state behind the callbacks. -/
def deliver {σ : Type} (messageCallback : σ → Message → σ) (shutdown : σ → σ)
    (d : Decoding) (s : σ) : σ :=
  if d.stopped then shutdown (d.frames.foldl messageCallback s)
  else d.frames.foldl messageCallback s

section

variable {σ : Type} {messageCallback : σ → Message → σ} {shutdown : σ → σ}
variable {fuel : Nat} {buf body rest : List UInt8} {s : σ}

theorem peekInt32_cons (a b c d : UInt8) (tail : List UInt8) :
    peekInt32 (a :: b :: c :: d :: tail) = headerValue a b c d := by
  rw [peekInt32]

/-- One round of the loop, by what stands at the front of the buffer. -/
theorem onMessageLoop_succ :
    onMessageLoop messageCallback shutdown (fuel + 1) buf s =
      match head accepts buf with
      | .frame body rest =>
          onMessageLoop messageCallback shutdown fuel rest (messageCallback s body)
      | .short => (buf, s)
      | .bad => (buf, shutdown s) := by
  rw [onMessageLoop]
  by_cases hheader : kHeaderLen ≤ buf.length
  · rw [if_pos hheader]
    obtain ⟨a, b, c, d, tail, rfl⟩ := exists_header_of_length hheader
    rw [peekInt32_cons, head_cons]
    generalize headerValue a b c d = len
    have hroom : len.toNat + kHeaderLen ≤ (a :: b :: c :: d :: tail).length ↔
        len.toNat ≤ tail.length := by
      simp only [kHeaderLen, List.length_cons]
      omega
    simp only [hroom]
    by_cases hrange : len > 65536 ∨ len < 0
    · have hrejects : accepts len = false := by
        simp only [accepts, decide_eq_false_iff_not]
        omega
      simp only [if_pos hrange, hrejects, Bool.false_eq_true, if_false]
    · have haccepts : accepts len = true := by
        simp only [accepts, decide_eq_true_eq]
        omega
      simp only [if_neg hrange, haccepts, if_true]
      by_cases hfits : len.toNat ≤ tail.length
      · simp only [if_pos hfits]
        rfl
      · simp only [if_neg hfits]
  · rw [if_neg hheader, head_of_length_lt (Nat.lt_of_not_le hheader)]

/-- The loop decodes its buffer. -/
theorem onMessageLoop_eq (hfuel : buf.length < fuel) :
    onMessageLoop messageCallback shutdown fuel buf s =
      ((decode accepts buf).rest,
        deliver messageCallback shutdown (decode accepts buf) s) := by
  induction fuel generalizing buf s with
  | zero => omega
  | succ fuel ih =>
      rw [onMessageLoop_succ]
      cases hhead : head accepts buf with
      | frame body rest =>
          have hlength := head_frame_length hhead
          rw [decode_of_frame hhead]
          exact ih (by omega)
      | short =>
          rw [decode_of_short hhead]
          rfl
      | bad =>
          rw [decode_of_bad hhead]
          rfl

theorem onMessage_eq (buf : List UInt8) (s : σ) :
    onMessage messageCallback shutdown buf s =
      ((decode accepts buf).rest,
        deliver messageCallback shutdown (decode accepts buf) s) :=
  onMessageLoop_eq (Nat.lt_succ_self _)

/-- Delivering what was decoded before and after a cut is delivering the whole.
Only `shutdown` can be called more often: at every read after a bad length. -/
theorem deliver_append (hshutdown : ∀ s, shutdown (shutdown s) = shutdown s)
    (xs ys : List UInt8) :
    deliver messageCallback shutdown (decode accepts ((decode accepts xs).rest ++ ys))
        (deliver messageCallback shutdown (decode accepts xs) s) =
      deliver messageCallback shutdown (decode accepts (xs ++ ys)) s := by
  rw [decode_append xs ys]
  cases hstopped : (decode accepts xs).stopped with
  | false => simp [deliver, hstopped, List.foldl_append]
  | true =>
      -- The bad length is still in front, so the second decoding has no frames.
      have hfront : decode accepts ((decode accepts xs).rest ++ ys) =
          ⟨[], (decode accepts xs).rest ++ ys, true⟩ := by
        exact decode_append_stopped hstopped ys
      simp [deliver, hstopped, hfront, hshutdown]

/-- **The codec does not depend on how a stream is cut into reads.** -/
theorem foldl_read_eq (hshutdown : ∀ s, shutdown (shutdown s) = shutdown s)
    (reads : List (List UInt8)) (s : σ) :
    reads.foldl (read messageCallback shutdown) ([], s) =
      ((decode accepts reads.flatten).rest,
        deliver messageCallback shutdown (decode accepts reads.flatten) s) := by
  induction reads using List.reverseRecOn with
  | nil =>
      rw [List.flatten_nil, decode_of_short rfl]
      rfl
  | append_singleton reads bytes ih =>
      rw [List.foldl_append, ih, List.foldl_cons, List.foldl_nil, read, onMessage_eq,
        deliver_append hshutdown, List.flatten_append, List.flatten_singleton,
        decode_append reads.flatten bytes]

end

/-- What has happened behind the codec: the messages handed to the callback, and
whether the connection was shut down. -/
structure Handed where
  messages : List Message
  isShutdown : Bool
deriving DecidableEq

def Handed.record (h : Handed) (message : Message) : Handed :=
  { h with messages := h.messages ++ [message] }

def Handed.close (h : Handed) : Handed :=
  { h with isShutdown := true }

/-- The codec run over a list of reads: the bytes left in the buffer, and what was
handed on. -/
def receive (reads : List (List UInt8)) : List UInt8 × Handed :=
  reads.foldl (read Handed.record Handed.close) ([], ⟨[], false⟩)

theorem foldl_record (frames : List Message) (h : Handed) :
    frames.foldl Handed.record h = ⟨h.messages ++ frames, h.isShutdown⟩ := by
  induction frames generalizing h with
  | nil => simp
  | cons frame frames ih => simp [ih, Handed.record]

theorem receive_eq (reads : List (List UInt8)) :
    receive reads =
      ((decode accepts reads.flatten).rest,
        ⟨(decode accepts reads.flatten).frames, (decode accepts reads.flatten).stopped⟩) := by
  have hclose : ∀ h : Handed, h.close.close = h.close := fun _ => rfl
  rw [receive, foldl_read_eq hclose, deliver, foldl_record]
  cases (decode accepts reads.flatten).stopped <;> rfl

theorem decode_send {messages : List Message} (hsmall : ∀ m ∈ messages, m.length ≤ 65536) :
    decode accepts (messages.flatMap send) = ⟨messages, [], false⟩ := by
  apply decode_encodeAll
  intro m hm
  have hlength := hsmall m hm
  constructor
  · simp only [accepts, decide_eq_true_eq]
    omega
  · omega

/-- **The codec is exact.**  Over any list of reads it hands on the frames of the
reference decoding of the whole stream, keeps what that leaves over, and has shut the
connection down exactly if the decoding met a length outside 0..65536.  And the
frames that `send` writes decode to the messages they were made from, however they
are cut into reads. -/
theorem codec_exact :
    (∀ reads : List (List UInt8), receive reads =
      ((decode accepts reads.flatten).rest,
        ⟨(decode accepts reads.flatten).frames, (decode accepts reads.flatten).stopped⟩)) ∧
    ∀ messages : List Message, (∀ m ∈ messages, m.length ≤ 65536) →
      decode accepts (messages.flatMap send) = ⟨messages, [], false⟩ ∧
      ∀ reads, reads.flatten = messages.flatMap send →
        receive reads = ([], ⟨messages, false⟩) := by
  refine ⟨receive_eq, ?_⟩
  intro messages hsmall
  refine ⟨decode_send hsmall, ?_⟩
  intro reads hreads
  rw [receive_eq, hreads, decode_send hsmall]

/-- Two messages, the second empty, cut inside the first header and body. -/
theorem codec_exact_two_messages :
    receive [[0, 0], [0, 2, 3], [120, 0, 0, 0, 0]] = ([], ⟨[[3, 120], []], false⟩) :=
  (codec_exact.2 [[3, 120], []] (by decide)).2 [[0, 0], [0, 2, 3], [120, 0, 0, 0, 0]] (by decide)

end LengthHeaderCodec
end Server
end StupidP2P
