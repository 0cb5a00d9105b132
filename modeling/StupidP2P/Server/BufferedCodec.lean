import StupidP2P.Server.Buffer
import StupidP2P.Server.Codec

/-!
# The codec on the buffers of muduo

`LengthHeaderCodec` was taken over a plain list of bytes before.  Here `onMessage` and
`send` are the functions of the source on `Buffer`: the header is read through `peek()`,
what was used is retrieved, and `send` prepends the header to what it has appended to a
new buffer.  They return `none` where `Buffer` fails an assertion or a pointer leaves the
vector.

Neither happens, and the codec on buffers does what the codec on lists does, over any
reads.  As long as no length is out of range the vector of an input buffer stays bounded
by the sizes of the reads.
-/

namespace StupidP2P
namespace Server
namespace BufferedCodec

open Foundation
open Foundation.Framing
open LengthHeaderCodec (kHeaderLen peekInt32 accepts deliver Handed)

/-- The bytes a pointer from `peek()` on reads. -/
def peekBytes (buf : Buffer) (len : Nat) : Option (List UInt8) :=
  if buf.readerIndex + len ≤ buf.buffer.length then
    some (slice buf.buffer buf.readerIndex (buf.readerIndex + len))
  else none

/-- `hostToNetwork32` of an `int32_t`, in memory. -/
def networkOrder (x : Int) : List UInt8 :=
  bigEndian (x % 4294967296).toNat

section

variable {σ : Type} (messageCallback : σ → Message → σ) (shutdown : σ → σ)

/-- The loop of `onMessage`; every round that goes on retrieves a header. -/
def onMessageLoop : Nat → Buffer → σ → Option (Buffer × σ)
  | 0, buf, s => some (buf, s)
  | fuel + 1, buf, s =>
      if kHeaderLen ≤ buf.readableBytes then
        (peekBytes buf kHeaderLen).bind fun data =>
          let len := peekInt32 data
          if len > 65536 ∨ len < 0 then some (buf, shutdown s)
          else if len.toNat + kHeaderLen ≤ buf.readableBytes then
            (buf.retrieve kHeaderLen).bind fun buf =>
              (peekBytes buf len.toNat).bind fun message =>
                let s := messageCallback s message
                (buf.retrieve len.toNat).bind fun buf => onMessageLoop fuel buf s
          else some (buf, s)
      else some (buf, s)

def onMessage (buf : Buffer) (s : σ) : Option (Buffer × σ) :=
  onMessageLoop messageCallback shutdown (buf.readableBytes + 1) buf s

/-- One read: the bytes are appended to the input buffer, then `onMessage` is called. -/
def read (state : Buffer × σ) (bytes : List UInt8) : Option (Buffer × σ) :=
  (state.1.append bytes).bind fun buf => onMessage messageCallback shutdown buf state.2

end

/-- The bytes of the buffer that `send` hands to the connection. -/
def send (message : Message) : Option (List UInt8) :=
  ((Buffer.ofSize kInitialSize).append message).bind fun buf =>
    let len := wrap32 message.length
    (buf.prepend (networkOrder len)).map Buffer.contents

/-! ## One call -/

section

variable {σ : Type} {messageCallback : σ → Message → σ} {shutdown : σ → σ}
variable {fuel : Nat} {buf : Buffer} {s : σ}

/-- Reading through `peek()` gives the first bytes of the contents. -/
theorem peekBytes_eq {len : Nat} (h : len ≤ buf.contents.length) :
    peekBytes buf len = some (buf.contents.take len) := by
  rw [Buffer.length_contents, Buffer.readableBytes] at h
  have hreader := buf.reader_le
  have hwriter := buf.writer_le
  rw [peekBytes, if_pos (by omega), Buffer.contents, slice, slice, List.drop_take,
    List.drop_take, List.take_take]
  congr 2
  omega

/-- The header depends on the first four bytes only. -/
theorem peekInt32_take (bytes : List UInt8) :
    peekInt32 (bytes.take kHeaderLen) = peekInt32 bytes := by
  match bytes with
  | [] | [_] | [_, _] | [_, _, _] => rfl
  | a :: b :: c :: d :: tail => rfl

/-- **One call of `onMessage`** does on the buffer what it does on the list of its
contents, and leaves the vector as large as it is. -/
theorem onMessageLoop_eq (fuel : Nat) (buf : Buffer) (s : σ) :
    ∃ buf', onMessageLoop messageCallback shutdown fuel buf s =
        some (buf',
          (LengthHeaderCodec.onMessageLoop messageCallback shutdown fuel buf.contents s).2) ∧
      buf'.contents =
        (LengthHeaderCodec.onMessageLoop messageCallback shutdown fuel buf.contents s).1 ∧
      buf'.buffer = buf.buffer := by
  induction fuel generalizing buf s with
  | zero => exact ⟨buf, rfl, rfl, rfl⟩
  | succ fuel ih =>
      have hlength := buf.length_contents
      rw [onMessageLoop, LengthHeaderCodec.onMessageLoop, hlength]
      by_cases hheader : kHeaderLen ≤ buf.readableBytes
      · rw [if_pos hheader, if_pos hheader, peekBytes_eq (by omega), Option.bind_some]
        dsimp only
        rw [peekInt32_take]
        by_cases hrange : peekInt32 buf.contents > 65536 ∨ peekInt32 buf.contents < 0
        · rw [if_pos hrange, if_pos hrange]
          exact ⟨buf, rfl, rfl, rfl⟩
        · rw [if_neg hrange, if_neg hrange]
          by_cases hfits : (peekInt32 buf.contents).toNat + kHeaderLen ≤ buf.readableBytes
          · -- Both calls of `retrieve` stay within the contents.
            rw [if_pos hfits, if_pos hfits]
            obtain ⟨body, hbody, hrest, hvector⟩ :=
              @Buffer.retrieve_eq buf kHeaderLen (by omega)
            have hle : (peekInt32 buf.contents).toNat ≤ body.contents.length := by
              rw [hrest, List.length_drop]
              omega
            obtain ⟨behind, hbehind, hleft, hvector'⟩ := Buffer.retrieve_eq hle
            rw [hbody, Option.bind_some, peekBytes_eq hle, Option.bind_some, hbehind,
              Option.bind_some, hrest]
            obtain ⟨last, hlast, hcontents, hvector''⟩ := @ih behind
              (messageCallback s
                ((buf.contents.drop kHeaderLen).take (peekInt32 buf.contents).toNat))
            rw [hleft, hrest] at hlast hcontents
            exact ⟨last, hlast, hcontents, hvector''.trans (hvector'.trans hvector)⟩
          · rw [if_neg hfits, if_neg hfits]
            exact ⟨buf, rfl, rfl, rfl⟩
      · rw [if_neg hheader, if_neg hheader]
        exact ⟨buf, rfl, rfl, rfl⟩

/-- One read, on the buffer and on the list. -/
theorem read_eq (buf : Buffer) (s : σ) (bytes : List UInt8) :
    ∃ buf', read messageCallback shutdown (buf, s) bytes =
        some (buf', (LengthHeaderCodec.read messageCallback shutdown (buf.contents, s) bytes).2) ∧
      buf'.contents =
        (LengthHeaderCodec.read messageCallback shutdown (buf.contents, s) bytes).1 ∧
      buf'.buffer.length ≤
        max buf.buffer.length (buf.contents.length + 2 * bytes.length + kCheapPrepend) := by
  obtain ⟨more, happend, hcontents, -, hsize⟩ := buf.append_eq bytes
  obtain ⟨buf', hloop, hleft, hvector⟩ := @onMessageLoop_eq σ messageCallback shutdown
    (more.readableBytes + 1) more s
  rw [← Buffer.length_contents, hcontents] at hloop hleft
  refine ⟨buf', ?_, hleft, ?_⟩
  · rw [read, happend, Option.bind_some, onMessage, ← Buffer.length_contents, hcontents]
    exact hloop
  · rw [hvector, Buffer.length_contents]
    exact hsize

/-- Any reads, by induction on the reads. -/
theorem foldlM_read_eq (reads : List (List UInt8)) (buf : Buffer) (s : σ) :
    ∃ buf', reads.foldlM (read messageCallback shutdown) (buf, s) =
        some (buf',
          (reads.foldl (LengthHeaderCodec.read messageCallback shutdown) (buf.contents, s)).2) ∧
      buf'.contents =
        (reads.foldl (LengthHeaderCodec.read messageCallback shutdown) (buf.contents, s)).1 := by
  induction reads generalizing buf s with
  | nil => exact ⟨buf, rfl, rfl⟩
  | cons bytes reads ih =>
      obtain ⟨next, hread, hcontents, -⟩ :=
        @read_eq σ messageCallback shutdown buf s bytes
      obtain ⟨buf', hreads, hleft⟩ := @ih next
        (LengthHeaderCodec.read messageCallback shutdown (buf.contents, s) bytes).2
      rw [hcontents] at hreads hleft
      refine ⟨buf', ?_, hleft⟩
      rw [List.foldlM_cons, hread]
      exact hreads

end

/-! ## Runs -/

/-- The codec on a new input buffer, run over a list of reads. -/
def receive (initialSize : Nat) (reads : List (List UInt8)) : Option (Buffer × Handed) :=
  reads.foldlM (read Handed.record Handed.close) (Buffer.ofSize initialSize, ⟨[], false⟩)

theorem receive_eq (initialSize : Nat) (reads : List (List UInt8)) :
    ∃ buf, receive initialSize reads =
        some (buf, ⟨(decode accepts reads.flatten).frames,
          (decode accepts reads.flatten).stopped⟩) ∧
      buf.contents = (decode accepts reads.flatten).rest := by
  obtain ⟨buf, hreads, hcontents⟩ := @foldlM_read_eq Handed Handed.record Handed.close reads
    (Buffer.ofSize initialSize) ⟨[], false⟩
  have hlist := LengthHeaderCodec.receive_eq reads
  unfold LengthHeaderCodec.receive at hlist
  rw [Buffer.contents_ofSize, hlist] at hreads hcontents
  exact ⟨buf, hreads, hcontents⟩

/-- The vector is as large as the reads need, by induction on the reads from the end: what
is left over between two reads is less than one frame. -/
theorem receive_bounded {initialSize limit : Nat} {reads : List (List UInt8)}
    (hlimit : ∀ bytes ∈ reads, bytes.length ≤ limit)
    (hgoes : (decode accepts reads.flatten).stopped = false) {buf : Buffer} {handed : Handed}
    (h : receive initialSize reads = some (buf, handed)) :
    buf.buffer.length ≤ max (kCheapPrepend + initialSize) (65547 + 2 * limit) := by
  induction reads using List.reverseRecOn generalizing buf handed with
  | nil =>
      obtain ⟨rfl, -⟩ := Prod.mk.inj (Option.some.inj h)
      show (List.replicate _ _).length ≤ _
      rw [List.length_replicate]
      exact Nat.le_max_left _ _
  | append_singleton reads bytes ih =>
      rw [List.flatten_append, List.flatten_singleton, decode_append] at hgoes
      have hbefore := stopped_of_append hgoes
      obtain ⟨first, hfirst, hcontents⟩ := receive_eq initialSize reads
      have hsize := @ih (fun bytes hmem => hlimit bytes (List.mem_append_left _ hmem))
        hbefore first _ hfirst
      have hshort : first.contents.length < 4 + 65536 := by
        rw [hcontents]
        refine length_rest_lt ?_ hbefore
        intro len haccepts
        rw [accepts, decide_eq_true_iff] at haccepts
        omega
      have hlast := hlimit bytes (by simp)
      obtain ⟨next, hread, -, hnext⟩ := @read_eq Handed Handed.record Handed.close first
        ⟨(decode accepts reads.flatten).frames, (decode accepts reads.flatten).stopped⟩ bytes
      rw [receive] at hfirst
      rw [receive, List.foldlM_append, hfirst, Option.bind_eq_bind, Option.bind_some,
        List.foldlM_cons, hread] at h
      obtain ⟨rfl, -⟩ := Prod.mk.inj (Option.some.inj h)
      have hcheap : kCheapPrepend = 8 := rfl
      omega

/-- The bytes of a length in network order. -/
theorem networkOrder_wrap32 (n : Nat) : networkOrder (wrap32 n) = bigEndian n := by
  have hmod : ((wrap32 n) % 4294967296).toNat = n % 4294967296 := by
    have hbmod : wrap32 n % 4294967296 = n % 4294967296 := Int.bmod_emod
    rw [hbmod]
    omega
  rw [networkOrder, hmod]
  simp only [bigEndian, List.cons.injEq, and_true]
  refine ⟨?_, ?_, ?_, ?_⟩
  · rw [← UInt8.toNat_inj, UInt8.toNat_ofNat', UInt8.toNat_ofNat']
    omega
  · rw [← UInt8.toNat_inj, UInt8.toNat_ofNat', UInt8.toNat_ofNat']
    omega
  · rw [← UInt8.toNat_inj, UInt8.toNat_ofNat', UInt8.toNat_ofNat']
    omega
  · rw [← UInt8.toNat_inj, UInt8.toNat_ofNat', UInt8.toNat_ofNat']
    omega

/-- Appending to a new buffer leaves the eight bytes in front free, so the header fits. -/
theorem send_eq (message : Message) : send message = some (LengthHeaderCodec.send message) := by
  obtain ⟨buf, happend, hcontents, hreader, -⟩ := (Buffer.ofSize kInitialSize).append_eq message
  have hfront : buf.prependableBytes = kCheapPrepend := by
    rcases hreader with hsame | hmoved
    · exact hsame
    · exact hmoved
  have hheader : (networkOrder (wrap32 message.length)).length ≤ buf.prependableBytes := by
    rw [networkOrder_wrap32, length_bigEndian, hfront]
    decide
  obtain ⟨buf', hprepend, hframe⟩ := Buffer.prepend_eq hheader
  rw [send, happend, Option.bind_some]
  dsimp only
  rw [hprepend, Option.map_some, hframe, hcontents, Buffer.contents_ofSize,
    networkOrder_wrap32]
  rfl

/-- **The codec on buffers is exact.**  Over any reads no assertion of `Buffer` fails and no
pointer leaves the vector.  The messages handed on, the bytes left in the buffer and the
shutdown are those of the reference decoding of the whole stream.  While no length was out
of range, the vector is bounded by the largest read.  What `send` writes is the frame of
its message, for messages of any length. -/
theorem buffered_codec_exact (initialSize : Nat) (reads : List (List UInt8)) :
    (∃ buf, receive initialSize reads =
        some (buf, ⟨(decode accepts reads.flatten).frames,
          (decode accepts reads.flatten).stopped⟩) ∧
      buf.contents = (decode accepts reads.flatten).rest ∧
      ∀ limit, (∀ bytes ∈ reads, bytes.length ≤ limit) →
        (decode accepts reads.flatten).stopped = false →
        buf.buffer.length ≤ max (kCheapPrepend + initialSize) (65547 + 2 * limit)) ∧
      ∀ message, send message = some (LengthHeaderCodec.send message) := by
  refine ⟨?_, send_eq⟩
  obtain ⟨buf, hreceive, hcontents⟩ := receive_eq initialSize reads
  refine ⟨buf, hreceive, hcontents, ?_⟩
  intro limit hlimit hgoes
  exact receive_bounded hlimit hgoes hreceive

end BufferedCodec
end Server
end StupidP2P
