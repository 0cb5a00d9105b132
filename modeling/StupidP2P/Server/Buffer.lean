import StupidP2P.Foundation.Machine
import StupidP2P.Foundation.Slice

/-!
# `muduo::net::Buffer`

The server reads and writes through `Buffer`: a vector of bytes with a reading and a
writing position.  The bytes between them are the contents; the cells in front of them
can be prepended to, the cells behind them appended to.  When there is no room behind,
`makeSpace` grows the vector or moves the contents to the front.

The operations return `none` where an assertion of the source fails or where a copy would
leave the vector.  The order of the positions and the size of the vector are fields of
the structure, so they need no further proof.  The main result is that every sequence of
operations whose arguments are within the contents runs without a failed assertion, and
acts on the contents as on a plain list of bytes.

Sizes are natural numbers: vectors of 2^64 bytes do not occur.
-/

namespace StupidP2P
namespace Server

open Foundation

def kCheapPrepend : Nat := 8

def kInitialSize : Nat := 1024

/-- The vector `buffer_` and the two positions in it. -/
@[ext]
structure Buffer where
  buffer : List UInt8
  readerIndex : Nat
  writerIndex : Nat
  reader_le : readerIndex ≤ writerIndex
  writer_le : writerIndex ≤ buffer.length
  cheap_le : kCheapPrepend ≤ buffer.length

namespace Buffer

/-- The constructor `Buffer(initialSize)`. -/
def ofSize (initialSize : Nat) : Buffer where
  buffer := List.replicate (kCheapPrepend + initialSize) 0
  readerIndex := kCheapPrepend
  writerIndex := kCheapPrepend
  reader_le := Nat.le_refl _
  writer_le := by simp
  cheap_le := by simp

def readableBytes (b : Buffer) : Nat := b.writerIndex - b.readerIndex

def writableBytes (b : Buffer) : Nat := b.buffer.length - b.writerIndex

def prependableBytes (b : Buffer) : Nat := b.readerIndex

/-- The readable bytes, from `peek()` on. -/
def contents (b : Buffer) : List UInt8 :=
  slice b.buffer b.readerIndex b.writerIndex

theorem length_contents (b : Buffer) : b.contents.length = b.readableBytes :=
  length_slice b.writer_le

/-- `std::copy` of some bytes to a place in the vector. -/
def copyTo (b : Buffer) (pos : Nat) (data : List UInt8) : Option Buffer :=
  if h : pos + data.length ≤ b.buffer.length then
    some { b with
      buffer := overwrite b.buffer pos data
      writer_le := (length_overwrite h).symm ▸ b.writer_le
      cheap_le := (length_overwrite h).symm ▸ b.cheap_le }
  else none

def retrieveAll (b : Buffer) : Buffer :=
  { b with
    readerIndex := kCheapPrepend
    writerIndex := kCheapPrepend
    reader_le := Nat.le_refl _
    writer_le := b.cheap_le }

def retrieve (b : Buffer) (len : Nat) : Option Buffer :=
  if len ≤ b.readableBytes then
    if h : len < b.readableBytes then
      some { b with
        readerIndex := b.readerIndex + len
        reader_le := by
          unfold readableBytes at h
          omega }
    else some b.retrieveAll
  else none

def retrieveAsString (b : Buffer) (len : Nat) : Option (Buffer × List UInt8) :=
  if len ≤ b.readableBytes then
    (b.retrieve len).map fun after => (after, b.contents.take len)
  else none

/-- The length of a `StringPiece` is an `int`. -/
def toStringPiece (b : Buffer) : Option (List UInt8) :=
  if b.readableBytes < 2147483648 then some b.contents else none

def hasWritten (b : Buffer) (len : Nat) : Option Buffer :=
  if h : len ≤ b.writableBytes then
    some { b with
      writerIndex := b.writerIndex + len
      reader_le := Nat.le_add_right_of_le b.reader_le
      writer_le := by
        have hle := b.writer_le
        unfold writableBytes at h
        omega }
  else none

def unwrite (b : Buffer) (len : Nat) : Option Buffer :=
  if h : len ≤ b.readableBytes then
    some { b with
      writerIndex := b.writerIndex - len
      reader_le := by
        have hle := b.reader_le
        unfold readableBytes at h
        omega
      writer_le := Nat.le_trans (Nat.sub_le _ _) b.writer_le }
  else none

/-- `buffer_.resize` to a size that is not smaller; new cells are zero. -/
def resize (b : Buffer) (size : Nat) : Buffer :=
  { b with
    buffer := b.buffer ++ List.replicate (size - b.buffer.length) 0
    writer_le := by
      rw [List.length_append]
      exact Nat.le_add_right_of_le b.writer_le
    cheap_le := by
      rw [List.length_append]
      exact Nat.le_add_right_of_le b.cheap_le }

/-- `makeSpace` is called only when `len` bytes cannot be written. -/
def makeSpace (b : Buffer) (len : Nat) : Option Buffer :=
  if b.writableBytes + b.prependableBytes < len + kCheapPrepend then
    some (b.resize (b.writerIndex + len))
  else if h : kCheapPrepend < b.readerIndex then
    -- The contents move to the front; what stood there is overwritten.
    have hfits : kCheapPrepend + b.contents.length ≤ b.buffer.length := by
      have hreader := b.reader_le
      have hwriter := b.writer_le
      rw [length_contents, readableBytes]
      omega
    some
      { buffer := overwrite b.buffer kCheapPrepend b.contents
        readerIndex := kCheapPrepend
        writerIndex := kCheapPrepend + b.readableBytes
        reader_le := Nat.le_add_right _ _
        writer_le := by
          rw [length_overwrite hfits, ← length_contents]
          exact hfits
        cheap_le := by
          rw [length_overwrite hfits]
          exact b.cheap_le }
  else none

def ensureWritableBytes (b : Buffer) (len : Nat) : Option Buffer :=
  (if b.writableBytes < len then b.makeSpace len else some b).filter
    fun made => decide (len ≤ made.writableBytes)

def append (b : Buffer) (data : List UInt8) : Option Buffer :=
  (b.ensureWritableBytes data.length).bind fun b =>
    (b.copyTo b.writerIndex data).bind fun b => b.hasWritten data.length

def prepend (b : Buffer) (data : List UInt8) : Option Buffer :=
  if data.length ≤ b.prependableBytes then
    let moved : Buffer :=
      { b with
        readerIndex := b.readerIndex - data.length
        reader_le := Nat.le_trans (Nat.sub_le _ _) b.reader_le }
    moved.copyTo moved.readerIndex data
  else none

/-- `shrink`: the contents go to a new buffer with some room behind them. -/
def shrink (b : Buffer) (reserve : Nat) : Option Buffer :=
  ((ofSize kInitialSize).ensureWritableBytes (b.readableBytes + reserve)).bind fun other =>
    b.toStringPiece.bind other.append

/-! ## What each operation does to the contents -/

variable {b : Buffer} {len : Nat} {data : List UInt8}

theorem contents_ofSize (initialSize : Nat) : (ofSize initialSize).contents = [] :=
  slice_self _ _

theorem contents_retrieveAll (b : Buffer) : b.retrieveAll.contents = [] :=
  slice_self _ _

theorem retrieve_eq (h : len ≤ b.contents.length) :
    ∃ b', b.retrieve len = some b' ∧ b'.contents = b.contents.drop len ∧
      b'.buffer = b.buffer := by
  rw [length_contents] at h
  by_cases hlt : len < b.readableBytes
  · refine ⟨_, (if_pos h).trans (dif_pos hlt), ?_, rfl⟩
    exact slice_add_left b.buffer b.readerIndex b.writerIndex len
  · refine ⟨b.retrieveAll, by rw [retrieve, if_pos h, dif_neg hlt], ?_, rfl⟩
    rw [contents_retrieveAll, List.drop_eq_nil_of_le]
    rw [length_contents]
    omega

theorem retrieveAsString_eq (h : len ≤ b.contents.length) :
    ∃ b', b.retrieveAsString len = some (b', b.contents.take len) ∧
      b'.contents = b.contents.drop len := by
  obtain ⟨b', hretrieve, hcontents, -⟩ := retrieve_eq h
  refine ⟨b', ?_, hcontents⟩
  rw [length_contents] at h
  rw [retrieveAsString, if_pos h, hretrieve]
  rfl

theorem unwrite_eq (h : len ≤ b.contents.length) :
    ∃ b', b.unwrite len = some b' ∧
      b'.contents = b.contents.take (b.contents.length - len) := by
  rw [length_contents] at h
  refine ⟨_, dif_pos h, ?_⟩
  exact slice_sub_right b.writer_le len

/-- **Making room.**  The assertions of `makeSpace` and `ensureWritableBytes` hold, the
contents stay, and the contents do not move away from the front by less than
`kCheapPrepend` bytes unless they were there before. -/
theorem ensureWritableBytes_eq (b : Buffer) (len : Nat) :
    ∃ b', b.ensureWritableBytes len = some b' ∧ b'.contents = b.contents ∧
      len ≤ b'.writableBytes ∧ (b'.readerIndex = b.readerIndex ∨
        b'.readerIndex = kCheapPrepend) ∧
      b'.buffer.length ≤ max b.buffer.length (b.readableBytes + 2 * len + kCheapPrepend) := by
  have hreader := b.reader_le
  have hwriter := b.writer_le
  by_cases hroom : b.writableBytes < len
  · by_cases hgrow : b.writableBytes + b.prependableBytes < len + kCheapPrepend
    · -- The vector grows behind the contents.
      have hlength : (b.resize (b.writerIndex + len)).buffer.length = b.writerIndex + len := by
        show (b.buffer ++ List.replicate _ _).length = _
        rw [List.length_append, List.length_replicate]
        unfold writableBytes at hroom
        omega
      have hwritable : len ≤ (b.resize (b.writerIndex + len)).writableBytes := by
        show len ≤ (b.resize (b.writerIndex + len)).buffer.length - b.writerIndex
        rw [hlength]
        omega
      refine ⟨b.resize (b.writerIndex + len), ?_, ?_, hwritable, Or.inl rfl, ?_⟩
      · rw [ensureWritableBytes, if_pos hroom, makeSpace, if_pos hgrow,
          Option.filter_some, if_pos (decide_eq_true hwritable)]
      · exact slice_append_left b.writer_le _
      · rw [hlength]
        unfold writableBytes prependableBytes at hgrow
        unfold readableBytes
        omega
    · -- The contents move to the front.  The assertion holds, as the room in front of
      -- them is what makes up for the room that is missing behind.
      have hfront : kCheapPrepend < b.readerIndex := by
        unfold prependableBytes at hgrow
        omega
      have hfits : kCheapPrepend + b.contents.length ≤ b.buffer.length := by
        rw [length_contents, readableBytes]
        omega
      obtain ⟨b', hmade, hbuffer, hread, hwrite⟩ :
          ∃ b', b.makeSpace len = some b' ∧
            b'.buffer = overwrite b.buffer kCheapPrepend b.contents ∧
            b'.readerIndex = kCheapPrepend ∧
            b'.writerIndex = kCheapPrepend + b.readableBytes := by
        exact ⟨_, (if_neg hgrow).trans (dif_pos hfront), rfl, rfl, rfl⟩
      have hlength : b'.buffer.length = b.buffer.length := by
        rw [hbuffer, length_overwrite hfits]
      have hwritable : len ≤ b'.writableBytes := by
        unfold writableBytes prependableBytes at hgrow
        rw [writableBytes, hlength, hwrite, readableBytes]
        omega
      refine ⟨b', ?_, ?_, hwritable, Or.inr hread, by omega⟩
      · rw [ensureWritableBytes, if_pos hroom, hmade, Option.filter_some,
          if_pos (decide_eq_true hwritable)]
      · have hslice := @slice_overwrite_end _ b.buffer b.contents kCheapPrepend kCheapPrepend
          (Nat.le_refl _) hfits
        rw [contents, hbuffer, hread, hwrite, ← length_contents, hslice, slice_self]
        rfl
  · refine ⟨b, ?_, rfl, Nat.le_of_not_lt hroom, Or.inl rfl, Nat.le_max_left _ _⟩
    rw [ensureWritableBytes, if_neg hroom, Option.filter_some,
      if_pos (decide_eq_true (Nat.le_of_not_lt hroom))]

theorem append_eq (b : Buffer) (data : List UInt8) :
    ∃ b', b.append data = some b' ∧ b'.contents = b.contents ++ data ∧
      (b'.readerIndex = b.readerIndex ∨ b'.readerIndex = kCheapPrepend) ∧
      b'.buffer.length ≤
        max b.buffer.length (b.readableBytes + 2 * data.length + kCheapPrepend) := by
  obtain ⟨made, hmade, hcontents, hroom, hreader, hsize⟩ :=
    b.ensureWritableBytes_eq data.length
  have hwriter := made.writer_le
  have hfits : made.writerIndex + data.length ≤ made.buffer.length := by
    unfold writableBytes at hroom
    omega
  obtain ⟨copied, hcopied, hbuffer, hread, hwrite⟩ :
      ∃ copied, made.copyTo made.writerIndex data = some copied ∧
        copied.buffer = overwrite made.buffer made.writerIndex data ∧
        copied.readerIndex = made.readerIndex ∧ copied.writerIndex = made.writerIndex := by
    exact ⟨_, dif_pos hfits, rfl, rfl, rfl⟩
  have hlength : copied.buffer.length = made.buffer.length := by
    rw [hbuffer, length_overwrite hfits]
  have hwritable : data.length ≤ copied.writableBytes := by
    rw [writableBytes, hlength, hwrite]
    omega
  obtain ⟨b', hwritten, hbuffer', hread', hwrite'⟩ :
      ∃ b', copied.hasWritten data.length = some b' ∧ b'.buffer = copied.buffer ∧
        b'.readerIndex = copied.readerIndex ∧
        b'.writerIndex = copied.writerIndex + data.length := by
    exact ⟨_, dif_pos hwritable, rfl, rfl, rfl⟩
  refine ⟨b', ?_, ?_, ?_, ?_⟩
  · rw [append, hmade, Option.bind_some, hcopied, Option.bind_some, hwritten]
  · rw [contents, hbuffer', hread', hwrite', hbuffer, hread, hwrite,
      slice_overwrite_end made.reader_le hfits, ← hcontents]
    rfl
  · rw [hread', hread]
    exact hreader
  · rw [hbuffer', hlength]
    exact hsize

theorem prepend_eq (h : data.length ≤ b.prependableBytes) :
    ∃ b', b.prepend data = some b' ∧ b'.contents = data ++ b.contents := by
  have hreader := b.reader_le
  have hwriter := b.writer_le
  unfold prependableBytes at h
  have hfits : b.readerIndex - data.length + data.length ≤ b.buffer.length := by omega
  refine ⟨_, (if_pos h).trans (dif_pos hfits), ?_⟩
  show slice (overwrite b.buffer (b.readerIndex - data.length) data)
    (b.readerIndex - data.length) b.writerIndex = _
  rw [slice_overwrite_front (by omega) hwriter, Nat.sub_add_cancel h]
  rfl

theorem shrink_eq (h : b.contents.length < 2147483648) (reserve : Nat) :
    ∃ b', b.shrink reserve = some b' ∧ b'.contents = b.contents := by
  obtain ⟨other, hother, hempty, -⟩ :=
    (ofSize kInitialSize).ensureWritableBytes_eq (b.readableBytes + reserve)
  obtain ⟨b', happend, hcontents, -⟩ := other.append_eq b.contents
  rw [length_contents] at h
  refine ⟨b', ?_, ?_⟩
  · rw [shrink, hother, Option.bind_some, toStringPiece, if_pos h, Option.bind_some, happend]
  · rw [hcontents, hempty, contents_ofSize, List.nil_append]

end Buffer

/-! ## Sequences of operations -/

inductive BufferOp
  | append (data : List UInt8)
  | retrieve (len : Nat)
  | retrieveAll
  | retrieveAsString (len : Nat)
  | unwrite (len : Nat)
  | prepend (data : List UInt8)
  | ensureWritableBytes (len : Nat)
  | shrink (reserve : Nat)

namespace BufferOp

/-- The operation, with the bytes it returns. -/
def exec (b : Buffer) : BufferOp → Option (Buffer × List UInt8)
  | append data => (b.append data).map (·, [])
  | retrieve len => (b.retrieve len).map (·, [])
  | retrieveAll => some (b.retrieveAll, [])
  | retrieveAsString len => b.retrieveAsString len
  | unwrite len => (b.unwrite len).map (·, [])
  | prepend data => (b.prepend data).map (·, [])
  | ensureWritableBytes len => (b.ensureWritableBytes len).map (·, [])
  | shrink reserve => (b.shrink reserve).map (·, [])

/-- The operation on a plain list of bytes. -/
def apply (queue : List UInt8) : BufferOp → List UInt8
  | append data => queue ++ data
  | retrieve len => queue.drop len
  | retrieveAll => []
  | retrieveAsString len => queue.drop len
  | unwrite len => queue.take (queue.length - len)
  | prepend data => data ++ queue
  | ensureWritableBytes _ => queue
  | shrink _ => queue

/-- What the operation returns on a plain list of bytes. -/
def result (queue : List UInt8) : BufferOp → List UInt8
  | retrieveAsString len => queue.take len
  | _ => []

/-- What a caller has to see to: it takes away no more than there is, prepends no more than
fits, and shrinks a buffer only if the size of its contents is an `int`, as `toStringPiece`
makes it one. -/
def Permitted (b : Buffer) : BufferOp → Prop
  | append _ => True
  | retrieve len => len ≤ b.contents.length
  | retrieveAll => True
  | retrieveAsString len => len ≤ b.contents.length
  | unwrite len => len ≤ b.contents.length
  | prepend data => data.length ≤ b.prependableBytes
  | ensureWritableBytes _ => True
  | shrink _ => b.contents.length < 2147483648

instance (b : Buffer) (op : BufferOp) : Decidable (op.Permitted b) := by
  cases op <;> unfold Permitted <;> infer_instance

/-- A permitted operation is defined, and does to the contents what it does to a list. -/
theorem exec_eq {b : Buffer} {op : BufferOp} (h : op.Permitted b) :
    ∃ b', op.exec b = some (b', op.result b.contents) ∧ b'.contents = op.apply b.contents := by
  cases op with
  | append data =>
      obtain ⟨b', hb', hcontents, -⟩ := b.append_eq data
      exact ⟨b', congrArg (Option.map (·, [])) hb', hcontents⟩
  | retrieve len =>
      obtain ⟨b', hb', hcontents, -⟩ := Buffer.retrieve_eq h
      exact ⟨b', congrArg (Option.map (·, [])) hb', hcontents⟩
  | retrieveAll => exact ⟨b.retrieveAll, rfl, b.contents_retrieveAll⟩
  | retrieveAsString len => exact Buffer.retrieveAsString_eq h
  | unwrite len =>
      obtain ⟨b', hb', hcontents⟩ := Buffer.unwrite_eq h
      exact ⟨b', congrArg (Option.map (·, [])) hb', hcontents⟩
  | prepend data =>
      obtain ⟨b', hb', hcontents⟩ := Buffer.prepend_eq h
      exact ⟨b', congrArg (Option.map (·, [])) hb', hcontents⟩
  | ensureWritableBytes len =>
      obtain ⟨b', hb', hcontents, -⟩ := b.ensureWritableBytes_eq len
      exact ⟨b', congrArg (Option.map (·, [])) hb', hcontents⟩
  | shrink reserve =>
      obtain ⟨b', hb', hcontents⟩ := Buffer.shrink_eq h reserve
      refine ⟨b', ?_, hcontents⟩
      rw [exec, hb', Option.map_some, result]
      exact fun _ hother => nomatch hother

end BufferOp

/-- A buffer of a given initial size and its callers. -/
def bufferMachine (initialSize : Nat) : Machine Buffer BufferOp (List UInt8) where
  init := Buffer.ofSize initialSize
  enabled b op := op.Permitted b
  exec b op := op.exec b

/-- **The buffer is a list of bytes.**  After every sequence of permitted operations the
contents are what the same operations make of an empty list, and every operation has
returned what it returns on a list.  No assertion of the class fails on the way, the one
in `makeSpace` about the room in front included, and no copy leaves the vector. -/
theorem buffer_refines_list {initialSize : Nat} {b : Buffer}
    {trace : List (Transition Buffer BufferOp (List UInt8))}
    (hrun : (bufferMachine initialSize).Run trace b) :
    b.contents = (trace.map Transition.event).foldl BufferOp.apply [] ∧
      (∀ t ∈ trace, t.output = t.event.result t.pre.contents) ∧
      ∀ op : BufferOp, op.Permitted b → (op.exec b).isSome = true := by
  have htotal : ∀ (b : Buffer) (op : BufferOp), op.Permitted b → (op.exec b).isSome = true := by
    intro b op hop
    obtain ⟨b', hexec, -⟩ := BufferOp.exec_eq hop
    rw [hexec]
    rfl
  induction hrun with
  | start => exact ⟨Buffer.contents_ofSize initialSize, by simp, htotal _⟩
  | @step trace t hrun hstep ih =>
      obtain ⟨hcontents, houtputs, -⟩ := ih
      obtain ⟨hpermitted, hexec⟩ := hstep
      obtain ⟨b', hb', happly⟩ := BufferOp.exec_eq hpermitted
      obtain ⟨hpost, houtput⟩ := Prod.mk.inj (Option.some.inj (hb'.symm.trans hexec))
      refine ⟨?_, ?_, htotal _⟩
      · rw [← hpost, happly, hcontents, List.map_append, List.foldl_append]
        rfl
      · intro t' ht'
        rcases List.mem_append.mp ht' with hold | hlast
        · exact houtputs t' hold
        · rw [List.mem_singleton.mp hlast, ← houtput]

/-- The fifth byte finds no room behind a buffer of four, and three bytes in front of the
contents are free again: the contents move, and there is room to prepend once more. -/
theorem buffer_refines_list_moved :
    ∃ trace b, (bufferMachine 4).Run trace b ∧
      trace.map Transition.event = [.append [1, 2, 3, 4], .retrieve 3, .append [5, 6, 7],
        .prepend [9], .unwrite 1] ∧
      b.buffer.length = 12 ∧ b.contents = [9, 4, 5, 6] := by
  obtain ⟨b, hreplay, hlength⟩ : ∃ b, (bufferMachine 4).replay
      (fun b op => decide (op.Permitted b))
      [.append [1, 2, 3, 4], .retrieve 3, .append [5, 6, 7], .prepend [9], .unwrite 1]
      (Buffer.ofSize 4) = some b ∧ b.buffer.length = 12 := ⟨_, rfl, rfl⟩
  have hready : ∀ (b : Buffer) (op : BufferOp), decide (op.Permitted b) = true →
      (bufferMachine 4).enabled b op := by
    intro b op hpermitted
    rw [decide_eq_true_iff] at hpermitted
    exact hpermitted
  obtain ⟨trace, hrun, hevents, -⟩ := Machine.Run.replay hready .start hreplay
  rw [List.nil_append] at hrun
  refine ⟨trace, b, hrun, hevents, hlength, ?_⟩
  rw [(buffer_refines_list hrun).1, hevents]
  rfl

end Server
end StupidP2P
