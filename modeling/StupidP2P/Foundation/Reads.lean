import Mathlib.Algebra.GroupWithZero.Nat
import Mathlib.Data.List.Infix
import StupidP2P.Foundation.Framing

/-!
# The frames each read completes

A stream of frames arrives in reads, and a receiver decodes after each of them from what
the reads before left over.  `completedBy` lists, read by read, the frames that become
complete.  Together they are the frames of the stream; and since the first of them was
incomplete before, the others were read with its last byte: they are shorter than the
read.
-/

namespace StupidP2P
namespace Foundation
namespace Framing

/-- The bytes of some frames with their headers. -/
def frameBytes (frames : List (List UInt8)) : Nat :=
  (frames.map fun body => 4 + body.length).sum

@[simp] theorem frameBytes_nil : frameBytes [] = 0 := rfl

@[simp] theorem frameBytes_cons (body : List UInt8) (frames : List (List UInt8)) :
    frameBytes (body :: frames) = 4 + body.length + frameBytes frames := rfl

@[simp] theorem frameBytes_append (xs ys : List (List UInt8)) :
    frameBytes (xs ++ ys) = frameBytes xs + frameBytes ys := by
  simp [frameBytes]

theorem length_encodeAll (frames : List (List UInt8)) :
    (encodeAll frames).length = frameBytes frames := by
  induction frames with
  | nil => rfl
  | cons body frames ih =>
      rw [encodeAll_cons, List.length_append, length_encodeFrame, ih, frameBytes_cons]

variable {admits : Int → Bool} {queue bytes : List UInt8} {chunks : List (List UInt8)}

theorem frameBytes_frames (bytes : List UInt8) :
    frameBytes (decode admits bytes).frames + (decode admits bytes).rest.length =
      bytes.length := by
  induction bytes using frames_induction admits with
  | frame bytes body rest hhead ih =>
      have hlength := head_frame_length hhead
      rw [decode_of_frame hhead, frameBytes_cons]
      dsimp only
      omega
  | short bytes hhead =>
      rw [decode_of_short hhead, frameBytes_nil]
      dsimp only
      omega
  | bad bytes hhead =>
      rw [decode_of_bad hhead, frameBytes_nil]
      dsimp only
      omega

/-- Bytes without a complete frame are all left over. -/
theorem rest_of_frames_nil (hnone : (decode admits bytes).frames = []) :
    (decode admits bytes).rest = bytes := by
  have hlength := @frameBytes_frames admits bytes
  rw [hnone, frameBytes_nil] at hlength
  exact (rest_suffix bytes).eq_of_length (by omega)

/-- The frames completed by each read, from what was left over before. -/
def completedBy (admits : Int → Bool) :
    List UInt8 → List (List UInt8) → List (List (List UInt8))
  | _, [] => []
  | queue, bytes :: chunks =>
      (decode admits (queue ++ bytes)).frames ::
        completedBy admits (decode admits (queue ++ bytes)).rest chunks

theorem frames_rest (bytes : List UInt8) :
    (decode admits (decode admits bytes).rest).frames = [] := by
  rw [decode_rest]

theorem flatten_completedBy (hqueue : (decode admits queue).frames = []) :
    (completedBy admits queue chunks).flatten =
      (decode admits (queue ++ chunks.flatten)).frames := by
  induction chunks generalizing queue with
  | nil =>
      rw [List.flatten_nil, List.append_nil, hqueue]
      rfl
  | cons bytes chunks ih =>
      rw [completedBy, List.flatten_cons, ih (frames_rest _), List.flatten_cons,
        ← List.append_assoc, decode_append (queue ++ bytes)]

theorem completedBy_append (hqueue : (decode admits queue).frames = [])
    (xs ys : List (List UInt8)) :
    completedBy admits queue (xs ++ ys) =
      completedBy admits queue xs ++
        completedBy admits (decode admits (queue ++ xs.flatten)).rest ys := by
  induction xs generalizing queue with
  | nil =>
      rw [List.flatten_nil, List.append_nil, rest_of_frames_nil hqueue]
      rfl
  | cons bytes xs ih =>
      rw [List.cons_append, completedBy, ih (frames_rest _), completedBy, List.flatten_cons,
        ← List.append_assoc, decode_append (queue ++ bytes)]
      rfl

/-- A frame that a read completes was not complete before. -/
theorem length_lt_of_head_append {body rest : List UInt8}
    (hqueue : (decode admits queue).frames = [])
    (hhead : head admits (queue ++ bytes) = .frame body rest) :
    queue.length < 4 + body.length := by
  by_contra hlong
  obtain ⟨a, b, c, d, heq, hadmits, hlength⟩ := head_frame_iff.mp hhead
  -- Then the queue has the frame, and more perhaps.
  have hall : a :: b :: c :: d :: body <+: queue ++ bytes := by
    rw [heq]
    exact ⟨rest, rfl⟩
  have hlonger : (a :: b :: c :: d :: body).length ≤ queue.length := by
    simp only [List.length_cons]
    omega
  have hprefix := List.prefix_of_prefix_length_le hall (List.prefix_append _ _) hlonger
  obtain ⟨more, rfl⟩ := hprefix
  have hframe : head admits (a :: b :: c :: d :: body ++ more) = .frame body more :=
    head_frame_iff.mpr ⟨a, b, c, d, rfl, hadmits, hlength⟩
  rw [decode_of_frame hframe] at hqueue
  simp at hqueue

/-- **What one read completes.**  All frames but the first arrived with its last byte. -/
theorem frameBytes_lt_of_completed {first : List UInt8} {others : List (List UInt8)}
    (hqueue : (decode admits queue).frames = [])
    (hframes : (decode admits (queue ++ bytes)).frames = first :: others) :
    frameBytes others < bytes.length := by
  have hlength := @frameBytes_frames admits (queue ++ bytes)
  rw [hframes, frameBytes_cons, List.length_append] at hlength
  cases hhead : head admits (queue ++ bytes) with
  | frame body rest =>
      have hshort := length_lt_of_head_append hqueue hhead
      rw [decode_of_frame hhead] at hframes
      obtain ⟨rfl, -⟩ := List.cons.inj hframes
      omega
  | short =>
      rw [decode_of_short hhead] at hframes
      simp at hframes
  | bad =>
      rw [decode_of_bad hhead] at hframes
      simp at hframes

/-- The same for every read of a stream. -/
theorem frameBytes_lt_of_mem_completedBy {limit : Nat}
    (hqueue : (decode admits queue).frames = [])
    (hchunks : ∀ bytes ∈ chunks, bytes.length ≤ limit) :
    ∀ group ∈ completedBy admits queue chunks, ∀ first others, group = first :: others →
      frameBytes others < limit := by
  induction chunks generalizing queue with
  | nil => simp [completedBy]
  | cons bytes chunks ih =>
      obtain ⟨hbytes, hrest⟩ := List.forall_mem_cons.mp hchunks
      rw [completedBy, List.forall_mem_cons]
      refine ⟨?_, ih (frames_rest _) hrest⟩
      intro first others hframes
      have hlt := frameBytes_lt_of_completed hqueue hframes
      omega

/-! ## What has arrived of a known stream -/

/-- Of these frames, the ones that are complete after `n` bytes of their stream. -/
def arrivedFrames : List (List UInt8) → Nat → List (List UInt8)
  | [], _ => []
  | body :: bodies, n =>
      if 4 + body.length ≤ n then body :: arrivedFrames bodies (n - (4 + body.length)) else []

theorem arrivedFrames_of_le {body : List UInt8} {n : Nat} (hle : 4 + body.length ≤ n)
    (bodies : List (List UInt8)) :
    arrivedFrames (body :: bodies) n =
      body :: arrivedFrames bodies (n - (4 + body.length)) :=
  if_pos hle

theorem arrivedFrames_of_lt {body : List UInt8} {n : Nat} (hlt : n < 4 + body.length)
    (bodies : List (List UInt8)) : arrivedFrames (body :: bodies) n = [] :=
  if_neg (by omega)

theorem frameBytes_arrivedFrames (bodies : List (List UInt8)) (n : Nat) :
    frameBytes (arrivedFrames bodies n) ≤ n := by
  induction bodies generalizing n with
  | nil => exact Nat.zero_le n
  | cons body bodies ih =>
      by_cases hle : 4 + body.length ≤ n
      · have hrest := ih (n - (4 + body.length))
        rw [arrivedFrames_of_le hle, frameBytes_cons]
        omega
      · rw [arrivedFrames_of_lt (by omega), frameBytes_nil]
        exact Nat.zero_le n

/-- Later bytes complete further frames. -/
theorem arrivedFrames_add (bodies : List (List UInt8)) (m k : Nat) :
    arrivedFrames bodies (m + k) =
      arrivedFrames bodies m ++
        arrivedFrames (bodies.drop (arrivedFrames bodies m).length)
          (m - frameBytes (arrivedFrames bodies m) + k) := by
  induction bodies generalizing m with
  | nil => rfl
  | cons body bodies ih =>
      by_cases hle : 4 + body.length ≤ m
      · have hbytes := frameBytes_arrivedFrames bodies (m - (4 + body.length))
        rw [arrivedFrames_of_le hle, arrivedFrames_of_le (by omega),
          show m + k - (4 + body.length) = m - (4 + body.length) + k by omega, ih,
          frameBytes_cons, List.length_cons, List.drop_succ_cons, List.cons_append]
        congr 3
        omega
      · rw [arrivedFrames_of_lt (n := m) (by omega)]
        simp

theorem drop_encodeAll_arrived (bodies : List (List UInt8)) (n : Nat) :
    (encodeAll bodies).drop (frameBytes (arrivedFrames bodies n)) =
      encodeAll (bodies.drop (arrivedFrames bodies n).length) := by
  induction bodies generalizing n with
  | nil => rfl
  | cons body bodies ih =>
      by_cases hle : 4 + body.length ≤ n
      · rw [arrivedFrames_of_le hle, frameBytes_cons, List.length_cons, List.drop_succ_cons, ← ih,
          encodeAll_cons, ← length_encodeFrame body, List.drop_append]
        simp
      · rw [arrivedFrames_of_lt (by omega)]
        rfl

/-- What one read leaves is the beginning of the frames that are still to come. -/
theorem arrivedFrames_behind (bodies : List (List UInt8)) (n : Nat) :
    arrivedFrames (bodies.drop (arrivedFrames bodies n).length)
      (n - frameBytes (arrivedFrames bodies n)) = [] := by
  have hadd := arrivedFrames_add bodies n 0
  rw [Nat.add_zero, Nat.add_zero] at hadd
  exact List.self_eq_append_right.mp hadd

theorem drop_prefix_behind {stream : List UInt8} {bodies : List (List UInt8)} (n : Nat)
    (h : stream <+: encodeAll bodies) :
    stream.drop (frameBytes (arrivedFrames bodies n)) <+:
      encodeAll (bodies.drop (arrivedFrames bodies n).length) := by
  rw [← drop_encodeAll_arrived]
  exact h.drop _

/-- Taking the frames of one read first and those of the later reads behind them comes to
taking all of them. -/
theorem drop_arrivedFrames_append (bodies : List (List UInt8)) (front more : List UInt8) :
    (front ++ more).drop (frameBytes (arrivedFrames bodies (front.length + more.length))) =
      (front.drop (frameBytes (arrivedFrames bodies front.length)) ++ more).drop
        (frameBytes (arrivedFrames (bodies.drop (arrivedFrames bodies front.length).length)
          (front.length - frameBytes (arrivedFrames bodies front.length) + more.length))) := by
  rw [arrivedFrames_add, frameBytes_append, ← List.drop_drop,
    List.drop_append_of_le_length (frameBytes_arrivedFrames bodies front.length)]

/-- A complete frame in front of what has arrived. -/
theorem exists_rest_of_complete {stream body : List UInt8} {bodies : List (List UInt8)}
    (h : stream <+: encodeAll (body :: bodies)) (hcomplete : 4 + body.length ≤ stream.length) :
    ∃ rest, stream = encodeFrame body ++ rest ∧ rest <+: encodeAll bodies := by
  rw [encodeAll_cons] at h
  rw [← length_encodeFrame] at hcomplete
  obtain ⟨rest, rfl⟩ := List.prefix_of_prefix_length_le (List.prefix_append _ _) h hcomplete
  exact ⟨rest, rfl, (List.prefix_append_right_inj _).mp h⟩

end Framing
end Foundation
end StupidP2P
