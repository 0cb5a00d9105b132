import Mathlib.Data.List.Infix

/-!
# Writes that are cut short

A sender that offers one frame after another to a channel, where each write may take only a
beginning of what it is offered and the sender does not repeat the rest.

* A write that takes nothing drops its frame; what is on the channel is not touched.
* A write that takes a part leaves the channel inside a frame.  Whatever is written
  afterwards is taken for the rest of it.

So the channel carries complete frames, and perhaps the beginning of one, exactly as long as
nothing is written after a write that was cut short (`inFrames_iff`).  Since the content of a
frame can look like anything, this is stated for the origin of each element: the length of
the frame it comes from and its place in it.
-/

namespace StupidP2P
namespace Foundation

universe u

/-- A write: what is offered, and how much of it is taken. -/
structure Write (α : Type u) where
  offered : List α
  sent : Nat
  sent_le : sent ≤ offered.length

namespace Write

variable {α : Type u}

/-- What gets through. -/
def part (w : Write α) : List α := w.offered.take w.sent

/-- Some of it gets through, but not all. -/
def Short (w : Write α) : Prop := 0 < w.sent ∧ w.sent < w.offered.length

theorem part_of_zero {w : Write α} (h : w.sent = 0) : w.part = [] := by
  rw [part, h, List.take_zero]

theorem part_of_all {w : Write α} (h : w.sent = w.offered.length) : w.part = w.offered := by
  rw [part, h, List.take_length]

/-- Nothing, all, or a part. -/
theorem cases (w : Write α) : w.sent = 0 ∨ w.sent = w.offered.length ∨ w.Short := by
  have hle := w.sent_le
  unfold Short
  omega

end Write

variable {α : Type u} {writes : List (Write α)} {w : Write α}

/-- What is on the channel. -/
def wire (writes : List (Write α)) : List α := writes.flatMap Write.part

@[simp] theorem wire_nil : wire ([] : List (Write α)) = [] := rfl

@[simp] theorem wire_cons (w : Write α) (writes : List (Write α)) :
    wire (w :: writes) = w.part ++ wire writes := rfl

theorem wire_eq_nil_iff : wire writes = [] ↔ ∀ w ∈ writes, w.sent = 0 := by
  rw [wire, List.flatMap_eq_nil_iff]
  refine forall_congr' fun w => forall_congr' fun _ => ?_
  rw [Write.part, List.take_eq_nil_iff]
  constructor
  · rintro (hzero | hnil)
    · exact hzero
    · have hle := w.sent_le
      rw [hnil] at hle
      exact Nat.le_zero.mp hle
  · exact .inl

/-- Nothing is written after a write that was cut short. -/
def QuietAfterShort (writes : List (Write α)) : Prop :=
  writes.Pairwise fun w later => w.Short → later.sent = 0

theorem quietAfterShort_cons :
    QuietAfterShort (w :: writes) ↔ (w.Short → wire writes = []) ∧ QuietAfterShort writes := by
  rw [QuietAfterShort, List.pairwise_cons, wire_eq_nil_iff, QuietAfterShort]
  refine and_congr_left fun _ => ⟨fun h hshort later hlater => h later hlater hshort,
    fun h later hlater hshort => h hshort later hlater⟩

theorem QuietAfterShort.take (h : QuietAfterShort writes) (k : Nat) :
    QuietAfterShort (writes.take k) :=
  List.Pairwise.sublist (List.take_sublist k writes) h

/-- **Complete frames.**  The channel then carries a beginning of some of the frames that
were offered, one behind the other. -/
theorem wire_prefix (h : QuietAfterShort writes) :
    ∃ kept : List (List α), kept.Sublist (writes.map Write.offered) ∧
      wire writes <+: kept.flatten := by
  induction writes with
  | nil => exact ⟨[], .slnil, List.prefix_rfl⟩
  | cons w writes ih =>
      obtain ⟨hshort, hrest⟩ := quietAfterShort_cons.mp h
      obtain ⟨kept, hkept, hwire⟩ := ih hrest
      rw [wire_cons, List.map_cons]
      rcases w.cases with hzero | hall | hpart
      · refine ⟨kept, hkept.cons _, ?_⟩
        rwa [Write.part_of_zero hzero, List.nil_append]
      · refine ⟨w.offered :: kept, hkept.cons_cons _, ?_⟩
        rwa [Write.part_of_all hall, List.flatten_cons, List.prefix_append_right_inj]
      · refine ⟨[w.offered], (List.nil_sublist _).cons_cons _, ?_⟩
        rw [hshort hpart, List.append_nil, List.flatten_singleton]
        exact List.take_prefix _ _

/-! ## Origins -/

/-- The elements of a frame of length `n`, each with that length and its place. -/
def ramp (n : Nat) : List (Nat × Nat) := (List.range n).map fun i => (n, i)

@[simp] theorem length_ramp (n : Nat) : (ramp n).length = n := by
  simp [ramp]

theorem ramp_succ (n : Nat) : ∃ tail, ramp (n + 1) = (n + 1, 0) :: tail := by
  rw [ramp, List.range_succ_eq_map, List.map_cons]
  exact ⟨_, rfl⟩

theorem drop_ramp {n k : Nat} (hk : k < n) : ∃ tail, (ramp n).drop k = (n, k) :: tail := by
  have hlength : k < (ramp n).length := by rwa [length_ramp]
  rw [List.drop_eq_getElem_cons hlength]
  refine ⟨(ramp n).drop (k + 1), ?_⟩
  simp [ramp]

/-- The write as seen by the origins of its elements. -/
def Write.origins (w : Write α) : Write (Nat × Nat) where
  offered := ramp w.offered.length
  sent := w.sent
  sent_le := by
    rw [length_ramp]
    exact w.sent_le

theorem Write.short_origins : w.origins.Short ↔ w.Short := by
  rw [Write.Short, Write.Short, Write.origins, length_ramp]

/-- By their origins, the elements on the channel begin a sequence of complete frames. -/
def InFrames (writes : List (Write α)) : Prop :=
  ∃ sizes : List Nat, wire (writes.map Write.origins) <+: sizes.flatMap ramp

theorem quietAfterShort_origins :
    QuietAfterShort (writes.map Write.origins) ↔ QuietAfterShort writes := by
  rw [QuietAfterShort, List.pairwise_map, QuietAfterShort]
  simp only [Write.short_origins]
  rfl

theorem wire_origins_eq_nil_iff : wire (writes.map Write.origins) = [] ↔ wire writes = [] := by
  rw [wire_eq_nil_iff, wire_eq_nil_iff, List.forall_mem_map]
  rfl

/-- A write that takes something begins with the first element of its frame. -/
theorem Write.part_origins_of_pos (h : 0 < w.sent) :
    ∃ tail, w.origins.part = (w.offered.length, 0) :: tail := by
  have hle := w.sent_le
  obtain ⟨n, hn⟩ : ∃ n, w.offered.length = n + 1 := ⟨w.offered.length - 1, by omega⟩
  obtain ⟨k, hk⟩ : ∃ k, w.sent = k + 1 := ⟨w.sent - 1, by omega⟩
  obtain ⟨rest, hrest⟩ := ramp_succ n
  refine ⟨rest.take k, ?_⟩
  change (ramp w.offered.length).take w.sent = _
  rw [hn, hk, hrest, List.take_succ_cons]

/-- So does what is on the channel. -/
theorem head_wire_origins {x : Nat × Nat} {tail : List (Nat × Nat)}
    (h : wire (writes.map Write.origins) = x :: tail) : x.2 = 0 := by
  induction writes with
  | nil => simp at h
  | cons w writes ih =>
      rw [List.map_cons, wire_cons] at h
      rcases Nat.eq_zero_or_pos w.sent with hzero | hpos
      · rw [Write.part_of_zero (w := w.origins) hzero, List.nil_append] at h
        exact ih h
      · obtain ⟨rest, hrest⟩ := Write.part_origins_of_pos hpos
        rw [hrest, List.cons_append, List.cons.injEq] at h
        rw [← h.1]

/-- A sequence of frames that begins with an element of a frame of length `n` begins with
that frame. -/
theorem flatMap_ramp_of_head {n : Nat} {sizes : List Nat} {i : Nat} {tail : List (Nat × Nat)}
    (h : (n, i) :: tail <+: sizes.flatMap ramp) :
    ∃ others : List Nat, sizes.flatMap ramp = ramp n ++ others.flatMap ramp := by
  induction sizes with
  | nil => simp at h
  | cons size sizes ih =>
      rw [List.flatMap_cons] at h ⊢
      cases size with
      | zero => exact ih h
      | succ size =>
          obtain ⟨rest, hrest⟩ := ramp_succ size
          rw [hrest, List.cons_append, List.cons_prefix_cons, Prod.mk.injEq] at h
          rw [h.1.1]
          exact ⟨sizes, rfl⟩

/-- A write after one that was cut short is out of place. -/
theorem quietAfterShort_of_inFrames (h : InFrames writes) : QuietAfterShort writes := by
  induction writes with
  | nil => exact List.Pairwise.nil
  | cons w writes ih =>
      obtain ⟨sizes, hsizes⟩ := h
      rw [List.map_cons, wire_cons] at hsizes
      rw [quietAfterShort_cons]
      rcases Nat.eq_zero_or_pos w.sent with hzero | hpos
      · rw [Write.part_of_zero (w := w.origins) hzero, List.nil_append] at hsizes
        exact ⟨fun hshort => absurd hzero (Nat.ne_of_gt hshort.1), ih ⟨sizes, hsizes⟩⟩
      · obtain ⟨others, hothers⟩ : ∃ others : List Nat,
            sizes.flatMap ramp = ramp w.offered.length ++ others.flatMap ramp := by
          obtain ⟨tail, htail⟩ := Write.part_origins_of_pos hpos
          rw [htail, List.cons_append] at hsizes
          exact flatMap_ramp_of_head hsizes
        rw [hothers] at hsizes
        by_cases hall : w.sent = w.offered.length
        · rw [Write.part_of_all (w := w.origins) (by rw [Write.origins, length_ramp, hall]),
            Write.origins, List.prefix_append_right_inj] at hsizes
          refine ⟨fun hshort => absurd hall (Nat.ne_of_lt hshort.2), ih ⟨others, hsizes⟩⟩
        · -- The frame goes on at a place other than its first.
          have hlt : w.sent < w.offered.length := lt_of_le_of_ne w.sent_le hall
          have hnone : wire (writes.map Write.origins) = [] := by
            obtain ⟨tail, htail⟩ := drop_ramp hlt
            rw [← List.take_append_drop w.sent (ramp w.offered.length), List.append_assoc] at hsizes
            have hbehind := (List.prefix_append_right_inj _).mp hsizes
            cases hwire : wire (writes.map Write.origins) with
            | nil => rfl
            | cons x rest =>
                rw [hwire, htail, List.cons_append, List.cons_prefix_cons] at hbehind
                have hplace := head_wire_origins hwire
                rw [hbehind.1] at hplace
                exact absurd hplace (Nat.ne_of_gt hpos)
          refine ⟨fun _ => wire_origins_eq_nil_iff.mp hnone, ih ⟨[], ?_⟩⟩
          rw [hnone]
          exact List.nil_prefix

/-- **Framing and short writes.** -/
theorem inFrames_iff : InFrames writes ↔ QuietAfterShort writes := by
  refine ⟨quietAfterShort_of_inFrames, fun h => ?_⟩
  obtain ⟨kept, hkept, hwire⟩ := wire_prefix (quietAfterShort_origins.mpr h)
  have hramps : (writes.map Write.origins).map Write.offered =
      (writes.map fun w => w.offered.length).map ramp := by
    rw [List.map_map, List.map_map]
    rfl
  rw [hramps] at hkept
  obtain ⟨sizes, -, rfl⟩ := List.sublist_map_iff.mp hkept
  exact ⟨sizes, hwire⟩

/-- The same at all times. -/
theorem inFrames_always_iff :
    (∀ k, InFrames (writes.take k)) ↔ QuietAfterShort writes := by
  constructor
  · intro h
    have hall := h writes.length
    rw [List.take_length] at hall
    exact inFrames_iff.mp hall
  · intro h k
    exact inFrames_iff.mpr (h.take k)

end Foundation
end StupidP2P
