import Mathlib.Data.List.Basic
import Mathlib.Tactic.Basic

/-!
# Slices of a list that is written in place

`slice l i j` is what stands in the cells from `i` up to `j`, and `overwrite l p data`
is the list after a copy of `data` to the cells from `p` on.  The lemmas say what a
slice becomes when a copy touches one of its ends, which is all that a buffer with a
reading and a writing position needs.
-/

namespace StupidP2P
namespace Foundation

variable {α : Type}

/-- The cells from `i` up to, and without, `j`. -/
def slice (l : List α) (i j : Nat) : List α :=
  (l.take j).drop i

/-- Copy `data` to the cells from `p` on. -/
def overwrite (l : List α) (p : Nat) (data : List α) : List α :=
  l.take p ++ data ++ l.drop (p + data.length)

variable {l data : List α} {i j p : Nat}

theorem length_slice (hj : j ≤ l.length) : (slice l i j).length = j - i := by
  rw [slice, List.length_drop, List.length_take_of_le hj]

theorem length_overwrite (h : p + data.length ≤ l.length) :
    (overwrite l p data).length = l.length := by
  simp only [overwrite, List.length_append, List.length_take, List.length_drop]
  omega

theorem slice_self (l : List α) (i : Nat) : slice l i i = [] :=
  List.drop_eq_nil_of_le (List.length_take_le i l)

/-- More cells behind the list change nothing in it. -/
theorem slice_append_left (hj : j ≤ l.length) (more : List α) :
    slice (l ++ more) i j = slice l i j := by
  rw [slice, List.take_append_of_le_length hj, slice]

theorem slice_add_left (l : List α) (i j n : Nat) :
    slice l (i + n) j = (slice l i j).drop n := by
  rw [slice, slice, List.drop_drop]

/-- A slice that ends earlier. -/
theorem slice_sub_right (hj : j ≤ l.length) (n : Nat) :
    slice l i (j - n) = (slice l i j).take ((slice l i j).length - n) := by
  rw [length_slice hj, slice, slice, List.drop_take, List.drop_take, List.take_take]
  congr 1
  omega

/-- A copy to the end of a slice prolongs it. -/
theorem slice_overwrite_end (hi : i ≤ p) (h : p + data.length ≤ l.length) :
    slice (overwrite l p data) i (p + data.length) = slice l i p ++ data := by
  have hlength : (l.take p).length = p := List.length_take_of_le (by omega)
  have htake : (overwrite l p data).take (p + data.length) = l.take p ++ data := by
    refine List.take_left' ?_
    rw [List.length_append, hlength]
  rw [slice, htake, List.drop_append_of_le_length (by omega), slice]

/-- A copy to the cells in front of a slice prolongs it to the left. -/
theorem slice_overwrite_front (h : p + data.length ≤ j) (hj : j ≤ l.length) :
    slice (overwrite l p data) p j = data ++ slice l (p + data.length) j := by
  have hlength : (l.take p).length = p := List.length_take_of_le (by omega)
  have hdrop : (overwrite l p data).drop p = data ++ l.drop (p + data.length) := by
    rw [overwrite, List.append_assoc]
    exact List.drop_left' hlength
  have hsum : j - p = data.length + (j - (p + data.length)) := by omega
  rw [slice, slice, List.drop_take, List.drop_take, hdrop, hsum, List.take_length_add_append]

end Foundation
end StupidP2P
