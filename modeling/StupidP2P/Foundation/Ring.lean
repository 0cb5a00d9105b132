import Mathlib.Data.Nat.ModEq
import Mathlib.Logic.Function.Basic

/-!
# Rings of cells

An array with a read and a write position, both of which start again at 0 behind the
last cell.  Reading does not clear a cell, and the number of cells in use is not part
of the ring: its owner counts them.

Two relations say what is in a ring:

* `Holds queue`: the cells from the read position up to the write position are the
  elements of `queue`;
* `History written taken`: the ring was empty once, all of `written` was written
  since, and the read position moved on `taken` times.  This says what the cells
  outside the queue hold as well.
-/

namespace StupidP2P
namespace Foundation

universe u

/-- Cells with a read and a write position. -/
structure Ring (capacity : Nat) (α : Type u) where
  cells : Nat → α
  r : Nat
  w : Nat
  r_lt : r < capacity
  w_lt : w < capacity

namespace Ring

/-- The position after `i`. -/
def advance (capacity i : Nat) : Nat :=
  if i = capacity - 1 then 0 else i + 1

variable {capacity : Nat} {α : Type u}

theorem advance_eq {i : Nat} (hi : i < capacity) :
    advance capacity i = (i + 1) % capacity := by
  unfold advance
  split
  · have hlast : i + 1 = capacity := by omega
    rw [hlast, Nat.mod_self]
  · rw [Nat.mod_eq_of_lt (by omega)]

theorem advance_mod (hcapacity : 0 < capacity) (n : Nat) :
    advance capacity (n % capacity) = (n + 1) % capacity := by
  rw [advance_eq (Nat.mod_lt _ hcapacity), Nat.mod_add_mod]

theorem advance_lt {i : Nat} (hi : i < capacity) : advance capacity i < capacity := by
  unfold advance
  split <;> omega

/-- Positions less than one round apart are different cells. -/
theorem mod_ne_of_lt {k n : Nat} (hlt : k < n) (hround : n < k + capacity) :
    k % capacity ≠ n % capacity := by
  intro heq
  have hdvd : capacity ∣ n - k := (Nat.modEq_iff_dvd' hlt.le).mp heq
  have := Nat.le_of_dvd (by omega) hdvd
  omega

/-- Both positions at the first cell. -/
def start (cells : Nat → α) (hcapacity : 0 < capacity) : Ring capacity α where
  cells := cells
  r := 0
  w := 0
  r_lt := hcapacity
  w_lt := hcapacity

/-- Overwrite the cell at the write position and move on. -/
def write (ring : Ring capacity α) (x : α) : Ring capacity α where
  cells := Function.update ring.cells ring.w x
  r := ring.r
  w := advance capacity ring.w
  r_lt := ring.r_lt
  w_lt := advance_lt ring.w_lt

/-- Overwrite the cell at the write position only. -/
def store (ring : Ring capacity α) (x : α) : Ring capacity α where
  cells := Function.update ring.cells ring.w x
  r := ring.r
  w := ring.w
  r_lt := ring.r_lt
  w_lt := ring.w_lt

/-- Move the write position on only. -/
def moveOn (ring : Ring capacity α) : Ring capacity α where
  cells := ring.cells
  r := ring.r
  w := advance capacity ring.w
  r_lt := ring.r_lt
  w_lt := advance_lt ring.w_lt

/-- Move the read position on. -/
def skip (ring : Ring capacity α) : Ring capacity α where
  cells := ring.cells
  r := advance capacity ring.r
  w := ring.w
  r_lt := advance_lt ring.r_lt
  w_lt := ring.w_lt

/-- The cell at the read position. -/
def front (ring : Ring capacity α) : α := ring.cells ring.r

/-- The cell at the write position, which `write` overwrites. -/
def behind (ring : Ring capacity α) : α := ring.cells ring.w

/-- The cells in use are `queue`. -/
structure Holds (ring : Ring capacity α) (queue : List α) : Prop where
  length_le : queue.length ≤ capacity
  w_eq : ring.w = (ring.r + queue.length) % capacity
  cell : ∀ k x, queue[k]? = some x → ring.cells ((ring.r + k) % capacity) = x

theorem holds_start (cells : Nat → α) (hcapacity : 0 < capacity) :
    Holds (start cells hcapacity) [] where
  length_le := Nat.zero_le _
  w_eq := (Nat.zero_mod capacity).symm
  cell := by
    intro k x hx
    simp at hx

namespace Holds

variable {ring : Ring capacity α} {queue : List α} {x : α}

theorem write (h : Holds ring queue) (hroom : queue.length < capacity) (x : α) :
    Holds (ring.write x) (queue ++ [x]) where
  length_le := by
    rw [List.length_append, List.length_singleton]
    omega
  w_eq := by
    change advance capacity ring.w = _
    rw [advance_eq ring.w_lt, h.w_eq, Nat.mod_add_mod, List.length_append,
      List.length_singleton, Nat.add_assoc]
    rfl
  cell := by
    intro k y hy
    change Function.update ring.cells ring.w x ((ring.r + k) % capacity) = y
    rw [List.getElem?_append] at hy
    split at hy
    · -- An older element: its cell is less than one round behind the one written.
      rename_i hk
      have hne : (ring.r + k) % capacity ≠ ring.w := by
        rw [h.w_eq]
        exact mod_ne_of_lt (by omega) (by omega)
      rw [Function.update_of_ne hne]
      exact h.cell k y hy
    · rename_i hk
      obtain ⟨hzero, rfl⟩ : k - queue.length = 0 ∧ x = y := by
        rw [List.getElem?_singleton] at hy
        split at hy
        · rename_i hz
          exact ⟨hz, Option.some.inj hy⟩
        · simp at hy
      have hlast : k = queue.length := by omega
      rw [hlast, ← h.w_eq, Function.update_self]

theorem skip (h : Holds ring (x :: queue)) : Holds ring.skip queue where
  length_le := by
    have := h.length_le
    rw [List.length_cons] at this
    omega
  w_eq := by
    change ring.w = (advance capacity ring.r + queue.length) % capacity
    rw [h.w_eq, advance_eq ring.r_lt, Nat.mod_add_mod, List.length_cons]
    congr 1
    omega
  cell := by
    intro k y hy
    change ring.cells ((advance capacity ring.r + k) % capacity) = y
    rw [advance_eq ring.r_lt, Nat.mod_add_mod, Nat.add_assoc, Nat.add_comm 1 k]
    exact h.cell (k + 1) y (by rw [List.getElem?_cons_succ]; exact hy)

theorem front_eq (h : Holds ring (x :: queue)) : ring.front = x := by
  have hcell := h.cell 0 x rfl
  rwa [Nat.add_zero, Nat.mod_eq_of_lt ring.r_lt] at hcell

/-- The cells from the read position on, as many as the queue has elements. -/
theorem map_cells_eq (h : Holds ring queue) :
    ((List.range queue.length).map fun k => ring.cells ((ring.r + k) % capacity)) = queue := by
  apply List.ext_getElem
  · simp
  · intro k hk hk'
    rw [List.getElem_map, List.getElem_range]
    exact h.cell k _ (List.getElem?_eq_getElem hk')

end Holds

/-- All that was ever written, and how often the read position moved on. -/
structure History (cells : Nat → α) (ring : Ring capacity α) (written : List α)
    (taken : Nat) : Prop where
  r_eq : ring.r = taken % capacity
  w_eq : ring.w = written.length % capacity
  recent : ∀ k x, written[k]? = some x → written.length ≤ k + capacity →
    ring.cells (k % capacity) = x
  untouched : ∀ i, written.length ≤ i → i < capacity → ring.cells i = cells i

theorem history_start (cells : Nat → α) (hcapacity : 0 < capacity) :
    History cells (start cells hcapacity) [] 0 where
  r_eq := (Nat.zero_mod capacity).symm
  w_eq := (Nat.zero_mod capacity).symm
  recent := by
    intro k x hx
    simp at hx
  untouched := fun _ _ _ => rfl

namespace History

variable {cells : Nat → α} {ring : Ring capacity α} {written : List α} {taken : Nat}

theorem write (h : History cells ring written taken) (x : α) :
    History cells (ring.write x) (written ++ [x]) taken where
  r_eq := h.r_eq
  w_eq := by
    change advance capacity ring.w = _
    rw [advance_eq ring.w_lt, h.w_eq, Nat.mod_add_mod, List.length_append]
    rfl
  recent := by
    intro k y hy hround
    change Function.update ring.cells ring.w x (k % capacity) = y
    rw [List.length_append, List.length_singleton] at hround
    by_cases hk : k < written.length
    · -- Within the last round no two writes share a cell.
      have hne : k % capacity ≠ ring.w := by
        rw [h.w_eq]
        exact mod_ne_of_lt hk (by omega)
      rw [Function.update_of_ne hne]
      rw [List.getElem?_append_left hk] at hy
      exact h.recent k y hy (by omega)
    · have hlast : k = written.length := by
        have hsome := (List.getElem?_eq_some_iff.mp hy).1
        rw [List.length_append, List.length_singleton] at hsome
        omega
      subst hlast
      rw [List.getElem?_concat_length, Option.some.injEq] at hy
      rw [← h.w_eq, Function.update_self, hy]
  untouched := by
    intro i hi hcapacity
    rw [List.length_append, List.length_singleton] at hi
    change Function.update ring.cells ring.w x i = cells i
    -- Before the first round is over the write position is the number of writes.
    have hne : i ≠ ring.w := by
      rw [h.w_eq, Nat.mod_eq_of_lt (by omega)]
      omega
    rw [Function.update_of_ne hne]
    exact h.untouched i (by omega) hcapacity

theorem skip (h : History cells ring written taken) :
    History cells ring.skip written (taken + 1) where
  r_eq := by
    change advance capacity ring.r = _
    rw [advance_eq ring.r_lt, h.r_eq, Nat.mod_add_mod]
  w_eq := h.w_eq
  recent := h.recent
  untouched := h.untouched

/-- The front is the oldest element not taken yet. -/
theorem front_eq (h : History cells ring written taken) {x : α}
    (hx : written[taken]? = some x) (hround : written.length ≤ taken + capacity) :
    ring.front = x := by
  change ring.cells ring.r = x
  rw [h.r_eq]
  exact h.recent taken x hx hround

/-- In the first round `write` overwrites the initial contents. -/
theorem behind_of_lt (h : History cells ring written taken)
    (hround : written.length < capacity) : ring.behind = cells written.length := by
  change ring.cells ring.w = _
  rw [h.w_eq, Nat.mod_eq_of_lt hround]
  exact h.untouched _ le_rfl hround

/-- Later it overwrites what was written one round before. -/
theorem behind_of_le (h : History cells ring written taken) {k : Nat} {x : α}
    (hk : k + capacity = written.length) (hx : written[k]? = some x) : ring.behind = x := by
  change ring.cells ring.w = x
  rw [h.w_eq, ← hk, Nat.add_mod_right]
  exact h.recent k x hx hk.ge

end History
end Ring
end Foundation
end StupidP2P
