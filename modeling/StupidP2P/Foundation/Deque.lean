import Mathlib.Data.List.Basic
import Mathlib.Tactic.Basic

/-!
# Double-ended queues

A deque as a sequence from left to right, with the operations of Python's
`collections.deque` that a reader needs who feeds it on the left and takes from the
right.  `fromRight` is what such a reader sees: the elements in the order in which
`pop` will give them.  Each operation is described by what it does to that sequence.
-/

namespace StupidP2P
namespace Foundation

universe u

@[ext]
structure Deque (α : Type u) where
  /-- The elements, leftmost first. -/
  items : List α
deriving DecidableEq

namespace Deque

variable {α : Type u}

def empty : Deque α := ⟨[]⟩

def length (d : Deque α) : Nat := d.items.length

/-- `extendleft`: the elements go in one by one, so the last one ends up leftmost. -/
def extendleft (d : Deque α) (xs : List α) : Deque α := ⟨xs.reverse ++ d.items⟩

/-- `extend`: append on the right. -/
def extend (d : Deque α) (xs : List α) : Deque α := ⟨d.items ++ xs⟩

/-- `pop`: take the rightmost element; `none` stands for an `IndexError`. -/
def pop (d : Deque α) : Option (α × Deque α) :=
  d.items.getLast?.map fun x => (x, ⟨d.items.dropLast⟩)

/-- `n` calls of `pop`, with the elements in the order in which they were taken. -/
def popN : Nat → Deque α → Option (List α × Deque α)
  | 0, d => some ([], d)
  | n + 1, d =>
      match d.pop with
      | none => none
      | some (x, d) => (popN n d).map fun (xs, d) => (x :: xs, d)

/-- The elements in the order in which `pop` gives them. -/
def fromRight (d : Deque α) : List α := d.items.reverse

/-- The deque from which `pop` gives these elements. -/
def ofRight (xs : List α) : Deque α := ⟨xs.reverse⟩

@[simp] theorem fromRight_ofRight (xs : List α) : (ofRight xs).fromRight = xs :=
  List.reverse_reverse xs

@[simp] theorem ofRight_fromRight (d : Deque α) : ofRight d.fromRight = d :=
  Deque.ext (List.reverse_reverse d.items)

@[simp] theorem length_fromRight (d : Deque α) : d.fromRight.length = d.length :=
  List.length_reverse

@[simp] theorem length_ofRight (xs : List α) : (ofRight xs).length = xs.length :=
  List.length_reverse

/-- What is fed on the left is taken last, in the order in which it came. -/
@[simp] theorem fromRight_extendleft (d : Deque α) (xs : List α) :
    (d.extendleft xs).fromRight = d.fromRight ++ xs := by
  simp [extendleft, fromRight]

/-- What is put back on the right is taken first, in reverse order. -/
@[simp] theorem fromRight_extend (d : Deque α) (xs : List α) :
    (d.extend xs).fromRight = xs.reverse ++ d.fromRight := by
  simp [extend, fromRight]

theorem pop_eq {d : Deque α} {x : α} {xs : List α} (h : d.fromRight = x :: xs) :
    d.pop = some (x, ofRight xs) := by
  have hitems : d.items = xs.reverse ++ [x] := by
    rw [← List.reverse_reverse d.items]
    show d.fromRight.reverse = _
    rw [h, List.reverse_cons]
  unfold pop ofRight
  rw [hitems, List.getLast?_append, List.dropLast_concat]
  rfl

theorem popN_eq {d : Deque α} {taken xs : List α} (h : d.fromRight = taken ++ xs) :
    d.popN taken.length = some (taken, ofRight xs) := by
  induction taken generalizing d with
  | nil =>
      rw [List.nil_append] at h
      rw [← h, ofRight_fromRight]
      rfl
  | cons x taken ih =>
      rw [List.cons_append] at h
      rw [List.length_cons, popN, pop_eq h]
      dsimp only
      rw [ih (fromRight_ofRight _)]
      rfl

theorem pop_of_nil {d : Deque α} (h : d.fromRight = []) : d.pop = none := by
  have hitems : d.items = [] := List.reverse_eq_nil_iff.mp h
  rw [pop, hitems]
  rfl

theorem length_of_pop {d d' : Deque α} {x : α} (h : d.pop = some (x, d')) :
    d'.length + 1 = d.length := by
  cases hright : d.fromRight with
  | nil => simp [pop_of_nil hright] at h
  | cons y ys =>
      rw [pop_eq hright, Option.some.injEq, Prod.mk.injEq] at h
      rw [← h.2, length_ofRight, ← length_fromRight d, hright, List.length_cons]

theorem length_of_popN {n : Nat} {d d' : Deque α} {xs : List α}
    (h : d.popN n = some (xs, d')) : d'.length + n = d.length := by
  induction n generalizing d xs with
  | zero =>
      rw [popN, Option.some.injEq, Prod.mk.injEq] at h
      rw [h.2]
      rfl
  | succ n ih =>
      rw [popN] at h
      split at h
      · simp at h
      · rename_i x rest hpop
        rw [Option.map_eq_some_iff] at h
        obtain ⟨⟨ys, last⟩, hrest, heq⟩ := h
        rw [Prod.mk.injEq] at heq
        obtain ⟨-, rfl⟩ := heq
        have hfirst := length_of_pop hpop
        have hmore := ih hrest
        omega

end Deque
end Foundation
end StupidP2P
