import Mathlib.Data.Multiset.Bind
import Mathlib.Logic.Function.Basic

/-!
# Exact accounts of a heap

A heap of blocks of one type is a partial function from addresses.  `Exactly heap blocks`
says that the blocks allocated are these and no others, so an invariant of this form is at
once an account of what is allocated: allocation adds a block, `free` takes one away, a
store replaces one, and whatever is left of the account in the end was never freed.

The blocks are a multiset: who owns a block changes more often than the block does, and
that is then an equation between sums.
-/

namespace StupidP2P
namespace Foundation

/-- The blocks allocated on the heap are exactly these. -/
structure Exactly {α : Type} (heap : Nat → Option α) (blocks : Multiset (Nat × α)) : Prop where
  nodup : (blocks.map Prod.fst).Nodup
  get_iff : ∀ address x, heap address = some x ↔ (address, x) ∈ blocks

namespace Exactly

variable {α : Type} {heap heap' : Nat → Option α} {blocks gone : Multiset (Nat × α)}
variable {address : Nat} {x : α}

theorem empty : Exactly (fun _ => none : Nat → Option α) 0 where
  nodup := Multiset.nodup_zero
  get_iff := by simp

theorem get (h : Exactly heap blocks) (hmem : (address, x) ∈ blocks) : heap address = some x :=
  (h.get_iff address x).mpr hmem

theorem isSome_iff (h : Exactly heap blocks) :
    (heap address).isSome = true ↔ address ∈ blocks.map Prod.fst := by
  rw [Option.isSome_iff_exists, Multiset.mem_map]
  constructor
  · intro ⟨x, hx⟩
    exact ⟨(address, x), (h.get_iff address x).mp hx, rfl⟩
  · intro ⟨block, hmem, haddress⟩
    exact ⟨block.2, (h.get_iff address block.2).mpr (by rw [← haddress]; exact hmem)⟩

theorem eq_none_iff (h : Exactly heap blocks) :
    heap address = none ↔ address ∉ blocks.map Prod.fst := by
  rw [← h.isSome_iff, Option.not_isSome_iff_eq_none]

/-- A fresh block. -/
theorem alloc (h : Exactly heap blocks) (hfresh : heap address = none) (x : α) :
    Exactly (Function.update heap address (some x)) ((address, x) ::ₘ blocks) := by
  have hnot : address ∉ blocks.map Prod.fst := h.eq_none_iff.mp hfresh
  constructor
  · rw [Multiset.map_cons]
    exact Multiset.nodup_cons.mpr ⟨hnot, h.nodup⟩
  · intro other y
    rw [Multiset.mem_cons]
    by_cases hsame : other = address
    · subst hsame
      have hold : (other, y) ∉ blocks := fun hmem => hnot (Multiset.mem_map_of_mem Prod.fst hmem)
      rw [Function.update_self, or_iff_left hold, Option.some.injEq, Prod.mk.injEq]
      constructor
      · intro hxy
        exact ⟨rfl, hxy.symm⟩
      · intro hxy
        exact hxy.2.symm
    · rw [Function.update_of_ne hsame, h.get_iff]
      exact (or_iff_right fun heq => hsame (Prod.mk.inj heq).1).symm

/-- Taking blocks away: those in `gone` are not allocated any more, the others are as before. -/
theorem release (h : Exactly heap (gone + blocks))
    (hgone : ∀ block ∈ gone, heap' block.1 = none)
    (hkept : ∀ address, address ∉ gone.map Prod.fst → heap' address = heap address) :
    Exactly heap' blocks := by
  have hnodup := h.nodup
  rw [Multiset.map_add, Multiset.nodup_add] at hnodup
  obtain ⟨-, hblocks, hdisjoint⟩ := hnodup
  refine ⟨hblocks, ?_⟩
  intro address x
  by_cases hmem : address ∈ gone.map Prod.fst
  · obtain ⟨block, hblock, rfl⟩ := Multiset.mem_map.mp hmem
    rw [hgone block hblock]
    refine iff_of_false (by simp) ?_
    intro hleft
    exact Multiset.disjoint_left.mp hdisjoint hmem (Multiset.mem_map.mpr ⟨_, hleft, rfl⟩)
  · rw [hkept address hmem, h.get_iff, Multiset.mem_add]
    exact or_iff_right fun hin => hmem (Multiset.mem_map_of_mem Prod.fst hin)

theorem free (h : Exactly heap ((address, x) ::ₘ blocks)) :
    Exactly (Function.update heap address none) blocks := by
  rw [← Multiset.singleton_add] at h
  apply h.release
  · intro block hblock
    rw [Multiset.mem_singleton.mp hblock]
    exact Function.update_self _ _ _
  · intro other hother
    rw [Multiset.map_singleton, Multiset.mem_singleton] at hother
    exact Function.update_of_ne hother _ _

theorem get_first (h : Exactly heap ((address, x) ::ₘ blocks)) : heap address = some x :=
  h.get (Multiset.mem_cons_self _ _)

/-- A store into a block. -/
theorem store (h : Exactly heap ((address, x) ::ₘ blocks)) (y : α) :
    Exactly (Function.update heap address (some y)) ((address, y) ::ₘ blocks) := by
  have hstored := h.free.alloc (Function.update_self _ _ _) y
  rw [Function.update_idem] at hstored
  exact hstored

theorem eq_zero_of_none (h : Exactly heap blocks) (hnone : ∀ address, heap address = none) :
    blocks = 0 := by
  apply Multiset.eq_zero_of_forall_notMem
  intro block hmem
  have hget := h.get (show (block.1, block.2) ∈ blocks from hmem)
  rw [hnone] at hget
  exact absurd hget (by simp)

end Exactly

/-! ## Loops over an array -/

section

variable {α β σ : Type}

/-- A loop over the indices of an array is a loop over its entries. -/
theorem foldlM_range_getElem (l : List α) (f : σ → α → Option σ) (s : σ) :
    (List.range l.length).foldlM (fun s i => l[i]?.bind (f s)) s = l.foldlM f s := by
  induction l generalizing s with
  | nil => rfl
  | cons x l ih =>
      rw [List.length_cons, List.range_succ_eq_map, List.foldlM_cons, List.foldlM_cons,
        List.getElem?_cons_zero, Option.bind_some]
      cases f s x with
      | none => rfl
      | some s =>
          rw [Option.bind_eq_bind, Option.bind_some, Option.bind_some, List.foldlM_map]
          exact ih s

theorem mapM_range_getElem (l : List α) (f : α → Option β) :
    (List.range l.length).mapM (fun i => l[i]?.bind f) = l.mapM f := by
  induction l with
  | nil => rfl
  | cons x l ih =>
      rw [List.length_cons, List.range_succ_eq_map, List.mapM_cons, List.mapM_cons,
        List.getElem?_cons_zero, Option.bind_some, List.mapM_map]
      cases f x with
      | none => rfl
      | some y => exact congrArg (fun r => r.bind fun ys => some (y :: ys)) ih

theorem mapM_eq_some_of_forall {l : List α} {f : α → Option β} {g : α → β}
    (h : ∀ x ∈ l, f x = some (g x)) : l.mapM f = some (l.map g) := by
  induction l with
  | nil => rfl
  | cons x l ih =>
      obtain ⟨hx, hl⟩ := List.forall_mem_cons.mp h
      rw [List.mapM_cons, hx, ih hl]
      rfl

end

end Foundation
end StupidP2P
