import Mathlib.Data.List.Nodup
import Mathlib.Tactic.Basic

/-!
# Linked lists with node identities

`std::list` hands out iterators that stay valid while other elements come and
go, and that become unusable once their own element is erased.  A `NodeList`
keeps both facts visible: every element sits in a node with an identity of its
own, an iterator is a `Cursor` naming a node (or the end), and each operation
that follows a cursor returns `none` when the node is no longer in the list.
Identities are never reused, so a cursor cannot come back to life.

The structure carries its own well-formedness: identities are pairwise distinct
and all of them were handed out already.
-/

namespace StupidP2P
namespace Foundation

universe u

/-- An iterator: a node, or the position one past the last node. -/
inductive Cursor
  | node (key : Nat)
  | finish
deriving DecidableEq, Repr

/-- A doubly linked list, as the sequence of its nodes. -/
structure NodeList (α : Type u) where
  nodes : List (Nat × α)
  /-- The identity the next inserted node gets. -/
  supply : Nat
  keys_nodup : (nodes.map Prod.fst).Nodup
  keys_lt : ∀ key ∈ nodes.map Prod.fst, key < supply

namespace NodeList

variable {α : Type u}

/-- The identities of the nodes, in list order. -/
def keys (l : NodeList α) : List Nat := l.nodes.map Prod.fst

/-- The elements, in list order. -/
def values (l : NodeList α) : List α := l.nodes.map Prod.snd

/-- The list without nodes. -/
def empty : NodeList α where
  nodes := []
  supply := 0
  keys_nodup := by simp
  keys_lt := by simp

instance : Inhabited (NodeList α) := ⟨empty⟩

/-- `push_back`: a new node behind all others.  Its identity is `l.supply`. -/
def pushBack (l : NodeList α) (x : α) : NodeList α where
  nodes := l.nodes ++ [(l.supply, x)]
  supply := l.supply + 1
  keys_nodup := by
    rw [List.map_append, List.nodup_append]
    refine ⟨l.keys_nodup, by simp, ?_⟩
    intro key hkey other hother
    simp only [List.map_cons, List.map_nil, List.mem_singleton] at hother
    have := l.keys_lt key hkey
    omega
  keys_lt := by
    intro key hkey
    rw [List.map_append, List.mem_append] at hkey
    rcases hkey with hold | hnew
    · have := l.keys_lt key hold
      omega
    · simp only [List.map_cons, List.map_nil, List.mem_singleton] at hnew
      omega

/-- Keep the nodes that satisfy a test. -/
def keep (l : NodeList α) (test : Nat × α → Bool) : NodeList α where
  nodes := l.nodes.filter test
  supply := l.supply
  keys_nodup := l.keys_nodup.sublist (List.filter_sublist.map Prod.fst)
  keys_lt := by
    intro key hkey
    exact l.keys_lt key ((List.filter_sublist.map Prod.fst).subset hkey)

/-- `remove(x)`: drop every node whose element equals `x`. -/
def remove [DecidableEq α] (l : NodeList α) (x : α) : NodeList α :=
  l.keep fun node => decide (node.2 ≠ x)

/-- `clear()`. -/
def clear (l : NodeList α) : NodeList α :=
  l.keep fun _ => false

/-- The cursor at the front of a sequence of nodes. -/
def front : List (Nat × α) → Cursor
  | [] => .finish
  | (key, _) :: _ => .node key

/-- `begin()`. -/
def start (l : NodeList α) : Cursor := front l.nodes

/-- The cursor behind node `key` in a sequence of nodes, if the node is there. -/
def cursorAfter : List (Nat × α) → Nat → Option Cursor
  | [], _ => none
  | (k, _) :: rest, key => if k = key then some (front rest) else cursorAfter rest key

/-- `*it` for an iterator at node `key`. -/
def deref (l : NodeList α) (key : Nat) : Option α := l.nodes.lookup key

/-- `++it` for an iterator at node `key`. -/
def next (l : NodeList α) (key : Nat) : Option Cursor := cursorAfter l.nodes key

/-- `erase(it)`: the list without node `key`, and the iterator behind it. -/
def erase (l : NodeList α) (key : Nat) : Option (NodeList α × Cursor) :=
  (l.next key).map fun behind => (l.keep fun node => decide (node.1 ≠ key), behind)

/-- A node that can be read is in the list. -/
theorem mem_nodes_of_deref {l : NodeList α} {key : Nat} {x : α}
    (hderef : l.deref key = some x) : (key, x) ∈ l.nodes := by
  obtain ⟨before, rest, hnodes, -⟩ := List.lookup_eq_some_iff.mp hderef
  rw [hnodes]
  simp

/-- The list with the node `(key, x)` moved behind all others. -/
def moveToEnd (l : NodeList α) (key : Nat) (x : α) (hderef : l.deref key = some x) :
    NodeList α where
  nodes := l.nodes.filter (fun node => decide (node.1 ≠ key)) ++ [(key, x)]
  supply := l.supply
  keys_nodup := by
    rw [List.map_append, List.nodup_append]
    refine ⟨l.keys_nodup.sublist (List.filter_sublist.map Prod.fst), by simp, ?_⟩
    intro k hk other hother
    simp only [List.map_cons, List.map_nil, List.mem_singleton] at hother
    obtain ⟨node, hnode, rfl⟩ := List.mem_map.mp hk
    rw [hother]
    simpa using List.of_mem_filter hnode
  keys_lt := by
    intro k hk
    rw [List.map_append, List.mem_append] at hk
    rcases hk with hold | hmoved
    · exact l.keys_lt k ((List.filter_sublist.map Prod.fst).subset hold)
    · simp only [List.map_cons, List.map_nil, List.mem_singleton] at hmoved
      subst hmoved
      exact l.keys_lt k (List.mem_map.mpr ⟨(k, x), mem_nodes_of_deref hderef, rfl⟩)

/-- `splice(end(), *this, it)`: move node `key` behind all others. -/
def spliceToEnd (l : NodeList α) (key : Nat) : Option (NodeList α) :=
  match hderef : l.deref key with
  | none => none
  | some x => some (l.moveToEnd key x hderef)

/-! ## The elements after an operation -/

@[simp] theorem values_pushBack (l : NodeList α) (x : α) :
    (l.pushBack x).values = l.values ++ [x] := by
  simp [values, pushBack]

@[simp] theorem values_clear (l : NodeList α) : l.clear.values = [] := by
  simp [values, clear, keep]

@[simp] theorem values_remove [DecidableEq α] (l : NodeList α) (x : α) :
    (l.remove x).values = l.values.filter fun y => decide (y ≠ x) := by
  simp [values, remove, keep, List.filter_map, Function.comp_def]

/-! ## Following a cursor -/

section Split

variable {l : NodeList α} {before rest : List (Nat × α)} {key : Nat} {x : α}

/-- No node in front of `key` has the identity `key`. -/
theorem key_notMem_before (hnodes : l.nodes = before ++ (key, x) :: rest) :
    key ∉ before.map Prod.fst := by
  have hnodup := l.keys_nodup
  rw [hnodes, List.map_append, List.nodup_append] at hnodup
  intro hmem
  exact hnodup.2.2 key hmem key (by simp) rfl

/-- Reading a node that is in the list. -/
theorem deref_split (hnodes : l.nodes = before ++ (key, x) :: rest) :
    l.deref key = some x := by
  have hbefore := key_notMem_before hnodes
  unfold deref
  rw [hnodes]
  refine List.lookup_eq_some_iff.mpr ⟨before, rest, rfl, ?_⟩
  intro node hnode
  have hne : key ≠ node.1 := by
    rintro rfl
    exact hbefore (List.mem_map.mpr ⟨node, hnode, rfl⟩)
  simpa using hne

theorem cursorAfter_append (hbefore : key ∉ before.map Prod.fst) :
    cursorAfter (before ++ (key, x) :: rest) key = some (front rest) := by
  induction before with
  | nil => simp [cursorAfter]
  | cons node before ih =>
      obtain ⟨k, y⟩ := node
      simp only [List.map_cons, List.mem_cons, not_or] at hbefore
      simp only [List.cons_append, cursorAfter, if_neg (Ne.symm hbefore.1)]
      exact ih hbefore.2

/-- Advancing from a node that is in the list. -/
theorem next_split (hnodes : l.nodes = before ++ (key, x) :: rest) :
    l.next key = some (front rest) := by
  unfold next
  rw [hnodes]
  exact cursorAfter_append (key_notMem_before hnodes)

end Split

/-- What can be read at a node is what the node holds. -/
theorem deref_eq_some_iff {l : NodeList α} {key : Nat} {x : α} :
    l.deref key = some x ↔ (key, x) ∈ l.nodes := by
  constructor
  · exact mem_nodes_of_deref
  · intro hmem
    obtain ⟨before, rest, hnodes⟩ := List.append_of_mem hmem
    exact deref_split hnodes

/-- A node has one element. -/
theorem eq_of_mem_nodes {l : NodeList α} {key : Nat} {x y : α} (hx : (key, x) ∈ l.nodes)
    (hy : (key, y) ∈ l.nodes) : x = y := by
  rw [← deref_eq_some_iff] at hx hy
  exact Option.some.inj (hx.symm.trans hy)

theorem erase_of_mem {l : NodeList α} {key : Nat} {x : α} (hmem : (key, x) ∈ l.nodes) :
    ∃ behind, l.erase key = some (l.keep fun node => decide (node.1 ≠ key), behind) := by
  obtain ⟨before, rest, hnodes⟩ := List.append_of_mem hmem
  refine ⟨front rest, ?_⟩
  rw [erase, next_split hnodes]
  rfl

theorem spliceToEnd_of_mem {l : NodeList α} {key : Nat} {x : α} (hmem : (key, x) ∈ l.nodes) :
    ∃ list, l.spliceToEnd key = some list ∧
      list.nodes = l.nodes.filter (fun node => decide (node.1 ≠ key)) ++ [(key, x)] := by
  have hderef := deref_eq_some_iff.mpr hmem
  refine ⟨l.moveToEnd key x hderef, ?_, rfl⟩
  unfold spliceToEnd
  split
  · rename_i hnone
    simp [hderef] at hnone
  · rename_i y hy
    obtain rfl := Option.some.inj (hderef.symm.trans hy)
    rfl

/-- Advancing leads to the node behind. -/
theorem split_of_next {l : NodeList α} {key : Nat} {it : Cursor} (h : l.next key = some it) :
    ∃ before x rest, l.nodes = before ++ (key, x) :: rest ∧ it = front rest := by
  unfold next at h
  generalize l.nodes = nodes at h
  induction nodes with
  | nil => exact absurd h (by simp [cursorAfter])
  | cons node nodes ih =>
      obtain ⟨k, x⟩ := node
      simp only [cursorAfter] at h
      by_cases hk : k = key
      · rw [if_pos hk, Option.some.injEq] at h
        exact ⟨[], x, nodes, by rw [hk]; rfl, h.symm⟩
      · rw [if_neg hk] at h
        obtain ⟨before, y, rest, hnodes, hit⟩ := ih h
        exact ⟨(k, x) :: before, y, rest, by rw [hnodes]; rfl, hit⟩

/-- A cursor can be followed exactly if its node is in the list. -/
theorem next_isSome_iff {l : NodeList α} {key : Nat} :
    (l.next key).isSome = true ↔ key ∈ l.keys := by
  constructor
  · intro h
    obtain ⟨it, hit⟩ := Option.isSome_iff_exists.mp h
    obtain ⟨before, x, rest, hnodes, -⟩ := split_of_next hit
    rw [keys, hnodes]
    simp
  · intro h
    obtain ⟨⟨_, x⟩, hnode, rfl⟩ := List.mem_map.mp h
    obtain ⟨before, rest, hnodes⟩ := List.append_of_mem hnode
    rw [next_split hnodes]
    rfl

theorem deref_isSome_iff {l : NodeList α} {key : Nat} :
    (l.deref key).isSome = true ↔ key ∈ l.keys := by
  constructor
  · intro h
    obtain ⟨x, hx⟩ := Option.isSome_iff_exists.mp h
    exact List.mem_map.mpr ⟨(key, x), mem_nodes_of_deref hx, rfl⟩
  · intro h
    obtain ⟨⟨_, x⟩, hnode, rfl⟩ := List.mem_map.mp h
    rw [deref_eq_some_iff.mpr hnode]
    rfl

theorem supply_spliceToEnd {l l' : NodeList α} {key : Nat} (h : l.spliceToEnd key = some l') :
    l'.supply = l.supply := by
  unfold spliceToEnd at h
  split at h
  · exact absurd h (by simp)
  · rw [← Option.some.inj h]
    rfl

/-- An erased node can no longer be read: this is what makes a cursor to it
unusable. -/
theorem deref_keep_ne (l : NodeList α) (key : Nat) :
    (l.keep fun node => decide (node.1 ≠ key)).deref key = none := by
  unfold deref keep
  rw [List.lookup_eq_none_iff]
  intro node hnode
  have hne : node.1 ≠ key := by simpa using List.of_mem_filter hnode
  simpa using Ne.symm hne

end NodeList

/-! ## Sequences searched with `std::find` -/

/-- Append `x` unless it is there already. -/
def addNew {α : Type u} [DecidableEq α] (x : α) (l : List α) : List α :=
  if x ∈ l then l else l ++ [x]

@[simp] theorem mem_addNew {α : Type u} [DecidableEq α] {x y : α} {l : List α} :
    y ∈ addNew x l ↔ y ∈ l ∨ y = x := by
  unfold addNew
  by_cases hx : x ∈ l
  · rw [if_pos hx]
    constructor
    · exact Or.inl
    · rintro (hy | rfl)
      · exact hy
      · exact hx
  · rw [if_neg hx]
    simp

theorem nodup_addNew {α : Type u} [DecidableEq α] {x : α} {l : List α} (hl : l.Nodup) :
    (addNew x l).Nodup := by
  unfold addNew
  by_cases hx : x ∈ l
  · rwa [if_pos hx]
  · rw [if_neg hx, List.nodup_append]
    refine ⟨hl, by simp, ?_⟩
    intro y hy z hz
    rw [List.mem_singleton] at hz
    rintro rfl
    exact hx (hz ▸ hy)

end Foundation
end StupidP2P
