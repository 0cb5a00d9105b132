import Mathlib.Data.List.Chain
import Mathlib.Data.List.Nodup
import Mathlib.Logic.Function.Basic

/-!
# Circular doubly linked lists on a heap

The elements of the list are cells with two pointers.  One of them, the sentinel, is part of
the list itself and is never freed; the others are nodes on the heap.  Reading or writing
through a pointer to a cell that is not allocated is `none`, and so is freeing it.

Two views of a heap are used:

* `next`, `prev` and `payload`, as functions of the pointer.  Each operation is described by
  what it does to these three;
* `Represents entries`: going round from the sentinel, consecutive cells are linked both ways
  (`Linked`), the nodes on the way carry `entries`, and nothing else is allocated.

Since `next` and `prev` are functions, a pair of linked cells cannot be broken by a store
unless the store is to one of the two: this is how the proofs below deal with lists of length
0 and 1, where the pointers to the neighbours are the same.
-/

namespace StupidP2P
namespace Foundation

/-- A pointer to a cell of a list. -/
inductive Link
  | null
  | sentinel
  | node (address : Nat)
deriving DecidableEq, Repr

/-- A list element. -/
structure LinkedCell (α : Type) where
  payload : α
  next : Link
  prev : Link

/-- The cells that are allocated. -/
@[ext]
structure LinkedHeap (α : Type) where
  cells : Link → Option (LinkedCell α)

namespace LinkedHeap

variable {α : Type}

/-! ## Operations -/

def next (heap : LinkedHeap α) (p : Link) : Option Link := (heap.cells p).map LinkedCell.next

def prev (heap : LinkedHeap α) (p : Link) : Option Link := (heap.cells p).map LinkedCell.prev

def payload (heap : LinkedHeap α) (p : Link) : Option α :=
  (heap.cells p).map LinkedCell.payload

def setNext (heap : LinkedHeap α) (p q : Link) : Option (LinkedHeap α) :=
  (heap.cells p).map fun cell =>
    ⟨Function.update heap.cells p (some { cell with next := q })⟩

def setPrev (heap : LinkedHeap α) (p q : Link) : Option (LinkedHeap α) :=
  (heap.cells p).map fun cell =>
    ⟨Function.update heap.cells p (some { cell with prev := q })⟩

/-- A sentinel that is linked to itself, and no nodes. -/
def empty (x : α) : LinkedHeap α where
  cells
    | .sentinel => some ⟨x, .sentinel, .sentinel⟩
    | _ => none

/-- A new node that is not linked yet. -/
def alloc (heap : LinkedHeap α) (address : Nat) (x : α) : LinkedHeap α :=
  ⟨Function.update heap.cells (.node address) (some ⟨x, .null, .null⟩)⟩

/-- Only nodes can be freed. -/
def free (heap : LinkedHeap α) : Link → Option (LinkedHeap α)
  | .node address =>
      (heap.cells (.node address)).map fun _ =>
        ⟨Function.update heap.cells (.node address) none⟩
  | _ => none

/-- Link a cell in before the sentinel. -/
def insertLast (heap : LinkedHeap α) (p : Link) : Option (LinkedHeap α) := do
  let last ← heap.prev .sentinel
  let heap ← heap.setPrev .sentinel p
  let heap ← heap.setNext p .sentinel
  let heap ← heap.setPrev p last
  heap.setNext last p

/-- Link the neighbours of a cell to each other. -/
def unlink (heap : LinkedHeap α) (p : Link) : Option (LinkedHeap α) := do
  let before ← heap.prev p
  let after ← heap.next p
  let heap ← heap.setNext before after
  -- The two pointers are read again after the first store.
  let after ← heap.next p
  let before ← heap.prev p
  heap.setPrev after before

/-- Follow a pointer `n` times and list the cells met. -/
def walk (step : Link → Option Link) : Nat → Link → Option (List Link)
  | 0, _ => some []
  | n + 1, p => (step p).bind fun q => (walk step n q).map (q :: ·)

/-! ## What the operations do -/

/-- The cell is allocated. -/
def Live (heap : LinkedHeap α) (p : Link) : Prop := (heap.payload p).isSome = true

variable {heap : LinkedHeap α} {p q : Link}

theorem live_iff : heap.Live p ↔ ∃ cell, heap.cells p = some cell := by
  rw [Live, payload, Option.isSome_map, Option.isSome_iff_exists]

theorem live_of_next (h : heap.next p = some q) : heap.Live p := by
  obtain ⟨cell, hcell, -⟩ := Option.map_eq_some_iff.mp h
  exact live_iff.mpr ⟨cell, hcell⟩

theorem live_of_prev (h : heap.prev p = some q) : heap.Live p := by
  obtain ⟨cell, hcell, -⟩ := Option.map_eq_some_iff.mp h
  exact live_iff.mpr ⟨cell, hcell⟩

/-- A view of a heap with one cell replaced. -/
theorem view_update {β : Type} (view : LinkedCell α → β)
    (cells : Link → Option (LinkedCell α)) (p : Link) (cell : Option (LinkedCell α)) :
    (fun r => (Function.update cells p cell r).map view) =
      Function.update (fun r => (cells r).map view) p (cell.map view) := by
  ext r : 1
  by_cases hr : r = p
  · rw [hr, Function.update_self, Function.update_self]
  · rw [Function.update_of_ne hr, Function.update_of_ne hr]

/-- It is the same view if the new cell looks like the old one. -/
theorem view_update_same {β : Type} (view : LinkedCell α → β)
    {cells : Link → Option (LinkedCell α)} {p : Link} {cell cell' : LinkedCell α}
    (hcell : cells p = some cell) (hsame : view cell' = view cell) :
    (fun r => (Function.update cells p (some cell') r).map view) =
      fun r => (cells r).map view := by
  rw [view_update, Option.map_some, hsame, ← Option.map_some, ← hcell]
  exact Function.update_eq_self p fun r => (cells r).map view

/-- A store to the `next` of an allocated cell. -/
theorem exists_setNext (hlive : heap.Live p) (q : Link) :
    ∃ heap', heap.setNext p q = some heap' ∧
      heap'.next = Function.update heap.next p (some q) ∧ heap'.prev = heap.prev ∧
      heap'.payload = heap.payload := by
  obtain ⟨cell, hcell⟩ := live_iff.mp hlive
  refine ⟨_, by rw [setNext, hcell, Option.map_some], ?_, ?_, ?_⟩
  · exact view_update LinkedCell.next heap.cells p _
  · exact view_update_same LinkedCell.prev hcell rfl
  · exact view_update_same LinkedCell.payload hcell rfl

/-- A store to the `prev` of an allocated cell. -/
theorem exists_setPrev (hlive : heap.Live p) (q : Link) :
    ∃ heap', heap.setPrev p q = some heap' ∧ heap'.next = heap.next ∧
      heap'.prev = Function.update heap.prev p (some q) ∧ heap'.payload = heap.payload := by
  obtain ⟨cell, hcell⟩ := live_iff.mp hlive
  refine ⟨_, by rw [setPrev, hcell, Option.map_some], ?_, ?_, ?_⟩
  · exact view_update_same LinkedCell.next hcell rfl
  · exact view_update LinkedCell.prev heap.cells p _
  · exact view_update_same LinkedCell.payload hcell rfl

theorem exists_free {address : Nat} (hlive : heap.Live (.node address)) :
    ∃ heap', heap.free (.node address) = some heap' ∧
      heap'.next = Function.update heap.next (.node address) none ∧
      heap'.prev = Function.update heap.prev (.node address) none ∧
      heap'.payload = Function.update heap.payload (.node address) none := by
  obtain ⟨cell, hcell⟩ := live_iff.mp hlive
  refine ⟨_, by rw [free, hcell, Option.map_some], ?_, ?_, ?_⟩
  · exact view_update LinkedCell.next heap.cells _ none
  · exact view_update LinkedCell.prev heap.cells _ none
  · exact view_update LinkedCell.payload heap.cells _ none

theorem next_alloc (heap : LinkedHeap α) (address : Nat) (x : α) :
    (heap.alloc address x).next = Function.update heap.next (.node address) (some .null) :=
  view_update LinkedCell.next heap.cells _ _

theorem prev_alloc (heap : LinkedHeap α) (address : Nat) (x : α) :
    (heap.alloc address x).prev = Function.update heap.prev (.node address) (some .null) :=
  view_update LinkedCell.prev heap.cells _ _

theorem payload_alloc (heap : LinkedHeap α) (address : Nat) (x : α) :
    (heap.alloc address x).payload =
      Function.update heap.payload (.node address) (some x) :=
  view_update LinkedCell.payload heap.cells _ _

/-- Liveness is what `payload` sees. -/
theorem live_congr {heap' : LinkedHeap α} (h : heap'.payload = heap.payload) :
    heap'.Live p ↔ heap.Live p := by
  rw [Live, Live, h]

theorem exists_insertLast {last : Link} (hlast : heap.prev .sentinel = some last)
    (hlive : heap.Live last) (hp : heap.Live p) :
    ∃ heap', heap.insertLast p = some heap' ∧
      heap'.next =
        Function.update (Function.update heap.next p (some .sentinel)) last (some p) ∧
      heap'.prev =
        Function.update (Function.update heap.prev .sentinel (some p)) p (some last) ∧
      heap'.payload = heap.payload := by
  obtain ⟨heap₁, h₁, hnext₁, hprev₁, hpayload₁⟩ := exists_setPrev (live_of_prev hlast) p
  obtain ⟨heap₂, h₂, hnext₂, hprev₂, hpayload₂⟩ :=
    exists_setNext ((live_congr hpayload₁).mpr hp) .sentinel
  have hpayload₂' := hpayload₂.trans hpayload₁
  obtain ⟨heap₃, h₃, hnext₃, hprev₃, hpayload₃⟩ :=
    exists_setPrev ((live_congr hpayload₂').mpr hp) last
  have hpayload₃' := hpayload₃.trans hpayload₂'
  obtain ⟨heap₄, h₄, hnext₄, hprev₄, hpayload₄⟩ :=
    exists_setNext ((live_congr hpayload₃').mpr hlive) p
  refine ⟨heap₄, ?_, ?_, ?_, hpayload₄.trans hpayload₃'⟩
  · simp only [insertLast, hlast, h₁, h₂, h₃, h₄, Option.bind_eq_bind, Option.bind_some]
  · rw [hnext₄, hnext₃, hnext₂, hnext₁]
  · rw [hprev₄, hprev₃, hprev₂, hprev₁]

theorem exists_unlink {before after : Link} (hbefore : heap.prev p = some before)
    (hafter : heap.next p = some after) (hne : before ≠ p) (hlive : heap.Live before)
    (hlive' : heap.Live after) :
    ∃ heap', heap.unlink p = some heap' ∧
      heap'.next = Function.update heap.next before (some after) ∧
      heap'.prev = Function.update heap.prev after (some before) ∧
      heap'.payload = heap.payload := by
  obtain ⟨heap₁, h₁, hnext₁, hprev₁, hpayload₁⟩ := exists_setNext hlive after
  obtain ⟨heap₂, h₂, hnext₂, hprev₂, hpayload₂⟩ :=
    exists_setPrev ((live_congr hpayload₁).mpr hlive') before
  have hagain : heap₁.next p = some after := by
    rw [hnext₁, Function.update_of_ne hne.symm, hafter]
  have hagain' : heap₁.prev p = some before := by
    rw [hprev₁, hbefore]
  refine ⟨heap₂, ?_, ?_, ?_, hpayload₂.trans hpayload₁⟩
  · simp only [unlink, hbefore, hafter, h₁, hagain, hagain', h₂, Option.bind_eq_bind,
      Option.bind_some]
  · rw [hnext₂, hnext₁]
  · rw [hprev₂, hprev₁]

/-! ## The list in the heap -/

/-- Two cells that are neighbours in both directions. -/
def Linked (heap : LinkedHeap α) (p q : Link) : Prop :=
  heap.next p = some q ∧ heap.prev q = some p

/-- The cells met on the way round. -/
def cycle (addresses : List Nat) : List Link :=
  .sentinel :: (addresses.map .node ++ [.sentinel])

/-- The list consists of these nodes with these payloads, and nothing else is allocated. -/
structure Represents (heap : LinkedHeap α) (entries : List (Nat × α)) : Prop where
  chain : (cycle (entries.map Prod.fst)).IsChain heap.Linked
  nodup : (entries.map Prod.fst).Nodup
  payload_eq : ∀ entry ∈ entries, heap.payload (.node entry.1) = some entry.2
  live : ∀ p, heap.Live p → p = .sentinel ∨ ∃ address ∈ entries.map Prod.fst, p = .node address

theorem represents_empty (x : α) : (empty x).Represents [] where
  chain := List.isChain_pair.mpr ⟨rfl, rfl⟩
  nodup := List.nodup_nil
  payload_eq := by simp
  live := by
    intro p hp
    obtain ⟨cell, hcell⟩ := live_iff.mp hp
    cases p with
    | sentinel => exact Or.inl rfl
    | null => cases hcell
    | node address => cases hcell

/-- In a chain every element but the last has a successor. -/
theorem exists_rel_of_mem_append {β : Type} {R : β → β → Prop} {a z : β} {l : List β}
    (h : (l ++ [z]).IsChain R) (ha : a ∈ l) : ∃ b, R a b := by
  obtain ⟨before, rest, rfl⟩ := List.append_of_mem ha
  cases hrest : rest ++ [z] with
  | nil => simp at hrest
  | cons b tail =>
      rw [List.append_assoc, List.cons_append, hrest, List.isChain_append_cons_cons] at h
      exact ⟨b, h.2.1⟩

/-- And every element but the first a predecessor. -/
theorem exists_rel_of_mem_cons {β : Type} {R : β → β → Prop} {a z : β} {l : List β}
    (h : (z :: l).IsChain R) (ha : a ∈ l) : ∃ b, R b a := by
  induction l generalizing z with
  | nil => simp at ha
  | cons c l ih =>
      rw [List.isChain_cons_cons] at h
      rcases List.mem_cons.mp ha with rfl | hlater
      · exact ⟨z, h.1⟩
      · exact ih h.2 hlater

theorem walk_of_isChain {step : Link → Option Link} {links : List Link} {p : Link}
    (h : (p :: links).IsChain fun p q => step p = some q) :
    walk step links.length p = some links := by
  induction links generalizing p with
  | nil => rfl
  | cons q links ih =>
      rw [List.isChain_cons_cons] at h
      rw [List.length_cons, walk, h.1, Option.bind_some, ih h.2, Option.map_some]

namespace Represents

variable {entries : List (Nat × α)}

/-- Every cell has a successor it is linked with. -/
theorem exists_linked (h : heap.Represents entries) (hp : heap.Live p) :
    ∃ q, heap.Linked p q := by
  have hchain : ((Link.sentinel :: (entries.map Prod.fst).map .node) ++
      [Link.sentinel]).IsChain heap.Linked := h.chain
  refine exists_rel_of_mem_append hchain ?_
  rcases h.live p hp with rfl | ⟨address, haddress, rfl⟩
  · exact List.mem_cons_self
  · exact List.mem_cons_of_mem _ (List.mem_map.mpr ⟨address, haddress, rfl⟩)

/-- And a predecessor. -/
theorem exists_linked' (h : heap.Represents entries) (hq : heap.Live q) :
    ∃ p, heap.Linked p q := by
  refine exists_rel_of_mem_cons h.chain ?_
  rcases h.live q hq with rfl | ⟨address, haddress, rfl⟩
  · simp
  · exact List.mem_append_left _ (List.mem_map.mpr ⟨address, haddress, rfl⟩)

/-- `prev` is the inverse of `next`. -/
theorem next_iff_prev (h : heap.Represents entries) :
    heap.next p = some q ↔ heap.prev q = some p := by
  constructor
  · intro hnext
    obtain ⟨r, hr⟩ := h.exists_linked (live_of_next hnext)
    obtain rfl : r = q := Option.some.inj (hr.1.symm.trans hnext)
    exact hr.2
  · intro hprev
    obtain ⟨r, hr⟩ := h.exists_linked' (live_of_prev hprev)
    obtain rfl : r = p := Option.some.inj (hr.2.symm.trans hprev)
    exact hr.1

/-- Following `next` from the sentinel meets the nodes in order and comes back. -/
theorem walk_next (h : heap.Represents entries) :
    walk heap.next (entries.length + 1) .sentinel =
      some ((entries.map fun entry => .node entry.1) ++ [.sentinel]) := by
  have hwalk := walk_of_isChain (h.chain.imp fun p q hpq => hpq.1)
  rw [List.length_append, List.length_map, List.length_map, List.length_singleton,
    List.map_map] at hwalk
  exact hwalk

/-- The cells of the list are exactly what is allocated. -/
theorem live_iff_mem (h : heap.Represents entries) :
    heap.Live p ↔ p = .sentinel ∨ ∃ address ∈ entries.map Prod.fst, p = .node address := by
  refine ⟨h.live p, ?_⟩
  rintro (rfl | ⟨address, haddress, rfl⟩)
  · obtain ⟨q, hq⟩ := exists_rel_of_mem_cons h.chain
      (List.mem_append_right _ (List.mem_singleton_self Link.sentinel))
    exact live_of_prev hq.2
  · obtain ⟨entry, hentry, rfl⟩ := List.mem_map.mp haddress
    rw [Live, h.payload_eq entry hentry]
    rfl

theorem live_sentinel (h : heap.Represents entries) : heap.Live .sentinel :=
  h.live_iff_mem.mpr (Or.inl rfl)

section Insert

variable {heap' : LinkedHeap α} {last : Link} {address : Nat}

theorem ne_of_live (hfresh : ¬ heap.Live (.node address)) (hp : heap.Live p) :
    p ≠ .node address := by
  rintro rfl
  exact hfresh hp

/-- Neighbours stay linked when a new node is linked in behind `last`, unless the second of
them is the sentinel. -/
theorem linked_insertLast (hlinked : heap.Linked last .sentinel)
    (hfresh : ¬ heap.Live (.node address))
    (hnext : heap'.next = Function.update
      (Function.update heap.next (.node address) (some .sentinel)) last (some (.node address)))
    (hprev : heap'.prev = Function.update
      (Function.update heap.prev (.node address) (some last)) .sentinel (some (.node address)))
    (hq : q ≠ .sentinel) (h : heap.Linked p q) : heap'.Linked p q := by
  -- The cell before `q` is not `last`, which is before the sentinel.
  have hlast : p ≠ last := by
    rintro rfl
    exact hq (Option.some.inj (h.1.symm.trans hlinked.1))
  constructor
  · rw [hnext, Function.update_of_ne hlast,
      Function.update_of_ne (ne_of_live hfresh (live_of_next h.1))]
    exact h.1
  · rw [hprev, Function.update_of_ne hq,
      Function.update_of_ne (ne_of_live hfresh (live_of_prev h.2))]
    exact h.2

theorem isChain_insertLast (h : heap.Represents entries) (hlinked : heap.Linked last .sentinel)
    (hfresh : ¬ heap.Live (.node address))
    (hnext : heap'.next = Function.update
      (Function.update heap.next (.node address) (some .sentinel)) last (some (.node address)))
    (hprev : heap'.prev = Function.update
      (Function.update heap.prev (.node address) (some last)) .sentinel
        (some (.node address))) :
    (cycle (entries.map Prod.fst ++ [address])).IsChain heap'.Linked := by
  have hchain : ((Link.sentinel :: (entries.map Prod.fst).map .node) ++
      [Link.sentinel]).IsChain heap.Linked := h.chain
  obtain ⟨hinit, -, hseam⟩ := List.isChain_append.mp hchain
  have hcycle : cycle (entries.map Prod.fst ++ [address]) =
      (Link.sentinel :: (entries.map Prod.fst).map .node) ++ [.node address, .sentinel] := by
    simp [cycle]
  have hne := ne_of_live hfresh (live_of_next hlinked.1)
  rw [hcycle, List.isChain_append, List.isChain_pair]
  refine ⟨?_, ⟨?_, ?_⟩, ?_⟩
  · refine hinit.imp_of_mem_tail_imp ?_
    intro p q _ hq hpq
    obtain ⟨other, -, rfl⟩ := List.mem_map.mp hq
    exact linked_insertLast hlinked hfresh hnext hprev (by simp) hpq
  · rw [hnext, Function.update_of_ne hne.symm, Function.update_self]
  · rw [hprev, Function.update_self]
  · intro p hp q hq
    obtain rfl : Link.node address = q := Option.some.inj hq
    -- The last of the old cells is the one before the sentinel.
    obtain rfl : p = last := by
      have hprev' := (hseam p hp .sentinel rfl).2
      exact Option.some.inj (hprev'.symm.trans hlinked.2)
    constructor
    · rw [hnext, Function.update_self]
    · rw [hprev, Function.update_of_ne (by simp), Function.update_self]

end Insert

/-- **Inserting at the end.**  A new node is allocated and linked in before the sentinel. -/
theorem alloc_insertLast (h : heap.Represents entries) {address : Nat}
    (hfresh : ¬ heap.Live (.node address)) (x : α) :
    ∃ heap', (heap.alloc address x).insertLast (.node address) = some heap' ∧
      heap'.Represents (entries ++ [(address, x)]) := by
  obtain ⟨last, hlinked⟩ := h.exists_linked' h.live_sentinel
  have hlast := live_of_next hlinked.1
  have hlast' : (heap.alloc address x).Live last := by
    rw [Live, payload_alloc, Function.update_of_ne (ne_of_live hfresh hlast)]
    exact hlast
  have hnew : (heap.alloc address x).Live (.node address) := by
    rw [Live, payload_alloc, Function.update_self]
    rfl
  have hbefore : (heap.alloc address x).prev .sentinel = some last := by
    rw [prev_alloc, Function.update_of_ne (by simp)]
    exact hlinked.2
  obtain ⟨heap', hinsert, hnext, hprev, hpayload⟩ := exists_insertLast hbefore hlast' hnew
  rw [next_alloc, Function.update_idem] at hnext
  rw [prev_alloc, Function.update_comm (by simp), Function.update_idem] at hprev
  rw [payload_alloc] at hpayload
  refine ⟨heap', hinsert, ?_, ?_, ?_, ?_⟩
  · rw [List.map_append]
    exact isChain_insertLast h hlinked hfresh hnext hprev
  · have hnotMem : address ∉ entries.map Prod.fst :=
      fun hmem => hfresh (h.live_iff_mem.mpr (Or.inr ⟨address, hmem, rfl⟩))
    rw [List.map_append]
    exact h.nodup.append (List.nodup_singleton _) (List.disjoint_singleton.mpr hnotMem)
  · intro entry hentry
    rw [hpayload]
    rcases List.mem_append.mp hentry with hold | hlast
    · have hlive : heap.Live (.node entry.1) :=
        h.live_iff_mem.mpr (Or.inr ⟨_, List.mem_map.mpr ⟨entry, hold, rfl⟩, rfl⟩)
      rw [Function.update_of_ne (ne_of_live hfresh hlive)]
      exact h.payload_eq entry hold
    · obtain rfl := List.mem_singleton.mp hlast
      rw [Function.update_self]
  · intro p hp
    by_cases hpnew : p = .node address
    · exact Or.inr ⟨address, by simp, hpnew⟩
    · rw [Live, hpayload, Function.update_of_ne hpnew] at hp
      rcases h.live p hp with hsentinel | ⟨other, hother, hnode⟩
      · exact Or.inl hsentinel
      · refine Or.inr ⟨other, ?_, hnode⟩
        rw [List.map_append]
        exact List.mem_append_left _ hother

section Remove

variable {heap' : LinkedHeap α} {address : Nat} {x : α}

/-- The first node is behind the sentinel. -/
theorem linked_first (h : heap.Represents ((address, x) :: entries)) :
    heap.Linked .sentinel (.node address) := (List.isChain_cons_cons.mp h.chain).1

theorem address_notMem (h : heap.Represents ((address, x) :: entries)) :
    address ∉ entries.map Prod.fst := (List.nodup_cons.mp h.nodup).1

theorem isChain_unlink (h : heap.Represents ((address, x) :: entries)) {after : Link}
    (hafter : heap.Linked (.node address) after)
    (hnext : heap'.next = Function.update
      (Function.update heap.next .sentinel (some after)) (.node address) none)
    (hprev : heap'.prev = Function.update
      (Function.update heap.prev after (some .sentinel)) (.node address) none) :
    (cycle (entries.map Prod.fst)).IsChain heap'.Linked := by
  have hfirst := h.linked_first
  have hchain := (List.isChain_cons_cons.mp h.chain).2
  obtain ⟨hseam, hrest⟩ := List.isChain_cons.mp hchain
  have hnotMem : Link.node address ∉ (entries.map Prod.fst).map .node ++ [Link.sentinel] := by
    have := h.address_notMem
    simpa using this
  have hne : after ≠ .node address := by
    rintro rfl
    exact absurd (hafter.2.symm.trans hfirst.2) (by simp)
  refine List.isChain_cons.mpr ⟨?_, ?_⟩
  · intro q hq
    obtain rfl : q = after := Option.some.inj ((hseam q hq).1.symm.trans hafter.1)
    constructor
    · rw [hnext, Function.update_of_ne (by simp), Function.update_self]
    · rw [hprev, Function.update_of_ne hne, Function.update_self]
  · refine hrest.imp_of_mem_tail_imp ?_
    intro p q hp hq hpq
    have hp' : p ≠ .node address := by
      rintro rfl
      exact hnotMem hp
    have hq' : q ≠ .node address := by
      rintro rfl
      exact hnotMem (List.mem_of_mem_tail hq)
    -- Neither store is to one of these cells: the sentinel is before the node that goes, and
    -- so is the node before `after`.
    have hsentinel : p ≠ .sentinel := by
      rintro rfl
      exact hq' (Option.some.inj (hpq.1.symm.trans hfirst.1))
    have hafter' : q ≠ after := by
      rintro rfl
      exact hp' (Option.some.inj (hpq.2.symm.trans hafter.2))
    constructor
    · rw [hnext, Function.update_of_ne hp', Function.update_of_ne hsentinel]
      exact hpq.1
    · rw [hprev, Function.update_of_ne hq', Function.update_of_ne hafter']
      exact hpq.2

/-- **Removing the first node.**  It is unlinked and freed. -/
theorem unlink_free (h : heap.Represents ((address, x) :: entries)) :
    ∃ heap₁ heap', heap.unlink (.node address) = some heap₁ ∧
      heap₁.free (.node address) = some heap' ∧ heap'.Represents entries := by
  have hfirst := h.linked_first
  obtain ⟨after, hafter⟩ := h.exists_linked (live_of_prev hfirst.2)
  obtain ⟨heap₁, hunlink, hnext₁, hprev₁, hpayload₁⟩ := exists_unlink hfirst.2 hafter.1
    (by simp) h.live_sentinel (live_of_prev hafter.2)
  obtain ⟨heap', hfree, hnext, hprev, hpayload⟩ :=
    exists_free ((live_congr hpayload₁).mpr (live_of_prev hfirst.2))
  rw [hnext₁] at hnext
  rw [hprev₁] at hprev
  rw [hpayload₁] at hpayload
  refine ⟨heap₁, heap', hunlink, hfree, h.isChain_unlink hafter hnext hprev,
    (List.nodup_cons.mp h.nodup).2, ?_, ?_⟩
  · intro entry hentry
    have hne : Link.node entry.1 ≠ .node address := by
      intro hsame
      have hmem : entry.1 ∈ entries.map Prod.fst := List.mem_map.mpr ⟨entry, hentry, rfl⟩
      rw [Link.node.inj hsame] at hmem
      exact h.address_notMem hmem
    rw [hpayload, Function.update_of_ne hne]
    exact h.payload_eq entry (List.mem_cons_of_mem _ hentry)
  · intro p hp
    have hne : p ≠ .node address := by
      rintro rfl
      rw [Live, hpayload, Function.update_self] at hp
      exact Bool.noConfusion hp
    rw [Live, hpayload, Function.update_of_ne hne] at hp
    rcases h.live p hp with hsentinel | ⟨other, hother, rfl⟩
    · exact Or.inl hsentinel
    · rcases List.mem_cons.mp hother with hsame | hlater
      · exact absurd (congrArg Link.node hsame) hne
      · exact Or.inr ⟨other, hlater, rfl⟩

end Remove

end Represents
end LinkedHeap
end Foundation
end StupidP2P
