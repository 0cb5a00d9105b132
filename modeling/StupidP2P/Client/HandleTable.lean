import StupidP2P.Client.Model
import StupidP2P.Foundation.Machine

/-!
# The table of handles

Clients are nodes of a singly linked list behind the static node `stupid_p2p_head`, and a
handle is the number a node got when it was added.  `add_stupid_p2p_to_list` goes to the
last node, `find_stupid_p2p` looks at every node, and `remove_stupid_p2p` looks at every
node but the last.

The last node is therefore never removed, and as nodes are added behind it, it is always
the node of the newest handle.  So the table is right as long as the newest handle is
never passed to `stupid_p2p_deinit`, and wrong from the first time it is.
-/

namespace StupidP2P
namespace Client

open Foundation

variable {α : Type}

/-- A node of the list: its `fd`, and the client it is. -/
structure Entry (α : Type) where
  fd : Int
  client : α
deriving DecidableEq

/-- `stupid_p2p_head`, the nodes behind it, and `_g_fd_start`. -/
structure HandleTable (α : Type) where
  head : Entry α
  nodes : List (Entry α)
  fdStart : Int

namespace HandleTable

/-- The static variables before the first call; `zero` is the zeroed client. -/
def initial (zero : α) : HandleTable α := ⟨⟨0, zero⟩, [], 0⟩

/-- The end of `stupid_p2p_init`: the node is added behind the last one and given the
number that `add_stupid_p2p_to_list` returns. -/
def stupidP2PInit (table : HandleTable α) (client : α) : HandleTable α × Int :=
  let ret := wrap32 (table.fdStart + 1)
  ({ table with nodes := table.nodes ++ [⟨ret, client⟩], fdStart := ret }, ret)

/-- The loop of `find_stupid_p2p`, from the node `p` on. -/
def findLoop (fd : Int) : List (Entry α) → Option (Entry α)
  | [] => none
  | p :: next => if p.fd = fd then some p else findLoop fd next

def findStupidP2P (table : HandleTable α) (fd : Int) : Option (Entry α) :=
  findLoop fd (table.head :: table.nodes)

/-- The loop of `remove_stupid_p2p`, from the node `p` on: it ends at the last node
without looking at its `fd`. -/
def removeLoop (fd : Int) : List (Entry α) → List (Entry α)
  | [] => []
  | [p] => [p]
  | p :: q :: next => if p.fd = fd then q :: next else p :: removeLoop fd (q :: next)

/-- `none` if the loop frees the static node. -/
def removeStupidP2P (table : HandleTable α) (fd : Int) : Option (HandleTable α) :=
  match table.nodes with
  | [] => some table
  | _ :: _ =>
      if table.head.fd = fd then none
      else some { table with nodes := removeLoop fd table.nodes }

/-- What `stupid_p2p_deinit` does to the list. -/
def stupidP2PDeinit (table : HandleTable α) (fd : Int) : Option (HandleTable α) :=
  match table.findStupidP2P fd with
  | none => some table
  | some p => table.removeStupidP2P p.fd

end HandleTable

/-- The table, the clients whose handles are live, and the number of calls of
`stupid_p2p_init`. -/
structure Handles (α : Type) where
  table : HandleTable α
  live : Int → Option α
  inits : Nat

inductive HandleEvent (α : Type)
  | init (client : α)
  | deinit (fd : Int)

namespace Handles

def initial (zero : α) : Handles α := ⟨.initial zero, fun _ => none, 0⟩

/-- A successful `stupid_p2p_init`, which makes the handle it returns live. -/
def init (s : Handles α) (client : α) : Handles α where
  table := (s.table.stupidP2PInit client).1
  live := Function.update s.live (s.table.stupidP2PInit client).2 (some client)
  inits := s.inits + 1

def deinit (s : Handles α) (fd : Int) : Option (Handles α) :=
  (s.table.stupidP2PDeinit fd).map fun table =>
    { s with table := table, live := Function.update s.live fd none }

end Handles

/-- Fewer than 2^31 calls of `stupid_p2p_init`, and calls of `stupid_p2p_deinit` with live
handles. -/
def handleMachine (zero : α) : Machine (Handles α) (HandleEvent α) Unit where
  init := .initial zero
  enabled s event :=
    match event with
    | .init _ => s.inits + 1 < 2147483648
    | .deinit fd => s.live fd ≠ none
  exec s event :=
    match event with
    | .init client => some (s.init client, ())
    | .deinit fd => (s.deinit fd).map (·, ())

/-- `find_stupid_p2p` finds the clients of the live handles and no others. -/
def HandlesValid (s : Handles α) : Prop :=
  ∀ fd, 0 < fd → (s.table.findStupidP2P fd).map Entry.client = s.live fd

/-- The handle that `stupid_p2p_init` returned last is not given up. -/
def KeepsNewest (s : Handles α) : HandleEvent α → Prop
  | .init _ => True
  | .deinit fd => fd ≠ s.table.fdStart

namespace HandleTable

/-- In a list with increasing numbers the loop finds the node with the number. -/
theorem findLoop_eq_some_iff {fd : Int} {nodes : List (Entry α)} {p : Entry α}
    (hsorted : nodes.Pairwise (fun p q => p.fd < q.fd)) :
    findLoop fd nodes = some p ↔ p ∈ nodes ∧ p.fd = fd := by
  induction nodes with
  | nil => simp [findLoop]
  | cons q nodes ih =>
      obtain ⟨hq, hnodes⟩ := List.pairwise_cons.mp hsorted
      rw [findLoop, List.mem_cons]
      by_cases hfd : q.fd = fd
      · rw [if_pos hfd, Option.some.injEq]
        constructor
        · rintro rfl
          exact ⟨Or.inl rfl, hfd⟩
        · rintro ⟨rfl | hmem, hp⟩
          · rfl
          · have := hq p hmem
            omega
      · rw [if_neg hfd, ih hnodes]
        constructor
        · rintro ⟨hmem, hp⟩
          exact ⟨Or.inr hmem, hp⟩
        · rintro ⟨rfl | hmem, hp⟩
          · exact absurd hp hfd
          · exact ⟨hmem, hp⟩

/-- The loop removes the node with the number, unless it is the last. -/
theorem removeLoop_concat {fd : Int} {front : List (Entry α)} {last : Entry α}
    (hsorted : front.Pairwise (fun p q => p.fd < q.fd)) :
    removeLoop fd (front ++ [last]) = front.filter (fun p => p.fd ≠ fd) ++ [last] := by
  induction front with
  | nil => rfl
  | cons p front ih =>
      obtain ⟨hp, hfront⟩ := List.pairwise_cons.mp hsorted
      obtain ⟨q, next, hnext⟩ : ∃ q next, front ++ [last] = q :: next := by
        cases front with
        | nil => exact ⟨last, [], rfl⟩
        | cons q front => exact ⟨q, front ++ [last], rfl⟩
      rw [List.cons_append, hnext, removeLoop, ← hnext]
      by_cases hfd : p.fd = fd
      · have hothers : front.filter (fun p => p.fd ≠ fd) = front := by
          rw [List.filter_eq_self]
          intro q hq
          have := hp q hq
          simp only [decide_eq_true_eq]
          omega
        rw [if_pos hfd, List.filter_cons_of_neg (by simpa using hfd), hothers]
      · rw [if_neg hfd, List.filter_cons_of_pos (by simpa using hfd), ih hfront]
        rfl

end HandleTable

namespace Handles

/-- The nodes are in the order of their numbers, the last has the newest one, and every
live client is among them. -/
structure Inv (s : Handles α) : Prop where
  head_fd : s.table.head.fd = 0
  fdStart_eq : s.table.fdStart = s.inits
  inits_lt : s.inits < 2147483648
  sorted : s.table.nodes.Pairwise (fun p q => p.fd < q.fd)
  fd_pos : ∀ p ∈ s.table.nodes, 0 < p.fd
  fd_le : ∀ p ∈ s.table.nodes, p.fd ≤ s.table.fdStart
  last_fd : ∀ front last, s.table.nodes = front ++ [last] → last.fd = s.table.fdStart
  live_mem : ∀ fd client, s.live fd = some client → ⟨fd, client⟩ ∈ s.table.nodes

variable {s s' : Handles α} {fd : Int} {client : α}

theorem inv_initial (zero : α) : (initial zero).Inv where
  head_fd := rfl
  fdStart_eq := rfl
  inits_lt := by simp [initial]
  sorted := List.Pairwise.nil
  fd_pos := by simp [initial, HandleTable.initial]
  fd_le := by simp [initial, HandleTable.initial]
  last_fd := by
    intro front last h
    simp [initial, HandleTable.initial] at h
  live_mem := by
    intro fd client h
    simp [initial] at h

namespace Inv

theorem find_eq_some_iff (h : s.Inv) (hfd : 0 < fd) {p : Entry α} :
    s.table.findStupidP2P fd = some p ↔ p ∈ s.table.nodes ∧ p.fd = fd := by
  have hhead := h.head_fd
  rw [HandleTable.findStupidP2P, HandleTable.findLoop, if_neg (by omega)]
  exact HandleTable.findLoop_eq_some_iff h.sorted

theorem find_of_live (h : s.Inv) (hlive : s.live fd = some client) :
    0 < fd ∧ s.table.findStupidP2P fd = some ⟨fd, client⟩ := by
  have hmem := h.live_mem fd client hlive
  have hpos := h.fd_pos _ hmem
  exact ⟨hpos, (h.find_eq_some_iff hpos).mpr ⟨hmem, rfl⟩⟩

/-- The table is right unless a node without a live handle is left in it. -/
theorem handlesValid_iff (h : s.Inv) :
    HandlesValid s ↔ ∀ p ∈ s.table.nodes, s.live p.fd = some p.client := by
  constructor
  · intro hvalid p hp
    rw [← hvalid p.fd (h.fd_pos p hp),
      (h.find_eq_some_iff (h.fd_pos p hp)).mpr ⟨hp, rfl⟩]
    rfl
  · intro hnodes fd hfd
    cases hlive : s.live fd with
    | some client => rw [(h.find_of_live hlive).2, Option.map_some]
    | none =>
        rw [Option.map_eq_none_iff, Option.eq_none_iff_forall_ne_some]
        intro p hp
        obtain ⟨hmem, rfl⟩ := (h.find_eq_some_iff hfd).mp hp
        rw [hnodes p hmem] at hlive
        simp at hlive

theorem fdStart_init (h : s.Inv) (hroom : s.inits + 1 < 2147483648) (client : α) :
    (s.table.stupidP2PInit client).2 = s.table.fdStart + 1 := by
  have hstart := h.fdStart_eq
  exact wrap32_of_range (by omega) (by omega)

theorem init (h : s.Inv) (hroom : s.inits + 1 < 2147483648) (client : α) :
    (s.init client).Inv := by
  have hret := h.fdStart_init hroom client
  have hnodes : (s.init client).table.nodes =
      s.table.nodes ++ [⟨s.table.fdStart + 1, client⟩] := by
    rw [← hret]
    rfl
  have hstart : (s.init client).table.fdStart = s.table.fdStart + 1 := hret
  refine
    { head_fd := h.head_fd
      fdStart_eq := ?_
      inits_lt := hroom
      sorted := ?_
      fd_pos := ?_
      fd_le := ?_
      last_fd := ?_
      live_mem := ?_ }
  · rw [hstart, h.fdStart_eq]
    rfl
  · rw [hnodes, List.pairwise_append]
    refine ⟨h.sorted, List.pairwise_singleton _ _, ?_⟩
    intro p hp
    rw [List.forall_mem_singleton]
    show p.fd < s.table.fdStart + 1
    have hle := h.fd_le p hp
    omega
  · rw [hnodes, List.forall_mem_append, List.forall_mem_singleton]
    refine ⟨h.fd_pos, ?_⟩
    show 0 < s.table.fdStart + 1
    have heq := h.fdStart_eq
    omega
  · rw [hnodes, hstart, List.forall_mem_append, List.forall_mem_singleton]
    refine ⟨?_, le_rfl⟩
    intro p hp
    have hle := h.fd_le p hp
    omega
  · intro front last hlast
    rw [hnodes] at hlast
    obtain ⟨-, hlast⟩ := List.append_inj' hlast rfl
    rw [List.cons.injEq] at hlast
    rw [← hlast.1, hstart]
  · intro fd c hlive
    rw [hnodes, List.mem_append]
    change Function.update s.live (s.table.stupidP2PInit client).2 (some client) fd = some c
      at hlive
    by_cases hfd : fd = (s.table.stupidP2PInit client).2
    · subst hfd
      rw [Function.update_self, Option.some.injEq] at hlive
      rw [hret, hlive]
      exact Or.inr (List.mem_singleton.mpr rfl)
    · rw [Function.update_of_ne hfd] at hlive
      exact Or.inl (h.live_mem fd c hlive)

/-- What `stupid_p2p_deinit` of a live handle does. -/
theorem deinit_eq (h : s.Inv) (hlive : s.live fd = some client) :
    ∃ front last, s.table.nodes = front ++ [last] ∧
      s.deinit fd = some
        { s with
          table := { s.table with nodes := front.filter (fun p => p.fd ≠ fd) ++ [last] }
          live := Function.update s.live fd none } := by
  obtain ⟨hpos, hfind⟩ := h.find_of_live hlive
  have hne : s.table.nodes ≠ [] := List.ne_nil_of_mem (h.live_mem fd client hlive)
  -- The loop stops in front of the last node, so the list is split there.
  obtain ⟨front, last, hnodes⟩ := List.eq_nil_or_concat' s.table.nodes |>.resolve_left hne
  refine ⟨front, last, hnodes, ?_⟩
  have hsorted := h.sorted
  rw [hnodes, List.pairwise_append] at hsorted
  have hremove : s.table.removeStupidP2P fd =
      some { s.table with nodes := front.filter (fun p => p.fd ≠ fd) ++ [last] } := by
    have hhead := h.head_fd
    rw [HandleTable.removeStupidP2P, ← HandleTable.removeLoop_concat hsorted.1, ← hnodes]
    split
    · contradiction
    · rw [if_neg (by omega)]
  rw [Handles.deinit, HandleTable.stupidP2PDeinit, hfind]
  dsimp only
  rw [hremove]
  rfl

theorem deinit (h : s.Inv) (hlive : s.live fd = some client) (hdeinit : s.deinit fd = some s') :
    s'.Inv := by
  obtain ⟨front, last, hnodes, hresult⟩ := h.deinit_eq hlive
  rw [hresult] at hdeinit
  obtain rfl := Option.some.inj hdeinit
  have hsub : (front.filter (fun p => p.fd ≠ fd) ++ [last]).Sublist s.table.nodes := by
    rw [hnodes]
    exact List.filter_sublist.append (List.Sublist.refl _)
  refine
    { head_fd := h.head_fd
      fdStart_eq := h.fdStart_eq
      inits_lt := h.inits_lt
      sorted := h.sorted.sublist hsub
      fd_pos := fun p hp => h.fd_pos p (hsub.subset hp)
      fd_le := fun p hp => h.fd_le p (hsub.subset hp)
      last_fd := ?_
      live_mem := ?_ }
  · intro front' last' hlast
    obtain ⟨-, hlast⟩ := List.append_inj' hlast rfl
    rw [List.cons.injEq] at hlast
    rw [← hlast.1]
    exact h.last_fd front last hnodes
  · intro fd' c hlive'
    change Function.update s.live fd none fd' = some c at hlive'
    by_cases hfd : fd' = fd
    · subst hfd
      rw [Function.update_self] at hlive'
      simp at hlive'
    · rw [Function.update_of_ne hfd] at hlive'
      have hmem := h.live_mem fd' c hlive'
      rw [hnodes, List.mem_append] at hmem
      rw [List.mem_append, List.mem_filter]
      exact hmem.imp_left fun hfront => ⟨hfront, by simpa using hfd⟩

theorem valid_init (h : s.Inv) (hvalid : HandlesValid s)
    (hroom : s.inits + 1 < 2147483648) (client : α) : HandlesValid (s.init client) := by
  have hret := h.fdStart_init hroom client
  rw [(h.init hroom client).handlesValid_iff]
  change ∀ p ∈ s.table.nodes ++ [_], Function.update s.live _ _ p.fd = some p.client
  rw [List.forall_mem_append]
  constructor
  · intro p hp
    have hle := h.fd_le p hp
    rw [Function.update_of_ne (by omega)]
    exact h.handlesValid_iff.mp hvalid p hp
  · intro p hp
    rw [List.mem_singleton] at hp
    subst hp
    exact Function.update_self _ _ _

/-- Giving up the newest handle leaves its node behind; giving up any other one removes
exactly its node. -/
theorem valid_deinit_iff (h : s.Inv) (hvalid : HandlesValid s) (hlive : s.live fd = some client)
    (hdeinit : s.deinit fd = some s') : HandlesValid s' ↔ fd ≠ s.table.fdStart := by
  rw [(h.deinit hlive hdeinit).handlesValid_iff]
  obtain ⟨front, last, hnodes, hresult⟩ := h.deinit_eq hlive
  rw [hresult] at hdeinit
  obtain rfl := Option.some.inj hdeinit
  have hlast := h.last_fd front last hnodes
  change (∀ p ∈ front.filter (fun p => p.fd ≠ fd) ++ [last],
    Function.update s.live fd none p.fd = some p.client) ↔ _
  constructor
  · -- The newest handle is that of the last node, which is still there.
    rintro hleft rfl
    have hgone := hleft last (List.mem_append_right _ (List.mem_singleton.mpr rfl))
    rw [hlast, Function.update_self] at hgone
    simp at hgone
  · intro hfd p hp
    have hne : p.fd ≠ fd := by
      rcases List.mem_append.mp hp with hfront | hp
      · simpa using (List.mem_filter.mp hfront).2
      · rw [List.mem_singleton] at hp
        rw [hp, hlast]
        exact hfd.symm
    rw [Function.update_of_ne hne]
    apply h.handlesValid_iff.mp hvalid
    rw [hnodes]
    rcases List.mem_append.mp hp with hfront | hp
    · exact List.mem_append_left _ (List.mem_filter.mp hfront).1
    · exact List.mem_append_right _ hp

end Inv
end Handles

theorem handles_inv {zero : α} {s : Handles α} (hreach : (handleMachine zero).Reachable s) :
    s.Inv := by
  refine hreach.invariant Handles.Inv (Handles.inv_initial zero) ?_
  rintro ⟨pre, event, output, post⟩ ⟨henabled, hexec⟩ h
  dsimp only at h henabled hexec ⊢
  cases event with
  | init client =>
      have hpost : pre.init client = post := (Prod.mk.inj (Option.some.inj hexec)).1
      rw [← hpost]
      exact h.init henabled client
  | deinit fd =>
      obtain ⟨client, hlive⟩ := Option.ne_none_iff_exists'.mp henabled
      obtain ⟨post', hdeinit, hpost⟩ := Option.map_eq_some_iff.mp hexec
      rw [← (Prod.mk.inj hpost).1]
      exact h.deinit hlive hdeinit

/-- **The table of handles.**  In a run of calls the table is right in every state, exactly
when the newest handle is never given up. -/
theorem handles_valid_iff {zero : α} {s : Handles α}
    {trace : List (Transition (Handles α) (HandleEvent α) Unit)}
    (hrun : (handleMachine zero).Run trace s) :
    (∀ τ ∈ (handleMachine zero).visited trace, HandlesValid τ) ↔
      ∀ t ∈ trace, KeepsNewest t.pre t.event := by
  refine hrun.exact_visited HandlesValid KeepsNewest ?_ ?_
  · change HandlesValid (Handles.initial zero)
    rw [(Handles.inv_initial zero).handlesValid_iff]
    intro p hp
    simp [Handles.initial, HandleTable.initial] at hp
  · rintro ⟨pre, event, output, post⟩ ⟨henabled, hexec⟩ hreach hvalid
    have h := handles_inv hreach
    dsimp only at h henabled hexec hvalid ⊢
    cases event with
    | init client =>
        have hpost : pre.init client = post := (Prod.mk.inj (Option.some.inj hexec)).1
        rw [← hpost]
        exact iff_of_true (h.valid_init hvalid henabled client) trivial
    | deinit fd =>
        obtain ⟨client, hlive⟩ := Option.ne_none_iff_exists'.mp henabled
        obtain ⟨post', hdeinit, hpost⟩ := Option.map_eq_some_iff.mp hexec
        rw [← (Prod.mk.inj hpost).1]
        exact h.valid_deinit_iff hvalid hlive hdeinit

/-- Client 5 is created and gets the handle 1. -/
def createsFirst : Transition (Handles Nat) (HandleEvent Nat) Unit :=
  ⟨.initial 0, .init 5, (), (Handles.initial 0).init 5⟩

theorem run_createsFirst : (handleMachine 0).Run [createsFirst] createsFirst.post := by
  have hroom : 0 + 1 < 2147483648 := by decide
  have hstep : (handleMachine 0).Step createsFirst := ⟨hroom, rfl⟩
  exact .step .start hstep

/-- The only client is given up, and its node is still found. -/
theorem handles_invalid_after_deinit :
    ¬ ∀ s, (handleMachine 0).Reachable s → HandlesValid s := by
  intro h
  have hexec : ∃ s', createsFirst.post.deinit 1 = some s' ∧
      s'.table.findStupidP2P 1 = some ⟨1, 5⟩ ∧ s'.live 1 = none :=
    ⟨_, rfl, rfl, rfl⟩
  obtain ⟨s', hdeinit, hfind, hlive⟩ := hexec
  have hstep : (handleMachine 0).Step ⟨createsFirst.post, .deinit 1, (), s'⟩ := by
    refine ⟨Option.some_ne_none 5, ?_⟩
    change (createsFirst.post.deinit 1).map (·, ()) = some (s', ())
    rw [hdeinit]
    rfl
  have hvalid := h s' ⟨_, .step run_createsFirst hstep⟩ 1 (by decide)
  rw [hfind, hlive] at hvalid
  simp at hvalid

/-- Client 6 is created and gets the handle 2; then the handle 1 is given up. -/
def createsSecond : Transition (Handles Nat) (HandleEvent Nat) Unit :=
  ⟨createsFirst.post, .init 6, (), createsFirst.post.init 6⟩

def givesUpFirst : Transition (Handles Nat) (HandleEvent Nat) Unit :=
  ⟨createsSecond.post, .deinit 1, (), (createsSecond.post.deinit 1).getD createsSecond.post⟩

theorem handles_valid_givesUpFirst :
    (handleMachine 0).Run [createsFirst, createsSecond, givesUpFirst] givesUpFirst.post ∧
      ∀ τ ∈ (handleMachine 0).visited [createsFirst, createsSecond, givesUpFirst],
        HandlesValid τ := by
  have hroom : 1 + 1 < 2147483648 := by decide
  have hsecond : (handleMachine 0).Step createsSecond := ⟨hroom, rfl⟩
  have hgivesUp : (handleMachine 0).Step givesUpFirst := ⟨Option.some_ne_none 5, rfl⟩
  have hrun : (handleMachine 0).Run [createsFirst, createsSecond, givesUpFirst]
      givesUpFirst.post := .step (.step run_createsFirst hsecond) hgivesUp
  refine ⟨hrun, (handles_valid_iff hrun).mpr ?_⟩
  intro t ht
  simp only [List.mem_cons, List.not_mem_nil, or_false] at ht
  rcases ht with rfl | rfl | rfl
  · trivial
  · trivial
  · change (1 : Int) ≠ 2
    decide

end Client
end StupidP2P
