import StupidP2P.Foundation.NodeList
import Mathlib.Logic.Function.Basic

/-!
# Owners and subscriptions

What the server's two stores say about each other, without times, list nodes and
outputs.  A `Registry` has an owner for each id, a name for each connection, the
ids a connection subscribed to and the connections its data goes to.  The
operations give the whole effect of a request in closed form; the two types and
the sentinel that stands for "no name" are arbitrary.

`Inv` holds after every allowed operation, whatever came before.  The relations
that need a condition on the requests are in `StupidP2P.Server.Relations`.
-/

namespace StupidP2P
namespace Server

open Foundation

/-- The life of a connection as the registry sees it. -/
inductive Phase
  | fresh
  | live
  | gone
deriving DecidableEq, Repr

@[ext]
structure Registry (C I : Type) where
  owner : I → Option C
  name : C → I
  subs : C → List I
  sendTo : C → List C
  phase : C → Phase

/-- A request, or a change of a connection's life. -/
inductive Op (C I : Type)
  | connect (c : C)
  | register (c : C) (id : I)
  | subscribe (c : C) (id : I)
  | unsubscribe (c : C) (id : I)
  | unregister (c : C)
  | disconnect (c : C)
  | idle

namespace Registry

variable {C I : Type} [DecidableEq C] [DecidableEq I]
variable (sentinel : I) (r : Registry C I)

def initial : Registry C I where
  owner := fun _ => none
  name := fun _ => sentinel
  subs := fun _ => []
  sendTo := fun _ => []
  phase := fun _ => .fresh

def connect (c : C) : Registry C I :=
  { r with
    name := Function.update r.name c sentinel
    subs := Function.update r.subs c []
    sendTo := Function.update r.sendTo c []
    phase := Function.update r.phase c .live }

/-- `c` becomes the owner of `id` and takes it as its name; a previous owner
loses its name, whichever that is. -/
def register (c : C) (id : I) : Registry C I :=
  { r with
    owner := Function.update r.owner id (some c)
    name := fun d => if d = c then id else if r.owner id = some d then sentinel else r.name d }

/-- The owner of `id`, when a subscription of `c` to `id` is accepted. -/
def accepts (c : C) (id : I) : Option C :=
  if id = r.name c then none else r.owner id

def subscribe (c : C) (id : I) : Registry C I :=
  match r.accepts c id with
  | none => r
  | some p =>
      { r with
        subs := Function.update r.subs c (addNew id (r.subs c))
        sendTo := Function.update r.sendTo p (addNew c (r.sendTo p)) }

def unsubscribe (c : C) (id : I) : Registry C I :=
  if id ∈ r.subs c then
    { r with
      subs := Function.update r.subs c ((r.subs c).erase id)
      sendTo := fun p =>
        if r.owner id = some p then (r.sendTo p).filter (fun d => decide (d ≠ c))
        else r.sendTo p }
  else r

def unregister (c : C) : Registry C I :=
  { r with
    owner := fun id => if r.name c ≠ sentinel ∧ id = r.name c then none else r.owner id
    name := Function.update r.name c sentinel
    subs := Function.update r.subs c []
    sendTo := fun p =>
      if p = c then []
      else if ∃ id ∈ r.subs c, r.owner id = some p then
        (r.sendTo p).filter (fun d => decide (d ≠ c))
      else r.sendTo p }

def disconnect (c : C) : Registry C I :=
  { r.unregister sentinel c with phase := Function.update r.phase c .gone }

def apply : Op C I → Registry C I
  | .connect c => r.connect sentinel c
  | .register c id => r.register sentinel c id
  | .subscribe c id => r.subscribe c id
  | .unsubscribe c id => r.unsubscribe c id
  | .unregister c => r.unregister sentinel c
  | .disconnect c => r.disconnect sentinel c
  | .idle => r

/-- A connection comes up once, and only a live one makes requests. -/
def Allowed : Op C I → Prop
  | .connect c => r.phase c = .fresh
  | .register c _ => r.phase c = .live
  | .subscribe c _ => r.phase c = .live
  | .unsubscribe c _ => r.phase c = .live
  | .unregister c => r.phase c = .live
  | .disconnect c => r.phase c = .live
  | .idle => True

/-- A request changes nobody's life. -/
theorem phase_apply {op : Op C I} (hconnect : ∀ c, op ≠ .connect c)
    (hdisconnect : ∀ c, op ≠ .disconnect c) : (r.apply sentinel op).phase = r.phase := by
  cases op with
  | connect c => exact absurd rfl (hconnect c)
  | register c id => rfl
  | subscribe c id =>
      show (r.subscribe c id).phase = r.phase
      unfold subscribe
      split <;> rfl
  | unsubscribe c id =>
      show (r.unsubscribe c id).phase = r.phase
      unfold unsubscribe
      split <;> rfl
  | unregister c => rfl
  | disconnect c => exact absurd rfl (hdisconnect c)
  | idle => rfl

/-! ## The invariant that needs no condition -/

/-- What every run keeps. -/
structure Inv : Prop where
  /-- A name is owned by the connection that carries it. -/
  owner_name : ∀ c, r.name c ≠ sentinel → r.owner (r.name c) = some c
  owner_not_fresh : ∀ id c, r.owner id = some c → r.phase c ≠ .fresh
  fresh_name : ∀ c, r.phase c = .fresh → r.name c = sentinel
  /-- Only live connections subscribe. -/
  subs_of_not_live : ∀ c, r.phase c ≠ .live → r.subs c = []
  subs_nodup : ∀ c, (r.subs c).Nodup

variable {sentinel r}

omit [DecidableEq C] [DecidableEq I] in
theorem inv_initial : Inv sentinel (initial sentinel : Registry C I) where
  owner_name := by intro c hc; exact absurd rfl hc
  owner_not_fresh := by intro id c h; simp [initial] at h
  fresh_name := by intro c _; rfl
  subs_of_not_live := by intro c _; rfl
  subs_nodup := by intro c; simp [initial]

omit [DecidableEq I] in
theorem inv_connect (h : r.Inv sentinel) {c : C} (hc : r.phase c = .fresh) :
    (r.connect sentinel c).Inv sentinel where
  owner_name := by
    intro d hd
    by_cases hdc : d = c
    · subst hdc
      exact absurd (by simp [connect]) hd
    · simp only [connect, Function.update_of_ne hdc] at hd ⊢
      exact h.owner_name d hd
  owner_not_fresh := by
    intro id d hd
    have hfresh := h.owner_not_fresh id d hd
    by_cases hdc : d = c
    · subst hdc
      exact absurd hc hfresh
    · simpa [connect, Function.update_of_ne hdc] using hfresh
  fresh_name := by
    intro d hd
    by_cases hdc : d = c
    · subst hdc
      simp [connect]
    · simp only [connect, Function.update_of_ne hdc] at hd ⊢
      exact h.fresh_name d hd
  subs_of_not_live := by
    intro d hd
    by_cases hdc : d = c
    · subst hdc
      simp [connect]
    · simp only [connect, Function.update_of_ne hdc] at hd ⊢
      exact h.subs_of_not_live d hd
  subs_nodup := by
    intro d
    by_cases hdc : d = c
    · subst hdc
      simp [connect]
    · simpa [connect, Function.update_of_ne hdc] using h.subs_nodup d

/-- The heart of the invariant: a takeover strips the old owner of its name, so
no connection keeps a name that someone else owns. -/
theorem inv_register (h : r.Inv sentinel) {c : C} (hc : r.phase c = .live) (id : I) :
    (r.register sentinel c id).Inv sentinel where
  owner_name := by
    intro d hd
    by_cases hdc : d = c
    · subst hdc
      simp [register]
    · simp only [register, if_neg hdc] at hd ⊢
      by_cases hold : r.owner id = some d
      · simp [hold] at hd
      · simp only [if_neg hold] at hd ⊢
        have howner := h.owner_name d hd
        have hne : r.name d ≠ id := by
          rintro rfl
          exact hold howner
        rw [Function.update_of_ne hne]
        exact howner
  owner_not_fresh := by
    intro id' d hd
    by_cases hid : id' = id
    · subst hid
      simp only [register, Function.update_self, Option.some.injEq] at hd
      subst hd
      simp [register, hc]
    · simp only [register, Function.update_of_ne hid] at hd ⊢
      exact h.owner_not_fresh id' d hd
  fresh_name := by
    intro d hd
    have hdc : d ≠ c := by
      rintro rfl
      simp [register, hc] at hd
    simp only [register, if_neg hdc]
    by_cases hold : r.owner id = some d
    · rw [if_pos hold]
    · rw [if_neg hold]
      exact h.fresh_name d hd
  subs_of_not_live := h.subs_of_not_live
  subs_nodup := h.subs_nodup

omit [DecidableEq I] in
/-- A live connection may be given any list of ids without repetition. -/
theorem Inv.write_subs (h : r.Inv sentinel) {c : C} (hc : r.phase c = .live) {ids : List I}
    (hnodup : ids.Nodup) (sendTo : C → List C) :
    ({ r with subs := Function.update r.subs c ids, sendTo := sendTo } : Registry C I).Inv
      sentinel := by
  refine ⟨h.owner_name, h.owner_not_fresh, h.fresh_name, ?_, ?_⟩
  · intro d hd
    have hdc : d ≠ c := by
      rintro rfl
      exact hd hc
    simp only [Function.update_of_ne hdc]
    exact h.subs_of_not_live d hd
  · intro d
    by_cases hdc : d = c
    · subst hdc
      simpa using hnodup
    · simpa [Function.update_of_ne hdc] using h.subs_nodup d

theorem inv_subscribe (h : r.Inv sentinel) {c : C} (hc : r.phase c = .live) (id : I) :
    (r.subscribe c id).Inv sentinel := by
  unfold subscribe
  cases haccept : r.accepts c id with
  | none => exact h
  | some p => exact h.write_subs hc (nodup_addNew (h.subs_nodup c)) _

theorem inv_unsubscribe (h : r.Inv sentinel) {c : C} (hc : r.phase c = .live) (id : I) :
    (r.unsubscribe c id).Inv sentinel := by
  unfold unsubscribe
  by_cases hid : id ∈ r.subs c
  · rw [if_pos hid]
    exact h.write_subs hc ((h.subs_nodup c).erase id) _
  · rw [if_neg hid]
    exact h

theorem inv_unregister (h : r.Inv sentinel) (c : C) :
    (r.unregister sentinel c).Inv sentinel where
  owner_name := by
    intro d hd
    by_cases hdc : d = c
    · subst hdc
      simp [unregister] at hd
    · simp only [unregister, Function.update_of_ne hdc] at hd ⊢
      have howner := h.owner_name d hd
      rw [if_neg]
      · exact howner
      · rintro ⟨hname, heq⟩
        -- `d` would carry the name of `c`, which has one owner only
        have := h.owner_name c hname
        rw [← heq, howner] at this
        exact hdc (Option.some.inj this)
  owner_not_fresh := by
    intro id d hd
    simp only [unregister] at hd ⊢
    split at hd
    · exact absurd hd (by simp)
    · exact h.owner_not_fresh id d hd
  fresh_name := by
    intro d hd
    by_cases hdc : d = c
    · subst hdc
      simp [unregister]
    · simp only [unregister, Function.update_of_ne hdc]
      exact h.fresh_name d hd
  subs_of_not_live := by
    intro d hd
    by_cases hdc : d = c
    · subst hdc
      simp [unregister]
    · simp only [unregister, Function.update_of_ne hdc]
      exact h.subs_of_not_live d hd
  subs_nodup := by
    intro d
    by_cases hdc : d = c
    · subst hdc
      simp [unregister]
    · simpa [unregister, Function.update_of_ne hdc] using h.subs_nodup d

theorem inv_disconnect (h : r.Inv sentinel) (c : C) :
    (r.disconnect sentinel c).Inv sentinel := by
  have hun := inv_unregister h c
  refine ⟨hun.owner_name, ?_, ?_, ?_, hun.subs_nodup⟩
  · intro id d hd
    by_cases hdc : d = c
    · subst hdc
      simp [disconnect]
    · simp only [disconnect, Function.update_of_ne hdc]
      exact hun.owner_not_fresh id d hd
  · intro d hd
    by_cases hdc : d = c
    · subst hdc
      simp [disconnect, unregister]
    · simp only [disconnect, Function.update_of_ne hdc] at hd ⊢
      exact hun.fresh_name d hd
  · intro d hd
    by_cases hdc : d = c
    · subst hdc
      simp [disconnect, unregister]
    · simp only [disconnect, Function.update_of_ne hdc] at hd ⊢
      exact hun.subs_of_not_live d hd

/-- **Every allowed operation keeps the invariant.** -/
theorem inv_apply (h : r.Inv sentinel) {op : Op C I} (hop : r.Allowed op) :
    (r.apply sentinel op).Inv sentinel := by
  cases op with
  | connect c => exact inv_connect h hop
  | register c id => exact inv_register h hop id
  | subscribe c id => exact inv_subscribe h hop id
  | unsubscribe c id => exact inv_unsubscribe h hop id
  | unregister c => exact inv_unregister h c
  | disconnect c => exact inv_disconnect h c
  | idle => exact h

/-- No operation puts a connection twice into a list. -/
theorem sendTo_nodup_apply (h : ∀ p, (r.sendTo p).Nodup) (op : Op C I) :
    ∀ p, ((r.apply sentinel op).sendTo p).Nodup := by
  intro p
  cases op with
  | connect c =>
      by_cases hpc : p = c
      · simp [apply, connect, hpc]
      · simpa [apply, connect, Function.update_of_ne hpc] using h p
  | register c id => exact h p
  | subscribe c id =>
      simp only [apply, subscribe]
      split
      · exact h p
      · simp only [Function.update_apply]
        split
        · exact nodup_addNew (h _)
        · exact h p
  | unsubscribe c id =>
      simp only [apply, unsubscribe]
      split
      · dsimp only
        split
        · exact (h p).filter _
        · exact h p
      · exact h p
  | unregister c | disconnect c =>
      show List.Nodup (ite _ _ _)
      split
      · exact List.nodup_nil
      · split
        · exact (h p).filter _
        · exact h p
  | idle => exact h p

end Registry
end Server
end StupidP2P
