import Mathlib.Data.List.Nodup

/-!
# Conditional transactions

A store has an item or nothing under each key. An action on a key says what it has to find
there and what it leaves. A transaction is a list of actions on distinct keys: if every action
finds what it has to, all take effect at once, and otherwise none does.
-/

namespace OpenFga.Transaction

open List Function

/-- What is required of a key, and what becomes of it. -/
structure Action (κ ι : Type) where
  key : κ
  admits : Option ι → Bool
  leaves : Option ι → Option ι

variable {κ ι : Type} [DecidableEq κ]

/-- Every action finds what it has to. -/
def Admitted (store : κ → Option ι) (actions : List (Action κ ι)) : Prop :=
  ∀ action ∈ actions, action.admits (store action.key) = true

instance (store : κ → Option ι) (actions : List (Action κ ι)) :
    Decidable (Admitted store actions) :=
  inferInstanceAs (Decidable (∀ action ∈ actions, action.admits (store action.key) = true))

/-- Changes the keys of all actions. -/
def commit (store : κ → Option ι) (actions : List (Action κ ι)) : κ → Option ι :=
  actions.foldl
    (fun store action => update store action.key (action.leaves (store action.key))) store

variable {store : κ → Option ι} {actions : List (Action κ ι)} {key : κ}

/-- A key without an action keeps its item. -/
theorem commit_of_not_mem (untouched : ∀ action ∈ actions, action.key ≠ key) :
    commit store actions key = store key := by
  induction actions generalizing store with
  | nil => rfl
  | cons action actions ih =>
    obtain ⟨first, rest⟩ := forall_mem_cons.mp untouched
    rw [commit, foldl_cons, ← commit, ih rest, update_of_ne first.symm]

/-- Conditions alone change nothing. -/
theorem commit_of_unchanged (unchanged : ∀ action ∈ actions, action.leaves = id) :
    commit store actions = store := by
  induction actions with
  | nil => rfl
  | cons action actions ih =>
    obtain ⟨first, rest⟩ := forall_mem_cons.mp unchanged
    rw [commit, foldl_cons, first, id_eq, update_eq_self, ← commit, ih rest]

/-- An action changes what was there before the transaction. -/
theorem commit_of_mem (distinct : (actions.map Action.key).Nodup) {action : Action κ ι}
    (member : action ∈ actions) :
    commit store actions action.key = action.leaves (store action.key) := by
  induction actions generalizing store with
  | nil => cases member
  | cons first actions ih =>
    rw [map_cons, nodup_cons] at distinct
    obtain ⟨apart, distinct⟩ := distinct
    have elsewhere : ∀ action ∈ actions, action.key ≠ first.key :=
      fun action member same => apart (same ▸ mem_map_of_mem member)
    rw [commit, foldl_cons, ← commit]
    rcases mem_cons.mp member with rfl | later
    · rw [commit_of_not_mem elsewhere, update_self]
    · rw [ih distinct later, update_of_ne (elsewhere action later)]

end OpenFga.Transaction
