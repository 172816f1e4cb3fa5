import OpenFga.Storage.Types

/-!
# Replaying a changelog

A changelog is the history of a set of tuples. Replaying it gives the tuples that its changes
have left, whatever backend keeps the log.
-/

namespace OpenFga

open Function

/-- The tuples of a store, by their keys. -/
abbrev TupleSet := TupleKey → Option RelationshipTuple

/-- What a change leaves under the key of its tuple. -/
def TupleChange.result (change : TupleChange) : Option RelationshipTuple :=
  match change.operation with
  | .write => some change.tuple
  | .delete => none

def TupleChange.applyTo (tuples : TupleSet) (change : TupleChange) : TupleSet :=
  update tuples change.tuple.key change.result

/-- The tuples left by changes, from some tuples on. -/
def replayFrom (tuples : TupleSet) (changes : List TupleChange) : TupleSet :=
  changes.foldl TupleChange.applyTo tuples

/-- The tuples left by a whole changelog. -/
def replay (changes : List TupleChange) : TupleSet := replayFrom (fun _ => none) changes

section Replay

variable {tuples : TupleSet} {changes more : List TupleChange} {key : TupleKey}

theorem replay_append : replay (changes ++ more) = replayFrom (replay changes) more :=
  List.foldl_append

theorem replayFrom_append :
    replayFrom tuples (changes ++ more) = replayFrom (replayFrom tuples changes) more :=
  List.foldl_append

/-- A key that no change names keeps its tuple. -/
theorem replayFrom_of_not_mem (unnamed : ∀ change ∈ changes, change.tuple.key ≠ key) :
    replayFrom tuples changes key = tuples key := by
  induction changes generalizing tuples with
  | nil => rfl
  | cons change changes ih =>
    obtain ⟨first, rest⟩ := List.forall_mem_cons.mp unnamed
    rw [replayFrom, List.foldl_cons, ← replayFrom, ih rest, TupleChange.applyTo,
      update_of_ne first.symm]

/-- A key that is named once has what its change leaves. -/
theorem replayFrom_of_mem
    (distinct : changes.Pairwise fun first second => first.tuple.key ≠ second.tuple.key)
    {change : TupleChange} (member : change ∈ changes) :
    replayFrom tuples changes change.tuple.key = change.result := by
  induction changes generalizing tuples with
  | nil => cases member
  | cons first changes ih =>
    obtain ⟨apart, distinct⟩ := List.pairwise_cons.mp distinct
    rw [replayFrom, List.foldl_cons, ← replayFrom]
    rcases List.mem_cons.mp member with rfl | later
    · rw [replayFrom_of_not_mem fun other listed => (apart other listed).symm,
        TupleChange.applyTo, update_self]
    · exact ih distinct later

/-- A tuple is left under its own key. -/
theorem key_of_replayFrom (own : ∀ tuple ∈ tuples key, tuple.key = key) :
    ∀ tuple ∈ replayFrom tuples changes key, tuple.key = key := by
  induction changes generalizing tuples with
  | nil => exact own
  | cons change changes ih =>
    rw [replayFrom, List.foldl_cons, ← replayFrom]
    refine ih fun tuple held => ?_
    unfold TupleChange.applyTo at held
    by_cases same : key = change.tuple.key
    · subst same
      rw [update_self, TupleChange.result] at held
      split at held
      · cases held
        rfl
      · cases held
    · rw [update_of_ne same] at held
      exact own tuple held

theorem key_of_replay {tuple : RelationshipTuple} (held : replay changes key = some tuple) :
    tuple.key = key :=
  key_of_replayFrom (fun _ absent => absurd absent (Option.not_mem_none _)) tuple held

end Replay

end OpenFga
