import OpenFga.Storage.Changelog
import OpenFga.Storage.Persistence

/-!
# Mutations of tuples

A mutation deletes some tuples by their keys and writes others, under a policy for deletes of
missing tuples and writes of existing ones. A backend takes it in the order of the keys.
-/

namespace OpenFga

/-- A mutation over canonical keys. -/
structure Mutation where
  storeId : StoreId
  deletes : List TupleKey
  writes : List RelationshipTuple
  options : TupleWriteOptions
  canonical : ∀ key ∈ deletes, key.Canonical
  written : ∀ tuple ∈ writes, tuple.key.Canonical

namespace Mutation

variable (mutation : Mutation)

/-- The keys that a mutation is about. -/
def keys : List TupleKey := mutation.deletes ++ mutation.writes.map RelationshipTuple.key

/-- No key is deleted or written twice, or deleted and written. -/
def Distinct : Prop :=
  mutation.deletes.Nodup ∧ (mutation.writes.map RelationshipTuple.key).Nodup ∧
    mutation.deletes.Disjoint (mutation.writes.map RelationshipTuple.key)

instance : Decidable mutation.Distinct :=
  inferInstanceAs (Decidable (_ ∧ _ ∧ ∀ key ∈ mutation.deletes,
    ¬key ∈ mutation.writes.map RelationshipTuple.key))

/-- The mutation in the order of the keys. -/
def sorted : Mutation where
  storeId := mutation.storeId
  deletes := mutation.deletes.insertionSort (· ≤ ·)
  writes := mutation.writes.insertionSort fun first second => first.key ≤ second.key
  options := mutation.options
  canonical := fun key member => mutation.canonical key ((List.mem_insertionSort _).mp member)
  written := fun tuple member => mutation.written tuple ((List.mem_insertionSort _).mp member)

variable {mutation}

theorem nodup_keys : mutation.keys.Nodup ↔ mutation.Distinct := by
  rw [keys, List.nodup_append', Distinct]

theorem keys_canonical {key : TupleKey} (member : key ∈ mutation.keys) : key.Canonical := by
  rcases List.mem_append.mp member with deleted | written
  · exact mutation.canonical key deleted
  · obtain ⟨tuple, listed, rfl⟩ := List.mem_map.mp written
    exact mutation.written tuple listed

theorem perm_sorted : mutation.sorted.keys.Perm mutation.keys :=
  (List.perm_insertionSort _ _).append ((List.perm_insertionSort _ _).map _)

theorem Distinct.sorted (distinct : mutation.Distinct) : mutation.sorted.Distinct :=
  nodup_keys.mp (perm_sorted.nodup_iff.mpr (nodup_keys.mpr distinct))

end Mutation

/-- A mutation whose keys are distinct. -/
structure DistinctMutation extends Mutation where
  distinct : toMutation.Distinct

end OpenFga
