import OpenFga.Lib.OrderedMap

/-!
# Secondary indexes

An index sends a key to the bucket of elements filed under it. It mirrors a set of records
when the elements in each bucket are those of the records that belong there, and no bucket
is kept empty. Filing and unfiling one record keep the mirror, whatever the index files by.
-/

namespace OpenFga.SecondaryIndex

open Std OrderedMap Option ExtTreeMap

variable {ι κ π : Type} [LinearOrder ι] [LinearOrder κ]

section

variable (index : ExtTreeMap ι (ExtTreeSet κ))

/-- The elements filed under a key. -/
def bucket (key : ι) : ExtTreeSet κ :=
  index[key]?.getD ∅

def insertKey (key : ι) (element : κ) : ExtTreeMap ι (ExtTreeSet κ) :=
  index.insert key ((bucket index key).insert element)

/-- Takes an element out of its bucket, and the bucket out of the index if it was the last. -/
def removeKey (key : ι) (element : κ) : ExtTreeMap ι (ExtTreeSet κ) :=
  match index[key]? with
  | none => index
  | some keys =>
      let keys := keys.erase element
      if keys.isEmpty then index.erase key else index.insert key keys

/-- No bucket is empty. -/
def Populated : Prop :=
  ∀ (key : ι) (keys : ExtTreeSet κ), index[key]? = some keys → ∃ element, element ∈ keys

end

section Buckets

variable {index : ExtTreeMap ι (ExtTreeSet κ)} {key key' : ι} {element element' : κ}

theorem mem_bucket_insertKey : element' ∈ bucket (insertKey index key element) key' ↔
    key = key' ∧ element = element' ∨ element' ∈ bucket index key' := by
  unfold insertKey
  by_cases same : key = key'
  · subst same
    rw [bucket, getElem?_insert_self, getD_some, ExtTreeSet.mem_insert,
      Std.compare_eq_iff_eq]
    simp only [true_and]
  · rw [bucket, getElem?_insert_of_ne same]
    simp only [same, false_and, false_or]
    rfl

theorem mem_erase_iff {keys : ExtTreeSet κ} :
    element' ∈ keys.erase element ↔ element ≠ element' ∧ element' ∈ keys := by
  rw [ExtTreeSet.mem_erase, Ne, Std.compare_eq_iff_eq]

theorem mem_bucket_removeKey : element' ∈ bucket (removeKey index key element) key' ↔
    ¬ (key = key' ∧ element = element') ∧ element' ∈ bucket index key' := by
  unfold removeKey
  cases found : index[key]? with
  | none =>
    refine ⟨fun member => ⟨?_, member⟩, And.right⟩
    rintro ⟨rfl, -⟩
    rw [bucket, found] at member
    exact ExtTreeSet.not_mem_empty member
  | some keys =>
    have here : bucket index key = keys := by rw [bucket, found, getD_some]
    by_cases same : key = key'
    · subst same
      simp only [true_and]
      rw [here, ← Ne, ← mem_erase_iff]
      split
      · rename_i empty
        rw [ExtTreeSet.isEmpty_iff.mp empty, bucket, getElem?_erase_self]
        rfl
      · rw [bucket, getElem?_insert_self, getD_some]
    · simp only [same, false_and, not_false_eq_true, true_and]
      split
      · rw [bucket, getElem?_erase_of_ne same]
        rfl
      · rw [bucket, getElem?_insert_of_ne same]
        rfl

theorem Populated.insertKey (populated : Populated index) (key : ι) (element : κ) :
    Populated (insertKey index key element) := by
  intro key' keys found
  unfold SecondaryIndex.insertKey at found
  obtain ⟨rfl, rfl⟩ | old := of_getElem?_insert found
  · exact ⟨element, ExtTreeSet.mem_insert_self⟩
  · exact populated key' keys old

theorem Populated.removeKey (populated : Populated index) (key : ι) (element : κ) :
    Populated (removeKey index key element) := by
  unfold SecondaryIndex.removeKey
  cases held : index[key]? with
  | none => exact populated
  | some old =>
    simp only
    intro key' keys found
    split at found
    · exact populated key' keys (of_getElem?_erase found)
    · rename_i remaining
      obtain ⟨rfl, rfl⟩ | old := of_getElem?_insert found
      · by_contra none
        apply remaining
        rw [ExtTreeSet.isEmpty_iff]
        apply ExtTreeSet.ext_mem
        intro element'
        refine ⟨fun member => absurd ⟨element', member⟩ none, fun member => ?_⟩
        exact absurd member ExtTreeSet.not_mem_empty
      · exact populated key' keys old

end Buckets

/-- The index files exactly the given records: each in its place, if it has one. -/
structure Mirrors (place : π → Option ι) (element : π → κ) (records : π → Prop)
    (index : ExtTreeMap ι (ExtTreeSet κ)) : Prop where
  populated : Populated index
  mem_iff : ∀ key entry, entry ∈ bucket index key ↔
    ∃ record, records record ∧ place record = some key ∧ element record = entry

namespace Mirrors

variable {place : π → Option ι} {element : π → κ} {records records' : π → Prop}
  {index : ExtTreeMap ι (ExtTreeSet κ)} {key : ι}

theorem empty (none : ∀ record, ¬ records record) :
    Mirrors place element records (∅ : ExtTreeMap ι (ExtTreeSet κ)) where
  populated := by
    intro key keys found
    rw [getElem?_empty] at found
    cases found
  mem_iff := by
    intro key entry
    rw [bucket, getElem?_empty, getD_none]
    refine ⟨fun member => absurd member ExtTreeSet.not_mem_empty, ?_⟩
    rintro ⟨record, held, -⟩
    exact absurd held (none record)

section

variable (mirrors : Mirrors place element records index)

include mirrors

/-- A record without a place is not filed. -/
theorem skip (same : ∀ record, place record ≠ none → (records record ↔ records' record)) :
    Mirrors place element records' index where
  populated := mirrors.populated
  mem_iff := by
    intro key entry
    rw [mirrors.mem_iff]
    refine exists_congr fun record => ?_
    constructor
    · rintro ⟨held, placed, filed⟩
      exact ⟨(same record (by simp [placed])).mp held, placed, filed⟩
    · rintro ⟨held, placed, filed⟩
      exact ⟨(same record (by simp [placed])).mpr held, placed, filed⟩

theorem insertKey {record : π} (placed : place record = some key)
    (same : ∀ other, records' other ↔ other = record ∨ records other) :
    Mirrors place element records' (insertKey index key (element record)) where
  populated := mirrors.populated.insertKey key (element record)
  mem_iff := by
    intro key' entry
    rw [mem_bucket_insertKey, mirrors.mem_iff]
    constructor
    · rintro (⟨rfl, filed⟩ | ⟨other, held, elsewhere, filed⟩)
      · exact ⟨record, (same record).mpr (.inl rfl), placed, filed⟩
      · exact ⟨other, (same other).mpr (.inr held), elsewhere, filed⟩
    · rintro ⟨other, held, elsewhere, filed⟩
      rcases (same other).mp held with rfl | held
      · left
        rw [placed, some.injEq] at elsewhere
        exact ⟨elsewhere, filed⟩
      · exact .inr ⟨other, held, elsewhere, filed⟩

/-- Records in one place are told apart by their elements. -/
theorem removeKey {record : π} (placed : place record = some key)
    (distinct : ∀ other, place other = some key → element other = element record →
      other = record) (same : ∀ other, records' other ↔ other ≠ record ∧ records other) :
    Mirrors place element records' (removeKey index key (element record)) where
  populated := mirrors.populated.removeKey key (element record)
  mem_iff := by
    intro key' entry
    rw [mem_bucket_removeKey, mirrors.mem_iff]
    constructor
    · rintro ⟨elsewhere, other, held, there, filed⟩
      refine ⟨other, (same other).mpr ⟨?_, held⟩, there, filed⟩
      rintro rfl
      rw [placed, some.injEq] at there
      exact elsewhere ⟨there, filed⟩
    · rintro ⟨other, held, there, filed⟩
      obtain ⟨different, held⟩ := (same other).mp held
      refine ⟨?_, other, held, there, filed⟩
      rintro ⟨rfl, rfl⟩
      exact different (distinct other there filed)

end

end Mirrors

end OpenFga.SecondaryIndex
