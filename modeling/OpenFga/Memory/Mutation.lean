import OpenFga.Memory.Indexes
import OpenFga.Storage.Changelog

/-!
# Mutations of tuples and the changelog

A mutation that fails leaves the state as it was. One that succeeds takes effect as a whole:
in the tuples, in their indexes, and as one change for each tuple that it deleted or wrote.
The identifiers of changes only grow, so a store's changes in the order of their identifiers
are the history of its tuples, and replaying them gives the tuples it holds.
-/

namespace OpenFga.Memory

open Std OrderedMap List Function

variable {timestamp : SystemTime} {s : MemoryState} {mutation : TupleMutation}
  {allocator : ChangeIdAllocator} {storeId : StoreId} {tuples : List RelationshipTuple}
  {changes : List TupleChange} {tuple : RelationshipTuple} {key : TupleKey} {record : RecordKey}
  {allocator' : ChangeIdAllocator} {deletes : List TupleKey}
  {wanted : ExtTreeMap TupleKey RelationshipTuple} {other : StoreId} {change : TupleChange}
  {t : MemoryState}

/-- The parts of the last identifier are within their bits. -/
structure ChangeIdAllocator.Bounded (allocator : ChangeIdAllocator) : Prop where
  timestamp : allocator.lastTimestampMs < 2 ^ 48
  random : allocator.lastRandom < 2 ^ 80

/-- All identifiers given out are below this number. -/
def ChangeIdAllocator.ceiling (allocator : ChangeIdAllocator) : Nat :=
  if allocator.initialized then allocator.lastTimestampMs * 2 ^ 80 + allocator.lastRandom + 1
  else 0

/-- The parts of the next identifier are beyond those of the last. -/
theorem ChangeIdAllocator.advance_beyond (bounded : allocator.Bounded)
    {wallMs nextMs nextRandom : Nat}
    (advanced : allocator.advance wallMs = .ok (nextMs, nextRandom)) :
    nextRandom < 2 ^ 80 ∧ allocator.ceiling ≤ nextMs * 2 ^ 80 + nextRandom := by
  have random := bounded.random
  unfold advance at advanced
  split at advanced
  · rename_i behind
    rw [ceiling, if_pos (Bool.and_elim_left behind)]
    split at advanced
    · split at advanced
      · cases advanced
        omega
      · cases advanced
    · rename_i room
      cases advanced
      unfold maximumUlidRandom at room
      omega
  · rename_i ahead
    cases advanced
    refine ⟨by omega, ?_⟩
    unfold ceiling
    split
    · rename_i started
      rw [started, Bool.true_and, decide_eq_true_iff, Nat.not_le] at ahead
      omega
    · omega

/-- A new identifier is the first that has not been passed. -/
theorem ChangeIdAllocator.next_beyond (bounded : allocator.Bounded) {id : ChangeId}
    (given : allocator.next timestamp = .ok (id, allocator')) :
    allocator'.Bounded ∧ allocator.ceiling ≤ id.value ∧ allocator'.ceiling = id.value + 1 := by
  obtain ⟨-, given⟩ := guard_eq_ok.mp given
  obtain ⟨-, given⟩ := guard_eq_ok.mp given
  obtain ⟨⟨nextMs, nextRandom⟩, advanced, given⟩ := bind_eq_ok.mp given
  obtain ⟨random, beyond⟩ := advance_beyond bounded advanced
  obtain ⟨inRange, given⟩ := guard_eq_ok.mp given
  cases given
  unfold maximumUlidTimestamp at inRange
  have timestamp : nextMs < 2 ^ 48 := by omega
  have value : (ChangeId.fromParts nextMs nextRandom).value =
      nextMs * 2 ^ 80 + nextRandom := Ulid.fromParts_eq (Nat.le_of_not_lt inRange) random
  refine ⟨⟨timestamp, random⟩, ?_, ?_⟩
  · rw [value]
    exact beyond
  · rw [value]
    rfl

/-- Changes for some tuples, with growing identifiers between two numbers. -/
structure Allocated (storeId : StoreId) (operation : ChangeOperation) (timestamp : SystemTime)
    (tuples : List RelationshipTuple) (low high : Nat) (changes : List TupleChange) : Prop where
  entries : changes.map TupleChange.tuple = tuples
  labelled : ∀ change ∈ changes, change.storeId = storeId ∧ change.operation = operation ∧
    change.timestamp = timestamp
  sorted : changes.Pairwise fun first second => first.id < second.id
  between : ∀ change ∈ changes, low ≤ change.id.value ∧ change.id.value < high
  ordered : low ≤ high

theorem allocateChanges_allocated {operation : ChangeOperation} (bounded : allocator.Bounded)
    (given : allocateChanges storeId operation timestamp tuples allocator =
      .ok (changes, allocator')) : allocator'.Bounded ∧
      Allocated storeId operation timestamp tuples allocator.ceiling allocator'.ceiling
        changes := by
  induction tuples generalizing allocator changes with
  | nil =>
    cases given
    exact ⟨bounded, rfl, by simp, .nil, by simp, le_rfl⟩
  | cons tuple tuples ih =>
    obtain ⟨⟨id, mid⟩, first, given⟩ := bind_eq_ok.mp given
    obtain ⟨⟨rest, final⟩, others, given⟩ := bind_eq_ok.mp given
    cases given
    obtain ⟨bounded, low, high⟩ := ChangeIdAllocator.next_beyond bounded first
    obtain ⟨bounded, allocated⟩ := ih bounded others
    have ordered := allocated.ordered
    refine ⟨bounded, ?_, ?_, ?_, ?_, ?_⟩
    · rw [map_cons, allocated.entries]
    · exact forall_mem_cons.mpr ⟨⟨rfl, rfl, rfl⟩, allocated.labelled⟩
    · refine pairwise_cons.mpr ⟨fun change member => ?_, allocated.sorted⟩
      have beyond := (allocated.between change member).1
      show id.value < change.id.value
      omega
    · refine forall_mem_cons.mpr ⟨⟨low, by simp only; omega⟩, fun change member => ?_⟩
      have between := allocated.between change member
      omega
    · omega

/-- What a mutation that is not refused may rely on. -/
structure Validated (s : MemoryState) (mutation : TupleMutation) : Prop where
  distinct : (mutation.writes.map RelationshipTuple.key).Nodup
  disjoint : ∀ tuple ∈ mutation.writes, tuple.key ∉ mutation.deletes
  present : mutation.options.onMissingDelete = .error → ∀ key ∈ mutation.deletes,
    recordKey mutation.storeId key ∈ s.tuples
  absent : mutation.options.onDuplicateWrite = .error → ∀ tuple ∈ mutation.writes,
    recordKey mutation.storeId tuple.key ∉ s.tuples
  agree : ∀ tuple ∈ mutation.writes, ∀ stored : StoredTuple,
    s.tuples[recordKey mutation.storeId tuple.key]? = some stored → stored.tuple = tuple

/-- The requested tuples, by their keys. -/
def requested (mutation : TupleMutation) : ExtTreeMap TupleKey RelationshipTuple :=
  ExtTreeMap.ofList (mutation.writes.map fun tuple => (tuple.key, tuple))

/-- The held tuples that a mutation deletes. -/
def effectiveDeletes (s : MemoryState) (mutation : TupleMutation) : List RelationshipTuple :=
  tuplesAt s mutation.storeId (ExtTreeSet.ofList mutation.deletes).toList

/-- The tuples that a mutation writes and that were not held. -/
def effectiveWrites (s : MemoryState) (mutation : TupleMutation) : List RelationshipTuple :=
  ((requested mutation).toList.filter
    fun entry => !s.tuples.contains (recordKey mutation.storeId entry.1)).map Prod.snd

theorem toList_requested_perm (distinct : (mutation.writes.map RelationshipTuple.key).Nodup) :
    (requested mutation).toList.Perm (mutation.writes.map fun tuple => (tuple.key, tuple)) := by
  apply toList_ofList_perm
  rw [map_map]
  exact distinct

theorem mem_requested (distinct : (mutation.writes.map RelationshipTuple.key).Nodup)
    (member : tuple ∈ mutation.writes) : (requested mutation)[tuple.key]? = some tuple := by
  have listed : (tuple.key, tuple) ∈ (requested mutation).toList :=
    (toList_requested_perm distinct).mem_iff.mpr (mem_map_of_mem member)
  exact mem_toList.mp listed

theorem effectiveDeletes_eq (indexed : Indexed s) : effectiveDeletes s mutation =
    (tuplesOf s mutation.storeId).filter fun tuple => tuple.key ∈ mutation.deletes := by
  have every : (effectiveDeletes s mutation).filter (fun _ => true) =
      (tuplesOf s mutation.storeId).filter fun tuple => tuple.key ∈ mutation.deletes := by
    apply filter_tuplesAt_eq indexed fun key _ => mem_set_ofList
    simp
  rw [← every, filter_eq_self.mpr fun _ _ => rfl]

theorem effectiveWrites_perm (distinct : (mutation.writes.map RelationshipTuple.key).Nodup) :
    (effectiveWrites s mutation).Perm (mutation.writes.filter
      fun tuple => !s.tuples.contains (recordKey mutation.storeId tuple.key)) := by
  have tuples := ((toList_requested_perm distinct).filter
    fun entry => !s.tuples.contains (recordKey mutation.storeId entry.1)).map Prod.snd
  rw [filter_map, map_map] at tuples
  simpa [effectiveWrites, comp_def] using tuples

theorem effectiveWrites_sorted (distinct : (mutation.writes.map RelationshipTuple.key).Nodup) :
    (effectiveWrites s mutation).Pairwise fun first second => first.key < second.key := by
  have keyed : ∀ entry ∈ (requested mutation).toList, entry.2.key = entry.1 := by
    intro entry member
    obtain ⟨tuple, -, rfl⟩ := mem_map.mp ((toList_requested_perm distinct).mem_iff.mp member)
    rfl
  rw [effectiveWrites, pairwise_map]
  refine List.Pairwise.imp_of_mem ?_ ((toList_sorted _).filter _)
  intro first second member member' less
  rw [keyed first (mem_of_mem_filter member), keyed second (mem_of_mem_filter member')]
  exact less

theorem validatePersistedConflicts_ok {writes : List TupleKey} {options : TupleWriteOptions}
    (passed : validatePersistedConflicts s storeId deletes writes wanted options = .ok ()) :
    (options.onMissingDelete = .error → ∀ key ∈ deletes, recordKey storeId key ∈ s.tuples) ∧
      (options.onDuplicateWrite = .error → ∀ key ∈ writes, recordKey storeId key ∉ s.tuples) ∧
      (options.onDuplicateWrite = .ignore → ∀ key ∈ writes, ∀ stored : StoredTuple,
        s.tuples[recordKey storeId key]? = some stored → ∀ tuple : RelationshipTuple,
          wanted[key]? = some tuple → stored.tuple = tuple) := by
  unfold validatePersistedConflicts at passed
  simp only at passed
  have noneMissing (strict : options.onMissingDelete = .error) :
      deletes.find? (fun key => !s.tuples.contains (recordKey storeId key)) = none := by
    rw [strict] at passed
    split at passed
    · cases passed
    · assumption
    · contradiction
  split at passed
  · cases passed
  all_goals
    split at passed
    · cases passed
    · cases passed
    · rename_i noneHeld noneDiffering
      refine ⟨fun strict key member => ?_, fun strict key member held => ?_,
        fun lenient key member stored found tuple asked => ?_⟩
      · simpa using find?_eq_none.mp (noneMissing strict) key member
      · have none := Option.eq_none_iff_forall_ne_some.mpr fun first earliest =>
          noneHeld first strict earliest
        exact absurd held (by simpa using find?_eq_none.mp none key member)
      · have none := Option.eq_none_iff_forall_ne_some.mpr fun first earliest =>
          noneDiffering first lenient earliest
        simpa [found, asked] using find?_eq_none.mp none key member

theorem uniqueWriteTuples_ok {writes : List RelationshipTuple}
    (unique : uniqueWriteTuples writes = .ok wanted) :
    wanted = ExtTreeMap.ofList (writes.map fun tuple => (tuple.key, tuple)) ∧
      (writes.map RelationshipTuple.key).Nodup := by
  obtain ⟨size, unique⟩ := guard_eq_ok.mp unique
  cases unique
  have distinct := nodup_of_size_ofList (by rw [length_map]; exact not_not.mp size)
  rw [map_map] at distinct
  exact ⟨rfl, distinct⟩

theorem uniqueDeleteKeys_ok {keys : ExtTreeSet TupleKey}
    (unique : uniqueDeleteKeys deletes = .ok keys) : keys = ExtTreeSet.ofList deletes := by
  obtain ⟨-, unique⟩ := guard_eq_ok.mp unique
  cases unique
  rfl

/-- What a mutation has prepared when it goes on to change the maps. -/
structure Ready (s : MemoryState) (mutation : TupleMutation) (prepared : PreparedMutation) :
    Prop where
  deletes : prepared.deletes = effectiveDeletes s mutation
  writes : prepared.writes = effectiveWrites s mutation
  changes : ∃ deleted written mid,
    allocateChanges mutation.storeId .delete prepared.timestamp (effectiveDeletes s mutation)
        s.changeIds = .ok (deleted, mid) ∧
      allocateChanges mutation.storeId .write prepared.timestamp (effectiveWrites s mutation)
        mid = .ok (written, prepared.allocator) ∧
      prepared.changes = deleted ++ written

theorem prepareMutation_ok {around : Surroundings} {plan : Option PreparedMutation}
    (passed : prepareMutation s around mutation = .ok plan) :
    Validated s mutation ∧
      match plan with
      | none => effectiveDeletes s mutation = [] ∧ effectiveWrites s mutation = []
      | some prepared => Ready s mutation prepared := by
  obtain ⟨-, passed⟩ := guard_eq_ok.mp passed
  obtain ⟨deleteKeys, uniqueDeletes, passed⟩ := bind_eq_ok.mp passed
  obtain ⟨wanted, uniqueWrites, passed⟩ := bind_eq_ok.mp passed
  cases uniqueDeleteKeys_ok uniqueDeletes
  obtain ⟨rfl, distinct⟩ := uniqueWriteTuples_ok uniqueWrites
  obtain ⟨disjoint, passed⟩ := guard_eq_ok.mp passed
  obtain ⟨-, -, passed⟩ := bind_eq_ok.mp passed
  obtain ⟨-, -, passed⟩ := bind_eq_ok.mp passed
  obtain ⟨_, persisted, passed⟩ := bind_eq_ok.mp passed
  obtain ⟨-, -, passed⟩ := bind_eq_ok.mp passed
  obtain ⟨-, -, passed⟩ := bind_eq_ok.mp passed
  obtain ⟨-, -, passed⟩ := bind_eq_ok.mp passed
  obtain ⟨-, -, passed⟩ := bind_eq_ok.mp passed
  obtain ⟨present, absent, agree⟩ := validatePersistedConflicts_ok persisted
  have validated : Validated s mutation := by
    refine ⟨distinct, fun tuple member deleted => disjoint ?_, present, ?_, ?_⟩
    · rw [any_eq_true]
      refine ⟨tuple.key, ExtTreeSet.mem_toList.mpr (mem_set_ofList.mpr deleted), ?_⟩
      exact ExtTreeMap.contains_iff_mem.mpr
        (mem_ofList_keys.mpr (by simpa using ⟨tuple, member, rfl⟩))
    · intro strict tuple member
      exact absent strict tuple.key (mem_map_of_mem member)
    · intro tuple member stored found
      cases policy : mutation.options.onDuplicateWrite with
      | error =>
        have missing := absent policy tuple.key (mem_map_of_mem member)
        exact absurd (ExtTreeMap.isSome_getElem?_iff_mem.mp (Option.isSome_of_mem found)) missing
      | ignore =>
        exact agree policy tuple.key (mem_map_of_mem member) stored found tuple
          (mem_requested distinct member)
  refine ⟨validated, ?_⟩
  split at passed
  · rename_i nothing
    cases passed
    rw [Bool.and_eq_true, List.isEmpty_iff, List.isEmpty_iff] at nothing
    exact nothing
  · obtain ⟨timestamp, -, passed⟩ := bind_eq_ok.mp passed
    obtain ⟨⟨deleted, mid⟩, first, passed⟩ := bind_eq_ok.mp passed
    obtain ⟨⟨written, allocator⟩, second, passed⟩ := bind_eq_ok.mp passed
    obtain ⟨-, -, passed⟩ := bind_eq_ok.mp passed
    obtain ⟨-, -, passed⟩ := bind_eq_ok.mp passed
    cases passed
    exact ⟨rfl, rfl, deleted, written, mid, first, second, rfl⟩

section Commit

variable {storeId : StoreId}

/-- Two states that differ in their tuples and indexes at most. -/
structure OnlyTuples (s t : MemoryState) : Prop where
  stores : t.stores = s.stores
  models : t.models = s.models
  modelIds : t.modelIds = s.modelIds
  assertions : t.assertions = s.assertions
  changes : t.changes = s.changes

theorem removeTuples_only (s : MemoryState) (storeId : StoreId)
    (tuples : List RelationshipTuple) : OnlyTuples s (removeTuples s storeId tuples) :=
  foldlRecOn _ _ ⟨rfl, rfl, rfl, rfl, rfl⟩ fun _ only _ _ =>
    ⟨only.stores, only.models, only.modelIds, only.assertions, only.changes⟩

theorem insertTuples_only (s : MemoryState) (storeId : StoreId) (timestamp : SystemTime)
    (tuples : List RelationshipTuple) : OnlyTuples s (insertTuples s storeId timestamp tuples) :=
  foldlRecOn _ _ ⟨rfl, rfl, rfl, rfl, rfl⟩ fun _ only _ _ =>
    ⟨only.stores, only.models, only.modelIds, only.assertions, only.changes⟩

theorem getElem?_removeTuple : (removeTuple s storeId key).tuples[record]? =
      if recordKey storeId key = record then none else s.tuples[record]? := by
  by_cases here : recordKey storeId key = record
  · rw [if_pos here, ← here]
    exact ExtTreeMap.getElem?_erase_self
  · rw [if_neg here]
    exact getElem?_erase_of_ne here

theorem getElem?_insertTuple {stored : StoredTuple} :
    (insertTuple s storeId stored).tuples[record]? =
      if recordKey storeId stored.tuple.key = record then some stored else s.tuples[record]? := by
  by_cases here : recordKey storeId stored.tuple.key = record
  · rw [if_pos here, ← here]
    exact ExtTreeMap.getElem?_insert_self
  · rw [if_neg here]
    exact getElem?_insert_of_ne here

theorem getElem?_removeTuples : (removeTuples s storeId tuples).tuples[record]? =
      if record ∈ tuples.map (fun tuple => recordKey storeId tuple.key) then none
      else s.tuples[record]? := by
  induction tuples generalizing s with
  | nil => rfl
  | cons tuple tuples ih =>
    rw [removeTuples, foldl_cons, ← removeTuples, ih, getElem?_removeTuple, map_cons]
    by_cases later : record ∈ tuples.map fun tuple => recordKey storeId tuple.key
    · rw [if_pos later, if_pos (mem_cons_of_mem _ later)]
    · rw [if_neg later]
      simp only [mem_cons, later, or_false, eq_comm]

theorem getElem?_insertTuples_of_not_mem
    (kept : record ∉ tuples.map fun tuple => recordKey storeId tuple.key) :
    (insertTuples s storeId timestamp tuples).tuples[record]? = s.tuples[record]? := by
  induction tuples generalizing s with
  | nil => rfl
  | cons tuple tuples ih =>
    rw [map_cons, mem_cons, not_or] at kept
    rw [insertTuples, foldl_cons, ← insertTuples, ih kept.2, getElem?_insertTuple,
      if_neg (Ne.symm kept.1)]

theorem getElem?_insertTuples_of_mem (distinct : (tuples.map RelationshipTuple.key).Nodup)
    (member : tuple ∈ tuples) :
    (insertTuples s storeId timestamp tuples).tuples[recordKey storeId tuple.key]? =
      some ⟨tuple, timestamp⟩ := by
  induction tuples generalizing s with
  | nil => cases member
  | cons first tuples ih =>
    rw [map_cons, nodup_cons] at distinct
    rw [insertTuples, foldl_cons, ← insertTuples]
    rcases mem_cons.mp member with rfl | later
    · rw [getElem?_insertTuples_of_not_mem, getElem?_insertTuple, if_pos rfl]
      intro again
      obtain ⟨other, listed, same⟩ := mem_map.mp again
      have keys : other.key = tuple.key := (Prod.mk.inj (toLex.injective same)).2
      exact distinct.1 (keys ▸ mem_map_of_mem listed)
    · exact ih distinct.2 later

end Commit

section Changelog

variable {storeId : StoreId}

/-- The changes of a store, in the order of their identifiers. -/
def changesOf (s : MemoryState) (storeId : StoreId) : List TupleChange :=
  (ofStore storeId s.changes.toList).map Prod.snd

section Insert

variable {κ β : Type} [LinearOrder κ] {map : ExtTreeMap (StoreId ×ₗ κ) β} {key : κ} {value : β}

/-- An entry beyond all others of its store comes last. -/
theorem ofStore_insert_last (last : ∀ entry ∈ ofStore storeId map.toList, entry.1 < key) :
    ofStore storeId (map.insert (toLex (storeId, key)) value).toList =
      ofStore storeId map.toList ++ [(key, value)] := by
  apply eq_of_sorted (ofStore_sorted (toList_sorted _))
  · rw [pairwise_append]
    refine ⟨ofStore_sorted (toList_sorted map), pairwise_singleton _ _,
      fun entry member other final => ?_⟩
    cases mem_singleton.mp final
    exact last entry member
  · intro entry
    rw [mem_ofStore, mem_toList, mem_append, mem_singleton]
    by_cases here : key = entry.1
    · have absent : entry ∉ ofStore storeId map.toList :=
        fun member => (last entry member).ne here.symm
      simp only [here, ExtTreeMap.getElem?_insert_self, Option.some.injEq, absent, false_or]
      constructor
      · rintro rfl
        rfl
      · intro same
        rw [same]
    · have elsewhere : toLex (storeId, key) ≠ toLex (storeId, entry.1) :=
        fun same => here (Prod.mk.inj (toLex.injective same)).2
      rw [getElem?_insert_of_ne elsewhere, mem_ofStore, mem_toList]
      refine ⟨.inl, fun member => member.resolve_right fun same => here ?_⟩
      rw [same]

theorem ofStore_insert_other (different : other ≠ storeId) :
    ofStore other (map.insert (toLex (storeId, key)) value).toList = ofStore other map.toList := by
  apply eq_of_sorted (ofStore_sorted (toList_sorted _)) (ofStore_sorted (toList_sorted map))
  intro entry
  have elsewhere : toLex (storeId, key) ≠ toLex (other, entry.1) :=
    fun same => different (Prod.mk.inj (toLex.injective same)).1.symm
  rw [mem_ofStore, mem_toList, getElem?_insert_of_ne elsewhere, mem_ofStore, mem_toList]

end Insert

theorem ofStore_appendChanges (sorted : changes.Pairwise fun first second => first.id < second.id)
    (beyond : ∀ change ∈ changes, ∀ entry ∈ ofStore storeId s.changes.toList,
      entry.1 < change.id) : ofStore storeId (appendChanges s storeId changes).changes.toList =
      ofStore storeId s.changes.toList ++ changes.map fun change => (change.id, change) := by
  induction changes generalizing s with
  | nil => exact (append_nil _).symm
  | cons change changes ih =>
    obtain ⟨first, rest⟩ := forall_mem_cons.mp beyond
    obtain ⟨later, sorted⟩ := pairwise_cons.mp sorted
    have appended : ofStore storeId
        (s.changes.insert (changeKey storeId change.id) change).toList =
        ofStore storeId s.changes.toList ++ [(change.id, change)] :=
      ofStore_insert_last first
    rw [appendChanges, foldl_cons]
    refine (ih (s := { s with changes := s.changes.insert (changeKey storeId change.id) change })
      sorted ?_).trans ?_
    · intro other member entry listed
      rw [appended] at listed
      rcases mem_append.mp listed with old | new
      · exact rest other member entry old
      · cases mem_singleton.mp new
        exact later other member
    · rw [appended, append_assoc, map_cons, singleton_append]

theorem getElem?_appendChanges {key : StoreId ×ₗ ChangeId}
    (found : (appendChanges s storeId changes).changes[key]? = some change) :
    s.changes[key]? = some change ∨ change ∈ changes ∧ key = changeKey storeId change.id := by
  induction changes generalizing s with
  | nil => exact .inl found
  | cons first changes ih =>
    rcases ih (s := { s with changes := s.changes.insert (changeKey storeId first.id) first })
      found with old | ⟨member, here⟩
    · obtain ⟨rfl, rfl⟩ | older := of_getElem?_insert old
      · exact .inr ⟨mem_cons_self, rfl⟩
      · exact .inl older
    · exact .inr ⟨mem_cons_of_mem _ member, here⟩

theorem ofStore_appendChanges_other (different : other ≠ storeId) (changes : List TupleChange) :
    ofStore other (appendChanges s storeId changes).changes.toList =
      ofStore other s.changes.toList := by
  unfold appendChanges
  refine foldlRecOn (motive := fun map : ExtTreeMap (StoreId ×ₗ ChangeId) TupleChange =>
    ofStore other map.toList = ofStore other s.changes.toList) _ _ rfl ?_
  intro map same change _
  rw [← same]
  exact ofStore_insert_other different

end Changelog

section Replayed

variable {storeId other : StoreId} {tuples : TupleSet}

/-- The tuples that a store holds, by their keys. -/
def heldTuples (s : MemoryState) (storeId : StoreId) : TupleSet :=
  fun key => s.tuples[recordKey storeId key]?.map StoredTuple.tuple

theorem recordKey_ne (different : other ≠ storeId) (key key' : TupleKey) :
    recordKey storeId key ≠ recordKey other key' :=
  fun same => different (Prod.mk.inj (toLex.injective same)).1.symm

theorem recordKey_eq_iff {key' : TupleKey} :
    recordKey storeId key = recordKey storeId key' ↔ key = key' :=
  ⟨fun same => (Prod.mk.inj (toLex.injective same)).2, congrArg _⟩

theorem heldTuples_removeTuple (key : TupleKey) :
    heldTuples (removeTuple s storeId key) storeId =
      update (heldTuples s storeId) key none := by
  funext key'
  by_cases here : key = key'
  · subst here
    rw [heldTuples, getElem?_removeTuple, if_pos rfl, update_self]
    rfl
  · rw [heldTuples, getElem?_removeTuple, if_neg (fun same => here (recordKey_eq_iff.mp same)),
      update_of_ne (Ne.symm here)]
    rfl

theorem heldTuples_insertTuple (stored : StoredTuple) :
    heldTuples (insertTuple s storeId stored) storeId =
      update (heldTuples s storeId) stored.tuple.key (some stored.tuple) := by
  funext key'
  by_cases here : stored.tuple.key = key'
  · subst here
    rw [heldTuples, getElem?_insertTuple, if_pos rfl, update_self]
    rfl
  · rw [heldTuples, getElem?_insertTuple, if_neg (fun same => here (recordKey_eq_iff.mp same)),
      update_of_ne (Ne.symm here)]
    rfl

/-- Deleting tuples does to the held tuples what replaying their changes does. -/
theorem heldTuples_removeTuples (deletes : ∀ change ∈ changes, change.operation = .delete) :
    heldTuples (removeTuples s storeId (changes.map TupleChange.tuple)) storeId =
      replayFrom (heldTuples s storeId) changes := by
  induction changes generalizing s with
  | nil => rfl
  | cons change changes ih =>
    obtain ⟨first, rest⟩ := forall_mem_cons.mp deletes
    have result : change.result = none := by rw [TupleChange.result, first]
    rw [map_cons, removeTuples, foldl_cons, ← removeTuples, ih rest,
      heldTuples_removeTuple, replayFrom, replayFrom, foldl_cons, TupleChange.applyTo, result]

theorem heldTuples_insertTuples (writes : ∀ change ∈ changes, change.operation = .write) :
    heldTuples (insertTuples s storeId timestamp (changes.map TupleChange.tuple)) storeId =
      replayFrom (heldTuples s storeId) changes := by
  induction changes generalizing s with
  | nil => rfl
  | cons change changes ih =>
    obtain ⟨first, rest⟩ := forall_mem_cons.mp writes
    have result : change.result = some change.tuple := by rw [TupleChange.result, first]
    rw [map_cons, insertTuples, foldl_cons, ← insertTuples, ih rest,
      heldTuples_insertTuple, replayFrom, replayFrom, foldl_cons, TupleChange.applyTo, result]

theorem heldTuples_removeTuples_other (different : other ≠ storeId)
    (removed : List RelationshipTuple) :
    heldTuples (removeTuples s storeId removed) other = heldTuples s other := by
  funext key
  rw [heldTuples, getElem?_removeTuples, if_neg]
  · rfl
  · intro member
    obtain ⟨tuple, -, same⟩ := mem_map.mp member
    exact recordKey_ne different _ _ same

theorem heldTuples_insertTuples_other (different : other ≠ storeId) (timestamp : SystemTime)
    (inserted : List RelationshipTuple) :
    heldTuples (insertTuples s storeId timestamp inserted) other = heldTuples s other := by
  funext key
  rw [heldTuples, getElem?_insertTuples_of_not_mem]
  · rfl
  · intro member
    obtain ⟨tuple, -, same⟩ := mem_map.mp member
    exact recordKey_ne different _ _ same

end Replayed

/-- The changelog is the history of the tuples: every change is held under its own
identifier, below those that are still to come, and replaying the changes of a store gives
the tuples it holds. -/
structure Logged (s : MemoryState) : Prop where
  bounded : s.changeIds.Bounded
  keyed : ∀ (key : StoreId ×ₗ ChangeId) (change : TupleChange),
    s.changes[key]? = some change → key = changeKey change.storeId change.id
  below : ∀ key : StoreId ×ₗ ChangeId, key ∈ s.changes →
    (ofLex key).2.value < s.changeIds.ceiling
  replayed : ∀ storeId, replay (changesOf s storeId) = heldTuples s storeId

section Committed

variable {prepared : PreparedMutation}

/-- The changes that a mutation has prepared: the deletes and then the writes, with
identifiers that grow from the last one on. -/
structure Prepared (s : MemoryState) (mutation : TupleMutation) (prepared : PreparedMutation)
    (deleted written : List TupleChange) : Prop where
  bounded : prepared.allocator.Bounded
  changes : prepared.changes = deleted ++ written
  deletes : ∃ mid, Allocated mutation.storeId .delete prepared.timestamp
    (effectiveDeletes s mutation) s.changeIds.ceiling mid deleted ∧
      Allocated mutation.storeId .write prepared.timestamp (effectiveWrites s mutation) mid
        prepared.allocator.ceiling written

theorem Ready.plan (ready : Ready s mutation prepared) (bounded : s.changeIds.Bounded) :
    ∃ deleted written, Prepared s mutation prepared deleted written := by
  obtain ⟨deleted, written, mid, first, second, changes⟩ := ready.changes
  obtain ⟨bounded, deletes⟩ := allocateChanges_allocated bounded first
  obtain ⟨bounded, writes⟩ := allocateChanges_allocated bounded second
  exact ⟨deleted, written, bounded, changes, mid.ceiling, deletes, writes⟩

namespace Prepared

variable {deleted written : List TupleChange} (plan : Prepared s mutation prepared deleted written)

include plan

omit plan in
/-- The tuples are changed before the log is. -/
theorem changes_kept : (insertTuples (removeTuples s mutation.storeId prepared.deletes)
    mutation.storeId prepared.timestamp prepared.writes).changes = s.changes :=
  (insertTuples_only _ _ _ _).changes.trans (removeTuples_only _ _ _).changes

theorem sorted : (deleted ++ written).Pairwise fun first second => first.id < second.id := by
  obtain ⟨mid, deletes, writes⟩ := plan.deletes
  rw [pairwise_append]
  refine ⟨deletes.sorted, writes.sorted, fun first member second member' => ?_⟩
  have low := (deletes.between first member).2
  have high := (writes.between second member').1
  show first.id.value < second.id.value
  omega

theorem labelled : ∀ change ∈ deleted ++ written,
    change.storeId = mutation.storeId ∧ s.changeIds.ceiling ≤ change.id.value ∧
      change.id.value < prepared.allocator.ceiling := by
  obtain ⟨mid, deletes, writes⟩ := plan.deletes
  have low := deletes.ordered
  have high := writes.ordered
  intro change member
  rcases mem_append.mp member with member | member
  · have between := deletes.between change member
    exact ⟨(deletes.labelled change member).1, by omega, by omega⟩
  · have between := writes.between change member
    exact ⟨(writes.labelled change member).1, by omega, by omega⟩

theorem ceiling_le : s.changeIds.ceiling ≤ prepared.allocator.ceiling := by
  obtain ⟨mid, deletes, writes⟩ := plan.deletes
  exact deletes.ordered.trans writes.ordered

theorem changesOf_commit (logged : Logged s) :
    changesOf (commitMutation s mutation.storeId prepared) mutation.storeId =
      changesOf s mutation.storeId ++ (deleted ++ written) := by
  set t := insertTuples (removeTuples s mutation.storeId prepared.deletes) mutation.storeId
    prepared.timestamp prepared.writes with committed
  have kept : t.changes = s.changes := changes_kept
  have appended : ofStore mutation.storeId
      (appendChanges t mutation.storeId (deleted ++ written)).changes.toList =
      ofStore mutation.storeId t.changes.toList ++
        (deleted ++ written).map fun change => (change.id, change) := by
    apply ofStore_appendChanges plan.sorted
    intro change member entry listed
    rw [kept, mem_ofStore, mem_toList] at listed
    have below := logged.below _
      (ExtTreeMap.isSome_getElem?_iff_mem.mp (Option.isSome_of_mem listed))
    have beyond := (plan.labelled change member).2.1
    exact Nat.lt_of_lt_of_le below beyond
  rw [kept, ← plan.changes] at appended
  rw [changesOf, changesOf, commitMutation, ← plan.changes]
  simp only
  rw [← committed, appended, map_append, map_map]
  congr 1
  exact map_id _

omit plan in
theorem changesOf_commit_other {other : StoreId} (different : other ≠ mutation.storeId) :
    changesOf (commitMutation s mutation.storeId prepared) other = changesOf s other := by
  have appended := ofStore_appendChanges_other (s := insertTuples
    (removeTuples s mutation.storeId prepared.deletes) mutation.storeId prepared.timestamp
      prepared.writes) different prepared.changes
  rw [changes_kept] at appended
  exact congrArg (map Prod.snd) appended

theorem heldTuples_commit (ready : Ready s mutation prepared) :
    heldTuples (commitMutation s mutation.storeId prepared) mutation.storeId =
      replayFrom (heldTuples s mutation.storeId) (deleted ++ written) := by
  obtain ⟨mid, deletes, writes⟩ := plan.deletes
  have first : prepared.deletes = deleted.map TupleChange.tuple :=
    ready.deletes.trans deletes.entries.symm
  have second : prepared.writes = written.map TupleChange.tuple :=
    ready.writes.trans writes.entries.symm
  show heldTuples (insertTuples (removeTuples s mutation.storeId prepared.deletes)
    mutation.storeId prepared.timestamp prepared.writes) mutation.storeId = _
  rw [first, second, heldTuples_insertTuples fun change member =>
    (writes.labelled change member).2.1,
    heldTuples_removeTuples fun change member => (deletes.labelled change member).2.1,
    replayFrom_append]

omit plan in
theorem heldTuples_commit_other {other : StoreId} (different : other ≠ mutation.storeId) :
    heldTuples (commitMutation s mutation.storeId prepared) other = heldTuples s other :=
  (heldTuples_insertTuples_other different _ _).trans (heldTuples_removeTuples_other different _)

/-- A change in the log is one that was there or one that has been prepared. -/
theorem getElem?_commit_changes {key : StoreId ×ₗ ChangeId}
    (found : (commitMutation s mutation.storeId prepared).changes[key]? = some change) :
    s.changes[key]? = some change ∨
      change ∈ deleted ++ written ∧ key = changeKey mutation.storeId change.id := by
  rw [← plan.changes, ← changes_kept]
  exact getElem?_appendChanges found

end Prepared

theorem Logged.commit (logged : Logged s) (ready : Ready s mutation prepared) :
    Logged (commitMutation s mutation.storeId prepared) := by
  obtain ⟨deleted, written, plan⟩ := ready.plan logged.bounded
  refine ⟨plan.bounded, ?_, ?_, ?_⟩
  · intro key change found
    rcases plan.getElem?_commit_changes found with old | ⟨member, here⟩
    · exact logged.keyed key change old
    · rw [here, (plan.labelled change member).1]
  · intro key member
    obtain ⟨change, found⟩ := Option.isSome_iff_exists.mp
      (ExtTreeMap.isSome_getElem?_iff_mem.mpr member)
    rcases plan.getElem?_commit_changes found with old | ⟨member, here⟩
    · have below := logged.below key
        (ExtTreeMap.isSome_getElem?_iff_mem.mp (Option.isSome_of_mem old))
      exact below.trans_le plan.ceiling_le
    · rw [here]
      exact (plan.labelled change member).2.2
  · intro storeId
    by_cases here : storeId = mutation.storeId
    · subst here
      rw [plan.changesOf_commit logged, replay_append, logged.replayed,
      plan.heldTuples_commit ready]
    · rw [Prepared.changesOf_commit_other here, logged.replayed,
        Prepared.heldTuples_commit_other here]

end Committed

theorem Logged.new (limits : InputLimits) : Logged (.new limits) where
  bounded := ⟨Nat.two_pow_pos 48, Nat.two_pow_pos 80⟩
  keyed := by
    intro key change found
    rw [MemoryState.new, ExtTreeMap.getElem?_empty] at found
    cases found
  below := fun key member => absurd member ExtTreeMap.not_mem_empty
  replayed := by
    intro storeId
    funext key
    rfl

theorem Logged.moved (moved : Moved s t) (logged : Logged s) : Logged t := by
  cases moved with
  | mutated passed => exact logged.commit (prepareMutation_ok passed).2
  | _ => exact ⟨logged.bounded, logged.keyed, logged.below, logged.replayed⟩

theorem Reachable.logged {limits : InputLimits} (reached : Reachable limits s) : Logged s :=
  reached.invariant Logged (.new limits) fun _ _ => Logged.moved

theorem identified_changes (logged : Logged s) :
    ∀ entry ∈ ofStore storeId s.changes.toList, entry.2.id = entry.1 := by
  intro entry member
  have here := logged.keyed _ _ (mem_toList.mp (mem_ofStore.mp member))
  exact (Prod.mk.inj (toLex.injective here)).2.symm

theorem changesOf_sorted (logged : Logged s) (storeId : StoreId) :
    (changesOf s storeId).Pairwise fun first second => first.id < second.id := by
  rw [changesOf, pairwise_map]
  refine (ofStore_sorted (toList_sorted s.changes)).imp_of_mem ?_
  intro first second member member' less
  rw [identified_changes logged first member, identified_changes logged second member']
  exact less

section Atomic

/-- The changelog has grown by one change for each tuple that was deleted and then one for
each that was written, in the order of the keys. -/
structure LogGrown (s : MemoryState) (mutation : TupleMutation) (outcome : MutationOutcome)
    (t : MemoryState) (deletes writes : List TupleChange) : Prop where
  appended : changesOf t mutation.storeId = changesOf s mutation.storeId ++ (deletes ++ writes)
  reported : outcome.changeIds = (deletes ++ writes).map TupleChange.id
  deleting : ∀ change ∈ deletes, change.operation = .delete
  writing : ∀ change ∈ writes, change.operation = .write
  deleted : deletes.map TupleChange.tuple =
    (tuplesOf s mutation.storeId).filter fun tuple => tuple.key ∈ mutation.deletes
  written : (writes.map TupleChange.tuple).Perm (mutation.writes.filter
    fun tuple => !s.tuples.contains (recordKey mutation.storeId tuple.key))
  ordered : (writes.map TupleChange.tuple).Pairwise fun first second => first.key < second.key
  others : ∀ storeId, storeId ≠ mutation.storeId → changesOf t storeId = changesOf s storeId

/-- A mutation has taken effect as a whole. A delete of a tuple that was not held is ignored,
and so is a write of one that was, if the policies allow these at all. -/
structure Applied (s : MemoryState) (mutation : TupleMutation) (outcome : MutationOutcome)
    (t : MemoryState) : Prop where
  present : mutation.options.onMissingDelete = .error → ∀ key ∈ mutation.deletes,
    recordKey mutation.storeId key ∈ s.tuples
  absent : mutation.options.onDuplicateWrite = .error → ∀ tuple ∈ mutation.writes,
    recordKey mutation.storeId tuple.key ∉ s.tuples
  deleted : ∀ key ∈ mutation.deletes, t.tuples[recordKey mutation.storeId key]? = none
  written : ∀ tuple ∈ mutation.writes,
    t.tuples[recordKey mutation.storeId tuple.key]?.map StoredTuple.tuple = some tuple
  ignored : ∀ tuple ∈ mutation.writes, recordKey mutation.storeId tuple.key ∈ s.tuples →
    t.tuples[recordKey mutation.storeId tuple.key]? =
      s.tuples[recordKey mutation.storeId tuple.key]?
  kept : ∀ record : RecordKey,
    (∀ key ∈ mutation.deletes, recordKey mutation.storeId key ≠ record) →
    (∀ tuple ∈ mutation.writes, recordKey mutation.storeId tuple.key ≠ record) →
    t.tuples[record]? = s.tuples[record]?
  indexed : Indexed t
  changes : ∃ deletes writes, LogGrown s mutation outcome t deletes writes

theorem mem_effectiveWrites (validated : Validated s mutation) :
    tuple ∈ effectiveWrites s mutation ↔
      tuple ∈ mutation.writes ∧ recordKey mutation.storeId tuple.key ∉ s.tuples := by
  rw [(effectiveWrites_perm validated.distinct).mem_iff, mem_filter, Bool.not_eq_true',
    ← Bool.not_eq_true, ExtTreeMap.contains_iff_mem]

theorem effectiveWrites_distinct (validated : Validated s mutation) :
    ((effectiveWrites s mutation).map RelationshipTuple.key).Nodup := by
  rw [List.Nodup, pairwise_map]
  exact (effectiveWrites_sorted validated.distinct).imp fun less => less.ne

/-- The tuples once the effective deletes and writes have been made. -/
def effected (s : MemoryState) (mutation : TupleMutation) (timestamp : SystemTime) : MemoryState :=
  insertTuples (removeTuples s mutation.storeId (effectiveDeletes s mutation)) mutation.storeId
    timestamp (effectiveWrites s mutation)

theorem effected_of_not_written (validated : Validated s mutation)
    (unwritten : ∀ tuple ∈ mutation.writes, recordKey mutation.storeId tuple.key = record →
      record ∈ s.tuples) : (effected s mutation timestamp).tuples[record]? =
      (removeTuples s mutation.storeId (effectiveDeletes s mutation)).tuples[record]? := by
  apply getElem?_insertTuples_of_not_mem
  intro member
  obtain ⟨tuple, listed, here⟩ := mem_map.mp member
  obtain ⟨written, missing⟩ := (mem_effectiveWrites validated).mp listed
  rw [here] at missing
  exact missing (unwritten tuple written here)

section

variable (indexed : Indexed s)

include indexed

section

variable (validated : Validated s mutation)

include validated

theorem effected_deleted (member : key ∈ mutation.deletes) :
    (effected s mutation timestamp).tuples[recordKey mutation.storeId key]? = none := by
  rw [effected_of_not_written validated, getElem?_removeTuples]
  · split
    · rfl
    · rename_i unremoved
      by_contra held
      obtain ⟨stored, found⟩ := Option.ne_none_iff_exists'.mp held
      apply unremoved
      refine mem_map.mpr ⟨stored.tuple, ?_, by rw [indexed.keyed _ stored found]; rfl⟩
      refine mem_filterMap.mpr ⟨key, ?_, by rw [found, Option.map_some]⟩
      exact ExtTreeSet.mem_toList.mpr (mem_set_ofList.mpr member)
  · intro tuple written same
    have disjoint := validated.disjoint tuple written
    rw [recordKey_eq_iff.mp same] at disjoint
    exact absurd member disjoint

theorem effected_ignored (written : tuple ∈ mutation.writes)
    (held : recordKey mutation.storeId tuple.key ∈ s.tuples) :
    (effected s mutation timestamp).tuples[recordKey mutation.storeId tuple.key]? =
      s.tuples[recordKey mutation.storeId tuple.key]? := by
  rw [effected_of_not_written validated fun _ _ _ => held, getElem?_removeTuples, if_neg]
  intro removed
  obtain ⟨other, listed, same⟩ := mem_map.mp removed
  rw [effectiveDeletes_eq indexed, mem_filter, decide_eq_true_iff,
    recordKey_eq_iff.mp same] at listed
  exact validated.disjoint tuple written listed.2

theorem effected_written (written : tuple ∈ mutation.writes) :
    (effected s mutation timestamp).tuples[recordKey mutation.storeId tuple.key]?.map
      StoredTuple.tuple = some tuple := by
  by_cases held : recordKey mutation.storeId tuple.key ∈ s.tuples
  · obtain ⟨stored, found⟩ := Option.isSome_iff_exists.mp
      (ExtTreeMap.isSome_getElem?_iff_mem.mpr held)
    rw [effected_ignored indexed validated written held, found, Option.map_some,
      validated.agree tuple written stored found]
  · rw [effected, getElem?_insertTuples_of_mem (effectiveWrites_distinct validated)
      ((mem_effectiveWrites validated).mpr ⟨written, held⟩), Option.map_some]

theorem effected_kept
    (undeleted : ∀ key ∈ mutation.deletes, recordKey mutation.storeId key ≠ record)
    (unwritten : ∀ tuple ∈ mutation.writes, recordKey mutation.storeId tuple.key ≠ record) :
    (effected s mutation timestamp).tuples[record]? = s.tuples[record]? := by
  rw [effected_of_not_written validated fun tuple written same =>
    absurd same (unwritten tuple written), getElem?_removeTuples, if_neg]
  intro removed
  obtain ⟨other, listed, same⟩ := mem_map.mp removed
  rw [effectiveDeletes_eq indexed, mem_filter, decide_eq_true_iff] at listed
  exact undeleted other.key listed.2 same

end

theorem applied_of_effected {outcome : MutationOutcome} (validated : Validated s mutation)
    (tuples : t.tuples = (effected s mutation timestamp).tuples) (indexed' : Indexed t)
    (grown : ∃ deletes writes, LogGrown s mutation outcome t deletes writes) :
    Applied s mutation outcome t where
  present := validated.present
  absent := validated.absent
  deleted := by
    intro key member
    rw [tuples]
    exact effected_deleted indexed validated member
  written := by
    intro tuple member
    rw [tuples]
    exact effected_written indexed validated member
  ignored := by
    intro tuple member held
    rw [tuples]
    exact effected_ignored indexed validated member held
  kept := by
    intro record undeleted unwritten
    rw [tuples]
    exact effected_kept indexed validated undeleted unwritten
  indexed := indexed'
  changes := grown

theorem applied_commit (logged : Logged s) (validated : Validated s mutation)
    {prepared : PreparedMutation} (ready : Ready s mutation prepared) :
    Applied s mutation ⟨prepared.changes.map TupleChange.id⟩
      (commitMutation s mutation.storeId prepared) := by
  obtain ⟨deleted, written, plan⟩ := ready.plan logged.bounded
  obtain ⟨mid, deletes, writes⟩ := plan.deletes
  have tuples : (commitMutation s mutation.storeId prepared).tuples =
      (effected s mutation prepared.timestamp).tuples := by
    rw [effected, ← ready.deletes, ← ready.writes]
    rfl
  refine applied_of_effected indexed validated tuples (indexed.commitMutation _ _)
    ⟨deleted, written, plan.changesOf_commit logged, ?_, ?_, ?_, ?_, ?_, ?_, ?_⟩
  · rw [plan.changes]
  · exact fun change member => (deletes.labelled change member).2.1
  · exact fun change member => (writes.labelled change member).2.1
  · rw [deletes.entries, effectiveDeletes_eq indexed]
  · rw [writes.entries]
    exact effectiveWrites_perm validated.distinct
  · rw [writes.entries]
    exact effectiveWrites_sorted validated.distinct
  · exact fun storeId different => Prepared.changesOf_commit_other different

/-- A mutation without an effect changes nothing and is not logged. -/
theorem applied_nothing (validated : Validated s mutation)
    (noDeletes : effectiveDeletes s mutation = []) (noWrites : effectiveWrites s mutation = []) :
    Applied s mutation ⟨[]⟩ s := by
  have tuples : s.tuples = (effected s mutation 0).tuples := by
    rw [effected, noDeletes, noWrites]
    rfl
  refine applied_of_effected indexed validated tuples indexed
    ⟨[], [], (append_nil _).symm, rfl, by simp, by simp, ?_, ?_, .nil, fun _ _ => rfl⟩
  · rw [← effectiveDeletes_eq indexed, noDeletes, map_nil]
  · rw [map_nil, ← noWrites]
    exact effectiveWrites_perm validated.distinct

/-- A mutation either fails and changes nothing, or takes effect as a whole. -/
theorem writeTuples_atomic (logged : Logged s) (around : Surroundings) (mutation : TupleMutation) :
    (∃ error, writeTuples s around mutation = (.error error, s)) ∨
      ∃ outcome t, writeTuples s around mutation = (.ok outcome, t) ∧
        Applied s mutation outcome t := by
  unfold writeTuples
  split
  · rename_i error _
    exact .inl ⟨error, rfl⟩
  · rename_i passed
    obtain ⟨validated, noDeletes, noWrites⟩ := prepareMutation_ok passed
    exact .inr ⟨_, _, rfl, applied_nothing indexed validated noDeletes noWrites⟩
  · rename_i prepared passed
    obtain ⟨validated, ready⟩ := prepareMutation_ok passed
    exact .inr ⟨_, _, rfl, applied_commit indexed logged validated ready⟩

end

end Atomic

/-- In every reachable state, whatever faults, cancellations and clock a mutation meets, it
fails and leaves the state as it was or takes effect as a whole; and replaying the changes of
a store gives the tuples it holds. -/
theorem mutations_atomic_and_replayed {limits : InputLimits} {s : MemoryState}
    (reached : Reachable limits s) :
    (∀ (around : Surroundings) (mutation : TupleMutation),
      (∃ error, writeTuples s around mutation = (.error error, s)) ∨
        ∃ outcome t, writeTuples s around mutation = (.ok outcome, t) ∧
          Applied s mutation outcome t) ∧
    ∀ storeId,
      ((changesOf s storeId).Pairwise fun first second => first.id < second.id) ∧
      replay (changesOf s storeId) = fun key =>
        s.tuples[recordKey storeId key]?.map StoredTuple.tuple := by
  have logged := reached.logged
  exact ⟨writeTuples_atomic reached.indexed logged,
    fun storeId => ⟨changesOf_sorted logged storeId, logged.replayed storeId⟩⟩

/-- Replaces one of the two documents by another. -/
def Sample.replaces : TupleMutation where
  storeId := store
  deletes := [(Sample.tuple "1").key]
  writes := [Sample.tuple "3"]
  options := ⟨.error, .error⟩
  canonical := by
    intro written member
    cases mem_singleton.mp member
    exact tuple_canonical (by decide) (by decide)

/-- Every stage fails. -/
def Sample.faulty : Surroundings :=
  { Sample.calm with fault := fun _ => .error (.new .unavailable "fault") }

/-- A fault before the commit leaves the two documents, and without it one is replaced. -/
theorem mutations_atomic_replaced :
    (∃ error, writeTuples Sample.written Sample.faulty Sample.replaces =
      (.error error, Sample.written)) ∧
    (∃ outcome t, writeTuples Sample.written Sample.calm Sample.replaces = (.ok outcome, t) ∧
      Applied Sample.written Sample.replaces outcome t) ∧
    replay (changesOf Sample.written Sample.store) (Sample.tuple "2").key =
      some (Sample.tuple "2") := by
  obtain ⟨atomic, replayed⟩ := mutations_atomic_and_replayed Sample.written_reachable
  refine ⟨(atomic _ _).resolve_right ?_, (atomic _ _).resolve_left ?_, ?_⟩
  · rintro ⟨outcome, t, ended, -⟩
    cases congrArg Prod.fst ended
  · rintro ⟨error, ended⟩
    cases congrArg Prod.fst ended
  · rw [(replayed Sample.store).2]
    rfl

theorem Moved.changes_grow {s t : MemoryState} (moved : Moved s t) (logged : Logged s) :
    changesOf s storeId <+: changesOf t storeId := by
  cases moved with
  | mutated passed =>
    rename_i mutation prepared
    by_cases here : storeId = mutation.storeId
    · subst here
      obtain ⟨deleted, written, plan⟩ := (prepareMutation_ok passed).2.plan logged.bounded
      exact ⟨_, (plan.changesOf_commit logged).symm⟩
    · rw [Prepared.changesOf_commit_other here]
  | _ => exact prefix_rfl

/-- A run only appends to the changes of a store. Replaying what it appends, on the tuples from
before, gives the tuples after it. -/
theorem runs_append_changes {limits : InputLimits} {s t : MemoryState}
    (reached : Reachable limits s)
    (run : Machine.Reaches step (fun _ _ => True) s t) (storeId : StoreId) :
    ∃ more, changesOf t storeId = changesOf s storeId ++ more ∧
      heldTuples t storeId = replayFrom (heldTuples s storeId) more := by
  have grows : changesOf s storeId <+: changesOf t storeId := by
    induction run with
    | refl => exact prefix_rfl
    | tail before _ moved ih =>
      cases moved
      exact ih.trans ((turn_moved _ _).changes_grow (Reachable.logged (reached.trans before)))
  obtain ⟨more, appended⟩ := grows
  refine ⟨more, appended.symm, ?_⟩
  rw [← (Reachable.logged (reached.trans run)).replayed, ← reached.logged.replayed, ← appended,
    replay_append]

theorem runs_append_changes_written : ∃ more, changesOf Sample.written Sample.store = more ∧
    heldTuples Sample.written Sample.store = replay more :=
  runs_append_changes .refl Sample.written_reachable Sample.store

end OpenFga.Memory
