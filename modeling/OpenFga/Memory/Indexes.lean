import OpenFga.Memory.State

/-!
# The secondary indexes of the memory backend

Every tuple is filed by its object and relation, and by its subject with the object's type
and relation. A tuple whose subject is a userset is filed by object and relation a second
time. The indexes mirror the tuples in every reachable state, so a read that goes through an
index gives what a scan of the tuples would give.
-/

namespace OpenFga.Memory

open Std OrderedMap SecondaryIndex ExtTreeMap

variable {s : MemoryState} {object : ObjectRef} {relation : RelationName} {record : RecordKey}
  {key : TupleKey} {storeId storeId' : StoreId} {relation' : RelationName} {subject : SubjectRef}
  {objectType : TypeName} {other : RecordKey} {place : ForwardKey}
  {chosen : RelationshipTuple → Bool}

/-- Where the forward index files a tuple. -/
def forwardPlace (record : RecordKey) : Option ForwardKey :=
  let (storeId, key) := ofLex record
  some (forwardKey storeId key.object key.relation)

/-- Where the index of usersets files a tuple, if its subject is one. -/
def usersetPlace (record : RecordKey) : Option ForwardKey :=
  match (ofLex record).2.subject with
  | .userset _ => forwardPlace record
  | _ => none

def reversePlace (record : RecordKey) : Option ReverseKey :=
  let (storeId, key) := ofLex record
  some (reverseKey storeId key.subject key.object.objectType key.relation)

/-- The key under which a tuple is filed, without its store. -/
def filedKey (record : RecordKey) : TupleKey := (ofLex record).2

theorem forwardKey_eq_iff {object' : ObjectRef} :
    forwardKey storeId object relation = forwardKey storeId' object' relation' ↔
      storeId = storeId' ∧ object = object' ∧ relation = relation' := by
  constructor
  · intro same
    obtain ⟨stores, rest⟩ := Prod.mk.inj (toLex.injective same)
    obtain ⟨objects, relations⟩ := Prod.mk.inj (toLex.injective rest)
    exact ⟨stores, ObjectRef.fields_injective objects, congrArg RelationName.mk relations⟩
  · rintro ⟨rfl, rfl, rfl⟩
    rfl

theorem reverseKey_eq_iff {subject' : SubjectRef} {objectType' : TypeName} :
    reverseKey storeId subject objectType relation =
        reverseKey storeId' subject' objectType' relation' ↔
      storeId = storeId' ∧ subject = subject' ∧ objectType = objectType' ∧
        relation = relation' := by
  constructor
  · intro same
    obtain ⟨stores, rest⟩ := Prod.mk.inj (toLex.injective same)
    obtain ⟨subjects, rest⟩ := Prod.mk.inj (toLex.injective rest)
    obtain ⟨types, relations⟩ := Prod.mk.inj (toLex.injective rest)
    exact ⟨stores, SubjectRef.fields_injective subjects, congrArg TypeName.mk types,
      congrArg RelationName.mk relations⟩
  · rintro ⟨rfl, rfl, rfl, rfl⟩
    rfl

/-- A place and a key determine a tuple of a store. -/
theorem eq_of_forwardPlace (placed : forwardPlace record = some place)
    (placed' : forwardPlace other = some place) (same : filedKey other = filedKey record) :
    other = record := by
  have places := Option.some.inj (placed'.trans placed.symm)
  exact congrArg toLex (Prod.ext (forwardKey_eq_iff.mp places).1 same)

theorem eq_of_reversePlace {place : ReverseKey} (placed : reversePlace record = some place)
    (placed' : reversePlace other = some place) (same : filedKey other = filedKey record) :
    other = record := by
  have places := Option.some.inj (placed'.trans placed.symm)
  exact congrArg toLex (Prod.ext (reverseKey_eq_iff.mp places).1 same)

theorem forwardPlace_of_usersetPlace (placed : usersetPlace record = some place) :
    forwardPlace record = some place := by
  unfold usersetPlace at placed
  split at placed
  · exact placed
  · cases placed

/-- Every tuple is held under its own key, and the indexes mirror the tuples. -/
structure Indexed (s : MemoryState) : Prop where
  keyed : ∀ (record : RecordKey) (stored : StoredTuple),
    s.tuples[record]? = some stored → stored.tuple.key = filedKey record
  forward : Mirrors forwardPlace filedKey (· ∈ s.tuples) s.forward
  usersets : Mirrors usersetPlace filedKey (· ∈ s.tuples) s.usersets
  reverse : Mirrors reversePlace filedKey (· ∈ s.tuples) s.reverse

namespace Indexed

theorem new (limits : InputLimits) : Indexed (.new limits) where
  keyed := by
    intro record stored found
    rw [MemoryState.new, getElem?_empty] at found
    cases found
  forward := .empty fun _ => not_mem_empty
  usersets := .empty fun _ => not_mem_empty
  reverse := .empty fun _ => not_mem_empty

section

variable (indexed : Indexed s)

include indexed

section

variable (storeId : StoreId)

theorem insertTuple (stored : StoredTuple) :
    Indexed (insertTuple s storeId stored) where
  keyed := by
    intro record stored' found
    obtain ⟨rfl, rfl⟩ | old := of_getElem?_insert found
    · rfl
    · exact indexed.keyed record stored' old
  forward := indexed.forward.insertKey rfl fun _ => mem_insert_iff
  usersets := by
    cases kind : stored.tuple.key.subject with
    | userset ref =>
      simp only [Memory.insertTuple, kind]
      refine indexed.usersets.insertKey ?_ fun _ => mem_insert_iff
      simp only [usersetPlace, recordKey, ofLex_toLex, kind]
      rfl
    | _ =>
      simp only [Memory.insertTuple, kind]
      refine indexed.usersets.skip fun record placed => ?_
      rw [mem_insert_iff]
      refine ⟨.inr, fun held => held.resolve_left ?_⟩
      rintro rfl
      simp [usersetPlace, recordKey, kind] at placed
  reverse := indexed.reverse.insertKey rfl fun _ => mem_insert_iff

theorem removeTuple (key : TupleKey) : Indexed (removeTuple s storeId key) where
  keyed record stored found := indexed.keyed record stored (of_getElem?_erase found)
  forward := indexed.forward.removeKey rfl (fun _ => eq_of_forwardPlace rfl)
    fun _ => OrderedMap.mem_erase_iff
  usersets := by
    cases kind : key.subject with
    | userset ref =>
      simp only [Memory.removeTuple, kind]
      have placed : usersetPlace (recordKey storeId key) =
          some (forwardKey storeId key.object key.relation) := by
        simp only [usersetPlace, recordKey, ofLex_toLex, kind]
        rfl
      refine indexed.usersets.removeKey placed ?_ fun _ => OrderedMap.mem_erase_iff
      intro other placed'
      exact eq_of_forwardPlace rfl (forwardPlace_of_usersetPlace placed')
    | _ =>
      simp only [Memory.removeTuple, kind]
      refine indexed.usersets.skip fun record placed => ?_
      rw [OrderedMap.mem_erase_iff]
      refine ⟨fun held => ⟨?_, held⟩, And.right⟩
      rintro rfl
      simp [usersetPlace, recordKey, kind] at placed
  reverse := indexed.reverse.removeKey rfl (fun _ => eq_of_reversePlace rfl)
    fun _ => OrderedMap.mem_erase_iff

theorem removeTuples (tuples : List RelationshipTuple) : Indexed (removeTuples s storeId tuples) :=
  List.foldlRecOn _ _ indexed fun _ held tuple _ => held.removeTuple storeId tuple.key

theorem insertTuples (timestamp : SystemTime) (tuples : List RelationshipTuple) :
    Indexed (insertTuples s storeId timestamp tuples) :=
  List.foldlRecOn _ _ indexed fun _ held tuple _ => held.insertTuple storeId ⟨tuple, timestamp⟩

theorem commitMutation (prepared : PreparedMutation) :
    Indexed (commitMutation s storeId prepared) := by
  have deleted := indexed.removeTuples storeId prepared.deletes
  have written := deleted.insertTuples storeId prepared.timestamp prepared.writes
  exact ⟨written.keyed, written.forward, written.usersets, written.reverse⟩

end

end

/-- No operation on stores, models or assertions touches the tuples or their indexes. -/
theorem moved {t : MemoryState} (moved : Moved s t) (indexed : Indexed s) : Indexed t := by
  cases moved with
  | mutated ready => exact indexed.commitMutation _ _
  | _ => exact ⟨indexed.keyed, indexed.forward, indexed.usersets, indexed.reverse⟩

end Indexed

theorem Reachable.indexed {limits : InputLimits} {s : MemoryState}
    (reached : Reachable limits s) : Indexed s :=
  reached.invariant Indexed (.new limits) fun _ _ => Indexed.moved

section Listings

variable {κ β : Type} {storeId : StoreId} {entries : List ((StoreId ×ₗ κ) × β)}

theorem mem_ofStore {entry : κ × β} :
    entry ∈ ofStore storeId entries ↔ (toLex (storeId, entry.1), entry.2) ∈ entries := by
  rw [ofStore, List.mem_filterMap]
  constructor
  · rintro ⟨⟨key, value⟩, member, given⟩
    split at given
    · rename_i here
      cases given
      cases here
      exact member
    · cases given
  · intro member
    exact ⟨_, member, if_pos rfl⟩

/-- The entries of one store are in the order of their own keys. -/
theorem ofStore_sorted [LinearOrder κ]
    (sorted : entries.Pairwise fun first second => first.1 < second.1) :
    (ofStore storeId entries).Pairwise fun first second => first.1 < second.1 := by
  rw [ofStore, List.pairwise_filterMap]
  refine sorted.imp ?_
  intro first second less entry given entry' given'
  obtain ⟨here, given⟩ := Option.ite_none_right_eq_some.mp given
  cases given
  split at given'
  · rename_i here'
    cases given'
    rcases Prod.Lex.lt_iff.mp less with stores | ⟨-, keys⟩
    · rw [here, here'] at stores
      exact absurd stores (lt_irrefl storeId)
    · exact keys
  · cases given'

/-- The tuples of a store, in the order of their keys. -/
def tuplesOf (s : MemoryState) (storeId : StoreId) : List RelationshipTuple :=
  (ofStore storeId s.tuples.toList).map fun entry => entry.2.tuple

theorem mem_tuplesOf (indexed : Indexed s) {tuple : RelationshipTuple} :
    tuple ∈ tuplesOf s storeId ↔
      s.tuples[recordKey storeId tuple.key]?.map StoredTuple.tuple = some tuple := by
  rw [tuplesOf, List.mem_map, Option.map_eq_some_iff]
  constructor
  · rintro ⟨⟨key, stored⟩, member, rfl⟩
    have found := mem_toList.mp (mem_ofStore.mp member)
    refine ⟨stored, ?_, rfl⟩
    rw [indexed.keyed _ stored found]
    exact found
  · rintro ⟨stored, found, same⟩
    exact ⟨(tuple.key, stored), mem_ofStore.mpr (mem_toList.mpr found), same⟩

theorem tuplesOf_sorted (indexed : Indexed s) (storeId : StoreId) :
    (tuplesOf s storeId).Pairwise fun first second => first.key < second.key := by
  rw [tuplesOf, List.pairwise_map]
  have keyed : ∀ entry ∈ ofStore storeId s.tuples.toList, entry.2.tuple.key = entry.1 :=
    fun entry member => indexed.keyed _ _ (mem_toList.mp (mem_ofStore.mp member))
  refine (ofStore_sorted (toList_sorted s.tuples)).imp_of_mem ?_
  intro first second member member' less
  rw [keyed first member, keyed second member']
  exact less

end Listings

section Collect

variable {storeId : StoreId} {accepts : RelationshipTuple → Bool} {keys : List TupleKey}

/-- The tuples held under the keys. -/
def tuplesAt (s : MemoryState) (storeId : StoreId) (keys : List TupleKey) :
    List RelationshipTuple :=
  keys.filterMap fun key => s.tuples[recordKey storeId key]?.map StoredTuple.tuple

/-- A result, refused if it is larger than a read may give. -/
def withinLimit (maximum : Nat) (tuples : List RelationshipTuple) :
    Except StorageError (List RelationshipTuple) :=
  if maximum < tuples.length then .error (.new .resourceExhausted "tuple_snapshot_result_limit")
  else .ok tuples

theorem collectTuples_eq {maximum count : Nat} (room : count ≤ maximum)
    (held : ∀ key ∈ keys, recordKey storeId key ∈ s.tuples) :
    collectTuples s storeId maximum accepts keys count =
      withinLimit (maximum - count) ((tuplesAt s storeId keys).filter accepts) := by
  induction keys generalizing count with
  | nil => rfl
  | cons key keys ih =>
    obtain ⟨first, rest⟩ := List.forall_mem_cons.mp held
    obtain ⟨stored, found⟩ := Option.isSome_iff_exists.mp
      (isSome_getElem?_iff_mem.mpr first)
    have head : tuplesAt s storeId (key :: keys) = stored.tuple :: tuplesAt s storeId keys := by
      simp only [tuplesAt, List.filterMap_cons, found, Option.map_some]
    simp only [collectTuples, found, orError, bind, Except.bind]
    rw [head]
    by_cases passes : accepts stored.tuple
    · rw [if_pos passes, List.filter_cons_of_pos passes]
      by_cases full : maximum ≤ count
      · rw [if_pos full, withinLimit, if_pos]
        rw [List.length_cons]
        omega
      · rw [if_neg full, ih (by omega) rest, withinLimit, withinLimit, List.length_cons]
        by_cases large : maximum - (count + 1) < ((tuplesAt s storeId keys).filter accepts).length
        · rw [if_pos large, if_pos (by omega)]
        · rw [if_neg large, if_neg (by omega)]
    · rw [if_neg passes, List.filter_cons_of_neg passes]
      exact ih room rest

/-- The tuples under a set of keys that pass are those a scan of the store chooses, if of the
tuples held the set has the keys of exactly the ones chosen by their keys. -/
theorem filter_tuplesAt_eq (indexed : Indexed s) {keys : ExtTreeSet TupleKey}
    {selects : TupleKey → Prop}
    (filed : ∀ key, recordKey storeId key ∈ s.tuples → (key ∈ keys ↔ selects key))
    (chosen_iff : ∀ tuple, chosen tuple ↔ selects tuple.key ∧ accepts tuple) :
    (tuplesAt s storeId keys.toList).filter accepts = (tuplesOf s storeId).filter chosen := by
  have keyed : ∀ {key : TupleKey} {tuple : RelationshipTuple},
      s.tuples[recordKey storeId key]?.map StoredTuple.tuple = some tuple →
        tuple.key = key ∧ recordKey storeId key ∈ s.tuples := by
    intro key tuple found
    obtain ⟨stored, held, rfl⟩ := Option.map_eq_some_iff.mp found
    exact ⟨indexed.keyed _ stored held,
      isSome_getElem?_iff_mem.mp (Option.isSome_of_mem held)⟩
  have sorted : (tuplesAt s storeId keys.toList).Pairwise
      fun first second => first.key < second.key := by
    rw [tuplesAt, List.pairwise_filterMap]
    refine (set_toList_sorted keys).imp ?_
    intro key key' less tuple found tuple' found'
    rw [(keyed found).1, (keyed found').1]
    exact less
  refine eq_of_sorted (sorted.filter _) ((tuplesOf_sorted indexed storeId).filter _) ?_
  intro tuple
  rw [tuplesAt, List.mem_filter, List.mem_filterMap, List.mem_filter, mem_tuplesOf indexed,
    chosen_iff]
  constructor
  · rintro ⟨⟨key, member, found⟩, passes⟩
    obtain ⟨rfl, held⟩ := keyed found
    exact ⟨found, (filed _ held).mp (ExtTreeSet.mem_toList.mp member), passes⟩
  · rintro ⟨found, selected, passes⟩
    have filed := (filed _ (keyed found).2).mpr selected
    exact ⟨⟨tuple.key, ExtTreeSet.mem_toList.mpr filed, found⟩, passes⟩

theorem collectTuples_eq_scan (indexed : Indexed s) {keys : ExtTreeSet TupleKey}
    {selects : TupleKey → Prop} (maximum : Nat)
    (filed : ∀ key, key ∈ keys ↔ recordKey storeId key ∈ s.tuples ∧ selects key)
    (chosen_iff : ∀ tuple, chosen tuple ↔ selects tuple.key ∧ accepts tuple) :
    collectTuples s storeId maximum accepts keys.toList 0 =
      withinLimit maximum ((tuplesOf s storeId).filter chosen) := by
  rw [collectTuples_eq (Nat.zero_le _), Nat.sub_zero, filter_tuplesAt_eq indexed _ chosen_iff]
  · intro key held
    rw [filed, and_iff_right held]
  · intro key member
    exact ((filed key).mp (ExtTreeSet.mem_toList.mp member)).1

end Collect

section Reads

variable {storeId : StoreId}

/-- Whether a tuple is one the filter asks for, wherever it is filed. -/
def ObjectRelationFilter.selects (filter : ObjectRelationFilter) (tuple : RelationshipTuple) :
    Bool :=
  decide (tuple.key.object = filter.object ∧ tuple.key.relation = filter.relation) &&
    ObjectRelationFilter.accepts filter tuple

def UsersetTupleFilter.selects (filter : UsersetTupleFilter) (tuple : RelationshipTuple) : Bool :=
  decide (tuple.key.object = filter.object ∧ tuple.key.relation = filter.relation) &&
    UsersetTupleFilter.accepts filter tuple

def ReverseTupleFilter.selects (filter : ReverseTupleFilter) (tuple : RelationshipTuple) : Bool :=
  decide (tuple.key.subject ∈ filter.subjects ∧
      tuple.key.object.objectType = filter.objectType ∧ tuple.key.relation = filter.relation) &&
    ReverseTupleFilter.accepts filter tuple

theorem mem_forward (indexed : Indexed s) :
    key ∈ bucket s.forward (forwardKey storeId object relation) ↔
      recordKey storeId key ∈ s.tuples ∧ key.object = object ∧ key.relation = relation := by
  rw [indexed.forward.mem_iff]
  constructor
  · rintro ⟨record, held, placed, rfl⟩
    obtain ⟨rfl, rfl, rfl⟩ := forwardKey_eq_iff.mp (Option.some.inj placed)
    exact ⟨held, rfl, rfl⟩
  · rintro ⟨held, rfl, rfl⟩
    exact ⟨recordKey storeId key, held, rfl, rfl⟩

theorem mem_usersets (indexed : Indexed s) :
    key ∈ bucket s.usersets (forwardKey storeId object relation) ↔
      recordKey storeId key ∈ s.tuples ∧ key.object = object ∧ key.relation = relation ∧
        ∃ ref, key.subject = .userset ref := by
  rw [indexed.usersets.mem_iff]
  constructor
  · rintro ⟨record, held, placed, rfl⟩
    have forward := forwardPlace_of_usersetPlace placed
    obtain ⟨rfl, rfl, rfl⟩ := forwardKey_eq_iff.mp (Option.some.inj forward)
    refine ⟨held, rfl, rfl, ?_⟩
    unfold usersetPlace at placed
    split at placed
    · rename_i ref kind
      exact ⟨ref, kind⟩
    · cases placed
  · rintro ⟨held, rfl, rfl, ref, kind⟩
    refine ⟨recordKey storeId key, held, ?_, rfl⟩
    simp only [usersetPlace, recordKey, ofLex_toLex, kind]
    rfl

theorem mem_reverse (indexed : Indexed s) :
    key ∈ bucket s.reverse (reverseKey storeId subject objectType relation) ↔
      recordKey storeId key ∈ s.tuples ∧ key.subject = subject ∧
        key.object.objectType = objectType ∧ key.relation = relation := by
  rw [indexed.reverse.mem_iff]
  constructor
  · rintro ⟨record, held, placed, rfl⟩
    obtain ⟨rfl, rfl, rfl, rfl⟩ := reverseKey_eq_iff.mp (Option.some.inj placed)
    exact ⟨held, rfl, rfl, rfl⟩
  · rintro ⟨held, rfl, rfl, rfl⟩
    exact ⟨recordKey storeId key, held, rfl, rfl⟩

theorem mem_foldl_insertMany {α : Type} {buckets : α → List TupleKey} (list : List α)
    (start : ExtTreeSet TupleKey) :
    key ∈ list.foldl (fun keys entry => keys.insertMany (buckets entry)) start ↔
      key ∈ start ∨ ∃ entry ∈ list, key ∈ buckets entry := by
  induction list generalizing start with
  | nil => simp
  | cons entry list ih =>
    rw [List.foldl_cons, ih, ExtTreeSet.mem_insertMany_list, List.contains_iff_mem]
    simp only [List.mem_cons, exists_eq_or_imp, or_assoc]

theorem mem_reverseKeys (indexed : Indexed s) {filter : ReverseTupleFilter} :
    key ∈ reverseKeys s storeId filter ↔
      recordKey storeId key ∈ s.tuples ∧ key.subject ∈ filter.subjects ∧
        key.object.objectType = filter.objectType ∧ key.relation = filter.relation := by
  rw [reverseKeys, mem_foldl_insertMany]
  simp only [ExtTreeSet.mem_toList, mem_reverse indexed, ExtTreeSet.not_mem_empty, false_or]
  constructor
  · rintro ⟨subject, listed, held, rfl, rest⟩
    exact ⟨held, listed, rest⟩
  · rintro ⟨held, listed, rest⟩
    exact ⟨key.subject, listed, held, rfl, rest⟩

theorem readObjectRelation_eq (indexed : Indexed s) (filter : ObjectRelationFilter)
    (options : ReadOptions) :
    readObjectRelation s storeId filter options = withinLimit options.maximumResults.get
      ((tuplesOf s storeId).filter (ObjectRelationFilter.selects filter)) := by
  apply collectTuples_eq_scan indexed _ fun key => mem_forward indexed
  intro tuple
  rw [ObjectRelationFilter.selects, Bool.and_eq_true, decide_eq_true_iff]

theorem readUserset_eq (indexed : Indexed s) (filter : UsersetTupleFilter) (options : ReadOptions) :
    readUserset s storeId filter options = withinLimit options.maximumResults.get
      ((tuplesOf s storeId).filter (UsersetTupleFilter.selects filter)) := by
  apply collectTuples_eq_scan indexed _ fun key => mem_usersets indexed
  intro tuple
  rw [UsersetTupleFilter.selects, Bool.and_eq_true, decide_eq_true_iff]
  constructor
  · rintro ⟨⟨objects, relations⟩, passes⟩
    refine ⟨⟨objects, relations, ?_⟩, passes⟩
    -- Only usersets match a restriction.
    unfold UsersetTupleFilter.accepts usersetMatches at passes
    split at passes
    · rename_i ref kind
      exact ⟨ref, kind⟩
    · cases passes
  · rintro ⟨⟨objects, relations, -⟩, passes⟩
    exact ⟨⟨objects, relations⟩, passes⟩

theorem readReverse_eq (indexed : Indexed s) (filter : ReverseTupleFilter) (options : ReadOptions) :
    readReverse s storeId filter options = withinLimit options.maximumResults.get
      ((tuplesOf s storeId).filter (ReverseTupleFilter.selects filter)) := by
  apply collectTuples_eq_scan indexed _ fun key => mem_reverseKeys indexed
  intro tuple
  rw [ReverseTupleFilter.selects, Bool.and_eq_true, decide_eq_true_iff]

end Reads

/-- In every reachable state each index files exactly the held tuples and keeps no empty
bucket, and the indexed reads give what a scan of the store's tuples in canonical order
gives, or refuse it for its size. -/
theorem indexed_reads_scan_tuples {limits : InputLimits} {s : MemoryState}
    (reached : Reachable limits s) :
    Mirrors forwardPlace filedKey (· ∈ s.tuples) s.forward ∧
      Mirrors usersetPlace filedKey (· ∈ s.tuples) s.usersets ∧
      Mirrors reversePlace filedKey (· ∈ s.tuples) s.reverse ∧
      ∀ storeId : StoreId,
        ((tuplesOf s storeId).Pairwise fun first second => first.key < second.key) ∧
        (∀ tuple, tuple ∈ tuplesOf s storeId ↔
          s.tuples[recordKey storeId tuple.key]?.map StoredTuple.tuple = some tuple) ∧
        ∀ options : ReadOptions,
          (∀ filter, readObjectRelation s storeId filter options =
            withinLimit options.maximumResults.get
              ((tuplesOf s storeId).filter (ObjectRelationFilter.selects filter))) ∧
          (∀ filter, readUserset s storeId filter options =
            withinLimit options.maximumResults.get
              ((tuplesOf s storeId).filter (UsersetTupleFilter.selects filter))) ∧
          (∀ filter, readReverse s storeId filter options =
            withinLimit options.maximumResults.get
              ((tuplesOf s storeId).filter (ReverseTupleFilter.selects filter))) := by
  have indexed := reached.indexed
  refine ⟨indexed.forward, indexed.usersets, indexed.reverse, fun storeId => ?_⟩
  refine ⟨tuplesOf_sorted indexed storeId, fun tuple => mem_tuplesOf indexed, fun options => ?_⟩
  exact ⟨fun filter => readObjectRelation_eq indexed filter options,
    fun filter => readUserset_eq indexed filter options,
    fun filter => readReverse_eq indexed filter options⟩

theorem indexed_reads_scan_written :
    readReverse Sample.written Sample.store
        ⟨⟨"doc"⟩, ⟨"viewer"⟩, [.object ⟨⟨"user"⟩, ⟨"anne"⟩⟩], [], .any⟩
        ⟨⟨10, by decide, by decide⟩⟩ =
      .ok [Sample.tuple "1", Sample.tuple "2"] := by
  obtain ⟨-, -, -, stores⟩ := indexed_reads_scan_tuples Sample.written_reachable
  obtain ⟨-, -, reads⟩ := stores Sample.store
  obtain ⟨-, -, reverse⟩ := reads ⟨⟨10, by decide, by decide⟩⟩
  rw [reverse]
  rfl

end OpenFga.Memory
