import OpenFga.Dynamo.Query

/-!
# Tuples in the table

A store holds a set of tuples. Each of them is in the table twice: in the forward shard that
the digest of its object selects and in the reverse shard that the digest of its subject
selects, under the same item.
-/

namespace OpenFga.Dynamo

open Std OrderedMap List

/-- The forward shards, in order. -/
def allShards : List UInt8 := (range forwardShards.toNat).map UInt8.ofNat

section Contents

variable (serde : Serde TupleEnvelope) (sha256 : Bytes → Bytes)

/-- The item under the key that leads with the object. -/
def TupleRecord.forwardEntry (record : TupleRecord) : Entry :=
  (forwardKey record.tuple.key, record.item serde sha256)

def TupleRecord.reverseEntry (record : TupleRecord) : Entry :=
  (reverseKey record.tuple.key, record.item serde sha256)

def TupleRecord.forwardShard (record : TupleRecord) : UInt8 :=
  stableShard sha256 (encodeObject record.tuple.key.object) forwardShards

def TupleRecord.reverseShard (record : TupleRecord) : UInt8 :=
  stableShard sha256 (encodeSubject record.tuple.key.subject) reverseShards

/-- A set of tuples, in the order of their keys. -/
structure TupleSet (records : List TupleRecord) : Prop where
  sorted : records.Pairwise fun first second => first.tuple.key < second.tuple.key
  canonical : ∀ record ∈ records, record.tuple.key.Canonical

/-- The table holds the tuples of a store in the shards of their objects. -/
structure ForwardHolds (table : Table) (storeId : StoreId) (records : List TupleRecord) : Prop
    extends TupleSet records where
  rows : ∀ (shard : UInt8) (entry : Entry),
    (table (.forward storeId shard))[entry.1]? = some entry.2 ↔
      ∃ record ∈ records, record.forwardShard sha256 = shard ∧
        record.forwardEntry serde sha256 = entry

/-- The table holds the tuples of a store in the shards of their subjects. -/
structure ReverseHolds (table : Table) (storeId : StoreId) (records : List TupleRecord) : Prop
    extends TupleSet records where
  rows : ∀ (shard : UInt8) (entry : Entry),
    (table (.reverse storeId shard))[entry.1]? = some entry.2 ↔
      ∃ record ∈ records, record.reverseShard sha256 = shard ∧
        record.reverseEntry serde sha256 = entry

/-- The table of one store. -/
def tableOf (storeId : StoreId) (records : List TupleRecord) : Table
  | .forward store shard =>
      if store = storeId then
        .ofList ((records.filter fun record => record.forwardShard sha256 = shard).map
          (TupleRecord.forwardEntry serde sha256))
      else ∅
  | .reverse store shard =>
      if store = storeId then
        .ofList ((records.filter fun record => record.reverseShard sha256 = shard).map
          (TupleRecord.reverseEntry serde sha256))
      else ∅
  | _ => ∅

end Contents

theorem forwardKey_sorted {list : List TupleRecord}
    (canonical : ∀ record ∈ list, record.tuple.key.Canonical)
    (sorted : list.Pairwise fun first second => first.tuple.key < second.tuple.key) :
    list.Pairwise fun first second =>
      forwardKey first.tuple.key < forwardKey second.tuple.key := by
  refine List.Pairwise.imp_of_mem ?_ sorted
  intro first second member member' less
  exact (forwardKey_keeps.lt_iff (canonical first member) (canonical second member')).mpr less

theorem forwardShard_mem (sha256 : Bytes → Bytes) (record : TupleRecord) :
    record.forwardShard sha256 ∈ allShards := by
  have masked : ∀ byte : UInt8, (byte &&& (forwardShards - 1)).toNat < forwardShards.toNat := by
    intro byte
    rw [UInt8.toNat_and]
    exact Nat.lt_of_le_of_lt Nat.and_le_right (by decide)
  exact mem_map.mpr ⟨_, mem_range.mpr (masked _), UInt8.ofNat_toNat⟩

theorem reverseKey_inj {key key' : TupleKey} (canonical : key.Canonical)
    (canonical' : key'.Canonical) (same : reverseKey key = reverseKey key') : key = key' := by
  have decoded := decodeReverse_eq canonical
  rw [same, decodeReverse_eq canonical'] at decoded
  exact (Except.ok.inj decoded).symm

namespace TupleSet

variable {records : List TupleRecord} (set : TupleSet records)

include set

theorem nodup : records.Nodup := by
  refine set.sorted.imp ?_
  rintro record _ less rfl
  exact lt_irrefl _ less

/-- A tuple is determined by its key. -/
theorem eq_of_key {record record' : TupleRecord} (member : record ∈ records)
    (member' : record' ∈ records) (same : record.tuple.key = record'.tuple.key) :
    record = record' := by
  have keys : (records.map fun record => record.tuple.key).Nodup :=
    pairwise_map.mpr (set.sorted.imp fun less => less.ne)
  exact inj_on_of_nodup_map keys member member' same

end TupleSet

section Tables

variable {serde : Serde TupleEnvelope} {sha256 : Bytes → Bytes} {records : List TupleRecord}

/-- Lookups in rows whose keys are distinct. -/
theorem getElem?_ofList_entries {entryOf : TupleRecord → Entry}
    (distinct : (records.map entryOf).Pairwise fun first second => first.1 ≠ second.1)
    (entry : Entry) :
    (ExtTreeMap.ofList (records.map entryOf) : Rows)[entry.1]? = some entry.2 ↔
      ∃ record ∈ records, entryOf record = entry := by
  have keys : ((records.map entryOf).map Prod.fst).Nodup := pairwise_map.mpr distinct
  rw [← mem_toList, (toList_ofList_perm keys).mem_iff, mem_map]

/-- The rows of the records that some shard is selected for. -/
theorem getElem?_ofList_shard {entryOf : TupleRecord → Entry} {shardOf : TupleRecord → UInt8}
    (distinct : records.Pairwise fun first second => (entryOf first).1 ≠ (entryOf second).1)
    (shard : UInt8) (entry : Entry) :
    (ExtTreeMap.ofList ((records.filter fun record => shardOf record = shard).map entryOf) :
        Rows)[entry.1]? = some entry.2 ↔
      ∃ record ∈ records, shardOf record = shard ∧ entryOf record = entry := by
  rw [getElem?_ofList_entries (pairwise_map.mpr (distinct.filter _))]
  constructor
  · rintro ⟨record, member, same⟩
    obtain ⟨listed, selected⟩ := mem_filter.mp member
    exact ⟨record, listed, of_decide_eq_true selected, same⟩
  · rintro ⟨record, listed, selected, same⟩
    exact ⟨record, mem_filter.mpr ⟨listed, decide_eq_true selected⟩, same⟩

theorem tableOf_forwardHolds (storeId : StoreId) (set : TupleSet records) :
    ForwardHolds serde sha256 (tableOf serde sha256 storeId records) storeId records := by
  refine ⟨set, fun shard entry => ?_⟩
  rw [tableOf, if_pos rfl]
  exact getElem?_ofList_shard
    ((forwardKey_sorted set.canonical set.sorted).imp fun less => less.ne) shard entry

theorem tableOf_reverseHolds (storeId : StoreId) (set : TupleSet records) :
    ReverseHolds serde sha256 (tableOf serde sha256 storeId records) storeId records := by
  refine ⟨set, fun shard entry => ?_⟩
  rw [tableOf, if_pos rfl]
  refine getElem?_ofList_shard (List.Pairwise.imp_of_mem ?_ set.sorted) shard entry
  intro first second member member' less same
  exact less.ne (reverseKey_inj (set.canonical first member) (set.canonical second member') same)

end Tables

namespace Sample

def store : StoreId := ⟨"store"⟩

/-- Anne as a viewer of a document. -/
def record (document : String) : TupleRecord := ⟨⟨key document "anne", .unconditional⟩, 0⟩

theorem record_canonical {document : String}
    (named : CanonicalText 252 isObjectIdCharacter document) (concrete : document ≠ "*") :
    (record document).tuple.key.Canonical :=
  key_canonical named concrete (by decide) (by decide)

/-- Two documents. -/
def pair : List TupleRecord := [record "1", record "2"]

theorem pair_set : TupleSet pair where
  sorted := by decide
  canonical := by
    intro record member
    rcases mem_pair.mp member with rfl | rfl
    · exact record_canonical (by decide) (by decide)
    · exact record_canonical (by decide) (by decide)

/-- A serialisation that knows the two documents. -/
def serde : Serde TupleEnvelope := .keyed (pair.map fun record => .fromTuple record.tuple)

theorem pair_readsBack : ∀ record ∈ pair, record.tuple.ReadsBack serde := by decide +kernel

/-- A tuple that cannot be read back. -/
def note : List TupleRecord := [⟨Notes.noteTuple Notes.longNote, 0⟩]

theorem note_set : TupleSet note where
  sorted := pairwise_singleton _ _
  canonical := by
    intro record member
    rw [mem_singleton.mp member]
    exact (Notes.noteTuple_genuine _).key

end Sample

end OpenFga.Dynamo
