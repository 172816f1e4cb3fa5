import OpenFga.Dynamo.Key
import OpenFga.Storage.Persistence

/-!
# Items of the table

A tuple item carries the encoded tuple, a digest of these bytes and the millisecond in which
it was written. A change item packs the changes of one mutation, one record after another.
What is read from an item is checked against the digest and the limits of the decoder, so
reading can fail where writing did not.
-/

namespace OpenFga.Dynamo

def maximumItemBytes : Nat := 350 * 1024

/-- The milliseconds of a moment since the epoch. -/
def epochMillis (time : SystemTime) : Except StorageError UInt64 :=
  if time < 0 then .error (integrity "dynamodb_timestamp_before_epoch")
  else if 2 ^ 64 ≤ time / 1000000 then .error (integrity "dynamodb_timestamp_out_of_range")
  else .ok (.ofNat (time / 1000000).toNat)

def systemTime (millis : UInt64) : SystemTime := (millis.toNat : Int) * 1000000

/-- The items that the tuples of a store are kept in. -/
inductive Item where
  | tuple (payload digest : Bytes) (timestamp : UInt64)
  | change (payload : Bytes) (timestamp : UInt64)
  | changeHead (lastChange : ChangeId)
  deriving DecidableEq

section Tuples

variable (serde : Serde TupleEnvelope) (sha256 : Bytes → Bytes)

/-- A tuple and the millisecond in which it was written. -/
structure TupleRecord where
  tuple : RelationshipTuple
  timestamp : UInt64
  deriving DecidableEq

def TupleRecord.stored (record : TupleRecord) : StoredTuple :=
  ⟨record.tuple, systemTime record.timestamp⟩

/-- The item of a record, under either of its keys. -/
def TupleRecord.item (record : TupleRecord) : Item :=
  .tuple (encodeTuple serde record.tuple) (sha256 (encodeTuple serde record.tuple))
    record.timestamp

def decodeStoredTuple : Item → Except StorageError StoredTuple
  | .tuple payload digest timestamp => do
      if sha256 payload ≠ digest then .error (integrity "dynamodb_tuple_digest_mismatch")
      else
        let tuple ← decodeTuple serde payload
        .ok ⟨tuple, systemTime timestamp⟩
  | .change _ _ => .error (integrity "dynamodb_item_kind_mismatch")
  | .changeHead _ => .error (integrity "dynamodb_string_attribute_invalid")

def requireTupleIdentity (item : Item) (expected : TupleKey) : Except StorageError StoredTuple := do
  let tuple ← decodeStoredTuple serde sha256 item
  if tuple.tuple.key = expected then .ok tuple
  else .error (integrity "dynamodb_tuple_identity_mismatch")

variable {serde sha256} {record : TupleRecord}

theorem decodeStoredTuple_item :
    decodeStoredTuple serde sha256 (record.item serde sha256) =
      (decodeTuple serde (encodeTuple serde record.tuple)).map fun tuple =>
        ⟨tuple, systemTime record.timestamp⟩ := by
  rw [TupleRecord.item, decodeStoredTuple, if_neg (by simp)]
  cases decodeTuple serde (encodeTuple serde record.tuple) <;> rfl

theorem decodeStoredTuple_ok (back : record.tuple.ReadsBack serde) :
    decodeStoredTuple serde sha256 (record.item serde sha256) = .ok record.stored := by
  rw [decodeStoredTuple_item, back]
  rfl

/-- What is read from the item of a record is what its tuple is read as. -/
theorem decodeTuple_of_item {stored : StoredTuple}
    (decoded : decodeStoredTuple serde sha256 (record.item serde sha256) = .ok stored) :
    decodeTuple serde (encodeTuple serde record.tuple) = .ok stored.tuple := by
  rw [decodeStoredTuple_item] at decoded
  obtain ⟨tuple, given, rfl⟩ := map_eq_ok.mp decoded
  exact given

end Tuples

end OpenFga.Dynamo
