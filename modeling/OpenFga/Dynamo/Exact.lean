import OpenFga.Dynamo.Contents

/-!
# Reads of given keys

Both items of a tuple are read, and they have to agree. The items are requested in batches, so
the two items of one tuple need not be read at the same moment.
-/

namespace OpenFga.Dynamo

def maximumQueryItems : Nat := 100000

/-- How many items a read of a bounded number of tuples may look at. -/
def snapshotEvaluationBudget (options : ReadOptions) : Nat :=
  min (max (options.maximumResults.get * 16) (options.maximumResults.get + 1)) maximumQueryItems

def requireSnapshotLimit (tuples : List RelationshipTuple) (options : ReadOptions) :
    Except StorageError (List RelationshipTuple) :=
  if options.maximumResults.get < tuples.length then
    .error (.new .resourceExhausted "tuple_read_result_limit")
  else .ok (tuples.mergeSort fun first second => first.key ≤ second.key)

/-- Tuples in order are given out as they are. -/
theorem requireSnapshotLimit_ok {tuples : List RelationshipTuple} {options : ReadOptions}
    (sorted : tuples.Pairwise fun first second => first.key < second.key)
    (few : tuples.length ≤ options.maximumResults.get) :
    requireSnapshotLimit tuples options = .ok tuples := by
  rw [requireSnapshotLimit, if_neg (Nat.not_lt.mpr few), List.mergeSort_of_pairwise]
  exact sorted.imp fun less => decide_eq_true less.le

/-- No tuple is added or dropped. -/
theorem mem_requireSnapshotLimit {tuples result : List RelationshipTuple} {options : ReadOptions}
    {tuple : RelationshipTuple} (limited : requireSnapshotLimit tuples options = .ok result) :
    tuple ∈ result ↔ tuple ∈ tuples := by
  obtain ⟨-, sorted⟩ := guard_eq_ok.mp limited
  rw [← Except.ok.inj sorted]
  exact List.mem_mergeSort

section Pairs

variable (serde : Serde TupleEnvelope) (sha256 : Bytes → Bytes)

def Item.digest : Item → Except StorageError Bytes
  | .tuple _ digest _ => .ok digest
  | _ => .error (integrity "dynamodb_binary_attribute_invalid")

def Item.payload : Item → Except StorageError Bytes
  | .tuple payload _ _ => .ok payload
  | .change payload _ => .ok payload
  | .changeHead _ => .error (integrity "dynamodb_binary_attribute_invalid")

/-- What the two items of a tuple agree on. -/
inductive PairState where
  | missing
  | present (digest : Bytes) (tuple : RelationshipTuple)

def validatePair (forward reverse : Option Item) (key : TupleKey) : Except StorageError PairState :=
  match forward, reverse with
  | none, none => .ok .missing
  | some left, some right => do
      let stored ← requireTupleIdentity serde sha256 left key
      let _ ← requireTupleIdentity serde sha256 right key
      let leftDigest ← left.digest
      let rightDigest ← right.digest
      let leftPayload ← left.payload
      let rightPayload ← right.payload
      if leftDigest ≠ rightDigest ∨ leftPayload ≠ rightPayload then
        .error (integrity "dynamodb_tuple_peer_mismatch")
      else .ok (.present leftDigest stored.tuple)
  | _, _ => .error (integrity "dynamodb_tuple_peer_missing")

end Pairs

section Keys

variable (serde : Serde TupleEnvelope) (sha256 : Bytes → Bytes)

/-- Where an item is. -/
abbrev PhysicalKey := Partition × Bytes

def TupleKeys.forward (keys : TupleKeys) : PhysicalKey := (keys.forwardPartition, keys.forwardSort)

def TupleKeys.reverse (keys : TupleKeys) : PhysicalKey := (keys.reversePartition, keys.reverseSort)

def tupleKeyFromParts (object relation subject : String) : Except StorageError TupleKey :=
  (TupleKey.parseWithLimits (object ++ "#" ++ relation ++ "@" ++ subject) .standard).mapError
    fun _ => integrity "dynamodb_exact_key_invalid"

/-- The tuples under some keys, given the items that were found. -/
def readExactTupleKeys (states : PhysicalKey → Option Item) (storeId : StoreId)
    (keys : List TupleKey) (conditions : ConditionFilter) (options : ReadOptions) :
    Except StorageError (List RelationshipTuple) := do
  if snapshotEvaluationBudget options < keys.length then
    .error (.new .resourceExhausted "dynamodb_snapshot_evaluation_limit")
  else
    let physical ← keys.mapM (tupleKeys sha256 storeId)
    let pairs ← (keys.zip physical).mapM fun pair =>
      validatePair serde sha256 (states pair.2.forward) (states pair.2.reverse) pair.1
    requireSnapshotLimit (pairs.filterMap fun
      | .missing => none
      | .present _ tuple => if conditions.accepts tuple.condition then some tuple else none) options

end Keys

end OpenFga.Dynamo
