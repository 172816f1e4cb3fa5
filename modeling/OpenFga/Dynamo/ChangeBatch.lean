import OpenFga.Dynamo.Contents

/-!
# Packed changes

The changes of one mutation are one item: a mark, their number, and for each the operation,
the identifier, the millisecond and the encoded tuple with its length. The identifiers must
increase. Reading the item gives back the changes, each at the millisecond it was made in,
unless a tuple cannot be read back.
-/

namespace OpenFga.Dynamo

open PrefixCode Utf8 List

variable {serde : Serde TupleEnvelope} {changes : List TupleChange}

def exhausted (code : String) : StorageError := .new .resourceExhausted code

def changeBatchMark : Bytes := [0x43, 0x42, 0x01]

/-- Two neighbours that are not in order. -/
def outOfOrder (changes : List TupleChange) : Bool :=
  (changes.zip changes.tail).any fun pair => decide (pair.2.id ≤ pair.1.id)

section Writing

variable (serde : Serde TupleEnvelope)

def operationCode : ChangeOperation → UInt8
  | .write => 0
  | .delete => 1

def encodeChange (change : TupleChange) : Except StorageError Bytes := do
  let millis ← epochMillis change.timestamp
  let payload := encodeTuple serde change.tuple
  if 2 ^ 32 ≤ payload.length then .error (exhausted "dynamodb_change_payload_length")
  else
    .ok ([operationCode change.operation] ++ (bytesOf change.id.text ++ (bigEndian 8 millis.toNat ++
      (bigEndian 4 payload.length ++ payload))))

def encodeChanges (changes : List TupleChange) : Except StorageError Bytes := do
  if changes.isEmpty || outOfOrder changes then
    .error (integrity "dynamodb_change_batch_order_invalid")
  else if 2 ^ 16 ≤ changes.length then .error (exhausted "dynamodb_change_count")
  else
    let records ← changes.mapM (encodeChange serde)
    let output := changeBatchMark ++ (bigEndian 2 changes.length ++ records.flatten)
    if maximumItemBytes < output.length then .error (exhausted "dynamodb_change_batch_too_large")
    else .ok output

end Writing

section Reading

variable (serde : Serde TupleEnvelope) (storeId : StoreId)

/-- Takes some bytes off the front. -/
def takeBytes (bytes : Bytes) (length : Nat) : Except StorageError (Bytes × Bytes) :=
  if bytes.length < length then .error (integrity "dynamodb_payload_truncated")
  else .ok (bytes.take length, bytes.drop length)

def operationOf : Bytes → Except StorageError ChangeOperation
  | 0 :: _ => .ok .write
  | 1 :: _ => .ok .delete
  | _ => .error (integrity "dynamodb_change_operation_invalid")

def changeIdOf (bytes : Bytes) : Except StorageError ChangeId := do
  let text ← orError (textOf bytes) (integrity "dynamodb_change_id_utf8")
  (ChangeId.parse text).mapError fun _ => integrity "dynamodb_change_id_invalid"

def decodeChange (bytes : Bytes) : Except StorageError (TupleChange × Bytes) := do
  let (code, bytes) ← takeBytes bytes 1
  let operation ← operationOf code
  let (text, bytes) ← takeBytes bytes 26
  let id ← changeIdOf text
  let (millis, bytes) ← takeBytes bytes 8
  let (length, bytes) ← takeBytes bytes 4
  let (payload, bytes) ← takeBytes bytes (fromBigEndian length)
  let tuple ← decodeTuple serde payload
  .ok (⟨id, storeId, operation, tuple, systemTime (.ofNat (fromBigEndian millis))⟩, bytes)

/-- Reads as many changes, one after another. -/
def decodeChangeList : Nat → Bytes → Except StorageError (List TupleChange × Bytes)
  | 0, bytes => .ok ([], bytes)
  | count + 1, bytes => do
      let (change, bytes) ← decodeChange serde storeId bytes
      let (changes, bytes) ← decodeChangeList count bytes
      .ok (change :: changes, bytes)

def decodeChanges (bytes : Bytes) : Except StorageError (List TupleChange) := do
  if maximumItemBytes < bytes.length || bytes.take 3 != changeBatchMark then
    .error (integrity "dynamodb_change_batch_invalid")
  else
    let (count, bytes) ← takeBytes (bytes.drop 3) 2
    let (changes, bytes) ← decodeChangeList serde storeId (fromBigEndian count) bytes
    if !bytes.isEmpty then .error (integrity "dynamodb_change_batch_trailing_bytes")
    else if changes.isEmpty || outOfOrder changes then
      .error (integrity "dynamodb_change_batch_order_invalid")
    else .ok changes

end Reading

/-- The change as it is read back: its time has lost what is less than a millisecond. -/
def recorded (change : TupleChange) : TupleChange :=
  { change with timestamp := change.timestamp / 1000000 * 1000000 }

theorem outOfOrder_eq_false :
    outOfOrder changes = false ↔ changes.Pairwise fun first second => first.id < second.id := by
  have transitive : IsTrans TupleChange fun first second => first.id < second.id :=
    ⟨fun _ _ _ => lt_trans⟩
  rw [← isChain_iff_pairwise]
  induction changes with
  | nil => simp [outOfOrder]
  | cons change changes ih =>
    cases changes with
    | nil => simp [outOfOrder]
    | cons next changes =>
      rw [isChain_cons_cons]
      refine Iff.trans ?_ (and_congr_right fun _ => ih)
      simp [outOfOrder]

theorem systemTime_epochMillis {time : SystemTime} {millis : UInt64}
    (given : epochMillis time = .ok millis) : systemTime millis = time / 1000000 * 1000000 := by
  unfold epochMillis at given
  split at given
  · cases given
  · split at given
    · cases given
    · rename_i future small
      cases given
      have positive : 0 ≤ time / 1000000 := Int.ediv_nonneg (not_lt.mp future) (by decide)
      have bounded : (time / 1000000).toNat < 2 ^ 64 := by
        refine (Int.toNat_lt positive).mpr ?_
        rw [Int.natCast_pow]
        exact not_le.mp small
      rw [systemTime, UInt64.toNat_ofNat', Nat.mod_eq_of_lt bounded, Int.toNat_of_nonneg positive]

theorem takeBytes_append (word rest : Bytes) :
    takeBytes (word ++ rest) word.length = .ok (word, rest) := by
  have room : ¬(word ++ rest).length < word.length := by
    rw [length_append]
    omega
  rw [takeBytes, if_neg room, take_left, drop_left]

theorem takeBytes_of_length {word rest : Bytes} {length : Nat} (exact : word.length = length) :
    takeBytes (word ++ rest) length = .ok (word, rest) := by
  rw [← exact, takeBytes_append]

theorem changeIdOf_text (id : ChangeId) : changeIdOf (bytesOf id.text) = .ok id := by
  rw [changeIdOf, textOf_bytesOf, orError_some]
  exact bind_eq_ok.mpr ⟨id.text, rfl, mapError_eq_ok.mpr id.parse_text⟩

theorem length_text (id : ChangeId) : (bytesOf id.text).length = 26 := by
  rw [length_bytesOf]
  exact Ulid.size_text id.value

theorem decodeChange_encodeChange {change : TupleChange} {record : Bytes}
    (decodes : decodeTuple serde (encodeTuple serde change.tuple) = .ok change.tuple)
    (encoded : encodeChange serde change = .ok record) (rest : Bytes) :
    decodeChange serde change.storeId (record ++ rest) = .ok (recorded change, rest) := by
  obtain ⟨millis, time, encoded⟩ := bind_eq_ok.mp encoded
  obtain ⟨short, encoded⟩ := guard_eq_ok.mp encoded
  cases encoded
  have operation : operationOf [operationCode change.operation] = .ok change.operation := by
    cases change.operation with
    | write | delete => rfl
  have length : fromBigEndian (bigEndian 4 (encodeTuple serde change.tuple).length) =
      (encodeTuple serde change.tuple).length := by
    rw [fromBigEndian_bigEndian]
    exact Nat.mod_eq_of_lt (not_le.mp short)
  have moment : fromBigEndian (bigEndian 8 millis.toNat) = millis.toNat := by
    rw [fromBigEndian_bigEndian]
    exact Nat.mod_eq_of_lt millis.toNat_lt
  unfold decodeChange
  simp only [append_assoc]
  rw [takeBytes_of_length (length_singleton)]
  simp only [bind, Except.bind, operation]
  rw [takeBytes_of_length (length_text change.id)]
  simp only [changeIdOf_text]
  rw [takeBytes_of_length (bigEndian_length 8 _)]
  simp only
  rw [takeBytes_of_length (bigEndian_length 4 _)]
  simp only [length]
  rw [takeBytes_append]
  simp only [decodes, moment, UInt64.ofNat_toNat,
    systemTime_epochMillis time]
  rfl

theorem decodeChangeList_flatten (storeId : StoreId)
    (own : ∀ change ∈ changes, change.storeId = storeId)
    (decodes : ∀ change ∈ changes,
      decodeTuple serde (encodeTuple serde change.tuple) = .ok change.tuple) {records : List Bytes}
    (encoded : changes.mapM (encodeChange serde) = .ok records) (rest : Bytes) :
    decodeChangeList serde storeId changes.length (records.flatten ++ rest) =
      .ok (changes.map recorded, rest) := by
  induction changes generalizing records with
  | nil =>
    cases encoded
    rfl
  | cons change changes ih =>
    rw [mapM_cons] at encoded
    obtain ⟨record, first, encoded⟩ := bind_eq_ok.mp encoded
    obtain ⟨records, others, encoded⟩ := bind_eq_ok.mp encoded
    cases encoded
    obtain ⟨here, own⟩ := forall_mem_cons.mp own
    obtain ⟨decoded, decodes⟩ := forall_mem_cons.mp decodes
    have read := decodeChange_encodeChange decoded first (records.flatten ++ rest)
    rw [here] at read
    rw [length_cons, flatten_cons, append_assoc, decodeChangeList, read]
    simp only [bind, Except.bind, ih own decodes others]
    rfl

/-- What was packed is read back. -/
theorem decodeChanges_encodeChanges {storeId : StoreId} {payload : Bytes}
    (own : ∀ change ∈ changes, change.storeId = storeId)
    (decodes : ∀ change ∈ changes,
      decodeTuple serde (encodeTuple serde change.tuple) = .ok change.tuple)
    (encoded : encodeChanges serde changes = .ok payload) :
    decodeChanges serde storeId payload = .ok (changes.map recorded) := by
  obtain ⟨ordered, encoded⟩ := guard_eq_ok.mp encoded
  obtain ⟨few, encoded⟩ := guard_eq_ok.mp encoded
  obtain ⟨records, made, encoded⟩ := bind_eq_ok.mp encoded
  obtain ⟨fits, encoded⟩ := guard_eq_ok.mp encoded
  cases encoded
  have count : fromBigEndian (bigEndian 2 changes.length) = changes.length := by
    rw [fromBigEndian_bigEndian]
    exact Nat.mod_eq_of_lt (not_le.mp few)
  have read := decodeChangeList_flatten storeId own decodes made []
  rw [append_nil] at read
  have kept : outOfOrder (changes.map recorded) = outOfOrder changes := by
    rw [outOfOrder, ← map_tail, zip_map, any_map]
    rfl
  unfold decodeChanges
  have valid : ¬(maximumItemBytes < (changeBatchMark ++ (bigEndian 2 changes.length ++
      records.flatten)).length || (changeBatchMark ++ (bigEndian 2 changes.length ++
      records.flatten)).take 3 != changeBatchMark) = true := by
    rw [decide_eq_false fits]
    simp [changeBatchMark]
  rw [if_neg valid]
  have mark : (changeBatchMark ++ (bigEndian 2 changes.length ++ records.flatten)).drop 3 =
      bigEndian 2 changes.length ++ records.flatten := rfl
  rw [mark, takeBytes_of_length (bigEndian_length 2 _)]
  simp only [bind, Except.bind, count, read, kept, isEmpty_map, isEmpty_nil,
    Bool.not_true, Bool.false_eq_true, if_false]
  exact if_neg ordered

section Accepted

variable {storeId : StoreId} {bytes rest : Bytes}

/-- What is taken does not depend on what comes later. -/
theorem takeBytes_more {word : Bytes} {length : Nat}
    (taken : takeBytes bytes length = .ok (word, rest)) (more : Bytes) :
    takeBytes (bytes ++ more) length = .ok (word, rest ++ more) := by
  obtain ⟨room, ⟨⟩⟩ := guard_eq_ok.mp taken
  have whole : bytes ++ more = bytes.take length ++ (bytes.drop length ++ more) := by
    rw [← append_assoc, take_append_drop]
  rw [whole, takeBytes_of_length (length_take_of_le (not_lt.mp room))]

theorem decodeChange_more {change : TupleChange}
    (read : decodeChange serde storeId bytes = .ok (change, rest)) (more : Bytes) :
    decodeChange serde storeId (bytes ++ more) = .ok (change, rest ++ more) ∧
      change.storeId = storeId := by
  obtain ⟨⟨code, _⟩, first, read⟩ := bind_eq_ok.mp read
  obtain ⟨operation, known, read⟩ := bind_eq_ok.mp read
  obtain ⟨⟨text, _⟩, second, read⟩ := bind_eq_ok.mp read
  obtain ⟨id, named, read⟩ := bind_eq_ok.mp read
  obtain ⟨⟨millis, _⟩, third, read⟩ := bind_eq_ok.mp read
  obtain ⟨⟨length, _⟩, fourth, read⟩ := bind_eq_ok.mp read
  obtain ⟨⟨payload, _⟩, fifth, read⟩ := bind_eq_ok.mp read
  obtain ⟨tuple, decoded, ⟨⟩⟩ := bind_eq_ok.mp read
  refine ⟨?_, rfl⟩
  simp only [decodeChange, takeBytes_more first more, known, takeBytes_more second more, named,
    takeBytes_more third more, takeBytes_more fourth more, takeBytes_more fifth more, decoded, bind,
    Except.bind]

theorem decodeChangeList_more {count : Nat}
    (read : decodeChangeList serde storeId count bytes = .ok (changes, rest)) (more : Bytes) :
    decodeChangeList serde storeId count (bytes ++ more) = .ok (changes, rest ++ more) ∧
      ∀ change ∈ changes, change.storeId = storeId := by
  induction count generalizing bytes changes with
  | zero =>
    cases read
    exact ⟨rfl, by simp⟩
  | succ count ih =>
    obtain ⟨⟨change, _⟩, first, read⟩ := bind_eq_ok.mp read
    obtain ⟨⟨changes, _⟩, others, ⟨⟩⟩ := bind_eq_ok.mp read
    obtain ⟨here, own⟩ := decodeChange_more first more
    obtain ⟨later, owns⟩ := ih others
    refine ⟨?_, forall_mem_cons.mpr ⟨own, owns⟩⟩
    simp only [decodeChangeList, here, later, bind, Except.bind]

theorem decodeChanges_eq_ok (accepted : decodeChanges serde storeId bytes = .ok changes) :
    3 ≤ bytes.length ∧ changes ≠ [] ∧ outOfOrder changes = false ∧
      ∃ count after, takeBytes (bytes.drop 3) 2 = .ok (count, after) ∧
        decodeChangeList serde storeId (fromBigEndian count) after = .ok (changes, []) := by
  obtain ⟨marked, accepted⟩ := guard_eq_ok.mp accepted
  obtain ⟨⟨count, after⟩, counted, accepted⟩ := bind_eq_ok.mp accepted
  obtain ⟨⟨read, left⟩, listed, accepted⟩ := bind_eq_ok.mp accepted
  obtain ⟨ended, accepted⟩ := guard_eq_ok.mp accepted
  obtain ⟨ordered, ⟨⟩⟩ := guard_eq_ok.mp accepted
  simp only [Bool.or_eq_true, not_or, bne_iff_ne, ne_eq, not_not, Bool.not_eq_true,
    Bool.not_eq_false', List.isEmpty_iff] at marked ended ordered
  have long := congrArg List.length marked.2
  rw [length_take, changeBatchMark] at long
  exact ⟨by simpa using long, ordered.1, ordered.2, count, after, counted, ended ▸ listed⟩

/-- The code of a batch is exact: batches are read back, what is read is a batch of the
store, and no accepted code is the beginning of another one. -/
theorem change_batches_exact (serde : Serde TupleEnvelope) (storeId : StoreId) :
    (∀ changes payload, (∀ change ∈ changes, change.storeId = storeId ∧
        1000000 ∣ change.timestamp ∧
        decodeTuple serde (encodeTuple serde change.tuple) = .ok change.tuple) →
      encodeChanges serde changes = .ok payload →
        decodeChanges serde storeId payload = .ok changes) ∧
    (∀ payload changes, decodeChanges serde storeId payload = .ok changes → changes ≠ [] ∧
      (∀ change ∈ changes, change.storeId = storeId) ∧
        changes.Pairwise fun first second => first.id < second.id) ∧
    ∀ payload more changes changes', decodeChanges serde storeId payload = .ok changes →
      decodeChanges serde storeId (payload ++ more) = .ok changes' → more = [] := by
  refine ⟨?_, ?_, ?_⟩
  · intro changes payload fits encoded
    have decoded := decodeChanges_encodeChanges (fun change member => (fits change member).1)
      (fun change member => (fits change member).2.2) encoded
    have kept : ∀ change ∈ changes, recorded change = change := by
      intro change member
      rw [recorded, Int.ediv_mul_cancel (fits change member).2.1]
    rw [decoded, map_congr_left kept, map_id']
  · intro payload changes accepted
    obtain ⟨-, nonempty, ordered, count, after, -, listed⟩ := decodeChanges_eq_ok accepted
    exact ⟨nonempty, (decodeChangeList_more listed []).2, outOfOrder_eq_false.mp ordered⟩
  · intro payload more changes changes' accepted extended
    obtain ⟨long, -, -, count, after, counted, listed⟩ := decodeChanges_eq_ok accepted
    obtain ⟨-, -, -, count', after', counted', listed'⟩ := decodeChanges_eq_ok extended
    rw [drop_append_of_le_length long, takeBytes_more counted more] at counted'
    cases counted'
    rw [(decodeChangeList_more listed more).1] at listed'
    cases listed'
    rfl

end Accepted

/-- The changes of a mutation that writes one document and deletes another. -/
def Sample.changed : List TupleChange :=
  [⟨.fromParts 2 5, store, .write, (record "1").tuple, 2000000⟩,
    ⟨.fromParts 2 6, store, .delete, (record "2").tuple, 2000000⟩]

theorem change_batches_exact_changed : ∃ payload,
    encodeChanges Sample.serde Sample.changed = .ok payload ∧
      decodeChanges Sample.serde Sample.store payload = .ok Sample.changed := by
  have encodes : (encodeChanges Sample.serde Sample.changed).toOption.isSome = true := by
    decide +kernel
  obtain ⟨payload, written⟩ := Option.isSome_iff_exists.mp encodes
  rw [toOption_eq_some] at written
  refine ⟨payload, written, (change_batches_exact Sample.serde Sample.store).1 _ _ ?_ written⟩
  decide +kernel

end OpenFga.Dynamo
