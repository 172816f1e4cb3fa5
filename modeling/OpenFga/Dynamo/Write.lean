import OpenFga.Dynamo.ChangeBatch
import OpenFga.Dynamo.Exact
import OpenFga.Lib.Transaction
import OpenFga.Storage.Mutation

/-!
# Writing tuples

A writer reads both items of every tuple it is asked to change and decides for each of them
what to require and what to do. If something changes, it also reads the last change of the
store, allocates identifiers after it and packs the changes into one item. All of it is one
transaction, which requires everything that was read.
-/

namespace OpenFga.Dynamo

open Utf8 OrderedMap List Function

def Table.get (table : Table) (key : PhysicalKey) : Option Item := (table key.1)[key.2]?

/-- Puts an item under a key, or nothing. -/
def Table.set (table : Table) (key : PhysicalKey) : Option Item → Table
  | some item => update table key.1 ((table key.1).insert key.2 item)
  | none => update table key.1 ((table key.1).erase key.2)

abbrev Action := Transaction.Action PhysicalKey Item

def Table.commit (table : Table) (actions : List Action) : Table :=
  actions.foldl (fun table action => table.set action.key (action.leaves (table.get action.key)))
    table

theorem Table.get_set (table : Table) (key : PhysicalKey) (content : Option Item) :
    (table.set key content).get = update table.get key content := by
  obtain ⟨partition, sort⟩ := key
  funext other
  obtain ⟨partition', sort'⟩ := other
  by_cases same : partition' = partition
  · subst same
    by_cases here : sort' = sort
    · subst here
      rw [update_self]
      cases content with
      | none | some => simp [get, set]
    · rw [update_of_ne (by simpa using here)]
      cases content with
      | none =>
        simp only [get, set, update_self]
        exact getElem?_erase_of_ne (Ne.symm here)
      | some item =>
        simp only [get, set, update_self]
        exact getElem?_insert_of_ne (Ne.symm here)
  · rw [update_of_ne fun equal => same (congrArg Prod.fst equal)]
    cases content with
    | none | some => simp only [get, set, update_of_ne same]

theorem Table.get_commit (table : Table) (actions : List Action) :
    (table.commit actions).get = Transaction.commit table.get actions := by
  induction actions generalizing table with
  | nil => rfl
  | cons action actions ih =>
    rw [commit, foldl_cons, ← commit, ih, get_set]
    rfl

def hasDigest (digest : Bytes) : Option Item → Bool
  | some (.tuple _ held _) => decide (held = digest)
  | _ => false

/-- The head of the changes names the change, or none. -/
def lastChangeIs (previous : Option ChangeId) : Option Item → Bool
  | some (.changeHead held) => decide (previous = some held)
  | _ => previous.isNone

def conditionAbsent (key : PhysicalKey) : Action := ⟨key, Option.isNone, id⟩

def conditionDigest (key : PhysicalKey) (digest : Bytes) : Action := ⟨key, hasDigest digest, id⟩

def deleteAction (key : PhysicalKey) (digest : Bytes) : Action :=
  ⟨key, hasDigest digest, fun _ => none⟩

/-- Puts an item where none is. -/
def putAction (key : PhysicalKey) (item : Item) : Action := ⟨key, Option.isNone, fun _ => some item⟩

def headKey (storeId : StoreId) : PhysicalKey := (.changeHead storeId, bytesOf "head")

def updateHeadAction (storeId : StoreId) (previous : Option ChangeId) (next : ChangeId) : Action :=
  ⟨headKey storeId, lastChangeIs previous, fun _ => some (.changeHead next)⟩

section Plans

variable (serde : Serde TupleEnvelope) (sha256 : Bytes → Bytes)

/-- What a writer does about one tuple. -/
structure PairPlan where
  actions : List Action
  change : Option (ChangeOperation × RelationshipTuple)

/-- The items that a writer or a reader has found. -/
abbrev States := PhysicalKey → Option Item

def planDelete (states : States) (storeId : StoreId) (options : TupleWriteOptions)
    (key : TupleKey) : Except StorageError PairPlan := do
  let keys ← tupleKeys sha256 storeId key
  let state ← validatePair serde sha256 (states keys.forward) (states keys.reverse) key
  match state with
  | .missing =>
      match options.onMissingDelete with
      | .ignore => .ok ⟨[conditionAbsent keys.forward, conditionAbsent keys.reverse], none⟩
      | .error => .error ⟨.conflict, "tuple_delete_missing", some key⟩
  | .present digest tuple =>
      .ok ⟨[deleteAction keys.forward digest, deleteAction keys.reverse digest],
        some (.delete, tuple)⟩

def planWrite (states : States) (storeId : StoreId) (options : TupleWriteOptions)
    (timestamp : SystemTime) (tuple : RelationshipTuple) : Except StorageError PairPlan := do
  let keys ← tupleKeys sha256 storeId tuple.key
  let state ← validatePair serde sha256 (states keys.forward) (states keys.reverse) tuple.key
  let millis ← epochMillis timestamp
  match state with
  | .missing =>
      let item := TupleRecord.item serde sha256 ⟨tuple, millis⟩
      .ok ⟨[putAction keys.forward item, putAction keys.reverse item], some (.write, tuple)⟩
  | .present digest _ =>
      if options.onDuplicateWrite = .ignore ∧ digest = sha256 (encodeTuple serde tuple) then
        .ok ⟨[conditionDigest keys.forward digest, conditionDigest keys.reverse digest], none⟩
      else .error ⟨.conflict, "tuple_write_duplicate", some tuple.key⟩

/-- The plans for the deletes and then for the writes, up to the first that fails. -/
def planMutation (states : States) (timestamp : SystemTime) (mutation : Mutation) :
    Except StorageError (List PairPlan) := do
  let deletes ← mutation.deletes.mapM
    (planDelete serde sha256 states mutation.storeId mutation.options)
  let writes ← mutation.writes.mapM
    (planWrite serde sha256 states mutation.storeId mutation.options timestamp)
  .ok (deletes ++ writes)

def plannedActions (plans : List PairPlan) : List Action := plans.flatMap PairPlan.actions

def plannedChanges (plans : List PairPlan) : List (ChangeOperation × RelationshipTuple) :=
  plans.filterMap PairPlan.change

end Plans

/-- The next identifier with the same timestamp. -/
def increment (id : ChangeId) : Except StorageError ChangeId :=
  if full : id.value % 2 ^ 80 = 2 ^ 80 - 1 then .error (exhausted "dynamodb_change_id_exhausted")
  else .ok ⟨id.value + 1, by have bounded := id.bounded; omega⟩

/-- Identifiers in a row, from a first one on. -/
def consecutive (candidate : ChangeId) : Nat → Except StorageError (List ChangeId)
  | 0 => .ok [candidate]
  | more + 1 => do
      let next ← increment candidate
      let rest ← consecutive next more
      .ok (candidate :: rest)

def firstChangeId (previous : Option ChangeId) (candidate : ChangeId) :
    Except StorageError ChangeId :=
  match previous with
  | some previous => if candidate ≤ previous then increment previous else .ok candidate
  | none => .ok candidate

def allocateChangeIds (previous : Option ChangeId) (now : SystemTime) (random count : Nat) :
    Except StorageError (List ChangeId) := do
  let millis ← epochMillis now
  let first ← firstChangeId previous (.fromParts millis.toNat random)
  match count with
  | 0 => .ok []
  | more + 1 => consecutive first more

section Transactions

variable (serde : Serde TupleEnvelope) (sha256 : Bytes → Bytes)

/-- Where the changes up to an identifier are packed. -/
def changeKey (storeId : StoreId) (id : ChangeId) : PhysicalKey :=
  (changePartition sha256 storeId (bytesOf id.text), bytesOf id.text)

/-- The change that the head of a store names. -/
def previousChange : Option Item → Except StorageError (Option ChangeId)
  | none => .ok none
  | some (.changeHead lastChange) => .ok (some lastChange)
  | some _ => .error (integrity "dynamodb_string_attribute_invalid")

/-- The changes of a mutation with their identifiers. -/
def identified (storeId : StoreId) (timestamp : SystemTime)
    (changes : List (ChangeOperation × RelationshipTuple)) (ids : List ChangeId) :
    List TupleChange :=
  (changes.zip ids).map fun change => ⟨change.2, storeId, change.1.1, change.1.2, timestamp⟩

/-- The transaction of a mutation that changes something, and its changes. -/
def changeTransaction (storeId : StoreId) (timestamp : SystemTime) (plans : List PairPlan)
    (head : Option Item) (now : SystemTime) (random : Nat) :
    Except StorageError (List Action × List TupleChange) := do
  let previous ← previousChange head
  let ids ← allocateChangeIds previous now random (plannedChanges plans).length
  let committed := identified storeId timestamp (plannedChanges plans) ids
  let last ← orError ids.getLast? (.new .internal "dynamodb_change_id_missing")
  let payload ← encodeChanges serde committed
  let millis ← epochMillis timestamp
  .ok (plannedActions plans ++ [updateHeadAction storeId previous last,
    putAction (changeKey sha256 storeId last) (.change payload millis)], committed)

end Transactions

section Locations

variable {sha256 : Bytes → Bytes} {storeId storeId' : StoreId} {key key' : TupleKey}

/-- Where the items of a tuple are. -/
def locations (sha256 : Bytes → Bytes) (storeId : StoreId) (key : TupleKey) : TupleKeys :=
  ⟨forwardObjectPartition sha256 storeId key.object, forwardKey key,
    reversePartition sha256 storeId key.subject, reverseKey key⟩

theorem tupleKeys_eq (canonical : key.Canonical) :
    tupleKeys sha256 storeId key = .ok (locations sha256 storeId key) := by
  rw [tupleKeys, encodeForward_eq canonical, encodeReverse_eq canonical]
  rfl

theorem forward_inj (canonical : key.Canonical) (canonical' : key'.Canonical)
    (same : (locations sha256 storeId key).forward = (locations sha256 storeId' key').forward) :
    storeId = storeId' ∧ key = key' := by
  have keys : forwardKey key = forwardKey key' := congrArg Prod.snd same
  exact ⟨(Partition.forward.inj (congrArg Prod.fst same)).1,
    forwardKey_keeps.splitsOff.injOn canonical canonical' keys⟩

theorem reverse_inj (canonical : key.Canonical) (canonical' : key'.Canonical)
    (same : (locations sha256 storeId key).reverse = (locations sha256 storeId' key').reverse) :
    storeId = storeId' ∧ key = key' := by
  have keys : reverseKey key = reverseKey key' := congrArg Prod.snd same
  exact ⟨(Partition.reverse.inj (congrArg Prod.fst same)).1,
    reverseKey_inj canonical canonical' keys⟩

theorem forward_ne_reverse :
    (locations sha256 storeId key).forward ≠ (locations sha256 storeId' key').reverse := by
  intro same
  cases congrArg Prod.fst same

/-- The items of distinct tuples are at distinct places. -/
theorem places_nodup (sha256 : Bytes → Bytes) (storeId : StoreId) {keys : List TupleKey}
    (canonical : ∀ key ∈ keys, key.Canonical) (distinct : keys.Nodup) :
    (keys.flatMap fun key => [(locations sha256 storeId key).forward,
      (locations sha256 storeId key).reverse]).Nodup := by
  refine nodup_flatMap.mpr ⟨fun key _ => ?_, ?_⟩
  · exact nodup_cons.mpr ⟨by simpa using forward_ne_reverse, nodup_singleton _⟩
  · refine List.Pairwise.imp_of_mem ?_ distinct
    intro key other member member' apart place here there
    have own := canonical key member
    have own' := canonical other member'
    rcases mem_pair.mp here with rfl | rfl
    · rcases mem_pair.mp there with same | same
      · exact apart (forward_inj own own' same).2
      · exact forward_ne_reverse same
    · rcases mem_pair.mp there with same | same
      · exact forward_ne_reverse same.symm
      · exact apart (reverse_inj own own' same).2

end Locations

section PlanSpecification

variable {serde : Serde TupleEnvelope} {sha256 : Bytes → Bytes}
  {admits : RelationshipTuple → Prop} {states : States} {storeId : StoreId}
  {options : TupleWriteOptions} {timestamp : SystemTime} {key : TupleKey} {plan : PairPlan}

/-- Whatever an admitted tuple is read as is admitted too. -/
def ReadsWithin (serde : Serde TupleEnvelope) (admits : RelationshipTuple → Prop) : Prop :=
  ∀ tuple read, admits tuple → decodeTuple serde (encodeTuple serde tuple) = .ok read → admits read

/-- Tuples that are read back are read as themselves. -/
theorem readsWithin_readsBack : ReadsWithin serde (RelationshipTuple.ReadsBack serde) := by
  intro tuple read back decoded
  cases back.symm.trans decoded
  exact back

/-- The tuple items are those of admitted tuples. -/
def KeepsRecords (serde : Serde TupleEnvelope) (sha256 : Bytes → Bytes)
    (admits : RelationshipTuple → Prop) (states : States) : Prop :=
  ∀ place payload digest written, states place = some (.tuple payload digest written) →
    ∃ record : TupleRecord, record.item serde sha256 = .tuple payload digest written ∧
      admits record.tuple

/-- What a plan for a tuple can be. -/
inductive Plans (serde : Serde TupleEnvelope) (sha256 : Bytes → Bytes)
    (admits : RelationshipTuple → Prop) (storeId : StoreId) (timestamp : SystemTime)
    (key : TupleKey) : PairPlan → Prop where
  | checks (test : Option Item → Bool) :
      Plans serde sha256 admits storeId timestamp key
        ⟨[⟨(locations sha256 storeId key).forward, test, id⟩,
          ⟨(locations sha256 storeId key).reverse, test, id⟩], none⟩
  | deletes (digest : Bytes) (tuple : RelationshipTuple) (same : tuple.key = key)
      (admitted : admits tuple) :
      Plans serde sha256 admits storeId timestamp key
        ⟨[deleteAction (locations sha256 storeId key).forward digest,
          deleteAction (locations sha256 storeId key).reverse digest], some (.delete, tuple)⟩
  | puts (record : TupleRecord) (same : record.tuple.key = key) (admitted : admits record.tuple)
      (moment : epochMillis timestamp = .ok record.timestamp) :
      Plans serde sha256 admits storeId timestamp key
        ⟨[putAction (locations sha256 storeId key).forward (record.item serde sha256),
          putAction (locations sha256 storeId key).reverse (record.item serde sha256)],
          some (.write, record.tuple)⟩

/-- The tuple of a pair is that of the item under the object. -/
theorem validatePair_present {forward reverse : Option Item} {digest : Bytes}
    {tuple : RelationshipTuple}
    (valid : validatePair serde sha256 forward reverse key = .ok (.present digest tuple)) :
    ∃ item stored, forward = some item ∧ decodeStoredTuple serde sha256 item = .ok stored ∧
      stored.tuple = tuple ∧ tuple.key = key := by
  match forward, reverse, valid with
  | some left, some right, valid =>
    obtain ⟨stored, identity, valid⟩ := bind_eq_ok.mp valid
    obtain ⟨_, -, valid⟩ := bind_eq_ok.mp valid
    obtain ⟨leftDigest, -, valid⟩ := bind_eq_ok.mp valid
    obtain ⟨_, -, valid⟩ := bind_eq_ok.mp valid
    obtain ⟨_, -, valid⟩ := bind_eq_ok.mp valid
    obtain ⟨_, -, valid⟩ := bind_eq_ok.mp valid
    obtain ⟨-, valid⟩ := guard_eq_ok.mp valid
    cases valid
    obtain ⟨_, decoded, identity⟩ := bind_eq_ok.mp identity
    obtain ⟨same, identity⟩ := require_eq_ok.mp identity
    cases identity
    exact ⟨left, stored, rfl, decoded, rfl, same⟩

/-- A decoded tuple is admitted if the items are those of admitted tuples. -/
theorem KeepsRecords.admits_of_decoded (within : ReadsWithin serde admits)
    (kept : KeepsRecords serde sha256 admits states) {place : PhysicalKey} {item : Item}
    {stored : StoredTuple} (found : states place = some item)
    (decoded : decodeStoredTuple serde sha256 item = .ok stored) : admits stored.tuple := by
  cases item with
  | tuple payload digest written =>
    obtain ⟨record, same, admitted⟩ := kept place payload digest written found
    rw [← same] at decoded
    exact within _ _ admitted (decodeTuple_of_item decoded)
  | change | changeHead => cases decoded

theorem planDelete_plans (within : ReadsWithin serde admits)
    (kept : KeepsRecords serde sha256 admits states) (canonical : key.Canonical)
    (planned : planDelete serde sha256 states storeId options key = .ok plan) :
    Plans serde sha256 admits storeId timestamp key plan := by
  obtain ⟨keys, located, planned⟩ := bind_eq_ok.mp planned
  rw [tupleKeys_eq canonical] at located
  cases located
  obtain ⟨state, valid, planned⟩ := bind_eq_ok.mp planned
  cases state with
  | missing =>
    simp only at planned
    split at planned
    · cases planned
      exact .checks Option.isNone
    · cases planned
  | present digest tuple =>
    cases planned
    obtain ⟨item, stored, found, decoded, rfl, same⟩ := validatePair_present valid
    exact .deletes digest stored.tuple same (kept.admits_of_decoded within found decoded)

theorem planWrite_plans {tuple : RelationshipTuple} (canonical : tuple.key.Canonical)
    (admitted : admits tuple)
    (planned : planWrite serde sha256 states storeId options timestamp tuple = .ok plan) :
    Plans serde sha256 admits storeId timestamp tuple.key plan := by
  obtain ⟨keys, located, planned⟩ := bind_eq_ok.mp planned
  rw [tupleKeys_eq canonical] at located
  cases located
  obtain ⟨state, -, planned⟩ := bind_eq_ok.mp planned
  obtain ⟨millis, moment, planned⟩ := bind_eq_ok.mp planned
  cases state with
  | missing =>
    cases planned
    exact .puts ⟨tuple, millis⟩ rfl admitted moment
  | present digest stored =>
    obtain ⟨-, planned⟩ := require_eq_ok.mp planned
    cases planned
    exact .checks (hasDigest digest)

theorem planMutation_plans {mutation : Mutation} {plans : List PairPlan}
    (within : ReadsWithin serde admits) (kept : KeepsRecords serde sha256 admits states)
    (admitted : ∀ tuple ∈ mutation.writes, admits tuple)
    (planned : planMutation serde sha256 states timestamp mutation = .ok plans) :
    List.Forall₂ (Plans serde sha256 admits mutation.storeId timestamp) mutation.keys plans := by
  obtain ⟨deletes, first, planned⟩ := bind_eq_ok.mp planned
  obtain ⟨writes, second, planned⟩ := bind_eq_ok.mp planned
  cases planned
  refine rel_append ?_ ?_
  · refine ((forall₂_and_left _ _).mpr ⟨mutation.canonical, forall₂_of_mapM first⟩).imp ?_
    intro key plan planned
    exact planDelete_plans within kept planned.1 planned.2
  · refine forall₂_map_left_iff.mpr ?_
    have sound : ∀ tuple ∈ mutation.writes, tuple.key.Canonical ∧ admits tuple :=
      fun tuple member => ⟨mutation.written tuple member, admitted tuple member⟩
    refine ((forall₂_and_left _ _).mpr ⟨sound, forall₂_of_mapM second⟩).imp ?_
    intro tuple plan planned
    exact planWrite_plans planned.1.1 planned.1.2 planned.2

end PlanSpecification

section AllocationSpecification

variable {candidate next : ChangeId} {ids : List ChangeId}

theorem increment_lt (given : increment candidate = .ok next) : candidate < next := by
  unfold increment at given
  split at given
  · cases given
  · cases given
    exact Nat.lt_succ_self candidate.value

theorem consecutive_spec {more : Nat} (given : consecutive candidate more = .ok ids) :
    ids.length = more + 1 ∧ ids.Pairwise (· < ·) ∧ ∀ id ∈ ids, candidate ≤ id := by
  induction more generalizing candidate ids with
  | zero =>
    cases given
    exact ⟨rfl, pairwise_singleton _ _, by simp⟩
  | succ more ih =>
    obtain ⟨next, further, given⟩ := bind_eq_ok.mp given
    obtain ⟨rest, later, given⟩ := bind_eq_ok.mp given
    cases given
    obtain ⟨length, increasing, above⟩ := ih later
    have beyond : ∀ id ∈ rest, candidate < id :=
      fun id member => (increment_lt further).trans_le (above id member)
    refine ⟨by rw [length_cons, length], pairwise_cons.mpr ⟨beyond, increasing⟩, ?_⟩
    exact forall_mem_cons.mpr ⟨le_rfl, fun id member => (beyond id member).le⟩

theorem firstChangeId_above {previous : Option ChangeId} {first : ChangeId}
    (given : firstChangeId previous candidate = .ok first) : ∀ id ∈ previous, id < first := by
  cases previous with
  | none => simp
  | some previous =>
    rintro _ ⟨⟩
    unfold firstChangeId at given
    simp only at given
    split at given
    · exact increment_lt given
    · rename_i beyond
      cases given
      exact not_le.mp beyond

/-- Allocated identifiers increase, after the previous one. -/
theorem allocateChangeIds_spec {previous : Option ChangeId} {now : SystemTime}
    {random count : Nat} (given : allocateChangeIds previous now random count = .ok ids) :
    ids.length = count ∧ ids.Pairwise (· < ·) ∧ ∀ id ∈ ids, ∀ last ∈ previous, last < id := by
  obtain ⟨millis, -, given⟩ := bind_eq_ok.mp given
  obtain ⟨first, start, given⟩ := bind_eq_ok.mp given
  cases count with
  | zero =>
    cases given
    exact ⟨rfl, .nil, forall_mem_nil _⟩
  | succ more =>
    obtain ⟨length, increasing, above⟩ := consecutive_spec given
    refine ⟨length, increasing, fun id member last before => ?_⟩
    exact (firstChangeId_above start last before).trans_le (above id member)

end AllocationSpecification

/-- Checks a mutation and brings it into the order of its keys. -/
def validateMutation (maximum : Nat) (mutation : Mutation) : Except StorageError DistinctMutation :=
  if maximum < mutation.deletes.length + mutation.writes.length then
    .error (exhausted "dynamodb_mutation_limit")
  else if distinct : mutation.Distinct then .ok ⟨mutation.sorted, distinct.sorted⟩
  else .error (.new .conflict "dynamodb_mutation_duplicate_key")

end OpenFga.Dynamo
