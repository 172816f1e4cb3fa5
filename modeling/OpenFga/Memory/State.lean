import OpenFga.Lib.Machine
import OpenFga.Lib.Paging
import OpenFga.Lib.SecondaryIndex
import OpenFga.Storage.Types

/-!
# The memory backend

One actor owns ordered maps of stores, tuples, models, assertions and changes, and three
secondary indexes of the tuples. An operation runs in one turn of the actor, so the
operations of all callers are one sequence.

A mutation of tuples first reads and prepares everything that can fail, then changes the
maps. Between its stages it can be told to fail by an injected fault, by the caller's
cancellation or deadline, or by the clock; `Surroundings` gives these answers.
-/

namespace OpenFga.Memory

open Std SecondaryIndex Paging

abbrev RecordKey := StoreId ×ₗ TupleKey

/-- A store, an object and a relation. -/
abbrev ForwardKey := StoreId ×ₗ (String ×ₗ String) ×ₗ String

/-- A store, a subject, an object type and a relation. -/
abbrev ReverseKey := StoreId ×ₗ (Nat ×ₗ (String ×ₗ String) ×ₗ String) ×ₗ String ×ₗ String

abbrev ModelKey := StoreId ×ₗ AuthorizationModelId

def recordKey (storeId : StoreId) (key : TupleKey) : RecordKey := toLex (storeId, key)

/-- The object and the relation, by their texts. -/
def forwardKey (storeId : StoreId) (object : ObjectRef) (relation : RelationName) : ForwardKey :=
  toLex (storeId, toLex (object.fields, relation.text))

/-- The subject, the object's type and the relation, by their texts. -/
def reverseKey (storeId : StoreId) (subject : SubjectRef) (objectType : TypeName)
    (relation : RelationName) : ReverseKey :=
  toLex (storeId, toLex (subject.fields, toLex (objectType.text, relation.text)))

def modelKey (storeId : StoreId) (modelId : AuthorizationModelId) : ModelKey :=
  toLex (storeId, modelId)

def changeKey (storeId : StoreId) (id : ChangeId) : StoreId ×ₗ ChangeId := toLex (storeId, id)

instance : TransOrd StoreId := inferInstance

instance : TransOrd RecordKey := inferInstance

instance : TransOrd ModelKey := inferInstance

instance : TransOrd (StoreId ×ₗ ChangeId) := inferInstance

/-- The parts of the last change identifier. -/
structure ChangeIdAllocator where
  lastTimestampMs : Nat
  lastRandom : Nat
  initialized : Bool

/-- The records of the backend and their indexes. -/
structure MemoryState where
  limits : InputLimits
  stores : ExtTreeMap StoreId StoreRecord
  tuples : ExtTreeMap RecordKey StoredTuple
  forward : ExtTreeMap ForwardKey (ExtTreeSet TupleKey)
  reverse : ExtTreeMap ReverseKey (ExtTreeSet TupleKey)
  usersets : ExtTreeMap ForwardKey (ExtTreeSet TupleKey)
  models : ExtTreeMap ModelKey StoredAuthorizationModel
  modelIds : ExtTreeMap StoreId (ExtTreeSet AuthorizationModelId)
  assertions : ExtTreeMap ModelKey (List Assertion)
  changes : ExtTreeMap (StoreId ×ₗ ChangeId) TupleChange
  changeIds : ChangeIdAllocator

def MemoryState.new (limits : InputLimits) : MemoryState where
  limits := limits
  stores := ∅
  tuples := ∅
  forward := ∅
  reverse := ∅
  usersets := ∅
  models := ∅
  modelIds := ∅
  assertions := ∅
  changes := ∅
  changeIds := ⟨0, 0, false⟩

/-- Where a mutation may be made to fail. -/
inductive MutationFaultStage where
  | validated
  | deletesPrepared
  | writesPrepared
  | changesPrepared
  deriving DecidableEq, Repr

/-- What one operation meets: the faults injected at the stages of a mutation, the checks
of the caller's cancellation and deadline that follow them, and the clock. -/
structure Surroundings where
  fault : MutationFaultStage → Except StorageError Unit
  check : MutationFaultStage → Except StorageError Unit
  now : Except StorageError SystemTime

def maximumUlidTimestamp : Nat := 2 ^ 48 - 1

def maximumUlidRandom : Nat := 2 ^ 80 - 1

/-- The timestamp and the random part of the next identifier. -/
def ChangeIdAllocator.advance (allocator : ChangeIdAllocator) (wallMs : Nat) :
    Except StorageError (Nat × Nat) :=
  if allocator.initialized && decide (wallMs ≤ allocator.lastTimestampMs) then
    if allocator.lastRandom = maximumUlidRandom then
      if allocator.lastTimestampMs + 1 < 2 ^ 64 then .ok (allocator.lastTimestampMs + 1, 0)
      else .error (.new .internal "change_id_timestamp_overflow")
    else .ok (allocator.lastTimestampMs, allocator.lastRandom + 1)
  else .ok (wallMs, 0)

def ChangeIdAllocator.next (allocator : ChangeIdAllocator) (timestamp : SystemTime) :
    Except StorageError (ChangeId × ChangeIdAllocator) := do
  if timestamp < 0 then .error (.new .internal "clock_before_epoch")
  else
    let wallMs := timestamp.toNat / 1000000
    if 2 ^ 64 ≤ wallMs then .error (.new .internal "clock_millis_overflow")
    else
      let (nextMs, nextRandom) ← allocator.advance wallMs
      if maximumUlidTimestamp < nextMs then
        .error (.new .internal "change_id_timestamp_out_of_range")
      else .ok (.fromParts nextMs nextRandom, ⟨nextMs, nextRandom, true⟩)

section Reads

variable (s : MemoryState) (storeId : StoreId)

/-- The tuples of the keys that pass, up to the limit. -/
def collectTuples (maximum : Nat) (accepts : RelationshipTuple → Bool) :
    List TupleKey → Nat → Except StorageError (List RelationshipTuple)
  | [], _ => .ok []
  | key :: keys, count => do
      let stored ← orError s.tuples[recordKey storeId key]? (.new .integrity "tuple_index_dangling")
      if accepts stored.tuple then
        if maximum ≤ count then .error (.new .resourceExhausted "tuple_snapshot_result_limit")
        else
          let rest ← collectTuples maximum accepts keys (count + 1)
          .ok (stored.tuple :: rest)
      else collectTuples maximum accepts keys count

def ObjectRelationFilter.accepts (filter : ObjectRelationFilter) (tuple : RelationshipTuple) :
    Bool :=
  (filter.subjects.isEmpty || filter.subjects.contains tuple.key.subject) &&
    filter.conditions.accepts tuple.condition

def readObjectRelation (filter : ObjectRelationFilter) (options : ReadOptions) :
    Except StorageError (List RelationshipTuple) :=
  let keys := bucket s.forward (forwardKey storeId filter.object filter.relation)
  collectTuples s storeId options.maximumResults.get (ObjectRelationFilter.accepts filter)
    keys.toList 0

def usersetMatches (tuple : RelationshipTuple) (allowed : List UsersetRestrictionFilter) : Bool :=
  match tuple.key.subject with
  | .userset userset =>
      allowed.isEmpty || allowed.any fun restriction =>
        restriction.subjectType = userset.object.objectType ∧ restriction.relation =
          userset.relation
  | _ => false

def UsersetTupleFilter.accepts (filter : UsersetTupleFilter) (tuple : RelationshipTuple) : Bool :=
  usersetMatches tuple filter.allowed && filter.conditions.accepts tuple.condition

def readUserset (filter : UsersetTupleFilter) (options : ReadOptions) :
    Except StorageError (List RelationshipTuple) :=
  let keys := bucket s.usersets (forwardKey storeId filter.object filter.relation)
  collectTuples s storeId options.maximumResults.get (UsersetTupleFilter.accepts filter)
    keys.toList 0

def ReverseTupleFilter.accepts (filter : ReverseTupleFilter) (tuple : RelationshipTuple) : Bool :=
  (filter.objectIds.isEmpty || filter.objectIds.contains tuple.key.object.objectId) &&
    filter.conditions.accepts tuple.condition

/-- The keys filed under any of the subjects. -/
def reverseKeys (filter : ReverseTupleFilter) : ExtTreeSet TupleKey :=
  filter.subjects.foldl (fun keys subject =>
    keys.insertMany (bucket s.reverse
      (reverseKey storeId subject filter.objectType filter.relation)).toList) ∅

def readReverse (filter : ReverseTupleFilter) (options : ReadOptions) :
    Except StorageError (List RelationshipTuple) :=
  collectTuples s storeId options.maximumResults.get (ReverseTupleFilter.accepts filter)
    (reverseKeys s storeId filter).toList 0

def requireModel (modelId : AuthorizationModelId) : Except StorageError Unit :=
  if s.models.contains (modelKey storeId modelId) then .ok () else .error .notFound

end Reads

section Pages

variable (s : MemoryState)

/-- The cursor of a page that is followed by another one. -/
def continuationOf (last : Option String) : Except StorageError (Option StorageCursor) :=
  match last with
  | none => .ok none
  | some text => (StorageCursor.new text.toUTF8).map some

/-- The key after which a page starts. -/
def startOf {α ε : Type} (parse : String → Except ε α) (code : String) (options : PageOptions) :
    Except StorageError (Option α) :=
  match options.after with
  | none => .ok none
  | some cursor => (parseCursor parse code cursor).map some

/-- The entries of one store. -/
def ofStore {κ β : Type} (storeId : StoreId) (entries : List ((StoreId ×ₗ κ) × β)) : List (κ × β) :=
  entries.filterMap fun entry =>
    if (ofLex entry.1).1 = storeId then some ((ofLex entry.1).2, entry.2) else none

def readTuples (storeId : StoreId) (filter : TupleReadFilter) (options : PageOptions) :
    Except StorageError (Page StoredTuple) := do
  let after ← startOf (fun text => TupleKey.parseWithLimits text .standard) "tuple_cursor" options
  let candidates := (ofStore storeId s.tuples.toList).filter fun entry =>
    after.all (fun cursor => decide (cursor < entry.1)) && filter.accepts entry.1
  let (items, last) := boundedPage candidates options.maximumResults
  let continuation ← continuationOf (last.map fun entry => entry.1.display)
  .ok ⟨items.map Prod.snd, continuation⟩

def listModels (storeId : StoreId) (options : PageOptions) :
    Except StorageError (Page StoredAuthorizationModel) := do
  let after ← startOf AuthorizationModelId.parse "model_cursor" options
  let ids := (bucket s.modelIds storeId).toList.reverse.filter fun id =>
    after.all fun cursor => decide (id < cursor)
  let (ids, last) := boundedPage ids options.maximumResults
  let models ← ids.mapM fun id =>
    orError s.models[modelKey storeId id]? (.new .integrity "model_index_dangling")
  let continuation ← continuationOf (last.map AuthorizationModelId.text)
  .ok ⟨models, continuation⟩

def listStores (filter : StoreFilter) (options : PageOptions) :
    Except StorageError (Page StoreRecord) := do
  let after ← startOf StoreId.parse "store_cursor" options
  let ids := s.stores.keys.filter fun id =>
    after.all (fun cursor => decide (cursor < id)) &&
      filter.name.all fun name => s.stores[id]?.any fun store => store.name = name
  let (ids, last) := boundedPage ids options.maximumResults
  let stores ← ids.mapM fun id =>
    orError s.stores[id]? (.new .integrity "store_index_dangling")
  let continuation ← continuationOf (last.map StoreId.text)
  .ok ⟨stores, continuation⟩

def readChanges (storeId : StoreId) (filter : ChangeFilter) (options : PageOptions) :
    Except StorageError (Page TupleChange) := do
  let after ← startOf ChangeId.parse "change_cursor" options
  let changes := ((ofStore storeId s.changes.toList).filter fun entry =>
    after.all fun cursor => decide (cursor < entry.1)).map Prod.snd
  let (changes, last) := boundedPage (changes.filter filter.accepts) options.maximumResults
  let continuation ← continuationOf (last.map fun change => change.id.text)
  .ok ⟨changes, continuation⟩

end Pages

section Mutations

variable (s : MemoryState)

def insertTuple (storeId : StoreId) (stored : StoredTuple) : MemoryState :=
  let key := stored.tuple.key
  let place := forwardKey storeId key.object key.relation
  { s with
    forward := insertKey s.forward place key
    usersets := match key.subject with
      | .userset _ => insertKey s.usersets place key
      | _ => s.usersets
    reverse := insertKey s.reverse
      (reverseKey storeId key.subject key.object.objectType key.relation) key
    tuples := s.tuples.insert (recordKey storeId key) stored }

def removeTuple (storeId : StoreId) (key : TupleKey) : MemoryState :=
  let place := forwardKey storeId key.object key.relation
  { s with
    tuples := s.tuples.erase (recordKey storeId key)
    forward := removeKey s.forward place key
    usersets := match key.subject with
      | .userset _ => removeKey s.usersets place key
      | _ => s.usersets
    reverse := removeKey s.reverse
      (reverseKey storeId key.subject key.object.objectType key.relation) key }

def uniqueDeleteKeys (deletes : List TupleKey) : Except StorageError (ExtTreeSet TupleKey) :=
  let keys := ExtTreeSet.ofList deletes
  if keys.size ≠ deletes.length then .error (.new .conflict "duplicate_tuple_delete_input")
  else .ok keys

def uniqueWriteTuples (writes : List RelationshipTuple) :
    Except StorageError (ExtTreeMap TupleKey RelationshipTuple) :=
  let tuples := ExtTreeMap.ofList (writes.map fun tuple => (tuple.key, tuple))
  if tuples.size ≠ writes.length then .error (.new .conflict "duplicate_tuple_write_input")
  else .ok tuples

/-- The conflicts of a mutation with what is stored, in the order of the request. -/
def validatePersistedConflicts (storeId : StoreId) (deletes writes : List TupleKey)
    (requested : ExtTreeMap TupleKey RelationshipTuple) (options : TupleWriteOptions) :
    Except StorageError Unit :=
  let missing := deletes.find? fun key => !s.tuples.contains (recordKey storeId key)
  let present := writes.find? fun key => s.tuples.contains (recordKey storeId key)
  let differing := writes.find? fun key =>
    s.tuples[recordKey storeId key]?.any fun stored =>
      requested[key]?.any fun tuple => stored.tuple ≠ tuple
  match options.onMissingDelete, missing with
  | .error, some key => .error ⟨.conflict, "missing_tuple_delete", some key⟩
  | .error, none | .ignore, _ =>
      match options.onDuplicateWrite, present, differing with
      | .error, some key, _ => .error ⟨.conflict, "duplicate_tuple_write", some key⟩
      | .ignore, _, some key => .error ⟨.conflict, "tuple_condition_conflict", some key⟩
      | _, _, _ => .ok ()

/-- One change for each tuple, with consecutive identifiers. -/
def allocateChanges (storeId : StoreId) (operation : ChangeOperation) (timestamp : SystemTime) :
    List RelationshipTuple → ChangeIdAllocator →
      Except StorageError (List TupleChange × ChangeIdAllocator)
  | [], allocator => .ok ([], allocator)
  | tuple :: tuples, allocator => do
      let (id, allocator) ← allocator.next timestamp
      let (changes, allocator) ← allocateChanges storeId operation timestamp tuples allocator
      .ok (⟨id, storeId, operation, tuple, timestamp⟩ :: changes, allocator)

/-- Deletes and writes, applied together. -/
structure TupleMutation where
  storeId : StoreId
  deletes : List TupleKey
  writes : List RelationshipTuple
  options : TupleWriteOptions
  canonical : ∀ tuple ∈ writes, tuple.key.Canonical

/-- What a mutation is about to do. -/
structure PreparedMutation where
  deletes : List RelationshipTuple
  writes : List RelationshipTuple
  timestamp : SystemTime
  changes : List TupleChange
  allocator : ChangeIdAllocator

/-- Everything a mutation does before it changes the maps. Without an effective operation
there is nothing to prepare. -/
def prepareMutation (around : Surroundings) (mutation : TupleMutation) :
    Except StorageError (Option PreparedMutation) := do
  let storeId := mutation.storeId
  if s.limits.writeTuples.get < mutation.deletes.length + mutation.writes.length then
    .error (.new .resourceExhausted "tuple_mutation_item_limit")
  else
    let deleteKeys ← uniqueDeleteKeys mutation.deletes
    let writeTuples ← uniqueWriteTuples mutation.writes
    if deleteKeys.toList.any fun key => writeTuples.contains key then
      .error (.new .conflict "tuple_in_delete_and_write")
    else
      around.fault .validated
      around.check .validated
      validatePersistedConflicts s storeId mutation.deletes
        (mutation.writes.map RelationshipTuple.key) writeTuples mutation.options
      let deletes := deleteKeys.toList.filterMap fun key =>
        s.tuples[recordKey storeId key]?.map StoredTuple.tuple
      around.fault .deletesPrepared
      around.check .deletesPrepared
      let writes := (writeTuples.toList.filter fun entry =>
        !s.tuples.contains (recordKey storeId entry.1)).map Prod.snd
      around.fault .writesPrepared
      around.check .writesPrepared
      if deletes.isEmpty && writes.isEmpty then .ok none
      else
        let timestamp ← around.now
        let (deleted, allocator) ← allocateChanges storeId .delete timestamp deletes s.changeIds
        let (written, allocator) ← allocateChanges storeId .write timestamp writes allocator
        around.fault .changesPrepared
        around.check .changesPrepared
        .ok (some ⟨deletes, writes, timestamp, deleted ++ written, allocator⟩)

def removeTuples (storeId : StoreId) (tuples : List RelationshipTuple) : MemoryState :=
  tuples.foldl (fun s tuple => removeTuple s storeId tuple.key) s

def insertTuples (storeId : StoreId) (timestamp : SystemTime) (tuples : List RelationshipTuple) :
    MemoryState :=
  tuples.foldl (fun s tuple => insertTuple s storeId ⟨tuple, timestamp⟩) s

def appendChanges (storeId : StoreId) (changes : List TupleChange) : MemoryState :=
  { s with
    changes := changes.foldl
      (fun changes change => changes.insert (changeKey storeId change.id) change) s.changes }

/-- Changes the maps. -/
def commitMutation (storeId : StoreId) (prepared : PreparedMutation) : MemoryState :=
  let s := removeTuples s storeId prepared.deletes
  let s := insertTuples s storeId prepared.timestamp prepared.writes
  let s := appendChanges s storeId prepared.changes
  { s with changeIds := prepared.allocator }

def writeTuples (around : Surroundings) (mutation : TupleMutation) :
    Except StorageError MutationOutcome × MemoryState :=
  match prepareMutation s around mutation with
  | .error error => (.error error, s)
  | .ok none => (.ok ⟨[]⟩, s)
  | .ok (some prepared) =>
      (.ok ⟨prepared.changes.map TupleChange.id⟩, commitMutation s mutation.storeId prepared)

def writeModel (model : StoredAuthorizationModel) : Except StorageError Unit × MemoryState :=
  match s.models[modelKey model.storeId model.modelId]? with
  | some existing =>
      let kind : StorageErrorKind :=
        if existing.fingerprint = model.fingerprint then .alreadyExists else .integrity
      (.error (.new kind "authorization_model_id_collision"), s)
  | none =>
      (.ok (), { s with
        models := s.models.insert (modelKey model.storeId model.modelId) model
        modelIds := insertKey s.modelIds model.storeId model.modelId })

def createStore (around : Surroundings) (storeId : StoreId) (name : StoreName) :
    Except StorageError StoreRecord × MemoryState :=
  if s.stores.contains storeId then (.error (.new .alreadyExists "store_id_collision"), s)
  else
    match around.now with
    | .error error => (.error error, s)
    | .ok timestamp =>
        let record := StoreRecord.new storeId name timestamp
        (.ok record, { s with stores := s.stores.insert storeId record })

def renameStore (around : Surroundings) (storeId : StoreId) (name : StoreName) :
    Except StorageError StoreRecord × MemoryState :=
  match around.now with
  | .error error => (.error error, s)
  | .ok timestamp =>
      match s.stores[storeId]? with
      | none => (.error .notFound, s)
      | some existing =>
          let record := existing.renamed name timestamp
          (.ok record, { s with stores := s.stores.insert storeId record })

def deleteStore (storeId : StoreId) : MemoryState :=
  { s with stores := s.stores.erase storeId }

def writeAssertions (storeId : StoreId) (modelId : AuthorizationModelId)
    (assertions : List Assertion) : Except StorageError Unit × MemoryState :=
  match requireModel s storeId modelId with
  | .error error => (.error error, s)
  | .ok _ =>
      if s.limits.assertions.get < assertions.length then
        (.error (.new .resourceExhausted "assertion_item_limit"), s)
      else
        (.ok (), { s with
          assertions := s.assertions.insert (modelKey storeId modelId) assertions })

end Mutations

section Operations

/-- An operation that reaches the state. Identifiers were made of numbers. -/
inductive Operation where
  | writeTuples (mutation : TupleMutation)
  | writeModel (model : StoredAuthorizationModel) (canonical : model.modelId.Canonical)
  | createStore (storeId : StoreId) (name : StoreName) (canonical : storeId.Canonical)
  | renameStore (storeId : StoreId) (name : StoreName)
  | deleteStore (storeId : StoreId)
  | writeAssertions (storeId : StoreId) (modelId : AuthorizationModelId)
      (assertions : List Assertion)
  | read

/-- One turn of the actor. A caller that has been cancelled, or whose deadline has passed, is
refused before its operation is looked at. -/
def turn (s : MemoryState) : Operation × Surroundings × Except StorageError Unit → MemoryState
  | (_, _, .error _) => s
  | (operation, around, .ok _) =>
      match operation with
      | .writeTuples mutation => (writeTuples s around mutation).2
      | .writeModel model _ => (writeModel s model).2
      | .createStore storeId name _ => (createStore s around storeId name).2
      | .renameStore storeId name => (renameStore s around storeId name).2
      | .deleteStore storeId => deleteStore s storeId
      | .writeAssertions storeId modelId assertions =>
          (writeAssertions s storeId modelId assertions).2
      | .read => s

/-- An operation, what it meets, and whether it may run. -/
abbrev Event := Operation × Surroundings × Except StorageError Unit

def step (s : MemoryState) (event : Event) : Option MemoryState := some (turn s event)

/-- The states of a backend with some limits. -/
def Reachable (limits : InputLimits) (s : MemoryState) : Prop :=
  Machine.Reaches step (fun _ _ => True) (.new limits) s

/-- What one turn does to the state. -/
inductive Moved (s : MemoryState) : MemoryState → Prop where
  | unchanged : Moved s s
  | mutated {around : Surroundings} {mutation : TupleMutation} {prepared : PreparedMutation}
      (ready : prepareMutation s around mutation = .ok (some prepared)) :
      Moved s (commitMutation s mutation.storeId prepared)
  | modelWritten {model : StoredAuthorizationModel} (canonical : model.modelId.Canonical)
      (absent : s.models[modelKey model.storeId model.modelId]? = none) :
      Moved s { s with
        models := s.models.insert (modelKey model.storeId model.modelId) model
        modelIds := insertKey s.modelIds model.storeId model.modelId }
  | storeCreated {storeId : StoreId} {name : StoreName} {timestamp : SystemTime}
      (canonical : storeId.Canonical) :
      Moved s { s with stores := s.stores.insert storeId (.new storeId name timestamp) }
  | storeRenamed {storeId : StoreId} {name : StoreName} {timestamp : SystemTime}
      {existing : StoreRecord} (present : s.stores[storeId]? = some existing) :
      Moved s { s with stores := s.stores.insert storeId (existing.renamed name timestamp) }
  | storeDeleted {storeId : StoreId} : Moved s { s with stores := s.stores.erase storeId }
  | assertionsWritten {key : ModelKey} {written : List Assertion} :
      Moved s { s with assertions := s.assertions.insert key written }

section

variable (s : MemoryState)

theorem writeTuples_moved (around : Surroundings) (mutation : TupleMutation) :
    Moved s (writeTuples s around mutation).2 := by
  unfold writeTuples
  split
  · exact .unchanged
  · exact .unchanged
  · rename_i prepared ready
    exact .mutated ready

theorem createStore_moved (around : Surroundings) {storeId : StoreId} (name : StoreName)
    (canonical : storeId.Canonical) : Moved s (createStore s around storeId name).2 := by
  unfold createStore
  split
  · exact .unchanged
  · split
    · exact .unchanged
    · exact .storeCreated canonical

theorem renameStore_moved (around : Surroundings) (storeId : StoreId) (name : StoreName) :
    Moved s (renameStore s around storeId name).2 := by
  unfold renameStore
  split
  · exact .unchanged
  · split
    · exact .unchanged
    · rename_i existing present
      exact .storeRenamed present

theorem writeModel_moved {model : StoredAuthorizationModel} (canonical : model.modelId.Canonical) :
    Moved s (writeModel s model).2 := by
  unfold writeModel
  split
  · exact .unchanged
  · rename_i absent
    exact .modelWritten canonical absent

theorem writeAssertions_moved (storeId : StoreId) (modelId : AuthorizationModelId)
    (assertions : List Assertion) : Moved s (writeAssertions s storeId modelId assertions).2 := by
  unfold writeAssertions
  split
  · exact .unchanged
  · split
    · exact .unchanged
    · exact .assertionsWritten

theorem turn_moved (event : Event) : Moved s (turn s event) := by
  obtain ⟨operation, around, admitted⟩ := event
  cases admitted with
  | error _ => exact .unchanged
  | ok _ =>
    cases operation with
    | writeTuples mutation => exact writeTuples_moved s around mutation
    | writeModel model canonical => exact writeModel_moved s canonical
    | createStore storeId name canonical => exact createStore_moved s around name canonical
    | renameStore storeId name => exact renameStore_moved s around storeId name
    | deleteStore storeId => exact .storeDeleted
    | writeAssertions storeId modelId assertions =>
      exact writeAssertions_moved s storeId modelId assertions
    | read => exact .unchanged

end

/-- What every move keeps holds of every reachable state. -/
theorem Reachable.invariant {limits : InputLimits} {s : MemoryState} (inv : MemoryState → Prop)
    (reached : Reachable limits s) (start : inv (.new limits))
    (kept : ∀ t u, Moved t u → inv t → inv u) : inv s := by
  refine Machine.Reaches.invariant inv reached ?_ start
  intro t event u held _ moved
  cases moved
  exact kept t _ (turn_moved t event) held

end Operations

namespace Sample

def store : StoreId := ⟨Ulid.text 1⟩

/-- Anne as a viewer of a document. -/
def tuple (id : String) : RelationshipTuple :=
  ⟨⟨⟨⟨"doc"⟩, ⟨id⟩⟩, ⟨"viewer"⟩, .object ⟨⟨"user"⟩, ⟨"anne"⟩⟩⟩, .unconditional⟩

theorem tuple_canonical {id : String} (named : CanonicalText 252 isObjectIdCharacter id)
    (concrete : id ≠ "*") : (tuple id).key.Canonical := by
  have doc : TypeName.Canonical ⟨"doc"⟩ := by decide
  have viewer : RelationName.Canonical ⟨"viewer"⟩ := by decide
  have anne : ObjectRef.Canonical ⟨⟨"user"⟩, ⟨"anne"⟩⟩ :=
    ⟨(by decide), (by decide), by decide, by decide⟩
  refine ⟨⟨doc, named.mono (by decide), concrete, ?_⟩, viewer, anne⟩
  have bounded := named.bounded
  have prefixed : ("doc" : String).utf8ByteSize = 3 := by decide
  rw [ObjectRef.size_display]
  simp only [tuple, prefixed]
  omega

/-- Writes two documents into an empty store. -/
def writes : TupleMutation where
  storeId := store
  deletes := []
  writes := [tuple "2", tuple "1"]
  options := ⟨.error, .error⟩
  canonical := by
    intro written member
    rcases List.mem_cons.mp member with rfl | member
    · exact tuple_canonical (by decide) (by decide)
    · cases List.mem_singleton.mp member
      exact tuple_canonical (by decide) (by decide)

/-- Nothing fails, and a millisecond has passed since the epoch. -/
def calm : Surroundings := ⟨fun _ => .ok (), fun _ => .ok (), .ok 1000000⟩

def written : MemoryState := turn (.new .standard) (.writeTuples writes, calm, .ok ())

theorem written_reachable : Reachable .standard written := .tail .refl trivial rfl

end Sample

end OpenFga.Memory
