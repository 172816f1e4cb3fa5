import OpenFga.Check.Outcome
import OpenFga.Domain.Fingerprint
import OpenFga.Domain.Order
import OpenFga.Domain.Ulid

/-!
# Storage records, filters and pages

What a storage backend keeps and is asked for. A moment is a number of nanoseconds since
the epoch, which it may precede. A cursor is opaque to its holder: the backend that gave it
out reads the text of a key in it.
-/

namespace OpenFga

/-- A failed operation, with its stable code. -/
structure StorageError where
  kind : StorageErrorKind
  code : String
  tuple : Option TupleKey
  deriving DecidableEq, Repr

namespace StorageError

def new (kind : StorageErrorKind) (code : String) : StorageError := ⟨kind, code, none⟩

def notFound : StorageError := new .notFound "record_not_found"

end StorageError

/-- Nanoseconds since the epoch, or before it. -/
abbrev SystemTime := Int

instance : LinearOrder StoreId :=
  LinearOrder.lift' StoreId.text fun first second same => by
    cases first
    cases same
    rfl

instance : LinearOrder AuthorizationModelId :=
  LinearOrder.lift' AuthorizationModelId.text fun first second same => by
    cases first
    cases same
    rfl

/-- The identifiers that are texts of numbers. -/
def StoreId.Canonical (id : StoreId) : Prop := ∃ value < 2 ^ 128, id.text = Ulid.text value

def AuthorizationModelId.Canonical (id : AuthorizationModelId) : Prop :=
  ∃ value < 2 ^ 128, id.text = Ulid.text value

def StoreId.parse (text : String) : Except ParseError StoreId :=
  (Ulid.parse "store_id" text).map fun _ => ⟨text⟩

def AuthorizationModelId.parse (text : String) : Except ParseError AuthorizationModelId :=
  (Ulid.parse "authorization_model_id" text).map fun _ => ⟨text⟩

/-- A change is identified by a number, in the order of the changes. -/
structure ChangeId where
  value : Nat
  bounded : value < 2 ^ 128
  deriving DecidableEq

instance : LinearOrder ChangeId :=
  LinearOrder.lift' ChangeId.value fun first second same => by
    cases first
    cases same
    rfl

/-- The identifier of a timestamp and a random part, each within its bits. -/
def ChangeId.fromParts (timestamp random : Nat) : ChangeId :=
  ⟨Ulid.fromParts timestamp random, Ulid.fromParts_lt _ _⟩

def ChangeId.text (id : ChangeId) : String := Ulid.text id.value

def ChangeId.parse (text : String) : Except ParseError ChangeId :=
  (Ulid.parse "change_id" text).map fun number => ⟨number.1, number.2⟩

theorem StoreId.parse_text {id : StoreId} (canonical : id.Canonical) : parse id.text = .ok id := by
  obtain ⟨value, bounded, text⟩ := canonical
  rw [parse, text, Ulid.parse_text _ bounded, ← text]
  rfl

theorem AuthorizationModelId.parse_text {id : AuthorizationModelId}
    (canonical : id.Canonical) : parse id.text = .ok id := by
  obtain ⟨value, bounded, text⟩ := canonical
  rw [parse, text, Ulid.parse_text _ bounded, ← text]
  rfl

theorem ChangeId.parse_text (id : ChangeId) : parse id.text = .ok id := by
  rw [parse, text, Ulid.parse_text _ id.bounded]
  rfl

structure StoreName where
  text : String
  deriving DecidableEq, Repr

structure StoreRecord where
  id : StoreId
  name : StoreName
  createdAt : SystemTime
  updatedAt : SystemTime
  deriving DecidableEq, Repr

def StoreRecord.new (id : StoreId) (name : StoreName) (timestamp : SystemTime) : StoreRecord :=
  ⟨id, name, timestamp, timestamp⟩

def StoreRecord.renamed (record : StoreRecord) (name : StoreName) (timestamp : SystemTime) :
    StoreRecord :=
  ⟨record.id, name, record.createdAt, timestamp⟩

/-- A tuple and when it was written. -/
structure StoredTuple where
  tuple : RelationshipTuple
  insertedAt : SystemTime
  deriving DecidableEq

/-- A stored model, by what the backend reads of it. -/
structure StoredAuthorizationModel where
  storeId : StoreId
  modelId : AuthorizationModelId
  fingerprint : Fingerprint
  writtenAt : SystemTime
  deriving DecidableEq

structure Assertion where
  tuple : TupleKey
  expectation : Bool
  contextualTuples : ContextualTuples
  conditionContext : ConditionContext

inductive ChangeOperation where
  | write
  | delete
  deriving DecidableEq, Repr

/-- An entry of the changelog. -/
structure TupleChange where
  id : ChangeId
  storeId : StoreId
  operation : ChangeOperation
  tuple : RelationshipTuple
  timestamp : SystemTime
  deriving DecidableEq

/-- Whether a conflict fails the mutation. -/
inductive WriteConflictPolicy where
  | error
  | ignore
  deriving DecidableEq, Repr

structure TupleWriteOptions where
  onMissingDelete : WriteConflictPolicy
  onDuplicateWrite : WriteConflictPolicy
  deriving DecidableEq, Repr

/-- The identifiers of the changes a mutation has made, in order. -/
structure MutationOutcome where
  changeIds : List ChangeId

inductive ConditionFilter where
  | any
  | unconditional
  | named (names : List ConditionName)

def ConditionFilter.accepts : ConditionFilter → ConditionReference → Bool
  | .any, _ => true
  | .unconditional, .unconditional => true
  | .named names, .conditional binding => names.contains binding.name
  | _, _ => false

/-- What is left open matches everything. -/
structure TupleReadFilter where
  objectType : Option TypeName
  objectId : Option ObjectId
  relation : Option RelationName
  subject : Option SubjectRef

def TupleReadFilter.accepts (filter : TupleReadFilter) (key : TupleKey) : Bool :=
  filter.objectType.all (fun value => decide (value = key.object.objectType)) &&
    filter.objectId.all (fun value => decide (value = key.object.objectId)) &&
    filter.relation.all (fun value => decide (value = key.relation)) &&
    filter.subject.all (fun value => decide (value = key.subject))

structure ChangeFilter where
  objectType : Option TypeName
  startTime : Option SystemTime

def ChangeFilter.accepts (filter : ChangeFilter) (change : TupleChange) : Bool :=
  filter.objectType.all (fun expected => decide (change.tuple.key.object.objectType = expected)) &&
    filter.startTime.all (fun start => decide (start ≤ change.timestamp))

structure StoreFilter where
  name : Option StoreName

structure ObjectRelationFilter where
  object : ObjectRef
  relation : RelationName
  subjects : List SubjectRef
  conditions : ConditionFilter

structure UsersetRestrictionFilter where
  subjectType : TypeName
  relation : RelationName
  deriving DecidableEq, Repr

structure UsersetTupleFilter where
  object : ObjectRef
  relation : RelationName
  allowed : List UsersetRestrictionFilter
  conditions : ConditionFilter

structure ReverseTupleFilter where
  objectType : TypeName
  relation : RelationName
  subjects : List SubjectRef
  objectIds : List ObjectId
  conditions : ConditionFilter

structure ReadOptions where
  maximumResults : Limit 100000

/-- Where a paged read goes on. -/
structure StorageCursor where
  bytes : ByteArray

def StorageCursor.new (bytes : ByteArray) : Except StorageError StorageCursor :=
  if bytes.size = 0 ∨ 1024 < bytes.size then
    .error (.new .invalidContinuation "storage_cursor_length")
  else .ok ⟨bytes⟩

/-- A page of at least one item, after a cursor if there is one. -/
structure PageOptions where
  maximumResults : Nat
  positive : 1 ≤ maximumResults
  after : Option StorageCursor

/-- Some items, and a cursor if more may follow. -/
structure Page (α : Type) where
  items : List α
  continuation : Option StorageCursor

/-- A read as pages of a given size. -/
def pageOf {β : Type} (read : PageOptions → Except StorageError (Page β)) (size : Nat)
    (positive : 1 ≤ size) (after : Option StorageCursor) :
    Except StorageError (List β × Option StorageCursor) :=
  (read ⟨size, positive, after⟩).map fun page => (page.items, page.continuation)

/-- Reads a key in a cursor. -/
def parseCursor {α ε : Type} (parse : String → Except ε α) (code : String)
    (cursor : StorageCursor) : Except StorageError α :=
  match String.fromUTF8? cursor.bytes with
  | none => .error (.new .invalidContinuation code)
  | some text =>
      match parse text with
      | .ok value => .ok value
      | .error _ => .error (.new .invalidContinuation code)

theorem StorageCursor.new_toUTF8 {text : String} (nonempty : 0 < text.utf8ByteSize)
    (bounded : text.utf8ByteSize ≤ 1024) : new text.toUTF8 = .ok ⟨text.toUTF8⟩ := by
  have size : text.toUTF8.size = text.utf8ByteSize := rfl
  rw [new, if_neg]
  omega

/-- A cursor made of a key's text is read as the key. -/
theorem parseCursor_toUTF8 {α ε : Type} {parse : String → Except ε α} {text code : String}
    {value : α} (parsed : parse text = .ok value) :
    parseCursor parse code ⟨text.toUTF8⟩ = .ok value := by
  have decoded : String.fromUTF8? text.toUTF8 = some text := by
    simp only [String.fromUTF8?, String.toUTF8_eq_toByteArray, dif_pos text.isValidUTF8]
    rfl
  rw [parseCursor, decoded]
  simp only [parsed]

end OpenFga
