import OpenFga.Lib.Utf8
import OpenFga.Storage.Types

/-!
# Physical keys

A tuple is kept twice, under a key that leads with its object and under one that leads with
its subject. Such a key is a version byte and the texts of the tuple, each closed by a zero
byte. No text of a tuple contains the zero character, so a key can be taken apart, and the
bytes of the keys that lead with the object are ordered as the tuples are. A query for the
keys that start with the first texts of a key finds the tuples that have these texts.

A partition is named by what it holds. The first byte of a digest selects one of several
partitions; nothing is assumed of the digest.
-/

namespace OpenFga.Dynamo

open OrderedCode PrefixCode Utf8 List

variable {segments : List String} {bytes : Bytes} {relation : RelationName} {text : String}
  {encode : TupleKey → Except StorageError Bytes} {object : ObjectRef} {objectType : TypeName}

abbrev Bytes := List UInt8

def forwardShards : UInt8 := 32

def reverseShards : UInt8 := 32

def changeShards : UInt8 := 4

def maximumKeyBytes : Nat := 896

def keyVersion : UInt8 := 1

def keyTooLarge : StorageError := .new .resourceExhausted "dynamodb_key_too_large"

def invalidKey : StorageError := .new .integrity "dynamodb_key_invalid"

def invalidCursor : StorageError := .new .invalidContinuation "dynamodb_cursor_invalid"

def encodeSegments (segments : List String) : Except StorageError Bytes :=
  let capacity := segments.foldl (fun total segment => total + 1 + segment.utf8ByteSize) 1
  if maximumKeyBytes < capacity then .error keyTooLarge
  else if segments.any fun segment => (bytesOf segment).contains 0 then .error invalidKey
  else .ok (keyVersion :: segments.flatMap closed)

def decodeSegment (bytes : Bytes) : Except StorageError String :=
  orError (textOf bytes) (.new .integrity "dynamodb_key_utf8_invalid")

def decodeSegments (bytes : Bytes) (expected : Nat) : Except StorageError (List String) := do
  if maximumKeyBytes < bytes.length || bytes.head? != some keyVersion then .error invalidKey
  else
    let remaining := bytes.tail
    if remaining.getLast? != some 0 then .error invalidKey
    else
      let values ← (remaining.dropLast.splitOn 0).mapM decodeSegment
      if values.length = expected then .ok values else .error invalidKey

def subjectKindName : SubjectRef → String
  | .object _ => "o"
  | .userset _ => "u"
  | .typedWildcard _ => "w"

/-- The identifier of a subject; a wildcard has a star in its place. -/
def subjectObjectId : SubjectRef → String
  | .object ref => ref.objectId.text
  | .userset ref => ref.object.objectId.text
  | .typedWildcard _ => "*"

def subjectRelation : SubjectRef → String
  | .userset ref => ref.relation.text
  | _ => ""

def subjectSegments (subject : SubjectRef) : List String :=
  [subjectKindName subject, subject.subjectType.text, subjectObjectId subject,
    subjectRelation subject]

def forwardSegments (key : TupleKey) : List String :=
  [key.object.objectType.text, key.object.objectId.text, key.relation.text] ++
    subjectSegments key.subject

def reverseSegments (key : TupleKey) : List String :=
  subjectSegments key.subject ++
    [key.object.objectType.text, key.relation.text, key.object.objectId.text]

def encodeForward (key : TupleKey) : Except StorageError Bytes :=
  encodeSegments (forwardSegments key)

def encodeReverse (key : TupleKey) : Except StorageError Bytes :=
  encodeSegments (reverseSegments key)

def forwardObjectRelationPrefix (object : ObjectRef) (relation : RelationName) :
    Except StorageError Bytes :=
  encodeSegments [object.objectType.text, object.objectId.text, relation.text]

def reversePrefix (subject : SubjectRef) (objectType : TypeName) (relation : RelationName) :
    Except StorageError Bytes :=
  encodeSegments (subjectSegments subject ++ [objectType.text, relation.text])

/-- The text of a subject. -/
def subjectFromSegments (kind subjectType subjectId relation : String) :
    Except StorageError String :=
  if kind = "o" ∧ relation = "" ∧ subjectId ≠ "*" then .ok (subjectType ++ ":" ++ subjectId)
  else if kind = "u" ∧ relation ≠ "" ∧ subjectId ≠ "*" then
    .ok (subjectType ++ ":" ++ subjectId ++ "#" ++ relation)
  else if kind = "w" ∧ relation = "" ∧ subjectId = "*" then .ok (subjectType ++ ":*")
  else .error invalidKey

/-- The tuple with some texts, if its key is the one that was read. -/
def decodeKey (encode : TupleKey → Except StorageError Bytes) (bytes : Bytes)
    (objectType objectId relation subject : String) : Except StorageError TupleKey := do
  let canonical := objectType ++ ":" ++ objectId ++ "#" ++ relation ++ "@" ++ subject
  let key ← (TupleKey.parseWithLimits canonical .standard).mapError
    fun _ => .new .integrity "dynamodb_tuple_key_invalid"
  let encoded ← encode key
  if encoded = bytes then .ok key else .error invalidKey

def decodeForward (bytes : Bytes) : Except StorageError TupleKey := do
  match ← decodeSegments bytes 7 with
  | [objectType, objectId, relation, kind, subjectType, subjectId, subjectRelation] =>
      let subject ← subjectFromSegments kind subjectType subjectId subjectRelation
      decodeKey encodeForward bytes objectType objectId relation subject
  | _ => .error invalidKey

def decodeReverse (bytes : Bytes) : Except StorageError TupleKey := do
  match ← decodeSegments bytes 7 with
  | [kind, subjectType, subjectId, subjectRelation, objectType, relation, objectId] =>
      let subject ← subjectFromSegments kind subjectType subjectId subjectRelation
      decodeKey encodeReverse bytes objectType objectId relation subject
  | _ => .error invalidKey

/-- The listing that a cursor belongs to. -/
inductive CursorOperation where
  | tuple
  | store
  | model
  deriving DecidableEq, Repr

def CursorOperation.code : CursorOperation → UInt8
  | .tuple => 1
  | .store => 2
  | .model => 3

def cursorMagic : Bytes := [0x44, 0x43]

def cursorVersion : UInt8 := 1

def encodeCursor (operation : CursorOperation) (logicalKey : Bytes) :
    Except StorageError StorageCursor :=
  if 2 ^ 16 ≤ logicalKey.length then
    .error (.new .resourceExhausted "dynamodb_cursor_key_too_large")
  else
    StorageCursor.new (cursorMagic ++ [cursorVersion, operation.code] ++
      bigEndian 2 logicalKey.length ++ logicalKey).toByteArray

def cursorKeyIsCanonical : CursorOperation → Bytes → Bool
  | .tuple, value => (decodeForward value).isOk
  | .store, value => (textOf value).any fun text => (StoreId.parse text).isOk
  | .model, value => (textOf value).any fun text => (AuthorizationModelId.parse text).isOk

def decodeCursor (operation : CursorOperation) (cursor : StorageCursor) :
    Except StorageError Bytes :=
  match cursor.bytes.data.toList with
  | first :: second :: version :: code :: high :: low :: value =>
      if [first, second] ≠ cursorMagic ∨ version ≠ cursorVersion ∨ code ≠ operation.code then
        .error invalidCursor
      else if value.length ≠ high.toNat * 256 + low.toNat ∨ value = [] ∨
          cursorKeyIsCanonical operation value = false then
        .error invalidCursor
      else .ok value
  | _ => .error invalidCursor

section Partitions

/-- What a partition holds: one shard of the tuples of a store, one shard of its changes, or
one of the records that are kept once. -/
inductive Partition where
  | forward (store : StoreId) (shard : UInt8)
  | reverse (store : StoreId) (shard : UInt8)
  | change (store : StoreId) (shard : UInt8)
  | changeHead (store : StoreId)
  deriving DecidableEq

variable (sha256 : Bytes → Bytes)

def stableShard (identity : Bytes) (shards : UInt8) : UInt8 :=
  (sha256 identity).headD 0 &&& (shards - 1)

def encodeObject (object : ObjectRef) : Bytes :=
  bytesOf object.objectType.text ++ 0 :: bytesOf object.objectId.text

def encodeSubject (subject : SubjectRef) : Bytes :=
  (match subject with
    | .object _ => 0
    | .userset _ => 1
    | .typedWildcard _ => 2) :: bytesOf subject.display

def forwardObjectPartition (store : StoreId) (object : ObjectRef) : Partition :=
  .forward store (stableShard sha256 (encodeObject object) forwardShards)

def reversePartition (store : StoreId) (subject : SubjectRef) : Partition :=
  .reverse store (stableShard sha256 (encodeSubject subject) reverseShards)

def changePartition (store : StoreId) (identity : Bytes) : Partition :=
  .change store (stableShard sha256 identity changeShards)

/-- The places of the two items of a tuple. -/
structure TupleKeys where
  forwardPartition : Partition
  forwardSort : Bytes
  reversePartition : Partition
  reverseSort : Bytes
  deriving DecidableEq

def tupleKeys (store : StoreId) (key : TupleKey) : Except StorageError TupleKeys := do
  let forwardSort ← encodeForward key
  let reverseSort ← encodeReverse key
  .ok ⟨forwardObjectPartition sha256 store key.object, forwardSort,
    reversePartition sha256 store key.subject, reverseSort⟩

end Partitions

theorem capacity_eq (segments : List String) (start : Nat) :
    segments.foldl (fun total segment => total + 1 + segment.utf8ByteSize) start =
      start + (segments.flatMap closed).length := by
  induction segments generalizing start with
  | nil => rfl
  | cons segment segments ih =>
    rw [foldl_cons, ih, flatMap_cons, length_append, closed, length_append,
      length_bytesOf, length_singleton]
    omega

/-- Texts that fit into a key. -/
structure Encodable (segments : List String) : Prop where
  free : ∀ segment ∈ segments, ZeroFree segment
  fits : (segments.flatMap closed).length < maximumKeyBytes

theorem Encodable.encodeSegments_eq (encodable : Encodable segments) :
    encodeSegments segments = .ok (keyVersion :: segments.flatMap closed) := by
  have capacity := capacity_eq segments 1
  have fits := encodable.fits
  unfold encodeSegments
  rw [if_neg (by omega), if_neg]
  rw [any_eq_true]
  rintro ⟨segment, member, contained⟩
  exact zero_not_mem_bytesOf (encodable.free segment member) (contains_iff_mem.mp contained)

/-- Without its last byte, a row of closed texts is the texts with a zero between them. -/
theorem dropLast_closed (nonempty : segments ≠ []) :
    (segments.flatMap closed).dropLast = [0].intercalate (segments.map bytesOf) := by
  induction segments with
  | nil => exact absurd rfl nonempty
  | cons segment segments ih =>
    cases segments with
    | nil => simp [closed]
    | cons next segments =>
      have inner := ih (cons_ne_nil next segments)
      rw [flatMap_cons, closed, append_assoc, map_cons, map_cons,
        intercalate_cons_cons, ← map_cons, ← inner]
      rw [dropLast_append_of_ne_nil (by simp), singleton_append,
        dropLast_cons_of_ne_nil (by simp [closed]), append_assoc]
      rfl

theorem mapM_decodeSegment (segments : List String) :
    (segments.map bytesOf).mapM decodeSegment = .ok segments := by
  refine mapM_restore_iff.mpr fun segment _ => ?_
  rw [decodeSegment, textOf_bytesOf]
  rfl

theorem getLast?_closed (nonempty : segments ≠ []) :
    (segments.flatMap closed).getLast? = some 0 := by
  rw [← dropLast_append_getLast nonempty]
  simp [closed]

theorem Encodable.decodeSegments_eq (encodable : Encodable segments) (nonempty : segments ≠ []) :
    decodeSegments (keyVersion :: segments.flatMap closed) segments.length = .ok segments := by
  have free : ∀ bytes ∈ segments.map bytesOf, (0 : UInt8) ∉ bytes := by
    intro bytes member
    obtain ⟨segment, present, rfl⟩ := mem_map.mp member
    exact zero_not_mem_bytesOf (encodable.free segment present)
  have fits := encodable.fits
  have leading : ¬(decide (maximumKeyBytes < (keyVersion :: segments.flatMap closed).length) ||
      (keyVersion :: segments.flatMap closed).head? != some keyVersion) = true := by
    rw [length_cons, head?_cons, bne_self_eq_false, Bool.or_false, decide_eq_true_eq]
    omega
  have split := splitOn_intercalate 0 free (mt map_eq_nil_iff.mp nonempty)
  unfold decodeSegments
  simp only [if_neg leading, tail_cons, getLast?_closed nonempty, dropLast_closed nonempty,
    split, mapM_decodeSegment, bne_self_eq_false, Bool.false_eq_true, if_false]
  exact if_pos rfl

section TupleCodec

theorem CanonicalText.zeroFree {maximum : Nat} {allowed : Char → Bool}
    (canonical : CanonicalText maximum allowed text) (refused : allowed '\x00' = false) :
    ZeroFree text := by
  intro member
  have admitted := canonical.admitted _ member
  rw [refused] at admitted
  cases admitted

theorem zero_refused :
    isNameCharacter '\x00' = false ∧ isObjectIdCharacter '\x00' = false := by decide

/-- The texts a subject may have in place of its own. -/
theorem marks_free :
    ZeroFree "o" ∧ ZeroFree "u" ∧ ZeroFree "w" ∧ ZeroFree "*" ∧ ZeroFree "" := by decide

variable {key key' : TupleKey} {subject : SubjectRef}

theorem subjectType_canonical (canonical : subject.Canonical) : subject.subjectType.Canonical := by
  cases subject with
  | object ref => exact canonical.objectType
  | userset ref => exact canonical.object.objectType
  | typedWildcard objectType => exact canonical

theorem subjectSegments_free (canonical : subject.Canonical) :
    ∀ segment ∈ subjectSegments subject, ZeroFree segment := by
  obtain ⟨o, u, w, star, empty⟩ := marks_free
  have type := CanonicalText.zeroFree (subjectType_canonical canonical) zero_refused.1
  have kind : ZeroFree (subjectKindName subject) := by
    cases subject with
    | object _ => exact o
    | userset _ => exact u
    | typedWildcard _ => exact w
  have id : ZeroFree (subjectObjectId subject) := by
    cases subject with
    | object ref => exact CanonicalText.zeroFree canonical.objectId zero_refused.2
    | userset ref => exact CanonicalText.zeroFree canonical.object.objectId zero_refused.2
    | typedWildcard _ => exact star
  have relation : ZeroFree (subjectRelation subject) := by
    cases subject with
    | userset ref => exact CanonicalText.zeroFree canonical.relation zero_refused.1
    | object _ | typedWildcard _ => exact empty
  simp only [subjectSegments, forall_mem_cons]
  exact ⟨kind, type, id, relation, forall_mem_nil _⟩

theorem subjectSegments_length (canonical : subject.Canonical) :
    ((subjectSegments subject).flatMap closed).length ≤ 312 := by
  have size : ((subjectSegments subject).flatMap closed).length =
      (subjectKindName subject).utf8ByteSize + 1 + (subject.subjectType.text.utf8ByteSize + 1) +
        ((subjectObjectId subject).utf8ByteSize + 1) +
          ((subjectRelation subject).utf8ByteSize + 1) := by
    simp [subjectSegments, closed, length_bytesOf]
    omega
  have kind : (subjectKindName subject).utf8ByteSize = 1 := by
    cases subject <;> rfl
  have rest : subject.subjectType.text.utf8ByteSize + 1 + (subjectObjectId subject).utf8ByteSize ≤
      256 ∧ (subjectRelation subject).utf8ByteSize ≤ 50 := by
    cases subject with
    | object ref =>
      have object := canonical.bounded
      rw [ref.size_display] at object
      exact ⟨object, Nat.zero_le 50⟩
    | userset ref =>
      have object := canonical.object.bounded
      rw [ref.object.size_display] at object
      exact ⟨object, canonical.relation.bounded⟩
    | typedWildcard objectType =>
      exact ⟨Nat.add_le_add_right (Nat.add_le_add_right canonical.bounded 1) 1, Nat.zero_le 50⟩
  omega

theorem objectSegments_free (canonical : key.Canonical) :
    ZeroFree key.object.objectType.text ∧ ZeroFree key.object.objectId.text ∧
      ZeroFree key.relation.text :=
  ⟨CanonicalText.zeroFree canonical.object.objectType zero_refused.1,
    CanonicalText.zeroFree canonical.object.objectId zero_refused.2,
    CanonicalText.zeroFree canonical.relation zero_refused.1⟩

theorem forwardSegments_encodable (canonical : key.Canonical) :
    Encodable (forwardSegments key) := by
  obtain ⟨type, id, relation⟩ := objectSegments_free canonical
  constructor
  · simp only [forwardSegments, cons_append, nil_append, forall_mem_cons]
    exact ⟨type, id, relation, subjectSegments_free canonical.subject⟩
  · have object := canonical.object.bounded
    rw [key.object.size_display] at object
    have named := canonical.relation.bounded
    have subject := subjectSegments_length canonical.subject
    simp only [forwardSegments, flatMap_append, flatMap_cons, flatMap_nil, closed,
      length_append, length_bytesOf, length_singleton, length_nil] at subject ⊢
    unfold maximumKeyBytes
    omega

theorem reverseSegments_encodable (canonical : key.Canonical) :
    Encodable (reverseSegments key) := by
  have forward := forwardSegments_encodable canonical
  have same : (reverseSegments key).Perm (forwardSegments key) := by
    refine perm_append_comm.trans (List.Perm.append_right _ ?_)
    exact (List.Perm.swap _ _ []).cons _
  refine ⟨fun segment member => forward.free segment (same.mem_iff.mp member), ?_⟩
  rw [(same.flatMap_right closed).length_eq]
  exact forward.fits

theorem subjectFromSegments_eq (canonical : subject.Canonical) :
    subjectFromSegments (subjectKindName subject) subject.subjectType.text
      (subjectObjectId subject) (subjectRelation subject) = .ok subject.display := by
  unfold subjectFromSegments
  cases subject with
  | object ref => exact if_pos ⟨rfl, rfl, canonical.concrete⟩
  | userset ref =>
    have kind : ¬(subjectKindName (.userset ref) = "o" ∧ subjectRelation (.userset ref) = "" ∧
        subjectObjectId (.userset ref) ≠ "*") := fun ⟨kind, _⟩ => absurd kind (by
      rw [subjectKindName]
      decide)
    rw [if_neg kind, if_pos ⟨rfl, canonical.relation.nonempty, canonical.object.concrete⟩]
    rfl
  | typedWildcard objectType =>
    simp only [subjectKindName, subjectRelation, subjectObjectId]
    rfl

theorem decodeKey_eq (canonical : key.Canonical) (encoded : encode key = .ok bytes) :
    decodeKey encode bytes key.object.objectType.text key.object.objectId.text key.relation.text
      key.subject.display = .ok key := by
  have display : key.object.objectType.text ++ ":" ++ key.object.objectId.text ++ "#" ++
      key.relation.text ++ "@" ++ key.subject.display = key.display := rfl
  simp only [decodeKey, display, TupleKey.parse_display canonical, Except.mapError, bind,
    Except.bind, encoded, if_pos]

/-- The bytes of a key that leads with the object. -/
def forwardKey (key : TupleKey) : Bytes := keyVersion :: (forwardSegments key).flatMap closed

def reverseKey (key : TupleKey) : Bytes := keyVersion :: (reverseSegments key).flatMap closed

section

variable (canonical : key.Canonical)

include canonical

theorem encodeForward_eq : encodeForward key = .ok (forwardKey key) :=
  (forwardSegments_encodable canonical).encodeSegments_eq

theorem encodeReverse_eq : encodeReverse key = .ok (reverseKey key) :=
  (reverseSegments_encodable canonical).encodeSegments_eq

theorem decodeForward_eq : decodeForward (forwardKey key) = .ok key := by
  have segments : decodeSegments (forwardKey key) 7 = .ok (forwardSegments key) :=
    (forwardSegments_encodable canonical).decodeSegments_eq (by simp [forwardSegments])
  simp only [decodeForward, segments, forwardSegments, subjectSegments, cons_append,
    nil_append, bind, Except.bind, subjectFromSegments_eq canonical.subject]
  exact decodeKey_eq canonical (encodeForward_eq canonical)

theorem decodeReverse_eq : decodeReverse (reverseKey key) = .ok key := by
  have segments : decodeSegments (reverseKey key) 7 = .ok (reverseSegments key) :=
    (reverseSegments_encodable canonical).decodeSegments_eq
      (by simp [reverseSegments, subjectSegments])
  simp only [decodeReverse, segments, reverseSegments, subjectSegments, cons_append,
    nil_append, bind, Except.bind, subjectFromSegments_eq canonical.subject]
  exact decodeKey_eq canonical (encodeReverse_eq canonical)

end

/-- The cursor of a key. -/
def cursorOf (operation : CursorOperation) (key : Bytes) : StorageCursor :=
  ⟨(cursorMagic ++ [cursorVersion, operation.code] ++ bigEndian 2 key.length ++ key).toByteArray⟩

theorem length_forwardKey (canonical : key.Canonical) :
    (forwardKey key).length ≤ maximumKeyBytes := by
  have fits := (forwardSegments_encodable canonical).fits
  rw [forwardKey, length_cons]
  omega

theorem encodeCursor_eq (canonical : key.Canonical) :
    encodeCursor .tuple (forwardKey key) = .ok (cursorOf .tuple (forwardKey key)) := by
  have fits := length_forwardKey canonical
  unfold maximumKeyBytes at fits
  have size : (cursorOf .tuple (forwardKey key)).bytes.size = 6 + (forwardKey key).length := by
    simp [cursorOf, cursorMagic]
    omega
  have short : ¬((cursorOf .tuple (forwardKey key)).bytes.size = 0 ∨
      1024 < (cursorOf .tuple (forwardKey key)).bytes.size) := by omega
  rw [encodeCursor, if_neg (by omega)]
  exact if_neg short

/-- A cursor is read as the key it was made of. -/
theorem decodeCursor_eq (canonical : key.Canonical) :
    decodeCursor .tuple (cursorOf .tuple (forwardKey key)) = .ok (forwardKey key) := by
  have fits := length_forwardKey canonical
  unfold maximumKeyBytes at fits
  have nonempty : forwardKey key ≠ [] := cons_ne_nil _ _
  have accepted : cursorKeyIsCanonical .tuple (forwardKey key) = true := by
    rw [cursorKeyIsCanonical, decodeForward_eq canonical]
    rfl
  have bytes : (cursorOf .tuple (forwardKey key)).bytes.data.toList =
      0x44 :: 0x43 :: 1 :: 1 :: UInt8.ofNat ((forwardKey key).length / 256) ::
        UInt8.ofNat (forwardKey key).length :: forwardKey key := by
    simp [cursorOf, cursorMagic, cursorVersion, CursorOperation.code, bigEndian]
  unfold decodeCursor
  rw [bytes]
  have length : (forwardKey key).length =
      (UInt8.ofNat ((forwardKey key).length / 256)).toNat * 256 +
        (UInt8.ofNat (forwardKey key).length).toNat := by
    rw [UInt8.toNat_ofNat', UInt8.toNat_ofNat']
    omega
  simp only [accepted, ← length, nonempty]
  rw [if_neg (by decide), if_neg (by simp)]

/-- A decoded key has the bytes it was decoded from. -/
theorem decodeKey_ok {objectType objectId relation : String}
    (decoded : decodeKey encode bytes objectType objectId relation text = .ok key) :
    key.Canonical ∧ encode key = .ok bytes := by
  obtain ⟨parsed, accepted, decoded⟩ := bind_eq_ok.mp decoded
  obtain ⟨encoded, same, decoded⟩ := bind_eq_ok.mp decoded
  obtain ⟨equal, decoded⟩ := require_eq_ok.mp decoded
  cases decoded
  rw [← equal]
  exact ⟨(TupleKey.of_parse (mapError_eq_ok.mp accepted)).1, same⟩

theorem decodeForward_ok (decoded : decodeForward bytes = .ok key) :
    key.Canonical ∧ encodeForward key = .ok bytes := by
  obtain ⟨segments, _, decoded⟩ := bind_eq_ok.mp decoded
  split at decoded
  · obtain ⟨text, _, decoded⟩ := bind_eq_ok.mp decoded
    exact decodeKey_ok decoded
  · cases decoded

theorem decodeReverse_ok (decoded : decodeReverse bytes = .ok key) :
    key.Canonical ∧ encodeReverse key = .ok bytes := by
  obtain ⟨segments, _, decoded⟩ := bind_eq_ok.mp decoded
  split at decoded
  · obtain ⟨text, _, decoded⟩ := bind_eq_ok.mp decoded
    exact decodeKey_ok decoded
  · cases decoded

end TupleCodec

section KeyOrder

variable {key key' : TupleKey} {subject subject' : SubjectRef}

/-- The names of the kinds are in the order of the kinds. -/
theorem kinds_lt : "o" < "u" ∧ "o" < "w" ∧ "u" < "w" := by decide

theorem subjectSegments_lt (below : subject.fields < subject'.fields) :
    subjectSegments subject < subjectSegments subject' := by
  obtain ⟨userset, wildcard, last⟩ := kinds_lt
  unfold subjectSegments
  cases subject with
  | object ref =>
    cases subject' with
    | object ref' =>
      simp only [SubjectRef.fields, ObjectRef.fields, Prod.Lex.toLex_lt_toLex, lt_irrefl,
        false_or, true_and, and_false, or_false] at below
      rcases below with types | ⟨types, ids⟩
      · exact .cons (.rel types)
      · simp only [SubjectRef.subjectType, types]
        exact .cons (.cons (.rel ids))
    | userset ref' => exact .rel userset
    | typedWildcard objectType => exact .rel wildcard
  | userset ref =>
    cases subject' with
    | object ref' =>
      simp [SubjectRef.fields, Prod.Lex.toLex_lt_toLex] at below
    | userset ref' =>
      simp only [SubjectRef.fields, ObjectRef.fields, Prod.Lex.toLex_lt_toLex, lt_irrefl,
        false_or, true_and, EmbeddingLike.apply_eq_iff_eq, Prod.mk.injEq] at below
      rcases below with (types | ⟨types, ids⟩) | ⟨⟨types, ids⟩, relations⟩
      · exact .cons (.rel types)
      · simp only [SubjectRef.subjectType, types]
        exact .cons (.cons (.rel ids))
      · simp only [SubjectRef.subjectType, subjectObjectId, types, ids]
        exact .cons (.cons (.cons (.rel relations)))
    | typedWildcard objectType => exact .rel last
  | typedWildcard objectType =>
    cases subject' with
    | object | userset => simp [SubjectRef.fields, Prod.Lex.toLex_lt_toLex] at below
    | typedWildcard objectType' =>
      simp only [SubjectRef.fields, Prod.Lex.toLex_lt_toLex, lt_irrefl, false_or, true_and,
        and_false, or_false] at below
      exact .cons (.rel below)

theorem forwardSegments_lt (below : key < key') : forwardSegments key < forwardSegments key' := by
  have fields : key.fields < key'.fields := below
  simp only [TupleKey.fields, ObjectRef.fields, Prod.Lex.toLex_lt_toLex,
    EmbeddingLike.apply_eq_iff_eq, Prod.mk.injEq] at fields
  unfold forwardSegments
  rcases fields with (types | ⟨types, ids⟩) | ⟨⟨types, ids⟩, relations | ⟨relations, subjects⟩⟩
  · exact .rel types
  · rw [types]
    exact .cons (.rel ids)
  · rw [types, ids]
    exact .cons (.cons (.rel relations))
  · rw [types, ids, relations]
    exact .cons (.cons (.cons (subjectSegments_lt subjects)))

theorem forwardKey_keeps : Keeps TupleKey.Canonical forwardKey := by
  intro key key' canonical canonical' below
  refine .cons keyVersion (keeps_closed.row (forwardSegments_encodable canonical).free
    (forwardSegments_encodable canonical').free ?_ (forwardSegments_lt below))
  simp [forwardSegments, subjectSegments]

theorem closed_ne_nil (text : String) : closed text ≠ [] := by
  simp [closed]

/-- A key starts with some texts if the texts are its first ones. -/
theorem key_isPrefix_iff {row row' : List String} (free : ∀ segment ∈ row, ZeroFree segment)
    (free' : ∀ segment ∈ row', ZeroFree segment) :
    keyVersion :: row.flatMap closed <+: keyVersion :: row'.flatMap closed ↔ row <+: row' := by
  rw [cons_prefix_cons, flatMap_isPrefix_iff keeps_closed.splitsOff closed_ne_nil free free']
  exact and_iff_right rfl

theorem forwardSegments_isPrefix_iff :
    [object.objectType.text, object.objectId.text, relation.text] <+: forwardSegments key ↔
      key.object = object ∧ key.relation = relation := by
  obtain ⟨⟨⟨type⟩, ⟨id⟩⟩, ⟨name⟩, subject⟩ := key
  obtain ⟨⟨type'⟩, ⟨id'⟩⟩ := object
  obtain ⟨name'⟩ := relation
  simp only [forwardSegments, cons_append, nil_append, cons_prefix_cons,
    nil_prefix, and_true, ObjectRef.mk.injEq, TypeName.mk.injEq, ObjectId.mk.injEq,
    RelationName.mk.injEq, and_assoc, eq_comm]

theorem subjectSegments_injective : Function.Injective subjectSegments := by
  have kinds : "o" ≠ "u" ∧ "o" ≠ "w" ∧ "u" ≠ "w" := by decide
  intro first second same
  simp only [subjectSegments, cons.injEq, and_true] at same
  obtain ⟨kind, types, ids, relations⟩ := same
  cases first with
  | object ref =>
    cases second with
    | object ref' =>
      obtain ⟨⟨type⟩, ⟨id⟩⟩ := ref
      obtain ⟨⟨type'⟩, ⟨id'⟩⟩ := ref'
      cases types
      cases ids
      rfl
    | userset _ => exact absurd kind kinds.1
    | typedWildcard _ => exact absurd kind kinds.2.1
  | userset ref =>
    cases second with
    | object _ => exact absurd kind.symm kinds.1
    | userset ref' =>
      obtain ⟨⟨⟨type⟩, ⟨id⟩⟩, ⟨relation⟩⟩ := ref
      obtain ⟨⟨⟨type'⟩, ⟨id'⟩⟩, ⟨relation'⟩⟩ := ref'
      cases types
      cases ids
      cases relations
      rfl
    | typedWildcard _ => exact absurd kind kinds.2.2
  | typedWildcard objectType =>
    cases second with
    | object _ => exact absurd kind.symm kinds.2.1
    | userset _ => exact absurd kind.symm kinds.2.2
    | typedWildcard objectType' =>
      obtain ⟨type⟩ := objectType
      obtain ⟨type'⟩ := objectType'
      cases types
      rfl

theorem reverseSegments_isPrefix_iff :
    subjectSegments subject ++ [objectType.text, relation.text] <+: reverseSegments key ↔
      key.subject = subject ∧ key.object.objectType = objectType ∧ key.relation = relation := by
  have split : subjectSegments subject ++ [objectType.text, relation.text] <+:
      reverseSegments key ↔ subjectSegments key.subject = subjectSegments subject ∧
        [objectType.text, relation.text] <+:
          [key.object.objectType.text, key.relation.text, key.object.objectId.text] := by
    simp only [reverseSegments, subjectSegments, cons_append, nil_append,
      cons_prefix_cons, nil_prefix, cons.injEq, and_true, and_assoc, eq_comm]
  obtain ⟨⟨⟨type⟩, ⟨id⟩⟩, ⟨name⟩, keySubject⟩ := key
  obtain ⟨type'⟩ := objectType
  obtain ⟨name'⟩ := relation
  rw [split, subjectSegments_injective.eq_iff]
  simp only [cons_prefix_cons, nil_prefix, and_true, TypeName.mk.injEq,
    RelationName.mk.injEq, eq_comm]

theorem forwardPrefix_encodable (canonical : object.Canonical) (named : relation.Canonical) :
    Encodable [object.objectType.text, object.objectId.text, relation.text] := by
  constructor
  · simp only [forall_mem_cons]
    exact ⟨CanonicalText.zeroFree canonical.objectType zero_refused.1,
      CanonicalText.zeroFree canonical.objectId zero_refused.2,
      CanonicalText.zeroFree named zero_refused.1, forall_mem_nil _⟩
  · have bounded := canonical.bounded
    rw [object.size_display] at bounded
    have short := named.bounded
    simp only [flatMap_cons, flatMap_nil, closed, length_append, length_bytesOf,
      length_singleton, length_nil]
    unfold maximumKeyBytes
    omega

theorem reversePrefix_encodable (canonical : subject.Canonical) (typed : objectType.Canonical)
    (named : relation.Canonical) :
    Encodable (subjectSegments subject ++ [objectType.text, relation.text]) := by
  constructor
  · intro segment member
    rcases mem_append.mp member with front | back
    · exact subjectSegments_free canonical segment front
    · simp only [mem_cons, not_mem_nil, or_false] at back
      rcases back with rfl | rfl
      · exact CanonicalText.zeroFree typed zero_refused.1
      · exact CanonicalText.zeroFree named zero_refused.1
  · have front := subjectSegments_length canonical
    have long := typed.bounded
    have short := named.bounded
    simp only [flatMap_append, flatMap_cons, flatMap_nil, closed,
      length_append, length_bytesOf, length_singleton, length_nil] at front ⊢
    unfold maximumKeyBytes
    omega

end KeyOrder

/-- The codec of the sort keys is exact. Keys are taken apart as they were put together, and
nothing else is accepted. The bytes that lead with the object are compared as the keys are.
A key starts with the bytes of an object and a relation, or of a subject, an object type and
a relation, if it has these. -/
theorem sort_keys_exact (key key' : TupleKey) (canonical : key.Canonical)
    (canonical' : key'.Canonical) :
    (∃ bytes bytes', encodeForward key = .ok bytes ∧ encodeForward key' = .ok bytes' ∧
      decodeForward bytes = .ok key ∧ (bytes < bytes' ↔ key < key') ∧
      ∀ (object : ObjectRef) (relation : RelationName), object.Canonical → relation.Canonical →
        ∃ start, forwardObjectRelationPrefix object relation = .ok start ∧
          (start <+: bytes ↔ key.object = object ∧ key.relation = relation)) ∧
    (∃ bytes, encodeReverse key = .ok bytes ∧ decodeReverse bytes = .ok key ∧
      ∀ (subject : SubjectRef) (objectType : TypeName) (relation : RelationName),
        subject.Canonical → objectType.Canonical → relation.Canonical →
        ∃ start, reversePrefix subject objectType relation = .ok start ∧
          (start <+: bytes ↔
            key.subject = subject ∧ key.object.objectType = objectType ∧
              key.relation = relation)) ∧
    ∀ bytes decoded,
      (decodeForward bytes = .ok decoded → decoded.Canonical ∧ encodeForward decoded = .ok bytes) ∧
      (decodeReverse bytes = .ok decoded →
        decoded.Canonical ∧ encodeReverse decoded = .ok bytes) := by
  refine ⟨⟨forwardKey key, forwardKey key', encodeForward_eq canonical,
    encodeForward_eq canonical', decodeForward_eq canonical,
    forwardKey_keeps.lt_iff canonical canonical', ?_⟩,
    ⟨reverseKey key, encodeReverse_eq canonical, decodeReverse_eq canonical, ?_⟩, ?_⟩
  · intro object relation objectCanonical named
    have encodable := forwardPrefix_encodable objectCanonical named
    refine ⟨_, encodable.encodeSegments_eq, ?_⟩
    rw [forwardKey, key_isPrefix_iff encodable.free (forwardSegments_encodable canonical).free,
      forwardSegments_isPrefix_iff]
  · intro subject objectType relation subjectCanonical typed named
    have encodable := reversePrefix_encodable subjectCanonical typed named
    refine ⟨_, encodable.encodeSegments_eq, ?_⟩
    rw [reverseKey, key_isPrefix_iff encodable.free (reverseSegments_encodable canonical).free,
      reverseSegments_isPrefix_iff]
  · exact fun bytes decoded => ⟨decodeForward_ok, decodeReverse_ok⟩

namespace Sample

/-- A user as a viewer of a document. -/
def key (document user : String) : TupleKey :=
  ⟨⟨⟨"doc"⟩, ⟨document⟩⟩, ⟨"viewer"⟩, .object ⟨⟨"user"⟩, ⟨user⟩⟩⟩

theorem key_canonical {document user : String}
    (named : CanonicalText 252 isObjectIdCharacter document) (concrete : document ≠ "*")
    (named' : CanonicalText 251 isObjectIdCharacter user) (concrete' : user ≠ "*") :
    (key document user).Canonical := by
  have doc : TypeName.Canonical ⟨"doc"⟩ := by decide
  have users : TypeName.Canonical ⟨"user"⟩ := by decide
  have viewer : RelationName.Canonical ⟨"viewer"⟩ := by decide
  have sizes : ("doc" : String).utf8ByteSize = 3 ∧ ("user" : String).utf8ByteSize = 4 := by decide
  have bounded := named.bounded
  have bounded' := named'.bounded
  refine ⟨⟨doc, named.mono (by decide), concrete, ?_⟩, viewer,
    ⟨users, named'.mono (by decide), concrete', ?_⟩⟩
  all_goals
    rw [ObjectRef.size_display]
    simp only [key, sizes]
    omega

end Sample

/-- A document whose identifier is the beginning of another one, and one with an accent and an
at sign. -/
theorem sort_keys_exact_accented :
    (Sample.key "é" "anne").Canonical ∧ (Sample.key "é@2" "anne").Canonical ∧
      ∃ bytes bytes', encodeForward (Sample.key "é" "anne") = .ok bytes ∧
        encodeForward (Sample.key "é@2" "anne") = .ok bytes' ∧
        decodeForward bytes = .ok (Sample.key "é" "anne") ∧ bytes < bytes' := by
  have canonical : (Sample.key "é" "anne").Canonical :=
    Sample.key_canonical (by decide) (by decide)
      (by decide) (by decide)
  have canonical' : (Sample.key "é@2" "anne").Canonical :=
    Sample.key_canonical (by decide) (by decide)
      (by decide) (by decide)
  obtain ⟨⟨bytes, bytes', encoded, encoded', decoded, order, _⟩, _⟩ :=
    sort_keys_exact _ _ canonical canonical'
  exact ⟨canonical, canonical', bytes, bytes', encoded, encoded', decoded,
    order.mpr (by decide)⟩

end OpenFga.Dynamo
