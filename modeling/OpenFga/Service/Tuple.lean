import OpenFga.Check.Rows
import OpenFga.Storage.Persistence

/-!
# Accepting tuples and assertions

A write request carries its tuples as texts and JSON. Each is converted, checked against the
model, and measured: the size of its context on the wire has a limit of its own. Whatever
passes is handed to the backend, which keeps it as a record.

The conversion leaves the sizes of the texts in a context to the measurement. The record is
read under the default limits, where a text has at most 4096 bytes. A tuple with a longer
text is therefore accepted and kept, and cannot be read afterwards.
-/

namespace OpenFga

open Notes

variable {measured : Nat} {mutation : ValidatedTupleWrite} {text : String}

/-- An error of the API: its code and its text. -/
structure ApiError where
  code : String
  message : String
  deriving DecidableEq, Repr

namespace ApiError

def invalidRequest : ApiError := ⟨"validation_error", "the request is invalid"⟩

def invalidObject (tooLong : Bool) : ApiError :=
  if tooLong then ⟨"object_too_long", "object exceeds its byte limit"⟩
  else ⟨"object_invalid_pattern", "object has an invalid format"⟩

def invalidRelation (tooLong : Bool) : ApiError :=
  if tooLong then ⟨"relation_too_long", "relation exceeds its byte limit"⟩
  else ⟨"validation_error", "relation has an invalid format"⟩

def invalidUser : ApiError :=
  ⟨"validation_error", "invalid relation: the 'user' field must be an object (e.g. document:1) " ++
    "or an 'object#relation' or a typed wildcard (e.g. group:*)"⟩

def missingTupleKey : ApiError := ⟨"tuple_key_value_not_specified", "tuple_key is required"⟩

end ApiError

/-- A context on the wire and its encoded length. -/
structure WireContext where
  value : JsonValue
  encodedLength : Nat

structure WireCondition where
  name : String
  context : Option WireContext

/-- A tuple key on the wire, before it is parsed. -/
structure WireTupleKey where
  object : String
  relation : String
  user : String

structure WireTuple where
  key : WireTupleKey
  condition : Option WireCondition

structure WireAssertion where
  tupleKey : Option WireTupleKey
  expectation : Bool
  contextualTuples : List WireTuple
  context : Option WireContext
  encodedLength : Nat

def domainParseTooLong : DomainError → Bool
  | .parse error => decide (error.kind = .tooLong)
  | .validation error => decide (error.reason = .tooLarge)

def tupleKey (key : WireTupleKey) (limits : InputLimits) : Except ApiError TupleKey := do
  let object ← (ObjectRef.parseWithLimits key.object limits).mapError
    fun error => .invalidObject (domainParseTooLong error)
  let relation ← (RelationName.parseWithLimits key.relation limits).mapError
    fun error => .invalidRelation (decide (error.kind = .tooLong))
  let subject ← (SubjectRef.parseWithLimits key.user limits).mapError fun _ => .invalidUser
  .ok ⟨object, relation, subject⟩

def conditionContextForWireSemantics (context : Option WireContext) (limits : InputLimits)
    (measuredWireBytes : Nat) : Except ApiError ConditionContext :=
  let value := (context.map WireContext.value).getD (.object [])
  (ConditionContext.tryFromJsonForWireSemantics value limits measuredWireBytes).mapError
    fun _ => .invalidRequest

/-- The tuple of a request; its context was measured on the wire. -/
def relationshipTupleForWireSemantics (tuple : WireTuple) (limits : InputLimits)
    (measuredBytes : Nat) : Except ApiError RelationshipTuple := do
  let key ← tupleKey tuple.key limits
  match tuple.condition with
  | none => .ok ⟨key, .unconditional⟩
  | some condition =>
      let name ← (ConditionName.parseWithLimits condition.name limits).mapError
        fun _ => .invalidRequest
      let context ← conditionContextForWireSemantics condition.context limits measuredBytes
      .ok ⟨key, .conditional ⟨name, context⟩⟩

def conditionContextSize (tuple : WireTuple) : Nat :=
  (tuple.condition.bind WireCondition.context).elim 0 WireContext.encodedLength

def domainAssertionForWireSemantics (assertion : WireAssertion) (limits : InputLimits)
    (measuredContainerBytes : Nat) : Except ApiError Assertion := do
  let key ← orError assertion.tupleKey .missingTupleKey
  let contextual ← assertion.contextualTuples.mapM
    fun tuple => relationshipTupleForWireSemantics tuple limits measuredContainerBytes
  let tuple ← tupleKey key limits
  let contextualTuples ← (ContextualTuples.newFromTuples contextual limits).mapError
    fun _ => .invalidRequest
  let conditionContext ← conditionContextForWireSemantics assertion.context limits
    measuredContainerBytes
  .ok ⟨tuple, assertion.expectation, contextualTuples, conditionContext⟩

section Service

inductive ServiceErrorKind where
  | invalidRequest
  | resourceExhausted
  | internal
  deriving DecidableEq, Repr

/-- A refused request, and what it is about. -/
structure ServiceError where
  kind : ServiceErrorKind
  code : String
  source : Option TupleValidationError
  tuple : Option TupleKey
  condition : Option ConditionName
  conditionParameterCount : Option Nat
  actual : Option Nat
  limit : Option Nat
  deriving DecidableEq, Repr

namespace ServiceError

def new (kind : ServiceErrorKind) (code : String) : ServiceError :=
  ⟨kind, code, none, none, none, none, none, none⟩

def ofTupleValidation (source : TupleValidationError) : ServiceError :=
  { new (match source.kind with
      | .compiledModel => .internal
      | _ => .invalidRequest) source.code with source := some source }

def conditionName (tuple : RelationshipTuple) : Option ConditionName :=
  match tuple.condition with
  | .unconditional => none
  | .conditional binding => some binding.name

def withRelationshipTuple (error : ServiceError) (tuple : RelationshipTuple) : ServiceError :=
  { error with tuple := some tuple.key, condition := conditionName tuple }

def conditionContextSize (tuple : RelationshipTuple) (actual limit : Nat) : ServiceError :=
  { new .invalidRequest "relationship_condition_context_size" with
    tuple := some tuple.key
    condition := conditionName tuple
    actual := some actual
    limit := some limit }

def tupleWriteLimit (limit : Nat) : ServiceError :=
  { new .resourceExhausted "tuple_write_item_limit" with limit := some limit }

/-- The code under which a broken query is reported for an assertion. -/
def assertionCode (code : String) : String :=
  if code = "query_object_type_missing" then "assertion_object_type_missing"
  else if code = "query_relation_missing" then "assertion_relation_missing"
  else if code = "query_subject_type_missing" then "assertion_subject_type_missing"
  else if code = "query_userset_relation_missing" then "assertion_userset_relation_missing"
  else code

def assertionTuple (source : TupleValidationError) (tuple : TupleKey) : ServiceError :=
  { new .invalidRequest (assertionCode source.code) with
    source := some source
    tuple := some tuple }

end ServiceError

variable (model : CompiledModel) (limits : InputLimits)

def conditionParameterCount (tuple : RelationshipTuple) : Option Nat := do
  let name ← ServiceError.conditionName tuple
  let id ← model.conditionId name
  let condition ← model.condition id
  some condition.parameters.length

/-- Checks one tuple of a request and the size of its context. -/
def prepareTuple (contextLimit : Nat) (tuple : RelationshipTuple) (encodedSize : Nat) :
    Except ServiceError Unit := do
  (model.validatePersistentTuple tuple).mapError fun error =>
    { (ServiceError.ofTupleValidation error).withRelationshipTuple tuple with
      conditionParameterCount := conditionParameterCount model tuple }
  if contextLimit < encodedSize then
    .error (.conditionContextSize tuple encodedSize contextLimit)
  else .ok ()

/-- The first key that a request names twice. -/
def firstRepeated : List TupleKey → List TupleKey → Option TupleKey
  | _, [] => none
  | seen, key :: keys => if key ∈ seen then some key else firstRepeated (key :: seen) keys

def validateMutationShape (deletes : List TupleKey) (writes : List RelationshipTuple) :
    Option ServiceError :=
  match firstRepeated [] (deletes ++ writes.map RelationshipTuple.key) with
  | some key => some { ServiceError.new .invalidRequest "duplicate_tuple_in_write" with
      tuple := some key }
  | none =>
      if limits.writeTuples.get < deletes.length + writes.length then
        some (.tupleWriteLimit limits.writeTuples.get)
      else none

/-- A write that has passed the checks. -/
structure ValidatedTupleWrite where
  storeId : StoreId
  deletes : List TupleKey
  writes : List RelationshipTuple

def prepareWrite (deletes : List TupleKey) (writes : List RelationshipTuple)
    (sizes : List Nat) (contextLimit : Nat) : Except ServiceError ValidatedTupleWrite := do
  if deletes.isEmpty && writes.isEmpty then .error (.new .invalidRequest "tuple_write_empty")
  else if sizes.length ≠ writes.length then
    .error (.new .invalidRequest "condition_context_size_count_mismatch")
  else
    (writes.zip sizes).forM fun entry => prepareTuple model contextLimit entry.1 entry.2
    match validateMutationShape limits deletes writes with
    | some error => .error error
    | none => .ok ⟨model.storeId, deletes, writes⟩

def maximumConditionContextBytes : Nat := 32768

def maximumAssertionBytes : Nat := 64000

/-- Converts and prepares the tuples of a request. -/
def acceptWrite (deletes : List WireTupleKey) (writes : List WireTuple) :
    Except (ApiError ⊕ ServiceError) ValidatedTupleWrite := do
  let tuples ← (writes.mapM fun tuple =>
    relationshipTupleForWireSemantics tuple limits (conditionContextSize tuple)).mapError .inl
  let keys ← (deletes.mapM fun key => tupleKey key limits).mapError .inl
  (prepareWrite model limits keys tuples (writes.map conditionContextSize)
    maximumConditionContextBytes).mapError .inr

def validateAssertion (assertion : Assertion) : Except ServiceError Unit := do
  let _ ← (model.validateQueryTuple assertion.tuple).mapError
    fun error => .assertionTuple error assertion.tuple
  assertion.contextualTuples.tuples.forM fun tuple =>
    (model.validateRelationshipTuple tuple).mapError fun error =>
      { (ServiceError.ofTupleValidation error).withRelationshipTuple tuple with
        conditionParameterCount := conditionParameterCount model tuple }

/-- Converts and validates the assertions of a request. -/
def acceptAssertions (assertions : List WireAssertion) :
    Except (ApiError ⊕ ServiceError) (List Assertion) := do
  if maximumAssertionBytes < (assertions.map WireAssertion.encodedLength).sum then
    .error (.inl ⟨"exceeded_entity_limit",
      "The number of bytes exceeds the allowed limit of 64000"⟩)
  else
    let converted ← (assertions.mapM fun assertion =>
      domainAssertionForWireSemantics assertion limits maximumAssertionBytes).mapError .inl
    if limits.assertions.get < converted.length then
      .error (.inr (.new .resourceExhausted "assertion_item_limit"))
    else
      (converted.forM (validateAssertion model)).mapError .inr
      .ok converted

end Service

section Genuine

variable {limits : InputLimits}

theorem tupleKey_canonical {wire : WireTupleKey} {key : TupleKey}
    (made : tupleKey wire limits = .ok key) : key.Canonical := by
  obtain ⟨object, objectMade, made⟩ := bind_eq_ok.mp made
  obtain ⟨relation, relationMade, made⟩ := bind_eq_ok.mp made
  obtain ⟨subject, subjectMade, made⟩ := bind_eq_ok.mp made
  cases made
  exact ⟨(ObjectRef.of_parse (mapError_eq_ok.mp objectMade)).1,
    RelationName.canonical_of_parse (mapError_eq_ok.mp relationMade),
    (SubjectRef.of_parse (mapError_eq_ok.mp subjectMade)).1⟩

theorem wireContext_genuine {wire : Option WireContext} {context : ConditionContext}
    (made : conditionContextForWireSemantics wire limits measured = .ok context) :
    context.Genuine :=
  ConditionContext.genuine_of_json (mapError_eq_ok.mp made)

/-- A converted tuple is one that the domain can hold. -/
theorem wireTuple_genuine {wire : WireTuple} {tuple : RelationshipTuple}
    (made : relationshipTupleForWireSemantics wire limits measured = .ok tuple) :
    tuple.Genuine := by
  obtain ⟨key, keyMade, made⟩ := bind_eq_ok.mp made
  have canonical := tupleKey_canonical keyMade
  split at made
  · cases made
    exact ⟨canonical, trivial⟩
  · obtain ⟨name, nameMade, made⟩ := bind_eq_ok.mp made
    obtain ⟨context, contextMade, made⟩ := bind_eq_ok.mp made
    cases made
    exact ⟨canonical, ConditionName.canonical_of_parse (mapError_eq_ok.mp nameMade),
      wireContext_genuine contextMade⟩

theorem wireAssertion_genuine {wire : WireAssertion} {assertion : Assertion}
    (made : domainAssertionForWireSemantics wire limits measured = .ok assertion) :
    assertion.Genuine := by
  obtain ⟨key, _, made⟩ := bind_eq_ok.mp made
  obtain ⟨tuples, tuplesMade, made⟩ := bind_eq_ok.mp made
  obtain ⟨tuple, tupleMade, made⟩ := bind_eq_ok.mp made
  obtain ⟨contextual, contextualMade, made⟩ := bind_eq_ok.mp made
  obtain ⟨context, contextMade, made⟩ := bind_eq_ok.mp made
  cases made
  refine ⟨tupleKey_canonical tupleMade, fun contextualTuple member => ?_,
    wireContext_genuine contextMade⟩
  rw [(ContextualTuples.newFromTuples_eq_ok (mapError_eq_ok.mp contextualMade)).1] at member
  obtain ⟨source, _, converted⟩ := mem_of_mapM tuplesMade contextualTuple member
  exact wireTuple_genuine converted

variable {model : CompiledModel}

theorem prepareWrite_writes {deletes : List TupleKey} {writes : List RelationshipTuple}
    {sizes : List Nat} {contextLimit : Nat}
    (prepared : prepareWrite model limits deletes writes sizes contextLimit = .ok mutation) :
    mutation.writes = writes := by
  obtain ⟨-, prepared⟩ := guard_eq_ok.mp prepared
  split at prepared
  · cases prepared
  obtain ⟨_, _, prepared⟩ := bind_eq_ok.mp prepared
  split at prepared
  · cases prepared
  · cases prepared
    rfl

theorem acceptWrite_genuine {deletes : List WireTupleKey} {writes : List WireTuple}
    (accepted : acceptWrite model limits deletes writes = .ok mutation) :
    ∀ tuple ∈ mutation.writes, tuple.Genuine := by
  obtain ⟨tuples, tuplesMade, accepted⟩ := bind_eq_ok.mp accepted
  obtain ⟨keys, _, accepted⟩ := bind_eq_ok.mp accepted
  rw [prepareWrite_writes (mapError_eq_ok.mp accepted)]
  intro tuple member
  obtain ⟨source, _, converted⟩ := mem_of_mapM (mapError_eq_ok.mp tuplesMade) tuple member
  exact wireTuple_genuine converted

theorem acceptAssertions_genuine {wire : List WireAssertion} {assertions : List Assertion}
    (accepted : acceptAssertions model limits wire = .ok assertions) :
    ∀ assertion ∈ assertions, assertion.Genuine := by
  obtain ⟨-, accepted⟩ := guard_eq_ok.mp accepted
  obtain ⟨converted, made, accepted⟩ := bind_eq_ok.mp accepted
  split at accepted
  · cases accepted
  obtain ⟨_, _, accepted⟩ := bind_eq_ok.mp accepted
  cases accepted
  intro assertion member
  obtain ⟨source, _, converts⟩ := mem_of_mapM (mapError_eq_ok.mp made) assertion member
  exact wireAssertion_genuine converts

end Genuine

/-- Accepted tuples and assertions whose records the serialisation gives back are read back
exactly if the records are small enough and the contexts pass the default limits. -/
theorem accepted_readable_iff (model : CompiledModel) (limits : InputLimits)
    (tuples : Serde TupleEnvelope) (records : Serde AssertionsEnvelope) :
    (∀ deletes writes mutation, acceptWrite model limits deletes writes = .ok mutation →
      ∀ tuple ∈ mutation.writes, tuples.GivesBack (.fromTuple tuple) →
        (decodeTuple tuples (encodeTuple tuples tuple) = .ok tuple ↔ tuple.Readable tuples)) ∧
    ∀ wire assertions, acceptAssertions model limits wire = .ok assertions →
      records.GivesBack ⟨codecVersion, assertions.map .fromAssertion⟩ →
      (decodeAssertions records (encodeAssertions records assertions) = .ok assertions ↔
        (encodeAssertions records assertions).length ≤ maximumAssertionPayloadBytes ∧
          ∀ assertion ∈ assertions, assertion.Standard) := by
  constructor
  · intro deletes writes mutation accepted tuple member given
    have genuine := acceptWrite_genuine accepted tuple member
    exact ⟨RelationshipTuple.ReadsBack.readable, fun readable => readable.readsBack genuine given⟩
  · intro wire assertions accepted
    exact decodeAssertions_iff (acceptAssertions_genuine accepted)

namespace Notes

/-! Documents with `viewer: [user with noted]`, where `noted` takes the text of the note. -/

def isText : ContextValue → Bool
  | .string _ => true
  | _ => false

def noted : CompiledCondition where
  name := ⟨"noted"⟩
  parameters := [⟨⟨"note"⟩, fun _ => true, isText⟩]
  program := fun _ _ => .ok ⟨true, 1⟩
  program_stable := fun _ _ _ _ _ => rfl

def notedModel : CompiledModel :=
  { Sample.guarded with
    types := [⟨"user"⟩, ⟨"doc"⟩]
    conditions := [noted]
    types_nodup := by decide
    conditions_nodup := by decide
    relations_valid := by decide
    restrictions_valid := by decide }

/-- A field of a message on the wire: a tag, the length of its content and the content, which
has less than 2 ^ 14 bytes. -/
def fieldLength (content : Nat) : Nat := 1 + (if content < 128 then 1 else 2) + content

/-- The note as a message with one entry, which has a key and a value. -/
def noteLength (text : String) : Nat :=
  fieldLength (fieldLength 4 + fieldLength (fieldLength text.utf8ByteSize))

def noteContext (text : String) : WireContext := ⟨.object [("note", .string text)], noteLength text⟩

def noteRequest (text : String) : WireTuple :=
  ⟨⟨"doc:1", "viewer", "user:anne"⟩, some ⟨"noted", some (noteContext text)⟩⟩

theorem le_fieldLength (content : Nat) : content ≤ fieldLength content := Nat.le_add_left _ _

theorem fieldLength_le (content : Nat) : fieldLength content ≤ content + 3 := by
  unfold fieldLength
  split <;> omega

theorem size_le_noteLength (text : String) : text.utf8ByteSize ≤ noteLength text :=
  calc text.utf8ByteSize
    _ ≤ fieldLength (fieldLength text.utf8ByteSize) :=
      (le_fieldLength _).trans (le_fieldLength _)
    _ ≤ noteLength text := (Nat.le_add_left _ _).trans (le_fieldLength _)

theorem note_converted {bytes : Nat} (short : text.utf8ByteSize ≤ bytes) :
    ConditionContext.tryFromJsonForWireSemantics (noteContext text).value .standard bytes =
      .ok (note text) := by
  have name : ParameterName.parseWithLimits "note" .standard = .ok ⟨"note"⟩ := by decide
  have fits : ContextString.newWithLimit text bytes = .ok text := if_neg (Nat.not_lt.mpr short)
  have converted : convertJsonParameters .standard bytes [("note", .string text)] ∅ =
      .ok ((∅ : ContextMap).insert ⟨"note"⟩ (.string text)) := by
    simp only [convertJsonParameters, name, convertJsonValue, fits, Except.mapError]
    rfl
  simp only [ConditionContext.tryFromJsonForWireSemantics, noteContext,
    ConditionContext.tryFromJsonWithPolicy, converted]
  rfl

theorem note_made {bytes : Nat} (short : text.utf8ByteSize ≤ bytes) :
    relationshipTupleForWireSemantics (noteRequest text) .standard bytes =
      .ok (noteTuple text) := by
  have key : tupleKey ⟨"doc:1", "viewer", "user:anne"⟩ .standard = .ok (noteTuple "").key := by
    decide
  have name : ConditionName.parseWithLimits "noted" .standard = .ok ⟨"noted"⟩ := by decide
  have context : conditionContextForWireSemantics (some (noteContext text)) .standard bytes =
      .ok (note text) := by
    rw [conditionContextForWireSemantics]
    exact mapError_eq_ok.mpr (note_converted short)
  simp only [relationshipTupleForWireSemantics, noteRequest, key, name, context, bind, Except.bind,
    Except.mapError]
  rfl

/-- A note of up to five thousand bytes is accepted. -/
theorem note_accepted (short : text.utf8ByteSize ≤ 5000) :
    acceptWrite notedModel .standard [] [noteRequest text] =
      .ok ⟨⟨"store"⟩, [], [noteTuple text]⟩ := by
  have size : conditionContextSize (noteRequest text) = noteLength text := rfl
  have fits : noteLength text ≤ maximumConditionContextBytes := by
    have inner := fieldLength_le (fieldLength 4 + fieldLength (fieldLength text.utf8ByteSize))
    have value := fieldLength_le (fieldLength text.utf8ByteSize)
    have content := fieldLength_le text.utf8ByteSize
    have key : fieldLength 4 = 6 := rfl
    unfold noteLength maximumConditionContextBytes
    omega
  have prepared : prepareTuple notedModel maximumConditionContextBytes (noteTuple text)
      (noteLength text) = .ok () := if_neg (Nat.not_lt.mpr fits)
  have each : [(noteTuple text, noteLength text)].forM (fun entry =>
      prepareTuple notedModel maximumConditionContextBytes entry.1 entry.2) = .ok () := by
    change (prepareTuple _ _ _ _ >>= fun _ => _) = _
    rw [prepared]
    rfl
  simp only [acceptWrite, List.mapM_cons, List.mapM_nil, List.map_cons, List.map_nil, size,
    note_made (size_le_noteLength text), bind, Except.bind, pure, Except.pure, Except.mapError,
    prepareWrite, List.zip_cons_cons, List.zip_nil_left, each]
  rfl

/-- That Anne views the document, as an assertion without a context. -/
def viewing : WireAssertion := ⟨some ⟨"doc:1", "viewer", "user:anne"⟩, true, [], none, 30⟩

def viewingAssertion : Assertion := ⟨(noteTuple "").key, true, ⟨[], .nil⟩, .ofMap ∅⟩

/-- Serialisations that know the note of one letter and the assertion. -/
def noteSerde : Serde TupleEnvelope := .keyed [.fromTuple (noteTuple "a")]

def viewingSerde : Serde AssertionsEnvelope :=
  .marking (fun envelope => [UInt8.ofNat envelope.assertions.length])
    [⟨codecVersion, [.fromAssertion viewingAssertion]⟩]

end Notes

/-- A note of 5000 bytes is accepted and cannot be read back, whatever its record looks like. -/
theorem accepted_long_note_unreadable :
    acceptWrite notedModel .standard [] [noteRequest longNote] =
        .ok ⟨⟨"store"⟩, [], [noteTuple longNote]⟩ ∧
      ∀ tuples : Serde TupleEnvelope,
        decodeTuple tuples (encodeTuple tuples (noteTuple longNote)) ≠
          .ok (noteTuple longNote) :=
  ⟨note_accepted size_longNote.le, longNote_unreadable⟩

/-- A note of one letter and an assertion are accepted and read back. -/
theorem accepted_readable_short_note :
    acceptWrite notedModel .standard [] [noteRequest "a"] =
        .ok ⟨⟨"store"⟩, [], [noteTuple "a"]⟩ ∧
      decodeTuple noteSerde (encodeTuple noteSerde (noteTuple "a")) = .ok (noteTuple "a") ∧
      acceptAssertions notedModel .standard [viewing] = .ok [viewingAssertion] ∧
      decodeAssertions viewingSerde (encodeAssertions viewingSerde [viewingAssertion]) =
        .ok [viewingAssertion] := by
  have written := note_accepted (show ("a" : String).utf8ByteSize ≤ 5000 by decide)
  have asserted : acceptAssertions notedModel .standard [viewing] = .ok [viewingAssertion] := rfl
  obtain ⟨tuples, assertions⟩ := accepted_readable_iff notedModel .standard noteSerde viewingSerde
  have readable := tuples [] _ _ written _ List.mem_cons_self rfl
  refine ⟨written, readable.mpr ⟨by decide, (note_standard_iff "a").mpr (by decide)⟩, asserted,
    (assertions _ _ asserted rfl).mpr ⟨by decide, ?_⟩⟩
  intro assertion member
  cases List.mem_singleton.mp member
  exact ⟨by decide, nofun, rfl⟩

end OpenFga
