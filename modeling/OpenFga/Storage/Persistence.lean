import OpenFga.Domain.Json
import OpenFga.Storage.Types

/-!
# Persisted tuples and assertions

A backend keeps a tuple as the serialised form of a plain record: a version, the text of the
key, and the name and values of the condition. Reading it back validates every part again,
always under the default limits. Whoever wrote the record may have worked with wider limits,
or without some of them, so a record need not be readable by the one that wrote it.

Nothing is assumed of the serialisation itself: that it gives a record back is a condition on
this record.
-/

namespace OpenFga

open Std ContextualTuples

variable {context : ConditionContext} {binding : ConditionBinding}

/-- A serialisation: the bytes of a record, and the record that is read from bytes. -/
structure Serde (δ : Type) where
  toVec : δ → List UInt8
  fromSlice : List UInt8 → Option δ

/-- Writes a mark of the record, and finds the record again among some that it knows. -/
def Serde.marking {δ : Type} (mark : δ → List UInt8) (known : List δ) : Serde δ where
  toVec := mark
  fromSlice := fun bytes => known.find? fun dto => decide (mark dto = bytes)

/-- The serialisation reads this record as it was written. A number with a fraction may come
back as its neighbour, so this need not hold for every record. -/
def Serde.GivesBack {δ : Type} (serde : Serde δ) (dto : δ) : Prop :=
  serde.fromSlice (serde.toVec dto) = some dto

def codecVersion : UInt8 := 1

def maximumTuplePayloadBytes : Nat := 2 * 1024 * 1024

def maximumAssertionPayloadBytes : Nat := 8 * 1024 * 1024

/-- A context value as it is stored. -/
inductive ContextValueDto where
  | null
  | bool (value : Bool)
  | int (value : Int64)
  | uint (value : UInt64)
  | double (bits : UInt64)
  | string (value : String)
  | bytes (value : List UInt8)
  | list (values : List ContextValueDto)
  | map (entries : List (String × ContextValueDto))

structure ConditionBindingDto where
  name : String
  context : List (String × ContextValueDto)

/-- A tuple as it is stored. -/
structure TupleEnvelope where
  version : UInt8
  key : String
  condition : Option ConditionBindingDto

/-- Tuples are recognised by their keys. -/
def Serde.keyed (known : List TupleEnvelope) : Serde TupleEnvelope :=
  .marking (fun envelope => textBytes envelope.key) known

structure AssertionDto where
  tuple : String
  expectation : Bool
  contextualTuples : List TupleEnvelope
  conditionContext : List (String × ContextValueDto)

/-- The assertions of a model, as stored. -/
structure AssertionsEnvelope where
  version : UInt8
  assertions : List AssertionDto

namespace ContextValueDto

mutual

def fromValue : ContextValue → ContextValueDto
  | .null => .null
  | .bool value => .bool value
  | .int value => .int value
  | .uint value => .uint value
  | .double bits => .double bits
  | .string value => .string value
  | .bytes value => .bytes value
  | .list values => .list (fromItems values)
  | .map entries => .map (fromEntries entries)

def fromItems : List ContextValue → List ContextValueDto
  | [] => []
  | value :: values => fromValue value :: fromItems values

def fromEntries : List (String × ContextValue) → List (String × ContextValueDto)
  | [] => []
  | (key, value) :: entries => (key, fromValue value) :: fromEntries entries

end

end ContextValueDto

/-- The parameters of a context, by the texts of their names. -/
def contextToDto (context : ConditionContext) : List (String × ContextValueDto) :=
  context.values.map fun entry => (entry.1.text, .fromValue entry.2)

def ConditionBindingDto.fromBinding (binding : ConditionBinding) : ConditionBindingDto :=
  ⟨binding.name.text, contextToDto binding.context⟩

def TupleEnvelope.fromTuple (tuple : RelationshipTuple) : TupleEnvelope where
  version := codecVersion
  key := tuple.key.display
  condition :=
    match tuple.condition with
    | .unconditional => none
    | .conditional binding => some (.fromBinding binding)

def AssertionDto.fromAssertion (assertion : Assertion) : AssertionDto where
  tuple := assertion.tuple.display
  expectation := assertion.expectation
  contextualTuples := assertion.contextualTuples.tuples.map .fromTuple
  conditionContext := contextToDto assertion.conditionContext

def encodeTuple (serde : Serde TupleEnvelope) (tuple : RelationshipTuple) : List UInt8 :=
  serde.toVec (.fromTuple tuple)

def encodeAssertions (serde : Serde AssertionsEnvelope) (assertions : List Assertion) :
    List UInt8 :=
  serde.toVec ⟨codecVersion, assertions.map .fromAssertion⟩

section Reading

def integrity (code : String) : StorageError := .new .integrity code

def requireVersion (version : UInt8) : Except StorageError Unit :=
  if version = codecVersion then .ok ()
  else .error (integrity "persistence_codec_version_unsupported")

def requirePayloadLimit (bytes : List UInt8) (maximum : Nat) (code : String) :
    Except StorageError Unit :=
  if bytes.length ≤ maximum then .ok () else .error (integrity code)

namespace ContextValueDto

variable (limits : InputLimits)

mutual

def intoValue : ContextValueDto → Except StorageError ContextValue
  | .null => .ok .null
  | .bool value => .ok (.bool value)
  | .int value => .ok (.int value)
  | .uint value => .ok (.uint value)
  | .double bits => do
      let bits ← (FiniteFloat.new bits).mapError fun _ => integrity "persisted_context_double"
      .ok (.double bits)
  | .string value => do
      let value ← (ContextString.newWithLimit value limits.contextStringBytes.get).mapError
        fun _ => integrity "persisted_context_string"
      .ok (.string value)
  | .bytes value => do
      let value ← (ContextBytes.newWithLimit value limits.contextStringBytes.get).mapError
        fun _ => integrity "persisted_context_bytes"
      .ok (.bytes value)
  | .list values => do
      let values ← intoItems values
      (checkItems limits "context_list" values.length).mapError
        fun _ => integrity "persisted_context_list"
      .ok (.list values)
  | .map entries => do
      let entries ← intoEntries entries
      (checkItems limits "context_map" entries.length).mapError
        fun _ => integrity "persisted_context_map"
      .ok (.map entries)

def intoItems : List ContextValueDto → Except StorageError (List ContextValue)
  | [] => .ok []
  | value :: values => do
      let value ← intoValue value
      let values ← intoItems values
      .ok (value :: values)

def intoEntries : List (String × ContextValueDto) →
    Except StorageError (List (String × ContextValue))
  | [] => .ok []
  | (key, value) :: entries => do
      (checkKeyBytes limits key).mapError fun _ => integrity "persisted_context_key"
      let value ← intoValue value
      let entries ← intoEntries entries
      .ok ((key, value) :: entries)

end

end ContextValueDto

def intoParameter (limits : InputLimits) (entry : String × ContextValueDto) :
    Except StorageError (ParameterName × ContextValue) := do
  let name ← (ParameterName.parseWithLimits entry.1 limits).mapError
    fun _ => integrity "persisted_context_parameter"
  let value ← entry.2.intoValue limits
  .ok (name, value)

def contextFromDto (values : List (String × ContextValueDto)) (limits : InputLimits) :
    Except StorageError ConditionContext := do
  let values ← values.mapM (intoParameter limits)
  (ConditionContext.new (.ofList values) limits).mapError
    fun _ => integrity "persisted_context_invalid"

def ConditionBindingDto.intoBinding (dto : ConditionBindingDto) :
    Except StorageError ConditionBinding := do
  let context ← contextFromDto dto.context .standard
  let name ← (ConditionName.parseWithLimits dto.name .standard).mapError
    fun _ => integrity "persisted_condition_name"
  .ok ⟨name, context⟩

def parsePersisted (value code : String) : Except StorageError TupleKey :=
  (TupleKey.parseWithLimits value .standard).mapError fun _ => integrity code

def TupleEnvelope.intoTuple (envelope : TupleEnvelope) : Except StorageError RelationshipTuple := do
  requireVersion envelope.version
  let key ← parsePersisted envelope.key "persisted_tuple_key"
  match envelope.condition with
  | none => .ok ⟨key, .unconditional⟩
  | some dto =>
      let binding ← dto.intoBinding
      .ok ⟨key, .conditional binding⟩

def decodeTuple (serde : Serde TupleEnvelope) (bytes : List UInt8) :
    Except StorageError RelationshipTuple := do
  requirePayloadLimit bytes maximumTuplePayloadBytes "persisted_tuple_payload_limit"
  let envelope ← orError (serde.fromSlice bytes) (integrity "persistence_decode_failed")
  envelope.intoTuple

/-- The check of a list that may hold a key twice. -/
def ContextualTuples.newFromTuples (tuples : List RelationshipTuple) (limits : InputLimits) :
    Except ValidationError ContextualTuples :=
  if limits.contextualTuples.get < tuples.length then
    .error ⟨"contextual_tuples", .tooManyItems⟩
  else if distinct : (tuples.map RelationshipTuple.key).Nodup then .ok ⟨tuples, distinct⟩
  else .error ⟨"contextual_tuples", .duplicate⟩

def AssertionDto.intoAssertion (dto : AssertionDto) : Except StorageError Assertion := do
  let contextualTuples ← dto.contextualTuples.mapM TupleEnvelope.intoTuple
  let tuple ← parsePersisted dto.tuple "persisted_assertion_tuple"
  let contextualTuples ← (newFromTuples contextualTuples .standard).mapError
    fun _ => integrity "persisted_assertion_context"
  let conditionContext ← contextFromDto dto.conditionContext .standard
  .ok ⟨tuple, dto.expectation, contextualTuples, conditionContext⟩

def decodeAssertions (serde : Serde AssertionsEnvelope) (bytes : List UInt8) :
    Except StorageError (List Assertion) := do
  requirePayloadLimit bytes maximumAssertionPayloadBytes "persisted_assertion_payload_limit"
  let envelope ← orError (serde.fromSlice bytes) (integrity "persistence_decode_failed")
  requireVersion envelope.version
  envelope.assertions.mapM AssertionDto.intoAssertion

end Reading

section Values

open ContextValueDto

variable {limits : InputLimits}

/-- The value passes the check of the whole tree at some depth. -/
def Passes (limits : InputLimits) (value : ContextValue) : Prop :=
  ∃ depth before after, validateContextValue limits true depth value before = .ok after

theorem intoItems_ok {values : List ContextValue} {depth : Nat} {before after : ContextStats}
    (each : ∀ value ∈ values, Passes limits value →
      (fromValue value).intoValue limits = .ok value)
    (checked : validateItems limits true depth values before = .ok after) :
    intoItems limits (fromItems values) = .ok values := by
  induction values generalizing before with
  | nil => rw [fromItems, intoItems]
  | cons value values ih =>
    obtain ⟨here, there⟩ := List.forall_mem_cons.mp each
    rw [validateItems] at checked
    obtain ⟨between, head, tail⟩ := bind_eq_ok.mp checked
    rw [fromItems, intoItems, here ⟨_, _, _, head⟩, ih there tail]
    rfl

theorem intoEntries_ok {entries : List (String × ContextValue)} {depth : Nat}
    {before after : ContextStats}
    (each : ∀ entry ∈ entries, Passes limits entry.2 →
      (fromValue entry.2).intoValue limits = .ok entry.2)
    (checked : validateEntries limits true depth entries before = .ok after) :
    intoEntries limits (fromEntries entries) = .ok entries := by
  induction entries generalizing before with
  | nil => rw [fromEntries, intoEntries]
  | cons entry entries ih =>
    obtain ⟨here, there⟩ := List.forall_mem_cons.mp each
    rw [validateEntries] at checked
    obtain ⟨_, key, checked⟩ := bind_eq_ok.mp checked
    obtain ⟨between, _, checked⟩ := bind_eq_ok.mp checked
    obtain ⟨between', head, tail⟩ := bind_eq_ok.mp checked
    rw [fromEntries, intoEntries, key, here ⟨_, _, _, head⟩, ih there tail]
    rfl

theorem not_exceeds_of_checkValueBytes {field : String} {bytes : Nat}
    (short : checkValueBytes limits true field bytes = .ok ()) :
    ¬limits.contextStringBytes.get < bytes := by
  intro exceeds
  rw [checkValueBytes, if_pos (by simpa using exceeds)] at short
  cases short

/-- A value that passes the check of the whole tree can be read back. -/
theorem intoValue_ok {value : ContextValue} (genuine : value.Genuine)
    (passes : Passes limits value) : (fromValue value).intoValue limits = .ok value := by
  induction genuine with
  | null | bool | int | uint => rw [fromValue, intoValue]
  | double normal =>
    rw [fromValue, intoValue, normal]
    rfl
  | string value =>
    obtain ⟨depth, before, after, checked⟩ := passes
    obtain ⟨-, checked⟩ := guard_eq_ok.mp checked
    obtain ⟨between, _, checked⟩ := bind_eq_ok.mp checked
    obtain ⟨_, short, _⟩ := bind_eq_ok.mp checked
    rw [fromValue, intoValue, ContextString.newWithLimit,
      if_neg (not_exceeds_of_checkValueBytes short)]
    rfl
  | bytes value =>
    obtain ⟨depth, before, after, checked⟩ := passes
    rw [validateContextValue] at checked
    obtain ⟨-, checked⟩ := guard_eq_ok.mp checked
    obtain ⟨between, _, checked⟩ := bind_eq_ok.mp checked
    obtain ⟨_, short, _⟩ := bind_eq_ok.mp checked
    rw [fromValue, intoValue, ContextBytes.newWithLimit,
      if_neg (not_exceeds_of_checkValueBytes short)]
    rfl
  | list items ih =>
    obtain ⟨depth, before, after, checked⟩ := passes
    obtain ⟨-, checked⟩ := guard_eq_ok.mp checked
    obtain ⟨between, _, checked⟩ := bind_eq_ok.mp checked
    obtain ⟨_, few, inner⟩ := bind_eq_ok.mp checked
    rw [fromValue, intoValue, intoItems_ok ih inner]
    simp only [bind, Except.bind, few]
    rfl
  | map items ih =>
    obtain ⟨depth, before, after, checked⟩ := passes
    obtain ⟨-, checked⟩ := guard_eq_ok.mp checked
    obtain ⟨between, _, checked⟩ := bind_eq_ok.mp checked
    obtain ⟨_, few, inner⟩ := bind_eq_ok.mp checked
    rw [fromValue, intoValue, intoEntries_ok ih inner]
    simp only [bind, Except.bind, few]
    rfl

end Values

section Contexts

open ContextValueDto

/-- A context that passes the default limits, all of them. -/
def ConditionContext.Standard (context : ConditionContext) : Prop :=
  ConditionContext.new context.toMap .standard = .ok context

/-- Parameters of normal values under accepted names. -/
def GenuineParameters (values : List (ParameterName × ContextValue)) : Prop :=
  ∀ entry ∈ values, entry.1.Canonical ∧ entry.2.Genuine

theorem ConditionContext.Genuine.parameters (genuine : context.Genuine) :
    GenuineParameters context.values := by
  obtain ⟨values, rfl, each⟩ := genuine
  intro entry member
  exact each entry.1 entry.2 (ExtTreeMap.mem_toList_iff_getElem?_eq_some.mp member)

theorem intoParameters_ok {values : List (ParameterName × ContextValue)}
    {before after : ContextStats} (genuine : GenuineParameters values)
    (checked : validateParameters .standard true values before = .ok after) :
    (values.map fun entry => (entry.1.text, fromValue entry.2)).mapM (intoParameter .standard) =
      .ok values := by
  induction values generalizing before with
  | nil => rfl
  | cons entry values ih =>
    obtain ⟨here, there⟩ := List.forall_mem_cons.mp genuine
    rw [validateParameters] at checked
    obtain ⟨between, _, checked⟩ := bind_eq_ok.mp checked
    obtain ⟨between', head, tail⟩ := bind_eq_ok.mp checked
    rw [List.map_cons, List.mapM_cons, intoParameter, ParameterName.parse_text here.1,
      intoValue_ok here.2 ⟨_, _, _, head⟩, ih there tail]
    rfl

/-- Whatever is read has passed the default limits. -/
theorem standard_of_contextFromDto {values : List (String × ContextValueDto)}
    (made : contextFromDto values .standard = .ok context) : context.Standard := by
  obtain ⟨read, _, made⟩ := bind_eq_ok.mp made
  have checked := mapError_eq_ok.mp made
  have same : context.toMap = .ofList read := by
    rw [ConditionContext.new_eq_ok checked, ← ExtTreeMap.toList_inj]
    exact OrderedMap.toList_ofList_toList (.ofList read)
  rw [ConditionContext.Standard, same]
  exact checked

/-- A context can be read back if it passes the default limits. -/
theorem contextFromDto_ok (genuine : context.Genuine) (standard : context.Standard) :
    contextFromDto (contextToDto context) .standard = .ok context := by
  have listed : context.toMap.toList = context.values :=
    (congrArg ConditionContext.values (ConditionContext.new_eq_ok standard)).symm
  have checked : ConditionContext.newWithPolicy context.toMap .standard
      (some InputLimits.standard.contextBytes.get) true = .ok context := standard
  obtain ⟨-, checked⟩ := guard_eq_ok.mp checked
  obtain ⟨stats, validated, _⟩ := bind_eq_ok.mp checked
  rw [listed] at validated
  rw [contextFromDto, contextToDto, intoParameters_ok genuine.parameters validated]
  exact mapError_eq_ok.mpr standard

end Contexts

section RoundTrip

def ConditionReference.Standard : ConditionReference → Prop
  | .unconditional => True
  | .conditional binding => binding.context.Standard

/-- A condition under an accepted name with a genuine context. -/
def ConditionReference.Genuine : ConditionReference → Prop
  | .unconditional => True
  | .conditional binding => binding.name.Canonical ∧ binding.context.Genuine

/-- A tuple as the domain holds it. -/
structure RelationshipTuple.Genuine (tuple : RelationshipTuple) : Prop where
  key : tuple.key.Canonical
  condition : tuple.condition.Genuine

theorem parsePersisted_eq {key : TupleKey} (canonical : key.Canonical) (code : String) :
    parsePersisted key.display code = .ok key := by
  rw [parsePersisted, TupleKey.parse_display canonical]
  rfl

theorem ConditionBindingDto.intoBinding_ok (named : binding.name.Canonical)
    (genuine : binding.context.Genuine) (standard : binding.context.Standard) :
    (fromBinding binding).intoBinding = .ok binding := by
  rw [intoBinding, fromBinding, contextFromDto_ok genuine standard,
    ConditionName.parse_text named]
  rfl

namespace TupleEnvelope

variable {tuple : RelationshipTuple} {envelope : TupleEnvelope}

/-- Whatever is read has passed the default limits. -/
theorem standard_of_intoTuple (made : envelope.intoTuple = .ok tuple) :
    tuple.condition.Standard := by
  obtain ⟨version, key, condition⟩ := envelope
  obtain ⟨_, _, made⟩ := bind_eq_ok.mp made
  obtain ⟨_, _, made⟩ := bind_eq_ok.mp made
  cases condition with
  | none =>
    cases made
    trivial
  | some dto =>
    obtain ⟨binding, bindingMade, made⟩ := bind_eq_ok.mp made
    cases made
    obtain ⟨context, contextMade, bindingMade⟩ := bind_eq_ok.mp bindingMade
    obtain ⟨_, _, bindingMade⟩ := bind_eq_ok.mp bindingMade
    cases bindingMade
    exact standard_of_contextFromDto contextMade

theorem intoTuple_ok (genuine : tuple.Genuine) (standard : tuple.condition.Standard) :
    (fromTuple tuple).intoTuple = .ok tuple := by
  obtain ⟨key, condition⟩ := tuple
  rw [intoTuple, fromTuple, parsePersisted_eq genuine.key]
  cases condition with
  | unconditional => rfl
  | conditional binding =>
    simp only [ConditionBindingDto.intoBinding_ok genuine.condition.1 genuine.condition.2
      standard]
    rfl

end TupleEnvelope

section Tuples

variable (serde : Serde TupleEnvelope) {tuple : RelationshipTuple}

/-- A tuple whose record is small enough and within the default limits. -/
structure RelationshipTuple.Readable (tuple : RelationshipTuple) : Prop where
  fits : (encodeTuple serde tuple).length ≤ maximumTuplePayloadBytes
  standard : tuple.condition.Standard

variable {serde}

theorem requirePayloadLimit_ok {bytes : List UInt8} {maximum : Nat} {code : String} :
    requirePayloadLimit bytes maximum code = .ok () ↔ bytes.length ≤ maximum := by
  unfold requirePayloadLimit
  split
  · rename_i fits
    exact ⟨fun _ => fits, fun _ => rfl⟩
  · rename_i exceeds
    exact ⟨fun same => (by cases same), fun fits => absurd fits exceeds⟩

/-- The record of the tuple is read as the tuple. -/
def RelationshipTuple.ReadsBack (serde : Serde TupleEnvelope) (tuple : RelationshipTuple) : Prop :=
  decodeTuple serde (encodeTuple serde tuple) = .ok tuple

instance : Decidable (tuple.ReadsBack serde) := inferInstanceAs (Decidable (_ = _))

/-- A tuple is read back only if it is readable. -/
theorem RelationshipTuple.ReadsBack.readable (back : tuple.ReadsBack serde) :
    tuple.Readable serde := by
  obtain ⟨_, limited, made⟩ := bind_eq_ok.mp back
  obtain ⟨envelope, _, made⟩ := bind_eq_ok.mp made
  exact ⟨requirePayloadLimit_ok.mp limited, TupleEnvelope.standard_of_intoTuple made⟩

/-- A readable tuple is read back if the serialisation gives its record back. -/
theorem RelationshipTuple.Readable.readsBack (readable : tuple.Readable serde)
    (genuine : tuple.Genuine) (given : serde.GivesBack (.fromTuple tuple)) :
    tuple.ReadsBack serde := by
  rw [ReadsBack, decodeTuple, requirePayloadLimit_ok.mpr readable.fits, encodeTuple, given]
  exact TupleEnvelope.intoTuple_ok genuine readable.standard

end Tuples

section Assertions

/-- An assertion as the domain holds it. -/
structure Assertion.Genuine (assertion : Assertion) : Prop where
  tuple : assertion.tuple.Canonical
  contextualTuples : ∀ tuple ∈ assertion.contextualTuples.tuples, tuple.Genuine
  conditionContext : assertion.conditionContext.Genuine

/-- An assertion all of whose parts pass the default limits. -/
structure Assertion.Standard (assertion : Assertion) : Prop where
  few : assertion.contextualTuples.tuples.length ≤ InputLimits.standard.contextualTuples.get
  conditions : ∀ tuple ∈ assertion.contextualTuples.tuples, tuple.condition.Standard
  conditionContext : assertion.conditionContext.Standard

variable {assertion : Assertion}

theorem ContextualTuples.newFromTuples_eq_ok {tuples : List RelationshipTuple}
    (made : newFromTuples tuples limits = .ok contextual) :
    contextual.tuples = tuples ∧ tuples.length ≤ limits.contextualTuples.get := by
  obtain ⟨few, made⟩ := guard_eq_ok.mp made
  split at made
  · cases made
    exact ⟨rfl, Nat.not_lt.mp few⟩
  · cases made

theorem ContextualTuples.newFromTuples_ok
    (few : contextual.tuples.length ≤ limits.contextualTuples.get) :
    newFromTuples contextual.tuples limits = .ok contextual := by
  rw [newFromTuples, if_neg (Nat.not_lt.mpr few), dif_pos contextual.keys_nodup]

theorem AssertionDto.intoAssertion_iff (genuine : assertion.Genuine) :
    (fromAssertion assertion).intoAssertion = .ok assertion ↔ assertion.Standard := by
  have tuples : (assertion.contextualTuples.tuples.map TupleEnvelope.fromTuple).mapM
      TupleEnvelope.intoTuple = .ok assertion.contextualTuples.tuples ↔
        ∀ tuple ∈ assertion.contextualTuples.tuples, tuple.condition.Standard := by
    rw [mapM_restore_iff]
    refine forall₂_congr fun tuple member => ?_
    have held := genuine.contextualTuples tuple member
    exact ⟨TupleEnvelope.standard_of_intoTuple, TupleEnvelope.intoTuple_ok held⟩
  constructor
  · intro made
    obtain ⟨read, tuplesMade, made⟩ := bind_eq_ok.mp made
    obtain ⟨key, _, made⟩ := bind_eq_ok.mp made
    obtain ⟨contextual, contextualMade, made⟩ := bind_eq_ok.mp made
    obtain ⟨context, contextMade, made⟩ := bind_eq_ok.mp made
    have same := Except.ok.inj made
    have contextuals : contextual = assertion.contextualTuples :=
      congrArg Assertion.contextualTuples same
    have contexts : context = assertion.conditionContext :=
      congrArg Assertion.conditionContext same
    obtain ⟨kept, few⟩ := newFromTuples_eq_ok (mapError_eq_ok.mp contextualMade)
    rw [contextuals] at kept
    rw [← kept] at tuplesMade few
    rw [contexts] at contextMade
    exact ⟨few, tuples.mp tuplesMade, standard_of_contextFromDto contextMade⟩
  · intro standard
    rw [intoAssertion, fromAssertion, tuples.mpr standard.conditions,
      parsePersisted_eq genuine.tuple,
      contextFromDto_ok genuine.conditionContext standard.conditionContext]
    simp only [bind, Except.bind, newFromTuples_ok standard.few, Except.mapError]

variable {serde : Serde AssertionsEnvelope} {assertions : List Assertion}

/-- Assertions whose record is given back are read back if it is small enough and all are within
the default limits. -/
theorem decodeAssertions_iff (genuine : ∀ assertion ∈ assertions, assertion.Genuine)
    (given : serde.GivesBack ⟨codecVersion, assertions.map .fromAssertion⟩) :
    decodeAssertions serde (encodeAssertions serde assertions) = .ok assertions ↔
      (encodeAssertions serde assertions).length ≤ maximumAssertionPayloadBytes ∧
        ∀ assertion ∈ assertions, assertion.Standard := by
  have each : (assertions.map AssertionDto.fromAssertion).mapM AssertionDto.intoAssertion =
      .ok assertions ↔ ∀ assertion ∈ assertions, assertion.Standard := by
    rw [mapM_restore_iff]
    exact forall₂_congr fun assertion member => AssertionDto.intoAssertion_iff
      (genuine assertion member)
  constructor
  · intro made
    obtain ⟨_, limited, made⟩ := bind_eq_ok.mp made
    rw [encodeAssertions, given] at made
    exact ⟨requirePayloadLimit_ok.mp limited, each.mp made⟩
  · rintro ⟨fits, standard⟩
    rw [decodeAssertions, requirePayloadLimit_ok.mpr fits, encodeAssertions, given]
    exact each.mpr standard

end Assertions

end RoundTrip

namespace Notes

/-! A tuple whose condition takes a text of any length. -/

def note (text : String) : ConditionContext :=
  .ofMap ((∅ : ContextMap).insert ⟨"note"⟩ (.string text))

def noteTuple (text : String) : RelationshipTuple :=
  ⟨⟨⟨⟨"doc"⟩, ⟨"1"⟩⟩, ⟨"viewer"⟩, .object ⟨⟨"user"⟩, ⟨"anne"⟩⟩⟩, .conditional
    ⟨⟨"noted"⟩, note text⟩⟩

/-- What is checked of a note under the default limits. -/
theorem note_checked (text : String) :
    ConditionContext.new (note text).toMap .standard = (do
      checkValueBytes .standard true "context_string" text.utf8ByteSize
      let _ ← (ContextStats.mk 4 1 (some 32768)).addBytes text.utf8ByteSize
      .ok (note text)) := by
  have named : (ContextStats.new (some 32768)).addBytes ("note" : String).utf8ByteSize =
      .ok ⟨4, 0, some 32768⟩ := rfl
  have counted : (ContextStats.mk 4 0 (some 32768)).addValue .standard =
      .ok ⟨4, 1, some 32768⟩ := rfl
  have shallow : ¬InputLimits.standard.contextDepth.get < 1 := by decide
  have parameters : validateParameters .standard true [(⟨"note"⟩, .string text)]
      (.new (some 32768)) = (do
        checkValueBytes .standard true "context_string" text.utf8ByteSize
        (ContextStats.mk 4 1 (some 32768)).addBytes text.utf8ByteSize) := by
    simp only [validateParameters, validateContextValue, named, counted, if_neg shallow, bind,
      Except.bind]
    cases checkValueBytes .standard true "context_string" text.utf8ByteSize with
    | error failure => rfl
    | ok _ => cases (ContextStats.mk 4 1 (some 32768)).addBytes text.utf8ByteSize <;> rfl
  have listed : ConditionContext.new (note text).toMap .standard = (do
      let _ ← validateParameters .standard true [(⟨"note"⟩, .string text)] (.new (some 32768))
      .ok (note text)) := rfl
  rw [listed, parameters]
  cases checkValueBytes .standard true "context_string" text.utf8ByteSize <;> rfl

/-- It passes the default limits only up to 4096 bytes. -/
theorem note_standard_iff (text : String) : (note text).Standard ↔ text.utf8ByteSize ≤ 4096 := by
  unfold ConditionContext.Standard
  rw [note_checked]
  by_cases short : text.utf8ByteSize ≤ 4096
  · have checked : checkValueBytes .standard true "context_string" text.utf8ByteSize = .ok () :=
      if_neg fun exceeds => Nat.not_lt.mpr short (of_decide_eq_true exceeds)
    have added : (ContextStats.mk 4 1 (some 32768)).addBytes text.utf8ByteSize =
        .ok ⟨4 + text.utf8ByteSize, 1, some 32768⟩ := if_neg (by simp; omega)
    rw [checked, added]
    exact ⟨fun _ => short, fun _ => rfl⟩
  · have checked : checkValueBytes .standard true "context_string" text.utf8ByteSize =
        .error ⟨"context_string", .tooLarge⟩ :=
      if_pos (decide_eq_true (Nat.not_le.mp short))
    rw [checked]
    exact ⟨fun same => (by cases same), fun fits => absurd fits short⟩

def longNote : String := .ofList (List.replicate 5000 'a')

theorem utf8Len_replicate (count : Nat) : String.utf8Len (List.replicate count 'a') = count := by
  induction count with
  | zero => rfl
  | succ count ih =>
    rw [List.replicate_succ, String.utf8Len_cons, ih]
    rfl

theorem size_longNote : longNote.utf8ByteSize = 5000 :=
  (String.utf8ByteSize_ofList _).trans (utf8Len_replicate 5000)

theorem noteTuple_genuine (text : String) : (noteTuple text).Genuine := by
  have parsed : TupleKey.parseWithLimits "doc:1#viewer@user:anne" .standard =
      .ok (noteTuple "").key := by decide
  have named : ConditionName.parseWithLimits "noted" .standard = .ok ⟨"noted"⟩ := by decide
  have parameter : ParameterName.parseWithLimits "note" .standard = .ok ⟨"note"⟩ := by decide
  refine ⟨(TupleKey.of_parse parsed).1, ConditionName.canonical_of_parse named, _, rfl, ?_⟩
  intro name value found
  rw [Std.ExtTreeMap.getElem?_insert] at found
  split at found
  · rename_i same
    cases Std.compare_eq_iff_eq.mp same
    cases found
    exact ⟨ParameterName.canonical_of_parse parameter, .string text⟩
  · rw [Std.ExtTreeMap.getElem?_empty] at found
    cases found

theorem longNote_unreadable (serde : Serde TupleEnvelope) :
    ¬(noteTuple longNote).ReadsBack serde := by
  intro back
  have shorter := (note_standard_iff longNote).mp back.readable.standard
  rw [size_longNote] at shorter
  omega

end Notes

end OpenFga
