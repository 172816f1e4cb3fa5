import OpenFga.Domain.Fingerprint
import OpenFga.Model.Compiled

/-!
# Decision keys

A cached decision is found under a key that digests every semantic input of a check: the
store, the model, the asked tuple, the request's own tuples and context, and the version
of the evaluator. A collision of keys would serve one request the decision of another.

A digest of 32 bytes cannot separate all byte sequences, so the results assume that it
separates those that the two compared requests feed to it. The contexts pass through a
second, keyed digest before they enter the key.
-/

namespace OpenFga.Cache

open List

/-- What a check is asked. -/
structure CheckCommand where
  storeId : StoreId
  tuple : TupleKey
  contextualTuples : ContextualTuples
  conditionContext : ConditionContext

/-- The identity of the selected model. -/
structure ModelIdentity where
  modelId : AuthorizationModelId
  fingerprint : Fingerprint
  deriving DecidableEq, Repr

/-- Where a decision is cached. -/
structure DecisionKey where
  storeId : StoreId
  fingerprint : Fingerprint
  deriving DecidableEq, Repr

/-- The inputs of one decision. All of them are held in memory. -/
structure DecisionRequest where
  command : CheckCommand
  model : ModelIdentity
  evaluatorSemanticsVersion : UInt32
  store_fits : TextFits command.storeId.text
  model_fits : TextFits model.modelId.text
  tuple_fits : command.tuple.Addressable
  contextual_fits : Addressable command.contextualTuples.tuples.length ∧
    ∀ tuple ∈ command.contextualTuples.tuples, tuple.Addressable
  context_fits : command.conditionContext.Addressable

section Keys

variable (sha256 hmac : List UInt8 → Fingerprint)

/-- What the keyed digest is fed: two digests, one after the other. -/
def keyedInput (command : CheckCommand) : List UInt8 :=
  (fingerprintContextualTuples sha256 command.contextualTuples.tuples).bytes ++
    (command.conditionContext.fingerprint sha256).bytes

def keyedContext (command : CheckCommand) : Fingerprint :=
  hmac (keyedInput sha256 command)

def decisionInput (command : CheckCommand) (model : ModelIdentity) (version : UInt32) :
    List UInt8 :=
  newBuilder "openfga.check-decision-key.v1" ++ (writeStr command.storeId.text ++
    (writeStr model.modelId.text ++ (writeBytes model.fingerprint.bytes ++
      (writeBytes (command.tuple.fingerprint sha256).bytes ++
        (writeBytes (keyedContext sha256 hmac command).bytes ++ writeU32 version)))))

def DecisionKey.forCheck (command : CheckCommand) (model : ModelIdentity) (version : UInt32) :
    DecisionKey :=
  ⟨command.storeId, sha256 (decisionInput sha256 hmac command model version)⟩

def DecisionRequest.key (request : DecisionRequest) : DecisionKey :=
  .forCheck sha256 hmac request.command request.model request.evaluatorSemanticsVersion

/-- The byte sequences that a request feeds to the digest. -/
def DecisionRequest.hashed (request : DecisionRequest) : List (List UInt8) :=
  let tuples := request.command.contextualTuples.tuples
  [decisionInput sha256 hmac request.command request.model request.evaluatorSemanticsVersion,
    tupleKeyInput request.command.tuple, contextualInput sha256 tuples,
    contextInput request.command.conditionContext] ++
  tuples.map (tupleInput sha256) ++ tuples.flatMap RelationshipTuple.contextInputs

/-- The requests ask the same, up to the order of their contextual tuples. -/
structure DecisionRequest.Same (first second : DecisionRequest) : Prop where
  store : first.command.storeId = second.command.storeId
  model : first.model = second.model
  tuple : first.command.tuple = second.command.tuple
  contextual : first.command.contextualTuples.tuples.Perm second.command.contextualTuples.tuples
  context : first.command.conditionContext = second.command.conditionContext
  version : first.evaluatorSemanticsVersion = second.evaluatorSemanticsVersion

/-- The digests do not collide on what two requests feed to them. -/
structure Separates (first second : DecisionRequest) : Prop where
  plain : Set.InjOn sha256
    {input | input ∈ first.hashed sha256 hmac ∨ input ∈ second.hashed sha256 hmac}
  keyed : Set.InjOn hmac {keyedInput sha256 first.command, keyedInput sha256 second.command}

variable {sha256 hmac} {first second : DecisionRequest}

theorem keyedInput_inj {command command' : CheckCommand}
    (same : keyedInput sha256 command = keyedInput sha256 command') :
    fingerprintContextualTuples sha256 command.contextualTuples.tuples =
        fingerprintContextualTuples sha256 command'.contextualTuples.tuples ∧
      command.conditionContext.fingerprint sha256 =
        command'.conditionContext.fingerprint sha256 := by
  obtain ⟨contextual, condition⟩ := append_inj same (by simp only [Fingerprint.size])
  exact ⟨Fingerprint.bytes_injective contextual, Fingerprint.bytes_injective condition⟩

/-- Equal inputs of the last digest have equal parts. -/
theorem decisionInput_inj
    (same : decisionInput sha256 hmac first.command first.model
        first.evaluatorSemanticsVersion =
      decisionInput sha256 hmac second.command second.model second.evaluatorSemanticsVersion) :
    first.command.storeId = second.command.storeId ∧ first.model = second.model ∧
      first.command.tuple.fingerprint sha256 = second.command.tuple.fingerprint sha256 ∧
      keyedContext sha256 hmac first.command = keyedContext sha256 hmac second.command ∧
      first.evaluatorSemanticsVersion = second.evaluatorSemanticsVersion := by
  obtain ⟨stores, same⟩ := writeStr_splits _ _ first.store_fits second.store_fits _ _
    (append_cancel_left same)
  obtain ⟨models, same⟩ := writeStr_splits _ _ first.model_fits second.model_fits _ _ same
  obtain ⟨fingerprints, same⟩ := fingerprint_splits _ _ trivial trivial _ _ same
  obtain ⟨tuples, same⟩ := fingerprint_splits _ _ trivial trivial _ _ same
  obtain ⟨contexts, same⟩ := fingerprint_splits _ _ trivial trivial _ _ same
  have versions := writeU32_splits.injOn trivial trivial same
  have identities : first.model = second.model := by
    generalize first.model = model, second.model = model' at models fingerprints
    obtain ⟨⟨id⟩, fingerprint⟩ := model
    obtain ⟨⟨id'⟩, fingerprint'⟩ := model'
    cases models
    cases fingerprints
    rfl
  have ids : ∀ store store' : StoreId, store.text = store'.text → store = store' := by
    intro store store' texts
    cases store
    cases texts
    rfl
  exact ⟨ids _ _ stores, identities, tuples, contexts, versions⟩

section Members

variable (sha256 hmac) (request : DecisionRequest)

variable {request} in
theorem contextual_hashed {tuple : RelationshipTuple}
    (member : tuple ∈ request.command.contextualTuples.tuples) :
    tupleInput sha256 tuple ∈ request.hashed sha256 hmac ∧
      ∀ input ∈ tuple.contextInputs, input ∈ request.hashed sha256 hmac := by
  refine ⟨?_, fun input inside => ?_⟩
  · exact mem_append_left _ (mem_append_right _ (mem_map_of_mem member))
  · exact mem_append_right _ (mem_flatMap.mpr ⟨tuple, member, inside⟩)

theorem own_hashed :
    decisionInput sha256 hmac request.command request.model request.evaluatorSemanticsVersion ∈
        request.hashed sha256 hmac ∧
      tupleKeyInput request.command.tuple ∈ request.hashed sha256 hmac ∧
      contextualInput sha256 request.command.contextualTuples.tuples ∈
        request.hashed sha256 hmac ∧
      contextInput request.command.conditionContext ∈ request.hashed sha256 hmac := by
  simp [DecisionRequest.hashed]

end Members

/-- Equal keys come from the same questions. -/
theorem same_of_key_eq (separates : Separates sha256 hmac first second)
    (keys : first.key sha256 hmac = second.key sha256 hmac) : first.Same second := by
  obtain ⟨decision, asked, contextual, context⟩ := own_hashed sha256 hmac first
  obtain ⟨decision', asked', contextual', context'⟩ := own_hashed sha256 hmac second
  obtain ⟨stores, models, tuples, keyed, versions⟩ := decisionInput_inj
    (separates.plain (.inl decision) (.inr decision') (congrArg DecisionKey.fingerprint keys))
  obtain ⟨sets, conditions⟩ := keyedInput_inj
    (separates.keyed (Set.mem_insert _ _) (Set.mem_insert_of_mem _ rfl) keyed)
  have digests := contextualInput_inj first.contextual_fits.1 second.contextual_fits.1
    (separates.plain (.inl contextual) (.inr contextual') sets)
  have inside : ∀ tuple ∈ first.command.contextualTuples.tuples, _ :=
    fun tuple member => contextual_hashed sha256 hmac member
  have inside' : ∀ tuple ∈ second.command.contextualTuples.tuples, _ :=
    fun tuple member => contextual_hashed sha256 hmac member
  exact {
    store := stores
    model := models
    tuple := tupleKeyInput_injOn first.tuple_fits second.tuple_fits
      (separates.plain (.inl asked) (.inr asked') tuples)
    contextual := perm_of_tupleFingerprints separates.plain first.contextual_fits.2
      second.contextual_fits.2
      (fun tuple member => ⟨.inl (inside tuple member).1,
        fun input held => .inl ((inside tuple member).2 input held)⟩)
      (fun tuple member => ⟨.inr (inside' tuple member).1,
        fun input held => .inr ((inside' tuple member).2 input held)⟩) digests
    context := contextInput_injOn first.context_fits second.context_fits
      (separates.plain (.inl context) (.inr context') conditions)
    version := versions }

/-- The same questions have the same key. -/
theorem key_eq_of_same (same : first.Same second) :
    first.key sha256 hmac = second.key sha256 hmac := by
  have inputs : contextualInput sha256 first.command.contextualTuples.tuples =
      contextualInput sha256 second.command.contextualTuples.tuples := by
    unfold contextualInput
    rw [tupleFingerprints_perm same.contextual]
  unfold DecisionRequest.key DecisionKey.forCheck decisionInput keyedContext keyedInput
    fingerprintContextualTuples
  rw [same.store, same.model, same.tuple, inputs, same.context, same.version]

end Keys

/-- A key names the question it was made for. Its parts feed distinct bytes to the digest,
and the order in which the contextual tuples are listed does not enter. -/
theorem decision_keys_identify_requests (sha256 hmac : List UInt8 → Fingerprint) :
    (∀ value value' : ContextValue, value.Addressable → value'.Addressable →
      value.updateFingerprint = value'.updateFingerprint → value = value') ∧
    (∀ key key' : TupleKey, key.Addressable → key'.Addressable →
      tupleKeyInput key = tupleKeyInput key' → key = key') ∧
    (∀ first second : DecisionRequest, Separates sha256 hmac first second →
      first.key sha256 hmac = second.key sha256 hmac → first.Same second) ∧
    ∀ first second : DecisionRequest, first.Same second →
      first.key sha256 hmac = second.key sha256 hmac := by
  refine ⟨fun value value' fits fits' => ?_, fun key key' fits fits' => ?_, ?_, ?_⟩
  · exact ContextValue.updateFingerprint_splits.injOn fits fits'
  · exact tupleKeyInput_injOn fits fits'
  · exact fun first second => same_of_key_eq
  · exact fun first second => key_eq_of_same

namespace Sample

/-- A digest that only looks at the length. -/
def lengthDigest (input : List UInt8) : Fingerprint :=
  ⟨UInt8.ofNat input.length :: replicate 31 0, rfl⟩

def viewer (user : String) : RelationshipTuple :=
  ⟨⟨⟨⟨"doc"⟩, ⟨"1"⟩⟩, ⟨"viewer"⟩, .object ⟨⟨"user"⟩, ⟨user⟩⟩⟩, .unconditional⟩

theorem viewer_fits {user : String} (fits : TextFits user) : (viewer user).Addressable := by
  have texts : TextFits "doc" ∧ TextFits "1" ∧ TextFits "viewer" ∧ TextFits "user" := by decide
  exact ⟨⟨texts.1, texts.2.1, texts.2.2.1, texts.2.2.2, fits⟩, trivial⟩

theorem anne_fits : (viewer "anne").key.Addressable :=
  (viewer_fits (show TextFits "anne" by decide)).1

theorem store_fits : TextFits "store" := by decide

theorem model_fits : TextFits "model" := by decide

/-- Asks about one user while two more are given by contextual tuples. -/
def asking (first second : String) (distinct : first ≠ second)
    (fits : TextFits first ∧ TextFits second) : DecisionRequest where
  command :=
    { storeId := ⟨"store"⟩
      tuple := (viewer "anne").key
      contextualTuples := ⟨[viewer first, viewer second], by simpa [viewer] using distinct⟩
      conditionContext := .empty }
  model := ⟨⟨"model"⟩, lengthDigest []⟩
  evaluatorSemanticsVersion := 1
  store_fits := store_fits
  model_fits := model_fits
  tuple_fits := anne_fits
  contextual_fits := ⟨show Addressable 2 by decide, by simp [viewer_fits, fits]⟩
  context_fits := ⟨show Addressable 0 by decide, by simp [ConditionContext.empty]⟩

def bobFirst : DecisionRequest := asking "bob" "charles" (by decide) (by decide)

def charlesFirst : DecisionRequest := asking "charles" "bob" (by decide) (by decide)

/-- The digest separates what it is fed if the lengths do. -/
theorem lengthDigest_injOn {inputs : List (List UInt8)}
    (lengths : ∀ input ∈ inputs, ∀ other ∈ inputs,
      UInt8.ofNat input.length = UInt8.ofNat other.length → input = other) :
    Set.InjOn lengthDigest {input | input ∈ inputs} := by
  intro input member other member' same
  apply lengths input member other member'
  exact head_eq_of_cons_eq (congrArg Fingerprint.bytes same)

theorem lengthDigest_separates : Separates lengthDigest lengthDigest bobFirst charlesFirst where
  plain := by
    have separate : Set.InjOn lengthDigest {input | input ∈
        bobFirst.hashed lengthDigest lengthDigest ++
          charlesFirst.hashed lengthDigest lengthDigest} :=
      lengthDigest_injOn (by decide +kernel)
    simpa only [mem_append] using separate
  keyed := by
    have same : keyedInput lengthDigest bobFirst.command =
        keyedInput lengthDigest charlesFirst.command := by decide +kernel
    rw [same, Set.pair_eq_singleton]
    exact Set.injOn_singleton _ _

end Sample

theorem decision_keys_identify_requests_reordered :
    Sample.bobFirst.key Sample.lengthDigest Sample.lengthDigest =
        Sample.charlesFirst.key Sample.lengthDigest Sample.lengthDigest ∧
      Sample.bobFirst.Same Sample.charlesFirst := by
  have keys : Sample.bobFirst.key Sample.lengthDigest Sample.lengthDigest =
      Sample.charlesFirst.key Sample.lengthDigest Sample.lengthDigest := by decide +kernel
  exact ⟨keys, (decision_keys_identify_requests _ _).2.2.1 _ _ Sample.lengthDigest_separates keys⟩

end OpenFga.Cache
