import OpenFga.Lib.Ensures
import OpenFga.Model.Compiled

/-!
# Model-aware tuple validation

Queries and relationship tuples are checked against a compiled model before they
are used. Validation of a relationship tuple looks at its type, its relation, its
subject, the restrictions of the relation and, for a conditional tuple, at the
context the tuple carries.
-/

namespace OpenFga

open List Ensures

inductive TupleValidationErrorKind where
  | query
  | relationship
  | compiledModel
  deriving DecidableEq, Repr

/-- Why a tuple is refused. -/
structure TupleValidationError where
  kind : TupleValidationErrorKind
  code : String
  conditionContext : Option ConditionContextError
  deriving DecidableEq, Repr

def TupleValidationError.new (kind : TupleValidationErrorKind) (code : String) :
    TupleValidationError :=
  ⟨kind, code, none⟩

/-- How a tuple subject is matched against restrictions. -/
inductive DirectClass where
  | object
  | userset (relation : RelationId)
  | wildcard
  deriving DecidableEq, Repr

def restrictionKindMatches : RestrictionKind → DirectClass → Bool
  | .object, .object => true
  | .wildcard, .wildcard => true
  | .userset expected, .userset actual => decide (expected = actual)
  | _, _ => false

/-- A userset tuple that says nothing: the relation of the object is related to itself. -/
def isImplicit (key : TupleKey) : Bool :=
  match key.subject with
  | .userset ref => decide (ref.object = key.object ∧ ref.relation = key.relation)
  | _ => false

def validateUnconditional (restrictions : List DirectRestriction) :
    Except TupleValidationError Unit :=
  if restrictions.any fun restriction => restriction.condition = .unconditional then .ok ()
  else .error (.new .relationship "relationship_condition_missing")

namespace CompiledModel

variable (model : CompiledModel)

/-- The class of a subject; a userset must name a relation of its type. -/
def directClass (subject : SubjectRef) : Option DirectClass :=
  match subject with
  | .object _ => some .object
  | .typedWildcard _ => some .wildcard
  | .userset ref => (model.relationId ref.object.objectType ref.relation).map .userset

def validateSubject (subject : SubjectRef) : Except TupleValidationError Unit := do
  let _ ← orError (model.typeId subject.subjectType) (.new .query "query_subject_type_missing")
  match subject with
  | .userset ref =>
      let _ ← orError (model.relationId ref.object.objectType ref.relation)
        (.new .query "query_userset_relation_missing")
      pure ()
  | _ => pure ()

def validateQueryTuple (tuple : TupleKey) : Except TupleValidationError RelationId := do
  let _ ← orError (model.typeId tuple.object.objectType) (.new .query "query_object_type_missing")
  let relation ← orError (model.relationId tuple.object.objectType tuple.relation)
    (.new .query "query_relation_missing")
  model.validateSubject tuple.subject
  pure relation

/-- One restriction's say about a conditional tuple: its own condition is asked
to accept the context the tuple carries. -/
def validateConditionalStep (binding : ConditionBinding) (matched : Bool)
    (restriction : DirectRestriction) : Except TupleValidationError Bool :=
  match restriction.condition with
  | .unconditional => .ok matched
  | .required id =>
      match model.condition id with
      | none => .error (.new .compiledModel "restriction_condition_invalid")
      | some required =>
          if required.name ≠ binding.name then .ok matched
          else
            match required.validateContext binding.context with
            | .ok () => .ok true
            | .error failure =>
                .error ⟨.relationship, "relationship_condition_context_invalid", some failure⟩

def validateConditional (binding : ConditionBinding) (restrictions : List DirectRestriction) :
    Except TupleValidationError Unit := do
  let _ ← orError (model.conditionId binding.name)
    (.new .relationship "relationship_condition_undefined")
  let matched ← restrictions.foldlM (model.validateConditionalStep binding) false
  if matched then .ok () else .error (.new .relationship "relationship_condition_invalid")

/-- The restrictions that admit subjects of one type and class. -/
def matchingRestrictions (restrictions : List DirectRestriction) (subjectType : TypeId)
    (directClass : DirectClass) : List DirectRestriction :=
  restrictions.filter fun restriction =>
    decide (restriction.subjectType = subjectType) &&
      restrictionKindMatches restriction.kind directClass

def validateRelationshipCondition (tuple : RelationshipTuple)
    (restrictions : List DirectRestriction) : Except TupleValidationError Unit := do
  let subjectType ← orError (model.typeId tuple.key.subject.subjectType)
    (.new .compiledModel "relationship_subject_type_invalid")
  let directClass ← orError (model.directClass tuple.key.subject)
    (.new .compiledModel "relationship_userset_relation_invalid")
  let permitted := matchingRestrictions restrictions subjectType directClass
  if permitted.isEmpty then .error (.new .relationship "relationship_tuple_not_permitted")
  else
    match tuple.condition with
    | .unconditional => validateUnconditional permitted
    | .conditional binding => model.validateConditional binding permitted

def validateRelationshipTuple (tuple : RelationshipTuple) : Except TupleValidationError Unit := do
  let _ ← orError (model.typeId tuple.key.object.objectType)
    (.new .relationship "relationship_object_type_missing")
  let relationId ← orError (model.relationId tuple.key.object.objectType tuple.key.relation)
    (.new .relationship "relationship_relation_missing")
  let relation ← orError (model.relation relationId)
    (.new .compiledModel "relationship_relation_invalid")
  let _ ← orError (model.typeId tuple.key.subject.subjectType)
    (.new .relationship "relationship_subject_type_missing")
  match tuple.key.subject with
  | .userset ref =>
      let _ ← orError (model.relationId ref.object.objectType ref.relation)
        (.new .relationship "relationship_userset_relation_missing")
      model.validateRelationshipCondition tuple relation.restrictions
  | _ => model.validateRelationshipCondition tuple relation.restrictions

def validatePersistentTuple (tuple : RelationshipTuple) : Except TupleValidationError Unit :=
  if isImplicit tuple.key then .error (.new .relationship "relationship_tuple_implicit")
  else model.validateRelationshipTuple tuple

end CompiledModel

def requirementMatches (model : CompiledModel) :
    ConditionRequirement → ConditionReference → Bool
  | .unconditional, .unconditional => true
  | .required id, .conditional binding =>
      (model.condition id).any fun condition => condition.name = binding.name
  | _, _ => false

/-- The class under which some restriction admits a row. -/
def admittedClass (model : CompiledModel) (restrictions : List DirectRestriction)
    (tuple : RelationshipTuple) : Option DirectClass :=
  match model.typeId tuple.key.subject.subjectType, model.directClass tuple.key.subject with
  | some subjectType, some directClass =>
      if restrictions.any fun restriction =>
          decide (restriction.subjectType = subjectType) &&
            restrictionKindMatches restriction.kind directClass &&
            requirementMatches model restriction.condition tuple.condition then
        some directClass
      else none
  | _, _ => none

/-- A row is admitted under the class of its subject, by a restriction that fits it. -/
theorem admittedClass_eq_some {model : CompiledModel} {restrictions : List DirectRestriction}
    {tuple : RelationshipTuple} {directClass : DirectClass} :
    admittedClass model restrictions tuple = some directClass ↔
      model.directClass tuple.key.subject = some directClass ∧
        ∃ restriction ∈ restrictions,
          model.typeId tuple.key.subject.subjectType = some restriction.subjectType ∧
          restrictionKindMatches restriction.kind directClass = true ∧
          requirementMatches model restriction.condition tuple.condition = true := by
  unfold admittedClass
  cases model.typeId tuple.key.subject.subjectType with
  | none => simp
  | some subjectType =>
    cases model.directClass tuple.key.subject with
    | none => simp
    | some found =>
      simp only [any_eq_true, Bool.and_eq_true, decide_eq_true_eq]
      constructor
      · intro admitted
        split at admitted <;> cases admitted
        rename_i fits
        obtain ⟨restriction, member, ⟨type, kind⟩, requirement⟩ := fits
        exact ⟨rfl, restriction, member, congrArg some type.symm, kind, requirement⟩
      · intro admitted
        obtain ⟨same, restriction, member, type, kind, requirement⟩ := admitted
        cases same
        cases type
        exact if_pos ⟨restriction, member, ⟨rfl, kind⟩, requirement⟩

theorem restrictionKindMatches_eq_true {kind : RestrictionKind} {directClass : DirectClass} :
    restrictionKindMatches kind directClass = true ↔
      match directClass with
      | .object => kind = .object
      | .wildcard => kind = .wildcard
      | .userset relation => kind = .userset relation := by
  cases kind <;> cases directClass <;> simp [restrictionKindMatches]

namespace CompiledModel

variable (model : CompiledModel)

section Outcomes

variable {model}

theorem validateSubject_spec (subject : SubjectRef) :
    Ensures (model.validateSubject subject)
      (fun _ => ∃ type, model.typeId subject.subjectType = some type)
      (fun failure => failure.kind = .query) := by
  unfold validateSubject
  refine lookup (fun _ => rfl) ?_
  intro type known
  cases subject with
  | object | typedWildcard => exact ⟨type, known⟩
  | userset ref =>
    refine lookup (fun _ => rfl) ?_
    intro relation _
    exact ⟨type, known⟩

/-- A valid query names a relation of the model, for a subject of a known type. -/
theorem validateQueryTuple_spec (tuple : TupleKey) :
    Ensures (model.validateQueryTuple tuple)
      (fun id => model.relationId tuple.object.objectType tuple.relation = some id ∧
        ∃ type, model.typeId tuple.subject.subjectType = some type)
      (fun failure => failure.kind = .query) := by
  unfold validateQueryTuple
  refine lookup (fun _ => rfl) ?_
  intro objectType _
  refine lookup (fun _ => rfl) ?_
  intro id named
  apply (validateSubject_spec tuple.subject).bind
  intro _ known
  exact ⟨named, known⟩

/-- The condition that a tuple names accepts the context the tuple carries. -/
def ContextAccepted (model : CompiledModel) (reference : ConditionReference) : Prop :=
  ∀ binding, reference = .conditional binding → ∀ id condition,
    model.condition id = some condition → condition.name = binding.name →
      condition.validateContext binding.context = .ok ()

/-- A restriction whose requirement fits a condition decides by it. -/
theorem condition_of_requirementMatches {requirement : ConditionRequirement}
    {binding : ConditionBinding}
    (fits : requirementMatches model requirement (.conditional binding) = true) :
    ∃ id condition, requirement = .required id ∧ model.condition id = some condition ∧
      model.conditionId binding.name = some id ∧
      (model.ContextAccepted (.conditional binding) ↔
        condition.validateContext binding.context = .ok ()) := by
  cases requirement with
  | unconditional => cases fits
  | required id =>
    cases found : model.condition id with
    | none => simp [requirementMatches, found] at fits
    | some condition =>
      have named : condition.name = binding.name := by
        simpa [requirementMatches, found] using fits
      have identified := conditionId_eq_some.mpr ⟨condition, found, named⟩
      refine ⟨id, condition, rfl, found, identified, fun accepted =>
        accepted binding rfl id condition found named, ?_⟩
      rintro accepted _ ⟨⟩ other same found' named'
      have again := conditionId_eq_some.mpr ⟨same, found', named'⟩
      rw [identified] at again
      cases again
      cases found.symm.trans found'
      exact accepted

theorem validateConditionalStep_spec (binding : ConditionBinding) (matched : Bool)
    (restriction : DirectRestriction)
    (defined : ∀ id, restriction.condition = .required id → ∃ condition,
      model.condition id = some condition) :
    Ensures (model.validateConditionalStep binding matched restriction)
      (fun next => (next = true ↔ matched = true ∨
          requirementMatches model restriction.condition (.conditional binding) = true) ∧
        (requirementMatches model restriction.condition (.conditional binding) = true →
          model.ContextAccepted (.conditional binding)))
      (fun failure => failure.kind = .relationship ∧
        ¬ model.ContextAccepted (.conditional binding)) := by
  cases fits : requirementMatches model restriction.condition (.conditional binding) with
  | true =>
    obtain ⟨id, condition, requirement, found, named, decides⟩ :=
      condition_of_requirementMatches fits
    obtain ⟨condition', found', name⟩ := conditionId_eq_some.mp named
    cases found.symm.trans found'
    simp only [validateConditionalStep, requirement, found, name, ne_eq, not_true, if_false]
    split
    · rename_i accepted
      exact ⟨⟨fun _ => .inr trivial, fun _ => rfl⟩, fun _ => decides.mpr accepted⟩
    · rename_i failure refused
      refine ⟨rfl, fun accepted => ?_⟩
      rw [decides.mp accepted] at refused
      cases refused
  | false =>
    have passed : model.validateConditionalStep binding matched restriction = .ok matched := by
      unfold validateConditionalStep
      cases requirement : restriction.condition with
      | unconditional => rfl
      | required id =>
        obtain ⟨condition, found⟩ := defined id requirement
        simp only [found]
        refine if_pos fun named => ?_
        simp [requirement, requirementMatches, found, named] at fits
    rw [passed]
    exact ⟨⟨.inl, fun holds => holds.resolve_right Bool.false_ne_true⟩, nofun⟩

theorem validateConditional_spec (binding : ConditionBinding)
    (restrictions : List DirectRestriction)
    (defined : ∀ restriction ∈ restrictions, ∀ id, restriction.condition = .required id →
      ∃ condition, model.condition id = some condition) :
    Ensures (model.validateConditional binding restrictions)
      (fun _ => (∃ restriction ∈ restrictions,
        requirementMatches model restriction.condition (.conditional binding) = true) ∧
          model.ContextAccepted (.conditional binding))
      (fun failure => failure.kind = .relationship ∧ ¬ ((∃ restriction ∈ restrictions,
        requirementMatches model restriction.condition (.conditional binding) = true) ∧
          model.ContextAccepted (.conditional binding))) := by
  have folds : ∀ (rest : List DirectRestriction) (matched : Bool),
      (∀ restriction ∈ rest, restriction ∈ restrictions) →
      Ensures (rest.foldlM (model.validateConditionalStep binding) matched)
        (fun final => (final = true ↔ matched = true ∨ ∃ restriction ∈ rest,
            requirementMatches model restriction.condition (.conditional binding) = true) ∧
          ((∃ restriction ∈ rest,
            requirementMatches model restriction.condition (.conditional binding) = true) →
              model.ContextAccepted (.conditional binding)))
        (fun failure => failure.kind = .relationship ∧
          ¬ model.ContextAccepted (.conditional binding)) := by
    intro rest
    induction rest with
    | nil =>
      intro matched _
      exact ⟨by simp, by simp⟩
    | cons restriction rest ih =>
      intro matched within
      rw [foldlM_cons]
      apply (validateConditionalStep_spec binding matched restriction
        (defined restriction (within restriction mem_cons_self))).bind
      intro next step
      apply (ih next fun other member => within other (mem_cons_of_mem _ member)).imp
      intro final later
      simp only [exists_mem_cons_iff]
      exact ⟨by rw [later.1, step.1, or_assoc], fun fits => fits.elim step.2 later.2⟩
  unfold validateConditional
  refine lookup (fun absent => ⟨rfl, fun accepted => ?_⟩) ?_
  · obtain ⟨restriction, -, fits⟩ := accepted.1
    obtain ⟨_, _, _, _, named, _⟩ := condition_of_requirementMatches fits
    rw [absent] at named
    cases named
  intro id _
  apply ((folds restrictions false fun _ member => member).raising fun _ failed =>
    ⟨failed.1, fun both => failed.2 both.2⟩).bind
  intro matched fits
  split
  · rename_i success
    have found := (fits.1.mp success).resolve_left Bool.false_ne_true
    exact ⟨found, fits.2 found⟩
  · rename_i failed
    exact ⟨rfl, fun both => failed (fits.1.mpr (.inr both.1))⟩

theorem validateUnconditional_spec (restrictions : List DirectRestriction) :
    Ensures (validateUnconditional restrictions)
      (fun _ => ∃ restriction ∈ restrictions,
        requirementMatches model restriction.condition .unconditional = true)
      (fun failure => failure.kind = .relationship ∧ ¬ ∃ restriction ∈ restrictions,
        requirementMatches model restriction.condition .unconditional = true) := by
  have plain : ∀ restriction : DirectRestriction,
      requirementMatches model restriction.condition .unconditional = true ↔
        restriction.condition = .unconditional := by
    intro restriction
    cases restriction.condition <;> simp [requirementMatches]
  unfold validateUnconditional
  simp only [plain, any_eq_true, decide_eq_true_eq]
  split
  · assumption
  · exact ⟨rfl, ‹_›⟩

/-- Once the subject is known to the model, a tuple is refused exactly if no restriction
admits it or its context is not accepted. -/
theorem validateRelationshipCondition_spec (tuple : RelationshipTuple)
    (restrictions : List DirectRestriction)
    (defined : ∀ restriction ∈ restrictions, ∀ id, restriction.condition = .required id →
      ∃ condition, model.condition id = some condition)
    (known : model.typeId tuple.key.subject.subjectType ≠ none)
    (classified : model.directClass tuple.key.subject ≠ none) :
    Ensures (model.validateRelationshipCondition tuple restrictions)
      (fun _ => admittedClass model restrictions tuple ≠ none ∧
        model.ContextAccepted tuple.condition)
      (fun failure => failure.kind = .relationship ∧
        ¬ (admittedClass model restrictions tuple ≠ none ∧
          model.ContextAccepted tuple.condition)) := by
  unfold validateRelationshipCondition
  refine lookup (fun absent => absurd absent known) ?_
  intro type typeFound
  refine lookup (fun absent => absurd absent classified) ?_
  intro directClass classFound
  have admitted : admittedClass model restrictions tuple ≠ none ↔
      ∃ restriction ∈ matchingRestrictions restrictions type directClass,
        requirementMatches model restriction.condition tuple.condition = true := by
    rw [Option.ne_none_iff_exists']
    simp only [admittedClass_eq_some, classFound, typeFound, Option.some.injEq,
      matchingRestrictions, mem_filter, Bool.and_eq_true, decide_eq_true_eq]
    constructor
    · rintro ⟨_, rfl, restriction, member, rfl, kind, requirement⟩
      exact ⟨restriction, ⟨member, rfl, kind⟩, requirement⟩
    · rintro ⟨restriction, ⟨member, rfl, kind⟩, requirement⟩
      exact ⟨_, rfl, restriction, member, rfl, kind, requirement⟩
  rw [admitted]
  simp only
  split
  · rename_i empty
    refine ⟨rfl, fun both => ?_⟩
    obtain ⟨restriction, member, -⟩ := both.1
    rw [isEmpty_iff.mp empty] at member
    cases member
  · cases tuple.condition with
    | unconditional =>
      exact (validateUnconditional_spec _).mono (fun _ fits => ⟨fits, nofun⟩)
        fun _ failed => ⟨failed.1, fun both => failed.2 both.1⟩
    | conditional binding =>
      exact validateConditional_spec binding _ fun restriction member =>
        defined restriction (mem_filter.mp member).1

/-- A relationship tuple is valid exactly if a restriction of its relation admits it and its
context is accepted, and an invalid one never fails for a defect of the model. -/
theorem validateRelationshipTuple_spec (tuple : RelationshipTuple) :
    Ensures (model.validateRelationshipTuple tuple)
      (fun _ => ∃ id relation,
        model.relationId tuple.key.object.objectType tuple.key.relation = some id ∧
        model.relation id = some relation ∧
        admittedClass model relation.restrictions tuple ≠ none ∧
        model.ContextAccepted tuple.condition)
      (fun failure => failure.kind = .relationship ∧ ¬ ∃ id relation,
        model.relationId tuple.key.object.objectType tuple.key.relation = some id ∧
        model.relation id = some relation ∧
        admittedClass model relation.restrictions tuple ≠ none ∧
        model.ContextAccepted tuple.condition) := by
  unfold validateRelationshipTuple
  refine lookup (fun absent => ⟨rfl, ?_⟩) ?_
  · rintro ⟨id, relation, named, -⟩
    rw [relationId, absent] at named
    cases named
  intro objectType _
  refine lookup (fun absent => ⟨rfl, ?_⟩) ?_
  · rintro ⟨id, relation, named, -⟩
    rw [absent] at named
    cases named
  intro id named
  obtain ⟨relation, found, -, -⟩ := relationId_eq_some.mp named
  have only : ∀ {holds : CompiledRelation → Prop}, (∃ id' relation',
      model.relationId tuple.key.object.objectType tuple.key.relation = some id' ∧
      model.relation id' = some relation' ∧ holds relation') ↔ holds relation := by
    intro holds
    refine ⟨?_, fun held => ⟨id, relation, named, found, held⟩⟩
    rintro ⟨id', relation', named', found', held⟩
    cases named.symm.trans named'
    cases found.symm.trans found'
    exact held
  rw [only]
  refine lookup (fun absent => by rw [found] at absent; cases absent) ?_
  intro relation' found'
  cases found.symm.trans found'
  have defined : ∀ restriction ∈ relation.restrictions, ∀ id,
      restriction.condition = .required id → ∃ condition, model.condition id = some condition := by
    intro restriction member required requires
    have valid := model.restrictions_valid relation (relation_mem found) restriction member
    exact ⟨_, getElem?_eq_getElem (valid.2.2 required requires)⟩
  refine lookup (fun absent => ⟨rfl, fun both => ?_⟩) ?_
  · obtain ⟨directClass, admitted⟩ := Option.ne_none_iff_exists'.mp both.1
    obtain ⟨-, restriction, -, typed, -⟩ := admittedClass_eq_some.mp admitted
    rw [absent] at typed
    cases typed
  intro type known
  have present : model.typeId tuple.key.subject.subjectType ≠ none := by simp [known]
  have permitted := validateRelationshipCondition_spec tuple relation.restrictions defined present
  cases subject : tuple.key.subject with
  | object | typedWildcard => exact permitted (by simp [subject, directClass])
  | userset ref =>
    refine lookup (fun absent => ⟨rfl, fun both => ?_⟩) ?_
    · obtain ⟨directClass, admitted⟩ := Option.ne_none_iff_exists'.mp both.1
      have classified := (admittedClass_eq_some.mp admitted).1
      simp [subject, CompiledModel.directClass, absent] at classified
    intro target targetNamed
    exact permitted (by simp [subject, directClass, targetNamed])

end Outcomes

end CompiledModel

end OpenFga
