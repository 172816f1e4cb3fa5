import OpenFga.Check.Pruning

/-!
# Enumeration queries

Errors and validation shared by the enumeration engines, and the rows they see.
An engine keeps a stored row only if the row passes the validation for relationship
tuples, whereas a check asks whether some restriction admits it. A row that passes
validation is admitted; the converse needs the context a conditional row carries to
be accepted by its condition, and is stated as `AdmittedRowsValid`.

Facts are typed: an object belongs to the object type of the relation it is asked
for. The leaves of a rewrite keep to this typing.
-/

namespace OpenFga

variable {object : ObjectRef} {id : RelationId} {relation : CompiledRelation}
  {tuple : RelationshipTuple}

inductive ListErrorKind where
  | invalidModel
  | invalidTuple
  | depthExceeded
  | dispatchExceeded
  | datastoreQueryExceeded
  | tupleItemExceeded
  | candidateExceeded
  | subjectExceeded
  | conditionCostExceeded
  | nodeExceeded
  | responseSizeExceeded
  | storageUnavailable
  | timeout
  | cancelled
  | internal
  deriving DecidableEq, Repr

inductive ListErrorSource where
  | condition (error : EvaluationError)
  | storage (kind : StorageErrorKind)
  | model
  | tupleValidation (error : TupleValidationError)
  deriving DecidableEq, Repr

structure ListError where
  kind : ListErrorKind
  code : String
  source : Option ListErrorSource
  deriving DecidableEq, Repr

namespace ListError

def new (kind : ListErrorKind) (code : String) : ListError :=
  ⟨kind, code, none⟩

def model (code : String) : ListError :=
  ⟨.invalidModel, code, some .model⟩

def condition (code : String) (source : EvaluationError) : ListError :=
  ⟨.invalidTuple, code, some (.condition source)⟩

def internal (code : String) : ListError := new .internal code

def ofStorage (kind : StorageErrorKind) : ListError :=
  let reported : ListErrorKind :=
    match kind with
    | .cancelled => .cancelled
    | .timeout => .timeout
    | .unavailable => .storageUnavailable
    | .resourceExhausted => .tupleItemExceeded
    | _ => .internal
  ⟨reported, "tuple_storage_failed", some (.storage kind)⟩

def ofTupleValidation (source : TupleValidationError) : ListError :=
  ⟨.invalidTuple, source.code, some (.tupleValidation source)⟩

/-- An interrupted operation fails as the storage would. -/
def ofInterruption : Interruption → ListError
  | .cancelled => ofStorage .cancelled
  | .deadline => ofStorage .timeout

end ListError

/-- The store and model an enumeration is asked for. -/
structure ListQuery where
  storeId : StoreId
  modelSelection : ModelSelection

def validateQueryModel (query : ListQuery) (model : CompiledModel) : Except ListError Unit :=
  if model.storeId ≠ query.storeId then .error (.new .invalidModel "list_model_store_mismatch")
  else
    match query.modelSelection with
    | .explicit modelId =>
        if model.modelId ≠ modelId then .error (.new .invalidModel "list_model_id_mismatch")
        else .ok ()
    | .latest => .ok ()

/-- Contextual tuples must be valid for the model. -/
def validateListContextual (env : CheckEnvironment) : Except ListError Unit :=
  env.contextual.tuples.forM fun tuple =>
    (env.model.validateRelationshipTuple tuple).mapError .ofTupleValidation

namespace CompiledModel

variable (model : CompiledModel)

/-- Whether a relationship tuple passes validation. -/
def accepts (tuple : RelationshipTuple) : Bool :=
  match model.validateRelationshipTuple tuple with
  | .ok _ => true
  | .error _ => false

/-- The object belongs to the object type of the relation. -/
def TypedFor (object : ObjectRef) (id : RelationId) : Prop :=
  ∃ relation, model.relation id = some relation ∧
    model.typeName relation.objectType = some object.objectType

variable {model}

theorem typedFor_of_relationId {name : RelationName}
    (named : model.relationId object.objectType name = some id) : model.TypedFor object id := by
  obtain ⟨relation, found, -, type⟩ := relationId_eq_some.mp named
  exact ⟨relation, found, type⟩

/-- A row on an object and the name of one of its relations belongs to that relation. -/
theorem TypedFor.relationId (typed : model.TypedFor object id)
    (found : model.relation id = some relation) :
    model.relationId object.objectType relation.name = some id := by
  obtain ⟨relation', found', type⟩ := typed
  rw [found] at found'
  cases found'
  exact relationId_eq_some.mpr ⟨relation, found, rfl, type⟩

section Leaves

variable {source : RelationId} {object : ObjectRef}

theorem TypedFor.direct {owner : RelationId} (typed : model.TypedFor object source)
    (subterm : (Rewrite.direct owner).Subterm (model.rewrite source)) : owner = source := by
  obtain ⟨relation, found, -⟩ := typed
  obtain ⟨node, -, inScope, expanded⟩ := subterm_recorded found subterm
  cases node <;> cases expanded
  exact inScope

theorem typedFor_of_relationType {target : RelationId}
    (type : model.typeName relation.objectType = some object.objectType)
    (same : relationType model.relations target = some relation.objectType) :
    model.TypedFor object target := by
  obtain ⟨targetRelation, found, sameType⟩ := Option.map_eq_some_iff.mp same
  exact ⟨targetRelation, found, sameType ▸ type⟩

theorem TypedFor.computed {target : RelationId} (typed : model.TypedFor object source)
    (subterm : (Rewrite.computed target).Subterm (model.rewrite source)) :
    model.TypedFor object target := by
  obtain ⟨relation, found, type⟩ := typed
  obtain ⟨node, -, inScope, expanded⟩ := subterm_recorded found subterm
  cases node <;> cases expanded
  exact typedFor_of_relationType type inScope

theorem TypedFor.tupleset {tupleset : RelationId} {targets : List RelationId}
    (typed : model.TypedFor object source)
    (subterm : (Rewrite.tupleToUserset tupleset targets).Subterm (model.rewrite source)) :
    model.TypedFor object tupleset := by
  obtain ⟨relation, found, type⟩ := typed
  obtain ⟨node, -, inScope, expanded⟩ := subterm_recorded found subterm
  cases node <;> cases expanded
  exact typedFor_of_relationType type inScope.1

end Leaves

/-- A valid tuple is admitted by a restriction of its relation. -/
theorem admitted_of_accepts (valid : model.accepts tuple = true)
    (named : model.relationId tuple.key.object.objectType tuple.key.relation = some id)
    (found : model.relation id = some relation) :
    admittedClass model relation.restrictions tuple ≠ none := by
  unfold accepts at valid
  split at valid
  · rename_i validated
    obtain ⟨id', relation', named', found', admitted, -⟩ :=
      (model.validateRelationshipTuple_spec tuple).of_ok validated
    rw [named] at named'
    cases named'
    rw [found] at found'
    cases found'
    exact admitted
  · cases valid

end CompiledModel

/-- Every stored row that a restriction of its relation admits passes validation:
the context a conditional row carries fits the parameters of its condition. -/
def AdmittedRowsValid (env : CheckEnvironment) : Prop :=
  ∀ tuple ∈ env.stored, ∀ id relation,
    env.model.relationId tuple.key.object.objectType tuple.key.relation = some id →
    env.model.relation id = some relation →
    admittedClass env.model relation.restrictions tuple ≠ none → env.model.accepts tuple = true

theorem admittedRowsValid_of_accepts {env : CheckEnvironment}
    (accepted : ∀ tuple ∈ env.stored, env.model.accepts tuple = true) : AdmittedRowsValid env :=
  fun tuple member _ _ _ _ _ => accepted tuple member

section Rows

variable (env : CheckEnvironment)

/-- The rows an enumeration sees on an object and relation. -/
def CheckEnvironment.listedRows (object : ObjectRef) (relation : RelationName) :
    List RelationshipTuple :=
  (env.storedRows object relation).filter env.model.accepts ++ env.contextual.get object relation

variable {env}

theorem accepts_of_validateListContextual (contextual : validateListContextual env = .ok ())
    (member : tuple ∈ env.contextual.tuples) : env.model.accepts tuple = true := by
  unfold validateListContextual at contextual
  generalize env.contextual.tuples = listed at contextual member
  induction listed with
  | nil => simp at member
  | cons head tuples ih =>
    have unfolded : (env.model.validateRelationshipTuple head).mapError
        ListError.ofTupleValidation >>= (fun _ => tuples.forM fun tuple =>
          (env.model.validateRelationshipTuple tuple).mapError ListError.ofTupleValidation) =
        .ok () := contextual
    cases validated : env.model.validateRelationshipTuple head with
    | error failure =>
      rw [validated] at unfolded
      cases unfolded
    | ok _ =>
      rw [validated] at unfolded
      rcases List.mem_cons.mp member with rfl | later
      · simp only [CompiledModel.accepts, validated]
      · exact ih unfolded later

/-- On a typed object the enumerated rows are the admitted ones. -/
theorem mem_listedRows (valid : AdmittedRowsValid env)
    (contextual : validateListContextual env = .ok ()) (typed : env.model.TypedFor object id)
    (found : env.model.relation id = some relation) : tuple ∈ env.listedRows object relation.name ↔
      tuple ∈ env.rows object relation.name ∧
        admittedClass env.model relation.restrictions tuple ≠ none := by
  have identified := typed.relationId found
  unfold CheckEnvironment.listedRows CheckEnvironment.rows
  rw [List.mem_append, List.mem_append, List.mem_filter]
  constructor
  · intro member
    rcases member with ⟨stored, accepted⟩ | inContext
    · have key := of_decide_eq_true (List.mem_filter.mp stored).2
      refine ⟨.inr stored, CompiledModel.admitted_of_accepts accepted ?_ found⟩
      rw [key.1, key.2]
      exact identified
    · obtain ⟨listed, keyed⟩ := List.mem_filter.mp inContext
      have key := of_decide_eq_true keyed
      refine ⟨.inl inContext, CompiledModel.admitted_of_accepts
        (accepts_of_validateListContextual contextual listed) ?_ found⟩
      rw [key.1, key.2]
      exact identified
  · intro member
    obtain ⟨inContext | stored, admitted⟩ := member
    · exact .inr inContext
    · obtain ⟨listed, keyed⟩ := List.mem_filter.mp stored
      have key := of_decide_eq_true keyed
      refine .inl ⟨stored, valid tuple listed id relation ?_ found admitted⟩
      rw [key.1, key.2]
      exact identified

end Rows

end OpenFga
