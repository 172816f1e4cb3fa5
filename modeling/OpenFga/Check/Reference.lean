import OpenFga.Check.Scheduler

/-!
# Reference semantics

The recursive meaning of a check in strong Kleene logic. Rows are the contextual
tuples together with the stored ones; a condition that fails or runs out of its
cost ceiling has the unknown value; re-entering a semantic key that is already on
the branch path denies for that path only. The fuel bounds the number of nested
semantic keys, and an exhausted fuel is unknown as well.

A policy says where the semantics departs from the bare rewrite rules: keys that
are denied or granted outright, and differences that are cut. The check evaluator
denies keys whose subject the compiled tables call unreachable. `rewriteValue_refines`
is the monotonicity of a rewrite in the information order.
-/

namespace OpenFga

open List Kleene

section Rows

variable (env : CheckEnvironment) (ceiling : Nat)

/-- All rows on an object and relation, contextual rows first. -/
def CheckEnvironment.rows (object : ObjectRef) (relation : RelationName) : List RelationshipTuple :=
  env.contextual.get object relation ++ env.storedRows object relation

/-- What a finished condition evaluation contributes: nothing when unmet. -/
def conditionResult : Except EvaluationError ConditionOutcome → Option Evaluation
  | .ok outcome => if outcome.conditionMet then some (.ok (.allow .direct)) else none
  | .error failure =>
      match failure.kind with
      | .costExceeded => some (.error .conditionCostExceeded)
      | .cancelled => some (.error (.cancelled "condition_cancelled"))
      | _ => some (.error (.condition failure))

/-- The condition of a row under a cost ceiling. -/
def rowCondition (tuple : RelationshipTuple) : Option Evaluation :=
  match tuple.condition with
  | .unconditional => some (.ok (.allow .direct))
  | .conditional binding =>
      match (env.model.conditionId binding.name).bind env.model.condition with
      | none => none
      | some condition =>
          conditionResult (condition.evaluate env.conditionContext binding.context ceiling)

def conditionValue (tuple : RelationshipTuple) : Kleene :=
  match rowCondition env ceiling tuple with
  | none => .no
  | some outcome => outcome.value

/-- The targets of a tuple-to-userset that belong to one object type. -/
def targetsFor (model : CompiledModel) (objectType : TypeName) (targets : List RelationId) :
    List RelationId :=
  targets.filter fun target =>
    decide ((model.relation target).bind (fun relation => model.typeName relation.objectType) =
      some objectType)

variable (recurse : ObjectRef → RelationId → Kleene) (subject : SubjectRef)

/-- The value of one row of a direct relation. -/
def directRowValue (restrictions : List DirectRestriction) (tuple : RelationshipTuple) : Kleene :=
  match admittedClass env.model restrictions tuple with
  | none => .no
  | some .object =>
      if tuple.key.subject = subject then conditionValue env ceiling tuple else .no
  | some .wildcard =>
      if tuple.key.subject = subject ∨ wildcardMatches tuple.key.subject subject then
        conditionValue env ceiling tuple
      else .no
  | some (.userset relation) =>
      match tuple.key.subject with
      | .userset ref =>
          if tuple.key.subject = subject then conditionValue env ceiling tuple
          else .and (conditionValue env ceiling tuple) (recurse ref.object relation)
      | _ => .no

/-- The value of one row of a tupleset. -/
def ttuRowValue (restrictions : List DirectRestriction) (targets : List RelationId)
    (tuple : RelationshipTuple) : Kleene :=
  match admittedClass env.model restrictions tuple, tuple.key.subject with
  | some .object, .object object =>
      .and (conditionValue env ceiling tuple)
        (.any ((targetsFor env.model object.objectType targets).map (recurse object)))
  | _, _ => .no

def directValue (object : ObjectRef) (owner : RelationId) : Kleene :=
  match env.model.relation owner with
  | none => .no
  | some relation =>
      .any ((env.rows object relation.name).map
        (directRowValue env ceiling recurse subject relation.restrictions))

def ttuValue (object : ObjectRef) (tupleset : RelationId) (targets : List RelationId) : Kleene :=
  match env.model.relation tupleset with
  | none => .no
  | some relation =>
      .any ((env.rows object relation.name).map
        (ttuRowValue env ceiling recurse relation.restrictions targets))

end Rows

/-- Where a semantics departs from the bare rewrite rules. -/
structure CheckPolicy where
  denies : SemanticKey → Bool
  grants : SemanticKey → Bool
  cuts : Nat → BranchPath → ObjectRef → Rewrite → Bool

/-- The bare rewrite rules. -/
def CheckPolicy.bare : CheckPolicy :=
  ⟨fun _ => false, fun _ => false, fun _ _ _ _ => false⟩

/-- The compiled tables say that the subject cannot be reached. -/
def unreachable (model : CompiledModel) (key : SemanticKey) : Bool :=
  match model.typeId key.subject.subjectType with
  | none => false
  | some subjectType =>
      if key.subject.isTypedWildcard then !model.canReachWildcard key.relation subjectType
      else !model.canReachSubjectType key.relation subjectType

/-- The policy of the check evaluator. -/
def CheckPolicy.pruned (model : CompiledModel) : CheckPolicy :=
  ⟨unreachable model, fun _ => false, fun _ _ _ _ => false⟩

section Policies

variable (model : CompiledModel)

@[simp] theorem CheckPolicy.pruned_denies (key : SemanticKey) :
    (CheckPolicy.pruned model).denies key = unreachable model key := rfl

@[simp] theorem CheckPolicy.pruned_grants (key : SemanticKey) :
    (CheckPolicy.pruned model).grants key = false := rfl

@[simp] theorem CheckPolicy.pruned_cuts (fuel : Nat) (path : BranchPath) (object : ObjectRef) :
    (CheckPolicy.pruned model).cuts fuel path object = fun _ => false := rfl

@[simp] theorem CheckPolicy.bare_denies (key : SemanticKey) :
    CheckPolicy.bare.denies key = false := rfl

@[simp] theorem CheckPolicy.bare_grants (key : SemanticKey) :
    CheckPolicy.bare.grants key = false := rfl

@[simp] theorem CheckPolicy.bare_cuts (fuel : Nat) (path : BranchPath) (object : ObjectRef) :
    CheckPolicy.bare.cuts fuel path object = fun _ => false := rfl

end Policies

section Semantics

variable (env : CheckEnvironment) (ceiling : Nat)

mutual

/-- The value of a rewrite tree on one object, given the values of semantic keys. -/
def rewriteValue (cuts : Rewrite → Bool) (recurse : ObjectRef → RelationId → Kleene)
    (subject : SubjectRef) (object : ObjectRef) : Rewrite → Kleene
  | .direct owner => directValue env ceiling recurse subject object owner
  | .computed target => recurse object target
  | .tupleToUserset tupleset targets => ttuValue env ceiling recurse object tupleset targets
  | .union children => .any (rewriteValues cuts recurse subject object children)
  | .intersection children => .all (rewriteValues cuts recurse subject object children)
  | .difference base subtract =>
      if cuts subtract then .no
      else
        .diff (rewriteValue cuts recurse subject object base)
          (rewriteValue cuts recurse subject object subtract)

/-- The values of the operands of a rewrite. -/
def rewriteValues (cuts : Rewrite → Bool) (recurse : ObjectRef → RelationId → Kleene)
    (subject : SubjectRef) (object : ObjectRef) : List Rewrite → List Kleene
  | [] => []
  | child :: children =>
      rewriteValue cuts recurse subject object child ::
        rewriteValues cuts recurse subject object children

end

/-- The value of a semantic key on a branch path. -/
def reference (policy : CheckPolicy) : Nat → SemanticKey → BranchPath → Kleene
  | 0, _, _ => .unknown
  | fuel + 1, key, path =>
      if key ∈ path then .no
      else if policy.denies key then .no
      else if policy.grants key then .yes
      else
        rewriteValue env ceiling (policy.cuts fuel (insert key path) key.object)
          (fun object relation => reference policy fuel ⟨object, relation, key.subject⟩
            (insert key path))
          key.subject key.object (env.model.rewrite key.relation)

end Semantics

theorem rewriteValues_eq_map (env : CheckEnvironment) (ceiling : Nat) (cuts : Rewrite → Bool)
    (recurse : ObjectRef → RelationId → Kleene) (subject : SubjectRef) (object : ObjectRef)
    (children : List Rewrite) :
    rewriteValues env ceiling cuts recurse subject object children =
      children.map (rewriteValue env ceiling cuts recurse subject object) := by
  induction children with
  | nil => rfl
  | cons child children ih => rw [rewriteValues, ih, map_cons]

section Monotonicity

variable {env : CheckEnvironment} {ceiling : Nat} {recurse recurse' : ObjectRef →
  RelationId → Kleene} {subject : SubjectRef}

section

variable (refines : ∀ object target, (recurse object target).Refines (recurse' object target))

include refines

theorem directRowValue_refines (restrictions : List DirectRestriction) (tuple : RelationshipTuple) :
    (directRowValue env ceiling recurse subject restrictions tuple).Refines
      (directRowValue env ceiling recurse' subject restrictions tuple) := by
  unfold directRowValue
  cases admittedClass env.model restrictions tuple with
  | none => exact refines_refl _
  | some directClass =>
    cases directClass with
    | object | wildcard => exact refines_refl _
    | userset relation =>
      cases tuple.key.subject with
      | object | typedWildcard => exact refines_refl _
      | userset ref =>
        simp only
        split
        · exact refines_refl _
        · exact (refines_refl _).and (refines ref.object relation)

theorem ttuRowValue_refines (restrictions : List DirectRestriction) (targets : List RelationId)
    (tuple : RelationshipTuple) :
    (ttuRowValue env ceiling recurse restrictions targets tuple).Refines
      (ttuRowValue env ceiling recurse' restrictions targets tuple) := by
  unfold ttuRowValue
  split
  · apply (refines_refl _).and
    apply Kleene.Refines.any
    rw [forall₂_map_left_iff, forall₂_map_right_iff]
    exact forall₂_same.mpr fun target _ => refines _ target
  · exact refines_refl _

end

/-- More information about the keys gives more information about a rewrite. -/
theorem rewriteValue_refines
    (refines : ∀ object target, (recurse object target).Refines (recurse' object target))
    (cuts : Rewrite → Bool) (object : ObjectRef) (tree : Rewrite) :
    (rewriteValue env ceiling cuts recurse subject object tree).Refines
      (rewriteValue env ceiling cuts recurse' subject object tree) := by
  induction tree with
  | direct owner =>
    simp only [rewriteValue, directValue]
    cases env.model.relation owner with
    | none => exact refines_refl _
    | some relation =>
      apply Kleene.Refines.any
      rw [forall₂_map_left_iff, forall₂_map_right_iff]
      exact forall₂_same.mpr fun tuple _ => directRowValue_refines refines _ tuple
  | computed target => exact refines object target
  | tupleToUserset tupleset targets =>
    simp only [rewriteValue, ttuValue]
    cases env.model.relation tupleset with
    | none => exact refines_refl _
    | some relation =>
      apply Kleene.Refines.any
      rw [forall₂_map_left_iff, forall₂_map_right_iff]
      exact forall₂_same.mpr fun tuple _ => ttuRowValue_refines refines _ targets tuple
  | union children ih =>
    simp only [rewriteValue, rewriteValues_eq_map]
    apply Kleene.Refines.any
    rw [forall₂_map_left_iff, forall₂_map_right_iff]
    exact forall₂_same.mpr ih
  | intersection children ih =>
    simp only [rewriteValue, rewriteValues_eq_map]
    apply Kleene.Refines.all
    rw [forall₂_map_left_iff, forall₂_map_right_iff]
    exact forall₂_same.mpr ih
  | difference base subtract baseRefines subtractRefines =>
    simp only [rewriteValue]
    split
    · exact refines_refl _
    · exact baseRefines.diff subtractRefines

end Monotonicity

end OpenFga
