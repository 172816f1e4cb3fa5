import OpenFga.Check.Reference

/-!
# Sequential evaluation

The evaluation a check would have if it were done operand by operand, without a
work graph, a memo table or ceilings other than the nesting fuel and the
condition cost: each reducer combines the outcomes of all its operands. It keeps
the resolution of a decision and selects the error of the first failed operand,
so it says which result a run of the scheduler may end with.

`value_sequential_refines` relates it to the reference semantics: a decision of
the sequential evaluation is the reference value.
-/

namespace OpenFga

open List Kleene

variable {operands : RelationshipTuple → List Operand}

/-- An operand of a read: decided by its row, or a semantic key to evaluate. -/
inductive Operand where
  | immediate (outcome : Evaluation)
  | semantic (object : ObjectRef) (relation : RelationId)

def Operand.evaluate (recurse : ObjectRef → RelationId → Evaluation) : Operand → Evaluation
  | .immediate outcome => outcome
  | .semantic object relation => recurse object relation

section Operands

variable (env : CheckEnvironment) (ceiling : Nat)

/-- The operands one row contributes to a direct read. -/
def directOperands (subject : SubjectRef) (restrictions : List DirectRestriction)
    (tuple : RelationshipTuple) : List Operand :=
  match admittedClass env.model restrictions tuple with
  | none => []
  | some .object =>
      if tuple.key.subject = subject then (rowCondition env ceiling tuple).toList.map .immediate
      else []
  | some .wildcard =>
      if tuple.key.subject = subject ∨ wildcardMatches tuple.key.subject subject then
        (rowCondition env ceiling tuple).toList.map .immediate
      else []
  | some (.userset relation) =>
      match tuple.key.subject with
      | .userset ref =>
          match rowCondition env ceiling tuple with
          | none => []
          | some (.error error) => [.immediate (.error error)]
          | some (.ok decision) =>
              if !decision.allowed then []
              else if tuple.key.subject = subject then [.immediate (.ok decision)]
              else [.semantic ref.object relation]
      | _ => []

/-- The operands one row contributes to a tuple-to-userset read. -/
def ttuOperands (restrictions : List DirectRestriction) (targets : List RelationId)
    (tuple : RelationshipTuple) : List Operand :=
  match admittedClass env.model restrictions tuple with
  | some .object =>
      match rowCondition env ceiling tuple with
      | none => []
      | some (.error error) => [.immediate (.error error)]
      | some (.ok decision) =>
          if !decision.allowed then []
          else
            match tuple.key.subject with
            | .object object =>
                (targetsFor env.model object.objectType targets).map (.semantic object)
            | _ => []
  | _ => []

variable (recurse : ObjectRef → RelationId → Evaluation)

/-- The rows of a read, unless reading fails. -/
def readRows (object : ObjectRef) (relation : RelationName) :
    Except CheckError (List RelationshipTuple) :=
  (env.readObjectRelation object relation).map fun stored =>
    env.contextual.get object relation ++ stored

/-- A read combines the operands of all its rows in a union. -/
def sequentialRead (resolution : CheckResolution) (object : ObjectRef) (relation : RelationName)
    (operands : RelationshipTuple → List Operand) : Evaluation := do
  let rows ← readRows env object relation
  combine .union (some resolution) ((rows.flatMap operands).map (Operand.evaluate recurse))

def sequentialDirect (subject : SubjectRef) (object : ObjectRef) (owner : RelationId) :
    Evaluation :=
  match env.model.relation owner with
  | none => .error (.model "read_relation_invalid")
  | some relation =>
      sequentialRead env recurse .direct object relation.name
        (directOperands env ceiling subject relation.restrictions)

def sequentialTtu (object : ObjectRef) (tupleset : RelationId) (targets : List RelationId) :
    Evaluation :=
  match env.model.relation tupleset with
  | none => .error (.model "read_relation_invalid")
  | some relation =>
      sequentialRead env recurse .tupleToUserset object relation.name
        (ttuOperands env ceiling relation.restrictions targets)

mutual

def sequentialRewrite (subject : SubjectRef) (object : ObjectRef) : Rewrite → Evaluation
  | .direct owner => sequentialDirect env ceiling recurse subject object owner
  | .computed target => combine .single (some .computed) [recurse object target]
  | .tupleToUserset tupleset targets => sequentialTtu env ceiling recurse object tupleset targets
  | .union children =>
      combine .union (some .union) (sequentialRewrites subject object children)
  | .intersection children =>
      combine .intersection (some .intersection) (sequentialRewrites subject object children)
  | .difference base subtract =>
      combine .difference (some .difference)
        [sequentialRewrite subject object base, sequentialRewrite subject object subtract]

def sequentialRewrites (subject : SubjectRef) (object : ObjectRef) :
    List Rewrite → List Evaluation
  | [] => []
  | child :: children =>
      sequentialRewrite subject object child :: sequentialRewrites subject object children

end

/-- The sequential evaluation of a semantic key on a branch path. -/
def sequential : Nat → SemanticKey → BranchPath → Evaluation
  | 0, _, _ => .error .depthExceeded
  | fuel + 1, key, path =>
      if key ∈ path then .ok (.deny .cycle)
      else if unreachable env.model key then .ok (.deny .unreachable)
      else
        combine .single none [sequentialRewrite env ceiling
          (fun object relation => sequential fuel ⟨object, relation, key.subject⟩ (insert key path))
          key.subject key.object (env.model.rewrite key.relation)]

end Operands

theorem sequentialRewrites_eq_map (env : CheckEnvironment) (ceiling : Nat)
    (recurse : ObjectRef → RelationId → Evaluation) (subject : SubjectRef) (object : ObjectRef)
    (children : List Rewrite) :
    sequentialRewrites env ceiling recurse subject object children =
      children.map (sequentialRewrite env ceiling recurse subject object) := by
  induction children with
  | nil => rfl
  | cons child children ih => rw [sequentialRewrites, ih, map_cons]

section Refinement

variable {env : CheckEnvironment} {ceiling : Nat}
  {evaluate : ObjectRef → RelationId → Evaluation} {recurse : ObjectRef → RelationId → Kleene}

/-- The disjunction of a row's operands approximates the value of the row. -/
def RowRefines (evaluate : ObjectRef → RelationId → Evaluation) (operands : List Operand)
    (value : Kleene) : Prop :=
  Kleene.Refines (.any (operands.map fun operand => (operand.evaluate evaluate).value)) value

theorem rowRefines_condition (tuple : RelationshipTuple) :
    RowRefines evaluate ((rowCondition env ceiling tuple).toList.map .immediate)
      (conditionValue env ceiling tuple) := by
  unfold RowRefines conditionValue
  cases rowCondition env ceiling tuple with
  | none => exact refines_refl _
  | some outcome =>
    simp [Operand.evaluate]

section

variable (refines : ∀ object relation, Kleene.Refines (evaluate object relation).value
  (recurse object relation))

include refines

theorem directOperands_refines (subject : SubjectRef) (restrictions : List DirectRestriction)
    (tuple : RelationshipTuple) :
    RowRefines evaluate (directOperands env ceiling subject restrictions tuple)
      (directRowValue env ceiling recurse subject restrictions tuple) := by
  have absent : RowRefines evaluate [] .no := refines_refl _
  unfold directOperands directRowValue
  cases admittedClass env.model restrictions tuple with
  | none => exact absent
  | some directClass =>
    cases directClass with
    | object | wildcard =>
      simp only
      split
      · exact rowRefines_condition tuple
      · exact absent
    | userset relation =>
      cases userset : tuple.key.subject with
      | object | typedWildcard => exact absent
      | userset ref =>
        unfold conditionValue
        cases rowCondition env ceiling tuple with
        | none =>
          simp only
          split <;> exact refines_refl _
        | some outcome =>
          cases outcome with
          | error error => exact unknown_refines _
          | ok decision =>
            cases allowed : decision.allowed with
            | false =>
              simp only [allowed, Bool.not_false, if_true]
              split <;> simp [RowRefines, allowed, Kleene.and]
            | true =>
              simp only [allowed, Bool.not_true, Bool.false_eq_true, if_false]
              split
              · simp [RowRefines, Operand.evaluate, allowed, Kleene.or]
              · have inner := refines ref.object relation
                simpa [RowRefines, Operand.evaluate, allowed] using inner

theorem ttuOperands_refines (restrictions : List DirectRestriction) (targets : List RelationId)
    (tuple : RelationshipTuple) :
    RowRefines evaluate (ttuOperands env ceiling restrictions targets tuple)
      (ttuRowValue env ceiling recurse restrictions targets tuple) := by
  have absent : RowRefines evaluate [] .no := refines_refl _
  unfold ttuOperands ttuRowValue conditionValue
  cases admittedClass env.model restrictions tuple with
  | none => exact absent
  | some directClass =>
    cases directClass with
    | wildcard | userset => exact absent
    | object =>
      cases rowCondition env ceiling tuple with
      | none =>
        cases tuple.key.subject <;> simp [RowRefines]
      | some outcome =>
        cases outcome with
        | error error => exact unknown_refines _
        | ok decision =>
          cases allowed : decision.allowed with
          | false =>
            simp only [allowed, Bool.not_false, if_true]
            cases tuple.key.subject <;> simp [RowRefines, allowed]
          | true =>
            simp only [allowed, Bool.not_true, Bool.false_eq_true, if_false]
            cases tuple.key.subject with
            | userset | typedWildcard => exact absent
            | object object =>
              simp only [RowRefines, map_map, Evaluation.value_ok, allowed,
                ofBool_true, yes_and]
              apply Kleene.Refines.any
              rw [forall₂_map_left_iff, forall₂_map_right_iff]
              exact forall₂_same.mpr fun target _ => refines object target

end

/-- A union over the operands of all rows approximates the disjunction of the rows. -/
theorem rows_refine (refines : ∀ tuple, RowRefines evaluate (operands tuple) (rowValue tuple))
    (resolution : CheckResolution) (rows : List RelationshipTuple) : Kleene.Refines
      (combine .union (some resolution)
        ((rows.flatMap operands).map (Operand.evaluate evaluate))).value
      (.any (rows.map rowValue)) := by
  rw [value_combine_union, map_map]
  induction rows with
  | nil => exact refines_refl _
  | cons tuple rows ih =>
    rw [flatMap_cons, map_append, Kleene.any_append, map_cons, Kleene.any_cons]
    exact (refines tuple).or ih

theorem sequentialRead_refines
    (refines : ∀ tuple, RowRefines evaluate (operands tuple) (rowValue tuple))
    (resolution : CheckResolution) (object : ObjectRef) (relation : RelationName) :
    Kleene.Refines (sequentialRead env evaluate resolution object relation operands).value
      (.any ((env.rows object relation).map rowValue)) := by
  unfold sequentialRead readRows CheckEnvironment.readObjectRelation
  cases env.readFailure object relation with
  | some kind => exact unknown_refines _
  | none => exact rows_refine refines resolution _

/-- The value of a sequentially evaluated rewrite approximates its reference value. -/
theorem sequentialRewrite_refines
    (refines : ∀ object relation, Kleene.Refines (evaluate object relation).value
      (recurse object relation))
    (subject : SubjectRef) (object : ObjectRef) (tree : Rewrite) :
    Kleene.Refines (sequentialRewrite env ceiling evaluate subject object tree).value
      (rewriteValue env ceiling (fun _ => false) recurse subject object tree) := by
  induction tree with
  | direct owner =>
    simp only [sequentialRewrite, rewriteValue, sequentialDirect, directValue]
    cases env.model.relation owner with
    | none => exact unknown_refines _
    | some relation =>
      exact sequentialRead_refines (directOperands_refines refines subject _) _ _ _
  | computed target =>
    simp only [sequentialRewrite, rewriteValue, combine, headD_cons, value_mapResolution]
    exact refines object target
  | tupleToUserset tupleset targets =>
    simp only [sequentialRewrite, rewriteValue, sequentialTtu, ttuValue]
    cases env.model.relation tupleset with
    | none => exact unknown_refines _
    | some relation =>
      exact sequentialRead_refines (ttuOperands_refines refines _ targets) _ _ _
  | union children ih =>
    simp only [sequentialRewrite, rewriteValue, value_combine_union, sequentialRewrites_eq_map,
      rewriteValues_eq_map, map_map]
    apply Kleene.Refines.any
    rw [forall₂_map_left_iff, forall₂_map_right_iff]
    exact forall₂_same.mpr ih
  | intersection children ih =>
    simp only [sequentialRewrite, rewriteValue, value_combine_intersection,
      sequentialRewrites_eq_map, rewriteValues_eq_map, map_map]
    apply Kleene.Refines.all
    rw [forall₂_map_left_iff, forall₂_map_right_iff]
    exact forall₂_same.mpr ih
  | difference base subtract baseRefines subtractRefines =>
    simp only [sequentialRewrite, rewriteValue, value_combine_difference, Bool.false_eq_true,
      if_false]
    exact baseRefines.diff subtractRefines

/-- A decision of the sequential evaluation is the value of the pruned reference semantics. -/
theorem value_sequential_refines (env : CheckEnvironment) (ceiling fuel : Nat) :
    ∀ (key : SemanticKey) (path : BranchPath),
      Kleene.Refines (sequential env ceiling fuel key path).value
        (reference env ceiling (.pruned env.model) fuel key path) := by
  induction fuel with
  | zero => exact fun _ _ => unknown_refines _
  | succ fuel ih =>
    intro key path
    rw [sequential, reference, CheckPolicy.pruned_denies, CheckPolicy.pruned_grants,
      CheckPolicy.pruned_cuts]
    by_cases entered : key ∈ path
    · rw [if_pos entered, if_pos entered]
      exact refines_refl _
    · rw [if_neg entered, if_neg entered]
      by_cases pruned : unreachable env.model key = true
      · rw [if_pos pruned, if_pos pruned]
        exact refines_refl _
      · rw [if_neg pruned, if_neg pruned, if_neg Bool.false_ne_true]
        simp only [combine, headD_cons, value_mapResolution]
        exact sequentialRewrite_refines (fun object relation => ih _ _) _ _ _

end Refinement

end OpenFga
