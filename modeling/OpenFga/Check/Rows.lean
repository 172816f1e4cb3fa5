import OpenFga.Check.Process

/-!
# Candidates of a read

The rows of a read are turned into candidates one after the other. Each candidate
stands for an evaluation, and together they have the same union as the operands
of the sequential evaluation. A row whose condition hits a limit contributes one
failed candidate, which stands for the union of all operands of that row.
-/

namespace OpenFga

open List Sample Evaluation Scheduler CompiledModel

variable {relation : CompiledRelation}

/-- Two operand lists that no union can tell apart. -/
def SameUnion (first second : List Evaluation) : Prop :=
  first.any allows = second.any allows ∧
    (first.any allows = false → firstError first = firstError second)

namespace SameUnion

theorem refl (values : List Evaluation) : SameUnion values values :=
  ⟨rfl, fun _ => rfl⟩

theorem append {first second first' second' : List Evaluation} (left : SameUnion first first')
    (right : SameUnion second second') : SameUnion (first ++ second) (first' ++ second') := by
  refine ⟨by rw [any_append, any_append, left.1, right.1], fun none => ?_⟩
  rw [any_append, Bool.or_eq_false_iff] at none
  have head := left.2 none.1
  have tail := right.2 none.2
  simp only [firstError] at head tail
  simp only [firstError, findSome?_append, head, tail]

theorem combine_eq {first second : List Evaluation} (same : SameUnion first second)
    (resolution : Option CheckResolution) :
    combine .union resolution first = combine .union resolution second := by
  simp only [combine, ← same.1]
  split
  · rfl
  · rename_i none
    rw [same.2 (by simpa using none)]

/-- A union nested in a union can be flattened. -/
theorem nested (resolution : Option CheckResolution) (values : List Evaluation) :
    SameUnion [combine .union resolution values] values := by
  simp only [combine]
  split
  · rename_i allowed
    exact ⟨by simp [allows, allowed], by simp [allows]⟩
  · rename_i refused
    rw [Bool.not_eq_true] at refused
    split
    · rename_i error failed
      exact ⟨by simp [allows, refused], fun _ => by rw [failed]; rfl⟩
    · rename_i settled
      exact ⟨by simp [allows, refused], fun _ => by rw [settled]; rfl⟩

end SameUnion

section Restrictions

variable {model : CompiledModel}

theorem conditionRequirementMatches_eq {requirement : ConditionRequirement}
    (known : ∀ id, requirement = .required id → ∃ condition, model.condition id = some condition)
    (reference : ConditionReference) :
    conditionRequirementMatches model requirement reference =
      .ok (requirementMatches model requirement reference) := by
  cases requirement with
  | unconditional => cases reference <;> rfl
  | required id =>
    cases reference with
    | unconditional => rfl
    | conditional binding =>
      obtain ⟨condition, found⟩ := known id rfl
      simp [conditionRequirementMatches, requirementMatches, found, bind, Except.bind]

theorem admitsClass_eq (subjectType : TypeId) (directClass : DirectClass)
    (reference : ConditionReference) (restrictions : List DirectRestriction)
    (known : ∀ restriction ∈ restrictions, ∀ id, restriction.condition = .required id →
      ∃ condition, model.condition id = some condition) :
    admitsClass model subjectType directClass reference restrictions =
      .ok (restrictions.any fun restriction =>
        decide (restriction.subjectType = subjectType) &&
          restrictionKindMatches restriction.kind directClass &&
          requirementMatches model restriction.condition reference) := by
  induction restrictions with
  | nil => rfl
  | cons restriction restrictions ih =>
    have rest := ih fun other member => known other (mem_cons_of_mem _ member)
    rw [admitsClass, any_cons]
    by_cases skipped : (decide (restriction.subjectType ≠ subjectType) ||
        !restrictionKindMatches restriction.kind directClass) = true
    · rw [if_pos skipped, rest]
      have refused : (decide (restriction.subjectType = subjectType) &&
          restrictionKindMatches restriction.kind directClass) = false := by
        simpa [imp_iff_not_or] using skipped
      rw [refused, Bool.false_and, Bool.false_or]
    · rw [if_neg skipped,
        conditionRequirementMatches_eq (known restriction mem_cons_self) reference]
      have fits : (decide (restriction.subjectType = subjectType) &&
          restrictionKindMatches restriction.kind directClass) = true := by
        simpa [not_or] using skipped
      rw [fits, Bool.true_and]
      cases requirementMatches model restriction.condition reference with
      | true => rfl
      | false => exact rest

/-- The restriction test of the evaluator never fails and is the one of the reference. -/
theorem matchingRestriction_eq {id : RelationId} (found : model.relation id = some relation)
    (tuple : RelationshipTuple) : matchingRestriction model tuple relation.restrictions =
      .ok (admittedClass model relation.restrictions tuple) := by
  unfold matchingRestriction admittedClass
  cases model.typeId tuple.key.subject.subjectType with
  | none => rfl
  | some subjectType =>
    cases model.directClass tuple.key.subject with
    | none => rfl
    | some directClass =>
      have known : ∀ restriction ∈ relation.restrictions, ∀ id,
          restriction.condition = .required id →
            ∃ condition, model.condition id = some condition := by
        intro restriction member id required
        have valid := model.restrictions_valid relation (relation_mem found)
          restriction member
        exact ⟨_, getElem?_eq_getElem (valid.2.2 id required)⟩
      simp only [admitsClass_eq _ _ _ _ known, bind, Except.bind]
      split <;> rfl

/-- The condition of an admitted row is defined. -/
theorem condition_of_admitted {restrictions : List DirectRestriction} {tuple : RelationshipTuple}
    {directClass : DirectClass} {binding : ConditionBinding}
    (admitted : admittedClass model restrictions tuple = some directClass)
    (conditional : tuple.condition = .conditional binding) :
    ∃ id condition, model.conditionId binding.name = some id ∧
      model.condition id = some condition := by
  obtain ⟨-, restriction, -, -, -, fits⟩ := admittedClass_eq_some.mp admitted
  rw [conditional] at fits
  obtain ⟨id, condition, -, found, named, -⟩ := condition_of_requirementMatches fits
  exact ⟨id, condition, named, found⟩

/-- The rows that a check uses are those an enumeration keeps, but for rows whose context is
not accepted by the condition they name: these only a check uses. -/
theorem validated_iff_matching {tuple : RelationshipTuple} {id : RelationId}
    {relation : CompiledRelation}
    (named : model.relationId tuple.key.object.objectType tuple.key.relation = some id)
    (found : model.relation id = some relation) :
    model.validateRelationshipTuple tuple = .ok () ↔
      (∃ directClass,
        matchingRestriction model tuple relation.restrictions = .ok (some directClass)) ∧
          model.ContextAccepted tuple.condition := by
  have admits : (∃ directClass,
      matchingRestriction model tuple relation.restrictions = .ok (some directClass)) ↔
        admittedClass model relation.restrictions tuple ≠ none := by
    rw [matchingRestriction_eq found, Option.ne_none_iff_exists']
    simp only [Except.ok.injEq]
  rw [admits]
  have exactly := model.validateRelationshipTuple_spec tuple
  cases validated : model.validateRelationshipTuple tuple with
  | ok _ =>
    obtain ⟨_, _, named', found', both⟩ := exactly.of_ok validated
    cases named.symm.trans named'
    cases found.symm.trans found'
    exact ⟨fun _ => both, fun _ => rfl⟩
  | error failure =>
    refine ⟨nofun, fun both => ?_⟩
    exact absurd ⟨id, relation, named, found, both⟩ (exactly.of_error validated).2

namespace Sample

/-! Documents with `viewer: [user with ranked]`, where `ranked` has a parameter that is 1 or 2. -/

def guarded : CompiledModel where
  storeId := ⟨"store"⟩
  modelId := ⟨"model"⟩
  types := [user, document]
  relations := [⟨⟨1⟩, ⟨"viewer"⟩, ⟨0⟩, [⟨⟨0⟩, .object, .required ⟨0⟩⟩]⟩]
  nodes := [.direct ⟨0⟩]
  conditions := [⟨⟨"ranked"⟩, [⟨⟨"rank"⟩, fun _ => true, fun value => decide (value = .int 1 ∨
    value = .int 2)⟩], fun _ _ => .ok ⟨true, 0⟩, fun _ _ _ _ _ => rfl⟩]
  graph := ⟨[∅], [∅], [{⟨0⟩}], [∅]⟩
  types_nodup := types_nodup
  relations_nodup := by decide
  conditions_nodup := by decide
  relations_valid := by decide
  restrictions_valid := by decide
  children_precede := by decide
  nodes_scoped := by decide
  graph_eq := by decide

def viewing (context : ConditionContext) : RelationshipTuple :=
  ⟨⟨plan, ⟨"viewer"⟩, anne⟩, .conditional ⟨⟨"ranked"⟩, context⟩⟩

def ranked (rank : Int64) : ConditionContext := ⟨[(⟨"rank"⟩, .int rank)], nodup_singleton _⟩

end Sample

/-- A row that gives a parameter its condition does not have is used by a check only. -/
theorem extra_parameter_admitted :
    (∃ failure, guarded.validateRelationshipTuple
      (viewing ⟨[(⟨"extra"⟩, .int 1)], nodup_singleton _⟩) = .error failure) ∧
    matchingRestriction guarded
      (viewing ⟨[(⟨"extra"⟩, .int 1)], nodup_singleton _⟩)
      [⟨⟨0⟩, .object, .required ⟨0⟩⟩] = .ok (some .object) :=
  ⟨⟨_, rfl⟩, rfl⟩

/-- The rank 2 fits the condition, the rank 3 does not. -/
theorem validated_iff_matching_ranked :
    guarded.ContextAccepted (viewing (ranked 2)).condition ∧
      ¬ guarded.ContextAccepted (viewing (ranked 3)).condition := by
  have named (rank : Int64) : guarded.relationId (viewing (ranked rank)).key.object.objectType
      (viewing (ranked rank)).key.relation = some ⟨0⟩ := rfl
  have refused : guarded.validateRelationshipTuple (viewing (ranked 3)) ≠ .ok () := by
    decide +kernel
  refine ⟨((validated_iff_matching (named 2) rfl).mp (by decide +kernel)).2, fun accepted => ?_⟩
  exact refused ((validated_iff_matching (named 3) rfl).mpr ⟨⟨.object, rfl⟩, accepted⟩)

end Restrictions

section Conditions

variable {target : Target} (schedule : Schedule) {s : Scheduler} {tuple : RelationshipTuple}

/-- Evaluating conditions only moves on in time and charges the condition budget. -/
structure Charges (s s' : Scheduler) : Prop where
  alike : Alike s s'
  ready : s'.ready = s.ready
  reads : s'.reads = s.reads

theorem Charges.refl (s : Scheduler) : Charges s s :=
  ⟨⟨rfl, rfl, rfl, rfl, rfl⟩, rfl, rfl⟩

theorem Charges.trans {s s' s'' : Scheduler} (first : Charges s s') (second : Charges s' s'') :
    Charges s s'' :=
  ⟨⟨second.alike.slots.trans first.alike.slots, second.alike.memo.trans first.alike.memo,
    second.alike.produced.trans first.alike.produced,
    second.alike.rootResult.trans first.alike.rootResult,
    second.alike.dispatches.trans first.alike.dispatches⟩,
    second.ready.trans first.ready, second.reads.trans first.reads⟩

section Charged

variable {s₁ s' : Scheduler} {ghost : Ghost} {focus : Focus}

theorem Charges.coherent (charges : Charges s s₁) (coherent : Coherent target ghost focus s) :
    Coherent target ghost focus s₁ :=
  coherent.congr charges.alike.slots charges.ready charges.reads charges.alike.memo
    charges.alike.produced charges.alike.rootResult charges.alike.dispatches.ge

theorem Charges.stateAt_eq (charges : Charges s s₁) (id : Nat) : s₁.stateAt id = s.stateAt id := by
  simp only [stateAt, charges.alike.slots]

theorem Charges.settled (charges : Charges s s₁) (settled : Settled target s₁ s') :
    Settled target s s' := by
  refine ⟨settled.coherent, settled.reads.trans charges.reads, settled.cost.trans (le_of_eq ?_)⟩
  simp only [cost, charges.alike.slots, charges.ready, charges.reads]

end Charged

/-- What the evaluator makes of a row's condition: the sequential result, or a limit. -/
def ConditionMeans (expected actual : Option Evaluation) : Prop :=
  (∃ error : CheckError, error.Ends ∧ actual = some (.error error)) ∨
    actual = expected ∧ (∀ decision, actual = some (.ok decision) → decision.allowed = true) ∧
      ∀ error, actual = some (.error error) → error.kind ≠ .internal

theorem checkContext_spec (s : Scheduler) :
    Ensures (s.checkContext schedule) (fun s' => Charges s s' ∧ s'.conditionCost = s.conditionCost)
      CheckError.Ends := by
  unfold checkContext
  cases schedule.interruption s.tick with
  | none => exact ⟨⟨⟨rfl, rfl, rfl, rfl, rfl⟩, rfl, rfl⟩, rfl⟩
  | some interruption =>
    cases interruption with
    | cancelled => exact (show Interruption.cancelled.asError.Ends by decide)
    | deadline => exact (show Interruption.deadline.asError.Ends by decide)

theorem conditionMeans_of_settled {condition : CompiledCondition} {binding : ConditionBinding}
    (conditional : tuple.condition = .conditional binding) {id : ConditionId}
    (idFound : target.env.model.conditionId binding.name = some id)
    (found : target.env.model.condition id = some condition) {budget : Nat}
    (small : budget ≤ target.env.budget.maximumConditionCost)
    {result : Except EvaluationError ConditionOutcome}
    (evaluated : condition.evaluate target.env.conditionContext binding.context budget = result)
    (settled : result ≠ .error (.new .costExceeded)) :
    ConditionMeans (rowCondition target.env target.ceiling tuple) (conditionResult result) := by
  have stable := condition.evaluate_stable target.env.conditionContext binding.context
    (small.trans target.covers) (evaluated ▸ settled)
  have same : rowCondition target.env target.ceiling tuple = conditionResult result := by
    simp only [rowCondition, conditional, idFound, Option.bind_some, found, stable, evaluated]
  refine .inr ⟨same.symm, ?_, ?_⟩
  · intro decision allowed
    cases result with
    | ok outcome =>
      simp only [conditionResult] at allowed
      split at allowed <;> cases allowed
      rfl
    | error failure =>
      simp only [conditionResult] at allowed
      split at allowed <;> cases allowed
  · intro error failed
    cases result with
    | ok outcome =>
      simp only [conditionResult] at failed
      split at failed <;> cases failed
    | error failure =>
      simp only [conditionResult] at failed
      split at failed <;> cases failed <;>
        simp [CheckError.conditionCostExceeded, CheckError.cancelled, CheckError.condition,
          CheckError.new]

theorem evaluateTupleCondition_spec (target : Target) (schedule : Schedule) (s : Scheduler)
    (tuple : RelationshipTuple)
    (known : ∀ binding, tuple.condition = .conditional binding →
      ∃ id condition, target.env.model.conditionId binding.name = some id ∧
        target.env.model.condition id = some condition) :
    Ensures (s.evaluateTupleCondition target.env schedule tuple)
      (fun result => Charges s result.2 ∧
        ConditionMeans (rowCondition target.env target.ceiling tuple) result.1)
      CheckError.Ends := by
  unfold evaluateTupleCondition
  cases conditional : tuple.condition with
  | unconditional =>
    refine ⟨.refl s, .inr ⟨?_, ?_, ?_⟩⟩
    · simp only [rowCondition, conditional]
    · rintro decision ⟨⟩
      rfl
    · rintro error ⟨⟩
  | conditional binding =>
    obtain ⟨id, condition, idFound, found⟩ := known binding conditional
    refine (checkContext_spec schedule s).bind fun s₁ first => ?_
    simp only [idFound, found, orError_some, bind, Except.bind]
    split
    · exact ⟨first.1, .inl ⟨_, by decide, rfl⟩⟩
    · generalize evaluated : (if schedule.conditionCancelled s₁.tick = true then
          (.error (.new .cancelled) : Except EvaluationError ConditionOutcome)
        else condition.evaluate target.env.conditionContext binding.context
          (target.env.budget.maximumConditionCost - s₁.conditionCost)) = result
      have moved : Charges s s₁.ticked := first.1.trans ⟨⟨rfl, rfl, rfl, rfl, rfl⟩, rfl, rfl⟩
      refine (checkContext_spec schedule s₁.ticked).bind fun s₂ second => ?_
      have charged : Charges s s₂ := moved.trans second.1
      -- unless the evaluation was cut short, its result is the sequential one
      have means : (∃ failure : EvaluationError, result = .error failure ∧
          (failure.kind = .cancelled ∨ failure.kind = .costExceeded)) ∨
          ConditionMeans (rowCondition target.env target.ceiling tuple)
            (conditionResult result) := by
        split at evaluated
        · exact .inl ⟨_, evaluated.symm, .inl rfl⟩
        · by_cases cut : result = .error (.new .costExceeded)
          · exact .inl ⟨_, cut, .inr rfl⟩
          · exact .inr (conditionMeans_of_settled conditional idFound found (Nat.sub_le _ _)
              evaluated cut)
      cases result with
      | ok outcome =>
        simp only
        split
        · exact (show CheckError.conditionCostExceeded.Ends by decide)
        · have settled := means.resolve_left (by rintro ⟨failure, ⟨⟩, -⟩)
          have moved' : Charges s
              { s₂ with conditionCost := s₂.conditionCost + outcome.cost } :=
            charged.trans ⟨⟨rfl, rfl, rfl, rfl, rfl⟩, rfl, rfl⟩
          simp only [conditionResult] at settled
          split
          · rename_i met
            rw [if_pos met] at settled
            exact ⟨moved', settled⟩
          · rename_i unmet
            rw [if_neg unmet] at settled
            exact ⟨moved', settled⟩
      | error failure =>
        simp only
        split
        · exact ⟨charged, .inl ⟨_, by decide, rfl⟩⟩
        · exact ⟨charged, .inl ⟨_, by decide, rfl⟩⟩
        · rename_i notCost notCancelled
          have settled := means.resolve_left (by
            rintro ⟨_, ⟨⟩, cancelled | cost⟩
            · exact notCancelled cancelled
            · exact notCost cost)
          refine ⟨charged, ?_⟩
          simpa only [conditionResult] using settled

end Conditions

section Candidates

variable {target : Target} (schedule : Schedule)

/-- The candidate is right for the evaluation it stands for. -/
def CandidateMeans (target : Target) : Candidate → Spec → Prop
  | .immediate (.ok decision), spec => decision.allowed = true ∧ Settles spec (.ok decision)
  | .immediate (.error error), spec =>
      error.kind ≠ .internal ∧ (error.IsLimit ∨ Settles spec (.error error))
  | .semantic item, spec =>
      target.env.model.WorkValid (.semantic item) ∧ spec = target.work (.semantic item)

/-- The evaluation of an operand of a read, on one path and for one subject. -/
def Target.operand (target : Target) (subject : SubjectRef) (path : BranchPath)
    (operand : Operand) : Spec :=
  fun fuel => operand.evaluate fun object relation =>
    target.semantic ⟨object, relation, subject⟩ path fuel

/-- The candidates stand for evaluations with the same union as the operands. -/
def CandidatesMean (target : Target) (subject : SubjectRef) (path : BranchPath)
    (operands : List Operand) (candidates : List Candidate) : Prop :=
  ∃ specs, List.Forall₂ (CandidateMeans target) candidates specs ∧
    ∀ fuel, SameUnion (specs.map fun spec => spec fuel)
      (operands.map fun operand => target.operand subject path operand fuel)

namespace CandidatesMean

variable {subject : SubjectRef} {path : BranchPath} {operands : List Operand}

theorem nil : CandidatesMean target subject path [] [] :=
  ⟨[], .nil, fun _ => .refl _⟩

theorem append {operands' : List Operand} {candidates candidates' : List Candidate}
    (first : CandidatesMean target subject path operands candidates)
    (second : CandidatesMean target subject path operands' candidates') :
    CandidatesMean target subject path (operands ++ operands') (candidates ++ candidates') := by
  obtain ⟨specs, means, same⟩ := first
  obtain ⟨specs', means', same'⟩ := second
  refine ⟨specs ++ specs', rel_append means means', fun fuel => ?_⟩
  rw [map_append, map_append]
  exact (same fuel).append (same' fuel)

/-- A limit stands for all operands of its row at once. -/
theorem limit {error : CheckError} (ends : error.Ends) :
    CandidatesMean target subject path operands [.immediate (.error error)] := by
  refine ⟨[fun fuel => combine .union none
    (operands.map fun operand => target.operand subject path operand fuel)],
    .cons ⟨ends.2, .inl ends.1⟩ .nil, fun fuel => ?_⟩
  exact .nested none _

theorem immediate {outcome : Evaluation}
    (allowed : ∀ decision, outcome = .ok decision → decision.allowed = true)
    (external : ∀ error, outcome = .error error → error.kind ≠ .internal) :
    CandidatesMean target subject path [.immediate outcome] [.immediate outcome] := by
  refine ⟨[fun _ => outcome], .cons ?_ .nil, fun fuel => .refl _⟩
  have settles : Settles (fun _ => outcome) outcome := .of_forall fun _ => rfl
  cases outcome with
  | ok decision => exact ⟨allowed decision rfl, settles⟩
  | error error => exact ⟨external error rfl, .inr settles⟩

theorem semantic {object : ObjectRef} {relation : RelationId}
    (known : target.env.model.KnowsRelation relation)
    (subjectKnown : target.env.model.KnowsSubject subject) (depth : Nat) :
    CandidatesMean target subject path [.semantic object relation]
      [.semantic ⟨object, relation, subject, path, depth⟩] :=
  ⟨[target.semantic ⟨object, relation, subject⟩ path], .cons ⟨⟨known, subjectKnown⟩, rfl⟩ .nil,
    fun _ => .refl _⟩

/-- The candidates of a row whose condition alone decides it. -/
theorem condition {expected actual : Option Evaluation} (means : ConditionMeans expected actual) :
    CandidatesMean target subject path (expected.toList.map .immediate)
      (actual.toList.map .immediate) := by
  rcases means with ⟨error, ends, rfl⟩ | ⟨rfl, allowed, external⟩
  · exact .limit ends
  · cases actual with
    | none => exact .nil
    | some outcome =>
      exact .immediate (fun decision same => allowed decision (by rw [same]))
        (fun error same => external error (by rw [same]))

end CandidatesMean

/-- The candidate allows at once. -/
def Candidate.Allows (candidate : Candidate) : Prop :=
  ∃ decision, candidate = .immediate (.ok decision)

/-- What turning rows into candidates achieves. The rows of a tupleset never allow at once. -/
def RowSpec (target : Target) (subject : SubjectRef) (path : BranchPath) (mayAllow : Prop)
    (operands : List Operand) (s : Scheduler)
    (result : Except CheckError (List Candidate × Scheduler)) : Prop :=
  Ensures result (fun value => Charges s value.2 ∧
    CandidatesMean target subject path operands value.1 ∧
    ∀ candidate ∈ value.1, candidate.Allows → mayAllow) CheckError.Ends

theorem directRow_spec {read : DirectRead}
    (found : target.env.model.relation read.relation = some relation)
    (subject : target.env.model.KnowsSubject read.subject) (tuple : RelationshipTuple)
    (s : Scheduler) : RowSpec target read.subject read.path True
      (directOperands target.env target.ceiling read.subject relation.restrictions tuple) s
      (directRow target.env schedule read relation.restrictions tuple s) := by
  unfold directRow directOperands
  simp only [matchingRestriction_eq found, bind, Except.bind]
  cases admitted : admittedClass target.env.model relation.restrictions tuple with
  | none => exact ⟨.refl s, .nil, by simp⟩
  | some directClass =>
    have evaluated := evaluateTupleCondition_spec target schedule s tuple
      fun binding => condition_of_admitted admitted
    cases directClass with
    | object | wildcard =>
      simp only
      split
      · exact evaluated.bind fun result post => ⟨post.1, .condition post.2, by simp⟩
      · exact ⟨.refl s, .nil, by simp⟩
    | userset relationId =>
      have known : target.env.model.KnowsRelation relationId := by
        have classFound := (admittedClass_eq_some.mp admitted).1
        cases userset : tuple.key.subject with
        | object | typedWildcard => simp [directClass, userset] at classFound
        | userset ref =>
          simp only [directClass, userset, Option.map_eq_some_iff] at classFound
          obtain ⟨id, idFound, same⟩ := classFound
          cases same
          obtain ⟨relation', present, -⟩ := relationId_eq_some.mp idFound
          exact ⟨relation', present⟩
      cases userset : tuple.key.subject with
      | object | typedWildcard => exact ⟨.refl s, .nil, by simp⟩
      | userset ref =>
        refine evaluated.bind fun result post => ?_
        obtain ⟨outcome, s'⟩ := result
        obtain ⟨charges, means⟩ := post
        rcases means with ⟨error, ends, rfl⟩ | ⟨same, allowed, external⟩
        · exact ⟨charges, .limit ends, by simp⟩
        · rw [← same]
          cases outcome with
          | none => exact ⟨charges, .nil, by simp⟩
          | some evaluation =>
            cases evaluation with
            | error error =>
              refine ⟨charges, .immediate (by simp) fun raised same => ?_, by simp⟩
              exact external raised (by rw [same])
            | ok decision =>
              have yes := allowed decision rfl
              simp only [yes, Bool.not_true, Bool.false_eq_true, if_false]
              split
              · refine ⟨charges, .immediate ?_ (by simp), by simp⟩
                intro other same
                cases same
                exact yes
              · refine (nextDepth_spec read.depth).bind fun depth _ => ?_
                exact ⟨charges, .semantic known subject depth, by simp⟩

theorem ttuTargets_spec {read : TtuRead} (subject : target.env.model.KnowsSubject read.subject)
    (object : ObjectRef) (targets : List RelationId)
    (known : ∀ relation ∈ targets, target.env.model.KnowsRelation relation) :
    Ensures (ttuTargets target.env read object targets)
      (fun candidates => CandidatesMean target read.subject read.path
        ((targetsFor target.env.model object.objectType targets).map (.semantic object))
        candidates ∧ ∀ candidate ∈ candidates, ¬ candidate.Allows)
      CheckError.Ends := by
  induction targets with
  | nil => exact ⟨.nil, by simp⟩
  | cons relation targets ih =>
    have rest := ih fun other member => known other (mem_cons_of_mem _ member)
    obtain ⟨content, found⟩ := known relation mem_cons_self
    have inside := (target.env.model.relations_valid content
      (relation_mem found)).1
    obtain ⟨name, named⟩ : ∃ name, target.env.model.typeName content.objectType = some name :=
      ⟨_, getElem?_eq_getElem inside⟩
    unfold ttuTargets
    simp only [found, named, orError_some, bind, Except.bind]
    by_cases fits : name = object.objectType
    · have kept : targetsFor target.env.model object.objectType (relation :: targets) =
          relation :: targetsFor target.env.model object.objectType targets := by
        simp [targetsFor, found, named, fits]
      rw [if_pos fits, kept]
      refine (nextDepth_spec read.depth).bind fun depth _ => ?_
      refine rest.bind fun candidates post => ?_
      refine ⟨(CandidatesMean.semantic ⟨content, found⟩ subject depth).append post.1, ?_⟩
      intro candidate member
      rcases mem_cons.mp member with rfl | later
      · rintro ⟨decision, ⟨⟩⟩
      · exact post.2 candidate later
    · have dropped : targetsFor target.env.model object.objectType (relation :: targets) =
          targetsFor target.env.model object.objectType targets := by
        simp [targetsFor, found, named, fits]
      rw [if_neg fits, dropped]
      exact rest

theorem ttuRow_spec {read : TtuRead}
    (found : target.env.model.relation read.tupleset = some relation)
    (known : ∀ relation ∈ read.targets, target.env.model.KnowsRelation relation)
    (subject : target.env.model.KnowsSubject read.subject) (tuple : RelationshipTuple)
    (s : Scheduler) : RowSpec target read.subject read.path False
      (ttuOperands target.env target.ceiling relation.restrictions read.targets tuple) s
      (ttuRow target.env schedule read relation.restrictions tuple s) := by
  unfold ttuRow ttuOperands
  simp only [matchingRestriction_eq found, bind, Except.bind]
  cases admitted : admittedClass target.env.model relation.restrictions tuple with
  | none => exact ⟨.refl s, .nil, by simp⟩
  | some directClass =>
    cases directClass with
    | wildcard | userset => exact ⟨.refl s, .nil, by simp⟩
    | object =>
      have evaluated := evaluateTupleCondition_spec target schedule s tuple
        fun binding => condition_of_admitted admitted
      refine evaluated.bind fun result post => ?_
      obtain ⟨outcome, s'⟩ := result
      obtain ⟨charges, means⟩ := post
      rcases means with ⟨error, ends, rfl⟩ | ⟨same, allowed, external⟩
      · exact ⟨charges, .limit ends, by simp [Candidate.Allows]⟩
      · rw [← same]
        cases outcome with
        | none => exact ⟨charges, .nil, by simp⟩
        | some evaluation =>
          cases evaluation with
          | error error =>
            refine ⟨charges, .immediate (by simp) fun raised same => ?_, by simp [Candidate.Allows]⟩
            exact external raised (by rw [same])
          | ok decision =>
            simp only [allowed decision rfl, Bool.not_true, Bool.false_eq_true, if_false]
            cases tuple.key.subject with
            | userset | typedWildcard => exact ⟨charges, .nil, by simp⟩
            | object object =>
              refine (ttuTargets_spec subject object read.targets known).bind ?_
              exact fun candidates post => ⟨charges, post⟩

/-- Turning all rows into candidates, given what turning one row does. -/
theorem collectRows_spec {subject : SubjectRef} {path : BranchPath} {mayAllow : Prop}
    {row : RelationshipTuple → Scheduler → Except CheckError (List Candidate × Scheduler)}
    {operands : RelationshipTuple → List Operand}
    (each : ∀ tuple s, RowSpec target subject path mayAllow (operands tuple) s (row tuple s))
    (rows : List RelationshipTuple) : ∀ s : Scheduler,
      RowSpec target subject path mayAllow (rows.flatMap operands) s
        (collectRows row rows s) := by
  induction rows with
  | nil => exact fun s => ⟨.refl s, .nil, by simp⟩
  | cons tuple rows ih =>
    intro s
    refine (each tuple s).bind fun head headPost => ?_
    refine (ih head.2).bind fun rest restPost => ?_
    refine ⟨headPost.1.trans restPost.1, headPost.2.1.append restPost.2.1, ?_⟩
    intro candidate member
    rcases mem_append.mp member with first | later
    · exact headPost.2.2 candidate first
    · exact restPost.2.2 candidate later

end Candidates

end OpenFga
