import OpenFga.Check.Run

/-!
# Check requests

What a validated request is answered. `evaluateRoot_cases` reduces a request to a
run of the scheduler; the results below read off the invariants of the states the
run reaches. A decision is the value of the reference semantics. Without limits
the answer does not depend on the order of the reads. An internal error can only
come from offering candidates to a slot that an immediate allow has completed.
-/

namespace OpenFga

open Scheduler List Sample

section Validation

variable (env : CheckEnvironment) (input : RootInput)

theorem validateModelIdentity_spec (model : CompiledModel) :
    Ensures (validateModelIdentity input model) (fun _ => True)
      (fun error => error.kind = .invalidModel) := by
  unfold validateModelIdentity
  split
  · rfl
  · split
    · split
      · rfl
      · trivial
    · trivial

/-- The error says why a tuple is refused. -/
def CheckEnvironment.Refuses (error : CheckError) : Prop :=
  error.kind = .invalidTuple ∧ ∃ tuple failure,
    env.model.validateRelationshipTuple tuple = .error failure ∧ error.code = failure.code

theorem validateContextual_spec : Ensures (validateContextual env) (fun _ => True) env.Refuses := by
  unfold validateContextual
  induction env.contextual.tuples with
  | nil => trivial
  | cons tuple tuples ih =>
    have first : Ensures ((env.model.validateRelationshipTuple tuple).mapError
        CheckError.ofTupleValidation) (fun _ => True) env.Refuses := by
      cases validated : env.model.validateRelationshipTuple tuple with
      | error failure =>
        have kind := ((env.model.validateRelationshipTuple_spec tuple).of_error validated).1
        refine ensures_error.mpr ⟨?_, tuple, failure, validated, rfl⟩
        simp only [CheckError.ofTupleValidation, kind]
      | ok _ => trivial
    exact first.bind fun _ _ => ih

variable {env input}

theorem workValid_of_query {relation : RelationId}
    (named : env.model.validateQueryTuple input.tuple = .ok relation) :
    env.model.WorkValid (.semantic (input.root relation)) := by
  obtain ⟨identified, known⟩ := (env.model.validateQueryTuple_spec input.tuple).of_ok named
  obtain ⟨content, found, -, -⟩ := CompiledModel.relationId_eq_some.mp identified
  exact ⟨⟨content, found⟩, known⟩

variable (env input)

/-- A request fails validation, whatever the schedule, or is answered by a run. -/
theorem evaluateRoot_cases :
    (∃ error : CheckError, (error.kind = .invalidModel ∨ env.Refuses error) ∧
      ∀ schedule, evaluateRoot env schedule input = .error error) ∨
    ∃ relation, env.model.validateQueryTuple input.tuple = .ok relation ∧
      ∀ schedule, evaluateRoot env schedule input = drive env schedule (input.root relation) := by
  unfold evaluateRoot
  cases identity : validateModelIdentity input env.model with
  | error error =>
    have kind := (validateModelIdentity_spec input env.model).of_error identity
    exact .inl ⟨error, .inl kind, fun _ => rfl⟩
  | ok _ =>
    have query := env.model.validateQueryTuple_spec input.tuple
    cases validated : env.model.validateQueryTuple input.tuple with
    | error failure =>
      have kind := query.of_error validated
      refine .inl ⟨.ofTupleValidation failure, .inl ?_, fun _ => rfl⟩
      simp only [CheckError.ofTupleValidation, kind]
    | ok relation =>
      cases contextual : validateContextual env with
      | error error =>
        have refused := (validateContextual_spec env).of_error contextual
        exact .inl ⟨error, .inr refused, fun _ => rfl⟩
      | ok _ => exact .inr ⟨relation, rfl, fun _ => rfl⟩

end Validation

section Runs

variable {env : CheckEnvironment} {schedule : Schedule} {input : RootInput} {relation : RelationId}
  {s : Scheduler}

/-- What the run of a valid request is compared with. -/
def RootInput.target (input : RootInput) (env : CheckEnvironment) (relation : RelationId)
    (ceiling : Nat) (covers : env.budget.maximumConditionCost ≤ ceiling) : Target :=
  ⟨env, ceiling, covers, (input.root relation).key⟩

/-- Every state of the run of a valid request keeps to its meaning. -/
theorem reached_meaning (named : env.model.validateQueryTuple input.tuple = .ok relation)
    (reached : Reached env schedule (input.root relation) s) (ceiling : Nat)
    (covers : env.budget.maximumConditionCost ≤ ceiling) :
    ∃ ghost, Meaning (input.target env relation ceiling covers) ghost s := by
  obtain ⟨ghost, coherent⟩ :=
    reached_coherent (input.target env relation ceiling covers) schedule rfl rfl
      (workValid_of_query named) reached
  exact ⟨ghost, coherent.meaning⟩

theorem request_ends (schedule : Schedule)
    (named : env.model.validateQueryTuple input.tuple = .ok relation) :
    RunEnds env schedule (input.root relation) (drive env schedule (input.root relation)) :=
  drive_ends (input.target env relation _ le_rfl) schedule rfl rfl (workValid_of_query named)

/-- A key the run has settled has its reference value. -/
theorem reference_of_settles {ceiling : Nat} {key : SemanticKey} {path : BranchPath}
    {decision : Decision}
    (settles : Settles (fun fuel => sequential env ceiling fuel key path) (.ok decision)) :
    ∀ᶠ fuel in Filter.atTop,
      reference env ceiling (.pruned env.model) fuel key path = .ofBool decision.allowed := by
  apply Filter.Eventually.mono settles
  intro fuel (same : sequential env ceiling fuel key path = .ok decision)
  have refines := value_sequential_refines env ceiling fuel key path
  rw [same, Evaluation.value_ok] at refines
  apply refines.eq_of_determined
  cases decision.allowed <;> simp

/-- A returned decision is the reference value of the queried key. -/
theorem reference_of_answer {decision : Decision}
    (returned : evaluateRoot env schedule input = .ok decision) :
    ∃ relation, env.model.validateQueryTuple input.tuple = .ok relation ∧
      ∀ ceiling, env.budget.maximumConditionCost ≤ ceiling →
        ∀ᶠ fuel in Filter.atTop, reference env ceiling (.pruned env.model) fuel
          (input.root relation).key ∅ = .ofBool decision.allowed := by
  rcases evaluateRoot_cases env input with ⟨error, -, failed⟩ | ⟨relation, named, answered⟩
  · rw [failed schedule] at returned
    cases returned
  · refine ⟨relation, named, fun ceiling covers => ?_⟩
    have ends := request_ends schedule named
    rw [← answered schedule, returned] at ends
    cases ends with
    | finished reached result =>
      obtain ⟨ghost, meaning⟩ := reached_meaning named reached ceiling covers
      exact reference_of_settles (meaning.result _ result).settles_of_ok

/-- The decision of a check is the value of the reference semantics, and so is
every decision the run remembers. -/
theorem check_agrees_with_reference {decision : Decision}
    (returned : evaluateRoot env schedule input = .ok decision) :
    ∃ relation, env.model.validateQueryTuple input.tuple = .ok relation ∧
      ∀ ceiling, env.budget.maximumConditionCost ≤ ceiling →
        (∀ᶠ fuel in Filter.atTop, reference env ceiling (.pruned env.model) fuel
          (input.root relation).key ∅ = .ofBool decision.allowed) ∧
        ∀ s, Reached env schedule (input.root relation) s → ∀ entry ∈ s.memo,
          ∀ᶠ fuel in Filter.atTop, reference env ceiling (.pruned env.model) fuel
            entry.1.semantic entry.1.branchPath = .ofBool entry.2.allowed := by
  obtain ⟨relation, named, answer⟩ := reference_of_answer returned
  refine ⟨relation, named, fun ceiling covers => ⟨answer ceiling covers, ?_⟩⟩
  intro s reached entry member
  obtain ⟨ghost, meaning⟩ := reached_meaning named reached ceiling covers
  exact reference_of_settles (meaning.memo entry member)

theorem check_agrees_with_reference_edited :
    evaluateRoot edited (joining 0) request = .ok (.allow .intersection) ∧
    ∀ᶠ fuel in Filter.atTop, reference edited 100000 (.pruned model) fuel
      (request.root ⟨1⟩).key ∅ = .yes := by
  have returned : evaluateRoot edited (joining 0) request =
      .ok (.allow .intersection) := by decide
  obtain ⟨relation, named, agrees⟩ := check_agrees_with_reference returned
  cases named
  exact ⟨returned, (agrees 100000 (by decide)).1⟩

/-- No ceiling, interruption or internal error shows up in the run of a request:
none is delivered as an outcome, and none is the answer. -/
structure Unlimited (env : CheckEnvironment) (schedule : Schedule) (input : RootInput) : Prop where
  produced : ∀ relation s, env.model.validateQueryTuple input.tuple = .ok relation →
    Reached env schedule (input.root relation) s → ¬ Limited s.produced
  answered : ∀ error, evaluateRoot env schedule input = .error error → ¬ error.IsLimit

/-- Without limits a run answers what the sequential evaluation settles to. -/
theorem settles_of_unlimited (named : env.model.validateQueryTuple input.tuple = .ok relation)
    (answered : evaluateRoot env schedule input = drive env schedule (input.root relation))
    (unlimited : Unlimited env schedule input) :
    Settles ((input.target env relation _ le_rfl).semantic (input.root relation).key ∅)
      (evaluateRoot env schedule input) := by
  have ends := request_ends schedule named
  rw [← answered] at ends
  generalize result : evaluateRoot env schedule input = outcome at ends
  cases ends with
  | finished reached found =>
    obtain ⟨ghost, meaning⟩ := reached_meaning named reached _ le_rfl
    rcases (meaning.result _ found).settled with settles | ⟨-, limited⟩
    · exact settles
    · exact absurd limited (unlimited.produced relation _ named reached)
  | limited limit _ => exact absurd limit (unlimited.answered _ result)

/-- Two runs without limits give the same answer. -/
theorem answers_agree {env : CheckEnvironment} {input : RootInput} {first second : Schedule}
    (one : Unlimited env first input) (other : Unlimited env second input) :
    evaluateRoot env first input = evaluateRoot env second input := by
  rcases evaluateRoot_cases env input with ⟨error, -, failed⟩ | ⟨relation, named, answered⟩
  · rw [failed first, failed second]
  · exact (settles_of_unlimited named (answered first) one).unique
      (settles_of_unlimited named (answered second) other)

/-- Two runs without limits give the same answer. For a valid request it is the
one of the sequential evaluation, in which every combination of failed operands
reports the first of them. -/
theorem check_confluent {env : CheckEnvironment} {input : RootInput} {first second : Schedule}
    (one : Unlimited env first input) (other : Unlimited env second input) :
    evaluateRoot env first input = evaluateRoot env second input ∧
      ∀ relation, validateModelIdentity input env.model = .ok () →
        env.model.validateQueryTuple input.tuple = .ok relation → validateContextual env = .ok () →
        ∀ᶠ fuel in Filter.atTop, sequential env env.budget.maximumConditionCost fuel
          (input.root relation).key ∅ = evaluateRoot env first input := by
  constructor
  · exact answers_agree one other
  · intro relation identity named contextual
    apply settles_of_unlimited named _ one
    simp only [evaluateRoot, identity, named, contextual]
    rfl

theorem Sample.edited_unlimited (position : Nat)
    (quiet : ∀ s, Scheduler.start edited (joining position) (request.root ⟨1⟩) = .ok s →
      alwaysFrom edited (joining position) (fun s => s.produced.isEmpty) 30 s = true)
    (returned : ∃ decision, evaluateRoot edited (joining position) request = .ok decision) :
    Unlimited edited (joining position) request := by
  constructor
  · intro relation s named reached limited
    cases named
    have empty := reached_of_alwaysFrom quiet reached
    rw [List.isEmpty_iff] at empty
    obtain ⟨error, member, -⟩ := limited
    simp [empty] at member
  · intro error failed
    obtain ⟨decision, returned⟩ := returned
    rw [returned] at failed
    cases failed

theorem check_confluent_edited :
    evaluateRoot edited (joining 0) request =
      evaluateRoot edited (joining 1) request := by
  apply (check_confluent _ _).1
  · apply edited_unlimited 0
    · intro s started
      cases started
      decide
    · exact ⟨.allow .intersection, by decide⟩
  · apply edited_unlimited 1
    · intro s started
      cases started
      decide
    · exact ⟨.allow .intersection, by decide⟩

variable {budget : CheckBudget} {readFailure : ObjectRef → RelationName → Option StorageErrorKind}

theorem rewriteValue_limits {ceiling cuts recurse subject object} (tree : Rewrite) :
    rewriteValue { env with budget, readFailure } ceiling cuts recurse subject object tree =
      rewriteValue env ceiling cuts recurse subject object tree := by
  induction tree with
  | direct | computed | tupleToUserset => rfl
  | union _ ih | intersection _ ih =>
    simp only [rewriteValue, rewriteValues_eq_map, map_congr_left ih]
  | difference _ _ ih ih' => simp only [rewriteValue, ih, ih']

/-- The reference semantics reads neither the budget nor the failures. -/
theorem reference_limits {ceiling policy} (fuel key path) :
    reference { env with budget, readFailure } ceiling policy fuel key path =
      reference env ceiling policy fuel key path := by
  induction fuel generalizing key path with
  | zero => rfl
  | succ fuel ih => simp only [reference, ih, rewriteValue_limits]

/-- Limits, failing reads, interruptions and the order of completions can keep a check from
being decided, but no two of its decisions differ. -/
theorem limits_keep_decision {first second : Schedule} {one other : Decision}
    (returned : evaluateRoot env first input = .ok one)
    (returned' : evaluateRoot { env with budget, readFailure } second input = .ok other) :
    one.allowed = other.allowed := by
  obtain ⟨_, named, answer⟩ := reference_of_answer returned
  obtain ⟨_, named', answer'⟩ := reference_of_answer returned'
  cases named.symm.trans named'
  obtain ⟨fuel, here, there⟩ := ((answer (max _ budget.maximumConditionCost)
    (le_max_left _ _)).and (answer' _ (le_max_right _ _))).exists
  rw [reference_limits, here] at there
  revert there
  cases one.allowed <;> cases other.allowed <;> simp

def Sample.tight : CheckEnvironment :=
  { edited with budget := ⟨.of 2, .of 9, .of 9, .of 9, .of 9, .of 1⟩ }

theorem limits_keep_decision_tight :
    evaluateRoot tight (joining 1) request = .ok (.allow .intersection) ∧
      (Decision.allow .intersection).allowed = true := by
  have returned : evaluateRoot edited (joining 0) request = .ok (.allow .intersection) := by decide
  have other : evaluateRoot tight (joining 1) request = .ok (.allow .intersection) := by decide
  exact ⟨other, limits_keep_decision returned other⟩

/-- Every direct read joined for the request offers its candidates safely. -/
def SafeRequest (env : CheckEnvironment) (schedule : Schedule) (input : RootInput) : Prop :=
  ∀ relation, env.model.validateQueryTuple input.tuple = .ok relation →
    SafeRun env schedule (input.root relation)

/-- With successful reads no internal error is delivered as an outcome. -/
theorem delivered_not_internal
    (succeeds : ∀ object relation, env.readFailure object relation = none)
    (named : env.model.validateQueryTuple input.tuple = .ok relation)
    (reached : Reached env schedule (input.root relation) s) :
    ∀ error ∈ s.produced, error.kind ≠ .internal := by
  intro error member internal
  obtain ⟨ghost, meaning⟩ := reached_meaning named reached _ le_rfl
  obtain ⟨object, name, kind, failed⟩ := meaning.benign error member internal
  exact absurd ((succeeds object name).symm.trans failed) (by simp)

/-- With safe offers as well, none is answered. -/
theorem answer_not_internal
    (succeeds : ∀ object relation, env.readFailure object relation = none)
    (safe : SafeRequest env schedule input) {error : CheckError}
    (answer : evaluateRoot env schedule input = .error error) : error.kind ≠ .internal := by
  rcases evaluateRoot_cases env input with ⟨raised, kind, failed⟩ | ⟨relation, named, answered⟩
  · rw [failed schedule] at answer
    cases answer
    rcases kind with kind | ⟨kind, -⟩ <;> simp [kind]
  · have ends := request_ends schedule named
    rw [← answered schedule, answer] at ends
    cases ends with
    | finished reached found =>
      obtain ⟨ghost, meaning⟩ := reached_meaning named reached _ le_rfl
      exact delivered_not_internal succeeds named reached error
        ((meaning.result _ found).noted error rfl)
    | limited _ external => exact external (safe relation named)

/-- With successful reads and safe offers no internal error is delivered or answered. -/
theorem check_never_internal (succeeds : ∀ object relation, env.readFailure object relation = none)
    (safe : SafeRequest env schedule input) :
    (∀ relation s, env.model.validateQueryTuple input.tuple = .ok relation →
      Reached env schedule (input.root relation) s → ∀ error ∈ s.produced, error.kind ≠ .internal) ∧
    ∀ error, evaluateRoot env schedule input = .error error → error.kind ≠ .internal := by
  constructor
  · intro relation s named reached
    exact delivered_not_internal succeeds named reached
  · intro error answer
    exact answer_not_internal succeeds safe answer

section Offers

def WorkState.directRead : WorkState → Option DirectRead
  | .reading (.direct read) => some read
  | .reading (.tupleToUserset _) | .queued _ | .processing | .waiting _ | .completed => none

def WorkState.reducer : WorkState → Option Reducer
  | .waiting reducer => some reducer
  | .queued _ | .processing | .reading _ | .completed => none

/-- The candidates that the direct read joined in a round offers to its slot. -/
def joinedOffer (env : CheckEnvironment) (schedule : Schedule) (s : Scheduler) :
    Option (Nat × List Candidate × Scheduler) := do
  let checked ← (s.checkContext schedule).toOption
  let joining ← (processReady env schedule checked.ready.length checked).toOption
  let index := schedule.nextRead joining.tick % joining.reads.length
  let read ← joining.reads[index]?
  let direct ← (joining.stateAt read.work).bind WorkState.directRead
  let joined := { joining.ticked with reads := joining.reads.eraseIdx index }.readResult env
    schedule read
  let stored ← joined.1.toOption
  let relation ← env.model.relation direct.relation
  let rows := env.contextual.get direct.object relation.name
  let charged := (joined.2.setState read.work .processing).chargeTupleItems env schedule
    stored.length rows.length
  let collected ← (collectRows (directRow env schedule direct relation.restrictions)
    (rows ++ stored) charged.2).toOption
  some (read.work, collected)

/-- At most one candidate is offered, or an allow decides the parent. -/
def offerSafe (offer : Nat × List Candidate × Scheduler) : Bool :=
  decide (offer.2.1.length ≤ 1) || (offer.2.2.linkAt offer.1).any fun link =>
    ((offer.2.2.stateAt link.work).bind WorkState.reducer).any fun parent =>
      ((parent.accept link.operand (.ok (.allow .direct))).toOption.bind Prod.snd).isSome

theorem joinedOffer_eq {joining offered : Scheduler} {work : Nat} {candidates : List Candidate}
    (joins : Joining env schedule s joining)
    (offer : DirectOffer env schedule joining work candidates offered) :
    joinedOffer env schedule s = some (work, candidates, offered) := by
  obtain ⟨⟨checked, context, drained⟩, -, -⟩ := joins
  obtain ⟨_, read, direct, relation, stored, joined, charged, rfl, found, rfl, state, result, named,
    charge, collected⟩ := offer.collected
  simp [joinedOffer, context, drained, found, state, WorkState.directRead, result, named, charge,
    collected, Except.toOption]

theorem candidatesSafe_of_offerSafe {offered : Scheduler} {work : Nat} {candidates : List Candidate}
    (safe : offerSafe (work, candidates, offered) = true) :
    CandidatesSafe env schedule offered work .direct candidates := by
  intro candidate rest suffix _
  rcases Bool.or_eq_true_iff.mp safe with few | decides
  · left
    have short := suffix.length_le.trans (of_decide_eq_true few)
    rw [length_cons] at short
    exact length_eq_zero_iff.mp (by omega)
  · right
    left
    obtain ⟨link, linked, decides⟩ := (Option.any_eq_true _ _).mp decides
    obtain ⟨parent, waits, decides⟩ := (Option.any_eq_true _ _).mp decides
    obtain ⟨state, found, reducer⟩ := Option.bind_eq_some_iff.mp waits
    obtain ⟨value, decides⟩ := Option.isSome_iff_exists.mp decides
    obtain ⟨accepted, taken, same⟩ := Option.bind_eq_some_iff.mp decides
    cases state <;> cases reducer
    exact ⟨link, parent, accepted.1, value, linked, found,
      (toOption_eq_some.mp taken).trans (congrArg Except.ok (Prod.ext rfl same))⟩

/-- A request offers safely if all states of its run do. -/
theorem safeRequest_of_offers (fuel : Nat)
    (named : env.model.validateQueryTuple input.tuple = .ok relation)
    (tested : ∀ s, Scheduler.start env schedule (input.root relation) = .ok s →
      alwaysFrom env schedule (fun s => (joinedOffer env schedule s).all offerSafe) fuel s = true) :
    SafeRequest env schedule input := by
  intro other named' s reached _ joining work candidates offered joins offer
  cases named.symm.trans named'
  have safe := reached_of_alwaysFrom tested reached
  rw [joinedOffer_eq joins offer] at safe
  exact candidatesSafe_of_offerSafe safe

end Offers

namespace Sample

/-- Documents with `viewer: [user, user:*]`. -/
def shared : CompiledModel :=
  { guarded with
    relations := [⟨⟨1⟩, ⟨"viewer"⟩, ⟨0⟩,
      [⟨⟨0⟩, .object, .unconditional⟩, ⟨⟨0⟩, .wildcard, .unconditional⟩]⟩]
    conditions := []
    graph := ⟨[∅], [∅], [{⟨0⟩}], [{⟨0⟩}]⟩
    relations_nodup := by decide
    conditions_nodup := List.nodup_nil
    relations_valid := by decide
    restrictions_valid := by decide
    nodes_scoped := by decide
    graph_eq := by decide }

/-- The plan is shared with anne, and with everyone. -/
def sharedTwice : CheckEnvironment :=
  { environment [onPlan "viewer" anne, onPlan "viewer" (.typedWildcard user)] with model := shared }

end Sample

/-- Both rows allow at once; the first decides the request. -/
theorem check_never_internal_shared :
    (∃ s, Reached sharedTwice (joining 0) (request.root ⟨0⟩) s ∧
      (joinedOffer sharedTwice (joining 0) s).map (fun offer => offer.2.1.length) = some 2) ∧
    ∀ error, evaluateRoot sharedTwice (joining 0) request = .error error →
      error.kind ≠ .internal := by
  have named : shared.validateQueryTuple request.tuple = .ok ⟨0⟩ := by decide
  have safe : SafeRequest sharedTwice (joining 0) request := by
    apply safeRequest_of_offers 30 named
    intro s started
    cases started
    decide
  exact ⟨⟨_, .round (.start rfl) rfl rfl, rfl⟩, (check_never_internal (fun _ _ => rfl) safe).2⟩

/-- Two rows of the viewer relation allow at once while the editor is still read. -/
theorem check_internal_of_two_allows :
    (∀ object relation, (environment [onPlan "viewer" anne,
      onPlan "viewer" (.typedWildcard user), onPlan "editor"
        anne]).readFailure object relation = none) ∧
    evaluateRoot (environment [onPlan "viewer" anne,
      onPlan "viewer" (.typedWildcard user), onPlan "editor" anne])
      (joining 0) request = .error (.internal "parent_reducer_state_invalid") :=
  ⟨fun _ _ => rfl, by decide⟩

end Runs

end OpenFga
