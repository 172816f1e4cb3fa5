import OpenFga.Check.Pruning
import OpenFga.Check.Requests

/-!
# Check as a stratified least fixed point

A model in which no relation depends on itself through a subtracted operand has a
stratification: levels of the relations that do not rise along dependencies and
fall along negative ones. The rewrite rules then have a stratified model over the
tuples, and an answered check decides membership in it. Cycles among the tuples
lose nothing and grant nothing, because the evaluation that denies on re-entry
evaluates the rules in the sense of `Rules.Evaluates`.
-/

namespace OpenFga

open Finset Sample

namespace CompiledModel

variable (model : CompiledModel)

/-- One relation is evaluated for another: through a computed relation, the target
of a tuple-to-userset or a userset restriction. -/
def Depends (source target : RelationId) : Prop :=
  (model.rewrite source).Refers model target

/-- A dependency below the subtracted operand of a difference. -/
def DependsNegatively (source target : RelationId) : Prop :=
  (model.rewrite source).Negates model target

/-- No relation depends on itself through a subtracted operand. -/
def NoNegativeCycle : Prop :=
  ∀ source target, model.DependsNegatively source target →
    ¬ Relation.ReflTransGen model.Depends target source

/-- Levels that do not rise along dependencies and fall along negative ones. -/
structure Stratification (level : RelationId → Nat) : Prop where
  depends : ∀ {source target}, model.Depends source target → level target ≤ level source
  negates : ∀ {source target}, model.DependsNegatively source target → level target < level source

open Classical in
/-- The relations with negative dependencies that a relation depends on. -/
noncomputable def negativeSources (source : RelationId) : Finset Nat :=
  (range model.relations.length).filter fun index =>
    Relation.ReflTransGen model.Depends source ⟨index⟩ ∧ ∃ target, model.DependsNegatively
      ⟨index⟩ target

variable {model}

theorem negativeSources_subset {source target : RelationId}
    (depends : model.Depends source target) :
    model.negativeSources target ⊆ model.negativeSources source := by
  intro index member
  simp only [negativeSources, mem_filter] at member ⊢
  exact ⟨member.1, .head depends member.2.1, member.2.2⟩

theorem lt_of_dependsNegatively {source target : RelationId}
    (negates : model.DependsNegatively source target) : source.index < model.relations.length := by
  by_contra outside
  have absent : model.relation source = none := by
    rw [relation, List.getElem?_eq_none_iff]
    omega
  obtain ⟨base, subtract, below, -⟩ := negates
  simp only [rewrite, absent] at below
  cases below with
  | union member _ => simp at member

/-- Counting them stratifies a model without negative cycles. -/
theorem NoNegativeCycle.stratification (acyclic : model.NoNegativeCycle) :
    model.Stratification fun source => (model.negativeSources source).card := by
  constructor
  · intro source target depends
    exact card_le_card (negativeSources_subset depends)
  · intro source target negates
    apply card_lt_card
    rw [ssubset_iff_of_subset (negativeSources_subset negates.refers)]
    refine ⟨source.index, ?_, ?_⟩
    · simp only [negativeSources, mem_filter, mem_range]
      exact ⟨lt_of_dependsNegatively negates, .refl, target, negates⟩
    · intro member
      simp only [negativeSources, mem_filter] at member
      exact acyclic source target negates member.2.1

/-- Without differences there is no negation at all. -/
theorem noNegativeCycle_of_no_difference
    (none : ∀ node ∈ model.nodes, ∀ base subtract, node ≠ .difference base subtract) :
    model.NoNegativeCycle := by
  intro source target negates
  obtain ⟨base, subtract, below, -⟩ := negates
  obtain ⟨first, second, member⟩ := difference_mem_nodes below
  exact absurd rfl (none _ member first second)

end CompiledModel

section Model

variable (env : CheckEnvironment) (ceiling : Nat)

/-- The stratified least fixed point of the rewrite rules over the tuples. -/
noncomputable def checkModel (level : RelationId → Nat) : Set SemanticKey :=
  (checkRules env ceiling).stratifiedModel fun key => level key.relation

variable {env ceiling}

/-- The rules follow a stratification of the relations. -/
theorem checkRules_stratifies {level : RelationId → Nat}
    (stratification : env.model.Stratification level) :
    (checkRules env ceiling).Stratifies fun key => level key.relation := by
  intro key pos pos' neg neg' grows shrinks derived
  apply Rewrite.Holds.transfer _ _ derived
  · intro object target refers member
    exact grows _ member (stratification.depends refers)
  · intro object target negates member
    exact shrinks _ member (stratification.negates negates)

/-- A decided key is decided as in the stratified model. -/
theorem reference_iff_checkModel {level : RelationId → Nat}
    (stratification : env.model.Stratification level) {fuel : Nat} {key : SemanticKey}
    {allowed : Bool}
    (decided : reference env ceiling (.pruned env.model) fuel key ∅ = .ofBool allowed) :
    allowed = true ↔ key ∈ checkModel env ceiling level :=
  (reference_evaluates env ceiling (unreachable env.model)).stratifiedModel
    (checkRules_stratifies stratification) derive_reachable decided

end Model

/-- A request whose reads succeed, whose offers are safe and that meets no error of
another kind is answered, as the stratified model of its rules says. -/
theorem check_decides_stratified_model {env : CheckEnvironment} {schedule : Schedule}
    {input : RootInput} (acyclic : env.model.NoNegativeCycle)
    (succeeds : ∀ object relation, env.readFailure object relation = none)
    (safe : SafeRequest env schedule input)
    (unfailing : ∀ error, evaluateRoot env schedule input = .error error → error.kind = .internal) :
    (∃ level, env.model.Stratification level) ∧
    ∃ relation decision, env.model.validateQueryTuple input.tuple = .ok relation ∧
      evaluateRoot env schedule input = .ok decision ∧
      ∀ level, env.model.Stratification level →
        ∀ ceiling, env.budget.maximumConditionCost ≤ ceiling →
          (decision.allowed = true ↔ (input.root relation).key ∈ checkModel env ceiling level) := by
  refine ⟨⟨_, acyclic.stratification⟩, ?_⟩
  cases answer : evaluateRoot env schedule input with
  | error error => exact absurd (unfailing error answer) (answer_not_internal succeeds safe answer)
  | ok decision =>
    obtain ⟨relation, named, agrees⟩ := reference_of_answer answer
    refine ⟨relation, decision, named, rfl, ?_⟩
    intro level stratification ceiling covers
    obtain ⟨fuel, decided⟩ := (agrees ceiling covers).exists
    exact reference_iff_checkModel stratification decided

theorem Sample.acyclic : model.NoNegativeCycle := by
  apply CompiledModel.noNegativeCycle_of_no_difference
  simp [model]

theorem check_decides_stratified_model_edited :
    model.NoNegativeCycle ∧
    ∀ level, model.Stratification level →
      (request.root ⟨1⟩).key ∈ checkModel edited 100000 level := by
  refine ⟨acyclic, ?_⟩
  have returned : evaluateRoot edited (joining 0) request =
      .ok (.allow .intersection) := by decide
  have named : model.validateQueryTuple request.tuple = .ok ⟨1⟩ := by decide
  have safe : SafeRequest edited (joining 0) request := by
    apply safeRequest_of_offers 30 named
    intro s started
    cases started
    decide
  obtain ⟨-, relation, decision, named, answer, decides⟩ := check_decides_stratified_model
    acyclic (fun _ _ => rfl) safe (fun error failed => by rw [returned] at failed; cases failed)
  rw [returned] at answer
  cases answer
  cases named
  intro level stratification
  exact (decides level stratification 100000 (by decide)).mp rfl

/-- A viewer in the stratified model whose check fails with an internal error. -/
theorem check_misses_stratified_model :
    model.NoNegativeCycle ∧
    (∀ level, model.Stratification level →
      (request.root ⟨1⟩).key ∈ checkModel (environment
        [onPlan "viewer" anne, onPlan "viewer" (.typedWildcard user),
          onPlan "editor" anne]) 100000 level) ∧
    evaluateRoot (environment [onPlan "viewer" anne,
      onPlan "viewer" (.typedWildcard user), onPlan "editor" anne])
      (joining 0) request = .error (.internal "parent_reducer_state_invalid") := by
  refine ⟨acyclic, ?_, by decide⟩
  intro level stratification
  have decided : reference (environment [onPlan "viewer" anne,
      onPlan "viewer" (.typedWildcard user), onPlan "editor" anne])
      100000 (.pruned model) 3 (request.root ⟨1⟩).key ∅ = .ofBool true := by decide
  exact (reference_iff_checkModel stratification decided).mp rfl

end OpenFga
