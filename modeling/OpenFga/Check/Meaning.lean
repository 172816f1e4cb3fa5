import Mathlib.Order.Filter.AtTopBot.Basic
import OpenFga.Check.Sequential
import OpenFga.Check.WorkGraph

/-!
# What the slots of a run stand for

Every slot stands for a sequential evaluation, as a function of the nesting fuel,
and every waiting slot for the combination of the evaluations of its operands. An
outcome is right when the evaluation settles to it for all large fuels; an error
is also accepted once the run has produced an error of a limit kind.

The evaluations a slot and its operands stand for are not part of the scheduler
state. They are kept beside it, in a `Ghost`.
-/

namespace OpenFga

open Filter List

variable {spec : Spec} {outcome : Evaluation} {produced more : List CheckError}
  {decision : Decision}

/-- An evaluation for each nesting fuel. -/
abbrev Spec := Nat → Evaluation

/-- The evaluation has this outcome for all large fuels. -/
def Settles (spec : Spec) (outcome : Evaluation) : Prop :=
  ∀ᶠ fuel in atTop, spec fuel = outcome

/-- Some error of a limit kind has been produced. -/
def Limited (produced : List CheckError) : Prop :=
  ∃ error ∈ produced, error.IsLimit

/-- The outcome is the one the evaluation settles to, or a failure in a limited run. -/
structure Approximates (produced : List CheckError) (spec : Spec) (outcome : Evaluation) :
    Prop where
  settled : Settles spec outcome ∨ (∃ error, outcome = .error error) ∧ Limited produced
  noted : ∀ error, outcome = .error error → error ∈ produced

theorem Settles.unique {first second : Evaluation} (one : Settles spec first)
    (other : Settles spec second) : first = second := by
  obtain ⟨fuel, same, same'⟩ := (one.and other).exists
  exact same.symm.trans same'

/-- A finite delay of the fuel does not matter. -/
theorem Settles.of_shift (shift : Nat)
    (settles : Settles (fun fuel => spec (fuel + shift)) outcome) : Settles spec outcome := by
  obtain ⟨bound, holds⟩ := eventually_atTop.mp settles
  refine eventually_atTop.mpr ⟨bound + shift, fun fuel large => ?_⟩
  have shifted : spec (fuel - shift + shift) = outcome := holds (fuel - shift) (by omega)
  rwa [Nat.sub_add_cancel (by omega)] at shifted

theorem Settles.of_succ (settled : ∀ fuel, spec (fuel + 1) = outcome) : Settles spec outcome :=
  .of_shift 1 (.of_forall settled)

namespace Approximates

theorem mono (approximates : Approximates produced spec outcome) (grows : produced ⊆ more) :
    Approximates more spec outcome := by
  refine ⟨approximates.settled.imp_right ?_, fun error failed =>
    grows (approximates.noted error failed)⟩
  rintro ⟨failed, error, member, limit⟩
  exact ⟨failed, error, grows member, limit⟩

theorem of_ok (settles : Settles spec (.ok decision)) : Approximates produced spec (.ok decision) :=
  ⟨.inl settles, by simp⟩

theorem settles_of_ok (approximates : Approximates produced spec (.ok decision)) :
    Settles spec (.ok decision) := by
  rcases approximates.settled with settles | ⟨⟨error, failed⟩, -⟩
  · exact settles
  · cases failed

theorem of_limit {error : CheckError} (member : error ∈ produced) (limit : error.IsLimit) :
    Approximates produced spec (.error error) := by
  refine ⟨.inr ⟨⟨error, rfl⟩, error, member, limit⟩, ?_⟩
  rintro other ⟨⟩
  exact member

end Approximates

/-- A failed operand of a combination that failed. -/
theorem mem_of_combine_eq_error {kind : ReducerKind} {resolution : Option CheckResolution}
    {values : List Evaluation} {error : CheckError}
    (failed : combine kind resolution values = .error error) : .error error ∈ values := by
  have ofFirst : firstError values = some error → .error error ∈ values := by
    intro first
    obtain ⟨value, member, found⟩ := exists_of_findSome?_eq_some first
    cases value with
    | ok decision => simp at found
    | error inner =>
      cases found
      exact member
  cases kind with
  | single =>
    cases values with
    | nil => cases failed
    | cons value values =>
      cases value with
      | ok decision => cases failed
      | error inner =>
        cases failed
        exact mem_cons_self
  | union | intersection | difference =>
    simp only [combine] at failed
    split at failed
    · cases failed
    · split at failed <;> cases failed
      exact ofFirst ‹_›

theorem eventually_forall₂ {α β : Type} {relation : α → β → Prop} {values : List α}
    {specs : List (Nat → β)}
    (each : List.Forall₂ (fun value spec => ∀ᶠ fuel in atTop, relation value (spec fuel))
      values specs) :
    ∀ᶠ fuel in atTop, List.Forall₂ relation values (specs.map fun spec => spec fuel) := by
  induction each with
  | nil => exact .of_forall fun fuel => .nil
  | cons head _ ih => exact (head.and ih).mono fun fuel both => .cons both.1 both.2

/-- The evaluation combines the operands' evaluations as the reducer does, and
the outcomes the reducer holds approximate them. -/
structure Reduces (produced : List CheckError) (spec : Spec) (operands : List Spec)
    (reducer : Reducer) : Prop where
  length : operands.length = reducer.outcomes.length
  combined : ∃ shift, ∀ fuel, spec (fuel + shift) =
    combine reducer.kind reducer.resolution (operands.map fun operand => operand fuel)
  delivered : ∀ {index : Nat} {outcome operand}, reducer.outcomes[index]? = some (some outcome) →
    operands[index]? = some operand → Approximates produced operand outcome

namespace Reduces

variable {operands : List Spec} {reducer : Reducer}

section

variable (reduces : Reduces produced spec operands reducer)

include reduces

theorem mono (grows : produced ⊆ more) : Reduces more spec operands reducer :=
  ⟨reduces.length, reduces.combined, fun present found =>
    (reduces.delivered present found).mono grows⟩

theorem deliver {index : Nat} {operand : Spec} (found : operands[index]? = some operand)
    (approximates : Approximates produced operand outcome) :
    Reduces produced spec operands (reducer.deliver index outcome) := by
  refine ⟨by simpa [Reducer.deliver] using reduces.length, reduces.combined, ?_⟩
  intro position value other present operandFound
  simp only [Reducer.deliver, getElem?_set] at present
  split at present
  · rename_i same
    subst same
    rw [found] at operandFound
    cases operandFound
    split at present <;> cases present
    exact approximates
  · exact reduces.delivered present operandFound

/-- Each position of the reducer with the operand it is for. -/
theorem forall₂_filled {relation : Evaluation → Spec → Prop} (vacant : none ∈ reducer.outcomes →
      ∀ operand, relation (.error (.internal "operand_open")) operand)
    (present : ∀ outcome operand, Approximates produced operand outcome →
      relation outcome operand) : List.Forall₂ relation reducer.filled operands := by
  rw [forall₂_iff_get]
  refine ⟨by simp [Reducer.filled, reduces.length], fun index left right => ?_⟩
  have inside : index < reducer.outcomes.length := by simpa [Reducer.filled] using left
  have found : operands[index]? = some operands[index] := getElem?_eq_getElem right
  have position : reducer.outcomes[index]? = some reducer.outcomes[index] :=
    getElem?_eq_getElem inside
  simp only [get_eq_getElem, Reducer.filled, getElem_map]
  cases outcome : reducer.outcomes[index] with
  | none =>
    rw [outcome] at position
    exact vacant (mem_of_getElem? position) _
  | some evaluation =>
    rw [outcome] at position
    exact present evaluation _ (reduces.delivered position found)

/-- A decision does not depend on the operands that are still open. -/
theorem settles_of_ok
    (yields : combine reducer.kind reducer.resolution reducer.filled = .ok decision) :
    Settles spec (.ok decision) := by
  obtain ⟨shift, combined⟩ := reduces.combined
  apply Settles.of_shift shift
  have keeps : List.Forall₂ (fun value operand =>
      ∀ᶠ fuel in atTop, KeepsDecision value (operand fuel)) reducer.filled operands := by
    apply reduces.forall₂_filled
    · exact fun _ operand => .of_forall fun fuel decision same => by cases same
    · intro value operand near
      cases value with
      | error error => exact .of_forall fun fuel decision same => by cases same
      | ok inner =>
        refine near.settles_of_ok.mono fun fuel settled decision same => ?_
        cases same
        exact settled
  refine (eventually_forall₂ keeps).mono fun fuel kept => ?_
  exact (combined fuel).trans (combine_keepsDecision kept decision yields)

/-- What a well-formed reducer yields approximates the combined evaluation. -/
theorem approximates (wellFormed : reducer.WellFormed)
    (reduction : Reducer.Reduction reducer (some outcome)) :
    Approximates produced spec outcome := by
  have yields := reduction.combined outcome rfl
  cases outcome with
  | ok decision => exact .of_ok (reduces.settles_of_ok yields)
  | error error =>
    have complete : none ∉ reducer.outcomes := by
      rw [Reducer.outcomes_eq_of_complete wellFormed (reduction.complete_of_error error rfl)]
      simp
    have known : List.Forall₂ (fun value operand =>
        (∀ raised, value = .error raised → raised ∈ produced) ∧
          (Limited produced ∨ Settles operand value)) reducer.filled operands := by
      refine reduces.forall₂_filled (fun absent => absurd absent complete) ?_
      intro value operand near
      exact ⟨near.noted, near.settled.symm.imp_left And.right⟩
    obtain ⟨noted, operandsKnown⟩ := (forall₂_and_left _ _).mp known
    refine ⟨?_, ?_⟩
    · by_cases limited : Limited produced
      · exact .inr ⟨⟨error, rfl⟩, limited⟩
      · obtain ⟨shift, combined⟩ := reduces.combined
        refine .inl (Settles.of_shift shift ?_)
        have settled : List.Forall₂ (fun value operand =>
            ∀ᶠ fuel in atTop, value = operand fuel) reducer.filled operands :=
          operandsKnown.imp fun value operand either =>
            (either.resolve_left limited).mono fun fuel same => same.symm
        refine (eventually_forall₂ settled).mono fun fuel same => ?_
        rw [forall₂_eq_eq_eq] at same
        rw [same] at yields
        exact (combined fuel).trans yields
    · rintro raised ⟨⟩
      exact noted _ (mem_of_combine_eq_error yields) _ rfl

end

end Reduces

/-- What a run is compared with: the sequential evaluation of one key, under a
condition ceiling that is no smaller than the run's own. -/
structure Target where
  env : CheckEnvironment
  ceiling : Nat
  covers : env.budget.maximumConditionCost ≤ ceiling
  root : SemanticKey

namespace Target

variable (target : Target)

def semantic (key : SemanticKey) (path : BranchPath) : Spec :=
  fun fuel => sequential target.env target.ceiling fuel key path

def rewrite (subject : SubjectRef) (object : ObjectRef) (path : BranchPath) (tree : Rewrite) :
    Spec :=
  fun fuel => sequentialRewrite target.env target.ceiling
    (fun object relation => target.semantic ⟨object, relation, subject⟩ path fuel)
    subject object tree

def work : WorkKind → Spec
  | .semantic item => target.semantic ⟨item.object, item.relation, item.subject⟩ item.path
  | .rewrite item =>
      target.rewrite item.subject item.object item.path (target.env.model.tree item.node)

def read : ReadContinuation → Spec
  | .direct read => target.rewrite read.subject read.object read.path (.direct read.relation)
  | .tupleToUserset read =>
      target.rewrite read.subject read.object read.path
        (.tupleToUserset read.tupleset read.targets)

def memo (key : MemoKey) : Spec :=
  target.semantic key.semantic key.branchPath

end Target

namespace CompiledModel

variable (model : CompiledModel)

def KnowsSubject (subject : SubjectRef) : Prop :=
  ∃ type, model.typeId subject.subjectType = some type

def KnowsRelation (id : RelationId) : Prop :=
  ∃ relation, model.relation id = some relation

/-- The identifiers of a work item are those of the model. -/
def WorkValid : WorkKind → Prop
  | .semantic item => model.KnowsRelation item.relation ∧ model.KnowsSubject item.subject
  | .rewrite item =>
      (∃ id relation node, model.relation id = some relation ∧
        item.node ∈ visitedNodes model.nodes relation.root ∧ model.node item.node = some node) ∧
      model.KnowsSubject item.subject

def ReadValid : ReadContinuation → Prop
  | .direct read => model.KnowsRelation read.relation ∧ model.KnowsSubject read.subject
  | .tupleToUserset read =>
      model.KnowsRelation read.tupleset ∧ (∀ target ∈ read.targets, model.KnowsRelation target) ∧
        model.KnowsSubject read.subject

end CompiledModel

/-- What a slot in some state says about its evaluation and those of its operands. -/
def StateMeans (target : Target) (produced : List CheckError) (spec : Spec)
    (operands : List Spec) : WorkState → Prop
  | .queued kind => target.env.model.WorkValid kind ∧ spec = target.work kind
  | .processing => True
  | .waiting reducer => Reduces produced spec operands reducer
  | .reading continuation =>
      target.env.model.ReadValid continuation ∧ spec = target.read continuation
  | .completed => True

theorem StateMeans.mono {target : Target} {produced more : List CheckError} {operands : List Spec}
    {state : WorkState} (means : StateMeans target produced spec operands state)
    (grows : produced ⊆ more) : StateMeans target more spec operands state := by
  cases state with
  | waiting reducer => exact Reduces.mono means grows
  | queued | reading => exact means
  | processing | completed => trivial

/-- An internal error stems from a failed tuple read. -/
def Benign (env : CheckEnvironment) (error : CheckError) : Prop :=
  error.kind = .internal → ∃ object relation kind, env.readFailure object relation = some kind

/-- The evaluations of all slots and of their operands. -/
structure Ghost where
  spec : Nat → Spec
  operands : Nat → List Spec

/-- The slots stand for what the ghost says, and what has been concluded from them is right. -/
structure Meaning (target : Target) (ghost : Ghost) (s : Scheduler) : Prop where
  states : ∀ {id state}, s.stateAt id = some state →
    StateMeans target s.produced (ghost.spec id) (ghost.operands id) state
  children : ∀ {id link}, s.linkAt id = some link →
    (ghost.operands link.work)[link.operand]? = some (ghost.spec id)
  memoKeys : ∀ {id key}, s.memoKeyAt id = some key → ghost.spec id = target.memo key
  memo : ∀ entry ∈ s.memo, Settles (target.memo entry.1) (.ok entry.2)
  root : ghost.spec 0 = target.semantic target.root ∅
  result : ∀ outcome, s.rootResult = some outcome →
    Approximates s.produced (target.semantic target.root ∅) outcome
  benign : ∀ error ∈ s.produced, Benign target.env error

section Updates

variable {target : Target} {ghost : Ghost} {s s' : Scheduler}

/-- A change that keeps the links and for which the new entries are right. -/
theorem Meaning.touch (meaning : Meaning target ghost s) (links : ∀ id, s'.linkAt id = s.linkAt id)
    (states : ∀ id state, s'.stateAt id = some state → s.stateAt id = some state ∨
      StateMeans target s'.produced (ghost.spec id) (ghost.operands id) state)
    (memoKeys : ∀ id key, s'.memoKeyAt id = some key → s.memoKeyAt id = some key ∨
      ghost.spec id = target.memo key)
    (memo : ∀ entry ∈ s'.memo, entry ∈ s.memo ∨ Settles (target.memo entry.1) (.ok entry.2))
    (result : ∀ outcome, s'.rootResult = some outcome → s.rootResult = some outcome ∨
      Approximates s'.produced (target.semantic target.root ∅) outcome)
    (grows : s.produced ⊆ s'.produced)
    (benign : ∀ error ∈ s'.produced, error ∈ s.produced ∨ Benign target.env error) :
    Meaning target ghost s' := by
  refine ⟨?_, ?_, ?_, ?_, meaning.root, ?_, ?_⟩
  · intro id state found
    rcases states id state found with old | means
    · exact (meaning.states old).mono grows
    · exact means
  · intro id link up
    rw [links] at up
    exact meaning.children up
  · intro id key found
    rcases memoKeys id key found with old | same
    · exact meaning.memoKeys old
    · exact same
  · intro entry member
    rcases memo entry member with old | settles
    · exact meaning.memo entry old
    · exact settles
  · intro outcome found
    rcases result outcome found with old | near
    · exact (meaning.result outcome old).mono grows
    · exact near
  · intro error member
    rcases benign error member with old | harmless
    · exact meaning.benign error old
    · exact harmless

end Updates

end OpenFga
