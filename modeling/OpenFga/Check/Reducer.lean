import OpenFga.Check.Outcome

/-!
# Reducers

A reducer collects the outcomes of the operands of one piece of work and yields a
result as soon as the outcomes decide it. The `combine` functions say what the
result is when every operand is known; `accept_spec` says that accepting an
operand that was still open never fails and yields exactly such a combination.
-/

namespace OpenFga

open List Evaluation

variable {values better : List Evaluation} {test : Evaluation → Bool}

inductive ReducerKind where
  | single
  | union
  | intersection
  | difference
  deriving DecidableEq, Repr

namespace Evaluation

def allows : Evaluation → Bool
  | .ok decision => decision.allowed
  | .error _ => false

def denies : Evaluation → Bool
  | .ok decision => !decision.allowed
  | .error _ => false

end Evaluation

/-- The error of the first failed operand. -/
def firstError (values : List Evaluation) : Option CheckError :=
  values.findSome? fun value =>
    match value with
    | .ok _ => none
    | .error error => some error

/-- An allowed decision takes the reducer's own resolution when it has one. -/
def mapResolution (outcome : Evaluation) (resolution : Option CheckResolution) : Evaluation :=
  outcome.map fun decision =>
    if decision.allowed then (resolution.map Decision.allow).getD decision else decision

/-- Collects the outcomes of the operands. -/
structure Reducer where
  kind : ReducerKind
  resolution : Option CheckResolution
  outcomes : List (Option Evaluation)
  remaining : Nat

namespace Reducer

def new (kind : ReducerKind) (operands : Nat) (resolution : Option CheckResolution) : Reducer :=
  ⟨kind, resolution, .replicate operands none, operands⟩

variable (reducer : Reducer)

/-- The outcomes delivered so far, in operand order. -/
def delivered : List Evaluation :=
  reducer.outcomes.filterMap id

/-- The outcome of an operand that has one. -/
def take (operand : Nat) : Except CheckError Evaluation :=
  orError (reducer.outcomes[operand]?.bind id) (.internal "reducer_outcome_missing")

def reduceDifference : Except CheckError (Option Evaluation) :=
  if (reducer.outcomes[0]?.bind id).any denies ||
      (reducer.outcomes[1]?.bind id).any allows then
    .ok (some (.ok (.deny .denied)))
  else if reducer.remaining ≠ 0 then .ok none
  else
    match firstError reducer.delivered with
    | some error => .ok (some (.error error))
    | none => do
        let base ← reducer.take 0
        let subtract ← reducer.take 1
        match base, subtract with
        | .ok base, .ok subtract =>
            if base.allowed && !subtract.allowed then
              .ok (some (.ok (.allow (reducer.resolution.getD .difference))))
            else .ok (some (.ok (.deny .denied)))
        | _, _ => .error (.internal "difference_outcome_inconsistent")

def reduce : Except CheckError (Option Evaluation) :=
  match reducer.kind with
  | .single =>
      if reducer.remaining ≠ 0 then .ok none
      else do
        let outcome ← reducer.take 0
        .ok (some (mapResolution outcome reducer.resolution))
  | .union =>
      if reducer.delivered.any allows then
        .ok (some (.ok (.allow (reducer.resolution.getD .union))))
      else if reducer.remaining ≠ 0 then .ok none
      else
        match firstError reducer.delivered with
        | some error => .ok (some (.error error))
        | none => .ok (some (.ok (.deny .denied)))
  | .intersection =>
      if reducer.delivered.any denies then .ok (some (.ok (.deny .denied)))
      else if reducer.remaining ≠ 0 then .ok none
      else
        match firstError reducer.delivered with
        | some error => .ok (some (.error error))
        | none => .ok (some (.ok (.allow (reducer.resolution.getD .intersection))))
  | .difference => reducer.reduceDifference

/-- Stores one operand outcome and reduces. -/
def accept (operand : Nat) (outcome : Evaluation) :
    Except CheckError (Reducer × Option Evaluation) :=
  match reducer.outcomes[operand]? with
  | none => .error (.internal "reducer_operand_invalid")
  | some (some _) => .error (.internal "reducer_operand_completed_twice")
  | some none =>
      if reducer.remaining = 0 then .error (.internal "reducer_remaining_underflow")
      else do
        let updated := { reducer with
          outcomes := reducer.outcomes.set operand (some outcome)
          remaining := reducer.remaining - 1 }
        let result ← updated.reduce
        .ok (updated, result)

end Reducer

/-- The result of a reducer whose operands are all known. -/
def combine (kind : ReducerKind) (resolution : Option CheckResolution) (values : List Evaluation) :
    Evaluation :=
  match kind with
  | .single => mapResolution (values.headD (.ok (.deny .denied))) resolution
  | .union =>
      if values.any allows then .ok (.allow (resolution.getD .union))
      else
        match firstError values with
        | some error => .error error
        | none => .ok (.deny .denied)
  | .intersection =>
      if values.any denies then .ok (.deny .denied)
      else
        match firstError values with
        | some error => .error error
        | none => .ok (.allow (resolution.getD .intersection))
  | .difference =>
      if values[0]?.any denies || values[1]?.any allows then
        .ok (.deny .denied)
      else
        match firstError values with
        | some error => .error error
        | none => .ok (.allow (resolution.getD .difference))

section Combine

theorem firstError_eq_none :
    firstError values = none ↔ ∀ value ∈ values, ∃ decision, value = .ok decision := by
  unfold firstError
  rw [findSome?_eq_none_iff]
  constructor
  · intro none value member
    cases value with
    | ok decision => exact ⟨decision, rfl⟩
    | error error => simpa using none _ member
  · intro settled value member
    obtain ⟨decision, rfl⟩ := settled value member
    rfl

/-- `better` keeps every decision of `value`; an error may become anything. -/
def KeepsDecision (value better : Evaluation) : Prop :=
  ∀ decision, value = .ok decision → better = .ok decision

theorem KeepsDecision.eq_of_ok (keeps : List.Forall₂ KeepsDecision values better)
    (settled : ∀ value ∈ values, ∃ decision, value = .ok decision) : better = values := by
  induction keeps with
  | nil => rfl
  | cons head _ ih =>
    obtain ⟨decision, same⟩ := settled _ mem_cons_self
    rw [ih fun value member => settled value (mem_cons_of_mem _ member),
      head decision same, same]

section

variable (errors : ∀ error, test (.error error) = false)
  (keeps : List.Forall₂ KeepsDecision values better)

include errors keeps

theorem KeepsDecision.any (some : values.any test = true) : better.any test = true := by
  induction keeps with
  | nil => simp at some
  | @cons value better' _ _ head _ ih =>
    rw [any_cons, Bool.or_eq_true] at some ⊢
    rcases some with here | later
    · cases value with
      | ok decision =>
        rw [head decision rfl]
        exact .inl here
      | error error => simp [errors] at here
    · exact .inr (ih later)

theorem KeepsDecision.any_getElem? {index : Nat}
    (holds : values[index]?.any test = true) : better[index]?.any test = true := by
  induction keeps generalizing index with
  | nil => simp at holds
  | @cons value better' _ _ head _ ih =>
    cases index with
    | succ index => exact ih (by simpa using holds)
    | zero =>
      cases value with
      | ok decision =>
        rw [head decision rfl]
        exact holds
      | error error => simp [errors] at holds

end

/-- A combined decision survives when failed operands are replaced by any outcome. -/
theorem combine_keepsDecision {kind : ReducerKind} {resolution : Option CheckResolution}
    (keeps : List.Forall₂ KeepsDecision values better) :
    KeepsDecision (combine kind resolution values) (combine kind resolution better) := by
  -- unless an operand decides alone, a decision needs every operand to be one
  have complete : firstError values = none → better = values := fun none =>
    KeepsDecision.eq_of_ok keeps (firstError_eq_none.mp none)
  intro decision combined
  cases kind with
  | single =>
    cases keeps with
    | nil => exact combined
    | @cons value better' _ _ head _ =>
      simp only [combine, headD_cons] at combined ⊢
      cases value with
      | ok inner => rwa [head inner rfl]
      | error error => cases combined
  | union =>
    simp only [combine] at combined ⊢
    split at combined
    · rename_i allowed
      rw [if_pos (KeepsDecision.any (fun _ => rfl) keeps allowed)]
      exact combined
    · rename_i refused
      split at combined
      · cases combined
      · rename_i none
        rw [complete none, if_neg refused, none]
        exact combined
  | intersection =>
    simp only [combine] at combined ⊢
    split at combined
    · rename_i denied
      rw [if_pos (KeepsDecision.any (fun _ => rfl) keeps denied)]
      exact combined
    · rename_i refused
      split at combined
      · cases combined
      · rename_i none
        rw [complete none, if_neg refused, none]
        exact combined
  | difference =>
    simp only [combine] at combined ⊢
    split at combined
    · rename_i early
      have later : (better[0]?.any denies || better[1]?.any allows) = true := by
        rw [Bool.or_eq_true] at early ⊢
        rcases early with base | subtract
        · exact .inl (KeepsDecision.any_getElem? (fun _ => rfl) keeps base)
        · exact .inr (KeepsDecision.any_getElem? (fun _ => rfl) keeps subtract)
      rw [if_pos later]
      exact combined
    · rename_i refused
      split at combined
      · cases combined
      · rename_i none
        rw [complete none, if_neg refused, none]
        exact combined

end Combine

namespace Reducer

/-- The counter counts the open operands, and the fixed-arity kinds have their arity. -/
structure WellFormed (reducer : Reducer) : Prop where
  remaining : reducer.remaining = reducer.outcomes.countP Option.isNone
  single : reducer.kind = .single → reducer.outcomes.length = 1
  difference : reducer.kind = .difference → reducer.outcomes.length = 2

/-- The outcomes with a failure in place of every open operand. -/
def filled (reducer : Reducer) : List Evaluation :=
  reducer.outcomes.map fun outcome => outcome.getD (.error (.internal "operand_open"))

theorem wellFormed_new {kind : ReducerKind} {operands : Nat}
    (resolution : Option CheckResolution) (single : kind = .single → operands = 1)
    (difference : kind = .difference → operands = 2) : (new kind operands resolution).WellFormed :=
  ⟨by simp [new, countP_replicate], by simpa [new] using single,
    by simpa [new] using difference⟩

variable {reducer : Reducer}

theorem any_delivered (errors : ∀ error, test (.error error) = false) :
    reducer.delivered.any test = reducer.filled.any test := by
  unfold delivered filled
  induction reducer.outcomes with
  | nil => rfl
  | cons outcome outcomes ih =>
    cases outcome with
    | none => simpa [errors] using ih
    | some value => simpa using congrArg (test value || ·) ih

theorem any_position (errors : ∀ error, test (.error error) = false) (index : Nat) :
    (reducer.outcomes[index]?.bind id).any test = reducer.filled[index]?.any test := by
  simp only [filled, getElem?_map]
  cases reducer.outcomes[index]? with
  | none => rfl
  | some outcome =>
    cases outcome with
    | none => simp [errors]
    | some value => rfl

/-- Without open operands the outcomes are the delivered values. -/
theorem outcomes_eq_of_complete (wellFormed : reducer.WellFormed)
    (complete : reducer.remaining = 0) : reducer.outcomes = reducer.delivered.map some := by
  have known : ∀ outcome ∈ reducer.outcomes, outcome ≠ none := by
    simpa [countP_eq_zero] using wellFormed.remaining.symm.trans complete
  unfold delivered
  generalize reducer.outcomes = outcomes at known
  induction outcomes with
  | nil => rfl
  | cons outcome outcomes ih =>
    cases outcome with
    | none => simp at known
    | some value =>
      have rest := ih fun outcome member => known outcome (mem_cons_of_mem _ member)
      simpa using rest

theorem filled_eq_of_complete (wellFormed : reducer.WellFormed) (complete : reducer.remaining = 0) :
    reducer.filled = reducer.delivered := by
  rw [filled, outcomes_eq_of_complete wellFormed complete, map_map]
  exact map_id _

/-- What reducing a well-formed reducer yields: nothing while operands are open,
or the combination of all operands, with any failure for the open ones. -/
structure Reduction (reducer : Reducer) (result : Option Evaluation) : Prop where
  open_of_none : result = none → reducer.remaining ≠ 0
  combined : ∀ value, result = some value →
    combine reducer.kind reducer.resolution reducer.filled = value
  complete_of_error : ∀ error, result = some (.error error) → reducer.remaining = 0

private theorem reduction_of_complete {result : Evaluation} (wellFormed : reducer.WellFormed)
    (complete : reducer.remaining = 0)
    (combined : combine reducer.kind reducer.resolution reducer.delivered = result) :
    Reduction reducer (some result) := by
  refine ⟨by simp, ?_, fun _ _ => complete⟩
  rintro value ⟨⟩
  rw [filled_eq_of_complete wellFormed complete]
  exact combined

private theorem reduction_of_decision {decision : Decision}
    (combined : combine reducer.kind reducer.resolution reducer.filled = .ok decision) :
    Reduction reducer (some (.ok decision)) := by
  refine ⟨by simp, ?_, by simp⟩
  rintro value ⟨⟩
  exact combined

theorem reduceDifference_spec (wellFormed : reducer.WellFormed)
    (kind : reducer.kind = .difference) :
    ∃ result, reducer.reduceDifference = .ok result ∧ Reduction reducer result := by
  unfold reduceDifference
  rw [any_position (fun _ => rfl), any_position (fun _ => rfl)]
  split
  · rename_i early
    refine ⟨_, rfl, reduction_of_decision ?_⟩
    rw [kind, combine, if_pos early]
  · rename_i undecided
    split
    · rename_i incomplete
      exact ⟨none, rfl, fun _ => incomplete, by simp, by simp⟩
    · rename_i complete
      replace complete : reducer.remaining = 0 := not_not.mp complete
      rw [filled_eq_of_complete wellFormed complete] at undecided
      have combined : combine reducer.kind reducer.resolution reducer.delivered =
          match firstError reducer.delivered with
          | some error => .error error
          | none => .ok (.allow (reducer.resolution.getD .difference)) := by
        rw [kind, combine, if_neg undecided]
      split
      · rename_i error failed
        rw [failed] at combined
        exact ⟨_, rfl, reduction_of_complete wellFormed complete combined⟩
      · rename_i settled
        rw [settled] at combined
        have outcomes := outcomes_eq_of_complete wellFormed complete
        have length : reducer.delivered.length = 2 := by
          rw [← wellFormed.difference kind, outcomes, length_map]
        obtain ⟨base, subtract, both⟩ : ∃ base subtract, reducer.delivered = [base, subtract] :=
          length_eq_two.mp length
        rw [both] at undecided settled outcomes
        obtain ⟨baseDecision, rfl⟩ := firstError_eq_none.mp settled base (by simp)
        obtain ⟨subtractDecision, rfl⟩ := firstError_eq_none.mp settled subtract (by simp)
        have allowed : (baseDecision.allowed && !subtractDecision.allowed) = true := by
          simpa [denies, allows] using undecided
        refine ⟨_, ?_, reduction_of_complete wellFormed complete combined⟩
        simp only [take, outcomes, map_cons, map_nil, getElem?_cons_zero,
          getElem?_cons_succ, Option.bind_some, id, orError_some]
        change (if (baseDecision.allowed && !subtractDecision.allowed) = true then _ else _) = _
        rw [if_pos allowed]

/-- Reducing a well-formed reducer never fails. -/
theorem reduce_spec (wellFormed : reducer.WellFormed) :
    ∃ result, reducer.reduce = .ok result ∧ Reduction reducer result := by
  unfold reduce
  cases kind : reducer.kind with
  | single =>
    simp only
    split
    · rename_i incomplete
      exact ⟨none, rfl, fun _ => incomplete, by simp, by simp⟩
    · rename_i complete
      replace complete : reducer.remaining = 0 := not_not.mp complete
      have outcomes := outcomes_eq_of_complete wellFormed complete
      have length : reducer.delivered.length = 1 := by
        rw [← wellFormed.single kind, outcomes, length_map]
      obtain ⟨value, only⟩ := length_eq_one_iff.mp length
      refine ⟨some (mapResolution value reducer.resolution), ?_,
        reduction_of_complete wellFormed complete ?_⟩
      · rw [only] at outcomes
        simp [take, outcomes, bind, Except.bind]
      · rw [kind, only]
        rfl
  | union =>
    simp only
    rw [any_delivered (fun _ => rfl)]
    split
    · rename_i allowed
      refine ⟨_, rfl, reduction_of_decision ?_⟩
      rw [kind, combine, if_pos allowed]
    · rename_i refused
      split
      · rename_i incomplete
        exact ⟨none, rfl, fun _ => incomplete, by simp, by simp⟩
      · rename_i complete
        replace complete : reducer.remaining = 0 := not_not.mp complete
        rw [filled_eq_of_complete wellFormed complete] at refused
        split
        · rename_i error failed
          refine ⟨_, rfl, reduction_of_complete wellFormed complete ?_⟩
          rw [kind, combine, if_neg refused, failed]
        · rename_i settled
          refine ⟨_, rfl, reduction_of_complete wellFormed complete ?_⟩
          rw [kind, combine, if_neg refused, settled]
  | intersection =>
    simp only
    rw [any_delivered (fun _ => rfl)]
    split
    · rename_i denied
      refine ⟨_, rfl, reduction_of_decision ?_⟩
      rw [kind, combine, if_pos denied]
    · rename_i refused
      split
      · rename_i incomplete
        exact ⟨none, rfl, fun _ => incomplete, by simp, by simp⟩
      · rename_i complete
        replace complete : reducer.remaining = 0 := not_not.mp complete
        rw [filled_eq_of_complete wellFormed complete] at refused
        split
        · rename_i error failed
          refine ⟨_, rfl, reduction_of_complete wellFormed complete ?_⟩
          rw [kind, combine, if_neg refused, failed]
        · rename_i settled
          refine ⟨_, rfl, reduction_of_complete wellFormed complete ?_⟩
          rw [kind, combine, if_neg refused, settled]
  | difference => exact reduceDifference_spec wellFormed kind

/-- The reducer with one more outcome. -/
def deliver (reducer : Reducer) (operand : Nat) (outcome : Evaluation) : Reducer :=
  { reducer with
    outcomes := reducer.outcomes.set operand (some outcome)
    remaining := reducer.remaining - 1 }

section

variable (wellFormed : reducer.WellFormed) {operand : Nat}
  (vacant : reducer.outcomes[operand]? = some none) (outcome : Evaluation)

include wellFormed vacant

theorem WellFormed.deliver : (reducer.deliver operand outcome).WellFormed := by
  obtain ⟨inside, value⟩ := List.getElem?_eq_some_iff.mp vacant
  refine ⟨?_, ?_, ?_⟩
  · simp only [Reducer.deliver, countP_set inside, value, wellFormed.remaining]
    simp
  · simpa [Reducer.deliver] using wellFormed.single
  · simpa [Reducer.deliver] using wellFormed.difference

/-- Accepting an open operand never fails. -/
theorem accept_spec :
    ∃ result, reducer.accept operand outcome = .ok (reducer.deliver operand outcome, result) ∧
      Reduction (reducer.deliver operand outcome) result := by
  have counted : reducer.remaining ≠ 0 := by
    have member : none ∈ reducer.outcomes := mem_of_getElem? vacant
    have positive := (countP_pos_iff (p := Option.isNone)).mpr ⟨none, member, rfl⟩
    rw [wellFormed.remaining]
    omega
  obtain ⟨result, reduced, reduction⟩ := reduce_spec (wellFormed.deliver vacant outcome)
  refine ⟨result, ?_, reduction⟩
  simp only [accept, vacant, if_neg counted]
  change (do
    let result ← (reducer.deliver operand outcome).reduce
    .ok (reducer.deliver operand outcome, result)) = _
  rw [reduced]
  rfl

end

end Reducer

section Values

theorem value_mapResolution (outcome : Evaluation) (resolution : Option CheckResolution) :
    (mapResolution outcome resolution).value = outcome.value := by
  cases outcome with
  | error error => rfl
  | ok decision =>
    obtain ⟨allowed, reason⟩ := decision
    cases allowed <;> cases resolution <;> rfl

theorem any_allows : values.any allows = true ↔ Kleene.yes ∈ values.map value := by
  rw [any_eq_true, mem_map]
  refine exists_congr fun value => and_congr_right fun _ => ?_
  cases value with
  | error error => simp [allows]
  | ok decision => cases allowed : decision.allowed <;> simp [allows, allowed]

theorem any_denies : values.any denies = true ↔ Kleene.no ∈ values.map value := by
  rw [any_eq_true, mem_map]
  refine exists_congr fun value => and_congr_right fun _ => ?_
  cases value with
  | error error => simp [denies]
  | ok decision => cases allowed : decision.allowed <;> simp [denies, allowed]

theorem firstError_isSome {error : CheckError} (failed : firstError values = some error) :
    Kleene.unknown ∈ values.map value := by
  obtain ⟨value, member, found⟩ := exists_of_findSome?_eq_some failed
  cases value with
  | ok decision => simp at found
  | error inner => exact mem_map.mpr ⟨_, member, rfl⟩

theorem value_determined (settled : firstError values = none) :
    ∀ value ∈ values.map Evaluation.value, value ≠ Kleene.unknown := by
  intro value member
  obtain ⟨evaluation, present, rfl⟩ := mem_map.mp member
  obtain ⟨decision, rfl⟩ := firstError_eq_none.mp settled evaluation present
  cases allowed : decision.allowed <;> simp [allowed]

section

variable (resolution : Option CheckResolution)

/-- A union of evaluations has the strong Kleene disjunction as its value. -/
theorem value_combine_union (values : List Evaluation) :
    (combine .union resolution values).value = .any (values.map value) := by
  simp only [combine]
  split
  · rename_i allowed
    exact (Kleene.any_eq_yes.mpr (any_allows.mp allowed)).symm
  · rename_i refused
    have notYes : Kleene.any (values.map value) ≠ .yes :=
      fun yes => refused (any_allows.mpr (Kleene.any_eq_yes.mp yes))
    split
    · rename_i error failed
      have notNo : Kleene.any (values.map value) ≠ .no := fun no => by
        simpa using Kleene.any_eq_no.mp no _ (firstError_isSome failed)
      cases result : Kleene.any (values.map value) <;> simp_all
    · rename_i settled
      refine (Kleene.any_eq_no.mpr fun value member => ?_).symm
      have determined := value_determined settled value member
      cases value with
      | no => rfl
      | unknown => exact absurd rfl determined
      | yes => exact absurd (any_allows.mpr member) refused

/-- An intersection of evaluations has the strong Kleene conjunction as its value. -/
theorem value_combine_intersection (values : List Evaluation) :
    (combine .intersection resolution values).value = .all (values.map value) := by
  simp only [combine]
  split
  · rename_i denied
    exact (Kleene.all_eq_no.mpr (any_denies.mp denied)).symm
  · rename_i refused
    have notNo : Kleene.all (values.map value) ≠ .no :=
      fun no => refused (any_denies.mpr (Kleene.all_eq_no.mp no))
    split
    · rename_i error failed
      have notYes : Kleene.all (values.map value) ≠ .yes := fun yes => by
        simpa using Kleene.all_eq_yes.mp yes _ (firstError_isSome failed)
      cases result : Kleene.all (values.map value) <;> simp_all
    · rename_i settled
      refine (Kleene.all_eq_yes.mpr fun value member => ?_).symm
      have determined := value_determined settled value member
      cases value with
      | no => exact absurd (any_denies.mpr member) refused
      | unknown => exact absurd rfl determined
      | yes => rfl

theorem value_combine_difference (base subtract : Evaluation) :
    (combine .difference resolution [base, subtract]).value =
      .diff base.value subtract.value := by
  cases base with
  | error baseError =>
    cases subtract with
    | error subtractError => rfl
    | ok subtractDecision =>
      cases allowed : subtractDecision.allowed <;>
        simp [combine, denies, allows, allowed, firstError, Kleene.diff,
          Kleene.and, Kleene.not]
  | ok baseDecision =>
    cases subtract with
    | error subtractError =>
      cases allowed : baseDecision.allowed <;>
        simp [combine, denies, allows, allowed, firstError, Kleene.diff,
          Kleene.and, Kleene.not]
    | ok subtractDecision =>
      cases baseAllowed : baseDecision.allowed <;>
        cases subtractAllowed : subtractDecision.allowed <;>
        simp [combine, denies, allows, baseAllowed, subtractAllowed,
          firstError, Kleene.diff, Kleene.and, Kleene.not]

end

end Values

end OpenFga
