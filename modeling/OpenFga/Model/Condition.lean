import OpenFga.Domain.Reference

/-!
# Compiled conditions

A compiled condition prepares its declared parameters from the tuple context and
the request context and runs its program on them under a cost ceiling. The
program itself is kept abstract; what the evaluators rely on is that a result
other than an exhausted ceiling does not depend on the ceiling, which is carried
by the structure. `Condition.run_agrees` shows this for the machine of the source.

Only declared parameters are looked up during evaluation, whereas
`validateContext` inspects every entry a tuple context supplies.
-/

namespace OpenFga

/-- Why a condition evaluation failed. -/
inductive EvaluationErrorKind where
  | missingParameters
  | invalidParameter
  | typeMismatch
  | arithmetic
  | invalidValue
  | valueLimitExceeded
  | costExceeded
  | cancelled
  | invalidCompiledState
  deriving DecidableEq, Repr

/-- A condition evaluation failure with the number of absent parameters. -/
structure EvaluationError where
  kind : EvaluationErrorKind
  missingParameterCount : Nat
  deriving DecidableEq, Repr

/-- A failure that is not about missing parameters. -/
def EvaluationError.new (kind : EvaluationErrorKind) : EvaluationError :=
  ⟨kind, 0⟩

/-- The failure reporting how many parameters were absent. -/
def EvaluationError.missing (count : Nat) : EvaluationError :=
  ⟨.missingParameters, count⟩

/-- The result of a finished condition program. -/
structure ConditionOutcome where
  conditionMet : Bool
  cost : Nat
  deriving DecidableEq, Repr

/-- A declared parameter: its name, which values fit the runtime ceilings and
which convert to its type. -/
structure ConditionParameter where
  name : ParameterName
  withinLimits : ContextValue → Bool
  converts : ContextValue → Bool

/-- The parameter values a program runs on. -/
abbrev ParameterValues := List (ParameterName × ContextValue)

/-- A compiled condition. -/
structure CompiledCondition where
  name : ConditionName
  parameters : List ConditionParameter
  program : ParameterValues → Nat → Except EvaluationError ConditionOutcome
  program_stable : ∀ values budget larger, budget ≤ larger →
    program values budget ≠ .error (.new .costExceeded) →
      program values larger = program values budget

/-- Why a supplied tuple context is rejected. -/
inductive ConditionContextError where
  | unknown (parameter : ParameterName)
  | invalid (parameter : ParameterName)
  deriving DecidableEq, Repr

namespace CompiledCondition

/-- Tuple context entries take precedence over request context entries. -/
def parameterValue (name : ParameterName) (request tuple : ConditionContext) :
    Option ContextValue :=
  (tuple.get name).or (request.get name)

/-- One round of parameter preparation: an absent parameter is counted, a
present one is measured and converted. -/
def prepareParameter (request tuple : ConditionContext)
    (prepared : ParameterValues × Nat) (parameter : ConditionParameter) :
    Except EvaluationError (ParameterValues × Nat) :=
  match parameterValue parameter.name request tuple with
  | none => .ok (prepared.1, prepared.2 + 1)
  | some value =>
      if parameter.withinLimits value then
        if parameter.converts value then
          .ok (prepared.1 ++ [(parameter.name, value)], prepared.2)
        else
          .error (.new .invalidParameter)
      else
        .error (.new .valueLimitExceeded)

section

variable (condition : CompiledCondition)

/-- The values of the declared parameters, read from the two contexts. -/
def prepareParameters (request tuple : ConditionContext) :
    Except EvaluationError ParameterValues := do
  let (values, missing) ← condition.parameters.foldlM (prepareParameter request tuple) ([], 0)
  if missing ≠ 0 then .error (.missing missing) else .ok values

/-- Evaluates the condition under a cost ceiling. -/
def evaluate (request tuple : ConditionContext) (budget : Nat) :
    Except EvaluationError ConditionOutcome := do
  let values ← condition.prepareParameters request tuple
  condition.program values budget

/-- Checks one supplied context entry against the declared parameters. -/
def validateContextEntry (entry : ParameterName × ContextValue) :
    Except ConditionContextError Unit :=
  match condition.parameters.find? (fun parameter => parameter.name = entry.1) with
  | none => .error (.unknown entry.1)
  | some parameter =>
      if parameter.converts entry.2 then .ok () else .error (.invalid entry.1)

/-- Checks every entry a tuple context supplies. -/
def validateContext (context : ConditionContext) : Except ConditionContextError Unit :=
  context.values.forM condition.validateContextEntry

/-- A result other than an exhausted ceiling is kept under every larger ceiling. -/
theorem evaluate_stable (request tuple : ConditionContext)
    {budget larger : Nat} (grows : budget ≤ larger)
    (settled : condition.evaluate request tuple budget ≠ .error (.new .costExceeded)) :
    condition.evaluate request tuple larger = condition.evaluate request tuple budget := by
  unfold evaluate at settled ⊢
  cases prepared : condition.prepareParameters request tuple with
  | error failure => rfl
  | ok values =>
    rw [prepared] at settled
    exact condition.program_stable values budget larger grows settled

end

end CompiledCondition

end OpenFga
