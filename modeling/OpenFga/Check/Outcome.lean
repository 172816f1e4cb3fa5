import OpenFga.Domain.Limits
import OpenFga.Lib.Kleene
import OpenFga.Model.TupleValidation

/-!
# Check outcomes, errors and budgets

An evaluation is a decision or an error. Errors of a limit kind report an
exhausted ceiling, an interrupted request or a broken invariant rather than a
fact about the model and its tuples.
-/

namespace OpenFga

inductive CheckErrorKind where
  | invalidModel
  | invalidTuple
  | depthExceeded
  | dispatchExceeded
  | datastoreQueryExceeded
  | tupleItemExceeded
  | conditionCostExceeded
  | condition
  | storageUnavailable
  | timeout
  | cancelled
  | internal
  deriving DecidableEq, Repr

inductive StorageErrorKind where
  | cancelled
  | timeout
  | unavailable
  | resourceExhausted
  | notFound
  | alreadyExists
  | conflict
  | invalidContinuation
  | integrity
  | internal
  deriving DecidableEq, Repr

/-- Where an error comes from: a failed read, or the check of the request's own deadline and
cancellation, whose storage error has a code of its own. -/
inductive CheckErrorSource where
  | storage (kind : StorageErrorKind)
  | operation (code : String)
  | condition (error : EvaluationError)
  | model
  | tupleValidation (error : TupleValidationError)
  deriving DecidableEq, Repr

def CheckErrorSource.isRead : CheckErrorSource → Bool
  | .storage _ => true
  | .operation _ | .condition _ | .model | .tupleValidation _ => false

/-- A failed check, with its stable code. -/
structure CheckError where
  kind : CheckErrorKind
  code : String
  source : Option CheckErrorSource
  deriving DecidableEq, Repr

namespace CheckError

def new (kind : CheckErrorKind) (code : String) : CheckError :=
  ⟨kind, code, none⟩

def model (code : String) : CheckError :=
  ⟨.invalidModel, code, some .model⟩

def condition (source : EvaluationError) : CheckError :=
  ⟨.condition, "condition_evaluation_failed", some (.condition source)⟩

def ofStorage (kind : StorageErrorKind) : CheckError :=
  let reported : CheckErrorKind :=
    match kind with
    | .cancelled => .cancelled
    | .timeout => .timeout
    | .unavailable => .storageUnavailable
    | .resourceExhausted => .tupleItemExceeded
    | _ => .internal
  ⟨reported, "tuple_storage_failed", some (.storage kind)⟩

/-- The request's own deadline or cancellation, found before a step. -/
def ofOperation (kind : StorageErrorKind) (code : String) : CheckError :=
  { ofStorage kind with source := some (.operation code) }

def ofTupleValidation (source : TupleValidationError) : CheckError :=
  let reported : CheckErrorKind :=
    match source.kind with
    | .query => .invalidModel
    | .relationship => .invalidTuple
    | .compiledModel => .internal
  ⟨reported, source.code, some (.tupleValidation source)⟩

def internal (code : String) : CheckError := new .internal code

def depthExceeded : CheckError := new .depthExceeded "check_depth_exceeded"

def dispatchExceeded : CheckError := new .dispatchExceeded "check_dispatch_exceeded"

def datastoreExceeded : CheckError :=
  new .datastoreQueryExceeded "check_datastore_query_exceeded"

def tupleItemsExceeded : CheckError := new .tupleItemExceeded "check_tuple_items_exceeded"

def conditionCostExceeded : CheckError :=
  new .conditionCostExceeded "check_condition_cost_exceeded"

def cancelled (code : String) : CheckError := new .cancelled code

def timedOut (code : String) : CheckError := new .timeout code

/-- A failed tuple read; an exhausted reader counts as the item ceiling. -/
def ofRead (kind : StorageErrorKind) : CheckError :=
  if kind = .resourceExhausted then tupleItemsExceeded else ofStorage kind

/-- The error reports a ceiling, an interruption or a broken invariant, and not a failed read. -/
def IsLimit (error : CheckError) : Prop :=
  error.kind ∈ [.depthExceeded, .dispatchExceeded, .datastoreQueryExceeded, .tupleItemExceeded,
    .conditionCostExceeded, .timeout, .cancelled, .internal] ∧
  error.source.any CheckErrorSource.isRead = false

instance (error : CheckError) : Decidable error.IsLimit :=
  inferInstanceAs (Decidable (error.kind ∈ _ ∧ _))

end CheckError

/-- What has decided a check. -/
inductive CheckResolution where
  | cached
  | denied
  | unreachable
  | cycle
  | direct
  | computed
  | tupleToUserset
  | union
  | intersection
  | difference
  deriving DecidableEq, Repr

structure Decision where
  allowed : Bool
  resolution : CheckResolution
  deriving DecidableEq, Repr

def Decision.allow (resolution : CheckResolution) : Decision := ⟨true, resolution⟩

def Decision.deny (resolution : CheckResolution) : Decision := ⟨false, resolution⟩

@[simp] theorem Decision.allow_allowed (resolution : CheckResolution) :
    (Decision.allow resolution).allowed = true := rfl

@[simp] theorem Decision.deny_allowed (resolution : CheckResolution) :
    (Decision.deny resolution).allowed = false := rfl

/-- The result of one piece of work. -/
abbrev Evaluation := Except CheckError Decision

/-- The truth value of an evaluation; an error leaves it open. -/
def Evaluation.value : Evaluation → Kleene
  | .ok decision => .ofBool decision.allowed
  | .error _ => .unknown

@[simp] theorem Evaluation.value_ok (decision : Decision) :
    Evaluation.value (.ok decision) = .ofBool decision.allowed := rfl

@[simp] theorem Evaluation.value_error (error : CheckError) :
    Evaluation.value (.error error) = .unknown := rfl

/-- The independent ceilings of one check. -/
structure CheckBudget where
  depth : Limit 1000
  dispatches : Limit 1000000
  datastoreQueries : Limit 100000
  tupleItems : Limit 1000000
  conditionCost : Limit 1000000
  concurrentReads : Limit 1024

namespace CheckBudget

variable (budget : CheckBudget)

def maximumDepth : Nat := budget.depth.get

def maximumDispatches : Nat := budget.dispatches.get

def maximumDatastoreQueries : Nat := budget.datastoreQueries.get

def maximumTupleItems : Nat := budget.tupleItems.get

def maximumConditionCost : Nat := budget.conditionCost.get

def maximumConcurrentReads : Nat := budget.concurrentReads.get

end CheckBudget

end OpenFga
