import Mathlib.Algebra.Order.Ring.Int

/-!
# Limits and validation errors

Every configured limit is positive and below a ceiling fixed at compile time. The input
policy lists the limits on what a request may carry.
-/

namespace OpenFga

/-- A positive ceiling of at most `maximum`. -/
structure Limit (maximum : Nat) where
  get : Nat
  positive : 1 ≤ get
  bounded : get ≤ maximum

/-- A limit whose bounds hold by evaluation. -/
abbrev Limit.of {maximum : Nat} (get : Nat)
    (fits : decide (1 ≤ get ∧ get ≤ maximum) = true := by exact Eq.refl true) : Limit maximum :=
  ⟨get, (of_decide_eq_true fits).1, (of_decide_eq_true fits).2⟩

inductive ValidationReason where
  | missing
  | outOfRange
  | tooLarge
  | tooManyItems
  | tooDeep
  | duplicate
  | conflicting
  | inconsistent
  | expired
  | integrity
  deriving DecidableEq, Repr

/-- A field that breaks a limit or a rule. -/
structure ValidationError where
  field : String
  reason : ValidationReason
  deriving DecidableEq, Repr

/-- The input policy, as far as the modelled components read it. -/
structure InputLimits where
  typeNameBytes : Limit 254
  relationNameBytes : Limit 50
  conditionNameBytes : Limit 50
  parameterNameBytes : Limit 50
  objectIdBytes : Limit 510
  objectRefBytes : Limit 256
  subjectRefBytes : Limit 512
  contextKeyBytes : Limit 256
  contextStringBytes : Limit 32768
  contextBytes : Limit 32768
  contextDepth : Limit 64
  contextValues : Limit 4096
  contextCollectionItems : Limit 1024
  contextualTuples : Limit 1000
  writeTuples : Limit 5000
  assertions : Limit 1000

/-- The default policy. -/
def InputLimits.standard : InputLimits where
  typeNameBytes := .of 254
  relationNameBytes := .of 50
  conditionNameBytes := .of 50
  parameterNameBytes := .of 50
  objectIdBytes := .of 510
  objectRefBytes := .of 256
  subjectRefBytes := .of 512
  contextKeyBytes := .of 256
  contextStringBytes := .of 4096
  contextBytes := .of 32768
  contextDepth := .of 16
  contextValues := .of 1024
  contextCollectionItems := .of 100
  contextualTuples := .of 100
  writeTuples := .of 100
  assertions := .of 100

end OpenFga
