import OpenFga.Condition.Ir

/-!
# Operators and functions of condition programs

What the operators and functions return on values, and what is charged for them. Values that
depend on unknown parameters stay unknown.

A map is kept in the order of its keys, which are distinct; the binary searches of the source
are lookups.
-/

namespace OpenFga.Condition

variable (primitives : Primitives) (compiled : CompiledCondition)

def applyUnaryOperator : UnaryOperator → RuntimeValue → Except EvaluationError RuntimeValue
  | .notStrictlyFalse, .unknown _ => .ok (.bool true)
  | _, .unknown unknown => .ok (.unknown unknown)
  | .not, .bool value => .ok (.bool !value)
  | .notStrictlyFalse, .bool value => .ok (.bool value)
  | .negate, .int value => intResult (toInt64 (-value.toInt))
  | .negate, .double bits => .ok (.double (negate bits))
  | _, _ => .error typeMismatch

def boundSum (left right maximum : Nat) : Except EvaluationError Unit :=
  if maximum < left + right then .error valueLimitExceeded else .ok ()

def add : RuntimeValue → RuntimeValue → Counted EvaluationError RuntimeValue
  | .int left, .int right => .ofExcept (intResult (toInt64 (left.toInt + right.toInt)))
  | .uint left, .uint right => .ofExcept (uintResult (toUint64 (left.toNat + right.toNat : Int)))
  | .double left, .double right => .ofExcept (finite (primitives.addDouble left right))
  | .string left, .string right => do
      .ofExcept (boundSum left.utf8ByteSize right.utf8ByteSize compiled.runtimeValueBytes)
      poll
      pure (.string (left ++ right))
  | .bytes left, .bytes right => do
      .ofExcept (boundSum left.length right.length compiled.runtimeValueBytes)
      poll
      pure (.bytes (left ++ right))
  | .list left, .list right => do
      .ofExcept (boundSum left.length right.length compiled.runtimeCollectionItems)
      .tick right.length
      pure (.list (left ++ right))
  | _, _ => .fail typeMismatch

/-- Whether some item equals the needle; the items are compared up to the first that does. -/
def anyEqual (needle : RuntimeValue) : List RuntimeValue → Counted EvaluationError Bool
  | [] => pure false
  | value :: values => do
      poll
      if ← valuesEqual primitives value needle then pure true else anyEqual needle values

def membership (needle : RuntimeValue) : RuntimeValue → Counted EvaluationError RuntimeValue
  | .list values => do
      let found ← anyEqual primitives needle values
      pure (.bool found)
  | .map entries =>
      match needle with
      | .string key => do
          poll
          pure (.bool (entries.lookup key).isSome)
      | _ => .fail typeMismatch
  | _ => .fail typeMismatch

def itemAt (values : List RuntimeValue) (index : Int) : Except EvaluationError RuntimeValue :=
  if index < 0 then .error invalidValue else orError values[index.toNat]? invalidValue

def index : RuntimeValue → RuntimeValue → Counted EvaluationError RuntimeValue
  | .list values, .int index => .ofExcept (itemAt values index.toInt)
  | .list values, .uint index => .ofExcept (itemAt values index.toNat)
  | .map entries, .string key => do
      poll
      .ofExcept (orError (entries.lookup key) invalidValue)
  | _, _ => .fail typeMismatch

/-- The result of an operator on two known values. -/
def operate : BinaryOperator → RuntimeValue → RuntimeValue → Counted EvaluationError RuntimeValue
  | .equal, left, right => do
      let same ← valuesEqual primitives left right
      pure (.bool same)
  | .notEqual, left, right => do
      let same ← valuesEqual primitives left right
      pure (.bool !same)
  | .greater, left, right => .ofExcept (ordered primitives left right (· == .gt))
  | .greaterEqual, left, right => .ofExcept (ordered primitives left right (· != .lt))
  | .less, left, right => .ofExcept (ordered primitives left right (· == .lt))
  | .lessEqual, left, right => .ofExcept (ordered primitives left right (· != .gt))
  | .add, left, right => add primitives compiled left right
  | .subtract, left, right => .ofExcept (subtract primitives left right)
  | .multiply, left, right => .ofExcept (multiply primitives left right)
  | .divide, left, right => .ofExcept (divide primitives left right)
  | .modulo, left, right => .ofExcept (modulo primitives left right)
  | .in, left, right => membership primitives left right
  | .index, left, right => index left right

def applyBinaryOperator (operator : BinaryOperator) (left right : RuntimeValue) :
    Counted EvaluationError RuntimeValue :=
  match mergeUnknown left right with
  | some unknown => pure (.unknown unknown)
  | none => operate primitives compiled operator left right

def RuntimeValue.isText : RuntimeValue → Bool
  | .string _ | .bytes _ => true
  | _ => false

def RuntimeValue.isList : RuntimeValue → Bool
  | .list _ => true
  | _ => false

/-- The units charged for an operator. -/
def binaryUnits (operator : BinaryOperator) (left right : RuntimeValue) : Nat :=
  match operator with
  | .equal | .notEqual => traversalCost (min (runtimeSize left) (runtimeSize right))
  | .greater | .greaterEqual | .less | .lessEqual =>
      if left.isText then traversalCost (min (runtimeSize left) (runtimeSize right)) else 1
  | .add => if left.isText then traversalCost (runtimeSize left + runtimeSize right) else 1
  | .in => if right.isList then runtimeSize right else 1
  | _ => 1

def selectField (field : String) (test : Bool) : RuntimeValue →
    Counted EvaluationError RuntimeValue
  | .unknown unknown => pure (.unknown unknown)
  | .map entries => do
      poll
      if test then pure (.bool (entries.lookup field).isSome)
      else .ofExcept (orError (entries.lookup field) invalidValue)
  | _ => .fail typeMismatch

/-- The units charged for a function on its receiver, if it has one, and its arguments. -/
def functionUnits (function : Function) (target : Bool) (values : List RuntimeValue) : Nat :=
  let receiver := if target then values.head? else none
  let argument := if target then values[1]? else values.head?
  match function, receiver, argument with
  | .contains, some (.string receiver), some (.string argument) =>
      traversalCost receiver.length * traversalCost argument.length
  | .startsWith, some (.string _), some (.string argument) => traversalCost argument.length
  | .endsWith, some (.string _), some (.string argument) => traversalCost argument.length
  | .bytes, none, some (.string value) => traversalCost value.length
  | .string, none, some (.bytes value) => traversalCost value.length
  | _, _, _ => 1

/-- The result of a function on known values. -/
def callFunction : Function → Option RuntimeValue → List RuntimeValue →
    Except EvaluationError RuntimeValue
  | .duration, none, [.string text] => (parseDuration primitives text).map .duration
  | .timestamp, none, [.string text] => (parseTimestamp primitives text).map .timestamp
  | .ipAddress, none, [.string text] => (parseIpAddress primitives text).map .ipAddress
  | .bytes, none, [.string text] => .ok (.bytes (Utf8.bytesOf text))
  | .size, some value, [] => size value
  | .size, none, [value] => size value
  | .contains, some (.string receiver), [.string argument] =>
      .ok (.bool (decide (argument.toList <:+: receiver.toList)))
  | .startsWith, some (.string receiver), [.string argument] =>
      .ok (.bool (decide (argument.toList <+: receiver.toList)))
  | .endsWith, some (.string receiver), [.string argument] =>
      .ok (.bool (decide (argument.toList <:+ receiver.toList)))
  | .inCidr, some (.ipAddress address), [.string cidr] =>
      (ipInCidr primitives address cidr).map .bool
  | .int, none, [value] => castInt primitives value
  | .uint, none, [value] => castUint primitives value
  | .double, none, [value] => castDouble primitives value
  | .string, none, [value] => castString primitives value
  | _, _, _ => .error typeMismatch

def applyFunction (function : Function) (target : Bool) (values : List RuntimeValue) :
    Except EvaluationError RuntimeValue :=
  if values.any RuntimeValue.isUnknown then .ok (.unknown (unknownsOf values))
  else if target then
    match values with
    | [] => .error invalidState
    | receiver :: arguments => callFunction primitives function (some receiver) arguments
  else callFunction primitives function none values

/-- A list is unknown if one of its items is. -/
def finishList (values : List RuntimeValue) : RuntimeValue :=
  match collectTopLevelUnknowns values with
  | some unknown => .unknown unknown
  | none => .list values

def finishMap (entries : List (String × RuntimeValue)) : RuntimeValue :=
  match collectTopLevelUnknowns (entries.map Prod.snd) with
  | some unknown => .unknown unknown
  | none => .map (sortEntries entries)

/-- A key that is already there is refused. -/
def requireNewKey (key : String) : List (String × RuntimeValue) → Counted EvaluationError Unit
  | [] => pure ()
  | (existing, _) :: entries => do
      poll
      if existing = key then .fail invalidValue else requireNewKey key entries

def validateRuntimeValue (value : RuntimeValue) : Except EvaluationError Unit :=
  let within := match value with
    | .string text => decide (text.utf8ByteSize ≤ compiled.runtimeValueBytes)
    | .bytes value => decide (value.length ≤ compiled.runtimeValueBytes)
    | .list values => decide (values.length ≤ compiled.runtimeCollectionItems)
    | .map entries => decide (entries.length ≤ compiled.runtimeCollectionItems) &&
        entries.all fun entry => decide (entry.1.utf8ByteSize ≤ compiled.runtimeValueBytes)
    | _ => true
  if within then .ok () else .error valueLimitExceeded

/-- The items a comprehension visits, those of a map with their keys. -/
def iterationItems : RuntimeValue →
    Except EvaluationError (List (RuntimeValue × Option RuntimeValue))
  | .list values => .ok (values.map fun value => (value, none))
  | .map entries => .ok (entries.map fun entry => (.string entry.1, some entry.2))
  | _ => .error typeMismatch

/-! ## Preparation of parameters -/

/-- The entries of a map are bounded in number and in the size of their keys. -/
def entriesWithin (entries : List (String × ContextValue)) : Except EvaluationError Unit :=
  if compiled.runtimeCollectionItems < entries.length ∨
      entries.any (fun entry => decide (compiled.runtimeValueBytes < entry.1.utf8ByteSize)) then
    .error valueLimitExceeded
  else .ok ()

mutual

def chargeContextValue : ContextValue → Counted EvaluationError Unit
  | .string text => do
      poll
      if compiled.runtimeValueBytes < text.utf8ByteSize then .fail valueLimitExceeded
      else pure ()
  | .bytes value => do
      poll
      if compiled.runtimeValueBytes < value.length then .fail valueLimitExceeded else pure ()
  | .list values => do
      poll
      if compiled.runtimeCollectionItems < values.length then .fail valueLimitExceeded
      else chargeContextItems values
  | .map entries => do
      poll
      .ofExcept (entriesWithin compiled entries)
      chargeContextEntries entries
  | _ => poll

def chargeContextItems : List ContextValue → Counted EvaluationError Unit
  | [] => pure ()
  | value :: values => do
      chargeContextItems values
      chargeContextValue value

def chargeContextEntries : List (String × ContextValue) → Counted EvaluationError Unit
  | [] => pure ()
  | (_, value) :: entries => do
      chargeContextEntries entries
      chargeContextValue value

end

/-- One declared parameter: an absent one is counted, a present one measured and converted. -/
def prepareParameter (request tuple : ConditionContext)
    (prepared : List (ParameterName × RuntimeValue) × Nat)
    (parameter : ParameterName × ParameterType) :
    Counted EvaluationError (List (ParameterName × RuntimeValue) × Nat) :=
  match CompiledCondition.parameterValue parameter.1 request tuple with
  | none => pure (prepared.1, prepared.2 + 1)
  | some value => do
      chargeContextValue compiled value
      let converted ← .ofExcept (convertParameter primitives value parameter.2)
      pure (prepared.1 ++ [(parameter.1, converted)], prepared.2)

def prepareParameters (request tuple : ConditionContext) :
    Counted EvaluationError (List (ParameterName × RuntimeValue)) := do
  let (values, missing) ←
    compiled.parameters.foldlM (prepareParameter primitives compiled request tuple) ([], 0)
  if missing ≠ 0 then .fail (.missing missing) else pure values

end OpenFga.Condition
