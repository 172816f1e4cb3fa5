import OpenFga.Condition.Operators

/-!
# The condition machine

A condition program is run by a machine with explicit stacks: the frames still to execute,
the values computed so far, and the scopes of the comprehensions entered. Each stack is a
list with its top first. The machine is charged units of cost against a budget and polls a
cancellation signal; the signal is a function of the number of polls made before.

A failing frame unwinds the machine. A suppressible error is caught by the innermost logical
operator whose left operand is being evaluated; the operator then evaluates its right operand
and remembers the error.

Costs are natural numbers. A budget is at most a million, so that an overflow of the source's
counter exceeds it as well.
-/

namespace OpenFga.Condition

variable {m : Machine}

/-- A fold under way. -/
structure ComprehensionState where
  definition : Comprehension
  items : List (RuntimeValue × Option RuntimeValue)
  index : Nat
  accumulator : RuntimeValue

/-- What is left to do once a value is there. -/
inductive Frame where
  | eval (id : NodeId)
  | unary (operator : UnaryOperator)
  | binary (operator : BinaryOperator)
  | logicalAfterLeft (right : NodeId) (and : Bool) (valueDepth : Nat)
  | logicalAfterUnknown (unknown : Finset ParameterName) (and : Bool) (valueDepth : Nat)
  | logicalAfterError (error : EvaluationError) (and : Bool) (valueDepth : Nat)
  | conditional (truthy falsy : NodeId)
  | select (field : String) (test : Bool)
  | listNext (ids : List NodeId) (index : Nat) (values : List RuntimeValue)
  | listAfter (ids : List NodeId) (index : Nat) (values : List RuntimeValue)
  | mapNext (ids : List (NodeId × NodeId)) (index : Nat) (values : List (String × RuntimeValue))
  | mapAfterKey (ids : List (NodeId × NodeId)) (index : Nat)
      (values : List (String × RuntimeValue))
  | mapAfterValue (ids : List (NodeId × NodeId)) (index : Nat) (key : String)
      (values : List (String × RuntimeValue))
  | callNext (function : Function) (ids : List NodeId) (target : Bool) (index : Nat)
      (values : List RuntimeValue)
  | callAfter (function : Function) (ids : List NodeId) (target : Bool) (index : Nat)
      (values : List RuntimeValue)
  | comprehensionAfterRange (definition : Comprehension)
  | comprehensionAfterInit (definition : Comprehension)
      (items : List (RuntimeValue × Option RuntimeValue))
  | comprehensionNext (state : ComprehensionState)
  | comprehensionAfterCond (state : ComprehensionState)
  | comprehensionAfterStep (state : ComprehensionState)
  | scopeGuard

/-- What stays fixed while the machine runs. -/
structure Setting where
  primitives : Primitives
  compiled : CompiledCondition
  parameterValues : List (ParameterName × RuntimeValue)
  maximumCost : Nat
  signal : Nat → Bool

/-- The stacks, and what has been spent. -/
structure Machine where
  frames : List Frame
  values : List RuntimeValue
  scopes : List (Scope RuntimeValue)
  cost : Nat
  polls : Nat

/-- A part of a step. A failure keeps what was done to the machine before. -/
def Action (α : Type) : Type := Machine → Except EvaluationError α × Machine

namespace Action

instance : Monad Action where
  pure value := fun m => (.ok value, m)
  bind first next := fun m =>
    match first m with
    | (.ok value, m) => next value m
    | (.error error, m) => (.error error, m)

def fail {α : Type} (error : EvaluationError) : Action α := fun m => (.error error, m)

def ofExcept {α : Type} (result : Except EvaluationError α) : Action α := fun m => (result, m)

def pushFrame (frame : Frame) : Action Unit := fun m =>
  (.ok (), { m with frames := frame :: m.frames })

def pushValue (value : RuntimeValue) : Action Unit := fun m =>
  (.ok (), { m with values := value :: m.values })

def popValue : Action RuntimeValue := fun m =>
  match m.values with
  | [] => (.error invalidState, m)
  | value :: values => (.ok value, { m with values })

/-- The number of values on the stack. -/
def valueDepth : Action Nat := fun m => (.ok m.values.length, m)

def pushScope : Action Unit := fun m => (.ok (), { m with scopes := .empty :: m.scopes })

def popScope : Action Unit := fun m =>
  match m.scopes with
  | [] => (.error invalidState, m)
  | _ :: scopes => (.ok (), { m with scopes })

def setLocal (name : String) (value : RuntimeValue) : Action Unit := fun m =>
  match m.scopes with
  | [] => (.error invalidState, m)
  | scope :: scopes => (.ok (), { m with scopes := scope.insert name value :: scopes })

/-- Only the entries of a map have a second component. -/
def setSecondLocal : Option String → Option RuntimeValue → Action Unit
  | some name, some value => setLocal name value
  | _, _ => pure ()

def readLocal (name : String) : Action RuntimeValue := fun m =>
  (orError (Scope.find m.scopes name) invalidState, m)

end Action

open Condition.Action

namespace Setting

variable (setting : Setting)

/-- Polls the signal so many times. -/
def checkCancellation (times : Nat) : Action Unit := fun m =>
  if (List.range times).any fun later => setting.signal (m.polls + later) then
    (.error cancelled, { m with polls := m.polls + times })
  else (.ok (), { m with polls := m.polls + times })

theorem checkCancellation_of_raised {times : Nat}
    (raised : (List.range times).any (fun later => setting.signal (m.polls + later)) = true) :
    setting.checkCancellation times m = (.error cancelled, { m with polls := m.polls + times }) :=
  if_pos raised

theorem checkCancellation_of_quiet {times : Nat}
    (quiet : ¬ (List.range times).any (fun later => setting.signal (m.polls + later)) = true) :
    setting.checkCancellation times m = (.ok (), { m with polls := m.polls + times }) :=
  if_neg quiet

/-- A computation whose counts are polls. -/
def polling {α : Type} (computation : Counted EvaluationError α) : Action α := do
  setting.checkCancellation computation.count
  ofExcept computation.result

def addCost (units : Nat) : Action Unit := fun m =>
  if setting.maximumCost < m.cost + units then
    (.error costExceeded, { m with cost := m.cost + units })
  else (.ok (), { m with cost := m.cost + units })

theorem addCost_of_exceeded {units : Nat} (exceeded : setting.maximumCost < m.cost + units) :
    setting.addCost units m = (.error costExceeded, { m with cost := m.cost + units }) :=
  if_pos exceeded

theorem addCost_of_within {units : Nat} (within : m.cost + units ≤ setting.maximumCost) :
    setting.addCost units m = (.ok (), { m with cost := m.cost + units }) :=
  if_neg (Nat.not_lt.mpr within)

def chargeUnits (units : Nat) : Action Unit := do
  setting.checkCancellation 1
  setting.addCost units

def charge : Action Unit := setting.chargeUnits 1

/-- The value of a declared parameter; one without a value is unknown. -/
def parameterOf (name : ParameterName) : Except EvaluationError RuntimeValue :=
  if name ∉ setting.compiled.parameters.map Prod.fst then .error invalidState
  else .ok ((setting.parameterValues.lookup name).getD (.unknown {name}))

def evalParameter (name : ParameterName) : Action Unit := do
  setting.charge
  let value ← ofExcept (setting.parameterOf name)
  pushValue value

def evalLocal (name : String) : Action Unit := do
  setting.charge
  let value ← readLocal name
  pushValue value

def beginLogical (left right : NodeId) (and : Bool) : Action Unit := do
  let depth ← valueDepth
  pushFrame (.logicalAfterLeft right and depth)
  pushFrame (.eval left)

/-- Begins the evaluation of a node. -/
def evalKind : NodeKind → Action Unit
  | .literal value => do
      ofExcept (validateRuntimeValue setting.compiled value)
      pushValue value
  | .parameter name => setting.evalParameter name
  | .local name => setting.evalLocal name
  | .list ids => pushFrame (.listNext ids 0 [])
  | .map ids => pushFrame (.mapNext ids 0 [])
  | .select operand field test => do
      pushFrame (.select field test)
      pushFrame (.eval operand)
  | .unary operator operand => do
      pushFrame (.unary operator)
      pushFrame (.eval operand)
  | .binary operator left right => do
      pushFrame (.binary operator)
      pushFrame (.eval right)
      pushFrame (.eval left)
  | .logicalAnd left right => beginLogical left right true
  | .logicalOr left right => beginLogical left right false
  | .conditional condition truthy falsy => do
      pushFrame (.conditional truthy falsy)
      pushFrame (.eval condition)
  | .call function target arguments =>
      pushFrame (.callNext function (target.toList ++ arguments) target.isSome 0 [])
  | .comprehension definition => do
      pushFrame (.comprehensionAfterRange definition)
      pushFrame (.eval definition.iterRange)

def evalNode (id : NodeId) : Action Unit := do
  setting.checkCancellation 1
  let node ← ofExcept (orError setting.compiled.program.nodes[id]? invalidState)
  setting.evalKind node.kind

def applyUnary (operator : UnaryOperator) : Action Unit := do
  setting.charge
  let value ← popValue
  let result ← ofExcept (applyUnaryOperator operator value)
  pushValue result

def applyBinary (operator : BinaryOperator) : Action Unit := do
  let right ← popValue
  let left ← popValue
  setting.chargeUnits (binaryUnits operator left right)
  let result ← setting.polling
    (applyBinaryOperator setting.primitives setting.compiled operator left right)
  pushValue result

def logicalAfterLeft (right : NodeId) (and : Bool) (depth : Nat) : Action Unit := do
  match ← popValue with
  | .bool value => if value ≠ and then pushValue (.bool value) else pushFrame (.eval right)
  | .unknown unknown => do
      pushFrame (.logicalAfterUnknown unknown and depth)
      pushFrame (.eval right)
  | _ => fail typeMismatch

def logicalAfterUnknown (unknown : Finset ParameterName) (and : Bool) : Action Unit := do
  match ← popValue with
  | .bool value =>
      if value ≠ and then pushValue (.bool value) else pushValue (.unknown unknown)
  | .unknown other => pushValue (.unknown (unknown ∪ other))
  | _ => fail typeMismatch

def logicalAfterError (error : EvaluationError) (and : Bool) : Action Unit := do
  match ← popValue with
  | .bool value => if value ≠ and then pushValue (.bool value) else fail error
  | .unknown _ => fail error
  | _ => fail typeMismatch

def conditional (truthy falsy : NodeId) : Action Unit := do
  match ← popValue with
  | .bool true => pushFrame (.eval truthy)
  | .bool false => pushFrame (.eval falsy)
  | .unknown unknown => pushValue (.unknown unknown)
  | _ => fail typeMismatch

def select (field : String) (test : Bool) : Action Unit := do
  setting.charge
  let value ← popValue
  let result ← setting.polling (selectField field test value)
  pushValue result

def listNext (ids : List NodeId) (index : Nat) (values : List RuntimeValue) : Action Unit :=
  match ids[index]? with
  | some id => do
      setting.checkCancellation 1
      pushFrame (.listAfter ids index values)
      pushFrame (.eval id)
  | none => do
      setting.chargeUnits 10
      pushValue (finishList values)

def listAfter (ids : List NodeId) (index : Nat) (values : List RuntimeValue) : Action Unit :=
  if setting.compiled.runtimeCollectionItems ≤ values.length then fail valueLimitExceeded
  else do
    let value ← popValue
    pushFrame (.listNext ids (index + 1) (values ++ [value]))

section

variable (ids : List (NodeId × NodeId)) (index : Nat)

def mapNext (values : List (String × RuntimeValue)) : Action Unit :=
  match ids[index]? with
  | some (key, _) => do
      setting.checkCancellation 1
      pushFrame (.mapAfterKey ids index values)
      pushFrame (.eval key)
  | none => do
      setting.chargeUnits 30
      pushValue (finishMap values)

def mapAfterKey (values : List (String × RuntimeValue)) : Action Unit := do
  match ← popValue with
  | .string key => do
      let entry ← ofExcept (orError ids[index]? invalidState)
      pushFrame (.mapAfterValue ids index key values)
      pushFrame (.eval entry.2)
  | .unknown unknown => pushValue (.unknown unknown)
  | _ => fail typeMismatch

def mapAfterValue (key : String) (values : List (String × RuntimeValue)) : Action Unit := do
  let value ← popValue
  setting.polling (requireNewKey key values)
  if value.isUnknown then pushValue value
  else if setting.compiled.runtimeCollectionItems ≤ values.length ∨
      setting.compiled.runtimeValueBytes < key.utf8ByteSize then fail valueLimitExceeded
  else pushFrame (.mapNext ids (index + 1) (values ++ [(key, value)]))

end

def callNext (function : Function) (ids : List NodeId) (target : Bool) (index : Nat)
    (values : List RuntimeValue) : Action Unit :=
  match ids[index]? with
  | some id => do
      pushFrame (.callAfter function ids target index values)
      pushFrame (.eval id)
  | none => do
      setting.chargeUnits (functionUnits function target values)
      let result ← ofExcept (applyFunction setting.primitives function target values)
      pushValue result

def callAfter (function : Function) (ids : List NodeId) (target : Bool) (index : Nat)
    (values : List RuntimeValue) : Action Unit := do
  let value ← popValue
  pushFrame (.callNext function ids target (index + 1) (values ++ [value]))

def comprehensionAfterRange (definition : Comprehension) : Action Unit := do
  let range ← popValue
  if range.isUnknown then pushValue range
  else
    let items ← ofExcept (iterationItems range)
    pushFrame (.comprehensionAfterInit definition items)
    pushFrame (.eval definition.accuInit)

def comprehensionAfterInit (definition : Comprehension)
    (items : List (RuntimeValue × Option RuntimeValue)) : Action Unit := do
  let accumulator ← popValue
  pushScope
  pushFrame .scopeGuard
  pushFrame (.comprehensionNext ⟨definition, items, 0, accumulator⟩)

section

variable (state : ComprehensionState)

/-- The result is evaluated with the accumulator in scope. -/
def comprehensionResult : Action Unit := do
  setLocal state.definition.accuVar state.accumulator
  pushFrame (.eval state.definition.result)

def comprehensionNext : Action Unit :=
  match state.items[state.index]? with
  | none => comprehensionResult state
  | some (first, second) => do
      setting.checkCancellation 1
      setLocal state.definition.iterVar first
      setSecondLocal state.definition.iterVar2 second
      setLocal state.definition.accuVar state.accumulator
      pushFrame (.comprehensionAfterCond state)
      pushFrame (.eval state.definition.loopCond)

def comprehensionAfterCond : Action Unit := do
  match ← popValue with
  | .bool true => do
      pushFrame (.comprehensionAfterStep state)
      pushFrame (.eval state.definition.loopStep)
  | .bool false => comprehensionResult state
  | .unknown unknown => pushValue (.unknown unknown)
  | _ => fail typeMismatch

def comprehensionAfterStep : Action Unit := do
  let accumulator ← popValue
  pushFrame (.comprehensionNext { state with accumulator, index := state.index + 1 })

end

def executeFrame : Frame → Action Unit
  | .eval id => setting.evalNode id
  | .unary operator => setting.applyUnary operator
  | .binary operator => setting.applyBinary operator
  | .logicalAfterLeft right and depth => logicalAfterLeft right and depth
  | .logicalAfterUnknown unknown and _ => logicalAfterUnknown unknown and
  | .logicalAfterError error and _ => logicalAfterError error and
  | .conditional truthy falsy => conditional truthy falsy
  | .select field test => setting.select field test
  | .listNext ids index values => setting.listNext ids index values
  | .listAfter ids index values => setting.listAfter ids index values
  | .mapNext ids index values => setting.mapNext ids index values
  | .mapAfterKey ids index values => mapAfterKey ids index values
  | .mapAfterValue ids index key values => setting.mapAfterValue ids index key values
  | .callNext function ids target index values =>
      setting.callNext function ids target index values
  | .callAfter function ids target index values => callAfter function ids target index values
  | .comprehensionAfterRange definition => comprehensionAfterRange definition
  | .comprehensionAfterInit definition items => comprehensionAfterInit definition items
  | .comprehensionNext state => setting.comprehensionNext state
  | .comprehensionAfterCond state => comprehensionAfterCond state
  | .comprehensionAfterStep state => comprehensionAfterStep state
  | .scopeGuard => popScope

end Setting

/-- An error that the other side of a connective may absorb. -/
def isSuppressible (error : EvaluationError) : Bool :=
  match error.kind with
  | .typeMismatch | .arithmetic | .invalidValue => true
  | _ => false

/-- Keeps the lowest values of the stack. -/
def truncate (values : List RuntimeValue) (depth : Nat) : List RuntimeValue :=
  values.drop (values.length - depth)

namespace Machine

/-- Pops frames until a logical operator catches the error. -/
def unwind (m : Machine) : EvaluationError → List Frame → Except EvaluationError Unit × Machine
  | error, [] => (.error error, { m with frames := [] })
  | error, .logicalAfterLeft right and depth :: frames =>
      (.ok (), { m with
        frames := .eval right :: .logicalAfterError error and depth :: frames
        values := truncate m.values depth })
  | _, .logicalAfterError original _ depth :: frames =>
      unwind { m with values := truncate m.values depth } original frames
  | error, .logicalAfterUnknown _ _ depth :: frames =>
      unwind { m with values := truncate m.values depth } error frames
  | error, .scopeGuard :: frames =>
      match m.scopes with
      | [] => (.error invalidState, { m with frames })
      | _ :: scopes => unwind { m with scopes } error frames
  | error, _ :: frames => unwind m error frames

def recoverLogicalError (m : Machine) (error : EvaluationError) :
    Except EvaluationError Unit × Machine :=
  if isSuppressible error then m.unwind error m.frames else (.error error, m)

/-- One round of the loop: the frame popped is executed, and a failure unwound. -/
def step (setting : Setting) (m : Machine) (frame : Frame) (frames : List Frame) :
    Except EvaluationError Unit × Machine :=
  match setting.executeFrame frame { m with frames } with
  | (.ok (), m) => (.ok (), m)
  | (.error error, m) => m.recoverLogicalError error

/-- Runs the machine until no frame is left or an error is not caught. -/
def run (setting : Setting) : Nat → Machine → Option (Except EvaluationError Unit × Machine)
  | 0, _ => none
  | fuel + 1, m =>
      match m.frames with
      | [] => some (.ok (), m)
      | frame :: frames =>
          match m.step setting frame frames with
          | (.ok (), m) => m.run setting fuel
          | (.error error, m) => some (.error error, m)

/-- The outcome of a machine without frames. -/
def outcome (m : Machine) : Except EvaluationError ConditionOutcome :=
  match m.values with
  | [.bool value] => .ok ⟨value, m.cost⟩
  | [.unknown parameters] => .error (.missing parameters.card)
  | _ => .error invalidState

def start (root : NodeId) (polls : Nat) : Machine := ⟨[.eval root], [], [], 0, polls⟩

end Machine

/-- What is left of a finished run: its result, and the units charged on the way. -/
structure Evaluated where
  result : Except EvaluationError ConditionOutcome
  charged : Nat
  deriving DecidableEq

/-- A run that failed before the machine started. -/
def Evaluated.unstarted (error : EvaluationError) : Evaluated := ⟨.error error, 0⟩

def Machine.evaluated : Except EvaluationError Unit × Machine → Evaluated
  | (.ok (), m) => ⟨m.outcome, m.cost⟩
  | (.error error, m) => ⟨.error error, m.cost⟩

/-- The machine's setting for one evaluation. -/
def CompiledCondition.setting (compiled : CompiledCondition) (primitives : Primitives)
    (values : List (ParameterName × RuntimeValue)) (budget : Nat) (signal : Nat → Bool) : Setting :=
  ⟨primitives, compiled, values, budget, signal⟩

/-- Evaluates a condition, if the fuel suffices. -/
def CompiledCondition.evaluate (compiled : CompiledCondition) (primitives : Primitives)
    (request tuple : ConditionContext) (budget : Nat) (signal : Nat → Bool) (fuel : Nat) :
    Option Evaluated :=
  let prepared := prepareParameters primitives compiled request tuple
  if (List.range prepared.count).any signal then some (.unstarted cancelled)
  else
    match prepared.result with
    | .error error => some (.unstarted error)
    | .ok values =>
        ((Machine.start compiled.program.root prepared.count).run
          (compiled.setting primitives values budget signal) fuel).map Machine.evaluated

namespace Sample

/-- Operations for samples that use neither doubles nor texts. -/
def primitives : Primitives where
  addDouble _ _ := 0
  subDouble _ _ := 0
  mulDouble _ _ := 0
  divDouble _ _ := 0
  remDouble _ _ := 0
  compareDouble left right := some (compare left.toNat right.toNat)
  intToDouble _ := 0
  uintToDouble _ := 0
  isIntegral _ := true
  showInt _ := ""
  showUint _ := ""
  showDouble _ := ""
  parseInt _ := none
  parseUint _ := none
  parseDouble _ := none
  parseByte _ := none
  parseSignedDuration _ := none
  parseInstant _ := none
  parseIp _ := none
  comparable_of_finite _ _ _ _ := rfl

/-- A condition with the default ceilings on values. -/
def condition (parameters : List (ParameterName × ParameterType)) (nodes : List Node)
    (root : NodeId) : CompiledCondition :=
  ⟨⟨"c"⟩, parameters, ⟨nodes, root⟩, 1048576, 10000⟩

end Sample

/-- What an evaluation comes to. -/
def CompiledCondition.Evaluates (compiled : CompiledCondition) (primitives : Primitives)
    (request tuple : ConditionContext) (budget : Nat) (signal : Nat → Bool)
    (evaluated : Evaluated) : Prop :=
  ∃ fuel, compiled.evaluate primitives request tuple budget signal fuel = some evaluated

/-- A signal that is never raised. -/
def silent : Nat → Bool := fun _ => false

/-- The rest of a run after a round. -/
def Machine.resume (setting : Setting) (fuel : Nat) :
    Except EvaluationError Unit × Machine → Option (Except EvaluationError Unit × Machine)
  | (.ok (), m) => m.run setting fuel
  | (.error error, m) => some (.error error, m)

theorem Machine.run_of_nil (empty : m.frames = []) (setting : Setting) (fuel : Nat) :
    m.run setting (fuel + 1) = some (.ok (), m) := by
  simp only [run, empty]

theorem Machine.run_of_cons {frame : Frame} {frames : List Frame}
    (popped : m.frames = frame :: frames) (setting : Setting) (fuel : Nat) :
    m.run setting (fuel + 1) = resume setting fuel (m.step setting frame frames) := by
  simp only [run, popped]
  rfl

end OpenFga.Condition
