import OpenFga.Check.Reducer

/-!
# The check scheduler

A check is evaluated as a graph of work slots. Semantic work asks whether a
subject has a relation on an object; rewrite work evaluates one node of a
relation's rewrite. A slot waits for its operands in a reducer, and a completed
slot delivers its outcome to its parent. Tuple reads run outside the scheduler
and are joined in any order. A slot is named by its position.

The scheduler is written as explicit state passing in `Except`. Everything it
cannot influence is an answer of a `Schedule`, asked at consecutive ticks: which
outstanding read is joined next, whether the request has been interrupted, and
whether the shared work meter admits another charge. Counters are natural
numbers: an overflow of the machine counters would report the same errors as the
ceilings below them.
-/

namespace OpenFga

/-- A question: is the subject related to the object? -/
structure SemanticKey where
  object : ObjectRef
  relation : RelationId
  subject : SubjectRef
  deriving DecidableEq, Repr

/-- The questions above a piece of work. -/
abbrev BranchPath := Finset SemanticKey

/-- A question, asked at a depth below others. -/
structure SemanticWork where
  object : ObjectRef
  relation : RelationId
  subject : SubjectRef
  path : BranchPath
  depth : Nat

/-- A node of a rewrite, evaluated for an object. -/
structure RewriteWork where
  object : ObjectRef
  node : NodeId
  subject : SubjectRef
  path : BranchPath
  depth : Nat

inductive WorkKind where
  | semantic (work : SemanticWork)
  | rewrite (work : RewriteWork)

/-- The slot and the operand that wait for an outcome. -/
structure ParentLink where
  work : Nat
  operand : Nat

/-- A read of the tuples that relate subjects directly. -/
structure DirectRead where
  relation : RelationId
  object : ObjectRef
  subject : SubjectRef
  path : BranchPath
  depth : Nat

/-- A read of the objects of a tupleset. -/
structure TtuRead where
  tupleset : RelationId
  targets : List RelationId
  object : ObjectRef
  subject : SubjectRef
  path : BranchPath
  depth : Nat

inductive ReadContinuation where
  | direct (read : DirectRead)
  | tupleToUserset (read : TtuRead)

/-- What a slot is doing. -/
inductive WorkState where
  | queued (kind : WorkKind)
  | processing
  | waiting (reducer : Reducer)
  | reading (continuation : ReadContinuation)
  | completed

def WorkState.isCompleted : WorkState → Bool
  | .completed => true
  | _ => false

/-- Outcomes are reused below the same path only. -/
structure MemoKey where
  semantic : SemanticKey
  branchPath : BranchPath
  deriving DecidableEq

/-- A piece of work and where its outcome goes. -/
structure WorkSlot where
  parent : Option ParentLink
  memoKey : Option MemoKey
  state : WorkState

/-- An operand of a read: decided, or to be asked. -/
inductive Candidate where
  | immediate (outcome : Evaluation)
  | semantic (work : SemanticWork)

/-- An outstanding tuple read of one slot. -/
structure PendingRead where
  work : Nat
  object : ObjectRef
  relation : RelationName

/-- Contextual tuples with distinct keys, in the order the index lists them. -/
structure ContextualIndex where
  tuples : List RelationshipTuple
  keys_nodup : (tuples.map RelationshipTuple.key).Nodup

def ContextualIndex.get (contextual : ContextualIndex) (object : ObjectRef)
    (relation : RelationName) : List RelationshipTuple :=
  contextual.tuples.filter fun tuple => tuple.key.object = object ∧ tuple.key.relation = relation

/-- What one check is evaluated against. A read of an object and relation gives
the stored rows, or fails. -/
structure CheckEnvironment where
  model : CompiledModel
  stored : List RelationshipTuple
  readFailure : ObjectRef → RelationName → Option StorageErrorKind
  contextual : ContextualIndex
  conditionContext : ConditionContext
  budget : CheckBudget

namespace CheckEnvironment

variable (env : CheckEnvironment)

def storedRows (object : ObjectRef) (relation : RelationName) : List RelationshipTuple :=
  env.stored.filter fun tuple => tuple.key.object = object ∧ tuple.key.relation = relation

def readObjectRelation (object : ObjectRef) (relation : RelationName) :
    Except CheckError (List RelationshipTuple) :=
  match env.readFailure object relation with
  | some kind => .error (.ofRead kind)
  | none => .ok (env.storedRows object relation)

end CheckEnvironment

/-- Why a run is stopped from outside. -/
inductive Interruption where
  | cancelled
  | deadline

/-- The answers of the surroundings of one run, by tick. -/
structure Schedule where
  nextRead : Nat → Nat
  interruption : Nat → Option Interruption
  conditionCancelled : Nat → Bool
  admitsDispatch : Nat → Bool
  admitsQuery : Nat → Bool
  admitsItems : Nat → Bool

/-- The state of one scheduler. `produced` is instrumentation: it lists every
error that was delivered as the outcome of a piece of work. -/
structure Scheduler where
  dispatches : Nat
  datastoreQueries : Nat
  tupleItems : Nat
  conditionCost : Nat
  cycles : Nat
  maximumDepth : Nat
  memo : List (MemoKey × Decision)
  slots : List WorkSlot
  ready : List Nat
  reads : List PendingRead
  rootResult : Option Evaluation
  tick : Nat
  produced : List CheckError

def Scheduler.new : Scheduler :=
  ⟨0, 0, 0, 0, 0, 0, [], [], [], [], none, 0, []⟩

namespace Scheduler

/-- Advances to the next question to the surroundings. -/
def ticked (s : Scheduler) : Scheduler :=
  { s with tick := s.tick + 1 }

/-- Notes a failed outcome. -/
def record (s : Scheduler) (outcome : Evaluation) : Scheduler :=
  match outcome with
  | .ok _ => s
  | .error error => { s with produced := error :: s.produced }

def setState (s : Scheduler) (work : Nat) (state : WorkState) : Scheduler :=
  { s with slots := s.slots.modify work fun slot => { slot with state } }

def slot (s : Scheduler) (work : Nat) : Except CheckError WorkSlot :=
  orError s.slots[work]? (.internal "work_slot_invalid")

/-- Walks up the parents; the work itself may be completed, no ancestor may. -/
def isActiveFrom (slots : List WorkSlot) (origin : Nat) :
    Nat → Option Nat → Except CheckError Bool
  | _, none => .ok true
  | 0, some _ => .error (.internal "work_slot_invalid")
  | fuel + 1, some id =>
      match slots[id]? with
      | none => .error (.internal "work_slot_invalid")
      | some slot =>
          if id ≠ origin ∧ slot.state.isCompleted then .ok false
          else isActiveFrom slots origin fuel (slot.parent.map ParentLink.work)

def isActive (s : Scheduler) (work : Nat) : Except CheckError Bool :=
  isActiveFrom s.slots work s.slots.length (some work)

/-- Marks a slot completed, remembers its decision and hands out its parent. -/
def retire (s : Scheduler) (work : Nat) (slot : WorkSlot) (outcome : Evaluation) : Scheduler :=
  let s := { s with
    slots := s.slots.set work { slot with memoKey := none, state := .completed } }
  let s := s.record outcome
  match slot.memoKey, outcome with
  | some key, .ok decision => { s with memo := (key, decision) :: s.memo }
  | _, _ => s

/-- Completes a slot and, as far as reducers are decided by it, its ancestors. -/
def completeLoop : Nat → Nat → Evaluation → Scheduler → Except CheckError Scheduler
  | 0, _, _, _ => .error (.internal "work_slot_invalid")
  | fuel + 1, work, outcome, s => do
      let slot ← s.slot work
      let s := s.retire work slot outcome
      match slot.parent with
      | none => .ok { s with rootResult := some outcome }
      | some link =>
          let parent ← s.slot link.work
          match parent.state with
          | .waiting reducer =>
              let (reducer, reduced) ← reducer.accept link.operand outcome
              let s := s.setState link.work (.waiting reducer)
              match reduced with
              | none => .ok s
              | some parentOutcome => completeLoop fuel link.work parentOutcome s
          | .completed => .ok s
          | _ => .error (.internal "completion_parent_state_invalid")

def complete (s : Scheduler) (work : Nat) (outcome : Evaluation) : Except CheckError Scheduler :=
  completeLoop s.slots.length work outcome s

/-- Delivers an outcome to the reducer of a slot that must be waiting. -/
def acceptOperand (s : Scheduler) (work : Nat) (operand : Nat) (outcome : Evaluation) :
    Except CheckError Scheduler := do
  let slot ← s.slot work
  match slot.state with
  | .waiting reducer =>
      let (reducer, reduced) ← reducer.accept operand outcome
      let s := (s.setState work (.waiting reducer)).record outcome
      match reduced with
      | none => .ok s
      | some outcome => s.complete work outcome
  | _ => .error (.internal "parent_reducer_state_invalid")

end Scheduler

/-- A failed request check reports the interruption as a storage error. -/
def Interruption.asError : Interruption → CheckError
  | .cancelled => .ofOperation .cancelled "operation_cancelled"
  | .deadline => .ofOperation .timeout "operation_deadline_elapsed"

def nextDepth (depth : Nat) : Except CheckError Nat :=
  if depth + 1 < 2 ^ 32 then .ok (depth + 1) else .error .depthExceeded

section Steps

variable (env : CheckEnvironment) (schedule : Schedule)

namespace Scheduler

def checkContext (s : Scheduler) : Except CheckError Scheduler :=
  match schedule.interruption s.tick with
  | some interruption => .error interruption.asError
  | none => .ok s.ticked

/-- Creates a slot, unless the dispatch ceiling or the meter refuses it. Returns
whether it was created. -/
def trySchedule (s : Scheduler) (kind : WorkKind) (parent : Option ParentLink) : Bool × Scheduler :=
  let s := { s with dispatches := s.dispatches + 1 }
  if s.dispatches > env.budget.maximumDispatches then (false, s)
  else if !schedule.admitsDispatch s.tick then (false, s.ticked)
  else
    (true, { s.ticked with
      slots := s.slots ++ [⟨parent, none, .queued kind⟩]
      ready := s.ready ++ [s.slots.length] })

def scheduleChildOrError (s : Scheduler) (parent : Nat) (operand : Nat) (kind : WorkKind) :
    Except CheckError Scheduler :=
  match s.trySchedule env schedule kind (some ⟨parent, operand⟩) with
  | (true, s) => .ok s
  | (false, s) => s.acceptOperand parent operand (.error .dispatchExceeded)

/-- Hands the rewrite children of a slot to the queue, one operand after the other. -/
def scheduleNodes (work : Nat) (origin : RewriteWork) :
    Nat → List NodeId → Scheduler → Except CheckError Scheduler
  | _, [], s => .ok s
  | operand, node :: nodes, s => do
      if !(← s.isActive work) then .ok s
      else
        let s ← s.scheduleChildOrError env schedule work operand (.rewrite { origin with node })
        scheduleNodes work origin (operand + 1) nodes s

section

variable (s : Scheduler) (work : Nat)

def startRewriteChildren (origin : RewriteWork)
    (nodes : List NodeId) (kind : ReducerKind) (resolution : CheckResolution) :
    Except CheckError Scheduler :=
  scheduleNodes env schedule work origin 0 nodes
    (s.setState work (.waiting (.new kind nodes.length (some resolution))))

def deferForReadCapacity (origin : RewriteWork) : Option Scheduler :=
  if s.reads.length < env.budget.maximumConcurrentReads then none
  else
    let s := s.setState work (.queued (.rewrite origin))
    some { s with ready := s.ready ++ [work] }

/-- A read is charged before it is started. -/
def startRead (relation : RelationId) (object : ObjectRef)
    (continuation : ReadContinuation) : Except CheckError Scheduler :=
  let s := { s with datastoreQueries := s.datastoreQueries + 1 }
  if s.datastoreQueries > env.budget.maximumDatastoreQueries then
    s.complete work (.error .datastoreExceeded)
  else if !schedule.admitsQuery s.tick then
    s.ticked.complete work (.error .datastoreExceeded)
  else
    match env.model.relation relation with
    | none => s.ticked.complete work (.error (.model "read_relation_invalid"))
    | some relation =>
        let s := s.ticked.setState work (.reading continuation)
        .ok { s with reads := s.reads ++ [⟨work, object, relation.name⟩] }

def processSemantic (item : SemanticWork) : Except CheckError Scheduler :=
  if item.depth > env.budget.maximumDepth then s.complete work (.error .depthExceeded)
  else
    let s := { s with maximumDepth := max s.maximumDepth item.depth }
    let key : SemanticKey := ⟨item.object, item.relation, item.subject⟩
    let memoKey : MemoKey := ⟨key, item.path⟩
    match s.memo.lookup memoKey with
    | some decision => s.complete work (.ok decision)
    | none =>
        let s := { s with
          slots := s.slots.modify work fun slot => { slot with memoKey := some memoKey } }
        if key ∈ item.path then
          { s with cycles := s.cycles + 1 }.complete work (.ok (.deny .cycle))
        else
          match env.model.typeId item.subject.subjectType with
          | none => s.complete work (.error (.model "semantic_subject_type_missing"))
          | some subjectType =>
              let reachable :=
                if item.subject.isTypedWildcard then
                  env.model.canReachWildcard item.relation subjectType
                else env.model.canReachSubjectType item.relation subjectType
              if !reachable then s.complete work (.ok (.deny .unreachable))
              else
                match env.model.relation item.relation with
                | none => s.complete work (.error (.model "semantic_relation_invalid"))
                | some relation =>
                    let s := s.setState work (.waiting (.new .single 1 none))
                    s.scheduleChildOrError env schedule work 0 (.rewrite
                      ⟨item.object, relation.root, item.subject, insert key item.path, item.depth⟩)

def processComputed (item : RewriteWork) (relation : RelationId) : Except CheckError Scheduler := do
  let s := s.setState work (.waiting (.new .single 1 (some .computed)))
  let depth ← nextDepth item.depth
  s.scheduleChildOrError env schedule work 0
    (.semantic ⟨item.object, relation, item.subject, item.path, depth⟩)

def processRewrite (item : RewriteWork) : Except CheckError Scheduler :=
  match env.model.node item.node with
  | none => s.complete work (.error (.model "rewrite_node_invalid"))
  | some (.direct relation) =>
      match s.deferForReadCapacity env work item with
      | some s => .ok s
      | none =>
          s.startRead env schedule work relation item.object
            (.direct ⟨relation, item.object, item.subject, item.path, item.depth⟩)
  | some (.computed relation) => s.processComputed env schedule work item relation
  | some (.tupleToUserset tupleset _ targets) =>
      match s.deferForReadCapacity env work item with
      | some s => .ok s
      | none =>
          s.startRead env schedule work tupleset item.object (.tupleToUserset
            ⟨tupleset, targets, item.object, item.subject, item.path, item.depth⟩)
  | some (.union nodes) => s.startRewriteChildren env schedule work item nodes .union .union
  | some (.intersection nodes) =>
      s.startRewriteChildren env schedule work item nodes .intersection .intersection
  | some (.difference base subtract) =>
      s.startRewriteChildren env schedule work item [base, subtract] .difference .difference

def process : Except CheckError Scheduler := do
  if !(← s.isActive work) then
    let _ ← s.slot work
    .ok (s.setState work .completed)
  else
    let slot ← s.slot work
    let s := s.setState work .processing
    match slot.state with
    | .queued (.semantic item) => s.processSemantic env schedule work item
    | .queued (.rewrite item) => s.processRewrite env schedule work item
    | _ => .error (.internal "queued_work_state_invalid")

end

/-- The candidates of one read are operands of a union; a decided candidate is
delivered at once, a semantic one becomes a child. -/
def offerCandidates (work : Nat) :
    Nat → List Candidate → Scheduler → Except CheckError Scheduler
  | _, [], s => .ok s
  | operand, candidate :: candidates, s => do
      if !(← s.isActive work) then .ok s
      else
        let s ←
          match candidate with
          | .immediate outcome => s.acceptOperand work operand outcome
          | .semantic item => s.scheduleChildOrError env schedule work operand (.semantic item)
        offerCandidates work (operand + 1) candidates s

def startCandidates (s : Scheduler) (work : Nat) (candidates : List Candidate)
    (resolution : CheckResolution) : Except CheckError Scheduler :=
  if candidates.isEmpty then s.complete work (.ok (.deny .denied))
  else
    offerCandidates env schedule work 0 candidates
      (s.setState work (.waiting (.new .union candidates.length (some resolution))))

end Scheduler

end Steps

/-- Whether a restriction's condition requirement fits the condition of a tuple. -/
def conditionRequirementMatches (model : CompiledModel) (requirement : ConditionRequirement)
    (reference : ConditionReference) : Except CheckError Bool :=
  match requirement, reference with
  | .unconditional, .unconditional => .ok true
  | .required id, .conditional binding => do
      let condition ← orError (model.condition id) (.model "restriction_condition_invalid")
      .ok (decide (condition.name = binding.name))
  | _, _ => .ok false

/-- The first restriction that fits decides that the class is admitted. -/
def admitsClass (model : CompiledModel) (subjectType : TypeId) (directClass : DirectClass)
    (reference : ConditionReference) : List DirectRestriction → Except CheckError Bool
  | [] => .ok false
  | restriction :: restrictions =>
      if restriction.subjectType ≠ subjectType ||
          !restrictionKindMatches restriction.kind directClass then
        admitsClass model subjectType directClass reference restrictions
      else do
        if ← conditionRequirementMatches model restriction.condition reference then .ok true
        else admitsClass model subjectType directClass reference restrictions

def matchingRestriction (model : CompiledModel) (tuple : RelationshipTuple)
    (restrictions : List DirectRestriction) : Except CheckError (Option DirectClass) :=
  match model.typeId tuple.key.subject.subjectType, model.directClass tuple.key.subject with
  | some subjectType, some directClass => do
      if ← admitsClass model subjectType directClass tuple.condition restrictions then
        .ok (some directClass)
      else .ok none
  | _, _ => .ok none

section Reads

variable (env : CheckEnvironment) (schedule : Schedule)

namespace Scheduler

/-- Evaluates the condition of a row: nothing for an unmet condition, otherwise
an outcome. -/
def evaluateTupleCondition (s : Scheduler) (tuple : RelationshipTuple) :
    Except CheckError (Option Evaluation × Scheduler) :=
  match tuple.condition with
  | .unconditional => .ok (some (.ok (.allow .direct)), s)
  | .conditional binding => do
      let s ← s.checkContext schedule
      let id ← orError (env.model.conditionId binding.name) (.model "tuple_condition_missing")
      let condition ← orError (env.model.condition id) (.model "tuple_condition_invalid")
      if env.budget.maximumConditionCost ≤ s.conditionCost then
        .ok (some (.error .conditionCostExceeded), s)
      else
        let evaluated :=
          if schedule.conditionCancelled s.tick then .error (.new .cancelled)
          else
            condition.evaluate env.conditionContext binding.context
              (env.budget.maximumConditionCost - s.conditionCost)
        let s ← s.ticked.checkContext schedule
        match evaluated with
        | .ok outcome =>
            let s := { s with conditionCost := s.conditionCost + outcome.cost }
            if s.conditionCost > env.budget.maximumConditionCost then
              .error .conditionCostExceeded
            else if outcome.conditionMet then .ok (some (.ok (.allow .direct)), s)
            else .ok (none, s)
        | .error failure =>
            match failure.kind with
            | .costExceeded => .ok (some (.error .conditionCostExceeded), s)
            | .cancelled => .ok (some (.error (.cancelled "condition_cancelled")), s)
            | _ => .ok (some (.error (.condition failure)), s)

/-- The candidates one row contributes to a direct read. -/
def directRow (read : DirectRead) (restrictions : List DirectRestriction)
    (tuple : RelationshipTuple) (s : Scheduler) : Except CheckError
      (List Candidate × Scheduler) := do
  match ← matchingRestriction env.model tuple restrictions with
  | none => .ok ([], s)
  | some .object =>
      if tuple.key.subject = read.subject then
        let (outcome, s) ← s.evaluateTupleCondition env schedule tuple
        .ok (outcome.toList.map .immediate, s)
      else .ok ([], s)
  | some .wildcard =>
      if tuple.key.subject = read.subject ∨ wildcardMatches tuple.key.subject read.subject then
        let (outcome, s) ← s.evaluateTupleCondition env schedule tuple
        .ok (outcome.toList.map .immediate, s)
      else .ok ([], s)
  | some (.userset relation) =>
      match tuple.key.subject with
      | .userset ref => do
          let (outcome, s) ← s.evaluateTupleCondition env schedule tuple
          match outcome with
          | none => .ok ([], s)
          | some (.error error) => .ok ([.immediate (.error error)], s)
          | some (.ok decision) =>
              if !decision.allowed then .ok ([], s)
              else if tuple.key.subject = read.subject then
                .ok ([.immediate (.ok decision)], s)
              else
                let depth ← nextDepth read.depth
                .ok ([.semantic ⟨ref.object, relation, read.subject, read.path, depth⟩], s)
      | _ => .ok ([], s)

/-- The semantic candidates of one tupleset object. -/
def ttuTargets (read : TtuRead) (object : ObjectRef) :
    List RelationId → Except CheckError (List Candidate)
  | [] => .ok []
  | target :: targets => do
      let relation ← orError (env.model.relation target) (.model "ttu_target_invalid")
      let targetType ← orError (env.model.typeName relation.objectType)
        (.model "ttu_target_type_invalid")
      if targetType = object.objectType then
        let depth ← nextDepth read.depth
        let rest ← ttuTargets read object targets
        .ok (.semantic ⟨object, target, read.subject, read.path, depth⟩ :: rest)
      else ttuTargets read object targets

/-- The candidates one row contributes to a tuple-to-userset read. -/
def ttuRow (read : TtuRead) (restrictions : List DirectRestriction) (tuple : RelationshipTuple)
    (s : Scheduler) : Except CheckError (List Candidate × Scheduler) := do
  match ← matchingRestriction env.model tuple restrictions with
  | some .object => do
      let (outcome, s) ← s.evaluateTupleCondition env schedule tuple
      match outcome with
      | none => .ok ([], s)
      | some (.error error) => .ok ([.immediate (.error error)], s)
      | some (.ok decision) =>
          if !decision.allowed then .ok ([], s)
          else
            match tuple.key.subject with
            | .object object => do
                let candidates ← ttuTargets env read object read.targets
                .ok (candidates, s)
            | .userset _ | .typedWildcard _ => .ok ([], s)
  | _ => .ok ([], s)

/-- Collects the candidates of all rows, in row order. -/
def collectRows
    (row : RelationshipTuple → Scheduler → Except CheckError (List Candidate × Scheduler)) :
    List RelationshipTuple → Scheduler → Except CheckError (List Candidate × Scheduler)
  | [], s => .ok ([], s)
  | tuple :: tuples, s => do
      let (head, s) ← row tuple s
      let (rest, s) ← collectRows row tuples s
      .ok (head ++ rest, s)

def finishDirect (s : Scheduler) (work : Nat) (read : DirectRead)
    (rows : List RelationshipTuple) : Except CheckError Scheduler := do
  let relation ← orError (env.model.relation read.relation) (.model "direct_relation_invalid")
  let (candidates, s) ← collectRows (directRow env schedule read relation.restrictions) rows s
  s.startCandidates env schedule work candidates .direct

def finishTtu (s : Scheduler) (work : Nat) (read : TtuRead) (rows : List RelationshipTuple) :
    Except CheckError Scheduler := do
  let relation ← orError (env.model.relation read.tupleset) (.model "ttu_tupleset_invalid")
  let (candidates, s) ← collectRows (ttuRow env schedule read relation.restrictions) rows s
  s.startCandidates env schedule work candidates .tupleToUserset

/-- Charges the rows of one read; the meter is asked for the contextual ones. -/
def chargeTupleItems (s : Scheduler) (stored contextual : Nat) : Bool × Scheduler :=
  let s := { s with tupleItems := s.tupleItems + (stored + contextual) }
  if s.tupleItems > env.budget.maximumTupleItems then (false, s)
  else (schedule.admitsItems s.tick, s.ticked)

/-- Prepends the contextual rows of the read relation and charges all of them. -/
def finishRows (s : Scheduler) (work : Nat) (object : ObjectRef) (relation : RelationId)
    (missing : String) (stored : List RelationshipTuple)
    (finish : Scheduler → List RelationshipTuple → Except CheckError Scheduler) :
    Except CheckError Scheduler := do
  let relation ← orError (env.model.relation relation) (.model missing)
  let contextual := env.contextual.get object relation.name
  match s.chargeTupleItems env schedule stored.length contextual.length with
  | (false, s) => s.complete work (.error .tupleItemsExceeded)
  | (true, s) => finish s (contextual ++ stored)

/-- A joined read gives its candidates, or its error. -/
def finishRead (s : Scheduler) (work : Nat)
    (result : Except CheckError (List RelationshipTuple)) : Except CheckError Scheduler := do
  if !(← s.isActive work) then
    let _ ← s.slot work
    .ok (s.setState work .completed)
  else
    let slot ← s.slot work
    let s := s.setState work .processing
    match slot.state with
    | .reading continuation =>
        match result with
        | .error error => s.complete work (.error error)
        | .ok stored =>
            match continuation with
            | .direct read =>
                s.finishRows env schedule work read.object read.relation
                  "direct_relation_invalid" stored fun s rows =>
                    s.finishDirect env schedule work read rows
            | .tupleToUserset read =>
                s.finishRows env schedule work read.object read.tupleset
                  "ttu_relation_invalid" stored fun s rows =>
                    s.finishTtu env schedule work read rows
    | _ => .error (.internal "read_completion_state_invalid")

/-- The result a read task ends with; the meter is asked for the stored rows. -/
def readResult (s : Scheduler) (read : PendingRead) :
    Except CheckError (List RelationshipTuple) × Scheduler :=
  match env.readObjectRelation read.object read.relation with
  | .error error => (.error error, s)
  | .ok rows =>
      if schedule.admitsItems s.tick then (.ok rows, s.ticked)
      else (.error .tupleItemsExceeded, s.ticked)

/-- Processes up to `available` queued items, stopping at a root result. -/
def processReady : Nat → Scheduler → Except CheckError Scheduler
  | 0, s => .ok s
  | available + 1, s =>
      match s.ready with
      | [] => .ok s
      | work :: ready => do
          let s ← process env schedule { s with ready } work
          if s.rootResult.isSome then .ok s else processReady available s

/-- Joins the outstanding read the schedule names, unless the request is interrupted. -/
def joinNext (s : Scheduler) : Except CheckError Scheduler :=
  match schedule.interruption s.tick with
  | some .cancelled => .error (.cancelled "check_cancelled")
  | some .deadline => .error (.timedOut "check_deadline_elapsed")
  | none =>
      let index := schedule.nextRead s.tick % s.reads.length
      match s.reads[index]? with
      | none => .ok s.ticked
      | some read =>
          let (result, s) :=
            { s.ticked with reads := s.reads.eraseIdx index }.readResult env schedule read
          s.finishRead env schedule read.work result

/-- One round of the drive loop. -/
def driveRound (s : Scheduler) : Except CheckError Scheduler := do
  let s ← s.checkContext schedule
  let s ← processReady env schedule s.ready.length s
  if s.rootResult.isSome then .ok s
  else if s.reads.isEmpty then
    if s.ready.isEmpty then .error (.internal "work_graph_stalled") else .ok s
  else s.joinNext env schedule

/-- Rounds until the root has a result. -/
def driveLoop : Nat → Scheduler → Except CheckError Decision
  | 0, _ => .error (.internal "drive_rounds_exhausted")
  | fuel + 1, s =>
      match s.rootResult with
      | some outcome => outcome
      | none => do
          let s ← s.driveRound env schedule
          driveLoop fuel s

/-- The scheduler with the root work queued, if the ceilings admit it. -/
def start (root : SemanticWork) : Except CheckError Scheduler :=
  match Scheduler.new.trySchedule env schedule (.semantic root) none with
  | (true, s) => .ok s
  | (false, _) => .error .dispatchExceeded

/-- More rounds than any run of the scheduler makes. -/
def roundBound : Nat :=
  3 * env.budget.maximumDispatches + 1

/-- Runs until the root is decided or a limit is met. -/
def drive (root : SemanticWork) : Except CheckError Decision := do
  let s ← start env schedule root
  driveLoop env schedule (roundBound env) s

end Scheduler

end Reads

inductive ModelSelection where
  | explicit (modelId : AuthorizationModelId)
  | latest

/-- One check request. -/
structure RootInput where
  storeId : StoreId
  modelSelection : ModelSelection
  tuple : TupleKey

/-- The work a request starts with, for the relation its tuple names. -/
def RootInput.root (input : RootInput) (relation : RelationId) : SemanticWork :=
  ⟨input.tuple.object, relation, input.tuple.subject, ∅, 0⟩

def validateModelIdentity (input : RootInput) (model : CompiledModel) : Except CheckError Unit :=
  if input.storeId ≠ model.storeId then .error (.new .invalidModel "model_store_mismatch")
  else
    match input.modelSelection with
    | .explicit modelId =>
        if modelId ≠ model.modelId then .error (.new .invalidModel "model_id_mismatch") else .ok ()
    | .latest => .ok ()

def validateContextual (env : CheckEnvironment) : Except CheckError Unit :=
  env.contextual.tuples.forM fun tuple =>
    (env.model.validateRelationshipTuple tuple).mapError .ofTupleValidation

/-- Validates a request and evaluates it with a fresh scheduler. -/
def evaluateRoot (env : CheckEnvironment) (schedule : Schedule) (input : RootInput) :
    Except CheckError Decision := do
  validateModelIdentity input env.model
  let relation ← (env.model.validateQueryTuple input.tuple).mapError .ofTupleValidation
  validateContextual env
  Scheduler.drive env schedule (input.root relation)

namespace Sample

/-! A document model with `editor: [user]` and `viewer: [user, user:*] and editor`. -/

def user : TypeName := ⟨"user"⟩

def document : TypeName := ⟨"document"⟩

theorem types_nodup : [user, document].Nodup := by decide

def model : CompiledModel where
  storeId := ⟨"store"⟩
  modelId := ⟨"model"⟩
  types := [user, document]
  relations :=
    [⟨⟨1⟩, ⟨"editor"⟩, ⟨0⟩, [⟨⟨0⟩, .object, .unconditional⟩]⟩,
      ⟨⟨1⟩, ⟨"viewer"⟩, ⟨3⟩,
        [⟨⟨0⟩, .object, .unconditional⟩, ⟨⟨0⟩, .wildcard, .unconditional⟩]⟩]
  nodes := [.direct ⟨0⟩, .direct ⟨1⟩, .computed ⟨0⟩, .intersection [⟨1⟩, ⟨2⟩]]
  conditions := []
  graph := ⟨[∅, {⟨0⟩}], [{⟨1⟩}, ∅], [{⟨0⟩}, {⟨0⟩}], [∅, {⟨0⟩}]⟩
  types_nodup := types_nodup
  relations_nodup := by decide
  conditions_nodup := by decide
  relations_valid := by decide
  restrictions_valid := by decide
  children_precede := by decide
  nodes_scoped := by decide
  graph_eq := by decide

def plan : ObjectRef := ⟨document, ⟨"plan"⟩⟩

def anne : SubjectRef := .object ⟨user, ⟨"anne"⟩⟩

/-- An unconditional tuple on the plan. -/
def onPlan (relation : String) (subject : SubjectRef) : RelationshipTuple :=
  (⟨plan, ⟨relation⟩, subject⟩ : TupleKey).bare

/-- The default ceilings. -/
def budget : CheckBudget :=
  ⟨.of 25, .of 10000, .of 100, .of 10000, .of 100000, .of 16⟩

def environment (stored : List RelationshipTuple) : CheckEnvironment :=
  ⟨model, stored, fun _ _ => none, ⟨[], by decide⟩, .empty, budget⟩

/-- Joins always the outstanding read at one position, without limits. -/
def joining (position : Nat) : Schedule :=
  ⟨fun _ => position, fun _ => none, fun _ => false, fun _ => true, fun _ => true, fun _ => true⟩

def request : RootInput := ⟨⟨"store"⟩, .latest, ⟨plan, ⟨"viewer"⟩, anne⟩⟩

/-- The plan has one viewer, who is also its editor. -/
def edited : CheckEnvironment :=
  environment [onPlan "viewer" anne, onPlan "editor" anne]

end Sample

end OpenFga
