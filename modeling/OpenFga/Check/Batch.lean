import OpenFga.Cache.DecisionKey
import OpenFga.Check.Requests
import OpenFga.Domain.Context
import OpenFga.Lib.JoinSet

/-!
# Batches of checks

A batch asks several questions at once. Its items share the context of the query and add
tuples and parameters of their own. They are evaluated side by side, at most so many at a
time, and finish in any order; each result is put where its item stands. A cache of
decisions can answer the whole batch, or none of it.

The surroundings of a batch say what every round of collecting meets and what each item's
evaluation meets. A decision taken from the cache is given with the lookup that found it,
since other requests fill the cache and it forgets.
-/

namespace OpenFga

open Std

structure CorrelationId where
  text : String
  deriving DecidableEq, Repr

/-- What the items of a batch share. -/
structure QueryContext where
  storeId : StoreId
  modelSelection : ModelSelection
  consistency : ConsistencyPreference
  contextualTuples : ContextualTuples
  conditionContext : ConditionContext

structure CheckCommand where
  query : QueryContext
  tuple : TupleKey

structure BatchCheckItem where
  correlationId : CorrelationId
  tuple : TupleKey
  contextualTuples : ContextualTuples
  conditionContext : ConditionContext

/-- A batch is not empty, and its items can be told apart. -/
structure BatchCheckCommand where
  query : QueryContext
  items : List BatchCheckItem
  nonempty : items ≠ []
  ids_nodup : (items.map BatchCheckItem.correlationId).Nodup

structure BatchCheckResult where
  correlationId : CorrelationId
  outcome : Evaluation

/-- What the evaluator is given besides the command. -/
structure CheckSetting where
  model : CompiledModel
  stored : List RelationshipTuple
  readFailure : ObjectRef → RelationName → Option StorageErrorKind
  budget : CheckBudget
  batchConcurrency : Limit 1000
  inputLimits : InputLimits

/-- The conditions of contextual tuples by key. -/
abbrev ContextualMap := ExtTreeMap TupleKey ConditionReference

def ContextualMap.insertAll (contextual : ContextualMap) (tuples : List RelationshipTuple) :
    ContextualMap :=
  tuples.foldl (fun contextual tuple => contextual.insert tuple.key tuple.condition) contextual

/-- The tuples of the index in the order of their keys, which groups them by object and
relation. -/
def ContextualIndex.ofMap (contextual : ContextualMap) : ContextualIndex where
  tuples := contextual.toList.map fun entry => ⟨entry.1, entry.2⟩
  keys_nodup := by
    have keys : (contextual.toList.map fun entry => (⟨entry.1, entry.2⟩ : RelationshipTuple)).map
        RelationshipTuple.key = contextual.keys := by
      rw [List.map_map, ← ExtTreeMap.map_fst_toList_eq_keys]
      rfl
    rw [keys]
    exact ExtTreeMap.nodup_keys

/-- Indexes the tuples of the query and those of an item; the item's prevail. -/
def ContextualIndex.new (base : ContextualTuples) (overlay : Option ContextualTuples) :
    ContextualIndex :=
  let tuples := ContextualMap.insertAll ∅ base.tuples
  .ofMap (overlay.elim tuples fun overlay => tuples.insertAll overlay.tuples)

def ContextualIndex.toContextualTuples (contextual : ContextualIndex) : ContextualTuples :=
  ⟨contextual.tuples, contextual.keys_nodup⟩

def ContextualTuples.new (contextual : ContextualTuples) (limits : InputLimits) :
    Except ValidationError ContextualTuples :=
  if limits.contextualTuples.get < contextual.tuples.length then
    .error ⟨"contextual_tuples", .tooManyItems⟩
  else .ok contextual

/-- Interrupted checks report one code each. -/
def canonicalizeCheckControlError (error : CheckError) : CheckError :=
  match error.kind with
  | .cancelled => { error with code := "check_cancelled" }
  | .timeout => { error with code := "check_deadline_elapsed" }
  | _ => error

namespace CheckSetting

variable (setting : CheckSetting)

def environment (contextual : ContextualIndex) (conditionContext : ConditionContext) :
    CheckEnvironment where
  model := setting.model
  stored := setting.stored
  readFailure := setting.readFailure
  contextual := contextual
  conditionContext := conditionContext
  budget := setting.budget

end CheckSetting

def QueryContext.rootInput (query : QueryContext) (tuple : TupleKey) : RootInput :=
  ⟨query.storeId, query.modelSelection, tuple⟩

/-- The environment of a single check. -/
def CheckCommand.environment (command : CheckCommand) (setting : CheckSetting) : CheckEnvironment :=
  setting.environment (.new command.query.contextualTuples none) command.query.conditionContext

def CheckCommand.input (command : CheckCommand) : RootInput :=
  command.query.rootInput command.tuple

/-- A check evaluated by itself. -/
def check (setting : CheckSetting) (schedule : Schedule) (command : CheckCommand) : Evaluation :=
  (evaluateRoot (command.environment setting) schedule command.input).mapError
    canonicalizeCheckControlError

section Batches

/-- An item that is evaluated, with its place. -/
structure BatchJob where
  index : Nat
  correlationId : CorrelationId
  input : RootInput
  contextual : ContextualIndex
  conditionContext : ConditionContext

/-- What a round of collecting meets. -/
inductive CollectEvent where
  | cancelled
  | deadline
  | taskFailed
  | joined (choice : Nat)

/-- The answers of the surroundings of a batch, by round and by item. -/
structure BatchSchedule where
  collect : Nat → CollectEvent
  item : Nat → Schedule

/-- Jobs to start, jobs that run, results by place. -/
structure BatchRun where
  jobs : List BatchJob
  pending : List BatchJob
  results : List (Option BatchCheckResult)

variable (setting : CheckSetting) (schedule : BatchSchedule)

/-- Jobs for the items whose context passes the limits, and results for the others. -/
def prepareItems (query : QueryContext) : Nat → List BatchCheckItem →
    List BatchJob × List (Option BatchCheckResult)
  | _, [] => ([], [])
  | index, item :: items =>
      let rest := prepareItems query (index + 1) items
      match query.conditionContext.overlay item.conditionContext setting.inputLimits with
      | .error _ =>
          let invalid : CheckError := .new .invalidTuple "batch_condition_context_invalid"
          (rest.1, some ⟨item.correlationId, .error invalid⟩ :: rest.2)
      | .ok conditionContext =>
          let job : BatchJob :=
            { index
              correlationId := item.correlationId
              input := query.rootInput item.tuple
              contextual := .new query.contextualTuples (some item.contextualTuples)
              conditionContext }
          (job :: rest.1, none :: rest.2)

def prepareBatch (command : BatchCheckCommand) : Except CheckError BatchRun := do
  -- the identity does not look at the asked tuple
  validateModelIdentity (command.query.rootInput (command.items.head command.nonempty).tuple)
    setting.model
  let prepared := prepareItems setting command.query 0 command.items
  .ok ⟨prepared.1, [], prepared.2⟩

/-- The result of a job that is given its surroundings. -/
def BatchJob.result (job : BatchJob) : BatchCheckResult :=
  ⟨job.correlationId, evaluateRoot (setting.environment job.contextual job.conditionContext)
    (schedule.item job.index) job.input⟩

/-- Starts jobs while there is room for another one. -/
def fill (width : Nat) : List BatchJob → List BatchJob → List BatchJob × List BatchJob
  | pending, [] => (pending, [])
  | pending, job :: jobs =>
      if pending.length < width then fill width (pending ++ [job]) jobs
      else (pending, job :: jobs)

def collectBatchResult (round : Nat) (s : BatchRun) : Except CheckError BatchRun :=
  if s.pending.isEmpty then .ok s
  else
    match schedule.collect round with
    | .cancelled => .error (.cancelled "batch_cancelled")
    | .deadline => .error (.timedOut "batch_deadline_elapsed")
    | .taskFailed => .error (.internal "batch_item_task_failed")
    | .joined choice =>
        match JoinSet.joinNext s.pending choice with
        | none => .ok s
        | some (job, pending) =>
            if job.index < s.results.length then
              .ok { s with
                pending
                results := s.results.set job.index (some (job.result setting schedule)) }
            else .error (.internal "batch_result_index_invalid")

/-- The rounds of a batch. One job is collected in each, so that their number bounds them. -/
def runRounds : Nat → Nat → BatchRun → Except CheckError BatchRun
  | 0, _, s => .ok s
  | fuel + 1, round, s => do
      if s.jobs.isEmpty && s.pending.isEmpty then .ok s
      else
        let (pending, jobs) := fill setting.batchConcurrency.get s.pending s.jobs
        let s ← collectBatchResult setting schedule round { s with pending, jobs }
        runRounds fuel (round + 1) s

/-- The results in the order of the items, if none is missing. -/
def orderedResults : List (Option BatchCheckResult) → Except CheckError (List BatchCheckResult)
  | [] => .ok []
  | result :: results => do
      let result ← orError result (.internal "batch_result_missing")
      let results ← orderedResults results
      .ok (result :: results)

def runBatch (fuel : Nat) (s : BatchRun) : Except CheckError (List BatchCheckResult) := do
  let s ← runRounds setting schedule fuel 0 s
  orderedResults s.results

/-- A batch evaluated without a cache. -/
def batchCheck (command : BatchCheckCommand) : Except CheckError (List BatchCheckResult) := do
  let prepared ← prepareBatch setting command
  runBatch setting schedule prepared.jobs.length prepared

end Batches

section Cached

/-- A cache of decisions as one evaluator uses it: its digests, the identity of its model
and the answers to its lookups, one after another. -/
structure DecisionCache where
  sha256 : List UInt8 → Fingerprint
  hmac : List UInt8 → Fingerprint
  identity : Cache.ModelIdentity
  get : Nat → Cache.DecisionKey → Option Bool

def evaluatorSemanticsVersion : UInt32 := 1

def CheckCommand.identified (command : CheckCommand) : Cache.CheckCommand where
  storeId := command.query.storeId
  tuple := command.tuple
  contextualTuples := command.query.contextualTuples
  conditionContext := command.query.conditionContext

def DecisionCache.key (cache : DecisionCache) (command : CheckCommand) : Cache.DecisionKey :=
  .forCheck cache.sha256 cache.hmac command.identified cache.identity evaluatorSemanticsVersion

variable (setting : CheckSetting) (schedule : BatchSchedule) (cache : DecisionCache)

/-- The key of an item, if the contexts it is asked in pass the limits. -/
def batchDecisionKey (query : QueryContext) (item : BatchCheckItem) : Option Cache.DecisionKey :=
  match query.conditionContext.overlay item.conditionContext setting.inputLimits with
  | .error _ => none
  | .ok conditionContext =>
      let contextual :=
        ContextualIndex.new query.contextualTuples (some item.contextualTuples)
      match ContextualTuples.new contextual.toContextualTuples setting.inputLimits with
      | .error _ => none
      | .ok contextualTuples =>
          some (cache.key ⟨{ query with contextualTuples, conditionContext }, item.tuple⟩)

/-- The decisions found, if there is one for every key. -/
def cachedDecisions : Nat → List (Option Cache.DecisionKey) → Option (List Bool)
  | _, [] => some []
  | lookup, key :: keys => do
      let key ← key
      let allowed ← cache.get lookup key
      let decisions ← cachedDecisions (lookup + 1) keys
      some (allowed :: decisions)

def cachedOutcome (allowed : Bool) : Decision := ⟨allowed, .cached⟩

/-- The results made of the decisions found. -/
def cachedResults (items : List BatchCheckItem) (decisions : List Bool) : List BatchCheckResult :=
  List.zipWith (fun item allowed => ⟨item.correlationId, .ok (cachedOutcome allowed)⟩)
    items decisions

/-- A batch evaluated with a cache. -/
def cachedBatchCheck (command : BatchCheckCommand) : Except CheckError (List BatchCheckResult) :=
  if command.query.consistency = .higherConsistency then batchCheck setting schedule command
  else
    let keys := command.items.map (batchDecisionKey setting cache command.query)
    match cachedDecisions cache 0 keys with
    | some decisions => .ok (cachedResults command.items decisions)
    | none => batchCheck setting schedule command

end Cached

/-- The check that asks for one item alone: in the contexts of the query and the item. -/
def BatchCheckCommand.single (command : BatchCheckCommand) (item : BatchCheckItem) :
    CheckCommand where
  query :=
    { command.query with
      contextualTuples := (ContextualIndex.new command.query.contextualTuples
        (some item.contextualTuples)).toContextualTuples
      conditionContext :=
        .ofMap (command.query.conditionContext.merged item.conditionContext) }
  tuple := item.tuple

/-- What a caller sees of an outcome. -/
def Evaluation.reported : Evaluation → Except (CheckErrorKind × String) Bool
  | .ok decision => .ok decision.allowed
  | .error error => .error (error.kind, error.code)

@[simp] theorem Evaluation.reported_ok (decision : Decision) :
    reported (.ok decision) = .ok decision.allowed := rfl

@[simp] theorem Evaluation.reported_error (error : CheckError) :
    reported (.error error) = .error (error.kind, error.code) := rfl

end OpenFga
