import OpenFga.Dynamo.Ledger
import OpenFga.Lib.Machine

/-!
# Concurrent writers

Any number of calls run against one table. A call that writes tuples reads the items of its
tuples one by one, plans, reads the head of the changes, sends its transaction and waits; if
it is told that a condition has failed, it starts over with a new time. A call that reads given
tuples reads their items in the same way. Between any two steps of a call others may take
theirs, and a call may stop for good at any point.

A transaction that was sent can arrive at any later time and more than once, also after its
sender has given up. The service applies it if its token was not applied before and all its
conditions hold. The log of each store is kept beside the table, as what was committed.
-/

namespace OpenFga.Dynamo

open Transaction Option

/-- The limits that a backend is configured with. -/
structure WriteLimits where
  maximumTupleMutations : Nat
  maximumConflictRetries : Nat
  retriesPositive : 0 < maximumConflictRetries

/-- A read of given tuples. -/
structure ExactQuery where
  storeId : StoreId
  keys : List TupleKey
  conditions : ConditionFilter
  options : ReadOptions
  canonical : ∀ key ∈ keys, key.Canonical
  distinct : keys.Nodup

/-- A transaction that was sent, and the changes it makes. -/
structure Request where
  token : Nat
  storeId : StoreId
  actions : List Action
  changes : List TupleChange

/-- What items are read for. A write knows how often it may still start over. -/
inductive Task where
  | write (mutation : DistinctMutation) (timestamp : SystemTime) (retries : Nat)
  | exact (query : ExactQuery)
  | single (storeId : StoreId) (key : TupleKey) (canonical : key.Canonical)

/-- The state of a call. -/
inductive Process where
  | idle
  | reading (task : Task) (pending : List PhysicalKey) (states : States)
  | allocating (mutation : DistinctMutation) (timestamp : SystemTime) (retries : Nat)
      (plans : List PairPlan)
  | waiting (mutation : DistinctMutation) (retries token : Nat) (ids : List ChangeId)
  | written (result : Except StorageError MutationOutcome)
  | answered (result : Except StorageError (List RelationshipTuple))
  | answeredSingle (result : Except StorageError StoredTuple)

/-- Why the service cancels an action of a transaction. -/
inductive CancellationReason where
  | none
  | conditionalCheckFailed
  | transactionConflict
  | provisionedThroughputExceeded
  | throttlingError
  | itemCollectionSizeLimitExceeded
  | validationError
  | other
  deriving DecidableEq

/-- The kind that a cancelled transaction is reported with. -/
def classifyCancellationReasons (conflict : Bool) : List CancellationReason → StorageErrorKind
  | [] => if conflict then .conflict else .internal
  | .none :: reasons => classifyCancellationReasons conflict reasons
  | .conditionalCheckFailed :: reasons => classifyCancellationReasons true reasons
  | .transactionConflict :: reasons => classifyCancellationReasons true reasons
  | .provisionedThroughputExceeded :: _ => .unavailable
  | .throttlingError :: _ => .unavailable
  | .itemCollectionSizeLimitExceeded :: _ => .integrity
  | .validationError :: _ => .integrity
  | .other :: _ => .internal

/-- A step of a call. What the clock, the random source and the service decide is part of it. -/
inductive Move where
  | write (mutation : Mutation) (timestamp : SystemTime)
  | readExact (query : ExactQuery)
  | readSingle (storeId : StoreId) (key : TupleKey) (canonical : key.Canonical)
  | get (place : PhysicalKey)
  | plan (token : Nat)
  | allocate (now : SystemTime) (random token : Nat)
  | acknowledge
  | refuse (reasons : List CancellationReason) (timestamp : SystemTime)
  | answer
  | fail (error : StorageError)

section Calls

variable (serde : Serde TupleEnvelope) (sha256 : Bytes → Bytes) (limits : WriteLimits)

/-- The items of some tuples. -/
def placesOf (storeId : StoreId) (keys : List TupleKey) :
    Except StorageError (List PhysicalKey) := do
  let physical ← keys.mapM (tupleKeys sha256 storeId)
  .ok (physical.flatMap fun keys => [keys.forward, keys.reverse])

/-- Starts an attempt to write. -/
def attempt (mutation : DistinctMutation) (timestamp : SystemTime) (retries : Nat) : Process :=
  match placesOf sha256 mutation.storeId mutation.keys with
  | .error error => .written (.error error)
  | .ok places => .reading (.write mutation timestamp retries) places fun _ => none

def startWrite (mutation : Mutation) (timestamp : SystemTime) : Process :=
  match validateMutation limits.maximumTupleMutations mutation with
  | .error error => .written (.error error)
  | .ok mutation => attempt sha256 mutation timestamp (limits.maximumConflictRetries - 1)

def startExact (query : ExactQuery) : Process :=
  if snapshotEvaluationBudget query.options < query.keys.length then
    .answered (.error (exhausted "dynamodb_snapshot_evaluation_limit"))
  else
    match placesOf sha256 query.storeId query.keys with
    | .error error => .answered (.error error)
    | .ok places => .reading (.exact query) places fun _ => none

def startSingle (storeId : StoreId) (key : TupleKey) (canonical : key.Canonical) : Process :=
  match tupleKeys sha256 storeId key with
  | .error error => .answeredSingle (.error error)
  | .ok keys => .reading (.single storeId key canonical) [keys.forward] fun _ => none

section

variable (mutation : DistinctMutation)

/-- Plans a write when all items are read. Without a change there is no need for the head. -/
def planOf (timestamp : SystemTime) (retries : Nat)
    (states : States) (token : Nat) : Process × List Request :=
  match planMutation serde sha256 states timestamp mutation.toMutation with
  | .error error => (.written (.error error), [])
  | .ok plans =>
      if (plannedChanges plans).isEmpty then
        if (plannedActions plans).isEmpty then (.written (.ok ⟨[]⟩), [])
        else
          (.waiting mutation retries token [],
            [⟨token, mutation.storeId, plannedActions plans, []⟩])
      else (.allocating mutation timestamp retries plans, [])

/-- Sends the transaction of a write that changes something. -/
def requestOf (timestamp : SystemTime) (retries : Nat)
    (plans : List PairPlan) (head : Option Item) (now : SystemTime) (random token : Nat) :
    Process × List Request :=
  match changeTransaction serde sha256 mutation.storeId timestamp plans head now random with
  | .error error => (.written (.error error), [])
  | .ok (actions, changes) =>
      (.waiting mutation retries token (changes.map TupleChange.id),
        [⟨token, mutation.storeId, actions, changes⟩])

/-- Starts over after a failed condition, if that is allowed again. -/
def retryOf (retries : Nat) (timestamp : SystemTime) : Process :=
  match retries with
  | 0 => .written (.error (.new .conflict "dynamodb_mutation_retry_exhausted"))
  | retries + 1 => attempt sha256 mutation timestamp retries

/-- A cancelled transaction is tried again after a conflict and reported otherwise. -/
def refusalOf (retries : Nat) (reasons : List CancellationReason)
    (timestamp : SystemTime) : Process :=
  match classifyCancellationReasons false reasons with
  | .conflict => retryOf sha256 mutation retries timestamp
  | kind => .written (.error (.new kind "dynamodb_transaction_failed"))

end

def readSingle (states : States) (storeId : StoreId) (key : TupleKey) :
    Except StorageError StoredTuple := do
  let keys ← tupleKeys sha256 storeId key
  let item ← orError (states keys.forward) (.new .notFound "tuple_not_found")
  requireTupleIdentity serde sha256 item key

def answerOf (states : States) : Task → Option Process
  | .write _ _ _ => none
  | .exact query => some (.answered (readExactTupleKeys serde sha256 states query.storeId query.keys
      query.conditions query.options))
  | .single storeId key _ => some (.answeredSingle (readSingle serde sha256 states storeId key))

/-- A call that ends with an error of a request, of its caller or of a size limit. -/
def failureOf (error : StorageError) : Process → Option Process
  | .reading (.write _ _ _) _ _ => some (.written (.error error))
  | .reading (.exact _) _ _ => some (.answered (.error error))
  | .reading (.single _ _ _) _ _ => some (.answeredSingle (.error error))
  | .allocating _ _ _ _ => some (.written (.error error))
  | .waiting _ _ _ _ => some (.written (.error error))
  | _ => none

/-- One step of a call: its next state and what it sends. -/
def Process.step (table : Table) (applied : List Nat) (process : Process) :
    Move → Option (Process × List Request)
  | .write mutation timestamp =>
      match process with
      | .idle => some (startWrite sha256 limits mutation timestamp, [])
      | _ => none
  | .readExact query =>
      match process with
      | .idle => some (startExact sha256 query, [])
      | _ => none
  | .readSingle storeId key canonical =>
      match process with
      | .idle => some (startSingle sha256 storeId key canonical, [])
      | _ => none
  | .get place =>
      match process with
      | .reading task pending states =>
          if place ∈ pending then
            some (.reading task (pending.erase place)
              (Function.update states place (table.get place)), [])
          else none
      | _ => none
  | .plan token =>
      match process with
      | .reading (.write mutation timestamp retries) [] states =>
          some (planOf serde sha256 mutation timestamp retries states token)
      | .reading _ (_ :: _) _ | _ => none
  | .allocate now random token =>
      match process with
      | .allocating mutation timestamp retries plans =>
          some (requestOf serde sha256 mutation timestamp retries plans
            (table.get (headKey mutation.storeId)) now random token)
      | _ => none
  | .acknowledge =>
      match process with
      | .waiting _ _ token ids =>
          if token ∈ applied then some (.written (.ok ⟨ids⟩), []) else none
      | _ => none
  | .refuse reasons timestamp =>
      match process with
      | .waiting mutation retries token _ =>
          if token ∈ applied then none
          else some (refusalOf sha256 mutation retries reasons timestamp, [])
      | _ => none
  | .answer =>
      match process with
      | .reading task [] states => (answerOf serde sha256 states task).map fun next => (next, [])
      | .reading _ (_ :: _) _ | _ => none
  -- Only a cancelled transaction is reported as corruption by the service.
  | .fail error =>
      if error.kind = .integrity then none
      else (failureOf error process).map fun next => (next, [])

end Calls

/-- The table, the transactions that were sent and applied, and the calls. -/
structure World where
  table : Table
  sent : List Request
  applied : List Nat
  log : Log
  calls : Nat → Process

def World.initial : World := ⟨fun _ => ∅, [], [], fun _ => [], fun _ => .idle⟩

/-- A call moves, or a transaction arrives. -/
inductive Event where
  | move (call : Nat) (move : Move)
  | deliver (index : Nat)

section Steps

variable (serde : Serde TupleEnvelope) (sha256 : Bytes → Bytes) (limits : WriteLimits)

/-- The service applies a transaction. -/
def World.apply (world : World) (request : Request) : Option World :=
  if request.token ∈ world.applied then none
  else if Admitted world.table.get request.actions then
    some { world with
      table := world.table.commit request.actions
      applied := request.token :: world.applied
      log := world.log.append request.storeId request.changes }
  else none

/-- A call moves, or the service applies a transaction. -/
def World.step (world : World) : Event → Option World
  | .move call move => do
      let (next, sent) ←
        (world.calls call).step serde sha256 limits world.table world.applied move
      some { world with
        calls := Function.update world.calls call next
        sent := world.sent ++ sent }
  | .deliver index => do
      let request ← world.sent[index]?
      world.apply request

end Steps

section Inversion

variable {serde : Serde TupleEnvelope} {sha256 : Bytes → Bytes} {limits : WriteLimits}
  {table : Table} {applied : List Nat}

/-- The steps that a call can take. -/
inductive Process.Steps (serde : Serde TupleEnvelope) (sha256 : Bytes → Bytes)
    (limits : WriteLimits) (table : Table) (applied : List Nat) :
    Process → Move → Process → List Request → Prop where
  | write (mutation : Mutation) (timestamp : SystemTime) :
      Steps serde sha256 limits table applied .idle (.write mutation timestamp)
        (startWrite sha256 limits mutation timestamp) []
  | readExact (query : ExactQuery) :
      Steps serde sha256 limits table applied .idle (.readExact query) (startExact sha256 query) []
  | readSingle (storeId : StoreId) (key : TupleKey) (canonical : key.Canonical) :
      Steps serde sha256 limits table applied .idle (.readSingle storeId key canonical)
        (startSingle sha256 storeId key canonical) []
  | get (task : Task) (pending : List PhysicalKey) (states : States) (place : PhysicalKey)
      (asked : place ∈ pending) :
      Steps serde sha256 limits table applied (.reading task pending states) (.get place)
        (.reading task (pending.erase place) (Function.update states place (table.get place))) []
  | plan (mutation : DistinctMutation) (timestamp : SystemTime) (retries : Nat)
      (states : States) (token : Nat) {next : Process} {sent : List Request}
      (result : planOf serde sha256 mutation timestamp retries states token = (next, sent)) :
      Steps serde sha256 limits table applied
        (.reading (.write mutation timestamp retries) [] states) (.plan token) next sent
  | allocate (mutation : DistinctMutation) (timestamp : SystemTime) (retries : Nat)
      (plans : List PairPlan) (now : SystemTime) (random token : Nat) {next : Process}
      {sent : List Request}
      (result : requestOf serde sha256 mutation timestamp retries plans
        (table.get (headKey mutation.storeId)) now random token = (next, sent)) :
      Steps serde sha256 limits table applied (.allocating mutation timestamp retries plans)
        (.allocate now random token) next sent
  | acknowledge (mutation : DistinctMutation) (retries token : Nat) (ids : List ChangeId)
      (done : token ∈ applied) :
      Steps serde sha256 limits table applied (.waiting mutation retries token ids) .acknowledge
        (.written (.ok ⟨ids⟩)) []
  | refuse (mutation : DistinctMutation) (retries token : Nat) (ids : List ChangeId)
      (reasons : List CancellationReason) (timestamp : SystemTime) :
      Steps serde sha256 limits table applied (.waiting mutation retries token ids)
        (.refuse reasons timestamp) (refusalOf sha256 mutation retries reasons timestamp) []
  | answer (task : Task) (states : States) {next : Process}
      (result : answerOf serde sha256 states task = some next) :
      Steps serde sha256 limits table applied (.reading task [] states) .answer next []
  | fail (process : Process) (error : StorageError) {next : Process}
      (intact : error.kind ≠ .integrity) (result : failureOf error process = some next) :
      Steps serde sha256 limits table applied process (.fail error) next []

theorem Process.steps_of_step {process next : Process} {move : Move} {sent : List Request}
    (moved : process.step serde sha256 limits table applied move = some (next, sent)) :
    Steps serde sha256 limits table applied process move next sent := by
  cases move with
  | write mutation timestamp =>
    simp only [step] at moved
    split at moved
    · cases moved
      exact .write mutation timestamp
    · cases moved
  | readExact query =>
    simp only [step] at moved
    split at moved
    · cases moved
      exact .readExact query
    · cases moved
  | readSingle storeId key canonical =>
    simp only [step] at moved
    split at moved
    · cases moved
      exact .readSingle storeId key canonical
    · cases moved
  | get place =>
    simp only [step] at moved
    split at moved
    · split at moved
      · rename_i asked
        cases moved
        exact .get _ _ _ place asked
      · cases moved
    · cases moved
  | plan token =>
    simp only [step] at moved
    split at moved
    · exact .plan _ _ _ _ token (some.inj moved)
    · cases moved
    · cases moved
  | allocate now random token =>
    simp only [step] at moved
    split at moved
    · exact .allocate _ _ _ _ now random token (some.inj moved)
    · cases moved
  | acknowledge =>
    simp only [step] at moved
    split at moved
    · split at moved
      · rename_i done
        cases moved
        exact .acknowledge _ _ _ _ done
      · cases moved
    · cases moved
  | refuse reasons timestamp =>
    simp only [step] at moved
    split at moved
    · split at moved
      · cases moved
      · cases moved
        exact .refuse _ _ _ _ reasons timestamp
    · cases moved
  | answer =>
    simp only [step] at moved
    split at moved
    · obtain ⟨_, result, same⟩ := map_eq_some_iff.mp moved
      cases same
      exact .answer _ _ result
    · cases moved
    · cases moved
  | fail error =>
    obtain ⟨intact, moved⟩ := ite_none_left_eq_some.mp moved
    obtain ⟨_, result, same⟩ := map_eq_some_iff.mp moved
    cases same
    exact .fail process error intact result

/-- A step of the world is a step of a call or the effect of a transaction. -/
theorem World.step_cases {world next : World} {event : Event}
    (moved : world.step serde sha256 limits event = some next) :
    (∃ call move process sent, event = .move call move ∧
      Process.Steps serde sha256 limits world.table world.applied (world.calls call) move process
        sent ∧
      next = { world with
        calls := Function.update world.calls call process
        sent := world.sent ++ sent }) ∨
    ∃ index request, event = .deliver index ∧ world.sent[index]? = some request ∧
      request.token ∉ world.applied ∧ Admitted world.table.get request.actions ∧
      next = { world with
        table := world.table.commit request.actions
        applied := request.token :: world.applied
        log := world.log.append request.storeId request.changes } := by
  cases event with
  | move call move =>
    obtain ⟨⟨process, sent⟩, stepped, moved⟩ := bind_eq_some_iff.mp moved
    cases moved
    exact .inl ⟨call, move, process, sent, rfl, Process.steps_of_step stepped, rfl⟩
  | deliver index =>
    obtain ⟨request, listed, moved⟩ := bind_eq_some_iff.mp moved
    obtain ⟨fresh, moved⟩ := ite_none_left_eq_some.mp moved
    split at moved
    · rename_i admitted
      cases moved
      exact .inr ⟨index, request, rfl, listed, fresh, admitted, rfl⟩
    · cases moved

end Inversion

end OpenFga.Dynamo
