import OpenFga.Cache.DecisionKey
import OpenFga.Check.Outcome
import OpenFga.Lib.Machine

/-!
# Coalesced checks

Identical checks that run at the same time share one evaluation. The first of them leads
it inside the in-flight map; the others wait for its value. The map keeps the value once
it is there, and every participant removes it when it has received it. The map is taken
by its contract: one initialiser at a time for a key, a value is seen by everybody as
soon as its initialiser ends, and a waiter tries again when the initialiser is dropped.

A check may be dropped at any of its awaits, and a value evicted at any moment. What an
evaluation answers is not modelled: it ends with any result. An evaluation is recorded
with its owner and the times at which it began and ended, and a check with the time it
began; these, and the evaluation a shared value comes from, are instrumentation.
-/

namespace OpenFga.Coalescing

abbrev Result := Except CheckError Decision

def enabledVerificationSampleInterval : Nat := 64

/-- Shadowed checks are compared and not used. -/
inductive Mode where
  | disabled
  | shadow
  | enabled
  deriving DecidableEq, Repr

structure BudgetKey where
  depth : Nat
  dispatches : Nat
  datastoreQueries : Nat
  tupleItems : Nat
  conditionCost : Nat
  concurrentReads : Nat
  deriving DecidableEq, Repr

def BudgetKey.ofBudget (budget : CheckBudget) : BudgetKey :=
  ⟨budget.maximumDepth, budget.maximumDispatches, budget.maximumDatastoreQueries,
    budget.maximumTupleItems, budget.maximumConditionCost, budget.maximumConcurrentReads⟩

/-- Checks with the same key are evaluated once. -/
structure CoalescingKey where
  decision : Cache.DecisionKey
  budget : BudgetKey
  tupleSource : Nat
  generation : UInt64
  deriving DecidableEq, Repr

/-- A tuple reader. Its address can be taken by another one after it is gone. -/
structure Reader where
  id : Nat
  address : Nat
  deriving DecidableEq, Repr

/-- What a caller hands to a check. -/
structure CheckCall where
  decision : Cache.DecisionKey
  budget : CheckBudget
  reader : Reader
  higherConsistency : Bool
  metered : Bool

def CoalescingKey.new (call : CheckCall) (generation : UInt64) : CoalescingKey :=
  ⟨call.decision, .ofBudget call.budget, call.reader.address, generation⟩

/-- What a leader publishes. -/
inductive SharedEvaluation where
  | outcome (decision : Decision)
  | error
  deriving DecidableEq, Repr

/-- Errors are not shared. -/
def SharedEvaluation.ofResult : Result → SharedEvaluation
  | .ok decision => .outcome decision
  | .error _ => .error

/-- What the comparison of a shadowed check looks at. -/
def equivalent : Result → Result → Bool
  | .ok oracle, .ok candidate => decide (oracle.allowed = candidate.allowed)
  | .error oracle, .error candidate =>
      decide (oracle.kind = candidate.kind ∧ oracle.code = candidate.code)
  | _, _ => false

/-- What an evaluation is for: the permanent evaluator, the in-flight map, or a check
that goes its own way after coalescing. -/
inductive Role where
  | oracle
  | shared
  | own
  deriving DecidableEq, Repr

/-- How far an evaluation is. -/
inductive Progress where
  | running
  | ended (time : Nat) (result : Result)
  | abandoned

/-- A run of the evaluator, for its owner. -/
structure Evaluation where
  owner : Nat
  role : Role
  key : CoalescingKey
  reader : Nat
  started : Nat
  progress : Progress

inductive OracleStage where
  | running (evaluation : Nat)
  | finished (result : Result)

/-- Where a coalesced check stands. -/
inductive Stage where
  | starting
  | entering
  | leading (evaluation : Nat)
  | waiting (evaluation : Nat)
  | holding (value : SharedEvaluation) (source : Nat)
  | checking (value : SharedEvaluation) (source : Nat)
  | retrying (evaluation : Nat)
  | finished (result : Result)

/-- The coalesced part of a request. -/
structure Candidate where
  key : CoalescingKey
  ownError : Option CheckError
  stage : Stage

inductive Ending where
  | returned (time : Nat) (result : Result)
  | dropped

/-- A check: its oracle, its candidate and its end. -/
structure Request where
  key : CoalescingKey
  reader : Nat
  begun : Nat
  oracle : Option OracleStage
  candidate : Option Candidate
  ending : Option Ending

/-- The in-flight map and all who have used it. -/
structure World where
  mode : Mode
  killed : Bool
  sequence : Nat
  generation : UInt64
  clock : Nat
  evaluations : List Evaluation
  completed : CoalescingKey → Option (SharedEvaluation × Nat)
  requests : List Request

def World.start (mode : Mode) : World :=
  ⟨mode, false, 0, 0, 0, [], fun _ => none, []⟩

/-- What a request does next. -/
inductive Move where
  | capture
  | enter
  | receive
  | remove
  | interrupt
  | resolve (interrupted : Bool)
  | finishOracle (result : Result)
  | finishCandidate (result : Result)
  | join
  | drop

inductive Action where
  | invalidate
  | disable
  | evict (key : CoalescingKey)
  | spawn (call : CheckCall)
  | request (index : Nat) (move : Move)

def Request.live (request : Request) : Bool := request.ending.isNone

namespace World

variable (w : World)

section Evaluations

variable (owner : Nat) (role : Role)

/-- Begins an evaluation; its index is the number of those before it. -/
def launch (key : CoalescingKey) (reader : Nat) : World :=
  { w with evaluations := w.evaluations ++ [⟨owner, role, key, reader, w.clock, .running⟩] }

def conclude (evaluation : Nat) (result : Result) : World :=
  { w with evaluations := w.evaluations.modify evaluation fun e =>
      { e with progress := .ended w.clock result } }

/-- Drops the futures of running evaluations. -/
def abandon (dropped : Evaluation → Bool) : World :=
  { w with evaluations := w.evaluations.map fun e =>
      match e.progress with
      | .running => if dropped e then { e with progress := .abandoned } else e
      | _ => e }

/-- The evaluation that leads a key, if one is running. -/
def flight (key : CoalescingKey) : Option Nat :=
  w.evaluations.findIdx? fun e =>
    match e.role, e.progress with
    | .shared, .running => decide (e.key = key)
    | _, _ => false

end Evaluations

def bypasses (call : CheckCall) : Bool :=
  decide (w.mode = .disabled) || w.killed || call.higherConsistency || call.metered

/-- Whether the permanent evaluator runs along. -/
def verifies : Bool :=
  decide (w.mode = .shadow) || decide (w.sequence % enabledVerificationSampleInterval = 0)

def spawn (call : CheckCall) : World :=
  let key := CoalescingKey.new call w.generation
  let index := w.requests.length
  let oracle := some (OracleStage.running w.evaluations.length)
  let request (oracle : Option OracleStage) (candidate : Option Candidate) : Request :=
    ⟨key, call.reader.id, w.clock, oracle, candidate, none⟩
  if w.bypasses call then
    { w.launch index .oracle key call.reader.id with
      requests := w.requests ++ [request oracle none] }
  else
    let sequence := if w.mode = .enabled then w.sequence + 1 else w.sequence
    if w.verifies then
      { w.launch index .oracle key call.reader.id with
        sequence
        requests := w.requests ++ [request oracle (some ⟨key, none, .starting⟩)] }
    else
      { w with
        sequence
        requests := w.requests ++ [request none (some ⟨key, none, .entering⟩)] }

section Moves

variable (index : Nat) (request : Request)

def put : World :=
  { w with requests := w.requests.set index request }

section

variable (candidate : Candidate)

/-- Goes on with the coalesced part of a request. -/
def goTo (stage : Stage) : World :=
  w.put index { request with candidate := some { candidate with stage } }

/-- Leaves the shared path for an evaluation of the request's own. -/
def retry : World :=
  (w.launch index .own candidate.key request.reader).goTo index request candidate
    (.retrying w.evaluations.length)

/-- Looks the key up in the in-flight map, or leads it. -/
def enter : World :=
  match w.completed candidate.key with
  | some (value, source) => w.goTo index request candidate (.holding value source)
  | none =>
      match w.flight candidate.key with
      | some evaluation => w.goTo index request candidate (.waiting evaluation)
      | none =>
          (w.launch index .shared candidate.key request.reader).goTo index request candidate
            (.leading w.evaluations.length)

/-- The leader's evaluation ends: its value is in the map at once. -/
def publish (evaluation : Nat) (result : Result) : World :=
  let value := SharedEvaluation.ofResult result
  let ownError :=
    match result with
    | .ok _ => none
    | .error error => some error
  { w.conclude evaluation result with
    completed := Function.update w.completed candidate.key (some (value, evaluation)) }.goTo
      index request { candidate with ownError } (.holding value evaluation)

/-- The request's own evaluation ends, and with it the future of the map's entry. -/
def settle (evaluation : Nat) (result : Result) : World :=
  ((w.conclude evaluation result).abandon fun e =>
    decide (e.owner = index ∧ e.role = .shared)).goTo index request candidate (.finished result)

/-- Takes what was shared, after it is out of the map. -/
def resolve (value : SharedEvaluation) : World :=
  match value with
  | .outcome decision => w.goTo index request candidate (.finished (.ok decision))
  | .error =>
      match candidate.ownError with
      | some error =>
          w.goTo index request { candidate with ownError := none } (.finished (.error error))
      | none => w.retry index request candidate

def moveCandidate : Move → Option World
  | .capture =>
      match candidate.stage with
      | .starting =>
          let key := { candidate.key with generation := w.generation }
          some (w.goTo index request { candidate with key } .entering)
      | _ => none
  | .enter =>
      match candidate.stage with
      | .entering => some (w.enter index request candidate)
      | _ => none
  | .receive =>
      match candidate.stage with
      | .waiting evaluation =>
          match w.evaluations[evaluation]? with
          | some e =>
              match e.progress with
              | .ended _ result =>
                  some (w.goTo index request candidate (.holding (.ofResult result) evaluation))
              | .abandoned => some (w.goTo index request candidate .entering)
              | .running => none
          | none => none
      | _ => none
  | .interrupt =>
      match candidate.stage with
      | .entering => some (w.retry index request candidate)
      | .leading _ => some (w.retry index request candidate)
      | .waiting _ => some (w.retry index request candidate)
      | _ => none
  | .remove =>
      match candidate.stage with
      | .holding value source =>
          some ({ w with completed := Function.update w.completed candidate.key none }.goTo
            index request candidate (.checking value source))
      | _ => none
  | .resolve interrupted =>
      match candidate.stage with
      | .checking value _ =>
          if interrupted then some (w.retry index request candidate)
          else some (w.resolve index request candidate value)
      | _ => none
  | .finishCandidate result =>
      match candidate.stage with
      | .leading evaluation => some (w.publish index request candidate evaluation result)
      | .retrying evaluation => some (w.settle index request candidate evaluation result)
      | _ => none
  | _ => none

end

def finishOracle (result : Result) : Option World :=
  match request.oracle with
  | some (.running evaluation) =>
      some ((w.conclude evaluation result).put index
        { request with oracle := some (.finished result) })
  | _ => none

/-- Compares the two results unless an invalidation came between, and may kill. -/
def compareAndMaybeKill (oracle candidate : Result) : World :=
  if w.generation = request.key.generation && !equivalent oracle candidate then
    { w with killed := true }
  else w

/-- The request ends; whatever it still runs is dropped with it. -/
def finish (ending : Ending) : World :=
  (w.abandon fun e => decide (e.owner = index)).put index { request with ending := some ending }

def answer (result : Result) : World :=
  w.finish index request (.returned w.clock result)

/-- A request is answered by its oracle, if it has one. -/
def join : Option World :=
  match request.oracle, request.candidate with
  | some (.finished oracle), none => some (w.answer index request oracle)
  | none, some ⟨_, _, .finished candidate⟩ => some (w.answer index request candidate)
  | some (.finished oracle), some ⟨_, _, .finished candidate⟩ =>
      some ((w.compareAndMaybeKill request oracle candidate).answer index request oracle)
  | _, _ => none

def move : Move → Option World
  | .finishOracle result => w.finishOracle index request result
  | .join => w.join index request
  | .drop => some (w.finish index request .dropped)
  | other => request.candidate.bind fun candidate => w.moveCandidate index request candidate other

end Moves

/-- No other reader lies at the address while a request still holds one there. -/
def fresh (reader : Reader) : Bool :=
  w.requests.all fun request =>
    !request.live || decide (request.key.tupleSource = reader.address → request.reader = reader.id)

def act : Action → Option World
  | .invalidate => some { w with generation := w.generation + 1 }
  | .disable => some { w with killed := true }
  | .evict key => some { w with completed := Function.update w.completed key none }
  | .spawn call => if w.fresh call.reader then some (w.spawn call) else none
  | .request index move =>
      w.requests[index]?.bind fun request =>
        if request.live then w.move index request move else none

/-- Every action takes one unit of time. -/
def step (action : Action) : Option World :=
  (w.act action).map fun next => { next with clock := next.clock + 1 }

end World

end OpenFga.Coalescing
