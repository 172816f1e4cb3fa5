import Mathlib.Data.Finset.Sort
import Mathlib.Data.Prod.Lex
import Mathlib.Data.String.Basic
import OpenFga.List.Common
import OpenFga.List.SymbolicSet

/-!
# Listing users

The forward expansion of an object and relation into the set of its subjects. A
relation is expanded once on each branch; re-entering it gives the empty set and
marks the expansion as cyclic. The mark travels through userset rows and computed
relations only, and a difference whose subtracted operand carries it is empty.

Rewrites are expanded as trees. The nesting of relations is bounded by the depth
ceiling, which the fuel of `expandRelation` repeats.
-/

namespace OpenFga

/-- The users asked for: objects, or usersets of a relation. -/
structure UserTypeFilter where
  userType : TypeName
  relation : Option RelationName
  deriving DecidableEq, Repr

def filterMatches (filter : UserTypeFilter) (subject : SubjectRef) : Bool :=
  if filter.userType ≠ subject.subjectType then false
  else
    match filter.relation, subject with
    | none, .object _ => true
    | none, .typedWildcard _ => true
    | some expected, .userset ref => decide (expected = ref.relation)
    | _, _ => false

structure ListUsersBudget where
  depth : Limit 1000
  dispatches : Limit 1000000
  datastoreQueries : Limit 100000
  tupleItems : Limit 1000000
  subjects : Limit 100000
  conditionCost : Limit 1000000

structure RelationKey where
  object : ObjectRef
  relation : RelationId
  deriving DecidableEq, Repr

/-- The users found, and whether a cycle was cut. -/
structure Expansion where
  set : SymbolicSet SubjectRef
  hasCycle : Bool

def Expansion.ofSet (set : SymbolicSet SubjectRef) : Expansion := ⟨set, false⟩

def Expansion.cycle : Expansion := ⟨.empty, true⟩

/-- The answers of the surroundings of one expansion, by tick. -/
structure UsersSchedule where
  interruption : Nat → Option Interruption
  conditionCancelled : Nat → Bool

/-- What has been spent, and the rows read so far. -/
structure UsersEvaluator where
  dispatches : Nat
  datastoreQueries : Nat
  tupleItems : Nat
  conditionCost : Nat
  maximumDepth : Nat
  tupleCache : List (RelationKey × List RelationshipTuple)
  tick : Nat

def UsersEvaluator.new : UsersEvaluator :=
  ⟨0, 0, 0, 0, 0, [], 0⟩

def usersDepthExceeded : ListError := .new .depthExceeded "list_users_depth_exceeded"

def usersDispatchExceeded : ListError := .new .dispatchExceeded "list_users_dispatch_exceeded"

def usersQueryExceeded : ListError :=
  .new .datastoreQueryExceeded "list_users_datastore_query_exceeded"

def usersItemsExceeded : ListError := .new .tupleItemExceeded "list_users_tuple_items_exceeded"

def usersSubjectsExceeded : ListError := .new .subjectExceeded "list_users_subjects_exceeded"

def usersCostExceeded : ListError :=
  .new .conditionCostExceeded "list_users_condition_cost_exceeded"

namespace UsersEvaluator

section Steps

variable (env : CheckEnvironment) (budget : ListUsersBudget) (schedule : UsersSchedule)
  (s : UsersEvaluator)

def checkOperation : Except ListError UsersEvaluator :=
  match schedule.interruption s.tick with
  | some interruption => .error (.ofInterruption interruption)
  | none => .ok { s with tick := s.tick + 1 }

def consumeDispatch : Except ListError UsersEvaluator :=
  if s.dispatches + 1 > budget.dispatches.get then .error usersDispatchExceeded
  else .ok { s with dispatches := s.dispatches + 1 }

def checkDepth (depth : Nat) : Except ListError UsersEvaluator :=
  if depth > budget.depth.get then .error usersDepthExceeded
  else .ok { s with maximumDepth := max s.maximumDepth depth }

def chargeTupleItems (count : Nat) : Except ListError UsersEvaluator :=
  if s.tupleItems + count > budget.tupleItems.get then .error usersItemsExceeded
  else .ok { s with tupleItems := s.tupleItems + count }

def checkSubjectCount (count : Nat) : Except ListError Unit :=
  if count > budget.subjects.get then .error usersSubjectsExceeded else .ok ()

def checkSet (set : SymbolicSet SubjectRef) : Except ListError Unit :=
  checkSubjectCount budget set.trackedLen

/-- Evaluates the condition of a row; a failed evaluation fails the expansion. -/
def conditionMet (tuple : RelationshipTuple) : Except ListError (Bool × UsersEvaluator) :=
  match tuple.condition with
  | .unconditional => .ok (true, s)
  | .conditional binding => do
      let s ← s.checkOperation schedule
      let id ← orError (env.model.conditionId binding.name) (.model "list_users_condition_missing")
      let condition ← orError (env.model.condition id) (.model "list_users_condition_invalid")
      if budget.conditionCost.get ≤ s.conditionCost then .error usersCostExceeded
      else
        let evaluated :=
          if schedule.conditionCancelled s.tick then .error (.new .cancelled)
          else
            condition.evaluate env.conditionContext binding.context
              (budget.conditionCost.get - s.conditionCost)
        let s ← { s with tick := s.tick + 1 }.checkOperation schedule
        match evaluated with
        | .ok outcome =>
            if s.conditionCost + outcome.cost > budget.conditionCost.get then
              .error usersCostExceeded
            else .ok (outcome.conditionMet,
              { s with conditionCost := s.conditionCost + outcome.cost })
        | .error failure =>
            match failure.kind with
            | .costExceeded => .error usersCostExceeded
            | .cancelled => do
                let _ ← s.checkOperation schedule
                .error (.condition "list_users_condition_cancelled" failure)
            | _ => .error (.condition "list_users_condition_evaluation_failed" failure)

/-- The rows on an object and relation, read once. -/
def readRelation (object : ObjectRef) (relation : RelationId) :
    Except ListError (List RelationshipTuple × UsersEvaluator) :=
  match s.tupleCache.lookup ⟨object, relation⟩ with
  | some rows => .ok (rows, s)
  | none => do
      let s ← s.checkOperation schedule
      if s.datastoreQueries + 1 > budget.datastoreQueries.get then .error usersQueryExceeded
      else
        let s := { s with datastoreQueries := s.datastoreQueries + 1 }
        let compiled ← orError (env.model.relation relation)
          (.model "list_users_read_relation_invalid")
        match env.readFailure object compiled.name with
        | some kind => .error (.ofStorage kind)
        | none =>
            let stored := env.storedRows object compiled.name
            let contextual := env.contextual.get object compiled.name
            let s ← s.chargeTupleItems budget (stored.length + contextual.length)
            let rows := stored.filter env.model.accepts ++ contextual
            .ok (rows, { s with tupleCache := (⟨object, relation⟩, rows) :: s.tupleCache })

/-- What every expansion of a relation or a rewrite starts with. -/
def dispatch : Except ListError UsersEvaluator := do
  let s ← s.checkOperation schedule
  s.consumeDispatch budget

end Steps

end UsersEvaluator

section Expansions

variable (env : CheckEnvironment) (budget : ListUsersBudget) (schedule : UsersSchedule)
  (filter : UserTypeFilter)

/-- Expands the rows whose condition is met, each by `row`. -/
def expandRows
    (row : RelationshipTuple → Expansion → UsersEvaluator →
      Except ListError (Expansion × UsersEvaluator)) :
    List RelationshipTuple → Expansion → UsersEvaluator →
      Except ListError (Expansion × UsersEvaluator)
  | [], expansion, s => .ok (expansion, s)
  | tuple :: rows, expansion, s => do
      let (met, s) ← s.conditionMet env budget schedule tuple
      if met then
        let (expansion, s) ← row tuple expansion s
        expandRows row rows expansion s
      else expandRows row rows expansion s

variable (recurse : ObjectRef → RelationId → UsersEvaluator →
  Except ListError (Expansion × UsersEvaluator))

/-- Adds the subjects of one direct row. -/
def expandDirectRow (tuple : RelationshipTuple) (expansion : Expansion) (s : UsersEvaluator) :
    Except ListError (Expansion × UsersEvaluator) := do
  let (expansion, s) ←
    match tuple.key.subject with
    | .userset ref => do
        let relation ← orError (env.model.relationId ref.object.objectType ref.relation)
          (.model "list_users_direct_userset_invalid")
        let (expanded, s) ← recurse ref.object relation s
        .ok (⟨expansion.set.union expanded.set, expansion.hasCycle || expanded.hasCycle⟩, s)
    | .typedWildcard objectType =>
        if filterMatches filter (.typedWildcard objectType) then
          .ok (⟨expansion.set.union (.cofinite ∅ ∅), expansion.hasCycle⟩, s)
        else .ok (expansion, s)
    | .object ref =>
        if filterMatches filter (.object ref) then
          .ok (⟨expansion.set.union (.singleton (.object ref)), expansion.hasCycle⟩, s)
        else .ok (expansion, s)
  UsersEvaluator.checkSet budget expansion.set
  .ok (expansion, s)

/-- Adds the subjects of the targets that belong to the type of the object. -/
def expandTargets (object : ObjectRef) :
    List RelationId → Expansion → UsersEvaluator → Except ListError (Expansion × UsersEvaluator)
  | [], expansion, s => .ok (expansion, s)
  | target :: targets, expansion, s => do
      let relation ← orError (env.model.relation target) (.model "list_users_ttu_target_invalid")
      let targetType ← orError (env.model.typeName relation.objectType)
        (.model "list_users_ttu_target_type_invalid")
      if targetType ≠ object.objectType then expandTargets object targets expansion s
      else
        let (expanded, s) ← recurse object target s
        let set := expansion.set.union expanded.set
        UsersEvaluator.checkSet budget set
        expandTargets object targets { expansion with set } s

/-- Adds the subjects of one row of a tupleset. -/
def expandTtuRow (targets : List RelationId) (tuple : RelationshipTuple) (expansion : Expansion)
    (s : UsersEvaluator) : Except ListError (Expansion × UsersEvaluator) :=
  match tuple.key.subject with
  | .object object => expandTargets env budget recurse object targets expansion s
  | _ => .ok (expansion, s)

mutual

/-- Expands a rewrite on one object. -/
def expandNode (object : ObjectRef) :
    Rewrite → UsersEvaluator → Except ListError (Expansion × UsersEvaluator)
  | .direct owner, s => do
      let s ← s.dispatch budget schedule
      let (rows, s) ← s.readRelation env budget schedule object owner
      expandRows env budget schedule (expandDirectRow env budget filter recurse) rows
        (.ofSet .empty) s
  | .computed target, s => do
      let s ← s.dispatch budget schedule
      recurse object target s
  | .tupleToUserset tupleset targets, s => do
      let s ← s.dispatch budget schedule
      let (rows, s) ← s.readRelation env budget schedule object tupleset
      expandRows env budget schedule (expandTtuRow env budget recurse targets) rows
        (.ofSet .empty) s
  | .union children, s => do
      let s ← s.dispatch budget schedule
      expandUnion object children .empty s
  | .intersection [], s => do
      let _ ← s.dispatch budget schedule
      .error (.internal "list_users_intersection_empty")
  | .intersection (first :: children), s => do
      let s ← s.dispatch budget schedule
      let (expanded, s) ← expandNode object first s
      expandIntersection object children expanded.set s
  | .difference base subtract, s => do
      let s ← s.dispatch budget schedule
      let (base, s) ← expandNode object base s
      let (subtract, s) ← expandNode object subtract s
      if subtract.hasCycle then .ok (.ofSet .empty, s)
      else
        let set := base.set.difference subtract.set
        UsersEvaluator.checkSet budget set
        .ok (.ofSet set, s)

def expandUnion (object : ObjectRef) :
    List Rewrite → SymbolicSet SubjectRef → UsersEvaluator →
      Except ListError (Expansion × UsersEvaluator)
  | [], set, s => .ok (.ofSet set, s)
  | child :: children, set, s => do
      let (expanded, s) ← expandNode object child s
      let set := set.union expanded.set
      UsersEvaluator.checkSet budget set
      expandUnion object children set s

def expandIntersection (object : ObjectRef) :
    List Rewrite → SymbolicSet SubjectRef → UsersEvaluator →
      Except ListError (Expansion × UsersEvaluator)
  | [], set, s => .ok (.ofSet set, s)
  | child :: children, set, s => do
      let (expanded, s) ← expandNode object child s
      let set := set.intersection expanded.set
      UsersEvaluator.checkSet budget set
      expandIntersection object children set s

end

/-- Expands a relation on an object, below the relations already on the branch. -/
def expandRelation : Nat → Finset RelationKey → Nat → ObjectRef → RelationId → UsersEvaluator →
    Except ListError (Expansion × UsersEvaluator)
  | 0, _, _, _, _, _ => .error usersDepthExceeded
  | fuel + 1, visited, depth, object, relation, s => do
      let s ← s.dispatch budget schedule
      let s ← s.checkDepth budget (depth + 1)
      if ⟨object, relation⟩ ∈ visited then .ok (.cycle, s)
      else
        let compiled ← orError (env.model.relation relation) (.model "list_users_relation_invalid")
        let identity : SymbolicSet SubjectRef :=
          if filter.userType = object.objectType ∧ filter.relation = some compiled.name then
            .singleton (.userset ⟨object, compiled.name⟩)
          else .empty
        let (expanded, s) ← expandNode env budget schedule filter
          (expandRelation fuel (insert ⟨object, relation⟩ visited) (depth + 1)) object
          (env.model.rewrite relation) s
        let set := identity.union expanded.set
        UsersEvaluator.checkSet budget set
        .ok (⟨set, expanded.hasCycle⟩, s)

end Expansions

/-- The subjects a set is reported as; a cofinite set reports the typed wildcard. -/
def SymbolicSet.intoSubjects (filter : UserTypeFilter) :
    SymbolicSet SubjectRef → Finset SubjectRef
  | .finite subjects => subjects
  | .cofinite excluded included =>
      insert (.typedWildcard filter.userType) (included \ excluded)

/-- Objects come before usersets, and these before typed wildcards. -/
def SubjectRef.rank : SubjectRef → Nat ×ₗ String ×ₗ String ×ₗ String
  | .object ref => toLex (0, toLex (ref.objectType.text, toLex (ref.objectId.text, "")))
  | .userset ref => toLex (1, toLex (ref.object.objectType.text,
      toLex (ref.object.objectId.text, ref.relation.text)))
  | .typedWildcard objectType => toLex (2, toLex (objectType.text, toLex ("", "")))

theorem SubjectRef.rank_injective : Function.Injective SubjectRef.rank := by
  intro first second same
  rcases first with ⟨⟨type⟩, ⟨id⟩⟩ | ⟨⟨⟨type⟩, ⟨id⟩⟩, ⟨relation⟩⟩ | ⟨⟨type⟩⟩ <;>
    rcases second with ⟨⟨type⟩, ⟨id⟩⟩ | ⟨⟨⟨type⟩, ⟨id⟩⟩, ⟨relation⟩⟩ | ⟨⟨type⟩⟩ <;>
    simp_all [rank]

instance : LinearOrder SubjectRef :=
  LinearOrder.lift' SubjectRef.rank SubjectRef.rank_injective

structure ListUsersCommand where
  query : ListQuery
  object : ObjectRef
  relation : RelationName
  filters : List UserTypeFilter
  maximumResults : Nat

structure ListUsersOutcome where
  users : List SubjectRef
  dispatches : Nat
  datastoreQueries : Nat
  tupleItems : Nat
  conditionCost : Nat
  maximumDepth : Nat
  truncated : Bool

def validateFilters (model : CompiledModel) (filters : List UserTypeFilter) :
    Except ListError Unit :=
  filters.forM fun filter => do
    let _ ← orError (model.typeId filter.userType) (.model "list_users_filter_type_not_found")
    match filter.relation with
    | none => .ok ()
    | some relation => do
        let _ ← orError (model.relationId filter.userType relation)
          (.model "list_users_filter_relation_not_found")
        .ok ()

section Commands

variable (env : CheckEnvironment) (budget : ListUsersBudget) (schedule : UsersSchedule)

/-- Collects the subjects of one filter after the other. -/
def expandFilters (object : ObjectRef) (root : RelationId) :
    List UserTypeFilter → Finset SubjectRef → UsersEvaluator →
      Except ListError (Finset SubjectRef × UsersEvaluator)
  | [], users, s => .ok (users, s)
  | filter :: filters, users, s => do
      let (expansion, s) ← expandRelation env budget schedule filter (budget.depth.get + 1) ∅ 0
        object root s
      let users := users ∪ expansion.set.intoSubjects filter
      UsersEvaluator.checkSubjectCount budget users.card
      expandFilters object root filters users s

def listUsers (command : ListUsersCommand) : Except ListError ListUsersOutcome := do
  validateQueryModel command.query env.model
  validateListContextual env
  let root ← orError (env.model.relationId command.object.objectType command.relation)
    (.model "list_users_relation_not_found")
  validateFilters env.model command.filters
  let (users, s) ← expandFilters env budget schedule command.object root command.filters ∅ .new
  .ok
    { users := (users.sort (· ≤ ·)).take command.maximumResults
      dispatches := s.dispatches
      datastoreQueries := s.datastoreQueries
      tupleItems := s.tupleItems
      conditionCost := s.conditionCost
      maximumDepth := s.maximumDepth
      truncated := decide (command.maximumResults < users.card) }

end Commands

end OpenFga
