import OpenFga.List.Users

/-!
# The meaning of an expansion

An expansion computes, for all subjects of a filter at once, the reference semantics
of a check with two departures. A userset is related to itself, and a difference is
cut when following userset rows and computed relations from its subtracted operand
re-enters a relation of the branch. `loops` states the latter, and `usersPolicy` is the
resulting policy.

`Agrees` says that an expansion has the values of the reference semantics; every part
of the evaluator is specified by it, and the relations themselves by induction on the
nesting.
-/

namespace OpenFga

open List SymbolicSet UsersEvaluator Expansion

variable {restrictions : List DirectRestriction} {tuple : RelationshipTuple} {object : ObjectRef}
  {env : CheckEnvironment} {ceiling : Nat} {filter : UserTypeFilter} {subject : SubjectRef}
  {targets : List RelationId} {children : List Rewrite} {key : SemanticKey}

section Policy

variable (env : CheckEnvironment) (ceiling : Nat) (cyclic : ObjectRef → RelationId → Bool)

/-- A met userset row leads into a cycle. -/
def rowLoops (restrictions : List DirectRestriction) (tuple : RelationshipTuple) : Bool :=
  decide (conditionValue env ceiling tuple = .yes) &&
    match admittedClass env.model restrictions tuple, tuple.key.subject with
    | some (.userset relation), .userset ref => cyclic ref.object relation
    | _, _ => false

/-- A rewrite leads into a cycle through its rows or its computed relation. -/
def treeLoops (object : ObjectRef) : Rewrite → Bool
  | .direct owner =>
      match env.model.relation owner with
      | none => false
      | some relation =>
          (env.rows object relation.name).any (rowLoops env ceiling cyclic relation.restrictions)
  | .computed target => cyclic object target
  | _ => false

/-- Following userset rows and computed relations re-enters a visited relation. -/
def loops : Nat → Finset RelationKey → ObjectRef → RelationId → Bool
  | 0, _, _, _ => false
  | fuel + 1, visited, object, relation =>
      if ⟨object, relation⟩ ∈ visited then true
      else
        treeLoops env ceiling (loops fuel (insert ⟨object, relation⟩ visited)) object
          (env.model.rewrite relation)

def SemanticKey.relationKey (key : SemanticKey) : RelationKey :=
  ⟨key.object, key.relation⟩

/-- The subject is the userset of the very relation that is asked for. -/
def identical (model : CompiledModel) (key : SemanticKey) : Bool :=
  match key.subject with
  | .userset ref =>
      decide (ref.object = key.object ∧
        model.relationId ref.object.objectType ref.relation = some key.relation)
  | _ => false

/-- Where listing users departs from the bare rewrite rules. -/
def usersPolicy : CheckPolicy where
  denies _ := false
  grants := identical env.model
  cuts fuel path object :=
    treeLoops env ceiling (loops env ceiling fuel (path.image SemanticKey.relationKey)) object

end Policy

section Rows

variable (valid : AdmittedRowsValid env) (contextual : validateListContextual env = .ok ())
  {id : RelationId} {relation : CompiledRelation} (typed : env.model.TypedFor object id)
  (found : env.model.relation id = some relation)

include valid contextual typed found

/-- Rows that no restriction admits do not matter to a disjunction over the rows. -/
theorem any_listedRows {value : RelationshipTuple → Kleene}
    (outside : ∀ tuple, admittedClass env.model relation.restrictions tuple = none →
      value tuple = .no) :
    Kleene.any ((env.listedRows object relation.name).map value) =
      .any ((env.rows object relation.name).map value) := by
  have listed (tuple : RelationshipTuple) : tuple ∈ env.listedRows object relation.name ↔
      tuple ∈ env.rows object relation.name ∧
        admittedClass env.model relation.restrictions tuple ≠ none :=
    mem_listedRows valid contextual typed found
  apply Kleene.any_congr
  · intro result member _
    obtain ⟨tuple, inside, rfl⟩ := mem_map.mp member
    exact mem_map_of_mem ((listed tuple).mp inside).1
  · intro result member holds
    obtain ⟨tuple, inside, rfl⟩ := mem_map.mp member
    exact mem_map_of_mem ((listed tuple).mpr ⟨inside, fun none => holds (outside tuple none)⟩)

theorem loops_listedRows {loop : RelationshipTuple → Bool}
    (outside : ∀ tuple, admittedClass env.model relation.restrictions tuple = none →
      loop tuple = false) :
    (env.listedRows object relation.name).any loop = (env.rows object relation.name).any loop := by
  rw [Bool.eq_iff_iff, any_eq_true, any_eq_true]
  constructor
  · intro ⟨tuple, inside, holds⟩
    exact ⟨tuple, ((mem_listedRows valid contextual typed found).mp inside).1, holds⟩
  · intro ⟨tuple, inside, holds⟩
    refine ⟨tuple, (mem_listedRows valid contextual typed found).mpr ⟨inside, ?_⟩, holds⟩
    intro none
    rw [outside tuple none] at holds
    cases holds

end Rows

namespace UsersEvaluator

/-- The remembered rows are those an enumeration sees. -/
def Cached (env : CheckEnvironment) (s : UsersEvaluator) : Prop :=
  ∀ key rows, s.tupleCache.lookup key = some rows →
    ∃ relation, env.model.relation key.relation = some relation ∧
      rows = env.listedRows key.object relation.name

section Steps

variable {s : UsersEvaluator} (budget : ListUsersBudget) (schedule : UsersSchedule)

theorem cached_new (env : CheckEnvironment) : Cached env .new := by
  intro key rows found
  cases found

section

variable (cached : s.Cached env)

include cached

theorem checkOperation_spec : Ensures (s.checkOperation schedule) (Cached env) := by
  unfold checkOperation
  split
  · trivial
  · exact cached

theorem consumeDispatch_spec : Ensures (s.consumeDispatch budget) (Cached env) := by
  unfold consumeDispatch
  split
  · trivial
  · exact cached

theorem dispatch_spec : Ensures (s.dispatch budget schedule) (Cached env) :=
  (checkOperation_spec schedule cached).bind fun _ => consumeDispatch_spec budget

theorem checkDepth_spec (depth : Nat) : Ensures (s.checkDepth budget depth) (Cached env) := by
  unfold checkDepth
  split
  · trivial
  · exact cached

theorem chargeTupleItems_spec (count : Nat) :
    Ensures (s.chargeTupleItems budget count) (Cached env) := by
  unfold chargeTupleItems
  split
  · trivial
  · exact cached

end

/-- A condition evaluated within the budget has its reference value. -/
theorem conditionMet_spec {ceiling : Nat} (covers : budget.conditionCost.get ≤ ceiling)
    (cached : s.Cached env) (tuple : RelationshipTuple) :
    Ensures (s.conditionMet env budget schedule tuple)
      (fun result => conditionValue env ceiling tuple = .ofBool result.1 ∧
      result.2.Cached env) := by
  unfold conditionMet conditionValue rowCondition
  cases tuple.condition with
  | unconditional => exact ⟨rfl, cached⟩
  | conditional binding =>
    apply (checkOperation_spec schedule cached).bind
    intro s cached
    refine Ensures.lookup (fun _ => trivial) fun id named => ?_
    refine Ensures.lookup (fun _ => trivial) fun condition found => ?_
    simp only [named, Option.bind_some, found]
    split
    · trivial
    · have ticked : Cached env { s with tick := s.tick + 1 } := cached
      apply (checkOperation_spec schedule ticked).bind
      intro s' cached'
      generalize evaluated : (if schedule.conditionCancelled s.tick then _ else _) = result
      cases result with
      | error failure =>
        simp only
        split
        · trivial
        · cases s'.checkOperation schedule <;> trivial
        · trivial
      | ok outcome =>
        obtain ⟨-, evaluated⟩ := guard_eq_ok.mp evaluated
        have stable := condition.evaluate_stable env.conditionContext binding.context
          ((Nat.sub_le _ s.conditionCost).trans covers) (by rw [evaluated]; simp)
        simp only
        split
        · trivial
        · refine ⟨?_, cached'⟩
          rw [stable, evaluated]
          cases met : outcome.conditionMet <;> simp [conditionResult, met]

/-- A read gives the rows an enumeration sees, whether or not they were remembered. -/
theorem readRelation_spec (cached : s.Cached env) (object : ObjectRef) (id : RelationId) :
    Ensures (s.readRelation env budget schedule object id)
      (fun result => (∃ relation, env.model.relation id = some relation ∧
        result.1 = env.listedRows object relation.name) ∧ result.2.Cached env) := by
  unfold readRelation
  cases remembered : s.tupleCache.lookup ⟨object, id⟩ with
  | some rows => exact ⟨cached _ _ remembered, cached⟩
  | none =>
    apply (checkOperation_spec schedule cached).bind
    intro s cached
    simp only
    split
    · trivial
    · refine Ensures.lookup (fun _ => trivial) fun relation found => ?_
      split
      · trivial
      · have charged : Cached env { s with datastoreQueries := s.datastoreQueries + 1 } := cached
        apply (chargeTupleItems_spec budget charged _).bind
        intro s' cached'
        refine ⟨⟨relation, found, rfl⟩, ?_⟩
        intro key rows lookup
        by_cases same : key = ⟨object, id⟩
        · subst same
          rw [lookup_cons_self] at lookup
          cases lookup
          exact ⟨relation, found, rfl⟩
        · rw [lookup_cons, beq_false_of_ne same] at lookup
          exact cached' key rows lookup

end Steps

end UsersEvaluator

/-- Listing usersets keeps every set finite, since no wildcard is listed. -/
def Bounded (filter : UserTypeFilter) (set : SymbolicSet SubjectRef) : Prop :=
  filter.relation ≠ none → set.IsFinite

theorem bounded_empty (filter : UserTypeFilter) : Bounded filter .empty :=
  fun _ => trivial

theorem Bounded.union {filter : UserTypeFilter} {left right : SymbolicSet SubjectRef}
    (first : Bounded filter left) (second : Bounded filter right) :
    Bounded filter (left.union right) :=
  fun usersets => isFinite_union.mpr ⟨first usersets, second usersets⟩

/-- An expansion has the given values for the listed subjects, and the given mark. -/
structure Agrees (env : CheckEnvironment) (filter : UserTypeFilter) (listed : SubjectRef → Prop)
    (cyclic : Bool) (value : SubjectRef → Kleene) (result : Expansion × UsersEvaluator) : Prop where
  cached : result.2.Cached env
  bounded : Bounded filter result.1.set
  hasCycle : result.1.hasCycle = cyclic
  value : ∀ subject, listed subject → result.1.set.value subject = value subject

/-- What the expansion of relations computes for the rewrites above them. -/
structure Expands (env : CheckEnvironment) (filter : UserTypeFilter) (listed : SubjectRef → Prop)
    (cyclic : ObjectRef → RelationId → Bool)
    (value : SubjectRef → ObjectRef → RelationId → Kleene)
    (recurse : ObjectRef → RelationId → UsersEvaluator →
      Except ListError (Expansion × UsersEvaluator)) : Prop where
  agrees : ∀ {object target s}, env.model.TypedFor object target → s.Cached env →
    Ensures (recurse object target s)
      (Agrees env filter listed (cyclic object target) fun subject => value subject object target)
  identity : ∀ {ref target}, listed (.userset ref) →
    env.model.relationId ref.object.objectType ref.relation = some target →
    value (.userset ref) ref.object target = .yes

/-- The concrete subjects a filter lists below the visited relations. A userset of a
visited relation has been listed where the relation was entered. -/
structure Listed (model : CompiledModel) (filter : UserTypeFilter) (visited : Finset RelationKey)
    (subject : SubjectRef) : Prop where
  matched : filterMatches filter subject = true
  concrete : subject.isTypedWildcard = false
  fresh : ∀ ref target, subject = .userset ref →
    model.relationId ref.object.objectType ref.relation = some target →
    ⟨ref.object, target⟩ ∉ visited

section Trees

variable {budget : ListUsersBudget} {schedule : UsersSchedule} {listed : SubjectRef → Prop}
  {cyclic : ObjectRef → RelationId → Bool} {value : SubjectRef → ObjectRef → RelationId → Kleene}
  {recurse : ObjectRef → RelationId → UsersEvaluator → Except ListError
    (Expansion × UsersEvaluator)}

theorem checkSet_spec {set : SymbolicSet SubjectRef} {α : Type} {next : Except ListError α}
    {post : α → Prop} (rest : Ensures next post) :
    Ensures (checkSet budget set >>= fun _ => next) post := by
  unfold checkSet checkSubjectCount
  split
  · trivial
  · exact rest

/-- Rows are expanded one by one; a row whose condition is not met adds nothing. -/
theorem expandRows_spec (covers : budget.conditionCost.get ≤ ceiling) (listed : SubjectRef → Prop)
    (rowValue : SubjectRef → RelationshipTuple → Kleene) (loop : RelationshipTuple → Bool)
    {row : RelationshipTuple → Expansion → UsersEvaluator →
      Except ListError (Expansion × UsersEvaluator)}
    (unmet : ∀ tuple, conditionValue env ceiling tuple = .no →
      loop tuple = false ∧ ∀ subject, rowValue subject tuple = .no)
    {rows : List RelationshipTuple}
    (each : ∀ tuple ∈ rows, conditionValue env ceiling tuple = .yes →
      ∀ (expansion : Expansion) (s : UsersEvaluator), Bounded filter expansion.set → s.Cached env →
        Ensures (row tuple expansion s)
          (Agrees env filter listed (expansion.hasCycle || loop tuple) fun subject =>
            .or (expansion.set.value subject) (rowValue subject tuple))) :
    ∀ (expansion : Expansion) (s : UsersEvaluator), Bounded filter expansion.set → s.Cached env →
      Ensures (expandRows env budget schedule row rows expansion s)
        (Agrees env filter listed (expansion.hasCycle || rows.any loop) fun subject =>
          .or (expansion.set.value subject) (.any (rows.map (rowValue subject)))) := by
  induction rows with
  | nil =>
    intro expansion s bounded cached
    exact ⟨cached, bounded, by simp, fun subject _ => by simp⟩
  | cons tuple rows ih =>
    intro expansion s bounded cached
    have later := ih fun tuple member => each tuple (mem_cons_of_mem _ member)
    apply (conditionMet_spec budget schedule covers cached tuple).bind
    intro ⟨met, s⟩ ⟨condition, cached⟩
    simp only [any_cons, map_cons, Kleene.any_cons]
    cases met with
    | false =>
      obtain ⟨noLoop, noValue⟩ := unmet tuple condition
      simpa [noLoop, noValue] using later expansion s bounded cached
    | true =>
      apply (each tuple (by simp) condition expansion s bounded cached).bind
      intro ⟨expansion', s'⟩ first
      apply (later expansion' s' first.bounded first.cached).imp
      intro result second
      refine ⟨second.cached, second.bounded, ?_, ?_⟩
      · rw [second.hasCycle, first.hasCycle, Bool.or_assoc]
      · intro subject member
        rw [second.value subject member, first.value subject member, Kleene.or_assoc]

/-- A listed subject is covered by the wildcards that the filter lists. -/
theorem wildcard_covers {subject : SubjectRef} (objectType : TypeName)
    (matched : filterMatches filter subject = true) (concrete : subject.isTypedWildcard = false) :
    (SubjectRef.typedWildcard objectType = subject ∨
      wildcardMatches (.typedWildcard objectType) subject = true) ↔
      filterMatches filter (.typedWildcard objectType) = true := by
  cases subject with
  | typedWildcard other => cases concrete
  | object ref =>
    cases kind : filter.relation with
    | some relation => simp [filterMatches, kind] at matched
    | none =>
      have type : filter.userType = ref.objectType := by
        simpa [filterMatches, kind] using matched
      simp [filterMatches, kind, wildcardMatches, type, eq_comm]
  | userset ref =>
    cases kind : filter.relation with
    | none => simp [filterMatches, kind] at matched
    | some relation => simp [filterMatches, kind, wildcardMatches]

section

variable (expands : Expands env filter listed cyclic value recurse)

include expands

theorem expandDirectRow_spec (concrete : ∀ subject, listed subject →
      filterMatches filter subject = true ∧ subject.isTypedWildcard = false)
    (admitted : admittedClass env.model restrictions tuple ≠ none)
    (met : conditionValue env ceiling tuple = .yes) (expansion : Expansion) (s : UsersEvaluator)
    (bounded : Bounded filter expansion.set) (cached : s.Cached env) :
    Ensures (expandDirectRow env budget filter recurse tuple expansion s)
      (Agrees env filter listed
        (expansion.hasCycle || rowLoops env ceiling cyclic restrictions tuple)
        fun subject => .or (expansion.set.value subject)
          (directRowValue env ceiling (value subject) subject restrictions tuple)) := by
  obtain ⟨rowClass, admitted⟩ := Option.ne_none_iff_exists'.mp admitted
  have classified := (admittedClass_eq_some.mp admitted).1
  unfold expandDirectRow
  simp only [directRowValue, rowLoops, admitted, met, decide_true, Bool.true_and]
  cases named : tuple.key.subject with
  | object ref =>
    rw [named] at classified
    cases classified
    simp only [Bool.or_false]
    split
    · apply checkSet_spec
      refine ⟨cached, bounded.union fun _ => trivial, rfl, fun subject _ => ?_⟩
      rw [value_union]
      congr 1
      by_cases same : SubjectRef.object ref = subject
      · simp [SymbolicSet.value, same]
      · simp [SymbolicSet.value, same, Ne.symm same]
    · rename_i unlisted
      apply checkSet_spec
      refine ⟨cached, bounded, rfl, fun subject member => ?_⟩
      have other : SubjectRef.object ref ≠ subject := by
        intro same
        exact unlisted (same ▸ (concrete subject member).1)
      simp [other]
  | typedWildcard objectType =>
    rw [named] at classified
    cases classified
    simp only [Bool.or_false]
    have covers := fun subject member =>
      wildcard_covers objectType (concrete subject member).1 (concrete subject member).2
    split
    · rename_i matched
      apply checkSet_spec
      refine ⟨cached, fun usersets => ?_, rfl, fun subject member => ?_⟩
      · cases kind : filter.relation with
        | none => exact absurd kind usersets
        | some relation => simp [filterMatches, kind] at matched
      · rw [if_pos ((covers subject member).mpr matched), value_union]
        simp [SymbolicSet.value]
    · rename_i unmatched
      apply checkSet_spec
      refine ⟨cached, bounded, rfl, fun subject member => ?_⟩
      rw [if_neg fun covered => unmatched ((covers subject member).mp covered), Kleene.or_no]
  | userset ref =>
    rw [named, CompiledModel.directClass] at classified
    obtain ⟨target, identified, rfl⟩ := Option.map_eq_some_iff.mp classified
    simp only [identified, orError_some]
    have typed := CompiledModel.typedFor_of_relationId identified
    -- the value of the userset is used also where the subject is the userset itself
    have recursed : ∀ subject, listed subject →
        (if SubjectRef.userset ref = subject then Kleene.yes
          else .and .yes (value subject ref.object target)) = value subject ref.object target := by
      intro subject member
      split
      · rename_i same
        subst same
        exact (expands.identity member identified).symm
      · exact Kleene.yes_and _
    change Ensures (recurse ref.object target s >>= fun expanded =>
      checkSet budget (expansion.set.union expanded.1.set) >>= fun _ =>
        .ok (mk (expansion.set.union expanded.1.set)
          (expansion.hasCycle || expanded.1.hasCycle), expanded.2)) _ _
    apply (expands.agrees typed cached).bind
    intro expanded agrees
    apply checkSet_spec
    refine ⟨agrees.cached, bounded.union agrees.bounded, ?_, fun subject member => ?_⟩
    · exact congrArg (expansion.hasCycle || ·) agrees.hasCycle
    · rw [value_union, agrees.value subject member, recursed subject member]

theorem expandTargets_spec (object : ObjectRef) (targets : List RelationId) :
    ∀ (expansion : Expansion) (s : UsersEvaluator), Bounded filter expansion.set → s.Cached env →
      Ensures (expandTargets env budget recurse object targets expansion s)
        (Agrees env filter listed expansion.hasCycle fun subject =>
          .or (expansion.set.value subject) (.any
            ((targetsFor env.model object.objectType targets).map (value subject object)))) := by
  induction targets with
  | nil =>
    intro expansion s bounded cached
    exact ⟨cached, bounded, rfl, fun subject _ => by simp [targetsFor]⟩
  | cons target targets ih =>
    intro expansion s bounded cached
    refine Ensures.lookup (fun _ => trivial) fun relation found => ?_
    refine Ensures.lookup (fun _ => trivial) fun targetType type => ?_
    by_cases other : targetType ≠ object.objectType
    · have skipped : targetsFor env.model object.objectType (target :: targets) =
          targetsFor env.model object.objectType targets := by
        simp [targetsFor, found, type, other]
      simp only [if_pos other, skipped]
      exact ih expansion s bounded cached
    · have kept : targetsFor env.model object.objectType (target :: targets) =
          target :: targetsFor env.model object.objectType targets := by
        simp [targetsFor, found, type, not_not.mp other]
      simp only [if_neg other, kept, map_cons, Kleene.any_cons]
      apply (expands.agrees ⟨relation, found, not_not.mp other ▸ type⟩ cached).bind
      intro expanded first
      apply checkSet_spec
      apply (ih _ _ (bounded.union first.bounded) first.cached).imp
      intro result second
      refine ⟨second.cached, second.bounded, second.hasCycle, fun subject member => ?_⟩
      rw [second.value subject member, value_union, first.value subject member,
        Kleene.or_assoc]

theorem expandTtuRow_spec (admitted : admittedClass env.model restrictions tuple ≠ none)
    (met : conditionValue env ceiling tuple = .yes) (expansion : Expansion) (s : UsersEvaluator)
    (bounded : Bounded filter expansion.set) (cached : s.Cached env) :
    Ensures (expandTtuRow env budget recurse targets tuple expansion s)
      (Agrees env filter listed (expansion.hasCycle || false) fun subject =>
        .or (expansion.set.value subject)
          (ttuRowValue env ceiling (value subject) restrictions targets tuple)) := by
  obtain ⟨rowClass, admitted⟩ := Option.ne_none_iff_exists'.mp admitted
  have classified := (admittedClass_eq_some.mp admitted).1
  simp only [expandTtuRow, ttuRowValue, admitted, Bool.or_false]
  cases named : tuple.key.subject with
  | object object =>
    rw [named] at classified
    cases classified
    simp only [met, Kleene.yes_and]
    exact expandTargets_spec expands object targets expansion s bounded cached
  | userset | typedWildcard => exact ⟨cached, bounded, rfl, fun subject _ => by simp⟩

end

section Unmet

variable {recursive : ObjectRef → RelationId → Kleene}

theorem directRowValue_of_unmet (unmet : conditionValue env ceiling tuple = .no) :
    directRowValue env ceiling recursive subject restrictions tuple = .no := by
  unfold directRowValue
  cases admittedClass env.model restrictions tuple with
  | none => rfl
  | some rowClass =>
    cases rowClass with
    | object | wildcard => simp [unmet]
    | userset relation => cases tuple.key.subject <;> simp [unmet]

theorem ttuRowValue_of_unmet (unmet : conditionValue env ceiling tuple = .no) :
    ttuRowValue env ceiling recursive restrictions targets tuple = .no := by
  unfold ttuRowValue
  split
  · rw [unmet, Kleene.no_and]
  · rfl

end Unmet

/-- An expansion of a rewrite agrees with the value of the rewrite. -/
def NodeAgrees (env : CheckEnvironment) (ceiling : Nat) (budget : ListUsersBudget)
    (schedule : UsersSchedule) (filter : UserTypeFilter) (listed : SubjectRef → Prop)
    (cyclic : ObjectRef → RelationId → Bool) (value : SubjectRef → ObjectRef → RelationId → Kleene)
    (recurse : ObjectRef → RelationId → UsersEvaluator →
      Except ListError (Expansion × UsersEvaluator)) (object : ObjectRef) (tree : Rewrite) : Prop :=
  ∀ s : UsersEvaluator, s.Cached env →
    Ensures (expandNode env budget schedule filter recurse object tree s)
      (Agrees env filter listed (treeLoops env ceiling cyclic object tree) fun subject =>
        rewriteValue env ceiling (treeLoops env ceiling cyclic object) (value subject)
          subject object tree)

section

variable
  (each : ∀ child ∈ children, NodeAgrees env ceiling budget schedule filter listed cyclic value
  recurse object child)

include each

theorem expandUnion_spec :
    ∀ (set : SymbolicSet SubjectRef) (s : UsersEvaluator), Bounded filter set → s.Cached env →
      Ensures (expandUnion env budget schedule filter recurse object children set s)
        (Agrees env filter listed false fun subject => .or (set.value subject)
          (.any (children.map (rewriteValue env ceiling (treeLoops env ceiling cyclic object)
            (value subject) subject object)))) := by
  induction children with
  | nil =>
    intro set s bounded cached
    exact ⟨cached, bounded, rfl, fun subject _ => (Kleene.or_no _).symm⟩
  | cons child children ih =>
    intro set s bounded cached
    have later := ih fun child member => each child (mem_cons_of_mem _ member)
    apply (each child (by simp) s cached).bind
    intro expanded first
    apply checkSet_spec
    apply (later _ _ (bounded.union first.bounded) first.cached).imp
    intro result second
    refine ⟨second.cached, second.bounded, second.hasCycle, fun subject member => ?_⟩
    rw [second.value subject member, value_union, first.value subject member,
      map_cons, Kleene.any_cons, Kleene.or_assoc]

theorem expandIntersection_spec :
    ∀ (set : SymbolicSet SubjectRef) (s : UsersEvaluator), Bounded filter set → s.Cached env →
      Ensures (expandIntersection env budget schedule filter recurse object children set s)
        (Agrees env filter listed false fun subject => .and (set.value subject)
          (.all (children.map (rewriteValue env ceiling (treeLoops env ceiling cyclic object)
            (value subject) subject object)))) := by
  induction children with
  | nil =>
    intro set s bounded cached
    exact ⟨cached, bounded, rfl, fun subject _ => (Kleene.and_yes _).symm⟩
  | cons child children ih =>
    intro set s bounded cached
    have later := ih fun child member => each child (mem_cons_of_mem _ member)
    apply (each child (by simp) s cached).bind
    intro expanded first
    apply checkSet_spec
    apply (later _ _ (fun usersets => isFinite_intersection.mpr (.inl (bounded usersets)))
      first.cached).imp
    intro result second
    refine ⟨second.cached, second.bounded, second.hasCycle, fun subject member => ?_⟩
    rw [second.value subject member, value_intersection, first.value subject member,
      map_cons, Kleene.all_cons, Kleene.and_assoc]

end

section Nodes

variable (valid : AdmittedRowsValid env) (contextual : validateListContextual env = .ok ())
  (covers : budget.conditionCost.get ≤ ceiling)
  (expands : Expands env filter listed cyclic value recurse) {source : RelationId}
  (typed : env.model.TypedFor object source)

include valid contextual covers expands typed

theorem expandNode_direct
    (concrete : ∀ subject, listed subject →
      filterMatches filter subject = true ∧ subject.isTypedWildcard = false) :
    NodeAgrees env ceiling budget schedule filter listed cyclic value recurse object
      (.direct source) := by
  intro s cached
  apply (dispatch_spec budget schedule cached).bind
  intro s cached
  apply (readRelation_spec budget schedule cached object source).bind
  intro ⟨rows, s⟩ ⟨⟨relation, found, same⟩, cached⟩
  subst same
  refine (expandRows_spec covers listed
    (fun subject => directRowValue env ceiling (value subject) subject relation.restrictions)
    (rowLoops env ceiling cyclic relation.restrictions) ?_ ?_ (.ofSet .empty) s
      (bounded_empty filter) cached).imp ?_
  · intro tuple unmet
    exact ⟨by simp [rowLoops, unmet], fun _ => directRowValue_of_unmet unmet⟩
  · intro tuple member met
    have admitted := ((mem_listedRows valid contextual typed found).mp member).2
    exact expandDirectRow_spec expands concrete admitted met
  intro result agrees
  refine ⟨agrees.cached, agrees.bounded, ?_, fun subject member => ?_⟩
  · rw [agrees.hasCycle]
    simp only [ofSet, Bool.false_or, treeLoops, found]
    apply loops_listedRows valid contextual typed found
    intro tuple outside
    simp [rowLoops, outside]
  · rw [agrees.value subject member]
    simp only [ofSet, value_empty, Kleene.no_or, rewriteValue, directValue,
      found]
    apply any_listedRows valid contextual typed found
    intro tuple outside
    simp only [directRowValue, outside]

theorem expandNode_ttu {tupleset : RelationId}
    (subterm : (Rewrite.tupleToUserset tupleset targets).Subterm (env.model.rewrite source)) :
    NodeAgrees env ceiling budget schedule filter listed cyclic value recurse object
      (.tupleToUserset tupleset targets) := by
  have typed := typed.tupleset subterm
  intro s cached
  apply (dispatch_spec budget schedule cached).bind
  intro s cached
  apply (readRelation_spec budget schedule cached object tupleset).bind
  intro ⟨rows, s⟩ ⟨⟨relation, found, same⟩, cached⟩
  subst same
  refine (expandRows_spec covers listed
    (fun subject => ttuRowValue env ceiling (value subject) relation.restrictions targets)
    (fun _ => false) ?_ ?_ (.ofSet .empty) s (bounded_empty filter) cached).imp ?_
  · intro tuple unmet
    exact ⟨rfl, fun _ => ttuRowValue_of_unmet unmet⟩
  · intro tuple member met
    have admitted := ((mem_listedRows valid contextual typed found).mp member).2
    exact expandTtuRow_spec expands admitted met
  intro result agrees
  refine ⟨agrees.cached, agrees.bounded, ?_, fun subject member => ?_⟩
  · rw [agrees.hasCycle]
    simp [ofSet, treeLoops]
  · rw [agrees.value subject member]
    simp only [ofSet, value_empty, Kleene.no_or, rewriteValue, ttuValue, found]
    apply any_listedRows valid contextual typed found
    intro tuple outside
    simp only [ttuRowValue, outside]

theorem expandNode_spec
    (concrete : ∀ subject, listed subject →
      filterMatches filter subject = true ∧ subject.isTypedWildcard = false) (tree : Rewrite) :
    tree.Subterm (env.model.rewrite source) →
      NodeAgrees env ceiling budget schedule filter listed cyclic value recurse object tree := by
  induction tree with
  | direct owner =>
    intro subterm
    cases typed.direct subterm
    exact expandNode_direct valid contextual covers expands typed concrete
  | computed target =>
    intro subterm s cached
    apply (dispatch_spec budget schedule cached).bind
    intro s cached
    exact expands.agrees (typed.computed subterm) cached
  | tupleToUserset tupleset targets =>
    intro subterm
    exact expandNode_ttu valid contextual covers expands typed subterm
  | union children ih =>
    intro subterm s cached
    have each : ∀ child ∈ children, NodeAgrees env ceiling budget schedule filter listed cyclic
        value recurse object child :=
      fun child member => ih child member ((Rewrite.Subterm.union member (.refl _)).trans subterm)
    apply (dispatch_spec budget schedule cached).bind
    intro s cached
    apply (expandUnion_spec each .empty s (bounded_empty filter) cached).imp
    intro result agrees
    refine ⟨agrees.cached, agrees.bounded, agrees.hasCycle, fun subject member => ?_⟩
    rw [agrees.value subject member, rewriteValue, rewriteValues_eq_map, value_empty,
      Kleene.no_or]
  | intersection children ih =>
    intro subterm s cached
    have each : ∀ child ∈ children, NodeAgrees env ceiling budget schedule filter listed cyclic
        value recurse object child :=
      fun child member =>
        ih child member ((Rewrite.Subterm.intersection member (.refl _)).trans subterm)
    cases children with
    | nil =>
      apply (dispatch_spec budget schedule cached).bind
      intro _ _
      trivial
    | cons first children =>
      apply (dispatch_spec budget schedule cached).bind
      intro s cached
      apply (each first (by simp) s cached).bind
      intro expanded head
      apply (expandIntersection_spec (fun child member => each child (mem_cons_of_mem _ member))
        expanded.1.set expanded.2 head.bounded head.cached).imp
      intro result agrees
      refine ⟨agrees.cached, agrees.bounded, agrees.hasCycle, fun subject member => ?_⟩
      rw [agrees.value subject member, head.value subject member, rewriteValue,
        rewriteValues_eq_map, map_cons, Kleene.all_cons]
  | difference base subtract baseIh subtractIh =>
    intro subterm s cached
    apply (dispatch_spec budget schedule cached).bind
    intro s cached
    apply (baseIh ((Rewrite.Subterm.base (.refl _)).trans subterm) s cached).bind
    intro first firstAgrees
    apply (subtractIh ((Rewrite.Subterm.subtract (.refl _)).trans subterm) first.2
      firstAgrees.cached).bind
    intro second secondAgrees
    simp only [rewriteValue, ← secondAgrees.hasCycle]
    split
    · exact ⟨secondAgrees.cached, bounded_empty filter, rfl, fun subject _ => value_empty⟩
    · apply checkSet_spec
      refine ⟨secondAgrees.cached, fun usersets => isFinite_difference.mpr
        (.inl (firstAgrees.bounded usersets)), rfl, fun subject member => ?_⟩
      simp only [ofSet, value_difference, firstAgrees.value subject member,
        secondAgrees.value subject member]

end Nodes

end Trees

section Relations

/-- The branch path of one subject through the visited relations. -/
def pathOf (visited : Finset RelationKey) (subject : SubjectRef) : BranchPath :=
  visited.image fun key => ⟨key.object, key.relation, subject⟩

variable {visited : Finset RelationKey} {relation : RelationId}

theorem mem_pathOf : ⟨object, relation, subject⟩ ∈ pathOf visited subject ↔
    ⟨object, relation⟩ ∈ visited := by
  rw [pathOf, Finset.mem_image]
  constructor
  · intro ⟨key, member, same⟩
    cases key
    cases same
    exact member
  · exact fun member => ⟨_, member, rfl⟩

theorem pathOf_insert : pathOf (insert ⟨object, relation⟩ visited) subject =
    insert ⟨object, relation, subject⟩ (pathOf visited subject) :=
  Finset.image_insert _ _ _

theorem image_pathOf : (pathOf visited subject).image SemanticKey.relationKey = visited := by
  rw [pathOf, Finset.image_image]
  exact Finset.image_id

theorem identical_eq_true {model : CompiledModel} :
    identical model key = true ↔ ∃ ref, key.subject = .userset ref ∧ ref.object = key.object ∧
      model.relationId ref.object.objectType ref.relation = some key.relation := by
  unfold identical
  split
  · simp_all
  · simp_all

/-- A userset is granted itself unless it is on the path. -/
theorem reference_identical {fuel : Nat} {path : BranchPath} (fresh : key ∉ path)
    (same : identical env.model key = true) :
    reference env ceiling (usersPolicy env ceiling) (fuel + 1) key path = .yes := by
  simp [reference, usersPolicy, fresh, same]

/-- Below a relation other than the one of the subject, the subject is still listed. -/
theorem Listed.below (listed : Listed env.model filter visited subject)
    (other : identical env.model ⟨object, relation, subject⟩ = false) :
    Listed env.model filter (insert ⟨object, relation⟩ visited) subject := by
  refine ⟨listed.matched, listed.concrete, fun ref target named identified member => ?_⟩
  rcases Finset.mem_insert.mp member with same | before
  · cases same
    rw [identical_eq_true.mpr ⟨ref, named, rfl, identified⟩] at other
    cases other
  · exact listed.fresh ref target named identified before

/-- The userset that a filter adds for a relation is the relation's own. -/
theorem value_identity {compiled : CompiledRelation} (typed : env.model.TypedFor object relation)
    (found : env.model.relation relation = some compiled)
    (matched : filterMatches filter subject = true) :
    value subject
      (if filter.userType = object.objectType ∧ filter.relation = some compiled.name then
        .singleton (.userset ⟨object, compiled.name⟩) else .empty) =
      .ofBool (identical env.model ⟨object, relation, subject⟩) := by
  have identified := typed.relationId found
  cases same : identical env.model ⟨object, relation, subject⟩ with
  | true =>
    obtain ⟨⟨at_, name⟩, rfl, rfl, named⟩ := identical_eq_true.mp same
    obtain ⟨content, content_found, content_name, -⟩ := CompiledModel.relationId_eq_some.mp named
    rw [found] at content_found
    cases content_found
    cases content_name
    have listed : filter.userType = at_.objectType ∧ filter.relation = some compiled.name := by
      cases kind : filter.relation with
      | none => simp [filterMatches, kind] at matched
      | some relation => simpa [filterMatches, kind] using matched
    simp [value, listed]
  | false =>
    have other : subject ≠ .userset ⟨object, compiled.name⟩ := by
      rintro rfl
      rw [identical_eq_true.mpr ⟨_, rfl, rfl, identified⟩] at same
      cases same
    split <;> simp [value, other]

/-- The expansion of a relation agrees with the reference semantics under the policy
of listing users. The induction is on the nesting of relations; the subjects carried
below a relation are those it does not grant by identity. -/
theorem expandRelation_spec {budget : ListUsersBudget} {schedule : UsersSchedule}
    (valid : AdmittedRowsValid env) (contextual : validateListContextual env = .ok ())
    (covers : budget.conditionCost.get ≤ ceiling) (nesting : Nat) :
    ∀ (fuel : Nat) (visited : Finset RelationKey) (depth : Nat) (object : ObjectRef)
      (relation : RelationId) (s : UsersEvaluator), nesting < fuel →
      env.model.TypedFor object relation → s.Cached env →
      Ensures (expandRelation env budget schedule filter nesting visited depth object relation s)
        (Agrees env filter (Listed env.model filter visited)
          (loops env ceiling fuel visited object relation)
          fun subject => reference env ceiling (usersPolicy env ceiling) fuel
            ⟨object, relation, subject⟩ (pathOf visited subject)) := by
  induction nesting with
  | zero => exact fun _ _ _ _ _ _ _ _ _ => trivial
  | succ nesting ih =>
    intro fuel visited depth object relation s below typed cached
    obtain ⟨fuel, rfl⟩ : ∃ rest, fuel = rest + 1 := ⟨fuel - 1, by omega⟩
    apply (dispatch_spec budget schedule cached).bind
    intro s cached
    apply (checkDepth_spec budget cached (depth + 1)).bind
    intro s cached
    by_cases entered : ⟨object, relation⟩ ∈ visited
    · rw [if_pos entered]
      refine ⟨cached, bounded_empty filter, ?_, fun subject _ => ?_⟩
      · simp [loops, entered, cycle]
      · simp [reference, mem_pathOf, entered, cycle]
    · rw [if_neg entered]
      refine Ensures.lookup (fun _ => trivial) fun compiled found => ?_
      have expands : Expands env filter
        (Listed env.model filter (insert ⟨object, relation⟩ visited))
          (loops env ceiling fuel (insert ⟨object, relation⟩ visited))
          (fun subject object' target => reference env ceiling (usersPolicy env ceiling) fuel
            ⟨object', target, subject⟩ (pathOf (insert ⟨object, relation⟩ visited) subject))
          (expandRelation env budget schedule filter nesting (insert ⟨object, relation⟩ visited)
            (depth + 1)) := by
        constructor
        · intro object' target s' typed' cached'
          exact ih fuel _ _ object' target s' (by omega) typed' cached'
        · intro ref target listed identified
          obtain ⟨rest, rfl⟩ : ∃ rest, fuel = rest + 1 := ⟨fuel - 1, by omega⟩
          apply reference_identical
          · rw [mem_pathOf]
            exact listed.fresh ref target rfl identified
          · exact identical_eq_true.mpr ⟨ref, rfl, rfl, identified⟩
      apply (expandNode_spec valid contextual covers expands typed
        (fun subject listed => ⟨listed.matched, listed.concrete⟩) _ (.refl _) s cached).bind
      intro expanded agrees
      apply checkSet_spec
      refine ⟨agrees.cached, .union ?_ agrees.bounded, ?_, fun subject listed => ?_⟩
      · intro _
        split <;> trivial
      · simp only [loops, if_neg entered, agrees.hasCycle]
      · rw [value_union, value_identity typed found listed.matched]
        cases same : identical env.model ⟨object, relation, subject⟩ with
        | true =>
          rw [reference_identical (mem_pathOf.not.mpr entered) same]
          rfl
        | false =>
          have cuts : (usersPolicy env ceiling).cuts fuel
              (insert ⟨object, relation, subject⟩ (pathOf visited subject)) object =
              treeLoops env ceiling (loops env ceiling fuel (insert ⟨object, relation⟩ visited))
                object := by
            rw [← pathOf_insert]
            simp only [usersPolicy, image_pathOf]
          rw [agrees.value subject (listed.below same), Kleene.ofBool_false, Kleene.no_or,
            reference, if_neg (mem_pathOf.not.mpr entered), cuts, ← pathOf_insert]
          simp [usersPolicy, same]

end Relations

end OpenFga
