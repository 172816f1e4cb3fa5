import OpenFga.Check.Pruning
import OpenFga.Check.Requests
import OpenFga.List.UsersMeaning

/-!
# Listing users and checking

When listing users agrees with checking each subject. The two departures of
`usersPolicy` are stated over the graph of relations on objects that a query walks:
`Uses` follows the rows and the leaves of a rewrite. A difference can only be cut
where a cycle of that graph lies below its subtracted operand, and identity only
matters where the relation of the asked userset is entered without a row naming it.
-/

namespace OpenFga

open List Sample

variable {object : ObjectRef} {tree : Rewrite} {source root : RelationKey} {s : UsersEvaluator}
  {expansion : Expansion} {command : ListUsersCommand}

section Graph

variable (env : CheckEnvironment) (ceiling : Nat) (skips : SubjectRef → Prop)

/-- The relations on objects a leaf evaluates. Rows whose subject is skipped are not
followed. -/
def Rewrite.LeafUses (object : ObjectRef) : Rewrite → RelationKey → Prop
  | .direct owner, key => ∃ relation, env.model.relation owner = some relation ∧
      ∃ tuple ∈ env.rows object relation.name, conditionValue env ceiling tuple ≠ .no ∧
        ¬ skips tuple.key.subject ∧ ∃ ref, tuple.key.subject = .userset ref ∧
          ref.object = key.object ∧
          admittedClass env.model relation.restrictions tuple = some (.userset key.relation)
  | .computed target, key => key = ⟨object, target⟩
  | .tupleToUserset tupleset targets, key => ∃ relation, env.model.relation tupleset =
      some relation ∧
      ∃ tuple ∈ env.rows object relation.name, conditionValue env ceiling tuple ≠ .no ∧
        tuple.key.subject = .object key.object ∧
        key.relation ∈ targetsFor env.model key.object.objectType targets
  | _, _ => False

/-- Some leaf of a rewrite evaluates the relation on the object. -/
def Rewrite.Uses (object : ObjectRef) (tree : Rewrite) (key : RelationKey) : Prop :=
  ∃ leaf : Rewrite, leaf.Subterm tree ∧ leaf.LeafUses env ceiling skips object key

/-- One relation on an object is evaluated for another. -/
def Leads (source target : RelationKey) : Prop :=
  (env.model.rewrite source.relation).Uses env ceiling skips source.object target

/-- Evaluated for another below the subtracted operand of a difference. -/
def Subtracts (source target : RelationKey) : Prop :=
  ∃ base subtract : Rewrite,
    (Rewrite.difference base subtract).Subterm (env.model.rewrite source.relation) ∧
      subtract.Uses env ceiling skips source.object target

/-- No cycle lies below a subtracted operand that the relation depends on. -/
def NoCycleSubtracted (root : RelationKey) : Prop :=
  ∀ source target cyclic,
    Relation.ReflTransGen (Leads env ceiling fun _ => False) root source →
    Subtracts env ceiling (fun _ => False) source target →
    Relation.ReflTransGen (Leads env ceiling fun _ => False) target cyclic →
    ¬ Relation.TransGen (Leads env ceiling fun _ => False) cyclic cyclic

/-- The relation of the asked userset is entered only through rows that name it. -/
def EnteredByRows (root : RelationKey) (subject : SubjectRef) : Prop :=
  ∀ key, Relation.ReflTransGen (Leads env ceiling (· = subject)) root key →
    identical env.model ⟨key.object, key.relation, subject⟩ = false

variable {env ceiling skips}

theorem Rewrite.Uses.lift {inner : Rewrite} {key : RelationKey}
    (uses : inner.Uses env ceiling skips object key) (subterm : inner.Subterm tree) :
    tree.Uses env ceiling skips object key := by
  obtain ⟨leaf, below, used⟩ := uses
  exact ⟨leaf, below.trans subterm, used⟩

/-- Skipping fewer subjects follows more rows. -/
theorem Leads.skipless {target : RelationKey} (leads : Leads env ceiling skips source target) :
    Leads env ceiling (fun _ => False) source target := by
  obtain ⟨leaf, below, used⟩ := leads
  refine ⟨leaf, below, ?_⟩
  cases leaf with
  | direct owner =>
    obtain ⟨relation, found, tuple, member, met, -, rest⟩ := used
    exact ⟨relation, found, tuple, member, met, not_false, rest⟩
  | computed | tupleToUserset | union | intersection | difference => exact used

/-- What is evaluated for a relation is along an edge of the model. -/
theorem Leads.edge {target : RelationKey} (leads : Leads env ceiling skips source target) :
    target.relation ∈ entry env.model.graph.forward source.relation.index := by
  obtain ⟨leaf, below, used⟩ := leads
  cases found : env.model.relation source.relation with
  | none =>
    simp only [CompiledModel.rewrite, found] at below
    cases below with
    | refl => exact used.elim
    | union member _ => cases member
  | some relation =>
    refine CompiledModel.edge_of_refers found ⟨leaf, below, ?_⟩
    cases leaf with
    | direct owner =>
      obtain ⟨ownerRelation, ownerFound, tuple, -, -, -, ref, -, -, admitted⟩ := used
      obtain ⟨-, restriction, member, -, kind, -⟩ := admittedClass_eq_some.mp admitted
      exact ⟨ownerRelation, ownerFound, restriction, member, restrictionKindMatches_eq_true.mp kind⟩
    | computed => exact congrArg RelationKey.relation used
    | tupleToUserset =>
      obtain ⟨-, -, -, -, -, -, member⟩ := used
      exact mem_of_mem_filter member
    | union | intersection | difference => exact used.elim

end Graph

section Congruence

variable {env : CheckEnvironment} {ceiling : Nat} {subject : SubjectRef} {object : ObjectRef}
  {recurse recurse' : ObjectRef → RelationId → Kleene}

theorem directValue_congr {owner : RelationId}
    (same : ∀ key, (Rewrite.direct owner).LeafUses env ceiling (· = subject) object key →
      recurse key.object key.relation = recurse' key.object key.relation) :
    directValue env ceiling recurse subject object owner =
      directValue env ceiling recurse' subject object owner := by
  unfold directValue
  cases found : env.model.relation owner with
  | none => rfl
  | some relation =>
    apply congrArg Kleene.any
    apply map_congr_left
    intro tuple member
    unfold directRowValue
    cases admitted : admittedClass env.model relation.restrictions tuple with
    | none => rfl
    | some rowClass =>
      cases rowClass with
      | object | wildcard => rfl
      | userset target =>
        cases named : tuple.key.subject with
        | object | typedWildcard => rfl
        | userset ref =>
          by_cases met : conditionValue env ceiling tuple = .no
          · simp only [met, Kleene.no_and]
          · simp only
            split
            · rfl
            · rename_i other
              rw [same ⟨ref.object, target⟩ ⟨relation, found, tuple, member, met,
                fun skipped => other (named ▸ skipped), ref, named, rfl, admitted⟩]

theorem ttuValue_congr {tupleset : RelationId} {targets : List RelationId}
    (same : ∀ key, (Rewrite.tupleToUserset tupleset targets).LeafUses env ceiling (· = subject)
      object key → recurse key.object key.relation = recurse' key.object key.relation) :
    ttuValue env ceiling recurse object tupleset targets =
      ttuValue env ceiling recurse' object tupleset targets := by
  unfold ttuValue
  cases found : env.model.relation tupleset with
  | none => rfl
  | some relation =>
    apply congrArg Kleene.any
    apply map_congr_left
    intro tuple member
    unfold ttuRowValue
    split
    · rename_i target _ named
      by_cases met : conditionValue env ceiling tuple = .no
      · simp only [met, Kleene.no_and]
      · congr 2
        apply map_congr_left
        intro chosen inside
        exact same ⟨target, chosen⟩ ⟨relation, found, tuple, member, met, named, inside⟩
    · rfl

/-- A rewrite has the same value when the keys it uses do and the same of its
differences are cut. -/
theorem rewriteValue_congr {cuts cuts' : Rewrite → Bool}
    (same : ∀ key, tree.Uses env ceiling (· = subject) object key →
      recurse key.object key.relation = recurse' key.object key.relation)
    (cut : ∀ base subtract : Rewrite, (Rewrite.difference base subtract).Subterm tree →
      cuts subtract = cuts' subtract) : rewriteValue env ceiling cuts recurse subject object tree =
      rewriteValue env ceiling cuts' recurse' subject object tree := by
  induction tree with
  | direct owner => exact directValue_congr fun key uses => same key ⟨_, .refl _, uses⟩
  | computed target => exact same ⟨object, target⟩ ⟨_, .refl _, rfl⟩
  | tupleToUserset tupleset targets =>
    exact ttuValue_congr fun key uses => same key ⟨_, .refl _, uses⟩
  | union children ih =>
    simp only [rewriteValue, rewriteValues_eq_map]
    apply congrArg Kleene.any
    apply map_congr_left
    intro child member
    have inside : child.Subterm (.union children) := .union member (.refl _)
    exact ih child member (fun key uses => same key (uses.lift inside))
      (fun base subtract below => cut base subtract (below.trans inside))
  | intersection children ih =>
    simp only [rewriteValue, rewriteValues_eq_map]
    apply congrArg Kleene.all
    apply map_congr_left
    intro child member
    have inside : child.Subterm (.intersection children) := .intersection member (.refl _)
    exact ih child member (fun key uses => same key (uses.lift inside))
      (fun base subtract below => cut base subtract (below.trans inside))
  | difference base subtract baseIh subtractIh =>
    simp only [rewriteValue]
    rw [cut base subtract (.refl _),
      baseIh (fun key uses => same key (uses.lift (.base (.refl _))))
        (fun first second below => cut first second (.base below)),
      subtractIh (fun key uses => same key (uses.lift (.subtract (.refl _))))
        (fun first second below => cut first second (.subtract below))]

end Congruence

section Departures

variable {env : CheckEnvironment} {ceiling : Nat}

theorem treeLoops_uses {cyclic : ObjectRef → RelationId → Bool}
    (looping : treeLoops env ceiling cyclic object tree = true) :
    ∃ key : RelationKey, tree.Uses env ceiling (fun _ => False) object key ∧
      cyclic key.object key.relation = true := by
  cases tree with
  | direct owner =>
    simp only [treeLoops] at looping
    cases found : env.model.relation owner with
    | none => simp [found] at looping
    | some relation =>
      simp only [found, any_eq_true] at looping
      obtain ⟨tuple, member, loop⟩ := looping
      simp only [rowLoops, Bool.and_eq_true, decide_eq_true_eq] at loop
      obtain ⟨met, loop⟩ := loop
      split at loop
      · rename_i target ref admitted named
        exact ⟨⟨ref.object, target⟩, ⟨_, .refl _, relation, found, tuple, member, by simp [met],
          not_false, ref, named, rfl, admitted⟩, loop⟩
      · cases loop
  | computed target => exact ⟨⟨object, target⟩, ⟨_, .refl _, rfl⟩, looping⟩
  | tupleToUserset | union | intersection | difference => cases looping

/-- A relation that re-enters its branch leads to a cycle. -/
theorem loops_cycle : ∀ (fuel : Nat) (visited : Finset RelationKey) (key : RelationKey),
    loops env ceiling fuel visited key.object key.relation = true →
    (∀ earlier ∈ visited, Relation.TransGen (Leads env ceiling fun _ => False) earlier key) →
    ∃ cyclic, Relation.ReflTransGen (Leads env ceiling fun _ => False) key cyclic ∧
      Relation.TransGen (Leads env ceiling fun _ => False) cyclic cyclic := by
  intro fuel
  induction fuel with
  | zero =>
    intro visited key looping
    cases looping
  | succ fuel ih =>
    intro visited key looping leads
    by_cases entered : key ∈ visited
    · exact ⟨key, .refl, leads key entered⟩
    · have inner : treeLoops env ceiling (loops env ceiling fuel (insert key visited)) key.object
          (env.model.rewrite key.relation) = true := by
        simpa [loops, entered] using looping
      obtain ⟨next, uses, again⟩ := treeLoops_uses inner
      have step : Leads env ceiling (fun _ => False) key next := uses
      obtain ⟨cyclic, reached, cycle⟩ := ih (insert key visited) next again (by
        intro earlier member
        rcases Finset.mem_insert.mp member with rfl | before
        · exact .single step
        · exact (leads earlier before).tail step)
      exact ⟨cyclic, .head step reached, cycle⟩

/-- Without cycles below subtracted operands no difference is cut. -/
theorem uncut_of_noCycle (acyclic : NoCycleSubtracted env ceiling root)
    (reached : Relation.ReflTransGen (Leads env ceiling fun _ => False) root source)
    {visited : Finset RelationKey} (leads : ∀ earlier ∈ visited,
      Relation.ReflTransGen (Leads env ceiling fun _ => False) earlier source)
    {base subtract : Rewrite} (fuel : Nat)
    (below : (Rewrite.difference base subtract).Subterm (env.model.rewrite source.relation)) :
    treeLoops env ceiling (loops env ceiling fuel visited) source.object subtract = false := by
  by_contra looping
  obtain ⟨target, uses, again⟩ := treeLoops_uses (Bool.eq_true_of_not_eq_false looping)
  have step : Leads env ceiling (fun _ => False) source target :=
    uses.lift ((Rewrite.Subterm.subtract (.refl _)).trans below)
  obtain ⟨cyclic, inside, cycle⟩ := loops_cycle fuel visited target again
    fun earlier member => Relation.TransGen.tail' (leads earlier member) step
  exact acyclic source target cyclic reached ⟨base, subtract, below, uses⟩ inside cycle

/-- Where neither departure can show, listing follows the bare rewrite rules. -/
theorem reference_usersPolicy {subject : SubjectRef} (acyclic : NoCycleSubtracted env ceiling root)
    (named : EnteredByRows env ceiling root subject) (fuel : Nat) :
    ∀ (key : RelationKey) (path : BranchPath),
      Relation.ReflTransGen (Leads env ceiling (· = subject)) root key →
      (∀ earlier ∈ path, Relation.ReflTransGen (Leads env ceiling fun _ => False)
        earlier.relationKey key) →
      reference env ceiling (usersPolicy env ceiling) fuel
        ⟨key.object, key.relation, subject⟩ path =
        reference env ceiling .bare fuel ⟨key.object, key.relation, subject⟩ path := by
  induction fuel with
  | zero => exact fun _ _ _ _ => rfl
  | succ fuel ih =>
    intro key path reached leads
    have plain := named key reached
    have skipless : Relation.ReflTransGen (Leads env ceiling fun _ => False) root key :=
      Relation.ReflTransGen.mono (fun _ _ leads => Leads.skipless leads) _ _ reached
    have leads' : ∀ earlier ∈ insert ⟨key.object, key.relation, subject⟩ path,
        Relation.ReflTransGen (Leads env ceiling fun _ => False) earlier.relationKey key := by
      intro earlier member
      rcases Finset.mem_insert.mp member with rfl | before
      · exact .refl
      · exact leads earlier before
    have visited : ∀ earlier ∈ (insert ⟨key.object, key.relation, subject⟩ path).image
        SemanticKey.relationKey,
        Relation.ReflTransGen (Leads env ceiling fun _ => False) earlier key := by
      intro earlier member
      obtain ⟨full, inside, rfl⟩ := Finset.mem_image.mp member
      exact leads' full inside
    simp only [reference, usersPolicy, CheckPolicy.bare, plain, Bool.false_eq_true, if_false]
    split
    · rfl
    · apply rewriteValue_congr
      · intro next uses
        apply ih next _ (reached.tail uses)
        intro earlier member
        exact (leads' earlier member).tail (Leads.skipless uses)
      · intro base subtract below
        exact uncut_of_noCycle acyclic skipless visited fuel below

end Departures

section Agreement

variable {env : CheckEnvironment} {ceiling : Nat} {budget : ListUsersBudget}
  {schedule : UsersSchedule} {filter : UserTypeFilter} {object : ObjectRef} {root : RelationId}
  {subject : SubjectRef}

/-- Listing users has decided the subject, in the semantics of its policy. -/
def ListedAs (env : CheckEnvironment) (ceiling : Nat) (key : SemanticKey) (listed : Bool) : Prop :=
  ∀ᶠ fuel in Filter.atTop,
    reference env ceiling (usersPolicy env ceiling) fuel key ∅ = .ofBool listed

/-- Checking has decided the subject: in the reference semantics, and so in every run
that answers a request for it. -/
def CheckedAs (env : CheckEnvironment) (ceiling : Nat) (key : SemanticKey)
    (allowed : Bool) : Prop :=
  (∀ᶠ fuel in Filter.atTop,
    reference env ceiling (.pruned env.model) fuel key ∅ = .ofBool allowed) ∧
  ∀ (schedule : Schedule) (input : RootInput) (decision : Decision),
    input.tuple.object = key.object → input.tuple.subject = key.subject →
    env.model.relationId key.object.objectType input.tuple.relation = some key.relation →
    evaluateRoot env schedule input = .ok decision → decision.allowed = allowed

theorem checkedAs_of_eventually {key : SemanticKey} {allowed : Bool}
    (covers : env.budget.maximumConditionCost ≤ ceiling)
    (decided : ∀ᶠ fuel in Filter.atTop,
      reference env ceiling (.pruned env.model) fuel key ∅ = .ofBool allowed) :
    CheckedAs env ceiling key allowed := by
  refine ⟨decided, fun schedule input decision sameObject sameSubject named returned => ?_⟩
  obtain ⟨relation, validated, answer⟩ := reference_of_answer returned
  have identified := ((env.model.validateQueryTuple_spec input.tuple).of_ok validated).1
  rw [sameObject, named] at identified
  cases identified
  have asked : (input.root key.relation).key = key := by
    simp [RootInput.root, SemanticWork.key, sameObject, sameSubject]
  obtain ⟨fuel, answered, listed⟩ := ((answer ceiling covers).and decided).exists
  rw [asked, listed] at answered
  cases allowed <;> cases same : decision.allowed <;> simp_all

/-- What is listed is checked alike where no departure can show. -/
theorem ListedAs.checkedAs {listed : Bool}
    (decided : ListedAs env ceiling ⟨object, root, subject⟩ listed)
    (covers : env.budget.maximumConditionCost ≤ ceiling)
    (acyclic : NoCycleSubtracted env ceiling ⟨object, root⟩)
    (named : EnteredByRows env ceiling ⟨object, root⟩ subject) :
    CheckedAs env ceiling ⟨object, root, subject⟩ listed := by
  apply checkedAs_of_eventually covers
  apply decided.mono
  intro fuel same
  have bare := reference_usersPolicy acyclic named fuel ⟨object, root⟩ ∅ .refl (by simp)
  have refines : (reference env ceiling .bare fuel ⟨object, root, subject⟩ ∅).Refines
      (reference env ceiling (.pruned env.model) fuel ⟨object, root, subject⟩ ∅) :=
    bare_refines_pruned fuel _ ∅
  rw [← bare, same] at refines
  apply refines.eq_of_determined
  cases listed <;> simp

theorem enteredByRows_object {root : RelationKey} (user : ObjectRef) :
    EnteredByRows env ceiling root (.object user) :=
  fun _ _ => rfl

/-- The expansion of a relation lists its concrete subjects by the policy. -/
theorem listedAs_of_expanded (valid : AdmittedRowsValid env)
    (contextual : validateListContextual env = .ok ()) (typed : env.model.TypedFor object root)
    (covers : budget.conditionCost.get ≤ ceiling) {nesting : Nat} {s' : UsersEvaluator}
    (cached : s.Cached env)
    (expanded : expandRelation env budget schedule filter nesting ∅ 0 object root s =
      .ok (expansion, s')) (matched : filterMatches filter subject = true)
    (concrete : subject.isTypedWildcard = false) :
    ListedAs env ceiling ⟨object, root, subject⟩ (decide (expansion.set.Denotes subject)) := by
  apply Filter.eventually_atTop.mpr
  refine ⟨nesting + 1, fun fuel below => ?_⟩
  have agrees := (expandRelation_spec valid contextual covers nesting fuel ∅ 0 object root s below
    typed cached).of_ok expanded
  exact (agrees.value subject ⟨matched, concrete, by simp⟩).symm

/-- Where all edges of the model fall there is no cycle at all. -/
theorem noCycleSubtracted_of_falling {root : RelationKey}
    (falls : ∀ edges ∈ env.model.graph.forward.zipIdx, ∀ target ∈ edges.1,
      target.index < edges.2) : NoCycleSubtracted env ceiling root := by
  have step {source target : RelationKey}
    (leads : Leads env ceiling (fun _ => False) source target) :
      target.relation.index < source.relation.index := by
    have edge := leads.edge
    unfold entry at edge
    cases found : env.model.graph.forward[source.relation.index]? with
    | none => simp [List.getD, found] at edge
    | some targets =>
      rw [List.getD, found] at edge
      exact falls _ (mk_mem_zipIdx_iff_getElem?.mpr found) target.relation edge
  intro source target cyclic _ _ _ cycle
  have falling : ∀ {last}, Relation.TransGen (Leads env ceiling fun _ => False) cyclic last →
      last.relation.index < cyclic.relation.index := by
    intro last path
    induction path with
    | single leads => exact step leads
    | tail _ leads ih => exact (step leads).trans ih
  exact lt_irrefl _ (falling cycle)

/-- An expansion for a plain type lists a user of the type exactly if checking the
user, with differences over cyclic operands cut, is allowed. Where no cycle lies
below a subtracted operand, it is exactly if the check allows. -/
theorem expansion_agrees_with_check {userType : TypeName} {relation : RelationName}
    {s s' : UsersEvaluator} {expansion : Expansion}
    (valid : AdmittedRowsValid env) (contextual : validateListContextual env = .ok ())
    (named : env.model.relationId object.objectType relation = some root) (cached : s.Cached env)
    (expanded : expandRelation env budget schedule ⟨userType, none⟩ (budget.depth.get + 1) ∅ 0
      object root s = .ok (expansion, s'))
    (coversList : budget.conditionCost.get ≤ ceiling)
    (coversCheck : env.budget.maximumConditionCost ≤ ceiling)
    (user : ObjectRef) (typed : user.objectType = userType) :
    ListedAs env ceiling ⟨object, root, .object user⟩
      (decide (expansion.set.Denotes (.object user))) ∧
    (NoCycleSubtracted env ceiling ⟨object, root⟩ →
      CheckedAs env ceiling ⟨object, root, .object user⟩
        (decide (expansion.set.Denotes (.object user)))) := by
  have matched : filterMatches ⟨userType, none⟩ (.object user) = true := by
    simp [filterMatches, typed]
  have listed := listedAs_of_expanded valid contextual
    (CompiledModel.typedFor_of_relationId named) coversList cached expanded matched rfl
  exact ⟨listed, fun acyclic => listed.checkedAs coversCheck acyclic (enteredByRows_object user)⟩

namespace Sample

/-! Groups with `member: [user, group#member]`, and documents with
`blocked: [user, group#member]` and `viewer: [user] but not blocked`. -/

def group : TypeName := ⟨"group"⟩

def blocking : CompiledModel where
  storeId := ⟨"store"⟩
  modelId := ⟨"model"⟩
  types := [user, group, document]
  relations :=
    [⟨⟨1⟩, ⟨"member"⟩, ⟨0⟩,
        [⟨⟨0⟩, .object, .unconditional⟩, ⟨⟨1⟩, .userset ⟨0⟩, .unconditional⟩]⟩,
      ⟨⟨2⟩, ⟨"blocked"⟩, ⟨1⟩,
        [⟨⟨0⟩, .object, .unconditional⟩, ⟨⟨1⟩, .userset ⟨0⟩, .unconditional⟩]⟩,
      ⟨⟨2⟩, ⟨"viewer"⟩, ⟨4⟩, [⟨⟨0⟩, .object, .unconditional⟩]⟩]
  nodes := [.direct ⟨0⟩, .direct ⟨1⟩, .direct ⟨2⟩, .computed ⟨1⟩, .difference ⟨2⟩ ⟨3⟩]
  conditions := []
  graph := ⟨[{⟨0⟩}, {⟨0⟩}, {⟨1⟩}], [{⟨1⟩, ⟨0⟩}, {⟨2⟩}, ∅],
    [{⟨1⟩, ⟨0⟩}, {⟨1⟩, ⟨0⟩}, {⟨1⟩, ⟨0⟩}], [∅, ∅, ∅]⟩
  types_nodup := by decide
  relations_nodup := by decide
  conditions_nodup := nodup_nil
  relations_valid := by decide
  restrictions_valid := by decide
  children_precede := by decide
  nodes_scoped := by decide
  graph_eq := by decide

def team (name : String) : ObjectRef := ⟨group, ⟨name⟩⟩

def members (name : String) : SubjectRef := .userset ⟨team name, ⟨"member"⟩⟩

/-- Two groups are members of each other, and the plan is blocked for one of them. -/
def mutualGroups : CheckEnvironment :=
  { environment [(⟨team "a", ⟨"member"⟩, members "b"⟩ : TupleKey).bare,
      (⟨team "b", ⟨"member"⟩, members "a"⟩ : TupleKey).bare,
      onPlan "blocked" (members "a"), onPlan "viewer" anne] with model := blocking }

/-- The same without members that are groups. -/
def screening : CompiledModel :=
  { blocking with
    relations :=
      [⟨⟨1⟩, ⟨"member"⟩, ⟨0⟩, [⟨⟨0⟩, .object, .unconditional⟩]⟩,
        ⟨⟨2⟩, ⟨"blocked"⟩, ⟨1⟩,
          [⟨⟨0⟩, .object, .unconditional⟩, ⟨⟨1⟩, .userset ⟨0⟩, .unconditional⟩]⟩,
        ⟨⟨2⟩, ⟨"viewer"⟩, ⟨4⟩, [⟨⟨0⟩, .object, .unconditional⟩]⟩]
    graph := ⟨[∅, {⟨0⟩}, {⟨1⟩}], [{⟨1⟩}, {⟨2⟩}, ∅], [{⟨0⟩}, {⟨1⟩, ⟨0⟩}, {⟨1⟩, ⟨0⟩}], [∅, ∅, ∅]⟩
    relations_nodup := by decide
    relations_valid := by decide
    restrictions_valid := by decide
    nodes_scoped := by decide
    graph_eq := by decide }

def bob : SubjectRef := .object ⟨user, ⟨"bob"⟩⟩

/-- Two viewers of the plan, one of whom is in a group for which it is blocked. -/
def screened : CheckEnvironment :=
  { environment [(⟨team "a", ⟨"member"⟩, bob⟩ : TupleKey).bare, onPlan "blocked" (members "a"),
      onPlan "viewer" anne, onPlan "viewer" bob] with model := screening }

/-- The default ceilings of a listing of users. -/
def usersBudget : ListUsersBudget :=
  ⟨.of 25, .of 10000, .of 1000, .of 10000, .of 10000, .of 100000⟩

def undisturbed : UsersSchedule := ⟨fun _ => none, fun _ => false⟩

end Sample

theorem Sample.screened_valid : AdmittedRowsValid screened :=
  admittedRowsValid_of_accepts (by decide)

theorem Sample.screened_acyclic (root : RelationKey) : NoCycleSubtracted screened 100000 root :=
  noCycleSubtracted_of_falling (by decide)

/-- The viewer who is not blocked is listed, the other is not, and both are checked alike. -/
theorem expansion_agrees_with_check_screened :
    (∃ expansion s, expandRelation screened usersBudget undisturbed
      ⟨user, none⟩ 26 ∅ 0 plan ⟨2⟩ .new = .ok (expansion, s) ∧
      expansion.set.Denotes anne ∧ ¬ expansion.set.Denotes bob) ∧
    CheckedAs screened 100000 ⟨plan, ⟨2⟩, anne⟩ true ∧
    CheckedAs screened 100000 ⟨plan, ⟨2⟩, bob⟩ false := by
  have expanded : ∃ expansion s, expandRelation screened usersBudget undisturbed
      ⟨user, none⟩ 26 ∅ 0 plan ⟨2⟩ .new = .ok (expansion, s) ∧
      expansion.set.Denotes anne ∧ ¬ expansion.set.Denotes bob := ⟨_, _, rfl, by decide, by decide⟩
  refine ⟨expanded, ?_⟩
  obtain ⟨expansion, s, returned, listed, unlisted⟩ := expanded
  have named : screened.model.relationId plan.objectType ⟨"viewer"⟩ = some ⟨2⟩ := by
    decide
  have agrees (name : String) := (expansion_agrees_with_check screened_valid rfl named
    (UsersEvaluator.cached_new _) returned (le_refl 100000) (le_refl 100000)
    ⟨user, ⟨name⟩⟩ rfl).2 (screened_acyclic _)
  exact ⟨decide_eq_true listed ▸ agrees "anne", decide_eq_false unlisted ▸ agrees "bob"⟩

/-- The cycle of the two groups cuts the difference, and the viewer is not listed
although the check allows. -/
theorem expansion_misses_viewer :
    (∃ expansion s, expandRelation mutualGroups usersBudget undisturbed
      ⟨user, none⟩ 26 ∅ 0 plan ⟨2⟩ .new = .ok (expansion, s) ∧
      ¬ expansion.set.Denotes anne) ∧
    ∃ decision, evaluateRoot mutualGroups (joining 0) request = .ok decision ∧
      decision.allowed = true := by
  refine ⟨⟨_, _, rfl, by decide⟩, ?_⟩
  exact ⟨_, rfl, by decide⟩

/-- A command with one filter returns the subjects of one expansion. -/
theorem listUsers_single {outcome : ListUsersOutcome} (single : command.filters = [filter])
    (returned : listUsers env budget schedule command = .ok outcome) :
    validateListContextual env = .ok () ∧
    ∃ root expansion s, env.model.relationId command.object.objectType command.relation =
      some root ∧
      expandRelation env budget schedule filter (budget.depth.get + 1) ∅ 0
        command.object root .new = .ok (expansion, s) ∧
      outcome.users = ((expansion.set.intoSubjects filter).sort (· ≤ ·)).take
        command.maximumResults ∧
      outcome.truncated =
        decide (command.maximumResults < (expansion.set.intoSubjects filter).card) := by
  unfold listUsers at returned
  cases identity : validateQueryModel command.query env.model with
  | error failure => simp [identity, bind, Except.bind] at returned
  | ok _ =>
  cases contextual : validateListContextual env with
  | error failure => simp [identity, contextual, bind, Except.bind] at returned
  | ok _ =>
  cases named : env.model.relationId command.object.objectType command.relation with
  | none => simp [identity, contextual, named, bind, Except.bind] at returned
  | some root =>
  cases filters : validateFilters env.model command.filters with
  | error failure => simp [identity, contextual, named, filters, bind, Except.bind] at returned
  | ok _ =>
  rw [identity, contextual, named, filters, single] at returned
  simp only [bind, Except.bind, orError_some, expandFilters, Finset.empty_union] at returned
  split at returned
  · cases returned
  · rename_i result expanded
    split at expanded
    · cases expanded
    · rename_i inner found
      split at expanded
      · cases expanded
      · cases expanded
        cases returned
        exact ⟨rfl, root, inner.1, inner.2, rfl, found, rfl, rfl⟩

/-- An untruncated listing of usersets returns a userset exactly if checking it is
allowed, with every userset granted its own relation and differences over cyclic
operands cut. Where no departure can show, it is exactly if the check allows. -/
theorem listed_usersets_agree_with_check {command : ListUsersCommand} {outcome : ListUsersOutcome}
    {userType : TypeName} {name : RelationName} (valid : AdmittedRowsValid env)
    (single : command.filters = [⟨userType, some name⟩])
    (returned : listUsers env budget schedule command = .ok outcome)
    (whole : outcome.truncated = false) (coversList : budget.conditionCost.get ≤ ceiling)
    (coversCheck : env.budget.maximumConditionCost ≤ ceiling)
    (holder : ObjectRef) (typed : holder.objectType = userType) :
    ∃ root, env.model.relationId command.object.objectType command.relation = some root ∧
      ListedAs env ceiling ⟨command.object, root, .userset ⟨holder, name⟩⟩
        (decide (.userset ⟨holder, name⟩ ∈ outcome.users)) ∧
      (NoCycleSubtracted env ceiling ⟨command.object, root⟩ →
        EnteredByRows env ceiling ⟨command.object, root⟩ (.userset ⟨holder, name⟩) →
        CheckedAs env ceiling ⟨command.object, root, .userset ⟨holder, name⟩⟩
          (decide (.userset ⟨holder, name⟩ ∈ outcome.users))) := by
  obtain ⟨contextual, root, expansion, s, named, expanded, users, truncated⟩ :=
    listUsers_single single returned
  have typedFor := CompiledModel.typedFor_of_relationId named
  have matched : filterMatches ⟨userType, some name⟩ (.userset ⟨holder, name⟩) = true := by
    simp [filterMatches, typed]
  have listed := listedAs_of_expanded valid contextual typedFor coversList
    (UsersEvaluator.cached_new env) expanded matched rfl
  have bounded : expansion.set.IsFinite := by
    have agrees := (expandRelation_spec valid contextual coversList (budget.depth.get + 1) _ ∅ 0
      command.object root .new (Nat.lt_succ_self _) typedFor
      (UsersEvaluator.cached_new env)).of_ok expanded
    exact agrees.bounded (by simp)
  have member : expansion.set.Denotes (.userset ⟨holder, name⟩) ↔
      .userset ⟨holder, name⟩ ∈ outcome.users := by
    rw [whole, eq_comm, decide_eq_false_iff_not, not_lt] at truncated
    rw [users, take_of_length_le (by rwa [Finset.length_sort]), Finset.mem_sort]
    cases held : expansion.set with
    | finite values => rfl
    | cofinite excluded included => simp [held, SymbolicSet.IsFinite] at bounded
  rw [decide_eq_decide.mpr member] at listed
  exact ⟨root, named, listed, fun acyclic entered => listed.checkedAs coversCheck acyclic entered⟩

namespace Sample

/-- Asks for the subjects of one filter that are related to the plan. -/
def listing (relation : String) (filter : UserTypeFilter) : ListUsersCommand :=
  ⟨⟨⟨"store"⟩, .latest⟩, plan, ⟨relation⟩, [filter], 10⟩

end Sample

/-- A valid command whose one filter expands to one subject returns it. -/
theorem listUsers_of_expanded (single : command.filters = [filter])
    (identity : validateQueryModel command.query env.model = .ok ())
    (contextual : validateListContextual env = .ok ())
    (named : env.model.relationId command.object.objectType command.relation = some root)
    (filters : validateFilters env.model [filter] = .ok ())
    (expanded : expandRelation env budget schedule filter (budget.depth.get + 1) ∅ 0 command.object
      root .new = .ok (expansion, s)) (subjects : expansion.set.intoSubjects filter = {subject})
    (room : 0 < budget.subjects.get) (results : 0 < command.maximumResults) :
    ∃ outcome, listUsers env budget schedule command = .ok outcome ∧ outcome.truncated = false ∧
      subject ∈ outcome.users := by
  have fits : ¬ budget.subjects.get < 1 := by omega
  refine ⟨⟨[subject].take command.maximumResults, s.dispatches, s.datastoreQueries, s.tupleItems,
    s.conditionCost, s.maximumDepth, decide (command.maximumResults < 1)⟩, ?_, ?_, ?_⟩
  · simp [listUsers, identity, contextual, named, single, filters, expandFilters, expanded, bind,
      Except.bind, subjects, UsersEvaluator.checkSubjectCount, fits]
  · simpa using Nat.ne_of_gt results
  · rw [take_of_length_le results]
    exact mem_singleton_self subject

/-- The only relation that blocking the plan depends on is entered by the row that names it. -/
theorem Sample.blocked_entered : EnteredByRows screened 100000 ⟨plan, ⟨1⟩⟩ (members "a") := by
  intro key path
  cases path.cases_head with
  | inl same =>
    cases same
    decide
  | inr later =>
    obtain ⟨next, ⟨leaf, below, used⟩, -⟩ := later
    cases below
    obtain ⟨relation, found, tuple, member, -, other, -⟩ := used
    cases found
    have rows : screened.rows plan ⟨"blocked"⟩ = [onPlan "blocked" (members "a")] := by decide
    rw [rows] at member
    cases mem_singleton.mp member
    exact absurd rfl other

/-- The plan is blocked for the members of the group, whom the listing returns. -/
theorem listed_usersets_agree_with_check_blocked :
    ∃ outcome, listUsers screened usersBudget undisturbed
        (listing "blocked" ⟨group, some ⟨"member"⟩⟩) = .ok outcome ∧
      members "a" ∈ outcome.users ∧
      ListedAs screened 100000 ⟨plan, ⟨1⟩, members "a"⟩ true ∧
      CheckedAs screened 100000 ⟨plan, ⟨1⟩, members "a"⟩ true := by
  have expanded : ∃ expansion s, expandRelation screened usersBudget
      undisturbed ⟨group, some ⟨"member"⟩⟩ 26 ∅ 0 plan ⟨1⟩ .new =
        .ok (expansion, s) ∧
      expansion.set.intoSubjects ⟨group, some ⟨"member"⟩⟩ = {members "a"} :=
    ⟨_, _, rfl, by decide⟩
  obtain ⟨expansion, s, ran, subjects⟩ := expanded
  have named : screened.model.relationId plan.objectType ⟨"blocked"⟩ = some ⟨1⟩ := by
    decide
  obtain ⟨outcome, returned, whole, member⟩ := listUsers_of_expanded
    (show (listing "blocked" ⟨group, some ⟨"member"⟩⟩).filters = _ from rfl) rfl rfl
    named rfl ran subjects (by decide) (by decide)
  obtain ⟨root, identified, listed, checked⟩ := listed_usersets_agree_with_check screened_valid rfl
    returned whole (le_refl 100000) (le_refl 100000) (team "a") rfl
  have same := named.symm.trans identified
  cases same
  have shown : decide (.userset ⟨team "a", ⟨"member"⟩⟩ ∈ outcome.users) = true :=
    decide_eq_true member
  rw [shown] at listed checked
  exact ⟨outcome, returned, member, listed, checked (screened_acyclic _) blocked_entered⟩

/-- The editors of the plan are listed among its editors, but not so checked. -/
theorem listing_returns_own_userset :
    (∃ outcome, listUsers edited usersBudget undisturbed
        (listing "editor" ⟨document, some ⟨"editor"⟩⟩) = .ok outcome ∧
      outcome.truncated = false ∧ .userset ⟨plan, ⟨"editor"⟩⟩ ∈ outcome.users) ∧
    ∃ decision, evaluateRoot edited (joining 0) ⟨⟨"store"⟩, .latest,
        ⟨plan, ⟨"editor"⟩, .userset ⟨plan, ⟨"editor"⟩⟩⟩⟩ = .ok decision ∧
      decision.allowed = false := by
  have expanded : ∃ expansion s, expandRelation edited usersBudget
      undisturbed ⟨document, some ⟨"editor"⟩⟩ 26 ∅ 0 plan ⟨0⟩ .new =
        .ok (expansion, s) ∧
      expansion.set.intoSubjects ⟨document, some ⟨"editor"⟩⟩ =
        {.userset ⟨plan, ⟨"editor"⟩⟩} := ⟨_, _, rfl, by decide⟩
  obtain ⟨expansion, s, ran, subjects⟩ := expanded
  have named : edited.model.relationId plan.objectType ⟨"editor"⟩ = some ⟨0⟩ := by
    decide
  constructor
  · exact listUsers_of_expanded rfl rfl rfl named rfl ran subjects (by decide) (by decide)
  · exact ⟨_, rfl, by decide⟩

end Agreement

end OpenFga
