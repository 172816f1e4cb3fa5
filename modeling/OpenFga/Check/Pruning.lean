import OpenFga.Check.Rules

/-!
# Reachability pruning

A key whose subject the compiled tables call unreachable is never granted by the
rewrite rules. The tables are closed under the reference edges of the relations,
so reachability is kept by every rule (`derive_reachable`): a row that matches the
subject is admitted by a restriction whose type the tables record, and a fact a
rule refers to belongs to a relation along an edge.
-/

namespace OpenFga

open Sample

variable {source target : RelationId} {relation : CompiledRelation} {subject : SubjectRef}

namespace CompiledModel

variable {model : CompiledModel}

/-- The table that decides whether a relation can reach a subject. -/
def reachTable (model : CompiledModel) (subject : SubjectRef) : List (Finset TypeId) :=
  if subject.isTypedWildcard then model.graph.reachableWildcards else model.graph.reachableTypes

theorem unreachable_eq_false {key : SemanticKey} : unreachable model key = false ↔
    ∀ type, model.typeId key.subject.subjectType = some type →
      type ∈ entry (model.reachTable key.subject) key.relation.index := by
  unfold unreachable reachTable
  cases model.typeId key.subject.subjectType with
  | none => simp
  | some type =>
    cases key.subject.isTypedWildcard <;>
      simp [canReachSubjectType, canReachWildcard]

section

variable (found : model.relation source = some relation)

include found

/-- A relation reaches all that a relation it refers to reaches. -/
theorem reachTable_closed (edge : target ∈ entry model.graph.forward source.index)
    (subject : SubjectRef) :
    entry (model.reachTable subject) target.index ⊆ entry (model.reachTable subject)
      source.index := by
  obtain ⟨inside, -⟩ := List.getElem?_eq_some_iff.mp found
  have sized := (linkRelations_grows_build model.relations model.nodes).sized
    (linkRelations_sized model.relations model.nodes)
  obtain ⟨types, wildcards⟩ := reachability_closed model.relations model.nodes
  rw [← model.graph_eq] at sized types wildcards
  unfold reachTable
  cases subject.isTypedWildcard with
  | true => exact wildcards source.index (by rw [sized.wildcards]; exact inside) target edge
  | false => exact types source.index (by rw [sized.types]; exact inside) target edge

/-- A subterm of the rewrite of a relation is recorded in its tables. -/
theorem subterm_recorded {tree : Rewrite} (subterm : tree.Subterm (model.rewrite source)) :
    ∃ node, Recorded model.relations source.index model.graph node ∧
      NodeScoped model.relations model.nodes source relation.objectType node ∧
      node.expand model.tree = tree := by
  obtain ⟨inner, visited, node, content, expanded⟩ := subterm_node found subterm
  exact ⟨node, visited_recorded found visited content, visited_scoped found visited content,
    expanded⟩

/-- The relations a rewrite refers to are along the edges of its relation. -/
theorem edge_of_refers (refers : (model.rewrite source).Refers model target) :
    target ∈ entry model.graph.forward source.index := by
  obtain ⟨leaf, subterm, leafRefers⟩ := refers
  obtain ⟨node, recorded, -, rfl⟩ := subterm_recorded found subterm
  cases node with
  | direct owner =>
    obtain ⟨ownerRelation, ownerFound, restriction, member, kind⟩ := leafRefers
    exact (recorded ownerRelation ownerFound restriction member).2.2 target kind
  | computed referred => exact leafRefers ▸ recorded
  | tupleToUserset tupleset name targets => exact recorded target leafRefers
  | union | intersection | difference => exact leafRefers.elim

end

end CompiledModel

section Reachability

variable {env : CheckEnvironment} {ceiling : Nat}

open CompiledModel

/-- A direct row that grants the subject is recorded for it, or uses a fact. -/
theorem DirectRowHolds.recorded {facts : ObjectRef → RelationId → Prop}
    {restrictions : List DirectRestriction} {tuple : RelationshipTuple}
    (holds : DirectRowHolds env ceiling facts subject restrictions tuple) :
    (∃ restriction ∈ restrictions,
      env.model.typeId subject.subjectType = some restriction.subjectType ∧
        (subject.isTypedWildcard = true → restriction.kind = .wildcard)) ∨
    ∃ object target, (∃ restriction ∈ restrictions, restriction.kind = .userset target) ∧
      facts object target := by
  obtain ⟨-, grants⟩ := holds
  cases admitted : admittedClass env.model restrictions tuple with
  | none => simp only [admitted] at grants
  | some directClass =>
    simp only [admitted] at grants
    obtain ⟨classified, restriction, member, type, kind, -⟩ := admittedClass_eq_some.mp admitted
    rw [restrictionKindMatches_eq_true] at kind
    cases directClass with
    | object =>
      left
      rw [grants] at classified type
      refine ⟨restriction, member, type, fun wildcard => ?_⟩
      cases subject <;> simp [CompiledModel.directClass, SubjectRef.isTypedWildcard] at *
    | wildcard =>
      left
      rcases grants with same | covers
      · exact ⟨restriction, member, same ▸ type, fun _ => kind⟩
      · refine ⟨restriction, member, ?_, fun _ => kind⟩
        cases row : tuple.key.subject <;> cases subject <;> rw [row] at covers type <;>
          simp [wildcardMatches] at covers
        rw [← type, covers]
        rfl
    | userset relation =>
      obtain ⟨ref, named, same | fact⟩ := grants
      · left
        refine ⟨restriction, member, same ▸ type, fun wildcard => ?_⟩
        rw [← same, named] at wildcard
        cases wildcard
      · exact .inr ⟨ref.object, relation, ⟨restriction, member, kind⟩, fact⟩

/-- Along an edge of the relation, a reachable subject is reachable. -/
theorem reachable_of_edge (found : env.model.relation source = some relation)
    (refers : (env.model.rewrite source).Refers env.model target) {object other : ObjectRef}
    (reachable : unreachable env.model ⟨object, target, subject⟩ = false) :
    unreachable env.model ⟨other, source, subject⟩ = false := by
  rw [unreachable_eq_false] at reachable ⊢
  intro type known
  exact reachTable_closed found (edge_of_refers found refers) subject (reachable type known)

/-- A relation whose rewrite grants a subject from reachable facts can reach it. -/
theorem reachable_of_holds (found : env.model.relation source = some relation) {object : ObjectRef}
    {tree : Rewrite} : ∀ {pos neg : ObjectRef → RelationId → Prop},
      tree.Subterm (env.model.rewrite source) →
      (∀ object target, pos object target →
        unreachable env.model ⟨object, target, subject⟩ = false) →
      Rewrite.Holds env ceiling subject object pos neg tree →
      unreachable env.model ⟨object, source, subject⟩ = false := by
  induction tree with
  | direct owner =>
    intro pos neg subterm facts holds
    obtain ⟨ownerRelation, ownerFound, tuple, -, row⟩ := holds
    rcases row.recorded with ⟨restriction, member, type, wildcard⟩ | ⟨used, target, edge, fact⟩
    · obtain ⟨node, recorded, -, expanded⟩ := subterm_recorded found subterm
      cases node <;> cases expanded
      obtain ⟨inTypes, inWildcards, -⟩ := recorded ownerRelation ownerFound restriction member
      rw [unreachable_eq_false]
      intro known sameType
      rw [type] at sameType
      cases sameType
      unfold reachTable
      cases special : subject.isTypedWildcard with
      | true => exact inWildcards (wildcard special)
      | false => exact inTypes
    · exact reachable_of_edge found ⟨_, subterm, ownerRelation, ownerFound, edge⟩
        (facts used target fact)
  | computed target =>
    intro pos neg subterm facts holds
    exact reachable_of_edge found ⟨_, subterm, rfl⟩ (facts object target holds)
  | tupleToUserset tupleset targets =>
    intro pos neg subterm facts holds
    obtain ⟨-, -, -, -, -, -, used, -, target, member, fact⟩ := holds
    exact reachable_of_edge found ⟨_, subterm, (List.mem_filter.mp member).1⟩
      (facts used target fact)
  | union children ih =>
    intro pos neg subterm facts holds
    obtain ⟨child, member, inner⟩ := Rewrite.holdsSome_iff.mp holds
    exact ih child member ((Rewrite.Subterm.union member (.refl _)).trans subterm) facts inner
  | intersection children ih =>
    intro pos neg subterm facts holds
    obtain ⟨node, -, several, expanded⟩ := subterm_recorded found subterm
    have nonempty : children ≠ [] := by
      cases node <;> cases expanded
      intro empty
      rw [List.map_eq_nil_iff] at empty
      simp [NodeScoped, empty] at several
    obtain ⟨child, member⟩ := List.exists_mem_of_ne_nil children nonempty
    exact ih child member ((Rewrite.Subterm.intersection member (.refl _)).trans subterm) facts
      (Rewrite.holdsEach_iff.mp holds child member)
  | difference base subtract baseIh =>
    intro pos neg subterm facts holds
    exact baseIh ((Rewrite.Subterm.base (.refl _)).trans subterm) facts holds.1

/-- The rules keep reachability. -/
theorem derive_reachable (pos neg : Set SemanticKey)
    (facts : pos ⊆ {key | unreachable env.model key = true}ᶜ) :
    (checkRules env ceiling).derive pos neg ⊆ {key | unreachable env.model key = true}ᶜ := by
  intro key derived
  have holds : Rewrite.Holds env ceiling key.subject key.object
    (fun object target => ⟨object, target, key.subject⟩ ∈ pos)
    (fun object target => ⟨object, target, key.subject⟩ ∈ neg)
    (env.model.rewrite key.relation) := derived
  have reachable : unreachable env.model key = false := by
    cases found : env.model.relation key.relation with
    | none =>
      simp [CompiledModel.rewrite, found, Rewrite.Holds, Rewrite.HoldsSome] at holds
    | some relation =>
      apply reachable_of_holds found (.refl _) _ holds
      intro object target member
      exact Bool.eq_false_iff.mpr (facts member)
  simp [reachable]

/-- What the bare rules grant is reachable. -/
theorem reachable_of_granted : ∀ (fuel : Nat) (key : SemanticKey) (path : BranchPath),
    reference env ceiling .bare fuel key path = .yes → unreachable env.model key = false := by
  intro fuel
  induction fuel with
  | zero =>
    intro key path granted
    cases granted
  | succ fuel ih =>
    intro key path granted
    have derived := ((reference_evaluates env ceiling fun _ => false).yes granted).2
    have kept := derive_reachable _ _ (fun used member => by simp [ih used _ member]) derived
    simpa using kept

/-- The reachability test adds information and takes none away. -/
theorem bare_refines_pruned : ∀ (fuel : Nat) (key : SemanticKey) (path : BranchPath),
    (reference env ceiling .bare fuel key path).Refines
      (reference env ceiling (.pruned env.model) fuel key path) := by
  intro fuel
  induction fuel with
  | zero => exact fun key path => Kleene.refines_refl _
  | succ fuel ih =>
    intro key path
    by_cases pruned : unreachable env.model key = true
    · have refused : reference env ceiling (.pruned env.model) (fuel + 1) key path = .no := by
        simp [reference, pruned]
      have ungranted : reference env ceiling .bare (fuel + 1) key path ≠ .yes := by
        intro granted
        rw [reachable_of_granted (fuel + 1) key path granted] at pruned
        cases pruned
      rw [refused]
      exact Kleene.refines_no ungranted
    · simp only [reference, CheckPolicy.pruned_denies, CheckPolicy.bare_denies, if_neg pruned,
        CheckPolicy.pruned_grants, CheckPolicy.bare_grants, CheckPolicy.pruned_cuts,
        CheckPolicy.bare_cuts, Bool.false_eq_true, if_false]
      split
      · exact Kleene.refines_refl _
      · apply rewriteValue_refines
        intro object target
        exact ih _ _

end Reachability

/-- The compiled tables are complete: a key whose subject they call unreachable is
never granted by the rewrite rules without the reachability test, and the test
keeps every value the rules determine. -/
theorem pruning_sound (env : CheckEnvironment) (ceiling fuel : Nat) (object : ObjectRef)
    (relation : RelationId) (path : BranchPath) :
    (∀ (subject : SubjectRef) (type : TypeId), subject.isTypedWildcard = false →
      env.model.typeId subject.subjectType = some type →
      env.model.canReachSubjectType relation type = false →
      reference env ceiling .bare fuel ⟨object, relation, subject⟩ path ≠ .yes) ∧
    (∀ (name : TypeName) (type : TypeId), env.model.typeId name = some type →
      env.model.canReachWildcard relation type = false →
      reference env ceiling .bare fuel ⟨object, relation, .typedWildcard name⟩ path ≠ .yes) ∧
    ∀ subject, (reference env ceiling .bare fuel ⟨object, relation, subject⟩ path).Refines
      (reference env ceiling (.pruned env.model) fuel ⟨object, relation, subject⟩ path) := by
  refine ⟨?_, ?_, fun subject => bare_refines_pruned fuel _ path⟩
  · intro subject type plain known barred granted
    have reachable := reachable_of_granted fuel _ path granted
    simp [unreachable, known, plain, barred] at reachable
  · intro name type known barred granted
    have reachable := reachable_of_granted fuel _ path granted
    simp [unreachable, known, SubjectRef.isTypedWildcard, barred] at reachable

/-- No document is ever a viewer of the plan. -/
theorem pruning_sound_plan : model.canReachSubjectType ⟨1⟩ ⟨1⟩ = false ∧
    reference edited 0 .bare 5 ⟨plan, ⟨1⟩, .object plan⟩ ∅ ≠ .yes := by
  have barred : model.canReachSubjectType ⟨1⟩ ⟨1⟩ = false := by decide
  refine ⟨barred, ?_⟩
  exact (pruning_sound edited 0 5 plan ⟨1⟩ ∅).1 (.object plan) ⟨1⟩ rfl
    (by decide) barred

end OpenFga
