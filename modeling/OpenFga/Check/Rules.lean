import OpenFga.Check.Sequential
import OpenFga.Lib.Stratified

/-!
# The rewrite rules as rules of inference

`Holds` reads a rewrite as a rule: it says when the rewrite grants a subject an
object, from facts about relations. Negation is kept apart from the start. The
operand a difference subtracts is read with the two sets of facts exchanged, so
that a rule is monotone in the positive facts and antitone in the negative ones.

The reference semantics evaluates these rules in three values: what it grants is
derived from the facts it grants, negated by those it does not deny, and what is
derived from the facts it does not deny is not denied.
-/

namespace OpenFga

open List Kleene

variable {restrictions : List DirectRestriction} {tuple : RelationshipTuple}
  {targets : List RelationId} {children : List Rewrite} {object : ObjectRef}

section Rows

variable (env : CheckEnvironment) (ceiling : Nat) (facts : ObjectRef → RelationId → Prop)
  (subject : SubjectRef)

/-- A row of a direct relation grants the subject. -/
def DirectRowHolds (restrictions : List DirectRestriction) (tuple : RelationshipTuple) : Prop :=
  conditionValue env ceiling tuple = .yes ∧
    match admittedClass env.model restrictions tuple with
    | none => False
    | some .object => tuple.key.subject = subject
    | some .wildcard => tuple.key.subject = subject ∨ wildcardMatches tuple.key.subject subject
    | some (.userset relation) => ∃ ref, tuple.key.subject = .userset ref ∧
        (tuple.key.subject = subject ∨ facts ref.object relation)

/-- A row of a tupleset grants the subject. -/
def TtuRowHolds (restrictions : List DirectRestriction) (targets : List RelationId)
    (tuple : RelationshipTuple) : Prop :=
  conditionValue env ceiling tuple = .yes ∧
    admittedClass env.model restrictions tuple = some .object ∧
    ∃ object, tuple.key.subject = .object object ∧
      ∃ target ∈ targetsFor env.model object.objectType targets, facts object target

/-- Some row on an object and relation has a property. -/
def SomeRow (object : ObjectRef) (owner : RelationId)
    (row : List DirectRestriction → RelationshipTuple → Prop) : Prop :=
  ∃ relation, env.model.relation owner = some relation ∧
    ∃ tuple ∈ env.rows object relation.name, row relation.restrictions tuple

end Rows

section Trees

variable (env : CheckEnvironment) (ceiling : Nat) (subject : SubjectRef) (object : ObjectRef)

mutual

/-- The rewrite grants the subject the object. -/
def Rewrite.Holds (pos neg : ObjectRef → RelationId → Prop) : Rewrite → Prop
  | .direct owner => SomeRow env object owner (DirectRowHolds env ceiling pos subject)
  | .computed target => pos object target
  | .tupleToUserset tupleset targets =>
      SomeRow env object tupleset fun restrictions => TtuRowHolds env ceiling pos
        restrictions targets
  | .union children => Rewrite.HoldsSome pos neg children
  | .intersection children => Rewrite.HoldsEach pos neg children
  | .difference base subtract => Rewrite.Holds pos neg base ∧ ¬ Rewrite.Holds neg pos subtract

def Rewrite.HoldsSome (pos neg : ObjectRef → RelationId → Prop) : List Rewrite → Prop
  | [] => False
  | child :: children => Rewrite.Holds pos neg child ∨ Rewrite.HoldsSome pos neg children

def Rewrite.HoldsEach (pos neg : ObjectRef → RelationId → Prop) : List Rewrite → Prop
  | [] => True
  | child :: children => Rewrite.Holds pos neg child ∧ Rewrite.HoldsEach pos neg children

end

variable {env ceiling subject object} {pos neg : ObjectRef → RelationId → Prop}

theorem Rewrite.holdsSome_iff : Rewrite.HoldsSome env ceiling subject object pos neg children ↔
      ∃ child ∈ children, Rewrite.Holds env ceiling subject object pos neg child := by
  induction children with
  | nil => simp [Rewrite.HoldsSome]
  | cons child children ih => simp [Rewrite.HoldsSome, ih]

theorem Rewrite.holdsEach_iff : Rewrite.HoldsEach env ceiling subject object pos neg children ↔
      ∀ child ∈ children, Rewrite.Holds env ceiling subject object pos neg child := by
  induction children with
  | nil => simp [Rewrite.HoldsEach]
  | cons child children ih => simp [Rewrite.HoldsEach, ih]

end Trees

section References

variable (model : CompiledModel)

/-- The relations a leaf refers to. The rows of a tupleset are read, not evaluated. -/
def Rewrite.LeafRefers : Rewrite → RelationId → Prop
  | .direct owner, target => ∃ relation, model.relation owner = some relation ∧
      ∃ restriction ∈ relation.restrictions, restriction.kind = .userset target
  | .computed referred, target => target = referred
  | .tupleToUserset _ targets, target => target ∈ targets
  | _, _ => False

/-- Some leaf of a rewrite refers to the relation. -/
def Rewrite.Refers (tree : Rewrite) (target : RelationId) : Prop :=
  ∃ leaf : Rewrite, leaf.Subterm tree ∧ leaf.LeafRefers model target

/-- A leaf below the subtracted operand of a difference refers to the relation. -/
def Rewrite.Negates (tree : Rewrite) (target : RelationId) : Prop :=
  ∃ base subtract, (Rewrite.difference base subtract).Subterm tree ∧ subtract.Refers model target

variable {model} {inner tree : Rewrite} {target : RelationId}

theorem Rewrite.Refers.lift (refers : inner.Refers model target) (subterm : inner.Subterm tree) :
    tree.Refers model target := by
  obtain ⟨leaf, below, leafRefers⟩ := refers
  exact ⟨leaf, below.trans subterm, leafRefers⟩

theorem Rewrite.Negates.lift (negates : inner.Negates model target) (subterm : inner.Subterm tree) :
    tree.Negates model target := by
  obtain ⟨base, subtract, below, refers⟩ := negates
  exact ⟨base, subtract, below.trans subterm, refers⟩

theorem Rewrite.Negates.refers (negates : tree.Negates model target) :
    tree.Refers model target := by
  obtain ⟨base, subtract, below, refers⟩ := negates
  exact refers.lift ((Rewrite.Subterm.subtract (.refl subtract)).trans below)

end References

section Monotonicity

variable {env : CheckEnvironment} {ceiling : Nat} {subject : SubjectRef}
  {pos pos' : ObjectRef → RelationId → Prop}

theorem DirectRowHolds.mono
    (grows : ∀ object target, (∃ restriction ∈ restrictions, restriction.kind = .userset target) →
      pos object target → pos' object target)
    (holds : DirectRowHolds env ceiling pos subject restrictions tuple) :
    DirectRowHolds env ceiling pos' subject restrictions tuple := by
  obtain ⟨met, grants⟩ := holds
  refine ⟨met, ?_⟩
  cases admitted : admittedClass env.model restrictions tuple with
  | none => simp only [admitted] at grants
  | some directClass =>
    simp only [admitted] at grants ⊢
    cases directClass with
    | object | wildcard => exact grants
    | userset relation =>
      obtain ⟨ref, same, either⟩ := grants
      obtain ⟨-, restriction, member, -, kind, -⟩ := admittedClass_eq_some.mp admitted
      have used : ∃ restriction ∈ restrictions, restriction.kind = .userset relation :=
        ⟨restriction, member, restrictionKindMatches_eq_true.mp kind⟩
      exact ⟨ref, same, either.imp_right (grows ref.object relation used)⟩

theorem TtuRowHolds.mono
    (grows : ∀ object, ∀ target ∈ targets, pos object target → pos' object target)
    (holds : TtuRowHolds env ceiling pos restrictions targets tuple) :
    TtuRowHolds env ceiling pos' restrictions targets tuple := by
  obtain ⟨met, admitted, object, same, target, member, fact⟩ := holds
  exact ⟨met, admitted, object, same, target, member,
    grows object target (mem_filter.mp member).1 fact⟩

/-- A rule only looks at the relations it refers to, under negation only at those it negates. -/
theorem Rewrite.Holds.transfer : ∀ {pos pos' neg neg' : ObjectRef → RelationId → Prop},
      (∀ object target, tree.Refers env.model target → pos object target → pos' object target) →
      (∀ object target, tree.Negates env.model target → neg' object target → neg object target) →
      Rewrite.Holds env ceiling subject object pos neg tree →
      Rewrite.Holds env ceiling subject object pos' neg' tree := by
  induction tree with
  | direct owner =>
    intro pos pos' neg neg' grows _ holds
    obtain ⟨relation, found, tuple, member, row⟩ := holds
    refine ⟨relation, found, tuple, member, row.mono ?_⟩
    intro object target used
    exact grows object target ⟨_, .refl _, relation, found, used⟩
  | computed target =>
    intro pos pos' neg neg' grows _ holds
    exact grows object target ⟨_, .refl _, rfl⟩ holds
  | tupleToUserset tupleset targets =>
    intro pos pos' neg neg' grows _ holds
    obtain ⟨relation, found, tuple, member, row⟩ := holds
    refine ⟨relation, found, tuple, member, row.mono ?_⟩
    intro object target used
    exact grows object target ⟨_, .refl _, used⟩
  | union children ih =>
    intro pos pos' neg neg' grows shrinks holds
    obtain ⟨child, member, inner⟩ := Rewrite.holdsSome_iff.mp holds
    apply Rewrite.holdsSome_iff.mpr
    refine ⟨child, member, ih child member ?_ ?_ inner⟩
    · exact fun object target refers => grows object target (refers.lift (.union member (.refl _)))
    · exact fun object target negates =>
        shrinks object target (negates.lift (.union member (.refl _)))
  | intersection children ih =>
    intro pos pos' neg neg' grows shrinks holds
    apply Rewrite.holdsEach_iff.mpr
    intro child member
    apply ih child member _ _ (Rewrite.holdsEach_iff.mp holds child member)
    · exact fun object target refers =>
        grows object target (refers.lift (.intersection member (.refl _)))
    · exact fun object target negates =>
        shrinks object target (negates.lift (.intersection member (.refl _)))
  | difference base subtract baseIh subtractIh =>
    intro pos pos' neg neg' grows shrinks holds
    obtain ⟨granted, kept⟩ := holds
    refine ⟨baseIh ?_ ?_ granted, fun subtracted => kept (subtractIh ?_ ?_ subtracted)⟩
    · exact fun object target refers => grows object target (refers.lift (.base (.refl _)))
    · exact fun object target negates => shrinks object target (negates.lift (.base (.refl _)))
    · -- below the subtracted operand the two sets have changed places
      exact fun object target refers => shrinks object target ⟨base, subtract, .refl _, refers⟩
    · exact fun object target negates =>
        grows object target (negates.refers.lift (.subtract (.refl _)))

end Monotonicity

section Values

variable {env : CheckEnvironment} {ceiling : Nat} {subject : SubjectRef}
  {recurse : ObjectRef → RelationId → Kleene}

theorem directRowValue_eq_yes :
    directRowValue env ceiling recurse subject restrictions tuple = .yes ↔
      DirectRowHolds env ceiling (fun object target => recurse object target = .yes) subject
        restrictions tuple := by
  unfold directRowValue DirectRowHolds
  cases admittedClass env.model restrictions tuple with
  | none => simp
  | some directClass =>
    cases directClass with
    | object =>
      by_cases same : tuple.key.subject = subject <;> simp [same]
    | wildcard =>
      by_cases covered : tuple.key.subject = subject ∨ wildcardMatches tuple.key.subject subject
      · rw [if_pos covered, and_iff_left covered]
      · rw [if_neg covered]
        simp [covered]
    | userset relation =>
      cases named : tuple.key.subject with
      | object | typedWildcard => simp
      | userset ref =>
        by_cases same : SubjectRef.userset ref = subject
        · simp only [if_pos same]
          constructor
          · exact fun met => ⟨met, ref, rfl, .inl same⟩
          · exact fun grants => grants.1
        · simp [same, and_eq_yes]

theorem directRowValue_ne_no
    (holds : DirectRowHolds env ceiling (fun object target => recurse object target ≠ .no) subject
      restrictions tuple) :
    directRowValue env ceiling recurse subject restrictions tuple ≠ .no := by
  obtain ⟨met, grants⟩ := holds
  unfold directRowValue
  cases admitted : admittedClass env.model restrictions tuple with
  | none => simp only [admitted] at grants
  | some directClass =>
    simp only [admitted] at grants ⊢
    cases directClass with
    | object | wildcard => simp [grants, met]
    | userset relation =>
      obtain ⟨ref, named, either⟩ := grants
      simp only [named] at either ⊢
      split
      · simp [met]
      · simp only [met, yes_and]
        exact either.resolve_left ‹_›

theorem ttuRowValue_eq_yes : ttuRowValue env ceiling recurse restrictions targets tuple = .yes ↔
      TtuRowHolds env ceiling (fun object target => recurse object target = .yes)
        restrictions targets tuple := by
  unfold ttuRowValue TtuRowHolds
  cases admittedClass env.model restrictions tuple with
  | none => simp
  | some directClass =>
    cases directClass with
    | wildcard | userset => simp
    | object =>
      cases tuple.key.subject with
      | userset | typedWildcard => simp
      | object ref => simp [and_eq_yes, any_eq_yes]

theorem ttuRowValue_ne_no
    (holds : TtuRowHolds env ceiling (fun object target => recurse object target ≠ .no) restrictions
      targets tuple) : ttuRowValue env ceiling recurse restrictions targets tuple ≠ .no := by
  obtain ⟨met, admitted, object, named, target, member, possible⟩ := holds
  simp only [ttuRowValue, admitted, named, met, yes_and, ne_eq, any_eq_no,
    mem_map]
  intro refused
  exact possible (refused _ ⟨target, member, rfl⟩)

/-- What a rewrite grants follows by its rule from what is granted, negated by what
is not denied; what so follows with the two exchanged is not denied. -/
theorem rewriteValue_holds :
    (rewriteValue env ceiling (fun _ => false) recurse subject object tree = .yes →
      Rewrite.Holds env ceiling subject object (fun object target => recurse object target = .yes)
        (fun object target => recurse object target ≠ .no) tree) ∧
    (Rewrite.Holds env ceiling subject object (fun object target => recurse object target ≠ .no)
        (fun object target => recurse object target = .yes) tree →
      rewriteValue env ceiling (fun _ => false) recurse subject object tree ≠ .no) := by
  induction tree with
  | direct owner =>
    simp only [rewriteValue, directValue, Rewrite.Holds, SomeRow]
    cases env.model.relation owner with
    | none => simp
    | some relation =>
      constructor
      · intro yes
        obtain ⟨tuple, member, granted⟩ := mem_map.mp (any_eq_yes.mp yes)
        exact ⟨relation, rfl, tuple, member, directRowValue_eq_yes.mp granted⟩
      · intro holds no
        obtain ⟨relation', found, tuple, member, row⟩ := holds
        cases found
        exact directRowValue_ne_no row (any_eq_no.mp no _ (mem_map_of_mem member))
  | computed target => exact ⟨id, id⟩
  | tupleToUserset tupleset targets =>
    simp only [rewriteValue, ttuValue, Rewrite.Holds, SomeRow]
    cases env.model.relation tupleset with
    | none => simp
    | some relation =>
      constructor
      · intro yes
        obtain ⟨tuple, member, granted⟩ := mem_map.mp (any_eq_yes.mp yes)
        exact ⟨relation, rfl, tuple, member, ttuRowValue_eq_yes.mp granted⟩
      · intro holds no
        obtain ⟨relation', found, tuple, member, row⟩ := holds
        cases found
        exact ttuRowValue_ne_no row (any_eq_no.mp no _ (mem_map_of_mem member))
  | union children ih =>
    simp only [rewriteValue, rewriteValues_eq_map]
    constructor
    · intro yes
      obtain ⟨child, member, granted⟩ := mem_map.mp (any_eq_yes.mp yes)
      exact Rewrite.holdsSome_iff.mpr ⟨child, member, (ih child member).1 granted⟩
    · intro holds no
      obtain ⟨child, member, inner⟩ := Rewrite.holdsSome_iff.mp holds
      exact (ih child member).2 inner (any_eq_no.mp no _ (mem_map_of_mem member))
  | intersection children ih =>
    simp only [rewriteValue, rewriteValues_eq_map]
    constructor
    · intro yes
      apply Rewrite.holdsEach_iff.mpr
      intro child member
      exact (ih child member).1 (all_eq_yes.mp yes _ (mem_map_of_mem member))
    · intro holds no
      obtain ⟨child, member, refused⟩ := mem_map.mp (all_eq_no.mp no)
      exact (ih child member).2 (Rewrite.holdsEach_iff.mp holds child member) refused
  | difference base subtract baseIh subtractIh =>
    simp only [rewriteValue, Bool.false_eq_true, if_false]
    constructor
    · intro yes
      obtain ⟨granted, refused⟩ := diff_eq_yes.mp yes
      exact ⟨baseIh.1 granted, fun holds => subtractIh.2 holds refused⟩
    · intro holds no
      rcases diff_eq_no.mp no with refused | granted
      · exact baseIh.2 holds.1 refused
      · exact holds.2 (subtractIh.1 granted)

end Values

/-- The rules of a model over the rows of an environment. -/
def checkRules (env : CheckEnvironment) (ceiling : Nat) : Rules SemanticKey where
  derive pos neg := {key | Rewrite.Holds env ceiling key.subject key.object
    (fun object target => ⟨object, target, key.subject⟩ ∈ pos)
    (fun object target => ⟨object, target, key.subject⟩ ∈ neg) (env.model.rewrite key.relation)}
  mono := by
    intro pos pos' neg neg' grows shrinks key derived
    apply Rewrite.Holds.transfer _ _ derived
    · exact fun object target _ member => grows member
    · exact fun object target _ member => shrinks member

/-- The reference semantics evaluates the rules. Cutting nothing and granting
nothing outright, it may deny keys outright. -/
theorem reference_evaluates (env : CheckEnvironment) (ceiling : Nat) (denies : SemanticKey → Bool) :
    (checkRules env ceiling).Evaluates {key | denies key = true}
      (reference env ceiling ⟨denies, fun _ => false, fun _ _ _ _ => false⟩) := by
  constructor
  · exact fun _ _ => rfl
  · intro fuel key path yes
    rw [reference] at yes
    split at yes
    · cases yes
    · rename_i fresh
      split at yes
      · cases yes
      · rw [if_neg Bool.false_ne_true] at yes
        exact ⟨fresh, rewriteValue_holds.1 yes⟩
  · intro fuel key path no
    rw [reference] at no
    split at no
    · exact .inl ‹_›
    · split at no
      · exact .inr (.inl ‹_›)
      · rw [if_neg Bool.false_ne_true] at no
        exact .inr (.inr fun derived => rewriteValue_holds.2 derived no)

end OpenFga
