import Mathlib.Data.Set.Finite.Basic
import OpenFga.List.Users

/-!
# Expressions of symbolic sets

A rewrite combines the sets of its leaves. Over the infinitely many subjects that are no
wildcard, what is combined stands for the combination of what the leaves stand for.
-/

namespace OpenFga

/-- A subject that is no wildcard. -/
abbrev ConcreteSubject := { subject : SubjectRef // subject.isTypedWildcard = false }

instance : Infinite ConcreteSubject :=
  .of_injective (fun id : String => ⟨.object ⟨⟨"user"⟩, ⟨id⟩⟩, rfl⟩) (by rintro id _ ⟨⟩; rfl)

/-- How rewrites combine the sets of their leaves. -/
inductive SetExpression where
  | singleton (subject : ConcreteSubject)
  | full
  | union (left right : SetExpression)
  | intersection (left right : SetExpression)
  | difference (left right : SetExpression)

namespace SetExpression

def evaluate : SetExpression → SymbolicSet SubjectRef
  | singleton subject => .singleton subject.1
  | full => .cofinite ∅ ∅
  | union left right => left.evaluate.union right.evaluate
  | intersection left right => left.evaluate.intersection right.evaluate
  | difference left right => left.evaluate.difference right.evaluate

/-- The set of subjects that an expression stands for. -/
def denotation : SetExpression → Set ConcreteSubject
  | singleton subject => {subject}
  | full => Set.univ
  | union left right => left.denotation ∪ right.denotation
  | intersection left right => left.denotation ∩ right.denotation
  | difference left right => left.denotation \ right.denotation

variable (expression : SetExpression)

theorem denotes_evaluate (subject : ConcreteSubject) :
    expression.evaluate.Denotes subject.1 ↔ subject ∈ expression.denotation := by
  induction expression with
  | singleton other => simp [evaluate, denotation, Subtype.ext_iff]
  | full => simp [evaluate, denotation]
  | union left right first second
  | intersection left right first second
  | difference left right first second => simp [evaluate, denotation, first, second]

/-- A wildcard is never tracked, so it is in exactly the sets that are kept as cofinite. -/
theorem denotes_wildcard (objectType : TypeName) :
    expression.evaluate.Denotes (.typedWildcard objectType) ↔ ¬ expression.evaluate.IsFinite := by
  induction expression with
  | singleton other =>
    obtain ⟨subject, concrete⟩ := other
    simp only [evaluate, SymbolicSet.singleton, SymbolicSet.isFinite_finite, not_true_eq_false,
      SymbolicSet.denotes_finite, Finset.mem_singleton, iff_false]
    rintro rfl
    cases concrete
  | full => simp [evaluate, SymbolicSet.IsFinite]
  | union left right first second => simp [evaluate, first, second, imp_iff_not_or]
  | intersection left right first second
  | difference left right first second => simp [evaluate, first, second]

/-- A denotation is finite or cofinite, as the set is kept. -/
theorem finite_or_cofinite : expression.evaluate.IsFinite ∧ expression.denotation.Finite ∨
    ¬ expression.evaluate.IsFinite ∧ expression.denotationᶜ.Finite := by
  have tracked (values : Finset SubjectRef) :
      {subject : ConcreteSubject | subject.1 ∈ values}.Finite :=
    values.finite_toSet.preimage Subtype.val_injective.injOn
  cases kept : expression.evaluate with
  | finite values =>
    refine .inl ⟨trivial, (tracked values).subset fun subject member => ?_⟩
    simpa [kept] using (expression.denotes_evaluate subject).mpr member
  | cofinite excluded included =>
    refine .inr ⟨id, (tracked excluded).subset fun subject outside => ?_⟩
    simpa [kept] using mt (expression.denotes_evaluate subject).mp outside

end SetExpression

/-- Operations on symbolic sets are the operations on the sets they stand for. What is
reported has the wildcard exactly for a cofinite set, all of a finite set, and no subject
that is not in the set. -/
theorem symbolic_sets_denote (filter : UserTypeFilter) (expression : SetExpression) :
    (∀ subject : ConcreteSubject,
      expression.evaluate.Denotes subject.1 ↔ subject ∈ expression.denotation) ∧
    (.typedWildcard filter.userType ∈ expression.evaluate.intoSubjects filter ↔
      expression.denotationᶜ.Finite) ∧
    (expression.denotation.Finite → ∀ subject ∈ expression.denotation,
      subject.1 ∈ expression.evaluate.intoSubjects filter) ∧
    ∀ subject : ConcreteSubject, subject.1 ∈ expression.evaluate.intoSubjects filter →
      subject ∈ expression.denotation := by
  have denotes := expression.denotes_evaluate
  have wildcard := expression.denotes_wildcard filter.userType
  have either := expression.finite_or_cofinite
  refine ⟨denotes, ?_⟩
  cases kept : expression.evaluate with
  | finite values =>
    rw [kept] at denotes wildcard either
    obtain ⟨-, finite⟩ | ⟨cofinite, -⟩ := either
    · refine ⟨?_, fun _ subject => (denotes subject).mpr, fun subject => (denotes subject).mp⟩
      exact iff_of_false (fun listed => wildcard.mp listed trivial) finite.infinite_compl
    · exact absurd trivial cofinite
  | cofinite excluded included =>
    rw [kept] at denotes either
    obtain ⟨impossible, -⟩ | ⟨-, cofinite⟩ := either
    · cases impossible
    refine ⟨iff_of_true (Finset.mem_insert_self _ _) cofinite, fun finite => ?_, ?_⟩
    · exact absurd finite (compl_compl expression.denotation ▸ cofinite.infinite_compl)
    · intro subject listed
      obtain same | listed := Finset.mem_insert.mp listed
      · exact absurd subject.2 (by simp [same, SubjectRef.isTypedWildcard])
      · exact (denotes subject).mp (Finset.mem_sdiff.mp listed).2

end OpenFga
