import Mathlib.Data.List.Forall2

/-!
# Strong Kleene logic

Three-valued truth with the strong connectives: a connective is determined as
soon as one operand determines it, whatever the undetermined operands turn out
to be. The information order puts `unknown` below both determined values and
leaves those incomparable; every connective is monotone in it, so a determined
value survives any refinement of the operands.
-/

namespace OpenFga

variable {a b a' b' : Kleene} {values values' : List Kleene}

/-- A three-valued truth value. -/
inductive Kleene where
  | no
  | unknown
  | yes
  deriving DecidableEq, Repr

namespace Kleene

/-- The determined value of a Boolean. -/
def ofBool : Bool → Kleene
  | true => yes
  | false => no

/-- Strong negation. -/
def not : Kleene → Kleene
  | no => yes
  | unknown => unknown
  | yes => no

/-- Strong disjunction. -/
def or : Kleene → Kleene → Kleene
  | yes, _ => yes
  | _, yes => yes
  | no, no => no
  | _, _ => unknown

/-- Strong conjunction. -/
def and : Kleene → Kleene → Kleene
  | no, _ => no
  | _, no => no
  | yes, yes => yes
  | _, _ => unknown

/-- Strong difference: the first operand without the second. -/
def diff (base subtract : Kleene) : Kleene :=
  and base (not subtract)

/-- Disjunction of a list. -/
def any (values : List Kleene) : Kleene :=
  values.foldr or no

/-- Conjunction of a list. -/
def all (values : List Kleene) : Kleene :=
  values.foldr and yes

@[simp] theorem ofBool_true : ofBool true = yes := rfl

@[simp] theorem ofBool_false : ofBool false = no := rfl

@[simp] theorem any_nil : any [] = no := rfl

@[simp] theorem all_nil : all [] = yes := rfl

section

variable (value : Kleene)

@[simp] theorem any_cons (values : List Kleene) :
    any (value :: values) = or value (any values) := rfl

@[simp] theorem all_cons (values : List Kleene) :
    all (value :: values) = and value (all values) := rfl

@[simp] theorem or_no : or value no = value := by
  cases value <;> rfl

@[simp] theorem no_or : or no value = value := by
  cases value <;> rfl

@[simp] theorem yes_and : and yes value = value := by
  cases value <;> rfl

@[simp] theorem no_and : and no value = no := by
  cases value <;> rfl

@[simp] theorem and_yes : and value yes = value := by
  cases value <;> rfl

end

theorem and_assoc (a b c : Kleene) : and (and a b) c = and a (and b c) := by
  cases a <;> cases b <;> cases c <;> rfl

theorem or_assoc (a b c : Kleene) : or (or a b) c = or a (or b c) := by
  cases a <;> cases b <;> cases c <;> rfl

theorem any_append (first second : List Kleene) :
    any (first ++ second) = or (any first) (any second) := by
  induction first with
  | nil => rw [List.nil_append, any_nil, no_or]
  | cons value values ih => rw [List.cons_append, any_cons, ih, any_cons, or_assoc]

theorem or_eq_yes : or a b = yes ↔ a = yes ∨ b = yes := by
  cases a <;> cases b <;> simp [or]

theorem or_eq_no : or a b = no ↔ a = no ∧ b = no := by
  cases a <;> cases b <;> simp [or]

theorem and_eq_yes : and a b = yes ↔ a = yes ∧ b = yes := by
  cases a <;> cases b <;> simp [and]

theorem and_eq_no : and a b = no ↔ a = no ∨ b = no := by
  cases a <;> cases b <;> simp [and]

theorem diff_eq_yes : diff a b = yes ↔ a = yes ∧ b = no := by
  cases a <;> cases b <;> simp [diff, and, not]

theorem diff_eq_no : diff a b = no ↔ a = no ∨ b = yes := by
  cases a <;> cases b <;> simp [diff, and, not]

/-- A disjunction holds exactly when some operand holds. -/
theorem any_eq_yes : any values = yes ↔ yes ∈ values := by
  induction values with
  | nil => simp
  | cons value values ih =>
    rw [any_cons, or_eq_yes, ih, List.mem_cons, eq_comm]

/-- A disjunction fails exactly when every operand fails. -/
theorem any_eq_no : any values = no ↔ ∀ value ∈ values, value = no := by
  induction values with
  | nil => simp
  | cons value values ih => simp [or_eq_no, ih]

/-- A conjunction holds exactly when every operand holds. -/
theorem all_eq_yes : all values = yes ↔ ∀ value ∈ values, value = yes := by
  induction values with
  | nil => simp
  | cons value values ih => simp [and_eq_yes, ih]

/-- A conjunction fails exactly when some operand fails. -/
theorem all_eq_no : all values = no ↔ no ∈ values := by
  induction values with
  | nil => simp
  | cons value values ih =>
    rw [all_cons, and_eq_no, ih, List.mem_cons, eq_comm]

theorem ofBool_or (a b : Bool) : ofBool (a || b) = or (ofBool a) (ofBool b) := by
  cases a <;> cases b <;> rfl

theorem ofBool_and (a b : Bool) : ofBool (a && b) = and (ofBool a) (ofBool b) := by
  cases a <;> cases b <;> rfl

theorem ofBool_diff (a b : Bool) : ofBool (a && !b) = diff (ofBool a) (ofBool b) := by
  cases a <;> cases b <;> rfl

theorem ext_iff : a = b ↔ (a = yes ↔ b = yes) ∧ (a = no ↔ b = no) := by
  cases a <;> cases b <;> simp

/-- Operands that fail do not matter to a disjunction, nor does their order. -/
theorem any_congr (forward : ∀ value ∈ values, value ≠ no → value ∈ values')
    (backward : ∀ value ∈ values', value ≠ no → value ∈ values) : any values = any values' := by
  rw [ext_iff, any_eq_yes, any_eq_yes, any_eq_no, any_eq_no]
  refine ⟨⟨fun member => forward _ member (by simp), fun member => backward _ member (by simp)⟩, ?_⟩
  constructor
  · intro fails value member
    by_contra holds
    exact holds (fails value (backward value member holds))
  · intro fails value member
    by_contra holds
    exact holds (fails value (forward value member holds))

/-- The information order: `a` is undetermined or already the value `b`. -/
def Refines (a b : Kleene) : Prop :=
  a = unknown ∨ a = b

@[simp] theorem refines_refl (a : Kleene) : Refines a a := .inr rfl

@[simp] theorem unknown_refines (a : Kleene) : Refines unknown a := .inl rfl

/-- A value that does not hold can still turn out to fail. -/
theorem refines_no (fails : a ≠ yes) : Refines a no := by
  cases a with
  | no => exact .inr rfl
  | unknown => exact .inl rfl
  | yes => exact absurd rfl fails

/-- A determined value is kept by every refinement. -/
theorem Refines.eq_of_determined (refines : Refines a b) (determined : a ≠ unknown) : b = a := by
  rcases refines with unknown | same
  · exact absurd unknown determined
  · exact same.symm

theorem Refines.or (left : Refines a a') (right : Refines b b') : Refines (or a b) (or a' b') := by
  rcases left with rfl | rfl <;> rcases right with rfl | rfl
  · exact .inl rfl
  · cases a' <;> cases b <;> simp [Kleene.or, Refines]
  · cases a <;> cases b' <;> simp [Kleene.or, Refines]
  · exact .inr rfl

theorem Refines.and (left : Refines a a') (right : Refines b b') :
    Refines (and a b) (and a' b') := by
  rcases left with rfl | rfl <;> rcases right with rfl | rfl
  · exact .inl rfl
  · cases a' <;> cases b <;> simp [Kleene.and, Refines]
  · cases a <;> cases b' <;> simp [Kleene.and, Refines]
  · exact .inr rfl

theorem Refines.not (refines : Refines a a') : Refines (not a) (not a') := by
  rcases refines with rfl | rfl
  · exact .inl rfl
  · exact .inr rfl

theorem Refines.diff (base : Refines a a') (subtract : Refines b b') :
    Refines (diff a b) (diff a' b') :=
  base.and subtract.not

/-- List disjunction is monotone in the information order. -/
theorem Refines.any (refines : List.Forall₂ Refines values values') :
    Refines (any values) (any values') := by
  induction refines with
  | nil => exact refines_refl _
  | cons head _ ih => exact head.or ih

/-- List conjunction is monotone in the information order. -/
theorem Refines.all (refines : List.Forall₂ Refines values values') :
    Refines (all values) (all values') := by
  induction refines with
  | nil => exact refines_refl _
  | cons head _ ih => exact head.and ih

end Kleene

end OpenFga
