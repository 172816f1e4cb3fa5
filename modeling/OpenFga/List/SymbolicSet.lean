import Mathlib.Data.Finset.Card
import Mathlib.Data.Finset.Union
import OpenFga.Lib.Kleene

/-!
# Symbolic sets

Finite sets and sets that contain all but finitely many values. A cofinite set
also carries values that were named explicitly; they are reported with it but do
not change which values it denotes.
-/

namespace OpenFga

/-- A finite set, or everything except the excluded values. -/
inductive SymbolicSet (α : Type) where
  | finite (values : Finset α)
  | cofinite (excluded included : Finset α)

namespace SymbolicSet

variable {α : Type} [DecidableEq α]

def empty : SymbolicSet α := finite ∅

def singleton (value : α) : SymbolicSet α := finite {value}

def union : SymbolicSet α → SymbolicSet α → SymbolicSet α
  | finite left, finite right => finite (left ∪ right)
  | cofinite excluded included, finite values => cofinite (excluded \ values) (included ∪ values)
  | finite values, cofinite excluded included => cofinite (excluded \ values) (included ∪ values)
  | cofinite excluded included, cofinite excludedRight includedRight =>
      cofinite (excluded ∩ excludedRight) (included ∪ includedRight)

def intersection : SymbolicSet α → SymbolicSet α → SymbolicSet α
  | finite left, finite right => finite (left ∩ right)
  | cofinite excluded _, finite included => finite (included \ excluded)
  | finite included, cofinite excluded _ => finite (included \ excluded)
  | cofinite excluded included, cofinite excludedRight includedRight =>
      cofinite (excluded ∪ excludedRight) ((included ∪ includedRight) \ (excluded ∪ excludedRight))

def difference : SymbolicSet α → SymbolicSet α → SymbolicSet α
  | finite left, finite right => finite (left \ right)
  | finite included, cofinite excluded _ => finite (included ∩ excluded)
  | cofinite excluded included, finite removed => cofinite (excluded ∪ removed) (included \ removed)
  | cofinite excluded _, cofinite excludedRight _ => finite (excludedRight \ excluded)

/-- The number of values a set keeps track of. -/
def trackedLen : SymbolicSet α → Nat
  | finite values => values.card
  | cofinite excluded included => excluded.card + included.card

/-- The value is in the set. -/
def Denotes (value : α) : SymbolicSet α → Prop
  | finite values => value ∈ values
  | cofinite excluded _ => value ∉ excluded

instance (value : α) : (set : SymbolicSet α) → Decidable (set.Denotes value)
  | finite values => inferInstanceAs (Decidable (value ∈ values))
  | cofinite excluded _ => inferInstanceAs (Decidable (value ∉ excluded))

variable {element : α} {left right : SymbolicSet α}

omit [DecidableEq α] in
@[simp] theorem denotes_finite {values : Finset α} :
    (finite values).Denotes element ↔ element ∈ values := Iff.rfl

omit [DecidableEq α] in
@[simp] theorem denotes_cofinite {excluded included : Finset α} :
    (cofinite excluded included).Denotes element ↔ element ∉ excluded := Iff.rfl

omit [DecidableEq α] in
@[simp] theorem denotes_empty : (empty : SymbolicSet α).Denotes element ↔ False := by
  simp [empty]

omit [DecidableEq α] in
@[simp] theorem denotes_singleton {other : α} : (singleton other).Denotes element ↔
    element = other := by
  simp [singleton]

@[simp] theorem denotes_union :
    (left.union right).Denotes element ↔ left.Denotes element ∨ right.Denotes element := by
  cases left <;> cases right <;> simp [union, imp_iff_not_or, or_comm]

@[simp] theorem denotes_intersection :
    (left.intersection right).Denotes element ↔ left.Denotes element ∧ right.Denotes element := by
  cases left <;> cases right <;> simp [intersection, and_comm]

@[simp] theorem denotes_difference :
    (left.difference right).Denotes element ↔ left.Denotes element ∧ ¬ right.Denotes element := by
  cases left <;> cases right <;> simp [difference, and_comm]

/-- The set is kept as a finite one. -/
def IsFinite : SymbolicSet α → Prop
  | finite _ => True
  | cofinite _ _ => False

omit [DecidableEq α] in
@[simp] theorem isFinite_finite {values : Finset α} : (finite values).IsFinite := trivial

omit [DecidableEq α] in
@[simp] theorem isFinite_empty : (empty : SymbolicSet α).IsFinite := trivial

@[simp] theorem isFinite_union :
    (left.union right).IsFinite ↔ left.IsFinite ∧ right.IsFinite := by
  cases left <;> cases right <;> simp [union, IsFinite]

@[simp] theorem isFinite_intersection :
    (left.intersection right).IsFinite ↔ left.IsFinite ∨ right.IsFinite := by
  cases left <;> cases right <;> simp [intersection, IsFinite]

@[simp] theorem isFinite_difference :
    (left.difference right).IsFinite ↔ left.IsFinite ∨ ¬ right.IsFinite := by
  cases left <;> cases right <;> simp [difference, IsFinite]

/-- Membership as a determined truth value. -/
def value (element : α) (set : SymbolicSet α) : Kleene :=
  .ofBool (decide (set.Denotes element))

@[simp] theorem value_empty : (empty : SymbolicSet α).value element = .no := by
  simp [value]

@[simp] theorem value_union :
    (left.union right).value element = .or (left.value element) (right.value element) := by
  simp only [value, denotes_union, Bool.decide_or, Kleene.ofBool_or]

@[simp] theorem value_intersection :
    (left.intersection right).value element = .and (left.value element) (right.value element) := by
  simp only [value, denotes_intersection, Bool.decide_and, Kleene.ofBool_and]

@[simp] theorem value_difference :
    (left.difference right).value element = .diff (left.value element) (right.value element) := by
  simp only [value, denotes_difference, Bool.decide_and, decide_not, Kleene.ofBool_diff]

end SymbolicSet

end OpenFga
