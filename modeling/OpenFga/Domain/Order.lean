import OpenFga.Domain.Reference
import Mathlib.Data.Prod.Lex
import Mathlib.Data.String.Basic

/-!
# The order of references

Names are ordered as texts, and references field by field. A subject is ordered by its
kind first: objects come before usersets, and usersets before typed wildcards.
-/

namespace OpenFga

instance : LinearOrder ParameterName :=
  LinearOrder.lift' ParameterName.text fun first second same => by
    cases first
    cases same
    rfl

/-- An object reference as the pair of its fields. -/
def ObjectRef.fields (ref : ObjectRef) : String ×ₗ String :=
  toLex (ref.objectType.text, ref.objectId.text)

theorem ObjectRef.fields_injective : Function.Injective ObjectRef.fields := by
  rintro ⟨⟨type⟩, ⟨id⟩⟩ ⟨⟨type'⟩, ⟨id'⟩⟩ same
  obtain ⟨types, ids⟩ := Prod.mk.inj (toLex.injective same)
  cases types
  cases ids
  rfl

/-- A subject as its kind and the texts in it. -/
def SubjectRef.fields : SubjectRef → Nat ×ₗ (String ×ₗ String) ×ₗ String
  | .object ref => toLex (0, toLex (ref.fields, ""))
  | .userset ref => toLex (1, toLex (ref.object.fields, ref.relation.text))
  | .typedWildcard objectType => toLex (2, toLex (toLex (objectType.text, ""), ""))

theorem SubjectRef.fields_injective : Function.Injective SubjectRef.fields := by
  intro first second same
  have parts := Prod.mk.inj (toLex.injective same)
  cases first with
  | object ref =>
    cases second with
    | object ref' =>
      have refs := (Prod.mk.inj (toLex.injective parts.2)).1
      rw [ObjectRef.fields_injective refs]
    | _ => cases parts.1
  | userset ref =>
    cases second with
    | userset ref' =>
      obtain ⟨object, ⟨relation⟩⟩ := ref
      obtain ⟨object', ⟨relation'⟩⟩ := ref'
      obtain ⟨objects, relations⟩ := Prod.mk.inj (toLex.injective parts.2)
      cases ObjectRef.fields_injective objects
      cases relations
      rfl
    | _ => cases parts.1
  | typedWildcard objectType =>
    cases second with
    | typedWildcard objectType' =>
      obtain ⟨type⟩ := objectType
      obtain ⟨type'⟩ := objectType'
      have fields := (Prod.mk.inj (toLex.injective parts.2)).1
      have types := (Prod.mk.inj (toLex.injective fields)).1
      cases types
      rfl
    | _ => cases parts.1

def TupleKey.fields (key : TupleKey) :
    (String ×ₗ String) ×ₗ String ×ₗ Nat ×ₗ (String ×ₗ String) ×ₗ String :=
  toLex (key.object.fields, toLex (key.relation.text, key.subject.fields))

theorem TupleKey.fields_injective : Function.Injective TupleKey.fields := by
  rintro ⟨object, ⟨relation⟩, subject⟩ ⟨object', ⟨relation'⟩, subject'⟩ same
  obtain ⟨objects, rest⟩ := Prod.mk.inj (toLex.injective same)
  obtain ⟨relations, subjects⟩ := Prod.mk.inj (toLex.injective rest)
  cases ObjectRef.fields_injective objects
  cases relations
  cases SubjectRef.fields_injective subjects
  rfl

instance : LinearOrder TupleKey := LinearOrder.lift' TupleKey.fields TupleKey.fields_injective

instance : Std.TransOrd TupleKey := inferInstance

end OpenFga
