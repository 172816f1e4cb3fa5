import Mathlib.Data.List.Nodup

/-!
# Domain references

Names, object references, subjects and relationship tuples. The string types of
the source are validated at construction; here each is a wrapper around the
string it holds, since no evaluator looks inside a name.

A condition context is an ordered map from parameter names to typed values. It
carries the uniqueness of its keys, so a lookup has one answer.
-/

namespace OpenFga

/-- The name of an object or subject type. -/
structure TypeName where
  text : String
  deriving DecidableEq, Repr

/-- The name of a relation of some type. -/
structure RelationName where
  text : String
  deriving DecidableEq, Repr

/-- The identifier part of an object reference. -/
structure ObjectId where
  text : String
  deriving DecidableEq, Repr

/-- The name of a condition. -/
structure ConditionName where
  text : String
  deriving DecidableEq, Repr

/-- The name of one condition parameter. -/
structure ParameterName where
  text : String
  deriving DecidableEq, Repr

/-- A reference `type:id` to one object. -/
structure ObjectRef where
  objectType : TypeName
  objectId : ObjectId
  deriving DecidableEq, Repr

/-- A reference `type:id#relation` to the subjects of one relation. -/
structure UsersetRef where
  object : ObjectRef
  relation : RelationName
  deriving DecidableEq, Repr

/-- A subject: an object, a userset, or every object of one type. -/
inductive SubjectRef where
  | object (ref : ObjectRef)
  | userset (ref : UsersetRef)
  | typedWildcard (objectType : TypeName)
  deriving DecidableEq, Repr

/-- The type a subject belongs to. -/
def SubjectRef.subjectType : SubjectRef → TypeName
  | .object ref => ref.objectType
  | .userset ref => ref.object.objectType
  | .typedWildcard objectType => objectType

/-- Whether the subject is a typed wildcard. -/
def SubjectRef.isTypedWildcard : SubjectRef → Bool
  | .typedWildcard _ => true
  | _ => false

@[simp] theorem SubjectRef.subjectType_object (ref : ObjectRef) :
    (SubjectRef.object ref).subjectType = ref.objectType := rfl

@[simp] theorem SubjectRef.subjectType_userset (ref : UsersetRef) :
    (SubjectRef.userset ref).subjectType = ref.object.objectType := rfl

@[simp] theorem SubjectRef.subjectType_typedWildcard (objectType : TypeName) :
    (SubjectRef.typedWildcard objectType).subjectType = objectType := rfl

/-- A tuple subject that is a typed wildcard covers every object of its type. -/
def wildcardMatches : SubjectRef → SubjectRef → Bool
  | .typedWildcard wildcard, .object object => decide (wildcard = object.objectType)
  | _, _ => false

/-- The identity of a relationship tuple. -/
structure TupleKey where
  object : ObjectRef
  relation : RelationName
  subject : SubjectRef
  deriving DecidableEq, Repr

/-- One value of a condition context. A finite double is kept by its bits. -/
inductive ContextValue where
  | null
  | bool (value : Bool)
  | int (value : Int64)
  | uint (value : UInt64)
  | double (bits : UInt64)
  | string (value : String)
  | bytes (value : List UInt8)
  | list (values : List ContextValue)
  | map (entries : List (String × ContextValue))

namespace ContextValue

/-- A value holds for its items if it does for each of them. -/
@[elab_as_elim, induction_eliminator]
theorem induction {motive : ContextValue → Prop} (null : motive .null)
    (bool : ∀ value, motive (.bool value)) (int : ∀ value, motive (.int value))
    (uint : ∀ value, motive (.uint value)) (double : ∀ bits, motive (.double bits))
    (string : ∀ value, motive (.string value)) (bytes : ∀ value, motive (.bytes value))
    (list : ∀ values, (∀ value ∈ values, motive value) → motive (.list values))
    (map : ∀ entries, (∀ entry ∈ entries, motive entry.2) → motive (.map entries))
    (value : ContextValue) : motive value :=
  @ContextValue.rec motive (fun values => ∀ value ∈ values, motive value)
    (fun entries => ∀ entry ∈ entries, motive entry.2) (fun entry => motive entry.2)
    null bool int uint double string bytes list map (by simp)
    (fun _ _ head rest => List.forall_mem_cons.mpr ⟨head, rest⟩) (by simp)
    (fun _ _ head rest => List.forall_mem_cons.mpr ⟨head, rest⟩) (fun _ _ inner => inner) value

mutual

/-- Compares two values. -/
def same : ContextValue → ContextValue → Bool
  | .null, .null => true
  | .bool value, .bool value' => value == value'
  | .int value, .int value' => value == value'
  | .uint value, .uint value' => value == value'
  | .double bits, .double bits' => bits == bits'
  | .string value, .string value' => value == value'
  | .bytes value, .bytes value' => value == value'
  | .list values, .list values' => sameItems values values'
  | .map entries, .map entries' => sameEntries entries entries'
  | _, _ => false

def sameItems : List ContextValue → List ContextValue → Bool
  | [], [] => true
  | value :: values, value' :: values' => same value value' && sameItems values values'
  | _, _ => false

def sameEntries : List (String × ContextValue) → List (String × ContextValue) → Bool
  | [], [] => true
  | (key, value) :: entries, (key', value') :: entries' =>
      key == key' && same value value' && sameEntries entries entries'
  | _, _ => false

end

theorem sameItems_iff (values : List ContextValue)
    (each : ∀ value ∈ values, ∀ value', same value value' = true ↔ value = value') :
    ∀ values', sameItems values values' = true ↔ values = values' := by
  induction values with
  | nil => intro values'; cases values' <;> simp [sameItems]
  | cons value values ih =>
    intro values'
    cases values' with
    | nil => simp [sameItems]
    | cons value' values' =>
      rw [List.forall_mem_cons] at each
      simp only [sameItems, Bool.and_eq_true, each.1, ih each.2, List.cons.injEq]

theorem sameEntries_iff (entries : List (String × ContextValue))
    (each : ∀ entry ∈ entries, ∀ value', same entry.2 value' = true ↔ entry.2 = value') :
    ∀ entries', sameEntries entries entries' = true ↔ entries = entries' := by
  induction entries with
  | nil => intro entries'; cases entries' <;> simp [sameEntries]
  | cons entry entries ih =>
    intro entries'
    obtain ⟨key, value⟩ := entry
    cases entries' with
    | nil => simp [sameEntries]
    | cons entry' entries' =>
      rw [List.forall_mem_cons] at each
      simp only [sameEntries, Bool.and_eq_true, beq_iff_eq, each.1, ih each.2,
        List.cons.injEq, Prod.ext_iff]

theorem same_iff (value : ContextValue) : ∀ value', same value value' = true ↔ value = value' := by
  induction value with
  | list values ih =>
    intro value'
    cases value' <;> simp [same, sameItems_iff values ih]
  | map entries ih =>
    intro value'
    cases value' <;> simp [same, sameEntries_iff entries ih]
  | _ => intro value'; cases value' <;> simp [same]

instance : DecidableEq ContextValue := fun value value' =>
  decidable_of_iff _ (same_iff value value')

end ContextValue

/-- A condition context: an ordered map from parameter names to values. -/
structure ConditionContext where
  values : List (ParameterName × ContextValue)
  keys_nodup : (values.map Prod.fst).Nodup
  deriving DecidableEq

/-- The context without parameters. -/
def ConditionContext.empty : ConditionContext :=
  ⟨[], List.nodup_nil⟩

/-- The value a context gives to one parameter. -/
def ConditionContext.get (context : ConditionContext) (name : ParameterName) :
    Option ContextValue :=
  context.values.lookup name

/-- A condition name with the context stored in the tuple. -/
structure ConditionBinding where
  name : ConditionName
  context : ConditionContext
  deriving DecidableEq

/-- Whether a tuple is guarded by a condition. -/
inductive ConditionReference where
  | unconditional
  | conditional (binding : ConditionBinding)
  deriving DecidableEq

/-- A tuple key together with its condition. -/
structure RelationshipTuple where
  key : TupleKey
  condition : ConditionReference
  deriving DecidableEq

/-- An unconditional tuple. -/
def TupleKey.bare (key : TupleKey) : RelationshipTuple :=
  ⟨key, .unconditional⟩

/-- Whether a request prefers a fast answer or the latest one. -/
inductive ConsistencyPreference where
  | minimizeLatency
  | higherConsistency
  deriving DecidableEq, Repr

end OpenFga
