import OpenFga.Domain.Context
import OpenFga.Domain.Grammar
import OpenFga.Lib.OrderedMap

/-!
# Contexts from JSON

A request carries its context as JSON. Numbers become finite doubles; the negative zero
becomes the zero. Depth, keys and collections are bounded while the tree is converted, and
the whole tree is checked once more when it becomes a context.

A context that came over the wire was measured there. Its texts are bounded by the measured
size only, and the bytes of its values are not counted.
-/

namespace OpenFga

open Std ExtTreeMap

variable {entries : List (String × JsonValue)} {context : ConditionContext}

/-- A JSON value. A number is given by the bits of its double, if it has one. -/
inductive JsonValue where
  | null
  | bool (value : Bool)
  | number (asF64 : Option UInt64)
  | string (value : String)
  | array (values : List JsonValue)
  | object (entries : List (String × JsonValue))

/-- The bits of a finite double. -/
def FiniteFloat.new (bits : UInt64) : Except ValidationError UInt64 :=
  if (bits >>> 52) &&& 0x7ff = 0x7ff then .error ⟨"context_number", .outOfRange⟩
  else if bits &&& 0x7fffffffffffffff = 0 then .ok 0
  else .ok bits

def ContextString.newWithLimit (value : String) (limit : Nat) : Except ValidationError String :=
  if limit < value.utf8ByteSize then .error ⟨"context_string", .tooLarge⟩ else .ok value

def ContextBytes.newWithLimit (value : List UInt8) (limit : Nat) :
    Except ValidationError (List UInt8) :=
  if limit < value.length then .error ⟨"context_bytes", .tooLarge⟩ else .ok value

section Conversion

variable (limits : InputLimits) (valueByteLimit : Nat)

mutual

def convertJsonValue (depth : Nat) (value : JsonValue) : Except ValidationError ContextValue := do
  if limits.contextDepth.get < depth then .error ⟨"condition_context", .tooDeep⟩
  else
    match value with
    | .null => .ok .null
    | .bool value => .ok (.bool value)
    | .number asF64 =>
        let bits ← orError asF64 ⟨"context_number", .outOfRange⟩
        let bits ← FiniteFloat.new bits
        .ok (.double bits)
    | .string value =>
        let value ← ContextString.newWithLimit value valueByteLimit
        .ok (.string value)
    | .array values =>
        checkItems limits "context_list" values.length
        let values ← convertJsonItems (depth + 1) values
        checkItems limits "context_list" values.length
        .ok (.list values)
    | .object entries =>
        checkItems limits "context_map" entries.length
        let converted ← convertJsonEntries (depth + 1) entries ∅
        checkItems limits "context_map" converted.size
        .ok (.map converted.toList)

def convertJsonItems (depth : Nat) : List JsonValue → Except ValidationError (List ContextValue)
  | [] => .ok []
  | value :: values => do
      let value ← convertJsonValue depth value
      let values ← convertJsonItems depth values
      .ok (value :: values)

/-- The entries of an object, by their keys. -/
def convertJsonEntries (depth : Nat) : List (String × JsonValue) →
    ExtTreeMap String ContextValue →
    Except ValidationError (ExtTreeMap String ContextValue)
  | [], converted => .ok converted
  | (key, value) :: entries, converted => do
      checkKeyBytes limits key
      let value ← convertJsonValue depth value
      convertJsonEntries depth entries (converted.insert key value)

end

/-- The parameters of a context. -/
def convertJsonParameters : List (String × JsonValue) → ContextMap →
    Except ValidationError ContextMap
  | [], converted => .ok converted
  | (name, value) :: entries, converted => do
      let name ← (ParameterName.parseWithLimits name limits).mapError
        fun _ => ⟨"context_parameter", .inconsistent⟩
      let value ← convertJsonValue limits valueByteLimit 1 value
      convertJsonParameters entries (converted.insert name value)

end Conversion

namespace ConditionContext

def tryFromJsonWithPolicy (value : JsonValue) (limits : InputLimits) (valueByteLimit : Nat)
    (aggregateByteLimit : Option Nat) (enforceValueByteLimit : Bool) :
    Except ValidationError ConditionContext :=
  match value with
  | .object entries => do
      if limits.contextCollectionItems.get < entries.length then
        .error ⟨"condition_context", .tooManyItems⟩
      else
        let converted ← convertJsonParameters limits valueByteLimit entries ∅
        newWithPolicy converted limits aggregateByteLimit enforceValueByteLimit
  | _ => .error ⟨"condition_context", .inconsistent⟩

def tryFromJsonForWireSemantics (value : JsonValue) (limits : InputLimits)
    (measuredWireBytes : Nat) : Except ValidationError ConditionContext :=
  tryFromJsonWithPolicy value limits measuredWireBytes none false

end ConditionContext

section Genuine

/-- A double that is finite and not the negative zero. -/
def FiniteFloat.Normal (bits : UInt64) : Prop := FiniteFloat.new bits = .ok bits

theorem FiniteFloat.normal_of_new {bits bits' : UInt64} (made : new bits = .ok bits') :
    Normal bits' := by
  obtain ⟨finite, made⟩ := guard_eq_ok.mp made
  split at made
  · cases made
    rfl
  · rename_i nonzero
    cases made
    unfold Normal new
    rw [if_neg finite, if_neg nonzero]

/-- A value all of whose doubles are normal, as those are that the domain holds. -/
inductive ContextValue.Genuine : ContextValue → Prop
  | null : Genuine .null
  | bool (value : Bool) : Genuine (.bool value)
  | int (value : Int64) : Genuine (.int value)
  | uint (value : UInt64) : Genuine (.uint value)
  | double {bits : UInt64} (normal : FiniteFloat.Normal bits) : Genuine (.double bits)
  | string (value : String) : Genuine (.string value)
  | bytes (value : List UInt8) : Genuine (.bytes value)
  | list {values : List ContextValue} (items : ∀ value ∈ values, Genuine value) :
      Genuine (.list values)
  | map {entries : List (String × ContextValue)} (items : ∀ entry ∈ entries, Genuine entry.2) :
      Genuine (.map entries)

namespace JsonValue

/-- A value holds for its items if it does for each of them. -/
@[elab_as_elim, induction_eliminator]
theorem induction {motive : JsonValue → Prop} (null : motive .null)
    (bool : ∀ value, motive (.bool value)) (number : ∀ asF64, motive (.number asF64))
    (string : ∀ value, motive (.string value))
    (array : ∀ values, (∀ value ∈ values, motive value) → motive (.array values))
    (object : ∀ entries, (∀ entry ∈ entries, motive entry.2) → motive (.object entries))
    (value : JsonValue) : motive value :=
  @JsonValue.rec motive (fun values => ∀ value ∈ values, motive value)
    (fun entries => ∀ entry ∈ entries, motive entry.2) (fun entry => motive entry.2)
    null bool number string array object (by simp)
    (fun _ _ head rest => List.forall_mem_cons.mpr ⟨head, rest⟩) (by simp)
    (fun _ _ head rest => List.forall_mem_cons.mpr ⟨head, rest⟩) (fun _ _ inner => inner) value

end JsonValue

variable {limits : InputLimits} {valueByteLimit : Nat}

theorem convertJsonItems_genuine {values : List JsonValue}
    (each : ∀ value ∈ values, ∀ depth converted,
      convertJsonValue limits valueByteLimit depth value = .ok converted → converted.Genuine) :
    ∀ {depth converted}, convertJsonItems limits valueByteLimit depth values = .ok converted →
      ∀ value ∈ converted, value.Genuine := by
  induction values with
  | nil =>
    intro depth converted made
    rw [convertJsonItems] at made
    cases made
    exact List.forall_mem_nil _
  | cons value values ih =>
    intro depth converted made
    rw [convertJsonItems] at made
    obtain ⟨first, head, made⟩ := bind_eq_ok.mp made
    obtain ⟨rest, tail, made⟩ := bind_eq_ok.mp made
    cases made
    rw [List.forall_mem_cons] at each
    exact List.forall_mem_cons.mpr ⟨each.1 depth first head, ih each.2 tail⟩

theorem convertJsonEntries_genuine (each : ∀ entry ∈ entries, ∀ depth converted,
      convertJsonValue limits valueByteLimit depth entry.2 = .ok converted → converted.Genuine) :
    ∀ {depth : Nat} {before converted : ExtTreeMap String ContextValue},
      (∀ (key : String) (value : ContextValue), before[key]? = some value → value.Genuine) →
      convertJsonEntries limits valueByteLimit depth entries before = .ok converted →
      ∀ (key : String) (value : ContextValue), converted[key]? = some value → value.Genuine := by
  induction entries with
  | nil =>
    intro depth before converted genuine made
    rw [convertJsonEntries] at made
    cases made
    exact genuine
  | cons entry entries ih =>
    obtain ⟨key, value⟩ := entry
    intro depth before converted genuine made
    rw [convertJsonEntries] at made
    obtain ⟨_, _, made⟩ := bind_eq_ok.mp made
    obtain ⟨first, head, made⟩ := bind_eq_ok.mp made
    rw [List.forall_mem_cons] at each
    refine ih each.2 (fun other found present => ?_) made
    obtain ⟨-, rfl⟩ | old := OrderedMap.of_getElem?_insert present
    · exact each.1 depth first head
    · exact genuine other found old

theorem convertJsonValue_genuine (value : JsonValue) : ∀ (depth : Nat) (converted : ContextValue),
    convertJsonValue limits valueByteLimit depth value = .ok converted → converted.Genuine := by
  induction value with
  | null =>
    intro depth converted made
    obtain ⟨-, made⟩ := guard_eq_ok.mp made
    cases made
    exact .null
  | bool value =>
    intro depth converted made
    obtain ⟨-, made⟩ := guard_eq_ok.mp made
    cases made
    exact .bool value
  | number asF64 =>
    intro depth converted made
    obtain ⟨-, made⟩ := guard_eq_ok.mp made
    obtain ⟨bits, _, made⟩ := bind_eq_ok.mp made
    obtain ⟨normalized, finite, made⟩ := bind_eq_ok.mp made
    cases made
    exact .double (FiniteFloat.normal_of_new finite)
  | string value =>
    intro depth converted made
    obtain ⟨-, made⟩ := guard_eq_ok.mp made
    obtain ⟨text, _, made⟩ := bind_eq_ok.mp made
    cases made
    exact .string text
  | array values ih =>
    intro depth converted made
    obtain ⟨-, made⟩ := guard_eq_ok.mp made
    obtain ⟨_, _, made⟩ := bind_eq_ok.mp made
    obtain ⟨items, inner, made⟩ := bind_eq_ok.mp made
    obtain ⟨_, _, made⟩ := bind_eq_ok.mp made
    cases made
    exact .list (convertJsonItems_genuine ih inner)
  | object entries ih =>
    intro depth converted made
    obtain ⟨-, made⟩ := guard_eq_ok.mp made
    obtain ⟨_, _, made⟩ := bind_eq_ok.mp made
    obtain ⟨items, inner, made⟩ := bind_eq_ok.mp made
    obtain ⟨_, _, made⟩ := bind_eq_ok.mp made
    cases made
    refine .map fun entry member => ?_
    refine convertJsonEntries_genuine ih (fun key value present => ?_) inner entry.1 entry.2
      (mem_toList_iff_getElem?_eq_some.mp member)
    rw [getElem?_empty] at present
    cases present

/-- A context of normal values under accepted names. -/
def ConditionContext.Genuine (context : ConditionContext) : Prop :=
  ∃ values : ContextMap, context = .ofMap values ∧
    ∀ (name : ParameterName) (value : ContextValue), values[name]? = some value →
      name.Canonical ∧ value.Genuine

theorem convertJsonParameters_genuine : ∀ {before converted : ContextMap},
      (∀ (name : ParameterName) (value : ContextValue), before[name]? = some value →
        name.Canonical ∧ value.Genuine) →
      convertJsonParameters limits valueByteLimit entries before = .ok converted →
      ∀ (name : ParameterName) (value : ContextValue), converted[name]? = some value →
        name.Canonical ∧ value.Genuine := by
  induction entries with
  | nil =>
    intro before converted genuine made
    rw [convertJsonParameters] at made
    cases made
    exact genuine
  | cons entry entries ih =>
    intro before converted genuine made
    rw [convertJsonParameters] at made
    obtain ⟨name, named, made⟩ := bind_eq_ok.mp made
    obtain ⟨first, head, made⟩ := bind_eq_ok.mp made
    refine ih (fun other found present => ?_) made
    obtain ⟨rfl, rfl⟩ | old := OrderedMap.of_getElem?_insert present
    · exact ⟨ParameterName.canonical_of_parse (mapError_eq_ok.mp named),
        convertJsonValue_genuine _ _ _ head⟩
    · exact genuine other found old

/-- Whatever the policy, a context is its parameters, nothing else. -/
theorem ConditionContext.newWithPolicy_eq_ok {values : ContextMap}
    (accepted : newWithPolicy values limits byteLimit enforce = .ok context) :
    context = .ofMap values := by
  obtain ⟨-, accepted⟩ := guard_eq_ok.mp accepted
  obtain ⟨_, _, accepted⟩ := bind_eq_ok.mp accepted
  cases accepted
  rfl

/-- A context from JSON is genuine, whatever is left unchecked. -/
theorem ConditionContext.genuine_of_json {value : JsonValue}
    (made : tryFromJsonWithPolicy value limits valueByteLimit byteLimit enforce = .ok context) :
    context.Genuine := by
  unfold tryFromJsonWithPolicy at made
  split at made
  · split at made
    · cases made
    · obtain ⟨values, converted, made⟩ := bind_eq_ok.mp made
      refine ⟨values, newWithPolicy_eq_ok made, convertJsonParameters_genuine ?_ converted⟩
      intro name value present
      rw [getElem?_empty] at present
      cases present
  · cases made

end Genuine

end OpenFga
