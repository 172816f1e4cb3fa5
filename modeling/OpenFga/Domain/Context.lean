import OpenFga.Domain.Limits
import OpenFga.Domain.Order
import Std.Data.ExtTreeMap

/-!
# Bounded condition contexts

A context enters the domain through a check of its whole tree: the depth, the number of
values, the sizes of texts, keys and collections, and the bytes altogether. The check
carries what it has counted so far. Two of the limits can be switched off, since a
context that came over the wire was measured there.

Counters are natural numbers. The counts of values in memory do not overflow, and the
depth stays below its limit.
-/

namespace OpenFga

open Std

/-- The size of a context, so far. -/
structure ContextStats where
  bytes : Nat
  values : Nat
  byteLimit : Option Nat

namespace ContextStats

/-- A limit on the bytes, if there is one. -/
def new (byteLimit : Option Nat) : ContextStats := ⟨0, 0, byteLimit⟩

def addBytes (stats : ContextStats) (bytes : Nat) : Except ValidationError ContextStats :=
  if stats.byteLimit.any fun limit => decide (limit < stats.bytes + bytes) then
    .error ⟨"condition_context", .tooLarge⟩
  else .ok { stats with bytes := stats.bytes + bytes }

def addValue (stats : ContextStats) (limits : InputLimits) : Except ValidationError ContextStats :=
  if limits.contextValues.get < stats.values + 1 then
    .error ⟨"condition_context", .tooManyItems⟩
  else .ok { stats with values := stats.values + 1 }

end ContextStats

section Validation

variable (limits : InputLimits) (enforceValueByteLimit : Bool)

/-- The number of items of a list or map. -/
def checkItems (field : String) (count : Nat) : Except ValidationError Unit :=
  if limits.contextCollectionItems.get < count then .error ⟨field, .tooManyItems⟩ else .ok ()

/-- The size of a text or byte string, where it is enforced. -/
def checkValueBytes (field : String) (bytes : Nat) : Except ValidationError Unit :=
  if enforceValueByteLimit && decide (limits.contextStringBytes.get < bytes) then
    .error ⟨field, .tooLarge⟩
  else .ok ()

def checkKeyBytes (key : String) : Except ValidationError Unit :=
  if limits.contextKeyBytes.get < key.utf8ByteSize then .error ⟨"context_key", .tooLarge⟩
  else .ok ()

mutual

def validateContextValue (depth : Nat) : ContextValue → ContextStats →
    Except ValidationError ContextStats
  | value, stats => do
      if limits.contextDepth.get < depth then .error ⟨"condition_context", .tooDeep⟩
      else
        let stats ← stats.addValue limits
        match value with
        | .null => .ok stats
        | .bool _ => stats.addBytes 1
        | .int _ => stats.addBytes 8
        | .uint _ => stats.addBytes 8
        | .double _ => stats.addBytes 8
        | .string value =>
            checkValueBytes limits enforceValueByteLimit "context_string" value.utf8ByteSize
            stats.addBytes value.utf8ByteSize
        | .bytes value =>
            checkValueBytes limits enforceValueByteLimit "context_bytes" value.length
            stats.addBytes value.length
        | .list values =>
            checkItems limits "context_list" values.length
            validateItems (depth + 1) values stats
        | .map entries =>
            checkItems limits "context_map" entries.length
            validateEntries (depth + 1) entries stats

def validateItems (depth : Nat) : List ContextValue → ContextStats →
    Except ValidationError ContextStats
  | [], stats => .ok stats
  | value :: values, stats => do
      let stats ← validateContextValue depth value stats
      validateItems depth values stats

def validateEntries (depth : Nat) : List (String × ContextValue) → ContextStats →
    Except ValidationError ContextStats
  | [], stats => .ok stats
  | (key, value) :: entries, stats => do
      checkKeyBytes limits key
      let stats ← stats.addBytes key.utf8ByteSize
      let stats ← validateContextValue depth value stats
      validateEntries depth entries stats

end

/-- The parameters of a context, one after another. -/
def validateParameters : List (ParameterName × ContextValue) → ContextStats →
    Except ValidationError ContextStats
  | [], stats => .ok stats
  | (name, value) :: entries, stats => do
      let stats ← stats.addBytes name.text.utf8ByteSize
      let stats ← validateContextValue limits enforceValueByteLimit 1 value stats
      validateParameters entries stats

end Validation

/-- The parameters of a context by name. -/
abbrev ContextMap := ExtTreeMap ParameterName ContextValue

instance : TransOrd ParameterName := inferInstance

/-- A context lists its parameters in the order of their names. -/
def ConditionContext.ofMap (values : ContextMap) : ConditionContext where
  values := values.toList
  keys_nodup := by
    rw [ExtTreeMap.map_fst_toList_eq_keys]
    exact ExtTreeMap.nodup_keys

namespace ConditionContext

def newWithPolicy (values : ContextMap) (limits : InputLimits) (byteLimit : Option Nat)
    (enforceValueByteLimit : Bool) : Except ValidationError ConditionContext := do
  if limits.contextCollectionItems.get < values.size then
    .error ⟨"condition_context", .tooManyItems⟩
  else
    let _ ← validateParameters limits enforceValueByteLimit values.toList (.new byteLimit)
    .ok (.ofMap values)

def new (values : ContextMap) (limits : InputLimits) : Except ValidationError ConditionContext :=
  newWithPolicy values limits (some limits.contextBytes.get) true

def toMap (context : ConditionContext) : ContextMap := .ofList context.values

/-- The parameters of both contexts; those of the second prevail. -/
def merged (base tuple : ConditionContext) : ContextMap :=
  tuple.values.foldl (fun values entry => values.insert entry.1 entry.2) base.toMap

def overlay (base tuple : ConditionContext) (limits : InputLimits) :
    Except ValidationError ConditionContext :=
  new (base.merged tuple) limits

/-- A context that passes the limits is its parameters, nothing else. -/
theorem new_eq_ok {values : ContextMap} {limits : InputLimits} {context : ConditionContext}
    (accepted : new values limits = .ok context) : context = .ofMap values := by
  unfold new newWithPolicy at accepted
  split at accepted
  · cases accepted
  · cases checked : validateParameters limits true values.toList
        (.new (some limits.contextBytes.get)) with
    | error failure =>
      rw [checked] at accepted
      cases accepted
    | ok stats =>
      rw [checked] at accepted
      cases accepted
      rfl

end ConditionContext

end OpenFga
