import OpenFga.Domain.Reference
import OpenFga.Lib.PrefixCode
import Mathlib.Data.List.Lex
import Mathlib.Data.List.Sort

/-!
# Fingerprints of semantic values

A fingerprint is the digest of a byte sequence to which every value adds its own bytes.
A builder is modelled by the bytes fed to it so far; the digest is a parameter of
whatever finishes one.

Texts and collections are written with their length in eight bytes. A length beyond that
would be cut, but no value of a program is that large: `Addressable` says so, and under
it every writer can be split off what follows.
-/

namespace OpenFga

open PrefixCode List

variable {first second : List RelationshipTuple}

structure Fingerprint where
  bytes : List UInt8
  size : bytes.length = 32
  deriving DecidableEq, Repr

theorem Fingerprint.bytes_injective : Function.Injective Fingerprint.bytes := by
  intro first second same
  cases first
  cases second
  cases same
  rfl

/-- Fingerprints are ordered byte by byte. -/
instance : LinearOrder Fingerprint :=
  LinearOrder.lift' (fun fingerprint => fingerprint.bytes.map UInt8.toNat) <|
    (map_injective_iff.mpr fun _ _ same => UInt8.toNat_inj.mp same).comp
      Fingerprint.bytes_injective

def writeTag (tag : UInt8) : List UInt8 := [tag]

def writeU32 (value : UInt32) : List UInt8 := bigEndian 4 value.toNat

def writeU64 (value : UInt64) : List UInt8 := bigEndian 8 value.toNat

def writeI64 (value : Int64) : List UInt8 := writeU64 value.toUInt64

def writeLength (length : Nat) : List UInt8 :=
  writeU64 (UInt64.ofNat (min length (2 ^ 64 - 1)))

def writeBytes (value : List UInt8) : List UInt8 :=
  writeLength value.length ++ value

/-- The UTF-8 bytes of a text. -/
def textBytes (value : String) : List UInt8 := value.toByteArray.data.toList

def writeStr (value : String) : List UInt8 := writeBytes (textBytes value)

/-- What a builder holds once it is opened in a domain. -/
def newBuilder (domain : String) : List UInt8 := writeStr domain

/-- Lengths that a value in memory can have. -/
def Addressable (length : Nat) : Prop := length < 2 ^ 64

instance : DecidablePred Addressable := fun length => Nat.decLt length (2 ^ 64)

/-- A text that fits the memory. -/
def TextFits (value : String) : Prop := Addressable (textBytes value).length

instance : DecidablePred TextFits := fun value =>
  inferInstanceAs (Decidable (Addressable (textBytes value).length))

theorem textBytes_injective : Function.Injective textBytes := by
  intro first second same
  apply String.toByteArray_inj.mp
  exact ByteArray.ext (Array.toList_inj.mp same)

theorem writeU32_splits : SplitsOff (fun _ => True) writeU32 := by
  intro first second _ _ s t same
  obtain ⟨values, rests⟩ := bigEndian_splitsOff 4 _ _ first.toNat_lt second.toNat_lt s t same
  exact ⟨UInt32.toNat_inj.mp values, rests⟩

theorem writeU64_splits : SplitsOff (fun _ => True) writeU64 := by
  intro first second _ _ s t same
  obtain ⟨values, rests⟩ := bigEndian_splitsOff 8 _ _ first.toNat_lt second.toNat_lt s t same
  exact ⟨UInt64.toNat_inj.mp values, rests⟩

theorem writeI64_splits : SplitsOff (fun _ => True) writeI64 := by
  apply writeU64_splits.comap
  intro first second same
  cases first
  cases second
  cases same
  rfl

theorem writeLength_splits : SplitsOff Addressable writeLength := by
  intro first second fits fits' s t same
  obtain ⟨words, rests⟩ := writeU64_splits _ _ trivial trivial s t same
  have lengths := congrArg UInt64.toNat words
  simp only [UInt64.toNat_ofNat'] at lengths
  unfold Addressable at fits fits'
  exact ⟨by omega, rests⟩

theorem writeBytes_splits : SplitsOff (fun value => Addressable value.length) writeBytes :=
  writeLength_splits.framed

theorem writeStr_splits : SplitsOff TextFits writeStr :=
  writeBytes_splits.comap textBytes_injective

theorem fingerprint_splits :
    SplitsOff (fun _ => True) (fun fingerprint : Fingerprint => writeBytes fingerprint.bytes) := by
  intro first second _ _ s t same
  have fits : ∀ fingerprint : Fingerprint, Addressable fingerprint.bytes.length := by
    intro fingerprint
    rw [fingerprint.size]
    decide
  exact writeBytes_splits.comap Fingerprint.bytes_injective first second (fits first)
    (fits second) s t same

def SubjectRef.Addressable : SubjectRef → Prop
  | .object ref => TextFits ref.objectType.text ∧ TextFits ref.objectId.text
  | .userset ref => TextFits ref.object.objectType.text ∧ TextFits ref.object.objectId.text ∧
      TextFits ref.relation.text
  | .typedWildcard objectType => TextFits objectType.text

def TupleKey.Addressable (key : TupleKey) : Prop :=
  TextFits key.object.objectType.text ∧ TextFits key.object.objectId.text ∧
    TextFits key.relation.text ∧ key.subject.Addressable

def updateSubjectFingerprint : SubjectRef → List UInt8
  | .object ref =>
      writeTag 0 ++ writeStr ref.objectType.text ++ writeStr ref.objectId.text
  | .userset ref =>
      writeTag 1 ++ writeStr ref.object.objectType.text ++ writeStr ref.object.objectId.text ++
        writeStr ref.relation.text
  | .typedWildcard objectType => writeTag 2 ++ writeStr objectType.text

def updateTupleKeyFingerprint (key : TupleKey) : List UInt8 :=
  writeStr key.object.objectType.text ++ writeStr key.object.objectId.text ++
    writeStr key.relation.text ++ updateSubjectFingerprint key.subject

theorem object_splits {ref ref' : ObjectRef}
    (fits : TextFits ref.objectType.text ∧ TextFits ref.objectId.text)
    (fits' : TextFits ref'.objectType.text ∧ TextFits ref'.objectId.text) {s t : List UInt8}
    (same : writeStr ref.objectType.text ++ (writeStr ref.objectId.text ++ s) =
      writeStr ref'.objectType.text ++ (writeStr ref'.objectId.text ++ t)) :
    ref = ref' ∧ s = t := by
  obtain ⟨⟨type⟩, ⟨id⟩⟩ := ref
  obtain ⟨⟨type'⟩, ⟨id'⟩⟩ := ref'
  obtain ⟨rfl, same⟩ := writeStr_splits type type' fits.1 fits'.1 _ _ same
  obtain ⟨rfl, rests⟩ := writeStr_splits id id' fits.2 fits'.2 _ _ same
  exact ⟨rfl, rests⟩

theorem updateSubjectFingerprint_splits :
    SplitsOff SubjectRef.Addressable updateSubjectFingerprint := by
  intro first second fits fits' s t same
  cases first <;> cases second <;> first
    | exact absurd (head_eq_of_cons_eq same) (by decide)
    | simp only [updateSubjectFingerprint, append_assoc, append_cancel_left_eq] at same
  case object.object ref ref' =>
    obtain ⟨rfl, rests⟩ := object_splits fits fits' same
    exact ⟨rfl, rests⟩
  case userset.userset ref ref' =>
    obtain ⟨object, ⟨relation⟩⟩ := ref
    obtain ⟨object', ⟨relation'⟩⟩ := ref'
    obtain ⟨rfl, same⟩ := object_splits ⟨fits.1, fits.2.1⟩ ⟨fits'.1, fits'.2.1⟩ same
    exact writeStr_splits.form (fun name => SubjectRef.userset ⟨object, ⟨name⟩⟩) fits.2.2
      fits'.2.2 same
  case typedWildcard.typedWildcard objectType objectType' =>
    exact writeStr_splits.form (fun name => SubjectRef.typedWildcard ⟨name⟩) fits fits' same

theorem updateTupleKeyFingerprint_splits :
    SplitsOff TupleKey.Addressable updateTupleKeyFingerprint := by
  intro first second fits fits' s t same
  obtain ⟨object, ⟨relation⟩, subject⟩ := first
  obtain ⟨object', ⟨relation'⟩, subject'⟩ := second
  simp only [updateTupleKeyFingerprint, append_assoc] at same
  obtain ⟨objects, same⟩ := object_splits ⟨fits.1, fits.2.1⟩ ⟨fits'.1, fits'.2.1⟩ same
  obtain ⟨relations, same⟩ := writeStr_splits _ _ fits.2.2.1 fits'.2.2.1 _ _ same
  obtain ⟨subjects, rests⟩ :=
    updateSubjectFingerprint_splits _ _ fits.2.2.2 fits'.2.2.2 _ _ same
  cases objects
  cases relations
  cases subjects
  exact ⟨rfl, rests⟩

namespace ContextValue

/-- Every text and collection inside the value fits the memory. -/
inductive Addressable : ContextValue → Prop where
  | null : Addressable .null
  | bool (value : Bool) : Addressable (.bool value)
  | int (value : Int64) : Addressable (.int value)
  | uint (value : UInt64) : Addressable (.uint value)
  | double (bits : UInt64) : Addressable (.double bits)
  | string {value : String} (fits : TextFits value) : Addressable (.string value)
  | bytes {value : List UInt8} (fits : OpenFga.Addressable value.length) :
      Addressable (.bytes value)
  | list {values : List ContextValue} (fits : OpenFga.Addressable values.length)
      (items : ∀ value ∈ values, Addressable value) : Addressable (.list values)
  | map {entries : List (String × ContextValue)} (fits : OpenFga.Addressable entries.length)
      (keys : ∀ entry ∈ entries, TextFits entry.1)
      (items : ∀ entry ∈ entries, Addressable entry.2) : Addressable (.map entries)

theorem Addressable.text {value : String} : Addressable (.string value) → TextFits value
  | .string fits => fits

theorem Addressable.length {value : List UInt8} :
    Addressable (.bytes value) → OpenFga.Addressable value.length
  | .bytes fits => fits

theorem Addressable.list_items {values : List ContextValue} : Addressable (.list values) →
    OpenFga.Addressable values.length ∧ ∀ value ∈ values, Addressable value
  | .list fits items => ⟨fits, items⟩

theorem Addressable.map_items {entries : List (String × ContextValue)} :
    Addressable (.map entries) → OpenFga.Addressable entries.length ∧
      ∀ entry ∈ entries, TextFits entry.1 ∧ Addressable entry.2
  | .map fits keys items => ⟨fits, fun entry member => ⟨keys entry member, items entry member⟩⟩

mutual

def updateFingerprint : ContextValue → List UInt8
  | .null => writeTag 0
  | .bool value => writeTag 1 ++ writeTag (if value then 1 else 0)
  | .int value => writeTag 2 ++ writeI64 value
  | .uint value => writeTag 3 ++ writeU64 value
  | .double bits => writeTag 4 ++ writeU64 bits
  | .string value => writeTag 5 ++ writeStr value
  | .bytes value => writeTag 6 ++ writeBytes value
  | .list values => writeTag 7 ++ writeLength values.length ++ updateItems values
  | .map entries => writeTag 8 ++ writeLength entries.length ++ updateEntries entries

def updateItems : List ContextValue → List UInt8
  | [] => []
  | value :: values => updateFingerprint value ++ updateItems values

def updateEntries : List (String × ContextValue) → List UInt8
  | [] => []
  | (key, value) :: entries => writeStr key ++ updateFingerprint value ++ updateEntries entries

end

/-- One entry of a map. -/
def updateEntry (entry : String × ContextValue) : List UInt8 :=
  writeStr entry.1 ++ updateFingerprint entry.2

theorem updateItems_eq (values : List ContextValue) :
    updateItems values = values.flatMap updateFingerprint := by
  induction values with
  | nil => rfl
  | cons value values ih => rw [updateItems, ih, flatMap_cons]

theorem updateEntries_eq (entries : List (String × ContextValue)) :
    updateEntries entries = entries.flatMap updateEntry := by
  induction entries with
  | nil => rfl
  | cons entry entries ih =>
    obtain ⟨key, value⟩ := entry
    rw [updateEntries, ih, flatMap_cons, updateEntry]

theorem updateEntry_splits {entry entry' : String × ContextValue} (fits : TextFits entry.1)
    (fits' : TextFits entry'.1)
    (splits : ∀ s t, updateFingerprint entry.2 ++ s = updateFingerprint entry'.2 ++ t →
      entry.2 = entry'.2 ∧ s = t) (s t : List UInt8)
    (same : updateEntry entry ++ s = updateEntry entry' ++ t) : entry = entry' ∧ s = t := by
  simp only [updateEntry, append_assoc] at same
  obtain ⟨keys, same⟩ := writeStr_splits _ _ fits fits' _ _ same
  obtain ⟨values, rests⟩ := splits s t same
  exact ⟨Prod.ext keys values, rests⟩

/-- A value is determined by its bytes, whatever follows them. -/
theorem updateFingerprint_splits : SplitsOff Addressable updateFingerprint := by
  intro first
  -- The tags tell the kinds apart. The bytes of the items are taken apart one by one, each by
  -- the induction hypothesis.
  induction first <;> intro second fits fits' s t same <;> cases second <;> first
    | exact absurd (head_eq_of_cons_eq same) (by decide)
    | have tail := tail_eq_of_cons_eq same
  case null.null => exact ⟨rfl, tail⟩
  case bool.bool value value' =>
    refine ⟨?_, tail_eq_of_cons_eq tail⟩
    have flags := head_eq_of_cons_eq tail
    cases value <;> cases value' <;> simp_all
  case int.int => exact writeI64_splits.form ContextValue.int trivial trivial tail
  case uint.uint => exact writeU64_splits.form ContextValue.uint trivial trivial tail
  case double.double => exact writeU64_splits.form ContextValue.double trivial trivial tail
  case string.string => exact writeStr_splits.form ContextValue.string fits.text fits'.text tail
  case bytes.bytes => exact writeBytes_splits.form ContextValue.bytes fits.length fits'.length tail
  case list.list values ih values' =>
    obtain ⟨fits, items⟩ := fits.list_items
    obtain ⟨fits', items'⟩ := fits'.list_items
    simp only [updateFingerprint, append_assoc, append_cancel_left_eq,
      updateItems_eq] at same
    obtain ⟨counts, same⟩ := writeLength_splits _ _ fits fits' _ _ same
    obtain ⟨rows, rests⟩ := splitsOff_flatMap
      (fun value member other fits => ih value member other (items value member) fits)
      items' counts s t same
    exact ⟨congrArg _ rows, rests⟩
  case map.map entries ih entries' =>
    obtain ⟨fits, items⟩ := fits.map_items
    obtain ⟨fits', items'⟩ := fits'.map_items
    simp only [updateFingerprint, append_assoc, append_cancel_left_eq,
      updateEntries_eq] at same
    obtain ⟨counts, same⟩ := writeLength_splits _ _ fits fits' _ _ same
    obtain ⟨rows, rests⟩ := splitsOff_flatMap
      (fun entry member entry' (fits' : TextFits entry'.1 ∧ Addressable entry'.2) =>
        updateEntry_splits (items entry member).1 fits'.1
          (ih entry member entry'.2 (items entry member).2 fits'.2))
      items' counts s t same
    exact ⟨congrArg _ rows, rests⟩

end ContextValue

/-- What a condition context feeds to the digest, its entries in key order. -/
def contextInput (context : ConditionContext) : List UInt8 :=
  newBuilder "openfga.condition-context.v1" ++ (writeLength context.values.length ++
    context.values.flatMap fun entry => writeStr entry.1.text ++ entry.2.updateFingerprint)

def ConditionContext.Addressable (context : ConditionContext) : Prop :=
  OpenFga.Addressable context.values.length ∧
    ∀ entry ∈ context.values, TextFits entry.1.text ∧ entry.2.Addressable

theorem contextEntry_splits :
    SplitsOff (fun entry : ParameterName × ContextValue =>
        TextFits entry.1.text ∧ entry.2.Addressable)
      (fun entry => writeStr entry.1.text ++ entry.2.updateFingerprint) := by
  intro first second fits fits' s t same
  obtain ⟨⟨name⟩, value⟩ := first
  obtain ⟨⟨name'⟩, value'⟩ := second
  rw [append_assoc, append_assoc] at same
  obtain ⟨names, same⟩ := writeStr_splits name name' fits.1 fits'.1 _ _ same
  obtain ⟨values, rests⟩ :=
    ContextValue.updateFingerprint_splits value value' fits.2 fits'.2 _ _ same
  cases names
  cases values
  exact ⟨rfl, rests⟩

theorem contextInput_injOn : Set.InjOn contextInput {context | context.Addressable} := by
  intro first fits second fits' same
  have entries := (writeLength_splits.counted contextEntry_splits).injOn fits fits'
    (append_cancel_left same)
  cases first
  cases second
  cases entries
  rfl

/-- Request tuples: no two of them share a key. -/
structure ContextualTuples where
  tuples : List RelationshipTuple
  keys_nodup : (tuples.map RelationshipTuple.key).Nodup

section Digests

variable (sha256 : List UInt8 → Fingerprint)

def ConditionContext.fingerprint (context : ConditionContext) : Fingerprint :=
  sha256 (contextInput context)

def tupleKeyInput (key : TupleKey) : List UInt8 :=
  newBuilder "openfga.tuple-key.v1" ++ updateTupleKeyFingerprint key

def TupleKey.fingerprint (key : TupleKey) : Fingerprint :=
  sha256 (tupleKeyInput key)

def updateConditionFingerprint : ConditionReference → List UInt8
  | .unconditional => writeTag 0
  | .conditional binding =>
      writeTag 1 ++ (writeStr binding.name.text ++
        writeBytes (binding.context.fingerprint sha256).bytes)

def RelationshipTuple.updateFingerprint (tuple : RelationshipTuple) : List UInt8 :=
  updateTupleKeyFingerprint tuple.key ++ updateConditionFingerprint sha256 tuple.condition

def tupleInput (tuple : RelationshipTuple) : List UInt8 :=
  newBuilder "openfga.relationship-tuple.v1" ++ tuple.updateFingerprint sha256

/-- The digests of the tuples, sorted. -/
def tupleFingerprints (tuples : List RelationshipTuple) : List Fingerprint :=
  (tuples.map fun tuple => sha256 (tupleInput sha256 tuple)).insertionSort (· ≤ ·)

def contextualInput (tuples : List RelationshipTuple) : List UInt8 :=
  newBuilder "openfga.contextual-tuples.v1" ++
    (writeLength (tupleFingerprints sha256 tuples).length ++
      (tupleFingerprints sha256 tuples).flatMap fun fingerprint => writeBytes fingerprint.bytes)

def fingerprintContextualTuples (tuples : List RelationshipTuple) : Fingerprint :=
  sha256 (contextualInput sha256 tuples)

/-- The condition context a tuple carries, if any. -/
def RelationshipTuple.contextInputs (tuple : RelationshipTuple) : List (List UInt8) :=
  match tuple.condition with
  | .unconditional => []
  | .conditional binding => [contextInput binding.context]

def RelationshipTuple.Addressable (tuple : RelationshipTuple) : Prop :=
  tuple.key.Addressable ∧
    match tuple.condition with
    | .unconditional => True
    | .conditional binding => TextFits binding.name.text ∧ binding.context.Addressable

variable {sha256} {inputs : Set (List UInt8)} (separates : Set.InjOn sha256 inputs)

theorem tupleKeyInput_injOn : Set.InjOn tupleKeyInput {key | key.Addressable} := by
  intro first fits second fits' same
  exact updateTupleKeyFingerprint_splits.injOn fits fits' (append_cancel_left same)

include separates in
theorem updateConditionFingerprint_inj {first second : RelationshipTuple}
    (fits : first.Addressable) (fits' : second.Addressable)
    (hashed : ∀ input ∈ first.contextInputs, input ∈ inputs)
    (hashed' : ∀ input ∈ second.contextInputs, input ∈ inputs)
    (same : updateConditionFingerprint sha256 first.condition =
      updateConditionFingerprint sha256 second.condition) :
    first.condition = second.condition := by
  obtain ⟨key, condition⟩ := first
  obtain ⟨key', condition'⟩ := second
  cases condition with
  | unconditional =>
    cases condition' with
    | unconditional => rfl
    | conditional _ => exact absurd (head_eq_of_cons_eq same) (by decide)
  | conditional binding =>
    cases condition' with
    | unconditional => exact absurd (head_eq_of_cons_eq same) (by decide)
    | conditional binding' =>
      obtain ⟨names, digests⟩ := writeStr_splits _ _ fits.2.1 fits'.2.1 _ _
        (tail_eq_of_cons_eq same)
      have contexts : binding.context = binding'.context := by
        apply contextInput_injOn fits.2.2 fits'.2.2
        apply separates (hashed _ mem_cons_self) (hashed' _ mem_cons_self)
        exact fingerprint_splits.injOn trivial trivial digests
      obtain ⟨⟨name⟩, context⟩ := binding
      obtain ⟨⟨name'⟩, context'⟩ := binding'
      cases names
      cases contexts
      rfl

/-- A relationship tuple is determined by what it feeds to the digest. -/
theorem tupleInput_inj {first second : RelationshipTuple} (fits : first.Addressable)
    (fits' : second.Addressable) (separates : Set.InjOn sha256 inputs)
    (hashed : ∀ input ∈ first.contextInputs, input ∈ inputs)
    (hashed' : ∀ input ∈ second.contextInputs, input ∈ inputs)
    (same : tupleInput sha256 first = tupleInput sha256 second) : first = second := by
  obtain ⟨keys, conditions⟩ := updateTupleKeyFingerprint_splits _ _ fits.1 fits'.1 _ _
    (append_cancel_left same)
  have conditions :=
    updateConditionFingerprint_inj separates fits fits' hashed hashed' conditions
  cases first
  cases second
  cases keys
  cases conditions
  rfl

theorem tupleFingerprints_length (tuples : List RelationshipTuple) :
    (tupleFingerprints sha256 tuples).length = tuples.length := by
  rw [tupleFingerprints, length_insertionSort, length_map]

/-- The order of the tuples is lost when their digests are sorted. -/
theorem tupleFingerprints_perm (reordered : first.Perm second) :
    tupleFingerprints sha256 first = tupleFingerprints sha256 second := by
  apply List.Perm.eq_of_pairwise (fun a b _ _ => le_antisymm)
    (pairwise_insertionSort _ _) (pairwise_insertionSort _ _)
  exact (perm_insertionSort _ _).trans
    ((reordered.map _).trans (perm_insertionSort _ _).symm)

/-- A map that separates the members of two lists reflects permutations of them. -/
theorem perm_of_map_perm {α β : Type} {f : α → β} {members : Set α}
    (injective : Set.InjOn f members) {first second : List α} (inside : ∀ a ∈ first, a ∈ members)
    (inside' : ∀ a ∈ second, a ∈ members) (mapped : (first.map f).Perm (second.map f)) :
    first.Perm second := by
  cases first with
  | nil =>
    have empty := nil_perm.mp mapped
    rw [map_eq_nil_iff.mp empty]
  | cons a first =>
    have : Nonempty α := ⟨a⟩
    -- A left inverse on the members takes both images back.
    have back : ∀ items : List α, (∀ item ∈ items, item ∈ members) →
        (items.map f).map (Function.invFunOn f members) = items := by
      intro items inside
      rw [map_map]
      exact (map_congr_left fun item member =>
        injective.leftInvOn_invFunOn (inside item member)).trans (map_id items)
    have undone := mapped.map (Function.invFunOn f members)
    rwa [back _ inside, back _ inside'] at undone

/-- Sorted digests determine the tuples up to their order. -/
theorem perm_of_tupleFingerprints (separates : Set.InjOn sha256 inputs)
    (fits : ∀ tuple ∈ first, tuple.Addressable) (fits' : ∀ tuple ∈ second, tuple.Addressable)
    (hashed : ∀ tuple ∈ first, tupleInput sha256 tuple ∈ inputs ∧
      ∀ input ∈ tuple.contextInputs, input ∈ inputs)
    (hashed' : ∀ tuple ∈ second, tupleInput sha256 tuple ∈ inputs ∧
      ∀ input ∈ tuple.contextInputs, input ∈ inputs)
    (same : tupleFingerprints sha256 first = tupleFingerprints sha256 second) :
    first.Perm second := by
  let members := {tuple : RelationshipTuple | tuple.Addressable ∧
    tupleInput sha256 tuple ∈ inputs ∧ ∀ input ∈ tuple.contextInputs, input ∈ inputs}
  have injective : Set.InjOn (fun tuple => sha256 (tupleInput sha256 tuple)) members := by
    intro tuple member tuple' member' digests
    exact tupleInput_inj member.1 member'.1 separates member.2.2 member'.2.2
      (separates member.2.1 member'.2.1 digests)
  apply perm_of_map_perm injective
    (fun tuple member => ⟨fits tuple member, hashed tuple member⟩)
    (fun tuple member => ⟨fits' tuple member, hashed' tuple member⟩)
  have before : (first.map fun tuple => sha256 (tupleInput sha256 tuple)).Perm
      (tupleFingerprints sha256 first) := (perm_insertionSort _ _).symm
  rw [same] at before
  exact before.trans (perm_insertionSort _ _)

/-- The digests written one after another determine their list. -/
theorem contextualInput_inj (fits : Addressable first.length) (fits' : Addressable second.length)
    (same : contextualInput sha256 first = contextualInput sha256 second) :
    tupleFingerprints sha256 first = tupleFingerprints sha256 second := by
  apply (writeLength_splits.counted fingerprint_splits).injOn
    ⟨by rwa [tupleFingerprints_length], fun _ _ => trivial⟩
    ⟨by rwa [tupleFingerprints_length], fun _ _ => trivial⟩
  exact append_cancel_left same

end Digests

end OpenFga
