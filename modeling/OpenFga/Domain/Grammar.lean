import OpenFga.Domain.Limits
import OpenFga.Domain.Reference
import OpenFga.Lib.Ensures

/-!
# The text of references

Names and references are given as text and printed as text. A name is a text of bounded
size over an alphabet that leaves out the separators of the references around it. So a
printed reference can be taken apart again, and parsing it with the widest limits gives
back the reference (`TupleKey.parse_display`).

A parser takes the longest run of admitted characters, at least one, and then looks for a
separator. When it fails, the text is scanned once more for the error to report.
-/

namespace OpenFga

open List Option

variable {maximum : Nat} {allowed : Char → Bool} {text : String} {ref : ObjectRef}
  {subject : SubjectRef} {key : TupleKey} {value field : String} {admitted : Char → Bool}
  {separator : Char} {name : ConditionName} {id : ObjectId} {α : Type}

inductive ParseKind where
  | empty
  | missingSeparator
  | unexpectedSeparator
  | invalidCharacter
  | tooLong
  | invalidLength
  | nonCanonical
  deriving DecidableEq, Repr

/-- The field, and the byte at which it goes wrong. -/
structure ParseError where
  field : String
  offset : Nat
  kind : ParseKind
  deriving DecidableEq, Repr

inductive DomainError where
  | parse (error : ParseError)
  | validation (error : ValidationError)
  deriving DecidableEq, Repr

def isNameCharacter (character : Char) : Bool :=
  '!' ≤ character && character ≤ '~' && character != ':' && character != '#' && character != '@'

def isControl (character : Char) : Bool :=
  decide (character.toNat < 0x20) ||
    decide (0x7f ≤ character.toNat) && decide (character.toNat ≤ 0x9f)

def isWhitespace (character : Char) : Bool :=
  decide (0x09 ≤ character.toNat) && decide (character.toNat ≤ 0x0d) ||
    decide (0x2000 ≤ character.toNat) && decide (character.toNat ≤ 0x200a) ||
    [0x20, 0x85, 0xa0, 0x1680, 0x2028, 0x2029, 0x202f, 0x205f, 0x3000].contains character.toNat

def isObjectIdCharacter (character : Char) : Bool :=
  !isControl character && !isWhitespace character && character != ':' && character != '#'

section Components

/-- The byte offset of the first character of a kind. -/
def offsetOf (wanted : Char → Bool) : Nat → List Char → Option Nat
  | _, [] => none
  | offset, character :: rest =>
      if wanted character then some offset else offsetOf wanted (offset + character.utf8Size) rest

def parseCompleteComponent (value field : String) (maximum : Nat) (allowed : Char → Bool) :
    Except ParseError String :=
  if value.isEmpty then .error ⟨field, 0, .empty⟩
  else if maximum < value.utf8ByteSize then .error ⟨field, maximum, .tooLong⟩
  else if value.toList.all allowed then .ok value
  else
    let offset := (offsetOf (fun character => !allowed character) 0 value.toList).getD
      value.utf8ByteSize
    .error ⟨field, offset, .invalidCharacter⟩

variable (value : String) (limits : InputLimits)

def TypeName.parseWithLimits : Except ParseError TypeName :=
  (parseCompleteComponent value "type_name" limits.typeNameBytes.get isNameCharacter).map
    TypeName.mk

def RelationName.parseWithLimits : Except ParseError RelationName :=
  (parseCompleteComponent value "relation_name" limits.relationNameBytes.get isNameCharacter).map
    RelationName.mk

def ConditionName.parseWithLimits : Except ParseError ConditionName :=
  (parseCompleteComponent value "condition_name" limits.conditionNameBytes.get
    isNameCharacter).map ConditionName.mk

def ParameterName.parseWithLimits : Except ParseError ParameterName :=
  (parseCompleteComponent value "parameter_name" limits.parameterNameBytes.get
    isNameCharacter).map ParameterName.mk

def ObjectId.parseWithLimits : Except ParseError ObjectId :=
  (parseCompleteComponent value "object_id" limits.objectIdBytes.get isObjectIdCharacter).map
    ObjectId.mk

def ObjectId.isWildcard (id : ObjectId) : Bool := id.text == "*"

end Components

section Runs

/-- The longest run of admitted characters, if there is one, and what follows it. -/
def takeRun (admitted : Char → Bool) (input : List Char) : Option (List Char × List Char) :=
  let taken := input.takeWhile admitted
  if taken.isEmpty then none else some (taken, input.dropWhile admitted)

def literal (separator : Char) : List Char → Option (List Char)
  | [] => none
  | character :: rest => if character = separator then some rest else none

/-- The whole input must have been taken. -/
def endOfInput (input : List Char) : Option Unit :=
  if input.isEmpty then some () else none

variable {admitted : Char → Bool} {taken rest : List Char}

/-- A run ends where a character is not admitted. -/
theorem takeRun_append (nonempty : taken ≠ []) (run : ∀ character ∈ taken, admitted character)
    (stops : ∀ character ∈ rest.head?, admitted character = false) :
    takeRun admitted (taken ++ rest) = some (taken, rest) := by
  have none : rest.takeWhile admitted = [] ∧ rest.dropWhile admitted = rest := by
    cases rest with
    | nil => exact ⟨rfl, rfl⟩
    | cons character rest =>
      have refused := stops character rfl
      simp [refused]
  have front : (taken ++ rest).takeWhile admitted = taken := by
    rw [takeWhile_append_of_pos run, none.1, append_nil]
  have back : (taken ++ rest).dropWhile admitted = rest := by
    rw [dropWhile_append_of_pos run, none.2]
  rw [takeRun, front, back, if_neg (by simpa using nonempty)]

theorem takeRun_all (nonempty : taken ≠ []) (run : ∀ character ∈ taken, admitted character) :
    takeRun admitted taken = some (taken, []) := by
  have whole : takeRun admitted (taken ++ []) = some (taken, []) :=
    takeRun_append nonempty run fun _ held => (by cases held)
  rwa [append_nil] at whole

end Runs

/-- The type and the identifier of an object. -/
def objectParts (input : List Char) : Option (List Char × List Char) := do
  let (objectType, input) ← takeRun isNameCharacter input
  let input ← literal ':' input
  let (objectId, input) ← takeRun isObjectIdCharacter input
  endOfInput input
  some (objectType, objectId)

/-- Scans for the error of an object that could not be taken apart. -/
def scanObject (length : Nat) (field : String) : Option Nat → Nat → List Char → ParseError
  | none, _, [] => ⟨field, length, .missingSeparator⟩
  | some colon, _, [] =>
      if colon + 1 = length then ⟨field, length, .empty⟩ else ⟨field, 0, .invalidCharacter⟩
  | colon, offset, character :: rest =>
      if colon.isNone && character == ':' && decide (0 < offset) then
        scanObject length field (some offset) (offset + character.utf8Size) rest
      else if character == ':' then ⟨field, offset, .unexpectedSeparator⟩
      else if colon.isNone && !isNameCharacter character then
        ⟨field, offset, .invalidCharacter⟩
      else if colon.isSome && !isObjectIdCharacter character then
        ⟨field, offset, .invalidCharacter⟩
      else scanObject length field colon (offset + character.utf8Size) rest

def objectStructureError (value field : String) : ParseError :=
  if value.isEmpty then ⟨field, 0, .empty⟩
  else scanObject value.utf8ByteSize field none 0 value.toList

def parseObjectParts (value field : String) : Except ParseError (String × String) :=
  match objectParts value.toList with
  | some (objectType, objectId) => .ok (.ofList objectType, .ofList objectId)
  | none => .error (objectStructureError value field)

def ObjectRef.new (objectType : TypeName) (objectId : ObjectId) (limits : InputLimits) :
    Except ValidationError ObjectRef :=
  if objectId.isWildcard then .error ⟨"object_id", .inconsistent⟩
  else if limits.objectRefBytes.get <
      objectType.text.utf8ByteSize + 1 + objectId.text.utf8ByteSize then
    .error ⟨"object", .tooLarge⟩
  else .ok ⟨objectType, objectId⟩

def ObjectRef.parseWithLimits (value : String) (limits : InputLimits) :
    Except DomainError ObjectRef := do
  let (objectType, objectId) ← (parseObjectParts value "object").mapError .parse
  let objectType ← (TypeName.parseWithLimits objectType limits).mapError .parse
  let objectId ← (ObjectId.parseWithLimits objectId limits).mapError .parse
  (ObjectRef.new objectType objectId limits).mapError .validation

def ObjectRef.display (ref : ObjectRef) : String :=
  ref.objectType.text ++ ":" ++ ref.objectId.text

def UsersetRef.new (object : ObjectRef) (relation : RelationName) (limits : InputLimits) :
    Except ValidationError UsersetRef :=
  if limits.subjectRefBytes.get <
      object.display.utf8ByteSize + 1 + relation.text.utf8ByteSize then
    .error ⟨"userset", .tooLarge⟩
  else .ok ⟨object, relation⟩

def UsersetRef.display (ref : UsersetRef) : String :=
  ref.object.display ++ "#" ++ ref.relation.text

/-- The relation of a userset, if the input goes on with one. -/
def optionalRelation (input : List Char) : Option (List Char) × List Char :=
  match literal '#' input with
  | none => (none, input)
  | some after =>
      match takeRun isNameCharacter after with
      | none => (none, input)
      | some (relation, rest) => (some relation, rest)

def subjectParts (input : List Char) : Option (List Char × List Char × Option (List Char)) := do
  let (objectType, input) ← takeRun isNameCharacter input
  let input ← literal ':' input
  let (objectId, input) ← takeRun isObjectIdCharacter input
  let (relation, input) := optionalRelation input
  endOfInput input
  some (objectType, objectId, relation)

/-- Scans for the error of a subject that could not be taken apart. -/
def scanSubject (length : Nat) : Option Nat → Option Nat → Nat → List Char → ParseError
  | none, _, _, [] => ⟨"subject", length, .missingSeparator⟩
  | some colon, hash, _, [] =>
      if colon + 1 = length || hash.any (fun hash => decide (hash + 1 = length)) then
        ⟨"subject", length, .empty⟩
      else ⟨"subject", 0, .invalidCharacter⟩
  | none, hash, offset, character :: rest =>
      if character == ':' then
        if offset = 0 then ⟨"subject", offset, .unexpectedSeparator⟩
        else scanSubject length (some offset) hash (offset + character.utf8Size) rest
      else if !isNameCharacter character then ⟨"subject", offset, .invalidCharacter⟩
      else scanSubject length none hash (offset + character.utf8Size) rest
  | some colon, none, offset, character :: rest =>
      if character == '#' then
        scanSubject length (some colon) (some offset) (offset + character.utf8Size) rest
      else if character == ':' then ⟨"subject", offset, .unexpectedSeparator⟩
      else if !isObjectIdCharacter character then ⟨"subject", offset, .invalidCharacter⟩
      else scanSubject length (some colon) none (offset + character.utf8Size) rest
  | some colon, some hash, offset, character :: rest =>
      if character == '#' || character == ':' then ⟨"subject", offset, .unexpectedSeparator⟩
      else if !isNameCharacter character then ⟨"subject", offset, .invalidCharacter⟩
      else scanSubject length (some colon) (some hash) (offset + character.utf8Size) rest

def subjectStructureError (value : String) : ParseError :=
  if value.isEmpty then ⟨"subject", 0, .empty⟩
  else scanSubject value.utf8ByteSize none none 0 value.toList

def parseSubjectParts (value : String) : Except ParseError (String × String × Option String) :=
  match subjectParts value.toList with
  | some (objectType, objectId, relation) =>
      .ok (.ofList objectType, .ofList objectId, relation.map .ofList)
  | none => .error (subjectStructureError value)

def SubjectRef.parseWithLimits (value : String) (limits : InputLimits) :
    Except DomainError SubjectRef := do
  if limits.subjectRefBytes.get < value.utf8ByteSize then
    .error (.validation ⟨"subject", .tooLarge⟩)
  else
    let (objectType, objectId, relation) ← (parseSubjectParts value).mapError .parse
    let objectType ← (TypeName.parseWithLimits objectType limits).mapError .parse
    let objectId ← (ObjectId.parseWithLimits objectId limits).mapError .parse
    match objectId.isWildcard, relation with
    | true, none => .ok (.typedWildcard objectType)
    | true, some _ => .error (.validation ⟨"subject", .inconsistent⟩)
    | false, none =>
        let object ← (ObjectRef.new objectType objectId limits).mapError .validation
        .ok (.object object)
    | false, some relation =>
        let object ← (ObjectRef.new objectType objectId limits).mapError .validation
        let relation ← (RelationName.parseWithLimits relation limits).mapError .parse
        let userset ← (UsersetRef.new object relation limits).mapError .validation
        .ok (.userset userset)

def SubjectRef.display : SubjectRef → String
  | .object ref => ref.display
  | .userset ref => ref.display
  | .typedWildcard objectType => objectType.text ++ ":*"

def tupleParts (input : List Char) : Option (List Char × List Char × List Char) := do
  let (object, input) ← takeRun (fun character => character != '#') input
  let input ← literal '#' input
  let (relation, input) ← takeRun isNameCharacter input
  let input ← literal '@' input
  let (subject, input) ← takeRun (fun _ => true) input
  endOfInput input
  some (object, relation, subject)

def tupleStructureError (value : String) : ParseError :=
  if value.isEmpty then ⟨"tuple_key", 0, .empty⟩
  else
    match offsetOf (fun character => character == '#') 0 value.toList with
    | none => ⟨"tuple_key", value.utf8ByteSize, .missingSeparator⟩
    | some hash =>
        let after := (value.toList.dropWhile fun character => character != '#').drop 1
        match offsetOf (fun character => character == '@') (hash + 1) after with
        | none => ⟨"tuple_key", value.utf8ByteSize, .missingSeparator⟩
        | some sign =>
            if hash = 0 || sign = hash + 1 || sign + 1 = value.utf8ByteSize then
              ⟨"tuple_key", sign, .empty⟩
            else ⟨"tuple_key", 0, .invalidCharacter⟩

def parseTupleParts (value : String) : Except ParseError (String × String × String) :=
  match tupleParts value.toList with
  | some (object, relation, subject) => .ok (.ofList object, .ofList relation, .ofList subject)
  | none => .error (tupleStructureError value)

def TupleKey.parseWithLimits (value : String) (limits : InputLimits) :
    Except DomainError TupleKey := do
  let (object, relation, subject) ← (parseTupleParts value).mapError .parse
  let object ← ObjectRef.parseWithLimits object limits
  let relation ← (RelationName.parseWithLimits relation limits).mapError .parse
  let subject ← SubjectRef.parseWithLimits subject limits
  .ok ⟨object, relation, subject⟩

def TupleKey.display (key : TupleKey) : String :=
  key.object.display ++ "#" ++ key.relation.text ++ "@" ++ key.subject.display

/-- A text that is accepted as a name of at most so many bytes. -/
structure CanonicalText (maximum : Nat) (allowed : Char → Bool) (text : String) : Prop where
  nonempty : text ≠ ""
  bounded : text.utf8ByteSize ≤ maximum
  admitted : ∀ character ∈ text.toList, allowed character

instance (maximum : Nat) (allowed : Char → Bool) (text : String) :
    Decidable (CanonicalText maximum allowed text) :=
  decidable_of_iff
    (text ≠ "" ∧ text.utf8ByteSize ≤ maximum ∧ text.toList.all allowed = true)
    ⟨fun ⟨nonempty, bounded, admitted⟩ => ⟨nonempty, bounded, all_eq_true.mp admitted⟩,
      fun canonical =>
        ⟨canonical.nonempty, canonical.bounded, all_eq_true.mpr canonical.admitted⟩⟩

def TypeName.Canonical (name : TypeName) : Prop := CanonicalText 254 isNameCharacter name.text
  deriving Decidable

def RelationName.Canonical (name : RelationName) : Prop :=
  CanonicalText 50 isNameCharacter name.text
  deriving Decidable

def ConditionName.Canonical (name : ConditionName) : Prop :=
  CanonicalText 50 isNameCharacter name.text
  deriving Decidable

def ParameterName.Canonical (name : ParameterName) : Prop :=
  CanonicalText 50 isNameCharacter name.text
  deriving Decidable

def ObjectId.Canonical (id : ObjectId) : Prop := CanonicalText 510 isObjectIdCharacter id.text
  deriving Decidable

/-- An object reference that some policy accepts. -/
structure ObjectRef.Canonical (ref : ObjectRef) : Prop where
  objectType : ref.objectType.Canonical
  objectId : ref.objectId.Canonical
  concrete : ref.objectId.text ≠ "*"
  bounded : ref.display.utf8ByteSize ≤ 256

structure UsersetRef.Canonical (ref : UsersetRef) : Prop where
  object : ref.object.Canonical
  relation : ref.relation.Canonical

def SubjectRef.Canonical : SubjectRef → Prop
  | .object ref => ref.Canonical
  | .userset ref => ref.Canonical
  | .typedWildcard objectType => objectType.Canonical

structure TupleKey.Canonical (key : TupleKey) : Prop where
  object : key.object.Canonical
  relation : key.relation.Canonical
  subject : key.subject.Canonical

theorem parseCompleteComponent_eq_ok (canonical : CanonicalText maximum allowed value) :
    parseCompleteComponent value field maximum allowed = .ok value := by
  obtain ⟨nonempty, bounded, admitted⟩ := canonical
  unfold parseCompleteComponent
  rw [if_neg, if_neg (Nat.not_lt.mpr bounded), if_pos (all_eq_true.mpr admitted)]
  rw [String.isEmpty_iff]
  exact nonempty

/-- Only canonical texts are accepted. -/
theorem canonical_of_parse
    (parsed : parseCompleteComponent value field maximum allowed = .ok text) :
    text = value ∧ CanonicalText maximum allowed text := by
  obtain ⟨nonempty, parsed⟩ := guard_eq_ok.mp parsed
  obtain ⟨bounded, parsed⟩ := guard_eq_ok.mp parsed
  obtain ⟨admitted, parsed⟩ := require_eq_ok.mp parsed
  cases parsed
  refine ⟨rfl, ?_, Nat.not_lt.mp bounded, all_eq_true.mp admitted⟩
  rwa [String.isEmpty_iff] at nonempty

theorem CanonicalText.mono {maximum' : Nat} (canonical : CanonicalText maximum allowed text)
    (wider : maximum ≤ maximum') : CanonicalText maximum' allowed text :=
  ⟨canonical.nonempty, Nat.le_trans canonical.bounded wider, canonical.admitted⟩

theorem CanonicalText.toList_ne_nil (canonical : CanonicalText maximum allowed text) :
    text.toList ≠ [] := by
  rw [Ne, String.toList_eq_nil_iff]
  exact canonical.nonempty

section RoundTrip

theorem separators_refused :
    isNameCharacter ':' = false ∧ isNameCharacter '#' = false ∧ isNameCharacter '@' = false ∧
      isObjectIdCharacter '#' = false := by decide

/-- A separator stops a run. -/
theorem takeRun_separator (canonical : CanonicalText maximum admitted text)
    (refused : admitted separator = false) (rest : List Char) :
    takeRun admitted (text.toList ++ separator :: rest) =
      some (text.toList, separator :: rest) := by
  apply takeRun_append canonical.toList_ne_nil canonical.admitted
  rintro character ⟨⟩
  exact refused

theorem takeRun_text (canonical : CanonicalText maximum admitted text) :
    takeRun admitted text.toList = some (text.toList, []) :=
  takeRun_all canonical.toList_ne_nil canonical.admitted

@[simp] theorem literal_cons (separator : Char) (rest : List Char) :
    literal separator (separator :: rest) = some rest := by
  simp [literal]

theorem ObjectRef.toList_display (ref : ObjectRef) :
    ref.display.toList = ref.objectType.text.toList ++ ':' :: ref.objectId.text.toList := by
  simp [display, String.toList_append]

theorem UsersetRef.toList_display (ref : UsersetRef) :
    ref.display.toList = ref.object.display.toList ++ '#' :: ref.relation.text.toList := by
  simp [display, String.toList_append]

theorem TupleKey.toList_display (key : TupleKey) :
    key.display.toList = key.object.display.toList ++ '#' :: (key.relation.text.toList ++
      '@' :: key.subject.display.toList) := by
  simp [display, String.toList_append]

theorem ObjectRef.size_display (ref : ObjectRef) :
    ref.display.utf8ByteSize =
      ref.objectType.text.utf8ByteSize + 1 + ref.objectId.text.utf8ByteSize := by
  simp only [display, String.utf8ByteSize_append]
  rfl

theorem TypeName.parse_text {name : TypeName} (canonical : name.Canonical) :
    parseWithLimits name.text .standard = .ok name :=
  congrArg (Except.map mk) (parseCompleteComponent_eq_ok canonical)

theorem RelationName.parse_text {name : RelationName} (canonical : name.Canonical) :
    parseWithLimits name.text .standard = .ok name :=
  congrArg (Except.map mk) (parseCompleteComponent_eq_ok canonical)

theorem ConditionName.parse_text (canonical : name.Canonical) :
    parseWithLimits name.text .standard = .ok name :=
  congrArg (Except.map mk) (parseCompleteComponent_eq_ok canonical)

theorem ParameterName.parse_text {name : ParameterName} (canonical : name.Canonical) :
    parseWithLimits name.text .standard = .ok name :=
  congrArg (Except.map mk) (parseCompleteComponent_eq_ok canonical)

theorem ObjectId.parse_text (canonical : id.Canonical) :
    parseWithLimits id.text .standard = .ok id :=
  congrArg (Except.map mk) (parseCompleteComponent_eq_ok canonical)

section

variable (canonical : ref.Canonical)

include canonical

theorem ObjectRef.isWildcard_eq_false : ref.objectId.isWildcard = false := by
  simpa [ObjectId.isWildcard] using canonical.concrete

theorem ObjectRef.new_eq_ok : new ref.objectType ref.objectId .standard = .ok ref := by
  have bounded := canonical.bounded
  rw [size_display] at bounded
  rw [new, isWildcard_eq_false canonical, if_neg Bool.false_ne_true]
  exact if_neg (Nat.not_lt.mpr bounded)

theorem objectParts_display : objectParts ref.display.toList =
      some (ref.objectType.text.toList, ref.objectId.text.toList) := by
  rw [ref.toList_display]
  simp only [objectParts, takeRun_separator canonical.objectType separators_refused.1,
    bind_eq_bind, bind_some, literal_cons, takeRun_text canonical.objectId]
  rfl

theorem ObjectRef.parse_display : parseWithLimits ref.display .standard = .ok ref := by
  simp only [parseWithLimits, parseObjectParts, objectParts_display canonical, Except.mapError,
    bind, Except.bind, String.ofList_toList, TypeName.parse_text canonical.objectType,
    ObjectId.parse_text canonical.objectId, new_eq_ok canonical]

end

theorem UsersetRef.size_display (ref : UsersetRef) :
    ref.display.utf8ByteSize =
      ref.object.display.utf8ByteSize + 1 + ref.relation.text.utf8ByteSize := by
  simp only [display, String.utf8ByteSize_append]
  rfl

theorem UsersetRef.new_eq_ok {ref : UsersetRef} (canonical : ref.Canonical) :
    new ref.object ref.relation .standard = .ok ref := by
  have object := canonical.object.bounded
  have relation := canonical.relation.bounded
  have bounded : ¬ InputLimits.standard.subjectRefBytes.get <
      ref.object.display.utf8ByteSize + 1 + ref.relation.text.utf8ByteSize := by
    rw [show InputLimits.standard.subjectRefBytes.get = 512 from rfl]
    omega
  rw [new, if_neg bounded]

/-- A canonical subject is far below the widest limit. -/
theorem SubjectRef.size_display (canonical : subject.Canonical) :
    subject.display.utf8ByteSize ≤ 307 := by
  cases subject with
  | object ref => exact Nat.le_trans canonical.bounded (by decide)
  | userset ref =>
    have object := canonical.object.bounded
    have relation := canonical.relation.bounded
    have size := ref.size_display
    simp only [display]
    omega
  | typedWildcard objectType =>
    have bounded := CanonicalText.bounded canonical
    have size : (objectType.text ++ ":*").utf8ByteSize = objectType.text.utf8ByteSize + 2 := by
      rw [String.utf8ByteSize_append]
      rfl
    simp only [display]
    omega

theorem wildcard_canonical : ObjectId.Canonical ⟨"*"⟩ := by decide

theorem subjectParts_object (canonical : ref.Canonical) : subjectParts ref.display.toList =
      some (ref.objectType.text.toList, ref.objectId.text.toList, none) := by
  rw [ref.toList_display]
  simp only [subjectParts, takeRun_separator canonical.objectType separators_refused.1,
    bind_eq_bind, bind_some, literal_cons, takeRun_text canonical.objectId]
  rfl

theorem subjectParts_userset {ref : UsersetRef} (canonical : ref.Canonical) :
    subjectParts ref.display.toList =
      some (ref.object.objectType.text.toList, ref.object.objectId.text.toList,
        some ref.relation.text.toList) := by
  have object := canonical.object
  rw [ref.toList_display, ref.object.toList_display, append_assoc, cons_append]
  simp only [subjectParts, takeRun_separator object.objectType separators_refused.1,
    bind_eq_bind, bind_some, literal_cons,
    takeRun_separator object.objectId separators_refused.2.2.2, optionalRelation,
    takeRun_text canonical.relation]
  rfl

theorem subjectParts_wildcard {objectType : TypeName} (canonical : objectType.Canonical) :
    subjectParts (SubjectRef.typedWildcard objectType).display.toList =
      some (objectType.text.toList, ['*'], none) := by
  have text : (SubjectRef.typedWildcard objectType).display.toList =
      objectType.text.toList ++ ':' :: "*".toList := by
    simp [SubjectRef.display, String.toList_append]
  rw [text]
  simp only [subjectParts, takeRun_separator canonical separators_refused.1,
    bind_eq_bind, bind_some, literal_cons, takeRun_text wildcard_canonical]
  rfl

theorem SubjectRef.parse_display (canonical : subject.Canonical) :
    parseWithLimits subject.display .standard = .ok subject := by
  have small : ¬ InputLimits.standard.subjectRefBytes.get < subject.display.utf8ByteSize := by
    have size := size_display canonical
    rw [show InputLimits.standard.subjectRefBytes.get = 512 from rfl]
    omega
  unfold parseWithLimits
  rw [if_neg small]
  cases subject with
  | object ref =>
    have ref_canonical : ref.Canonical := canonical
    simp only [display, parseSubjectParts, subjectParts_object ref_canonical, Except.mapError,
      bind, Except.bind, String.ofList_toList, map_none,
      TypeName.parse_text ref_canonical.objectType, ObjectId.parse_text ref_canonical.objectId,
      ObjectRef.isWildcard_eq_false ref_canonical, ObjectRef.new_eq_ok ref_canonical]
  | userset ref =>
    have ref_canonical : ref.Canonical := canonical
    have object := ref_canonical.object
    simp only [display, parseSubjectParts, subjectParts_userset ref_canonical, Except.mapError,
      bind, Except.bind, String.ofList_toList, map_some,
      TypeName.parse_text object.objectType, ObjectId.parse_text object.objectId,
      ObjectRef.isWildcard_eq_false object, ObjectRef.new_eq_ok object,
      RelationName.parse_text ref_canonical.relation, UsersetRef.new_eq_ok ref_canonical]
  | typedWildcard objectType =>
    have type_canonical : objectType.Canonical := canonical
    have wildcard : ObjectId.parseWithLimits (String.ofList ['*']) .standard = .ok ⟨"*"⟩ :=
      ObjectId.parse_text wildcard_canonical
    simp only [parseSubjectParts, subjectParts_wildcard type_canonical, Except.mapError, bind,
      Except.bind, String.ofList_toList, map_none, TypeName.parse_text type_canonical,
      wildcard]
    rfl

/-- No part of an object is mistaken for the separator that follows it. -/
theorem ObjectRef.display_admitted (canonical : ref.Canonical) :
    ∀ character ∈ ref.display.toList, (character != '#') = true := by
  intro character member
  rw [bne_iff_ne]
  rintro rfl
  rw [ref.toList_display, mem_append, mem_cons] at member
  obtain ⟨-, name, -, id⟩ := separators_refused
  rcases member with inside | same | inside
  · exact absurd (canonical.objectType.admitted _ inside) (by simp [name])
  · cases same
  · exact absurd (canonical.objectId.admitted _ inside) (by simp [id])

theorem SubjectRef.display_ne_nil (subject : SubjectRef) : subject.display.toList ≠ [] := by
  cases subject with
  | object ref => simp [display, ObjectRef.toList_display]
  | userset ref => simp [display, UsersetRef.toList_display]
  | typedWildcard objectType => simp [display, String.toList_append]

theorem tupleParts_display (canonical : key.Canonical) : tupleParts key.display.toList =
      some (key.object.display.toList, key.relation.text.toList, key.subject.display.toList) := by
  have object : ∀ rest, takeRun (fun character => character != '#')
      (key.object.display.toList ++ '#' :: rest) = some (key.object.display.toList,
      '#' :: rest) := by
    intro rest
    apply takeRun_append
    · simp [ObjectRef.toList_display]
    · exact ObjectRef.display_admitted canonical.object
    · rintro character ⟨⟩
      rfl
  have subject : takeRun (fun _ => true) key.subject.display.toList =
      some (key.subject.display.toList, []) :=
    takeRun_all key.subject.display_ne_nil fun _ _ => rfl
  rw [key.toList_display]
  simp only [tupleParts, object, bind_eq_bind, bind_some, literal_cons,
    takeRun_separator canonical.relation separators_refused.2.2.1, subject]
  rfl

/-- A printed key is parsed back under the widest limits. -/
theorem TupleKey.parse_display (canonical : key.Canonical) :
    parseWithLimits key.display .standard = .ok key := by
  simp only [parseWithLimits, parseTupleParts, tupleParts_display canonical, Except.mapError,
    bind, Except.bind, String.ofList_toList, ObjectRef.parse_display canonical.object,
    RelationName.parse_text canonical.relation, SubjectRef.parse_display canonical.subject]

theorem TupleKey.size_display (canonical : key.Canonical) : key.display.utf8ByteSize ≤ 615 := by
  have object := canonical.object.bounded
  have relation := canonical.relation.bounded
  have subject := SubjectRef.size_display canonical.subject
  have size : key.display.utf8ByteSize = key.object.display.utf8ByteSize + 1 +
      key.relation.text.utf8ByteSize + 1 + key.subject.display.utf8ByteSize := by
    simp only [display, String.utf8ByteSize_append]
    rfl
  omega

end RoundTrip

section Accepted

variable {value : String} {limits : InputLimits} {input rest : List Char}

/-- A run and what follows it are the text it was taken from. -/
theorem takeRun_eq_some {taken : List Char} (run : takeRun admitted input = some (taken, rest)) :
    input = taken ++ rest := by
  obtain ⟨-, run⟩ := ite_none_left_eq_some.mp run
  cases run
  exact takeWhile_append_dropWhile.symm

theorem literal_eq_some (found : literal separator input = some rest) :
    input = separator :: rest := by
  unfold literal at found
  split at found
  · cases found
  · split at found
    · rename_i same
      cases found
      rw [same]
    · cases found

theorem endOfInput_eq_some (ended : endOfInput input = some ()) : input = [] := by
  obtain ⟨empty, ended⟩ := ite_none_right_eq_some.mp ended
  exact isEmpty_iff.mp empty

/-- What a userset adds to the text of its object. -/
def relationSuffix (relation : Option (List Char)) : List Char :=
  relation.elim [] ('#' :: ·)

theorem optionalRelation_eq (input : List Char) :
    input = relationSuffix (optionalRelation input).1 ++ (optionalRelation input).2 := by
  unfold optionalRelation
  split
  · rfl
  · rename_i after found
    split
    · rfl
    · rename_i relation rest run
      rw [literal_eq_some found, takeRun_eq_some run]
      rfl

theorem objectParts_eq_some {objectType objectId : List Char}
    (parts : objectParts input = some (objectType, objectId)) :
    input = objectType ++ ':' :: objectId := by
  simp only [objectParts, bind_eq_bind, bind_eq_some_iff, Prod.exists] at parts
  obtain ⟨_, _, typeRun, _, colon, _, _, idRun, ⟨⟩, ended, same⟩ := parts
  cases same
  rw [takeRun_eq_some typeRun, literal_eq_some colon, takeRun_eq_some idRun,
    endOfInput_eq_some ended, append_nil]

theorem subjectParts_eq_some {objectType objectId : List Char} {relation : Option (List Char)}
    (parts : subjectParts input = some (objectType, objectId, relation)) :
    input = objectType ++ ':' :: (objectId ++ relationSuffix relation) := by
  simp only [subjectParts, bind_eq_bind, bind_eq_some_iff, Prod.exists] at parts
  obtain ⟨_, _, typeRun, _, colon, _, after, idRun, ⟨⟩, ended, same⟩ := parts
  cases same
  rw [takeRun_eq_some typeRun, literal_eq_some colon, takeRun_eq_some idRun]
  conv_lhs => rw [optionalRelation_eq after, endOfInput_eq_some ended, append_nil]

theorem tupleParts_eq_some {object relation subject : List Char}
    (parts : tupleParts input = some (object, relation, subject)) :
    input = object ++ '#' :: (relation ++ '@' :: subject) := by
  simp only [tupleParts, bind_eq_bind, bind_eq_some_iff, Prod.exists] at parts
  obtain ⟨_, _, objectRun, _, hash, _, _, relationRun, _, sign, _, _, subjectRun, ⟨⟩, ended,
    same⟩ := parts
  cases same
  rw [takeRun_eq_some objectRun, literal_eq_some hash, takeRun_eq_some relationRun,
    literal_eq_some sign, takeRun_eq_some subjectRun, endOfInput_eq_some ended, append_nil]

theorem component_of_parse {make : String → α} {name : α}
    (parsed : (parseCompleteComponent value field maximum allowed).map make = .ok name) :
    name = make value ∧ CanonicalText maximum allowed value := by
  obtain ⟨text, component, rfl⟩ := map_eq_ok.mp parsed
  obtain ⟨rfl, canonical⟩ := canonical_of_parse component
  exact ⟨rfl, canonical⟩

theorem TypeName.canonical_of_parse {name : TypeName}
    (parsed : parseWithLimits value limits = .ok name) : name.Canonical := by
  obtain ⟨rfl, canonical⟩ := component_of_parse parsed
  exact canonical.mono limits.typeNameBytes.bounded

theorem RelationName.canonical_of_parse {name : RelationName}
    (parsed : parseWithLimits value limits = .ok name) : name.Canonical := by
  obtain ⟨rfl, canonical⟩ := component_of_parse parsed
  exact canonical.mono limits.relationNameBytes.bounded

theorem ConditionName.canonical_of_parse (parsed : parseWithLimits value limits = .ok name) :
    name.Canonical := by
  obtain ⟨rfl, canonical⟩ := component_of_parse parsed
  exact canonical.mono limits.conditionNameBytes.bounded

theorem ParameterName.canonical_of_parse {name : ParameterName}
    (parsed : parseWithLimits value limits = .ok name) : name.Canonical := by
  obtain ⟨rfl, canonical⟩ := component_of_parse parsed
  exact canonical.mono limits.parameterNameBytes.bounded

theorem ObjectId.canonical_of_parse (parsed : parseWithLimits value limits = .ok id) :
    id.Canonical := by
  obtain ⟨rfl, canonical⟩ := component_of_parse parsed
  exact canonical.mono limits.objectIdBytes.bounded

/-- An object is made of canonical parts only within the limits. -/
theorem ObjectRef.of_new {objectType : TypeName} {objectId : ObjectId}
    (named : objectType.Canonical) (identified : objectId.Canonical)
    (made : ObjectRef.new objectType objectId limits = .ok ref) :
    ref = ⟨objectType, objectId⟩ ∧ ref.Canonical := by
  obtain ⟨concrete, made⟩ := guard_eq_ok.mp made
  obtain ⟨fits, made⟩ := guard_eq_ok.mp made
  cases made
  refine ⟨rfl, named, identified, ?_, ?_⟩
  · intro wildcard
    exact concrete (beq_iff_eq.mpr wildcard)
  · rw [ObjectRef.size_display]
    exact Nat.le_trans (Nat.not_lt.mp fits) limits.objectRefBytes.bounded

theorem parseObjectParts_eq_ok {objectType objectId : String}
    (parts : parseObjectParts value field = .ok (objectType, objectId)) :
    value.toList = objectType.toList ++ ':' :: objectId.toList := by
  unfold parseObjectParts at parts
  split at parts
  · rename_i found
    cases parts
    simpa using objectParts_eq_some found
  · cases parts

/-- Whatever the policy, an accepted object is canonical and its text is the one accepted. -/
theorem ObjectRef.of_parse (parsed : parseWithLimits value limits = .ok ref) :
    ref.Canonical ∧ ref.display = value := by
  obtain ⟨⟨typeText, idText⟩, parts, parsed⟩ := bind_eq_ok.mp parsed
  obtain ⟨objectType, named, parsed⟩ := bind_eq_ok.mp parsed
  obtain ⟨objectId, identified, made⟩ := bind_eq_ok.mp parsed
  have whole := parseObjectParts_eq_ok (mapError_eq_ok.mp parts)
  have named := mapError_eq_ok.mp named
  have identified := mapError_eq_ok.mp identified
  obtain ⟨rfl, canonical⟩ := ObjectRef.of_new (TypeName.canonical_of_parse named)
    (ObjectId.canonical_of_parse identified) (mapError_eq_ok.mp made)
  refine ⟨canonical, ?_⟩
  rw [← String.toList_inj, toList_display, whole, (component_of_parse named).1,
    (component_of_parse identified).1]

theorem UsersetRef.of_new {object : ObjectRef} {relation : RelationName} {ref : UsersetRef}
    (made : UsersetRef.new object relation limits = .ok ref) : ref = ⟨object, relation⟩ := by
  obtain ⟨-, made⟩ := guard_eq_ok.mp made
  cases made
  rfl

theorem parseSubjectParts_eq_ok {objectType objectId : String} {relation : Option String}
    (parts : parseSubjectParts value = .ok (objectType, objectId, relation)) :
    value.toList = objectType.toList ++
      ':' :: (objectId.toList ++ relationSuffix (relation.map String.toList)) := by
  unfold parseSubjectParts at parts
  split at parts
  · rename_i found
    cases parts
    simpa [Function.comp_def] using subjectParts_eq_some found
  · cases parts

theorem SubjectRef.of_parse (parsed : parseWithLimits value limits = .ok subject) :
    subject.Canonical ∧ subject.display = value := by
  obtain ⟨-, parsed⟩ := guard_eq_ok.mp parsed
  obtain ⟨⟨typeText, idText, relation⟩, parts, parsed⟩ := bind_eq_ok.mp parsed
  obtain ⟨objectType, named, parsed⟩ := bind_eq_ok.mp parsed
  obtain ⟨objectId, identified, parsed⟩ := bind_eq_ok.mp parsed
  have whole := parseSubjectParts_eq_ok (mapError_eq_ok.mp parts)
  obtain ⟨rfl, -⟩ := component_of_parse (mapError_eq_ok.mp named)
  obtain ⟨rfl, -⟩ := component_of_parse (mapError_eq_ok.mp identified)
  have typeCanonical := TypeName.canonical_of_parse (mapError_eq_ok.mp named)
  have idCanonical := ObjectId.canonical_of_parse (mapError_eq_ok.mp identified)
  rw [← String.toList_inj, whole]
  split at parsed
  · cases parsed
    refine ⟨typeCanonical, ?_⟩
    rw [show idText = "*" from beq_iff_eq.mp ‹ObjectId.isWildcard ⟨idText⟩ = true›]
    simp [display, relationSuffix, String.toList_append]
  · cases parsed
  · obtain ⟨object, made, parsed⟩ := bind_eq_ok.mp parsed
    cases parsed
    obtain ⟨rfl, canonical⟩ :=
      ObjectRef.of_new typeCanonical idCanonical (mapError_eq_ok.mp made)
    refine ⟨canonical, ?_⟩
    simp [display, ObjectRef.toList_display, relationSuffix]
  · obtain ⟨object, made, parsed⟩ := bind_eq_ok.mp parsed
    obtain ⟨relation, related, parsed⟩ := bind_eq_ok.mp parsed
    obtain ⟨userset, joined, parsed⟩ := bind_eq_ok.mp parsed
    cases parsed
    obtain ⟨rfl, canonical⟩ :=
      ObjectRef.of_new typeCanonical idCanonical (mapError_eq_ok.mp made)
    obtain rfl := UsersetRef.of_new (mapError_eq_ok.mp joined)
    have related := mapError_eq_ok.mp related
    refine ⟨⟨canonical, RelationName.canonical_of_parse related⟩, ?_⟩
    simp [display, UsersetRef.toList_display, ObjectRef.toList_display,
      (component_of_parse related).1, relationSuffix]

theorem parseTupleParts_eq_ok {object relation subject : String}
    (parts : parseTupleParts value = .ok (object, relation, subject)) :
    value.toList = object.toList ++ '#' :: (relation.toList ++ '@' :: subject.toList) := by
  unfold parseTupleParts at parts
  split at parts
  · rename_i found
    cases parts
    simpa using tupleParts_eq_some found
  · cases parts

theorem TupleKey.of_parse (parsed : parseWithLimits value limits = .ok key) :
    key.Canonical ∧ key.display = value := by
  obtain ⟨⟨_, _, _⟩, parts, parsed⟩ := bind_eq_ok.mp parsed
  obtain ⟨object, objectParsed, parsed⟩ := bind_eq_ok.mp parsed
  obtain ⟨relation, relationParsed, parsed⟩ := bind_eq_ok.mp parsed
  obtain ⟨subject, subjectParsed, parsed⟩ := bind_eq_ok.mp parsed
  cases parsed
  have whole := parseTupleParts_eq_ok (mapError_eq_ok.mp parts)
  have related := mapError_eq_ok.mp relationParsed
  obtain ⟨objectCanonical, rfl⟩ := ObjectRef.of_parse objectParsed
  obtain ⟨subjectCanonical, rfl⟩ := SubjectRef.of_parse subjectParsed
  refine ⟨⟨objectCanonical, RelationName.canonical_of_parse related, subjectCanonical⟩, ?_⟩
  rw [← String.toList_inj, toList_display, whole, (component_of_parse related).1]

end Accepted

/-- The objects a caller can make, every call under limits of its own. -/
inductive ObjectRef.Built : ObjectRef → Prop where
  | parse {value : String} {limits : InputLimits} {ref : ObjectRef}
      (parsed : parseWithLimits value limits = .ok ref) : Built ref
  | new {typeText idText : String} {typeLimits idLimits limits : InputLimits}
      {objectType : TypeName} {objectId : ObjectId} {ref : ObjectRef}
      (named : TypeName.parseWithLimits typeText typeLimits = .ok objectType)
      (identified : ObjectId.parseWithLimits idText idLimits = .ok objectId)
      (made : ObjectRef.new objectType objectId limits = .ok ref) : Built ref

/-- Subjects made by the constructors of the source. -/
inductive SubjectRef.Built : SubjectRef → Prop where
  | parse {value : String} {limits : InputLimits} {subject : SubjectRef}
      (parsed : parseWithLimits value limits = .ok subject) : Built subject
  | object {ref : ObjectRef} (built : ref.Built) : Built (.object ref)
  | userset {text : String} {nameLimits limits : InputLimits} {object : ObjectRef}
      {relation : RelationName} {ref : UsersetRef} (built : object.Built)
      (named : RelationName.parseWithLimits text nameLimits = .ok relation)
      (made : UsersetRef.new object relation limits = .ok ref) : Built (.userset ref)
  | typedWildcard {text : String} {limits : InputLimits} {objectType : TypeName}
      (named : TypeName.parseWithLimits text limits = .ok objectType) :
      Built (.typedWildcard objectType)

/-- Keys made by the constructors of the source. -/
inductive TupleKey.Built : TupleKey → Prop where
  | parse {value : String} {limits : InputLimits} {key : TupleKey}
      (parsed : parseWithLimits value limits = .ok key) : Built key
  | new {text : String} {limits : InputLimits} {object : ObjectRef} {relation : RelationName}
      {subject : SubjectRef} (built : object.Built)
      (named : RelationName.parseWithLimits text limits = .ok relation)
      (subjectBuilt : subject.Built) : Built ⟨object, relation, subject⟩

theorem ObjectRef.Built.canonical (built : ref.Built) : ref.Canonical := by
  cases built with
  | parse parsed => exact (ObjectRef.of_parse parsed).1
  | new named identified made =>
    exact (ObjectRef.of_new (TypeName.canonical_of_parse named)
      (ObjectId.canonical_of_parse identified) made).2

theorem SubjectRef.Built.canonical (built : subject.Built) : subject.Canonical := by
  cases built with
  | parse parsed => exact (SubjectRef.of_parse parsed).1
  | object built => exact built.canonical
  | userset built named made =>
    obtain rfl := UsersetRef.of_new made
    exact ⟨built.canonical, RelationName.canonical_of_parse named⟩
  | typedWildcard named => exact TypeName.canonical_of_parse named

theorem TupleKey.Built.canonical (built : key.Built) : key.Canonical := by
  cases built with
  | parse parsed => exact (TupleKey.of_parse parsed).1
  | new built named subjectBuilt =>
    exact ⟨built.canonical, RelationName.canonical_of_parse named, subjectBuilt.canonical⟩

/-- Parsing and printing undo each other, and no two values print alike. -/
structure Inverse {α : Type} (built : α → Prop) (parse : String → Except DomainError α)
    (display : α → String) : Prop where
  parse_display : ∀ value, built value → parse (display value) = .ok value
  display_parse : ∀ text value, parse text = .ok value → display value = text
  unambiguous : ∀ value value', built value → built value' → display value = display value' →
    value = value'

/-- Values that are read back from their texts are told apart by them. -/
theorem eq_of_display (parse : String → Except DomainError α) {display : α → String}
    {value value' : α} (undone : parse (display value) = .ok value)
    (undone' : parse (display value') = .ok value') (same : display value = display value') :
    value = value' := by
  rw [same, undone'] at undone
  exact (Except.ok.inj undone).symm

theorem Inverse.of_undone {built : α → Prop} {parse : String → Except DomainError α}
    {display : α → String} (undone : ∀ value, built value → parse (display value) = .ok value)
    (printed : ∀ text value, parse text = .ok value → display value = text) :
    Inverse built parse display :=
  ⟨undone, printed, fun value value' held held' =>
    eq_of_display parse (undone value held) (undone value' held')⟩

/-- References have one text and one reading under the default limits. Subjects of different
kinds print differently, so that a wildcard or a userset is not taken for an object. -/
theorem references_inverse :
    Inverse ObjectRef.Built (ObjectRef.parseWithLimits · .standard) ObjectRef.display ∧
    Inverse SubjectRef.Built (SubjectRef.parseWithLimits · .standard) SubjectRef.display ∧
    Inverse TupleKey.Built (TupleKey.parseWithLimits · .standard) TupleKey.display := by
  refine ⟨.of_undone ?_ ?_, .of_undone ?_ ?_, .of_undone ?_ ?_⟩
  · exact fun _ built => ObjectRef.parse_display built.canonical
  · exact fun _ _ parsed => (ObjectRef.of_parse parsed).2
  · exact fun _ built => SubjectRef.parse_display built.canonical
  · exact fun _ _ parsed => (SubjectRef.of_parse parsed).2
  · exact fun _ built => TupleKey.parse_display built.canonical
  · exact fun _ _ parsed => (TupleKey.of_parse parsed).2

end OpenFga
