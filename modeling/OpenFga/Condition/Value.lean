import OpenFga.Domain.Order
import OpenFga.Lib.Counted
import OpenFga.Lib.Utf8
import OpenFga.Model.Condition
import Mathlib.Data.Finset.Card
import Mathlib.Data.List.Sort

/-!
# Values of condition programs

The values a condition program computes with, their conversion from contexts, and the
operations on them. A double is kept by its bits. What the standard library and the time
library do with doubles and texts is collected in `Primitives`.

Traversals of the source poll the cancellation signal on their way. Such a traversal is a
`Counted` computation here, which counts the polls; the explicit stacks of the source visit
the items of a collection from the last to the first, and so does the recursion.
-/

namespace OpenFga.Condition

open Utf8

def typeMismatch : EvaluationError := .new .typeMismatch

def arithmetic : EvaluationError := .new .arithmetic

def invalidValue : EvaluationError := .new .invalidValue

def invalidState : EvaluationError := .new .invalidCompiledState

def costExceeded : EvaluationError := .new .costExceeded

def valueLimitExceeded : EvaluationError := .new .valueLimitExceeded

def cancelled : EvaluationError := .new .cancelled

def invalidParameter : EvaluationError := .new .invalidParameter

inductive IpAddr where
  | v4 (bits : BitVec 32)
  | v6 (bits : BitVec 128)
  deriving DecidableEq

/-- A value of a condition program. Durations and timestamps count nanoseconds. -/
inductive RuntimeValue where
  | unknown (parameters : Finset ParameterName)
  | null
  | bool (value : Bool)
  | int (value : Int64)
  | uint (value : UInt64)
  | double (bits : UInt64)
  | string (value : String)
  | bytes (value : List UInt8)
  | duration (nanoseconds : Int)
  | timestamp (nanoseconds : Int)
  | ipAddress (address : IpAddr)
  | list (values : List RuntimeValue)
  | map (entries : List (String × RuntimeValue))

/-- The declared type of a parameter. -/
inductive ParameterType where
  | any
  | bool
  | string
  | int
  | uint
  | double
  | bytes
  | duration
  | timestamp
  | ipAddress
  | list (element : ParameterType)
  | map (value : ParameterType)
  deriving DecidableEq

def isFinite (bits : UInt64) : Bool := decide ((bits >>> 52) &&& 0x7ff ≠ 0x7ff)

/-- Both zeros are equal to zero. -/
def isZero (bits : UInt64) : Bool := decide (bits &&& 0x7fffffffffffffff = 0)

def isSignNegative (bits : UInt64) : Bool := decide (bits >>> 63 = 1)

def negate (bits : UInt64) : UInt64 := bits ^^^ 0x8000000000000000

/-- The operations on doubles and texts that the program takes from its libraries. -/
structure Primitives where
  addDouble : UInt64 → UInt64 → UInt64
  subDouble : UInt64 → UInt64 → UInt64
  mulDouble : UInt64 → UInt64 → UInt64
  divDouble : UInt64 → UInt64 → UInt64
  remDouble : UInt64 → UInt64 → UInt64
  /-- The order of doubles; a NaN is not comparable. -/
  compareDouble : UInt64 → UInt64 → Option Ordering
  intToDouble : Int64 → UInt64
  uintToDouble : UInt64 → UInt64
  isIntegral : UInt64 → Bool
  showInt : Int64 → String
  showUint : UInt64 → String
  showDouble : UInt64 → String
  parseInt : String → Option Int64
  parseUint : String → Option UInt64
  parseDouble : String → Option UInt64
  parseByte : String → Option UInt8
  parseSignedDuration : String → Option Int
  parseInstant : String → Option Int
  parseIp : String → Option IpAddr
  comparable_of_finite : ∀ left right, isFinite left → isFinite right →
    (compareDouble left right).isSome

variable (primitives : Primitives)

/-! ## Conversion of parameters -/

def exactDoubleToInt (bits : UInt64) : Option Int64 :=
  if !isFinite bits || !primitives.isIntegral bits then none
  else primitives.parseInt (primitives.showDouble bits)

def exactDoubleToUint (bits : UInt64) : Option UInt64 :=
  if !isFinite bits || !primitives.isIntegral bits || isSignNegative bits then none
  else primitives.parseUint (primitives.showDouble bits)

def parseIntParameter (text : String) : Option Int64 :=
  (primitives.parseInt text).or ((primitives.parseDouble text).bind (exactDoubleToInt primitives))

def parseUintParameter (text : String) : Option UInt64 :=
  (primitives.parseUint text).or
    ((primitives.parseDouble text).bind (exactDoubleToUint primitives))

def convertInt : ContextValue → Except EvaluationError Int64
  | .int value => .ok value
  | .double bits => orError (exactDoubleToInt primitives bits) invalidParameter
  | .string text => orError (parseIntParameter primitives text) invalidParameter
  | _ => .error invalidParameter

def convertUint : ContextValue → Except EvaluationError UInt64
  | .uint value => .ok value
  | .double bits => orError (exactDoubleToUint primitives bits) invalidParameter
  | .string text => orError (parseUintParameter primitives text) invalidParameter
  | _ => .error invalidParameter

/-- A double that has to be finite. -/
def requireFinite (failure : EvaluationError) (bits : UInt64) : Except EvaluationError UInt64 :=
  if isFinite bits then .ok bits else .error failure

def convertDouble : ContextValue → Except EvaluationError UInt64
  | .double bits => requireFinite invalidParameter bits
  | .string text => do
      let bits ← orError (primitives.parseDouble text) invalidParameter
      requireFinite invalidParameter bits
  | _ => .error invalidParameter

def isDurationCharacter (character : Char) : Bool :=
  character.isDigit || character ∈ ['+', '-', '.', 'h', 'm', 's', 'u', 'n', 'µ', 'μ']

def parseDuration (text : String) : Except EvaluationError Int :=
  if text.isEmpty || !text.toList.all isDurationCharacter then .error invalidValue
  else
    let unified := text.map fun character => if character = 'μ' then 'µ' else character
    orError (primitives.parseSignedDuration unified) invalidValue

def isDigitByte (byte : UInt8) : Bool := decide (48 ≤ byte ∧ byte ≤ 57)

/-- The bytes at some positions, if there are as many. -/
def slice (bytes : List UInt8) (start stop : Nat) : Option (List UInt8) :=
  if stop ≤ bytes.length then some ((bytes.take stop).drop start) else none

def digitsAt (bytes : List UInt8) (start stop : Nat) : Bool :=
  (slice bytes start stop).any (·.all isDigitByte)

def validTimezone (zone : List UInt8) : Bool :=
  zone == bytesOf "Z" ||
    (zone.length == 6 && zone.head?.any (· ∈ bytesOf "+-") && digitsAt zone 1 3 &&
      zone[3]? == some 58 && digitsAt zone 4 6)

def validFraction : List UInt8 → Bool
  | [] => true
  | point :: digits => point == 46 && !digits.isEmpty && digits.all isDigitByte

def validRfc3339Suffix (suffix : List UInt8) : Bool :=
  suffix == bytesOf "Z" ||
    match suffix.findIdx? (· ∈ bytesOf "Z+-") with
    | none => false
    | some start => validFraction (suffix.take start) && validTimezone (suffix.drop start)

def hasRfc3339Shape (text : String) : Bool :=
  let bytes := bytesOf text
  digitsAt bytes 0 4 && bytes[4]? == some 45 && digitsAt bytes 5 7 && bytes[7]? == some 45 &&
    digitsAt bytes 8 10 && bytes[10]? == some 84 && digitsAt bytes 11 13 &&
    bytes[13]? == some 58 && digitsAt bytes 14 16 && bytes[16]? == some 58 &&
    digitsAt bytes 17 19 && slice bytes 17 19 != some (bytesOf "60") &&
    validRfc3339Suffix (bytes.drop 19)

def parseTimestamp (text : String) : Except EvaluationError Int :=
  if hasRfc3339Shape text then orError (primitives.parseInstant text) invalidValue
  else .error invalidValue

/-- An address of the fourth version that is written as one of the sixth is read as itself. -/
def normalizeIp : IpAddr → IpAddr
  | .v4 bits => .v4 bits
  | .v6 bits => if bits >>> 32 = 0xffff then .v4 (bits.setWidth 32) else .v6 bits

def parseIpAddress (text : String) : Except EvaluationError IpAddr :=
  orError ((primitives.parseIp text).map normalizeIp) invalidValue

def sortEntries (entries : List (String × RuntimeValue)) : List (String × RuntimeValue) :=
  entries.insertionSort fun first second => first.1 ≤ second.1

mutual

def convertAny : ContextValue → Except EvaluationError RuntimeValue
  | .null => .ok .null
  | .bool value => .ok (.bool value)
  | .int value => .ok (.int value)
  | .uint value => .ok (.uint value)
  | .double bits => .ok (.double bits)
  | .string text => .ok (.string text)
  | .bytes value => .ok (.bytes value)
  | .list values => (convertItems values).map .list
  | .map entries => (convertEntries entries).map fun entries => .map (sortEntries entries)

def convertItems : List ContextValue → Except EvaluationError (List RuntimeValue)
  | [] => .ok []
  | value :: values => do
      let value ← convertAny value
      let values ← convertItems values
      .ok (value :: values)

def convertEntries :
    List (String × ContextValue) → Except EvaluationError (List (String × RuntimeValue))
  | [] => .ok []
  | (key, value) :: entries => do
      let value ← convertAny value
      let entries ← convertEntries entries
      .ok ((key, value) :: entries)

end

def convertKind : ParameterType → ContextValue → Except EvaluationError RuntimeValue
  | .any, value => convertAny value
  | .bool, .bool value => .ok (.bool value)
  | .string, .string text => .ok (.string text)
  | .int, value => (convertInt primitives value).map .int
  | .uint, value => (convertUint primitives value).map .uint
  | .double, value => (convertDouble primitives value).map .double
  | .bytes, .bytes value => .ok (.bytes value)
  | .duration, .string text => (parseDuration primitives text).map .duration
  | .timestamp, .string text => (parseTimestamp primitives text).map .timestamp
  | .ipAddress, .string text => (parseIpAddress primitives text).map .ipAddress
  | .list element, .list values => (values.mapM (convertKind element)).map .list
  | .map type, .map entries => do
      let converted ← entries.mapM fun entry => (convertKind type entry.2).map (entry.1, ·)
      .ok (.map (sortEntries converted))
  | _, _ => .error invalidParameter

def convertParameter (value : ContextValue) (type : ParameterType) :
    Except EvaluationError RuntimeValue :=
  (convertKind primitives type value).mapError fun _ => invalidParameter

/-! ## Comparison -/

def compareIntUint (left : Int64) (right : UInt64) : Ordering :=
  if left < 0 then .lt else compare left.toUInt64.toNat right.toNat

def compareValues : RuntimeValue → RuntimeValue → Option Ordering
  | .int left, .int right => some (compare left.toInt right.toInt)
  | .int left, .uint right => some (compareIntUint left right)
  | .int left, .double right => primitives.compareDouble (primitives.intToDouble left) right
  | .uint left, .int right => some (compareIntUint right left).swap
  | .uint left, .uint right => some (compare left.toNat right.toNat)
  | .uint left, .double right => primitives.compareDouble (primitives.uintToDouble left) right
  | .double left, .int right =>
      (primitives.compareDouble (primitives.intToDouble right) left).map Ordering.swap
  | .double left, .uint right =>
      (primitives.compareDouble (primitives.uintToDouble right) left).map Ordering.swap
  | .double left, .double right => primitives.compareDouble left right
  | .string left, .string right => some (compare left right)
  | .bytes left, .bytes right =>
      some (compareOfLessAndEq (left.map UInt8.toNat) (right.map UInt8.toNat))
  | .duration left, .duration right => some (compare left right)
  | .timestamp left, .timestamp right => some (compare left right)
  | _, _ => none

def RuntimeValue.isNumber : RuntimeValue → Bool
  | .int _ | .uint _ | .double _ => true
  | _ => false

def scalarEqual : RuntimeValue → RuntimeValue → Bool
  | .null, .null => true
  | .bool left, .bool right => left == right
  | .int left, .int right => left == right
  | .uint left, .uint right => left == right
  | .double left, .double right => primitives.compareDouble left right == some .eq
  | .string left, .string right => left == right
  | .bytes left, .bytes right => left == right
  | .duration left, .duration right => left == right
  | .timestamp left, .timestamp right => left == right
  | .ipAddress left, .ipAddress right => left == right
  | left, right =>
      left.isNumber && right.isNumber && compareValues primitives left right == some .eq

/-- A poll of the cancellation signal. -/
def poll : Counted EvaluationError Unit := .tick 1

/-- The keys of two maps, compared in their order up to the first difference. -/
def keysEqual : List (String × RuntimeValue) → List (String × RuntimeValue) →
    Counted EvaluationError Bool
  | (left, _) :: lefts, (right, _) :: rights => do
      poll
      if left ≠ right then pure false else keysEqual lefts rights
  | _, _ => pure true

mutual

def valuesEqual : RuntimeValue → RuntimeValue → Counted EvaluationError Bool
  | .list left, .list right => do
      if left.length ≠ right.length then pure false
      else do
        Counted.tick left.length
        itemsEqual left right
  | .map left, .map right => do
      if left.length ≠ right.length then pure false
      else if ← keysEqual left right then entriesEqual left right
      else pure false
  | left, right => pure (scalarEqual primitives left right)

def itemsEqual : List RuntimeValue → List RuntimeValue → Counted EvaluationError Bool
  | left :: lefts, right :: rights => do
      if ← itemsEqual lefts rights then valuesEqual left right else pure false
  | _, _ => pure true

def entriesEqual : List (String × RuntimeValue) → List (String × RuntimeValue) →
    Counted EvaluationError Bool
  | (_, left) :: lefts, (_, right) :: rights => do
      if ← entriesEqual lefts rights then valuesEqual left right else pure false
  | _, _ => pure true

end

def ordered (left right : RuntimeValue) (accepted : Ordering → Bool) :
    Except EvaluationError RuntimeValue :=
  orError ((compareValues primitives left right).map fun order => .bool (accepted order))
    typeMismatch

/-! ## Arithmetic -/

@[irreducible] def toInt64 (value : Int) : Option Int64 :=
  if -2 ^ 63 ≤ value ∧ value < 2 ^ 63 then some (Int64.ofInt value) else none

@[irreducible] def toUint64 (value : Int) : Option UInt64 :=
  if 0 ≤ value ∧ value < 2 ^ 64 then some (UInt64.ofNat value.toNat) else none

def finite (bits : UInt64) : Except EvaluationError RuntimeValue :=
  (requireFinite arithmetic bits).map .double

def intResult (value : Option Int64) : Except EvaluationError RuntimeValue :=
  (orError value arithmetic).map .int

def uintResult (value : Option UInt64) : Except EvaluationError RuntimeValue :=
  (orError value arithmetic).map .uint

/-- An operation on two numbers of one kind. -/
def numeric (ints : Int64 → Int64 → Option Int64) (uints : UInt64 → UInt64 → Option UInt64)
    (doubles : UInt64 → UInt64 → Except EvaluationError RuntimeValue) :
    RuntimeValue → RuntimeValue → Except EvaluationError RuntimeValue
  | .int left, .int right => intResult (ints left right)
  | .uint left, .uint right => uintResult (uints left right)
  | .double left, .double right => doubles left right
  | _, _ => .error typeMismatch

def subtract : RuntimeValue → RuntimeValue → Except EvaluationError RuntimeValue :=
  numeric (fun left right => toInt64 (left.toInt - right.toInt))
    (fun left right => toUint64 (left.toNat - right.toNat : Int))
    (fun left right => finite (primitives.subDouble left right))

def multiply : RuntimeValue → RuntimeValue → Except EvaluationError RuntimeValue :=
  numeric (fun left right => toInt64 (left.toInt * right.toInt))
    (fun left right => toUint64 (left.toNat * right.toNat : Int))
    (fun left right => finite (primitives.mulDouble left right))

def divide : RuntimeValue → RuntimeValue → Except EvaluationError RuntimeValue :=
  numeric (fun left right => if right = 0 then none else toInt64 (left.toInt.tdiv right.toInt))
    (fun left right => if right = 0 then none else some (left / right))
    (fun left right =>
      if isZero right then .error arithmetic else finite (primitives.divDouble left right))

/-- The remainder of the least integer by minus one overflows. -/
def modulo : RuntimeValue → RuntimeValue → Except EvaluationError RuntimeValue :=
  numeric (fun left right => if right = 0 ∨ (left = Int64.minValue ∧ right = -1) then none
      else toInt64 (left.toInt.tmod right.toInt))
    (fun left right => if right = 0 then none else some (left % right))
    (fun left right =>
      if isZero right then .error arithmetic else finite (primitives.remDouble left right))

/-! ## Functions -/

def parseCidrLength (text : String) : Except EvaluationError UInt8 :=
  orError (primitives.parseByte text) invalidValue

/-- Whether the leading bits of two addresses agree. -/
def sameNetwork {width : Nat} (address network : BitVec width) (length : Nat) :
    Except EvaluationError Bool :=
  if width < length then .error invalidValue
  else
    let mask := if length = 0 then 0 else BitVec.allOnes width <<< (width - length)
    .ok (address &&& mask == network &&& mask)

def ipInCidr (address : IpAddr) (cidr : String) : Except EvaluationError Bool := do
  let characters := cidr.toList
  if '/' ∉ characters then .error invalidValue
  else
    let network := String.ofList (characters.takeWhile (· ≠ '/'))
    let length := String.ofList ((characters.dropWhile (· ≠ '/')).drop 1)
    let network ← parseIpAddress primitives network
    let length ← parseCidrLength primitives length
    match normalizeIp address, network with
    | .v4 address, .v4 network => sameNetwork address network length.toNat
    | .v6 address, .v6 network => sameNetwork address network length.toNat
    | _, _ => .error invalidValue

def lengthOf : RuntimeValue → Except EvaluationError Nat
  | .string text => .ok text.length
  | .bytes value => .ok value.length
  | .list values => .ok values.length
  | .map entries => .ok entries.length
  | _ => .error typeMismatch

def size (value : RuntimeValue) : Except EvaluationError RuntimeValue := do
  let length ← lengthOf value
  intResult (toInt64 length)

def castInt : RuntimeValue → Except EvaluationError RuntimeValue
  | .int value => .ok (.int value)
  | .uint value => (orError (toInt64 value.toNat) invalidValue).map .int
  | .double bits => (orError (exactDoubleToInt primitives bits) invalidValue).map .int
  | .string text => (orError (primitives.parseInt text) invalidValue).map .int
  | _ => .error typeMismatch

def castUint : RuntimeValue → Except EvaluationError RuntimeValue
  | .uint value => .ok (.uint value)
  | .int value => (orError (toUint64 value.toInt) invalidValue).map .uint
  | .double bits => (orError (exactDoubleToUint primitives bits) invalidValue).map .uint
  | .string text => (orError (primitives.parseUint text) invalidValue).map .uint
  | _ => .error typeMismatch

/-- The double a value stands for, which may be too large. -/
def doubleOf : RuntimeValue → Except EvaluationError UInt64
  | .double bits => .ok bits
  | .int value => orError (primitives.parseDouble (primitives.showInt value)) invalidValue
  | .uint value => orError (primitives.parseDouble (primitives.showUint value)) invalidValue
  | .string text => orError (primitives.parseDouble text) invalidValue
  | _ => .error typeMismatch

def castDouble (value : RuntimeValue) : Except EvaluationError RuntimeValue := do
  let bits ← doubleOf primitives value
  finite bits

def castString : RuntimeValue → Except EvaluationError RuntimeValue
  | .string text => .ok (.string text)
  | .int value => .ok (.string (primitives.showInt value))
  | .uint value => .ok (.string (primitives.showUint value))
  | .double bits => .ok (.string (primitives.showDouble bits))
  | .bool value => .ok (.string (if value then "true" else "false"))
  | .bytes value => (orError (textOf value) invalidValue).map .string
  | _ => .error typeMismatch

/-- The parameters that keep a value from being known. -/
def RuntimeValue.unknowns : RuntimeValue → Finset ParameterName
  | .unknown parameters => parameters
  | _ => ∅

def RuntimeValue.isUnknown : RuntimeValue → Bool
  | .unknown _ => true
  | _ => false

/-- The union of the unknown parameters of some values. -/
def unknownsOf (values : List RuntimeValue) : Finset ParameterName :=
  values.foldl (fun unknown value => unknown ∪ value.unknowns) ∅

def collectTopLevelUnknowns (values : List RuntimeValue) : Option (Finset ParameterName) :=
  if unknownsOf values = ∅ then none else some (unknownsOf values)

def mergeUnknown (left right : RuntimeValue) : Option (Finset ParameterName) :=
  collectTopLevelUnknowns [left, right]

def runtimeSize : RuntimeValue → Nat
  | .string text => text.length
  | .bytes value => value.length
  | .list values => values.length
  | .map entries => entries.length
  | _ => 1

def traversalCost (size : Nat) : Nat := (size + 9) / 10

end OpenFga.Condition
