import Mathlib.Data.String.Basic
import OpenFga.Domain.Grammar

/-!
# Identifiers of 128 bits

Stores, models and changes are identified by numbers of 128 bits, printed with 26 digits in
base 32. The alphabet leaves out letters that are easily confused. A text is accepted only
if it is the one that printing gives back.
-/

namespace OpenFga

open List

namespace Ulid

def alphabet : List Char := "0123456789ABCDEFGHJKMNPQRSTVWXYZ".toList

/-- The digits of a number, the most significant first. -/
def digits : Nat → Nat → List Nat
  | 0, _ => []
  | width + 1, value => digits width (value / 32) ++ [value % 32]

def digitText (digit : Nat) : Char := alphabet.getD digit '0'

def text (value : Nat) : String := String.ofList ((digits 26 value).map digitText)

/-- The value of a digit; small letters are accepted. -/
def digitValue (character : Char) : Option Nat := alphabet.idxOf? character.toUpper

def decode (characters : List Char) : Option Nat :=
  characters.foldlM (fun value character => (digitValue character).map (value * 32 + ·)) 0

/-- The number of a timestamp and a random part, each within its bits, as the library of the
identifiers joins them. -/
def fromParts (timestamp random : Nat) : Nat := timestamp % 2 ^ 48 * 2 ^ 80 + random % 2 ^ 80

theorem fromParts_lt (timestamp random : Nat) : fromParts timestamp random < 2 ^ 128 := by
  unfold fromParts
  omega

/-- The parts of a number that are within their bits are the given ones. -/
theorem fromParts_eq {timestamp random : Nat} (time : timestamp ≤ 2 ^ 48 - 1)
    (part : random < 2 ^ 80) : fromParts timestamp random = timestamp * 2 ^ 80 + random := by
  rw [fromParts, Nat.mod_eq_of_lt (by omega), Nat.mod_eq_of_lt part]

/-- The number of a text that printing gives back. -/
def parse (field value : String) : Except ParseError {number : Nat // number < 2 ^ 128} :=
  if value.utf8ByteSize ≠ 26 then
    .error ⟨field, min value.utf8ByteSize 26,
      if value.isEmpty then .empty else .invalidLength⟩
  else
    match decode value.toList with
    | none => .error ⟨field, 0, .invalidCharacter⟩
    | some number =>
        -- more than 128 bits are printed as another number
        if printed : number < 2 ^ 128 ∧ text number = value then .ok ⟨number, printed.1⟩
        else .error ⟨field, 0, .nonCanonical⟩

theorem digits_lt (width value : Nat) : ∀ digit ∈ digits width value, digit < 32 := by
  induction width generalizing value with
  | zero => exact fun _ member => (by cases member)
  | succ width ih =>
    intro digit member
    rcases mem_append.mp member with front | last
    · exact ih (value / 32) digit front
    · rw [mem_singleton.mp last]
      exact Nat.mod_lt _ (by decide)

theorem digits_length (width value : Nat) : (digits width value).length = width := by
  induction width generalizing value with
  | zero => rfl
  | succ width ih => rw [digits, length_append, ih, length_singleton]

theorem digitValue_digitText {digit : Nat} (bounded : digit < 32) :
    digitValue (digitText digit) = some digit := by
  have all : ∀ digit : Fin 32, digitValue (digitText digit) = some digit.val := by decide
  exact all ⟨digit, bounded⟩

theorem digitText_size {digit : Nat} (bounded : digit < 32) : (digitText digit).utf8Size = 1 := by
  have all : ∀ digit : Fin 32, (digitText digit).utf8Size = 1 := by decide
  exact all ⟨digit, bounded⟩

/-- Decoding the printed digits gives back as much of the number as they can hold. -/
theorem decode_digits (width value : Nat) :
    decode ((digits width value).map digitText) = some (value % 32 ^ width) := by
  induction width generalizing value with
  | zero => simp [digits, decode, Nat.mod_one]
  | succ width ih =>
    have last : digitValue (digitText (value % 32)) = some (value % 32) :=
      digitValue_digitText (Nat.mod_lt _ (by decide))
    have split : value % 32 ^ (width + 1) = value / 32 % 32 ^ width * 32 + value % 32 := by
      rw [Nat.pow_succ', Nat.mod_mul, Nat.add_comm, Nat.mul_comm]
    unfold decode at ih ⊢
    rw [digits, map_append, foldlM_append, ih, split]
    simp only [Option.bind_eq_bind, Option.bind_some, map_cons, map_nil,
      foldlM_cons, foldlM_nil, last, Option.map_some]
    rfl

theorem size_text (value : Nat) : (text value).utf8ByteSize = 26 := by
  have size : ∀ list : List Nat, (∀ digit ∈ list, digit < 32) →
      String.utf8Len (list.map digitText) = list.length := by
    intro list small
    induction list with
    | nil => rfl
    | cons digit list ih =>
      rw [map_cons, String.utf8Len_cons, digitText_size (small digit mem_cons_self),
        ih fun digit member => small digit (mem_cons_of_mem _ member), length_cons]
  rw [text, String.utf8ByteSize_ofList, size _ (digits_lt 26 value), digits_length]

/-- A printed number is accepted. -/
theorem parse_text (field : String) {value : Nat} (bounded : value < 2 ^ 128) :
    parse field (text value) = .ok ⟨value, bounded⟩ := by
  have decoded : decode (text value).toList = some value := by
    rw [text, String.toList_ofList, decode_digits, Nat.mod_eq_of_lt]
    exact Nat.lt_of_lt_of_le bounded (by decide)
  unfold parse
  rw [if_neg (by rw [size_text]; decide), decoded]
  exact dif_pos ⟨bounded, rfl⟩

end Ulid

end OpenFga
