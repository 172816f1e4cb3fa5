import Mathlib.Data.String.Basic
import OpenFga.Lib.OrderedCode

/-!
# The order of UTF-8 encoded texts

The bytes of two characters are compared as the characters are: the first byte grows with
the number of bytes, and bytes of equal number are the digits of the character, the most
significant first. Texts are therefore compared by their bytes as by their characters, also
when each is closed by the zero byte, as long as the zero character is in none of them.
-/

namespace OpenFga.Utf8

open OrderedCode List

instance byteOrder : LinearOrder UInt8 where
  le := (· ≤ ·)
  lt := (· < ·)
  le_refl := UInt8.le_refl
  le_trans _ _ _ := UInt8.le_trans
  le_antisymm _ _ := UInt8.le_antisymm
  le_total := UInt8.le_total
  lt_iff_le_not_ge _ _ := by
    simp only [UInt8.lt_iff_toNat_lt, UInt8.le_iff_toNat_le]
    omega
  toDecidableLE := inferInstance
  toDecidableLT := inferInstance
  toDecidableEq := inferInstance

instance lawfulByte : LawfulBEq UInt8 := inferInstance

theorem byte_lt {m n : Nat} (below : m < n) (small : n < 256) : UInt8.ofNat m < UInt8.ofNat n := by
  rw [UInt8.lt_iff_toNat_lt, UInt8.toNat_ofNat', UInt8.toNat_ofNat']
  omega

/-- A first byte that carries the leading bits, and as many digits of six bits. -/
def digits (lead : Nat → UInt8) : Nat → Nat → List UInt8
  | 0, n => [lead n]
  | width + 1, n => digits lead width (n / 64) ++ [.ofNat (n % 64 + 128)]

/-- The bytes of a scalar value. -/
def scalar (n : Nat) : List UInt8 :=
  if n ≤ 0x7f then digits (fun k => .ofNat k) 0 n
  else if n ≤ 0x7ff then digits (fun k => .ofNat (k % 0x20 + 0xc0)) 1 n
  else if n ≤ 0xffff then digits (fun k => .ofNat (k % 0x10 + 0xe0)) 2 n
  else digits (fun k => .ofNat (k % 0x08 + 0xf0)) 3 n

theorem utf8EncodeChar_eq (character : Char) :
    String.utf8EncodeChar character = scalar character.toNat := by
  unfold String.utf8EncodeChar scalar
  simp only [digits, Nat.div_div_eq_div_mul, cons_append, nil_append]
  rfl

section Scalars

variable {lead : Nat → UInt8} {m n : Nat}

/-- Equally many digits are compared as the numbers, if the leading bits are. -/
theorem digits_apart (bound : Nat) (grows : ∀ j k, j < k → k < bound → lead j < lead k)
    (width : Nat) (below : m < n) (bounded : n < bound * 64 ^ width) :
    Apart (digits lead width m) (digits lead width n) := by
  induction width generalizing m n with
  | zero => exact .head (grows m n below (by rwa [Nat.pow_zero, Nat.mul_one] at bounded)) [] []
  | succ width ih =>
    rcases Nat.lt_or_eq_of_le (Nat.div_le_div_right (c := 64) below.le) with smaller | equal
    · refine (ih smaller (Nat.div_lt_of_lt_mul ?_)).append _ _
      rwa [Nat.pow_succ, ← Nat.mul_assoc, Nat.mul_comm] at bounded
    · rw [digits, digits, equal]
      exact Apart.prepend (.head (byte_lt (by omega) (by omega)) [] []) _

theorem digits_head (lead : Nat → UInt8) (width n : Nat) :
    ∃ rest, digits lead width n = lead (n / 64 ^ width) :: rest := by
  induction width generalizing n with
  | zero => exact ⟨[], by rw [digits, Nat.pow_zero, Nat.div_one]⟩
  | succ width ih =>
    obtain ⟨rest, head⟩ := ih (n / 64)
    refine ⟨rest ++ [.ofNat (n % 64 + 128)], ?_⟩
    rw [digits, head, Nat.div_div_eq_div_mul, Nat.pow_succ', cons_append]

theorem digits_apart_of_head {lead' : Nat → UInt8} {width width' : Nat}
    (below : lead (m / 64 ^ width) < lead' (n / 64 ^ width')) :
    Apart (digits lead width m) (digits lead' width' n) := by
  obtain ⟨rest, head⟩ := digits_head lead width m
  obtain ⟨rest', head'⟩ := digits_head lead' width' n
  rw [head, head']
  exact .head below rest rest'

/-- A smaller scalar value has as many bytes and smaller digits, or fewer bytes and a smaller
first one. -/
theorem scalar_apart (below : m < n) (bounded : n ≤ 0x10ffff) : Apart (scalar m) (scalar n) := by
  unfold scalar
  by_cases one : n ≤ 0x7f
  · rw [if_pos one, if_pos (by omega)]
    exact digits_apart 0x80 (fun _ _ below _ => byte_lt below (by omega)) 0 below
      (by omega)
  rw [if_neg one]
  by_cases first : m ≤ 0x7f
  · rw [if_pos first]
    split_ifs
    all_goals exact digits_apart_of_head (byte_lt (by omega) (by omega))
  rw [if_neg first]
  by_cases two : n ≤ 0x7ff
  · rw [if_pos two, if_pos (by omega)]
    exact digits_apart 0x20 (fun _ _ below _ => byte_lt (by omega) (by omega)) 1 below
      (by omega)
  rw [if_neg two]
  by_cases second : m ≤ 0x7ff
  · rw [if_pos second]
    split_ifs
    all_goals exact digits_apart_of_head (byte_lt (by omega) (by omega))
  rw [if_neg second]
  by_cases three : n ≤ 0xffff
  · rw [if_pos three, if_pos (by omega)]
    exact digits_apart 0x10 (fun _ _ below _ => byte_lt (by omega) (by omega)) 2 below
      (by omega)
  rw [if_neg three]
  by_cases third : m ≤ 0xffff
  · rw [if_pos third]
    exact digits_apart_of_head (byte_lt (by omega) (by omega))
  rw [if_neg third]
  exact digits_apart 8 (fun _ _ below _ => byte_lt (by omega) (by omega)) 3 below
    (by omega)

theorem zero_not_mem_digits {width : Nat} (nonzero : lead (n / 64 ^ width) ≠ 0) :
    0 ∉ digits lead width n := by
  induction width generalizing n with
  | zero =>
    rw [Nat.pow_zero, Nat.div_one] at nonzero
    exact fun member => nonzero (mem_singleton.mp member).symm
  | succ width ih =>
    rw [Nat.pow_succ', ← Nat.div_div_eq_div_mul] at nonzero
    rw [digits, mem_append, mem_singleton, not_or]
    exact ⟨ih nonzero, (byte_lt (m := 0) (by omega) (by omega)).ne⟩

theorem zero_not_mem_scalar (positive : 0 < n) : 0 ∉ scalar n := by
  unfold scalar
  split_ifs
  all_goals exact zero_not_mem_digits (byte_lt (m := 0) (by omega) (by omega)).ne'

end Scalars

theorem toNat_le (character : Char) : character.toNat ≤ 0x10ffff := by
  have valid := character.valid
  unfold UInt32.isValidChar Nat.isValidChar at valid
  change character.val.toNat ≤ _
  omega

/-- Characters are compared by their bytes. -/
theorem keeps_char : Keeps (fun _ : Char => True) String.utf8EncodeChar := by
  intro first second _ _ below
  rw [utf8EncodeChar_eq, utf8EncodeChar_eq]
  exact scalar_apart (UInt32.lt_iff_toNat_lt.mp below) (toNat_le second)

theorem zero_not_mem_char {character : Char} (nonzero : character ≠ '\x00') :
    0 ∉ String.utf8EncodeChar character := by
  rw [utf8EncodeChar_eq]
  refine zero_not_mem_scalar (Nat.pos_of_ne_zero fun zero => nonzero ?_)
  exact Char.toNat_inj.mp zero

/-- A text without the zero character. -/
def ZeroFree (text : String) : Prop := '\x00' ∉ text.toList

instance : DecidablePred ZeroFree := fun text =>
  inferInstanceAs (Decidable ('\x00' ∉ text.toList))

/-- The bytes of a text. -/
def bytesOf (text : String) : List UInt8 := text.toByteArray.data.toList

theorem bytesOf_eq (text : String) : bytesOf text = text.toList.flatMap String.utf8EncodeChar := by
  rw [bytesOf, ← String.utf8Encode_toList, utf8Encode, toList_data_toByteArray]

theorem length_bytesOf (text : String) : (bytesOf text).length = text.utf8ByteSize := by
  rw [bytesOf, Array.length_toList]
  rfl

theorem zero_not_mem_bytesOf {text : String} (free : ZeroFree text) : 0 ∉ bytesOf text := by
  rw [bytesOf_eq]
  intro member
  obtain ⟨character, present, zero⟩ := mem_flatMap.mp member
  refine zero_not_mem_char (fun equal => free ?_) zero
  rw [← equal]
  exact present

/-- The text of some bytes, if they are one. -/
def textOf (bytes : List UInt8) : Option String := String.fromUTF8? bytes.toByteArray

theorem textOf_bytesOf (text : String) : textOf (bytesOf text) = some text := by
  have array : (bytesOf text).toByteArray = text.toByteArray := by
    rw [bytesOf_eq]
    exact String.utf8Encode_toList
  simp only [textOf, array, String.fromUTF8?, dif_pos text.isValidUTF8]
  rfl

/-- A text closed by the zero byte. -/
def closed (text : String) : List UInt8 := bytesOf text ++ [0]

/-- Texts closed by the zero byte are compared as the texts are. -/
theorem keeps_closed : Keeps ZeroFree closed := by
  have above : ∀ character : Char, character ≠ '\x00' →
      ∃ x word, String.utf8EncodeChar character = x :: word ∧ 0 < x := by
    intro character nonzero
    cases coded : String.utf8EncodeChar character with
    | nil => exact absurd coded String.utf8EncodeChar_ne_nil
    | cons x word =>
      refine ⟨x, word, rfl, UInt8.pos_iff_ne_zero.mpr fun zero => ?_⟩
      apply zero_not_mem_char nonzero
      rw [coded, zero]
      exact mem_cons_self
  have chars : Keeps (fun character : Char => character ≠ '\x00') String.utf8EncodeChar :=
    fun first second _ _ below => keeps_char first second trivial trivial below
  intro first second free free' below
  have words := chars.terminated above first.toList second.toList
    (fun _ member equal => free (equal ▸ member)) (fun _ member equal => free' (equal ▸ member))
    (String.lt_iff_toList_lt.mp below)
  rw [closed, closed, bytesOf_eq, bytesOf_eq]
  exact words

end OpenFga.Utf8
