import Mathlib.Algebra.Order.Ring.Int
import Mathlib.Data.Set.Function

/-!
# Self-delimiting codes

A code that can be split off the front of any longer word in one way only. Such codes
can be written one after another without a separator, and what is written can be taken
apart again. Fixed widths, length prefixes and counted lists give them; a tag selects
between them.

A code may be ambiguous outside the values it is meant for, so every statement is about
the admitted values.
-/

namespace OpenFga.PrefixCode

open List

variable {α β : Type} {γ : Type} {admits' : γ → Prop} {fits : Nat → Prop} {length : Nat → List β}

/-- The words of two admitted values leave the same rest only if the values agree. -/
def SplitsOff (admits : α → Prop) (encode : α → List β) : Prop :=
  ∀ a b : α, admits a → admits b → ∀ s t : List β, encode a ++ s = encode b ++ t →
    a = b ∧ s = t

section Splits

variable {admits : α → Prop} {encode : α → List β}

theorem SplitsOff.injOn (splits : SplitsOff admits encode) : Set.InjOn encode {a | admits a} := by
  intro a fits b fits' same
  exact (splits a b fits fits' [] [] (by rw [same])).1

theorem SplitsOff.of_injOn_length {width : Nat} (wide : ∀ a, admits a → (encode a).length = width)
    (injective : Set.InjOn encode {a | admits a}) : SplitsOff admits encode := by
  intro a b fits fits' s t same
  have lengths : (encode a).length = (encode b).length := by
    rw [wide a fits, wide b fits']
  obtain ⟨words, rests⟩ := append_inj same lengths
  exact ⟨injective fits fits' words, rests⟩

/-- Reading a value through a view of it that tells the admitted values apart. -/
theorem SplitsOff.comapOn {write : γ → List β} (splits : SplitsOff admits encode) (view : γ → α)
    (writes : ∀ c, write c = encode (view c)) (inside : ∀ c, admits' c → admits (view c))
    (injective : Set.InjOn view {c | admits' c}) : SplitsOff admits' write := by
  intro a b fits fits' s t same
  rw [writes, writes] at same
  obtain ⟨views, rests⟩ := splits _ _ (inside a fits) (inside b fits') s t same
  exact ⟨injective fits fits' views, rests⟩

theorem SplitsOff.comap {view : γ → α} (splits : SplitsOff admits encode)
    (injective : Function.Injective view) :
    SplitsOff (fun c => admits (view c)) (fun c => encode (view c)) :=
  splits.comapOn view (fun _ => rfl) (fun _ fits => fits) injective.injOn

/-- Values of one form, told apart by what they are made of. -/
theorem SplitsOff.form (splits : SplitsOff admits encode) (make : α → γ) {a b : α} (fits : admits a)
    (fits' : admits b) {s t : List β} (same : encode a ++ s = encode b ++ t) :
    make a = make b ∧ s = t := by
  obtain ⟨rfl, rests⟩ := splits a b fits fits' s t same
  exact ⟨rfl, rests⟩

/-- A word preceded by the code of its length. -/
theorem SplitsOff.framed (splits : SplitsOff fits length) :
    SplitsOff (fun word : List β => fits word.length) (fun word => length word.length ++ word) := by
  intro v w fitsV fitsW s t same
  rw [append_assoc, append_assoc] at same
  obtain ⟨lengths, words⟩ := splits _ _ fitsV fitsW _ _ same
  exact append_inj words lengths

/-- Equally many codes in a row. The first list carries the splitting of its items, so
that the lemma serves a recursion whose items are smaller values. -/
theorem splitsOff_flatMap {items items' : List α}
    (splits : ∀ a ∈ items, ∀ b, admits b → ∀ s t, encode a ++ s = encode b ++ t →
      a = b ∧ s = t)
    (admitted : ∀ b ∈ items', admits b) (lengths : items.length = items'.length)
    (s t : List β) (same : items.flatMap encode ++ s = items'.flatMap encode ++ t) :
    items = items' ∧ s = t := by
  induction items generalizing items' with
  | nil =>
    cases length_eq_zero_iff.mp lengths.symm
    exact ⟨rfl, same⟩
  | cons a items ih =>
    match items', lengths with
    | b :: items', lengths =>
      rw [flatMap_cons, flatMap_cons, append_assoc, append_assoc] at same
      obtain ⟨heads, tails⟩ :=
        splits a mem_cons_self b (admitted b mem_cons_self) _ _ same
      obtain ⟨rows, rests⟩ := ih
        (fun c member => splits c (mem_cons_of_mem a member))
        (fun c member => admitted c (mem_cons_of_mem b member))
        (Nat.succ.inj lengths) tails
      exact ⟨by rw [heads, rows], rests⟩

/-- A list preceded by the code of its length. -/
theorem SplitsOff.counted (lengths : SplitsOff fits length) (splits : SplitsOff admits encode) :
    SplitsOff (fun items : List α => fits items.length ∧ ∀ a ∈ items, admits a)
      (fun items => length items.length ++ items.flatMap encode) := by
  intro items items' fitsL fitsR s t same
  rw [append_assoc, append_assoc] at same
  obtain ⟨counts, rows⟩ := lengths _ _ fitsL.1 fitsR.1 _ _ same
  exact splitsOff_flatMap (fun a member b fits => splits a b (fitsL.2 a member) fits)
    fitsR.2 counts s t rows

/-- Two codes, one after the other. -/
theorem SplitsOff.prod {encode' : γ → List β} (splits : SplitsOff admits encode)
    (splits' : SplitsOff admits' encode') :
    SplitsOff (fun pair : α × γ => admits pair.1 ∧ admits' pair.2)
      (fun pair => encode pair.1 ++ encode' pair.2) := by
  rintro ⟨a, c⟩ ⟨b, d⟩ fits fits' s t same
  rw [append_assoc, append_assoc] at same
  obtain ⟨rfl, same⟩ := splits a b fits.1 fits'.1 _ _ same
  obtain ⟨rfl, rests⟩ := splits' c d fits.2 fits'.2 _ _ same
  exact ⟨rfl, rests⟩

/-- A marker says whether there is a value. -/
theorem SplitsOff.option {absent present : β} (apart : absent ≠ present)
    (splits : SplitsOff admits encode) :
    SplitsOff (fun value : Option α => ∀ a ∈ value, admits a)
      (fun value => value.elim [absent] fun a => present :: encode a) := by
  rintro (_ | a) (_ | b) fits fits' s t same
  · exact ⟨rfl, append_cancel_left same⟩
  · exact absurd (head_eq_of_cons_eq same) apart
  · exact absurd (head_eq_of_cons_eq same).symm apart
  · obtain ⟨rfl, rests⟩ := splits a b (fits a rfl) (fits' b rfl) s t (tail_eq_of_cons_eq same)
    exact ⟨rfl, rests⟩

end Splits

/-- The last `width` base-256 digits of a number, most significant first. -/
def bigEndian : Nat → Nat → List UInt8
  | 0, _ => []
  | width + 1, n => bigEndian width (n / 256) ++ [UInt8.ofNat n]

@[simp] theorem bigEndian_length (width n : Nat) : (bigEndian width n).length = width := by
  induction width generalizing n with
  | zero => rfl
  | succ width ih => rw [bigEndian, length_append, ih, length_singleton]

theorem bigEndian_injOn (width : Nat) : Set.InjOn (bigEndian width) {n | n < 256 ^ width} := by
  induction width with
  | zero =>
    intro m small n small' _
    rw [Nat.lt_one_iff.mp small, Nat.lt_one_iff.mp small']
  | succ width ih =>
    intro m small n small' same
    have bound : ∀ k, k < 256 ^ (width + 1) → k / 256 < 256 ^ width := by
      intro k small
      rw [Nat.pow_succ, Nat.mul_comm] at small
      exact Nat.div_lt_of_lt_mul small
    obtain ⟨digits, last⟩ := append_inj' same rfl
    have quotients : m / 256 = n / 256 := ih (bound m small) (bound n small') digits
    have remainders : m % 256 = n % 256 := by
      have bytes := congrArg UInt8.toNat (head_eq_of_cons_eq last)
      simpa only [UInt8.toNat_ofNat'] using bytes
    omega

/-- The number that base-256 digits stand for. -/
def fromBigEndian (digits : List UInt8) : Nat :=
  digits.foldl (fun value digit => value * 256 + digit.toNat) 0

theorem fromBigEndian_bigEndian (width n : Nat) :
    fromBigEndian (bigEndian width n) = n % 256 ^ width := by
  induction width generalizing n with
  | zero => exact (Nat.mod_one n).symm
  | succ width ih =>
    have split : n % 256 ^ (width + 1) = n / 256 % 256 ^ width * 256 + n % 256 := by
      rw [Nat.pow_succ', Nat.mod_mul, Nat.add_comm, Nat.mul_comm]
    unfold fromBigEndian at ih ⊢
    rw [bigEndian, foldl_append, ih, foldl_cons, foldl_nil, UInt8.toNat_ofNat',
      split]

theorem bigEndian_splitsOff (width : Nat) :
    SplitsOff (fun n => n < 256 ^ width) (bigEndian width) :=
  .of_injOn_length (fun n _ => bigEndian_length width n) (bigEndian_injOn width)

end OpenFga.PrefixCode
