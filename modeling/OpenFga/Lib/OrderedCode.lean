import Mathlib.Data.List.Lex
import OpenFga.Lib.PrefixCode

/-!
# Codes that keep the order

The code of a smaller value is apart from the code of a greater one: the two words first
differ at a place that both have, and the smaller value has the smaller symbol there. What
follows the words cannot undo this, so such codes can be written one after another and the
longer words are compared as the values are, the first value first.

A word over a coded alphabet is closed by a symbol below every first symbol of a code. It
then comes before each of its extensions, which a separator above some code would not give.
-/

namespace OpenFga.OrderedCode

open PrefixCode List

variable {α β : Type}

section Apart

variable [LinearOrder β]

/-- Two words differ at a place of both, and the first word is the smaller one there. -/
inductive Apart : List β → List β → Prop
  | head {x y : β} (below : x < y) (u v : List β) : Apart (x :: u) (y :: v)
  | cons (x : β) {u v : List β} (rest : Apart u v) : Apart (x :: u) (x :: v)

namespace Apart

variable {u v : List β}

/-- What follows two words does not matter. -/
theorem append (apart : Apart u v) (s t : List β) : Apart (u ++ s) (v ++ t) := by
  induction apart with
  | head below u v => exact .head below (u ++ s) (v ++ t)
  | cons x _ ih => exact .cons x ih

theorem prepend (apart : Apart u v) (word : List β) : Apart (word ++ u) (word ++ v) := by
  induction word with
  | nil => exact apart
  | cons x word ih => exact .cons x ih

theorem lt (apart : Apart u v) : u < v := by
  induction apart with
  | head below u v => exact cons_lt_cons_iff.mpr (.inl below)
  | cons x _ ih => exact cons_lt_cons_iff.mpr (.inr ⟨rfl, ih⟩)

theorem append_ne (apart : Apart u v) (s t : List β) : u ++ s ≠ v ++ t :=
  (apart.append s t).lt.ne

end Apart

/-- The codes of smaller values are apart from those of greater ones. -/
def Keeps [LT α] (admits : α → Prop) (encode : α → List β) : Prop :=
  ∀ a b : α, admits a → admits b → a < b → Apart (encode a) (encode b)

namespace Keeps

variable [LinearOrder α] {admits : α → Prop} {encode : α → List β}

/-- A code that keeps the order can be taken apart. -/
theorem splitsOff (keeps : Keeps admits encode) : SplitsOff admits encode := by
  intro a b fits fits' s t same
  rcases lt_trichotomy a b with below | rfl | above
  · exact absurd same ((keeps a b fits fits' below).append_ne s t)
  · exact ⟨rfl, append_cancel_left same⟩
  · exact absurd same.symm ((keeps b a fits' fits above).append_ne t s)

theorem lt_iff (keeps : Keeps admits encode) {a b : α} (fits : admits a) (fits' : admits b) :
    encode a < encode b ↔ a < b := by
  refine ⟨fun words => ?_, fun below => (keeps a b fits fits' below).lt⟩
  by_contra not
  rcases (not_lt.mp not).lt_or_eq with below | rfl
  · exact lt_asymm words (keeps b a fits' fits below).lt
  · exact lt_irrefl _ words

end Keeps

section Words

variable [LinearOrder α] {admits : α → Prop} {encode : α → List β}

/-- The codes of a word's symbols, closed by a symbol. -/
def terminated (encode : α → List β) (stop : β) (word : List α) : List β :=
  word.flatMap encode ++ [stop]

/-- A word closed by a symbol below every code keeps the order of the words. -/
theorem Keeps.terminated {stop : β} (keeps : Keeps admits encode)
    (above : ∀ a, admits a → ∃ x word, encode a = x :: word ∧ stop < x) :
    Keeps (fun word : List α => ∀ a ∈ word, admits a) (terminated encode stop) := by
  intro word word' fits fits' below
  induction below with
  | nil =>
    rename_i b rest
    obtain ⟨x, code, coded, smaller⟩ := above b (fits' b mem_cons_self)
    rw [OrderedCode.terminated, OrderedCode.terminated, flatMap_cons, coded]
    exact .head smaller _ _
  | rel below =>
    have apart := keeps _ _ (fits _ mem_cons_self) (fits' _ mem_cons_self) below
    rw [OrderedCode.terminated, OrderedCode.terminated, flatMap_cons, flatMap_cons,
      append_assoc, append_assoc]
    exact apart.append _ _
  | cons _ ih =>
    rw [OrderedCode.terminated, OrderedCode.terminated, flatMap_cons, flatMap_cons,
      append_assoc, append_assoc]
    exact (ih (fun a member => fits a (mem_cons_of_mem _ member))
      fun a member => fits' a (mem_cons_of_mem _ member)).prepend _

/-- Equally many codes in a row are compared as the rows of values. -/
theorem Keeps.row (keeps : Keeps admits encode) {row row' : List α}
    (fits : ∀ a ∈ row, admits a) (fits' : ∀ a ∈ row', admits a)
    (lengths : row.length = row'.length) (below : row < row') :
    Apart (row.flatMap encode) (row'.flatMap encode) := by
  induction below with
  | nil => cases lengths
  | rel below =>
    rw [flatMap_cons, flatMap_cons]
    exact (keeps _ _ (fits _ mem_cons_self) (fits' _ mem_cons_self) below).append _ _
  | cons _ ih =>
    rw [flatMap_cons, flatMap_cons]
    exact (ih (fun a member => fits a (mem_cons_of_mem _ member))
      (fun a member => fits' a (mem_cons_of_mem _ member))
      (Nat.succ.inj lengths)).prepend _

end Words

end Apart

/-- A row of codes starts another one only if the values do. -/
theorem flatMap_isPrefix_iff {admits : α → Prop} {encode : α → List β}
    (splits : SplitsOff admits encode) (nonempty : ∀ a, encode a ≠ []) {row row' : List α}
    (fits : ∀ a ∈ row, admits a) (fits' : ∀ a ∈ row', admits a) :
    row.flatMap encode <+: row'.flatMap encode ↔ row <+: row' := by
  constructor
  · intro starts
    induction row generalizing row' with
    | nil => exact nil_prefix
    | cons a row ih =>
      obtain ⟨rest, words⟩ := starts
      rw [flatMap_cons, append_assoc] at words
      cases row' with
      | nil => exact absurd (append_eq_nil_iff.mp words).1 (nonempty a)
      | cons b row' =>
        rw [flatMap_cons] at words
        obtain ⟨heads, tails⟩ := splits a b (fits a mem_cons_self)
          (fits' b mem_cons_self) _ _ words
        rw [heads]
        exact cons_prefix_cons.mpr ⟨rfl, ih
          (fun c member => fits c (mem_cons_of_mem _ member))
          (fun c member => fits' c (mem_cons_of_mem _ member)) ⟨rest, tails⟩⟩
  · rintro ⟨rest, rfl⟩
    rw [flatMap_append]
    exact prefix_append _ _

end OpenFga.OrderedCode
