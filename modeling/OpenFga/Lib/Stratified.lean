import Mathlib.Order.FixedPoints
import Mathlib.Order.CompletePartialOrder
import Mathlib.Data.Finset.Insert
import OpenFga.Lib.Kleene

/-!
# Stratified least fixed points

Rules derive facts from facts, positively and under negation. When the facts have
levels such that negation only looks at strictly lower ones, the rules have a
stratified model: level by level, the least set that is closed under the rules,
with negation read in the levels below.

An evaluator that denies a fact on re-entry along its own path computes this
model. The reason is the reduction lemma `mem_lfp_iff_of_without`: a derivation of
a fact never needs the fact itself, so that the fact may be barred below it.
-/

namespace OpenFga

open Set

section Reduction

variable {α : Type*} {full barring : Set α →o Set α} {fact : α}

/-- A fact is in a least fixed point exactly when it follows from the least fixed
point in which it is barred. -/
theorem mem_lfp_iff_of_without (without : ∀ facts, barring facts = full facts \ {fact}) :
    fact ∈ full.lfp ↔ fact ∈ full barring.lfp := by
  constructor
  · intro member
    by_contra absent
    -- the barred fixed point is then closed under the full operator, but lacks the fact
    have closed : full barring.lfp = barring.lfp := by
      rw [← sdiff_singleton_eq_self absent, ← without, barring.map_lfp]
    have inside : fact ∈ barring.lfp := full.lfp_le_fixed closed member
    rw [← barring.map_lfp, without] at inside
    exact inside.2 rfl
  · intro follows
    have smaller : barring full.lfp ≤ full.lfp := by
      rw [without, full.map_lfp]
      exact sdiff_subset
    have below := full.monotone (barring.lfp_le smaller) follows
    rwa [full.map_lfp] at below

end Reduction

/-- What follows from some facts, with negation read in others. -/
structure Rules (α : Type*) where
  derive : Set α → Set α → Set α
  mono : ∀ {pos pos' neg neg' : Set α}, pos ⊆ pos' → neg' ⊆ neg → derive pos neg ⊆ derive pos' neg'

namespace Rules

variable {α : Type*} (rules : Rules α) (level : α → Nat)

/-- Rules look at facts of their own level or below, and under negation below. -/
def Stratifies : Prop :=
  ∀ {fact : α} {pos pos' neg neg' : Set α},
    (∀ used ∈ pos, level used ≤ level fact → used ∈ pos') →
    (∀ used ∈ neg', level used < level fact → used ∈ neg) →
    fact ∈ rules.derive pos neg → fact ∈ rules.derive pos' neg'

/-- One round on one level, given the facts below it and without the barred facts. -/
def layerStep (known barred : Set α) (index : Nat) : Set α →o Set α where
  toFun facts := {fact | level fact = index ∧ fact ∉ barred ∧
    fact ∈ rules.derive (known ∪ facts) known}
  monotone' := by
    intro facts facts' subset fact member
    have grown : known ∪ facts ⊆ known ∪ facts' := union_subset_union_right known subset
    exact ⟨member.1, member.2.1, rules.mono grown le_rfl member.2.2⟩

/-- The facts of one level. -/
noncomputable def layer (known barred : Set α) (index : Nat) : Set α :=
  (rules.layerStep level known barred index).lfp

/-- The facts below a level. -/
noncomputable def below : Nat → Set α
  | 0 => ∅
  | index + 1 => below index ∪ rules.layer level (below index) ∅ index

/-- The stratified model. -/
noncomputable def stratifiedModel : Set α :=
  {fact | fact ∈ rules.below level (level fact + 1)}

section Layers

variable {rules level} {known barred : Set α} {index : Nat} {fact : α}

theorem mem_layer : fact ∈ rules.layer level known barred index ↔
    level fact = index ∧ fact ∉ barred ∧
      fact ∈ rules.derive (known ∪ rules.layer level known barred index) known := by
  have fixed := (rules.layerStep level known barred index).map_lfp
  constructor
  · intro member
    unfold layer at member
    rw [← fixed] at member
    exact member
  · intro member
    have step : fact ∈ rules.layerStep level known barred index
      (rules.layer level known barred index) := member
    rwa [layer, fixed] at step

/-- Barring facts of other levels changes nothing. -/
theorem layer_of_barred (apart : ∀ other ∈ barred, level other ≠ index) :
    rules.layer level known barred index = rules.layer level known ∅ index := by
  have same : rules.layerStep level known barred index = rules.layerStep level known ∅ index := by
    ext facts fact
    constructor
    · intro member
      exact ⟨member.1, notMem_empty fact, member.2.2⟩
    · intro member
      exact ⟨member.1, fun inside => apart fact inside member.1, member.2.2⟩
  rw [layer, layer, same]

/-- A fact of a level may be barred in its own derivation. -/
theorem mem_layer_iff_barred : fact ∈ rules.layer level known barred index ↔
    level fact = index ∧ fact ∉ barred ∧
      fact ∈ rules.derive (known ∪ rules.layer level known (insert fact barred) index) known := by
  apply mem_lfp_iff_of_without
  intro facts
  ext other
  constructor
  · intro member
    refine ⟨⟨member.1, fun inside => ?_, member.2.2⟩, fun same => ?_⟩
    · exact member.2.1 (mem_insert_of_mem fact inside)
    · exact member.2.1 (same ▸ mem_insert fact barred)
  · intro member
    refine ⟨member.1.1, fun inside => ?_, member.1.2.2⟩
    rcases mem_insert_iff.mp inside with same | older
    · exact member.2 same
    · exact member.1.2.1 older

/-- A fact below a level is a fact of its own layer. -/
theorem mem_below_iff : ∀ {index : Nat}, fact ∈ rules.below level index ↔
    level fact < index ∧ fact ∈ rules.layer level (rules.below level (level fact)) ∅
      (level fact) := by
  intro index
  induction index with
  | zero => simp [below]
  | succ index ih =>
    rw [below, mem_union, ih]
    constructor
    · intro member
      rcases member with ⟨lower, own⟩ | here
      · exact ⟨lower.trans index.lt_succ_self, own⟩
      · have same := (mem_layer.mp here).1
        exact ⟨same ▸ index.lt_succ_self, same ▸ here⟩
    · intro member
      rcases Nat.lt_succ_iff_lt_or_eq.mp member.1 with lower | same
      · exact .inl ⟨lower, member.2⟩
      · exact .inr (same ▸ member.2)

theorem mem_stratifiedModel : fact ∈ rules.stratifiedModel level ↔
    fact ∈ rules.layer level (rules.below level (level fact)) ∅ (level fact) := by
  unfold stratifiedModel
  rw [mem_ofPred_eq, mem_below_iff]
  exact and_iff_right (level fact).lt_succ_self

section

variable {kept : Set α} (keeps : ∀ pos neg : Set α, pos ⊆ kept → rules.derive pos neg ⊆ kept)

include keeps

/-- What the rules keep, whatever is negated, holds of the whole layer. -/
theorem layer_subset (known_kept : known ⊆ kept) : rules.layer level known barred index ⊆ kept := by
  apply OrderHom.lfp_le
  intro fact member
  exact keeps _ _ (union_subset known_kept le_rfl) member.2.2

theorem below_subset (index : Nat) : rules.below level index ⊆ kept := by
  induction index with
  | zero => exact empty_subset kept
  | succ index ih => exact union_subset ih (layer_subset keeps ih)

end

end Layers

/-- An evaluator that denies barred facts and facts on its path, and otherwise
decides a fact by the rules from what it decides about the facts used, with the
fact added to the path. -/
structure Evaluates [DecidableEq α] (denied : Set α) (value : Nat → α → Finset α → Kleene) :
    Prop where
  zero : ∀ fact path, value 0 fact path = .unknown
  yes : ∀ {fuel fact path}, value (fuel + 1) fact path = .yes →
    fact ∉ path ∧ fact ∈ rules.derive {used | value fuel used (insert fact path) = .yes}
      {used | value fuel used (insert fact path) ≠ .no}
  no : ∀ {fuel fact path}, value (fuel + 1) fact path = .no →
    fact ∈ path ∨ fact ∈ denied ∨
      fact ∉ rules.derive {used | value fuel used (insert fact path) ≠ .no}
        {used | value fuel used (insert fact path) = .yes}

section Paths

variable {rules level} [DecidableEq α] {denied : Set α} {value : Nat → α → Finset α → Kleene}

section

variable (evaluates : rules.Evaluates denied value) (stratifies : rules.Stratifies level)
  (keeps : ∀ pos neg : Set α, pos ⊆ deniedᶜ → rules.derive pos neg ⊆ deniedᶜ)

include evaluates stratifies keeps

/-- On a path of facts that are not lower, the evaluator decides membership in the
layer of the fact without the facts of the path. -/
theorem Evaluates.layer :
    ∀ (fuel : Nat) (fact : α) (path : Finset α), (∀ other ∈ path, level fact ≤ level other) →
      (value fuel fact path = .yes →
        fact ∈ rules.layer level (rules.below level (level fact)) path (level fact)) ∧
      (value fuel fact path = .no →
        fact ∉ rules.layer level (rules.below level (level fact)) path (level fact)) := by
  intro fuel
  induction fuel with
  | zero =>
    intro fact path _
    rw [evaluates.zero]
    constructor
    · intro impossible
      cases impossible
    · intro impossible
      cases impossible
  | succ fuel ih =>
    intro fact path above
    let known := rules.below level (level fact)
    let own := rules.layer level known (insert fact (path : Set α)) (level fact)
    let decided := fun used => value fuel used (insert fact path)
    have extended : ∀ other ∈ insert fact path, level fact ≤ level other := by
      intro other member
      rcases Finset.mem_insert.mp member with rfl | older
      · exact le_rfl
      · exact above other older
    -- what is decided about a fact used is its membership in the layers up to this one
    have used_iff : ∀ used, level used ≤ level fact → (decided used = .yes → used ∈ known ∪ own) ∧
        (used ∈ known ∪ own → decided used ≠ .no) := by
      intro used lower
      obtain ⟨granted, refused⟩ := ih used (insert fact path) fun other member =>
        lower.trans (extended other member)
      have layers : used ∈ rules.layer level (rules.below level (level used))
          ((insert fact path : Finset α) : Set α) (level used) ↔ used ∈ known ∪ own := by
        rw [mem_union, mem_below_iff]
        rcases lower.lt_or_eq with less | same
        · have apart : ∀ other ∈ ((insert fact path : Finset α) : Set α),
              level other ≠ level used := by
            intro other member
            exact (less.trans_le (extended other member)).ne'
          rw [layer_of_barred apart]
          constructor
          · intro member
            exact .inl ⟨less, member⟩
          · intro member
            rcases member with lowerFact | ownFact
            · exact lowerFact.2
            · exact absurd (mem_layer.mp ownFact).1 less.ne
        · rw [same, Finset.coe_insert]
          constructor
          · exact .inr
          · intro member
            rcases member with lowerFact | ownFact
            · exact absurd lowerFact.1 (lt_irrefl _)
            · exact ownFact
      rw [← layers]
      exact ⟨granted, fun member no => refused no member⟩
    have lower_iff : ∀ used, level used < level fact →
        (decided used = .yes → used ∈ known) ∧ (used ∈ known → decided used ≠ .no) := by
      intro used less
      obtain ⟨granted, refused⟩ := used_iff used less.le
      refine ⟨fun yes => ?_, fun member => refused (.inl member)⟩
      rcases granted yes with lowerFact | ownFact
      · exact lowerFact
      · exact absurd (mem_layer.mp ownFact).1 less.ne
    rw [mem_layer_iff_barred]
    constructor
    · intro yes
      obtain ⟨fresh, derived⟩ := evaluates.yes yes
      refine ⟨rfl, fresh, stratifies ?_ ?_ derived⟩
      · intro used granted lower
        exact (used_iff used lower).1 granted
      · intro used member less
        exact (lower_iff used less).2 member
    · intro no member
      obtain ⟨-, fresh, derived⟩ := member
      rcases evaluates.no no with looped | barred | underivable
      · exact fresh looped
      · have lowerKept : known ⊆ deniedᶜ := below_subset keeps _
        have kept : known ∪ own ⊆ deniedᶜ := union_subset lowerKept (layer_subset keeps lowerKept)
        exact keeps _ _ kept derived barred
      · apply underivable
        apply stratifies _ _ derived
        · intro used granted lower
          exact (used_iff used lower).2 granted
        · intro used granted less
          exact (lower_iff used less).1 granted

/-- Evaluated on the empty path, a decided fact is decided as in the stratified model. -/
theorem Evaluates.stratifiedModel {fuel : Nat}
    {fact : α} {allowed : Bool} (decided : value fuel fact ∅ = .ofBool allowed) :
    allowed = true ↔ fact ∈ rules.stratifiedModel level := by
  obtain ⟨granted, refused⟩ := evaluates.layer stratifies keeps fuel fact ∅ (by simp)
  rw [mem_stratifiedModel]
  rw [Finset.coe_empty] at granted refused
  cases allowed with
  | true => exact iff_of_true rfl (granted decided)
  | false => exact iff_of_false Bool.false_ne_true (refused decided)

end

end Paths

end Rules

end OpenFga
