import Mathlib.Algebra.Order.Ring.Int
import Mathlib.Data.Finset.Card
import Mathlib.Logic.Function.Iterate

/-!
# Worklists and saturation

Iteration patterns over finite data.

`explore` pops items from a stack, skips the visited ones and pushes the
successors of the others. With the fuel `exploreAll` gives it the stack runs
empty, so the visited items are closed under successors.

`foldl_grows` and `foldl_through` carry a preorder through an accumulating loop.

`iterate_isFixedPt` is the bound for round-based saturation: a set that grows
inside a universe of `n` elements, each round a function of the set alone, does
not change after `n` rounds.
-/

namespace OpenFga.Worklist

open List

section Explore

variable {α : Type*} [DecidableEq α] (successors : α → List α)

/-- Visits every item reachable from the stack; returns the items in visiting order. -/
def explore : Nat → List α → List α → List α
  | 0, _, visited => visited
  | _ + 1, [], visited => visited
  | fuel + 1, item :: stack, visited =>
      if item ∈ visited then explore fuel stack visited
      else explore fuel ((successors item).reverse ++ stack) (visited ++ [item])

/-- The number of pushes the unvisited part of the universe can still cause. -/
def pendingPushes (items visited : List α) : Nat :=
  ((items.filter (· ∉ visited)).map fun item => (successors item).length).sum

/-- Explores from one item, with fuel for one visit of every item of the universe. -/
def exploreAll (items : List α) (start : α) : List α :=
  explore successors (1 + pendingPushes successors items []) [start] []

theorem pendingPushes_cons (head : α) (items visited : List α) :
    pendingPushes successors (head :: items) visited =
      (if head ∈ visited then 0 else (successors head).length) +
        pendingPushes successors items visited := by
  by_cases seen : head ∈ visited <;> simp [pendingPushes, seen]

theorem pendingPushes_visit_le (items visited : List α) (item : α) :
    pendingPushes successors items (visited ++ [item]) ≤ pendingPushes successors items
      visited := by
  induction items with
  | nil => exact le_rfl
  | cons head items ih =>
    rw [pendingPushes_cons, pendingPushes_cons]
    by_cases seen : head ∈ visited
    · simpa [seen] using ih
    · by_cases same : head = item
      · simp only [same, mem_append, mem_singleton, or_true, if_true]
        omega
      · simpa [seen, same] using ih

/-- Visiting an item of the universe pays for its successors. -/
theorem pendingPushes_visit {items visited : List α} {item : α} (member : item ∈ items)
    (fresh : item ∉ visited) :
    pendingPushes successors items (visited ++ [item]) + (successors item).length ≤
      pendingPushes successors items visited := by
  induction items with
  | nil => simp at member
  | cons head items ih =>
    rw [pendingPushes_cons, pendingPushes_cons]
    by_cases same : head = item
    · subst same
      have rest := pendingPushes_visit_le successors items visited head
      simp only [mem_append, mem_singleton, or_true, if_true, fresh, if_false]
      omega
    · have inner := ih ((mem_cons.mp member).resolve_left (Ne.symm same))
      by_cases seen : head ∈ visited
      · simpa [seen] using inner
      · simp only [mem_append, seen, mem_singleton, same, or_self, if_false]
        omega

/-- Every item pushed by a visited item is visited or still on the stack. -/
def Tracked (stack visited : List α) : Prop :=
  ∀ item ∈ visited, ∀ next ∈ successors item, next ∈ visited ∨ next ∈ stack

/-- With enough fuel the visited items contain the stack and are closed under successors. -/
theorem explore_closed {items : List α} (outside : ∀ item ∉ items, successors item = []) :
    ∀ (fuel : Nat) (stack visited : List α),
      stack.length + pendingPushes successors items visited ≤ fuel →
      Tracked successors stack visited →
      let result := explore successors fuel stack visited
      (∀ item ∈ visited, item ∈ result) ∧ (∀ item ∈ stack, item ∈ result) ∧
        ∀ item ∈ result, ∀ next ∈ successors item, next ∈ result := by
  intro fuel
  induction fuel with
  | zero =>
    intro stack visited bound tracked
    have empty : stack = [] := length_eq_zero_iff.mp (by omega)
    subst empty
    simp only [explore]
    refine ⟨fun _ member => member, by simp, fun item member next successor => ?_⟩
    simpa using tracked item member next successor
  | succ fuel ih =>
    intro stack visited bound tracked
    cases stack with
    | nil =>
      simp only [explore]
      refine ⟨fun _ member => member, by simp, fun item member next successor => ?_⟩
      simpa using tracked item member next successor
    | cons item stack =>
      simp only [length_cons] at bound
      by_cases seen : item ∈ visited
      · simp only [explore, seen, if_true]
        obtain ⟨kept, rest, closed⟩ := ih stack visited (by omega) (by
          intro source member next successor
          rcases tracked source member next successor with found | found
          · exact .inl found
          · rcases mem_cons.mp found with rfl | found
            · exact .inl seen
            · exact .inr found)
        refine ⟨kept, ?_, closed⟩
        intro other member
        rcases mem_cons.mp member with rfl | member
        · exact kept other seen
        · exact rest other member
      · simp only [explore, seen, if_false]
        have cost : pendingPushes successors items (visited ++ [item]) +
            (successors item).length ≤ pendingPushes successors items visited := by
          by_cases known : item ∈ items
          · exact pendingPushes_visit successors known seen
          · rw [outside item known]
            exact pendingPushes_visit_le successors items visited item
        obtain ⟨kept, rest, closed⟩ :=
          ih ((successors item).reverse ++ stack) (visited ++ [item])
            (by simp only [length_append, length_reverse]; omega) (by
              intro source member next successor
              rcases mem_append.mp member with old | new
              · rcases tracked source old next successor with found | found
                · exact .inl (mem_append_left _ found)
                · rcases mem_cons.mp found with rfl | found
                  · exact .inl (by simp)
                  · exact .inr (mem_append_right _ found)
              · rw [mem_singleton.mp new] at successor
                exact .inr (by simp [successor]))
        refine ⟨fun other member => kept other (mem_append_left _ member), ?_, closed⟩
        intro other member
        rcases mem_cons.mp member with rfl | member
        · exact kept other (by simp)
        · exact rest other (mem_append_right _ member)

variable {items : List α} (outside : ∀ item ∉ items, successors item = []) (start : α)

include outside

/-- The start is visited. -/
theorem start_mem_exploreAll : start ∈ exploreAll successors items start := by
  obtain ⟨-, stack, -⟩ := explore_closed successors outside
    (1 + pendingPushes successors items []) [start] [] (by simp) (by simp [Tracked])
  exact stack start (by simp)

/-- The visited items are closed under successors. -/
theorem successor_mem_exploreAll {item next : α}
    (member : item ∈ exploreAll successors items start) (successor : next ∈ successors item) :
    next ∈ exploreAll successors items start := by
  obtain ⟨-, -, closed⟩ := explore_closed successors outside
    (1 + pendingPushes successors items []) [start] [] (by simp) (by simp [Tracked])
  exact closed item member next successor

end Explore

section Folds

variable {α β : Type*} {step : β → α → β} {R : β → β → Prop}

section

variable (refl : ∀ b, R b b) (trans : ∀ {a b c}, R a b → R b c → R a c)
  (steps : ∀ b a, R b (step b a))

include refl trans steps

/-- A fold whose steps follow a preorder follows it as a whole. -/
theorem foldl_grows (items : List α) (start : β) : R start (items.foldl step start) := by
  induction items generalizing start with
  | nil => exact refl start
  | cons item items ih => exact trans (steps start item) (ih (step start item))

/-- A fold passes through the step of each of its items. -/
theorem foldl_through {items : List α} {item : α} (member : item ∈ items)
    (start : β) : ∃ before, R start before ∧ R (step before item) (items.foldl step start) := by
  induction items generalizing start with
  | nil => simp at member
  | cons head items ih =>
    rcases mem_cons.mp member with rfl | member
    · exact ⟨start, refl start, foldl_grows refl trans steps items _⟩
    · obtain ⟨before, reached, after⟩ := ih member (step start head)
      exact ⟨before, trans (steps start head) reached, after⟩

end

end Folds

section Saturation

variable {ι : Type*} {grow : Finset ι → Finset ι}

/-- A growing set inside a universe of `n` elements is fixed after `n` rounds. -/
theorem iterate_isFixedPt (space : Finset ι) (inflationary : ∀ s, s ⊆ grow s)
    (bounded : ∀ s, s ⊆ space → grow s ⊆ space) {start : Finset ι}
    (inside : start ⊆ space) : grow (grow^[space.card] start) = grow^[space.card] start := by
  have within : ∀ round, grow^[round] start ⊆ space := by
    intro round
    induction round with
    | zero => exact inside
    | succ round ih =>
      rw [Function.iterate_succ_apply']
      exact bounded _ ih
  have progress : ∀ round, grow (grow^[round] start) = grow^[round] start ∨
      round < (grow (grow^[round] start)).card := by
    intro round
    induction round with
    | zero =>
      by_cases fixed : grow start = start
      · exact .inl fixed
      · have strict := Finset.card_lt_card
          ((inflationary start).ssubset_of_ne (Ne.symm fixed))
        exact .inr (by simpa using Nat.lt_of_le_of_lt (Nat.zero_le _) strict)
    | succ round ih =>
      rw [Function.iterate_succ_apply']
      rcases ih with fixed | large
      · rw [fixed]
        exact .inl fixed
      · by_cases stop : grow (grow (grow^[round] start)) = grow (grow^[round] start)
        · exact .inl stop
        · have strict := Finset.card_lt_card
            ((inflationary (grow (grow^[round] start))).ssubset_of_ne (Ne.symm stop))
          exact .inr (by omega)
  rcases progress space.card with fixed | large
  · exact fixed
  · have most := Finset.card_le_card (bounded _ (within space.card))
    omega

end Saturation

end OpenFga.Worklist
