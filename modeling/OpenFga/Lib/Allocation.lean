import Mathlib.Algebra.Order.Ring.Int

/-!
# Growing identifiers

An allocator is called again and again. A call that fails gives out nothing, though it may change
the allocator. If a number separates what an allocator has given out from what it may still give
out, and each call keeps it so, then what it gives out over all calls grows.
-/

namespace OpenFga.Allocation

variable {σ ι ε : Type} (call : σ → ι → Except ε (List Nat) × σ)

/-- What the calls give out, in order. -/
def given : σ → List ι → List Nat
  | _, [] => []
  | s, input :: inputs => (call s input).1.toOption.getD [] ++ given (call s input).2 inputs

/-- Identifiers that grow between two numbers. -/
structure Grows (low high : Nat) (ids : List Nat) : Prop where
  sorted : ids.Pairwise (· < ·)
  between : ∀ id ∈ ids, low ≤ id ∧ id < high
  ordered : low ≤ high

theorem grows_nil {low high : Nat} (ordered : low ≤ high) : Grows low high [] :=
  ⟨.nil, List.forall_mem_nil _, ordered⟩

theorem grows_singleton {low id : Nat} (beyond : low ≤ id) : Grows low (id + 1) [id] :=
  ⟨List.pairwise_singleton _ _, by simpa using beyond, Nat.le_succ_of_le beyond⟩

variable {call}

theorem given_grows (inv : σ → Prop) (floor : σ → Nat)
    (step : ∀ s input, inv s → inv (call s input).2 ∧
    Grows (floor s) (floor (call s input).2) ((call s input).1.toOption.getD [])) :
    ∀ (inputs : List ι) (s : σ), inv s →
      (given call s inputs).Pairwise (· < ·) ∧ ∀ id ∈ given call s inputs, floor s ≤ id
  | [], _, _ => ⟨.nil, List.forall_mem_nil _⟩
  | input :: inputs, s, holds => by
    obtain ⟨next, first⟩ := step s input holds
    obtain ⟨sorted, above⟩ := given_grows inv floor step inputs _ next
    refine ⟨List.pairwise_append.mpr ⟨first.sorted, sorted, fun id member later rest => ?_⟩,
      List.forall_mem_append.mpr ⟨fun id member => (first.between id member).1,
      fun id member => ?_⟩⟩
    · exact Nat.lt_of_lt_of_le (first.between id member).2 (above later rest)
    · exact Nat.le_trans first.ordered (above id member)

end OpenFga.Allocation
