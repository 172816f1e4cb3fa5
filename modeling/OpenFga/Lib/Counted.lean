import OpenFga.Lib.Ensures

/-!
# Computations that count

A computation returns a value or fails, and counts something on its way: the units it is
charged, or how often it looks at a signal. What was counted before a failure stands.
-/

namespace OpenFga

/-- A result together with what was counted until it was there. -/
structure Counted (ε α : Type) where
  result : Except ε α
  count : Nat

namespace Counted

variable {ε α β : Type}

/-- A result that comes without counting. -/
def ofExcept (result : Except ε α) : Counted ε α := ⟨result, 0⟩

def fail (failure : ε) : Counted ε α := ⟨.error failure, 0⟩

def tick (amount : Nat) : Counted ε Unit := ⟨.ok (), amount⟩

instance : Monad (Counted ε) where
  pure value := ⟨.ok value, 0⟩
  bind first next :=
    match first.result with
    | .ok value => ⟨(next value).result, first.count + (next value).count⟩
    | .error failure => ⟨.error failure, first.count⟩

end Counted

end OpenFga
