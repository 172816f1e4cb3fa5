import OpenFga.Lib.Machine

/-!
# Loops of compare-and-exchange

A cell is shared by threads that each load it and then try to replace the value they observed
by an updated one. An exchange succeeds only if the cell still has the observed value; one that
misses, or fails for no reason, observes the cell again. A call whose update is refused ends.

What every successful exchange keeps, taken one after the other, holds of the cell and of the
calls that succeeded, whatever the interleaving.
-/

namespace OpenFga.CompareExchange

variable {σ κ : Type}

/-- The cell, the calls in progress with the values they observed, and the calls whose exchange
succeeded, latest first. -/
structure World (σ κ : Type) where
  cell : σ
  threads : Nat → Option (κ × σ)
  admitted : List κ

def World.new (cell : σ) : World σ κ := ⟨cell, fun _ => none, []⟩

/-- A thread reads the cell, exchanges it or fails to. -/
inductive Action (κ : Type) where
  | load (thread : Nat) (call : κ)
  | exchange (thread : Nat)
  | miss (thread : Nat)

variable [DecidableEq σ] (update : κ → σ → Option σ)

namespace World

def setThread (w : World σ κ) (thread : Nat) (state : Option (κ × σ)) : World σ κ :=
  { w with threads := Function.update w.threads thread state }

def step (w : World σ κ) : Action κ → Option (World σ κ)
  | .load thread call =>
      match w.threads thread with
      | none => some (w.setThread thread (some (call, w.cell)))
      | some _ => none
  | .exchange thread =>
      (w.threads thread).map fun (call, observed) =>
        match update call observed with
        | none => w.setThread thread none
        | some next =>
            if w.cell = observed then
              { w.setThread thread none with cell := next, admitted := call :: w.admitted }
            else w.setThread thread (some (call, w.cell))
  | .miss thread =>
      (w.threads thread).bind fun (call, observed) =>
        (update call observed).map fun _ => w.setThread thread (some (call, w.cell))

end World

/-- A call that has observed the cell is decided by its next exchange. -/
theorem World.step_exchange {w : World σ κ} {thread : Nat} {call : κ}
    (observed : w.threads thread = some (call, w.cell)) :
    ∃ after, w.step update (.exchange thread) = some after ∧ after.threads thread = none := by
  simp only [step, observed, Option.map_some, if_true]
  refine ⟨_, rfl, ?_⟩
  cases update call w.cell with
  | none | some => exact Function.update_self ..

/-- Successful exchanges meet a condition on the cell and the call. -/
def Allows (allowed : σ → κ → Prop) (w : World σ κ) (action : Action κ) : Prop :=
  ∀ thread call, action = .exchange thread → w.threads thread = some (call, w.cell) →
    allowed w.cell call

variable {update} {allowed : σ → κ → Prop} {inv : σ → List κ → Prop}

theorem step_keeps {w after : World σ κ} {action : Action κ}
    (kept : ∀ cell admitted call next, inv cell admitted → allowed cell call →
      update call cell = some next → inv next (call :: admitted))
    (holds : inv w.cell w.admitted) (allows : Allows allowed w action)
    (moved : w.step update action = some after) : inv after.cell after.admitted := by
  cases action with
  | load thread call =>
    simp only [World.step] at moved
    split at moved
    · cases moved
      exact holds
    · cases moved
  | miss thread =>
    obtain ⟨_, _, tried⟩ := Option.bind_eq_some_iff.mp moved
    obtain ⟨_, _, rfl⟩ := Option.map_eq_some_iff.mp tried
    exact holds
  | exchange thread =>
    obtain ⟨⟨call, observed⟩, present, rfl⟩ := Option.map_eq_some_iff.mp moved
    dsimp only
    split
    · exact holds
    · rename_i next updated
      split
      · rename_i same
        subst same
        exact kept _ _ call next holds (allows thread call rfl present) updated
      · exact holds

/-- An invariant of the successful exchanges holds in every interleaving. -/
theorem reaches_invariant {initial : σ} {w : World σ κ}
    (reached : Machine.Reaches (World.step update) (Allows allowed) (World.new initial) w)
    (start : inv initial [])
    (kept : ∀ cell admitted call next, inv cell admitted → allowed cell call →
      update call cell = some next → inv next (call :: admitted)) : inv w.cell w.admitted :=
  reached.invariant (fun w => inv w.cell w.admitted)
    (fun _ _ _ holds allows moved => step_keeps kept holds allows moved) start

end OpenFga.CompareExchange
