import Mathlib.Algebra.Order.Ring.Int

/-!
# Machines with partial steps

A machine takes an action in a state and either moves or refuses. `Reaches` collects
the states that actions meeting a condition lead to, so that a safety result can be
stated for every run whose steps meet it. An invariant is proved by its step alone.
-/

namespace OpenFga.Machine

variable {σ α : Type} (step : σ → α → Option σ)

/-- Steps that each meet a condition lead from one state to another. -/
inductive Reaches (meets : σ → α → Prop) (s : σ) : σ → Prop where
  | refl : Reaches meets s s
  | tail {t u : σ} {action : α} (before : Reaches meets s t) (met : meets t action)
      (moved : step t action = some u) : Reaches meets s u

/-- Takes the actions as long as each passes a check. -/
def runChecked (check : σ → α → Bool) (s : σ) (actions : List α) : Option σ :=
  actions.foldlM (fun t action => if check t action then step t action else none) s

/-- Where the actions lead, or the state itself if one of them is refused. -/
def final (check : σ → α → Bool) (s : σ) (actions : List α) : σ :=
  (runChecked step check s actions).getD s

variable {step} {meets meets' : σ → α → Prop} {s t u : σ}

theorem Reaches.trans (first : Reaches step meets s t) (second : Reaches step meets t u) :
    Reaches step meets s u := by
  induction second with
  | refl => exact first
  | tail _ met moved ih => exact .tail ih met moved

theorem Reaches.mono (weaker : ∀ t action, meets t action → meets' t action)
    (reached : Reaches step meets s t) : Reaches step meets' s t := by
  induction reached with
  | refl => exact .refl
  | tail _ met moved ih => exact .tail ih (weaker _ _ met) moved

/-- What every step keeps holds of every state reached. -/
theorem Reaches.invariant (inv : σ → Prop) (reached : Reaches step meets s t)
    (kept : ∀ t action u, inv t → meets t action → step t action = some u → inv u)
    (start : inv s) : inv t := by
  induction reached with
  | refl => exact start
  | tail _ met moved ih => exact kept _ _ _ ih met moved

theorem Reaches.head {action : α} (met : meets s action) (moved : step s action = some t)
    (rest : Reaches step meets t u) : Reaches step meets s u :=
  (Reaches.tail .refl met moved).trans rest

section

variable (check : σ → α → Bool) (inv : σ → Prop)
  (kept : ∀ t action u, inv t → check t action = true → step t action = some u → inv u)
  (sound : ∀ t action, inv t → check t action = true → meets t action)

include kept sound

/-- A checked run reaches its last state by steps that meet the condition, if the check and
what the steps keep imply it. -/
theorem reaches_of_runChecked :
    ∀ (actions : List α) {s : σ}, inv s → runChecked step check s actions = some t →
      Reaches step meets s t := by
  intro actions
  induction actions with
  | nil =>
    intro s _ ended
    cases ended
    exact .refl
  | cons action actions ih =>
    intro s holds ended
    rw [runChecked, List.foldlM_cons] at ended
    split at ended
    · rename_i passed
      obtain ⟨next, moved, rest⟩ := Option.bind_eq_some_iff.mp ended
      exact .head (sound s action holds passed) moved
        (ih (kept s action next holds passed moved) rest)
    · cases ended

theorem reaches_final_of (start : inv s) (actions : List α)
    (taken : (runChecked step check s actions).isSome = true) :
    Reaches step meets s (final step check s actions) := by
  obtain ⟨t, ended⟩ := Option.isSome_iff_exists.mp taken
  have last : final step check s actions = t := by
    rw [final, ended, Option.getD_some]
  rw [last]
  exact reaches_of_runChecked check inv kept sound actions start ended

end

theorem reaches_final (check : σ → α → Bool)
    (sound : ∀ t action, check t action = true → meets t action) (actions : List α)
    (taken : (runChecked step check s actions).isSome = true) :
    Reaches step meets s (final step check s actions) :=
  reaches_final_of check (fun _ => True) (fun _ _ _ _ _ _ => trivial)
    (fun t action _ => sound t action) trivial actions taken

/-- Without a condition every run reaches its last state. -/
theorem reaches_final_any (actions : List α)
    (taken : (runChecked step (fun _ _ => true) s actions).isSome = true) :
    Reaches step (fun _ _ => True) s (final step (fun _ _ => true) s actions) :=
  reaches_final _ (fun _ _ _ => trivial) actions taken

end OpenFga.Machine
