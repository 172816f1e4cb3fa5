import Mathlib.Data.List.Perm.Basic

/-!
# Sets of running tasks

Tasks that run at once finish in any order. `joinNext` takes out the task that the
surroundings let finish next; what the others do is left open. Since some task is taken
whenever one is running, a set that is only joined from runs empty.
-/

namespace OpenFga.JoinSet

variable {α : Type}

/-- Takes out a finished task. -/
def joinNext (tasks : List α) (choice : Nat) : Option (α × List α) :=
  let position := choice % tasks.length
  tasks[position]?.map fun task => (task, tasks.eraseIdx position)

theorem joinNext_eq_none {tasks : List α} {choice : Nat}
    (idle : joinNext tasks choice = none) : tasks = [] := by
  rw [joinNext, Option.map_eq_none_iff, List.getElem?_eq_none_iff] at idle
  by_contra running
  have positive := List.length_pos_iff.mpr running
  exact absurd (Nat.mod_lt choice positive) (Nat.not_lt.mpr idle)

/-- The task was running, and the others still are. -/
theorem joinNext_perm {tasks rest : List α} {task : α} {choice : Nat}
    (joined : joinNext tasks choice = some (task, rest)) : tasks.Perm (task :: rest) := by
  obtain ⟨taken, found, pair⟩ := Option.map_eq_some_iff.mp joined
  cases pair
  obtain ⟨bound, rfl⟩ := List.getElem?_eq_some_iff.mp found
  exact (List.getElem_cons_eraseIdx_perm bound).symm

end OpenFga.JoinSet
