import OpenFga.Domain.Limits
import OpenFga.Lib.CompareExchange

/-!
# Request admission

Requests are admitted by counters of fixed windows of time. A counter shares one word with the
number of its window: the number is above, the count below. Every attempt reads the clock first
and then updates the word of its slot in a loop of compare-and-exchange. A thread may be delayed
in between, so that the attempts on a slot come in any order of their windows.

Slots do not share anything, and the hash that chooses a slot does not matter: what follows is
about one slot and every run of the attempts on it.
-/

namespace OpenFga.Transport

/-- A positive number of 32 bits. -/
abbrev NonZeroU32 := Limit (2 ^ 32 - 1)

/-- The rates, and the duration of a window in nanoseconds. -/
structure AdmissionPolicy where
  window : Nat
  authenticationAttempts : NonZeroU32
  authenticationFailures : NonZeroU32
  globalAuthenticationAttempts : NonZeroU32
  globalAuthenticationFailures : NonZeroU32
  administration : NonZeroU32
  reads : NonZeroU32
  writes : NonZeroU32
  checks : NonZeroU32
  enumeration : NonZeroU32

def nanosPerSecond : Nat := 1000000000

def maximumWindow : Nat := 3600 * nanosPerSecond

def maximumRate : Nat := 1000000

namespace AdmissionPolicy

variable (policy : AdmissionPolicy)

def validate : Except String Unit :=
  if policy.window = 0 ∨ maximumWindow < policy.window then .error "admission_window_out_of_range"
  else if [policy.authenticationAttempts, policy.authenticationFailures,
      policy.globalAuthenticationAttempts, policy.globalAuthenticationFailures,
      policy.administration, policy.reads, policy.writes, policy.checks,
      policy.enumeration].any fun limit => decide (maximumRate < limit.get) then
    .error "admission_rate_out_of_range"
  else .ok ()

/-- The window of a clock reading; dividing by zero panics. -/
def windowAt (seconds : Nat) : Option Nat :=
  if policy.window / nanosPerSecond = 0 then none
  else some (seconds / (policy.window / nanosPerSecond))

end AdmissionPolicy

namespace RateSlot

/-- One attempt on a slot: the window it has read from the clock, and the limit it is given. -/
structure Attempt where
  window : Nat
  limit : NonZeroU32

def slotWindow (word : Nat) : Nat := word >>> 32

def slotCount (word : Nat) : Nat := word % 2 ^ 32

def nextCount (window observed : Nat) : Nat :=
  if slotWindow observed = window then min (slotCount observed + 1) (2 ^ 64 - 1) else 1

/-- One round of the loop that admits an attempt: the word to exchange for the observed one,
unless the limit of the window is used up. -/
def admitWindow (attempt : Attempt) (observed : Nat) : Option Nat :=
  if slotWindow observed = attempt.window ∧ attempt.limit.get ≤ slotCount observed then none
  else some ((attempt.window <<< 32) % 2 ^ 64 ||| nextCount attempt.window observed)

/-- The word of one slot, and the attempts on it. -/
abbrev World := CompareExchange.World Nat Attempt

/-- How many attempts of a window were admitted. -/
def admittedIn (admitted : List Attempt) (window : Nat) : Nat :=
  admitted.countP fun attempt => attempt.window = window

/-- An exchange does not bring back an older window, and its window has 32 bits. -/
def InOrder (word : Nat) (attempt : Attempt) : Prop :=
  slotWindow word ≤ attempt.window ∧ attempt.window < 2 ^ 32

section Words

variable {window count : Nat}

theorem slotWindow_packed (fits : window < 2 ^ 32) (small : count < 2 ^ 32) :
    slotWindow ((window <<< 32) % 2 ^ 64 ||| count) = window := by
  have whole : (window <<< 32) % 2 ^ 64 = window <<< 32 :=
    Nat.mod_eq_of_lt (by rw [Nat.shiftLeft_eq]; omega)
  rw [slotWindow, whole, ← Nat.shiftLeft_add_eq_or_of_lt small, Nat.shiftRight_eq_div_pow,
    Nat.shiftLeft_eq]
  omega

theorem slotCount_packed (fits : window < 2 ^ 32) (small : count < 2 ^ 32) :
    slotCount ((window <<< 32) % 2 ^ 64 ||| count) = count := by
  have whole : (window <<< 32) % 2 ^ 64 = window <<< 32 :=
    Nat.mod_eq_of_lt (by rw [Nat.shiftLeft_eq]; omega)
  rw [slotCount, whole, ← Nat.shiftLeft_add_eq_or_of_lt small, Nat.shiftLeft_eq]
  omega

end Words

/-- The word counts the admitted attempts of its window, older windows are settled, and no
window has admitted more than a bound on all limits. -/
structure Counts (bound word : Nat) (admitted : List Attempt) : Prop where
  latest : ∀ attempt ∈ admitted, attempt.window ≤ slotWindow word
  counted : admittedIn admitted (slotWindow word) = slotCount word
  bounded : ∀ window, admittedIn admitted window ≤ bound

theorem admittedIn_cons (attempt : Attempt) (admitted : List Attempt) (window : Nat) :
    admittedIn (attempt :: admitted) window =
      admittedIn admitted window + if attempt.window = window then 1 else 0 := by
  simp [admittedIn, List.countP_cons]

theorem Counts.admitWindow {bound word next : Nat} {admitted : List Attempt} {attempt : Attempt}
    (counts : Counts bound word admitted) (ordered : InOrder word attempt)
    (within : attempt.limit.get ≤ bound) (updated : RateSlot.admitWindow attempt word = some next) :
    Counts bound next (attempt :: admitted) := by
  obtain ⟨older, fits⟩ := ordered
  have positive := attempt.limit.positive
  have limited := attempt.limit.bounded
  unfold RateSlot.admitWindow at updated
  split at updated
  · cases updated
  rename_i open'
  cases updated
  -- The count of the new word is that of its window, with this attempt.
  have count : nextCount attempt.window word = admittedIn admitted attempt.window + 1 ∧
      nextCount attempt.window word ≤ attempt.limit.get := by
    unfold nextCount
    by_cases same : slotWindow word = attempt.window
    · have room : slotCount word < attempt.limit.get := by
        by_contra used
        exact open' ⟨same, by omega⟩
      rw [if_pos same, ← same, counts.counted]
      omega
    · have none : admittedIn admitted attempt.window = 0 := by
        refine List.countP_eq_zero.mpr fun other member => ?_
        have := counts.latest other member
        simp only [decide_eq_true_eq]
        omega
      rw [if_neg same, none]
      omega
  have small : nextCount attempt.window word < 2 ^ 32 := by omega
  refine ⟨?_, ?_, fun window => ?_⟩
  · rw [slotWindow_packed fits small]
    refine List.forall_mem_cons.mpr ⟨Nat.le_refl _, fun other member => ?_⟩
    exact Nat.le_trans (counts.latest other member) older
  · rw [slotWindow_packed fits small, slotCount_packed fits small, admittedIn_cons, if_pos rfl,
      count.1]
  · rw [admittedIn_cons]
    by_cases same : attempt.window = window
    · rw [if_pos same, ← same, ← count.1]
      omega
    · rw [if_neg same]
      exact counts.bounded window

end RateSlot

open RateSlot

/-- No attempt panics exactly if a window lasts a second or more. In every run in which no
exchange brings back an older window, and window numbers have 32 bits, each window admits at
most as many attempts as the largest limit. An attempt that has observed the word of its slot is
decided by its next exchange. -/
theorem admission_bounded (policy : AdmissionPolicy) :
    ((∀ seconds, (policy.windowAt seconds).isSome) ↔ nanosPerSecond ≤ policy.window) ∧
    (∀ (bound : Nat) (w : RateSlot.World), Machine.Reaches (CompareExchange.World.step admitWindow)
      (CompareExchange.Allows fun word attempt =>
        InOrder word attempt ∧ attempt.limit.get ≤ bound) (.new 0) w →
      ∀ window, admittedIn w.admitted window ≤ bound) ∧
    ∀ (w : RateSlot.World) thread attempt, w.threads thread = some (attempt, w.cell) →
      ∃ after, w.step admitWindow (.exchange thread) = some after ∧
      after.threads thread = none := by
  refine ⟨?_, ?_, fun w thread attempt => CompareExchange.World.step_exchange admitWindow⟩
  · have zero : policy.window / nanosPerSecond = 0 ↔ policy.window < nanosPerSecond :=
      Nat.div_eq_zero_iff_lt (by decide)
    unfold AdmissionPolicy.windowAt
    by_cases short : policy.window < nanosPerSecond
    · simp only [if_pos (zero.mpr short)]
      exact ⟨fun defined => (nomatch defined 0), fun long => absurd short (Nat.not_lt.mpr long)⟩
    · simp only [if_neg (mt zero.mp short)]
      exact ⟨fun _ => Nat.not_lt.mp short, fun _ _ => rfl⟩
  · intro bound w reached
    have counts : Counts bound w.cell w.admitted := CompareExchange.reaches_invariant reached
      ⟨List.forall_mem_nil _, rfl, fun _ => Nat.zero_le _⟩
      fun _ _ _ _ counts allowed updated => counts.admitWindow allowed.1 allowed.2 updated
    exact counts.bounded

namespace Sample

/-- A policy with a rate of one. -/
def once (window : Nat) : AdmissionPolicy :=
  let one : NonZeroU32 := .of 1
  ⟨window, one, one, one, one, one, one, one, one, one⟩

def attempt (window : Nat) : Attempt := ⟨window, (once 60000000000).checks⟩

/-- Two attempts contend for one window, and another is made in the next. -/
def contending : List (CompareExchange.Action Attempt) :=
  [.load 0 (attempt 3), .load 1 (attempt 3), .exchange 0, .exchange 1, .exchange 1,
    .load 2 (attempt 4), .exchange 2]

/-- An exchange is in order for what was observed, with the limit one. -/
def inOrder (w : RateSlot.World) : CompareExchange.Action Attempt → Bool
  | .exchange thread => (w.threads thread).all fun (attempt, observed) =>
      decide ((slotWindow observed ≤ attempt.window ∧ attempt.window < 2 ^ 32) ∧
        attempt.limit.get ≤ 1)
  | .load _ _ | .miss _ => true

/-- Three attempts with the limit one. The last carries the window of the first. -/
def delayed : List (CompareExchange.Action Attempt) :=
  [.load 0 (attempt 0), .exchange 0, .load 1 (attempt 1), .exchange 1, .load 2 (attempt 0),
    .exchange 2]

end Sample

open Transport.Sample in
/-- One of the two attempts is refused after it has missed an exchange. -/
theorem admission_bounded_contending :
    let w := Machine.final (CompareExchange.World.step admitWindow) inOrder (.new 0) contending
    w.admitted.map Attempt.window = [4, 3] ∧ ∀ window, admittedIn w.admitted window ≤ 1 := by
  refine ⟨by decide, (admission_bounded (once 60000000000)).2.1 1 _ ?_⟩
  refine Machine.reaches_final inOrder ?_ contending (by decide)
  rintro w _ passed thread call rfl present
  rw [inOrder, present] at passed
  rw [Option.all_some, decide_eq_true_eq] at passed
  exact passed

/-- A window of half a second is valid, but an attempt panics. With windows of a minute, two
attempts read the clock in one window and another in the next; if one of the first two is
delayed until the last has been admitted, their window admits both, though the limit is one. -/
theorem half_second_panics_delayed_admitted :
    ((Sample.once 500000000).validate = .ok () ∧ (Sample.once 500000000).windowAt 0 = none) ∧
    (Sample.once 60000000000).validate = .ok () ∧
    (Sample.once 60000000000).windowAt 30 = some 0 ∧
    (Sample.once 60000000000).windowAt 60 = some 1 ∧
    ∃ w : RateSlot.World, Machine.Reaches (CompareExchange.World.step admitWindow) (fun _ _ => True)
      (.new 0) w ∧ admittedIn w.admitted 0 = 2 ∧ ∀ attempt ∈ w.admitted, attempt.limit.get = 1 :=
  ⟨⟨rfl, rfl⟩, rfl, rfl, rfl, _, Machine.reaches_final_any Sample.delayed rfl, by decide, by decide⟩

end OpenFga.Transport
