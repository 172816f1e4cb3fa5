import Mathlib.Data.Finset.Max
import OpenFga.Check.Joins

/-!
# Runs of the scheduler

A round processes the ready queue and joins one read. Every state a run reaches
between rounds is coherent, a coherent state without a result is never stalled,
and each round without a result lowers the cost, so that the rounds a run is
given always suffice.
-/

namespace OpenFga

open Scheduler List

section Progress

variable {target : Target} (schedule : Schedule) {ghost : Ghost} {s : Scheduler}

/-- Without a result there is something to do. -/
theorem Coherent.not_stalled (coherent : Coherent target ghost .idle s)
    (unfinished : s.rootResult = none) : s.ready ≠ [] ∨ s.reads ≠ [] := by
  classical
  by_contra stalled
  rw [not_or, not_not, not_not] at stalled
  have rootRunning : s.stateAt 0 ≠ some .completed := by
    rw [Ne, ← coherent.shape.result, unfinished]
    simp
  have rootActive : Active s 0 := .root ((coherent.links.root coherent.nonempty).mpr rfl)
  -- the last active slot that is not completed would wait for a later one
  let running := (Finset.range s.slots.length).filter fun id =>
    Active s id ∧ s.stateAt id ≠ some .completed
  have member : 0 ∈ running := by
    simp [running, coherent.nonempty, rootActive, rootRunning]
  obtain ⟨last, lastMember, greatest⟩ := running.exists_max_image id ⟨0, member⟩
  simp only [running, Finset.mem_filter, Finset.mem_range] at lastMember
  obtain ⟨inside, active, open'⟩ := lastMember
  obtain ⟨state, found⟩ : ∃ state, s.stateAt last = some state :=
    ⟨_, by rw [stateAt, getElem?_eq_getElem inside]; rfl⟩
  cases state with
  | queued kind =>
    have listed := coherent.queues.ready_iff.mpr ⟨kind, found⟩
    simp [stalled.1] at listed
  | processing => rcases coherent.shape.processing found with same | same <;> cases same
  | reading continuation =>
    have listed := coherent.queues.reads_iff.mpr ⟨continuation, found⟩
    simp [stalled.2] at listed
  | completed => exact open' found
  | waiting reducer =>
    obtain ⟨wellFormed, remaining⟩ := coherent.shape.reducers found (by simp)
    have vacancy : none ∈ reducer.outcomes := by
      rw [wellFormed.remaining] at remaining
      obtain ⟨outcome, present, isNone⟩ := countP_pos_iff.mp (Nat.pos_of_ne_zero remaining)
      rw [Option.isNone_iff_eq_none] at isNone
      exact isNone ▸ present
    obtain ⟨operand, position⟩ := mem_iff_getElem?.mp vacancy
    rcases coherent.shape.served found (by simp) active position with
      ⟨child, up, busy⟩ | ⟨next, impossible, -⟩
    · have above := coherent.links.parent_lt up
      have childMember : child ∈ running := by
        simp only [running, Finset.mem_filter, Finset.mem_range]
        exact ⟨lt_length_of_linkAt up, .step up open' active, busy⟩
      have most := greatest child childMember
      simp only [id] at above most
      omega
    · cases impossible

/-- What processing the ready queue has achieved. -/
structure Drained (target : Target) (s s' : Scheduler) : Prop where
  coherent : ∃ ghost, Coherent target ghost .idle s'
  reads : s.reads.length ≤ s'.reads.length
  cost : s'.cost target.env ≤ s.cost target.env
  idle : s.ready = [] → s' = s

theorem processReady_spec : ∀ (available : Nat) (ghost : Ghost) (s : Scheduler),
    Coherent target ghost .idle s →
    Ensures (processReady target.env schedule available s) (fun s' => Drained target s s' ∧
      (0 < available → s.ready ≠ [] → s'.cost target.env < s.cost target.env ∨ s'.reads ≠ []))
      CheckError.Ends := by
  intro available
  induction available with
  | zero =>
    intro ghost s coherent
    exact ⟨⟨⟨ghost, coherent⟩, le_rfl, le_rfl, fun _ => rfl⟩, by simp⟩
  | succ available ih =>
    intro ghost s coherent
    rw [processReady]
    cases head : s.ready with
    | nil => exact ⟨⟨⟨ghost, coherent⟩, le_rfl, le_rfl, fun _ => rfl⟩, by simp⟩
    | cons work rest =>
      simp only
      refine (process_spec schedule coherent head).bind fun s₁ advances => ?_
      obtain ⟨ghost₁, coherent₁⟩ := advances.coherent
      have less : s₁.cost target.env ≤ s.cost target.env := by
        rcases advances.cost with smaller | ⟨same, -⟩
        · exact smaller.le
        · exact same
      split
      · refine ⟨⟨⟨ghost₁, coherent₁⟩, advances.reads, less, by simp [head]⟩, fun _ _ => ?_⟩
        exact advances.cost.imp_right And.right
      · refine (ih ghost₁ s₁ coherent₁).imp fun s' post => ?_
        obtain ⟨drained, -⟩ := post
        refine ⟨⟨drained.coherent, advances.reads.trans drained.reads,
          drained.cost.trans less, by simp [head]⟩, fun _ _ => ?_⟩
        rcases advances.cost with smaller | ⟨-, outstanding⟩
        · exact .inl (drained.cost.trans_lt smaller)
        · refine .inr fun empty => ?_
          have length := drained.reads
          rw [empty, length_nil, Nat.le_zero, length_eq_zero_iff] at length
          exact outstanding length

/-- The state in which a round joins a read. -/
structure Joining (env : CheckEnvironment) (schedule : Schedule) (s joining : Scheduler) :
    Prop where
  drained : ∃ checked, s.checkContext schedule = .ok checked ∧
    processReady env schedule checked.ready.length checked = .ok joining
  unfinished : joining.rootResult = none
  outstanding : joining.reads ≠ []

/-- All direct reads joined in a round from this state offer their candidates safely. -/
def SafeRound (env : CheckEnvironment) (schedule : Schedule) (s : Scheduler) : Prop :=
  ∀ joining work candidates offered, Joining env schedule s joining →
    DirectOffer env schedule joining work candidates offered →
      CandidatesSafe env schedule offered work .direct candidates

/-- What a round has achieved. -/
structure Rounds (target : Target) (s s' : Scheduler) : Prop where
  coherent : ∃ ghost, Coherent target ghost .idle s'
  cost : s'.rootResult.isSome ∨ s'.cost target.env < s.cost target.env

theorem driveRound_spec (coherent : Coherent target ghost .idle s) :
    Ensures (s.driveRound target.env schedule) (Rounds target s) (fun error => error.IsLimit ∧
      (SafeRound target.env schedule s → error.kind ≠ .internal)) := by
  unfold driveRound
  cases checked : s.checkContext schedule with
  | error error =>
    have ends := (checkContext_spec schedule s).of_error checked
    exact ⟨ends.1, fun _ => ends.2⟩
  | ok s₁ =>
    have charges := ((checkContext_spec schedule s).of_ok checked).1
    have coherent₁ := charges.coherent coherent
    have cost₁ : s₁.cost target.env = s.cost target.env := by
      simp only [cost, charges.alike.slots, charges.ready, charges.reads]
    simp only [bind, Except.bind]
    have processed := processReady_spec schedule s₁.ready.length ghost s₁ coherent₁
    cases drained : processReady target.env schedule s₁.ready.length s₁ with
    | error error =>
      have ends := processed.of_error drained
      exact ⟨ends.1, fun _ => ends.2⟩
    | ok s₂ =>
      obtain ⟨done, progress⟩ := processed.of_ok drained
      obtain ⟨ghost₂, coherent₂⟩ := done.coherent
      simp only
      split
      · rename_i finished
        exact ⟨⟨ghost₂, coherent₂⟩, .inl finished⟩
      · rename_i unfinished
        rw [Bool.not_eq_true, Option.isSome_eq_false_iff, Option.isNone_iff_eq_none] at unfinished
        split
        · rename_i noReads
          rw [List.isEmpty_iff] at noReads
          split
          · rename_i noReady
            rw [List.isEmpty_iff] at noReady
            rcases coherent₂.not_stalled unfinished with some | some
            · exact absurd noReady some
            · exact absurd noReads some
          · rename_i ready
            have busy : s₁.ready ≠ [] := by
              intro empty
              rw [done.idle empty, empty] at ready
              simp at ready
            refine ⟨⟨ghost₂, coherent₂⟩, .inr ?_⟩
            rcases progress (length_pos_iff.mpr busy) busy with less | some
            · omega
            · exact absurd noReads some
        · rename_i outstanding
          rw [List.isEmpty_iff] at outstanding
          refine (joinNext_spec schedule coherent₂ outstanding).mono ?_ ?_
          · intro s' joined
            have less := joined.cost
            have most := done.cost
            exact ⟨joined.coherent, .inr (by omega)⟩
          · intro error raised
            refine ⟨raised.1, fun safe => raised.2 fun work candidates offered offers => ?_⟩
            exact safe s₂ work candidates offered ⟨⟨s₁, checked, drained⟩, unfinished,
              outstanding⟩ offers

end Progress

/-- The states a run is in between rounds. -/
inductive Reached (env : CheckEnvironment) (schedule : Schedule) (root : SemanticWork) :
    Scheduler → Prop where
  | start {s : Scheduler} (started : start env schedule root = .ok s) :
      Reached env schedule root s
  | round {s s' : Scheduler} (before : Reached env schedule root s)
      (unfinished : s.rootResult = none) (driven : s.driveRound env schedule = .ok s') :
      Reached env schedule root s'

/-- Every direct read joined in the run offers its candidates safely. -/
def SafeRun (env : CheckEnvironment) (schedule : Schedule) (root : SemanticWork) : Prop :=
  ∀ s, Reached env schedule root s → s.rootResult = none → SafeRound env schedule s

/-- Tests all states a run goes through from one on. -/
def Scheduler.alwaysFrom (env : CheckEnvironment) (schedule : Schedule) (test : Scheduler → Bool) :
    Nat → Scheduler → Bool
  | 0, _ => false
  | fuel + 1, s =>
      test s &&
        match s.rootResult, s.driveRound env schedule with
        | none, .ok s' => alwaysFrom env schedule test fuel s'
        | _, _ => true

/-- A test that succeeds along a run holds of all states the run reaches. -/
theorem reached_of_alwaysFrom {env : CheckEnvironment} {schedule : Schedule} {root : SemanticWork}
    {test : Scheduler → Bool} {fuel : Nat}
    (always : ∀ s, start env schedule root = .ok s →
      alwaysFrom env schedule test fuel s = true) {s : Scheduler}
    (reached : Reached env schedule root s) : test s = true := by
  have onwards : ∃ fuel, alwaysFrom env schedule test fuel s = true := by
    induction reached with
    | start started => exact ⟨fuel, always _ started⟩
    | @round s s' _ unfinished driven ih =>
      obtain ⟨fuel, holds⟩ := ih
      cases fuel with
      | zero => cases holds
      | succ fuel =>
        simp only [alwaysFrom, unfinished, driven, Bool.and_eq_true] at holds
        exact ⟨fuel, holds.2⟩
  obtain ⟨fuel, holds⟩ := onwards
  cases fuel with
  | zero => cases holds
  | succ fuel =>
    simp only [alwaysFrom, Bool.and_eq_true] at holds
    exact holds.1

/-- The key a piece of semantic work is about. -/
def SemanticWork.key (work : SemanticWork) : SemanticKey :=
  ⟨work.object, work.relation, work.subject⟩

section Runs

variable (target : Target) (schedule : Schedule) {root : SemanticWork}

section

variable (key : target.root = root.key) (path : root.path = ∅)
  (valid : target.env.model.WorkValid (.semantic root))

include key path valid

theorem start_spec :
    Ensures (start target.env schedule root)
      (fun s => (∃ ghost, Coherent target ghost .idle s) ∧
        s.cost target.env + 2 ≤ roundBound target.env) CheckError.Ends := by
  unfold start
  rcases trySchedule_cases schedule target.env .new (.semantic root) none with
    ⟨s, refused, -, -⟩ | ⟨s, pushed, dispatches⟩
  · rw [refused]
    exact (show CheckError.dispatchExceeded.Ends by decide)
  · rw [pushed]
    have slots : s.slots = [⟨none, none, .queued (.semantic root)⟩] := dispatches.appends
    have state : ∀ id, s.stateAt id = if id = 0 then some (.queued (.semantic root)) else none := by
      intro id
      rw [dispatches.appends.stateAt]
      rfl
    have link : ∀ id, s.linkAt id = none := by
      intro id
      rw [dispatches.appends.linkAt]
      split <;> rfl
    have result : s.rootResult = none := dispatches.rootResult
    have ready : s.ready = [0] := dispatches.ready
    have reads : s.reads = [] := dispatches.reads
    have only : ∀ {id state'}, s.stateAt id = some state' →
        id = 0 ∧ state' = .queued (.semantic root) := by
      intro id state' found
      rw [state] at found
      split at found <;> cases found
      exact ⟨‹_›, rfl⟩
    have positive := target.env.budget.dispatches.positive
    refine ⟨⟨⟨fun _ => target.semantic target.root ∅, fun _ => []⟩, ?_⟩, ?_⟩
    · refine ⟨by simp [slots], ⟨?_, ?_, ?_⟩, ⟨?_, ?_, ?_, ?_, ?_, ?_⟩,
        ⟨?_, ?_, ?_, ?_, rfl, ?_, ?_⟩, ⟨?_, ?_, ?_, ?_, ?_⟩, ?_, ?_⟩
      · intro id inside
        rw [slots, length_singleton] at inside
        simp only [link, true_iff]
        omega
      · intro id up found
        simp [link] at found
      · intro id other up found
        simp [link] at found
      · intro id up found
        simp [link] at found
      · intro id up reducer found
        simp [link] at found
      · intro id reducer found
        cases (only found).2
      · intro id reducer operand found
        cases (only found).2
      · intro id found
        cases (only found).2
      · simp [result, state]
      · intro id state' found
        obtain ⟨-, rfl⟩ := only found
        refine ⟨valid, ?_⟩
        simp only [Target.work, key, SemanticWork.key, path]
      · intro id up found
        simp [link] at found
      · intro id memoKey found
        rw [dispatches.appends.memoKeyAt] at found
        split at found <;> cases found
      · rw [dispatches.memo]
        simp [new]
      · intro outcome found
        simp [result] at found
      · rw [dispatches.produced]
        simp [new]
      · simp [ready]
      · intro id
        rw [ready, mem_singleton]
        constructor
        · rintro rfl
          exact ⟨.semantic root, by simp [state]⟩
        · rintro ⟨kind, found⟩
          exact (only found).1
      · simp [reads]
      · intro id
        rw [reads]
        constructor
        · intro member
          simp at member
        · rintro ⟨continuation, found⟩
          cases (only found).2
      · intro read continuation member
        simp [reads] at member
      · rw [slots, dispatches.dispatches]
        simp
      · rw [slots]
        exact positive
    · simp only [cost, roundBound, slots, ready, reads, length_singleton,
        length_nil]
      have : 1 ≤ target.env.budget.maximumDispatches := positive
      omega

/-- Every state of a run is coherent. -/
theorem reached_coherent {s : Scheduler}
    (reached : Reached target.env schedule root s) : ∃ ghost, Coherent target ghost .idle s := by
  induction reached with
  | start started => exact ((start_spec target schedule key path valid).of_ok started).1
  | round _ _ driven ih =>
    obtain ⟨ghost, coherent⟩ := ih
    exact ((driveRound_spec schedule coherent).of_ok driven).coherent

end

/-- How a run ends: with the result of a state it reached, or with a limit. -/
inductive RunEnds (env : CheckEnvironment) (schedule : Schedule) (root : SemanticWork) :
    Evaluation → Prop where
  | finished {s : Scheduler} {outcome : Evaluation} (reached : Reached env schedule root s)
      (result : s.rootResult = some outcome) : RunEnds env schedule root outcome
  | limited {error : CheckError} (limit : error.IsLimit)
      (safe : SafeRun env schedule root → error.kind ≠ .internal) :
      RunEnds env schedule root (.error error)

section

variable (key : target.root = root.key) (path : root.path = ∅)
  (valid : target.env.model.WorkValid (.semantic root))

include key path valid

theorem driveLoop_ends : ∀ (fuel : Nat) (s : Scheduler),
    Reached target.env schedule root s →
    (s.rootResult.isSome ∧ 0 < fuel ∨ s.cost target.env + 2 ≤ fuel) →
    RunEnds target.env schedule root (driveLoop target.env schedule fuel s) := by
  intro fuel
  induction fuel with
  | zero =>
    intro s _ enough
    omega
  | succ fuel ih =>
    intro s reached enough
    rw [driveLoop]
    cases finished : s.rootResult with
    | some outcome => exact .finished reached finished
    | none =>
      obtain ⟨ghost, coherent⟩ := reached_coherent target schedule key path valid reached
      have round := driveRound_spec schedule coherent
      rw [finished] at enough
      simp only [bind, Except.bind]
      cases driven : s.driveRound target.env schedule with
      | error error =>
        obtain ⟨limit, safe⟩ := round.of_error driven
        exact .limited limit fun safeRun => safe (safeRun s reached finished)
      | ok s' =>
        have rounds := round.of_ok driven
        refine ih s' (.round reached finished driven) ?_
        rcases rounds.cost with done | less
        · refine .inl ⟨done, ?_⟩
          simp at enough
          omega
        · refine .inr ?_
          simp at enough
          omega

/-- A run never exhausts its rounds. -/
theorem drive_ends : RunEnds target.env schedule root (drive target.env schedule root) := by
  have started := start_spec target schedule key path valid
  unfold drive
  cases result : start target.env schedule root with
  | error error =>
    have ends := started.of_error result
    exact .limited ends.1 fun _ => ends.2
  | ok s =>
    exact driveLoop_ends target schedule key path valid _ s (.start result)
      (.inr (started.of_ok result).2)

end

end Runs

end OpenFga
