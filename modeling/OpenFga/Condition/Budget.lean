import OpenFga.Condition.Machine

/-!
# Limits of a run

A run under a smaller budget and a stricter signal is the same run, cut short: every part of
a step either does what it does under the wider limits, or fails because the signal was
raised, or fails at a point where the wider run has spent more than the smaller budget.
-/

namespace OpenFga.Condition

open Condition.Sample Condition.Action Setting Condition.Machine

/-- The same evaluation under other limits. -/
def Setting.limited (setting : Setting) (budget : Nat) (signal : Nat → Bool) : Setting :=
  { setting with maximumCost := budget, signal }

/-- How a result is cut short by a budget and a signal. -/
inductive CutShort {α : Type} (budget : Nat) (signal : Nat → Bool)
    (wide : Except EvaluationError α × Machine) : Except EvaluationError α × Machine → Prop where
  | cancelled (m : Machine) (raised : ∃ time, signal time = true) :
      CutShort budget signal wide (.error cancelled, m)
  | exceeded (m : Machine) (spent : budget < wide.2.cost) :
      CutShort budget signal wide (.error costExceeded, m)

/-- Under tighter limits an action does the same and stays within the budget, or it is cut
short. Cost is never given back. -/
structure Follows {α : Type} (budget : Nat) (signal : Nat → Bool) (narrow wide : Action α) :
    Prop where
  grows : ∀ m, m.cost ≤ (wide m).2.cost
  agrees : ∀ m, (narrow m = wide m ∧ (m.cost ≤ budget → (wide m).2.cost ≤ budget)) ∨
    CutShort budget signal (wide m) (narrow m)

/-- No limit reaches the action. -/
abbrev Free {α : Type} (budget : Nat) (signal : Nat → Bool) (action : Action α) : Prop :=
  Follows budget signal action action

/-- The action under the tighter limits follows itself under the wider ones. -/
abbrev Narrows {α : Type} (budget wideBudget : Nat) (signal wideSignal : Nat → Bool)
    (setting : Setting) (action : Setting → Action α) : Prop :=
  Follows budget signal (action (setting.limited budget signal))
    (action (setting.limited wideBudget wideSignal))

section Actions

variable {α β : Type} {budget : Nat} {signal : Nat → Bool}

theorem Follows.same {action : Action α} (keeps : ∀ m, (action m).2.cost = m.cost) :
    Free budget signal action :=
  ⟨fun m => (keeps m).ge, fun m => .inl ⟨rfl, fun within => (keeps m).trans_le within⟩⟩

theorem Follows.bind {narrow wide : Action α} {next wideNext : α → Action β}
    (first : Follows budget signal narrow wide)
    (rest : ∀ value, Follows budget signal (next value) (wideNext value)) :
    Follows budget signal (narrow >>= next) (wide >>= wideNext) := by
  have onward : ∀ m, (wide m).2.cost ≤ ((wide >>= wideNext) m).2.cost := by
    intro m
    simp only [Bind.bind]
    cases wide m with
    | mk result m =>
      cases result with
      | ok value => exact (rest value).grows m
      | error error => exact le_rfl
  refine ⟨fun m => (first.grows m).trans (onward m), fun m => ?_⟩
  rcases first.agrees m with ⟨same, within⟩ | cut
  · simp only [Bind.bind, same]
    cases returned : wide m with
    | mk result m' =>
      rw [returned] at within
      cases result with
      | ok value =>
        rcases (rest value).agrees m' with ⟨same, within'⟩ | cut
        · exact .inl ⟨same, fun bounded => within' (within bounded)⟩
        · exact .inr cut
      | error error => exact .inl ⟨rfl, within⟩
  · have further := onward m
    refine .inr ?_
    simp only [Bind.bind] at further ⊢
    revert cut
    generalize narrow m = stopped
    intro cut
    cases cut with
    | cancelled m' raised => exact .cancelled m' raised
    | exceeded m' spent => exact .exceeded m' (spent.trans_le further)

/-- Both runs take the same branch. -/
theorem Follows.ite {condition : Prop} {first second : Decidable condition}
    {narrow wide other wideOther : Action α}
    (yes : Follows budget signal narrow wide) (no : Follows budget signal other wideOther) :
    Follows budget signal (@ite _ condition first narrow other)
      (@ite _ condition second wide wideOther) := by
  by_cases holds : condition
  · simp only [if_pos holds]
    exact yes
  · simp only [if_neg holds]
    exact no

theorem follows_pure (value : α) : Free budget signal (pure value : Action α) :=
  .same fun _ => rfl

theorem follows_fail (error : EvaluationError) : Free budget signal (fail error : Action α) :=
  .same fun _ => rfl

theorem follows_ofExcept (result : Except EvaluationError α) :
    Free budget signal (ofExcept result) :=
  .same fun _ => rfl

theorem follows_pushFrame (frame : Frame) : Free budget signal (pushFrame frame) :=
  .same fun _ => rfl

theorem follows_pushValue (value : RuntimeValue) : Free budget signal (pushValue value) :=
  .same fun _ => rfl

theorem follows_popValue : Free budget signal popValue := by
  refine .same fun m => ?_
  unfold popValue
  split <;> rfl

theorem follows_valueDepth : Free budget signal valueDepth :=
  .same fun _ => rfl

theorem follows_pushScope : Free budget signal pushScope :=
  .same fun _ => rfl

theorem follows_popScope : Free budget signal popScope := by
  refine .same fun m => ?_
  unfold popScope
  split <;> rfl

theorem follows_setLocal (name : String) (value : RuntimeValue) :
    Free budget signal (setLocal name value) := by
  refine .same fun m => ?_
  unfold setLocal
  split <;> rfl

theorem follows_setSecondLocal (name : Option String) (value : Option RuntimeValue) :
    Free budget signal (setSecondLocal name value) := by
  unfold setSecondLocal
  split
  · exact follows_setLocal _ _
  · exact follows_pure ()

theorem follows_readLocal (name : String) : Free budget signal (readLocal name) :=
  .same fun _ => rfl

/-- A frame is pushed and then the node evaluated that it waits for. -/
theorem follows_pushFrames (frame frame' : Frame) :
    Free budget signal (do pushFrame frame; pushFrame frame') :=
  .bind (follows_pushFrame frame) fun _ => follows_pushFrame frame'

end Actions

section Frames

variable {setting : Setting} {budget wideBudget : Nat} {signal wideSignal : Nat → Bool}
  (wider : budget ≤ wideBudget) (calmer : ∀ time, wideSignal time = true → signal time = true)

include calmer in
theorem follows_checkCancellation (times : Nat) : Follows budget signal
    ((setting.limited budget signal).checkCancellation times)
    ((setting.limited wideBudget wideSignal).checkCancellation times) := by
  constructor
  · intro m
    unfold checkCancellation
    split <;> exact le_rfl
  · intro m
    by_cases raised : (List.range times).any (fun later => signal (m.polls + later)) = true
    · rw [(setting.limited budget signal).checkCancellation_of_raised raised]
      obtain ⟨later, _, seen⟩ := List.any_eq_true.mp raised
      exact .inr (.cancelled _ ⟨_, seen⟩)
    · have quiet : ¬ (List.range times).any (fun later => wideSignal (m.polls + later)) = true := by
        intro seen
        obtain ⟨later, inside, seen⟩ := List.any_eq_true.mp seen
        exact raised (List.any_eq_true.mpr ⟨later, inside, calmer _ seen⟩)
      rw [(setting.limited budget signal).checkCancellation_of_quiet raised,
        (setting.limited wideBudget wideSignal).checkCancellation_of_quiet quiet]
      exact .inl ⟨rfl, id⟩

include wider in
theorem follows_addCost (units : Nat) : Follows budget signal
    ((setting.limited budget signal).addCost units)
    ((setting.limited wideBudget wideSignal).addCost units) := by
  constructor
  · intro m
    unfold addCost
    split <;> exact Nat.le_add_right _ _
  · intro m
    by_cases exceeded : budget < m.cost + units
    · rw [(setting.limited budget signal).addCost_of_exceeded exceeded]
      refine .inr (.exceeded _ ?_)
      unfold addCost
      split <;> exact exceeded
    · have within := Nat.not_lt.mp exceeded
      rw [(setting.limited budget signal).addCost_of_within within,
        (setting.limited wideBudget wideSignal).addCost_of_within (within.trans wider)]
      exact .inl ⟨rfl, fun _ => within⟩

include wider calmer in
theorem follows_chargeUnits (units : Nat) :
    Narrows budget wideBudget signal wideSignal setting (·.chargeUnits units) :=
  .bind (follows_checkCancellation calmer 1) fun _ => follows_addCost wider units

include calmer in
theorem follows_polling {α : Type} (computation : Counted EvaluationError α) :
    Narrows budget wideBudget signal wideSignal setting (·.polling computation) :=
  .bind (follows_checkCancellation calmer computation.count) fun _ => follows_ofExcept _

include wider calmer in
theorem follows_evalNode (id : NodeId) :
    Narrows budget wideBudget signal wideSignal setting (·.evalNode id) := by
  refine .bind (follows_checkCancellation calmer 1) fun _ => .bind (follows_ofExcept _) fun node =>
    ?_
  cases node.kind with
  | literal value => exact .bind (follows_ofExcept _) fun _ => follows_pushValue value
  | parameter name =>
    exact .bind (follows_chargeUnits wider calmer 1) fun _ =>
      .bind (follows_ofExcept _) follows_pushValue
  | «local» name =>
    exact .bind (follows_chargeUnits wider calmer 1) fun _ =>
      .bind (follows_readLocal name) follows_pushValue
  | list | map | call => exact follows_pushFrame _
  | select | unary | conditional | comprehension => exact follows_pushFrames _ _
  | binary operator left right =>
    exact .bind (follows_pushFrame _) fun _ => follows_pushFrames _ _
  | logicalAnd | logicalOr => exact .bind follows_valueDepth fun _ => follows_pushFrames _ _

theorem follows_logicalAfterLeft (right : NodeId) (and : Bool) (depth : Nat) :
    Free budget signal (logicalAfterLeft right and depth) := by
  refine .bind follows_popValue fun value => ?_
  cases value with
  | bool value => exact .ite (follows_pushValue _) (follows_pushFrame _)
  | unknown unknown => exact follows_pushFrames _ _
  | _ => exact follows_fail _

theorem follows_logicalAfterUnknown (unknown : Finset ParameterName) (and : Bool) :
    Free budget signal (logicalAfterUnknown unknown and) := by
  refine .bind follows_popValue fun value => ?_
  cases value with
  | bool value => exact .ite (follows_pushValue _) (follows_pushValue _)
  | unknown other => exact follows_pushValue _
  | _ => exact follows_fail _

theorem follows_logicalAfterError (error : EvaluationError) (and : Bool) :
    Free budget signal (logicalAfterError error and) := by
  refine .bind follows_popValue fun value => ?_
  cases value with
  | bool value => exact .ite (follows_pushValue _) (follows_fail _)
  | _ => exact follows_fail _

theorem follows_conditional (truthy falsy : NodeId) :
    Free budget signal (conditional truthy falsy) := by
  refine .bind follows_popValue fun value => ?_
  cases value with
  | bool value => cases value <;> exact follows_pushFrame _
  | unknown unknown => exact follows_pushValue _
  | _ => exact follows_fail _

include wider calmer in
theorem follows_listNext (ids : List NodeId) (index : Nat) (values : List RuntimeValue) :
    Narrows budget wideBudget signal wideSignal setting (·.listNext ids index values) := by
  unfold listNext
  cases ids[index]? with
  | some id => exact .bind (follows_checkCancellation calmer 1) fun _ => follows_pushFrames _ _
  | none => exact .bind (follows_chargeUnits wider calmer 10) fun _ => follows_pushValue _

theorem follows_listAfter (ids : List NodeId) (index : Nat) (values : List RuntimeValue) :
    Narrows budget wideBudget signal wideSignal setting (·.listAfter ids index values) := by
  exact .ite (follows_fail _) (.bind follows_popValue fun _ => follows_pushFrame _)

include wider calmer in
theorem follows_mapNext (ids : List (NodeId × NodeId)) (index : Nat)
    (values : List (String × RuntimeValue)) :
    Narrows budget wideBudget signal wideSignal setting (·.mapNext ids index values) := by
  unfold mapNext
  cases ids[index]? with
  | some id => exact .bind (follows_checkCancellation calmer 1) fun _ => follows_pushFrames _ _
  | none => exact .bind (follows_chargeUnits wider calmer 30) fun _ => follows_pushValue _

theorem follows_mapAfterKey (ids : List (NodeId × NodeId)) (index : Nat)
    (values : List (String × RuntimeValue)) :
    Free budget signal (mapAfterKey ids index values) := by
  refine .bind follows_popValue fun value => ?_
  cases value with
  | string key => exact .bind (follows_ofExcept _) fun _ => follows_pushFrames _ _
  | unknown unknown => exact follows_pushValue _
  | _ => exact follows_fail _

include calmer in
theorem follows_mapAfterValue (ids : List (NodeId × NodeId)) (index : Nat) (key : String)
    (values : List (String × RuntimeValue)) :
    Narrows budget wideBudget signal wideSignal setting (·.mapAfterValue ids index key values) := by
  refine .bind follows_popValue fun value => .bind (follows_polling calmer _) fun _ => ?_
  exact .ite (follows_pushValue value) (.ite (follows_fail _) (follows_pushFrame _))

include wider calmer in
theorem follows_callNext (function : Function) (ids : List NodeId) (target : Bool) (index : Nat)
    (values : List RuntimeValue) :
    Narrows budget wideBudget signal wideSignal setting
      (·.callNext function ids target index values) := by
  unfold callNext
  cases ids[index]? with
  | some id => exact follows_pushFrames _ _
  | none =>
    exact .bind (follows_chargeUnits wider calmer _) fun _ =>
      .bind (follows_ofExcept _) follows_pushValue

theorem follows_comprehensionAfterRange (definition : Comprehension) :
    Free budget signal (comprehensionAfterRange definition) := by
  refine .bind follows_popValue fun range => ?_
  exact .ite (follows_pushValue range) (.bind (follows_ofExcept _) fun _ => follows_pushFrames _ _)

theorem follows_comprehensionResult (state : ComprehensionState) :
    Free budget signal (comprehensionResult state) :=
  .bind (follows_setLocal _ _) fun _ => follows_pushFrame _

include calmer in
theorem follows_comprehensionNext (state : ComprehensionState) :
    Narrows budget wideBudget signal wideSignal setting (·.comprehensionNext state) := by
  unfold comprehensionNext
  cases state.items[state.index]? with
  | none => exact follows_comprehensionResult state
  | some item =>
    exact .bind (follows_checkCancellation calmer 1) fun _ =>
      .bind (follows_setLocal _ _) fun _ => .bind (follows_setSecondLocal _ _) fun _ =>
        .bind (follows_setLocal _ _) fun _ => follows_pushFrames _ _

theorem follows_comprehensionAfterCond (state : ComprehensionState) :
    Free budget signal (comprehensionAfterCond state) := by
  refine .bind follows_popValue fun value => ?_
  cases value with
  | bool value =>
    cases value with
    | true => exact follows_pushFrames _ _
    | false => exact follows_comprehensionResult state
  | unknown unknown => exact follows_pushValue _
  | _ => exact follows_fail _

include wider calmer in
/-- Every frame follows its execution under wider limits. -/
theorem follows_executeFrame (setting : Setting) (frame : Frame) :
    Narrows budget wideBudget signal wideSignal setting (·.executeFrame frame) := by
  cases frame with
  | eval id => exact follows_evalNode wider calmer id
  | unary operator =>
    exact .bind (follows_chargeUnits wider calmer 1) fun _ => .bind follows_popValue fun _ =>
      .bind (follows_ofExcept _) follows_pushValue
  | binary operator =>
    exact .bind follows_popValue fun _ => .bind follows_popValue fun _ =>
      .bind (follows_chargeUnits wider calmer _) fun _ =>
        .bind (follows_polling calmer _) follows_pushValue
  | logicalAfterLeft right and depth => exact follows_logicalAfterLeft right and depth
  | logicalAfterUnknown unknown and depth => exact follows_logicalAfterUnknown unknown and
  | logicalAfterError error and depth => exact follows_logicalAfterError error and
  | conditional truthy falsy => exact follows_conditional truthy falsy
  | select field test =>
    exact .bind (follows_chargeUnits wider calmer 1) fun _ => .bind follows_popValue fun _ =>
      .bind (follows_polling calmer _) follows_pushValue
  | listNext ids index values => exact follows_listNext wider calmer ids index values
  | listAfter ids index values => exact follows_listAfter ids index values
  | mapNext ids index values => exact follows_mapNext wider calmer ids index values
  | mapAfterKey ids index values => exact follows_mapAfterKey ids index values
  | mapAfterValue ids index key values => exact follows_mapAfterValue calmer ids index key values
  | callNext function ids target index values =>
    exact follows_callNext wider calmer function ids target index values
  | callAfter function ids target index values =>
    exact .bind follows_popValue fun _ => follows_pushFrame _
  | comprehensionAfterRange definition => exact follows_comprehensionAfterRange definition
  | comprehensionAfterInit definition items =>
    exact .bind follows_popValue fun _ => .bind follows_pushScope fun _ => follows_pushFrames _ _
  | comprehensionNext state => exact follows_comprehensionNext calmer state
  | comprehensionAfterCond state => exact follows_comprehensionAfterCond state
  | comprehensionAfterStep state => exact .bind follows_popValue fun _ => follows_pushFrame _
  | scopeGuard => exact follows_popScope

end Frames

/-! ## Runs -/

theorem unwind_cost (frames : List Frame) (error : EvaluationError) (m : Machine) :
    (m.unwind error frames).2.cost = m.cost := by
  induction frames generalizing error m with
  | nil => rfl
  | cons frame frames ih =>
    cases frame with
    | scopeGuard =>
      unfold unwind
      split
      · rfl
      · exact ih _ _
    | logicalAfterLeft right and depth => rfl
    | logicalAfterError original and depth => exact ih _ _
    | logicalAfterUnknown unknown and depth => exact ih _ _
    | _ => exact ih _ _

theorem recoverLogicalError_cost (m : Machine) (error : EvaluationError) :
    (m.recoverLogicalError error).2.cost = m.cost := by
  unfold recoverLogicalError
  split
  · exact unwind_cost _ _ _
  · rfl

/-- How a run is cut short; the run under wider limits need not have ended. -/
inductive RunCut (budget : Nat) (signal : Nat → Bool)
    (wide : Option (Except EvaluationError Unit × Machine)) :
    Except EvaluationError Unit × Machine → Prop where
  | cancelled (m : Machine) (raised : ∃ time, signal time = true) :
      RunCut budget signal wide (.error cancelled, m)
  | exceeded (m : Machine) (spent : ∀ ended ∈ wide, budget < ended.2.cost) :
      RunCut budget signal wide (.error costExceeded, m)

section Runs

variable (setting : Setting) {budget wideBudget : Nat} {signal wideSignal : Nat → Bool}

theorem follows_step (wider : budget ≤ wideBudget)
    (calmer : ∀ time, wideSignal time = true → signal time = true) (frame : Frame)
    (frames : List Frame) : Follows budget signal
      (fun m => m.step (setting.limited budget signal) frame frames)
      (fun m => m.step (setting.limited wideBudget wideSignal) frame frames) := by
  have executed := follows_executeFrame wider calmer setting frame
  have kept : ∀ m : Machine, (m.step (setting.limited wideBudget wideSignal) frame frames).2.cost =
      ((setting.limited wideBudget wideSignal).executeFrame frame { m with frames }).2.cost := by
    intro m
    unfold step
    split
    · rename_i returned
      rw [returned]
    · rename_i failed
      rw [failed, recoverLogicalError_cost]
  refine ⟨fun m => (executed.grows { m with frames }).trans (kept m).ge, fun m => ?_⟩
  rcases executed.agrees { m with frames } with ⟨same, within⟩ | cut
  · refine .inl ⟨?_, fun bounded => (kept m).trans_le (within bounded)⟩
    simp only [step, same]
  · refine .inr ?_
    have spent := kept m
    revert cut
    simp only [step]
    generalize (setting.limited budget signal).executeFrame frame { m with frames } = stopped
    intro cut
    cases cut with
    | cancelled m' raised => exact .cancelled m' raised
    | exceeded m' exceeded => exact .exceeded m' (exceeded.trans_eq spent.symm)

theorem run_grows (fuel : Nat) (m : Machine) :
    ∀ ended ∈ m.run setting fuel, m.cost ≤ ended.2.cost := by
  induction fuel generalizing m with
  | zero => exact fun _ ran => nomatch ran
  | succ fuel ih =>
    intro ended ran
    cases popped : m.frames with
    | nil =>
      rw [run_of_nil popped] at ran
      cases ran
      exact le_rfl
    | cons frame frames =>
      rw [run_of_cons popped] at ran
      have grows : m.cost ≤ (m.step setting frame frames).2.cost :=
        (follows_step setting (Nat.le_refl setting.maximumCost)
          (fun time (raised : setting.signal time = true) => raised) frame frames).grows m
      revert ran grows
      cases m.step setting frame frames with
      | mk result m' =>
        intro ran grows
        cases result with
        | ok _ => exact grows.trans (ih m' ended ran)
        | error error =>
          cases ran
          exact grows

/-- A run under tighter limits is the same run within the budget, or it is cut short. -/
theorem run_agrees (wider : budget ≤ wideBudget)
    (calmer : ∀ time, wideSignal time = true → signal time = true) (fuel : Nat) (m : Machine)
    (bounded : m.cost ≤ budget) :
    (m.run (setting.limited budget signal) fuel =
      m.run (setting.limited wideBudget wideSignal) fuel ∧
      ∀ ended ∈ m.run (setting.limited wideBudget wideSignal) fuel, ended.2.cost ≤ budget) ∨
    ∃ stopped, m.run (setting.limited budget signal) fuel = some stopped ∧
      RunCut budget signal (m.run (setting.limited wideBudget wideSignal) fuel) stopped := by
  induction fuel generalizing m with
  | zero => exact .inl ⟨rfl, fun _ ran => nomatch ran⟩
  | succ fuel ih =>
    cases popped : m.frames with
    | nil =>
      rw [run_of_nil popped, run_of_nil popped]
      refine .inl ⟨rfl, ?_⟩
      rintro ended ⟨⟩
      exact bounded
    | cons frame frames =>
      rw [run_of_cons popped, run_of_cons popped]
      rcases (follows_step setting wider calmer frame frames).agrees m with
        ⟨same, within⟩ | cut
      · rw [same]
        cases stepped : m.step (setting.limited wideBudget wideSignal) frame frames with
        | mk result m' =>
          simp only [stepped] at within
          cases result with
          | ok _ => exact ih m' (within bounded)
          | error error =>
            refine .inl ⟨rfl, ?_⟩
            rintro ended ⟨⟩
            exact within bounded
      · revert cut
        generalize m.step (setting.limited budget signal) frame frames = stopped
        intro cut
        cases cut with
        | cancelled m' raised => exact .inr ⟨_, rfl, .cancelled m' raised⟩
        | exceeded m' spent =>
          refine .inr ⟨_, rfl, .exceeded m' fun ended ran => ?_⟩
          -- whatever the wider run does next, it has already spent too much
          revert ran spent
          cases m.step (setting.limited wideBudget wideSignal) frame frames with
          | mk result m'' =>
            intro spent ran
            cases result with
            | ok _ => exact spent.trans_le (run_grows _ fuel m'' ended ran)
            | error error =>
              cases ran
              exact spent

end Runs

/-! ## Evaluations -/

/-- An uncaught error ends the run at once. -/
theorem run_of_uncaught {setting : Setting} {m m' : Machine} {frame : Frame}
    {frames : List Frame} {error : EvaluationError} (popped : m.frames = frame :: frames)
    (failed : setting.executeFrame frame { m with frames } = (.error error, m'))
    (severe : isSuppressible error = false) (fuel : Nat) :
    m.run setting (fuel + 1) = some (.error error, m') := by
  rw [run_of_cons popped]
  simp only [step, failed, recoverLogicalError, severe]
  rfl

theorem outcome_cost {m : Machine} {outcome : ConditionOutcome}
    (concluded : m.outcome = .ok outcome) : outcome.cost = m.cost := by
  unfold Machine.outcome at concluded
  split at concluded
  · cases concluded
    rfl
  · cases concluded
  · cases concluded

section Evaluations

variable (compiled : CompiledCondition) (primitives : Primitives)
  (request tuple : ConditionContext)

/-- The machine after the parameters were prepared. -/
def CompiledCondition.begin : Machine :=
  .start compiled.program.root (prepareParameters primitives compiled request tuple).count

/-- Without a signal the machine runs as soon as the parameters are prepared. -/
theorem evaluate_silent (budget fuel : Nat) :
    compiled.evaluate primitives request tuple budget silent fuel =
      match (prepareParameters primitives compiled request tuple).result with
      | .error error => some (.unstarted error)
      | .ok values => ((compiled.begin primitives request tuple).run
        (compiled.setting primitives values budget silent) fuel).map evaluated := by
  have quiet : ¬ (List.range (prepareParameters primitives compiled request tuple).count).any
      silent = true := by
    simp [silent]
  simp only [CompiledCondition.evaluate, if_neg quiet]
  rfl

variable {compiled primitives request tuple}

/-- A successful evaluation is a run of the machine to its end. -/
theorem run_of_success {outcome : ConditionOutcome} {charged budget fuel : Nat}
    (done : compiled.evaluate primitives request tuple budget silent fuel =
      some ⟨.ok outcome, charged⟩) :
    ∃ values m, (prepareParameters primitives compiled request tuple).result = .ok values ∧
      (compiled.begin primitives request tuple).run
        (compiled.setting primitives values budget silent) fuel = some (.ok (), m) ∧
      m.outcome = .ok outcome ∧ m.cost = outcome.cost := by
  rw [evaluate_silent] at done
  cases prepared : (prepareParameters primitives compiled request tuple).result with
  | error error =>
    rw [prepared] at done
    cases done
  | ok values =>
    rw [prepared] at done
    obtain ⟨⟨result, m⟩, ran, shown⟩ := Option.map_eq_some_iff.mp done
    cases result with
    | ok _ =>
      have concluded : m.outcome = .ok outcome := congrArg Evaluated.result shown
      exact ⟨values, m, rfl, ran, concluded, (outcome_cost concluded).symm⟩
    | error error => cases congrArg Evaluated.result shown

/-- The cost of a successful evaluation is the least budget under which it succeeds. Every
larger budget gives the same outcome at the same cost, and every smaller one is exceeded. A
budget that is exceeded ends the run, whatever is still on the stacks. -/
theorem cost_is_least_budget (compiled : CompiledCondition) (primitives : Primitives)
    (request tuple : ConditionContext) :
    (∀ budget outcome charged,
      compiled.Evaluates primitives request tuple budget silent ⟨.ok outcome, charged⟩ →
        (∀ larger, outcome.cost ≤ larger →
          compiled.Evaluates primitives request tuple larger silent
            ⟨.ok outcome, outcome.cost⟩) ∧
        ∀ smaller, smaller < outcome.cost → ∃ charged,
          compiled.Evaluates primitives request tuple smaller silent
            ⟨.error costExceeded, charged⟩) ∧
    ∀ (setting : Setting) (m m' : Machine) (frame : Frame) (frames : List Frame) (fuel : Nat),
      m.frames = frame :: frames →
      setting.executeFrame frame { m with frames } = (.error costExceeded, m') →
        m.run setting (fuel + 1) = some (.error costExceeded, m') := by
  refine ⟨?_, fun setting m m' frame frames fuel popped failed =>
    run_of_uncaught popped failed rfl fuel⟩
  rintro budget outcome charged ⟨fuel, done⟩
  obtain ⟨values, m, prepared, ran, concluded, spent⟩ := run_of_success done
  have calm : ∀ time, silent time = true → silent time = true := fun _ => id
  -- the evaluation succeeds under every budget that is at least as large
  have succeeds : ∀ wide, budget ≤ wide → (compiled.begin primitives request tuple).run
      (compiled.setting primitives values wide silent) fuel = some (.ok (), m) := by
    intro wide wider
    rcases run_agrees (compiled.setting primitives values budget silent) wider calm fuel
      (compiled.begin primitives request tuple) (Nat.zero_le budget) with ⟨same, _⟩ | ⟨_, ran', cut⟩
    · exact same.symm.trans ran
    · cases Option.some.inj (ran'.symm.trans ran)
      cases cut
  -- compared with such a budget, a given one changes nothing or is exceeded
  have compared : ∀ given, ((compiled.begin primitives request tuple).run
        (compiled.setting primitives values given silent) fuel = some (.ok (), m) ∧
          m.cost ≤ given) ∨
      ∃ m', (compiled.begin primitives request tuple).run
        (compiled.setting primitives values given silent) fuel = some (.error costExceeded, m') ∧
          given < m.cost := by
    intro given
    have wide := succeeds (max given budget) (Nat.le_max_right _ _)
    rcases run_agrees (compiled.setting primitives values budget silent)
      (Nat.le_max_left given budget) calm fuel (compiled.begin primitives request tuple)
      (Nat.zero_le given) with ⟨same, within⟩ | ⟨_, ran', cut⟩
    · exact .inl ⟨same.trans wide, within _ wide⟩
    · cases cut with
      | cancelled m' raised =>
        obtain ⟨_, raised⟩ := raised
        cases raised
      | exceeded m' exceeded => exact .inr ⟨m', ran', exceeded _ wide⟩
  constructor
  · intro larger enough
    refine ⟨fuel, ?_⟩
    rcases compared larger with ⟨ran', _⟩ | ⟨_, _, exceeded⟩
    · rw [evaluate_silent, prepared]
      simp only [ran', Option.map_some, evaluated, concluded, spent]
    · omega
  · intro smaller short
    rcases compared smaller with ⟨_, within⟩ | ⟨m', ran', _⟩
    · omega
    · refine ⟨m'.cost, fuel, ?_⟩
      rw [evaluate_silent, prepared]
      simp only [ran', Option.map_some, evaluated]

end Evaluations

/-- The condition `1 / 0 == 1 || 1 in [1, 2]`, whose left side fails. -/
def Sample.recovering : CompiledCondition :=
  condition [] [⟨.literal (.int 1), .int⟩, ⟨.literal (.int 2), .int⟩, ⟨.list [0, 1], .list .int⟩,
    ⟨.binary .in 0 2, .bool⟩, ⟨.literal (.int 0), .int⟩, ⟨.binary .divide 0 4, .int⟩,
    ⟨.binary .equal 5 0, .bool⟩, ⟨.logicalOr 6 3, .bool⟩] 7

/-- The error of the left side is caught, and the units it was charged stay charged. -/
theorem cost_is_least_budget_recovering :
    recovering.Evaluates primitives .empty .empty 13 silent ⟨.ok ⟨true, 13⟩, 13⟩ ∧
    ∃ charged, recovering.Evaluates primitives .empty .empty 12 silent
      ⟨.error costExceeded, charged⟩ := by
  have succeeds : recovering.Evaluates primitives .empty .empty 100 silent
      ⟨.ok ⟨true, 13⟩, 13⟩ := ⟨20, rfl⟩
  obtain ⟨larger, smaller⟩ := (cost_is_least_budget recovering primitives .empty
    .empty).1 100 ⟨true, 13⟩ 13 succeeds
  exact ⟨larger 13 (Nat.le_refl 13), smaller 12 (Nat.lt_succ_self 12)⟩

end OpenFga.Condition
