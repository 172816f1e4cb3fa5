import OpenFga.Check.Rows

/-!
# Offering the candidates of a read

The candidates of a read are offered to its slot one after the other. An
immediate allow completes the slot, and the loop only stops when an ancestor of
the slot is completed as well. If the parent still waits, the loop goes on with a
completed slot, and the next candidate that is delivered at once finds no waiting
reducer. `CandidatesSafe` says when this cannot happen.
-/

namespace OpenFga

open Scheduler List

variable {resolution : CheckResolution} {candidates : List Candidate} {work : Nat} {s : Scheduler}
  {ghost : Ghost} {subject : SubjectRef} {path : BranchPath} {operands : List Operand}

/-- The candidate becomes a child. -/
def Candidate.IsSemantic (candidate : Candidate) : Prop :=
  ∃ item, candidate = .semantic item

/-- An allow of the slot decides the reducer of its waiting parent. -/
def DecidesParent (s : Scheduler) (work : Nat) (resolution : CheckResolution) : Prop :=
  ∃ link parent updated value, s.linkAt work = some link ∧
    s.stateAt link.work = some (.waiting parent) ∧
    parent.accept link.operand (.ok (.allow resolution)) = .ok (updated, some value)

/-- After an immediate allow no candidate follows, or the allow decides the parent,
or all that follow are semantic and can be dispatched. -/
def CandidatesSafe (env : CheckEnvironment) (schedule : Schedule) (s : Scheduler) (work : Nat)
    (resolution : CheckResolution) (candidates : List Candidate) : Prop :=
  ∀ candidate rest, candidate :: rest <:+ candidates → candidate.Allows →
    rest = [] ∨ DecidesParent s work resolution ∨
      (∀ later ∈ rest, later.IsSemantic) ∧ HasRoom env schedule s candidates.length

section Safety

variable {env : CheckEnvironment} {schedule : Schedule} {s s' : Scheduler} {candidate : Candidate}

theorem DecidesParent.congr (decides : DecidesParent s work resolution)
    (link : s'.linkAt work = s.linkAt work) (parentLower : ∀ {link}, s.linkAt work = some link →
      s'.stateAt link.work = s.stateAt link.work) : DecidesParent s' work resolution := by
  obtain ⟨up, parent, updated, value, linked, waiting, accepted⟩ := decides
  exact ⟨up, parent, updated, value, link.trans linked,
    (parentLower linked).trans waiting, accepted⟩

/-- What is safe stays safe for the remaining candidates. -/
theorem CandidatesSafe.tail
    (safe : CandidatesSafe env schedule s work resolution (candidate :: candidates))
    (parent : DecidesParent s work resolution → DecidesParent s' work resolution)
    (room : HasRoom env schedule s (candidates.length + 1) →
      HasRoom env schedule s' candidates.length) :
    CandidatesSafe env schedule s' work resolution candidates := by
  intro first rest suffix allows
  rcases safe first rest (suffix.trans (suffix_cons _ _)) allows with
    none | decides | ⟨semantic, fits⟩
  · exact .inl none
  · exact .inr (.inl (parent decides))
  · exact .inr (.inr ⟨semantic, room fits⟩)

theorem candidatesSafe_of_no_allow (none : ∀ candidate ∈ candidates, ¬ candidate.Allows) :
    CandidatesSafe env schedule s work resolution candidates := by
  intro first rest suffix allows
  exact absurd allows (none first (suffix.subset mem_cons_self))

end Safety

/-- A union is decided by an allow. -/
theorem Reducer.accept_allow {reducer : Reducer} {operand : Nat} {decision : Decision}
    {updated : Reducer} {result : Option Evaluation} (kind : reducer.kind = .union)
    (resolves : reducer.resolution = some resolution) (inside : operand < reducer.outcomes.length)
    (allowed : decision.allowed = true)
    (accepted : reducer.accept operand (.ok decision) = .ok (updated, result)) :
    result = some (.ok (.allow resolution)) := by
  unfold accept at accepted
  split at accepted
  · cases accepted
  · cases accepted
  · obtain ⟨-, accepted⟩ := guard_eq_ok.mp accepted
    have delivered : (reducer.deliver operand (.ok decision)).delivered.any Evaluation.allows =
        true := by
      rw [any_eq_true]
      refine ⟨.ok decision, ?_, allowed⟩
      rw [delivered, mem_filterMap]
      exact ⟨some (.ok decision), mem_set inside _, rfl⟩
    have reduced : (reducer.deliver operand (.ok decision)).reduce =
        .ok (some (.ok (.allow resolution))) := by
      simp only [reduce, deliver, kind, resolves]
      exact if_pos delivered
    change (do
      let result ← (reducer.deliver operand (.ok decision)).reduce
      .ok (reducer.deliver operand (.ok decision), result)) = _ at accepted
    rw [reduced] at accepted
    cases accepted
    rfl

section Offering

/-- The next of a list is matched by the item at its place. -/
private theorem forall₂_cons_drop {α β : Type} {R : α → β → Prop} {a : α} {as : List α}
    {list : List β} {next : Nat} (means : List.Forall₂ R (a :: as) (list.drop next)) :
    ∃ b, R a b ∧ list[next]? = some b ∧ List.Forall₂ R as (list.drop (next + 1)) := by
  obtain ⟨b, rest, here, means, equal⟩ := forall₂_cons_left_iff.mp means
  have head := congrArg (·[0]?) equal
  refine ⟨b, here, by simpa using head, ?_⟩
  rwa [← drop_drop, equal]

variable {target : Target} (schedule : Schedule)

/-- Candidates offered to a completed slot can only become children. -/
def Harmless (env : CheckEnvironment) (schedule : Schedule) (s : Scheduler) (work : Nat)
    (candidates : List Candidate) : Prop :=
  ¬ Active s work ∨
    (∀ candidate ∈ candidates, candidate.IsSemantic) ∧ HasRoom env schedule s candidates.length

theorem offer_completed : ∀ (candidates : List Candidate) (next : Nat) (ghost : Ghost)
    (s : Scheduler), Coherent target ghost (.handing work next) s → ChildrenBelow s work next →
    s.stateAt work = some .completed →
    List.Forall₂ (CandidateMeans target) candidates ((ghost.operands work).drop next) →
    Ensures (offerCandidates target.env schedule work next candidates s) (Settled target s)
      (fun error => error.IsLimit ∧
        (Harmless target.env schedule s work candidates → error.kind ≠ .internal)) := by
  intro candidates
  induction candidates with
  | nil =>
    intro next ghost s coherent _ done _
    exact ⟨⟨ghost, coherent.idle_of_completed done⟩, rfl, le_rfl⟩
  | cons candidate candidates ih =>
    intro next ghost s coherent below done means
    have inside := lt_length_of_stateAt done
    obtain ⟨slot, -, looked, state, -⟩ := slot_eq_ok done
    rw [offerCandidates]
    by_cases active : Active s work
    swap
    · rw [isActive_of_not_active coherent.links inside active]
      exact ⟨⟨ghost, coherent.idle_of_completed done⟩, rfl, le_rfl⟩
    rw [isActive_of_active coherent.links inside active]
    simp only [bind, Except.bind, Bool.not_true, Bool.false_eq_true, if_false]
    have lost : ∀ {s₁ : Scheduler} (outcome : Evaluation), s₁.slots = s.slots →
        s₁.acceptOperand work next outcome =
          .error (.internal "parent_reducer_state_invalid") := by
      intro s₁ outcome slots
      have looked' : s₁.slot work = .ok slot := by
        rw [← looked]
        simp only [Scheduler.slot, slots]
      simp only [acceptOperand, looked', state, bind, Except.bind]
    cases candidate with
    | immediate outcome =>
      simp only [lost outcome rfl]
      refine ⟨by decide, fun harmless => ?_⟩
      rcases harmless with inactive | ⟨semantic, -⟩
      · exact absurd active inactive
      · obtain ⟨item, impossible⟩ := semantic _ mem_cons_self
        cases impossible
    | semantic item =>
      obtain ⟨spec, here, found, rest⟩ := forall₂_cons_drop means
      rcases trySchedule_cases schedule target.env s (.semantic item) (some ⟨work, next⟩) with
        ⟨s₁, refused, refuses, noRoom⟩ | ⟨s₁, pushed, dispatches⟩
      · simp only [scheduleChildOrError, refused, lost (.error .dispatchExceeded)
          refuses.alike.slots]
        refine ⟨by decide, fun harmless => ?_⟩
        rcases harmless with inactive | ⟨-, room⟩
        · exact absurd active inactive
        · exact absurd (room.mono rfl rfl (by simp)) noRoom
      · simp only [scheduleChildOrError, pushed]
        have appends := dispatches.appends
        obtain ⟨after, below'⟩ := coherent.push below appends (.inl done) found here.1 here.2
          dispatches.ready dispatches.reads dispatches.memo dispatches.produced
          dispatches.rootResult dispatches.dispatches dispatches.admitted
        have cost := dispatches.cost_le coherent.dispatched
        have done₁ : s₁.stateAt work = some .completed := by
          rw [appends.stateAt, if_neg (by omega)]
          exact done
        refine (ih (next + 1) _ s₁ after below' done₁ ?_).mono ?_ ?_
        · exact rest
        · exact fun s' settled => settled.since dispatches.reads cost
        · intro error raised
          refine ⟨raised.1, fun harmless => raised.2 (.inr ?_)⟩
          rcases harmless with inactive | ⟨semantic, room⟩
          · exact absurd active inactive
          · exact ⟨fun other member => semantic other (mem_cons_of_mem _ member),
              dispatches.room schedule room⟩

/-- A failed candidate approximates what it stands for. -/
theorem CandidateMeans.failed {error : CheckError} {spec : Spec} (s : Scheduler)
    (means : CandidateMeans target (.immediate (.error error)) spec) :
    Approximates (s.record (.error error)).produced spec (.error error) := by
  have noted : error ∈ (s.record (.error error)).produced := (mem_produced_record _).mpr (.inl rfl)
  rcases means.2 with limit | settles
  · exact .of_limit noted limit
  · refine ⟨.inl settles, fun other same => ?_⟩
    cases same
    exact noted

theorem offer_waiting (resolution : CheckResolution) : ∀ (candidates : List Candidate) (next : Nat)
    (ghost : Ghost) (s : Scheduler),
    Hands target ghost s work next (next + candidates.length) .union (some resolution) →
    List.Forall₂ (CandidateMeans target) candidates ((ghost.operands work).drop next) →
    Ensures (offerCandidates target.env schedule work next candidates s) (Settled target s)
      (fun error => error.IsLimit ∧
        (CandidatesSafe target.env schedule s work resolution candidates →
          error.kind ≠ .internal)) := by
  intro candidates
  induction candidates with
  | nil =>
    intro next ghost s hands _
    exact ⟨⟨ghost, hands.idle⟩, rfl, le_rfl⟩
  | cons candidate candidates ih =>
    intro next ghost s hands means
    obtain ⟨coherent, below, reducer, waits, failing, kind, resolves⟩ := id hands
    have inside := lt_length_of_stateAt waits
    have vacant := failing.vacant le_rfl (by simp)
    have fits := (coherent.shape.reducers waits (by simp)).1
    obtain ⟨spec, here, found, rest⟩ := forall₂_cons_drop means
    have total : next + (candidate :: candidates).length = next + 1 + candidates.length := by
      simp only [length_cons]
      omega
    rw [offerCandidates]
    by_cases active : Active s work
    swap
    · rw [isActive_of_not_active coherent.links inside active]
      refine ⟨⟨ghost, coherent.idle_of_handing ?_⟩, rfl, le_rfl⟩
      exact fun _ _ active' => absurd active' active
    rw [isActive_of_active coherent.links inside active]
    simp only [bind, Except.bind, Bool.not_true, Bool.false_eq_true, if_false]
    -- as long as the slot itself waits, the parent keeps its state
    have carry : ∀ {s₁ : Scheduler}, s₁.linkAt work = s.linkAt work →
        (∀ id, id < s.slots.length → id ≠ work → s₁.stateAt id = s.stateAt id) →
        DecidesParent s work resolution → DecidesParent s₁ work resolution := by
      intro s₁ link others decides
      refine decides.congr link fun {up} linked => ?_
      have lower := coherent.links.parent_lt linked
      exact others _ (by omega) (by omega)
    cases candidate with
    | semantic item =>
      obtain ⟨valid, rfl⟩ := here
      obtain ⟨s₁, ghost₁, returned, scheduled⟩ :=
        scheduleChild_spec schedule hands (by simp) found valid
      simp only [returned]
      rcases scheduled.after with ⟨hands₁, link, others⟩ | ⟨idle, last⟩
      · rw [total] at hands₁
        refine (ih (next + 1) ghost₁ s₁ hands₁ ?_).mono ?_ ?_
        · exact scheduled.operands ▸ rest
        · exact fun s' settled => settled.since scheduled.reads scheduled.cost
        · intro error raised
          refine ⟨raised.1, fun safe => raised.2 ?_⟩
          exact safe.tail (carry link others) (scheduled.room candidates.length)
      · have empty : candidates = [] := by
          rw [← length_eq_zero_iff]
          omega
        subst empty
        exact ⟨⟨ghost₁, idle⟩, scheduled.reads, scheduled.cost⟩
    | immediate outcome =>
      cases outcome with
      | error error =>
        obtain ⟨s₁, accepted, accepts⟩ := acceptOperand_spec coherent below waits vacant found
          (here.failed s) (by rintro raised ⟨⟩ internal; exact absurd internal here.1)
        simp only [accepted]
        obtain ⟨result, -, reduction, waiting, completed⟩ := accepts.taken
        have after := failing.deliver error
        have cost := (accepts.resolves.cost_eq target.env).le
        cases result with
        | none =>
          obtain ⟨waits₁, others⟩ := waiting rfl
          refine (ih (next + 1) ghost s₁ ⟨accepts.coherent, accepts.below, _, waits₁,
            total ▸ after, kind, resolves⟩ ?_).mono ?_ ?_
          · exact rest
          · exact fun s' settled => settled.since accepts.resolves.reads cost
          · intro raised post
            refine ⟨post.1, fun safe => post.2 ?_⟩
            refine safe.tail (carry (accepts.resolves.links work) fun id _ => others id) ?_
            exact fun room => room.mono accepts.resolves.dispatches accepts.resolves.tick
              (Nat.le_succ _)
        | some value =>
          have last := after.total_le (fits.deliver vacant _) (by omega) reduction
          have empty : candidates = [] := by
            rw [← length_eq_zero_iff]
            omega
          subst empty
          exact ⟨⟨ghost, accepts.coherent.idle_of_completed (completed value rfl).1⟩,
            accepts.resolves.reads, cost⟩
      | ok decision =>
        obtain ⟨s₁, accepted, accepts⟩ := acceptOperand_spec coherent below waits vacant found
          (.of_ok here.2) (by rintro raised ⟨⟩)
        simp only [accepted]
        obtain ⟨result, acceptance, -, -, completed⟩ := accepts.taken
        have bound : next < reducer.outcomes.length :=
          (List.getElem?_eq_some_iff.mp vacant).1
        have decided := Reducer.accept_allow kind resolves bound here.1 acceptance
        obtain ⟨done, tellsParent⟩ := completed _ decided
        have cost := (accepts.resolves.cost_eq target.env).le
        cases candidates with
        | nil =>
          exact ⟨⟨ghost, accepts.coherent.idle_of_completed done⟩, accepts.resolves.reads,
            cost⟩
        | cons second others =>
          refine (offer_completed schedule (second :: others) (next + 1) ghost s₁
            accepts.coherent accepts.below done ?_).mono ?_ ?_
          · exact rest
          · exact fun s' settled => settled.since accepts.resolves.reads cost
          · intro error raised
            refine ⟨raised.1, fun safe => raised.2 ?_⟩
            rcases safe _ _ suffix_rfl ⟨decision, rfl⟩ with
              none | ⟨link, parent, updated, value, up, waiting, decides⟩ | ⟨semantic, room⟩
            · cases none
            · refine .inl fun active₁ => ?_
              have parentDone := tellsParent up waiting decides
              exact (active₁.of_link ((accepts.resolves.links work).trans up)).1 parentDone
            · exact .inr ⟨semantic, room.mono accepts.resolves.dispatches
                accepts.resolves.tick (by simp)⟩

/-- The state of the slot itself does not matter for what is safe to offer to it. -/
theorem CandidatesSafe.of_setState {env : CheckEnvironment} (links : Links s) (state : WorkState)
    (safe : CandidatesSafe env schedule s work resolution candidates) :
    CandidatesSafe env schedule (s.setState work state) work resolution candidates := by
  intro first rest suffix allows
  rcases safe first rest suffix allows with none | decides | ⟨semantic, room⟩
  · exact .inl none
  · refine .inr (.inl (decides.congr (linkAt_setState ..) fun {up} linked => ?_))
    have lower := links.parent_lt linked
    exact stateAt_setState_ne (by omega) _
  · exact .inr (.inr ⟨semantic, room.mono rfl rfl le_rfl⟩)

theorem startCandidates_spec (coherent : Coherent target ghost (.processing work) s)
    (processing : s.stateAt work = some .processing)
    (spec : ∀ fuel, ghost.spec work fuel = combine .union (some resolution)
      (operands.map fun operand => target.operand subject path operand fuel))
    (means : CandidatesMean target subject path operands candidates) :
    Ensures (s.startCandidates target.env schedule work candidates resolution) (Settled target s)
      (fun error => error.IsLimit ∧
        (CandidatesSafe target.env schedule s work resolution candidates →
          error.kind ≠ .internal)) := by
  obtain ⟨specs, each, same⟩ := means
  have combined : ∀ fuel, ghost.spec work fuel =
      combine .union (some resolution) (specs.map fun spec => spec fuel) := by
    intro fuel
    rw [spec fuel, (same fuel).combine_eq]
  have length : candidates.length = specs.length := each.length_eq
  unfold startCandidates
  cases candidates with
  | nil =>
    cases each
    have settles : Settles (ghost.spec work) (.ok (.deny .denied)) := .of_forall combined
    exact completeDecision_spec coherent processing settles
  | cons first others =>
    simp only [isEmpty_cons, Bool.false_eq_true, if_false]
    have nonempty : specs ≠ [] := by
      rintro rfl
      simp at length
    obtain ⟨waiting, below⟩ := coherent.wait processing .union (some resolution) specs
      ⟨0, combined⟩ nonempty (by simp) (by simp)
    rw [← length] at waiting below
    have now : (s.setState work (.waiting (.new .union (first :: others).length
        (some resolution)))).stateAt work =
          some (.waiting (.new .union (first :: others).length (some resolution))) :=
      stateAt_setState_self (lt_length_of_stateAt processing) _
    refine (offer_waiting schedule resolution (first :: others) 0 _ _ ⟨waiting, below, _, now,
      by rw [Nat.zero_add]; exact Reducer.failing_new _ _ _, rfl, rfl⟩ ?_).mono ?_ ?_
    · simpa using each
    · intro s' settled
      refine ⟨settled.coherent, settled.reads, settled.cost.trans (le_of_eq ?_)⟩
      simp only [Scheduler.cost, length_setState]
      rfl
    · intro error raised
      exact ⟨raised.1, fun safe => raised.2 (safe.of_setState schedule coherent.links _)⟩

/-- The candidates a read offers, and the state in which it offers them. -/
def Collected (target : Target) (schedule : Schedule) (work : Nat) (resolution : CheckResolution)
    (collected : Except CheckError (List Candidate × Scheduler)) : Prop :=
  ∀ candidates s, collected = .ok (candidates, s) →
    CandidatesSafe target.env schedule s work resolution candidates

/-- Collecting the rows of a read and offering the candidates. -/
theorem finishCollected_spec {mayAllow : Prop}
    {collected : Except CheckError (List Candidate × Scheduler)}
    (coherent : Coherent target ghost (.processing work) s)
    (processing : s.stateAt work = some .processing)
    (spec : ∀ fuel, ghost.spec work fuel = combine .union (some resolution)
      (operands.map fun operand => target.operand subject path operand fuel))
    (rows : RowSpec target subject path mayAllow operands s collected) : Ensures (do
        let value ← collected
        value.2.startCandidates target.env schedule work value.1 resolution)
      (Settled target s)
      (fun error => error.IsLimit ∧
      ((mayAllow → Collected target schedule work resolution collected) →
        error.kind ≠ .internal)) := by
  cases result : collected with
  | error error =>
    rw [result] at rows
    exact ⟨rows.1, fun _ => rows.2⟩
  | ok value =>
    rw [result] at rows
    obtain ⟨charges, means, allows⟩ := rows
    refine (startCandidates_spec schedule (charges.coherent coherent)
      ((charges.stateAt_eq work).trans processing) spec means).mono ?_ ?_
    · exact fun s' settled => charges.settled settled
    · intro error raised
      refine ⟨raised.1, fun safe => raised.2 ?_⟩
      by_cases allowed : ∃ candidate ∈ value.1, candidate.Allows
      · obtain ⟨candidate, member, allowed⟩ := allowed
        exact safe (allows candidate member allowed) value.1 value.2 rfl
      · refine candidatesSafe_of_no_allow fun candidate member allowed' => ?_
        exact allowed ⟨candidate, member, allowed'⟩

end Offering

end OpenFga
