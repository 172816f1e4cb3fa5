import OpenFga.Check.Run
import OpenFga.Lib.CompareExchange

/-!
# What a run is charged for

Each slot is paid for by a dispatch and each read by a datastore query before it exists, and a
read starts only below the ceiling on outstanding reads. The depth of a piece of work counts the
keys on its branch path. A step of the scheduler starts at most one read; everything else it
does keeps the reads and the queries.

The meter shared by several checks is a counter that each of them raises by a loop of
compare-and-exchange.
-/

namespace OpenFga

open List

variable {α : Type} {origin item : RewriteWork} {read : TtuRead} {depth : Nat}

/-- The depth of work counts the semantic keys above it, from the depth of the root on. -/
def WorkKind.Fits (depth : Nat) : WorkKind → Prop
  | .semantic item => item.depth = item.path.card + depth
  | .rewrite item => item.depth + 1 = item.path.card + depth

def ReadContinuation.Fits (depth : Nat) : ReadContinuation → Prop
  | .direct read => read.depth + 1 = read.path.card + depth
  | .tupleToUserset read => read.depth + 1 = read.path.card + depth

def WorkState.Fits (depth : Nat) : WorkState → Prop
  | .queued kind => kind.Fits depth
  | .reading continuation => continuation.Fits depth
  | _ => True

def Candidate.Fits (depth : Nat) : Candidate → Prop
  | .immediate _ => True
  | .semantic item => (WorkKind.semantic item).Fits depth

/-- The slots are paid for, and the depths of their work fit. -/
structure Scheduler.Paid (env : CheckEnvironment) (depth : Nat) (s : Scheduler) : Prop where
  slots : s.slots.length ≤ s.dispatches
  bounded : s.slots.length ≤ env.budget.maximumDispatches
  fits : ∀ id state, s.stateAt id = some state → state.Fits depth

/-- The slots stay paid for, no read starts or ends, and no query is charged. -/
structure Scheduler.Continues (env : CheckEnvironment) (depth : Nat) (s s' : Scheduler) : Prop where
  paid : s.Paid env depth → s'.Paid env depth
  queries : s'.datastoreQueries = s.datastoreQueries
  reads : s'.reads = s.reads

open Scheduler

section Continuing

variable {env : CheckEnvironment} {schedule : Schedule} {depth : Nat} {s s' s'' : Scheduler}

/-- A computation of the scheduler that, if it returns, has continued from a state. -/
def Continuing (env : CheckEnvironment) (depth : Nat) (s : Scheduler)
    (result : Except CheckError Scheduler) : Prop :=
  Ensures result (Continues env depth s)

theorem Scheduler.Continues.trans (first : Continues env depth s s')
    (second : Continues env depth s' s'') : Continues env depth s s'' :=
  ⟨second.paid ∘ first.paid, second.queries.trans first.queries, second.reads.trans first.reads⟩

theorem Scheduler.Continues.then {result : Except CheckError Scheduler}
    (first : Continues env depth s s') (second : Continuing env depth s' result) :
    Continuing env depth s result :=
  second.imp fun _ => first.trans

/-- Updates that create no slot and no read. -/
theorem continues_of_states (length : s'.slots.length = s.slots.length)
    (dispatches : s'.dispatches = s.dispatches)
    (queries : s'.datastoreQueries = s.datastoreQueries) (reads : s'.reads = s.reads)
    (states : ∀ id state, s'.stateAt id = some state →
      s.stateAt id = some state ∨ state.Fits depth) : Continues env depth s s' := by
  refine ⟨fun paid => ⟨?_, ?_, fun id state found => ?_⟩, queries, reads⟩
  · rw [length, dispatches]
    exact paid.slots
  · rw [length]
    exact paid.bounded
  · exact (states id state found).elim (paid.fits id state) fun fits => fits

theorem continues_of_slots (slots : s'.slots = s.slots) (dispatches : s'.dispatches = s.dispatches)
    (queries : s'.datastoreQueries = s.datastoreQueries) (reads : s'.reads = s.reads) :
    Continues env depth s s' := by
  refine continues_of_states (congrArg _ slots) dispatches queries reads fun id state found => ?_
  rw [stateAt, slots] at found
  exact .inl found

theorem Scheduler.Continues.refl : Continues env depth s s :=
  continues_of_slots rfl rfl rfl rfl

theorem continues_setState (env : CheckEnvironment) (s : Scheduler) (work : Nat) {state : WorkState}
    (fits : state.Fits depth) : Continues env depth s (s.setState work state) := by
  refine continues_of_states (length_setState ..) rfl rfl rfl fun id found present => ?_
  rw [stateAt_setState] at present
  split at present
  · obtain ⟨_, _, rfl⟩ := Option.map_eq_some_iff.mp present
    exact .inr fits
  · exact .inl present

theorem continues_waiting (env : CheckEnvironment) (depth : Nat) (s : Scheduler) (work : Nat)
    (reducer : Reducer) : Continues env depth s (s.setState work (.waiting reducer)) :=
  continues_setState env s work trivial

theorem continues_record (outcome : Evaluation) : Continues env depth s (s.record outcome) := by
  cases outcome with
  | ok decision => exact .refl
  | error error => exact continues_of_slots rfl rfl rfl rfl

theorem continues_retire (env : CheckEnvironment) (depth : Nat) (s : Scheduler) (work : Nat)
    (slot : WorkSlot) (outcome : Evaluation) :
    Continues env depth s (s.retire work slot outcome) := by
  obtain ⟨memo, same, -⟩ := retire_eq s work outcome slot
  rw [same]
  refine (continues_record outcome).trans
    (continues_of_states ?_ rfl rfl rfl fun id state found => ?_)
  · rw [slots_record]
    exact length_set
  · rw [stateAt_record]
    simp only [stateAt, getElem?_set] at found
    split at found
    · split at found
      · cases found
        exact .inr trivial
      · cases found
    · exact .inl found

/-- Sequencing after a computation that does not concern the scheduler. -/
theorem unspecified {result : Except CheckError α} {next : α → Except CheckError Scheduler}
    (rest : ∀ value, Continuing env depth s (next value)) :
    Continuing env depth s (result >>= next) := by
  cases result with
  | ok value => exact rest value
  | error error => trivial

theorem completeLoop_continuing : ∀ (fuel work : Nat) (outcome : Evaluation) (s : Scheduler),
    Continuing env depth s (completeLoop fuel work outcome s) := by
  intro fuel
  induction fuel with
  | zero =>
    intro work outcome s
    trivial
  | succ fuel ih =>
    intro work outcome s
    refine unspecified fun slot => ?_
    have retired := continues_retire env depth s work slot outcome
    split
    · exact retired.trans (continues_of_slots rfl rfl rfl rfl)
    · rename_i link _
      refine unspecified fun parent => ?_
      split
      · refine unspecified fun (reducer, reduced) => ?_
        have waiting : Continues env depth s
            ((s.retire work slot outcome).setState link.work (.waiting reducer)) :=
          retired.trans (continues_waiting ..)
        cases reduced with
        | none => exact waiting
        | some parentOutcome => exact waiting.then (ih _ _ _)
      · exact retired
      · trivial

theorem complete_continuing (work : Nat) (outcome : Evaluation) :
    Continuing env depth s (s.complete work outcome) :=
  completeLoop_continuing ..

theorem acceptOperand_continuing (work operand : Nat) (outcome : Evaluation) :
    Continuing env depth s (s.acceptOperand work operand outcome) := by
  refine unspecified fun slot => ?_
  split
  · refine unspecified fun (reducer, reduced) => ?_
    have accepted : Continues env depth s ((s.setState work (.waiting reducer)).record outcome) :=
      (continues_waiting ..).trans (continues_record outcome)
    cases reduced with
    | none => exact accepted
    | some outcome => exact accepted.then (complete_continuing ..)
  · trivial

variable (env schedule) in
theorem trySchedule_continues {kind : WorkKind} (parent : Option ParentLink)
    (fits : kind.Fits depth) :
    Continues env depth s (s.trySchedule env schedule kind parent).2 := by
  have charged : Continues env depth s { s with dispatches := s.dispatches + 1 } :=
    ⟨fun paid => ⟨Nat.le_succ_of_le paid.slots, paid.bounded, paid.fits⟩, rfl, rfl⟩
  unfold trySchedule
  simp only
  split
  · exact charged
  · rename_i admitted
    split
    · exact charged.trans (continues_of_slots rfl rfl rfl rfl)
    · refine ⟨fun paid => ⟨?_, ?_, fun id state found => ?_⟩, rfl, rfl⟩
      · rw [length_append, length_singleton]
        exact Nat.succ_le_succ paid.slots
      · rw [length_append, length_singleton]
        exact Nat.le_trans (Nat.succ_le_succ paid.slots) (Nat.le_of_not_lt admitted)
      · simp only [stateAt, getElem?_append] at found
        split at found
        · exact paid.fits id state found
        · cases index : id - s.slots.length with
          | zero =>
            rw [index] at found
            cases found
            exact fits
          | succ later =>
            rw [index] at found
            cases found

theorem scheduleChildOrError_continuing {kind : WorkKind} (parent operand : Nat)
    (fits : kind.Fits depth) :
    Continuing env depth s (s.scheduleChildOrError env schedule parent operand kind) := by
  have tried : Continues env depth s _ :=
    trySchedule_continues env schedule (some ⟨parent, operand⟩) fits
  unfold scheduleChildOrError
  split
  · rename_i created
    rw [created] at tried
    exact tried
  · rename_i refused
    rw [refused] at tried
    exact tried.then (acceptOperand_continuing ..)

theorem scheduleNodes_continuing (work : Nat) (fits : (WorkKind.rewrite origin).Fits depth) :
    ∀ (nodes : List NodeId) (operand : Nat)
    (s : Scheduler), Continuing env depth s (scheduleNodes env schedule work origin operand nodes s)
  | [], _, _ => .refl
  | node :: nodes, operand, s => by
    refine unspecified fun active => ?_
    split
    · exact .refl
    · refine (scheduleChildOrError_continuing work operand ?_).bind fun s' continues =>
        continues.then (scheduleNodes_continuing work fits nodes (operand + 1) s')
      exact fits

theorem startRewriteChildren_continuing (work : Nat) (nodes : List NodeId) (kind : ReducerKind)
    (resolution : CheckResolution) (fits : (WorkKind.rewrite origin).Fits depth) :
    Continuing env depth s
      (s.startRewriteChildren env schedule work origin nodes kind resolution) :=
  (continues_waiting ..).then (scheduleNodes_continuing work fits nodes 0 _)

theorem processSemantic_continuing (work : Nat) {item : SemanticWork}
    (fits : (WorkKind.semantic item).Fits depth) :
    Continuing env depth s (s.processSemantic env schedule work item) := by
  unfold processSemantic
  simp only
  split
  · exact complete_continuing ..
  · have seen : Continues env depth s { s with maximumDepth := max s.maximumDepth item.depth } :=
      continues_of_slots rfl rfl rfl rfl
    split
    · exact seen.then (complete_continuing ..)
    · have remembered : Continues env depth s { s with
          maximumDepth := max s.maximumDepth item.depth
          slots := s.slots.modify work fun slot =>
            { slot with memoKey := some ⟨⟨item.object, item.relation, item.subject⟩,
              item.path⟩ } } := by
        refine continues_of_states (length_modify ..) rfl rfl rfl fun id state found => .inl ?_
        simp only [stateAt, getElem?_modify] at found ⊢
        cases present : s.slots[id]? with
        | none => simp [present] at found
        | some slot =>
          rw [← found, present]
          by_cases same : work = id <;> simp [same]
      split
      · refine remembered.then (Continues.then ?_ (complete_continuing ..))
        exact continues_of_slots rfl rfl rfl rfl
      · rename_i fresh
        split
        · exact remembered.then (complete_continuing ..)
        · generalize (if item.subject.isTypedWildcard = true then _ else _) = reachable
          split
          · exact remembered.then (complete_continuing ..)
          · split
            · exact remembered.then (complete_continuing ..)
            · refine (remembered.trans (continues_waiting ..)).then
                (scheduleChildOrError_continuing work 0 ?_)
              have deeper : item.depth = item.path.card + depth := fits
              simp only [WorkKind.Fits, Finset.card_insert_of_notMem fresh]
              omega

/-- The work below a rewrite is one level deeper. -/
theorem nextDepth_fits {path : BranchPath} {above : Nat} (fits : above + 1 = path.card + depth)
    {next : Nat → Except CheckError α} {post : α → Prop}
    (rest : ∀ below, below = path.card + depth → Ensures (next below) post) :
    Ensures (nextDepth above >>= next) post := by
  unfold nextDepth
  split
  · exact rest _ fits
  · trivial

theorem processComputed_continuing (work : Nat) (relation : RelationId)
    (fits : (WorkKind.rewrite item).Fits depth) :
    Continuing env depth s (s.processComputed env schedule work item relation) :=
  nextDepth_fits fits fun _ deeper => (continues_waiting ..).then
    (scheduleChildOrError_continuing work 0 deeper)

/-- Collected candidates fit, and collecting them continues. -/
def Collecting (env : CheckEnvironment) (depth : Nat) (s : Scheduler)
    (result : Except CheckError (List Candidate × Scheduler)) : Prop :=
  Ensures result (fun (candidates, s') => Continues env depth s s' ∧
    ∀ candidate ∈ candidates, candidate.Fits depth)

section Conditions

variable (env schedule depth)

theorem checkContext_continues (s : Scheduler) :
    Ensures (s.checkContext schedule) (Continues env depth s) := by
  unfold checkContext
  split
  · trivial
  · exact continues_of_slots rfl rfl rfl rfl

theorem evaluateTupleCondition_continues (s : Scheduler) (tuple : RelationshipTuple) :
    Ensures (s.evaluateTupleCondition env schedule tuple)
      (fun (_, s') => Continues env depth s s') := by
  unfold evaluateTupleCondition
  split
  · exact .refl
  · refine (checkContext_continues env schedule depth s).bind fun s₁ asked => ?_
    refine .lookup (fun _ => trivial) fun id _ => .lookup (fun _ => trivial) fun condition _ => ?_
    split
    · exact asked
    · have ticked : Continues env depth s s₁.ticked :=
        asked.trans (continues_of_slots rfl rfl rfl rfl)
      refine (checkContext_continues env schedule depth s₁.ticked).bind fun s₂ again => ?_
      have later := ticked.trans again
      split
      · simp only
        split
        · trivial
        · split
          · exact later.trans (continues_of_slots rfl rfl rfl rfl)
          · exact later.trans (continues_of_slots rfl rfl rfl rfl)
      · split <;> exact later

end Conditions

theorem collecting_nothing (continues : Continues env depth s s') :
    Collecting env depth s (.ok ([], s')) :=
  ⟨continues, by simp⟩

theorem collecting_immediate (continues : Continues env depth s s') (outcomes : List Evaluation) :
    Collecting env depth s (.ok (outcomes.map .immediate, s')) := by
  refine ⟨continues, fun candidate member => ?_⟩
  obtain ⟨outcome, -, rfl⟩ := mem_map.mp member
  trivial

theorem directRow_collecting {read : DirectRead} (restrictions : List DirectRestriction)
    (tuple : RelationshipTuple) (fits : (ReadContinuation.direct read).Fits depth) :
    Collecting env depth s (directRow env schedule read restrictions tuple s) := by
  have evaluated := evaluateTupleCondition_continues env schedule depth s tuple
  unfold directRow
  cases matchingRestriction env.model tuple restrictions with
  | error error => trivial
  | ok admitted =>
    simp only [bind, Except.bind]
    split
    · exact collecting_nothing .refl
    · split
      · exact evaluated.bind fun (outcome, s') continues => collecting_immediate continues _
      · exact collecting_nothing .refl
    · split
      · exact evaluated.bind fun (outcome, s') continues => collecting_immediate continues _
      · exact collecting_nothing .refl
    · split
      · refine evaluated.bind fun (outcome, s') continues => ?_
        simp only
        split
        · exact collecting_nothing continues
        · exact collecting_immediate continues [_]
        · split
          · exact collecting_nothing continues
          · split
            · exact collecting_immediate continues [_]
            · refine nextDepth_fits fits fun below deeper => ⟨continues, ?_⟩
              simpa [Candidate.Fits, WorkKind.Fits] using deeper
      · exact collecting_nothing .refl

theorem ttuTargets_fit (object : ObjectRef)
    (fits : (ReadContinuation.tupleToUserset read).Fits depth) : ∀ targets : List RelationId,
    Ensures (ttuTargets env read object targets)
      (fun candidates => ∀ candidate ∈ candidates, candidate.Fits depth)
  | [] => forall_mem_nil _
  | target :: targets => by
    have rest := ttuTargets_fit object fits targets
    refine .lookup (fun _ => trivial) fun relation _ => .lookup (fun _ => trivial) fun name _ => ?_
    split
    · refine nextDepth_fits fits fun below deeper => rest.bind fun candidates fit => ?_
      exact forall_mem_cons.mpr ⟨deeper, fit⟩
    · exact rest

theorem ttuRow_collecting (restrictions : List DirectRestriction) (tuple : RelationshipTuple)
    (fits : (ReadContinuation.tupleToUserset read).Fits depth) :
    Collecting env depth s (ttuRow env schedule read restrictions tuple s) := by
  unfold ttuRow
  cases matchingRestriction env.model tuple restrictions with
  | error error => trivial
  | ok admitted =>
    simp only [bind, Except.bind]
    split
    · refine (evaluateTupleCondition_continues env schedule depth s tuple).bind
        fun (outcome, s') continues => ?_
      simp only
      split
      · exact collecting_nothing continues
      · exact collecting_immediate continues [_]
      · split
        · exact collecting_nothing continues
        · split
          · exact (ttuTargets_fit _ fits _).bind fun candidates fit => ⟨continues, fit⟩
          · exact collecting_nothing continues
          · exact collecting_nothing continues
    · exact collecting_nothing .refl

theorem collectRows_collecting
    {row : RelationshipTuple → Scheduler → Except CheckError (List Candidate × Scheduler)}
    (each : ∀ tuple s, Collecting env depth s (row tuple s)) :
    ∀ (tuples : List RelationshipTuple) (s : Scheduler),
      Collecting env depth s (collectRows row tuples s)
  | [], _ => collecting_nothing .refl
  | tuple :: tuples, s => by
    refine (each tuple s).bind fun (head, s₁) first => ?_
    refine (collectRows_collecting each tuples s₁).bind fun (rest, s₂) second => ?_
    exact ⟨first.1.trans second.1, forall_mem_append.mpr ⟨first.2, second.2⟩⟩

theorem offerCandidates_continuing (work : Nat) : ∀ (candidates : List Candidate) (operand : Nat)
    (s : Scheduler), (∀ candidate ∈ candidates, candidate.Fits depth) →
    Continuing env depth s (offerCandidates env schedule work operand candidates s)
  | [], _, _, _ => .refl
  | candidate :: candidates, operand, s, fits => by
    obtain ⟨head, rest⟩ := forall_mem_cons.mp fits
    refine unspecified fun active => ?_
    split
    · exact .refl
    · have onwards (s' : Scheduler) (continues : Continues env depth s s') :=
        continues.then (offerCandidates_continuing work candidates (operand + 1) s' rest)
      cases candidate with
      | immediate outcome => exact (acceptOperand_continuing work operand outcome).bind onwards
      | semantic item =>
        have fits : (WorkKind.semantic item).Fits depth := head
        exact (scheduleChildOrError_continuing work operand fits).bind onwards

theorem startCandidates_continuing (work : Nat) {candidates : List Candidate}
    (resolution : CheckResolution) (fits : ∀ candidate ∈ candidates, candidate.Fits depth) :
    Continuing env depth s (s.startCandidates env schedule work candidates resolution) := by
  unfold startCandidates
  split
  · exact complete_continuing ..
  · exact (continues_waiting ..).then (offerCandidates_continuing work candidates 0 _ fits)

theorem finishRows_continuing (work : Nat) {object : ObjectRef} {relation : RelationId}
    {missing : String} {stored : List RelationshipTuple}
    {finish : Scheduler → List RelationshipTuple → Except CheckError Scheduler}
    (finished : ∀ s rows, Continuing env depth s (finish s rows)) : Continuing env depth s
      (s.finishRows env schedule work object relation missing stored finish) := by
  refine unspecified fun relation => ?_
  have charged : Continues env depth s
      (s.chargeTupleItems env schedule stored.length
        (env.contextual.get object relation.name).length).2 := by
    unfold chargeTupleItems
    simp only
    split <;> exact continues_of_slots rfl rfl rfl rfl
  dsimp only
  split
  · rename_i refused
    rw [refused] at charged
    exact charged.then (complete_continuing ..)
  · rename_i admitted
    rw [admitted] at charged
    exact charged.then (finished _ _)

theorem readResult_continues (schedule : Schedule) (read : PendingRead) :
    Continues env depth s (s.readResult env schedule read).2 := by
  unfold readResult
  split
  · exact .refl
  · split <;> exact continues_of_slots rfl rfl rfl rfl

/-- A joined read continues: it starts no other one. -/
theorem finishRead_continuing (paid : s.Paid env depth) (work : Nat)
    (result : Except CheckError (List RelationshipTuple)) :
    Continuing env depth s (s.finishRead env schedule work result) := by
  refine unspecified fun active => ?_
  split
  · exact unspecified fun _ => continues_setState env s work trivial
  · refine .lookup (fun _ => trivial) fun slot found => ?_
    have processing : Continues env depth s (s.setState work .processing) :=
      continues_setState env s work trivial
    split
    · rename_i continuation reading
      have fits : continuation.Fits depth :=
        paid.fits work (.reading continuation) (by rw [stateAt, found, Option.map_some, reading])
      split
      · exact processing.then (complete_continuing ..)
      · split
        · refine processing.then (finishRows_continuing work fun s rows => ?_)
          refine unspecified fun relation => ?_
          exact (collectRows_collecting (fun tuple s => directRow_collecting _ tuple fits) rows
            s).bind fun _ collected =>
              collected.1.then (startCandidates_continuing work _ collected.2)
        · refine processing.then (finishRows_continuing work fun s rows => ?_)
          refine unspecified fun relation => ?_
          exact (collectRows_collecting (fun tuple s => ttuRow_collecting _ tuple fits) rows
            s).bind fun _ collected =>
              collected.1.then (startCandidates_continuing work _ collected.2)
    · trivial

/-- A step keeps the slots paid for. Either it charges no query and starts no read, or it starts
one read for which it was charged, below the ceilings, or it was charged and starts none. -/
structure Scheduler.Serves (env : CheckEnvironment) (depth : Nat) (s s' : Scheduler) : Prop where
  paid : s'.Paid env depth
  queries : s.datastoreQueries ≤ s'.datastoreQueries
  reads : s'.reads = s.reads ∨ (s.reads.length < env.budget.maximumConcurrentReads ∧
    s'.reads.length = s.reads.length + 1 ∧ s'.datastoreQueries = s.datastoreQueries + 1 ∧
    s'.datastoreQueries ≤ env.budget.maximumDatastoreQueries)

theorem Scheduler.Continues.serves (continues : Continues env depth s s')
    (paid : s.Paid env depth) : Serves env depth s s' :=
  ⟨continues.paid paid, continues.queries.ge, .inl continues.reads⟩

theorem startRead_serves (paid : s.Paid env depth) (work : Nat) (relation : RelationId)
    (object : ObjectRef) {continuation : ReadContinuation} (fits : continuation.Fits depth)
    (below : s.reads.length < env.budget.maximumConcurrentReads) :
    Ensures (s.startRead env schedule work relation object continuation) (Serves env depth s) := by
  have refused {s₁ : Scheduler} {error : CheckError}
      (charged : Continues env depth { s with datastoreQueries := s.datastoreQueries + 1 } s₁) :
      Ensures (s₁.complete work (.error error)) (Serves env depth s) := by
    refine (charged.then (complete_continuing work _)).imp fun s' continues => ?_
    refine ⟨continues.paid ⟨paid.slots, paid.bounded, paid.fits⟩, ?_, .inl continues.reads⟩
    rw [continues.queries]
    exact Nat.le_succ _
  unfold startRead
  simp only
  split
  · exact refused .refl
  · rename_i admitted
    have ticked : Continues env depth { s with datastoreQueries := s.datastoreQueries + 1 }
      { s with datastoreQueries := s.datastoreQueries + 1, tick := s.tick + 1 } :=
        continues_of_slots rfl rfl rfl rfl
    split
    · exact refused ticked
    · split
      · exact refused ticked
      · have reading : (WorkState.reading continuation).Fits depth := fits
        have moved := (continues_setState env s work reading).paid paid
        refine ⟨⟨moved.slots, moved.bounded, moved.fits⟩, Nat.le_succ _, .inr ⟨below, ?_, rfl, ?_⟩⟩
        · exact length_append
        · exact Nat.le_of_not_lt admitted

theorem processRewrite_serves (paid : s.Paid env depth) (work : Nat)
    (fits : (WorkKind.rewrite item).Fits depth) :
    Ensures (s.processRewrite env schedule work item) (Serves env depth s) := by
  have continuing {result : Except CheckError Scheduler}
      (continues : Continuing env depth s result) : Ensures result (Serves env depth s) :=
    continues.imp fun _ continues => continues.serves paid
  have deferring {s' : Scheduler} (full : s.deferForReadCapacity env work item = some s') :
      Serves env depth s s' := by
    unfold deferForReadCapacity at full
    split at full
    · cases full
    · cases full
      have queued : (WorkState.queued (.rewrite item)).Fits depth := fits
      have deferred : Continues env depth s
          { s.setState work (.queued (.rewrite item)) with ready := s.ready ++ [work] } :=
        (continues_setState env s work queued).trans (continues_of_slots rfl rfl rfl rfl)
      exact deferred.serves paid
  have reading (relation : RelationId) {continuation : ReadContinuation}
      (fit : continuation.Fits depth) (free : s.deferForReadCapacity env work item = none) :
      Ensures (s.startRead env schedule work relation item.object continuation)
        (Serves env depth s) := by
    unfold deferForReadCapacity at free
    split at free
    · rename_i below
      exact startRead_serves paid work relation item.object fit below
    · cases free
  unfold processRewrite
  split
  · exact continuing (complete_continuing ..)
  · split
    · exact deferring ‹_›
    · exact reading _ fits ‹_›
  · exact continuing (processComputed_continuing work _ fits)
  · split
    · exact deferring ‹_›
    · exact reading _ fits ‹_›
  · exact continuing (startRewriteChildren_continuing work _ _ _ fits)
  · exact continuing (startRewriteChildren_continuing work _ _ _ fits)
  · exact continuing (startRewriteChildren_continuing work _ _ _ fits)

theorem process_serves (paid : s.Paid env depth) (work : Nat) :
    Ensures (s.process env schedule work) (Serves env depth s) := by
  have processing : Continues env depth s (s.setState work .processing) :=
    continues_setState env s work trivial
  have dropped : Continues env depth s (s.setState work .completed) :=
    continues_setState env s work trivial
  unfold process
  cases s.isActive work with
  | error error => trivial
  | ok active =>
    simp only [bind, Except.bind]
    split
    · cases s.slot work with
      | error error => trivial
      | ok slot => exact dropped.serves paid
    · refine .lookup (fun _ => trivial) fun slot found => ?_
      have after := processing.paid paid
      split
      · rename_i item queued
        have fits := paid.fits work (.queued (.semantic item))
          (by rw [stateAt, found, Option.map_some, queued])
        exact (processing.then (processSemantic_continuing work fits)).imp
          fun _ continues => continues.serves paid
      · rename_i item queued
        have fits := paid.fits work (.queued (.rewrite item))
          (by rw [stateAt, found, Option.map_some, queued])
        exact (processRewrite_serves after work fits).imp fun s' serves =>
          ⟨serves.paid, serves.queries, serves.reads⟩
      · trivial

end Continuing

/-- The states of a run within its rounds, with the number of reads it has started. -/
inductive Moment (env : CheckEnvironment) (schedule : Schedule) (root : SemanticWork) :
    Nat → Scheduler → Prop where
  | start {s : Scheduler} (started : Scheduler.start env schedule root = .ok s) :
      Moment env schedule root 0 s
  | asked {started : Nat} {s s' : Scheduler} (before : Moment env schedule root started s)
      (checked : s.checkContext schedule = .ok s') : Moment env schedule root started s'
  | processed {started work : Nat} {rest : List Nat} {s s' : Scheduler}
      (before : Moment env schedule root started s) (head : s.ready = work :: rest)
      (done : { s with ready := rest }.process env schedule work = .ok s') :
      Moment env schedule root (started + (s'.reads.length - s.reads.length)) s'
  | joined {started : Nat} {s s' : Scheduler} (before : Moment env schedule root started s)
      (done : s.joinNext env schedule = .ok s') : Moment env schedule root started s'

section Moments

variable {env : CheckEnvironment} {schedule : Schedule} {root : SemanticWork} {started : Nat}
  {s s' : Scheduler}

theorem Moment.processReady : ∀ {available started : Nat} {s : Scheduler},
    Moment env schedule root started s →
    Scheduler.processReady env schedule available s = .ok s' →
    ∃ started, Moment env schedule root started s'
  | 0, started, s, moment, done => by
    cases done
    exact ⟨started, moment⟩
  | available + 1, started, s, moment, done => by
    rw [Scheduler.processReady] at done
    split at done
    · cases done
      exact ⟨started, moment⟩
    · rename_i work rest head
      obtain ⟨s₁, first, done⟩ := bind_eq_ok.mp done
      have next := moment.processed head first
      split at done
      · cases done
        exact ⟨_, next⟩
      · exact next.processReady done

/-- The states between rounds are among them. -/
theorem Reached.moment (reached : Reached env schedule root s) :
    ∃ started, Moment env schedule root started s := by
  induction reached with
  | start started => exact ⟨0, .start started⟩
  | round _ _ driven ih =>
    obtain ⟨started, moment⟩ := ih
    obtain ⟨s₁, checked, driven⟩ := bind_eq_ok.mp driven
    obtain ⟨s₂, drained, driven⟩ := bind_eq_ok.mp driven
    obtain ⟨started, moment⟩ := (moment.asked checked).processReady drained
    split at driven
    · cases driven
      exact ⟨started, moment⟩
    · split at driven
      · split at driven
        · cases driven
        · cases driven
          exact ⟨started, moment⟩
      · exact ⟨started, moment.joined driven⟩

/-- What holds at every moment of a run. -/
structure Accounted (env : CheckEnvironment) (depth started : Nat) (s : Scheduler) : Prop where
  paid : s.Paid env depth
  charged : started ≤ s.datastoreQueries
  started : started ≤ env.budget.maximumDatastoreQueries
  outstanding : s.reads.length ≤ env.budget.maximumConcurrentReads

theorem Accounted.continues (accounted : Accounted env depth started s)
    (continues : Continues env depth s s') : Accounted env depth started s' :=
  ⟨continues.paid accounted.paid, accounted.charged.trans continues.queries.ge, accounted.started,
    continues.reads ▸ accounted.outstanding⟩

theorem Accounted.serves (accounted : Accounted env depth started s)
    (serves : Serves env depth s s') :
    Accounted env depth (started + (s'.reads.length - s.reads.length)) s' := by
  have ⟨_, charged, within, outstanding⟩ := accounted
  have queries := serves.queries
  rcases serves.reads with same | ⟨below, one, charge, admitted⟩
  · rw [same, Nat.sub_self]
    exact ⟨serves.paid, charged.trans queries, within, same ▸ outstanding⟩
  · exact ⟨serves.paid, by omega, by omega, by omega⟩

theorem start_accounted (path : root.path = ∅)
    (started : Scheduler.start env schedule root = .ok s) : Accounted env root.depth 0 s := by
  have fits : (WorkKind.semantic root).Fits root.depth := by
    rw [WorkKind.Fits, path, Finset.card_empty, Nat.zero_add]
  have empty : Accounted env root.depth 0 .new :=
    ⟨⟨le_rfl, Nat.zero_le _, fun id state found => by cases found⟩, le_rfl, Nat.zero_le _,
      Nat.zero_le _⟩
  have tried : Continues env root.depth .new _ := trySchedule_continues env schedule none fits
  unfold Scheduler.start at started
  split at started
  · rename_i created
    cases started
    rw [created] at tried
    exact empty.continues tried
  · cases started

theorem joinNext_accounted (accounted : Accounted env depth started s)
    (done : s.joinNext env schedule = .ok s') : Accounted env depth started s' := by
  unfold joinNext at done
  split at done
  · cases done
  · cases done
  · simp only at done
    split at done
    · cases done
      exact accounted.continues (continues_of_slots rfl rfl rfl rfl)
    · rename_i read _
      have taken : Accounted env depth started { s.ticked with
          reads := s.reads.eraseIdx (schedule.nextRead s.tick % s.reads.length) } :=
        ⟨⟨accounted.paid.slots, accounted.paid.bounded, accounted.paid.fits⟩, accounted.charged,
          accounted.started, (length_eraseIdx_le ..).trans accounted.outstanding⟩
      have joined := taken.continues (readResult_continues schedule read)
      exact joined.continues ((finishRead_continuing joined.paid _ _).of_ok done)

theorem Moment.accounted (path : root.path = ∅) (moment : Moment env schedule root started s) :
    Accounted env root.depth started s := by
  induction moment with
  | start begun => exact start_accounted path begun
  | asked _ checked ih =>
    exact ih.continues ((checkContext_continues env schedule root.depth _).of_ok checked)
  | @processed _ work rest s _ _ _ done ih =>
    have popped : Accounted env root.depth _ { s with ready := rest } :=
      ih.continues (continues_of_slots rfl rfl rfl rfl)
    exact popped.serves ((process_serves popped.paid work).of_ok done)
  | joined _ done ih => exact joinNext_accounted ih done

end Moments

/-- One attempt to charge a shared counter: the value to exchange for the used one. -/
def SharedCounter.charge (maximum amount used : Nat) : Option Nat :=
  if used + amount < 2 ^ 32 ∧ used + amount ≤ maximum then some (used + amount) else none

def SharedCounter.Counts (maximum used : Nat) (charged : List Nat) : Prop :=
  used = charged.sum ∧ used ≤ maximum

theorem SharedCounter.total_le {maximum : Nat} {w : CompareExchange.World Nat Nat}
    (reached : Machine.Reaches (CompareExchange.World.step (charge maximum)) (fun _ _ => True)
      (.new 0) w) : w.admitted.sum ≤ maximum := by
  have unconditional : Machine.Reaches (CompareExchange.World.step (charge maximum))
      (CompareExchange.Allows fun _ _ => True) (.new 0) w :=
    reached.mono fun _ _ _ _ _ _ _ => trivial
  have counts : Counts maximum w.cell w.admitted := by
    refine CompareExchange.reaches_invariant unconditional ⟨rfl, Nat.zero_le _⟩ ?_
    intro used charged amount next counts _ updated
    obtain ⟨below, updated⟩ := Option.ite_none_right_eq_some.mp updated
    cases updated
    exact ⟨by rw [counts.1, sum_cons, Nat.add_comm], below.2⟩
  exact counts.1 ▸ counts.2

/-- The ceilings of a check hold at every moment of each of its runs, and the calls that charge
one shared counter, in any interleaving, charge at most its limit. -/
theorem ceilings_hold (env : CheckEnvironment) (object : ObjectRef) (relation : RelationId)
    (subject : SubjectRef) (depth : Nat) :
    let root : SemanticWork := ⟨object, relation, subject, ∅, depth⟩
    (∀ schedule s, Reached env schedule root s → ∃ started, Moment env schedule root started s) ∧
    (∀ schedule started s, Moment env schedule root started s →
      s.slots.length ≤ env.budget.maximumDispatches ∧
      started ≤ env.budget.maximumDatastoreQueries ∧
      s.reads.length ≤ env.budget.maximumConcurrentReads ∧
      ∀ work item, s.stateAt work = some (.queued (.semantic item)) →
        item.depth = item.path.card + depth) ∧
    ∀ maximum w, Machine.Reaches (CompareExchange.World.step (SharedCounter.charge maximum))
      (fun _ _ => True) (.new 0) w → w.admitted.sum ≤ maximum := by
  refine ⟨fun schedule s reached => reached.moment, fun schedule started s moment => ?_,
    fun maximum w reached => SharedCounter.total_le reached⟩
  have accounted := moment.accounted rfl
  exact ⟨accounted.paid.bounded, accounted.started, accounted.outstanding,
    fun work item queued => accounted.paid.fits work _ queued⟩

end OpenFga
