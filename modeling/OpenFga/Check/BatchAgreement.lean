import OpenFga.Check.Batch
import OpenFga.Lib.OrderedMap

/-!
# Batches without a cache

`batchCheck_eq` says what a batch returns when nothing interrupts it: the entry of each
item, where the item stands, whatever order the items finish in. The entry is compared
with the check that asks for the item alone. They differ in two places. A batch applies
the limits of the input policy to the joined contexts, which were not applied when the
contexts were received; and it reports an interrupted read under the code of the read.
Apart from limits, a run only reports interruptions that the reader reported to it
(`reportable_sequential`), so with a prompt reader the contexts are all that matters.
-/

namespace OpenFga

open Std OrderedMap List

section Contextual

variable {contextual : ContextualMap} {tuples tuples' : List RelationshipTuple} {key : TupleKey}

theorem ContextualMap.getElem?_insertAll_of_absent
    (absent : ∀ tuple ∈ tuples, tuple.key ≠ key) :
    (contextual.insertAll tuples)[key]? = contextual[key]? := by
  induction tuples generalizing contextual with
  | nil => rfl
  | cons tuple tuples ih =>
    have other : tuple.key ≠ key := absent tuple mem_cons_self
    have rest : (insertAll (contextual.insert tuple.key tuple.condition) tuples)[key]? =
        (contextual.insert tuple.key tuple.condition)[key]? :=
      ih fun tuple member => absent tuple (mem_cons_of_mem _ member)
    exact rest.trans (getElem?_insert_of_ne other)

theorem ContextualMap.getElem?_insertAll_of_mem {tuple : RelationshipTuple}
    (nodup : (tuples.map RelationshipTuple.key).Nodup) (member : tuple ∈ tuples) :
    (contextual.insertAll tuples)[tuple.key]? = some tuple.condition := by
  induction tuples generalizing contextual with
  | nil => cases member
  | cons first tuples ih =>
    rw [map_cons, nodup_cons] at nodup
    rcases mem_cons.mp member with rfl | later
    · have absent : ∀ other ∈ tuples, other.key ≠ tuple.key := by
        intro other inside same
        exact nodup.1 (same ▸ mem_map_of_mem inside)
      have rest : (insertAll (contextual.insert tuple.key tuple.condition) tuples)[tuple.key]? =
          (contextual.insert tuple.key tuple.condition)[tuple.key]? :=
        getElem?_insertAll_of_absent absent
      exact rest.trans ExtTreeMap.getElem?_insert_self
    · exact ih nodup.2 later

theorem ContextualMap.insertAll_perm (nodup : (tuples.map RelationshipTuple.key).Nodup)
    (perm : tuples.Perm tuples') : insertAll ∅ tuples = insertAll ∅ tuples' := by
  apply ExtTreeMap.ext_getElem?
  intro key
  by_cases held : ∃ tuple ∈ tuples, tuple.key = key
  · obtain ⟨tuple, member, rfl⟩ := held
    rw [getElem?_insertAll_of_mem nodup member,
      getElem?_insertAll_of_mem ((perm.map _).nodup nodup) (perm.mem_iff.mp member)]
  · have absent : ∀ tuple ∈ tuples, tuple.key ≠ key := by
      intro tuple member same
      exact held ⟨tuple, member, same⟩
    rw [getElem?_insertAll_of_absent absent,
      getElem?_insertAll_of_absent fun tuple member => absent tuple (perm.mem_iff.mpr member)]

/-- Indexing the tuples of an index gives it back. -/
theorem ContextualMap.insertAll_ofMap (contextual : ContextualMap) :
    insertAll ∅ (ContextualIndex.ofMap contextual).tuples = contextual := by
  apply ExtTreeMap.ext_getElem?
  intro key
  have listed : ∀ condition, (⟨key, condition⟩ : RelationshipTuple) ∈
      (ContextualIndex.ofMap contextual).tuples ↔ contextual[key]? = some condition := by
    intro condition
    rw [← ExtTreeMap.mem_toList_iff_getElem?_eq_some]
    constructor
    · intro member
      obtain ⟨entry, inside, same⟩ := mem_map.mp member
      cases same
      exact inside
    · exact fun inside => mem_map.mpr ⟨_, inside, rfl⟩
  cases found : contextual[key]? with
  | some condition =>
    exact getElem?_insertAll_of_mem (ContextualIndex.ofMap contextual).keys_nodup
      ((listed condition).mpr found)
  | none =>
    rw [getElem?_insertAll_of_absent]
    · exact ExtTreeMap.getElem?_empty
    · intro tuple member same
      cases same
      rw [(listed tuple.condition).mp member] at found
      cases found

theorem ContextualIndex.new_toContextualTuples (base : ContextualTuples)
    (overlay : Option ContextualTuples) :
    new (new base overlay).toContextualTuples none = new base overlay :=
  congrArg ofMap (ContextualMap.insertAll_ofMap _)

theorem ContextualIndex.new_perm {base base' : ContextualTuples}
    (perm : base.tuples.Perm base'.tuples) : new base none = new base' none :=
  congrArg ofMap (ContextualMap.insertAll_perm base.keys_nodup perm)

end Contextual

section Entries

variable (setting : CheckSetting) (schedule : BatchSchedule) (query : QueryContext)

/-- What a batch returns for one of its items. -/
def batchEntry (index : Nat) (item : BatchCheckItem) : BatchCheckResult where
  correlationId := item.correlationId
  outcome :=
    match query.conditionContext.overlay item.conditionContext setting.inputLimits with
    | .error _ => .error (.new .invalidTuple "batch_condition_context_invalid")
    | .ok conditionContext =>
        evaluateRoot
          (setting.environment (.new query.contextualTuples (some item.contextualTuples))
            conditionContext)
          (schedule.item index) (query.rootInput item.tuple)

/-- The entries of items that start at a position. -/
def batchEntries (index : Nat) (items : List BatchCheckItem) : List BatchCheckResult :=
  (items.zipIdx index).map fun entry => batchEntry setting schedule query entry.2 entry.1

theorem getElem?_batchEntries (index position : Nat) (items : List BatchCheckItem) :
    (batchEntries setting schedule query index items)[position]? =
      items[position]?.map (batchEntry setting schedule query (index + position)) := by
  rw [batchEntries, getElem?_map, getElem?_zipIdx, Option.map_map]
  rfl

end Entries

section Rounds

variable {setting : CheckSetting} {schedule : BatchSchedule} {query : QueryContext}
  {entries : List BatchCheckResult}

/-- Every place holds its entry, or its job is still to be collected. -/
structure BatchRun.Accounted (setting : CheckSetting) (schedule : BatchSchedule)
    (entries : List BatchCheckResult) (s : BatchRun) : Prop where
  planned : ∀ job ∈ s.pending ++ s.jobs,
    entries[job.index]? = some (job.result setting schedule)
  length : s.results.length = entries.length
  placed : ∀ position entry, entries[position]? = some entry →
    s.results[position]? = some (some entry) ∨
      ∃ job ∈ s.pending ++ s.jobs, job.index = position

/-- The jobs that are not collected yet. -/
def BatchRun.outstanding (s : BatchRun) : Nat := s.pending.length + s.jobs.length

variable (setting schedule query) in
theorem prepareItems_accounted (index : Nat) (items : List BatchCheckItem) :
    (∀ job ∈ (prepareItems setting query index items).1, index ≤ job.index ∧
      (batchEntries setting schedule query index items)[job.index - index]? =
        some (job.result setting schedule)) ∧
    (prepareItems setting query index items).2.length = items.length ∧
    ∀ position item, items[position]? = some item →
      (prepareItems setting query index items).2[position]? =
          some (some (batchEntry setting schedule query (index + position) item)) ∨
        ∃ job ∈ (prepareItems setting query index items).1, job.index = index + position := by
  induction items generalizing index with
  | nil => exact ⟨nofun, rfl, fun _ _ found => by cases found⟩
  | cons item items ih =>
    obtain ⟨planned, length, placed⟩ := ih (index + 1)
    have later : ∀ job ∈ (prepareItems setting query (index + 1) items).1, index ≤ job.index ∧
        (batchEntries setting schedule query index (item :: items))[job.index - index]? =
          some (job.result setting schedule) := by
      intro job member
      obtain ⟨after, entry⟩ := planned job member
      have shift : job.index - index = job.index - (index + 1) + 1 := by omega
      rw [shift]
      exact ⟨by omega, entry⟩
    have shifted : ∀ position, index + 1 + position = index + (position + 1) := by omega
    unfold prepareItems
    split
    · rename_i failure refused
      refine ⟨later, congrArg (· + 1) length, ?_⟩
      intro position asked found
      cases position with
      | zero =>
        cases found
        left
        simp only [getElem?_cons_zero, batchEntry, refused]
      | succ position =>
        simpa only [shifted, getElem?_cons_succ] using placed position asked found
    · rename_i context accepted
      refine ⟨?_, congrArg (· + 1) length, ?_⟩
      · intro job member
        rcases mem_cons.mp member with rfl | member
        · refine ⟨le_rfl, ?_⟩
          rw [getElem?_batchEntries, Nat.sub_self, getElem?_cons_zero, Option.map_some,
            batchEntry, accepted]
          rfl
        · exact later job member
      · intro position asked found
        cases position with
        | zero => exact .inr ⟨_, mem_cons_self, rfl⟩
        | succ position =>
          rcases placed position asked found with done | ⟨job, member, same⟩
          · left
            simpa only [shifted, getElem?_cons_succ] using done
          · exact .inr ⟨job, mem_cons_of_mem _ member, same.trans (shifted position)⟩

theorem fill_append (width : Nat) (pending jobs : List BatchJob) :
    (fill width pending jobs).1 ++ (fill width pending jobs).2 = pending ++ jobs := by
  induction jobs generalizing pending with
  | nil => rfl
  | cons job jobs ih =>
    unfold fill
    split
    · rw [ih, append_assoc]
      rfl
    · rfl

/-- With room for a job, one is running after the fill unless there is none. -/
theorem fill_eq_nil {width : Nat} (room : 1 ≤ width) {pending jobs : List BatchJob}
    (idle : (fill width pending jobs).1 = []) : pending = [] ∧ jobs = [] := by
  have grows : ∀ pending jobs, pending <+: (fill width pending jobs).1 := by
    intro pending jobs
    induction jobs generalizing pending with
    | nil => exact prefix_rfl
    | cons job jobs ih =>
      unfold fill
      split
      · exact (prefix_append _ _).trans (ih _)
      · exact prefix_rfl
  have none : pending = [] := prefix_nil.mp (idle ▸ grows pending jobs)
  subst none
  refine ⟨rfl, ?_⟩
  cases jobs with
  | nil => rfl
  | cons job jobs =>
    unfold fill at idle
    rw [if_pos (show [].length < width from room)] at idle
    have started := grows [job] jobs
    rw [nil_append] at idle
    rw [idle] at started
    cases prefix_nil.mp started

theorem BatchRun.Accounted.fill {s : BatchRun}
    (accounted : s.Accounted setting schedule entries) (width : Nat) :
    BatchRun.Accounted setting schedule entries
      { s with pending := (OpenFga.fill width s.pending s.jobs).1
               jobs := (OpenFga.fill width s.pending s.jobs).2 } := by
  obtain ⟨planned, length, placed⟩ := accounted
  rw [← fill_append width] at planned
  simp only [← fill_append width s.pending s.jobs] at placed
  exact ⟨planned, length, placed⟩

/-- Nothing interrupts the batch, and no task fails. -/
def BatchSchedule.Undisturbed (schedule : BatchSchedule) : Prop :=
  ∀ round, ∃ choice, schedule.collect round = .joined choice

/-- A round collects one job that is running. -/
theorem collectBatchResult_accounted {s : BatchRun} (undisturbed : schedule.Undisturbed)
    (accounted : s.Accounted setting schedule entries) (running : s.pending ≠ []) (round : Nat) :
    ∃ s', collectBatchResult setting schedule round s = .ok s' ∧
      s'.Accounted setting schedule entries ∧ s'.outstanding + 1 = s.outstanding := by
  obtain ⟨choice, event⟩ := undisturbed round
  unfold collectBatchResult
  rw [if_neg (by simpa using running), event]
  simp only
  split
  · rename_i idle
    exact absurd (JoinSet.joinNext_eq_none idle) running
  · rename_i job pending joined
    have perm := JoinSet.joinNext_perm joined
    have inside : ∀ other, other ∈ s.pending ++ s.jobs ↔
        other = job ∨ other ∈ pending ++ s.jobs := by
      intro other
      rw [(perm.append_right s.jobs).mem_iff, cons_append, mem_cons]
    have entry := accounted.planned job ((inside job).mpr (.inl rfl))
    have bound : job.index < s.results.length := by
      rw [accounted.length]
      exact (List.getElem?_eq_some_iff.mp entry).1
    rw [if_pos bound]
    refine ⟨_, rfl, ⟨?_, ?_, ?_⟩, ?_⟩
    · exact fun other member => accounted.planned other ((inside other).mpr (.inr member))
    · exact (length_set ..).trans accounted.length
    · intro position expected found
      by_cases here : job.index = position
      · left
        subst here
        rw [getElem?_set_self bound]
        exact congrArg some (entry.symm.trans found)
      · rw [getElem?_set_ne here]
        refine (accounted.placed position expected found).imp_right ?_
        rintro ⟨other, member, same⟩
        rcases (inside other).mp member with rfl | member
        · exact absurd same here
        · exact ⟨other, member, same⟩
    · have lengths := perm.length_eq
      simp only [BatchRun.outstanding, length_cons] at lengths ⊢
      omega

/-- Enough rounds collect every job. -/
theorem runRounds_accounted (undisturbed : schedule.Undisturbed) :
    ∀ (fuel round : Nat) (s : BatchRun), s.Accounted setting schedule entries →
      s.outstanding ≤ fuel → ∃ s', runRounds setting schedule fuel round s = .ok s' ∧
        s'.Accounted setting schedule entries ∧ s'.outstanding = 0 := by
  intro fuel
  induction fuel with
  | zero => exact fun round s accounted bound => ⟨s, rfl, accounted, Nat.le_zero.mp bound⟩
  | succ fuel ih =>
    intro round s accounted bound
    unfold runRounds
    split
    · rename_i ended
      rw [Bool.and_eq_true, List.isEmpty_iff, List.isEmpty_iff] at ended
      exact ⟨s, rfl, accounted, by simp [BatchRun.outstanding, ended]⟩
    · rename_i goesOn
      have running : (fill setting.batchConcurrency.get s.pending s.jobs).1 ≠ [] := by
        intro idle
        obtain ⟨pending, jobs⟩ := fill_eq_nil setting.batchConcurrency.positive idle
        simp [pending, jobs] at goesOn
      obtain ⟨s', collected, accounted', fewer⟩ := collectBatchResult_accounted undisturbed
        (accounted.fill setting.batchConcurrency.get) running round
      have lengths := congrArg length
        (fill_append setting.batchConcurrency.get s.pending s.jobs)
      rw [length_append, length_append] at lengths
      simp only [BatchRun.outstanding] at fewer bound lengths
      obtain ⟨last, ran, done⟩ := ih (round + 1) s' accounted' (by
        simp only [BatchRun.outstanding]
        omega)
      refine ⟨last, ?_, done⟩
      simp only [collected, bind, Except.bind, ran]

theorem orderedResults_map_some (results : List BatchCheckResult) :
    orderedResults (results.map some) = .ok results := by
  induction results with
  | nil => rfl
  | cons result results ih =>
    simp only [map_cons, orderedResults, ih]
    rfl

/-- When every job is collected, the places hold the entries. -/
theorem BatchRun.Accounted.results_eq {s : BatchRun}
    (accounted : s.Accounted setting schedule entries) (collected : s.outstanding = 0) :
    s.results = entries.map some := by
  have drained : s.pending ++ s.jobs = [] := by
    rw [← length_eq_zero_iff, length_append]
    exact collected
  apply ext_getElem?
  intro position
  rw [getElem?_map]
  cases found : entries[position]? with
  | none =>
    rw [getElem?_eq_none_iff] at found
    exact getElem?_eq_none (accounted.length ▸ found)
  | some entry =>
    rcases accounted.placed position entry found with placed | ⟨job, member, -⟩
    · exact placed
    · rw [drained] at member
      cases member

/-- A batch that nothing interrupts returns the entries of its items in their order. -/
theorem batchCheck_eq (undisturbed : schedule.Undisturbed) (command : BatchCheckCommand) :
    batchCheck setting schedule command =
      (validateModelIdentity (command.query.rootInput (command.items.head command.nonempty).tuple)
        setting.model).map fun _ => batchEntries setting schedule command.query 0
          command.items := by
  unfold batchCheck prepareBatch
  cases validateModelIdentity (command.query.rootInput
      (command.items.head command.nonempty).tuple) setting.model with
  | error error => rfl
  | ok _ =>
    obtain ⟨planned, length, placed⟩ :=
      prepareItems_accounted setting schedule command.query 0 command.items
    set prepared := prepareItems setting command.query 0 command.items
    have start : BatchRun.Accounted setting schedule
        (batchEntries setting schedule command.query 0 command.items)
        ⟨prepared.1, [], prepared.2⟩ := by
      refine ⟨fun job member => (planned job member).2, ?_, ?_⟩
      · rw [length, batchEntries, length_map, length_zipIdx]
      · intro position entry found
        rw [getElem?_batchEntries, Option.map_eq_some_iff] at found
        obtain ⟨item, asked, rfl⟩ := found
        simpa only [Nat.zero_add, nil_append] using placed position item asked
    obtain ⟨s, ran, accounted, collected⟩ := runRounds_accounted undisturbed prepared.1.length 0
      _ start (by simp [BatchRun.outstanding])
    simp only [bind, Except.bind, runBatch, ran, accounted.results_eq collected,
      orderedResults_map_some]
    rfl

/-- The entry of an item whose context is refused. -/
theorem batchCheck_refused (undisturbed : schedule.Undisturbed) (command : BatchCheckCommand)
    (item : BatchCheckItem) {failure : ValidationError} (alone : command.items = [item])
    (valid : validateModelIdentity (command.query.rootInput item.tuple) setting.model = .ok ())
    (refused : command.query.conditionContext.overlay item.conditionContext
      setting.inputLimits = .error failure) :
    batchCheck setting schedule command = .ok [⟨item.correlationId,
      .error (.new .invalidTuple "batch_condition_context_invalid")⟩] := by
  have identified : validateModelIdentity (command.query.rootInput
      (command.items.head command.nonempty).tuple) setting.model = .ok () := valid
  have entry : batchEntry setting schedule command.query 0 item =
      ⟨item.correlationId, .error (.new .invalidTuple "batch_condition_context_invalid")⟩ := by
    simp only [batchEntry, refused]
  rw [batchCheck_eq undisturbed, identified, alone, ← entry]
  rfl

end Rounds

section Errors

variable {env : CheckEnvironment} {ceiling : Nat} {recurse : ObjectRef → RelationId → Evaluation}
  {tuple : RelationshipTuple} {operand : Operand}

/-- What can be reported after validation: a failure of the reader, or an error that neither
comes from a read nor refuses a tuple. -/
def CheckEnvironment.Reports (env : CheckEnvironment) (error : CheckError) : Prop :=
  (∃ object relation kind, env.readFailure object relation = some kind ∧ error = .ofRead kind) ∨
    error.kind ≠ .invalidTuple ∧ error.source.any CheckErrorSource.isRead = false

/-- The outcome reports what can be reported. -/
def Evaluation.Reportable (env : CheckEnvironment) (outcome : Evaluation) : Prop :=
  ∀ error, outcome = .error error → env.Reports error

theorem reportable_combine {kind : ReducerKind} {resolution : Option CheckResolution}
    {values : List Evaluation} (each : ∀ value ∈ values, value.Reportable env) :
    (combine kind resolution values).Reportable env :=
  fun error failed => each _ (mem_of_combine_eq_error failed) error rfl

theorem reportable_rowCondition {outcome : Evaluation}
    (found : rowCondition env ceiling tuple = some outcome) : outcome.Reportable env := by
  rintro error rfl
  unfold rowCondition at found
  split at found
  · cases found
  · split at found
    · cases found
    · unfold conditionResult at found
      split at found
      · split at found <;> cases found
      · split at found <;> cases found <;> exact .inr ⟨nofun, rfl⟩

section

variable (inner : ∀ object relation, (recurse object relation).Reportable env)

include inner

theorem reportable_directOperands {subject : SubjectRef} {restrictions : List DirectRestriction}
    (member : operand ∈ directOperands env ceiling subject restrictions tuple) :
    (operand.evaluate recurse).Reportable env := by
  have immediate : operand ∈ (rowCondition env ceiling tuple).toList.map Operand.immediate →
      (operand.evaluate recurse).Reportable env := by
    intro member
    obtain ⟨outcome, held, rfl⟩ := mem_map.mp member
    exact reportable_rowCondition (Option.mem_toList.mp held)
  unfold directOperands at member
  split at member
  · cases member
  · split at member
    · exact immediate member
    · cases member
  · split at member
    · exact immediate member
    · cases member
  · split at member
    · split at member
      · cases member
      · rename_i found
        cases mem_singleton.mp member
        exact reportable_rowCondition found
      · rename_i found
        split at member
        · cases member
        · split at member <;> cases mem_singleton.mp member
          · exact reportable_rowCondition found
          · exact inner _ _
    · cases member

theorem reportable_ttuOperands {restrictions : List DirectRestriction} {targets : List RelationId}
    (member : operand ∈ ttuOperands env ceiling restrictions targets tuple) :
    (operand.evaluate recurse).Reportable env := by
  unfold ttuOperands at member
  split at member
  · split at member
    · cases member
    · rename_i found
      cases mem_singleton.mp member
      exact reportable_rowCondition found
    · split at member
      · cases member
      · split at member
        · obtain ⟨target, -, rfl⟩ := mem_map.mp member
          exact inner _ _
        · cases member
  · cases member

omit inner in
theorem reportable_sequentialRead {operands : RelationshipTuple → List Operand}
    (each : ∀ tuple, ∀ operand ∈ operands tuple, (operand.evaluate recurse).Reportable env)
    (resolution : CheckResolution) (object : ObjectRef) (relation : RelationName) :
    (sequentialRead env recurse resolution object relation operands).Reportable env := by
  unfold sequentialRead readRows CheckEnvironment.readObjectRelation
  cases failure : env.readFailure object relation with
  | some kind =>
    rintro error ⟨⟩
    exact .inl ⟨object, relation, kind, failure, rfl⟩
  | none =>
    change (combine .union _ _).Reportable env
    apply reportable_combine
    intro value member
    obtain ⟨operand, held, rfl⟩ := mem_map.mp member
    obtain ⟨tuple, -, held⟩ := mem_flatMap.mp held
    exact each tuple operand held

theorem reportable_sequentialRewrite (subject : SubjectRef) (object : ObjectRef) (tree : Rewrite) :
    (sequentialRewrite env ceiling recurse subject object tree).Reportable env := by
  have broken : Evaluation.Reportable env (.error (.model "read_relation_invalid")) := by
    rintro error ⟨⟩
    exact .inr ⟨by decide, rfl⟩
  induction tree with
  | direct owner =>
    unfold sequentialRewrite sequentialDirect
    split
    · exact broken
    · exact reportable_sequentialRead (fun _ _ => reportable_directOperands inner) _ _ _
  | computed target =>
    exact reportable_combine fun value member => mem_singleton.mp member ▸ inner _ _
  | tupleToUserset tupleset targets =>
    unfold sequentialRewrite sequentialTtu
    split
    · exact broken
    · exact reportable_sequentialRead (fun _ _ => reportable_ttuOperands inner) _ _ _
  | union children ih | intersection children ih =>
    unfold sequentialRewrite
    apply reportable_combine
    rw [sequentialRewrites_eq_map]
    intro value member
    obtain ⟨child, held, rfl⟩ := mem_map.mp member
    exact ih child held
  | difference base subtract baseReports subtractReports =>
    unfold sequentialRewrite
    apply reportable_combine
    intro value member
    rcases mem_pair.mp member with rfl | rfl
    · exact baseReports
    · exact subtractReports

end

/-- The sequential evaluation only reports what can be reported. -/
theorem reportable_sequential (fuel : Nat) : ∀ key path,
    (sequential env ceiling fuel key path).Reportable env := by
  induction fuel with
  | zero =>
    rintro key path error ⟨⟩
    exact .inr ⟨by decide, rfl⟩
  | succ fuel ih =>
    intro key path
    unfold sequential
    split
    · rintro error ⟨⟩
    · split
      · rintro error ⟨⟩
      · apply reportable_combine
        intro value member
        cases mem_singleton.mp member
        exact reportable_sequentialRewrite (fun _ _ => ih _ _) _ _ _

/-- Not the code under which a batch refuses the context of an item. -/
def TupleValidationError.Distinct (failure : TupleValidationError) : Prop :=
  failure.code ≠ "batch_condition_context_invalid"

instance (failure : TupleValidationError) : Decidable failure.Distinct :=
  inferInstanceAs (Decidable (failure.code ≠ _))

theorem validateConditional_code (model : CompiledModel) (binding : ConditionBinding)
    (restrictions : List DirectRestriction) :
    Ensures (model.validateConditional binding restrictions) (fun _ => True)
      TupleValidationError.Distinct := by
  have folds : ∀ matched, Ensures (restrictions.foldlM (model.validateConditionalStep binding)
      matched) (fun _ => True) TupleValidationError.Distinct := by
    induction restrictions with
    | nil => exact fun _ => trivial
    | cons restriction restrictions ih =>
      intro matched
      have step : Ensures (model.validateConditionalStep binding matched restriction)
          (fun _ => True) TupleValidationError.Distinct := by
        unfold CompiledModel.validateConditionalStep
        split
        · trivial
        · split
          · exact ensures_error.mpr (by decide)
          · split
            · trivial
            · split
              · trivial
              · exact ensures_error.mpr (show "relationship_condition_context_invalid"
                  ≠ _ by decide)
      rw [foldlM_cons]
      exact step.bind fun next _ => ih next
  unfold CompiledModel.validateConditional
  refine .lookup (fun _ => by decide) fun id _ => (folds false).bind fun matched _ => ?_
  split
  · trivial
  · exact ensures_error.mpr (by decide)

theorem validateRelationshipCondition_code (model : CompiledModel) (tuple : RelationshipTuple)
    (restrictions : List DirectRestriction) :
    Ensures (model.validateRelationshipCondition tuple restrictions) (fun _ => True)
      TupleValidationError.Distinct := by
  unfold CompiledModel.validateRelationshipCondition
  refine .lookup (fun _ => by decide) fun subjectType _ => ?_
  refine .lookup (fun _ => by decide) fun directClass _ => ?_
  simp only
  split
  · exact ensures_error.mpr (by decide)
  · split
    · unfold validateUnconditional
      split
      · trivial
      · exact ensures_error.mpr (by decide)
    · exact validateConditional_code model _ _

theorem validateRelationshipTuple_code (model : CompiledModel) (tuple : RelationshipTuple) :
    Ensures (model.validateRelationshipTuple tuple) (fun _ => True)
      TupleValidationError.Distinct := by
  unfold CompiledModel.validateRelationshipTuple
  refine .lookup (fun _ => by decide) fun objectType _ => ?_
  refine .lookup (fun _ => by decide) fun id _ => ?_
  refine .lookup (fun _ => by decide) fun relation _ => ?_
  refine .lookup (fun _ => by decide) fun subjectType _ => ?_
  have condition := validateRelationshipCondition_code model tuple relation.restrictions
  split
  · exact .lookup (fun _ => by decide) fun _ _ => condition
  · exact condition

variable {schedule : Schedule} {input : RootInput} {error : CheckError}

/-- Without limits an answered error refuses the request, or can be reported by a run. -/
theorem reports_of_unlimited (unlimited : Unlimited env schedule input)
    (failed : evaluateRoot env schedule input = .error error) :
    error.kind = .invalidModel ∨
      error.kind = .invalidTuple ∧ error.code ≠ "batch_condition_context_invalid" ∨
      env.Reports error := by
  rcases evaluateRoot_cases env input with ⟨raised, refused, always⟩ | ⟨relation, named, answered⟩
  · cases failed.symm.trans (always schedule)
    rcases refused with kind | ⟨kind, tuple, failure, refused, code⟩
    · exact .inl kind
    · have distinct := (validateRelationshipTuple_code env.model tuple).of_error refused
      exact .inr (.inl ⟨kind, code ▸ distinct⟩)
  · have settles := settles_of_unlimited named (answered schedule) unlimited
    rw [failed] at settles
    obtain ⟨fuel, same⟩ := settles.exists
    exact .inr (.inr (reportable_sequential fuel _ _ error same))

end Errors

section Single

variable (setting : CheckSetting) (command : BatchCheckCommand)

/-- The reader neither times out nor is cancelled, other than by the request itself. -/
def CheckSetting.Prompt : Prop :=
  ∀ object relation, setting.readFailure object relation ≠ some .cancelled ∧
    setting.readFailure object relation ≠ some .timeout

/-- The identity of the model that the whole batch is asked against. -/
def BatchCheckCommand.Identified : Prop :=
  validateModelIdentity (command.query.rootInput (command.items.head command.nonempty).tuple)
    setting.model = .ok ()

/-- The context of the batch, joined with that of the item, is within the input policy. -/
def BatchCheckCommand.Accepts (item : BatchCheckItem) : Prop :=
  ∃ context, command.query.conditionContext.overlay item.conditionContext setting.inputLimits =
    .ok context

/-- No item meets a limit in these surroundings. -/
def BatchCheckCommand.Unlimited (alone : Nat → Schedule) : Prop :=
  ∀ position item, command.items[position]? = some item →
    OpenFga.Unlimited ((command.single item).environment setting) (alone position)
      (command.single item).input

/-- One result for each item, in order and under its identifier, with the outcome of the
check that asks for it alone. -/
structure BatchCheckCommand.Answers (alone : Nat → Schedule) (results : List BatchCheckResult) :
    Prop where
  ids : results.map BatchCheckResult.correlationId =
    command.items.map BatchCheckItem.correlationId
  outcomes : ∀ position item result, command.items[position]? = some item →
    results[position]? = some result →
      result.outcome.reported = (check setting (alone position) (command.single item)).reported

variable {setting command} {item : BatchCheckItem} {schedule : BatchSchedule}
  {alone : Nat → Schedule} {position : Nat}

/-- An accepted context is the one in which the item is asked alone. -/
theorem single_environment {context : ConditionContext}
    (accepted : command.query.conditionContext.overlay item.conditionContext
      setting.inputLimits = .ok context) :
    (command.single item).environment setting =
      setting.environment (.new command.query.contextualTuples (some item.contextualTuples))
        context := by
  rw [ConditionContext.new_eq_ok accepted]
  unfold CheckCommand.environment BatchCheckCommand.single
  rw [ContextualIndex.new_toContextualTuples]

theorem canonicalizeCheckControlError_eq {error : CheckError}
    (control : error.kind ≠ .cancelled ∧ error.kind ≠ .timeout) :
    canonicalizeCheckControlError error = error := by
  unfold canonicalizeCheckControlError
  split
  · exact absurd ‹_› control.1
  · exact absurd ‹_› control.2
  · rfl

section Check

variable {asked : CheckCommand} {surroundings : Schedule}
  (unlimited : Unlimited (asked.environment setting) surroundings asked.input)

include unlimited

/-- With a prompt reader a check reports the error of its evaluation as it is. -/
theorem check_eq_evaluateRoot (prompt : setting.Prompt) : check setting surroundings asked =
    evaluateRoot (asked.environment setting) surroundings asked.input := by
  unfold check
  cases evaluated : evaluateRoot (asked.environment setting) surroundings asked.input with
  | ok decision => rfl
  | error error =>
    refine congrArg Except.error (canonicalizeCheckControlError_eq ?_)
    rcases reports_of_unlimited unlimited evaluated with kind | ⟨kind, -⟩ | read | ⟨-, other⟩
    · exact ⟨kind ▸ nofun, kind ▸ nofun⟩
    · exact ⟨kind ▸ nofun, kind ▸ nofun⟩
    · obtain ⟨object, relation, kind, failure, rfl⟩ := read
      obtain ⟨uncancelled, timely⟩ := prompt object relation
      cases kind with
      | cancelled => exact absurd failure uncancelled
      | timeout => exact absurd failure timely
      | _ => exact (by decide)
    · -- an interruption that no read reports would be a limit
      have within := unlimited.answered error evaluated
      constructor <;> intro kind <;> exact within ⟨by simp [kind], other⟩

/-- No check refuses a context under the code of a batch. -/
theorem check_not_refused (prompt : setting.Prompt) :
    (check setting surroundings asked).reported ≠
      .error (.invalidTuple, "batch_condition_context_invalid") := by
  rw [check_eq_evaluateRoot unlimited prompt]
  cases evaluated : evaluateRoot (asked.environment setting) surroundings asked.input with
  | ok decision => nofun
  | error error =>
    intro same
    obtain ⟨refused, code⟩ := Prod.mk.injEq .. ▸ Except.error.inj same
    rcases reports_of_unlimited unlimited evaluated with kind | ⟨-, distinct⟩ | read | ⟨other, -⟩
    · cases kind.symm.trans refused
    · exact distinct code
    · obtain ⟨-, -, kind, -, rfl⟩ := read
      cases kind <;> cases refused
    · exact other refused

end Check

section Agreement

variable (prompt : setting.Prompt) (inside : command.Unlimited setting schedule.item)
  (outside : command.Unlimited setting alone)

include prompt inside outside

/-- An entry reports the outcome of the check exactly if the context is accepted. -/
theorem reported_entry_iff (asked : command.items[position]? = some item) :
    (batchEntry setting schedule command.query position item).outcome.reported =
        (check setting (alone position) (command.single item)).reported ↔
      command.Accepts setting item := by
  have single := outside position item asked
  unfold batchEntry BatchCheckCommand.Accepts
  simp only
  cases overlaid : command.query.conditionContext.overlay item.conditionContext
      setting.inputLimits with
  | error failure =>
    exact ⟨fun same => absurd same.symm (check_not_refused single prompt), nofun⟩
  | ok context =>
    rw [check_eq_evaluateRoot single prompt, answers_agree single (inside position item asked),
      single_environment overlaid]
    exact ⟨fun _ => ⟨context, rfl⟩, fun _ => rfl⟩

/-- The entries of a batch answer it exactly when every context is accepted. -/
theorem entries_answer_iff :
    command.Answers setting alone (batchEntries setting schedule command.query 0 command.items) ↔
      ∀ item ∈ command.items, command.Accepts setting item := by
  constructor
  · intro answers item member
    obtain ⟨position, asked⟩ := mem_iff_getElem?.mp member
    rw [← reported_entry_iff prompt inside outside asked]
    apply answers.outcomes position item _ asked
    rw [getElem?_batchEntries, asked, Option.map_some, Nat.zero_add]
  · intro accepted
    constructor
    · rw [batchEntries, map_map]
      conv_rhs => rw [← zipIdx_map_fst 0 command.items, map_map]
      rfl
    · intro position item result asked found
      rw [getElem?_batchEntries, asked, Option.map_some, Nat.zero_add, Option.some.injEq] at found
      subst found
      exact (reported_entry_iff prompt inside outside asked).mpr
        (accepted item (mem_of_getElem? asked))

theorem batch_answers_iff (undisturbed : schedule.Undisturbed) :
    (∃ results, batchCheck setting schedule command = .ok results ∧
        command.Answers setting alone results) ↔
      command.Identified setting ∧ ∀ item ∈ command.items, command.Accepts setting item := by
  rw [batchCheck_eq undisturbed, ← entries_answer_iff prompt inside outside]
  unfold BatchCheckCommand.Identified
  cases validateModelIdentity (command.query.rootInput
      (command.items.head command.nonempty).tuple) setting.model with
  | error error =>
    constructor
    · rintro ⟨results, failed, -⟩
      cases failed
    · rintro ⟨failed, -⟩
      cases failed
  | ok _ =>
    constructor
    · rintro ⟨results, returned, answers⟩
      cases returned
      exact ⟨rfl, answers⟩
    · exact fun answers => ⟨_, rfl, answers.2⟩

end Agreement

end Single

end OpenFga
