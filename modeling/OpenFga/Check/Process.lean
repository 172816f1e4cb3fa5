import OpenFga.Check.Moves

/-!
# Processing a queued slot

Each function that processes a queued slot is given one specification: it keeps
the state coherent, does not raise the cost that bounds the number of rounds, and
can only end the run with a ceiling or an interruption.
-/

namespace OpenFga

open Scheduler List

variable {resolution : Option CheckResolution} {reducer : Reducer} {target : Target} {ghost : Ghost}
  {s s' : Scheduler} {error : CheckError} {env : CheckEnvironment} {item : RewriteWork}
  {count : Nat} {parent : Option ParentLink} {node : RewriteNode}

/-- The error ends a run at once: a ceiling or an interruption. -/
def CheckError.Ends (error : CheckError) : Prop :=
  error.IsLimit ∧ error.kind ≠ .internal

instance (error : CheckError) : Decidable error.Ends :=
  inferInstanceAs (Decidable (error.IsLimit ∧ error.kind ≠ .internal))

namespace Reducer

/-- Every operand delivered so far has failed, and none from `next` on is delivered. -/
structure Failing (reducer : Reducer) (next total : Nat) : Prop where
  length : reducer.outcomes.length = total
  vacant : ∀ {index : Nat}, next ≤ index → index < total → reducer.outcomes[index]? = some none
  failed : ∀ {outcome : Evaluation}, some outcome ∈ reducer.outcomes →
    ∃ error, outcome = .error error

variable {next total : Nat}

theorem failing_new (kind : ReducerKind) (total : Nat) (resolution : Option CheckResolution) :
    (new kind total resolution).Failing 0 total := by
  refine ⟨by simp [new], ?_, by simp [new]⟩
  intro index _ inside
  simp [new, inside]

theorem Failing.later (failing : reducer.Failing next total) : reducer.Failing (next + 1) total :=
  ⟨failing.length, fun from' => failing.vacant (by omega), failing.failed⟩

theorem Failing.deliver (failing : reducer.Failing next total) (error : CheckError) :
    (reducer.deliver next (.error error)).Failing (next + 1) total := by
  refine ⟨by simpa [Reducer.deliver] using failing.length, ?_, ?_⟩
  · intro index later inside
    simp only [Reducer.deliver]
    rw [getElem?_set_ne (by omega)]
    exact failing.vacant (by omega) inside
  · intro outcome member
    rcases mem_or_eq_of_mem_set member with old | same
    · exact failing.failed old
    · cases same
      exact ⟨error, rfl⟩

end Reducer

/-- Failures alone never combine to a decision. -/
theorem combine_failures {kind : ReducerKind} {values : List Evaluation} (nonempty : values ≠ [])
    (failed : ∀ value ∈ values, ∃ error, value = .error error) :
    ∃ error, combine kind resolution values = .error error := by
  obtain ⟨value, rest, rfl⟩ := exists_cons_of_ne_nil nonempty
  obtain ⟨error, rfl⟩ := failed value mem_cons_self
  have first : firstError (.error error :: rest) = some error := rfl
  have position : ∀ (index : Nat) (test : Evaluation → Bool),
      (∀ error, test (.error error) = false) →
      ((.error error :: rest : List Evaluation)[index]?.any test) = false := by
    intro index test errors
    cases found : (.error error :: rest : List Evaluation)[index]? with
    | none => rfl
    | some value =>
      obtain ⟨inner, rfl⟩ := failed value (mem_of_getElem? found)
      exact errors inner
  have none' : ∀ (test : Evaluation → Bool), (∀ error, test (.error error) = false) →
      (.error error :: rest : List Evaluation).any test = false := by
    intro test errors
    rw [any_eq_false]
    intro value member
    obtain ⟨inner, rfl⟩ := failed value member
    simp [errors]
  refine ⟨error, ?_⟩
  cases kind with
  | single => rfl
  | union => simp [combine, none' Evaluation.allows fun _ => rfl, first]
  | intersection => simp [combine, none' Evaluation.denies fun _ => rfl, first]
  | difference =>
    simp only [combine, position 0 Evaluation.denies fun _ => rfl,
      position 1 Evaluation.allows fun _ => rfl, first]
    rfl

/-- A reducer that has only seen failures yields nothing before its last operand. -/
theorem Reducer.Failing.total_le {reducer : Reducer} {next total : Nat} {value : Evaluation}
    (failing : reducer.Failing next total) (wellFormed : reducer.WellFormed) (positive : 0 < total)
    (reduction : Reduction reducer (some value)) : total ≤ next := by
  have failures : ∀ outcome ∈ reducer.filled, ∃ error, outcome = .error error := by
    intro outcome member
    obtain ⟨position, present, rfl⟩ := mem_map.mp member
    cases position with
    | none => exact ⟨_, rfl⟩
    | some evaluation => exact failing.failed present
  have nonempty : reducer.filled ≠ [] := by
    intro empty
    have length := congrArg List.length empty
    simp only [filled, length_map, failing.length, length_nil] at length
    omega
  obtain ⟨error, combined⟩ :
      ∃ error, combine reducer.kind reducer.resolution reducer.filled = .error error :=
    combine_failures nonempty failures
  rw [reduction.combined value rfl] at combined
  subst combined
  have complete := reduction.complete_of_error error rfl
  by_contra early
  have open' := failing.vacant le_rfl (by omega)
  rw [outcomes_eq_of_complete wellFormed complete, getElem?_map] at open'
  cases delivered : reducer.delivered[next]? <;> simp [delivered] at open'

/-- An upper bound for the number of rounds left: a slot costs at most being
created, being queued and reading. -/
def Scheduler.cost (env : CheckEnvironment) (s : Scheduler) : Nat :=
  3 * (env.budget.maximumDispatches - s.slots.length) + 2 * s.ready.length + s.reads.length

theorem Scheduler.Resolves.cost_eq {s s' : Scheduler} (resolves : Resolves s s')
    (env : CheckEnvironment) : s'.cost env = s.cost env := by
  simp only [cost, resolves.length, resolves.ready, resolves.reads]

section Handing

variable {work next total : Nat} {kind : WorkKind} {reduction : ReducerKind} (schedule : Schedule)

/-- The slot has handed out its operands below `next`, and none of them has answered
with a decision. -/
structure Hands (target : Target) (ghost : Ghost) (s : Scheduler) (work next total : Nat)
    (reduction : ReducerKind) (resolution : Option CheckResolution) : Prop where
  coherent : Coherent target ghost (.handing work next) s
  below : ChildrenBelow s work next
  waits : ∃ reducer, s.stateAt work = some (.waiting reducer) ∧ reducer.Failing next total ∧
    reducer.kind = reduction ∧ reducer.resolution = resolution

theorem Coherent.idle_of_handing (coherent : Coherent target ghost (.handing work next) s)
    (handed : ∀ reducer, s.stateAt work = some (.waiting reducer) → Active s work →
      reducer.outcomes.length ≤ next) : Coherent target ghost .idle s :=
  { coherent with shape := coherent.shape.idle_of_handing handed }

theorem Coherent.idle_of_completed (coherent : Coherent target ghost (.handing work next) s)
    (done : s.stateAt work = some .completed) : Coherent target ghost .idle s := by
  apply coherent.idle_of_handing
  intro reducer waiting
  rw [done] at waiting
  cases waiting

/-- A slot that has handed out all its operands. -/
theorem Hands.idle (hands : Hands target ghost s work total total reduction resolution) :
    Coherent target ghost .idle s := by
  obtain ⟨coherent, -, reducer, waits, failing, -⟩ := hands
  apply coherent.idle_of_handing
  intro reducer' waits' _
  rw [waits] at waits'
  cases waits'
  exact failing.length.le

/-- A limit is an acceptable outcome of any operand. -/
theorem acceptLimit_spec {spec : Spec} (ends : error.Ends)
    (coherent : Coherent target ghost (.handing work next) s) (below : ChildrenBelow s work next)
    (waited : s.stateAt work = some (.waiting reducer))
    (vacant : reducer.outcomes[next]? = some none)
    (found : (ghost.operands work)[next]? = some spec) :
    ∃ s', s.acceptOperand work next (.error error) = .ok s' ∧
      Accepts target ghost s work next reducer (.error error) s' := by
  refine acceptOperand_spec coherent below waited vacant found ?_ ?_
  · exact .of_limit ((mem_produced_record _).mpr (.inl rfl)) ends.1
  · rintro raised ⟨⟩ internal
    exact absurd internal ends.2

/-- The state is coherent again and the step has cost nothing. -/
structure Settled (target : Target) (s s' : Scheduler) : Prop where
  coherent : ∃ ghost, Coherent target ghost .idle s'
  reads : s'.reads = s.reads
  cost : s'.cost target.env ≤ s.cost target.env

theorem Settled.since {s₁ : Scheduler} (settled : Settled target s₁ s')
    (reads : s₁.reads = s.reads) (cost : s₁.cost target.env ≤ s.cost target.env) :
    Settled target s s' :=
  ⟨settled.coherent, settled.reads.trans reads, settled.cost.trans cost⟩

section Completions

variable (coherent : Coherent target ghost (.processing work) s)
  (processing : s.stateAt work = some .processing) {raises : CheckError → Prop}

include coherent processing

theorem complete_settles {outcome : Evaluation}
    (near : Approximates (s.record outcome).produced (ghost.spec work) outcome)
    (acceptable : Acceptable target.env outcome) :
    Ensures (s.complete work outcome) (Settled target s) raises := by
  obtain ⟨s', completed, completes⟩ := complete_spec coherent processing near acceptable
  rw [completed]
  exact ⟨⟨ghost, completes.coherent⟩, completes.resolves.reads,
    (completes.resolves.cost_eq target.env).le⟩

theorem completeLimit_spec (ends : error.Ends) :
    Ensures (s.complete work (.error error)) (Settled target s) raises := by
  refine complete_settles coherent processing ?_ ?_
  · exact .of_limit ((mem_produced_record _).mpr (.inl rfl)) ends.1
  · rintro raised ⟨⟩ internal
    exact absurd internal ends.2

theorem completeDecision_spec {decision : Decision}
    (settles : Settles (ghost.spec work) (.ok decision)) :
    Ensures (s.complete work (.ok decision)) (Settled target s) raises :=
  complete_settles coherent processing (.of_ok settles) (by rintro error ⟨⟩)

theorem completeFailure_spec (settles : Settles (ghost.spec work) (.error error))
    (benign : Benign target.env error) :
    Ensures (s.complete work (.error error)) (Settled target s) raises := by
  refine complete_settles coherent processing ⟨.inl settles, ?_⟩ ?_
  · rintro raised ⟨⟩
    exact (mem_produced_record _).mpr (.inl rfl)
  · rintro raised ⟨⟩
    exact benign

end Completions

/-- The next `count` dispatches are within the ceiling and the meter admits them. -/
def HasRoom (env : CheckEnvironment) (schedule : Schedule) (s : Scheduler) (count : Nat) : Prop :=
  s.dispatches + count ≤ env.budget.maximumDispatches ∧
    ∀ offset, offset < count → schedule.admitsDispatch (s.tick + offset) = true

theorem HasRoom.mono {schedule : Schedule} {count' : Nat} (room : HasRoom env schedule s count)
    (dispatches : s'.dispatches = s.dispatches) (tick : s'.tick = s.tick) (less : count' ≤ count) :
    HasRoom env schedule s' count' := by
  refine ⟨by rw [dispatches]; exact (Nat.add_le_add_left less _).trans room.1, ?_⟩
  intro offset below
  rw [tick]
  exact room.2 offset (below.trans_le less)

/-- A refused dispatch is charged and changes nothing else. -/
structure Refuses (s s' : Scheduler) : Prop where
  alike : Alike { s with dispatches := s.dispatches + 1 } s'
  ready : s'.ready = s.ready
  reads : s'.reads = s.reads

/-- An admitted dispatch is charged and queues one new slot. -/
structure Dispatches (env : CheckEnvironment) (s s' : Scheduler) (parent : Option ParentLink)
    (kind : WorkKind) : Prop where
  appends : Appends s s' ⟨parent, none, .queued kind⟩
  ready : s'.ready = s.ready ++ [s.slots.length]
  reads : s'.reads = s.reads
  memo : s'.memo = s.memo
  produced : s'.produced = s.produced
  rootResult : s'.rootResult = s.rootResult
  dispatches : s'.dispatches = s.dispatches + 1
  tick : s'.tick = s.tick + 1
  admitted : s'.dispatches ≤ env.budget.maximumDispatches

theorem trySchedule_cases (env : CheckEnvironment) (s : Scheduler) (kind : WorkKind)
    (parent : Option ParentLink) :
    (∃ s', s.trySchedule env schedule kind parent = (false, s') ∧ Refuses s s' ∧
      ¬ HasRoom env schedule s 1) ∨
    ∃ s', s.trySchedule env schedule kind parent = (true, s') ∧
      Dispatches env s s' parent kind := by
  unfold trySchedule
  simp only
  split
  · rename_i exceeded
    refine .inl ⟨_, rfl, ⟨⟨rfl, rfl, rfl, rfl, rfl⟩, rfl, rfl⟩, fun room => ?_⟩
    exact absurd room.1 (by omega)
  · rename_i admitted
    split
    · rename_i refused
      refine .inl ⟨_, rfl, ⟨⟨rfl, rfl, rfl, rfl, rfl⟩, rfl, rfl⟩, fun room => ?_⟩
      have metered : schedule.admitsDispatch s.tick = true := room.2 0 zero_lt_one
      simp [metered] at refused
    · exact .inr ⟨_, rfl, rfl, rfl, rfl, rfl, rfl, rfl, rfl, rfl, Nat.le_of_not_lt admitted⟩

/-- A dispatch that is queued costs less than one that is still to come. -/
theorem Dispatches.cost_le (dispatches : Dispatches env s s' parent kind)
    (dispatched : s.slots.length ≤ s.dispatches) : s'.cost env ≤ s.cost env := by
  have admitted := dispatches.admitted
  rw [dispatches.dispatches] at admitted
  simp only [cost, dispatches.appends.length, dispatches.ready, dispatches.reads,
    length_append, length_singleton]
  omega

theorem Dispatches.room (dispatches : Dispatches env s s' parent kind)
    (room : HasRoom env schedule s (count + 1)) : HasRoom env schedule s' count := by
  have most := room.1
  refine ⟨by rw [dispatches.dispatches]; omega, fun offset small => ?_⟩
  have metered := room.2 (offset + 1) (by omega)
  rwa [Nat.add_comm offset 1, ← Nat.add_assoc, ← dispatches.tick] at metered

/-- What handing out one operand has achieved: the slot goes on with the next one,
or every operand was refused and it is completed. -/
structure Scheduled (target : Target) (schedule : Schedule) (ghost : Ghost) (s : Scheduler)
    (work next total : Nat) (reduction : ReducerKind) (resolution : Option CheckResolution)
    (ghost' : Ghost) (s' : Scheduler) : Prop where
  operands : ghost'.operands = ghost.operands
  reads : s'.reads = s.reads
  cost : s'.cost target.env ≤ s.cost target.env
  room : ∀ count, HasRoom target.env schedule s (count + 1) → HasRoom target.env schedule s' count
  after : Hands target ghost' s' work (next + 1) total reduction resolution ∧
      s'.linkAt work = s.linkAt work ∧
      (∀ id, id < s.slots.length → id ≠ work → s'.stateAt id = s.stateAt id) ∨
    Coherent target ghost' .idle s' ∧ next + 1 = total

/-- Handing an operand to a new child, or failing it when the ceiling refuses. -/
theorem scheduleChild_spec (hands : Hands target ghost s work next total reduction resolution)
    (inside : next < total) (found : (ghost.operands work)[next]? = some (target.work kind))
    (valid : target.env.model.WorkValid kind) :
    ∃ s' ghost', s.scheduleChildOrError target.env schedule work next kind = .ok s' ∧
      Scheduled target schedule ghost s work next total reduction resolution ghost' s' := by
  obtain ⟨coherent, below, reducer, waits, failing, same⟩ := hands
  have vacant := failing.vacant le_rfl inside
  rcases trySchedule_cases schedule target.env s kind (some ⟨work, next⟩) with
    ⟨s₁, refused, refuses, noRoom⟩ | ⟨s₁, pushed, dispatches⟩
  · simp only [scheduleChildOrError, refused]
    have alike := refuses.alike
    have charged : Coherent target ghost (.handing work next) s₁ :=
      coherent.congr alike.slots refuses.ready refuses.reads alike.memo alike.produced
        alike.rootResult (by rw [alike.dispatches]; exact Nat.le_succ _)
    have states : ∀ id, s₁.stateAt id = s.stateAt id := fun id => by
      simp only [stateAt, alike.slots]
    have links : ∀ id, s₁.linkAt id = s.linkAt id := fun id => by simp only [linkAt, alike.slots]
    have below₁ : ChildrenBelow s₁ work next := fun up => below ((links _).symm.trans up)
    obtain ⟨s', accepted, accepts⟩ := acceptLimit_spec
      (show CheckError.dispatchExceeded.Ends by decide) charged below₁ ((states work).trans waits)
      vacant found
    have cost : s₁.cost target.env = s.cost target.env := by
      simp only [cost, alike.slots, refuses.ready, refuses.reads]
    refine ⟨s', ghost, accepted, rfl, accepts.resolves.reads.trans refuses.reads,
      ((accepts.resolves.cost_eq target.env).trans cost).le, ?_, ?_⟩
    · intro count room
      exact absurd (room.mono rfl rfl (by omega)) noRoom
    obtain ⟨result, -, reduction, waiting, completed⟩ := accepts.taken
    have after := failing.deliver .dispatchExceeded
    cases result with
    | none =>
      obtain ⟨waits', others⟩ := waiting rfl
      exact .inl ⟨⟨accepts.coherent, accepts.below, _, waits', after, same⟩,
        (accepts.resolves.links work).trans (links work),
        fun id _ other => (others id other).trans (states id)⟩
    | some value =>
      have fits := (coherent.shape.reducers waits (by simp)).1.deliver vacant
        (.error .dispatchExceeded)
      have last := after.total_le fits (by omega) reduction
      exact .inr ⟨accepts.coherent.idle_of_completed (completed value rfl).1, by omega⟩
  · simp only [scheduleChildOrError, pushed]
    have appends := dispatches.appends
    obtain ⟨after, below'⟩ := coherent.push below appends
      (.inr ⟨reducer, waits, vacant⟩) found valid
      rfl dispatches.ready dispatches.reads dispatches.memo dispatches.produced
      dispatches.rootResult dispatches.dispatches dispatches.admitted
    have lower := lt_length_of_stateAt waits
    refine ⟨s₁, ghost.withSpec s.slots.length (target.work kind), rfl, rfl, dispatches.reads,
      dispatches.cost_le coherent.dispatched, fun count => dispatches.room schedule,
      .inl ⟨⟨after, below', reducer, ?_, failing.later, same⟩, ?_, ?_⟩⟩
    · rw [appends.stateAt, if_neg (by omega)]
      exact waits
    · rw [appends.linkAt, if_neg (by omega)]
    · intro id small _
      rw [appends.stateAt, if_neg (by omega)]

theorem scheduleNodes_spec (origin : RewriteWork) {raises : CheckError → Prop} :
    ∀ (nodes : List NodeId) (next : Nat) (ghost : Ghost) (s : Scheduler),
    Hands target ghost s work next (next + nodes.length) reduction resolution →
    (∀ (index : Nat) (node : NodeId), nodes[index]? = some node →
      (ghost.operands work)[next + index]? = some (target.work (.rewrite { origin with node }))) →
    (∀ node ∈ nodes, target.env.model.WorkValid (.rewrite { origin with node })) →
    Ensures (scheduleNodes target.env schedule work origin next nodes s) (Settled target s)
      raises := by
  intro nodes
  induction nodes with
  | nil => exact fun next ghost s hands _ _ => ⟨⟨ghost, hands.idle⟩, rfl, le_rfl⟩
  | cons node nodes ih =>
    intro next ghost s hands operands valid
    obtain ⟨reducer, waits, failing, -⟩ := hands.waits
    have inside := lt_length_of_stateAt waits
    rw [scheduleNodes]
    by_cases active : Active s work
    · rw [isActive_of_active hands.coherent.links inside active]
      simp only [bind, Except.bind, Bool.not_true, Bool.false_eq_true, if_false]
      obtain ⟨s₁, ghost₁, returned, scheduled⟩ :=
        scheduleChild_spec schedule hands (by simp) (operands 0 node rfl)
          (valid node mem_cons_self)
      rw [returned]
      simp only
      rcases scheduled.after with ⟨hands', -⟩ | ⟨coherent, last⟩
      · refine (ih (next + 1) ghost₁ s₁ ?_ ?_ ?_).imp fun s' settled =>
          settled.since scheduled.reads scheduled.cost
        · simpa [Nat.add_assoc, Nat.add_comm 1] using hands'
        · intro index other found
          have := operands (index + 1) other (by simpa using found)
          rwa [scheduled.operands, Nat.add_assoc, Nat.add_comm 1]
        · exact fun other member => valid other (mem_cons_of_mem _ member)
      · -- the last operand was refused, and with it every operand has failed
        have empty : nodes = [] := by
          rw [← length_eq_zero_iff]
          simp only [length_cons] at last
          omega
        subst empty
        exact ⟨⟨ghost₁, coherent⟩, scheduled.reads, scheduled.cost⟩
    · rw [isActive_of_not_active hands.coherent.links inside active]
      refine ⟨⟨ghost, ?_⟩, rfl, le_rfl⟩
      exact hands.coherent.idle_of_handing fun _ _ active' => absurd active' active

theorem cost_setState (env : CheckEnvironment) (s : Scheduler) (work : Nat) (state : WorkState) :
    (s.setState work state).cost env = s.cost env := by
  simp only [cost, length_setState]
  rfl

/-- Starting to wait for rewrite children that stand for the operands of the evaluation. -/
theorem startRewriteChildren_spec (origin : RewriteWork) (nodes : List NodeId)
    (reduction : ReducerKind) (resolution : CheckResolution) {raises : CheckError → Prop}
    (coherent : Coherent target ghost (.processing work) s)
    (processing : s.stateAt work = some .processing)
    (combined : ∀ fuel, ghost.spec work fuel = combine reduction (some resolution)
      (nodes.map fun node => target.work (.rewrite { origin with node }) fuel))
    (nonempty : nodes ≠ []) (notSingle : reduction ≠ .single)
    (difference : reduction = .difference → nodes.length = 2)
    (valid : ∀ node ∈ nodes, target.env.model.WorkValid (.rewrite { origin with node })) :
    Ensures (s.startRewriteChildren target.env schedule work origin nodes reduction resolution)
      (Settled target s) raises := by
  have waits := coherent.wait processing reduction (some resolution)
    (nodes.map fun node => target.work (.rewrite { origin with node }))
    ⟨0, fun fuel => by simpa [map_map, Function.comp_def] using combined fuel⟩
    (by simpa using nonempty) (fun single => absurd single notSingle) (by simpa using difference)
  rw [length_map] at waits
  have now : (s.setState work (.waiting (.new reduction nodes.length (some resolution)))).stateAt
      work = some (.waiting (.new reduction nodes.length (some resolution))) :=
    stateAt_setState_self (lt_length_of_stateAt processing) _
  refine (scheduleNodes_spec schedule origin nodes 0 _ _ ⟨waits.1, waits.2, _, now, ?_, rfl, rfl⟩
    (fun index node found => by simp [found]) valid).imp
      fun s' settled => settled.since rfl (cost_setState ..).le
  rw [Nat.zero_add]
  exact Reducer.failing_new _ _ _

end Handing

section Process

variable {work : Nat} (schedule : Schedule)

theorem mem_of_lookup {α β : Type} [DecidableEq α] {entries : List (α × β)} {key : α} {value : β}
    (found : entries.lookup key = some value) : (key, value) ∈ entries := by
  induction entries with
  | nil => cases found
  | cons entry entries ih =>
    obtain ⟨key', value'⟩ := entry
    rw [lookup_cons] at found
    split at found
    · rename_i same
      cases found
      rw [beq_iff_eq.mp same]
      exact mem_cons_self
    · exact mem_cons_of_mem _ (ih found)

theorem nextDepth_spec (depth : Nat) :
    Ensures (nextDepth depth) (fun _ => True) CheckError.Ends := by
  unfold nextDepth
  split
  · trivial
  · exact (show CheckError.depthExceeded.Ends by decide)

/-- What processing a slot has achieved: the slot may have started to read, or it
was put back behind outstanding reads. -/
structure Processed (target : Target) (s s' : Scheduler) : Prop where
  coherent : ∃ ghost, Coherent target ghost .idle s'
  reads : s.reads.length ≤ s'.reads.length
  cost : s'.cost target.env ≤ s.cost target.env + 1 ∨
    s'.cost target.env ≤ s.cost target.env + 2 ∧ s'.reads ≠ []

theorem Settled.processed (settled : Settled target s s') : Processed target s s' :=
  ⟨settled.coherent, by rw [settled.reads], .inl (settled.cost.trans (Nat.le_succ _))⟩

/-- A rewrite item stands for the expansion of its node. -/
theorem Target.work_rewrite (found : target.env.model.node item.node = some node) :
    target.work (.rewrite item) = target.rewrite item.subject item.object item.path
      (node.expand target.env.model.tree) := by
  have expanded : target.env.model.tree item.node = node.expand target.env.model.tree :=
    rewriteTree_eq target.env.model.children_precede found
  rw [Target.work, expanded]

/-- The children of a valid node are valid. -/
theorem CompiledModel.WorkValid.child {model : CompiledModel} {child : NodeId}
    (valid : model.WorkValid (.rewrite item)) (found : model.node item.node = some node)
    (member : child ∈ node.children) : model.WorkValid (.rewrite { item with node := child }) := by
  obtain ⟨⟨id, relation, node', relationFound, visited, nodeFound⟩, subject⟩ := valid
  have smaller := model.children_precede.child_lt found member
  have inside : item.node.index < model.nodes.length := (List.getElem?_eq_some_iff.mp found).1
  exact ⟨⟨id, relation, _, relationFound, child_visited visited found member,
    getElem?_eq_getElem (smaller.trans inside)⟩, subject⟩

section Slots

variable (coherent : Coherent target ghost (.processing work) s)
  (processing : s.stateAt work = some .processing)

include coherent processing

/-- Starting to wait for a single child. -/
theorem scheduleSingle_spec (kind : WorkKind) {raises : CheckError → Prop}
    (combined : ∃ shift, ∀ fuel, ghost.spec work (fuel + shift) =
      combine .single resolution [target.work kind fuel])
      (valid : target.env.model.WorkValid kind) :
    Ensures ((s.setState work (.waiting (.new .single 1 resolution))).scheduleChildOrError
      target.env schedule work 0 kind) (Settled target s) raises := by
  obtain ⟨waiting, below⟩ := coherent.wait processing .single resolution [target.work kind]
    (by simpa using combined) (by simp) (by simp) (by simp)
  simp only [length_singleton] at waiting below
  have now : (s.setState work (.waiting (.new .single 1 resolution))).stateAt work =
      some (.waiting (.new .single 1 resolution)) :=
    stateAt_setState_self (lt_length_of_stateAt processing) _
  obtain ⟨s', ghost', returned, scheduled⟩ := scheduleChild_spec schedule
    ⟨waiting, below, _, now, Reducer.failing_new _ _ _, rfl, rfl⟩ zero_lt_one (by simp) valid
  rw [returned]
  refine ⟨⟨ghost', ?_⟩, scheduled.reads, scheduled.cost.trans (cost_setState ..).le⟩
  rcases scheduled.after with ⟨hands, -⟩ | ⟨idle, -⟩
  · exact hands.idle
  · exact idle

theorem processSemantic_spec {item : SemanticWork}
    (valid : target.env.model.WorkValid (.semantic item))
    (spec : ghost.spec work = target.work (.semantic item)) :
    Ensures (s.processSemantic target.env schedule work item) (Settled target s)
      CheckError.Ends := by
  obtain ⟨⟨relation, relationFound⟩, subjectType, subjectFound⟩ := valid
  unfold processSemantic
  split
  · exact completeLimit_spec coherent processing (show CheckError.depthExceeded.Ends by decide)
  simp only
  have deeper : Coherent target ghost (.processing work)
      { s with maximumDepth := max s.maximumDepth item.depth } :=
    coherent.congr rfl rfl rfl rfl rfl rfl le_rfl
  split
  · rename_i decision remembered
    have settles : Settles (ghost.spec work) (.ok decision) := by
      rw [spec]
      exact coherent.meaning.memo _ (mem_of_lookup remembered)
    exact (completeDecision_spec deeper processing settles).imp fun s' settled =>
      settled.since rfl le_rfl
  · -- from here on the slot remembers its key
    generalize keyed : ({ s with
      maximumDepth := max s.maximumDepth item.depth
      slots := s.slots.modify work fun slot => { slot with
        memoKey := some ⟨⟨item.object, item.relation, item.subject⟩, item.path⟩ } } : Scheduler) =
          s₁
    have keySpec : ghost.spec work =
        target.memo ⟨⟨item.object, item.relation, item.subject⟩, item.path⟩ := spec
    obtain ⟨coherent₁, processing₁⟩ : Coherent target ghost (.processing work) s₁ ∧
        s₁.stateAt work = some .processing := by
      subst keyed
      exact deeper.remember processing keySpec rfl rfl rfl rfl rfl rfl rfl
    have cost : s₁.cost target.env = s.cost target.env := by
      rw [← keyed]
      simp only [cost, length_modify]
    have reads : s₁.reads = s.reads := by rw [← keyed]
    have lift : ∀ s', Settled target s₁ s' → Settled target s s' := fun s' settled =>
      settled.since reads cost.le
    have unfolded : ∀ fuel, ghost.spec work (fuel + 1) =
        sequential target.env target.ceiling (fuel + 1)
          ⟨item.object, item.relation, item.subject⟩ item.path := fun fuel => by rw [spec]; rfl
    split
    · rename_i entered
      have settles : Settles (ghost.spec work) (.ok (.deny .cycle)) :=
        .of_succ fun fuel => by rw [unfolded, sequential, if_pos entered]
      have counted : Coherent target ghost (.processing work) { s₁ with cycles := s₁.cycles + 1 } :=
        coherent₁.congr rfl rfl rfl rfl rfl rfl le_rfl
      subst keyed
      exact (completeDecision_spec counted processing₁ settles).imp fun s' settled =>
        lift s' (settled.since rfl le_rfl)
    · rename_i fresh
      rw [subjectFound]
      have reachability : (!(if item.subject.isTypedWildcard then
            target.env.model.canReachWildcard item.relation subjectType
          else target.env.model.canReachSubjectType item.relation subjectType)) =
          unreachable target.env.model ⟨item.object, item.relation, item.subject⟩ := by
        simp only [unreachable, subjectFound]
        split <;> rfl
      simp only [reachability]
      split
      · rename_i pruned
        have settles : Settles (ghost.spec work) (.ok (.deny .unreachable)) :=
          .of_succ fun fuel => by rw [unfolded, sequential, if_neg fresh, if_pos pruned]
        exact (completeDecision_spec coherent₁ processing₁ settles).imp lift
      · rename_i reached
        rw [relationFound]
        simp only
        have combined : ∃ shift, ∀ fuel, ghost.spec work (fuel + shift) =
            combine .single none [target.work (.rewrite ⟨item.object, relation.root, item.subject,
              insert ⟨item.object, item.relation, item.subject⟩ item.path, item.depth⟩) fuel] := by
          refine ⟨1, fun fuel => ?_⟩
          rw [unfolded, sequential, if_neg fresh, if_neg reached,
            CompiledModel.rewrite_eq relationFound]
          rfl
        have rootNode : ∃ node, target.env.model.node relation.root = some node := by
          have inside := (target.env.model.relations_valid relation
            (CompiledModel.relation_mem relationFound)).2
          exact ⟨_, getElem?_eq_getElem inside⟩
        obtain ⟨node, nodeFound⟩ := rootNode
        exact (scheduleSingle_spec schedule coherent₁ processing₁ _ combined
          ⟨⟨item.relation, relation, node, relationFound,
            Worklist.start_mem_exploreAll _ childrenOf_outside _, nodeFound⟩,
            subjectType, subjectFound⟩).imp lift

theorem processComputed_spec {relation : RelationId}
    (combined : ∀ fuel, ghost.spec work fuel = combine .single (some .computed)
      [target.semantic ⟨item.object, relation, item.subject⟩ item.path fuel])
    (known : target.env.model.KnowsRelation relation)
    (subject : target.env.model.KnowsSubject item.subject) :
    Ensures (s.processComputed target.env schedule work item relation) (Settled target s)
      CheckError.Ends := by
  refine (nextDepth_spec item.depth).bind fun depth _ => ?_
  exact scheduleSingle_spec schedule coherent processing
    (.semantic ⟨item.object, relation, item.subject, item.path, depth⟩) ⟨0, combined⟩
    ⟨known, subject⟩

theorem deferForReadCapacity_spec (valid : target.env.model.WorkValid (.rewrite item))
    (spec : ghost.spec work = target.work (.rewrite item))
    (deferred : s.deferForReadCapacity target.env work item = some s') : Processed target s s' := by
  obtain ⟨full, deferred⟩ := Option.ite_none_left_eq_some.mp deferred
  cases deferred
  have alike : Alike s { s with ready := s.ready ++ [work] } := ⟨rfl, rfl, rfl, rfl, rfl⟩
  refine ⟨⟨ghost, coherent.requeue processing alike rfl rfl valid spec⟩, le_rfl, .inr ⟨?_, ?_⟩⟩
  · have length : (s.setState work (.queued (.rewrite item))).slots.length = s.slots.length :=
      length_setState ..
    simp only [cost, length, length_append, length_singleton]
    simp only [setState]
    omega
  · have positive := target.env.budget.concurrentReads.positive
    intro empty
    rw [show s.reads = [] from empty] at full
    exact full positive

theorem startRead_spec (continuation : ReadContinuation)
    (valid : target.env.model.ReadValid continuation)
    (known : target.env.model.KnowsRelation continuation.relation)
    (spec : ghost.spec work = target.read continuation) :
    Ensures (s.startRead target.env schedule work continuation.relation continuation.object
      continuation) (Processed target s) CheckError.Ends := by
  obtain ⟨relation, found⟩ := known
  have limit : CheckError.datastoreExceeded.Ends := by decide
  unfold startRead
  simp only
  split
  · have counted : Coherent target ghost (.processing work)
        { s with datastoreQueries := s.datastoreQueries + 1 } :=
      coherent.congr rfl rfl rfl rfl rfl rfl le_rfl
    exact (completeLimit_spec counted processing limit).imp fun s' settled =>
      Settled.processed (settled.since rfl le_rfl)
  · split
    · have asked : Coherent target ghost (.processing work)
          ({ s with datastoreQueries := s.datastoreQueries + 1 } : Scheduler).ticked :=
        coherent.congr rfl rfl rfl rfl rfl rfl le_rfl
      exact (completeLimit_spec asked processing limit).imp fun s' settled =>
        Settled.processed (settled.since rfl le_rfl)
    · rw [found]
      simp only
      have alike : Alike s { ({ s with datastoreQueries := s.datastoreQueries + 1 } :
        Scheduler).ticked
          with reads := s.reads ++ [⟨work, continuation.object, relation.name⟩] } :=
        ⟨rfl, rfl, rfl, rfl, rfl⟩
      refine ⟨⟨ghost, coherent.startRead processing alike rfl rfl found valid spec⟩, ?_, .inl ?_⟩
      · simp only [length_append, setState, ticked]
        omega
      · simp only [cost, setState, ticked, length_append, length_singleton,
          length_modify]
        omega

theorem processRewrite_spec (valid : target.env.model.WorkValid (.rewrite item))
    (spec : ghost.spec work = target.work (.rewrite item)) :
    Ensures (s.processRewrite target.env schedule work item) (Processed target s)
      CheckError.Ends := by
  obtain ⟨⟨id, relation, node, relationFound, visited, nodeFound⟩, subject⟩ := id valid
  have inScope := CompiledModel.visited_scoped relationFound visited nodeFound
  have equal := spec.trans (Target.work_rewrite nodeFound)
  have children : ∀ child ∈ node.children,
      target.env.model.WorkValid (.rewrite { item with node := child }) :=
    fun child => valid.child nodeFound
  unfold processRewrite
  rw [nodeFound]
  cases node with
  | direct owner =>
    simp only
    cases deferred : s.deferForReadCapacity target.env work item with
    | some s' => exact deferForReadCapacity_spec coherent processing valid spec deferred
    | none =>
      have known : target.env.model.KnowsRelation owner := ⟨relation, inScope ▸ relationFound⟩
      exact startRead_spec schedule coherent processing
        (.direct ⟨owner, item.object, item.subject, item.path, item.depth⟩)
        ⟨known, subject⟩ known equal
  | computed computed =>
    have known : target.env.model.KnowsRelation computed := by
      obtain ⟨relation', found, -⟩ := Option.map_eq_some_iff.mp inScope
      exact ⟨relation', found⟩
    refine (processComputed_spec schedule coherent processing ?_ known subject).imp
      fun s' settled => settled.processed
    intro fuel
    rw [equal]
    rfl
  | tupleToUserset tupleset computed targets =>
    simp only
    cases deferred : s.deferForReadCapacity target.env work item with
    | some s' => exact deferForReadCapacity_spec coherent processing valid spec deferred
    | none =>
      obtain ⟨tuplesetType, -, -, source, -, -, -, targetsKnown⟩ := inScope
      have known : target.env.model.KnowsRelation tupleset := by
        obtain ⟨relation', found, -⟩ := Option.map_eq_some_iff.mp tuplesetType
        exact ⟨relation', found⟩
      have each : ∀ target' ∈ targets, target.env.model.KnowsRelation target' := by
        intro target' member
        obtain ⟨restriction, -, key⟩ := targetsKnown target' member
        obtain ⟨relation', found, -⟩ := Option.map_eq_some_iff.mp key
        exact ⟨relation', found⟩
      exact startRead_spec schedule coherent processing
        (.tupleToUserset ⟨tupleset, targets, item.object, item.subject, item.path, item.depth⟩)
        ⟨known, each, subject⟩ known equal
  | union nodes | intersection nodes =>
    refine (startRewriteChildren_spec schedule item nodes _ _ coherent processing ?_ ?_ (by simp)
      (by simp) children).imp fun s' settled => settled.processed
    · intro fuel
      rw [equal]
      simp [Target.rewrite, RewriteNode.expand, sequentialRewrite, sequentialRewrites_eq_map,
        Target.work, Function.comp_def]
    · rintro rfl
      simp [NodeScoped] at inScope
  | difference base subtract =>
    refine (startRewriteChildren_spec schedule item [base, subtract] _ _ coherent processing ?_
      (by simp) (by simp) (by simp) children).imp fun s' settled => settled.processed
    intro fuel
    rw [equal]
    simp [Target.rewrite, RewriteNode.expand, sequentialRewrite, Target.work]

end Slots

/-- What one step has achieved: less is left to do, unless a slot was put back
behind outstanding reads. -/
structure Advances (target : Target) (s s' : Scheduler) : Prop where
  coherent : ∃ ghost, Coherent target ghost .idle s'
  reads : s.reads.length ≤ s'.reads.length
  cost : s'.cost target.env < s.cost target.env ∨
    s'.cost target.env ≤ s.cost target.env ∧ s'.reads ≠ []

/-- Processing the slot at the head of the ready queue. -/
theorem process_spec {rest : List Nat} (coherent : Coherent target ghost .idle s)
    (head : s.ready = work :: rest) :
    Ensures (process target.env schedule { s with ready := rest } work) (Advances target s)
      CheckError.Ends := by
  obtain ⟨kind, queued⟩ := coherent.queues.ready_iff.mp (head ▸ mem_cons_self)
  have inside := lt_length_of_stateAt queued
  have alike : Alike s { s with ready := rest } := ⟨rfl, rfl, rfl, rfl, rfl⟩
  have links : Links { s with ready := rest } := coherent.links.congr alike.slots
  have activity : Active { s with ready := rest } work ↔ Active s work := active_congr alike.slots
  obtain ⟨slot, -, looked, state, -⟩ :=
    slot_eq_ok (show ({ s with ready := rest } : Scheduler).stateAt work = _ from queued)
  unfold process
  by_cases active : Active s work
  · rw [isActive_of_active links inside (activity.mpr active)]
    simp only [bind, Except.bind, Bool.not_true, Bool.false_eq_true, if_false, looked, state]
    have taken := coherent.take alike head rfl rfl queued
    have processing := alike.now queued .processing
    obtain ⟨valid, spec⟩ := coherent.meaning.states queued
    have cost : (({ s with ready := rest } : Scheduler).setState work .processing).cost
        target.env + 2 = s.cost target.env := by
      simp only [cost, length_setState, head, length_cons]
      simp only [setState]
      omega
    have advances : ∀ {s'}, Processed target
        (({ s with ready := rest } : Scheduler).setState work .processing) s' →
        Advances target s s' := by
      intro s' processed
      refine ⟨processed.coherent, processed.reads, ?_⟩
      rcases processed.cost with less | ⟨same, outstanding⟩
      · exact .inl (by omega)
      · exact .inr ⟨by omega, outstanding⟩
    cases kind with
    | semantic item =>
      exact (processSemantic_spec schedule taken processing valid spec).imp
        fun s' settled => advances settled.processed
    | rewrite item =>
      exact (processRewrite_spec schedule taken processing valid spec).imp fun s' => advances
  · rw [isActive_of_not_active links inside fun active' => active (activity.mp active')]
    simp only [bind, Except.bind, Bool.not_false, if_true, looked]
    refine ⟨⟨ghost, coherent.dropReady alike head rfl rfl queued active⟩, le_rfl, .inl ?_⟩
    simp only [cost, length_setState, head, length_cons]
    simp only [setState]
    omega

end Process

end OpenFga
