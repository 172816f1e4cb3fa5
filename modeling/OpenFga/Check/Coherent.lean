import OpenFga.Check.Meaning

/-!
# Coherent scheduler states

The invariant of a run: the work graph is well shaped, the slots mean what the
ghost says, the two queues list exactly the queued and the reading slots, and
every slot was paid for by a dispatch. `complete_spec` and `acceptOperand_spec`
say that delivering a right outcome keeps the invariant and never fails as long
as the receiving slot waits for it.
-/

namespace OpenFga

variable {id : Nat} {focus' : Focus} {reducer : Reducer} {env : CheckEnvironment} {s : Scheduler}
  {work operand : Nat} {link : ParentLink} {spec : Spec}

def ReadContinuation.object : ReadContinuation → ObjectRef
  | .direct read => read.object
  | .tupleToUserset read => read.object

def ReadContinuation.relation : ReadContinuation → RelationId
  | .direct read => read.relation
  | .tupleToUserset read => read.tupleset

/-- The ready queue lists the queued slots and the outstanding reads the reading ones. -/
structure Queues (env : CheckEnvironment) (s : Scheduler) : Prop where
  ready_nodup : s.ready.Nodup
  ready_iff : ∀ {id}, id ∈ s.ready ↔ ∃ kind, s.stateAt id = some (.queued kind)
  reads_nodup : (s.reads.map PendingRead.work).Nodup
  reads_iff : ∀ {id}, id ∈ s.reads.map PendingRead.work ↔
    ∃ continuation, s.stateAt id = some (.reading continuation)
  reads_match : ∀ {read continuation}, read ∈ s.reads →
    s.stateAt read.work = some (.reading continuation) → continuation.object = read.object ∧
      ∃ relation, env.model.relation continuation.relation = some relation ∧
        relation.name = read.relation

/-- The reads are as they were, and the ready queue lists the queued slots again. -/
theorem Queues.of_ready {s' : Scheduler} (queues : Queues env s) (nodup : s'.ready.Nodup)
    (listed : ∀ {id}, id ∈ s'.ready ↔ ∃ kind, s'.stateAt id = some (.queued kind))
    (reads : s'.reads = s.reads)
    (reading : ∀ {id continuation}, s'.stateAt id = some (.reading continuation) ↔
      s.stateAt id = some (.reading continuation)) : Queues env s' := by
  refine ⟨nodup, listed, reads ▸ queues.reads_nodup, ?_, ?_⟩
  · intro id
    simp only [reads, queues.reads_iff, reading]
  · intro read continuation member found
    rw [reads] at member
    exact queues.reads_match member (reading.mp found)

/-- The invariant of a run while a step is at the given point. -/
structure Coherent (target : Target) (ghost : Ghost) (focus : Scheduler.Focus) (s : Scheduler) :
    Prop where
  nonempty : 0 < s.slots.length
  links : s.Links
  shape : s.Shape focus
  meaning : Meaning target ghost s
  queues : Queues target.env s
  dispatched : s.slots.length ≤ s.dispatches
  bounded : s.slots.length ≤ target.env.budget.maximumDispatches

namespace Scheduler

/-- The slot is being worked on or waits for its operands. -/
def Busy (state : Option WorkState) : Prop :=
  state = some .processing ∨ ∃ reducer, state = some (.waiting reducer)

/-- The slot is completed or waits for its operands. -/
def Answered (state : Option WorkState) : Prop :=
  state = some .completed ∨ ∃ reducer, state = some (.waiting reducer)

/-- What delivering outcomes can change: only states of slots that were worked on or waited. -/
structure Resolves (s s' : Scheduler) : Prop where
  length : s'.slots.length = s.slots.length
  links : ∀ id, s'.linkAt id = s.linkAt id
  ready : s'.ready = s.ready
  reads : s'.reads = s.reads
  dispatches : s'.dispatches = s.dispatches
  tick : s'.tick = s.tick
  states : ∀ id, s'.stateAt id = s.stateAt id ∨ Busy (s.stateAt id) ∧ Answered (s'.stateAt id)

namespace Resolves

variable {s s' s'' : Scheduler}

theorem trans (first : Resolves s s') (second : Resolves s' s'') : Resolves s s'' := by
  refine ⟨second.length.trans first.length, fun id => (second.links id).trans (first.links id),
    second.ready.trans first.ready, second.reads.trans first.reads,
    second.dispatches.trans first.dispatches, second.tick.trans first.tick, fun id => ?_⟩
  rcases first.states id with same | ⟨busy, answered⟩ <;>
    rcases second.states id with same' | ⟨busy', answered'⟩
  · exact .inl (same'.trans same)
  · rw [same] at busy'
    exact .inr ⟨busy', answered'⟩
  · rw [← same'] at answered
    exact .inr ⟨busy, answered⟩
  · exact .inr ⟨busy, answered'⟩

section

variable (resolves : Resolves s s')

include resolves

/-- States other than worked on, waiting and completed neither appear nor vanish. -/
theorem kept {state : WorkState} (notBusy : ¬ Busy (some state))
    (notAnswered : ¬ Answered (some state)) :
    s'.stateAt id = some state ↔ s.stateAt id = some state := by
  rcases resolves.states id with same | ⟨busy, answered⟩
  · rw [same]
  · constructor
    · intro found
      rw [found] at answered
      exact absurd answered notAnswered
    · intro found
      rw [found] at busy
      exact absurd busy notBusy

theorem completed (done : s.stateAt id = some .completed) : s'.stateAt id = some .completed := by
  rcases resolves.states id with same | ⟨busy, -⟩
  · rw [same]
    exact done
  · rw [done] at busy
    rcases busy with impossible | ⟨reducer, impossible⟩ <;> cases impossible

theorem queued {kind : WorkKind} :
    s'.stateAt id = some (.queued kind) ↔ s.stateAt id = some (.queued kind) :=
  resolves.kept (by simp [Busy]) (by simp [Answered])

theorem reading {continuation : ReadContinuation} :
    s'.stateAt id = some (.reading continuation) ↔ s.stateAt id = some (.reading continuation) :=
  resolves.kept (by simp [Busy]) (by simp [Answered])

theorem childrenBelow {bound : Nat} (below : ChildrenBelow s work bound) :
    ChildrenBelow s' work bound := by
  intro id operand up
  rw [resolves.links] at up
  exact below up

theorem queues (queues : Queues env s) : Queues env s' := by
  refine queues.of_ready (resolves.ready ▸ queues.ready_nodup) ?_ resolves.reads resolves.reading
  intro id
  simp only [resolves.ready, queues.ready_iff, resolves.queued]

end

end Resolves

/-- One slot becomes completed; its outcome is noted and, if it has a key, remembered. -/
structure Retires (s s' : Scheduler) (work : Nat) (outcome : Evaluation) : Prop where
  same : SameOutside s s' fun id => id = work
  done : s'.stateAt work = some .completed
  memoKeys : ∀ {id key}, s'.memoKeyAt id = some key → s.memoKeyAt id = some key
  memo : ∀ entry ∈ s'.memo, entry ∈ s.memo ∨
    (s.memoKeyAt work = some entry.1 ∧ outcome = .ok entry.2)
  produced : s'.produced = (s.record outcome).produced
  ready : s'.ready = s.ready
  reads : s'.reads = s.reads
  dispatches : s'.dispatches = s.dispatches
  tick : s'.tick = s.tick
  rootResult : s'.rootResult = s.rootResult

theorem retires_retire {slot : WorkSlot} (outcome : Evaluation)
    (present : s.slots[work]? = some slot) :
    Retires s (s.retire work slot outcome) work outcome := by
  obtain ⟨memo, equal, entries⟩ := retire_eq s work outcome slot
  have inside : work < s.slots.length := (List.getElem?_eq_some_iff.mp present).1
  have slots := slots_retire s work outcome slot
  have fields : ∀ {α : Type} (field : Scheduler → α), (∀ produced slots memo,
      field { s with produced, slots, memo } = field s) →
      field (s.retire work slot outcome) = field s := by
    intro α field stable
    rw [equal]
    cases outcome <;> exact stable _ _ _
  refine ⟨⟨?_, ?_, ?_⟩, ?_, ?_, ?_, ?_, fields _ fun _ _ _ => rfl, fields _ fun _ _ _ => rfl,
    fields _ fun _ _ _ => rfl, fields _ fun _ _ _ => rfl, fields _ fun _ _ _ => rfl⟩
  · rw [slots, List.length_set]
  · intro id
    simp only [linkAt, slots, List.getElem?_set]
    split
    · rename_i here
      subst here
      rw [present]
      rfl
    · rfl
  · intro id other
    simp only [stateAt, slots]
    rw [List.getElem?_set_ne (Ne.symm other)]
  · simp [stateAt, slots, inside]
  · intro id key found
    simp only [memoKeyAt, slots, List.getElem?_set] at found
    split at found
    · simp at found
    · exact found
  · intro entry member
    rw [equal] at member
    rw [show s.memoKeyAt work = slot.memoKey by simp [memoKeyAt, present]]
    exact entries entry member
  · rw [equal]

end Scheduler

open Scheduler

section Completion

variable {target : Target} {ghost : Ghost} {focus : Focus} {s s' : Scheduler} {work : Nat}
  {outcome : Evaluation}

/-- The part of the invariant that deliveries do not touch. -/
theorem Coherent.resolved (coherent : Coherent target ghost focus s) (resolves : Resolves s s')
    (shape : Shape s' focus') (meaning : Meaning target ghost s') :
    Coherent target ghost focus' s' := by
  have same : SameOutside s s' fun _ => True := ⟨resolves.length, resolves.links, by simp⟩
  refine ⟨?_, coherent.links.sameOutside same, shape, meaning, resolves.queues coherent.queues,
    ?_, ?_⟩
  · rw [resolves.length]
    exact coherent.nonempty
  · rw [resolves.length, resolves.dispatches]
    exact coherent.dispatched
  · rw [resolves.length]
    exact coherent.bounded

theorem Scheduler.Retires.resolves (retires : Retires s s' work outcome)
    (busy : Busy (s.stateAt work)) : Resolves s s' := by
  refine ⟨retires.same.length, retires.same.links, retires.ready, retires.reads,
    retires.dispatches, retires.tick, fun id => ?_⟩
  by_cases isWork : id = work
  · subst isWork
    exact .inr ⟨busy, .inl retires.done⟩
  · exact .inl (retires.same.states isWork)

/-- A failed outcome is acceptable in this environment. -/
def Acceptable (env : CheckEnvironment) (outcome : Evaluation) : Prop :=
  ∀ error, outcome = .error error → Benign env error

theorem Meaning.retire (meaning : Meaning target ghost s) (retires : Retires s s' work outcome)
    (near : Approximates (s.record outcome).produced (ghost.spec work) outcome)
    (acceptable : Acceptable target.env outcome) : Meaning target ghost s' := by
  apply meaning.touch retires.same.links
  · intro id state found
    by_cases isWork : id = work
    · rw [isWork, retires.done] at found
      cases found
      exact .inr trivial
    · rw [retires.same.states isWork] at found
      exact .inl found
  · exact fun id key found => .inl (retires.memoKeys found)
  · intro entry member
    rcases retires.memo entry member with old | ⟨key, rfl⟩
    · exact .inl old
    · refine .inr ?_
      rw [← meaning.memoKeys key]
      exact near.settles_of_ok
  · intro value found
    rw [retires.rootResult] at found
    exact .inl found
  · rw [retires.produced]
    exact fun error member => (mem_produced_record _).mpr (.inr member)
  · intro error member
    rw [retires.produced, mem_produced_record] at member
    exact member.symm.imp_right (acceptable error)

/-- What completing a slot has achieved. -/
structure Completes (target : Target) (ghost : Ghost) (s : Scheduler) (work : Nat)
    (outcome : Evaluation) (s' : Scheduler) : Prop where
  coherent : Coherent target ghost .idle s'
  resolves : Resolves s s'
  done : s'.stateAt work = some .completed
  decided : ∀ {link reducer updated value}, s.linkAt work = some link →
    s.stateAt link.work = some (.waiting reducer) →
    reducer.accept link.operand outcome = .ok (updated, some value) →
      s'.stateAt link.work = some .completed

section

variable (coherent : Coherent target ghost (.finishing work) s) (busy : Busy (s.stateAt work))
  (retires : Retires s s' work outcome)
  (near : Approximates (s.record outcome).produced (ghost.spec work) outcome)
  (acceptable : Acceptable target.env outcome)

include coherent busy retires near acceptable

theorem completes_root (top : s.linkAt work = none) (inside : work < s.slots.length) :
    Completes target ghost s work outcome { s' with rootResult := some outcome } := by
  have first : work = 0 := (coherent.links.root inside).mp top
  have resolves : Resolves s { s' with rootResult := some outcome } := by
    have := retires.resolves busy
    exact ⟨this.length, this.links, this.ready, this.reads, this.dispatches, this.tick, this.states⟩
  have same : SameOutside s { s' with rootResult := some outcome } fun id => id = work :=
    ⟨retires.same.length, retires.same.links, retires.same.states⟩
  have shape : Shape { s' with rootResult := some outcome } .idle := by
    refine coherent.shape.retire ?_ same retires.done ?_ ?_
    · intro id other
      simpa using Ne.symm other
    · intro id reducer operand up
      rw [top] at up
      cases up
    · subst first
      exact iff_of_true rfl retires.done
  have meaning : Meaning target ghost { s' with rootResult := some outcome } := by
    refine (coherent.meaning.retire retires near acceptable).touch (fun _ => rfl)
      (fun _ _ => .inl) (fun _ _ => .inl) (fun _ => .inl) ?_ (fun _ => id) (fun _ => .inl)
    rintro value ⟨⟩
    refine .inr ?_
    rw [← coherent.meaning.root, ← first]
    change Approximates s'.produced _ _
    rw [retires.produced]
    exact near
  refine ⟨coherent.resolved resolves shape meaning, resolves, retires.done, ?_⟩
  intro link reducer updated value up
  rw [top] at up
  cases up

theorem completes_orphan (up : s.linkAt work = some link)
    (done : s.stateAt link.work = some .completed) : Completes target ghost s work outcome s' := by
  have resolves := retires.resolves busy
  have notRoot : work ≠ 0 := by
    have := coherent.links.parent_lt up
    omega
  have shape : Shape s' .idle := by
    refine coherent.shape.retire ?_ retires.same retires.done ?_ ?_
    · intro id other
      simpa using Ne.symm other
    · intro id reducer operand found waiting
      rw [up] at found
      cases found
      rw [done] at waiting
      cases waiting
    · rw [retires.rootResult, retires.same.states (Ne.symm notRoot)]
      exact coherent.shape.result
  refine ⟨coherent.resolved resolves shape (coherent.meaning.retire retires near acceptable),
    resolves, retires.done, ?_⟩
  intro link' reducer updated value up' waiting
  rw [up] at up'
  cases up'
  rw [done] at waiting
  cases waiting

/-- The scheduler after a completed slot has told its waiting parent. -/
theorem coherent_deliver (up : s.linkAt work = some link)
    (waited : s.stateAt link.work = some (.waiting reducer))
    (vacant : reducer.outcomes[link.operand]? = some none)
    (next : focus' = .finishing link.work ∨ focus' = .idle ∧
      (reducer.deliver link.operand outcome).WellFormed ∧
        (reducer.deliver link.operand outcome).remaining ≠ 0) : Coherent target ghost focus'
        (s'.setState link.work (.waiting (reducer.deliver link.operand outcome))) ∧
      Resolves s (s'.setState link.work (.waiting (reducer.deliver link.operand outcome))) := by
  have apart : link.work ≠ work := by
    have := coherent.links.parent_lt up
    omega
  have parentInside : link.work < s'.slots.length := by
    rw [retires.same.length]
    exact lt_length_of_stateAt waited
  generalize told : s'.setState link.work (.waiting (reducer.deliver link.operand outcome)) = s''
  have waits : s''.stateAt link.work = some (.waiting (reducer.deliver link.operand outcome)) := by
    rw [← told]
    exact stateAt_setState_self parentInside _
  have others : ∀ {id}, id ≠ link.work → s''.stateAt id = s'.stateAt id := by
    intro id other
    rw [← told]
    exact stateAt_setState_ne other _
  have done : s''.stateAt work = some .completed := (others (Ne.symm apart)).trans retires.done
  have links : ∀ id, s''.linkAt id = s.linkAt id := by
    intro id
    rw [← told, linkAt_setState]
    exact retires.same.links id
  have produced : s''.produced = s'.produced := by rw [← told]; rfl
  have resolves : Resolves s s'' := by
    refine (retires.resolves busy).trans ?_
    refine ⟨by rw [← told, length_setState], by intro id; rw [← told, linkAt_setState],
      by rw [← told]; rfl, by rw [← told]; rfl, by rw [← told]; rfl, by rw [← told]; rfl, ?_⟩
    intro id
    by_cases isParent : id = link.work
    · subst isParent
      refine .inr ⟨.inr ⟨reducer, ?_⟩, .inr ⟨_, waits⟩⟩
      rw [retires.same.states apart]
      exact waited
    · exact .inl (others isParent)
  have same : SameOutside s s'' fun id => id = work ∨ id = link.work := by
    refine ⟨resolves.length, links, fun {id} untouched => ?_⟩
    rw [not_or] at untouched
    rw [others untouched.2, retires.same.states untouched.1]
  have inside : link.operand < reducer.outcomes.length := (List.getElem?_eq_some_iff.mp vacant).1
  have shape : Shape s'' focus' := by
    refine coherent.shape.deliver coherent.links same up done waited waits ?_ ?_ ?_ next
    · intro other different
      simp only [Reducer.deliver]
      exact List.getElem?_set_ne (Ne.symm different)
    · simp [Reducer.deliver, inside]
    · rw [← told]
      exact retires.rootResult
  have meaning : Meaning target ghost s'' := by
    have before := coherent.meaning.retire retires near acceptable
    refine before.touch ?_ ?_ ?_ ?_ ?_ ?_ ?_
    · intro id
      rw [← told, linkAt_setState]
    · intro id state found
      by_cases isParent : id = link.work
      · subst isParent
        rw [waits] at found
        cases found
        refine .inr ?_
        have waiting : s'.stateAt link.work = some (.waiting reducer) := by
          rw [retires.same.states apart]
          exact waited
        rw [produced]
        apply (show Reduces _ _ _ _ from before.states waiting).deliver
          (coherent.meaning.children up)
        rw [retires.produced]
        exact near
      · rw [others isParent] at found
        exact .inl found
    · intro id key found
      rw [← told, memoKeyAt_setState] at found
      exact .inl found
    · intro entry member
      rw [← told] at member
      exact .inl member
    · intro value found
      rw [← told] at found
      exact .inl found
    · rw [produced]
      exact fun _ => id
    · rw [produced]
      exact fun _ => .inl
  exact ⟨coherent.resolved resolves shape meaning, resolves⟩

end

theorem completeLoop_spec : ∀ (fuel work : Nat) (outcome : Evaluation) (s : Scheduler),
    work < fuel → Coherent target ghost (.finishing work) s → Busy (s.stateAt work) →
    Approximates (s.record outcome).produced (ghost.spec work) outcome →
    Acceptable target.env outcome →
    ∃ s', completeLoop fuel work outcome s = .ok s' ∧
      Completes target ghost s work outcome s' := by
  intro fuel
  induction fuel with
  | zero =>
    intro work outcome s below
    omega
  | succ fuel ih =>
    intro work outcome s below coherent busy near acceptable
    obtain ⟨state, found⟩ : ∃ state, s.stateAt work = some state := by
      rcases busy with same | ⟨reducer, same⟩ <;> exact ⟨_, same⟩
    obtain ⟨slot, present, looked, -, linked, -⟩ := slot_eq_ok found
    have retires := retires_retire outcome present
    generalize retired : s.retire work slot outcome = s₁ at retires
    simp only [completeLoop, looked, bind, Except.bind, retired]
    cases up : slot.parent with
    | none =>
      exact ⟨_, rfl, completes_root coherent busy retires near acceptable (linked.trans up)
        (lt_length_of_stateAt found)⟩
    | some link =>
      have upward := linked.trans up
      have lower := coherent.links.parent_lt upward
      have parentSame : s₁.stateAt link.work = s.stateAt link.work :=
        retires.same.states (by omega)
      rcases coherent.shape.parents_wait upward with done | ⟨reducer, waited⟩
      · obtain ⟨parent, -, parentLooked, parentState, -⟩ := slot_eq_ok (parentSame.trans done)
        simp only [parentLooked, parentState]
        exact ⟨_, rfl, completes_orphan coherent busy retires near acceptable upward done⟩
      · obtain ⟨parent, -, parentLooked, parentState, -⟩ := slot_eq_ok (parentSame.trans waited)
        have running : s.stateAt work ≠ some .completed := by
          rcases busy with same | ⟨reducer', same⟩ <;> simp [same]
        have vacant := coherent.shape.vacant upward running waited
        have fits := coherent.shape.reducers waited (by simp; omega)
        obtain ⟨result, accepted, reduction⟩ := Reducer.accept_spec fits.1 vacant outcome
        have delivered := fits.1.deliver vacant outcome
        simp only [parentLooked, parentState, accepted]
        cases result with
        | none =>
          have open' := reduction.open_of_none rfl
          obtain ⟨after, resolves⟩ := coherent_deliver coherent busy retires near acceptable
            upward waited vacant (.inr ⟨rfl, delivered, open'⟩)
          refine ⟨_, rfl, after, resolves, ?_, ?_⟩
          · rw [stateAt_setState_ne (by omega)]
            exact retires.done
          · intro link' reducer' updated value up' waiting decides
            rw [upward] at up'
            cases up'
            rw [waited] at waiting
            cases waiting
            rw [accepted] at decides
            cases decides
        | some value =>
          obtain ⟨after, resolves⟩ := coherent_deliver coherent busy retires near acceptable
            upward waited vacant (.inl rfl)
          generalize told : s₁.setState link.work
            (.waiting (reducer.deliver link.operand outcome)) = s₂ at after resolves
          have waits : s₂.stateAt link.work =
              some (.waiting (reducer.deliver link.operand outcome)) := by
            rw [← told]
            apply stateAt_setState_self
            rw [retires.same.length]
            exact lt_length_of_stateAt waited
          -- what the decided reducer yields is right for the parent
          have parentNear := Reduces.approximates
            (show Reduces _ _ _ _ from after.meaning.states waits) delivered reduction
          have noted : s₂.produced ⊆ (s₂.record value).produced :=
            fun error member => (mem_produced_record _).mpr (.inr member)
          obtain ⟨s', completed, completes⟩ := ih link.work value s₂ (by omega) after
            (.inr ⟨_, waits⟩) (parentNear.mono noted)
            (fun error failed => after.meaning.benign error (parentNear.noted error failed))
          refine ⟨s', completed, completes.coherent, resolves.trans completes.resolves, ?_, ?_⟩
          · apply completes.resolves.completed
            rw [← told, stateAt_setState_ne (by omega)]
            exact retires.done
          · intro link' reducer' updated value' up'
            rw [upward] at up'
            cases up'
            exact fun _ _ => completes.done

/-- Completing a slot that is worked on never fails. -/
theorem complete_spec (coherent : Coherent target ghost (.processing work) s)
    (processing : s.stateAt work = some .processing)
    (near : Approximates (s.record outcome).produced (ghost.spec work) outcome)
    (acceptable : Acceptable target.env outcome) :
    ∃ s', s.complete work outcome = .ok s' ∧ Completes target ghost s work outcome s' := by
  have finishing : Coherent target ghost (.finishing work) s :=
    { coherent with shape := coherent.shape.finishing_of_processing }
  exact completeLoop_spec _ _ _ _ (lt_length_of_stateAt processing) finishing (.inl processing) near
    acceptable

/-- What taking an operand has achieved: the slot waits on, or it is completed
and its parent was told. -/
structure Accepts (target : Target) (ghost : Ghost) (s : Scheduler) (work operand : Nat)
    (reducer : Reducer) (outcome : Evaluation) (s' : Scheduler) : Prop where
  coherent : Coherent target ghost (.handing work (operand + 1)) s'
  below : ChildrenBelow s' work (operand + 1)
  resolves : Resolves s s'
  taken : ∃ result, reducer.accept operand outcome = .ok (reducer.deliver operand outcome, result) ∧
    Reducer.Reduction (reducer.deliver operand outcome) result ∧
    (result = none → s'.stateAt work = some (.waiting (reducer.deliver operand outcome)) ∧
      ∀ id, id ≠ work → s'.stateAt id = s.stateAt id) ∧
    ∀ value, result = some value → s'.stateAt work = some .completed ∧
      ∀ {link parent updated higher}, s.linkAt work = some link →
        s.stateAt link.work = some (.waiting parent) →
        parent.accept link.operand value = .ok (updated, some higher) →
          s'.stateAt link.work = some .completed

section

variable (coherent : Coherent target ghost (.handing work operand) s)
  (below : ChildrenBelow s work operand) (waited : s.stateAt work = some (.waiting reducer))
  (vacant : reducer.outcomes[operand]? = some none)
  (found : (ghost.operands work)[operand]? = some spec)
  (near : Approximates (s.record outcome).produced spec outcome)
  (acceptable : Acceptable target.env outcome)

include coherent below waited vacant found near acceptable

/-- The scheduler after the reducer of a waiting slot has taken one operand. -/
theorem coherent_accept (next : focus' = .finishing work ∨ focus' = .handing work (operand + 1) ∧
      (reducer.deliver operand outcome).WellFormed ∧
        (reducer.deliver operand outcome).remaining ≠ 0) : Coherent target ghost focus'
        ((s.setState work (.waiting (reducer.deliver operand outcome))).record outcome) ∧
      Resolves s ((s.setState work (.waiting (reducer.deliver operand outcome))).record
        outcome) := by
  have inside : work < s.slots.length := lt_length_of_stateAt waited
  generalize taken :
    (s.setState work (.waiting (reducer.deliver operand outcome))).record outcome = s'
  have waits : s'.stateAt work = some (.waiting (reducer.deliver operand outcome)) := by
    rw [← taken, stateAt_record]
    exact stateAt_setState_self inside _
  have others : ∀ {id}, id ≠ work → s'.stateAt id = s.stateAt id := by
    intro id other
    rw [← taken, stateAt_record]
    exact stateAt_setState_ne other _
  have links : ∀ id, s'.linkAt id = s.linkAt id := by
    intro id
    rw [← taken, linkAt_record, linkAt_setState]
  have fields : ∀ {α : Type} (field : Scheduler → α), (∀ produced slots,
      field { s with produced, slots } = field s) → field s' = field s := by
    intro α field stable
    rw [← taken]
    cases outcome <;> exact stable _ _
  have length : s'.slots.length = s.slots.length := by rw [← taken, slots_record, length_setState]
  have produced : s'.produced = (s.record outcome).produced := by
    rw [← taken]
    cases outcome <;> rfl
  have resolves : Resolves s s' := by
    refine ⟨length, links, fields _ fun _ _ => rfl, fields _ fun _ _ => rfl,
      fields _ fun _ _ => rfl, fields _ fun _ _ => rfl, fun id => ?_⟩
    by_cases isWork : id = work
    · subst isWork
      exact .inr ⟨.inr ⟨reducer, waited⟩, .inr ⟨_, waits⟩⟩
    · exact .inl (others isWork)
  have bound : operand < reducer.outcomes.length := (List.getElem?_eq_some_iff.mp vacant).1
  have shape : Shape s' focus' := by
    refine coherent.shape.accept ⟨length, links, others⟩ below waited waits ?_ ?_
      (fields _ fun _ _ => rfl) next
    · intro other different
      simp only [Reducer.deliver]
      exact List.getElem?_set_ne (Ne.symm different)
    · simp [Reducer.deliver, bound]
  have grows : s.produced ⊆ s'.produced := by
    rw [produced]
    exact fun error member => (mem_produced_record _).mpr (.inr member)
  have meaning : Meaning target ghost s' := by
    refine coherent.meaning.touch links ?_ ?_ ?_ ?_ grows ?_
    · intro id state present
      by_cases isWork : id = work
      · subst isWork
        rw [waits] at present
        cases present
        refine .inr ?_
        have reduces : Reduces s.produced _ _ reducer := coherent.meaning.states waited
        apply (reduces.mono grows).deliver found
        rw [produced]
        exact near
      · rw [others isWork] at present
        exact .inl present
    · intro id key present
      rw [← taken, memoKeyAt_record, memoKeyAt_setState] at present
      exact .inl present
    · intro entry member
      rw [show s'.memo = s.memo from fields _ fun _ _ => rfl] at member
      exact .inl member
    · intro value present
      rw [show s'.rootResult = s.rootResult from fields _ fun _ _ => rfl] at present
      exact .inl present
    · intro error member
      rw [produced, mem_produced_record] at member
      exact member.symm.imp_right (acceptable error)
  exact ⟨coherent.resolved resolves shape meaning, resolves⟩

/-- Taking an open operand in a waiting slot never fails. -/
theorem acceptOperand_spec :
    ∃ s', s.acceptOperand work operand outcome = .ok s' ∧
      Accepts target ghost s work operand reducer outcome s' := by
  obtain ⟨slot, -, looked, state, -⟩ := slot_eq_ok waited
  have fits := coherent.shape.reducers waited (by simp)
  obtain ⟨result, accepted, reduction⟩ := Reducer.accept_spec fits.1 vacant outcome
  have delivered := fits.1.deliver vacant outcome
  have higher : ChildrenBelow s work (operand + 1) := by
    intro id other up
    have := below up
    omega
  simp only [acceptOperand, looked, state, bind, Except.bind, accepted]
  cases result with
  | none =>
    obtain ⟨after, resolves⟩ := coherent_accept coherent below waited vacant found near acceptable
      (.inr ⟨rfl, delivered, reduction.open_of_none rfl⟩)
    refine ⟨_, rfl, after, resolves.childrenBelow higher, resolves, none, accepted, reduction, ?_,
      by simp⟩
    refine fun _ => ⟨?_, fun id other => ?_⟩
    · rw [stateAt_record]
      exact stateAt_setState_self (lt_length_of_stateAt waited) _
    · rw [stateAt_record]
      exact stateAt_setState_ne other _
  | some value =>
    obtain ⟨after, resolves⟩ := coherent_accept coherent below waited vacant found near acceptable
      (.inl rfl)
    generalize taken :
      (s.setState work (.waiting (reducer.deliver operand outcome))).record outcome = s₁
      at after resolves
    have waits : s₁.stateAt work = some (.waiting (reducer.deliver operand outcome)) := by
      rw [← taken, stateAt_record]
      exact stateAt_setState_self (lt_length_of_stateAt waited) _
    have valueNear := Reduces.approximates
      (show Reduces _ _ _ _ from after.meaning.states waits) delivered reduction
    have noted : s₁.produced ⊆ (s₁.record value).produced :=
      fun error member => (mem_produced_record _).mpr (.inr member)
    obtain ⟨s', completed, completes⟩ := completeLoop_spec s₁.slots.length work value s₁
      (lt_length_of_stateAt waits) after (.inr ⟨_, waits⟩) (valueNear.mono noted)
      (fun error failed => after.meaning.benign error (valueNear.noted error failed))
    have resolved := resolves.trans completes.resolves
    refine ⟨s', completed, ?_, resolved.childrenBelow higher, resolved, some value, accepted,
      reduction, by simp, ?_⟩
    · exact { completes.coherent with shape := completes.coherent.shape.handing_of_idle }
    · rintro _ ⟨⟩
      refine ⟨completes.done, fun {link parent updated other} up waiting decides => ?_⟩
      have apart : link.work ≠ work := by
        have := coherent.links.parent_lt up
        omega
      refine completes.decided ((resolves.links work).trans up) ?_ decides
      rw [← taken, stateAt_record, stateAt_setState_ne apart]
      exact waiting

end

end Completion

end OpenFga
