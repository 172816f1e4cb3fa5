import OpenFga.Check.Scheduler

/-!
# The work graph

Views of the slots of a scheduler and the structural invariant of the graph they
form. Parent links never change and point to earlier slots; a slot with children
waits or is completed; an open operand of an active waiting slot is either served
by an uncompleted child or not handed out yet.

While a step works on one slot the invariant is relaxed for that slot, which is
what a `Focus` records.
-/

namespace OpenFga.Scheduler

open List

variable {s : Scheduler} {id work operand : Nat} {link : ParentLink} {s' : Scheduler}
  {touched : Nat → Prop} {bound : Nat}

section Views

def stateAt (s : Scheduler) (id : Nat) : Option WorkState :=
  s.slots[id]?.map WorkSlot.state

def linkAt (s : Scheduler) (id : Nat) : Option ParentLink :=
  s.slots[id]?.bind WorkSlot.parent

def memoKeyAt (s : Scheduler) (id : Nat) : Option MemoKey :=
  s.slots[id]?.bind WorkSlot.memoKey

theorem lt_length_of_stateAt {s : Scheduler} {id : Nat} {state : WorkState}
    (found : s.stateAt id = some state) : id < s.slots.length := by
  obtain ⟨slot, present, -⟩ := Option.map_eq_some_iff.mp found
  exact (List.getElem?_eq_some_iff.mp present).1

theorem lt_length_of_linkAt {s : Scheduler} {id : Nat} (found : s.linkAt id = some link) :
    id < s.slots.length := by
  obtain ⟨slot, present, -⟩ := Option.bind_eq_some_iff.mp found
  exact (List.getElem?_eq_some_iff.mp present).1

theorem slot_eq_ok {s : Scheduler} {id : Nat} {state : WorkState}
    (found : s.stateAt id = some state) :
    ∃ slot, s.slots[id]? = some slot ∧ s.slot id = .ok slot ∧ slot.state = state ∧
      s.linkAt id = slot.parent ∧ s.memoKeyAt id = slot.memoKey := by
  obtain ⟨slot, present, same⟩ := Option.map_eq_some_iff.mp found
  exact ⟨slot, present, by simp [Scheduler.slot, present], same, by simp [linkAt, present],
    by simp [memoKeyAt, present]⟩

variable (s : Scheduler) (work id : Nat) (state : WorkState)

@[simp] theorem length_setState : (s.setState work state).slots.length = s.slots.length := by
  simp [setState]

@[simp] theorem linkAt_setState : (s.setState work state).linkAt id = s.linkAt id := by
  simp only [linkAt, setState, getElem?_modify]
  cases s.slots[id]? <;> by_cases same : work = id <;> simp [same]

@[simp] theorem memoKeyAt_setState : (s.setState work state).memoKeyAt id = s.memoKeyAt id := by
  simp only [memoKeyAt, setState, getElem?_modify]
  cases s.slots[id]? <;> by_cases same : work = id <;> simp [same]

theorem stateAt_setState :
    (s.setState work state).stateAt id =
      if work = id then (s.stateAt id).map fun _ => state else s.stateAt id := by
  simp only [stateAt, setState, getElem?_modify]
  by_cases same : work = id
  · simp only [same, if_true]
    cases s.slots[id]? <;> simp
  · simp [same]

theorem stateAt_setState_self {s : Scheduler} {work : Nat} (inside : work < s.slots.length)
    (state : WorkState) : (s.setState work state).stateAt work = some state := by
  rw [stateAt_setState, if_pos rfl, stateAt, getElem?_eq_getElem inside]
  rfl

theorem stateAt_setState_ne {s : Scheduler} {work id : Nat} (other : id ≠ work)
    (state : WorkState) : (s.setState work state).stateAt id = s.stateAt id := by
  rw [stateAt_setState, if_neg (Ne.symm other)]

variable (outcome : Evaluation)

@[simp] theorem slots_record : (s.record outcome).slots = s.slots := by
  cases outcome <;> rfl

@[simp] theorem stateAt_record : (s.record outcome).stateAt id = s.stateAt id := by
  simp [stateAt]

@[simp] theorem linkAt_record : (s.record outcome).linkAt id = s.linkAt id := by
  simp [linkAt]

@[simp] theorem memoKeyAt_record : (s.record outcome).memoKeyAt id = s.memoKeyAt id := by
  simp [memoKeyAt]

theorem mem_produced_record {s : Scheduler} {error : CheckError} :
    error ∈ (s.record outcome).produced ↔ outcome = .error error ∨ error ∈ s.produced := by
  cases outcome with
  | ok decision => simp [record]
  | error raised => simp [record, eq_comm]

theorem slots_retire (slot : WorkSlot) :
    (s.retire work slot outcome).slots =
      s.slots.set work { slot with memoKey := none, state := .completed } := by
  unfold retire
  cases slot.memoKey <;> cases outcome <;> rfl

theorem retire_eq (slot : WorkSlot) :
    ∃ memo, s.retire work slot outcome =
      { s.record outcome with
        slots := s.slots.set work { slot with memoKey := none, state := .completed }
        memo := memo } ∧
      ∀ entry ∈ memo, entry ∈ s.memo ∨
        (slot.memoKey = some entry.1 ∧ outcome = .ok entry.2) := by
  unfold retire
  cases remembered : slot.memoKey with
  | none =>
    refine ⟨s.memo, ?_, fun entry member => .inl member⟩
    cases outcome <;> rfl
  | some key =>
    cases outcome with
    | error error => exact ⟨s.memo, rfl, fun entry member => .inl member⟩
    | ok decision =>
      refine ⟨(key, decision) :: s.memo, rfl, fun entry member => ?_⟩
      rcases mem_cons.mp member with rfl | old
      · exact .inr ⟨rfl, rfl⟩
      · exact .inl old

end Views

/-- No proper ancestor of the slot is completed. -/
inductive Active (s : Scheduler) : Nat → Prop where
  | root {id : Nat} (top : s.linkAt id = none) : Active s id
  | step {id : Nat} {link : ParentLink} (up : s.linkAt id = some link)
      (running : s.stateAt link.work ≠ some .completed) (parent : Active s link.work) : Active s id

/-- Parent links form a tree in which parents precede children, rooted at the first slot. -/
structure Links (s : Scheduler) : Prop where
  root : ∀ {id}, id < s.slots.length → (s.linkAt id = none ↔ id = 0)
  parent_lt : ∀ {id link}, s.linkAt id = some link → link.work < id
  distinct : ∀ {id other link}, s.linkAt id = some link → s.linkAt other = some link → id = other

/-- What the step in progress is doing to one slot. -/
inductive Focus where
  | idle
  | processing (work : Nat)
  | handing (work : Nat) (operand : Nat)
  | finishing (work : Nat)

/-- The states of the slots fit their links. -/
structure Shape (s : Scheduler) (focus : Focus) : Prop where
  parents_wait : ∀ {id link}, s.linkAt id = some link →
    s.stateAt link.work = some .completed ∨ ∃ reducer, s.stateAt link.work = some (.waiting reducer)
  vacant : ∀ {id link reducer}, s.linkAt id = some link → s.stateAt id ≠ some .completed →
    s.stateAt link.work = some (.waiting reducer) → reducer.outcomes[link.operand]? = some none
  reducers : ∀ {id reducer}, s.stateAt id = some (.waiting reducer) → focus ≠ .finishing id →
    reducer.WellFormed ∧ reducer.remaining ≠ 0
  served : ∀ {id reducer operand}, s.stateAt id = some (.waiting reducer) →
    focus ≠ .finishing id → Active s id → reducer.outcomes[operand]? = some none →
    (∃ child, s.linkAt child = some ⟨id, operand⟩ ∧ s.stateAt child ≠ some .completed) ∨
      ∃ next, focus = .handing id next ∧ next ≤ operand
  processing : ∀ {id}, s.stateAt id = some .processing →
    focus = .processing id ∨ focus = .finishing id
  result : s.rootResult.isSome ↔ s.stateAt 0 = some .completed

theorem Active.of_link (active : Active s id) (up : s.linkAt id = some link) :
    s.stateAt link.work ≠ some .completed ∧ Active s link.work := by
  cases active with
  | root top => rw [top] at up; cases up
  | step up' running parent =>
    rw [up'] at up
    cases up
    exact ⟨running, parent⟩

/-- Completing slots only removes activity. -/
theorem Active.anti (links : ∀ id link, s.linkAt id = some link →
      s'.linkAt id = some link)
    (completed : ∀ id, s.stateAt id = some .completed → s'.stateAt id = some .completed)
    (tops : ∀ id, s'.linkAt id = none → s.linkAt id = none) (active : Active s' id) :
    Active s id := by
  induction active with
  | root top => exact .root (tops _ top)
  | @step id link up running _ ih =>
    cases old : s.linkAt id with
    | none => exact .root old
    | some oldLink =>
      have same := links id oldLink old
      rw [up] at same
      cases same
      exact .step old (fun done => running (completed _ done)) ih

theorem active_congr (slots : s'.slots = s.slots) : Active s' id ↔ Active s id := by
  have transfer : ∀ {first second : Scheduler}, first.slots = second.slots → Active first id →
      Active second id := by
    intro first second same
    have links : ∀ id, first.linkAt id = second.linkAt id := fun id => by simp only [linkAt, same]
    have states : ∀ id, first.stateAt id = second.stateAt id :=
      fun id => by simp only [stateAt, same]
    exact Active.anti (fun id _ up => (links id).trans up) (fun id done => (states id).trans done)
      (fun id top => (links id).symm.trans top)
  exact ⟨transfer slots, transfer slots.symm⟩

/-- The activity test walks up exactly the ancestors. -/
theorem isActiveFrom_spec (links : Links s) {origin : Nat} :
    ∀ (fuel : Nat) (id : Nat), id < fuel → id ≤ origin → id < s.slots.length →
      ((id = origin ∨ s.stateAt id ≠ some .completed) ∧ Active s id →
        isActiveFrom s.slots origin fuel (some id) = .ok true) ∧
      (¬ ((id = origin ∨ s.stateAt id ≠ some .completed) ∧ Active s id) →
        isActiveFrom s.slots origin fuel (some id) = .ok false) := by
  intro fuel
  induction fuel with
  | zero => intro id below; omega
  | succ fuel ih =>
    intro id below most inside
    obtain ⟨slot, present⟩ : ∃ slot, s.slots[id]? = some slot :=
      ⟨s.slots[id], getElem?_eq_getElem inside⟩
    have stateEq : s.stateAt id = some slot.state := by simp [stateAt, present]
    have linkEq : s.linkAt id = slot.parent := by simp [linkAt, present]
    have completedIff : slot.state.isCompleted = true ↔ s.stateAt id = some .completed := by
      rw [stateEq]
      cases slot.state <;> simp [WorkState.isCompleted]
    simp only [isActiveFrom, present]
    by_cases stopped : id ≠ origin ∧ slot.state.isCompleted = true
    · rw [if_pos stopped]
      refine ⟨fun holds => ?_, fun _ => rfl⟩
      rcases holds.1 with same | running
      · exact absurd same stopped.1
      · exact absurd (completedIff.mp stopped.2) running
    · rw [if_neg stopped]
      have passes : id = origin ∨ s.stateAt id ≠ some .completed := by
        by_cases same : id = origin
        · exact .inl same
        · exact .inr fun done => stopped ⟨same, completedIff.mpr done⟩
      cases up : slot.parent with
      | none =>
        refine ⟨fun _ => by simp [isActiveFrom], fun fails => ?_⟩
        exact absurd ⟨passes, .root (linkEq.trans up)⟩ fails
      | some link =>
        have linked := linkEq.trans up
        have lower := links.parent_lt linked
        have inner := ih link.work (by omega) (by omega) (by omega)
        have step : Active s id ↔
            (link.work = origin ∨ s.stateAt link.work ≠ some .completed) ∧
              Active s link.work := by
          constructor
          · intro active
            have above := active.of_link linked
            exact ⟨.inr above.1, above.2⟩
          · rintro ⟨same | running, parent⟩
            · omega
            · exact .step linked running parent
        simp only [Option.map_some]
        exact ⟨fun holds => inner.1 (step.mp holds.2),
          fun fails => inner.2 fun above => fails ⟨passes, step.mpr above⟩⟩

theorem isActive_of_active (links : Links s) (inside : work < s.slots.length)
    (active : Active s work) : s.isActive work = .ok true :=
  (isActiveFrom_spec links _ work inside le_rfl inside).1 ⟨.inl rfl, active⟩

theorem isActive_of_not_active (links : Links s) (inside : work < s.slots.length)
    (inactive : ¬ Active s work) : s.isActive work = .ok false :=
  (isActiveFrom_spec links _ work inside le_rfl inside).2 fun holds => inactive holds.2

section Updates

/-- Same links everywhere and same states outside the touched slots. -/
structure SameOutside (s s' : Scheduler) (touched : Nat → Prop) : Prop where
  length : s'.slots.length = s.slots.length
  links : ∀ id, s'.linkAt id = s.linkAt id
  states : ∀ {id}, ¬ touched id → s'.stateAt id = s.stateAt id

variable {s s' : Scheduler} {work : Nat} {focus : Focus}

theorem Links.sameOutside (links : Links s) (same : SameOutside s s' touched) : Links s' := by
  refine ⟨?_, ?_, ?_⟩
  · intro id inside
    rw [same.links]
    exact links.root (same.length ▸ inside)
  · intro id link up
    rw [same.links] at up
    exact links.parent_lt up
  · intro id other link first second
    rw [same.links] at first second
    exact links.distinct first second

theorem Links.congr (links : Links s) (slots : s'.slots = s.slots) : Links s' :=
  links.sameOutside (⟨by rw [slots], fun id => by simp only [linkAt, slots],
    fun {id} _ => by simp only [stateAt, slots]⟩ : SameOutside s s' fun _ => False)

theorem SameOutside.active (same : SameOutside s s' touched)
    (kept : ∀ id, touched id → s.stateAt id = some .completed → s'.stateAt id = some .completed)
    (active : Active s' id) : Active s id := by
  refine Active.anti (fun id link up => (same.links id).trans up) ?_
    (fun id top => (same.links id).symm.trans top) active
  intro id done
  by_cases hit : touched id
  · exact kept id hit done
  · rw [same.states hit]
    exact done

/-- An update that leaves the focus among the slots it touches owes something for these alone. -/
theorem Shape.update {old : Focus} (shape : Shape s old) (same : SameOutside s s' touched)
    (only : ∀ id, ¬ touched id → old ≠ .processing id ∧ old ≠ .finishing id ∧
      ∀ next, old ≠ .handing id next)
    (kept : ∀ id, touched id → s.stateAt id = some .completed → s'.stateAt id = some .completed)
    (busy : ∀ child id operand reducer, touched child → ¬ touched id →
      s.linkAt child = some ⟨id, operand⟩ → s.stateAt id = some (.waiting reducer) → Active s id →
      s.stateAt child ≠ some .completed → s'.stateAt child ≠ some .completed)
    (parents : ∀ id link, touched link.work → s.linkAt id = some link →
      s'.stateAt link.work = some .completed ∨
        ∃ reducer, s'.stateAt link.work = some (.waiting reducer))
    (vacant : ∀ id link reducer, touched link.work → s.linkAt id = some link →
      s.stateAt id ≠ some .completed → s'.stateAt id ≠ some .completed →
      s'.stateAt link.work = some (.waiting reducer) → reducer.outcomes[link.operand]? = some none)
    (waits : ∀ id reducer, touched id → s'.stateAt id = some (.waiting reducer) →
      focus ≠ .finishing id → (reducer.WellFormed ∧ reducer.remaining ≠ 0) ∧
        ∀ operand, Active s id → reducer.outcomes[operand]? = some none →
          (∃ child, s.linkAt child = some ⟨id, operand⟩ ∧ s'.stateAt child ≠ some .completed) ∨
            ∃ next, focus = .handing id next ∧ next ≤ operand)
    (processing : ∀ id, touched id → s'.stateAt id = some .processing →
      focus = .processing id ∨ focus = .finishing id)
    (result : s'.rootResult.isSome ↔ s'.stateAt 0 = some .completed) : Shape s' focus := by
  have active : ∀ {id}, Active s' id → Active s id := same.active kept
  refine ⟨?_, ?_, ?_, ?_, ?_, result⟩
  · intro id link linked
    rw [same.links] at linked
    by_cases hit : touched link.work
    · exact parents id link hit linked
    · rw [same.states hit]
      exact shape.parents_wait linked
  · intro id link reducer linked running waiting
    rw [same.links] at linked
    have ran : s.stateAt id ≠ some .completed := by
      intro done
      by_cases hit : touched id
      · exact running (kept id hit done)
      · exact running ((same.states hit).trans done)
    by_cases hit : touched link.work
    · exact vacant id link reducer hit linked ran running waiting
    · rw [same.states hit] at waiting
      exact shape.vacant linked ran waiting
  · intro id reducer waiting notFinishing
    by_cases hit : touched id
    · exact (waits id reducer hit waiting notFinishing).1
    · rw [same.states hit] at waiting
      exact shape.reducers waiting (only id hit).2.1
  · intro id reducer operand waiting notFinishing running vacancy
    by_cases hit : touched id
    · refine ((waits id reducer hit waiting notFinishing).2 operand (active running)
        vacancy).imp_left ?_
      rintro ⟨child, linked, open'⟩
      exact ⟨child, (same.links child).trans linked, open'⟩
    · rw [same.states hit] at waiting
      rcases shape.served waiting (only id hit).2.1 (active running) vacancy with
        ⟨child, linked, open'⟩ | ⟨next, impossible, -⟩
      · refine .inl ⟨child, (same.links child).trans linked, ?_⟩
        by_cases childHit : touched child
        · exact busy child id operand reducer childHit hit linked waiting (active running) open'
        · rwa [same.states childHit]
      · exact absurd impossible ((only id hit).2.2 next)
  · intro id running
    by_cases hit : touched id
    · exact processing id hit running
    · rw [same.states hit] at running
      rcases shape.processing running with impossible | impossible
      · exact absurd impossible (only id hit).1
      · exact absurd impossible (only id hit).2.1

/-- Completing a slot and delivering its outcome to its waiting parent. -/
theorem Shape.deliver {parent : Nat} {before after : Reducer} (links : Links s)
    (shape : Shape s (.finishing work)) (same : SameOutside s s' fun id => id = work ∨ id = parent)
    (up : s.linkAt work = some ⟨parent, operand⟩) (done : s'.stateAt work = some .completed)
    (waited : s.stateAt parent = some (.waiting before))
    (waits : s'.stateAt parent = some (.waiting after))
    (kept : ∀ other, other ≠ operand → after.outcomes[other]? = before.outcomes[other]?)
    (filled : after.outcomes[operand]? ≠ some none) (root : s'.rootResult = s.rootResult)
    (next : focus = .finishing parent ∨
      focus = .idle ∧ after.WellFormed ∧ after.remaining ≠ 0) : Shape s' focus := by
  refine shape.update same ?_ ?_ ?_ ?_ ?_ ?_ ?_ ?_
  · intro id outside
    exact ⟨nofun, fun same => outside (by cases same; exact .inl rfl), nofun⟩
  · rintro id (rfl | rfl) completed
    · exact done
    · rw [waited] at completed
      cases completed
  · rintro child id operand' reducer (rfl | rfl) outside linked _ _ _
    · rw [up] at linked
      cases linked
      exact absurd (.inr rfl) outside
    · simp [waits]
  · rintro id link (isWork | isParent) linked
    · exact .inl (isWork ▸ done)
    · exact .inr ⟨after, isParent ▸ waits⟩
  · rintro id link reducer (isWork | isParent) linked ran running waiting
    · rw [isWork, done] at waiting
      cases waiting
    · rw [isParent, waits] at waiting
      cases waiting
      have different : link.operand ≠ operand := by
        intro sameOperand
        have child : id = work := links.distinct linked (by rw [up, ← isParent, ← sameOperand])
        exact running (child ▸ done)
      rw [kept _ different]
      exact shape.vacant linked ran (isParent ▸ waited)
  · rintro id reducer (rfl | rfl) waiting notFinishing
    · rw [done] at waiting
      cases waiting
    · rw [waits] at waiting
      cases waiting
      have upwards := links.parent_lt up
      rcases next with rfl | ⟨-, fits⟩
      · exact absurd rfl notFinishing
      refine ⟨fits, fun operand' active vacancy => ?_⟩
      have different : operand' ≠ operand := by
        rintro rfl
        exact filled vacancy
      rw [kept _ different] at vacancy
      rcases shape.served waited (by rintro ⟨⟩; simp at upwards) active vacancy with
        ⟨child, linked, busy⟩ | ⟨next', impossible, -⟩
      · refine .inl ⟨child, linked, ?_⟩
        have notWork : child ≠ work := by
          rintro rfl
          rw [up] at linked
          cases linked
          exact different rfl
        have lower := links.parent_lt linked
        rwa [same.states (by rintro (same | rfl) <;> simp_all)]
      · cases impossible
  · rintro id (rfl | rfl) processing
    · rw [done] at processing
      cases processing
    · rw [waits] at processing
      cases processing
  · rw [root, shape.result]
    have notRoot : 0 ≠ work := by
      rintro rfl
      have top := (links.root (lt_length_of_linkAt up)).mpr rfl
      rw [top] at up
      cases up
    by_cases isParent : 0 = parent
    · subst isParent
      simp [waited, waits]
    · rw [same.states (by rintro (same | same) <;> contradiction)]

/-- Completing a slot whose outcome no reducer waits for. -/
theorem Shape.retire {before : Focus} (shape : Shape s before)
    (only : ∀ id, id ≠ work → before ≠ .processing id ∧ before ≠ .finishing id ∧
      ∀ next, before ≠ .handing id next)
    (same : SameOutside s s' fun id => id = work) (done : s'.stateAt work = some .completed)
    (detached : ∀ id reducer operand, s.linkAt work = some ⟨id, operand⟩ →
      s.stateAt id = some (.waiting reducer) → ¬ Active s id)
    (root : s'.rootResult.isSome ↔ s'.stateAt 0 = some .completed) : Shape s' .idle := by
  refine shape.update same only ?_ ?_ ?_ ?_ ?_ ?_ root
  · rintro id rfl _
    exact done
  · rintro child id operand reducer rfl _ linked waiting active
    exact absurd active (detached id reducer operand linked waiting)
  · intro id link isWork _
    exact .inl (isWork ▸ done)
  · intro id link reducer isWork _ _ _ waiting
    rw [isWork, done] at waiting
    cases waiting
  · rintro id reducer rfl waiting
    rw [done] at waiting
    cases waiting
  · rintro id rfl processing
    rw [done] at processing
    cases processing

/-- All children of the slot have operands below the bound. -/
def ChildrenBelow (s : Scheduler) (work bound : Nat) : Prop :=
  ∀ {id operand}, s.linkAt id = some ⟨work, operand⟩ → operand < bound

/-- One slot changed, and was in a state neither before nor after. -/
theorem SameOutside.state_iff {before after : WorkState}
    (same : SameOutside s s' fun id => id = work) (state : WorkState)
    (was : s.stateAt work = some before)
    (now : s'.stateAt work = some after) (left : before ≠ state) (entered : after ≠ state)
    (id : Nat) : s'.stateAt id = some state ↔ s.stateAt id = some state := by
  by_cases isWork : id = work
  · subst isWork
    simp [was, now, left, entered]
  · rw [same.states isWork]

/-- Accepting the next operand in a slot that hands out its operands. -/
theorem Shape.accept {before after : Reducer} (shape : Shape s (.handing work operand))
    (same : SameOutside s s' fun id => id = work) (below : ChildrenBelow s work operand)
    (waited : s.stateAt work = some (.waiting before))
    (waits : s'.stateAt work = some (.waiting after))
    (kept : ∀ other, other ≠ operand → after.outcomes[other]? = before.outcomes[other]?)
    (filled : after.outcomes[operand]? ≠ some none) (root : s'.rootResult = s.rootResult)
    (next : focus = .finishing work ∨
      focus = .handing work (operand + 1) ∧ after.WellFormed ∧ after.remaining ≠ 0) :
    Shape s' focus := by
  have completed := same.state_iff .completed waited waits nofun nofun
  refine shape.update same ?_ (fun id _ => (completed id).mpr)
    (fun child _ _ _ _ _ _ _ _ => mt (completed child).mp) ?_ ?_ ?_ ?_ ?_
  · intro id outside
    exact ⟨nofun, nofun, fun _ same => outside (by cases same; rfl)⟩
  · intro id link isWork _
    exact .inr ⟨after, isWork ▸ waits⟩
  · intro id link reducer isWork linked ran _ waiting
    rw [isWork, waits] at waiting
    cases waiting
    have smaller : link.operand < operand :=
      below (show s.linkAt id = some ⟨work, link.operand⟩ by rw [← isWork]; exact linked)
    rw [kept _ (by omega)]
    exact shape.vacant linked ran (isWork ▸ waited)
  · rintro id reducer rfl waiting notFinishing
    rw [waits] at waiting
    cases waiting
    rcases next with rfl | ⟨rfl, fits⟩
    · exact absurd rfl notFinishing
    refine ⟨fits, fun operand' active vacancy => ?_⟩
    have different : operand' ≠ operand := by
      rintro rfl
      exact filled vacancy
    rw [kept _ different] at vacancy
    rcases shape.served waited nofun active vacancy with
      ⟨child, linked, busy⟩ | ⟨next', same', later⟩
    · exact .inl ⟨child, linked, mt (completed child).mp busy⟩
    · cases same'
      exact .inr ⟨operand + 1, rfl, by omega⟩
  · rintro id rfl processing
    rw [waits] at processing
    cases processing
  · rw [root, shape.result, completed]

/-- The state is one a slot without children can be in. -/
def Childless : WorkState → Prop
  | .queued _ => True
  | .processing => True
  | .reading _ => True
  | _ => False

theorem Shape.no_child {state : WorkState} {id : Nat} (shape : Shape s focus)
    (was : s.stateAt work = some state) (childless : Childless state)
    (linked : s.linkAt id = some link) : link.work ≠ work := by
  intro isWork
  have parents := shape.parents_wait linked
  rw [isWork, was] at parents
  rcases parents with ⟨⟨⟩⟩ | ⟨reducer, ⟨⟩⟩ <;> exact childless.elim

/-- Moving a childless slot from one childless state to another. -/
theorem Shape.childless {before after : WorkState} {focus' : Focus} (shape : Shape s focus)
    (same : SameOutside s s' fun id => id = work) (was : s.stateAt work = some before)
    (wasChildless : Childless before) (now : s'.stateAt work = some after)
    (nowChildless : Childless after) (root : s'.rootResult = s.rootResult)
    (old : focus = .idle ∨ focus = .processing work)
    (new : focus' = .processing work ∨ focus' = .idle ∧ after ≠ .processing) : Shape s' focus' := by
  have completed := same.state_iff .completed was now (by rintro rfl; exact wasChildless)
    (by rintro rfl; exact nowChildless)
  refine shape.update same ?_ (fun id _ => (completed id).mpr)
    (fun child _ _ _ _ _ _ _ _ => mt (completed child).mp) ?_ ?_ ?_ ?_ ?_
  · intro id outside
    rcases old with rfl | rfl
    · exact ⟨nofun, nofun, nofun⟩
    · exact ⟨fun same => outside (by cases same; rfl), nofun, nofun⟩
  · intro id link isWork linked
    exact absurd isWork (shape.no_child was wasChildless linked)
  · intro id link reducer isWork linked
    exact absurd isWork (shape.no_child was wasChildless linked)
  · rintro id reducer rfl waiting
    rw [now] at waiting
    cases waiting
    exact nowChildless.elim
  · rintro id rfl processing
    rcases new with rfl | ⟨-, different⟩
    · exact .inl rfl
    · rw [now] at processing
      cases processing
      exact absurd rfl different
  · rw [root, shape.result, completed]

/-- A processed slot starts to wait for operands it has not handed out yet. -/
theorem Shape.wait {reducer : Reducer} (shape : Shape s (.processing work))
    (same : SameOutside s s' fun id => id = work) (was : s.stateAt work = some .processing)
    (waits : s'.stateAt work = some (.waiting reducer)) (fits : reducer.WellFormed)
    (nonempty : reducer.remaining ≠ 0) (root : s'.rootResult = s.rootResult) :
    Shape s' (.handing work 0) ∧ ChildrenBelow s' work 0 := by
  have completed := same.state_iff .completed was waits nofun nofun
  constructor
  · refine shape.update same ?_ (fun id _ => (completed id).mpr)
      (fun child _ _ _ _ _ _ _ _ => mt (completed child).mp) ?_ ?_ ?_ ?_ ?_
    · intro id outside
      exact ⟨fun same => outside (by cases same; rfl), nofun, nofun⟩
    · intro id link isWork linked
      exact absurd isWork (shape.no_child was trivial linked)
    · intro id link reducer isWork linked
      exact absurd isWork (shape.no_child was trivial linked)
    · rintro id reducer' rfl waiting _
      rw [waits] at waiting
      cases waiting
      exact ⟨⟨fits, nonempty⟩, fun operand _ _ => .inr ⟨0, rfl, Nat.zero_le _⟩⟩
    · rintro id rfl processing
      rw [waits] at processing
      cases processing
    · rw [root, shape.result, completed]
  · intro id operand linked
    rw [same.links] at linked
    have childless : Childless .processing := trivial
    exact absurd rfl (shape.no_child was childless linked)

/-- An exemption that is not needed any more is dropped for another one. -/
theorem Shape.refocus {focus' : Focus} (shape : Shape s focus)
    (unfinished : ∀ id, focus ≠ .finishing id)
    (handed : ∀ id next reducer operand, focus = .handing id next → next ≤ operand →
      s.stateAt id = some (.waiting reducer) → Active s id → reducer.outcomes[operand]? ≠ some none)
    (processed : ∀ id, focus = .processing id → focus' = .finishing id) : Shape s focus' := by
  refine ⟨shape.parents_wait, shape.vacant, fun waiting _ => shape.reducers waiting (unfinished _),
    ?_, ?_, shape.result⟩
  · intro id reducer operand waiting _ running vacancy
    refine (shape.served waiting (unfinished id) running vacancy).imp_right ?_
    rintro ⟨next, same, later⟩
    exact absurd vacancy (handed id next reducer operand same later waiting running)
  · intro id processing
    rcases shape.processing processing with same | same
    · exact .inr (processed id same)
    · exact absurd same (unfinished id)

/-- A slot that has handed out all operands, or no longer matters, needs no exemption. -/
theorem Shape.idle_of_handing (shape : Shape s (.handing work bound))
    (handed : ∀ reducer, s.stateAt work = some (.waiting reducer) → Active s work →
      reducer.outcomes.length ≤ bound) : Shape s .idle := by
  refine shape.refocus nofun ?_ nofun
  rintro id next reducer operand ⟨⟩ later waiting running vacancy
  have most := handed reducer waiting running
  have inside := (List.getElem?_eq_some_iff.mp vacancy).1
  omega

theorem Shape.handing_of_idle (shape : Shape s .idle) : Shape s (.handing work bound) :=
  shape.refocus nofun nofun nofun

theorem Shape.finishing_of_processing (shape : Shape s (.processing work)) :
    Shape s (.finishing work) :=
  shape.refocus nofun nofun (by rintro id ⟨⟩; rfl)

/-- The shape only depends on the links, the states and the result. -/
theorem Shape.congr (shape : Shape s focus) (same : SameOutside s s' fun _ => False)
    (root : s'.rootResult = s.rootResult) : Shape s' focus := by
  have states : ∀ id, s'.stateAt id = s.stateAt id := fun _ => same.states False.elim
  have active : ∀ {id}, Active s' id → Active s id := same.active fun _ hit => hit.elim
  refine ⟨?_, ?_, ?_, ?_, ?_, ?_⟩
  · intro id link up
    rw [same.links] at up
    rw [states]
    exact shape.parents_wait up
  · intro id link reducer up running waiting
    rw [same.links] at up
    rw [states] at running waiting
    exact shape.vacant up running waiting
  · intro id reducer waiting notFinishing
    rw [states] at waiting
    exact shape.reducers waiting notFinishing
  · intro id reducer operand waiting notFinishing running vacancy
    rw [states] at waiting
    rcases shape.served waiting notFinishing (active running) vacancy with
      ⟨child, linked, busy⟩ | handed
    · exact .inl ⟨child, (same.links child).trans linked, by rwa [states]⟩
    · exact .inr handed
  · intro id processing
    rw [states] at processing
    exact shape.processing processing
  · rw [root, states]
    exact shape.result

end Updates

section Append

variable {s s' : Scheduler} {slot : WorkSlot}

/-- One slot more, at the end. -/
def Appends (s s' : Scheduler) (slot : WorkSlot) : Prop :=
  s'.slots = s.slots ++ [slot]

section

variable (appends : Appends s s' slot)

include appends

theorem Appends.getElem? (id : Nat) :
    s'.slots[id]? = if id = s.slots.length then some slot else s.slots[id]? := by
  rw [appends]
  by_cases last : id = s.slots.length
  · simp [last]
  · rw [if_neg last, getElem?_append]
    split
    · rfl
    · rw [getElem?_eq_none (show [slot].length ≤ id - s.slots.length by simp; omega),
        getElem?_eq_none (by omega)]

theorem Appends.length : s'.slots.length = s.slots.length + 1 := by
  rw [appends]
  simp

theorem Appends.stateAt (id : Nat) :
    s'.stateAt id = if id = s.slots.length then some slot.state else s.stateAt id := by
  simp only [Scheduler.stateAt, appends.getElem?]
  split <;> rfl

theorem Appends.linkAt (id : Nat) :
    s'.linkAt id = if id = s.slots.length then slot.parent else s.linkAt id := by
  simp only [Scheduler.linkAt, appends.getElem?]
  split <;> rfl

theorem Appends.memoKeyAt (id : Nat) :
    s'.memoKeyAt id = if id = s.slots.length then slot.memoKey else s.memoKeyAt id := by
  simp only [Scheduler.memoKeyAt, appends.getElem?]
  split <;> rfl

end

/-- A child for an operand that has not been handed out keeps the links a tree. -/
theorem Links.push (links : Links s) (appends : Appends s s' slot)
    (up : slot.parent = some ⟨work, operand⟩) (inside : work < s.slots.length)
    (below : ChildrenBelow s work operand) : Links s' := by
  have fresh : ∀ {id}, s.linkAt id ≠ some ⟨work, operand⟩ := by
    intro id linked
    exact absurd (below linked) (lt_irrefl operand)
  refine ⟨?_, ?_, ?_⟩
  · intro id lower
    rw [appends.length] at lower
    rw [appends.linkAt]
    split
    · rw [up]
      simp
      omega
    · exact links.root (by omega)
  · intro id link linked
    rw [appends.linkAt] at linked
    split at linked
    · rw [up] at linked
      cases linked
      simp only
      omega
    · exact links.parent_lt linked
  · intro id other link first second
    rw [appends.linkAt] at first second
    split at first <;> split at second
    · omega
    · rw [up] at first
      cases first
      exact absurd second fresh
    · rw [up] at second
      cases second
      exact absurd first fresh
    · exact links.distinct first second

/-- Handing the next operand of a slot to a new child. -/
theorem Shape.push {kind : WorkKind} (links : Links s) (shape : Shape s (.handing work operand))
    (appends : Appends s s' ⟨some ⟨work, operand⟩, none, .queued kind⟩)
    (inside : work < s.slots.length) (below : ChildrenBelow s work operand)
    (parent : s.stateAt work = some .completed ∨ ∃ reducer,
      s.stateAt work = some (.waiting reducer) ∧ reducer.outcomes[operand]? = some none)
    (root : s'.rootResult = s.rootResult) :
    Shape s' (.handing work (operand + 1)) ∧ ChildrenBelow s' work (operand + 1) := by
  have old : ∀ {id}, id ≠ s.slots.length → s'.stateAt id = s.stateAt id := by
    intro id other
    rw [appends.stateAt, if_neg other]
  have oldLink : ∀ {id link}, s.linkAt id = some link → s'.linkAt id = some link := by
    intro id link linked
    have lower := lt_length_of_linkAt linked
    rw [appends.linkAt, if_neg (by omega)]
    exact linked
  have known : ∀ {id state}, s.stateAt id = some state → s'.stateAt id = some state := by
    intro id state found
    have lower := lt_length_of_stateAt found
    rw [old (by omega)]
    exact found
  have notNew : ∀ {id}, s'.stateAt id ≠ some (.queued kind) → id ≠ s.slots.length := by
    rintro id other rfl
    exact other (by rw [appends.stateAt, if_pos rfl])
  have active : ∀ {id}, Active s' id → id ≠ s.slots.length → Active s id := by
    intro id running
    induction running with
    | @root id top =>
      intro other
      rw [appends.linkAt, if_neg other] at top
      exact .root top
    | @step id link up running _ ih =>
      intro other
      rw [appends.linkAt, if_neg other] at up
      have lower := links.parent_lt up
      have most := lt_length_of_linkAt up
      rw [old (by omega)] at running
      exact .step up running (ih (by omega))
  refine ⟨⟨?_, ?_, ?_, ?_, ?_, ?_⟩, ?_⟩
  · intro id link linked
    rw [appends.linkAt] at linked
    split at linked
    · cases linked
      rcases parent with done | ⟨reducer, waiting, -⟩
      · exact .inl (known done)
      · exact .inr ⟨reducer, known waiting⟩
    · rcases shape.parents_wait linked with done | ⟨reducer, waiting⟩
      · exact .inl (known done)
      · exact .inr ⟨reducer, known waiting⟩
  · intro id link reducer linked running waiting
    have parentOld : link.work ≠ s.slots.length := notNew (by rw [waiting]; simp)
    rw [old parentOld] at waiting
    rw [appends.linkAt] at linked
    split at linked
    · cases linked
      rcases parent with done | ⟨reducer', waiting', vacancy⟩
      · rw [done] at waiting
        cases waiting
      · rw [waiting'] at waiting
        cases waiting
        exact vacancy
    · rename_i other
      rw [old other] at running
      exact shape.vacant linked running waiting
  · intro id reducer waiting _
    rw [old (notNew (by rw [waiting]; simp))] at waiting
    exact shape.reducers waiting (by simp)
  · intro id reducer operand' waiting _ running vacancy
    have other : id ≠ s.slots.length := notNew (by rw [waiting]; simp)
    rw [old other] at waiting
    rcases shape.served waiting (by simp) (active running other) vacancy with
      ⟨child, linked, busy⟩ | ⟨next, same, later⟩
    · have lower := lt_length_of_linkAt linked
      exact .inl ⟨child, oldLink linked, by rwa [old (by omega)]⟩
    · cases same
      by_cases here : operand' = operand
      · subst here
        refine .inl ⟨s.slots.length, ?_, ?_⟩
        · rw [appends.linkAt, if_pos rfl]
        · rw [appends.stateAt, if_pos rfl]
          simp
      · exact .inr ⟨operand + 1, rfl, by omega⟩
  · intro id processing
    rw [old (notNew (by rw [processing]; simp))] at processing
    rcases shape.processing processing with same | same <;> cases same
  · have first : (0 : Nat) ≠ s.slots.length := by omega
    rw [root, old first]
    exact shape.result
  · intro id operand' linked
    rw [appends.linkAt] at linked
    split at linked
    · cases linked
      omega
    · have := below linked
      omega

end Append

end OpenFga.Scheduler
