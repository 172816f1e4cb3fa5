import OpenFga.Check.Coherent

/-!
# Moves of a slot

The elementary changes the steps of a run consist of, besides deliveries: a slot
is taken from a queue, put back, starts to read, starts to wait, hands an operand
to a new child, or is dropped. Each keeps the state coherent.
-/

namespace OpenFga

open Scheduler List Function

variable {s s' : Scheduler} {work : Nat} {before after : WorkState} {s₁ : Scheduler}
  {rest : List Nat} {index : Nat} {read : PendingRead} {kind : WorkKind}
  {continuation : ReadContinuation}

/-- Only the state of one slot changes, apart from queues and counters. -/
structure Scheduler.Moves (s s' : Scheduler) (work : Nat) : Prop where
  same : SameOutside s s' fun id => id = work
  memoKeys : ∀ id, s'.memoKeyAt id = s.memoKeyAt id
  memo : s'.memo = s.memo
  produced : s'.produced = s.produced
  rootResult : s'.rootResult = s.rootResult
  dispatches : s'.dispatches = s.dispatches

/-- The slot is listed in one of the queues. -/
def Enlisted : WorkState → Prop
  | .queued _ => True
  | .reading _ => True
  | _ => False

section Queues

variable {env : CheckEnvironment}

/-- Who is listed, for a change of one slot that is listed nowhere afterwards. -/
private theorem listed_outside (same : SameOutside s s' fun id => id = work)
    (now : s'.stateAt work = some after) (unlisted : ¬ Enlisted after) {id : Nat}
    {state : WorkState} (listed : Enlisted state) :
    s'.stateAt id = some state ↔ id ≠ work ∧ s.stateAt id = some state := by
  by_cases isWork : id = work
  · subst isWork
    rw [now]
    constructor
    · rintro ⟨⟩
      exact absurd listed unlisted
    · rintro ⟨other, -⟩
      exact absurd rfl other
  · rw [same.states isWork]
    simp [isWork]

theorem Queues.dequeue (queues : Queues env s) (same : SameOutside s s' fun id => id = work)
    (was : s.stateAt work = some before)
    (notReading : ∀ continuation, before ≠ .reading continuation)
    (now : s'.stateAt work = some after) (unlisted : ¬ Enlisted after)
    (head : s.ready = work :: rest) (ready : s'.ready = rest) (reads : s'.reads = s.reads) :
    Queues env s' := by
  have queued : ∀ {id kind}, s'.stateAt id = some (.queued kind) ↔
      id ≠ work ∧ s.stateAt id = some (.queued kind) := listed_outside same now unlisted trivial
  have nodup := queues.ready_nodup
  rw [head, nodup_cons] at nodup
  refine queues.of_ready (ready ▸ nodup.2) ?_ reads
    (same.state_iff _ was now (notReading _) (by rintro rfl; exact unlisted trivial) _)
  intro id
  have listed : id ∈ s.ready ↔ _ := queues.ready_iff
  simp only [head, mem_cons] at listed
  simp only [ready, queued, exists_and_left, ← listed]
  constructor
  · intro member
    refine ⟨?_, .inr member⟩
    rintro rfl
    exact nodup.1 member
  · rintro ⟨other, same | member⟩
    · exact absurd same other
    · exact member

theorem Queues.unread (queues : Queues env s) (same : SameOutside s s' fun id => id = read.work)
    (found : s.reads[index]? = some read) (now : s'.stateAt read.work = some after)
    (unlisted : ¬ Enlisted after) (ready : s'.ready = s.ready)
    (reads : s'.reads = s.reads.eraseIdx index) : Queues env s' := by
  obtain ⟨continuation, was⟩ :=
    queues.reads_iff.mp (mem_map_of_mem (mem_of_getElem? found))
  have queued (id : Nat) (kind : WorkKind) : s'.stateAt id = some (.queued kind) ↔
      s.stateAt id = some (.queued kind) :=
    same.state_iff (.queued kind) was now nofun (by rintro rfl; exact unlisted trivial) id
  have reading : ∀ {id continuation}, s'.stateAt id = some (.reading continuation) ↔
      id ≠ read.work ∧ s.stateAt id = some (.reading continuation) :=
    listed_outside same now unlisted trivial
  have works : s'.reads.map PendingRead.work = (s.reads.map PendingRead.work).erase read.work := by
    have inside : index < (s.reads.map PendingRead.work).length := by
      simpa using (List.getElem?_eq_some_iff.mp found).1
    have value : (s.reads.map PendingRead.work)[index] = read.work := by
      simp [(List.getElem?_eq_some_iff.mp found).2]
    rw [reads, ← eraseIdx_map, ← value, queues.reads_nodup.erase_getElem index inside]
  refine ⟨ready ▸ queues.ready_nodup, ?_, works ▸ queues.reads_nodup.erase _, ?_, ?_⟩
  · intro id
    simp only [ready, queues.ready_iff, queued]
  · intro id
    rw [works, queues.reads_nodup.mem_erase_iff, queues.reads_iff]
    simp only [reading, exists_and_left]
  · intro other continuation' member found'
    rw [reads] at member
    exact queues.reads_match (mem_of_mem_eraseIdx member) (reading.mp found').2

private theorem nodup_push {list : List Nat} {last : Nat} (nodup : list.Nodup)
    (fresh : last ∉ list) : (list ++ [last]).Nodup :=
  concat_eq_append ▸ nodup.concat fresh

/-- A slot that was listed nowhere joins the ready queue. -/
theorem Queues.enqueue (queues : Queues env s) (same : SameOutside s s' fun id => id = work)
    (was : s.stateAt work = some before) (unlisted : ¬ Enlisted before)
    (now : s'.stateAt work = some (.queued kind)) (ready : s'.ready = s.ready ++ [work])
    (reads : s'.reads = s.reads) : Queues env s' := by
  have fresh : work ∉ s.ready := by
    intro member
    obtain ⟨kind', found⟩ := queues.ready_iff.mp member
    rw [was] at found
    cases found
    exact unlisted trivial
  have reading (id : Nat) (continuation : ReadContinuation) :=
    same.state_iff (.reading continuation) was now (by rintro rfl; exact unlisted trivial) nofun id
  refine queues.of_ready (ready ▸ nodup_push queues.ready_nodup fresh) ?_ reads (reading _ _)
  intro id
  rw [ready, mem_append, mem_singleton]
  by_cases isWork : id = work
  · subst isWork
    simp [now]
  · rw [same.states isWork, queues.ready_iff]
    simp [isWork]

/-- A slot that was listed nowhere starts a read. -/
theorem Queues.startRead {relation : CompiledRelation} (queues : Queues env s)
    (same : SameOutside s s' fun id => id = read.work) (was : s.stateAt read.work = some before)
    (unlisted : ¬ Enlisted before) (now : s'.stateAt read.work = some (.reading continuation))
    (ready : s'.ready = s.ready) (reads : s'.reads = s.reads ++ [read])
    (object : continuation.object = read.object)
    (found : env.model.relation continuation.relation = some relation)
    (name : relation.name = read.relation) : Queues env s' := by
  have fresh : read.work ∉ s.reads.map PendingRead.work := by
    intro member
    obtain ⟨continuation', found⟩ := queues.reads_iff.mp member
    rw [was] at found
    cases found
    exact unlisted trivial
  have queued (id : Nat) (kind : WorkKind) : s'.stateAt id = some (.queued kind) ↔
      s.stateAt id = some (.queued kind) :=
    same.state_iff (.queued kind) was now (by rintro rfl; exact unlisted trivial) nofun id
  refine ⟨ready ▸ queues.ready_nodup, ?_, ?_, ?_, ?_⟩
  · intro id
    simp only [ready, queues.ready_iff, queued]
  · rw [reads, map_append]
    exact nodup_push queues.reads_nodup fresh
  · intro id
    rw [reads, map_append, mem_append, map_singleton, mem_singleton]
    by_cases isWork : id = read.work
    · subst isWork
      simp [now]
    · rw [same.states isWork, queues.reads_iff]
      simp [isWork]
  · intro other continuation' member found'
    rw [reads, mem_append, mem_singleton] at member
    rcases member with old | rfl
    · have notWork : other.work ≠ read.work := by
        intro clash
        exact fresh (clash ▸ mem_map_of_mem old)
      rw [same.states notWork] at found'
      exact queues.reads_match old found'
    · rw [now] at found'
      cases found'
      exact ⟨object, relation, found, name⟩

/-- A slot that is listed nowhere changes to a state that is listed nowhere. -/
theorem Queues.unlisted (queues : Queues env s) (same : SameOutside s s' fun id => id = work)
    (was : s.stateAt work = some before) (unlisted : ¬ Enlisted before)
    (now : s'.stateAt work = some after) (stays : ¬ Enlisted after)
    (ready : s'.ready = s.ready) (reads : s'.reads = s.reads) : Queues env s' := by
  have kept (id : Nat) {state : WorkState} (listed : Enlisted state) :
      s'.stateAt id = some state ↔ s.stateAt id = some state :=
    same.state_iff _ was now (by rintro rfl; exact unlisted listed)
      (by rintro rfl; exact stays listed) id
  refine queues.of_ready (ready ▸ queues.ready_nodup) ?_ reads (kept _ trivial)
  intro id
  have queued (kind : WorkKind) : s'.stateAt id = some (.queued kind) ↔ _ := kept id trivial
  simp only [ready, queues.ready_iff, queued]

end Queues

section Moves

variable {target : Target} {ghost : Ghost} {focus focus' : Focus}

theorem Coherent.congr (coherent : Coherent target ghost focus s) (slots : s'.slots = s.slots)
    (ready : s'.ready = s.ready) (reads : s'.reads = s.reads) (memo : s'.memo = s.memo)
    (produced : s'.produced = s.produced) (rootResult : s'.rootResult = s.rootResult)
    (dispatches : s.dispatches ≤ s'.dispatches) : Coherent target ghost focus s' := by
  have states : ∀ id, s'.stateAt id = s.stateAt id := fun id => by simp only [stateAt, slots]
  have links : ∀ id, s'.linkAt id = s.linkAt id := fun id => by simp only [linkAt, slots]
  have same : SameOutside s s' fun _ => False := ⟨by rw [slots], links, fun _ => states _⟩
  refine ⟨slots ▸ coherent.nonempty, coherent.links.sameOutside same,
    coherent.shape.congr same rootResult, ?_, ?_, ?_, slots ▸ coherent.bounded⟩
  · refine coherent.meaning.touch links ?_ ?_ ?_ ?_ ?_ ?_
    · exact fun id state found => .inl ((states id).symm.trans found)
    · intro id key found
      simp only [memoKeyAt, slots] at found
      exact .inl found
    · exact fun entry member => .inl (memo ▸ member)
    · exact fun outcome found => .inl (rootResult ▸ found)
    · rw [produced]
      exact fun _ => id
    · exact fun error member => .inl (produced ▸ member)
  · refine ⟨ready ▸ coherent.queues.ready_nodup, ?_, reads ▸ coherent.queues.reads_nodup, ?_, ?_⟩
    · intro id
      rw [ready, states]
      exact coherent.queues.ready_iff
    · intro id
      rw [reads, states]
      exact coherent.queues.reads_iff
    · intro read continuation member found
      rw [reads] at member
      rw [states] at found
      exact coherent.queues.reads_match member found
  · rw [slots]
    exact coherent.dispatched.trans dispatches

/-- Everything but the shape and the queues, after a move. -/
theorem Coherent.moved (coherent : Coherent target ghost focus s) (moves : Moves s s' work)
    (now : s'.stateAt work = some after)
    (means : StateMeans target s.produced (ghost.spec work) (ghost.operands work) after)
    (shape : Shape s' focus') (queues : Queues target.env s') :
    Coherent target ghost focus' s' := by
  refine ⟨?_, coherent.links.sameOutside moves.same, shape, ?_, queues, ?_, ?_⟩
  · rw [moves.same.length]
    exact coherent.nonempty
  · refine coherent.meaning.touch moves.same.links ?_ ?_ ?_ ?_ ?_ ?_
    · intro id state found
      by_cases isWork : id = work
      · subst isWork
        rw [now] at found
        cases found
        rw [moves.produced]
        exact .inr means
      · rw [moves.same.states isWork] at found
        exact .inl found
    · intro id key found
      rw [moves.memoKeys] at found
      exact .inl found
    · exact fun entry member => .inl (moves.memo ▸ member)
    · exact fun outcome found => .inl (moves.rootResult ▸ found)
    · rw [moves.produced]
      exact fun _ => id
    · exact fun error member => .inl (moves.produced ▸ member)
  · rw [moves.same.length, moves.dispatches]
    exact coherent.dispatched
  · rw [moves.same.length]
    exact coherent.bounded

/-- The same apart from the queues and the counters other than dispatches. -/
structure Scheduler.Alike (s s₁ : Scheduler) : Prop where
  slots : s₁.slots = s.slots
  memo : s₁.memo = s.memo
  produced : s₁.produced = s.produced
  rootResult : s₁.rootResult = s.rootResult
  dispatches : s₁.dispatches = s.dispatches

theorem Scheduler.Alike.moves {s₁ : Scheduler} (alike : Alike s s₁) (work : Nat)
    (state : WorkState) : Moves s (s₁.setState work state) work := by
  have links : ∀ id, s₁.linkAt id = s.linkAt id := fun id => by simp only [linkAt, alike.slots]
  have keys : ∀ id, s₁.memoKeyAt id = s.memoKeyAt id :=
    fun id => by simp only [memoKeyAt, alike.slots]
  refine ⟨⟨?_, ?_, ?_⟩, ?_, alike.memo, alike.produced, alike.rootResult, alike.dispatches⟩
  · rw [length_setState, alike.slots]
  · intro id
    rw [linkAt_setState, links]
  · intro id other
    rw [stateAt_setState_ne other]
    simp only [stateAt, alike.slots]
  · intro id
    rw [memoKeyAt_setState, keys]

theorem Scheduler.Alike.now {s₁ : Scheduler} (alike : Alike s s₁)
    (was : s.stateAt work = some before)
    (state : WorkState) : (s₁.setState work state).stateAt work = some state := by
  apply stateAt_setState_self
  rw [alike.slots]
  exact lt_length_of_stateAt was

/-- A slot whose outcome nobody waits for any more is dropped. -/
theorem Scheduler.Shape.drop (shape : Shape s .idle) (links : Links s) (moves : Moves s s' work)
    (was : s.stateAt work = some before) (now : s'.stateAt work = some .completed)
    (inactive : ¬ Active s work) : Shape s' .idle := by
  refine shape.retire (by simp) moves.same now ?_ ?_
  · intro id reducer operand up waiting active
    exact inactive (.step up (by simp [waiting]) active)
  · have notRoot : work ≠ 0 := by
      rintro rfl
      exact inactive (.root ((links.root (lt_length_of_stateAt was)).mpr rfl))
    rw [moves.rootResult, moves.same.states (Ne.symm notRoot)]
    exact shape.result

section FromIdle

variable (coherent : Coherent target ghost .idle s) (alike : Alike s s₁)

include coherent alike

/-- The slot at the head of the ready queue is taken. -/
theorem Coherent.take (head : s.ready = work :: rest) (ready : s₁.ready = rest)
    (reads : s₁.reads = s.reads) (was : s.stateAt work = some (.queued kind)) :
    Coherent target ghost (.processing work) (s₁.setState work .processing) := by
  have moves := alike.moves work .processing
  have now := alike.now was .processing
  apply coherent.moved moves now trivial
  · exact coherent.shape.childless moves.same was trivial now trivial moves.rootResult (.inl rfl)
      (.inl rfl)
  · exact coherent.queues.dequeue moves.same was (by simp) now id head ready reads

/-- An outstanding read is joined. -/
theorem Coherent.join (found : s.reads[index]? = some read) (ready : s₁.ready = s.ready)
    (reads : s₁.reads = s.reads.eraseIdx index)
    (was : s.stateAt read.work = some (.reading continuation)) :
    Coherent target ghost (.processing read.work) (s₁.setState read.work .processing) := by
  have moves := alike.moves read.work .processing
  have now := alike.now was .processing
  apply coherent.moved moves now trivial
  · exact coherent.shape.childless moves.same was trivial now trivial moves.rootResult (.inl rfl)
      (.inl rfl)
  · exact coherent.queues.unread moves.same found now id ready reads

theorem Coherent.dropReady (head : s.ready = work :: rest) (ready : s₁.ready = rest)
    (reads : s₁.reads = s.reads)
    (was : s.stateAt work = some (.queued kind)) (inactive : ¬ Active s work) :
    Coherent target ghost .idle (s₁.setState work .completed) := by
  have moves := alike.moves work .completed
  have now := alike.now was .completed
  apply coherent.moved moves now trivial
  · exact coherent.shape.drop coherent.links moves was now inactive
  · exact coherent.queues.dequeue moves.same was (by simp) now id head ready reads

theorem Coherent.dropRead (found : s.reads[index]? = some read) (ready : s₁.ready = s.ready)
    (reads : s₁.reads = s.reads.eraseIdx index)
    (was : s.stateAt read.work = some (.reading continuation)) (inactive : ¬ Active s read.work) :
    Coherent target ghost .idle (s₁.setState read.work .completed) := by
  have moves := alike.moves read.work .completed
  have now := alike.now was .completed
  apply coherent.moved moves now trivial
  · exact coherent.shape.drop coherent.links moves was now inactive
  · exact coherent.queues.unread moves.same found now id ready reads

end FromIdle

section

variable (ghost : Ghost) (work : Nat) (operands : List Spec)

/-- The evaluations of the operands of one slot are fixed. -/
def Ghost.withOperands : Ghost :=
  { ghost with operands := update ghost.operands work operands }

@[simp] theorem Ghost.withOperands_spec :
    (ghost.withOperands work operands).spec = ghost.spec := rfl

@[simp] theorem Ghost.withOperands_operands :
    (ghost.withOperands work operands).operands work = operands := by
  simp [withOperands]

end

section FromProcessing

variable (coherent : Coherent target ghost (.processing work) s)
  (processing : s.stateAt work = some .processing)

include coherent processing

/-- A processed slot goes back to the end of the ready queue. -/
theorem Coherent.requeue (alike : Alike s s₁)
    (ready : s₁.ready = s.ready ++ [work]) (reads : s₁.reads = s.reads)
    (valid : target.env.model.WorkValid kind) (spec : ghost.spec work = target.work kind) :
    Coherent target ghost .idle (s₁.setState work (.queued kind)) := by
  have moves := alike.moves work (.queued kind)
  have now := alike.now processing (.queued kind)
  apply coherent.moved moves now ⟨valid, spec⟩
  · exact coherent.shape.childless moves.same processing trivial now trivial moves.rootResult
      (.inr rfl) (.inr ⟨rfl, by simp⟩)
  · exact coherent.queues.enqueue moves.same processing id now ready reads

/-- A processed slot starts to read. -/
theorem Coherent.startRead {relation : CompiledRelation} (alike : Alike s s₁)
    (ready : s₁.ready = s.ready)
    (reads : s₁.reads = s.reads ++ [⟨work, continuation.object, relation.name⟩])
    (found : target.env.model.relation continuation.relation = some relation)
    (valid : target.env.model.ReadValid continuation)
    (spec : ghost.spec work = target.read continuation) :
    Coherent target ghost .idle (s₁.setState work (.reading continuation)) := by
  have moves := alike.moves work (.reading continuation)
  have now := alike.now processing (.reading continuation)
  apply coherent.moved moves now ⟨valid, spec⟩
  · exact coherent.shape.childless moves.same processing trivial now trivial moves.rootResult
      (.inr rfl) (.inr ⟨rfl, by simp⟩)
  · exact coherent.queues.startRead moves.same processing id now ready reads rfl found rfl

/-- The operands of a processed slot can be chosen freely: it has no children yet. -/
theorem Coherent.withOperands (operands : List Spec) :
    Coherent target (ghost.withOperands work operands) (.processing work) s := by
  have meaning := coherent.meaning
  refine { coherent with meaning := { meaning with states := ?_, children := ?_ } }
  · intro id state found
    by_cases isWork : id = work
    · subst isWork
      rw [processing] at found
      cases found
      trivial
    · simpa [Ghost.withOperands, update_of_ne isWork] using meaning.states found
  · intro id link up
    have other : link.work ≠ work := by
      intro isWork
      have parents := coherent.shape.parents_wait up
      rw [isWork, processing] at parents
      rcases parents with impossible | ⟨reducer, impossible⟩ <;> cases impossible
    simpa [Ghost.withOperands, update_of_ne other] using meaning.children up

/-- A processed slot starts to wait for its operands. -/
theorem Coherent.wait (kind : ReducerKind) (resolution : Option CheckResolution)
    (operands : List Spec)
    (combined : ∃ shift, ∀ fuel, ghost.spec work (fuel + shift) =
      combine kind resolution (operands.map fun operand => operand fuel))
    (nonempty : operands ≠ []) (single : kind = .single → operands.length = 1)
    (difference : kind = .difference → operands.length = 2) :
    Coherent target (ghost.withOperands work operands) (.handing work 0)
        (s.setState work (.waiting (.new kind operands.length resolution))) ∧
      ChildrenBelow (s.setState work (.waiting (.new kind operands.length resolution))) work 0 := by
  have prepared := coherent.withOperands processing operands
  have alike : Alike s s := ⟨rfl, rfl, rfl, rfl, rfl⟩
  have moves := alike.moves work (.waiting (.new kind operands.length resolution))
  have now := alike.now processing (.waiting (.new kind operands.length resolution))
  have fits : (Reducer.new kind operands.length resolution).WellFormed :=
    Reducer.wellFormed_new resolution single difference
  have open' : (Reducer.new kind operands.length resolution).remaining ≠ 0 := by
    simpa [Reducer.new] using nonempty
  obtain ⟨shape, below⟩ := prepared.shape.wait moves.same processing now fits open' rfl
  refine ⟨?_, below⟩
  apply prepared.moved moves now _ shape
  · exact prepared.queues.unlisted moves.same processing id now id rfl rfl
  · refine ⟨by simp [Reducer.new], by simpa [Reducer.new] using combined, ?_⟩
    intro index outcome operand delivered
    simp [Reducer.new, getElem?_replicate] at delivered

/-- A processed slot remembers under which key its decision is to be kept. -/
theorem Coherent.remember {key : MemoKey} (spec : ghost.spec work = target.memo key)
    (slots : s'.slots = s.slots.modify work fun slot => { slot with memoKey := some key })
    (ready : s'.ready = s.ready) (reads : s'.reads = s.reads) (memo : s'.memo = s.memo)
    (produced : s'.produced = s.produced) (rootResult : s'.rootResult = s.rootResult)
    (dispatches : s'.dispatches = s.dispatches) :
    Coherent target ghost (.processing work) s' ∧ s'.stateAt work = some .processing := by
  have states : ∀ id, s'.stateAt id = s.stateAt id := by
    intro id
    simp only [stateAt, slots, getElem?_modify]
    cases s.slots[id]? <;> by_cases same : work = id <;> simp [same]
  have links : ∀ id, s'.linkAt id = s.linkAt id := by
    intro id
    simp only [linkAt, slots, getElem?_modify]
    cases s.slots[id]? <;> by_cases same : work = id <;> simp [same]
  have length : s'.slots.length = s.slots.length := by rw [slots, length_modify]
  have same : SameOutside s s' fun _ => False := ⟨length, links, fun _ => states _⟩
  refine ⟨⟨length ▸ coherent.nonempty, coherent.links.sameOutside same,
    coherent.shape.congr same rootResult, ?_, ?_, ?_, length ▸ coherent.bounded⟩,
    (states work).trans processing⟩
  · refine coherent.meaning.touch links ?_ ?_ ?_ ?_ ?_ ?_
    · exact fun id state found => .inl ((states id).symm.trans found)
    · intro id other found
      simp only [memoKeyAt, slots, getElem?_modify] at found
      by_cases isWork : work = id
      · subst isWork
        cases present : s.slots[work]? with
        | none => simp [present] at found
        | some slot =>
          simp only [present, if_true, Option.map_eq_map, Option.map_some, Option.bind_some,
            Option.some.injEq] at found
          exact .inr (found ▸ spec)
      · left
        cases present : s.slots[id]? with
        | none => simp [present] at found
        | some slot => simpa [memoKeyAt, present, isWork] using found
    · exact fun entry member => .inl (memo ▸ member)
    · exact fun outcome found => .inl (rootResult ▸ found)
    · rw [produced]
      exact fun _ => id
    · exact fun error member => .inl (produced ▸ member)
  · exact coherent.queues.unlisted (⟨length, links, fun _ => states _⟩ :
      SameOutside s s' fun id => id = work) processing id ((states work).trans processing)
      id ready reads
  · rw [length, dispatches]
    exact coherent.dispatched

end FromProcessing

section Push

/-- The evaluation of one more slot. -/
def Ghost.withSpec (ghost : Ghost) (work : Nat) (spec : Spec) : Ghost :=
  { ghost with spec := update ghost.spec work spec }

@[simp] theorem Ghost.withSpec_operands (ghost : Ghost) (work : Nat) (spec : Spec) :
    (ghost.withSpec work spec).operands = ghost.operands := rfl

theorem Ghost.withSpec_spec_ne (ghost : Ghost) {work id : Nat} (spec : Spec) (other : id ≠ work) :
    (ghost.withSpec work spec).spec id = ghost.spec id :=
  update_of_ne other _ _

theorem Queues.push {env : CheckEnvironment} {slot : WorkSlot} (queues : Queues env s)
    (appends : Appends s s' slot) (state : slot.state = .queued kind)
    (ready : s'.ready = s.ready ++ [s.slots.length]) (reads : s'.reads = s.reads) :
    Queues env s' := by
  have fresh : s.slots.length ∉ s.ready := by
    intro member
    obtain ⟨kind', found⟩ := queues.ready_iff.mp member
    exact absurd (lt_length_of_stateAt found) (lt_irrefl _)
  refine queues.of_ready (ready ▸ nodup_push queues.ready_nodup fresh) ?_ reads ?_
  · intro id
    rw [ready, mem_append, mem_singleton, appends.stateAt]
    split
    · rename_i last
      simp [last, state]
    · rename_i other
      rw [queues.ready_iff]
      simp [other]
  · intro id continuation
    rw [appends.stateAt]
    split
    · rename_i last
      rw [state]
      constructor
      · rintro ⟨⟩
      · intro found
        have := lt_length_of_stateAt found
        omega
    · rfl

/-- A slot hands its next operand to a new child. -/
theorem Coherent.push {operand : Nat} {spec : Spec}
    (coherent : Coherent target ghost (.handing work operand) s)
    (below : ChildrenBelow s work operand)
    (appends : Appends s s' ⟨some ⟨work, operand⟩, none, .queued kind⟩)
    (parent : s.stateAt work = some .completed ∨ ∃ reducer,
      s.stateAt work = some (.waiting reducer) ∧ reducer.outcomes[operand]? = some none)
    (found : (ghost.operands work)[operand]? = some spec) (valid : target.env.model.WorkValid kind)
    (equal : spec = target.work kind) (ready : s'.ready = s.ready ++ [s.slots.length])
    (reads : s'.reads = s.reads) (memo : s'.memo = s.memo) (produced : s'.produced = s.produced)
    (rootResult : s'.rootResult = s.rootResult) (dispatches : s'.dispatches = s.dispatches + 1)
    (admitted : s'.dispatches ≤ target.env.budget.maximumDispatches) :
    Coherent target (ghost.withSpec s.slots.length spec) (.handing work (operand + 1)) s' ∧
      ChildrenBelow s' work (operand + 1) := by
  have inside : work < s.slots.length := by
    rcases parent with done | ⟨reducer, waiting, -⟩
    · exact lt_length_of_stateAt done
    · exact lt_length_of_stateAt waiting
  obtain ⟨shape, below'⟩ := coherent.shape.push coherent.links appends inside below
    parent rootResult
  have meaning := coherent.meaning
  have dispatched := coherent.dispatched
  refine ⟨⟨?_, coherent.links.push appends rfl inside below, shape, ?_, ?_, ?_, ?_⟩, below'⟩
  · rw [appends.length]
    omega
  · refine ⟨?_, ?_, ?_, memo ▸ meaning.memo, ?_, ?_, produced ▸ meaning.benign⟩
    · intro id state present
      rw [appends.stateAt] at present
      split at present
      · rename_i last
        cases present
        subst last
        refine ⟨valid, ?_⟩
        rw [← equal]
        simp [Ghost.withSpec]
      · rename_i other
        rw [ghost.withSpec_spec_ne spec other, produced]
        exact meaning.states present
    · intro id link up
      rw [appends.linkAt] at up
      split at up
      · rename_i last
        cases up
        subst last
        simpa [Ghost.withSpec] using found
      · rename_i other
        rw [ghost.withSpec_spec_ne spec other]
        exact meaning.children up
    · intro id key present
      rw [appends.memoKeyAt] at present
      split at present
      · cases present
      · rename_i other
        rw [ghost.withSpec_spec_ne spec other]
        exact meaning.memoKeys present
    · rw [ghost.withSpec_spec_ne spec (by have := coherent.nonempty; omega)]
      exact meaning.root
    · intro outcome present
      rw [produced]
      exact meaning.result outcome (rootResult ▸ present)
  · exact coherent.queues.push appends rfl ready reads
  · rw [appends.length, dispatches]
    omega
  · rw [appends.length]
    omega

end Push

end Moves

end OpenFga
