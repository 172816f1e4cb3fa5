import OpenFga.Cache.Controller

/-!
# The cursor of a store

The actor reads the changelog of a store page by page. Its cursor for the store moves
only to the last change of a page, and the page holds every change it moves past. A
failed poll and a restart reset the cursor.
-/

namespace OpenFga.Cache

open Actor

variable {store : StoreId} {config : ControllerConfig} {invoked : Nat} {continuation : Bool}
  {items : List Change} {due : List StoreId} {change : Change}

section Cursor

variable {s : Shared} {actor : Actor}

/-- The cursor of a store, wherever the actor keeps its state. -/
def Actor.cursorOf (actor : Actor) (store : StoreId) : Option Nat :=
  (actor.stateOf store).bind StoreState.lastSeen

theorem Actor.cursorOf_held {held : StoreId} {state : StoreState}
    (holding : actor.stage.held = some (held, state)) (store : StoreId) :
    actor.cursorOf store = if held = store then state.lastSeen else
      (actor.stores store).bind StoreState.lastSeen := by
  simp only [cursorOf, stateOf, holding]
  split <;> rfl

theorem Actor.cursorOf_free (free : actor.stage.held = none) (store : StoreId) :
    actor.cursorOf store = (actor.stores store).bind StoreState.lastSeen := by
  simp only [cursorOf, stateOf, free]

theorem Actor.Sound.known (sound : actor.Sound config s) {state : StoreState}
    (found : actor.stateOf store = some state) : Known s store state := by
  have stage := sound.stage
  cases holds : actor.stage.held with
  | none =>
    rw [stateOf, holds] at found
    exact (sound.stores store state found).known
  | some holding =>
    obtain ⟨held, polled⟩ := holding
    rw [stateOf, holds] at found
    simp only at found
    split at found
    · rename_i same
      subst same
      cases found
      cases at_ : actor.stage with
      | idle | polling | stopped => rw [at_] at holds; cases holds
      | reading | succeeded | backlogged | failed =>
        rw [at_] at holds stage; cases holds; exact stage.1
      | awaiting => rw [at_] at holds stage; cases holds; exact stage.2.1
      | storing => rw [at_] at holds stage; cases holds; exact stage.known
    · exact (sound.stores store state found).known

variable {effects : List Effect} {stage : ActorStage} {held : StoreId} {state next : StoreState}
  {id : Nat}

/-- Going on with a poll keeps the cursors, unless it moves or resets the polled one. -/
theorem Actor.cursorOf_hold (before : actor.stage.held = some (held, state))
    (after : stage.held = some (held, next))
    (cursor : next.lastSeen = some id → state.lastSeen = some id)
    (found : (actor.goTo effects stage).cursorOf store = some id) :
    actor.cursorOf store = some id := by
  rw [cursorOf_held before]
  rw [cursorOf_held (show (actor.goTo effects stage).stage.held = _ from after)] at found
  split at found
  · rename_i same
    rw [if_pos same]
    exact cursor found
  · rename_i different
    rw [if_neg different]
    exact found

theorem Actor.cursorOf_rest (before : actor.stage.held = none) (after : stage.held = none) :
    (actor.goTo effects stage).cursorOf store = actor.cursorOf store := by
  rw [cursorOf_free before,
    cursorOf_free (show (actor.goTo effects stage).stage.held = _ from after)]
  rfl

theorem Actor.cursorOf_page {pages percent : Nat} {changed : Bool}
    (stage : actor.stage = .awaiting held state pages changed due invoked)
    (found : (actor.page held state due pages changed invoked items continuation percent).cursorOf
      store = some id) : actor.cursorOf store = some id ∨ (held = store ∧
      validateChanges store state.lastSeen items = true ∧
      ∃ last, items.getLast? = some last ∧ id = last.id) := by
  have before : actor.stage.held = some (held, state) := by
    rw [stage]
    rfl
  simp only [page] at found
  split at found
  · refine .inl (cursorOf_hold before rfl ?_ found)
    intro cursor
    cases cursor
  · rename_i valid
    split at found
    · split at found
      · refine .inl (cursorOf_hold before rfl ?_ found)
        intro cursor
        cases cursor
      · refine .inl (cursorOf_hold before rfl ?_ found)
        exact fun cursor => cursor
    · rename_i last ends
      -- Whichever way the poll goes on, its cursor is the last change of the page.
      have moved : ∀ effects stage next, stage.held = some (held, next) →
          next.lastSeen = some last.id → (actor.goTo effects stage).cursorOf store = some id →
          actor.cursorOf store = some id ∨ (held = store ∧
            validateChanges store state.lastSeen items = true ∧
            ∃ last, items.getLast? = some last ∧ id = last.id) := by
        intro effects stage next after cursor shown
        rw [cursorOf_held (show (actor.goTo effects stage).stage.held = _ from after)] at shown
        split at shown
        · rename_i same
          rw [cursor] at shown
          cases shown
          exact .inr ⟨same, same ▸ by simpa using valid, last, ends, rfl⟩
        · rename_i different
          refine .inl ?_
          rw [cursorOf_held before, if_neg different]
          exact shown
      split at found
      · exact moved _ _ _ rfl rfl found
      · split at found
        · exact moved _ _ _ rfl rfl found
        · exact moved _ _ _ rfl rfl found

theorem Actor.cursorOf_receive (idle : actor.stage = .idle) (now : Nat) (command : Command)
    (found : (actor.receive config now command).cursorOf store = some id) :
    actor.cursorOf store = some id := by
  have free : actor.stage.held = none := by
    rw [idle]
    rfl
  cases command with
  | track other =>
    simp only [receive, track] at found
    split at found
    · exact (cursorOf_rest free rfl).symm.trans found
    · split at found
      · exact (cursorOf_rest free rfl).symm.trans found
      · rw [cursorOf_free free]
        simp only [cursorOf, stateOf, free] at found
        by_cases same : store = other
        · subst same
          simp [StoreState.new] at found
        · simpa [same] using found
  | restart =>
    simp only [receive, restartState, cursorOf, stateOf, free] at found
    obtain ⟨state, renewed, cursor⟩ := Option.bind_eq_some_iff.mp found
    obtain ⟨old, -, rfl⟩ := Option.map_eq_some_iff.mp renewed
    cases cursor
  | stop => exact (cursorOf_rest free rfl).symm.trans found

theorem Actor.cursorOf_takeDue (polling : actor.stage = .polling due) (now : Nat)
    (found : (actor.takeDue config now due).cursorOf store = some id) :
    actor.cursorOf store = some id := by
  have free : actor.stage.held = none := by
    rw [polling]
    rfl
  cases due with
  | nil => exact (cursorOf_rest free rfl).symm.trans found
  | cons other due =>
    simp only [takeDue] at found
    split at found
    · exact (cursorOf_rest free rfl).symm.trans found
    · rename_i state taken
      rw [cursorOf_free free]
      simp only [cursorOf, stateOf, ActorStage.held] at found
      split at found
      · rename_i same
        subst same
        rw [taken]
        exact found
      · rename_i different
        simpa [Ne.symm different] using found

/-- The cursor of a store moves only to the last change of a page read for it. -/
theorem ActorCode.cursor {move : ActorMove} {t : Shared} {after : Actor}
    (code : ActorCode config s actor move t after) (sound : actor.Sound config s)
    (found : after.cursorOf store = some id) :
    actor.cursorOf store = some id ∨
    ∃ items continuation percent state pages changed due invoked last,
      move = .page items continuation percent ∧
      actor.stage = .awaiting store state pages changed due invoked ∧
      validateChanges store state.lastSeen items = true ∧
      items.getLast? = some last ∧ id = last.id := by
  cases code with
  | receive idle => exact .inl (cursorOf_receive idle s.clock _ found)
  | poll idle | stop idle =>
    exact .inl ((cursorOf_rest (by rw [idle]; rfl) rfl).symm.trans found)
  | takeDue polling => exact .inl (cursorOf_takeDue polling s.clock found)
  | read stage | grant stage | requeue stage | backOff stage =>
    refine .inl (cursorOf_hold (by rw [stage]; rfl) rfl ?_ found)
    exact fun cursor => cursor
  | @putBack held state _ stage =>
    rw [cursorOf_held (show actor.stage.held = some (held, state) by rw [stage]; rfl)]
    simp only [cursorOf, stateOf, ActorStage.held, Actor.putBack] at found
    left
    split
    · rename_i same
      subst same
      simpa using found
    · rename_i different
      rwa [Function.update_of_ne (Ne.symm different)] at found
  | page stage =>
    obtain kept | ⟨rfl, valid, last, ends, same⟩ := cursorOf_page stage found
    · exact .inl kept
    · exact .inr ⟨_, _, _, _, _, _, _, _, last, rfl, stage, valid, ends, same⟩
  | readFailed stage =>
    refine .inl (cursorOf_hold (by rw [stage]; rfl) rfl ?_ found)
    intro cursor
    cases cursor
  | @abort held state _ _ _ _ stage =>
    have holds : actor.stage.held = some (held, state) := by
      rw [stage]
      rfl
    simp only [cursorOf, stateOf, ActorStage.held, aborted, goTo] at found
    rw [cursorOf_held holds]
    left
    split
    · rename_i same
      subst same
      simp [sound.held held state holds] at found
    · exact found

end Cursor

/-- A page that ends at a change holds all the changes of the store up to it. -/
theorem Faithful.returned {log : List Change} {cursor : Option Nat} {last : Change}
    (faithful : Faithful log store cursor invoked items continuation)
    (ordered : log.Pairwise fun first second => first.store = second.store → first.id < second.id)
    (ends : items.getLast? = some last) (after : change ∈ changesAfter log store cursor)
    (upTo : change.id ≤ last.id) : change ∈ items := by
  obtain ⟨rest, whole⟩ := faithful.1
  have sorted := ordered.filter fun change =>
    decide (change.store = store) && cursor.all fun id => decide (id < change.id)
  change (changesAfter log store cursor).Pairwise _ at sorted
  have lastRead := List.mem_of_getLast? ends
  have read : last ∈ changesAfter log store cursor := faithful.1.subset lastRead
  have same : last.store = change.store :=
    (mem_changesAfter.mp read).2.1.trans (mem_changesAfter.mp after).2.1.symm
  rw [← whole] at sorted after
  obtain inside | beyond := List.mem_append.mp after
  · exact inside
  · have less := (List.pairwise_append.mp sorted).2.2 last lastRead change beyond same
    exact absurd upTo (Nat.not_le.mpr less)

namespace World

variable {w w' : World} {action : Action}

/-- The cursor of the store has moved past a change. -/
def Passed (w : World) (store : StoreId) (change : Change) : Prop :=
  change ∈ w.shared.log ∧ change.store = store ∧
    ∃ id, w.actor.cursorOf store = some id ∧ change.id ≤ id

/-- The changes a step returns to the actor. -/
def Returned (action : Action) (change : Change) : Prop :=
  ∃ items continuation percent, action = .actor (.page items continuation percent) ∧ change ∈ items

/-- A step moves a cursor past a change only by returning the change. -/
theorem Controlled.passed (controlled : w.Controlled config) (met : w.faithfulReads action = true)
    (moved : w.step (some config) action = some w') (passed : w'.Passed store change) :
    w.Passed store change ∨ Returned action change := by
  obtain ⟨present, same, id, cursor, upTo⟩ := passed
  obtain ⟨onward, -⟩ := controlled.step met moved
  have kept : w.actor.cursorOf store = some id → w.Passed store change := by
    intro before
    obtain ⟨state, found, seen⟩ := Option.bind_eq_some_iff.mp before
    obtain ⟨index, found'⟩ := List.mem_iff_getElem?.mp present
    have earlier := (controlled.actor.known found).earlier onward seen found' same upTo
    exact ⟨List.mem_of_getElem? earlier, same, id, before, upTo⟩
  obtain unmoved | ⟨config', move, known, rfl, stepped⟩ := step_actor moved
  · rw [unmoved] at cursor
    exact .inl (kept cursor)
  · cases known
    obtain ⟨effect, effects, -, rfl, -, next⟩ | ⟨-, code⟩ := actorStep_cases stepped
    · rw [next] at cursor
      exact .inl (kept cursor)
    · obtain before | ⟨items, continuation, percent, state, pages, changed, due, invoked, last,
        page, stage, valid, ends, marked⟩ := code.cursor controlled.actor cursor
      · exact .inl (kept before)
      · subst page marked
        obtain ⟨channel, shared⟩ := code.shared
        have inLog : change ∈ w.shared.log := by
          rw [shared] at present
          exact present
        by_cases old : ∃ id, state.lastSeen = some id ∧ change.id ≤ id
        · obtain ⟨id, seen, upTo⟩ := old
          have before : w.actor.cursorOf store = some id := by
            rw [cursorOf_held (show w.actor.stage.held = some (store, state) by
              rw [stage]; rfl), if_pos rfl]
            exact seen
          exact .inl ⟨inLog, same, id, before, upTo⟩
        · have after : change ∈ changesAfter w.shared.log store state.lastSeen := by
            refine mem_changesAfter.mpr ⟨inLog, same, ?_⟩
            intro id seen
            by_contra behind
            exact old ⟨id, seen, Nat.le_of_not_lt behind⟩
          have faithful := faithful_page met stage valid
          exact .inr ⟨items, continuation, percent, rfl,
            faithful.returned controlled.logged.ordered ends after upTo⟩

end World

end OpenFga.Cache
