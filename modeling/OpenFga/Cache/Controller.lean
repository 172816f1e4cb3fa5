import OpenFga.Lib.Machine
import OpenFga.Cache.Moves

/-!
# What the controller has seen

The changelog only grows, and the actor's cursor for a store marks how far it has read.
The invariant connects the cursor with the advances of the watermark: changes up to the
cursor have been followed by one, except between the page that moved the cursor and the
flush at the end of the poll. A store is granted after such a flush, so that everything
committed before the last read of the poll is behind an advance.
-/

namespace OpenFga.Cache

open Machine Shared List Function Actor

variable {store : StoreId} {state : StoreState} {config : ControllerConfig} {actor : Actor}
  {stage : ActorStage} {effects : List Effect} {invoked : Nat} {ids : List Nat} {change : Change}
  {items log : List Change} {continuation changed : Bool} {percent pages : Nat}

namespace Shared

variable {s t : Shared} {sources : Sources}

/-- The changelog of a well-formed state: the identifiers of a store increase, no
change is in the future, and the last advance happened on a part of the changelog. -/
structure Logged (s : Shared) : Prop where
  flushed_le : s.flushed ≤ s.log.length
  ordered : s.log.Pairwise fun first second => first.store = second.store → first.id < second.id
  past : ∀ change ∈ s.log, change.time ≤ s.clock

/-- Time and the changelog go on. -/
structure Onward (s t : Shared) : Prop where
  clock : s.clock ≤ t.clock
  flushed : s.flushed ≤ t.flushed
  log : ∃ added, t.log = s.log ++ added ∧ ∀ change ∈ added, s.clock ≤ change.time ∧
    ∀ old ∈ s.log, old.store = change.store → old.id < change.id

theorem Onward.same (clock : s.clock ≤ t.clock) (flushed : s.flushed ≤ t.flushed)
    (log : t.log = s.log) : s.Onward t :=
  ⟨clock, flushed, [], by simp [log], by simp⟩

theorem continues_spec (continues : s.continues store ids = true) :
    ids.Pairwise (· < ·) ∧ ∀ id ∈ ids, ∀ old ∈ s.log, old.store = store → old.id < id := by
  simpa [Shared.continues, imp_iff_not_or] using continues

theorem Logged.commit (logged : s.Logged) (continues : s.continues store ids = true) :
    s.Onward (s.commit store ids) ∧ (s.commit store ids).Logged := by
  obtain ⟨increasing, above⟩ := continues_spec continues
  constructor
  · refine ⟨le_rfl, le_rfl, _, rfl, ?_⟩
    intro change added
    obtain ⟨id, listed, rfl⟩ := mem_map.mp added
    exact ⟨le_rfl, fun old earlier => above id listed old earlier⟩
  · refine ⟨?_, ?_, ?_⟩
    · exact logged.flushed_le.trans (by simp [Shared.commit])
    · refine pairwise_append.mpr ⟨logged.ordered, ?_, ?_⟩
      · simpa [pairwise_map] using increasing
      · intro old earlier change added same
        obtain ⟨id, listed, rfl⟩ := mem_map.mp added
        exact above id listed old earlier same
    · intro change present
      obtain earlier | added := mem_append.mp present
      · exact logged.past change earlier
      · obtain ⟨id, -, rfl⟩ := mem_map.mp added
        exact le_rfl

theorem Logged.move (logged : s.Logged) (move : Move s sources t) : s.Onward t ∧ t.Logged := by
  cases move with
  | control control =>
    cases control with
    | frame => exact ⟨.same le_rfl le_rfl rfl, logged.flushed_le, logged.ordered, logged.past⟩
    | advance => exact ⟨.same le_rfl logged.flushed_le rfl, le_rfl, logged.ordered, logged.past⟩
  | tick elapsed =>
    refine ⟨.same (Nat.le_add_right _ _) le_rfl rfl, logged.flushed_le, logged.ordered, ?_⟩
    intro change present
    exact (logged.past change present).trans (Nat.le_add_right _ _)
  | commit store ids continues => exact logged.commit continues
  | evict | cache | acknowledge =>
    exact ⟨.same le_rfl le_rfl rfl, logged.flushed_le, logged.ordered, logged.past⟩

/-- Every change of the store that a condition picks out has been followed by an
advance of the watermark. -/
def Covers (s : Shared) (store : StoreId) (which : Nat → Change → Prop) : Prop :=
  ∀ index change, s.log[index]? = some change → change.store = store → which index change →
    index < s.flushed

theorem advance_covers (store : StoreId) (which : Nat → Change → Prop) :
    s.advance.Covers store which := by
  intro index change found _ _
  exact (List.getElem?_eq_some_iff.mp found).1

/-- What was covered stays covered, if the condition picks out none of the new changes. -/
theorem Covers.onward {which : Nat → Change → Prop} (covers : s.Covers store which)
    (onward : s.Onward t)
    (old : ∀ index change, t.log[index]? = some change → change.store = store →
      which index change → index < s.log.length) : t.Covers store which := by
  obtain ⟨added, log, -⟩ := onward.log
  intro index change found same picked
  have earlier : s.log[index]? = some change := by
    have inside := old index change found same picked
    rwa [log, getElem?_append_left inside] at found
  exact (covers index change earlier same picked).trans_le onward.flushed

end Shared

section States

variable (s : Shared) (store : StoreId) (state : StoreState)

/-- The cursor stands at a change of the changelog. -/
structure Known : Prop where
  cursor : ∀ id, state.lastSeen = some id → ∃ change ∈ s.log, change.store = store ∧ change.id = id
  seen_le : state.seen ≤ s.log.length

/-- The changes up to the cursor are behind an advance. -/
def CursorCovered : Prop :=
  s.Covers store fun _ change => ∃ id, state.lastSeen = some id ∧ change.id ≤ id

/-- The changes committed before the last read of the last caught-up poll are behind
an advance. -/
def SeenCovered : Prop :=
  s.Covers store fun index _ => index < state.seen

/-- What the actor knows of a store is right. -/
structure StoreState.Sound : Prop where
  known : Known s store state
  cursor : CursorCovered s store state
  seen : state.initialized = true → SeenCovered s store state

end States

section Stable

variable {s t : Shared}

theorem Known.onward (known : Known s store state) (onward : s.Onward t) : Known t store state := by
  obtain ⟨added, log, -⟩ := onward.log
  refine ⟨?_, ?_⟩
  · intro id cursor
    obtain ⟨change, present, same⟩ := known.cursor id cursor
    exact ⟨change, log ▸ mem_append_left added present, same⟩
  · rw [log, length_append]
    exact known.seen_le.trans (Nat.le_add_right _ _)

/-- A change committed later comes after the cursor. -/
theorem Known.earlier (known : Known s store state) (onward : s.Onward t) {index id : Nat}
    (cursor : state.lastSeen = some id) (found : t.log[index]? = some change)
    (same : change.store = store) (passed : change.id ≤ id) : s.log[index]? = some change := by
  obtain ⟨added, log, appended⟩ := onward.log
  rw [log] at found
  by_cases inside : index < s.log.length
  · rwa [getElem?_append_left inside] at found
  · rw [getElem?_append_right (Nat.le_of_not_lt inside)] at found
    obtain ⟨marker, present, here, rfl⟩ := known.cursor id cursor
    have later := (appended change (mem_of_getElem? found)).2 marker present (here.trans same.symm)
    exact absurd passed (Nat.not_le.mpr later)

theorem CursorCovered.onward (covered : CursorCovered s store state) (known : Known s store state)
    (onward : s.Onward t) : CursorCovered t store state := by
  apply Covers.onward covered onward
  intro index change found same picked
  obtain ⟨id, cursor, passed⟩ := picked
  exact (List.getElem?_eq_some_iff.mp (known.earlier onward cursor found same passed)).1

theorem SeenCovered.onward (covered : SeenCovered s store state) (known : Known s store state)
    (onward : s.Onward t) : SeenCovered t store state := by
  apply Covers.onward covered onward
  intro index change _ _ seen
  exact seen.trans_le known.seen_le

theorem StoreState.Sound.onward (sound : state.Sound s store) (onward : s.Onward t) :
    state.Sound t store :=
  ⟨sound.known.onward onward, sound.cursor.onward sound.known onward,
    fun initialized => (sound.seen initialized).onward sound.known onward⟩

theorem StoreState.new_sound (config : ControllerConfig) (now : Nat) :
    (StoreState.new config now).Sound s store where
  known := ⟨fun _ cursor => (nomatch cursor), Nat.zero_le _⟩
  cursor := fun _ _ _ _ picked => nomatch picked.choose_spec.1
  seen := fun initialized => nomatch initialized

end Stable

/-- The store that a poll has taken out of the table, and its state. -/
def ActorStage.held : ActorStage → Option (StoreId × StoreState)
  | .reading store state _ _ _ | .awaiting store state _ _ _ _ | .succeeded store state _
  | .backlogged store state _ | .failed store state _ _ | .storing store state _ =>
      some (store, state)
  | .idle | .polling _ | .stopped => none

/-- The state of a store, wherever the actor keeps it. -/
def Actor.stateOf (actor : Actor) (store : StoreId) : Option StoreState :=
  match actor.stage.held with
  | some (held, state) => if held = store then some state else actor.stores store
  | none => actor.stores store

/-- What holds of the polled store. Where the flush at the end of the poll may be
outstanding, `owed` says that it is. -/
def ActorStage.Sound (s : Shared) (owed : Prop) : ActorStage → Prop
  | .idle | .polling _ | .stopped => True
  | .reading store state _ changed _ =>
      Known s store state ∧ (changed = false → CursorCovered s store state) ∧
        (state.initialized = true → SeenCovered s store state)
  | .awaiting store state _ changed _ invoked =>
      invoked ≤ s.log.length ∧ Known s store state ∧
        (changed = false → CursorCovered s store state) ∧
        (state.initialized = true → SeenCovered s store state)
  | .succeeded store state _ =>
      Known s store state ∧ (owed ∨ CursorCovered s store state ∧ SeenCovered s store state)
  | .backlogged store state _ =>
      Known s store state ∧ state.initialized = false ∧ (owed ∨ CursorCovered s store state)
  | .failed store state _ _ =>
      Known s store state ∧ state.lastSeen = none ∧ state.initialized = false
  | .storing store state _ => state.Sound s store

structure Actor.Sound (config : ControllerConfig) (s : Shared) (actor : Actor) : Prop where
  stores : ∀ store state, actor.stores store = some state → state.Sound s store
  stage : actor.stage.Sound s (Effect.flush ∈ actor.effects)
  held : ∀ store state, actor.stage.held = some (store, state) → actor.stores store = none
  grants : ∀ store deadline, Effect.register store (.activeUntil deadline) ∈ actor.effects →
    ∃ state, actor.stateOf store = some state ∧ state.initialized = true ∧
      deadline = state.lastSuccess + config.maximumLag ∧ state.Sound s store

section Onward

variable {s t : Shared} {owed owed' : Prop}

theorem ActorStage.Sound.onward (sound : stage.Sound s owed) (onward : s.Onward t) :
    stage.Sound t owed := by
  have longer : s.log.length ≤ t.log.length := by
    obtain ⟨added, log, -⟩ := onward.log
    simp [log]
  cases stage with
  | idle | polling | stopped => trivial
  | reading store state pages changed due =>
    obtain ⟨known, cursor, seen⟩ := sound
    exact ⟨known.onward onward, fun clean => (cursor clean).onward known onward,
      fun initialized => (seen initialized).onward known onward⟩
  | awaiting store state pages changed due invoked =>
    obtain ⟨before, known, cursor, seen⟩ := sound
    exact ⟨before.trans longer, known.onward onward,
      fun clean => (cursor clean).onward known onward,
      fun initialized => (seen initialized).onward known onward⟩
  | succeeded store state due =>
    obtain ⟨known, owing⟩ := sound
    exact ⟨known.onward onward, owing.imp_right fun covered =>
      ⟨covered.1.onward known onward, covered.2.onward known onward⟩⟩
  | backlogged store state due =>
    obtain ⟨known, lapsed, owing⟩ := sound
    exact ⟨known.onward onward, lapsed, owing.imp_right fun covered => covered.onward known onward⟩
  | failed store state due percent => exact ⟨sound.1.onward onward, sound.2⟩
  | storing store state due => exact StoreState.Sound.onward sound onward

theorem ActorStage.Sound.mono (sound : stage.Sound s owed) (weaker : owed → owed') :
    stage.Sound s owed' := by
  cases stage with
  | succeeded store state due => exact ⟨sound.1, sound.2.imp_left weaker⟩
  | backlogged store state due => exact ⟨sound.1, sound.2.1, sound.2.2.imp_left weaker⟩
  | _ => exact sound

/-- Once the watermark is advanced, no flush is owed. -/
theorem ActorStage.Sound.settle (sound : stage.Sound s.advance owed) :
    stage.Sound s.advance False := by
  cases stage with
  | succeeded store state due =>
    exact ⟨sound.1, .inr ⟨advance_covers store _, advance_covers store _⟩⟩
  | backlogged store state due => exact ⟨sound.1, sound.2.1, .inr (advance_covers store _)⟩
  | _ => exact sound

theorem Actor.Sound.onward (sound : actor.Sound config s) (onward : s.Onward t) :
    actor.Sound config t := by
  refine ⟨?_, sound.stage.onward onward, sound.held, ?_⟩
  · intro store state found
    exact (sound.stores store state found).onward onward
  · intro store deadline outstanding
    obtain ⟨state, found, initialized, granted, sound⟩ := sound.grants store deadline outstanding
    exact ⟨state, found, initialized, granted, sound.onward onward⟩

theorem Actor.Sound.perform (sound : actor.Sound config s) (logged : s.Logged) {effect : Effect}
    (outstanding : actor.effects = effect :: effects) :
    Actor.Sound config (perform config actor s effect) { actor with effects } := by
  have control := perform_control config s actor effect
  have move : Move s ⟨fun _ => False, _, fun _ _ => False, fun _ => False⟩ _ := .control control
  obtain ⟨onward, -⟩ := logged.move move
  have kept := sound.onward onward
  refine ⟨kept.stores, ?_, kept.held, ?_⟩
  · have stage := kept.stage
    rw [outstanding] at stage
    by_cases flushing : effect = .flush
    · subst flushing
      exact stage.settle.mono False.elim
    · apply stage.mono
      intro owed
      exact (mem_cons.mp owed).resolve_left fun same => flushing same.symm
  · intro store deadline remaining
    exact kept.grants store deadline (outstanding ▸ mem_cons_of_mem effect remaining)

end Onward

/-- The changes of a store after a cursor, in the order of the changelog. -/
def changesAfter (log : List Change) (store : StoreId) (cursor : Option Nat) : List Change :=
  log.filter fun change =>
    decide (change.store = store) && cursor.all fun id => decide (id < change.id)

/-- A page holds the next changes after the cursor. If nothing follows it, it holds all
those that were committed when the read was invoked. -/
def Faithful (log : List Change) (store : StoreId) (cursor : Option Nat) (invoked : Nat)
    (items : List Change) (continuation : Bool) : Prop :=
  items <+: changesAfter log store cursor ∧ (continuation = false →
    ∀ change ∈ changesAfter (log.take invoked) store cursor, change ∈ items)

instance (log : List Change) (store : StoreId) (cursor : Option Nat) (invoked : Nat)
    (items : List Change) (continuation : Bool) :
    Decidable (Faithful log store cursor invoked items continuation) :=
  inferInstanceAs (Decidable (_ ∧ _))

/-- The assumption on the storage: a page that is not malformed is faithful. -/
def World.faithfulReads (w : World) (action : Action) : Bool :=
  match action, w.actor.stage with
  | .actor (.page items continuation _), .awaiting store state _ _ _ invoked =>
      !validateChanges store state.lastSeen items ||
        decide (Faithful w.shared.log store state.lastSeen invoked items continuation)
  | _, _ => true

theorem World.faithful_page {w : World} {state : StoreState} {due : List StoreId}
    (met : w.faithfulReads (.actor (.page items continuation percent)) = true)
    (stage : w.actor.stage = .awaiting store state pages changed due invoked)
    (valid : validateChanges store state.lastSeen items = true) :
    Faithful w.shared.log store state.lastSeen invoked items continuation := by
  simp only [World.faithfulReads, stage, valid, Bool.not_true, Bool.false_or] at met
  exact of_decide_eq_true met

theorem mem_changesAfter {cursor : Option Nat} : change ∈ changesAfter log store cursor ↔
      change ∈ log ∧ change.store = store ∧ ∀ id, cursor = some id → id < change.id := by
  cases cursor <;> simp [changesAfter]

section Code

variable {s : Shared} {due : List StoreId}

theorem ActorStage.sound_of_free {owed : Prop} (free : stage.held = none) : stage.Sound s owed := by
  cases stage with
  | idle | polling | stopped => trivial
  | _ => cases free

/-- Goes on at a stage that holds no store and grants nothing. -/
theorem Actor.Sound.rest (sound : actor.Sound config s) (free : stage.held = none)
    (ungranted : ∀ store deadline, Effect.register store (.activeUntil deadline) ∉ effects) :
    (actor.goTo effects stage).Sound config s where
  stores := sound.stores
  stage := ActorStage.sound_of_free free
  held := fun store state found => by
    rw [goTo, free] at found
    cases found
  grants := fun store deadline outstanding => absurd outstanding (ungranted store deadline)

/-- Goes on with the poll of a store that is out of the table. -/
theorem Actor.Sound.hold (sound : actor.Sound config s) (holds : stage.held = some (store, state))
    (absent : actor.stores store = none) (kept : stage.Sound s (Effect.flush ∈ effects))
    (ungranted : ∀ store deadline, Effect.register store (.activeUntil deadline) ∉ effects) :
    (actor.goTo effects stage).Sound config s where
  stores := sound.stores
  stage := kept
  held := fun other found same => by
    rw [goTo, holds] at same
    cases same
    exact absent
  grants := fun store deadline outstanding => absurd outstanding (ungranted store deadline)

theorem Actor.Sound.track (sound : actor.Sound config s) (idle : actor.stage = .idle) (now : Nat)
    (store : StoreId) : (actor.track config now store).Sound config s := by
  simp only [Actor.track]
  split
  · rename_i state found
    refine ⟨sound.stores, trivial, fun _ _ held => (nomatch held), ?_⟩
    intro other deadline outstanding
    -- Only a fresh store is granted at once, until the deadline of its last poll.
    by_cases fresh : state.fresh config now = true
    · simp only [fresh, if_true, goTo, mem_cons, Effect.register.injEq,
        RegistrationState.activeUntil.injEq, reduceCtorEq, not_mem_nil, or_false] at outstanding
      obtain ⟨rfl, rfl⟩ := outstanding
      have initialized : state.initialized = true := by
        simp only [StoreState.fresh, Bool.and_eq_true] at fresh
        exact fresh.1
      exact ⟨state, found, initialized, rfl, sound.stores _ state found⟩
    · simp [fresh, goTo] at outstanding
  · split
    · apply sound.rest rfl
      simp
    · refine ⟨?_, ?_, ?_, ?_⟩
      · intro other state found
        by_cases same : other = store
        · subst same
          simp only [update_self, Option.some.injEq] at found
          rw [← found]
          exact StoreState.new_sound config now
        · simp only [update_of_ne same] at found
          exact sound.stores other state found
      · rw [idle]
        trivial
      · intro other state held
        rw [idle] at held
        cases held
      · simp

theorem Actor.restartState_sound (idle : actor.stage = .idle) (now : Nat) :
    (actor.restartState config now).Sound config s := by
  refine ⟨?_, ?_, ?_, ?_⟩
  · intro store state found
    obtain ⟨old, -, rfl⟩ := Option.map_eq_some_iff.mp found
    exact StoreState.new_sound config now
  · rw [restartState, idle]
    trivial
  · intro store state held
    rw [restartState, idle] at held
    cases held
  · simp [restartState]

section

variable (sound : actor.Sound config s)

include sound

theorem Actor.Sound.takeDue (now : Nat) (due : List StoreId) :
    (actor.takeDue config now due).Sound config s := by
  cases due with
  | nil =>
    apply sound.rest rfl
    simp
  | cons store due =>
    simp only [Actor.takeDue]
    split
    · apply sound.rest rfl
      simp
    · rename_i state found
      have taken := sound.stores store state found
      refine ⟨?_, ⟨taken.known, fun _ => taken.cursor, taken.seen⟩, ?_, ?_⟩
      · intro other state found
        by_cases same : other = store
        · subst same
          simp at found
        · simp only [update_of_ne same] at found
          exact sound.stores other state found
      · intro other state held
        cases held
        simp
      · intro other deadline outstanding
        split at outstanding
        · simp at outstanding
        · simp at outstanding

theorem Actor.Sound.pollFailed (absent : actor.stores store = none)
    (seen : state.seen ≤ s.log.length) (percent : Nat) :
    (actor.pollFailed store state due percent).Sound config s := by
  apply sound.hold rfl absent
  · exact ⟨⟨fun _ cursor => (nomatch cursor), seen⟩, rfl, rfl⟩
  · simp

theorem Actor.Sound.grant (absent : actor.stores store = none) (known : Known s store state)
    (cursor : CursorCovered s store state) (seen : SeenCovered s store state) (now : Nat) :
    (actor.grant config now store state due).Sound config s := by
  have granted : StoreState.Sound s store
      { state with
        lastSuccess := now
        nextPoll := now + config.pollInterval
        backoff := config.pollInterval
        initialized := true } :=
    ⟨⟨known.cursor, known.seen_le⟩, cursor, fun _ => seen⟩
  refine ⟨sound.stores, granted, ?_, ?_⟩
  · intro other found same
    cases same
    exact absent
  · intro other deadline outstanding
    simp only [Actor.grant, Actor.goTo, mem_cons, Effect.register.injEq,
      RegistrationState.activeUntil.injEq, not_mem_nil, or_false] at outstanding
    obtain ⟨rfl, rfl⟩ := outstanding
    refine ⟨_, ?_, rfl, rfl, granted⟩
    simp [grant, goTo, stateOf, ActorStage.held]

theorem Actor.Sound.putBack (clear : actor.effects = []) (kept : state.Sound s store) :
    (actor.putBack store state due).Sound config s := by
  refine ⟨?_, trivial, fun _ _ held => (nomatch held), ?_⟩
  · intro other found same
    by_cases this : other = store
    · subst this
      simp only [putBack, update_self, Option.some.injEq] at same
      rw [← same]
      exact kept
    · simp only [Actor.putBack, update_of_ne this] at same
      exact sound.stores other found same
  · intro other deadline outstanding
    simp only [Actor.putBack, clear] at outstanding
    cases outstanding

end

/-- A page that is empty and final shows that nothing was committed after the cursor. -/
theorem Faithful.covers_seen (faithful : Faithful s.log store state.lastSeen invoked [] false)
    (cursor : CursorCovered s store state) : s.Covers store fun index _ => index < invoked := by
  intro index change found same before
  apply cursor index change found same
  by_contra beyond
  have early : change ∈ s.log.take invoked := by
    apply mem_of_getElem?
    rw [getElem?_take_of_lt before]
    exact found
  have after : change ∈ changesAfter (s.log.take invoked) store state.lastSeen := by
    refine mem_changesAfter.mpr ⟨early, same, ?_⟩
    intro id known
    by_contra passed
    exact beyond ⟨id, known, Nat.le_of_not_lt passed⟩
  exact not_mem_nil (faithful.2 rfl change after)

theorem Actor.Sound.page (sound : actor.Sound config s)
    (stage : actor.stage = .awaiting store state pages changed due invoked)
    (faithful : validateChanges store state.lastSeen items = true →
      Faithful s.log store state.lastSeen invoked items continuation) :
    (actor.page store state due pages changed invoked items continuation percent).Sound
      config s := by
  have held := sound.stage
  rw [stage] at held
  obtain ⟨before, known, cursor, seen⟩ := held
  have absent : actor.stores store = none := sound.held store state (by rw [stage]; rfl)
  simp only [Actor.page]
  split
  · exact sound.pollFailed absent known.seen_le percent
  · rename_i valid
    have faithful := faithful (by simpa using valid)
    split
    · rename_i empty
      have none : items = [] := getLast?_eq_none_iff.mp empty
      subst none
      split
      · exact sound.pollFailed absent known.seen_le percent
      · rename_i final
        apply sound.hold rfl absent
        · refine ⟨⟨known.cursor, before⟩, ?_⟩
          cases changed with
          | true => exact .inl (by simp)
          | false =>
            have final : continuation = false := by simpa using final
            subst final
            exact .inr ⟨cursor rfl, faithful.covers_seen (cursor rfl)⟩
        · split <;> simp
    · rename_i last found
      have read : last ∈ changesAfter s.log store state.lastSeen :=
        faithful.1.subset (mem_of_getLast? found)
      obtain ⟨present, same, -⟩ := mem_changesAfter.mp read
      have marked : ∀ id, some last.id = some id → ∃ change ∈ s.log,
          change.store = store ∧ change.id = id := by
        intro id cursor
        cases cursor
        exact ⟨last, present, same, rfl⟩
      split
      · apply sound.hold rfl absent
        · exact ⟨⟨marked, before⟩, .inl (by simp)⟩
        · simp
      · split
        · apply sound.hold rfl absent
          · exact ⟨⟨marked, known.seen_le⟩, rfl, .inl (by simp)⟩
          · simp
        · apply sound.hold rfl absent
          · exact ⟨⟨marked, known.seen_le⟩, fun clean => (by cases clean), seen⟩
          · simp

theorem ActorCode.sound {next : Actor} {move : ActorMove} {t : Shared}
    (code : ActorCode config s actor move t next) (sound : actor.Sound config s)
    (clear : actor.effects = [])
    (faithful : ∀ items continuation percent store state pages changed due invoked,
      move = .page items continuation percent →
      actor.stage = .awaiting store state pages changed due invoked →
      validateChanges store state.lastSeen items = true →
      Faithful s.log store state.lastSeen invoked items continuation) : next.Sound config s := by
  have unowed : ¬ Effect.flush ∈ actor.effects := by simp [clear]
  have held := sound.stage
  have absent (store : StoreId) (state : StoreState) := sound.held store state
  cases code with
  | @receive command channel idle waiting =>
    cases command with
    | track store => exact sound.track idle s.clock store
    | restart => exact restartState_sound idle s.clock
    | stop =>
      apply sound.rest rfl
      simp [runningGuard]
  | poll =>
    apply sound.rest rfl
    simp
  | takeDue => exact sound.takeDue s.clock _
  | read stage =>
    rw [stage] at held absent
    exact sound.hold rfl (absent _ _ rfl) ⟨le_rfl, held⟩ (by simp)
  | grant stage =>
    rw [stage] at held absent
    obtain ⟨cursor, seen⟩ := held.2.resolve_left unowed
    exact sound.grant (absent _ _ rfl) held.1 cursor seen s.clock
  | requeue stage =>
    rw [stage] at held absent
    obtain ⟨known, lapsed, owing⟩ := held
    apply sound.hold rfl (absent _ _ rfl)
    · exact ⟨⟨known.cursor, known.seen_le⟩, owing.resolve_left unowed,
        fun initialized => absurd (lapsed.symm.trans initialized) Bool.false_ne_true⟩
    · simp
  | backOff stage =>
    rw [stage] at held absent
    obtain ⟨known, reset, lapsed⟩ := held
    apply sound.hold rfl (absent _ _ rfl)
    · refine ⟨⟨known.cursor, known.seen_le⟩, ?_,
        fun initialized => absurd (lapsed.symm.trans initialized) Bool.false_ne_true⟩
      intro index change _ _ picked
      obtain ⟨id, cursor, -⟩ := picked
      exact absurd (reset.symm.trans cursor) (Option.some_ne_none id).symm
    · simp
  | putBack stage =>
    rw [stage] at held
    exact sound.putBack clear held
  | page stage => exact sound.page stage (faithful _ _ _ _ _ _ _ _ _ rfl stage)
  | readFailed stage =>
    rw [stage] at held absent
    exact sound.pollFailed (absent _ _ rfl) held.2.1.seen_le _
  | stop | abort =>
    apply sound.rest rfl
    simp [runningGuard]

end Code

namespace World

variable {w w' : World} {action : Action}

/-- The invariant of a process with a controller. -/
structure Controlled (config : ControllerConfig) (w : World) : Prop where
  logged : w.shared.Logged
  actor : w.actor.Sound config w.shared

theorem start_controlled (clock : Nat)
    (ordered : log.Pairwise fun first second => first.store = second.store → first.id < second.id)
    (past : ∀ change ∈ log, change.time ≤ clock) :
    (start (some config) clock log).Controlled config where
  logged := ⟨le_rfl, ordered, past⟩
  actor := ⟨fun _ _ found => (nomatch found), trivial, fun _ _ held => (nomatch held),
    fun _ _ outstanding => (nomatch outstanding)⟩

theorem Controlled.step (controlled : w.Controlled config) (met : w.faithfulReads action = true)
    (moved : w.step (some config) action = some w') :
    w.shared.Onward w'.shared ∧ w'.Controlled config := by
  obtain ⟨onward, logged⟩ := controlled.logged.move (step_move moved)
  refine ⟨onward, logged, ?_⟩
  obtain same | ⟨config', move, known, rfl, stepped⟩ := step_actor moved
  · rw [same]
    exact controlled.actor.onward onward
  · cases known
    obtain ⟨effect, effects, outstanding, rfl, shared, next⟩ | ⟨clear, code⟩ :=
      actorStep_cases stepped
    · rw [shared, next]
      exact controlled.actor.perform controlled.logged outstanding
    · apply Actor.Sound.onward _ onward
      apply code.sound controlled.actor clear
      intro items continuation percent store state pages changed due invoked page stage valid
      subst page
      exact faithful_page met stage valid

theorem reaches_controlled
    (reached : Reaches (step (some config)) (fun w action => w.faithfulReads action = true) w w')
    (controlled : w.Controlled config) : w'.Controlled config :=
  reached.invariant (Controlled config) (fun _ _ _ held met moved => (held.step met moved).2)
    controlled

/-- A grant comes from a poll of the store that has caught up, and everything committed
before the last read of that poll has been followed by an advance. -/
theorem Controlled.granted (controlled : w.Controlled config) (met : w.faithfulReads action = true)
    (moved : w.step (some config) action = some w') {deadline : Nat}
    (active : w'.shared.registrations store = some (.activeUntil deadline))
    (inactive : w.shared.registrations store ≠ some (.activeUntil deadline)) :
    ∃ state, w'.actor.stateOf store = some state ∧ state.initialized = true ∧
      deadline = state.lastSuccess + config.maximumLag ∧ SeenCovered w'.shared store state := by
  obtain ⟨acting, effects, outstanding⟩ :=
    ((step_move moved).registrations active).resolve_left inactive
  obtain ⟨onward, -⟩ := controlled.step met moved
  obtain ⟨state, found, initialized, granted, sound⟩ :=
    controlled.actor.grants store deadline (outstanding ▸ mem_cons_self)
  have kept : w'.actor.stateOf store = some state := by
    obtain same | ⟨config', move, -, -, stepped⟩ := step_actor moved
    · rw [same]
      exact found
    · obtain ⟨effect, rest, -, -, -, next⟩ | ⟨clear, -⟩ := actorStep_cases stepped
      · rw [next]
        exact found
      · rw [clear] at outstanding
        cases outstanding
  exact ⟨state, kept, initialized, granted, (sound.onward onward).seen initialized⟩

end World

end OpenFga.Cache
