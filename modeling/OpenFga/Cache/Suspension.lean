import OpenFga.Cache.Cursor

/-!
# How a store is suspended

A failed poll, a lag that the actor detects, a restart and a registration beyond the
limit of tracked stores all advance the watermark and withdraw the store, and it stays
withdrawn until a poll of it has caught up. A registration that the handle could not
send is different: the watermark is advanced as well, but the actor may still hold the
state of a caught-up poll, and a later registration grants the store from it.
-/

namespace OpenFga.Cache

open Machine List Option Function Actor

variable {state : StoreState} {due : List StoreId} {percent index : Nat} {next : Actor}
  {move : ActorMove} {t : Shared} {controller : Option ControllerConfig} {ids : List Nat}
  {thread : Thread} {stage : TrackStage}

/-- The polled store does not count as caught up where its poll has ended. -/
def ActorStage.Withholds (store : StoreId) : ActorStage → Prop
  | .storing held state _ | .backlogged held state _ | .failed held state _ _ =>
      held = store → state.initialized = false
  | .idle | .polling _ | .stopped | .reading _ _ _ _ _ | .awaiting _ _ _ _ _ _
  | .succeeded _ _ _ => True

/-- Nothing the actor holds can grant the store before another poll of it. -/
structure Actor.Withholds (actor : Actor) (store : StoreId) : Prop where
  effects : ∀ deadline, Effect.register store (.activeUntil deadline) ∉ actor.effects
  stores : ∀ state, actor.stores store = some state → state.initialized = false
  stage : actor.stage.Withholds store

section Code

variable {config : ControllerConfig} {s : Shared} {actor : Actor} {store : StoreId}

section

variable (withholds : actor.Withholds store)

include withholds

theorem Actor.Withholds.goTo {effects : List Effect} {stage : ActorStage}
    (ungranted : ∀ deadline, Effect.register store (.activeUntil deadline) ∉ effects)
    (kept : stage.Withholds store) : (actor.goTo effects stage).Withholds store :=
  ⟨ungranted, withholds.stores, kept⟩

theorem Actor.Withholds.receive (now : Nat) (command : Command) :
    (actor.receive config now command).Withholds store := by
  cases command with
  | track other =>
    simp only [Actor.receive, Actor.track]
    split
    · rename_i state found
      refine withholds.goTo ?_ trivial
      intro deadline outstanding
      by_cases same : store = other
      · subst same
        have lapsed := withholds.stores state found
        simp [StoreState.fresh, lapsed] at outstanding
      · simp [same] at outstanding
    · split
      · refine withholds.goTo ?_ trivial
        simp
      · refine ⟨by simp, ?_, withholds.stage⟩
        intro state found
        by_cases same : store = other
        · subst same
          simp only [update_self, some.injEq] at found
          rw [← found]
          rfl
        · simp only [update_of_ne same] at found
          exact withholds.stores state found
  | restart =>
    refine ⟨by simp [Actor.receive, Actor.restartState], ?_, withholds.stage⟩
    intro state found
    obtain ⟨old, -, rfl⟩ := map_eq_some_iff.mp found
    rfl
  | stop =>
    refine withholds.goTo ?_ trivial
    simp [runningGuard]

theorem Actor.Withholds.takeDue (now : Nat) (due : List StoreId) :
    (actor.takeDue config now due).Withholds store := by
  cases due with
  | nil =>
    refine withholds.goTo ?_ trivial
    simp
  | cons other due =>
    simp only [Actor.takeDue]
    split
    · refine withholds.goTo ?_ trivial
      simp
    · refine ⟨?_, ?_, trivial⟩
      · intro deadline outstanding
        split at outstanding
        · simp at outstanding
        · simp at outstanding
      · intro state found
        by_cases same : store = other
        · subst same
          simp at found
        · simp only [update_of_ne same] at found
          exact withholds.stores state found

theorem Actor.Withholds.page {held : StoreId} {pages invoked : Nat} {changed continuation : Bool}
    {items : List Change} :
    (actor.page held state due pages changed invoked items continuation percent).Withholds
      store := by
  have failing : (actor.pollFailed held state due percent).Withholds store :=
    withholds.goTo (by simp) fun _ => rfl
  have caughtUp : ∀ state changed,
    (actor.pollCaughtUp held state due changed invoked).Withholds store :=
    fun state changed => withholds.goTo (by cases changed <;> simp) trivial
  simp only [Actor.page]
  split
  · exact failing
  · split
    · split
      · exact failing
      · exact caughtUp _ _
    · split
      · exact caughtUp _ _
      · split
        · exact withholds.goTo (by simp) fun _ => rfl
        · exact withholds.goTo (by simp) trivial

/-- Only the end of a caught-up poll of the store changes that it is withheld. -/
theorem Actor.Withholds.goOn (code : ActorCode config s actor move t next)
    (clear : actor.effects = [])
    (unpolled : move = .proceed → ∀ state due, actor.stage ≠ .succeeded store state due) :
    next.Withholds store := by
  have kept := withholds.stage
  cases code with
  | receive => exact withholds.receive s.clock _
  | poll | read => exact withholds.goTo (by simp) trivial
  | takeDue => exact withholds.takeDue _ _
  | @grant held state due stage =>
    have other : held ≠ store := fun same => unpolled rfl state due (same ▸ stage)
    apply withholds.goTo
    · simp [Ne.symm other]
    · exact fun same => absurd same other
  | requeue stage | backOff stage =>
    rw [stage] at kept
    exact withholds.goTo (by simp) kept
  | @putBack held state due stage =>
    rw [stage] at kept
    refine ⟨by simp [Actor.putBack, clear], ?_, trivial⟩
    intro found same
    by_cases this : store = held
    · subst this
      simp only [Actor.putBack, update_self, some.injEq] at same
      rw [← same]
      exact kept rfl
    · simp only [Actor.putBack, update_of_ne this] at same
      exact withholds.stores found same
  | page => exact withholds.page
  | readFailed => exact withholds.goTo (by simp) fun _ => rfl
  | stop | abort => exact withholds.goTo (by simp [runningGuard]) trivial

end

/-- What disrupts the caching of a store on the actor's side: a failed read, a
malformed page, a lag, a restart, and a registration beyond the limit. -/
inductive Disrupts (config : ControllerConfig) (s : Shared) (actor : Actor) (store : StoreId) :
    ActorMove → Prop where
  | failed {state : StoreState} {pages invoked : Nat} {changed : Bool} {due : List StoreId}
      (percent : Nat) (stage : actor.stage = .awaiting store state pages changed due invoked) :
      Disrupts config s actor store (.readFailed percent)
  | malformed {state : StoreState} {pages invoked : Nat} {changed : Bool} {due : List StoreId}
      (items : List Change) (continuation : Bool) (percent : Nat)
      (stage : actor.stage = .awaiting store state pages changed due invoked)
      (wrong : validateChanges store state.lastSeen items = false ∨
        items = [] ∧ continuation = true) :
      Disrupts config s actor store (.page items continuation percent)
  | lagging {state : StoreState} {due : List StoreId} (stage : actor.stage =
      .polling (store :: due)) (found : actor.stores store = some state)
      (late : config.maximumLag < s.clock - state.lastSuccess) :
      Disrupts config s actor store .proceed
  | restarted {channel : List Command} (stage : actor.stage = .idle)
      (waiting : s.channel = .restart :: channel) (tracked : store ∈ actor.tracked) :
      Disrupts config s actor store .receive
  | refused {channel : List Command} (stage : actor.stage = .idle)
      (waiting : s.channel = .track store :: channel) (absent : actor.stores store = none)
      (full : config.channelCapacity ≤ actor.tracked.length) :
      Disrupts config s actor store .receive

/-- The actor holds nothing that grants the store, and has yet to withdraw it and to
advance the watermark. -/
def Actor.Suspends (actor : Actor) (store : StoreId) : Prop :=
  actor.Withholds store ∧ (Effect.register store .pending ∈ actor.effects ∨
    Effect.unregister store ∈ actor.effects) ∧ Effect.flush ∈ actor.effects

theorem Actor.pollFailed_suspends (absent : actor.stores store = none) :
    (actor.pollFailed store state due percent).Suspends store := by
  refine ⟨⟨by simp [pollFailed, goTo], ?_, fun _ => rfl⟩, .inl ?_, ?_⟩
  · intro state found
    rw [pollFailed, goTo, absent] at found
    cases found
  · simp [pollFailed, goTo]
  · simp [pollFailed, goTo]

theorem Disrupts.suspends (sound : actor.Sound config s)
    (disrupts : Disrupts config s actor store move)
    (code : ActorCode config s actor move t next) : next.Suspends store := by
  cases disrupts with
  | @failed state _ _ _ _ percent stage =>
    have absent := sound.held store state (by rw [stage]; rfl)
    cases code with
    | readFailed here =>
      cases stage.symm.trans here
      exact pollFailed_suspends absent
  | @malformed state _ _ _ _ items continuation percent stage wrong =>
    have absent := sound.held store state (by rw [stage]; rfl)
    cases code with
    | page here =>
      cases stage.symm.trans here
      have failing : ∀ pages changed due invoked,
          actor.page store state due pages changed invoked items continuation percent =
            actor.pollFailed store state due percent := by
        intro pages changed due invoked
        obtain invalid | ⟨empty, more⟩ := wrong
        · simp [page, invalid]
        · simp [page, empty, more]
      rw [failing]
      exact pollFailed_suspends absent
  | @lagging state due stage found late =>
    cases code with
    | takeDue here =>
      cases stage.symm.trans here
      simp only [takeDue, found, if_pos late]
      refine ⟨⟨by simp, by simp, trivial⟩, .inl (by simp), by simp⟩
    | read here | grant here | requeue here | backOff here | putBack here =>
      cases stage.symm.trans here
  | restarted stage waiting tracked =>
    cases code with
    | receive _ here =>
      cases waiting.symm.trans here
      refine ⟨⟨by simp [receive, restartState], ?_, ?_⟩, .inl ?_, ?_⟩
      · intro state found
        obtain ⟨old, -, rfl⟩ := map_eq_some_iff.mp found
        rfl
      · rw [receive, restartState, stage]
        trivial
      · simp [receive, restartState, tracked]
      · simp [receive, restartState]
  | refused stage waiting absent full =>
    cases code with
    | receive _ here =>
      cases waiting.symm.trans here
      simp only [receive, track, absent, if_pos full]
      refine ⟨⟨by simp [goTo], ?_, trivial⟩, .inr (by simp [goTo]), by simp [goTo]⟩
      intro state found
      rw [goTo, absent] at found
      cases found

end Code

/-- The store a thread is registering, and where it stands. -/
def Thread.tracking : Thread → Option (StoreId × TrackStage)
  | .request self (.track stage) => some (self.key.store, stage)
  | .write store (.track stage) => some (store, stage)
  | _ => none

/-- The handle could not send the registration and has yet to advance the watermark. -/
def Thread.Refused (thread : Thread) (store : StoreId) : Prop :=
  thread.tracking = some (store, .withdraw) ∨ thread.tracking = some (store, .flush)

theorem Thread.step_tracking {s : Shared} {next : Thread} {store : StoreId}
    (tracking : thread.tracking = some (store, stage))
    (moved : thread.step controller ids s = some (t, next)) :
    ∃ config, t = (trackStep config store s stage).1 ∧
      ∀ rest, (trackStep config store s stage).2 = some rest → next.tracking =
        some (store, rest) := by
  cases thread with
  | request self here =>
    cases here with
    | track here =>
      cases tracking
      obtain ⟨after, went, same⟩ := map_eq_some_iff.mp moved
      obtain ⟨config, -, went⟩ := bind_eq_some_iff.mp went
      cases went
      cases same
      refine ⟨config, rfl, ?_⟩
      intro rest left
      change (Thread.request self
        (.tracked controller (trackStep config self.key.store s stage).2)).tracking = _
      rw [left]
      rfl
    | _ => cases tracking
  | write writing here =>
    cases here with
    | track here =>
      cases tracking
      obtain ⟨after, went, same⟩ := map_eq_some_iff.mp moved
      obtain ⟨config, -, went⟩ := bind_eq_some_iff.mp went
      cases went
      cases same
      refine ⟨config, rfl, ?_⟩
      intro rest left
      change (Thread.write store (.tracked (trackStep config store s stage).2)).tracking = _
      rw [left]
      rfl
    | _ => cases tracking
  | dropped => cases tracking

/-- The registration runs to its end without an await. -/
theorem Thread.not_awaits {store : StoreId} (tracking : thread.tracking = some (store, stage)) :
    thread.awaits = false := by
  cases thread with
  | request _ here | write _ here => cases here <;> first | rfl | cases tracking
  | dropped => rfl

namespace World

variable {config : ControllerConfig} {w w' : World} {action : Action} {store : StoreId}
  {length : Nat}

/-- A refused registration is withdrawn, and then the watermark is advanced. -/
theorem step_refused (moved : w.step controller action = some w')
    (running : w.threads[index]? = some thread) (refused : thread.Refused store) :
    (∃ thread, w'.threads[index]? = some thread ∧ thread.Refused store) ∨
      w'.shared.flushed = w'.shared.log.length := by
  obtain same | ⟨awaiting, -⟩ | ⟨ids, next, stepped, after⟩ := step_thread moved running
  · exact .inl ⟨thread, same, refused⟩
  · obtain here | here := refused
    · rw [Thread.not_awaits here] at awaiting
      cases awaiting
    · rw [Thread.not_awaits here] at awaiting
      cases awaiting
  · obtain here | here := refused
    · obtain ⟨config, -, next⟩ := Thread.step_tracking here stepped
      exact .inl ⟨_, after, .inr (next .flush rfl)⟩
    · obtain ⟨config, shared, -⟩ := Thread.step_tracking here stepped
      rw [shared]
      exact .inr rfl

theorem reaches_refused {meets : World → Action → Prop} (logged : w.shared.Logged)
    (running : w.threads[index]? = some thread) (refused : thread.Refused store)
    (reached : Reaches (step controller) meets w w') :
    (∃ thread, w'.threads[index]? = some thread ∧ thread.Refused store) ∨
      w.shared.log.length ≤ w'.shared.flushed := by
  have held := reached.invariant (fun u => u.shared.Logged ∧
    w.shared.log.length ≤ u.shared.log.length ∧
    ((∃ thread, u.threads[index]? = some thread ∧ thread.Refused store) ∨
      w.shared.log.length ≤ u.shared.flushed)) ?_ ⟨logged, le_rfl, .inl ⟨thread, running, refused⟩⟩
  · exact held.2.2
  · intro t action u held met moved
    obtain ⟨logged, within, state⟩ := held
    obtain ⟨onward, kept⟩ := logged.move (step_move moved)
    obtain ⟨added, log, -⟩ := onward.log
    have within : w.shared.log.length ≤ u.shared.log.length := by
      rw [log, length_append]
      exact within.trans (Nat.le_add_right _ _)
    refine ⟨kept, within, ?_⟩
    obtain ⟨thread, running, refused⟩ | advanced := state
    · obtain still | advanced := step_refused moved running refused
      · exact .inl still
      · exact .inr (within.trans advanced.ge)
    · exact .inr (advanced.trans onward.flushed)

/-- The step does not end a caught-up poll of the store. -/
def Unpolled (store : StoreId) (w : World) (action : Action) : Prop :=
  action = .actor .proceed → ∀ state due, w.actor.stage ≠ .succeeded store state due

/-- The store may be served from caches until some deadline. -/
def Granted (w : World) (store : StoreId) : Prop :=
  ∃ deadline, w.shared.registrations store = some (.activeUntil deadline)

/-- The store is withheld and its registration withdrawn, and the watermark is advanced
on a changelog of some length, as soon as the outstanding effects are performed. -/
structure Suspending (w : World) (store : StoreId) (length : Nat) : Prop where
  logged : w.shared.Logged
  within : length ≤ w.shared.log.length
  withholds : w.actor.Withholds store
  withdrawn : ¬ w.Granted store ∨ Effect.register store .pending ∈ w.actor.effects ∨
    Effect.unregister store ∈ w.actor.effects
  advanced : length ≤ w.shared.flushed ∨ Effect.flush ∈ w.actor.effects

theorem step_withholds (withholds : w.actor.Withholds store) (unpolled : w.Unpolled store action)
    (moved : w.step (some config) action = some w') :
    w'.actor.Withholds store ∧ (w'.Granted store → w.Granted store) := by
  constructor
  · obtain same | ⟨config', move, -, rfl, stepped⟩ := step_actor moved
    · rw [same]
      exact withholds
    · obtain ⟨effect, effects, outstanding, -, -, next⟩ | ⟨clear, code⟩ := actorStep_cases stepped
      · rw [next]
        refine ⟨?_, withholds.stores, withholds.stage⟩
        intro deadline remaining
        exact withholds.effects deadline (outstanding ▸ mem_cons_of_mem effect remaining)
      · apply withholds.goOn code clear
        intro proceeding
        exact unpolled (congrArg Action.actor proceeding)
  · intro granted
    obtain ⟨deadline, active⟩ := granted
    obtain before | ⟨-, effects, outstanding⟩ := (step_move moved).registrations active
    · exact ⟨deadline, before⟩
    · exact absurd (outstanding ▸ mem_cons_self) (withholds.effects deadline)

/-- An effect of the actor is performed or still outstanding after a step. -/
theorem step_effect (moved : w.step (some config) action = some w') {effect : Effect}
    (outstanding : effect ∈ w.actor.effects) :
    effect ∈ w'.actor.effects ∨ w'.shared = perform config w.actor w.shared effect := by
  obtain same | ⟨config', move, known, rfl, stepped⟩ := step_actor moved
  · rw [same]
    exact .inl outstanding
  · cases known
    obtain ⟨first, effects, listed, -, shared, next⟩ | ⟨clear, -⟩ := actorStep_cases stepped
    · rw [listed] at outstanding
      obtain rfl | later := mem_cons.mp outstanding
      · exact .inr shared
      · rw [next]
        exact .inl later
    · rw [clear] at outstanding
      cases outstanding

theorem Suspending.step (suspending : w.Suspending store length)
    (unpolled : w.Unpolled store action)
    (moved : w.step (some config) action = some w') : w'.Suspending store length := by
  obtain ⟨onward, logged⟩ := suspending.logged.move (step_move moved)
  obtain ⟨withholds, kept⟩ := step_withholds suspending.withholds unpolled moved
  have within : length ≤ w'.shared.log.length := by
    obtain ⟨added, log, -⟩ := onward.log
    rw [log, length_append]
    exact suspending.within.trans (Nat.le_add_right _ _)
  refine ⟨logged, within, withholds, ?_, ?_⟩
  · obtain ungranted | pending | removed := suspending.withdrawn
    · exact .inl fun granted => ungranted (kept granted)
    · obtain outstanding | performed := step_effect moved pending
      · exact .inr (.inl outstanding)
      · refine .inl fun granted => ?_
        obtain ⟨deadline, active⟩ := granted
        rw [performed] at active
        simp [perform, Shared.register] at active
    · obtain outstanding | performed := step_effect moved removed
      · exact .inr (.inr outstanding)
      · refine .inl fun granted => ?_
        obtain ⟨deadline, active⟩ := granted
        rw [performed] at active
        simp [perform, Shared.register] at active
  · obtain advanced | owed := suspending.advanced
    · exact .inl (advanced.trans onward.flushed)
    · obtain outstanding | performed := step_effect moved owed
      · exact .inr outstanding
      · rw [performed]
        exact .inl suspending.within

theorem reaches_suspending (reached : Reaches (step (some config)) (Unpolled store) w w')
    (suspending : w.Suspending store length) : w'.Suspending store length :=
  reached.invariant (fun w => w.Suspending store length)
    (fun _ _ _ held met moved => held.step met moved) suspending

/-- The store is out of reach of the caches until a poll of it has caught up. -/
theorem Suspending.until_polled (suspending : w.Suspending store length)
    (clear : w.actor.effects = [])
    (reached : Reaches (World.step (some config)) (Unpolled store) w w') : ¬ w'.Granted store := by
  have ungranted : ¬ w.Granted store := by
    obtain ungranted | pending | removed := suspending.withdrawn
    · exact ungranted
    · rw [clear] at pending
      cases pending
    · rw [clear] at removed
      cases removed
  have held := reached.invariant (fun w => w.actor.Withholds store ∧ ¬ w.Granted store)
    (fun t action u held met moved =>
      have stepped := step_withholds held.1 met moved
      ⟨stepped.1, fun granted => held.2 (stepped.2 granted)⟩)
    ⟨suspending.withholds, ungranted⟩
  exact held.2

/-- A disruption withdraws the store and advances the watermark. -/
theorem Controlled.suspending (controlled : w.Controlled config)
    (disrupts : Disrupts config w.shared w.actor store move)
    (moved : w.step (some config) (.actor move) = some w') :
    w'.Suspending store w.shared.log.length := by
  obtain ⟨onward, logged⟩ := controlled.logged.move (step_move moved)
  have within : w.shared.log.length ≤ w'.shared.log.length := by
    obtain ⟨added, log, -⟩ := onward.log
    rw [log, length_append]
    exact Nat.le_add_right _ _
  have suspends : w'.actor.Suspends store := by
    obtain ⟨⟨s, next⟩, stepped, same⟩ := bind_eq_some_iff.mp moved
    cases same
    obtain ⟨effect, effects, -, rfl, -, -⟩ | ⟨-, code⟩ := actorStep_cases stepped
    · cases disrupts
    · exact disrupts.suspends controlled.actor code
  exact ⟨logged, within, suspends.1, .inr suspends.2.1, .inr suspends.2.2⟩

/-- A request that finds its deadline passed gives up the readiness; if it was ready,
it advances the watermark before it is refused. -/
theorem step_expired {request : Request} {site : PermitSite}
    (moved : w.step controller (.thread index ids) = some w') :
    (w.threads[index]? = some (.request request (.permit site .expired)) →
      w'.threads[index]? = some (.request request
        (if w.shared.ready then .permit site .flush else site.resume false))) ∧
    (w.threads[index]? = some (.request request (.permit site .flush)) →
      w'.threads[index]? = some (.request request (site.resume false)) ∧
        w'.shared.flushed = w'.shared.log.length) := by
  obtain ⟨thread, running, moved⟩ := bind_eq_some_iff.mp moved
  obtain ⟨⟨s, next⟩, stepped, moved⟩ := bind_eq_some_iff.mp moved
  cases moved
  have present : index < w.threads.length := (List.getElem?_eq_some_iff.mp running).1
  refine ⟨fun here => ?_, fun here => ?_⟩
  · rw [running] at here
    cases here
    cases stepped
    rw [getElem?_set_self present]
    simp only
    split <;> rfl
  · rw [running] at here
    cases here
    cases stepped
    rw [getElem?_set_self present]
    exact ⟨rfl, rfl⟩

end World

open World

/-- In every run with a faithful storage: a store is granted only after an advance that
follows everything committed before the last read of the poll that grants it; a cursor
moves past a change only when the change is returned; a disruption on the actor's side
advances the watermark and withdraws the store until a poll of it has caught up; and a
registration that could not be sent is withdrawn and advances the watermark, as does a
request that finds its deadline passed while the caches are ready. -/
theorem controller_keeps_caches_behind_changelog (config : ControllerConfig) (clock : Nat)
    (log : List Change)
    (ordered : log.Pairwise fun first second => first.store = second.store → first.id < second.id)
    (past : ∀ change ∈ log, change.time ≤ clock) (w w' : World) (action : Action)
    (reached : Reaches (step (some config)) (fun w action => w.faithfulReads action = true)
      (.start (some config) clock log) w)
    (met : w.faithfulReads action = true) (moved : w.step (some config) action = some w') :
    (∀ store deadline, w'.shared.registrations store = some (.activeUntil deadline) →
      w.shared.registrations store ≠ some (.activeUntil deadline) →
      ∃ state, w'.actor.stateOf store = some state ∧ state.initialized = true ∧
        deadline = state.lastSuccess + config.maximumLag ∧ SeenCovered w'.shared store state) ∧
    (∀ store change, w'.Passed store change → w.Passed store change ∨ Returned action change) ∧
    (∀ store move, action = .actor move → Disrupts config w.shared w.actor store move →
      ∀ u, Reaches (step (some config)) (Unpolled store) w' u → u.actor.effects = [] →
        w.shared.log.length ≤ u.shared.flushed ∧
        ∀ v, Reaches (step (some config)) (Unpolled store) u v → ¬ v.Granted store) ∧
    (∀ store (index : Nat) (thread : Thread), w.threads[index]? = some thread →
      thread.Refused store → ∀ u, Reaches (step (some config)) (fun _ _ => True) w u →
        (∃ thread : Thread, u.threads[index]? = some thread ∧ thread.Refused store) ∨
          w.shared.log.length ≤ u.shared.flushed) ∧
    (∀ (index : Nat) ids request site, action = .thread index ids →
      (w.threads[index]? = some (.request request (.permit site .expired)) →
        w'.threads[index]? = some (.request request
          (if w.shared.ready then .permit site .flush else site.resume false))) ∧
      (w.threads[index]? = some (.request request (.permit site .flush)) →
        w'.threads[index]? = some (.request request (site.resume false)) ∧
          w'.shared.flushed = w'.shared.log.length)) := by
  have controlled := reaches_controlled reached (start_controlled clock ordered past)
  refine ⟨?_, ?_, ?_, ?_, ?_⟩
  · intro store deadline active inactive
    exact controlled.granted met moved active inactive
  · intro store change passed
    exact controlled.passed met moved passed
  · intro store move acting disrupts u toU clear
    subst acting
    have suspending := reaches_suspending toU (controlled.suspending disrupts moved)
    refine ⟨?_, fun v toV => suspending.until_polled clear toV⟩
    apply suspending.advanced.resolve_right
    rw [clear]
    exact not_mem_nil
  · intro store index thread running refused u toU
    exact reaches_refused controlled.logged running refused toU
  · intro index ids request site stepping
    subst stepping
    exact step_expired moved

namespace Sample

/-- A request registers its store, and the first poll of the store catches up. -/
def registering : List Action :=
  .request decision :: steps 0 4 [] ++ [.actor .receive, .actor .effect, .actor (.poll [store]),
    .actor .proceed, .actor .proceed, .actor (.page [] false 100), .actor .proceed]

def activated : World :=
  final (step (some policy)) faithfulReads (.start (some policy) 0 [])
    (registering ++ [.actor .effect])

/-- The registration is evicted, and another store takes the last place of the channel,
so that the next registration of the store is refused. -/
def overflowing : List Action :=
  [.actor .proceed, .actor .proceed, .actor .effect, .evictRegistration store,
    .request ⟨.decision, ⟨"other"⟩, 0⟩] ++ steps 1 4 [] ++ .request decision :: steps 2 4 []

def unpolledCheck (w : World) (action : Action) : Bool :=
  w.faithfulReads action && match action, w.actor.stage with
    | .actor .proceed, .succeeded held _ _ => decide (held ≠ store)
    | _, _ => true

theorem unpolledCheck_sound (w : World) (action : Action) (passed : unpolledCheck w action = true) :
    w.faithfulReads action = true ∧ w.Unpolled store action := by
  obtain ⟨faithful, unpolled⟩ := Bool.and_eq_true_iff.mp passed
  refine ⟨faithful, ?_⟩
  intro proceeding state due stage
  rw [proceeding, stage] at unpolled
  simp at unpolled

def refused : World :=
  final (step (some policy)) unpolledCheck activated overflowing

/-- The refused thread goes on to its lookup. -/
def overflowed : World :=
  final (step (some policy)) unpolledCheck refused (steps 2 2 [])

/-- The other store is beyond the limit, and a later request registers the store. -/
def regranted : World :=
  final (step (some policy)) unpolledCheck overflowed ([.actor .receive, .actor .effect,
    .actor .effect, .actor .effect, .request decision] ++ steps 3 4 [] ++
      [.actor .receive, .actor .effect])

end Sample

namespace Sample

/-- A change is committed, a request registers the store, and the first poll of the store
returns the change. -/
def catchingUp : List Action :=
  .commit store [7] :: .request decision :: steps 0 4 [] ++ [.actor .receive, .actor .effect,
    .actor (.poll [store]), .actor .proceed, .actor .proceed,
    .actor (.page [⟨store, 7, 0⟩] false 100), .actor .effect, .actor .proceed]

def caughtUp : World :=
  final (step (some policy)) faithfulReads (.start (some policy) 0 []) catchingUp

def granted : World :=
  final (step (some policy)) faithfulReads (.start (some policy) 0 [])
    (catchingUp ++ [.actor .effect])

end Sample

open Cache.Sample in
/-- The first grant of a store, after the change that the poll returned. -/
theorem controller_keeps_caches_behind_changelog_granted :
    caughtUp.step (some policy) (.actor .effect) = some granted ∧ granted.shared.log.length = 1 ∧
      ∃ state, granted.actor.stateOf store = some state ∧ state.initialized = true ∧
        4 = state.lastSuccess + policy.maximumLag ∧ SeenCovered granted.shared store state := by
  have reached : Reaches (step (some policy)) (fun w action => w.faithfulReads action = true)
      (.start (some policy) 0 []) caughtUp :=
    reaches_final faithfulReads (fun _ _ passed => passed) catchingUp rfl
  refine ⟨rfl, rfl, ?_⟩
  exact (controller_keeps_caches_behind_changelog policy 0 [] .nil (fun _ listed => nomatch listed)
    caughtUp granted (.actor .effect) reached rfl rfl).1 store 4 rfl nofun

open Cache.Sample in
/-- After an overflow the store is granted again, and no poll of it has ended. -/
theorem overflow_regrants_without_poll :
    Reaches (step (some policy)) (fun w action => w.faithfulReads action = true)
      (.start (some policy) 0 []) activated ∧
    Reaches (step (some policy)) (fun w action => w.faithfulReads action = true ∧
      w.Unpolled store action) activated refused ∧
    (∃ thread, refused.threads[2]? = some thread ∧ thread.Refused store) ∧
    Reaches (step (some policy)) (fun w action => w.faithfulReads action = true ∧
      w.Unpolled store action) refused overflowed ∧
    (∃ thread, overflowed.threads[2]? = some thread ∧ ¬ thread.Refused store) ∧
    Reaches (step (some policy)) (fun w action => w.faithfulReads action = true ∧
      w.Unpolled store action) overflowed regranted ∧
    regranted.Granted store := by
  refine ⟨reaches_final faithfulReads (fun _ _ passed => passed)
    (registering ++ [.actor .effect]) rfl,
    reaches_final unpolledCheck unpolledCheck_sound overflowing rfl, ⟨_, rfl, .inl rfl⟩,
    reaches_final unpolledCheck unpolledCheck_sound (steps 2 2 []) rfl, ⟨_, rfl, ?_⟩,
    reaches_final unpolledCheck unpolledCheck_sound _ rfl, 4, rfl⟩
  intro still
  obtain here | here := still <;> cases here

end OpenFga.Cache
