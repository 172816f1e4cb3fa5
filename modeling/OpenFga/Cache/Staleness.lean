import OpenFga.Cache.Generations
import OpenFga.Cache.Controller

/-!
# How stale a hit may be

A grant lasts for the maximum lag, counted from the moment the poll has succeeded. If
every change committed since the last read of the poll was invoked is as recent as the
grant, then a request inside the deadline can miss only changes of the last lag. The
invariant follows the deadline from the actor's states and effects to the registration,
and from there into the request that reads it before it takes an entry.
-/

namespace OpenFga.Cache

open Machine Shared List Option Function PermitSite

section

variable {config : ControllerConfig} {store : StoreId} {controller : Option ControllerConfig}
  {effects : List Effect} {stage : RequestStage} {due : List StoreId} {entry : Entry}
  {site : PermitSite} {answer : Bool ⊕ PermitStage} {next : RequestStage} {request : Request}

/-- Up to a deadline only changes of the last lag are missing behind the last advance. -/
structure Shared.Timely (s : Shared) (lag : Nat) (store : StoreId) (deadline : Nat) : Prop where
  reachable : deadline ≤ s.clock + lag
  covers : s.Covers store fun _ change => change.time + lag < deadline

section Onward

variable {s t : Shared} {lag deadline : Nat}

/-- A change that is older than the clock was already committed. -/
theorem Shared.Onward.committed (onward : s.Onward t) {index : Nat} {change : Change}
    (found : t.log[index]? = some change) (older : change.time < s.clock) :
    s.log[index]? = some change := by
  obtain ⟨added, log, appended⟩ := onward.log
  rw [log] at found
  by_cases inside : index < s.log.length
  · rwa [getElem?_append_left inside] at found
  · rw [getElem?_append_right (Nat.le_of_not_lt inside)] at found
    exact absurd (appended change (mem_of_getElem? found)).1 (Nat.not_le.mpr older)

theorem Shared.Timely.onward (timely : s.Timely lag store deadline) (onward : s.Onward t) :
    t.Timely lag store deadline := by
  refine ⟨timely.reachable.trans (Nat.add_le_add_right onward.clock lag), ?_⟩
  apply timely.covers.onward onward
  intro index change found same picked
  have older : change.time < s.clock := by
    have reachable := timely.reachable
    omega
  exact (List.getElem?_eq_some_iff.mp (onward.committed found older)).1

end Onward

/-- The deadlines that the actor's states stand for are timely. -/
structure Actor.Timely (config : ControllerConfig) (s : Shared) (actor : Actor) : Prop where
  stores : ∀ store state, actor.stores store = some state → state.initialized = true →
    s.Timely config.maximumLag store (state.lastSuccess + config.maximumLag)
  held : ∀ store state, actor.stage.held = some (store, state) → state.initialized = true →
    s.Timely config.maximumLag store (state.lastSuccess + config.maximumLag)
  effects : ∀ store deadline, Effect.register store (.activeUntil deadline) ∈ actor.effects →
    s.Timely config.maximumLag store deadline

section Code

variable {s t : Shared} {actor : Actor} {state : StoreState} {stage : ActorStage}

section

variable (timely : actor.Timely config s)

include timely

theorem Actor.Timely.onward (onward : s.Onward t) : actor.Timely config t :=
  ⟨fun store state found initialized => (timely.stores store state found initialized).onward onward,
    fun store state holds initialized => (timely.held store state holds initialized).onward onward,
    fun store deadline outstanding => (timely.effects store deadline outstanding).onward onward⟩

/-- Goes on with nothing granted and the polled store no fresher than before. -/
theorem Actor.Timely.goTo
    (held : ∀ store state, stage.held = some (store, state) → state.initialized = true →
      s.Timely config.maximumLag store (state.lastSuccess + config.maximumLag))
    (ungranted : ∀ store deadline, Effect.register store (.activeUntil deadline) ∉ effects) :
    (actor.goTo effects stage).Timely config s :=
  ⟨timely.stores, held, fun store deadline outstanding => absurd outstanding
    (ungranted store deadline)⟩

/-- The poll of a store goes on without a new success. -/
theorem Actor.Timely.hold {next : StoreState} (before : actor.stage.held = some (store, state))
    (after : stage.held = some (store, next)) (same : next.lastSuccess = state.lastSuccess)
    (initialized : next.initialized = true → state.initialized = true)
    (ungranted : ∀ store deadline, Effect.register store (.activeUntil deadline) ∉ effects) :
    (actor.goTo effects stage).Timely config s := by
  apply timely.goTo _ ungranted
  intro other found holds fresh
  rw [after] at holds
  cases holds
  rw [same]
  exact timely.held store state before (initialized fresh)

theorem Actor.Timely.rest (free : stage.held = none)
    (ungranted : ∀ store deadline, Effect.register store (.activeUntil deadline) ∉ effects) :
    (actor.goTo effects stage).Timely config s := by
  apply timely.goTo _ ungranted
  intro other found holds
  rw [free] at holds
  cases holds

theorem Actor.Timely.receive (idle : actor.stage = .idle) (now : Nat) (command : Command) :
    (actor.receive config now command).Timely config s := by
  have free : actor.stage.held = none := by
    rw [idle]
    rfl
  cases command with
  | track store =>
    simp only [Actor.receive, Actor.track]
    split
    · rename_i state found
      refine ⟨timely.stores, by rintro _ _ ⟨⟩, ?_⟩
      intro other deadline outstanding
      by_cases fresh : state.fresh config now = true
      · simp only [fresh, if_true, Actor.goTo, mem_cons, Effect.register.injEq,
          RegistrationState.activeUntil.injEq, reduceCtorEq, not_mem_nil,
          or_false] at outstanding
        obtain ⟨rfl, rfl⟩ := outstanding
        have initialized : state.initialized = true := by
          simp only [StoreState.fresh, Bool.and_eq_true] at fresh
          exact fresh.1
        exact timely.stores _ state found initialized
      · simp [fresh, Actor.goTo] at outstanding
    · split
      · apply timely.rest rfl
        simp
      · refine ⟨?_, ?_, by simp⟩
        · intro other state found initialized
          by_cases same : other = store
          · subst same
            simp only [update_self, some.injEq] at found
            rw [← found] at initialized
            cases initialized
          · simp only [update_of_ne same] at found
            exact timely.stores other state found initialized
        · intro other state holds
          simp only [free] at holds
          cases holds
  | restart =>
    refine ⟨?_, ?_, by simp [Actor.receive, Actor.restartState]⟩
    · intro other state found initialized
      obtain ⟨old, -, rfl⟩ := map_eq_some_iff.mp found
      cases initialized
    · intro other state holds
      simp only [Actor.receive, Actor.restartState, free] at holds
      cases holds
  | stop =>
    apply timely.rest rfl
    simp [runningGuard]

theorem Actor.Timely.takeDue (now : Nat) (due : List StoreId) :
    (actor.takeDue config now due).Timely config s := by
  cases due with
  | nil =>
    apply timely.rest rfl
    simp
  | cons store due =>
    simp only [Actor.takeDue]
    split
    · apply timely.rest rfl
      simp
    · rename_i state found
      refine ⟨?_, ?_, ?_⟩
      · intro other state found
        by_cases same : other = store
        · subst same
          simp at found
        · simp only [update_of_ne same] at found
          exact timely.stores other state found
      · intro other held holds
        cases holds
        exact timely.stores store state found
      · intro other deadline outstanding
        split at outstanding
        · simp at outstanding
        · simp at outstanding

theorem Actor.Timely.page {pages invoked percent : Nat} {changed continuation : Bool}
    {items : List Change} (stage : actor.stage = .awaiting store state pages changed due invoked) :
    (actor.page store state due pages changed invoked items continuation percent).Timely
      config s := by
  have before : actor.stage.held = some (store, state) := congrArg ActorStage.held stage
  have failing : (actor.pollFailed store state due percent).Timely config s :=
    timely.hold before rfl rfl (by rintro ⟨⟩) (by simp)
  simp only [Actor.page]
  split
  · exact failing
  · split
    · split
      · exact failing
      · exact timely.hold before rfl rfl (fun initialized => initialized)
          (by cases changed <;> simp)
    · split
      · exact timely.hold before rfl rfl (fun initialized => initialized) (by simp)
      · split
        · exact timely.hold before rfl rfl (by rintro ⟨⟩) (by simp)
        · exact timely.hold before rfl rfl (fun initialized => initialized) (by simp)

/-- A grant is timely when nothing older than the moment was committed since the last
read of the poll was invoked. -/
theorem Actor.Timely.grant (seen : SeenCovered s store state)
    (prompt : ∀ index change, s.log[index]? = some change → change.store = store →
      state.seen ≤ index → s.clock ≤ change.time) :
    (actor.grant config s.clock store state due).Timely config s := by
  have granted : s.Timely config.maximumLag store (s.clock + config.maximumLag) := by
    refine ⟨le_rfl, ?_⟩
    intro index change found same older
    by_cases early : index < state.seen
    · exact seen index change found same early
    · have recent := prompt index change found same (Nat.le_of_not_lt early)
      omega
  refine ⟨timely.stores, ?_, ?_⟩
  · intro other found holds
    cases holds
    exact fun _ => granted
  · intro other deadline outstanding
    simp only [Actor.grant, Actor.goTo, mem_cons, Effect.register.injEq,
      RegistrationState.activeUntil.injEq, not_mem_nil, or_false] at outstanding
    obtain ⟨rfl, rfl⟩ := outstanding
    exact granted

theorem Actor.Timely.putBack (clear : actor.effects = [])
    (stage : actor.stage = .storing store state due) :
    (actor.putBack store state due).Timely config s := by
  have held := timely.held store state (congrArg ActorStage.held stage)
  refine ⟨?_, fun _ _ holds => (nomatch holds), ?_⟩
  · intro other found same
    by_cases this : other = store
    · subst this
      simp only [Actor.putBack, update_self, some.injEq] at same
      rw [← same]
      exact held
    · simp only [Actor.putBack, update_of_ne this] at same
      exact timely.stores other found same
  · intro other deadline outstanding
    simp only [Actor.putBack, clear] at outstanding
    cases outstanding

end

/-- A caught-up poll grants its store only if every change committed since its last read
was invoked is as recent as the grant. -/
def PromptGrant (s : Shared) (actor : Actor) (move : ActorMove) : Prop :=
  ∀ store state due, move = .proceed → actor.stage = .succeeded store state due →
    ∀ index change, s.log[index]? = some change → change.store = store →
      state.seen ≤ index → s.clock ≤ change.time

theorem ActorCode.timely {next : Actor} {move : ActorMove}
    (code : ActorCode config s actor move t next) (sound : actor.Sound config s)
    (timely : actor.Timely config s) (clear : actor.effects = [])
    (prompt : PromptGrant s actor move) : next.Timely config s := by
  cases code with
  | receive idle => exact timely.receive idle s.clock _
  | poll =>
    apply timely.rest rfl
    simp
  | takeDue => exact timely.takeDue s.clock _
  | read stage | requeue stage | backOff stage =>
    exact timely.hold (congrArg ActorStage.held stage) rfl rfl
      (fun initialized => initialized) (by simp)
  | grant stage =>
    have held := sound.stage
    rw [stage, clear] at held
    have seen := (held.2.resolve_left not_mem_nil).2
    exact timely.grant seen (prompt _ _ _ rfl stage)
  | putBack stage => exact timely.putBack clear stage
  | page stage => exact timely.page stage
  | readFailed stage =>
    exact timely.hold (congrArg ActorStage.held stage) rfl rfl (by rintro ⟨⟩) (by simp)
  | stop | abort =>
    apply timely.rest rfl
    simp [runningGuard]

end Code

section Requests

variable (s : Shared) (lag : Nat) (request : Request)

/-- Only changes of the last lag before the request began may be missing. -/
def Recent : Prop :=
  s.Covers request.key.store fun _ change => change.time + lag < request.begun

/-- Only changes of the last lag before the request began are missing in an entry. -/
def Entry.Recent (entry : Entry) : Prop :=
  ∀ index change, s.log[index]? = some change → change.store = request.key.store →
    change.time + lag < request.begun → index < entry.version

/-- What a request knows of the store: the deadline once it has read it, and after the
comparison with the clock what it means for itself. -/
def RequestStage.Timely : RequestStage → Prop
  | .permit .lookup (.deadline deadline) => s.Timely lag request.key.store deadline
  | .permit .lookup .ready | .before | .entry _ | .after _ _ => Recent s lag request
  | .permit (.hit found) _ | .hit found => found.Recent s lag request
  | _ => True

variable {s lag request} {t : Shared}

theorem Recent.onward (recent : Recent s lag request) (begun : request.begun ≤ s.clock)
    (onward : s.Onward t) : Recent t lag request := by
  apply Covers.onward recent onward
  intro index change found same older
  have early : change.time < s.clock := by omega
  exact (List.getElem?_eq_some_iff.mp (onward.committed found early)).1

theorem Entry.Recent.onward (recent : entry.Recent s lag request) (begun : request.begun ≤ s.clock)
    (onward : s.Onward t) : entry.Recent t lag request := by
  intro index change found same older
  have early : change.time < s.clock := by omega
  exact recent index change (onward.committed found early) same older

theorem RequestStage.Timely.onward (timely : stage.Timely s lag request)
    (begun : request.begun ≤ s.clock) (onward : s.Onward t) : stage.Timely t lag request := by
  cases stage with
  | before | entry | after => exact Recent.onward timely begun onward
  | hit found => exact Entry.Recent.onward timely begun onward
  | permit site stage =>
    cases site with
    | lookup =>
      cases stage with
      | deadline deadline => exact Shared.Timely.onward timely onward
      | ready => exact Recent.onward timely begun onward
      | _ => trivial
    | hit found => exact Entry.Recent.onward timely begun onward
    | _ => trivial
  | _ => trivial

/-- Asking for permission to look up ends with a deadline that has not passed. -/
theorem permitStep_timely {stage : PermitStage} (begun : request.begun ≤ s.clock)
    (registered : ∀ deadline, s.registrations request.key.store = some (.activeUntil deadline) →
      s.Timely lag request.key.store deadline)
    (timely : (RequestStage.permit .lookup stage).Timely s lag request) :
    (lookup.answer (permitStep request.key.store s stage).2).Timely s lag request := by
  cases stage with
  | running | expired =>
    simp only [permitStep]
    split <;> trivial
  | registration =>
    simp only [permitStep]
    split
    · rename_i deadline active
      exact registered deadline active
    · trivial
  | deadline deadline =>
    simp only [permitStep]
    split
    · rename_i within
      intro index change found same older
      apply timely.covers index change found same
      exact older.trans_le (begun.trans within)
    · trivial
  | ready =>
    cases ready : s.ready with
    | true =>
      simp only [permitStep, ready]
      exact timely
    | false =>
      simp only [permitStep, ready]
      trivial
  | flush => trivial

theorem PermitSite.answer_timely (outside : site ≠ .lookup)
    (served : ∀ entry, site = .hit entry → entry.Recent s lag request) :
    (site.answer answer).Timely s lag request := by
  cases site with
  | lookup => exact absurd rfl outside
  | hit entry =>
    have recent := served entry rfl
    cases answer with
    | inl permitted =>
      cases permitted with
      | true => exact recent
      | false => trivial
    | inr stage => exact recent
  | eligible | insert | inserted =>
    cases answer with
    | inl permitted => cases permitted <;> trivial
    | inr stage => trivial

/-- One step of a request with a controller keeps what it knows. The hit takes over what
the deadline meant, since the entry is as recent as the last advance. -/
theorem RequestCode.timely (code : RequestCode (some config) request s stage t next)
    (begun : request.begun ≤ s.clock) (onward : s.Onward t) (sound : stage.Sound s)
    (registered : ∀ deadline, s.registrations request.key.store = some (.activeUntil deadline) →
      s.Timely lag request.key.store deadline) (timely : stage.Timely s lag request) :
    next.Timely t lag request := by
  cases code with
  | @track _ _ _ rest => cases rest <;> trivial
  | @permit stage _ answer site asked =>
    apply RequestStage.Timely.onward _ begun onward
    by_cases looking : site = .lookup
    · subst looking
      have answered := permitStep_timely begun registered timely
      rw [asked] at answered
      exact answered
    · apply answer_timely looking
      intro entry serving
      subst serving
      exact timely
  | before | entry => exact timely
  | @hit before found unchanged current =>
    have covered : s.flushed ≤ found.version := (sound found rfl).recent current
    intro index change listed same older
    exact (timely index change listed same older).trans_le covered
  | insert last => obtain rfl | rfl := last <;> trivial
  | _ => trivial

end Requests

/-- A request that looks for a cached value and has not been answered. -/
def RequestStage.lookingUp : RequestStage → Bool
  | .track _ | .permit .lookup _ | .before | .entry _ | .after _ _ | .permit (.hit _) _ => true
  | _ => false

section Lookup

variable {s t : Shared} {request : Request}

theorem PermitSite.answer_lookingUp (looking : (site.answer answer).lookingUp = true) :
    site = .lookup ∨ ∃ entry, site = .hit entry := by
  cases site with
  | lookup => exact .inl rfl
  | hit entry => exact .inr ⟨entry, rfl⟩
  | eligible | insert | inserted =>
    cases answer with
    | inl permitted => cases permitted <;> cases looking
    | inr stage => cases looking

/-- A lookup that has ended does not begin again. -/
theorem RequestCode.lookingUp (code : RequestCode controller request s stage t next)
    (looking : next.lookingUp = true) : stage.lookingUp = true := by
  cases code with
  | permit => obtain rfl | ⟨entry, rfl⟩ := answer_lookingUp looking <;> rfl
  | read | current => cases controller <;> cases looking
  | insert last => obtain rfl | rfl := last <;> cases controller <;> cases looking
  | start | decided | outdated => cases looking
  | _ => rfl

theorem permitStep_permitted {store : StoreId} {stage : PermitStage}
    (permitted : permitStep store s stage = (t, .inl true)) : t = s ∧ stage = .ready := by
  cases stage with
  | ready => exact ⟨(congrArg Prod.fst permitted).symm, rfl⟩
  | running | registration | expired =>
    simp only [permitStep] at permitted
    split at permitted <;> cases permitted
  | deadline | flush => cases permitted

/-- A request with a controller is answered when it finds the caches ready. -/
theorem RequestCode.answered (code : RequestCode (some config) request s stage t next)
    (hit : next = .hit entry) : t = s ∧ stage = .permit (.hit entry) .ready := by
  cases code with
  | @track _ _ _ rest => cases rest <;> cases hit
  | @permit stage _ answer site asked =>
    cases answer with
    | inr rest => cases hit
    | inl permitted =>
      cases site <;> cases permitted <;> cases hit
      obtain ⟨rfl, rfl⟩ := permitStep_permitted asked
      exact ⟨rfl, rfl⟩
  | insert last => obtain rfl | rfl := last <;> cases hit
  | _ => cases hit

end Lookup

namespace World

variable {w w' : World} {action : Action}

/-- The invariant of the deadlines. -/
structure Timely (config : ControllerConfig) (w : World) : Prop where
  sound : w.Sound
  controlled : w.Controlled config
  actor : w.actor.Timely config w.shared
  registered : ∀ store deadline, w.shared.registrations store = some (.activeUntil deadline) →
    w.shared.Timely config.maximumLag store deadline
  requests : ∀ request stage, .request request stage ∈ w.threads →
    request.begun ≤ w.shared.clock ∧ stage.Timely w.shared config.maximumLag request ∧
      (stage.lookingUp = true → request.begun = w.shared.clock)

theorem start_timely (clock : Nat) {log : List Change}
    (ordered : log.Pairwise fun first second => first.store = second.store → first.id < second.id)
    (past : ∀ change ∈ log, change.time ≤ clock) : (start (some config) clock log).Timely
      config where
  sound := start_sound clock log
  controlled := start_controlled clock ordered past
  actor := ⟨fun _ _ found => (nomatch found), fun _ _ holds => (nomatch holds),
    fun _ _ outstanding => (nomatch outstanding)⟩
  registered := fun _ _ active => nomatch active
  requests := fun _ _ running => nomatch running

/-- The condition on a step under which deadlines bound the staleness: the storage is
faithful, the watermark does not wrap around, grants are prompt, and no time passes
during a lookup. -/
structure Prompt (w : World) (action : Action) : Prop where
  faithful : w.faithfulReads action = true
  bounded : w.shared.watermark + 1 < 2 ^ 64
  grant : ∀ move, action = .actor move → PromptGrant w.shared w.actor move
  lookup : ∀ elapsed, action = .tick elapsed → 0 < elapsed → ∀ request stage,
    .request request stage ∈ w.threads → stage.lookingUp = false

/-- Time stands still for a lookup. -/
theorem Prompt.clock (prompt : w.Prompt action) (moved : w.step (some config) action = some w')
    (running : .request request stage ∈ w.threads) (looking : stage.lookingUp = true) :
    w'.shared.clock = w.shared.clock := by
  obtain same | ⟨elapsed, ticking, later⟩ := (step_move moved).clock
  · exact same
  · by_cases passed : 0 < elapsed
    · have idle := prompt.lookup elapsed ticking passed request stage running
      rw [looking] at idle
      cases idle
    · omega

theorem Timely.step (timely : w.Timely config) (prompt : w.Prompt action)
    (moved : w.step (some config) action = some w') : w'.Timely config := by
  obtain ⟨-, sound⟩ := timely.sound.step prompt.bounded moved
  obtain ⟨onward, controlled⟩ := timely.controlled.step prompt.faithful moved
  refine ⟨sound, controlled, ?_, ?_, ?_⟩
  · obtain same | ⟨config', move, known, rfl, stepped⟩ := step_actor moved
    · rw [same]
      exact timely.actor.onward onward
    · cases known
      obtain ⟨effect, effects, outstanding, -, -, next⟩ | ⟨clear, code⟩ := actorStep_cases stepped
      · rw [next]
        have kept := timely.actor.onward onward
        refine ⟨kept.stores, kept.held, ?_⟩
        intro store deadline remaining
        exact kept.effects store deadline (outstanding ▸ mem_cons_of_mem effect remaining)
      · have next := code.timely timely.controlled.actor timely.actor clear (prompt.grant move rfl)
        exact next.onward onward
  · intro store deadline active
    obtain before | ⟨-, effects, outstanding⟩ := (step_move moved).registrations active
    · exact (timely.registered store deadline before).onward onward
    · have granted := timely.actor.effects store deadline (outstanding ▸ mem_cons_self)
      exact granted.onward onward
  · intro request stage running
    obtain before | ⟨key, fresh, same⟩ | ⟨earlier, before, code⟩ := step_requests moved running
    · obtain ⟨begun, known, instant⟩ := timely.requests request stage before
      refine ⟨begun.trans onward.clock, known.onward begun onward, ?_⟩
      intro looking
      exact (instant looking).trans (prompt.clock moved before looking).symm
    · obtain ⟨rfl, -⟩ := spawnRequest_stage fresh
      simp only [spawnRequest, isSome_some, if_true] at fresh
      cases fresh
      exact ⟨onward.clock, trivial, fun _ => (congrArg Shared.clock same).symm⟩
    · obtain ⟨begun, known, instant⟩ := timely.requests request earlier before
      refine ⟨begun.trans onward.clock, ?_, ?_⟩
      · exact code.timely begun onward (timely.sound.requests request earlier before)
          (timely.registered _) known
      · intro looking
        have lookedUp := code.lookingUp looking
        exact (instant lookedUp).trans (prompt.clock moved before lookedUp).symm

theorem reaches_timely (reached : Reaches (step (some config)) Prompt w w')
    (timely : w.Timely config) : w'.Timely config :=
  reached.invariant (Timely config) (fun _ _ _ held met moved => held.step met moved) timely

/-- A request is answered from a cache at this step. -/
def ServesHit (config : ControllerConfig) (w w' : World) (request : Request)
    (entry : Entry) : Prop :=
  ∃ index ids, w.step (some config) (.thread index ids) = some w' ∧
    w'.threads[index]? = some (.request request (.hit entry))

/-- The entry misses a change of the store that is older than the maximum lag. -/
def Stale (config : ControllerConfig) (w : World) (request : Request) (entry : Entry) : Prop :=
  ∃ index change, w.shared.log[index]? = some change ∧ change.store = request.key.store ∧
    entry.version ≤ index ∧ change.time + config.maximumLag < w.shared.clock

theorem ServesHit.ready (serves : ServesHit config w w' request entry) :
    w'.shared = w.shared ∧ .request request (.permit (.hit entry) .ready) ∈ w.threads := by
  obtain ⟨index, ids, moved, hit⟩ := serves
  obtain ⟨thread, running, moved⟩ := bind_eq_some_iff.mp moved
  obtain ⟨⟨s, next⟩, stepped, moved⟩ := bind_eq_some_iff.mp moved
  cases moved
  have present : index < w.threads.length := (List.getElem?_eq_some_iff.mp running).1
  rw [getElem?_set_self present] at hit
  cases hit
  obtain ⟨stage, rfl, code⟩ := Thread.step_request stepped
  obtain ⟨rfl, rfl⟩ := code.answered rfl
  exact ⟨rfl, mem_of_getElem? running⟩

end World

end

open World

/-- When grants are prompt and lookups take no time, no hit is staler than the lag. -/
theorem hits_within_maximum_lag (config : ControllerConfig) (clock : Nat) (log : List Change)
    (ordered : log.Pairwise fun first second => first.store = second.store → first.id < second.id)
    (past : ∀ change ∈ log, change.time ≤ clock) (w w' : World) (request : Request) (entry : Entry)
    (reached : Reaches (step (some config)) Prompt (.start (some config) clock log) w)
    (serves : ServesHit config w w' request entry) : ¬ w'.Stale config request entry := by
  obtain ⟨shared, asking⟩ := serves.ready
  have timely := reaches_timely reached (start_timely clock ordered past)
  obtain ⟨-, recent, instant⟩ := timely.requests request _ asking
  have begun : request.begun = w.shared.clock := instant rfl
  intro stale
  obtain ⟨index, change, found, same, missing, older⟩ := stale
  rw [shared] at found older
  have included := recent index change found same (begun ▸ older)
  exact absurd missing (Nat.not_le.mpr included)

namespace Sample

/-- A request registers its store, the first poll catches up and the request caches its
decision. -/
def warming : List Action :=
  .request decision :: steps 0 4 [] ++ [.actor .receive, .actor .effect, .actor (.poll [store]),
    .actor .proceed, .actor .proceed, .actor (.page [] false 100), .actor .proceed, .actor .effect,
    .actor .proceed, .actor .proceed, .actor .effect] ++ steps 0 15 []

def promptCheck (w : World) (action : Action) : Bool :=
  w.faithfulReads action && decide (w.shared.watermark + 1 < 2 ^ 64) &&
    (match action with
      | .tick _ => w.threads.all fun thread =>
          match thread with
          | .request _ stage => !stage.lookingUp
          | _ => true
      | _ => true) &&
    match action, w.actor.stage with
    | .actor .proceed, .succeeded store state _ =>
        (w.shared.log.drop state.seen).all fun change =>
          decide (change.store = store → w.shared.clock ≤ change.time)
    | _, _ => true

theorem promptCheck_sound (w : World) (action : Action) (passed : promptCheck w action = true) :
    w.Prompt action := by
  simp only [promptCheck, Bool.and_eq_true, decide_eq_true_eq] at passed
  obtain ⟨⟨⟨faithful, bounded⟩, lookup⟩, grant⟩ := passed
  refine ⟨faithful, bounded, ?_, ?_⟩
  · intro move acting store state due proceeding stage index change found same late
    subst acting proceeding
    rw [stage] at grant
    have listed : change ∈ w.shared.log.drop state.seen := by
      apply mem_of_getElem?
      rw [getElem?_drop, Nat.add_sub_cancel' late]
      exact found
    exact of_decide_eq_true (all_eq_true.mp grant change listed) same
  · intro elapsed ticking _ request stage running
    subst ticking
    have idle := all_eq_true.mp lookup _ running
    simpa using idle

/-- A change is committed after the decision was computed, and a request asks when the
lag has almost passed. -/
def beforeHit : World :=
  final (step (some policy)) promptCheck (.start (some policy) 0 [])
    (warming ++ [.tick 1, .commit store [7], .tick 3, .request decision] ++ steps 1 11 [])

def afterHit : World :=
  final (step (some policy)) promptCheck beforeHit (steps 1 1 [])

/-- A change is committed while the last read of a poll is under way. The read does not
return it, and the grant counts from its end. -/
def beforeStaleHit : World :=
  final (step (some policy)) faithfulReads (.start (some policy) 0 [])
    (warming ++ [.tick 1, .actor (.poll [store]), .actor .proceed, .actor .proceed,
      .commit store [7], .tick 1, .actor (.page [] false 100), .actor .proceed, .actor .effect,
      .actor .proceed, .actor .proceed, .actor .effect, .tick 4, .request decision]
        ++ steps 1 11 [])

def afterStaleHit : World :=
  final (step (some policy)) faithfulReads beforeStaleHit (steps 1 1 [])

end Sample

open Cache.Sample in
/-- A hit that misses a change of the last lag. -/
theorem hits_within_maximum_lag_recent :
    ServesHit policy beforeHit afterHit ⟨decision, 4, 0⟩ ⟨0, 1⟩ ∧
      ¬ afterHit.Stale policy ⟨decision, 4, 0⟩ ⟨0, 1⟩ := by
  have serves : ServesHit policy beforeHit afterHit ⟨decision, 4, 0⟩ ⟨0, 1⟩ :=
    ⟨1, [], rfl, rfl⟩
  have reached : Reaches (step (some policy)) Prompt (.start (some policy) 0 [])
      beforeHit := reaches_final promptCheck promptCheck_sound _ rfl
  refine ⟨serves, ?_⟩
  exact hits_within_maximum_lag policy 0 [] .nil (fun _ listed => nomatch listed) beforeHit
    afterHit ⟨decision, 4, 0⟩ ⟨0, 1⟩ reached serves

open Cache.Sample in
/-- The deadline counts from the end of the read, so that a change committed during the
read may be missed for longer than the lag. -/
theorem slow_read_extends_stale_window :
    Reaches (step (some policy)) (fun w action => w.faithfulReads action = true)
      (.start (some policy) 0 []) beforeStaleHit ∧
    ServesHit policy beforeStaleHit afterStaleHit ⟨decision, 6, 0⟩ ⟨0, 1⟩ ∧
    afterStaleHit.Stale policy ⟨decision, 6, 0⟩ ⟨0, 1⟩ := by
  refine ⟨reaches_final faithfulReads (fun _ _ passed => passed) _ rfl, ⟨1, [], rfl, rfl⟩, ?_⟩
  exact ⟨0, ⟨store, 7, 1⟩, rfl, rfl, Nat.le_refl 0, by decide⟩

end OpenFga.Cache
