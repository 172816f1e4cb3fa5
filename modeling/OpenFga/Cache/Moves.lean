import OpenFga.Cache.World

/-!
# What a step does to the shared state

Inversion lemmas for the machine. A step of any agent is one of a few changes of the
shared state, and only the actor's own effect can let a store be served from caches.
-/

namespace OpenFga.Cache

open List Option Function

namespace Shared

/-- What the controller and its handle do: they change the state of the control, or
advance the watermark. A store is granted only as `granted` says. -/
inductive Control (s : Shared) (granted : StoreId → Nat → Prop) : Shared → Prop where
  | frame (registrations : StoreId → Option RegistrationState) (running ready : Bool)
      (channel : List Command) (closed : Bool)
      (kept : ∀ store deadline, registrations store = some (.activeUntil deadline) →
        s.registrations store = some (.activeUntil deadline) ∨ granted store deadline) :
      Control s granted { s with registrations, running, ready, channel, closed }
  | advance : Control s granted s.advance

/-- Where the passing of time, grants, cached entries and acknowledgements come from. -/
structure Sources where
  elapsed : Nat → Prop
  granted : StoreId → Nat → Prop
  cached : CacheKey → Entry → Prop
  acknowledged : Nat → Prop

/-- What any step does to the shared state. -/
inductive Move (s : Shared) (sources : Sources) : Shared → Prop where
  | control {t : Shared} (control : Control s sources.granted t) : Move s sources t
  | tick (elapsed : Nat) (passed : sources.elapsed elapsed) :
      Move s sources { s with clock := s.clock + elapsed }
  | commit (store : StoreId) (ids : List Nat) (continues : s.continues store ids = true) :
      Move s sources (s.commit store ids)
  | evict (key : CacheKey) :
      Move s sources { s with entries := update s.entries key none }
  | cache (key : CacheKey) (entry : Entry) (inserted : sources.cached key entry) :
      Move s sources { s with entries := update s.entries key (some entry) }
  | acknowledge (version : Nat) (returned : sources.acknowledged version) :
      Move s sources { s with acknowledged := max s.acknowledged version }

variable {s t : Shared} {granted granted' : StoreId → Nat → Prop} {sources : Sources}

theorem Control.mono (control : Control s granted t)
    (weaker : ∀ store deadline, granted store deadline → granted' store deadline) :
    Control s granted' t := by
  cases control with
  | frame registrations running ready channel closed kept =>
    refine .frame registrations running ready channel closed ?_
    intro store deadline active
    exact (kept store deadline active).imp_right (weaker store deadline)
  | advance => exact .advance

/-- The control changes and no registration does. -/
theorem Control.local (running ready : Bool) (channel : List Command) (closed : Bool) :
    Control s granted { s with running, ready, channel, closed } :=
  .frame s.registrations running ready channel closed fun _ _ active => .inl active

theorem Control.refl (s : Shared) : Control s granted s :=
  .local s.running s.ready s.channel s.closed

theorem Move.refl (s : Shared) : Move s sources s :=
  .control (.refl s)

/-- A store that is not granted loses its registration or waits. -/
theorem Control.register (store : StoreId) (state : Option RegistrationState)
    (grants : ∀ deadline, state = some (.activeUntil deadline) → granted store deadline) :
    Control s granted (s.register store state) := by
  refine .frame _ s.running s.ready s.channel s.closed ?_
  intro other deadline active
  by_cases same : other = store
  · subst same
    exact .inr (grants deadline (by simpa using active))
  · exact .inl (by simpa [same] using active)

section

variable (move : Move s sources t)

include move

/-- A grant appears only where the move says so. -/
theorem Move.registrations {store : StoreId} {deadline : Nat}
    (active : t.registrations store = some (.activeUntil deadline)) :
    s.registrations store = some (.activeUntil deadline) ∨ sources.granted store deadline := by
  cases move with
  | control control =>
    cases control with
    | frame registrations running ready channel closed kept => exact kept store deadline active
    | advance => exact .inl active
  | tick | commit | evict | cache | acknowledge => exact .inl active

/-- The clock moves only as the move says. -/
theorem Move.clock :
    t.clock = s.clock ∨ ∃ elapsed, sources.elapsed elapsed ∧ t.clock = s.clock + elapsed := by
  cases move with
  | control control => cases control <;> exact .inl rfl
  | tick elapsed passed => exact .inr ⟨elapsed, passed, rfl⟩
  | commit | evict | cache | acknowledge => exact .inl rfl

/-- An acknowledgement appears only where the move says so. -/
theorem Move.acknowledged :
    t.acknowledged = s.acknowledged ∨ ∃ version, sources.acknowledged version ∧
      t.acknowledged = max s.acknowledged version := by
  cases move with
  | control control => cases control <;> exact .inl rfl
  | tick | commit | evict | cache => exact .inl rfl
  | acknowledge version returned => exact .inr ⟨version, returned, rfl⟩

/-- An entry appears only where the move says so. -/
theorem Move.entries {key : CacheKey} {entry : Entry} (found : t.entries key = some entry) :
    s.entries key = some entry ∨ sources.cached key entry := by
  cases move with
  | control control => cases control <;> exact .inl found
  | tick | commit | acknowledge => exact .inl found
  | evict other =>
    by_cases same : key = other
    · subst same
      simp at found
    · simp only [update_of_ne same] at found
      exact .inl found
  | cache other inserting inserted =>
    by_cases same : key = other
    · subst same
      simp only [update_self, some.injEq] at found
      exact .inr (found ▸ inserted)
    · simp only [update_of_ne same] at found
      exact .inl found

end

end Shared

/-- What the actor's code does between two effects. -/
inductive ActorCode (config : ControllerConfig) (s : Shared) (actor : Actor) :
    ActorMove → Shared → Actor → Prop where
  | receive (idle : actor.stage = .idle) (waiting : s.channel = command :: channel) :
      ActorCode config s actor .receive { s with channel } (actor.receive config s.clock command)
  | poll (idle : actor.stage = .idle) (quiet : s.channel = [])
      (listed : due.Perm (actor.dueStores s.clock)) :
      ActorCode config s actor (.poll due) s (actor.goTo [] (.polling due))
  | takeDue (stage : actor.stage = .polling due) :
      ActorCode config s actor .proceed s (actor.takeDue config s.clock due)
  | read (stage : actor.stage = .reading store state pages changed due) :
      ActorCode config s actor .proceed s
        (actor.goTo [] (.awaiting store state pages changed due s.log.length))
  | grant (stage : actor.stage = .succeeded store state due) :
      ActorCode config s actor .proceed s (actor.grant config s.clock store state due)
  | requeue (stage : actor.stage = .backlogged store state due) :
      ActorCode config s actor .proceed s (actor.requeue config s.clock store state due)
  | backOff (stage : actor.stage = .failed store state due percent) :
      ActorCode config s actor .proceed s (actor.backOff config s.clock store state due percent)
  | putBack (stage : actor.stage = .storing store state due) :
      ActorCode config s actor .proceed s (actor.putBack store state due)
  | page (stage : actor.stage = .awaiting store state pages changed due invoked)
      (jitter : jittered percent = true) :
      ActorCode config s actor (.page items continuation percent) s
        (actor.page store state due pages changed invoked items continuation percent)
  | readFailed (stage : actor.stage = .awaiting store state pages changed due invoked)
      (jitter : jittered percent = true) :
      ActorCode config s actor (.readFailed percent) s (actor.pollFailed store state due percent)
  | stop (idle : actor.stage = .idle) : ActorCode config s actor .abort s actor.aborted
  | abort (stage : actor.stage = .awaiting store state pages changed due invoked) :
      ActorCode config s actor .abort s actor.aborted

/-- What a request does at each of its stages. -/
inductive RequestCode (controller : Option ControllerConfig) (request : Request) (s : Shared) :
    RequestStage → Shared → RequestStage → Prop where
  | track (known : controller = some config)
      (tracked : trackStep config request.key.store s stage = (t, rest)) :
      RequestCode controller request s (.track stage) t (.tracked controller rest)
  | permit (asked : permitStep request.key.store s stage = (t, answer)) :
      RequestCode controller request s (.permit site stage) t (site.answer answer)
  | before : RequestCode controller request s .before s (.entry s.watermark)
  | entry :
      RequestCode controller request s (.entry before) s (.after before (s.entries request.key))
  | hit {entry : Entry} (unchanged : before = s.watermark) (current : entry.watermark =
      s.watermark) : RequestCode controller request s (.after before (some entry)) s
        ((PermitSite.hit entry).ask controller)
  | miss : RequestCode controller request s (.after before found) s .start
  | start : RequestCode controller request s .start s (.compute s.watermark)
  | decided : RequestCode controller request s (.compute started) s (.compare started s.log.length)
  | read : RequestCode controller request s (.compute started) s
      ((PermitSite.eligible started s.log.length).ask controller)
  | current (unchanged : s.watermark = started) :
      RequestCode controller request s (.compare started version) s
        ((PermitSite.insert started version).ask controller)
  | outdated : RequestCode controller request s (.compare started version) s .finished
  | insert {next : RequestStage}
      (last : next = PermitSite.inserted.ask controller ∨ next = .finished) :
      RequestCode controller request s (.insert started version)
        { s with entries := Function.update s.entries request.key (some ⟨version, started⟩) } next

open Shared

section Control

variable (config : ControllerConfig) (store : StoreId) (s : Shared)

theorem trackStep_control (stage : TrackStage) :
    Control s (fun _ _ => False) (trackStep config store s stage).1 := by
  cases stage with
  | lookup => exact .refl s
  | unready => exact .local s.running false s.channel s.closed
  | register | withdraw =>
    apply Control.register
    intro deadline active
    cases active
  | send =>
    simp only [trackStep]
    split
    · exact .refl s
    · exact .local s.running s.ready _ s.closed
  | flush => exact .advance

theorem permitStep_control (stage : PermitStage) :
    Control s (fun _ _ => False) (permitStep store s stage).1 := by
  cases stage with
  | registration =>
    simp only [permitStep]
    split <;> exact .refl s
  | expired => exact .local s.running false s.channel s.closed
  | flush => exact .advance
  | running | deadline | ready => exact .refl s

theorem perform_control (actor : Actor) (effect : Effect) :
    Control s (fun store deadline => effect = .register store (.activeUntil deadline))
      (perform config actor s effect) := by
  cases effect with
  | setReady ready => exact .local s.running ready s.channel s.closed
  | setRunning running => exact .local running s.ready s.channel s.closed
  | register store state =>
    apply Control.register
    intro deadline active
    cases active
    rfl
  | unregister store =>
    apply Control.register
    intro deadline active
    cases active
  | flush => exact .advance
  | updateReadiness => exact .local s.running _ s.channel s.closed
  | close => exact .local s.running s.ready s.channel true

variable {config s}

section

variable {actor next : Actor} {move : ActorMove} {t : Shared}

theorem actorCode_cases (moved : actorCode config s actor move = some (t, next)) :
    ActorCode config s actor move t next := by
  cases move with
  | effect => cases moved
  | receive =>
    simp only [actorCode] at moved
    split at moved <;> cases moved
    exact .receive ‹_› ‹_›
  | poll due =>
    obtain ⟨⟨idle, quiet, listed⟩, moved⟩ := ite_none_right_eq_some.mp moved
    cases moved
    exact .poll idle quiet listed
  | proceed =>
    simp only [actorCode] at moved
    split at moved <;> cases moved
    · exact .takeDue ‹_›
    · exact .read ‹_›
    · exact .grant ‹_›
    · exact .requeue ‹_›
    · exact .backOff ‹_›
    · exact .putBack ‹_›
  | page items continuation percent =>
    simp only [actorCode] at moved
    split at moved <;> cases moved
    exact .page ‹_› ‹_›
  | readFailed percent =>
    simp only [actorCode] at moved
    split at moved <;> cases moved
    exact .readFailed ‹_› ‹_›
  | abort =>
    simp only [actorCode] at moved
    split at moved <;> cases moved
    · exact .stop ‹_›
    · exact .abort ‹_›

/-- Between its effects the actor takes commands from the channel and leaves the rest
of the shared state alone. -/
theorem ActorCode.shared (code : ActorCode config s actor move t next) :
    ∃ channel, t = { s with channel } := by
  cases code with
  | receive => exact ⟨_, rfl⟩
  | _ => exact ⟨s.channel, rfl⟩

/-- The actor performs its next effect, or goes on when none is left. -/
theorem actorStep_cases (moved : actorStep config s actor move = some (t, next)) :
    (∃ effect effects, actor.effects = effect :: effects ∧ move = .effect ∧
      t = perform config actor s effect ∧ next = { actor with effects }) ∨
    actor.effects = [] ∧ ActorCode config s actor move t next := by
  simp only [actorStep] at moved
  split at moved
  · rename_i effect effects outstanding
    cases moved
    exact .inl ⟨effect, effects, outstanding, rfl, rfl, rfl⟩
  · rename_i outstanding
    exact .inr ⟨outstanding, actorCode_cases moved⟩
  · cases moved

theorem actorStep_control (moved : actorStep config s actor move = some (t, next)) :
    Control s (fun store deadline => move = .effect ∧
      ∃ effects, actor.effects = .register store (.activeUntil deadline) :: effects) t := by
  obtain ⟨effect, effects, outstanding, rfl, rfl, -⟩ | ⟨-, code⟩ := actorStep_cases moved
  · apply (perform_control config s actor effect).mono
    intro store deadline grants
    subst grants
    exact ⟨rfl, effects, outstanding⟩
  · obtain ⟨channel, rfl⟩ := code.shared
    exact .local s.running s.ready channel s.closed

end

end Control

section Threads

variable {controller : Option ControllerConfig} {s t : Shared} {sources : Sources}

theorem requestStep_cases {request : Request} {stage next : RequestStage}
    (moved : requestStep controller request s stage = some (t, next)) :
    RequestCode controller request s stage t next := by
  cases stage with
  | track stage =>
    obtain ⟨config, known, moved⟩ := bind_eq_some_iff.mp moved
    cases moved
    exact .track known rfl
  | permit site stage =>
    cases moved
    exact .permit rfl
  | before =>
    cases moved
    exact .before
  | entry before =>
    cases moved
    exact .entry
  | after before found =>
    cases found with
    | none =>
      cases moved
      exact .miss
    | some entry =>
      simp only [requestStep] at moved
      split at moved <;> cases moved
      · rename_i current
        exact .hit current.1 current.2
      · exact .miss
  | start =>
    cases moved
    exact .start
  | compute started =>
    cases moved
    split
    · exact .decided
    · exact .read
  | compare started version =>
    cases moved
    split
    · rename_i unchanged
      exact .current unchanged
    · exact .outdated
  | insert started version =>
    cases moved
    apply RequestCode.insert
    split
    · split
      · exact .inl rfl
      · exact .inr rfl
    · exact .inr rfl
  | hit | finished => cases moved

theorem RequestCode.move {next : RequestStage}
    (code : RequestCode controller request s stage t next)
    (cached : ∀ started version, stage = .insert started version →
      sources.cached request.key ⟨version, started⟩) : Move s sources t := by
  cases code with
  | @track config stage _ _ _ tracked =>
    have control := trackStep_control config request.key.store s stage
    rw [tracked] at control
    exact .control (control.mono fun _ _ => False.elim)
  | @permit stage _ _ _ asked =>
    have control := permitStep_control request.key.store s stage
    rw [asked] at control
    exact .control (control.mono fun _ _ => False.elim)
  | insert => exact .cache request.key _ (cached _ _ rfl)
  | _ => exact .refl s

theorem writeStep_move {store : StoreId} {ids : List Nat} {stage next : WriteStage}
    (acknowledged : ∀ version, stage = .acknowledge version → sources.acknowledged version)
    (moved : writeStep controller store ids s stage = some (t, next)) : Move s sources t := by
  cases stage with
  | track stage =>
    obtain ⟨config, -, moved⟩ := bind_eq_some_iff.mp moved
    cases moved
    exact .control ((trackStep_control config store s stage).mono fun _ _ => False.elim)
  | storage =>
    obtain ⟨continues, moved⟩ := ite_none_right_eq_some.mp moved
    cases moved
    exact .commit store ids continues
  | advance version =>
    cases moved
    exact .control .advance
  | acknowledge version =>
    cases moved
    exact .acknowledge version (acknowledged version rfl)
  | finished => cases moved

theorem Thread.step_move {ids : List Nat} {thread next : Thread}
    (cached : ∀ request started version, thread = .request request (.insert started version) →
      sources.cached request.key ⟨version, started⟩)
    (acknowledged : ∀ store version, thread = .write store (.acknowledge version) →
      sources.acknowledged version)
    (moved : thread.step controller ids s = some (t, next)) : Move s sources t := by
  cases thread with
  | request self stage =>
    obtain ⟨⟨u, after⟩, went, same⟩ := map_eq_some_iff.mp moved
    cases same
    apply (requestStep_cases went).move
    intro started version inserting
    exact cached self started version (congrArg (Thread.request self) inserting)
  | write store stage =>
    obtain ⟨⟨u, after⟩, went, same⟩ := map_eq_some_iff.mp moved
    cases same
    apply writeStep_move _ went
    intro version returning
    exact acknowledged store version (congrArg (Thread.write store) returning)
  | dropped => cases moved

theorem Thread.step_request {request : Request} {next : RequestStage} {ids : List Nat}
    {thread : Thread}
    (moved : thread.step controller ids s = some (t, .request request next)) :
    ∃ stage, thread = .request request stage ∧ RequestCode controller request s stage t next := by
  cases thread with
  | request self stage =>
    obtain ⟨⟨u, after⟩, went, same⟩ := map_eq_some_iff.mp moved
    cases same
    exact ⟨stage, rfl, requestStep_cases went⟩
  | write store stage =>
    obtain ⟨⟨u, after⟩, -, same⟩ := map_eq_some_iff.mp moved
    cases (congrArg Prod.snd same)
  | dropped => cases moved

theorem Thread.step_write {next : WriteStage} {ids : List Nat} {thread : Thread}
    (moved : thread.step controller ids s = some (t, .write store next)) :
    ∃ stage, thread = .write store stage ∧
      writeStep controller store ids s stage = some (t, next) := by
  cases thread with
  | request self stage =>
    obtain ⟨⟨u, after⟩, -, same⟩ := map_eq_some_iff.mp moved
    cases (congrArg Prod.snd same)
  | write store stage =>
    obtain ⟨⟨u, after⟩, went, same⟩ := map_eq_some_iff.mp moved
    cases same
    exact ⟨stage, rfl, went⟩
  | dropped => cases moved

end Threads

namespace World

variable {controller : Option ControllerConfig} {w w' : World} {action : Action}

/-- Sending a command changes the channel alone. -/
theorem send_shared {command : Command} (sent : w.send controller command = some w') :
    ∃ channel, w' = { w with shared := { w.shared with channel } } := by
  obtain ⟨config, -, sent⟩ := bind_eq_some_iff.mp sent
  split at sent
  · cases sent
  · cases sent
    exact ⟨_, rfl⟩

/-- The actor is about to grant a store. -/
def Grants (w : World) (action : Action) (store : StoreId) (deadline : Nat) : Prop :=
  action = .actor .effect ∧
    ∃ effects, w.actor.effects = .register store (.activeUntil deadline) :: effects

/-- A grant comes from the actor, an entry from a request that stands at its insertion,
and an acknowledgement from a write that returns. -/
def sources (w : World) (action : Action) : Sources where
  elapsed := fun elapsed => action = .tick elapsed
  granted := w.Grants action
  cached := fun key entry => ∃ request, key = request.key ∧
    .request request (.insert entry.watermark entry.version) ∈ w.threads
  acknowledged := fun version => ∃ store, .write store (.acknowledge version) ∈ w.threads

section

variable (moved : w.step controller action = some w')

include moved

theorem step_move : Move w.shared (w.sources action) w'.shared := by
  cases action with
  | tick elapsed =>
    cases moved
    exact .tick elapsed rfl
  | commit store ids =>
    obtain ⟨continues, moved⟩ := ite_none_right_eq_some.mp moved
    cases moved
    exact .commit store ids continues
  | evictEntry key =>
    cases moved
    exact .evict key
  | evictRegistration store =>
    cases moved
    apply Move.control
    apply Control.register
    intro deadline active
    cases active
  | request | write =>
    cases moved
    exact .refl w.shared
  | thread index ids =>
    obtain ⟨thread, running, moved⟩ := bind_eq_some_iff.mp moved
    obtain ⟨⟨s, next⟩, stepped, moved⟩ := bind_eq_some_iff.mp moved
    cases moved
    have present := mem_of_getElem? running
    apply Thread.step_move _ _ stepped
    · intro request started version inserting
      exact ⟨request, rfl, inserting ▸ present⟩
    · intro store version returning
      exact ⟨store, returning ▸ present⟩
  | drop index =>
    obtain ⟨thread, running, moved⟩ := bind_eq_some_iff.mp moved
    split at moved <;> cases moved
    exact .refl w.shared
  | restart | stop =>
    obtain ⟨channel, rfl⟩ := send_shared moved
    exact .control (.local w.shared.running w.shared.ready channel w.shared.closed)
  | dropController =>
    cases moved
    exact .control (.local false w.shared.ready w.shared.channel w.shared.closed)
  | actor move =>
    obtain ⟨config, -, moved⟩ := bind_eq_some_iff.mp moved
    obtain ⟨⟨s, next⟩, stepped, moved⟩ := bind_eq_some_iff.mp moved
    cases moved
    apply Move.control
    apply (actorStep_control stepped).mono
    intro store deadline grants
    exact ⟨congrArg Action.actor grants.1, grants.2⟩

/-- What a step does to the actor and to the threads. -/
inductive Stepped (controller : Option ControllerConfig) (w : World) : Action → World → Prop where
  | thread {index : Nat} {ids : List Nat} {old next : Thread} {shared : Shared}
      (found : w.threads[index]? = some old)
      (went : old.step controller ids w.shared = some (shared, next)) :
      Stepped controller w (.thread index ids)
        { w with shared, threads := w.threads.set index next }
  | drop {index : Nat} {old : Thread} (found : w.threads[index]? = some old)
      (awaiting : old.awaits = true) :
      Stepped controller w (.drop index) { w with threads := w.threads.set index .dropped }
  | request (key : CacheKey) : Stepped controller w (.request key)
      { w with threads := w.threads ++ [w.spawnRequest controller key] }
  | write (store : StoreId) : Stepped controller w (.write store)
      { w with threads := w.threads ++ [spawnWrite controller store] }
  | actor {config : ControllerConfig} {move : ActorMove} {shared : Shared} {next : Actor}
      (known : controller = some config)
      (went : actorStep config w.shared w.actor move = some (shared, next)) :
      Stepped controller w (.actor move) { w with shared, actor := next }
  | aside (action : Action) (shared : Shared) : Stepped controller w action { w with shared }

theorem step_cases : Stepped controller w action w' := by
  cases action with
  | thread index ids =>
    obtain ⟨old, found, moved⟩ := bind_eq_some_iff.mp moved
    obtain ⟨⟨s, next⟩, went, ⟨⟩⟩ := bind_eq_some_iff.mp moved
    exact .thread found went
  | drop index =>
    obtain ⟨old, found, moved⟩ := bind_eq_some_iff.mp moved
    obtain ⟨awaiting, ⟨⟩⟩ := ite_none_right_eq_some.mp moved
    exact .drop found awaiting
  | actor move =>
    obtain ⟨config, known, moved⟩ := bind_eq_some_iff.mp moved
    obtain ⟨⟨s, next⟩, went, ⟨⟩⟩ := bind_eq_some_iff.mp moved
    exact .actor known went
  | request key =>
    cases moved
    exact .request key
  | write store =>
    cases moved
    exact .write store
  | commit store ids =>
    obtain ⟨-, ⟨⟩⟩ := ite_none_right_eq_some.mp moved
    exact .aside _ _
  | restart | stop =>
    obtain ⟨channel, rfl⟩ := send_shared moved
    exact .aside _ _
  | tick | evictEntry | evictRegistration | dropController =>
    cases moved
    exact .aside _ _

/-- Only the actor's own moves change the actor. -/
theorem step_actor :
    w'.actor = w.actor ∨ ∃ config move, controller = some config ∧ action = .actor move ∧
      actorStep config w.shared w.actor move = some (w'.shared, w'.actor) := by
  cases step_cases moved with
  | actor known went => exact .inr ⟨_, _, known, rfl, went⟩
  | thread | drop | request | write | aside => exact .inl rfl

/-- A thread changes only by its own steps, or is dropped at an await. -/
theorem step_thread {index : Nat} {thread : Thread} (running : w.threads[index]? = some thread) :
    w'.threads[index]? = some thread ∨
    (thread.awaits = true ∧ w'.threads[index]? = some .dropped) ∨
    ∃ ids next, thread.step controller ids w.shared = some (w'.shared, next) ∧
      w'.threads[index]? = some next := by
  have present : index < w.threads.length := (List.getElem?_eq_some_iff.mp running).1
  cases step_cases moved with
  | @thread other ids _ next _ found went =>
    by_cases same : other = index
    · subst same
      cases running.symm.trans found
      exact .inr (.inr ⟨ids, next, went, getElem?_set_self present⟩)
    · exact .inl ((getElem?_set_ne same).trans running)
  | @drop other _ found awaiting =>
    by_cases same : other = index
    · subst same
      cases running.symm.trans found
      exact .inr (.inl ⟨awaiting, getElem?_set_self present⟩)
    · exact .inl ((getElem?_set_ne same).trans running)
  | request | write => exact .inl ((getElem?_append_left present).trans running)
  | actor | aside => exact .inl running

/-- Where the threads of the next state come from. -/
theorem step_threads {thread : Thread} (running : thread ∈ w'.threads) :
    thread ∈ w.threads ∨ thread = .dropped ∨
    (∃ key, thread = w.spawnRequest controller key ∧ w'.shared = w.shared) ∨
    (∃ store, thread = spawnWrite controller store) ∨
    ∃ index ids old, action = .thread index ids ∧ w.threads[index]? = some old ∧
      old.step controller ids w.shared = some (w'.shared, thread) := by
  cases step_cases moved with
  | thread found went =>
    obtain before | rfl := mem_or_eq_of_mem_set running
    · exact .inl before
    · exact .inr (.inr (.inr (.inr ⟨_, _, _, rfl, found, went⟩)))
  | drop => exact (mem_or_eq_of_mem_set running).imp_right .inl
  | request key =>
    obtain before | fresh := mem_append.mp running
    · exact .inl before
    · exact .inr (.inr (.inl ⟨key, mem_singleton.mp fresh, rfl⟩))
  | write store =>
    obtain before | fresh := mem_append.mp running
    · exact .inl before
    · exact .inr (.inr (.inr (.inl ⟨store, mem_singleton.mp fresh⟩)))
  | actor | aside => exact .inl running

/-- A request of the next state has stood still, begins, or has made a step. -/
theorem step_requests (running : .request request stage ∈ w'.threads) :
    .request request stage ∈ w.threads ∨
    (∃ key, .request request stage = w.spawnRequest controller key ∧ w'.shared = w.shared) ∨
    ∃ earlier, .request request earlier ∈ w.threads ∧
      RequestCode controller request w.shared earlier w'.shared stage := by
  obtain before | gone | fresh | ⟨store, fresh⟩ | ⟨index, ids, old, -, found, stepped⟩ :=
    step_threads moved running
  · exact .inl before
  · cases gone
  · exact .inr (.inl fresh)
  · cases fresh
  · obtain ⟨earlier, rfl, code⟩ := Thread.step_request stepped
    exact .inr (.inr ⟨earlier, mem_of_getElem? found, code⟩)

end

end World

end OpenFga.Cache
