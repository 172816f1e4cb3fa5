import OpenFga.Cache.Actor

/-!
# Caches over a changing store

The decision and tuple caches of one process, the watermark they share, the handle of
the invalidation controller and its actor, as one machine. Requests, writes and the
actor interleave at every access to shared state; other processes commit changes at any
moment, the clock moves by any amount and cached items may be evicted. What a cached
value says is not modelled: an entry keeps the length of the changelog its value was
computed from, which is its `version`.

`flushed`, `acknowledged` and the fields of `Request` other than its key are
instrumentation: the length of the changelog at the last advance of the watermark, the
longest changelog a write returned for, and both at the start of a request.
-/

namespace OpenFga.Cache

inductive CacheKind where
  | decision
  | tuple
  deriving DecidableEq, Repr

structure CacheKey where
  kind : CacheKind
  store : StoreId
  fingerprint : Nat
  deriving DecidableEq, Repr

/-- A cached value: the changelog it was read from, and its generation. -/
structure Entry where
  version : Nat
  watermark : Nat
  deriving DecidableEq, Repr

/-- What the tasks of the process share. -/
structure Shared where
  clock : Nat
  log : List Change
  watermark : Nat
  entries : CacheKey → Option Entry
  registrations : StoreId → Option RegistrationState
  running : Bool
  ready : Bool
  channel : List Command
  closed : Bool
  flushed : Nat
  acknowledged : Nat

namespace Shared

variable (s : Shared)

def advance : Shared :=
  { s with watermark := (s.watermark + 1) % 2 ^ 64, flushed := s.log.length }

def register (store : StoreId) (state : Option RegistrationState) : Shared :=
  { s with registrations := Function.update s.registrations store state }

/-- The identifiers continue the changelog of the store. -/
def continues (store : StoreId) (ids : List Nat) : Bool :=
  decide (ids.Pairwise (· < ·)) &&
    ids.all fun id => s.log.all fun change => decide (change.store = store → change.id < id)

def commit (store : StoreId) (ids : List Nat) : Shared :=
  { s with log := s.log ++ ids.map fun id => ⟨store, id, s.clock⟩ }

end Shared

/-- Where the registration of a store stands. -/
inductive TrackStage where
  | lookup
  | unready
  | register
  | send
  | withdraw
  | flush
  deriving DecidableEq, Repr

/-- One step of the registration of a store; nothing is left when it is done. -/
def trackStep (config : ControllerConfig) (store : StoreId) (s : Shared) :
    TrackStage → Shared × Option TrackStage
  | .lookup => (s, if (s.registrations store).isSome then none else some .unready)
  | .unready => ({ s with ready := false }, some .register)
  | .register => (s.register store (some .pending), some .send)
  | .send =>
      if s.closed || decide (config.channelCapacity ≤ s.channel.length) then (s, some .withdraw)
      else ({ s with channel := s.channel ++ [.track store] }, none)
  | .withdraw => (s.register store none, some .flush)
  | .flush => (s.advance, none)

/-- Where the question for permission stands. -/
inductive PermitStage where
  | running
  | registration
  | deadline (deadline : Nat)
  | ready
  | expired
  | flush
  deriving DecidableEq, Repr

/-- One step of asking whether the store may be served from caches. -/
def permitStep (store : StoreId) (s : Shared) : PermitStage → Shared × (Bool ⊕ PermitStage)
  | .running => (s, if s.running then .inr .registration else .inl false)
  | .registration =>
      match s.registrations store with
      | some (.activeUntil deadline) => (s, .inr (.deadline deadline))
      | _ => (s, .inl false)
  | .deadline deadline => (s, .inr (if s.clock ≤ deadline then .ready else .expired))
  | .ready => (s, .inl s.ready)
  | .expired => ({ s with ready := false }, if s.ready then .inr .flush else .inl false)
  | .flush => (s.advance, .inl false)

/-- Where a request asks for permission. -/
inductive PermitSite where
  | lookup
  | hit (entry : Entry)
  | eligible (started version : Nat)
  | insert (started version : Nat)
  | inserted
  deriving DecidableEq, Repr

/-- Where a request stands, between two accesses. -/
inductive RequestStage where
  | track (stage : TrackStage)
  | permit (site : PermitSite) (stage : PermitStage)
  | before
  | entry (before : Nat)
  | after (before : Nat) (entry : Option Entry)
  | start
  | compute (started : Nat)
  | compare (started version : Nat)
  | insert (started version : Nat)
  | hit (entry : Entry)
  | finished
  deriving DecidableEq, Repr

def PermitSite.resume : PermitSite → Bool → RequestStage
  | .lookup, true => .before
  | .lookup, false => .start
  | .hit entry, true => .hit entry
  | .hit _, false => .start
  | .eligible started version, true => .compare started version
  | .eligible _ _, false => .finished
  | .insert started version, true => .insert started version
  | .insert _ _, false => .finished
  | .inserted, _ => .finished

/-- Without a controller every request is permitted. -/
def PermitSite.ask (controller : Option ControllerConfig) (site : PermitSite) : RequestStage :=
  match controller with
  | none => site.resume true
  | some _ => .permit site .running

/-- Goes on after a step of the registration. -/
def RequestStage.tracked (controller : Option ControllerConfig) : Option TrackStage → RequestStage
  | some stage => .track stage
  | none => PermitSite.lookup.ask controller

/-- Goes on after a step of asking for permission. -/
def PermitSite.answer (site : PermitSite) : Bool ⊕ PermitStage → RequestStage
  | .inl permitted => site.resume permitted
  | .inr stage => .permit site stage

/-- One cached decision or tuple read. -/
structure Request where
  key : CacheKey
  begun : Nat
  since : Nat
  deriving DecidableEq, Repr

/-- One step of a request. -/
def requestStep (controller : Option ControllerConfig) (request : Request) (s : Shared) :
    RequestStage → Option (Shared × RequestStage)
  | .track stage => do
      let config ← controller
      let (s, rest) := trackStep config request.key.store s stage
      some (s, .tracked controller rest)
  | .permit site stage =>
      let (s, answer) := permitStep request.key.store s stage
      some (s, site.answer answer)
  | .before => some (s, .entry s.watermark)
  | .entry before => some (s, .after before (s.entries request.key))
  | .after before entry =>
      match entry with
      | none => some (s, .start)
      | some entry =>
          if before = s.watermark ∧ entry.watermark = s.watermark then
            some (s, (PermitSite.hit entry).ask controller)
          else some (s, .start)
  | .start => some (s, .compute s.watermark)
  | .compute started =>
      some (s, match request.key.kind with
        | .decision => .compare started s.log.length
        | .tuple => (PermitSite.eligible started s.log.length).ask controller)
  | .compare started version =>
      some (s, if s.watermark = started then (PermitSite.insert started version).ask controller
        else .finished)
  | .insert started version =>
      some ({ s with entries := Function.update s.entries request.key (some ⟨version, started⟩) },
        match request.key.kind with
        | .decision => if s.watermark = started then PermitSite.inserted.ask controller
            else .finished
        | .tuple => .finished)
  | .hit _ => none
  | .finished => none

/-- Where a write stands. -/
inductive WriteStage where
  | track (stage : TrackStage)
  | storage
  | advance (version : Nat)
  | acknowledge (version : Nat)
  | finished
  deriving DecidableEq, Repr

def WriteStage.tracked : Option TrackStage → WriteStage
  | some stage => .track stage
  | none => .storage

/-- One step of a write. The storage applies it at one moment, and reports the
identifiers of the changes it made. -/
def writeStep (controller : Option ControllerConfig) (store : StoreId) (ids : List Nat)
    (s : Shared) : WriteStage → Option (Shared × WriteStage)
  | .track stage => do
      let config ← controller
      let (s, rest) := trackStep config store s stage
      some (s, .tracked rest)
  | .storage =>
      if s.continues store ids then
        let s := s.commit store ids
        some (s, if ids.isEmpty then .acknowledge s.log.length else .advance s.log.length)
      else none
  | .advance version => some (s.advance, .acknowledge version)
  | .acknowledge version =>
      some ({ s with acknowledged := max s.acknowledged version }, .finished)
  | .finished => none

/-- A task of the process. -/
inductive Thread where
  | request (request : Request) (stage : RequestStage)
  | write (store : StoreId) (stage : WriteStage)
  | dropped
  deriving DecidableEq, Repr

namespace Thread

def step (controller : Option ControllerConfig) (ids : List Nat) (s : Shared) :
    Thread → Option (Shared × Thread)
  | .request self stage =>
      (requestStep controller self s stage).map fun next => (next.1, .request self next.2)
  | .write store stage =>
      (writeStep controller store ids s stage).map fun next => (next.1, .write store next.2)
  | .dropped => none

/-- Standing at an await, where the future may be dropped. A write stands at one until
the answer of the storage has arrived, also when its changes are committed. -/
def awaits : Thread → Bool
  | .request _ (.entry _) | .request _ (.compute _) | .request _ (.insert _ _) => true
  | .write _ .storage | .write _ (.advance _) => true
  | _ => false

end Thread

/-- Performs one effect of the actor. -/
def perform (config : ControllerConfig) (actor : Actor) (s : Shared) : Effect → Shared
  | .setReady ready => { s with ready }
  | .setRunning running => { s with running }
  | .register store state => s.register store (some state)
  | .unregister store => s.register store none
  | .flush => s.advance
  | .updateReadiness => { s with ready := actor.ready config s.clock }
  | .close => { s with closed := true }

/-- What the actor may do next. The answers of the storage and the jitter of a backoff
are chosen by the environment. -/
inductive ActorMove where
  | effect
  | receive
  | poll (due : List StoreId)
  | proceed
  | page (items : List Change) (continuation : Bool) (percent : Nat)
  | readFailed (percent : Nat)
  | abort
  deriving DecidableEq, Repr

def jittered (percent : Nat) : Bool :=
  decide (80 ≤ percent) && decide (percent ≤ 120)

/-- Goes on after an await or a piece of code whose effects are performed. -/
def actorCode (config : ControllerConfig) (s : Shared) (actor : Actor) :
    ActorMove → Option (Shared × Actor)
  | .effect => none
  | .receive =>
      match actor.stage, s.channel with
      | .idle, command :: channel =>
          some ({ s with channel }, actor.receive config s.clock command)
      | _, [] | _, _ => none
  | .poll due =>
      if actor.stage = .idle ∧ s.channel = [] ∧ due.Perm (actor.dueStores s.clock) then
        some (s, actor.goTo [] (.polling due))
      else none
  | .proceed =>
      match actor.stage with
      | .polling due => some (s, actor.takeDue config s.clock due)
      | .reading store state pages changed due =>
          some (s, actor.goTo [] (.awaiting store state pages changed due s.log.length))
      | .succeeded store state due => some (s, actor.grant config s.clock store state due)
      | .backlogged store state due => some (s, actor.requeue config s.clock store state due)
      | .failed store state due percent =>
          some (s, actor.backOff config s.clock store state due percent)
      | .storing store state due => some (s, actor.putBack store state due)
      | _ => none
  | .page items continuation percent =>
      match actor.stage, jittered percent with
      | .awaiting store state pages changed due invoked, true =>
          some (s, actor.page store state due pages changed invoked items continuation percent)
      | _, _ => none
  | .readFailed percent =>
      match actor.stage, jittered percent with
      | .awaiting store state _ _ due _, true => some (s, actor.pollFailed store state due percent)
      | _, _ => none
  | .abort =>
      match actor.stage with
      | .idle | .awaiting _ _ _ _ _ _ => some (s, actor.aborted)
      | _ => none

/-- Effects that are owed come before anything else. -/
def actorStep (config : ControllerConfig) (s : Shared) (actor : Actor) (move : ActorMove) :
    Option (Shared × Actor) :=
  match actor.effects, move with
  | effect :: effects, .effect => some (perform config actor s effect, { actor with effects })
  | [], move => actorCode config s actor move
  | _ :: _, _ => none

/-- A process: its shared state and its tasks. -/
structure World where
  shared : Shared
  actor : Actor
  threads : List Thread

/-- A process that starts over a store with a changelog. Starting the controller
advances the watermark. -/
def World.start (controller : Option ControllerConfig) (clock : Nat)
    (log : List Change) : World where
  shared :=
    { clock, log, watermark := if controller.isSome then 1 else 0
      entries := fun _ => none
      registrations := fun _ => none
      running := true
      ready := true
      channel := []
      closed := false
      flushed := log.length
      acknowledged := 0 }
  actor := .new
  threads := []

/-- What happens in the process or to its store. -/
inductive Action where
  | tick (elapsed : Nat)
  | commit (store : StoreId) (ids : List Nat)
  | evictEntry (key : CacheKey)
  | evictRegistration (store : StoreId)
  | request (key : CacheKey)
  | write (store : StoreId)
  | thread (index : Nat) (ids : List Nat)
  | drop (index : Nat)
  | restart
  | stop
  | dropController
  | actor (move : ActorMove)
  deriving DecidableEq, Repr

namespace World

variable (controller : Option ControllerConfig) (w : World)

/-- Sends a command of the controller, which waits for room in the channel. -/
def send (command : Command) : Option World := do
  let config ← controller
  if w.shared.closed || decide (config.channelCapacity ≤ w.shared.channel.length) then none
  else some { w with shared := { w.shared with channel := w.shared.channel ++ [command] } }

/-- Where a thread begins: stores are registered only with a controller. -/
def spawnRequest (key : CacheKey) : Thread :=
  .request ⟨key, w.shared.clock, w.shared.acknowledged⟩
    (if controller.isSome then .track .lookup else .before)

def spawnWrite (store : StoreId) : Thread :=
  .write store (if controller.isSome then .track .lookup else .storage)

def step : Action → Option World
  | .tick elapsed => some { w with shared := { w.shared with clock := w.shared.clock + elapsed } }
  | .commit store ids =>
      if w.shared.continues store ids then some { w with shared := w.shared.commit store ids }
      else none
  | .evictEntry key =>
      some { w with
        shared := { w.shared with entries := Function.update w.shared.entries key none } }
  | .evictRegistration store => some { w with shared := w.shared.register store none }
  | .request key => some { w with threads := w.threads ++ [w.spawnRequest controller key] }
  | .write store => some { w with threads := w.threads ++ [spawnWrite controller store] }
  | .thread index ids => do
      let thread ← w.threads[index]?
      let (shared, thread) ← thread.step controller ids w.shared
      some { w with shared, threads := w.threads.set index thread }
  | .drop index => do
      let thread ← w.threads[index]?
      if thread.awaits then some { w with threads := w.threads.set index .dropped } else none
  | .restart => w.send controller .restart
  | .stop => w.send controller .stop
  | .dropController => some { w with shared := { w.shared with running := false } }
  | .actor move => do
      let config ← controller
      let (shared, actor) ← actorStep config w.shared w.actor move
      some { w with shared, actor }

end World

namespace Sample

def store : StoreId := ⟨"store"⟩

def decision : CacheKey := ⟨.decision, store, 0⟩

/-- The next steps of one thread. -/
def steps (index count : Nat) (ids : List Nat) : List Action :=
  List.replicate count (.thread index ids)

/-- A controller for one store, which polls it every moment and trusts it for four. -/
def policy : ControllerConfig where
  channelCapacity := 1
  pageSize := 1
  pollInterval := 1
  readTimeout := 1
  maximumLag := 4
  capacity_pos := by decide
  page_bounds := by decide
  poll_bounds := by decide
  read_bounds := by decide
  lag_bounds := by decide

end Sample

end OpenFga.Cache
