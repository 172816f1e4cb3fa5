import OpenFga.Model.Compiled

/-!
# The invalidation actor

A single actor polls the changelog of every tracked store and decides how long the
caches may serve it. Its code is cut at the points where other tasks can interfere.
Between two such points it works on its own state; what it does to the shared state is
an `Effect`, and a piece of its code hands out the effects it performs, in order.

Time is a natural number of nanoseconds. A change carries the moment it was committed,
and a store state the length of the changelog when the last read of its last caught-up
poll was invoked. Both are instrumentation: no decision of the actor looks at them.
-/

namespace OpenFga.Cache

/-- One entry of a changelog. -/
structure Change where
  store : StoreId
  id : Nat
  time : Nat
  deriving DecidableEq, Repr

def maximumInterval : Nat := 300000000000

def maximumPagesPerCycle : Nat := 4

/-- The validated policy of the actor. -/
structure ControllerConfig where
  channelCapacity : Nat
  pageSize : Nat
  pollInterval : Nat
  readTimeout : Nat
  maximumLag : Nat
  capacity_pos : 0 < channelCapacity
  page_bounds : 0 < pageSize ∧ pageSize ≤ 1000
  poll_bounds : 0 < pollInterval ∧ pollInterval ≤ maximumInterval
  read_bounds : 0 < readTimeout ∧ readTimeout ≤ maximumInterval
  lag_bounds : readTimeout * maximumPagesPerCycle ≤ maximumLag ∧ pollInterval ≤ maximumLag ∧
    maximumLag ≤ maximumInterval

/-- Whether a store is granted, and until when. -/
inductive RegistrationState where
  | pending
  | activeUntil (deadline : Nat)
  deriving DecidableEq, Repr

/-- What is sent to the controller. -/
inductive Command where
  | track (store : StoreId)
  | restart
  | stop
  deriving DecidableEq, Repr

/-- What the actor knows of a store. -/
structure StoreState where
  lastSeen : Option Nat
  lastSuccess : Nat
  nextPoll : Nat
  backoff : Nat
  initialized : Bool
  seen : Nat
  deriving DecidableEq, Repr

def StoreState.new (config : ControllerConfig) (now : Nat) : StoreState :=
  ⟨none, now, now, config.pollInterval, false, 0⟩

/-- What the actor does to the state it shares with the request path. -/
inductive Effect where
  | setReady (ready : Bool)
  | setRunning (running : Bool)
  | register (store : StoreId) (state : RegistrationState)
  | unregister (store : StoreId)
  | flush
  | updateReadiness
  | close
  deriving DecidableEq, Repr

/-- The effects of dropping the guard of the actor's task. -/
def runningGuard : List Effect := [.setReady false, .setRunning false]

/-- Where the actor stands once its effects are performed. A polled store is taken out
of the table of stores until its poll has ended. -/
inductive ActorStage where
  | idle
  | polling (due : List StoreId)
  | reading (store : StoreId) (state : StoreState) (pages : Nat) (changed : Bool)
      (due : List StoreId)
  | awaiting (store : StoreId) (state : StoreState) (pages : Nat) (changed : Bool)
      (due : List StoreId) (invoked : Nat)
  | succeeded (store : StoreId) (state : StoreState) (due : List StoreId)
  | backlogged (store : StoreId) (state : StoreState) (due : List StoreId)
  | failed (store : StoreId) (state : StoreState) (due : List StoreId) (percent : Nat)
  | storing (store : StoreId) (state : StoreState) (due : List StoreId)
  | stopped
  deriving DecidableEq, Repr

/-- The controller: its stores, and the effects it owes. -/
structure Actor where
  tracked : List StoreId
  stores : StoreId → Option StoreState
  effects : List Effect
  stage : ActorStage

def Actor.new : Actor := ⟨[], fun _ => none, [], .idle⟩

/-- The states of the stores in the table. -/
def Actor.states (actor : Actor) : List StoreState :=
  actor.tracked.filterMap actor.stores

section Code

variable (config : ControllerConfig) (now : Nat) (actor : Actor)

/-- A store polled successfully within the lag. -/
def StoreState.fresh (state : StoreState) : Bool :=
  state.initialized && decide (now - state.lastSuccess ≤ config.maximumLag)

def Actor.ready : Bool :=
  actor.states.all (StoreState.fresh config now)

/-- Hands out effects and goes on at a stage. -/
def Actor.goTo (effects : List Effect) (stage : ActorStage) : Actor :=
  { actor with effects, stage }

def Actor.track (store : StoreId) : Actor :=
  match actor.stores store with
  | some state =>
      let registration :=
        if state.fresh config now then .activeUntil (state.lastSuccess + config.maximumLag)
        else .pending
      actor.goTo [.register store registration, .updateReadiness] .idle
  | none =>
      if config.channelCapacity ≤ actor.tracked.length then
        actor.goTo [.unregister store, .flush, .updateReadiness] .idle
      else
        { actor with
          tracked := actor.tracked ++ [store]
          stores := Function.update actor.stores store (some (.new config now))
          effects := [.updateReadiness] }

def Actor.restartState : Actor :=
  { actor with
    stores := fun store => (actor.stores store).map fun _ => .new config now
    effects := actor.tracked.map (fun store => .register store .pending) ++
      [.flush, .updateReadiness] }

def Actor.receive : Command → Actor
  | .track store => actor.track config now store
  | .restart => actor.restartState config now
  | .stop => actor.goTo (.setReady false :: .setRunning false :: .close :: runningGuard) .stopped

/-- Ends the task at an await; the channel closes before the guard is dropped. -/
def Actor.aborted : Actor :=
  actor.goTo (.close :: runningGuard) .stopped

/-- The stores whose next poll is due. -/
def Actor.dueStores : List StoreId :=
  actor.tracked.filter fun store =>
    (actor.stores store).any fun state => decide (state.nextPoll ≤ now)

/-- Takes the next due store out of the table, or ends the round of polls. A store
beyond the lag is withdrawn before it is polled. -/
def Actor.takeDue : List StoreId → Actor
  | [] => actor.goTo [.updateReadiness] .idle
  | store :: due =>
      match actor.stores store with
      | none => actor.goTo [] (.polling due)
      | some state =>
          let effects : List Effect :=
            if config.maximumLag < now - state.lastSuccess then
              [.setReady false, .register store .pending, .flush]
            else []
          { actor with
            stores := Function.update actor.stores store none
            effects
            stage := .reading store state maximumPagesPerCycle false due }

/-- The identifiers increase strictly after the cursor and belong to the store. -/
def validateChanges (store : StoreId) : Option Nat → List Change → Bool
  | _, [] => true
  | previous, change :: changes =>
      decide (change.store = store) && previous.all (fun id => decide (id < change.id)) &&
        validateChanges store (some change.id) changes

section Poll

variable (store : StoreId) (state : StoreState) (due : List StoreId)

/-- A poll that could not read, or read a malformed page. -/
def Actor.pollFailed (percent : Nat) : Actor :=
  actor.goTo [.setReady false, .flush, .register store .pending]
    (.failed store { state with lastSeen := none, initialized := false } due percent)

/-- A poll that has read up to the end of the changelog. -/
def Actor.pollCaughtUp (changed : Bool) (invoked : Nat) : Actor :=
  actor.goTo (if changed then [.flush] else [])
    (.succeeded store { state with seen := invoked } due)

/-- A poll that has used up its pages. -/
def Actor.pollBacklogged (changed : Bool) : Actor :=
  actor.goTo (.setReady false :: if changed then [.flush] else [])
    (.backlogged store { state with initialized := false } due)

/-- Goes on with a page read from the changelog, more of which may follow it. -/
def Actor.page (pages : Nat) (changed : Bool) (invoked : Nat) (items : List Change)
    (continuation : Bool) (percent : Nat) : Actor :=
  if !validateChanges store state.lastSeen items then
    actor.pollFailed store state due percent
  else
    match items.getLast? with
    | none =>
        if continuation then actor.pollFailed store state due percent
        else actor.pollCaughtUp store state due changed invoked
    | some last =>
        let state := { state with lastSeen := some last.id }
        if !continuation then actor.pollCaughtUp store state due true invoked
        else if pages ≤ 1 then actor.pollBacklogged store state due true
        else actor.goTo [] (.reading store state (pages - 1) true due)

/-- Grants the store until the lag after this moment. -/
def Actor.grant : Actor :=
  actor.goTo [.register store (.activeUntil (now + config.maximumLag))]
    (.storing store
      { state with
        lastSuccess := now
        nextPoll := now + config.pollInterval
        backoff := config.pollInterval
        initialized := true } due)

/-- Backs off after a failed poll; the delay is a percentage of the backoff. -/
def Actor.backOff (percent : Nat) : Actor :=
  actor.goTo []
    (.storing store
      { state with
        nextPoll := now + state.backoff * percent / 100
        backoff := min (state.backoff * 2) config.maximumLag } due)

/-- Polls a backlogged store again at once. -/
def Actor.requeue : Actor :=
  actor.goTo [.register store .pending]
    (.storing store { state with nextPoll := now, backoff := config.pollInterval } due)

def Actor.putBack : Actor :=
  { actor with
    stores := Function.update actor.stores store (some state)
    stage := .polling due }

end Poll

end Code

end OpenFga.Cache
