import OpenFga.Coalescing.Accounts

/-!
# What a coalesced check may return

Every move of a request keeps the accounts. An error is always one of the request's own
evaluations. An answer is that of an evaluation of the same key, but a value that stays
in the in-flight map after its evaluation has ended is found by whoever looks it up:
requests that come too late share it, and a participant that is dropped before it removes
the value leaves it there. Where neither happens, answers are simultaneous.
-/

namespace OpenFga.Coalescing

open List Option Function World

variable {i : Nat} {v w' : World} {candidate' : Candidate} {value : SharedEvaluation} {source : Nat}
  {move : Move} {action : Action} {mode : Mode} {w : World}

section Moves

variable {orderly : Prop} {w : World} {index : Nat} {request : Request} {candidate : Candidate}

/-- No value is held at the stage. -/
def Stage.free : Stage → Bool
  | .holding _ _ => false
  | _ => true

theorem not_holds (held : request.candidate = some candidate) (free : candidate.stage.free = true)
    (key : CoalescingKey) : ¬ request.Holds key := by
  rintro ⟨_, other, held', _, value, source, stage⟩
  rw [held] at held'
  cases held'
  rw [stage] at free
  cases free

theorem World.compareAndMaybeKill_eq (w : World) (request : Request) (oracle candidate : Result) :
    ∃ killed, w.compareAndMaybeKill request oracle candidate = { w with killed } := by
  unfold compareAndMaybeKill
  split
  · exact ⟨true, rfl⟩
  · exact ⟨w.killed, rfl⟩

theorem flight_spec {key : CoalescingKey} (flight : w.flight key = some i) :
    ∃ e, w.evaluations[i]? = some e ∧ e.role = .shared ∧ e.progress = .running ∧ e.key = key := by
  obtain ⟨inside, chosen, _⟩ := findIdx?_eq_some_iff_getElem.mp flight
  refine ⟨_, getElem?_eq_getElem inside, ?_⟩
  split at chosen
  · rename_i role running
    exact ⟨role, running, of_decide_eq_true chosen⟩
  · cases chosen

/-- What an evaluation begun by the request is. -/
def News (index : Nat) (request : Request) (e : Evaluation) : Prop :=
  e.owner = index ∧ e.reader = request.reader ∧ e.key.tupleSource = request.key.tupleSource

/-- What the coalesced part of a request may do to the evaluations. -/
abbrev Extends (w : World) (index : Nat) (request : Request) (log : List Evaluation) : Prop :=
  Grows w.clock (fun e => e.owner = index ∧ e.role ≠ .oracle) (News index request) w.evaluations log

theorem concluded (running : w.evaluations[i]? = some e) (result : Result) :
    (w.conclude i result).evaluations[i]? =
      some { e with progress := .ended w.clock result } := by
  simp [conclude, running]

theorem yields_of_ended {log : List Evaluation} {now : Nat} {result : Result}
    (there : log[i]? = some e) (completed : e.progress = .ended now result) (late : begun ≤ now) :
    Yields orderly log now e.owner e.key e.reader begun result := by
  cases result with
  | ok decision => exact ⟨i, e, now, _, there, rfl, completed, rfl, le_rfl, fun _ => ⟨rfl, late⟩⟩
  | error error => exact ⟨i, e, now, there, rfl, completed⟩

/-- The coalesced part of a request goes on. -/
theorem advances_candidate (sound : request.Sound orderly w.evaluations w.clock index)
    (live : request.live = true) (requests : v.requests = w.requests) (clock : v.clock = w.clock)
    (grows : Extends w index request v.evaluations)
    (next : candidate'.Sound orderly v.evaluations v.clock index request)
    (published : ∀ key value source, v.completed key = some (value, source) →
      w.completed key = some (value, source) ∨
        Vouches False v.evaluations v.clock key 0 0 value source)
    (covered : orderly → ∀ key, v.completed key ≠ none →
      ({ request with candidate := some candidate' } : Request).Holds key ∨
        (w.completed key ≠ none ∧ ¬ request.Holds key)) :
    Advances orderly w (v.put index { request with candidate := some candidate' }) index request
      { request with candidate := some candidate' } where
  requests := by rw [← requests]; rfl
  clock := clock
  key := rfl
  reader := rfl
  grows :=
    { length := grows.length
      origin := fun i e' there => (grows.origin i e' there).imp_left
        fun ⟨e, found, onward, moved⟩ => ⟨e, found, onward, moved.imp_right And.left⟩ }
  sound := by
    have running := sound.running (isNone_iff_eq_none.mp live)
    refine ⟨clock.symm ▸ sound.begun, fun _ => ⟨fun stage held => ?_, fun other held => ?_⟩, ?_⟩
    · apply (running.oracle stage held).grow grows (le_of_eq clock.symm)
      intro e moved owned
      exact moved.2 owned.2
    · cases held
      exact ⟨next.stage, next.error, next.source, next.alone, next.verified⟩
    · intro time result ended
      rw [isNone_iff_eq_none.mp live] at ended
      cases ended
  ended := .inl live
  published := published
  covered := covered

/-- The map is left alone, and the request did not hold a value. -/
theorem advances_aside (sound : request.Sound orderly w.evaluations w.clock index)
    (live : request.live = true) (held : request.candidate = some candidate)
    (free : candidate.stage.free = true)
    (requests : v.requests = w.requests) (clock : v.clock = w.clock)
    (completed : v.completed = w.completed) (grows : Extends w index request v.evaluations)
    (next : candidate'.Sound orderly v.evaluations v.clock index request) :
    Advances orderly w (v.put index { request with candidate := some candidate' }) index request
      { request with candidate := some candidate' } := by
  apply advances_candidate sound live requests clock grows next
  · intro key value source there
    rw [completed] at there
    exact .inl there
  · intro _ key there
    rw [completed] at there
    exact .inr ⟨there, not_holds held free key⟩

/-- The request makes a move, whatever becomes of it. -/
abbrev Proceeds (orderly : Prop) (w v : World) (index : Nat) (request : Request) : Prop :=
  ∃ updated, Advances orderly w v index request updated

section Candidate

variable (sound : w.Sound orderly) (found : w.requests[index]? = some request)
  (live : request.live = true) (held : request.candidate = some candidate)

include sound found live held

theorem candidate_sound : candidate.Sound orderly w.evaluations w.clock index request :=
  ((sound.requests index request found).running (isNone_iff_eq_none.mp live)).candidate
    candidate held

theorem stage_sound {stage : Stage} (here : candidate.stage = stage) :
    stage.Sound orderly w.evaluations w.clock index candidate.key request.reader request.begun :=
  here ▸ (candidate_sound sound found live held).stage

/-- The request begins an evaluation of its candidate's key. -/
theorem launch_advances (free : candidate.stage.free = true)
    {role : Role} {stage : Stage} (begun : stage ≠ .starting)
    (next : Runs (w.launch index role candidate.key request.reader).evaluations index role
        candidate.key request.reader request.begun w.evaluations.length →
      stage.Sound orderly (w.launch index role candidate.key request.reader).evaluations w.clock
        index candidate.key request.reader request.begun) :
    Proceeds orderly w ((w.launch index role candidate.key request.reader).goTo index
      request candidate stage) index request := by
  have before := candidate_sound sound found live held
  have own := sound.requests index request found
  have grows : Extends w index request
      (w.launch index role candidate.key request.reader).evaluations :=
    grows_launch _ ⟨rfl, rfl, before.source⟩ rfl rfl
  refine ⟨_, advances_aside own live held free rfl rfl rfl grows
    ⟨next ⟨w.clock, own.begun, by simp [launch]⟩, ?_, before.source, before.alone,
      fun starting => absurd starting begun⟩⟩
  exact fun error failed => (before.error error failed).grow grows

theorem retry_advances (free : candidate.stage.free = true) :
    Proceeds orderly w (w.retry index request candidate) index request :=
  launch_advances sound found live held free nofun id

/-- Nothing but the stage changes. -/
theorem goTo_advances (free : candidate.stage.free = true)
    {stage : Stage} (begun : stage ≠ .starting)
    (next : stage.Sound orderly w.evaluations w.clock index candidate.key request.reader
      request.begun) :
    Proceeds orderly w (w.goTo index request candidate stage) index request := by
  have before := candidate_sound sound found live held
  exact ⟨_, advances_aside (sound.requests index request found) live held free rfl rfl rfl .refl
    ⟨next, before.error, before.source, before.alone, fun starting => absurd starting begun⟩⟩

/-- A request that joins a running evaluation has the same reader as its leader. -/
theorem waits_of_flight (flight : w.flight candidate.key = some i) :
    Waits orderly w.evaluations w.clock candidate.key request.reader request.begun i := by
  have before := candidate_sound sound found live held
  obtain ⟨e, there, _, running, same⟩ := flight_spec flight
  refine ⟨e, there, same, fun _ => ?_, fun time result completed => ?_⟩
  · obtain ⟨leader, led, alive, reader, source⟩ :=
      (sound.evaluations e (mem_of_getElem? there)).owned running
    rw [← reader]
    apply sound.readers leader (mem_of_getElem? led) request (mem_of_getElem? found)
      alive live
    rw [source, same, before.source]
  · rw [running] at completed
    cases completed

theorem enter_advances (stage : candidate.stage = .entering)
    (clear : orderly → w.completed candidate.key = none) :
    Proceeds orderly w (w.enter index request candidate) index request := by
  have free : candidate.stage.free = true := congrArg Stage.free stage
  unfold enter
  split
  · rename_i value source there
    refine goTo_advances sound found live held free nofun ?_
    obtain ⟨e, time, result, at_source, same, completed, shared, before, _⟩ :=
      sound.published _ value source there
    refine ⟨e, time, result, at_source, same, completed, shared, before, fun runs => ?_⟩
    rw [clear runs] at there
    cases there
  · split
    · rename_i i flight
      exact goTo_advances sound found live held free nofun
        (waits_of_flight sound found live held flight)
    · exact launch_advances sound found live held free nofun id

/-- The leader publishes what it has just evaluated. -/
theorem publish_advances (stage : candidate.stage = .leading i) (result : Result) :
    Proceeds orderly w (w.publish index request candidate i result) index request := by
  have before := candidate_sound sound found live held
  have own := sound.requests index request found
  obtain ⟨started, late, running⟩ := stage_sound sound found live held stage
  have grows : Extends w index request (w.conclude i result).evaluations :=
    grows_conclude running rfl ⟨rfl, nofun⟩
  have concluded := concluded running result
  have vouches : ∀ {runs : Prop} {reader begun : Nat}, (runs → request.reader = reader ∧
      begun ≤ w.clock) → Vouches runs (w.conclude i result).evaluations w.clock candidate.key
        reader begun (.ofResult result) i :=
    fun timely => ⟨_, w.clock, result, concluded, rfl, rfl, rfl, le_rfl, timely⟩
  refine ⟨_, advances_candidate own live rfl rfl grows
    ⟨?_, ?_, before.source, before.alone, nofun⟩ ?_ ?_⟩
  · exact vouches fun _ => ⟨rfl, own.begun⟩
  · intro error failed
    cases result with
    | ok decision => cases failed
    | error error' =>
      cases failed
      exact ⟨i, _, w.clock, concluded, rfl, rfl⟩
  · intro key value source there
    by_cases here : key = candidate.key
    · rw [here] at there ⊢
      change update w.completed _ _ _ = _ at there
      rw [update_self] at there
      cases there
      exact .inr (vouches False.elim)
    · change update w.completed _ _ _ = _ at there
      rw [update_of_ne here] at there
      exact .inl there
  · intro _ key there
    by_cases here : key = candidate.key
    · exact .inl ⟨live, _, rfl, here.symm, _, _, rfl⟩
    · change update w.completed _ _ _ ≠ _ at there
      rw [update_of_ne here] at there
      exact .inr ⟨there, not_holds held (congrArg Stage.free stage) key⟩

/-- A request returns from its own evaluation. -/
theorem settle_advances (stage : candidate.stage = .retrying i) (result : Result) :
    Proceeds orderly w (w.settle index request candidate i result) index request := by
  have before := candidate_sound sound found live held
  have own := sound.requests index request found
  obtain ⟨started, late, running⟩ := stage_sound sound found live held stage
  have concludes : Grows w.clock (fun e => e.owner = index ∧ e.role ≠ .oracle) (fun _ => False)
      w.evaluations (w.conclude i result).evaluations := grows_conclude running rfl ⟨rfl, nofun⟩
  have abandons : Grows w.clock (fun e => e.owner = index ∧ e.role ≠ .oracle)
      (News index request) (w.conclude i result).evaluations
      ((w.conclude i result).abandon fun e =>
        decide (e.owner = index ∧ e.role = .shared)).evaluations := by
    apply grows_abandon
    intro e chosen
    obtain ⟨owned, shared⟩ := of_decide_eq_true chosen
    exact ⟨owned, by rw [shared]; exact nofun⟩
  have grows := concludes.trans abandons
  have kept := abandons.ended (concluded running result) nofun
  refine ⟨_, advances_aside own live held (congrArg Stage.free stage) rfl rfl rfl grows
    ⟨?_, ?_, before.source, before.alone, nofun⟩⟩
  · exact yields_of_ended kept rfl own.begun
  · exact fun error failed => (before.error error failed).grow grows

theorem resolve_advances (stage : candidate.stage = .checking value source) :
    Proceeds orderly w (w.resolve index request candidate value) index request := by
  have before := candidate_sound sound found live held
  have vouches := stage_sound sound found live held stage
  have free : candidate.stage.free = true := congrArg Stage.free stage
  cases value with
  | outcome decision => exact goTo_advances sound found live held free nofun ⟨source, vouches⟩
  | error =>
    simp only [resolve]
    split
    · rename_i error failed
      exact ⟨_, advances_aside (sound.requests index request found) live held free rfl rfl rfl
        .refl ⟨before.error error failed, fun _ other => (by cases other), before.source,
          before.alone, nofun⟩⟩
    · exact retry_advances sound found live held free

theorem remove_advances (stage : candidate.stage = .holding value source) :
    ∃ updated, Advances orderly w
      ({ w with completed := update w.completed candidate.key none }.goTo index request
        candidate (.checking value source)) index request updated := by
  have before := candidate_sound sound found live held
  have vouches := stage_sound sound found live held stage
  refine ⟨_, advances_candidate (sound.requests index request found) live rfl rfl .refl
    ⟨vouches, before.error, before.source, before.alone, nofun⟩ ?_ ?_⟩
  · intro key value source there
    change update w.completed _ _ _ = _ at there
    by_cases here : key = candidate.key
    · rw [here, update_self] at there
      cases there
    · rw [update_of_ne here] at there
      exact .inl there
  · intro _ key there
    change update w.completed _ _ _ ≠ _ at there
    by_cases here : key = candidate.key
    · rw [here, update_self] at there
      exact absurd rfl there
    · rw [update_of_ne here] at there
      refine .inr ⟨there, ?_⟩
      rintro ⟨_, other, held', same, _⟩
      rw [held] at held'
      cases held'
      exact here same.symm

/-- Reloading the generation; only a request whose answer comes from the permanent
evaluator does it. -/
theorem capture_advances (stage : candidate.stage = .starting) :
    ∃ updated, Advances orderly w
      (w.goTo index request { candidate with
        key := { candidate.key with generation := w.generation } } .entering)
      index request updated := by
  have before := candidate_sound sound found live held
  exact ⟨_, advances_aside (sound.requests index request found) live held
    (congrArg Stage.free stage) rfl rfl rfl .refl ⟨trivial, before.error, before.source,
      fun alone => absurd alone (before.verified stage), nofun⟩⟩

theorem receive_advances (stage : candidate.stage = .waiting i) {e : Evaluation}
    (there : w.evaluations[i]? = some e) {time : Nat} {result : Result}
    (completed : e.progress = .ended time result) : Proceeds orderly w
      (w.goTo index request candidate (.holding (.ofResult result) i)) index request := by
  obtain ⟨e', there', same, readers, timely⟩ := stage_sound sound found live held stage
  cases there.symm.trans there'
  obtain ⟨past, late⟩ := timely time result completed
  exact goTo_advances sound found live held (congrArg Stage.free stage) nofun
    ⟨e, time, result, there, same, completed, rfl, past, fun runs => ⟨readers runs, late⟩⟩

/-- The condition on a move of a request. -/
def Request.Orderly (w : World) (request : Request) : Move → Prop
  | .enter => ∀ candidate, request.candidate = some candidate → w.completed candidate.key = none
  | .drop => ∀ key, ¬ request.Holds key
  | _ => True

theorem moveCandidate_advances (meets : orderly → request.Orderly w move)
    (moved : w.moveCandidate index request candidate move = some w') :
    Proceeds orderly w w' index request := by
  have retried : candidate.stage.free = true →
      some (w.retry index request candidate) = some w' → Proceeds orderly w w' index request := by
    intro free same
    cases same
    exact retry_advances sound found live held free
  unfold moveCandidate at moved
  split at moved
  case h_1 =>
    split at moved
    · rename_i stage
      cases moved
      exact capture_advances sound found live held stage
    · cases moved
  case h_2 =>
    split at moved
    · rename_i stage
      cases moved
      exact enter_advances sound found live held stage fun runs => meets runs candidate held
    · cases moved
  case h_3 =>
    split at moved
    · rename_i i stage
      split at moved
      · rename_i e there
        split at moved
        · rename_i time result completed
          cases moved
          exact receive_advances sound found live held stage there completed
        · cases moved
          exact goTo_advances sound found live held (congrArg Stage.free stage) nofun trivial
        · cases moved
      · cases moved
    · cases moved
  case h_4 =>
    split at moved
    · rename_i stage
      exact retried (congrArg Stage.free stage) moved
    · rename_i stage
      exact retried (congrArg Stage.free stage) moved
    · rename_i stage
      exact retried (congrArg Stage.free stage) moved
    · cases moved
  case h_5 =>
    split at moved
    · rename_i value source stage
      cases moved
      exact remove_advances sound found live held stage
    · cases moved
  case h_6 =>
    split at moved
    · rename_i value source stage
      split at moved
      · exact retried (congrArg Stage.free stage) moved
      · cases moved
        exact resolve_advances sound found live held stage
    · cases moved
  case h_7 =>
    split at moved
    · rename_i i stage
      cases moved
      exact publish_advances sound found live held stage _
    · rename_i i stage
      cases moved
      exact settle_advances sound found live held stage _
    · cases moved
  case h_8 => cases moved

end Candidate

section Requests

variable (sound : w.Sound orderly) (found : w.requests[index]? = some request)
  (live : request.live = true)

include sound found live

theorem running_sound : request.Running orderly w.evaluations w.clock index :=
  (sound.requests index request found).running (isNone_iff_eq_none.mp live)

theorem finishOracle_advances (stage : request.oracle = some (.running i)) (result : Result) :
    ∃ updated, Advances orderly w ((w.conclude i result).put index
      { request with oracle := some (.finished result) }) index request updated := by
  have own := sound.requests index request found
  have before := running_sound sound found live
  obtain ⟨started, late, running⟩ := before.oracle _ stage
  have grows : Grows w.clock (fun e => e.owner = index ∧ e.role = .oracle) (News index request)
      w.evaluations (w.conclude i result).evaluations := grows_conclude running rfl ⟨rfl, rfl⟩
  refine ⟨{ request with oracle := some (.finished result) }, {
    requests := rfl
    clock := rfl
    key := rfl
    reader := rfl
    grows :=
      { length := grows.length
        origin := fun i e' there => (grows.origin i e' there).imp_left
          fun ⟨e, found, onward, moved⟩ => ⟨e, found, onward, moved.imp_right And.left⟩ }
    sound := ⟨own.begun, fun _ => ⟨fun other held => ?_, fun candidate held => ?_⟩, ?_⟩
    ended := .inl live
    published := fun _ _ _ there => .inl there
    covered := fun _ key there => ?_ }⟩
  · cases held
    exact yields_of_ended (concluded running result) rfl own.begun
  · have kept := (before.candidate candidate held).grow grows le_rfl own.begun
      fun e moved _ => moved.2
    exact ⟨kept.stage, kept.error, kept.source, fun alone => (by cases alone),
      fun _ alone => (by cases alone)⟩
  · intro time result ended
    rw [isNone_iff_eq_none.mp live] at ended
    cases ended
  · by_cases holds : request.Holds key
    · exact .inl holds
    · exact .inr ⟨there, holds⟩

omit live in
/-- A request ends: it drops what it runs, and its answer stands. -/
theorem finish_advances {ending : Ending} (requests : v.requests = w.requests)
    (clock : v.clock = w.clock) (evaluations : v.evaluations = w.evaluations)
    (completed : v.completed = w.completed)
    (answer : ∀ time result, ending = .returned time result → time = w.clock ∧
      Yields orderly w.evaluations w.clock index request.key request.reader request.begun result)
    (free : orderly → ∀ key, ¬ request.Holds key) :
    Proceeds orderly w (v.finish index request ending) index request := by
  have own := sound.requests index request found
  have grows : Grows w.clock (fun e => e.owner = index) (News index request) w.evaluations
      (v.finish index request ending).evaluations := by
    rw [← evaluations]
    exact grows_abandon fun e chosen => of_decide_eq_true chosen
  refine ⟨{ request with ending := some ending }, {
    requests := by rw [← requests]; rfl
    clock := clock
    key := rfl
    reader := rfl
    grows := grows
    sound := ⟨?_, nofun, fun time result ended => ?_⟩
    ended := .inr fun e member owned running => ?_
    published := fun key value source there => .inl (by rw [← completed]; exact there)
    covered := fun runs key there => .inr ⟨by rw [← completed]; exact there, free runs key⟩ }⟩
  · exact own.begun.trans (le_of_eq clock.symm)
  · cases ended
    obtain ⟨rfl, yields⟩ := answer time result rfl
    exact ⟨le_of_eq clock.symm, yields.grow grows le_rfl⟩
  · obtain ⟨old, _, changed⟩ := mem_map.mp member
    split at changed
    · rename_i before
      split at changed
      · rw [← changed] at running
        cases running
      · rename_i spared
        rw [changed] at spared
        exact spared (decide_eq_true owned)
    · rename_i completed
      rw [changed] at completed
      exact completed running

theorem join_advances (joined : w.join index request = some w') :
    Proceeds orderly w w' index request := by
  have before := running_sound sound found live
  unfold World.join at joined
  split at joined
  · rename_i oracle stage alone
    cases joined
    refine finish_advances sound found rfl rfl rfl rfl (fun time result same => ?_) ?_
    · cases same
      exact ⟨rfl, before.oracle _ stage⟩
    · rintro _ key ⟨_, candidate, held, _⟩
      rw [alone] at held
      cases held
  · rename_i key error candidate alone held
    cases joined
    have sound' := before.candidate _ held
    refine finish_advances sound found rfl rfl rfl rfl (fun time result same => ?_)
      fun _ => not_holds held rfl
    cases same
    have stage := sound'.stage
    rw [sound'.alone alone] at stage
    exact ⟨rfl, stage⟩
  · rename_i oracle key error candidate stage held
    cases joined
    obtain ⟨killed, compared⟩ := w.compareAndMaybeKill_eq request oracle candidate
    rw [compared]
    refine finish_advances sound found rfl rfl rfl rfl (fun time result same => ?_)
      fun _ => not_holds held rfl
    cases same
    exact ⟨rfl, before.oracle _ stage⟩
  · cases joined

theorem move_advances (meets : orderly → request.Orderly w move)
    (moved : w.move index request move = some w') : Proceeds orderly w w' index request := by
  unfold World.move at moved
  split at moved
  · unfold finishOracle at moved
    split at moved
    · rename_i i stage
      cases moved
      exact finishOracle_advances sound found live stage _
    · cases moved
  · exact join_advances sound found live moved
  · cases moved
    exact finish_advances sound found rfl rfl rfl rfl (fun _ _ same => by cases same) meets
  · obtain ⟨candidate, held, moved⟩ := bind_eq_some_iff.mp moved
    exact moveCandidate_advances sound found live held meets moved

end Requests

end Moves

section Steps

variable {orderly : Prop} {w : World}

theorem sound_start (mode : Mode) : (start mode).Sound orderly where
  evaluations _ member := absurd member not_mem_nil
  requests _ _ found := absurd (mem_of_getElem? found) not_mem_nil
  readers _ member := absurd member not_mem_nil
  published key value source there := by
    change none = some _ at there
    cases there
  covered _ _ there := absurd rfl there

/-- A new request, with the evaluation it may start with. -/
structure Arrives (orderly : Prop) (w w' : World) (arrived : Request) : Prop where
  requests : w'.requests = w.requests ++ [arrived]
  clock : w'.clock = w.clock
  completed : w'.completed = w.completed
  live : arrived.live = true
  begun : arrived.begun = w.clock
  fresh : ∀ request ∈ w.requests, request.live = true →
    request.key.tupleSource = arrived.key.tupleSource → request.reader = arrived.reader
  grows : Grows w.clock (fun _ => False) (News w.requests.length arrived) w.evaluations
    w'.evaluations
  running : arrived.Running orderly w'.evaluations w'.clock w.requests.length

theorem Arrives.preserves {arrived : Request} (arrives : Arrives orderly w w' arrived)
    (sound : w.Sound orderly) : w'.Sound orderly where
  evaluations e member := by
    obtain ⟨i, there⟩ := mem_iff_getElem?.mp member
    rcases arrives.grows.origin i e there with ⟨e₀, there₀, _, same | none⟩ | ⟨_, new,
      started, running⟩
    · cases same
      have before := sound.evaluations e (mem_of_getElem? there₀)
      refine ⟨by rw [arrives.clock]; exact before.started, before.ended, fun running => ?_⟩
      obtain ⟨holder, held, rest⟩ := before.owned running
      refine ⟨holder, ?_, rest⟩
      rw [arrives.requests, List.getElem?_append_left (List.getElem?_eq_some_iff.mp held).1, held]
    · exact none.elim
    · refine ⟨by rw [arrives.clock, started], fun time result completed => ?_, fun _ => ?_⟩
      · rw [running] at completed
        cases completed
      · refine ⟨arrived, ?_, arrives.live, new.2.1.symm, new.2.2.symm⟩
        rw [arrives.requests, new.1, getElem?_concat_length]
  requests i request there := by
    rw [arrives.requests] at there
    rcases lt_or_ge i w.requests.length with inside | outside
    · rw [getElem?_append_left inside] at there
      exact (sound.requests i request there).grow arrives.grows (le_of_eq arrives.clock.symm)
        fun e moved => moved.elim
    · have last : i = w.requests.length := by
        have bound := (List.getElem?_eq_some_iff.mp there).1
        rw [length_append, length_singleton] at bound
        omega
      rw [last, getElem?_concat_length] at there
      cases there
      rw [last]
      refine ⟨by rw [arrives.begun, arrives.clock], fun _ => arrives.running, ?_⟩
      intro time result ended
      rw [isNone_iff_eq_none.mp arrives.live] at ended
      cases ended
  readers first member second member' alive alive' same := by
    rw [arrives.requests] at member member'
    rcases mem_append.mp member with old | new
    · rcases mem_append.mp member' with old' | new'
      · exact sound.readers first old second old' alive alive' same
      · rw [mem_singleton.mp new'] at same ⊢
        exact arrives.fresh first old alive same
    · rw [mem_singleton.mp new] at same ⊢
      rcases mem_append.mp member' with old' | new'
      · exact (arrives.fresh second old' alive' same.symm).symm
      · rw [mem_singleton.mp new']
  published key value source there := by
    rw [arrives.completed] at there
    exact (sound.published key value source there).grow arrives.grows
      (le_of_eq arrives.clock.symm)
  covered runs key there := by
    rw [arrives.completed] at there
    obtain ⟨holder, member, holds⟩ := sound.covered runs key there
    exact ⟨holder, by rw [arrives.requests]; exact mem_append_left _ member, holds⟩

variable (orderly) in
theorem spawn_arrives {call : CheckCall} (fresh : w.fresh call.reader = true) :
    ∃ arrived, Arrives orderly w (w.spawn call) arrived := by
  have readers : ∀ request ∈ w.requests, request.live = true →
      request.key.tupleSource = call.reader.address → request.reader = call.reader.id := by
    intro request member live same
    have checked := all_eq_true.mp fresh request member
    rw [live] at checked
    exact of_decide_eq_true checked same
  have launched : Runs (w.launch w.requests.length .oracle (.new call w.generation)
      call.reader.id).evaluations w.requests.length .oracle (.new call w.generation)
        call.reader.id w.clock w.evaluations.length :=
    ⟨w.clock, le_rfl, by simp [launch]⟩
  let request (oracle : Option OracleStage) (candidate : Option Candidate) : Request :=
    ⟨.new call w.generation, call.reader.id, w.clock, oracle, candidate, none⟩
  have arrives : ∀ {v : World} (oracle candidate),
      v.requests = w.requests ++ [request oracle candidate] →
      v.clock = w.clock → v.completed = w.completed →
      Grows w.clock (fun _ => False) (News w.requests.length (request oracle candidate))
        w.evaluations v.evaluations →
      (request oracle candidate).Running orderly v.evaluations v.clock w.requests.length →
      ∃ arrived, Arrives orderly w v arrived :=
    fun _ _ requests clock completed grows running =>
      ⟨_, requests, clock, completed, rfl, rfl, readers, grows, running⟩
  unfold spawn
  split
  · refine arrives (some (.running w.evaluations.length)) none rfl rfl rfl
      (grows_launch _ ⟨rfl, rfl, rfl⟩ rfl rfl) ⟨?_, by rintro candidate ⟨⟩⟩
    rintro stage ⟨⟩
    exact launched
  · dsimp only
    split
    · refine arrives (some (.running w.evaluations.length))
        (some ⟨.new call w.generation, none, .starting⟩) rfl rfl rfl
        (grows_launch _ ⟨rfl, rfl, rfl⟩ rfl rfl) ⟨?_, ?_⟩
      · rintro stage ⟨⟩
        exact launched
      · rintro candidate ⟨⟩
        exact ⟨trivial, fun _ failed => (by cases failed), rfl, fun alone => (by cases alone),
          fun _ alone => (by cases alone)⟩
    · refine arrives none (some ⟨.new call w.generation, none, .entering⟩) rfl rfl rfl .refl
        ⟨by rintro stage ⟨⟩, ?_⟩
      rintro candidate ⟨⟩
      exact ⟨trivial, fun _ failed => (by cases failed), rfl, fun _ => rfl,
        fun starting => (by cases starting)⟩

/-- An action looks no key up that has a value in the map, and drops no request that has
received a value before it removed it. -/
def World.Orderly (w : World) : Action → Prop
  | .request index move =>
      ∀ request, w.requests[index]? = some request → request.Orderly w move
  | _ => True

section

variable (sound : w.Sound orderly)

include sound

theorem World.Sound.tick : { w with clock := w.clock + 1 }.Sound orderly := by
  have unmoved : Grows w.clock (fun _ => False) (fun _ => False) w.evaluations w.evaluations :=
    .refl
  exact { sound with
    evaluations := fun e member =>
      { sound.evaluations e member with
        started := (sound.evaluations e member).started.trans (Nat.le_succ _) }
    requests := fun i request there =>
      (sound.requests i request there).grow unmoved (Nat.le_succ _) fun e moved => moved.elim
    published := fun key value source there =>
      (sound.published key value source there).grow unmoved (Nat.le_succ _) }

/-- The generation and the kill switch do not matter. -/
theorem World.Sound.setting {killed : Bool} {generation : UInt64} :
    { w with killed, generation }.Sound orderly :=
  { sound with evaluations := fun e member => { sound.evaluations e member with } }

theorem World.Sound.evict (key : CoalescingKey) :
    { w with completed := update w.completed key none }.Sound orderly := by
  have older : ∀ other found, update w.completed key none other = some found →
      w.completed other = some found := by
    intro other found there
    by_cases here : other = key
    · rw [here, update_self] at there
      cases there
    · rwa [update_of_ne here] at there
  exact { sound with
    evaluations := fun e member => { sound.evaluations e member with }
    published := fun other value source there => sound.published other value source
      (older _ _ there)
    covered := fun runs other there => by
      obtain ⟨found, present⟩ := ne_none_iff_exists'.mp there
      exact sound.covered runs other (ne_none_iff_exists'.mpr ⟨found, older _ _ present⟩) }

theorem act_sound (meets : orderly → w.Orderly action) (acted : w.act action = some w') :
    w'.Sound orderly := by
  cases action with
  | invalidate | disable =>
    cases acted
    exact sound.setting
  | evict key =>
    cases acted
    exact sound.evict key
  | spawn call =>
    change (if w.fresh call.reader then some (w.spawn call) else none) = some w' at acted
    split at acted
    · rename_i fresh
      cases acted
      obtain ⟨arrived, arrives⟩ := spawn_arrives orderly fresh
      exact arrives.preserves sound
    · cases acted
  | request index move =>
    obtain ⟨request, found, acted⟩ := bind_eq_some_iff.mp acted
    split at acted
    · rename_i live
      obtain ⟨updated, advances⟩ := move_advances sound found live
        (fun runs => meets runs request found) acted
      exact advances.preserves sound found live
    · cases acted

theorem step_sound (meets : orderly → w.Orderly action) (stepped : w.step action = some w') :
    w'.Sound orderly := by
  obtain ⟨next, acted, same⟩ := map_eq_some_iff.mp stepped
  rw [← same]
  exact (act_sound sound meets acted).tick

end

end Steps

open Machine

/-- Every request of a run whose actions are orderly is accounted for. -/
theorem reaches_sound (reached : Reaches step World.Orderly (.start mode) w) : w.Sound True :=
  reached.invariant (World.Sound True)
    (fun _ _ _ sound meets stepped => step_sound sound (fun _ => meets) stepped)
    (sound_start mode)

/-- Whatever the run, what is returned comes from an evaluation of the key. -/
theorem reaches_sound_any {meets : World → Action → Prop}
    (reached : Reaches step meets (.start mode) w) : w.Sound False :=
  reached.invariant (World.Sound False)
    (fun _ _ _ sound _ stepped => step_sound sound False.elim stepped) (sound_start mode)

/-- The evaluation ran at some moment while the request did, and gave its answer. -/
def Evaluation.Answers (e : Evaluation) (request : Request) (returned : Nat)
    (decision : Decision) : Prop :=
  e.key = request.key ∧ e.reader = request.reader ∧
    ∃ time, e.progress = .ended time (.ok decision) ∧ request.begun ≤ time ∧ e.started ≤ time ∧
      time ≤ returned

/-- No participant of the key is under way. -/
def World.Quiet (w : World) (key : CoalescingKey) : Prop :=
  ∀ request ∈ w.requests, ∀ candidate, request.candidate = some candidate → candidate.key = key →
    request.live = true → ∃ result, candidate.stage = .finished result

/-- Errors are never shared. As long as no request looks a key up while its value is in the
map, and none is dropped between receiving a value and removing it, an answer comes from an
evaluation that ran during the request, and no value outlives the participants. -/
theorem coalesced_answers_are_simultaneous (mode : Mode) :
    (∀ w, Reaches step (fun _ _ => True) (.start mode) w →
      ∀ (index : Nat) (request : Request) (time : Nat) (error : CheckError),
        w.requests[index]? = some request →
        request.ending = some (.returned time (.error error)) →
          ∃ e ∈ w.evaluations, e.owner = index ∧ ∃ ended, e.progress = .ended ended
            (.error error)) ∧
    ∀ w, Reaches step World.Orderly (.start mode) w →
      (∀ request ∈ w.requests, ∀ time decision,
        request.ending = some (.returned time (.ok decision)) →
          ∃ e ∈ w.evaluations, e.Answers request time decision) ∧
      ∀ key, w.Quiet key → w.completed key = none := by
  refine ⟨fun w reached index request time error found ended => ?_, fun w reached => ⟨?_, ?_⟩⟩
  · have sound := (reaches_sound_any reached).requests index request found
    obtain ⟨_, i, e, completed, there, owned, failed⟩ := sound.returned time _ ended
    exact ⟨e, mem_of_getElem? there, owned, completed, failed⟩
  · intro request member time decision ended
    have sound := reaches_sound reached
    obtain ⟨index, found⟩ := mem_iff_getElem?.mp member
    obtain ⟨_, source, e, completed, result, there, same, finished, shared, before, timely⟩ :=
      (sound.requests index request found).returned time _ ended
    have answered : result = .ok decision := by
      cases result with
      | ok other =>
        cases shared
        rfl
      | error _ => cases shared
    rw [answered] at finished
    have inside := mem_of_getElem? there
    obtain ⟨reader, late⟩ := timely trivial
    exact ⟨e, inside, same, reader, completed, finished, late,
      (sound.evaluations e inside).ended completed _ finished, before⟩
  · intro key quiet
    by_contra present
    obtain ⟨request, member, live, candidate, held, same, value, source, stage⟩ :=
      (reaches_sound reached).covered trivial key present
    obtain ⟨result, finished⟩ := quiet request member candidate held same live
    rw [stage] at finished
    cases finished

/-- The condition on an action, as a check. -/
def World.orderly (w : World) : Action → Bool
  | .request index .enter => w.requests[index]?.all fun request =>
      request.candidate.all fun candidate => (w.completed candidate.key).isNone
  | .request index .drop => w.requests[index]?.all fun request =>
      request.candidate.all fun candidate =>
        match candidate.stage with
        | .holding _ _ => false
        | _ => true
  | _ => true

theorem orderly_of_check (w : World) (action : Action) (checked : w.orderly action = true) :
    w.Orderly action := by
  cases action with
  | request index move =>
    intro request found
    cases move with
    | enter =>
      intro candidate held
      simp only [orderly, found, held, all_some] at checked
      exact isNone_iff_eq_none.mp checked
    | drop =>
      rintro key ⟨_, candidate, held, _, value, source, stage⟩
      simp [orderly, found, held, stage] at checked
    | _ => trivial
  | _ => trivial

namespace Sample

def call : CheckCall where
  decision := ⟨⟨"store"⟩, ⟨replicate 32 0, rfl⟩⟩
  budget := ⟨.of 10, .of 10, .of 10, .of 10, .of 10, .of 10⟩
  reader := ⟨0, 4096⟩
  higherConsistency := false
  metered := false

def allowed : Decision := .allow .direct

/-- The first request after the start is verified; it is dropped at once. -/
def arriving : List Action := [.spawn call, .request 0 .drop]

/-- Takes a received value out of the map and returns it. -/
def taking (index : Nat) : List Action :=
  [.request index .remove, .request index (.resolve false), .request index .join]

/-- Two requests share one evaluation. -/
def sharing : List Action :=
  arriving ++ [.spawn call, .spawn call, .request 1 .enter, .request 2 .enter,
    .request 1 (.finishCandidate (.ok allowed)), .request 2 .receive] ++ taking 1 ++ taking 2

/-- The second request comes when the evaluation is over. -/
def late : List Action :=
  arriving ++ [.spawn call, .request 1 .enter, .request 1 (.finishCandidate (.ok allowed)),
    .spawn call, .request 2 .enter] ++ taking 2

/-- The leader is dropped before it removes its value. -/
def leaving : List Action :=
  arriving ++ [.spawn call, .request 1 .enter, .request 1 (.finishCandidate (.ok allowed)),
    .request 1 .drop]

def world (actions : List Action) : World :=
  final step (fun _ _ => true) (.start .enabled) actions

def orderlyWorld : World :=
  final step orderly (.start .enabled) sharing

end Sample

theorem coalesced_answers_are_simultaneous_shared :
    ∃ request ∈ Sample.orderlyWorld.requests,
      request.ending = some (.returned 13 (.ok Sample.allowed)) ∧
        ∃ e ∈ Sample.orderlyWorld.evaluations, e.Answers request 13 Sample.allowed := by
  have reached : Reaches step World.Orderly (.start .enabled) Sample.orderlyWorld :=
    reaches_final orderly orderly_of_check Sample.sharing (by decide +kernel)
  have answers := ((coalesced_answers_are_simultaneous .enabled).2 _ reached).1
  have member : ∃ request ∈ Sample.orderlyWorld.requests,
      request.ending = some (.returned 13 (.ok Sample.allowed)) :=
    ⟨_, mem_of_getElem? (i := 2) rfl, rfl⟩
  obtain ⟨request, member, ended⟩ := member
  exact ⟨request, member, ended, answers request member 13 Sample.allowed ended⟩

/-- A request is answered by an evaluation that was over when it came, and a value stays in
the map when nobody is left to remove it. -/
theorem published_value_outlives_evaluation :
    (∃ w, Reaches step (fun _ _ => True) (.start .enabled) w ∧
      ∃ request ∈ w.requests, ∃ time decision,
        request.ending = some (.returned time (.ok decision)) ∧
          ∀ e ∈ w.evaluations, ¬ e.Answers request time decision) ∧
    ∃ w key, Reaches step (fun _ _ => True) (.start .enabled) w ∧ w.Quiet key ∧
      w.completed key ≠ none := by
  refine ⟨⟨Sample.world Sample.late, reaches_final_any _ (by decide +kernel), ?_⟩,
    ⟨Sample.world Sample.leaving, .new Sample.call 0, reaches_final_any _ (by decide +kernel), ?_,
    ?_⟩⟩
  · refine ⟨_, mem_of_getElem? (i := 2) rfl, 9, Sample.allowed, rfl, ?_⟩
    -- The request began at 5, when every evaluation was over.
    have completed : (Sample.world Sample.late).evaluations.all (fun e =>
        match e.progress with
        | .ended time _ => decide (time < 5)
        | _ => true) = true := rfl
    rintro e member ⟨_, _, time, ended, begun, _⟩
    have early := all_eq_true.mp completed e member
    simp only [ended, decide_eq_true_eq] at early
    exact absurd begun (Nat.not_le.mpr early)
  · have gone : (Sample.world Sample.leaving).requests.all (fun request => !request.live) = true :=
      rfl
    intro request member candidate held same live
    have completed := all_eq_true.mp gone request member
    rw [live] at completed
    cases completed
  · exact nofun

end OpenFga.Coalescing
