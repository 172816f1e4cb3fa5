import OpenFga.Coalescing.World

/-!
# Accounts of the evaluations

Each stage of a request rests on facts about recorded evaluations: which one it runs,
which one it waits for, where its value comes from. The record only grows. Evaluations
are added, and a running one ends or is dropped, once; so a fact about what has ended
stays, and a fact about what runs stays unless its owner acts.

Whether an answer is timely depends on how the in-flight map was used. The accounts
carry that part under a proposition, `orderly`, which is `False` for arbitrary runs.
-/

namespace OpenFga.Coalescing

open List

variable {touched news : Evaluation → Prop} {log log' : List Evaluation} {orderly : Prop} {i : Nat}
  {e : Evaluation}

section Log

/-- An evaluation goes on: it may end or be dropped, once. -/
def Evaluation.Onward (now : Nat) (e e' : Evaluation) : Prop :=
  e' = e ∨ e.progress = .running ∧ (e' = { e with progress := .abandoned } ∨
    ∃ result, e' = { e with progress := .ended now result })

/-- How the recorded evaluations change: those that change are `touched`, and those that
begin are `news`. -/
structure Grows (now : Nat) (touched news : Evaluation → Prop) (log log' : List Evaluation) :
    Prop where
  length : log.length ≤ log'.length
  origin : ∀ (i : Nat) (e' : Evaluation), log'[i]? = some e' →
    (∃ e, log[i]? = some e ∧ e.Onward now e' ∧ (e' = e ∨ touched e)) ∨
      (log[i]? = none ∧ news e' ∧ e'.started = now ∧ e'.progress = .running)

variable {now : Nat}

theorem Grows.refl : Grows now touched news log log where
  length := le_rfl
  origin _ e' found := .inl ⟨e', found, .inl rfl, .inl rfl⟩

section

variable (grows : Grows now touched news log log')

include grows

theorem Grows.kept (found : log[i]? = some e) :
    ∃ e', log'[i]? = some e' ∧ e.Onward now e' ∧ (e' = e ∨ touched e) := by
  have inside : i < log'.length :=
    (List.getElem?_eq_some_iff.mp found).1.trans_le grows.length
  have there := getElem?_eq_getElem inside
  rcases grows.origin i _ there with ⟨e₀, found₀, onward⟩ | ⟨missing, _⟩
  · cases found.symm.trans found₀
    exact ⟨_, there, onward⟩
  · rw [found] at missing
    cases missing

/-- What has ended stays as it is. -/
theorem Grows.ended (found : log[i]? = some e) (completed : e.progress ≠ .running) :
    log'[i]? = some e := by
  obtain ⟨e', found', same | ⟨running, _⟩, _⟩ := grows.kept found
  · rw [found', same]
  · exact absurd running completed

theorem Grows.untouched (found : log[i]? = some e) (unmoved : ¬ touched e) : log'[i]? = some e := by
  obtain ⟨e', found', _, same | moved⟩ := grows.kept found
  · rw [found', same]
  · exact absurd moved unmoved

end

theorem grows_launch (e : Evaluation) (new : news e) (started : e.started = now)
    (running : e.progress = .running) : Grows now touched news log (log ++ [e]) where
  length := by simp
  origin i e' found := by
    rcases lt_or_ge i log.length with inside | outside
    · rw [getElem?_append_left inside] at found
      exact .inl ⟨e', found, .inl rfl, .inl rfl⟩
    · rw [getElem?_append_right outside] at found
      have same := mem_singleton.mp (mem_of_getElem? found)
      rw [same]
      exact .inr ⟨getElem?_eq_none outside, new, started, running⟩

theorem grows_conclude {result : Result} (found : log[i]? = some e)
    (running : e.progress = .running) (moved : touched e) : Grows now touched news log
      (log.modify i fun e => { e with progress := .ended now result }) where
  length := by simp
  origin j e' found' := by
    rw [getElem?_modify] at found'
    obtain ⟨e₀, found₀, changed⟩ := Option.map_eq_some_iff.mp found'
    by_cases here : i = j
    · cases here
      cases found.symm.trans found₀
      rw [if_pos rfl] at changed
      exact .inl ⟨e, found, .inr ⟨running, .inr ⟨result, changed.symm⟩⟩, .inr moved⟩
    · rw [if_neg here] at changed
      exact .inl ⟨e₀, found₀, .inl changed.symm, .inl changed.symm⟩

theorem grows_abandon {dropped : Evaluation → Bool} (moved : ∀ e, dropped e = true → touched e) :
    Grows now touched news log (log.map fun e =>
      match e.progress with
      | .running => if dropped e then { e with progress := .abandoned } else e
      | _ => e) where
  length := by simp
  origin i e' found := by
    rw [getElem?_map] at found
    obtain ⟨e, found, changed⟩ := Option.map_eq_some_iff.mp found
    refine .inl ⟨e, found, ?_⟩
    split at changed
    · rename_i running
      split at changed
      · rename_i chosen
        exact ⟨.inr ⟨running, .inl changed.symm⟩, .inr (moved e chosen)⟩
      · exact ⟨.inl changed.symm, .inl changed.symm⟩
    · exact ⟨.inl changed.symm, .inl changed.symm⟩

theorem Grows.trans {log'' : List Evaluation} (first : Grows now touched (fun _ => False) log log')
    (second : Grows now touched news log' log'') : Grows now touched news log log'' where
  length := first.length.trans second.length
  origin i e'' found := by
    rcases second.origin i e'' found with ⟨e', found', onward', moved'⟩ | ⟨missing, new⟩
    · rcases first.origin i e' found' with ⟨e, found, onward, moved⟩ | ⟨_, impossible, _⟩
      · refine .inl ⟨e, found, ?_⟩
        rcases onward with rfl | ⟨running, changed⟩
        · exact ⟨onward', moved'⟩
        · -- A change leaves nothing that could change again.
          have completed : e'.progress ≠ .running := by
            rcases changed with rfl | ⟨result, rfl⟩ <;> exact nofun
          rcases onward' with rfl | ⟨running', _⟩
          · exact ⟨.inr ⟨running, changed⟩, moved⟩
          · exact absurd running' completed
      · exact impossible.elim
    · refine .inr ⟨?_, new⟩
      rw [getElem?_eq_none_iff] at missing ⊢
      exact first.length.trans missing

end Log

section Facts

variable (orderly : Prop) (log : List Evaluation) (now : Nat)

/-- A shared value comes from an evaluation of the key. In an orderly run it is one of the
same reader that ended after the request began. -/
def Vouches (key : CoalescingKey) (reader begun : Nat) (value : SharedEvaluation) (source : Nat) :
    Prop :=
  ∃ e time result, log[source]? = some e ∧ e.key = key ∧ e.progress = .ended time result ∧
    SharedEvaluation.ofResult result = value ∧ time ≤ now ∧
      (orderly → e.reader = reader ∧ begun ≤ time)

/-- An evaluation of the request itself ended with the error. -/
def Suffers (owner : Nat) (error : CheckError) : Prop :=
  ∃ (i : Nat) (e : Evaluation) (time : Nat), log[i]? = some e ∧ e.owner = owner ∧
    e.progress = .ended time (.error error)

/-- The request runs the evaluation. -/
def Runs (owner : Nat) (role : Role) (key : CoalescingKey) (reader begun : Nat) (i : Nat) : Prop :=
  ∃ started, begun ≤ started ∧ log[i]? = some ⟨owner, role, key, reader, started, .running⟩

/-- The request waits for an evaluation that was running when it came. -/
def Waits (key : CoalescingKey) (reader begun : Nat) (i : Nat) : Prop :=
  ∃ e, log[i]? = some e ∧ e.key = key ∧ (orderly → e.reader = reader) ∧
    ∀ time result, e.progress = .ended time result → time ≤ now ∧ begun ≤ time

section

variable (owner : Nat) (key : CoalescingKey) (reader begun : Nat)

/-- Where a result may come from. -/
def Yields : Result → Prop
  | .ok decision =>
      ∃ source, Vouches orderly log now key reader begun (.outcome decision) source
  | .error error => Suffers log owner error

def Stage.Sound : Stage → Prop
  | .starting => True
  | .entering => True
  | .leading evaluation => Runs log owner .shared key reader begun evaluation
  | .waiting evaluation => Waits orderly log now key reader begun evaluation
  | .holding value source => Vouches orderly log now key reader begun value source
  | .checking value source => Vouches orderly log now key reader begun value source
  | .retrying evaluation => Runs log owner .own key reader begun evaluation
  | .finished result => Yields orderly log now owner key reader begun result

def OracleStage.Sound :
    OracleStage → Prop
  | .running evaluation => Runs log owner .oracle key reader begun evaluation
  | .finished result => Yields orderly log now owner key reader begun result

end

structure Candidate.Sound (owner : Nat) (request : Request) (candidate : Candidate) : Prop where
  stage : candidate.stage.Sound orderly log now owner candidate.key request.reader request.begun
  error : ∀ error, candidate.ownError = some error → Suffers log owner error
  source : candidate.key.tupleSource = request.key.tupleSource
  alone : request.oracle = none → candidate.key = request.key
  verified : candidate.stage = .starting → request.oracle ≠ none

/-- The parts of a request that still runs. -/
structure Request.Running (owner : Nat) (request : Request) : Prop where
  oracle : ∀ stage, request.oracle = some stage →
    stage.Sound orderly log now owner request.key request.reader request.begun
  candidate : ∀ candidate, request.candidate = some candidate →
    candidate.Sound orderly log now owner request

structure Request.Sound (owner : Nat) (request : Request) : Prop where
  begun : request.begun ≤ now
  running : request.ending = none → request.Running orderly log now owner
  returned : ∀ time result, request.ending = some (.returned time result) → time ≤ now ∧
    Yields orderly log time owner request.key request.reader request.begun result

end Facts

section Monotone

variable {now later : Nat} {owner : Nat} {key : CoalescingKey} {reader begun : Nat}

theorem Vouches.grow {value : SharedEvaluation} {source : Nat}
    (vouches : Vouches orderly log now key reader begun value source)
    (grows : Grows now touched news log log') (passed : now ≤ later) :
    Vouches orderly log' later key reader begun value source := by
  obtain ⟨e, time, result, found, same, completed, shared, before, timely⟩ := vouches
  exact ⟨e, time, result, grows.ended found (by simp [completed]), same, completed, shared,
    before.trans passed, timely⟩

theorem Suffers.grow {error : CheckError} (suffers : Suffers log owner error)
    (grows : Grows now touched news log log') : Suffers log' owner error := by
  obtain ⟨i, e, time, found, owned, completed⟩ := suffers
  exact ⟨i, e, time, grows.ended found (by simp [completed]), owned, completed⟩

theorem Runs.grow {role : Role} (runs : Runs log owner role key reader begun i)
    (grows : Grows now touched news log log')
    (unmoved : ∀ e, touched e → ¬ (e.owner = owner ∧ e.role = role)) :
    Runs log' owner role key reader begun i := by
  obtain ⟨started, late, found⟩ := runs
  exact ⟨started, late, grows.untouched found fun moved => unmoved _ moved ⟨rfl, rfl⟩⟩

theorem Waits.grow (waits : Waits orderly log now key reader begun i)
    (grows : Grows now touched news log log') (passed : now ≤ later) (came : begun ≤ now) :
    Waits orderly log' later key reader begun i := by
  obtain ⟨e, found, same, readers, timely⟩ := waits
  obtain ⟨e', found', onward, _⟩ := grows.kept found
  refine ⟨e', found', ?_⟩
  rcases onward with rfl | ⟨_, rfl | ⟨result, rfl⟩⟩
  · refine ⟨same, readers, fun time result completed => ?_⟩
    obtain ⟨before, late⟩ := timely time result completed
    exact ⟨before.trans passed, late⟩
  · exact ⟨same, readers, nofun⟩
  · refine ⟨same, readers, fun time result completed => ?_⟩
    cases completed
    exact ⟨passed, came⟩

theorem Yields.grow {result : Result}
    (yields : Yields orderly log now owner key reader begun result)
    (grows : Grows now touched news log log') (passed : now ≤ later) :
    Yields orderly log' later owner key reader begun result := by
  cases result with
  | ok decision =>
    obtain ⟨source, vouches⟩ := yields
    exact ⟨source, vouches.grow grows passed⟩
  | error error => exact Suffers.grow yields grows

theorem Stage.Sound.grow {stage : Stage}
    (sound : stage.Sound orderly log now owner key reader begun)
    (grows : Grows now touched news log log') (passed : now ≤ later) (came : begun ≤ now)
    (unmoved : ∀ e, touched e → e.owner = owner → e.role = .oracle) :
    stage.Sound orderly log' later owner key reader begun := by
  have foreign : ∀ role : Role, role ≠ .oracle →
      ∀ e, touched e → ¬ (e.owner = owner ∧ e.role = role) := by
    intro role other e moved held
    exact other (held.2.symm.trans (unmoved e moved held.1))
  cases stage with
  | starting | entering => trivial
  | leading | retrying => exact Runs.grow sound grows (foreign _ nofun)
  | waiting evaluation => exact Waits.grow sound grows passed came
  | holding | checking => exact Vouches.grow sound grows passed
  | finished result => exact Yields.grow sound grows passed

theorem OracleStage.Sound.grow {stage : OracleStage}
    (sound : stage.Sound orderly log now owner key reader begun)
    (grows : Grows now touched news log log') (passed : now ≤ later)
    (unmoved : ∀ e, touched e → ¬ (e.owner = owner ∧ e.role = .oracle)) :
    stage.Sound orderly log' later owner key reader begun := by
  cases stage with
  | running evaluation => exact Runs.grow sound grows unmoved
  | finished result => exact Yields.grow sound grows passed

theorem Candidate.Sound.grow {request : Request} {candidate : Candidate}
    (sound : candidate.Sound orderly log now owner request)
    (grows : Grows now touched news log log') (passed : now ≤ later) (came : request.begun ≤ now)
    (unmoved : ∀ e, touched e → e.owner = owner → e.role = .oracle) :
    candidate.Sound orderly log' later owner request where
  stage := sound.stage.grow grows passed came unmoved
  error error held := (sound.error error held).grow grows
  source := sound.source
  alone := sound.alone
  verified := sound.verified

/-- A request is not affected by what others do. -/
theorem Request.Sound.grow {request : Request} (sound : request.Sound orderly log now owner)
    (grows : Grows now touched news log log') (passed : now ≤ later)
    (unmoved : ∀ e, touched e → e.owner ≠ owner) :
    request.Sound orderly log' later owner where
  begun := sound.begun.trans passed
  running live :=
    { oracle := fun stage held => ((sound.running live).oracle stage held).grow grows passed
        fun e moved owned => unmoved e moved owned.1
      candidate := fun candidate held =>
        ((sound.running live).candidate candidate held).grow grows passed sound.begun
          fun e moved owned => absurd owned (unmoved e moved) }
  returned time result ended := by
    obtain ⟨before, yields⟩ := sound.returned time result ended
    refine ⟨before.trans passed, ?_⟩
    cases result with
    | ok decision =>
      obtain ⟨source, e, completed, result, found, rest⟩ := yields
      exact ⟨source, e, completed, result, grows.ended found (by simp [rest.2.1]), rest⟩
    | error error => exact Suffers.grow yields grows

end Monotone

/-- The request has received a value of the key and not yet removed it from the map. -/
def Request.Holds (request : Request) (key : CoalescingKey) : Prop :=
  request.live = true ∧ ∃ candidate, request.candidate = some candidate ∧ candidate.key = key ∧
    ∃ value source, candidate.stage = .holding value source

/-- A running evaluation has a live owner. -/
structure Evaluation.Sound (w : World) (e : Evaluation) : Prop where
  started : e.started ≤ w.clock
  ended : ∀ time result, e.progress = .ended time result → e.started ≤ time
  owned : e.progress = .running → ∃ request, w.requests[e.owner]? = some request ∧
    request.live = true ∧ request.reader = e.reader ∧
      request.key.tupleSource = e.key.tupleSource

/-- All that is in the map or returned is accounted for. -/
structure World.Sound (orderly : Prop) (w : World) : Prop where
  evaluations : ∀ e ∈ w.evaluations, e.Sound w
  requests : ∀ (i : Nat) (request : Request), w.requests[i]? = some request →
    request.Sound orderly w.evaluations w.clock i
  readers : ∀ first ∈ w.requests, ∀ second ∈ w.requests, first.live = true →
    second.live = true → first.key.tupleSource = second.key.tupleSource →
      first.reader = second.reader
  published : ∀ key value source, w.completed key = some (value, source) →
    Vouches False w.evaluations w.clock key 0 0 value source
  covered : orderly → ∀ key, w.completed key ≠ none → ∃ request ∈ w.requests, request.Holds key

/-- What one request does to the world. -/
structure Advances (orderly : Prop) (w w' : World) (index : Nat) (request updated : Request) :
    Prop where
  requests : w'.requests = w.requests.set index updated
  clock : w'.clock = w.clock
  key : updated.key = request.key
  reader : updated.reader = request.reader
  grows : Grows w.clock (fun e => e.owner = index)
    (fun e => e.owner = index ∧ e.reader = request.reader ∧
      e.key.tupleSource = request.key.tupleSource) w.evaluations w'.evaluations
  sound : updated.Sound orderly w'.evaluations w'.clock index
  ended : updated.live = true ∨
    ∀ e ∈ w'.evaluations, e.owner = index → e.progress ≠ .running
  published : ∀ key value source, w'.completed key = some (value, source) →
    w.completed key = some (value, source) ∨
      Vouches False w'.evaluations w'.clock key 0 0 value source
  covered : orderly → ∀ key, w'.completed key ≠ none →
    updated.Holds key ∨ (w.completed key ≠ none ∧ ¬ request.Holds key)

section Advance

variable {w w' : World} {index : Nat} {request updated : Request}

section

variable (advances : Advances orderly w w' index request updated)

include advances

theorem Advances.other (elsewhere : i ≠ index) : w'.requests[i]? = w.requests[i]? := by
  rw [advances.requests, getElem?_set_ne (Ne.symm elsewhere)]

theorem Advances.self (found : w.requests[index]? = some request) :
    w'.requests[index]? = some updated := by
  rw [advances.requests, List.getElem?_set_self (List.getElem?_eq_some_iff.mp found).1]

/-- A running evaluation keeps a live owner. -/
theorem Advances.evaluation (sound : w.Sound orderly) (found : w.requests[index]? = some request)
    (member : e ∈ w'.evaluations) : e.Sound w' := by
  obtain ⟨i, there⟩ := mem_iff_getElem?.mp member
  have mine : e.owner = index → e.progress = .running → e.reader = request.reader →
      e.key.tupleSource = request.key.tupleSource → ∃ request,
        w'.requests[e.owner]? = some request ∧ request.live = true ∧ request.reader = e.reader ∧
          request.key.tupleSource = e.key.tupleSource := by
    intro owned running reader source
    rcases advances.ended with live | idle
    · refine ⟨updated, ?_, live, ?_, ?_⟩
      · rw [owned, advances.self found]
      · rw [advances.reader, reader]
      · rw [advances.key, source]
    · exact absurd running (idle e member owned)
  rcases advances.grows.origin i e there with ⟨e₀, there₀, onward, _⟩ | ⟨_, new, started, running⟩
  · have before := sound.evaluations e₀ (mem_of_getElem? there₀)
    rcases onward with rfl | ⟨_, rfl | ⟨result, rfl⟩⟩
    · refine ⟨by rw [advances.clock]; exact before.started, before.ended, fun running => ?_⟩
      obtain ⟨holder, held, live, reader, source⟩ := before.owned running
      by_cases owned : e.owner = index
      · rw [owned, found] at held
        cases held
        exact mine owned running reader.symm source.symm
      · exact ⟨holder, by rw [advances.other owned, held], live, reader, source⟩
    · exact ⟨by rw [advances.clock]; exact before.started, nofun, nofun⟩
    · refine ⟨by rw [advances.clock]; exact before.started, fun time result completed => ?_, nofun⟩
      cases completed
      exact before.started
  · refine ⟨by rw [advances.clock, started], fun time result completed => ?_, fun _ => ?_⟩
    · rw [running] at completed
      cases completed
    · exact mine new.1 running new.2.1 new.2.2

theorem Advances.preserves (sound : w.Sound orderly) (found : w.requests[index]? = some request)
    (live : request.live = true) : w'.Sound orderly where
  evaluations e member := advances.evaluation sound found member
  requests i other there := by
    by_cases here : i = index
    · rw [here, advances.self found] at there
      cases there
      rw [here]
      exact advances.sound
    · rw [advances.other here] at there
      apply (sound.requests i other there).grow advances.grows (le_of_eq advances.clock.symm)
      intro e moved owned
      exact here (owned.symm.trans moved)
  readers := by
    -- The acting request keeps its reader and its key's source.
    have before : ∀ other ∈ w'.requests, other.live = true → ∃ old ∈ w.requests,
        old.live = true ∧ old.reader = other.reader ∧
          old.key.tupleSource = other.key.tupleSource := by
      intro other member alive
      rw [advances.requests] at member
      rcases mem_or_eq_of_mem_set member with old | rfl
      · exact ⟨other, old, alive, rfl, rfl⟩
      · refine ⟨request, mem_of_getElem? found, live, advances.reader.symm, ?_⟩
        rw [advances.key]
    intro first member second member' alive alive' sources
    obtain ⟨old, held, lived, reader, source⟩ := before first member alive
    obtain ⟨old', held', lived', reader', source'⟩ := before second member' alive'
    rw [← reader, ← reader']
    exact sound.readers old held old' held' lived lived'
      (source.trans (sources.trans source'.symm))
  published key value source there := by
    rcases advances.published key value source there with old | new
    · exact (sound.published key value source old).grow advances.grows
        (le_of_eq advances.clock.symm)
    · exact new
  covered runs key there := by
    rcases advances.covered runs key there with holds | ⟨old, free⟩
    · exact ⟨updated, mem_of_getElem? (advances.self found), holds⟩
    · obtain ⟨holder, member, holds⟩ := sound.covered runs key old
      obtain ⟨i, held⟩ := mem_iff_getElem?.mp member
      have elsewhere : i ≠ index := by
        rintro rfl
        rw [found] at held
        cases held
        exact free holds
      exact ⟨holder, mem_of_getElem? (by rw [advances.other elsewhere, held]), holds⟩

end

end Advance

end OpenFga.Coalescing
