import OpenFga.Check.Offers

/-!
# Joining a read

An outstanding read is joined with its result. A slot nobody waits for is
dropped; otherwise the rows are charged, turned into candidates and offered.
-/

namespace OpenFga

open Scheduler

variable {object : ObjectRef} {stored : List RelationshipTuple} {relation : CompiledRelation}

/-- The direct read that is joined next offers these candidates to its slot. -/
structure DirectOffer (env : CheckEnvironment) (schedule : Schedule) (s : Scheduler) (work : Nat)
    (candidates : List Candidate) (offered : Scheduler) : Prop where
  collected : ∃ index read direct relation stored joined charged,
    index = schedule.nextRead s.tick % s.reads.length ∧ s.reads[index]? = some read ∧
    read.work = work ∧ s.stateAt work = some (.reading (.direct direct)) ∧
    ({ s.ticked with reads := s.reads.eraseIdx index } : Scheduler).readResult env schedule read =
      (.ok stored, joined) ∧
    env.model.relation direct.relation = some relation ∧
    (joined.setState work .processing).chargeTupleItems env schedule stored.length
      (env.contextual.get direct.object relation.name).length = (true, charged) ∧
    collectRows (directRow env schedule direct relation.restrictions)
      (env.contextual.get direct.object relation.name ++ stored) charged =
        .ok (candidates, offered)

section Finish

variable {target : Target} (schedule : Schedule) {ghost : Ghost} {s s' : Scheduler} {work : Nat}

/-- The rows of a read, once its stored rows are there. -/
theorem readRows_eq_ok {env : CheckEnvironment} {relation : RelationName}
    (read : env.readObjectRelation object relation = .ok stored) :
    readRows env object relation = .ok (env.contextual.get object relation ++ stored) := by
  rw [readRows, read]
  rfl

/-- Charging rows moves on in time only. -/
theorem chargeTupleItems_spec (env : CheckEnvironment) (s : Scheduler) (stored contextual : Nat) :
    Charges s (s.chargeTupleItems env schedule stored contextual).2 := by
  unfold chargeTupleItems
  simp only
  split <;> exact ⟨⟨rfl, rfl, rfl, rfl, rfl⟩, rfl, rfl⟩

variable (coherent : Coherent target ghost (.processing work) s)
  (processing : s.stateAt work = some .processing)

include coherent processing

theorem finishDirect_spec {read : DirectRead}
    (found : target.env.model.relation read.relation = some relation)
    (subject : target.env.model.KnowsSubject read.subject)
    (result : target.env.readObjectRelation read.object relation.name = .ok stored)
    (spec : ghost.spec work = target.read (.direct read)) :
    Ensures (s.finishDirect target.env schedule work read
        (target.env.contextual.get read.object relation.name ++ stored)) (Settled target s)
      (fun error => error.IsLimit ∧ (Collected target schedule work .direct
        (collectRows (directRow target.env schedule read relation.restrictions)
          (target.env.contextual.get read.object relation.name ++ stored) s) →
            error.kind ≠ .internal)) := by
  have rows := collectRows_spec (fun tuple s => directRow_spec schedule found subject tuple s)
    (target.env.contextual.get read.object relation.name ++ stored) s
  have combined : ∀ fuel, ghost.spec work fuel = combine .union (some .direct)
      (((target.env.contextual.get read.object relation.name ++ stored).flatMap
        (directOperands target.env target.ceiling read.subject relation.restrictions)).map
          fun operand => target.operand read.subject read.path operand fuel) := by
    intro fuel
    rw [spec]
    simp only [Target.read, Target.rewrite, sequentialRewrite, sequentialDirect, found,
      sequentialRead, readRows_eq_ok result]
    rfl
  unfold finishDirect
  simp only [found, orError_some]
  refine (finishCollected_spec schedule coherent processing combined rows).mono (fun _ => id) ?_
  exact fun error raised => ⟨raised.1, fun safe => raised.2 fun _ => safe⟩

theorem finishTtu_spec {read : TtuRead}
    (found : target.env.model.relation read.tupleset = some relation)
    (known : ∀ relation ∈ read.targets, target.env.model.KnowsRelation relation)
    (subject : target.env.model.KnowsSubject read.subject)
    (result : target.env.readObjectRelation read.object relation.name = .ok stored)
    (spec : ghost.spec work = target.read (.tupleToUserset read)) :
    Ensures (s.finishTtu target.env schedule work read
        (target.env.contextual.get read.object relation.name ++ stored)) (Settled target s)
      CheckError.Ends := by
  have rows := collectRows_spec (fun tuple s => ttuRow_spec schedule found known subject tuple s)
    (target.env.contextual.get read.object relation.name ++ stored) s
  have combined : ∀ fuel, ghost.spec work fuel = combine .union (some .tupleToUserset)
      (((target.env.contextual.get read.object relation.name ++ stored).flatMap
        (ttuOperands target.env target.ceiling relation.restrictions read.targets)).map
          fun operand => target.operand read.subject read.path operand fuel) := by
    intro fuel
    rw [spec]
    simp only [Target.read, Target.rewrite, sequentialRewrite, sequentialTtu, found,
      sequentialRead, readRows_eq_ok result]
    rfl
  unfold finishTtu
  simp only [found, orError_some]
  refine (finishCollected_spec schedule coherent processing combined rows).mono (fun _ => id) ?_
  exact fun error raised => ⟨raised.1, raised.2 False.elim⟩

/-- Charging the rows of a read, then finishing it. -/
theorem finishRows_spec {id : RelationId} {missing : String}
    {finish : Scheduler → List RelationshipTuple → Except CheckError Scheduler}
    (safe : Scheduler → Prop) (found : target.env.model.relation id = some relation)
    (finished : ∀ s₁, Coherent target ghost (.processing work) s₁ →
      s₁.stateAt work = some .processing →
      Ensures (finish s₁ (target.env.contextual.get object relation.name ++ stored))
        (Settled target s₁) fun error => error.IsLimit ∧ (safe s₁ → error.kind ≠ .internal)) :
    Ensures (s.finishRows target.env schedule work object id missing stored finish)
      (Settled target s) (fun error => error.IsLimit ∧
        ((∀ s₁, s.chargeTupleItems target.env schedule stored.length
          (target.env.contextual.get object relation.name).length = (true, s₁) → safe s₁) →
            error.kind ≠ .internal)) := by
  unfold finishRows
  simp only [found, orError_some, bind, Except.bind]
  cases charged : s.chargeTupleItems target.env schedule stored.length
    (target.env.contextual.get object relation.name).length with
  | mk admitted s₁ =>
    have charges : Charges s s₁ := by
      have := chargeTupleItems_spec schedule target.env s stored.length
        (target.env.contextual.get object relation.name).length
      rwa [charged] at this
    have after := charges.coherent coherent
    have processing₁ := (charges.stateAt_eq work).trans processing
    cases admitted with
    | false =>
      exact (completeLimit_spec after processing₁
        (show CheckError.tupleItemsExceeded.Ends by decide)).imp fun s' => charges.settled
    | true =>
      refine (finished s₁ after processing₁).mono (fun s' => charges.settled) ?_
      exact fun error raised => ⟨raised.1, fun safe => raised.2 (safe s₁ rfl)⟩

end Finish

section Join

variable {target : Target} (schedule : Schedule) {ghost : Ghost} {s s₁ : Scheduler}

/-- What a read task ends with: the stored rows, the failure of the read, or a limit. -/
inductive ReadOutcome (env : CheckEnvironment) (object : ObjectRef) (relation : RelationName) :
    Except CheckError (List RelationshipTuple) → Prop where
  | rows {stored : List RelationshipTuple}
      (read : env.readObjectRelation object relation = .ok stored) :
      ReadOutcome env object relation (.ok stored)
  | failed {error : CheckError} (read : env.readObjectRelation object relation = .error error) :
      ReadOutcome env object relation (.error error)
  | limited {error : CheckError} (ends : error.Ends) : ReadOutcome env object relation
    (.error error)

theorem readResult_spec (env : CheckEnvironment) (s : Scheduler) (read : PendingRead) :
    Charges s (s.readResult env schedule read).2 ∧
      ReadOutcome env read.object read.relation (s.readResult env schedule read).1 := by
  unfold readResult
  cases result : env.readObjectRelation read.object read.relation with
  | error error => exact ⟨.refl s, .failed result⟩
  | ok stored =>
    simp only
    split
    · exact ⟨⟨⟨rfl, rfl, rfl, rfl, rfl⟩, rfl, rfl⟩, .rows result⟩
    · exact ⟨⟨⟨rfl, rfl, rfl, rfl, rfl⟩, rfl, rfl⟩, .limited (by decide)⟩

/-- A failed read fails the evaluation that reads. -/
theorem settles_of_failed {continuation : ReadContinuation} {error : CheckError}
    (found : target.env.model.relation continuation.relation = some relation)
    (failed : target.env.readObjectRelation continuation.object relation.name = .error error) :
    Settles (target.read continuation) (.error error) := by
  refine .of_forall fun fuel => ?_
  cases continuation with
  | direct read =>
    simp only [ReadContinuation.relation, ReadContinuation.object] at found failed
    simp only [Target.read, Target.rewrite, sequentialRewrite, sequentialDirect, found,
      sequentialRead, readRows, failed]
    rfl
  | tupleToUserset read =>
    simp only [ReadContinuation.relation, ReadContinuation.object] at found failed
    simp only [Target.read, Target.rewrite, sequentialRewrite, sequentialTtu, found,
      sequentialRead, readRows, failed]
    rfl

theorem benign_of_failed {env : CheckEnvironment} {relation : RelationName} {error : CheckError}
    (failed : env.readObjectRelation object relation = .error error) : Benign env error := by
  intro _
  unfold CheckEnvironment.readObjectRelation at failed
  cases failure : env.readFailure object relation with
  | none => simp [failure] at failed
  | some kind => exact ⟨object, relation, kind, failure⟩

/-- What a join has achieved. -/
structure Joined (target : Target) (s s' : Scheduler) : Prop where
  coherent : ∃ ghost, Coherent target ghost .idle s'
  cost : s'.cost target.env < s.cost target.env

theorem joinNext_spec (coherent : Coherent target ghost .idle s) (outstanding : s.reads ≠ []) :
    Ensures (s.joinNext target.env schedule) (Joined target s) (fun error => error.IsLimit ∧
      ((∀ work candidates offered, DirectOffer target.env schedule s work candidates offered →
        CandidatesSafe target.env schedule offered work .direct candidates) →
          error.kind ≠ .internal)) := by
  unfold joinNext
  split
  · exact ⟨by decide, fun _ => by decide⟩
  · exact ⟨by decide, fun _ => by decide⟩
  simp only
  have positive : 0 < s.reads.length := List.length_pos_iff.mpr outstanding
  generalize position : schedule.nextRead s.tick % s.reads.length = index
  have inside : index < s.reads.length := position ▸ Nat.mod_lt _ positive
  obtain ⟨read, found⟩ : ∃ read, s.reads[index]? = some read :=
    ⟨_, List.getElem?_eq_getElem inside⟩
  rw [found]
  simp only
  obtain ⟨charges, outcome⟩ := readResult_spec schedule target.env
    { s.ticked with reads := s.reads.eraseIdx index } read
  cases result : ({ s.ticked with reads := s.reads.eraseIdx index } : Scheduler).readResult
    target.env schedule read with
  | mk value s₁ =>
    rw [result] at charges outcome
    simp only
    have member := List.mem_of_getElem? found
    obtain ⟨continuation, reading⟩ :=
      coherent.queues.reads_iff.mp (List.mem_map_of_mem member)
    obtain ⟨object, relation, relationFound, name⟩ := coherent.queues.reads_match member reading
    obtain ⟨valid, spec⟩ := coherent.meaning.states reading
    have alike : Alike s s₁ := ⟨charges.alike.slots, charges.alike.memo, charges.alike.produced,
      charges.alike.rootResult, charges.alike.dispatches⟩
    have ready : s₁.ready = s.ready := charges.ready
    have reads : s₁.reads = s.reads.eraseIdx index := charges.reads
    have links := coherent.links.congr alike.slots
    have reading₁ : s₁.stateAt read.work = some (.reading continuation) := by
      simpa only [stateAt, alike.slots] using reading
    obtain ⟨slot, -, looked, state, -⟩ := slot_eq_ok reading₁
    have bound := lt_length_of_stateAt reading₁
    have cost : ∀ state, (s₁.setState read.work state).cost target.env + 1 = s.cost target.env := by
      intro state
      simp only [Scheduler.cost, length_setState, alike.slots]
      simp only [setState, ready, reads, List.length_eraseIdx, if_pos inside]
      omega
    unfold finishRead
    by_cases active : Active s read.work
    swap
    · rw [isActive_of_not_active links bound fun active' =>
        active ((active_congr alike.slots).mp active')]
      simp only [bind, Except.bind, Bool.not_false, if_true, looked]
      refine ⟨⟨ghost, coherent.dropRead alike found ready reads reading active⟩, ?_⟩
      have := cost .completed
      omega
    rw [isActive_of_active links bound ((active_congr alike.slots).mpr active)]
    simp only [bind, Except.bind, Bool.not_true, Bool.false_eq_true, if_false, looked, state]
    have joined := coherent.join alike found ready reads reading
    have processing := alike.now reading .processing
    have less := cost .processing
    have lift : ∀ {s'}, Settled target (s₁.setState read.work .processing) s' →
        Joined target s s' := fun settled =>
      ⟨settled.coherent, by have := settled.cost; omega⟩
    rw [← object, ← name] at outcome
    cases outcome with
    | limited ends =>
      exact (completeLimit_spec joined processing ends).imp fun s' => lift
    | @failed error failure =>
      have settles : Settles (ghost.spec read.work) (.error error) := by
        rw [spec]
        exact settles_of_failed relationFound failure
      exact (completeFailure_spec joined processing settles (benign_of_failed failure)).imp
        fun s' => lift
    | @rows stored rowsRead =>
      cases continuation with
      | direct direct =>
        refine (finishRows_spec schedule joined processing _ relationFound
          fun s₂ coherent₂ processing₂ => finishDirect_spec schedule coherent₂ processing₂
            relationFound valid.2 rowsRead spec).mono (fun s' => lift) ?_
        intro error raised
        refine ⟨raised.1, fun safe => raised.2 fun s₂ charged candidates offered collected => ?_⟩
        exact safe read.work candidates offered ⟨index, read, direct, relation, stored, s₁, s₂,
          position.symm, found, rfl, reading, result, relationFound, charged, collected⟩
      | tupleToUserset ttu =>
        refine (finishRows_spec schedule joined processing (fun _ => True) relationFound
          fun s₂ coherent₂ processing₂ => (finishTtu_spec schedule coherent₂ processing₂
            relationFound valid.2.1 valid.2.2 rowsRead spec).mono (fun _ => id)
              fun error ends => ⟨ends.1, fun _ => ends.2⟩).mono (fun s' => lift) ?_
        exact fun error raised => ⟨raised.1, fun _ => raised.2 fun _ _ => trivial⟩

end Join

end OpenFga
