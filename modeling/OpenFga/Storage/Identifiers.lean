import OpenFga.Dynamo.Write
import OpenFga.Lib.Allocation
import OpenFga.Memory.Mutation

/-!
# Identifiers that only grow

Four allocators give out identifiers made of a millisecond and a random part: the service for its
stores and models, and each storage for its changes. A clock that stands still or goes back makes
them count on from the last identifier, and a full random part moves on to the next millisecond or
is an error. None of them gives out an identifier that is not beyond all before it.
-/

namespace OpenFga

open Allocation

section Service

inductive IdentifierSourceErrorKind where
  | cancelled
  | timeout
  | unavailable
  | exhausted
  | entropy
  | internal

structure IdentifierSourceError where
  kind : IdentifierSourceErrorKind
  code : String

def maximumTimestampMillis : Nat := 2 ^ 48 - 1

def randomnessMask : Nat := 2 ^ 80 - 1

/-- The last identifier given out. -/
structure MonotonicState where
  lastMillis : Nat
  randomness : Nat

namespace MonotonicState

def new (randomness : Nat) : MonotonicState := ⟨0, randomness % 2 ^ 80⟩

section

variable (state : MonotonicState)

/-- The next identifier of the service. When the last millisecond is used up the state has moved
on although the call fails. -/
def next (now : SystemTime) : Except IdentifierSourceError Nat × MonotonicState :=
  if now < 0 then (.error ⟨.exhausted, "identifier_clock_before_epoch"⟩, state)
  else
    let millis := now.toNat / 1000000
    if 2 ^ 64 ≤ millis then (.error ⟨.exhausted, "identifier_clock_out_of_range"⟩, state)
    else if maximumTimestampMillis < millis then
      (.error ⟨.exhausted, "identifier_clock_out_of_range"⟩, state)
    else if state.lastMillis < millis then
      let randomness := (state.randomness + 1) % 2 ^ 80
      (.ok (Ulid.fromParts millis randomness), ⟨millis, randomness⟩)
    else if state.randomness = randomnessMask then
      if 2 ^ 64 ≤ state.lastMillis + 1 then
        (.error ⟨.exhausted, "identifier_space_exhausted"⟩, state)
      else if maximumTimestampMillis < state.lastMillis + 1 then
        (.error ⟨.exhausted, "identifier_space_exhausted"⟩,
          { state with lastMillis := state.lastMillis + 1 })
      else (.ok (Ulid.fromParts (state.lastMillis + 1) 0), ⟨state.lastMillis + 1, 0⟩)
    else
      (.ok (Ulid.fromParts state.lastMillis (state.randomness + 1)),
        { state with randomness := state.randomness + 1 })

def call (now : SystemTime) : Except IdentifierSourceError (List Nat) × MonotonicState :=
  ((state.next now).1.map ([·]), (state.next now).2)

/-- The random part is within its bits, and an unusable millisecond has a full one. -/
def Bounded : Prop :=
  state.randomness < 2 ^ 80 ∧
    (maximumTimestampMillis < state.lastMillis → state.randomness = randomnessMask)

def floor : Nat := state.lastMillis * 2 ^ 80 + state.randomness + 1

/-- A call gives out a larger identifier, or none. -/
theorem call_grows (now : SystemTime) (bounded : state.Bounded) :
    (state.call now).2.Bounded ∧
      Grows state.floor (state.call now).2.floor ((state.call now).1.toOption.getD []) := by
  have refused {error : IdentifierSourceError} {after : MonotonicState} (kept : after.Bounded)
      (later : state.floor ≤ after.floor) : after.Bounded ∧
        Grows state.floor after.floor
          (((.error error : Except IdentifierSourceError Nat).map ([·])).toOption.getD []) :=
    ⟨kept, grows_nil later⟩
  have allocated {millis random : Nat} (time : millis ≤ 2 ^ 48 - 1) (part : random < 2 ^ 80)
      (beyond : state.floor ≤ millis * 2 ^ 80 + random) :
      (⟨millis, random⟩ : MonotonicState).Bounded ∧
        Grows state.floor (⟨millis, random⟩ : MonotonicState).floor
          (((.ok (Ulid.fromParts millis random) : Except IdentifierSourceError Nat).map
            ([·])).toOption.getD []) := by
    refine ⟨⟨part, fun late => absurd time (Nat.not_le.mpr late)⟩, ?_⟩
    rw [Ulid.fromParts_eq time part]
    exact grows_singleton beyond
  obtain ⟨part, last⟩ := bounded
  unfold call next
  simp only
  split
  · exact refused ⟨part, last⟩ le_rfl
  split
  · exact refused ⟨part, last⟩ le_rfl
  split
  · exact refused ⟨part, last⟩ le_rfl
  rename_i inRange
  unfold maximumTimestampMillis at inRange
  split
  · refine allocated (Nat.le_of_not_lt inRange) (Nat.mod_lt _ (by decide)) ?_
    unfold floor
    omega
  split
  · rename_i full
    split
    · exact refused ⟨part, last⟩ le_rfl
    split
    · refine refused ⟨part, fun _ => full⟩ ?_
      unfold floor
      simp only
      omega
    · rename_i room
      refine allocated (Nat.le_of_not_lt room) (Nat.two_pow_pos 80) ?_
      unfold floor randomnessMask at *
      omega
  · rename_i free
    have usable : state.lastMillis ≤ 2 ^ 48 - 1 :=
      Nat.le_of_not_lt fun late => free (last late)
    refine allocated usable ?_ ?_
    · unfold randomnessMask at free
      omega
    · unfold floor
      omega

end

end MonotonicState

end Service

def ulidMaxTimestampMs : Nat := 2 ^ 48 - 1

/-- The timestamp and the random part that follow those of the previous change. -/
def nextParts (timestamp : Nat) (previous : Option ChangeId) : Except StorageError (Nat × Nat) :=
  match previous with
  | none => .ok (timestamp, 0)
  | some previous =>
      let time := previous.value / 2 ^ 80
      let random := previous.value % 2 ^ 80
      if timestamp < time ∨ timestamp = time ∧ 0 ≤ random then
        if random = 2 ^ 80 - 1 then
          if 2 ^ 64 ≤ time + 1 then .error (.new .internal "portable_change_timestamp_overflow")
          else .ok (time + 1, 0)
        else .ok (time, random + 1)
      else .ok (timestamp, 0)

/-- The next change of a store in an SQL table. -/
def nextChangeId (timestampMs : Int) (previous : Option ChangeId) :
    Except StorageError ChangeId := do
  if timestampMs < 0 then .error (.new .internal "portable_change_timestamp_invalid")
  else
    let (timestamp, random) ← nextParts timestampMs.toNat previous
    if ulidMaxTimestampMs < timestamp then
      .error (.new .internal "portable_change_timestamp_overflow")
    else .ok (.fromParts timestamp random)

theorem nextParts_beyond {timestamp time random : Nat} {last : ChangeId}
    (chosen : nextParts timestamp (some last) = .ok (time, random)) :
    last.value < time * 2 ^ 80 + random ∧ random < 2 ^ 80 := by
  have parts := Nat.div_add_mod last.value (2 ^ 80)
  have part := Nat.mod_lt last.value (Nat.two_pow_pos 80)
  simp only [nextParts] at chosen
  split at chosen
  · split at chosen
    · split at chosen
      · cases chosen
      · cases chosen
        omega
    · cases chosen
      omega
  · cases chosen
    omega

/-- A new change is beyond the previous one. -/
theorem nextChangeId_beyond {timestampMs : Int} {previous : Option ChangeId} {id : ChangeId}
    (given : nextChangeId timestampMs previous = .ok id) : ∀ last ∈ previous, last < id := by
  rintro last rfl
  obtain ⟨-, given⟩ := guard_eq_ok.mp given
  obtain ⟨⟨timestamp, random⟩, chosen, given⟩ := bind_eq_ok.mp given
  obtain ⟨beyond, part⟩ := nextParts_beyond chosen
  obtain ⟨inRange, given⟩ := guard_eq_ok.mp given
  cases given
  show last.value < Ulid.fromParts timestamp random
  rw [Ulid.fromParts_eq (Nat.le_of_not_lt inRange) part]
  exact beyond

/-- One more than the last identifier. -/
def floorOf (last : Option ChangeId) : Nat := last.elim 0 fun id => id.value + 1

/-- An allocator of changes that goes on from the last one of each call. -/
def following {ι : Type} (next : ι → Option ChangeId → Except StorageError (List ChangeId))
    (last : Option ChangeId) (input : ι) : Except StorageError (List Nat) × Option ChangeId :=
  match next input last with
  | .ok ids => (.ok (ids.map ChangeId.value), ids.getLast?.or last)
  | .error error => (.error error, last)

/-- A batch that increases from the last change on keeps all identifiers growing. -/
theorem following_grows {ι : Type}
    (next : ι → Option ChangeId → Except StorageError (List ChangeId))
    (increasing : ∀ input last ids, next input last = .ok ids → ids.Pairwise (· < ·) ∧
      ∀ id ∈ ids, ∀ previous ∈ last, previous < id) (last : Option ChangeId) (inputs : List ι) :
    (given (following next) last inputs).Pairwise (· < ·) ∧
      ∀ id ∈ given (following next) last inputs, floorOf last ≤ id := by
  refine given_grows (fun _ => True) floorOf (fun last input _ => ⟨trivial, ?_⟩) inputs last trivial
  unfold following
  split
  · rename_i ids made
    obtain ⟨sorted, above⟩ := increasing input last ids made
    have low : ∀ id ∈ ids, floorOf last ≤ id.value := by
      intro id member
      cases last with
      | none => exact Nat.zero_le _
      | some previous => exact above id member previous rfl
    rcases List.eq_nil_or_concat' ids with rfl | ⟨before, final, rfl⟩
    · exact grows_nil le_rfl
    · have latest : ∀ id ∈ before ++ [final], id.value < final.value + 1 := by
        have below := (List.pairwise_append.mp sorted).2.2
        refine List.forall_mem_append.mpr ⟨fun id member => ?_, by simp⟩
        exact Nat.lt_succ_of_lt (below id member final List.mem_cons_self)
      have ended : floorOf ((before ++ [final]).getLast?.or last) = final.value + 1 := by
        rw [List.getLast?_concat]
        rfl
      rw [ended]
      refine ⟨List.pairwise_map.mpr sorted, List.forall_mem_map.mpr fun id member =>
        ⟨low id member, latest id member⟩, ?_⟩
      exact Nat.le_succ_of_le (low final (by simp))
  · exact grows_nil le_rfl

/-- The allocator of the memory storage, as it is called for each change. -/
def Memory.ChangeIdAllocator.call (allocator : Memory.ChangeIdAllocator) (now : SystemTime) :
    Except StorageError (List Nat) × Memory.ChangeIdAllocator :=
  match allocator.next now with
  | .ok (id, after) => (.ok [id.value], after)
  | .error error => (.error error, allocator)

theorem Memory.ChangeIdAllocator.call_grows (allocator : Memory.ChangeIdAllocator)
    (now : SystemTime) (bounded : allocator.Bounded) : (allocator.call now).2.Bounded ∧
      Grows allocator.ceiling (allocator.call now).2.ceiling
        ((allocator.call now).1.toOption.getD []) := by
  unfold call
  split
  · rename_i id after made
    obtain ⟨bounded, beyond, ends⟩ := next_beyond bounded made
    exact ⟨bounded, ends ▸ grows_singleton beyond⟩
  · exact ⟨bounded, grows_nil le_rfl⟩

/-- Whatever the clock and the random source give, each allocator gives out identifiers that grow
strictly, from beyond the number it was seeded with. -/
theorem identifiers_grow :
    (∀ (seed : Nat) (clock : List SystemTime),
      let ids := given MonotonicState.call (.new seed) clock
      ids.Pairwise (· < ·) ∧ ∀ id ∈ ids, seed % 2 ^ 80 < id) ∧
    (∀ (allocator : Memory.ChangeIdAllocator) (clock : List SystemTime), allocator.Bounded →
      let ids := given Memory.ChangeIdAllocator.call allocator clock
      ids.Pairwise (· < ·) ∧ ∀ id ∈ ids, allocator.initialized →
        (ChangeId.fromParts allocator.lastTimestampMs allocator.lastRandom).value < id) ∧
    (∀ (previous : Option ChangeId) (clock : List Int),
      let ids := given (following fun now last => (nextChangeId now last).map ([·])) previous clock
      ids.Pairwise (· < ·) ∧ ∀ id ∈ ids, ∀ last ∈ previous, last.value < id) ∧
    ∀ (head : Option ChangeId) (batches : List (SystemTime × Nat × Nat)),
      let ids := given (following fun (now, random, count) last =>
        Dynamo.allocateChangeIds last now random count) head batches
      ids.Pairwise (· < ·) ∧ ∀ id ∈ ids, ∀ last ∈ head, last.value < id := by
  have beyond {last : Option ChangeId} {ids : List Nat} (above : ∀ id ∈ ids, floorOf last ≤ id) :
      ∀ id ∈ ids, ∀ previous ∈ last, previous.value < id := by
    rintro id member previous rfl
    exact above id member
  refine ⟨fun seed clock => ?_, fun allocator clock bounded => ?_, fun previous clock => ?_,
    fun head batches => ?_⟩
  · have part : seed % 2 ^ 80 < 2 ^ 80 := Nat.mod_lt _ (Nat.two_pow_pos 80)
    have bounded : (MonotonicState.new seed).Bounded :=
      ⟨part, fun late => absurd late (Nat.not_lt_zero _)⟩
    obtain ⟨sorted, above⟩ := given_grows _ _ MonotonicState.call_grows clock _ bounded
    refine ⟨sorted, fun id member => Nat.lt_of_succ_le ((above id member).trans' ?_)⟩
    simp [MonotonicState.floor, MonotonicState.new]
  · obtain ⟨sorted, above⟩ :=
      given_grows _ _ Memory.ChangeIdAllocator.call_grows clock _ bounded
    refine ⟨sorted, fun id member started => ?_⟩
    have low := above id member
    rw [Memory.ChangeIdAllocator.ceiling, if_pos started] at low
    show Ulid.fromParts _ _ < id
    rw [Ulid.fromParts_eq (Nat.le_pred_of_lt bounded.timestamp) bounded.random]
    exact low
  · refine (following_grows _ (fun now last ids made => ?_) previous clock).imp_right beyond
    obtain ⟨id, allocated, rfl⟩ := map_eq_ok.mp made
    exact ⟨List.pairwise_singleton _ _, by simpa using nextChangeId_beyond allocated⟩
  · refine (following_grows _ (fun input last ids made => ?_) head batches).imp_right beyond
    exact (Dynamo.allocateChangeIds_spec made).2

/-- The clock stands still before the last change, whose random part is full. -/
theorem identifiers_grow_standing :
    let ids := given Memory.ChangeIdAllocator.call ⟨5, 2 ^ 80 - 1, true⟩ [0, 0]
    ids = [6 * 2 ^ 80, 6 * 2 ^ 80 + 1] ∧ ids.Pairwise (· < ·) ∧
      ∀ id ∈ ids, (ChangeId.fromParts 5 (2 ^ 80 - 1)).value < id := by
  obtain ⟨sorted, beyond⟩ := identifiers_grow.2.1 ⟨5, 2 ^ 80 - 1, true⟩ [0, 0]
    ⟨by decide, by decide⟩
  exact ⟨by decide, sorted, fun id member => beyond id member rfl⟩

end OpenFga
