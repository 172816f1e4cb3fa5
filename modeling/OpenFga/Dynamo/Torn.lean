import OpenFga.Dynamo.Coherence

/-!
# Pairs read at different moments

The two items of a tuple are read one after the other, and a pair that does not agree is
reported as corruption. If no transaction changes a tuple between the reads of its two items,
if every written tuple is read back, the service does not call a transaction invalid and the
clocks are past the epoch, no call reports corruption, however the calls interleave. A transaction
that falls between two such reads makes the call that has made them fail, although nothing is
corrupt.
-/

namespace OpenFga.Dynamo

open Transaction List Function Dynamo.Sample RelationshipTuple

section

variable {get : States} {key : TupleKey} {states : States} {serde : Serde TupleEnvelope}
  {sha256 : Bytes → Bytes} {limits : WriteLimits} {now timestamp : SystemTime} {storeId : StoreId}
  {log : Log} {mutation : DistinctMutation} {retries : Nat} {next process : Process}
  {sent : List Request} {query : ExactQuery} {plans : List PairPlan} {random token : Nat}
  {keys : List TupleKey}

section Intact

variable {α β : Type}

/-- The result is not an error about the integrity of what is stored. -/
def Intact (result : Except StorageError α) : Prop :=
  Ensures result (fun _ => True) fun error => error.kind ≠ .integrity

theorem Intact.ok (value : α) : Intact (.ok value) := trivial

theorem Intact.bind {result : Except StorageError α} {next : α → Except StorageError β}
    (first : Intact result) (rest : ∀ value, result = .ok value → Intact (next value)) :
    Intact (result >>= next) := by
  cases result with
  | ok value => exact rest value rfl
  | error error => exact first

theorem Intact.mapM {convert : α → Except StorageError β} {items : List α}
    (each : ∀ item ∈ items, Intact (convert item)) : Intact (items.mapM convert) := by
  induction items with
  | nil => trivial
  | cons item items ih =>
    obtain ⟨first, rest⟩ := forall_mem_cons.mp each
    rw [mapM_cons]
    exact first.bind fun _ _ => (ih rest).bind fun _ _ => trivial

end Intact

section Pairs

variable {storeId : StoreId} {options : TupleWriteOptions} {timestamp : SystemTime}

/-- The clock is past the epoch, and not too far. -/
def Timely (time : SystemTime) : Prop := ∃ millis, epochMillis time = .ok millis

/-- What was read of a tuple is both items of one record, or neither. -/
def Whole (serde : Serde TupleEnvelope) (sha256 : Bytes → Bytes) (states : States)
    (storeId : StoreId) (key : TupleKey) : Prop :=
  ∃ record : Option TupleRecord,
    states (locations sha256 storeId key).forward = record.map (TupleRecord.item serde sha256) ∧
    states (locations sha256 storeId key).reverse = record.map (TupleRecord.item serde sha256) ∧
    ∀ found ∈ record, ReadsBack serde found.tuple ∧ found.tuple.key = key

theorem requireTupleIdentity_item {record : TupleRecord} (fits : ReadsBack serde record.tuple)
    (own : record.tuple.key = key) :
    requireTupleIdentity serde sha256 (record.item serde sha256) key = .ok record.stored := by
  rw [requireTupleIdentity, decodeStoredTuple_ok fits]
  exact if_pos own

/-- A whole pair is valid. -/
theorem Whole.validatePair_ok (whole : Whole serde sha256 states storeId key) :
    ∃ state, validatePair serde sha256 (states (locations sha256 storeId key).forward)
      (states (locations sha256 storeId key).reverse) key = .ok state := by
  obtain ⟨record, forward, reverse, fits⟩ := whole
  rw [forward, reverse]
  cases record with
  | none => exact ⟨.missing, rfl⟩
  | some record =>
    obtain ⟨readable, own⟩ := fits record rfl
    refine ⟨.present (sha256 (encodeTuple serde record.tuple)) record.tuple, ?_⟩
    simp only [Option.map_some, validatePair, requireTupleIdentity_item readable own, bind,
      Except.bind]
    simp only [TupleRecord.item, Item.digest, Item.payload]
    exact if_neg (by simp)

theorem planDelete_intact (canonical : key.Canonical)
    (whole : Whole serde sha256 states storeId key) :
    Intact (planDelete serde sha256 states storeId options key) := by
  obtain ⟨state, valid⟩ := whole.validatePair_ok
  rw [planDelete, tupleKeys_eq canonical]
  simp only [bind, Except.bind, valid]
  split
  · split
    · trivial
    · exact nofun
  · trivial

theorem planWrite_intact {tuple : RelationshipTuple} (canonical : tuple.key.Canonical)
    (timely : Timely timestamp) (whole : Whole serde sha256 states storeId tuple.key) :
    Intact (planWrite serde sha256 states storeId options timestamp tuple) := by
  obtain ⟨state, valid⟩ := whole.validatePair_ok
  obtain ⟨millis, moment⟩ := timely
  rw [planWrite, tupleKeys_eq canonical]
  simp only [bind, Except.bind, valid, moment]
  split
  · trivial
  · split
    · trivial
    · exact nofun

theorem planMutation_intact {mutation : Mutation} (timely : Timely timestamp)
    (whole : ∀ key ∈ mutation.keys, Whole serde sha256 states mutation.storeId key) :
    Intact (planMutation serde sha256 states timestamp mutation) := by
  refine Intact.bind (.mapM fun key member => ?_) fun _ _ => .bind (.mapM fun tuple member => ?_)
    fun _ _ => .ok _
  · exact planDelete_intact (mutation.canonical key member)
      (whole key (mem_append_left _ member))
  · exact planWrite_intact (mutation.written tuple member) timely
      (whole tuple.key (mem_append_right _ (mem_map_of_mem member)))

theorem readExactTupleKeys_intact
    (whole : ∀ key ∈ query.keys, Whole serde sha256 states query.storeId key) :
    Intact (readExactTupleKeys serde sha256 states query.storeId query.keys query.conditions
      query.options) := by
  have located : query.keys.mapM (tupleKeys sha256 query.storeId) =
      .ok (query.keys.map (locations sha256 query.storeId)) :=
    mapM_ok fun key member => tupleKeys_eq (query.canonical key member)
  unfold readExactTupleKeys
  split
  · exact nofun
  · rw [located]
    refine Intact.bind (.ok _) ?_
    rintro _ ⟨⟩
    refine Intact.bind (.mapM fun pair member => ?_) fun pairs _ => ?_
    · rw [← map_prod_left_eq_zip] at member
      obtain ⟨key, listed, rfl⟩ := mem_map.mp member
      obtain ⟨state, valid⟩ := (whole key listed).validatePair_ok
      rw [valid]
      trivial
    · unfold requireSnapshotLimit
      split
      · exact nofun
      · trivial

theorem readSingle_intact (canonical : key.Canonical)
    (found : ∃ record : Option TupleRecord,
      states (locations sha256 storeId key).forward = record.map (TupleRecord.item serde sha256) ∧
      ∀ found ∈ record, ReadsBack serde found.tuple ∧ found.tuple.key = key) :
    Intact (readSingle serde sha256 states storeId key) := by
  obtain ⟨record, forward, fits⟩ := found
  rw [readSingle, tupleKeys_eq canonical]
  refine Intact.bind (.ok _) ?_
  rintro _ ⟨⟩
  rw [forward]
  cases record with
  | none => exact nofun
  | some record =>
    obtain ⟨readable, own⟩ := fits record rfl
    rw [Option.map_some, orError_some]
    refine Intact.bind (.ok _) ?_
    rintro _ ⟨⟩
    rw [requireTupleIdentity_item readable own]
    trivial

end Pairs

theorem increment_intact (id : ChangeId) : Intact (increment id) := by
  unfold increment
  split
  · rintro ⟨⟩
  · trivial

theorem consecutive_intact (candidate : ChangeId) (more : Nat) :
    Intact (consecutive candidate more) := by
  induction more generalizing candidate with
  | zero => trivial
  | succ more ih =>
    exact (increment_intact candidate).bind fun next _ => (ih next).bind fun _ _ => .ok _

theorem allocateChangeIds_intact (timely : Timely now) (previous : Option ChangeId)
    (random count : Nat) : Intact (allocateChangeIds previous now random count) := by
  obtain ⟨millis, moment⟩ := timely
  rw [allocateChangeIds, moment]
  refine Intact.bind (.ok _) fun millis _ => Intact.bind ?_ fun first _ => ?_
  · unfold firstChangeId
    split
    · split
      · exact increment_intact _
      · trivial
    · trivial
  · cases count with
    | zero => trivial
    | succ more => exact consecutive_intact first more

theorem encodeChanges_intact {changes : List TupleChange} (nonempty : changes ≠ [])
    (increasing : changes.Pairwise fun first second => first.id < second.id)
    (timely : ∀ change ∈ changes, Timely change.timestamp) :
    Intact (encodeChanges serde changes) := by
  have ordered : ¬(changes.isEmpty || outOfOrder changes) = true := by
    rw [outOfOrder_eq_false.mpr increasing]
    simpa using nonempty
  rw [encodeChanges, if_neg ordered]
  split
  · exact nofun
  · refine Intact.bind (.mapM fun change member => ?_) fun records _ => ?_
    · obtain ⟨millis, moment⟩ := timely change member
      rw [encodeChange, moment]
      refine Intact.bind (.ok _) fun millis _ => ?_
      dsimp only
      split
      · exact nofun
      · trivial
    · dsimp only
      split
      · exact nofun
      · trivial

/-- The transaction of some changes is made, or cannot be for lack of room. -/
theorem changeTransaction_intact {last : Option ChangeId} (nonempty : plannedChanges plans ≠ [])
    (timely : Timely timestamp) (timely' : Timely now) :
    Intact (changeTransaction serde sha256 storeId timestamp plans (last.map Item.changeHead) now
      random) := by
  have previous : previousChange (last.map Item.changeHead) = .ok last := by
    cases last with
    | none | some => rfl
  rw [changeTransaction, previous]
  refine Intact.bind (.ok _) fun previous _ =>
    Intact.bind (allocateChangeIds_intact timely' _ _ _) fun ids allocated => ?_
  obtain ⟨counted, ordered, -⟩ := allocateChangeIds_spec allocated
  dsimp only
  refine Intact.bind ?_ fun last _ => Intact.bind ?_ fun payload _ =>
    Intact.bind ?_ fun _ _ => .ok _
  · cases ids.getLast? with
    | none => exact nofun
    | some id => trivial
  · refine encodeChanges_intact ?_ ?_ ?_
    · intro empty
      have back : (identified storeId timestamp (plannedChanges plans) ids).map
          (fun change => (change.operation, change.tuple)) = plannedChanges plans :=
        map_identified counted
      rw [empty] at back
      exact nonempty back.symm
    · have same : (identified storeId timestamp (plannedChanges plans) ids).map TupleChange.id =
          ids := ids_identified counted
      rw [← same] at ordered
      exact pairwise_map.mp ordered
    · intro change member
      obtain ⟨_, -, rfl⟩ := mem_map.mp member
      exact timely
  · obtain ⟨millis, moment⟩ := timely
    rw [moment]
    trivial

/-- A call reads both items of a tuple. -/
def Task.Covers (storeId : StoreId) (key : TupleKey) : Task → Prop
  | .write mutation _ _ => mutation.storeId = storeId ∧ key ∈ mutation.keys
  | .exact query => query.storeId = storeId ∧ key ∈ query.keys
  | .single _ _ _ => False

instance (storeId : StoreId) (key : TupleKey) (task : Task) :
    Decidable (task.Covers storeId key) := by
  cases task <;> unfold Task.Covers <;> infer_instance

/-- A call has read one item of a tuple and is going to read the other. -/
def Process.Between (sha256 : Bytes → Bytes) (storeId : StoreId) (key : TupleKey) :
    Process → Prop
  | .reading task pending _ => task.Covers storeId key ∧
      ¬((locations sha256 storeId key).forward ∈ pending ↔
        (locations sha256 storeId key).reverse ∈ pending)
  | _ => False

instance (sha256 : Bytes → Bytes) (storeId : StoreId) (key : TupleKey) :
    (process : Process) → Decidable (process.Between sha256 storeId key)
  | .reading _ _ _ => inferInstanceAs (Decidable (_ ∧ ¬(_ ↔ _)))
  | .idle | .allocating _ _ _ _ | .waiting _ _ _ _ | .written _ | .answered _
  | .answeredSingle _ => inferInstanceAs (Decidable False)

/-- No transaction changes a tuple between the reads of its two items. -/
def Event.Untorn (sha256 : Bytes → Bytes) (world : World) : Event → Prop
  | .deliver index => ∀ request, world.sent[index]? = some request → ∀ change ∈ request.changes,
      ∀ call, ¬(world.calls call).Between sha256 request.storeId change.tuple.key
  | .move _ _ => True

/-- The clocks are past the epoch. -/
def Event.Timely : Event → Prop
  | .move _ (.write _ timestamp) => Dynamo.Timely timestamp
  | .move _ (.refuse _ timestamp) => Dynamo.Timely timestamp
  | .move _ (.allocate now _ _) => Dynamo.Timely now
  | _ => True

/-- The service does not cancel a transaction as too large for its items or as invalid. -/
def Event.Served : Event → Prop
  | .move _ (.refuse reasons _) => ∀ reason ∈ reasons,
      reason ≠ .itemCollectionSizeLimitExceeded ∧ reason ≠ .validationError
  | _ => True

/-- No pair is changed while it is read, what is written is read back, the service accepts the
transactions as such, and the clocks are past the epoch. -/
structure Event.Undisturbed (serde : Serde TupleEnvelope) (sha256 : Bytes → Bytes) (world : World)
    (event : Event) : Prop where
  untorn : event.Untorn sha256 world
  readable : event.Admits (ReadsBack serde)
  served : event.Served
  timely : event.Timely

/-- The error that a call has ended with. -/
def Process.failure : Process → Option StorageError
  | .written (.error error) => some error
  | .answered (.error error) => some error
  | .answeredSingle (.error error) => some error
  | _ => none

/-- The tuples that a read has found. -/
def Process.found : Process → Option (List RelationshipTuple)
  | .answered (.ok tuples) => some tuples
  | _ => none

section Sightings

variable {storeId : StoreId} {pending : List PhysicalKey}

/-- What was read of the items of a tuple so far. -/
structure Seen (serde : Serde TupleEnvelope) (sha256 : Bytes → Bytes) (get : States)
    (storeId : StoreId) (key : TupleKey) (pending : List PhysicalKey) (states : States) : Prop where
  whole : (locations sha256 storeId key).forward ∉ pending →
    (locations sha256 storeId key).reverse ∉ pending → Whole serde sha256 states storeId key
  forward : (locations sha256 storeId key).forward ∉ pending →
    (locations sha256 storeId key).reverse ∈ pending →
    states (locations sha256 storeId key).forward = get (locations sha256 storeId key).forward
  reverse : (locations sha256 storeId key).reverse ∉ pending →
    (locations sha256 storeId key).forward ∈ pending →
    states (locations sha256 storeId key).reverse = get (locations sha256 storeId key).reverse

/-- What the table holds of a tuple is whole. -/
theorem Consistent.whole (consistent : Consistent serde sha256 (ReadsBack serde) get log)
    (canonical : key.Canonical) (storeId : StoreId) : Whole serde sha256 get storeId key := by
  obtain ⟨record, forward, reverse, replayed, fits⟩ := consistent.pair storeId key canonical
  refine ⟨record, forward, reverse, fun found held => ⟨fits found held, ?_⟩⟩
  have present : record = some found := held
  rw [present, Option.map_some] at replayed
  exact key_of_replay replayed

/-- Items that are as in the table are whole. -/
theorem Whole.of_get (whole : Whole serde sha256 get storeId key)
    (forward : states (locations sha256 storeId key).forward =
      get (locations sha256 storeId key).forward)
    (reverse : states (locations sha256 storeId key).reverse =
      get (locations sha256 storeId key).reverse) : Whole serde sha256 states storeId key := by
  obtain ⟨record, atForward, atReverse, fits⟩ := whole
  exact ⟨record, forward.trans atForward, reverse.trans atReverse, fits⟩

/-- Reading one more item. The second item of a pair is read while the first is still as it
was read, so both are what the table holds at that moment. -/
theorem Seen.read (consistent : Consistent serde sha256 (ReadsBack serde) get log)
    (canonical : key.Canonical) (distinct : pending.Nodup) {place : PhysicalKey}
    (asked : place ∈ pending) (seen : Seen serde sha256 get storeId key pending states) :
    Seen serde sha256 get storeId key (pending.erase place) (update states place (get place)) := by
  have table := consistent.whole canonical storeId
  have apart : (locations sha256 storeId key).reverse ≠ (locations sha256 storeId key).forward :=
    forward_ne_reverse.symm
  have gone : place ∉ pending.erase place := distinct.not_mem_erase
  by_cases first : place = (locations sha256 storeId key).forward
  · subst first
    have unchanged := mem_erase_of_ne (l := pending) apart
    refine ⟨fun _ left => ?_, fun _ _ => update_self .., fun _ inside => absurd inside gone⟩
    refine table.of_get (update_self ..) ?_
    rw [update_of_ne apart]
    exact seen.reverse (fun inside => left (unchanged.mpr inside)) asked
  by_cases second : place = (locations sha256 storeId key).reverse
  · subst second
    have unchanged := mem_erase_of_ne (l := pending) apart.symm
    refine ⟨fun left _ => ?_, fun _ inside => absurd inside gone, fun _ _ => update_self ..⟩
    refine table.of_get ?_ (update_self ..)
    rw [update_of_ne apart.symm]
    exact seen.forward (fun inside => left (unchanged.mpr inside)) asked
  · have forward := mem_erase_of_ne (l := pending) (Ne.symm first)
    have reverse := mem_erase_of_ne (l := pending) (Ne.symm second)
    constructor
    · intro left left'
      obtain ⟨record, atForward, atReverse, fits⟩ := seen.whole
        (fun inside => left (forward.mpr inside)) fun inside => left' (reverse.mpr inside)
      refine ⟨record, ?_, ?_, fits⟩
      · rw [update_of_ne (Ne.symm first), atForward]
      · rw [update_of_ne (Ne.symm second), atReverse]
    · intro left inside
      rw [update_of_ne (Ne.symm first)]
      exact seen.forward (fun held => left (forward.mpr held)) (reverse.mp inside)
    · intro left inside
      rw [update_of_ne (Ne.symm second)]
      exact seen.reverse (fun held => left (reverse.mpr held)) (forward.mp inside)

/-- A change of the table elsewhere. -/
theorem Seen.elsewhere {get' : States} (seen : Seen serde sha256 get storeId key pending states)
    (unchanged : ¬((locations sha256 storeId key).forward ∈ pending ↔
        (locations sha256 storeId key).reverse ∈ pending) →
      get' (locations sha256 storeId key).forward = get (locations sha256 storeId key).forward ∧
      get' (locations sha256 storeId key).reverse = get (locations sha256 storeId key).reverse) :
    Seen serde sha256 get' storeId key pending states := by
  refine ⟨seen.whole, fun left inside => ?_, fun left inside => ?_⟩
  · rw [seen.forward left inside, (unchanged fun same => left (same.mpr inside)).1]
  · rw [seen.reverse left inside, (unchanged fun same => left (same.mp inside)).2]

end Sightings

section Untouched

variable {admits : RelationshipTuple → Prop} {storeId storeId' : StoreId} {actions : List Action}
  {changes : List TupleChange}

/-- A transaction leaves the items of a tuple alone that it does not change. -/
theorem Sound.commit_untouched (sound : Sound serde sha256 admits storeId' actions changes)
    (canonical : key.Canonical)
    (untouched : ∀ change ∈ changes, ¬(storeId' = storeId ∧ change.tuple.key = key)) :
    Transaction.commit get actions (locations sha256 storeId key).forward =
        get (locations sha256 storeId key).forward ∧
      Transaction.commit get actions (locations sha256 storeId key).reverse =
        get (locations sha256 storeId key).reverse := by
  cases sound with
  | checks _ _ unchanged => rw [commit_of_unchanged unchanged]; exact ⟨rfl, rfl⟩
  | changes plan =>
    by_cases planned : ∃ pair ∈ plan.pairs, plan.storeId = storeId ∧ pair.1 = key
    · obtain ⟨pair, member, rfl, rfl⟩ := planned
      refine plan.commit_idle member ?_
      by_contra busy
      obtain ⟨change, changed⟩ := Option.ne_none_iff_exists'.mp busy
      obtain ⟨made, listed, rfl⟩ := plan.change_of_pair member changed
      exact untouched made listed
        ⟨rfl, ((plan.planned pair member).key_of_change changed).1⟩
    · refine ⟨plan.commit_forward fun pair member same => planned ⟨pair, member, ?_⟩,
        plan.commit_reverse fun pair member same => planned ⟨pair, member, ?_⟩⟩
      · obtain ⟨stores, keys⟩ := forward_inj canonical (plan.canonical pair member) same
        exact ⟨stores.symm, keys.symm⟩
      · obtain ⟨stores, keys⟩ := reverse_inj canonical (plan.canonical pair member) same
        exact ⟨stores.symm, keys.symm⟩

end Untouched

/-- What a call has seen of the table. A call that has ended has not reported corruption. -/
def Process.Sees (serde : Serde TupleEnvelope) (sha256 : Bytes → Bytes) (get : States) :
    Process → Prop
  | .reading task pending states => pending.Nodup ∧
      (∀ storeId key, task.Covers storeId key →
        key.Canonical ∧ Seen serde sha256 get storeId key pending states) ∧
      match task with
      | .write _ timestamp _ => Timely timestamp
      | .exact _ => True
      | .single storeId key _ => (locations sha256 storeId key).forward ∉ pending →
          ∃ record : Option TupleRecord,
            states (locations sha256 storeId key).forward =
              record.map (TupleRecord.item serde sha256) ∧
            ∀ found ∈ record, ReadsBack serde found.tuple ∧ found.tuple.key = key
  | .allocating _ timestamp _ plans => Timely timestamp ∧ plannedChanges plans ≠ []
  | process => ∀ error, process.failure = some error → error.kind ≠ .integrity

theorem placesOf_eq (canonical : ∀ key ∈ keys, key.Canonical) :
    placesOf sha256 storeId keys = .ok (keys.flatMap fun key =>
      [(locations sha256 storeId key).forward, (locations sha256 storeId key).reverse]) := by
  rw [placesOf, mapM_ok fun key member => tupleKeys_eq (canonical key member)]
  simp only [bind, Except.bind, flatMap_map]

/-- Nothing was read of the tuples of a call that starts. -/
theorem seen_start (member : key ∈ keys) :
    Seen serde sha256 get storeId key (keys.flatMap fun key =>
      [(locations sha256 storeId key).forward, (locations sha256 storeId key).reverse])
      (fun _ => none) := by
  have first : (locations sha256 storeId key).forward ∈ keys.flatMap fun key =>
      [(locations sha256 storeId key).forward, (locations sha256 storeId key).reverse] :=
    mem_flatMap.mpr ⟨key, member, mem_cons_self⟩
  have second : (locations sha256 storeId key).reverse ∈ keys.flatMap fun key =>
      [(locations sha256 storeId key).forward, (locations sha256 storeId key).reverse] :=
    mem_flatMap.mpr ⟨key, member, by simp⟩
  exact ⟨fun left _ => absurd first left, fun left _ => absurd first left,
    fun left _ => absurd second left⟩

theorem attempt_sees (timely : Timely timestamp) :
    (attempt sha256 mutation timestamp retries).Sees serde sha256 get := by
  have canonical : ∀ key ∈ mutation.keys, key.Canonical := fun _ => Mutation.keys_canonical
  rw [attempt, placesOf_eq canonical]
  refine ⟨places_nodup sha256 mutation.storeId canonical
    (Mutation.nodup_keys.mpr mutation.distinct), ?_, timely⟩
  rintro _ key ⟨rfl, member⟩
  exact ⟨canonical key member, seen_start member⟩

theorem startWrite_sees {mutation : Mutation} (timely : Timely timestamp) :
    (startWrite sha256 limits mutation timestamp).Sees serde sha256 get := by
  unfold startWrite validateMutation
  split
  · rename_i invalid
    split at invalid
    · cases invalid
      rintro _ ⟨⟩
      rintro ⟨⟩
    · split at invalid
      · cases invalid
      · cases invalid
        rintro _ ⟨⟩
        rintro ⟨⟩
  · exact attempt_sees timely

theorem startExact_sees : (startExact sha256 query).Sees serde sha256 get := by
  unfold startExact
  split
  · rintro _ ⟨⟩
    exact nofun
  · rw [placesOf_eq query.canonical]
    refine ⟨places_nodup sha256 query.storeId query.canonical query.distinct, ?_, trivial⟩
    rintro _ key ⟨rfl, member⟩
    exact ⟨query.canonical key member, seen_start member⟩

theorem startSingle_sees {canonical : key.Canonical} :
    (startSingle sha256 storeId key canonical).Sees serde sha256 get := by
  rw [startSingle, tupleKeys_eq canonical]
  exact ⟨nodup_singleton _, nofun, fun left => absurd (mem_singleton_self _) left⟩

theorem Intact.kind_of_error {α : Type} {result : Except StorageError α} (intact : Intact result)
    {error : StorageError} (raised : result = .error error) : error.kind ≠ .integrity := by
  rw [raised] at intact
  exact intact

theorem planOf_sees
    (sees : (Process.reading (.write mutation timestamp retries) [] states).Sees serde sha256 get)
    (result : planOf serde sha256 mutation timestamp retries states token = (next, sent)) :
    next.Sees serde sha256 get := by
  obtain ⟨-, seen, timely⟩ := sees
  have intact : Intact (planMutation serde sha256 states timestamp mutation.toMutation) := by
    refine planMutation_intact timely fun key member => ?_
    exact (seen mutation.storeId key ⟨rfl, member⟩).2.whole (by simp) (by simp)
  unfold planOf at result
  split at result
  · rename_i raised
    cases result
    rintro _ ⟨⟩
    exact intact.kind_of_error raised
  · split at result
    · split at result
      · cases result
        exact nofun
      · cases result
        exact nofun
    · rename_i nonempty
      cases result
      exact ⟨timely, by simpa using nonempty⟩

theorem requestOf_sees (consistent : Consistent serde sha256 (ReadsBack serde) get log)
    (sees : (Process.allocating mutation timestamp retries plans).Sees serde sha256 get)
    (timely : Timely now) (result : requestOf serde sha256 mutation timestamp retries plans
      (get (headKey mutation.storeId)) now random token = (next, sent)) :
    next.Sees serde sha256 get := by
  have head : get (headKey mutation.storeId) =
      ((log.history mutation.storeId).getLast?.map TupleChange.id).map Item.changeHead := by
    rw [consistent.head, Option.map_map]
    rfl
  have intact : Intact (changeTransaction serde sha256 mutation.storeId timestamp plans
      (get (headKey mutation.storeId)) now random) := by
    rw [head]
    exact changeTransaction_intact sees.2 sees.1 timely
  unfold requestOf at result
  split at result
  · rename_i raised
    cases result
    rintro _ ⟨⟩
    exact intact.kind_of_error raised
  · cases result
    exact nofun

theorem answerOf_sees {task : Task} (sees : (Process.reading task [] states).Sees serde sha256 get)
    (result : answerOf serde sha256 states task = some next) : next.Sees serde sha256 get := by
  obtain ⟨-, seen, held⟩ := sees
  cases task with
  | write mutation timestamp retries => cases result
  | exact query =>
    cases result
    have intact := readExactTupleKeys_intact fun key member =>
      (seen query.storeId key ⟨rfl, member⟩).2.whole (by simp) (by simp)
    intro error failed
    cases ended : readExactTupleKeys serde sha256 states query.storeId query.keys
      query.conditions query.options with
    | ok tuples =>
      rw [ended] at failed
      cases failed
    | error raised =>
      rw [ended] at failed
      cases failed
      exact intact.kind_of_error ended
  | single storeId key canonical =>
    cases result
    have intact := readSingle_intact canonical (held (by simp))
    intro error failed
    cases ended : readSingle serde sha256 states storeId key with
    | ok tuple =>
      rw [ended] at failed
      cases failed
    | error raised =>
      rw [ended] at failed
      cases failed
      exact intact.kind_of_error ended

theorem failureOf_sees {error : StorageError} (intact : error.kind ≠ .integrity)
    (result : failureOf error process = some next) : next.Sees serde sha256 get := by
  unfold failureOf at result
  split at result
  case h_6 => cases result
  all_goals
    cases result
    rintro _ ⟨⟩
    exact intact

/-- A transaction that is not called invalid is not reported as corrupt. -/
theorem classifyCancellationReasons_ne {reasons : List CancellationReason} (conflict : Bool)
    (served : ∀ reason ∈ reasons,
      reason ≠ .itemCollectionSizeLimitExceeded ∧ reason ≠ .validationError) :
    classifyCancellationReasons conflict reasons ≠ .integrity := by
  induction reasons generalizing conflict with
  | nil => cases conflict <;> exact nofun
  | cons reason reasons ih =>
    obtain ⟨here, rest⟩ := forall_mem_cons.mp served
    cases reason with
    | none | conditionalCheckFailed | transactionConflict => exact ih _ rest
    | itemCollectionSizeLimitExceeded => exact absurd rfl here.1
    | validationError => exact absurd rfl here.2
    | provisionedThroughputExceeded | throttlingError | other => exact nofun

theorem refusalOf_sees {reasons : List CancellationReason} {call : Nat}
    (served : (Event.move call (.refuse reasons timestamp)).Served) (timely : Timely timestamp) :
    (refusalOf sha256 mutation retries reasons timestamp).Sees serde sha256 get := by
  have intact := classifyCancellationReasons_ne false served
  unfold refusalOf
  split
  · cases retries with
    | zero =>
      rintro _ ⟨⟩
      exact nofun
    | succ retries => exact attempt_sees timely
  · rintro _ ⟨⟩
    exact intact

theorem Process.Steps.sees {table : Table} {applied : List Nat} {call : Nat} {move : Move}
    (stepped : Process.Steps serde sha256 limits table applied process move next sent)
    (consistent : Consistent serde sha256 (ReadsBack serde) table.get log)
    (served : (Event.move call move).Served) (timely : (Event.move call move).Timely)
    (sees : process.Sees serde sha256 table.get) : next.Sees serde sha256 table.get := by
  cases stepped with
  | write mutation timestamp => exact startWrite_sees timely
  | readExact query => exact startExact_sees
  | readSingle storeId key canonical => exact startSingle_sees
  | get task pending states place asked =>
    obtain ⟨distinct, seen, held⟩ := sees
    refine ⟨distinct.erase place, fun storeId key covers => ?_, ?_⟩
    · obtain ⟨canonical, seen⟩ := seen storeId key covers
      exact ⟨canonical, seen.read consistent canonical distinct asked⟩
    · cases task with
      | write mutation timestamp retries => exact held
      | exact query => trivial
      | single storeId key canonical =>
        intro left
        by_cases same : (locations sha256 storeId key).forward = place
        · obtain ⟨record, forward, -, fits⟩ := consistent.whole canonical storeId
          exact ⟨record, by rw [← same, update_self, forward], fits⟩
        · rw [update_of_ne same]
          exact held fun inside => left ((mem_erase_of_ne same).mpr inside)
  | plan mutation timestamp retries states token result => exact planOf_sees sees result
  | allocate mutation timestamp retries plans now random token result =>
    exact requestOf_sees consistent sees timely result
  | acknowledge mutation retries token ids done => exact nofun
  | refuse mutation retries token ids reasons timestamp => exact refusalOf_sees served timely
  | answer task states result => exact answerOf_sees sees result
  | fail _ error intact result => exact failureOf_sees intact result

/-- A transaction that changes no tuple between the reads of its items. -/
theorem Process.Sees.commit {request : Request}
    (sound : Sound serde sha256 (ReadsBack serde) request.storeId request.actions request.changes)
    (untorn : ∀ change ∈ request.changes,
      ¬process.Between sha256 request.storeId change.tuple.key)
    (sees : process.Sees serde sha256 get) :
    process.Sees serde sha256 (Transaction.commit get request.actions) := by
  cases process with
  | reading task pending states =>
    obtain ⟨distinct, seen, held⟩ := sees
    refine ⟨distinct, fun storeId key covers => ?_, held⟩
    obtain ⟨canonical, seen⟩ := seen storeId key covers
    refine ⟨canonical, seen.elsewhere fun between => sound.commit_untouched canonical ?_⟩
    rintro change member ⟨rfl, rfl⟩
    exact untorn change member ⟨covers, between⟩
  | allocating | idle | waiting | written | answered | answeredSingle => exact sees

/-- The invariant of undisturbed runs. -/
structure World.Untorn (serde : Serde TupleEnvelope) (sha256 : Bytes → Bytes) (world : World) :
    Prop extends world.Inv serde sha256 (ReadsBack serde) where
  sees : ∀ call, (world.calls call).Sees serde sha256 world.table.get

theorem World.Untorn.step {world next : World} {event : Event}
    (untorn : world.Untorn serde sha256) (met : event.Undisturbed serde sha256 world)
    (moved : world.step serde sha256 limits event = some next) : next.Untorn serde sha256 := by
  refine ⟨untorn.toInv.step readsWithin_readsBack met.readable moved, fun other => ?_⟩
  rcases World.step_cases moved with ⟨call, move, process, sent, rfl, stepped, rfl⟩ |
    ⟨index, request, rfl, listed, -, admitted, rfl⟩
  · by_cases same : other = call
    · rw [same]
      simpa only [update_self] using
        stepped.sees untorn.consistent met.served met.timely (untorn.sees call)
    · simpa only [update_of_ne same] using untorn.sees other
  · have sound := untorn.sent request (mem_of_getElem? listed)
    have after := (untorn.sees other).commit sound fun change member =>
      met.untorn request listed change member other
    rw [← Table.get_commit] at after
    exact after

/-- No call of an undisturbed run reports corruption. -/
theorem undisturbed_intact (world : World)
    (reached : Machine.Reaches (World.step serde sha256 limits)
      (fun world event => event.Undisturbed serde sha256 world) .initial world)
    (call : Nat) (error : StorageError) (ended : (world.calls call).failure = some error) :
    error.kind ≠ .integrity := by
  have start : World.initial.Untorn serde sha256 := ⟨World.inv_initial, fun _ => nofun⟩
  have untorn := reached.invariant _ (fun _ _ _ inv met moved => inv.step met moved) start
  have sees := untorn.sees call
  cases process : world.calls call with
  | reading | allocating =>
    rw [process] at ended
    cases ended
  | _ =>
    rw [process] at sees ended
    exact sees error ended

end

namespace Sample

/-- Both documents. -/
def lookup : ExactQuery where
  storeId := store
  keys := pair.map fun record => record.tuple.key
  conditions := .any
  options := ⟨.of 10⟩
  canonical := by
    intro key member
    obtain ⟨record, listed, rfl⟩ := mem_map.mp member
    exact pair_set.canonical record listed
  distinct := by decide

/-- Two writers have planned to write the first document, and a reader has read one item of the
second, when the first of them commits. The other one starts over and finds the document, the
reader reads on, and the transaction of a third writer is throttled. -/
def rivals : List Event :=
  [.move 0 (.write first 0), .move 1 (.write first 0)] ++ reads 0 "1" 0 ++ reads 1 "1" 1 ++
    [.move 0 (.allocate 0 5 2), .move 1 (.allocate 0 9 3), .move 2 (.readExact lookup),
    .move 2 (.get (forwardOf "2")), .deliver 0, .move 0 .acknowledge,
    .move 1 (.refuse [.none, .conditionalCheckFailed] 0)] ++ reads 1 "1" 4 ++
    [.move 2 (.get (reverseOf "2")), .move 2 (.get (forwardOf "1")),
    .move 2 (.get (reverseOf "1")), .move 2 .answer, .move 3 (.write second 0)] ++
    reads 3 "2" 5 ++ [.move 3 (.allocate 0 7 6), .move 3 (.refuse [.throttlingError] 0)]

/-- Checks that an event disturbs none of the first four calls. -/
def calm (world : World) : Event → Bool
  | .move call move => decide (call < 4) && match move with
      | .write mutation timestamp =>
          decide (∀ tuple ∈ mutation.writes, tuple.ReadsBack serde) && decide (timestamp = 0)
      | .refuse reasons timestamp => decide (timestamp = 0) && decide (∀ reason ∈ reasons,
          reason ≠ .itemCollectionSizeLimitExceeded ∧ reason ≠ .validationError)
      | .allocate now _ _ => decide (now = 0)
      | _ => true
  | .deliver index => world.sent[index]?.all fun request => request.changes.all fun change =>
      decide (∀ call : Nat, call < 4 → ¬(world.calls call).Between digest request.storeId
        change.tuple.key)

def rivalsWorld : World :=
  Machine.final (World.step serde digest limits) calm .initial rivals

/-- Only the first four calls are made. -/
def Few (world : World) : Prop := ∀ call, 4 ≤ call → world.calls call = .idle

theorem timely_zero : Timely 0 := ⟨0, rfl⟩

theorem calm_undisturbed (world : World) (event : Event) (few : Few world)
    (fits : calm world event = true) : event.Undisturbed serde digest world := by
  cases event with
  | move call move =>
    obtain ⟨-, fits⟩ := Bool.and_eq_true_iff.mp fits
    cases move with
    | write mutation timestamp =>
      obtain ⟨back, zero⟩ := Bool.and_eq_true_iff.mp fits
      have back := of_decide_eq_true back
      cases of_decide_eq_true zero
      exact ⟨trivial, back, trivial, timely_zero⟩
    | refuse reasons timestamp =>
      obtain ⟨zero, served⟩ := Bool.and_eq_true_iff.mp fits
      have served := of_decide_eq_true served
      cases of_decide_eq_true zero
      exact ⟨trivial, trivial, served, timely_zero⟩
    | allocate now random token =>
      cases of_decide_eq_true fits
      exact ⟨trivial, trivial, trivial, timely_zero⟩
    | _ => exact ⟨trivial, trivial, trivial, trivial⟩
  | deliver index =>
    refine ⟨fun request listed change member call => ?_, trivial, trivial, trivial⟩
    by_cases made : call < 4
    · rw [calm, listed] at fits
      exact of_decide_eq_true (all_eq_true.mp fits change member) call made
    · rw [few call (not_lt.mp made)]
      exact id

theorem few_of_calm (world : World) (event : Event) (next : World) (few : Few world)
    (fits : calm world event = true)
    (moved : world.step serde digest limits event = some next) : Few next := by
  intro other above
  rcases World.step_cases moved with ⟨call, move, process, sent, rfl, -, rfl⟩ |
    ⟨index, request, rfl, -, -, -, rfl⟩
  · have made := of_decide_eq_true (Bool.and_eq_true_iff.mp fits).1
    exact (update_of_ne (by omega) _ _).trans (few other above)
  · exact few other above

/-- A reader and a writer have read the first item of a tuple before it is written, and read
the second one after that. -/
def torn : List Event :=
  [.move 1 (.readExact lookup), .move 1 (.get (forwardOf "2")), .move 1 (.get (reverseOf "2")),
    .move 1 (.get (forwardOf "1")), .move 2 (.write first 0), .move 2 (.get (forwardOf "1")),
    .move 0 (.write first 0)] ++ reads 0 "1" 0 ++
    [.move 0 (.allocate 0 5 1), .deliver 0, .move 1 (.get (reverseOf "1")), .move 1 .answer,
    .move 2 (.get (reverseOf "1")), .move 2 (.plan 2)]

def tornWorld : World :=
  Machine.final (World.step serde digest limits) (fun _ _ => true) .initial torn

end Sample

/-- The rivals' errors are a conflict and an outage, and the reader has found the document. -/
theorem undisturbed_intact_rivals :
    ((rivalsWorld.calls 1).failure =
        some ⟨.conflict, "tuple_write_duplicate", some (record "1").tuple.key⟩ ∧
      (rivalsWorld.calls 3).failure = some (.new .unavailable "dynamodb_transaction_failed") ∧
      (rivalsWorld.calls 2).found = some [(record "1").tuple] ∧
      rivalsWorld.table.get (forwardOf "1") = some ((record "1").item serde digest)) ∧
    ∀ call error, (rivalsWorld.calls call).failure = some error → error.kind ≠ .integrity := by
  have taken : (Machine.runChecked (World.step serde digest limits) calm .initial
      rivals).isSome = true := by
    decide +kernel
  exact ⟨by decide +kernel, undisturbed_intact _ (Machine.reaches_final_of _ Few few_of_calm
    calm_undisturbed (fun _ _ => rfl) _ taken)⟩

/-- A pair that is written between the reads of its items is reported as corrupt. -/
theorem torn_pair_reported :
    Machine.Reaches (World.step serde digest limits) (fun _ _ => True) .initial tornWorld ∧
    (tornWorld.calls 1).failure = some (integrity "dynamodb_tuple_peer_missing") ∧
    (tornWorld.calls 2).failure = some (integrity "dynamodb_tuple_peer_missing") := by
  have taken : (Machine.runChecked (World.step serde digest limits)
      (fun _ _ => true) .initial torn).isSome = true := by
    decide +kernel
  exact ⟨Machine.reaches_final_any _ taken, by decide +kernel, by decide +kernel⟩

end OpenFga.Dynamo
