import Mathlib.Order.Bounds.Basic
import OpenFga.Dynamo.Writers

/-!
# Coherence under concurrent writers

Every call keeps what it has read and planned in a form that makes its transaction sound,
whatever the others do meanwhile, and a sound transaction keeps the table consistent with the
log. So every store is coherent in every state that the calls can reach: its tuples are what
its changes have left, and its head names the greatest of them.
-/

namespace OpenFga.Dynamo

open List Dynamo.Sample

variable {mutation : DistinctMutation} {timestamp : SystemTime} {retries : Nat}
  {plans : List PairPlan} {next : Process} {sent : List Request} {token random : Nat}
  {now : SystemTime} {head : Option Item} {changes : List TupleChange} {table : Table} {log : Log}
  {world : World}

section Invariant

variable {serde : Serde TupleEnvelope} {sha256 : Bytes → Bytes} {limits : WriteLimits}
  {admits : RelationshipTuple → Prop}

/-- A step does not bring in a tuple that is not admitted. -/
def Event.Admits (admits : RelationshipTuple → Prop) : Event → Prop
  | .move _ (.write mutation _) => ∀ tuple ∈ mutation.writes, admits tuple
  | _ => True

/-- What a call has in hand. -/
def Process.Fits (serde : Serde TupleEnvelope) (sha256 : Bytes → Bytes)
    (admits : RelationshipTuple → Prop) : Process → Prop
  | .reading (.write mutation _ _) _ states =>
      KeepsRecords serde sha256 admits states ∧ ∀ tuple ∈ mutation.writes, admits tuple
  | .allocating mutation timestamp _ plans =>
      List.Forall₂ (Plans serde sha256 admits mutation.storeId timestamp) mutation.keys plans ∧
        ∀ tuple ∈ mutation.writes, admits tuple
  | .waiting mutation _ _ _ => ∀ tuple ∈ mutation.writes, admits tuple
  | _ => True

/-- What every step of the writers keeps. -/
structure World.Inv (serde : Serde TupleEnvelope) (sha256 : Bytes → Bytes)
    (admits : RelationshipTuple → Prop) (world : World) : Prop where
  consistent : Consistent serde sha256 admits world.table.get world.log
  calls : ∀ call, (world.calls call).Fits serde sha256 admits
  sent : ∀ request ∈ world.sent,
    Sound serde sha256 admits request.storeId request.actions request.changes

theorem attempt_fits (admitted : ∀ tuple ∈ mutation.writes, admits tuple) :
    (attempt sha256 mutation timestamp retries).Fits serde sha256 admits := by
  unfold attempt
  split
  · trivial
  · exact ⟨nofun, admitted⟩

theorem startWrite_fits {mutation : Mutation} (admitted : ∀ tuple ∈ mutation.writes, admits tuple) :
    (startWrite sha256 limits mutation timestamp).Fits serde sha256 admits := by
  unfold startWrite validateMutation
  split
  · trivial
  · rename_i valid
    split at valid
    · cases valid
    · split at valid
      · cases valid
        exact attempt_fits fun tuple member => admitted tuple ((mem_insertionSort _).mp member)
      · cases valid

/-- The plans of a mutation, paired with its keys. -/
theorem pairs_of_plans
    (planned : List.Forall₂ (Plans serde sha256 admits mutation.storeId timestamp)
      mutation.keys plans) : ∃ pairs : List (TupleKey × PairPlan), pairs.map Prod.snd = plans ∧
      (pairs.map Prod.fst).Nodup ∧ (∀ pair ∈ pairs, pair.1.Canonical) ∧
      ∀ pair ∈ pairs, Plans serde sha256 admits mutation.storeId timestamp pair.1 pair.2 := by
  have lengths := planned.length_eq
  have keys : (mutation.keys.zip plans).map Prod.fst = mutation.keys := map_fst_zip lengths.le
  have canonical : ∀ key ∈ mutation.keys, key.Canonical := fun _ => Mutation.keys_canonical
  refine ⟨mutation.keys.zip plans, map_snd_zip lengths.ge, ?_, ?_, ?_⟩
  · rw [keys]
    exact Mutation.nodup_keys.mpr mutation.distinct
  · intro pair member
    apply canonical
    rw [← keys]
    exact mem_map_of_mem member
  · intro pair member
    exact (forall₂_iff_zip.mp planned).2 member

/-- Plans without a change only require something. -/
theorem unchanged_of_plans {storeId : StoreId} {keys : List TupleKey}
    (planned : List.Forall₂ (Plans serde sha256 admits storeId timestamp) keys plans)
    (empty : plannedChanges plans = []) : ∀ action ∈ plannedActions plans, action.leaves = id := by
  intro action member
  obtain ⟨plan, listed, inside⟩ := mem_flatMap.mp member
  have idle : plan.change = none := by
    have none := filterMap_eq_nil_iff.mp empty
    exact none plan listed
  obtain ⟨key, plans⟩ : ∃ key, Plans serde sha256 admits storeId timestamp key plan := by
    induction planned with
    | nil => cases listed
    | cons first _ ih =>
      rcases mem_cons.mp listed with rfl | later
      · exact ⟨_, first⟩
      · exact ih (filterMap_eq_nil_iff.mpr fun plan member =>
          filterMap_eq_nil_iff.mp empty plan (mem_cons_of_mem _ member))
          (mem_flatMap.mpr ⟨plan, later, inside⟩) later
  exact plans.unchanged idle action inside

theorem planOf_spec (within : ReadsWithin serde admits) {states : States}
    (kept : KeepsRecords serde sha256 admits states)
    (admitted : ∀ tuple ∈ mutation.writes, admits tuple)
    (result : planOf serde sha256 mutation timestamp retries states token = (next, sent)) :
    next.Fits serde sha256 admits ∧ ∀ request ∈ sent,
      Sound serde sha256 admits request.storeId request.actions request.changes := by
  unfold planOf at result
  split at result
  · cases result
    exact ⟨trivial, forall_mem_nil _⟩
  · rename_i plans made
    have planned := planMutation_plans within kept admitted made
    split at result
    · rename_i empty
      split at result
      · cases result
        exact ⟨trivial, forall_mem_nil _⟩
      · cases result
        refine ⟨admitted, forall_mem_singleton.mpr (.checks _ _ ?_)⟩
        exact unchanged_of_plans planned (isEmpty_iff.mp empty)
    · cases result
      exact ⟨⟨planned, admitted⟩, forall_mem_nil _⟩

section

variable (planned : List.Forall₂ (Plans serde sha256 admits mutation.storeId timestamp)
  mutation.keys plans)

include planned

/-- The transaction of planned changes is sound. -/
theorem changeTransaction_sound {actions : List Action}
    (made : changeTransaction serde sha256 mutation.storeId timestamp plans head now random =
      .ok (actions, changes)) : Sound serde sha256 admits mutation.storeId actions changes := by
  obtain ⟨pairs, rfl, distinct, canonical, planned⟩ := pairs_of_plans planned
  obtain ⟨previous, -, made⟩ := bind_eq_ok.mp made
  obtain ⟨ids, allocated, made⟩ := bind_eq_ok.mp made
  obtain ⟨last, ends, made⟩ := bind_eq_ok.mp made
  obtain ⟨payload, packed, made⟩ := bind_eq_ok.mp made
  obtain ⟨written, -, made⟩ := bind_eq_ok.mp made
  obtain ⟨counted, ordered, above⟩ := allocateChangeIds_spec allocated
  have final : ids.getLast? = some last := by
    cases found : ids.getLast? with
    | none =>
      rw [found] at ends
      cases ends
    | some id =>
      rw [found] at ends
      cases ends
      rfl
  cases made
  exact .changes ⟨mutation.storeId, timestamp, pairs, previous, ids, last, payload,
    written, planned, canonical, distinct, counted, ordered, above, final, packed⟩

theorem requestOf_spec (admitted : ∀ tuple ∈ mutation.writes, admits tuple)
    (result : requestOf serde sha256 mutation timestamp retries plans head now random token =
      (next, sent)) : next.Fits serde sha256 admits ∧ ∀ request ∈ sent,
      Sound serde sha256 admits request.storeId request.actions request.changes := by
  unfold requestOf at result
  split at result
  · cases result
    exact ⟨trivial, forall_mem_nil _⟩
  · rename_i actions changes made
    cases result
    exact ⟨admitted, forall_mem_singleton.mpr (changeTransaction_sound planned made)⟩

end

theorem Process.Steps.fits (within : ReadsWithin serde admits) {applied : List Nat}
    {process : Process} {move : Move}
    (stepped : Process.Steps serde sha256 limits table applied process move next sent)
    (consistent : Consistent serde sha256 admits table.get log) {call : Nat}
    (met : (Event.move call move).Admits admits) (fits : process.Fits serde sha256 admits) :
    next.Fits serde sha256 admits ∧ ∀ request ∈ sent,
      Sound serde sha256 admits request.storeId request.actions request.changes := by
  cases stepped with
  | write mutation timestamp => exact ⟨startWrite_fits met, forall_mem_nil _⟩
  | readExact query =>
    refine ⟨?_, forall_mem_nil _⟩
    unfold startExact
    split
    · trivial
    · split
      all_goals trivial
  | readSingle storeId key canonical =>
    refine ⟨?_, forall_mem_nil _⟩
    unfold startSingle
    split
    all_goals trivial
  | get task pending states place asked =>
    refine ⟨?_, forall_mem_nil _⟩
    cases task with
    | write mutation timestamp retries =>
      obtain ⟨kept, admitted⟩ := fits
      refine ⟨fun other payload digest written found => ?_, admitted⟩
      by_cases same : other = place
      · rw [same, Function.update_self] at found
        exact consistent.keepsRecords place payload digest written found
      · rw [Function.update_of_ne same] at found
        exact kept other payload digest written found
    | exact | single => trivial
  | plan mutation timestamp retries states token result =>
    exact planOf_spec within fits.1 fits.2 result
  | allocate mutation timestamp retries plans now random token result =>
    exact requestOf_spec fits.1 fits.2 result
  | acknowledge mutation retries token ids done => exact ⟨trivial, forall_mem_nil _⟩
  | refuse mutation retries token ids reasons timestamp =>
    refine ⟨?_, forall_mem_nil _⟩
    unfold refusalOf
    split
    · cases retries with
      | zero => trivial
      | succ retries => exact attempt_fits fits
    · trivial
  | answer task states result =>
    refine ⟨?_, forall_mem_nil _⟩
    cases task with
    | write mutation timestamp retries => cases result
    | exact | single =>
      cases result
      trivial
  | fail _ error intact result =>
    refine ⟨?_, forall_mem_nil _⟩
    unfold failureOf at result
    split at result
    all_goals
      cases result
      try trivial

theorem World.Inv.step (within : ReadsWithin serde admits) {next : World}
    {event : Event} (inv : world.Inv serde sha256 admits) (met : event.Admits admits)
    (moved : world.step serde sha256 limits event = some next) : next.Inv serde sha256 admits := by
  rcases World.step_cases moved with ⟨call, move, process, sent, rfl, stepped, rfl⟩ |
    ⟨index, request, rfl, listed, -, admitted, rfl⟩
  · obtain ⟨fits, sound⟩ := stepped.fits within inv.consistent met (inv.calls call)
    refine ⟨inv.consistent, fun other => ?_, forall_mem_append.mpr ⟨inv.sent, sound⟩⟩
    by_cases same : other = call
    · rw [same]
      simpa only [Function.update_self] using fits
    · simpa only [Function.update_of_ne same] using inv.calls other
  · refine ⟨?_, inv.calls, inv.sent⟩
    have sound := inv.sent request (mem_of_getElem? listed)
    have after := inv.consistent.commit sound admitted
    rw [← Table.get_commit] at after
    exact after

theorem World.inv_initial : World.initial.Inv serde sha256 admits where
  consistent := by
    have empty : World.initial.table.get = fun _ => none := by
      funext place
      exact Std.ExtTreeMap.getElem?_empty
    rw [empty]
    exact consistent_empty serde sha256 admits
  calls := fun _ => trivial
  sent := forall_mem_nil _

theorem World.inv_of_reaches (within : ReadsWithin serde admits)
    (reached : Machine.Reaches (World.step serde sha256 limits)
      (fun _ event => event.Admits admits) .initial world) : world.Inv serde sha256 admits :=
  reached.invariant _ (fun _ _ _ inv met moved => inv.step within met moved) inv_initial

end Invariant

section Coherence

variable {serde : Serde TupleEnvelope} {sha256 : Bytes → Bytes} {limits : WriteLimits}

/-- What is kept of a store. The pairs are those of the tuples that replaying the changes
leaves, and no other tuple item is there. The head names the greatest change, the changes
increase in the order of their commits, and the change items are the committed mutations. -/
structure Coherent (serde : Serde TupleEnvelope) (sha256 : Bytes → Bytes) (table : Table)
    (log : Log) (storeId : StoreId) : Prop where
  pair : ∀ key, key.Canonical → ∃ record : Option TupleRecord,
    table.get (locations sha256 storeId key).forward = record.map (TupleRecord.item serde sha256) ∧
    table.get (locations sha256 storeId key).reverse = record.map (TupleRecord.item serde sha256) ∧
    replay (log.history storeId) key = record.map TupleRecord.tuple
  forwardOnly : ∀ shard sort item, table.get (.forward storeId shard, sort) = some item →
    ∃ key, key.Canonical ∧ (locations sha256 storeId key).forward = (.forward storeId shard, sort)
  reverseOnly : ∀ shard sort item, table.get (.reverse storeId shard, sort) = some item →
    ∃ key, key.Canonical ∧ (locations sha256 storeId key).reverse = (.reverse storeId shard, sort)
  noHead : table.get (headKey storeId) = none ↔ log.history storeId = []
  head : ∀ id, table.get (headKey storeId) = some (.changeHead id) ↔
    IsGreatest {other | ∃ change ∈ log.history storeId, change.id = other} id
  increasing : (log.history storeId).Pairwise fun first second => first.id < second.id
  batches : ∀ shard sort payload,
    (∃ written, table.get (.change storeId shard, sort) = some (.change payload written)) ↔
      ∃ batch ∈ log storeId, ∃ last, batch.getLast? = some last ∧
        encodeChanges serde batch = .ok payload ∧
        changeKey sha256 storeId last.id = (.change storeId shard, sort)

/-- The last of increasing changes is the greatest. -/
theorem isGreatest_iff_getLast?
    (increasing : changes.Pairwise fun first second => first.id < second.id) (id : ChangeId) :
    (changes.getLast?.map fun change => Item.changeHead change.id) = some (.changeHead id) ↔
      IsGreatest {other | ∃ change ∈ changes, change.id = other} id := by
  constructor
  · intro named
    obtain ⟨last, ends, same⟩ := Option.map_eq_some_iff.mp named
    cases same
    refine ⟨⟨last, mem_of_getLast? ends, rfl⟩, ?_⟩
    rintro _ ⟨change, member, rfl⟩
    exact Paging.le_last increasing ends change member
  · rintro ⟨⟨change, member, rfl⟩, greatest⟩
    cases ends : changes.getLast? with
    | none =>
      rw [getLast?_eq_none_iff.mp ends] at member
      cases member
    | some last =>
      have below := Paging.le_last increasing ends change member
      have above := greatest ⟨last, mem_of_getLast? ends, rfl⟩
      rw [Option.map_some, le_antisymm above below]

theorem Consistent.coherent {admits : RelationshipTuple → Prop}
    (consistent : Consistent serde sha256 admits table.get log) (storeId : StoreId) :
    Coherent serde sha256 table log storeId where
  pair := by
    intro key canonical
    obtain ⟨record, forward, reverse, replayed, -⟩ := consistent.pair storeId key canonical
    exact ⟨record, forward, reverse, replayed⟩
  forwardOnly := consistent.forwardOnly storeId
  reverseOnly := consistent.reverseOnly storeId
  noHead := by rw [consistent.head, Option.map_eq_none_iff, getLast?_eq_none_iff]
  head := by
    intro id
    rw [consistent.head]
    exact isGreatest_iff_getLast? (consistent.increasing storeId) id
  increasing := consistent.increasing storeId
  batches := by
    intro shard sort payload
    constructor
    · rintro ⟨written, found⟩
      obtain ⟨batch, listed, last, ends, place⟩ := consistent.batchesOnly storeId shard sort _ found
      obtain ⟨last', payload', _, ends', packed, held⟩ := consistent.batches storeId batch listed
      rw [ends] at ends'
      cases ends'
      rw [place, found] at held
      cases held
      exact ⟨batch, listed, last, ends, packed, place⟩
    · rintro ⟨batch, listed, last, ends, packed, place⟩
      obtain ⟨last', payload', written, ends', packed', held⟩ :=
        consistent.batches storeId batch listed
      rw [ends] at ends'
      cases ends'
      rw [packed] at packed'
      cases packed'
      rw [place] at held
      exact ⟨written, held⟩

/-- Whatever the writers and readers do, and in whatever order, every store is coherent. -/
theorem writers_coherent (world : World)
    (reached : Machine.Reaches (World.step serde sha256 limits) (fun _ _ => True) .initial world)
    (storeId : StoreId) : Coherent serde sha256 world.table world.log storeId := by
  have admitted : ∀ (world : World) (event : Event), True → event.Admits fun _ => True := by
    intro _ event _
    cases event with
    | deliver index => trivial
    | move call move =>
      cases move with
      | write mutation timestamp => exact fun _ _ => trivial
      | _ => trivial
  exact (World.inv_of_reaches (fun _ _ _ _ => trivial)
    (reached.mono admitted)).consistent.coherent storeId

end Coherence

namespace Sample

def limits : WriteLimits := ⟨10, 3, by decide⟩

/-- Makes anne a viewer of a document. -/
def adding (document : String) (named : CanonicalText 252 isObjectIdCharacter document)
    (concrete : document ≠ "*") : Mutation where
  storeId := store
  deletes := []
  writes := [(record document).tuple]
  options := ⟨.error, .error⟩
  canonical := forall_mem_nil _
  written := forall_mem_singleton.mpr (record_canonical named concrete)

def first : Mutation := adding "1" (by decide) (by decide)

def second : Mutation := adding "2" (by decide) (by decide)

/-- The digest does not matter here. -/
def digest (bytes : Bytes) : Bytes := bytes

def forwardOf (document : String) : PhysicalKey :=
  (locations digest store (record document).tuple.key).forward

def reverseOf (document : String) : PhysicalKey :=
  (locations digest store (record document).tuple.key).reverse

/-- Reads the items of a document and plans. -/
def reads (call : Nat) (document : String) (token : Nat) : List Event :=
  [.move call (.get (forwardOf document)), .move call (.get (reverseOf document)),
    .move call (.plan token)]

/-- Two writers have read the same head. The second is refused and starts over, and the clock
has gone back meanwhile. -/
def contended : List Event :=
  [.move 0 (.write first 2000000), .move 1 (.write second 2000000)] ++ reads 0 "1" 0 ++
    reads 1 "2" 1 ++ [.move 0 (.allocate 2000000 5 2), .move 1 (.allocate 2000000 9 3), .deliver 0,
    .move 0 .acknowledge, .move 1 (.refuse [.conditionalCheckFailed] 1000000)] ++ reads 1 "2" 4 ++
    [.move 1 (.allocate 1000000 9 5), .deliver 2, .move 1 .acknowledge]

def contendedWorld : World :=
  Machine.final (World.step serde digest limits) (fun _ _ => true) .initial contended

end Sample

theorem writers_coherent_contended :
    Coherent serde digest contendedWorld.table contendedWorld.log store ∧
    ((contendedWorld.log.history store).map fun change =>
      (change.id, change.tuple.key)) =
      [(.fromParts 2 5, (record "1").tuple.key),
        (.fromParts 2 6, (record "2").tuple.key)] := by
  have taken : (Machine.runChecked (World.step serde digest limits)
      (fun _ _ => true) .initial contended).isSome = true := by
    decide +kernel
  exact ⟨writers_coherent _ (Machine.reaches_final_any _ taken) store, by decide +kernel⟩

end OpenFga.Dynamo
