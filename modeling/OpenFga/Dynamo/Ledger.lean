import OpenFga.Dynamo.Write

/-!
# The table and the log of changes

The changes that were committed to a store are a log of packed mutations. A table is
consistent with the logs of its stores if both items of every tuple are what replaying the log
leaves under its key, the head of the changes names the last change of the log, the
identifiers increase along it, and the change items are its mutations. A transaction that was
planned from any items keeps this, since it requires what it was planned from.
-/

namespace OpenFga.Dynamo

open Transaction List

variable {timestamp : SystemTime} {log : Log} {get : States} {pair : TupleKey × PairPlan}
  {storeId : StoreId} {shard : UInt8} {sort : Bytes}

/-- The mutations that were committed to each store, in order. -/
abbrev Log := StoreId → List (List TupleChange)

def Log.history (log : Log) (storeId : StoreId) : List TupleChange := (log storeId).flatten

/-- A mutation that has changed something is appended. -/
def Log.append (log : Log) (storeId : StoreId) (changes : List TupleChange) : Log :=
  if changes.isEmpty then log else Function.update log storeId (log storeId ++ [changes])

section Statements

variable (serde : Serde TupleEnvelope) (sha256 : Bytes → Bytes) (admits : RelationshipTuple → Prop)

/-- The items of the table are those the log calls for. -/
structure Consistent (get : States) (log : Log) : Prop where
  pair : ∀ storeId key, key.Canonical → ∃ record : Option TupleRecord,
    get (locations sha256 storeId key).forward = record.map (TupleRecord.item serde sha256) ∧
    get (locations sha256 storeId key).reverse = record.map (TupleRecord.item serde sha256) ∧
    replay (log.history storeId) key = record.map TupleRecord.tuple ∧
    ∀ found ∈ record, admits found.tuple
  forwardOnly : ∀ storeId shard sort item, get (.forward storeId shard, sort) = some item →
    ∃ key, key.Canonical ∧ (locations sha256 storeId key).forward = (.forward storeId shard, sort)
  reverseOnly : ∀ storeId shard sort item, get (.reverse storeId shard, sort) = some item →
    ∃ key, key.Canonical ∧ (locations sha256 storeId key).reverse = (.reverse storeId shard, sort)
  head : ∀ storeId, get (headKey storeId) =
    (log.history storeId).getLast?.map fun change => .changeHead change.id
  headOnly : ∀ storeId sort item, get (.changeHead storeId, sort) = some item →
    (.changeHead storeId, sort) = headKey storeId
  increasing : ∀ storeId, (log.history storeId).Pairwise fun first second => first.id < second.id
  batches : ∀ storeId, ∀ batch ∈ log storeId, ∃ last payload written,
    batch.getLast? = some last ∧ encodeChanges serde batch = .ok payload ∧
    get (changeKey sha256 storeId last.id) = some (.change payload written)
  batchesOnly : ∀ storeId shard sort item, get (.change storeId shard, sort) = some item →
    ∃ batch ∈ log storeId, ∃ last, batch.getLast? = some last ∧
      changeKey sha256 storeId last.id = (.change storeId shard, sort)
  changes : ∀ storeId, ∀ change ∈ log.history storeId,
    change.storeId = storeId ∧ admits change.tuple

/-- A mutation that changes something, ready to be sent: the plans for its tuples, and
identifiers after the change that was the last one. -/
structure ChangePlan where
  storeId : StoreId
  timestamp : SystemTime
  pairs : List (TupleKey × PairPlan)
  previous : Option ChangeId
  ids : List ChangeId
  last : ChangeId
  payload : Bytes
  written : UInt64
  planned : ∀ pair ∈ pairs, Plans serde sha256 admits storeId timestamp pair.1 pair.2
  canonical : ∀ pair ∈ pairs, pair.1.Canonical
  distinct : (pairs.map Prod.fst).Nodup
  counted : ids.length = (plannedChanges (pairs.map Prod.snd)).length
  ordered : ids.Pairwise (· < ·)
  above : ∀ id ∈ ids, ∀ before ∈ previous, before < id
  ends : ids.getLast? = some last
  packed : encodeChanges serde (identified storeId timestamp
    (plannedChanges (pairs.map Prod.snd)) ids) = .ok payload

variable {serde sha256 admits}

def ChangePlan.changes (plan : ChangePlan serde sha256 admits) : List TupleChange :=
  identified plan.storeId plan.timestamp (plannedChanges (plan.pairs.map Prod.snd)) plan.ids

def ChangePlan.actions (plan : ChangePlan serde sha256 admits) : List Action :=
  plannedActions (plan.pairs.map Prod.snd) ++
    [updateHeadAction plan.storeId plan.previous plan.last,
    putAction (changeKey sha256 plan.storeId plan.last) (.change plan.payload plan.written)]

variable (serde sha256 admits)

/-- What a writer sends: conditions alone, or a mutation that changes something. -/
inductive Sound : StoreId → List Action → List TupleChange → Prop where
  | checks (storeId : StoreId) (actions : List Action)
      (unchanged : ∀ action ∈ actions, action.leaves = id) : Sound storeId actions []
  | changes (plan : ChangePlan serde sha256 admits) :
      Sound plan.storeId plan.actions plan.changes

end Statements

section Identified

variable {storeId : StoreId} {changes : List (ChangeOperation × RelationshipTuple)}
  {ids : List ChangeId}

theorem map_identified (counted : ids.length = changes.length) :
    (identified storeId timestamp changes ids).map
      (fun change => (change.operation, change.tuple)) = changes := by
  rw [identified, map_map]
  exact map_fst_zip counted.ge

theorem ids_identified (counted : ids.length = changes.length) :
    (identified storeId timestamp changes ids).map TupleChange.id = ids := by
  rw [identified, map_map]
  exact map_snd_zip counted.le

theorem storeId_of_identified :
    ∀ change ∈ identified storeId timestamp changes ids, change.storeId = storeId := by
  intro change member
  obtain ⟨_, -, rfl⟩ := mem_map.mp member
  rfl

theorem getLast?_identified (counted : ids.length = changes.length) {last : ChangeId}
    (ends : ids.getLast? = some last) : ∃ change,
      (identified storeId timestamp changes ids).getLast? = some change ∧ change.id = last := by
  have final : ((identified storeId timestamp changes ids).map TupleChange.id).getLast? =
      some last := by
    rw [ids_identified counted, ends]
  rw [getLast?_map] at final
  exact Option.map_eq_some_iff.mp final

end Identified

section Logs

variable {storeId storeId' : StoreId} {changes : List TupleChange}

theorem Log.history_append_self :
    (log.append storeId changes).history storeId = log.history storeId ++ changes := by
  unfold append history
  split
  · rename_i empty
    rw [isEmpty_iff.mp empty, append_nil]
  · rw [Function.update_self, flatten_append, flatten_singleton]

theorem Log.append_of_ne (other : storeId' ≠ storeId) :
    log.append storeId changes storeId' = log storeId' := by
  unfold append
  split
  · rfl
  · rw [Function.update_of_ne other]

theorem Log.history_append_of_ne (other : storeId' ≠ storeId) :
    (log.append storeId changes).history storeId' = log.history storeId' := by
  rw [history, append_of_ne other, history]

theorem Log.append_self (nonempty : changes ≠ []) :
    log.append storeId changes storeId = log storeId ++ [changes] := by
  rw [append, if_neg (by simpa using nonempty), Function.update_self]

end Logs

section Effects

variable {serde : Serde TupleEnvelope} {sha256 : Bytes → Bytes} {admits : RelationshipTuple → Prop}
  {storeId : StoreId} {key : TupleKey} {plan : PairPlan}

/-- What a planned change leaves under its key. -/
def plannedResult (before : Option RelationshipTuple) :
    Option (ChangeOperation × RelationshipTuple) → Option RelationshipTuple
  | none => before
  | some (.write, tuple) => some tuple
  | some (.delete, _) => none

section

variable (plans : Plans serde sha256 admits storeId timestamp key plan)

include plans

theorem Plans.key_of_change {change : ChangeOperation × RelationshipTuple}
    (changes : plan.change = some change) : change.2.key = key ∧ admits change.2 := by
  cases plans with
  | checks test => cases changes
  | deletes _ _ same admitted | puts _ same admitted =>
    cases changes
    exact ⟨same, admitted⟩

/-- A plan without a change only requires something. -/
theorem Plans.unchanged (idle : plan.change = none) :
    ∀ action ∈ plan.actions, action.leaves = id := by
  cases plans with
  | checks test =>
    intro action member
    rcases mem_pair.mp member with rfl | rfl
    all_goals rfl
  | deletes | puts => cases idle

/-- A plan is an action on each of the two items, and both come to the same. -/
theorem Plans.effect (record : Option TupleRecord)
    (admitted : ∀ found ∈ record, admits found.tuple) :
    ∃ (first second : Action) (result : Option TupleRecord), plan.actions = [first, second] ∧
      first.key = (locations sha256 storeId key).forward ∧
      second.key = (locations sha256 storeId key).reverse ∧
      first.leaves (record.map (TupleRecord.item serde sha256)) =
        result.map (TupleRecord.item serde sha256) ∧
      second.leaves (record.map (TupleRecord.item serde sha256)) =
        result.map (TupleRecord.item serde sha256) ∧
      plannedResult (record.map TupleRecord.tuple) plan.change = result.map TupleRecord.tuple ∧
      ∀ found ∈ result, admits found.tuple := by
  cases plans with
  | checks test => exact ⟨_, _, record, rfl, rfl, rfl, rfl, rfl, rfl, admitted⟩
  | deletes digest tuple same _ =>
    exact ⟨_, _, none, rfl, rfl, rfl, rfl, rfl, rfl, by simp⟩
  | puts put same fits moment =>
    refine ⟨_, _, some put, rfl, rfl, rfl, rfl, rfl, rfl, ?_⟩
    rintro _ ⟨⟩
    exact fits

end

end Effects

namespace ChangePlan

variable {serde : Serde TupleEnvelope} {sha256 : Bytes → Bytes} {admits : RelationshipTuple → Prop}
  (plan : ChangePlan serde sha256 admits)

theorem map_changes : (plan.changes.map fun change => (change.operation, change.tuple)) =
    plannedChanges (plan.pairs.map Prod.snd) :=
  map_identified plan.counted

theorem ids_changes : plan.changes.map TupleChange.id = plan.ids := ids_identified plan.counted

theorem getLast?_changes : ∃ change, plan.changes.getLast? = some change ∧ change.id = plan.last :=
  getLast?_identified plan.counted plan.ends

theorem changes_ne_nil : plan.changes ≠ [] := by
  intro empty
  obtain ⟨change, last, -⟩ := plan.getLast?_changes
  rw [empty] at last
  cases last

theorem pair_of_change {change : TupleChange} (member : change ∈ plan.changes) :
    ∃ pair ∈ plan.pairs, pair.2.change = some (change.operation, change.tuple) := by
  have listed := mem_map_of_mem (f := fun change => (change.operation, change.tuple)) member
  rw [plan.map_changes] at listed
  obtain ⟨paired, inside, changed⟩ := mem_filterMap.mp listed
  obtain ⟨pair, present, rfl⟩ := mem_map.mp inside
  exact ⟨pair, present, changed⟩

theorem key_of_change {change : TupleChange} (member : change ∈ plan.changes) :
    change.tuple.key ∈ plan.pairs.map Prod.fst ∧ admits change.tuple := by
  obtain ⟨pair, present, changed⟩ := plan.pair_of_change member
  obtain ⟨same, admitted⟩ := (plan.planned pair present).key_of_change changed
  exact ⟨mem_map.mpr ⟨pair, present, same.symm⟩, admitted⟩

theorem change_of_pair (member : pair ∈ plan.pairs) {change : ChangeOperation × RelationshipTuple}
    (changed : pair.2.change = some change) :
    ∃ made ∈ plan.changes, (made.operation, made.tuple) = change := by
  refine mem_map.mp (?_ : change ∈ plan.changes.map fun change =>
    (change.operation, change.tuple))
  rw [plan.map_changes, plannedChanges, filterMap_map]
  exact mem_filterMap.mpr ⟨pair, member, changed⟩

/-- Each tuple is changed once. -/
theorem changes_distinct :
    plan.changes.Pairwise fun first second => first.tuple.key ≠ second.tuple.key := by
  have planned : (plannedChanges (plan.pairs.map Prod.snd)).Pairwise
      fun first second => first.2.key ≠ second.2.key := by
    rw [plannedChanges, filterMap_map]
    refine List.Pairwise.filterMap _ ?_ (List.Pairwise.imp_of_mem (S := fun first second =>
      first ∈ plan.pairs ∧ second ∈ plan.pairs ∧ first.1 ≠ second.1)
      (fun member member' apart => ⟨member, member', apart⟩) (pairwise_map.mp plan.distinct))
    rintro first second ⟨member, member', apart⟩ change changed change' changed'
    rw [((plan.planned first member).key_of_change changed).1,
      ((plan.planned second member').key_of_change changed').1]
    exact apart
  rw [← plan.map_changes, pairwise_map] at planned
  exact planned

/-- The changes leave under a key what was planned for it. -/
theorem replay_pair (tuples : OpenFga.TupleSet) (member : pair ∈ plan.pairs) :
    replayFrom tuples plan.changes pair.1 = plannedResult (tuples pair.1) pair.2.change := by
  cases changed : pair.2.change with
  | none =>
    refine replayFrom_of_not_mem fun change listed same => ?_
    obtain ⟨other, present, changed'⟩ := plan.pair_of_change listed
    have keys := ((plan.planned other present).key_of_change changed').1
    have equal := inj_on_of_nodup_map plan.distinct present member (keys.symm.trans same)
    rw [equal, changed] at changed'
    cases changed'
  | some change =>
    obtain ⟨made, present, rfl⟩ := plan.change_of_pair member changed
    have key := ((plan.planned pair member).key_of_change changed).1
    rw [← key, replayFrom_of_mem plan.changes_distinct present, TupleChange.result]
    cases made.operation with
    | write | delete => rfl

/-- An action is on an item of a planned tuple, on the head or on the new change item. -/
theorem key_of_action {action : Action} (member : action ∈ plan.actions) :
    (∃ pair ∈ plan.pairs, action ∈ pair.2.actions ∧
      (action.key = (locations sha256 plan.storeId pair.1).forward ∨
        action.key = (locations sha256 plan.storeId pair.1).reverse)) ∨
      action.key = headKey plan.storeId ∨ action.key = changeKey sha256 plan.storeId plan.last := by
  rcases mem_append.mp member with onPair | onStore
  · obtain ⟨paired, inside, listed⟩ := mem_flatMap.mp onPair
    obtain ⟨pair, present, rfl⟩ := mem_map.mp inside
    obtain ⟨first, second, _, actions, forward, reverse, -⟩ :=
      (plan.planned pair present).effect none (by simp)
    refine .inl ⟨pair, present, listed, ?_⟩
    rw [actions] at listed
    rcases mem_pair.mp listed with rfl | rfl
    · exact .inl forward
    · exact .inr reverse
  · rcases mem_pair.mp onStore with rfl | rfl
    · exact .inr (.inl rfl)
    · exact .inr (.inr rfl)

theorem keys_of_pairs : (plannedActions (plan.pairs.map Prod.snd)).map Transaction.Action.key =
    plan.pairs.flatMap fun pair => [(locations sha256 plan.storeId pair.1).forward,
      (locations sha256 plan.storeId pair.1).reverse] := by
  rw [plannedActions, flatMap_map, map_flatMap]
  refine flatMap_congr fun pair member => ?_
  obtain ⟨first, second, _, actions, forward, reverse, -⟩ :=
    (plan.planned pair member).effect none (by simp)
  rw [actions, map_cons, map_singleton, forward, reverse]

/-- A transaction has one action on a key. -/
theorem keys_distinct : (plan.actions.map Transaction.Action.key).Nodup := by
  have canonical : ∀ key ∈ plan.pairs.map Prod.fst, key.Canonical := by
    intro key listed
    obtain ⟨pair, member, rfl⟩ := mem_map.mp listed
    exact plan.canonical pair member
  have places := places_nodup sha256 plan.storeId canonical plan.distinct
  rw [flatMap_map] at places
  rw [actions, map_append, plan.keys_of_pairs, nodup_append']
  refine ⟨places, ?_, ?_⟩
  · refine nodup_cons.mpr ⟨?_, nodup_singleton _⟩
    intro same
    cases congrArg Prod.fst (mem_singleton.mp same)
  · intro place onPair onStore
    obtain ⟨pair, -, here⟩ := mem_flatMap.mp onPair
    rcases mem_pair.mp here with rfl | rfl
    all_goals
      rcases mem_pair.mp onStore with same | same
      all_goals cases congrArg Prod.fst same

/-- A place that is in no plan, not the head and not the new change item is left alone. -/
theorem commit_elsewhere {place : PhysicalKey}
    (noForward : ∀ pair ∈ plan.pairs, place ≠ (locations sha256 plan.storeId pair.1).forward)
    (noReverse : ∀ pair ∈ plan.pairs, place ≠ (locations sha256 plan.storeId pair.1).reverse)
    (noHead : place ≠ headKey plan.storeId)
    (noChange : place ≠ changeKey sha256 plan.storeId plan.last) :
    commit get plan.actions place = get place := by
  refine commit_of_not_mem fun action member same => ?_
  rcases plan.key_of_action member with ⟨pair, present, -, here | here⟩ | here | here
  · exact noForward pair present (same.symm.trans here)
  · exact noReverse pair present (same.symm.trans here)
  · exact noHead (same.symm.trans here)
  · exact noChange (same.symm.trans here)

theorem commit_forward (unplanned : ∀ pair ∈ plan.pairs,
      (.forward storeId shard, sort) ≠ (locations sha256 plan.storeId pair.1).forward) :
    commit get plan.actions (.forward storeId shard, sort) =
      get (.forward storeId shard, sort) :=
  plan.commit_elsewhere unplanned (fun _ _ same => nomatch congrArg Prod.fst same)
    (fun same => nomatch congrArg Prod.fst same) fun same => nomatch congrArg Prod.fst same

theorem commit_reverse (unplanned : ∀ pair ∈ plan.pairs,
      (.reverse storeId shard, sort) ≠ (locations sha256 plan.storeId pair.1).reverse) :
    commit get plan.actions (.reverse storeId shard, sort) =
      get (.reverse storeId shard, sort) :=
  plan.commit_elsewhere (fun _ _ same => nomatch congrArg Prod.fst same) unplanned
    (fun same => nomatch congrArg Prod.fst same) fun same => nomatch congrArg Prod.fst same

theorem commit_other_head (other : (.changeHead storeId, sort) ≠ headKey plan.storeId) :
    commit get plan.actions (.changeHead storeId, sort) =
      get (.changeHead storeId, sort) :=
  plan.commit_elsewhere (fun _ _ same => nomatch congrArg Prod.fst same)
    (fun _ _ same => nomatch congrArg Prod.fst same) other
    fun same => nomatch congrArg Prod.fst same

theorem commit_other_change
    (other : (.change storeId shard, sort) ≠ changeKey sha256 plan.storeId plan.last) :
    commit get plan.actions (.change storeId shard, sort) =
      get (.change storeId shard, sort) :=
  plan.commit_elsewhere (fun _ _ same => nomatch congrArg Prod.fst same)
    (fun _ _ same => nomatch congrArg Prod.fst same)
    (fun same => nomatch congrArg Prod.fst same) other

theorem commit_head :
    commit get plan.actions (headKey plan.storeId) = some (.changeHead plan.last) := by
  have member : updateHeadAction plan.storeId plan.previous plan.last ∈ plan.actions := by
    simp [actions]
  exact commit_of_mem plan.keys_distinct member

theorem commit_change :
    commit get plan.actions (changeKey sha256 plan.storeId plan.last) =
      some (.change plan.payload plan.written) := by
  have member : putAction (changeKey sha256 plan.storeId plan.last)
      (.change plan.payload plan.written) ∈ plan.actions := by
    simp [actions]
  exact commit_of_mem plan.keys_distinct member

theorem mem_actions (member : pair ∈ plan.pairs) {action : Action}
    (inside : action ∈ pair.2.actions) : action ∈ plan.actions :=
  mem_append_left _ (mem_flatMap.mpr ⟨pair.2, mem_map_of_mem member, inside⟩)

/-- Both items of a planned tuple become what was planned. -/
theorem commit_pair (consistent : Consistent serde sha256 admits get log)
    (member : pair ∈ plan.pairs) : ∃ record : Option TupleRecord,
      commit get plan.actions (locations sha256 plan.storeId pair.1).forward =
        record.map (TupleRecord.item serde sha256) ∧
      commit get plan.actions (locations sha256 plan.storeId pair.1).reverse =
        record.map (TupleRecord.item serde sha256) ∧
      replay (log.history plan.storeId ++ plan.changes) pair.1 = record.map TupleRecord.tuple ∧
      ∀ found ∈ record, admits found.tuple := by
  obtain ⟨before, forward, reverse, replayed, fits⟩ :=
    consistent.pair plan.storeId pair.1 (plan.canonical pair member)
  obtain ⟨first, second, record, actions, atForward, atReverse, leaves, leaves', result, fits'⟩ :=
    (plan.planned pair member).effect before fits
  have listed : ∀ action ∈ [first, second], action ∈ plan.actions :=
    fun action inside => plan.mem_actions member (actions ▸ inside)
  refine ⟨record, ?_, ?_, ?_, fits'⟩
  · rw [← atForward, commit_of_mem plan.keys_distinct (listed first (by simp)), atForward, forward,
      leaves]
  · rw [← atReverse, commit_of_mem plan.keys_distinct (listed second (by simp)), atReverse, reverse,
      leaves']
  · rw [replay_append, plan.replay_pair _ member, replayed, result]

/-- A planned tuple that is not changed keeps its items. -/
theorem commit_idle (member : pair ∈ plan.pairs) (idle : pair.2.change = none) :
    commit get plan.actions (locations sha256 plan.storeId pair.1).forward =
        get (locations sha256 plan.storeId pair.1).forward ∧
      commit get plan.actions (locations sha256 plan.storeId pair.1).reverse =
        get (locations sha256 plan.storeId pair.1).reverse := by
  obtain ⟨first, second, _, actions, forward, reverse, -⟩ :=
    (plan.planned pair member).effect none (by simp)
  have unchanged := (plan.planned pair member).unchanged idle
  rw [actions] at unchanged
  have listed : ∀ action ∈ [first, second], action ∈ plan.actions :=
    fun action inside => plan.mem_actions member (actions ▸ inside)
  constructor
  · rw [← forward, commit_of_mem plan.keys_distinct (listed first (by simp)),
      unchanged first (by simp), id]
  · rw [← reverse, commit_of_mem plan.keys_distinct (listed second (by simp)),
      unchanged second (by simp), id]

/-- The plan was made after the last change of the log. -/
theorem previous_of_admitted (consistent : Consistent serde sha256 admits get log)
    (admitted : Admitted get plan.actions) {last : TupleChange}
    (ends : (log.history plan.storeId).getLast? = some last) : plan.previous = some last.id := by
  have required := admitted (updateHeadAction plan.storeId plan.previous plan.last)
    (by simp [actions])
  have head := consistent.head plan.storeId
  rw [ends] at head
  have found : lastChangeIs plan.previous (get (headKey plan.storeId)) = true := required
  rw [head] at found
  exact of_decide_eq_true found

theorem increasing_append (consistent : Consistent serde sha256 admits get log)
    (admitted : Admitted get plan.actions) :
    (log.history plan.storeId ++ plan.changes).Pairwise
      fun first second => first.id < second.id := by
  have old := consistent.increasing plan.storeId
  refine pairwise_append.mpr ⟨old, ?_, ?_⟩
  · have ordered := plan.ordered
    rw [← plan.ids_changes] at ordered
    exact pairwise_map.mp ordered
  · intro change member later listed
    have inside : later.id ∈ plan.ids := by
      rw [← plan.ids_changes]
      exact mem_map_of_mem listed
    cases ends : (log.history plan.storeId).getLast? with
    | none =>
      rw [getLast?_eq_none_iff.mp ends] at member
      cases member
    | some last =>
      have before := plan.previous_of_admitted consistent admitted ends
      exact (Paging.le_last old ends change member).trans_lt
        (plan.above later.id inside last.id before)

/-- The new change item was not there. -/
theorem changeKey_fresh (admitted : Admitted get plan.actions) :
    get (changeKey sha256 plan.storeId plan.last) = none := by
  have required := admitted (putAction (changeKey sha256 plan.storeId plan.last)
    (.change plan.payload plan.written)) (by simp [actions])
  exact Option.isNone_iff_eq_none.mp required

end ChangePlan

namespace Consistent

variable {serde : Serde TupleEnvelope} {sha256 : Bytes → Bytes} {admits : RelationshipTuple → Prop}
  (consistent : Consistent serde sha256 admits get log)

include consistent

/-- A transaction of a mutation that changes something keeps the table consistent. -/
theorem commit_plan (plan : ChangePlan serde sha256 admits) (admitted : Admitted get plan.actions) :
    Consistent serde sha256 admits (commit get plan.actions)
      (log.append plan.storeId plan.changes) where
  pair := by
    intro storeId key canonical
    by_cases here : storeId = plan.storeId ∧ key ∈ plan.pairs.map Prod.fst
    · obtain ⟨rfl, listed⟩ := here
      obtain ⟨pair, member, rfl⟩ := mem_map.mp listed
      rw [Log.history_append_self]
      exact plan.commit_pair consistent member
    · obtain ⟨record, forward, reverse, replayed, fits⟩ := consistent.pair storeId key canonical
      have apart : ∀ pair ∈ plan.pairs, ¬(storeId = plan.storeId ∧ key = pair.1) := by
        rintro pair member ⟨same, rfl⟩
        exact here ⟨same, mem_map_of_mem member⟩
      refine ⟨record, ?_, ?_, ?_, fits⟩
      · refine (plan.commit_forward fun pair member same => ?_).trans forward
        exact apart pair member (forward_inj canonical (plan.canonical pair member) same)
      · refine (plan.commit_reverse fun pair member same => ?_).trans reverse
        exact apart pair member (reverse_inj canonical (plan.canonical pair member) same)
      · by_cases same : storeId = plan.storeId
        · subst same
          rw [Log.history_append_self, replay_append, replayFrom_of_not_mem, replayed]
          rintro change member rfl
          exact here ⟨rfl, (plan.key_of_change member).1⟩
        · rw [Log.history_append_of_ne same, replayed]
  forwardOnly := by
    intro storeId shard sort item found
    by_cases planned : ∃ pair ∈ plan.pairs,
        (.forward storeId shard, sort) = (locations sha256 plan.storeId pair.1).forward
    · obtain ⟨pair, member, same⟩ := planned
      have stores : storeId = plan.storeId := (Partition.forward.inj (congrArg Prod.fst same)).1
      exact ⟨pair.1, plan.canonical pair member, by rw [same, stores]⟩
    · rw [plan.commit_forward fun pair member same => planned ⟨pair, member, same⟩] at found
      exact consistent.forwardOnly storeId shard sort item found
  reverseOnly := by
    intro storeId shard sort item found
    by_cases planned : ∃ pair ∈ plan.pairs,
        (.reverse storeId shard, sort) = (locations sha256 plan.storeId pair.1).reverse
    · obtain ⟨pair, member, same⟩ := planned
      have stores : storeId = plan.storeId := (Partition.reverse.inj (congrArg Prod.fst same)).1
      exact ⟨pair.1, plan.canonical pair member, by rw [same, stores]⟩
    · rw [plan.commit_reverse fun pair member same => planned ⟨pair, member, same⟩] at found
      exact consistent.reverseOnly storeId shard sort item found
  head := by
    intro storeId
    by_cases same : storeId = plan.storeId
    · subst same
      obtain ⟨change, last, id⟩ := plan.getLast?_changes
      rw [plan.commit_head, Log.history_append_self, getLast?_append, last, ← id]
      rfl
    · have other : headKey storeId ≠ headKey plan.storeId :=
        fun equal => same (Partition.changeHead.inj (congrArg Prod.fst equal))
      rw [Log.history_append_of_ne same, ← consistent.head]
      exact plan.commit_other_head other
  headOnly := by
    intro storeId sort item found
    by_cases here : (.changeHead storeId, sort) = headKey plan.storeId
    · rw [here, Partition.changeHead.inj (congrArg Prod.fst here)]
    · rw [plan.commit_other_head here] at found
      exact consistent.headOnly storeId sort item found
  increasing := by
    intro storeId
    by_cases same : storeId = plan.storeId
    · subst same
      rw [Log.history_append_self]
      exact plan.increasing_append consistent admitted
    · rw [Log.history_append_of_ne same]
      exact consistent.increasing storeId
  batches := by
    intro storeId batch member
    have old : ∀ batch ∈ log storeId, ∃ last payload written, batch.getLast? = some last ∧
        encodeChanges serde batch = .ok payload ∧
        commit get plan.actions (changeKey sha256 storeId last.id) =
          some (.change payload written) := by
      intro batch listed
      obtain ⟨last, payload, written, ends, packed, held⟩ := consistent.batches storeId batch listed
      refine ⟨last, payload, written, ends, packed, ?_⟩
      refine (plan.commit_other_change fun equal => ?_).trans held
      have absent := plan.changeKey_fresh admitted
      rw [← equal] at absent
      exact Option.some_ne_none _ (held.symm.trans absent)
    by_cases same : storeId = plan.storeId
    · subst same
      rw [Log.append_self plan.changes_ne_nil] at member
      rcases mem_append.mp member with earlier | new
      · exact old batch earlier
      · rw [mem_singleton.mp new]
        obtain ⟨change, last, id⟩ := plan.getLast?_changes
        refine ⟨change, plan.payload, plan.written, last, plan.packed, ?_⟩
        rw [id]
        exact plan.commit_change
    · rw [Log.append_of_ne same] at member
      exact old batch member
  batchesOnly := by
    intro storeId shard sort item found
    by_cases here : (.change storeId shard, sort) = changeKey sha256 plan.storeId plan.last
    · have same : storeId = plan.storeId := (Partition.change.inj (congrArg Prod.fst here)).1
      subst same
      obtain ⟨change, last, id⟩ := plan.getLast?_changes
      refine ⟨plan.changes, ?_, change, last, by rw [id, here]⟩
      rw [Log.append_self plan.changes_ne_nil]
      exact mem_append_right _ (mem_singleton_self _)
    · rw [plan.commit_other_change here] at found
      obtain ⟨batch, listed, rest⟩ := consistent.batchesOnly storeId shard sort item found
      refine ⟨batch, ?_, rest⟩
      by_cases same : storeId = plan.storeId
      · subst same
        rw [Log.append_self plan.changes_ne_nil]
        exact mem_append_left _ listed
      · rw [Log.append_of_ne same]
        exact listed
  changes := by
    intro storeId change member
    by_cases same : storeId = plan.storeId
    · subst same
      rw [Log.history_append_self] at member
      rcases mem_append.mp member with earlier | new
      · exact consistent.changes plan.storeId change earlier
      · exact ⟨storeId_of_identified change new, (plan.key_of_change new).2⟩
    · rw [Log.history_append_of_ne same] at member
      exact consistent.changes storeId change member

/-- Whatever a writer sends keeps the table consistent. -/
theorem commit {actions : List Action} {changes : List TupleChange}
    (sound : Sound serde sha256 admits storeId actions changes) (admitted : Admitted get actions) :
    Consistent serde sha256 admits (commit get actions) (log.append storeId changes) := by
  cases sound with
  | checks storeId actions unchanged =>
    rw [commit_of_unchanged unchanged]
    exact consistent
  | changes plan => exact consistent.commit_plan plan admitted

/-- The tuple items are those of admitted tuples. -/
theorem keepsRecords : KeepsRecords serde sha256 admits get := by
  rintro ⟨partition, sort⟩ payload digest written found
  have ofRecord : ∀ record : Option TupleRecord, (∀ held ∈ record, admits held.tuple) →
      record.map (TupleRecord.item serde sha256) = some (.tuple payload digest written) →
      ∃ record : TupleRecord, record.item serde sha256 = .tuple payload digest written ∧
        admits record.tuple := by
    intro record fits same
    obtain ⟨held, rfl, item⟩ := Option.map_eq_some_iff.mp same
    exact ⟨held, item, fits held rfl⟩
  cases partition with
  | forward storeId shard =>
    obtain ⟨key, canonical, place⟩ := consistent.forwardOnly storeId shard sort _ found
    obtain ⟨record, forward, -, -, fits⟩ := consistent.pair storeId key canonical
    exact ofRecord record fits (by rw [← forward, place, found])
  | reverse storeId shard =>
    obtain ⟨key, canonical, place⟩ := consistent.reverseOnly storeId shard sort _ found
    obtain ⟨record, -, reverse, -, fits⟩ := consistent.pair storeId key canonical
    exact ofRecord record fits (by rw [← reverse, place, found])
  | change storeId shard =>
    obtain ⟨batch, listed, last, ends, place⟩ := consistent.batchesOnly storeId shard sort _ found
    obtain ⟨last', payload', written', ends', -, held⟩ := consistent.batches storeId batch listed
    rw [ends] at ends'
    cases ends'
    rw [place, found] at held
    cases held
  | changeHead storeId =>
    have head := consistent.head storeId
    rw [← consistent.headOnly storeId sort _ found, found] at head
    obtain ⟨_, -, same⟩ := Option.map_eq_some_iff.mp head.symm
    cases same

end Consistent

theorem consistent_empty (serde : Serde TupleEnvelope) (sha256 : Bytes → Bytes)
    (admits : RelationshipTuple → Prop) :
    Consistent serde sha256 admits (fun _ => none) fun _ => [] where
  pair := fun _ _ _ => ⟨none, rfl, rfl, rfl, by simp⟩
  forwardOnly := nofun
  reverseOnly := nofun
  head := fun _ => rfl
  headOnly := nofun
  increasing := fun _ => .nil
  batches := fun _ => forall_mem_nil _
  batchesOnly := nofun
  changes := fun _ => forall_mem_nil _

end OpenFga.Dynamo
