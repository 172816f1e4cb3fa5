import OpenFga.Dynamo.Changes
import OpenFga.Lib.Following

/-!
# Following the changes of a store

A reader pages through the changes of a store while writers commit. Its pages are made from
one query of each shard, and between these queries writers may take their steps. After a page
the reader goes on at the continuation, and after the last change it was given if there is
none.

A mutation that is committed to a shard that was already queried is missing from the page. If
a later one is committed to a shard that is queried afterwards, the page ends beyond the
missing one and the reader never sees it. The same comes of a query that is not strongly
consistent and is answered from an earlier state of the shard. Without such commits and such
answers the reader receives every change once and in order.
-/

namespace OpenFga.Dynamo

open Paging Transaction Utf8 List Dynamo.Sample RelationshipTuple

variable {filter : ChangeFilter} {changes : List TupleChange} {feed : Feed}
  {cursor : Option ChangeId} {windows : List (UInt8 × RawWindow)} {more : List TupleChange}
  {options : PageOptions} {after : Option ChangeId} {shard : UInt8} {world : World}

/-- What a reader asks for, and the change it starts after. -/
structure Subscription where
  storeId : StoreId
  filter : ChangeFilter
  start : Option ChangeId

/-- Where a reader is: between two pages, the last of which had a continuation or not, within
the queries of a page, or stopped. -/
inductive Stage where
  | resting (finished : Bool)
  | querying (options : PageOptions) (after : Option ChangeId) (windows : List (UInt8 × RawWindow))
  | failed (error : StorageError)

/-- A reader beside the writers. The tables before the present one are kept as `past`, the last
one first, and the changes that were committed when the last page began as `began`. -/
structure Feed where
  world : World
  past : List Table
  consistency : ConsistencyPreference
  cursor : Option StorageCursor
  received : List TupleChange
  stage : Stage
  began : List TupleChange

/-- A writer moves, or the reader does. -/
inductive FeedEvent where
  | world (event : Event)
  | ask (consistency : ConsistencyPreference) (maximumResults : Nat)
      (positive : 1 ≤ maximumResults)
  | query (shard : UInt8) (service : QueryService) (lag : Nat)
  | abort

section Steps

variable (serde : Serde TupleEnvelope) (sha256 : Bytes → Bytes) (limits : WriteLimits)
  (reader : Subscription)

def Feed.initial : Feed :=
  ⟨.initial, [], .minimizeLatency, reader.start.map idCursor, [], .resting false, []⟩

/-- Whether queries are sent as strongly consistent. -/
def strong : ConsistencyPreference → Bool
  | .higherConsistency => true
  | .minimizeLatency => false

/-- The table that a query sees. One that is not strongly consistent may see a table that is
some steps old. -/
def Feed.view (feed : Feed) (lag : Nat) : Table :=
  if strong feed.consistency then feed.world.table
  else (feed.world.table :: feed.past).getD lag feed.world.table

/-- The shards that were queried for the page. -/
def Stage.queried : Stage → List UInt8
  | .querying _ _ windows => windows.map Prod.fst
  | _ => []

/-- The last page had no continuation. -/
def Stage.finished : Stage → Bool
  | .resting finished => finished
  | _ => false

/-- Begins a page at the cursor. -/
def Feed.ask (feed : Feed) (consistency : ConsistencyPreference) (maximumResults : Nat)
    (positive : 1 ≤ maximumResults) : Feed :=
  match feed.cursor.mapM changeCursor with
  | .error error => { feed with stage := .failed error }
  | .ok after =>
      { feed with
        consistency := consistency
        stage := .querying ⟨maximumResults, positive, feed.cursor⟩ after [] }

/-- Takes the page that the windows give. -/
def Feed.take (feed : Feed) (options : PageOptions) (after : Option ChangeId)
    (windows : List (UInt8 × RawWindow)) : Feed :=
  match changesPage serde sha256 reader.storeId after reader.filter options.maximumResults
      windows with
  | .error error => { feed with stage := .failed error }
  | .ok page =>
      { feed with
        cursor := page.continuation.or
          ((page.items.getLast?.map fun change => idCursor change.id).or feed.cursor)
        received := feed.received ++ page.items
        stage := .resting page.continuation.isNone }

/-- Notes what is committed when the first shard is queried. -/
def Feed.begin (feed : Feed) (windows : List (UInt8 × RawWindow)) : Feed :=
  if windows.isEmpty then { feed with began := feed.world.log.history reader.storeId } else feed

/-- Queries a shard. The page is made as soon as all of them are queried. -/
def Feed.query (feed : Feed) (options : PageOptions) (after : Option ChangeId)
    (windows : List (UInt8 × RawWindow)) (shard : UInt8) (service : QueryService) (lag : Nat) :
    Feed :=
  let feed := feed.begin reader windows
  match queryRawWindow (feed.view lag (.change reader.storeId shard)) service
      (after.map fun id => bytesOf id.text) changePageBudget with
  | .error error => { feed with stage := .failed error }
  | .ok window =>
      let windows := windows ++ [(shard, window)]
      if windows.length < changeShards.toNat then
        { feed with stage := .querying options after windows }
      else feed.take serde sha256 reader options after windows

def Feed.step (feed : Feed) : FeedEvent → Option Feed
  | .world event => (feed.world.step serde sha256 limits event).map fun world =>
      { feed with
        world := world
        past := feed.world.table :: feed.past }
  | .ask consistency maximumResults positive =>
      match feed.stage with
      | .querying _ _ _ => none
      | _ => some (feed.ask consistency maximumResults positive)
  | .query shard service lag =>
      match feed.stage with
      | .querying options after windows =>
          if shard < changeShards ∧ shard ∉ windows.map Prod.fst then
            some (feed.query serde sha256 reader options after windows shard service lag)
          else none
      | _ => none
  | .abort =>
      match feed.stage with
      | .querying _ _ _ => some { feed with stage := .resting false }
      | _ => none

/-- No mutation is committed to a shard that was queried for a page which is not complete, a
query sees the present state of its shard, as a strongly consistent one does, and the tuples
that are written are read back. -/
def FeedEvent.Steady (feed : Feed) : FeedEvent → Prop
  | .world (.deliver index) => ∀ request ∈ feed.world.sent[index]?,
      request.storeId = reader.storeId → ∀ last ∈ request.changes.getLast?,
        stableShard sha256 (bytesOf last.id.text) changeShards ∉ feed.stage.queried
  | .world event => event.Admits (ReadsBack serde)
  | .query shard _ lag => feed.view lag (.change reader.storeId shard) =
      feed.world.table (.change reader.storeId shard)
  | _ => True

end Steps

/-- The reader has received matching changes after its start, each once and in the order of
their identifiers. Its cursor has not passed a matching change that it has not received, and
after a page without a continuation it has all that were committed when the page began. -/
structure Delivered (reader : Subscription) (feed : Feed) : Prop where
  ordered : feed.received.Pairwise fun first second => first.id < second.id
  accepted : ∀ change ∈ feed.received,
    change ∈ matching reader.filter (feed.world.log.history reader.storeId) ∧
      After reader.start change.id
  unpassed : ∃ cursor : Option ChangeId, feed.cursor = cursor.map idCursor ∧
    ∀ change ∈ matching reader.filter (feed.world.log.history reader.storeId),
      After reader.start change.id → ∀ reached ∈ cursor, change.id ≤ reached →
        change ∈ feed.received
  complete : feed.stage.finished = true → ∀ change ∈ matching reader.filter feed.began,
    After reader.start change.id → change ∈ feed.received
  succeeds : ∀ error, feed.stage ≠ .failed error

section Invariant

variable {serde : Serde TupleEnvelope} {sha256 : Bytes → Bytes} {limits : WriteLimits}
  {reader : Subscription}

/-- What is known of a page that is not complete: the windows still fit the table. -/
structure Halfway (reader : Subscription) (table : Table) (history began : List TupleChange)
    (after : Option ChangeId) (windows : List (UInt8 × RawWindow)) : Prop where
  distinct : (windows.map Prod.fst).Nodup
  known : ∀ shard ∈ windows.map Prod.fst, shard < changeShards
  answers : ∀ window ∈ windows,
    Answers (after.map idText) (table (.change reader.storeId window.1)) window.2
  missing : windows.length < changeShards.toNat
  began : windows ≠ [] → began ⊆ history

def Stage.Fits (reader : Subscription) (feed : Feed) (cursor : Option ChangeId) : Stage → Prop
  | .resting finished => finished = true → ∀ change ∈ matching reader.filter feed.began,
      After reader.start change.id → change ∈ feed.received
  | .querying _ after windows => after = cursor ∧ Halfway reader feed.world.table
      (feed.world.log.history reader.storeId) feed.began after windows
  | .failed _ => False

/-- What every step keeps. The cursor is where the reader has started, or a change of the
log. -/
structure Feed.Inv (serde : Serde TupleEnvelope) (sha256 : Bytes → Bytes) (reader : Subscription)
    (feed : Feed) (cursor : Option ChangeId) : Prop where
  world : feed.world.Inv serde sha256 (ReadsBack serde)
  named : feed.cursor = cursor.map idCursor
  followed : Followed TupleChange.id reader.start cursor
    (matching reader.filter (feed.world.log.history reader.storeId)) feed.received
  logged : cursor ≠ reader.start → ∀ id ∈ cursor,
    ∃ change ∈ feed.world.log.history reader.storeId, change.id = id
  stage : feed.stage.Fits reader feed cursor

theorem matching_append :
    matching filter (changes ++ more) = matching filter changes ++ matching filter more := by
  rw [matching, map_append, filter_append]
  rfl

theorem matching_subset (inside : changes ⊆ more) :
    matching filter changes ⊆ matching filter more :=
  filter_subset _ (map_subset _ inside)

theorem exists_of_matching {change : TupleChange} (member : change ∈ matching filter changes) :
    ∃ original ∈ changes, original.id = change.id := by
  obtain ⟨original, listed, rfl⟩ := mem_map.mp (mem_of_mem_filter member)
  exact ⟨original, listed, rfl⟩

theorem mapM_changeCursor (cursor : Option ChangeId) :
    (cursor.map idCursor).mapM changeCursor = .ok cursor := by
  cases cursor with
  | none => rfl
  | some id => rw [Option.map_some, Option.mapM_some, changeCursor_idCursor]; rfl

theorem map_goOn (cursor : Option ChangeId) (page : List TupleChange) (next : Option ChangeId) :
    (next.map idCursor).or
      ((page.getLast?.map fun change => idCursor change.id).or (cursor.map idCursor)) =
      (goOn TupleChange.id cursor page next).map idCursor := by
  rw [goOn, Option.map_or, Option.map_or, Option.map_map]
  rfl

theorem Feed.Inv.ask (inv : feed.Inv serde sha256 reader cursor)
    (consistency : ConsistencyPreference) {maximumResults : Nat} (positive : 1 ≤ maximumResults) :
    (feed.ask consistency maximumResults positive).Inv serde sha256 reader cursor := by
  have asked : feed.ask consistency maximumResults positive =
      { feed with
        consistency := consistency
        stage := .querying ⟨maximumResults, positive, feed.cursor⟩ cursor [] } := by
    unfold Feed.ask
    rw [inv.named, mapM_changeCursor]
  rw [asked]
  exact ⟨inv.world, inv.named, inv.followed, inv.logged, rfl, .nil, nofun, nofun, by decide,
    fun filled => absurd rfl filled⟩

/-- The windows on all shards make the next page. -/
theorem Feed.Inv.take (inv : feed.Inv serde sha256 reader cursor) (options : PageOptions)
    (complete : Complete feed.world.table reader.storeId cursor windows)
    (began : feed.began ⊆ feed.world.log.history reader.storeId) :
    ∃ cursor', (feed.take serde sha256 reader options cursor windows).Inv serde sha256 reader
      cursor' := by
  have consistent := inv.world.consistent
  have sorted := consistent.matching_sorted reader.storeId reader.filter
  obtain ⟨page, next, made, spans, ending⟩ :=
    changesPage_spans consistent complete reader.filter options.positive
  have taken : feed.take serde sha256 reader options cursor windows =
      { feed with
        cursor := (goOn TupleChange.id cursor page next).map idCursor
        received := feed.received ++ page
        stage := .resting (next.map idCursor).isNone } := by
    unfold Feed.take
    rw [made, ← map_goOn, ← inv.named]
  rw [taken]
  refine ⟨goOn TupleChange.id cursor page next, inv.world, rfl, inv.followed.goOn sorted spans,
    fun moved id given => ?_, fun last change member after => ?_⟩
  · rcases Option.or_eq_some_iff.mp given with onward | ⟨-, onward⟩
    · exact ending id onward
    rcases Option.or_eq_some_iff.mp onward with ended | ⟨-, same⟩
    · obtain ⟨last, ends, rfl⟩ := Option.map_eq_some_iff.mp ended
      exact exists_of_matching
        (mem_remaining.mp (spans.isPrefix.subset (mem_of_getLast? ends))).1
    · refine inv.logged (fun start => moved ?_) id same
      rw [given, ← start, same]
  · rw [Option.isNone_map, Option.isNone_iff_eq_none] at last
    rw [last] at spans
    have whole : feed.received ++ page = remaining TupleChange.id reader.start
        (matching reader.filter (feed.world.log.history reader.storeId)) :=
      inv.followed.trans spans
    change change ∈ feed.received ++ page
    rw [whole]
    exact mem_remaining.mpr ⟨matching_subset began member, after⟩

/-- Distinct shards are all of them if there are as many. -/
theorem every_shard {shards : List UInt8} (distinct : shards.Nodup)
    (known : ∀ shard ∈ shards, shard < changeShards) (many : changeShards.toNat ≤ shards.length) :
    ∀ shard < changeShards, shard ∈ shards := by
  have listed : ∀ shard < changeShards,
      shard ∈ (range changeShards.toNat).map UInt8.ofNat := fun shard below =>
    mem_map.mpr ⟨shard.toNat, mem_range.mpr (UInt8.lt_iff_toNat_lt.mp below),
      UInt8.ofNat_toNat⟩
  have perm := (subperm_of_subset distinct fun shard member =>
    listed shard (known shard member)).perm_of_length_le many
  exact fun shard below => perm.mem_iff.mpr (listed shard below)

section

variable (inv : feed.Inv serde sha256 reader cursor)
  (stage : feed.stage = .querying options after windows)

include inv stage

theorem Feed.Inv.begin :
    (feed.begin reader windows).Inv serde sha256 reader cursor ∧
      (feed.begin reader windows).stage = .querying options after windows ∧
      (feed.begin reader windows).began ⊆
        (feed.begin reader windows).world.log.history reader.storeId := by
  have fits := inv.stage
  rw [stage] at fits
  obtain ⟨same, half⟩ := fits
  unfold Feed.begin
  split
  · refine ⟨⟨inv.world, inv.named, inv.followed, inv.logged, ?_⟩, stage, List.Subset.refl _⟩
    simp only [stage]
    exact ⟨same, { half with began := fun _ => List.Subset.refl _ }⟩
  · rename_i filled
    exact ⟨inv, stage, half.began fun empty => filled (by simp [empty])⟩

theorem Feed.Inv.query (below : shard < changeShards)
    (fresh : shard ∉ windows.map Prod.fst) (service : QueryService) {lag : Nat}
    (present : feed.view lag (.change reader.storeId shard) =
      feed.world.table (.change reader.storeId shard)) : ∃ cursor',
      (feed.query serde sha256 reader options after windows shard service lag).Inv serde sha256
        reader cursor' := by
  obtain ⟨inv, stage, began⟩ := inv.begin stage
  replace present : (feed.begin reader windows).view lag (.change reader.storeId shard) =
      (feed.begin reader windows).world.table (.change reader.storeId shard) := by
    unfold Feed.begin
    split <;> exact present
  unfold Feed.query
  generalize feed.begin reader windows = feed at inv stage began present
  have fits := inv.stage
  rw [stage] at fits
  obtain ⟨rfl, half⟩ := fits
  have boundary : (after.map fun id => bytesOf id.text) = after.map idText := by
    simp only [bytesOf_text]
  obtain ⟨window, answered, reads, named⟩ := queryRawWindow_reads
    (feed.world.table (.change reader.storeId shard)) service (after.map idText)
    changePageBudget (by decide)
  have distinct : ((windows ++ [(shard, window)]).map Prod.fst).Nodup := by
    rw [map_append]
    exact half.distinct.append (nodup_singleton shard) (by simpa using fresh)
  have known : ∀ other ∈ (windows ++ [(shard, window)]).map Prod.fst, other < changeShards := by
    rw [map_append]
    exact forall_mem_append.mpr ⟨half.known, forall_mem_singleton.mpr below⟩
  have answers : ∀ pair ∈ windows ++ [(shard, window)], Answers (after.map idText)
      (feed.world.table (.change reader.storeId pair.1)) pair.2 :=
    forall_mem_append.mpr ⟨half.answers, forall_mem_singleton.mpr ⟨reads, named⟩⟩
  simp only [present, boundary, answered]
  split
  · rename_i missing
    exact ⟨after, inv.world, inv.named, inv.followed, inv.logged, rfl, distinct, known, answers,
      missing, fun _ => began⟩
  · rename_i full
    refine inv.take options ⟨distinct, every_shard distinct known ?_, answers⟩ began
    rw [length_map]
    exact Nat.not_lt.mp full

end

/-- A transaction leaves the shards alone that its mutation does not go to. -/
theorem Sound.rows {table : Table} {storeId storeId' : StoreId} {actions : List Action}
    (sound : Sound serde sha256 (ReadsBack serde) storeId actions changes)
    (other : storeId = storeId' → ∀ last ∈ changes.getLast?,
      stableShard sha256 (bytesOf last.id.text) changeShards ≠ shard) :
    table.commit actions (.change storeId' shard) = table (.change storeId' shard) := by
  have same : ∀ sort, (table.commit actions).get (.change storeId' shard, sort) =
      table.get (.change storeId' shard, sort) := by
    intro sort
    rw [Table.get_commit]
    cases sound with
    | checks storeId actions unchanged => rw [commit_of_unchanged unchanged]
    | changes plan =>
      refine plan.commit_other_change fun equal => ?_
      obtain ⟨stores, shards⟩ := Partition.change.inj (congrArg Prod.fst equal)
      obtain ⟨last, ends, named⟩ := plan.getLast?_changes
      refine other stores.symm last ends ?_
      rw [named, shards]
  exact Std.ExtTreeMap.ext_getElem? fun sort => same sort

section

variable (inv : feed.Inv serde sha256 reader cursor)

include inv

/-- A transaction appends changes beyond the cursor. -/
theorem Feed.Inv.deliver {request : Request} {past : List Table}
    (next : world.Inv serde sha256 (ReadsBack serde))
    (table : world.table = feed.world.table.commit request.actions)
    (log : world.log = feed.world.log.append request.storeId request.changes)
    (sound : Sound serde sha256 (ReadsBack serde) request.storeId request.actions request.changes)
    (steady : request.storeId = reader.storeId → ∀ last ∈ request.changes.getLast?,
      stableShard sha256 (bytesOf last.id.text) changeShards ∉ feed.stage.queried) :
    { feed with world := world, past := past }.Inv serde sha256 reader cursor := by
  obtain ⟨more, history⟩ : ∃ more, world.log.history reader.storeId =
      feed.world.log.history reader.storeId ++ more := by
    rw [log]
    by_cases same : reader.storeId = request.storeId
    · rw [same]
      exact ⟨request.changes, Log.history_append_self⟩
    · exact ⟨[], by rw [Log.history_append_of_ne same, append_nil]⟩
  have order := next.consistent.increasing reader.storeId
  rw [history, pairwise_append] at order
  refine ⟨next, inv.named, ?_, fun moved id given => ?_, ?_⟩
  · simp only [history, matching_append]
    refine inv.followed.extend fun reached held moved change member => ?_
    obtain ⟨before, listed, rfl⟩ := inv.logged moved reached held
    obtain ⟨original, appended, same⟩ := exists_of_matching member
    exact same ▸ order.2.2 before listed original appended
  · obtain ⟨change, listed, same⟩ := inv.logged moved id given
    refine ⟨change, ?_, same⟩
    simp only [history]
    exact mem_append_left _ listed
  · have fits := inv.stage
    cases stage : feed.stage with
    | resting | failed =>
      rw [stage] at fits
      exact fits
    | querying options after windows =>
      rw [stage] at fits steady
      obtain ⟨same, half⟩ := fits
      refine ⟨same, half.distinct, half.known, fun window member => ?_, half.missing,
        fun filled => ?_⟩
      · simp only [table]
        rw [sound.rows fun stores last ends equal => ?_]
        · exact half.answers window member
        · exact steady stores last ends (equal ▸ mem_map_of_mem member)
      · simp only [history]
        exact List.Subset.trans (half.began filled) (subset_append_left _ _)

/-- A step of a writer changes neither the table nor the log. -/
theorem Feed.Inv.move {past : List Table} (next : world.Inv serde sha256 (ReadsBack serde))
    (table : world.table = feed.world.table) (log : world.log = feed.world.log) :
    { feed with world := world, past := past }.Inv serde sha256 reader cursor := by
  have fits := inv.stage
  refine ⟨next, inv.named, ?_, ?_, ?_⟩
  · simp only [log]
    exact inv.followed
  · simp only [log]
    exact inv.logged
  · cases stage : feed.stage with
    | querying options after windows =>
      rw [stage] at fits
      simp only [Stage.Fits, table, log]
      exact fits
    | resting | failed =>
      rw [stage] at fits
      exact fits

theorem Feed.Inv.step {next : Feed} {event : FeedEvent}
    (steady : event.Steady serde sha256 reader feed)
    (moved : feed.step serde sha256 limits reader event = some next) :
    ∃ cursor', next.Inv serde sha256 reader cursor' := by
  cases event with
  | world event =>
    obtain ⟨world, stepped, rfl⟩ := Option.map_eq_some_iff.mp moved
    have admits : event.Admits (ReadsBack serde) := by
      cases event with
      | deliver index => trivial
      | move call move => exact steady
    have after := inv.world.step readsWithin_readsBack admits stepped
    rcases World.step_cases stepped with ⟨call, move, process, sent, -, -, rfl⟩ |
      ⟨index, request, rfl, listed, -, -, rfl⟩
    · exact ⟨cursor, inv.move after rfl rfl⟩
    · exact ⟨cursor, inv.deliver after rfl rfl
        (inv.world.sent request (mem_of_getElem? listed)) (steady request listed)⟩
  | ask consistency maximumResults positive =>
    simp only [Feed.step] at moved
    split at moved
    · cases moved
    · cases moved
      exact ⟨cursor, inv.ask consistency positive⟩
  | query shard service lag =>
    simp only [Feed.step] at moved
    split at moved
    · rename_i options after windows stage
      split at moved
      · rename_i fits
        cases moved
        exact inv.query stage fits.1 fits.2 service steady
      · cases moved
    · cases moved
  | abort =>
    simp only [Feed.step] at moved
    split at moved
    · cases moved
      exact ⟨cursor, inv.world, inv.named, inv.followed, inv.logged, nofun⟩
    · cases moved

end

theorem Feed.inv_initial : (Feed.initial reader).Inv serde sha256 reader reader.start :=
  ⟨World.inv_initial, rfl, followed_start, fun moved => absurd rfl moved, nofun⟩

theorem Feed.Inv.delivered (inv : feed.Inv serde sha256 reader cursor) : Delivered reader feed := by
  have sorted := inv.world.consistent.matching_sorted reader.storeId reader.filter
  refine ⟨inv.followed.sorted sorted, fun change => inv.followed.mem,
    ⟨cursor, inv.named, fun change member after reached held passed =>
      inv.followed.mem_of_le sorted member after held passed⟩, fun ended => ?_,
    fun error stage => ?_⟩
  · have fits := inv.stage
    cases stage : feed.stage with
    | resting finished =>
      rw [stage] at fits ended
      exact fits ended
    | _ =>
      rw [stage] at ended
      cases ended
  · have fits := inv.stage
    rw [stage] at fits
    exact fits

/-- A reader receives every matching change once and in order, if no mutation is committed to
a shard between its query and the end of the page and no query is answered from an earlier
state. -/
theorem steady_delivered (feed : Feed)
    (reached : Machine.Reaches (Feed.step serde sha256 limits reader)
      (fun feed event => event.Steady serde sha256 reader feed) (.initial reader) feed) :
    Delivered reader feed := by
  obtain ⟨cursor, inv⟩ := reached.invariant
    (fun feed => ∃ cursor, feed.Inv serde sha256 reader cursor)
    (fun _ _ _ ⟨_, inv⟩ steady moved => inv.step steady moved) ⟨reader.start, Feed.inv_initial⟩
  exact inv.delivered

end Invariant

namespace Sample

/-- A digest that spreads the identifiers over the shards. -/
def spread (bytes : Bytes) : Bytes := bytes.reverse

/-- Everything that happens in a store, from its beginning. -/
def everything : Subscription := ⟨store, ⟨none, none⟩, none⟩

/-- A whole write of a document. -/
def writing (call : Nat) (document : String) (mutation : Mutation) (index : Nat) : List FeedEvent :=
  [.move call (.write mutation 0),
    .move call (.get (locations spread store (record document).tuple.key).forward),
    .move call (.get (locations spread store (record document).tuple.key).reverse),
    .move call (.plan call), .move call (.allocate 0 5 call), .deliver index].map .world

theorem asked_some : 1 ≤ 10 := by decide

/-- Queries some shards, with replicas that are some steps behind. -/
def querying (lag : Nat) (shards : List UInt8) : List FeedEvent :=
  shards.map fun shard => .query shard .eager lag

/-- A page between two writes, and one after them that is read from replicas; the last of them
is two steps behind, but not in what its shard holds. -/
def calmly : List FeedEvent :=
  writing 0 "1" first 0 ++ [.ask .higherConsistency 10 asked_some] ++ querying 9 [3, 0, 1, 2] ++
    writing 1 "2" second 1 ++ [.ask .minimizeLatency 10 asked_some] ++ querying 0 [0, 1, 2] ++
    querying 2 [3]

/-- Checks that an event disturbs no page. -/
def steady (feed : Feed) : FeedEvent → Bool
  | .world (.deliver _) => feed.stage.queried.isEmpty
  | .world (.move _ (.write mutation _)) =>
      decide (∀ tuple ∈ mutation.writes, tuple.ReadsBack serde)
  | .query shard _ lag => decide (feed.view lag (.change store shard) =
      feed.world.table (.change store shard))
  | _ => true

def calmFeed : Feed :=
  Machine.final (Feed.step serde spread limits everything) steady (.initial everything) calmly

/-- Both documents are written after the shard of the first and before the shard of the
second is queried. -/
def hurried : List FeedEvent :=
  [.ask .higherConsistency 10 asked_some] ++ querying 0 [0, 1] ++ writing 0 "1" first 0 ++
    writing 1 "2" second 1 ++ querying 0 [2, 3] ++ [.ask .higherConsistency 10 asked_some] ++
    querying 0 [0, 1, 2, 3]

def hurriedFeed : Feed :=
  Machine.final (Feed.step serde spread limits everything) (fun _ _ => true) (.initial everything)
    hurried

end Sample

theorem Sample.steady_of_check (feed : Feed) (event : FeedEvent)
    (fits : steady feed event = true) : event.Steady serde spread everything feed := by
  cases event with
  | world event =>
    cases event with
    | deliver index =>
      intro request _ _ last _ member
      rw [isEmpty_iff.mp fits] at member
      cases member
    | move call move =>
      cases move with
      | write mutation timestamp =>
        have back := of_decide_eq_true fits
        exact back
      | _ => trivial
  | query shard service lag =>
    have present := of_decide_eq_true fits
    exact present
  | _ => trivial

theorem steady_delivered_calm :
    Delivered everything calmFeed ∧
    calmFeed.received.map TupleChange.id = [.fromParts 0 5, .fromParts 0 6] := by
  have taken : (Machine.runChecked (Feed.step serde spread limits
      everything) steady (.initial everything) calmly).isSome = true := by
    decide +kernel
  exact ⟨steady_delivered _ (Machine.reaches_final _ steady_of_check _ taken),
    by decide +kernel⟩

/-- The first of the two changes is never received, though it was committed before the last
page began and the cursor has passed it. -/
theorem hurried_change_lost :
    Machine.Reaches (Feed.step serde spread limits everything)
      (fun _ _ => True) (.initial everything) hurriedFeed ∧
    hurriedFeed.stage.finished = true ∧
    (matching everything.filter hurriedFeed.began).map TupleChange.id =
      [.fromParts 0 5, .fromParts 0 6] ∧
    hurriedFeed.received.map TupleChange.id = [.fromParts 0 6] ∧
    ¬Delivered everything hurriedFeed := by
  have taken : (Machine.runChecked (Feed.step serde spread limits
      everything) (fun _ _ => true) (.initial everything)
      hurried).isSome = true := by
    decide +kernel
  have finished : hurriedFeed.stage.finished = true := by decide +kernel
  have committed : (matching everything.filter hurriedFeed.began).map
      TupleChange.id = [.fromParts 0 5, .fromParts 0 6] := by
    decide +kernel
  have received : hurriedFeed.received.map TupleChange.id = [.fromParts 0 6] := by
    decide +kernel
  refine ⟨Machine.reaches_final_any _ taken, finished, committed, received, fun delivered => ?_⟩
  obtain ⟨change, member, named⟩ := mem_map.mp
    (committed ▸ mem_cons_self : ChangeId.fromParts 0 5 ∈ _)
  have given := mem_map_of_mem (f := TupleChange.id)
    (delivered.complete finished change member nofun)
  rw [received, named, mem_singleton] at given
  exact absurd given (by decide)

end OpenFga.Dynamo
