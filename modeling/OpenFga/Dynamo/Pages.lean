import OpenFga.Dynamo.Contents

/-!
# Pages of tuples

The tuples of a store are spread over the shards that the digests of their objects select. A
page is merged from one window on each shard; the windows are joined in the order in which
their queries complete. The cursor of a page is the key of a tuple, though not always of one
that the page gives out.
-/

namespace OpenFga.Dynamo

open OrderedMap Paging List Dynamo.Sample

section

variable {completed : List UInt8} {serde : Serde TupleEnvelope} {sha256 : Bytes → Bytes}
  {table : Table} {storeId : StoreId} {records : List TupleRecord} {boundary : Option Bytes}
  {record : TupleRecord} {page : Page StoredTuple}

section Reading

variable (serde : Serde TupleEnvelope) (sha256 : Bytes → Bytes) (table : Table)

/-- Two neighbours with the same key. -/
def duplicateIdentity (found : List (Bytes × StoredTuple)) : Bool :=
  (found.zip found.tail).any fun pair => pair.1.2.tuple.key = pair.2.2.tuple.key

def readTuples (services : UInt8 → QueryService) (completed : List UInt8) (storeId : StoreId)
    (filter : TupleReadFilter) (options : PageOptions) :
    Except StorageError (Page StoredTuple) := do
  let boundary ← options.after.mapM (decodeCursor .tuple)
  let windows ← completed.mapM fun shard =>
    queryForwardWindow serde sha256 table (services shard) storeId (.forward storeId shard)
      boundary filter (options.maximumResults + 1)
      (divCeil maximumPageEvaluations forwardShards.toNat)
  if duplicateIdentity (merged Prod.fst windows) then
    .error (integrity "dynamodb_tuple_duplicate_identity")
  else
    let page := mergedPage Prod.fst windows options.maximumResults
    let continuation ← page.2.mapM (encodeCursor .tuple)
    .ok ⟨page.1.map Prod.snd, continuation⟩

end Reading

/-- What a window shows of a record. -/
def TupleRecord.found (record : TupleRecord) : Bytes × StoredTuple :=
  (forwardKey record.tuple.key, record.stored)

section Shards

variable {shard : UInt8}

/-- The records that a shard has in a range. -/
def shardRecords (sha256 : Bytes → Bytes) (records : List TupleRecord) (boundary : Option Bytes)
    (shard : UInt8) : List TupleRecord :=
  records.filter fun record => decide (record.forwardShard sha256 = shard) &&
    decide (After boundary (forwardKey record.tuple.key))

theorem ForwardHolds.inRange_eq (holds : ForwardHolds serde sha256 table storeId records) :
    inRange (table (.forward storeId shard)) boundary =
      (shardRecords sha256 records boundary shard).map
        (TupleRecord.forwardEntry serde sha256) := by
  refine eq_of_sorted (inRange_sorted _ boundary) ?_ fun entry => ?_
  · rw [pairwise_map]
    exact (forwardKey_sorted holds.canonical holds.sorted).filter _
  · rw [inRange, mem_filter, mem_toList, holds.rows, mem_map, decide_eq_true_iff]
    constructor
    · rintro ⟨⟨record, member, same, rfl⟩, later⟩
      refine ⟨record, mem_filter.mpr ⟨member, ?_⟩, rfl⟩
      rw [Bool.and_eq_true, decide_eq_true_iff, decide_eq_true_iff]
      exact ⟨same, later⟩
    · rintro ⟨record, member, rfl⟩
      obtain ⟨member, both⟩ := mem_filter.mp member
      rw [Bool.and_eq_true, decide_eq_true_iff, decide_eq_true_iff] at both
      exact ⟨⟨record, member, both.1, rfl⟩, both.2⟩

theorem acceptForward_entry (canonical : record.tuple.key.Canonical)
    (back : record.tuple.ReadsBack serde) (later : After boundary (forwardKey record.tuple.key)) :
    acceptForward serde sha256 storeId (.forward storeId (record.forwardShard sha256)) boundary
      (record.forwardEntry serde sha256) = .ok record.found := by
  have ahead : ¬(boundary.any fun minimum =>
      decide ((record.forwardEntry serde sha256).1 ≤ minimum)) = true := by
    cases boundary with
    | none => simp
    | some minimum =>
      have above : minimum < (record.forwardEntry serde sha256).1 := after_some.mp later
      simpa using above
  have keys : tupleKeys sha256 storeId record.tuple.key = .ok
      ⟨forwardObjectPartition sha256 storeId record.tuple.key.object, forwardKey record.tuple.key,
        reversePartition sha256 storeId record.tuple.key.subject, reverseKey record.tuple.key⟩ := by
    rw [tupleKeys, encodeForward_eq canonical, encodeReverse_eq canonical]
    rfl
  rw [acceptForward, if_neg ahead]
  simp only [TupleRecord.forwardEntry, decodeStoredTuple_ok back,
    decodeForward_eq canonical, TupleRecord.stored, keys, bind, Except.bind]
  rw [if_neg (by simp)]
  exact if_neg fun different => different rfl

/-- An item is accepted only as the tuple that it is read as, under the key of its record. -/
theorem decoded_of_acceptForward {partition : Partition} {found : Bytes × StoredTuple}
    (canonical : record.tuple.key.Canonical)
    (accepted : acceptForward serde sha256 storeId partition boundary
      (record.forwardEntry serde sha256) = .ok found) :
    decodeTuple serde (encodeTuple serde record.tuple) = .ok found.2.tuple ∧
      record.tuple.key = found.2.tuple.key := by
  obtain ⟨-, accepted⟩ := guard_eq_ok.mp accepted
  obtain ⟨stored, decoded, accepted⟩ := bind_eq_ok.mp accepted
  obtain ⟨key, named, accepted⟩ := bind_eq_ok.mp accepted
  rw [TupleRecord.forwardEntry, decodeForward_eq canonical] at named
  cases named
  split at accepted
  · cases accepted
  rename_i same
  obtain ⟨keys, _, accepted⟩ := bind_eq_ok.mp accepted
  split at accepted
  · cases accepted
  · cases accepted
    exact ⟨decodeTuple_of_item decoded, not_not.mp same⟩

theorem shown_entries {accept : Entry → Except StorageError (Bytes × StoredTuple)}
    {filter : TupleReadFilter} {list : List TupleRecord}
    (accepted : ∀ record ∈ list, accept (record.forwardEntry serde sha256) = .ok record.found) :
    shown accept filter (list.map (TupleRecord.forwardEntry serde sha256)) =
      (list.filter fun record => filter.accepts record.tuple.key).map TupleRecord.found := by
  have values : list.filterMap (fun record =>
      (accept (record.forwardEntry serde sha256)).toOption) = list.map TupleRecord.found := by
    rw [← filterMap_eq_map]
    refine filterMap_congr fun record member => ?_
    rw [accepted record member]
    rfl
  rw [shown, filterMap_map]
  exact (congrArg (List.filter _) values).trans List.filter_map

/-- What a filter shows of a shard. -/
def shardFound (sha256 : Bytes → Bytes) (records : List TupleRecord) (filter : TupleReadFilter)
    (shard : UInt8) : List (Bytes × StoredTuple) :=
  (records.filter fun record => decide (record.forwardShard sha256 = shard) &&
    filter.accepts record.tuple.key).map TupleRecord.found

theorem remaining_shardFound (filter : TupleReadFilter) :
    remaining Prod.fst boundary (shardFound sha256 records filter shard) =
      ((shardRecords sha256 records boundary shard).filter fun record =>
        filter.accepts record.tuple.key).map TupleRecord.found := by
  unfold remaining shardFound shardRecords
  rw [filter_map, filter_filter, filter_filter]
  congr 1
  refine filter_congr fun record _ => ?_
  rw [Function.comp_apply, TupleRecord.found, Bool.and_comm (filter.accepts _), Bool.and_assoc,
    Bool.and_comm, Bool.and_assoc, Bool.and_comm (filter.accepts _)]

end Shards

section Merging

variable (holds : ForwardHolds serde sha256 table storeId records)
  (back : ∀ record ∈ records, record.tuple.ReadsBack serde)

include holds back

/-- The window on a shard reads the shard. -/
theorem queryForwardWindow_reads (service : QueryService) (filter : TupleReadFilter)
    {maximumMatches budget : Nat} (room : 0 < maximumMatches) (positive : 0 < budget)
    (shard : UInt8) :
    ∃ window, queryForwardWindow serde sha256 table service storeId (.forward storeId shard)
        boundary filter maximumMatches budget = .ok window ∧
      window.Reads Prod.fst boundary (shardFound sha256 records filter shard) ∧
      (window.exhausted = false →
        ∃ record ∈ records, window.frontier = some (forwardKey record.tuple.key)) := by
  have accepted : ∀ record ∈ shardRecords sha256 records boundary shard,
      acceptForward serde sha256 storeId (.forward storeId shard) boundary
        (record.forwardEntry serde sha256) = .ok record.found := by
    intro record member
    obtain ⟨listed, both⟩ := mem_filter.mp member
    rw [Bool.and_eq_true, decide_eq_true_iff, decide_eq_true_iff] at both
    rw [← both.1]
    exact acceptForward_entry (holds.canonical record listed) (back record listed) both.2
  have entries : inRange (table (.forward storeId shard)) boundary = _ := holds.inRange_eq
  have each : ∀ entry ∈ inRange (table (.forward storeId shard)) boundary, ∃ value,
      acceptForward serde sha256 storeId (.forward storeId shard) boundary entry = .ok value := by
    rw [entries]
    intro entry member
    obtain ⟨record, listed, rfl⟩ := mem_map.mp member
    exact ⟨_, accepted record listed⟩
  obtain ⟨window, given, shows⟩ := queryForwardWindow_shows each positive room
  rw [entries] at shows
  refine ⟨window, given, ?_, ?_⟩
  · unfold Window.Reads
    rw [remaining_shardFound]
    split
    · rename_i ended
      rw [shows.whole ended, shown_entries accepted]
    · rename_i more
      obtain ⟨last, listed, held, found⟩ := shows.part (by simpa using more)
      obtain ⟨record, member, rfl⟩ := mem_map.mp listed
      refine ⟨_, held, ?_, ?_⟩
      · have both := (mem_filter.mp member).2
        rw [Bool.and_eq_true, decide_eq_true_iff, decide_eq_true_iff] at both
        exact both.2
      · rw [found, filter_map, shown_entries fun record' listed' =>
          accepted record' (mem_of_mem_filter listed'), filter_map, filter_filter,
          filter_filter]
        congr 1
        refine filter_congr fun record' _ => ?_
        rw [Bool.and_comm]
        rfl
  · intro more
    obtain ⟨last, listed, held, -⟩ := shows.part more
    obtain ⟨record, member, rfl⟩ := mem_map.mp listed
    exact ⟨record, mem_of_mem_filter member, held⟩

omit holds back in
/-- Records that are spread over distinct shards. -/
theorem flatMap_shardFound (filter : TupleReadFilter) (distinct : completed.Nodup)
    (every : ∀ record ∈ records, record.forwardShard sha256 ∈ completed) (set : TupleSet records) :
    (completed.flatMap (shardFound sha256 records filter)).Perm
      ((records.filter fun record => filter.accepts record.tuple.key).map TupleRecord.found) := by
  have once := set.nodup
  unfold shardFound
  rw [← map_flatMap]
  refine List.Perm.map _ ((perm_ext_iff_of_nodup ?_ (once.filter _)).mpr fun record => ?_)
  · refine nodup_flatMap.mpr ⟨fun shard _ => once.filter _, distinct.imp ?_⟩
    intro shard shard' different record member member'
    have here := (mem_filter.mp member).2
    have there := (mem_filter.mp member').2
    rw [Bool.and_eq_true, decide_eq_true_iff] at here there
    exact different (here.1.symm.trans there.1)
  · rw [mem_flatMap, mem_filter]
    constructor
    · rintro ⟨shard, _, member⟩
      obtain ⟨listed, both⟩ := mem_filter.mp member
      exact ⟨listed, (Bool.and_eq_true_iff.mp both).2⟩
    · rintro ⟨listed, accepted⟩
      refine ⟨record.forwardShard sha256, every record listed, mem_filter.mpr ⟨listed, ?_⟩⟩
      rw [accepted, Bool.and_true, decide_eq_true_iff]

omit holds back in
theorem duplicateIdentity_of_sorted {found : List (Bytes × StoredTuple)}
    (distinct : found.Pairwise fun first second => first.2.tuple.key ≠ second.2.tuple.key) :
    duplicateIdentity found = false := by
  rw [duplicateIdentity, any_eq_false]
  intro pair member
  rw [decide_eq_true_iff]
  induction found with
  | nil => cases member
  | cons first found ih =>
    cases found with
    | nil => cases member
    | cons second found =>
      obtain ⟨ahead, rest⟩ := pairwise_cons.mp distinct
      rcases mem_cons.mp member with rfl | later
      · exact ahead second mem_cons_self
      · exact ih rest later

/-- Some bytes are the key of a record. -/
def Known (records : List TupleRecord) (value : Bytes) : Prop :=
  ∃ record ∈ records, forwardKey record.tuple.key = value

/-- The tuples that a filter accepts. -/
def tupleListing (records : List TupleRecord) (filter : TupleReadFilter) : List StoredTuple :=
  (records.filter fun record => filter.accepts record.tuple.key).map TupleRecord.stored

/-- The bytes of the key of a tuple. -/
def storedKey (stored : StoredTuple) : Bytes := forwardKey stored.tuple.key

/-- What is found of these tuples. -/
def foundListing (records : List TupleRecord) (filter : TupleReadFilter) :
    List (Bytes × StoredTuple) :=
  (records.filter fun record => filter.accepts record.tuple.key).map TupleRecord.found

omit back in
theorem foundListing_sorted (filter : TupleReadFilter) :
    (foundListing records filter).Pairwise fun first second => first.1 < second.1 := by
  rw [foundListing, pairwise_map]
  exact (forwardKey_sorted holds.canonical holds.sorted).filter _

omit back in
theorem decodeCursors {after : Option Bytes} (known : ∀ value ∈ after, Known records value) :
    (after.map (cursorOf .tuple)).mapM (decodeCursor .tuple) = .ok after := by
  cases after with
  | none => rfl
  | some value =>
    obtain ⟨record, listed, rfl⟩ := known value rfl
    rw [Option.map_some, Option.mapM_some, decodeCursor_eq (holds.canonical record listed)]
    rfl

omit back in
theorem encodeCursors {next : Option Bytes} (known : ∀ value ∈ next, Known records value) :
    next.mapM (encodeCursor .tuple) = .ok (next.map (cursorOf .tuple)) := by
  cases next with
  | none => rfl
  | some value =>
    obtain ⟨record, listed, rfl⟩ := known value rfl
    rw [Option.mapM_some, encodeCursor_eq (holds.canonical record listed)]
    rfl

omit back in
theorem foundListing_keys (filter : TupleReadFilter) : (foundListing records filter).Pairwise
    fun first second => first.2.tuple.key ≠ second.2.tuple.key := by
  rw [foundListing, pairwise_map]
  exact (holds.sorted.imp fun less => less.ne).filter _

/-- A page is read after no key or after that of a record, and its cursor is the key of a
record again. -/
theorem readTuples_spans (services : UInt8 → QueryService) (joined : completed.Perm allShards)
    (filter : TupleReadFilter) (options : PageOptions) {after : Option Bytes}
    (known : ∀ value ∈ after, Known records value)
    (cursors : options.after = after.map (cursorOf .tuple)) :
    ∃ page next, readTuples serde sha256 table services completed storeId filter options =
        .ok ⟨page, next.map (cursorOf .tuple)⟩ ∧
      Spans storedKey after (tupleListing records filter) page next ∧
      ∀ value ∈ next, Known records value := by
  have each : ∀ shard, ∃ window, queryForwardWindow serde sha256 table (services shard) storeId
      (.forward storeId shard) after filter (options.maximumResults + 1)
      (divCeil maximumPageEvaluations forwardShards.toNat) = .ok window ∧ _ ∧ _ := fun shard =>
    queryForwardWindow_reads holds back (services shard) filter
      (Nat.succ_pos options.maximumResults) (by decide) shard
  choose window given reads frontier using each
  have windows := mapM_ok fun shard (_ : shard ∈ completed) => given shard
  have sorted := foundListing_sorted holds filter
  have split := flatMap_shardFound filter (joined.nodup_iff.mpr (by decide))
    (fun record _ => joined.mem_iff.mpr (forwardShard_mem sha256 record)) holds.toTupleSet
  have whole := merged_eq sorted split fun shard _ => reads shard
  have single : duplicateIdentity (merged Prod.fst (completed.map window)) = false := by
    rw [whole]
    exact duplicateIdentity_of_sorted (((foundListing_keys holds filter).filter _).filter _)
  have next : ∀ value ∈ (mergedPage Prod.fst (completed.map window) options.maximumResults).2,
      Known records value := by
    intro value held
    rcases mergedPage_next held with ⟨item, member, rfl⟩ | ⟨found, member, more, reached⟩
    · rw [whole] at member
      obtain ⟨record, listed, rfl⟩ :=
        mem_map.mp (mem_of_mem_filter (mem_of_mem_filter member))
      exact ⟨record, mem_of_mem_filter listed, rfl⟩
    · obtain ⟨shard, _, rfl⟩ := mem_map.mp member
      obtain ⟨record, listed, held⟩ := frontier shard more
      exact ⟨record, listed, Option.some.inj (held.symm.trans reached)⟩
  have spans := mergedPage_spans sorted split (fun shard _ => reads shard) options.positive
  have keys : ∀ item ∈ foundListing records filter, storedKey item.2 = item.1 := by
    intro item member
    obtain ⟨record, _, rfl⟩ := mem_map.mp member
    rfl
  have stored : (foundListing records filter).map Prod.snd = tupleListing records filter := by
    rw [foundListing, map_map]
    rfl
  refine ⟨(mergedPage Prod.fst (completed.map window) options.maximumResults).1.map Prod.snd, _,
    ?_, stored ▸ spans.map keys, next⟩
  simp only [readTuples, cursors, decodeCursors holds known, windows, single,
    encodeCursors holds next, bind, Except.bind]
  rfl

end Merging

section Exactness

variable {services : UInt8 → QueryService} {filter : TupleReadFilter} {options : PageOptions}

section

variable
  (given : readTuples serde sha256 table services completed storeId filter options = .ok page)

include given

/-- What a page is made of. -/
theorem readTuples_eq_ok :
    ∃ boundary windows, (completed.mapM fun shard =>
        queryForwardWindow serde sha256 table (services shard) storeId (.forward storeId shard)
          boundary filter (options.maximumResults + 1)
          (divCeil maximumPageEvaluations forwardShards.toNat)) = .ok windows ∧
      page.items = (mergedPage Prod.fst windows options.maximumResults).1.map Prod.snd := by
  obtain ⟨boundary, _, given⟩ := bind_eq_ok.mp given
  obtain ⟨windows, read, given⟩ := bind_eq_ok.mp given
  split at given
  · cases given
  · obtain ⟨continuation, _, given⟩ := bind_eq_ok.mp given
    cases given
    exact ⟨boundary, windows, read, rfl⟩

theorem readTuples_length : page.items.length ≤ options.maximumResults := by
  obtain ⟨_, windows, _, items⟩ := readTuples_eq_ok given
  rw [items, length_map]
  exact length_mergedPage windows options.maximumResults

end

/-- A page gives out a stored tuple only if it is read back. -/
theorem readTuples_readsBack (holds : ForwardHolds serde sha256 table storeId records)
    (given : readTuples serde sha256 table services completed storeId filter options = .ok page)
    (stored : record ∈ records) (member : record.stored ∈ page.items) :
    record.tuple.ReadsBack serde := by
  obtain ⟨boundary, windows, read, items⟩ := readTuples_eq_ok given
  rw [items] at member
  obtain ⟨found, inPage, same⟩ := mem_map.mp member
  obtain ⟨window, listed, inside⟩ := mem_flatMap.mp
    (mem_of_mem_filter (mem_mergeSort.mp (mem_merged_of_mem_page inPage)))
  obtain ⟨shard, _, queried⟩ := mem_of_mapM read window listed
  obtain ⟨entry, row, accepted⟩ := forwardPages_found queried (forall_mem_nil _) found inside
  obtain ⟨source, known, _, rfl⟩ := (holds.rows shard entry).mp (mem_toList.mp row)
  obtain ⟨decoded, keys⟩ := decoded_of_acceptForward (holds.canonical source known) accepted
  rw [same] at decoded keys
  -- The item under the key of the record is that of the record.
  cases holds.toTupleSet.eq_of_key known stored keys
  exact decoded

theorem readTuples_spanning (holds : ForwardHolds serde sha256 table storeId records)
    (back : ∀ record ∈ records, record.tuple.ReadsBack serde) (filter : TupleReadFilter)
    (services : Nat → UInt8 → QueryService) {completed : Nat → List UInt8} (size : Nat → Nat)
    (positive : ∀ turn, 1 ≤ size turn) (joined : ∀ turn, (completed turn).Perm allShards) :
    Spanning (fun turn => pageOf (readTuples serde sha256 table (services turn) (completed turn)
        storeId filter) (size turn) (positive turn)) storedKey (cursorOf .tuple)
      (records.map fun record => forwardKey record.tuple.key).toFinset
      (tupleListing records filter) := by
  have known : ∀ value, value ∈ (records.map fun record =>
      forwardKey record.tuple.key).toFinset ↔ Known records value := by
    intro value
    rw [mem_toFinset, mem_map]
    rfl
  intro turn after keys
  obtain ⟨page, next, given, spans, inside⟩ := readTuples_spans holds back (services turn)
    (joined turn) filter ⟨size turn, positive turn, after.map (cursorOf .tuple)⟩
    (fun value held => (known value).mp (keys value held)) rfl
  refine ⟨page, next, ?_, spans, fun value held => (known value).mpr (inside value held)⟩
  simp only [pageOf, given, Except.map]

/-- Iterating the reads of a table gives exactly the tuples that the filter accepts, in the
order of their keys, on pages that are not too long. -/
structure ListsTuples (serde : Serde TupleEnvelope) (sha256 : Bytes → Bytes) (table : Table)
    (storeId : StoreId) (records : List TupleRecord) (filter : TupleReadFilter)
    (services : Nat → UInt8 → QueryService) (completed : Nat → List UInt8) (size : Nat → Nat)
    (positive : ∀ turn, 1 ≤ size turn) : Prop where
  listed : ∃ fuel, follow (fun turn => pageOf (readTuples serde sha256 table (services turn)
      (completed turn) storeId filter) (size turn) (positive turn)) fuel 0 none =
    .ok (some (tupleListing records filter))
  bounded : ∀ turn after page, readTuples serde sha256 table (services turn) (completed turn)
    storeId filter ⟨size turn, positive turn, after⟩ = .ok page → page.items.length ≤ size turn

/-- The pages of a table are exact for every filter, however the service splits the queries and
whatever the page sizes are, if and only if every tuple that is stored can be read back. -/
theorem paged_tuples_iff (holds : ForwardHolds serde sha256 table storeId records) :
    (∀ (filter : TupleReadFilter) (services : Nat → UInt8 → QueryService)
      (completed : Nat → List UInt8) (size : Nat → Nat) (positive : ∀ turn, 1 ≤ size turn),
      (∀ turn, (completed turn).Perm allShards) →
        ListsTuples serde sha256 table storeId records filter services completed size positive) ↔
    ∀ record ∈ records, record.tuple.ReadsBack serde := by
  constructor
  · intro lists record member
    obtain ⟨fuel, followed⟩ := (lists ⟨none, none, none, none⟩ (fun _ _ => .eager)
      (fun _ => allShards) (fun _ => 1) (fun _ => le_rfl) fun _ => .refl _).listed
    have every : record.stored ∈ tupleListing records ⟨none, none, none, none⟩ :=
      mem_map_of_mem (mem_filter.mpr ⟨member, rfl⟩)
    obtain ⟨turn, after, page, next, given, inside⟩ :=
      mem_page_of_follow followed record.stored every
    obtain ⟨result, read, same⟩ := map_eq_ok.mp given
    cases same
    exact readTuples_readsBack holds read member inside
  · intro back filter services completed size positive joined
    refine ⟨⟨_, (readTuples_spanning holds back filter services size positive joined).follow_all⟩,
      fun turn after page given => readTuples_length given⟩

end Exactness

end

/-- A tuple with a note that is too long to be read back: no iteration gives it out, whatever
the serialisation. -/
theorem paged_long_note_unreadable : (Notes.noteTuple Notes.longNote).Genuine ∧
    ∀ serde, ForwardHolds serde id (tableOf serde id store note) store note ∧
      ∀ fuel, follow (fun _ => pageOf (readTuples serde id (tableOf serde id store note)
          (fun _ => .eager) allShards store ⟨none, none, none, none⟩) 1 le_rfl) fuel 0 none ≠
        .ok (some (tupleListing note ⟨none, none, none, none⟩)) := by
  refine ⟨Notes.noteTuple_genuine _, fun serde => ?_⟩
  have holds : ForwardHolds serde id _ store note := tableOf_forwardHolds store note_set
  refine ⟨holds, fun fuel followed => ?_⟩
  have member : ⟨Notes.noteTuple Notes.longNote, 0⟩ ∈ note := mem_cons_self
  obtain ⟨turn, after, page, next, given, inside⟩ := mem_page_of_follow followed _
    (mem_map_of_mem (mem_filter.mpr ⟨member, rfl⟩))
  obtain ⟨result, read, same⟩ := map_eq_ok.mp given
  cases same
  have back := readTuples_readsBack holds read member inside
  exact Notes.longNote_unreadable serde back

/-- Two tuples, one on a page, the shards joined in reverse. -/
theorem paged_tuples_pair :
    ForwardHolds serde id (tableOf serde id store pair) store pair ∧
      (∀ record ∈ pair, record.tuple.ReadsBack serde) ∧
      ListsTuples serde id (tableOf serde id store pair) store pair ⟨none, none, none, none⟩
        (fun _ _ => .eager) (fun _ => allShards.reverse) (fun _ => 1) fun _ => le_rfl := by
  have holds : ForwardHolds serde id _ store pair := tableOf_forwardHolds store pair_set
  exact ⟨holds, pair_readsBack, (paged_tuples_iff holds).mpr pair_readsBack _ _ _ _ _
    fun _ => reverse_perm _⟩

end OpenFga.Dynamo
