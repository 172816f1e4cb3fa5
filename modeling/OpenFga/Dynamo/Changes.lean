import OpenFga.Dynamo.Coherence

/-!
# Pages of changes

The change items of a store are spread over a few shards, each under the text of its last
identifier. A page is made from one window on each shard. Items beyond the least frontier of
the windows that have more to read are left for the next page, the changes of the others are
put in order, and the page ends with its last change if it is full and with that frontier
otherwise.

The windows are read at different moments. If the table does not change in between, a page
spans the changes of the log from one cursor to the next.
-/

namespace OpenFga.Dynamo

open OrderedMap Paging OrderedCode Utf8 List RelationshipTuple

variable {serde : Serde TupleEnvelope} {sha256 : Bytes → Bytes} {table : Table} {log : Log}
  {storeId : StoreId} {batch batch' : List TupleChange} {last change : TupleChange}
  {item : UInt8 × Entry}

section Reading

variable (serde : Serde TupleEnvelope) (sha256 : Bytes → Bytes)

abbrev RawWindow := Window Entry Bytes

/-- One query of a partition. -/
def queryRawWindow (rows : Rows) (service : QueryService) (boundary : Option Bytes)
    (evaluationBudget : Nat) : Except StorageError RawWindow :=
  let page := service.answer 0 (candidates rows (fun key => decide (After boundary key)) none)
    evaluationBudget
  if page.items.any fun entry => boundary.any fun minimum => decide (entry.1 ≤ minimum) then
    .error (integrity "dynamodb_query_boundary_violation")
  else
    .ok ⟨page.items, page.lastEvaluatedKey.or (page.items.getLast?.map Prod.fst),
      page.lastEvaluatedKey.isNone⟩

def changePageBudget : Nat := divCeil maximumPageEvaluations changeShards.toNat

/-- The changes that an item of a shard holds. -/
def decodeBatch (storeId : StoreId) (shard : UInt8) (entry : Entry) :
    Except StorageError (List TupleChange) :=
  match entry.2 with
  | .change payload _ => do
      let changes ← decodeChanges serde storeId payload
      if changes.getLast?.all fun last => bytesOf last.id.text != entry.1 then
        .error (integrity "dynamodb_change_batch_identity_mismatch")
      else if Partition.change storeId shard ≠ changePartition sha256 storeId entry.1 then
        .error (integrity "dynamodb_change_shard_mismatch")
      else .ok changes
  | .tuple _ _ _ => .error (integrity "dynamodb_change_kind_invalid")
  | .changeHead _ => .error (integrity "dynamodb_string_attribute_invalid")

/-- The identifier that a cursor names. -/
def changeCursor (cursor : StorageCursor) : Except StorageError ChangeId := do
  let text ← orError (String.fromUTF8? cursor.bytes)
    (.new .invalidContinuation "change_cursor_utf8")
  (ChangeId.parse text).mapError fun _ => .new .invalidContinuation "change_cursor_invalid"

/-- Two neighbours with the same identifier. -/
def duplicateChange (changes : List TupleChange) : Bool :=
  (changes.zip changes.tail).any fun pair => decide (pair.1.id = pair.2.id)

/-- The items up to the safe frontier, with their shards. -/
def safeItems (windows : List (UInt8 × RawWindow)) : List (UInt8 × Entry) :=
  windows.flatMap fun window =>
    (window.2.found.filter fun entry => UpTo (safeFrontier (windows.map Prod.snd)) entry.1).map
      fun entry => (window.1, entry)

/-- The page that the windows give. -/
def changesPage (storeId : StoreId) (after : Option ChangeId) (filter : ChangeFilter)
    (maximumResults : Nat) (windows : List (UInt8 × RawWindow)) :
    Except StorageError (Page TupleChange) := do
  let frontier := safeFrontier (windows.map Prod.snd)
  let decoded ← (safeItems windows).mapM fun item => decodeBatch serde sha256 storeId item.1 item.2
  let changes := (decoded.flatten.filter fun change =>
    decide (After after change.id) && filter.accepts change).insertionSort
      fun first second => first.id ≤ second.id
  if duplicateChange changes then .error (integrity "dynamodb_change_duplicate_identity")
  else
    let limit ← frontier.mapM fun frontier =>
      orError ((textOf frontier).bind fun text => (ChangeId.parse text).toOption)
        (integrity "dynamodb_change_frontier_invalid")
    let changes := changes.filter fun change => UpTo limit change.id
    if maximumResults < changes.length then
      let page := changes.take maximumResults
      let continuation ← page.getLast?.mapM fun last =>
        StorageCursor.new (bytesOf last.id.text).toByteArray
      .ok ⟨page, continuation⟩
    else
      let continuation ← frontier.mapM fun frontier => StorageCursor.new frontier.toByteArray
      .ok ⟨changes, continuation⟩

end Reading

/-- The bytes of an identifier. Its digits would be computed wherever the name unfolds. -/
@[irreducible] def idText (id : ChangeId) : Bytes := bytesOf id.text

theorem bytesOf_text (id : ChangeId) : bytesOf id.text = idText id := by
  rw [idText]

theorem changeKey_eq (sha256 : Bytes → Bytes) (storeId : StoreId) (id : ChangeId) :
    changeKey sha256 storeId id = (changePartition sha256 storeId (idText id), idText id) := by
  rw [changeKey, bytesOf_text]

theorem ulidDigits_apart (width : Nat) {value value' : Nat} (below : value < value')
    (bounded : value' < 32 ^ width) :
    Apart (((Ulid.digits width value).map Ulid.digitText).flatMap String.utf8EncodeChar)
      (((Ulid.digits width value').map Ulid.digitText).flatMap String.utf8EncodeChar) := by
  have grows : ∀ digit digit' : Fin 32, digit < digit' →
      Ulid.digitText digit < Ulid.digitText digit' := by decide
  induction width generalizing value value' with
  | zero =>
    rw [Nat.pow_zero] at bounded
    omega
  | succ width ih =>
    rw [Ulid.digits, Ulid.digits, map_append, map_append, flatMap_append,
      flatMap_append]
    rcases Nat.lt_or_eq_of_le (Nat.div_le_div_right (c := 32) below.le) with smaller | equal
    · refine (ih smaller (Nat.div_lt_of_lt_mul ?_)).append _ _
      rwa [Nat.pow_succ, Nat.mul_comm] at bounded
    · rw [equal]
      refine Apart.prepend ?_ _
      have order : value % 32 < value' % 32 := by omega
      have letters := grows ⟨value % 32, Nat.mod_lt _ (by decide)⟩
        ⟨value' % 32, Nat.mod_lt _ (by decide)⟩ order
      simp only [map_cons, map_nil, flatMap_cons, flatMap_nil]
      exact (keeps_char _ _ trivial trivial letters).append _ _

/-- The texts of identifiers are compared as the identifiers are. -/
theorem idText_keeps : Keeps (fun _ : ChangeId => True) idText := by
  intro id id' _ _ below
  rw [idText, idText, bytesOf_eq, bytesOf_eq, ChangeId.text, ChangeId.text, Ulid.text, Ulid.text,
    String.toList_ofList, String.toList_ofList]
  exact ulidDigits_apart 26 below (id'.bounded.trans_le (by decide))

theorem idText_lt {id id' : ChangeId} : idText id < idText id' ↔ id < id' :=
  idText_keeps.lt_iff trivial trivial

theorem idText_le {id id' : ChangeId} : idText id ≤ idText id' ↔ id ≤ id' := by
  rw [← not_lt, ← not_lt, idText_lt]

theorem toByteArray_idText (id : ChangeId) : (idText id).toByteArray = id.text.toUTF8 := by
  rw [idText, bytesOf_eq]
  exact String.utf8Encode_toList

theorem parse_idText (id : ChangeId) :
    ((textOf (idText id)).bind fun text => (ChangeId.parse text).toOption) = some id := by
  rw [idText, textOf_bytesOf, Option.bind_some, id.parse_text]
  rfl

/-- The cursor of an identifier. -/
def idCursor (id : ChangeId) : StorageCursor := ⟨(idText id).toByteArray⟩

theorem new_idText (id : ChangeId) : StorageCursor.new (idText id).toByteArray =
    .ok (idCursor id) := by
  have size : id.text.utf8ByteSize = 26 := Ulid.size_text id.value
  rw [idCursor, toByteArray_idText]
  exact StorageCursor.new_toUTF8 (by omega) (by omega)

theorem changeCursor_idCursor (id : ChangeId) : changeCursor (idCursor id) = .ok id := by
  have decoded : String.fromUTF8? (idCursor id).bytes = some id.text := by
    rw [idCursor, idText, ← textOf, textOf_bytesOf]
  rw [changeCursor, decoded, orError_some]
  exact bind_eq_ok.mpr ⟨id.text, rfl, mapError_eq_ok.mpr id.parse_text⟩

theorem mapM_parse (limit : Option ChangeId) :
    (limit.map idText).mapM (fun frontier =>
      orError ((textOf frontier).bind fun text => (ChangeId.parse text).toOption)
        (integrity "dynamodb_change_frontier_invalid")) = .ok limit := by
  cases limit with
  | none => rfl
  | some id => rw [Option.map_some, Option.mapM_some, parse_idText]; rfl

theorem mapM_new (limit : Option ChangeId) :
    (limit.map idText).mapM (fun frontier => StorageCursor.new frontier.toByteArray) =
      .ok (limit.map idCursor) := by
  cases limit with
  | none => rfl
  | some id => rw [Option.map_some, Option.mapM_some, new_idText]; rfl

theorem duplicateChange_of_sorted {changes : List TupleChange}
    (order : changes.Pairwise fun first second => first.id < second.id) :
    duplicateChange changes = false := by
  induction changes with
  | nil => rfl
  | cons change changes ih =>
    obtain ⟨ahead, order⟩ := pairwise_cons.mp order
    cases changes with
    | nil => rfl
    | cons second changes =>
      have rest := ih order
      simp only [duplicateChange, tail_cons, zip_cons_cons, any_cons] at rest ⊢
      rw [rest, decide_eq_false (ahead second mem_cons_self).ne, Bool.or_false]

theorem candidates_none (rows : Rows) (boundary : Option Bytes) :
    candidates rows (fun key => decide (After boundary key)) none =
      remaining Prod.fst boundary rows.toList :=
  remaining_none _

/-- The window of a query reads the partition. -/
theorem queryRawWindow_reads (rows : Rows) (service : QueryService) (boundary : Option Bytes)
    (budget : Nat) (positive : 1 ≤ budget) :
    ∃ window, queryRawWindow rows service boundary budget = .ok window ∧
      window.Reads Prod.fst boundary rows.toList ∧
      (window.exhausted = false → ∃ entry ∈ rows.toList, window.frontier = some entry.1) := by
  have sorted := toList_sorted rows
  have given := service.pages 0 (candidates rows (fun key => decide (After boundary key)) none)
    budget positive
  unfold queryRawWindow
  revert given
  rw [candidates_none]
  generalize service.answer 0 (remaining Prod.fst boundary rows.toList) budget = page
  intro given
  have inside : ∀ entry ∈ page.items, entry ∈ rows.toList ∧ After boundary entry.1 :=
    fun entry member => mem_remaining.mp (given.initial.subset member)
  have ahead : ¬(page.items.any fun entry =>
      boundary.any fun minimum => decide (entry.1 ≤ minimum)) = true := by
    simp only [any_eq_true, Option.any_eq_true, decide_eq_true_iff]
    rintro ⟨entry, member, minimum, held, below⟩
    exact absurd below (not_le.mpr ((inside entry member).2 minimum held))
  have named : page.lastEvaluatedKey.isNone = false → ∃ entry,
      page.items.getLast? = some entry ∧ page.lastEvaluatedKey = some entry.1 := by
    intro more
    obtain ⟨last, held⟩ := Option.isSome_iff_exists.mp (Option.isNone_eq_false_iff.mp more)
    obtain ⟨entry, ends, rfl⟩ := Option.map_eq_some_iff.mp (given.ends last held)
    exact ⟨entry, ends, held⟩
  refine ⟨_, if_neg ahead, ?_, fun more => ?_⟩
  · unfold Window.Reads
    split
    · rename_i ended
      exact given.last (Option.isNone_iff_eq_none.mp ended)
    · rename_i more
      obtain ⟨entry, ends, held⟩ := named (Bool.not_eq_true _ ▸ more)
      have spans := spans_of_initial sorted ends given.initial
      exact ⟨entry.1, by simp only [held, Option.some_or], spans.1, spans.eq_filter sorted⟩
  · obtain ⟨entry, ends, held⟩ := named more
    exact ⟨entry, (inside entry (mem_of_getLast? ends)).1,
      by simp only [held, Option.some_or]⟩

theorem stableShard_lt (sha256 : Bytes → Bytes) (identity : Bytes) :
    stableShard sha256 identity changeShards < changeShards := by
  rw [stableShard, UInt8.lt_iff_toNat_lt, UInt8.toNat_and]
  exact Nat.lt_of_le_of_lt Nat.and_le_right (by decide)

section Batches

variable (consistent : Consistent serde sha256 (ReadsBack serde) table.get log)

include consistent

/-- An item of a shard holds a mutation of the log, under its last change. -/
theorem Consistent.batch_of_entry {shard : UInt8} {entry : Entry}
    (member : entry ∈ (table (.change storeId shard)).toList) :
    ∃ batch ∈ log storeId, ∃ last payload written, batch.getLast? = some last ∧
      encodeChanges serde batch = .ok payload ∧
      entry = (idText last.id, .change payload written) ∧
      Partition.change storeId shard = changePartition sha256 storeId (idText last.id) := by
  obtain ⟨sort, item⟩ := entry
  have found : table.get (.change storeId shard, sort) = some item := mem_toList.mp member
  obtain ⟨batch, listed, last, ends, place⟩ := consistent.batchesOnly storeId shard sort item found
  obtain ⟨last', payload, written, ends', packed, held⟩ := consistent.batches storeId batch listed
  obtain rfl : last = last' := Option.some.inj (ends.symm.trans ends')
  have stored := held.symm.trans (place ▸ found)
  rw [changeKey_eq] at place
  obtain ⟨partitions, sorts⟩ := Prod.mk.inj place
  refine ⟨batch, listed, last, payload, written, ends, packed, ?_, partitions.symm⟩
  rw [Option.some.inj stored, ← sorts]

section

variable (listed : batch ∈ log storeId)

include listed

theorem Consistent.entry_of_batch (ends : batch.getLast? = some last) :
    ∃ shard payload written, encodeChanges serde batch = .ok payload ∧
      Partition.change storeId shard = changePartition sha256 storeId (idText last.id) ∧
      (idText last.id, Item.change payload written) ∈ (table (.change storeId shard)).toList := by
  obtain ⟨last', payload, written, ends', packed, held⟩ := consistent.batches storeId batch listed
  obtain rfl : last = last' := Option.some.inj (ends.symm.trans ends')
  rw [changeKey_eq] at held
  exact ⟨_, payload, written, packed, rfl, mem_toList.mpr held⟩

theorem Consistent.decodeBatch_ok {shard : UInt8} {payload : Bytes} {written : UInt64}
    (ends : batch.getLast? = some last) (packed : encodeChanges serde batch = .ok payload)
    (place : Partition.change storeId shard = changePartition sha256 storeId (idText last.id)) :
    decodeBatch serde sha256 storeId shard (idText last.id, .change payload written) =
      .ok (batch.map recorded) := by
  have inside : ∀ change ∈ batch, change ∈ log.history storeId :=
    fun change member => mem_flatten.mpr ⟨batch, listed, member⟩
  have decoded := decodeChanges_encodeChanges
    (fun change member => (consistent.changes storeId change (inside change member)).1)
    (fun change member => (consistent.changes storeId change (inside change member)).2) packed
  have named : ¬((batch.map recorded).getLast?.all
      fun last' => bytesOf last'.id.text != idText last.id) = true := by
    rw [getLast?_map, ends]
    simp [recorded, bytesOf_text]
  simp only [decodeBatch, decoded, bind, Except.bind]
  rw [if_neg named, if_neg (not_not.mpr place)]

/-- Of two mutations of the log one lies before the other. -/
theorem Consistent.batches_ordered (listed' : batch' ∈ log storeId) : batch = batch' ∨
      (∀ change ∈ batch, ∀ later ∈ batch', change.id < later.id) ∨
      ∀ change ∈ batch', ∀ later ∈ batch, change.id < later.id := by
  obtain ⟨index, inside, rfl⟩ := getElem_of_mem listed
  obtain ⟨index', inside', rfl⟩ := getElem_of_mem listed'
  have order := pairwise_iff_getElem.mp
    (pairwise_flatten.mp (consistent.increasing storeId)).2
  rcases lt_trichotomy index index' with before | rfl | behind
  · exact .inr (.inl (order _ _ inside inside' before))
  · exact .inl rfl
  · exact .inr (.inr (order _ _ inside' inside behind))

theorem Consistent.batch_increasing : batch.Pairwise fun first second => first.id < second.id :=
  (pairwise_flatten.mp (consistent.increasing storeId)).1 batch listed

/-- A mutation lies up to the last change of another one if any of its changes does. -/
theorem Consistent.last_le (listed' : batch' ∈ log storeId) {last' : TupleChange}
    (member : change ∈ batch) (ends : batch.getLast? = some last)
    (ends' : batch'.getLast? = some last') (below : change.id ≤ last'.id) : last.id ≤ last'.id := by
  have final := mem_of_getLast? ends
  have final' := mem_of_getLast? ends'
  rcases consistent.batches_ordered listed listed' with rfl | before | behind
  · rw [ends] at ends'
    cases ends'
    exact le_rfl
  · exact (before last final last' final').le
  · exact absurd below (not_le.mpr (behind last' final' change member))

theorem Consistent.eq_of_id (listed' : batch' ∈ log storeId) {change' : TupleChange}
    (member : change ∈ batch) (member' : change' ∈ batch') (same : change.id = change'.id) :
    batch = batch' := by
  rcases consistent.batches_ordered listed listed' with equal | before | behind
  · exact equal
  · exact absurd same (before change member change' member').ne
  · exact absurd same (behind change' member' change member).ne'

end

end Batches

section Page

variable {after : Option ChangeId} {windows : List (UInt8 × RawWindow)} {filter : ChangeFilter}
  {maximum : Nat}

/-- The changes that a filter accepts, as they are read back. -/
def matching (filter : ChangeFilter) (changes : List TupleChange) : List TupleChange :=
  (changes.map recorded).filter filter.accepts

/-- The window holds an answer to a query of a partition. -/
structure Answers (boundary : Option Bytes) (rows : Rows) (window : RawWindow) : Prop where
  reads : window.Reads Prod.fst boundary rows.toList
  named : window.exhausted = false → ∃ entry ∈ rows.toList, window.frontier = some entry.1

/-- Every shard has been read, from one table. -/
structure Complete (table : Table) (storeId : StoreId) (after : Option ChangeId)
    (windows : List (UInt8 × RawWindow)) : Prop where
  distinct : (windows.map Prod.fst).Nodup
  every : ∀ shard < changeShards, shard ∈ windows.map Prod.fst
  answers : ∀ window ∈ windows,
    Answers (after.map idText) (table (.change storeId window.1)) window.2

variable (consistent : Consistent serde sha256 (ReadsBack serde) table.get log)
  (complete : Complete table storeId after windows)

include consistent complete

/-- The safe frontier is the end of a mutation ahead of the cursor. -/
theorem Complete.frontier : ∃ limit : Option ChangeId,
    safeFrontier (windows.map Prod.snd) = limit.map idText ∧
    ∀ id ∈ limit, After after id ∧ ∃ batch ∈ log storeId, ∃ last, batch.getLast? = some last ∧
      last.id = id := by
  cases safe : safeFrontier (windows.map Prod.snd) with
  | none => exact ⟨none, rfl, nofun⟩
  | some least =>
    obtain ⟨window, member, more, held⟩ := exists_safeFrontier safe
    obtain ⟨pair, listed, rfl⟩ := mem_map.mp member
    obtain ⟨reads, named⟩ := complete.answers pair listed
    obtain ⟨entry, found, same⟩ := named more
    obtain ⟨batch, logged, last, payload, written, ends, -, made, -⟩ :=
      consistent.batch_of_entry found
    rw [made] at same
    obtain rfl : least = idText last.id := Option.some.inj (held.symm.trans same)
    rw [Window.Reads, if_neg (by simp [more])] at reads
    obtain ⟨frontier, same', ahead, -⟩ := reads
    obtain rfl : idText last.id = frontier := Option.some.inj (held.symm.trans same')
    refine ⟨some last.id, rfl, fun id given => ?_⟩
    cases given
    exact ⟨fun cursor given => idText_lt.mp (ahead _ (Option.mem_map_of_mem idText given)),
      batch, logged, last, ends, rfl⟩

omit consistent in
theorem Complete.held_of_safeItems {item : UInt8 × Entry} (member : item ∈ safeItems windows) :
    item.2 ∈ (table (.change storeId item.1)).toList ∧
      UpTo (safeFrontier (windows.map Prod.snd)) item.2.1 := by
  obtain ⟨window, listed, inside⟩ := mem_flatMap.mp member
  obtain ⟨entry, found, rfl⟩ := mem_map.mp inside
  obtain ⟨held, below⟩ := mem_filter.mp found
  exact ⟨(complete.answers window listed).reads.sublist.subset held, decide_eq_true_iff.mp below⟩

omit consistent in
theorem Complete.safeItems_of_held {shard : UInt8} {entry : Entry} (known : shard < changeShards)
    (held : entry ∈ (table (.change storeId shard)).toList)
    (ahead : After (after.map idText) entry.1)
    (below : UpTo (safeFrontier (windows.map Prod.snd)) entry.1) :
    (shard, entry) ∈ safeItems windows := by
  obtain ⟨window, listed, rfl⟩ := mem_map.mp (complete.every shard known)
  have read := ((complete.answers window listed).reads.mem_iff
    (mem_map_of_mem listed) below).mpr (mem_remaining.mpr ⟨held, ahead⟩)
  exact mem_flatMap.mpr ⟨window, listed, mem_map.mpr
    ⟨entry, mem_filter.mpr ⟨read, decide_eq_true_iff.mpr below⟩, rfl⟩⟩

omit consistent in
theorem Complete.safeItems_nodup : (safeItems windows).Nodup := by
  refine nodup_flatMap.mpr ⟨fun window listed => ?_, ?_⟩
  · have sorted := toList_sorted (table (.change storeId window.1))
    have distinct : window.2.found.Nodup :=
      ((sorted.imp fun less => ne_of_apply_ne Prod.fst less.ne).sublist
        (complete.answers window listed).reads.sublist)
    exact (distinct.filter _).map (Prod.mk_right_injective _)
  · refine (pairwise_map.mp complete.distinct).imp fun apart => ?_
    intro item member member'
    obtain ⟨_, -, rfl⟩ := mem_map.mp member
    obtain ⟨_, -, same⟩ := mem_map.mp member'
    exact apart (congrArg Prod.fst same).symm

/-- An item of the page holds a mutation of the log. -/
theorem Complete.decoded_of_safeItems (member : item ∈ safeItems windows) :
    ∃ batch ∈ log storeId, ∃ last, batch.getLast? = some last ∧ item.2.1 = idText last.id ∧
      Partition.change storeId item.1 = changePartition sha256 storeId (idText last.id) ∧
      decodeBatch serde sha256 storeId item.1 item.2 = .ok (batch.map recorded) := by
  obtain ⟨held, -⟩ := complete.held_of_safeItems member
  obtain ⟨batch, listed, last, payload, written, ends, packed, made, place⟩ :=
    consistent.batch_of_entry held
  refine ⟨batch, listed, last, ends, congrArg Prod.fst made, place, ?_⟩
  rw [made]
  exact consistent.decodeBatch_ok listed ends packed place

/-- Two items of the page hold different mutations. -/
theorem Complete.ids_apart {item' : UInt8 × Entry} (member : item ∈ safeItems windows)
    (member' : item' ∈ safeItems windows) (different : item ≠ item') {changes changes'}
    (decoded : decodeBatch serde sha256 storeId item.1 item.2 = .ok changes)
    (decoded' : decodeBatch serde sha256 storeId item'.1 item'.2 = .ok changes') :
    ∀ change ∈ changes, ∀ change' ∈ changes', change.id ≠ change'.id := by
  obtain ⟨batch, listed, last, ends, key, place, made⟩ :=
    complete.decoded_of_safeItems consistent member
  obtain ⟨batch', listed', last', ends', key', place', made'⟩ :=
    complete.decoded_of_safeItems consistent member'
  cases decoded.symm.trans made
  cases decoded'.symm.trans made'
  intro change inside change' inside' same
  obtain ⟨source, original, rfl⟩ := mem_map.mp inside
  obtain ⟨source', original', rfl⟩ := mem_map.mp inside'
  obtain rfl := consistent.eq_of_id listed listed' original original' same
  obtain rfl : last = last' := Option.some.inj (ends.symm.trans ends')
  have shards : item.1 = item'.1 := (Partition.change.inj (place.trans place'.symm)).2
  have keys : item.2.1 = item'.2.1 := key.trans key'.symm
  have found := mem_toList.mp (complete.held_of_safeItems member).1
  have found' := mem_toList.mp (complete.held_of_safeItems member').1
  rw [shards, keys, found', Option.some.injEq] at found
  exact different (Prod.ext shards (Prod.ext keys found.symm))

variable {limit : Option ChangeId}
  (frontier : safeFrontier (windows.map Prod.snd) = limit.map idText)

include frontier

/-- What an item of the page holds is a change of the log up to the frontier. -/
theorem Complete.change_of_item (member : item ∈ safeItems windows) {changes : List TupleChange}
    (decoded : decodeBatch serde sha256 storeId item.1 item.2 = .ok changes) :
    ∀ change ∈ changes, change ∈ (log.history storeId).map recorded ∧ UpTo limit change.id := by
  obtain ⟨batch, listed, last, ends, key, -, made⟩ :=
    complete.decoded_of_safeItems consistent member
  cases decoded.symm.trans made
  intro change inside
  obtain ⟨source, original, rfl⟩ := mem_map.mp inside
  refine ⟨mem_map_of_mem (mem_flatten.mpr ⟨batch, listed, original⟩), ?_⟩
  intro id given
  have below := (complete.held_of_safeItems member).2
  rw [key, frontier] at below
  exact (le_last (consistent.batch_increasing listed) ends source original).trans
    (idText_le.mp (below _ (Option.mem_map_of_mem idText given)))

section

variable
  (named : ∀ id ∈ limit, ∃ batch ∈ log storeId, ∃ last, batch.getLast? = some last ∧ last.id = id)

include named

/-- A change between the cursor and the frontier is held by an item of the page. -/
theorem Complete.item_of_change (logged : change ∈ log.history storeId)
    (ahead : After after change.id) (below : UpTo limit change.id) :
    ∃ item ∈ safeItems windows, ∃ changes,
      decodeBatch serde sha256 storeId item.1 item.2 = .ok changes ∧ recorded change ∈ changes := by
  obtain ⟨batch, listed, member⟩ := mem_flatten.mp logged
  obtain ⟨last, _, _, ends, -, -⟩ := consistent.batches storeId batch listed
  obtain ⟨shard, payload, written, packed, place, held⟩ := consistent.entry_of_batch listed ends
  have reached := le_last (consistent.batch_increasing listed) ends change member
  refine ⟨(shard, idText last.id, .change payload written), ?_, batch.map recorded,
    consistent.decodeBatch_ok listed ends packed place, mem_map_of_mem member⟩
  refine complete.safeItems_of_held ?_ held ?_ ?_
  · rw [(Partition.change.inj place).2]
    exact stableShard_lt _ _
  · intro boundary given
    obtain ⟨cursor, known, rfl⟩ := Option.mem_map.mp given
    exact idText_lt.mpr ((ahead cursor known).trans_le reached)
  · rw [frontier]
    intro boundary given
    obtain ⟨id, known, rfl⟩ := Option.mem_map.mp given
    obtain ⟨batch', listed', last', ends', rfl⟩ := named id known
    exact idText_le.mpr
      (consistent.last_le listed listed' member ends ends' (below last'.id known))

/-- The items decode to the changes between the cursor and the frontier, and perhaps to some
up to the cursor, which lie in the same mutation as a later one. -/
theorem Complete.decoded : ∃ decoded,
    (safeItems windows).mapM (fun item => decodeBatch serde sha256 storeId item.1 item.2) =
      .ok decoded ∧
    (decoded.flatten.Pairwise fun first second => first.id ≠ second.id) ∧
    ∀ change, After after change.id → (change ∈ decoded.flatten ↔
      change ∈ (log.history storeId).map recorded ∧ UpTo limit change.id) := by
  have each : ∀ item ∈ safeItems windows, ∃ batch ∈ log storeId,
      decodeBatch serde sha256 storeId item.1 item.2 = .ok (batch.map recorded) := by
    intro item member
    obtain ⟨batch, listed, -, -, -, -, made⟩ := complete.decoded_of_safeItems consistent member
    exact ⟨batch, listed, made⟩
  refine ⟨_, mapM_eq_filterMap fun item member => ?_, pairwise_flatten.mpr ⟨?_, ?_⟩,
    fun change ahead => ?_⟩
  · obtain ⟨batch, -, made⟩ := each item member
    exact ⟨_, made⟩
  · intro changes inside
    obtain ⟨item, member, made⟩ := mem_filterMap.mp inside
    obtain ⟨batch, listed, decoded⟩ := each item member
    cases (toOption_eq_some.mp made).symm.trans decoded
    exact pairwise_map.mpr ((consistent.batch_increasing listed).imp fun less => less.ne)
  · refine pairwise_filterMap.mpr (complete.safeItems_nodup.imp_of_mem ?_)
    intro item item' member member' different changes made changes' made'
    exact complete.ids_apart consistent member member' different (toOption_eq_some.mp made)
      (toOption_eq_some.mp made')
  · rw [mem_flatten]
    constructor
    · rintro ⟨changes, inside, member⟩
      obtain ⟨item, listed, made⟩ := mem_filterMap.mp inside
      exact complete.change_of_item consistent frontier listed (toOption_eq_some.mp made) change
        member
    · rintro ⟨inside, below⟩
      obtain ⟨source, logged, rfl⟩ := mem_map.mp inside
      obtain ⟨item, listed, changes, made, member⟩ :=
        complete.item_of_change consistent frontier named logged ahead below
      exact ⟨changes, mem_filterMap.mpr ⟨item, listed, toOption_eq_some.mpr made⟩, member⟩

end

omit complete frontier

/-- The matching changes of a store are in the order of their identifiers. -/
theorem Consistent.matching_sorted (storeId : StoreId) (filter : ChangeFilter) :
    (matching filter (log.history storeId)).Pairwise fun first second => first.id < second.id := by
  refine List.Pairwise.filter _ (pairwise_map.mpr ?_)
  exact consistent.increasing storeId

include complete

/-- A page spans the changes of the log that match. -/
theorem changesPage_spans (filter : ChangeFilter) (room : 1 ≤ maximum) : ∃ page next,
    changesPage serde sha256 storeId after filter maximum windows =
      .ok ⟨page, next.map idCursor⟩ ∧
    Spans TupleChange.id after (matching filter (log.history storeId)) page next ∧
    ∀ id ∈ next, ∃ change ∈ log.history storeId, change.id = id := by
  obtain ⟨limit, frontier, ending⟩ := complete.frontier consistent
  obtain ⟨decoded, converted, apart, members⟩ :=
    complete.decoded consistent frontier fun id given => (ending id given).2
  have sorted := consistent.matching_sorted storeId filter
  -- sorting what was decoded gives the changes between the cursor and the frontier
  have whole : (decoded.flatten.filter fun change =>
      decide (After after change.id) && filter.accepts change).insertionSort
        (fun first second => first.id ≤ second.id) =
      (remaining TupleChange.id after (matching filter (log.history storeId))).filter
        fun change => UpTo limit change.id := by
    have total : Std.Total fun first second : TupleChange => first.id ≤ second.id :=
      ⟨fun first second => le_total first.id second.id⟩
    have transitive : IsTrans TupleChange fun first second => first.id ≤ second.id :=
      ⟨fun _ _ _ => le_trans⟩
    refine eq_of_sorted (sorted_of_perm (pairwise_insertionSort _ _)
      (perm_insertionSort _ _) (apart.filter _))
      ((remaining_sorted sorted after).filter _) fun change => ?_
    rw [mem_insertionSort, mem_filter, mem_filter, mem_remaining, matching,
      mem_filter, Bool.and_eq_true, decide_eq_true_iff, decide_eq_true_iff]
    constructor
    · rintro ⟨inside, ahead, accepted⟩
      obtain ⟨logged, below⟩ := (members change ahead).mp inside
      exact ⟨⟨⟨logged, accepted⟩, ahead⟩, below⟩
    · rintro ⟨⟨⟨logged, accepted⟩, ahead⟩, below⟩
      exact ⟨(members change ahead).mpr ⟨logged, below⟩, ahead, accepted⟩
  have spans : Spans TupleChange.id after _ _ limit :=
    spans_upTo sorted fun id given => (ending id given).1
  have again : ((remaining TupleChange.id after (matching filter (log.history storeId))).filter
      fun change => UpTo limit change.id).filter (fun change => UpTo limit change.id) =
      (remaining TupleChange.id after (matching filter (log.history storeId))).filter
        fun change => UpTo limit change.id := by
    rw [filter_filter]
    simp only [Bool.and_self]
  have order := (remaining_sorted sorted after).filter fun change => UpTo limit change.id
  have logged : ∀ change ∈ (remaining TupleChange.id after
      (matching filter (log.history storeId))).filter fun change => UpTo limit change.id,
      ∃ original ∈ log.history storeId, original.id = change.id := by
    intro change member
    obtain ⟨inside, -⟩ := mem_remaining.mp (mem_of_mem_filter member)
    obtain ⟨original, listed, rfl⟩ := mem_map.mp (mem_of_mem_filter inside)
    exact ⟨original, listed, rfl⟩
  generalize (remaining TupleChange.id after (matching filter (log.history storeId))).filter
    (fun change => UpTo limit change.id) = changes at whole spans again order logged
  have start : changesPage serde sha256 storeId after filter maximum windows =
      if maximum < changes.length then do
        let continuation ← (changes.take maximum).getLast?.mapM fun last =>
          StorageCursor.new (bytesOf last.id.text).toByteArray
        .ok ⟨changes.take maximum, continuation⟩
      else .ok ⟨changes, limit.map idCursor⟩ := by
    unfold changesPage
    rw [converted, frontier]
    simp only [bind, Except.bind]
    rw [whole, if_neg (by simp [duplicateChange_of_sorted order]), mapM_parse]
    simp only [again, mapM_new]
  by_cases more : maximum < changes.length
  · obtain ⟨last, ends, cut⟩ := Spans.cut sorted spans.isPrefix room more
    refine ⟨changes.take maximum, some last.id, ?_, cut, fun id given => ?_⟩
    · rw [start, if_pos more, ends, Option.mapM_some, bytesOf_text, new_idText]
      rfl
    · cases given
      exact logged last (mem_of_mem_take (mem_of_getLast? ends))
  · refine ⟨changes, limit, ?_, spans, fun id given => ?_⟩
    · rw [start, if_neg more]
    · obtain ⟨-, batch, listed, last, ends, rfl⟩ := ending id given
      exact ⟨last, mem_flatten.mpr ⟨batch, listed, mem_of_getLast? ends⟩, rfl⟩

end Page

end OpenFga.Dynamo
