import OpenFga.Memory.Mutation

/-!
# Paged reads of the memory backend

A paged read gives the entries of one map of the state after a cursor, in the order of their
keys. A cursor is the text of the last key of the page before. Other operations may run
between two pages; whatever they do, the cursor of an entry that was once held is accepted.
-/

namespace OpenFga.Memory

open Std OrderedMap SecondaryIndex Paging List Function Memory.Sample OrderDual

variable {storeId : StoreId} {options : PageOptions}

section Cursors

variable {α ε : Type} {parse : String → Except ε α} {text : α → String}

/-- Values whose texts fit into a cursor and are read back from it. -/
structure Readable (parse : String → Except ε α) (text : α → String) (value : α) : Prop where
  parsed : parse (text value) = .ok value
  nonempty : 0 < (text value).utf8ByteSize
  bounded : (text value).utf8ByteSize ≤ 1024

/-- The cursor of a value. -/
def cursorOf (text : α → String) (value : α) : StorageCursor := ⟨(text value).toUTF8⟩

theorem startOf_cursors (code : String) {after : Option α}
    (cursors : options.after = after.map (cursorOf text))
    (readable : ∀ value ∈ after, Readable parse text value) :
    startOf parse code options = .ok after := by
  unfold startOf
  rw [cursors]
  cases after with
  | none => rfl
  | some value =>
    simp only [Option.map_some, cursorOf, parseCursor_toUTF8 (readable value rfl).parsed]
    rfl

theorem continuationOf_cursors {last : Option α}
    (fits : ∀ value ∈ last, 0 < (text value).utf8ByteSize ∧ (text value).utf8ByteSize ≤ 1024) :
    continuationOf (last.map text) = .ok (last.map (cursorOf text)) := by
  cases last with
  | none => rfl
  | some value =>
    obtain ⟨nonempty, bounded⟩ := fits value rfl
    simp only [Option.map_some, continuationOf, StorageCursor.new_toUTF8 nonempty bounded]
    rfl

theorem all_lt_eq [LinearOrder α] (after : Option α) (value : α) :
    after.all (fun cursor => decide (cursor < value)) = decide (After after value) := by
  cases after with
  | none | some => simp [After]

end Cursors

/-- What the keys of the maps are: canonical texts, each the key of its own record, and the
index of models mirrors the models. -/
structure Named (s : MemoryState) : Prop where
  tuples : ∀ record : RecordKey, record ∈ s.tuples → (filedKey record).Canonical
  stores : ∀ (storeId : StoreId) (record : StoreRecord), s.stores[storeId]? = some record →
    record.id = storeId ∧ storeId.Canonical
  models : ∀ (key : ModelKey) (model : StoredAuthorizationModel), s.models[key]? = some model →
    key = modelKey model.storeId model.modelId ∧ model.modelId.Canonical
  modelIds : Mirrors (fun key : ModelKey => some (ofLex key).1) (fun key => (ofLex key).2)
    (· ∈ s.models) s.modelIds

namespace Named

variable {s t : MemoryState}

theorem new (limits : InputLimits) : Named (.new limits) where
  tuples := fun record member => absurd member ExtTreeMap.not_mem_empty
  stores := by
    intro storeId record found
    rw [MemoryState.new, ExtTreeMap.getElem?_empty] at found
    cases found
  models := by
    intro key model found
    rw [MemoryState.new, ExtTreeMap.getElem?_empty] at found
    cases found
  modelIds := .empty fun _ => ExtTreeMap.not_mem_empty

theorem commit (named : Named s) {around : Surroundings} {mutation : TupleMutation}
    {prepared : PreparedMutation}
    (passed : prepareMutation s around mutation = .ok (some prepared)) :
    Named (commitMutation s mutation.storeId prepared) := by
  obtain ⟨validated, ready⟩ := prepareMutation_ok passed
  have inserted := insertTuples_only (removeTuples s mutation.storeId prepared.deletes)
    mutation.storeId prepared.timestamp prepared.writes
  have removed := removeTuples_only s mutation.storeId prepared.deletes
  have stores := inserted.stores.trans removed.stores
  have models := inserted.models.trans removed.models
  have modelIds := inserted.modelIds.trans removed.modelIds
  refine ⟨?_, ?_, ?_, ?_⟩
  · intro record member
    by_cases written : record ∈ prepared.writes.map fun tuple =>
        recordKey mutation.storeId tuple.key
    · obtain ⟨tuple, listed, rfl⟩ := mem_map.mp written
      rw [ready.writes] at listed
      exact mutation.canonical tuple ((mem_effectiveWrites validated).mp listed).1
    · apply named.tuples
      rw [← ExtTreeMap.isSome_getElem?_iff_mem] at member ⊢
      have kept : (commitMutation s mutation.storeId prepared).tuples[record]? = _ :=
        getElem?_insertTuples_of_not_mem written
      rw [kept, getElem?_removeTuples] at member
      split at member
      · cases member
      · exact member
  · intro storeId record found
    exact named.stores storeId record (stores ▸ found)
  · intro key model found
    exact named.models key model (models ▸ found)
  · have kept := named.modelIds
    rw [← models, ← modelIds] at kept
    exact kept

theorem moved (moved : Moved s t) (named : Named s) : Named t := by
  cases moved with
  | mutated passed => exact named.commit passed
  | modelWritten canonical absent =>
    rename_i model
    refine ⟨named.tuples, named.stores, ?_, ?_⟩
    · intro key model' found
      obtain ⟨rfl, rfl⟩ | old := of_getElem?_insert found
      · exact ⟨rfl, canonical⟩
      · exact named.models key model' old
    · exact named.modelIds.insertKey rfl fun _ => mem_insert_iff
  | storeCreated canonical =>
    rename_i storeId name timestamp
    refine ⟨named.tuples, ?_, named.models, named.modelIds⟩
    intro other record found
    obtain ⟨rfl, rfl⟩ | old := of_getElem?_insert found
    · exact ⟨rfl, canonical⟩
    · exact named.stores other record old
  | storeRenamed present =>
    rename_i storeId name timestamp existing
    refine ⟨named.tuples, ?_, named.models, named.modelIds⟩
    intro other record found
    obtain ⟨rfl, rfl⟩ | old := of_getElem?_insert found
    · exact named.stores storeId existing present
    · exact named.stores other record old
  | storeDeleted =>
    exact ⟨named.tuples, fun other record found => named.stores other record
      (of_getElem?_erase found), named.models, named.modelIds⟩
  | _ => exact ⟨named.tuples, named.stores, named.models, named.modelIds⟩

end Named

theorem Reachable.named {limits : InputLimits} {s : MemoryState}
    (reached : Reachable limits s) : Named s :=
  reached.invariant Named (.new limits) fun _ _ => Named.moved

theorem TupleKey.readable {key : TupleKey} (canonical : key.Canonical) :
    Readable (fun text => TupleKey.parseWithLimits text .standard) TupleKey.display key where
  parsed := TupleKey.parse_display canonical
  nonempty := by
    have size : key.display.utf8ByteSize =
        key.object.display.utf8ByteSize + 1 + key.relation.text.utf8ByteSize + 1 +
          key.subject.display.utf8ByteSize := by
      simp only [TupleKey.display, String.utf8ByteSize_append]
      rfl
    omega
  bounded := (TupleKey.size_display canonical).trans (by decide)

theorem ulid_readable {α ε : Type} {parse : String → Except ε α} {text : α → String} {id : α}
    {value : Nat} (here : text id = Ulid.text value) (parsed : parse (text id) = .ok id) :
    Readable parse text id where
  parsed := parsed
  nonempty := by
    rw [here, Ulid.size_text]
    decide
  bounded := by
    rw [here, Ulid.size_text]
    decide

theorem StoreId.readable {id : StoreId} (canonical : id.Canonical) :
    Readable StoreId.parse StoreId.text id := by
  have parsed := StoreId.parse_text canonical
  obtain ⟨value, -, text⟩ := canonical
  exact ulid_readable text parsed

theorem AuthorizationModelId.readable {id : AuthorizationModelId} (canonical : id.Canonical) :
    Readable AuthorizationModelId.parse AuthorizationModelId.text id := by
  have parsed := AuthorizationModelId.parse_text canonical
  obtain ⟨value, -, text⟩ := canonical
  exact ulid_readable text parsed

theorem ChangeId.readable (id : ChangeId) : Readable ChangeId.parse ChangeId.text id :=
  ulid_readable rfl (ChangeId.parse_text id)

section Shapes

variable {β κ ε : Type} [LinearOrder κ] {parse : String → Except ε κ} {text : κ → String}
  {key : β → κ} {after : Option κ} {listing : List β} {maximum : Nat}

variable (after maximum) in
theorem continuationOf_page (readable : ∀ item ∈ listing, Readable parse text (key item)) :
    continuationOf
        ((boundedPage (remaining key after listing) maximum).2.map fun item => text (key item)) =
      .ok ((boundedPage (remaining key after listing) maximum).2.map (cursorOf text ∘ key)) := by
  have fits : continuationOf (((boundedPage (remaining key after listing) maximum).2.map key).map
      text) = .ok (((boundedPage (remaining key after listing) maximum).2.map key).map
        (cursorOf text)) := by
    refine continuationOf_cursors fun value last => ?_
    obtain ⟨item, found, rfl⟩ := Option.map_eq_some_iff.mp last
    have fits := readable item (mem_remaining.mp (mem_boundedPage.2 item found)).1
    exact ⟨fits.nonempty, fits.bounded⟩
  rwa [Option.map_map, Option.map_map] at fits

omit [LinearOrder κ] in
/-- Looking up the keys of records that are found under them. -/
theorem mapM_lookup {find : κ → Option β} {failure : StorageError} {items : List β}
    (found : ∀ item ∈ items, find (key item) = some item) :
    (items.map key).mapM (fun value => orError (find value) failure) = .ok items := by
  refine mapM_restore_iff.mpr fun item member => ?_
  rw [found item member, orError_some]

end Shapes

section Tuples

variable {s : MemoryState} {filter : TupleReadFilter}

/-- The tuples of a store that a filter accepts, in the order of their keys. -/
def tupleListing (s : MemoryState) (storeId : StoreId) (filter : TupleReadFilter) :
    List StoredTuple :=
  ((ofStore storeId s.tuples.toList).filter fun entry => filter.accepts entry.1).map Prod.snd

theorem keyed_ofStore (indexed : Indexed s) :
    ∀ entry ∈ ofStore storeId s.tuples.toList, entry.2.tuple.key = entry.1 :=
  fun _ member => indexed.keyed _ _ (mem_toList.mp (mem_ofStore.mp member))

theorem tupleListing_sorted (indexed : Indexed s) :
    (tupleListing s storeId filter).Pairwise
      fun first second => first.tuple.key < second.tuple.key := by
  rw [tupleListing, pairwise_map]
  refine ((ofStore_sorted (toList_sorted s.tuples)).filter _).imp_of_mem ?_
  intro first second member member' less
  rw [keyed_ofStore indexed first (mem_of_mem_filter member),
    keyed_ofStore indexed second (mem_of_mem_filter member')]
  exact less

variable (storeId filter) in
theorem tupleListing_canonical (indexed : Indexed s) (named : Named s) :
    ∀ stored ∈ tupleListing s storeId filter, stored.tuple.key.Canonical := by
  intro stored member
  obtain ⟨entry, listed, rfl⟩ := mem_map.mp member
  have held := mem_of_mem_filter listed
  rw [keyed_ofStore indexed entry held]
  have found := mem_toList.mp (mem_ofStore.mp held)
  exact named.tuples _ (ExtTreeMap.isSome_getElem?_iff_mem.mp (Option.isSome_of_mem found))

theorem readTuples_page (indexed : Indexed s) (named : Named s) {after : Option TupleKey}
    (canonical : ∀ key ∈ after, key.Canonical)
    (cursors : options.after = after.map (cursorOf TupleKey.display)) :
    readTuples s storeId filter options =
      let page := boundedPage (remaining (fun stored => stored.tuple.key) after
        (tupleListing s storeId filter)) options.maximumResults
      .ok ⟨page.1, page.2.map (cursorOf TupleKey.display ∘ fun stored => stored.tuple.key)⟩ := by
  have started := startOf_cursors "tuple_cursor" cursors
    fun key held => TupleKey.readable (canonical key held)
  have continued := continuationOf_page after options.maximumResults fun stored member =>
    TupleKey.readable (tupleListing_canonical storeId filter indexed named stored member)
  set chosen := (ofStore storeId s.tuples.toList).filter fun entry =>
    after.all (fun cursor => decide (cursor < entry.1)) && filter.accepts entry.1 with chosen_eq
  have candidates : chosen.map Prod.snd =
      remaining (fun stored => stored.tuple.key) after (tupleListing s storeId filter) := by
    rw [chosen_eq, remaining, tupleListing, filter_map, filter_filter]
    refine congrArg _ (filter_congr fun entry member => ?_)
    rw [all_lt_eq, comp_apply, keyed_ofStore indexed entry member]
  have texts : (boundedPage chosen options.maximumResults).2.map (fun entry => entry.1.display) =
      ((boundedPage chosen options.maximumResults).2.map Prod.snd).map
        fun stored => stored.tuple.key.display := by
    rw [Option.map_map]
    refine Option.map_congr fun entry last => ?_
    have held := mem_of_mem_filter (mem_boundedPage.2 entry last)
    rw [comp_apply, keyed_ofStore indexed entry held]
  rw [← candidates, boundedPage_map] at continued ⊢
  simp only [readTuples, started, bind, Except.bind, ← chosen_eq, texts, continued]

end Tuples

section Stores

variable {s : MemoryState} {filter : StoreFilter}

/-- The stores that a filter accepts, in the order of their identifiers. -/
def storeListing (s : MemoryState) (filter : StoreFilter) : List StoreRecord :=
  (s.stores.toList.map Prod.snd).filter fun store =>
    filter.name.all fun name => decide (store.name = name)

theorem mem_storeListing (named : Named s) {store : StoreRecord} :
    store ∈ storeListing s filter ↔ s.stores[store.id]? = some store ∧
      filter.name.all (fun name => decide (store.name = name)) = true := by
  rw [storeListing, mem_filter, mem_map]
  refine and_congr_left fun _ => ⟨?_, fun found => ⟨(store.id, store), mem_toList.mpr found, rfl⟩⟩
  rintro ⟨⟨storeId, record⟩, member, rfl⟩
  have found := mem_toList.mp member
  rw [(named.stores storeId record found).1]
  exact found

theorem storeListing_sorted (named : Named s) :
    (storeListing s filter).Pairwise fun first second => first.id < second.id := by
  refine List.Pairwise.filter _ (pairwise_map.mpr ?_)
  refine (toList_sorted s.stores).imp_of_mem ?_
  intro first second member member' less
  rw [(named.stores _ _ (mem_toList.mp member)).1, (named.stores _ _ (mem_toList.mp member')).1]
  exact less

variable (filter) in
theorem storeListing_canonical (named : Named s) :
    ∀ store ∈ storeListing s filter, store.id.Canonical :=
  fun _ member => (named.stores _ _ ((mem_storeListing named).mp member).1).2

theorem listStores_page (named : Named s) {after : Option StoreId}
    (canonical : ∀ id ∈ after, id.Canonical)
    (cursors : options.after = after.map (cursorOf StoreId.text)) : listStores s filter options =
      let page := boundedPage (remaining StoreRecord.id after (storeListing s filter))
        options.maximumResults
      .ok ⟨page.1, page.2.map (cursorOf StoreId.text ∘ StoreRecord.id)⟩ := by
  have started := startOf_cursors "store_cursor" cursors
    fun id held => StoreId.readable (canonical id held)
  have continued := continuationOf_page after options.maximumResults fun store member =>
    StoreId.readable (storeListing_canonical filter named store member)
  have identifiers : (s.stores.keys.filter fun id =>
      after.all (fun cursor => decide (cursor < id)) &&
        filter.name.all fun name => s.stores[id]?.any fun store => store.name = name) =
      (remaining StoreRecord.id after (storeListing s filter)).map StoreRecord.id := by
    have keys : s.stores.keys = s.stores.toList.map Prod.fst :=
      ExtTreeMap.map_fst_toList_eq_keys.symm
    have swapped : s.stores.toList.map Prod.fst =
        (s.stores.toList.map Prod.snd).map StoreRecord.id := by
      rw [map_map]
      refine map_congr_left fun entry member => ?_
      exact (named.stores _ _ (mem_toList.mp member)).1.symm
    rw [keys, swapped, filter_map, remaining, storeListing, filter_filter]
    refine congrArg _ (filter_congr fun store member => ?_)
    obtain ⟨entry, listed, rfl⟩ := mem_map.mp member
    have found := mem_toList.mp listed
    rw [comp_apply, all_lt_eq, (named.stores _ _ found).1, found]
    rfl
  set page := boundedPage (remaining StoreRecord.id after (storeListing s filter))
    options.maximumResults with page_eq
  have looked : (page.1.map StoreRecord.id).mapM (fun id =>
      orError s.stores[id]? (StorageError.new .integrity "store_index_dangling")) =
      .ok page.1 := by
    refine mapM_lookup fun store member => ?_
    have held := (mem_remaining.mp (mem_boundedPage.1 store member)).1
    exact ((mem_storeListing named).mp held).1
  simp only [listStores, started, bind, Except.bind, identifiers, boundedPage_map, ← page_eq,
    looked, Option.map_map]
  simp only [comp_def] at continued ⊢
  rw [continued]

end Stores

section Models

variable {s : MemoryState}

/-- The models of a store, the latest first. -/
def modelListing (s : MemoryState) (storeId : StoreId) : List StoredAuthorizationModel :=
  ((ofStore storeId s.models.toList).map Prod.snd).reverse

/-- Models in the order in which they are listed. -/
def modelOrder (model : StoredAuthorizationModel) : AuthorizationModelIdᵒᵈ :=
  toDual model.modelId

theorem identified_ofStore (named : Named s) :
    ∀ entry ∈ ofStore storeId s.models.toList,
      entry.2.storeId = storeId ∧ entry.2.modelId = entry.1 ∧ entry.1.Canonical := by
  intro entry member
  obtain ⟨key, canonical⟩ := named.models _ _ (mem_toList.mp (mem_ofStore.mp member))
  obtain ⟨stores, ids⟩ := Prod.mk.inj (toLex.injective key)
  exact ⟨stores.symm, ids.symm, ids ▸ canonical⟩

theorem mem_modelListing {model : StoredAuthorizationModel} (named : Named s)
    (member : model ∈ modelListing s storeId) :
    s.models[modelKey storeId model.modelId]? = some model ∧ model.modelId.Canonical := by
  obtain ⟨entry, listed, rfl⟩ := List.mem_map.mp (List.mem_reverse.mp member)
  obtain ⟨-, same, canonical⟩ := identified_ofStore named entry listed
  rw [same]
  exact ⟨mem_toList.mp (mem_ofStore.mp listed), canonical⟩

theorem modelListing_sorted (named : Named s) :
    (modelListing s storeId).Pairwise fun first second => modelOrder first < modelOrder second := by
  rw [modelListing, pairwise_reverse, pairwise_map]
  refine (ofStore_sorted (toList_sorted s.models)).imp_of_mem ?_
  intro first second member member' less
  rw [modelOrder, modelOrder, toDual_lt_toDual, (identified_ofStore named first member).2.1,
    (identified_ofStore named second member').2.1]
  exact less

/-- The index of models lists the identifiers of the models. -/
theorem toList_modelIds (named : Named s) :
    (bucket s.modelIds storeId).toList.reverse =
      (modelListing s storeId).map StoredAuthorizationModel.modelId := by
  rw [modelListing, map_reverse, map_map]
  refine congrArg _ ?_
  have identifiers : (ofStore storeId s.models.toList).map
      (StoredAuthorizationModel.modelId ∘ Prod.snd) =
      (ofStore storeId s.models.toList).map Prod.fst :=
    map_congr_left fun entry member => (identified_ofStore named entry member).2.1
  rw [identifiers]
  have sorted : ((ofStore storeId s.models.toList).map Prod.fst).Pairwise (· < ·) :=
    pairwise_map.mpr (ofStore_sorted (toList_sorted s.models))
  refine (set_toList_sorted _).eq_of_mem_iff sorted fun id => ?_
  rw [ExtTreeSet.mem_toList, named.modelIds.mem_iff, mem_map]
  constructor
  · rintro ⟨key, member, stores, rfl⟩
    obtain ⟨model, found⟩ := Option.isSome_iff_exists.mp
      (ExtTreeMap.isSome_getElem?_iff_mem.mpr member)
    refine ⟨((ofLex key).2, model), mem_ofStore.mpr (mem_toList.mpr ?_), rfl⟩
    rw [← Option.some.inj stores]
    exact found
  · rintro ⟨entry, listed, rfl⟩
    have found := mem_toList.mp (mem_ofStore.mp listed)
    exact ⟨toLex (storeId, entry.1),
      ExtTreeMap.isSome_getElem?_iff_mem.mp (Option.isSome_of_mem found), rfl, rfl⟩

theorem listModels_page (named : Named s) {after : Option AuthorizationModelIdᵒᵈ}
    (canonical : ∀ id ∈ after, (ofDual id).Canonical) (cursors : options.after =
      after.map (cursorOf fun id => (ofDual id).text)) : listModels s storeId options =
      let page := boundedPage (remaining modelOrder after (modelListing s storeId))
        options.maximumResults
      .ok ⟨page.1, page.2.map (cursorOf (fun id => (ofDual id).text) ∘ modelOrder)⟩ := by
  -- A model after the cursor in the order of the listing is one before it by its identifier.
  have dual : options.after =
      (after.map ofDual).map (cursorOf AuthorizationModelId.text) := by
    rw [cursors, Option.map_map]
    rfl
  have started := startOf_cursors "model_cursor" dual fun id held => by
    obtain ⟨id, here, rfl⟩ := Option.map_eq_some_iff.mp held
    exact AuthorizationModelId.readable (canonical id here)
  set page := boundedPage (remaining modelOrder after (modelListing s storeId))
    options.maximumResults with page_eq
  have continued : continuationOf ((page.2.map StoredAuthorizationModel.modelId).map
      AuthorizationModelId.text) = .ok ((page.2.map StoredAuthorizationModel.modelId).map
        (cursorOf AuthorizationModelId.text)) := by
    refine continuationOf_cursors fun id last => ?_
    obtain ⟨model, found, rfl⟩ := Option.map_eq_some_iff.mp last
    have held := (mem_remaining.mp (mem_boundedPage.2 model found)).1
    have fits := AuthorizationModelId.readable (mem_modelListing named held).2
    exact ⟨fits.nonempty, fits.bounded⟩
  have identifiers : ((bucket s.modelIds storeId).toList.reverse.filter fun id =>
      (after.map ofDual).all fun cursor => decide (id < cursor)) =
      (remaining modelOrder after (modelListing s storeId)).map
        StoredAuthorizationModel.modelId := by
    rw [toList_modelIds named, filter_map, remaining]
    refine congrArg _ (filter_congr fun model _ => ?_)
    rw [← all_lt_eq, comp_apply]
    cases after with
    | none | some => rfl
  have looked : (page.1.map StoredAuthorizationModel.modelId).mapM (fun id =>
      orError s.models[modelKey storeId id]? (StorageError.new .integrity "model_index_dangling")) =
      .ok page.1 := by
    refine mapM_lookup fun model member => ?_
    have held := (mem_remaining.mp (mem_boundedPage.1 model member)).1
    exact (mem_modelListing named held).1
  simp only [listModels, started, bind, Except.bind, identifiers, boundedPage_map, ← page_eq,
    looked, continued]
  rw [Option.map_map]
  rfl

end Models

section Changes

variable {s : MemoryState} {filter : ChangeFilter}

def changeListing (s : MemoryState) (storeId : StoreId) (filter : ChangeFilter) :
    List TupleChange :=
  (changesOf s storeId).filter filter.accepts

theorem changeListing_sorted (logged : Logged s) :
    (changeListing s storeId filter).Pairwise fun first second => first.id < second.id :=
  (changesOf_sorted logged storeId).filter _

theorem readChanges_page (logged : Logged s) {after : Option ChangeId}
    (cursors : options.after = after.map (cursorOf ChangeId.text)) :
    readChanges s storeId filter options =
      let page := boundedPage (remaining TupleChange.id after (changeListing s storeId filter))
        options.maximumResults
      .ok ⟨page.1, page.2.map (cursorOf ChangeId.text ∘ TupleChange.id)⟩ := by
  have started := startOf_cursors "change_cursor" cursors fun id _ => ChangeId.readable id
  have continued : continuationOf ((boundedPage (remaining TupleChange.id after
      (changeListing s storeId filter)) options.maximumResults).2.map fun change =>
        change.id.text) = _ :=
    continuationOf_page after options.maximumResults fun change _ => ChangeId.readable change.id
  have chosen : (((ofStore storeId s.changes.toList).filter fun entry =>
      after.all fun cursor => decide (cursor < entry.1)).map Prod.snd).filter filter.accepts =
      remaining TupleChange.id after (changeListing s storeId filter) := by
    rw [remaining, changeListing, changesOf, filter_filter, filter_map, filter_map, filter_filter]
    refine congrArg _ (filter_congr fun entry member => ?_)
    rw [all_lt_eq, comp_apply, comp_apply, Bool.and_comm,
      identified_changes logged entry member]
  simp only [readChanges, started, bind, Except.bind, chosen, continued]

end Changes

section Faithful

variable {limits : InputLimits} {states : Nat → MemoryState}
  (reached : ∀ turn, Reachable limits (states turn)) {size : Nat → Nat}
  (positive : ∀ turn, 1 ≤ size turn)

include reached

theorem readTuples_pages (storeId : StoreId) (filter : TupleReadFilter) :
    Pages (fun turn => pageOf (readTuples (states turn) storeId filter) (size turn) (positive turn))
      (fun stored => stored.tuple.key) (cursorOf TupleKey.display) size
      (fun turn => tupleListing (states turn) storeId filter) where
  room := positive
  sorted := fun turn => tupleListing_sorted (reached turn).indexed
  accepts := by
    intro turn after seen
    have canonical : ∀ key ∈ after, key.Canonical := by
      intro key held
      obtain ⟨turn', stored, member, rfl⟩ := seen key held
      exact tupleListing_canonical storeId filter (reached turn').indexed (reached turn').named
        stored member
    rw [pageOf, readTuples_page (reached turn).indexed (reached turn).named canonical rfl]
    rfl

theorem listModels_pages (storeId : StoreId) :
    Pages (fun turn => pageOf (listModels (states turn) storeId) (size turn) (positive turn))
      modelOrder (cursorOf fun id => (ofDual id).text) size
      (fun turn => modelListing (states turn) storeId) where
  room := positive
  sorted := fun turn => modelListing_sorted (reached turn).named
  accepts := by
    intro turn after seen
    have canonical : ∀ id ∈ after, (ofDual id).Canonical := by
      intro id held
      obtain ⟨turn', model, member, rfl⟩ := seen id held
      exact (mem_modelListing (reached turn').named member).2
    rw [pageOf, listModels_page (reached turn).named canonical rfl]
    rfl

theorem listStores_pages (filter : StoreFilter) :
    Pages (fun turn => pageOf (listStores (states turn) filter) (size turn) (positive turn))
      StoreRecord.id (cursorOf StoreId.text) size
      (fun turn => storeListing (states turn) filter) where
  room := positive
  sorted := fun turn => storeListing_sorted (reached turn).named
  accepts := by
    intro turn after seen
    have canonical : ∀ id ∈ after, id.Canonical := by
      intro id held
      obtain ⟨turn', store, member, rfl⟩ := seen id held
      exact storeListing_canonical filter (reached turn').named store member
    rw [pageOf, listStores_page (reached turn).named canonical rfl]
    rfl

theorem readChanges_pages (storeId : StoreId) (filter : ChangeFilter) :
    Pages (fun turn => pageOf (readChanges (states turn) storeId filter) (size turn)
      (positive turn)) TupleChange.id (cursorOf ChangeId.text) size
      (fun turn => changeListing (states turn) storeId filter) where
  room := positive
  sorted := fun turn => changeListing_sorted (reached turn).logged
  accepts := by
    intro turn after _
    rw [pageOf, readChanges_page (reached turn).logged rfl]
    rfl

/-- Each page of a paged read may be read in another reachable state and have another size.
Following the cursors is never refused, gives nothing out twice, misses nothing that stays,
ends if the keys are finitely many, and gives the whole listing if the state stays the same. -/
theorem paged_reads_faithful :
    (∀ storeId filter, Faithful
      (fun turn => pageOf (readTuples (states turn) storeId filter) (size turn) (positive turn))
      (fun stored => stored.tuple.key) (fun turn => tupleListing (states turn) storeId filter)) ∧
    (∀ storeId, Faithful
      (fun turn => pageOf (listModels (states turn) storeId) (size turn) (positive turn))
      modelOrder (fun turn => modelListing (states turn) storeId)) ∧
    (∀ filter, Faithful
      (fun turn => pageOf (listStores (states turn) filter) (size turn) (positive turn))
      StoreRecord.id (fun turn => storeListing (states turn) filter)) ∧
    ∀ storeId filter, Faithful
      (fun turn => pageOf (readChanges (states turn) storeId filter) (size turn) (positive turn))
      TupleChange.id (fun turn => changeListing (states turn) storeId filter) :=
  ⟨fun storeId filter => (readTuples_pages reached positive storeId filter).faithful,
    fun storeId => (listModels_pages reached positive storeId).faithful,
    fun filter => (listStores_pages reached positive filter).faithful,
    fun storeId filter => (readChanges_pages reached positive storeId filter).faithful⟩

end Faithful

/-- Two documents, one on a page. -/
theorem paged_reads_written :
    ∃ items, follow (fun _ => pageOf (readTuples written store ⟨none, none, none, none⟩)
        1 le_rfl) 3 0 none = .ok (some items) ∧
      items.map StoredTuple.tuple = [tuple "1", tuple "2"] := by
  obtain ⟨tuples, -⟩ := paged_reads_faithful (fun _ => written_reachable) fun _ => le_rfl
  have pages := tuples store ⟨none, none, none, none⟩
  obtain ⟨items, ended⟩ := pages.ends {(tuple "1").key, (tuple "2").key}
    fun _ => by decide +kernel
  refine ⟨items, ended, ?_⟩
  rw [pages.unchanged _ items _ (fun _ => rfl) ended]
  rfl

end OpenFga.Memory
