import OpenFga.Dynamo.Exact

/-!
# Reverse reads

The tuples of some subjects for one type of objects and one relation are found by one query
for each subject. All queries together may look at a number of items that depends on how many
tuples are wanted, and each of them gets an equal share. A query that has used up its share
fails unless its last page was declared to be the last.
-/

namespace OpenFga.Dynamo

open Std OrderedMap Paging List Dynamo.Sample

section

variable {subject : SubjectRef} {budget : Nat} {serde : Serde TupleEnvelope}
  {sha256 : Bytes → Bytes} {table : Table} {storeId : StoreId} {records : List TupleRecord}
  {filter : ReverseTupleFilter} {items : List Entry}

section Partitions

def evaluationLimit : StorageError := .new .resourceExhausted "dynamodb_snapshot_evaluation_limit"

/-- The pages of a query for the keys with some first bytes. The first number bounds the
pages. -/
def partitionPages (rows : Rows) (service : QueryService) (leading : Bytes) (budget : Nat) :
    Nat → Nat → Option Bytes → List Entry → Except StorageError (List Entry)
  | 0, _, _, _ => .error evaluationLimit
  | rounds + 1, call, start, items =>
      if budget - items.length = 0 then .error evaluationLimit
      else
        let page := service.answer call (candidates rows leading.isPrefixOf start)
          (budget - items.length)
        if budget < items.length + page.items.length then
          .error (.new .resourceExhausted "dynamodb_query_item_limit")
        else if page.items.any fun entry => !leading.isPrefixOf entry.1 then
          .error (integrity "dynamodb_query_identity_mismatch")
        else
          match page.lastEvaluatedKey with
          | none => .ok (items ++ page.items)
          | some last => partitionPages rows service leading budget rounds (call + 1) (some last)
              (items ++ page.items)

def queryPartition (rows : Rows) (service : QueryService) (leading : Bytes)
    (evaluationBudget : Nat) : Except StorageError (List Entry) :=
  partitionPages rows service leading evaluationBudget (evaluationBudget + 1) 0 none []

variable {rows : Rows} {service : QueryService} {leading : Bytes}

/-- The items whose keys have the first bytes. -/
def withLeading (rows : Rows) (leading : Bytes) : List Entry :=
  rows.toList.filter fun entry => leading.isPrefixOf entry.1

theorem withLeading_sorted (rows : Rows) (leading : Bytes) :
    (withLeading rows leading).Pairwise fun first second => first.1 < second.1 :=
  (toList_sorted rows).filter _

/-- Induction over the rounds. What is left of the budget is less than the number of rounds
left. -/
theorem partitionPages_ok (few : (withLeading rows leading).length < budget) (rounds : Nat)
    {call : Nat} {start : Option Bytes} (reached : Reached (withLeading rows leading) start items)
    (enough : budget - items.length < rounds) :
    partitionPages rows service leading budget rounds call start items =
      .ok (withLeading rows leading) := by
  induction rounds generalizing call start items with
  | zero => cases enough
  | succ rounds ih =>
    have inside := reached.length_le
    have given : (service.answer call (candidates rows leading.isPrefixOf start)
        (budget - items.length)).Of
        (remaining Prod.fst start (withLeading rows leading)) (budget - items.length) :=
      service.pages call _ _ (by omega)
    rw [partitionPages, if_neg (by omega)]
    revert given
    generalize service.answer call (candidates rows leading.isPrefixOf start)
      (budget - items.length) = page
    intro given
    have bounded := given.bounded
    have identified : ¬(page.items.any fun entry => !leading.isPrefixOf entry.1) = true := by
      rw [Bool.not_eq_true, any_eq_false]
      intro entry member
      have listed := (mem_remaining.mp (given.initial.subset member)).1
      simpa using (mem_filter.mp listed).2
    simp only [if_neg identified, if_neg (show ¬budget < items.length + page.items.length by omega)]
    split
    · rename_i last
      rw [given.all reached last]
    · rename_i last more
      obtain ⟨further, nonempty⟩ := given.advance (withLeading_sorted rows leading) reached more
      have progress := length_pos_iff.mpr nonempty
      refine ih further ?_
      rw [length_append]
      omega

/-- A query that looks at fewer items than its budget finds all of them. -/
theorem queryPartition_ok (few : (withLeading rows leading).length < budget) :
    queryPartition rows service leading budget = .ok (withLeading rows leading) := by
  have unread : Reached (withLeading rows leading) none [] := rfl
  exact partitionPages_ok few (budget + 1) unread (Nat.lt_succ_self _)

/-- A round that does not fail has some of the budget left, and ends the query or goes on. -/
theorem partitionPages_eq_ok {rounds call : Nat} {start : Option Bytes} {result : List Entry}
    (given : partitionPages rows service leading budget (rounds + 1) call start items =
      .ok result) : items.length < budget ∧
      ((service.answer call (candidates rows leading.isPrefixOf start)
          (budget - items.length)).lastEvaluatedKey = none ∨
        ∃ last, partitionPages rows service leading budget rounds (call + 1) (some last)
          (items ++ (service.answer call (candidates rows leading.isPrefixOf start)
            (budget - items.length)).items) = .ok result) := by
  obtain ⟨left, given⟩ := guard_eq_ok.mp given
  refine ⟨by omega, ?_⟩
  obtain ⟨-, given⟩ := guard_eq_ok.mp given
  split at given
  · cases given
  split at given
  · exact .inl ‹_›
  · exact .inr ⟨_, given⟩

/-- A service that always names the last key makes a query fail that needs its whole budget. -/
theorem queryPartition_persistent
    (given : queryPartition rows .persistent leading budget = .ok items) :
    (withLeading rows leading).length < budget := by
  by_contra exceeds
  have first : candidates rows leading.isPrefixOf none = withLeading rows leading :=
    remaining_none _
  have length : ((withLeading rows leading).take budget).length = budget := by
    rw [length_take]
    omega
  obtain ⟨positive, next⟩ := partitionPages_eq_ok given
  rw [length_nil, Nat.sub_zero, first] at next
  rcases next with ended | ⟨last, given⟩
  · have empty := getLast?_eq_none_iff.mp (Option.map_eq_none_iff.mp ended)
    rw [empty] at length
    exact absurd positive (by rw [← length]; exact Nat.lt_irrefl _)
  · -- The second round finds the budget used up.
    obtain ⟨rest, rfl⟩ := Nat.exists_eq_succ_of_ne_zero positive.ne'
    have used := (partitionPages_eq_ok given).1
    rw [nil_append] at used
    exact absurd (length ▸ used) (Nat.lt_irrefl _)

end Partitions

section Reading

variable (serde : Serde TupleEnvelope) (sha256 : Bytes → Bytes) (table : Table)

def acceptReverse (entry : Entry) : Except StorageError RelationshipTuple := do
  let stored ← decodeStoredTuple serde sha256 entry.2
  let physical ← decodeReverse entry.1
  if physical ≠ stored.tuple.key then
    .error (integrity "dynamodb_reverse_key_payload_mismatch")
  else .ok stored.tuple

def acceptsFor (filter : ReverseTupleFilter) (subject : SubjectRef) (tuple : RelationshipTuple) :
    Bool :=
  tuple.key.subject = subject && tuple.key.object.objectType = filter.objectType &&
    tuple.key.relation = filter.relation &&
    (filter.objectIds.isEmpty || filter.objectIds.contains tuple.key.object.objectId) &&
    filter.conditions.accepts tuple.condition

/-- The tuples found so far, by key. -/
abbrev FoundTuples := ExtTreeMap TupleKey RelationshipTuple

/-- Adds what one subject has. -/
def reverseSubject (service : QueryService) (storeId : StoreId) (filter : ReverseTupleFilter)
    (perSubjectBudget : Nat) (found : FoundTuples) (subject : SubjectRef) :
    Except StorageError FoundTuples := do
  let leading ← reversePrefix subject filter.objectType filter.relation
  let entries ← queryPartition (table (reversePartition sha256 storeId subject)) service leading
    perSubjectBudget
  let tuples ← entries.mapM (acceptReverse serde sha256)
  .ok ((tuples.filter (acceptsFor filter subject)).foldl
    (fun found tuple => found.insert tuple.key tuple) found)

/-- The keys that a filter names, if it names the objects. -/
def exactKeys (filter : ReverseTupleFilter) : Except StorageError (List TupleKey) :=
  (filter.subjects.flatMap fun subject => filter.objectIds.map fun objectId =>
    (subject, objectId)).mapM
    fun pair => tupleKeyFromParts (filter.objectType.text ++ ":" ++ pair.2.text)
      filter.relation.text pair.1.display

/-- The share of one subject. -/
def perSubjectBudget (filter : ReverseTupleFilter) (options : ReadOptions) : Nat :=
  divCeil (snapshotEvaluationBudget options) (max filter.subjects.length 1)

def readReverseTuples (services : SubjectRef → QueryService) (storeId : StoreId)
    (filter : ReverseTupleFilter) (options : ReadOptions) :
    Except StorageError (List RelationshipTuple) := do
  if filter.objectIds ≠ [] then
    if snapshotEvaluationBudget options < filter.subjects.length * filter.objectIds.length then
      .error evaluationLimit
    else
      let keys ← exactKeys filter
      readExactTupleKeys serde sha256 (fun key => (table key.1)[key.2]?) storeId keys
        filter.conditions options
  else
    let found ← filter.subjects.foldlM (fun found subject =>
      reverseSubject serde sha256 table (services subject) storeId filter
        (perSubjectBudget filter options) found subject) ∅
    requireSnapshotLimit (found.toList.map Prod.snd) options

end Reading

/-- A filter made of accepted names and subjects. -/
structure ReverseCanonical (filter : ReverseTupleFilter) : Prop where
  objectType : filter.objectType.Canonical
  relation : filter.relation.Canonical
  subjects : ∀ subject ∈ filter.subjects, subject.Canonical

/-- The tuple has the object type and the relation of the filter. -/
def Targets (filter : ReverseTupleFilter) (key : TupleKey) : Prop :=
  key.object.objectType = filter.objectType ∧ key.relation = filter.relation

instance (filter : ReverseTupleFilter) (key : TupleKey) : Decidable (Targets filter key) :=
  inferInstanceAs (Decidable (_ ∧ _))

/-- What one subject has. -/
def subjectRecords (records : List TupleRecord) (filter : ReverseTupleFilter)
    (subject : SubjectRef) : List TupleRecord :=
  records.filter fun record => record.tuple.key.subject = subject ∧ Targets filter record.tuple.key

/-- The first bytes of the keys of a subject's tuples. -/
def reverseLeading (filter : ReverseTupleFilter) (subject : SubjectRef) : Bytes :=
  keyVersion ::
    (subjectSegments subject ++ [filter.objectType.text, filter.relation.text]).flatMap Utf8.closed

theorem reversePrefix_eq (canonical : ReverseCanonical filter)
    (listed : subject ∈ filter.subjects) : reversePrefix subject filter.objectType filter.relation =
      .ok (reverseLeading filter subject) :=
  (reversePrefix_encodable (canonical.subjects subject listed) canonical.objectType
    canonical.relation).encodeSegments_eq

theorem reverseLeading_isPrefixOf (canonical : ReverseCanonical filter)
    (listed : subject ∈ filter.subjects) {key : TupleKey} (genuine : key.Canonical) :
    (reverseLeading filter subject).isPrefixOf (reverseKey key) = true ↔
      key.subject = subject ∧ Targets filter key := by
  have encodable := reversePrefix_encodable (canonical.subjects subject listed)
    canonical.objectType canonical.relation
  rw [ isPrefixOf_iff_prefix, reverseLeading, reverseKey,
    key_isPrefix_iff encodable.free (reverseSegments_encodable genuine).free,
    reverseSegments_isPrefix_iff]
  rfl

/-- The query for a subject finds the items of its tuples. -/
theorem ReverseHolds.withLeading_perm (holds : ReverseHolds serde sha256 table storeId records)
    (canonical : ReverseCanonical filter) (listed : subject ∈ filter.subjects) :
    (withLeading (table (reversePartition sha256 storeId subject))
        (reverseLeading filter subject)).Perm
      ((subjectRecords records filter subject).map (TupleRecord.reverseEntry serde sha256)) := by
  refine (perm_ext_iff_of_nodup ?_ ?_).mpr fun entry => ?_
  · refine (withLeading_sorted _ _).imp ?_
    rintro entry _ less rfl
    exact lt_irrefl _ less
  · refine List.Nodup.map_on ?_ ?_
    · intro record member record' member' same
      have inside := mem_of_mem_filter member
      have inside' := mem_of_mem_filter member'
      have keys := reverseKey_inj (holds.canonical record inside)
        (holds.canonical record' inside') (congrArg Prod.fst same)
      exact holds.toTupleSet.eq_of_key inside inside' keys
    · exact holds.toTupleSet.nodup.filter _
  · rw [withLeading, mem_filter, mem_toList, reversePartition, holds.rows, mem_map]
    constructor
    · rintro ⟨⟨record, member, -, rfl⟩, leads⟩
      have matched := (reverseLeading_isPrefixOf canonical listed
        (holds.canonical record member)).mp leads
      exact ⟨record, mem_filter.mpr ⟨member, decide_eq_true matched⟩, rfl⟩
    · rintro ⟨record, member, rfl⟩
      obtain ⟨inside, matched⟩ := mem_filter.mp member
      have matched := of_decide_eq_true matched
      refine ⟨⟨record, inside, ?_, rfl⟩, ?_⟩
      · rw [TupleRecord.reverseShard, matched.1]
      · exact (reverseLeading_isPrefixOf canonical listed
          (holds.canonical record inside)).mpr matched

theorem acceptReverse_entry {record : TupleRecord} (canonical : record.tuple.key.Canonical)
    (back : record.tuple.ReadsBack serde) :
    acceptReverse serde sha256 (record.reverseEntry serde sha256) = .ok record.tuple := by
  simp only [acceptReverse, TupleRecord.reverseEntry, decodeStoredTuple_ok back,
    decodeReverse_eq canonical, bind, Except.bind, TupleRecord.stored]
  exact if_neg fun different => different rfl

/-- An item is accepted only as the tuple that it is read as, under the key of its record. -/
theorem decoded_of_acceptReverse {record : TupleRecord} {tuple : RelationshipTuple}
    (canonical : record.tuple.key.Canonical)
    (accepted : acceptReverse serde sha256 (record.reverseEntry serde sha256) = .ok tuple) :
    decodeTuple serde (encodeTuple serde record.tuple) = .ok tuple ∧
      record.tuple.key = tuple.key := by
  obtain ⟨stored, decoded, accepted⟩ := bind_eq_ok.mp accepted
  obtain ⟨key, named, accepted⟩ := bind_eq_ok.mp accepted
  rw [TupleRecord.reverseEntry, decodeReverse_eq canonical] at named
  cases named
  split at accepted
  · cases accepted
  · rename_i same
    cases accepted
    exact ⟨decodeTuple_of_item decoded, not_not.mp same⟩

section Collecting

variable {found : FoundTuples}

section Found

variable (serde : Serde TupleEnvelope) (sha256 : Bytes → Bytes) (records : List TupleRecord)

/-- The tuple is what one of the records is accepted as. -/
def Accepted (tuple : RelationshipTuple) : Prop :=
  ∃ record ∈ records, acceptReverse serde sha256 (record.reverseEntry serde sha256) = .ok tuple

/-- All items that a subject has for a filter are accepted. -/
def AllAccepted (filter : ReverseTupleFilter) (subject : SubjectRef) : Prop :=
  ∀ record ∈ subjectRecords records filter subject,
    ∃ tuple, acceptReverse serde sha256 (record.reverseEntry serde sha256) = .ok tuple

/-- Found are the tuples of some subjects that the filter targets, by their keys. -/
def Collects (filter : ReverseTupleFilter) (subjects : List SubjectRef) (found : FoundTuples) :
    Prop :=
  ∀ (key : TupleKey) (tuple : RelationshipTuple), found[key]? = some tuple ↔
    tuple.key = key ∧ Accepted serde sha256 records tuple ∧ key.subject ∈ subjects ∧
      Targets filter key

end Found

/-- Adding tuples to a map that agrees with them. -/
theorem getElem?_foldl_insert {kept : RelationshipTuple → Prop}
    (single : ∀ tuple tuple', kept tuple → kept tuple' → tuple.key = tuple'.key → tuple = tuple')
    {tuples : List RelationshipTuple} (each : ∀ tuple ∈ tuples, kept tuple)
    (before : ∀ (key : TupleKey) (tuple : RelationshipTuple), found[key]? = some tuple →
      tuple.key = key ∧ kept tuple) (key : TupleKey) (tuple : RelationshipTuple) :
    (tuples.foldl (fun found tuple => found.insert tuple.key tuple) found)[key]? = some tuple ↔
      tuple.key = key ∧ tuple ∈ tuples ∨ found[key]? = some tuple := by
  induction tuples generalizing found with
  | nil => simp
  | cons first tuples ih =>
    obtain ⟨head, rest⟩ := forall_mem_cons.mp each
    have after : ∀ (key : TupleKey) (tuple : RelationshipTuple),
        (found.insert first.key first)[key]? = some tuple → tuple.key = key ∧ kept tuple := by
      intro key tuple held
      obtain ⟨same, rfl⟩ | old := of_getElem?_insert held
      · exact ⟨same, head⟩
      · exact before key tuple old
    rw [foldl_cons, ih rest after]
    by_cases same : first.key = key
    · rw [← same, ExtTreeMap.getElem?_insert_self, Option.some.injEq, mem_cons]
      constructor
      · rintro (⟨keys, member⟩ | rfl)
        · exact .inl ⟨keys, .inr member⟩
        · exact .inl ⟨rfl, .inl rfl⟩
      · rintro (⟨keys, rfl | member⟩ | held)
        · exact .inr rfl
        · exact .inl ⟨keys, member⟩
        · obtain ⟨keys, inside⟩ := before _ _ held
          exact .inr (single first tuple head inside keys.symm)
    · rw [getElem?_insert_of_ne same, mem_cons]
      refine or_congr_left (and_congr_right fun keys => (or_iff_right ?_).symm)
      rintro rfl
      exact same keys

section Fold

variable (holds : ReverseHolds serde sha256 table storeId records)
  (canonical : ReverseCanonical filter) (unrestricted : filter.objectIds = [])
  (unconditional : filter.conditions = .any)

include holds canonical unrestricted unconditional

omit canonical unrestricted unconditional in
/-- A tuple is accepted under the key of a single record. -/
theorem accepted_single (tuple tuple' : RelationshipTuple)
    (accepted : Accepted serde sha256 records tuple)
    (accepted' : Accepted serde sha256 records tuple') (same : tuple.key = tuple'.key) :
    tuple = tuple' := by
  obtain ⟨record, member, made⟩ := accepted
  obtain ⟨record', member', made'⟩ := accepted'
  have keys := (decoded_of_acceptReverse (holds.canonical record member) made).2
  have keys' := (decoded_of_acceptReverse (holds.canonical record' member') made').2
  cases holds.toTupleSet.eq_of_key member member' (keys.trans (same.trans keys'.symm))
  exact Except.ok.inj (made.symm.trans made')

omit unrestricted unconditional in
/-- What is made of the items of a subject if all of them are accepted. -/
theorem mapM_acceptReverse (listed : subject ∈ filter.subjects)
    (each : AllAccepted serde sha256 records filter subject) :
    ∃ tuples, (withLeading (table (reversePartition sha256 storeId subject))
        (reverseLeading filter subject)).mapM (acceptReverse serde sha256) = .ok tuples ∧
      ∀ tuple, tuple ∈ tuples ↔ Accepted serde sha256 records tuple ∧
        tuple.key.subject = subject ∧ Targets filter tuple.key := by
  have items := holds.withLeading_perm canonical listed
  refine ⟨_, mapM_eq_filterMap fun entry member => ?_, fun tuple => ?_⟩
  · obtain ⟨record, inside, rfl⟩ := mem_map.mp (items.mem_iff.mp member)
    exact each record inside
  · rw [mem_filterMap]
    constructor
    · rintro ⟨entry, member, made⟩
      obtain ⟨record, inside, rfl⟩ := mem_map.mp (items.mem_iff.mp member)
      obtain ⟨read, accepted⟩ := each record inside
      rw [accepted] at made
      cases made
      obtain ⟨stored, matched⟩ := mem_filter.mp inside
      have keys := (decoded_of_acceptReverse (holds.canonical record stored) accepted).2
      exact ⟨⟨record, stored, accepted⟩, keys ▸ of_decide_eq_true matched⟩
    · rintro ⟨⟨record, stored, accepted⟩, matched⟩
      have keys := (decoded_of_acceptReverse (holds.canonical record stored) accepted).2
      have inside : record ∈ subjectRecords records filter subject :=
        mem_filter.mpr ⟨stored, decide_eq_true (keys ▸ matched)⟩
      refine ⟨_, items.mem_iff.mpr (mem_map_of_mem inside), ?_⟩
      rw [accepted]
      rfl

omit holds canonical in
theorem acceptsFor_eq {subject : SubjectRef} {tuple : RelationshipTuple}
    (matched : tuple.key.subject = subject ∧ Targets filter tuple.key) :
    acceptsFor filter subject tuple = true := by
  obtain ⟨same, type, relation⟩ := matched
  rw [acceptsFor, unrestricted, unconditional, decide_eq_true same, decide_eq_true type,
    decide_eq_true relation]
  rfl

/-- One subject whose items are accepted and are fewer than its share. -/
theorem reverseSubject_collects {service : QueryService} {subjects : List SubjectRef}
    (listed : subject ∈ filter.subjects)
    (few : (subjectRecords records filter subject).length < budget)
    (each : AllAccepted serde sha256 records filter subject)
    (collects : Collects serde sha256 records filter subjects found) :
    ∃ found', reverseSubject serde sha256 table service storeId filter budget found subject =
        .ok found' ∧ Collects serde sha256 records filter (subjects ++ [subject]) found' := by
  have items := holds.withLeading_perm canonical listed
  have queried : queryPartition (table (reversePartition sha256 storeId subject)) service
      (reverseLeading filter subject) budget = _ :=
    queryPartition_ok (by rwa [items.length_eq, length_map])
  obtain ⟨tuples, made, members⟩ := mapM_acceptReverse holds canonical listed each
  have all : tuples.filter (acceptsFor filter subject) = tuples := by
    refine filter_eq_self.mpr fun tuple member => ?_
    exact acceptsFor_eq unrestricted unconditional ((members tuple).mp member).2
  refine ⟨tuples.foldl (fun found tuple => found.insert tuple.key tuple) found, ?_,
    fun key tuple => ?_⟩
  · simp only [reverseSubject, reversePrefix_eq canonical listed, queried, made, all, bind,
      Except.bind]
  · rw [getElem?_foldl_insert (accepted_single holds)
      (fun tuple member => ((members tuple).mp member).1)
      (fun key tuple held => ⟨((collects key tuple).mp held).1,
        ((collects key tuple).mp held).2.1⟩),
      collects, members, mem_append, mem_singleton]
    constructor
    · rintro (⟨rfl, accepted, here, targets⟩ | ⟨keys, accepted, earlier, targets⟩)
      · exact ⟨rfl, accepted, .inr here, targets⟩
      · exact ⟨keys, accepted, .inl earlier, targets⟩
    · rintro ⟨rfl, accepted, earlier | here, targets⟩
      · exact .inr ⟨rfl, accepted, earlier, targets⟩
      · exact .inl ⟨rfl, accepted, here, targets⟩

/-- All subjects, one after the other. -/
theorem foldlM_collects (services : SubjectRef → QueryService) {todo done : List SubjectRef}
    (listed : ∀ subject ∈ todo, subject ∈ filter.subjects)
    (each : ∀ subject ∈ todo, (subjectRecords records filter subject).length < budget ∧
      AllAccepted serde sha256 records filter subject)
    (collects : Collects serde sha256 records filter done found) :
    ∃ found', todo.foldlM (fun found subject => reverseSubject serde sha256 table
        (services subject) storeId filter budget found subject) found = .ok found' ∧
      Collects serde sha256 records filter (done ++ todo) found' := by
  induction todo generalizing done found with
  | nil => exact ⟨found, rfl, by rwa [append_nil]⟩
  | cons subject todo ih =>
    obtain ⟨here, later⟩ := forall_mem_cons.mp listed
    obtain ⟨⟨few, accepted⟩, rest⟩ := forall_mem_cons.mp each
    obtain ⟨next, made, collected⟩ := reverseSubject_collects holds canonical unrestricted
      unconditional here few accepted collects
    obtain ⟨last, folded, collected'⟩ := ih later rest collected
    refine ⟨last, ?_, by rwa [append_assoc] at collected'⟩
    rw [foldlM_cons, made]
    exact folded

omit unrestricted unconditional in
/-- A subject that is read has items that are accepted, and with a service that always names
the last key they are fewer than its share. -/
theorem reverseSubject_sound {found' : FoundTuples} (listed : subject ∈ filter.subjects)
    (given : reverseSubject serde sha256 table .persistent storeId filter budget found subject =
      .ok found') : (subjectRecords records filter subject).length < budget ∧
      AllAccepted serde sha256 records filter subject := by
  have items := holds.withLeading_perm canonical listed
  obtain ⟨leading, encoded, given⟩ := bind_eq_ok.mp given
  rw [reversePrefix_eq canonical listed] at encoded
  cases encoded
  obtain ⟨entries, queried, given⟩ := bind_eq_ok.mp given
  have few := queryPartition_persistent queried
  rw [queryPartition_ok few] at queried
  cases queried
  obtain ⟨tuples, made, -⟩ := bind_eq_ok.mp given
  rw [items.length_eq, length_map] at few
  exact ⟨few, fun record member => ok_of_mapM made _ (items.mem_iff.mpr (mem_map_of_mem member))⟩

end Fold

end Collecting

section Completeness

variable {options : ReadOptions}

/-- The tuples that a filter asks for. -/
def reverseMatches (records : List TupleRecord) (filter : ReverseTupleFilter) :
    List RelationshipTuple :=
  (records.filter fun record =>
    record.tuple.key.subject ∈ filter.subjects ∧ Targets filter record.tuple.key).map
      TupleRecord.tuple

theorem mem_reverseMatches {record : TupleRecord} (inside : record ∈ records)
    (matched : record.tuple.key.subject ∈ filter.subjects ∧ Targets filter record.tuple.key) :
    record.tuple ∈ reverseMatches records filter :=
  mem_map_of_mem (mem_filter.mpr ⟨inside, decide_eq_true matched⟩)

theorem reverseMatches_sorted (set : TupleSet records) :
    (reverseMatches records filter).Pairwise fun first second => first.key < second.key := by
  rw [reverseMatches, pairwise_map]
  exact set.sorted.filter _

/-- What was collected for all subjects is what the filter asks for, if all of it is read
back. -/
theorem Collects.values_eq {found : FoundTuples} (set : TupleSet records)
    (back : ∀ tuple ∈ reverseMatches records filter, tuple.ReadsBack serde)
    (collects : Collects serde sha256 records filter filter.subjects found) :
    found.toList.map Prod.snd = reverseMatches records filter := by
  have keys : ∀ entry ∈ found.toList, entry.2.key = entry.1 := by
    intro entry member
    exact ((collects _ _).mp (mem_toList.mp member)).1
  refine eq_of_sorted ?_ (reverseMatches_sorted set) fun tuple => ?_
  · rw [pairwise_map]
    refine List.Pairwise.imp_of_mem ?_ (toList_sorted found)
    intro first second member member' less
    rwa [keys first member, keys second member']
  · rw [mem_map]
    constructor
    · rintro ⟨entry, member, rfl⟩
      obtain ⟨same, ⟨record, inside, accepted⟩, matched⟩ :=
        (collects _ _).mp (mem_toList.mp member)
      obtain ⟨decoded, keys⟩ := decoded_of_acceptReverse (set.canonical record inside) accepted
      rw [← same, ← keys] at matched
      have asked := mem_reverseMatches inside matched
      rw [Except.ok.inj (decoded.symm.trans (back _ asked))]
      exact asked
    · intro asked
      obtain ⟨record, member, rfl⟩ := mem_map.mp asked
      obtain ⟨inside, matched⟩ := mem_filter.mp member
      have accepted : Accepted serde sha256 records record.tuple :=
        ⟨record, inside, acceptReverse_entry (set.canonical record inside) (back _ asked)⟩
      exact ⟨(record.tuple.key, record.tuple), mem_toList.mpr ((collects _ _).mpr
        ⟨rfl, accepted, of_decide_eq_true matched⟩), rfl⟩

/-- A reverse read whose matches fit the result bound finds exactly them, however the service
pages the queries, if and only if every match is read back and each subject has fewer matches
than its share of the evaluation budget. -/
theorem reverse_reads_iff (holds : ReverseHolds serde sha256 table storeId records)
    (canonical : ReverseCanonical filter) (unrestricted : filter.objectIds = [])
    (unconditional : filter.conditions = .any)
    (few : (reverseMatches records filter).length ≤ options.maximumResults.get) :
    (∀ services, readReverseTuples serde sha256 table services storeId filter options =
      .ok (reverseMatches records filter)) ↔
    (∀ tuple ∈ reverseMatches records filter, tuple.ReadsBack serde) ∧
      ∀ subject ∈ filter.subjects, (subjectRecords records filter subject).length <
        perSubjectBudget filter options := by
  have open' : ¬filter.objectIds ≠ [] := not_not.mpr unrestricted
  have start : Collects serde sha256 records filter [] ∅ := by
    intro key tuple
    rw [ExtTreeMap.getElem?_empty]
    simp
  constructor
  · intro reads
    have given := reads fun _ => .persistent
    rw [readReverseTuples, if_neg open'] at given
    obtain ⟨found, folded, limited⟩ := bind_eq_ok.mp given
    have sound : ∀ subject ∈ filter.subjects,
        (subjectRecords records filter subject).length < perSubjectBudget filter options ∧
          AllAccepted serde sha256 records filter subject := by
      intro subject listed
      obtain ⟨before, after, passed⟩ := ok_of_foldlM folded subject listed
      exact reverseSubject_sound holds canonical listed passed
    obtain ⟨found', folded', collects⟩ := foldlM_collects holds canonical unrestricted
      unconditional (fun _ => .persistent) (fun _ listed => listed) sound start
    cases folded.symm.trans folded'
    refine ⟨fun tuple asked => ?_, fun subject listed => (sound subject listed).1⟩
    obtain ⟨entry, member, rfl⟩ := mem_map.mp ((mem_requireSnapshotLimit limited).mp asked)
    obtain ⟨-, ⟨record, inside, accepted⟩, -⟩ := (collects _ _).mp (mem_toList.mp member)
    obtain ⟨decoded, keys⟩ := decoded_of_acceptReverse (holds.canonical record inside) accepted
    -- The tuple was read from an item under its key, which is its own item.
    obtain ⟨record', member', same⟩ := mem_map.mp asked
    rw [← same] at keys decoded ⊢
    cases holds.toTupleSet.eq_of_key inside (mem_of_mem_filter member') keys
    exact decoded
  · rintro ⟨back, bounded⟩ services
    have accepted : ∀ subject ∈ filter.subjects,
        AllAccepted serde sha256 records filter subject := by
      intro subject listed record member
      obtain ⟨inside, matched⟩ := mem_filter.mp member
      have matched := of_decide_eq_true matched
      have asked := mem_reverseMatches inside ⟨matched.1 ▸ listed, matched.2⟩
      exact ⟨_, acceptReverse_entry (holds.canonical record inside) (back _ asked)⟩
    obtain ⟨found, folded, collects⟩ := foldlM_collects holds canonical unrestricted unconditional
      services (fun _ listed => listed)
      (fun subject listed => ⟨bounded subject listed, accepted subject listed⟩) start
    have collected := collects.values_eq holds.toTupleSet back
    rw [readReverseTuples, if_neg open', folded]
    exact (congrArg (requireSnapshotLimit · options) collected).trans
      (requireSnapshotLimit_ok (reverseMatches_sorted holds.toTupleSet) few)

end Completeness

end

namespace Sample

/-- Anne and sixteen others. -/
def viewers : List SubjectRef :=
  ["anne", "a", "b", "c", "d", "e", "f", "g", "h", "i", "j", "k", "l", "m", "n", "o", "p"].map
    fun name => .object ⟨⟨"user"⟩, ⟨name⟩⟩

theorem viewers_canonical : ∀ subject ∈ viewers, subject.Canonical := by
  have parsed : (viewers.map SubjectRef.display).mapM
      (SubjectRef.parseWithLimits · .standard) = .ok viewers := by decide
  intro subject member
  exact (SubjectRef.of_parse (mapM_restore_iff.mp parsed subject member)).1

/-- The documents that some users view. -/
def viewed (subjects : List SubjectRef) : ReverseTupleFilter :=
  ⟨⟨"doc"⟩, ⟨"viewer"⟩, subjects, [], .any⟩

theorem viewed_canonical {subjects : List SubjectRef}
    (listed : ∀ subject ∈ subjects, subject ∈ viewers) : ReverseCanonical (viewed subjects) := by
  have type : TypeName.Canonical ⟨"doc"⟩ := by decide
  have relation : RelationName.Canonical ⟨"viewer"⟩ := by decide
  exact ⟨type, relation, fun subject member => viewers_canonical subject (listed subject member)⟩

def one : ReadOptions := ⟨.of 1⟩

/-- One document. -/
def single : List TupleRecord := [record "1"]

theorem single_set : TupleSet single where
  sorted := pairwise_singleton _ _
  canonical := by
    intro record member
    rw [mem_singleton.mp member]
    exact record_canonical (by decide) (by decide)

end Sample

/-- Seventeen users, a bound of one tuple, and one document that the first of them views: its
share is one item, and a service that names the last key of a full page makes the read fail. -/
theorem reverse_read_share_too_small :
    ReverseHolds serde id (tableOf serde id store single) store single ∧
      reverseMatches single (viewed viewers) = [(record "1").tuple] ∧
      readReverseTuples serde id (tableOf serde id store single)
          (fun _ => .persistent) store (viewed viewers) one ≠ .ok [(record "1").tuple] := by
  have holds : ReverseHolds serde id _ store single := tableOf_reverseHolds store single_set
  refine ⟨holds, by decide, fun given => ?_⟩
  rw [readReverseTuples, if_neg (by decide)] at given
  obtain ⟨found, folded, -⟩ := bind_eq_ok.mp given
  obtain ⟨before, after, passed⟩ := ok_of_foldlM folded _ mem_cons_self
  have few := (reverseSubject_sound holds (viewed_canonical fun _ listed => listed)
    mem_cons_self passed).1
  exact absurd few (by decide)

/-- One user with two documents and a bound of two tuples: the share is larger. -/
theorem reverse_reads_pair :
    ReverseHolds serde id (tableOf serde id store pair) store pair ∧
      ∀ services, readReverseTuples serde id (tableOf serde id store pair) services store
          (viewed (viewers.take 1)) ⟨⟨2, by decide, by decide⟩⟩ =
        .ok [(record "1").tuple, (record "2").tuple] := by
  have holds : ReverseHolds serde id _ store pair := tableOf_reverseHolds store pair_set
  have back : ∀ tuple ∈ reverseMatches pair (viewed (viewers.take 1)), tuple.ReadsBack serde := by
    intro tuple member
    obtain ⟨record, inside, rfl⟩ := mem_map.mp member
    exact pair_readsBack record (mem_of_mem_filter inside)
  exact ⟨holds, (reverse_reads_iff holds
    (viewed_canonical fun _ listed => mem_of_mem_take listed) rfl rfl
    (by decide)).mpr ⟨back, by decide⟩⟩

end OpenFga.Dynamo
