import OpenFga.Cache.DecisionKey
import OpenFga.Storage.Types

/-!
# Keys of cached tuple reads

A read of tuples is cached under the digest of its name, its store and all that it is given.
References enter as their printed text. Seven reads share the digest, and what they write is
told apart by the name alone; after it, every field can be split off the ones that follow.
-/

namespace OpenFga.Cache

open PrefixCode

/-- The reads that the cache answers. -/
inductive TupleRead where
  | readTuples (filter : TupleReadFilter) (options : PageOptions)
  | readExactTuple (key : TupleKey)
  | readObjectRelation (filter : ObjectRelationFilter) (options : ReadOptions)
  | readUsersetTuples (filter : UsersetTupleFilter) (options : ReadOptions)
  | readReverseTuples (filter : ReverseTupleFilter) (options : ReadOptions)
  | tupleExists (key : TupleKey)
  | countObjectRelation (filter : ObjectRelationFilter)

section Keys

variable {α : Type}

def keyBuilder (operation : String) (storeId : StoreId) : List UInt8 :=
  newBuilder "openfga.tuple-read-key.v1" ++ (writeStr operation ++ writeStr storeId.text)

def writeOptional (write : α → List UInt8) (value : Option α) : List UInt8 :=
  value.elim (writeTag 0) fun value => writeTag 1 ++ write value

def writeItems (write : α → List UInt8) (items : List α) : List UInt8 :=
  writeLength items.length ++ items.flatMap write

def writeSubjects (subjects : List SubjectRef) : List UInt8 :=
  writeItems (fun subject => writeStr subject.display) subjects

def writeConditions : ConditionFilter → List UInt8
  | .any => writeTag 0
  | .unconditional => writeTag 1
  | .named names => writeTag 2 ++ writeItems (fun name => writeStr name.text) names

def exactKey (sha256 : List UInt8 → Fingerprint) (operation : String) (storeId : StoreId)
    (key : TupleKey) : List UInt8 :=
  keyBuilder operation storeId ++ writeBytes (key.fingerprint sha256).bytes

def writeTupleFilter (filter : TupleReadFilter) : List UInt8 :=
  writeOptional (fun name => writeStr name.text) filter.objectType ++
    (writeOptional (fun id => writeStr id.text) filter.objectId ++
      (writeOptional (fun name => writeStr name.text) filter.relation ++
        writeOptional (fun subject => writeStr subject.display) filter.subject))

def pageKey (storeId : StoreId) (filter : TupleReadFilter) (options : PageOptions) : List UInt8 :=
  keyBuilder "page" storeId ++ (writeTupleFilter filter ++ (writeLength options.maximumResults ++
    writeOptional (fun cursor => writeBytes cursor.bytes.data.toList) options.after))

def writeBound (options : ReadOptions) : List UInt8 := writeLength options.maximumResults.get

def writeObjectRelation (filter : ObjectRelationFilter) : List UInt8 :=
  writeStr filter.object.display ++ (writeStr filter.relation.text ++
    (writeSubjects filter.subjects ++ writeConditions filter.conditions))

def objectRelationKey (operation : String) (storeId : StoreId) (filter : ObjectRelationFilter)
    (options : ReadOptions) : List UInt8 :=
  keyBuilder operation storeId ++ (writeObjectRelation filter ++ writeBound options)

def writeUserset (filter : UsersetTupleFilter) : List UInt8 :=
  writeStr filter.object.display ++ (writeStr filter.relation.text ++
    (writeItems (fun allowed => writeStr allowed.subjectType.text ++ writeStr allowed.relation.text)
      filter.allowed ++ writeConditions filter.conditions))

def usersetKey (storeId : StoreId) (filter : UsersetTupleFilter) (options : ReadOptions) :
    List UInt8 :=
  keyBuilder "userset" storeId ++ (writeUserset filter ++ writeBound options)

def writeReverse (filter : ReverseTupleFilter) : List UInt8 :=
  writeStr filter.objectType.text ++ (writeStr filter.relation.text ++
    (writeSubjects filter.subjects ++ (writeItems (fun id => writeStr id.text) filter.objectIds ++
      writeConditions filter.conditions)))

def reverseKey (storeId : StoreId) (filter : ReverseTupleFilter) (options : ReadOptions) :
    List UInt8 :=
  keyBuilder "reverse" storeId ++ (writeReverse filter ++ writeBound options)

/-- What a read feeds to the digest for its key. A count has the least bound there is. -/
def TupleRead.keyInput (sha256 : List UInt8 → Fingerprint) (storeId : StoreId) :
    TupleRead → List UInt8
  | .readTuples filter options => pageKey storeId filter options
  | .readExactTuple key => exactKey sha256 "exact" storeId key
  | .readObjectRelation filter options =>
      objectRelationKey "object_relation" storeId filter options
  | .readUsersetTuples filter options => usersetKey storeId filter options
  | .readReverseTuples filter options => reverseKey storeId filter options
  | .tupleExists key => exactKey sha256 "exists" storeId key
  | .countObjectRelation filter =>
      objectRelationKey "count_object_relation" storeId filter ⟨.of 1⟩

end Keys

/-- A collection that is held in memory, of items that are accepted. -/
def AllFit {α : Type} (accepted : α → Prop) (items : List α) : Prop :=
  Addressable items.length ∧ ∀ item ∈ items, accepted item

def ConditionsFit : ConditionFilter → Prop
  | .named names => AllFit ConditionName.Canonical names
  | _ => True

def TupleFilterFits (filter : TupleReadFilter) : Prop :=
  (∀ name ∈ filter.objectType, name.Canonical) ∧ (∀ id ∈ filter.objectId, id.Canonical) ∧
    (∀ name ∈ filter.relation, name.Canonical) ∧ ∀ subject ∈ filter.subject, subject.Canonical

def ObjectRelationFits (filter : ObjectRelationFilter) : Prop :=
  filter.object.Canonical ∧ filter.relation.Canonical ∧
    AllFit SubjectRef.Canonical filter.subjects ∧ ConditionsFit filter.conditions

def AllowedFits (allowed : UsersetRestrictionFilter) : Prop :=
  allowed.subjectType.Canonical ∧ allowed.relation.Canonical

def UsersetFits (filter : UsersetTupleFilter) : Prop :=
  filter.object.Canonical ∧ filter.relation.Canonical ∧ AllFit AllowedFits filter.allowed ∧
    ConditionsFit filter.conditions

def ReverseFits (filter : ReverseTupleFilter) : Prop :=
  filter.objectType.Canonical ∧ filter.relation.Canonical ∧
    AllFit SubjectRef.Canonical filter.subjects ∧ AllFit ObjectId.Canonical filter.objectIds ∧
    ConditionsFit filter.conditions

/-- Its references are accepted ones, and its collections are held in memory. -/
def TupleRead.Fits : TupleRead → Prop
  | .readTuples filter options =>
      TupleFilterFits filter ∧ Addressable options.maximumResults ∧
        ∀ cursor ∈ options.after, Addressable cursor.bytes.data.toList.length
  | .readExactTuple key | .tupleExists key => key.Addressable
  | .readObjectRelation filter _ | .countObjectRelation filter => ObjectRelationFits filter
  | .readUsersetTuples filter _ => UsersetFits filter
  | .readReverseTuples filter _ => ReverseFits filter

/-- A read of one store. -/
structure StoreRead where
  storeId : StoreId
  read : TupleRead
  store_fits : TextFits storeId.text
  read_fits : read.Fits

/-- Where a read is cached. -/
structure TupleReadKey where
  fingerprint : Fingerprint

def StoreRead.key (sha256 : List UInt8 → Fingerprint) (request : StoreRead) : TupleReadKey :=
  ⟨sha256 (request.read.keyInput sha256 request.storeId)⟩

/-- The byte sequences that a read feeds to the digest. -/
def StoreRead.hashed (sha256 : List UInt8 → Fingerprint) (request : StoreRead) :
    List (List UInt8) :=
  request.read.keyInput sha256 request.storeId ::
    match request.read with
    | .readExactTuple key | .tupleExists key => [tupleKeyInput key]
    | _ => []

section Fields

variable {α : Type} {admits : α → Prop} {write : α → List UInt8} {s t : List UInt8}

theorem textFits_of_size {text : String} {maximum : Nat} (size : text.utf8ByteSize ≤ maximum)
    (small : maximum < 2 ^ 64) : TextFits text := by
  have same : (textBytes text).length = text.utf8ByteSize := rfl
  unfold TextFits Addressable
  omega

theorem writeOptional_splits (splits : SplitsOff admits write) :
    SplitsOff (fun value : Option α => ∀ a ∈ value, admits a) (writeOptional write) :=
  splits.option (by decide)

theorem writeItems_splits (splits : SplitsOff admits write) :
    SplitsOff (AllFit admits) (writeItems write) :=
  writeLength_splits.counted splits

theorem canonical_splits {text : α → String} {maximum : Nat} {allowed : Char → Bool}
    (injective : Function.Injective text) (small : maximum < 2 ^ 64) :
    SplitsOff (fun name => CanonicalText maximum allowed (text name))
      (fun name => writeStr (text name)) :=
  writeStr_splits.comapOn text (fun _ => rfl)
    (fun _ canonical => textFits_of_size canonical.bounded small)
    injective.injOn

theorem typeName_splits : SplitsOff TypeName.Canonical (fun name => writeStr name.text) :=
  canonical_splits (by rintro ⟨_⟩ ⟨_⟩ rfl; rfl) (by decide)

theorem relationName_splits : SplitsOff RelationName.Canonical (fun name => writeStr name.text) :=
  canonical_splits (by rintro ⟨_⟩ ⟨_⟩ rfl; rfl) (by decide)

theorem conditionName_splits : SplitsOff ConditionName.Canonical (fun name => writeStr name.text) :=
  canonical_splits (by rintro ⟨_⟩ ⟨_⟩ rfl; rfl) (by decide)

theorem objectId_splits : SplitsOff ObjectId.Canonical (fun id => writeStr id.text) :=
  canonical_splits (by rintro ⟨_⟩ ⟨_⟩ rfl; rfl) (by decide)

theorem object_display_splits :
    SplitsOff ObjectRef.Canonical (fun ref => writeStr ref.display) := by
  refine writeStr_splits.comapOn _ (fun _ => rfl)
    (fun _ canonical => textFits_of_size canonical.bounded (by decide)) ?_
  intro ref canonical ref' canonical' same
  exact eq_of_display (ObjectRef.parseWithLimits · .standard) (ObjectRef.parse_display canonical)
    (ObjectRef.parse_display canonical') same

theorem subject_display_splits :
    SplitsOff SubjectRef.Canonical (fun subject => writeStr subject.display) := by
  refine writeStr_splits.comapOn _ (fun _ => rfl)
    (fun _ canonical => textFits_of_size (SubjectRef.size_display canonical) (by decide)) ?_
  intro subject canonical subject' canonical' same
  exact eq_of_display (SubjectRef.parseWithLimits · .standard)
    (SubjectRef.parse_display canonical) (SubjectRef.parse_display canonical') same

theorem writeConditions_splits : SplitsOff ConditionsFit writeConditions := by
  intro first second fits fits' s t same
  cases first <;> cases second <;> first
    | exact absurd (List.head_eq_of_cons_eq same) (by decide)
    | have tail := List.tail_eq_of_cons_eq same
  case any.any | unconditional.unconditional => exact ⟨rfl, tail⟩
  case named.named =>
    exact (writeItems_splits conditionName_splits).form ConditionFilter.named fits fits' tail

theorem cursor_splits :
    SplitsOff (fun cursor : StorageCursor => Addressable cursor.bytes.data.toList.length)
      (fun cursor => writeBytes cursor.bytes.data.toList) := by
  refine writeBytes_splits.comapOn (fun cursor => cursor.bytes.data.toList) (fun _ => rfl)
    (fun _ fits => fits) ?_
  intro ⟨bytes⟩ _ ⟨bytes'⟩ _ same
  cases ByteArray.ext (Array.toList_inj.mp same)
  rfl

theorem writeBound_splits : SplitsOff (fun _ => True) writeBound := by
  refine writeLength_splits.comapOn (fun options : ReadOptions => options.maximumResults.get)
    (fun _ => rfl) ?_ ?_
  · intro options _
    exact Nat.lt_of_le_of_lt options.maximumResults.bounded (by decide)
  · rintro ⟨⟨bound, _, _⟩⟩ _ ⟨⟨bound', _, _⟩⟩ _ rfl
    rfl

theorem writeTupleFilter_splits : SplitsOff TupleFilterFits writeTupleFilter := by
  have parts := (writeOptional_splits typeName_splits).prod
    ((writeOptional_splits objectId_splits).prod
      ((writeOptional_splits relationName_splits).prod
        (writeOptional_splits subject_display_splits)))
  refine parts.comapOn
    (fun filter => (filter.objectType, filter.objectId, filter.relation, filter.subject))
    (fun _ => rfl) (fun _ fits => fits) ?_
  rintro ⟨_, _, _, _⟩ _ ⟨_, _, _, _⟩ _ ⟨⟩
  rfl

theorem writeObjectRelation_splits : SplitsOff ObjectRelationFits writeObjectRelation := by
  have parts := object_display_splits.prod (relationName_splits.prod
    ((writeItems_splits subject_display_splits).prod writeConditions_splits))
  refine parts.comapOn
    (fun filter => (filter.object, filter.relation, filter.subjects, filter.conditions))
    (fun _ => rfl) (fun _ fits => fits) ?_
  rintro ⟨_, _, _, _⟩ _ ⟨_, _, _, _⟩ _ ⟨⟩
  rfl

theorem writeUserset_splits : SplitsOff UsersetFits writeUserset := by
  have allowed := (typeName_splits.prod relationName_splits).comapOn
    (fun allowed : UsersetRestrictionFilter => (allowed.subjectType, allowed.relation))
    (fun _ => rfl) (fun _ (fits : AllowedFits _) => fits) (by rintro ⟨_, _⟩ _ ⟨_, _⟩ _ ⟨⟩; rfl)
  have parts := object_display_splits.prod (relationName_splits.prod
    ((writeItems_splits allowed).prod writeConditions_splits))
  refine parts.comapOn
    (fun filter => (filter.object, filter.relation, filter.allowed, filter.conditions))
    (fun _ => rfl) (fun _ fits => fits) ?_
  rintro ⟨_, _, _, _⟩ _ ⟨_, _, _, _⟩ _ ⟨⟩
  rfl

theorem writeReverse_splits : SplitsOff ReverseFits writeReverse := by
  have parts := typeName_splits.prod (relationName_splits.prod
    ((writeItems_splits subject_display_splits).prod
      ((writeItems_splits objectId_splits).prod writeConditions_splits)))
  refine parts.comapOn (fun filter => (filter.objectType, filter.relation, filter.subjects,
    filter.objectIds, filter.conditions)) (fun _ => rfl) (fun _ fits => fits) ?_
  rintro ⟨_, _, _, _, _⟩ _ ⟨_, _, _, _, _⟩ _ ⟨⟩
  rfl

theorem keyBuilder_splits {operation operation' : String} {storeId storeId' : StoreId}
    (names : TextFits operation ∧ TextFits operation') (fits : TextFits storeId.text)
    (fits' : TextFits storeId'.text)
    (same : keyBuilder operation storeId ++ s = keyBuilder operation' storeId' ++ t) :
    operation = operation' ∧ storeId = storeId' ∧ s = t := by
  simp only [keyBuilder, List.append_assoc, List.append_cancel_left_eq] at same
  obtain ⟨operations, same⟩ := writeStr_splits _ _ names.1 names.2 _ _ same
  obtain ⟨texts, rests⟩ := writeStr_splits _ _ fits fits' _ _ same
  cases storeId
  cases texts
  exact ⟨operations, rfl, rests⟩

end Fields

section Identity

variable {sha256 : List UInt8 → Fingerprint} {inputs : Set (List UInt8)}

theorem exactKey_inj (separates : Set.InjOn sha256 inputs) {key key' : TupleKey}
    (fits : key.Addressable) (fits' : key'.Addressable) (hashed : tupleKeyInput key ∈ inputs)
    (hashed' : tupleKeyInput key' ∈ inputs)
    (same : writeBytes (key.fingerprint sha256).bytes =
      writeBytes (key'.fingerprint sha256).bytes) : key = key' := by
  have digests := fingerprint_splits.injOn trivial trivial same
  exact tupleKeyInput_injOn fits fits' (separates hashed hashed' digests)

end Identity

/-- A key names the read it was made for: the kind of the read, its store, its filter, its
bound and its cursor. -/
theorem tuple_keys_identify_reads (sha256 : List UInt8 → Fingerprint) (first second : StoreRead)
    (separates : Set.InjOn sha256
      {input | input ∈ first.hashed sha256 ∨ input ∈ second.hashed sha256})
    (keys : first.key sha256 = second.key sha256) :
    first.storeId = second.storeId ∧ first.read = second.read := by
  have same := separates (.inl List.mem_cons_self) (.inr List.mem_cons_self)
    (congrArg TupleReadKey.fingerprint keys)
  obtain ⟨store, read, storeFits, fits⟩ := first
  obtain ⟨store', read', storeFits', fits'⟩ := second
  -- the names of the operations differ, so only reads of one kind remain
  cases read <;> cases read' <;>
    obtain ⟨operations, stores, fields⟩ :=
      keyBuilder_splits (by decide) storeFits storeFits' same <;> first
    | exact absurd operations (by decide)
    | refine ⟨stores, ?_⟩
  case readTuples.readTuples filter options filter' options' =>
    obtain ⟨filters, fields⟩ := writeTupleFilter_splits _ _ fits.1 fits'.1 _ _ fields
    obtain ⟨bounds, fields⟩ := writeLength_splits _ _ fits.2.1 fits'.2.1 _ _ fields
    have cursors := (writeOptional_splits cursor_splits).injOn fits.2.2 fits'.2.2 fields
    obtain ⟨bound, _, after⟩ := options
    obtain ⟨bound', _, after'⟩ := options'
    cases filters
    cases bounds
    cases cursors
    rfl
  case readExactTuple.readExactTuple | tupleExists.tupleExists =>
    cases exactKey_inj separates fits fits' (.inl (by simp [StoreRead.hashed]))
      (.inr (by simp [StoreRead.hashed])) fields
    rfl
  case readObjectRelation.readObjectRelation =>
    obtain ⟨rfl, bounds⟩ := writeObjectRelation_splits _ _ fits fits' _ _ fields
    cases writeBound_splits.injOn trivial trivial bounds
    rfl
  case countObjectRelation.countObjectRelation =>
    obtain ⟨rfl, -⟩ := writeObjectRelation_splits _ _ fits fits' _ _ fields
    rfl
  case readUsersetTuples.readUsersetTuples =>
    obtain ⟨rfl, bounds⟩ := writeUserset_splits _ _ fits fits' _ _ fields
    cases writeBound_splits.injOn trivial trivial bounds
    rfl
  case readReverseTuples.readReverseTuples =>
    obtain ⟨rfl, bounds⟩ := writeReverse_splits _ _ fits fits' _ _ fields
    cases writeBound_splits.injOn trivial trivial bounds
    rfl

namespace Sample

def readingAnne : StoreRead where
  storeId := ⟨"store"⟩
  read := .readExactTuple (viewer "anne").key
  store_fits := store_fits
  read_fits := anne_fits

/-- Asks whether the same tuple exists. -/
def findingAnne : StoreRead where
  storeId := ⟨"store"⟩
  read := .tupleExists (viewer "anne").key
  store_fits := store_fits
  read_fits := anne_fits

end Sample

open Cache.Sample in
/-- A tuple is read under one key, and its existence is asked under another. -/
theorem tuple_keys_identify_anne :
    (readingAnne.storeId = readingAnne.storeId ∧ readingAnne.read = readingAnne.read) ∧
      readingAnne.key lengthDigest ≠ findingAnne.key lengthDigest := by
  have separates : Set.InjOn lengthDigest {input | input ∈
      readingAnne.hashed lengthDigest ++ findingAnne.hashed lengthDigest} :=
    lengthDigest_injOn (by decide +kernel)
  simp only [List.mem_append] at separates
  constructor
  · refine tuple_keys_identify_reads lengthDigest readingAnne readingAnne ?_ rfl
    exact separates.mono fun input member => .inl (or_self_iff.mp member)
  · intro same
    cases (tuple_keys_identify_reads lengthDigest readingAnne findingAnne separates same).2

end OpenFga.Cache
