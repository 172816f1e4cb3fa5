import OpenFga.Dynamo.Item
import OpenFga.Lib.Windows

/-!
# Tables and queries

A partition of the table holds items in the order of the bytes of their keys. A query asks
for the items of one partition whose keys are in a range, and the service gives them out in
pages of its own choice: each page is an initial part of what is left, and a page that is not
declared to be the last names the key it ends with.
-/

namespace OpenFga.Dynamo

open Std OrderedMap Paging List

variable {last : Bytes} {accept : Entry → Except StorageError (Bytes × StoredTuple)}
  {done : List Entry} {call budget : Nat} {start frontier : Option Bytes}

instance : Ord Bytes := LinearOrder.toOrd

instance : TransOrd Bytes := inferInstance

def maximumPageEvaluations : Nat := 4096

/-- The quotient, rounded up. -/
def divCeil (dividend divisor : Nat) : Nat := (dividend + divisor - 1) / divisor

/-- The items of a partition, by key. -/
abbrev Rows := ExtTreeMap Bytes Item

abbrev Table := Partition → Rows

/-- An item and its sort key. -/
abbrev Entry := Bytes × Item

section Service

/-- One page of a query. A page may name the key it ends with although nothing is left. -/
structure QueryPage where
  items : List Entry
  lastEvaluatedKey : Option Bytes

/-- A page of a query for some entries. -/
structure QueryPage.Of (entries : List Entry) (limit : Nat) (page : QueryPage) : Prop where
  initial : page.items <+: entries
  bounded : page.items.length ≤ limit
  last : page.lastEvaluatedKey = none → page.items = entries
  ends : ∀ key ∈ page.lastEvaluatedKey, page.items.getLast?.map Prod.fst = some key

/-- How the service pages the requests that are made one after another. -/
structure QueryService where
  answer : Nat → List Entry → Nat → QueryPage
  pages : ∀ call entries limit, 1 ≤ limit → (answer call entries limit).Of entries limit

/-- The service that gives out as much as is asked for. -/
def QueryService.eager : QueryService where
  answer := fun _ entries limit =>
    if entries.length ≤ limit then ⟨entries, none⟩
    else ⟨entries.take limit, (entries.take limit).getLast?.map Prod.fst⟩
  pages := by
    intro _ entries limit positive
    split
    · rename_i few
      exact ⟨prefix_rfl, few, fun _ => rfl, by simp⟩
    · rename_i many
      refine ⟨ take_prefix _ _, length_take_le _ _, ?_, fun key held => held⟩
      intro none
      have empty := getLast?_eq_none_iff.mp (Option.map_eq_none_iff.mp none)
      have length := congrArg length empty
      rw [length_take, length_nil] at length
      omega

/-- The service that gives out as much as is asked for, and names the last key whether or not
something is left. -/
def QueryService.persistent : QueryService where
  answer := fun _ entries limit => ⟨entries.take limit, (entries.take limit).getLast?.map Prod.fst⟩
  pages := by
    intro _ entries limit positive
    refine ⟨ take_prefix _ _, length_take_le _ _, ?_, fun key held => held⟩
    intro none
    have empty := getLast?_eq_none_iff.mp (Option.map_eq_none_iff.mp none)
    rcases take_eq_nil_iff.mp empty with zero | nothing
    · omega
    · rw [nothing, take_nil]

/-- What a query finds after the key that the page before has ended with. -/
def candidates (rows : Rows) (range : Bytes → Bool) (start : Option Bytes) : List Entry :=
  remaining Prod.fst start (rows.toList.filter fun entry => range entry.1)

section Progress

variable {listing done : List Entry} {start : Option Bytes} {page : QueryPage} {limit : Nat}

/-- What the pages of a query have given out before the key it goes on from. -/
def Reached (listing : List Entry) : Option Bytes → List Entry → Prop
  | none, done => done = []
  | some last, done => Spans Prod.fst none listing done (some last) ∧ last ∈ listing.map Prod.fst

theorem remaining_none (listing : List Entry) : remaining Prod.fst none listing = listing := by
  refine filter_eq_self.mpr ?_
  simp [After]

theorem Reached.length_le (reached : Reached listing start done) :
    done.length ≤ listing.length := by
  cases start with
  | none =>
    have empty : done = [] := reached
    rw [empty]
    exact Nat.zero_le _
  | some last =>
    have whole := reached.1.2
    rw [remaining_none] at whole
    rw [whole, length_append]
    exact Nat.le_add_right _ _

variable (sorted : listing.Pairwise fun first second => first.1 < second.1)
  (reached : Reached listing start done) (given : page.Of (remaining Prod.fst start listing) limit)

include reached given

include sorted in
/-- A page goes on from what was given out before. -/
theorem QueryPage.Of.advance (more : page.lastEvaluatedKey = some last) :
    Reached listing (some last) (done ++ page.items) ∧ page.items ≠ [] := by
  obtain ⟨entry, ends, rfl⟩ := Option.map_eq_some_iff.mp (given.ends last more)
  have inside := mem_of_getLast? ends
  have listed : entry ∈ listing := (mem_remaining.mp (given.initial.subset inside)).1
  have spans := spans_of_initial sorted ends given.initial
  refine ⟨⟨?_, mem_map_of_mem listed⟩, ne_nil_of_mem inside⟩
  cases start with
  | none =>
    have empty : done = [] := reached
    rw [empty, nil_append]
    exact spans
  | some start => exact reached.1.append spans

/-- The last page gives out what is left. -/
theorem QueryPage.Of.all (last : page.lastEvaluatedKey = none) : done ++ page.items = listing := by
  have whole := remaining_none listing
  rw [given.last last]
  cases start with
  | none =>
    have empty : done = [] := reached
    rw [empty, nil_append, whole]
  | some start => rw [← reached.1.2, whole]

end Progress

end Service

section ForwardWindow

variable (serde : Serde TupleEnvelope) (sha256 : Bytes → Bytes)

/-- The tuples found in one shard, with their keys. -/
abbrev ForwardWindow := Window (Bytes × StoredTuple) Bytes

/-- Checks one item of a shard of the tuples of a store. -/
def acceptForward (storeId : StoreId) (partition : Partition) (boundary : Option Bytes)
    (entry : Entry) : Except StorageError (Bytes × StoredTuple) := do
  if boundary.any fun minimum => decide (entry.1 ≤ minimum) then
    .error (integrity "dynamodb_query_boundary_violation")
  else
    let stored ← decodeStoredTuple serde sha256 entry.2
    let key ← decodeForward entry.1
    if key ≠ stored.tuple.key then .error (integrity "dynamodb_forward_key_payload_mismatch")
    else
      let keys ← tupleKeys sha256 storeId stored.tuple.key
      if keys.forwardPartition ≠ partition then
        .error (integrity "dynamodb_forward_shard_mismatch")
      else .ok (entry.1, stored)

variable (table : Table) (service : QueryService) (storeId : StoreId) (partition : Partition)
  (boundary : Option Bytes) (filter : TupleReadFilter) (maximumMatches : Nat)

/-- Reads the pages of a shard until it has ended, the budget is used up or enough tuples are
found. The first number bounds the pages; every page but the last uses up some of the
budget. -/
def forwardPages : Nat → Nat → Nat → Option Bytes → Option Bytes →
    List (Bytes × StoredTuple) → Except StorageError ForwardWindow
  | 0, _, _, _, frontier, found => .ok ⟨found, frontier, false⟩
  | rounds + 1, call, budget, start, frontier, found => do
      if budget = 0 ∨ maximumMatches ≤ found.length then .ok ⟨found, frontier, false⟩
      else
        let page := service.answer call
          (candidates (table partition) (fun key => decide (After boundary key)) start) budget
        let accepted ← page.items.mapM (acceptForward serde sha256 storeId partition boundary)
        let found := found ++ accepted.filter fun entry => filter.accepts entry.2.tuple.key
        match page.lastEvaluatedKey with
        | some last =>
            forwardPages rounds (call + 1) (budget - page.items.length) (some last) (some last)
              found
        | none => .ok ⟨found, (page.items.getLast?.map Prod.fst).or frontier, true⟩

def queryForwardWindow (evaluationBudget : Nat) : Except StorageError ForwardWindow :=
  forwardPages serde sha256 table service storeId partition boundary filter maximumMatches
    evaluationBudget 0 evaluationBudget none boundary []

variable {serde sha256 table service storeId partition boundary filter maximumMatches}

/-- What a shard has in the range of a query. -/
def inRange (rows : Rows) (boundary : Option Bytes) : List Entry :=
  rows.toList.filter fun entry => decide (After boundary entry.1)

theorem inRange_sorted (rows : Rows) (boundary : Option Bytes) :
    (inRange rows boundary).Pairwise fun first second => first.1 < second.1 :=
  (toList_sorted rows).filter _

/-- The tuples that are shown of some items. -/
def shown (accept : Entry → Except StorageError (Bytes × StoredTuple)) (filter : TupleReadFilter)
    (entries : List Entry) : List (Bytes × StoredTuple) :=
  (entries.filterMap fun entry => (accept entry).toOption).filter fun entry =>
    filter.accepts entry.2.tuple.key

theorem shown_append (entries entries' : List Entry) : shown accept filter (entries ++ entries') =
      shown accept filter entries ++ shown accept filter entries' := by
  rw [shown, filterMap_append, filter_append]
  rfl

/-- A window shows the tuples of all items, or of those up to the frontier, which is the key
of an item. -/
structure Shows (accept : Entry → Except StorageError (Bytes × StoredTuple))
    (filter : TupleReadFilter) (listing : List Entry) (window : ForwardWindow) : Prop where
  whole : window.exhausted = true → window.found = shown accept filter listing
  part : window.exhausted = false → ∃ last ∈ listing, window.frontier = some last.1 ∧
    window.found = shown accept filter (listing.filter fun entry => decide (entry.1 ≤ last.1))

theorem Reached.shows {rows : Rows} (reached : Reached (inRange rows boundary) (some last) done) :
    Shows accept filter (inRange rows boundary) ⟨shown accept filter done, some last, false⟩ := by
  obtain ⟨spans, listed⟩ := reached
  obtain ⟨entry, member, rfl⟩ := mem_map.mp listed
  have given := spans.eq_filter (inRange_sorted rows boundary)
  rw [remaining_none] at given
  exact ⟨nofun, fun _ => ⟨entry, member, rfl, by rw [given]⟩⟩

section

variable (accepted : ∀ entry ∈ inRange (table partition) boundary, ∃ value,
  acceptForward serde sha256 storeId partition boundary entry = .ok value)

include accepted

/-- Induction over the rounds. The budget left is at most the number of rounds left, since
every page that is not the last has an item. -/
theorem forwardPages_shows (rounds : Nat) (enough : budget ≤ rounds)
    (reached : Reached (inRange (table partition) boundary) start done)
    (first : start = none → 0 < budget ∧ 0 < maximumMatches)
    (later : start ≠ none → frontier = start) :
    ∃ window, forwardPages serde sha256 table service storeId partition boundary filter
        maximumMatches rounds call budget start frontier
        (shown (acceptForward serde sha256 storeId partition boundary) filter done) = .ok window ∧
      Shows (acceptForward serde sha256 storeId partition boundary) filter
        (inRange (table partition) boundary) window := by
  induction rounds generalizing call budget start frontier done with
  | zero =>
    cases start with
    | none => exact absurd (first rfl).1 (by omega)
    | some last =>
      rw [later (by simp)]
      exact ⟨_, rfl, reached.shows⟩
  | succ rounds ih =>
    unfold forwardPages
    split
    · rename_i stop
      cases start with
      | none =>
        have empty : done = [] := reached
        obtain ⟨positive, room⟩ := first rfl
        rw [empty] at stop
        simp only [shown, filterMap_nil, filter_nil, length_nil] at stop
        omega
      | some last =>
        rw [later (by simp)]
        exact ⟨_, rfl, reached.shows⟩
    · rename_i go
      have sorted := inRange_sorted (table partition) boundary
      have given : (service.answer call (candidates (table partition)
          (fun key => decide (After boundary key)) start) budget).Of
          (remaining Prod.fst start (inRange (table partition) boundary)) budget :=
        service.pages call _ budget (by omega)
      revert given
      generalize service.answer call (candidates (table partition)
        (fun key => decide (After boundary key)) start) budget = page
      intro given
      have inside : ∀ entry ∈ page.items, entry ∈ inRange (table partition) boundary :=
        fun entry member => (mem_remaining.mp (given.initial.subset member)).1
      have read := mapM_eq_filterMap fun entry member => accepted entry (inside entry member)
      simp only [read, bind, Except.bind]
      rw [← shown, ← shown_append]
      split
      · rename_i last more
        obtain ⟨further, nonempty⟩ := given.advance sorted reached more
        have items := length_pos_iff.mpr nonempty
        exact ih (by omega) further nofun fun _ => rfl
      · rename_i last
        refine ⟨_, rfl, fun _ => ?_, nofun⟩
        rw [given.all reached last]

theorem queryForwardWindow_shows (positive : 0 < budget) (room : 0 < maximumMatches) :
    ∃ window, queryForwardWindow serde sha256 table service storeId partition boundary filter
        maximumMatches budget = .ok window ∧
      Shows (acceptForward serde sha256 storeId partition boundary) filter
        (inRange (table partition) boundary) window := by
  have unread : Reached (inRange (table partition) boundary) none [] := rfl
  exact forwardPages_shows accepted budget le_rfl unread (fun _ => ⟨positive, room⟩)
    (fun started => absurd rfl started)

end

/-- What a window shows was accepted. -/
theorem forwardPages_found {rounds : Nat} {found : List (Bytes × StoredTuple)}
    {window : ForwardWindow}
    (given : forwardPages serde sha256 table service storeId partition boundary filter
      maximumMatches rounds call budget start frontier found = .ok window)
    (before : ∀ item ∈ found, ∃ entry ∈ (table partition).toList,
      acceptForward serde sha256 storeId partition boundary entry = .ok item) :
    ∀ item ∈ window.found, ∃ entry ∈ (table partition).toList,
      acceptForward serde sha256 storeId partition boundary entry = .ok item := by
  induction rounds generalizing call budget start frontier found with
  | zero =>
    cases given
    exact before
  | succ rounds ih =>
    unfold forwardPages at given
    split at given
    · cases given
      exact before
    · rename_i go
      have initial := (service.pages call (candidates (table partition)
        (fun key => decide (After boundary key)) start) budget (by omega)).initial
      obtain ⟨accepted, read, given⟩ := bind_eq_ok.mp given
      have after : ∀ item ∈ found ++ accepted.filter (fun entry =>
          filter.accepts entry.2.tuple.key), ∃ entry ∈ (table partition).toList,
          acceptForward serde sha256 storeId partition boundary entry = .ok item := by
        intro item member
        rcases mem_append.mp member with earlier | here
        · exact before item earlier
        · obtain ⟨entry, listed, made⟩ := mem_of_mapM read item (mem_of_mem_filter here)
          have inside := (mem_remaining.mp (initial.subset listed)).1
          exact ⟨entry, mem_of_mem_filter inside, made⟩
      split at given
      · exact ih given after
      · cases given
        exact after

end ForwardWindow

end OpenFga.Dynamo
