import Mathlib.Data.Finset.Union
import OpenFga.Lib.Worklist
import OpenFga.Model.Ir

/-!
# Relation graph metadata

The compiler walks the rewrite of every relation and records which relations it
refers to and which subject types and typed wildcards its direct restrictions
admit. `propagateReachability` then lets every relation absorb what the relations
it refers to reach, in place and in rounds, until a round changes nothing or one
round more than there are relations has been made.

The main result is `reachability_closed`: the bounded rounds always end in tables
that are closed under the reference edges.
-/

namespace OpenFga

open Worklist List Function

variable {source : RelationId} {graph : GraphMetadata} {count : Nat} {table : List (Finset TypeId)}
  {index : Nat} {relations : List CompiledRelation} {grown : GraphMetadata} {node : RewriteNode}
  {known : Finset Nat}

/-- Reference edges between relations and the reachability tables. -/
structure GraphMetadata where
  forward : List (Finset RelationId)
  reverse : List (Finset RelationId)
  reachableTypes : List (Finset TypeId)
  reachableWildcards : List (Finset TypeId)
  deriving DecidableEq

/-- The set a table holds at one position. -/
def entry {β : Type} (table : List (Finset β)) (index : Nat) : Finset β :=
  table.getD index ∅

/-- Adds one element to the set at one position of a table. -/
def insertAt {β : Type} [DecidableEq β] (table : List (Finset β)) (index : Nat) (element : β) :
    List (Finset β) :=
  table.modify index (insert element)

namespace GraphMetadata

/-- The metadata of `count` relations before any node is visited. -/
def initial (count : Nat) : GraphMetadata :=
  ⟨.replicate count ∅, .replicate count ∅, .replicate count ∅, .replicate count ∅⟩

/-- Records a reference edge; the reverse edge follows a new forward edge. -/
def insertEdge (source target : RelationId) (graph : GraphMetadata) : GraphMetadata :=
  if target ∈ entry graph.forward source.index then graph
  else
    { graph with
      forward := insertAt graph.forward source.index target
      reverse := insertAt graph.reverse target.index source }

/-- Records that a tupleset relation feeds the source, in the reverse direction only. -/
def insertReverseOnly (source target : RelationId) (graph : GraphMetadata) : GraphMetadata :=
  { graph with reverse := insertAt graph.reverse target.index source }

/-- Records one direct restriction of the source relation. -/
def visitRestriction (source : RelationId) (graph : GraphMetadata)
    (restriction : DirectRestriction) : GraphMetadata :=
  let graph :=
    { graph with
      reachableTypes := insertAt graph.reachableTypes source.index restriction.subjectType }
  match restriction.kind with
  | .userset target => insertEdge source target graph
  | .wildcard =>
      { graph with
        reachableWildcards :=
          insertAt graph.reachableWildcards source.index restriction.subjectType }
  | .object => graph

/-- Records what one rewrite node of the source relation refers to. -/
def visitNode (relations : List CompiledRelation) (source : RelationId) (graph : GraphMetadata) :
    RewriteNode → GraphMetadata
  | .direct owner =>
      match relations[owner.index]? with
      | none => graph
      | some relation => relation.restrictions.foldl (visitRestriction source) graph
  | .computed target => insertEdge source target graph
  | .tupleToUserset tupleset _ targets =>
      targets.foldl (fun graph target => insertEdge source target graph)
        (insertReverseOnly source tupleset graph)
  | .union _ | .intersection _ | .difference _ _ => graph

end GraphMetadata

open GraphMetadata

/-- The nodes a node identifier refers to. -/
def childrenOf (nodes : List RewriteNode) (id : NodeId) : List NodeId :=
  match nodes[id.index]? with
  | none => []
  | some node => node.children

/-- The identifiers of the arena. -/
def nodeIds (nodes : List RewriteNode) : List NodeId :=
  (range nodes.length).map NodeId.mk

/-- The nodes of one rewrite, in visiting order. -/
def visitedNodes (nodes : List RewriteNode) (root : NodeId) : List NodeId :=
  exploreAll (childrenOf nodes) (nodeIds nodes) root

/-- Visits one node identifier of the source relation. -/
def visitNodeId (relations : List CompiledRelation) (nodes : List RewriteNode)
    (source : RelationId) (graph : GraphMetadata) (id : NodeId) : GraphMetadata :=
  match nodes[id.index]? with
  | none => graph
  | some node => visitNode relations source graph node

/-- Visits the whole rewrite of one relation. -/
def visitRelation (relations : List CompiledRelation) (nodes : List RewriteNode)
    (graph : GraphMetadata) (item : CompiledRelation × Nat) : GraphMetadata :=
  (visitedNodes nodes item.1.root).foldl (visitNodeId relations nodes ⟨item.2⟩) graph

section

variable (forward : List (Finset RelationId))

/-- One relation absorbs what the relations it refers to reach. -/
def absorb (table : List (Finset TypeId)) (source : Nat) : List (Finset TypeId) :=
  table.modify source
    (· ∪ (entry forward source).biUnion fun target => entry table target.index)

/-- The two reachability tables and whether the current round changed one. -/
structure Propagation where
  types : List (Finset TypeId)
  wildcards : List (Finset TypeId)
  changed : Bool

/-- The turn of one relation within a round. -/
def absorbBoth (current : Propagation) (source : Nat) : Propagation :=
  let types := absorb forward current.types source
  let wildcards := absorb forward current.wildcards source
  { types, wildcards
    changed := current.changed ||
      decide ((entry types source).card ≠ (entry current.types source).card) ||
      decide ((entry wildcards source).card ≠ (entry current.wildcards source).card) }

/-- One round over all relations, in place. -/
def propagateRound (types wildcards : List (Finset TypeId)) : Propagation :=
  (range forward.length).foldl (absorbBoth forward) ⟨types, wildcards, false⟩

/-- Rounds until one changes nothing, at most `remaining` many. -/
def propagateReachability :
    Nat → List (Finset TypeId) → List (Finset TypeId) →
      List (Finset TypeId) × List (Finset TypeId)
  | 0, types, wildcards => (types, wildcards)
  | remaining + 1, types, wildcards =>
      let round := propagateRound forward types wildcards
      if round.changed then propagateReachability remaining round.types round.wildcards
      else (round.types, round.wildcards)

end

/-- Edges and restrictions of all relations, before propagation. -/
def linkRelations (relations : List CompiledRelation) (nodes : List RewriteNode) : GraphMetadata :=
  relations.zipIdx.foldl (visitRelation relations nodes) (initial relations.length)

/-- The graph metadata of a compiled model. -/
def buildGraphMetadata (relations : List CompiledRelation) (nodes : List RewriteNode) :
    GraphMetadata :=
  let linked := linkRelations relations nodes
  let reachable := propagateReachability linked.forward (linked.forward.length + 1)
    linked.reachableTypes linked.reachableWildcards
  { linked with reachableTypes := reachable.1, reachableWildcards := reachable.2 }

section Tables

variable {β : Type} [DecidableEq β]

@[simp] theorem length_insertAt (table : List (Finset β)) (index : Nat) (element : β) :
    (insertAt table index element).length = table.length := by
  simp [insertAt]

omit [DecidableEq β] in
theorem entry_modify (table : List (Finset β)) (index position : Nat)
    (change : Finset β → Finset β) : entry (table.modify index change) position =
      if index = position ∧ position < table.length then change (entry table position)
      else entry table position := by
  unfold entry
  by_cases inside : position < table.length
  · by_cases same : index = position
    · subst same
      simp [getD_eq_getElem?_getD, inside]
    · simp [getD_eq_getElem?_getD, same]
  · simp [getD_eq_getElem?_getD, inside]

theorem entry_subset_insertAt (table : List (Finset β)) (index : Nat) (element : β)
    (position : Nat) : entry table position ⊆ entry (insertAt table index element) position := by
  rw [insertAt, entry_modify]
  split
  · exact Finset.subset_insert _ _
  · exact subset_rfl

theorem mem_entry_insertAt {table : List (Finset β)} (inside : index < table.length) (element : β) :
    element ∈ entry (insertAt table index element) index := by
  rw [insertAt, entry_modify, if_pos ⟨rfl, inside⟩]
  exact Finset.mem_insert_self _ _

/-- A table grows when it keeps its length and every set grows. -/
def TableGrows (table grown : List (Finset β)) : Prop :=
  table.length = grown.length ∧ ∀ index, entry table index ⊆ entry grown index

omit [DecidableEq β] in
theorem TableGrows.refl (table : List (Finset β)) : TableGrows table table :=
  ⟨rfl, fun _ => subset_rfl⟩

omit [DecidableEq β] in
theorem TableGrows.trans {first second third : List (Finset β)} (left : TableGrows first second)
    (right : TableGrows second third) : TableGrows first third :=
  ⟨left.1.trans right.1, fun index => (left.2 index).trans (right.2 index)⟩

theorem TableGrows.insertAt (table : List (Finset β)) (index : Nat) (element : β) :
    TableGrows table (insertAt table index element) :=
  ⟨(length_insertAt _ _ _).symm, entry_subset_insertAt table index element⟩

end Tables

/-- The tables relevant for reachability grow. -/
structure GraphMetadata.Grows (graph grown : GraphMetadata) : Prop where
  forward : TableGrows graph.forward grown.forward
  types : TableGrows graph.reachableTypes grown.reachableTypes
  wildcards : TableGrows graph.reachableWildcards grown.reachableWildcards

namespace GraphMetadata.Grows

theorem refl (graph : GraphMetadata) : Grows graph graph :=
  ⟨.refl _, .refl _, .refl _⟩

theorem trans {first second third : GraphMetadata} (left : Grows first second)
    (right : Grows second third) : Grows first third :=
  ⟨left.forward.trans right.forward, left.types.trans right.types,
    left.wildcards.trans right.wildcards⟩

theorem insertEdge (source target : RelationId) (graph : GraphMetadata) :
    Grows graph (graph.insertEdge source target) := by
  unfold GraphMetadata.insertEdge
  split
  · exact refl graph
  · exact ⟨.insertAt _ _ _, .refl _, .refl _⟩

theorem visitRestriction (source : RelationId) (graph : GraphMetadata)
    (restriction : DirectRestriction) :
    Grows graph (graph.visitRestriction source restriction) := by
  have types : Grows graph
      { graph with
        reachableTypes := insertAt graph.reachableTypes source.index restriction.subjectType } :=
    ⟨.refl _, .insertAt _ _ _, .refl _⟩
  unfold GraphMetadata.visitRestriction
  cases restriction.kind with
  | object => exact types
  | userset target => exact types.trans (insertEdge source target _)
  | wildcard => exact types.trans ⟨.refl _, .refl _, .insertAt _ _ _⟩

section

variable (relations : List CompiledRelation)

theorem visitNode (source : RelationId) (graph : GraphMetadata) (node : RewriteNode) :
    Grows graph (graph.visitNode relations source node) := by
  cases node with
  | direct owner =>
    simp only [GraphMetadata.visitNode]
    split
    · exact refl graph
    · exact foldl_grows refl trans (visitRestriction source) _ graph
  | computed target => exact insertEdge source target graph
  | tupleToUserset tupleset name targets =>
    have reverse : Grows graph (graph.insertReverseOnly source tupleset) :=
      ⟨.refl _, .refl _, .refl _⟩
    exact reverse.trans
      (foldl_grows refl trans (fun graph target => insertEdge source target graph) _ _)
  | union | intersection | difference => exact refl graph

theorem visitNodeId (nodes : List RewriteNode) (source : RelationId) (graph : GraphMetadata)
    (id : NodeId) : Grows graph (OpenFga.visitNodeId relations nodes source graph id) := by
  unfold OpenFga.visitNodeId
  split
  · exact refl graph
  · exact visitNode relations source graph _

theorem visitRelation (nodes : List RewriteNode) (graph : GraphMetadata)
    (item : CompiledRelation × Nat) :
    Grows graph (OpenFga.visitRelation relations nodes graph item) :=
  foldl_grows refl trans (visitNodeId relations nodes ⟨item.2⟩) _ graph

end

end GraphMetadata.Grows

/-- What a node of a relation's rewrite must leave in the tables of that relation. -/
def Recorded (relations : List CompiledRelation) (source : Nat) (graph : GraphMetadata) :
    RewriteNode → Prop
  | .direct owner => ∀ relation, relations[owner.index]? = some relation →
      ∀ restriction ∈ relation.restrictions,
        restriction.subjectType ∈ entry graph.reachableTypes source ∧
        (restriction.kind = .wildcard →
          restriction.subjectType ∈ entry graph.reachableWildcards source) ∧
        ∀ target, restriction.kind = .userset target → target ∈ entry graph.forward source
  | .computed target => target ∈ entry graph.forward source
  | .tupleToUserset _ _ targets => ∀ target ∈ targets, target ∈ entry graph.forward source
  | _ => True

theorem Recorded.grows {source : Nat} (grows : graph.Grows grown)
    (recorded : Recorded relations source graph node) : Recorded relations source grown node := by
  cases node with
  | direct owner =>
    intro relation found restriction member
    obtain ⟨type, wildcard, userset⟩ := recorded relation found restriction member
    exact ⟨grows.types.2 _ type, fun kind => grows.wildcards.2 _ (wildcard kind),
      fun target kind => grows.forward.2 _ (userset target kind)⟩
  | computed target => exact grows.forward.2 _ recorded
  | tupleToUserset tupleset name targets =>
    exact fun target member => grows.forward.2 _ (recorded target member)
  | union | intersection | difference => trivial

theorem mem_forward_insertEdge (inside : source.index < graph.forward.length)
    (target : RelationId) :
    target ∈ entry (graph.insertEdge source target).forward source.index := by
  unfold GraphMetadata.insertEdge
  split
  · assumption
  · exact mem_entry_insertAt inside target

/-- The sizes every position of a graph with `count` relations is valid for. -/
structure GraphMetadata.Sized (graph : GraphMetadata) (count : Nat) : Prop where
  forward : graph.forward.length = count
  types : graph.reachableTypes.length = count
  wildcards : graph.reachableWildcards.length = count

theorem GraphMetadata.Grows.sized (grows : graph.Grows grown) (sized : graph.Sized count) :
    grown.Sized count :=
  ⟨grows.forward.1 ▸ sized.forward, grows.types.1 ▸ sized.types,
    grows.wildcards.1 ▸ sized.wildcards⟩

theorem visitRestriction_records (sized : graph.Sized count) (inside : source.index < count)
    (restriction : DirectRestriction) : let visited := graph.visitRestriction source restriction
    restriction.subjectType ∈ entry visited.reachableTypes source.index ∧
      (restriction.kind = .wildcard →
        restriction.subjectType ∈ entry visited.reachableWildcards source.index) ∧
      ∀ target, restriction.kind = .userset target → target ∈ entry visited.forward
        source.index := by
  have type : restriction.subjectType ∈
      entry (insertAt graph.reachableTypes source.index restriction.subjectType) source.index :=
    mem_entry_insertAt (by rw [sized.types]; exact inside) _
  unfold GraphMetadata.visitRestriction
  cases kind : restriction.kind with
  | object => exact ⟨type, by simp, by simp⟩
  | userset target =>
    refine ⟨(Grows.insertEdge source target _).types.2 _ type, by simp, ?_⟩
    intro other same
    cases same
    exact mem_forward_insertEdge (by rw [sized.forward]; exact inside) target
  | wildcard =>
    exact ⟨type, fun _ => mem_entry_insertAt (by rw [sized.wildcards]; exact inside) _, by simp⟩

/-- Visiting a node records what it refers to. -/
theorem visitNode_records (relations : List CompiledRelation) (sized : graph.Sized count)
    (inside : source.index < count) (node : RewriteNode) :
    Recorded relations source.index (graph.visitNode relations source node) node := by
  cases node with
  | direct owner =>
    intro relation found restriction member
    have visited : graph.visitNode relations source (.direct owner) =
        relation.restrictions.foldl (GraphMetadata.visitRestriction source) graph := by
      simp [GraphMetadata.visitNode, found]
    rw [visited]
    obtain ⟨before, reached, after⟩ :=
      foldl_through Grows.refl Grows.trans (Grows.visitRestriction source) member graph
    obtain ⟨type, wildcard, userset⟩ :=
      visitRestriction_records (reached.sized sized) inside restriction
    exact ⟨after.types.2 _ type, fun kind => after.wildcards.2 _ (wildcard kind),
      fun target kind => after.forward.2 _ (userset target kind)⟩
  | computed target =>
    exact mem_forward_insertEdge (by rw [sized.forward]; exact inside) target
  | tupleToUserset tupleset name targets =>
    intro target member
    have reverse : (graph.insertReverseOnly source tupleset).Sized count :=
      ⟨sized.forward, sized.types, sized.wildcards⟩
    obtain ⟨before, reached, after⟩ :=
      foldl_through Grows.refl Grows.trans
        (fun graph target => Grows.insertEdge source target graph) member
        (graph.insertReverseOnly source tupleset)
    have recorded : target ∈ entry (before.insertEdge source target).forward source.index :=
      mem_forward_insertEdge (by rw [(reached.sized reverse).forward]; exact inside) target
    exact after.forward.2 _ recorded
  | union | intersection | difference => trivial

theorem initial_sized (count : Nat) : (initial count).Sized count :=
  ⟨by simp [initial], by simp [initial], by simp [initial]⟩

theorem linkRelations_sized (relations : List CompiledRelation) (nodes : List RewriteNode) :
    (linkRelations relations nodes).Sized relations.length :=
  (foldl_grows Grows.refl Grows.trans (Grows.visitRelation relations nodes) _ _).sized
    (initial_sized relations.length)

/-- Every node of a relation's rewrite is recorded for the relation. -/
theorem linkRelations_records {nodes : List RewriteNode} {source : Nat}
    {relation : CompiledRelation} (found : relations[source]? = some relation) {id : NodeId}
    (visited : id ∈ visitedNodes nodes relation.root) (content : nodes[id.index]? = some node) :
    Recorded relations source (linkRelations relations nodes) node := by
  have member : (relation, source) ∈ relations.zipIdx :=
    mem_zipIdx_iff_getElem?.mpr found
  obtain ⟨before, reached, after⟩ :=
    foldl_through Grows.refl Grows.trans (Grows.visitRelation relations nodes) member
      (initial relations.length)
  have sized := reached.sized (initial_sized relations.length)
  have inside : source < relations.length := by
    obtain ⟨bound, -⟩ := List.getElem?_eq_some_iff.mp found
    exact bound
  obtain ⟨inner, innerReached, innerAfter⟩ :=
    foldl_through Grows.refl Grows.trans (Grows.visitNodeId relations nodes ⟨source⟩) visited before
  have recorded : Recorded relations source
      (visitNodeId relations nodes ⟨source⟩ inner id) node := by
    simp only [visitNodeId, content]
    exact visitNode_records relations (innerReached.sized sized) inside node
  exact recorded.grows (innerAfter.trans after)

/-- The relations whose set contains one value. Rounds act on each such set on its own. -/
def holders (value : TypeId) (table : List (Finset TypeId)) : Finset Nat :=
  (Finset.range table.length).filter fun index => value ∈ entry table index

theorem mem_holders {value : TypeId} : index ∈ holders value table ↔ value ∈ entry table index := by
  unfold holders
  rw [Finset.mem_filter, Finset.mem_range, and_iff_right_iff_imp]
  intro member
  by_contra outside
  simp [entry, getD_eq_getElem?_getD, getElem?_eq_none (Nat.le_of_not_lt outside)]
    at member

section

variable (forward : List (Finset RelationId))

/-- The turn of one relation, seen on the holders of one value. -/
def absorbHolder (count : Nat) (known : Finset Nat) (source : Nat) : Finset Nat :=
  if source < count ∧ ∃ target ∈ entry forward source, target.index ∈ known then
    insert source known
  else known

/-- One round, seen on the holders of one value. -/
def growHolders (count : Nat) (known : Finset Nat) : Finset Nat :=
  (range forward.length).foldl (absorbHolder forward count) known

@[simp] theorem length_absorb (table : List (Finset TypeId)) (source : Nat) :
    (absorb forward table source).length = table.length := by
  simp [absorb]

theorem holders_absorb (value : TypeId) (table : List (Finset TypeId)) (source : Nat) :
    holders value (absorb forward table source) =
      absorbHolder forward table.length (holders value table) source := by
  ext index
  rw [mem_holders, absorb, entry_modify, absorbHolder]
  simp only [mem_holders]
  by_cases turn : source = index
  · subst turn
    by_cases inside : source < table.length
    · simp only [inside, and_self, if_true, true_and]
      split
      · rename_i found
        simpa [mem_holders] using Or.inr found
      · rename_i none
        rw [mem_holders, Finset.mem_union, Finset.mem_biUnion, or_iff_left none]
    · simp [inside, mem_holders]
  · simp only [turn, false_and, if_false]
    split
    · rw [Finset.mem_insert, mem_holders, or_iff_right (Ne.symm turn)]
    · rw [mem_holders]

theorem length_foldl_absorb (sources : List Nat) (table : List (Finset TypeId)) :
    (sources.foldl (absorb forward) table).length = table.length := by
  induction sources generalizing table with
  | nil => rfl
  | cons source sources ih => rw [foldl_cons, ih, length_absorb]

theorem holders_foldl_absorb (value : TypeId) (sources : List Nat) (table : List (Finset TypeId)) :
    holders value (sources.foldl (absorb forward) table) =
      sources.foldl (absorbHolder forward table.length) (holders value table) := by
  induction sources generalizing table with
  | nil => rfl
  | cons source sources ih =>
    rw [foldl_cons, ih, holders_absorb, length_absorb, foldl_cons]

theorem subset_absorbHolder (count : Nat)
    (known : Finset Nat) (source : Nat) : known ⊆ absorbHolder forward count known source := by
  unfold absorbHolder
  split
  · exact Finset.subset_insert _ _
  · exact subset_rfl

theorem subset_growHolders (count : Nat) (known : Finset Nat) :
    known ⊆ growHolders forward count known :=
  foldl_grows (R := fun a b => a ⊆ b) (fun _ => subset_rfl) Finset.Subset.trans
    (subset_absorbHolder forward count) _ known

theorem growHolders_subset (count : Nat) (inside : known ⊆ Finset.range count) :
    growHolders forward count known ⊆ Finset.range count := by
  have steps : ∀ (before : Finset Nat) (source : Nat),
      before ⊆ Finset.range count → absorbHolder forward count before source
      ⊆ Finset.range count := by
    intro before source bounded
    unfold absorbHolder
    split
    · rename_i found
      exact Finset.insert_subset (Finset.mem_range.mpr found.1) bounded
    · exact bounded
  unfold growHolders
  generalize range forward.length = sources
  induction sources generalizing known with
  | nil => exact inside
  | cons source sources ih => exact ih (steps known source inside)

variable {forward} in
/-- A set that a round leaves alone is closed under the reference edges. -/
theorem closed_of_growHolders_eq (fixed : growHolders forward count known = known) {source : Nat}
    (inside : source < count) {target : RelationId} (edge : target ∈ entry forward source)
    (holds : target.index ∈ known) : source ∈ known := by
  have position : source ∈ range forward.length := by
    rw [mem_range]
    by_contra outside
    simp [entry, getD_eq_getElem?_getD, getElem?_eq_none (Nat.le_of_not_lt outside)]
      at edge
  obtain ⟨before, reached, after⟩ :=
    foldl_through (R := fun a b => a ⊆ b) (fun _ => subset_rfl) Finset.Subset.trans
      (subset_absorbHolder forward count) position known
  have turn : source ∈ absorbHolder forward count before source := by
    unfold absorbHolder
    rw [if_pos ⟨inside, target, edge, reached holds⟩]
    exact Finset.mem_insert_self _ _
  have final : source ∈ growHolders forward count known := after turn
  rwa [fixed] at final

/-- A table is closed when a relation reaches all that its references reach. -/
def TableClosed (table : List (Finset TypeId)) : Prop :=
  ∀ source < table.length, ∀ target ∈ entry forward source,
    entry table target.index ⊆ entry table source

variable {forward} in
theorem tableClosed_of_holders
    (fixed : ∀ value, growHolders forward table.length (holders value table) =
      holders value table) :
    TableClosed forward table := by
  intro source inside target edge value holds
  exact mem_holders.mp
    (closed_of_growHolders_eq (fixed value) inside edge (mem_holders.mpr holds))

/-- One in-place round on a single table. -/
def absorbAll (table : List (Finset TypeId)) : List (Finset TypeId) :=
  (range forward.length).foldl (absorb forward) table

theorem length_absorbAll_iterate (table : List (Finset TypeId)) (rounds : Nat) :
    ((absorbAll forward)^[rounds] table).length = table.length := by
  induction rounds with
  | zero => rfl
  | succ rounds ih =>
    rw [iterate_succ_apply', absorbAll, length_foldl_absorb, ih]

theorem holders_absorbAll_iterate (value : TypeId) (table : List (Finset TypeId)) (rounds : Nat) :
    holders value ((absorbAll forward)^[rounds] table) =
      (growHolders forward table.length)^[rounds] (holders value table) := by
  induction rounds with
  | zero => rfl
  | succ rounds ih =>
    rw [iterate_succ_apply', iterate_succ_apply', ← ih, absorbAll,
      holders_foldl_absorb, length_absorbAll_iterate, growHolders]

/-- One round more than there are relations closes a table. -/
theorem absorbAll_iterate_closed (table : List (Finset TypeId)) :
    TableClosed forward ((absorbAll forward)^[table.length + 1] table) := by
  apply tableClosed_of_holders
  intro value
  have bounded : holders value table ⊆ Finset.range table.length := Finset.filter_subset _ _
  have fixed := iterate_isFixedPt (Finset.range table.length)
    (subset_growHolders forward table.length)
    (fun _ inside => growHolders_subset forward table.length inside) bounded
  rw [Finset.card_range] at fixed
  rw [length_absorbAll_iterate, holders_absorbAll_iterate, iterate_succ_apply', fixed,
    fixed]

theorem subset_entry_absorb (table : List (Finset TypeId)) (source index : Nat) :
    entry table index ⊆ entry (absorb forward table source) index := by
  rw [absorb, entry_modify]
  split
  · exact Finset.subset_union_left
  · exact subset_rfl

variable {forward} in
/-- A turn that keeps the size of its set changes nothing. -/
theorem absorb_eq_self {source : Nat}
    (size : (entry (absorb forward table source) source).card = (entry table source).card) :
    absorb forward table source = table := by
  have same := Finset.eq_of_subset_of_card_le (subset_entry_absorb forward table source source)
    (Nat.le_of_eq size)
  apply ext_getElem (length_absorb forward table source)
  intro index inside inside'
  have entries : entry (absorb forward table source) index = entry table index := by
    by_cases turn : source = index
    · rw [← turn, same]
    · rw [absorb, entry_modify, if_neg (fun both => turn both.1)]
  simpa [entry, getD_eq_getElem?_getD, inside, inside'] using entries

theorem foldl_absorbBoth (sources : List Nat) (current : Propagation) :
    let result := sources.foldl (absorbBoth forward) current
    result.types = sources.foldl (absorb forward) current.types ∧
      result.wildcards = sources.foldl (absorb forward) current.wildcards ∧
      (result.changed = false → current.changed = false ∧ result.types = current.types ∧
        result.wildcards = current.wildcards) := by
  induction sources generalizing current with
  | nil => exact ⟨rfl, rfl, fun unchanged => ⟨unchanged, rfl, rfl⟩⟩
  | cons source sources ih =>
    obtain ⟨types, wildcards, quiet⟩ := ih (absorbBoth forward current source)
    refine ⟨types, wildcards, fun unchanged => ?_⟩
    obtain ⟨still, sameTypes, sameWildcards⟩ := quiet unchanged
    simp only [absorbBoth, Bool.or_eq_false_iff, decide_eq_false_iff_not, not_not] at still
    obtain ⟨⟨before, typeSize⟩, wildcardSize⟩ := still
    exact ⟨before, sameTypes.trans (absorb_eq_self typeSize),
      sameWildcards.trans (absorb_eq_self wildcardSize)⟩

theorem propagateRound_types
    (types wildcards : List (Finset TypeId)) :
    (propagateRound forward types wildcards).types = absorbAll forward types :=
  (foldl_absorbBoth forward _ _).1

theorem propagateRound_wildcards
    (types wildcards : List (Finset TypeId)) :
    (propagateRound forward types wildcards).wildcards = absorbAll forward wildcards :=
  (foldl_absorbBoth forward _ _).2.1

variable {forward} in
theorem tableClosed_of_absorbAll_eq (fixed : absorbAll forward table = table) :
    TableClosed forward table := by
  apply tableClosed_of_holders
  intro value
  have round := holders_foldl_absorb forward value (range forward.length) table
  rw [growHolders, ← round]
  exact congrArg (holders value) fixed

/-- The loop ends in closed tables or has made all its rounds. -/
theorem propagateReachability_cases (rounds : Nat) :
    ∀ types wildcards : List (Finset TypeId),
      let result := propagateReachability forward rounds types wildcards
      (TableClosed forward result.1 ∧ TableClosed forward result.2) ∨
        (result.1 = (absorbAll forward)^[rounds] types ∧
          result.2 = (absorbAll forward)^[rounds] wildcards) := by
  induction rounds with
  | zero => exact fun types wildcards => .inr ⟨rfl, rfl⟩
  | succ rounds ih =>
    intro types wildcards
    simp only [propagateReachability]
    split
    · rw [propagateRound_types, propagateRound_wildcards]
      rw [iterate_succ_apply, iterate_succ_apply]
      exact ih _ _
    · rename_i quiet
      obtain ⟨-, sameTypes, sameWildcards⟩ :=
        (foldl_absorbBoth forward _ _).2.2 (Bool.eq_false_iff.mpr quiet)
      have fixedTypes : absorbAll forward types = types := by
        rw [← propagateRound_types forward types wildcards]
        exact sameTypes
      have fixedWildcards : absorbAll forward wildcards = wildcards := by
        rw [← propagateRound_wildcards forward types wildcards]
        exact sameWildcards
      rw [propagateRound_types, propagateRound_wildcards, fixedTypes, fixedWildcards]
      exact .inl ⟨tableClosed_of_absorbAll_eq fixedTypes,
        tableClosed_of_absorbAll_eq fixedWildcards⟩

/-- A round only adds to a table. -/
theorem absorbAll_grows (table : List (Finset TypeId)) :
    TableGrows table (absorbAll forward table) :=
  foldl_grows TableGrows.refl TableGrows.trans
    (fun table source => ⟨(length_absorb forward table source).symm,
      subset_entry_absorb forward table source⟩) _ table

theorem propagateReachability_grows (rounds : Nat) :
    ∀ types wildcards : List (Finset TypeId),
      let result := propagateReachability forward rounds types wildcards
      TableGrows types result.1 ∧ TableGrows wildcards result.2 := by
  induction rounds with
  | zero => exact fun types wildcards => ⟨.refl _, .refl _⟩
  | succ rounds ih =>
    intro types wildcards
    simp only [propagateReachability, propagateRound_types, propagateRound_wildcards]
    have round := absorbAll_grows forward
    split
    · obtain ⟨growTypes, growWildcards⟩ := ih (absorbAll forward types)
        (absorbAll forward wildcards)
      exact ⟨(round types).trans growTypes, (round wildcards).trans growWildcards⟩
    · exact ⟨round types, round wildcards⟩

end

/-- The tables of a built graph are closed under its reference edges. -/
theorem reachability_closed (relations : List CompiledRelation) (nodes : List RewriteNode) :
    let graph := buildGraphMetadata relations nodes
    TableClosed graph.forward graph.reachableTypes ∧
      TableClosed graph.forward graph.reachableWildcards := by
  have sized := linkRelations_sized relations nodes
  rcases propagateReachability_cases (linkRelations relations nodes).forward
    ((linkRelations relations nodes).forward.length + 1)
    (linkRelations relations nodes).reachableTypes
    (linkRelations relations nodes).reachableWildcards with closed | ⟨types, wildcards⟩
  · exact closed
  · have typesCount : (linkRelations relations nodes).forward.length =
        (linkRelations relations nodes).reachableTypes.length := by
      rw [sized.forward, sized.types]
    have wildcardsCount : (linkRelations relations nodes).forward.length =
        (linkRelations relations nodes).reachableWildcards.length := by
      rw [sized.forward, sized.wildcards]
    have closedTypes := absorbAll_iterate_closed (linkRelations relations nodes).forward
      (linkRelations relations nodes).reachableTypes
    have closedWildcards := absorbAll_iterate_closed (linkRelations relations nodes).forward
      (linkRelations relations nodes).reachableWildcards
    rw [← typesCount, ← types] at closedTypes
    rw [← wildcardsCount, ← wildcards] at closedWildcards
    exact ⟨closedTypes, closedWildcards⟩

/-- The built graph keeps all that linking recorded. -/
theorem linkRelations_grows_build (relations : List CompiledRelation) (nodes : List RewriteNode) :
    (linkRelations relations nodes).Grows (buildGraphMetadata relations nodes) := by
  obtain ⟨types, wildcards⟩ := propagateReachability_grows
    (linkRelations relations nodes).forward ((linkRelations relations nodes).forward.length + 1)
    (linkRelations relations nodes).reachableTypes
      (linkRelations relations nodes).reachableWildcards
  exact ⟨.refl _, types, wildcards⟩

/-- Every reference between relations can be followed backwards. -/
def GraphMetadata.Mirrored (count : Nat) (graph : GraphMetadata) : Prop :=
  graph.reverse.length = count ∧ ∀ source target : RelationId, target.index < count →
    target ∈ entry graph.forward source.index → source ∈ entry graph.reverse target.index

theorem mirrored_insertEdge (mirrored : graph.Mirrored count) (target : RelationId) :
    (graph.insertEdge source target).Mirrored count := by
  unfold GraphMetadata.insertEdge
  split
  · exact mirrored
  · obtain ⟨length, kept⟩ := mirrored
    refine ⟨(length_insertAt _ _ _).trans length, fun source' target' inside => ?_⟩
    simp only [insertAt, entry_modify]
    grind [kept source' target' inside, RelationId]

theorem mirrored_visitNode (mirrored : graph.Mirrored count) (node : RewriteNode) :
    (graph.visitNode relations source node).Mirrored count := by
  cases node with
  | direct owner =>
    simp only [visitNode]
    split
    · exact mirrored
    · refine foldlRecOn (motive := Mirrored count) _ _ mirrored fun _ kept restriction _ => ?_
      simp only [visitRestriction]
      split
      · apply mirrored_insertEdge
        exact kept
      all_goals exact kept
  | computed target => exact mirrored_insertEdge mirrored target
  | tupleToUserset tupleset name targets =>
    refine foldlRecOn (motive := Mirrored count) _ _ ⟨?_, fun _ _ inside member => ?_⟩
      fun _ kept target _ => mirrored_insertEdge kept target
    · exact (length_insertAt _ _ _).trans mirrored.1
    · exact entry_subset_insertAt _ _ _ _ (mirrored.2 _ _ inside member)
  | union | intersection | difference => exact mirrored

/-- The reverse table misses no edge of the forward one. -/
theorem references_mirrored (relations : List CompiledRelation) (nodes : List RewriteNode) :
    (buildGraphMetadata relations nodes).Mirrored relations.length := by
  refine foldlRecOn (motive := Mirrored relations.length) _ _ ?_ fun _ kept _ _ =>
    foldlRecOn (motive := Mirrored relations.length) _ _ kept fun _ kept _ _ => ?_
  · exact ⟨length_replicate, by grind [initial, entry]⟩
  · unfold visitNodeId
    split
    · exact kept
    · exact mirrored_visitNode kept _

end OpenFga
