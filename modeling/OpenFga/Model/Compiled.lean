import OpenFga.Model.Condition
import OpenFga.Model.Graph

/-!
# Compiled authorization models

A compiled model carries what the compiler has established about it: names are
unique, identifiers are in range, every rewrite stays within the object type of
its relation, and the graph metadata is the one built from its own relations.
The resource ceilings of the compiler are not part of the model.

Trees are handled through `Rewrite.Subterm`: `subterm_node` connects the subterms
of a relation's rewrite to the arena nodes the compiler visited, and
`visited_scoped` and `visited_recorded` state what holds of each such node.
-/

namespace OpenFga

open List

variable {id : RelationId} {root inner : NodeId}

structure StoreId where
  text : String
  deriving DecidableEq, Repr

structure AuthorizationModelId where
  text : String
  deriving DecidableEq, Repr

/-- The object type and name of a relation, which identify it. -/
def relationKey (relations : List CompiledRelation) (id : RelationId) :
    Option (TypeId × RelationName) :=
  relations[id.index]?.map fun relation => (relation.objectType, relation.name)

/-- The object type of a relation. -/
def relationType (relations : List CompiledRelation) (id : RelationId) : Option TypeId :=
  relations[id.index]?.map CompiledRelation.objectType

/-- The subject type, userset relation and condition of a restriction are defined. -/
def RestrictionValid (typeCount conditionCount : Nat) (relations : List CompiledRelation)
    (restriction : DirectRestriction) : Prop :=
  restriction.subjectType.index < typeCount ∧
    (∀ target, restriction.kind = .userset target →
      relationType relations target = some restriction.subjectType) ∧
    ∀ condition, restriction.condition = .required condition → condition.index < conditionCount

section

variable (relations : List CompiledRelation) (nodes : List RewriteNode)

/-- A tupleset is read directly, relates objects only, and its targets are the
computed relation on the types it admits. -/
def TuplesetValid (tupleset : RelationId) (computed : RelationName) (targets : List RelationId) :
    Prop :=
  targets ≠ [] ∧ targets.Nodup ∧ ∃ relation ∈ relations[tupleset.index]?,
    nodes[relation.root.index]? = some (.direct tupleset) ∧
    (∀ restriction ∈ relation.restrictions, restriction.kind = .object ∧
      ∃ target ∈ targets, relationKey relations target = some (restriction.subjectType, computed)) ∧
    ∀ target ∈ targets, ∃ restriction ∈ relation.restrictions,
      relationKey relations target = some (restriction.subjectType, computed)

/-- A node of the rewrite of `source` refers to relations of its object type. -/
def NodeScoped (source : RelationId) (objectType : TypeId) : RewriteNode → Prop
  | .direct owner => owner = source
  | .computed target => relationType relations target = some objectType
  | .tupleToUserset tupleset computed targets =>
      relationType relations tupleset = some objectType ∧
        TuplesetValid relations nodes tupleset computed targets
  | .union children => 2 ≤ children.length
  | .intersection children => 2 ≤ children.length
  | .difference _ _ => True

instance (typeCount conditionCount : Nat) :
    DecidablePred (RestrictionValid typeCount conditionCount relations)
  | ⟨subjectType, kind, condition⟩ =>
      have : Decidable (∀ target, kind = .userset target →
          relationType relations target = some subjectType) :=
        match kind with
        | .userset target => decidable_of_iff (relationType relations target = some subjectType)
            (by simp)
        | .object => .isTrue (by simp)
        | .wildcard => .isTrue (by simp)
      have : Decidable (∀ required, condition = .required required →
          required.index < conditionCount) :=
        match condition with
        | .required required => decidable_of_iff (required.index < conditionCount) (by simp)
        | .unconditional => .isTrue (by simp)
      inferInstanceAs (Decidable (_ ∧ _ ∧ _))

instance (tupleset : RelationId) (computed : RelationName) (targets : List RelationId) :
    Decidable (TuplesetValid relations nodes tupleset computed targets) := by
  unfold TuplesetValid
  infer_instance

instance (source : RelationId) (objectType : TypeId) :
    DecidablePred (NodeScoped relations nodes source objectType) := by
  intro node
  cases node <;> unfold NodeScoped <;> infer_instance

end

/-- An immutable compiled authorization model. -/
structure CompiledModel where
  storeId : StoreId
  modelId : AuthorizationModelId
  types : List TypeName
  relations : List CompiledRelation
  nodes : List RewriteNode
  conditions : List CompiledCondition
  graph : GraphMetadata
  types_nodup : types.Nodup
  relations_nodup :
    (relations.map fun relation => (relation.objectType, relation.name)).Nodup
  conditions_nodup : (conditions.map CompiledCondition.name).Nodup
  relations_valid : ∀ relation ∈ relations,
    relation.objectType.index < types.length ∧ relation.root.index < nodes.length
  restrictions_valid : ∀ relation ∈ relations, ∀ restriction ∈ relation.restrictions,
    RestrictionValid types.length conditions.length relations restriction
  children_precede : ChildrenPrecede nodes
  nodes_scoped : ∀ item ∈ relations.zipIdx, ∀ id ∈ visitedNodes nodes item.1.root,
    ∀ node ∈ nodes[id.index]?, NodeScoped relations nodes ⟨item.2⟩ item.1.objectType node
  graph_eq : graph = buildGraphMetadata relations nodes

namespace CompiledModel

variable (model : CompiledModel)

def typeId (name : TypeName) : Option TypeId :=
  (model.types.findIdx? fun type => type = name).map TypeId.mk

def typeName (id : TypeId) : Option TypeName :=
  model.types[id.index]?

/-- The relation of one type with one name. -/
def relationId (objectType : TypeName) (name : RelationName) : Option RelationId :=
  (model.typeId objectType).bind fun type =>
    (model.relations.findIdx? fun relation =>
      (relation.objectType, relation.name) = (type, name)).map RelationId.mk

def relation (id : RelationId) : Option CompiledRelation :=
  model.relations[id.index]?

def node (id : NodeId) : Option RewriteNode :=
  model.nodes[id.index]?

def conditionId (name : ConditionName) : Option ConditionId :=
  (model.conditions.findIdx? fun condition => condition.name = name).map ConditionId.mk

def condition (id : ConditionId) : Option CompiledCondition :=
  model.conditions[id.index]?

/-- Whether a relation can reach objects or usersets of a subject type. -/
def canReachSubjectType (relation : RelationId) (subjectType : TypeId) : Bool :=
  decide (subjectType ∈ entry model.graph.reachableTypes relation.index)

/-- Whether a relation can reach the typed wildcard of a subject type. -/
def canReachWildcard (relation : RelationId) (subjectType : TypeId) : Bool :=
  decide (subjectType ∈ entry model.graph.reachableWildcards relation.index)

/-- The tree of a rewrite node. -/
def tree (id : NodeId) : Rewrite :=
  rewriteTree model.nodes id

section Lookups

/-- With distinct keys, the lookup of a key finds the entry that has it. -/
private theorem findIdx?_key_eq_some {α β : Type} [DecidableEq β] {key : α → β} {items : List α}
    (distinct : (items.map key).Nodup) {wanted : β} {index : Nat} :
    (items.findIdx? fun item => key item = wanted) = some index ↔
      ∃ item, items[index]? = some item ∧ key item = wanted := by
  rw [findIdx?_eq_some_iff_getElem]
  simp only [decide_eq_true_eq]
  constructor
  · rintro ⟨inside, same, -⟩
    exact ⟨items[index], getElem?_eq_getElem inside, same⟩
  · rintro ⟨item, found, same⟩
    obtain ⟨inside, rfl⟩ := List.getElem?_eq_some_iff.mp found
    refine ⟨inside, same, fun earlier before clash => ?_⟩
    have different := nodup_iff_getElem?_ne_getElem?.mp distinct earlier index before
      (by simpa using inside)
    apply different
    rw [getElem?_map, getElem?_map, getElem?_eq_getElem inside,
      getElem?_eq_getElem (before.trans inside), Option.map_some, Option.map_some, clash, same]

variable {model}

theorem typeId_eq_some {name : TypeName} {id : TypeId} :
    model.typeId name = some id ↔ model.typeName id = some name := by
  have distinct : (model.types.map fun type => type).Nodup := by
    rw [map_id']
    exact model.types_nodup
  unfold typeId typeName
  constructor
  · intro found
    obtain ⟨index, position, rfl⟩ := Option.map_eq_some_iff.mp found
    obtain ⟨item, present, rfl⟩ := (findIdx?_key_eq_some distinct).mp position
    exact present
  · intro found
    rw [(findIdx?_key_eq_some distinct).mpr ⟨name, found, rfl⟩]
    rfl

theorem relationId_eq_some {objectType : TypeName} {name : RelationName} :
    model.relationId objectType name = some id ↔
      ∃ relation, model.relation id = some relation ∧ relation.name = name ∧
        model.typeName relation.objectType = some objectType := by
  unfold relationId
  rw [Option.bind_eq_some_iff]
  constructor
  · rintro ⟨type, typeFound, found⟩
    obtain ⟨index, position, rfl⟩ := Option.map_eq_some_iff.mp found
    obtain ⟨relation, present, same⟩ := (findIdx?_key_eq_some model.relations_nodup).mp position
    obtain ⟨rfl, rfl⟩ := Prod.mk.inj same
    exact ⟨relation, present, rfl, typeId_eq_some.mp typeFound⟩
  · rintro ⟨relation, present, rfl, typeFound⟩
    refine ⟨relation.objectType, typeId_eq_some.mpr typeFound, ?_⟩
    rw [(findIdx?_key_eq_some model.relations_nodup).mpr ⟨relation, present, rfl⟩]
    rfl

theorem conditionId_eq_some {name : ConditionName} {id : ConditionId} :
    model.conditionId name = some id ↔
      ∃ condition, model.condition id = some condition ∧ condition.name = name := by
  unfold conditionId condition
  constructor
  · intro found
    obtain ⟨index, position, rfl⟩ := Option.map_eq_some_iff.mp found
    exact (findIdx?_key_eq_some model.conditions_nodup).mp position
  · intro found
    rw [(findIdx?_key_eq_some model.conditions_nodup).mpr found]
    rfl

end Lookups

end CompiledModel

section Subterms

variable {nodes : List RewriteNode}

theorem childrenOf_outside : ∀ id ∉ nodeIds nodes, childrenOf nodes id = [] := by
  intro id outside
  have absent : nodes[id.index]? = none := by
    rw [getElem?_eq_none_iff]
    by_contra inside
    exact outside (mem_map.mpr ⟨id.index, mem_range.mpr (by omega), rfl⟩)
  simp [childrenOf, absent]

theorem child_visited {id child : NodeId} (member : id ∈ visitedNodes nodes root)
    {node : RewriteNode} (found : nodes[id.index]? = some node) (below : child ∈ node.children) :
    child ∈ visitedNodes nodes root := by
  apply Worklist.successor_mem_exploreAll (childrenOf nodes) childrenOf_outside root member
  simpa [childrenOf, found] using below

/-- Every subterm of a visited node's tree is the tree of a visited node. -/
theorem subterm_visited (precede : ChildrenPrecede nodes) {tree : Rewrite} :
    ∀ (bound : Nat) (id : NodeId), id.index < bound → id.index < nodes.length →
      id ∈ visitedNodes nodes root → tree.Subterm (rewriteTree nodes id) →
      ∃ inner ∈ visitedNodes nodes root, ∃ node, nodes[inner.index]? = some node ∧
        node.expand (rewriteTree nodes) = tree := by
  intro bound
  induction bound with
  | zero =>
    intro id below
    omega
  | succ bound ih =>
    intro id below inside member subterm
    obtain ⟨node, found⟩ : ∃ node, nodes[id.index]? = some node :=
      ⟨nodes[id.index], getElem?_eq_getElem inside⟩
    have descend : ∀ child ∈ node.children, tree.Subterm (rewriteTree nodes child) →
        ∃ inner ∈ visitedNodes nodes root, ∃ node, nodes[inner.index]? = some node ∧
          node.expand (rewriteTree nodes) = tree := by
      intro child operand inner
      have smaller := precede.child_lt found operand
      exact ih child (by omega) (by omega) (child_visited member found operand) inner
    rw [rewriteTree_eq precede found] at subterm
    have here : node.expand (rewriteTree nodes) = tree →
        ∃ inner ∈ visitedNodes nodes root, ∃ node, nodes[inner.index]? = some node ∧
          node.expand (rewriteTree nodes) = tree :=
      fun same => ⟨id, member, node, found, same⟩
    cases node with
    | direct | computed | tupleToUserset =>
      cases subterm
      exact here rfl
    | union children =>
      rcases subterm with _ | ⟨operand, inner⟩
      · exact here rfl
      · obtain ⟨child, childMember, rfl⟩ := mem_map.mp operand
        exact descend child childMember inner
    | intersection children =>
      rcases subterm with _ | _ | ⟨operand, inner⟩
      · exact here rfl
      · obtain ⟨child, childMember, rfl⟩ := mem_map.mp operand
        exact descend child childMember inner
    | difference base subtract =>
      rcases subterm with _ | _ | _ | inner | inner
      · exact here rfl
      · exact descend base (by simp [RewriteNode.children]) inner
      · exact descend subtract (by simp [RewriteNode.children]) inner

end Subterms

namespace CompiledModel

variable (model : CompiledModel)

/-- The rewrite of a relation as a tree. -/
def rewrite (id : RelationId) : Rewrite :=
  match model.relation id with
  | none => .union []
  | some relation => model.tree relation.root

variable {model}

section

variable {relation : CompiledRelation} (found : model.relation id = some relation)

include found

theorem rewrite_eq : model.rewrite id = model.tree relation.root := by
  simp only [rewrite, found]

theorem relation_mem : relation ∈ model.relations :=
  mem_of_getElem? found

/-- A subterm of a relation's rewrite is the tree of a node visited for the relation. -/
theorem subterm_node {tree : Rewrite} (subterm : tree.Subterm (model.rewrite id)) :
    ∃ inner ∈ visitedNodes model.nodes relation.root, ∃ node,
      model.nodes[inner.index]? = some node ∧ node.expand model.tree = tree := by
  have inside := (model.relations_valid relation (relation_mem found)).2
  rw [rewrite_eq found] at subterm
  exact subterm_visited model.children_precede (relation.root.index + 1) relation.root (by omega)
    inside (Worklist.start_mem_exploreAll _ childrenOf_outside _) subterm

end

/-- A difference in a rewrite comes from a difference in the arena. -/
theorem difference_mem_nodes {source : RelationId} {base subtract : Rewrite}
    (below : (Rewrite.difference base subtract).Subterm (model.rewrite source)) :
    ∃ first second, RewriteNode.difference first second ∈ model.nodes := by
  cases found : model.relation source with
  | none =>
    simp only [rewrite, found] at below
    cases below with
    | union member _ => simp at member
  | some relation =>
    obtain ⟨inner, -, node, content, expanded⟩ := subterm_node found below
    cases node with
    | difference first second => exact ⟨first, second, mem_of_getElem? content⟩
    | direct | computed | tupleToUserset | union | intersection => cases expanded

section

variable {relation : CompiledRelation} (found : model.relation id = some relation)
  (visited : inner ∈ visitedNodes model.nodes relation.root) {node : RewriteNode}
  (content : model.nodes[inner.index]? = some node)

include found visited content

/-- A node visited for a relation stays within the relation's object type. -/
theorem visited_scoped : NodeScoped model.relations model.nodes id relation.objectType node :=
  model.nodes_scoped (relation, id.index) (mem_zipIdx_iff_getElem?.mpr found) inner visited
    node content

/-- What a visited node refers to is in the final tables of the relation. -/
theorem visited_recorded : Recorded model.relations id.index model.graph node := by
  rw [model.graph_eq]
  exact (linkRelations_records found visited content).grows
    (linkRelations_grows_build model.relations model.nodes)

end

end CompiledModel

end OpenFga
