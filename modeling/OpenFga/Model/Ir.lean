import OpenFga.Domain.Reference

/-!
# Compiled model representation

Dense identifiers, direct type restrictions and the rewrite-node arena. A node
refers to its children by identifier; equal subtrees of the source rewrites share
one node, so the arena is an acyclic graph in which every child precedes its
parents. `Rewrite` is the tree such a node stands for.
-/

namespace OpenFga

variable {nodes : List RewriteNode} {node : RewriteNode}

/-- A model-local dense object-type identifier. -/
structure TypeId where
  index : Nat
  deriving DecidableEq, Repr

/-- A model-local dense relation identifier. -/
structure RelationId where
  index : Nat
  deriving DecidableEq, Repr

/-- A model-local dense condition identifier. -/
structure ConditionId where
  index : Nat
  deriving DecidableEq, Repr

/-- A model-local dense rewrite-node identifier. -/
structure NodeId where
  index : Nat
  deriving DecidableEq, Repr

/-- Whether a restriction demands a condition on its tuples. -/
inductive ConditionRequirement where
  | unconditional
  | required (condition : ConditionId)
  deriving DecidableEq, Repr

/-- The kind of subject a restriction admits. -/
inductive RestrictionKind where
  | object
  | userset (relation : RelationId)
  | wildcard
  deriving DecidableEq, Repr

/-- One directly related subject type of a relation. -/
structure DirectRestriction where
  subjectType : TypeId
  kind : RestrictionKind
  condition : ConditionRequirement
  deriving DecidableEq, Repr

/-- One node of the rewrite arena. -/
inductive RewriteNode where
  | direct (owner : RelationId)
  | computed (target : RelationId)
  | tupleToUserset (tupleset : RelationId) (computed : RelationName) (targets : List RelationId)
  | union (children : List NodeId)
  | intersection (children : List NodeId)
  | difference (base subtract : NodeId)
  deriving DecidableEq, Repr

/-- A compiled relation. Its position in the model is its identifier. -/
structure CompiledRelation where
  objectType : TypeId
  name : RelationName
  root : NodeId
  restrictions : List DirectRestriction
  deriving DecidableEq, Repr

/-- The nodes a node refers to, in operand order. -/
def RewriteNode.children : RewriteNode → List NodeId
  | .union children => children
  | .intersection children => children
  | .difference base subtract => [base, subtract]
  | _ => []

/-- The rewrite tree a node stands for. -/
inductive Rewrite where
  | direct (owner : RelationId)
  | computed (target : RelationId)
  | tupleToUserset (tupleset : RelationId) (targets : List RelationId)
  | union (children : List Rewrite)
  | intersection (children : List Rewrite)
  | difference (base subtract : Rewrite)

namespace Rewrite

/-- Induction over rewrite trees, with one hypothesis for all operands of a list. -/
@[elab_as_elim, induction_eliminator]
theorem induction {motive : Rewrite → Prop} (direct : ∀ owner, motive (.direct owner))
    (computed : ∀ target, motive (.computed target))
    (tupleToUserset : ∀ tupleset targets, motive (.tupleToUserset tupleset targets))
    (union : ∀ children, (∀ child ∈ children, motive child) → motive (.union children))
    (intersection : ∀ children, (∀ child ∈ children, motive child) →
      motive (.intersection children))
    (difference : ∀ base subtract, motive base → motive subtract →
      motive (.difference base subtract))
    (tree : Rewrite) : motive tree :=
  @Rewrite.rec motive (fun children => ∀ child ∈ children, motive child) direct computed
    tupleToUserset union intersection difference (by simp)
    (fun _ _ head rest => List.forall_mem_cons.mpr ⟨head, rest⟩) tree

/-- The subterms of a rewrite tree, itself included. -/
inductive Subterm : Rewrite → Rewrite → Prop where
  | refl (tree : Rewrite) : Subterm tree tree
  | union {child tree : Rewrite} {children : List Rewrite} (member : child ∈ children)
      (inner : Subterm tree child) : Subterm tree (.union children)
  | intersection {child tree : Rewrite} {children : List Rewrite} (member : child ∈ children)
      (inner : Subterm tree child) : Subterm tree (.intersection children)
  | base {base subtract tree : Rewrite} (inner : Subterm tree base) :
      Subterm tree (.difference base subtract)
  | subtract {base subtract tree : Rewrite} (inner : Subterm tree subtract) :
      Subterm tree (.difference base subtract)

theorem Subterm.trans {first second third : Rewrite} (left : Subterm first second)
    (right : Subterm second third) : Subterm first third := by
  induction right with
  | refl => exact left
  | union member _ ih => exact .union member (ih left)
  | intersection member _ ih => exact .intersection member (ih left)
  | base _ ih => exact .base (ih left)
  | subtract _ ih => exact .subtract (ih left)

end Rewrite

/-- One node as a tree, given the trees of its children. -/
def RewriteNode.expand (child : NodeId → Rewrite) : RewriteNode → Rewrite
  | .direct owner => .direct owner
  | .computed target => .computed target
  | .tupleToUserset tupleset _ targets => .tupleToUserset tupleset targets
  | .union children => .union (children.map child)
  | .intersection children => .intersection (children.map child)
  | .difference base subtract => .difference (child base) (child subtract)

/-- Reads the tree below a node; the fuel bounds the height. A node outside the
arena reads as the empty union. -/
def unfoldNode (nodes : List RewriteNode) : Nat → NodeId → Rewrite
  | 0, _ => .union []
  | fuel + 1, id =>
      match nodes[id.index]? with
      | none => .union []
      | some node => node.expand (unfoldNode nodes fuel)

/-- The tree of a node in an arena whose children precede their parents. -/
def rewriteTree (nodes : List RewriteNode) (id : NodeId) : Rewrite :=
  unfoldNode nodes (id.index + 1) id

/-- Every child of every node stands before it. -/
def ChildrenPrecede (nodes : List RewriteNode) : Prop :=
  ∀ entry ∈ nodes.zipIdx, ∀ child ∈ entry.1.children, child.index < entry.2

instance (nodes : List RewriteNode) : Decidable (ChildrenPrecede nodes) :=
  inferInstanceAs (Decidable (∀ entry ∈ nodes.zipIdx, ∀ child ∈ entry.1.children,
    child.index < entry.2))

theorem ChildrenPrecede.child_lt (precede : ChildrenPrecede nodes) {id child : NodeId}
    (found : nodes[id.index]? = some node) (member : child ∈ node.children) :
    child.index < id.index := by
  have entry : (node, id.index) ∈ nodes.zipIdx := by
    rw [List.mem_zipIdx_iff_getElem?]
    exact found
  exact precede _ entry child member

theorem RewriteNode.expand_congr {first second : NodeId → Rewrite}
    (same : ∀ child ∈ node.children, first child = second child) :
    node.expand first = node.expand second := by
  cases node with
  | direct | computed | tupleToUserset => rfl
  | union children | intersection children =>
    have mapped : children.map first = children.map second := List.map_congr_left same
    simp only [expand, mapped]
  | difference base subtract =>
    simp only [expand]
    rw [same base (by simp [children]), same subtract (by simp [children])]

/-- Fuel beyond the height of a node does not change its tree. -/
theorem unfoldNode_congr (precede : ChildrenPrecede nodes) (fuel : Nat) :
    ∀ (fuel' : Nat) (id : NodeId), id.index < fuel → id.index < fuel' →
      unfoldNode nodes fuel id = unfoldNode nodes fuel' id := by
  induction fuel with
  | zero =>
    intro fuel' id bound
    omega
  | succ depth ih =>
    intro fuel' id bound bound'
    obtain ⟨depth', rfl⟩ : ∃ depth', fuel' = depth' + 1 := ⟨fuel' - 1, by omega⟩
    cases found : nodes[id.index]? with
    | none => simp only [unfoldNode, found]
    | some node =>
      simp only [unfoldNode, found]
      apply RewriteNode.expand_congr
      intro child member
      have below := precede.child_lt found member
      exact ih depth' child (by omega) (by omega)

/-- A node's tree is built from the trees of its children. -/
theorem rewriteTree_eq (precede : ChildrenPrecede nodes) {id : NodeId}
    (found : nodes[id.index]? = some node) :
    rewriteTree nodes id = node.expand (rewriteTree nodes) := by
  have unfolded : rewriteTree nodes id = node.expand (unfoldNode nodes id.index) := by
    simp only [rewriteTree, unfoldNode, found]
  rw [unfolded]
  apply RewriteNode.expand_congr
  intro child member
  exact unfoldNode_congr precede _ _ child (precede.child_lt found member) (by omega)

end OpenFga
