import ScriptTree.Proofs.Schema

/-!
# Paths down a tree

A path goes from a node to a child, to a child of that, and so on. Some edges take a level of
nesting: the grammar opens a level for each of them. Others are links of a chain, of which a loop of
the grammar takes up one after the other, so they take no level however many there are. A `Tariff`
puts a price on the edges that are no links, and `Node.cost` is the price of the dearest path.

Main statement: `Node.IsPath.total_le`, no path is dearer than the cost of the node it starts from.
-/

namespace ScriptTree

namespace Node

def isCreation : Node → Bool
  | newExpression .. => true
  | _ => false

end Node

/-- A way from a node to one of its children. -/
structure Edge where
  parent : Node
  /-- Whether the parent is what a class extends, or an object of which that is a member. -/
  heritage : Bool
  field : String
  child : Node

namespace Edge

/-- Whether an edge takes a level of nesting: it leads into a statement, to the operand of an operator
in front of it, into brackets or to the expression that an arrow function gives back, to the value of
an assignment, to the right side of a power, or from one `new` to the next. -/
@[simp]
def takesLevel (edge : Edge) : Bool :=
  match edge.parent with
  | .program _ | .blockStatement _ | .whileStatement .. | .doWhileStatement .. =>
    edge.field == "body"
  | .ifStatement .. => edge.field == "consequent" || edge.field == "alternate"
  | .unaryExpression .. | .awaitExpression _ => edge.field == "argument"
  | .updateExpression _ leading _ => leading && edge.field == "argument"
  | .parenthesizedExpression _ => edge.field == "body"
  | .arrayLiteral _ => edge.field == "elements"
  | .objectLiteral _ => edge.field == "properties"
  | .templateLiteral .. => edge.field == "expressions"
  | .callExpression .. | .optionalCallExpression .. => edge.field == "arguments"
  | .newExpression .. =>
    edge.field == "arguments" || (edge.field == "callee" && edge.child.isCreation)
  | .memberExpression _ _ computed | .optionalMemberExpression _ _ computed _ =>
    computed && !edge.heritage && edge.field == "property"
  | .arrowFunctionExpression .. => edge.field == "body" && !edge.child.isBlock
  | .assignmentExpression .. | .complexAssignmentExpression .. => edge.field == "value"
  | .binaryExpression _ operator _ => operator == .pow && edge.field == "right"
  | _ => false

/-- Whether an edge is a link of a chain: it leads to the left side of an operator that groups to the
left, or to what a member is accessed of or a call is made of. -/
@[simp]
def isLink (edge : Edge) : Bool :=
  match edge.parent with
  | .binaryExpression _ operator _ => operator != .pow && edge.field == "left"
  | .logicalExpression .. => edge.field == "left"
  | .memberExpression .. | .optionalMemberExpression .. => edge.field == "object"
  | .callExpression .. | .optionalCallExpression .. => edge.field == "callee"
  | _ => false

/-- Whether the child is what a class extends, or an object of which that is a member. -/
@[simp]
def inHeritage (edge : Edge) : Bool :=
  match edge.parent with
  | .classDeclaration .. => edge.field == "superClass"
  | .memberExpression .. => edge.heritage && edge.field == "object"
  | _ => false

/-- No edge takes a level as a link of a chain. -/
lemma takesLevel_of_isLink {edge : Edge} (h : edge.isLink = true) : edge.takesLevel = false := by
  obtain ⟨parent, heritage, field, child⟩ := edge
  cases parent <;> simp_all

end Edge

namespace Node

/-- The ways from a node to its children, for a node that may itself belong to what a class
extends. -/
def edges (heritage : Bool) (node : Node) : List Edge :=
  node.fields.flatMap fun field => field.2.nodes.map fun child => ⟨node, heritage, field.1, child⟩

/-- The edges of a path down from a node. -/
inductive IsPath : Bool → Node → List Edge → Prop where
  | nil {heritage : Bool} {node : Node} : IsPath heritage node []
  | cons {heritage : Bool} {node : Node} {edge : Edge} {path : List Edge}
      (hedge : edge ∈ node.edges heritage) (h : IsPath edge.inHeritage edge.child path) :
      IsPath heritage node (edge :: path)

/-- The path through the first children in fields of given names, as far as there are such fields. -/
def follow (heritage : Bool) (node : Node) : List String → List Edge
  | [] => []
  | name :: names =>
    match (node.edges heritage).find? (·.field == name) with
    | some edge => edge :: edge.child.follow edge.inHeritage names
    | none => []

lemma isPath_follow (heritage : Bool) (node : Node) (names : List String) :
    node.IsPath heritage (node.follow heritage names) := by
  induction names generalizing heritage node with
  | nil => exact .nil
  | cons name names ih =>
    rw [follow]
    split
    next edge hedge => exact .cons (List.mem_of_find?_eq_some hedge) (ih _ _)
    next => exact .nil

/-- The number of edges on the longest path from a node. -/
def height : Node → Nat :=
  fold fun _ fields => ((fields.flatMap (·.2.nodes)).map (· + 1)).foldr max 0

end Node

/-- What edges cost that are no links of a chain. -/
structure Tariff where
  /-- The price of an edge that takes a level. -/
  level : Nat
  /-- The price of any other edge. -/
  plain : Nat

namespace Tariff

@[simp]
def price (t : Tariff) (edge : Edge) : Nat :=
  if edge.isLink then 0 else if edge.takesLevel then t.level else t.plain

/-- The price of a path. -/
def total (t : Tariff) (path : List Edge) : Nat :=
  path.foldr (fun edge price => t.price edge + price) 0

/-- Where some edges cost one and the others nothing, the price of a path is the number of these. -/
lemma total_eq_countP {t : Tariff} {counts : Edge → Bool}
    (h : ∀ edge, t.price edge = if counts edge then 1 else 0) (path : List Edge) :
    t.total path = path.countP counts := by
  induction path with
  | nil => rfl
  | cons edge path ih =>
    rw [total] at ih
    rw [total, List.foldr_cons, List.countP_cons, h, ih, Nat.add_comm]

end Tariff

lemma Field.nodes_map {α β : Type} (f : α → β) (field : Field α) :
    (field.map f).nodes = field.nodes.map f := by
  cases field with
  | optional node => cases node <;> rfl
  | nullable node => cases node <;> rfl
  | _ => rfl

namespace Node

/-- A node, with the price of the dearest path from it: in what a class extends, or elsewhere. -/
def priced (t : Tariff) : Node → Node × (Bool → Nat) :=
  fold fun node fields => (node, fun heritage =>
    (fields.flatMap fun field => field.2.nodes.map fun child =>
      let edge : Edge := ⟨node, heritage, field.1, child.1⟩
      t.price edge + child.2 edge.inHeritage).foldr max 0)

/-- The price of the dearest path from a node. -/
def cost (t : Tariff) (heritage : Bool) (node : Node) : Nat :=
  (node.priced t).2 heritage

lemma priced_fst (t : Tariff) (node : Node) : (node.priced t).1 = node := by
  rw [priced, fold_eq]

lemma priced_eq (t : Tariff) (node : Node) :
    node.priced t = (node, fun heritage => node.cost t heritage) := by
  conv_lhs => rw [← Prod.eta (node.priced t), priced_fst]
  rfl

lemma cost_eq (t : Tariff) (heritage : Bool) (node : Node) :
    node.cost t heritage = ((node.edges heritage).map fun edge =>
      t.price edge + edge.child.cost t edge.inHeritage).foldr max 0 := by
  rw [cost, priced, fold_eq, ← priced]
  simp only [List.flatMap_map, Field.nodes_map, List.map_map, edges, List.map_flatMap,
    Function.comp_def, priced_eq]

lemma foldr_max_le {l : List Nat} {k : Nat} : l.foldr max 0 ≤ k ↔ ∀ n ∈ l, n ≤ k := by
  induction l with
  | nil => simp
  | cons n l ih => rw [List.foldr_cons, Nat.max_le, ih, List.forall_mem_cons]

lemma height_eq (node : Node) :
    node.height = (node.children.map fun child => child.height + 1).foldr max 0 := by
  rw [height, fold_eq, ← height]
  simp only [List.flatMap_map, Field.nodes_map, ← List.map_flatMap, List.map_map, children]
  rfl

lemma height_lt_of_mem {node child : Node} (h : child ∈ node.children) :
    child.height < node.height := by
  have hle := Nat.le_refl node.height
  rw [height_eq, foldr_max_le, ← height_eq, List.forall_mem_map] at hle
  exact hle child h

/-- An edge with what stands below it costs no more than the node it leads from. -/
lemma le_cost {t : Tariff} {heritage : Bool} {node : Node} {edge : Edge}
    (h : edge ∈ node.edges heritage) :
    t.price edge + edge.child.cost t edge.inHeritage ≤ node.cost t heritage := by
  have hle := Nat.le_refl (node.cost t heritage)
  rw [cost_eq, foldr_max_le, ← cost_eq] at hle
  exact hle _ (List.mem_map_of_mem h)

/-- A node costs no more than allowed if none of its edges does, with what stands below it. -/
lemma cost_le_iff {t : Tariff} {heritage : Bool} {node : Node} {k : Nat} :
    node.cost t heritage ≤ k ↔ ∀ field ∈ node.fields, ∀ child ∈ field.2.nodes,
      t.price ⟨node, heritage, field.1, child⟩ +
        child.cost t (Edge.inHeritage ⟨node, heritage, field.1, child⟩) ≤ k := by
  rw [cost_eq, foldr_max_le, List.forall_mem_map]
  simp only [edges, List.forall_mem_flatMap, List.forall_mem_map]

/-- No path is dearer than the dearest one. -/
theorem IsPath.total_le {t : Tariff} {heritage : Bool} {node : Node} {path : List Edge}
    (h : IsPath heritage node path) : t.total path ≤ node.cost t heritage := by
  induction h with
  | nil => exact Nat.zero_le _
  | @cons heritage node edge path hedge _ ih =>
    rw [Tariff.total, List.foldr_cons]
    exact (Nat.add_le_add_left ih _).trans (le_cost hedge)

end Node

end ScriptTree
