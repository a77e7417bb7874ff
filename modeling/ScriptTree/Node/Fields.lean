import ScriptTree.Node.Basic

/-!
# Fields of nodes

`Node.fields` is the schema of the tree: the named fields of each type of node, in order. What is
computed from a whole tree goes through it: `Node.fold` replaces every child by its own result.

Main statement: `Node.fold_eq`, the result at a node is made from the results at its children.
-/

namespace ScriptTree

/-- What a field of a node holds, with `α` in place of nodes. -/
inductive Field (α : Type) where
  | flag (value : Bool)
  | text (value : String)
  | number (value : Binary64)
  | child (node : α)
  | children (nodes : List α)
  /-- A child that may be missing; then the field is left out. -/
  | optional (node : Option α)
  /-- A child that may be missing; then the field is kept and is null. -/
  | nullable (node : Option α)

namespace Field

/-- The nodes that a field holds, in order. -/
def nodes {α : Type} : Field α → List α
  | child node => [node]
  | children nodes => nodes
  | optional node | nullable node => node.toList
  | flag _ | text _ | number _ => []

/-- Applies a function to the nodes that a field holds. -/
def map {α β : Type} (f : α → β) : Field α → Field β
  | flag value => flag value
  | text value => text value
  | number value => number value
  | child node => child (f node)
  | children nodes => children (nodes.map f)
  | optional node => optional (node.map f)
  | nullable node => nullable (node.map f)

/-- Applies a function that may use where its argument comes from. -/
def mapNodes {α β : Type} : (field : Field α) → ((node : α) → node ∈ field.nodes → β) → Field β
  | flag value, _ => flag value
  | text value, _ => text value
  | number value, _ => number value
  | child node, f => child (f node (by simp [nodes]))
  | children nodes, f => children (nodes.attach.map fun node => f node.1 node.2)
  | optional none, _ => optional none
  | optional (some node), f => optional (some (f node (by simp [nodes])))
  | nullable none, _ => nullable none
  | nullable (some node), f => nullable (some (f node (by simp [nodes])))

theorem mapNodes_eq_map {α β : Type} (f : α → β) (field : Field α) :
    (field.mapNodes fun node _ => f node) = field.map f := by
  cases field with
  | optional node => cases node <;> simp [mapNodes, map]
  | nullable node => cases node <;> simp [mapNodes, map]
  | _ => simp [mapNodes, map]

end Field

namespace Node

/-- The fields of a node with their names, in order. -/
def fields : Node → List (String × Field Node)
  | program body => [("body", .children body)]
  | numericLiteral value => [("value", .number value)]
  | bigIntLiteral digits => [("value", .text digits)]
  | stringLiteral value => [("value", .text value)]
  | regExpLiteral pattern flags => [("pattern", .text pattern), ("flags", .text flags)]
  | booleanLiteral value => [("value", .flag value)]
  | nullLiteral => []
  | undefinedLiteral => []
  | templateLiteral expressions quasis =>
    [("expressions", .children expressions), ("quasis", .children quasis)]
  | templateElement value => [("value", .text value)]
  | arrayLiteral elements => [("elements", .children elements)]
  | objectLiteral properties => [("properties", .children properties)]
  | property key value computed method =>
    [("key", .child key), ("value", .child value), ("computed", .flag computed),
     ("method", .flag method)]
  | identifier name => [("name", .text name)]
  | thisExpression => []
  | privateName id => [("id", .child id)]
  | binaryExpression left operator right =>
    [("left", .child left), ("operator", .text operator.text), ("right", .child right)]
  | logicalExpression left operator right =>
    [("left", .child left), ("operator", .text operator.text), ("right", .child right)]
  | unaryExpression operator argument =>
    [("operator", .text operator.text), ("argument", .child argument)]
  | updateExpression operator leading argument =>
    [("operator", .text operator.text), ("prefix", .flag leading), ("argument", .child argument)]
  | awaitExpression argument => [("argument", .child argument)]
  | yieldExpression argument => [("argument", .optional argument)]
  | assignmentExpression id operator value =>
    [("id", .child id), ("operator", .text operator.text), ("value", .child value)]
  | complexAssignmentExpression id operator value =>
    [("id", .child id), ("operator", .text operator.text), ("value", .child value)]
  | assignmentPattern left right => [("left", .child left), ("right", .child right)]
  | sequenceExpression expressions => [("expressions", .children expressions)]
  | parenthesizedExpression body => [("body", .child body)]
  | memberExpression object member computed =>
    [("object", .child object), ("property", .child member), ("computed", .flag computed)]
  | optionalMemberExpression object member computed optional =>
    [("object", .child object), ("property", .child member), ("computed", .flag computed),
     ("optional", .flag optional)]
  | callExpression callee arguments =>
    [("callee", .child callee), ("arguments", .children arguments)]
  | optionalCallExpression callee arguments optional =>
    [("callee", .child callee), ("arguments", .children arguments), ("optional", .flag optional)]
  | newExpression callee arguments =>
    [("callee", .child callee), ("arguments", .children arguments)]
  | arrowFunctionExpression generator isAsync params body =>
    [("generator", .flag generator), ("async", .flag isAsync), ("params", .children params),
     ("body", .child body)]
  | functionExpression id generator isAsync params body =>
    [("id", .optional id), ("generator", .flag generator), ("async", .flag isAsync),
     ("params", .children params), ("body", .child body)]
  | functionDeclaration id generator isAsync params body =>
    [("id", .child id), ("generator", .flag generator), ("async", .flag isAsync),
     ("params", .children params), ("body", .child body)]
  | variableDeclaration id value kind =>
    [("id", .child id), ("value", .optional value), ("kind", .text kind.text)]
  | blockStatement body => [("body", .children body)]
  | ifStatement test consequent alternate =>
    [("test", .child test), ("consequent", .child consequent), ("alternate", .optional alternate)]
  | forStatement init test update body =>
    [("init", .nullable init), ("test", .nullable test), ("update", .nullable update),
     ("body", .child body)]
  | forOfStatement left right body =>
    [("left", .child left), ("right", .child right), ("body", .child body)]
  | whileStatement test body => [("test", .child test), ("body", .child body)]
  | doWhileStatement body test => [("body", .child body), ("test", .child test)]
  | continueStatement => []
  | breakStatement => []
  | returnStatement argument => [("argument", .optional argument)]
  | throwStatement argument => [("argument", .child argument)]
  | tryStatement block handler finalizer =>
    [("block", .child block), ("handler", .optional handler), ("finalizer", .optional finalizer)]
  | catchClause param body => [("param", .optional param), ("body", .child body)]
  | classDeclaration id superClass body =>
    [("id", .child id), ("superClass", .optional superClass), ("body", .child body)]
  | classBody body => [("body", .children body)]
  | classProperty key value isStatic =>
    [("key", .child key), ("value", .optional value), ("static", .flag isStatic)]
  | classPrivateProperty key value isStatic =>
    [("key", .child key), ("value", .optional value), ("static", .flag isStatic)]
  | classMethodDefinition key isStatic kind value =>
    [("key", .child key), ("static", .flag isStatic), ("kind", .text kind.text),
     ("value", .child value)]

/-- The children of a node, field by field. -/
def children (node : Node) : List Node :=
  node.fields.flatMap (·.2.nodes)

theorem sizeOf_lt_of_mem {child : Node} {nodes : List Node} (h : child ∈ nodes) :
    sizeOf child < sizeOf nodes :=
  List.sizeOf_lt_of_mem h

/-- A node is larger than what its fields hold. -/
theorem sizeOf_lt_of_mem_fields {node child : Node} {field : String × Field Node}
    (hfield : field ∈ node.fields) (hchild : child ∈ field.2.nodes) :
    sizeOf child < sizeOf node := by
  revert child field
  cases node <;> simp [fields, Field.nodes] <;> grind [→ sizeOf_lt_of_mem]

/-- Works a tree up from its leaves: `step` gets a node, and its fields with every child replaced by
the result there. -/
def fold {β : Type} (step : Node → List (String × Field β) → β) (node : Node) : β :=
  step node (node.fields.attach.map fun ⟨(name, field), hfield⟩ =>
    (name, field.mapNodes fun child hchild =>
      have := sizeOf_lt_of_mem_fields hfield hchild
      child.fold step))
termination_by sizeOf node

theorem fold_eq {β : Type} (step : Node → List (String × Field β) → β) (node : Node) :
    node.fold step = step node (node.fields.map fun f => (f.1, f.2.map (fold step))) := by
  rw [fold]
  simp only [Field.mapNodes_eq_map]
  exact congrArg (step node)
    (List.attach_map_val (f := fun f : String × Field Node => (f.1, f.2.map (fold step))))

end Node

end ScriptTree
