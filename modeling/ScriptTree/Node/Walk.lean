import ScriptTree.Node.Fields

/-!
# Walks

The nodes of a tree from the root down, each before its children, with their distance to the root.
-/

namespace ScriptTree

namespace Node

/-- The nodes below a node and the node itself, when it stands at a depth. -/
def walkFrom : Node → Nat → List (Nat × Node) :=
  fold fun node fields depth =>
    (depth, node) :: fields.flatMap fun field => field.2.nodes.flatMap fun walk => walk (depth + 1)

/-- All nodes of a tree with their depths. -/
def walk (root : Node) : List (Nat × Node) :=
  root.walkFrom 0

end Node

end ScriptTree
