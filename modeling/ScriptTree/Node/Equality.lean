import ScriptTree.Node.Fields

/-!
# Equality of trees

Two trees are the same if their roots have the same type and the same fields, and their children are
the same.
-/

namespace ScriptTree

/-- Whether all tests in a row accept the values beside them, of which there are as many. -/
def acceptAll {α : Type} : List (α → Bool) → List α → Bool
  | [], [] => true
  | test :: tests, value :: values => test value && acceptAll tests values
  | _, _ => false

namespace Field

/-- Whether a field that holds tests in place of nodes accepts another field. -/
def accepts : Field (Node → Bool) → Field Node → Bool
  | flag a, flag b => a == b
  | text a, text b => a == b
  | number a, number b => a == b
  | child test, child node => test node
  | children tests, children nodes => acceptAll tests nodes
  | optional test, optional node => acceptAll test.toList node.toList
  | nullable test, nullable node => acceptAll test.toList node.toList
  | _, _ => false

end Field

namespace Node

/-- Whether two trees are the same. -/
def same : Node → Node → Bool :=
  fold fun node fields other =>
    node.typeName == other.typeName &&
      acceptAll (fields.map fun field found => field.1 == found.1 && field.2.accepts found.2)
        other.fields

end Node

end ScriptTree
