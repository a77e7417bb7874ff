import ScriptTree.Node.Json
import ScriptTree.Proofs.Atoms
import ScriptTree.Proofs.JsonReader
import ScriptTree.Proofs.Levels

/-!
# Trees read back from JSON

A tree is found again in the value that it is written as, by the types and the names of the fields
alone. So no two accepted trees have the same text.

Main statement: `json_reads_back`.
-/

namespace ScriptTree

/-- The method kind that a word spells. -/
def MethodKind.ofText? (text : String) : Option MethodKind :=
  [constructor, method].find? (·.text = text)

/-- What a member holds, with the nodes in it read already. -/
inductive Part where
  | null
  | flag (value : Bool)
  | text (value : String)
  | number (value : ℚ)
  | node (node : Option Node)
  | nodes (nodes : List (Option Node))

/-- The members of an object. -/
abbrev Parts := List (String × Part)

namespace Parts

variable (parts : Parts) (name : String)

def flag? : Option Bool :=
  match parts.lookup name with
  | some (.flag value) => some value
  | _ => none

def text? : Option String :=
  match parts.lookup name with
  | some (.text value) => some value
  | _ => none

/-- A text that spells one of a closed set. -/
def word? {α : Type} (spell : String → Option α) : Option α := do
  spell (← parts.text? name)

/-- A number that is left open has grown beyond all bounds. -/
def number? : Option Binary64 :=
  match parts.lookup name with
  | some .null => some .infinite
  | some (.number q) => if 0 ≤ q then some (.nearest q) else none
  | _ => none

def child? : Option Node :=
  match parts.lookup name with
  | some (.node node) => node
  | _ => none

def children? : Option (List Node) :=
  match parts.lookup name with
  | some (.nodes nodes) => nodes.mapM id
  | _ => none

/-- A child whose member may be missing. -/
def optional? : Option (Option Node) :=
  match parts.lookup name with
  | none => some none
  | some (.node node) => node.map some
  | _ => none

/-- A child whose member may be null. -/
def nullable? : Option (Option Node) :=
  match parts.lookup name with
  | some .null => some none
  | some (.node node) => node.map some
  | _ => none

/-- How the nodes of each type are put together from their fields. -/
def readers : List (String × (Parts → Option Node)) := [
  ("Program", fun parts => return .program (← parts.children? "body")),
  ("NumericLiteral", fun parts => return .numericLiteral (← parts.number? "value")),
  ("BigIntLiteral", fun parts => return .bigIntLiteral (← parts.text? "value")),
  ("StringLiteral", fun parts => return .stringLiteral (← parts.text? "value")),
  ("RegExpLiteral", fun parts =>
    return .regExpLiteral (← parts.text? "pattern") (← parts.text? "flags")),
  ("BooleanLiteral", fun parts => return .booleanLiteral (← parts.flag? "value")),
  ("NullLiteral", fun _ => return .nullLiteral),
  ("UndefinedLiteral", fun _ => return .undefinedLiteral),
  ("TemplateLiteral", fun parts =>
    return .templateLiteral (← parts.children? "expressions") (← parts.children? "quasis")),
  ("TemplateElement", fun parts => return .templateElement (← parts.text? "value")),
  ("ArrayLiteral", fun parts => return .arrayLiteral (← parts.children? "elements")),
  ("ObjectLiteral", fun parts => return .objectLiteral (← parts.children? "properties")),
  ("Property", fun parts =>
    return .property (← parts.child? "key") (← parts.child? "value") (← parts.flag? "computed")
      (← parts.flag? "method")),
  ("Identifier", fun parts => return .identifier (← parts.text? "name")),
  ("ThisExpression", fun _ => return .thisExpression),
  ("PrivateName", fun parts => return .privateName (← parts.child? "id")),
  ("BinaryExpression", fun parts =>
    return .binaryExpression (← parts.child? "left")
      (← parts.word? "operator" BinaryOperator.ofText?) (← parts.child? "right")),
  ("LogicalExpression", fun parts =>
    return .logicalExpression (← parts.child? "left")
      (← parts.word? "operator" LogicalOperator.ofText?) (← parts.child? "right")),
  ("UnaryExpression", fun parts =>
    return .unaryExpression (← parts.word? "operator" UnaryOperator.ofText?)
      (← parts.child? "argument")),
  ("UpdateExpression", fun parts =>
    return .updateExpression (← parts.word? "operator" UpdateOperator.ofText?)
      (← parts.flag? "prefix") (← parts.child? "argument")),
  ("AwaitExpression", fun parts => return .awaitExpression (← parts.child? "argument")),
  ("YieldExpression", fun parts => return .yieldExpression (← parts.optional? "argument")),
  ("AssignmentExpression", fun parts =>
    return .assignmentExpression (← parts.child? "id")
      (← parts.word? "operator" AssignmentOperator.ofText?) (← parts.child? "value")),
  ("ComplexAssignmentExpression", fun parts =>
    return .complexAssignmentExpression (← parts.child? "id")
      (← parts.word? "operator" AssignmentOperator.ofText?) (← parts.child? "value")),
  ("AssignmentPattern", fun parts =>
    return .assignmentPattern (← parts.child? "left") (← parts.child? "right")),
  ("SequenceExpression", fun parts => return .sequenceExpression (← parts.children? "expressions")),
  ("ParenthesizedExpression", fun parts => return .parenthesizedExpression (← parts.child? "body")),
  ("MemberExpression", fun parts =>
    return .memberExpression (← parts.child? "object") (← parts.child? "property")
      (← parts.flag? "computed")),
  ("OptionalMemberExpression", fun parts =>
    return .optionalMemberExpression (← parts.child? "object") (← parts.child? "property")
      (← parts.flag? "computed") (← parts.flag? "optional")),
  ("CallExpression", fun parts =>
    return .callExpression (← parts.child? "callee") (← parts.children? "arguments")),
  ("OptionalCallExpression", fun parts =>
    return .optionalCallExpression (← parts.child? "callee") (← parts.children? "arguments")
      (← parts.flag? "optional")),
  ("NewExpression", fun parts =>
    return .newExpression (← parts.child? "callee") (← parts.children? "arguments")),
  ("ArrowFunctionExpression", fun parts =>
    return .arrowFunctionExpression (← parts.flag? "generator") (← parts.flag? "async")
      (← parts.children? "params") (← parts.child? "body")),
  ("FunctionExpression", fun parts =>
    return .functionExpression (← parts.optional? "id") (← parts.flag? "generator")
      (← parts.flag? "async") (← parts.children? "params") (← parts.child? "body")),
  ("FunctionDeclaration", fun parts =>
    return .functionDeclaration (← parts.child? "id") (← parts.flag? "generator")
      (← parts.flag? "async") (← parts.children? "params") (← parts.child? "body")),
  ("VariableDeclaration", fun parts =>
    return .variableDeclaration (← parts.child? "id") (← parts.optional? "value")
      (← parts.word? "kind" VariableKind.ofText?)),
  ("BlockStatement", fun parts => return .blockStatement (← parts.children? "body")),
  ("IfStatement", fun parts =>
    return .ifStatement (← parts.child? "test") (← parts.child? "consequent")
      (← parts.optional? "alternate")),
  ("ForStatement", fun parts =>
    return .forStatement (← parts.nullable? "init") (← parts.nullable? "test")
      (← parts.nullable? "update") (← parts.child? "body")),
  ("ForOfStatement", fun parts =>
    return .forOfStatement (← parts.child? "left") (← parts.child? "right")
      (← parts.child? "body")),
  ("WhileStatement", fun parts =>
    return .whileStatement (← parts.child? "test") (← parts.child? "body")),
  ("DoWhileStatement", fun parts =>
    return .doWhileStatement (← parts.child? "body") (← parts.child? "test")),
  ("ContinueStatement", fun _ => return .continueStatement),
  ("BreakStatement", fun _ => return .breakStatement),
  ("ReturnStatement", fun parts => return .returnStatement (← parts.optional? "argument")),
  ("ThrowStatement", fun parts => return .throwStatement (← parts.child? "argument")),
  ("TryStatement", fun parts =>
    return .tryStatement (← parts.child? "block") (← parts.optional? "handler")
      (← parts.optional? "finalizer")),
  ("CatchClause", fun parts =>
    return .catchClause (← parts.optional? "param") (← parts.child? "body")),
  ("ClassDeclaration", fun parts =>
    return .classDeclaration (← parts.child? "id") (← parts.optional? "superClass")
      (← parts.child? "body")),
  ("ClassBody", fun parts => return .classBody (← parts.children? "body")),
  ("ClassProperty", fun parts =>
    return .classProperty (← parts.child? "key") (← parts.optional? "value")
      (← parts.flag? "static")),
  ("ClassPrivateProperty", fun parts =>
    return .classPrivateProperty (← parts.child? "key") (← parts.optional? "value")
      (← parts.flag? "static")),
  ("ClassMethodDefinition", fun parts =>
    return .classMethodDefinition (← parts.child? "key") (← parts.flag? "static")
      (← parts.word? "kind" MethodKind.ofText?) (← parts.child? "value"))]

/-- The node of a type. -/
def nodeOf? (type : String) : Option Node := do
  let read ← readers.lookup type
  read parts

end Parts

/-- The node that an object is read as, by the member that names its type. -/
def Node.ofParts? (parts : Parts) : Option Node := do
  parts.nodeOf? (← parts.text? "type")

/-- The node in a part that is one. -/
def Part.node? : Part → Option Node
  | .node found => found
  | _ => none

/-- A value with the nodes in it read. -/
def JsonValue.part : JsonValue → Part
  | null => .null
  | bool value => .flag value
  | number value => .number value
  | string value => .text value
  | array items => .nodes (nodes items)
  | object members => .node (Node.ofParts? (parts members))
where
  nodes : List JsonValue → List (Option Node)
    | [] => []
    | item :: items => item.part.node? :: nodes items
  parts : List (String × JsonValue) → Parts
    | [] => []
    | (name, value) :: members => (name, value.part) :: parts members

/-- The tree that a value is read as. -/
def Node.ofJson? (value : JsonValue) : Option Node :=
  value.part.node?

/-! ### Fields -/

namespace Field

/-- What the member of a field is read as. -/
def part? : Field Node → Option Part
  | flag value => some (.flag value)
  | text value => some (.text value)
  | number x => some (Json.ofBinary64 x).value.part
  | child node => some (.node (some node))
  | children nodes => some (.nodes (nodes.map some))
  | optional node => node.map fun node => .node (some node)
  | nullable node => some (node.elim .null fun node => .node (some node))

end Field

namespace Node

/-- No two fields have the same name, and none is called the type. -/
lemma nodup_fields (node : Node) :
    (node.fields.map Prod.fst).Nodup ∧ "type" ∉ node.fields.map Prod.fst := by
  cases node <;> simp [fields]

/-- What is found under the name of an entry if some entries are left out. -/
lemma lookup_filterMap {α β : Type} (f : α → Option β) {l : List (String × α)}
    (hnodup : (l.map Prod.fst).Nodup) {name : String} {a : α} (hmem : (name, a) ∈ l) :
    (l.filterMap fun entry => (f entry.2).map (entry.1, ·)).lookup name = f a := by
  induction l with
  | nil => cases hmem
  | cons entry l ih =>
    rw [List.map_cons, List.nodup_cons] at hnodup
    obtain ⟨hfresh, hnodup⟩ := hnodup
    rcases List.mem_cons.1 hmem with rfl | hmem
    · rcases hfa : f a with _ | b
      · rw [List.filterMap_cons_none (by rw [hfa]; rfl), List.lookup_eq_none_iff]
        intro found hfound
        obtain ⟨other, hother, hb⟩ := List.mem_filterMap.1 hfound
        obtain ⟨b, -, rfl⟩ := Option.map_eq_some_iff.1 hb
        have hne : name ≠ other.1 := by
          rintro rfl
          exact hfresh (List.mem_map.2 ⟨other, hother, rfl⟩)
        exact bne_iff_ne.2 hne
      · rw [List.filterMap_cons_some (by rw [hfa]; rfl), List.lookup_cons_self]
    · have hne : name ≠ entry.1 := by
        rintro rfl
        exact hfresh (List.mem_map.2 ⟨_, hmem, rfl⟩)
      rcases hfe : f entry.2 with _ | b
      · rw [List.filterMap_cons_none (by rw [hfe]; rfl)]
        exact ih hnodup hmem
      · rw [List.filterMap_cons_some (by rw [hfe]; rfl), List.lookup_cons, beq_false_of_ne hne]
        exact ih hnodup hmem

lemma nodup_readers : (Parts.readers.map Prod.fst).Nodup := by
  decide +kernel

/-- The readers stand in the order of the types. -/
lemma readers_getElem? (node : Node) :
    Parts.readers[node.ctorIdx]?.map Prod.fst = some node.tag := by
  cases node <;> rfl

lemma nodeOf?_tag (node : Node) (parts : Parts) :
    parts.nodeOf? node.tag = Parts.readers[node.ctorIdx]?.bind fun reader => reader.2 parts := by
  have hget := readers_getElem? node
  obtain ⟨⟨name, read⟩, hreader, rfl⟩ := Option.map_eq_some_iff.1 hget
  have hlookup := lookup_filterMap some nodup_readers (List.mem_of_getElem? hreader)
  simp only [Option.map_some, Prod.mk.eta, List.filterMap_some] at hlookup
  rw [hreader]
  unfold Parts.nodeOf?
  rw [hlookup]
  rfl

end Node

/-- Members hold what a field does. -/
def Parts.Holds (parts : Parts) (name : String) : Field Node → Prop
  | .flag value => parts.flag? name = some value
  | .text value => parts.text? name = some value
  | .number x => parts.number? name = some x
  | .child node => parts.child? name = some node
  | .children nodes => parts.children? name = some nodes
  | .optional node => parts.optional? name = some node
  | .nullable node => parts.nullable? name = some node

section Operators

lemma BinaryOperator.ofText?_text (operator : BinaryOperator) :
    ofText? operator.text = some operator := by
  cases operator <;> rfl

lemma LogicalOperator.ofText?_text (operator : LogicalOperator) :
    ofText? operator.text = some operator := by
  cases operator <;> rfl

lemma UnaryOperator.ofText?_text (operator : UnaryOperator) :
    ofText? operator.text = some operator := by
  cases operator <;> rfl

lemma UpdateOperator.ofText?_text (operator : UpdateOperator) :
    ofText? operator.text = some operator := by
  cases operator <;> rfl

lemma AssignmentOperator.ofText?_text (operator : AssignmentOperator) :
    ofText? operator.text = some operator := by
  cases operator <;> rfl

lemma VariableKind.ofText?_text (kind : VariableKind) : ofText? kind.text = some kind := by
  cases kind <;> rfl

lemma MethodKind.ofText?_text (kind : MethodKind) : ofText? kind.text = some kind := by
  cases kind <;> rfl

end Operators

lemma Parts.word?_of_text {α : Type} {parts : Parts} {name text : String}
    {spell : String → Option α} {a : α} (htext : parts.text? name = some text)
    (hspell : spell text = some a) : parts.word? name spell = some a := by
  rw [Parts.word?, htext]
  exact hspell

/-- A node is put together again from members that hold its fields. -/
lemma Node.nodeOf?_of_holds {node : Node} {parts : Parts}
    (h : ∀ field ∈ node.fields, parts.Holds field.1 field.2) :
    parts.nodeOf? node.tag = some node := by
  have hbind : ∀ {α β : Type} {x : Option α} {a : α} {f : α → Option β} {b : β},
      x = some a → f a = some b → x >>= f = some b := by
    rintro α β x a f b rfl hf
    exact hf
  rw [nodeOf?_tag]
  cases node with
  | nullLiteral | undefinedLiteral | thisExpression | continueStatement | breakStatement => rfl
  | program | numericLiteral | bigIntLiteral | stringLiteral | booleanLiteral | templateElement
  | arrayLiteral | objectLiteral | identifier | privateName | awaitExpression | yieldExpression
  | sequenceExpression | parenthesizedExpression | blockStatement | returnStatement
  | throwStatement | classBody =>
    obtain ⟨h₁, -⟩ := List.forall_mem_cons.1 h
    refine hbind rfl ?_
    exact hbind h₁ rfl
  | regExpLiteral | templateLiteral | assignmentPattern | callExpression | newExpression
  | whileStatement | doWhileStatement | catchClause =>
    obtain ⟨h₁, h⟩ := List.forall_mem_cons.1 h
    obtain ⟨h₂, -⟩ := List.forall_mem_cons.1 h
    refine hbind rfl ?_
    refine hbind h₁ ?_
    exact hbind h₂ rfl
  | memberExpression | optionalCallExpression | ifStatement | forOfStatement | tryStatement
  | classDeclaration | classProperty | classPrivateProperty =>
    obtain ⟨h₁, h⟩ := List.forall_mem_cons.1 h
    obtain ⟨h₂, h⟩ := List.forall_mem_cons.1 h
    obtain ⟨h₃, -⟩ := List.forall_mem_cons.1 h
    refine hbind rfl ?_
    refine hbind h₁ ?_
    refine hbind h₂ ?_
    exact hbind h₃ rfl
  | property | optionalMemberExpression | arrowFunctionExpression | forStatement =>
    obtain ⟨h₁, h⟩ := List.forall_mem_cons.1 h
    obtain ⟨h₂, h⟩ := List.forall_mem_cons.1 h
    obtain ⟨h₃, h⟩ := List.forall_mem_cons.1 h
    obtain ⟨h₄, -⟩ := List.forall_mem_cons.1 h
    refine hbind rfl ?_
    refine hbind h₁ ?_
    refine hbind h₂ ?_
    refine hbind h₃ ?_
    exact hbind h₄ rfl
  | functionExpression | functionDeclaration =>
    obtain ⟨h₁, h⟩ := List.forall_mem_cons.1 h
    obtain ⟨h₂, h⟩ := List.forall_mem_cons.1 h
    obtain ⟨h₃, h⟩ := List.forall_mem_cons.1 h
    obtain ⟨h₄, h⟩ := List.forall_mem_cons.1 h
    obtain ⟨h₅, -⟩ := List.forall_mem_cons.1 h
    refine hbind rfl ?_
    refine hbind h₁ ?_
    refine hbind h₂ ?_
    refine hbind h₃ ?_
    refine hbind h₄ ?_
    exact hbind h₅ rfl
  | binaryExpression left operator =>
    obtain ⟨h₁, h⟩ := List.forall_mem_cons.1 h
    obtain ⟨h₂, h⟩ := List.forall_mem_cons.1 h
    obtain ⟨h₃, -⟩ := List.forall_mem_cons.1 h
    refine hbind rfl ?_
    refine hbind h₁ ?_
    refine hbind (Parts.word?_of_text h₂ operator.ofText?_text) ?_
    exact hbind h₃ rfl
  | logicalExpression left operator =>
    obtain ⟨h₁, h⟩ := List.forall_mem_cons.1 h
    obtain ⟨h₂, h⟩ := List.forall_mem_cons.1 h
    obtain ⟨h₃, -⟩ := List.forall_mem_cons.1 h
    refine hbind rfl ?_
    refine hbind h₁ ?_
    refine hbind (Parts.word?_of_text h₂ operator.ofText?_text) ?_
    exact hbind h₃ rfl
  | assignmentExpression id operator | complexAssignmentExpression id operator =>
    obtain ⟨h₁, h⟩ := List.forall_mem_cons.1 h
    obtain ⟨h₂, h⟩ := List.forall_mem_cons.1 h
    obtain ⟨h₃, -⟩ := List.forall_mem_cons.1 h
    refine hbind rfl ?_
    refine hbind h₁ ?_
    refine hbind (Parts.word?_of_text h₂ operator.ofText?_text) ?_
    exact hbind h₃ rfl
  | unaryExpression operator =>
    obtain ⟨h₁, h⟩ := List.forall_mem_cons.1 h
    obtain ⟨h₂, -⟩ := List.forall_mem_cons.1 h
    refine hbind rfl ?_
    refine hbind (Parts.word?_of_text h₁ operator.ofText?_text) ?_
    exact hbind h₂ rfl
  | updateExpression operator =>
    obtain ⟨h₁, h⟩ := List.forall_mem_cons.1 h
    obtain ⟨h₂, h⟩ := List.forall_mem_cons.1 h
    obtain ⟨h₃, -⟩ := List.forall_mem_cons.1 h
    refine hbind rfl ?_
    refine hbind (Parts.word?_of_text h₁ operator.ofText?_text) ?_
    refine hbind h₂ ?_
    exact hbind h₃ rfl
  | variableDeclaration id value kind =>
    obtain ⟨h₁, h⟩ := List.forall_mem_cons.1 h
    obtain ⟨h₂, h⟩ := List.forall_mem_cons.1 h
    obtain ⟨h₃, -⟩ := List.forall_mem_cons.1 h
    refine hbind rfl ?_
    refine hbind h₁ ?_
    refine hbind h₂ ?_
    exact hbind (Parts.word?_of_text h₃ kind.ofText?_text) rfl
  | classMethodDefinition key isStatic kind =>
    obtain ⟨h₁, h⟩ := List.forall_mem_cons.1 h
    obtain ⟨h₂, h⟩ := List.forall_mem_cons.1 h
    obtain ⟨h₃, h⟩ := List.forall_mem_cons.1 h
    obtain ⟨h₄, -⟩ := List.forall_mem_cons.1 h
    refine hbind rfl ?_
    refine hbind h₁ ?_
    refine hbind h₂ ?_
    refine hbind (Parts.word?_of_text h₃ kind.ofText?_text) ?_
    exact hbind h₄ rfl

/-- A printed number is read as the number it was. -/
lemma Parts.number?_of_lookup {parts : Parts} {name : String} {x : Binary64} (hx : x.Canonical)
    (h : parts.lookup name = some (Json.ofBinary64 x).value.part) : parts.number? name = some x := by
  have hread : ∀ q : ℚ, 0 ≤ q → parts.lookup name = some (.number q) → Binary64.nearest q = x →
      parts.number? name = some x := by
    intro q hq hlookup hnearest
    rw [number?, hlookup]
    simp [hq, hnearest]
  cases x with
  | infinite =>
    rw [number?, h]
    rfl
  | finite s e =>
    have hshortest := Binary64.nearest_shortest hx (by simp)
    simp only [Json.ofBinary64] at h
    split at h
    next n hn =>
      have hvalue := Binary64.value_of_toNat? hn
      split at h
      next => exact hread n n.cast_nonneg h (by rw [← hvalue, Binary64.nearest_value hx (by simp)])
      next => exact hread _ (by unfold Decimal.value; positivity) h hshortest
    next => exact hread _ (by unfold Decimal.value; positivity) h hshortest

/-- Members that a field was written to hold the field. -/
lemma Parts.holds_of_lookup {parts : Parts} {name : String} {field : Field Node}
    (hnumber : ∀ x, field = .number x → x.Canonical) (h : parts.lookup name = field.part?) :
    parts.Holds name field := by
  cases field with
  | flag value | text value | child node => simp [Holds, flag?, text?, child?, h, Field.part?]
  | children nodes =>
    rw [Holds, children?, h]
    simp only [Field.part?, List.mapM_map, Function.comp_def, id]
    simpa using List.mapM_pure (m := Option) (l := nodes) (f := id)
  | number x => exact number?_of_lookup (hnumber x rfl) h
  | optional node | nullable node =>
    cases node <;> simp [Holds, optional?, nullable?, h, Field.part?]

/-! ### Trees -/

namespace JsonValue

lemma part_array (items : List JsonValue) :
    (array items).part = .nodes (items.map fun item => item.part.node?) := by
  have hnodes : part.nodes items = items.map fun item => item.part.node? := by
    induction items with
    | nil => rfl
    | cons item items ih => exact congrArg (List.cons _) ih
  exact congrArg Part.nodes hnodes

lemma part_object (members : List (String × JsonValue)) :
    (object members).part =
      .node (Node.ofParts? (members.map fun member => (member.1, member.2.part))) := by
  have hparts : part.parts members = members.map fun member => (member.1, member.2.part) := by
    induction members with
    | nil => rfl
    | cons member members ih => exact congrArg (List.cons _) ih
  exact congrArg (fun parts => Part.node (Node.ofParts? parts)) hparts

end JsonValue

namespace Json

lemma value_array (items : List Json) : (array items).value = .array (items.map value) := by
  have hvalues : value.values items = items.map value := by
    induction items with
    | nil => rfl
    | cons item items ih => exact congrArg (List.cons _) ih
  exact congrArg JsonValue.array hvalues

lemma value_object (members : List (String × Json)) :
    (object members).value = .object (members.map fun member => (member.1, member.2.value)) := by
  have hvalues : value.memberValues members =
      members.map fun member => (member.1, member.2.value) := by
    induction members with
    | nil => rfl
    | cons member members ih => exact congrArg (List.cons _) ih
  exact congrArg JsonValue.object hvalues

/-- Zero is whole, so a number that is printed with a fraction has a digit other than zero. -/
lemma proper_ofBinary64 {x : Binary64} (hx : x.Canonical) : (ofBinary64 x).Proper := by
  have hzero : x ≠ .infinite → x.shortest.coefficient = 0 → x.toNat? = some 0 := by
    intro hne hcoefficient
    have hread := Binary64.nearest_shortest hx hne
    simp only [Decimal.value, hcoefficient, Nat.cast_zero, zero_mul] at hread
    rw [← hread]
    decide +kernel
  cases x with
  | infinite => exact .null
  | finite s e =>
    have hzero := hzero (by simp)
    simp only [ofBinary64]
    split
    next n hn =>
      split
      next => exact .integer n
      next hlarge =>
        refine .decimal (Nat.pos_of_ne_zero fun hcoefficient => hlarge ?_)
        rw [Option.some.inj (hn.symm.trans (hzero hcoefficient))]
        exact Nat.zero_le _
    next hnone =>
      refine .decimal (Nat.pos_of_ne_zero fun hcoefficient => ?_)
      rw [hzero hcoefficient] at hnone
      cases hnone

end Json

namespace Node

/-- The members of a node, the first of which names its type. -/
def members (node : Node) : List (String × Json) :=
  ("type", .string node.tag) ::
    node.fields.filterMap fun field => (field.2.map toJson).toJson?.map (field.1, ·)

lemma toJson_eq (node : Node) : node.toJson = .object node.members := by
  unfold toJson
  rw [fold_eq]
  simp only [members, List.filterMap_map]
  rfl

/-- The numbers of a node are in the form in which numbers are held. -/
def HoldsNumbers (node : Node) : Prop :=
  ∀ field ∈ node.fields, ∀ x, field.2 = .number x → x.Canonical

lemma part?_of_children {field : Field Node}
    (h : ∀ child ∈ field.nodes, child.toJson.value.part = .node (some child)) :
    (field.map toJson).toJson?.map (fun json => json.value.part) = field.part? := by
  cases field with
  | flag value | text value | number x => rfl
  | child node => simpa [Field.map, Field.toJson?, Field.part?, Field.nodes] using h
  | children nodes =>
    change some (Json.array (nodes.map toJson)).value.part = some (.nodes (nodes.map some))
    rw [Json.value_array, JsonValue.part_array, List.map_map, List.map_map]
    refine congrArg (fun found => some (Part.nodes found)) (List.map_congr_left fun node hnode => ?_)
    exact congrArg Part.node? (h node hnode)
  | optional node | nullable node =>
    cases node with
    | none => rfl
    | some node => simpa [Field.map, Field.toJson?, Field.part?, Field.nodes] using h

/-- What a tree is written as is read as the tree. -/
theorem part_toJson {node : Node} (h : node.Everywhere HoldsNumbers) :
    node.toJson.value.part = .node (some node) := by
  induction h with
  | @node node here below ih =>
    have hparts : ((node.members.map fun member => (member.1, member.2.value)).map
        fun member => (member.1, member.2.part)) = ("type", .text node.tag) ::
          node.fields.filterMap fun field => field.2.part?.map (field.1, ·) := by
      rw [List.map_map, members, List.map_cons, List.map_filterMap]
      refine congrArg (List.cons _) ?_
      refine List.filterMap_congr fun field hfield => ?_
      rw [← part?_of_children fun child hchild => ih child (mem_children.2 ⟨field, hfield, hchild⟩),
        Option.map_map, Option.map_map]
      rfl
    rw [toJson_eq, Json.value_object, JsonValue.part_object, hparts]
    refine congrArg _ (nodeOf?_of_holds fun field hfield => ?_)
    refine Parts.holds_of_lookup (here field hfield) ?_
    obtain ⟨hnodup, htype⟩ := node.nodup_fields
    have hne : field.1 ≠ "type" := by
      intro heq
      exact htype (heq ▸ List.mem_map_of_mem hfield)
    rw [List.lookup_cons, beq_false_of_ne hne]
    exact lookup_filterMap Field.part? hnodup hfield

lemma proper_toJson {node : Node} (h : node.Everywhere HoldsNumbers) : node.toJson.Proper := by
  induction h with
  | @node node here below ih =>
    rw [toJson_eq]
    refine .object (List.forall_mem_cons.2 ⟨.string _, fun member hmember => ?_⟩)
    obtain ⟨field, hfield, hjson⟩ := List.mem_filterMap.1 hmember
    obtain ⟨json, hjson, rfl⟩ := Option.map_eq_some_iff.1 hjson
    have ih : ∀ child ∈ field.2.nodes, child.toJson.Proper := fun child hchild =>
      ih child (mem_children.2 ⟨field, hfield, hchild⟩)
    have hnumber : ∀ x, field.2 = .number x → x.Canonical := here field hfield
    generalize field.2 = held at hjson ih hnumber
    cases held with
    | flag value =>
      cases hjson
      exact .bool value
    | text value =>
      cases hjson
      exact .string value
    | number x =>
      cases hjson
      exact Json.proper_ofBinary64 (hnumber x rfl)
    | child node =>
      cases hjson
      exact ih node (List.mem_singleton_self _)
    | children nodes =>
      cases hjson
      exact .array (List.forall_mem_map.2 ih)
    | optional node =>
      cases node with
      | none => cases hjson
      | some node =>
        cases hjson
        exact ih node (List.mem_singleton_self _)
    | nullable node =>
      cases node with
      | none =>
        cases hjson
        exact .null
      | some node =>
        cases hjson
        exact ih node (List.mem_singleton_self _)

end Node

/-! ### Types in order -/

/-- What the members called the type hold, in the order of the text. -/
def JsonValue.types : JsonValue → List JsonValue
  | array items => itemTypes items
  | object members => memberTypes members
  | null | bool _ | number _ | string _ => []
where
  itemTypes : List JsonValue → List JsonValue
    | [] => []
    | item :: items => item.types ++ itemTypes items
  memberTypes : List (String × JsonValue) → List JsonValue
    | [] => []
    | (name, value) :: members =>
      (if name = "type" then [value] else []) ++ value.types ++ memberTypes members

namespace JsonValue

lemma types_array (items : List JsonValue) : (array items).types = items.flatMap types := by
  change types.itemTypes items = _
  induction items with
  | nil => rfl
  | cons item items ih =>
    rw [List.flatMap_cons, ← ih]
    rfl

/-- Below a member that is called the type no other one is. -/
lemma types_object (value : JsonValue) {members : List (String × JsonValue)}
    (h : "type" ∉ members.map Prod.fst) :
    (object (("type", value) :: members)).types =
      value :: (value.types ++ members.flatMap fun member => member.2.types) := by
  have hothers : types.memberTypes members = members.flatMap fun member => member.2.types := by
    induction members with
    | nil => rfl
    | cons member members ih =>
      rw [List.map_cons, List.mem_cons, not_or] at h
      rw [List.flatMap_cons, ← ih h.2]
      change (if member.1 = "type" then [member.2] else []) ++ member.2.types ++ _ = _
      rw [if_neg (Ne.symm h.1), List.nil_append]
  rw [← hothers]
  rfl

end JsonValue

namespace Node

lemma types_field (field : Field Node) :
    ((field.map toJson).toJson?.toList.flatMap fun json => json.value.types) =
      field.nodes.flatMap fun child => child.toJson.value.types := by
  cases field with
  | flag value | text value | child node => rfl
  | number x =>
    change (Json.ofBinary64 x).value.types ++ [] = []
    unfold Json.ofBinary64
    split
    · rfl
    · split
      · split <;> rfl
      · rfl
  | children nodes =>
    change (Json.array (nodes.map toJson)).value.types ++ [] = _
    rw [List.append_nil, Json.value_array, JsonValue.types_array, List.flatMap_map,
      List.flatMap_map]
    rfl
  | optional node | nullable node => cases node <;> rfl

/-- A node is written with the name of its type. -/
lemma tag_eq_typeName (node : Node) : node.tag = node.typeName := by
  cases node <;> rfl

/-- The types of a written tree are those of its walk. -/
theorem types_toJson (node : Node) (depth : Nat) :
    node.toJson.value.types =
      (node.walkFrom depth).map fun entry => .string entry.2.typeName := by
  have ih : ∀ child ∈ node.children, child.toJson.value.types =
      (child.walkFrom (depth + 1)).map fun entry => .string entry.2.typeName := by
    intro child hchild
    obtain ⟨field, hfield, hchild⟩ := mem_children.1 hchild
    have := sizeOf_lt_of_mem_fields hfield hchild
    exact types_toJson child (depth + 1)
  have hnames : "type" ∉ ((node.fields.filterMap fun field =>
      (field.2.map toJson).toJson?.map (field.1, ·)).map
        fun member => (member.1, member.2.value)).map Prod.fst := by
    simp only [List.map_map, List.mem_map, List.mem_filterMap, not_exists, not_and]
    rintro member ⟨field, hfield, hmember⟩ hname
    obtain ⟨json, -, rfl⟩ := Option.map_eq_some_iff.1 hmember
    exact node.nodup_fields.2 (List.mem_map.2 ⟨field, hfield, hname⟩)
  calc node.toJson.value.types
    _ = .string node.tag :: node.children.flatMap fun child => child.toJson.value.types := by
      rw [toJson_eq, Json.value_object, members, List.map_cons, JsonValue.types_object _ hnames,
        children, List.flatMap_assoc, List.flatMap_map, List.filterMap_eq_flatMap_toList,
        List.flatMap_assoc]
      refine congrArg _ (List.flatMap_congr fun field _ => ?_)
      rw [← types_field, Option.toList_map, List.flatMap_map]
    _ = _ := by
      rw [walkFrom_eq, List.map_cons, List.map_flatMap, List.flatMap_congr ih, tag_eq_typeName]
termination_by sizeOf node

end Node

namespace Node

lemma mem_itemAtoms {nodes : List Node} {atom : Atom} :
    atom ∈ itemAtoms nodes ↔ ∃ node ∈ nodes, atom ∈ node.atomsAs false := by
  induction nodes with
  | nil => simp [itemAtoms]
  | cons node nodes ih => simp [itemAtoms, ih]

lemma mem_optionAtoms {node : Option Node} {atom : Atom} :
    atom ∈ optionAtoms node ↔ ∃ n ∈ node, atom ∈ n.atomsAs false := by
  cases node <;> simp [optionAtoms]

/-- Only names are told apart by where they stand. -/
lemma number_mem_atomsAs {node : Node} {inKey : Bool} {x : Binary64} :
    .number x ∈ node.atomsAs inKey ↔ .number x ∈ node.atomsAs false := by
  cases node with
  | identifier name => cases inKey <;> simp [atomsAs]
  | _ => rfl

lemma number_mem_of_field {node : Node} {x : Binary64} :
    ∀ field ∈ node.fields, field.2 = .number x → .number x ∈ node.atomsAs false := by
  cases node with
  | numericLiteral value => simp [fields, atomsAs, eq_comm]
  | _ => simp [fields]

/-- The numbers of a part are among those of the whole. -/
lemma number_mem_of_child {node child : Node} (hshape : node.Shape) (hchild : child ∈ node.children)
    {x : Binary64} (hx : .number x ∈ child.atomsAs false) : .number x ∈ node.atomsAs false := by
  cases node with
  | numericLiteral | bigIntLiteral | stringLiteral | regExpLiteral | booleanLiteral | nullLiteral
  | undefinedLiteral | templateElement | identifier | thisExpression | continueStatement
  | breakStatement => cases hchild
  | templateLiteral expressions quasis =>
    simp only [children, fields, Field.nodes, List.flatMap_cons, List.flatMap_nil, List.append_nil,
      List.mem_append] at hchild
    rcases hchild with hchild | hchild
    · exact mem_itemAtoms.2 ⟨child, hchild, hx⟩
    · have helement := hshape.2 child hchild
      cases child <;> cases helement
      cases hx
  | property key value computed method =>
    simp only [children, fields, Field.nodes, List.flatMap_cons, List.flatMap_nil, List.append_nil,
      List.mem_append, List.mem_singleton] at hchild
    rw [atomsAs_property, List.mem_append, number_mem_atomsAs]
    rcases hchild with rfl | rfl
    · exact .inl hx
    · right
      split
      next name hname =>
        rw [eq_of_echoed? hname] at hx
        simp [atomsAs] at hx
      next => exact hx
  | updateExpression operator leading argument =>
    simp only [children, fields, Field.nodes, List.flatMap_cons, List.flatMap_nil, List.append_nil,
      List.mem_append, List.mem_singleton, List.not_mem_nil, false_or] at hchild
    subst hchild
    cases leading <;> simp [atomsAs, hx]
  | _ =>
    simp only [children, fields, Field.nodes, List.flatMap_cons, List.flatMap_nil, List.append_nil,
      List.nil_append, List.mem_append, List.mem_singleton, Option.mem_toList] at hchild
    simp only [atomsAs, List.mem_append, mem_itemAtoms, mem_optionAtoms, number_mem_atomsAs]
    grind

/-- What holds of the numbers that a node accounts for holds of all numbers in its tree. -/
lemma Conforms.numbers {P : Binary64 → Prop} {node : Node} (h : node.Conforms)
    (hnumbers : ∀ x, .number x ∈ node.atomsAs false → P x) :
    node.Everywhere fun node => ∀ field ∈ node.fields, ∀ x, field.2 = .number x → P x := by
  induction h with
  | @node node wellFormed children ih =>
    refine .node (fun field hfield x hx => hnumbers x (number_mem_of_field field hfield hx)) ?_
    intro child hchild
    exact ih child hchild fun x hx => hnumbers x (number_mem_of_child wellFormed.shape hchild hx)

end Node

/-- What holds of all numbers that tokens spell holds of all numbers of a program that is derived from
them. -/
lemma Derives.numbers {c : Context} {body : List Node} {ts : List Token} {P : Binary64 → Prop}
    (h : Derives c (.row none .statement body) ts)
    (hspelled : ∀ x, ∀ t ∈ ts, (Atom.number x).SpelledBy t → P x) :
    (Node.program body).Everywhere fun node =>
      ∀ field ∈ node.fields, ∀ x, field.2 = .number x → P x := by
  have haccounts : Accounts (itemAtoms body) ts := h.accounts rfl
  have hfits : ∀ n ∈ body, n.Fits .statement := h.fits
  have hconforms : (Node.program body).Conforms := by
    refine .of_placed trivial ?_
    simpa [Node.fields, Field.nodes] using fun n hn => (hfits n hn).placed
  refine hconforms.numbers fun x hx => ?_
  obtain ⟨t, ht, hnumber⟩ := haccounts.exists_of_mem hx rfl
  exact hspelled x t ht hnumber

/-- The numbers of an accepted tree were read from its source. -/
theorem holdsNumbers_of_parse {source : String} {limit : Nat} {tree : Node}
    (h : parse source limit = .ok tree) : tree.Everywhere Node.HoldsNumbers := by
  obtain ⟨body, ts, rfl, hbody, -⟩ := derives_of_parse h
  refine hbody.numbers ?_
  rintro x t - ⟨-, decimal, -, rfl⟩
  exact decimal.toBinary64_canonical

/-- What an accepted tree is written as is read as the tree, in either style. -/
lemma json_of_parse {source : String} {limit : Nat} {tree : Node}
    (h : parse source limit = .ok tree) :
    (∀ style, JsonValue.ofText? (tree.toJson.render style) = some tree.toJson.value) ∧
      Node.ofJson? tree.toJson.value = some tree := by
  have hnumbers := holdsNumbers_of_parse h
  refine ⟨fun style => JsonValue.ofText?_render (Node.proper_toJson hnumbers) style, ?_⟩
  rw [Node.ofJson?, Node.part_toJson hnumbers, Part.node?]

/-- The two texts of an accepted tree have one value. It is read back as the tree, by the types and
the names of its members, and its types are those of the walk. So accepted trees with the same text
are the same. -/
theorem json_reads_back {source : String} {limit : Nat} {tree : Node}
    (h : parse source limit = .ok tree) :
    (∃ value, JsonValue.ofText? (tree.toJson.render .compact) = some value ∧
      JsonValue.ofText? (tree.toJson.render .indented) = some value ∧
      Node.ofJson? value = some tree ∧
      value.types = tree.walk.map fun entry => .string entry.2.typeName) ∧
    ∀ source' limit' tree', parse source' limit' = .ok tree' →
      (tree.toJson.render .compact = tree'.toJson.render .compact ↔ tree = tree') := by
  obtain ⟨htext, htree⟩ := json_of_parse h
  refine ⟨⟨_, htext .compact, htext .indented, htree, tree.types_toJson 0⟩, ?_⟩
  intro source' limit' tree' h'
  refine ⟨fun heq => ?_, fun heq => heq ▸ rfl⟩
  obtain ⟨htext', htree'⟩ := json_of_parse h'
  have hvalue : tree.toJson.value = tree'.toJson.value := by
    rw [← Option.some_inj, ← htext .compact, heq, htext' .compact]
  rw [← Option.some_inj, ← htree, hvalue, htree']

theorem json_of_endless_loop :
    ∃ tree, parse "for (;;) \x7b f('\x22\t', 0.5, 1e999) \x7d" = .ok tree ∧
      tree.walk.map (fun entry => entry.2.typeName) =
        ["Program", "ForStatement", "BlockStatement", "CallExpression", "Identifier",
         "StringLiteral", "NumericLiteral", "NumericLiteral"] ∧
      ((∃ value, JsonValue.ofText? (tree.toJson.render .compact) = some value ∧
        JsonValue.ofText? (tree.toJson.render .indented) = some value ∧
        Node.ofJson? value = some tree ∧
        value.types = tree.walk.map fun entry => .string entry.2.typeName) ∧
      ∀ source' limit' tree', parse source' limit' = .ok tree' →
        (tree.toJson.render .compact = tree'.toJson.render .compact ↔ tree = tree')) := by
  have hnames : (parse "for (;;) \x7b f('\x22\t', 0.5, 1e999) \x7d").map
      (fun tree => tree.walk.map fun entry => entry.2.typeName) =
        .ok ["Program", "ForStatement", "BlockStatement", "CallExpression", "Identifier",
          "StringLiteral", "NumericLiteral", "NumericLiteral"] := by
    decide +kernel
  rcases hparse : parse "for (;;) \x7b f('\x22\t', 0.5, 1e999) \x7d" with e | tree
  · rw [hparse] at hnames
    cases hnames
  · rw [hparse] at hnames
    exact ⟨tree, rfl, Except.ok.inj hnames, json_reads_back hparse⟩

end ScriptTree
