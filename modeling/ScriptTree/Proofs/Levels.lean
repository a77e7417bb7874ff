import ScriptTree.Proofs.Schema

/-!
# Levels in accepted trees

An operator holds its operands to levels of the ladder. `Node.Tight` says of one node that no part
of it is looser than its place allows. The grammar reaches an operand through many constructs, and
some of them go back to the foot of the ladder: a `yield` and an arrow are read where a name may
stand, and yet hold a whole element. So every category of a derivation has a level below which none
of its nodes falls, `Category.least`, and the parts of each construct are tight because of the
categories that they come from.

Main statement: `tight_of_parse`, all nodes of an accepted tree are tight.
-/

namespace ScriptTree

namespace Node

/-- Something holds of a node and of all nodes below it. -/
inductive Everywhere (P : Node → Prop) : Node → Prop where
  | node {node : Node} (here : P node) (below : ∀ child ∈ node.children, child.Everywhere P) :
      Everywhere P node

lemma Everywhere.here {P : Node → Prop} {node : Node} (h : node.Everywhere P) : P node := by
  cases h with
  | node here below => exact here

lemma Everywhere.of_mem_children {P : Node → Prop} {node child : Node} (h : node.Everywhere P)
    (hchild : child ∈ node.children) : child.Everywhere P := by
  cases h with
  | node here below => exact below child hchild

lemma Everywhere.of_mem_walkFrom {P : Node → Prop} {node : Node} (h : node.Everywhere P)
    {depth : Nat} {entry : Nat × Node} (hmem : entry ∈ node.walkFrom depth) : P entry.2 := by
  induction h generalizing depth with
  | @node node here below ih =>
    rw [walkFrom_eq, List.mem_cons, List.mem_flatMap] at hmem
    rcases hmem with rfl | ⟨child, hchild, hmem⟩
    · exact here
    · exact ih child hchild hmem

/-- No part of a node is looser than its place allows. A power is the one operator here that groups
to the right. -/
def Tight : Node → Prop
  | binaryExpression left .pow right => 12 ≤ left.level ∧ 11 ≤ right.level
  | binaryExpression left operator right =>
    operator.level ≤ left.level ∧ operator.level < right.level
  | logicalExpression left operator right =>
    operator.level ≤ left.level ∧ operator.level < right.level
  | unaryExpression _ argument | awaitExpression argument => 12 ≤ argument.level
  | updateExpression _ leading argument => leading = true → 12 ≤ argument.level
  | memberExpression object .. | optionalMemberExpression object .. => object.level = 14
  | callExpression callee arguments | optionalCallExpression callee arguments _
  | newExpression callee arguments =>
    callee.level = 14 ∧ ∀ argument ∈ arguments, 1 ≤ argument.level
  | arrayLiteral elements => ∀ element ∈ elements, 1 ≤ element.level
  | property _ value .. => 1 ≤ value.level
  | classProperty _ value? _ | classPrivateProperty _ value? _ => ∀ value ∈ value?, 1 ≤ value.level
  | assignmentExpression _ _ value | complexAssignmentExpression _ _ value
  | assignmentPattern _ value => 1 ≤ value.level
  | arrowFunctionExpression _ _ _ body => 1 ≤ body.level
  | _ => True

lemma tight_binary {left right : Node} {operator : BinaryOperator} (hne : operator ≠ .pow)
    (hleft : operator.level ≤ left.level) (hright : operator.level < right.level) :
    (binaryExpression left operator right).Tight := by
  cases operator with
  | pow => exact absurd rfl hne
  | _ => exact ⟨hleft, hright⟩

lemma level_le (node : Node) : node.level ≤ 14 := by
  cases node with
  | binaryExpression left operator right => cases operator <;> simp [level, BinaryOperator.level]
  | logicalExpression left operator right => cases operator <;> simp [level, LogicalOperator.level]
  | updateExpression operator leading argument => cases leading <;> simp [level]
  | _ => simp [level]

end Node

/-- The level below which no node of a category falls. -/
def Category.least : Category → Nat
  | .tier level | .enclosed _ level => level
  | .operand => 12
  | .chain _ | .creation | .primary | .yielding | .arrow | .name => 14
  | .arrowBody => 1
  | _ => 0

namespace Node

/-- A tree that is tight in all its nodes, and tight enough for a category. -/
def Sits (node : Node) (category : Category) : Prop :=
  node.Everywhere Tight ∧ category.least ≤ node.level

end Node

/-- All nodes of a phrase are tight enough for the places in which they stand. -/
def Phrase.Sits : Phrase → Prop
  | one category n => n.Sits category
  | perhaps category n? | behind _ category n? => ∀ n ∈ n?, n.Sits category
  | row _ category ns | list _ _ category ns => ∀ n ∈ ns, n.Sits category
  | code params body => (∀ param ∈ params, param.Sits .parameter) ∧ body.Sits .block
  | head params => ∀ param ∈ params, param.Sits .parameter
  | template _ es qs => (∀ e ∈ es, e.Sits (.tier 0)) ∧ ∀ q ∈ qs, q.Everywhere Node.Tight

namespace Node

lemma Everywhere.of_leaf {P : Node → Prop} {node : Node} (here : P node)
    (hleaf : node.children = []) : node.Everywhere P :=
  .node here (by simp [hleaf])

lemma everywhere_name (name : String) : (identifier name).Everywhere Tight :=
  .of_leaf trivial rfl

/-- The parts of a function, whether it is an expression or a declaration. -/
lemma Everywhere.function {id : Option Node} {generator isAsync : Bool} {params : List Node}
    {body : Node} (hid : ∀ name ∈ id, name.Everywhere Tight)
    (hcode : (Phrase.code params body).Sits) :
    (functionExpression id generator isAsync params body).Everywhere Tight := by
  refine .node trivial ?_
  simpa [children, fields, Field.nodes, or_imp, forall_and] using
    ⟨hid, fun param hparam => (hcode.1 param hparam).1, hcode.2.1⟩

lemma sits_of_arrowParam? {node param : Node} (h : node.Everywhere Tight)
    (hparam : arrowParam? node = some param) : param.Sits .parameter := by
  unfold arrowParam? at hparam
  split at hparam
  next name =>
    cases hparam
    exact ⟨everywhere_name name, Nat.zero_le _⟩
  next name operator value =>
    cases hparam
    have hvalue : value.Everywhere Tight :=
      h.of_mem_children (by simp [children, fields, Field.nodes])
    refine ⟨.node h.here ?_, Nat.zero_le _⟩
    simp [children, fields, Field.nodes, everywhere_name name, hvalue]
  next => cases hparam

lemma sits_of_arrowParams? {node : Node} {params : List Node} (h : node.Everywhere Tight)
    (hparams : arrowParams? node = some params) : ∀ param ∈ params, param.Sits .parameter := by
  intro param hmem
  obtain ⟨part, rfl | ⟨parts, rfl, hpart⟩, hparam⟩ := exists_arrowParam? hparams hmem
  · exact sits_of_arrowParam? h hparam
  · refine sits_of_arrowParam? (h.of_mem_children ?_) hparam
    simpa [children, fields, Field.nodes] using hpart

end Node

lemma Literal.sits {t : Token} {n : Node} (h : Literal t n) : n.Sits .primary := by
  cases h <;> exact ⟨.of_leaf trivial rfl, le_rfl⟩

/-- Every derivation is of nodes that are tight enough for their places. -/
theorem Derives.sits {c : Context} {phrase : Phrase} {ts : List Token} (h : Derives c phrase ts) :
    phrase.Sits := by
  induction h with
  | absent | nothingBehind => simp [Phrase.Sits]
  | present _ ih | behind _ _ ih => rintro _ ⟨⟩; exact ih
  | rowNil => simp [Phrase.Sits]
  | rowSeparator _ _ ih => exact ih
  | rowItem _ _ ihrow ih =>
    intro n hn
    rcases List.mem_append.1 hn with hn | hn
    · exact ihrow n hn
    · rw [List.mem_singleton.1 hn]
      exact ih
  | list _ _ _ ih => exact ih
  | enclosed _ _ _ ih => exact ih
  | name _ => exact ⟨Node.everywhere_name _, le_rfl⟩
  | parameter _ ih => exact ⟨ih.1, Nat.zero_le _⟩
  | parameterWithDefault _ _ _ ih ihvalue =>
    refine ⟨.node ihvalue.2 ?_, Nat.zero_le _⟩
    simp [Node.children, Node.fields, Field.nodes, ih.1, ihvalue.1]
  | code _ _ ihparams ihbody => exact ⟨ihparams, ihbody⟩
  | headNone _ _ => simp [Phrase.Sits]
  | headName _ ih =>
    intro n hn
    rw [List.mem_singleton.1 hn]
    exact ⟨ih.1, Nat.zero_le _⟩
  | headCover _ hparams ih => exact Node.sits_of_arrowParams? ih.1 hparams
  | arrowBlock h ih =>
    refine ⟨ih.1, ?_⟩
    cases h with
    | block _ => simp [Category.least, Node.level]
  | arrowExpression _ ih => exact ih
  | arrow _ _ _ ihparams ihbody =>
    refine ⟨.node ihbody.2 ?_, le_rfl⟩
    simpa [Node.children, Node.fields, Field.nodes, or_imp, forall_and] using
      ⟨fun param hparam => (ihparams param hparam).1, ihbody.1⟩
  | literal h => exact h.sits
  | nameValue _ ih | plainArrow _ ih | yieldValue _ ih => exact ih
  | array _ ih =>
    refine ⟨.node (fun e he => (ih e he).2) ?_, le_rfl⟩
    simpa [Node.children, Node.fields, Field.nodes] using fun e he => (ih e he).1
  | object _ ih =>
    refine ⟨.node trivial ?_, le_rfl⟩
    simpa [Node.children, Node.fields, Field.nodes] using fun n hn => (ih n hn).1
  | parenthesized _ ih =>
    refine ⟨.node trivial ?_, le_rfl⟩
    simpa [Node.children, Node.fields, Field.nodes] using ih.1
  | asyncArrow _ _ ih =>
    exact ⟨.node ih.1.here fun child hchild => ih.1.of_mem_children hchild, le_rfl⟩
  | functionExpression _ _ _ _ ihid ihcode =>
    exact ⟨.function (fun name hname => (ihid name hname).1) ihcode, le_rfl⟩
  | yielding _ _ ih =>
    refine ⟨.node trivial ?_, le_rfl⟩
    simpa [Node.children, Node.fields, Field.nodes] using fun n hn => (ih n hn).1
  | templateStart => simp [Phrase.Sits]
  | templateText _ _ ih =>
    exact ⟨ih.1, List.forall_mem_append.2
      ⟨ih.2, List.forall_mem_singleton.2 (.of_leaf trivial rfl)⟩⟩
  | templateInsertion _ _ _ _ _ ih ihn =>
    exact ⟨List.forall_mem_append.2 ⟨ih.1, List.forall_mem_singleton.2 ihn⟩,
      List.forall_mem_append.2 ⟨ih.2, List.forall_mem_singleton.2 (.of_leaf trivial rfl)⟩⟩
  | template _ _ _ ih =>
    refine ⟨.node trivial ?_, le_rfl⟩
    simpa [Node.children, Node.fields, Field.nodes, or_imp, forall_and] using
      ⟨fun e he => (ih.1 e he).1, ih.2⟩
  | templateWithoutEnd _ _ _ ih =>
    refine ⟨.node trivial ?_, le_rfl⟩
    simpa [Node.children, Node.fields, Field.nodes, or_imp, forall_and] using
      ⟨fun e he => (ih.1 e he).1, ih.2, .of_leaf trivial rfl⟩
  | keyWord _ | memberWord _ | publicKey _ => exact ⟨Node.everywhere_name _, Nat.zero_le _⟩
  | keyLiteral _ h => exact ⟨h.sits.1, Nat.zero_le _⟩
  | keyComputed _ ih => exact ⟨ih.1, Nat.zero_le _⟩
  | propertyMethod _ _ _ _ ihkey ihcode =>
    refine ⟨.node (by simp [Node.Tight, Node.level]) ?_, Nat.zero_le _⟩
    simpa [Node.children, Node.fields, Field.nodes] using ⟨ihkey.1, .function (by simp) ihcode⟩
  | propertyValue _ _ _ ihkey ihvalue =>
    refine ⟨.node ihvalue.2 ?_, Nat.zero_le _⟩
    simp [Node.children, Node.fields, Field.nodes, ihkey.1, ihvalue.1]
  | shorthand _ ih =>
    refine ⟨.node (by simp [Node.Tight, Node.level]) ?_, Nat.zero_le _⟩
    simp [Node.children, Node.fields, Field.nodes, ih.1]
  | memberPrivate _ _ ih =>
    refine ⟨.node trivial ?_, Nat.zero_le _⟩
    simp [Node.children, Node.fields, Field.nodes, ih.1]
  | base _ _ ih | heritage _ ih | created _ ih | createdInside _ _ ih => exact ih
  | member _ _ _ ih ihm | computedMember _ _ ih ihm | optionalMember _ _ _ ih ihm
  | optionalComputedMember _ _ _ ih ihm =>
    refine ⟨.node ((Node.level_le _).antisymm ih.2) ?_, le_rfl⟩
    simp [Node.children, Node.fields, Field.nodes, ih.1, ihm.1]
  | call _ _ ih ihargs | optionalCall _ _ _ ih ihargs | creationWith _ _ _ ih ihargs =>
    refine ⟨.node ⟨(Node.level_le _).antisymm ih.2, fun a ha => (ihargs a ha).2⟩ ?_, le_rfl⟩
    simpa [Node.children, Node.fields, Field.nodes] using ⟨ih.1, fun a ha => (ihargs a ha).1⟩
  | creation _ _ ih =>
    refine ⟨.node ⟨(Node.level_le _).antisymm ih.2, List.forall_mem_nil _⟩ ?_, le_rfl⟩
    simp [Node.children, Node.fields, Field.nodes, ih.1]
  | suffixed _ ih => exact ⟨ih.1, le_trans (by decide) ih.2⟩
  | updateBehind _ _ _ ih =>
    refine ⟨.node (by simp [Node.Tight]) ?_, by simp [Category.least, Node.level]⟩
    simp [Node.children, Node.fields, Field.nodes, ih.1]
  | unary _ _ ih | await _ _ ih =>
    refine ⟨.node ih.2 ?_, le_rfl⟩
    simp [Node.children, Node.fields, Field.nodes, ih.1]
  | update _ _ _ ih =>
    refine ⟨.node (fun _ => ih.2) ?_, le_rfl⟩
    simp [Node.children, Node.fields, Field.nodes, ih.1]
  | operand _ _ ih => exact ih
  | loosen hle _ ih => exact ⟨ih.1, hle.trans ih.2⟩
  | power _ _ _ _ ihl ihr =>
    refine ⟨.node ⟨ihl.2, ihr.2⟩ ?_, le_rfl⟩
    simp [Node.children, Node.fields, Field.nodes, ihl.1, ihr.1]
  | binary hne _ _ _ ihl ihr =>
    refine ⟨.node (Node.tight_binary hne ihl.2 ihr.2) ?_, le_rfl⟩
    simp [Node.children, Node.fields, Field.nodes, ihl.1, ihr.1]
  | logical _ _ _ ihl ihr =>
    refine ⟨.node ⟨ihl.2, ihr.2⟩ ?_, le_rfl⟩
    simp [Node.children, Node.fields, Field.nodes, ihl.1, ihr.1]
  | assignment _ _ _ _ _ ih ihvalue | complexAssignment _ _ _ _ _ _ ih ihvalue =>
    refine ⟨.node ihvalue.2 ?_, le_rfl⟩
    simp [Node.children, Node.fields, Field.nodes, ih.1, ihvalue.1]
  | yieldElement _ ih => exact ⟨ih.1, le_trans (by decide) ih.2⟩
  | sequence _ _ ih =>
    refine ⟨.node trivial ?_, le_rfl⟩
    simpa [Node.children, Node.fields, Field.nodes] using fun n hn => (ih n hn).1
  | privateKey _ _ =>
    refine ⟨.node trivial ?_, Nat.zero_le _⟩
    simp [Node.children, Node.fields, Field.nodes, Node.everywhere_name]
  | method _ _ _ _ _ _ ihkey ihcode =>
    refine ⟨.node trivial ?_, Nat.zero_le _⟩
    simpa [Node.children, Node.fields, Field.nodes] using ⟨ihkey.1, .function (by simp) ihcode⟩
  | classProperty _ _ _ _ ihkey ihvalue | classPrivateProperty _ _ _ _ ihkey ihvalue =>
    refine ⟨.node (fun value hvalue => (ihvalue value hvalue).2) ?_, Nat.zero_le _⟩
    simpa [Node.children, Node.fields, Field.nodes] using
      ⟨ihkey.1, fun value hvalue => (ihvalue value hvalue).1⟩
  | @classDeclaration _ _ _ _ _ _ members _ _ _ _ _ ihid ihsuper ihmembers =>
    have hbody : (Node.classBody members).Everywhere Node.Tight := by
      refine .node trivial ?_
      simpa [Node.children, Node.fields, Field.nodes] using fun n hn => (ihmembers n hn).1
    refine ⟨.node trivial ?_, Nat.zero_le _⟩
    simpa [Node.children, Node.fields, Field.nodes, or_imp, forall_and] using
      ⟨ihid.1, fun n hn => (ihsuper n hn).1, hbody⟩
  | statement _ _ ih | declarationStatement _ _ ih | loopDeclaration _ ih | catchParameter _ _ ih =>
    exact ⟨ih.1, Nat.zero_le _⟩
  | block _ ih =>
    refine ⟨.node trivial ?_, Nat.zero_le _⟩
    simpa [Node.children, Node.fields, Field.nodes] using fun n hn => (ih n hn).1
  | blockStatement _ ih | expressionStatement _ _ ih | loopExpression _ ih | loopBlock _ ih =>
    exact ⟨ih.1, Nat.zero_le _⟩
  | declaration _ _ _ _ ihid ihvalue =>
    refine ⟨.node trivial ?_, Nat.zero_le _⟩
    simpa [Node.children, Node.fields, Field.nodes] using
      ⟨ihid.1, fun n hn => (ihvalue n hn).1⟩
  | ifStatement _ _ _ _ ihtest ihconsequent ihalternate =>
    refine ⟨.node trivial ?_, Nat.zero_le _⟩
    simpa [Node.children, Node.fields, Field.nodes] using
      ⟨ihtest.1, ihconsequent.1, fun n hn => (ihalternate n hn).1⟩
  | functionDeclaration _ _ _ _ ihid ihcode =>
    refine ⟨.node trivial ?_, Nat.zero_le _⟩
    simpa [Node.children, Node.fields, Field.nodes, or_imp, forall_and] using
      ⟨ihid.1, fun param hparam => (ihcode.1 param hparam).1, ihcode.2.1⟩
  | loopSingle _ ih =>
    refine ⟨.node trivial ?_, Nat.zero_le _⟩
    simp [Node.children, Node.fields, Field.nodes, ih.1]
  | forStatement _ _ _ _ _ _ _ _ _ ihinit ihtest ihupdate ihbody =>
    refine ⟨.node trivial ?_, Nat.zero_le _⟩
    simpa [Node.children, Node.fields, Field.nodes, or_imp, forall_and] using
      ⟨fun n hn => (ihinit n hn).1, fun n hn => (ihtest n hn).1, fun n hn => (ihupdate n hn).1,
        ihbody.1⟩
  | forOfStatement _ _ _ _ _ _ _ ihleft ihright ihbody =>
    refine ⟨.node trivial ?_, Nat.zero_le _⟩
    simp [Node.children, Node.fields, Field.nodes, ihleft.1, ihright.1, ihbody.1]
  | whileStatement _ _ _ ihtest ihbody =>
    refine ⟨.node trivial ?_, Nat.zero_le _⟩
    simp [Node.children, Node.fields, Field.nodes, ihtest.1, ihbody.1]
  | doWhileStatement _ _ _ _ _ ihbody ihtest =>
    refine ⟨.node trivial ?_, Nat.zero_le _⟩
    simp [Node.children, Node.fields, Field.nodes, ihbody.1, ihtest.1]
  | continueStatement _ _ | breakStatement _ _ => exact ⟨.of_leaf trivial rfl, Nat.zero_le _⟩
  | returnStatement _ _ _ _ ih =>
    refine ⟨.node trivial ?_, Nat.zero_le _⟩
    simpa [Node.children, Node.fields, Field.nodes] using fun n hn => (ih n hn).1
  | throwStatement _ _ _ ih =>
    refine ⟨.node trivial ?_, Nat.zero_le _⟩
    simp [Node.children, Node.fields, Field.nodes, ih.1]
  | catchClause _ _ ihparam ihbody =>
    refine ⟨.node trivial ?_, Nat.zero_le _⟩
    simpa [Node.children, Node.fields, Field.nodes, or_imp, forall_and] using
      ⟨fun n hn => (ihparam n hn).1, ihbody.1⟩
  | tryStatement _ _ _ _ _ ihbody ihhandler ihfinalizer =>
    refine ⟨.node trivial ?_, Nat.zero_le _⟩
    simpa [Node.children, Node.fields, Field.nodes, or_imp, forall_and] using
      ⟨ihbody.1, fun n hn => (ihhandler n hn).1, fun n hn => (ihfinalizer n hn).1⟩

/-- In the tree of an accepted source no part is looser than its place allows. -/
theorem tight_of_parse {source : String} {limit : Nat} {tree : Node}
    (h : parse source limit = .ok tree) : ∀ entry ∈ tree.walk, entry.2.Tight := by
  obtain ⟨body, ts, rfl, hbody, -⟩ := derives_of_parse h
  have hsits : ∀ n ∈ body, n.Sits .statement := hbody.sits
  have htree : (Node.program body).Everywhere Node.Tight := by
    refine .node trivial ?_
    simpa [Node.children, Node.fields, Field.nodes] using fun n hn => (hsits n hn).1
  exact fun entry hentry => htree.of_mem_walkFrom hentry

theorem tight_through_arrow_and_yield :
    ∃ tree, parse "f = a => yield -b ** c * new d[e](g = 1)" = .ok tree ∧
      tree.walk.map (fun entry => entry.2.level) =
        [14, 1, 14, 14, 14, 14, 10, 11, 12, 14, 14, 14, 14, 14, 14, 1, 14, 14] ∧
      ∀ entry ∈ tree.walk, entry.2.Tight := by
  have hlevels : (parse "f = a => yield -b ** c * new d[e](g = 1)").map
      (fun tree => tree.walk.map fun entry => entry.2.level) =
        .ok [14, 1, 14, 14, 14, 14, 10, 11, 12, 14, 14, 14, 14, 14, 14, 1, 14, 14] := by
    decide +kernel
  rcases hparse : parse "f = a => yield -b ** c * new d[e](g = 1)" with e | tree
  · rw [hparse] at hlevels
    cases hlevels
  · rw [hparse] at hlevels
    exact ⟨tree, rfl, Except.ok.inj hlevels, tight_of_parse hparse⟩

end ScriptTree
