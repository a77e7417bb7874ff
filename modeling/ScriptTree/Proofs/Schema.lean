import ScriptTree.Node.Walk
import ScriptTree.Proofs.Accepted

/-!
# The schema of accepted trees

One type holds all nodes, so a tree may put any node anywhere. `Node.WellFormed` is what the schema
allows, node by node. Every rule of a derivation makes a node that keeps to it out of parts that do,
if it is known what the parts of a construct may be: that is `Category.Admits`.

Main statement: `wellFormed_of_parse`, all nodes of an accepted tree are well-formed.
-/

namespace ScriptTree

namespace Node

def isBlock : Node → Bool
  | blockStatement _ => true
  | _ => false

def isName : Node → Bool
  | identifier _ => true
  | _ => false

def isTemplateElement : Node → Bool
  | templateElement _ => true
  | _ => false

def isCatchClause : Node → Bool
  | catchClause .. => true
  | _ => false

def isSequence : Node → Bool
  | sequenceExpression _ => true
  | _ => false

def isPattern : Node → Bool
  | assignmentPattern .. => true
  | _ => false

/-- A name, or a name with a default. -/
def isParameter : Node → Bool
  | identifier _ | assignmentPattern (identifier _) _ => true
  | _ => false

def isFunctionExpression : Node → Bool
  | functionExpression .. => true
  | _ => false

/-- A function expression without a name. -/
def isAnonymous : Node → Bool
  | functionExpression none _ _ _ _ => true
  | _ => false

/-- What the schema asks of a node's own fields. -/
def Shape : Node → Prop
  | regExpLiteral pattern flags => pattern ≠ "" ∧ ∀ c ∈ flags.toList, c ∈ "dgimsuy".toList
  | templateLiteral expressions quasis =>
    quasis.length = expressions.length + 1 ∧ ∀ quasi ∈ quasis, quasi.isTemplateElement = true
  | property _ value _ method => method = true → value.isFunctionExpression = true
  | updateExpression _ _ argument => argument.isAssignmentTarget = true
  | assignmentExpression id operator _ => operator = .assign ∧ id.isAssignmentTarget = true
  | complexAssignmentExpression id operator _ =>
    operator ∈ [.addAssign, .subAssign, .mulAssign, .divAssign] ∧ id.isAssignmentTarget = true
  | sequenceExpression expressions =>
    2 ≤ expressions.length ∧ ∀ expression ∈ expressions, expression.isSequence = false
  | arrowFunctionExpression generator _ params _ =>
    generator = false ∧ ∀ param ∈ params, param.isParameter = true
  | functionExpression _ _ _ params body | functionDeclaration _ _ _ params body =>
    (∀ param ∈ params, param.isParameter = true) ∧ body.isBlock = true
  | forStatement _ _ _ body | forOfStatement _ _ body => body.isBlock = true
  | tryStatement block handler finalizer =>
    block.isBlock = true ∧ (handler.isSome = true ∨ finalizer.isSome = true) ∧
      (∀ clause ∈ handler, clause.isCatchClause = true) ∧
      ∀ final ∈ finalizer, final.isBlock = true
  | catchClause param body => (∀ name ∈ param, name.isName = true) ∧ body.isBlock = true
  | classMethodDefinition key _ kind value =>
    value.isAnonymous = true ∧ (kind = .constructor ↔ key = .identifier "constructor")
  | _ => True

/-- What the schema asks of a node: its own fields are as they should be, and only among parameters
is there a pattern. -/
structure WellFormed (node : Node) : Prop where
  shape : node.Shape
  patterns : ∀ field ∈ node.fields, field.1 ≠ "params" →
    ∀ child ∈ field.2.nodes, child.isPattern = false

/-- All nodes of a tree are well-formed. -/
inductive Conforms : Node → Prop where
  | node {node : Node} (wellFormed : node.WellFormed)
      (children : ∀ child ∈ node.children, child.Conforms) : Conforms node

lemma mem_children {node child : Node} :
    child ∈ node.children ↔ ∃ field ∈ node.fields, child ∈ field.2.nodes := by
  simp [children]

/-- A node conforms if its shape is right and what its fields hold conforms. -/
lemma Conforms.of_fields {node : Node} (hshape : node.Shape)
    (hfields : ∀ field ∈ node.fields, ∀ child ∈ field.2.nodes,
      child.Conforms ∧ (field.1 ≠ "params" → child.isPattern = false)) : node.Conforms := by
  refine .node ⟨hshape, fun field hfield hname child hchild => ?_⟩ fun child hchild => ?_
  · exact (hfields field hfield child hchild).2 hname
  · obtain ⟨field, hfield, hchild⟩ := mem_children.1 hchild
    exact (hfields field hfield child hchild).1

lemma walkFrom_eq (node : Node) (depth : Nat) :
    node.walkFrom depth =
      (depth, node) :: node.children.flatMap fun child => child.walkFrom (depth + 1) := by
  unfold walkFrom
  rw [fold_eq]
  simp only [children, List.flatMap_assoc, List.flatMap_map]
  congr 2
  funext field
  cases hfield : field.2 with
  | optional child => cases child <;> simp [Field.map, Field.nodes]
  | nullable child => cases child <;> simp [Field.map, Field.nodes]
  | _ => simp [Field.map, Field.nodes, List.flatMap_map]

lemma Conforms.wellFormed_of_mem_walkFrom {node : Node} (h : node.Conforms) {depth : Nat}
    {entry : Nat × Node} (hmem : entry ∈ node.walkFrom depth) : entry.2.WellFormed := by
  induction h generalizing depth with
  | @node node wellFormed children ih =>
    rw [walkFrom_eq, List.mem_cons, List.mem_flatMap] at hmem
    rcases hmem with rfl | ⟨child, hchild, hmem⟩
    · exact wellFormed
    · exact ih child hchild hmem

end Node

/-- What is known of the nodes of a category, apart from their being well-formed. -/
def Category.Admits : Category → Node → Prop
  | .block, n | .loopBody, n => n.isBlock = true
  | .catchClause, n => n.isCatchClause = true
  | .parameter, n => n.isParameter = true
  | .name, n | .catchParameter, n => n.isName = true
  | .tier level, n | .enclosed _ level, n =>
    n.isPattern = false ∧ (level ≠ 0 → n.isSequence = false)
  | .operand, n | .chain _, n | .creation, n | .primary, n | .yielding, n | .arrow, n =>
    n.isPattern = false ∧ n.isSequence = false
  | _, n => n.isPattern = false

namespace Node

/-- A node that conforms and is what a category admits. -/
def Fits (node : Node) (category : Category) : Prop :=
  node.Conforms ∧ category.Admits node

lemma isPattern_of_isBlock {node : Node} (h : node.isBlock = true) : node.isPattern = false := by
  cases node <;> first | rfl | cases h

lemma isPattern_of_isName {node : Node} (h : node.isName = true) : node.isPattern = false := by
  cases node <;> first | rfl | cases h

lemma isPattern_of_isTemplateElement {node : Node} (h : node.isTemplateElement = true) :
    node.isPattern = false := by
  cases node <;> first | rfl | cases h

lemma isPattern_of_isCatchClause {node : Node} (h : node.isCatchClause = true) :
    node.isPattern = false := by
  cases node <;> first | rfl | cases h

lemma isSequence_of_isName {node : Node} (h : node.isName = true) : node.isSequence = false := by
  cases node <;> first | rfl | cases h

lemma eq_of_isName {node : Node} (h : node.isName = true) : ∃ name, node = .identifier name := by
  cases node <;> first | exact ⟨_, rfl⟩ | cases h

lemma isParameter_of_isName {node : Node} (h : node.isName = true) : node.isParameter = true := by
  cases node <;> first | rfl | cases h

/-- Only as a parameter may a node be a pattern. -/
lemma Fits.isPattern {node : Node} {category : Category} (h : node.Fits category)
    (hcategory : category ≠ .parameter) : node.isPattern = false := by
  obtain ⟨-, hadmits⟩ := h
  cases category with
  | parameter => exact absurd rfl hcategory
  | block => exact isPattern_of_isBlock hadmits
  | loopBody => exact isPattern_of_isBlock hadmits
  | catchClause => exact isPattern_of_isCatchClause hadmits
  | name => exact isPattern_of_isName hadmits
  | catchParameter => exact isPattern_of_isName hadmits
  | tier level => exact hadmits.1
  | enclosed bracket level => exact hadmits.1
  | operand => exact hadmits.1
  | chain of => exact hadmits.1
  | creation => exact hadmits.1
  | primary => exact hadmits.1
  | yielding => exact hadmits.1
  | arrow => exact hadmits.1
  | _ => exact hadmits

end Node

/-- All nodes of a phrase fit the places in which they stand. -/
def Phrase.Fits : Phrase → Prop
  | one category n => n.Fits category
  | perhaps category n? | behind _ category n? => ∀ n ∈ n?, n.Fits category
  | row _ category ns | list _ _ category ns => ∀ n ∈ ns, n.Fits category
  | code params body => (∀ param ∈ params, param.Fits .parameter) ∧ body.Fits .block
  | head params => ∀ param ∈ params, param.Fits .parameter
  | template textDue es qs =>
    (∀ e ∈ es, e.Fits (.tier 0)) ∧ (∀ q ∈ qs, q.Conforms ∧ q.isTemplateElement = true) ∧
      qs.length + (if textDue then 1 else 0) = es.length + 1

namespace Node

/-- A conforming node that may stand outside of parameters. -/
def Placed (node : Node) : Prop :=
  node.Conforms ∧ node.isPattern = false

lemma Fits.placed {node : Node} {category : Category} (h : node.Fits category)
    (hcategory : category ≠ .parameter := by simp) : node.Placed :=
  ⟨h.1, h.isPattern hcategory⟩

lemma Conforms.of_placed {node : Node} (hshape : node.Shape)
    (hchildren : ∀ field ∈ node.fields, ∀ child ∈ field.2.nodes, child.Placed) : node.Conforms := by
  refine .of_fields hshape fun field hfield child hchild => ?_
  obtain ⟨hconforms, hpattern⟩ := hchildren field hfield child hchild
  exact ⟨hconforms, fun _ => hpattern⟩

lemma Conforms.of_leaf {node : Node} (hshape : node.Shape) (hleaf : node.children = []) :
    node.Conforms := by
  apply Conforms.of_fields hshape
  intro field hfield child hchild
  have hmem : child ∈ node.children := mem_children.2 ⟨field, hfield, hchild⟩
  rw [hleaf] at hmem
  cases hmem

lemma Conforms.of_mem_children {node child : Node} (h : node.Conforms)
    (hchild : child ∈ node.children) : child.Conforms := by
  cases h with
  | node wellFormed children => exact children child hchild

lemma Conforms.placed_of_mem {node child : Node} {field : String × Field Node} (h : node.Conforms)
    (hfield : field ∈ node.fields) (hname : field.1 ≠ "params") (hchild : child ∈ field.2.nodes) :
    child.Placed := by
  refine ⟨h.of_mem_children (mem_children.2 ⟨field, hfield, hchild⟩), ?_⟩
  cases h with
  | node wellFormed children => exact wellFormed.patterns field hfield hname child hchild

lemma Conforms.async {generator isAsync : Bool} {params : List Node} {body : Node}
    (h : (arrowFunctionExpression generator isAsync params body).Conforms) :
    (arrowFunctionExpression generator true params body).Conforms := by
  cases h with
  | node wellFormed children =>
    refine .node ⟨wellFormed.shape, ?_⟩ children
    simpa [fields, Field.nodes] using wellFormed.patterns

/-- A function expression conforms if its parameters and its body fit. -/
lemma Conforms.function {id : Option Node} {generator isAsync : Bool} {params : List Node}
    {body : Node} (hid : ∀ name ∈ id, name.Fits .name)
    (hparams : ∀ param ∈ params, param.Fits .parameter) (hbody : body.Fits .block) :
    (functionExpression id generator isAsync params body).Conforms := by
  refine .of_fields ⟨fun param hparam => (hparams param hparam).2, hbody.2⟩ ?_
  simpa [fields, Field.nodes] using
    ⟨fun name hname => (hid name hname).placed, fun param hparam => (hparams param hparam).1,
      hbody.placed⟩

/-- A template conforms if it has one piece of text more than expressions. -/
lemma Conforms.template {es qs : List Node} (hes : ∀ e ∈ es, e.Fits (.tier 0))
    (hqs : ∀ q ∈ qs, q.Conforms ∧ q.isTemplateElement = true)
    (hlength : qs.length = es.length + 1) : (templateLiteral es qs).Conforms := by
  refine .of_placed ⟨hlength, fun q hq => (hqs q hq).2⟩ ?_
  simpa [fields, Field.nodes] using ⟨fun e he => (hes e he).placed,
    fun q hq => ⟨(hqs q hq).1, isPattern_of_isTemplateElement (hqs q hq).2⟩⟩

lemma fits_name (name : String) : (identifier name).Fits .name :=
  ⟨.of_leaf trivial rfl, rfl⟩

/-- What may stand in parentheses in front of an arrow turns into parameters. -/
lemma fits_of_arrowParam? {node param : Node} (h : node.Conforms)
    (hparam : arrowParam? node = some param) : param.Fits .parameter := by
  unfold arrowParam? at hparam
  split at hparam
  next name =>
    cases hparam
    exact ⟨.of_leaf trivial rfl, rfl⟩
  next name operator value =>
    cases hparam
    have hfield : ("value", Field.child value) ∈
        (assignmentExpression (identifier name) operator value).fields := by
      simp [fields]
    have hvalue : value.Placed := h.placed_of_mem hfield (by simp) (by simp [Field.nodes])
    refine ⟨.of_placed trivial ?_, rfl⟩
    simp [fields, Field.nodes, (fits_name name).placed, hvalue]
  next => cases hparam

lemma exists_arrowParam? {node param : Node} {params : List Node}
    (h : arrowParams? node = some params) (hmem : param ∈ params) :
    ∃ part, (part = node ∨ ∃ parts, node = .sequenceExpression parts ∧ part ∈ parts) ∧
      arrowParam? part = some param := by
  unfold arrowParams? at h
  split at h
  next expressions =>
    have hpart : ∃ part ∈ expressions, arrowParam? part = some param := by
      induction expressions generalizing params with
      | nil =>
        cases h
        cases hmem
      | cons e expressions ih =>
        rw [List.mapM_cons] at h
        obtain ⟨first, hfirst, h⟩ := Option.bind_eq_some_iff.1 h
        obtain ⟨rest, hrest, h⟩ := Option.bind_eq_some_iff.1 h
        cases h
        rcases List.mem_cons.1 hmem with rfl | hmem
        · exact ⟨e, List.mem_cons_self, hfirst⟩
        · obtain ⟨part, hpart, hparam⟩ := ih hmem hrest
          exact ⟨part, List.mem_cons_of_mem e hpart, hparam⟩
    obtain ⟨part, hpart, hparam⟩ := hpart
    exact ⟨part, Or.inr ⟨expressions, rfl, hpart⟩, hparam⟩
  next =>
    obtain ⟨param', hparam, rfl⟩ := Option.map_eq_some_iff.1 h
    rw [List.mem_singleton.1 hmem]
    exact ⟨node, Or.inl rfl, hparam⟩

lemma fits_of_arrowParams? {node : Node} {params : List Node} (h : node.Conforms)
    (hparams : arrowParams? node = some params) : ∀ param ∈ params, param.Fits .parameter := by
  intro param hmem
  obtain ⟨part, rfl | ⟨parts, rfl, hpart⟩, hparam⟩ := exists_arrowParam? hparams hmem
  · exact fits_of_arrowParam? h hparam
  · have hchild : part ∈ (sequenceExpression parts).children := by
      simpa [children, fields, Field.nodes] using hpart
    exact fits_of_arrowParam? (h.of_mem_children hchild) hparam

end Node

lemma Literal.fits {t : Token} {n : Node} (h : Literal t n) : n.Fits .primary := by
  cases h with
  | regExp ht htext hpattern hflags =>
    exact ⟨.of_leaf ⟨hpattern, hflags⟩ rfl, rfl, rfl⟩
  | _ => exact ⟨.of_leaf trivial rfl, rfl, rfl⟩

/-- Every derivation is of nodes that fit their places. -/
theorem Derives.fits {c : Context} {phrase : Phrase} {ts : List Token} (h : Derives c phrase ts) :
    phrase.Fits := by
  induction h with
  | absent => simp [Phrase.Fits]
  | present _ ih => rintro _ ⟨⟩; exact ih
  | nothingBehind => simp [Phrase.Fits]
  | behind _ _ ih => rintro _ ⟨⟩; exact ih
  | rowNil => simp [Phrase.Fits]
  | rowSeparator _ _ ih => exact ih
  | rowItem _ _ ihrow ih =>
    intro n hn
    rcases List.mem_append.1 hn with hn | hn
    · exact ihrow n hn
    · rw [List.mem_singleton.1 hn]
      exact ih
  | list _ _ _ ih => exact ih
  | enclosed _ _ _ ih => exact ih
  | name _ => exact Node.fits_name _
  | parameter _ ih => exact ⟨ih.1, Node.isParameter_of_isName ih.2⟩
  | @parameterWithDefault _ n _ _ value _ _ _ _ ih ihvalue =>
    refine ⟨.of_placed trivial ?_, ?_⟩
    · simp [Node.fields, Field.nodes, ih.placed, ihvalue.placed]
    · obtain ⟨name, rfl⟩ := Node.eq_of_isName ih.2
      rfl
  | code _ _ ihparams ihbody => exact ⟨ihparams, ihbody⟩
  | headNone _ _ => simp [Phrase.Fits]
  | headName _ ih =>
    intro n hn
    rw [List.mem_singleton.1 hn]
    exact ⟨ih.1, Node.isParameter_of_isName ih.2⟩
  | headCover _ hparams ih => exact Node.fits_of_arrowParams? ih.1 hparams
  | arrowBlock _ ih => exact ⟨ih.1, ih.isPattern (by simp)⟩
  | arrowExpression _ ih => exact ⟨ih.1, ih.isPattern (by simp)⟩
  | arrow _ _ _ ihparams ihbody =>
    refine ⟨.of_fields ⟨rfl, fun param hparam => (ihparams param hparam).2⟩ ?_, rfl, rfl⟩
    simpa [Node.fields, Field.nodes] using
      ⟨fun param hparam => (ihparams param hparam).1, ihbody.1, ihbody.2⟩
  | literal h => exact h.fits
  | nameValue _ ih => exact ⟨ih.1, ih.isPattern (by simp), Node.isSequence_of_isName ih.2⟩
  | array _ ih =>
    refine ⟨.of_placed trivial ?_, rfl, rfl⟩
    simpa [Node.fields, Field.nodes] using fun n hn => (ih n hn).placed
  | object _ ih =>
    refine ⟨.of_placed trivial ?_, rfl, rfl⟩
    simpa [Node.fields, Field.nodes] using fun n hn => (ih n hn).placed
  | parenthesized _ ih =>
    refine ⟨.of_placed trivial ?_, rfl, rfl⟩
    simpa [Node.fields, Field.nodes] using ih.placed
  | plainArrow _ ih => exact ih
  | asyncArrow _ _ ih => exact ⟨ih.1.async, rfl, rfl⟩
  | functionExpression _ _ _ _ ihid ihcode =>
    refine ⟨.function (ihid · ·) ihcode.1 ihcode.2, rfl, rfl⟩
  | yieldValue _ ih => exact ih
  | yielding _ _ ih =>
    refine ⟨.of_placed trivial ?_, rfl, rfl⟩
    simpa [Node.fields, Field.nodes] using fun n hn => (ih n hn).placed
  | templateStart => simp [Phrase.Fits]
  | templateText _ _ ih =>
    obtain ⟨hes, hqs, hlength⟩ := ih
    refine ⟨hes, List.forall_mem_append.2 ⟨hqs, ?_⟩, ?_⟩
    · exact List.forall_mem_singleton.2 ⟨.of_leaf trivial rfl, rfl⟩
    · simpa using hlength
  | templateInsertion _ _ _ _ _ ih ihn =>
    obtain ⟨hes, hqs, hlength⟩ := ih
    refine ⟨List.forall_mem_append.2 ⟨hes, List.forall_mem_singleton.2 ihn⟩,
      List.forall_mem_append.2 ⟨hqs, ?_⟩, ?_⟩
    · exact List.forall_mem_singleton.2 ⟨.of_leaf trivial rfl, rfl⟩
    · simpa using hlength
  | template _ _ _ ih =>
    obtain ⟨hes, hqs, hlength⟩ := ih
    exact ⟨.template hes hqs hlength, rfl, rfl⟩
  | templateWithoutEnd _ _ _ ih =>
    obtain ⟨hes, hqs, hlength⟩ := ih
    refine ⟨.template hes (List.forall_mem_append.2 ⟨hqs, ?_⟩) ?_, rfl, rfl⟩
    · exact List.forall_mem_singleton.2 ⟨.of_leaf trivial rfl, rfl⟩
    · simpa using hlength
  | keyWord _ => exact ⟨.of_leaf trivial rfl, rfl⟩
  | keyLiteral _ h => exact ⟨h.fits.1, h.fits.2.1⟩
  | keyComputed _ ih => exact ⟨ih.1, ih.2.1⟩
  | propertyMethod _ _ _ _ ihkey ihcode =>
    refine ⟨.of_placed (fun _ => rfl) ?_, rfl⟩
    simpa [Node.fields, Field.nodes] using ⟨ihkey.placed, .function (by simp) ihcode.1 ihcode.2, rfl⟩
  | propertyValue _ _ _ ihkey ihvalue =>
    refine ⟨.of_placed (by simp [Node.Shape]) ?_, rfl⟩
    simpa [Node.fields, Field.nodes] using ⟨ihkey.placed, ihvalue.placed⟩
  | shorthand _ ih =>
    refine ⟨.of_placed (by simp [Node.Shape]) ?_, rfl⟩
    simpa [Node.fields, Field.nodes] using ih.placed
  | memberWord _ => exact ⟨.of_leaf trivial rfl, rfl⟩
  | memberPrivate _ _ ih =>
    refine ⟨.of_placed trivial ?_, rfl⟩
    simpa [Node.fields, Field.nodes] using ih.placed
  | base _ _ ih => exact ih
  | heritage _ ih => exact ⟨ih.1, ih.isPattern (by simp), Node.isSequence_of_isName ih.2⟩
  | created _ ih => exact ih
  | createdInside _ _ ih => exact ih
  | member _ _ _ ih ihm =>
    refine ⟨.of_placed trivial ?_, rfl, rfl⟩
    simpa [Node.fields, Field.nodes] using ⟨ih.placed, ihm.placed⟩
  | computedMember _ _ ih ihm =>
    refine ⟨.of_placed trivial ?_, rfl, rfl⟩
    simpa [Node.fields, Field.nodes] using ⟨ih.placed, ihm.placed⟩
  | optionalMember _ _ _ ih ihm =>
    refine ⟨.of_placed trivial ?_, rfl, rfl⟩
    simpa [Node.fields, Field.nodes] using ⟨ih.placed, ihm.placed⟩
  | optionalComputedMember _ _ _ ih ihm =>
    refine ⟨.of_placed trivial ?_, rfl, rfl⟩
    simpa [Node.fields, Field.nodes] using ⟨ih.placed, ihm.placed⟩
  | call _ _ ih ihargs =>
    refine ⟨.of_placed trivial ?_, rfl, rfl⟩
    simpa [Node.fields, Field.nodes] using ⟨ih.placed, fun n hn => (ihargs n hn).placed⟩
  | optionalCall _ _ _ ih ihargs =>
    refine ⟨.of_placed trivial ?_, rfl, rfl⟩
    simpa [Node.fields, Field.nodes] using ⟨ih.placed, fun n hn => (ihargs n hn).placed⟩
  | creation _ _ ih =>
    refine ⟨.of_placed trivial ?_, rfl, rfl⟩
    simpa [Node.fields, Field.nodes] using ih.placed
  | creationWith _ _ _ ih ihargs =>
    refine ⟨.of_placed trivial ?_, rfl, rfl⟩
    simpa [Node.fields, Field.nodes] using ⟨ih.placed, fun n hn => (ihargs n hn).placed⟩
  | suffixed _ ih => exact ih
  | updateBehind _ htarget _ ih =>
    refine ⟨.of_placed htarget ?_, rfl, rfl⟩
    simpa [Node.fields, Field.nodes] using ih.placed
  | unary _ _ ih =>
    refine ⟨.of_placed trivial ?_, rfl, rfl⟩
    simpa [Node.fields, Field.nodes] using ih.placed
  | update _ _ htarget ih =>
    refine ⟨.of_placed htarget ?_, rfl, rfl⟩
    simpa [Node.fields, Field.nodes] using ih.placed
  | await _ _ ih =>
    refine ⟨.of_placed trivial ?_, rfl, rfl⟩
    simpa [Node.fields, Field.nodes] using ih.placed
  | operand _ _ ih => exact ⟨ih.1, ih.2.1, fun _ => ih.2.2⟩
  | loosen hle _ ih => exact ⟨ih.1, ih.2.1, fun hj => ih.2.2 (by omega)⟩
  | power _ _ _ _ ihl ihr =>
    refine ⟨.of_placed trivial ?_, rfl, fun _ => rfl⟩
    simpa [Node.fields, Field.nodes] using ⟨ihl.placed, ihr.placed⟩
  | binary _ _ _ _ ihl ihr =>
    refine ⟨.of_placed trivial ?_, rfl, fun _ => rfl⟩
    simpa [Node.fields, Field.nodes] using ⟨ihl.placed, ihr.placed⟩
  | logical _ _ _ ihl ihr =>
    refine ⟨.of_placed trivial ?_, rfl, fun _ => rfl⟩
    simpa [Node.fields, Field.nodes] using ⟨ihl.placed, ihr.placed⟩
  | assignment _ htarget _ _ _ ih ihvalue =>
    refine ⟨.of_placed ⟨rfl, htarget⟩ ?_, rfl, fun _ => rfl⟩
    simpa [Node.fields, Field.nodes] using ⟨ih.placed, ihvalue.placed⟩
  | @complexAssignment _ _ _ _ operator _ _ _ htarget hne _ _ _ ih ihvalue =>
    refine ⟨.of_placed ⟨?_, htarget⟩ ?_, rfl, fun _ => rfl⟩
    · cases operator <;> simp at hne ⊢
    · simpa [Node.fields, Field.nodes] using ⟨ih.placed, ihvalue.placed⟩
  | yieldElement _ ih => exact ⟨ih.1, ih.2.1, fun _ => ih.2.2⟩
  | sequence htwo _ ih =>
    refine ⟨.of_placed ⟨htwo, fun n hn => (ih n hn).2.2 Nat.one_ne_zero⟩ ?_, rfl, by simp⟩
    simpa [Node.fields, Field.nodes] using fun n hn => (ih n hn).placed
  | publicKey _ => exact ⟨.of_leaf trivial rfl, rfl⟩
  | privateKey _ _ =>
    refine ⟨.of_placed trivial ?_, rfl⟩
    simpa [Node.fields, Field.nodes] using (Node.fits_name _).placed
  | method _ _ _ _ hkind _ ihkey ihcode =>
    refine ⟨.of_placed ⟨rfl, hkind⟩ ?_, rfl⟩
    simpa [Node.fields, Field.nodes] using ⟨ihkey.placed, .function (by simp) ihcode.1 ihcode.2, rfl⟩
  | classProperty _ _ _ _ ihkey ihvalue =>
    refine ⟨.of_placed trivial ?_, rfl⟩
    simpa [Node.fields, Field.nodes] using ⟨ihkey.placed, fun n hn => (ihvalue n hn).placed⟩
  | classPrivateProperty _ _ _ _ ihkey ihvalue =>
    refine ⟨.of_placed trivial ?_, rfl⟩
    simpa [Node.fields, Field.nodes] using ⟨ihkey.placed, fun n hn => (ihvalue n hn).placed⟩
  | @classDeclaration _ _ _ _ _ _ members _ _ _ _ _ ihid ihsuper ihmembers =>
    have hbody : (Node.classBody members).Conforms := by
      refine .of_placed trivial ?_
      simpa [Node.fields, Field.nodes] using fun n hn => (ihmembers n hn).placed
    refine ⟨.of_placed trivial ?_, rfl⟩
    simpa [Node.fields, Field.nodes] using
      ⟨ihid.placed, fun n hn => (ihsuper n hn).placed, hbody, rfl⟩
  | statement _ _ ih => exact ih
  | block _ ih =>
    refine ⟨.of_placed trivial ?_, rfl⟩
    simpa [Node.fields, Field.nodes] using fun n hn => (ih n hn).placed
  | blockStatement _ ih => exact ⟨ih.1, ih.isPattern (by simp)⟩
  | expressionStatement _ _ ih => exact ⟨ih.1, ih.2.1⟩
  | declaration _ _ _ _ ihid ihvalue =>
    refine ⟨.of_placed trivial ?_, rfl⟩
    simpa [Node.fields, Field.nodes] using ⟨ihid.placed, fun n hn => (ihvalue n hn).placed⟩
  | declarationStatement _ _ ih => exact ih
  | ifStatement _ _ _ _ ihtest ihconsequent ihalternate =>
    refine ⟨.of_placed trivial ?_, rfl⟩
    simpa [Node.fields, Field.nodes] using
      ⟨ihtest.placed, ihconsequent.placed, fun n hn => (ihalternate n hn).placed⟩
  | functionDeclaration _ _ _ _ ihid ihcode =>
    refine ⟨.of_fields ⟨fun param hparam => (ihcode.1 param hparam).2, ihcode.2.2⟩ ?_, rfl⟩
    simpa [Node.fields, Field.nodes] using
      ⟨ihid.placed, fun param hparam => (ihcode.1 param hparam).1, ihcode.2.placed⟩
  | loopDeclaration _ ih => exact ih
  | loopExpression _ ih => exact ⟨ih.1, ih.2.1⟩
  | loopBlock _ ih => exact ih
  | loopSingle _ ih =>
    refine ⟨.of_placed trivial ?_, rfl⟩
    simpa [Node.fields, Field.nodes] using ih.placed
  | forStatement _ _ _ _ _ _ _ _ _ ihinit ihtest ihupdate ihbody =>
    refine ⟨.of_placed ihbody.2 ?_, rfl⟩
    simpa [Node.fields, Field.nodes] using
      ⟨fun n hn => (ihinit n hn).placed, fun n hn => (ihtest n hn).placed,
      fun n hn => (ihupdate n hn).placed, ihbody.placed⟩
  | forOfStatement _ _ _ _ _ _ _ ihleft ihright ihbody =>
    refine ⟨.of_placed ihbody.2 ?_, rfl⟩
    simpa [Node.fields, Field.nodes] using ⟨ihleft.placed, ihright.placed, ihbody.placed⟩
  | whileStatement _ _ _ ihtest ihbody =>
    refine ⟨.of_placed trivial ?_, rfl⟩
    simpa [Node.fields, Field.nodes] using ⟨ihtest.placed, ihbody.placed⟩
  | doWhileStatement _ _ _ _ _ ihbody ihtest =>
    refine ⟨.of_placed trivial ?_, rfl⟩
    simpa [Node.fields, Field.nodes] using ⟨ihbody.placed, ihtest.placed⟩
  | continueStatement _ _ => exact ⟨.of_leaf trivial rfl, rfl⟩
  | breakStatement _ _ => exact ⟨.of_leaf trivial rfl, rfl⟩
  | returnStatement _ _ _ _ ih =>
    refine ⟨.of_placed trivial ?_, rfl⟩
    simpa [Node.fields, Field.nodes] using fun n hn => (ih n hn).placed
  | throwStatement _ _ _ ih =>
    refine ⟨.of_placed trivial ?_, rfl⟩
    simpa [Node.fields, Field.nodes] using ih.placed
  | catchParameter _ _ ih => exact ih
  | catchClause _ _ ihparam ihbody =>
    refine ⟨.of_placed ⟨fun n hn => (ihparam n hn).2, ihbody.2⟩ ?_, rfl⟩
    simpa [Node.fields, Field.nodes] using ⟨fun n hn => (ihparam n hn).placed, ihbody.placed⟩
  | tryStatement _ _ _ _ hsome ihbody ihhandler ihfinalizer =>
    refine ⟨.of_placed ⟨ihbody.2, hsome, fun n hn => (ihhandler n hn).2,
      fun n hn => (ihfinalizer n hn).2⟩ ?_, rfl⟩
    simpa [Node.fields, Field.nodes] using ⟨ihbody.placed, fun n hn => (ihhandler n hn).placed,
      fun n hn => (ihfinalizer n hn).placed⟩

/-- Every accepted source has a tree that keeps to the schema in all its nodes. -/
theorem wellFormed_of_parse {source : String} {limit : Nat} {tree : Node}
    (h : parse source limit = .ok tree) :
    tree.isPattern = false ∧ ∀ entry ∈ tree.walk, entry.2.WellFormed := by
  obtain ⟨body, ts, rfl, hbody, -⟩ := derives_of_parse h
  have hfits : ∀ n ∈ body, n.Fits .statement := hbody.fits
  have hconforms : (Node.program body).Conforms := by
    refine .of_placed trivial ?_
    simpa [Node.fields, Field.nodes] using fun n hn => (hfits n hn).placed
  exact ⟨rfl, fun entry hentry => hconforms.wellFormed_of_mem_walkFrom hentry⟩

theorem handler_tree_keeps_schema :
    ∃ tree, parse "try \x7ba += `x$\x7bb\x7d`\x7d catch (e) \x7bf = (a = 1) => /x/\x7d" = .ok tree ∧
      tree.body.map Node.typeName = ["TryStatement"] ∧
      tree.isPattern = false ∧ ∀ entry ∈ tree.walk, entry.2.WellFormed := by
  have htypes : (parse "try \x7ba += `x$\x7bb\x7d`\x7d catch (e) \x7bf = (a = 1) => /x/\x7d").map
      (fun tree => tree.body.map Node.typeName) = .ok ["TryStatement"] := by
    decide +kernel
  rcases hparse : parse "try \x7ba += `x$\x7bb\x7d`\x7d catch (e) \x7bf = (a = 1) => /x/\x7d" with
    e | tree
  · rw [hparse] at htypes
    cases htypes
  · rw [hparse] at htypes
    exact ⟨tree, rfl, Except.ok.inj htypes, wellFormed_of_parse hparse⟩

end ScriptTree
