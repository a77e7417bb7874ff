import ScriptTree.Proofs.Levels
import ScriptTree.Proofs.Rescan

/-!
# Names of variables

A reserved word may name a member: behind a dot, as a key of an object or in a class. Everywhere
else a name stands for a variable, and it was read from a token of the kind of names. One construct
makes a variable out of a member's name, the shorthand property, and there a reserved word gets
through.

Main statement: `references_of_parse`.
-/

namespace ScriptTree

/-- A token that is read from its text alone, unless its text is none of the lexical rules. -/
def Token.Reads (token : Token) : Prop :=
  token.kind.isFree = true ∨ IsToken token.kind token.text

lemma isToken_of_first? {kind : Kind} {text : String}
    (h : Rule.first? text.toList = some (some kind, text.toList.length)) : IsToken kind text := by
  have hne : text.toList ≠ [] := by
    intro hnil
    rw [hnil] at h
    cases h
  have hskip : (Cursor.ofSource text).skip text.toList.length =
      ⟨byteLength text.toList, []⟩ := by
    simp [Cursor.skip, Cursor.ofSource]
  have hend : (⟨byteLength text.toList, []⟩ : Cursor).next =
      (.ok (.endOfFile (byteLength text.toList)), ⟨byteLength text.toList, []⟩) := by
    rw [Cursor.next]
  have hscan : scanSource text = _ := @Cursor.scan_of_first? 0 _ _ _ hne h
  have hbehind := Cursor.scan_of_end hend rfl
  rw [← hskip] at hbehind
  have hbehind' : ((⟨0, text.toList⟩ : Cursor).skip text.toList.length).scan = _ := hbehind
  rw [hbehind'] at hscan
  refine ⟨?_, _, congrArg Prod.snd hscan⟩
  rw [hscan]
  simp [Cursor.token, Token.lexeme]

namespace Cursor

lemma reads_of_next {cursor after : Cursor} {token : Token}
    (h : cursor.next = (.ok token, after)) : token.Reads := by
  by_cases hkind : token.kind = .endOfFile
  · exact Or.inl (by rw [hkind]; rfl)
  · have hmem : token ∈ cursor.scan.1 := by
      rw [scan_of_token h hkind]
      exact List.mem_cons_self
    exact Or.inr (isToken_of_first? (cursor.first?_text_of_mem_scan token hmem))

lemma reads_of_nextTemplate (cursor : Cursor) : cursor.nextTemplate.1.Reads := by
  have hone : ∀ {kind : Kind} {c : Char} {cs : List Char}, cursor.rest = c :: cs →
      Rule.first? [c] = some (some kind, 1) → (cursor.token kind 1).Reads := by
    intro kind c cs hrest hrule
    have htext : (cursor.token kind 1).text.toList = [c] := by simp [Cursor.token, hrest]
    refine Or.inr (isToken_of_first? ?_)
    rw [htext]
    exact hrule
  unfold nextTemplate
  split
  next => exact Or.inl rfl
  next hrest => exact hone hrest rfl
  next hrest => exact hone hrest rfl
  next =>
    dsimp only
    split <;> exact Or.inl rfl

end Cursor

lemma Follows.reads {r s : Reading} {ts : List Token} (h : Follows r ts s)
    (hr : r.lookahead.Reads) : ∀ t ∈ ts, t.Reads := by
  induction h with
  | refl => exact List.forall_mem_nil _
  | next h _ ih => exact List.forall_mem_cons.2 ⟨hr, ih (Cursor.reads_of_next h)⟩
  | piece _ ih => exact List.forall_mem_cons.2 ⟨hr, ih (Cursor.reads_of_nextTemplate _)⟩

/-- An accepted source is derived from tokens that are read alone. -/
theorem exists_derivation_of_parse {source : String} {limit : Nat} {tree : Node}
    (h : parse source limit = .ok tree) :
    ∃ body ts, tree = .program body ∧ Derives ⟨limit, 0, false⟩ (.row none .statement body) ts ∧
      ∀ t ∈ ts, t.Reads := by
  obtain ⟨token, after, r, hnext, hrun, -⟩ := programOf_of_parse h
  have hstart := Cursor.lexical_of_next hnext
  obtain ⟨ts, hpass, body, rfl, hbody⟩ := program_gives (upTo_faithful _) hstart tree r hrun
  exact ⟨body, ts, rfl, hbody, hpass.follows.reads (Cursor.reads_of_next hnext)⟩

lemma Is.isToken {kind : Kind} {token : Token} (h : Is kind token) (hreads : token.Reads)
    (hfree : kind.isFree = false := by rfl) : IsToken kind token.text := by
  obtain ⟨rfl, -⟩ := h
  rcases hreads with hfree' | htoken
  · rw [hfree] at hfree'
    cases hfree'
  · exact htoken

/-- A reserved word, read as one token. -/
def IsReserved (name : String) : Prop :=
  ∃ kind : Kind, kind.isKeyword = true ∧ IsToken kind name

lemma IsMemberWord.isToken {token : Token} (h : IsMemberWord token) (hreads : token.Reads) :
    IsToken .identifier token.text ∨ IsReserved token.text := by
  obtain ⟨hkind, hspells⟩ := h
  rcases hkind with hname | hword
  · exact Or.inl (Is.isToken ⟨hname, hname ▸ hspells⟩ hreads)
  · refine Or.inr ⟨token.kind, hword, Is.isToken ⟨rfl, hspells⟩ hreads ?_⟩
    generalize token.kind = kind at hword ⊢
    cases kind <;> first | rfl | cases hword

namespace Node

/-- The field of a node that holds the name of a member, which stands for no variable. -/
def labelField? : Node → Option String
  | property _ _ false _ => some "key"
  | memberExpression _ _ false | optionalMemberExpression _ _ false _ => some "property"
  | classProperty .. | classPrivateProperty .. | classMethodDefinition .. => some "key"
  | privateName _ => some "id"
  | _ => none

/-- The name that a node is, if it is one. -/
def name? : Node → Option String
  | identifier name => some name
  | _ => none

/-- The names among the children of a node that stand for variables. -/
def references (node : Node) : List String :=
  (node.fields.filter fun field => node.labelField? != some field.1).flatMap fun field =>
    field.2.nodes.filterMap name?

/-- The shorthand property of a name: its one word is the key, and the variable too. -/
def shorthand (name : String) : Node :=
  property (identifier name) (identifier name) false false

/-- The variables among a node's children are names; of a shorthand property the variable may be a
reserved word. -/
def Named (node : Node) : Prop :=
  ∀ name ∈ node.references,
    IsToken .identifier name ∨ node = shorthand name ∧ IsReserved name

/-- A tree with names for its variables, and itself a name if it is a variable. Where it is the
label of a member it may be a reserved word. -/
def Refers (node : Node) (isLabel : Bool) : Prop :=
  node.Everywhere Named ∧ ∀ name ∈ node.name?,
    IsToken .identifier name ∨ isLabel = true ∧ IsReserved name

lemma mem_references {node : Node} {name : String} : name ∈ node.references ↔
    ∃ field ∈ node.fields, node.labelField? ≠ some field.1 ∧
      ∃ child ∈ field.2.nodes, child.name? = some name := by
  simp [references, and_assoc]

lemma Refers.loosen {node : Node} {isLabel : Bool} (h : node.Refers false) :
    node.Refers isLabel := by
  refine ⟨h.1, fun name hname => ?_⟩
  rcases h.2 name hname with hname | ⟨⟨⟩, -⟩
  exact Or.inl hname

lemma Refers.isToken {node : Node} {name : String} (h : node.Refers false)
    (hname : node.name? = some name) : IsToken .identifier name := by
  rcases h.2 name hname with hname | ⟨⟨⟩, -⟩
  exact hname

/-- A node that is no name refers if its fields do, each by what it holds. -/
lemma Refers.of_fields {node : Node} {isLabel : Bool} (hnode : node.name? = none)
    (h : ∀ field ∈ node.fields, ∀ child ∈ field.2.nodes,
      child.Refers (node.labelField? == some field.1)) : node.Refers isLabel := by
  refine ⟨.node (fun name hname => ?_) fun child hchild => ?_, ?_⟩
  · obtain ⟨field, hfield, hlabel, child, hchild, hname⟩ := mem_references.1 hname
    have hrefers := h field hfield child hchild
    rw [beq_false_of_ne hlabel] at hrefers
    exact Or.inl (hrefers.isToken hname)
  · obtain ⟨field, hfield, hchild⟩ := mem_children.1 hchild
    exact (h field hfield child hchild).1
  · rw [hnode]
    rintro name ⟨⟩

/-- Most nodes have no label among their fields. -/
lemma Refers.of_children {node : Node} {isLabel : Bool} (hnode : node.name? = none)
    (h : ∀ child ∈ node.children, child.Refers false) : node.Refers isLabel :=
  .of_fields hnode fun field hfield child hchild =>
    (h child (mem_children.2 ⟨field, hfield, hchild⟩)).loosen

lemma Refers.child {node child : Node} {isLabel : Bool} (h : node.Refers isLabel)
    (hlabel : node.labelField? = none) (hchild : child ∈ node.children) : child.Refers false := by
  refine ⟨h.1.of_mem_children hchild, fun name hname => Or.inl ?_⟩
  obtain ⟨field, hfield, hchild⟩ := mem_children.1 hchild
  have hmem : name ∈ node.references :=
    mem_references.2 ⟨field, hfield, by simp [hlabel], child, hchild, hname⟩
  rcases h.1.here name hmem with hname | ⟨rfl, -⟩
  · exact hname
  · cases hlabel

lemma refers_label {name : String} {isLabel : Bool}
    (h : IsToken .identifier name ∨ isLabel = true ∧ IsReserved name) :
    (identifier name).Refers isLabel :=
  ⟨.of_leaf (fun _ hmem => nomatch hmem) rfl, fun _ hname => Option.some.inj hname ▸ h⟩

lemma refers_name {name : String} {isLabel : Bool} (h : IsToken .identifier name) :
    (identifier name).Refers isLabel :=
  refers_label (Or.inl h)

lemma refers_leaf {node : Node} {isLabel : Bool} (hnode : node.name? = none)
    (hleaf : node.children = []) : node.Refers isLabel :=
  .of_children hnode (by simp [hleaf])

lemma refers_of_arrowParam? {node param : Node} {isLabel : Bool} (h : node.Refers false)
    (hparam : arrowParam? node = some param) : param.Refers isLabel := by
  unfold arrowParam? at hparam
  split at hparam
  next name =>
    cases hparam
    exact h.loosen
  next name operator value =>
    cases hparam
    have hparts : (identifier name).Refers false ∧ value.Refers false :=
      ⟨h.child rfl (by simp [children, fields, Field.nodes]),
        h.child rfl (by simp [children, fields, Field.nodes])⟩
    exact .of_children rfl (by simpa [children, fields, Field.nodes] using hparts)
  next => cases hparam

lemma refers_of_arrowParams? {node : Node} {params : List Node} (h : node.Refers false)
    (hparams : arrowParams? node = some params) : ∀ param ∈ params, param.Refers false := by
  intro param hmem
  obtain ⟨part, rfl | ⟨parts, rfl, hpart⟩, hparam⟩ := exists_arrowParam? hparams hmem
  · exact refers_of_arrowParam? h hparam
  · refine refers_of_arrowParam? (h.child rfl ?_) hparam
    simpa [children, fields, Field.nodes] using hpart

end Node

/-- Whether the nodes of a category name members. -/
def Category.isLabel : Category → Bool
  | .key computed => !computed
  | .memberName | .memberKey _ => true
  | _ => false

/-- All nodes of a phrase refer to variables by names, wherever they do not name members. -/
def Phrase.Refers : Phrase → Prop
  | one category n => n.Refers category.isLabel
  | perhaps category n? | behind _ category n? => ∀ n ∈ n?, n.Refers category.isLabel
  | row _ category ns | list _ _ category ns => ∀ n ∈ ns, n.Refers category.isLabel
  | code params body => (∀ param ∈ params, param.Refers false) ∧ body.Refers false
  | head params => ∀ param ∈ params, param.Refers false
  | template _ es qs => (∀ e ∈ es, e.Refers false) ∧ ∀ q ∈ qs, q.Refers false

namespace Node

lemma refers_function {generator isAsync isLabel : Bool} {params : List Node} {body : Node}
    (h : (Phrase.code params body).Refers) :
    (functionExpression none generator isAsync params body).Refers isLabel := by
  refine .of_children rfl ?_
  simpa [children, fields, Field.nodes, or_imp, forall_and] using ⟨h.1, h.2⟩

lemma refers_property {key value : Node} {computed method isLabel : Bool}
    (hkey : key.Refers !computed) (hvalue : value.Refers false) :
    (property key value computed method).Refers isLabel := by
  refine .of_fields rfl ?_
  cases computed <;> simpa [fields, Field.nodes, labelField?] using ⟨hkey, hvalue⟩

lemma refers_classBody {members : List Node} {isLabel : Bool}
    (h : ∀ member ∈ members, member.Refers false) : (classBody members).Refers isLabel :=
  .of_children rfl (by simpa [children, fields, Field.nodes] using h)

/-- The one word of a shorthand property may be reserved, as it was read for a key. -/
lemma refers_shorthand {name : String} {isLabel : Bool} (h : (identifier name).Refers true) :
    (Node.shorthand name).Refers isLabel := by
  refine ⟨.node ?_ ?_, fun _ hname => nomatch hname⟩
  · intro other hother
    have heq : other = name := by
      simpa [references, shorthand, fields, Field.nodes, labelField?, name?] using hother
    subst heq
    exact (h.2 other rfl).imp_right fun hword => ⟨rfl, hword.2⟩
  · simpa [shorthand, children, fields, Field.nodes] using h.1

end Node

lemma Literal.refers {t : Token} {n : Node} {isLabel : Bool} (h : Literal t n) :
    n.Refers isLabel := by
  cases h <;> exact Node.refers_leaf rfl rfl

/-- Every derivation from tokens that are read alone is of nodes that refer by names. -/
theorem Derives.refers {c : Context} {phrase : Phrase} {ts : List Token}
    (h : Derives c phrase ts) : (∀ t ∈ ts, t.Reads) → phrase.Refers := by
  induction h
  -- what is known of all tokens is known of those of each part
  all_goals
    try simp only [List.forall_mem_append, List.forall_mem_cons, List.not_mem_nil, false_implies,
      implies_true, and_imp, true_implies]
  case absent | nothingBehind | rowNil | headNone | templateStart => simp [Phrase.Refers]
  case present ih =>
    rintro hts _ ⟨⟩
    exact ih hts
  case behind ih =>
    rintro _ hts _ ⟨⟩
    exact ih hts
  case rowSeparator ih => exact fun hts _ => ih hts
  case rowItem ihrow ih =>
    exact fun hts hus => List.forall_mem_append.2 ⟨ihrow hts, List.forall_mem_singleton.2 (ih hus)⟩
  case list ih | enclosed ih => exact fun _ hts _ => ih hts
  case name ht => exact fun hread => Node.refers_name (ht.isToken hread)
  case parameter ih | nameValue ih | plainArrow ih | yieldValue ih | arrowBlock ih
    | arrowExpression ih | base ih | heritage ih | created ih | createdInside ih | suffixed ih
    | operand ih | loosen ih | yieldElement ih | statement ih | blockStatement ih
    | loopDeclaration ih | loopExpression ih | loopBlock ih | keyComputed ih => exact ih
  case expressionStatement ih | declarationStatement ih | catchParameter ih =>
    exact fun hts _ => ih hts
  case code ihparams ihbody => exact fun hts hus => ⟨ihparams hts, ihbody hus⟩
  case headName ih => exact fun hts => List.forall_mem_singleton.2 (ih hts)
  case headCover hparams ih => exact fun hts => Node.refers_of_arrowParams? (ih hts) hparams
  case literal h | keyLiteral h => exact fun _ => h.refers
  case keyWord ht | memberWord ht | publicKey ht =>
    exact fun hread => Node.refers_label ((ht.isToken hread).imp_right fun hword => ⟨rfl, hword⟩)
  case privateKey ht =>
    intro _ hread
    refine .of_fields rfl ?_
    simpa [Node.fields, Field.nodes, Node.labelField?] using
      Node.refers_label ((ht.isToken hread).imp_right fun hword => ⟨rfl, hword⟩)
  case memberPrivate ih =>
    exact fun _ hts => .of_fields rfl (by
      simpa [Node.fields, Field.nodes, Node.labelField?] using Node.Refers.loosen (ih hts))
  -- constructs without labels, by the number of their parts
  case continueStatement | breakStatement => exact fun _ _ => Node.refers_leaf rfl rfl
  case asyncArrow ih =>
    exact fun _ hts => .of_children rfl fun child hchild => Node.Refers.child (ih hts) rfl hchild
  case array ih | object ih | parenthesized ih | sequence ih | block ih | loopSingle ih
    | yielding ih | creation ih | unary ih | update ih | await ih | updateBehind ih
    | returnStatement ih | throwStatement ih =>
    intros
    refine .of_children rfl ?_
    simpa [Node.children, Node.fields, Field.nodes, Phrase.Refers, Category.isLabel] using ih ‹_›
  case power ihl ihr | binary ihl ihr | logical ihl ihr | assignment ihl ihr
    | complexAssignment ihl ihr | parameterWithDefault ihl ihr | call ihl ihr | optionalCall ihl ihr
    | creationWith ihl ihr | computedMember ihl ihr | optionalComputedMember ihl ihr
    | declaration ihl ihr | whileStatement ihl ihr | doWhileStatement ihl ihr =>
    intros
    refine .of_children rfl ?_
    simpa [Node.children, Node.fields, Field.nodes] using ⟨ihl ‹_›, ihr ‹_›⟩
  case arrow ihparams ihbody | catchClause ihparams ihbody =>
    intros
    refine .of_children rfl ?_
    simpa [Node.children, Node.fields, Field.nodes, or_imp, forall_and] using
      ⟨ihparams ‹_›, ihbody ‹_›⟩
  case functionExpression ihid ihcode | functionDeclaration ihid ihcode =>
    intro _ _ hts hus
    refine .of_children rfl ?_
    simpa [Node.children, Node.fields, Field.nodes, or_imp, forall_and] using
      ⟨ihid hts, (ihcode hus).1, (ihcode hus).2⟩
  case ifStatement ihfirst ihsecond ihthird | forOfStatement ihfirst ihsecond ihthird
    | tryStatement ihfirst ihsecond ihthird =>
    intros
    refine .of_children rfl ?_
    simpa [Node.children, Node.fields, Field.nodes, or_imp, forall_and] using
      ⟨ihfirst ‹_›, ihsecond ‹_›, ihthird ‹_›⟩
  case forStatement ihinit ihtest ihupdate ihbody =>
    intro _ _ hts _ hus _ hvs _ hws
    refine .of_children rfl ?_
    simpa [Node.children, Node.fields, Field.nodes, or_imp, forall_and] using
      ⟨ihinit hts, ihtest hus, ihupdate hvs, ihbody hws⟩
  case classDeclaration ihid ihsuper ihmembers =>
    intro _ hts hus hvs
    refine .of_children rfl ?_
    simpa [Node.children, Node.fields, Field.nodes, or_imp, forall_and] using
      ⟨ihid hts, ihsuper hus, Node.refers_classBody (ihmembers hvs)⟩
  case templateText ih =>
    intro hts _
    exact ⟨(ih hts).1, List.forall_mem_append.2
      ⟨(ih hts).2, List.forall_mem_singleton.2 (Node.refers_leaf rfl rfl)⟩⟩
  case templateInsertion ih ihn =>
    intro hts _ _ hus _
    exact ⟨List.forall_mem_append.2 ⟨(ih hts).1, List.forall_mem_singleton.2 (ihn hus)⟩,
      List.forall_mem_append.2
        ⟨(ih hts).2, List.forall_mem_singleton.2 (Node.refers_leaf rfl rfl)⟩⟩
  case template ih =>
    intro _ hts _
    refine .of_children rfl ?_
    simpa [Node.children, Node.fields, Field.nodes, or_imp, forall_and] using
      ⟨(ih hts).1, (ih hts).2⟩
  case templateWithoutEnd ih =>
    intro _ hts _
    refine .of_children rfl ?_
    simpa [Node.children, Node.fields, Field.nodes, or_imp, forall_and] using
      ⟨(ih hts).1, (ih hts).2, Node.refers_leaf rfl rfl⟩
  case member ihl ihr | optionalMember ihl ihr | classProperty ihl ihr
    | classPrivateProperty ihl ihr =>
    intros
    refine .of_fields rfl ?_
    simpa [Node.fields, Field.nodes, Node.labelField?] using ⟨ihl ‹_›, ihr ‹_›⟩
  case method ihkey ihcode =>
    intro _ _ _ hts hus
    refine .of_fields rfl ?_
    simpa [Node.fields, Field.nodes, Node.labelField?] using
      ⟨ihkey hts, Node.refers_function (ihcode hus)⟩
  case propertyMethod ihkey ihcode =>
    exact fun _ _ hts hus => Node.refers_property (ihkey hts) (Node.refers_function (ihcode hus))
  case propertyValue ihkey ihvalue =>
    exact fun hts _ hus => Node.refers_property (ihkey hts) (ihvalue hus)
  case shorthand ih => exact fun hts => Node.refers_shorthand (ih hts)

lemma named_of_parse {source : String} {limit : Nat} {tree : Node}
    (h : parse source limit = .ok tree) : ∀ entry ∈ tree.walk, entry.2.Named := by
  obtain ⟨body, ts, rfl, hbody, hreads⟩ := exists_derivation_of_parse h
  have hrefers : ∀ n ∈ body, n.Refers false := hbody.refers hreads
  have htree : (Node.program body).Refers false :=
    .of_children rfl (by simpa [Node.children, Node.fields, Field.nodes] using hrefers)
  exact fun entry hentry => htree.1.of_mem_walkFrom hentry

/-- In an accepted tree, what stands for a variable is a name and no reserved word, except that the
word of a shorthand property may be reserved. So all variables have names exactly if the words of
all shorthand properties are names. -/
theorem references_of_parse {source : String} {limit : Nat} {tree : Node}
    (h : parse source limit = .ok tree) :
    (∀ entry ∈ tree.walk, ∀ name ∈ entry.2.references,
      IsToken .identifier name ∨ entry.2 = .shorthand name ∧ IsReserved name) ∧
    ((∀ entry ∈ tree.walk, ∀ name ∈ entry.2.references, IsToken .identifier name) ↔
      ∀ entry ∈ tree.walk, ∀ name, entry.2 = .shorthand name → IsToken .identifier name) := by
  have hnamed := named_of_parse h
  refine ⟨hnamed, fun hall entry hentry name hshort => ?_, fun hshort entry hentry name hname => ?_⟩
  · refine hall entry hentry name ?_
    rw [hshort]
    exact List.mem_singleton.2 rfl
  · rcases hnamed entry hentry name hname with htoken | ⟨hnode, -⟩
    · exact htoken
    · exact hshort entry hentry name hnode

/-- Reserved words in all places of labels, beside variables that become parameters. -/
theorem references_beside_labels :
    ∃ tree, parse
        "class a extends b.if \x7b static #for = (\x7bnew: c, d\x7d).do; of(f = g) \x7b\x7d \x7d" =
          .ok tree ∧
      (tree.walk.flatMap fun entry => entry.2.references) = ["a", "b", "c", "d", "f", "g"] ∧
      ∀ entry ∈ tree.walk, ∀ name ∈ entry.2.references,
        IsToken .identifier name ∨ entry.2 = .shorthand name ∧ IsReserved name := by
  have hnames : (parse
      "class a extends b.if \x7b static #for = (\x7bnew: c, d\x7d).do; of(f = g) \x7b\x7d \x7d").map
        (fun tree => tree.walk.flatMap fun entry => entry.2.references) =
      .ok ["a", "b", "c", "d", "f", "g"] := by
    decide +kernel
  rcases hparse : parse
      "class a extends b.if \x7b static #for = (\x7bnew: c, d\x7d).do; of(f = g) \x7b\x7d \x7d" with
    e | tree
  · rw [hparse] at hnames
    cases hnames
  · rw [hparse] at hnames
    exact ⟨tree, rfl, Except.ok.inj hnames, (references_of_parse hparse).1⟩

/-- The word `async` is reserved, and may be a property by itself all the same. -/
theorem reserved_word_is_reference :
    ¬∀ source limit tree, parse source limit = .ok tree →
      ∀ entry ∈ tree.walk, ∀ name ∈ entry.2.references, IsToken .identifier name := by
  intro hall
  have hnames : (parse "(\x7basync\x7d)").map
      (fun tree => tree.walk.flatMap fun entry => entry.2.references) = .ok ["async"] := by
    decide +kernel
  rcases hparse : parse "(\x7basync\x7d)" with e | tree
  · rw [hparse] at hnames
    cases hnames
  · rw [hparse] at hnames
    have hall_names : (tree.walk.flatMap fun entry => entry.2.references) = ["async"] :=
      Except.ok.inj hnames
    have hmem : "async" ∈ tree.walk.flatMap fun entry => entry.2.references := by
      rw [hall_names]
      exact List.mem_singleton.2 rfl
    obtain ⟨entry, hentry, hname⟩ := List.mem_flatMap.1 hmem
    have htoken := hall _ _ _ hparse entry hentry "async" hname
    have hword : IsToken .kwAsync "async" := isToken_of_first? rfl
    cases htoken.1.symm.trans hword.1

end ScriptTree
