import ScriptTree.Proofs.Ladder
import ScriptTree.Proofs.Texts

/-!
# Derivations

`Derives c phrase tokens` says how a phrase is made of tokens: by one rule for each construct, with the
tokens of its parts between its own. Every accepted source has a derivation, so what holds of all
derivations holds of all accepted sources. Depth and function context are those in which a phrase is
read. Separators are not tied to their places: in a row they may stand anywhere.
-/

namespace ScriptTree

namespace Context

/-- The context one level deeper. -/
def deeper (c : Context) : Context :=
  { c with depth := c.depth + 1 }

/-- The same context in a function. -/
def inside (c : Context) : Context :=
  { c with inFunction := true }

end Context

/-- A token that spells an operator. -/
def IsOperator (text : String) (token : Token) : Prop :=
  Is (kindOf text) token ∧ token.text = text

lemma Is.isOperator {kind : Kind} {token : Token} (h : Is kind token)
    (hne : kind.spellings ≠ []) : IsOperator token.text token := by
  have hkind := kindOf_of_mem_spellings (h.2.mem_spellings hne)
  refine ⟨?_, rfl⟩
  rwa [hkind]

/-- A star. -/
def IsStar (token : Token) : Prop :=
  Is .multiplicative token ∧ token.text = "*"

/-- A word that may name a member. -/
def IsMemberWord (token : Token) : Prop :=
  (token.kind = .identifier ∨ token.kind.isKeyword = true) ∧ token.kind.Spells token.text

/-- A token that may be missing, and whether it is there. -/
inductive Mark (P : Token → Prop) : Bool → List Token → Prop where
  | absent : Mark P false []
  | present {token : Token} (h : P token) : Mark P true [token]

/-- The word that begins a function. -/
def functionWord (generator : Bool) : Kind :=
  if generator then .kwFunctionStar else .kwFunction

/-- Values that are one token. -/
inductive Literal : Token → Node → Prop where
  | number {t : Token} {value : Decimal} (ht : Is .number t)
      (hvalue : Decimal.ofText? t.text = some value) : Literal t (.numericLiteral value.toBinary64)
  | bigInt {t : Token} {digits : String} (ht : Is .bigInt t) (htext : t.text = digits ++ "n")
      (hdigits : ∀ c ∈ digits.toList, c.isDigit = true) : Literal t (.bigIntLiteral digits)
  | string {t : Token} {quote value : String} (ht : Is .string t)
      (hquote : quote = "'" ∨ quote = "\x22") (htext : t.text = quote ++ value ++ quote) :
      Literal t (.stringLiteral value)
  | regExp {t : Token} {pattern flags : String} (ht : Is .regex t)
      (htext : t.text = "/" ++ pattern ++ "/" ++ flags) (hpattern : pattern ≠ "")
      (hflags : ∀ c ∈ flags.toList, c ∈ regexFlags) : Literal t (.regExpLiteral pattern flags)
  | boolean {t : Token} {value : Bool} (ht : Is .boolean t)
      (htext : t.text = if value then "true" else "false") : Literal t (.booleanLiteral value)
  | null {t : Token} (ht : Is .null t) : Literal t .nullLiteral
  | undefined {t : Token} (ht : Is .undefined t) : Literal t .undefinedLiteral
  | this {t : Token} (ht : Is .kwThis t) : Literal t .thisExpression

inductive Bracket where
  | round | square | curly

namespace Bracket

def opening : Bracket → Kind
  | round => .lParen
  | square => .lBracket
  | curly => .lBrace

def closing : Bracket → Kind
  | round => .rParen
  | square => .rBracket
  | curly => .rBrace

end Bracket

/-- What a row of member accesses belongs to: an operand, what a `new` creates, or what a class
extends. Only an operand may hold calls. -/
inductive Chain where
  | operand | callee | heritage
deriving DecidableEq

inductive Category where
  /-- A statement one level deeper than its surroundings. -/
  | statement
  /-- A statement on its level of nesting. -/
  | statementKind
  | block
  | declaration
  | loopStart
  | loopBody
  | catchClause
  | catchParameter
  /-- Expressions that are at least as tight as a level of the ladder. -/
  | tier (level : Nat)
  /-- An expression in brackets. -/
  | enclosed (bracket : Bracket) (level : Nat)
  | operand
  | chain (of : Chain)
  | creation
  | primary
  | yielding
  | arrow
  | arrowBody
  | parameter
  | property
  | key (computed : Bool)
  | name
  | memberName
  | member
  | memberKey (isPrivate : Bool)

inductive Phrase where
  | one (category : Category) (node : Node)
  | perhaps (category : Category) (node? : Option Node)
  /-- A part that comes with a token in front of it, or not at all. -/
  | behind (kind : Kind) (category : Category) (node? : Option Node)
  | row (separator : Option Kind) (category : Category) (nodes : List Node)
  /-- A row in brackets. -/
  | list (bracket : Bracket) (separator : Option Kind) (category : Category) (nodes : List Node)
  /-- Parameters and body of a function. -/
  | code (params : List Node) (body : Node)
  /-- Parameters in front of an arrow. -/
  | head (params : List Node)
  /-- The parts of a template, and whether a piece of text is due behind them. -/
  | template (textDue : Bool) (expressions quasis : List Node)

/-- How phrases are made of tokens. -/
inductive Derives : Context → Phrase → List Token → Prop where
  -- Parts that any construct may have, and functions.
  | absent {c category} : Derives c (.perhaps category none) []
  | present {c category n ts} (h : Derives c (.one category n) ts) :
      Derives c (.perhaps category (some n)) ts
  | nothingBehind {c kind category} : Derives c (.behind kind category none) []
  | behind {c kind category n t ts} (ht : Is kind t) (h : Derives c (.one category n) ts) :
      Derives c (.behind kind category (some n)) (t :: ts)
  | rowNil {c separator category} : Derives c (.row separator category []) []
  | rowSeparator {c kind category ns ts t} (h : Derives c (.row (some kind) category ns) ts)
      (ht : Is kind t) : Derives c (.row (some kind) category ns) (ts ++ [t])
  | rowItem {c separator category ns ts n us} (h : Derives c (.row separator category ns) ts)
      (hn : Derives c (.one category n) us) :
      Derives c (.row separator category (ns ++ [n])) (ts ++ us)
  | list {c bracket separator category ns t ts u} (ht : Is (Bracket.opening bracket) t)
      (h : Derives c (.row separator category ns) ts) (hu : Is bracket.closing u) :
      Derives c (.list bracket separator category ns) (t :: (ts ++ [u]))
  | enclosed {c bracket level n t ts u} (ht : Is (Bracket.opening bracket) t)
      (h : Derives c (.one (.tier level) n) ts) (hu : Is bracket.closing u) :
      Derives c (.one (.enclosed bracket level) n) (t :: (ts ++ [u]))
  | name {c t} (ht : Is .identifier t) : Derives c (.one .name (.identifier t.text)) [t]
  | parameter {c n ts} (h : Derives c (.one .name n) ts) : Derives c (.one .parameter n) ts
  | parameterWithDefault {c n ts t value us} (h : Derives c (.one .name n) ts)
      (ht : Is .assignment t) (hvalue : Derives c (.one (.tier 1) value) us) :
      Derives c (.one .parameter (.assignmentPattern n value)) (ts ++ t :: us)
  | code {c params ts body us}
      (hparams : Derives c (.list .round (some .comma) .parameter params) ts)
      (hbody : Derives c.inside (.one .block body) us) : Derives c (.code params body) (ts ++ us)
  | headNone {c t u} (ht : Is .lParen t) (hu : Is .rParen u) : Derives c (.head []) [t, u]
  | headName {c n ts} (h : Derives c (.one .name n) ts) : Derives c (.head [n]) ts
  | headCover {c n ts params} (h : Derives c (.one (.enclosed .round 0) n) ts)
      (hparams : arrowParams? n = some params) : Derives c (.head params) ts
  | arrowBlock {c n ts} (h : Derives c (.one .block n) ts) : Derives c (.one .arrowBody n) ts
  | arrowExpression {c n ts} (h : Derives c (.one (.tier 1) n) ts) :
      Derives c (.one .arrowBody n) ts
  | arrow {c params ts t body us} (hparams : Derives c (.head params) ts) (ht : Is .arrow t)
      (hbody : Derives c.inside (.one .arrowBody body) us) :
      Derives c (.one .arrow (.arrowFunctionExpression false false params body)) (ts ++ t :: us)
  -- Expressions.
  | literal {c t n} (h : Literal t n) : Derives c (.one .primary n) [t]
  | nameValue {c n ts} (h : Derives c (.one .name n) ts) : Derives c (.one .primary n) ts
  | array {c elements ts}
      (h : Derives c (.list .square (some .comma) (.tier 1) elements) ts) :
      Derives c (.one .primary (.arrayLiteral elements)) ts
  | object {c properties ts}
      (h : Derives c (.list .curly (some .comma) .property properties) ts) :
      Derives c (.one .primary (.objectLiteral properties)) ts
  | parenthesized {c n ts} (h : Derives c (.one (.enclosed .round 0) n) ts) :
      Derives c (.one .primary (.parenthesizedExpression n)) ts
  | plainArrow {c n ts} (h : Derives c (.one .arrow n) ts) : Derives c (.one .primary n) ts
  | asyncArrow {c t generator isAsync params body ts} (ht : Is .kwAsync t)
      (h : Derives c (.one .arrow (.arrowFunctionExpression generator isAsync params body)) ts) :
      Derives c (.one .primary (.arrowFunctionExpression generator true params body)) (t :: ts)
  | functionExpression {c isAsync ms generator t id ts params body us}
      (hm : Mark (Is .kwAsync) isAsync ms) (ht : Is (functionWord generator) t)
      (hid : Derives c (.perhaps .name id) ts) (hcode : Derives c (.code params body) us) :
      Derives c (.one .primary (.functionExpression id generator isAsync params body))
        (ms ++ t :: (ts ++ us))
  | yieldValue {c n ts} (h : Derives c (.one .yielding n) ts) : Derives c (.one .primary n) ts
  | yielding {c t n ts} (ht : Is .kwYield t) (h : Derives c (.perhaps (.tier 1) n) ts) :
      Derives c (.one .yielding (.yieldExpression n)) (t :: ts)
  | templateStart {c} : Derives c (.template true [] []) []
  | templateText {c es qs ts t} (h : Derives c (.template true es qs) ts)
      (ht : t.kind = .templateString) :
      Derives c (.template false es (qs ++ [.templateElement t.text])) (ts ++ [t])
  | templateInsertion {c es qs ts t u n us v} (h : Derives c (.template true es qs) ts)
      (ht : t.kind = .dollarBrace) (hu : Is .lBrace u) (hn : Derives c (.one (.tier 0) n) us)
      (hv : Is .rBrace v) :
      Derives c (.template true (es ++ [n]) (qs ++ [.templateElement t.text]))
        (ts ++ t :: u :: (us ++ [v]))
  | template {c t es qs ts u} (ht : Is .backtick t) (h : Derives c (.template false es qs) ts)
      (hu : Is .backtick u) : Derives c (.one .primary (.templateLiteral es qs)) (t :: (ts ++ [u]))
  | templateWithoutEnd {c t es qs ts u} (ht : Is .backtick t)
      (h : Derives c (.template true es qs) ts) (hu : Is .backtick u) :
      Derives c (.one .primary (.templateLiteral es (qs ++ [.templateElement ""])))
        (t :: (ts ++ [u]))
  | keyWord {c t} (ht : IsMemberWord t) : Derives c (.one (.key false) (.identifier t.text)) [t]
  | keyLiteral {c t n} (ht : t.kind = .string ∨ t.kind = .number) (h : Literal t n) :
      Derives c (.one (.key false) n) [t]
  | keyComputed {c n ts} (h : Derives c (.one (.enclosed .square 1) n) ts) :
      Derives c (.one (.key true) n) ts
  | propertyMethod {c isAsync ms generator gs computed key ts params body us}
      (hm : Mark (Is .kwAsync) isAsync ms) (hg : Mark IsStar generator gs)
      (hkey : Derives c (.one (.key computed) key) ts) (hcode : Derives c (.code params body) us) :
      Derives c (.one .property
        (.property key (.functionExpression none generator isAsync params body) computed true))
        (ms ++ (gs ++ (ts ++ us)))
  | propertyValue {c computed key ts t value us} (hkey : Derives c (.one (.key computed) key) ts)
      (ht : Is .colon t) (hvalue : Derives c (.one (.tier 1) value) us) :
      Derives c (.one .property (.property key value computed false)) (ts ++ t :: us)
  | shorthand {c name ts} (hkey : Derives c (.one (.key false) (.identifier name)) ts) :
      Derives c (.one .property (.property (.identifier name) (.identifier name) false false)) ts
  | memberWord {c t} (ht : IsMemberWord t) : Derives c (.one .memberName (.identifier t.text)) [t]
  | memberPrivate {c t n ts} (ht : Is .hash t) (h : Derives c (.one .name n) ts) :
      Derives c (.one .memberName (.privateName n)) (t :: ts)
  | base {c of n ts} (hof : of ≠ .heritage) (h : Derives c (.one .primary n) ts) :
      Derives c (.one (.chain of) n) ts
  | heritage {c n ts} (h : Derives c (.one .name n) ts) : Derives c (.one (.chain .heritage) n) ts
  | created {c n ts} (h : Derives c (.one .creation n) ts) : Derives c (.one (.chain .operand) n) ts
  | createdInside {c n ts} (hdepth : c.depth < c.limit)
      (h : Derives c.deeper (.one .creation n) ts) : Derives c (.one (.chain .callee) n) ts
  | member {c of o ts t m us} (h : Derives c (.one (.chain of) o) ts) (ht : Is .dot t)
      (hm : Derives c (.one .memberName m) us) :
      Derives c (.one (.chain of) (.memberExpression o m false)) (ts ++ t :: us)
  | computedMember {c of o ts m us} (h : Derives c (.one (.chain of) o) ts)
      (hm : Derives c (.one (.enclosed .square 0) m) us) :
      Derives c (.one (.chain of) (.memberExpression o m true)) (ts ++ us)
  | optionalMember {c o ts t m us} (h : Derives c (.one (.chain .operand) o) ts)
      (ht : Is .questionDot t) (hm : Derives c (.one .memberName m) us) :
      Derives c (.one (.chain .operand) (.optionalMemberExpression o m false true)) (ts ++ t :: us)
  | optionalComputedMember {c o ts t m us} (h : Derives c (.one (.chain .operand) o) ts)
      (ht : Is .questionDot t) (hm : Derives c (.one (.enclosed .square 0) m) us) :
      Derives c (.one (.chain .operand) (.optionalMemberExpression o m true true)) (ts ++ t :: us)
  | call {c o ts args us} (h : Derives c (.one (.chain .operand) o) ts)
      (hargs : Derives c (.list .round (some .comma) (.tier 1) args) us) :
      Derives c (.one (.chain .operand) (.callExpression o args)) (ts ++ us)
  | optionalCall {c o ts t args us} (h : Derives c (.one (.chain .operand) o) ts)
      (ht : Is .questionDot t)
      (hargs : Derives c (.list .round (some .comma) (.tier 1) args) us) :
      Derives c (.one (.chain .operand) (.optionalCallExpression o args true)) (ts ++ t :: us)
  | creation {c t o ts} (ht : Is .kwNew t) (h : Derives c (.one (.chain .callee) o) ts) :
      Derives c (.one .creation (.newExpression o [])) (t :: ts)
  | creationWith {c t o ts args us} (ht : Is .kwNew t) (h : Derives c (.one (.chain .callee) o) ts)
      (hargs : Derives c (.list .round (some .comma) (.tier 1) args) us) :
      Derives c (.one .creation (.newExpression o args)) (t :: (ts ++ us))
  | suffixed {c n ts} (h : Derives c (.one (.chain .operand) n) ts) : Derives c (.one .operand n) ts
  | updateBehind {c n ts t operator} (h : Derives c (.one (.chain .operand) n) ts)
      (htarget : n.isAssignmentTarget = true) (ht : IsOperator (UpdateOperator.text operator) t) :
      Derives c (.one .operand (.updateExpression operator false n)) (ts ++ [t])
  | unary {c t operator n ts} (ht : IsOperator (UnaryOperator.text operator) t)
      (h : Derives c (.one (.tier 12) n) ts) :
      Derives c (.one .operand (.unaryExpression operator n)) (t :: ts)
  | update {c t operator n ts} (ht : IsOperator (UpdateOperator.text operator) t)
      (h : Derives c (.one (.tier 12) n) ts) (htarget : n.isAssignmentTarget = true) :
      Derives c (.one .operand (.updateExpression operator true n)) (t :: ts)
  | await {c t n ts} (ht : Is .kwAwait t) (h : Derives c (.one (.tier 12) n) ts) :
      Derives c (.one .operand (.awaitExpression n)) (t :: ts)
  | operand {c n ts} (hdepth : c.depth < c.limit) (h : Derives c.deeper (.one .operand n) ts) :
      Derives c (.one (.tier 12) n) ts
  | loosen {c j k n ts} (hle : j ≤ k) (h : Derives c (.one (.tier k) n) ts) :
      Derives c (.one (.tier j) n) ts
  | power {c l ts t r us} (hl : Derives c (.one (.tier 12) l) ts)
      (ht : IsOperator (BinaryOperator.text .pow) t) (hdepth : c.depth < c.limit)
      (hr : Derives c.deeper (.one (.tier 11) r) us) :
      Derives c (.one (.tier 11) (.binaryExpression l .pow r)) (ts ++ t :: us)
  | binary {c operator l ts t r us} (hne : operator ≠ .pow)
      (hl : Derives c (.one (.tier (BinaryOperator.level operator)) l) ts)
      (ht : IsOperator operator.text t)
      (hr : Derives c (.one (.tier (operator.level + 1)) r) us) :
      Derives c (.one (.tier operator.level) (.binaryExpression l operator r)) (ts ++ t :: us)
  | logical {c operator l ts t r us}
      (hl : Derives c (.one (.tier (LogicalOperator.level operator)) l) ts)
      (ht : IsOperator operator.text t)
      (hr : Derives c (.one (.tier (operator.level + 1)) r) us) :
      Derives c (.one (.tier operator.level) (.logicalExpression l operator r)) (ts ++ t :: us)
  | assignment {c n ts t value us} (h : Derives c (.one (.tier 2) n) ts)
      (htarget : n.isAssignmentTarget = true) (ht : Is .assignment t) (hdepth : c.depth < c.limit)
      (hvalue : Derives c.deeper (.one (.tier 1) value) us) :
      Derives c (.one (.tier 1) (.assignmentExpression n .assign value)) (ts ++ t :: us)
  | complexAssignment {c n ts t operator value us} (h : Derives c (.one (.tier 2) n) ts)
      (htarget : n.isAssignmentTarget = true) (hne : operator ≠ .assign)
      (ht : IsOperator (AssignmentOperator.text operator) t) (hdepth : c.depth < c.limit)
      (hvalue : Derives c.deeper (.one (.tier 1) value) us) :
      Derives c (.one (.tier 1) (.complexAssignmentExpression n operator value)) (ts ++ t :: us)
  | yieldElement {c n ts} (h : Derives c (.one .yielding n) ts) : Derives c (.one (.tier 1) n) ts
  | sequence {c ns ts} (htwo : 2 ≤ ns.length)
      (h : Derives c (.row (some .comma) (.tier 1) ns) ts) :
      Derives c (.one (.tier 0) (.sequenceExpression ns)) ts
  -- Classes.
  | publicKey {c t} (ht : IsMemberWord t) :
      Derives c (.one (.memberKey false) (.identifier t.text)) [t]
  | privateKey {c t u} (ht : Is .hash t) (hu : IsMemberWord u) :
      Derives c (.one (.memberKey true) (.privateName (.identifier u.text))) [t, u]
  | method {c isStatic ss isAsync ms generator gs isPrivate key ts kind params body us}
      (hs : Mark (Is .kwStatic) isStatic ss) (hm : Mark (Is .kwAsync) isAsync ms)
      (hg : Mark IsStar generator gs) (hkey : Derives c (.one (.memberKey isPrivate) key) ts)
      (hkind : kind = MethodKind.constructor ↔ key = .identifier "constructor")
      (hcode : Derives c (.code params body) us) :
      Derives c (.one .member (.classMethodDefinition key isStatic kind
        (.functionExpression none generator isAsync params body))) (ss ++ (ms ++ (gs ++ (ts ++ us))))
  | classProperty {c isStatic ss key ts value us b vs} (hs : Mark (Is .kwStatic) isStatic ss)
      (hkey : Derives c (.one (.memberKey false) key) ts)
      (hvalue : Derives c (.behind .assignment (.tier 1) value) us)
      (hend : Mark (Is .semicolon) b vs) :
      Derives c (.one .member (.classProperty key value isStatic)) (ss ++ (ts ++ (us ++ vs)))
  | classPrivateProperty {c isStatic ss key ts value us b vs} (hs : Mark (Is .kwStatic) isStatic ss)
      (hkey : Derives c (.one (.memberKey true) key) ts)
      (hvalue : Derives c (.behind .assignment (.tier 1) value) us)
      (hend : Mark (Is .semicolon) b vs) :
      Derives c (.one .member (.classPrivateProperty key value isStatic)) (ss ++ (ts ++ (us ++ vs)))
  | classDeclaration {c t id ts superClass us members vs} (ht : Is .kwClass t)
      (hid : Derives c (.one .name id) ts)
      (hsuper : Derives c (.behind .kwExtends (.chain .heritage) superClass) us)
      (hbody : Derives c (.list .curly (some .semicolon) .member members) vs) :
      Derives c (.one .statementKind (.classDeclaration id superClass (.classBody members)))
        (t :: (ts ++ (us ++ vs)))
  -- Statements.
  | statement {c n ts} (hdepth : c.depth < c.limit)
      (h : Derives c.deeper (.one .statementKind n) ts) : Derives c (.one .statement n) ts
  | block {c body ts} (h : Derives c (.list .curly none .statement body) ts) :
      Derives c (.one .block (.blockStatement body)) ts
  | blockStatement {c n ts} (h : Derives c (.one .block n) ts) :
      Derives c (.one .statementKind n) ts
  | expressionStatement {c n ts b us} (h : Derives c (.one (.tier 0) n) ts)
      (hend : Mark (Is .semicolon) b us) : Derives c (.one .statementKind n) (ts ++ us)
  | declaration {c t kind id ts value us} (ht : Is .kwLetOrConst t)
      (hkind : VariableKind.ofText? t.text = some kind) (hid : Derives c (.one .name id) ts)
      (hvalue : Derives c (.behind .assignment (.tier 0) value) us) :
      Derives c (.one .declaration (.variableDeclaration id value kind)) (t :: (ts ++ us))
  | declarationStatement {c n ts b us} (h : Derives c (.one .declaration n) ts)
      (hend : Mark (Is .semicolon) b us) : Derives c (.one .statementKind n) (ts ++ us)
  | ifStatement {c t test ts consequent us alternate vs} (ht : Is .kwIf t)
      (htest : Derives c (.one (.enclosed .round 0) test) ts)
      (hconsequent : Derives c (.one .statement consequent) us)
      (halternate : Derives c (.behind .kwElse .statement alternate) vs) :
      Derives c (.one .statementKind (.ifStatement test consequent alternate))
        (t :: (ts ++ (us ++ vs)))
  | functionDeclaration {c isAsync ms generator t id ts params body us}
      (hm : Mark (Is .kwAsync) isAsync ms) (ht : Is (functionWord generator) t)
      (hid : Derives c (.one .name id) ts) (hcode : Derives c (.code params body) us) :
      Derives c (.one .statementKind (.functionDeclaration id generator isAsync params body))
        (ms ++ t :: (ts ++ us))
  | loopDeclaration {c n ts} (h : Derives c (.one .declaration n) ts) :
      Derives c (.one .loopStart n) ts
  | loopExpression {c n ts} (h : Derives c (.one (.tier 0) n) ts) : Derives c (.one .loopStart n) ts
  | loopBlock {c n ts} (h : Derives c (.one .block n) ts) : Derives c (.one .loopBody n) ts
  | loopSingle {c n ts} (h : Derives c (.one .statement n) ts) :
      Derives c (.one .loopBody (.blockStatement [n])) ts
  | forStatement {c t u init ts v test us w update vs x body ws} (ht : Is .kwFor t)
      (hu : Is .lParen u) (hinit : Derives c (.perhaps .loopStart init) ts) (hv : Is .semicolon v)
      (htest : Derives c (.perhaps (.tier 0) test) us) (hw : Is .semicolon w)
      (hupdate : Derives c (.perhaps (.tier 0) update) vs) (hx : Is .rParen x)
      (hbody : Derives c (.one .loopBody body) ws) :
      Derives c (.one .statementKind (.forStatement init test update body))
        (t :: u :: (ts ++ v :: (us ++ w :: (vs ++ x :: ws))))
  | forOfStatement {c t u left ts v right us w body vs} (ht : Is .kwFor t) (hu : Is .lParen u)
      (hleft : Derives c (.one .loopStart left) ts) (hv : Is .kwOf v)
      (hright : Derives c (.one (.tier 1) right) us) (hw : Is .rParen w)
      (hbody : Derives c (.one .loopBody body) vs) :
      Derives c (.one .statementKind (.forOfStatement left right body))
        (t :: u :: (ts ++ v :: (us ++ w :: vs)))
  | whileStatement {c t test ts body us} (ht : Is .kwWhile t)
      (htest : Derives c (.one (.enclosed .round 0) test) ts)
      (hbody : Derives c (.one .statement body) us) :
      Derives c (.one .statementKind (.whileStatement test body)) (t :: (ts ++ us))
  | doWhileStatement {c t body ts u test us b vs} (ht : Is .kwDo t)
      (hbody : Derives c (.one .statement body) ts) (hu : Is .kwWhile u)
      (htest : Derives c (.one (.enclosed .round 0) test) us)
      (hend : Mark (Is .semicolon) b vs) :
      Derives c (.one .statementKind (.doWhileStatement body test)) (t :: (ts ++ u :: (us ++ vs)))
  | continueStatement {c t b ts} (ht : Is .kwContinue t) (hend : Mark (Is .semicolon) b ts) :
      Derives c (.one .statementKind .continueStatement) (t :: ts)
  | breakStatement {c t b ts} (ht : Is .kwBreak t) (hend : Mark (Is .semicolon) b ts) :
      Derives c (.one .statementKind .breakStatement) (t :: ts)
  | returnStatement {c t argument ts b us} (hin : c.inFunction = true) (ht : Is .kwReturn t)
      (h : Derives c (.perhaps (.tier 0) argument) ts) (hend : Mark (Is .semicolon) b us) :
      Derives c (.one .statementKind (.returnStatement argument)) (t :: (ts ++ us))
  | throwStatement {c t argument ts b us} (ht : Is .kwThrow t)
      (h : Derives c (.one (.tier 0) argument) ts) (hend : Mark (Is .semicolon) b us) :
      Derives c (.one .statementKind (.throwStatement argument)) (t :: (ts ++ us))
  | catchParameter {c n ts t} (h : Derives c (.one .name n) ts) (ht : Is .rParen t) :
      Derives c (.one .catchParameter n) (ts ++ [t])
  | catchClause {c param ts body us} (hparam : Derives c (.behind .lParen .catchParameter param) ts)
      (hbody : Derives c (.one .block body) us) :
      Derives c (.one .catchClause (.catchClause param body)) (ts ++ us)
  | tryStatement {c t body ts handler us finalizer vs} (ht : Is .kwTry t)
      (hbody : Derives c (.one .block body) ts)
      (hhandler : Derives c (.behind .kwCatch .catchClause handler) us)
      (hfinalizer : Derives c (.behind .kwFinally .block finalizer) vs)
      (hsome : handler.isSome = true ∨ finalizer.isSome = true) :
      Derives c (.one .statementKind (.tryStatement body handler finalizer))
        (t :: (ts ++ (us ++ vs)))

end ScriptTree
