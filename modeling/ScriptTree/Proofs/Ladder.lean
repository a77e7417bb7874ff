import ScriptTree.Proofs.Lines

/-!
# The ladder of operators

Expressions are sorted into levels, from sequences up to those that hold together without an
operator. A tree respects the ladder if no part of it is looser than its place allows, so that it
can be written down without adding parentheses; `Node.written` does so, lexeme by lexeme.
-/

namespace ScriptTree

/-- The level of a binary operator. -/
def BinaryOperator.level : BinaryOperator → Nat
  | bitOr => 4
  | bitXor => 5
  | bitAnd => 6
  | eq | ne | strictEq | strictNe => 7
  | lt | le | gt | ge => 8
  | add | sub => 9
  | mul | div => 10
  | pow => 11

/-- The level of a logical operator. -/
def LogicalOperator.level : LogicalOperator → Nat
  | or | nullish => 2
  | and => 3

namespace Node

/-- How tightly an expression holds together, from sequences up. -/
def level : Node → Nat
  | sequenceExpression .. => 0
  | assignmentExpression .. | complexAssignmentExpression .. => 1
  | logicalExpression _ operator _ => operator.level
  | binaryExpression _ operator _ => operator.level
  | unaryExpression .. | awaitExpression .. => 12
  | updateExpression _ leading _ => if leading then 12 else 13
  | _ => 14

mutual

/-- The lexemes of an operator expression, in order. Other trees are not written. -/
def written : Node → List String
  | identifier name => [name]
  | thisExpression => ["this"]
  | nullLiteral => ["null"]
  | undefinedLiteral => ["undefined"]
  | booleanLiteral value => [if value then "true" else "false"]
  | privateName id => "#" :: id.written
  | parenthesizedExpression body => "(" :: (body.written ++ [")"])
  | arrayLiteral elements => "[" :: (writtenItems elements ++ ["]"])
  | memberExpression object member computed =>
    object.written ++
      if computed then "[" :: (member.written ++ ["]"]) else "." :: member.written
  | optionalMemberExpression object member computed _ =>
    object.written ++
      "?." :: if computed then "[" :: (member.written ++ ["]"]) else member.written
  | callExpression callee arguments => callee.written ++ "(" :: (writtenItems arguments ++ [")"])
  | optionalCallExpression callee arguments _ =>
    callee.written ++ "?." :: "(" :: (writtenItems arguments ++ [")"])
  | updateExpression operator leading argument =>
    if leading then operator.text :: argument.written else argument.written ++ [operator.text]
  | unaryExpression operator argument => operator.text :: argument.written
  | awaitExpression argument => "await" :: argument.written
  | binaryExpression left operator right => left.written ++ operator.text :: right.written
  | logicalExpression left operator right => left.written ++ operator.text :: right.written
  | assignmentExpression id operator value => id.written ++ operator.text :: value.written
  | complexAssignmentExpression id operator value => id.written ++ operator.text :: value.written
  | sequenceExpression expressions => writtenItems expressions
  | _ => []

/-- Expressions with commas between them. -/
def writtenItems : List Node → List String
  | [] => []
  | [item] => item.written
  | item :: next :: items => item.written ++ "," :: writtenItems (next :: items)

end

end Node

/-- What may stand behind a dot: a word or a private name. The word `function` is left out, because
a star that follows it, on whatever line, belongs to it. -/
inductive MemberName : Node → Prop where
  | word {kind : Kind} {text : String} (h : IsToken kind text)
      (hkind : kind = .identifier ∨ kind.isKeyword = true) (hne : text ≠ "function") :
      MemberName (.identifier text)
  | hidden {name : String} (h : IsToken .identifier name) :
      MemberName (.privateName (.identifier name))

/-- Operator expressions none of whose parts is looser than its place allows. -/
inductive Ladder : Node → Prop where
  | name {name : String} (h : IsToken .identifier name) : Ladder (.identifier name)
  | this : Ladder .thisExpression
  | null : Ladder .nullLiteral
  | undefined : Ladder .undefinedLiteral
  | boolean (value : Bool) : Ladder (.booleanLiteral value)
  | parenthesized {body : Node} (hbody : Ladder body) : Ladder (.parenthesizedExpression body)
  | array {elements : List Node} (h : ∀ e ∈ elements, Ladder e) (hlevel : ∀ e ∈ elements, 1 ≤ e.level) :
      Ladder (.arrayLiteral elements)
  | member {object member : Node} (h : Ladder object) (hlevel : object.level = 14)
      (hmember : MemberName member) : Ladder (.memberExpression object member false)
  | computed {object member : Node} (h : Ladder object) (hlevel : object.level = 14)
      (hmember : Ladder member) : Ladder (.memberExpression object member true)
  | optionalMember {object member : Node} (h : Ladder object) (hlevel : object.level = 14)
      (hmember : MemberName member) : Ladder (.optionalMemberExpression object member false true)
  | optionalComputed {object member : Node} (h : Ladder object) (hlevel : object.level = 14)
      (hmember : Ladder member) : Ladder (.optionalMemberExpression object member true true)
  | call {callee : Node} {arguments : List Node} (h : Ladder callee) (hlevel : callee.level = 14)
      (harguments : ∀ e ∈ arguments, Ladder e) (hlevels : ∀ e ∈ arguments, 1 ≤ e.level) :
      Ladder (.callExpression callee arguments)
  | optionalCall {callee : Node} {arguments : List Node} (h : Ladder callee)
      (hlevel : callee.level = 14) (harguments : ∀ e ∈ arguments, Ladder e)
      (hlevels : ∀ e ∈ arguments, 1 ≤ e.level) :
      Ladder (.optionalCallExpression callee arguments true)
  | update {operator : UpdateOperator} {argument : Node} (leading : Bool) (h : Ladder argument)
      (htarget : argument.isAssignmentTarget = true) :
      Ladder (.updateExpression operator leading argument)
  | unary {operator : UnaryOperator} {argument : Node} (h : Ladder argument)
      (hlevel : 12 ≤ argument.level) : Ladder (.unaryExpression operator argument)
  | await {argument : Node} (h : Ladder argument) (hlevel : 12 ≤ argument.level) :
      Ladder (.awaitExpression argument)
  | power {left right : Node} (hleft : Ladder left) (hright : Ladder right)
      (hlevel : 12 ≤ left.level) (hlevel' : 11 ≤ right.level) :
      Ladder (.binaryExpression left .pow right)
  | binary {left right : Node} {operator : BinaryOperator} (hne : operator ≠ .pow)
      (hleft : Ladder left) (hright : Ladder right) (hlevel : operator.level ≤ left.level)
      (hlevel' : operator.level < right.level) : Ladder (.binaryExpression left operator right)
  | logical {left right : Node} {operator : LogicalOperator} (hleft : Ladder left)
      (hright : Ladder right) (hlevel : operator.level ≤ left.level)
      (hlevel' : operator.level < right.level) : Ladder (.logicalExpression left operator right)
  | assignment {id value : Node} (hid : Ladder id) (htarget : id.isAssignmentTarget = true)
      (hvalue : Ladder value) (hlevel : 1 ≤ value.level) :
      Ladder (.assignmentExpression id .assign value)
  | complexAssignment {id value : Node} {operator : AssignmentOperator} (hne : operator ≠ .assign)
      (hid : Ladder id) (htarget : id.isAssignmentTarget = true) (hvalue : Ladder value)
      (hlevel : 1 ≤ value.level) : Ladder (.complexAssignmentExpression id operator value)
  | sequence {expressions : List Node} (htwo : 2 ≤ expressions.length)
      (h : ∀ e ∈ expressions, Ladder e) (hlevel : ∀ e ∈ expressions, 1 ≤ e.level) :
      Ladder (.sequenceExpression expressions)

/-- The texts of operators, brackets and words in operator expressions, except for those that begin
with a slash. -/
def fixedTexts : List String :=
  ["this", "null", "undefined", "true", "false", "await", "#", "(", ")", "[", "]", ".", "?.", ",",
   "!", "+", "-", "*", "**", "++", "--", "=", "+=", "-=", "*=", "==", "!=", "===", "!==", "<", "<=",
   ">", ">=", "|", "^", "&", "&&", "||", "??"]

lemma onLine_fixed {text : String} (htext : text ∈ fixedTexts) : OnLine text := by
  have hall : ∀ text ∈ fixedTexts, IsPlain text.toList ∧
      "function".toList.isPrefixOf text.toList = false ∧
      Rule.first? text.toList = some (some (kindOf text), text.toList.length) := by
    decide +kernel
  obtain ⟨hplain, hne, hrule⟩ := hall text htext
  exact onLine_of_isPlain hplain hne hrule

lemma onLine_div : OnLine "/" := by
  rintro rest (rfl | ⟨tail, rfl⟩) <;> rfl

lemma onLine_divAssign : OnLine "/=" := by
  rintro rest (rfl | ⟨tail, rfl⟩) <;> rfl

lemma onLine_binary (operator : BinaryOperator) : OnLine operator.text := by
  by_cases hdiv : operator = .div
  · rw [hdiv]
    exact onLine_div
  · apply onLine_fixed
    cases operator <;> first | exact absurd rfl hdiv | decide

lemma onLine_assignment (operator : AssignmentOperator) : OnLine operator.text := by
  by_cases hdiv : operator = .divAssign
  · rw [hdiv]
    exact onLine_divAssign
  · apply onLine_fixed
    cases operator <;> first | exact absurd rfl hdiv | decide

lemma MemberName.onLine {member : Node} (h : MemberName member) :
    ∀ text ∈ member.written, OnLine text := by
  cases h with
  | word h hkind hne =>
    simp only [Node.written, List.forall_mem_singleton]
    exact (onLine_of_isToken h hkind hne).2
  | hidden h =>
    simp only [Node.written, List.forall_mem_cons]
    exact ⟨onLine_fixed (by decide), (onLine_of_name h).2, List.forall_mem_nil _⟩

lemma onLine_writtenItems {items : List Node} (h : ∀ e ∈ items, ∀ text ∈ e.written, OnLine text) :
    ∀ text ∈ Node.writtenItems items, OnLine text := by
  induction items with
  | nil =>
    rw [Node.writtenItems]
    exact List.forall_mem_nil _
  | cons item items ih =>
    have hitem := h item List.mem_cons_self
    have hitems := ih fun e he => h e (List.mem_cons_of_mem item he)
    cases items with
    | nil =>
      rw [Node.writtenItems]
      exact hitem
    | cons next items =>
      rw [Node.writtenItems, List.forall_mem_append, List.forall_mem_cons]
      exact ⟨hitem, onLine_fixed (by decide), hitems⟩

/-- All lexemes of a tree on the ladder are read back from lines of their own. -/
theorem Ladder.onLine {e : Node} (h : Ladder e) : ∀ text ∈ e.written, OnLine text := by
  have hone : ∀ {text}, text ∈ fixedTexts → ∀ t ∈ [text], OnLine t := by
    intro text htext t ht
    rw [List.mem_singleton.1 ht]
    exact onLine_fixed htext
  induction h with
  | name h =>
    simp only [Node.written, List.forall_mem_singleton]
    exact (onLine_of_name h).2
  | this | null | undefined =>
    rw [Node.written]
    exact hone (by decide)
  | boolean value =>
    rw [Node.written]
    cases value <;> exact hone (by decide)
  | parenthesized _ ihbody =>
    rw [Node.written, List.forall_mem_cons, List.forall_mem_append]
    exact ⟨onLine_fixed (by decide), ihbody, hone (by decide)⟩
  | array _ _ ih =>
    rw [Node.written, List.forall_mem_cons, List.forall_mem_append]
    exact ⟨onLine_fixed (by decide), onLine_writtenItems ih, hone (by decide)⟩
  | member _ _ hmember ih =>
    simp only [Node.written, List.forall_mem_append, Bool.false_eq_true, if_false,
      List.forall_mem_cons]
    exact ⟨ih, onLine_fixed (by decide), hmember.onLine⟩
  | computed _ _ _ ih ihmember =>
    simp only [Node.written, List.forall_mem_append, if_true, List.forall_mem_cons]
    exact ⟨ih, onLine_fixed (by decide), ihmember, onLine_fixed (by decide), List.forall_mem_nil _⟩
  | optionalMember _ _ hmember ih =>
    simp only [Node.written, List.forall_mem_append, Bool.false_eq_true, if_false,
      List.forall_mem_cons]
    exact ⟨ih, onLine_fixed (by decide), hmember.onLine⟩
  | optionalComputed _ _ _ ih ihmember =>
    simp only [Node.written, List.forall_mem_append, if_true, List.forall_mem_cons]
    exact ⟨ih, onLine_fixed (by decide), onLine_fixed (by decide), ihmember,
      onLine_fixed (by decide), List.forall_mem_nil _⟩
  | call _ _ _ _ ih iharguments =>
    rw [Node.written, List.forall_mem_append, List.forall_mem_cons, List.forall_mem_append]
    exact ⟨ih, onLine_fixed (by decide), onLine_writtenItems iharguments, hone (by decide)⟩
  | optionalCall _ _ _ _ ih iharguments =>
    rw [Node.written, List.forall_mem_append, List.forall_mem_cons, List.forall_mem_cons,
      List.forall_mem_append]
    exact ⟨ih, onLine_fixed (by decide), onLine_fixed (by decide), onLine_writtenItems iharguments,
      hone (by decide)⟩
  | @update operator _ leading _ _ ih =>
    have hoperator : operator.text ∈ fixedTexts := by cases operator <;> decide
    cases leading with
    | true =>
      simp only [Node.written, if_true, List.forall_mem_cons]
      exact ⟨onLine_fixed hoperator, ih⟩
    | false =>
      simp only [Node.written, Bool.false_eq_true, if_false, List.forall_mem_append]
      exact ⟨ih, hone hoperator⟩
  | @unary operator _ _ _ ih =>
    have hoperator : operator.text ∈ fixedTexts := by cases operator <;> decide
    rw [Node.written, List.forall_mem_cons]
    exact ⟨onLine_fixed hoperator, ih⟩
  | await _ _ ih =>
    rw [Node.written, List.forall_mem_cons]
    exact ⟨onLine_fixed (by decide), ih⟩
  | power _ _ _ _ ihleft ihright =>
    rw [Node.written, List.forall_mem_append, List.forall_mem_cons]
    exact ⟨ihleft, onLine_binary _, ihright⟩
  | binary _ _ _ _ _ ihleft ihright =>
    rw [Node.written, List.forall_mem_append, List.forall_mem_cons]
    exact ⟨ihleft, onLine_binary _, ihright⟩
  | @logical _ _ operator _ _ _ _ ihleft ihright =>
    have hoperator : operator.text ∈ fixedTexts := by cases operator <;> decide
    rw [Node.written, List.forall_mem_append, List.forall_mem_cons]
    exact ⟨ihleft, onLine_fixed hoperator, ihright⟩
  | assignment _ _ _ _ ihid ihvalue =>
    rw [Node.written, List.forall_mem_append, List.forall_mem_cons]
    exact ⟨ihid, onLine_assignment _, ihvalue⟩
  | complexAssignment _ _ _ _ _ ihid ihvalue =>
    rw [Node.written, List.forall_mem_append, List.forall_mem_cons]
    exact ⟨ihid, onLine_assignment _, ihvalue⟩
  | sequence _ _ _ ih =>
    rw [Node.written]
    exact onLine_writtenItems ih

end ScriptTree
