import ScriptTree.Proofs.Ensures
import ScriptTree.Proofs.Made
import ScriptTree.Proofs.Paths

/-!
# The limit bounds the nesting

Each level of nesting pays for one edge that takes a level and for a fixed number of other edges,
since the productions between two levels refer to each other in one direction only. Links of chains
are read in loops and cost nothing. One lemma for each production says what it may cost in a context,
which has the levels up to the limit left.

Main statement: `total_le_of_parse`, no path of an accepted tree is dearer than the levels of its limit
pay for.
-/

namespace ScriptTree

open ScriptTree.Parser

namespace Tariff

/-- What one level of nesting pays for. -/
def pay (t : Tariff) : Nat :=
  t.level + 17 * t.plain

/-- What the levels pay for that are left in a context. -/
def budget (t : Tariff) (c : Context) : Nat :=
  (c.limit - c.depth) * t.pay

variable {t : Tariff} {c : Context}

/-- One level deeper there is less left, by what that level pays for. -/
lemma budget_eq_deeper (h : c.depth < c.limit) :
    t.budget c = t.budget c.deeper + t.level + 17 * t.plain := by
  have hleft : c.limit - c.depth = (c.limit - (c.depth + 1)) + 1 := by omega
  simp only [budget, Context.deeper, hleft, Nat.add_mul, pay]
  omega

@[simp]
lemma budget_inside : t.budget c.inside = t.budget c :=
  rfl

end Tariff

/-- What the constructs of a grammar may cost: what is left for the levels that they open themselves,
and what the edges cost down to the first of them. -/
structure Grammar.Affordable (g : Grammar) (t : Tariff) : Prop where
  statement (c : Context) : Ensures c (g.parse .statement) fun n =>
    n.cost t false + t.level + t.plain ≤ t.budget c
  sequence (c : Context) : Ensures c (g.parse .sequence) fun n =>
    n.cost t false ≤ t.budget c + 13 * t.plain
  element (c : Context) : Ensures c (g.parse .element) fun n =>
    n.cost t false ≤ t.budget c + 12 * t.plain
  assignment (c : Context) : Ensures c (g.parse .assignment) fun n =>
    n.cost t false ≤ t.budget c + 11 * t.plain
  unary (c : Context) : Ensures c (g.parse .unary) fun n => n.cost t false ≤ t.budget c
  power (c : Context) : Ensures c (g.parse .power) fun n => n.cost t false ≤ t.budget c + t.plain
  creation (c : Context) : Ensures c (g.parse .creation) fun n =>
    n.cost t false ≤ t.budget c + t.level + 16 * t.plain

namespace Node

variable {t : Tariff} {heritage : Bool} {node : Node} {k : Nat}

/-- A node without children costs nothing. -/
lemma cost_of_leaf (h : node.children = []) : node.cost t heritage = 0 := by
  apply Nat.le_zero.1
  rw [cost_le_iff]
  intro field hfield child hchild
  rw [List.flatMap_eq_nil_iff.1 h field hfield] at hchild
  cases hchild

@[simp]
lemma cost_identifier (name : String) : (identifier name).cost t heritage = 0 :=
  cost_of_leaf rfl

lemma cost_of_arrowParam? {param : Node} (h : node.cost t false ≤ k)
    (hparam : arrowParam? node = some param) : param.cost t false ≤ k + t.plain := by
  unfold arrowParam? at hparam
  split at hparam
  next name =>
    cases hparam
    simp
  next name operator value =>
    cases hparam
    rw [cost_le_iff] at h ⊢
    simp [fields, Field.nodes] at h ⊢
    omega
  next => cases hparam

/-- Parameters cost at most one edge more than the expression they were read as. -/
lemma cost_of_arrowParams? {params : List Node} (h : node.cost t false ≤ k)
    (hparams : arrowParams? node = some params) :
    ∀ param ∈ params, param.cost t false ≤ k + t.plain := by
  intro param hmem
  obtain ⟨part, rfl | ⟨parts, rfl, hpart⟩, hparam⟩ := exists_arrowParam? hparams hmem
  · exact cost_of_arrowParam? h hparam
  · rw [cost_le_iff] at h
    simp [fields, Field.nodes] at h
    exact cost_of_arrowParam? (Nat.le_of_add_left_le (h part hpart)) hparam

end Node

/-- The operators of a level make a chain: their left sides are links. -/
def OperatorLevel.Links (level : OperatorLevel) : Prop :=
  ∀ {token : Token} {join : Node → Node → Node}, Is level.kind token →
    level.join? token.text = some join → ∀ {t : Tariff} {left right : Node} {k : Nat},
      left.cost t false ≤ k → right.cost t false + t.plain ≤ k → (join left right).cost t false ≤ k

namespace OperatorLevel

open Node

lemma links_binary {kind : Kind} (hne : kind.spellings ≠ [])
    (h : ∀ text ∈ kind.spellings, ∀ operator ∈ BinaryOperator.ofText? text, operator ≠ .pow) :
    (binary kind).Links := by
  intro token join htoken hjoin t left right k hleft hright
  obtain ⟨operator, hoperator, rfl⟩ := Option.map_eq_some_iff.1 hjoin
  have hpow := h token.text (htoken.2.mem_spellings hne) operator hoperator
  rw [cost_le_iff]
  simp [fields, Field.nodes, hpow]
  omega

lemma links_logical (kind : Kind) : (logical kind).Links := by
  intro token join htoken hjoin t left right k hleft hright
  obtain ⟨operator, -, rfl⟩ := Option.map_eq_some_iff.1 hjoin
  rw [cost_le_iff]
  simp [fields, Field.nodes]
  omega

lemma links_of_mem_all {level : OperatorLevel} (h : level ∈ all) :
    level.Links ∧ level.kind.isFree = false := by
  simp only [all, List.mem_cons, List.not_mem_nil, or_false] at h
  rcases h with rfl | rfl | rfl | rfl | rfl | rfl | rfl | rfl | rfl
  · exact ⟨links_logical _, rfl⟩
  · exact ⟨links_logical _, rfl⟩
  all_goals exact ⟨links_binary (by decide) (by decide), rfl⟩

end OperatorLevel

namespace Ensures

open Node

variable {g : Grammar} {t : Tariff} {c : Context}

lemma identifier_ensures : Ensures c identifier fun n => ∃ name, n = .identifier name := by
  unfold identifier
  exact expect.skip fun token => pure ⟨token.text, rfl⟩

lemma identifier_cost : Ensures c identifier fun n => n.cost t false = 0 :=
  identifier_ensures.mono fun _ ⟨name, h⟩ => h ▸ cost_identifier name

/-- A node without children, which is no `new` expression. -/
def IsAtom (n : Node) : Prop :=
  n.children = [] ∧ n.isCreation = false

lemma numericLiteral_ensures : Ensures c numericLiteral IsAtom := by
  unfold numericLiteral
  exact advance.skip fun token => spelled_bind fun value _ => pure ⟨rfl, rfl⟩

lemma bigIntLiteral_ensures : Ensures c bigIntLiteral IsAtom := by
  unfold bigIntLiteral
  exact advance.skip fun token => pure ⟨rfl, rfl⟩

lemma stringLiteral_ensures : Ensures c stringLiteral IsAtom := by
  unfold stringLiteral
  exact advance.skip fun token => spelled_bind fun value _ => pure ⟨rfl, rfl⟩

lemma regexLiteral_ensures : Ensures c regexLiteral IsAtom := by
  unfold regexLiteral
  refine expect.skip fun token => spelled_bind fun parts _ => ?_
  split
  · exact reject _
  · exact pure ⟨rfl, rfl⟩

lemma acceptStar_ensures : Ensures c acceptStar Anything := by
  unfold acceptStar
  apply lookahead_bind
  intro token
  split
  · exact advance.skip fun _ => pure trivial
  · exact pure trivial

/-- Consuming a modifier, unless what follows it makes it a name. -/
lemma acceptUnless_ensures {kind : Kind} {ends : Kind → Bool} :
    Ensures c (acceptUnless kind ends) Anything := by
  unfold acceptUnless
  refine sees_ite (place_bind fun cursor => (tokenAt cursor).skip fun next => ?_) (pure trivial)
  dsimp only
  split
  · exact pure trivial
  · exact advance.skip fun _ => pure trivial

lemma propertyKey_cost : Ensures c Grammar.propertyKey fun n => n.cost t false = 0 := by
  unfold Grammar.propertyKey
  apply lookahead_bind
  intro token
  split
  · exact identifier_cost
  · exact stringLiteral_ensures.mono fun n hn => cost_of_leaf hn.1
  · exact numericLiteral_ensures.mono fun n hn => cost_of_leaf hn.1
  · split
    · exact advance.skip fun word => pure (cost_identifier _)
    · exact unexpected

lemma memberName_cost : Ensures c memberName fun n => n.cost t false ≤ t.plain := by
  unfold memberName
  apply accept_ite
  · apply identifier_ensures.last
    rintro _ ⟨name, rfl⟩
    rw [cost_le_iff]
    simp [fields, Field.nodes]
  · apply lookahead_bind
    intro token
    split
    · exact advance.skip fun word => pure (by simp)
    · exact identifier_cost.mono fun n hn => hn ▸ Nat.zero_le _

lemma identifier?_cost : Ensures c Grammar.identifier? fun n? => ∀ n ∈ n?, n.cost t false = 0 := by
  unfold Grammar.identifier?
  apply sees_ite
  · exact identifier_cost.map fun n hn m hm => Option.some.inj hm ▸ hn
  · exact pure fun n hn => by cases hn

lemma functionKeyword_ensures : Ensures c Grammar.functionKeyword Anything := by
  unfold Grammar.functionKeyword
  apply lookahead_bind
  intro token
  split
  · exact advance.skip fun _ => pure trivial
  · exact advance.skip fun _ => pure trivial
  · exact mismatch

/-- What a primary expression may cost. -/
def IsPrimary (t : Tariff) (c : Context) (n : Node) : Prop :=
  n.cost t false ≤ t.budget c + t.level + 15 * t.plain ∧ n.isCreation = false

lemma IsAtom.isPrimary {n : Node} (h : IsAtom n) : IsPrimary t c n := by
  refine ⟨?_, h.2⟩
  rw [cost_of_leaf h.1]
  exact Nat.zero_le _

/-- What has been read of a template costs what it may. -/
def TemplateCosts (t : Tariff) (c : Context) (parts : TemplateParts) : Prop :=
  (∀ n ∈ parts.expressions, n.cost t false ≤ t.budget c + 13 * t.plain) ∧
    ∀ n ∈ parts.quasis, n.cost t false = 0

lemma TemplateCosts.addText {parts : TemplateParts} (h : TemplateCosts t c parts) (text : String) :
    TemplateCosts t c (parts.addText text) :=
  ⟨h.1, List.forall_mem_cons.2 ⟨cost_of_leaf rfl, h.2⟩⟩

lemma TemplateCosts.addExpression {parts : TemplateParts} (h : TemplateCosts t c parts) {n : Node}
    (hn : n.cost t false ≤ t.budget c + 13 * t.plain) : TemplateCosts t c (parts.addExpression n) :=
  ⟨List.forall_mem_cons.2 ⟨hn, h.1⟩, h.2⟩

lemma TemplateCosts.toNode {parts : TemplateParts} (h : TemplateCosts t c parts) :
    IsPrimary t c parts.toNode := by
  have hmake : ∀ parts : TemplateParts, TemplateCosts t c parts →
      IsPrimary t c (.templateLiteral parts.expressions.reverse parts.quasis.reverse) := by
    rintro parts ⟨hexpressions, hquasis⟩
    refine ⟨?_, rfl⟩
    rw [cost_le_iff]
    simp [fields, Field.nodes]
    grind
  unfold TemplateParts.toNode
  split
  · exact hmake _ (h.addText "")
  · exact hmake _ h

section

variable (hg : g.Affordable t)

include hg

lemma innerStatement_cost : Ensures c g.innerStatement fun n =>
    n.cost t false + t.level + t.plain ≤ t.budget c := by
  unfold Grammar.innerStatement
  exact sees_ite unexpected (hg.statement c)

lemma block_cost : Ensures c g.block fun n => n.cost t false ≤ t.budget c := by
  unfold Grammar.block
  apply expect.skip
  intro _
  have hbody : Ensures c (Parser.loop g.nextInBlock g.bound [])
      fun body => ∀ n ∈ body, n.cost t false + t.level + t.plain ≤ t.budget c := by
    apply loop fun body => ∀ n ∈ body, n.cost t false + t.level + t.plain ≤ t.budget c
    · intro body hbody
      unfold Grammar.nextInBlock
      apply sees_ite
      · exact pure fun n hn => hbody n (List.mem_reverse.1 hn)
      · apply sees_ite mismatch_bind
        exact (hg.statement c).last fun n hn => List.forall_mem_cons.2 ⟨hn, hbody⟩
    · exact fun n hn => absurd hn List.not_mem_nil
  apply hbody.bind
  intro body hbody
  refine expect.skip fun _ => pure ?_
  rw [cost_le_iff]
  simp [fields, Field.nodes]
  grind

lemma parameter_cost : Ensures c g.parameter fun n => n.cost t false ≤ t.budget c + 12 * t.plain := by
  unfold Grammar.parameter
  apply identifier_ensures.bind
  rintro _ ⟨name, rfl⟩
  apply accept_ite
  · apply (hg.assignment c).last
    intro value hvalue
    rw [cost_le_iff]
    simp [fields, Field.nodes]
    omega
  · exact pure (by simp)

lemma parameters_cost : Ensures c g.parameters fun params =>
    ∀ n ∈ params, n.cost t false ≤ t.budget c + 12 * t.plain := by
  unfold Grammar.parameters
  exact expect.skip fun _ => delimited (parameter_cost hg)

lemma functionBody_cost : Ensures c g.functionBody fun n => n.cost t false ≤ t.budget c :=
  inFunction (block_cost hg)

lemma functionDeclaration_cost : Ensures c g.functionDeclaration fun n =>
    n.cost t false ≤ t.budget c + 13 * t.plain := by
  unfold Grammar.functionDeclaration
  refine accept.skip fun isAsync => functionKeyword_ensures.skip fun generator => ?_
  apply identifier_ensures.bind
  rintro _ ⟨name, rfl⟩
  apply (parameters_cost hg).bind
  intro params hparams
  apply (functionBody_cost hg).last
  intro body hbody
  rw [cost_le_iff]
  simp [fields, Field.nodes]
  grind

lemma functionTail_cost {id : Option Node} (hid : ∀ n ∈ id, n.cost t false = 0)
    (generator isAsync : Bool) : Ensures c (g.functionTail id generator isAsync) fun n =>
      n.cost t false ≤ t.budget c + 13 * t.plain ∧ n.isCreation = false := by
  unfold Grammar.functionTail
  apply (parameters_cost hg).bind
  intro params hparams
  apply (functionBody_cost hg).last
  intro body hbody
  refine ⟨?_, rfl⟩
  rw [cost_le_iff]
  simp [fields, Field.nodes]
  grind

lemma functionExpression_cost (isAsync : Bool) :
    Ensures c (g.functionExpression isAsync) (IsPrimary t c) := by
  unfold Grammar.functionExpression
  apply functionKeyword_ensures.skip
  intro generator
  apply identifier?_cost.bind
  intro id hid
  apply (functionTail_cost hg hid generator isAsync).mono
  rintro n ⟨hn, hcreation⟩
  exact ⟨by omega, hcreation⟩

lemma arrowBody_cost :
    Ensures c g.arrowBody fun n => n.cost t false ≤ t.budget c + 12 * t.plain := by
  unfold Grammar.arrowBody
  apply sees_ite
  · exact (block_cost hg).mono fun n hn => Nat.le_add_right_of_le hn
  · exact hg.element c

lemma arrowFunction_cost {params : List Node}
    (hparams : ∀ n ∈ params, n.cost t false ≤ t.budget c + 14 * t.plain) (isAsync : Bool) :
    Ensures c (g.arrowFunction params isAsync) (IsPrimary t c) := by
  unfold Grammar.arrowFunction
  apply expect.skip
  intro _
  apply (inFunction (arrowBody_cost hg)).last
  intro body hbody
  refine ⟨?_, rfl⟩
  rw [Tariff.budget_inside] at hbody
  rw [cost_le_iff]
  simp [fields, Field.nodes]
  grind

lemma parenthesized_cost : Ensures c g.parenthesized (IsPrimary t c) := by
  unfold Grammar.parenthesized
  apply expect.skip
  intro opening
  apply accept_ite
  · exact sees_ite (arrowFunction_cost hg (by simp) false) mismatch
  · apply (hg.sequence c).bind
    intro body hbody
    apply expect.skip
    intro closing
    apply sees_ite
    · split
      next params hparams =>
        apply arrowFunction_cost hg
        intro param hparam
        have hcost := cost_of_arrowParams? hbody hparams param hparam
        omega
      next => exact reject _
    · apply pure
      refine ⟨?_, rfl⟩
      rw [cost_le_iff]
      simp [fields, Field.nodes]
      omega

lemma asyncExpression_cost : Ensures c g.asyncExpression (IsPrimary t c) := by
  unfold Grammar.asyncExpression
  apply expect.skip
  intro keyword
  apply lookahead_bind
  intro token
  split
  · exact functionExpression_cost hg true
  · exact functionExpression_cost hg true
  · apply (parenthesized_cost hg).bind
    intro n hn
    split
    next generator isAsync params body =>
      refine pure ⟨?_, rfl⟩
      have hcost := hn.1
      rw [cost_le_iff] at hcost ⊢
      simpa [fields, Field.nodes] using hcost
    next => exact reject _
  · apply identifier_ensures.bind
    rintro _ ⟨name, rfl⟩
    exact sees_ite (arrowFunction_cost hg (by simp) true) (reject _)
  · exact reject _

lemma templateLiteral_cost : Ensures c g.templateLiteral (IsPrimary t c) := by
  unfold Grammar.templateLiteral
  apply expectInTemplate.skip
  intro _
  apply loop (TemplateCosts t c)
  · intro parts hparts
    unfold Grammar.templatePart
    apply lookahead_bind
    intro token
    split
    · exact advanceInTemplate.skip fun token => pure (hparts.addText token.text)
    · refine advance.skip fun token => expect.skip fun _ => ?_
      apply (hg.sequence c).bind
      intro expression hexpression
      refine expectInTemplate.skip fun _ => pure ?_
      exact (hparts.addText token.text).addExpression hexpression
    · exact advance.skip fun _ => pure hparts.toNode
    · exact mismatch
  · exact ⟨by simp, by simp⟩

lemma arrayLiteral_cost : Ensures c g.arrayLiteral (IsPrimary t c) := by
  unfold Grammar.arrayLiteral
  apply expect.skip
  intro _
  apply (delimited (hg.element c)).last
  intro elements helements
  refine ⟨?_, rfl⟩
  rw [cost_le_iff]
  simp [fields, Field.nodes]
  grind

lemma propertyTail_cost {key : Node} (hkey : key.cost t false ≤ t.budget c + 12 * t.plain)
    (isAsync generator computed : Bool) : Ensures c (g.propertyTail isAsync generator computed key)
      fun n => n.cost t false ≤ t.budget c + 14 * t.plain := by
  unfold Grammar.propertyTail
  have hmake : ∀ {value : Node} (method : Bool),
      value.cost t false ≤ t.budget c + 13 * t.plain →
        (property key value computed method).cost t false ≤ t.budget c + 14 * t.plain := by
    intro value method hvalue
    rw [cost_le_iff]
    simp [fields, Field.nodes]
    omega
  apply sees_bind
  intro b
  split
  · exact (functionTail_cost hg (by simp) generator isAsync).last fun n hn => hmake true hn.1
  · apply lookahead_bind
    intro token
    split
    · exact pure (hmake false (by omega))
    · apply expect.skip
      intro _
      exact (hg.element c).last fun value hvalue => hmake false (by omega)

lemma property_cost : Ensures c g.property fun n =>
    n.cost t false ≤ t.budget c + 14 * t.plain := by
  unfold Grammar.property
  refine acceptUnless_ensures.skip fun isAsync => acceptStar_ensures.skip fun generator => ?_
  apply accept_ite
  · apply (hg.element c).bind
    intro key hkey
    exact expect.skip fun _ => propertyTail_cost hg hkey isAsync generator true
  · apply propertyKey_cost.bind
    intro key hkey
    exact propertyTail_cost hg (hkey ▸ Nat.zero_le _) isAsync generator false

lemma objectLiteral_cost : Ensures c g.objectLiteral (IsPrimary t c) := by
  unfold Grammar.objectLiteral
  apply expect.skip
  intro _
  apply (delimited (property_cost hg)).last
  intro properties hproperties
  refine ⟨?_, rfl⟩
  rw [cost_le_iff]
  simp [fields, Field.nodes]
  grind

/-! ### Expressions -/

lemma yieldExpression_cost : Ensures c g.yieldExpression fun n =>
    n.cost t false ≤ t.budget c + 12 * t.plain ∧ n.isCreation = false := by
  unfold Grammar.yieldExpression
  refine expect.skip fun _ => lookahead_bind fun token => ?_
  split
  · refine pure ⟨?_, rfl⟩
    rw [cost_le_iff]
    simp [fields, Field.nodes]
  · apply (hg.assignment c).last
    intro argument hargument
    refine ⟨?_, rfl⟩
    rw [cost_le_iff]
    simp [fields, Field.nodes]
    omega

lemma primary_cost : Ensures c g.primary (IsPrimary t c) := by
  unfold Grammar.primary
  apply lookahead_bind
  intro token
  split
  · exact numericLiteral_ensures.mono fun _ => IsAtom.isPrimary
  · exact bigIntLiteral_ensures.mono fun _ => IsAtom.isPrimary
  · exact stringLiteral_ensures.mono fun _ => IsAtom.isPrimary
  · exact regexLiteral_ensures.mono fun _ => IsAtom.isPrimary
  · exact advance.skip fun _ => pure (IsAtom.isPrimary ⟨rfl, rfl⟩)
  · exact advance.skip fun _ => pure (IsAtom.isPrimary ⟨rfl, rfl⟩)
  · exact advance.skip fun _ => pure (IsAtom.isPrimary ⟨rfl, rfl⟩)
  · exact advance.skip fun _ => pure (IsAtom.isPrimary ⟨rfl, rfl⟩)
  · exact templateLiteral_cost hg
  · exact arrayLiteral_cost hg
  · exact objectLiteral_cost hg
  · exact parenthesized_cost hg
  · apply identifier_ensures.bind
    rintro _ ⟨name, rfl⟩
    exact sees_ite (arrowFunction_cost hg (by simp) false) (pure (IsAtom.isPrimary ⟨rfl, rfl⟩))
  · exact functionExpression_cost hg false
  · exact functionExpression_cost hg false
  · exact asyncExpression_cost hg
  · apply (yieldExpression_cost hg).mono
    rintro n ⟨hn, hcreation⟩
    exact ⟨by omega, hcreation⟩
  · exact unexpected

lemma arguments_cost : Ensures c g.arguments fun nodes =>
    ∀ n ∈ nodes, n.cost t false ≤ t.budget c + 12 * t.plain := by
  unfold Grammar.arguments
  exact expect.skip fun _ => delimited (hg.element c)

lemma computedMember_cost : Ensures c g.computedMember fun n =>
    n.cost t false ≤ t.budget c + 13 * t.plain := by
  unfold Grammar.computedMember
  refine expect.skip fun _ => (hg.sequence c).bind fun member hmember => ?_
  exact expect.skip fun _ => pure hmember

/-- What a chain costs with one more link. -/
def Linked (t : Tariff) (c : Context) (heritage : Bool) (k : Nat) (n : Node) : Prop :=
  n.cost t heritage ≤ t.budget c + k ∧ n.isCreation = false

lemma optionalSuffix_cost {k : Nat} {node : Node} (hk : t.level + 13 * t.plain ≤ k)
    (hnode : node.cost t false ≤ t.budget c + k) :
    Ensures c (g.optionalSuffix node) (Linked t c false k) := by
  unfold Grammar.optionalSuffix
  apply lookahead_bind
  intro token
  split
  · apply (arguments_cost hg).last
    intro arguments harguments
    refine ⟨?_, rfl⟩
    rw [cost_le_iff]
    simp [fields, Field.nodes]
    grind
  · apply (computedMember_cost hg).last
    intro member hmember
    refine ⟨?_, rfl⟩
    rw [cost_le_iff]
    simp [fields, Field.nodes]
    omega
  · apply memberName_cost.last
    intro member (hmember : member.cost t false ≤ t.plain)
    refine ⟨?_, rfl⟩
    rw [cost_le_iff]
    simp [fields, Field.nodes]
    omega

/-- A link in front of a chain leaves its cost as it is. In what a class extends there are no calls,
and a computed property takes no level. -/
lemma suffix_cost {heritage calls : Bool} {k : Nat} {node : Node}
    (hcalls : calls = true → heritage = false)
    (hk : (if heritage = true then t.plain else t.level) + 13 * t.plain ≤ k)
    (hnode : node.cost t heritage ≤ t.budget c + k) :
    Ensures c (g.suffix calls node) (Turned (Linked t c heritage k) (· = node)) := by
  unfold Grammar.suffix
  apply lookahead_bind
  intro token
  split
  · apply advance.skip
    intro _
    apply memberName_cost.last
    intro member (hmember : member.cost t false ≤ t.plain)
    refine ⟨?_, rfl⟩
    rw [cost_le_iff]
    simp [fields, Field.nodes]
    grind
  · apply (computedMember_cost hg).last
    intro member hmember
    refine ⟨?_, rfl⟩
    rw [cost_le_iff]
    simp [fields, Field.nodes]
    grind
  · obtain rfl := hcalls rfl
    exact advance.skip fun _ => (optionalSuffix_cost hg hk hnode).last fun n hn => hn
  · obtain rfl := hcalls rfl
    apply (arguments_cost hg).last
    intro arguments harguments
    refine ⟨?_, rfl⟩
    rw [cost_le_iff]
    simp [fields, Field.nodes]
    grind
  · exact pure rfl

lemma suffixes_cost {heritage calls : Bool} {k : Nat} {node : Node}
    (hcalls : calls = true → heritage = false)
    (hk : (if heritage = true then t.plain else t.level) + 13 * t.plain ≤ k)
    (hnode : node.cost t heritage ≤ t.budget c + k) :
    Ensures c (g.suffixes calls node) fun n => n = node ∨ Linked t c heritage k n := by
  unfold Grammar.suffixes
  apply loop fun n => n = node ∨ Linked t c heritage k n
  · intro n hn
    have hcost : n.cost t heritage ≤ t.budget c + k := by
      rcases hn with rfl | hn
      · exact hnode
      · exact hn.1
    apply (suffix_cost hg hcalls hk hcost).mono
    intro turned hturned
    cases turned with
    | again m => exact Or.inr hturned
    | done m => exact hturned ▸ hn
  · exact Or.inl rfl

lemma newBase_cost : Ensures c g.newBase fun n =>
    n.cost t false ≤ t.budget c ∨ IsPrimary t c n := by
  unfold Grammar.newBase
  apply sees_ite
  · apply nested
    intro hdepth
    apply (hg.creation c.deeper).mono
    intro n hn
    have hbudget := t.budget_eq_deeper hdepth
    exact Or.inl (by omega)
  · exact (primary_cost hg).mono fun n hn => Or.inr hn

lemma optionalArguments_cost : Ensures c g.optionalArguments fun nodes =>
    ∀ n ∈ nodes, n.cost t false ≤ t.budget c + 12 * t.plain := by
  unfold Grammar.optionalArguments
  exact sees_ite (arguments_cost hg) (pure (by simp))

lemma creation_cost : Ensures c g.creation fun n =>
    n.cost t false ≤ t.budget c + t.level + 16 * t.plain := by
  unfold Grammar.creation
  apply expect.skip
  intro _
  apply (newBase_cost hg).bind
  intro base hbase
  have hcost : base.cost t false ≤ t.budget c + (t.level + 15 * t.plain) := by
    rcases hbase with hbase | hbase
    · omega
    · have hprimary := hbase.1
      omega
  apply (suffixes_cost hg (by simp) (by simp; omega) hcost).bind
  intro callee hcallee
  apply (optionalArguments_cost hg).last
  intro arguments harguments
  rw [cost_le_iff]
  simp [fields, Field.nodes]
  unfold IsPrimary at hbase
  unfold Linked at hcallee
  grind

lemma base_cost : Ensures c g.base fun n =>
    n.cost t false ≤ t.budget c + (t.level + 16 * t.plain) := by
  unfold Grammar.base
  apply sees_ite
  · exact (creation_cost hg).mono fun n hn => by omega
  · apply (primary_cost hg).mono
    rintro n ⟨hn, -⟩
    omega

lemma suffixed_cost : Ensures c g.suffixed fun n =>
    n.cost t false ≤ t.budget c + t.level + 17 * t.plain := by
  unfold Grammar.suffixed
  apply (base_cost hg).bind
  intro base hbase
  apply (suffixes_cost hg (by simp) (by simp; omega) hbase).bind
  intro expression hexpression
  have hcost : expression.cost t false ≤ t.budget c + (t.level + 16 * t.plain) := by
    rcases hexpression with rfl | hexpression
    · exact hbase
    · exact hexpression.1
  apply sees_ite
  · split
    · refine advance.skip fun token => spelled_bind fun operator _ => pure ?_
      rw [cost_le_iff]
      simp [fields, Field.nodes]
      omega
    · exact lookahead_bind fun _ => reject _
  · exact pure (by omega)

lemma operand_cost : Ensures c g.operand fun n =>
    n.cost t false ≤ t.budget c + t.level + 17 * t.plain := by
  unfold Grammar.operand
  apply lookahead_bind
  intro token
  have hunary : ∀ operator, Ensures c (g.parse .unary >>= fun argument =>
      Pure.pure (Node.unaryExpression operator argument)) fun n =>
        n.cost t false ≤ t.budget c + t.level + 17 * t.plain := by
    intro operator
    apply (hg.unary c).last
    intro argument hargument
    rw [cost_le_iff]
    simp [fields, Field.nodes]
    omega
  split
  · exact advance.skip fun token => spelled_bind fun operator _ => hunary operator
  · exact advance.skip fun token => spelled_bind fun operator _ => hunary operator
  · refine advance.skip fun token => spelled_bind fun operator _ => ?_
    apply (hg.unary c).bind
    intro argument hargument
    split
    · apply pure
      rw [cost_le_iff]
      simp [fields, Field.nodes]
      omega
    · exact reject _
  · apply advance.skip
    intro _
    apply (hg.unary c).last
    intro argument hargument
    rw [cost_le_iff]
    simp [fields, Field.nodes]
    omega
  · exact suffixed_cost hg

/-- The level that an operand opens pays for all that it may cost. -/
lemma unary_cost : Ensures c g.unary fun n => n.cost t false ≤ t.budget c := by
  unfold Grammar.unary
  apply nested
  intro hdepth
  rw [t.budget_eq_deeper hdepth]
  exact operand_cost hg

lemma power_cost : Ensures c g.power fun n => n.cost t false ≤ t.budget c + t.plain := by
  unfold Grammar.power
  apply (unary_cost hg).bind
  intro left hleft
  apply sees_ite
  · refine advance.skip fun token => spelled_bind fun operator _ => ?_
    have hright : Ensures c (Parser.nested (g.parse .power)) fun n =>
        n.cost t false + t.level + 16 * t.plain ≤ t.budget c := by
      apply nested
      intro hdepth
      have hbudget := t.budget_eq_deeper hdepth
      exact (hg.power c.deeper).mono fun n hn => by omega
    apply hright.last
    intro right hright
    rw [cost_le_iff]
    simp [fields, Field.nodes]
    grind
  · exact pure (by omega)

omit hg in
lemma leftGrouped_cost {level : OperatorLevel} {p : Parser Node} {k : Nat} (hlevel : level.Links)
    (hfree : level.kind.isFree = false) (hp : Ensures c p fun n => n.cost t false ≤ k) :
    Ensures c (g.leftGrouped level p) fun n => n.cost t false ≤ k + t.plain := by
  unfold Grammar.leftGrouped
  apply hp.bind
  intro first hfirst
  apply loop fun n => n.cost t false ≤ k + t.plain
  · intro left hleft
    unfold Grammar.nextOperand
    apply sees_advance hfree
    · intro token htoken
      apply spelled_bind
      intro join hjoin
      apply hp.last
      intro right hright
      exact hlevel htoken hjoin hleft (Nat.add_le_add_right hright _)
    · exact pure hleft
  · exact Nat.le_add_right_of_le hfirst

omit hg in
/-- Each level of operators adds the edge to a right side. -/
lemma levels_cost {p : Parser Node} {k : Nat} (hp : Ensures c p fun n => n.cost t false ≤ k)
    (levels : List OperatorLevel) (hlevels : ∀ level ∈ levels, level ∈ OperatorLevel.all) :
    Ensures c (levels.foldr g.leftGrouped p) fun n =>
      n.cost t false ≤ k + levels.length * t.plain := by
  induction levels with
  | nil => simpa using hp
  | cons level levels ih =>
    obtain ⟨hlevel, hrest⟩ := List.forall_mem_cons.1 hlevels
    obtain ⟨hlinks, hfree⟩ := OperatorLevel.links_of_mem_all hlevel
    rw [List.length_cons, Nat.add_mul, Nat.one_mul, ← Nat.add_assoc]
    exact leftGrouped_cost hlinks hfree (ih hrest)

lemma operation_cost : Ensures c g.operation fun n =>
    n.cost t false ≤ t.budget c + 10 * t.plain := by
  unfold Grammar.operation
  apply (levels_cost (power_cost hg) OperatorLevel.all fun level hlevel => hlevel).mono
  intro n hn
  have hlength : OperatorLevel.all.length = 9 := rfl
  rw [hlength] at hn
  omega

lemma assignment_cost : Ensures c g.assignment fun n =>
    n.cost t false ≤ t.budget c + 11 * t.plain := by
  unfold Grammar.assignment
  apply (operation_cost hg).bind
  intro id hid
  apply lookahead_bind
  intro next
  have hvalue : Ensures c (Parser.nested (g.parse .element)) fun n =>
      n.cost t false + t.level + 5 * t.plain ≤ t.budget c := by
    apply nested
    intro hdepth
    have hbudget := t.budget_eq_deeper hdepth
    exact (hg.element c.deeper).mono fun n hn => by omega
  split
  · split
    · refine advance.skip fun token => spelled_bind fun operator _ => hvalue.bind fun value hvalue => ?_
      split
      all_goals
        apply pure
        rw [cost_le_iff]
        simp [fields, Field.nodes]
        omega
    · exact reject _
  · exact pure (by omega)

lemma element_cost : Ensures c g.element fun n => n.cost t false ≤ t.budget c + 12 * t.plain := by
  unfold Grammar.element
  apply sees_ite
  · exact (yieldExpression_cost hg).mono fun n hn => hn.1
  · exact (assignment_cost hg).mono fun n hn => by omega

lemma sequence_cost : Ensures c g.sequence fun n => n.cost t false ≤ t.budget c + 13 * t.plain := by
  unfold Grammar.sequence
  apply (element_cost hg).bind
  intro first hfirst
  apply sees_ite
  · apply loop fun nodes => ∀ n ∈ nodes, n.cost t false ≤ t.budget c + 12 * t.plain
    · intro nodes hnodes
      unfold Grammar.nextInSequence
      apply accept_ite
      · exact (element_cost hg).last fun n hn => List.forall_mem_cons.2 ⟨hn, hnodes⟩
      · apply pure
        change Node.cost _ _ _ ≤ _
        rw [cost_le_iff]
        simp [fields, Field.nodes]
        grind
    · simpa using hfirst
  · exact pure (by omega)

/-! ### Classes -/

omit hg in
lemma memberKey_ensures : Ensures c memberKey Anything := by
  unfold memberKey
  apply lookahead_bind
  intro token
  split
  · exact advance.skip fun _ => pure trivial
  · exact reject _

lemma classPropertyTail_cost {key : Node} (hkey : key.cost t false ≤ t.plain)
    (isStatic isPrivate : Bool) : Ensures c (g.classPropertyTail isStatic isPrivate key) fun n =>
      n.cost t false ≤ t.budget c + 14 * t.plain := by
  unfold Grammar.classPropertyTail
  apply (optionally (hg.assignment c)).bind
  intro value hvalue
  apply accept.skip
  intro _
  split
  all_goals
    apply pure
    rw [cost_le_iff]
    simp [fields, Field.nodes]
    grind

lemma classMember_cost : Ensures c g.classMember fun n =>
    n.cost t false ≤ t.budget c + 14 * t.plain := by
  unfold Grammar.classMember
  refine lookahead_bind fun start => acceptUnless_ensures.skip fun isStatic => ?_
  refine acceptUnless_ensures.skip fun isAsync => acceptStar_ensures.skip fun generator => ?_
  refine accept.skip fun isPrivate => memberKey_ensures.skip fun name => ?_
  have hkey : (if isPrivate = true then privateName (.identifier name)
      else .identifier name).cost t false ≤ t.plain := by
    split
    · rw [cost_le_iff]
      simp [fields, Field.nodes]
    · simp
  dsimp only
  generalize (if isPrivate = true then privateName (.identifier name) else .identifier name) = key
    at hkey ⊢
  apply sees_ite
  · apply (functionTail_cost hg (by simp) generator isAsync).last
    rintro value ⟨hvalue, -⟩
    rw [cost_le_iff]
    simp [fields, Field.nodes]
    omega
  · split
    · exact lookahead_bind fun _ => reject _
    · exact classPropertyTail_cost hg hkey isStatic isPrivate

lemma classBody_cost : Ensures c g.classBody fun n =>
    n.cost t false ≤ t.budget c + 15 * t.plain := by
  unfold Grammar.classBody
  apply expect.skip
  intro _
  have hmembers : Ensures c (Parser.loop g.nextMember g.bound [])
      fun nodes => ∀ n ∈ nodes, n.cost t false ≤ t.budget c + 14 * t.plain := by
    apply loop fun nodes => ∀ n ∈ nodes, n.cost t false ≤ t.budget c + 14 * t.plain
    · intro nodes hnodes
      unfold Grammar.nextMember
      apply sees_ite
      · exact pure fun n hn => hnodes n (List.mem_reverse.1 hn)
      · apply accept_ite (pure hnodes)
        apply sees_ite mismatch_bind
        exact (classMember_cost hg).last fun n hn => List.forall_mem_cons.2 ⟨hn, hnodes⟩
    · exact fun n hn => absurd hn List.not_mem_nil
  apply hmembers.bind
  intro nodes hnodes
  refine expect.skip fun _ => pure ?_
  rw [cost_le_iff]
  simp [fields, Field.nodes]
  grind

lemma heritage_cost : Ensures c g.heritage fun n =>
    n.cost t true ≤ t.budget c + 14 * t.plain := by
  unfold Grammar.heritage
  apply identifier_ensures.bind
  rintro _ ⟨name, rfl⟩
  have hchain : Ensures c (g.suffixes false (.identifier name)) fun n =>
      n = .identifier name ∨ Linked t c true (14 * t.plain) n :=
    suffixes_cost hg (by simp) (by simp; omega) (by simp)
  apply hchain.mono
  rintro n (rfl | hn)
  · simp
  · exact hn.1

lemma classDeclaration_cost : Ensures c g.classDeclaration fun n =>
    n.cost t false ≤ t.budget c + 16 * t.plain := by
  unfold Grammar.classDeclaration
  apply expect.skip
  intro _
  apply identifier_ensures.bind
  rintro _ ⟨name, rfl⟩
  apply (optionally (heritage_cost hg)).bind
  intro superClass hsuper
  apply (classBody_cost hg).last
  intro body hbody
  rw [cost_le_iff]
  simp [fields, Field.nodes]
  grind

/-! ### Statements -/

lemma expressionStatement_cost : Ensures c g.expressionStatement fun n =>
    n.cost t false ≤ t.budget c + 13 * t.plain := by
  unfold Grammar.expressionStatement
  exact (sequence_cost hg).bind fun n hn => accept.skip fun _ => pure hn

lemma variableDeclaration_cost : Ensures c g.variableDeclaration fun n =>
    n.cost t false ≤ t.budget c + 14 * t.plain := by
  unfold Grammar.variableDeclaration
  refine expect.skip fun keyword => spelled_bind fun kind _ => ?_
  apply identifier_ensures.bind
  rintro _ ⟨name, rfl⟩
  apply (optionally (hg.sequence c)).last
  intro value hvalue
  rw [cost_le_iff]
  simp [fields, Field.nodes]
  grind

lemma condition_cost : Ensures c g.condition fun n =>
    n.cost t false ≤ t.budget c + 13 * t.plain := by
  unfold Grammar.condition
  refine expect.skip fun _ => (hg.sequence c).bind fun n hn => ?_
  exact expect.skip fun _ => pure hn

lemma ifStatement_cost : Ensures c g.ifStatement fun n =>
    n.cost t false ≤ t.budget c + 14 * t.plain := by
  unfold Grammar.ifStatement
  apply expect.skip
  intro _
  apply (condition_cost hg).bind
  intro test htest
  apply (innerStatement_cost hg).bind
  intro consequent hconsequent
  apply (optionally (innerStatement_cost hg)).last
  intro alternate halternate
  rw [cost_le_iff]
  simp [fields, Field.nodes]
  grind

lemma loopBody_cost : Ensures c g.loopBody fun n => n.cost t false ≤ t.budget c := by
  unfold Grammar.loopBody
  apply sees_ite
  · exact block_cost hg
  · apply (innerStatement_cost hg).last
    intro body hbody
    rw [cost_le_iff]
    simp [fields, Field.nodes]
    omega

lemma sequenceUnless_cost (ending : Kind) : Ensures c (g.sequenceUnless ending) fun n? =>
    ∀ n ∈ n?, n.cost t false ≤ t.budget c + 13 * t.plain := by
  unfold Grammar.sequenceUnless
  apply sees_ite
  · exact pure fun n hn => by cases hn
  · exact (hg.sequence c).map fun n hn m hm => Option.some.inj hm ▸ hn

lemma loopClause_cost (ending : Kind) : Ensures c (g.loopClause ending) fun n? =>
    ∀ n ∈ n?, n.cost t false ≤ t.budget c + 13 * t.plain := by
  unfold Grammar.loopClause
  exact (sequenceUnless_cost hg ending).bind fun n? hn => expect.skip fun _ => pure hn

lemma loopStart_cost : Ensures c g.loopStart fun n? =>
    ∀ n ∈ n?, n.cost t false ≤ t.budget c + 14 * t.plain := by
  unfold Grammar.loopStart
  apply lookahead_bind
  intro token
  split
  · exact pure fun n hn => by cases hn
  · exact (variableDeclaration_cost hg).map fun n hn m hm => Option.some.inj hm ▸ hn
  · apply (hg.sequence c).map
    intro n hn m hm
    obtain rfl := Option.some.inj hm
    omega

lemma forStatement_cost : Ensures c g.forStatement fun n =>
    n.cost t false ≤ t.budget c + 15 * t.plain := by
  unfold Grammar.forStatement
  refine expect.skip fun _ => expect.skip fun _ => ?_
  apply (loopStart_cost hg).bind
  intro init hinit
  apply sees_ite
  · split
    next => exact unexpected
    next left =>
      have hleft := hinit left rfl
      apply advance.skip
      intro _
      apply (hg.assignment c).bind
      intro right hright
      apply expect.skip
      intro _
      apply (loopBody_cost hg).last
      intro body hbody
      rw [cost_le_iff]
      simp [fields, Field.nodes]
      omega
  · apply expect.skip
    intro _
    apply (loopClause_cost hg .semicolon).bind
    intro test htest
    apply (loopClause_cost hg .rParen).bind
    intro update hupdate
    apply (loopBody_cost hg).last
    intro body hbody
    rw [cost_le_iff]
    simp [fields, Field.nodes]
    grind

lemma whileStatement_cost : Ensures c g.whileStatement fun n =>
    n.cost t false ≤ t.budget c + 14 * t.plain := by
  unfold Grammar.whileStatement
  apply expect.skip
  intro _
  apply (condition_cost hg).bind
  intro test htest
  apply (innerStatement_cost hg).last
  intro body hbody
  rw [cost_le_iff]
  simp [fields, Field.nodes]
  omega

lemma doWhileStatement_cost : Ensures c g.doWhileStatement fun n =>
    n.cost t false ≤ t.budget c + 14 * t.plain := by
  unfold Grammar.doWhileStatement
  apply expect.skip
  intro _
  apply (innerStatement_cost hg).bind
  intro body hbody
  apply expect.skip
  intro _
  apply (condition_cost hg).bind
  intro test htest
  refine accept.skip fun _ => pure ?_
  rw [cost_le_iff]
  simp [fields, Field.nodes]
  omega

omit hg in
lemma wordStatement_cost {node : Node} (hnode : node.children = []) :
    Ensures c (Grammar.wordStatement node) fun n => n.cost t false = 0 := by
  unfold Grammar.wordStatement
  exact advance.skip fun _ => accept.skip fun _ => pure (cost_of_leaf hnode)

lemma returnStatement_cost : Ensures c g.returnStatement fun n =>
    n.cost t false ≤ t.budget c + 14 * t.plain := by
  unfold Grammar.returnStatement
  apply context_bind
  split
  · apply expect.skip
    intro _
    have hargument : Ensures c g.returnArgument fun n? =>
        ∀ n ∈ n?, n.cost t false ≤ t.budget c + 13 * t.plain := by
      unfold Grammar.returnArgument
      apply lookahead_bind
      intro token
      split
      · exact pure fun n hn => by cases hn
      · exact (hg.sequence c).map fun n hn m hm => Option.some.inj hm ▸ hn
    apply hargument.bind
    intro argument hargument
    refine accept.skip fun _ => pure ?_
    rw [cost_le_iff]
    simp [fields, Field.nodes]
    grind
  · exact lookahead_bind fun _ => reject _

lemma throwStatement_cost : Ensures c g.throwStatement fun n =>
    n.cost t false ≤ t.budget c + 14 * t.plain := by
  unfold Grammar.throwStatement
  apply expect.skip
  intro _
  apply (hg.sequence c).bind
  intro argument hargument
  refine accept.skip fun _ => pure ?_
  rw [cost_le_iff]
  simp [fields, Field.nodes]
  omega

lemma catchClause_cost : Ensures c g.catchClause fun n => n.cost t false ≤ t.budget c + t.plain := by
  unfold Grammar.catchClause
  have hparam : Ensures c Grammar.catchParameter fun n => n.cost t false = 0 := by
    unfold Grammar.catchParameter
    exact identifier_cost.bind fun n hn => expect.skip fun _ => pure hn
  apply (optionally hparam).bind
  intro param hparam
  apply (block_cost hg).last
  intro body hbody
  rw [cost_le_iff]
  simp [fields, Field.nodes]
  grind

lemma tryStatement_cost : Ensures c g.tryStatement fun n =>
    n.cost t false ≤ t.budget c + 2 * t.plain := by
  unfold Grammar.tryStatement
  apply expect.skip
  intro _
  apply (block_cost hg).bind
  intro body hbody
  apply (optionally (catchClause_cost hg)).bind
  intro handler hhandler
  apply (optionally (block_cost hg)).bind
  intro finalizer hfinalizer
  split
  · exact lookahead_bind fun _ => reject _
  · apply pure
    rw [cost_le_iff]
    simp [fields, Field.nodes]
    grind

omit hg in
lemma declaresFunction_ensures : Ensures c declaresFunction Anything := by
  unfold declaresFunction
  refine place_bind fun cursor => (tokenAt cursor).skip fun next => ?_
  apply sees_ite
  · split
    · exact (tokenAt _).skip fun name => pure trivial
    · exact pure trivial
  · exact pure trivial

lemma statementKind_cost : Ensures c g.statementKind fun n =>
    n.cost t false ≤ t.budget c + 16 * t.plain := by
  unfold Grammar.statementKind
  have hfunction : Ensures c (declaresFunction >>= fun declares =>
      if declares = true then g.functionDeclaration else g.expressionStatement) fun n =>
        n.cost t false ≤ t.budget c + 16 * t.plain := by
    apply declaresFunction_ensures.skip
    intro declares
    split
    · exact (functionDeclaration_cost hg).mono fun n hn => by omega
    · exact (expressionStatement_cost hg).mono fun n hn => by omega
  apply lookahead_bind
  intro token
  split
  · exact (block_cost hg).mono fun n hn => by omega
  · exact (variableDeclaration_cost hg).bind fun n hn => accept.skip fun _ => pure (by omega)
  · exact (ifStatement_cost hg).mono fun n hn => by omega
  · exact hfunction
  · exact hfunction
  · exact hfunction
  · exact (forStatement_cost hg).mono fun n hn => by omega
  · exact (whileStatement_cost hg).mono fun n hn => by omega
  · exact (doWhileStatement_cost hg).mono fun n hn => by omega
  · exact (wordStatement_cost rfl).mono fun n hn => hn ▸ Nat.zero_le _
  · exact (wordStatement_cost rfl).mono fun n hn => hn ▸ Nat.zero_le _
  · exact (returnStatement_cost hg).mono fun n hn => by omega
  · exact classDeclaration_cost hg
  · exact (throwStatement_cost hg).mono fun n hn => by omega
  · exact (tryStatement_cost hg).mono fun n hn => by omega
  · exact (expressionStatement_cost hg).mono fun n hn => by omega

lemma statement_cost : Ensures c g.statement fun n =>
    n.cost t false + t.level + t.plain ≤ t.budget c := by
  unfold Grammar.statement
  apply nested
  intro hdepth
  have hbudget := t.budget_eq_deeper hdepth
  exact (statementKind_cost hg).mono fun n hn => by omega

lemma program_cost : Ensures c g.program fun n => n.cost t false ≤ t.budget c := by
  unfold Grammar.program
  apply loop fun nodes => ∀ n ∈ nodes, n.cost t false + t.level + t.plain ≤ t.budget c
  · intro nodes hnodes
    unfold Grammar.nextInProgram
    apply sees_ite
    · apply pure
      change Node.cost _ _ _ ≤ _
      rw [cost_le_iff]
      simp [fields, Field.nodes]
      grind
    · exact (hg.statement c).last fun n hn => List.forall_mem_cons.2 ⟨hn, hnodes⟩
  · exact fun n hn => absurd hn List.not_mem_nil

end

end Ensures

theorem upTo_affordable (t : Tariff) (levels : Nat) : (Grammar.upTo levels).Affordable t := by
  induction levels with
  | zero =>
    exact ⟨fun _ => .unfinished, fun _ => .unfinished, fun _ => .unfinished, fun _ => .unfinished,
      fun _ => .unfinished, fun _ => .unfinished, fun _ => .unfinished⟩
  | succ levels ih =>
    exact {
      statement := fun _ => Ensures.statement_cost ih
      sequence := fun _ => Ensures.sequence_cost ih
      element := fun _ => Ensures.element_cost ih
      assignment := fun _ => Ensures.assignment_cost ih
      unary := fun _ => Ensures.unary_cost ih
      power := fun _ => Ensures.power_cost ih
      creation := fun _ => Ensures.creation_cost ih }

/-- No path of an accepted tree is dearer than the levels of its limit pay for. -/
theorem total_le_of_parse {source : String} {limit : Nat} {tree : Node}
    (h : parse source limit = .ok tree) (t : Tariff) {path : List Edge}
    (hpath : tree.IsPath false path) : t.total path ≤ limit * t.pay := by
  obtain ⟨token, after, r, hnext, hrun, -⟩ := programOf_of_parse h
  have hcost := Ensures.program_cost (upTo_affordable t _) _ (Cursor.lexical_of_next hnext) tree r hrun
  exact hpath.total_le.trans hcost.2

/-- The limit bounds the levels that a path takes. -/
theorem levels_le_of_parse {source : String} {limit : Nat} {tree : Node}
    (h : parse source limit = .ok tree) {path : List Edge} (hpath : tree.IsPath false path) :
    path.countP Edge.takesLevel ≤ limit := by
  have hprice : ∀ edge : Edge,
      (⟨1, 0⟩ : Tariff).price edge = if edge.takesLevel then 1 else 0 := by
    intro edge
    cases hlink : edge.isLink with
    | true => rw [Tariff.price, hlink, Edge.takesLevel_of_isLink hlink]; rfl
    | false => rw [Tariff.price, hlink]; rfl
  have htotal := total_le_of_parse h ⟨1, 0⟩ hpath
  rwa [Tariff.total_eq_countP hprice, Tariff.pay, Nat.mul_zero, Nat.add_zero, Nat.mul_one] at htotal

theorem levels_of_nested_blocks :
    ∃ tree path, parse "if (a) \x7b\x7b-b\x7d\x7d" 6 = .ok tree ∧ tree.IsPath false path ∧
      path.map Edge.takesLevel = [true, true, true, true, true] ∧
      path.countP Edge.takesLevel ≤ 6 := by
  have htakes : (parse "if (a) \x7b\x7b-b\x7d\x7d" 6).map (fun tree =>
      (tree.follow false ["body", "consequent", "body", "body", "argument"]).map Edge.takesLevel) =
        .ok [true, true, true, true, true] := by
    decide +kernel
  rcases hparse : parse "if (a) \x7b\x7b-b\x7d\x7d" 6 with e | tree
  · rw [hparse] at htakes
    cases htakes
  · rw [hparse] at htakes
    have hpath := tree.isPath_follow false ["body", "consequent", "body", "body", "argument"]
    exact ⟨tree, _, rfl, hpath, Except.ok.inj htakes, levels_le_of_parse hparse hpath⟩

end ScriptTree
