import ScriptTree.Proofs.Made

/-!
# The grammar is made in these ways

One lemma for each production. What it says apart from the way in which the production is made: how
many levels of nesting are entered in front of the first token, that only statements depend on
whether they stand in a function, and which parts of a construct in brackets may stop in front of a
closing token.
-/

namespace ScriptTree

open ScriptTree.Parser

namespace Made

variable {g : Grammar} {seen : Option (Token × Token)} {t u : Token} {b d z : Bool} {k : Nat}

lemma identifier_made : Made g seen ⟨b, k, d, z⟩ identifier identifier := by
  unfold identifier
  apply expect_bind rfl
  intro t u h
  rw [text_eq h]
  exact pure _

lemma nextItem_made (close : Kind) {item : Parser Node} (items : List Node)
    (hclose : (close == .endOfFile) = false)
    (hitem : ∀ {seen}, Made g seen ⟨true, k, d, false⟩ item item) :
    Made g seen ⟨false, k, d, false⟩ (Grammar.nextItem close item items)
      (Grammar.nextItem close item items) := by
  unfold Grammar.nextItem
  apply sees_closing_inner hclose (pure _)
  intro t u b
  apply after hitem
  intro node
  exact sees_closing_inner hclose (pure _) (expect_skip rfl (pure _))

lemma delimited_made (close : Kind) {item : Parser Node} (hclose : (close == .endOfFile) = false)
    (hitem : ∀ {seen}, Made g seen ⟨true, k, d, false⟩ item item) :
    Made g seen ⟨b, k, d, z⟩ (g.delimited close item) (g.delimited close item) := by
  unfold Grammar.delimited
  apply closing (loop _ _ fun items => nextItem_made close items hclose hitem)
  intro items
  exact expect_skip hclose (pure _)

lemma innerStatement_made (hk : 2 ≤ k) :
    Made g seen ⟨b, k, false, z⟩ g.innerStatement g.innerStatement := by
  unfold Grammar.innerStatement
  exact sees_end unexpected (goal .statement hk (by simp))

lemma nextInBlock_made (hk : 2 ≤ k) (body : List Node) :
    Made g seen ⟨false, k, false, false⟩ (g.nextInBlock body) (g.nextInBlock body) := by
  unfold Grammar.nextInBlock
  apply sees_closing_inner rfl (pure _)
  intro t u b
  exact sees_end mismatch_bind (last (goal .statement hk (by simp)) _)

lemma block_made : Made g seen ⟨b, k, false, z⟩ g.block g.block := by
  unfold Grammar.block
  apply expect_skip rfl
  apply closing (loop _ _ (nextInBlock_made (Nat.le_refl 2)))
  intro body
  exact expect_skip rfl (pure _)

lemma parameter_made : Made g seen ⟨b, k, d, z⟩ g.parameter g.parameter := by
  unfold Grammar.parameter
  apply after identifier_made
  intro name
  exact accept_ite rfl (last (goal .assignment (by decide) (by simp)) _) (pure _)

lemma parameters_made : Made g seen ⟨b, k, d, z⟩ g.parameters g.parameters := by
  unfold Grammar.parameters
  exact expect_skip rfl (delimited_made .rParen rfl parameter_made)

lemma functionBody_made : Made g seen ⟨b, k, d, z⟩ g.functionBody g.functionBody :=
  inFunction block_made

lemma functionKeyword_made :
    Made g seen ⟨b, k, d, z⟩ Grammar.functionKeyword Grammar.functionKeyword := by
  unfold Grammar.functionKeyword
  apply look_cases
  · intro t u h
    rw [← kind_eq h]
    split
    next ht => exact take h (by simp [ht]) (pure _)
    next ht => exact take h (by simp [ht]) (pure _)
    next => exact mismatch
  · intro t u ht hu
    rw [ht]
    rcases hu with hu | hu <;> rw [hu] <;> exact mismatch

lemma functionTail_made (id : Option Node) (generator isAsync : Bool) :
    Made g seen ⟨b, k, d, z⟩ (g.functionTail id generator isAsync)
      (g.functionTail id generator isAsync) := by
  unfold Grammar.functionTail
  apply after parameters_made
  intro params
  exact last functionBody_made _

lemma functionDeclaration_made :
    Made g seen ⟨b, k, d, z⟩ g.functionDeclaration g.functionDeclaration := by
  unfold Grammar.functionDeclaration
  apply seq (accept rfl)
  intro isAsync
  apply after functionKeyword_made
  intro generator
  apply after identifier_made
  intro id
  apply after parameters_made
  intro params
  exact last functionBody_made _

lemma identifier?_made :
    Made g seen ⟨false, k, d, z⟩ Grammar.identifier? Grammar.identifier? := by
  unfold Grammar.identifier?
  exact sees_ite rfl (fun _ _ _ _ => map identifier_made some) (pure none)

lemma functionExpression_made (isAsync : Bool) :
    Made g seen ⟨b, k, d, z⟩ (g.functionExpression isAsync) (g.functionExpression isAsync) := by
  unfold Grammar.functionExpression
  apply after functionKeyword_made
  intro generator
  apply seq identifier?_made
  intro id
  exact functionTail_made id generator isAsync

lemma arrowBody_made (hk : 1 ≤ k) : Made g seen ⟨b, k, false, z⟩ g.arrowBody g.arrowBody := by
  unfold Grammar.arrowBody
  exact sees_ite rfl (fun _ _ _ _ => block_made) (goal .element hk (by simp))

lemma arrowFunction_made (params : List Node) (isAsync : Bool) :
    Made g seen ⟨b, k, d, z⟩ (g.arrowFunction params isAsync) (g.arrowFunction params isAsync) := by
  unfold Grammar.arrowFunction
  apply expect_skip rfl
  exact last (inFunction (arrowBody_made (by decide))) _

lemma parenthesized_made : Made g seen ⟨b, k, d, z⟩ g.parenthesized g.parenthesized := by
  unfold Grammar.parenthesized
  apply expect_bind rfl
  intro t u h
  apply accept_closing rfl
  · exact sees_ite rfl (fun _ _ _ _ => arrowFunction_made [] false) mismatch
  · intro _ _ b
    apply after (goal .sequence (by decide) (by simp))
    intro body
    apply expect_bind rfl
    intro t' u' h'
    refine sees_ite rfl (fun _ _ _ _ => ?_) (pure _)
    cases arrowParams? body with
    | some params => exact arrowFunction_made params false
    | none => exact reject rfl rfl

lemma asyncExpression_made : Made g seen ⟨b, k, d, z⟩ g.asyncExpression g.asyncExpression := by
  unfold Grammar.asyncExpression
  apply expect_bind rfl
  intro keyword keyword' h
  have hinvalid : ∀ {seen x}, Made g seen x
      (Parser.reject (.invalidAsync keyword.span) : Parser Node)
      (Parser.reject (.invalidAsync keyword'.span)) := reject rfl rfl
  apply look_cases
  · intro t u h
    rw [← kind_eq h]
    split
    · exact functionExpression_made true
    · exact functionExpression_made true
    · apply after parenthesized_made
      intro node
      split
      · exact pure _
      · exact hinvalid
    · apply after identifier_made
      intro param
      exact sees_ite rfl (fun _ _ _ _ => arrowFunction_made [param] true) hinvalid
    · exact hinvalid
  · intro t u ht hu
    rw [ht]
    rcases hu with hu | hu <;> rw [hu] <;> exact hinvalid

lemma numericLiteral_made (h : t.lexeme = u.lexeme) (ht : t.kind = .number) :
    Made g (some (t, u)) ⟨b, k, d, z⟩ numericLiteral numericLiteral := by
  unfold numericLiteral
  exact lookUp h (ht ▸ .number) fun _ => pure _

lemma bigIntLiteral_made (h : t.lexeme = u.lexeme) (hend : t.kind ≠ .endOfFile) :
    Made g (some (t, u)) ⟨b, k, d, z⟩ bigIntLiteral bigIntLiteral := by
  unfold bigIntLiteral
  apply take h hend
  rw [text_eq h]
  exact pure _

lemma stringLiteral_made (h : t.lexeme = u.lexeme) (ht : t.kind = .string) :
    Made g (some (t, u)) ⟨b, k, d, z⟩ stringLiteral stringLiteral := by
  unfold stringLiteral
  exact lookUp h (ht ▸ .string) fun _ => pure _

lemma regexLiteral_made : Made g seen ⟨b, k, d, z⟩ regexLiteral regexLiteral := by
  unfold regexLiteral
  apply expect_lookUp .regex
  intro t u h parts
  split
  · exact reject rfl rfl
  · exact pure _

lemma acceptStar_made : Made g seen ⟨false, k, d, z⟩ acceptStar acceptStar := by
  unfold acceptStar
  apply look_cases
  · intro t u h
    rw [← kind_eq h, ← text_eq h]
    split
    next hstar =>
      have ht : t.kind = .multiplicative := by
        simp only [Bool.and_eq_true, beq_iff_eq] at hstar
        exact hstar.1
      exact take h (by simp [ht]) (pure _)
    next => exact pure _
  · intro t u ht hu
    rw [ht]
    rcases hu with hu | hu <;> rw [hu] <;> exact pure false

lemma arrayLiteral_made : Made g seen ⟨b, k, d, z⟩ g.arrayLiteral g.arrayLiteral := by
  unfold Grammar.arrayLiteral
  apply expect_skip rfl
  exact last (delimited_made .rBracket rfl (goal .element (by decide) (by simp))) _

lemma propertyKey_made :
    Made g seen ⟨b, k, d, z⟩ Grammar.propertyKey Grammar.propertyKey := by
  unfold Grammar.propertyKey
  apply look_cases
  · intro t u h
    rw [← kind_eq h]
    split
    next => exact identifier_made
    next ht => exact stringLiteral_made h (by simp [ht])
    next ht => exact numericLiteral_made h ht
    next =>
      split
      next hword =>
        apply take h (Kind.ne_endOfFile_of_isKeyword hword)
        rw [text_eq h]
        exact pure _
      next => exact unexpected
  · intro t u ht hu
    rw [ht]
    rcases hu with hu | hu <;> rw [hu] <;> exact unexpected

lemma method_made (generator isAsync : Bool) :
    Made g seen ⟨b, k, d, z⟩ (g.method generator isAsync) (g.method generator isAsync) :=
  functionTail_made none generator isAsync

/-- Behind a key that is a plain name an object may end, which the first run cannot know. -/
lemma propertyTail_made (isAsync generator computed : Bool) (key : Node) :
    Made g seen ⟨false, k, d, false⟩ (g.propertyTail isAsync generator computed key)
      (g.propertyTail isAsync generator computed key) := by
  unfold Grammar.propertyTail
  let make (value : Node) : Node := .property key value computed true
  have hmethod : ∀ {seen}, Made g seen ⟨false, k, d, false⟩
      (g.method generator isAsync >>= fun value => Pure.pure (make value))
      (g.method generator isAsync >>= fun value => Pure.pure (make value)) :=
    last (method_made generator isAsync) make
  apply sees_bind rfl
  · intro t u h ht
    simpa using hmethod
  · intro t u
    split
    · exact hmethod
    · have hvalue : ∀ {seen b}, Made g seen ⟨b, k, d, false⟩
          (expect .colon >>= fun _ => g.parse .element >>= fun value =>
            Pure.pure (Node.property key value computed false))
          (expect .colon >>= fun _ => g.parse .element >>= fun value =>
            Pure.pure (Node.property key value computed false)) :=
        expect_skip rfl (last (goal .element (by decide) (by simp)) _)
      apply look_cases
      · intro t u h
        rw [← kind_eq h]
        split
        · exact pure _
        · exact hvalue
      · intro t u ht hu
        have hno : Grammar.isShorthand key computed t.kind = false := by
          rw [ht]
          unfold Grammar.isShorthand
          split <;> simp_all
        rw [if_neg (by simp [hno])]
        split
        · exact cross ht hu hvalue (pure _) (by simp) (by simp)
        · exact hvalue

lemma property_made : Made g seen ⟨b, k, d, false⟩ g.property g.property := by
  unfold Grammar.property
  rw [acceptAsyncMethod_eq]
  apply modifier rfl rfl
  intro isAsync
  apply seq acceptStar_made
  intro generator
  apply accept_ite rfl
  · apply after (goal .element (by decide) (by simp))
    intro key
    exact expect_skip rfl (propertyTail_made isAsync generator true key)
  · intro _ _
    apply after propertyKey_made
    intro key
    exact propertyTail_made isAsync generator false key

lemma objectLiteral_made : Made g seen ⟨b, k, d, z⟩ g.objectLiteral g.objectLiteral := by
  unfold Grammar.objectLiteral
  apply expect_skip rfl
  exact last (delimited_made .rBrace rfl property_made) _

/-! ### Expressions -/

lemma memberName_made : Made g seen ⟨b, k, d, z⟩ memberName memberName := by
  unfold memberName
  apply accept_ite rfl
  · exact last identifier_made _
  · intro _ _
    apply look_cases
    · intro t u h
      rw [← kind_eq h]
      split
      next hword =>
        apply take h (Kind.ne_endOfFile_of_isKeyword hword)
        rw [text_eq h]
        exact pure _
      next => exact identifier_made
    · intro t u ht hu
      rw [ht]
      rcases hu with hu | hu <;> rw [hu] <;> exact identifier_made

lemma yieldExpression_made : Made g seen ⟨b, k, d, z⟩ g.yieldExpression g.yieldExpression := by
  unfold Grammar.yieldExpression
  apply expect_skip rfl
  apply look_cases
  · intro t u h
    rw [← kind_eq h]
    split
    · exact pure _
    · exact last (goal .assignment (by decide) (by simp)) _
  · intro t u ht hu
    rw [ht]
    rcases hu with hu | hu <;> rw [hu] <;> exact pure _

lemma primary_made : Made g seen ⟨b, k, d, z⟩ g.primary g.primary := by
  unfold Grammar.primary
  apply look_cases
  · intro t u h
    rw [← kind_eq h]
    split
    next ht => exact numericLiteral_made h ht
    next ht => exact bigIntLiteral_made h (by simp [ht])
    next ht => exact stringLiteral_made h (by simp [ht])
    next => exact regexLiteral_made
    next ht =>
      apply take h (by simp [ht])
      rw [text_eq h]
      exact pure _
    next ht => exact take h (by simp [ht]) (pure _)
    next ht => exact take h (by simp [ht]) (pure _)
    next ht => exact take h (by simp [ht]) (pure _)
    next => exact template
    next => exact arrayLiteral_made
    next => exact objectLiteral_made
    next => exact parenthesized_made
    next =>
      apply after identifier_made
      intro id
      exact sees_ite rfl (fun _ _ _ _ => arrowFunction_made [id] false) (pure _)
    next => exact functionExpression_made false
    next => exact functionExpression_made false
    next => exact asyncExpression_made
    next => exact yieldExpression_made
    next => exact unexpected
  · intro t u ht hu
    rw [ht]
    rcases hu with hu | hu <;> rw [hu] <;> exact unexpected

lemma arguments_made : Made g seen ⟨b, k, d, z⟩ g.arguments g.arguments := by
  unfold Grammar.arguments
  exact expect_skip rfl (delimited_made .rParen rfl (goal .element (by decide) (by simp)))

lemma computedMember_made : Made g seen ⟨b, k, d, z⟩ g.computedMember g.computedMember := by
  unfold Grammar.computedMember
  apply expect_skip rfl
  apply after (goal .sequence (by decide) (by simp))
  intro member
  exact expect_skip rfl (pure _)

lemma optionalSuffix_made (node : Node) :
    Made g seen ⟨b, k, d, z⟩ (g.optionalSuffix node) (g.optionalSuffix node) := by
  unfold Grammar.optionalSuffix
  apply look_cases
  · intro t u h
    rw [← kind_eq h]
    split
    · exact last arguments_made _
    · exact last computedMember_made _
    · exact last memberName_made _
  · intro t u ht hu
    rw [ht]
    rcases hu with hu | hu <;> rw [hu] <;> exact last memberName_made _

lemma suffix_made (calls : Bool) (node : Node) :
    Made g seen ⟨false, k, d, z⟩ (g.suffix calls node) (g.suffix calls node) := by
  unfold Grammar.suffix
  apply look_cases
  · intro t u h
    rw [← kind_eq h]
    split
    next ht => exact take h (by simp [ht]) (last memberName_made _)
    next => exact last computedMember_made _
    next ht => exact take h (by simp [ht]) (last (optionalSuffix_made node) _)
    next => exact last arguments_made _
    next => exact pure _
  · intro t u ht hu
    rw [ht]
    rcases hu with hu | hu <;> rw [hu] <;> exact pure _

lemma suffixes_made (calls : Bool) (node : Node) :
    Made g seen ⟨false, k, d, z⟩ (g.suffixes calls node) (g.suffixes calls node) := by
  unfold Grammar.suffixes
  exact loop _ _ (suffix_made calls)

lemma newBase_made (hk : 1 ≤ k) : Made g seen ⟨b, k, d, z⟩ g.newBase g.newBase := by
  unfold Grammar.newBase
  apply sees_ite rfl _ primary_made
  intro t u h ht
  exact nested hk (goal .creation (Nat.le_refl 0) (by simp))

lemma optionalArguments_made :
    Made g seen ⟨false, k, d, z⟩ g.optionalArguments g.optionalArguments := by
  unfold Grammar.optionalArguments
  exact sees_ite rfl (fun _ _ _ _ => arguments_made) (pure _)

lemma creation_made : Made g seen ⟨b, k, d, z⟩ g.creation g.creation := by
  unfold Grammar.creation
  apply expect_skip rfl
  apply after (newBase_made (by decide))
  intro base
  apply seq (suffixes_made false base)
  intro callee
  exact seq optionalArguments_made fun arguments => pure _

lemma base_made : Made g seen ⟨b, k, d, z⟩ g.base g.base := by
  unfold Grammar.base
  exact sees_ite rfl (fun _ _ _ _ => creation_made) primary_made

lemma suffixed_made : Made g seen ⟨b, k, d, z⟩ g.suffixed g.suffixed := by
  unfold Grammar.suffixed
  apply after base_made
  intro base
  apply seq (suffixes_made true base)
  intro expression
  refine sees_ite rfl (fun t u h ht => ?_) (pure _)
  split
  · exact lookUp h (ht ▸ .update) fun _ => pure _
  · exact look fun _ _ _ _ => reject rfl rfl

lemma operand_made : Made g seen ⟨b, k, d, z⟩ g.operand g.operand := by
  unfold Grammar.operand
  apply look_cases
  · intro t u h
    rw [← kind_eq h]
    have hunary : t.kind = .bang ∨ t.kind = .additive → Made g (some (t, u)) ⟨b, k, d, z⟩
        (advance >>= fun token => spelled token (UnaryOperator.ofText? token.text) >>=
          fun operator => g.parse .unary >>= fun argument =>
            Pure.pure (Node.unaryExpression operator argument))
        (advance >>= fun token => spelled token (UnaryOperator.ofText? token.text) >>=
          fun operator => g.parse .unary >>= fun argument =>
            Pure.pure (Node.unaryExpression operator argument)) := by
      intro ht
      exact lookUp h (.unary ht) fun _ => last (goal .unary (by decide) (by simp)) _
    split
    next ht => exact hunary (Or.inl ht)
    next ht => exact hunary (Or.inr ht)
    next ht =>
      apply lookUp h (ht ▸ .update)
      intro operator
      apply after (goal .unary (by decide) (by simp))
      intro argument
      split
      · exact pure _
      · exact reject rfl rfl
    next ht => exact take h (by simp [ht]) (last (goal .unary (by decide) (by simp)) _)
    next => exact suffixed_made
  · intro t u ht hu
    rw [ht]
    rcases hu with hu | hu <;> rw [hu] <;> exact suffixed_made

lemma unary_made (hk : 1 ≤ k) : Made g seen ⟨b, k, d, z⟩ g.unary g.unary :=
  nested hk operand_made

lemma power_made (hk : 1 ≤ k) : Made g seen ⟨b, k, d, z⟩ g.power g.power := by
  unfold Grammar.power
  apply after (unary_made hk)
  intro left
  refine sees_ite rfl (fun t u h ht => ?_) (pure _)
  apply lookUp h (ht ▸ .power)
  intro operator
  exact last (nested (by decide : 1 < 2) (goal .power (Nat.le_refl 1) (by simp))) _

lemma nextOperand_made {level : OperatorLevel} {operand : Parser Node}
    (hlevel : level ∈ OperatorLevel.all) (hoperand : Made g none ⟨true, 2, d, z⟩ operand operand)
    (left : Node) : Made g seen ⟨false, k, d, z⟩ (Grammar.nextOperand level operand left)
      (Grammar.nextOperand level operand left) := by
  unfold Grammar.nextOperand
  refine sees_ite (LooksUp.level hlevel).isEdge_eq (fun t u h ht => ?_) (pure _)
  exact lookUp h (ht ▸ .level hlevel) fun _ => last hoperand _

lemma leftGrouped_made {level : OperatorLevel} {operand : Parser Node}
    (hlevel : level ∈ OperatorLevel.all)
    (hoperand : ∀ {seen k}, 1 ≤ k → Made g seen ⟨true, k, d, z⟩ operand operand) (hk : 1 ≤ k) :
    Made g seen ⟨b, k, d, z⟩ (g.leftGrouped level operand) (g.leftGrouped level operand) := by
  unfold Grammar.leftGrouped
  apply after (hoperand hk)
  intro left
  exact loop _ _ (nextOperand_made hlevel (hoperand (by decide)))

lemma leftGroupedAll_made {levels : List OperatorLevel} (hlevels : levels ⊆ OperatorLevel.all)
    (hk : 1 ≤ k) : Made g seen ⟨b, k, d, z⟩ (levels.foldr g.leftGrouped g.power)
      (levels.foldr g.leftGrouped g.power) := by
  induction levels generalizing seen b k with
  | nil => exact power_made hk
  | cons level levels ih =>
    obtain ⟨hlevel, hrest⟩ := List.cons_subset.1 hlevels
    exact leftGrouped_made hlevel (fun hk => ih hrest hk) hk

lemma operation_made (hk : 1 ≤ k) : Made g seen ⟨b, k, d, z⟩ g.operation g.operation :=
  leftGroupedAll_made (List.Subset.refl _) hk

lemma assignment_made (hk : 1 ≤ k) : Made g seen ⟨b, k, d, z⟩ g.assignment g.assignment := by
  unfold Grammar.assignment
  apply after (operation_made hk)
  intro id
  apply look_cases
  · intro t u h
    rw [← kind_eq h]
    split
    next hoperator =>
      have htable : t.kind = .assignment ∨ t.kind = .complexAssignment := by simpa using hoperator
      split
      · apply lookUp h (.assignment htable)
        intro operator
        rw [kind_eq h]
        apply after (nested (by decide : 1 < 2) (goal .element (Nat.le_refl 1) (by simp)))
        intro value
        split
        · exact pure _
        · exact pure _
      · exact reject rfl rfl
    next => exact pure _
  · intro t u ht hu
    rw [ht]
    rcases hu with hu | hu <;> rw [hu] <;> exact pure _

lemma element_made (hk : 1 ≤ k) : Made g seen ⟨b, k, d, z⟩ g.element g.element := by
  unfold Grammar.element
  exact sees_ite rfl (fun _ _ _ _ => yieldExpression_made) (assignment_made hk)

lemma nextInSequence_made (expressions : List Node) :
    Made g seen ⟨false, k, d, z⟩ (g.nextInSequence expressions) (g.nextInSequence expressions) := by
  unfold Grammar.nextInSequence
  exact accept_ite rfl (last (element_made (by decide)) _) (pure _)

lemma sequence_made (hk : 1 ≤ k) : Made g seen ⟨b, k, d, z⟩ g.sequence g.sequence := by
  unfold Grammar.sequence
  apply after (element_made hk)
  intro first
  exact sees_ite rfl (fun _ _ _ _ => loop _ _ nextInSequence_made) (pure _)

/-! ### Classes -/

lemma memberKey_made : Made g seen ⟨b, k, d, z⟩ memberKey memberKey := by
  unfold memberKey
  apply look_cases
  · intro t u h
    rw [← kind_eq h]
    split
    next hword =>
      have hend : t.kind ≠ .endOfFile := by
        intro hend
        rw [hend] at hword
        cases hword
      apply take h hend
      rw [text_eq h]
      exact pure _
    next => exact reject rfl rfl
  · intro t u ht hu
    rw [ht]
    rcases hu with hu | hu <;> rw [hu] <;> exact reject rfl rfl

lemma classPropertyTail_made (isStatic isPrivate : Bool) (key : Node) :
    Made g seen ⟨false, k, d, z⟩ (g.classPropertyTail isStatic isPrivate key)
      (g.classPropertyTail isStatic isPrivate key) := by
  unfold Grammar.classPropertyTail
  apply seq (optionally rfl (goal .assignment (by decide) (by simp)))
  intro value
  apply seq (accept rfl)
  intro _
  split
  · exact pure _
  · exact pure _

lemma classMember_made : Made g seen ⟨b, k, d, false⟩ g.classMember g.classMember := by
  unfold Grammar.classMember
  simp only [acceptModifier_eq]
  apply look
  intro start start' _ _
  apply modifier rfl rfl
  intro isStatic
  apply modifier rfl rfl
  intro isAsync
  apply seq acceptStar_made
  intro generator
  apply seq (accept rfl)
  intro isPrivate
  apply after memberKey_made
  intro name
  apply sees_ite rfl
  · intro t u h ht
    exact last (method_made generator isAsync) _
  · intro t u
    split
    · exact look fun _ _ _ _ => reject rfl rfl
    · exact classPropertyTail_made isStatic isPrivate _

lemma nextMember_made (members : List Node) :
    Made g seen ⟨false, k, d, false⟩ (g.nextMember members) (g.nextMember members) := by
  unfold Grammar.nextMember
  apply sees_closing_inner rfl (pure _)
  intro t u b
  apply accept_ite rfl (pure _)
  intro t u
  exact sees_end mismatch_bind (last classMember_made _)

lemma classBody_made : Made g seen ⟨b, k, d, z⟩ g.classBody g.classBody := by
  unfold Grammar.classBody
  apply expect_skip rfl
  apply closing (loop _ _ nextMember_made)
  intro members
  exact expect_skip rfl (pure _)

lemma heritage_made : Made g seen ⟨b, k, d, z⟩ g.heritage g.heritage := by
  unfold Grammar.heritage
  apply after identifier_made
  intro base
  exact suffixes_made false base

lemma classDeclaration_made :
    Made g seen ⟨b, k, d, z⟩ g.classDeclaration g.classDeclaration := by
  unfold Grammar.classDeclaration
  apply expect_skip rfl
  apply after identifier_made
  intro id
  apply seq (optionally rfl heritage_made)
  intro superClass
  exact last classBody_made _

/-! ### Statements -/

lemma expressionStatement_made (hk : 1 ≤ k) :
    Made g seen ⟨b, k, d, z⟩ g.expressionStatement g.expressionStatement := by
  unfold Grammar.expressionStatement
  apply after (sequence_made hk)
  intro expression
  exact seq (accept rfl) fun _ => pure _

lemma variableDeclaration_made :
    Made g seen ⟨b, k, d, z⟩ g.variableDeclaration g.variableDeclaration := by
  unfold Grammar.variableDeclaration
  apply expect_lookUp .declaration
  intro t u h kind
  apply after identifier_made
  intro id
  exact seq (optionally rfl (goal .sequence (by decide) (by simp))) fun _ => pure _

lemma condition_made : Made g seen ⟨b, k, d, z⟩ g.condition g.condition := by
  unfold Grammar.condition
  apply expect_skip rfl
  apply after (goal .sequence (by decide) (by simp))
  intro test
  exact expect_skip rfl (pure _)

lemma ifStatement_made : Made g seen ⟨b, k, false, z⟩ g.ifStatement g.ifStatement := by
  unfold Grammar.ifStatement
  apply expect_skip rfl
  apply after condition_made
  intro test
  apply after (innerStatement_made (by decide))
  intro consequent
  exact seq (optionally rfl (innerStatement_made (by decide))) fun _ => pure _

lemma loopBody_made (hk : 2 ≤ k) : Made g seen ⟨b, k, false, z⟩ g.loopBody g.loopBody := by
  unfold Grammar.loopBody
  exact sees_ite rfl (fun _ _ _ _ => block_made) (last (innerStatement_made hk) _)

lemma sequenceUnless_made (ending : Kind) (hending : (ending == .endOfFile) = false) (hk : 1 ≤ k) :
    Made g seen ⟨false, k, d, false⟩ (g.sequenceUnless ending) (g.sequenceUnless ending) := by
  unfold Grammar.sequenceUnless
  exact sees_closing_inner hending (pure _) (map (goal .sequence hk (by simp)) some)

lemma loopClause_made (ending : Kind) (hending : (ending == .endOfFile) = false) (hk : 1 ≤ k) :
    Made g seen ⟨b, k, d, z⟩ (g.loopClause ending) (g.loopClause ending) := by
  unfold Grammar.loopClause
  apply closing (sequenceUnless_made ending hending hk)
  intro clause
  exact expect_skip hending (pure _)

lemma loopStart_made (hk : 1 ≤ k) : Made g seen ⟨false, k, d, z⟩ g.loopStart g.loopStart := by
  unfold Grammar.loopStart
  have hexpression : ∀ {seen}, Made g seen ⟨false, k, d, z⟩ (some <$> g.parse .sequence)
      (some <$> g.parse .sequence) := map (goal .sequence hk (by simp)) some
  apply look_cases
  · intro t u h
    rw [← kind_eq h]
    split
    · exact pure _
    · exact map variableDeclaration_made some
    · exact hexpression
  · intro t u ht hu
    rw [ht]
    rcases hu with hu | hu <;> rw [hu] <;> exact hexpression

lemma forStatement_made : Made g seen ⟨b, k, false, z⟩ g.forStatement g.forStatement := by
  unfold Grammar.forStatement
  apply expect_skip rfl
  apply expect_skip rfl
  apply seq (loopStart_made (by decide))
  intro init
  apply sees_ite rfl
  · intro t u h ht
    cases init with
    | none => exact unexpected
    | some left =>
      apply take h (by simp [ht])
      apply after (goal .assignment (by decide) (by simp))
      intro right
      apply expect_skip rfl
      exact last (loopBody_made (by decide)) _
  · intro t u
    apply expect_skip rfl
    apply after (loopClause_made .semicolon rfl (by decide))
    intro test
    apply after (loopClause_made .rParen rfl (by decide))
    intro update
    exact last (loopBody_made (by decide)) _

lemma whileStatement_made :
    Made g seen ⟨b, k, false, z⟩ g.whileStatement g.whileStatement := by
  unfold Grammar.whileStatement
  apply expect_skip rfl
  apply after condition_made
  intro test
  exact last (innerStatement_made (by decide)) _

lemma doWhileStatement_made :
    Made g seen ⟨b, k, false, z⟩ g.doWhileStatement g.doWhileStatement := by
  unfold Grammar.doWhileStatement
  apply expect_skip rfl
  apply after (innerStatement_made (by decide))
  intro body
  apply expect_skip rfl
  apply after condition_made
  intro test
  exact seq (accept rfl) fun _ => pure _

lemma wordStatement_made (node : Node) (h : t.lexeme = u.lexeme) (hend : t.kind ≠ .endOfFile) :
    Made g (some (t, u)) ⟨b, k, d, z⟩ (Grammar.wordStatement node)
      (Grammar.wordStatement node) := by
  unfold Grammar.wordStatement
  exact take h hend (seq (accept rfl) fun _ => pure _)

lemma returnArgument_made (hk : 1 ≤ k) :
    Made g seen ⟨false, k, d, z⟩ g.returnArgument g.returnArgument := by
  unfold Grammar.returnArgument
  apply look_cases
  · intro t u h
    rw [← kind_eq h]
    split
    · exact pure _
    · exact map (goal .sequence hk (by simp)) some
  · intro t u ht hu
    rw [ht]
    rcases hu with hu | hu <;> rw [hu] <;> exact pure _

lemma returnStatement_made :
    Made g seen ⟨b, k, false, z⟩ g.returnStatement g.returnStatement := by
  unfold Grammar.returnStatement
  apply guarded
  · apply expect_skip rfl
    apply seq (returnArgument_made (by decide))
    intro argument
    exact seq (accept rfl) fun _ => pure _
  · exact look fun _ _ _ _ => reject rfl rfl

lemma throwStatement_made : Made g seen ⟨b, k, d, z⟩ g.throwStatement g.throwStatement := by
  unfold Grammar.throwStatement
  apply expect_skip rfl
  apply after (goal .sequence (by decide) (by simp))
  intro argument
  exact seq (accept rfl) fun _ => pure _

lemma catchParameter_made :
    Made g seen ⟨b, k, d, z⟩ Grammar.catchParameter Grammar.catchParameter := by
  unfold Grammar.catchParameter
  apply after identifier_made
  intro param
  exact expect_skip rfl (pure _)

lemma catchClause_made : Made g seen ⟨b, k, false, z⟩ g.catchClause g.catchClause := by
  unfold Grammar.catchClause
  apply seq (optionally rfl catchParameter_made)
  intro param
  exact last block_made _

lemma tryStatement_made : Made g seen ⟨b, k, false, z⟩ g.tryStatement g.tryStatement := by
  unfold Grammar.tryStatement
  apply expect_skip rfl
  apply after block_made
  intro body
  apply seq (optionally rfl catchClause_made)
  intro handler
  apply seq (optionally rfl block_made)
  intro finalizer
  split
  · exact look fun _ _ _ _ => reject rfl rfl
  · exact pure _

lemma functionStatement_made (h : t.lexeme = u.lexeme) (hend : t.kind ≠ .endOfFile) (hk : 1 ≤ k) :
    Made g (some (t, u)) ⟨b, k, d, z⟩
      (declaresFunction >>= fun declares =>
        if declares = true then g.functionDeclaration else g.expressionStatement)
      (declaresFunction >>= fun declares =>
        if declares = true then g.functionDeclaration else g.expressionStatement) := by
  apply seq (declares h hend)
  intro declared
  split
  · exact functionDeclaration_made
  · exact expressionStatement_made hk

lemma statementKind_made (hk : 1 ≤ k) :
    Made g seen ⟨b, k, false, z⟩ g.statementKind g.statementKind := by
  unfold Grammar.statementKind
  apply look_cases
  · intro t u h
    rw [← kind_eq h]
    split
    next => exact block_made
    next =>
      apply after variableDeclaration_made
      intro declaration
      exact seq (accept rfl) fun _ => pure _
    next => exact ifStatement_made
    next ht => exact functionStatement_made h (by simp [ht]) hk
    next ht => exact functionStatement_made h (by simp [ht]) hk
    next ht => exact functionStatement_made h (by simp [ht]) hk
    next => exact forStatement_made
    next => exact whileStatement_made
    next => exact doWhileStatement_made
    next ht => exact wordStatement_made _ h (by simp [ht])
    next ht => exact wordStatement_made _ h (by simp [ht])
    next => exact returnStatement_made
    next => exact classDeclaration_made
    next => exact throwStatement_made
    next => exact tryStatement_made
    next => exact expressionStatement_made hk
  · intro t u ht hu
    rw [ht]
    rcases hu with hu | hu <;> rw [hu] <;> exact expressionStatement_made hk

/-- Every production is made in the ways listed. -/
theorem production_made (goal : Goal) (hk : goal.levels ≤ k) (hd : d = true → goal ≠ .statement) :
    Made g seen ⟨b, k, d, z⟩ (g.production goal) (g.production goal) := by
  cases goal with
  | statement =>
    have hoff : d = false := by
      cases d with
      | false => rfl
      | true => exact absurd rfl (hd rfl)
    subst hoff
    exact nested hk (statementKind_made (Nat.le_refl 1))
  | sequence => exact sequence_made hk
  | element => exact element_made hk
  | assignment => exact assignment_made hk
  | unary => exact unary_made hk
  | power => exact power_made hk
  | creation => exact creation_made

end Made

end ScriptTree
