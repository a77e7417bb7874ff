import ScriptTree.Proofs.Accepted

/-!
# Trees account for tokens

The atoms of a tree are its names, values and operators from left to right. Every token of a source
that carries one of them is found again in the tree, once and in order. Only where a name stands for
a property and its value at once does one token make two names.
-/

namespace ScriptTree

/-- What a tree keeps of single tokens. -/
inductive Atom where
  | name (text : String)
  /-- The name of a member, which may be a reserved word. -/
  | key (text : String)
  /-- A value that is the name of its property once more. -/
  | echo (text : String)
  | number (value : Binary64)
  | bigInt (digits : String)
  | string (value : String)
  | regExp (pattern flags : String)
  | boolean (value : Bool)
  | null
  | undefined
  | this
  | operator (text : String)
deriving DecidableEq

def Atom.isEcho : Atom → Bool
  | echo _ => true
  | _ => false

/-- The kinds of operators that a tree keeps. The plain assignment is not among them. -/
def operatorKinds : List Kind :=
  [.logicalAnd, .logicalOrNullish, .bitwiseOr, .bitwiseAnd, .bitwiseXor, .power, .comparison,
   .equality, .complexAssignment, .incrementDecrement, .bang, .additive, .multiplicative]

/-- An atom was read from a token. -/
def Atom.SpelledBy : Atom → Token → Prop
  | name text, t => t.kind = .identifier ∧ t.text = text
  | key text, t => (t.kind = .identifier ∨ t.kind.isKeyword = true) ∧ t.text = text
  | echo text, t => t.kind = .identifier ∧ t.text = text
  | number value, t => t.kind = .number ∧
    ∃ decimal, Decimal.ofText? t.text = some decimal ∧ decimal.toBinary64 = value
  | bigInt digits, t => t.kind = .bigInt ∧ t.text = digits ++ "n"
  | string value, t => t.kind = .string ∧
    ∃ quote, (quote = "'" ∨ quote = "\x22") ∧ t.text = quote ++ value ++ quote
  | regExp pattern flags, t => t.kind = .regex ∧ t.text = "/" ++ pattern ++ "/" ++ flags
  | boolean value, t => t.kind = .boolean ∧ t.text = if value then "true" else "false"
  | null, t => t.kind = .null ∧ t.text = "null"
  | undefined, t => t.kind = .undefined ∧ t.text = "undefined"
  | this, t => t.kind = .kwThis ∧ t.text = "this"
  | operator text, t => t.kind ∈ operatorKinds ∧ t.text = text

/-- The kinds of tokens that a tree has to account for: names, values and operators. -/
def Kind.isEssential (kind : Kind) : Bool :=
  match kind with
  | .identifier | .number | .bigInt | .string | .regex | .boolean | .null | .undefined | .kwThis =>
    true
  | _ => kind ∈ operatorKinds

/-- A star is left out, because it is also the mark of a generator. -/
def Token.isEssential (token : Token) : Bool :=
  token.kind.isEssential && (token.kind != .multiplicative || token.text == "/")

/-- The atom of an operator, unless it is the star. -/
def operatorAtoms (text : String) : List Atom :=
  if text = "*" then [] else [.operator text]

/-- The name of a property whose value is that name once more. -/
def echoed? (key value : Node) (computed method : Bool) : Option String :=
  match key, value, computed, method with
  | .identifier name, .identifier other, false, false => if name = other then some name else none
  | _, _, _, _ => none

mutual

/-- The atoms of a tree from left to right; with `inKey`, those of a tree that names a member. -/
def Node.atomsAs (inKey : Bool) : Node → List Atom
  | .program body => itemAtoms body
  | .numericLiteral value => [.number value]
  | .bigIntLiteral digits => [.bigInt digits]
  | .stringLiteral value => [.string value]
  | .regExpLiteral pattern flags => [.regExp pattern flags]
  | .booleanLiteral value => [.boolean value]
  | .nullLiteral => [.null]
  | .undefinedLiteral => [.undefined]
  | .templateLiteral expressions _ => itemAtoms expressions
  | .templateElement _ => []
  | .arrayLiteral elements => itemAtoms elements
  | .objectLiteral properties => itemAtoms properties
  | .property key value computed method =>
    key.atomsAs (!computed) ++ match echoed? key value computed method with
      | some name => [.echo name]
      | none => value.atomsAs false
  | .identifier name => [if inKey then .key name else .name name]
  | .thisExpression => [.this]
  | .privateName id => id.atomsAs true
  | .binaryExpression left operator right =>
    left.atomsAs false ++ (operatorAtoms operator.text ++ right.atomsAs false)
  | .logicalExpression left operator right =>
    left.atomsAs false ++ (operatorAtoms operator.text ++ right.atomsAs false)
  | .unaryExpression operator argument => operatorAtoms operator.text ++ argument.atomsAs false
  | .updateExpression operator leading argument =>
    if leading then operatorAtoms operator.text ++ argument.atomsAs false
    else argument.atomsAs false ++ operatorAtoms operator.text
  | .awaitExpression argument => argument.atomsAs false
  | .yieldExpression argument => optionAtoms argument
  | .assignmentExpression id _ value => id.atomsAs false ++ value.atomsAs false
  | .complexAssignmentExpression id operator value =>
    id.atomsAs false ++ (operatorAtoms operator.text ++ value.atomsAs false)
  | .assignmentPattern left right => left.atomsAs false ++ right.atomsAs false
  | .sequenceExpression expressions => itemAtoms expressions
  | .parenthesizedExpression body => body.atomsAs false
  | .memberExpression object member computed => object.atomsAs false ++ member.atomsAs (!computed)
  | .optionalMemberExpression object member computed _ =>
    object.atomsAs false ++ member.atomsAs (!computed)
  | .callExpression callee arguments => callee.atomsAs false ++ itemAtoms arguments
  | .optionalCallExpression callee arguments _ => callee.atomsAs false ++ itemAtoms arguments
  | .newExpression callee arguments => callee.atomsAs false ++ itemAtoms arguments
  | .arrowFunctionExpression _ _ params body => itemAtoms params ++ body.atomsAs false
  | .functionExpression id _ _ params body =>
    optionAtoms id ++ (itemAtoms params ++ body.atomsAs false)
  | .functionDeclaration id _ _ params body =>
    id.atomsAs false ++ (itemAtoms params ++ body.atomsAs false)
  | .variableDeclaration id value _ => id.atomsAs false ++ optionAtoms value
  | .blockStatement body => itemAtoms body
  | .ifStatement test consequent alternate =>
    test.atomsAs false ++ (consequent.atomsAs false ++ optionAtoms alternate)
  | .forStatement init test update body =>
    optionAtoms init ++ (optionAtoms test ++ (optionAtoms update ++ body.atomsAs false))
  | .forOfStatement left right body =>
    left.atomsAs false ++ (right.atomsAs false ++ body.atomsAs false)
  | .whileStatement test body => test.atomsAs false ++ body.atomsAs false
  | .doWhileStatement body test => body.atomsAs false ++ test.atomsAs false
  | .continueStatement => []
  | .breakStatement => []
  | .returnStatement argument => optionAtoms argument
  | .throwStatement argument => argument.atomsAs false
  | .tryStatement block handler finalizer =>
    block.atomsAs false ++ (optionAtoms handler ++ optionAtoms finalizer)
  | .catchClause param body => optionAtoms param ++ body.atomsAs false
  | .classDeclaration id superClass body =>
    id.atomsAs false ++ (optionAtoms superClass ++ body.atomsAs false)
  | .classBody body => itemAtoms body
  | .classProperty key value _ => key.atomsAs true ++ optionAtoms value
  | .classPrivateProperty key value _ => key.atomsAs true ++ optionAtoms value
  | .classMethodDefinition key _ _ value => key.atomsAs true ++ value.atomsAs false

def itemAtoms : List Node → List Atom
  | [] => []
  | node :: nodes => node.atomsAs false ++ itemAtoms nodes

def optionAtoms : Option Node → List Atom
  | none => []
  | some node => node.atomsAs false

end

/-- The atoms of a tree. -/
def Node.atoms (node : Node) : List Atom :=
  node.atomsAs false

lemma atomsAs_property (key value : Node) (computed method inKey : Bool) :
    (Node.property key value computed method).atomsAs inKey =
      key.atomsAs (!computed) ++ match echoed? key value computed method with
        | some name => [.echo name]
        | none => value.atomsAs false :=
  rfl

lemma itemAtoms_append (a b : List Node) : itemAtoms (a ++ b) = itemAtoms a ++ itemAtoms b := by
  induction a with
  | nil => rfl
  | cons node a ih => simp [itemAtoms, ih]

/-- Atoms and tokens side by side: tokens that are not essential are passed over, each atom is
spelled by a token, and an echo may do without one. -/
inductive Accounts : List Atom → List Token → Prop where
  | nil : Accounts [] []
  | skip {as : List Atom} {ts : List Token} {t : Token} (h : Accounts as ts)
      (ht : t.isEssential = false) : Accounts as (t :: ts)
  | spell {a : Atom} {as : List Atom} {ts : List Token} {t : Token} (h : Accounts as ts)
      (ha : a.SpelledBy t) : Accounts (a :: as) (t :: ts)
  | share {name : String} {as : List Atom} {ts : List Token} (h : Accounts as ts) :
      Accounts (.echo name :: as) ts

section Accounts

variable {as bs : List Atom} {ts us : List Token} {t : Token} {kind : Kind} {b : Bool}

lemma Accounts.append (h : Accounts as ts) (h' : Accounts bs us) :
    Accounts (as ++ bs) (ts ++ us) := by
  induction h with
  | nil => exact h'
  | skip _ ht ih => exact ih.skip ht
  | spell _ ha ih => exact ih.spell ha
  | share _ ih => exact ih.share

/-- Tokens without atoms behind others. -/
lemma Accounts.behind (h : Accounts as ts) (h' : Accounts [] us) : Accounts as (ts ++ us) := by
  have hjoin := h.append h'
  rwa [List.append_nil] at hjoin

lemma Is.inessential (h : Is kind t) (hkind : kind.isEssential = false) :
    t.isEssential = false := by
  unfold Token.isEssential
  rw [h.1, hkind]
  rfl

lemma Is.accounts (h : Is kind t) (hkind : kind.isEssential = false) :
    Accounts [] [t] :=
  .skip .nil (h.inessential hkind)

lemma IsStar.inessential (h : IsStar t) : t.isEssential = false := by
  unfold Token.isEssential
  rw [h.1.1, h.2]
  rfl

lemma Mark.accounts {P : Token → Prop} (h : Mark P b ts)
    (hP : ∀ t, P t → t.isEssential = false) : Accounts [] ts := by
  cases h with
  | absent => exact .nil
  | present ht => exact .skip .nil (hP _ ht)

lemma Mark.accounts_is (h : Mark (Is kind) b ts) (hkind : kind.isEssential = false) :
    Accounts [] ts :=
  h.accounts fun _ ht => ht.inessential hkind

lemma accounts_operator {text : String} (ht : IsOperator text t)
    (htexts : text ∈ operatorKinds.flatMap Kind.spellings) : Accounts (operatorAtoms text) [t] := by
  obtain ⟨his, htext⟩ := ht
  obtain ⟨kind, hkind, hmem⟩ := List.mem_flatMap.1 htexts
  rw [← kindOf_of_mem_spellings hmem] at hkind
  unfold operatorAtoms
  by_cases hstar : text = "*"
  · rw [if_pos hstar]
    subst hstar
    have hmul : kindOf "*" = .multiplicative := kindOf_of_mem_spellings List.mem_cons_self
    rw [hmul] at his
    exact .skip .nil (IsStar.inessential ⟨his, htext⟩)
  · rw [if_neg hstar]
    rw [← his.1] at hkind
    exact .spell .nil ⟨hkind, htext⟩

lemma IsMemberWord.accounts (ht : IsMemberWord t) : Accounts [.key t.text] [t] :=
  .spell .nil ⟨ht.1, rfl⟩

lemma Literal.accounts {n : Node} (h : Literal t n) (inKey : Bool) :
    Accounts (n.atomsAs inKey) [t] := by
  have hword : ∀ {kind : Kind} {text : String}, Is kind t → kind.spellings = [text] →
      t.kind = kind ∧ t.text = text := by
    intro kind text ht htexts
    have hmem := ht.2.mem_spellings (by simp [htexts])
    rw [htexts, List.mem_singleton] at hmem
    exact ⟨ht.1, hmem⟩
  cases h with
  | number ht hvalue => exact .spell .nil ⟨ht.1, _, hvalue, rfl⟩
  | bigInt ht htext hdigits => exact .spell .nil ⟨ht.1, htext⟩
  | string ht hquote htext => exact .spell .nil ⟨ht.1, _, hquote, htext⟩
  | regExp ht htext hpattern hflags => exact .spell .nil ⟨ht.1, htext⟩
  | boolean ht htext => exact .spell .nil ⟨ht.1, htext⟩
  | null ht => exact .spell .nil (hword ht rfl)
  | undefined ht => exact .spell .nil (hword ht rfl)
  | this ht => exact .spell .nil (hword ht rfl)

/-- A value that is spelled out may also be an echo. -/
lemma Accounts.echo {name : String} (h : Accounts (.name name :: as) ts) :
    Accounts (.echo name :: as) ts := by
  generalize hatoms : Atom.name name :: as = atoms at h
  induction h with
  | nil => cases hatoms
  | skip _ ht ih => exact (ih hatoms).skip ht
  | spell h ha =>
    cases hatoms
    exact h.spell ha
  | share => cases hatoms

end Accounts

lemma echoed?_of_method (key value : Node) (computed : Bool) :
    echoed? key value computed true = none := by
  unfold echoed?
  split
  next h => cases h
  next => rfl

lemma eq_of_echoed? {key value : Node} {computed method : Bool} {name : String}
    (h : echoed? key value computed method = some name) : value = .identifier name := by
  unfold echoed? at h
  split at h
  next name' other =>
    split at h
    next heq =>
      cases h
      rw [heq]
    next => cases h
  next => cases h

/-- Reading parentheses as parameters keeps their atoms. -/
lemma itemAtoms_of_arrowParams? {n : Node} {params : List Node}
    (h : arrowParams? n = some params) : itemAtoms params = n.atomsAs false := by
  have hone : ∀ {n param : Node}, arrowParam? n = some param →
      param.atomsAs false = n.atomsAs false := by
    intro n param hparam
    unfold arrowParam? at hparam
    split at hparam
    next => cases hparam; rfl
    next => cases hparam; rfl
    next => cases hparam
  unfold arrowParams? at h
  split at h
  next expressions =>
    change itemAtoms params = itemAtoms expressions
    induction expressions generalizing params with
    | nil =>
      cases h
      rfl
    | cons e expressions ih =>
      rw [List.mapM_cons] at h
      obtain ⟨param, hparam, h⟩ := Option.bind_eq_some_iff.1 h
      obtain ⟨rest, hrest, h⟩ := Option.bind_eq_some_iff.1 h
      cases h
      change param.atomsAs false ++ itemAtoms rest = e.atomsAs false ++ itemAtoms expressions
      rw [hone hparam, ih hrest]
  next =>
    obtain ⟨param, hparam, rfl⟩ := Option.map_eq_some_iff.1 h
    change param.atomsAs false ++ [] = n.atomsAs false
    rw [List.append_nil, hone hparam]

/-! ### Phrases -/

/-- Whether the names of a category name members. -/
def Category.isKey : Category → Bool
  | .key computed => !computed
  | .memberName | .memberKey _ => true
  | _ => false

/-- Whether the parts of a phrase do not name members, and its marks are not essential. -/
def Phrase.isPlain : Phrase → Bool
  | .perhaps category _ => !category.isKey
  | .behind kind category _ => !kind.isEssential && !category.isKey
  | .row separator category _ | .list _ separator category _ =>
    !separator.any Kind.isEssential && !category.isKey
  | _ => true

/-- The atoms of a phrase from left to right. -/
def Phrase.atoms : Phrase → List Atom
  | .one category n => n.atomsAs category.isKey
  | .perhaps _ n | .behind _ _ n => optionAtoms n
  | .row _ _ ns | .list _ _ _ ns => itemAtoms ns
  | .code params body => itemAtoms params ++ body.atomsAs false
  | .head params => itemAtoms params
  | .template _ expressions _ => itemAtoms expressions

lemma Bracket.accounts_around {bracket : Bracket} {as : List Atom} {ts : List Token} {t u : Token}
    (ht : Is bracket.opening t) (h : Accounts as ts) (hu : Is bracket.closing u) :
    Accounts as (t :: (ts ++ [u])) := by
  have hkinds : bracket.opening.isEssential = false ∧ bracket.closing.isEssential = false := by
    cases bracket <;> exact ⟨rfl, rfl⟩
  exact (h.behind (hu.accounts hkinds.2)).skip (ht.inessential hkinds.1)

lemma itemAtoms_singleton (n : Node) : itemAtoms [n] = n.atomsAs false := by
  simp [itemAtoms]

/-- In every derivation the atoms of the phrase account for its tokens. -/
theorem Derives.accounts {c : Context} {phrase : Phrase} {ts : List Token}
    (h : Derives c phrase ts) (hplain : phrase.isPlain = true) : Accounts phrase.atoms ts := by
  induction h with
  | absent => exact .nil
  | present h ih =>
    simp only [Phrase.isPlain, Bool.not_eq_true'] at hplain
    have hn := ih rfl
    rwa [Phrase.atoms, hplain] at hn
  | nothingBehind => exact .nil
  | behind ht h ih =>
    simp only [Phrase.isPlain, Bool.and_eq_true, Bool.not_eq_true'] at hplain
    have hn := ih rfl
    rw [Phrase.atoms, hplain.2] at hn
    exact hn.skip (ht.inessential hplain.1)
  | rowNil => exact .nil
  | rowSeparator h ht ih =>
    have hkind := hplain
    simp only [Phrase.isPlain, Option.any_some, Bool.and_eq_true, Bool.not_eq_true'] at hkind
    exact (ih hplain).behind (ht.accounts hkind.1)
  | rowItem h hn ih ihn =>
    have hkey := hplain
    simp only [Phrase.isPlain, Bool.and_eq_true, Bool.not_eq_true'] at hkey
    have hitem := ihn rfl
    rw [Phrase.atoms, hkey.2] at hitem
    rw [Phrase.atoms, itemAtoms_append, itemAtoms_singleton]
    exact (ih hplain).append hitem
  | list ht h hu ih => exact Bracket.accounts_around ht (ih hplain) hu
  | enclosed ht h hu ih => exact Bracket.accounts_around ht (ih rfl) hu
  | name ht => exact .spell .nil ⟨ht.1, rfl⟩
  | parameter h ih => exact ih rfl
  | parameterWithDefault h ht hvalue ih ihvalue =>
    exact (ih rfl).append ((ihvalue rfl).skip (ht.inessential rfl))
  | code hparams hbody ihparams ihbody => exact (ihparams rfl).append (ihbody rfl)
  | headNone ht hu => exact (hu.accounts rfl).skip (ht.inessential rfl)
  | headName h ih =>
    rw [Phrase.atoms, itemAtoms_singleton]
    exact ih rfl
  | headCover h hparams ih =>
    rw [Phrase.atoms, itemAtoms_of_arrowParams? hparams]
    exact ih rfl
  | arrowBlock h ih => exact ih rfl
  | arrowExpression h ih => exact ih rfl
  | arrow hparams ht hbody ihparams ihbody =>
    exact (ihparams rfl).append ((ihbody rfl).skip (ht.inessential rfl))
  | literal h => exact h.accounts false
  | nameValue h ih => exact ih rfl
  | array h ih => exact ih rfl
  | object h ih => exact ih rfl
  | parenthesized h ih => exact ih rfl
  | plainArrow h ih => exact ih rfl
  | asyncArrow ht h ih => exact (ih rfl).skip (ht.inessential rfl)
  | @functionExpression _ _ _ generator _ _ _ _ _ _ hm ht hid hcode ihid ihcode =>
    have hword : (functionWord generator).isEssential = false := by cases generator <;> rfl
    exact (hm.accounts_is rfl).append (((ihid rfl).append (ihcode rfl)).skip (ht.inessential hword))
  | yieldValue h ih => exact ih rfl
  | yielding ht h ih => exact (ih rfl).skip (ht.inessential rfl)
  | templateStart => exact .nil
  | templateText h ht ih =>
    refine (ih rfl).behind (.skip .nil ?_)
    simp [Token.isEssential, ht, Kind.isEssential, operatorKinds]
  | templateInsertion h ht hu hn hv ih ihn =>
    rw [Phrase.atoms, itemAtoms_append, itemAtoms_singleton]
    refine (ih rfl).append ((((ihn rfl).behind (hv.accounts rfl)).skip (hu.inessential rfl)).skip ?_)
    simp [Token.isEssential, ht, Kind.isEssential, operatorKinds]
  | template ht h hu ih => exact ((ih rfl).behind (hu.accounts rfl)).skip (ht.inessential rfl)
  | templateWithoutEnd ht h hu ih => exact ((ih rfl).behind (hu.accounts rfl)).skip (ht.inessential rfl)
  | keyWord ht => exact ht.accounts
  | keyLiteral ht h => exact h.accounts true
  | keyComputed h ih => exact ih rfl
  | propertyMethod hm hg hkey hcode ihkey ihcode =>
    rw [Phrase.atoms, atomsAs_property, echoed?_of_method]
    have hstar := hg.accounts fun _ ht => IsStar.inessential ht
    exact (hm.accounts_is rfl).append (hstar.append ((ihkey rfl).append (ihcode rfl)))
  | @propertyValue _ computed key _ _ value _ hkey ht hvalue ihkey ihvalue =>
    rw [Phrase.atoms, atomsAs_property]
    have hvalue := ihvalue rfl
    refine (ihkey rfl).append (Accounts.skip ?_ (ht.inessential rfl))
    cases hecho : echoed? key value computed false with
    | none => exact hvalue
    | some name =>
      obtain rfl := eq_of_echoed? hecho
      exact hvalue.echo
  | @shorthand _ name _ hkey ihkey =>
    have hecho : echoed? (.identifier name) (.identifier name) false false = some name :=
      if_pos rfl
    rw [Phrase.atoms, atomsAs_property, hecho]
    have hjoin := (ihkey rfl).append (@Accounts.share name _ _ .nil)
    rwa [List.append_nil] at hjoin
  | memberWord ht => exact ht.accounts
  | memberPrivate ht h =>
    cases h with
    | name hname =>
      have hword : IsMemberWord _ := ⟨Or.inl hname.1, hname.1 ▸ hname.2⟩
      exact hword.accounts.skip (ht.inessential rfl)
  | base hof h ih => exact ih rfl
  | heritage h ih => exact ih rfl
  | created h ih => exact ih rfl
  | createdInside hdepth h ih => exact ih rfl
  | member h ht hm ih ihm => exact (ih rfl).append ((ihm rfl).skip (ht.inessential rfl))
  | computedMember h hm ih ihm => exact (ih rfl).append (ihm rfl)
  | optionalMember h ht hm ih ihm => exact (ih rfl).append ((ihm rfl).skip (ht.inessential rfl))
  | optionalComputedMember h ht hm ih ihm => exact (ih rfl).append ((ihm rfl).skip (ht.inessential rfl))
  | call h hargs ih ihargs => exact (ih rfl).append (ihargs rfl)
  | optionalCall h ht hargs ih ihargs => exact (ih rfl).append ((ihargs rfl).skip (ht.inessential rfl))
  | creation ht h ih =>
    have hcallee := ih rfl
    change Accounts (Node.atomsAs false _ ++ []) _
    rw [List.append_nil]
    exact hcallee.skip (ht.inessential rfl)
  | creationWith ht h hargs ih ihargs => exact ((ih rfl).append (ihargs rfl)).skip (ht.inessential rfl)
  | suffixed h ih => exact ih rfl
  | @updateBehind _ _ _ _ operator h htarget ht ih =>
    have hoperator := accounts_operator ht (by cases operator <;> decide)
    exact (ih rfl).append hoperator
  | @unary _ _ operator _ _ ht h ih =>
    have hoperator := accounts_operator ht (by cases operator <;> decide)
    exact hoperator.append (ih rfl)
  | @update _ _ operator _ _ ht h htarget ih =>
    have hoperator := accounts_operator ht (by cases operator <;> decide)
    exact hoperator.append (ih rfl)
  | await ht h ih => exact (ih rfl).skip (ht.inessential rfl)
  | operand hdepth h ih => exact ih rfl
  | loosen hle h ih => exact ih rfl
  | power hl ht hdepth hr ihl ihr =>
    have hoperator := accounts_operator ht (by decide)
    exact (ihl rfl).append (hoperator.append (ihr rfl))
  | @binary _ operator _ _ _ _ _ hne hl ht hr ihl ihr =>
    have hoperator := accounts_operator ht (by cases operator <;> decide)
    exact (ihl rfl).append (hoperator.append (ihr rfl))
  | @logical _ operator _ _ _ _ _ hl ht hr ihl ihr =>
    have hoperator := accounts_operator ht (by cases operator <;> decide)
    exact (ihl rfl).append (hoperator.append (ihr rfl))
  | assignment h htarget ht hdepth hvalue ih ihvalue =>
    exact (ih rfl).append ((ihvalue rfl).skip (ht.inessential rfl))
  | @complexAssignment _ _ _ _ operator _ _ h htarget hne ht hdepth hvalue ih ihvalue =>
    have htexts : operator.text ∈ operatorKinds.flatMap Kind.spellings := by
      cases operator
      · exact absurd rfl hne
      all_goals decide
    exact (ih rfl).append ((accounts_operator ht htexts).append (ihvalue rfl))
  | yieldElement h ih => exact ih rfl
  | sequence htwo h ih => exact ih rfl
  | publicKey ht => exact ht.accounts
  | privateKey ht hu => exact hu.accounts.skip (ht.inessential rfl)
  | method hs hm hg hkey hkind hcode ihkey ihcode =>
    have hstar := hg.accounts fun _ ht => IsStar.inessential ht
    have hbehind := hstar.append ((ihkey rfl).append (ihcode rfl))
    exact (hs.accounts_is rfl).append ((hm.accounts_is rfl).append hbehind)
  | classProperty hs hkey hvalue hend ihkey ihvalue =>
    have hjoin := ((ihkey rfl).append (ihvalue rfl)).behind (hend.accounts_is rfl)
    rw [List.append_assoc] at hjoin
    exact (hs.accounts_is rfl).append hjoin
  | classPrivateProperty hs hkey hvalue hend ihkey ihvalue =>
    have hjoin := ((ihkey rfl).append (ihvalue rfl)).behind (hend.accounts_is rfl)
    rw [List.append_assoc] at hjoin
    exact (hs.accounts_is rfl).append hjoin
  | classDeclaration ht hid hsuper hbody ihid ihsuper ihbody =>
    exact ((ihid rfl).append ((ihsuper rfl).append (ihbody rfl))).skip (ht.inessential rfl)
  | statement hdepth h ih => exact ih rfl
  | block h ih => exact ih rfl
  | blockStatement h ih => exact ih rfl
  | expressionStatement h hend ih => exact (ih rfl).behind (hend.accounts_is rfl)
  | declaration ht hkind hid hvalue ihid ihvalue =>
    exact ((ihid rfl).append (ihvalue rfl)).skip (ht.inessential rfl)
  | declarationStatement h hend ih => exact (ih rfl).behind (hend.accounts_is rfl)
  | ifStatement ht htest hconsequent halternate ihtest ihconsequent ihalternate =>
    exact ((ihtest rfl).append ((ihconsequent rfl).append (ihalternate rfl))).skip (ht.inessential rfl)
  | @functionDeclaration _ _ _ generator _ _ _ _ _ _ hm ht hid hcode ihid ihcode =>
    have hword : (functionWord generator).isEssential = false := by cases generator <;> rfl
    exact (hm.accounts_is rfl).append (((ihid rfl).append (ihcode rfl)).skip (ht.inessential hword))
  | loopDeclaration h ih => exact ih rfl
  | loopExpression h ih => exact ih rfl
  | loopBlock h ih => exact ih rfl
  | loopSingle h ih =>
    change Accounts (itemAtoms [_]) _
    rw [itemAtoms_singleton]
    exact ih rfl
  | forStatement ht hu hinit hv htest hw hupdate hx hbody ihinit ihtest ihupdate ihbody =>
    have hbehind := (ihupdate rfl).append ((ihbody rfl).skip (hx.inessential rfl))
    have hclauses := (ihtest rfl).append (hbehind.skip (hw.inessential rfl))
    have hjoin := (ihinit rfl).append (hclauses.skip (hv.inessential rfl))
    exact (hjoin.skip (hu.inessential rfl)).skip (ht.inessential rfl)
  | forOfStatement ht hu hleft hv hright hw hbody ihleft ihright ihbody =>
    have hbehind := (ihright rfl).append ((ihbody rfl).skip (hw.inessential rfl))
    have hjoin := (ihleft rfl).append (hbehind.skip (hv.inessential rfl))
    exact (hjoin.skip (hu.inessential rfl)).skip (ht.inessential rfl)
  | whileStatement ht htest hbody ihtest ihbody =>
    exact ((ihtest rfl).append (ihbody rfl)).skip (ht.inessential rfl)
  | doWhileStatement ht hbody hu htest hend ihbody ihtest =>
    have hbehind := (ihtest rfl).behind (hend.accounts_is rfl)
    exact ((ihbody rfl).append (hbehind.skip (hu.inessential rfl))).skip (ht.inessential rfl)
  | continueStatement ht hend => exact (hend.accounts_is rfl).skip (ht.inessential rfl)
  | breakStatement ht hend => exact (hend.accounts_is rfl).skip (ht.inessential rfl)
  | returnStatement hin ht h hend ih =>
    exact ((ih rfl).behind (hend.accounts_is rfl)).skip (ht.inessential rfl)
  | throwStatement ht h hend ih =>
    exact ((ih rfl).behind (hend.accounts_is rfl)).skip (ht.inessential rfl)
  | catchParameter h ht ih => exact (ih rfl).behind (ht.accounts rfl)
  | catchClause hparam hbody ihparam ihbody => exact (ihparam rfl).append (ihbody rfl)
  | tryStatement ht hbody hhandler hfinalizer hsome ihbody ihhandler ihfinalizer =>
    exact ((ihbody rfl).append ((ihhandler rfl).append (ihfinalizer rfl))).skip (ht.inessential rfl)

/-! ### Sources -/

/-- What is accounted for: a part of the tokens with all essential ones, and the atoms that they
spell, among which only echoes may be missing. -/
lemma Accounts.exists_spelled {as : List Atom} {ts : List Token} (h : Accounts as ts) :
    ∃ kept read, kept.Sublist ts ∧
      kept.filter Token.isEssential = ts.filter Token.isEssential ∧
      read.Sublist as ∧ read.filter (!·.isEcho) = as.filter (!·.isEcho) ∧
      List.Forall₂ Atom.SpelledBy read kept := by
  induction h with
  | nil => exact ⟨[], [], List.Sublist.refl [], rfl, List.Sublist.refl [], rfl, .nil⟩
  | skip h ht ih =>
    obtain ⟨kept, read, hkept, hessential, hread, hechoes, hspelled⟩ := ih
    refine ⟨kept, read, hkept.cons _, ?_, hread, hechoes, hspelled⟩
    rw [hessential, List.filter_cons_of_neg (by simp [ht])]
  | @spell a _ _ t h ha ih =>
    obtain ⟨kept, read, hkept, hessential, hread, hechoes, hspelled⟩ := ih
    refine ⟨t :: kept, a :: read, hkept.cons_cons t, ?_, hread.cons_cons a, ?_, .cons ha hspelled⟩
    · rw [List.filter_cons, List.filter_cons, hessential]
    · rw [List.filter_cons, List.filter_cons, hechoes]
  | share h ih =>
    obtain ⟨kept, read, hkept, hessential, hread, hechoes, hspelled⟩ := ih
    exact ⟨kept, read, hkept, hessential, hread.cons _, hechoes, hspelled⟩

/-- An atom that is no echo has its token. -/
lemma Accounts.exists_of_mem {a : Atom} {as : List Atom} {ts : List Token} (h : Accounts as ts)
    (ha : a ∈ as) (hecho : a.isEcho = false) : ∃ t ∈ ts, a.SpelledBy t := by
  induction h with
  | nil => cases ha
  | skip _ _ ih =>
    obtain ⟨t, ht, hspelled⟩ := ih ha
    exact ⟨t, List.mem_cons_of_mem _ ht, hspelled⟩
  | spell _ hspelled ih =>
    rcases List.mem_cons.1 ha with rfl | ha
    · exact ⟨_, List.mem_cons_self, hspelled⟩
    · obtain ⟨t, ht, hspelled⟩ := ih ha
      exact ⟨t, List.mem_cons_of_mem _ ht, hspelled⟩
  | share _ ih =>
    rcases List.mem_cons.1 ha with rfl | ha
    · cases hecho
    · exact ih ha

/-- A source without templates that is accepted has its names, values and operators in its tree,
each once and in order, and the tree has no others. Where the value of a property is its name once
more, both may come from one token. -/
theorem atoms_account_for_tokens (source : String) (limit : Nat) (tree : Node)
    (hplain : ∀ t ∈ (scanSource source).1, t.kind ≠ .backtick)
    (hparse : parse source limit = .ok tree) :
    ∃ tokens kept read, tokenize source = .ok tokens ∧ kept.Sublist tokens ∧
      kept.filter Token.isEssential = tokens.filter Token.isEssential ∧
      read.Sublist tree.atoms ∧ read.filter (!·.isEcho) = tree.atoms.filter (!·.isEcho) ∧
      List.Forall₂ Atom.SpelledBy read kept := by
  obtain ⟨body, ts, rfl, hbody, hscan⟩ := derives_of_parse hparse
  obtain ⟨last, hend, htokens⟩ := hscan hplain
  have hbodyAtoms : Accounts (itemAtoms body) ts := hbody.accounts rfl
  have hlast : Accounts [] [last] := by
    refine .skip .nil ?_
    unfold Token.isEssential
    rw [hend]
    rfl
  obtain ⟨kept, read, hspelled⟩ := (hbodyAtoms.behind hlast).exists_spelled
  exact ⟨ts ++ [last], kept, read, htokens, hspelled⟩

theorem accounts_for_shorthand :
    (∀ t ∈ (scanSource "x = \x7ba, if: -1\x7d").1, t.kind ≠ .backtick) ∧
    ∃ tree, parse "x = \x7ba, if: -1\x7d" = .ok tree ∧
      tree.atoms = [.name "x", .key "a", .echo "a", .key "if", .operator "-",
        .number (.finite 4503599627370496 (-52))] ∧
      ∃ tokens kept read, tokenize "x = \x7ba, if: -1\x7d" = .ok tokens ∧ kept.Sublist tokens ∧
        kept.filter Token.isEssential = tokens.filter Token.isEssential ∧
        read.Sublist tree.atoms ∧ read.filter (!·.isEcho) = tree.atoms.filter (!·.isEcho) ∧
        List.Forall₂ Atom.SpelledBy read kept := by
  have hplain : ∀ t ∈ (scanSource "x = \x7ba, if: -1\x7d").1, t.kind ≠ .backtick := by
    decide +kernel
  have hatoms : (parse "x = \x7ba, if: -1\x7d").map Node.atoms =
      .ok [.name "x", .key "a", .echo "a", .key "if", .operator "-",
        .number (.finite 4503599627370496 (-52))] := by
    decide +kernel
  rcases hparse : parse "x = \x7ba, if: -1\x7d" with e | tree
  · rw [hparse] at hatoms
    cases hatoms
  · rw [hparse] at hatoms
    exact ⟨hplain, tree, rfl, Except.ok.inj hatoms,
      atoms_account_for_tokens _ _ tree hplain hparse⟩

/-- A name that is a property and its value at once is one token and two names of the tree, so not
every name has a token of its own. -/
theorem shorthand_repeats_its_name :
    ∃ tree tokens, parse "(\x7ba\x7d)" = .ok tree ∧ tokenize "(\x7ba\x7d)" = .ok tokens ∧
      (∀ t ∈ tokens, t.kind ≠ .backtick) ∧
      ¬∃ kept : List Token, kept.Sublist tokens ∧ List.Forall₂ Atom.SpelledBy tree.atoms kept := by
  have hatoms : (parse "(\x7ba\x7d)").map Node.atoms = .ok [.key "a", .echo "a"] := by
    decide +kernel
  have htokens : (tokenize "(\x7ba\x7d)").map (fun tokens =>
      (tokens.all (·.kind ≠ .backtick), (tokens.filter (·.text = "a")).length)) = .ok (true, 1) := by
    decide +kernel
  rcases hparse : parse "(\x7ba\x7d)" with e | tree
  · rw [hparse] at hatoms
    cases hatoms
  rcases htokenize : tokenize "(\x7ba\x7d)" with e | tokens
  · rw [htokenize] at htokens
    cases htokens
  rw [hparse] at hatoms
  rw [htokenize] at htokens
  obtain ⟨hplain, hone⟩ := Prod.mk.inj (Except.ok.inj htokens)
  refine ⟨tree, tokens, rfl, rfl, by simpa using hplain, ?_⟩
  rintro ⟨kept, hkept, hspelled⟩
  rw [show tree.atoms = [.key "a", .echo "a"] from Except.ok.inj hatoms] at hspelled
  have htwo : kept.length = 2 ∧ ∀ t ∈ kept, t.text = "a" := by
    cases hspelled with
    | cons ha hrest =>
      cases hrest with
      | cons hb hnil =>
        cases hnil
        simp [ha.2, hb.2]
  have hlength := (hkept.filter (·.text = "a")).length_le
  rw [hone, List.filter_eq_self.2 (by simpa using htwo.2), htwo.1] at hlength
  exact absurd hlength (by decide)

end ScriptTree
