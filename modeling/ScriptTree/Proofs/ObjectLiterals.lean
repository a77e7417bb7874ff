import ScriptTree.Proofs.Alone
import ScriptTree.Proofs.ClassBodies
import ScriptTree.Proofs.Numerals

/-!
# Object literals are read back

A key is a word, a quoted text, a number, or a name in brackets. The word `async` is a key if a
colon, parameters, a comma or the closing brace follow it, and otherwise makes what follows it
asynchronous, which may again be called `async`.

Main statement: `parse_of_writesObject`.
-/

namespace ScriptTree

open ScriptTree.Parser

/-- The number that a text stands for. Every number token stands for one. -/
def numeral (text : String) : Node :=
  .numericLiteral ((Decimal.ofText? text).getD ⟨0, 0⟩).toBinary64

/-- The keys of properties, which may be computed. -/
inductive WritesKey : Bool → Node → List String → Prop where
  | word {name : String} (h : NamesMember name) : WritesKey false (.identifier name) [name]
  | quoted {quote : Char} {body : List Char}
      (h : IsToken .string (String.ofList (quote :: body ++ [quote]))) :
      WritesKey false (.stringLiteral (String.ofList body))
        [String.ofList (quote :: body ++ [quote])]
  | number {text : String} (h : IsToken .number text) : WritesKey false (numeral text) [text]
  | computed {name : String} (h : IsToken .identifier name) :
      WritesKey true (.identifier name) ["[", name, "]"]

/-- Members of objects: a key with a value, a method, or a name that is both. -/
inductive WritesProperty : Node → List String → Prop where
  | value {computed : Bool} {key value : Node} {ts us : List String}
      (hkey : WritesKey computed key ts) (hvalue : WritesName value us) :
      WritesProperty (.property key value computed false) (ts ++ ":" :: us)
  | method {isAsync generator computed : Bool} {key : Node} {params : List Node} {body : Node}
      {ts us : List String} (hkey : WritesKey computed key ts) (h : WritesMethod params body us) :
      WritesProperty
        (.property key (.functionExpression none generator isAsync params body) computed true)
        (writtenIf isAsync "async" ++ (writtenIf generator "*" ++ (ts ++ us)))
  | shorthand {name : String} (h : IsToken .identifier name) :
      WritesProperty (.property (.identifier name) (.identifier name) false false) [name]

/-- Parts with commas between them, and perhaps one behind the last part. -/
inductive WritesList (R : Node → List String → Prop) : List Node → List String → Prop where
  | plain {ns : List Node} {ts : List String} (h : WritesRow R ns ts) : WritesList R ns ts
  | trailing {n : Node} {ns : List Node} {ts : List String} (h : WritesRow R (n :: ns) ts) :
      WritesList R (n :: ns) (ts ++ [","])

/-- Members in braces. -/
inductive WritesObject : Node → List String → Prop where
  | object {members : List Node} {ts : List String} (h : WritesList WritesProperty members ts) :
      WritesObject (.objectLiteral members) ("\x7b" :: (ts ++ ["\x7d"]))

section Keys

variable {computed : Bool} {key : Node} {ts : List String} {c : Context}
  {ls rest : List (Kind × String)} {n : Nat}

lemma WritesName.element {e : Node} (h : WritesName e ts) (hlevels : 0 < n)
    (hdepth : c.depth < c.limit) (hends : Ends 1 rest) :
    Takes (Grammar.upTo n).element c (lexemesBefore ts rest) e rest := by
  cases h with
  | name h =>
    exact (readable_name h).read 1 (by omega) (by simp [Node.level]) n c rest ⟨hlevels, hdepth⟩ hends

lemma kindOf_colon : kindOf ":" = .colon := by
  decide +kernel

lemma kindOf_lBracket : kindOf "[" = .lBracket :=
  congrArg Prod.fst lexemeOf_lBracket

lemma kindOf_rBracket : kindOf "]" = .rBracket :=
  congrArg Prod.fst lexemeOf_rBracket

lemma numeral_takes {text : String} (h : IsToken .number text) :
    Takes numericLiteral c ((.number, text) :: ls) (numeral text) ls := by
  obtain ⟨value, hvalue⟩ := exists_decimal (Cursor.spells_of_isToken h)
  refine Takes.advance_bind fun t ht => ?_
  have htext : t.text = text := congrArg Prod.snd ht
  rw [htext]
  refine Takes.spelled_bind hvalue ?_
  unfold numeral
  rw [hvalue]
  exact Takes.pure _

lemma quoted_takes {quote : Char} {body : List Char}
    (h : IsToken .string (String.ofList (quote :: body ++ [quote]))) :
    Takes stringLiteral c ((.string, String.ofList (quote :: body ++ [quote])) :: ls)
      (.stringLiteral (String.ofList body)) ls := by
  have hcut := unquoted?_eq (Cursor.spells_of_isToken h) String.toList_ofList
  refine Takes.advance_bind fun t ht => ?_
  have htext : t.text = String.ofList (quote :: body ++ [quote]) := congrArg Prod.snd ht
  rw [htext]
  exact Takes.spelled_bind hcut (Takes.pure _)

/-- How a key begins, and that `async` is a key in front of what may stand behind a key. -/
structure KeyAhead (ls : List (Kind × String)) : Prop where
  goes : Grammar.endsPropertyName (headKind ls) = false
  noStar : headKind ls ≠ .multiplicative
  noModifier : NoModifier Grammar.endsPropertyName .kwAsync ls

lemma KeyAhead.of_kind {kind : Kind} {text : String} (hkind : kindOf text = kind)
    (hgoes : Grammar.endsPropertyName kind = false) (hstar : kind ≠ .multiplicative)
    (hasync : kind ≠ .kwAsync) : KeyAhead ((kindOf text, text) :: ls) := by
  subst hkind
  exact ⟨hgoes, hstar, fun h => absurd h hasync⟩

lemma WritesKey.ahead (h : WritesKey computed key ts)
    (hends : Grammar.endsPropertyName (headKind ls) = true) : KeyAhead (lexemesBefore ts ls) := by
  cases h with
  | @word name h =>
    have hfacts : Grammar.endsPropertyName (kindOf name) = false ∧ kindOf name ≠ .multiplicative := by
      have hkind := h.kind
      revert hkind
      cases kindOf name <;> decide
    exact ⟨hfacts.1, hfacts.2, .of_name hends⟩
  | quoted h | number h =>
    have hline := onLine_of_lexeme h (by decide) (by decide)
    exact .of_kind hline.1 rfl (by decide) (by decide)
  | computed h => exact .of_kind kindOf_lBracket rfl (by decide) (by decide)

lemma word_takes {name : String} (h : NamesMember name) :
    Takes Grammar.propertyKey c ((kindOf name, name) :: ls) (.identifier name) ls := by
  have hword := h.kind
  refine Takes.lookahead_bind fun t ht => ?_
  rw [headKind_cons] at ht
  generalize kindOf name = kind at hword ht ⊢
  split
  next hkind =>
    rw [← ht, hkind]
    exact identifier_takes
  next hkind =>
    rw [← ht, hkind] at hword
    rcases hword with hword | hword <;> cases hword
  next hkind =>
    rw [← ht, hkind] at hword
    rcases hword with hword | hword <;> cases hword
  next hne _ _ =>
    rw [ht] at hne ⊢
    rw [if_pos (hword.resolve_left hne)]
    refine Takes.advance_bind fun u hu => ?_
    have htext : u.text = name := congrArg Prod.snd hu
    rw [htext]
    exact Takes.pure _

/-- A key in brackets or without them. -/
lemma WritesKey.takes (h : WritesKey computed key ts) (hlevels : 1 < n) (hdepth : c.depth < c.limit)
    {β : Type} {f : Bool → Node → Parser β} {b : β} (hf : Takes (f computed key) c ls b rest) :
    Takes (accept .lBracket >>= fun x => if x = true then do
        let key ← (Grammar.upTo n).parse .element
        let _ ← expect .rBracket
        f true key
      else do
        let key ← Grammar.propertyKey
        f false key) c (lexemesBefore ts ls) b rest := by
  cases h with
  | @word name h =>
    have hne : kindOf name ≠ .lBracket := by
      have hkind := h.kind
      revert hkind
      cases kindOf name <;> decide
    exact Takes.accept_neg hne ((word_takes h).bind hf)
  | quoted h =>
    have hkind := (onLine_of_lexeme h (by decide) (by decide)).1
    rw [lexemesBefore_cons, hkind]
    refine Takes.accept_neg (by simp) (Takes.bind ?_ hf)
    refine Takes.lookahead_bind fun t ht => ?_
    rw [ht]
    exact quoted_takes h
  | number h =>
    have hkind := (onLine_of_lexeme h (by decide) (by decide)).1
    rw [lexemesBefore_cons, hkind]
    refine Takes.accept_neg (by simp) (Takes.bind ?_ hf)
    refine Takes.lookahead_bind fun t ht => ?_
    rw [ht]
    exact numeral_takes h
  | @computed name h =>
    obtain ⟨n, rfl⟩ : ∃ d, n = d + 1 := ⟨n - 1, by omega⟩
    have hclose : headKind (lexemesBefore ["]"] ls) = .rBracket := kindOf_rBracket
    have hname : Takes (Grammar.upTo n).element c (lexemesBefore [name] (lexemesBefore ["]"] ls))
        (.identifier name) (lexemesBefore ["]"] ls) :=
      (WritesName.name h).element (by omega) hdepth
        (ends_of_grip?_eq_none (by rw [hclose]; rfl))
    refine Takes.accept_mark kindOf_lBracket ?_
    exact hname.bind (Takes.expect_mark kindOf_rBracket hf)

end Keys

/-! ### Members -/

section Properties

variable {c : Context} {n : Nat} {e : Node} {ts : List String} {rest : List (Kind × String)}

lemma property_takes {isAsync generator computed : Bool} {key : Node} {ls : List (Kind × String)}
    (hkey : WritesKey computed key ts) (hends : Grammar.endsPropertyName (headKind ls) = true)
    (hlevels : 1 < n) (hdepth : c.depth < c.limit)
    (h : Takes ((Grammar.upTo n).propertyTail isAsync generator computed key) c ls e rest) :
    Takes (Grammar.upTo n).property c
      (lexemesBefore (writtenIf isAsync "async" ++ (writtenIf generator "*" ++ ts)) ls) e rest := by
  obtain ⟨hgoes, hnoStar, hnoModifier⟩ := hkey.ahead hends
  have hstar : Grammar.endsPropertyName
      (headKind (lexemesBefore (writtenIf generator "*") (lexemesBefore ts ls))) = false := by
    rw [headKind_writtenIf]
    split
    next =>
      rw [kindOf_star]
      rfl
    next => exact hgoes
  have hasync : NoModifier Grammar.endsPropertyName .kwAsync
      (lexemesBefore (writtenIf generator "*") (lexemesBefore ts ls)) :=
    hnoModifier.behind (by rw [kindOf_star]; decide)
  simp only [lexemesBefore_append]
  unfold Grammar.property
  rw [acceptAsyncMethod_eq]
  refine (acceptUnless_takes kindOf_async hstar hasync).bind ((acceptStar_takes hnoStar).bind ?_)
  exact hkey.takes hlevels hdepth h

lemma WritesKey.length_pos {computed : Bool} {key : Node} (h : WritesKey computed key ts) :
    0 < ts.length := by
  cases h <;> exact Nat.succ_pos _

section Tails

variable {key value body : Node} {params : List Node} {computed isAsync generator : Bool}
  {name : String} {us : List String}

lemma valueTail_takes (hvalue : WritesName value us) (hlevels : 0 < n) (hdepth : c.depth < c.limit)
    (hrest : headKind rest = .comma ∨ headKind rest = .rBrace) :
    Takes ((Grammar.upTo (n + 1)).propertyTail false false computed key) c
      (lexemesBefore (":" :: us) rest) (.property key value computed false) rest := by
  have hends : Ends 1 rest := by
    intro k hk
    rcases hrest with hrest | hrest <;> rw [hrest] at hk <;> cases hk
    exact Nat.zero_lt_one
  have hcolon : headKind (lexemesBefore (":" :: us) rest) = .colon := kindOf_colon
  refine Takes.sees_bind ?_
  rw [hcolon, if_neg (by decide)]
  refine Takes.lookahead_bind fun t ht => ?_
  have hkind : Grammar.isShorthand key computed t.kind = false := by
    rw [ht, hcolon]
    cases key <;> rfl
  rw [hkind, if_neg (by decide)]
  refine Takes.expect_mark kindOf_colon ?_
  exact (hvalue.element hlevels hdepth hends).bind (Takes.pure _)

lemma methodTail_takes (h : WritesMethod params body us) (hlevels : us.length ≤ n)
    (hdepth : c.depth + us.length ≤ c.limit) :
    Takes ((Grammar.upTo n).propertyTail isAsync generator computed key) c (lexemesBefore us rest)
      (.property key (.functionExpression none generator isAsync params body) computed true)
      rest := by
  refine Takes.sees_bind ?_
  rw [h.head, if_pos (show (_ || isAsync || generator) = true from rfl)]
  exact (h.takes generator isAsync hlevels hdepth rest).bind (Takes.pure _)

/-- Nothing stands behind a name that is its own value. -/
lemma shorthandTail_takes (hrest : headKind rest = .comma ∨ headKind rest = .rBrace) :
    Takes ((Grammar.upTo n).propertyTail false false false (.identifier name)) c rest
      (.property (.identifier name) (.identifier name) false false) rest := by
  have hparen : headKind rest ≠ .lParen := by
    rcases hrest with hrest | hrest <;> rw [hrest] <;> decide
  refine Takes.sees_bind ?_
  rw [beq_eq_false_iff_ne.2 hparen, if_neg (by decide)]
  refine Takes.lookahead_bind fun t ht => ?_
  have hkind : Grammar.isShorthand (.identifier name) false t.kind = true := by
    rw [ht]
    rcases hrest with hrest | hrest <;> rw [hrest] <;> rfl
  rw [if_pos hkind]
  exact Takes.pure _

end Tails

lemma WritesProperty.takes (h : WritesProperty e ts) (hlevels : ts.length < n)
    (hdepth : c.depth + ts.length ≤ c.limit)
    (hrest : headKind rest = .comma ∨ headKind rest = .rBrace) :
    Takes (Grammar.upTo n).property c (lexemesBefore ts rest) e rest := by
  cases h with
  | @value computed key value ts us hkey hvalue =>
    obtain ⟨n, rfl⟩ : ∃ d, n = d + 1 := ⟨n - 1, by omega⟩
    have hpos := hkey.length_pos
    simp only [List.length_append, List.length_cons] at hlevels hdepth
    have hcolon : headKind (lexemesBefore (":" :: us) rest) = .colon := kindOf_colon
    rw [lexemesBefore_append]
    change Takes _ c (lexemesBefore (writtenIf false "async" ++ (writtenIf false "*" ++ ts)) _) _ _
    exact property_takes hkey (by rw [hcolon]; rfl) (by omega) (by omega)
      (valueTail_takes hvalue (by omega) (by omega) hrest)
  | @method isAsync generator computed key params body ts us hkey h =>
    have hpos := hkey.length_pos
    have hlength := h.length
    simp only [List.length_append] at hlevels hdepth
    have htail : Takes ((Grammar.upTo n).propertyTail isAsync generator computed key) c
        (lexemesBefore us rest)
        (.property key (.functionExpression none generator isAsync params body) computed true)
        rest := methodTail_takes h (by omega) (by omega)
    have hread := property_takes hkey (by rw [h.head]; rfl) (by omega) (by omega) htail
    simpa only [lexemesBefore_append] using hread
  | @shorthand name h =>
    have hends : Grammar.endsPropertyName (headKind rest) = true := by
      rcases hrest with hrest | hrest <;> rw [hrest] <;> rfl
    change Takes _ c (lexemesBefore (writtenIf false "async" ++ (writtenIf false "*" ++ [name])) _) _ _
    exact property_takes (.word ⟨_, h, Or.inl rfl⟩) hends hlevels (by simp at hdepth; omega)
      (shorthandTail_takes hrest)

lemma WritesProperty.length_pos (h : WritesProperty e ts) : 0 < ts.length := by
  cases h with
  | value hkey =>
    rw [List.length_append]
    exact Nat.add_pos_left hkey.length_pos _
  | method hkey =>
    have hpos := hkey.length_pos
    simp only [List.length_append]
    omega
  | shorthand => exact Nat.one_pos

end Properties

/-- The loop over parts with commas between them, when one stands behind the last part too. -/
lemma WritesRow.trailing_takes {R : Node → List String → Prop} {ns : List Node} {ts : List String}
    (h : WritesRow R ns ts) (hsome : ns ≠ []) {item : Parser Node} {close : Kind} {c : Context}
    {rest : List (Kind × String)} (hclose : headKind rest = close) (hcomma : close ≠ .comma)
    (hitem : ∀ e us more, R e us → headKind more = .comma ∨ headKind more = close →
      headKind (lexemesBefore us more) ≠ close ∧ Takes item c (lexemesBefore us more) e more)
    (read : List Node) (b : Nat) (hb : ns.length < b) :
    Takes (loop (Grammar.nextItem close item) b read) c
      (lexemesBefore ts ((kindOf ",", ",") :: rest)) (read.reverse ++ ns) rest := by
  have hkind := kindOf_comma
  have hturn : ∀ {e us} (read : List Node) (more : List (Kind × String)), R e us →
      Takes (Grammar.nextItem close item read) c (lexemesBefore us ((kindOf ",", ",") :: more))
        (.again (e :: read)) more := by
    intro e us read more he
    obtain ⟨hne, htakes⟩ := hitem e us ((kindOf ",", ",") :: more) he (Or.inl hkind)
    rw [hkind] at htakes ⊢
    exact Takes.nextItem_comma hne htakes hcomma
  induction h generalizing read b with
  | none => exact absurd rfl hsome
  | @last n ts h =>
    obtain ⟨b, rfl⟩ : ∃ d, b = d + 2 := ⟨b - 2, by simp at hb; omega⟩
    refine Takes.loop_again (hturn read rest h) (Takes.loop_done ?_)
    rw [← List.reverse_cons]
    exact Takes.sees_pos hclose (Takes.pure _)
  | @cons n m ns ts us h _ ih =>
    simp only [List.length_cons] at hb ih
    obtain ⟨b, rfl⟩ : ∃ d, b = d + 1 := ⟨b - 1, by omega⟩
    have hrest := ih (List.cons_ne_nil m ns) (n :: read) b (by omega)
    rw [List.reverse_cons, List.append_assoc] at hrest
    rw [lexemesBefore_append]
    exact Takes.loop_again (hturn read _ h) hrest

/-- No part is longer than the whole row. -/
lemma WritesRow.bounded {R : Node → List String → Prop} {ns : List Node} {ts : List String}
    (h : WritesRow R ns ts) {n : Nat} (hn : ts.length ≤ n) :
    WritesRow (fun e us => R e us ∧ us.length ≤ n) ns ts := by
  induction h with
  | none => exact .none
  | last h => exact .last ⟨h, hn⟩
  | cons h _ ih =>
    rw [List.length_append, List.length_cons] at hn
    exact .cons ⟨h, by omega⟩ (ih (by omega))

/-- The loop over parts with commas between them, with a comma behind the last one or without. -/
lemma WritesList.loop_takes {R : Node → List String → Prop} {ns : List Node} {ts : List String}
    (h : WritesList R ns ts) {item : Parser Node} {close : Kind} {c : Context}
    {rest : List (Kind × String)} (hclose : headKind rest = close) (hcomma : close ≠ .comma)
    (hpos : ∀ e us, R e us → 0 < us.length)
    (hitem : ∀ e us more, R e us → us.length ≤ ts.length →
      headKind more = .comma ∨ headKind more = close →
      headKind (lexemesBefore us more) ≠ close ∧ Takes item c (lexemesBefore us more) e more)
    (b : Nat) (hb : ts.length < b) :
    Takes (loop (Grammar.nextItem close item) b []) c (lexemesBefore ts rest) ns rest := by
  cases h with
  | plain h =>
    have hlength := h.length_le hpos
    exact (h.bounded le_rfl).loop_takes hclose hcomma
      (fun e us more he => hitem e us more he.1 he.2) [] b (by omega)
  | @trailing n ns ts h =>
    have hlength := h.length_le hpos
    rw [List.length_append] at hb
    rw [lexemesBefore_append]
    have hlong : ts.length ≤ (ts ++ [","]).length := by
      rw [List.length_append]
      omega
    exact (h.bounded hlong).trailing_takes (List.cons_ne_nil n ns) hclose hcomma
      (fun e us more he => hitem e us more he.1 he.2) [] b (by omega)

/-! ### Literals -/

section Literals

variable {e : Node} {ts : List String} {n : Nat} {c : Context} {rest : List (Kind × String)}

lemma WritesProperty.head (h : WritesProperty e ts) (rest : List (Kind × String)) :
    headKind (lexemesBefore ts rest) ≠ .rBrace := by
  have hgoes : ∀ {kind : Kind}, Grammar.endsPropertyName kind = false → kind ≠ .rBrace := by
    rintro kind hkind rfl
    cases hkind
  cases h with
  | @value computed key value ts us hkey hvalue =>
    have hcolon : headKind (lexemesBefore (":" :: us) rest) = .colon := kindOf_colon
    rw [lexemesBefore_append]
    exact hgoes (hkey.ahead (by rw [hcolon]; rfl)).goes
  | @method isAsync generator computed key params body ts us hkey h =>
    have hahead := hkey.ahead (show Grammar.endsPropertyName (headKind (lexemesBefore us rest)) = true
      by rw [h.head]; rfl)
    simp only [lexemesBefore_append, headKind_writtenIf]
    refine hgoes ?_
    rw [kindOf_async, kindOf_star]
    split
    next => rfl
    next =>
      split
      next => rfl
      next => exact hahead.goes
  | shorthand h =>
    rw [lexemesBefore_cons, headKind_cons, (onLine_of_name h).1]
    decide

lemma WritesObject.takes (h : WritesObject e ts) (hlevels : ts.length ≤ n)
    (hdepth : c.depth + ts.length ≤ c.limit) (rest : List (Kind × String)) :
    headKind (lexemesBefore ts rest) = .lBrace ∧
      Takes (Grammar.upTo n).objectLiteral c (lexemesBefore ts rest) e rest := by
  cases h with
  | @object members ts h =>
    simp only [List.length_cons, List.length_append, List.length_nil] at hlevels hdepth
    rw [lexemesBefore_cons, lexemesBefore_append, lexemesBefore_cons, lexemesBefore_nil]
    have hclose : headKind ((kindOf "\x7d", "\x7d") :: rest) = .rBrace := kindOf_rBrace
    have hitem : ∀ e us more, WritesProperty e us → us.length ≤ ts.length →
        headKind more = .comma ∨ headKind more = .rBrace →
        headKind (lexemesBefore us more) ≠ .rBrace ∧
          Takes (Grammar.upTo n).property c (lexemesBefore us more) e more := by
      intro e us more he hlength hmore
      exact ⟨he.head more, he.takes (by omega) (by omega) hmore⟩
    have hloop : Takes (loop (Grammar.nextItem .rBrace (Grammar.upTo n).property) n []) c
        (lexemesBefore ts ((kindOf "\x7d", "\x7d") :: rest)) members
        ((kindOf "\x7d", "\x7d") :: rest) :=
      h.loop_takes hclose (by decide) (fun _ _ he => he.length_pos) hitem n (by omega)
    have hitems : Takes ((Grammar.upTo n).delimited .rBrace (Grammar.upTo n).property) c
        (lexemesBefore ts ((kindOf "\x7d", "\x7d") :: rest)) members rest :=
      hloop.bind (Takes.expect_mark kindOf_rBrace (Takes.pure _))
    exact ⟨kindOf_lBrace, Takes.expect_mark kindOf_lBrace (hitems.bind (Takes.pure _))⟩

lemma WritesObject.length_pos (h : WritesObject e ts) : 0 < ts.length := by
  cases h
  exact Nat.succ_pos _

/-- A primary expression with nothing behind it as a value. -/
lemma element_takes_of_primary {ls : List (Kind × String)}
    (hopens : (headKind ls).opensOperand = true) (hyield : headKind ls ≠ .kwYield) (hn : 0 < n)
    (hdepth : c.depth < c.limit)
    (h : Takes (Grammar.upTo n).primary { c with depth := c.depth + 1 } ls e []) :
    Takes (Grammar.upTo n).element c ls e [] := by
  have hoperation : Takes (Grammar.upTo n).operation c ls e [] := by
    intro r hr
    obtain ⟨s, hs, hrest⟩ := h r hr
    have hbound : 0 < (Grammar.upTo n).bound := hn
    rw [← hr.kind_eq] at hopens
    have hcarries := (unary_carries hbound hdepth hopens).trans (operation_carries_unary hbound)
    exact ⟨s, hcarries.ends e s hs (by rw [hrest.kind_eq]; rfl), hrest⟩
  refine Takes.sees_neg hyield (hoperation.bind ?_)
  refine Takes.lookahead_bind fun t ht => ?_
  rw [ht]
  exact Takes.pure _

/-- A literal with nothing behind it as a value. -/
lemma WritesObject.element_takes (h : WritesObject e ts) (hlevels : ts.length ≤ n)
    (hdepth : c.depth + 1 + ts.length ≤ c.limit) :
    Takes (Grammar.upTo n).element c (lexemesBefore ts []) e [] := by
  have hpos := h.length_pos
  obtain ⟨hhead, hliteral⟩ := h.takes (c := { c with depth := c.depth + 1 }) hlevels hdepth []
  refine element_takes_of_primary (by rw [hhead]; rfl) (by rw [hhead]; decide) (by omega) (by omega) ?_
  refine Takes.lookahead_bind fun t ht => ?_
  rw [ht, hhead]
  exact hliteral

/-- A literal that is assigned to a name. -/
lemma WritesObject.assigned_takes {name : String} (hname : IsToken .identifier name)
    (h : WritesObject e ts) (hlevels : ts.length ≤ n)
    (hdepth : c.depth + 2 + ts.length ≤ c.limit) :
    Takes (Grammar.upTo (n + 1)).assignment c (lexemesBefore (name :: "=" :: ts) [])
      (.assignmentExpression (.identifier name) .assign e) [] := by
  have hsign : headKind (lexemesBefore ("=" :: ts) []) = .assignment := kindOf_equals
  have hends : Ends 2 (lexemesBefore ("=" :: ts) []) := by
    intro k hk
    rw [hsign] at hk
    cases hk
    decide
  have htarget : Takes (Grammar.upTo (n + 1)).operation c (lexemesBefore (name :: "=" :: ts) [])
      (.identifier name) (lexemesBefore ("=" :: ts) []) :=
    (readable_name hname).read 2 (by omega) (by simp [Node.level]) (n + 1) c _
      ⟨Nat.succ_pos n, show c.depth + 1 ≤ c.limit by omega⟩ hends
  refine htarget.bind (Takes.lookahead_bind fun t ht => ?_)
  rw [ht, hsign]
  refine Takes.advance_bind fun u hu => ?_
  have htext : u.text = "=" := congrArg Prod.snd hu
  have hkind : u.kind = .assignment := (congrArg Prod.fst hu).trans kindOf_equals
  rw [htext, hkind]
  refine Takes.spelled_bind rfl ?_
  have hvalue := h.element_takes (c := { c with depth := c.depth + 1 }) hlevels
    (show c.depth + 1 + 1 + ts.length ≤ c.limit by omega)
  exact (Takes.nested (by omega) hvalue).bind (Takes.pure _)

lemma WritesObject.program {name : String} (hname : IsToken .identifier name)
    (h : WritesObject e ts) {limit : Nat} (hlevels : ts.length ≤ n)
    (hlimit : 3 + ts.length ≤ limit) :
    Takes (Grammar.upTo (n + 2)).program ⟨limit, 0, false⟩ (lexemesBefore (name :: "=" :: ts) [])
      (.program [.assignmentExpression (.identifier name) .assign e]) [] := by
  have hhead : headKind (lexemesBefore (name :: "=" :: ts) []) = .identifier :=
    (onLine_of_name hname).1
  have hassigned := h.assigned_takes hname (c := ⟨limit, 1, false⟩) hlevels
    (show 1 + 2 + ts.length ≤ limit by omega)
  have helement : Takes (Grammar.upTo (n + 1)).element ⟨limit, 1, false⟩
      (lexemesBefore (name :: "=" :: ts) []) (.assignmentExpression (.identifier name) .assign e)
      [] :=
    Takes.sees_neg (by rw [hhead]; decide) hassigned
  have hsequence : Takes (Grammar.upTo (n + 1)).sequence ⟨limit, 1, false⟩
      (lexemesBefore (name :: "=" :: ts) []) (.assignmentExpression (.identifier name) .assign e)
      [] :=
    helement.bind (Takes.sees_neg (by decide) (Takes.pure _))
  refine program_of_statementKind (by rw [hhead]; decide) (by omega) ?_
  refine Takes.lookahead_bind fun t ht => ?_
  rw [ht, hhead]
  exact hsequence.bind (Takes.accept_neg (by decide) (Takes.pure _))

end Literals

lemma onLine_colon : OnLine ":" :=
  onLine_of_isPlain (by decide) (by decide) (by decide +kernel)

lemma WritesKey.legible {computed : Bool} {key : Node} {ts : List String} {next : String}
    {texts : List String} (h : WritesKey computed key ts) (hnext : ¬['*'] <+: next.toList)
    (hrest : Legible (next :: texts)) : Legible (ts ++ next :: texts) := by
  cases h with
  | word h => exact h.legible hnext hrest
  | quoted h => exact .cons (onLine_of_lexeme h (by decide) (by decide)).2 hrest
  | number h => exact .cons (onLine_of_lexeme h (by decide) (by decide)).2 hrest
  | computed h =>
    exact .cons (onLine_fixed (by decide)) (.cons (onLine_of_name h).2
      (.cons (onLine_fixed (by decide)) hrest))

lemma WritesProperty.legible {e : Node} {ts us : List String} (h : WritesProperty e ts)
    (hus : Legible us) : Legible (ts ++ us) := by
  cases h with
  | value hkey hvalue =>
    rw [List.append_assoc]
    have hbehind := (readsLines_name _ _ hvalue).legible_append hus
    exact hkey.legible (by decide) (.cons onLine_colon hbehind)
  | method hkey h =>
    have hbehind := h.onLines.legible_append hus
    simp only [List.append_assoc]
    refine (onLines_writtenIf (onLine_mark .kwAsync rfl)).legible_append ?_
    refine (onLines_writtenIf (onLine_fixed (by decide))).legible_append ?_
    cases h
    exact hkey.legible (by decide) hbehind
  | shorthand h => exact .cons (onLine_of_name h).2 hus

lemma WritesRow.legible {ns : List Node} {ts us : List String}
    (h : WritesRow WritesProperty ns ts) (hus : Legible us) : Legible (ts ++ us) := by
  induction h with
  | none => exact hus
  | last h => exact h.legible hus
  | cons h _ ih =>
    rw [List.append_assoc]
    exact h.legible (.cons (onLine_mark .comma rfl) ih)

lemma WritesObject.legible {e : Node} {ts : List String} (h : WritesObject e ts) : Legible ts := by
  have hclose : Legible ["\x7d"] := .cons (onLine_mark .rBrace rfl) .nil
  cases h with
  | object h =>
    refine .cons (onLine_mark .lBrace rfl) ?_
    cases h with
    | plain h => exact h.legible hclose
    | trailing h =>
      rw [List.append_assoc]
      exact h.legible (.cons (onLine_mark .comma rfl) hclose)

/-- One lexeme and a blank in front of a text. -/
lemma scan_blank_behind (offset : Nat) {cs rest : List Char} {kind : Kind} {gap : Char}
    (hfirst : Rule.first? (cs ++ gap :: rest) = some (some kind, cs.length))
    (hgap : isBlank gap = true) :
    ∃ offset', ((⟨offset, cs ++ gap :: rest⟩ : Cursor).scan.1.map Token.lexeme =
        (kind, String.ofList cs) :: (⟨offset', rest⟩ : Cursor).scan.1.map Token.lexeme) ∧
      (⟨offset, cs ++ gap :: rest⟩ : Cursor).scan.2 = (⟨offset', rest⟩ : Cursor).scan.2 := by
  have hskip : ((⟨offset, cs ++ gap :: rest⟩ : Cursor).skip cs.length).rest = gap :: rest :=
    List.drop_left
  have htext : ((⟨offset, cs ++ gap :: rest⟩ : Cursor).token kind cs.length).text =
      String.ofList cs := by
    simp [Cursor.token]
  rw [Cursor.scan_of_first? (by simp) hfirst]
  generalize (⟨offset, cs ++ gap :: rest⟩ : Cursor).skip cs.length = behind at hskip
  obtain ⟨offset', _⟩ := behind
  subst hskip
  rw [Cursor.scan_congr (Cursor.next_blank hgap offset' rest)]
  refine ⟨_, ?_, rfl⟩
  rw [List.map_cons, Token.lexeme, htext]
  rfl

/-- The sign of an assignment between blanks behind a name. -/
lemma scan_assigned {texts : List String} (h : ScansBack texts) {front gap : Char}
    (hfront : isBlank front = true) (hgap : isBlank gap = true) :
    ((scanSource (String.ofList ['x', front, '=', gap] ++ "\n".intercalate texts)).1.map
        Token.lexeme = lexemesBefore ("x" :: "=" :: texts) []) ∧
      ∃ last, (scanSource (String.ofList ['x', front, '=', gap] ++
        "\n".intercalate texts)).2 = .ok last := by
  have hblank : ∀ {c : Char}, isBlank c = true → c ∈ [' ', '\t', '\n', '\x0b', '\x0c', '\r'] := by
    intro c hc
    simpa only [isBlank, Bool.or_eq_true, beq_iff_eq, List.mem_cons, List.not_mem_nil, or_false,
      or_assoc] using hc
  have hx : Rule.first? (['x'] ++ front :: (['='] ++ gap :: ("\n".intercalate texts).toList)) =
      some (some .identifier, 1) := by
    have hmem := hblank hfront
    simp only [List.mem_cons, List.not_mem_nil, or_false] at hmem
    rcases hmem with rfl | rfl | rfl | rfl | rfl | rfl <;> rfl
  have hsign : Rule.first? (['='] ++ gap :: ("\n".intercalate texts).toList) =
      some (some .assignment, 1) := by
    have hmem := hblank hgap
    simp only [List.mem_cons, List.not_mem_nil, or_false] at hmem
    rcases hmem with rfl | rfl | rfl | rfl | rfl | rfl <;> rfl
  obtain ⟨i, hlexemes, hstop⟩ := scan_blank_behind 0 hx hfront
  obtain ⟨j, hlexemes', hstop'⟩ := scan_blank_behind i hsign hgap
  obtain ⟨hbehind, hlast⟩ := h j
  have hsource : (String.ofList ['x', front, '=', gap] ++ "\n".intercalate texts).toList =
      ['x'] ++ front :: (['='] ++ gap :: ("\n".intercalate texts).toList) := by
    rw [String.toList_append, String.toList_ofList]
    rfl
  have hx' : kindOf "x" = .identifier := by decide +kernel
  unfold scanSource Cursor.ofSource
  rw [hsource]
  refine ⟨hlexemes.trans ?_, hstop.trans hstop' ▸ hlast⟩
  rw [hlexemes', hbehind]
  simp [lexemesBefore, lexemeOf, hx', kindOf_equals]

/-- An object literal with one lexeme on each line is read back as it is behind `x =`, with any blank
around the sign. -/
theorem parse_of_writesObject {e : Node} {texts : List String} (h : WritesObject e texts)
    {front gap : Char} (hfront : isBlank front = true) (hgap : isBlank gap = true) {limit : Nat}
    (hlimit : 2 * texts.length + 2 ≤ limit) :
    parse (String.ofList ['x', front, '=', gap] ++ "\n".intercalate texts) limit =
      .ok (.program [.assignmentExpression (.identifier "x") .assign e]) := by
  have hname : IsToken .identifier "x" :=
    ⟨by decide +kernel, .endOfFile 1, by decide +kernel⟩
  obtain ⟨hlexemes, last, hlast⟩ := scan_assigned h.legible.scansBack hfront hgap
  have hpos := h.length_pos
  refine parse_of_takes (fun n hn => h.program hname ?_ (by omega)) hlexemes hlast
  simp only [lexemesBefore, List.append_nil, List.length_map, List.length_cons] at hn
  omega

/-- The word `async` as a key, as a modifier and as both, and a comma behind the last member. -/
theorem reads_back_async_key :
    WritesObject (.objectLiteral
        [.property (.identifier "async") (.identifier "a") false false,
         .property (.identifier "a") (.identifier "a") false false,
         .property (.stringLiteral "k") (.functionExpression none true true [.identifier "a"]
           (.blockStatement [])) false true,
         .property (.identifier "async") (.functionExpression none false true []
           (.blockStatement [])) false true,
         .property (numeral "1.5") (.identifier "a") false false,
         .property (.identifier "a") (.functionExpression none true false []
           (.blockStatement [])) true true])
      ["\x7b", "async", ":", "a", ",", "a", ",", "async", "*", "'k'", "(", "a", ")", "\x7b", "\x7d",
        ",", "async", "async", "(", ")", "\x7b", "\x7d", ",", "1.5", ":", "a", ",",
        "*", "[", "a", "]", "(", ")", "\x7b", "\x7d", ",", "\x7d"] ∧
    isBlank ' ' = true ∧ isBlank '\n' = true ∧
    parse (String.ofList ['x', ' ', '=', '\n'] ++ "\n".intercalate
        ["\x7b", "async", ":", "a", ",", "a", ",", "async", "*", "'k'", "(", "a", ")", "\x7b",
          "\x7d", ",", "async", "async", "(", ")", "\x7b", "\x7d", ",", "1.5", ":", "a", ",",
          "*", "[", "a", "]", "(", ")", "\x7b", "\x7d", ",", "\x7d"]) 80 =
      .ok (.program [.assignmentExpression (.identifier "x") .assign (.objectLiteral
        [.property (.identifier "async") (.identifier "a") false false,
         .property (.identifier "a") (.identifier "a") false false,
         .property (.stringLiteral "k") (.functionExpression none true true [.identifier "a"]
           (.blockStatement [])) false true,
         .property (.identifier "async") (.functionExpression none false true []
           (.blockStatement [])) false true,
         .property (numeral "1.5") (.identifier "a") false false,
         .property (.identifier "a") (.functionExpression none true false []
           (.blockStatement [])) true true])]) := by
  have hwords : ∀ word ∈ [(Kind.kwAsync, "async", 5), (.identifier, "a", 1), (.string, "'k'", 3),
      (.number, "1.5", 3)],
      (scanSource word.2.1).1.map Token.lexeme = [(word.1, word.2.1)] ∧
        (scanSource word.2.1).2 = .ok (.endOfFile word.2.2) := by
    decide +kernel
  simp only [List.forall_mem_cons] at hwords
  obtain ⟨⟨hs, hs'⟩, ⟨ha, ha'⟩, ⟨hk, hk'⟩, ⟨hn, hn'⟩, -⟩ := hwords
  have hname : IsToken .identifier "a" := ⟨ha, _, ha'⟩
  have hasync : WritesKey false (.identifier "async") ["async"] := .word ⟨_, ⟨hs, _, hs'⟩, Or.inr rfl⟩
  have hquoted := @WritesKey.quoted '\x27' ['k'] ⟨hk, _, hk'⟩
  have hnumber : WritesKey false (numeral "1.5") ["1.5"] := .number ⟨hn, _, hn'⟩
  have hvalue : WritesName (.identifier "a") ["a"] := .name hname
  have hblock : Writes true (.block (.blockStatement [])) ["\x7b", "\x7d"] := .block .rowNil
  have hplain := WritesMethod.method .none hblock
  have hparams := WritesMethod.method (.last (.plain hvalue)) hblock
  have hgenerator := @WritesProperty.method true true _ _ _ _ _ _ hquoted hparams
  have hmethod := @WritesProperty.method true false _ _ _ _ _ _ hasync hplain
  have hcomputed := @WritesProperty.method false true _ _ _ _ _ _ (.computed hname) hplain
  have hmembers := WritesRow.last hcomputed
  have hmembers := WritesRow.cons (WritesProperty.value hnumber hvalue) hmembers
  have hmembers := WritesRow.cons hmethod hmembers
  have hmembers := WritesRow.cons hgenerator hmembers
  have hmembers := WritesRow.cons (WritesProperty.shorthand hname) hmembers
  have hmembers := WritesRow.cons (WritesProperty.value hasync hvalue) hmembers
  have hobject := WritesObject.object (.trailing hmembers)
  exact ⟨hobject, rfl, rfl, parse_of_writesObject hobject rfl rfl (by decide)⟩

end ScriptTree
