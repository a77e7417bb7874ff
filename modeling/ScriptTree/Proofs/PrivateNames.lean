import ScriptTree.Proofs.Atoms
import ScriptTree.Proofs.ClassBodies
import ScriptTree.Proofs.Faults
import ScriptTree.Proofs.References
import ScriptTree.Proofs.Spellings

/-!
# Private names

A private member is declared under any word that may name a member, but behind a dot only a plain
name is read after the `#`. So a member that is called by a reserved word can be declared and not
accessed.

Main statement: `access_to_private`.
-/

namespace ScriptTree

open ScriptTree.Parser

/-- A class with a private property. -/
def declaring (name : String) : String :=
  "class A \x7b #" ++ name ++ "; \x7d"

/-- The same class with a method that returns the property. -/
def accessing (name : String) : String :=
  "class A \x7b #" ++ name ++ "; m() \x7b return this.#" ++ name ++ "; \x7d \x7d"

/-- A class `A` with some members as a program. -/
def classOf (members : List Node) : Node :=
  .program [.classDeclaration (.identifier "A") none (.classBody members)]

def privateProperty (name : String) : Node :=
  .classPrivateProperty (.privateName (.identifier name)) none false

/-- An access to a private member of `this`. -/
def privateAccess (name : String) : Node :=
  .memberExpression .thisExpression (.privateName (.identifier name)) false

/-- A method `m` that returns the value of an expression. -/
def returning (e : Node) : Node :=
  .classMethodDefinition (.identifier "m") false .method
    (.functionExpression none false false [] (.blockStatement [.returnStatement (some e)]))

/-- The lexemes of a text, wherever it stands at the end of a source. -/
def Lexemes (cs : List Char) (ls : List (Kind × String)) : Prop :=
  ∀ offset, (⟨offset, cs⟩ : Cursor).scan.1.map Token.lexeme = ls ∧
    ∃ last, (⟨offset, cs⟩ : Cursor).scan.2 = .ok last

namespace Lexemes

variable {cs : List Char} {ls : List (Kind × String)} {kind : Kind}

lemma nil : Lexemes [] [] := by
  intro offset
  rw [Cursor.scan_of_end (Cursor.next_of_nil rfl) rfl]
  exact ⟨rfl, _, rfl⟩

lemma blank {c : Char} (hc : isBlank c = true) (h : Lexemes cs ls) : Lexemes (c :: cs) ls := by
  intro offset
  rw [Cursor.scan_congr (Cursor.next_blank hc offset cs)]
  exact h _

lemma cons {text : List Char} (hfirst : Rule.first? (text ++ cs) = some (some kind, text.length))
    (h : Lexemes cs ls) : Lexemes (text ++ cs) ((kind, String.ofList text) :: ls) := by
  intro offset
  have hne : text ++ cs ≠ [] := by
    intro hnil
    rw [(List.append_eq_nil_iff.1 hnil).1] at hfirst
    exact Nat.lt_irrefl 0 (Rule.pos_of_first? hfirst)
  have hskip := h ((⟨offset, text ++ cs⟩ : Cursor).skip text.length).offset
  rw [Cursor.scan_of_first? hne hfirst]
  unfold Cursor.skip Cursor.token at *
  simp only [List.drop_left, List.take_left] at *
  refine ⟨?_, hskip.2⟩
  rw [List.map_cons, hskip.1]
  rfl

end Lexemes

lemma IsPlain.append {cs : List Char} (h : IsPlain cs) (rest : List Char) :
    IsPlain (cs ++ rest) := by
  obtain ⟨c, tail, rfl, -⟩ := h.exists_cons
  exact h

/-- A word that is a whole text is spelt in the same way in front of a semicolon. -/
lemma Spelt.semicolon {kind : Kind} {cs : List Char} (h : Spelt cs (.token kind cs))
    (hkind : kind = .identifier ∨ kind.isKeyword = true) (rest : List Char) :
    Spelt (cs ++ ';' :: rest) (.token kind cs) := by
  have hnot : ∀ {other : Kind}, other.isKeyword = false → other ≠ .identifier → kind ≠ other := by
    rintro other hkeyword hname rfl
    rcases hkind with hkind | hkind
    · exact hname hkind
    · rw [hkeyword] at hkind
      cases hkind
  have hbehind : ∀ {word tail : List Char}, word = word ++ tail → tail = [] :=
    fun h => List.append_cancel_left (h.symm.trans (List.append_nil _).symm)
  generalize hfront : Front.token kind cs = front at h
  generalize htext : cs = text at h
  cases h with
  | dollarBrace => exact absurd (Front.token.inj hfront).1 (hnot rfl (by decide))
  | functionStar hblanks => exact absurd (Front.token.inj hfront).1 (hnot rfl (by decide))
  | @reserved kind word tail hword hrun hstar =>
    obtain ⟨rfl, rfl⟩ := Front.token.inj hfront
    have hrun' : IsRun isWordChar cs (';' :: rest) := ⟨hrun.1, rfl⟩
    rw [hbehind htext, List.append_nil]
    refine .reserved hword hrun' fun _ => ?_
    rintro ⟨blanks, behind, hblanks, hcons⟩
    cases blanks with
    | nil => cases hcons
    | cons c blanks =>
      obtain ⟨rfl, -⟩ := List.cons.inj hcons
      cases hblanks ';' List.mem_cons_self
  | @name word tail hstart hrun hbrace hfree =>
    obtain ⟨rfl, rfl⟩ := Front.token.inj hfront
    rw [hbehind htext, List.append_nil] at hbrace hfree ⊢
    have hrun' : IsRun isNameChar cs (';' :: rest) := ⟨hrun.1, rfl⟩
    have hwords : (cs ++ ';' :: rest).takeWhile isWordChar = cs.takeWhile isWordChar := by
      rw [List.takeWhile_append]
      split
      next hlength =>
        rw [(List.takeWhile_prefix _).eq_of_length hlength]
        exact List.append_nil cs
      next => rfl
    refine .name hstart hrun' (fun hopens => ?_) fun other => ?_
    · exact hbrace (prefix_of_append_cons (by decide) hopens)
    · rw [hwords]
      exact hfree other
  | @symbol other text tail hstart hsymbol hlongest =>
    obtain ⟨rfl, rfl⟩ := Front.token.inj hfront
    have hkinds : ∀ symbol ∈ symbols, symbol.1.isKeyword = false ∧ symbol.1 ≠ .identifier := by
      decide
    have hsymbol := hkinds _ hsymbol
    exact absurd rfl (hnot hsymbol.1 hsymbol.2)
  | nothing => cases hfront

/-- A word in front of a semicolon is read as it is by itself. -/
lemma first?_word_semicolon {kind : Kind} {word : String} (h : IsToken kind word)
    (hkind : kind = .identifier ∨ kind.isKeyword = true) (rest : List Char) :
    Rule.first? (word.toList ++ ';' :: rest) = some (some kind, word.toList.length) := by
  obtain ⟨hword, hfirst⟩ := isWord_of_isToken h hkind
  obtain ⟨c, cs, hcs, hc⟩ := hword.exists_cons
  obtain ⟨front, hfront⟩ := exists_spelt_word hc cs
  rw [← hcs] at hfront
  have hread : (Front.token kind word.toList).IsRead word.toList := ⟨List.prefix_rfl, hfirst⟩
  rw [← (hfront.isRead hword.isPlain).unique hread] at hfront
  exact ((hfront.semicolon hkind rest).isRead (hword.isPlain.append _)).2

section Sources

variable {kind : Kind} {name : String} (h : IsToken kind name)
  (hkind : kind = .identifier ∨ kind.isKeyword = true)

include h hkind

lemma lexemes_name {rest : List Char} {ls : List (Kind × String)} (hrest : Lexemes rest ls) :
    Lexemes (name.toList ++ ';' :: rest) ((kind, name) :: (.semicolon, ";") :: ls) := by
  have hsemicolon : Lexemes ([';'] ++ rest) ((.semicolon, ";") :: ls) := .cons rfl hrest
  have hcons := Lexemes.cons (first?_word_semicolon h hkind rest) hsemicolon
  rwa [String.ofList_toList] at hcons

/-- The lexemes of a class up to its private property. -/
lemma lexemes_property {rest : List Char} {ls : List (Kind × String)} (hrest : Lexemes rest ls) :
    Lexemes (['c', 'l', 'a', 's', 's'] ++ ' ' :: (['A'] ++ ' ' :: (['\x7b'] ++ ' ' ::
        (['#'] ++ (name.toList ++ ';' :: rest)))))
      ((.kwClass, "class") :: (.identifier, "A") :: (.lBrace, "\x7b") :: (.hash, "#") ::
        (kind, name) :: (.semicolon, ";") :: ls) := by
  refine .cons rfl ?_
  refine .blank rfl (.cons rfl ?_)
  refine .blank rfl (.cons rfl ?_)
  refine .blank rfl (.cons rfl ?_)
  exact lexemes_name h hkind hrest

lemma lexemes_declaring : Lexemes (declaring name).toList
    [(.kwClass, "class"), (.identifier, "A"), (.lBrace, "\x7b"), (.hash, "#"), (kind, name),
      (.semicolon, ";"), (.rBrace, "\x7d")] := by
  have hbehind : Lexemes (' ' :: (['\x7d'] ++ [])) [(.rBrace, "\x7d")] :=
    .blank rfl (.cons rfl .nil)
  have hall := lexemes_property h hkind hbehind
  simpa [declaring] using hall

lemma lexemes_accessing : Lexemes (accessing name).toList
    [(.kwClass, "class"), (.identifier, "A"), (.lBrace, "\x7b"), (.hash, "#"), (kind, name),
      (.semicolon, ";"), (.identifier, "m"), (.lParen, "("), (.rParen, ")"), (.lBrace, "\x7b"),
      (.kwReturn, "return"), (.kwThis, "this"), (.dot, "."), (.hash, "#"), (kind, name),
      (.semicolon, ";"), (.rBrace, "\x7d"), (.rBrace, "\x7d")] := by
  have haccessing : (accessing name).toList = ['c', 'l', 'a', 's', 's'] ++ ' ' :: (['A'] ++ ' ' ::
      (['\x7b'] ++ ' ' :: (['#'] ++ (name.toList ++ ';' :: ' ' :: (['m'] ++ (['('] ++ ([')'] ++ ' ' ::
      (['\x7b'] ++ ' ' :: (['r', 'e', 't', 'u', 'r', 'n'] ++ ' ' :: (['t', 'h', 'i', 's'] ++
      (['.'] ++ (['#'] ++ (name.toList ++ ';' :: ' ' :: (['\x7d'] ++ ' ' ::
      (['\x7d'] ++ []))))))))))))))) := by
    simp [accessing]
  rw [haccessing]
  refine lexemes_property h hkind ?_
  refine .blank rfl (.cons rfl ?_)
  refine .cons rfl ?_
  refine .cons rfl ?_
  refine .blank rfl (.cons rfl ?_)
  refine .blank rfl (.cons rfl ?_)
  refine .blank rfl (.cons rfl ?_)
  refine .cons rfl ?_
  refine .cons rfl ?_
  refine lexemes_name h hkind ?_
  refine .blank rfl (.cons rfl ?_)
  exact .blank rfl (.cons rfl .nil)

end Sources

/-! ### Attempts -/

/-- The parser does as `Takes` says if the outcome is a result, and else refuses a token of a kind
where a name has to stand. -/
def Attempts {α : Type} (p : Parser α) (c : Context) (ls : List (Kind × String))
    (outcome : Except Kind α) (rest : List (Kind × String)) : Prop :=
  ∀ r, Stands r ls → match outcome with
    | .ok a => ∃ s, p c r = .ok (a, s) ∧ Stands s rest
    | .error kind => ∃ span, p c r = .error (.rejected (.tokenMismatch .identifier kind span))

namespace Attempts

variable {α β σ : Type} {p : Parser α} {a : α} {c : Context} {ls mid rest : List (Kind × String)}
  {kind : Kind} {text : String} {outcome : Except Kind β} {bound : Nat} {x y : σ}

lemma ok (h : Takes p c ls a rest) : Attempts p c ls (.ok a) rest :=
  h

/-- What is read behind a part matters only if that part is read. -/
lemma first {outcome : Except Kind α} {f : α → Parser β} {g : α → β}
    (h : Attempts p c ls outcome mid) (hf : ∀ a, Takes (f a) c mid (g a) rest) :
    Attempts (p >>= f) c ls (outcome.map g) rest := by
  intro r hr
  have hp := h r hr
  cases outcome with
  | error kind =>
    obtain ⟨span, hspan⟩ := hp
    refine ⟨span, ?_⟩
    simp only [Bind.bind, hspan]
  | ok a =>
    obtain ⟨s, hs, hmid⟩ := hp
    obtain ⟨t, ht, hrest⟩ := hf a s hmid
    exact ⟨t, bind_eq_ok.2 ⟨a, s, hs, ht⟩, hrest⟩

/-- A part refuses a name, so the whole does. -/
lemma error {f : α → Parser β} (h : Attempts p c ls (.error kind) rest) :
    Attempts (p >>= f) c ls (.error kind) rest := by
  intro r hr
  obtain ⟨span, hspan⟩ := h r hr
  refine ⟨span, ?_⟩
  simp only [Bind.bind, hspan]

/-- What is read in front makes no difference. -/
lemma behind {f : α → Parser β} (hp : Takes p c ls a mid) (h : Attempts (f a) c mid outcome rest) :
    Attempts (p >>= f) c ls outcome rest := by
  intro r hr
  obtain ⟨t, ht, hmid⟩ := hp r hr
  have hrun : (p >>= f) c r = f a c t := by simp only [Bind.bind, ht]
  rw [hrun]
  exact h t hmid

lemma lookahead {f : Token → Parser β}
    (h : ∀ t : Token, t.kind = headKind ls → Attempts (f t) c ls outcome rest) :
    Attempts (Parser.lookahead >>= f) c ls outcome rest :=
  fun r hr => h r.lookahead hr.kind_eq r hr

lemma sees_neg {q q' : Parser β} (hkind : headKind ls ≠ kind) (h : Attempts q' c ls outcome rest) :
    Attempts (sees kind >>= fun b => if b = true then q else q') c ls outcome rest := by
  have hsees : Takes (sees kind >>= Pure.pure) c ls false ls :=
    Takes.sees_bind (by rw [beq_eq_false_iff_ne.2 hkind]; exact Takes.pure false)
  rw [bind_pure] at hsees
  exact behind hsees (by rwa [if_neg Bool.false_ne_true])

lemma sees_pos {q q' : Parser β} (hkind : headKind ls = kind) (h : Attempts q c ls outcome rest) :
    Attempts (sees kind >>= fun b => if b = true then q else q') c ls outcome rest := by
  have hsees : Takes (sees kind >>= Pure.pure) c ls true ls :=
    Takes.sees_bind (by rw [beq_iff_eq.2 hkind]; exact Takes.pure true)
  rw [bind_pure] at hsees
  exact behind hsees (by rwa [if_pos rfl])

lemma accept_neg {f : Bool → Parser β} (hkind : headKind ls ≠ kind)
    (h : Attempts (f false) c ls outcome rest) : Attempts (accept kind >>= f) c ls outcome rest := by
  have haccept : Takes (accept kind >>= Pure.pure) c ls false ls :=
    Takes.accept_neg hkind (Takes.pure false)
  rw [bind_pure] at haccept
  exact behind haccept h

lemma accept_pos {f : Bool → Parser β} (h : Attempts (f true) c ls outcome rest) :
    Attempts (accept kind >>= f) c ((kind, text) :: ls) outcome rest := by
  have haccept : Takes (accept kind >>= Pure.pure) c ((kind, text) :: ls) true ls :=
    Takes.accept_pos (Takes.pure true)
  rw [bind_pure] at haccept
  exact behind haccept h

lemma advance {q : Parser β} (h : Attempts q c ls outcome rest) :
    Attempts (advance >>= fun _ => q) c ((kind, text) :: ls) outcome rest := by
  have hadvance : Takes (Parser.advance >>= fun _ => Pure.pure ()) c ((kind, text) :: ls) () ls :=
    Takes.advance_bind fun _ _ => Takes.pure ()
  have hbehind := behind (f := fun _ => q) hadvance h
  rwa [bind_assoc] at hbehind

lemma expect {q : Parser β} (h : Attempts q c ls outcome rest) :
    Attempts (expect kind >>= fun _ => q) c ((kind, text) :: ls) outcome rest := by
  have hexpect : Takes (Parser.expect kind >>= fun _ => Pure.pure ()) c ((kind, text) :: ls) () ls :=
    Takes.expect_skip (Takes.pure ())
  have hbehind := behind (f := fun _ => q) hexpect h
  rwa [bind_assoc] at hbehind

lemma nested {q : Parser β} (hdepth : c.depth < c.limit)
    (h : Attempts q { c with depth := c.depth + 1 } ls outcome rest) :
    Attempts (Parser.nested q) c ls outcome rest := by
  intro r hr
  rw [nested_of_lt hdepth]
  exact h r hr

lemma loop_error {turn : σ → Parser (Turn σ β)} (h : Attempts (turn x) c ls (.error kind) rest) :
    Attempts (loop turn (bound + 1) x) c ls (.error kind) rest := by
  unfold loop
  exact h.error

/-- A turn with some outcome, and behind it the turns up to the end. -/
lemma loop_first {turn : σ → Parser (Turn σ β)} {outcome : Except Kind α} {state : α → σ}
    {result : α → β} (hturn : Attempts (turn x) c ls (outcome.map fun a => .again (state a)) mid)
    (h : ∀ a, Takes (loop turn bound (state a)) c mid (result a) rest) :
    Attempts (loop turn (bound + 1) x) c ls (outcome.map result) rest := by
  cases outcome with
  | error kind => exact loop_error hturn
  | ok a => exact Takes.loop_again hturn (h a)

lemma loop_behind {turn : σ → Parser (Turn σ β)} (hturn : Takes (turn x) c ls (.again y) mid)
    (h : Attempts (loop turn bound y) c mid outcome rest) :
    Attempts (loop turn (bound + 1) x) c ls outcome rest := by
  unfold loop
  exact behind hturn h

lemma inFunction {q : Parser β} (h : Attempts q { c with inFunction := true } ls outcome rest) :
    Attempts (Parser.inFunction q) c ls outcome rest :=
  h

/-- A token of another kind where a name has to stand. -/
lemma refused (hkind : kind ≠ .identifier) :
    Attempts identifier c ((kind, text) :: ls) (.error kind) rest := by
  intro r hr
  have hfound : r.lookahead.kind = kind := hr.kind_eq
  refine ⟨r.lookahead.span, ?_⟩
  simp [identifier, Parser.expect, sees, Parser.lookahead, mismatch, reject, Bind.bind, Pure.pure,
    hfound, hkind]

/-- An expression that begins like none with an operator in front refuses what its first operand
refuses. -/
lemma sequence {g : Grammar} (hstart : (headKind ls).startsPrimary = true)
    (hyield : headKind ls ≠ .kwYield) (hdepth : c.depth < c.limit)
    (h : Attempts g.suffixed { c with depth := c.depth + 1 } ls (.error kind) rest) :
    Attempts g.sequence c ls (.error kind) rest := by
  have hunary : Attempts g.unary c ls (.error kind) rest := by
    refine nested hdepth (lookahead fun t ht => ?_)
    rw [← ht] at hstart
    split
    next hkind => rw [hkind] at hstart; cases hstart
    next hkind => rw [hkind] at hstart; cases hstart
    next hkind => rw [hkind] at hstart; cases hstart
    next hkind => rw [hkind] at hstart; cases hstart
    next => exact h
  have hgrouped : ∀ levels : List OperatorLevel,
      Attempts (levels.foldr g.leftGrouped g.power) c ls (.error kind) rest := by
    intro levels
    induction levels with
    | nil => exact hunary.error
    | cons level levels ih => exact ih.error
  have hassignment : Attempts g.assignment c ls (.error kind) rest :=
    (hgrouped OperatorLevel.all).error
  exact error (sees_neg hyield hassignment)

end Attempts

section Access

variable {kind : Kind} {name : String} {n : Nat} {c : Context} {rest : List (Kind × String)}

/-- Behind `this` and a dot, the `#` has to have a plain name behind it. -/
lemma access_refuses (hkind : kind ≠ .identifier) (hdepth : c.depth < c.limit) :
    Attempts (Grammar.upTo (n + 1)).sequence c
      ((.kwThis, "this") :: (.dot, ".") :: (.hash, "#") :: (kind, name) :: rest) (.error kind)
      rest := by
  have hbase : ∀ ls, Takes (Grammar.upTo (n + 1)).base { c with depth := c.depth + 1 }
      ((.kwThis, "this") :: ls) .thisExpression ls := by
    intro ls
    refine Takes.sees_neg nofun (Takes.lookahead_bind fun t ht => ?_)
    rw [ht]
    exact Takes.advance_bind fun _ _ => Takes.pure _
  have hmember : Attempts memberName { c with depth := c.depth + 1 }
      ((.hash, "#") :: (kind, name) :: rest) (.error kind) rest :=
    .accept_pos (.error (.refused hkind))
  have hsuffix : Attempts ((Grammar.upTo (n + 1)).suffix true .thisExpression)
      { c with depth := c.depth + 1 } ((.dot, ".") :: (.hash, "#") :: (kind, name) :: rest)
      (.error kind) rest := by
    refine .lookahead fun t ht => ?_
    rw [ht]
    exact .advance hmember.error
  have hsuffixed : Attempts (Grammar.upTo (n + 1)).suffixed { c with depth := c.depth + 1 }
      ((.kwThis, "this") :: (.dot, ".") :: (.hash, "#") :: (kind, name) :: rest) (.error kind)
      rest := by
    refine .behind (hbase _) ?_
    exact hsuffix.loop_error.error
  exact .sequence rfl nofun hdepth hsuffixed

end Access

/-! ### The class -/

section Layers

variable {n : Nat} {c : Context} {ls rest : List (Kind × String)} {outcome : Except Kind Node}

/-- A `return` does with its argument what is done with an expression. -/
lemma return_attempts (hinside : c.inFunction = true) (hdepth : c.depth < c.limit)
    (hhead : (headKind ls).endsArgument = false)
    (h : Attempts (Grammar.upTo n).sequence { c with depth := c.depth + 1 } ls outcome
      ((.semicolon, ";") :: rest)) :
    Attempts (Grammar.upTo (n + 1)).statement c ((.kwReturn, "return") :: ls)
      (outcome.map fun e => .returnStatement (some e)) rest := by
  have hargument : Attempts (Grammar.upTo (n + 1)).returnArgument { c with depth := c.depth + 1 } ls
      (outcome.map some) ((.semicolon, ";") :: rest) := by
    refine .lookahead fun t ht => ?_
    rw [ht, hhead, if_neg Bool.false_ne_true]
    exact h.first fun e => Takes.pure (some e)
  have hcontext : Takes context { c with depth := c.depth + 1 } ((.kwReturn, "return") :: ls)
      { c with depth := c.depth + 1 } ((.kwReturn, "return") :: ls) := fun r hr => ⟨r, rfl, hr⟩
  refine .nested hdepth (.lookahead fun t ht => ?_)
  rw [ht]
  refine .behind hcontext ?_
  rw [if_pos hinside]
  refine .expect ?_
  have hreturn := hargument.first fun argument =>
    Takes.accept_pos (f := fun _ => pure (Node.returnStatement argument)) (Takes.pure _)
  cases outcome <;> exact hreturn

lemma block_attempts {g : Grammar} (hbound : 1 < g.bound)
    (hhead : headKind ls ≠ .rBrace ∧ headKind ls ≠ .endOfFile)
    (h : Attempts (g.parse .statement) c ls outcome ((.rBrace, "\x7d") :: rest)) :
    Attempts g.block c ((.lBrace, "\x7b") :: ls) (outcome.map fun e => .blockStatement [e]) rest := by
  obtain ⟨b, hb⟩ : ∃ b, g.bound = b + 2 := ⟨g.bound - 2, by omega⟩
  have hturn : Attempts (g.nextInBlock []) c ls (outcome.map fun e => .again [e])
      ((.rBrace, "\x7d") :: rest) := by
    refine .sees_neg hhead.1 ?_
    refine .sees_neg hhead.2 ?_
    exact h.first fun e => Takes.pure _
  have hloop : Attempts (loop g.nextInBlock g.bound []) c ls (outcome.map fun e => [e])
      ((.rBrace, "\x7d") :: rest) := by
    rw [hb]
    exact hturn.loop_first fun e => Takes.loop_closed rfl rfl
  have hblock := hloop.first fun body =>
    Takes.expect_skip (Takes.pure (Node.blockStatement body))
  refine .expect ?_
  cases outcome <;> exact hblock

lemma method_attempts {g : Grammar} (hbound : 1 < g.bound)
    (h : Attempts g.block { c with inFunction := true } ls outcome rest) :
    Attempts (g.method false false) c ((.lParen, "(") :: (.rParen, ")") :: ls)
      (outcome.map fun body => .functionExpression none false false [] body) rest := by
  obtain ⟨b, hb⟩ : ∃ b, g.bound = b + 1 := ⟨g.bound - 1, by omega⟩
  have hitems : Takes (loop (Grammar.nextItem .rParen g.parameter) g.bound []) c
      ((.rParen, ")") :: ls) [] ((.rParen, ")") :: ls) := by
    rw [hb]
    exact Takes.loop_closed rfl rfl
  have hparameters : Takes g.parameters c ((.lParen, "(") :: (.rParen, ")") :: ls) [] ls := by
    apply Takes.expect_skip
    refine hitems.bind ?_
    exact Takes.expect_skip (Takes.pure [])
  refine .behind hparameters ?_
  exact h.inFunction.first fun body => Takes.pure _

/-- A member whose name is plain and stands alone in front of what is behind it. -/
lemma method_member_attempts {g : Grammar} {name : String} (hname : name ≠ "constructor")
    (h : Attempts (g.method false false) c ((.lParen, "(") :: ls) outcome rest) :
    Attempts g.classMember c ((.identifier, name) :: (.lParen, "(") :: ls)
      (outcome.map fun value => .classMethodDefinition (.identifier name) false .method value)
      rest := by
  have hmodifier : ∀ kind, kind ≠ .identifier → Takes (acceptModifier kind) c
      ((.identifier, name) :: (.lParen, "(") :: ls) false
      ((.identifier, name) :: (.lParen, "(") :: ls) := by
    intro kind hkind
    exact Takes.sees_neg hkind.symm (Takes.pure false)
  have hkey : Takes memberKey c ((.identifier, name) :: (.lParen, "(") :: ls) name
      ((.lParen, "(") :: ls) := by
    refine Takes.lookahead_bind fun t ht => ?_
    rw [ht]
    refine Takes.advance_bind fun u hu => ?_
    have htext : u.text = name := congrArg Prod.snd hu
    rw [htext]
    exact Takes.pure name
  have hstar : Takes acceptStar c ((.identifier, name) :: (.lParen, "(") :: ls) false
      ((.identifier, name) :: (.lParen, "(") :: ls) :=
    @acceptStar_takes c ((.identifier, name) :: (.lParen, "(") :: ls) false nofun
  refine .lookahead fun t _ => ?_
  refine .behind (hmodifier .kwStatic nofun) ?_
  refine .behind (hmodifier .kwAsync nofun) ?_
  refine .behind hstar ?_
  refine .accept_neg nofun ?_
  refine .behind hkey ?_
  refine .sees_pos rfl ?_
  rw [beq_false_of_ne hname]
  exact h.first fun value => Takes.pure _

/-- The last member of a class, behind others. -/
lemma members_attempts {g : Grammar} {b : Nat} (hhead : headKind ls = .identifier)
    (h : Attempts g.classMember c ls outcome ((.rBrace, "\x7d") :: rest)) (read : List Node) :
    Attempts (loop g.nextMember (b + 2) read) c ls
      (outcome.map fun member => (member :: read).reverse) ((.rBrace, "\x7d") :: rest) := by
  have hne : ∀ kind, kind ≠ .identifier → headKind ls ≠ kind := by
    intro kind hkind
    exact hhead.trans_ne hkind.symm
  have hturn : Attempts (g.nextMember read) c ls (outcome.map fun member => .again (member :: read))
      ((.rBrace, "\x7d") :: rest) := by
    refine .sees_neg (hne .rBrace nofun) ?_
    refine .accept_neg (hne .semicolon nofun) ?_
    refine .sees_neg (hne .endOfFile nofun) ?_
    exact h.first fun member => Takes.pure _
  exact hturn.loop_first fun member => Takes.loop_closed rfl rfl

/-- A private property is read under any name that a member may have. -/
lemma privateProperty_takes {kind : Kind} {name : String} (h : IsToken kind name)
    (hkind : kind = .identifier ∨ kind.isKeyword = true) (hlevels : 1 < n)
    (hdepth : c.depth < c.limit) :
    Takes (Grammar.upTo n).classMember c
      ((.hash, "#") :: (kind, name) :: (.semicolon, ";") :: rest) (privateProperty name) rest := by
  have hname : kindOf name = kind := kindOf_of_first? (first?_eq_of_isToken h)
  have hlexemes : (.hash, "#") :: (kind, name) :: (.semicolon, ";") :: rest =
      lexemesBefore (memberWritten false false false true name) (lexemesBefore ([] ++ [";"]) rest) := by
    simp [memberWritten, writtenIf, hname, kindOf_hash, kindOf_semicolon]
  have hsemicolon : headKind (lexemesBefore ([] ++ [";"]) rest) = .semicolon := kindOf_semicolon
  rw [hlexemes]
  refine Takes.lookahead_bind fun t _ => memberWritten_takes ⟨kind, h, hkind⟩ ?_ ?_
  · rw [hsemicolon]
    rfl
  · refine Takes.sees_neg ?_ (classPropertyTail_takes .absent hlevels hdepth rest)
    rw [hsemicolon]
    decide

/-- A class with a private property does with the members behind it what is done with these. -/
lemma class_attempts {kind : Kind} {name : String} {members : Except Kind (List Node)}
    (h : IsToken kind name) (hkind : kind = .identifier ∨ kind.isKeyword = true) (hlevels : 0 < n)
    (hdepth : c.depth < c.limit)
    (hmembers : Attempts (loop (Grammar.upTo (n + 1)).nextMember n [privateProperty name]) c ls
      members ((.rBrace, "\x7d") :: rest)) :
    Attempts (Grammar.upTo (n + 1)).classDeclaration c
      ((.kwClass, "class") :: (.identifier, "A") :: (.lBrace, "\x7b") :: (.hash, "#") ::
        (kind, name) :: (.semicolon, ";") :: ls)
      (members.map fun members => .classDeclaration (.identifier "A") none (.classBody members))
      rest := by
  have hproperty : Takes ((Grammar.upTo (n + 1)).nextMember []) c
      ((.hash, "#") :: (kind, name) :: (.semicolon, ";") :: ls) (.again [privateProperty name])
      ls := by
    have hmember := @privateProperty_takes (n + 1) c ls kind name h hkind (by omega) hdepth
    refine Takes.sees_neg nofun ?_
    refine Takes.accept_neg nofun ?_
    refine Takes.sees_neg nofun ?_
    exact hmember.bind (Takes.pure _)
  have hloop : Attempts (loop (Grammar.upTo (n + 1)).nextMember (n + 1) []) c
      ((.hash, "#") :: (kind, name) :: (.semicolon, ";") :: ls) members
      ((.rBrace, "\x7d") :: rest) :=
    .loop_behind hproperty hmembers
  have hbody : Attempts (Grammar.upTo (n + 1)).classBody c
      ((.lBrace, "\x7b") :: (.hash, "#") :: (kind, name) :: (.semicolon, ";") :: ls)
      (members.map .classBody) rest := by
    refine .expect ?_
    exact hloop.first fun members => Takes.expect_skip (Takes.pure (Node.classBody members))
  have hid : Takes identifier c ((.identifier, "A") :: (.lBrace, "\x7b") :: (.hash, "#") ::
      (kind, name) :: (.semicolon, ";") :: ls) (.identifier "A")
      ((.lBrace, "\x7b") :: (.hash, "#") :: (kind, name) :: (.semicolon, ";") :: ls) :=
    identifier_takes
  have hclass := hbody.first (g := Node.classDeclaration (.identifier "A") none)
    fun body => Takes.pure _
  refine .expect ?_
  refine .behind hid ?_
  refine .behind (Takes.optionally_none nofun) ?_
  cases members <;> exact hclass

lemma program_attempts {limit : Nat} (hlimit : 0 < limit) (hhead : headKind ls = .kwClass)
    (h : Attempts (Grammar.upTo (n + 1)).classDeclaration ⟨limit, 1, false⟩ ls outcome []) :
    Attempts (Grammar.upTo (n + 2)).program ⟨limit, 0, false⟩ ls
      (outcome.map fun e => .program [e]) [] := by
  have hstatement : Attempts (Grammar.run (n + 2) .statement) ⟨limit, 0, false⟩ ls outcome [] := by
    refine .nested hlimit (.lookahead fun t ht => ?_)
    rw [ht, hhead]
    exact h
  have hturn : Attempts ((Grammar.upTo (n + 2)).nextInProgram []) ⟨limit, 0, false⟩ ls
      (outcome.map fun e => .again [e]) [] := by
    refine .sees_neg (by rw [hhead]; decide) ?_
    exact hstatement.first fun e => Takes.pure _
  exact hturn.loop_first fun e => Takes.loop_closed rfl rfl

end Layers

/-- A source has the outcome that its lexemes have. -/
lemma parse_of_attempts {ls : List (Kind × String)} {limit : Nat} {outcome : Except Kind Node}
    (h : ∀ n, ls.length ≤ n →
      Attempts (Grammar.upTo (n + 2)).program ⟨limit, 0, false⟩ ls outcome [])
    {source : String} (hlexemes : Lexemes source.toList ls) :
    match outcome with
    | .ok tree => parse source limit = .ok tree
    | .error kind => ∃ span, parse source limit = .error (.tokenMismatch .identifier kind span) := by
  obtain ⟨hls, last, hlast⟩ := hlexemes 0
  have hlength : ls.length ≤ (Cursor.ofSource source).rest.length := by
    have hscan := (Cursor.ofSource source).scan_length_le
    rw [← hls, List.length_map]
    exact hscan
  rcases (Cursor.ofSource source).next_cases with ⟨e, after, -, hscan⟩ | ⟨token, after, hnext, hscan⟩
  · have hstop : (Cursor.ofSource source).scan.2 = .ok last := hlast
    rw [hscan] at hstop
    cases hstop
  · have hstands : Stands ⟨token, after⟩ ls := by
      unfold Stands
      rw [← hscan]
      exact ⟨hls, last, hlast⟩
    have hrun := h _ hlength _ hstands
    cases outcome with
    | ok tree =>
      obtain ⟨s, hs, -⟩ := hrun
      exact parse_of_ok hnext hs
    | error kind =>
      obtain ⟨span, hspan⟩ := hrun
      exact ⟨span, parse_of_rejected hnext hspan⟩

section Runs

variable {kind : Kind} {name : String} {limit : Nat} (h : IsToken kind name)

include h

lemma parse_declaring (hkind : kind = .identifier ∨ kind.isKeyword = true) (hlimit : 12 ≤ limit) :
    parse (declaring name) limit = .ok (classOf [privateProperty name]) := by
  refine @parse_of_attempts _ _ (.ok _) (fun n hn => ?_) _ (lexemes_declaring h hkind)
  simp only [List.length_cons] at hn
  have hmembers : Takes (loop (Grammar.upTo (n + 1)).nextMember n [privateProperty name])
      ⟨limit, 1, false⟩ [(.rBrace, "\x7d")] [privateProperty name] [(.rBrace, "\x7d")] := by
    obtain ⟨n, rfl⟩ : ∃ d, n = d + 1 := ⟨n - 1, by omega⟩
    exact Takes.loop_closed rfl rfl
  have hclass := class_attempts h hkind (by omega) (show 1 < limit by omega) (.ok hmembers)
  exact program_attempts (by omega) rfl hclass

/-- A class with a method that accesses the property has the outcome of the access. -/
lemma parse_accessing (hkind : kind = .identifier ∨ kind.isKeyword = true) (hlimit : 12 ≤ limit)
    {access : Except Kind Node}
    (haccess : ∀ n rest, 16 < n → Attempts (Grammar.upTo n).sequence ⟨limit, 2, true⟩
      ((.kwThis, "this") :: (.dot, ".") :: (.hash, "#") :: (kind, name) :: (.semicolon, ";") :: rest)
      access ((.semicolon, ";") :: rest)) :
    match access with
    | .ok e => parse (accessing name) limit = .ok (classOf [privateProperty name, returning e])
    | .error kind =>
      ∃ span, parse (accessing name) limit = .error (.tokenMismatch .identifier kind span) := by
  have hparse := @parse_of_attempts _ limit
    (access.map fun e => classOf [privateProperty name, returning e]) (fun n hn => ?_) _
    (lexemes_accessing h hkind)
  · cases access <;> exact hparse
  simp only [List.length_cons, List.length_nil] at hn
  obtain ⟨n, rfl⟩ : ∃ d, n = d + 2 := ⟨n - 2, by omega⟩
  have hreturn := return_attempts (c := ⟨limit, 1, true⟩) rfl (show 1 < limit by omega) rfl
    (haccess (n + 1) [(.rBrace, "\x7d"), (.rBrace, "\x7d")] (by omega))
  have hblock := block_attempts (g := Grammar.upTo (n + 3)) (show 1 < n + 3 by omega)
    (by exact ⟨nofun, nofun⟩) hreturn
  have hmethod := method_attempts (c := ⟨limit, 1, false⟩) (show 1 < n + 3 by omega) hblock
  have hmember := method_member_attempts (show "m" ≠ "constructor" by decide) hmethod
  have hmembers := members_attempts (b := n) rfl hmember [privateProperty name]
  have hclass := class_attempts h hkind (by omega) (show 1 < limit by omega) hmembers
  have hprogram := program_attempts (by omega) rfl hclass
  cases access <;> exact hprogram

end Runs

/-- The name of a private property that is declared is a word that may name a member. -/
lemma namesMember_of_declaring {name : String} {limit : Nat}
    (h : parse (declaring name) limit = .ok (classOf [privateProperty name])) :
    NamesMember name := by
  obtain ⟨body, ts, hbody, hderives, hreads⟩ := exists_derivation_of_parse h
  cases hbody
  have haccounts : Accounts [.name "A", .key name] ts := hderives.accounts rfl
  obtain ⟨t, ht, hkind, rfl⟩ : ∃ t ∈ ts, (Atom.key name).SpelledBy t :=
    haccounts.exists_of_mem (by simp) rfl
  refine ⟨t.kind, (hreads t ht).resolve_left ?_, hkind⟩
  revert hkind
  cases t.kind <;> decide

/-- A private property is declared under every word that may name a member. Behind `this` and a dot
it is read again if the word is a plain name, and a reserved word is refused there. -/
theorem access_to_private (name : String) {limit : Nat} (hlimit : 12 ≤ limit) :
    (parse (declaring name) limit = .ok (classOf [privateProperty name]) ↔ NamesMember name) ∧
    (IsToken .identifier name → parse (accessing name) limit =
      .ok (classOf [privateProperty name, returning (privateAccess name)])) ∧
    ∀ kind : Kind, kind.isKeyword = true → IsToken kind name →
      ∃ span, parse (accessing name) limit = .error (.tokenMismatch .identifier kind span) := by
  refine ⟨⟨namesMember_of_declaring, ?_⟩, fun h => ?_, fun kind hkeyword h => ?_⟩
  · rintro ⟨kind, h, hkind⟩
    exact parse_declaring h hkind hlimit
  · have hread : Readable (privateAccess name) := readable_member readable_this rfl (.hidden h)
    have hlexemes : (privateAccess name).lexemes =
        [(.kwThis, "this"), (.dot, "."), (.hash, "#"), (.identifier, name)] := by
      simp [privateAccess, Node.lexemes, Node.written, lexemeOf, kindOf_this, kindOf_dot,
        kindOf_hash, (onLine_of_name h).1]
    refine @parse_accessing _ _ _ h (Or.inl rfl) hlimit (.ok (privateAccess name))
      fun n rest hn => ?_
    have htakes := hread.read 0 (by omega) (Nat.zero_le _) n ⟨limit, 2, true⟩
      ((.semicolon, ";") :: rest) ⟨show 4 ≤ n by omega, show 2 + 4 ≤ limit by omega⟩
      (ends_of_grip?_eq_none rfl)
    rwa [hlexemes] at htakes
  · refine @parse_accessing _ _ _ h (Or.inr hkeyword) hlimit (.error kind) fun n rest hn => ?_
    obtain ⟨n, rfl⟩ : ∃ d, n = d + 1 := ⟨n - 1, by omega⟩
    have hname : kind ≠ .identifier := by
      rintro rfl
      cases hkeyword
    exact access_refuses hname (show 2 < limit by omega)

theorem access_to_plain_name :
    12 ≤ 12 ∧ parse (declaring "w") 12 = .ok (classOf [privateProperty "w"]) ∧
      parse (accessing "w") 12 =
        .ok (classOf [privateProperty "w", returning (privateAccess "w")]) := by
  have hname : IsToken .identifier "w" := ⟨by decide +kernel, .endOfFile 1, by decide +kernel⟩
  obtain ⟨hdeclared, haccess, -⟩ := access_to_private "w" (Nat.le_refl 12)
  exact ⟨Nat.le_refl 12, hdeclared.2 ⟨_, hname, Or.inl rfl⟩, haccess hname⟩

/-- A property is declared under the word `if` and cannot be accessed. -/
theorem no_access_to_reserved_word :
    parse (declaring "if") 12 = .ok (classOf [privateProperty "if"]) ∧
      parse (accessing "if") 12 = .error (.tokenMismatch .identifier .kwIf ⟨34, 36⟩) := by
  have hword : IsToken .kwIf "if" := ⟨by decide +kernel, .endOfFile 2, by decide +kernel⟩
  exact ⟨parse_declaring hword (Or.inr rfl) (Nat.le_refl 12), eq_error_of_test (by decide +kernel)⟩

end ScriptTree
