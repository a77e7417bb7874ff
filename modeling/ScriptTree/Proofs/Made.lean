import ScriptTree.Proofs.Reading

/-!
# How parsers are made

The productions of the grammar put a few parsers together in a few ways. `Made` lists these ways, so
that what holds of all of them holds of every production. Its two parsers are made alike and differ
at most in the places they report: they are what two runs do that read the same tokens at different
places, until the first one meets the end of its source where the second one meets a closing token.
-/

namespace ScriptTree

open ScriptTree.Parser

/-- What is known of a parser from how it is made. -/
structure Traits where
  /-- It consumes a token. -/
  eats : Bool
  /-- How many levels of nesting it may enter before it consumes a token. -/
  levels : Nat
  /-- It does the same in a function and outside of it. -/
  blind : Bool
  /-- It never ends in front of a closing token that is only in the second source. -/
  outer : Bool

/-- How many levels of nesting a construct enters before its first token. -/
def Goal.levels : Goal → Nat
  | statement => 2
  | creation => 0
  | _ => 1

/-- Whether a source is refused because its constructs nest too deep. -/
def SyntaxError.isTooDeep : SyntaxError → Bool
  | nestingTooDeep .. => true
  | _ => false

/-- The next tokens of two runs: the same lexeme, or an end and a closing token. -/
inductive Faces (t u : Token) : Prop where
  | same (h : t.lexeme = u.lexeme)
  | edge (ht : t.kind = .endOfFile) (hu : u.kind = .rBrace ∨ u.kind = .rParen)

lemma Faces.refl (t : Token) : Faces t t :=
  .same rfl

/-- Consumes a token of a kind, unless what follows it belongs to a class. -/
def acceptUnless (kind : Kind) (ends : Kind → Bool) : Parser Bool := do
  if ← sees kind then
    let (next, _) ← tokenAt (← place)
    if ends next.kind then return false
    let _ ← advance
    return true
  else return false

lemma acceptModifier_eq (kind : Kind) : acceptModifier kind = acceptUnless kind endsMemberName :=
  rfl

lemma acceptAsyncMethod_eq :
    Grammar.acceptAsyncMethod = acceptUnless .kwAsync Grammar.endsPropertyName :=
  rfl

/-- The kinds that may face each other as an end and a closing token. -/
def Kind.isEdge : Kind → Bool
  | endOfFile | rBrace | rParen => true
  | _ => false

/-- The tables in which texts of tokens are looked up, and the ways in which they are cut, with the
kinds of these tokens. -/
inductive LooksUp : ∀ {β : Type}, Kind → (String → Option β) → Prop where
  | number : LooksUp .number Decimal.ofText?
  | update : LooksUp .incrementDecrement UpdateOperator.ofText?
  | unary {kind : Kind} (h : kind = .bang ∨ kind = .additive) : LooksUp kind UnaryOperator.ofText?
  | power : LooksUp .power BinaryOperator.ofText?
  | level {level : OperatorLevel} (h : level ∈ OperatorLevel.all) : LooksUp level.kind level.join?
  | assignment {kind : Kind} (h : kind = .assignment ∨ kind = .complexAssignment) :
      LooksUp kind AssignmentOperator.ofText?
  | declaration : LooksUp .kwLetOrConst VariableKind.ofText?
  | string : LooksUp .string unquoted?
  | regex : LooksUp .regex regexParts?

lemma LooksUp.isEdge_eq {β : Type} {kind : Kind} {table : String → Option β}
    (h : LooksUp kind table) : kind.isEdge = false := by
  cases h with
  | number | update | power | declaration | string | regex => rfl
  | unary h | assignment h => rcases h with rfl | rfl <;> rfl
  | level h =>
    have hall : ∀ level ∈ OperatorLevel.all, level.kind.isEdge = false := by decide
    exact hall _ h

lemma LooksUp.ne_endOfFile {β : Type} {kind : Kind} {table : String → Option β}
    (h : LooksUp kind table) : kind ≠ .endOfFile := by
  rintro rfl
  cases h.isEdge_eq

/-- Two parsers made alike, where the next tokens may be known. -/
inductive Made (g : Grammar) :
    ∀ {α : Type}, Option (Token × Token) → Traits → Parser α → Parser α → Prop where
  | pure {α : Type} {seen k d z} (a : α) : Made g seen ⟨false, k, d, z⟩ (pure a) (pure a)
  | reject {α : Type} {seen x e f} (he : e.isTooDeep = false) (hf : f.isTooDeep = false) :
      Made g seen x (reject e : Parser α) (reject f)
  | look {α : Type} {seen x} {f f' : Token → Parser α}
      (h : ∀ t u, Faces t u → (∀ tu ∈ seen, tu = (t, u)) → Made g (some (t, u)) x (f t) (f' u)) :
      Made g seen x (lookahead >>= f) (lookahead >>= f')
  | take {α : Type} {t u b k d z} {f f' : Token → Parser α} (hsame : t.lexeme = u.lexeme)
      (hend : t.kind ≠ .endOfFile) (h : Made g none ⟨false, 2, d, z⟩ (f t) (f' u)) :
      Made g (some (t, u)) ⟨b, k, d, z⟩ (advance >>= f) (advance >>= f')
  | lookUp {α β : Type} {t u b k d z} {table : String → Option β} {f f' : Token → β → Parser α}
      (hsame : t.lexeme = u.lexeme) (htable : LooksUp t.kind table)
      (h : ∀ a, Made g none ⟨false, 2, d, z⟩ (f t a) (f' u a)) :
      Made g (some (t, u)) ⟨b, k, d, z⟩
        (advance >>= fun token => spelled token (table token.text) >>= f token)
        (advance >>= fun token => spelled token (table token.text) >>= f' token)
  | after {α β : Type} {seen b k d z} {p p' : Parser α} {f f' : α → Parser β}
      (hp : Made g seen ⟨true, k, d, z⟩ p p')
      (hf : ∀ a, Made g none ⟨false, 2, d, z⟩ (f a) (f' a)) :
      Made g seen ⟨b, k, d, z⟩ (p >>= f) (p' >>= f')
  | seq {α β : Type} {seen b k d z} {p p' : Parser α} {f f' : α → Parser β}
      (hp : Made g seen ⟨false, k, d, z⟩ p p') (hf : ∀ a, Made g none ⟨b, k, d, z⟩ (f a) (f' a)) :
      Made g seen ⟨b, k, d, z⟩ (p >>= f) (p' >>= f')
  | closing {α β : Type} {seen b k d z} {p p' : Parser α} {f f' : α → Parser β}
      (hp : Made g seen ⟨false, k, d, false⟩ p p')
      (hf : ∀ a, Made g none ⟨true, k, d, true⟩ (f a) (f' a)) :
      Made g seen ⟨b, k, d, z⟩ (p >>= f) (p' >>= f')
  | nested {α : Type} {seen b j k d z} {p p' : Parser α} (hk : j < k)
      (h : Made g seen ⟨b, j, d, z⟩ p p') : Made g seen ⟨b, k, d, z⟩ (nested p) (nested p')
  | inFunction {α : Type} {seen b k d d' z} {p p' : Parser α}
      (h : Made g seen ⟨b, k, d', z⟩ p p') :
      Made g seen ⟨b, k, d, z⟩ (inFunction p) (inFunction p')
  | guarded {α : Type} {seen b k z} {p p' q q' : Parser α} (hp : Made g seen ⟨b, k, false, z⟩ p p')
      (hq : Made g seen ⟨b, k, false, z⟩ q q') :
      Made g seen ⟨b, k, false, z⟩ (context >>= fun c => if c.inFunction = true then p else q)
        (context >>= fun c => if c.inFunction = true then p' else q')
  | loop {σ α : Type} {seen k d z} {turn turn' : σ → Parser (Turn σ α)} (bound : Nat) (x : σ)
      (h : ∀ x, Made g none ⟨false, k, d, z⟩ (turn x) (turn' x)) :
      Made g seen ⟨false, k, d, z⟩ (loop turn bound x) (loop turn' bound x)
  | goal {seen b k d z} (goal : Goal) (hk : goal.levels ≤ k) (hd : d = true → goal ≠ .statement) :
      Made g seen ⟨b, k, d, z⟩ (g.parse goal) (g.parse goal)
  | template {seen b k d z} : Made g seen ⟨b, k, d, z⟩ g.templateLiteral g.templateLiteral
  | declares {t u k d z} (hsame : t.lexeme = u.lexeme) (hend : t.kind ≠ .endOfFile) :
      Made g (some (t, u)) ⟨false, k, d, z⟩ declaresFunction declaresFunction
  | modifier {α : Type} {seen b k d kind} {ends : Kind → Bool} {f f' : Bool → Parser α}
      (hkind : kind.isKeyword = true) (hends : ends .endOfFile = false)
      (hf : ∀ a, Made g none ⟨true, k, d, false⟩ (f a) (f' a)) :
      Made g seen ⟨b, k, d, false⟩ (acceptUnless kind ends >>= f) (acceptUnless kind ends >>= f')
  /-- At the end of the first source, where it cannot go on, the second run may. -/
  | cross {α : Type} {t u b b' k d z} {p p' q q' : Parser α} (ht : t.kind = .endOfFile)
      (hu : u.kind = .rBrace ∨ u.kind = .rParen) (hp : Made g (some (t, t)) ⟨true, k, d, z⟩ p p')
      (hq : Made g (some (u, u)) ⟨b', k, d, z⟩ q' q) (hb : b = true → b' = true)
      (hz : z = true → b' = true) : Made g (some (t, u)) ⟨b, k, d, z⟩ p q

namespace Made

variable {g : Grammar} {α β : Type} {seen : Option (Token × Token)} {x : Traits} {t u : Token}
  {b b' d z : Bool} {k : Nat} {kind : Kind}

lemma kind_eq (h : t.lexeme = u.lexeme) : t.kind = u.kind :=
  congrArg Prod.fst h

lemma text_eq (h : t.lexeme = u.lexeme) : t.text = u.text :=
  congrArg Prod.snd h

/-- Both runs look at the next token. -/
lemma look_cases {f f' : Token → Parser α}
    (hsame : ∀ t u, t.lexeme = u.lexeme → Made g (some (t, u)) x (f t) (f' u))
    (hedge : ∀ t u, t.kind = .endOfFile → u.kind = .rBrace ∨ u.kind = .rParen →
      Made g (some (t, u)) x (f t) (f' u)) :
    Made g seen x (lookahead >>= f) (lookahead >>= f') := by
  apply look
  intro t u hfaces _
  cases hfaces with
  | same h => exact hsame t u h
  | edge ht hu => exact hedge t u ht hu

lemma mismatch : Made g seen x (Parser.mismatch kind : Parser α) (Parser.mismatch kind) :=
  look fun _ _ _ _ => reject rfl rfl

lemma unexpected : Made g seen x (Parser.unexpected : Parser α) Parser.unexpected :=
  look fun _ _ _ _ => reject rfl rfl

lemma mismatch_bind {f f' : α → Parser β} :
    Made g seen x (Parser.mismatch kind >>= f) (Parser.mismatch kind >>= f') := by
  change Made g seen x (lookahead >>= fun t => Parser.reject (.tokenMismatch kind t.kind t.span))
    (lookahead >>= fun u => Parser.reject (.tokenMismatch kind u.kind u.span))
  exact look fun _ _ _ _ => reject rfl rfl

/-- Both runs look whether a token of a kind comes next, which is not one of the edge. -/
lemma sees_bind {f f' : Bool → Parser α} (hkind : kind.isEdge = false)
    (hyes : ∀ t u, t.lexeme = u.lexeme → t.kind = kind → Made g (some (t, u)) x (f true) (f' true))
    (hno : ∀ {t u}, Made g (some (t, u)) x (f false) (f' false)) :
    Made g seen x (sees kind >>= f) (sees kind >>= f') := by
  change Made g seen x (lookahead >>= fun t => f (t.kind == kind))
    (lookahead >>= fun u => f' (u.kind == kind))
  apply look_cases
  · intro t u h
    rw [← kind_eq h]
    by_cases ht : t.kind = kind
    · rw [beq_iff_eq.2 ht]
      exact hyes t u h ht
    · rw [beq_eq_false_iff_ne.2 ht]
      exact hno
  · intro t u ht hu
    have hfirst : (t.kind == kind) = false := by
      rw [ht, beq_eq_false_iff_ne]
      rintro rfl
      cases hkind
    have hsecond : (u.kind == kind) = false := by
      rw [beq_eq_false_iff_ne]
      rintro rfl
      rcases hu with hu | hu <;> rw [hu] at hkind <;> cases hkind
    rw [hfirst, hsecond]
    exact hno

lemma sees_ite {p p' q q' : Parser α} (hkind : kind.isEdge = false)
    (hyes : ∀ t u, t.lexeme = u.lexeme → t.kind = kind → Made g (some (t, u)) x p p')
    (hno : ∀ {t u}, Made g (some (t, u)) x q q') :
    Made g seen x (sees kind >>= fun b => if b = true then p else q)
      (sees kind >>= fun b => if b = true then p' else q') :=
  sees_bind hkind hyes hno

/-- Both runs look for a closing token. At the edge only the second one may find it, where the first
one has to go on and cannot. -/
lemma sees_closing {p p' q q' : Parser α} (hend : (kind == .endOfFile) = false)
    (hyes : ∀ t u, t.lexeme = u.lexeme → t.kind = kind → Made g (some (t, u)) ⟨b, k, d, z⟩ p p')
    (hno : ∀ {t u b}, Made g (some (t, u)) ⟨b, k, d, z⟩ q q')
    (hgo : ∀ u, u.kind = kind → Made g (some (u, u)) ⟨b', k, d, z⟩ p p') (hb : b = true → b' = true)
    (hz : z = true → b' = true) :
    Made g seen ⟨b, k, d, z⟩ (sees kind >>= fun b => if b = true then p else q)
      (sees kind >>= fun b => if b = true then p' else q') := by
  change Made g seen ⟨b, k, d, z⟩ (lookahead >>= fun t => if (t.kind == kind) = true then p else q)
    (lookahead >>= fun u => if (u.kind == kind) = true then p' else q')
  apply look_cases
  · intro t u h
    rw [← kind_eq h]
    by_cases ht : t.kind = kind
    · rw [if_pos (beq_iff_eq.2 ht), if_pos (beq_iff_eq.2 ht)]
      exact hyes t u h ht
    · rw [if_neg (by simpa using ht), if_neg (by simpa using ht)]
      exact hno
  · intro t u ht hu
    have hkind := ne_of_beq_false hend
    rw [if_neg (by simpa [ht] using hkind.symm)]
    by_cases hfound : u.kind = kind
    · rw [if_pos (beq_iff_eq.2 hfound)]
      exact cross ht hu hno (hgo u hfound) hb hz
    · rw [if_neg (by simpa using hfound)]
      exact hno

/-- Inside brackets a run may stop in front of a closing token. -/
lemma sees_closing_inner {p p' q q' : Parser α} (hend : (kind == .endOfFile) = false)
    (hyes : ∀ {t u}, Made g (some (t, u)) ⟨b, k, d, false⟩ p p')
    (hno : ∀ {t u b}, Made g (some (t, u)) ⟨b, k, d, false⟩ q q') :
    Made g seen ⟨b, k, d, false⟩ (sees kind >>= fun b => if b = true then p else q)
      (sees kind >>= fun b => if b = true then p' else q') :=
  sees_closing hend (fun _ _ _ _ => hyes) hno (fun _ _ => hyes) id (by simp)

/-- At the end of the source neither run goes on, and a second run that has more to read does. -/
lemma sees_end {p p' q q' : Parser α} (hyes : ∀ {t u b}, Made g (some (t, u)) ⟨b, k, d, z⟩ p p')
    (hno : ∀ {t u b}, Made g (some (t, u)) ⟨b, k, d, z⟩ q q') :
    Made g seen ⟨b, k, d, z⟩ (sees .endOfFile >>= fun b => if b = true then p else q)
      (sees .endOfFile >>= fun b => if b = true then p' else q') := by
  change Made g seen ⟨b, k, d, z⟩
    (lookahead >>= fun t => if (t.kind == .endOfFile) = true then p else q)
    (lookahead >>= fun u => if (u.kind == .endOfFile) = true then p' else q')
  apply look_cases
  · intro t u h
    rw [← kind_eq h]
    split
    · exact hyes
    · exact hno
  · intro t u ht hu
    have hsecond : u.kind ≠ .endOfFile := by
      rcases hu with hu | hu <;> simp [hu]
    rw [if_pos (beq_iff_eq.2 ht), if_neg (by simpa using hsecond)]
    exact cross ht hu hyes hno (fun _ => rfl) (fun _ => rfl)

lemma expect_bind {f f' : Token → Parser α} (hend : (kind == .endOfFile) = false)
    (hf : ∀ t u, t.lexeme = u.lexeme → Made g none ⟨false, 2, d, z⟩ (f t) (f' u)) :
    Made g seen ⟨b, k, d, z⟩ (expect kind >>= f) (expect kind >>= f') := by
  rw [expect_bind_eq, expect_bind_eq]
  have htake : ∀ {b} t u, t.lexeme = u.lexeme → t.kind = kind →
      Made g (some (t, u)) ⟨b, k, d, z⟩ (advance >>= f) (advance >>= f') := by
    intro b t u h ht
    exact take h (ht ▸ ne_of_beq_false hend) (hf t u h)
  exact sees_closing hend htake mismatch_bind (fun u hu => htake u u rfl hu) (fun _ => rfl)
    (fun _ => rfl)

lemma expect_skip {p p' : Parser α} (hend : (kind == .endOfFile) = false)
    (h : Made g none ⟨false, 2, d, z⟩ p p') :
    Made g seen ⟨b, k, d, z⟩ (expect kind >>= fun _ => p) (expect kind >>= fun _ => p') :=
  expect_bind hend fun _ _ _ => h

lemma accept_bind {f f' : Bool → Parser α} (hkind : kind.isEdge = false)
    (hyes : Made g none ⟨false, 2, d, z⟩ (f true) (f' true))
    (hno : ∀ {t u}, Made g (some (t, u)) ⟨b, k, d, z⟩ (f false) (f' false)) :
    Made g seen ⟨b, k, d, z⟩ (accept kind >>= f) (accept kind >>= f') := by
  rw [accept_bind_eq, accept_bind_eq]
  apply sees_ite hkind
  · intro t u h ht
    apply take h
    · rw [ht]
      rintro rfl
      cases hkind
    · exact hyes
  · exact hno

lemma accept (hkind : kind.isEdge = false) :
    Made g seen ⟨false, k, d, z⟩ (Parser.accept kind) (Parser.accept kind) := by
  rw [← bind_pure (Parser.accept kind)]
  exact accept_bind hkind (pure true) (pure false)

lemma accept_ite {p p' q q' : Parser α} (hkind : kind.isEdge = false)
    (hyes : Made g none ⟨false, 2, d, z⟩ p p')
    (hno : ∀ {t u}, Made g (some (t, u)) ⟨b, k, d, z⟩ q q') :
    Made g seen ⟨b, k, d, z⟩ (Parser.accept kind >>= fun b => if b = true then p else q)
      (Parser.accept kind >>= fun b => if b = true then p' else q') :=
  accept_bind hkind hyes hno

lemma accept_closing {p p' q q' : Parser α} (hend : (kind == .endOfFile) = false)
    (hyes : Made g none ⟨false, 2, d, z⟩ p p')
    (hno : ∀ {t u b}, Made g (some (t, u)) ⟨b, k, d, z⟩ q q') :
    Made g seen ⟨b, k, d, z⟩ (Parser.accept kind >>= fun b => if b = true then p else q)
      (Parser.accept kind >>= fun b => if b = true then p' else q') := by
  rw [accept_bind_eq, accept_bind_eq]
  have htake : ∀ {b} t u, t.lexeme = u.lexeme → t.kind = kind →
      Made g (some (t, u)) ⟨b, k, d, z⟩ (advance >>= fun _ => p) (advance >>= fun _ => p') := by
    intro b t u h ht
    exact take h (ht ▸ ne_of_beq_false hend) hyes
  exact sees_closing hend htake hno (fun u hu => htake u u rfl hu) (fun _ => rfl) (fun _ => rfl)

lemma expect_lookUp {table : String → Option β} {f f' : Token → β → Parser α}
    (htable : LooksUp kind table)
    (hf : ∀ t u, t.lexeme = u.lexeme → ∀ a, Made g none ⟨false, 2, d, z⟩ (f t a) (f' u a)) :
    Made g seen ⟨b, k, d, z⟩
      (expect kind >>= fun token => spelled token (table token.text) >>= f token)
      (expect kind >>= fun token => spelled token (table token.text) >>= f' token) := by
  rw [expect_bind_eq, expect_bind_eq]
  refine sees_ite htable.isEdge_eq (fun t u h ht => ?_) mismatch_bind
  exact lookUp h (ht ▸ htable) (hf t u h)

/-- The last part of a construct. -/
lemma last {p p' : Parser α} (hp : Made g seen ⟨true, k, d, z⟩ p p') (f : α → β) :
    Made g seen ⟨b, k, d, z⟩ (p >>= fun a => Pure.pure (f a)) (p' >>= fun a => Pure.pure (f a)) :=
  after hp fun a => pure (f a)

lemma map {p p' : Parser α} (hp : Made g seen ⟨true, k, d, z⟩ p p') (f : α → β) :
    Made g seen ⟨b, k, d, z⟩ (f <$> p) (f <$> p') :=
  last hp f

lemma optionally {p p' : Parser α} (hkind : kind.isEdge = false)
    (hp : Made g none ⟨true, 2, d, z⟩ p p') :
    Made g seen ⟨false, k, d, z⟩ (Parser.optionally kind p) (Parser.optionally kind p') := by
  unfold Parser.optionally
  exact accept_ite hkind (map hp some) (pure none)

end Made

end ScriptTree
