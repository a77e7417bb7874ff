import ScriptTree.Proofs.CommaRows
import ScriptTree.Proofs.Enclosed
import ScriptTree.Proofs.Forks

/-!
# Parameters of arrow functions and of functions

The same text as the parameters of an arrow function and of a function declaration, both with an empty
body. What is accepted for the arrow function is accepted for the declaration, with the same
parameters. The other way round there are two things that only a declaration takes, a `yield` as a
default and a comma behind the last parameter, and the arrow function takes two levels more.

Main statement: `arrow_params_agree`.
-/

namespace ScriptTree

open ScriptTree.Parser

/-- The next tokens are of these kinds, and are read by the rules. -/
inductive Steps : List Kind → Reading → Reading → Prop where
  | nil (r : Reading) : Steps [] r r
  | cons {r s t : Reading} {kind : Kind} {kinds : List Kind} (hkind : r.lookahead.kind = kind)
      (hnext : r.cursor.next = (.ok t.lookahead, t.cursor)) (h : Steps kinds t s) :
      Steps (kind :: kinds) r s

namespace Steps

variable {r s t : Reading} {kinds others : List Kind} {m : Nat}

lemma single {kind : Kind} (hkind : r.lookahead.kind = kind)
    (hnext : r.cursor.next = (.ok s.lookahead, s.cursor)) : Steps [kind] r s := by
  refine .cons hkind hnext ?_
  exact .nil s

lemma append (h : Steps kinds r s) (h' : Steps others s t) : Steps (kinds ++ others) r t := by
  induction h with
  | nil => exact h'
  | cons hkind hnext _ ih => exact .cons hkind hnext (ih h')

/-- Tokens that are ahead are counted. -/
lemma ahead (h : Steps kinds r s) (hkinds : ∀ kind ∈ kinds, kind.opensText = false)
    (hs : Ahead m s) : Ahead (m + kinds.length) r := by
  induction h with
  | nil => exact hs
  | @cons r s t kind kinds hkind hnext _ ih =>
    obtain ⟨hfirst, hrest⟩ := List.forall_mem_cons.1 hkinds
    refine ⟨fun token after htoken => ?_, fun hopens => ?_⟩
    · cases hnext.symm.trans htoken
      exact ih hrest hs
    · rw [hkind, hfirst] at hopens
      cases hopens

/-- Where few tokens are ahead there are not more of them. -/
lemma length_le (h : Steps kinds r s) (hend : .endOfFile ∉ kinds) (hr : Ahead m r) :
    kinds.length ≤ m := by
  induction h generalizing m with
  | nil => exact Nat.zero_le _
  | @cons r s t kind kinds hkind hnext _ ih =>
    rw [List.mem_cons, not_or] at hend
    obtain ⟨l, hl, ht⟩ := hr.next (by rw [hkind]; exact Ne.symm hend.1) hnext
    exact Nat.le_trans (Nat.succ_le_succ (ih hend.2 ht)) hl

end Steps

namespace Closer

variable {y z : Closer} {r s x : Reading} {kinds : List Kind} {m n : Nat}

/-- Inside the text the end of the source is not reached without a further parenthesis. -/
lemma Along.not_end (hz : z.kind = .rParen) (h : z.Along x r) (hsteps : Steps kinds r s)
    (hkinds : .rParen ∉ kinds.tail) (hend : s.lookahead.kind = .endOfFile) : False := by
  induction hsteps generalizing x with
  | nil =>
    apply h.kind_ne
    rw [Made.kind_eq h.lexeme, hend]
  | @cons r s t kind kinds hkind hnext hrest ih =>
    have hheads := h.next
    rw [hnext] at hheads
    obtain ⟨_, _, -, hat⟩ := hheads.first
    cases hat with
    | along halong =>
      exact ih halong (fun hmem => hkinds (List.mem_of_mem_tail hmem)) hend
    | behind hbehind =>
      have hbracket : t.lookahead.kind = .rParen := hbehind.bracket.trans hz
      cases hrest with
      | nil =>
        rw [hbracket] at hend
        cases hend
      | cons hkind => exact hkinds (hkind.symm.trans hbracket ▸ List.mem_cons_self)

/-- A run that stops in front of the parenthesis stops there in both sources. -/
lemma Twins.stop {α : Type} {a : α} {w : Except Interrupt (α × Reading)}
    (h : Twins y z m n (.ok (a, r)) w) (hy : y.Ending m)
    (hsteps : Steps (.rParen :: kinds) r s) (hm : m ≤ kinds.length)
    (hkinds : .rParen ∉ kinds ∧ .endOfFile ∉ kinds) (hend : s.lookahead.kind = .endOfFile) :
    ∃ t, w = .ok (a, t) ∧ t.lookahead.kind = .rParen ∧ t.cursor.rest = z.tail := by
  cases h with
  | @ok a r t h =>
    refine ⟨t, rfl, ?_⟩
    cases h with
    | along x hr hs => exact absurd hend fun hend => hr.not_end hy.kind hsteps hkinds.1 hend
    | behind lexeme hkind hr hs => exact ⟨(Made.kind_eq lexeme).symm.trans hkind, hs⟩
  | apart hx hw =>
    have hlength := hsteps.length_le (by simpa using hkinds.2) (hx a r rfl)
    rw [List.length_cons] at hlength
    omega

end Closer

/-- A parenthesis with an arrow and an empty body behind it. -/
def Closer.arrow : Closer :=
  { Closer.parenthesis with tail := [' ', '=', '>', ' ', '\x7b', '\x7d'] }

/-- A parenthesis with an empty body behind it. -/
def Closer.body : Closer :=
  { Closer.parenthesis with tail := [' ', '\x7b', '\x7d'] }

section Endings

variable {r : Reading} {x : Cursor}

lemma steps_body (hkind : r.lookahead.kind = .rParen) (hrest : r.cursor.rest = Closer.body.tail) :
    ∃ s, Steps [.rParen, .lBrace] r s ∧ s.lookahead.kind = .rBrace ∧ s.cursor.rest = [] := by
  obtain ⟨t, y, ht, hkt, -, hy⟩ :=
    exists_next_space .lBrace _ hrest rfl (List.cons_ne_nil _ _)
  obtain ⟨u, w, hu, hku, -, hw⟩ :=
    exists_next .rBrace ['\x7d'] hy rfl (List.cons_ne_nil _ _)
  have hopening : Steps [.lBrace] ⟨t, y⟩ ⟨u, w⟩ := .single hkt hu
  refine ⟨⟨u, w⟩, ?_, hku, hw⟩
  exact .cons hkind ht hopening

lemma steps_arrow (hkind : r.lookahead.kind = .rParen)
    (hrest : r.cursor.rest = Closer.arrow.tail) : ∃ s, Steps [.rParen, .arrow, .lBrace] r s ∧
      s.lookahead.kind = .rBrace ∧ s.cursor.rest = [] := by
  obtain ⟨t, y, ht, hkt, -, hy⟩ :=
    exists_next_space .arrow _ hrest rfl (List.cons_ne_nil _ _)
  obtain ⟨u, w, hu, hku, -, hw⟩ := exists_next_space .lBrace
    ['\x7b', '\x7d'] hy rfl (List.cons_ne_nil _ _)
  obtain ⟨v, x, hv, hkv, -, hx⟩ :=
    exists_next .rBrace ['\x7d'] hw rfl (List.cons_ne_nil _ _)
  have hopening : Steps [.lBrace] ⟨u, w⟩ ⟨v, x⟩ := .single hku hv
  have harrow : Steps [.arrow, .lBrace] ⟨t, y⟩ ⟨v, x⟩ := .cons hkt hu hopening
  refine ⟨⟨v, x⟩, ?_, hkv, hx⟩
  exact .cons hkind ht harrow

lemma ending_body : Closer.body.Ending 2 where
  kind := rfl
  slash := by decide
  passable := rfl
  pos := by decide
  ahead r hkind hrest := by
    obtain ⟨s, hsteps, -, hs⟩ := steps_body hkind hrest
    exact hsteps.ahead (by decide) (.of_nil hs)
  next x hrest := by
    obtain ⟨t, y, hnext, ht, -⟩ :=
      exists_next_space .lBrace _ hrest rfl (List.cons_ne_nil _ _)
    exact ⟨t, y, hnext, by simp [ht]⟩

lemma ending_arrow : Closer.arrow.Ending 3 where
  kind := rfl
  slash := by decide
  passable := rfl
  pos := by decide
  ahead r hkind hrest := by
    obtain ⟨s, hsteps, -, hs⟩ := steps_arrow hkind hrest
    exact hsteps.ahead (by decide) (.of_nil hs)
  next x hrest := by
    obtain ⟨t, y, hnext, ht, -⟩ :=
      exists_next_space .arrow _ hrest rfl (List.cons_ne_nil _ _)
    exact ⟨t, y, hnext, by simp [ht]⟩

end Endings

/-- The categories of expressions. -/
def Category.isValue : Category → Bool
  | .tier _ | .operand | .chain _ | .creation | .primary | .yielding | .arrow | .name => true
  | _ => false

/-- No expression is a block. -/
lemma Derives.isBlock_eq_false {c : Context} {phrase : Phrase} {ts : List Token}
    (h : Derives c phrase ts) : ∀ category n, phrase = .one category n →
      category.isValue = true → n.isBlock = false := by
  induction h with
  | nameValue _ ih | plainArrow _ ih | yieldValue _ ih | base _ _ ih | heritage _ ih | created _ ih
  | createdInside _ _ ih | suffixed _ ih | operand _ _ ih | loosen _ _ ih | yieldElement _ ih =>
    rintro category n ⟨⟩ -
    exact ih _ _ rfl rfl
  | literal h =>
    rintro category n ⟨⟩ -
    cases h <;> rfl
  | _ =>
    intro category n hphrase hvalue
    cases hphrase <;> first | rfl | cases hvalue

section Bodies

variable {g : Grammar} {c : Context} {r s : Reading} {body result params others : List Node}
  {bound : Nat}

lemma blockLoop_length (h : loop g.nextInBlock bound body c r = .ok (result, s)) :
    body.length ≤ result.length := by
  induction bound generalizing body r with
  | zero => cases h
  | succ bound ih =>
    by_cases hbrace : r.lookahead.kind = .rBrace
    · rw [blockLoop_end bound body hbrace] at h
      cases h
      rw [List.length_reverse]
    by_cases hend : r.lookahead.kind = .endOfFile
    · obtain ⟨i, hi⟩ := blockLoop_of_eof (g := g) (c := c) (bound + 1) body hend
      rw [hi] at h
      cases h
    · rw [blockLoop_step bound body hbrace hend] at h
      obtain ⟨n, u, -, hloop⟩ := bind_eq_ok.1 h
      exact Nat.le_of_succ_le (ih hloop)

lemma block_empty_iff (hbound : 0 < g.bound) :
    g.block c r = .ok (.blockStatement [], s) ↔ Steps [.lBrace, .rBrace] r s := by
  obtain ⟨bound, hsucc⟩ := Nat.exists_eq_succ_of_ne_zero (Nat.ne_of_gt hbound)
  unfold Grammar.block
  rw [hsucc]
  constructor
  · intro h
    obtain ⟨t, u, hopen, h⟩ := bind_eq_ok.1 h
    obtain ⟨hkind, token, after, hnext, rfl⟩ := expect_eq_ok hopen
    obtain ⟨body, v, hloop, h⟩ := bind_eq_ok.1 h
    obtain ⟨t', w, hclose, hpure⟩ := bind_eq_ok.1 h
    obtain ⟨hbrace, last, after', hlast, rfl⟩ := expect_eq_ok hclose
    cases hpure
    by_cases hempty : token.kind = .rBrace
    · rw [blockLoop_end bound [] hempty] at hloop
      cases hloop
      exact .cons hkind (t := ⟨token, after⟩) hnext (.single hempty hlast)
    by_cases hend : token.kind = .endOfFile
    · obtain ⟨i, hi⟩ := blockLoop_of_eof (g := g) (c := c) (r := ⟨token, after⟩) (bound + 1) [] hend
      rw [hi] at hloop
      cases hloop
    · -- a statement would be in the block
      rw [blockLoop_step bound [] hempty hend] at hloop
      obtain ⟨n, x, -, hloop⟩ := bind_eq_ok.1 hloop
      exact absurd (blockLoop_length hloop) (by simp)
  · intro h
    cases h with
    | cons hkind hnext h =>
      cases h with
      | cons hbrace hlast h =>
        cases h with
        | nil =>
          rw [bind_of_ok (expect_of_next hkind hnext)]
          rw [bind_of_ok (blockLoop_end bound [] hbrace),
            bind_of_ok (expect_of_next hbrace hlast)]
          rfl

lemma arrowFunction_empty_iff (hg : g.Faithful) (hbound : 0 < g.bound) :
    g.arrowFunction others false c r =
        .ok (.arrowFunctionExpression false false params (.blockStatement []), s) ↔
      others = params ∧ Steps [.arrow, .lBrace, .rBrace] r s := by
  unfold Grammar.arrowFunction
  constructor
  · intro h
    obtain ⟨t, u, harrow, h⟩ := bind_eq_ok.1 h
    obtain ⟨hkind, token, after, hnext, rfl⟩ := expect_eq_ok harrow
    obtain ⟨body, v, hbody, hpure⟩ := bind_eq_ok.1 h
    cases hpure
    refine ⟨rfl, .cons hkind (t := ⟨token, after⟩) hnext ?_⟩
    change (if (token.kind == .lBrace) = true then g.block else g.parse .element : Parser Node)
      c.inside _ = _ at hbody
    split at hbody
    next => exact (block_empty_iff hbound).1 hbody
    next =>
      obtain ⟨ts, -, hderives⟩ := hg .element _ _ (Cursor.lexical_of_next hnext) _ _ hbody
      cases hderives.isBlock_eq_false _ _ rfl rfl
  · rintro ⟨rfl, h⟩
    cases h with
    | @cons _ _ t _ _ hkind hnext h =>
      have hbrace : t.lookahead.kind = .lBrace := by
        cases h with
        | cons hkind => exact hkind
      have hbody : inFunction g.arrowBody c t = .ok (.blockStatement [], s) := by
        refine (sees_of_eq (c := c.inside) hbrace).trans ?_
        exact (block_empty_iff hbound).2 h
      rw [bind_of_ok (expect_of_next hkind hnext), bind_of_ok hbody]
      rfl

end Bodies

/-! ### The two functions -/

/-- What stands between the parentheses in front of an arrow. -/
inductive CoverReads (g : Grammar) (c : Context) (params : List Node) (r s : Reading) : Prop where
  | none (hclose : r.lookahead.kind = .rParen) (hparams : params = []) (hs : s = r)
  | some {n : Node} (hopen : r.lookahead.kind ≠ .rParen) (h : g.parse .sequence c r = .ok (n, s))
      (hparams : arrowParams? n = some params)

section Functions

variable {g : Grammar} {c : Context} {r s u : Reading} {t : Token} {x : Cursor}
  {params : List Node}

lemma cover_of_parenthesized (hg : g.Faithful) (hbound : 0 < g.bound)
    (h : g.parenthesized c ⟨t, x⟩ =
      .ok (.arrowFunctionExpression false false params (.blockStatement []), s)) :
    ∃ r u : Reading, x.next = (.ok r.lookahead, r.cursor) ∧ CoverReads g c params r u ∧
      Steps [.rParen, .arrow, .lBrace, .rBrace] u s := by
  unfold Grammar.parenthesized at h
  obtain ⟨opening, r, hopen, h⟩ := bind_eq_ok.1 h
  obtain ⟨-, token, after, hnext, rfl⟩ := expect_eq_ok hopen
  rw [accept_bind_eq] at h
  obtain ⟨hclose, h⟩ | ⟨hopen, h⟩ := sees_eq_ok.1 h
  · obtain ⟨closing, v, hadvance, h⟩ := bind_eq_ok.1 h
    obtain ⟨-, last, after', hlast, rfl⟩ := advance_eq_ok hadvance
    obtain ⟨-, h⟩ | ⟨-, h⟩ := sees_eq_ok.1 h
    · obtain ⟨rfl, hsteps⟩ := (arrowFunction_empty_iff hg hbound).1 h
      exact ⟨⟨token, after⟩, ⟨token, after⟩, hnext, .none hclose rfl rfl,
        .cons hclose (t := ⟨last, after'⟩) hlast hsteps⟩
    · cases h
  · obtain ⟨n, u, hn, h⟩ := bind_eq_ok.1 h
    obtain ⟨closing, v, hclose, h⟩ := bind_eq_ok.1 h
    obtain ⟨hkind, last, after', hlast, rfl⟩ := expect_eq_ok hclose
    obtain ⟨-, h⟩ | ⟨-, h⟩ := sees_eq_ok.1 h
    · change Succeeds _ c _ _ s at h
      split at h
      next others hothers =>
        obtain ⟨rfl, hsteps⟩ := (arrowFunction_empty_iff hg hbound).1 h
        exact ⟨⟨token, after⟩, u, hnext, .some hopen hn hothers,
          .cons hkind (t := ⟨last, after'⟩) hlast hsteps⟩
      next => cases h
    · cases h

/-- An arrow with an empty block behind it is read in front of everything else. -/
lemma arrow_of_steps (hg : g.Faithful) (hbound : 0 < g.bound) {p : Parser Node}
    (h : Steps [.arrow, .lBrace, .rBrace] r s) :
    (sees .arrow >>= fun b => if b = true then g.arrowFunction params false else p) c r =
      .ok (.arrowFunctionExpression false false params (.blockStatement []), s) := by
  have hkind : r.lookahead.kind = .arrow := by
    cases h with
    | cons hkind => exact hkind
  rw [sees_of_eq hkind]
  exact (arrowFunction_empty_iff hg hbound).2 ⟨rfl, h⟩

/-- An arrow function with an empty body is read behind its first parenthesis. -/
lemma parenthesized_of_cover (hg : g.Faithful) (hbound : 0 < g.bound) (ht : t.kind = .lParen)
    (hnext : x.next = (.ok r.lookahead, r.cursor)) (hcover : CoverReads g c params r u)
    (hsteps : Steps [.rParen, .arrow, .lBrace, .rBrace] u s) :
    g.parenthesized c ⟨t, x⟩ =
      .ok (.arrowFunctionExpression false false params (.blockStatement []), s) := by
  unfold Grammar.parenthesized
  rw [bind_of_ok (expect_of_next ht hnext), accept_bind_eq]
  cases hsteps with
  | @cons _ _ v _ _ hkind hlast hsteps =>
    cases hcover with
    | none hclose hparams hs =>
      subst hs hparams
      rw [sees_of_eq hclose, bind_of_ok (advance_of_next hlast)]
      exact arrow_of_steps hg hbound hsteps
    | some hopen hn hparams =>
      rw [sees_of_ne hopen]
      change (g.parse .sequence >>= _) c r = _
      rw [bind_of_ok hn, bind_of_ok (expect_of_next hkind hlast)]
      simp only [hparams]
      exact arrow_of_steps hg hbound hsteps

end Functions

/-- Parameters of an arrow function with an empty body, on lines of their own. -/
def inArrow (params : String) : String :=
  "(\n" ++ params ++ "\n) => \x7b\x7d"

/-- Parameters of a function declaration with an empty body, on lines of their own. -/
def inDeclaration (params : String) : String :=
  "function f(\n" ++ params ++ "\n) \x7b\x7d"

/-- An arrow function with an empty body. -/
def emptyArrow (params : List Node) : Node :=
  .arrowFunctionExpression false false params (.blockStatement [])

/-- A function declaration with an empty body. -/
def emptyDeclaration (params : List Node) : Node :=
  .functionDeclaration (.identifier "f") false false params (.blockStatement [])

section Sources

variable {params : String} {nodes : List Node} {limit k : Nat} {t name u : Token}
  {x x₁ x₂ x₃ : Cursor} {r s v : Reading}

lemma toList_inArrow (params : String) :
    (inArrow params).toList = '(' :: '\n' :: (params.toList ++ Closer.arrow.text) := by
  simp [inArrow, Closer.text, Closer.arrow, Closer.parenthesis]

lemma toList_inDeclaration (params : String) : (inDeclaration params).toList =
    "function f(".toList ++ '\n' :: (params.toList ++ Closer.body.text) := by
  simp [inDeclaration, Closer.text, Closer.body, Closer.parenthesis]

lemma length_inArrow_le (hk : params.toList.length + 12 ≤ k) :
    (inArrow params).toList.length ≤ k := by
  rw [toList_inArrow]
  simp [Closer.text, Closer.arrow]
  omega

lemma next_inArrow (params : String) :
    ∃ t x, (Cursor.ofSource (inArrow params)).next = (.ok t, x) ∧ t.kind = .lParen ∧
      x.rest = '\n' :: (params.toList ++ Closer.arrow.text) := by
  obtain ⟨t, x, hnext, hkind, -, hrest⟩ :=
    exists_next .lParen (x := .ofSource (inArrow params)) _ (toList_inArrow params) rfl
      (List.cons_ne_nil _ _)
  exact ⟨t, x, hnext, hkind, hrest⟩

lemma cover_of_parse (hnext : (Cursor.ofSource (inArrow params)).next = (.ok t, x))
    (ht : t.kind = .lParen) (hk : params.toList.length + 12 ≤ k)
    (h : parse (inArrow params) limit = .ok (.program [emptyArrow nodes])) :
    1 < limit ∧ ∃ r u s kinds, x.next = (.ok r.lookahead, r.cursor) ∧
      CoverReads (.upTo k) ⟨limit, 2, false⟩ nodes r u ∧ Steps (.rParen :: kinds) u s ∧
        3 ≤ kinds.length ∧ (.rParen ∉ kinds ∧ .endOfFile ∉ kinds) ∧
          s.lookahead.kind = .endOfFile := by
  have hpos : 0 < k := by omega
  obtain ⟨hdepth, s, hparenthesized, hend⟩ :=
    parenthesized_of_parse hpos (length_inArrow_le hk) rfl hnext ht h
  obtain ⟨r, u, hr, hcover, hsteps⟩ :=
    cover_of_parenthesized (upTo_faithful k) hpos hparenthesized
  refine ⟨hdepth, r, u, ?_⟩
  rcases hend with hend | ⟨hsemicolon, token, after, hlast, hend⟩
  · exact ⟨s, _, hr, hcover, hsteps, Nat.le_refl 3, by decide, hend⟩
  · have hsteps := hsteps.append (.single (s := ⟨token, after⟩) hsemicolon hlast)
    exact ⟨⟨token, after⟩, _, hr, hcover, hsteps, by decide, by decide, hend⟩

/-- An arrow function in front of its ending is a whole source. -/
lemma parse_of_cover (hnext : (Cursor.ofSource (inArrow params)).next = (.ok t, x))
    (ht : t.kind = .lParen) (hk : params.toList.length + 12 ≤ k) (hlimit : 1 < limit)
    (hr : x.next = (.ok r.lookahead, r.cursor))
    (hcover : CoverReads (.upTo k) ⟨limit, 2, false⟩ nodes r v)
    (hkind : v.lookahead.kind = .rParen) (hrest : v.cursor.rest = Closer.arrow.tail) :
    parse (inArrow params) limit = .ok (.program [emptyArrow nodes]) := by
  have hpos : 0 < k := by omega
  obtain ⟨s, hsteps, hbrace, hs⟩ := steps_arrow hkind hrest
  have hlast := Cursor.next_of_nil hs
  have hsteps := hsteps.append
    (.single (s := ⟨.endOfFile s.cursor.offset, s.cursor⟩) hbrace hlast)
  have hparenthesized := parenthesized_of_cover (upTo_faithful k) hpos ht hr hcover hsteps
  have hprimary : (Grammar.upTo k).primary ⟨limit, 2, false⟩ ⟨t, x⟩ =
      .ok (emptyArrow nodes, ⟨.endOfFile s.cursor.offset, s.cursor⟩) :=
    (primary_of_lParen ht).trans hparenthesized
  refine (parse_eq_ok_iff (Nat.lt_succ_of_le (length_inArrow_le hk))).2
    ⟨t, x, _, hnext, program_of_primary hpos hlimit ?_ hprimary rfl⟩
  rw [ht]
  rfl

/-- What is read of a function declaration that is a whole source. -/
lemma parse_inDeclaration_iff
    (hword : FunctionWord (.ofSource (inDeclaration params)) t name u x₁ x₂ x₃)
    (hk : params.toList.length + 17 ≤ k) :
    parse (inDeclaration params) limit = .ok (.program [emptyDeclaration nodes]) ↔
      0 < limit ∧ ∃ r v s : Reading, x₃.next = (.ok r.lookahead, r.cursor) ∧
        loop (Grammar.nextItem .rParen (Grammar.upTo (k + 1)).parameter) (k + 1) []
          ⟨limit, 1, false⟩ r = .ok (nodes, v) ∧
        Steps [.rParen, .lBrace, .rBrace] v s ∧ s.lookahead.kind = .endOfFile := by
  have hlength : (inDeclaration params).toList.length < k + 2 := by
    rw [toList_inDeclaration]
    simp [Closer.text, Closer.body]
    omega
  have hbound : 0 < (Grammar.upTo (k + 1)).bound := Nat.succ_pos k
  rw [parse_singleton_iff hlength hword.first (by simp [hword.word])]
  constructor
  · rintro ⟨s, hrun, hend⟩
    have hlimit : 0 < limit := (nested_eq_ok.1 hrun).1
    rw [statement_of_functionWord hlimit hword] at hrun
    obtain ⟨found, w, hparams, hrun⟩ := bind_eq_ok.1 hrun
    obtain ⟨body, z, hbody, hpure⟩ := bind_eq_ok.1 hrun
    cases hpure
    obtain ⟨-, r, v, hr, hloop, hkind, hlast⟩ := parameters_eq_ok_iff.1 hparams
    exact ⟨hlimit, r, v, s, hr, hloop, .cons hkind hlast ((block_empty_iff hbound).1 hbody), hend⟩
  · rintro ⟨hlimit, r, v, s, hr, hloop, hsteps, hend⟩
    refine ⟨s, ?_, hend⟩
    rw [statement_of_functionWord hlimit hword]
    change ((Grammar.upTo (k + 1)).parameters >>= _) ⟨limit, 1, false⟩ _ = _
    cases hsteps with
    | cons hkind hlast hsteps =>
      have hbody : (Grammar.upTo (k + 1)).functionBody ⟨limit, 1, false⟩ _ =
          .ok (.blockStatement [], s) := (block_empty_iff hbound).2 hsteps
      have hparams := parameters_eq_ok_iff (r := ⟨u, x₃⟩).2
        ⟨hword.opening, r, v, hr, hloop, hkind, hlast⟩
      rw [bind_of_ok hparams, bind_of_ok hbody]
      rfl

end Sources

/-- The last token of the parameters is a comma: what the declaration is read as, pieces of templates
included, ends in a comma, the closing parenthesis and the two braces of the body. -/
def CommaLast (params : String) (limit : Nat) (nodes : List Node) : Prop :=
  ∃ ts comma closing opening brace, comma.kind = .comma ∧
    ReadsAs (inDeclaration params) (ts ++ [comma, closing, opening, brace]) ∧
      Derives ⟨limit, 0, false⟩ (.row none .statement [emptyDeclaration nodes])
        (ts ++ [comma, closing, opening, brace])

/-- A source without templates is read as the tokens of its scan. -/
lemma ReadsAs.eq_scan {source : String} {ts : List Token} (h : ReadsAs source ts)
    (hplain : ∀ t ∈ (scanSource source).1, t.kind ≠ .backtick) : ts = (scanSource source).1 := by
  obtain ⟨token, after, last, hnext, hpass, hend⟩ := h
  have hscan : scanSource source = Reading.scan ⟨token, after⟩ := Cursor.scan_of_next hnext
  rw [hscan] at hplain ⊢
  rw [(hpass.scan hplain).1, Reading.scan_of_end hend, List.append_nil]

/-- Without templates a comma behind the last parameter is found in the scan. -/
lemma CommaLast.scan {params : String} {limit : Nat} {nodes : List Node}
    (h : CommaLast params limit nodes)
    (hplain : ∀ t ∈ (scanSource (inDeclaration params)).1, t.kind ≠ .backtick) :
    (scanSource (inDeclaration params)).1.reverse[3]?.map Token.kind = some .comma := by
  obtain ⟨ts, comma, closing, opening, brace, hcomma, hreads, -⟩ := h
  rw [← hreads.eq_scan hplain, List.reverse_append]
  simp [hcomma]

/-- The tokens of a declaration with an empty body are derived around those of its parameters. -/
lemma emptyDeclaration_derives {limit : Nat} {params : List Node} {t name u v b e : Token}
    {ts : List Token} (hlimit : 0 < limit) (ht : Is .kwFunction t) (hname : Is .identifier name)
    (htext : name.text = "f") (hu : Is .lParen u) (hv : Is .rParen v) (hb : Is .lBrace b)
    (he : Is .rBrace e)
    (h : Derives ⟨limit, 1, false⟩ (.row (some .comma) .parameter params) ts) :
    Derives ⟨limit, 0, false⟩ (.row none .statement [emptyDeclaration params])
      (t :: name :: u :: (ts ++ [v, b, e])) := by
  have hlist : Derives ⟨limit, 1, false⟩ (.list .round (some .comma) .parameter params)
      (u :: (ts ++ [v])) := .list hu h hv
  have hbody : Derives ⟨limit, 1, true⟩ (.list .curly none .statement []) (b :: ([] ++ [e])) :=
    .list hb .rowNil he
  have hdeclaration : Derives ⟨limit, 1, false⟩ (.one .statementKind (emptyDeclaration params))
      ([] ++ t :: ([name] ++ (u :: (ts ++ [v]) ++ (b :: ([] ++ [e]))))) := by
    unfold emptyDeclaration
    rw [← htext]
    have hcode := Derives.code hlist (.block hbody)
    exact .functionDeclaration .absent ht (.name hname) hcode
  have hrow := Derives.rowItem (.rowNil : Derives _ (.row none .statement []) [])
    (.statement (c := ⟨limit, 0, false⟩) hlimit hdeclaration)
  simpa using hrow

lemma commaLast_of_row {params : String} {nodes : List Node} {limit k : Nat} {t name u : Token}
    {x₁ x₂ x₃ : Cursor} {r w v s : Reading}
    (hword : FunctionWord (.ofSource (inDeclaration params)) t name u x₁ x₂ x₃)
    (h₃ : x₃.next = (.ok r.lookahead, r.cursor)) (hlimit : 0 < limit)
    (hrow : CommaRow (Grammar.upTo k).parameter ⟨limit, 1, false⟩ r nodes w)
    (hcomma : w.lookahead.kind = .comma) (hv : w.cursor.next = (.ok v.lookahead, v.cursor))
    (hsteps : Steps [.rParen, .lBrace, .rBrace] v s) (hend : s.lookahead.kind = .endOfFile) :
    CommaLast params limit nodes := by
  have hlexical := Cursor.lexical_of_next h₃
  obtain ⟨ts, hpass, hderives⟩ :=
    hrow.derives (parameter_yields (upTo_faithful k)) hlexical
  have hparams : Derives ⟨limit, 1, false⟩ (.row (some .comma) .parameter nodes)
      (ts ++ [w.lookahead]) :=
    (hderives [] [] .rowNil).rowSeparator ((hpass.lexical hlexical).is hcomma rfl)
  have hpast : Passes ⟨t, x₁⟩ [t] ⟨name, x₂⟩ := .next (by simp [hword.word]) hword.second
  have hnamed : Passes ⟨name, x₂⟩ [name] ⟨u, x₃⟩ := .next (by simp [hword.named]) hword.third
  have hopened : Passes ⟨u, x₃⟩ [u] r := .next (by simp [hword.opening]) h₃
  have hfront : Passes ⟨t, x₁⟩ ([t] ++ ([name] ++ ([u] ++ ts))) w :=
    hpast.trans (hnamed.trans (hopened.trans hpass))
  cases hsteps with
  | @cons _ _ b _ _ hclosing hb hsteps =>
    cases hsteps with
    | @cons _ _ e _ _ hopening he hsteps =>
      cases hsteps with
      | @cons _ _ l _ _ hbrace hl hsteps =>
        cases hsteps
        have hbehind : Passes w [w.lookahead] v := .next (by simp [hcomma]) hv
        have hclosed : Passes v [v.lookahead] b := .next (by simp [hclosing]) hb
        have hbody : Passes b [b.lookahead] e := .next (by simp [hopening]) he
        have hempty : Passes e [e.lookahead] _ := .next (by simp [hbrace]) hl
        have hback := hbehind.trans (hclosed.trans (hbody.trans hempty))
        have hdeclaration := emptyDeclaration_derives hlimit
          ((Cursor.lexical_of_next hword.first).is hword.word rfl)
          ((Cursor.lexical_of_next hword.second).is hword.named rfl) hword.text
          ((Cursor.lexical_of_next hword.third).is hword.opening rfl)
          ((Cursor.lexical_of_next hv).is hclosing rfl) ((Cursor.lexical_of_next hb).is hopening rfl)
          ((Cursor.lexical_of_next he).is hbrace rfl) hparams
        exact ⟨t :: name :: u :: ts, w.lookahead, v.lookahead, b.lookahead, e.lookahead, hcomma,
          ⟨t, x₁, s, hword.first, hfront.trans hback, hend⟩, by simpa using hdeclaration⟩

/-! ### The same parameters -/

section Agree

variable {params : String} {nodes : List Node} {limit k : Nat} {z : Closer} {x : Cursor}
  {r r' u s : Reading}

lemma exists_inDeclaration (params : String) :
    ∃ t name u x₁ x₂ x₃,
      FunctionWord (.ofSource (inDeclaration params)) t name u x₁ x₂ x₃ ∧
        x₃.rest = '\n' :: (params.toList ++ Closer.body.text) :=
  exists_functionWord (x := .ofSource (inDeclaration params)) _ (toList_inDeclaration params)

lemma length_behind_first (hx : x.rest = '\n' :: (params.toList ++ z.text))
    (hr : x.next = (.ok r.lookahead, r.cursor)) :
    r.cursor.rest.length ≤ params.toList.length + z.tail.length + 3 := by
  have hle := (Cursor.suffix_of_next hr).length_le
  simp [hx, Closer.text] at hle
  omega

/-- No word stands on two lines. -/
lemma not_infix_behind_first {word : List Char} (hline : '\n' ∉ word) (hne : ¬word <:+: [])
    (hz : ¬word <:+: z.bracket :: z.tail) (hplain : ¬word <:+: params.toList)
    (hx : x.rest = '\n' :: (params.toList ++ z.text))
    (hr : x.next = (.ok r.lookahead, r.cursor)) : ¬word <:+: r.cursor.rest := by
  intro hword
  have hsuffix := Cursor.suffix_of_next hr
  rw [hx] at hsuffix
  have hwhole : word <:+: [] ++ '\n' :: (params.toList ++ z.text) := hword.trans hsuffix.isInfix
  rcases infix_of_append_cons hline hwhole with hblank | hlines
  · exact hne hblank
  rcases infix_of_append_cons hline hlines with hword | htail
  · exact hplain hword
  · exact hz htail

/-- What stands between the parentheses in front of an arrow is read as parameters. -/
lemma parameters_of_cover (hlength : r.cursor.rest.length + 2 < k) (hr : r.lookahead.Lexical)
    (hu : u.lookahead.kind = .rParen)
    (h : CoverReads (.upTo (k + 1)) ⟨limit, 2, false⟩ nodes r u) :
    loop (Grammar.nextItem .rParen (Grammar.upTo (k + 1)).parameter) (k + 1) []
      ⟨limit, 1, false⟩ r = .ok (nodes, u) := by
  cases h with
  | none hclose hparams hs =>
    rw [hparams, hs]
    exact itemsLoop_end hclose
  | some hopen hn hparams =>
    change (Grammar.upTo k).sequence _ _ = _ at hn
    have hroom : (⟨limit, 2, false⟩ : Context).FitsIn ⟨limit, 1, false⟩ :=
      ⟨Nat.add_le_add_left (Nat.le_succ 1) limit, rfl⟩
    exact parameters_of_sequence hlength (by omega) hroom hr hu hparams hn

/-- Parameters are read in an arrow function as they are in a declaration. -/
lemma exists_declared (hk : r.cursor.rest.length + 2 < k)
    (hbeside : Closer.Beside Closer.arrow Closer.body r r') {kinds : List Kind}
    (hsteps : Steps (.rParen :: kinds) u s) (hkinds : 3 ≤ kinds.length)
    (hfree : .rParen ∉ kinds ∧ .endOfFile ∉ kinds) (hend : s.lookahead.kind = .endOfFile)
    (hr : r.lookahead.Lexical)
    (h : CoverReads (.upTo (k + 1)) ⟨limit, 2, false⟩ nodes r u) :
    ∃ u', loop (Grammar.nextItem .rParen (Grammar.upTo (k + 1)).parameter) (k + 1) []
        ⟨limit, 1, false⟩ r' = .ok (nodes, u') ∧
      u'.lookahead.kind = .rParen ∧ u'.cursor.rest = Closer.body.tail := by
  have hmade : Made (Grammar.upTo (k + 1)) none ⟨false, 1, false, false⟩
      (loop (Grammar.nextItem .rParen (Grammar.upTo (k + 1)).parameter) (k + 1) []) _ :=
    Made.loop _ _ fun items => Made.nextItem_made .rParen items rfl Made.parameter_made
  have htwin := Closer.made_twin ending_arrow ending_body
    (Closer.run_twin ending_arrow ending_body (k + 1)) (Grammar.run_pays (k + 1)) hmade (by simp)
    ⟨limit, 1, false⟩ r r' hbeside (by simp)
  have hkind : u.lookahead.kind = .rParen := by
    cases hsteps with
    | cons hkind => exact hkind
  rw [parameters_of_cover hk hr hkind h] at htwin
  exact htwin.stop ending_arrow hsteps hkinds hfree hend

/-- The parameters of an arrow function are read in a declaration. -/
lemma declaration_of_arrow (h : parse (inArrow params) limit = .ok (.program [emptyArrow nodes])) :
    parse (inDeclaration params) limit = .ok (.program [emptyDeclaration nodes]) := by
  obtain ⟨t, x, hnext, ht, hx⟩ := next_inArrow params
  obtain ⟨t', name, u', x₁, x₂, x₃, hword, hx₃⟩ := exists_inDeclaration params
  obtain ⟨k, hk⟩ : ∃ k, params.toList.length + 17 = k := ⟨_, rfl⟩
  obtain ⟨hlimit, r, u, s, kinds, hr, hcover, hsteps, hkinds, hfree, hend⟩ :=
    cover_of_parse (k := k + 1) hnext ht (by omega) h
  rw [parse_inDeclaration_iff hword (Nat.le_of_eq hk)]
  refine ⟨Nat.zero_lt_of_lt hlimit, ?_⟩
  -- the same token is read behind both opening parentheses
  obtain ⟨r', hr', hbeside⟩ := Closer.exists_beside (x := ⟨0, '\n' :: params.toList⟩)
    ending_arrow ending_body hx hx₃ hr
  have hlength := length_behind_first hx hr
  have htail : Closer.arrow.tail.length = 6 := rfl
  obtain ⟨u', hloop, hkind, hrest⟩ := exists_declared (by omega) hbeside hsteps hkinds hfree hend
    (Cursor.lexical_of_next hr) hcover
  obtain ⟨s', hsteps', hbrace, hs'⟩ := steps_body hkind hrest
  refine ⟨r', u', ⟨.endOfFile s'.cursor.offset, s'.cursor⟩, hr', hloop, ?_, rfl⟩
  exact hsteps'.append (.cons hbrace (Cursor.next_of_nil hs') (.nil _))

/-- Parameters of a declaration stand between the parentheses in front of an arrow too, or end in a
comma. -/
lemma exists_covered (hlimit : 0 < limit) (hk : r.cursor.rest.length + 2 < k)
    (hbeside : Closer.Beside Closer.body Closer.arrow r r')
    (hplain : ¬"yield".toList <:+: r.cursor.rest)
    (hsteps : Steps [.rParen, .lBrace, .rBrace] u s) (hend : s.lookahead.kind = .endOfFile)
    (hr : r.lookahead.Lexical)
    (h : loop (Grammar.nextItem .rParen (Grammar.upTo (k + 1)).parameter) (k + 1) []
      ⟨limit, 1, false⟩ r = .ok (nodes, u)) :
    (∃ u', u'.lookahead.kind = .rParen ∧ u'.cursor.rest = Closer.arrow.tail ∧
        CoverReads (.upTo (k + 1)) ⟨limit + 2, 2, false⟩ nodes r' u') ∨
      ∃ t, CommaRow (Grammar.upTo (k + 1)).parameter ⟨limit, 1, false⟩ r nodes t ∧
        t.lookahead.kind = .comma ∧ t.cursor.next = (.ok u.lookahead, u.cursor) := by
  by_cases hclose : r.lookahead.kind = .rParen
  · rw [itemsLoop_end hclose] at h
    cases h
    have htwin : Closer.Twins Closer.body Closer.arrow 2 3 (.ok ((), r)) (.ok ((), r')) :=
      .ok hbeside
    obtain ⟨u', hu', hkind, hrest⟩ :=
      htwin.stop ending_body hsteps (Nat.le_refl _) (by decide) hend
    cases hu'
    exact Or.inl ⟨_, hkind, hrest, .none hkind rfl rfl⟩
  · have hroom : (⟨limit, 1, false⟩ : Context).FitsIn (⟨limit + 2, 2, false⟩ : Context).deeper :=
      ⟨by simp only [Context.deeper]; omega, rfl⟩
    refine (sequence_of_parameters (j := k) (by omega) hk hroom
      (show 2 < limit + 2 by omega) hr hclose hplain h).imp_left ?_
    rintro ⟨n, hn, hsequence⟩
    have htwin := Closer.run_twin ending_body ending_arrow (k + 1) .sequence
      ⟨limit + 2, 2, false⟩ r r' hbeside (by simp)
    change Closer.Twins _ _ _ _ ((Grammar.upTo k).sequence _ _) _ at htwin
    rw [hsequence] at htwin
    obtain ⟨u', hu', hkind, hrest⟩ :=
      htwin.stop ending_body hsteps (Nat.le_refl _) (by decide) hend
    refine ⟨u', hkind, hrest, .some ?_ hu' hn⟩
    rw [← hbeside.kind_eq]
    exact hclose

/-- The parameters of a declaration are read in an arrow function with two levels more. -/
lemma arrow_of_declaration
    (h : parse (inDeclaration params) limit = .ok (.program [emptyDeclaration nodes]))
    (hplain : ¬"yield".toList <:+: params.toList) (hlast : ¬CommaLast params limit nodes) :
    parse (inArrow params) (limit + 2) = .ok (.program [emptyArrow nodes]) := by
  obtain ⟨t, x, hnext, ht, hx⟩ := next_inArrow params
  obtain ⟨t', name, u', x₁, x₂, x₃, hword, hx₃⟩ := exists_inDeclaration params
  obtain ⟨k, hk⟩ : ∃ k, params.toList.length + 17 = k := ⟨_, rfl⟩
  obtain ⟨hlimit, r, v, s, hr, hloop, hsteps, hend⟩ :=
    (parse_inDeclaration_iff hword (Nat.le_of_eq hk)).1 h
  obtain ⟨r', hr', hbeside⟩ := Closer.exists_beside (x := ⟨0, '\n' :: params.toList⟩)
    ending_body ending_arrow hx₃ hx hr
  have hlength := length_behind_first hx₃ hr
  have htail : Closer.body.tail.length = 3 := rfl
  have hyield : ¬"yield".toList <:+: r.cursor.rest :=
    not_infix_behind_first (by decide) (by decide) (by decide) hplain hx₃ hr
  rcases exists_covered hlimit (by omega) hbeside hyield hsteps hend (Cursor.lexical_of_next hr)
    hloop with ⟨v', hkind, hrest, hcover⟩ | ⟨last, hrow, hcomma, hv⟩
  · exact parse_of_cover hnext ht (by omega) (by omega) hr' hcover hkind hrest
  · exact absurd (commaLast_of_row hword hr hlimit hrow hcomma hv hsteps hend) hlast

end Agree

/-- Parameters of an arrow function are read in the same way in a declaration. The converse leaves out
what only a declaration takes, a default that is a `yield` and a comma behind the last parameter, and
it takes two levels of nesting more. -/
theorem arrow_params_agree (params : String) (limit : Nat) (nodes : List Node) :
    (parse (inArrow params) limit = .ok (.program [emptyArrow nodes]) →
      parse (inDeclaration params) limit = .ok (.program [emptyDeclaration nodes])) ∧
    (parse (inDeclaration params) limit = .ok (.program [emptyDeclaration nodes]) →
      ¬"yield".toList <:+: params.toList → ¬CommaLast params limit nodes →
        parse (inArrow params) (limit + 2) = .ok (.program [emptyArrow nodes])) :=
  ⟨declaration_of_arrow, arrow_of_declaration⟩

lemma exists_arrow {source : String} {limit : Nat} {types : List String}
    (h : (parse source limit).toOption.any (fun tree => match tree with
      | .program [.arrowFunctionExpression false false nodes (.blockStatement [])] =>
        nodes.map Node.typeName == types
      | _ => false) = true) :
    ∃ nodes, parse source limit = .ok (.program [emptyArrow nodes]) ∧
      nodes.map Node.typeName = types := by
  obtain ⟨tree, hparse, htest⟩ := exists_ok_of_test h
  split at htest
  next nodes => exact ⟨nodes, hparse, beq_iff_eq.1 htest⟩
  next => cases htest

theorem list_as_default :
    ∃ nodes, nodes.map Node.typeName = ["Identifier", "AssignmentPattern"] ∧
      parse (inArrow "a, b = [a, c]") 6 = .ok (.program [emptyArrow nodes]) ∧
      parse (inDeclaration "a, b = [a, c]") 6 = .ok (.program [emptyDeclaration nodes]) ∧
      parse (inArrow "a, b = [a, c]") 8 = .ok (.program [emptyArrow nodes]) := by
  obtain ⟨nodes, harrow, htypes⟩ : ∃ nodes, parse (inArrow "a, b = [a, c]") 6 =
      .ok (.program [emptyArrow nodes]) ∧
        nodes.map Node.typeName = ["Identifier", "AssignmentPattern"] :=
    exists_arrow (by decide +kernel)
  have hdeclaration := (arrow_params_agree _ 6 nodes).1 harrow
  have hlast : ¬CommaLast "a, b = [a, c]" 6 nodes := by
    intro hlast
    have hcomma := hlast.scan (by decide +kernel)
    have hbracket : (scanSource (inDeclaration "a, b = [a, c]")).1.reverse[3]?.map Token.kind =
        some .rBracket := by
      decide +kernel
    rw [hbracket] at hcomma
    cases hcomma
  exact ⟨nodes, htypes, harrow, hdeclaration,
    (arrow_params_agree _ 6 nodes).2 hdeclaration (by decide) hlast⟩

end ScriptTree
