import ScriptTree.Proofs.Ladder
import ScriptTree.Proofs.Takes
import ScriptTree.Proofs.Texts
import Mathlib.Tactic.IntervalCases

/-!
# Operator expressions are read back

What is written down of a tree on the ladder is read as that tree again. The reading is followed
from the tightest level outwards: an expression is read at its own level, and at every looser level
because the lexeme behind it does not continue it there. On the levels that group to the left, and
for accesses and calls behind an expression, a loop takes up one part after the other; there the
statement is about the loop with the expression read so far.
-/

namespace ScriptTree

open ScriptTree.Parser

/-- The lexemes of a tree. -/
def Node.lexemes (e : Node) : List (Kind × String) :=
  e.written.map lexemeOf

/-- The lexemes of expressions with commas between them. -/
def itemLexemes (items : List Node) : List (Kind × String) :=
  (Node.writtenItems items).map lexemeOf

/-- The level at which a token of a kind continues an expression in front of it. -/
def Kind.grip? : Kind → Option Nat
  | .comma => some 0
  | .assignment | .complexAssignment => some 1
  | .logicalOrNullish => some 2
  | .logicalAnd => some 3
  | .bitwiseOr => some 4
  | .bitwiseXor => some 5
  | .bitwiseAnd => some 6
  | .equality => some 7
  | .comparison => some 8
  | .additive => some 9
  | .multiplicative => some 10
  | .power => some 11
  | .incrementDecrement => some 13
  | .dot | .lBracket | .questionDot | .lParen => some 14
  | .arrow => some 15
  | _ => none

/-- An expression of a level comes to its end in front of these lexemes. -/
def Ends (level : Nat) (ls : List (Kind × String)) : Prop :=
  ∀ k, (headKind ls).grip? = some k → k < level

lemma Ends.mono {i j : Nat} {ls : List (Kind × String)} (h : Ends i ls) (hij : i ≤ j) : Ends j ls :=
  fun k hk => Nat.lt_of_lt_of_le (h k hk) hij

lemma Ends.ne {level k : Nat} {ls : List (Kind × String)} {kind : Kind} (h : Ends level ls)
    (hkind : kind.grip? = some k) (hk : level ≤ k) : headKind ls ≠ kind := by
  rintro rfl
  have hlt := h k hkind
  omega

lemma ends_cons {level k : Nat} {ls : List (Kind × String)} {kind : Kind} {text : String}
    (hkind : kind.grip? = some k) (hk : k < level) : Ends level ((kind, text) :: ls) := by
  intro j hj
  rw [headKind_cons, hkind, Option.some.injEq] at hj
  omega

lemma ends_of_grip?_eq_none {level : Nat} {ls : List (Kind × String)}
    (h : (headKind ls).grip? = none) : Ends level ls := by
  intro k hk
  rw [h] at hk
  cases hk

lemma headKind_append {ls : List (Kind × String)} (h : headKind ls ≠ .endOfFile)
    (rest : List (Kind × String)) : headKind (ls ++ rest) = headKind ls := by
  cases ls with
  | nil => exact absurd rfl h
  | cons lexeme ls => rfl

lemma lexemeOf_lParen : lexemeOf "(" = (.lParen, "(") :=
  lexemeOf_of_mem_spellings List.mem_cons_self

lemma lexemeOf_rParen : lexemeOf ")" = (.rParen, ")") :=
  lexemeOf_of_mem_spellings List.mem_cons_self

lemma lexemeOf_lBracket : lexemeOf "[" = (.lBracket, "[") :=
  lexemeOf_of_mem_spellings List.mem_cons_self

lemma lexemeOf_rBracket : lexemeOf "]" = (.rBracket, "]") :=
  lexemeOf_of_mem_spellings List.mem_cons_self

lemma lexemeOf_comma : lexemeOf "," = (.comma, ",") :=
  lexemeOf_of_mem_spellings List.mem_cons_self

lemma lexemeOf_hash : lexemeOf "#" = (.hash, "#") :=
  lexemeOf_of_mem_spellings List.mem_cons_self

lemma kindOf_dot : kindOf "." = .dot :=
  kindOf_of_mem_spellings List.mem_cons_self

lemma kindOf_questionDot : kindOf "?." = .questionDot :=
  kindOf_of_mem_spellings List.mem_cons_self

lemma kindOf_this : kindOf "this" = .kwThis :=
  kindOf_of_mem_spellings List.mem_cons_self

lemma kindOf_null : kindOf "null" = .null :=
  kindOf_of_mem_spellings List.mem_cons_self

lemma kindOf_undefined : kindOf "undefined" = .undefined :=
  kindOf_of_mem_spellings List.mem_cons_self

lemma kindOf_boolean (value : Bool) : kindOf (if value then "true" else "false") = .boolean := by
  cases value <;> exact kindOf_of_mem_spellings (by decide)

lemma kindOf_await : kindOf "await" = .kwAwait :=
  kindOf_of_mem_spellings List.mem_cons_self

lemma kindOf_update (operator : UpdateOperator) : kindOf operator.text = .incrementDecrement := by
  cases operator <;> exact kindOf_of_mem_spellings (by decide)

lemma kindOf_unary (operator : UnaryOperator) :
    kindOf operator.text = .bang ∨ kindOf operator.text = .additive := by
  cases operator with
  | not => exact Or.inl (kindOf_of_mem_spellings (by decide))
  | plus => exact Or.inr (kindOf_of_mem_spellings (by decide))
  | minus => exact Or.inr (kindOf_of_mem_spellings (by decide))

/-- The kinds that an expression without operators in front of it begins with. -/
def Kind.startsPrimary : Kind → Bool
  | .identifier | .kwThis | .null | .undefined | .boolean | .lParen | .lBracket => true
  | _ => false

/-- The kinds that an operator expression begins with. -/
def Kind.startsOperand : Kind → Bool
  | .bang | .additive | .incrementDecrement | .kwAwait => true
  | kind => kind.startsPrimary

lemma Kind.startsOperand_of_startsPrimary {kind : Kind} (h : kind.startsPrimary = true) :
    kind.startsOperand = true := by
  cases kind <;> first | rfl | exact h

lemma Node.level_of_isAssignmentTarget {e : Node} (h : e.isAssignmentTarget = true) :
    e.level = 14 := by
  cases e <;> first | rfl | cases h

/-- What an expression begins with, by its level. -/
def Node.Begins (e : Node) : Prop :=
  (headKind e.lexemes).startsOperand = true ∧
    (13 ≤ e.level → (headKind e.lexemes).startsPrimary = true)

lemma headKind_lexemes_append {e : Node} (h : (headKind e.lexemes).startsOperand = true)
    (rest : List (Kind × String)) : headKind (e.lexemes ++ rest) = headKind e.lexemes := by
  apply headKind_append
  intro hend
  rw [hend] at h
  cases h

lemma begins_of_left {e left : Node} {texts : List String}
    (hwritten : e.written = left.written ++ texts) (h : left.Begins)
    (hlevel : e.level < 13 ∨ left.level = 14) : e.Begins := by
  have hlexemes : e.lexemes = left.lexemes ++ texts.map lexemeOf := by
    rw [Node.lexemes, hwritten, List.map_append]
    rfl
  unfold Node.Begins
  rw [hlexemes, headKind_lexemes_append h.1]
  exact ⟨h.1, fun he => h.2 (by omega)⟩

lemma begins_of_primary {e : Node} {kind : Kind} {text : String} {texts : List String}
    (hwritten : e.written = text :: texts) (htext : kindOf text = kind)
    (hkind : kind.startsPrimary = true) : e.Begins := by
  have hhead : headKind e.lexemes = kind := by
    rw [Node.lexemes, hwritten, ← htext]
    rfl
  unfold Node.Begins
  rw [hhead]
  exact ⟨Kind.startsOperand_of_startsPrimary hkind, fun _ => hkind⟩

lemma begins_of_operator {e : Node} {text : String} {texts : List String}
    (hwritten : e.written = text :: texts) (hkind : (kindOf text).startsOperand = true)
    (hlevel : e.level = 12) : e.Begins := by
  have hhead : headKind e.lexemes = kindOf text := by
    rw [Node.lexemes, hwritten]
    rfl
  unfold Node.Begins
  rw [hhead]
  exact ⟨hkind, fun he => by omega⟩

/-! ### Rungs -/

/-- The parser that reads expressions of a level and of all tighter ones, from sequences up to
operands. -/
def rung (g : Grammar) : Nat → Parser Node
  | 0 => g.sequence
  | 1 => g.element
  | 12 => g.unary
  | level => (OperatorLevel.all.drop (level - 2)).foldr g.leftGrouped g.power

/-- The operators of a level that groups to the left. -/
def rungLevel (level : Nat) : OperatorLevel :=
  OperatorLevel.all.getD (level - 2) (.binary .multiplicative)

lemma rung_eq (g : Grammar) {k : Nat} (h2 : 2 ≤ k) (h10 : k ≤ 10) :
    rung g k = g.leftGrouped (rungLevel k) (rung g (k + 1)) := by
  interval_cases k <;> rfl

lemma rungLevel_grip? {k : Nat} (h2 : 2 ≤ k) (h10 : k ≤ 10) :
    (rungLevel k).kind.grip? = some k := by
  interval_cases k <;> rfl

/-- There are levels of the grammar and levels of nesting left for that many lexemes. -/
structure Fits (n : Nat) (c : Context) (size : Nat) : Prop where
  levels : size ≤ n
  depth : c.depth + size ≤ c.limit

/-- A tree is read at a level wherever its lexemes stand in front of some that do not continue it. -/
def ReadAt (level : Nat) (e : Node) : Prop :=
  ∀ n c rest, Fits n c e.written.length → Ends level rest →
    Takes (rung (Grammar.upTo n) level) c (e.lexemes ++ rest) e rest

/-- A tree is taken up by the loop of a level that groups to the left: the reading goes on in that
loop, with this tree as what stands to the left. -/
def Grouped (k : Nat) (e : Node) : Prop :=
  ∀ n c rest, Fits n c e.written.length → Ends (k + 1) rest →
    ∃ b, n < b + e.written.length ∧ ∀ v rest',
      Takes (loop (Grammar.nextOperand (rungLevel k) (rung (Grammar.upTo n) (k + 1))) b e) c rest
        v rest' →
      Takes (rung (Grammar.upTo n) k) c (e.lexemes ++ rest) v rest'

lemma Node.Begins.length_pos {e : Node} (h : e.Begins) : 0 < e.written.length := by
  apply List.length_pos_of_ne_nil
  intro hnil
  have hstart := h.1
  rw [Node.lexemes, hnil] at hstart
  cases hstart

lemma Node.Begins.headKind_ne {e : Node} (h : e.Begins) {kind : Kind}
    (hkind : kind.startsOperand = false) (rest : List (Kind × String)) :
    headKind (e.lexemes ++ rest) ≠ kind := by
  rw [headKind_lexemes_append h.1]
  rintro rfl
  rw [h.1] at hkind
  cases hkind

lemma grouped_of_readAt {k : Nat} {e : Node} (h2 : 2 ≤ k) (h10 : k ≤ 10) (hbegins : e.Begins)
    (h : ReadAt (k + 1) e) : Grouped k e := by
  intro n c rest hfits hends
  have hpos := hbegins.length_pos
  refine ⟨n, by omega, fun v rest' hloop => ?_⟩
  rw [rung_eq _ h2 h10]
  exact (h n c rest hfits hends).bind hloop

lemma readAt_of_grouped {k : Nat} {e : Node} (h2 : 2 ≤ k) (h10 : k ≤ 10) (h : Grouped k e) :
    ReadAt k e := by
  intro n c rest hfits hends
  have hlevels := hfits.levels
  obtain ⟨b, hb, hloop⟩ := h n c rest hfits (hends.mono (Nat.le_succ k))
  obtain ⟨b, rfl⟩ : ∃ d, b = d + 1 := ⟨b - 1, by omega⟩
  apply hloop
  apply Takes.loop_done
  exact Takes.sees_neg (hends.ne (rungLevel_grip? h2 h10) (Nat.le_refl k)) (Takes.pure _)

lemma grouped_join {k : Nat} {left right e : Node} {text : String} {join : Node → Node → Node}
    (h2 : 2 ≤ k) (h10 : k ≤ 10) (hkind : kindOf text = (rungLevel k).kind)
    (hjoin : (rungLevel k).join? text = some join) (he : join left right = e)
    (hwritten : e.written = left.written ++ text :: right.written) (hleft : Grouped k left)
    (hright : ReadAt (k + 1) right) : Grouped k e := by
  intro n c rest hfits hends
  have hlevels := hfits.levels
  have hdepth := hfits.depth
  have hlength : e.written.length = left.written.length + (right.written.length + 1) := by
    rw [hwritten, List.length_append, List.length_cons]
  have hlexemes : e.lexemes ++ rest =
      left.lexemes ++ ((rungLevel k).kind, text) :: (right.lexemes ++ rest) := by
    rw [Node.lexemes, hwritten, ← hkind]
    simp [Node.lexemes, lexemeOf]
  obtain ⟨b, hb, hloop⟩ := hleft n c (((rungLevel k).kind, text) :: (right.lexemes ++ rest))
    ⟨by omega, by omega⟩ (ends_cons (rungLevel_grip? h2 h10) (Nat.lt_succ_self k))
  obtain ⟨b, rfl⟩ : ∃ d, b = d + 1 := ⟨b - 1, by omega⟩
  refine ⟨b, by omega, fun v rest' hrest => ?_⟩
  rw [hlexemes]
  apply hloop
  have hturn : Takes (Grammar.nextOperand (rungLevel k) (rung (Grammar.upTo n) (k + 1)) left) c
      (((rungLevel k).kind, text) :: (right.lexemes ++ rest)) (.again e) rest := by
    refine Takes.sees_pos rfl (Takes.advance_bind fun t ht => ?_)
    have htext : t.text = text := congrArg Prod.snd ht
    rw [htext]
    refine Takes.spelled_bind hjoin ?_
    rw [← he]
    exact (hright n c rest ⟨by omega, by omega⟩ hends).bind (Takes.pure _)
  exact Takes.loop_again hturn hrest

/-- Reading at a level is reading at the next tighter one and finding no more behind it. -/
lemma readAt_pred {m : Nat} {e : Node} (hbegins : e.Begins) (hm : m ≤ 11) (h : ReadAt (m + 1) e) :
    ReadAt m e := by
  by_cases hmiddle : 2 ≤ m ∧ m ≤ 10
  · exact readAt_of_grouped hmiddle.1 hmiddle.2
      (grouped_of_readAt hmiddle.1 hmiddle.2 hbegins h)
  intro n c rest hfits hends
  have hread := h n c rest hfits (hends.mono (Nat.le_succ m))
  obtain rfl | rfl | rfl : m = 0 ∨ m = 1 ∨ m = 11 := by omega
  · exact hread.bind (Takes.sees_neg (hends.ne rfl (Nat.le_refl 0)) (Takes.pure _))
  · refine Takes.sees_neg (hbegins.headKind_ne rfl rest) ?_
    refine hread.bind (Takes.lookahead_bind fun t ht => ?_)
    have hassignment : headKind rest ≠ .assignment := hends.ne rfl (Nat.le_refl 1)
    have hcomplex : headKind rest ≠ .complexAssignment := hends.ne rfl (Nat.le_refl 1)
    rw [ht, if_neg (by simp [hassignment, hcomplex])]
    exact Takes.pure _
  · exact hread.bind (Takes.sees_neg (hends.ne rfl (Nat.le_refl 11)) (Takes.pure _))

/-- What is read at one level is read at all looser ones. -/
lemma readAt_of_le {m level : Nat} {e : Node} (hbegins : e.Begins) (hm : m ≤ 12)
    (h : ReadAt m e) (hle : level ≤ m) : ReadAt level e := by
  induction m with
  | zero =>
    obtain rfl : level = 0 := by omega
    exact h
  | succ m ih =>
    by_cases heq : level = m + 1
    · rw [heq]
      exact h
    · exact ih (by omega) (readAt_pred hbegins (by omega) h) (by omega)

/-- A tree is taken up by the loop over what stands behind an expression. -/
def Chained (e : Node) : Prop :=
  ∀ n c rest, e.written.length ≤ n → c.depth + e.written.length ≤ c.limit + 1 →
    headKind rest ≠ .arrow →
    ∃ b, n < b + e.written.length ∧ ∀ v rest',
      Takes (loop ((Grammar.upTo n).suffix true) b e) c rest v rest' →
      Takes ((Grammar.upTo n).base >>= (Grammar.upTo n).suffixes true) c (e.lexemes ++ rest) v rest'

/-- What is known of a tree that is read back. -/
structure Readable (e : Node) : Prop where
  begins : e.Begins
  read : ∀ level ≤ 12, level ≤ e.level → ReadAt level e
  grouped : ∀ k, 2 ≤ k → k ≤ 10 → k ≤ e.level → Grouped k e
  chained : e.level = 14 → Chained e

/-- It is enough to read an expression at its own level. -/
lemma readable_of_readAt {e : Node} (hbegins : e.Begins) {m : Nat} (hm : m ≤ 12)
    (h : ReadAt m e) (hlevel : e.level = m ∨ m = 12) (hgrouped : 2 ≤ m → m ≤ 10 → Grouped m e)
    (hchained : e.level = 14 → Chained e) : Readable e := by
  have hread : ∀ level ≤ m, ReadAt level e := fun level hle => readAt_of_le hbegins hm h hle
  refine ⟨hbegins, fun level hl hle => hread level (by omega), fun k h2 h10 hk => ?_, hchained⟩
  by_cases hkm : k = m
  · rw [hkm]
    exact hgrouped (by omega) (by omega)
  · exact grouped_of_readAt h2 h10 hbegins (hread (k + 1) (by omega))

/-- The lexemes of an expression that is followed through its loop end where no lexeme continues
it. -/
lemma Chained.takes {e : Node} (h : Chained e) {n : Nat} {c : Context}
    {rest : List (Kind × String)} (hlevels : e.written.length ≤ n)
    (hdepth : c.depth + e.written.length ≤ c.limit + 1) (hends : Ends 14 rest) :
    Takes ((Grammar.upTo n).base >>= (Grammar.upTo n).suffixes true) c (e.lexemes ++ rest) e rest := by
  have harrow : headKind rest ≠ .arrow := hends.ne rfl (by omega)
  obtain ⟨b, hb, hloop⟩ := h n c rest hlevels hdepth harrow
  obtain ⟨b, rfl⟩ : ∃ d, b = d + 1 := ⟨b - 1, by omega⟩
  apply hloop
  apply Takes.loop_done
  refine Takes.lookahead_bind fun t ht => ?_
  have hne : ∀ {kind : Kind}, kind.grip? = some 14 → t.kind ≠ kind := by
    intro kind hkind
    rw [ht]
    exact hends.ne hkind (Nat.le_refl 14)
  split
  next hkind => exact absurd hkind (hne rfl)
  next hkind => exact absurd hkind (hne rfl)
  next hkind _ => exact absurd hkind (hne rfl)
  next hkind _ => exact absurd hkind (hne rfl)
  next => exact Takes.pure _

/-- In front of an expression without operators, an operand goes on to it. -/
lemma operand_takes {g : Grammar} {c : Context} {ls rest : List (Kind × String)} {v : Node}
    (hstart : (headKind ls).startsPrimary = true) (h : Takes g.suffixed c ls v rest) :
    Takes g.operand c ls v rest := by
  refine Takes.lookahead_bind fun t ht => ?_
  rw [← ht] at hstart
  split
  next hkind => rw [hkind] at hstart; cases hstart
  next hkind => rw [hkind] at hstart; cases hstart
  next hkind => rw [hkind] at hstart; cases hstart
  next hkind => rw [hkind] at hstart; cases hstart
  next => exact h

lemma readable_of_chained {e : Node} (hbegins : e.Begins) (hlevel : e.level = 14)
    (h : Chained e) : Readable e := by
  refine readable_of_readAt hbegins (Nat.le_refl 12) ?_ (Or.inr rfl) (by omega) fun _ => h
  intro n c rest hfits hends
  have hpos := hbegins.length_pos
  have hdepth := hfits.depth
  have hstart := hbegins.2 (by omega)
  refine Takes.nested (by omega) (operand_takes ?_ ?_)
  · rw [headKind_lexemes_append hbegins.1]
    exact hstart
  · unfold Grammar.suffixed
    rw [← bind_assoc]
    refine (h.takes hfits.levels ?_ (hends.mono (by omega))).bind ?_
    · change c.depth + 1 + e.written.length ≤ c.limit + 1
      omega
    · exact Takes.sees_neg (hends.ne rfl (by omega)) (Takes.pure _)

lemma chained_of_primary {e : Node} (hbegins : e.Begins)
    (h : ∀ n c rest, e.written.length ≤ n → c.depth + e.written.length ≤ c.limit + 1 →
      headKind rest ≠ .arrow → Takes (Grammar.upTo n).primary c (e.lexemes ++ rest) e rest) :
    Chained e := by
  intro n c rest hlevels hdepth harrow
  have hpos := hbegins.length_pos
  refine ⟨n, by omega, fun v rest' hloop => ?_⟩
  have hbase : Takes (Grammar.upTo n).base c (e.lexemes ++ rest) e rest :=
    Takes.sees_neg (hbegins.headKind_ne rfl rest) (h n c rest hlevels hdepth harrow)
  exact hbase.bind hloop

/-- One more access or call behind an expression. -/
lemma chained_suffix {object e : Node} {kind : Kind} {text : String} {texts : List String}
    (hwritten : e.written = object.written ++ text :: texts) (hkind : kindOf text = kind)
    (harrow : kind ≠ .arrow) (hobject : Chained object)
    (h : ∀ n c rest, texts.length < n → c.depth + texts.length ≤ c.limit → headKind rest ≠ .arrow →
      Takes ((Grammar.upTo n).suffix true object) c
        ((kind, text) :: (texts.map lexemeOf ++ rest)) (.again e) rest) :
    Chained e := by
  intro n c rest hlevels hdepth hrest
  have hlength : e.written.length = object.written.length + (texts.length + 1) := by
    rw [hwritten, List.length_append, List.length_cons]
  have hlexemes : e.lexemes ++ rest =
      object.lexemes ++ (kind, text) :: (texts.map lexemeOf ++ rest) := by
    rw [Node.lexemes, hwritten, ← hkind]
    simp [Node.lexemes, lexemeOf]
  obtain ⟨b, hb, hloop⟩ := hobject n c ((kind, text) :: (texts.map lexemeOf ++ rest))
    (by omega) (by omega) harrow
  obtain ⟨b, rfl⟩ : ∃ d, b = d + 1 := ⟨b - 1, by omega⟩
  refine ⟨b, by omega, fun v rest' hv => ?_⟩
  rw [hlexemes]
  exact hloop v rest' (Takes.loop_again (h n c rest (by omega) (by omega) hrest) hv)

/-- What items with commas between them look like from the first one on. -/
lemma itemLexemes_cons (item : Node) (items : List Node) :
    itemLexemes (item :: items) = item.lexemes ++
      if items = [] then [] else (.comma, ",") :: itemLexemes items := by
  cases items with
  | nil => simp [itemLexemes, Node.writtenItems, Node.lexemes]
  | cons next items => simp [itemLexemes, Node.writtenItems, Node.lexemes, lexemeOf_comma]

lemma writtenItems_length_cons (item : Node) (items : List Node) :
    (Node.writtenItems (item :: items)).length = item.written.length +
      if items = [] then 0 else (Node.writtenItems items).length + 1 := by
  cases items with
  | nil => simp [Node.writtenItems]
  | cons next items => simp [Node.writtenItems]

/-- Every item has a lexeme. -/
lemma length_le_writtenItems {items : List Node} (h : ∀ e ∈ items, Readable e) :
    items.length ≤ (Node.writtenItems items).length := by
  induction items with
  | nil => exact Nat.zero_le _
  | cons item items ih =>
    have hitem := (h item List.mem_cons_self).begins.length_pos
    have hitems := ih fun e he => h e (List.mem_cons_of_mem item he)
    rw [writtenItems_length_cons, List.length_cons]
    split
    next hnil => simp [hnil]; omega
    next => omega

/-- The loop over the items in front of a closing token. -/
lemma items_takes {close : Kind} {n : Nat} {c : Context} {items : List Node}
    (hclose : close.startsOperand = false) (hgrip : close.grip? = none)
    (hitems : ∀ e ∈ items, Readable e) (hlevel : ∀ e ∈ items, 1 ≤ e.level)
    (hlevels : (Node.writtenItems items).length < n)
    (hdepth : c.depth + (Node.writtenItems items).length ≤ c.limit) (read : List Node) (b : Nat)
    (hb : items.length < b) (text : String) (rest : List (Kind × String)) :
    Takes (loop (Grammar.nextItem close ((Grammar.upTo n).parse .element)) b read) c
      (itemLexemes items ++ (close, text) :: rest) (read.reverse ++ items)
      ((close, text) :: rest) := by
  induction items generalizing read b with
  | nil =>
    obtain ⟨b, rfl⟩ : ∃ d, b = d + 1 := ⟨b - 1, by simp at hb; omega⟩
    apply Takes.loop_done
    rw [List.append_nil]
    exact Takes.sees_pos rfl (Takes.pure _)
  | cons item items ih =>
    rw [List.length_cons] at hb
    rw [writtenItems_length_cons] at hlevels hdepth
    obtain ⟨b, rfl⟩ : ∃ d, b = d + 1 := ⟨b - 1, by omega⟩
    obtain ⟨n, rfl⟩ : ∃ d, n = d + 1 := ⟨n - 1, by omega⟩
    have hitem := hitems item List.mem_cons_self
    have hread := hitem.read 1 (by omega) (hlevel item List.mem_cons_self)
    have hrest := ih (fun e he => hitems e (List.mem_cons_of_mem item he))
      (fun e he => hlevel e (List.mem_cons_of_mem item he))
    rw [itemLexemes_cons, List.append_assoc]
    by_cases hnil : items = []
    · subst hnil
      simp only [if_true, Nat.add_zero, List.nil_append] at hlevels hdepth ⊢
      have hturn : Takes (Grammar.nextItem close ((Grammar.upTo (n + 1)).parse .element) read) c
          (item.lexemes ++ (close, text) :: rest) (.again (item :: read))
          ((close, text) :: rest) := by
        have hends : Ends 1 ((close, text) :: rest) := ends_of_grip?_eq_none hgrip
        have hitem' := hread n c _ ⟨by omega, by omega⟩ hends
        exact Takes.nextItem_last (hitem.begins.headKind_ne hclose _) hitem' rfl
      have hlast := hrest (by simp [Node.writtenItems]) (by simp [Node.writtenItems]; omega)
        (item :: read) b (by simpa using hb)
      refine Takes.loop_again hturn ?_
      simpa [itemLexemes, Node.writtenItems] using hlast
    · rw [if_neg hnil] at hlevels hdepth ⊢
      have hturn : Takes (Grammar.nextItem close ((Grammar.upTo (n + 1)).parse .element) read) c
          (item.lexemes ++ (((.comma, ",") :: itemLexemes items) ++ (close, text) :: rest))
          (.again (item :: read)) (itemLexemes items ++ (close, text) :: rest) := by
        have hcomma : close ≠ .comma := by
          rintro rfl
          cases hgrip
        have hends : Ends 1 ((.comma, ",") :: (itemLexemes items ++ (close, text) :: rest)) :=
          ends_cons rfl Nat.zero_lt_one
        have hitem' := hread n c _ ⟨by omega, by omega⟩ hends
        exact Takes.nextItem_comma (hitem.begins.headKind_ne hclose _) hitem' hcomma
      have hlast := hrest (by omega) (by omega) (item :: read) b (by omega)
      refine Takes.loop_again hturn ?_
      rw [List.reverse_cons, List.append_assoc] at hlast
      exact hlast

lemma delimited_takes (close : Kind) {text : String} {n : Nat} {c : Context} {items : List Node}
    (hclose : close.startsOperand = false) (hgrip : close.grip? = none)
    (hitems : ∀ e ∈ items, Readable e) (hlevel : ∀ e ∈ items, 1 ≤ e.level)
    (hlevels : (Node.writtenItems items).length < n)
    (hdepth : c.depth + (Node.writtenItems items).length ≤ c.limit)
    (rest : List (Kind × String)) :
    Takes ((Grammar.upTo n).delimited close ((Grammar.upTo n).parse .element)) c
      (itemLexemes items ++ (close, text) :: rest) items rest := by
  have hlength := length_le_writtenItems hitems
  have hloop := items_takes hclose hgrip hitems hlevel hlevels hdepth [] n (by omega) text rest
  exact hloop.bind (Takes.expect_skip (Takes.pure _))

/-! ### Expressions without operators -/

lemma lexemeOf_name {name : String} (h : IsToken .identifier name) :
    lexemeOf name = (.identifier, name) := by
  rw [lexemeOf, (onLine_of_name h).1]

lemma identifier_takes {c : Context} {name : String} {rest : List (Kind × String)} :
    Takes identifier c ((.identifier, name) :: rest) (.identifier name) rest := by
  refine Takes.expect_bind fun t ht => ?_
  have htext : t.text = name := congrArg Prod.snd ht
  rw [htext]
  exact Takes.pure _

lemma readable_of_lexeme {e : Node} {kind : Kind} {text : String} (hwritten : e.written = [text])
    (hlevel : e.level = 14) (hkind : kindOf text = kind) (hstart : kind.startsPrimary = true)
    (h : ∀ n c rest, headKind rest ≠ .arrow →
      Takes (Grammar.upTo n).primary c ((kind, text) :: rest) e rest) : Readable e := by
  have hbegins : e.Begins := begins_of_primary hwritten hkind hstart
  refine readable_of_chained hbegins hlevel (chained_of_primary hbegins ?_)
  intro n c rest _ _ harrow
  have hlexemes : e.lexemes ++ rest = (kind, text) :: rest := by
    rw [Node.lexemes, hwritten, ← hkind]
    rfl
  rw [hlexemes]
  exact h n c rest harrow

lemma readable_name {name : String} (h : IsToken .identifier name) :
    Readable (.identifier name) := by
  refine readable_of_lexeme rfl rfl (onLine_of_name h).1 rfl fun n c rest harrow => ?_
  refine Takes.lookahead_bind fun t ht => ?_
  rw [ht]
  exact identifier_takes.bind (Takes.sees_neg harrow (Takes.pure _))

lemma readable_this : Readable .thisExpression := by
  refine readable_of_lexeme rfl rfl kindOf_this rfl fun n c rest _ => ?_
  refine Takes.lookahead_bind fun t ht => ?_
  rw [ht]
  exact Takes.advance_bind fun _ _ => Takes.pure _

lemma readable_null : Readable .nullLiteral := by
  refine readable_of_lexeme rfl rfl kindOf_null rfl fun n c rest _ => ?_
  refine Takes.lookahead_bind fun t ht => ?_
  rw [ht]
  exact Takes.advance_bind fun _ _ => Takes.pure _

lemma readable_undefined : Readable .undefinedLiteral := by
  refine readable_of_lexeme rfl rfl kindOf_undefined rfl fun n c rest _ => ?_
  refine Takes.lookahead_bind fun t ht => ?_
  rw [ht]
  exact Takes.advance_bind fun _ _ => Takes.pure _

lemma readable_boolean (value : Bool) : Readable (.booleanLiteral value) := by
  refine readable_of_lexeme rfl rfl (kindOf_boolean value) rfl fun n c rest _ => ?_
  refine Takes.lookahead_bind fun t ht => ?_
  rw [ht]
  refine Takes.advance_bind fun t ht => ?_
  have htext : t.text = if value then "true" else "false" := congrArg Prod.snd ht
  have hvalue : (t.text == "true") = value := by
    rw [htext]
    cases value <;> rfl
  rw [hvalue]
  exact Takes.pure _

lemma readable_parenthesized {body : Node} (hbody : Readable body) :
    Readable (.parenthesizedExpression body) := by
  have hbegins : (Node.parenthesizedExpression body).Begins :=
    begins_of_primary rfl (congrArg Prod.fst lexemeOf_lParen) rfl
  refine readable_of_chained hbegins rfl (chained_of_primary hbegins ?_)
  intro n c rest hlevels hdepth harrow
  have hlength : (Node.parenthesizedExpression body).written.length = body.written.length + 2 := by
    simp [Node.written]
  rw [hlength] at hlevels hdepth
  obtain ⟨n, rfl⟩ : ∃ d, n = d + 1 := ⟨n - 1, by omega⟩
  have hlexemes : (Node.parenthesizedExpression body).lexemes ++ rest =
      (.lParen, "(") :: (body.lexemes ++ (.rParen, ")") :: rest) := by
    simp [Node.lexemes, Node.written, lexemeOf_lParen, lexemeOf_rParen]
  rw [hlexemes]
  refine Takes.lookahead_bind fun t ht => ?_
  rw [ht]
  refine Takes.expect_bind fun opening _ => ?_
  refine Takes.accept_neg (hbody.begins.headKind_ne rfl _) ?_
  have hinner := hbody.read 0 (by omega) (Nat.zero_le _) n c ((.rParen, ")") :: rest)
    ⟨by omega, by omega⟩ (ends_of_grip?_eq_none rfl)
  refine hinner.bind (Takes.expect_bind fun closing _ => ?_)
  exact Takes.sees_neg harrow (Takes.pure _)

lemma readable_array {elements : List Node} (h : ∀ e ∈ elements, Readable e)
    (hlevel : ∀ e ∈ elements, 1 ≤ e.level) : Readable (.arrayLiteral elements) := by
  have hbegins : (Node.arrayLiteral elements).Begins :=
    begins_of_primary rfl (congrArg Prod.fst lexemeOf_lBracket) rfl
  refine readable_of_chained hbegins rfl (chained_of_primary hbegins ?_)
  intro n c rest hlevels hdepth harrow
  have hlength : (Node.arrayLiteral elements).written.length =
      (Node.writtenItems elements).length + 2 := by
    simp [Node.written]
  rw [hlength] at hlevels hdepth
  have hlexemes : (Node.arrayLiteral elements).lexemes ++ rest =
      (.lBracket, "[") :: (itemLexemes elements ++ (.rBracket, "]") :: rest) := by
    simp [Node.lexemes, Node.written, itemLexemes, lexemeOf_lBracket, lexemeOf_rBracket]
  rw [hlexemes]
  refine Takes.lookahead_bind fun t ht => ?_
  rw [ht]
  refine Takes.expect_skip ?_
  exact (delimited_takes .rBracket rfl rfl h hlevel (by omega) (by omega) rest).bind (Takes.pure _)

lemma MemberName.headKind_ne {member : Node} (h : MemberName member) {kind : Kind}
    (hkind : kind ≠ .identifier ∧ kind.isKeyword = false ∧ kind ≠ .hash)
    (rest : List (Kind × String)) : headKind (member.lexemes ++ rest) ≠ kind := by
  cases h with
  | @word found text h hfound hne =>
    have hhead : headKind ((Node.identifier text).lexemes ++ rest) = found :=
      (onLine_of_isToken h hfound hne).1
    rw [hhead]
    rintro rfl
    rcases hfound with hname | hkeyword
    · exact hkind.1 hname
    · rw [hkind.2.1] at hkeyword
      cases hkeyword
  | @hidden name h =>
    have hhead : headKind ((Node.privateName (.identifier name)).lexemes ++ rest) = .hash :=
      congrArg Prod.fst lexemeOf_hash
    rw [hhead]
    exact hkind.2.2.symm

lemma memberName_takes {member : Node} (h : MemberName member) {c : Context}
    {rest : List (Kind × String)} : Takes memberName c (member.lexemes ++ rest) member rest := by
  cases h with
  | @word kind text h hkind hne =>
    have hlexemes : (Node.identifier text).lexemes ++ rest = (kind, text) :: rest := by
      rw [Node.lexemes, Node.written, ← (onLine_of_isToken h hkind hne).1]
      rfl
    rw [hlexemes]
    have hhash : kind ≠ .hash := by
      rintro rfl
      rcases hkind with hkind | hkind <;> cases hkind
    refine Takes.accept_neg hhash (Takes.lookahead_bind fun t ht => ?_)
    rw [ht, headKind_cons]
    rcases hkind with rfl | hkeyword
    · exact identifier_takes
    · rw [if_pos hkeyword]
      refine Takes.advance_bind fun t ht => ?_
      have htext : t.text = text := congrArg Prod.snd ht
      rw [htext]
      exact Takes.pure _
  | @hidden name h =>
    have hlexemes : (Node.privateName (.identifier name)).lexemes ++ rest =
        (.hash, "#") :: (.identifier, name) :: rest := by
      simp [Node.lexemes, Node.written, lexemeOf_hash, lexemeOf_name h]
    rw [hlexemes]
    exact Takes.accept_pos (identifier_takes.bind (Takes.pure _))

lemma arguments_takes {n : Nat} {c : Context} {items : List Node}
    (hitems : ∀ e ∈ items, Readable e) (hlevel : ∀ e ∈ items, 1 ≤ e.level)
    (hlevels : (Node.writtenItems items).length < n)
    (hdepth : c.depth + (Node.writtenItems items).length ≤ c.limit)
    (rest : List (Kind × String)) :
    Takes (Grammar.upTo n).arguments c
      ((.lParen, "(") :: (itemLexemes items ++ (.rParen, ")") :: rest)) items rest :=
  Takes.expect_skip (delimited_takes .rParen rfl rfl hitems hlevel hlevels hdepth rest)

lemma computedMember_takes {n : Nat} {c : Context} {member : Node} (h : Readable member)
    (hlevels : member.written.length < n) (hdepth : c.depth + member.written.length ≤ c.limit)
    (rest : List (Kind × String)) :
    Takes (Grammar.upTo n).computedMember c
      ((.lBracket, "[") :: (member.lexemes ++ (.rBracket, "]") :: rest)) member rest := by
  obtain ⟨n, rfl⟩ : ∃ d, n = d + 1 := ⟨n - 1, by omega⟩
  have hmember := h.read 0 (by omega) (Nat.zero_le _) n c ((.rBracket, "]") :: rest)
    ⟨by omega, hdepth⟩ (ends_of_grip?_eq_none rfl)
  exact Takes.expect_skip (hmember.bind (Takes.expect_skip (Takes.pure _)))

lemma optionalName_takes {g : Grammar} {c : Context} {member : Node} (h : MemberName member)
    (object : Node) (rest : List (Kind × String)) :
    Takes (g.optionalSuffix object) c (member.lexemes ++ rest)
      (.optionalMemberExpression object member false true) rest := by
  refine Takes.lookahead_bind fun t ht => ?_
  split
  next hkind =>
    rw [ht] at hkind
    exact absurd hkind (h.headKind_ne (by decide) rest)
  next hkind =>
    rw [ht] at hkind
    exact absurd hkind (h.headKind_ne (by decide) rest)
  next => exact (memberName_takes h).bind (Takes.pure _)

section Suffixes

variable {object member : Node} {arguments : List Node}

lemma readable_member (h : Readable object) (hlevel : object.level = 14)
    (hmember : MemberName member) : Readable (.memberExpression object member false) := by
  refine readable_of_chained (begins_of_left rfl h.begins (Or.inr hlevel)) rfl ?_
  refine chained_suffix rfl kindOf_dot (by decide) (h.chained hlevel) fun n c rest _ _ _ => ?_
  refine Takes.lookahead_bind fun t ht => ?_
  rw [ht]
  exact Takes.advance_bind fun _ _ => (memberName_takes hmember).bind (Takes.pure _)

lemma readable_computed (h : Readable object) (hlevel : object.level = 14)
    (hmember : Readable member) : Readable (.memberExpression object member true) := by
  refine readable_of_chained (begins_of_left rfl h.begins (Or.inr hlevel)) rfl ?_
  refine chained_suffix rfl (congrArg Prod.fst lexemeOf_lBracket) (by decide) (h.chained hlevel)
    fun n c rest hlevels hdepth _ => ?_
  rw [List.length_append, List.length_singleton] at hlevels hdepth
  refine Takes.lookahead_bind fun t ht => ?_
  rw [ht, List.map_append, List.append_assoc, List.map_singleton, lexemeOf_rBracket]
  exact (computedMember_takes hmember (by omega) (by omega) rest).bind (Takes.pure _)

lemma readable_optionalMember (h : Readable object) (hlevel : object.level = 14)
    (hmember : MemberName member) : Readable (.optionalMemberExpression object member false true) := by
  refine readable_of_chained (begins_of_left rfl h.begins (Or.inr hlevel)) rfl ?_
  refine chained_suffix rfl kindOf_questionDot (by decide) (h.chained hlevel) fun n c rest _ _ _ => ?_
  refine Takes.lookahead_bind fun t ht => ?_
  rw [ht]
  refine Takes.advance_bind fun _ _ => ?_
  exact (optionalName_takes hmember object rest).bind (Takes.pure _)

lemma readable_optionalComputed (h : Readable object) (hlevel : object.level = 14)
    (hmember : Readable member) : Readable (.optionalMemberExpression object member true true) := by
  refine readable_of_chained (begins_of_left rfl h.begins (Or.inr hlevel)) rfl ?_
  refine chained_suffix rfl kindOf_questionDot (by decide) (h.chained hlevel)
    fun n c rest hlevels hdepth _ => ?_
  simp only [if_true, List.length_cons, List.length_append, List.length_nil] at hlevels hdepth
  refine Takes.lookahead_bind fun t ht => ?_
  rw [ht]
  refine Takes.advance_bind fun _ _ => ?_
  have hcomputed := computedMember_takes (c := c) hmember (n := n) (by omega) (by omega) rest
  have hsuffix : Takes ((Grammar.upTo n).optionalSuffix object) c
      ((.lBracket, "[") :: (member.lexemes ++ (.rBracket, "]") :: rest))
      (.optionalMemberExpression object member true true) rest := by
    refine Takes.lookahead_bind fun t ht => ?_
    rw [ht]
    exact hcomputed.bind (Takes.pure _)
  simp only [if_true, List.map_cons, List.map_append, List.cons_append, List.append_assoc,
    lexemeOf_lBracket, lexemeOf_rBracket]
  exact hsuffix.bind (Takes.pure _)

lemma readable_call (h : Readable object) (hlevel : object.level = 14)
    (harguments : ∀ e ∈ arguments, Readable e) (hlevels : ∀ e ∈ arguments, 1 ≤ e.level) :
    Readable (.callExpression object arguments) := by
  refine readable_of_chained (begins_of_left rfl h.begins (Or.inr hlevel)) rfl ?_
  refine chained_suffix rfl (congrArg Prod.fst lexemeOf_lParen) (by decide) (h.chained hlevel)
    fun n c rest hn hdepth _ => ?_
  rw [List.length_append, List.length_singleton] at hn hdepth
  refine Takes.lookahead_bind fun t ht => ?_
  rw [ht, List.map_append, List.append_assoc, List.map_singleton, lexemeOf_rParen]
  exact (arguments_takes harguments hlevels (by omega) (by omega) rest).bind (Takes.pure _)

lemma readable_optionalCall (h : Readable object) (hlevel : object.level = 14)
    (harguments : ∀ e ∈ arguments, Readable e) (hlevels : ∀ e ∈ arguments, 1 ≤ e.level) :
    Readable (.optionalCallExpression object arguments true) := by
  refine readable_of_chained (begins_of_left rfl h.begins (Or.inr hlevel)) rfl ?_
  refine chained_suffix rfl kindOf_questionDot (by decide) (h.chained hlevel)
    fun n c rest hn hdepth _ => ?_
  rw [List.length_cons, List.length_append, List.length_singleton] at hn hdepth
  refine Takes.lookahead_bind fun t ht => ?_
  rw [ht]
  refine Takes.advance_bind fun _ _ => ?_
  have hcall := arguments_takes (c := c) (n := n) harguments hlevels (by omega) (by omega) rest
  have hsuffix : Takes ((Grammar.upTo n).optionalSuffix object) c
      ((.lParen, "(") :: (itemLexemes arguments ++ (.rParen, ")") :: rest))
      (.optionalCallExpression object arguments true) rest := by
    refine Takes.lookahead_bind fun t ht => ?_
    rw [ht]
    exact hcall.bind (Takes.pure _)
  rw [List.map_cons, List.map_append, List.cons_append, List.append_assoc, List.map_singleton,
    lexemeOf_lParen, lexemeOf_rParen]
  exact hsuffix.bind (Takes.pure _)

end Suffixes

/-! ### Operators -/

/-- An operator in front of an operand, which is read one level deeper. -/
lemma readable_of_operator {e argument : Node} {text : String}
    (hwritten : e.written = text :: argument.written) (hlevel : e.level = 12)
    (hstart : (kindOf text).startsOperand = true) (hargument : Readable argument)
    (htight : 12 ≤ argument.level)
    (h : ∀ n c rest, Takes ((Grammar.upTo n).parse .unary) c (argument.lexemes ++ rest) argument rest →
      Takes (Grammar.upTo n).operand c ((kindOf text, text) :: (argument.lexemes ++ rest)) e rest) :
    Readable e := by
  have hbegins : e.Begins := begins_of_operator hwritten hstart hlevel
  refine readable_of_readAt hbegins (Nat.le_refl 12) ?_ (Or.inl hlevel) (by omega) (by omega)
  intro n c rest hfits hends
  have hlevels := hfits.levels
  have hdepth := hfits.depth
  have hlength : e.written.length = argument.written.length + 1 := by
    rw [hwritten, List.length_cons]
  obtain ⟨n, rfl⟩ : ∃ d, n = d + 1 := ⟨n - 1, by omega⟩
  have hlexemes : e.lexemes ++ rest = (kindOf text, text) :: (argument.lexemes ++ rest) := by
    rw [Node.lexemes, hwritten]
    rfl
  rw [hlexemes]
  refine Takes.nested (by omega) (h _ _ _ ?_)
  refine hargument.read 12 (Nat.le_refl 12) htight n _ rest ⟨by omega, ?_⟩ hends
  change c.depth + 1 + argument.written.length ≤ c.limit
  omega

lemma readable_unary {operator : UnaryOperator} {argument : Node} (h : Readable argument)
    (htight : 12 ≤ argument.level) : Readable (.unaryExpression operator argument) := by
  have hkind := kindOf_unary operator
  have hoperator : UnaryOperator.ofText? operator.text = some operator := by
    cases operator <;> rfl
  have hstart : (kindOf operator.text).startsOperand = true := by
    rcases hkind with hkind | hkind <;> rw [hkind] <;> rfl
  refine readable_of_operator rfl rfl hstart h htight fun n c rest hargument => ?_
  refine Takes.lookahead_bind fun t ht => ?_
  have hrest : ∀ t : Token, t.lexeme = (kindOf operator.text, operator.text) →
      Takes (spelled t (UnaryOperator.ofText? t.text) >>= fun operator =>
        (Grammar.upTo n).parse .unary >>= fun argument =>
          pure (Node.unaryExpression operator argument)) c (argument.lexemes ++ rest)
        (.unaryExpression operator argument) rest := by
    intro t ht
    have htext : t.text = operator.text := congrArg Prod.snd ht
    rw [htext]
    exact Takes.spelled_bind hoperator (hargument.bind (Takes.pure _))
  rw [ht, headKind_cons]
  rcases hkind with hkind | hkind
  · rw [hkind] at hrest ⊢
    exact Takes.advance_bind hrest
  · rw [hkind] at hrest ⊢
    exact Takes.advance_bind hrest

lemma readable_await {argument : Node} (h : Readable argument) (htight : 12 ≤ argument.level) :
    Readable (.awaitExpression argument) := by
  refine readable_of_operator rfl rfl (by rw [kindOf_await]; rfl) h htight
    fun n c rest hargument => ?_
  refine Takes.lookahead_bind fun t ht => ?_
  rw [ht, headKind_cons, kindOf_await]
  exact Takes.advance_bind fun _ _ => hargument.bind (Takes.pure _)

lemma readable_update {operator : UpdateOperator} {argument : Node} (leading : Bool)
    (h : Readable argument) (htarget : argument.isAssignmentTarget = true) :
    Readable (.updateExpression operator leading argument) := by
  have hlevel := Node.level_of_isAssignmentTarget htarget
  have hkind := kindOf_update operator
  have hoperator : UpdateOperator.ofText? operator.text = some operator := by
    cases operator <;> rfl
  cases leading with
  | true =>
    have hstart : (kindOf operator.text).startsOperand = true := by rw [hkind]; rfl
    refine readable_of_operator rfl rfl hstart h (by omega) fun n c rest hargument => ?_
    refine Takes.lookahead_bind fun t ht => ?_
    rw [ht, headKind_cons, hkind]
    refine Takes.advance_bind fun t ht => ?_
    have htext : t.text = operator.text := congrArg Prod.snd ht
    rw [htext]
    refine Takes.spelled_bind hoperator (hargument.bind ?_)
    rw [if_pos htarget]
    exact Takes.pure _
  | false =>
    have hbegins : (Node.updateExpression operator false argument).Begins :=
      begins_of_left rfl h.begins (Or.inr hlevel)
    refine readable_of_readAt hbegins (Nat.le_refl 12) ?_ (Or.inr rfl) (by omega)
      fun hfalse => by cases hfalse
    intro n c rest hfits hends
    have hlength : (Node.updateExpression operator false argument).written.length =
        argument.written.length + 1 := by
      simp [Node.written]
    have hlevels := hfits.levels
    have hdepth := hfits.depth
    have hlexemes : (Node.updateExpression operator false argument).lexemes ++ rest =
        argument.lexemes ++ (.incrementDecrement, operator.text) :: rest := by
      simp [Node.lexemes, Node.written, lexemeOf, hkind]
    rw [hlexemes]
    refine Takes.nested (by omega) (operand_takes ?_ ?_)
    · rw [headKind_lexemes_append h.begins.1]
      exact h.begins.2 (by omega)
    · unfold Grammar.suffixed
      rw [← bind_assoc]
      refine ((h.chained hlevel).takes (by omega) ?_ (ends_cons rfl (by omega))).bind ?_
      · change c.depth + 1 + argument.written.length ≤ c.limit + 1
        omega
      · refine Takes.sees_pos rfl ?_
        rw [if_pos htarget]
        refine Takes.advance_bind fun t ht => ?_
        have htext : t.text = operator.text := congrArg Prod.snd ht
        rw [htext]
        exact Takes.spelled_bind hoperator (Takes.pure _)

lemma readable_power {left right : Node} (hleft : Readable left) (hright : Readable right)
    (htight : 12 ≤ left.level) (htight' : 11 ≤ right.level) :
    Readable (.binaryExpression left .pow right) := by
  have hbegins : (Node.binaryExpression left .pow right).Begins :=
    begins_of_left rfl hleft.begins (Or.inl (Nat.le_of_ble_eq_true rfl))
  refine readable_of_readAt hbegins (m := 11) (by omega) ?_ (Or.inl rfl) (by omega)
    fun hfalse => by cases hfalse
  intro n c rest hfits hends
  have hlength : (Node.binaryExpression left .pow right).written.length =
      left.written.length + (right.written.length + 1) := by
    simp [Node.written]
  have hlevels := hfits.levels
  have hdepth := hfits.depth
  have hpos := hleft.begins.length_pos
  obtain ⟨n, rfl⟩ : ∃ d, n = d + 1 := ⟨n - 1, by omega⟩
  have hkind : lexemeOf BinaryOperator.pow.text = (.power, "**") :=
    lexemeOf_of_mem_spellings List.mem_cons_self
  have hlexemes : (Node.binaryExpression left .pow right).lexemes ++ rest =
      left.lexemes ++ (.power, "**") :: (right.lexemes ++ rest) := by
    simp [Node.lexemes, Node.written, hkind]
  rw [hlexemes]
  have hfirst := hleft.read 12 (Nat.le_refl 12) htight (n + 1) c
    ((.power, "**") :: (right.lexemes ++ rest)) ⟨by omega, by omega⟩ (ends_cons rfl (by omega))
  have hsecond := hright.read 11 (by omega) htight' n { c with depth := c.depth + 1 } rest
    ⟨by omega, by change c.depth + 1 + right.written.length ≤ c.limit; omega⟩ hends
  refine hfirst.bind ?_
  refine Takes.sees_pos rfl ?_
  refine Takes.advance_bind fun t ht => ?_
  have htext : t.text = "**" := congrArg Prod.snd ht
  rw [htext]
  refine Takes.spelled_bind (a := .pow) rfl ?_
  exact (Takes.nested (by omega) hsecond).bind (Takes.pure _)

lemma readable_join {k : Nat} {left right e : Node} {text : String} {join : Node → Node → Node}
    (h2 : 2 ≤ k) (h10 : k ≤ 10) (hkind : kindOf text = (rungLevel k).kind)
    (hjoin : (rungLevel k).join? text = some join) (he : join left right = e)
    (hwritten : e.written = left.written ++ text :: right.written) (hlevel : e.level = k)
    (hleft : Readable left) (hright : Readable right) (htight : k ≤ left.level)
    (htight' : k < right.level) : Readable e := by
  have hbegins : e.Begins := begins_of_left hwritten hleft.begins (Or.inl (by omega))
  have hgrouped : Grouped k e := grouped_join h2 h10 hkind hjoin he hwritten
    (hleft.grouped k h2 h10 htight) (hright.read (k + 1) (by omega) htight')
  exact readable_of_readAt hbegins (by omega) (readAt_of_grouped h2 h10 hgrouped) (Or.inl hlevel)
    (fun _ _ => hgrouped) (by omega)

lemma readable_binary {left right : Node} {operator : BinaryOperator} (hne : operator ≠ .pow)
    (hleft : Readable left) (hright : Readable right) (htight : operator.level ≤ left.level)
    (htight' : operator.level < right.level) :
    Readable (.binaryExpression left operator right) := by
  have hlevel : 2 ≤ operator.level ∧ operator.level ≤ 10 := by
    cases operator <;> first | exact absurd rfl hne | decide
  have hkind : kindOf operator.text = (rungLevel operator.level).kind := by
    apply kindOf_of_mem_spellings
    cases operator <;> first | exact absurd rfl hne | decide
  have hjoin : (rungLevel operator.level).join? operator.text =
      some fun left right => .binaryExpression left operator right := by
    cases operator <;> first | exact absurd rfl hne | rfl
  exact readable_join hlevel.1 hlevel.2 hkind hjoin rfl rfl rfl hleft hright htight htight'

lemma readable_logical {left right : Node} {operator : LogicalOperator} (hleft : Readable left)
    (hright : Readable right) (htight : operator.level ≤ left.level)
    (htight' : operator.level < right.level) :
    Readable (.logicalExpression left operator right) := by
  have hlevel : 2 ≤ operator.level ∧ operator.level ≤ 10 := by cases operator <;> decide
  have hkind : kindOf operator.text = (rungLevel operator.level).kind := by
    apply kindOf_of_mem_spellings
    cases operator <;> decide
  have hjoin : (rungLevel operator.level).join? operator.text =
      some fun left right => .logicalExpression left operator right := by
    cases operator <;> rfl
  exact readable_join hlevel.1 hlevel.2 hkind hjoin rfl rfl rfl hleft hright htight htight'

lemma readable_of_assignment {id value e : Node} {operator : AssignmentOperator} {kind : Kind}
    (hkind : kind = .assignment ∨ kind = .complexAssignment)
    (hoperator : kindOf operator.text = kind)
    (hwritten : e.written = id.written ++ operator.text :: value.written) (hlevel : e.level = 1)
    (he : e = if kind = .complexAssignment then .complexAssignmentExpression id operator value
      else .assignmentExpression id operator value)
    (hid : Readable id) (htarget : id.isAssignmentTarget = true) (hvalue : Readable value)
    (hvalueLevel : 1 ≤ value.level) : Readable e := by
  have hidLevel := Node.level_of_isAssignmentTarget htarget
  have hbegins : e.Begins := begins_of_left hwritten hid.begins (Or.inl (by omega))
  refine readable_of_readAt hbegins (m := 1) (by omega) ?_ (Or.inl hlevel) (by omega) (by omega)
  intro n c rest hfits hends
  have hlength : e.written.length = id.written.length + (value.written.length + 1) := by
    rw [hwritten, List.length_append, List.length_cons]
  have hlevels := hfits.levels
  have hdepth := hfits.depth
  have hpos := hid.begins.length_pos
  obtain ⟨n, rfl⟩ : ∃ d, n = d + 1 := ⟨n - 1, by omega⟩
  have hlexemes : e.lexemes ++ rest =
      id.lexemes ++ (kind, operator.text) :: (value.lexemes ++ rest) := by
    rw [Node.lexemes, hwritten, ← hoperator]
    simp [Node.lexemes, lexemeOf]
  have hgrip : kind.grip? = some 1 := by
    rcases hkind with rfl | rfl <;> rfl
  have hread : AssignmentOperator.ofText? operator.text = some operator := by
    cases operator <;> rfl
  have hleft := hid.read 2 (by omega) (by omega) (n + 1) c
    ((kind, operator.text) :: (value.lexemes ++ rest)) ⟨by omega, by omega⟩
    (ends_cons hgrip (by omega))
  have hright := hvalue.read 1 (by omega) hvalueLevel n { c with depth := c.depth + 1 } rest
    ⟨by omega, by change c.depth + 1 + value.written.length ≤ c.limit; omega⟩ hends
  rw [hlexemes]
  refine Takes.sees_neg (hid.begins.headKind_ne rfl _) ?_
  refine hleft.bind (Takes.lookahead_bind fun t ht => ?_)
  rw [ht, headKind_cons, if_pos (by simpa using hkind), if_pos htarget]
  refine Takes.advance_bind fun t ht => ?_
  have htext : t.text = operator.text := congrArg Prod.snd ht
  have htkind : t.kind = kind := congrArg Prod.fst ht
  rw [htext, htkind]
  refine Takes.spelled_bind hread ((Takes.nested (by omega) hright).bind ?_)
  rw [he]
  by_cases hcomplex : kind = .complexAssignment
  · rw [if_pos (beq_iff_eq.2 hcomplex), if_pos hcomplex]
    exact Takes.pure _
  · rw [if_neg (by simpa using hcomplex), if_neg hcomplex]
    exact Takes.pure _

lemma readable_assignment {id value : Node} (hid : Readable id)
    (htarget : id.isAssignmentTarget = true) (hvalue : Readable value) (hlevel : 1 ≤ value.level) :
    Readable (.assignmentExpression id .assign value) :=
  readable_of_assignment (Or.inl rfl) (kindOf_of_mem_spellings List.mem_cons_self) rfl rfl rfl hid
    htarget hvalue hlevel

lemma readable_complexAssignment {id value : Node} {operator : AssignmentOperator}
    (hne : operator ≠ .assign) (hid : Readable id) (htarget : id.isAssignmentTarget = true)
    (hvalue : Readable value) (hlevel : 1 ≤ value.level) :
    Readable (.complexAssignmentExpression id operator value) := by
  have hkind : kindOf operator.text = .complexAssignment := by
    apply kindOf_of_mem_spellings
    cases operator <;> first | exact absurd rfl hne | decide
  exact readable_of_assignment (Or.inr rfl) hkind rfl rfl rfl hid htarget hvalue hlevel

/-- The loop over the expressions behind the commas of a sequence. -/
lemma sequence_takes {n : Nat} {c : Context} {items : List Node} (hne : items ≠ [])
    (hitems : ∀ e ∈ items, Readable e) (hlevel : ∀ e ∈ items, 1 ≤ e.level)
    (hfits : Fits n c (Node.writtenItems items).length) {rest : List (Kind × String)}
    (hends : Ends 0 rest) (read : List Node) (b : Nat) (hb : items.length < b) :
    Takes (loop (Grammar.upTo n).nextInSequence b read) c
      ((.comma, ",") :: (itemLexemes items ++ rest))
      (.sequenceExpression (read.reverse ++ items)) rest := by
  induction items generalizing read b with
  | nil => exact absurd rfl hne
  | cons item items ih =>
    have hlevels := hfits.levels
    have hdepth := hfits.depth
    rw [writtenItems_length_cons] at hlevels hdepth
    rw [List.length_cons] at hb
    obtain ⟨b, rfl⟩ : ∃ d, b = d + 1 := ⟨b - 1, by omega⟩
    have hread := (hitems item List.mem_cons_self).read 1 (by omega)
      (hlevel item List.mem_cons_self)
    rw [itemLexemes_cons, List.append_assoc]
    by_cases hnil : items = []
    · subst hnil
      obtain ⟨b, rfl⟩ : ∃ d, b = d + 1 := ⟨b - 1, by omega⟩
      rw [if_pos rfl] at hlevels hdepth
      rw [if_pos rfl, List.nil_append]
      have hturn : Takes ((Grammar.upTo n).nextInSequence read) c
          ((.comma, ",") :: (item.lexemes ++ rest)) (.again (item :: read)) rest :=
        Takes.accept_pos ((hread n c rest ⟨hlevels, hdepth⟩ (hends.mono (by omega))).bind
          (Takes.pure _))
      refine Takes.loop_again hturn (Takes.loop_done ?_)
      have hstop : Takes ((Grammar.upTo n).nextInSequence (item :: read)) c rest
          (.done (.sequenceExpression (item :: read).reverse)) rest :=
        Takes.accept_neg (hends.ne rfl (Nat.le_refl 0)) (Takes.pure _)
      rw [List.reverse_cons] at hstop
      exact hstop
    · rw [if_neg hnil] at hlevels hdepth ⊢
      have hturn : Takes ((Grammar.upTo n).nextInSequence read) c
          ((.comma, ",") :: (item.lexemes ++ ((.comma, ",") :: itemLexemes items ++ rest)))
          (.again (item :: read)) ((.comma, ",") :: itemLexemes items ++ rest) :=
        Takes.accept_pos ((hread n c _ ⟨by omega, by omega⟩ (ends_cons rfl Nat.zero_lt_one)).bind
          (Takes.pure _))
      have hlast := ih hnil (fun e he => hitems e (List.mem_cons_of_mem item he))
        (fun e he => hlevel e (List.mem_cons_of_mem item he)) ⟨by omega, by omega⟩
        (item :: read) b (by omega)
      rw [List.reverse_cons, List.append_assoc] at hlast
      exact Takes.loop_again hturn hlast

lemma readable_sequence {items : List Node} (htwo : 2 ≤ items.length)
    (hitems : ∀ e ∈ items, Readable e) (hlevel : ∀ e ∈ items, 1 ≤ e.level) :
    Readable (.sequenceExpression items) := by
  match items, htwo, hitems, hlevel with
  | first :: second :: items, _, hitems, hlevel =>
    have hfirst := hitems first List.mem_cons_self
    have hbegins : (Node.sequenceExpression (first :: second :: items)).Begins :=
      begins_of_left rfl hfirst.begins (Or.inl (Nat.le_of_ble_eq_true rfl))
    refine readable_of_readAt hbegins (m := 0) (by omega) ?_ (Or.inl rfl) (by omega)
      fun hfalse => by cases hfalse
    intro n c rest hfits hends
    have hlevels := hfits.levels
    have hdepth := hfits.depth
    have hothers : ∀ e ∈ second :: items, Readable e :=
      fun e he => hitems e (List.mem_cons_of_mem first he)
    have hcount := length_le_writtenItems hothers
    rw [Node.written, writtenItems_length_cons, if_neg (List.cons_ne_nil _ _)] at hlevels hdepth
    have hlexemes : (Node.sequenceExpression (first :: second :: items)).lexemes ++ rest =
        first.lexemes ++ (.comma, ",") :: (itemLexemes (second :: items) ++ rest) := by
      have hitemLexemes := itemLexemes_cons first (second :: items)
      rw [if_neg (List.cons_ne_nil _ _)] at hitemLexemes
      rw [Node.lexemes, Node.written, ← itemLexemes, hitemLexemes]
      simp
    rw [hlexemes]
    have hread := hfirst.read 1 (by omega) (hlevel first List.mem_cons_self) n c
      ((.comma, ",") :: (itemLexemes (second :: items) ++ rest)) ⟨by omega, by omega⟩
      (ends_cons rfl Nat.zero_lt_one)
    refine hread.bind (Takes.sees_pos rfl ?_)
    exact sequence_takes (List.cons_ne_nil _ _) hothers
      (fun e he => hlevel e (List.mem_cons_of_mem first he)) ⟨by omega, by omega⟩ hends [first] n
      (by omega)

/-- Every tree on the ladder is read back. -/
theorem Ladder.readable {e : Node} (h : Ladder e) : Readable e := by
  induction h with
  | name h => exact readable_name h
  | this => exact readable_this
  | null => exact readable_null
  | undefined => exact readable_undefined
  | boolean value => exact readable_boolean value
  | parenthesized _ ih => exact readable_parenthesized ih
  | array _ hlevel ih => exact readable_array ih hlevel
  | member _ hlevel hmember ih => exact readable_member ih hlevel hmember
  | computed _ hlevel _ ih ihmember => exact readable_computed ih hlevel ihmember
  | optionalMember _ hlevel hmember ih => exact readable_optionalMember ih hlevel hmember
  | optionalComputed _ hlevel _ ih ihmember => exact readable_optionalComputed ih hlevel ihmember
  | call _ hlevel _ hlevels ih iharguments => exact readable_call ih hlevel iharguments hlevels
  | optionalCall _ hlevel _ hlevels ih iharguments =>
    exact readable_optionalCall ih hlevel iharguments hlevels
  | update leading _ htarget ih => exact readable_update leading ih htarget
  | unary _ hlevel ih => exact readable_unary ih hlevel
  | await _ hlevel ih => exact readable_await ih hlevel
  | power _ _ hlevel hlevel' ihleft ihright => exact readable_power ihleft ihright hlevel hlevel'
  | binary hne _ _ hlevel hlevel' ihleft ihright =>
    exact readable_binary hne ihleft ihright hlevel hlevel'
  | logical _ _ hlevel hlevel' ihleft ihright =>
    exact readable_logical ihleft ihright hlevel hlevel'
  | assignment _ htarget _ hlevel ihid ihvalue =>
    exact readable_assignment ihid htarget ihvalue hlevel
  | complexAssignment hne _ htarget _ hlevel ihid ihvalue =>
    exact readable_complexAssignment hne ihid htarget ihvalue hlevel
  | sequence htwo _ hlevel ih => exact readable_sequence htwo ih hlevel

/-- An operator expression as a statement, on a level of nesting of its own. -/
lemma statement_takes {n : Nat} {c : Context} {e : Node} (h : Readable e)
    (hlevels : e.written.length ≤ n) (hdepth : c.depth + e.written.length < c.limit) :
    Takes (Grammar.upTo n).statement c e.lexemes e [] := by
  have hexpression : Takes (Grammar.upTo n).expressionStatement { c with depth := c.depth + 1 }
      (e.lexemes ++ []) e [] := by
    have hread := h.read 0 (by omega) (Nat.zero_le _) n { c with depth := c.depth + 1 } []
      ⟨hlevels, by change c.depth + 1 + e.written.length ≤ c.limit; omega⟩
      (ends_of_grip?_eq_none rfl)
    exact hread.bind (Takes.accept_neg (by decide) (Takes.pure _))
  rw [List.append_nil] at hexpression
  refine Takes.nested (by omega) (Takes.lookahead_bind fun t ht => ?_)
  have hstart := h.begins.1
  rw [← ht] at hstart
  split
  all_goals first
    | exact hexpression
    | (rename_i hkind; rw [hkind] at hstart; cases hstart)

lemma program_takes {n limit : Nat} {e : Node} (h : Readable e) (hlevels : e.written.length ≤ n)
    (hlimit : e.written.length < limit) :
    Takes (Grammar.upTo (n + 2)).program ⟨limit, 0, false⟩ e.lexemes (.program [e]) [] := by
  have hstatement : Takes ((Grammar.upTo (n + 2)).nextInProgram []) ⟨limit, 0, false⟩ e.lexemes
      (.again [e]) [] := by
    have hhead : headKind e.lexemes ≠ .endOfFile := by
      rw [← List.append_nil e.lexemes]
      exact h.begins.headKind_ne rfl []
    have hread := statement_takes (n := n + 1) (c := ⟨limit, 0, false⟩) h (by omega)
      (by change 0 + e.written.length < limit; omega)
    exact Takes.sees_neg hhead (hread.bind (Takes.pure _))
  have hend : Takes ((Grammar.upTo (n + 2)).nextInProgram [e]) ⟨limit, 0, false⟩ []
      (.done (.program [e])) [] :=
    Takes.sees_pos rfl (Takes.pure _)
  exact Takes.loop_again hstatement (Takes.loop_done hend)

/-- A source is read as its lexemes are. -/
lemma parse_of_takes {ls : List (Kind × String)} {limit : Nat} {tree : Node}
    (h : ∀ n, ls.length ≤ n → Takes (Grammar.upTo (n + 2)).program ⟨limit, 0, false⟩ ls tree [])
    {source : String} (hlexemes : (scanSource source).1.map Token.lexeme = ls) {last : Token}
    (hlast : (scanSource source).2 = .ok last) : parse source limit = .ok tree := by
  have hlength : ls.length ≤ (Cursor.ofSource source).rest.length := by
    have hscan := (Cursor.ofSource source).scan_length_le
    rw [← hlexemes, List.length_map]
    exact hscan
  rcases (Cursor.ofSource source).next_cases with ⟨f, after, -, hscan⟩ | ⟨token, after, hnext, hscan⟩
  · rw [scanSource, hscan] at hlast
    cases hlast
  · have hstands : Stands ⟨token, after⟩ ls := by
      rw [scanSource, hscan] at hlexemes hlast
      exact ⟨hlexemes, last, hlast⟩
    obtain ⟨s, hrun, -⟩ := h _ hlength _ hstands
    exact parse_of_ok hnext hrun

lemma parse_of_lexemes {e : Node} (h : Readable e) {limit : Nat} (hlimit : e.written.length < limit)
    {source : String} (hlexemes : (scanSource source).1.map Token.lexeme = e.lexemes)
    {last : Token} (hlast : (scanSource source).2 = .ok last) :
    parse source limit = .ok (.program [e]) := by
  refine parse_of_takes (fun n hn => program_takes h ?_ hlimit) hlexemes hlast
  rwa [Node.lexemes, List.length_map] at hn

/-- A tree on the ladder, written with one lexeme on each line, is scanned to these lexemes and read
back as it is, and so is every other layout of the same lexemes. -/
theorem parse_written {e : Node} (he : Ladder e) {limit : Nat}
    (hlimit : e.written.length < limit) :
    (scanSource ("\n".intercalate e.written)).1.map Token.text = e.written ∧
    parse ("\n".intercalate e.written) limit = .ok (.program [e]) ∧
    ∀ source last, (scanSource source).2 = .ok last →
      (scanSource source).1.map Token.lexeme =
        (scanSource ("\n".intercalate e.written)).1.map Token.lexeme →
      parse source limit = .ok (.program [e]) := by
  have hread := he.readable
  obtain ⟨hlexemes, last, hlast⟩ := scan_lines e.written he.onLine 0
  refine ⟨?_, parse_of_lexemes hread hlimit hlexemes hlast, fun source last hlast hsame => ?_⟩
  · have htexts := congrArg (List.map Prod.snd) hlexemes
    rw [List.map_map, List.map_map] at htexts
    exact htexts.trans (List.map_id e.written)
  · exact parse_of_lexemes hread hlimit (hsame.trans hlexemes) hlast

theorem reads_back_power_of_call :
    Ladder (.assignmentExpression (.identifier "a") .assign (.logicalExpression
      (.binaryExpression (.unaryExpression .minus (.identifier "b")) .pow
        (.callExpression (.memberExpression (.identifier "a") (.identifier "new") false)
          [.identifier "b"])) .or (.identifier "a"))) ∧
    parse "a\n=\n-\nb\n**\na\n.\nnew\n(\nb\n)\n||\na" 14 =
      .ok (.program [.assignmentExpression (.identifier "a") .assign (.logicalExpression
        (.binaryExpression (.unaryExpression .minus (.identifier "b")) .pow
          (.callExpression (.memberExpression (.identifier "a") (.identifier "new") false)
            [.identifier "b"])) .or (.identifier "a"))]) := by
  have ha : Ladder (.identifier "a") := .name ⟨by decide +kernel, .endOfFile 1, by decide +kernel⟩
  have hb : Ladder (.identifier "b") := .name ⟨by decide +kernel, .endOfFile 1, by decide +kernel⟩
  have hword : IsToken .kwNew "new" := ⟨by decide +kernel, .endOfFile 3, by decide +kernel⟩
  have hnew : MemberName (.identifier "new") := .word hword (Or.inr rfl) (by decide)
  have harguments : ∀ e ∈ [Node.identifier "b"], Ladder e := by simpa using hb
  have hcall := Ladder.call (.member ha rfl hnew) rfl harguments (by decide)
  have hminus : Ladder (.unaryExpression .minus (.identifier "b")) := .unary hb (by decide)
  have hpower := Ladder.power hminus hcall (by decide) (by decide)
  have hor := @Ladder.logical _ _ .or hpower ha (by decide) (by decide)
  have htree := Ladder.assignment ha rfl hor (by decide)
  exact ⟨htree, (parse_written htree (by decide)).2.1⟩

end ScriptTree
