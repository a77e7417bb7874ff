import ScriptTree.Proofs.JsonReader

/-!
# Layouts of JSON texts

How a JSON text is set out is a matter of its characters alone: what stands between two neighbours
outside of quoted texts depends on these two and on how many brackets are open. So a layout is
checked without a word about values, by taking the blanks of a text away and putting them in again.

Main statement: `Json.setsOut_render`.
-/

namespace ScriptTree

namespace JsonText

/-- Where a character stands: outside of quoted texts, in one, or behind a backslash in one. -/
inductive Site where
  | outside
  | inside
  | escaped
deriving DecidableEq

/-- Where the character behind another one stands. -/
def Site.next : Site → Char → Site
  | outside, c => if c = '\x22' then inside else outside
  | inside, c => if c = '\x22' then outside else if c = '\\' then escaped else inside
  | escaped, _ => inside

/-- A text without the blanks outside of quoted texts. -/
def squeeze : Site → List Char → List Char
  | _, [] => []
  | site, c :: cs =>
    if site = .outside ∧ JsonValue.isBlank c = true then squeeze .outside cs
    else c :: squeeze (site.next c) cs

def opens (c : Char) : Bool :=
  c == '[' || c == '\x7b'

def closes (c : Char) : Bool :=
  c == ']' || c == '\x7d'

/-- What a character asks for behind it. -/
inductive Mark where
  | opening
  | comma
  | colon
  | other
deriving DecidableEq

def Mark.ofChar (c : Char) : Mark :=
  if opens c then opening else if c = ',' then comma else if c = ':' then colon else other

def newLine (level : Nat) : List Char :=
  '\n' :: List.replicate (2 * level) ' '

/-- The blanks in front of a value or of an opening bracket. -/
def lead (level : Nat) : Mark → List Char
  | .opening | .comma => newLine level
  | .colon => [' ']
  | .other => []

/-- The blanks between two neighbours outside of quoted texts, with `level` brackets open. A bracket
that closes stands on a line of its own, unless nothing is between it and its partner. -/
def gap (level : Nat) (mark : Mark) (c : Char) : List Char :=
  if closes c then if mark = .opening then [] else newLine (level - 1) else lead level mark

def levelBehind (level : Nat) (c : Char) : Nat :=
  if opens c then level + 1 else if closes c then level - 1 else level

/-- A text without blanks, set out with an item a line. -/
def spread : Site → Nat → Mark → List Char → List Char
  | _, _, _, [] => []
  | .outside, level, mark, c :: cs =>
    gap level mark c ++ c :: spread (Site.next .outside c) (levelBehind level c) (.ofChar c) cs
  | site, level, _, c :: cs => c :: spread (site.next c) level .other cs

end JsonText

open JsonText

/-- A text is set out in a style: without blanks, or with an item a line and two blanks more for
each bracket that is open. What is quoted is left alone. -/
def JsonStyle.SetsOut (style : JsonStyle) (text : String) : Prop :=
  match style with
  | compact => squeeze .outside text.toList = text.toList
  | indented => spread .outside 0 .other (squeeze .outside text.toList) = text.toList

instance (style : JsonStyle) (text : String) : Decidable (style.SetsOut text) := by
  unfold JsonStyle.SetsOut
  cases style <;> exact inferInstance

example : JsonStyle.indented.SetsOut "[\n  \"a ]\\\"\",\n  []\n]" := by decide +kernel

example : ¬JsonStyle.indented.SetsOut "[\n  1, 2\n]" := by decide +kernel

namespace JsonText

variable {style : JsonStyle} {level : Nat} {mark : Mark}

/-- A function that leaves what is quoted alone. -/
def Copies (f : Site → List Char → List Char) : Prop :=
  ∀ site c cs, site ≠ .outside → f site (c :: cs) = c :: f (site.next c) cs

lemma copies_squeeze : Copies squeeze := by
  intro site c cs hsite
  rw [squeeze, if_neg (fun h => hsite h.1)]

lemma copies_spread (level : Nat) : Copies fun site cs => spread site level .other cs := by
  intro site c cs hsite
  cases site with
  | outside => exact absurd rfl hsite
  | inside | escaped => rfl

/-- A quoted character and its escape lead on inside of the quotes. -/
lemma Copies.escape {f : Site → List Char → List Char} (hf : Copies f) (c : Char)
    (rest : List Char) : f .inside (Json.escape c ++ rest) = Json.escape c ++ f .inside rest := by
  have hcopy : ∀ d cs, d ≠ '\x22' → d ≠ '\\' → f .inside (d :: cs) = d :: f .inside cs := by
    intro d cs hquote hback
    rw [hf .inside d cs (by decide), Site.next, if_neg hquote, if_neg hback]
  have hescaped : ∀ d cs, f .inside ('\\' :: d :: cs) = '\\' :: d :: f .inside cs := by
    intro d cs
    rw [hf .inside '\\' _ (by decide)]
    exact congrArg _ (hf .escaped d cs (by decide))
  have hdigit : ∀ n < 16, Nat.digitChar n ≠ '\x22' ∧ Nat.digitChar n ≠ '\\' := by decide
  unfold Json.escape
  split_ifs with hquote hback hbackspace hfeed hline hreturn htab hsmall
  · exact hescaped _ _
  · exact hescaped _ _
  · exact hescaped _ _
  · exact hescaped _ _
  · exact hescaped _ _
  · exact hescaped _ _
  · exact hescaped _ _
  · obtain ⟨hhigh, hhigh'⟩ := hdigit (c.toNat / 16) (by omega)
    obtain ⟨hlow, hlow'⟩ := hdigit (c.toNat % 16) (by omega)
    simp only [List.cons_append, List.nil_append]
    rw [hescaped, hcopy '0' _ (by decide) (by decide), hcopy '0' _ (by decide) (by decide),
      hcopy _ _ hhigh hhigh', hcopy _ _ hlow hlow']
  · exact hcopy c rest hquote hback

lemma Copies.quote {f : Site → List Char → List Char} (hf : Copies f) (chars rest : List Char) :
    f .inside (chars.foldr (fun c r => Json.escape c ++ r) ('\x22' :: rest)) =
      chars.foldr (fun c r => Json.escape c ++ r) ('\x22' :: f .outside rest) := by
  induction chars with
  | nil => exact hf .inside '\x22' rest (by decide)
  | cons c chars ih => rw [List.foldr_cons, hf.escape, ih, List.foldr_cons]

lemma squeeze_quote (s : String) (rest : List Char) :
    squeeze .outside (Json.quote s rest) = Json.quote s (squeeze .outside rest) :=
  congrArg _ (copies_squeeze.quote s.toList rest)

lemma spread_quote (s : String) (rest : List Char) :
    spread .outside level mark (Json.quote s rest) =
      lead level mark ++ Json.quote s (spread .outside level .other rest) :=
  congrArg (fun cs => lead level mark ++ '\x22' :: cs) ((copies_spread level).quote s.toList rest)

/-- A character of a number or of a word. -/
structure Plain (c : Char) : Prop where
  notBlank : JsonValue.isBlank c = false
  notQuote : c ≠ '\x22'
  notClosing : closes c = false
  notOpening : opens c = false
  notMark : c ≠ ',' ∧ c ≠ ':'

lemma plain_of_isDigit {c : Char} (h : c.isDigit = true) : Plain c := by
  have hne : ∀ d : Char, d.isDigit = false → c ≠ d := by
    rintro d hd rfl
    rw [h] at hd
    cases hd
  constructor
  · simp [JsonValue.isBlank, hne ' ' rfl, hne '\n' rfl, hne '\r' rfl, hne '\t' rfl]
  · exact hne _ rfl
  · simp [closes, hne ']' rfl, hne '\x7d' rfl]
  · simp [opens, hne '[' rfl, hne '\x7b' rfl]
  · exact ⟨hne _ rfl, hne _ rfl⟩

instance (c : Char) : Decidable (Plain c) :=
  decidable_of_iff (JsonValue.isBlank c = false ∧ c ≠ '\x22' ∧ closes c = false ∧
    opens c = false ∧ c ≠ ',' ∧ c ≠ ':')
    ⟨fun ⟨h₁, h₂, h₃, h₄, h₅⟩ => ⟨h₁, h₂, h₃, h₄, h₅⟩,
      fun h => ⟨h.notBlank, h.notQuote, h.notClosing, h.notOpening, h.notMark⟩⟩

/-- The text of a number or of a word. -/
def PlainText (word : List Char) : Prop :=
  ∀ c ∈ word, Plain c

instance (word : List Char) : Decidable (PlainText word) :=
  List.decidableBAll Plain word

@[simp]
lemma plainText_append {a b : List Char} : PlainText (a ++ b) ↔ PlainText a ∧ PlainText b :=
  List.forall_mem_append

@[simp]
lemma plainText_cons {c : Char} {word : List Char} :
    PlainText (c :: word) ↔ Plain c ∧ PlainText word :=
  List.forall_mem_cons

lemma plainText_nil : PlainText [] :=
  List.forall_mem_nil _

lemma plainText_of_digits {ds : List Char} (h : ∀ c ∈ ds, c.isDigit = true) : PlainText ds :=
  fun c hc => plain_of_isDigit (h c hc)

lemma plainText_toDigits (n : Nat) : PlainText (Nat.toDigits 10 n) :=
  plainText_of_digits (isWhole_toDigits n).digits

lemma squeeze_plain {word : List Char} (h : PlainText word) (rest : List Char) :
    squeeze .outside (word ++ rest) = word ++ squeeze .outside rest := by
  induction word with
  | nil => rfl
  | cons c word ih =>
    obtain ⟨hc, hword⟩ := plainText_cons.1 h
    rw [List.cons_append, squeeze, if_neg (by simp [hc.notBlank]), Site.next, if_neg hc.notQuote,
      ih hword, List.cons_append]

lemma Plain.spread {c : Char} (h : Plain c) (cs : List Char) :
    spread .outside level mark (c :: cs) =
      lead level mark ++ c :: spread .outside level .other cs := by
  have hmark : Mark.ofChar c = .other := by
    simp [Mark.ofChar, h.notOpening, h.notMark]
  simp [JsonText.spread, gap, levelBehind, Site.next, h.notClosing, h.notOpening, h.notQuote, hmark]

lemma spread_plain {word : List Char} (h : PlainText word) (hne : word ≠ []) (rest : List Char) :
    spread .outside level mark (word ++ rest) =
      lead level mark ++ (word ++ spread .outside level .other rest) := by
  induction word generalizing mark with
  | nil => exact absurd rfl hne
  | cons c word ih =>
    obtain ⟨hc, hword⟩ := plainText_cons.1 h
    rw [List.cons_append, hc.spread]
    cases word with
    | nil => rfl
    | cons d word =>
      rw [ih hword (List.cons_ne_nil d word)]
      rfl

lemma squeeze_lineBreak (level : Nat) (cs : List Char) :
    squeeze .outside (style.lineBreak level ++ cs) = squeeze .outside cs := by
  cases style with
  | compact => rfl
  | indented =>
    change squeeze .outside (List.replicate (2 * level) ' ' ++ cs) = _
    induction 2 * level with
    | zero => rfl
    | succ n ih => exact ih

lemma spread_colon (cs : List Char) :
    spread .outside level .other (':' :: cs) = ':' :: spread .outside level .colon cs :=
  rfl

lemma squeeze_colon (cs : List Char) :
    squeeze .outside (style.colon ++ cs) = ':' :: squeeze .outside cs := by
  cases style <;> rfl

end JsonText

namespace Decimal

lemma isDigit_of_mem_significantDigits {x : Decimal} {c : Char} (h : c ∈ x.significantDigits) :
    c.isDigit = true := by
  unfold significantDigits at h
  split at h
  next =>
    rw [List.mem_singleton.1 h]
    rfl
  next =>
    rw [List.mem_reverse] at h
    have hdigits := (List.dropWhile_sublist _).subset h
    exact (isWhole_toDigits x.coefficient).digits c (List.mem_reverse.1 hdigits)

lemma plainText_layout (x : Decimal) : PlainText x.layout := by
  have hdigits : PlainText x.significantDigits :=
    plainText_of_digits fun c hc => isDigit_of_mem_significantDigits hc
  have htake : ∀ n, PlainText (x.significantDigits.take n) := fun n c hc =>
    hdigits c (List.mem_of_mem_take hc)
  have hdrop : ∀ n, PlainText (x.significantDigits.drop n) := fun n c hc =>
    hdigits c (List.mem_of_mem_drop hc)
  have htail : PlainText x.significantDigits.tail := fun c hc => hdigits c (List.mem_of_mem_tail hc)
  have hzeros : ∀ k, PlainText (List.replicate k '0') := fun k =>
    plainText_of_digits fun c hc => JsonValue.isDigit_of_mem_zeros hc
  have hsigns : Plain '.' ∧ Plain 'e' ∧ Plain '+' ∧ Plain '-' ∧ Plain '0' := by decide
  unfold layout positional scientific
  dsimp only
  split_ifs <;> simp [plainText_nil, plainText_toDigits, hdigits, htake, hdrop, htail, hzeros, hsigns]

lemma layout_ne_nil (x : Decimal) : x.layout ≠ [] := by
  unfold layout positional scientific
  dsimp only
  split_ifs <;> simp

end Decimal

namespace Json

variable {style : JsonStyle} {level : Nat} {mark : Mark}

mutual

/-- Without its blanks a value is written as it is without line breaks. -/
lemma squeeze_write (j : Json) (level : Nat) (rest : List Char) :
    squeeze .outside (j.write style level rest) = j.write .compact level (squeeze .outside rest) := by
  cases j with
  | null => rfl
  | bool value => cases value <;> rfl
  | integer n => exact squeeze_plain (plainText_toDigits n) rest
  | decimal x => exact squeeze_plain x.plainText_layout rest
  | string s => exact squeeze_quote s rest
  | array items =>
    cases items with
    | nil => rfl
    | cons item items =>
      change '[' :: squeeze .outside _ = _
      rw [squeeze_lineBreak, squeeze_write item, squeeze_writeItems items, squeeze_lineBreak]
      rfl
  | object members =>
    cases members with
    | nil => rfl
    | cons member members =>
      change '\x7b' :: squeeze .outside _ = _
      rw [squeeze_lineBreak, squeeze_quote, squeeze_colon, squeeze_write member.2,
        squeeze_writeMembers members, squeeze_lineBreak]
      rfl

lemma squeeze_writeItems (items : List Json) (level : Nat) (rest : List Char) :
    squeeze .outside (writeItems style level items rest) =
      writeItems .compact level items (squeeze .outside rest) := by
  cases items with
  | nil => rfl
  | cons item items =>
    change ',' :: squeeze .outside _ = _
    rw [squeeze_lineBreak, squeeze_write item, squeeze_writeItems items]
    rfl

lemma squeeze_writeMembers (members : List (String × Json)) (level : Nat) (rest : List Char) :
    squeeze .outside (writeMembers style level members rest) =
      writeMembers .compact level members (squeeze .outside rest) := by
  cases members with
  | nil => rfl
  | cons member members =>
    change ',' :: squeeze .outside _ = _
    rw [squeeze_lineBreak, squeeze_quote, squeeze_colon, squeeze_write member.2,
      squeeze_writeMembers members]
    rfl

end

mutual

/-- Without blanks, a value is set out as it is written with an item a line. -/
lemma spread_write (j : Json) (level : Nat) (mark : Mark) (rest : List Char) :
    spread .outside level mark (j.write .compact level rest) =
      lead level mark ++ j.write .indented level (spread .outside level .other rest) := by
  cases j with
  | null =>
    have hword : PlainText ['n', 'u', 'l', 'l'] := by decide
    exact spread_plain hword (List.cons_ne_nil _ _) rest
  | bool value =>
    have hwords : PlainText ['f', 'a', 'l', 's', 'e'] ∧ PlainText ['t', 'r', 'u', 'e'] := by decide
    cases value with
    | false => exact spread_plain hwords.1 (List.cons_ne_nil _ _) rest
    | true => exact spread_plain hwords.2 (List.cons_ne_nil _ _) rest
  | integer n => exact spread_plain (plainText_toDigits n) Nat.toDigits_ne_nil rest
  | decimal x => exact spread_plain x.plainText_layout x.layout_ne_nil rest
  | string s => exact spread_quote s rest
  | array items =>
    cases items with
    | nil => rfl
    | cons item items =>
      change lead level mark ++ '[' :: spread .outside (level + 1) .opening
        (item.write .compact (level + 1) (writeItems .compact (level + 1) items (']' :: rest))) = _
      rw [spread_write item, spread_writeItems items]
      rfl
  | object members =>
    cases members with
    | nil => rfl
    | cons member members =>
      change lead level mark ++ '\x7b' :: spread .outside (level + 1) .opening (quote member.1 (':' ::
        member.2.write .compact (level + 1)
          (writeMembers .compact (level + 1) members ('\x7d' :: rest)))) = _
      rw [spread_quote, spread_colon, spread_write member.2, spread_writeMembers members]
      rfl

lemma spread_writeItems (items : List Json) (level : Nat) (rest : List Char) :
    spread .outside (level + 1) .other (writeItems .compact (level + 1) items (']' :: rest)) =
      writeItems .indented (level + 1) items
        (newLine level ++ ']' :: spread .outside level .other rest) := by
  cases items with
  | nil => rfl
  | cons item items =>
    change ',' :: spread .outside (level + 1) .comma (item.write .compact (level + 1)
      (writeItems .compact (level + 1) items (']' :: rest))) = _
    rw [spread_write item, spread_writeItems items]
    rfl

lemma spread_writeMembers (members : List (String × Json)) (level : Nat) (rest : List Char) :
    spread .outside (level + 1) .other (writeMembers .compact (level + 1) members ('\x7d' :: rest)) =
      writeMembers .indented (level + 1) members
        (newLine level ++ '\x7d' :: spread .outside level .other rest) := by
  cases members with
  | nil => rfl
  | cons member members =>
    change ',' :: spread .outside (level + 1) .comma (quote member.1 (':' ::
      member.2.write .compact (level + 1)
        (writeMembers .compact (level + 1) members ('\x7d' :: rest)))) = _
    rw [spread_quote, spread_colon, spread_write member.2, spread_writeMembers members]
    rfl

end

/-- The text of a value is set out in its style. -/
theorem setsOut_render (j : Json) (style : JsonStyle) : style.SetsOut (j.render style) := by
  have hsqueeze : squeeze .outside (j.write style 0 []) = j.write .compact 0 [] :=
    squeeze_write j 0 []
  unfold JsonStyle.SetsOut
  rw [render, String.toList_ofList, hsqueeze]
  cases style with
  | compact => rfl
  | indented => exact spread_write j 0 .other []

end Json

end ScriptTree
