import ScriptTree.Proofs.Backtracking
import ScriptTree.Proofs.Rescan

/-!
# The lexical rules as regular expressions

Each pattern of the lexical rules is the reading of a regular expression: the characters that it
counts are those of the first match of a backtracking matcher, which goes through all ways to match
in order. For most expressions that holds because what follows a repetition never matches a
character of the repetition, so no shorter run is tried with success. Quoted texts are the
exception, since a quote may follow in the middle of the run.

Main statement: `Rule.firstMatch?_eq`.
-/

namespace ScriptTree

namespace Regex

/-- Any character of the line. -/
def inLine : Regex :=
  one (· != '\n')

/-- One or more digits. -/
def digits : Regex :=
  plus (one Char.isDigit)

/-- From a quote to a quote on the same line. -/
def quoted (quote : Char) : Regex :=
  seq (lit [quote]) (seq (star inLine) (lit [quote]))

/-- A part of a regular expression's body: a backslash and the character behind it, or another
character that is no slash. -/
def bodyUnit : Regex :=
  alt (seq (lit ['\\']) inLine) (one fun c => c != '/' && c != '\\' && c != '\n')

/-- The first of some texts. -/
def texts (ts : List String) : Regex :=
  oneOf (ts.map String.toList)

/-- The first of some words that is a whole word. -/
def wholeWords (ws : List String) : Regex :=
  seq boundary (seq (texts ws) boundary)

/-- One of some characters. -/
def among (cs : List Char) : Regex :=
  one cs.contains

/-- A sign. -/
def sign : Regex :=
  among ['+', '-']

def fraction : Regex :=
  seq (lit ['.']) digits

def exponent : Regex :=
  seq (among ['e', 'E']) (seq (opt sign) digits)

/-- An expression reads at the front of a text what a pattern reads. -/
def ReadsAs (r : Regex) (pattern : Pattern) : Prop :=
  ∀ cs, r.through some ⟨[], cs⟩ = (pattern.length? cs).map (Spot.advance ⟨[], cs⟩)

variable {α : Type}

lemma readsAs_run (p : Char → Bool) : (plus (one p)).ReadsAs (.run p) := by
  intro cs
  rw [through_plus_one fun s => through_star_one_of_isSome s rfl]
  simp only [Pattern.run]
  cases runLength p cs <;> rfl

lemma readsAs_lineComment : (seq (lit ['/', '/']) (star inLine)).ReadsAs .lineComment := by
  intro cs
  rw [through_seq]
  by_cases hfront : ['/', '/'] <+: cs
  · obtain ⟨body, rfl⟩ := hfront
    rw [through_lit_append, inLine, through_star_one_of_isSome _ rfl]
    exact congrArg some (Spot.advance_append [] ['/', '/'] body _).symm
  · have hnone : Pattern.lineComment.length? cs = none := by
      simp only [Pattern.lineComment]
      split
      next body => exact absurd (List.prefix_append _ body) hfront
      next => rfl
    rw [through_lit_of_not hfront, hnone]
    rfl

/-- A lazy repetition stops at the first `*/`. -/
lemma through_commentTail (b cs : List Char) :
    (lazyStar (one fun _ => true)).through ((lit ['*', '/']).through some) ⟨b, cs⟩ =
      (blockCommentTail? cs).map (Spot.advance ⟨b, cs⟩) := by
  fun_induction blockCommentTail? cs generalizing b with
  | case1 =>
    rw [through_lazyStar _ _ (consumes_one _), through_one, through_lit]
    rfl
  | case2 cs =>
    rw [through_lazyStar _ _ (consumes_one _)]
    exact congrArg (Option.or · _) (through_lit_append some ['*', '/'] b cs)
  | case3 c cs hfront ih =>
    have hlit : (lit ['*', '/']).through some ⟨b, c :: cs⟩ = none := by
      refine through_lit_of_not ?_
      rintro ⟨tail, htail⟩
      cases htail
      exact hfront tail rfl rfl
    rw [through_lazyStar _ _ (consumes_one _), hlit, Option.none_or, through_one_cons, if_pos rfl,
      ih, Option.map_map]
    congr 1
    funext n
    exact (Spot.advance_cons b c cs n).symm

lemma readsAs_blockComment :
    (seq (lit ['/', '*']) (seq (lazyStar (one fun _ => true)) (lit ['*', '/']))).ReadsAs
      .blockComment := by
  intro cs
  rw [through_seq]
  by_cases hfront : ['/', '*'] <+: cs
  · obtain ⟨tail, rfl⟩ := hfront
    have hlength : Pattern.blockComment.length? (['/', '*'] ++ tail) =
        (blockCommentTail? tail).map (· + 2) := rfl
    rw [through_lit_append, through_seq, through_commentTail, hlength, Option.map_map]
    congr 1
    funext n
    exact (Spot.advance_append [] ['/', '*'] tail n).symm
  · rw [through_lit_of_not hfront, blockComment_eq_none hfront]
    rfl

lemma lit_refuses {p : Char → Bool} {c : Char} (hc : p c = false) (k : Spot → Option α)
    (b : List Char) (d : Char) (cs : List Char) (hd : p d = true) :
    (lit [c]).through k ⟨b, d :: cs⟩ = none := by
  refine through_lit_of_not ?_
  rintro ⟨tail, htail⟩
  cases htail
  rw [hc] at hd
  cases hd

lemma readsAs_bigInt : (seq digits (lit ['n'])).ReadsAs .bigInt := by
  intro cs
  rw [through_seq, digits, through_plus_one (through_star_one_of_none (lit_refuses rfl some)),
    through_lit_singleton]
  simp only [Pattern.bigInt, Spot.advance_after, Spot.advance_advance]
  cases runLength Char.isDigit cs with
  | zero => rfl
  | succ n =>
    rw [if_neg (Nat.succ_ne_zero n)]
    dsimp only
    split <;> rfl

lemma through_digits {k : Spot → Option α} (h : ∀ s, (k s).isSome = true) (s : Spot) :
    digits.through k s =
      if runLength Char.isDigit s.after = 0 then none
      else k (s.advance (runLength Char.isDigit s.after)) :=
  through_plus_one (fun s => through_star_one_of_isSome s (h _)) s

lemma isSome_through_opt {k : Spot → Option α} (h : ∀ s, (k s).isSome = true) (r : Regex)
    (s : Spot) : ((opt r).through k s).isSome = true := by
  rw [through_opt, Option.isSome_or, h s, Bool.or_true]

lemma through_fraction {k : Spot → Option α} (h : ∀ s, (k s).isSome = true) (s : Spot) :
    (opt fraction).through k s = k (s.advance (fractionLength s.after)) := by
  obtain ⟨b, cs⟩ := s
  rw [through_opt, fraction, through_seq]
  by_cases hfront : ['.'] <+: cs
  · obtain ⟨tail, rfl⟩ := hfront
    rw [through_lit_append, through_digits h]
    simp only [List.cons_append, List.nil_append, fractionLength]
    cases hrun : runLength Char.isDigit tail with
    | zero => rfl
    | succ n =>
      rw [if_neg (Nat.succ_ne_zero n), Option.or_of_isSome (h _)]
      exact congrArg k (Spot.advance_append b ['.'] tail (n + 1)).symm
  · have hzero : fractionLength cs = 0 := by
      unfold fractionLength
      split
      next tail => exact absurd (List.prefix_append _ tail) hfront
      next => rfl
    rw [through_lit_of_not hfront, Option.none_or, hzero, Spot.advance_zero]

lemma through_signedDigits {k : Spot → Option α} (h : ∀ s, (k s).isSome = true) (s : Spot) :
    (seq (opt sign) digits).through k s =
      if signedDigitsLength s.after = 0 then none
      else k (s.advance (signedDigitsLength s.after)) := by
  obtain ⟨b, cs⟩ := s
  rw [through_seq, through_opt, sign, among]
  cases cs with
  | nil => simp [through_digits h, signedDigitsLength, runLength]
  | cons c cs =>
    rw [through_one_cons, through_digits h ⟨b, c :: cs⟩, signedDigitsLength]
    by_cases hc : c = '+' ∨ c = '-'
    · -- a sign is no digit, so there are no digits without it
      have hdigits : runLength Char.isDigit (c :: cs) = 0 := by
        rcases hc with rfl | rfl <;> rfl
      have hsign : ['+', '-'].contains c = true := by simpa using hc
      have hsign' : (c == '+' || c == '-') = true := by simpa using hc
      rw [if_pos hsign, hdigits, if_pos rfl, Option.or_none, through_digits h, if_pos hsign']
      cases runLength Char.isDigit cs with
      | zero => rfl
      | succ n => rw [if_neg (Nat.succ_ne_zero n), if_neg (Nat.succ_ne_zero _), Spot.advance_cons]
    · have hsign : ¬['+', '-'].contains c = true := by simpa using hc
      have hsign' : ¬(c == '+' || c == '-') = true := by simpa using hc
      rw [if_neg hsign, Option.none_or, if_neg hsign']

lemma through_exponent {k : Spot → Option α} (h : ∀ s, (k s).isSome = true) (s : Spot) :
    (opt exponent).through k s = k (s.advance (exponentLength s.after)) := by
  obtain ⟨b, cs⟩ := s
  rw [through_opt, exponent, through_seq, among]
  cases cs with
  | nil => simp [exponentLength]
  | cons c cs =>
    rw [through_one_cons, exponentLength]
    by_cases hc : c = 'e' ∨ c = 'E'
    · have hmark : ['e', 'E'].contains c = true := by simpa using hc
      have hmark' : (c == 'e' || c == 'E') = true := by simpa using hc
      rw [if_pos hmark, through_signedDigits h, if_pos hmark']
      cases signedDigitsLength cs with
      | zero => rfl
      | succ n => rw [if_neg (Nat.succ_ne_zero n), Option.or_of_isSome (h _), Spot.advance_cons]
    · have hmark : ¬['e', 'E'].contains c = true := by simpa using hc
      have hmark' : ¬(c == 'e' || c == 'E') = true := by simpa using hc
      rw [if_neg hmark, Option.none_or, if_neg hmark', Spot.advance_zero]

lemma readsAs_number : (seq digits (seq (opt fraction) (opt exponent))).ReadsAs .number := by
  intro cs
  have htotal : ∀ s, (some s : Option Spot).isSome = true := fun _ => rfl
  have hexponent := isSome_through_opt htotal exponent
  rw [through_seq, through_digits fun s => by
    rw [through_seq]
    exact isSome_through_opt hexponent fraction s]
  simp only [Pattern.number, through_seq, through_fraction hexponent, through_exponent htotal,
    Spot.advance_after, Spot.advance_advance]
  cases runLength Char.isDigit cs with
  | zero => rfl
  | succ n =>
    rw [if_neg (Nat.succ_ne_zero n)]
    rfl

lemma quotedTail?_cons (quote c : Char) (cs : List Char) :
    quotedTail? quote (c :: cs) =
      if c = '\n' then none
      else ((quotedTail? quote cs).map (· + 1)).or (if c = quote then some 1 else none) := by
  unfold quotedTail?
  by_cases hc : c = '\n'
  · simp [hc]
  · have hline : (c :: cs).takeWhile (· != '\n') = c :: cs.takeWhile (· != '\n') := by simp [hc]
    rw [if_neg hc, hline, List.reverse_cons, List.dropWhile_append]
    generalize (cs.takeWhile (· != '\n')).reverse.dropWhile (· != quote) = back
    cases back with
    | nil => by_cases hq : c = quote <;> simp [hq]
    | cons d back => simp

/-- A run of the line is left again until a quote stands there, so the last quote is found. -/
lemma through_quotedTail {quote : Char} (hquote : quote ≠ '\n') (b cs : List Char) :
    (star inLine).through ((lit [quote]).through some) ⟨b, cs⟩ =
      (quotedTail? quote cs).map (Spot.advance ⟨b, cs⟩) := by
  induction cs generalizing b with
  | nil =>
    rw [inLine, through_star_one_nil, through_lit_singleton]
    rfl
  | cons c cs ih =>
    have hquoted : (lit [quote]).through some ⟨b, c :: cs⟩ =
        (if c = quote then some 1 else none).map (Spot.advance ⟨b, c :: cs⟩) := by
      rw [through_lit_singleton]
      by_cases hq : c = quote <;> simp [hq]
    rw [inLine] at ih ⊢
    rw [through_star_one_cons, ih, hquoted, quotedTail?_cons quote c cs]
    by_cases hc : c = '\n'
    · simp [hc, hquote.symm]
    · rw [if_pos (by simpa using hc), if_neg hc, Option.map_or, Option.map_map]
      congr 1
      congr 1
      funext n
      exact (Spot.advance_cons b c cs n).symm

lemma readsAs_quoted {quote : Char} (hquote : quote ≠ '\n') :
    (quoted quote).ReadsAs (.quoted quote) := by
  intro cs
  rw [quoted, through_seq, through_lit_singleton]
  cases cs with
  | nil => rfl
  | cons c cs =>
    simp only [Pattern.quoted, List.head?_cons, Option.some.injEq, through_seq]
    by_cases hc : c = quote
    · rw [if_pos hc, if_pos hc, Spot.advance_cons, Spot.advance_zero, through_quotedTail hquote,
        Option.map_map]
      congr 1
      funext n
      exact (Spot.advance_cons [] c cs n).symm
    · rw [if_neg hc, if_neg hc]
      rfl

lemma consumes_bodyUnit : bodyUnit.Consumes := by
  intro s e he
  rcases List.mem_append.1 he with hescaped | hplain
  · obtain ⟨t, ht, he⟩ := List.mem_flatMap.1 hescaped
    exact (consumes_one _ t e he).trans (consumes_one _ s t ht)
  · exact consumes_one _ s e hplain

lemma through_bodyUnit_nil (k : Spot → Option α) (b : List Char) :
    bodyUnit.through k ⟨b, []⟩ = none := by
  simp [bodyUnit, through_lit_singleton]

lemma through_bodyUnit_escaped (k : Spot → Option α) (b : List Char) (cs : List Char) :
    bodyUnit.through k ⟨b, '\\' :: cs⟩ = inLine.through k ⟨'\\' :: b, cs⟩ := by
  rw [bodyUnit, through_alt, through_seq, through_lit_singleton, through_one_cons]
  exact Option.or_none

lemma through_bodyUnit_cons (k : Spot → Option α) (b : List Char) {c : Char} (cs : List Char)
    (hc : c ≠ '\\') : bodyUnit.through k ⟨b, c :: cs⟩ =
      if c = '/' ∨ c = '\n' then none else k ⟨c :: b, cs⟩ := by
  rw [bodyUnit, through_alt, through_seq, through_lit_singleton, through_one_cons]
  by_cases hend : c = '/' ∨ c = '\n'
  · rcases hend with rfl | rfl <;> rfl
  · rw [not_or] at hend
    simp [hc, hend]

/-- The parts of a body go on to a slash, which begins no part, so that no other run of parts has a
slash behind it. -/
lemma through_body {k : Spot → Option α} (b cs : List Char) :
    (star bodyUnit).through ((lit ['/']).through k) ⟨b, cs⟩ =
      (regexBody? cs).bind fun n => k ((⟨b, cs⟩ : Spot).advance (n + 1)) := by
  have hlit : ∀ {b c cs}, c ≠ '/' → (lit ['/']).through k ⟨b, c :: cs⟩ = none := by
    intro b c cs hc
    rw [through_lit_singleton]
    exact if_neg fun h => hc (Option.some.inj h)
  fun_induction regexBody? cs generalizing b with
  | case1 =>
    rw [through_star _ _ consumes_bodyUnit, through_bodyUnit_nil]
    exact through_lit_singleton k '/' ⟨b, []⟩
  | case2 cs =>
    rw [through_star _ _ consumes_bodyUnit, through_bodyUnit_cons _ _ _ (by decide)]
    exact through_lit_append k ['/'] b cs
  | case3 cs =>
    rw [through_star _ _ consumes_bodyUnit, through_bodyUnit_cons _ _ _ (by decide)]
    exact hlit (by decide)
  | case4 =>
    rw [through_star _ _ consumes_bodyUnit, through_bodyUnit_escaped, inLine, through_one]
    exact hlit (by decide)
  | case5 cs =>
    rw [through_star _ _ consumes_bodyUnit, through_bodyUnit_escaped, inLine, through_one_cons]
    exact hlit (by decide)
  | case6 c cs hc ih =>
    have hline : (c != '\n') = true := by simpa using hc
    rw [through_star _ _ consumes_bodyUnit, through_bodyUnit_escaped, inLine, through_one_cons,
      if_pos hline, ih, hlit (by decide), Option.or_none, Option.bind_map]
    congr 1
    funext n
    exact congrArg k (Spot.advance_append b ['\\', c] cs (n + 1)).symm
  | case7 c cs hslash hnewline hlast hescaped hescape ih =>
    have hc : c ≠ '\\' := by
      rintro rfl
      cases cs with
      | nil => exact hlast rfl rfl
      | cons d cs => exact hescape d cs rfl rfl
    have hend : ¬(c = '/' ∨ c = '\n') := not_or.2 ⟨hslash, hnewline⟩
    rw [through_star _ _ consumes_bodyUnit, through_bodyUnit_cons _ _ _ hc, if_neg hend, ih,
      hlit hslash, Option.or_none, Option.bind_map]
    congr 1
    funext n
    exact congrArg k (Spot.advance_cons b c cs (n + 1)).symm

/-- A body has at least one part. -/
lemma through_plus_body {k : Spot → Option α} (b cs : List Char) :
    (plus bodyUnit).through ((lit ['/']).through k) ⟨b, cs⟩ =
      match regexBody? cs with
      | some (n + 1) => k ((⟨b, cs⟩ : Spot).advance (n + 2))
      | _ => none := by
  have hstar := through_body (k := k) b cs
  rw [through_star _ _ consumes_bodyUnit] at hstar
  rw [plus, through_seq]
  by_cases hfront : ['/'] <+: cs
  · obtain ⟨tail, rfl⟩ := hfront
    exact through_bodyUnit_cons _ _ _ (by decide)
  · rw [through_lit_of_not hfront, Option.or_none] at hstar
    rw [hstar]
    cases hbody : regexBody? cs with
    | none => rfl
    | some n =>
      cases n with
      | zero =>
        obtain ⟨rest, hrest⟩ := regexBody?_eq_some hbody
        exact absurd ⟨rest, hrest.symm⟩ hfront
      | succ n => rfl

lemma readsAs_regex :
    (seq (lit ['/']) (seq (plus bodyUnit) (seq (lit ['/']) (star (one Char.isLower))))).ReadsAs
      .regex := by
  intro cs
  rw [through_seq]
  by_cases hfront : ['/'] <+: cs
  · obtain ⟨tail, rfl⟩ := hfront
    have hseq : (seq (lit ['/']) (star (one Char.isLower))).through some =
        (lit ['/']).through ((star (one Char.isLower)).through some) :=
      funext fun s => through_seq _ _ _ _
    rw [through_lit_append, through_seq, hseq, through_plus_body]
    simp only [Pattern.regex, List.cons_append, List.nil_append]
    rcases regexBody? tail with _ | _ | n
    · rfl
    · rfl
    · dsimp only
      rw [through_star_one_of_isSome _ rfl, Spot.advance_advance]
      have hcount : n + 2 + runLength Char.isLower (tail.drop (n + 2)) + ['/'].length =
          n + 3 + runLength Char.isLower (tail.drop (n + 2)) := by
        rw [List.length_singleton]
        omega
      refine congrArg some ((Spot.advance_append [] ['/'] tail _).symm.trans ?_)
      exact congrArg _ hcount
  · have hnone : Pattern.regex.length? cs = none := by
      simp only [Pattern.regex]
      split
      next tail => exact absurd (List.prefix_append _ tail) hfront
      next => rfl
    rw [through_lit_of_not hfront, hnone]
    rfl

lemma readsAs_texts {ts : List String} (h : ∀ t ∈ ts, t ≠ "" := by decide) :
    (texts ts).ReadsAs (.oneOf ts h) := by
  intro cs
  rw [texts, through_oneOf]
  simp only [Pattern.oneOf, firstWord?, List.map_findSome?]
  refine findSome?_congr fun w _ => ?_
  simp only [Function.comp_apply]
  split <;> rfl

/-- A class of characters stands for the texts of one character each. -/
lemma through_among (k : Spot → Option α) (chars : List Char) (s : Spot) :
    (among chars).through k s = chars.findSome? fun c => (lit [c]).through k s := by
  induction chars with
  | nil =>
    rw [among, through_one]
    cases s.after.head? <;> rfl
  | cons c chars ih =>
    rw [List.findSome?_cons, ← ih, among, through_one, through_lit_singleton, among, through_one]
    cases hhead : s.after.head? with
    | none => rfl
    | some d =>
      by_cases hd : d = c
      · simp only [hd, Option.any_some, List.contains_cons, BEq.rfl, Bool.true_or, if_true]
        cases k (s.advance 1) <;> simp
      · simp [hd]

lemma readsAs_among {chars : List Char} {ts : List String}
    (hts : ts.map String.toList = chars.map fun c => [c])
    (h : ∀ t ∈ ts, t ≠ "" := by decide) : (among chars).ReadsAs (.oneOf ts h) := by
  intro cs
  rw [← readsAs_texts h cs, texts, through_oneOf, hts, through_among, List.findSome?_map]
  exact findSome?_congr fun c _ => through_lit some [c] _

lemma readsAs_among_lit {chars w : List Char} {ts : List String}
    (hts : ts.map String.toList = chars.map fun c => c :: w)
    (h : ∀ t ∈ ts, t ≠ "" := by decide) :
    (seq (among chars) (lit w)).ReadsAs (.oneOf ts h) := by
  intro cs
  rw [← readsAs_texts h cs, texts, through_oneOf, hts, through_seq, through_among,
    List.findSome?_map]
  refine findSome?_congr fun c _ => ?_
  exact (through_lit_cons some c w _).symm.trans (through_lit some (c :: w) _)

/-- A word is between boundaries where no word character is behind it. -/
lemma readsAs_wholeWords {ws : List String} (h : ∀ w ∈ ws, w ≠ "" := by decide)
    (hws : AreWords ws := by decide) :
    (wholeWords ws).ReadsAs (.wholeWord ws h) := by
  intro cs
  have hwords : ∀ w ∈ ws.map String.toList, w ≠ [] ∧ ∀ c ∈ w, isWordChar c = true := by
    intro w hw
    obtain ⟨word, hword, rfl⟩ := List.mem_map.1 hw
    obtain ⟨c, tail, hcons, -⟩ := (hws word hword).1.exists_cons
    exact ⟨by simp [hcons], List.all_eq_true.1 (hws word hword).2⟩
  rw [wholeWords, through_seq, through_boundary, through_seq, texts, through_oneOf]
  simp only [Pattern.wholeWord, firstWholeWord?, List.map_findSome?]
  by_cases hstart : cs.head?.any isWordChar = true
  · have hboundary : (⟨[], cs⟩ : Spot).isBoundary = true := by simp [Spot.isBoundary, hstart]
    rw [if_pos hboundary]
    refine findSome?_congr fun w hw => ?_
    obtain ⟨hne, hall⟩ := hwords w hw
    simp only [Function.comp_apply, Bool.and_eq_true]
    by_cases hfront : w.isPrefixOf cs = true
    · obtain ⟨tail, rfl⟩ := List.isPrefixOf_iff_prefix.1 hfront
      have hlast : w.getLast?.any isWordChar = true := by
        rw [List.getLast?_eq_some_getLast hne]
        exact hall _ (List.getLast_mem hne)
      have hend : ((⟨[], w ++ tail⟩ : Spot).advance w.length).isBoundary =
          !((w ++ tail).drop w.length).head?.any isWordChar := by
        simp [Spot.isBoundary, Spot.advance, hlast]
      rw [if_pos hfront, through_boundary, hend]
      simp only [hfront, true_and]
      split <;> rfl
    · rw [if_neg hfront, if_neg fun h => hfront h.1]
      rfl
  · have hboundary : ¬(⟨[], cs⟩ : Spot).isBoundary = true := by simp [Spot.isBoundary, hstart]
    rw [if_neg hboundary, eq_comm, List.findSome?_eq_none_iff]
    intro w hw
    obtain ⟨hne, hall⟩ := hwords w hw
    rw [Function.comp_apply, if_neg]
    · rfl
    · rw [Bool.and_eq_true, List.isPrefixOf_iff_prefix]
      rintro ⟨⟨tail, rfl⟩, -⟩
      obtain ⟨c, w, rfl⟩ := List.exists_cons_of_ne_nil hne
      exact hstart (hall c List.mem_cons_self)

lemma readsAs_functionStar :
    (seq (lit "function".toList) (seq (star (one isBlank)) (lit ['*']))).ReadsAs .functionStar := by
  intro cs
  rw [through_seq, through_lit]
  simp only [Pattern.functionStar]
  split
  next hfront =>
    rw [through_seq, through_star_one_of_none (lit_refuses rfl some), through_lit_singleton,
      Spot.advance_advance]
    have hlength : "function".toList.length = 8 := rfl
    simp only [hlength, Spot.advance_after, Spot.advance_advance]
    split <;> rfl
  next => rfl

lemma readsAs_identifier : (seq (one isNameStart) (star (one isNameChar))).ReadsAs .identifier := by
  intro cs
  rw [through_seq]
  cases cs with
  | nil => rfl
  | cons c cs =>
    rw [through_one_cons, through_star_one_of_isSome _ rfl]
    simp only [Pattern.identifier]
    split
    next => exact congrArg some (Spot.advance_cons [] c cs _).symm
    next => rfl

end Regex

/-! ### The table -/

namespace Rule

open Regex

def blankRegexes : List (Option Kind × Regex) :=
  [(none, plus (one isBlank)),
   (none, seq (lit ['/', '/']) (star inLine)),
   (none, seq (lit ['/', '*']) (seq (lazyStar (one fun _ => true)) (lit ['*', '/'])))]

def literalRegexes : List (Option Kind × Regex) :=
  [(some .bigInt, seq digits (lit ['n'])),
   (some .number, seq digits (seq (opt fraction) (opt exponent))),
   (some .string, quoted '\x27'),
   (some .string, quoted '\x22'),
   (some .regex,
    seq (lit ['/']) (seq (plus bodyUnit) (seq (lit ['/']) (star (one Char.isLower)))))]

def punctuationRegexes : List (Option Kind × Regex) :=
  [(some .semicolon, texts [";"]),
   (some .lBrace, texts ["\x7b"]),
   (some .rBrace, texts ["\x7d"]),
   (some .lBracket, texts ["["]),
   (some .rBracket, texts ["]"]),
   (some .lParen, texts ["("]),
   (some .rParen, texts [")"]),
   (some .dot, texts ["."]),
   (some .comma, texts [","]),
   (some .colon, texts [":"]),
   (some .hash, texts ["#"]),
   (some .backtick, texts ["`"]),
   (some .arrow, texts ["=>"]),
   (some .dollarBrace, texts ["$\x7b"])]

def operatorRegexes : List (Option Kind × Regex) :=
  [(some .logicalAnd, texts ["&&"]),
   (some .logicalOrNullish, texts ["||", "??"]),
   (some .questionDot, texts ["?."]),
   (some .bitwiseOr, texts ["|"]),
   (some .bitwiseAnd, texts ["&"]),
   (some .bitwiseXor, texts ["^"]),
   (some .power, texts ["**"]),
   (some .comparison, texts [">=", "<=", ">", "<"]),
   (some .equality, texts ["===", "!==", "==", "!="]),
   (some .assignment, texts ["="]),
   (some .complexAssignment, seq (among ['+', '-', '*', '/']) (lit ['='])),
   (some .incrementDecrement, texts ["++", "--"]),
   (some .bang, texts ["!"]),
   (some .additive, among ['+', '-']),
   (some .multiplicative, among ['*', '/'])]

def wordRegexes : List (Option Kind × Regex) :=
  [(some .kwLetOrConst, wholeWords ["let", "const"]),
   (some .kwIf, wholeWords ["if"]),
   (some .kwElse, wholeWords ["else"]),
   (some .kwOf, wholeWords ["of"]),
   (some .kwFor, wholeWords ["for"]),
   (some .kwWhile, wholeWords ["while"]),
   (some .kwDo, wholeWords ["do"]),
   (some .kwContinue, wholeWords ["continue"]),
   (some .kwBreak, wholeWords ["break"]),
   (some .kwAsync, wholeWords ["async"]),
   (some .kwAwait, wholeWords ["await"]),
   (some .kwYield, wholeWords ["yield"]),
   (some .kwThis, wholeWords ["this"]),
   (some .kwThrow, wholeWords ["throw"]),
   (some .kwTry, wholeWords ["try"]),
   (some .kwCatch, wholeWords ["catch"]),
   (some .kwFinally, wholeWords ["finally"]),
   (some .kwFunctionStar, seq (lit "function".toList) (seq (star (one isBlank)) (lit ['*']))),
   (some .kwFunction, wholeWords ["function"]),
   (some .kwReturn, wholeWords ["return"]),
   (some .boolean, wholeWords ["true", "false"]),
   (some .kwClass, wholeWords ["class"]),
   (some .kwStatic, wholeWords ["static"]),
   (some .kwExtends, wholeWords ["extends"]),
   (some .null, wholeWords ["null"]),
   (some .undefined, wholeWords ["undefined"]),
   (some .kwNew, wholeWords ["new"])]

/-- The regular expressions of all rules, in the order in which they are tried, with the kinds of
their tokens. -/
def regexes : List (Option Kind × Regex) :=
  blankRegexes ++ literalRegexes ++ punctuationRegexes ++ operatorRegexes ++ wordRegexes ++
    [(some .identifier, seq (one isNameStart) (star (one isNameChar)))]

/-- The match of the first expression that matches at the front of a text, and what is behind it. -/
def firstMatch? (cs : List Char) : Option (Option Kind × List Char × List Char) :=
  regexes.findSome? fun entry => ((anchored entry.2).find? cs).map (entry.1, ·)

/-- An expression with a kind is that of a rule. -/
def Matches (entry : Option Kind × Regex) (rule : Rule) : Prop :=
  entry.1 = rule.kind? ∧ entry.2.ReadsAs rule.pattern

lemma matches_blanks : List.Forall₂ Matches blankRegexes blanks := by
  refine .cons ⟨rfl, readsAs_run isBlank⟩ ?_
  refine .cons ⟨rfl, readsAs_lineComment⟩ ?_
  refine .cons ⟨rfl, readsAs_blockComment⟩ ?_
  exact .nil

lemma matches_literals : List.Forall₂ Matches literalRegexes literals := by
  refine .cons ⟨rfl, readsAs_bigInt⟩ ?_
  refine .cons ⟨rfl, readsAs_number⟩ ?_
  iterate 2 refine .cons ⟨rfl, readsAs_quoted (by decide)⟩ ?_
  refine .cons ⟨rfl, readsAs_regex⟩ ?_
  exact .nil

lemma matches_punctuation : List.Forall₂ Matches punctuationRegexes punctuation := by
  repeat refine .cons ⟨rfl, readsAs_texts⟩ ?_
  exact .nil

lemma matches_operators : List.Forall₂ Matches operatorRegexes operators := by
  iterate 10 refine .cons ⟨rfl, readsAs_texts⟩ ?_
  refine .cons ⟨rfl, readsAs_among_lit rfl⟩ ?_
  iterate 2 refine .cons ⟨rfl, readsAs_texts⟩ ?_
  iterate 2 refine .cons ⟨rfl, readsAs_among rfl⟩ ?_
  exact .nil

lemma matches_words : List.Forall₂ Matches wordRegexes Rule.words := by
  iterate 17 refine .cons ⟨rfl, readsAs_wholeWords⟩ ?_
  refine .cons ⟨rfl, readsAs_functionStar⟩ ?_
  repeat refine .cons ⟨rfl, readsAs_wholeWords⟩ ?_
  exact .nil

lemma matches_table : List.Forall₂ Matches regexes table := by
  have hrel := @List.rel_append _ _ Matches
  have hliterals := hrel matches_blanks matches_literals
  have hpunctuation := hrel hliterals matches_punctuation
  have hoperators := hrel hpunctuation matches_operators
  have hwords := hrel hoperators matches_words
  refine hrel hwords (.cons ⟨rfl, readsAs_identifier⟩ ?_)
  exact .nil

lemma find?_of_readsAs {r : Regex} {pattern : Pattern} (h : r.ReadsAs pattern) (cs : List Char) :
    (anchored r).find? cs = (pattern.length? cs).map fun n => (cs.take n, cs.drop n) := by
  rw [find?_anchored, h cs, Option.map_map]
  congr 1
  funext n
  simp [Spot.advance]

/-- The rules read what the first regular expression that matches would read. -/
theorem firstMatch?_eq (cs : List Char) :
    firstMatch? cs =
      (first? cs).map fun found => (found.1, cs.take found.2, cs.drop found.2) := by
  unfold firstMatch? first?
  rw [List.map_findSome?]
  have hall := matches_table
  generalize regexes = entries at hall
  generalize table = rules at hall
  induction hall with
  | nil => rfl
  | cons hentry _ ih =>
    obtain ⟨hkind, hreads⟩ := hentry
    rw [List.findSome?_cons, List.findSome?_cons, ih, find?_of_readsAs hreads, hkind,
      Function.comp_apply, Option.map_map, Option.map_map]
    rfl

end Rule

end ScriptTree
