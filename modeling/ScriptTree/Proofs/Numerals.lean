import Mathlib.Data.Nat.Digits.Defs
import ScriptTree.Proofs.References
import ScriptTree.Proofs.Rounding
import ScriptTree.Proofs.Slashes

/-!
# Numbers have values

A number is written as digits, then a dot and digits or nothing, and then an exponent or nothing.
The texts of this form are the tokens of the kind of numbers, and each of them stands for one
rational number, which is what is read off it. So no number token is refused for its text.

Main statements: `isToken_number_iff` and `Denotes.exists_ofText?`.
-/

namespace ScriptTree

/-- At least one decimal digit, and nothing else. -/
def IsDigits (digits : List Char) : Prop :=
  digits ≠ [] ∧ ∀ c ∈ digits, c.isDigit = true

/-- The whole number with these decimal digits. -/
def natOf (digits : List Char) : Nat :=
  Nat.ofDigits 10 (digits.reverse.map fun c => c.toNat - '0'.toNat)

/-- What may stand behind the digits of a number, and how much it adds to them. -/
inductive FractionOf : List Char → ℚ → Prop where
  | none : FractionOf [] 0
  | digits {ds : List Char} (h : IsDigits ds) : FractionOf ('.' :: ds) (natOf ds / 10 ^ ds.length)

/-- What may stand behind the fraction, and the power of ten that it multiplies with. -/
inductive ExponentOf : List Char → ℤ → Prop where
  | none : ExponentOf [] 0
  | plain {mark : Char} {ds : List Char} (hmark : mark = 'e' ∨ mark = 'E') (h : IsDigits ds) :
      ExponentOf (mark :: ds) (natOf ds)
  | plus {mark : Char} {ds : List Char} (hmark : mark = 'e' ∨ mark = 'E') (h : IsDigits ds) :
      ExponentOf (mark :: '+' :: ds) (natOf ds)
  | minus {mark : Char} {ds : List Char} (hmark : mark = 'e' ∨ mark = 'E') (h : IsDigits ds) :
      ExponentOf (mark :: '-' :: ds) (-natOf ds)

/-- The exact value of a number that is written in full. -/
inductive Denotes (text : String) : ℚ → Prop where
  | number {whole fraction exponent : List Char} {f : ℚ} {e : ℤ} (hwhole : IsDigits whole)
      (hfraction : FractionOf fraction f) (hexponent : ExponentOf exponent e)
      (htext : text.toList = whole ++ (fraction ++ exponent)) :
      Denotes text ((natOf whole + f) * 10 ^ e)

section Digits

variable {ds rest : List Char}

lemma natOf_append (a b : List Char) : natOf (a ++ b) = natOf a * 10 ^ b.length + natOf b := by
  simp only [natOf, List.reverse_append, List.map_append, Nat.ofDigits_append, List.length_map,
    List.length_reverse]
  ring

lemma digitsValue_eq_natOf (ds : List Char) : digitsValue ds = natOf ds := by
  unfold digitsValue natOf
  rw [Nat.ofDigits_eq_foldr, List.foldr_map, List.foldr_reverse]
  simp only [Nat.cast_id, Nat.add_comm]

lemma IsDigits.digits?_eq (h : IsDigits ds) : digits? ds = some (natOf ds) := by
  unfold digits?
  rw [if_pos (by simpa [List.isEmpty_iff, h.1] using h.2), digitsValue_eq_natOf]

lemma IsDigits.isRun (h : IsDigits ds) (hrest : rest.head?.any Char.isDigit = false) :
    IsRun Char.isDigit ds rest :=
  ⟨h.2, hrest⟩

/-- Digits begin with no sign. -/
lemma IsDigits.head_ne (h : IsDigits ds) {c : Char} (hc : c.isDigit = false) :
    ∀ tail, ds ≠ c :: tail := by
  rintro tail rfl
  rw [h.2 c List.mem_cons_self] at hc
  cases hc

end Digits

section Parts

variable {fraction exponent : List Char} {f : ℚ} {e : ℤ}

lemma ExponentOf.head_eq (h : ExponentOf exponent e) :
    exponent.head? = Option.none ∨ exponent.head? = some 'e' ∨ exponent.head? = some 'E' := by
  cases h with
  | none => exact Or.inl rfl
  | plain hmark | plus hmark | minus hmark =>
    exact Or.inr (hmark.imp (congrArg some) (congrArg some))

lemma ExponentOf.exponent?_eq (h : ExponentOf exponent e) : exponent? exponent = some e := by
  have hletter : ∀ {mark : Char}, mark = 'e' ∨ mark = 'E' → (mark == 'e' || mark == 'E') = true := by
    rintro mark (rfl | rfl) <;> rfl
  cases h with
  | none => rfl
  | plain hmark hds =>
    simp only [exponent?, if_pos (hletter hmark)]
    split
    next tail => exact absurd rfl (hds.head_ne (c := '+') rfl tail)
    next tail => exact absurd rfl (hds.head_ne (c := '-') rfl tail)
    next => rw [hds.digits?_eq]; rfl
  | plus hmark hds | minus hmark hds =>
    simp only [exponent?, if_pos (hletter hmark), hds.digits?_eq]
    rfl

/-- No digit stands behind the digits of a number, and no letter of a big integer. -/
lemma head_not_digit (hfraction : FractionOf fraction f) (hexponent : ExponentOf exponent e) :
    (fraction ++ exponent).head?.any Char.isDigit = false ∧
      (fraction ++ exponent).head? ≠ some 'n' := by
  cases hfraction with
  | none =>
    rw [List.nil_append]
    rcases hexponent.head_eq with hhead | hhead | hhead <;> rw [hhead] <;> decide
  | digits => exact ⟨rfl, by simp⟩

end Parts

/-- What is read off a text has the value of the text. -/
theorem Denotes.exists_ofText? {text : String} {q : ℚ} (h : Denotes text q) :
    ∃ d, Decimal.ofText? text = some d ∧ d.value = q := by
  cases h with
  | @number whole fraction exponent f e hwhole hfraction hexponent htext =>
  have hrun := hwhole.isRun (head_not_digit hfraction hexponent).1
  have htake := hrun.takeWhile_eq
  have hdrop := hrun.dropWhile_eq
  have hne : whole.isEmpty = false := by simp [hwhole.1]
  unfold Decimal.ofText? Decimal.ofChars?
  simp only [htext, htake, hdrop, hne, Bool.false_eq_true, if_false]
  have hpow : (10 : ℚ) ≠ 0 := by norm_num
  cases hfraction with
  | none =>
    have hdot : ∀ ds, exponent ≠ '.' :: ds := by
      rintro ds rfl
      simpa using hexponent.head_eq
    refine ⟨⟨natOf whole, e⟩, ?_, by simp [Decimal.value]⟩
    rw [List.nil_append]
    split
    next ds => exact absurd rfl (hdot ds)
    next => simp [hexponent.exponent?_eq, digitsValue_eq_natOf]
  | @digits ds hds =>
    have hrun := hds.isRun (head_not_digit .none hexponent).1
    rw [List.nil_append] at hrun
    refine ⟨⟨natOf (whole ++ ds), e - ds.length⟩, ?_, ?_⟩
    · simp only [List.cons_append, hrun.takeWhile_eq, hrun.dropWhile_eq, hexponent.exponent?_eq,
        Option.map_some, digitsValue_eq_natOf]
    · rw [Decimal.value, natOf_append, zpow_sub₀ hpow, zpow_natCast]
      push_cast
      field_simp

/-- A text stands for one number at most. -/
lemma Denotes.unique {text : String} {p q : ℚ} (hp : Denotes text p) (hq : Denotes text q) :
    p = q := by
  obtain ⟨d, hd, rfl⟩ := hp.exists_ofText?
  obtain ⟨d', hd', rfl⟩ := hq.exists_ofText?
  rw [Option.some.inj (hd.symm.trans hd')]

lemma IsFraction.exists_value {fraction rest : List Char} (h : IsFraction fraction rest) :
    ∃ f, FractionOf fraction f := by
  obtain ⟨ds, hne, hrun, rfl⟩ := h
  exact ⟨_, .digits ⟨hne, hrun.1⟩⟩

lemma IsExponent.exists_value {exponent rest : List Char} (h : IsExponent exponent rest) :
    ∃ e, ExponentOf exponent e := by
  obtain ⟨mark, number, hmark, ⟨sign, ds, rfl | rfl | rfl, hne, hrun, rfl⟩, rfl⟩ := h
  · exact ⟨_, .plain hmark ⟨hne, hrun.1⟩⟩
  · exact ⟨_, .plus hmark ⟨hne, hrun.1⟩⟩
  · exact ⟨_, .minus hmark ⟨hne, hrun.1⟩⟩

lemma FractionOf.ifPossible {fraction exponent : List Char} {f : ℚ} {e : ℤ}
    (h : FractionOf fraction f) (hexponent : ExponentOf exponent e) :
    IfPossible IsFraction fraction exponent := by
  cases h with
  | none =>
    refine Or.inr ⟨rfl, ?_⟩
    rintro other behind ⟨ds, -, -, rfl⟩ rfl
    simpa using hexponent.head_eq
  | digits hds =>
    exact Or.inl ⟨_, hds.1, hds.isRun (head_not_digit .none hexponent).1, rfl⟩

lemma ExponentOf.exponentLength_eq {exponent : List Char} {e : ℤ} (h : ExponentOf exponent e) :
    exponentLength exponent = exponent.length := by
  have hpart : IfPossible IsExponent exponent [] := by
    cases h with
    | none =>
      refine Or.inr ⟨rfl, ?_⟩
      rintro other behind ⟨mark, number, -, -, rfl⟩
      exact List.cons_ne_nil _ _
    | plain hmark hds =>
      exact Or.inl ⟨_, _, hmark, ⟨[], _, by simp, hds.1, hds.isRun rfl, rfl⟩, rfl⟩
    | plus hmark hds =>
      exact Or.inl ⟨_, _, hmark, ⟨['+'], _, by simp, hds.1, hds.isRun rfl, rfl⟩, rfl⟩
    | minus hmark hds =>
      exact Or.inl ⟨_, _, hmark, ⟨['-'], _, by simp, hds.1, hds.isRun rfl, rfl⟩, rfl⟩
  have hlength := exponentLength_of_ifPossible hpart
  rwa [List.append_nil] at hlength

/-- What the rule for numbers reads has a value. -/
lemma exists_denotes {text : String} (h : Kind.number.Spells text) : ∃ q, Denotes text q := by
  obtain ⟨pattern, hpattern, cs, n, hlength, rfl⟩ := h
  have hkind : Kind.number.patterns = [.number] := rfl
  rw [hkind, List.mem_singleton] at hpattern
  subst hpattern
  obtain ⟨whole, rest, hcs, hwhole⟩ := exists_isRun Char.isDigit cs
  have hne : whole ≠ [] := by
    rintro rfl
    rw [← hcs] at hlength
    simp only [Pattern.number, hwhole.runLength_eq, List.length_nil] at hlength
    cases hlength
  obtain ⟨fraction, behind, rfl, hfraction⟩ := exists_ifPossible IsFraction rest
  obtain ⟨exponent, last, rfl, hexponent⟩ := exists_ifPossible IsExponent behind
  rw [← hcs, number_length? hne hwhole, fractionLength_of_ifPossible hfraction, List.drop_left,
    exponentLength_of_ifPossible hexponent] at hlength
  cases hlength
  have hf : ∃ f, FractionOf fraction f := by
    rcases hfraction with hpart | ⟨rfl, -⟩
    · exact hpart.exists_value
    · exact ⟨0, .none⟩
  have he : ∃ e, ExponentOf exponent e := by
    rcases hexponent with hpart | ⟨rfl, -⟩
    · exact hpart.exists_value
    · exact ⟨0, .none⟩
  obtain ⟨f, hf⟩ := hf
  obtain ⟨e, he⟩ := he
  refine ⟨_, .number ⟨hne, hwhole.1⟩ hf he ?_⟩
  have hsplit : whole ++ (fraction ++ (exponent ++ last)) =
      (whole ++ (fraction ++ exponent)) ++ last := by
    simp only [List.append_assoc]
  rw [String.toList_ofList, ← hcs, hsplit]
  exact List.take_left' (by simp only [List.length_append, Nat.add_assoc])

/-- The tokens of the kind of numbers are the texts that have a value. -/
theorem isToken_number_iff {text : String} : IsToken .number text ↔ ∃ q, Denotes text q := by
  constructor
  · intro h
    exact exists_denotes (Cursor.spells_of_isToken h)
  · rintro ⟨_, @⟨whole, fraction, exponent, f, e, hwhole, hfraction, hexponent, htext⟩⟩
    have hhead := head_not_digit hfraction hexponent
    have hrun := hwhole.isRun hhead.1
    refine isToken_of_first? ?_
    rw [htext, first?_digits hwhole.1 hrun, bigInt_length? hwhole.1 hrun, if_neg hhead.2,
      number_length? hwhole.1 hrun, fractionLength_of_ifPossible (hfraction.ifPossible hexponent),
      List.drop_left, hexponent.exponentLength_eq, List.length_append, List.length_append,
      Nat.add_assoc]
    rfl

/-- What the rule for numbers reads is a decimal number. -/
theorem exists_decimal {text : String} (h : Kind.number.Spells text) :
    ∃ value, Decimal.ofText? text = some value := by
  obtain ⟨q, hq⟩ := exists_denotes h
  obtain ⟨value, hvalue, -⟩ := hq.exists_ofText?
  exact ⟨value, hvalue⟩

end ScriptTree
