import ScriptTree.Proofs.Enclosed
import ScriptTree.Proofs.Nearest
import ScriptTree.Proofs.Numerals
import ScriptTree.Proofs.ObjectLiterals
import ScriptTree.Proofs.ReadBack

/-!
# Whole numbers

A number of the source is held as the double-precision number nearest to it. However a whole number
up to `2 ^ 53 - 1` is written, with zeros around it, a fraction or an exponent, it is held exactly
and is a whole number again in the tree that is written. What is a whole number there was rounded to
it, and is not larger.

Main statement: `whole_literals`.
-/

namespace ScriptTree

open ScriptTree.Parser

/-- A tree that is a number, written with a value. -/
def numberJson (value : Json) : Json :=
  .object [("type", .string "NumericLiteral"), ("value", value)]

lemma toJson_numericLiteral (x : Binary64) :
    (Node.numericLiteral x).toJson = numberJson (.ofBinary64 x) := by
  rw [Node.toJson_eq]
  rfl

/-- What a number that is written with a text is held as, and how it is written in a tree. -/
structure HeldAs (text : String) (x : Binary64) : Prop where
  exact : ∃! q, Denotes text q
  whole : ∀ k : Nat, Denotes text k → k ≤ 9007199254740991 →
    (Node.numericLiteral x).toJson = numberJson (.integer k)
  rounded : ∀ k : Nat, (Node.numericLiteral x).toJson = numberJson (.integer k) →
    k ≤ 9007199254740991 ∧ x.value = k ∧ ∀ q, Denotes text q → Binary64.IsNearest q x

lemma toJson_eq_integer_iff {x : Binary64} {k : Nat} :
    (Node.numericLiteral x).toJson = numberJson (.integer k) ↔
      x ≠ .infinite ∧ x.value = k ∧ k ≤ 9007199254740991 := by
  rw [toJson_numericLiteral]
  refine Iff.trans ?_ Json.ofBinary64_eq_integer_iff
  constructor
  · intro h
    injection h with hmembers
    simpa using hmembers
  · exact congrArg numberJson

/-- What is read off the text of a number. -/
lemma heldAs_of_ofText? {text : String} {d : Decimal} (htoken : IsToken .number text)
    (hd : Decimal.ofText? text = some d) : HeldAs text d.toBinary64 := by
  have hvalue : ∀ q, Denotes text q → d.value = q := by
    intro q hq
    obtain ⟨d', hd', rfl⟩ := hq.exists_ofText?
    rw [Option.some.inj (hd.symm.trans hd')]
  obtain ⟨q, hq⟩ := isToken_number_iff.1 htoken
  rw [Decimal.toBinary64_eq]
  refine ⟨⟨q, hq, fun p hp => hp.unique hq⟩, fun k hk hle => ?_, fun k hk => ?_⟩
  · rw [hvalue k hk, toJson_eq_integer_iff]
    obtain ⟨hheld, hexact⟩ := Binary64.nearest_natCast (k := k) (by omega)
    exact ⟨hheld.2, hexact, hle⟩
  · obtain ⟨hfinite, hwhole, hle⟩ := toJson_eq_integer_iff.1 hk
    refine ⟨hle, hwhole, fun p hp => ?_⟩
    rw [hvalue p hp] at hfinite ⊢
    exact Binary64.isNearest_nearest (hvalue p hp ▸ d.value_nonneg) hfinite

lemma program_of_numeral {text : String} (h : IsToken .number text) {n limit : Nat}
    (hlimit : 2 ≤ limit) :
    Takes (Grammar.upTo (n + 2)).program ⟨limit, 0, false⟩ [(.number, text)]
      (.program [numeral text]) [] := by
  have hprimary : Takes (Grammar.upTo (n + 1)).primary ⟨limit, 2, false⟩ [(.number, text)]
      (numeral text) [] := by
    refine Takes.lookahead_bind fun t ht => ?_
    rw [ht]
    exact numeral_takes h
  have helement : Takes (Grammar.upTo (n + 1)).element ⟨limit, 1, false⟩ [(.number, text)]
      (numeral text) [] :=
    element_takes_of_primary rfl Kind.noConfusion (Nat.succ_pos n) hlimit hprimary
  have hsequence : Takes (Grammar.upTo (n + 1)).sequence ⟨limit, 1, false⟩ [(.number, text)]
      (numeral text) [] :=
    helement.bind (Takes.sees_neg (by decide) (Takes.pure _))
  refine program_of_statementKind Kind.noConfusion (by omega) ?_
  refine Takes.lookahead_bind fun t ht => ?_
  rw [ht]
  exact hsequence.bind (Takes.accept_neg (by decide) (Takes.pure _))

lemma parse_numeral {text : String} (h : IsToken .number text) {limit : Nat} (hlimit : 2 ≤ limit) :
    parse text limit = .ok (.program [numeral text]) := by
  obtain ⟨hlexemes, last, hlast⟩ := id h
  exact parse_of_takes (fun n _ => program_of_numeral h hlimit) hlexemes hlast

/-- The numbers of an accepted tree stand in its source. -/
lemma exists_token_of_number {source : String} {limit : Nat} {tree : Node}
    (h : parse source limit = .ok tree) {entry : Nat × Node} (hentry : entry ∈ tree.walk)
    {x : Binary64} (hx : entry.2 = .numericLiteral x) :
    ∃ t : Token, t.Stands source ∧ t.kind = .number ∧ IsToken .number t.text ∧
      ∃ d, Decimal.ofText? t.text = some d ∧ d.toBinary64 = x := by
  obtain ⟨token, after, r, hnext, hrun, -⟩ := programOf_of_parse h
  obtain ⟨ts, hpass, body, rfl, hbody⟩ :=
    program_gives (upTo_faithful _) (Cursor.lexical_of_next hnext) tree r hrun
  have hin := (Cursor.In.ofSource source).next hnext
  have hnumbers := hbody.numbers (P := fun x => ∃ t : Token, t.Stands source ∧ t.kind = .number ∧
    IsToken .number t.text ∧ ∃ d, Decimal.ofText? t.text = some d ∧ d.toBinary64 = x) ?_
  · exact hnumbers.of_mem_walkFrom hentry ("value", .number x) (by rw [hx]; simp [Node.fields]) x rfl
  · rintro x t ht ⟨hkind, hvalue⟩
    have hreads := hpass.follows.reads (Cursor.reads_of_next hnext) t ht
    rcases hpass.follows.stands ⟨Or.inl hin.token, hin.cursor⟩ ht with hstands | htext | htext
    · refine ⟨t, hstands, hkind, ?_, hvalue⟩
      rcases hreads with hfree | htoken
      · rw [hkind] at hfree
        cases hfree
      · rwa [hkind] at htoken
    · rw [hkind] at htext
      cases htext
    · rw [hkind] at htext
      cases htext

/-- Every number that is a token by itself is accepted. If its exact value is a whole number up to
`2 ^ 53 - 1`, it is that number in the tree that is written. And where a tree has a whole number, in
whatever source, it is the number nearest to what is written there, and at most `2 ^ 53 - 1`. -/
theorem whole_literals :
    (∀ text, IsToken .number text → ∃ x, HeldAs text x ∧
      ∀ limit ≥ 2, parse text limit = .ok (.program [.numericLiteral x])) ∧
    ∀ source limit tree, parse source limit = .ok tree →
      ∀ entry ∈ tree.walk, ∀ x, entry.2 = .numericLiteral x →
        ∃ t : Token, t.Stands source ∧ t.kind = .number ∧ HeldAs t.text x := by
  constructor
  · intro text h
    obtain ⟨d, hd⟩ := exists_decimal (Cursor.spells_of_isToken h)
    refine ⟨d.toBinary64, heldAs_of_ofText? h hd, fun limit hlimit => ?_⟩
    rw [parse_numeral h hlimit, numeral, hd]
    rfl
  · intro source limit tree h entry hentry x hx
    obtain ⟨t, hstands, hkind, htoken, d, hd, rfl⟩ := exists_token_of_number h hentry hx
    exact ⟨t, hstands, hkind, heldAs_of_ofText? htoken hd⟩

/-- The largest of these numbers, with a fraction and an exponent, and a number that is rounded to
it. -/
theorem literals_at_the_limit :
    (∃ x, parse "90071992547409.910e2" = .ok (.program [.numericLiteral x]) ∧
      (Node.numericLiteral x).toJson = numberJson (.integer 9007199254740991)) ∧
    ∃ x, parse "9007199254740990.7" = .ok (.program [.numericLiteral x]) ∧
      (Node.numericLiteral x).toJson = numberJson (.integer 9007199254740991) ∧
      Binary64.IsNearest (90071992547409907 / 10) x := by
  have hdigits : ∀ ds : List Char, ds ≠ [] ∧ ds.all Char.isDigit = true → IsDigits ds :=
    fun ds h => ⟨h.1, List.all_eq_true.1 h.2⟩
  constructor
  · have hvalue : Denotes "90071992547409.910e2" (9007199254740991 : Nat) := by
      convert @Denotes.number "90071992547409.910e2" _ _ _ _ _
        (hdigits "90071992547409".toList (by decide)) (.digits (hdigits "910".toList (by decide)))
        (.plain (.inl rfl) (hdigits "2".toList (by decide))) (by decide) using 1
      rw [show natOf "90071992547409".toList = 90071992547409 by decide +kernel,
        show natOf "910".toList = 910 by decide +kernel, show natOf "2".toList = 2 by decide +kernel,
        show "910".toList.length = 3 by decide]
      norm_num
    obtain ⟨x, hx, hparse⟩ := whole_literals.1 _ (isToken_number_iff.2 ⟨_, hvalue⟩)
    exact ⟨x, hparse _ (by decide), hx.whole _ hvalue le_rfl⟩
  · have hvalue : Denotes "9007199254740990.7" (90071992547409907 / 10) := by
      convert @Denotes.number "9007199254740990.7" _ _ _ _ _
        (hdigits "9007199254740990".toList (by decide)) (.digits (hdigits "7".toList (by decide)))
        .none (by decide) using 1
      rw [show natOf "9007199254740990".toList = 9007199254740990 by decide +kernel,
        show natOf "7".toList = 7 by decide +kernel, show "7".toList.length = 1 by decide]
      norm_num
    have htoken := isToken_number_iff.2 ⟨_, hvalue⟩
    obtain ⟨x, hx, hparse⟩ := whole_literals.1 _ htoken
    have hjson : (Node.numericLiteral x).toJson = numberJson (.integer 9007199254740991) := by
      have hread : ((Decimal.ofText? "9007199254740990.7").getD ⟨0, 0⟩).toBinary64 =
          .finite 9007199254740991 0 := by
        decide +kernel
      have hsame := (hparse 2 le_rfl).symm.trans (parse_numeral htoken le_rfl)
      obtain rfl : x = .finite 9007199254740991 0 := by simpa [numeral, hread] using hsame
      exact toJson_eq_integer_iff.2 ⟨Binary64.noConfusion, by simp [Binary64.value], le_rfl⟩
    exact ⟨x, hparse _ (by decide), hjson, (hx.rounded _ hjson).2.2 _ hvalue⟩

end ScriptTree
