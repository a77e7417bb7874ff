import Mathlib.Data.List.TakeWhile
import ScriptTree.Json.Printer
import ScriptTree.Proofs.Rounding

/-!
# Reading JSON

A reader for JSON texts that knows nothing of how they are printed: blanks may stand around every
item, texts may hold any escape other than half of a surrogate pair, and numbers are exact. What a
printed value denotes is found again by it in both styles.

Main statement: `JsonValue.ofText?_render`.
-/

namespace ScriptTree

/-- What a JSON text denotes. Members of an object keep their order. -/
inductive JsonValue where
  | null
  | bool (value : Bool)
  | number (value : ℚ)
  | string (value : String)
  | array (items : List JsonValue)
  | object (members : List (String × JsonValue))

namespace JsonValue

/-! ### The reader -/

/-- A row of digits that is not empty, as a number. -/
def whole? (cs : List Char) : Option (Nat × List Char) :=
  if (cs.takeWhile Char.isDigit).isEmpty then none
  else some (digitsValue (cs.takeWhile Char.isDigit), cs.dropWhile Char.isDigit)

/-- The digits behind a point, if there is one. -/
def fraction? : List Char → Option (List Char × List Char)
  | '.' :: cs =>
    if (cs.takeWhile Char.isDigit).isEmpty then none
    else some (cs.takeWhile Char.isDigit, cs.dropWhile Char.isDigit)
  | cs => some ([], cs)

/-- The power of ten behind the digits of a number, if there is one. -/
def power? : List Char → Option (ℤ × List Char)
  | [] => some (0, [])
  | c :: cs =>
    if c = 'e' ∨ c = 'E' then
      match cs with
      | '+' :: ds => (whole? ds).map fun (n, rest) => (n, rest)
      | '-' :: ds => (whole? ds).map fun (n, rest) => (-n, rest)
      | ds => (whole? ds).map fun (n, rest) => (n, rest)
    else some (0, c :: cs)

/-- A number without a sign. It may begin with a zero only if that is all in front of the point. -/
def magnitude? (cs : List Char) : Option (ℚ × List Char) :=
  let whole := cs.takeWhile Char.isDigit
  if whole.isEmpty ∨ whole.head? = some '0' ∧ whole.length ≠ 1 then none
  else do
    let (fraction, cs) ← fraction? (cs.dropWhile Char.isDigit)
    let (power, rest) ← power? cs
    return (digitsValue (whole ++ fraction) * 10 ^ (power - fraction.length), rest)

def number? : List Char → Option (ℚ × List Char)
  | '-' :: cs => (magnitude? cs).map fun (q, rest) => (-q, rest)
  | cs => magnitude? cs

def hexDigit? (c : Char) : Option Nat :=
  if '0' ≤ c ∧ c ≤ '9' then some (c.toNat - '0'.toNat)
  else if 'a' ≤ c ∧ c ≤ 'f' then some (c.toNat - 'a'.toNat + 10)
  else if 'A' ≤ c ∧ c ≤ 'F' then some (c.toNat - 'A'.toNat + 10)
  else none

/-- The character with the number that four digits of base sixteen stand for. -/
def codePoint? (a b c d : Char) : Option Char := do
  let n := (((← hexDigit? a) * 16 + (← hexDigit? b)) * 16 + (← hexDigit? c)) * 16 + (← hexDigit? d)
  if n.isValidChar then some (Char.ofNat n) else none

/-- The character that a letter behind a backslash stands for. -/
def unescape? : Char → Option Char
  | '\x22' => some '\x22'
  | '\\' => some '\\'
  | '/' => some '/'
  | 'b' => some '\x08'
  | 'f' => some '\x0c'
  | 'n' => some '\n'
  | 'r' => some '\r'
  | 't' => some '\t'
  | _ => none

/-- A text up to the quote that closes it, and what is behind that. -/
def text? : List Char → Option (List Char × List Char)
  | [] => none
  | '\x22' :: rest => some ([], rest)
  | '\\' :: 'u' :: a :: b :: c :: d :: rest => do
    let char ← codePoint? a b c d
    let (chars, rest) ← text? rest
    return (char :: chars, rest)
  | '\\' :: c :: rest => do
    let char ← unescape? c
    let (chars, rest) ← text? rest
    return (char :: chars, rest)
  | c :: rest =>
    if c = '\\' ∨ c.toNat < 32 then none
    else do
      let (chars, rest) ← text? rest
      return (c :: chars, rest)

def isBlank (c : Char) : Bool :=
  c == ' ' || c == '\n' || c == '\r' || c == '\t'

def skipBlanks (cs : List Char) : List Char :=
  cs.dropWhile isBlank

mutual

/-- The value at the front of a text, and what is behind it; `fuel` is at least the length of what
is read. -/
def value? (fuel : Nat) (cs : List Char) : Option (JsonValue × List Char) :=
  match fuel with
  | 0 => none
  | fuel + 1 =>
    match cs with
    | 'n' :: 'u' :: 'l' :: 'l' :: rest => some (null, rest)
    | 't' :: 'r' :: 'u' :: 'e' :: rest => some (bool true, rest)
    | 'f' :: 'a' :: 'l' :: 's' :: 'e' :: rest => some (bool false, rest)
    | '\x22' :: rest => (text? rest).map fun (chars, rest) => (string (String.ofList chars), rest)
    | '[' :: rest =>
      match skipBlanks rest with
      | ']' :: rest => some (array [], rest)
      | rest => (items? fuel rest).map fun (items, rest) => (array items, rest)
    | '\x7b' :: rest =>
      match skipBlanks rest with
      | '\x7d' :: rest => some (object [], rest)
      | rest => (members? fuel rest).map fun (members, rest) => (object members, rest)
    | cs => (number? cs).map fun (q, rest) => (number q, rest)

/-- The items of an array up to the bracket that closes it, of which there is one at least. -/
def items? (fuel : Nat) (cs : List Char) : Option (List JsonValue × List Char) :=
  match fuel with
  | 0 => none
  | fuel + 1 => do
    let (item, rest) ← value? fuel cs
    match skipBlanks rest with
    | ']' :: rest => return ([item], rest)
    | ',' :: rest =>
      let (items, rest) ← items? fuel (skipBlanks rest)
      return (item :: items, rest)
    | _ => none

/-- The members of an object up to the brace that closes it, of which there is one at least. -/
def members? (fuel : Nat) (cs : List Char) : Option (List (String × JsonValue) × List Char) :=
  match fuel with
  | 0 => none
  | fuel + 1 =>
    match cs with
    | '\x22' :: cs => do
      let (name, rest) ← text? cs
      match skipBlanks rest with
      | ':' :: rest =>
        let (value, rest) ← value? fuel (skipBlanks rest)
        match skipBlanks rest with
        | '\x7d' :: rest => return ([(String.ofList name, value)], rest)
        | ',' :: rest =>
          let (members, rest) ← members? fuel (skipBlanks rest)
          return ((String.ofList name, value) :: members, rest)
        | _ => none
      | _ => none
    | _ => none

end

/-- The value that a whole text denotes, if it is JSON. -/
def ofText? (text : String) : Option JsonValue :=
  match value? text.length (skipBlanks text.toList) with
  | some (value, rest) => if skipBlanks rest = [] then some value else none
  | none => none

example : (ofText? " \x7b \"\\u00e9\" : [ -1.5e1 , null ] \x7d ").isSome = true := by decide +kernel

end JsonValue

/-! ### Digits -/

lemma foldl_digits (init : Nat) (cs : List Char) :
    cs.foldl (fun n c => 10 * n + (c.toNat - '0'.toNat)) init =
      init * 10 ^ cs.length + digitsValue cs := by
  unfold digitsValue
  induction cs generalizing init with
  | nil => simp
  | cons c cs ih =>
    rw [List.foldl_cons, List.foldl_cons, ih, ih (10 * 0 + _), List.length_cons]
    ring

lemma digitsValue_append (a b : List Char) :
    digitsValue (a ++ b) = digitsValue a * 10 ^ b.length + digitsValue b := by
  rw [digitsValue, List.foldl_append, foldl_digits]
  rfl

lemma digitsValue_zeros (k : Nat) : digitsValue (List.replicate k '0') = 0 := by
  induction k with
  | zero => rfl
  | succ k ih => rw [List.replicate_succ', digitsValue_append, ih]; rfl

lemma digitsValue_toDigits (n : Nat) : digitsValue (Nat.toDigits 10 n) = n := by
  induction n using Nat.strong_induction_on with
  | h n ih =>
    have hdigit : ∀ {k}, k < 10 → digitsValue [Nat.digitChar k] = k := by
      intro k hk
      change 10 * 0 + ((Nat.digitChar k).toNat - 48) = k
      rw [Nat.toNat_digitChar_sub_48_of_lt_ten hk]
      omega
    rw [Nat.toDigits_eq_if (by norm_num)]
    split
    next hlt => exact hdigit hlt
    next hge =>
      rw [digitsValue_append, ih (n / 10) (by omega), hdigit (Nat.mod_lt n (by norm_num)),
        List.length_singleton]
      omega

lemma head?_toDigits {n : Nat} (hn : 0 < n) : (Nat.toDigits 10 n).head? ≠ some '0' := by
  induction n using Nat.strong_induction_on with
  | h n ih =>
    rw [Nat.toDigits_eq_if (by norm_num)]
    split
    next hlt => simp [hn.ne']
    next hge =>
      rw [List.head?_append_of_ne_nil _ Nat.toDigits_ne_nil]
      exact ih (n / 10) (by omega) (by omega)

/-- Digits in front of a point: no zero stands in front of another digit. -/
structure IsWhole (cs : List Char) : Prop where
  digits : ∀ c ∈ cs, c.isDigit = true
  ne_nil : cs ≠ []
  zero : cs.head? = some '0' → cs.length = 1

lemma isWhole_toDigits (n : Nat) : IsWhole (Nat.toDigits 10 n) where
  digits _ hc := Nat.isDigit_of_mem_toDigits (by norm_num) (by norm_num) hc
  ne_nil := Nat.toDigits_ne_nil
  zero := by
    rcases Nat.eq_zero_or_pos n with rfl | hn
    · simp
    · exact fun h => absurd h (head?_toDigits hn)

/-- The front of digits that begin with no zero. -/
lemma IsWhole.take {ds : List Char} (h : IsWhole ds) (hhead : ds.head? ≠ some '0') {n : Nat}
    (hn : 0 < n) : IsWhole (ds.take n) where
  digits c hc := h.digits c (List.mem_of_mem_take hc)
  ne_nil := by
    rw [Ne, List.take_eq_nil_iff, not_or]
    exact ⟨Nat.ne_of_gt hn, h.ne_nil⟩
  zero hzero := by
    rw [List.head?_take, if_neg (Nat.ne_of_gt hn)] at hzero
    exact absurd hzero hhead

/-- No digit stands at the front. -/
def NoDigit (cs : List Char) : Prop :=
  ∀ c ∈ cs.head?, c.isDigit = false

lemma noDigit_cons {c : Char} {cs : List Char} (h : c.isDigit = false) : NoDigit (c :: cs) := by
  simpa [NoDigit] using h

lemma span_digits {ds rest : List Char} (hds : ∀ c ∈ ds, c.isDigit = true) (hrest : NoDigit rest) :
    (ds ++ rest).takeWhile Char.isDigit = ds ∧ (ds ++ rest).dropWhile Char.isDigit = rest := by
  rw [List.takeWhile_append_of_pos hds, List.dropWhile_append_of_pos hds]
  cases rest with
  | nil => simp
  | cons c rest =>
    have hc : c.isDigit = false := hrest c rfl
    simp [hc]

namespace JsonValue

lemma whole?_toDigits {rest : List Char} (n : Nat) (hrest : NoDigit rest) :
    whole? (Nat.toDigits 10 n ++ rest) = some (n, rest) := by
  obtain ⟨htake, hdrop⟩ := span_digits (isWhole_toDigits n).digits hrest
  unfold whole?
  rw [htake, hdrop, digitsValue_toDigits, if_neg (by simp [Nat.toDigits_ne_nil])]

lemma fraction?_point {ds rest : List Char} (hds : ∀ c ∈ ds, c.isDigit = true) (hne : ds ≠ [])
    (hrest : NoDigit rest) : fraction? ('.' :: (ds ++ rest)) = some (ds, rest) := by
  obtain ⟨htake, hdrop⟩ := span_digits hds hrest
  simp only [fraction?, htake, hdrop]
  rw [if_neg (by simp [hne])]

lemma fraction?_none {rest : List Char} (hrest : rest.head? ≠ some '.') :
    fraction? rest = some ([], rest) := by
  unfold fraction?
  split
  next => exact absurd rfl hrest
  next => rfl

lemma power?_none {rest : List Char} (he : rest.head? ≠ some 'e') (hE : rest.head? ≠ some 'E') :
    power? rest = some (0, rest) := by
  cases rest with
  | nil => rfl
  | cons c rest =>
    have hc : ¬(c = 'e' ∨ c = 'E') := by simpa [not_or] using And.intro he hE
    unfold power?
    dsimp only
    rw [if_neg hc]

lemma power?_written {rest : List Char} (m : ℤ) (hrest : NoDigit rest) :
    power? ('e' :: (if 0 ≤ m then '+' else '-') :: (Nat.toDigits 10 m.natAbs ++ rest)) =
      some (m, rest) := by
  have hwhole := whole?_toDigits m.natAbs hrest
  unfold power?
  dsimp only
  rw [if_pos (Or.inl rfl)]
  by_cases hm : 0 ≤ m
  · simp only [if_pos hm, hwhole, Option.map_some]
    rw [Int.natAbs_of_nonneg hm]
  · simp only [if_neg hm, hwhole, Option.map_some]
    rw [show (-(m.natAbs : ℤ)) = m by omega]

/-- A number is read in its three parts. -/
lemma magnitude?_parts {whole behind fraction cs rest : List Char} {power : ℤ}
    (hwhole : IsWhole whole) (hbehind : NoDigit behind)
    (hfraction : fraction? behind = some (fraction, cs)) (hpower : power? cs = some (power, rest)) :
    magnitude? (whole ++ behind) =
      some ((digitsValue (whole ++ fraction) : ℚ) * 10 ^ (power - fraction.length), rest) := by
  obtain ⟨htake, hdrop⟩ := span_digits hwhole.digits hbehind
  have hvalid : ¬(whole.isEmpty = true ∨ whole.head? = some '0' ∧ whole.length ≠ 1) := by
    rintro (hnil | ⟨hzero, hlength⟩)
    · exact hwhole.ne_nil (List.isEmpty_iff.1 hnil)
    · exact hlength (hwhole.zero hzero)
  unfold magnitude?
  simp only [htake, hdrop, if_neg hvalid, hfraction]
  change ((power? cs).bind fun x => some _) = _
  rw [hpower]
  rfl

/-- What may stand behind a number without becoming a part of it. -/
def Stops (rest : List Char) : Prop :=
  ∀ c ∈ rest.head?, c.isDigit = false ∧ c ≠ '.' ∧ c ≠ 'e' ∧ c ≠ 'E'

lemma Stops.noDigit {rest : List Char} (h : Stops rest) : NoDigit rest :=
  fun c hc => (h c hc).1

lemma Stops.fraction? {rest : List Char} (h : Stops rest) : fraction? rest = some ([], rest) :=
  fraction?_none fun hc => (h _ hc).2.1 rfl

lemma Stops.power? {rest : List Char} (h : Stops rest) : power? rest = some (0, rest) :=
  power?_none (fun hc => (h _ hc).2.2.1 rfl) fun hc => (h _ hc).2.2.2 rfl

lemma magnitude?_toDigits {rest : List Char} (n : Nat) (hrest : Stops rest) :
    magnitude? (Nat.toDigits 10 n ++ rest) = some ((n : ℚ), rest) := by
  rw [magnitude?_parts (isWhole_toDigits n) hrest.noDigit hrest.fraction? hrest.power?]
  simp [digitsValue_toDigits]

lemma shift_cast (a k : Nat) (z : ℤ) : ((a * 10 ^ k : Nat) : ℚ) * 10 ^ z = a * 10 ^ (k + z) := by
  rw [zpow_add₀ (by norm_num), zpow_natCast]
  push_cast
  ring

section Layout

variable {ds rest : List Char}

lemma isDigit_of_mem_zeros {c : Char} {k : Nat} (h : c ∈ List.replicate k '0') :
    c.isDigit = true := by
  rw [List.eq_of_mem_replicate h]
  rfl

/-- Digits with zeros behind them up to the point read as what they stand for. -/
lemma magnitude?_padded (hds : IsWhole ds) (hhead : ds.head? ≠ some '0') (k : Nat)
    (hrest : Stops rest) :
    magnitude? (ds ++ List.replicate k '0' ++ '.' :: (['0'] ++ rest)) =
      some ((digitsValue ds : ℚ) * 10 ^ k, rest) := by
  have hwhole : IsWhole (ds ++ List.replicate k '0') := by
    refine ⟨fun c hc => ?_, by simp [hds.ne_nil], fun h => ?_⟩
    · rcases List.mem_append.1 hc with hc | hc
      · exact hds.digits c hc
      · exact isDigit_of_mem_zeros hc
    · rw [List.head?_append_of_ne_nil _ hds.ne_nil] at h
      exact absurd h hhead
  have hpoint : fraction? ('.' :: (['0'] ++ rest)) = some (['0'], rest) :=
    fraction?_point (by simp) (by simp) hrest.noDigit
  refine (magnitude?_parts hwhole (noDigit_cons rfl) hpoint hrest.power?).trans ?_
  rw [digitsValue_append, digitsValue_append, digitsValue_zeros, Nat.add_zero,
    List.length_replicate]
  change some ((((digitsValue ds * 10 ^ k) * 10 ^ 1 + 0 : Nat) : ℚ) * _, rest) = _
  rw [Nat.add_zero, shift_cast, shift_cast, ← zpow_natCast]
  simp

/-- Digits on both sides of the point read as what they stand for. -/
lemma magnitude?_split (hds : IsWhole ds) (hhead : ds.head? ≠ some '0') {w : Nat} (hw : 0 < w)
    (hlt : w < ds.length) {cs : List Char} {power : ℤ} (hcs : NoDigit cs)
    (hpower : power? cs = some (power, rest)) :
    magnitude? (ds.take w ++ '.' :: (ds.drop w ++ cs)) =
      some ((digitsValue ds : ℚ) * 10 ^ (power - (ds.length - w : Nat)), rest) := by
  have hne : ds.drop w ≠ [] := by
    rw [Ne, List.drop_eq_nil_iff]
    omega
  have hpoint : fraction? ('.' :: (ds.drop w ++ cs)) = some (ds.drop w, cs) :=
    fraction?_point (fun c hc => hds.digits c (List.mem_of_mem_drop hc)) hne hcs
  refine (magnitude?_parts (hds.take hhead hw) (noDigit_cons rfl) hpoint hpower).trans ?_
  rw [List.take_append_drop, List.length_drop]

/-- Digits with zeros in front of them behind the point read as what they stand for. -/
lemma magnitude?_small (hds : IsWhole ds) (k : Nat) (hrest : Stops rest) :
    magnitude? (['0'] ++ '.' :: (List.replicate k '0' ++ ds ++ rest)) =
      some ((digitsValue ds : ℚ) * 10 ^ (-(k + ds.length : Nat) : ℤ), rest) := by
  have hfraction : ∀ c ∈ List.replicate k '0' ++ ds, c.isDigit = true := by
    intro c hc
    rcases List.mem_append.1 hc with hc | hc
    · exact isDigit_of_mem_zeros hc
    · exact hds.digits c hc
  have hpoint := fraction?_point hfraction (by simp [hds.ne_nil]) hrest.noDigit
  have hzero : IsWhole ['0'] := ⟨by simp, by simp, fun _ => rfl⟩
  refine (magnitude?_parts hzero (noDigit_cons rfl) hpoint hrest.power?).trans ?_
  rw [digitsValue_append, digitsValue_append, digitsValue_zeros, Nat.zero_mul, Nat.zero_add,
    List.length_append, List.length_replicate]
  change some ((((0 * 10 ^ _ + digitsValue ds : Nat) : ℚ)) * _, rest) = _
  rw [Nat.zero_mul, Nat.zero_add, zero_sub]

/-- Digits in positional form read as what they stand for. -/
lemma magnitude?_positional (hds : IsWhole ds) (hhead : ds.head? ≠ some '0') (m : ℤ)
    (hrest : Stops rest) :
    magnitude? (Decimal.positional ds m ++ rest) =
      some ((digitsValue ds : ℚ) * 10 ^ (m + 1 - ds.length), rest) := by
  unfold Decimal.positional
  split
  next hm =>
    dsimp only
    generalize hw : m.toNat + 1 = w
    by_cases hle : ds.length ≤ w
    · rw [List.take_of_length_le hle, List.drop_eq_nil_of_le hle, List.append_assoc]
      refine (magnitude?_padded hds hhead (w - ds.length) hrest).trans ?_
      rw [← zpow_natCast]
      congr 4
      omega
    · have hlt : w < ds.length := Nat.lt_of_not_le hle
      have hne : ds.drop w ≠ [] := by
        rw [Ne, List.drop_eq_nil_iff]
        omega
      rw [Nat.sub_eq_zero_of_le hlt.le, List.replicate_zero, List.append_nil,
        if_neg (by simpa using hne), List.append_assoc]
      refine (magnitude?_split hds hhead (by omega) hlt hrest.noDigit hrest.power?).trans ?_
      congr 4
      omega
  next hm =>
    refine (magnitude?_small hds ((-m).toNat - 1) hrest).trans ?_
    congr 4
    omega

/-- Digits in scientific form read as what they stand for. -/
lemma magnitude?_scientific (hds : IsWhole ds) (hhead : ds.head? ≠ some '0') (m : ℤ)
    (hrest : Stops rest) :
    magnitude? (Decimal.scientific ds m ++ rest) =
      some ((digitsValue ds : ℚ) * 10 ^ (m + 1 - ds.length), rest) := by
  have hpower := power?_written m hrest.noDigit
  have hlength : 1 ≤ ds.length := List.length_pos_iff.2 hds.ne_nil
  have htext : Decimal.scientific ds m ++ rest = ds.take 1 ++
      ((if (ds.drop 1).isEmpty then [] else '.' :: ds.drop 1) ++
        'e' :: (if 0 ≤ m then '+' else '-') :: (Nat.toDigits 10 m.natAbs ++ rest)) := by
    simp [Decimal.scientific]
  rw [htext]
  have hletter : ('e' :: (if 0 ≤ m then '+' else '-') ::
      (Nat.toDigits 10 m.natAbs ++ rest)).head? = some 'e' := rfl
  generalize 'e' :: (if 0 ≤ m then '+' else '-') :: (Nat.toDigits 10 m.natAbs ++ rest) = tail at *
  have hnodigit : NoDigit tail := by simp [NoDigit, hletter]
  by_cases hone : ds.drop 1 = []
  · have hfraction : fraction? tail = some ([], tail) := fraction?_none (by simp [hletter])
    rw [if_pos (by simpa using hone), List.nil_append]
    refine (magnitude?_parts (hds.take hhead Nat.one_pos) hnodigit hfraction hpower).trans ?_
    have hwholeds : ds.take 1 = ds := List.take_of_length_le (List.drop_eq_nil_iff.1 hone)
    have hds1 : ds.length = 1 := le_antisymm (List.drop_eq_nil_iff.1 hone) hlength
    rw [List.append_nil, hwholeds, hds1]
    simp
  · have hlt : 1 < ds.length := by
      rw [List.drop_eq_nil_iff] at hone
      omega
    rw [if_neg (by simpa using hone)]
    refine (magnitude?_split hds hhead Nat.one_pos hlt hnodigit hpower).trans ?_
    congr 4
    omega

end Layout

end JsonValue

namespace Decimal

/-- What is written of the digits of a coefficient, and the zeros that are left out. -/
lemma toDigits_eq_significantDigits {x : Decimal} (h : 0 < x.coefficient) :
    ∃ k, Nat.toDigits 10 x.coefficient = x.significantDigits ++ List.replicate k '0' := by
  have hsplit := List.takeWhile_append_dropWhile (p := (· == '0'))
    (l := (Nat.toDigits 10 x.coefficient).reverse)
  have hzeros : ∀ c ∈ (Nat.toDigits 10 x.coefficient).reverse.takeWhile (· == '0'), c = '0' := by
    intro c hc
    simpa using List.mem_takeWhile_imp hc
  unfold significantDigits
  generalize (Nat.toDigits 10 x.coefficient).reverse.takeWhile (· == '0') = zeros at *
  generalize (Nat.toDigits 10 x.coefficient).reverse.dropWhile (· == '0') = kept at *
  have hdigits : Nat.toDigits 10 x.coefficient = kept.reverse ++ List.replicate zeros.length '0' := by
    rw [← List.reverse_inj, ← hsplit, List.reverse_append, List.reverse_reverse,
      List.reverse_replicate, ← List.eq_replicate_of_mem hzeros]
  refine ⟨zeros.length, ?_⟩
  split
  next hnil =>
    -- all digits were zeros, so the coefficient is zero
    have hvalue := digitsValue_toDigits x.coefficient
    rw [hdigits, hnil, List.nil_append, digitsValue_zeros] at hvalue
    omega
  next => exact hdigits

lemma isWhole_significantDigits {x : Decimal} (h : 0 < x.coefficient) :
    IsWhole x.significantDigits ∧ x.significantDigits.head? ≠ some '0' := by
  obtain ⟨k, hdigits⟩ := toDigits_eq_significantDigits h
  have hne : x.significantDigits ≠ [] := by
    unfold significantDigits
    split
    next => simp
    next hne => exact fun heq => hne heq
  have hhead : x.significantDigits.head? ≠ some '0' := by
    have hfirst := head?_toDigits h
    rwa [hdigits, List.head?_append_of_ne_nil _ hne] at hfirst
  refine ⟨⟨fun c hc => ?_, hne, fun hzero => absurd hzero hhead⟩, hhead⟩
  refine (isWhole_toDigits x.coefficient).digits c ?_
  rw [hdigits]
  exact List.mem_append_left _ hc

lemma value_eq_significantDigits {x : Decimal} (h : 0 < x.coefficient) :
    x.value =
      digitsValue x.significantDigits * 10 ^ (x.magnitude + 1 - x.significantDigits.length) := by
  obtain ⟨k, hdigits⟩ := toDigits_eq_significantDigits h
  have hcount : digitCount x.coefficient = x.significantDigits.length + k := by
    rw [digitCount, hdigits, List.length_append, List.length_replicate]
  have hvalue := digitsValue_toDigits x.coefficient
  rw [hdigits, digitsValue_append, digitsValue_zeros, Nat.add_zero, List.length_replicate] at hvalue
  unfold value
  rw [← hvalue, JsonValue.shift_cast, magnitude, hcount]
  congr 2
  push_cast
  ring

end Decimal

namespace JsonValue

/-- A decimal is read back from its layout. -/
theorem magnitude?_layout {x : Decimal} (h : 0 < x.coefficient) {rest : List Char}
    (hrest : Stops rest) : magnitude? (x.layout ++ rest) = some (x.value, rest) := by
  obtain ⟨hwhole, hhead⟩ := x.isWhole_significantDigits h
  rw [x.value_eq_significantDigits h]
  unfold Decimal.layout
  split
  · exact magnitude?_positional hwhole hhead _ hrest
  · exact magnitude?_scientific hwhole hhead _ hrest

/-! ### Texts and values -/

lemma hexDigit?_digitChar : ∀ n < 16, hexDigit? (Nat.digitChar n) = some n := by
  decide

lemma codePoint?_of_small {c : Char} (h : c.toNat < 32) :
    codePoint? '0' '0' (Nat.digitChar (c.toNat / 16)) (Nat.digitChar (c.toNat % 16)) = some c := by
  have hvalid : c.toNat.isValidChar := Or.inl (by omega)
  unfold codePoint?
  rw [hexDigit?_digitChar _ (by omega), hexDigit?_digitChar _ (by omega),
    show hexDigit? '0' = some 0 from rfl]
  change (if Nat.isValidChar (((0 * 16 + 0) * 16 + c.toNat / 16) * 16 + c.toNat % 16) then
    some (Char.ofNat (((0 * 16 + 0) * 16 + c.toNat / 16) * 16 + c.toNat % 16)) else none) = some c
  rw [show ((0 * 16 + 0) * 16 + c.toNat / 16) * 16 + c.toNat % 16 = c.toNat by omega, if_pos hvalid,
    Char.ofNat_toNat]

/-- Every character is found again behind its escape. -/
lemma text?_escape (c : Char) (rest : List Char) :
    text? (Json.escape c ++ rest) = (text? rest).map fun (chars, rest) => (c :: chars, rest) := by
  have hmap : ∀ {d : Char}, (text? rest >>= fun (chars, rest) => pure (d :: chars, rest)) =
      (text? rest).map fun (chars, rest) => (d :: chars, rest) := by
    intro d
    cases text? rest <;> rfl
  unfold Json.escape
  split_ifs with hquote hback hbackspace hfeed hline hreturn htab hsmall
  · rw [hquote]; exact hmap
  · rw [hback]; exact hmap
  · rw [hbackspace]; exact hmap
  · rw [hfeed]; exact hmap
  · rw [hline]; exact hmap
  · rw [hreturn]; exact hmap
  · rw [htab]; exact hmap
  · change (codePoint? '0' '0' _ _ >>= fun char => text? rest >>= fun (chars, rest) =>
      pure (char :: chars, rest)) = _
    rw [codePoint?_of_small hsmall]
    exact hmap
  · have hplain : text? (c :: rest) = if c = '\\' ∨ c.toNat < 32 then none
        else text? rest >>= fun (chars, rest) => pure (c :: chars, rest) := by
      rw [text?.eq_5]
      · exact hquote
      · exact fun _ _ _ _ _ h => absurd h hback
      · exact fun _ _ h => absurd h hback
    rw [List.singleton_append, hplain, if_neg (by simp [hback, hsmall])]
    exact hmap

lemma text?_quote (s : String) (rest : List Char) :
    ∃ cs, Json.quote s rest = '\x22' :: cs ∧ text? cs = some (s.toList, rest) := by
  refine ⟨_, rfl, ?_⟩
  generalize s.toList = chars
  induction chars with
  | nil => rfl
  | cons c chars ih => rw [List.foldr_cons, text?_escape, ih, Option.map_some]

end JsonValue

namespace Json

/-- The value that is printed. -/
def value : Json → JsonValue
  | null => .null
  | bool b => .bool b
  | integer n => .number n
  | decimal x => .number x.value
  | string s => .string s
  | array items => .array (values items)
  | object members => .object (memberValues members)
where
  values : List Json → List JsonValue
    | [] => []
    | item :: items => item.value :: values items
  memberValues : List (String × Json) → List (String × JsonValue)
    | [] => []
    | (name, item) :: members => (name, item.value) :: memberValues members

/-- No decimal is zero. Zero is a whole number and is printed as one. -/
inductive Proper : Json → Prop where
  | null : Proper null
  | bool (b : Bool) : Proper (bool b)
  | integer (n : Nat) : Proper (integer n)
  | decimal {x : Decimal} (h : 0 < x.coefficient) : Proper (decimal x)
  | string (s : String) : Proper (string s)
  | array {items : List Json} (h : ∀ item ∈ items, item.Proper) : Proper (array items)
  | object {members : List (String × Json)} (h : ∀ member ∈ members, member.2.Proper) :
      Proper (object members)

variable {style : JsonStyle} {level : Nat}

/-! Whatever stands behind a value is not changed by writing it. -/

lemma quote_append (s : String) (a b : List Char) : quote s (a ++ b) = quote s a ++ b := by
  unfold quote
  rw [List.cons_append]
  congr 1
  induction s.toList with
  | nil => rfl
  | cons c cs ih => rw [List.foldr_cons, ih, List.foldr_cons, List.append_assoc]

lemma length_le_quote (s : String) (rest : List Char) : rest.length ≤ (quote s rest).length := by
  have happend := quote_append s [] rest
  rw [List.nil_append] at happend
  rw [happend, List.length_append]
  exact Nat.le_add_left _ _

mutual

lemma write_append (j : Json) (level : Nat) (a b : List Char) :
    j.write style level (a ++ b) = j.write style level a ++ b := by
  cases j with
  | null => rfl
  | bool value => cases value <;> rfl
  | integer n => simp [write]
  | decimal x => simp [write]
  | string s => exact quote_append s a b
  | array items =>
    cases items with
    | nil => rfl
    | cons item items =>
      have htail := writeItems_append items (level + 1) (style.lineBreak level ++ ']' :: a) b
      simp only [List.append_assoc, List.cons_append] at htail
      simp only [write, htail, write_append item, List.append_assoc, List.cons_append]
  | object members =>
    cases members with
    | nil => rfl
    | cons member members =>
      have htail := writeMembers_append members (level + 1) (style.lineBreak level ++ '\x7d' :: a) b
      simp only [List.append_assoc, List.cons_append] at htail
      simp only [write, htail, write_append member.2, ← List.append_assoc, quote_append,
        List.cons_append]

lemma writeItems_append (items : List Json) (level : Nat) (a b : List Char) :
    writeItems style level items (a ++ b) = writeItems style level items a ++ b := by
  cases items with
  | nil => rfl
  | cons item items =>
    simp only [writeItems, writeItems_append items, write_append item, List.append_assoc,
      List.cons_append]

lemma writeMembers_append (members : List (String × Json)) (level : Nat) (a b : List Char) :
    writeMembers style level members (a ++ b) = writeMembers style level members a ++ b := by
  cases members with
  | nil => rfl
  | cons member members =>
    simp only [writeMembers, writeMembers_append members, write_append member.2,
      ← List.append_assoc, quote_append, List.cons_append]

end

lemma write_eq (j : Json) (rest : List Char) :
    j.write style level rest = j.write style level [] ++ rest := by
  rw [← write_append, List.nil_append]

lemma length_write (j : Json) (rest : List Char) :
    (j.write style level rest).length = (j.write style level []).length + rest.length := by
  rw [write_eq, List.length_append]

end Json

namespace JsonValue

variable {style : JsonStyle} {level fuel : Nat} {cs rest : List Char}

/-- A text begins with something other than a blank. -/
def NoBlank (cs : List Char) : Prop :=
  ∀ c ∈ cs.head?, isBlank c = false

lemma skipBlanks_of_noBlank (h : NoBlank cs) : skipBlanks cs = cs := by
  cases cs with
  | nil => rfl
  | cons c cs => exact List.dropWhile_cons_of_neg (by simp [h c rfl])

lemma skipBlanks_lineBreak (h : NoBlank cs) (level : Nat) :
    skipBlanks (style.lineBreak level ++ cs) = cs := by
  cases style with
  | compact => exact skipBlanks_of_noBlank h
  | indented =>
    have hblanks : ∀ c ∈ JsonStyle.indented.lineBreak level, isBlank c = true := by
      intro c hc
      rcases List.mem_cons.1 hc with rfl | hc
      · rfl
      · rw [List.eq_of_mem_replicate hc]
        rfl
    unfold skipBlanks
    rw [List.dropWhile_append_of_pos hblanks]
    exact skipBlanks_of_noBlank h

/-- Between a name and its value stands a colon, and perhaps a blank behind it. -/
lemma skipBlanks_colon (h : NoBlank cs) :
    ∃ ds, skipBlanks (style.colon ++ cs) = ':' :: ds ∧ skipBlanks ds = cs := by
  cases style with
  | compact => exact ⟨cs, rfl, skipBlanks_of_noBlank h⟩
  | indented => exact ⟨' ' :: cs, rfl, skipBlanks_of_noBlank h⟩

lemma stops_cons {c : Char} (h : c.isDigit = false ∧ c ≠ '.' ∧ c ≠ 'e' ∧ c ≠ 'E') :
    Stops (c :: cs) := by
  simpa [Stops] using h

lemma stops_lineBreak {c : Char} (h : c.isDigit = false ∧ c ≠ '.' ∧ c ≠ 'e' ∧ c ≠ 'E')
    (level : Nat) : Stops (style.lineBreak level ++ c :: cs) := by
  cases style with
  | compact => exact stops_cons h
  | indented => exact stops_cons (by decide)

lemma value?_digit {c : Char} (hc : c.isDigit = true) :
    value? (fuel + 1) (c :: cs) = (magnitude? (c :: cs)).map fun (q, rest) => (number q, rest) := by
  have hnumber : number? (c :: cs) = magnitude? (c :: cs) := by
    unfold number?
    split
    next heq =>
      cases heq
      cases hc
    next => rfl
  rw [value?.eq_def]
  dsimp only
  split
  all_goals try (next heq => cases heq; cases hc)
  rw [hnumber]

lemma value?_array (hskip : skipBlanks cs = rest) (hrest : rest.head? ≠ some ']') :
    value? (fuel + 1) ('[' :: cs) =
      (items? fuel rest).map fun (items, rest) => (array items, rest) := by
  rw [value?.eq_def]
  simp only [hskip]
  split
  next => exact absurd rfl hrest
  next => rfl

lemma value?_object (hskip : skipBlanks cs = rest) (hrest : rest.head? ≠ some '\x7d') :
    value? (fuel + 1) ('\x7b' :: cs) =
      (members? fuel rest).map fun (members, rest) => (object members, rest) := by
  rw [value?.eq_def]
  simp only [hskip]
  split
  next => exact absurd rfl hrest
  next => rfl

lemma head_of_magnitude? {result : ℚ × List Char} (h : magnitude? cs = some result) :
    ∃ c ds, cs = c :: ds ∧ c.isDigit = true := by
  cases cs with
  | nil => cases h
  | cons c ds =>
    refine ⟨c, ds, rfl, ?_⟩
    by_contra hc
    unfold magnitude? at h
    rw [List.takeWhile_cons_of_neg hc] at h
    cases h

/-- A value that is read back wherever it is written. -/
structure ReadsBack (j : Json) : Prop where
  head : ∀ style level {rest}, Stops rest →
    ∃ c cs, j.write style level rest = c :: cs ∧ isBlank c = false ∧ c ≠ ']'
  read : ∀ {style level rest fuel}, Stops rest → (j.write style level []).length ≤ fuel →
    value? fuel (j.write style level rest) = some (j.value, rest)

lemma ReadsBack.noBlank {j : Json} (h : ReadsBack j) (hrest : Stops rest) :
    NoBlank (j.write style level rest) := by
  obtain ⟨c, cs, hwrite, hc, -⟩ := h.head style level hrest
  simpa [NoBlank, hwrite] using hc

/-- What is read as a number is read back, whatever stands behind it. -/
lemma readsBack_of_magnitude {j : Json} {text : List Char} {q : ℚ} (hvalue : j.value = number q)
    (hwrite : ∀ style level rest, j.write style level rest = text ++ rest)
    (hread : ∀ {rest}, Stops rest → magnitude? (text ++ rest) = some (q, rest)) : ReadsBack j where
  head := by
    intro style level rest hrest
    obtain ⟨c, cs, htext, hc⟩ := head_of_magnitude? (hread hrest)
    refine ⟨c, cs, by rw [hwrite, htext], ?_, ?_⟩
    · by_contra hblank
      simp only [isBlank, Bool.not_eq_false, Bool.or_eq_true, beq_iff_eq] at hblank
      rcases hblank with ((rfl | rfl) | rfl) | rfl <;> cases hc
    · rintro rfl
      cases hc
  read := by
    intro style level rest fuel hrest hfuel
    have hempty : Stops [] := by simp [Stops]
    obtain ⟨c, cs, htext, hc⟩ := head_of_magnitude? (hread hempty)
    rw [List.append_nil] at htext
    rw [hwrite, List.append_nil, htext, List.length_cons] at hfuel
    obtain ⟨fuel, rfl⟩ := Nat.exists_eq_succ_of_ne_zero (show fuel ≠ 0 by omega)
    rw [hwrite, htext, List.cons_append, value?_digit hc, ← List.cons_append, ← htext, hread hrest,
      hvalue]
    rfl

/-- The text between two items, or behind the last one. -/
lemma stops_writeItems (items : List Json) (level' : Nat) :
    Stops (Json.writeItems style level items (style.lineBreak level' ++ ']' :: rest)) := by
  cases items with
  | nil => exact stops_lineBreak (by decide) level'
  | cons item items => exact stops_cons (by decide)

lemma stops_writeMembers (members : List (String × Json)) (level' : Nat) :
    Stops (Json.writeMembers style level members (style.lineBreak level' ++ '\x7d' :: rest)) := by
  cases members with
  | nil => exact stops_lineBreak (by decide) level'
  | cons member members => exact stops_cons (by decide)

lemma items?_last {ds after : List Char} {v : JsonValue} (hvalue : value? fuel cs = some (v, ds))
    (hskip : skipBlanks ds = ']' :: after) : items? (fuel + 1) cs = some ([v], after) := by
  rw [items?, hvalue]
  simp only [Option.bind_eq_bind, Option.bind_some, hskip]
  rfl

lemma items?_more {ds es after : List Char} {v : JsonValue} {vs : List JsonValue}
    (hvalue : value? fuel cs = some (v, ds)) (hskip : skipBlanks ds = ',' :: es)
    (hitems : items? fuel (skipBlanks es) = some (vs, after)) :
    items? (fuel + 1) cs = some (v :: vs, after) := by
  rw [items?, hvalue]
  simp only [Option.bind_eq_bind, Option.bind_some, hskip, hitems]
  rfl

/-- Items are read back one after the other. -/
lemma items?_write (level' : Nat) {item : Json} (hitem : ReadsBack item) {items : List Json}
    (hitems : ∀ item ∈ items, ReadsBack item) (rest : List Char)
    (hfuel : (item.write style level []).length +
      (Json.writeItems style level items (style.lineBreak level' ++ [']'])).length ≤ fuel) :
    items? fuel (item.write style level (Json.writeItems style level items
      (style.lineBreak level' ++ ']' :: rest))) =
        some (item.value :: Json.value.values items, rest) := by
  induction items generalizing item fuel with
  | nil =>
    simp only [Json.writeItems, List.length_append, List.length_singleton] at hfuel
    obtain ⟨fuel, rfl⟩ := Nat.exists_eq_succ_of_ne_zero (show fuel ≠ 0 by omega)
    refine items?_last (hitem.read (stops_writeItems [] level') (by omega)) ?_
    exact skipBlanks_lineBreak (by simp [NoBlank, isBlank]) level'
  | cons next items ih =>
    obtain ⟨hnext, hitems⟩ := List.forall_mem_cons.1 hitems
    simp only [Json.writeItems, List.length_cons, List.length_append] at hfuel
    rw [Json.length_write next] at hfuel
    obtain ⟨fuel, rfl⟩ := Nat.exists_eq_succ_of_ne_zero (show fuel ≠ 0 by omega)
    refine items?_more (hitem.read (stops_writeItems (next :: items) level') (by omega)) rfl ?_
    rw [skipBlanks_lineBreak (hnext.noBlank (stops_writeItems items level'))]
    exact ih hnext hitems (by omega)

section Members

variable {name : List Char} {ds es fs gs after : List Char} {v : JsonValue}

lemma members?_last (hname : text? cs = some (name, ds)) (hcolon : skipBlanks ds = ':' :: es)
    (hvalue : value? fuel (skipBlanks es) = some (v, fs)) (hskip : skipBlanks fs = '\x7d' :: after) :
    members? (fuel + 1) ('\x22' :: cs) = some ([(String.ofList name, v)], after) := by
  rw [members?]
  simp only [hname, Option.bind_eq_bind, Option.bind_some, hcolon, hvalue, hskip]
  rfl

lemma members?_more {vs : List (String × JsonValue)} (hname : text? cs = some (name, ds))
    (hcolon : skipBlanks ds = ':' :: es) (hvalue : value? fuel (skipBlanks es) = some (v, fs))
    (hskip : skipBlanks fs = ',' :: gs) (hmembers : members? fuel (skipBlanks gs) = some (vs, after)) :
    members? (fuel + 1) ('\x22' :: cs) = some ((String.ofList name, v) :: vs, after) := by
  rw [members?]
  simp only [hname, Option.bind_eq_bind, Option.bind_some, hcolon, hvalue, hskip, hmembers]
  rfl

end Members

/-- A name, a colon and a value are read back up to what stands behind the value. -/
lemma member_write (name : String) {value : Json} (hvalue : ReadsBack value) {behind : List Char}
    (hbehind : Stops behind) (hfuel : (value.write style level []).length ≤ fuel) :
    ∃ cs ds es, Json.quote name (style.colon ++ value.write style level behind) = '\x22' :: cs ∧
      text? cs = some (name.toList, ds) ∧ skipBlanks ds = ':' :: es ∧
      value? fuel (skipBlanks es) = some (value.value, behind) := by
  have hnoBlank : NoBlank (value.write style level behind) := hvalue.noBlank hbehind
  obtain ⟨cs, hquote, htext⟩ := text?_quote name (style.colon ++ value.write style level behind)
  obtain ⟨es, hcolon, hskip⟩ := @skipBlanks_colon style _ hnoBlank
  refine ⟨cs, _, es, hquote, htext, hcolon, ?_⟩
  rw [hskip]
  exact hvalue.read hbehind hfuel

/-- Members are read back one after the other. -/
lemma members?_write (level' : Nat) (name : String) {value : Json} (hvalue : ReadsBack value)
    {members : List (String × Json)} (hmembers : ∀ member ∈ members, ReadsBack member.2)
    (rest : List Char)
    (hfuel : (value.write style level []).length +
      (Json.writeMembers style level members (style.lineBreak level' ++ ['\x7d'])).length ≤ fuel) :
    members? fuel (Json.quote name (style.colon ++ value.write style level
      (Json.writeMembers style level members (style.lineBreak level' ++ '\x7d' :: rest)))) =
        some ((name, value.value) :: Json.value.memberValues members, rest) := by
  have hbehind : Stops (Json.writeMembers style level members
      (style.lineBreak level' ++ '\x7d' :: rest)) := stops_writeMembers members level'
  induction members generalizing name value fuel with
  | nil =>
    simp only [Json.writeMembers, List.length_append, List.length_singleton] at hfuel
    obtain ⟨fuel, rfl⟩ := Nat.exists_eq_succ_of_ne_zero (show fuel ≠ 0 by omega)
    have hfuel' : (value.write style level []).length ≤ fuel := by omega
    obtain ⟨cs, ds, es, hquote, htext, hcolon, hread⟩ := member_write name hvalue hbehind hfuel'
    rw [hquote, members?_last htext hcolon hread
      (skipBlanks_lineBreak (by simp [NoBlank, isBlank]) level'), String.ofList_toList]
    rfl
  | cons next members ih =>
    obtain ⟨hnext, hmembers⟩ := List.forall_mem_cons.1 hmembers
    have hname := Json.length_le_quote next.1 (style.colon ++ next.2.write style level
      (Json.writeMembers style level members (style.lineBreak level' ++ ['\x7d'])))
    rw [List.length_append, Json.length_write next.2] at hname
    simp only [Json.writeMembers, List.length_cons, List.length_append] at hfuel
    obtain ⟨fuel, rfl⟩ := Nat.exists_eq_succ_of_ne_zero (show fuel ≠ 0 by omega)
    have hfuel' : (value.write style level []).length ≤ fuel := by omega
    obtain ⟨cs, ds, es, hquote, htext, hcolon, hread⟩ := member_write name hvalue hbehind hfuel'
    rw [hquote, members?_more htext hcolon hread rfl, String.ofList_toList]
    rw [skipBlanks_lineBreak (by simp [NoBlank, isBlank, Json.quote])]
    exact ih next.1 hnext hmembers (by omega) (stops_writeMembers members level')

lemma readsBack_array {items : List Json} (hitems : ∀ item ∈ items, ReadsBack item) :
    ReadsBack (.array items) where
  head := by
    intro style level rest hrest
    cases items <;> exact ⟨_, _, rfl, rfl, by decide⟩
  read := by
    intro style level rest fuel hrest hfuel
    cases items with
    | nil =>
      obtain ⟨fuel, rfl⟩ := Nat.exists_eq_succ_of_ne_zero (Nat.ne_zero_of_lt hfuel)
      rfl
    | cons item items =>
      obtain ⟨hitem, hitems⟩ := List.forall_mem_cons.1 hitems
      have hstops : Stops (Json.writeItems style (level + 1) items
          (style.lineBreak level ++ ']' :: rest)) := stops_writeItems items level
      obtain ⟨c, cs, hwrite, -, hc⟩ := hitem.head style (level + 1) hstops
      simp only [Json.write, List.length_cons, List.length_append] at hfuel
      rw [Json.length_write item] at hfuel
      obtain ⟨fuel, rfl⟩ := Nat.exists_eq_succ_of_ne_zero (Nat.ne_zero_of_lt hfuel)
      rw [Json.write, value?_array (skipBlanks_lineBreak (hitem.noBlank hstops) (level + 1)),
        items?_write level hitem hitems rest (by omega)]
      · rfl
      · rw [hwrite]
        simpa using hc

lemma readsBack_object {members : List (String × Json)}
    (hmembers : ∀ member ∈ members, ReadsBack member.2) : ReadsBack (.object members) where
  head := by
    intro style level rest hrest
    cases members <;> exact ⟨_, _, rfl, rfl, by decide⟩
  read := by
    intro style level rest fuel hrest hfuel
    cases members with
    | nil =>
      obtain ⟨fuel, rfl⟩ := Nat.exists_eq_succ_of_ne_zero (Nat.ne_zero_of_lt hfuel)
      rfl
    | cons member members =>
      obtain ⟨hmember, hmembers⟩ := List.forall_mem_cons.1 hmembers
      have hname := Json.length_le_quote member.1 (style.colon ++ member.2.write style (level + 1)
        (Json.writeMembers style (level + 1) members (style.lineBreak level ++ ['\x7d'])))
      rw [List.length_append, Json.length_write member.2] at hname
      simp only [Json.write, List.length_cons, List.length_append] at hfuel
      obtain ⟨fuel, rfl⟩ := Nat.exists_eq_succ_of_ne_zero (Nat.ne_zero_of_lt hfuel)
      rw [Json.write, value?_object (skipBlanks_lineBreak (by simp [NoBlank, isBlank, Json.quote])
        (level + 1)) (by simp [Json.quote]), members?_write level member.1 hmember hmembers rest
        (by omega)]
      rfl

lemma readsBack_word {j : Json} (c : Char) (cs : List Char) (hc : isBlank c = false ∧ c ≠ ']')
    (hwrite : ∀ style level rest, j.write style level rest = c :: cs ++ rest)
    (hread : ∀ fuel rest, value? (fuel + 1) (c :: cs ++ rest) = some (j.value, rest)) :
    ReadsBack j where
  head style level rest _ := ⟨c, _, hwrite style level rest, hc⟩
  read := by
    intro style level rest fuel _ hfuel
    rw [hwrite, List.append_nil, List.length_cons] at hfuel
    obtain ⟨fuel, rfl⟩ := Nat.exists_eq_succ_of_ne_zero (Nat.ne_zero_of_lt hfuel)
    rw [hwrite, hread]

/-- Every proper value is read back from the text that is written for it. -/
theorem readsBack_of_proper {j : Json} (h : j.Proper) : ReadsBack j := by
  induction h with
  | null => exact readsBack_word 'n' ['u', 'l', 'l'] (by decide) (fun _ _ _ => rfl) fun _ _ => rfl
  | bool b =>
    cases b with
    | false =>
      exact readsBack_word 'f' ['a', 'l', 's', 'e'] (by decide) (fun _ _ _ => rfl) fun _ _ => rfl
    | true => exact readsBack_word 't' ['r', 'u', 'e'] (by decide) (fun _ _ _ => rfl) fun _ _ => rfl
  | integer n =>
    exact readsBack_of_magnitude rfl (fun _ _ _ => rfl) fun hrest => magnitude?_toDigits n hrest
  | decimal hx =>
    exact readsBack_of_magnitude rfl (fun _ _ _ => rfl) fun hrest => magnitude?_layout hx hrest
  | string s =>
    refine ⟨fun _ _ _ _ => ⟨_, _, rfl, rfl, by decide⟩, fun {style level rest fuel} _ hfuel => ?_⟩
    obtain ⟨fuel, rfl⟩ := Nat.exists_eq_succ_of_ne_zero (Nat.ne_zero_of_lt hfuel)
    obtain ⟨cs, hquote, htext⟩ := text?_quote s rest
    change value? (fuel + 1) (Json.quote s rest) = some (.string s, rest)
    rw [hquote, value?]
    simp [htext, String.ofList_toList]
  | array _ ih => exact readsBack_array ih
  | object _ ih => exact readsBack_object ih

/-- A value is read back from its text, in either style. -/
theorem ofText?_render {j : Json} (h : j.Proper) (style : JsonStyle) :
    ofText? (j.render style) = some j.value := by
  have hback := readsBack_of_proper h
  have hempty : Stops [] := by simp [Stops]
  unfold ofText? Json.render
  rw [String.toList_ofList, skipBlanks_of_noBlank (hback.noBlank hempty),
    hback.read hempty (by simp)]
  rfl

end JsonValue

end ScriptTree
