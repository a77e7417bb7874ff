import ScriptTree.Token.Stream
import Mathlib.Data.List.Infix
import Mathlib.Data.List.TakeWhile

/-!
# Scans

`Cursor.scan` reads a whole source by the lexical rules and keeps what it read when it meets a
fault, which `tokenize` does not. This file says what a single reading does: it passes over a gap
of blanks and comments and then meets the end, a lexeme, or a character that no rule reads.
-/

namespace ScriptTree

@[simp] lemma byteLength_nil : byteLength [] = 0 := rfl

@[simp] lemma byteLength_cons (c : Char) (cs : List Char) :
    byteLength (c :: cs) = c.utf8Size + byteLength cs := rfl

@[simp] lemma byteLength_append (a b : List Char) :
    byteLength (a ++ b) = byteLength a + byteLength b := by
  induction a with
  | nil => simp
  | cons c a ih => simp [ih, Nat.add_assoc]

lemma utf8ByteSize_ofList (cs : List Char) :
    (String.ofList cs).utf8ByteSize = byteLength cs := by
  induction cs with
  | nil => rfl
  | cons c cs ih =>
    have hsplit : c :: cs = [c] ++ cs := rfl
    rw [hsplit, String.ofList_append, String.utf8ByteSize_append, ih]
    simp

lemma byteLength_toList (s : String) : byteLength s.toList = s.utf8ByteSize := by
  rw [← utf8ByteSize_ofList, String.ofList_toList]

lemma byteLength_pos {cs : List Char} (h : cs ≠ []) : 0 < byteLength cs := by
  cases cs with
  | nil => exact absurd rfl h
  | cons c cs =>
    have hc := c.utf8Size_pos
    rw [byteLength_cons]
    omega

/-- What may stand between two lexemes in front of a given rest: blanks, comments to the end of
their line, and comments in `/*` and the first `*/` behind it. -/
inductive Gap : List Char → List Char → Prop where
  | nil (rest : List Char) : Gap [] rest
  | blank {c : Char} {gap rest : List Char} (hc : isBlank c = true) (h : Gap gap rest) :
      Gap (c :: gap) rest
  | lineComment {body gap rest : List Char} (hbody : '\n' ∉ body)
      (hend : (gap ++ rest).head? = none ∨ (gap ++ rest).head? = some '\n') (h : Gap gap rest) :
      Gap ('/' :: '/' :: body ++ gap) rest
  | blockComment {body gap rest : List Char} (hbody : ¬['*', '/'] <:+: body) (h : Gap gap rest) :
      Gap ('/' :: '*' :: body ++ '*' :: '/' :: gap) rest

lemma Gap.blanks {run gap rest : List Char} (hrun : ∀ c ∈ run, isBlank c = true)
    (h : Gap gap rest) : Gap (run ++ gap) rest := by
  induction run with
  | nil => exact h
  | cons c run ih =>
    refine Gap.blank (hrun c List.mem_cons_self) (ih fun d hd => ?_)
    exact hrun d (List.mem_cons_of_mem c hd)

/-- A block comment's tail is a body without `*/`, and `*/` behind it. -/
lemma blockCommentTail?_eq_some {cs : List Char} {n : Nat} (h : blockCommentTail? cs = some n) :
    ∃ body, ¬['*', '/'] <:+: body ∧ cs = body ++ '*' :: '/' :: cs.drop n ∧
      n = body.length + 2 := by
  fun_induction blockCommentTail? cs generalizing n with
  | case1 => cases h
  | case2 cs =>
    cases h
    exact ⟨[], by simp, rfl, rfl⟩
  | case3 c cs hfront ih =>
    obtain ⟨k, hk, rfl⟩ := Option.map_eq_some_iff.1 h
    obtain ⟨body, hbody, hcs, hlen⟩ := ih hk
    refine ⟨c :: body, ?_, ?_, ?_⟩
    · intro hinfix
      rcases List.infix_cons_iff.1 hinfix with hstart | hinside
      · -- `*/` at the very front is the case that the previous equation takes
        obtain ⟨tail, htail⟩ := hstart
        simp only [List.cons_append, List.nil_append, List.cons.injEq] at htail
        obtain ⟨hc, htail⟩ := htail
        rw [← htail] at hcs
        exact hfront _ hc.symm hcs
      · exact hbody hinside
    · rw [List.drop_succ_cons, List.cons_append, ← hcs]
    · rw [hlen, List.length_cons]

lemma take_runLength (p : Char → Bool) (cs : List Char) :
    cs.take (runLength p cs) = cs.takeWhile p :=
  (List.prefix_iff_eq_take.1 (List.takeWhile_prefix p)).symm

lemma drop_runLength (p : Char → Bool) (cs : List Char) :
    cs.drop (runLength p cs) = cs.dropWhile p := by
  have h := List.take_append_drop (runLength p cs) cs
  rw [take_runLength] at h
  exact List.append_cancel_left (h.trans List.takeWhile_append_dropWhile.symm)

lemma head?_dropWhile_ne (x : Char) (cs : List Char) :
    (cs.dropWhile (· != x)).head? = none ∨ (cs.dropWhile (· != x)).head? = some x := by
  induction cs with
  | nil => exact Or.inl rfl
  | cons c cs ih =>
    by_cases h : c = x
    · simp [h]
    · simpa [h] using ih

lemma gap_of_run {cs gap rest : List Char} {n : Nat}
    (h : (Pattern.run isBlank).length? cs = some n) (hgap : Gap gap rest) :
    Gap (cs.take n ++ gap) rest := by
  have hn : n = runLength isBlank cs := by
    simp only [Pattern.run] at h
    split at h <;> simp_all
  rw [hn, take_runLength]
  exact Gap.blanks (fun c hc => List.mem_takeWhile_imp hc) hgap

lemma gap_of_lineComment {cs gap rest : List Char} {n : Nat}
    (h : Pattern.lineComment.length? cs = some n) (hcs : cs.drop n = gap ++ rest)
    (hgap : Gap gap rest) : Gap (cs.take n ++ gap) rest := by
  simp only [Pattern.lineComment] at h
  split at h
  next cs =>
    cases h
    simp only [List.take_succ_cons, take_runLength, List.drop_succ_cons, drop_runLength] at hcs ⊢
    refine Gap.lineComment ?_ ?_ hgap
    · intro hmem
      simpa using List.mem_takeWhile_imp hmem
    · rw [← hcs]
      exact head?_dropWhile_ne '\n' cs
  next => cases h

lemma gap_of_blockComment {cs gap rest : List Char} {n : Nat}
    (h : Pattern.blockComment.length? cs = some n) (hgap : Gap gap rest) :
    Gap (cs.take n ++ gap) rest := by
  simp only [Pattern.blockComment] at h
  split at h
  next cs =>
    obtain ⟨k, hk, rfl⟩ := Option.map_eq_some_iff.1 h
    obtain ⟨body, hbody, hcs, rfl⟩ := blockCommentTail?_eq_some hk
    have htake : cs.take (body.length + 2) = body ++ ['*', '/'] := by
      rw [hcs, List.take_length_add_append]
      rfl
    simp only [List.take_succ_cons, htake]
    have hjoin := Gap.blockComment hbody hgap
    simpa using hjoin
  next => cases h

/-- The rules that make tokens. -/
def Rule.lexical : List Rule :=
  literals ++ (punctuation ++ (operators ++ (words ++ [make .identifier .identifier])))

lemma Rule.table_eq : Rule.table = Rule.blanks ++ Rule.lexical := by
  simp [Rule.table, Rule.lexical]

/-- Every rule that makes tokens has a kind, and none makes an end token. -/
lemma Rule.kind?_lexical {rule : Rule} (h : rule ∈ Rule.lexical) :
    rule.kind? ≠ none ∧ rule.kind? ≠ some .endOfFile := by
  have hall : (Rule.lexical.map Rule.kind?).all (fun k => k ≠ none ∧ k ≠ some .endOfFile) := by
    decide
  have hmem := List.all_eq_true.1 hall _ (List.mem_map_of_mem h)
  simpa using hmem

lemma Rule.exists_of_first? {cs : List Char} {kind? : Option Kind} {n : Nat}
    (h : Rule.first? cs = some (kind?, n)) :
    ∃ rule ∈ Rule.table, rule.kind? = kind? ∧ rule.pattern.length? cs = some n := by
  obtain ⟨rule, hmem, hrule⟩ := List.exists_of_findSome?_eq_some h
  obtain ⟨m, hm, hpair⟩ := Option.map_eq_some_iff.1 hrule
  cases hpair
  exact ⟨rule, hmem, rfl, hm⟩

lemma Rule.kind_ne_endOfFile_of_first? {cs : List Char} {kind : Kind} {n : Nat}
    (h : Rule.first? cs = some (some kind, n)) : kind ≠ .endOfFile := by
  obtain ⟨rule, hmem, hkind, -⟩ := Rule.exists_of_first? h
  rw [Rule.table_eq, List.mem_append] at hmem
  rcases hmem with hblank | hlexical
  · simp only [Rule.blanks, Rule.skip, List.mem_cons, List.not_mem_nil, or_false] at hblank
    rcases hblank with rfl | rfl | rfl <;> cases hkind
  · rintro rfl
    exact (Rule.kind?_lexical hlexical).2 hkind

/-- What a rule without a kind reads is a gap, whatever gap follows it. -/
lemma Rule.gap_of_first? {cs gap rest : List Char} {n : Nat}
    (h : Rule.first? cs = some (none, n)) (hcs : cs.drop n = gap ++ rest) (hgap : Gap gap rest) :
    Gap (cs.take n ++ gap) rest := by
  obtain ⟨rule, hmem, hkind, hlen⟩ := Rule.exists_of_first? h
  rw [Rule.table_eq, List.mem_append] at hmem
  rcases hmem with hblank | hlexical
  · simp only [Rule.blanks, Rule.skip, List.mem_cons, List.not_mem_nil, or_false] at hblank
    rcases hblank with rfl | rfl | rfl
    · exact gap_of_run hlen hgap
    · exact gap_of_lineComment hlen hcs hgap
    · exact gap_of_blockComment hlen hgap
  · exact absurd hkind (Rule.kind?_lexical hlexical).1

namespace Cursor

lemma skip_offset (cursor : Cursor) (n : Nat) :
    (cursor.skip n).offset = cursor.offset + byteLength (cursor.rest.take n) := rfl

lemma skip_rest (cursor : Cursor) (n : Nat) : (cursor.skip n).rest = cursor.rest.drop n := rfl

/-- What one reading meets at a place where no gap begins. -/
inductive Meets (cursor : Cursor) : Except SyntaxError Token × Cursor → Prop where
  | done (hrest : cursor.rest = []) : Meets cursor (.ok (.endOfFile cursor.offset), cursor)
  | lexeme {kind : Kind} {n : Nat} (hrule : Rule.first? cursor.rest = some (some kind, n))
      (hrest : cursor.rest ≠ []) : Meets cursor (.ok (cursor.token kind n), cursor.skip n)
  | fault {c : Char} {cs : List Char} (hrest : cursor.rest = c :: cs)
      (hrule : Rule.first? cursor.rest = none) :
      Meets cursor (.error (.unsupportedCharacter c
        (.ofOffsets cursor.offset (cursor.skip 1).offset)), cursor)

/-- A reading passes over a gap and then meets something. -/
theorem next_meets (cursor : Cursor) :
    ∃ (gap : List Char) (start : Cursor), cursor.rest = gap ++ start.rest ∧
      start.offset = cursor.offset + byteLength gap ∧ Gap gap start.rest ∧
      start.Meets cursor.next := by
  fun_induction next cursor with
  | case1 cursor hrest => exact ⟨[], cursor, rfl, rfl, Gap.nil _, Meets.done hrest⟩
  | case2 cursor c cs hrest kind n hrule =>
    refine ⟨[], cursor, rfl, rfl, Gap.nil _, Meets.lexeme hrule ?_⟩
    rw [hrest]
    exact List.cons_ne_nil c cs
  | case3 cursor c cs hrest n hrule _ ih =>
    obtain ⟨gap, start, hsplit, hoffset, hgap, hmeets⟩ := ih
    rw [skip_rest] at hsplit
    refine ⟨cursor.rest.take n ++ gap, start, ?_, ?_, ?_, hmeets⟩
    · rw [List.append_assoc, ← hsplit, List.take_append_drop]
    · rw [hoffset, skip_offset, byteLength_append, Nat.add_assoc]
    · exact Rule.gap_of_first? hrule hsplit hgap
  | case4 cursor c cs hrest hrule =>
    exact ⟨[], cursor, rfl, rfl, Gap.nil _, Meets.fault hrest hrule⟩

/-- The tokens up to the end of the source or to the first fault, without the end token, and what
stands there: the end token or the fault. -/
def scan (cursor : Cursor) : List Token × Except SyntaxError Token :=
  match h : cursor.next with
  | (.error e, _) => ([], .error e)
  | (.ok token, after) =>
    if hkind : token.kind = .endOfFile then ([], .ok token)
    else
      have := next_length_lt h hkind
      (token :: after.scan.1, after.scan.2)
termination_by cursor.rest.length

lemma scan_of_error {cursor after : Cursor} {e : SyntaxError}
    (h : cursor.next = (.error e, after)) : cursor.scan = ([], .error e) := by
  rw [scan]
  split
  next e' after' h' =>
    rw [h] at h'
    cases h'
    rfl
  next token after' h' =>
    rw [h] at h'
    cases h'

lemma scan_of_end {cursor after : Cursor} {token : Token}
    (h : cursor.next = (.ok token, after)) (hkind : token.kind = .endOfFile) :
    cursor.scan = ([], .ok token) := by
  rw [scan]
  split
  next e after' h' =>
    rw [h] at h'
    cases h'
  next token' after' h' =>
    rw [h] at h'
    cases h'
    rw [dif_pos hkind]

lemma scan_of_token {cursor after : Cursor} {token : Token}
    (h : cursor.next = (.ok token, after)) (hkind : token.kind ≠ .endOfFile) :
    cursor.scan = (token :: after.scan.1, after.scan.2) := by
  rw [scan]
  split
  next e after' h' =>
    rw [h] at h'
    cases h'
  next token' after' h' =>
    rw [h] at h'
    cases h'
    rw [dif_neg hkind]

lemma tokensOnto_eq_scan (cursor : Cursor) (read : List Token) :
    cursor.tokensOnto read = cursor.scan.2.map fun last => read.reverse ++ cursor.scan.1 ++ [last] := by
  fun_induction tokensOnto cursor read with
  | case1 cursor read e after h =>
    rw [scan_of_error h]
    rfl
  | case2 cursor read token after h hkind =>
    rw [scan_of_end h hkind]
    simp [Except.map]
  | case3 cursor read token after h hkind _ ih =>
    rw [ih, scan_of_token h hkind]
    simp

end Cursor

/-- The scan of a whole source. -/
def scanSource (source : String) : List Token × Except SyntaxError Token :=
  (Cursor.ofSource source).scan

theorem tokenize_eq_scan (source : String) :
    tokenize source = (scanSource source).2.map fun last => (scanSource source).1 ++ [last] := by
  unfold tokenize scanSource
  rw [Cursor.tokensOnto_eq_scan]
  rfl

end ScriptTree
