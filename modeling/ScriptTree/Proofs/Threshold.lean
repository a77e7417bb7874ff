import ScriptTree.Proofs.LockstepGrammar
import ScriptTree.Proofs.Progress
import Mathlib.Data.Nat.Find

/-!
# The limit of nesting is a threshold

A run at a higher limit does what a run at a lower one does, until the lower one is exceeded. Levels
are paid for by tokens, so a limit beyond twice the length of the source is never exceeded. How many
levels the grammar has makes no difference either, if there are enough.

Main statement: `limit_is_threshold`.
-/

namespace ScriptTree

open ScriptTree.Parser

namespace Reading

/-- A bound on the number of tokens that are left, the next one included. -/
def left (r : Reading) : Nat :=
  if r.lookahead.kind = .endOfFile then 0 else r.cursor.rest.length + 1

lemma left_le (r : Reading) : r.left ≤ r.cursor.rest.length + 1 := by
  unfold left
  split <;> omega

lemma left_next {r : Reading} {token : Token} {after : Cursor}
    (hkind : r.lookahead.kind ≠ .endOfFile) (hnext : r.cursor.next = (.ok token, after)) :
    left ⟨token, after⟩ < r.left := by
  unfold left
  rw [if_neg hkind]
  split
  next => exact Nat.succ_pos _
  next hne => exact Nat.succ_lt_succ (Cursor.next_length_lt hnext hne)

lemma left_nextTemplate {r : Reading} (hkind : r.lookahead.kind ≠ .endOfFile) :
    left ⟨r.cursor.nextTemplate.1, r.cursor.nextTemplate.2⟩ < r.left := by
  unfold left
  rw [if_neg hkind]
  by_cases hnil : r.cursor.rest = []
  · rw [Cursor.nextTemplate_of_nil hnil]
    exact Nat.succ_pos _
  · have hlt := Cursor.nextTemplate_length_lt hnil
    split
    · exact Nat.succ_pos _
    · exact Nat.succ_lt_succ hlt

end Reading

/-- Two runs over the same source at limits of which the second is no lower. -/
def sameSource (N N' : Nat) (hle : N ≤ N') : Lockstep where
  reading m r s := r = s ∧ r.left ≤ m
  piece m r s := r = s ∧ r.left ≤ m
  context c d := c.depth = d.depth ∧ c.inFunction = d.inFunction ∧ c.limit = N ∧ d.limit = N'
  token := Eq
  span := Eq
  fault e f := e = f ∧ (N ≠ N' → e.isTooDeep = false)
  excused e := N ≠ N' ∧ ∃ span, e = .nestingTooDeep N span
  templates := True
  lookahead h := congrArg _ h.1
  kind_eq h := congrArg _ h
  text_eq h := congrArg _ h
  span_token h := congrArg _ h
  span_merge h h' := by rw [h, h']
  next := by
    rintro m r s ⟨rfl, hleft⟩ hkind
    rcases hnext : r.cursor.next with ⟨e | token, after⟩
    · exact .fault ⟨rfl, fun _ => isTooDeep_of_next hnext⟩
    · exact .token (Nat.lt_of_lt_of_le (Reading.left_next hkind hnext) hleft)
        ⟨rfl, Nat.le_refl _⟩
  backtick _ _ := trivial
  nextTemplate := by
    rintro m r s - ⟨rfl, hleft⟩ hkind
    exact ⟨_, Nat.lt_of_lt_of_le (Reading.left_nextTemplate hkind) hleft, rfl, Nat.le_refl _⟩
  pieces h := .token h
  mismatch := by
    rintro t u kind rfl -
    exact ⟨rfl, fun _ => rfl⟩
  unexpected := by
    rintro t u rfl
    exact ⟨rfl, fun _ => rfl⟩
  located := by
    rintro make a b hmake rfl
    refine ⟨rfl, fun _ => ?_⟩
    cases hmake <;> rfl
  inFunction := by
    rintro c d ⟨hdepth, -, hlimit, hlimit'⟩
    exact ⟨hdepth, rfl, hlimit, hlimit'⟩
  mayReturn h := Or.inl h.2.1
  deeper := by
    rintro c d m r s ⟨hdepth, hfunction, rfl, rfl⟩ ⟨rfl, -⟩
    by_cases hexceeded : c.limit ≤ c.depth
    · by_cases heq : c.limit = d.limit
      · exact Or.inl ⟨hexceeded, by omega, by rw [heq], fun hne => absurd heq hne⟩
      · exact Or.inr (Or.inl ⟨hexceeded, heq, _, rfl⟩)
    · exact Or.inr (Or.inr ⟨by omega, by omega, by simp [hdepth], hfunction, rfl, rfl⟩)

lemma left_le_length {source : String} {token : Token} {after : Cursor}
    (h : (Cursor.ofSource source).next = (.ok token, after)) :
    Reading.left ⟨token, after⟩ ≤ (Cursor.ofSource source).rest.length := by
  unfold Reading.left
  split
  next => exact Nat.zero_le _
  next hkind => exact Cursor.next_length_lt h hkind

/-- With enough levels a program is read in the same way whatever their number. -/
theorem program_levels {limit i j : Nat} {inFunction : Bool} {r : Reading} (hi : r.left < i)
    (hj : r.left < j) :
    (Grammar.upTo i).program ⟨limit, 0, inFunction⟩ r =
      (Grammar.upTo j).program ⟨limit, 0, inFunction⟩ r := by
  have hrun : (sameSource limit limit (Nat.le_refl _)).Tries r.left r.left Eq _ _ :=
    Lockstep.program_tries hi hj
  have hout := @hrun ⟨limit, 0, inFunction⟩ r ⟨limit, 0, inFunction⟩ r
    ⟨Nat.le_refl _, ⟨rfl, rfl, rfl, rfl⟩, rfl, Nat.le_refl _⟩
  unfold Lockstep.Agree at hout
  generalize (Grammar.upTo i).program ⟨limit, 0, inFunction⟩ r = x at hout
  generalize (Grammar.upTo j).program ⟨limit, 0, inFunction⟩ r = y at hout
  cases hout with
  | ok h =>
    obtain ⟨rfl, k, -, rfl, -⟩ := h
    rfl
  | fault h => rw [h.1]
  | misspelt h =>
    cases h
    rfl
  | excused h => exact absurd rfl h.1

/-- A whole source is read in the same way with all numbers of levels that are enough. -/
lemma programOf_eq {source : String} {limit k : Nat} {token : Token} {after : Cursor}
    (hk : source.toList.length < k)
    (hnext : (Cursor.ofSource source).next = (.ok token, after)) :
    programOf source limit token after =
      (Grammar.upTo k).program ⟨limit, 0, false⟩ ⟨token, after⟩ := by
  have hleft := left_le_length hnext
  exact program_levels (by omega) (Nat.lt_of_le_of_lt hleft hk)

lemma parse_eq_ok_iff {source : String} {limit k : Nat} {tree : Node}
    (hk : source.toList.length < k) :
    parse source limit = .ok tree ↔
      ∃ token after r, (Cursor.ofSource source).next = (.ok token, after) ∧
        (Grammar.upTo k).program ⟨limit, 0, false⟩ ⟨token, after⟩ = .ok (tree, r) := by
  constructor
  · intro h
    obtain ⟨token, after, r, hnext, hrun, -⟩ := programOf_of_parse h
    exact ⟨token, after, r, hnext, (programOf_eq hk hnext).symm.trans hrun⟩
  · rintro ⟨token, after, r, hnext, hrun⟩
    exact parse_of_ok hnext ((programOf_eq hk hnext).trans hrun)

/-- A program enters no more levels than its tokens pay for. -/
lemma program_pays (levels : Nat) : Pays none false 2 (Grammar.upTo levels).program := by
  unfold Grammar.program
  apply Pays.loop
  intro body
  unfold Grammar.nextInProgram
  apply Pays.sees (fun _ _ => Pays.pure _)
  apply (Grammar.run_pays levels .statement).after
  intro statement
  exact Pays.pure _

lemma ahead_of_source {source : String} {token : Token} {after : Cursor}
    (h : (Cursor.ofSource source).next = (.ok token, after)) :
    Ahead source.toList.length ⟨token, after⟩ := by
  by_cases hkind : token.kind = .endOfFile
  · have hend : Ahead 0 ⟨token, after⟩ := ⟨hkind, Cursor.rest_of_next h hkind⟩
    exact hend.mono (Nat.zero_le _)
  · have hlt : after.rest.length < source.toList.length := Cursor.next_length_lt h hkind
    have hahead : Ahead (after.rest.length + 1) ⟨token, after⟩ :=
      Ahead.of_length (Nat.le_refl _)
    exact hahead.mono hlt

/-- A lower limit is exceeded, where the source is long enough for it, or gives what a higher one
gives. -/
lemma parse_below {N N' : Nat} (source : String) (hlt : N < N') :
    (parse source N = parse source N' ∧
      ∀ limit span, parse source N ≠ .error (.nestingTooDeep limit span)) ∨
    (N ≤ 2 * source.toList.length + 1 ∧
      ∃ span, parse source N = .error (.nestingTooDeep N span)) := by
  rcases hnext : (Cursor.ofSource source).next with ⟨e | token, after⟩
  · refine Or.inl ⟨by rw [parse_of_fault hnext, parse_of_fault hnext], fun limit span h => ?_⟩
    rw [parse_of_fault hnext] at h
    cases h
    cases isTooDeep_of_next hnext
  · have hleft := left_le_length hnext
    have hrun : (sameSource N N' (Nat.le_of_lt hlt)).Tries source.toList.length
        source.toList.length Eq _ _ :=
      Lockstep.program_tries (i := source.toList.length + 2) (j := source.toList.length + 2)
        (by omega) (by omega)
    have hout := @hrun ⟨N, 0, false⟩ ⟨token, after⟩ ⟨N', 0, false⟩ ⟨token, after⟩
      ⟨Nat.le_refl _, ⟨rfl, rfl, rfl, rfl⟩, rfl, hleft⟩
    have hpaid := program_pays (source.toList.length + 2) ⟨N, 0, false⟩ (by simp)
      (ahead_of_source hnext)
    change (sameSource N N' _).Outcome _ (programOf source N token after)
      (programOf source N' token after) at hout
    change Paid _ _ _ _ (programOf source N token after) at hpaid
    generalize hx : programOf source N token after = x at hout hpaid
    generalize hy : programOf source N' token after = y at hout
    cases hout with
    | ok h =>
      obtain ⟨rfl, -⟩ := h
      rw [parse_of_ok hnext hx, parse_of_ok hnext hy]
      exact Or.inl ⟨rfl, by simp⟩
    | fault h =>
      obtain ⟨rfl, hdeep⟩ := h
      rw [parse_of_rejected hnext hx, parse_of_rejected hnext hy]
      refine Or.inl ⟨rfl, fun limit span heq => ?_⟩
      cases heq
      cases hdeep (Nat.ne_of_lt hlt)
    | misspelt h =>
      cases h
      rw [parse_of_misspelt hnext hx, parse_of_misspelt hnext hy]
      exact Or.inl ⟨rfl, fun limit span heq => by cases heq⟩
    | excused h =>
      obtain ⟨-, span, rfl⟩ := h
      rw [parse_of_rejected hnext hx]
      refine Or.inr ⟨?_, span, rfl⟩
      cases hpaid with
      | tooDeep h =>
        simp only at h
        omega
      | refused he => cases he

lemma length_le_byteLength (cs : List Char) : cs.length ≤ byteLength cs := by
  induction cs with
  | nil => exact Nat.zero_le _
  | cons c cs ih =>
    have hc := c.utf8Size_pos
    simp only [byteLength, List.foldr_cons, List.length_cons] at ih ⊢
    omega

/-- Every source has a limit below which it is refused as nested too deep, and from which on its
result is always the same and never that. -/
theorem limit_is_threshold (source : String) :
    ∃ t ≤ 2 * source.utf8ByteSize + 2,
      (∀ N < t, ∃ span, parse source N = .error (.nestingTooDeep N span)) ∧
      ∀ N ≥ t, parse source N = parse source t ∧
        ∀ limit span, parse source N ≠ .error (.nestingTooDeep limit span) := by
  have hbytes := length_le_byteLength source.toList
  rw [byteLength_toList] at hbytes
  let Enough (N : Nat) : Prop :=
    ∀ limit span, parse source N ≠ .error (.nestingTooDeep limit span)
  have henough : Enough (2 * source.toList.length + 2) := by
    rcases parse_below source (Nat.lt_succ_self (2 * source.toList.length + 2)) with h | h
    · exact h.2
    · omega
  classical
  have hexists : ∃ N, Enough N := ⟨_, henough⟩
  refine ⟨Nat.find hexists, ?_, ?_, ?_⟩
  · have hle := Nat.find_min' hexists henough
    omega
  · intro N hN
    rcases parse_below source (Nat.lt_succ_self N) with h | h
    · exact absurd h.2 (Nat.find_min hexists hN)
    · exact h.2
  · intro N hN
    have hfind : Enough (Nat.find hexists) := Nat.find_spec hexists
    rcases Nat.eq_or_lt_of_le hN with heq | hlt
    · rw [← heq]
      exact ⟨rfl, hfind⟩
    · rcases parse_below source hlt with h | ⟨-, span, h⟩
      · rw [← h.1]
        exact ⟨rfl, h.2⟩
      · exact absurd h (hfind _ _)

/-- The threshold of a name in two pairs of parentheses is four. -/
example : (parse "((x))" 0).map Node.typeName = .error (.nestingTooDeep 0 ⟨0, 1⟩) ∧
    (parse "((x))" 3).map Node.typeName = .error (.nestingTooDeep 3 ⟨2, 3⟩) ∧
    (parse "((x))" 4).map Node.typeName = .ok "Program" := by decide +kernel

end ScriptTree
