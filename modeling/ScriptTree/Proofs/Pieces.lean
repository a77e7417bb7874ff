import ScriptTree.Proofs.Scan

/-!
# Pieces of templates

What `Cursor.nextTemplate` reads is told by the character in front of it and by what ends the text
there.
-/

namespace ScriptTree

lemma templateLength_le (cs : List Char) : templateLength cs ≤ cs.length := by
  fun_induction templateLength cs with
  | case1 => exact Nat.le_refl _
  | case2 => exact Nat.zero_le _
  | case3 => exact Nat.zero_le _
  | case4 c cs ih =>
    simp only [List.length_cons]
    omega
  | case5 c cs _ _ _ ih =>
    simp only [List.length_cons]
    omega

/-- Template text runs to a backtick, to an insertion or to the end. -/
lemma drop_templateLength (cs : List Char) :
    cs.drop (templateLength cs) = [] ∨ (∃ tail, cs.drop (templateLength cs) = '\x60' :: tail) ∨
      ∃ tail, cs.drop (templateLength cs) = '$' :: '\x7b' :: tail := by
  fun_induction templateLength cs with
  | case1 => exact Or.inl rfl
  | case2 tail => exact Or.inr (Or.inl ⟨tail, rfl⟩)
  | case3 tail => exact Or.inr (Or.inr ⟨tail, rfl⟩)
  | case4 c cs ih => exact ih
  | case5 c cs _ _ _ ih => exact ih

namespace Cursor

variable {cursor : Cursor} {c : Char} {cs tail : List Char}

lemma nextTemplate_of_nil (h : cursor.rest = []) :
    cursor.nextTemplate = (.endOfFile cursor.offset, cursor) := by
  unfold nextTemplate
  rw [h]

lemma nextTemplate_of_backtick (h : cursor.rest = '\x60' :: cs) :
    cursor.nextTemplate = (cursor.token .backtick 1, cursor.skip 1) := by
  unfold nextTemplate
  split
  next hrest => cases h.symm.trans hrest
  next => rfl
  next hrest => cases h.symm.trans hrest
  next hother _ => exact absurd h (hother cs)

lemma nextTemplate_of_brace (h : cursor.rest = '\x7d' :: cs) :
    cursor.nextTemplate = (cursor.token .rBrace 1, cursor.skip 1) := by
  unfold nextTemplate
  split
  next hrest => cases h.symm.trans hrest
  next hrest => cases h.symm.trans hrest
  next => rfl
  next hother => exact absurd h (hother cs)

lemma nextTemplate_of_insertion (h : cursor.rest = c :: cs) (htick : c ≠ '\x60')
    (hbrace : c ≠ '\x7d')
    (hdrop : cursor.rest.drop (templateLength cursor.rest) = '$' :: '\x7b' :: tail) :
    cursor.nextTemplate = (cursor.token .dollarBrace (templateLength cursor.rest),
      cursor.skip (templateLength cursor.rest + 1)) := by
  unfold nextTemplate
  split
  next hrest => cases h.symm.trans hrest
  next hrest => exact absurd (List.cons.inj (h.symm.trans hrest)).1 htick
  next hrest => exact absurd (List.cons.inj (h.symm.trans hrest)).1 hbrace
  next => simp only [hdrop]

lemma nextTemplate_of_plain (h : cursor.rest = c :: cs) (htick : c ≠ '\x60')
    (hbrace : c ≠ '\x7d')
    (hdrop : ∀ tail, cursor.rest.drop (templateLength cursor.rest) ≠ '$' :: '\x7b' :: tail) :
    cursor.nextTemplate = (cursor.token .templateString (templateLength cursor.rest),
      cursor.skip (templateLength cursor.rest)) := by
  unfold nextTemplate
  split
  next hrest => cases h.symm.trans hrest
  next hrest => exact absurd (List.cons.inj (h.symm.trans hrest)).1 htick
  next hrest => exact absurd (List.cons.inj (h.symm.trans hrest)).1 hbrace
  next =>
    dsimp only
    split
    next hrest => exact absurd hrest (hdrop _)
    next => rfl

/-- Text in a template runs to its end or to the end of the source. -/
lemma nextTemplate_of_text (h : cursor.nextTemplate.1.kind = .templateString) :
    cursor.nextTemplate.2.nextTemplate.1.kind = .backtick ∨
      cursor.nextTemplate.2.nextTemplate.1.kind = .endOfFile := by
  have hnext : cursor.nextTemplate.2 = cursor.skip (templateLength cursor.rest) ∧
      ∀ tail, cursor.rest.drop (templateLength cursor.rest) ≠ '$' :: '\x7b' :: tail := by
    unfold nextTemplate at h ⊢
    split at h
    next => cases h
    next => cases h
    next => cases h
    next =>
      dsimp only at h ⊢
      split at h
      next => cases h
      next hother => exact ⟨rfl, hother⟩
  rw [hnext.1]
  unfold nextTemplate
  rw [skip_rest]
  rcases drop_templateLength cursor.rest with hrest | ⟨tail, hrest⟩ | ⟨tail, hrest⟩
  · rw [hrest]
    exact Or.inr rfl
  · rw [hrest]
    exact Or.inl rfl
  · exact absurd hrest (hnext.2 tail)

/-- A piece of a template takes up some text, unless nothing is left. -/
lemma nextTemplate_length_lt (h : cursor.rest ≠ []) :
    cursor.nextTemplate.2.rest.length < cursor.rest.length := by
  obtain ⟨c, cs, hrest⟩ := List.exists_cons_of_ne_nil h
  unfold nextTemplate
  split
  next hnil => exact absurd hnil h
  next => exact skip_length_lt hrest Nat.one_pos
  next => exact skip_length_lt hrest Nat.one_pos
  next _ hbacktick _ =>
    simp only
    split
    next => exact skip_length_lt hrest (Nat.succ_pos _)
    next hinsertion =>
      apply skip_length_lt hrest
      apply Nat.pos_of_ne_zero
      intro hzero
      -- text of no length stands only in front of a backtick or of an insertion
      rw [hzero, List.drop_zero] at hinsertion
      unfold templateLength at hzero
      split at hzero
      next hnil => exact h hnil
      next htick => exact hbacktick _ htick
      next htext => exact hinsertion _ htext
      next => omega
      next => omega

end Cursor

end ScriptTree
