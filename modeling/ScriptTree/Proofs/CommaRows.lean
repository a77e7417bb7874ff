import ScriptTree.Proofs.Cover

/-!
# Rows of parameters and sequences of elements

A sequence and a list of parameters are rows of items with commas between them, read by loops of
different shapes. `CommaRow` says what both loops read, so a row of elements that turn into parameters
can be read by the loop for parameters and the other way round. Only a comma behind the last item
tells them apart.

Main statements: `parameters_of_sequence` and `sequence_of_parameters`.
-/

namespace ScriptTree

open ScriptTree.Parser

/-- Items that a parser reads, with commas between them. -/
inductive CommaRow (p : Parser Node) (c : Context) : Reading → List Node → Reading → Prop where
  | last {r s : Reading} {n : Node} (h : p c r = .ok (n, s)) : CommaRow p c r [n] s
  | cons {r s t u : Reading} {n : Node} {ns : List Node} (h : p c r = .ok (n, s))
      (hcomma : s.lookahead.kind = .comma)
      (hnext : s.cursor.next = (.ok t.lookahead, t.cursor)) (hrow : CommaRow p c t ns u) :
      CommaRow p c r (n :: ns) u

section Rows

variable {p q : Parser Node} {g : Grammar} {c d : Context} {r s t : Reading} {n : Node}
  {ns items result : List Node} {bound k m : Nat}

/-- Each item of a row consumes a token. -/
lemma CommaRow.length_le (hp : Pays none true k p) (h : CommaRow p c r ns s) (hr : Ahead m r) :
    ns.length ≤ m := by
  induction h generalizing m with
  | last h =>
    obtain ⟨l, hl, -⟩ := hp.eats hr h
    exact Nat.le_trans (Nat.le_add_left 1 l) hl
  | cons h hcomma hnext _ ih =>
    obtain ⟨l, hl, hs⟩ := hp.eats hr h
    obtain ⟨l', hl', ht⟩ := hs.next (by simp [hcomma]) hnext
    have hlength := ih ht
    rw [List.length_cons]
    omega

/-- The loop over the further elements of a sequence stops behind a row, if it reads any. -/
lemma sequenceLoop_eq_ok (h : loop g.nextInSequence bound items c r = .ok (n, s)) :
    ∃ ns, n = .sequenceExpression (items.reverse ++ ns) ∧ (ns = [] ∧ s = r ∨
      r.lookahead.kind = .comma ∧ ∃ t : Reading, r.cursor.next = (.ok t.lookahead, t.cursor) ∧
        CommaRow g.element c t ns s) := by
  induction bound generalizing items r with
  | zero => cases h
  | succ bound ih =>
    rw [loop] at h
    obtain ⟨turn, u, hturn, hrest⟩ := bind_eq_ok.1 h
    unfold Grammar.nextInSequence at hturn
    obtain ⟨b, v, haccept, helement⟩ := bind_eq_ok.1 hturn
    clear hturn
    rcases accept_eq_ok haccept with ⟨rfl, rfl⟩ | ⟨rfl, hkind, token, after, hnext, rfl⟩
    · cases helement
      cases hrest
      exact ⟨[], by rw [List.append_nil], Or.inl ⟨rfl, rfl⟩⟩
    · obtain ⟨e, w, helement, hpure⟩ := bind_eq_ok.1 helement
      cases hpure
      obtain ⟨ns, rfl, hcases⟩ := ih hrest
      refine ⟨e :: ns, by simp, Or.inr ⟨hkind, ⟨token, after⟩, hnext, ?_⟩⟩
      rcases hcases with ⟨rfl, rfl⟩ | ⟨hcomma, t, ht, hrow⟩
      · exact .last helement
      · exact .cons helement hcomma ht hrow

/-- A sequence is a row of elements. -/
lemma sequence_eq_ok (h : g.sequence c r = .ok (n, s)) :
    ∃ ns, CommaRow g.element c r ns s ∧ (n = .sequenceExpression ns ∨ ns = [n]) := by
  unfold Grammar.sequence at h
  obtain ⟨first, u, hfirst, h⟩ := bind_eq_ok.1 h
  obtain ⟨-, h⟩ | ⟨-, h⟩ := sees_eq_ok.1 h
  · obtain ⟨ns, rfl, ⟨rfl, rfl⟩ | ⟨hcomma, t, hnext, hrow⟩⟩ := sequenceLoop_eq_ok h
    · exact ⟨[first], .last hfirst, Or.inl rfl⟩
    · exact ⟨first :: ns, .cons hfirst hcomma hnext hrow, Or.inl rfl⟩
  · cases h
    exact ⟨[n], .last hfirst, Or.inr rfl⟩

lemma sequenceLoop_of_row (h : CommaRow g.element c t ns s) (hs : s.lookahead.kind ≠ .comma)
    (hcomma : r.lookahead.kind = .comma) (hnext : r.cursor.next = (.ok t.lookahead, t.cursor))
    (hbound : ns.length < bound) :
    loop g.nextInSequence bound items c r =
      .ok (.sequenceExpression (items.reverse ++ ns), s) := by
  have hturn : ∀ {items n} {r t s : Reading}, r.lookahead.kind = .comma →
      r.cursor.next = (.ok t.lookahead, t.cursor) → g.element c t = .ok (n, s) →
      g.nextInSequence items c r = .ok (.again (n :: items), s) := by
    intro items n r t s hcomma hnext hn
    unfold Grammar.nextInSequence
    rw [accept_bind_eq, sees_of_eq hcomma, bind_of_ok (advance_of_next hnext), if_pos rfl,
      bind_of_ok hn]
    rfl
  induction h generalizing items r bound with
  | last h =>
    obtain ⟨bound, rfl⟩ := Nat.exists_eq_add_of_le' (show 2 ≤ bound from hbound)
    have hdone : ∀ items, g.nextInSequence items c _ = .ok (.done _, _) :=
      fun items => bind_of_ok (accept_of_ne hs)
    rw [loop_of_again _ (hturn hcomma hnext h), loop_of_done bound (hdone _)]
    simp only [List.reverse_cons]
  | cons h hcomma' hnext' _ ih =>
    rw [List.length_cons] at hbound
    obtain ⟨bound, rfl⟩ := Nat.exists_eq_add_of_le' (Nat.succ_le_of_lt (Nat.zero_lt_of_lt hbound))
    rw [loop_of_again bound (hturn hcomma hnext h), ih hs hcomma' hnext' (by omega),
      List.reverse_cons, List.append_assoc]
    rfl

/-- The expression that a row of elements is. -/
def sequenceOf : List Node → Node
  | [n] => n
  | ns => .sequenceExpression ns

lemma sequence_of_row (h : CommaRow g.element c r ns s) (hs : s.lookahead.kind ≠ .comma)
    (hbound : ns.length < g.bound) : g.sequence c r = .ok (sequenceOf ns, s) := by
  unfold Grammar.sequence
  cases h with
  | last h =>
    rw [bind_of_ok h]
    rw [sees_of_ne hs]
    rfl
  | @cons _ u _ _ _ ns h hcomma hnext hrow =>
    rw [List.length_cons] at hbound
    rw [bind_of_ok h, sees_of_eq hcomma, sequenceLoop_of_row hrow hs hcomma hnext (by omega)]
    cases hrow <;> rfl

/-- One item of a list, with the parenthesis or a comma behind it. -/
lemma itemsLoop_step (h : r.lookahead.kind ≠ .rParen) :
    loop (Grammar.nextItem .rParen p) (bound + 1) items c r =
      (p >>= fun n => sees .rParen >>= fun b =>
        if b = true then loop (Grammar.nextItem .rParen p) bound (n :: items)
        else expect .comma >>= fun _ =>
          loop (Grammar.nextItem .rParen p) bound (n :: items)) c r := by
  have hturn : Grammar.nextItem .rParen p items c r =
      (p >>= fun n => sees .rParen >>= fun b =>
        if b = true then pure (.again (n :: items))
        else expect .comma >>= fun _ => pure (.again (n :: items)) :
          Parser (Turn (List Node) (List Node))) c r := by
    unfold Grammar.nextItem
    rw [sees_of_ne h]
  rw [loop, bind_congr_run hturn]
  simp only [bind_assoc]
  refine congrFun (congrFun (congrArg (p >>= ·) (funext fun n => ?_)) c) r
  refine congrArg (sees .rParen >>= ·) (funext fun b => ?_)
  cases b <;> simp only [bind_assoc, pure_bind, if_true, Bool.false_eq_true, if_false]

lemma itemsLoop_of_row (hp : ∀ r n s, p c r = .ok (n, s) → r.lookahead.kind ≠ .rParen)
    (h : CommaRow p c r ns s) (hs : s.lookahead.kind = .rParen) (hbound : ns.length < bound) :
    loop (Grammar.nextItem .rParen p) bound items c r = .ok (items.reverse ++ ns, s) := by
  induction h generalizing items bound with
  | @last r s n h =>
    obtain ⟨bound, rfl⟩ := Nat.exists_eq_add_of_le' (show 2 ≤ bound from hbound)
    rw [itemsLoop_step (hp r n s h), bind_of_ok h]
    rw [sees_of_eq hs, itemsLoop_end hs, List.reverse_cons]
  | @cons r s t u n ns h hcomma hnext _ ih =>
    rw [List.length_cons] at hbound
    obtain ⟨bound, rfl⟩ := Nat.exists_eq_add_of_le' (Nat.succ_le_of_lt (Nat.zero_lt_of_lt hbound))
    rw [itemsLoop_step (hp r n s h), bind_of_ok h]
    rw [sees_of_ne (by simp [hcomma]), bind_of_ok (expect_of_next hcomma hnext)]
    rw [ih hs (by omega), List.reverse_cons, List.append_assoc]
    rfl

/-- What a list in parentheses has: nothing, a row, or a row with a comma behind it. -/
lemma itemsLoop_eq_ok
    (h : loop (Grammar.nextItem .rParen p) bound items c r = .ok (result, s)) :
    s.lookahead.kind = .rParen ∧ (result = items.reverse ∧ s = r ∨
      ∃ ns, result = items.reverse ++ ns ∧ (CommaRow p c r ns s ∨
        ∃ t : Reading, CommaRow p c r ns t ∧ t.lookahead.kind = .comma ∧
          t.cursor.next = (.ok s.lookahead, s.cursor))) := by
  induction bound generalizing items r with
  | zero => cases h
  | succ bound ih =>
    by_cases hclose : r.lookahead.kind = .rParen
    · rw [itemsLoop_end hclose] at h
      cases h
      exact ⟨hclose, Or.inl ⟨rfl, rfl⟩⟩
    rw [itemsLoop_step hclose] at h
    obtain ⟨n, u, hitem, h⟩ := bind_eq_ok.1 h
    obtain ⟨hend, h⟩ | ⟨-, h⟩ := sees_eq_ok.1 h
    · cases bound with
      | zero => cases h
      | succ bound =>
        rw [itemsLoop_end hend] at h
        cases h
        exact ⟨hend, Or.inr ⟨[n], List.reverse_cons, Or.inl (.last hitem)⟩⟩
    · obtain ⟨t, v, hcomma, h⟩ := bind_eq_ok.1 h
      obtain ⟨hkind, token, after, hnext, rfl⟩ := expect_eq_ok hcomma
      obtain ⟨hs, hcases⟩ := ih h
      refine ⟨hs, Or.inr ?_⟩
      rcases hcases with ⟨rfl, rfl⟩ | ⟨ns, rfl, hrow | ⟨t, hrow, htrail⟩⟩
      · exact ⟨[n], List.reverse_cons, Or.inr ⟨u, .last hitem, hkind, hnext⟩⟩
      · exact ⟨n :: ns, by simp, Or.inl (.cons hitem hkind hnext hrow)⟩
      · exact ⟨n :: ns, by simp, Or.inr ⟨t, .cons hitem hkind hnext hrow, htrail⟩⟩

/-- The parameters of a function are a list with parentheses around it. -/
lemma parameters_eq_ok_iff : g.parameters c r = .ok (result, s) ↔
    r.lookahead.kind = .lParen ∧ ∃ t v : Reading, r.cursor.next = (.ok t.lookahead, t.cursor) ∧
      loop (Grammar.nextItem .rParen g.parameter) g.bound [] c t = .ok (result, v) ∧
        v.lookahead.kind = .rParen ∧ v.cursor.next = (.ok s.lookahead, s.cursor) := by
  unfold Grammar.parameters Grammar.delimited
  constructor
  · intro h
    obtain ⟨opening, u, hopen, h⟩ := bind_eq_ok.1 h
    obtain ⟨hkind, token, after, hnext, rfl⟩ := expect_eq_ok hopen
    obtain ⟨items, v, hloop, h⟩ := bind_eq_ok.1 h
    obtain ⟨closing, w, hclose, hpure⟩ := bind_eq_ok.1 h
    obtain ⟨hend, last, after', hlast, rfl⟩ := expect_eq_ok hclose
    cases hpure
    exact ⟨hkind, ⟨token, after⟩, v, hnext, hloop, hend, hlast⟩
  · rintro ⟨hkind, t, v, hnext, hloop, hend, hlast⟩
    rw [bind_of_ok (expect_of_next hkind hnext), bind_of_ok hloop,
      bind_of_ok (expect_of_next hend hlast)]
    rfl

end Rows

section Parameters

variable {p : Parser Node} {category : Category} {c d : Context} {r s : Reading} {n : Node}
  {ns params : List Node} {i j bound : Nat}

/-- Where a run stops, a token has been read by the rules, and no text is ahead that was not ahead
before. -/
lemma Yields.reaches (hp : Yields p category) (hr : r.lookahead.Lexical)
    (h : p c r = .ok (n, s)) : s.lookahead.Lexical ∧ s.cursor.rest <:+ r.cursor.rest := by
  obtain ⟨ts, hpass, -⟩ := hp c r hr n s h
  exact ⟨hpass.lexical hr, hpass.follows.suffix⟩

/-- The tokens of a row are derived behind those of any row in front of it. -/
lemma CommaRow.derives (hp : Yields p category) (h : CommaRow p c r ns s)
    (hr : r.lookahead.Lexical) : ∃ ts, Passes r ts s ∧ ∀ front us,
      Derives c (.row (some .comma) category front) us →
        Derives c (.row (some .comma) category (front ++ ns)) (us ++ ts) := by
  induction h with
  | last h =>
    obtain ⟨ts, hpass, hn⟩ := hp c _ hr _ _ h
    exact ⟨ts, hpass, fun front us hfront => hfront.rowItem hn⟩
  | @cons r s t u n ns h hcomma hnext _ ih =>
    obtain ⟨ts, hpass, hn⟩ := hp c _ hr _ _ h
    have hsign : Is .comma s.lookahead := (hpass.lexical hr).is hcomma rfl
    obtain ⟨vs, hpass', hns⟩ := ih (Cursor.lexical_of_next hnext)
    refine ⟨ts ++ ([s.lookahead] ++ vs),
      hpass.trans ((Passes.next (by simp [hcomma]) hnext).trans hpass'), ?_⟩
    intro front us hfront
    have hrow := hns _ _ ((hfront.rowItem hn).rowSeparator hsign)
    simpa only [List.append_assoc, List.cons_append, List.nil_append] using hrow

/-- Elements that turn into parameters are a row of these parameters. -/
lemma CommaRow.parameters (h : CommaRow (Grammar.upTo i).element c r ns s)
    (hi : r.cursor.rest.length + 2 < i) (hj : r.cursor.rest.length + 2 < j) (hc : c.FitsIn d)
    (hr : r.lookahead.Lexical) (hs : s.lookahead.kind.endsItem = true)
    (hparams : ns.mapM arrowParam? = some params) :
    CommaRow (Grammar.upTo j).parameter d r params s := by
  induction h generalizing params with
  | @last r s n h =>
    have hleft := r.left_le
    simp only [List.mapM_cons, List.mapM_nil, Option.bind_eq_bind, Option.pure_def,
      Option.bind_some, Option.bind_eq_some_iff, Option.some.injEq] at hparams
    obtain ⟨param, hparam, rfl⟩ := hparams
    exact .last (parameter_of_element (by omega) (by omega) hc hr hs hparam h)
  | @cons r s t u n ns h hcomma hnext _ ih =>
    have hleft := r.left_le
    simp only [List.mapM_cons, Option.bind_eq_bind, Option.pure_def, Option.bind_eq_some_iff,
      Option.some.injEq] at hparams
    obtain ⟨param, hparam, rest, hrest, rfl⟩ := hparams
    obtain ⟨-, hsuffix⟩ := (element_yields (upTo_faithful i)).reaches hr h
    have hlength := ((Cursor.suffix_of_next hnext).trans hsuffix).length_le
    refine .cons (parameter_of_element (by omega) (by omega) hc hr ?_ hparam h) hcomma hnext ?_
    · rw [hcomma]
      rfl
    · exact ih (by omega) (by omega) (Cursor.lexical_of_next hnext) hs hrest

/-- Parameters without a `yield` are a row of elements that turn into them. -/
lemma CommaRow.elements (h : CommaRow (Grammar.upTo i).parameter c r params s)
    (hi : r.cursor.rest.length + 2 < i) (hj : r.cursor.rest.length + 2 < j)
    (hc : c.FitsIn d.deeper) (hdepth : d.depth < d.limit) (hr : r.lookahead.Lexical)
    (hs : s.lookahead.kind.endsItem = true) (hplain : ¬"yield".toList <:+: r.cursor.rest) :
    ∃ ns, ns.mapM arrowParam? = some params ∧ CommaRow (Grammar.upTo j).element d r ns s := by
  induction h with
  | @last r s param h =>
    have hleft := r.left_le
    obtain ⟨n, hn, helement⟩ :=
      element_of_parameter (j := j) (by omega) (by omega) hc hdepth hs hplain h
    exact ⟨[n], by simp [hn], .last helement⟩
  | @cons r s t u param params h hcomma hnext _ ih =>
    have hleft := r.left_le
    have hends : s.lookahead.kind.endsItem = true := by
      rw [hcomma]
      rfl
    obtain ⟨n, hn, helement⟩ :=
      element_of_parameter (j := j) (by omega) (by omega) hc hdepth hends hplain h
    obtain ⟨-, hsuffix⟩ := (parameter_yields (upTo_faithful i)).reaches hr h
    have hsuffix := (Cursor.suffix_of_next hnext).trans hsuffix
    have hlength := hsuffix.length_le
    obtain ⟨ns, hns, hrow⟩ := ih (by omega) (by omega) (Cursor.lexical_of_next hnext) hs
      fun hword => hplain (hword.trans hsuffix.isInfix)
    exact ⟨n :: ns, by simp [hn, hns], .cons helement hcomma hnext hrow⟩

/-- There is room for all items that are ahead. -/
lemma CommaRow.length_lt {k : Nat} (hp : Pays none true k p) (h : CommaRow p c r ns s)
    (hj : r.cursor.rest.length + 2 < j) : ns.length < j := by
  have hlength := h.length_le hp (Ahead.of_length (Nat.le_refl _))
  omega

lemma arrowParams?_sequenceOf (hns : ns ≠ []) (h : ns.mapM arrowParam? = some params) :
    arrowParams? (sequenceOf ns) = some params := by
  match ns with
  | [n] =>
    simp only [List.mapM_cons, List.mapM_nil, Option.bind_eq_bind, Option.pure_def,
      Option.bind_some, Option.bind_eq_some_iff, Option.some.injEq] at h
    obtain ⟨param, hparam, rfl⟩ := h
    obtain ⟨name, rfl, rfl⟩ | ⟨name, operator, value, rfl, rfl⟩ := arrowParam?_eq_some_iff.1 hparam
    · rfl
    · rfl
  | _ :: _ :: _ => exact h

/-- What an arrow turns into parameters is read as these parameters in front of a parenthesis. -/
theorem parameters_of_sequence (hi : r.cursor.rest.length + 2 < i)
    (hj : r.cursor.rest.length + 2 < j) (hc : c.FitsIn d) (hr : r.lookahead.Lexical)
    (hs : s.lookahead.kind = .rParen) (hparams : arrowParams? n = some params)
    (h : (Grammar.upTo i).sequence c r = .ok (n, s)) :
    loop (Grammar.nextItem .rParen (Grammar.upTo j).parameter) j [] d r = .ok (params, s) := by
  obtain ⟨ns, hrow, hn⟩ := sequence_eq_ok h
  have hends : s.lookahead.kind.endsItem = true := by
    rw [hs]
    rfl
  have hmap : ns.mapM arrowParam? = some params := by
    rcases hn with rfl | rfl
    · exact hparams
    · unfold arrowParams? at hparams
      split at hparams
      next expressions =>
        cases hrow with
        | last helement =>
          obtain ⟨ts, -, hderives⟩ := element_yields (upTo_faithful i) c r hr _ s helement
          have hlevel : 1 ≤ 0 := hderives.sits.2
          exact absurd hlevel (by decide)
        | cons _ _ _ hrest => cases hrest
      next =>
        obtain ⟨param, hparam, rfl⟩ := Option.map_eq_some_iff.1 hparams
        simp [hparam]
  have hmade : Made (Grammar.upTo j) none ⟨true, 1, false, false⟩ (Grammar.upTo j).parameter _ :=
    Made.parameter_made
  have hpays : Pays none true 1 (Grammar.upTo j).parameter :=
    (hmade.pays (Grammar.run_pays j) (by simp)).1
  have hname : ∀ r n s, (Grammar.upTo j).parameter d r = .ok (n, s) →
      r.lookahead.kind ≠ .rParen := by
    intro r n s h
    obtain ⟨id, u, hid, -⟩ := parameter_eq_ok_iff.1 h
    simp [(identifier_eq_ok_iff.1 hid).1]
  have hlist := hrow.parameters hi hj hc hr hends hmap
  exact itemsLoop_of_row hname hlist hs (hlist.length_lt hpays hj)

/-- Parameters without a `yield` are read as an expression that an arrow turns into them, or a comma
stands behind them. -/
theorem sequence_of_parameters (hi : r.cursor.rest.length + 2 < i)
    (hj : r.cursor.rest.length + 2 < j) (hc : c.FitsIn d.deeper) (hdepth : d.depth < d.limit)
    (hr : r.lookahead.Lexical) (hopen : r.lookahead.kind ≠ .rParen)
    (hplain : ¬"yield".toList <:+: r.cursor.rest)
    (h : loop (Grammar.nextItem .rParen (Grammar.upTo i).parameter) bound [] c r =
      .ok (params, s)) :
    (∃ n, arrowParams? n = some params ∧ (Grammar.upTo j).sequence d r = .ok (n, s)) ∨
      ∃ t, CommaRow (Grammar.upTo i).parameter c r params t ∧ t.lookahead.kind = .comma ∧
        t.cursor.next = (.ok s.lookahead, s.cursor) := by
  obtain ⟨hs, ⟨rfl, rfl⟩ | ⟨found, hfound, hrow | hcomma⟩⟩ := itemsLoop_eq_ok h
  · exact absurd hs hopen
  · rw [List.reverse_nil, List.nil_append] at hfound
    subst hfound
    have hends : s.lookahead.kind.endsItem = true := by
      rw [hs]
      rfl
    obtain ⟨ns, hns, helements⟩ := hrow.elements hi hj hc hdepth hr hends hplain
    have hne : ns ≠ [] := by
      rintro rfl
      cases helements
    have hpays : Pays none true 1 (Grammar.upTo j).element := Grammar.run_pays (j + 1) .element
    exact Or.inl ⟨sequenceOf ns, arrowParams?_sequenceOf hne hns,
      sequence_of_row helements (by simp [hs]) (helements.length_lt hpays hj)⟩
  · rw [List.reverse_nil, List.nil_append] at hfound
    subst hfound
    exact Or.inr hcomma

end Parameters

end ScriptTree
