import ScriptTree.Proofs.Alone
import ScriptTree.Proofs.Levels
import ScriptTree.Proofs.Threshold

/-!
# Parameters read as expressions

The parameters of an arrow function are read as elements of an expression and become parameters when
the arrow is seen. The parameters of a function are read as such. Both ways come to the same in front
of the same token: a name is handed on by all levels of operators, and a default is read as an
element, one level of nesting deeper, or as an assignment.

Main statements: `parameter_of_element` and `element_of_parameter`.
-/

namespace ScriptTree

open ScriptTree.Parser

/-- The second context has as many levels left, or more. -/
structure Context.FitsIn (c d : Context) : Prop where
  levels : c.limit + d.depth ≤ d.limit + c.depth
  inFunction : c.inFunction = d.inFunction

/-- Two runs over the same source, of which the second one has as many levels left, or more. Nothing
is said about faults. -/
def moreRoom : Lockstep :=
  { sameSource 0 0 (Nat.le_refl 0) with
    context := Context.FitsIn
    fault := fun _ _ => True
    excused := fun _ => True
    next := by
      rintro m r s ⟨rfl, hleft⟩ hkind
      rcases hnext : r.cursor.next with ⟨e | token, after⟩
      · exact .fault trivial
      · exact .token (Nat.lt_of_lt_of_le (Reading.left_next hkind hnext) hleft)
          ⟨rfl, Nat.le_refl _⟩
    pieces := fun h => .token h
    mismatch := fun _ _ => trivial
    unexpected := fun _ => trivial
    located := fun _ _ => trivial
    inFunction := fun h => ⟨h.levels, rfl⟩
    mayReturn := fun h => Or.inl h.inFunction
    deeper := by
      intro c d m r s hc _
      have hlevels := hc.levels
      by_cases hdepth : c.depth < c.limit
      · exact Or.inr (Or.inr ⟨hdepth, by omega, by simp only; omega, hc.inFunction⟩)
      · exact Or.inr (Or.inl ⟨Nat.le_of_not_lt hdepth, trivial⟩) }

section Room

variable {c d : Context} {r s : Reading} {i j : Nat}

lemma ok_of_moreRoom {α : Type} {p q : Parser α} {a : α}
    (h : moreRoom.Reads r.left r.left Eq p q) (hc : c.FitsIn d) (hrun : p c r = .ok (a, s)) :
    q d r = .ok (a, s) := by
  have hout := h ⟨Nat.le_refl _, hc, rfl, Nat.le_refl _⟩
  unfold Lockstep.Agree at hout
  rw [hrun] at hout
  generalize q d r = y at hout
  cases hout with
  | ok h =>
    obtain ⟨rfl, k, -, rfl, -⟩ := h
    rfl

/-- What is read with some levels left is read with more of them. -/
lemma run_of_room {goal : Goal} {n : Node} (hi : r.left < i) (hj : r.left < j) (hc : c.FitsIn d)
    (h : Grammar.run i goal c r = .ok (n, s)) : Grammar.run j goal d r = .ok (n, s) :=
  ok_of_moreRoom (Lockstep.run_reads goal hi hj) hc h

lemma yieldExpression_of_room {n : Node} (hi : r.left < i) (hj : r.left < j) (hc : c.FitsIn d)
    (h : (Grammar.upTo i).yieldExpression c r = .ok (n, s)) :
    (Grammar.upTo j).yieldExpression d r = .ok (n, s) := by
  have hgrammars : moreRoom.Grammars r.left (.upTo i) (.upTo j) := {
    left := Nat.le_of_lt hi
    right := Nat.le_of_lt hj
    parse := fun goal m hm => Lockstep.run_reads goal (Nat.lt_trans hm hi) (Nat.lt_trans hm hj) }
  exact ok_of_moreRoom (Lockstep.yieldExpression_reads hgrammars) hc h

end Room

namespace Cursor

variable {x after : Cursor} {t : Token}

/-- A token is cut out of the text at its place. -/
lemma rest_eq_of_next (h : x.next = (.ok t, after)) :
    ∃ gap, x.rest = gap ++ (t.text.toList ++ after.rest) := by
  obtain ⟨gap, start, hrest, -, -, hmeets⟩ := x.next_meets
  rw [h] at hmeets
  refine ⟨gap, hrest.trans ?_⟩
  cases hmeets with
  | done hnil => rw [hnil]; rfl
  | lexeme => simp [Cursor.token, skip_rest]

lemma suffix_of_next (h : x.next = (.ok t, after)) : after.rest <:+ x.rest := by
  obtain ⟨gap, hrest⟩ := rest_eq_of_next h
  exact ⟨gap ++ t.text.toList, by rw [hrest, List.append_assoc]⟩

lemma text_infix_of_next (h : x.next = (.ok t, after)) : t.text.toList <:+: x.rest := by
  obtain ⟨gap, hrest⟩ := rest_eq_of_next h
  exact ⟨gap, after.rest, by rw [hrest, List.append_assoc]⟩

lemma suffix_of_nextTemplate (x : Cursor) : x.nextTemplate.2.rest <:+ x.rest := by
  unfold nextTemplate
  split
  next => exact List.suffix_rfl
  next => exact List.drop_suffix _ _
  next => exact List.drop_suffix _ _
  next =>
    dsimp only
    split <;> exact List.drop_suffix _ _

end Cursor

lemma Follows.suffix {r s : Reading} {ts : List Token} (h : Follows r ts s) :
    s.cursor.rest <:+ r.cursor.rest := by
  induction h with
  | refl => exact List.suffix_rfl
  | next h _ ih => exact ih.trans (Cursor.suffix_of_next h)
  | piece _ ih => exact ih.trans (Cursor.suffix_of_nextTemplate _)

section Names

variable {g : Grammar} {c d : Context} {r s : Reading} {n : Node} {name : String}

lemma identifier_eq_ok_iff : identifier c r = .ok (n, s) ↔
    r.lookahead.kind = .identifier ∧ n = .identifier r.lookahead.text ∧
      r.cursor.next = (.ok s.lookahead, s.cursor) := by
  unfold identifier
  constructor
  · intro h
    obtain ⟨t, u, hexpect, hpure⟩ := bind_eq_ok.1 h
    obtain ⟨rfl, rfl⟩ := pure_eq_ok.1 hpure
    obtain ⟨hkind, token, after, hnext, rfl⟩ := expect_eq_ok hexpect
    rw [expect_of_next hkind hnext] at hexpect
    cases hexpect
    exact ⟨hkind, rfl, hnext⟩
  · rintro ⟨hkind, rfl, hnext⟩
    rw [bind_of_ok (expect_of_next hkind hnext)]
    rfl

lemma primary_of_kind (hkind : r.lookahead.kind = .identifier) :
    g.primary c r = (identifier >>= fun id => sees .arrow >>= fun b =>
      if b = true then g.arrowFunction [id] false else pure id) c r := by
  simp only [Grammar.primary, Bind.bind, lookahead, hkind]

lemma primary_of_name (h : identifier d r = .ok (n, s)) (harrow : s.lookahead.kind ≠ .arrow) :
    g.primary c r = .ok (n, s) := by
  have hname := identifier_eq_ok_iff.1 h
  rw [primary_of_kind hname.1, bind_of_ok (identifier_eq_ok_iff.2 hname)]
  rw [sees_of_ne harrow]
  rfl

/-- A primary expression that is a name is read as a name. -/
lemma name_of_primary (hg : g.Faithful) (hr : r.lookahead.Lexical)
    (h : g.primary c r = .ok (.identifier name, s)) : identifier d r = .ok (.identifier name, s) := by
  obtain ⟨ts, hpass, hprimary⟩ := primary_yields hg c r hr _ s h
  have hkind : r.lookahead.kind = .identifier := by
    cases hprimary with
    | literal hliteral => cases hliteral
    | plainArrow harrow => cases harrow
    | yieldValue hyield => cases hyield
    | nameValue hname =>
      cases hname with
      | name ht =>
        cases hpass.follows with
        | next => exact ht.1
        | piece => exact ht.1
  rw [primary_of_kind hkind] at h
  obtain ⟨id, u, hid, hrest⟩ := bind_eq_ok.1 h
  obtain ⟨-, hrest⟩ | ⟨-, hrest⟩ := sees_eq_ok.1 hrest
  · obtain ⟨t, v, -, hbody⟩ := bind_eq_ok.1 hrest
    obtain ⟨body, w, -, hpure⟩ := bind_eq_ok.1 hbody
    cases hpure
  · obtain ⟨rfl, rfl⟩ := pure_eq_ok.1 hrest
    exact identifier_eq_ok_iff.2 (identifier_eq_ok_iff.1 hid)

/-- An operand that no operator made has nothing in front of it. -/
lemma base_of_operand (hbound : 0 < g.bound) (h : g.operand c r = .ok (n, s))
    (hn : n.isBare = true) : g.base c r = .ok (n, s) := by
  unfold Grammar.operand at h
  obtain ⟨t, u, hlook, h⟩ := bind_eq_ok.1 h
  cases hlook
  change Succeeds _ c r n s at h
  split at h
  next =>
    obtain ⟨t, u, -, h⟩ := bind_eq_ok.1 h
    obtain ⟨a, v, -, h⟩ := bind_eq_ok.1 h
    obtain ⟨b, w, -, h⟩ := bind_eq_ok.1 h
    cases h
    cases hn
  next =>
    obtain ⟨t, u, -, h⟩ := bind_eq_ok.1 h
    obtain ⟨a, v, -, h⟩ := bind_eq_ok.1 h
    obtain ⟨b, w, -, h⟩ := bind_eq_ok.1 h
    cases h
    cases hn
  next =>
    obtain ⟨t, u, -, h⟩ := bind_eq_ok.1 h
    obtain ⟨a, v, -, h⟩ := bind_eq_ok.1 h
    obtain ⟨b, w, -, h⟩ := bind_eq_ok.1 h
    change Succeeds _ c w n s at h
    split at h <;> cases h
    cases hn
  next =>
    obtain ⟨t, u, -, h⟩ := bind_eq_ok.1 h
    obtain ⟨a, v, -, h⟩ := bind_eq_ok.1 h
    cases h
    cases hn
  next => exact (suffixed_carries hbound).keeps n s h hn

lemma primary_of_base (h : g.base c r = .ok (n, s)) (hn : n.isBare = true) :
    g.primary c r = .ok (n, s) := by
  obtain ⟨-, h⟩ | ⟨-, h⟩ := sees_eq_ok.1 h
  · unfold Grammar.creation at h
    obtain ⟨t, u, -, h⟩ := bind_eq_ok.1 h
    obtain ⟨a, v, -, h⟩ := bind_eq_ok.1 h
    obtain ⟨b, w, -, h⟩ := bind_eq_ok.1 h
    obtain ⟨e, x, -, h⟩ := bind_eq_ok.1 h
    cases h
    cases hn
  · exact h

/-- An operand that no operator made was read as a primary expression. -/
lemma primary_of_unary (hbound : 0 < g.bound) (h : g.unary c r = .ok (n, s))
    (hn : n.isBare = true) : c.depth < c.limit ∧ g.primary c.deeper r = .ok (n, s) := by
  obtain ⟨hdepth, hoperand⟩ := nested_eq_ok.1 h
  exact ⟨hdepth, primary_of_base (base_of_operand hbound hoperand hn) hn⟩

/-- An operation that is a name is read as a name. -/
lemma name_of_operation (hg : g.Faithful) (hbound : 0 < g.bound) (hr : r.lookahead.Lexical)
    (h : g.operation c r = .ok (.identifier name, s)) :
    identifier d r = .ok (.identifier name, s) := by
  have hunary := (operation_carries_unary hbound).keeps _ s h rfl
  exact name_of_primary hg hr (primary_of_unary hbound hunary rfl).2

/-- A name that an operation ends behind is an operation. -/
lemma operation_of_name (hbound : 0 < g.bound) (hdepth : c.depth < c.limit)
    (h : identifier d r = .ok (n, s)) (hs : s.lookahead.kind.endsOperation = true) :
    g.operation c r = .ok (n, s) := by
  have hprimary : g.primary c.deeper r = .ok (n, s) :=
    primary_of_name h (Kind.ne_of_endsOperation hs rfl)
  have hopens : r.lookahead.kind.opensOperand = true := by
    rw [(identifier_eq_ok_iff.1 h).1]
    rfl
  exact ((unary_carries hbound hdepth hopens).trans (operation_carries_unary hbound)).ends n s
    hprimary hs

end Names

/-- The kinds of tokens that stand behind a parameter. -/
def Kind.endsItem : Kind → Bool
  | comma | rParen => true
  | _ => false

lemma Kind.endsItem_cases {kind : Kind} (h : kind.endsItem = true) :
    kind = .comma ∨ kind = .rParen := by
  revert h
  cases kind <;> decide

lemma Kind.ne_of_endsItem {kind other : Kind} (h : kind.endsItem = true)
    (hother : other.endsItem = false) : kind ≠ other := by
  rintro rfl
  rw [h] at hother
  cases hother

lemma Kind.endsOperation_of_endsItem {kind : Kind} (h : kind.endsItem = true) :
    kind.endsOperation = true := by
  rcases endsItem_cases h with rfl | rfl <;> rfl

lemma arrowParam?_eq_some_iff {n param : Node} : arrowParam? n = some param ↔
    (∃ name, n = .identifier name ∧ param = .identifier name) ∨
      ∃ name operator value, n = .assignmentExpression (.identifier name) operator value ∧
        param = .assignmentPattern (.identifier name) value := by
  constructor
  · intro h
    unfold arrowParam? at h
    split at h
    next name =>
      cases h
      exact Or.inl ⟨name, rfl, rfl⟩
    next name operator value =>
      cases h
      exact Or.inr ⟨name, operator, value, rfl, rfl⟩
    next => cases h
  · rintro (⟨name, rfl, rfl⟩ | ⟨name, operator, value, rfl, rfl⟩) <;> rfl

section Items

variable {g : Grammar} {c d : Context} {r s u v : Reading} {n id value param : Node} {i j : Nat}

/-- A parameter is a name, or a name with a default behind it. -/
lemma parameter_eq_ok_iff : g.parameter c r = .ok (n, s) ↔
    ∃ id u, identifier c r = .ok (id, u) ∧
      (u.lookahead.kind ≠ .assignment ∧ n = id ∧ s = u ∨
        u.lookahead.kind = .assignment ∧ ∃ v value,
          u.cursor.next = (.ok v.lookahead, v.cursor) ∧
            g.parse .assignment c v = .ok (value, s) ∧ n = .assignmentPattern id value) := by
  unfold Grammar.parameter
  rw [bind_eq_ok]
  refine exists_congr fun id => exists_congr fun u => and_congr_right fun _ => ?_
  rw [accept_bind_eq]
  by_cases hkind : u.lookahead.kind = .assignment
  · rw [sees_of_eq hkind]
    simp only [hkind, ne_eq, not_true_eq_false, false_and, true_and, false_or]
    constructor
    · intro h
      obtain ⟨t, v, hadvance, hrest⟩ := bind_eq_ok.1 h
      obtain ⟨-, token, after, hnext, rfl⟩ := advance_eq_ok hadvance
      obtain ⟨value, w, hvalue, hpure⟩ := bind_eq_ok.1 hrest
      obtain ⟨rfl, rfl⟩ := pure_eq_ok.1 hpure
      exact ⟨_, value, hnext, hvalue, rfl⟩
    · rintro ⟨v, value, hnext, hvalue, rfl⟩
      rw [bind_of_ok (advance_of_next hnext)]
      exact bind_of_ok hvalue
  · rw [sees_of_ne hkind, if_neg Bool.false_ne_true, pure_eq_ok]
    simp [hkind, eq_comm]

lemma assignment_of_end (h : g.operation c r = .ok (n, s))
    (hs : s.lookahead.kind.endsItem = true) : g.assignment c r = .ok (n, s) := by
  unfold Grammar.assignment
  rw [bind_of_ok h]
  rcases Kind.endsItem_cases hs with hkind | hkind <;>
    simp only [Bind.bind, lookahead, hkind] <;> rfl

lemma assignment_of_value (h : g.operation c r = .ok (id, u)) (hid : id.isAssignmentTarget = true)
    (hu : Is .assignment u.lookahead) (hnext : u.cursor.next = (.ok v.lookahead, v.cursor))
    (hdepth : c.depth < c.limit) (hvalue : g.parse .element c.deeper v = .ok (value, s)) :
    g.assignment c r = .ok (.assignmentExpression id .assign value, s) := by
  have htext : u.lookahead.text = "=" :=
    List.mem_singleton.1 (hu.2.mem_spellings (by decide))
  have hspelled : spelled u.lookahead (AssignmentOperator.ofText? u.lookahead.text) c v =
      .ok (.assign, v) := by
    rw [htext]
    rfl
  have hnested : nested (g.parse .element) c v = .ok (value, s) :=
    nested_eq_ok.2 ⟨hdepth, hvalue⟩
  unfold Grammar.assignment
  rw [bind_of_ok h]
  change (if (u.lookahead.kind == .assignment || u.lookahead.kind == .complexAssignment) = true
    then _ else _ : Parser Node) c u = _
  rw [if_pos (by simp [hu.1])]
  rw [if_pos hid, bind_of_ok (advance_of_next hnext), bind_of_ok hspelled, bind_of_ok hnested]
  rw [if_neg (by simp [hu.1])]
  rfl

/-- What is assigned to stands in front, if it is an assignment. -/
lemma assignment_eq_ok (h : g.assignment c r = .ok (n, s)) :
    ∃ id u, g.operation c r = .ok (id, u) ∧ (n = id ∧ s = u ∨
      (∃ operator value, n = .complexAssignmentExpression id operator value) ∨
      u.lookahead.kind = .assignment ∧ ∃ v operator value,
        u.cursor.next = (.ok v.lookahead, v.cursor) ∧ c.depth < c.limit ∧
          g.parse .element c.deeper v = .ok (value, s) ∧
            n = .assignmentExpression id operator value) := by
  unfold Grammar.assignment at h
  obtain ⟨id, u, hid, h⟩ := bind_eq_ok.1 h
  refine ⟨id, u, hid, ?_⟩
  obtain ⟨t, u', hlook, h⟩ := bind_eq_ok.1 h
  cases hlook
  change Succeeds _ c u n s at h
  split at h
  next hkind =>
    split at h
    next =>
      obtain ⟨t, v, hadvance, h⟩ := bind_eq_ok.1 h
      obtain ⟨rfl, token, after, hnext, rfl⟩ := advance_eq_ok hadvance
      obtain ⟨operator, w, hspelled, h⟩ := bind_eq_ok.1 h
      obtain ⟨-, rfl⟩ := spelled_eq_ok.1 hspelled
      obtain ⟨value, x, hvalue, h⟩ := bind_eq_ok.1 h
      change Succeeds _ c x n s at h
      split at h
      next =>
        cases h
        exact Or.inr (Or.inl ⟨operator, value, rfl⟩)
      next hcomplex =>
        cases h
        have hassignment : u.lookahead.kind = .assignment := by simpa [hcomplex] using hkind
        obtain ⟨hdepth, hvalue⟩ := nested_eq_ok.1 hvalue
        exact Or.inr (Or.inr ⟨hassignment, _, operator, value, hnext, hdepth, hvalue, rfl⟩)
    next => cases h
  next =>
    cases h
    exact Or.inl ⟨rfl, rfl⟩

/-- A default has the name and the sign of its parameter in front. -/
lemma left_of_default (hid : identifier c r = .ok (id, u)) (hu : u.lookahead.kind = .assignment)
    (hnext : u.cursor.next = (.ok v.lookahead, v.cursor)) : v.left + 2 ≤ r.left := by
  obtain ⟨hkind, -, hname⟩ := identifier_eq_ok_iff.1 hid
  have hfirst : u.left < r.left := Reading.left_next (by simp [hkind]) hname
  have hsecond : v.left < u.left := Reading.left_next (by simp [hu]) hnext
  omega

lemma element_of_ne (h : r.lookahead.kind ≠ .kwYield) : g.element c r = g.assignment c r :=
  sees_of_ne h

lemma element_of_yield (h : r.lookahead.kind = .kwYield) :
    g.element c r = g.yieldExpression c r :=
  sees_of_eq h

/-- A default that is read as an element is read as an assignment too, a level of nesting higher. -/
lemma assignment_of_element (hi : r.left + 1 < i) (hj : r.left + 1 < j) (hc : c.FitsIn d)
    (hdepth : c.depth < c.limit) (hs : s.lookahead.kind.endsItem = true)
    (h : Grammar.run i .element c.deeper r = .ok (value, s)) :
    Grammar.run j .assignment d r = .ok (value, s) := by
  have hlevels := hc.levels
  obtain ⟨i, rfl⟩ := Nat.exists_eq_add_of_le' (show 1 ≤ i by omega)
  obtain ⟨j, rfl⟩ := Nat.exists_eq_add_of_le' (show 1 ≤ j by omega)
  change (Grammar.upTo i).element c.deeper r = _ at h
  by_cases hyield : r.lookahead.kind = .kwYield
  · -- a `yield` is an operand of the assignment, with nothing behind it
    rw [element_of_yield hyield] at h
    have hdeeper : c.deeper.FitsIn d.deeper :=
      ⟨by simp only [Context.deeper]; omega, hc.inFunction⟩
    have hprimary : (Grammar.upTo j).primary d.deeper r = .ok (value, s) := by
      simp only [Grammar.primary, Bind.bind, lookahead, hyield]
      exact yieldExpression_of_room (by omega) (by omega) hdeeper h
    have hbound : 0 < (Grammar.upTo j).bound := by
      change 0 < j
      omega
    have hopens : r.lookahead.kind.opensOperand = true := by
      rw [hyield]
      rfl
    have hoperation := ((unary_carries hbound (by omega) hopens).trans
      (operation_carries_unary hbound)).ends value s hprimary (Kind.endsOperation_of_endsItem hs)
    exact assignment_of_end hoperation hs
  · rw [element_of_ne hyield] at h
    change Grammar.run (i + 1) .assignment c.deeper r = _ at h
    have hroom : c.deeper.FitsIn d := ⟨by simp only [Context.deeper]; omega, hc.inFunction⟩
    exact run_of_room (by omega) (by omega) hroom h

/-- An element that turns into a parameter is read as this parameter. -/
theorem parameter_of_element (hi : r.left + 1 < i) (hj : r.left + 1 < j) (hc : c.FitsIn d)
    (hr : r.lookahead.Lexical) (hs : s.lookahead.kind.endsItem = true)
    (hparam : arrowParam? n = some param) (h : (Grammar.upTo i).element c r = .ok (n, s)) :
    (Grammar.upTo j).parameter d r = .ok (param, s) := by
  have hbound : 0 < (Grammar.upTo i).bound := by
    change 0 < i
    omega
  have hfaithful := upTo_faithful i
  have hcases := arrowParam?_eq_some_iff.1 hparam
  have hyield : r.lookahead.kind ≠ .kwYield := by
    intro hyield
    rw [element_of_yield hyield] at h
    obtain ⟨ts, -, hderives⟩ := yieldExpression_yields hfaithful c r hr n s h
    cases hderives with
    | yielding => rcases hcases with ⟨_, h, -⟩ | ⟨_, _, _, h, -⟩ <;> cases h
  rw [element_of_ne hyield] at h
  obtain ⟨id, u, hid, ⟨rfl, rfl⟩ | ⟨operator, value, rfl⟩ |
    ⟨hassignment, v, operator, value, hnext, hdepth, hvalue, rfl⟩⟩ := assignment_eq_ok h
  · rcases hcases with ⟨name, rfl, rfl⟩ | ⟨name, operator, value, rfl, rfl⟩
    · refine parameter_eq_ok_iff.2 ⟨_, s, name_of_operation hfaithful hbound hr hid, Or.inl ?_⟩
      exact ⟨Kind.ne_of_endsItem hs rfl, rfl, rfl⟩
    · -- an operation is tighter than an assignment
      obtain ⟨ts, -, hderives⟩ := operation_yields hfaithful c r hr _ s hid
      have hlevel : 2 ≤ 1 := hderives.sits.2
      exact absurd hlevel (by decide)
  · rcases hcases with ⟨_, h, -⟩ | ⟨_, _, _, h, -⟩ <;> cases h
  · rcases hcases with ⟨_, h, -⟩ | ⟨name, _, _, h, rfl⟩
    · cases h
    · cases h
      have hname := name_of_operation (d := d) hfaithful hbound hr hid
      have hleft := left_of_default hname hassignment hnext
      refine parameter_eq_ok_iff.2 ⟨_, u, hname, Or.inr ⟨hassignment, v, value, hnext, ?_, rfl⟩⟩
      exact assignment_of_element (by omega) (by omega) hc hdepth hs hvalue

/-- A parameter is read as an element that turns into it, unless its default is a `yield`. -/
theorem element_of_parameter (hi : r.left + 1 < i) (hj : r.left + 1 < j) (hc : c.FitsIn d.deeper)
    (hdepth : d.depth < d.limit) (hs : s.lookahead.kind.endsItem = true)
    (hplain : ¬"yield".toList <:+: r.cursor.rest)
    (h : (Grammar.upTo i).parameter c r = .ok (param, s)) :
    ∃ n, arrowParam? n = some param ∧ (Grammar.upTo j).element d r = .ok (n, s) := by
  obtain ⟨id, u, hid, hcases⟩ := parameter_eq_ok_iff.1 h
  obtain ⟨hkind, hname, hu⟩ := identifier_eq_ok_iff.1 hid
  obtain ⟨j, rfl⟩ := Nat.exists_eq_add_of_le' (show 1 ≤ j by omega)
  have hbound : 0 < (Grammar.upTo (j + 1)).bound := Nat.succ_pos j
  rw [element_of_ne (by simp [hkind])]
  rcases hcases with ⟨-, rfl, rfl⟩ | ⟨hassignment, v, value, hnext, hvalue, rfl⟩
  · refine ⟨param, by rw [hname]; rfl, assignment_of_end ?_ hs⟩
    exact operation_of_name hbound hdepth hid (Kind.endsOperation_of_endsItem hs)
  · have hends : u.lookahead.kind.endsOperation = true := by
      rw [hassignment]
      rfl
    have hoperation := operation_of_name (g := .upTo (j + 1)) hbound hdepth hid hends
    have hsign : Is .assignment u.lookahead := (Cursor.lexical_of_next hu).is hassignment rfl
    have hleft := left_of_default hid hassignment hnext
    have hyield : v.lookahead.kind ≠ .kwYield := by
      intro hyield
      have htext : v.lookahead.text = "yield" := List.mem_singleton.1 (mem_of_wholeWord ["yield"]
        (by decide) rfl ((Cursor.lexical_of_next hnext).is hyield rfl).2)
      have hword := Cursor.text_infix_of_next hnext
      rw [htext] at hword
      exact hplain (hword.trans (Cursor.suffix_of_next hu).isInfix)
    refine ⟨.assignmentExpression id .assign value, by rw [hname]; rfl,
      assignment_of_value hoperation (by rw [hname]; rfl) hsign hnext hdepth ?_⟩
    have hassigned : Grammar.run (j + 1) .assignment d.deeper v = .ok (value, s) :=
      run_of_room (by omega) (by omega) hc hvalue
    change (Grammar.upTo j).element d.deeper v = _
    rw [element_of_ne hyield]
    exact hassigned

end Items

end ScriptTree
