import ScriptTree.Proofs.Reading

/-!
# Reading along a list of lexemes

`Takes p c ls a rest` says that a parser reads `a` off the front of some lexemes and leaves the
others, wherever these lexemes stand in a source. It has one rule for each way in which parsers are
put together, so that a reading is followed from lexeme to lexeme without any cursor.
-/

namespace ScriptTree

open ScriptTree.Parser

/-- The kind of the first lexeme, or of the end token behind the last one. -/
def headKind : List (Kind × String) → Kind
  | [] => .endOfFile
  | (kind, _) :: _ => kind

@[simp] lemma headKind_cons (kind : Kind) (text : String) (ls : List (Kind × String)) :
    headKind ((kind, text) :: ls) = kind := rfl

/-- These lexemes are ahead, up to the end of the source, and no fault. -/
def Stands (r : Reading) (ls : List (Kind × String)) : Prop :=
  r.scan.1.map Token.lexeme = ls ∧ ∃ last, r.scan.2 = .ok last

lemma Stands.kind_eq {r : Reading} {ls : List (Kind × String)} (h : Stands r ls) :
    r.lookahead.kind = headKind ls := by
  obtain ⟨hls, -⟩ := h
  by_cases hend : r.lookahead.kind = .endOfFile
  · rw [Reading.scan_of_end hend] at hls
    rw [← hls, hend]
    rfl
  · rw [Reading.scan_of_token hend] at hls
    rw [← hls]
    rfl

lemma Stands.lookahead {r : Reading} {lexeme : Kind × String} {ls : List (Kind × String)}
    (h : Stands r (lexeme :: ls)) :
    r.lookahead.lexeme = lexeme ∧ r.cursor.scan.1.map Token.lexeme = ls ∧
      ∃ last, r.cursor.scan.2 = .ok last := by
  obtain ⟨hls, hlast⟩ := h
  by_cases hend : r.lookahead.kind = .endOfFile
  · rw [Reading.scan_of_end hend] at hls
    cases hls
  · rw [Reading.scan_of_token hend] at hls hlast
    rw [List.map_cons, List.cons.injEq] at hls
    exact ⟨hls.1, hls.2, hlast⟩

/-- The reading behind a lexeme. -/
lemma Stands.next {r : Reading} {lexeme : Kind × String} {ls : List (Kind × String)}
    (h : Stands r (lexeme :: ls)) :
    ∃ token after, r.cursor.next = (.ok token, after) ∧ Stands ⟨token, after⟩ ls := by
  obtain ⟨-, hls, last, hlast⟩ := h.lookahead
  rcases r.cursor.next_cases with ⟨e, after, -, hscan⟩ | ⟨token, after, hnext, hscan⟩
  · rw [hscan] at hlast
    cases hlast
  · refine ⟨token, after, hnext, ?_, last, ?_⟩
    · rw [← hscan, hls]
    · rw [← hscan, hlast]

/-- The parser reads a result off the front of the lexemes and leaves a rest of them. -/
def Takes {α : Type} (p : Parser α) (c : Context) (ls : List (Kind × String)) (a : α)
    (rest : List (Kind × String)) : Prop :=
  ∀ r, Stands r ls → ∃ s, p c r = .ok (a, s) ∧ Stands s rest

namespace Takes

variable {α β σ : Type} {c : Context} {ls mid rest : List (Kind × String)} {kind : Kind}
  {text : String}

lemma pure (a : α) : Takes (Pure.pure a) c ls a ls := by
  intro r hr
  exact ⟨r, rfl, hr⟩

lemma bind {p : Parser α} {f : α → Parser β} {a : α} {b : β} (hp : Takes p c ls a mid)
    (hf : Takes (f a) c mid b rest) : Takes (p >>= f) c ls b rest := by
  intro r hr
  obtain ⟨s, hs, hmid⟩ := hp r hr
  obtain ⟨t, ht, hrest⟩ := hf s hmid
  exact ⟨t, bind_eq_ok.2 ⟨a, s, hs, ht⟩, hrest⟩

lemma map {p : Parser α} {a : α} (f : α → β) (hp : Takes p c ls a rest) :
    Takes (f <$> p) c ls (f a) rest :=
  hp.bind (f := fun a => Pure.pure (f a)) (Takes.pure (f a))

lemma lookahead_bind {f : Token → Parser β} {b : β}
    (h : ∀ t : Token, t.kind = headKind ls → Takes (f t) c ls b rest) :
    Takes (Parser.lookahead >>= f) c ls b rest := by
  intro r hr
  exact h r.lookahead hr.kind_eq r hr

lemma sees_bind {f : Bool → Parser β} {b : β} (h : Takes (f (headKind ls == kind)) c ls b rest) :
    Takes (sees kind >>= f) c ls b rest := by
  intro r hr
  rw [← hr.kind_eq] at h
  exact h r hr

lemma sees_pos {p q : Parser β} {b : β} (hkind : headKind ls = kind) (h : Takes p c ls b rest) :
    Takes (sees kind >>= fun x => if x = true then p else q) c ls b rest := by
  apply sees_bind
  rw [beq_iff_eq.2 hkind, if_pos rfl]
  exact h

lemma sees_neg {p q : Parser β} {b : β} (hkind : headKind ls ≠ kind) (h : Takes q c ls b rest) :
    Takes (sees kind >>= fun x => if x = true then p else q) c ls b rest := by
  apply sees_bind
  rw [beq_eq_false_iff_ne.2 hkind, if_neg Bool.false_ne_true]
  exact h

lemma advance_bind {f : Token → Parser β} {b : β}
    (h : ∀ t : Token, t.lexeme = (kind, text) → Takes (f t) c ls b rest) :
    Takes (advance >>= f) c ((kind, text) :: ls) b rest := by
  intro r hr
  obtain ⟨token, after, hnext, hafter⟩ := hr.next
  obtain ⟨s, hs, hrest⟩ := h r.lookahead hr.lookahead.1 ⟨token, after⟩ hafter
  refine ⟨s, bind_eq_ok.2 ⟨r.lookahead, ⟨token, after⟩, ?_, hs⟩, hrest⟩
  unfold advance
  rw [hnext]

lemma expect_bind {f : Token → Parser β} {b : β}
    (h : ∀ t : Token, t.lexeme = (kind, text) → Takes (f t) c ls b rest) :
    Takes (expect kind >>= f) c ((kind, text) :: ls) b rest := by
  unfold expect
  rw [bind_assoc]
  exact sees_bind (by simpa using advance_bind h)

lemma expect_skip {p : Parser β} {b : β} (h : Takes p c ls b rest) :
    Takes (expect kind >>= fun _ => p) c ((kind, text) :: ls) b rest :=
  expect_bind fun _ _ => h

lemma accept_pos {f : Bool → Parser β} {b : β} (h : Takes (f true) c ls b rest) :
    Takes (accept kind >>= f) c ((kind, text) :: ls) b rest := by
  unfold accept
  rw [bind_assoc]
  have hadvance : Takes (advance >>= fun _ => f true) c ((kind, text) :: ls) b rest :=
    advance_bind fun _ _ => h
  exact sees_bind (by simpa using hadvance)

lemma accept_neg {f : Bool → Parser β} {b : β} (hkind : headKind ls ≠ kind)
    (h : Takes (f false) c ls b rest) : Takes (accept kind >>= f) c ls b rest := by
  unfold accept
  rw [bind_assoc]
  apply sees_bind
  rw [beq_eq_false_iff_ne.2 hkind]
  exact h

lemma spelled_bind {t : Token} {x : Option α} {a : α} {f : α → Parser β} {b : β} (hx : x = some a)
    (h : Takes (f a) c ls b rest) : Takes (spelled t x >>= f) c ls b rest := by
  subst hx
  exact h

lemma nested {p : Parser α} {a : α} (hdepth : c.depth < c.limit)
    (h : Takes p { c with depth := c.depth + 1 } ls a rest) :
    Takes (Parser.nested p) c ls a rest := by
  intro r hr
  obtain ⟨s, hs, hrest⟩ := h r hr
  exact ⟨s, (nested_of_lt hdepth).trans hs, hrest⟩

lemma loop_again {turn : σ → Parser (Turn σ α)} {bound : Nat} {x y : σ} {a : α}
    (hturn : Takes (turn x) c ls (.again y) mid) (hloop : Takes (loop turn bound y) c mid a rest) :
    Takes (loop turn (bound + 1) x) c ls a rest := by
  unfold loop
  exact hturn.bind hloop

lemma loop_done {turn : σ → Parser (Turn σ α)} {bound : Nat} {x : σ} {a : α}
    (hturn : Takes (turn x) c ls (.done a) rest) : Takes (loop turn (bound + 1) x) c ls a rest := by
  unfold loop
  exact hturn.bind (Takes.pure a)

/-- A loop ends in front of the token that its turns look for first. -/
lemma loop_closed {turn : σ → Parser (Turn σ α)} {again : Parser (Turn σ α)} {bound : Nat} {x : σ}
    {a : α} (hturn : turn x = sees kind >>= fun b => if b = true then Pure.pure (.done a) else again)
    (hclose : headKind rest = kind) : Takes (loop turn (bound + 1) x) c rest a rest := by
  apply loop_done
  rw [hturn]
  exact sees_pos hclose (pure _)

section Items

variable {item : Parser Node} {close : Kind} {n : Node} {read : List Node}

/-- The last item of a list, with the closing token behind it. -/
lemma nextItem_last (hne : headKind ls ≠ close) (hitem : Takes item c ls n rest)
    (hclose : headKind rest = close) :
    Takes (Grammar.nextItem close item read) c ls (.again (n :: read)) rest := by
  refine sees_neg hne (hitem.bind ?_)
  exact sees_pos hclose (pure _)

/-- An item of a list, with a comma behind it that is passed over. -/
lemma nextItem_comma (hne : headKind ls ≠ close)
    (hitem : Takes item c ls n ((.comma, text) :: rest)) (hcomma : close ≠ .comma) :
    Takes (Grammar.nextItem close item read) c ls (.again (n :: read)) rest := by
  refine sees_neg hne (hitem.bind ?_)
  refine sees_neg hcomma.symm ?_
  exact expect_skip (pure _)

end Items

end Takes

end ScriptTree
