import ScriptTree.Grammar.Program
import ScriptTree.Proofs.Scan

/-!
# What a reading has ahead of it

A reading holds one token that is already read and the place behind it. `Reading.scan` is what a
scan from that token on gives, so a parser that only uses the lexical rules moves along one list of
tokens, and consuming a token takes the first one off.
-/

namespace ScriptTree

/-- What a token says apart from where it stands. -/
def Token.lexeme (token : Token) : Kind × String :=
  (token.kind, token.text)

lemma Kind.ne_endOfFile_of_isKeyword {kind : Kind} (h : kind.isKeyword = true) :
    kind ≠ .endOfFile := by
  rintro rfl
  cases h

namespace Cursor

/-- There are at most as many tokens as characters. -/
lemma scan_length_le (cursor : Cursor) : cursor.scan.1.length ≤ cursor.rest.length := by
  fun_induction scan cursor with
  | case1 => exact Nat.zero_le _
  | case2 => exact Nat.zero_le _
  | case3 cursor token after h hkind hlt ih =>
    rw [List.length_cons]
    omega

/-- A scan ends with an end token or a refused character. -/
lemma scan_stops (cursor : Cursor) :
    (∃ offset, cursor.scan.2 = .ok (.endOfFile offset)) ∨
      ∃ c span, cursor.scan.2 = .error (.unsupportedCharacter c span) := by
  fun_induction scan cursor with
  | case1 cursor e after h =>
    obtain ⟨gap, start, -, -, -, hmeets⟩ := cursor.next_meets
    rw [h] at hmeets
    cases hmeets
    exact Or.inr ⟨_, _, rfl⟩
  | case2 cursor token after h hkind =>
    obtain ⟨gap, start, -, -, -, hmeets⟩ := cursor.next_meets
    rw [h] at hmeets
    cases hmeets with
    | done => exact Or.inl ⟨_, rfl⟩
    | lexeme hrule => exact absurd hkind (Rule.kind_ne_endOfFile_of_first? hrule)
  | case3 cursor token after h hkind hlt ih => exact ih

end Cursor

/-- The tokens from the next one on, without the end token, and what the scan stops at. -/
def Reading.scan (reading : Reading) : List Token × Except SyntaxError Token :=
  if reading.lookahead.kind = .endOfFile then ([], .ok reading.lookahead)
  else (reading.lookahead :: reading.cursor.scan.1, reading.cursor.scan.2)

lemma Reading.scan_of_end {reading : Reading} (h : reading.lookahead.kind = .endOfFile) :
    reading.scan = ([], .ok reading.lookahead) :=
  if_pos h

lemma Reading.scan_of_token {reading : Reading} (h : reading.lookahead.kind ≠ .endOfFile) :
    reading.scan = (reading.lookahead :: reading.cursor.scan.1, reading.cursor.scan.2) :=
  if_neg h

lemma Reading.scan_ne_error (reading : Reading) (e : SyntaxError) :
    reading.scan ≠ ([], .error e) := by
  by_cases h : reading.lookahead.kind = .endOfFile
  · rw [scan_of_end h]
    simp
  · rw [scan_of_token h]
    simp

lemma Cursor.scan_of_next {cursor : Cursor} {token : Token} {after : Cursor}
    (h : cursor.next = (.ok token, after)) : cursor.scan = Reading.scan ⟨token, after⟩ := by
  by_cases hkind : token.kind = .endOfFile
  · rw [scan_of_end h hkind, Reading.scan_of_end hkind]
  · rw [scan_of_token h hkind, Reading.scan_of_token hkind]

/-- Reading at a place meets a fault if nothing but that fault is ahead, and otherwise goes on along
the same scan. -/
lemma Cursor.next_cases (cursor : Cursor) :
    (∃ e after, cursor.next = (.error e, after) ∧ cursor.scan = ([], .error e)) ∨
      ∃ token after, cursor.next = (.ok token, after) ∧
        cursor.scan = Reading.scan ⟨token, after⟩ := by
  rcases hnext : cursor.next with ⟨e | token, after⟩
  · exact Or.inl ⟨e, after, rfl, scan_of_error hnext⟩
  · exact Or.inr ⟨token, after, rfl, scan_of_next hnext⟩

namespace Parser

lemma bind_assoc_eq {α β γ : Type} (p : Parser α) (f : α → Parser β) (g : β → Parser γ) :
    p >>= f >>= g = p >>= fun a => f a >>= g := by
  funext c r
  simp only [Bind.bind]
  cases p c r <;> rfl

lemma id_map_eq {α : Type} (p : Parser α) : id <$> p = p := by
  funext c r
  simp only [Functor.map]
  cases p c r <;> rfl

instance : LawfulMonad Parser :=
  LawfulMonad.mk' Parser id_map_eq (fun _ _ => rfl) bind_assoc_eq

variable {α β σ : Type} {c : Context} {r t : Reading}

lemma bind_eq_ok {p : Parser α} {f : α → Parser β} {b : β} :
    (p >>= f) c r = .ok (b, t) ↔ ∃ a s, p c r = .ok (a, s) ∧ f a c s = .ok (b, t) := by
  simp only [Bind.bind]
  rcases p c r with interrupt | ⟨a, s⟩
  · simp
  · simp

lemma bind_of_ok {p : Parser α} {f : α → Parser β} {a : α} {s : Reading}
    (h : p c r = .ok (a, s)) : (p >>= f) c r = f a c s := by
  simp only [Bind.bind, h]

lemma bind_congr_run {p q : Parser α} {f : α → Parser β} (h : p c r = q c r) :
    (p >>= f) c r = (q >>= f) c r := by
  simp only [Bind.bind, h]

lemma pure_eq_ok {a b : α} : (pure a : Parser α) c r = .ok (b, t) ↔ a = b ∧ r = t := by
  simp only [Pure.pure, Except.ok.injEq, Prod.mk.injEq]

lemma spelled_eq_ok {token : Token} {a? : Option α} {a : α} :
    spelled token a? c r = .ok (a, t) ↔ a? = some a ∧ r = t := by
  cases a? with
  | none => simp [spelled]
  | some b => simp [spelled, pure_eq_ok]

lemma nested_of_lt {p : Parser α} (h : c.depth < c.limit) :
    nested p c r = p { c with depth := c.depth + 1 } r :=
  if_neg (Nat.not_le_of_lt h)

lemma nested_of_le {p : Parser α} (h : c.limit ≤ c.depth) :
    nested p c r = .error (.rejected (.nestingTooDeep c.limit r.lookahead.span)) :=
  if_pos h

lemma nested_eq_ok {p : Parser α} {a : α} : nested p c r = .ok (a, t) ↔
    c.depth < c.limit ∧ p { c with depth := c.depth + 1 } r = .ok (a, t) := by
  by_cases hdepth : c.depth < c.limit
  · simp [nested_of_lt hdepth, hdepth]
  · simp [nested_of_le (Nat.le_of_not_lt hdepth), hdepth]

lemma advance_of_next {token : Token} {after : Cursor} (h : r.cursor.next = (.ok token, after)) :
    advance c r = .ok (r.lookahead, ⟨token, after⟩) := by
  unfold advance
  rw [h]

lemma advance_eq_ok {s : Reading} {u : Token} (h : advance c r = .ok (u, s)) :
    u = r.lookahead ∧ ∃ token after, r.cursor.next = (.ok token, after) ∧ s = ⟨token, after⟩ := by
  unfold advance at h
  split at h
  next token after hnext =>
    cases h
    exact ⟨rfl, token, after, hnext, rfl⟩
  next => cases h

lemma sees_of_eq {kind : Kind} {p q : Parser α} (h : r.lookahead.kind = kind) :
    (sees kind >>= fun b => if b = true then p else q) c r = p c r := by
  change (if (r.lookahead.kind == kind) = true then p else q) c r = _
  rw [if_pos (beq_iff_eq.2 h)]

lemma sees_of_ne {kind : Kind} {p q : Parser α} (h : r.lookahead.kind ≠ kind) :
    (sees kind >>= fun b => if b = true then p else q) c r = q c r := by
  change (if (r.lookahead.kind == kind) = true then p else q) c r = _
  rw [if_neg (by simpa using h)]

lemma sees_eq_ok {kind : Kind} {p q : Parser α} {a : α} :
    (sees kind >>= fun b => if b = true then p else q) c r = .ok (a, t) ↔
      r.lookahead.kind = kind ∧ p c r = .ok (a, t) ∨
        r.lookahead.kind ≠ kind ∧ q c r = .ok (a, t) := by
  by_cases h : r.lookahead.kind = kind
  · simp [sees_of_eq h, h]
  · simp [sees_of_ne h, h]

lemma accept_of_ne {kind : Kind} (h : r.lookahead.kind ≠ kind) :
    accept kind c r = .ok (false, r) := by
  unfold accept
  rw [sees_of_ne h]
  rfl

lemma accept_eq_ok {kind : Kind} {b : Bool} {s : Reading} (h : accept kind c r = .ok (b, s)) :
    b = false ∧ s = r ∨ b = true ∧ r.lookahead.kind = kind ∧
      ∃ token after, r.cursor.next = (.ok token, after) ∧ s = ⟨token, after⟩ := by
  obtain ⟨hkind, h⟩ | ⟨-, h⟩ := sees_eq_ok.1 h
  · obtain ⟨t, u, hadvance, hpure⟩ := bind_eq_ok.1 h
    obtain ⟨-, token, after, hnext, rfl⟩ := advance_eq_ok hadvance
    cases hpure
    exact Or.inr ⟨rfl, hkind, token, after, hnext, rfl⟩
  · cases h
    exact Or.inl ⟨rfl, rfl⟩

lemma expect_of_next {kind : Kind} {token : Token} {after : Cursor}
    (hkind : r.lookahead.kind = kind) (h : r.cursor.next = (.ok token, after)) :
    expect kind c r = .ok (r.lookahead, ⟨token, after⟩) := by
  unfold expect
  rw [sees_of_eq hkind]
  exact advance_of_next h

lemma expectInTemplate_of_kind {kind : Kind} (hkind : r.lookahead.kind = kind) :
    expectInTemplate kind c r =
      .ok (r.lookahead, ⟨r.cursor.nextTemplate.1, r.cursor.nextTemplate.2⟩) := by
  unfold expectInTemplate
  rw [sees_of_eq hkind]
  rfl

lemma expect_eq_ok {kind : Kind} {t : Token} {s : Reading} (h : expect kind c r = .ok (t, s)) :
    r.lookahead.kind = kind ∧
      ∃ token after, r.cursor.next = (.ok token, after) ∧ s = ⟨token, after⟩ := by
  obtain ⟨hkind, h⟩ | ⟨-, h⟩ := sees_eq_ok.1 h
  · exact ⟨hkind, (advance_eq_ok h).2⟩
  · cases h

lemma expect_bind_eq (kind : Kind) (f : Token → Parser α) :
    expect kind >>= f =
      sees kind >>= fun b => if b = true then advance >>= f else mismatch kind >>= f := by
  unfold expect
  rw [bind_assoc]
  congr 1
  funext b
  cases b <;> rfl

lemma expectInTemplate_bind_eq (kind : Kind) (f : Token → Parser α) :
    expectInTemplate kind >>= f =
      sees kind >>= fun b => if b = true then advanceInTemplate >>= f else mismatch kind >>= f := by
  unfold expectInTemplate
  rw [bind_assoc]
  congr 1
  funext b
  cases b <;> rfl

lemma accept_bind_eq (kind : Kind) (f : Bool → Parser α) :
    accept kind >>= f =
      sees kind >>= fun b => if b = true then advance >>= fun _ => f true else f false := by
  unfold accept
  rw [bind_assoc]
  congr 1
  funext b
  cases b with
  | false => rfl
  | true => exact bind_assoc advance (fun _ => pure true) f

lemma loop_of_done {turn : σ → Parser (Turn σ α)} {x : σ} {a : α} {s : Reading} (bound : Nat)
    (h : turn x c r = .ok (.done a, s)) : loop turn (bound + 1) x c r = .ok (a, s) := by
  rw [loop, bind_of_ok h]
  rfl

lemma loop_of_again {turn : σ → Parser (Turn σ α)} {x y : σ} {s : Reading} (bound : Nat)
    (h : turn x c r = .ok (.again y, s)) :
    loop turn (bound + 1) x c r = loop turn bound y c s := by
  rw [loop, bind_of_ok h]

lemma loop_of_error {turn : σ → Parser (Turn σ α)} {x : σ} {i : Interrupt} (bound : Nat)
    (h : turn x c r = .error i) : loop turn (bound + 1) x c r = .error i := by
  rw [loop]
  simp only [Bind.bind, h]

/-- A row of items ends in front of the token that closes it. -/
lemma itemsLoop_end {close : Kind} {item : Parser Node} {bound : Nat} {items : List Node}
    (h : r.lookahead.kind = close) :
    loop (Grammar.nextItem close item) (bound + 1) items c r = .ok (items.reverse, r) := by
  have hturn : Grammar.nextItem close item items c r = .ok (.done items.reverse, r) := by
    unfold Grammar.nextItem
    rw [sees_of_eq h]
    rfl
  exact loop_of_done bound hturn

/-- A run that succeeds. The parser stands by itself here, so that its branches can be split. -/
def Succeeds (p : Parser α) (c : Context) (r : Reading) (a : α) (s : Reading) : Prop :=
  p c r = .ok (a, s)

/-- A loop that comes to its end does so in a last turn, where everything holds that its turns
preserve. -/
lemma loop_eq_ok {turn : σ → Parser (Turn σ α)} {bound : Nat} {state : σ} {a : α}
    (h : loop turn bound state c r = .ok (a, t)) (Inv : σ → Reading → Prop) (hfirst : Inv state r)
    (hagain : ∀ x r y s, Inv x r → turn x c r = .ok (.again y, s) → Inv y s) :
    ∃ x s, Inv x s ∧ turn x c s = .ok (.done a, t) := by
  induction bound generalizing state r with
  | zero => cases h
  | succ bound ih =>
    rw [loop] at h
    obtain ⟨next, s, hturn, hrest⟩ := bind_eq_ok.1 h
    cases next with
    | again y => exact ih hrest (hagain state r y s hfirst hturn)
    | done b =>
      obtain ⟨rfl, rfl⟩ := pure_eq_ok.1 hrest
      exact ⟨state, r, hfirst, hturn⟩

end Parser

section Sources

open ScriptTree.Parser

variable {source : String} {limit : Nat} {token : Token} {after : Cursor}

/-- What reading a whole source comes to, from its first token on. -/
def programOf (source : String) (limit : Nat) (token : Token) (after : Cursor) :
    Except Interrupt (Node × Reading) :=
  (Grammar.upTo ((Cursor.ofSource source).rest.length + 2)).program ⟨limit, 0, false⟩ ⟨token, after⟩

/-- A test that an accepted source passes. -/
lemma exists_ok_of_test {α : Type} {x : Except SyntaxError α} {test : α → Bool}
    (h : x.toOption.any test = true) : ∃ a, x = .ok a ∧ test a = true := by
  cases x with
  | error e => cases h
  | ok a => exact ⟨a, rfl, h⟩

lemma parse_of_fault {e : SyntaxError} (h : (Cursor.ofSource source).next = (.error e, after)) :
    parse source limit = .error e := by
  unfold parse Cursor.program
  simp only [h]

lemma parse_of_ok (h : (Cursor.ofSource source).next = (.ok token, after)) {tree : Node}
    {r : Reading} (hrun : programOf source limit token after = .ok (tree, r)) :
    parse source limit = .ok tree := by
  unfold programOf at hrun
  unfold parse Cursor.program
  simp only [h, hrun]

lemma parse_of_rejected (h : (Cursor.ofSource source).next = (.ok token, after)) {e : SyntaxError}
    (hrun : programOf source limit token after = .error (.rejected e)) :
    parse source limit = .error e := by
  unfold programOf at hrun
  unfold parse Cursor.program
  simp only [h, hrun]

lemma parse_of_misspelt (h : (Cursor.ofSource source).next = (.ok token, after)) {t : Token}
    (hrun : programOf source limit token after = .error (.misspelt t)) :
    parse source limit = .error (.unexpectedToken t.kind t.span) := by
  unfold programOf at hrun
  unfold parse Cursor.program
  simp only [h, hrun]

/-- Reading a whole program ends in front of the end token. -/
lemma program_at_end {g : Grammar} {c : Context} {r r' : Reading} {tree : Node}
    (h : g.program c r = .ok (tree, r')) : r'.lookahead.kind = .endOfFile := by
  unfold Grammar.program at h
  obtain ⟨body, s, -, hlast⟩ := loop_eq_ok h (fun _ _ => True) trivial fun _ _ _ _ _ _ => trivial
  unfold Grammar.nextInProgram at hlast
  obtain ⟨hend, hlast⟩ | ⟨-, hlast⟩ := sees_eq_ok.1 hlast
  · obtain ⟨-, rfl⟩ := pure_eq_ok.1 hlast
    exact hend
  · obtain ⟨node, s', -, hagain⟩ := bind_eq_ok.1 hlast
    cases (pure_eq_ok.1 hagain).1

/-- An accepted source is read to its end. -/
lemma programOf_of_parse {tree : Node} (h : parse source limit = .ok tree) :
    ∃ token after r, (Cursor.ofSource source).next = (.ok token, after) ∧
      programOf source limit token after = .ok (tree, r) ∧ r.lookahead.kind = .endOfFile := by
  rcases hnext : (Cursor.ofSource source).next with ⟨e | token, after⟩
  · rw [parse_of_fault hnext] at h
    cases h
  · rcases hrun : programOf source limit token after with interrupt | ⟨found, r⟩
    · cases interrupt with
      | rejected e =>
        rw [parse_of_rejected hnext hrun] at h
        cases h
      | misspelt t =>
        rw [parse_of_misspelt hnext hrun] at h
        cases h
      | unfinished =>
        unfold programOf at hrun
        unfold parse Cursor.program at h
        simp only [hnext, hrun] at h
        cases h
    · rw [parse_of_ok hnext hrun] at h
      cases h
      exact ⟨token, after, r, rfl, hrun, program_at_end hrun⟩

end Sources

end ScriptTree
