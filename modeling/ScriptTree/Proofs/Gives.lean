import ScriptTree.Proofs.Derivation

/-!
# What runs give

`Gives c r p Q` says of every run of a parser that succeeds: it passes over some tokens, and what it
gives and these tokens are related by `Q`. There is one rule for each way to make a parser.

The tokens are read one behind the other. A run that meets no backtick moves along the scan of the
source; behind a backtick it may leave the lexical rules, so nothing is said about the scan there.
-/

namespace ScriptTree

open ScriptTree.Parser

/-- Tokens that are read one behind the other, by the lexical rules or as pieces of a template. -/
inductive Follows : Reading → List Token → Reading → Prop where
  | refl (r : Reading) : Follows r [] r
  | next {r : Reading} {token : Token} {after : Cursor} {ts : List Token} {s : Reading}
      (h : r.cursor.next = (.ok token, after)) (hs : Follows ⟨token, after⟩ ts s) :
      Follows r (r.lookahead :: ts) s
  | piece {r : Reading} {ts : List Token} {s : Reading}
      (hs : Follows ⟨r.cursor.nextTemplate.1, r.cursor.nextTemplate.2⟩ ts s) :
      Follows r (r.lookahead :: ts) s

lemma Follows.trans {r s u : Reading} {ts us : List Token} (h : Follows r ts s)
    (h' : Follows s us u) : Follows r (ts ++ us) u := by
  induction h with
  | refl r => exact h'
  | next h _ ih => exact .next h (ih h')
  | piece _ ih => exact .piece (ih h')

/-- One reading comes behind another one, with tokens between them. -/
structure Passes (r : Reading) (ts : List Token) (s : Reading) : Prop where
  follows : Follows r ts s
  lexical : r.lookahead.Lexical → s.lookahead.Lexical
  scan : (∀ t ∈ r.scan.1, t.kind ≠ .backtick) →
    r.scan.1 = ts ++ s.scan.1 ∧ r.scan.2 = s.scan.2

namespace Passes

variable {r s u : Reading} {ts us : List Token}

lemma refl (r : Reading) : Passes r [] r where
  follows := .refl r
  lexical := id
  scan _ := ⟨rfl, rfl⟩

lemma trans (h : Passes r ts s) (h' : Passes s us u) : Passes r (ts ++ us) u where
  follows := h.follows.trans h'.follows
  lexical := h'.lexical ∘ h.lexical
  scan hplain := by
    obtain ⟨hr, hstop⟩ := h.scan hplain
    have hplain' : ∀ t ∈ s.scan.1, t.kind ≠ .backtick := by
      intro t ht
      apply hplain
      rw [hr]
      exact List.mem_append_right ts ht
    obtain ⟨hs, hstop'⟩ := h'.scan hplain'
    rw [hr, hs, hstop, hstop', List.append_assoc]
    exact ⟨rfl, rfl⟩

/-- Where a template begins, nothing is said about the scan. -/
lemma of_backtick (hkind : r.lookahead.kind = .backtick) (hts : Follows r ts s)
    (h : s.lookahead.Lexical) : Passes r ts s where
  follows := hts
  lexical _ := h
  scan hplain := by
    have hne : r.lookahead.kind ≠ .endOfFile := by simp [hkind]
    have hmem : r.lookahead ∈ r.scan.1 := by simp [Reading.scan_of_token hne]
    exact absurd hkind (hplain r.lookahead hmem)

lemma next {token : Token} {after : Cursor} (hkind : r.lookahead.kind ≠ .endOfFile)
    (h : r.cursor.next = (.ok token, after)) : Passes r [r.lookahead] ⟨token, after⟩ where
  follows := .next h (.refl _)
  lexical _ := Cursor.lexical_of_next h
  scan _ := by
    rw [Reading.scan_of_token hkind, Cursor.scan_of_next h]
    exact ⟨rfl, rfl⟩

end Passes

/-- Every run that succeeds passes over tokens that are related to its result. -/
def Gives {α : Type} (c : Context) (r : Reading) (p : Parser α) (Q : α → List Token → Prop) : Prop :=
  r.lookahead.Lexical → ∀ a s, p c r = .ok (a, s) → ∃ ts, Passes r ts s ∧ Q a ts

namespace Gives

variable {α β σ : Type} {c : Context} {r : Reading} {kind : Kind} {Q : α → List Token → Prop}
  {P : β → List Token → Prop}

lemma mono {p : Parser α} {R : α → List Token → Prop} (h : Gives c r p R)
    (hRQ : ∀ a ts, R a ts → Q a ts) : Gives c r p Q := by
  intro hr a s hrun
  obtain ⟨ts, hpass, hR⟩ := h hr a s hrun
  exact ⟨ts, hpass, hRQ a ts hR⟩

lemma pure {a : α} (h : Q a []) : Gives c r (Pure.pure a) Q := by
  intro _ b s hrun
  obtain ⟨rfl, rfl⟩ := pure_eq_ok.1 hrun
  exact ⟨[], Passes.refl r, h⟩

lemma bind {p : Parser β} {f : β → Parser α} (hp : Gives c r p P)
    (hf : ∀ b ts s, P b ts → Gives c s (f b) fun a us => Q a (ts ++ us)) :
    Gives c r (p >>= f) Q := by
  intro hr a s hrun
  obtain ⟨b, m, hb, ha⟩ := bind_eq_ok.1 hrun
  obtain ⟨ts, hpass, hP⟩ := hp hr b m hb
  obtain ⟨us, hpass', hQ⟩ := hf b ts m hP (hpass.lexical hr) a s ha
  exact ⟨ts ++ us, hpass.trans hpass', hQ⟩

/-- The last part of a construct, of which the result is made. -/
lemma last {p : Parser β} {f : β → α} (hp : Gives c r p P) (h : ∀ b ts, P b ts → Q (f b) ts) :
    Gives c r (p >>= fun b => Pure.pure (f b)) Q := by
  apply hp.bind
  intro b ts s hP
  apply pure
  rw [List.append_nil]
  exact h b ts hP

lemma map {p : Parser β} {f : β → α} (hp : Gives c r p P) (h : ∀ b ts, P b ts → Q (f b) ts) :
    Gives c r (f <$> p) Q :=
  hp.last h

lemma reject (e : SyntaxError) : Gives c r (reject e) Q := by
  intro _ a s hrun
  cases hrun

lemma mismatch : Gives c r (mismatch kind) Q := by
  intro _ a s hrun
  cases hrun

lemma unexpected : Gives c r unexpected Q := by
  intro _ a s hrun
  cases hrun

lemma mismatch_bind {f : β → Parser α} : Gives c r (Parser.mismatch kind >>= f) Q := by
  intro _ a s hrun
  cases hrun

lemma lookahead_bind {f : Token → Parser α} (h : Gives c r (f r.lookahead) Q) :
    Gives c r (lookahead >>= f) Q :=
  h

lemma place_bind {f : Cursor → Parser α} (h : Gives c r (f r.cursor) Q) :
    Gives c r (place >>= f) Q :=
  h

lemma context_bind {f : Context → Parser α} (h : Gives c r (f c) Q) :
    Gives c r (context >>= f) Q :=
  h

/-- Looking ahead consumes nothing. -/
lemma tokenAt_bind {cursor : Cursor} {f : Token × Cursor → Parser α}
    (h : ∀ x, Gives c r (f x) Q) : Gives c r (tokenAt cursor >>= f) Q := by
  intro hr a s hrun
  obtain ⟨x, m, hx, ha⟩ := bind_eq_ok.1 hrun
  unfold tokenAt at hx
  rcases hnext : cursor.next with ⟨e | token, after⟩
  · rw [hnext] at hx
    cases hx
  · rw [hnext] at hx
    obtain ⟨rfl, rfl⟩ := pure_eq_ok.1 hx
    exact h _ hr a s ha

lemma sees_bind {f : Bool → Parser α} (h : Gives c r (f (r.lookahead.kind == kind)) Q) :
    Gives c r (sees kind >>= f) Q :=
  h

lemma sees_ite {p q : Parser α} (hpos : r.lookahead.kind = kind → Gives c r p Q)
    (hneg : r.lookahead.kind ≠ kind → Gives c r q Q) :
    Gives c r (sees kind >>= fun b => if b = true then p else q) Q := by
  apply sees_bind
  by_cases h : r.lookahead.kind = kind
  · rw [if_pos (beq_iff_eq.2 h)]
    exact hpos h
  · rw [if_neg (by simpa using h)]
    exact hneg h

/-- Consuming a token of which it is known that it is not the end. -/
lemma advance_of_lexical {f : Token → Parser α} (hkind : r.lookahead.kind ≠ .endOfFile)
    (h : ∀ s, r.lookahead.Lexical → Gives c s (f r.lookahead) fun a us => Q a (r.lookahead :: us)) :
    Gives c r (advance >>= f) Q := by
  intro hr a s hrun
  obtain ⟨t, m, ht, ha⟩ := bind_eq_ok.1 hrun
  obtain ⟨rfl, token, after, hnext, rfl⟩ := advance_eq_ok ht
  have hpass := Passes.next hkind hnext
  obtain ⟨us, hpass', hQ⟩ := h ⟨token, after⟩ hr (hpass.lexical hr) a s ha
  exact ⟨r.lookahead :: us, hpass.trans hpass', hQ⟩

lemma advance_bind {f : Token → Parser α} (hkind : r.lookahead.kind = kind)
    (hfree : kind.isFree = false)
    (h : ∀ t s, Is kind t → Gives c s (f t) fun a us => Q a (t :: us)) :
    Gives c r (advance >>= f) Q := by
  apply advance_of_lexical
  · rintro hend
    rw [← hkind, hend] at hfree
    cases hfree
  · intro s hr
    exact h r.lookahead s (hr.is hkind hfree)

/-- Consuming a word that may name a member. -/
lemma word_bind {f : Token → Parser α}
    (hkind : r.lookahead.kind = .identifier ∨ r.lookahead.kind.isKeyword = true)
    (h : ∀ t s, IsMemberWord t → Gives c s (f t) fun a us => Q a (t :: us)) :
    Gives c r (advance >>= f) Q := by
  have hfree : r.lookahead.kind.isFree = false := by
    rcases hkind with hname | hword
    · rw [hname]
      rfl
    · generalize r.lookahead.kind = kind at hword ⊢
      cases kind <;> first | rfl | cases hword
  apply advance_of_lexical
  · intro hend
    rw [hend] at hfree
    cases hfree
  · intro s hr
    exact h r.lookahead s ⟨hkind, (hr.is rfl hfree).2⟩

lemma expect_bind {f : Token → Parser α} (hfree : kind.isFree = false)
    (h : ∀ t s, Is kind t → Gives c s (f t) fun a us => Q a (t :: us)) :
    Gives c r (expect kind >>= f) Q := by
  unfold expect
  rw [bind_assoc]
  apply sees_bind
  by_cases hkind : r.lookahead.kind = kind
  · rw [if_pos (beq_iff_eq.2 hkind)]
    exact advance_bind hkind hfree h
  · rw [if_neg (by simpa using hkind)]
    exact mismatch_bind

lemma expect_gives (hfree : kind.isFree = false) :
    Gives c r (expect kind) fun t ts => Is kind t ∧ ts = [t] := by
  rw [← bind_pure (expect kind)]
  exact expect_bind hfree fun t s ht => pure ⟨ht, rfl⟩

lemma accept_gives (hfree : kind.isFree = false) :
    Gives c r (accept kind) (Mark (Is kind)) := by
  unfold accept
  apply sees_ite
  · intro hkind
    exact advance_bind hkind hfree fun t s ht => pure (Mark.present ht)
  · intro _
    exact pure Mark.absent

lemma accept_pos {p q : Parser α} (hkind : r.lookahead.kind = kind)
    (hfree : kind.isFree = false)
    (h : ∀ t s, Is kind t → Gives c s p fun a us => Q a (t :: us)) :
    Gives c r (accept kind >>= fun b => if b = true then p else q) Q := by
  unfold accept
  rw [bind_assoc]
  apply sees_bind
  rw [if_pos (beq_iff_eq.2 hkind), bind_assoc]
  refine advance_bind hkind hfree fun t s ht => ?_
  rw [pure_bind, if_pos rfl]
  exact h t s ht

lemma accept_ite {p q : Parser α} (hfree : kind.isFree = false)
    (hpos : ∀ t s, Is kind t → Gives c s p fun a us => Q a (t :: us))
    (hneg : Gives c r q Q) :
    Gives c r (accept kind >>= fun b => if b = true then p else q) Q := by
  by_cases hkind : r.lookahead.kind = kind
  · exact accept_pos hkind hfree hpos
  · unfold accept
    rw [bind_assoc]
    apply sees_bind
    rw [if_neg (by simpa using hkind), pure_bind, if_neg Bool.false_ne_true]
    exact hneg

lemma spelled_bind {t : Token} {x : Option β} {f : β → Parser α}
    (h : ∀ b, x = some b → Gives c r (f b) Q) : Gives c r (spelled t x >>= f) Q := by
  cases x with
  | none =>
    intro _ a s hrun
    cases hrun
  | some b => exact h b rfl

lemma nested {p : Parser α} (h : c.depth < c.limit → Gives c.deeper r p Q) :
    Gives c r (nested p) Q := by
  intro hr a s hrun
  obtain ⟨hdepth, hrun⟩ := nested_eq_ok.1 hrun
  exact h hdepth hr a s hrun

lemma inFunction {p : Parser α} (h : Gives c.inside r p Q) : Gives c r (inFunction p) Q :=
  h

/-- What a turn leaves behind it: the state of the next turn, or the result of the loop. -/
def Turned (P : σ → List Token → Prop) (Q : α → List Token → Prop) (ts : List Token) :
    Turn σ α → List Token → Prop
  | .again x, us => P x (ts ++ us)
  | .done a, us => Q a (ts ++ us)

/-- A loop gives what its last turn makes of the tokens of all turns. -/
lemma loop (P : σ → List Token → Prop) {turn : σ → Parser (Turn σ α)} {bound : Nat} {x : σ}
    (hturn : ∀ x ts s, P x ts → Gives c s (turn x) (Turned P Q ts)) (hfirst : P x []) :
    Gives c r (loop turn bound x) Q := by
  have hloop : ∀ bound x ts s, P x ts →
      Gives c s (Parser.loop turn bound x) fun a us => Q a (ts ++ us) := by
    intro bound
    induction bound with
    | zero =>
      intro x ts s _ _ a u hrun
      cases hrun
    | succ bound ih =>
      intro x ts s hP
      rw [Parser.loop]
      apply (hturn x ts s hP).bind
      intro turned us u hturned
      cases turned with
      | again y =>
        apply (ih y (ts ++ us) u hturned).mono
        intro a vs hQ
        rwa [List.append_assoc] at hQ
      | done a =>
        apply pure
        rwa [List.append_nil]
  exact hloop bound x [] r hfirst

end Gives

end ScriptTree
