import ScriptTree.Proofs.Derivation

/-!
# What results satisfy

`Ensures c p Q` says that every result of a parser in a context satisfies `Q`, wherever it starts to
read and whichever tokens it passes over. Both inside and outside of templates it keeps to tokens
whose texts are of their kinds. There is one rule for each way to make a parser.
-/

namespace ScriptTree

open ScriptTree.Parser

/-- Every result of a parser satisfies a condition. -/
def Ensures {α : Type} (c : Context) (p : Parser α) (Q : α → Prop) : Prop :=
  ∀ r : Reading, r.lookahead.Lexical → ∀ a s, p c r = .ok (a, s) → s.lookahead.Lexical ∧ Q a

namespace Ensures

variable {α β σ : Type} {c : Context} {kind : Kind} {Q : α → Prop} {P : β → Prop}

lemma mono {p : Parser α} {R : α → Prop} (h : Ensures c p R) (hRQ : ∀ a, R a → Q a) :
    Ensures c p Q := by
  intro r hr a s hrun
  obtain ⟨hs, hR⟩ := h r hr a s hrun
  exact ⟨hs, hRQ a hR⟩

lemma pure {a : α} (h : Q a) : Ensures c (Pure.pure a) Q := by
  intro r hr b s hrun
  obtain ⟨rfl, rfl⟩ := pure_eq_ok.1 hrun
  exact ⟨hr, h⟩

lemma bind {p : Parser β} {f : β → Parser α} (hp : Ensures c p P)
    (hf : ∀ b, P b → Ensures c (f b) Q) : Ensures c (p >>= f) Q := by
  intro r hr a s hrun
  obtain ⟨b, m, hb, ha⟩ := bind_eq_ok.1 hrun
  obtain ⟨hm, hP⟩ := hp r hr b m hb
  exact hf b hP m hm a s ha

/-- The last part of a construct, of which the result is made. -/
lemma last {p : Parser β} {f : β → α} (hp : Ensures c p P) (h : ∀ b, P b → Q (f b)) :
    Ensures c (p >>= fun b => Pure.pure (f b)) Q :=
  hp.bind fun b hb => pure (h b hb)

lemma map {p : Parser β} {f : β → α} (hp : Ensures c p P) (h : ∀ b, P b → Q (f b)) :
    Ensures c (f <$> p) Q :=
  hp.last h

lemma reject (e : SyntaxError) : Ensures c (reject e) Q := by
  intro r hr a s hrun
  cases hrun

lemma mismatch : Ensures c (mismatch kind) Q := by
  intro r hr a s hrun
  cases hrun

lemma unexpected : Ensures c unexpected Q := by
  intro r hr a s hrun
  cases hrun

lemma mismatch_bind {f : β → Parser α} : Ensures c (Parser.mismatch kind >>= f) Q := by
  intro r hr a s hrun
  cases hrun

lemma unfinished : Ensures c unfinished Q := by
  intro r hr a s hrun
  cases hrun

/-- Nothing is said of the result. -/
abbrev Anything : α → Prop :=
  fun _ => True

/-- A part of which the result does not matter. -/
lemma skip {p : Parser β} {f : β → Parser α} (hp : Ensures c p Anything)
    (hf : ∀ b, Ensures c (f b) Q) : Ensures c (p >>= f) Q :=
  hp.bind fun b _ => hf b

lemma lookahead_bind {f : Token → Parser α} (h : ∀ token, Ensures c (f token) Q) :
    Ensures c (lookahead >>= f) Q :=
  fun r hr a s hrun => h r.lookahead r hr a s hrun

lemma sees_bind {f : Bool → Parser α} (h : ∀ b, Ensures c (f b) Q) :
    Ensures c (sees kind >>= f) Q :=
  lookahead_bind fun token => h (token.kind == kind)

/-- One of two branches, whichever token comes next. -/
lemma sees_ite {p q : Parser α} (hp : Ensures c p Q) (hq : Ensures c q Q) :
    Ensures c (sees kind >>= fun b => if b = true then p else q) Q := by
  apply sees_bind
  intro b
  split
  · exact hp
  · exact hq

lemma context_bind {f : Context → Parser α} (h : Ensures c (f c) Q) :
    Ensures c (context >>= f) Q :=
  h

lemma place_bind {f : Cursor → Parser α} (h : ∀ cursor, Ensures c (f cursor) Q) :
    Ensures c (place >>= f) Q :=
  fun r hr a s hrun => h r.cursor r hr a s hrun

lemma tokenAt (cursor : Cursor) : Ensures c (tokenAt cursor) Anything := by
  unfold Parser.tokenAt
  split
  · exact pure trivial
  · exact reject _

lemma advance : Ensures c advance Anything := by
  intro r _ t s hrun
  obtain ⟨-, token, after, hnext, rfl⟩ := advance_eq_ok hrun
  exact ⟨Cursor.lexical_of_next hnext, trivial⟩

lemma advanceInTemplate : Ensures c advanceInTemplate Anything := by
  intro r _ t s hrun
  cases hrun
  exact ⟨Cursor.lexical_of_nextTemplate r.cursor, trivial⟩

lemma expect : Ensures c (expect kind) Anything :=
  sees_ite advance mismatch

lemma expectInTemplate : Ensures c (expectInTemplate kind) Anything :=
  sees_ite advanceInTemplate mismatch

lemma accept : Ensures c (accept kind) Anything :=
  sees_ite (advance.skip fun _ => pure trivial) (pure trivial)

lemma accept_ite {p q : Parser α} (hp : Ensures c p Q) (hq : Ensures c q Q) :
    Ensures c (Parser.accept kind >>= fun b => if b = true then p else q) Q := by
  apply accept.skip
  intro b
  split
  · exact hp
  · exact hq

lemma spelled_bind {t : Token} {x : Option β} {f : β → Parser α}
    (h : ∀ b, x = some b → Ensures c (f b) Q) : Ensures c (spelled t x >>= f) Q := by
  cases x with
  | none =>
    intro r hr a s hrun
    cases hrun
  | some b => exact h b rfl

/-- A token of a kind that is consumed where it is there has a text of that kind. -/
lemma sees_advance {f : Token → Parser α} {q : Parser α} (hfree : kind.isFree = false)
    (hf : ∀ t, Is kind t → Ensures c (f t) Q) (hq : Ensures c q Q) :
    Ensures c (sees kind >>= fun b => if b = true then Parser.advance >>= f else q) Q := by
  intro r hr a s hrun
  obtain ⟨hkind, hrun⟩ | ⟨-, hrun⟩ := sees_eq_ok.1 hrun
  · obtain ⟨t, m, ht, ha⟩ := bind_eq_ok.1 hrun
    obtain ⟨rfl, -⟩ := advance_eq_ok ht
    exact hf _ (hr.is hkind hfree) m (advance r hr _ m ht).1 a s ha
  · exact hq r hr a s hrun

lemma optionally {p : Parser β} (hp : Ensures c p P) :
    Ensures c (optionally kind p) fun b? => ∀ b ∈ b?, P b := by
  unfold Parser.optionally
  apply accept_ite
  · exact hp.map fun b hb x hx => Option.some.inj hx ▸ hb
  · exact pure fun x hx => by cases hx

lemma nested {p : Parser α} (h : c.depth < c.limit → Ensures c.deeper p Q) :
    Ensures c (nested p) Q := by
  intro r hr a s hrun
  obtain ⟨hdepth, hrun⟩ := nested_eq_ok.1 hrun
  exact h hdepth r hr a s hrun

lemma inFunction {p : Parser α} (h : Ensures c.inside p Q) : Ensures c (inFunction p) Q :=
  h

/-- What a turn leaves behind it: the state of the next turn, or the result of the loop. -/
def Turned (P : σ → Prop) (Q : α → Prop) : Turn σ α → Prop
  | .again x => P x
  | .done a => Q a

/-- What holds in front of every turn is what the last turn starts from. -/
lemma loop (P : σ → Prop) {turn : σ → Parser (Turn σ α)} {bound : Nat} {x : σ}
    (hturn : ∀ x, P x → Ensures c (turn x) (Turned P Q)) (hfirst : P x) :
    Ensures c (loop turn bound x) Q := by
  induction bound generalizing x with
  | zero => exact unfinished
  | succ bound ih =>
    rw [Parser.loop]
    apply (hturn x hfirst).bind
    intro turned hturned
    cases turned with
    | again y => exact ih hturned
    | done a => exact pure hturned

/-- Items of a list satisfy what each item does. -/
lemma delimited {g : Grammar} {close : Kind} {item : Parser Node} {P : Node → Prop}
    (hitem : Ensures c item P) : Ensures c (g.delimited close item) fun nodes => ∀ n ∈ nodes, P n := by
  unfold Grammar.delimited
  have hitems : Ensures c (Parser.loop (Grammar.nextItem close item) g.bound [])
      fun nodes => ∀ n ∈ nodes, P n := by
    apply loop fun nodes => ∀ n ∈ nodes, P n
    · intro nodes hnodes
      unfold Grammar.nextItem
      apply sees_ite
      · exact pure fun n hn => hnodes n (List.mem_reverse.1 hn)
      · apply hitem.bind
        intro node hnode
        have hagain : ∀ n ∈ node :: nodes, P n := List.forall_mem_cons.2 ⟨hnode, hnodes⟩
        exact sees_ite (pure hagain) (expect.skip fun _ => pure hagain)
    · exact fun n hn => absurd hn List.not_mem_nil
  exact hitems.bind fun nodes hnodes => expect.skip fun _ => pure hnodes

end Ensures

end ScriptTree
