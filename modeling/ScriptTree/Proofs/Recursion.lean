import ScriptTree.Proofs.Faults
import ScriptTree.Proofs.Threshold
import ScriptTree.Proofs.Understood
import Mathlib.Logic.Relation

/-!
# Reading by recursion on what is left

The productions refer to each other in circles, and many of them start with another one before they
consume anything. But between the start of a construct and the start of a part that it asks for, a
token is consumed, and so it is between two turns of a loop. `Reading.Before` says that at least one
token is consumed between two readings. As this cannot go on for ever, constructs can be read by
recursion on what is left of the source, without levels and whatever the limit of nesting.
`Grammar.whole` does so, and it is what finitely many levels come to if there are enough of them.

Main statements: `Grammar.production_agrees` for one construct over its parts,
`Grammar.run_eq_whole` for constructs with all their parts, and `reading_ends`.
-/

namespace ScriptTree

open ScriptTree.Parser

namespace Reading

/-- A token is consumed, and what stands behind it is read by the lexical rules or as template text.
The end of the source is never consumed. -/
inductive Consumes : Reading → Reading → Prop where
  | next {r : Reading} {token : Token} {after : Cursor} (hkind : r.lookahead.kind ≠ .endOfFile)
      (h : r.cursor.next = (.ok token, after)) : Consumes r ⟨token, after⟩
  | piece {r : Reading} (hkind : r.lookahead.kind ≠ .endOfFile) :
      Consumes r ⟨r.cursor.nextTemplate.1, r.cursor.nextTemplate.2⟩

/-- At least one token is consumed between two readings. -/
def Before : Reading → Reading → Prop :=
  Relation.TransGen Consumes

lemma Consumes.left_lt {r s : Reading} (h : r.Consumes s) : s.left < r.left := by
  cases h with
  | next hkind h => exact left_next hkind h
  | piece hkind => exact left_nextTemplate hkind

/-- What is consumed is no longer left. -/
lemma Before.left_lt {r s : Reading} (h : r.Before s) : s.left < r.left := by
  induction h with
  | single h => exact h.left_lt
  | tail _ h ih => exact Nat.lt_trans h.left_lt ih

/-- Tokens cannot be consumed for ever. -/
theorem wellFounded_before : WellFounded fun s r : Reading => r.Before s :=
  Subrelation.wf Before.left_lt (measure left).wf

/-- Less is left only where a token is consumed. -/
lemma before_of_left_lt {r s : Reading} (h : Relation.ReflTransGen Consumes r s)
    (hlt : s.left < r.left) : r.Before s := by
  rcases Relation.reflTransGen_iff_eq_or_transGen.1 h with rfl | hbefore
  · exact absurd hlt (Nat.lt_irrefl _)
  · exact hbefore

end Reading

/-- A parser comes to an end at a reading, and where it succeeds it has consumed a token. -/
structure Finishes {α : Type} (c : Context) (r : Reading) (p : Parser α) : Prop where
  finished : p c r ≠ .error .unfinished
  consumed : ∀ a s, p c r = .ok (a, s) → r.Before s

namespace Grammar

open Classical in
/-- A grammar that gives up where it is asked for a part before a token is consumed. -/
noncomputable def behind (g : Grammar) (r : Reading) : Grammar where
  bound := g.bound
  parse part c s := if r.Before s then g.parse part c s else .error .unfinished

open Classical in
/-- Reads a construct by recursion on what is left of the source. A part that is asked for before a
token is consumed would have to be given up. -/
noncomputable def whole (goal : Goal) (c : Context) (r : Reading) :
    Except Interrupt (Node × Reading) :=
  production ⟨r.left + 1, fun part d s =>
    if _ : r.Before s then whole part d s else .error .unfinished⟩ goal c r
termination_by r.left
decreasing_by exact Reading.Before.left_lt ‹_›

lemma whole_eq (goal : Goal) (c : Context) (r : Reading) :
    whole goal c r = ((Grammar.mk (r.left + 1) whole).behind r).production goal c r := by
  rw [whole]
  rfl

lemma behind_parse {g : Grammar} {r s : Reading} (h : r.Before s) (part : Goal) (c : Context) :
    (g.behind r).parse part c s = g.parse part c s :=
  if_pos h

end Grammar

/-- Two runs over the same source, seen from a reading that both have come through. -/
def sameStart (start : Reading) : Lockstep where
  reading m r s := r = s ∧ Relation.ReflTransGen Reading.Consumes start r ∧ r.left ≤ m
  piece m r s := r = s ∧ Relation.ReflTransGen Reading.Consumes start r ∧ r.left ≤ m
  context c d := d = c
  token := Eq
  span := Eq
  fault := Eq
  excused _ := False
  templates := True
  lookahead h := congrArg _ h.1
  kind_eq h := congrArg _ h
  text_eq h := congrArg _ h
  span_token h := congrArg _ h
  span_merge h h' := congrArg₂ _ h h'
  next := by
    rintro m r s ⟨rfl, hpath, hleft⟩ hkind
    rcases hnext : r.cursor.next with ⟨e | token, after⟩
    · exact .fault rfl
    · exact .token (Nat.lt_of_lt_of_le (Reading.left_next hkind hnext) hleft)
        ⟨rfl, hpath.tail (.next hkind hnext), Nat.le_refl _⟩
  backtick _ _ := trivial
  nextTemplate := by
    rintro m r s - ⟨rfl, hpath, hleft⟩ hkind
    exact ⟨_, Nat.lt_of_lt_of_le (Reading.left_nextTemplate hkind) hleft, rfl,
      hpath.tail (.piece hkind), Nat.le_refl _⟩
  pieces h := .token h
  mismatch := by
    rintro t u kind rfl -
    rfl
  unexpected := by
    rintro t u rfl
    rfl
  located := by
    rintro make a b - rfl
    rfl
  inFunction := by
    rintro c d rfl
    rfl
  mayReturn h := Or.inl (congrArg _ h.symm)
  deeper := by
    rintro c d m r s rfl ⟨rfl, -⟩
    by_cases hexceeded : d.limit ≤ d.depth
    · exact Or.inl ⟨hexceeded, hexceeded, rfl⟩
    · exact Or.inr (Or.inr ⟨by omega, by omega, rfl⟩)

section Runs

variable {α σ : Type} {c : Context} {r start : Reading} {m n : Nat}

/-- Where all of the source that is left is ahead of both runs. -/
lemma stage_at (c : Context) (hn : r.left ≤ n) : (sameStart r).Stage n r.left c r c r :=
  ⟨hn, rfl, rfl, .refl, Nat.le_refl _⟩

/-- Runs in step are the same run, and it comes to an end. -/
lemma Lockstep.Agree.same {p q : Parser α} {post : α → Reading → α → Reading → Prop}
    (h : (sameStart start).Agree post c r c r p q)
    (hpost : ∀ a s b t, post a s b t → a = b ∧ s = t) :
    p c r = q c r ∧ p c r ≠ .error .unfinished ∧ ∀ a s, p c r = .ok (a, s) → post a s a s := by
  unfold Lockstep.Agree at h
  generalize p c r = x at h ⊢
  generalize q c r = y at h ⊢
  cases h with
  | ok h =>
    obtain ⟨rfl, rfl⟩ := hpost _ _ _ _ h
    refine ⟨rfl, by simp, fun a s hrun => ?_⟩
    cases hrun
    exact h
  | fault h =>
    cases h
    exact ⟨rfl, by simp, by simp⟩
  | misspelt h =>
    cases h
    exact ⟨rfl, by simp, by simp⟩
  | excused h => exact False.elim h

lemma below_same {a b : α} {s t : Reading} (h : (sameStart start).Below m Eq a s b t) :
    a = b ∧ s = t := by
  obtain ⟨rfl, k, hk, rfl, -⟩ := h
  exact ⟨rfl, rfl⟩

lemma Lockstep.Reads.finishes {p q : Parser α} (h : (sameStart r).Reads n r.left Eq p q)
    (hn : r.left ≤ n) : p c r = q c r ∧ Finishes c r p := by
  obtain ⟨heq, hfinished, hbelow⟩ := (h (stage_at c hn)).same fun _ _ _ _ => below_same
  refine ⟨heq, hfinished, fun a s hrun => ?_⟩
  obtain ⟨-, k, hk, -, hpath, hleft⟩ := hbelow a s hrun
  exact Reading.before_of_left_lt hpath (Nat.lt_of_le_of_lt hleft hk)

/-- A turn of a loop comes to an end, and finds a token consumed if another turn follows. -/
lemma Lockstep.Turns.finishes {p : Parser (Turn σ α)} (h : (sameStart r).Turns n r.left p p)
    (hn : r.left ≤ n) :
    p c r ≠ .error .unfinished ∧ ∀ y s, p c r = .ok (.again y, s) → r.Before s := by
  have hsame : ∀ (x : Turn σ α) s y t,
      (sameStart r).AfterTurn (sameStart r).reading r.left x s y t → x = y ∧ s = t := by
    rintro x s y t ⟨rfl, k, hafter⟩
    cases x <;> exact ⟨rfl, hafter.2.1⟩
  obtain ⟨-, hfinished, hafter⟩ := (h (stage_at c hn)).same hsame
  refine ⟨hfinished, fun y s hrun => ?_⟩
  obtain ⟨-, k, hk, -, hpath, hleft⟩ := hafter _ s hrun
  exact Reading.before_of_left_lt hpath (Nat.lt_of_le_of_lt hleft hk)

/-- The other way round, runs that are the same and come to an end are in step. -/
lemma reads_of_finishes {p q : Parser α}
    (h : ∀ c s, Relation.ReflTransGen Reading.Consumes start s → s.left ≤ m →
      p c s = q c s ∧ Finishes c s p) : (sameStart start).Reads n m Eq p q := by
  rintro _ s c _ ⟨-, rfl, rfl, hpath, hleft⟩
  obtain ⟨heq, hfinished, hconsumed⟩ := h c s hpath hleft
  unfold Lockstep.Agree
  rw [← heq]
  rcases hx : p c s with interrupt | ⟨a, t⟩
  · cases interrupt with
    | rejected e => exact .fault rfl
    | misspelt t => exact .misspelt rfl
    | unfinished => exact absurd hx hfinished
  · have hbefore := hconsumed a t hx
    exact .ok ⟨rfl, t.left, Nat.lt_of_lt_of_le hbefore.left_lt hleft, rfl,
      hpath.trans hbefore.to_reflTransGen, Nat.le_refl _⟩

end Runs

section Grammars

variable {g h : Grammar} {r : Reading}

/-- A construct depends on its parts only where a token is consumed in front of them: grammars that
agree there, and come to an end there, agree on the construct, and it comes to an end. -/
theorem Grammar.production_agrees (hg : r.left ≤ g.bound) (hh : r.left ≤ h.bound)
    (hparse : ∀ part c s, r.Before s →
      g.parse part c s = h.parse part c s ∧ Finishes c s (g.parse part))
    (goal : Goal) (c : Context) :
    g.production goal c r = h.production goal c r ∧ Finishes c r (g.production goal) := by
  have hgrammars : (sameStart r).Grammars r.left g h := {
    left := hg
    right := hh
    parse := fun part m hm => reads_of_finishes fun c s hpath hleft =>
      hparse part c s (Reading.before_of_left_lt hpath (Nat.lt_of_le_of_lt hleft hm)) }
  exact (Lockstep.production_reads hgrammars goal).finishes (Nat.le_refl _)

/-- With enough levels the grammar reads each construct by recursion on what is left. -/
theorem Grammar.run_eq_whole {levels : Nat} (goal : Goal) (c : Context) (r : Reading)
    (hlevels : r.left < levels) :
    run levels goal c r = whole goal c r ∧ Finishes c r (run levels goal) := by
  induction levels generalizing goal c r with
  | zero => exact absurd hlevels (Nat.not_lt_zero _)
  | succ levels ih =>
    rw [whole_eq]
    apply production_agrees
    · exact Nat.le_of_lt_succ hlevels
    · exact Nat.le_succ _
    · intro part d s hbefore
      rw [behind_parse hbefore]
      exact ih part d s (Nat.lt_of_lt_of_le hbefore.left_lt (Nat.le_of_lt_succ hlevels))

lemma Grammar.whole_finishes (goal : Goal) (c : Context) (r : Reading) :
    Finishes c r (whole goal) := by
  obtain ⟨heq, hfinished, hconsumed⟩ := run_eq_whole goal c r (Nat.lt_succ_self _)
  constructor
  · rwa [heq] at hfinished
  · rwa [heq] at hconsumed

/-- The equations of the grammar hold without levels. -/
theorem Grammar.whole_eq_production {bound : Nat} (goal : Goal) (c : Context) (r : Reading)
    (hbound : r.left ≤ bound) : whole goal c r = (Grammar.mk bound whole).production goal c r := by
  rw [whole_eq]
  refine (production_agrees hbound (Nat.le_succ _) (fun part d s hbefore => ?_) goal c).1.symm
  rw [behind_parse hbefore]
  exact ⟨rfl, whole_finishes part d s⟩

end Grammars

/-- A construct that is to be read somewhere. -/
structure Demand where
  goal : Goal
  context : Context
  reading : Reading

open Classical in
/-- A grammar that gives up where it is asked for one certain part. -/
noncomputable def Grammar.without (g : Grammar) (demand : Demand) : Grammar where
  bound := g.bound
  parse part c s := if Demand.mk part c s = demand then .error .unfinished else g.parse part c s

/-- Reading a construct asks for a part: where that one part is given up, so is the construct. -/
def Demand.Raises (x y : Demand) : Prop :=
  ((Grammar.mk x.reading.left Grammar.whole).without y).production x.goal x.context x.reading =
    .error .unfinished

/-- Between the start of a construct and that of a part it asks for, a token is consumed. -/
theorem Demand.Raises.before {x y : Demand} (h : x.Raises y) : x.reading.Before y.reading := by
  by_contra hnot
  have hagrees := Grammar.production_agrees
    (g := Grammar.mk x.reading.left Grammar.whole)
    (h := (Grammar.mk x.reading.left Grammar.whole).without y)
    (Nat.le_refl _) (Nat.le_refl _) (fun part c s hbefore => ?_) x.goal x.context
  · exact hagrees.2.finished (hagrees.1.trans h)
  · refine ⟨(if_neg ?_).symm, Grammar.whole_finishes part c s⟩
    rintro rfl
    exact hnot hbefore

/-- So no construct asks for itself, by way of its parts, in front of the same token. -/
theorem wellFounded_raises : WellFounded fun y x : Demand => x.Raises y :=
  Subrelation.wf Demand.Raises.before (InvImage.wf Demand.reading Reading.wellFounded_before)

/-- The operand of a sign is asked for. -/
lemma raises_operand {c : Context} {r : Reading} {token : Token} {after : Cursor}
    (hkind : r.lookahead.kind = .bang) (htext : (UnaryOperator.ofText? r.lookahead.text).isSome)
    (hnext : r.cursor.next = (.ok token, after)) (hdepth : c.depth < c.limit) :
    Demand.Raises ⟨.unary, c, r⟩ ⟨.unary, c.deeper, ⟨token, after⟩⟩ := by
  obtain ⟨operator, hoperator⟩ := Option.isSome_iff_exists.1 htext
  unfold Demand.Raises Grammar.production Grammar.unary Parser.nested Grammar.operand
  simp only [if_neg (Nat.not_le.2 hdepth)]
  simp only [Bind.bind, Pure.pure, lookahead, hkind, advance, hnext, hoperator, spelled,
    Grammar.without, Context.deeper, if_true]

/-! ### Procedures and loops -/

namespace Grammar

variable (g : Grammar)

/-- The parsers that read a statement, an expression, or a part of one that is never empty. -/
inductive Procedure : Parser Node → Prop where
  -- Statements, functions and classes. Whoever may do without one looks first whether the source
  -- is at its end.
  | statement : Procedure g.statement
  | statementKind : Procedure g.statementKind
  | innerStatement : Procedure g.innerStatement
  | block : Procedure g.block
  | expressionStatement : Procedure g.expressionStatement
  | variableDeclaration : Procedure g.variableDeclaration
  | ifStatement : Procedure g.ifStatement
  | forStatement : Procedure g.forStatement
  | loopBody : Procedure g.loopBody
  | whileStatement : Procedure g.whileStatement
  | doWhileStatement : Procedure g.doWhileStatement
  | returnStatement : Procedure g.returnStatement
  | throwStatement : Procedure g.throwStatement
  | tryStatement : Procedure g.tryStatement
  | catchClause : Procedure g.catchClause
  | condition : Procedure g.condition
  | functionDeclaration : Procedure g.functionDeclaration
  | functionExpression (isAsync : Bool) : Procedure (g.functionExpression isAsync)
  | parameter : Procedure g.parameter
  | functionBody : Procedure g.functionBody
  | arrowFunction (params : List Node) (isAsync : Bool) : Procedure (g.arrowFunction params isAsync)
  | arrowBody : Procedure g.arrowBody
  | asyncExpression : Procedure g.asyncExpression
  | method (generator isAsync : Bool) : Procedure (g.method generator isAsync)
  | classDeclaration : Procedure g.classDeclaration
  | heritage : Procedure g.heritage
  | classBody : Procedure g.classBody
  | classMember : Procedure g.classMember
  -- Expressions, from the loosest to the tightest.
  | sequence : Procedure g.sequence
  | element : Procedure g.element
  | yieldExpression : Procedure g.yieldExpression
  | assignment : Procedure g.assignment
  /-- The operators from a level of the ladder on; with no level left, operands with `**`. -/
  | ladder {levels : List OperatorLevel} (h : levels <:+ OperatorLevel.all) :
      Procedure (levels.foldr g.leftGrouped g.power)
  | unary : Procedure g.unary
  | operand : Procedure g.operand
  | suffixed : Procedure g.suffixed
  | base : Procedure g.base
  | creation : Procedure g.creation
  | newBase : Procedure g.newBase
  | optionalSuffix (node : Node) : Procedure (g.optionalSuffix node)
  | computedMember : Procedure g.computedMember
  | memberName : Procedure memberName
  | primary : Procedure g.primary
  | identifier : Procedure identifier
  | regexLiteral : Procedure regexLiteral
  | templateLiteral : Procedure g.templateLiteral
  | arrayLiteral : Procedure g.arrayLiteral
  | objectLiteral : Procedure g.objectLiteral
  | property : Procedure g.property
  | propertyKey : Procedure propertyKey
  | parenthesized : Procedure g.parenthesized

/-- The turns of the loops: each is taken again and again until it says that it was the last. -/
inductive Repetition : ∀ {σ α : Type}, (σ → Parser (Turn σ α)) → Prop where
  | program : Repetition g.nextInProgram
  | block : Repetition g.nextInBlock
  | members : Repetition g.nextMember
  | parameters : Repetition (nextItem .rParen g.parameter)
  | arguments : Repetition (nextItem .rParen (g.parse .element))
  | elements : Repetition (nextItem .rBracket (g.parse .element))
  | properties : Repetition (nextItem .rBrace g.property)
  | template : Repetition g.templatePart
  | suffixes (calls : Bool) : Repetition (g.suffix calls)
  | sequence : Repetition g.nextInSequence
  | operands {level : OperatorLevel} {tighter : List OperatorLevel}
      (h : level :: tighter <:+ OperatorLevel.all) :
      Repetition (nextOperand level (tighter.foldr g.leftGrouped g.power))

end Grammar

section Procedures

open Lockstep

variable {g : Grammar} {L : Lockstep} {m n : Nat}

lemma Grammar.Procedure.reads {p : Parser Node} (hp : g.Procedure p) (hg : L.Grammars n g g)
    (hm : m < n) : L.Reads n m Eq p p := by
  cases hp with
  | statement => exact (statementKind_reads hg).nested
  | statementKind => exact statementKind_reads hg
  | innerStatement => exact innerStatement_reads hg hm
  | block => exact block_reads hg
  | expressionStatement => exact expressionStatement_reads hg
  | variableDeclaration => exact variableDeclaration_reads hg
  | ifStatement => exact ifStatement_reads hg
  | forStatement => exact forStatement_reads hg
  | loopBody => exact loopBody_reads hg hm
  | whileStatement => exact whileStatement_reads hg
  | doWhileStatement => exact doWhileStatement_reads hg
  | returnStatement => exact returnStatement_reads hg
  | throwStatement => exact throwStatement_reads hg
  | tryStatement => exact tryStatement_reads hg
  | catchClause => exact catchClause_reads hg
  | condition => exact condition_reads hg
  | functionDeclaration => exact functionDeclaration_reads hg
  | functionExpression isAsync => exact functionExpression_reads hg isAsync
  | parameter => exact parameter_reads hg
  | functionBody => exact functionBody_reads hg
  | arrowFunction params isAsync => exact arrowFunction_reads hg params isAsync
  | arrowBody => exact arrowBody_reads hg hm
  | asyncExpression => exact asyncExpression_reads hg
  | method generator isAsync => exact functionTail_reads hg none generator isAsync
  | classDeclaration => exact classDeclaration_reads hg
  | heritage => exact heritage_reads hg
  | classBody => exact classBody_reads hg
  | classMember => exact classMember_reads hg
  | sequence => exact sequence_reads hg
  | element => exact element_reads hg
  | yieldExpression => exact yieldExpression_reads hg
  | assignment => exact assignment_reads hg
  | ladder h =>
    exact ladder_reads hg fun level hl => OperatorLevel.kind_ne_endOfFile level (h.subset hl)
  | unary => exact unary_reads hg
  | operand => exact operand_reads hg
  | suffixed => exact suffixed_reads hg
  | base => exact base_reads hg
  | creation => exact creation_reads hg
  | newBase => exact newBase_reads hg hm
  | optionalSuffix node => exact optionalSuffix_reads hg node
  | computedMember => exact computedMember_reads hg
  | memberName => exact memberName_reads
  | primary => exact primary_reads hg
  | identifier => exact identifier_reads
  | regexLiteral => exact regexLiteral_reads
  | templateLiteral => exact templateLiteral_reads hg
  | arrayLiteral => exact arrayLiteral_reads hg
  | objectLiteral => exact objectLiteral_reads hg
  | property => exact property_reads hg
  | propertyKey => exact propertyKey_reads
  | parenthesized => exact parenthesized_reads hg

lemma Grammar.Repetition.turns {start : Reading} {σ α : Type} {turn : σ → Parser (Turn σ α)}
    (hturn : g.Repetition turn) (hg : (sameStart start).Grammars n g g) (hm : m < n) (x : σ) :
    (sameStart start).Turns n m (turn x) (turn x) := by
  cases hturn with
  | program => exact nextInProgram_turns hg hm x
  | block => exact nextInBlock_turns hg hm x
  | members => exact nextMember_turns hg x
  | parameters => exact nextItem_turns _ x (parameter_reads hg)
  | arguments => exact nextItem_turns _ x (hg.parse .element hm)
  | elements => exact nextItem_turns _ x (hg.parse .element hm)
  | properties => exact nextItem_turns _ x (property_reads hg)
  | template =>
    intro c r d s st
    exact templatePart_agrees hg trivial st.context st.bound st.reading x
  | suffixes calls => exact suffix_turns hg calls x
  | sequence => exact nextInSequence_turns hg x
  | operands h =>
    have hlevels := fun level hl => OperatorLevel.kind_ne_endOfFile level (h.subset hl)
    refine nextOperand_turns _ (hlevels _ List.mem_cons_self) (fun _ => ?_) x
    exact ladder_reads hg fun level hl => hlevels level (List.mem_cons_of_mem _ hl)

end Procedures

lemma program_eq_whole {levels : Nat} (c : Context) (r : Reading) (hlevels : r.left < levels) :
    (Grammar.upTo levels).program c r = (Grammar.mk levels Grammar.whole).program c r ∧
      (Grammar.upTo levels).program c r ≠ .error .unfinished := by
  have hgrammars : (sameStart r).Grammars levels (Grammar.upTo levels)
      ⟨levels, Grammar.whole⟩ := {
    left := Nat.le_refl _
    right := Nat.le_refl _
    parse := fun part m hm => reads_of_finishes fun d s _ hleft =>
      Grammar.run_eq_whole part d s (Nat.lt_of_le_of_lt hleft hm) }
  have hstage := stage_at c (Nat.le_of_lt hlevels)
  obtain ⟨heq, hfinished, -⟩ := (hgrammars.program hlevels hstage).same fun _ _ _ _ => below_same
  exact ⟨heq, hfinished⟩

/-- With more levels than a source has characters, reading it comes to a result, which is the one
that `parse` gives. -/
theorem parse_eq_program (source : String) (limit : Nat) {levels : Nat}
    (hlevels : source.toList.length < levels) :
    (∃ node, (Cursor.ofSource source).program limit levels = .ok node ∧
      parse source limit = .ok node) ∨
    ∃ e, (Cursor.ofSource source).program limit levels = .error (.rejected e) ∧
      parse source limit = .error e := by
  rcases hnext : (Cursor.ofSource source).next with ⟨e | token, after⟩
  · refine Or.inr ⟨e, ?_, parse_of_fault hnext⟩
    simp only [Cursor.program, hnext]
  · have hleft := Nat.lt_of_le_of_lt (left_le_length hnext) hlevels
    have hrun : (Grammar.upTo levels).program ⟨limit, 0, false⟩ ⟨token, after⟩ =
        programOf source limit token after :=
      program_levels hleft (Nat.lt_add_right 1 (Nat.lt_succ_of_le (left_le_length hnext)))
    have hunderstood :=
      (Grammar.program_understands source levels).run ⟨limit, 0, false⟩ (.first hnext)
    have hfinished := (program_eq_whole ⟨limit, 0, false⟩ ⟨token, after⟩ hleft).2
    simp only [Cursor.program, hnext]
    rw [hrun] at hunderstood hfinished ⊢
    generalize hx : programOf source limit token after = x at hunderstood hfinished ⊢
    cases hunderstood with
    | ok => exact Or.inl ⟨_, rfl, parse_of_ok hnext hx⟩
    | rejected e => exact Or.inr ⟨e, rfl, parse_of_rejected hnext hx⟩
    | unfinished => exact absurd rfl hfinished

/-- Reading always comes to an end, whatever is left of the source and whatever the limit is. Let a
grammar have more levels than tokens are left, as it has from `parse` down to every part. Then each
procedure that succeeds has consumed a token, and so has each turn of a loop unless it is the last.
Constructs are read as by recursion on what is left: the equations of the grammar hold without
levels, and a part is asked for only behind a token of its construct. So no source is left
unfinished, and `parse` gives what its reading comes to. -/
theorem reading_ends :
    (∀ (c : Context) (r : Reading) (levels : Nat), r.left < levels →
      (∀ p, (Grammar.upTo levels).Procedure p → Finishes c r p) ∧
      (∀ {σ α : Type} {turn : σ → Parser (Turn σ α)}, (Grammar.upTo levels).Repetition turn →
        ∀ x, turn x c r ≠ .error .unfinished ∧
          ∀ y s, turn x c r = .ok (.again y, s) → r.Before s) ∧
      (∀ goal, Grammar.run levels goal c r = Grammar.whole goal c r ∧
        Grammar.whole goal c r = (Grammar.mk levels Grammar.whole).production goal c r) ∧
      (Grammar.upTo levels).program c r = (Grammar.mk levels Grammar.whole).program c r) ∧
    (∀ x y : Demand, x.Raises y → x.reading.Before y.reading) ∧
    (WellFounded fun y x : Demand => x.Raises y) ∧
    ∀ (source : String) (limit levels : Nat), source.toList.length < levels →
      (∃ node, (Cursor.ofSource source).program limit levels = .ok node ∧
        parse source limit = .ok node) ∨
      ∃ e, (Cursor.ofSource source).program limit levels = .error (.rejected e) ∧
        parse source limit = .error e := by
  refine ⟨fun c r levels hlevels => ?_, fun _ _ h => h.before, wellFounded_raises,
    fun source limit levels => parse_eq_program source limit⟩
  have hall := Nat.le_of_lt hlevels
  have hgrammars : (sameStart r).Grammars levels (Grammar.upTo levels) (Grammar.upTo levels) := by
    have hmin := Lockstep.upTo_grammars (L := sameStart r) levels levels
    rwa [Nat.min_self] at hmin
  refine ⟨fun p hp => ?_, fun hturn x => ?_, fun goal => ⟨?_, ?_⟩, ?_⟩
  · exact ((hp.reads hgrammars hlevels).finishes hall).2
  · exact (hturn.turns hgrammars hlevels x).finishes hall
  · exact (Grammar.run_eq_whole goal c r hlevels).1
  · exact Grammar.whole_eq_production goal c r hall
  · exact (program_eq_whole c r hlevels).1

/-- A template that is never closed. In front of it a sign asks for its operand, a name is read, and
the dot is a turn of a loop with another one behind it. -/
theorem ends_in_unclosed_template :
    ∃ (c : Context) (r s t u : Reading) (n : Node), c.limit = 1000000 ∧
      (Cursor.ofSource "!f.x(\x60").next = (.ok r.lookahead, r.cursor) ∧ r.left < 7 ∧
      Demand.Raises ⟨.unary, c, r⟩ ⟨.unary, c.deeper, s⟩ ∧ r.Before s ∧
      identifier c s = .ok (.identifier "f", t) ∧ s.Before t ∧
      (Grammar.upTo 7).suffix true (.identifier "f") c t = .ok (.again n, u) ∧ t.Before u ∧
      (Cursor.ofSource "!f.x(\x60").program 1000000 7 =
        .error (.rejected (.tokenMismatch .backtick .endOfFile (.ofOffsets 6 6))) := by
  let source := "!f.x(\x60"
  let c : Context := ⟨1000000, 0, false⟩
  let bang : Token := ⟨.bang, "!", .ofOffsets 0 1⟩
  let name : Token := ⟨.identifier, "f", .ofOffsets 1 2⟩
  let dot : Token := ⟨.dot, ".", .ofOffsets 2 3⟩
  let r : Reading := ⟨bang, (Cursor.ofSource source).next.2⟩
  let s : Reading := ⟨name, r.cursor.next.2⟩
  let t : Reading := ⟨dot, s.cursor.next.2⟩
  have hr : (Cursor.ofSource source).next = (.ok bang, r.cursor) :=
    Prod.ext (by decide +kernel) rfl
  have hs : r.cursor.next = (.ok name, s.cursor) := Prod.ext (by decide +kernel) rfl
  have ht : s.cursor.next = (.ok dot, t.cursor) := Prod.ext (by decide +kernel) rfl
  obtain ⟨n, u, hturn⟩ : ∃ n u,
      (Grammar.upTo 7).suffix true (.identifier "f") c t = .ok (.again n, u) := by
    have hgoes : (match (Grammar.upTo 7).suffix true (.identifier "f") c t with
        | .ok (.again _, _) => true
        | _ => false) = true := by
      decide +kernel
    split at hgoes
    next n u hrun => exact ⟨n, u, hrun⟩
    next => cases hgoes
  have hname : identifier c s = .ok (.identifier "f", t) := by
    unfold identifier
    rw [bind_of_ok (expect_of_next rfl ht)]
    rfl
  have hraises : Demand.Raises ⟨.unary, c, r⟩ ⟨.unary, c.deeper, s⟩ :=
    raises_operand rfl (by decide) hs (by decide)
  have herror : parse source 1000000 =
      .error (.tokenMismatch .backtick .endOfFile (.ofOffsets 6 6)) :=
    eq_error_of_test (by decide +kernel)
  refine ⟨c, r, s, t, u, n, rfl, hr, by decide +kernel, hraises, reading_ends.2.1 _ _ hraises,
    hname, ?_, hturn, ?_, ?_⟩
  · exact ((reading_ends.1 c s 7 (by decide +kernel)).1 _ .identifier).consumed _ _ hname
  · exact ((reading_ends.1 c t 7 (by decide +kernel)).2.1 (.suffixes true) _).2 _ _ hturn
  · rcases reading_ends.2.2.2 source 1000000 7 (by decide) with
      ⟨tree, -, hparse⟩ | ⟨e, hrun, hparse⟩
    · cases hparse.symm.trans herror
    · cases hparse.symm.trans herror
      exact hrun

end ScriptTree
