import ScriptTree.Proofs.RoundTrip

/-!
# Statements and how they are written

A tree of statements can be written down in many ways: behind most statements a semicolon may stand
or not, and the block of a loop that holds a single statement may go without its braces. `Writes`
relates statements to the lexemes with which they may be written. The expressions in them are plain
names.

Nothing but the lexemes ends a statement, so two things have to be minded. An `else` belongs to the
last `if` that is still without one; and a `return` without an argument is told from one with an
argument only by a semicolon or a closing brace.
-/

namespace ScriptTree

open ScriptTree.Parser

/-- A plain name. -/
inductive WritesName : Node → List String → Prop where
  | name {name : String} (h : IsToken .identifier name) : WritesName (.identifier name) [name]

/-- A part that may be missing. -/
inductive WritesPerhaps (R : Node → List String → Prop) : Option Node → List String → Prop where
  | absent : WritesPerhaps R none []
  | present {n : Node} {ts : List String} (h : R n ts) : WritesPerhaps R (some n) ts

/-- Parts with commas between them. -/
inductive WritesRow (R : Node → List String → Prop) : List Node → List String → Prop where
  | none : WritesRow R [] []
  | last {n : Node} {ts : List String} (h : R n ts) : WritesRow R [n] ts
  | cons {n m : Node} {ns : List Node} {ts us : List String} (h : R n ts)
      (hrest : WritesRow R (m :: ns) us) : WritesRow R (n :: m :: ns) (ts ++ "," :: us)

/-- A semicolon that may be left out. -/
inductive WritesEnd : List String → Prop where
  | absent : WritesEnd []
  | present : WritesEnd [";"]

/-- A name with the sign in front of it. -/
inductive WritesValue : Node → List String → Prop where
  | value {n : Node} {ts : List String} (h : WritesName n ts) : WritesValue n ("=" :: ts)

/-- The name that a handler gives to what was thrown, in its parentheses. -/
inductive WritesCaught : Node → List String → Prop where
  | caught {n : Node} {ts : List String} (h : WritesName n ts) :
      WritesCaught n ("(" :: (ts ++ [")"]))

/-- A parameter with its default, if it has one. -/
inductive WritesParameter : Node → List String → Prop where
  | plain {n : Node} {ts : List String} (h : WritesName n ts) : WritesParameter n ts
  | withDefault {n value : Node} {ts us : List String} (h : WritesName n ts)
      (hvalue : WritesValue value us) : WritesParameter (.assignmentPattern n value) (ts ++ us)

/-- A variable with its value, if it has one, without a semicolon. -/
inductive WritesDeclaration : Node → List String → Prop where
  | declaration {kind : VariableKind} {id : Node} {value : Option Node} {ts us : List String}
      (hid : WritesName id ts) (hvalue : WritesPerhaps WritesValue value us) :
      WritesDeclaration (.variableDeclaration id value kind) (kind.text :: (ts ++ us))

/-- What stands first in the head of a loop. -/
inductive WritesStart : Node → List String → Prop where
  | declaration {n : Node} {ts : List String} (h : WritesDeclaration n ts) : WritesStart n ts
  | expression {n : Node} {ts : List String} (h : WritesName n ts) : WritesStart n ts

/-- What is written down. A statement and the body of a loop may end in an `if` without `else`, in
front of which no `else` may stand. -/
inductive Script where
  | statement (openIf : Bool) (node : Node)
  | row (nodes : List Node)
  | block (node : Node)
  | loopBody (openIf : Bool) (node : Node)
  | handler (node? : Option Node)
  | finalizer (node? : Option Node)

/-- The last lexeme is the word of a `return` without argument and without semicolon. -/
def EndsInReturn (ts : List String) : Prop :=
  ts.getLast? = some "return"

/-- Lexemes with which statements may be written, inside of a function or outside. -/
inductive Writes : Bool → Script → List String → Prop where
  | rowNil {f} : Writes f (.row []) []
  | rowCons {f o n ns ts us} (h : Writes f (.statement o n) ts) (hrow : Writes f (.row ns) us)
      (hreturn : us ≠ [] → ¬EndsInReturn ts) : Writes f (.row (n :: ns)) (ts ++ us)
  | block {f ns ts} (h : Writes f (.row ns) ts) :
      Writes f (.block (.blockStatement ns)) ("\x7b" :: (ts ++ ["\x7d"]))
  | blockStatement {f n ts} (h : Writes f (.block n) ts) : Writes f (.statement false n) ts
  | expression {f n ts us} (h : WritesName n ts) (hend : WritesEnd us) :
      Writes f (.statement false n) (ts ++ us)
  | declaration {f n ts us} (h : WritesDeclaration n ts) (hend : WritesEnd us) :
      Writes f (.statement false n) (ts ++ us)
  | breakStatement {f us} (hend : WritesEnd us) :
      Writes f (.statement false .breakStatement) ("break" :: us)
  | continueStatement {f us} (hend : WritesEnd us) :
      Writes f (.statement false .continueStatement) ("continue" :: us)
  | throwStatement {f n ts us} (h : WritesName n ts) (hend : WritesEnd us) :
      Writes f (.statement false (.throwStatement n)) ("throw" :: (ts ++ us))
  | returnStatement {n? ts us} (h : WritesPerhaps WritesName n? ts) (hend : WritesEnd us) :
      Writes true (.statement false (.returnStatement n?)) ("return" :: (ts ++ us))
  | ifThen {f o test ts n us} (htest : WritesName test ts) (h : Writes f (.statement o n) us) :
      Writes f (.statement true (.ifStatement test n none)) ("if" :: "(" :: (ts ++ ")" :: us))
  | ifElse {f o test ts n us m vs} (htest : WritesName test ts)
      (h : Writes f (.statement false n) us) (hreturn : ¬EndsInReturn us)
      (helse : Writes f (.statement o m) vs) :
      Writes f (.statement o (.ifStatement test n (some m)))
        ("if" :: "(" :: (ts ++ ")" :: (us ++ "else" :: vs)))
  | whileStatement {f o test ts n us} (htest : WritesName test ts)
      (h : Writes f (.statement o n) us) :
      Writes f (.statement o (.whileStatement test n)) ("while" :: "(" :: (ts ++ ")" :: us))
  | doWhileStatement {f o n ts test us vs} (h : Writes f (.statement o n) ts)
      (hreturn : ¬EndsInReturn ts) (htest : WritesName test us) (hend : WritesEnd vs) :
      Writes f (.statement false (.doWhileStatement n test))
        ("do" :: (ts ++ "while" :: "(" :: (us ++ ")" :: vs)))
  | loopBlock {f n ts} (h : Writes f (.block n) ts) : Writes f (.loopBody false n) ts
  | loopSingle {f o n ts} (h : Writes f (.statement o n) ts) (hblock : ts.head? ≠ some "\x7b") :
      Writes f (.loopBody o (.blockStatement [n])) ts
  | forStatement {f o init ts test us update vs n ws} (hinit : WritesPerhaps WritesStart init ts)
      (htest : WritesPerhaps WritesName test us) (hupdate : WritesPerhaps WritesName update vs)
      (h : Writes f (.loopBody o n) ws) :
      Writes f (.statement o (.forStatement init test update n))
        ("for" :: "(" :: (ts ++ ";" :: (us ++ ";" :: (vs ++ ")" :: ws))))
  | forOfStatement {f o left ts right us n vs} (hleft : WritesStart left ts)
      (hright : WritesName right us) (h : Writes f (.loopBody o n) vs) :
      Writes f (.statement o (.forOfStatement left right n))
        ("for" :: "(" :: (ts ++ "of" :: (us ++ ")" :: vs)))
  | noHandler {f} : Writes f (.handler none) []
  | handler {f param ts n us} (hparam : WritesPerhaps WritesCaught param ts)
      (h : Writes f (.block n) us) :
      Writes f (.handler (some (.catchClause param n))) ("catch" :: (ts ++ us))
  | noFinalizer {f} : Writes f (.finalizer none) []
  | finalizer {f n ts} (h : Writes f (.block n) ts) :
      Writes f (.finalizer (some n)) ("finally" :: ts)
  | tryStatement {f n ts handler us finalizer vs} (h : Writes f (.block n) ts)
      (hhandler : Writes f (.handler handler) us) (hfinalizer : Writes f (.finalizer finalizer) vs)
      (hsome : handler.isSome = true ∨ finalizer.isSome = true) :
      Writes f (.statement false (.tryStatement n handler finalizer)) ("try" :: (ts ++ (us ++ vs)))
  | functionDeclaration {f generator isAsync id ts params us n vs} (hid : WritesName id ts)
      (hparams : WritesRow WritesParameter params us) (h : Writes true (.block n) vs) :
      Writes f (.statement false (.functionDeclaration id generator isAsync params n))
        ((if isAsync then ["async"] else []) ++
          (if generator then "function*" else "function") :: (ts ++ "(" :: (us ++ ")" :: vs)))

/-- The kinds of the words and marks of statements. Each has one spelling, its name. -/
def statementMarks : List Kind :=
  [.lBrace, .rBrace, .lParen, .rParen, .semicolon, .comma, .kwBreak, .kwContinue, .kwThrow,
   .kwReturn, .kwIf, .kwElse, .kwWhile, .kwDo, .kwFor, .kwOf, .kwTry, .kwCatch, .kwFinally, .kwAsync]

lemma onLine_plain : ∀ text ∈ VariableKind.all.map VariableKind.text ++ statementMarks.map Kind.name,
    OnLine text := by
  have hall : ∀ text ∈ VariableKind.all.map VariableKind.text ++ statementMarks.map Kind.name,
      IsPlain text.toList ∧ "function".toList.isPrefixOf text.toList = false ∧
      Rule.first? text.toList = some (some (kindOf text), text.toList.length) := by
    decide +kernel
  intro text htext
  obtain ⟨hplain, hne, hrule⟩ := hall text htext
  exact onLine_of_isPlain hplain hne hrule

lemma onLine_mark (kind : Kind) (h : statementMarks.contains kind = true) : OnLine kind.name :=
  onLine_plain _ (List.mem_append_right _ (List.mem_map_of_mem (List.contains_iff_mem.1 h)))

lemma onLine_keyword (kind : VariableKind) : OnLine kind.text := by
  refine onLine_plain _ (List.mem_append_left _ (List.mem_map_of_mem ?_))
  cases kind <;> decide

lemma kindOf_mark (kind : Kind) (h : statementMarks.contains kind = true) :
    kindOf kind.name = kind := by
  have hall : ∀ kind ∈ statementMarks, kindOf kind.name = kind := by
    decide +kernel
  exact hall kind (List.contains_iff_mem.1 h)

lemma kindOf_lBrace : kindOf "\x7b" = .lBrace :=
  kindOf_mark .lBrace rfl

lemma kindOf_rBrace : kindOf "\x7d" = .rBrace :=
  kindOf_mark .rBrace rfl

lemma kindOf_lParen : kindOf "(" = .lParen :=
  kindOf_mark .lParen rfl

lemma kindOf_rParen : kindOf ")" = .rParen :=
  kindOf_mark .rParen rfl

lemma kindOf_semicolon : kindOf ";" = .semicolon :=
  kindOf_mark .semicolon rfl

lemma kindOf_comma : kindOf "," = .comma :=
  kindOf_mark .comma rfl

lemma kindOf_break : kindOf "break" = .kwBreak :=
  kindOf_mark .kwBreak rfl

lemma kindOf_continue : kindOf "continue" = .kwContinue :=
  kindOf_mark .kwContinue rfl

lemma kindOf_throw : kindOf "throw" = .kwThrow :=
  kindOf_mark .kwThrow rfl

lemma kindOf_return : kindOf "return" = .kwReturn :=
  kindOf_mark .kwReturn rfl

lemma kindOf_if : kindOf "if" = .kwIf :=
  kindOf_mark .kwIf rfl

lemma kindOf_else : kindOf "else" = .kwElse :=
  kindOf_mark .kwElse rfl

lemma kindOf_while : kindOf "while" = .kwWhile :=
  kindOf_mark .kwWhile rfl

lemma kindOf_do : kindOf "do" = .kwDo :=
  kindOf_mark .kwDo rfl

lemma kindOf_for : kindOf "for" = .kwFor :=
  kindOf_mark .kwFor rfl

lemma kindOf_of : kindOf "of" = .kwOf :=
  kindOf_mark .kwOf rfl

lemma kindOf_try : kindOf "try" = .kwTry :=
  kindOf_mark .kwTry rfl

lemma kindOf_catch : kindOf "catch" = .kwCatch :=
  kindOf_mark .kwCatch rfl

lemma kindOf_finally : kindOf "finally" = .kwFinally :=
  kindOf_mark .kwFinally rfl

lemma kindOf_async : kindOf "async" = .kwAsync :=
  kindOf_mark .kwAsync rfl

lemma kindOf_equals : kindOf "=" = .assignment := by
  decide +kernel

lemma kindOf_keyword (kind : VariableKind) : kindOf kind.text = .kwLetOrConst := by
  cases kind <;> decide +kernel

lemma onLine_functionStar : kindOf "function*" = .kwFunctionStar ∧ OnLine "function*" := by
  refine ⟨by decide +kernel, ?_⟩
  rintro rest (rfl | ⟨tail, rfl⟩) <;> rfl

/-- The lexemes of some texts in front of others. -/
def lexemesBefore (ts : List String) (rest : List (Kind × String)) : List (Kind × String) :=
  ts.map lexemeOf ++ rest

@[simp] lemma lexemesBefore_nil (rest : List (Kind × String)) : lexemesBefore [] rest = rest := rfl

@[simp] lemma lexemesBefore_cons (text : String) (ts : List String) (rest : List (Kind × String)) :
    lexemesBefore (text :: ts) rest = (kindOf text, text) :: lexemesBefore ts rest := rfl

@[simp] lemma lexemesBefore_append (ts us : List String) (rest : List (Kind × String)) :
    lexemesBefore (ts ++ us) rest = lexemesBefore ts (lexemesBefore us rest) := by
  simp [lexemesBefore]

lemma kindOf_functionWord (generator : Bool) :
    kindOf (if generator then "function*" else "function") =
      if generator then .kwFunctionStar else .kwFunction := by
  cases generator
  · exact kindOf_function
  · exact onLine_functionStar.1

/-- The kinds with which a statement begins. -/
def Kind.startsStatement : Kind → Bool
  | identifier | kwLetOrConst | kwBreak | kwContinue | kwThrow | kwReturn | lBrace | kwIf | kwWhile
  | kwDo | kwFor | kwTry | kwFunction | kwFunctionStar | kwAsync => true
  | _ => false

/-- The kinds that may stand behind a statement. -/
def Kind.followsStatement (kind : Kind) : Bool :=
  kind.startsStatement || kind == .rBrace || kind == .kwElse || kind == .endOfFile

lemma Kind.facts_of_followsStatement {kind : Kind} (h : kind.followsStatement = true) :
    kind.grip? = none ∧ kind ≠ .semicolon ∧ kind ≠ .kwCatch ∧ kind ≠ .kwFinally := by
  revert h
  cases kind <;> decide

lemma Kind.followsStatement_of_starts {kind : Kind} (h : kind.startsStatement = true) :
    kind.followsStatement = true ∧ kind ≠ .kwElse ∧ kind ≠ .rBrace ∧ kind ≠ .endOfFile := by
  revert h
  cases kind <;> decide

namespace Takes

variable {β : Type} {c : Context} {ls rest : List (Kind × String)} {text : String} {kind : Kind}
  {p : Parser β} {b : β}

lemma expect_mark (hkind : kindOf text = kind) (h : Takes p c ls b rest) :
    Takes (expect kind >>= fun _ => p) c ((kindOf text, text) :: ls) b rest := by
  rw [hkind]
  exact expect_skip h

lemma accept_mark {f : Bool → Parser β} (hkind : kindOf text = kind)
    (h : Takes (f true) c ls b rest) :
    Takes (accept kind >>= f) c ((kindOf text, text) :: ls) b rest := by
  rw [hkind]
  exact accept_pos h

/-- What stands behind a token that is there. -/
lemma optionally_mark {α : Type} {p : Parser α} {a : α} (hkind : kindOf text = kind)
    (h : Takes p c ls a rest) :
    Takes (optionally kind p) c ((kindOf text, text) :: ls) (some a) rest :=
  accept_mark hkind (h.map some)

/-- Nothing stands behind a token that is not there. -/
lemma optionally_none {α : Type} {p : Parser α} (hkind : headKind ls ≠ kind) :
    Takes (optionally kind p) c ls none ls :=
  accept_neg hkind (Takes.pure none)

end Takes

section Parts

variable {e : Node} {ts : List String} {n : Nat} {c : Context} {rest : List (Kind × String)}

lemma WritesName.headKind (h : WritesName e ts) (rest : List (Kind × String)) :
    headKind (lexemesBefore ts rest) = .identifier := by
  cases h with
  | name h => exact (onLine_of_name h).1

lemma WritesName.length (h : WritesName e ts) : ts.length = 1 := by
  cases h
  rfl

lemma WritesName.identifier (h : WritesName e ts) (rest : List (Kind × String)) :
    Takes identifier c (lexemesBefore ts rest) e rest := by
  cases h with
  | name h =>
    rw [lexemesBefore_cons, (onLine_of_name h).1]
    exact identifier_takes

lemma WritesName.sequence (h : WritesName e ts) (hlevels : 0 < n) (hdepth : c.depth < c.limit)
    (rest : List (Kind × String)) (hends : (ScriptTree.headKind rest).grip? = none) :
    Takes (Grammar.upTo n).sequence c (lexemesBefore ts rest) e rest := by
  cases h with
  | name h =>
    exact (readable_name h).read 0 (by omega) (by omega) n c rest ⟨hlevels, hdepth⟩
      (ends_of_grip?_eq_none hends)

lemma WritesName.assignment (h : WritesName e ts) (hlevels : 0 < n) (hdepth : c.depth < c.limit)
    (hends : Ends 1 rest) :
    Takes (Grammar.upTo n).assignment c (lexemesBefore ts rest) e rest := by
  cases h with
  | @name name h =>
    have hread : Takes (Grammar.upTo n).operation c ((Node.identifier name).lexemes ++ rest)
        (.identifier name) rest :=
      (readable_name h).read 2 (by omega) (by simp [Node.level]) n c rest ⟨hlevels, hdepth⟩
        (hends.mono (by omega))
    refine hread.bind (Takes.lookahead_bind fun t ht => ?_)
    have hassignment : ScriptTree.headKind rest ≠ .assignment := hends.ne rfl (Nat.le_refl 1)
    have hcomplex : ScriptTree.headKind rest ≠ .complexAssignment := hends.ne rfl (Nat.le_refl 1)
    rw [ht, if_neg (by simp [hassignment, hcomplex])]
    exact Takes.pure _

/-- A name as the condition of a statement. -/
lemma WritesName.condition (h : WritesName e ts) (hlevels : 1 < n) (hdepth : c.depth < c.limit)
    (rest : List (Kind × String)) :
    Takes (Grammar.upTo n).condition c
      ((kindOf "(", "(") :: lexemesBefore ts ((kindOf ")", ")") :: rest)) e rest := by
  obtain ⟨n, rfl⟩ : ∃ d, n = d + 1 := ⟨n - 1, by omega⟩
  have hname := h.sequence (n := n) (by omega) hdepth ((kindOf ")", ")") :: rest)
    (by rw [headKind_cons, kindOf_rParen]; rfl)
  refine Takes.expect_mark kindOf_lParen ?_
  refine hname.bind ?_
  exact Takes.expect_mark kindOf_rParen (Takes.pure _)

variable {us : List String}

/-- Behind the semicolon there comes what may follow a statement, and so it does if there is no
semicolon. -/
lemma WritesEnd.grip? (h : WritesEnd us) (hrest : (headKind rest).followsStatement = true) :
    (headKind (lexemesBefore us rest)).grip? = none := by
  cases h with
  | absent => exact (Kind.facts_of_followsStatement hrest).1
  | present =>
    rw [lexemesBefore_cons, headKind_cons, kindOf_semicolon]
    rfl

lemma WritesEnd.accept {β : Type} {p : Parser β} {b : β} {rest' : List (Kind × String)}
    (h : WritesEnd us) (hrest : (headKind rest).followsStatement = true)
    (hp : Takes p c rest b rest') :
    Takes (accept .semicolon >>= fun _ => p) c (lexemesBefore us rest) b rest' := by
  cases h with
  | absent => exact Takes.accept_neg (Kind.facts_of_followsStatement hrest).2.1 hp
  | present => exact Takes.accept_mark kindOf_semicolon hp

/-- A value, if there is one, behind its sign. -/
lemma WritesPerhaps.value {value : Option Node} (h : WritesPerhaps WritesValue value us)
    (hlevels : 1 < n) (hdepth : c.depth < c.limit) (hends : (headKind rest).grip? = none) :
    Takes (optionally .assignment ((Grammar.upTo n).parse .sequence)) c (lexemesBefore us rest)
      value rest := by
  obtain ⟨n, rfl⟩ : ∃ d, n = d + 1 := ⟨n - 1, by omega⟩
  cases h with
  | absent =>
    have hends : Ends 1 rest := ends_of_grip?_eq_none hends
    exact Takes.optionally_none (hends.ne rfl le_rfl)
  | present h =>
    cases h with
    | value h => exact Takes.optionally_mark kindOf_equals (h.sequence (by omega) hdepth rest hends)

lemma WritesDeclaration.takes (h : WritesDeclaration e ts) (hlevels : 1 < n)
    (hdepth : c.depth < c.limit) (hends : (headKind rest).grip? = none) :
    Takes (Grammar.upTo n).variableDeclaration c (lexemesBefore ts rest) e rest := by
  cases h with
  | @declaration kind id value ts us hid hvalue =>
    rw [lexemesBefore_cons, lexemesBefore_append, kindOf_keyword]
    refine Takes.expect_bind fun t ht => ?_
    have htext : t.text = kind.text := congrArg Prod.snd ht
    have hkind : VariableKind.ofText? t.text = some kind := by
      rw [htext]
      cases kind <;> decide
    refine Takes.spelled_bind hkind ((hid.identifier _).bind ?_)
    exact (hvalue.value hlevels hdepth hends).bind (Takes.pure _)

lemma WritesDeclaration.headKind (h : WritesDeclaration e ts) (rest : List (Kind × String)) :
    headKind (lexemesBefore ts rest) = .kwLetOrConst := by
  cases h
  exact kindOf_keyword _

/-- A clause in the head of a loop with the mark that ends it. -/
lemma WritesPerhaps.clause {clause : Option Node} {text : String} {ending : Kind}
    (h : WritesPerhaps WritesName clause us) (hkind : kindOf text = ending)
    (hending : ending.grip? = none ∧ ending ≠ .identifier) (hlevels : 1 < n)
    (hdepth : c.depth < c.limit) (rest : List (Kind × String)) :
    Takes ((Grammar.upTo n).loopClause ending) c (lexemesBefore us ((kindOf text, text) :: rest))
      clause rest := by
  obtain ⟨n, rfl⟩ : ∃ d, n = d + 1 := ⟨n - 1, by omega⟩
  cases h with
  | absent =>
    have hnone : Takes ((Grammar.upTo (n + 1)).sequenceUnless ending) c
        ((kindOf text, text) :: rest) none ((kindOf text, text) :: rest) :=
      Takes.sees_pos hkind (Takes.pure _)
    exact hnone.bind (Takes.expect_mark hkind (Takes.pure _))
  | @present e us h =>
    have hname := h.sequence (n := n) (by omega) hdepth ((kindOf text, text) :: rest)
      (by rw [headKind_cons, hkind]; exact hending.1)
    have hsome : Takes ((Grammar.upTo (n + 1)).sequenceUnless ending) c
        (lexemesBefore us ((kindOf text, text) :: rest)) (some e) ((kindOf text, text) :: rest) := by
      refine Takes.sees_neg ?_ (hname.map some)
      rw [h.headKind]
      exact hending.2.symm
    exact hsome.bind (Takes.expect_mark hkind (Takes.pure _))

/-- What stands first in the head of a loop, in front of a semicolon or of the word `of`. -/
lemma WritesPerhaps.loopStart {start : Option Node} (h : WritesPerhaps WritesStart start us)
    (hlevels : 1 < n) (hdepth : c.depth < c.limit)
    (hrest : headKind rest = .semicolon ∨ start ≠ none ∧ headKind rest = .kwOf) :
    Takes (Grammar.upTo n).loopStart c (lexemesBefore us rest) start rest := by
  obtain ⟨n, rfl⟩ : ∃ d, n = d + 1 := ⟨n - 1, by omega⟩
  have hends : (headKind rest).grip? = none := by
    rcases hrest with hrest | ⟨-, hrest⟩ <;> rw [hrest] <;> rfl
  cases h with
  | absent =>
    obtain hrest | ⟨hne, -⟩ := hrest
    · refine Takes.lookahead_bind fun t ht => ?_
      rw [ht, lexemesBefore_nil, hrest]
      exact Takes.pure _
    · exact absurd rfl hne
  | present h =>
    cases h with
    | declaration h =>
      refine Takes.lookahead_bind fun t ht => ?_
      rw [ht, h.headKind]
      exact (h.takes hlevels hdepth hends).map some
    | expression h =>
      refine Takes.lookahead_bind fun t ht => ?_
      rw [ht, h.headKind]
      exact (h.sequence (by omega) hdepth rest hends).map some

end Parts

/-- The loop over parts with commas between them, in front of a closing token. -/
lemma WritesRow.loop_takes {R : Node → List String → Prop} {ns : List Node} {ts : List String}
    (h : WritesRow R ns ts) {item : Parser Node} {close : Kind} {c : Context}
    {rest : List (Kind × String)} (hclose : headKind rest = close) (hcomma : close ≠ .comma)
    (hitem : ∀ e us more, R e us → headKind more = .comma ∨ headKind more = close →
      headKind (lexemesBefore us more) ≠ close ∧ Takes item c (lexemesBefore us more) e more)
    (read : List Node) (b : Nat) (hb : ns.length < b) :
    Takes (loop (Grammar.nextItem close item) b read) c (lexemesBefore ts rest) (read.reverse ++ ns)
      rest := by
  have hdone : ∀ read : List Node, Takes (Grammar.nextItem close item read) c rest
      (.done read.reverse) rest :=
    fun read => Takes.sees_pos hclose (Takes.pure _)
  induction h generalizing read b with
  | none =>
    obtain ⟨b, rfl⟩ : ∃ d, b = d + 1 := ⟨b - 1, by simp at hb; omega⟩
    rw [List.append_nil]
    exact Takes.loop_done (hdone read)
  | @last n ts h =>
    obtain ⟨b, rfl⟩ : ∃ d, b = d + 2 := ⟨b - 2, by simp at hb; omega⟩
    obtain ⟨hne, htakes⟩ := hitem n ts rest h (Or.inr hclose)
    have hturn : Takes (Grammar.nextItem close item read) c (lexemesBefore ts rest)
        (.again (n :: read)) rest := Takes.nextItem_last hne htakes hclose
    refine Takes.loop_again hturn (Takes.loop_done ?_)
    rw [← List.reverse_cons]
    exact hdone (n :: read)
  | @cons n m ns ts us h _ ih =>
    simp only [List.length_cons] at hb ih
    obtain ⟨b, rfl⟩ : ∃ d, b = d + 1 := ⟨b - 1, by omega⟩
    have hkind := kindOf_comma
    obtain ⟨hne, htakes⟩ := hitem n ts (lexemesBefore ("," :: us) rest) h (Or.inl hkind)
    have hturn : Takes (Grammar.nextItem close item read) c
        (lexemesBefore (ts ++ "," :: us) rest) (.again (n :: read)) (lexemesBefore us rest) := by
      rw [lexemesBefore_append]
      rw [lexemesBefore_cons, hkind] at htakes ⊢
      exact Takes.nextItem_comma hne htakes hcomma
    have hrest := ih (n :: read) b (by omega)
    rw [List.reverse_cons, List.append_assoc] at hrest
    exact Takes.loop_again hturn hrest

section Parameters

variable {e : Node} {ns : List Node} {ts : List String} {n : Nat} {c : Context}
  {rest : List (Kind × String)}

lemma WritesParameter.takes (h : WritesParameter e ts) (hlevels : 1 < n) (hdepth : c.depth < c.limit)
    (hends : Ends 1 rest) :
    headKind (lexemesBefore ts rest) = .identifier ∧
      Takes (Grammar.upTo n).parameter c (lexemesBefore ts rest) e rest := by
  obtain ⟨n, rfl⟩ : ∃ d, n = d + 1 := ⟨n - 1, by omega⟩
  cases h with
  | plain h =>
    refine ⟨h.headKind rest, (h.identifier rest).bind ?_⟩
    exact Takes.accept_neg (hends.ne rfl le_rfl) (Takes.pure _)
  | withDefault h hvalue =>
    cases hvalue with
    | value hvalue =>
      rw [lexemesBefore_append, lexemesBefore_cons]
      refine ⟨h.headKind _, (h.identifier _).bind (Takes.accept_mark kindOf_equals ?_)⟩
      exact (hvalue.assignment (by omega) hdepth hends).bind (Takes.pure _)

lemma WritesParameter.length_pos (h : WritesParameter e ts) : 0 < ts.length := by
  cases h with
  | plain h => rw [h.length]; omega
  | withDefault h hvalue => rw [List.length_append, h.length]; omega

lemma WritesRow.length_le {R : Node → List String → Prop} (h : WritesRow R ns ts)
    (hitem : ∀ e us, R e us → 0 < us.length) : ns.length ≤ ts.length := by
  induction h with
  | none => exact le_rfl
  | last h => exact hitem _ _ h
  | cons h _ ih =>
    have hpos := hitem _ _ h
    simp only [List.length_append, List.length_cons] at ih ⊢
    omega

lemma WritesRow.parameters (h : WritesRow WritesParameter ns ts) (hlevels : ts.length + 1 < n)
    (hdepth : c.depth < c.limit) (rest : List (Kind × String)) :
    Takes (Grammar.upTo n).parameters c
      ((kindOf "(", "(") :: lexemesBefore ts ((kindOf ")", ")") :: rest)) ns rest := by
  have hlength := h.length_le fun e us he => he.length_pos
  have hkind : headKind ((kindOf ")", ")") :: rest) = .rParen := kindOf_rParen
  have hitem : ∀ e us more, WritesParameter e us →
      headKind more = .comma ∨ headKind more = .rParen →
      headKind (lexemesBefore us more) ≠ .rParen ∧
        Takes (Grammar.upTo n).parameter c (lexemesBefore us more) e more := by
    intro e us more he hmore
    have hends : Ends 1 more := by
      intro k hk
      rcases hmore with hmore | hmore <;> rw [hmore] at hk <;> cases hk
      omega
    obtain ⟨hhead, htakes⟩ := he.takes (n := n) (by omega) hdepth hends
    exact ⟨by rw [hhead]; decide, htakes⟩
  have hloop : Takes (loop (Grammar.nextItem .rParen (Grammar.upTo n).parameter) n []) c
      (lexemesBefore ts ((kindOf ")", ")") :: rest)) ns ((kindOf ")", ")") :: rest) :=
    h.loop_takes hkind (by decide) hitem [] n (by omega)
  refine Takes.expect_mark kindOf_lParen ?_
  refine hloop.bind ?_
  exact Takes.expect_mark kindOf_rParen (Takes.pure _)

end Parameters

end ScriptTree
